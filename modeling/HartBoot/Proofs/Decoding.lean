import HartBoot.Proofs.Encoding
import HartBoot.Proofs.Independence

/-! # Entries are decoded to the blocks that they were set to

What a hart matches with an entry is all that there is to the entry of a block: it tells the size of
the block, and where it lies. So an entry that reads back as it was set protects the block that it was
given, and two blocks leave the same entry behind only if they are the same block. The reference is
again arithmetic on addresses: those of one block agree above its order.
-/

namespace HartBoot

namespace Word

/-- Of two blocks, the larger one has addresses that the smaller one does not have. -/
theorem le_of_blocks {base start : Word} {order size : Nat} (bounded : size ≤ 64)
    (same : ∀ byte : Word, byte >>> order = base >>> order ↔ byte >>> size = start >>> size) :
    size ≤ order := by
  by_contra! smaller
  -- flipping the lowest bit that tells the smaller block leaves it, but stays in the larger one
  have inside : order < 64 := by omega
  have flipped (position : Nat) :
      (base ^^^ BitVec.twoPow 64 order).getLsbD position =
        (base.getLsbD position ^^ decide (order = position)) := by
    rw [BitVec.getLsbD_xor, BitVec.getLsbD_twoPow, decide_eq_true inside, Bool.true_and]
  have outside : (base ^^^ BitVec.twoPow 64 order) >>> order ≠ base >>> order := by
    intro agree
    have bit := congrArg (fun word : Word => word.getLsbD 0) agree
    simp only [BitVec.getLsbD_ushiftRight, flipped] at bit
    simp at bit
  have within : (base ^^^ BitVec.twoPow 64 order) >>> size = base >>> size := by
    apply BitVec.eq_of_getLsbD_eq
    intro position _
    have above : order ≠ size + position := by omega
    rw [BitVec.getLsbD_ushiftRight, BitVec.getLsbD_ushiftRight, flipped, decide_eq_false above,
      Bool.xor_false]
  exact outside ((same _).mpr (within.trans ((same base).mp rfl)))

/-- A block is known by its addresses. -/
theorem block_inj {base start : Word} {order size : Nat} (bounded : order ≤ 64)
    (limited : size ≤ 64)
    (same : ∀ byte : Word, byte >>> order = base >>> order ↔ byte >>> size = start >>> size) :
    order = size ∧ base >>> order = start >>> order := by
  have equal : order = size := by
    apply Nat.le_antisymm
    · exact le_of_blocks bounded fun byte => (same byte).symm
    · exact le_of_blocks limited same
  subst equal
  exact ⟨rfl, (same base).mp rfl⟩

end Word

/-- An octet is kept as it is written where all of its register can be written. -/
theorem Register.settleOctet_of_writable_ones {register : Register}
    (full : register.writable = Word.ones) (entry : Fin 64) (octet : Byte) :
    register.settleOctet entry octet = octet := by
  rw [← octetOf_putOctet_self, putOctet, store]
  dsimp only
  rw [settle_of_writable_ones full, PmpSetting.octetOf_replaceOctet, if_pos rfl]

namespace PmpFlags

/-- A matching mode has no permissions. -/
theorem withoutMatching_union {mode : PmpFlags} (listed : mode ∈ [PmpFlags.na4, PmpFlags.napot])
    (flags : PmpFlags) : (flags.withoutMatching ∪ mode).withoutMatching = flags.withoutMatching := by
  have cleared : mode.bits &&& ~~~matching.bits = 0 := by
    revert mode
    decide
  ext1
  simp only [withoutMatching, FlagSet.bits_sdiff, FlagSet.bits_union]
  rw [BitVec.and_or_distrib_right, cleared, BitVec.and_assoc, BitVec.and_self]
  exact BitVec.or_zero

end PmpFlags

namespace Protection

variable {flags given : PmpFlags} {base start : Word} {order size : Nat}

/-- The matching mode of a block depends on its size only. -/
theorem blockAddress_fst (base : Word) (order : Nat) :
    (blockAddress base order).1 = if order = 2 then PmpFlags.na4 else PmpFlags.napot := by
  unfold blockAddress minOrder
  split
  next => rfl
  next => split <;> rfl

/-- The addresses of a block are all encoded in the same way. -/
theorem blockAddress_congr (low : 2 ≤ order) (high : order ≤ 64)
    (block : base >>> order = start >>> order) :
    blockAddress base order = blockAddress start order := by
  rcases Nat.eq_or_lt_of_le low with rfl | above
  · exact congrArg (PmpFlags.na4, ·) block
  · rcases Nat.eq_or_lt_of_le high with rfl | below
    · rfl
    · have quotient := (Word.shiftRight_eq_iff base start order).mp block
      obtain ⟨first, firstForm⟩ := toNat_blockAddress base above below
      obtain ⟨second, secondForm⟩ := toNat_blockAddress start above below
      apply Prod.ext
      · exact first.trans second.symm
      · apply BitVec.eq_of_toNat_eq
        rw [firstForm, secondForm, quotient]

/-- The configuration of the entry of a block. -/
def blockConfig (flags : PmpFlags) (order : Nat) : PmpFlags :=
  flags.withoutMatching ∪ if order = 2 then PmpFlags.na4 else PmpFlags.napot

theorem blockConfig_withoutMatching (flags : PmpFlags) (order : Nat) :
    (blockConfig flags order).withoutMatching = flags.withoutMatching := by
  apply PmpFlags.withoutMatching_union
  split <;> decide

/-- The entry of a block is decoded to that block. -/
theorem covers_blockConfig {reading : PmpReading} (low : 2 ≤ order) (high : order ≤ 64)
    (octet : reading.octet = (blockConfig flags order).bits)
    (address : reading.address = (blockAddress base order).2) (byte : Word) :
    reading.covers byte = true ↔ byte >>> order = base >>> order := by
  rw [blockConfig, ← blockAddress_fst base order] at octet
  rw [covers_block low high octet address, Word.shiftRight_eq_iff]

/-- Two blocks have the same entry if and only if they are one block with the same permissions. -/
theorem block_entry_inj (low : 2 ≤ order) (high : order ≤ 64) (least : 2 ≤ size) (most : size ≤ 64) :
    (blockConfig flags order).bits = (blockConfig given size).bits ∧
        (blockAddress base order).2 = (blockAddress start size).2 ↔
      order = size ∧ flags.withoutMatching = given.withoutMatching ∧
        base >>> order = start >>> order := by
  constructor
  · rintro ⟨octet, address⟩
    have permissions : flags.withoutMatching = given.withoutMatching := by
      rw [← blockConfig_withoutMatching flags order, FlagSet.ext octet, blockConfig_withoutMatching]
    -- what the entry is decoded to does not depend on which of the two blocks it was set to
    let reading : PmpReading :=
      { octet := (blockConfig flags order).bits
        address := (blockAddress base order).2
        previous := 0 }
    have first (byte : Word) : reading.covers byte = true ↔ byte >>> order = base >>> order :=
      covers_blockConfig low high rfl rfl byte
    have second (byte : Word) : reading.covers byte = true ↔ byte >>> size = start >>> size :=
      covers_blockConfig least most octet address byte
    have same (byte : Word) : byte >>> order = base >>> order ↔ byte >>> size = start >>> size :=
      (first byte).symm.trans (second byte)
    obtain ⟨sized, block⟩ := Word.block_inj high most same
    exact ⟨sized, permissions, block⟩
  · rintro ⟨rfl, permissions, block⟩
    refine ⟨?_, ?_⟩
    · rw [blockConfig, permissions, blockConfig]
    · rw [blockAddress_congr low high block]

end Protection

/-- The registers of an entry keep whatever is written to them. -/
structure CsrFile.KeepsEntry (file : CsrFile) (entry : Fin 64) : Prop where
  config : ∃ value : Word,
    file[PmpSetting.configRegister entry]? = some { value, writable := Word.ones }
  address : ∃ value : Word, file[Csr.pmpaddr entry]? = some { value, writable := Word.ones }

theorem CsrFile.HasPmp.keepsEntry {file : CsrFile} (equipped : file.HasPmp Word.ones)
    (entry : Fin 64) : file.KeepsEntry entry where
  config := equipped.configs entry
  address := by
    obtain ⟨value, found, -⟩ := equipped.addresses entry
    exact ⟨value, found⟩

namespace HartM

open Protection

variable {hart : Hart} {entry : Fin 64} {order : Nat}

/-- A block is set up in its entry, whatever the registers held before. -/
theorem setBlock_reads (keeps : hart.csrs.KeepsEntry entry) (flags : PmpFlags) (base : Word)
    (low : 2 ≤ order) (high : order ≤ 64) :
    ∃ after, setBlock entry flags base order hart = .ok (.ok ()) after ∧
      (after.reading entry).octet = (blockConfig flags order).bits ∧
      (after.reading entry).address = (blockAddress base order).2 := by
  obtain ⟨⟨config, configured⟩, ⟨address, addressed⟩⟩ := keeps
  let setting : PmpSetting :=
    { entry, config := blockConfig flags order, address := (blockAddress base order).2 }
  have encoded : encodeBlock? entry flags base order = .ok [setting] := by
    rw [encodeBlock?, dif_pos entry.isLt, if_pos ⟨low, high⟩]
    dsimp only
    rw [blockAddress_fst]
    rfl
  have admits : hart.csrs.Admits [setting] := by
    intro other member
    obtain rfl := List.mem_singleton.mp member
    exact ⟨CsrFile.accepts_iff.mpr ⟨_, addressed, rfl⟩, CsrFile.accepts_iff.mpr ⟨_, configured, rfl⟩⟩
  have content : (hart.csrs.programAll [setting]).content entry =
      (setting.config.bits, setting.address) := by
    have held : (hart.csrs.program setting).content setting.entry = _ :=
      CsrFile.content_program_self configured addressed ⟨rfl, rfl⟩
    rw [Register.settleOctet_of_writable_ones rfl, Register.settle_of_writable_ones rfl] at held
    exact held
  obtain ⟨ran, programmed⟩ := applySettings_ok admits
  refine ⟨hart.setAll (hart.csrs.planPresets [setting]), ?_, ?_⟩
  · rw [setBlock, encoded]
    exact ran
  · rw [Hart.reading_eq, programmed, content]
    exact ⟨rfl, rfl⟩

/-- Where an entry keeps what is written to it, setting it to a block leaves the given permissions
there, with the mode for a single word or the one for larger blocks. The entry is decoded to the
addresses that agree with the given one above the order of the block, which all addresses do when the
block is all memory. Setting entries to two blocks leaves the same behind in both if and only if the
blocks have the same order, the same permissions and the same addresses. -/
theorem setBlock_decodes (keeps : hart.csrs.KeepsEntry entry) (flags : PmpFlags) (base : Word)
    (low : 2 ≤ order) (high : order ≤ 64) :
    ∃ after, setBlock entry flags base order hart = .ok (.ok ()) after ∧
      (after.reading entry).octet =
        (flags.withoutMatching ∪ if order = 2 then PmpFlags.na4 else PmpFlags.napot).bits ∧
      (∀ byte, (after.reading entry).covers byte = true ↔ byte >>> order = base >>> order) ∧
      ∀ (other : Hart) (place : Fin 64) (given : PmpFlags) (start : Word) (size : Nat),
        other.csrs.KeepsEntry place → 2 ≤ size → size ≤ 64 →
        ∃ further, setBlock place given start size other = .ok (.ok ()) further ∧
          ((after.reading entry).octet = (further.reading place).octet ∧
              (after.reading entry).address = (further.reading place).address ↔
            order = size ∧ flags.withoutMatching = given.withoutMatching ∧
              base >>> order = start >>> order) := by
  obtain ⟨after, ran, octet, address⟩ := setBlock_reads keeps flags base low high
  refine ⟨after, ran, octet, covers_blockConfig low high octet address, ?_⟩
  intro other place given start size ready least most
  obtain ⟨further, done, otherOctet, otherAddress⟩ := setBlock_reads ready given start least most
  refine ⟨further, done, ?_⟩
  rw [octet, address, otherOctet, otherAddress]
  exact block_entry_inj low high least most

/-- The upper half of memory is set up in two entries, from addresses and with flags that differ in
what does not matter. -/
theorem setBlock_decodes_half :
    let hart := Hart.numbered.withPmp Word.ones
    (hart.csrs.KeepsEntry 9 ∧ hart.csrs.KeepsEntry 3) ∧
    ∃ after further,
      setBlock 9 ⟨0b10010011⟩ 0x8000000000001000 63 hart = .ok (.ok ()) after ∧
      setBlock 3 ⟨0b10001011⟩ 0xfffffffffffffffc 63 hart = .ok (.ok ()) further ∧
      (after.reading 9).octet = 0b10011011 ∧
      (∀ byte, (after.reading 9).covers byte = true ↔ byte >>> 63 = 1) ∧
      (after.reading 9).octet = (further.reading 3).octet ∧
      (after.reading 9).address = (further.reading 3).address := by
  intro hart
  have keeps := (Hart.hasPmp_withPmp Hart.numbered Word.ones).keepsEntry
  obtain ⟨after, ran, octet, matched, compared⟩ :=
    setBlock_decodes (keeps 9) ⟨0b10010011⟩ 0x8000000000001000 (by decide : 2 ≤ 63) (by decide)
  obtain ⟨further, done, same⟩ :=
    compared hart 3 ⟨0b10001011⟩ 0xfffffffffffffffc 63 (keeps 3) (by decide) (by decide)
  exact ⟨⟨keeps 9, keeps 3⟩, after, further, ran, done, octet, matched, same.mpr (by decide)⟩

end HartM

end HartBoot
