import HartBoot.Csr
import HartBoot.Word
import Std.Data.ExtTreeMap

/-! # The register file of a hart

A register holds a word of which software may change some bits; the other bits are hardwired, and
a write leaves them as they are. A read-only register refuses writes altogether. The file of a
hart has the registers that it implements and no others, so two files with the same registers are
equal.
-/

namespace HartBoot

/-- An implemented register. -/
structure Register where
  value : Word
  /-- The bits that software can change. -/
  writable : Word
  readOnly : Bool := false
deriving DecidableEq, Repr

namespace Register

/-- The bits that no write changes. -/
def hardwired (register : Register) : Word := register.value &&& ~~~register.writable

/-- The value that a register holds after an accepted write. -/
def settle (register : Register) (written : Word) : Word :=
  register.hardwired ||| (written &&& register.writable)

/-- The register after an accepted write. -/
def store (register : Register) (written : Word) : Register :=
  { register with value := register.settle written }

@[simp] theorem writable_store (register : Register) (written : Word) :
    (register.store written).writable = register.writable := rfl

@[simp] theorem readOnly_store (register : Register) (written : Word) :
    (register.store written).readOnly = register.readOnly := rfl

/-- No write changes a hardwired bit. -/
theorem hardwired_store (register : Register) (written : Word) :
    (register.store written).hardwired = register.hardwired := by
  apply BitVec.eq_of_getLsbD_eq
  intro position inside
  simp only [hardwired, store, settle, BitVec.getLsbD_and, BitVec.getLsbD_or, BitVec.getLsbD_not]
  cases register.value.getLsbD position <;> cases register.writable.getLsbD position <;>
    cases written.getLsbD position <;> simp [inside]

/-- What an accepted write leaves behind does not depend on the writable bits found before. -/
theorem settle_store (register : Register) (first second : Word) :
    (register.store first).settle second = register.settle second := by
  rw [settle, settle, hardwired_store, writable_store]

/-- Of two writes, the later one decides. -/
theorem store_store (register : Register) (first second : Word) :
    (register.store first).store second = register.store second := by
  simp only [store, Register.mk.injEq, and_true]
  exact settle_store register first second

/-- Writing a register's own value back changes nothing. -/
theorem store_value (register : Register) : register.store register.value = register := by
  have same : register.settle register.value = register.value := by
    apply BitVec.eq_of_getLsbD_eq
    intro position inside
    simp only [settle, hardwired, BitVec.getLsbD_or, BitVec.getLsbD_and, BitVec.getLsbD_not]
    cases register.value.getLsbD position <;> cases register.writable.getLsbD position <;>
      simp [inside]
  simp [store, same]

/-- A fully writable register takes any value. -/
theorem settle_of_writable_ones {register : Register} (full : register.writable = Word.ones)
    (written : Word) : register.settle written = written := by
  simp only [settle, hardwired, full, Word.ones, BitVec.not_allOnes, BitVec.and_zero,
    BitVec.zero_or, BitVec.and_allOnes]

end Register

/-- The implemented registers of a hart. -/
abbrev CsrFile := Std.ExtTreeMap Csr Register

end HartBoot
