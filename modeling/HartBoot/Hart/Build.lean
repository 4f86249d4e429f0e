import HartBoot.Hart
import HartBoot.Status

/-! # Building a hart

A hart is put together from the extensions that it advertises, which bring the registers that they
need, and from further registers one by one or family by family. Registers can be replaced and
taken away again. Machine-mode registers that every hart has are there from the start.
-/

namespace HartBoot.Hart

/-- Implement a register that keeps the writable bits of what is written. -/
def implement (hart : Hart) (csr : Csr) (value writable : Word) : Hart :=
  { hart with csrs := hart.csrs.insert csr { value, writable } }

/-- Implement a register that refuses writes. -/
def implementReadOnly (hart : Hart) (csr : Csr) (value : Word) : Hart :=
  { hart with csrs := hart.csrs.insert csr { value, writable := 0, readOnly := true } }

/-- Take a register away. -/
def remove (hart : Hart) (csr : Csr) : Hart := { hart with csrs := hart.csrs.erase csr }

/-- Implement the first protection entries, whose addresses keep the given bits, and all the
configuration registers of a 64-bit hart. -/
def implementPmp (hart : Hart) (count : Nat) (addressBits : Word) : Except Csr.IndexFault Hart := do
  let addresses ← (List.range (min count (Csr.pmpEntries + 1))).mapM Csr.pmpaddr?
  let configurations := (List.finRange 8).map fun index : Fin 8 =>
    Csr.pmpcfg ⟨2 * index, by omega⟩
  let withAddresses := addresses.foldl (·.implement · 0 addressBits) hart
  return configurations.foldl (·.implement · 0 Word.ones) withAddresses

/-- The word with all bits below the given width. -/
def counterMask (width : Nat) : Word :=
  if Word.width ≤ width then Word.ones else (1 <<< width) - 1

/-- Implement the first programmable counters, of the given width. -/
def implementCounters (hart : Hart) (count width : Nat) : Except Stop Hart := do
  let past ← (Word.addCounts? Csr.firstCounter count).mapError Stop.overflow
  let indices := List.range' Csr.firstCounter (min past (Csr.lastCounter + 2) - Csr.firstCounter)
  let counters ← (indices.mapM Csr.counter?).mapError Stop.index
  return counters.foldl (·.implement · 0 (counterMask width)) hart

/-- Implement the given registers with the given values and writable bits. -/
def implementAll (hart : Hart) (registers : List (Csr × Word × Word)) : Hart :=
  registers.foldl (fun hart register => hart.implement register.1 register.2.1 register.2.2) hart

/-- The bits of the machine status that a hart with the given extensions can change. -/
def statusMask (misa : Word) : Word :=
  let optional := fun (present : Bool) (field : Field) => if present then field.mask else 0
  Status.mie.mask ||| Status.mpie.mask ||| Status.mpp.mask
    ||| optional (Misa.has misa 'F' || Misa.has misa 'D') Status.fs
    ||| optional (Misa.has misa 'V') Status.vs
    ||| optional (Misa.has misa 'H') Status.mpv

/-- A hart advertising the given extensions, with the registers that they need. -/
def ofExtensions (extensions : List Char) : Except Overflow Hart := do
  let misa ← Misa.ofExtensions? extensions
  let vector : Word := ~~~0b10
  let machine := [(Csr.mstatus, 0, statusMask misa), (Csr.medeleg, 0, Word.ones),
    (Csr.mideleg, 0, Word.ones), (Csr.mie, 0, Word.ones), (Csr.mtvec, 0, vector),
    (Csr.mscratch, 0, Word.ones), (Csr.mepc, 0, ~~~1)]
  let supervisor := [(Csr.stvec, 0, vector), (Csr.sscratch, 0, Word.ones),
    (Csr.sie, 0, Word.ones), (Csr.satp, 0, Word.ones)]
  let user := [(Csr.utvec, 0, vector), (Csr.uscratch, 0, Word.ones), (Csr.uie, 0, Word.ones)]
  let float := [(Csr.fcsr, 0x1f, 0xff)]
  let optional := fun (present : Bool) (registers : List (Csr × Word × Word)) =>
    if present then registers else []
  let base : Hart := {}
  return ((base.implementReadOnly .misa misa).implementReadOnly .mhartid 0).implementAll
    (machine ++ optional (Misa.has misa 'S') supervisor ++ optional (Misa.has misa 'N') user
      ++ optional (Misa.has misa 'F' || Misa.has misa 'D') float)

end HartBoot.Hart
