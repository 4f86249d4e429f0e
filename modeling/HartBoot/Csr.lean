import HartBoot.Hex

/-! # Control and status registers

A register is identified by a 12-bit number. Its two highest bits tell whether software may write
to it, both set meaning that it may not, and the next two the lowest privilege level allowed to
access it. The registers named here are those that a boot hart deals with.
-/

namespace HartBoot

/-- A control and status register, identified by its number. -/
structure Csr where
  number : BitVec 12
deriving DecidableEq, Repr

namespace Csr

/-- Registers are ordered by number. -/
instance : Ord Csr where
  compare left right := compare left.number right.number

/-- Floating-point control and status. -/
def fcsr : Csr := ⟨0x003⟩
/-- User interrupt enable, of the N extension. -/
def uie : Csr := ⟨0x004⟩
/-- User trap vector, of the N extension. -/
def utvec : Csr := ⟨0x005⟩
/-- User scratch register, of the N extension. -/
def uscratch : Csr := ⟨0x040⟩

/-- Supervisor status. -/
def sstatus : Csr := ⟨0x100⟩
/-- Supervisor interrupt enable. -/
def sie : Csr := ⟨0x104⟩
/-- Supervisor trap vector. -/
def stvec : Csr := ⟨0x105⟩
/-- Counters readable below supervisor mode. -/
def scounteren : Csr := ⟨0x106⟩
/-- Supervisor scratch register. -/
def sscratch : Csr := ⟨0x140⟩
/-- Root of the page tables that supervisor mode translates addresses with. -/
def satp : Csr := ⟨0x180⟩

/-- Machine status. -/
def mstatus : Csr := ⟨0x300⟩
/-- Instruction set and extensions. -/
def misa : Csr := ⟨0x301⟩
/-- Exceptions delegated by machine mode. -/
def medeleg : Csr := ⟨0x302⟩
/-- Interrupts delegated by machine mode. -/
def mideleg : Csr := ⟨0x303⟩
/-- Machine interrupt enable. -/
def mie : Csr := ⟨0x304⟩
/-- Machine trap vector. -/
def mtvec : Csr := ⟨0x305⟩
/-- Counters readable below machine mode. -/
def mcounteren : Csr := ⟨0x306⟩
/-- Upper half of the machine status of a 32-bit hart. -/
def mstatush : Csr := ⟨0x310⟩
/-- Counters that are stopped. -/
def mcountinhibit : Csr := ⟨0x320⟩
/-- Machine scratch register. -/
def mscratch : Csr := ⟨0x340⟩
/-- Machine exception program counter. -/
def mepc : Csr := ⟨0x341⟩
/-- Machine trap cause. -/
def mcause : Csr := ⟨0x342⟩
/-- Machine trap value. -/
def mtval : Csr := ⟨0x343⟩
/-- Machine interrupt pending. -/
def mip : Csr := ⟨0x344⟩
/-- Machine trap instruction, of the H extension. -/
def mtinst : Csr := ⟨0x34a⟩
/-- Machine second trap value, of the H extension. -/
def mtval2 : Csr := ⟨0x34b⟩

/-- First configuration register of physical memory protection. -/
def pmpcfg0 : Csr := ⟨0x3a0⟩
/-- First address register of physical memory protection. -/
def pmpaddr0 : Csr := ⟨0x3b0⟩

/-- Machine cycle counter. -/
def mcycle : Csr := ⟨0xb00⟩
/-- Machine counter of retired instructions. -/
def minstret : Csr := ⟨0xb02⟩
/-- First programmable performance counter. -/
def mhpmcounter3 : Csr := ⟨0xb03⟩
/-- Upper half of the first programmable performance counter of a 32-bit hart. -/
def mhpmcounter3h : Csr := ⟨0xb83⟩

/-- Real-time counter, a read-only shadow of the platform's timer. -/
def time : Csr := ⟨0xc01⟩
/-- Counter overflow status, read-only. -/
def scountovf : Csr := ⟨0xda0⟩

/-- Number of the executing hart. -/
def mhartid : Csr := ⟨0xf14⟩

/-- Every register with a name of its own, in the order of their numbers. -/
def named : List (String × Csr) :=
  [("fcsr", fcsr), ("uie", uie), ("utvec", utvec), ("uscratch", uscratch), ("sstatus", sstatus),
    ("sie", sie), ("stvec", stvec), ("scounteren", scounteren), ("sscratch", sscratch),
    ("satp", satp), ("mstatus", mstatus), ("misa", misa), ("medeleg", medeleg),
    ("mideleg", mideleg), ("mie", mie), ("mtvec", mtvec), ("mcounteren", mcounteren),
    ("mstatush", mstatush), ("mcountinhibit", mcountinhibit), ("mscratch", mscratch),
    ("mepc", mepc), ("mcause", mcause), ("mtval", mtval), ("mip", mip), ("mtinst", mtinst),
    ("mtval2", mtval2), ("pmpcfg0", pmpcfg0), ("pmpaddr0", pmpaddr0), ("mcycle", mcycle),
    ("minstret", minstret), ("mhpmcounter3", mhpmcounter3), ("mhpmcounter3h", mhpmcounter3h),
    ("time", time), ("scountovf", scountovf), ("mhartid", mhartid)]

/-- The register with the given lower-case name. -/
def ofName? (name : String) : Option Csr := named.lookup name

/-- A register whose number has both of its highest bits set never accepts a write. -/
def isReadOnly (csr : Csr) : Bool := csr.number >>> 10 == 0b11

/-- The text naming a register in diagnostics: its number, with at least three digits. -/
def text (csr : Csr) : String := "Csr(" ++ hexPadded 3 csr.number.toNat ++ ")"

instance : Std.TransOrd Csr where
  eq_swap {left right} :=
    show compare left.number right.number = (compare right.number left.number).swap from
      Std.OrientedOrd.eq_swap
  isLE_trans {left middle right} lower upper :=
    show (compare left.number right.number).isLE = true from
      Std.TransOrd.isLE_trans (show (compare left.number middle.number).isLE = true from lower)
        (show (compare middle.number right.number).isLE = true from upper)

instance : Std.LawfulEqOrd Csr where
  compare_self {csr} := show compare csr.number csr.number = .eq from Std.ReflOrd.compare_self
  eq_of_compare {left right} same :=
    congrArg Csr.mk
      (Std.LawfulEqOrd.eq_of_compare (show compare left.number right.number = .eq from same))

end Csr

end HartBoot
