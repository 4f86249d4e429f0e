import HartBoot.Field

/-! # Fields of the machine status

The status register of machine mode holds what a trap saved and a return restores, and the state
of the floating-point and vector units. A 32-bit hart keeps the virtualization bit in an upper
half of its own.
-/

namespace HartBoot.Status

/-- Machine-mode interrupt enable. -/
def mie : Field := { mask := 1 <<< 3 }

/-- Interrupt enable restored by a return from machine mode. -/
def mpie : Field := { mask := 1 <<< 7 }

/-- State of the vector unit. -/
def vs : Field := { mask := 3 <<< 9 }

/-- Privilege mode entered by a return from machine mode. -/
def mpp : Field := { mask := 3 <<< 11 }

/-- State of the floating-point unit. -/
def fs : Field := { mask := 3 <<< 13 }

/-- Virtualization mode entered by a return from machine mode, with the H extension. -/
def mpv : Field := { mask := 1 <<< 39 }

/-- The virtualization mode in the upper half of the status of a 32-bit hart. -/
def upperMpv : Field := { mask := 1 <<< 7 }

end HartBoot.Status
