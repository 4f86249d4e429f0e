import HartBoot.Csr.Indexed
import HartBoot.Word

/-! # Why a hart goes no further

A hart stops for good when firmware computes outside of what a word can hold, names a register
that cannot exist, touches one that is absent or refuses the access without having guarded it,
or asks for features that nobody recorded. It also stops where it is meant to: when it halts, and
when it leaves machine mode for the next boot stage.
-/

namespace HartBoot

/-- The reasons for which a hart goes no further. -/
inductive Stop where
  | overflow (operation : Overflow)
  | index (fault : Csr.IndexFault)
  /-- An unguarded read found no register. -/
  | notImplemented (csr : Csr)
  /-- An unguarded write found no writable register. -/
  | illegalWrite (csr : Csr)
  /-- An unguarded exchange found no writable register. -/
  | illegalSwap (csr : Csr)
  /-- Features were asked for before any cold boot reserved a place for them. -/
  | featuresUnavailable
  /-- The hart waited for an interrupt that never comes. -/
  | halted
  /-- The hart left for the next boot stage. -/
  | entered (entry arg0 arg1 : Word)
deriving DecidableEq, Repr

/-- The sentence reporting why a hart stopped. -/
def Stop.message : Stop → String
  | .overflow operation => operation.message
  | .index fault => fault.message
  | .notImplemented csr => csr.text ++ " not implemented"
  | .illegalWrite csr => "illegal write to " ++ csr.text
  | .illegalSwap csr => "illegal swap of " ++ csr.text
  | .featuresUnavailable => "hart features read before cold boot"
  | .halted => "hart halted"
  | .entered entry arg0 arg1 =>
    "mret to " ++ hex entry.toNat ++ " with a0=" ++ hex arg0.toNat ++ " a1=" ++ hex arg1.toNat

end HartBoot
