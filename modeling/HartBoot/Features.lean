import HartBoot.Flags

/-! # Features of a hart

A feature record says which optional registers a hart implements, how many protection entries it
has and how finely they divide memory, and how many programmable counters it has and how wide
they are. A record that was read from memory may hold feature bits without a name; they are kept.
-/

namespace HartBoot

namespace FeatureFlags

/-- Bits of the optional features. -/
def family : FlagFamily 64 :=
  [("SCOUNTEREN", 1 <<< 0), ("MCOUNTEREN", 1 <<< 1), ("MCOUNTINHIBIT", 1 <<< 2),
    ("SSCOFPMF", 1 <<< 3), ("TIME", 1 <<< 4)]

end FeatureFlags

/-- A set of optional features. -/
abbrev FeatureFlags := FlagSet FeatureFlags.family

namespace FeatureFlags

/-- Counters can be opened to modes below supervisor mode. -/
def scounteren : FeatureFlags := ⟨1 <<< 0⟩
/-- Counters can be opened to modes below machine mode. -/
def mcounteren : FeatureFlags := ⟨1 <<< 1⟩
/-- Counters can be stopped. -/
def mcountinhibit : FeatureFlags := ⟨1 <<< 2⟩
/-- Counters raise an interrupt when they overflow. -/
def sscofpmf : FeatureFlags := ⟨1 <<< 3⟩
/-- The real-time counter can be read. -/
def time : FeatureFlags := ⟨1 <<< 4⟩

/-- Every feature with its name in diagnostics, in the order of their bits. -/
def named : List (FeatureFlags × String) :=
  [(scounteren, "scounteren"), (mcounteren, "mcounteren"), (mcountinhibit, "mcountinhibit"),
    (sscofpmf, "sscofpmf"), (time, "time")]

/-- The name of a set that is a single feature. -/
def name? (flags : FeatureFlags) : Option String :=
  (named.find? (·.1 == flags)).map Prod.snd

/-- Names of the features that a set contains, in the order of their bits. -/
def featureNames (flags : FeatureFlags) : List String :=
  (named.filter fun feature => flags.contains feature.1).map Prod.snd

end FeatureFlags

/-- The optional features and resources of a hart. -/
structure FeatureRecord where
  features : FeatureFlags := .empty
  /-- Number of protection entries. -/
  pmpCount : BitVec 32 := 0
  /-- Number of bits in the address of a protection entry. -/
  pmpAddrBits : BitVec 32 := 0
  /-- Size of the smallest block of memory that can be protected, in bytes. -/
  pmpGran : Word := 0
  /-- Number of programmable counters. -/
  counterCount : BitVec 32 := 0
  /-- Width of the programmable counters, in bits. -/
  counterBits : BitVec 32 := 0
deriving DecidableEq, Repr, Inhabited

/-- Whether a record has all of the given features. -/
def FeatureRecord.has (record : FeatureRecord) (wanted : FeatureFlags) : Bool :=
  record.features.contains wanted

end HartBoot
