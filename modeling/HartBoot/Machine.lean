import HartBoot.Features.Layout
import HartBoot.Hart
import HartBoot.Scratch.Allocator
import HartBoot.Terminal

/-! # A hart within its machine

A booting hart works on its own registers, on its own scratch area, and on what all harts share:
the reserved scratch memory, the place of the feature record in it, and the terminal. Diagnostics
are put together only when their level is let through, so whatever they have to look up is looked
up only then.
-/

namespace HartBoot

/-- What all harts of a machine share. -/
structure Shared where
  offsets : Allocator := {}
  /-- Place of the feature record in every scratch area, once it is reserved. -/
  featureOffset : Option (Offset FeatureRecord) := none
  terminal : Terminal := {}

namespace Shared

/-- The shared state with a place for the feature record, reserved if there was none. -/
def reserveFeatures (shared : Shared) : Option (Offset FeatureRecord × Shared) :=
  match shared.featureOffset with
  | some offset => some (offset, shared)
  | none =>
    (shared.offsets.alloc? FeatureRecord).map fun (offset, offsets) =>
      (offset, { shared with offsets, featureOffset := some offset })

/-- The feature record of the hart that owns a scratch area. -/
def features (shared : Shared) (area : Area) : Except Stop FeatureRecord :=
  match shared.featureOffset with
  | some offset => .ok (area.get offset)
  | none => .error .featuresUnavailable

end Shared

/-- What one booting hart works on. -/
structure Machine where
  hart : Hart
  area : Area
  shared : Shared

/-- An action of a booting hart, which may stop it. -/
abbrev BootM := EStateM Stop Machine

namespace BootM

/-- An action on the hart alone. -/
def onHart {α : Type} (action : HartM α) : BootM α := fun ⟨hart, area, shared⟩ =>
  match action hart with
  | .ok result hart => .ok result ⟨hart, area, shared⟩
  | .error stop hart => .error stop ⟨hart, area, shared⟩

/-- Report a line of diagnostics, whose message is put together only if it is let through. -/
def diagnose (level : Level) (target : String) (message : BootM String) : BootM Unit := do
  if (← get).shared.terminal.enabled level then
    let text ← message
    modify fun machine =>
      { machine with shared :=
        { machine.shared with terminal := machine.shared.terminal.record level target text } }

end BootM

end HartBoot
