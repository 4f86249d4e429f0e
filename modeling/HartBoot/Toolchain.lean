/-! # Assembling the trap handlers

The handlers that catch expected traps are assembled for the target of the firmware. They must
follow its calling convention for floating-point values, which goes by the widest floating-point
extension that the target has. Only RISC-V targets need handlers.
-/

namespace HartBoot.Toolchain

/-- What the assembler is asked for. -/
structure Assembly where
  /-- Instruction set, as the assembler spells it. -/
  march : String
  /-- Calling convention, as the assembler spells it. -/
  mabi : String
  source : String
deriving DecidableEq, Repr

/-- What a build does for a target. -/
structure Plan where
  assembly : Option Assembly
  /-- Static libraries to link. -/
  libraries : List String
  /-- Files whose changes make the build run again. -/
  inputs : List String
deriving DecidableEq, Repr

/-- Reasons for which there is no plan. -/
inductive PlanError where
  /-- The target's architecture was not given. -/
  | noArchitecture
deriving DecidableEq, Repr

/-- The source of the handlers. -/
def handlerSource : String := "src/arch/riscv/expected_trap.S"

/-- The plan itself, as an input of the build. -/
def planSource : String := "build.rs"

/-- The widest floating-point extension of a target. -/
inductive FloatWidth where
  | none
  | single
  | double
deriving DecidableEq, Repr

/-- The floating-point extension named in a list of features separated by commas. -/
def FloatWidth.ofFeatures (features : String) : FloatWidth :=
  let listed := features.splitOn ","
  if listed.contains "d" then .double else if listed.contains "f" then .single else .none

/-- Extension letters of the instruction set with the given floating-point extension. -/
def FloatWidth.letters : FloatWidth → String
  | .none => "imac"
  | .single => "imafc"
  | .double => "imafdc"

/-- Ending of the name of the calling convention. -/
def FloatWidth.abiEnding : FloatWidth → String
  | .none => ""
  | .single => "f"
  | .double => "d"

/-- Width of registers and integer calling convention of the architectures that need handlers. -/
def integerAbi? : String → Option (String × String)
  | "riscv64" => some ("64", "lp64")
  | "riscv32" => some ("32", "ilp32")
  | _ => none

/-- The plan for a target with the given architecture and features. -/
def plan (architecture : Option String) (features : String) : Except PlanError Plan :=
  match architecture with
  | none => .error .noArchitecture
  | some name =>
    match integerAbi? name with
    | none => .ok { assembly := none, libraries := [], inputs := [planSource] }
    | some (bits, abi) =>
      let float := FloatWidth.ofFeatures features
      .ok {
        assembly := some {
          march := "rv" ++ bits ++ float.letters
          mabi := abi ++ float.abiEnding
          source := handlerSource }
        libraries := ["probe"]
        inputs := [handlerSource, planSource] }

end HartBoot.Toolchain
