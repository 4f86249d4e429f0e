import HartBoot.Terminal
import Mathlib.Data.List.Induction

/-! # What the console shows

The console, the logger and the limit on the level of diagnostics are set up by separate calls, in
any order, and each of them only once. So what is shown at all can be told from the calls alone. The
first registration decides which console receives anything, and the first installation of the logger
decides on the limit. A call shows its text if it comes after the registration, and a line of
diagnostics must come after the installation as well. A terminal that went through the calls
reflects this, and each call keeps it so.
-/

namespace HartBoot

/-- A level is written to the left of its five columns. -/
theorem Level.column_eq (level : Level) : level.column = level.text.rightpad 5 ' ' := by
  cases level <;> decide +kernel

/-- What is done to a terminal. -/
inductive TerminalCall where
  | register (console : Nat)
  | print (text : String)
  | installLogger (level : Level)
  | record (level : Level) (target message : String)
deriving DecidableEq, Repr

namespace TerminalCall

/-- The console that a call registers. -/
def console? : TerminalCall → Option Nat
  | register console => some console
  | _ => none

/-- The level that a call installs the logger with. -/
def level? : TerminalCall → Option Level
  | installLogger level => some level
  | _ => none

end TerminalCall

/-- The console that is registered first. -/
def firstConsole? (calls : List TerminalCall) : Option Nat := calls.findSome? TerminalCall.console?

/-- The level of the first installation of the logger. -/
def firstLevel? (calls : List TerminalCall) : Option Level := calls.findSome? TerminalCall.level?

/-- What a call shows when it comes after others. -/
def TerminalCall.shown (earlier : List TerminalCall) : TerminalCall → String
  | register _ | installLogger _ => ""
  | print text => if (firstConsole? earlier).isSome then text else ""
  | record level target message =>
    if (firstConsole? earlier).isSome ∧ (firstLevel? earlier).any (level.rank ≤ ·.rank) then
      "[" ++ level.text.rightpad 5 ' ' ++ " " ++ target ++ "] " ++ message ++ "\n"
    else ""

/-- What calls show one after the other. -/
def transcript (calls : List TerminalCall) : String :=
  String.join (calls.mapIdx fun position call => call.shown (calls.take position))

section Calls

variable (calls : List TerminalCall) (call : TerminalCall)

theorem firstConsole?_concat :
    firstConsole? (calls ++ [call]) = (firstConsole? calls).or call.console? := by
  rw [firstConsole?, List.findSome?_append, List.findSome?_singleton]
  rfl

theorem firstLevel?_concat :
    firstLevel? (calls ++ [call]) = (firstLevel? calls).or call.level? := by
  rw [firstLevel?, List.findSome?_append, List.findSome?_singleton]
  rfl

theorem transcript_concat :
    transcript (calls ++ [call]) = transcript calls ++ call.shown calls := by
  have before : (calls.mapIdx fun position other => other.shown ((calls ++ [call]).take position)) =
      calls.mapIdx fun position other => other.shown (calls.take position) := by
    rw [List.mapIdx_eq_mapIdx_iff]
    intro position inside
    rw [List.take_append_of_le_length (Nat.le_of_lt inside)]
  rw [transcript, List.mapIdx_concat, before, List.take_left, String.join_append, String.join_cons,
    String.join_nil, String.append_empty]
  rfl

end Calls

/-- Without a console, nothing is shown. -/
theorem TerminalCall.shown_of_unregistered {earlier : List TerminalCall}
    (unregistered : firstConsole? earlier = none) (call : TerminalCall) :
    call.shown earlier = "" := by
  cases call <;> simp [shown, unregistered]

theorem transcript_of_unregistered {calls : List TerminalCall}
    (unregistered : firstConsole? calls = none) : transcript calls = "" := by
  induction calls using List.reverseRecOn with
  | nil => rfl
  | append_singleton earlier call ih =>
    rw [firstConsole?_concat, Option.or_eq_none_iff] at unregistered
    rw [transcript_concat, ih unregistered.1, call.shown_of_unregistered unregistered.1]
    rfl

namespace Terminal

/-- The terminal after a call. An installation that fails leaves it as it is. -/
def perform (terminal : Terminal) : TerminalCall → Terminal
  | .register console => terminal.register console
  | .print text => terminal.print text
  | .installLogger level =>
    match terminal.installLogger level with
    | .ok installed => installed
    | .error _ => terminal
  | .record level target message => terminal.record level target message

/-- The terminal after calls in turn. -/
def run (terminal : Terminal) (calls : List TerminalCall) : Terminal := calls.foldl perform terminal

theorem run_concat (terminal : Terminal) (calls : List TerminalCall) (call : TerminalCall) :
    terminal.run (calls ++ [call]) = (terminal.run calls).perform call := by
  rw [run, List.foldl_append]
  rfl

/-- A terminal is in the state that calls bring about, and what its consoles have received is what
the calls show. -/
structure Reflects (terminal : Terminal) (calls : List TerminalCall) : Prop where
  registered : terminal.console = firstConsole? calls
  limited : terminal.maxLevel = firstLevel? calls
  installed : terminal.loggerInstalled = (firstLevel? calls).isSome
  received : ∀ console, terminal.received console =
    if firstConsole? calls = some console then transcript calls else ""

section Print

variable (terminal : Terminal) (text : String)

@[simp] theorem console_print : (terminal.print text).console = terminal.console := by
  unfold print
  split <;> rfl

@[simp] theorem maxLevel_print : (terminal.print text).maxLevel = terminal.maxLevel := by
  unfold print
  split <;> rfl

@[simp] theorem loggerInstalled_print :
    (terminal.print text).loggerInstalled = terminal.loggerInstalled := by
  unfold print
  split <;> rfl

/-- Printing adds to what the registered console has received, and to nothing else. -/
theorem received_print (console : Nat) : (terminal.print text).received console =
    terminal.received console ++ if terminal.console = some console then text else "" := by
  cases registered : terminal.console with
  | none => simp [print, registered]
  | some first =>
    by_cases same : first = console <;> simp [print, registered, received, same]

end Print

variable {terminal : Terminal} {calls : List TerminalCall}

/-- A line of diagnostics is printed if its level is let through, and else dropped. -/
theorem record_eq (consistent : terminal.loggerInstalled = terminal.maxLevel.isSome) (level : Level)
    (target message : String) : terminal.record level target message =
      if terminal.maxLevel.any (level.rank ≤ ·.rank) then terminal.print (line level target message)
      else terminal := by
  rw [record, emit, consistent, enabled]
  cases terminal.maxLevel <;> simp

theorem record_cases (terminal : Terminal) (level : Level) (target message : String) :
    terminal.record level target message = terminal ∨
      terminal.record level target message = terminal.print (line level target message) := by
  rw [record, emit]
  split
  · split
    · exact .inr rfl
    · exact .inl rfl
  · exact .inl rfl

theorem console_perform (terminal : Terminal) (call : TerminalCall) :
    (terminal.perform call).console = terminal.console.or call.console? := by
  cases call with
  | register console => rfl
  | print text => simp [perform, TerminalCall.console?]
  | installLogger level =>
    cases installed : terminal.loggerInstalled <;>
      simp [perform, installLogger, installed, TerminalCall.console?]
  | record level target message =>
    rcases record_cases terminal level target message with same | printed
    · simp [perform, same, TerminalCall.console?]
    · simp [perform, printed, TerminalCall.console?]

theorem loggerInstalled_perform (terminal : Terminal) (call : TerminalCall) :
    (terminal.perform call).loggerInstalled = (terminal.loggerInstalled || call.level?.isSome) := by
  cases call with
  | register console => exact (Bool.or_false _).symm
  | print text => simp [perform, TerminalCall.level?]
  | installLogger level =>
    cases installed : terminal.loggerInstalled <;>
      simp [perform, installLogger, installed, TerminalCall.level?]
  | record level target message =>
    rcases record_cases terminal level target message with same | printed
    · simp [perform, same, TerminalCall.level?]
    · simp [perform, printed, TerminalCall.level?]

/-- The limit is set together with the logger, and stays. -/
theorem maxLevel_perform (consistent : terminal.loggerInstalled = terminal.maxLevel.isSome)
    (call : TerminalCall) :
    (terminal.perform call).maxLevel = terminal.maxLevel.or call.level? := by
  cases call with
  | register console => exact Option.or_none.symm
  | print text => simp [perform, TerminalCall.level?]
  | installLogger level =>
    cases limit : terminal.maxLevel <;>
      simp [perform, installLogger, consistent, limit, TerminalCall.level?]
  | record level target message =>
    rcases record_cases terminal level target message with same | printed
    · simp [perform, same, TerminalCall.level?]
    · simp [perform, printed, TerminalCall.level?]

namespace Reflects

theorem consistent (reflects : terminal.Reflects calls) :
    terminal.loggerInstalled = terminal.maxLevel.isSome := by
  rw [reflects.installed, reflects.limited]

/-- The first console receives what the call shows after the others. -/
theorem received_perform (reflects : terminal.Reflects calls) (call : TerminalCall)
    (console : Nat) : (terminal.perform call).received console =
      terminal.received console ++
        if firstConsole? calls = some console then call.shown calls else "" := by
  cases call with
  | register other => simp [Terminal.perform, register, Terminal.received, TerminalCall.shown]
  | print text =>
    rw [Terminal.perform, received_print, reflects.registered, TerminalCall.shown]
    split
    next registered => simp [registered]
    next => rfl
  | installLogger level =>
    cases installed : terminal.loggerInstalled <;>
      simp [Terminal.perform, installLogger, installed, Terminal.received, TerminalCall.shown]
  | record level target message =>
    rw [Terminal.perform, record_eq reflects.consistent, reflects.limited, TerminalCall.shown,
      ← Level.column_eq]
    split
    next shown =>
      rw [received_print, reflects.registered]
      split
      next registered => simp [registered, shown, line]
      next => rfl
    next dropped => simp [dropped]

/-- Each call keeps the terminal reflecting the calls. -/
theorem perform (reflects : terminal.Reflects calls) (call : TerminalCall) :
    (terminal.perform call).Reflects (calls ++ [call]) where
  registered := by rw [console_perform, firstConsole?_concat, reflects.registered]
  limited := by rw [maxLevel_perform reflects.consistent, firstLevel?_concat, reflects.limited]
  installed := by
    rw [loggerInstalled_perform, firstLevel?_concat, reflects.installed, Option.isSome_or]
  received console := by
    rw [reflects.received_perform, reflects.received, firstConsole?_concat, transcript_concat]
    cases registered : firstConsole? calls with
    | some first =>
      rw [Option.some_or]
      split <;> rfl
    | none =>
      rw [transcript_of_unregistered registered, call.shown_of_unregistered registered]
      simp

end Reflects

theorem reflects_run (calls : List TerminalCall) : (run {} calls).Reflects calls := by
  induction calls using List.reverseRecOn with
  | nil => exact ⟨rfl, rfl, rfl, fun _ => rfl⟩
  | append_singleton earlier call ih =>
    rw [run_concat]
    exact ih.perform call

/-- After any calls, only the console that was registered first has received anything, and what it
has received is what the calls show. The logger is installed once: the first attempt succeeds and
sets the limit, and every later one fails and leaves everything as it was. -/
theorem run_shows_transcript (calls : List TerminalCall) :
    let terminal := run {} calls
    (∀ console, terminal.received console =
        if firstConsole? calls = some console then transcript calls else "") ∧
      terminal.maxLevel = firstLevel? calls ∧
      terminal.loggerInstalled = (firstLevel? calls).isSome ∧
      ∀ level, terminal.installLogger level = (match firstLevel? calls with
          | none => .ok { terminal with loggerInstalled := true, maxLevel := some level }
          | some _ => .error .alreadyInstalled) ∧
        terminal.perform (.installLogger level) = match firstLevel? calls with
          | none => { terminal with loggerInstalled := true, maxLevel := some level }
          | some _ => terminal := by
  intro terminal
  obtain ⟨-, limited, installed, received⟩ := reflects_run calls
  refine ⟨received, limited, installed, fun level => ?_⟩
  have attempted : terminal.installLogger level = match firstLevel? calls with
      | none => .ok { terminal with loggerInstalled := true, maxLevel := some level }
      | some _ => .error .alreadyInstalled := by
    rw [installLogger, installed]
    cases firstLevel? calls <;> rfl
  refine ⟨attempted, ?_⟩
  rw [perform, attempted]
  cases firstLevel? calls <;> rfl

/-- What is printed before there is a console is lost, and so is a line above the limit. -/
example : (run {} [.print "early", .register 7, .record .error "boot" "early", .installLogger .info,
    .register 8, .installLogger .trace, .print "late ", .record .debug "boot" "hidden",
    .record .warn "boot" "shown"]).received 7 = "late [WARN  boot] shown\n" := by
  decide +kernel

end Terminal

end HartBoot
