/-! # Console and diagnostics

Firmware prints to the console that a platform registers first; whatever is printed before that is
lost. Diagnostics are lines with a level and a target. They pass a limit on their level, which
starts by admitting none, and reach the console once the logger is installed, which can be done
only once.
-/

namespace HartBoot

/-- Importance of a line of diagnostics. -/
inductive Level where
  | error
  | warn
  | info
  | debug
  | trace
deriving DecidableEq, Repr

namespace Level

/-- Position of a level, the most important one first. -/
def rank : Level → Nat
  | .error => 1
  | .warn => 2
  | .info => 3
  | .debug => 4
  | .trace => 5

/-- How a level is written. -/
def text : Level → String
  | .error => "ERROR"
  | .warn => "WARN"
  | .info => "INFO"
  | .debug => "DEBUG"
  | .trace => "TRACE"

/-- A level written in five columns. -/
def column (level : Level) : String :=
  level.text ++ String.ofList (List.replicate (5 - level.text.length) ' ')

end Level

/-- Reasons for which a logger is not installed. -/
inductive LoggerError where
  | alreadyInstalled
deriving DecidableEq, Repr

/-- The sentence reporting why a logger is not installed. -/
def LoggerError.message : LoggerError → String
  | .alreadyInstalled =>
    "attempted to set a logger after the logging system was already initialized"

/-- The console and the state of diagnostics. -/
structure Terminal where
  /-- Number of the console that was registered first. -/
  console : Option Nat := none
  /-- Every piece of text that reached a console, oldest first. -/
  written : Array (Nat × String) := #[]
  loggerInstalled : Bool := false
  /-- The least important level that is let through, or none at all. -/
  maxLevel : Option Level := none
deriving DecidableEq, Repr, Inhabited

namespace Terminal

/-- Register a console, unless there is one. -/
def register (terminal : Terminal) (console : Nat) : Terminal :=
  { terminal with console := terminal.console.or (some console) }

/-- Write a text to the registered console, or drop it. -/
def print (terminal : Terminal) (text : String) : Terminal :=
  match terminal.console with
  | some console => { terminal with written := terminal.written.push (console, text) }
  | none => terminal

/-- Whether diagnostics of the given level are let through. -/
def enabled (terminal : Terminal) (level : Level) : Bool :=
  match terminal.maxLevel with
  | some max => level.rank ≤ max.rank
  | none => false

/-- A line of diagnostics. -/
def line (level : Level) (target message : String) : String :=
  "[" ++ level.column ++ " " ++ target ++ "] " ++ message ++ "\n"

/-- Print a line of diagnostics if its level is let through. -/
def emit (terminal : Terminal) (level : Level) (target message : String) : Terminal :=
  if terminal.enabled level then terminal.print (line level target message) else terminal

/-- Hand a line of diagnostics to the logger, if there is one. -/
def record (terminal : Terminal) (level : Level) (target message : String) : Terminal :=
  if terminal.loggerInstalled then terminal.emit level target message else terminal

/-- Install the logger and let diagnostics of the given level through. -/
def installLogger (terminal : Terminal) (level : Level) : Except LoggerError Terminal :=
  if terminal.loggerInstalled then .error .alreadyInstalled
  else .ok { terminal with loggerInstalled := true, maxLevel := some level }

/-- Change the limit on the level of diagnostics. -/
def setMaxLevel (terminal : Terminal) (level : Option Level) : Terminal :=
  { terminal with maxLevel := level }

/-- All that a console has received. -/
def received (terminal : Terminal) (console : Nat) : String :=
  String.join ((terminal.written.toList.filter (·.1 == console)).map Prod.snd)

end Terminal

end HartBoot
