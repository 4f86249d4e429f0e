/-! # The end of a firmware run

A firmware that cannot go on reports why on its console and parks the hart for good. A firmware
that ends by itself reports nothing. Where it gave up is written as a placeholder.
-/

namespace HartBoot.Fatal

/-- How a run ended. -/
structure Ending where
  /-- All that reached the console. -/
  console : String
  /-- The hart is parked for good. -/
  halted : Bool
deriving DecidableEq, Repr

/-- The report of a firmware that cannot go on. -/
def report (message : String) : String :=
  "Firmware panic: panicked at LOCATION:\n" ++ message ++ "\n" ++ "Halting!\n"

/-- The end of a run, which either printed a text or failed with a message. Without a console,
nothing is reported. -/
def conclude (hasConsole : Bool) (outcome : Except String String) : Ending :=
  let (text, halted) := match outcome with
    | .ok printed => (printed, false)
    | .error message => (report message, true)
  { console := if hasConsole then text else "", halted }

end HartBoot.Fatal
