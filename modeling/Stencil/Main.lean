import Std.Time.Zoned
import Stencil.CommandLine

/-! The program: it collects what a request reads, runs the request and prints the result. -/
namespace Stencil.Main

/-- The local time. -/
def clock : IO DateTime := do
  let now ← Std.Time.PlainDateTime.now
  let date := now.date
  let time := now.time
  return {
    date := ⟨date.year.toInt.toNat, date.month.toNat, date.day.toNat⟩
    hour := time.hour.toNat, minute := time.minute.toNat, second := time.second.toNat
    microsecond := time.nanosecond.toNat / 1000 }

/-- A number from zero up to one, in steps as fine as doubles have below one. -/
def draw : IO Double := do
  let steps := Nat.pow 2 53
  return .ofRatio false (← IO.rand 0 (steps - 1)) steps

def content (path : String) : IO (Option String) :=
  try some <$> IO.FS.readFile path catch _ => return none

def console (request : CommandLine.Request) : IO CommandLine.Console := do
  let files ← request.paths.mapM fun path => return (path, ← content path)
  let waits := request.template == CommandLine.standardInput
  let input ← if waits then (← IO.getStdin).readToEnd else pure ""
  return {
    surroundings := ⟨← clock, ← draw, .apart⟩
    file := fun path => (Dict.get? files path).join
    input
    storing := ← IO.getEnv "TPLC_CACHE" }

def put (printed : CommandLine.Printed) : IO UInt32 := do
  IO.print printed.output
  IO.eprint printed.errors
  return printed.code.toUInt32

def start (args : List String) : IO UInt32 := do
  match CommandLine.readRequest args with
  | .error stop => put stop.printed
  | .ok request =>
    match CommandLine.run (← console request) request with
    | .ok printed => put printed
    | .error fault => throw (IO.userError fault.message)

end Stencil.Main

def main (args : List String) : IO UInt32 := Stencil.Main.start args
