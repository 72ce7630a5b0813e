import LedgerExport.Ion.Json
import LedgerExport.Json.Compact
import LedgerExport.Remote.Exchange
import LedgerExport.Remote.Wire
import LedgerExport.Report
import Std.Time.DateTime

/-!
# Command line

Runs one invocation with the settings of the process's environment. The process that starts the
program holds the connection to the services: each request is a line on the standard output, and
the reply to it is a line on the standard input, both in JSON. A reply that is missing or cannot be
read counts as a refusal. The report of the invocation comes last.
-/

namespace LedgerExport.CommandLine

open Time Remote

/-- The reply that a line holds. -/
def replyOf? (line : String) : Option Reply := do
  Reply.ofJson? (← Ion.Element.toJson? (← Ion.Element.ofBytes? line.toUTF8))

/-- Sends a request and takes the reply to it. -/
def send (request : Request) : IO Reply := do
  let output ← IO.getStdout
  output.putStrLn request.toJson.compact
  output.flush
  let line ← (← IO.getStdin).getLine
  return (replyOf? line).getD (.refused 500 none)

/-- Answers a call from the pages so far on. -/
partial def exchange (c : Call) (pages : Pages) : IO c.Answer := do
  match request? pages c with
  | none => return nameless c
  | some request =>
    match receive c pages (← send request) with
    | .answer a => return a
    | .more pages => exchange c pages

/-- Runs a program until a call ends behind the limit, which is counted from the time `start`. -/
def perform {α : Type} (limit : Option Nat) (start : Nat) : Program α → IO (Option α)
  | .done a => return some a
  | .call c next => do
    let answer ← exchange c .none
    if Program.within limit ((← IO.monoMsNow) - start) then perform limit start (next answer)
    else return none

/-- The environment of the process. -/
def environment : IO Environment := do
  let values ← Variable.all.mapM fun v => return (v.name, ← IO.getEnv v.name)
  return fun name => (values.lookup name).join

/-- The present time. -/
def present : IO Instant := do
  let nanos : Int := (← Std.Time.Timestamp.now).toNanosecondsSinceUnixEpoch.val
  return (Instant.of? (nanos / nanosPerSecond) (nanos % nanosPerSecond).toNat).getD
    Settings.defaultEpoch

/-- Runs one invocation. -/
def run : IO Report := do
  match Settings.load (← environment) with
  | .error e => return .ofSettingsError e
  | .ok settings =>
    let program := (settings.invoke (← present)).run
    let result ← perform settings.limit (← IO.monoMsNow) program
    return .ofResult (Settings.conclude settings.limit result)

end LedgerExport.CommandLine

/-- Runs one invocation and prints its report. -/
def main : IO UInt32 := do
  let report ← LedgerExport.CommandLine.run
  IO.print report.output
  IO.eprint report.errors
  return report.exitCode.toUInt32
