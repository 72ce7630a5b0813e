import LedgerExport.Invocation

/-!
# Reports

What the program prints when an invocation has ended, and the code with which it exits.
-/

namespace LedgerExport

/-- The end of the program. -/
structure Report where
  /-- The exit code. -/
  exitCode : UInt8
  /-- What goes to the standard output. -/
  output : String
  /-- What goes to the standard error output. -/
  errors : String
deriving DecidableEq, Repr

namespace Report

/-- A text whose further lines start with the given blanks. -/
def indented (blanks : String) (s : String) : String :=
  .ofList (s.toList.flatMap fun c => if c = '\n' then '\n' :: blanks.toList else [c])

/-- The causes of a failure on lines of their own, with numbers when there are several. -/
def causeLines : List String → List String
  | [cause] => ["    " ++ indented "    " cause]
  | causes => causes.zipIdx.map fun (cause, n) =>
    let number := toString n
    String.ofList (List.replicate (5 - number.length) ' ') ++ number ++ ": " ++
      indented "       " cause

/-- The report of a failure; `context` says what has failed. -/
def ofFailure (context : String) (failure : Failure) : Report where
  exitCode := 1
  output := ""
  errors := s!"Error: {context}\n\nCaused by:\n" ++
    "\n".intercalate (causeLines (failure.message :: failure.causes)) ++ "\n"

/-- The report of settings that cannot be loaded. -/
def ofSettingsError (e : SettingsError) : Report :=
  ofFailure "Failed to load export configuration" (.settings e.message)

/-- The report of an invocation. -/
def ofResult : Except Failure Outcome → Report
  | .ok outcome => ⟨0, outcome.message ++ "\n", ""⟩
  | .error failure => ofFailure "Export reconciliation failed" failure

end Report

/-- Runs the program with the settings that an environment holds. -/
def Environment.execute {σ : Type} (env : Environment) (now : Time.Instant)
    (respond : Responder σ) (cost : Call → Nat) (state : σ) : Report × σ :=
  match Settings.load env with
  | .error e => (.ofSettingsError e, state)
  | .ok settings =>
    let course := (settings.invoke now).run.runWithin respond cost settings.limit state
    (.ofResult (Settings.conclude settings.limit course.result), course.state)

end LedgerExport
