import LedgerExport.Proofs.Planning

/-!
# How an invocation unfolds

`Settings.Unfolds` lists the ways in which an invocation can go, from its first call to the place
where it ends or is cut short, and `unfolds_of_traces` says that there are no others. It is the one
place where the invocation is taken apart; what is shown of all invocations is shown for each of
these ways.
-/

namespace LedgerExport

open Time

/-- After a sighting, the window is what an invocation submits. -/
structure Settings.Plans (s : Settings) (now : Instant) (v : Sighting) (survey : Survey)
    (w : Window) : Prop where
  /-- The survey is that of the sighting. -/
  taken : v.survey? s.keyPrefix = .ok survey
  /-- Each readable marker of a start has a marker of completion. -/
  running : survey.running = []
  /-- Each unreadable marker of a start has a marker of completion. -/
  blocking : survey.blocking = []
  /-- The window goes from the frontier to the clock, cut to milliseconds. -/
  window_eq : w = ⟨survey.frontier s.epoch, now.cutToMillis⟩
  /-- The window is not empty. -/
  start_lt : survey.frontier s.epoch < now.cutToMillis

namespace Settings

variable {s : Settings} {now : Instant}

/-- The ways in which an invocation can go. -/
inductive Unfolds (s : Settings) (now : Instant) :
    List Event → Option (Except Failure Outcome) → Prop
  /-- It reads, and then it fails or is cut short. -/
  | reading {es : List Event} {r : Option (Except Failure Outcome)} :
    (∀ e ∈ es, e.call.isReading = true) →
    (∀ x, r = some x → ∃ f, x = .error f ∧ s.Stalls now es f) → Unfolds s now es r
  /-- Some exports have not completed, and it looks them up. -/
  | lookingUp {v : Sighting} {survey : Survey} {es : List Event}
      {r : Option (Except Failure (List RunCheck))} :
    v.survey? s.keyPrefix = .ok survey → survey.running ≠ [] ∨ survey.blocking ≠ [] →
    Program.Traces (s.checkRuns survey.running).run es r →
    Unfolds s now (v.events s.bucket s.keyPrefix ++ es) (r.map (·.map fun checks =>
      .inProgress (checks ++ survey.blocking.map (⟨·.key, none, .unreadable⟩))))
  /-- It is cut short before it submits. -/
  | stopped {v : Sighting} {survey : Survey} {w : Window} :
    s.Plans now v survey w → Unfolds s now (v.events s.bucket s.keyPrefix) none
  /-- It submits, and the service refuses. -/
  | refused {v : Sighting} {survey : Survey} {w : Window} (e : JobFailure) :
    s.Plans now v survey w →
    Unfolds s now (v.events s.bucket s.keyPrefix ++ [⟨.submit (s.request w), .error e⟩])
      (some (.error (.submit e)))
  /-- It submits, the service accepts, and it moves the markers. -/
  | accepted {v : Sighting} {survey : Survey} {w : Window} {es : List Event}
      {r : Option (Except StoreFailure Unit)} (exportId : String) :
    s.Plans now v survey w →
    Program.Traces (Move.relocateAll s.bucket (survey.moves s.layout)) es r →
    Unfolds s now
      (v.events s.bucket s.keyPrefix ++ ⟨.submit (s.request w), .ok exportId⟩ :: es)
      (r.map fun moved => (moved.mapError Failure.store).map fun _ =>
        .submitted exportId w (survey.moves s.layout).length)

/-- An invocation goes in one of these ways, whatever it is answered and wherever it is cut
short. -/
theorem unfolds_of_traces {es : List Event} {r : Option (Except Failure Outcome)}
    (h : Program.Traces (s.invoke now).run es r) : s.Unfolds now es r := by
  rcases traces_invoke h with ⟨hread, hr⟩ | ⟨v, survey, a, es', rfl, hv, ha, hdo⟩
  · exact .reading hread hr
  -- The survey calls for look-ups or for a submission.
  cases a with
  | inProgress running unreadable =>
    obtain ⟨rfl, rfl, hsome⟩ := Survey.assess_inProgress ha
    obtain ⟨r', hchecks, rfl⟩ := Program.Traces.of_attempt_pure (x := s.checkRuns _) hdo
    exact .lookingUp hv hsome hchecks
  | ready plan =>
    obtain ⟨hrunning, hblocking, hlt, rfl⟩ := Survey.assess_ready.1 ha
    have hplans : s.Plans now v survey ⟨survey.frontier s.epoch, now.cutToMillis⟩ :=
      ⟨hv, hrunning, hblocking, rfl, hlt⟩
    rcases traces_submit hdo with
      ⟨rfl, rfl⟩ | ⟨e, rfl, rfl⟩ | ⟨exportId, es'', r', rfl, hmoves, rfl⟩
    · rw [List.append_nil]
      exact .stopped hplans
    · exact .refused e hplans
    · exact .accepted exportId hplans hmoves

end Settings

end LedgerExport
