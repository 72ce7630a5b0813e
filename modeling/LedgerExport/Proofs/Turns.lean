import LedgerExport.Proofs.Observation

/-!
# Turns

One invocation in a world of its own: with its clock, what the store does wrong, the service, and a
limit. Turns that are taken one after the other share the objects of the store and nothing else.
-/

namespace LedgerExport

open Time World

/-- The circumstances of an invocation. -/
structure Turn (τ : Type) where
  /-- The clock. -/
  now : Instant
  /-- What the store does wrong. -/
  faults : Faults
  /-- The service. -/
  service : JobService τ
  /-- The state of the service at the start. -/
  jobs : τ
  /-- How long calls take. -/
  cost : Call → Nat
  /-- How long the invocation may take. -/
  limit : Option Nat

namespace Turn

variable {τ : Type}

/-- The world at the start of a turn, with the objects of a store. -/
def world (t : Turn τ) (m : Store) : World τ := ⟨{ m with faults := t.faults }, t.jobs⟩

/-- What happens in a turn. -/
def course (s : Settings) (t : Turn τ) (m : Store) :
    Course (World τ) (Except Failure Outcome) :=
  (s.invoke t.now).run.runWithin (World.respond t.service) t.cost t.limit (t.world m)

/-- The calls that are answered in a turn. -/
def events (s : Settings) (t : Turn τ) (m : Store) : List Event :=
  (s.invoke t.now).run.eventsFrom (World.respond t.service) t.cost t.limit (t.world m) 0

/-- The store at the end of a turn. -/
def after (s : Settings) (t : Turn τ) (m : Store) : Store := (t.course s m).state.store

/-- A turn is one of the ways in which an invocation can go. -/
theorem unfolds (s : Settings) (t : Turn τ) (m : Store) :
    s.Unfolds t.now (t.events s m) (t.course s m).result :=
  Settings.unfolds_of_traces (Program.traces_eventsFrom ..)

/-- The calls of a turn take the store from its start to its end. -/
theorem passes (s : Settings) (t : Turn τ) (m : Store) :
    Store.Passes Eq (t.world m).store (t.events s m) (t.after s m) :=
  Store.passes_eventsFrom World.store
    (fun c w => ⟨w.store, rfl, World.answers_respond t.service c w⟩) ..

/-- In a turn, the store does not change by itself. -/
theorem agree_of_eq {P : String → Prop} {bucket : String} (m₁ m₂ : Store) (h : m₁ = m₂) :
    m₁.Agree P bucket m₂ :=
  fun _ _ => Store.find?_of_eq _ _ h

/-- What is seen at the start of a turn is what the store has. -/
theorem reports {s : Settings} {t : Turn τ} {m : Store} {v : Sighting} {es : List Event}
    (h : t.events s m = v.events s.bucket s.keyPrefix ++ es) : v.Reports (fun _ => True) s m := by
  have hpasses := t.passes s m
  rw [h] at hpasses
  obtain ⟨m₁, hsight, -⟩ := Store.passes_append.1 hpasses
  obtain ⟨hlists, hlisted, hread⟩ :=
    (Sighting.reports_of_passes (P := fun _ => True) agree_of_eq hsight).1
  exact ⟨hlists, hlisted, hread⟩

/-- Until its moves are made, nothing has changed in a turn. -/
theorem passes_moves {s : Settings} {t : Turn τ} {m : Store} {v : Sighting}
    {request : ExportRequest} {answer : Except JobFailure String} {es : List Event}
    (h : t.events s m = v.events s.bucket s.keyPrefix ++ ⟨.submit request, answer⟩ :: es) :
    (t.world m).store.Passes Eq es (t.after s m) := by
  have hpasses := t.passes s m
  rw [h, List.append_cons] at hpasses
  obtain ⟨m₁, hbefore, hmoves⟩ := Store.passes_append.1 hpasses
  have hsame : m₁ = (t.world m).store := hbefore.eq_of_isChange fun e he => by
    rcases List.mem_append.1 he with he | he
    · exact Call.isChange_of_isReading (Sighting.isReading_of_mem_events he)
    · rw [List.mem_singleton.1 he]
      rfl
  exact hsame ▸ hmoves

/-- A turn without a limit has a result. -/
theorem isSome_result {s : Settings} {t : Turn τ} {m : Store} (hlimit : t.limit = none) :
    (t.course s m).result.isSome = true := by
  unfold course Program.runWithin
  rw [hlimit, (Program.runFrom_none ..).1]
  rfl

/-- A turn so many seconds after the beginning of the year 2024, with a table of exports that knows
none and without a limit. -/
def sample (seconds : UInt32) (faults : Faults) : Turn JobTable where
  now := ⟨1704067200 + seconds.toNat, 0, by
    have hlt := seconds.toNat_lt
    unfold firstSecond lastSecond
    omega, Instant.start_lt⟩
  faults := faults
  service := JobTable.service
  jobs := JobTable.empty
  cost _ := 0
  limit := none

end Turn

/-- Settings of a bucket `b` without encryption and without a limit. -/
def Settings.sample (keyPrefix archiveRoot : String) : Settings where
  bucket := "b"
  keyPrefix := keyPrefix
  ledger := "ledger"
  roleArn := "role"
  archiveRoot := archiveRoot
  kmsKeyArn := none
  epoch := defaultEpoch
  timeoutSeconds := none

/-- The text of a manifest. -/
def Manifest.sampleText (exportId stop : String) : String :=
  "\x7b\"exportId\": \"" ++ exportId ++ "\", \"exclusiveEndTime\": \"" ++ stop ++ "\"\x7d"

/-- A store that has objects with these keys and texts in a bucket. -/
def World.Store.holding (bucket : String) (objects : List (String × String)) : Store :=
  objects.foldl (fun m o => m.put bucket o.1 o.2.toUTF8) .empty

/-- Such a store has no other objects. -/
theorem World.Store.mem_of_holding {bucket b key : String} {objects : List (String × String)}
    {body : ByteArray} (h : (holding bucket objects).find? b key = some body) :
    b = bucket ∧ key ∈ objects.map (·.1) := by
  -- What is there at the end was there before the objects were put, or it is one of them.
  have hput (m : Store)
      (h : (objects.foldl (fun m o => m.put bucket o.1 o.2.toUTF8) m).find? b key = some body) :
      m.find? b key = some body ∨ b = bucket ∧ key ∈ objects.map (·.1) := by
    clear * - h
    induction objects generalizing m with
    | nil => exact .inl h
    | cons o rest ih =>
      rcases ih _ h with hbefore | ⟨hb, hkey⟩
      · rw [find?_put] at hbefore
        split at hbefore
        · rename_i heq
          exact .inr ⟨heq.1.symm, heq.2 ▸ List.mem_cons_self⟩
        · exact .inl hbefore
      · exact .inr ⟨hb, List.mem_cons_of_mem _ hkey⟩
  exact (hput .empty h).resolve_left (nofun)

/-- A completed export. -/
def Turn.completedPair : Store := .holding "b"
  [("p/a.started.manifest", Manifest.sampleText "x" "2023-01-01T00:00:00Z"),
    ("p/a.completed.manifest", "")]

end LedgerExport
