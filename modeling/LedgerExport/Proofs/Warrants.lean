import Mathlib.Data.List.Infix
import LedgerExport.Proofs.Gate

/-!
# Grounds for moving an object

What must have come before an invocation changes an object, whatever it is answered. It changes
objects only in moves, and in a move it deletes an object only right after a copy of it has been
made and found (`Move.Changes`). A move has one of two grounds, which `Settings.Warrants` names: the
service has just said that it does not know the export of a marker, or it has accepted the next
window. `Unfolds.warranted` says so of every change, and `delete_warranted` of every deletion.
-/

namespace LedgerExport

open Time World

/-- The call is one of the service that runs the exports. -/
def Call.isJob (c : Call) : Bool := c.isLookup || c.isSubmission

/-- The last call of the service among some calls, with its answer. -/
def lastJob? (es : List Event) : Option Event := (es.filter (·.call.isJob)).getLast?

/-- A call of the service is the last one when no other comes after it. -/
theorem lastJob?_cons {e : Event} {es : List Event} (he : e.call.isJob = true)
    (h : ∀ e' ∈ es, e'.call.isJob = false) : lastJob? (e :: es) = some e := by
  have hnone : es.filter (·.call.isJob) = [] := by
    simpa [List.filter_eq_nil_iff] using h
  simp [lastJob?, he, hnone]

/-! ## Changes of a move -/

namespace Move

open Program (Traces)

variable {bucket : String} {m : Move} {es before : List Event}

/-- A call by which a move changes objects: it copies the object, or it deletes the object right
after a copy of it has been made and found. -/
inductive Changes (bucket : String) (m : Move) (before : List Event) : Call → Prop
  /-- The object is copied. -/
  | copy : Changes bucket m before (.copy bucket m.source m.destination)
  /-- The object is deleted. -/
  | delete : m.verified bucket <:+ before → Changes bucket m before (.delete bucket m.source)

/-- A call by which a move changes objects still does so when other calls came before. -/
theorem Changes.append {c : Call} (h : m.Changes bucket before c) (es : List Event) :
    m.Changes bucket (es ++ before) c := by
  cases h with
  | copy => exact .copy
  | delete hverified => exact .delete (hverified.trans (List.suffix_append es before))

/-- The calls of a move are none of the service. -/
theorem Makes.isJob {c : Call} (h : m.Makes bucket c) : c.isJob = false := by
  rcases h with rfl | rfl | rfl <;> rfl

/-- Moving an object changes objects only as a move may. -/
theorem along_relocate {r : Option (Except StoreFailure Unit)}
    (h : Traces (m.relocate bucket) es r) : Along (fun before e => e.call.isChange = true →
      m.Changes bucket before e.call) es := by
  rw [relocate] at h
  rcases Traces.of_call h with ⟨rfl, rfl⟩ | ⟨copied, es, rfl, hcopy⟩
  · exact along_of_forall (by simp)
  refine along_cons.2 ⟨fun _ => .copy, ?_⟩
  rcases copied with e | ⟨⟩
  · -- When the object was not copied, there is at most a probe.
    have hprobes : ∀ e ∈ es, e.call.isChange = false := by
      dsimp only at hcopy
      split at hcopy
      · rcases Traces.of_call hcopy with ⟨rfl, rfl⟩ | ⟨found, es, rfl, hprobe⟩
        · simp
        · rcases found with e' | _ | _
          all_goals obtain ⟨rfl, rfl⟩ := Traces.of_done hprobe
          all_goals exact List.forall_mem_singleton.2 rfl
      · obtain ⟨rfl, rfl⟩ := Traces.of_done hcopy
        simp
    exact along_of_forall fun e he before hchange => by simp [hprobes e he] at hchange
  rcases Traces.of_call hcopy with ⟨rfl, rfl⟩ | ⟨found, es, rfl, hprobe⟩
  · exact along_of_forall (by simp)
  refine along_cons.2 ⟨(fun hchange => by cases hchange), ?_⟩
  rcases found with e' | _ | _
  · obtain ⟨rfl, rfl⟩ := Traces.of_done hprobe
    exact along_of_forall (by simp)
  · obtain ⟨rfl, rfl⟩ := Traces.of_done hprobe
    exact along_of_forall (by simp)
  · -- The copy has been made and found just before the deletion.
    rcases Traces.of_ask hprobe with ⟨rfl, rfl⟩ | ⟨deleted, rfl, rfl⟩
    · exact along_of_forall (by simp)
    · exact along_cons.2 ⟨fun _ => .delete List.suffix_rfl, along_of_forall (by simp)⟩

/-- Moving objects changes objects only as one of the moves may. -/
theorem along_relocateAll {moves : List Move} {r : Option (Except StoreFailure Unit)}
    (h : Traces (relocateAll bucket moves) es r) : Along (fun before e => e.call.isChange = true →
      ∃ m ∈ moves, m.Changes bucket before e.call) es := by
  induction moves generalizing es r with
  | nil =>
    obtain ⟨rfl, rfl⟩ := Traces.of_done h
    exact along_of_forall (by simp)
  | cons m rest ih =>
    have hfirst {es : List Event} {r : Option (Except StoreFailure Unit)}
        (hm : Traces (m.relocate bucket) es r) : Along (fun before e => e.call.isChange = true →
          ∃ m' ∈ m :: rest, m'.Changes bucket before e.call) es :=
      (along_relocate hm).imp fun before e he hchange => ⟨m, List.mem_cons_self, he hchange⟩
    rw [relocateAll] at h
    rcases Traces.of_bind h with ⟨rfl, hm⟩ | ⟨es₁, moved, es₂, rfl, hm, hrest⟩
    · exact hfirst hm
    rcases moved with e | ⟨⟩
    · obtain ⟨rfl, rfl⟩ := Traces.of_done hrest
      rw [List.append_nil]
      exact hfirst hm
    · refine along_append.2 ⟨hfirst hm, (ih hrest).imp fun before e he hchange => ?_⟩
      obtain ⟨m', hm', hchanges⟩ := he hchange
      exact ⟨m', List.mem_cons_of_mem _ hm', hchanges.append es₁⟩

end Move

/-! ## Grounds -/

namespace Settings

open Program (Traces)

variable {s : Settings} {now : Instant} {es : List Event}

/-- A change belongs to the move of one of these markers into quarantine, and the last word of the
service was that it does not know the marker's export. -/
def Discards (s : Settings) (running : List StartedMarker) (before : List Event) (e : Event) :
    Prop :=
  e.call.isChange = true → ∃ started ∈ running,
    (s.quarantineOf started).Changes s.bucket before e.call ∧ lastJob? before =
      some ⟨.describe s.ledger started.manifest.exportId, .ok .unknown⟩

/-- A change that belongs to a move into quarantine still does so when other calls came before. -/
theorem Discards.append {running running' : List StartedMarker} {before : List Event} {e : Event}
    (h : s.Discards running before e) (hmem : ∀ x ∈ running, x ∈ running') (es : List Event) :
    s.Discards running' (es ++ before) e := fun hchange => by
  obtain ⟨started, hstarted, hchanges, hlast⟩ := h hchange
  refine ⟨started, hmem started hstarted, hchanges.append es, ?_⟩
  -- The later word of the service is the last one.
  rw [lastJob?, List.filter_append, List.getLast?_append, ← lastJob?, hlast]
  rfl

/-- Looking up an export changes objects only by moving its marker into quarantine, and only when
the last word of the service was that it does not know the export. -/
theorem along_checkRun {started : StartedMarker} {r : Option (Except Failure RunCheck)}
    (h : Traces (s.checkRun started).run es r) : Along (s.Discards [started]) es := by
  cases looksUp_of_traces h with
  | stopped => exact along_of_forall (by simp)
  | failed | found => exact along_of_forall (List.forall_mem_singleton.2 fun _ => nofun)
  | unknown hmove =>
    refine along_cons.2 ⟨(fun hchange => by cases hchange), fun before e after heq hchange => ?_⟩
    refine ⟨started, List.mem_singleton_self _,
      (Move.along_relocate hmove before e after heq hchange).append [_], ?_⟩
    -- The calls of the move are none of the service.
    refine lastJob?_cons rfl fun e' he' => ?_
    exact ((Move.traces_relocate hmove).1 e' (by simp [heq, he'])).isJob

/-- Looking up exports changes objects only by moving markers into quarantine, each only when the
last word of the service was that it does not know the export. -/
theorem along_checkRuns {running : List StartedMarker} {r : Option (Except Failure (List RunCheck))}
    (h : Traces (s.checkRuns running).run es r) : Along (s.Discards running) es := by
  induction running generalizing es r with
  | nil =>
    obtain ⟨rfl, rfl⟩ := Traces.of_done h
    exact along_of_forall (by simp)
  | cons started rest ih =>
    have hfirst {es : List Event} {r : Option (Except Failure RunCheck)}
        (hx : Traces (s.checkRun started).run es r) : Along (s.Discards (started :: rest)) es :=
      (along_checkRun hx).imp fun before e he => he.append (by simp) []
    rw [checkRuns] at h
    rcases Traces.of_attempt h with ⟨-, hx⟩ | ⟨e, -, hx⟩ | ⟨es₁, check, es₂, rfl, hx, hrest⟩
    · exact hfirst hx
    · exact hfirst hx
    obtain ⟨r', hmore, -⟩ := Traces.of_attempt_pure hrest
    exact along_append.2 ⟨hfirst hx, (ih hmore).imp fun before e he =>
      he.append (fun x hx => List.mem_cons_of_mem _ hx) es₁⟩

/-- The grounds for a move, after a sighting and the calls that have been made. -/
inductive Warrants (s : Settings) (v : Sighting) (before : List Event) : Move → Prop
  /-- A marker of a start that has been read goes into quarantine: the last word of the service was
  that it does not know the export that the marker's manifest names. -/
  | lost {x : Marker} {body : ByteArray} {manifest : Manifest} :
    (x, body) ∈ v.readings → Manifest.ofBytes body = .ok manifest →
    lastJob? before = some ⟨.describe s.ledger manifest.exportId, .ok .unknown⟩ →
    Warrants s v before ⟨x.key, s.layout.quarantineKey x.key⟩
  /-- A marker of a start that has been read, or one of completion of its group, goes into the
  folder for the end of its window: the service has accepted the next window. -/
  | completed {x start : Marker} {body : ByteArray} {manifest : Manifest} {request : ExportRequest}
      {exportId : String} :
    (start, body) ∈ v.readings → Manifest.ofBytes body = .ok manifest →
    x = start ∨ x ∈ Marker.among v.objects .completed ∧ x.group = start.group →
    ⟨.submit request, .ok exportId⟩ ∈ before →
    Warrants s v before ⟨x.key, s.layout.archiveKey x.key manifest.stop⟩

/-- A marker of a start in a survey has been read. -/
theorem exists_reading {v : Sighting} {survey : Survey} (hv : v.survey? s.keyPrefix = .ok survey)
    {x : StartedMarker} (hx : x ∈ survey.started) :
    ∃ body, (x.marker, body) ∈ v.readings ∧ Manifest.ofBytes body = .ok x.manifest := by
  obtain ⟨⟨marker, body⟩, hmem, heq⟩ :=
    List.mem_map.1 ((Survey.sorts_ofReadings hv).mem_started.1 hx)
  obtain ⟨rfl, hbody⟩ : marker = x.marker ∧ Manifest.ofBytes body = .ok x.manifest :=
    Prod.ext_iff.1 heq
  exact ⟨body, hmem, hbody⟩

/-- What is moved with a reason was listed. -/
theorem Warrants.listed {v : Sighting} {before : List Event} {m : Move}
    (h : s.Warrants v before m) : ∃ o ∈ v.objects, o.key = m.source := by
  cases h with
  | lost hread =>
    exact (Marker.mem_among.1 (Sighting.mem_started_iff.2 ⟨_, hread⟩)).2.2
  | completed hread _ hx _ =>
    rcases hx with rfl | ⟨hx, -⟩
    · exact (Marker.mem_among.1 (Sighting.mem_started_iff.2 ⟨_, hread⟩)).2.2
    · exact (Marker.mem_among.1 hx).2.2

/-- A change belongs to a move for which there are grounds after the sighting of the invocation. -/
def Warranted (s : Settings) (before : List Event) (e : Event) : Prop :=
  e.call.isChange = true → ∃ (v : Sighting) (m : Move), v.events s.bucket s.keyPrefix <+: before ∧
    s.Warrants v before m ∧ m.Changes s.bucket before e.call

/-- An invocation changes objects only in moves for which there are grounds. -/
theorem Unfolds.warranted {r : Option (Except Failure Outcome)} (h : s.Unfolds now es r) :
    Along s.Warranted es := by
  have hreads {es : List Event} (hes : ∀ e ∈ es, e.call.isReading = true) :
      Along s.Warranted es := along_of_forall fun e he before hchange => by
    rw [Call.isChange_of_isReading (hes e he)] at hchange
    cases hchange
  have hseen (v : Sighting) : Along s.Warranted (v.events s.bucket s.keyPrefix) :=
    hreads fun e he => Sighting.isReading_of_mem_events he
  cases h with
  | reading hread => exact hreads hread
  | @lookingUp v survey es r hv _ hchecks =>
    refine along_append.2 ⟨hseen v, (along_checkRuns hchecks).imp fun before e he hchange => ?_⟩
    obtain ⟨started, hmem, hchanges, hlast⟩ :=
      he.append (fun x hx => List.mem_of_mem_filter hx) (v.events s.bucket s.keyPrefix) hchange
    obtain ⟨body, hread, hbody⟩ := exists_reading hv hmem
    exact ⟨v, _, List.prefix_append _ _, .lost hread hbody hlast, hchanges⟩
  | @stopped v => exact hseen v
  | @refused v survey w e =>
    refine along_append.2 ⟨hseen v, along_of_forall fun e' he' before hchange => ?_⟩
    obtain rfl := List.mem_singleton.1 he'
    cases hchange
  | @accepted v survey w es r exportId hplans hmoves =>
    refine along_append.2 ⟨hseen v, along_cons.2 ⟨(fun hchange => by cases hchange),
      (Move.along_relocateAll hmoves).imp fun before e he hchange => ?_⟩⟩
    obtain ⟨m, hm, hchanges⟩ := he hchange
    refine ⟨v, m, List.prefix_append _ _, ?_, (hchanges.append [_]).append _⟩
    -- A move of the plan is one of the marker of a start or of a marker of its completion.
    obtain ⟨started, hstarted, hmove⟩ := Survey.mem_moves.1 hm
    obtain ⟨body, hread, hbody⟩ := exists_reading hplans.taken hstarted
    have haccepted : ⟨.submit (s.request w), .ok exportId⟩ ∈
        v.events s.bucket s.keyPrefix ++ (⟨.submit (s.request w), .ok exportId⟩ :: before) := by
      simp
    rcases hmove with ⟨c, hc, hgroup, rfl⟩ | rfl
    · have hamong := (Survey.sorts_ofReadings hplans.taken).completed.mem_iff.1 hc
      exact .completed hread hbody (.inr ⟨hamong, hgroup⟩) haccepted
    · exact .completed hread hbody (.inl rfl) haccepted

/-- However the store and the service answer and wherever a limit cuts it short, an invocation
deletes only objects that its listing has named, each right after a copy of it has been made and
found; and there are grounds for the move. -/
theorem delete_warranted {σ : Type} (s : Settings) (now : Instant) (respond : Responder σ)
    (cost : Call → Nat) (limit : Option Nat) (w : σ) {before after : List Event}
    {bucket key : String} {answer : Except StoreFailure Unit}
    (h : (s.invoke now).run.eventsFrom respond cost limit w 0 =
      before ++ ⟨.delete bucket key, answer⟩ :: after) :
    bucket = s.bucket ∧ ∃ (v : Sighting) (m : Move), v.events s.bucket s.keyPrefix <+: before ∧
      (∃ o ∈ v.objects, o.key = key) ∧ m.source = key ∧ m.verified s.bucket <:+ before ∧
      s.Warrants v before m := by
  have htrace := Program.traces_eventsFrom respond cost limit (s.invoke now).run w 0
  obtain ⟨v, m, hseen, hwarrants, hchanges⟩ :=
    (unfolds_of_traces htrace).warranted before _ after h rfl
  have hlisted := hwarrants.listed
  cases hchanges with
  | delete hverified => exact ⟨rfl, v, m, hseen, hlisted, rfl, hverified, hwarrants⟩

/-- The key of the marker of a start. -/
def sampleStart : String := "p/a.started.manifest"

/-- A store with the marker. -/
def startAlone : Store :=
  .holding "b" [(sampleStart, Manifest.sampleText "x" "2023-01-01T00:00:00Z")]

/-- The marker is deleted when the service does not know its export, and when its export has
completed; there are grounds for both. -/
theorem both_deletions_warranted : let s := Settings.sample "p/" "p/"
    let warranted (m : Store) : Prop := ∃ before answer after,
      (Turn.sample 0 .none).events s m = before ++ ⟨.delete s.bucket sampleStart, answer⟩ :: after ∧
      ∃ (v : Sighting) (move : Move), v.events s.bucket s.keyPrefix <+: before ∧
        (∃ o ∈ v.objects, o.key = sampleStart) ∧ move.source = sampleStart ∧
        move.verified s.bucket <:+ before ∧ s.Warrants v before move
    warranted startAlone ∧ warranted Turn.completedPair := by
  intro s warranted
  have hwarranted (m : Store) (hdeleted : ((Turn.sample 0 .none).events s m).any
      (·.call = .delete s.bucket sampleStart) = true) : warranted m := by
    obtain ⟨before, answer, after, hes⟩ := exists_split hdeleted
    exact ⟨before, answer, after, hes, (delete_warranted s _ _ _ _ _ hes).2⟩
  exact ⟨hwarranted _ (by decide +kernel), hwarranted _ (by decide +kernel)⟩

end Settings

end LedgerExport
