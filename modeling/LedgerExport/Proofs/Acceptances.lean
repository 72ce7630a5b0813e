import Mathlib.Data.List.Infix
import LedgerExport.Proofs.Gate
import LedgerExport.Proofs.Observation

/-!
# Accepted submissions

What a history of invocations is about: the windows that the service accepts, and the markers of
starts directly under the prefix, from which the next window is planned. An invocation has at most
one window accepted, and it leaves the markers alone unless it has one accepted or an export is
unknown to the service (`Unfolds.acceptance`). What it changes is what moves of markers change
(`Unfolds.changes`). It never makes up markers: what holds of the bodies of all of them still does
afterwards (`Unfolds.throughout`).
-/

namespace LedgerExport

open Time World

/-- The name and the window of an export that the service accepts. -/
def Event.accepted? : Event → Option (String × Window)
  | ⟨.submit request, answer⟩ =>
    match (answer : Except JobFailure String) with
    | .ok exportId => some (exportId, request.window)
    | .error _ => none
  | _ => none

/-- The service does not know an export. -/
def Event.IsUnknown (e : Event) : Prop :=
  ∃ ledger exportId, e = ⟨.describe ledger exportId, .ok .unknown⟩

/-- A call that submits nothing has nothing accepted. -/
theorem Event.accepted?_of_isSubmission {e : Event} (h : e.call.isSubmission = false) :
    e.accepted? = none := by
  obtain ⟨c, answer⟩ := e
  cases c <;> first | rfl | cases h

/-- Calls that submit nothing have nothing accepted. -/
theorem Event.filterMap_accepted? {es : List Event} (h : ∀ e ∈ es, e.call.isSubmission = false) :
    es.filterMap accepted? = [] :=
  List.filterMap_eq_nil_iff.2 fun e he => accepted?_of_isSubmission (h e he)

namespace Settings

variable {s : Settings} {now : Instant} {es : List Event} {r : Option (Except Failure Outcome)}

/-- The key is that of a marker of a start directly under the prefix. -/
def Watches (s : Settings) (key : String) : Prop :=
  Store.lists s.keyPrefix (some "/") key = true ∧ Marker.IsStart key

/-- The bodies of all markers of starts directly under the prefix are such. -/
def Throughout (s : Settings) (R : ByteArray → Prop) (m : Store) : Prop :=
  ∀ key body, s.Watches key → m.find? s.bucket key = some body → R body

/-- Stores that agree at watched keys have the same markers of starts directly under the prefix. -/
theorem throughout_of_agree {R : ByteArray → Prop} {m m' : Store}
    (h : m.Agree s.Watches s.bucket m') (hm : s.Throughout R m) : s.Throughout R m' :=
  fun key body hkey hbody => hm key body hkey (by rwa [← h key hkey])

/-- A call moves a marker that the invocation has read into quarantine, because the service does
not know the export that its manifest names. -/
structure Quarantines (s : Settings) (es : List Event) (c : Call) (x : StartedMarker) : Prop where
  /-- The call is one of the move. -/
  makes : (s.quarantineOf x).Makes s.bucket c
  /-- The service does not know the export. -/
  unknown : (⟨.describe s.ledger x.manifest.exportId, .ok .unknown⟩ : Event) ∈ es
  /-- The marker has been read, and its export has not completed. -/
  seen : ∃ (v : Sighting) (survey : Survey) (es' : List Event),
    es = v.events s.bucket s.keyPrefix ++ es' ∧ v.survey? s.keyPrefix = .ok survey ∧
      x ∈ survey.running

/-- An invocation has nothing accepted, and then all that it changes is that it moves markers into
quarantine; or it has the window accepted that it has planned after a sighting, and then it moves
the markers of exports that have completed. -/
theorem Unfolds.acceptance (h : s.Unfolds now es r) :
    (es.filterMap Event.accepted? = [] ∧
      ∀ e ∈ es, e.call.isChange = true → ∃ x, s.Quarantines es e.call x) ∨
    ∃ (v : Sighting) (survey : Survey) (w : Window) (es' : List Event)
      (r' : Option (Except StoreFailure Unit)) (exportId : String),
      es = v.events s.bucket s.keyPrefix ++ ⟨.submit (s.request w), .ok exportId⟩ :: es' ∧
      es.filterMap Event.accepted? = [(exportId, w)] ∧ s.Plans now v survey w ∧
      Program.Traces (Move.relocateAll s.bucket (survey.moves s.layout)) es' r' ∧
      r = r'.map fun moved => (moved.mapError Failure.store).map fun _ =>
        .submitted exportId w (survey.moves s.layout).length := by
  have hseen (v : Sighting) : ∀ e ∈ v.events s.bucket s.keyPrefix, e.call.isReading = true :=
    fun e he => Sighting.isReading_of_mem_events he
  have hnothing : ∀ {es : List Event}, (∀ e ∈ es, e.call.isReading = true) →
      es.filterMap Event.accepted? = [] := fun hes =>
    Event.filterMap_accepted? fun e he => (Call.reads_only (hes e he)).1
  have hsame : ∀ {e : Event}, e.call.isReading = true → e.call.isChange ≠ true := fun he => by
    rw [Call.isChange_of_isReading he]
    decide
  cases h with
  | reading hread => exact .inl ⟨hnothing hread, fun e he hc => absurd hc (hsame (hread e he))⟩
  | @lookingUp v survey es r hv _ hchecks =>
    -- Look-ups submit nothing, and the only moves among them are those into quarantine.
    have hcalls := traces_checkRuns hchecks
    refine .inl ⟨?_, fun e he hchange => ?_⟩
    · rw [List.filterMap_append, hnothing (hseen v), List.nil_append]
      refine Event.filterMap_accepted? fun e he => ?_
      obtain ⟨started, -, hcall | ⟨hmakes, -⟩⟩ := hcalls e he
      · rw [hcall]
        rfl
      · exact hmakes.moves_only.1
    · rcases List.mem_append.1 he with he | he
      · exact absurd hchange (hsame (hseen v e he))
      obtain ⟨x, hx, hcall | ⟨hmakes, hunknown⟩⟩ := hcalls e he
      · rw [hcall] at hchange
        cases hchange
      · exact ⟨x, hmakes, List.mem_append_right _ hunknown, v, survey, es, rfl, hv, hx⟩
  | @stopped v =>
    exact .inl ⟨hnothing (hseen v), fun e he hc => absurd hc (hsame (hseen v e he))⟩
  | @refused v survey w e =>
    refine .inl ⟨?_, fun e' he hchange => ?_⟩
    · rw [List.filterMap_append, hnothing (hseen v)]
      rfl
    · rcases List.mem_append.1 he with he | he
      · exact absurd hchange (hsame (hseen v e' he))
      · rw [List.mem_singleton.1 he] at hchange
        cases hchange
  | @accepted v survey w es r exportId hplans hmoves =>
    refine .inr ⟨v, survey, w, es, r, exportId, rfl, ?_, hplans, hmoves, rfl⟩
    -- The moves behind the request submit nothing more.
    have hnone : es.filterMap Event.accepted? = [] := Event.filterMap_accepted? fun e he => by
      obtain ⟨move, -, hmakes⟩ := (Move.traces_relocateAll hmoves).1 e he
      exact hmakes.moves_only.1
    rw [List.filterMap_append, hnothing (hseen v), List.nil_append]
    show (exportId, w) :: es.filterMap Event.accepted? = _
    rw [hnone]

/-- What an invocation changes is what moves change, and those take markers from under the prefix
into quarantine or into the folder of an hour. -/
theorem Unfolds.changes {P : String → Prop} {enter : Store → Store → Prop} {m m' : Store}
    (henter : ∀ m₁ m₂, enter m₁ m₂ → m₁.Agree P s.bucket m₂) (h : s.Unfolds now es r)
    (hpasses : m.Passes enter es m') {e : Event} (he : e ∈ es) (hchange : e.call.isChange = true) :
    ∃ move : Move, move.Makes s.bucket e.call ∧
      Store.lists s.keyPrefix (some "/") move.source = true ∧
      (move.destination = s.layout.quarantineKey move.source ∨
        ∃ stop, move.destination = s.layout.archiveKey move.source stop) := by
  have hseen (v : Sighting) (hv : e ∈ v.events s.bucket s.keyPrefix) : False := by
    rw [Call.isChange_of_isReading (Sighting.isReading_of_mem_events hv)] at hchange
    cases hchange
  rcases h.acceptance with ⟨-, hchanges⟩ |
    ⟨v, survey, w, es', r', exportId, rfl, -, hplans, hmoves, -⟩
  · -- A marker that is moved into quarantine has been read.
    obtain ⟨x, hmakes, -, v, survey, es', rfl, hv, hx⟩ := hchanges e he hchange
    obtain ⟨m₁, hsight, -⟩ := Store.passes_append.1 hpasses
    have hreports := (Sighting.reports_of_passes henter hsight).1
    exact ⟨_, hmakes, hreports.lists_of_mem_among
      (v.marker_mem_among hv (List.mem_of_mem_filter hx)), .inl rfl⟩
  · -- A marker that is archived is one of the survey's starts or of its completions.
    obtain ⟨m₁, hsight, -⟩ := Store.passes_append.1 hpasses
    have hreports := (Sighting.reports_of_passes henter hsight).1
    rcases List.mem_cons.1 ((List.mem_append.1 he).resolve_left (hseen v)) with rfl | he
    · cases hchange
    obtain ⟨move, hmove, hmakes⟩ := (Move.traces_relocateAll hmoves).1 e he
    obtain ⟨started, hstarted, ⟨c, hc, -, rfl⟩ | rfl⟩ := Survey.mem_moves.1 hmove
    · exact ⟨_, hmakes, hreports.lists_of_mem_among
        ((Survey.sorts_ofReadings hplans.taken).completed.mem_iff.1 hc), .inr ⟨_, rfl⟩⟩
    · exact ⟨_, hmakes, hreports.lists_of_mem_among
        (v.marker_mem_among hplans.taken hstarted), .inr ⟨_, rfl⟩⟩

/-- A copy of a marker that is one of a start directly under the prefix is a copy of one that is
so too. -/
theorem watches_source {source destination : String}
    (hsource : Store.lists s.keyPrefix (some "/") source = true)
    (hdestination : destination = s.layout.quarantineKey source ∨
      ∃ stop, destination = s.layout.archiveKey source stop) (h : s.Watches destination) :
    s.Watches source := by
  rcases hdestination with rfl | ⟨stop, rfl⟩
  · -- What is in quarantine is not listed, so it is not watched.
    have hnot := Layout.not_lists_quarantineKey (l := s.layout) hsource
    exact absurd (h.1.symm.trans hnot) (by decide)
  · exact ⟨hsource, Layout.isStart_of_archiveKey (l := s.layout) hsource h.2⟩

/-- What holds of the bodies of all markers of starts directly under the prefix still does after an
invocation. -/
theorem Unfolds.throughout {R : ByteArray → Prop} {enter : Store → Store → Prop} {m m' : Store}
    (henter : ∀ m₁ m₂, enter m₁ m₂ → m₁.Agree s.Watches s.bucket m₂) (h : s.Unfolds now es r)
    (hpasses : m.Passes enter es m') (hm : s.Throughout R m) : s.Throughout R m' := by
  refine hpasses.preserves (P := s.Throughout R) (fun m₁ m₂ h₁₂ h₁ key body hkey hbody => ?_)
    (fun e he m₁ m₂ h₁₂ h₁ key body hkey hbody => ?_) hm
  · rw [henter m₁ m₂ h₁₂ key hkey] at hbody
    exact h₁ key body hkey hbody
  by_cases hchange : e.call.isChange = true
  · obtain ⟨move, hmakes, hsource, hdestination⟩ := h.changes henter hpasses he hchange
    obtain ⟨c, answer⟩ := e
    rcases hmakes with rfl | rfl | rfl
    · -- A copy has the body of its source, and its source is watched if it is.
      rcases h₁₂.find?_copy s.bucket key with hsame | ⟨-, rfl, body', hbody', hcopied⟩
      · rw [hsame] at hbody
        exact h₁ key body hkey hbody
      · obtain rfl := Option.some.inj (hcopied.symm.trans hbody)
        exact h₁ move.source body' (watches_source hsource hdestination hkey) hbody'
    · cases hchange
    · rcases h₁₂.find?_delete s.bucket key with hsame | ⟨-, -, -, hgone⟩
      · rw [hsame] at hbody
        exact h₁ key body hkey hbody
      · rw [hgone] at hbody
        cases hbody
  · rw [h₁₂.eq_of_isChange (Bool.eq_false_iff.2 hchange)] at hbody
    exact h₁ key body hkey hbody

end Settings

end LedgerExport
