import LedgerExport.Proofs.Warrants

/-!
# What a failure leaves behind

How far an invocation has come when it fails, whatever it is answered. `Unfolds.failure` tells the
failures apart by that: an invocation that fails while it reads or when it submits has changed
nothing; one that cannot look up an export has looked up those before it; and one whose move breaks
off has made the moves before it and begun none behind it (`Settings.Interrupted`).
`failure_effects` says it of every run.
-/

namespace LedgerExport

open Time World

/-- The failure of a call that reads. -/
def Event.readFailure? : Event → Option StoreFailure
  | ⟨.list .., answer⟩ =>
    match (answer : Except StoreFailure (List ObjectSummary)) with
    | .ok _ => none
    | .error e => some e
  | ⟨.get .., answer⟩ =>
    match (answer : Except StoreFailure ByteArray) with
    | .ok _ => none
    | .error e => some e
  | _ => none

/-- A call that does not read has no such failure. -/
theorem Event.readFailure?_of_isReading {e : Event} (h : e.call.isReading = false) :
    e.readFailure? = none := by
  obtain ⟨c, answer⟩ := e
  cases c <;> first | rfl | cases h

/-- No call by which something was seen has failed. -/
theorem Sighting.readFailure?_of_mem_events {bucket keyPrefix : String} {v : Sighting} {e : Event}
    (h : e ∈ v.events bucket keyPrefix) : e.readFailure? = none := by
  rcases List.mem_cons.1 h with rfl | h
  · rfl
  · obtain ⟨r, -, rfl⟩ := List.mem_map.1 h
    rfl

namespace Settings

open Program (Traces)

variable {s : Settings} {now : Instant} {es : List Event}

/-! ## Look-ups -/

/-- The calls of look-ups that have all succeeded, one after the other: each export is known to the
service, or its marker has been moved into quarantine. -/
inductive Settles (s : Settings) : List StartedMarker → List Event → Prop
  /-- There is nothing to look up. -/
  | nil : Settles s [] []
  /-- The service knows the first export. -/
  | found {x : StartedMarker} {rest : List StartedMarker} {es : List Event} (status : JobStatus) :
    Settles s rest es →
    Settles s (x :: rest) (⟨.describe s.ledger x.manifest.exportId, .ok (.found status)⟩ :: es)
  /-- The service does not know the first export, and its marker has been moved. -/
  | unknown {x : StartedMarker} {rest : List StartedMarker} {moving es : List Event} :
    (s.quarantineOf x).Made s.bucket moving → Settles s rest es →
    Settles s (x :: rest)
      (⟨.describe s.ledger x.manifest.exportId, .ok .unknown⟩ :: (moving ++ es))

/-- A look-up that succeeds is settled before the others. -/
theorem LooksUp.settles {x : StartedMarker} {rest : List StartedMarker} {es' : List Event}
    {r : Option (Except Failure RunCheck)} (h : s.LooksUp x es r) {check : RunCheck}
    (hr : r = some (.ok check)) (hrest : s.Settles rest es') :
    s.Settles (x :: rest) (es ++ es') := by
  cases h with
  | stopped | failed => cases hr
  | found status => exact .found status hrest
  | @unknown es moved hmove =>
    rcases moved with _ | e | ⟨⟩ <;> cases hr
    exact .unknown ((Move.traces_relocate hmove).2.1 rfl) hrest

/-- A look-up that fails is one that the service does not answer, or one whose move breaks off. -/
theorem LooksUp.failed_or_broken {x : StartedMarker} {r : Option (Except Failure RunCheck)}
    (h : s.LooksUp x es r) {f : Failure} (hr : r = some (.error f)) :
    (∃ e, f = .lookup x.manifest.exportId e ∧
      es = [⟨.describe s.ledger x.manifest.exportId, .error e⟩]) ∨
    ∃ e es', f = .store e ∧
      es = ⟨.describe s.ledger x.manifest.exportId, .ok .unknown⟩ :: es' ∧
      (s.quarantineOf x).Breaks s.bucket es' e := by
  cases h with
  | stopped | found => cases hr
  | failed e => exact .inl ⟨e, (Except.error.inj (Option.some.inj hr)).symm, rfl⟩
  | @unknown es moved hmove =>
    rcases moved with _ | e | _ <;> cases hr
    exact .inr ⟨e, es, rfl, rfl, (Move.traces_relocate hmove).2.2 e rfl⟩

/-- Of look-ups that fail, those before one have succeeded, and that one has failed. -/
theorem exists_failed {running : List StartedMarker} {f : Failure}
    (h : Traces (s.checkRuns running).run es (some (.error f))) :
    ∃ done x rest es₁ es₂, running = done ++ x :: rest ∧ es = es₁ ++ es₂ ∧ s.Settles done es₁ ∧
      s.LooksUp x es₂ (some (.error f)) := by
  induction running generalizing es with
  | nil => cases (Traces.of_done h).2
  | cons x rest ih =>
    rcases traces_checkRuns_cons h with ⟨f', hr, hx⟩ | ⟨es₁, check, es₂, r', rfl, hx, hmore, hr⟩
    · obtain rfl := Except.error.inj hr
      exact ⟨[], x, rest, [], es, rfl, rfl, .nil, hx⟩
    rcases r' with f' | more <;> cases hr
    obtain ⟨done, y, rest', es₃, es₄, rfl, rfl, hdone, hy⟩ := ih hmore
    exact ⟨x :: done, y, rest', es₁ ++ es₃, es₄, rfl, by simp, hx.settles rfl hdone, hy⟩

/-- A change among look-ups that have succeeded belongs to the move of a marker into quarantine,
which comes right after the service has said that it does not know the marker's export. -/
theorem Settles.exists_move {running : List StartedMarker} (h : s.Settles running es) {ev : Event}
    (hev : ev ∈ es) (hchange : ev.call.isChange = true) :
    ∃ x ∈ running, ∃ before moving after,
      es = before ++ ⟨.describe s.ledger x.manifest.exportId, .ok .unknown⟩ :: (moving ++ after) ∧
      ev ∈ moving ∧ (s.quarantineOf x).Made s.bucket moving := by
  induction h with
  | nil => cases hev
  | found status _ ih =>
    rcases List.mem_cons.1 hev with rfl | hev
    · cases hchange
    obtain ⟨x, hx, before, moving, after, rfl, hmem, hmade⟩ := ih hev
    exact ⟨x, List.mem_cons_of_mem _ hx, _ :: before, moving, after, rfl, hmem, hmade⟩
  | @unknown y rest moving es hmade _ ih =>
    rcases List.mem_cons.1 hev with rfl | hev
    · cases hchange
    rcases List.mem_append.1 hev with hev | hev
    · exact ⟨y, List.mem_cons_self, [], moving, es, rfl, hev, hmade⟩
    · obtain ⟨x, hx, before, moving', after, rfl, hmem, hmade'⟩ := ih hev
      let asked : Event := ⟨.describe s.ledger y.manifest.exportId, .ok .unknown⟩
      exact ⟨x, List.mem_cons_of_mem y hx, asked :: (moving ++ before), moving', after,
        by simp [asked], hmem, hmade'⟩

/-! ## Failures -/

/-- The start's marker and its manifest were read in a sighting with which the calls begin. -/
def HasRead (s : Settings) (es : List Event) (x : StartedMarker) : Prop :=
  ∃ (v : Sighting) (body : ByteArray), v.events s.bucket s.keyPrefix <+: es ∧
    (x.marker, body) ∈ v.readings ∧ Manifest.ofBytes body = .ok x.manifest

/-- A change belongs to the move of a marker into quarantine: the marker has been read, the service
has said that it does not know its export, and right after that comes the move, which has been
made. -/
def Clears (s : Settings) (es : List Event) (ev : Event) : Prop :=
  ∃ (x : StartedMarker) (before moving after : List Event),
    es = before ++ ⟨.describe s.ledger x.manifest.exportId, .ok .unknown⟩ :: (moving ++ after) ∧
    ev ∈ moving ∧ (s.quarantineOf x).Made s.bucket moving ∧ s.HasRead before x

/-- A move has broken off. The moves before it have been made, and with it the calls end. -/
inductive Interrupted (s : Settings) (now : Instant) (es : List Event) (e : StoreFailure) : Prop
  /-- It is one of a marker into quarantine. -/
  | quarantine {v : Sighting} {survey : Survey} {done rest : List StartedMarker} {x : StartedMarker}
      {es₁ es₂ : List Event} : v.survey? s.keyPrefix = .ok survey →
    survey.running = done ++ x :: rest → s.Settles done es₁ →
    (s.quarantineOf x).Breaks s.bucket es₂ e → es = v.events s.bucket s.keyPrefix ++ es₁ ++
      ⟨.describe s.ledger x.manifest.exportId, .ok .unknown⟩ :: es₂ → Interrupted s now es e
  /-- It is one of a plan. -/
  | archive {v : Sighting} {survey : Survey} {w : Window} {exportId : String}
      {done rest : List Move} {m : Move} {es₁ es₂ : List Event} : s.Plans now v survey w →
    survey.moves s.layout = done ++ m :: rest → Move.MadeAll s.bucket done es₁ →
    m.Breaks s.bucket es₂ e → es = v.events s.bucket s.keyPrefix ++
      ⟨.submit (s.request w), .ok exportId⟩ :: (es₁ ++ es₂) → Interrupted s now es e

/-- The failure is one that comes before any effect: of the survey, of the window, or of the
submission. -/
inductive Harmless (es : List Event) : Failure → Prop
  /-- No marker of a start has a manifest. -/
  | allMalformed (keyPrefix : String) (count : Nat) : Harmless es (.allMalformed keyPrefix count)
  /-- There is nothing to export. -/
  | emptyWindow (start stop : String) : Harmless es (.emptyWindow start stop)
  /-- The service does not accept the request. -/
  | submit (e : JobFailure) : Harmless es (.submit e)
  /-- The keys could not be listed or an object could not be read. -/
  | store {e : StoreFailure} {ev : Event} : ev ∈ es → ev.readFailure? = some e →
    Harmless es (.store e)

/-- An invocation that has only read has failed harmlessly. -/
theorem Stalls.harmless {f : Failure} (h : s.Stalls now es f) : Harmless es f := by
  rcases h with hfails | ⟨v, survey, -, -, ha⟩
  · cases hfails with
    | listing hlist => exact .store hlist rfl
    | reading _ _ hget => exact .store hget rfl
    | allMalformed => exact .allMalformed _ _
  · obtain ⟨start, stop, rfl⟩ := Survey.assess_error ha
    exact .emptyWindow start stop

/-- A change among look-ups of exports that a survey found has put a marker into quarantine. -/
theorem Settles.clears {v : Sighting} {survey : Survey} {done : List StartedMarker}
    {after : List Event} (h : s.Settles done es) (hv : v.survey? s.keyPrefix = .ok survey)
    (hdone : ∀ x ∈ done, x ∈ survey.running) {ev : Event} (hev : ev ∈ es)
    (hchange : ev.call.isChange = true) :
    s.Clears (v.events s.bucket s.keyPrefix ++ (es ++ after)) ev := by
  obtain ⟨x, hx, before, moving, rest, rfl, hmem, hmade⟩ := h.exists_move hev hchange
  have hstarted : x ∈ survey.started := List.mem_of_mem_filter (hdone x hx)
  obtain ⟨body, hread, hbody⟩ := exists_reading hv hstarted
  exact ⟨x, v.events s.bucket s.keyPrefix ++ before, moving, rest ++ after, by simp, hmem, hmade,
    v, body, List.prefix_append _ _, hread, hbody⟩

/-- Look-ups of the exports that a survey found fail in one of two ways: one of them is not answered
and all changes before it put markers into quarantine, or a move breaks off. -/
theorem failure_of_checkRuns {v : Sighting} {survey : Survey} {f : Failure}
    (hv : v.survey? s.keyPrefix = .ok survey)
    (h : Traces (s.checkRuns survey.running).run es (some (.error f))) :
    (∃ exportId e, f = .lookup exportId e ∧ ∀ ev ∈ es, ev.call.isChange = true →
      s.Clears (v.events s.bucket s.keyPrefix ++ es) ev) ∨
    ∃ e, f = .store e ∧ s.Interrupted now (v.events s.bucket s.keyPrefix ++ es) e := by
  obtain ⟨done, x, rest, es₁, es₂, hrunning, rfl, hdone, hx⟩ := exists_failed h
  rcases hx.failed_or_broken rfl with ⟨e, rfl, rfl⟩ | ⟨e, es₂, rfl, rfl, hbreaks⟩
  · refine .inl ⟨_, e, rfl, fun ev hev hchange => ?_⟩
    have hfound : ∀ y ∈ done, y ∈ survey.running := fun y hy =>
      hrunning ▸ List.mem_append_left _ hy
    -- The look-up that failed has changed nothing.
    rcases List.mem_append.1 hev with hev | hlast
    · exact hdone.clears hv hfound hev hchange
    · rw [List.mem_singleton.1 hlast] at hchange
      cases hchange
  · exact .inr ⟨e, rfl, .quarantine hv hrunning hdone hbreaks (List.append_assoc ..).symm⟩

/-- How far an invocation that fails has come: it has changed nothing, it could not look up an
export, or a move has broken off. -/
theorem Unfolds.failure {r : Option (Except Failure Outcome)} (h : s.Unfolds now es r) {f : Failure}
    (hr : r = some (.error f)) :
    (Harmless es f ∧ ∀ ev ∈ es, ev.call.isChange = false) ∨
    (∃ exportId e, f = .lookup exportId e ∧ (∀ ev ∈ es, ev.call.isSubmission = false) ∧
      ∀ ev ∈ es, ev.call.isChange = true → s.Clears es ev) ∨
    ∃ e, f = .store e ∧ (∀ ev ∈ es, ev.readFailure? = none) ∧ s.Interrupted now es e := by
  have hseen (v : Sighting) : ∀ ev ∈ v.events s.bucket s.keyPrefix, ev.call.isChange = false :=
    fun ev hev => Call.isChange_of_isReading (Sighting.isReading_of_mem_events hev)
  cases h with
  | reading hread hstalls =>
    obtain ⟨f', hf, hstalls⟩ := hstalls _ hr
    obtain rfl := Except.error.inj hf
    exact .inl ⟨hstalls.harmless, fun ev hev => Call.isChange_of_isReading (hread ev hev)⟩
  | @lookingUp v survey es r hv _ hchecks =>
    obtain ⟨r', rfl, hr'⟩ := Option.map_eq_some_iff.1 hr
    rcases r' with f' | checks <;> cases hr'
    have honly := lookUps_only hchecks
    rcases failure_of_checkRuns hv hchecks with ⟨exportId, e, rfl, hclears⟩ | ⟨e, rfl, hbroken⟩
    · refine .inr (.inl ⟨exportId, e, rfl, fun ev hev => ?_, fun ev hev hchange => ?_⟩)
      · rcases List.mem_append.1 hev with hev | hev
        · exact (Call.reads_only (Sighting.isReading_of_mem_events hev)).1
        · exact (honly ev hev).2
      · rcases List.mem_append.1 hev with hev | hev
        · exact absurd hchange (by simp [hseen v ev hev])
        · exact hclears ev hev hchange
    · refine .inr (.inr ⟨e, rfl, fun ev hev => ?_, hbroken⟩)
      rcases List.mem_append.1 hev with hev | hev
      · exact Sighting.readFailure?_of_mem_events hev
      · exact Event.readFailure?_of_isReading (honly ev hev).1
  | stopped => cases hr
  | refused e =>
    obtain rfl := Except.error.inj (Option.some.inj hr)
    refine .inl ⟨.submit e, fun ev hev => ?_⟩
    rcases List.mem_append.1 hev with hev | hev
    · exact hseen _ ev hev
    · rw [List.mem_singleton.1 hev]
      rfl
  | @accepted v survey w es r exportId hplans hmoves =>
    obtain ⟨moved, rfl, hr'⟩ := Option.map_eq_some_iff.1 hr
    rcases moved with e | _ <;> cases hr'
    obtain ⟨hmakes, -, hbroken⟩ := Move.traces_relocateAll hmoves
    obtain ⟨done, m, rest, es₁, es₂, hplan, rfl, hdone, hbreaks⟩ := hbroken e rfl
    refine .inr (.inr ⟨e, rfl, fun ev hev => ?_, .archive hplans hplan hdone hbreaks rfl⟩)
    rcases List.mem_append.1 hev with hev | hev
    · exact Sighting.readFailure?_of_mem_events hev
    · rcases List.mem_cons.1 hev with rfl | hev
      · rfl
      · obtain ⟨m', -, hcall⟩ := hmakes ev hev
        exact Event.readFailure?_of_isReading hcall.isReading

/-- However the store and the service answer, and with a limit or without one, an invocation that
fails before its effects has none. If its survey or its submission fails or its window would be
empty, it has changed nothing. If it cannot look up an export, it has submitted nothing, and all
that it has changed belongs to moves of markers into quarantine whose exports the service did not
know. And if the store fails otherwise, the moves before the one that broke off have been made, and
none behind it has been begun. -/
theorem failure_effects {σ : Type} (s : Settings) (now : Instant) (respond : Responder σ)
    (cost : Call → Nat) (limit : Option Nat) (w : σ) {f : Failure}
    (h : ((s.invoke now).run.runWithin respond cost limit w).result = some (.error f)) :
    let events := (s.invoke now).run.eventsFrom respond cost limit w 0
    (Harmless events f → ∀ ev ∈ events, ev.call.isChange = false) ∧
    (∀ exportId e, f = .lookup exportId e → (∀ ev ∈ events, ev.call.isSubmission = false) ∧
      ∀ ev ∈ events, ev.call.isChange = true → s.Clears events ev) ∧
    ∀ e, f = .store e → (∀ ev ∈ events, ev.readFailure? ≠ some e) → s.Interrupted now events e := by
  intro events
  have htrace := Program.traces_eventsFrom respond cost limit (s.invoke now).run w 0
  rcases (unfolds_of_traces htrace).failure h with
    ⟨hharmless, hnone⟩ | ⟨exportId, e, rfl, hnone, hclears⟩ | ⟨e, rfl, hreads, hinterrupted⟩
  · refine ⟨fun _ => hnone, fun exportId e hf => ?_, fun e hf hreads => ?_⟩
    · subst hf
      cases hharmless
    · subst hf
      cases hharmless with
      | store hev hfails => exact absurd hfails (hreads _ hev)
  · exact ⟨nofun, fun _ _ _ => ⟨hnone, hclears⟩, nofun⟩
  · refine ⟨fun hharmless => ?_, nofun, fun e' hf _ => Failure.store.inj hf ▸ hinterrupted⟩
    cases hharmless with
    | store hev hfails => exact absurd hfails (by simp [hreads _ hev])

/-- Two exports that have started. -/
def twoStarts : Store := .holding "b"
  [("p/a.started.manifest", Manifest.sampleText "x" "2023-01-01T00:00:00Z"),
    ("p/b.started.manifest", Manifest.sampleText "y" "2023-01-01T05:00:00Z")]

/-- An invocation whose submission fails has changed nothing; one that cannot look up the second of
two exports has moved the marker of the first; and one that cannot copy the marker of a start has
moved the marker of its completion. -/
theorem three_failures : let s := Settings.sample "p/" "p/"
    let refused : Turn JobTable :=
      { Turn.sample 0 .none with jobs := JobTable.empty.failSubmit (.request "down") }
    let unanswered : Turn JobTable :=
      { Turn.sample 0 .none with jobs := JobTable.empty.failLookup "y" (.request "down") }
    let broken := Turn.sample 0 ⟨[(.copy, sampleStart)], []⟩
    ((refused.course s Turn.completedPair).result = some (.error (.submit (.request "down"))) ∧
      ∀ ev ∈ refused.events s Turn.completedPair, ev.call.isChange = false) ∧
    ((unanswered.course s twoStarts).result = some (.error (.lookup "y" (.request "down"))) ∧
      (∀ ev ∈ unanswered.events s twoStarts, ev.call.isSubmission = false) ∧
      ∀ ev ∈ unanswered.events s twoStarts, ev.call.isChange = true →
        s.Clears (unanswered.events s twoStarts) ev) ∧
    ∃ e, (broken.course s Turn.completedPair).result = some (.error (.store e)) ∧
      s.Interrupted broken.now (broken.events s Turn.completedPair) e := by
  intro s refused unanswered broken
  have hrefused : (refused.course s Turn.completedPair).result =
      some (.error (.submit (.request "down"))) := by
    unfold Turn.course Settings.invoke Survey.take
    rw [Survey.ofReadings_eq_inOrder]
    decide +kernel
  have hunanswered : (unanswered.course s twoStarts).result =
      some (.error (.lookup "y" (.request "down"))) := by
    unfold Turn.course Settings.invoke Survey.take
    rw [Survey.ofReadings_eq_inOrder]
    decide +kernel
  have hbroken : (broken.course s Turn.completedPair).result =
        some (.error (.store (.request .copy "b" sampleStart "injected failure"))) ∧
      (broken.events s Turn.completedPair).all (·.readFailure? = none) = true := by
    unfold Turn.course Turn.events Settings.invoke Survey.take
    rw [Survey.ofReadings_eq_inOrder]
    decide +kernel
  have hreads : ∀ ev ∈ broken.events s Turn.completedPair, ev.readFailure? = none := by
    simpa using hbroken.2
  exact ⟨⟨hrefused, (failure_effects s _ _ _ _ _ hrefused).1 (.submit _)⟩,
    ⟨hunanswered, (failure_effects s _ _ _ _ _ hunanswered).2.1 _ _ rfl⟩,
    _, hbroken.1, (failure_effects s _ _ _ _ _ hbroken.1).2.2 _ rfl fun ev hev => by
      simp [hreads ev hev]⟩

end Settings

end LedgerExport
