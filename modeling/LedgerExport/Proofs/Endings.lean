import LedgerExport.Proofs.Archiving
import LedgerExport.Proofs.LookUps

/-!
# Endings

How a turn ends when neither the store nor the service fails. It ends in one of the ways that
`Settings.Ends` lists, with one exception: after its window has been accepted, it can fail to find a
marker of completion that it has moved itself. A plan moves such a marker once for each start of its
group, so when the windows of two starts end in different hours, the marker is gone when it is to be
moved for the second one (`Settings.Strands`). `ends_iff` says that this is the only exception.
-/

namespace LedgerExport

open Time World

/-- The service has failed to answer. -/
def Event.isServiceFailure : Event → Bool
  | ⟨.describe .., answer⟩ =>
    match (answer : Except JobFailure Lookup) with
    | .ok _ => false
    | .error _ => true
  | ⟨.submit _, answer⟩ =>
    match (answer : Except JobFailure String) with
    | .ok _ => false
    | .error _ => true
  | _ => false

/-- A key goes to the same place in the archive when the hours have the same folder. -/
theorem Layout.archiveKey_eq_iff {l : Layout} {key : String} {stop stop' : Instant} :
    l.archiveKey key stop = l.archiveKey key stop' ↔ l.partition stop = l.partition stop' := by
  simp [archiveKey]

/-! ## Stranded markers -/

namespace Survey

variable {survey : Survey} {layout : Layout} {x : StartedMarker} {c : Marker}

/-- A marker of completion is first moved for the first start of its group. -/
theorem find?_moves (hc : c ∈ survey.completed)
    (hkeys : ∀ c' ∈ survey.completed, c'.key = c.key → c' = c)
    (hstarts : ∀ z ∈ survey.started, z.key ≠ c.key)
    (hx : survey.started.find? (·.group = c.group) = some x) :
    (survey.moves layout).find? (·.source = c.key) =
      some ⟨c.key, layout.archiveKey c.key x.stop⟩ := by
  obtain ⟨hgroup, before, after, hstarted, hbefore⟩ := List.find?_eq_some_iff_append.1 hx
  have hgroup : x.group = c.group := by simpa using hgroup
  -- The starts before it have no moves of the marker.
  have hnone : (before.flatMap (survey.movesOf layout)).find? (·.source = c.key) = none := by
    refine List.find?_eq_none.2 fun move hmove => ?_
    obtain ⟨z, hz, hmove⟩ := List.mem_flatMap.1 hmove
    rw [decide_eq_true_eq]
    intro hsource
    rcases List.mem_append.1 hmove with hmove | hmove
    · obtain ⟨c', hc', rfl⟩ := List.mem_map.1 hmove
      obtain ⟨hc', hgroup'⟩ := List.mem_filter.1 hc'
      obtain rfl := hkeys c' hc' hsource
      have hnot := hbefore z hz
      simp [of_decide_eq_true hgroup'] at hnot
    · obtain rfl := List.mem_singleton.1 hmove
      exact hstarts z (hstarted ▸ List.mem_append_left _ hz) hsource
  have hfound : (survey.completedOf x.group).find? (·.key = c.key) = some c := by
    have hmem : c ∈ survey.completedOf x.group := List.mem_filter.2 ⟨hc, by simp [hgroup]⟩
    have hsome : ((survey.completedOf x.group).find? (·.key = c.key)).isSome :=
      List.find?_isSome.2 ⟨c, hmem, decide_eq_true rfl⟩
    obtain ⟨c', hc'⟩ := Option.isSome_iff_exists.1 hsome
    have hkey : c'.key = c.key := by simpa using List.find?_some hc'
    have hcompleted := List.mem_of_mem_filter (List.mem_of_find?_eq_some hc')
    rwa [hkeys c' hcompleted hkey] at hc'
  rw [moves, hstarted, List.flatMap_append, List.find?_append, hnone, List.flatMap_cons,
    List.find?_append, movesOf, List.find?_append, List.find?_map]
  simp only [Function.comp_def, hfound]
  rfl

/-- The first start of a group, by key, is the one that the survey names first. -/
theorem find?_started (hsorted : survey.started.Pairwise fun a b => a.key ≤ b.key)
    {group : String} (hx : survey.started.find? (·.group = group) = some x) :
    ∀ z ∈ survey.started, z.group = group → x.key ≤ z.key := by
  intro z hz hgroup
  obtain ⟨-, before, after, hstarted, hbefore⟩ := List.find?_eq_some_iff_append.1 hx
  rw [hstarted] at hz hsorted
  rcases List.mem_append.1 hz with hz | hz
  · have hnot := hbefore z hz
    simp [hgroup] at hnot
  rcases List.mem_cons.1 hz with rfl | hz
  · exact String.le_refl _
  · exact (List.pairwise_cons.1 (List.pairwise_append.1 hsorted).2.1).1 z hz

end Survey

/-- A marker of completion is moved for two starts of its group, and when its turn comes for the
second one, it is gone and nothing is at its place. -/
structure Settings.Strands (s : Settings) (m : Store) (x y : StartedMarker) (c : Marker) :
    Prop where
  /-- There is a start. -/
  start : s.Starts m x
  /-- It is the first one of its group, by key. -/
  first : ∀ z, s.Starts m z → z.group = x.group → x.key ≤ z.key
  /-- The marker completes it. -/
  completes : s.Completes m x.group c
  /-- There is another start of the group. -/
  other : s.Starts m y
  /-- It belongs to the group. -/
  group_eq : y.group = x.group
  /-- The windows of the two end in different hours. -/
  apart : s.layout.partition x.stop ≠ s.layout.partition y.stop
  /-- Nothing is where the marker goes for the second start. -/
  free : m.find? s.bucket (s.layout.archiveKey c.key y.stop) = none

namespace Sighting.Reports

variable {s : Settings} {v : Sighting} {m : Store} {survey : Survey} {move : Move}
  (h : v.Reports (fun _ => True) s m) (hv : v.survey? s.keyPrefix = .ok survey)

include h hv

/-- A marker of completion is first moved for the first start of its group. -/
theorem find?_moves {x : StartedMarker} {c : Marker} (hc : s.Completes m c.group c)
    (hx : survey.started.find? (·.group = c.group) = some x) :
    (survey.moves s.layout).find? (·.source = c.key) =
      some ⟨c.key, s.layout.archiveKey c.key x.stop⟩ := by
  refine Survey.find?_moves ((h.mem_completed_iff hv).2 hc) (fun c' hc' hkey => ?_)
    (fun z hz hkey => ?_) hx
  · have hclass := ((h.mem_completed_iff hv).1 hc').classified
    exact Option.some.inj (by rw [← hclass, hkey, hc.classified])
  · exact ((h.mem_started_iff hv).1 hz).key_ne hc hkey

/-- There is a first start of the group of any start. -/
theorem exists_first {y : StartedMarker} (hy : s.Starts m y) :
    ∃ x, survey.started.find? (·.group = y.group) = some x ∧ s.Starts m x ∧ x.group = y.group ∧
      ∀ z, s.Starts m z → z.group = y.group → x.key ≤ z.key := by
  have hsome : (survey.started.find? (·.group = y.group)).isSome :=
    List.find?_isSome.2 ⟨y, (h.mem_started_iff hv).2 hy, decide_eq_true rfl⟩
  obtain ⟨x, hx⟩ := Option.isSome_iff_exists.1 hsome
  refine ⟨x, hx, (h.mem_started_iff hv).1 (List.mem_of_find?_eq_some hx),
    by simpa using List.find?_some hx, fun z hz => ?_⟩
  exact Survey.find?_started (Survey.pairwise_ofReadings hv).1 hx z ((h.mem_started_iff hv).2 hz)

/-- A move of the plan that cannot be made is that of a stranded marker. -/
theorem strands_of_lost (hmove : move ∈ survey.moves s.layout)
    (hlost : move.Lost s.bucket m (survey.moves s.layout)) :
    ∃ x y c, s.Strands m x y c ∧ move.source = c.key := by
  obtain ⟨hfree, hlost⟩ := hlost
  obtain ⟨first, hfirst, hne⟩ := hlost.resolve_left fun hgone => by
    simpa [hgone] using h.isSome_source hv move hmove
  obtain ⟨c, stop, hends, rfl⟩ := (h.mem_moves_iff hv).1 hmove
  obtain ⟨y, hy, rfl, rfl | hcompletes⟩ := hends
  · -- The marker of a start is moved to one place only.
    refine absurd ?_ hne
    have hsource : first.source = y.marker.key := by simpa using List.find?_some hfirst
    obtain ⟨c, stop, ⟨z, hz, rfl, rfl | hcompletes⟩, rfl⟩ :=
      (h.mem_moves_iff hv).1 (List.mem_of_find?_eq_some hfirst)
    · rw [hz.eq_of_key hy hsource]
    · exact absurd hsource.symm (hy.key_ne hcompletes)
  · obtain ⟨x, hx, hstarts, hgroup, hleast⟩ := h.exists_first hv hy
    have hgroup_eq := hcompletes.group_eq
    rw [← hgroup_eq] at hx
    have hsame := h.find?_moves hv (hgroup_eq ▸ hcompletes) hx
    rw [show (⟨c.key, _⟩ : Move).source = c.key from rfl] at hfirst
    obtain rfl := Option.some.inj (hfirst.symm.trans hsame)
    refine ⟨x, y, c, ⟨hstarts, fun z hz hz' => hleast z hz (hz'.trans hgroup), hgroup ▸ hcompletes,
      hy, hgroup.symm, fun heq => hne ?_, hfree⟩, rfl⟩
    exact Layout.archiveKey_eq_iff.2 heq

/-- A stranded marker has a move in the plan that cannot be made. -/
theorem lost_of_strands {x y : StartedMarker} {c : Marker} (hstrands : s.Strands m x y c) :
    ∃ move ∈ survey.moves s.layout, move.Lost s.bucket m (survey.moves s.layout) := by
  have hcompletes := hstrands.completes
  have hgroup_eq := hcompletes.group_eq
  refine ⟨⟨c.key, s.layout.archiveKey c.key y.stop⟩, (h.mem_moves_iff hv).2 ⟨c, y.stop,
    ⟨y, hstrands.other, rfl, .inr (hstrands.group_eq ▸ hcompletes)⟩, rfl⟩, hstrands.free, .inr ?_⟩
  obtain ⟨x', hx', hstarts, hgroup, hleast⟩ := h.exists_first hv hstrands.start
  -- There is only one first start.
  obtain rfl : x' = x := hstarts.eq_of_key hstrands.start
    (String.le_antisymm (hleast x hstrands.start rfl) (hstrands.first x' hstarts hgroup))
  rw [← hgroup_eq] at hx'
  refine ⟨_, h.find?_moves hv (hgroup_eq ▸ hcompletes) hx', fun heq => hstrands.apart ?_⟩
  exact Layout.archiveKey_eq_iff.1 heq

end Sighting.Reports

/-! ## Reading and looking up -/

namespace Settings

/-- The ways in which an invocation ends when neither the store nor the service fails. -/
inductive Ends (s : Settings) : Except Failure Outcome → Prop
  /-- Some exports had not completed. -/
  | inProgress (runs : List RunCheck) : Ends s (.ok (.inProgress runs))
  /-- The next window was submitted, and the markers were moved. -/
  | submitted (exportId : String) (window : Window) (archived : Nat) :
    Ends s (.ok (.submitted exportId window archived))
  /-- No marker of a start has a manifest, and there are some. -/
  | allMalformed (count : Nat) : Ends s (.error (.allMalformed s.keyPrefix count))
  /-- There was nothing to export. -/
  | emptyWindow (start stop : String) : Ends s (.error (.emptyWindow start stop))

variable {s : Settings} {m m' : Store} {es : List Event}

/-- Without faults a store lets an invocation read all that it asks for. -/
theorem Stalls.ends {now : Instant} {f : Failure} (h : s.Stalls now es f)
    (hpasses : m.Passes Eq es m') (hread : ∀ e ∈ es, e.call.isReading = true)
    (hfaults : m.faults = .none) : s.Ends (.error f) := by
  rcases h with hfails | ⟨v, survey, -, -, ha⟩
  · obtain ⟨v, -, hv⟩ := survey?_of_fails hfails hpasses hread hfaults
    obtain ⟨count, rfl⟩ := Sighting.survey?_error hv
    exact .allMalformed count
  · obtain ⟨start, stop, rfl⟩ := Survey.assess_error ha
    exact .emptyWindow start stop

/-- Without failures an invocation that is not cut short ends in one of the ways unless a window is
accepted. -/
theorem Unfolds.ends {now : Instant} {result : Option (Except Failure Outcome)}
    {r : Except Failure Outcome} (h : s.Unfolds now es result) (hr : result = some r)
    (hpasses : m.Passes Eq es m') (hfaults : m.faults = .none)
    (hservice : ∀ e ∈ es, e.isServiceFailure = false)
    (hnone : ∀ request exportId, (⟨.submit request, .ok exportId⟩ : Event) ∉ es) : s.Ends r := by
  cases h with
  | reading hread hstalls =>
    obtain ⟨f, rfl, hstalls⟩ := hstalls r hr
    exact hstalls.ends hpasses hread hfaults
  | @lookingUp v survey es _ hv _ hchecks =>
    obtain ⟨r', rfl, rfl⟩ := Option.map_eq_some_iff.1 hr
    obtain ⟨m₁, hsight, hpasses₁⟩ := Store.passes_append.1 hpasses
    obtain ⟨hreports, -⟩ := Sighting.reports_of_passes (P := fun _ => True) Turn.agree_of_eq hsight
    obtain rfl := hsight.eq_of_isChange fun e he =>
      Call.isChange_of_isReading (Sighting.isReading_of_mem_events he)
    have hstarts : ∀ x ∈ survey.running, s.Starts m₁ x := fun x hx =>
      (hreports.mem_started_iff hv).1 (List.mem_of_mem_filter hx)
    obtain ⟨answered, -, ⟨-, -, rfl⟩ | ⟨x, rest, e, -, rfl, -⟩⟩ := checkRuns_found hchecks hpasses₁
      hfaults (Survey.nodup_keys ((Sighting.sorted_survey hsight hv).started.filter _))
      fun x hx => Settings.EndsAt.has ⟨x, hstarts x hx, rfl, .inl rfl⟩
    · exact .inProgress _
    · -- A look-up that fails is a failure of the service.
      have hfails : (⟨.describe s.ledger x.manifest.exportId, .error e⟩ : Event) ∈
          v.events s.bucket s.keyPrefix ++ (answered.flatMap s.lookUp ++
            [⟨.describe s.ledger x.manifest.exportId, .error e⟩]) := by
        simp
      cases hservice _ hfails
  | stopped => cases hr
  | refused e => cases hservice _ (List.mem_append_right _ (List.mem_singleton_self _))
  | accepted exportId =>
    exact absurd (List.mem_append_right _ List.mem_cons_self) (hnone _ exportId)

end Settings

/-! ## Turns -/

namespace Turn

variable {τ : Type} {s : Settings} {t : Turn τ} {m : Store} {request : ExportRequest}
  {exportId : String} {r : Except Failure Outcome}

/-- Without faults a turn in which the next window is accepted moves all markers, or it does not
find a stranded one. -/
theorem archived_or_stranded (hroot : s.archiveRoot = s.keyPrefix) (hfaults : t.faults = .none)
    (hr : (t.course s m).result = some r)
    (haccepted : (⟨.submit request, .ok exportId⟩ : Event) ∈ t.events s m) :
    ((¬∃ x y c, s.Strands m x y c) ∧
      (∃ archived, r = .ok (.submitted exportId request.window archived)) ∧
      ∀ x stop, s.EndsAt m x stop → (t.after s m).find? s.bucket x.key = none ∧
        ((t.after s m).find? s.bucket (s.layout.archiveKey x.key stop)).isSome) ∨
    ∃ x y c, s.Strands m x y c ∧ r = .error (.store (.notFound s.bucket c.key)) := by
  obtain ⟨v, survey, es, r', hes, hplans, hmoves, hresult⟩ := exists_plan haccepted
  have hreports := reports hes
  have hv := hplans.taken
  obtain ⟨moved, rfl, rfl⟩ := Option.map_eq_some_iff.1 (hresult.symm.trans hr)
  rcases Move.relocateAll_cases hmoves (passes_moves hes) hfaults
    (hreports.destination_ne_source hv (Settings.apart_of_root hroot))
    (hreports.source_eq_of_destination hv) with ⟨rfl, hall⟩ | ⟨move, hmove, hlost, rfl⟩
  · refine .inl ⟨fun ⟨x, y, c, hstrands⟩ => ?_, ⟨_, rfl⟩, fun x stop hends => ?_⟩
    · obtain ⟨move, hmove, hlost⟩ := hreports.lost_of_strands hv hstrands
      exact (hall move hmove).1 hlost
    · exact (hall _ ((hreports.mem_moves_iff hv).2 ⟨x, stop, hends, rfl⟩)).2
  · obtain ⟨x, y, c, hstrands, hsource⟩ := hreports.strands_of_lost hv hmove hlost
    exact .inr ⟨x, y, c, hstrands, by rw [hsource]; rfl⟩

/-- Without failures and without a limit, a turn ends in one of the ways just when no window was
accepted or no marker is stranded. If it does not, it has not found a stranded marker; if it does
and a window was accepted, all markers have been moved. -/
theorem ends_iff (hroot : s.archiveRoot = s.keyPrefix) (hfaults : t.faults = .none)
    (hlimit : t.limit = none) (hservice : ∀ e ∈ t.events s m, e.isServiceFailure = false) :
    ∃ r, (t.course s m).result = some r ∧
      (s.Ends r ↔ ¬((∃ request exportId,
        (⟨.submit request, .ok exportId⟩ : Event) ∈ t.events s m) ∧ ∃ x y c, s.Strands m x y c)) ∧
      (¬s.Ends r →
        ∃ x y c, s.Strands m x y c ∧ r = .error (.store (.notFound s.bucket c.key))) ∧
      ∀ request exportId, (⟨.submit request, .ok exportId⟩ : Event) ∈ t.events s m → s.Ends r →
        (∃ archived, r = .ok (.submitted exportId request.window archived)) ∧
        ∀ x stop, s.EndsAt m x stop → (t.after s m).find? s.bucket x.key = none ∧
          ((t.after s m).find? s.bucket (s.layout.archiveKey x.key stop)).isSome := by
  obtain ⟨r, hr⟩ := Option.isSome_iff_exists.1 (isSome_result (s := s) (m := m) hlimit)
  refine ⟨r, hr, ?_⟩
  by_cases haccepted : ∃ request exportId,
      (⟨.submit request, .ok exportId⟩ : Event) ∈ t.events s m
  · obtain ⟨request, exportId, hmem⟩ := haccepted
    rcases archived_or_stranded hroot hfaults hr hmem with
      ⟨hnone, ⟨archived, rfl⟩, -⟩ | ⟨x, y, c, hstrands, rfl⟩
    · have hends : s.Ends (.ok (.submitted exportId request.window archived)) := .submitted ..
      refine ⟨iff_of_true hends fun h => hnone h.2, fun hnot => absurd hends hnot,
        fun request exportId hmem _ => ?_⟩
      refine ((archived_or_stranded hroot hfaults hr hmem).resolve_right ?_).2
      exact fun ⟨x, y, c, hstrands, _⟩ => hnone ⟨x, y, c, hstrands⟩
    · have hnot : ¬s.Ends (.error (.store (.notFound s.bucket c.key))) := nofun
      exact ⟨iff_of_false hnot fun h => h ⟨⟨request, exportId, hmem⟩, x, y, c, hstrands⟩,
        fun _ => ⟨x, y, c, hstrands, rfl⟩, fun _ _ _ hends => absurd hends hnot⟩
  · have hends : s.Ends r := (t.unfolds s m).ends hr (t.passes s m) hfaults hservice
      fun request exportId hmem => haccepted ⟨request, exportId, hmem⟩
    refine ⟨iff_of_true hends fun h => haccepted h.1, fun hnot => absurd hends hnot,
      fun request exportId hmem => absurd ⟨request, exportId, hmem⟩ haccepted⟩

/-- A store with two starts of one group, whose windows end at these instants, and a marker of their
completion. -/
def sharedGroup (stop stop' : String) : Store := .holding "b"
  [("p/a..started.manifest", Manifest.sampleText "x" stop),
    ("p/a.started.manifest", Manifest.sampleText "y" stop'), ("p/a.completed.manifest", "")]

/-- When the two windows end in the same hour, all markers are moved. -/
theorem shared_group_archived : let s := Settings.sample "p/" "p/"
    let t := sample 0 .none
    let m := sharedGroup "2023-01-01T05:00:00Z" "2023-01-01T05:30:00Z"
    s.archiveRoot = s.keyPrefix ∧ t.faults = .none ∧ t.limit = none ∧
    (∀ e ∈ t.events s m, e.isServiceFailure = false) ∧
    (∃ request exportId, (⟨.submit request, .ok exportId⟩ : Event) ∈ t.events s m) ∧
    (¬∃ x y c, s.Strands m x y c) ∧ ∃ r, (t.course s m).result = some r ∧ s.Ends r ∧
    ∀ x stop, s.EndsAt m x stop → (t.after s m).find? s.bucket x.key = none ∧
      ((t.after s m).find? s.bucket (s.layout.archiveKey x.key stop)).isSome := by
  intro s t m
  have hevents : ((t.events s m).all (fun e => e.isServiceFailure = false) &&
      (t.events s m).any fun e => e.accepted?.isSome) = true := by
    unfold events Settings.invoke Survey.take
    rw [Survey.ofReadings_eq_inOrder]
    decide +kernel
  obtain ⟨hservice, hsome⟩ := (Bool.and_eq_true_iff).1 hevents
  have hservice : ∀ e ∈ t.events s m, e.isServiceFailure = false := by simpa using hservice
  obtain ⟨request, exportId, hmem⟩ := Event.exists_accepted hsome
  have hok : (t.course s m).result.all (fun r => r.isOk) = true := by
    unfold course Settings.invoke Survey.take
    rw [Survey.ofReadings_eq_inOrder]
    decide +kernel
  obtain ⟨r, hr, hiff, hnot, hmoved⟩ := ends_iff rfl rfl rfl hservice
  have hends : s.Ends r := by
    by_contra hends
    obtain ⟨_, _, _, -, rfl⟩ := hnot hends
    rw [hr] at hok
    cases hok
  exact ⟨rfl, rfl, rfl, hservice, ⟨request, exportId, hmem⟩,
    fun hstrands => hiff.1 hends ⟨⟨request, exportId, hmem⟩, hstrands⟩, r, hr, hends,
    (hmoved request exportId hmem hends).2⟩

/-- When they do not, the marker of completion is not found for the second start. -/
theorem shared_group_stranded : let s := Settings.sample "p/" "p/"
    let t := sample 0 .none
    let m := sharedGroup "2023-01-01T00:00:00Z" "2023-01-01T05:00:00Z"
    s.archiveRoot = s.keyPrefix ∧ t.faults = .none ∧ t.limit = none ∧
    (∀ e ∈ t.events s m, e.isServiceFailure = false) ∧
    (∃ request exportId, (⟨.submit request, .ok exportId⟩ : Event) ∈ t.events s m) ∧
    (t.course s m).result = some (.error (.store (.notFound "b" "p/a.completed.manifest"))) := by
  intro s t m
  have hevents : ((t.events s m).all (fun e => e.isServiceFailure = false) &&
      (t.events s m).any fun e => e.accepted?.isSome) = true := by
    unfold events Settings.invoke Survey.take
    rw [Survey.ofReadings_eq_inOrder]
    decide +kernel
  obtain ⟨hservice, hsome⟩ := (Bool.and_eq_true_iff).1 hevents
  have hresult : (t.course s m).result =
      some (.error (.store (.notFound "b" "p/a.completed.manifest"))) := by
    unfold course Settings.invoke Survey.take
    rw [Survey.ofReadings_eq_inOrder]
    decide +kernel
  exact ⟨rfl, rfl, rfl, by simpa using hservice, Event.exists_accepted hsome, hresult⟩

end Turn

end LedgerExport
