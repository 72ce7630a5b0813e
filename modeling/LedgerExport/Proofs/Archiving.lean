import Mathlib.Data.List.Perm.Basic
import LedgerExport.Proofs.Acceptances
import LedgerExport.Proofs.FaultFree
import LedgerExport.Proofs.Turns

/-!
# Archiving

What becomes of the markers of completed exports in a turn without faults in which the next window
is accepted. When no two starts share a group, no marker is moved twice (`nodup_sources`), and
`archiving_complete` says where each marker lies afterwards, in which order the markers have been
deleted, and that all else is as it was.
-/

namespace LedgerExport

open Time World

/-! ## The plan -/

namespace Survey

variable {survey : Survey} {layout : Layout}

/-- The markers of completion of the groups of all starts, in the order of the starts. -/
def completions (survey : Survey) : List Marker :=
  survey.started.flatMap fun x => survey.completedOf x.group

/-- A marker of completion counts when there is a start of its group. -/
theorem mem_completions {c : Marker} :
    c ∈ survey.completions ↔ ∃ x ∈ survey.started, c ∈ survey.completed ∧ c.group = x.group := by
  simp [completions, completedOf]

/-- The plan moves the markers of completion and those of the starts. -/
theorem sources_perm (survey : Survey) (layout : Layout) :
    ((survey.moves layout).map (·.source)).Perm
      (survey.completions.map (·.key) ++ survey.started.map (·.key)) := by
  have hsources : (survey.moves layout).map (·.source) = survey.started.flatMap fun x =>
      (survey.completedOf x.group).map (·.key) ++ [x.key] := by
    simp [moves, movesOf, List.map_flatMap, Function.comp_def]
  have hstarted : survey.started.map (·.key) = survey.started.flatMap fun x => [x.key] :=
    List.map_eq_flatMap
  rw [hsources, completions, List.map_flatMap, hstarted]
  exact (List.flatMap_append_perm _ _ _).symm

/-- The plan has a move for each marker of completion and one for each start. -/
theorem length_moves :
    (survey.moves layout).length = survey.started.length + survey.completions.length := by
  have hlength := (sources_perm survey layout).length_eq
  rw [List.length_append, List.length_map, List.length_map, List.length_map] at hlength
  omega

/-- The markers of completion of a start are moved before the start. -/
theorem moves_eq_append (layout : Layout) {x : StartedMarker} (hx : x ∈ survey.started) :
    ∃ l l', (survey.moves layout).map (·.source) = l ++ x.key :: l' ∧
      ∀ c ∈ survey.completedOf x.group, c.key ∈ l := by
  obtain ⟨before, after, hstarted⟩ := List.append_of_mem hx
  refine ⟨(before.flatMap (survey.movesOf layout)).map (·.source) ++
      (survey.completedOf x.group).map (·.key),
    (after.flatMap (survey.movesOf layout)).map (·.source), ?_, fun c hc => ?_⟩
  · rw [moves, hstarted]
    simp [movesOf, Function.comp_def]
  · exact List.mem_append_right _ (List.mem_map_of_mem hc)

end Survey

/-! ## The markers of the store -/

namespace Sighting.Reports

variable {s : Settings} {v : Sighting} {m : Store} {survey : Survey}
  (h : v.Reports (fun _ => True) s m) (hv : v.survey? s.keyPrefix = .ok survey)

include h hv

/-- A marker of completion counts when the store has a start of its group. -/
theorem mem_completions_iff {c : Marker} : c ∈ survey.completions ↔
    ∃ x, s.Starts m x ∧ s.Completes m x.group c := by
  rw [Survey.mem_completions]
  constructor
  · rintro ⟨x, hx, hc, hgroup⟩
    exact ⟨x, (h.mem_started_iff hv).1 hx, hgroup ▸ (h.mem_completed_iff hv).1 hc⟩
  · rintro ⟨x, hx, hc⟩
    have hgroup := hc.group_eq
    exact ⟨x, (h.mem_started_iff hv).2 hx, (h.mem_completed_iff hv).2 (hgroup ▸ hc), hgroup⟩

/-- If no two starts share a group, no marker of completion counts twice. -/
theorem nodup_completions (hcompleted : survey.completed.Nodup) (hstarted : survey.started.Nodup)
    (hgroups : ∀ x y, s.Starts m x → s.Starts m y → x.group = y.group → x = y) :
    survey.completions.Nodup := by
  refine List.nodup_flatMap.2 ⟨fun x _ => hcompleted.filter _, ?_⟩
  refine List.Pairwise.imp_of_mem (fun {x y} hx hy hne c hc hc' => hne ?_) hstarted
  -- A marker that completes two starts has the group of both.
  have hgroup : c.group = x.group := by simpa using (List.mem_filter.1 hc).2
  have hgroup' : c.group = y.group := by simpa using (List.mem_filter.1 hc').2
  exact hgroups x y ((h.mem_started_iff hv).1 hx) ((h.mem_started_iff hv).1 hy)
    (hgroup.symm.trans hgroup')

/-- If no two starts share a group, no object is moved twice. -/
theorem nodup_sources (hcompleted : survey.completed.Nodup) (hstarted : survey.started.Nodup)
    (hgroups : ∀ x y, s.Starts m x → s.Starts m y → x.group = y.group → x = y) :
    ((survey.moves s.layout).map (·.source)).Nodup := by
  have hcompletions := h.nodup_completions hv hcompleted hstarted hgroups
  refine (Survey.sources_perm survey s.layout).nodup_iff.2 (List.nodup_append.2 ⟨?_, ?_, ?_⟩)
  · refine hcompletions.map_on fun c hc c' hc' hkey => ?_
    obtain ⟨_, _, hcompletes⟩ := (h.mem_completions_iff hv).1 hc
    obtain ⟨_, _, hcompletes'⟩ := (h.mem_completions_iff hv).1 hc'
    exact Option.some.inj (by rw [← hcompletes.classified, hkey, hcompletes'.classified])
  · exact hstarted.map_on fun x hx y hy hkey =>
      ((h.mem_started_iff hv).1 hx).eq_of_key ((h.mem_started_iff hv).1 hy) hkey
  · -- A marker of completion is none of a start.
    intro key hkey key' hkey' heq
    obtain ⟨c, hc, rfl⟩ := List.mem_map.1 hkey
    obtain ⟨x, hx, rfl⟩ := List.mem_map.1 hkey'
    obtain ⟨_, _, hcompletes⟩ := (h.mem_completions_iff hv).1 hc
    exact ((h.mem_started_iff hv).1 hx).key_ne hcompletes heq.symm

end Sighting.Reports

/-! ## The order of the deletions -/

/-- When an object is deleted, those of all earlier moves have been deleted. -/
theorem Move.along_carried (bucket : String) (moves : List Move) :
    Along (fun before e => ∀ key, e.call = .delete bucket key → ∃ l x l', moves = l ++ x :: l' ∧
      x.source = key ∧ ∀ y ∈ l, (⟨.delete bucket y.source, .ok ()⟩ : Event) ∈ before)
      (moves.flatMap (carried bucket)) := by
  induction moves with
  | nil => exact along_of_forall (by simp)
  | cons x rest ih =>
    rw [List.flatMap_cons, along_append]
    constructor
    · refine along_of_forall fun e he before key hkey => ?_
      simp only [carried, verified, List.cons_append, List.nil_append, List.mem_cons,
        List.not_mem_nil, or_false] at he
      rcases he with rfl | rfl | rfl
      · cases hkey
      · cases hkey
      · exact ⟨[], x, rest, rfl, (Call.delete.inj hkey).2, by simp⟩
    · refine ih.imp fun before e he key hkey => ?_
      obtain ⟨l, y, l', rfl, hsource, hbefore⟩ := he key hkey
      refine ⟨x :: l, y, l', rfl, hsource, List.forall_mem_cons.2 ⟨?_, fun z hz => ?_⟩⟩
      · exact List.mem_append_left _ (List.mem_append_right _ (List.mem_singleton_self _))
      · exact List.mem_append_right _ (hbefore z hz)

/-! ## Turns in which a window is accepted -/

/-- A request that was accepted is the call of the event. -/
theorem Event.eq_of_accepted? {e : Event} {exportId : String} {w : Window}
    (h : e.accepted? = some (exportId, w)) :
    ∃ request, e = ⟨.submit request, .ok exportId⟩ ∧ request.window = w := by
  obtain ⟨c, answer⟩ := e
  cases c with
  | submit request =>
    rcases answer with e | exportId'
    · cases h
    · obtain ⟨rfl, rfl⟩ := Prod.ext_iff.1 (Option.some.inj h)
      exact ⟨request, rfl, rfl⟩
  | _ => cases h

/-- When a request was accepted, there is a call by which it was submitted. -/
theorem Event.exists_accepted {es : List Event}
    (h : es.any (fun e => e.accepted?.isSome) = true) :
    ∃ request exportId, (⟨.submit request, .ok exportId⟩ : Event) ∈ es := by
  obtain ⟨e, he, haccepted⟩ := List.any_eq_true.1 h
  obtain ⟨⟨exportId, w⟩, hw⟩ := Option.isSome_iff_exists.1 haccepted
  obtain ⟨request, rfl, -⟩ := Event.eq_of_accepted? hw
  exact ⟨request, exportId, he⟩

namespace Turn

variable {τ : Type} {s : Settings} {t : Turn τ} {m : Store} {request : ExportRequest}
  {exportId : String}

/-- A turn in which a request is accepted has planned its window, and then it makes the moves of its
plan. -/
theorem exists_plan (h : (⟨.submit request, .ok exportId⟩ : Event) ∈ t.events s m) :
    ∃ (v : Sighting) (survey : Survey) (es : List Event) (r : Option (Except StoreFailure Unit)),
      t.events s m =
        v.events s.bucket s.keyPrefix ++ ⟨.submit (s.request request.window), .ok exportId⟩ :: es ∧
      s.Plans t.now v survey request.window ∧
      Program.Traces (Move.relocateAll s.bucket (survey.moves s.layout)) es r ∧
      (t.course s m).result = r.map fun moved => (moved.mapError Failure.store).map fun _ =>
        .submitted exportId request.window (survey.moves s.layout).length := by
  have hmem : (exportId, request.window) ∈ (t.events s m).filterMap Event.accepted? :=
    List.mem_filterMap.2 ⟨_, h, rfl⟩
  rcases (t.unfolds s m).acceptance with ⟨hnone, -⟩ |
    ⟨v, survey, w, es, r, exportId', hes, haccepted, hplans, hmoves, hresult⟩
  · rw [hnone] at hmem
    cases hmem
  · rw [haccepted] at hmem
    obtain ⟨rfl, rfl⟩ := Prod.ext_iff.1 (List.mem_singleton.1 hmem)
    exact ⟨v, survey, es, r, hes, hplans, hmoves, hresult⟩

/-- What a turn has done in which a window was accepted: the markers of completed exports have been
archived, and nothing else. -/
structure Archives (s : Settings) (t : Turn τ) (m : Store) (exportId : String) (window : Window) :
    Prop where
  /-- The turn says how many markers it has moved: those of all starts with a manifest, and those of
  the completion of their groups. -/
  counted : ∃ (starts : List StartedMarker) (completions : List Marker),
    starts.Nodup ∧ (∀ x, x ∈ starts ↔ s.Starts m x) ∧
    completions.Nodup ∧ (∀ c, c ∈ completions ↔ ∃ x, s.Starts m x ∧ s.Completes m x.group c) ∧
    (t.course s m).result =
      some (.ok (.submitted exportId window (starts.length + completions.length)))
  /-- Each of them is gone from its key, and it lies with its body in the folder of the hour in
  which the window of its own export ends. -/
  moved : ∀ x stop, s.EndsAt m x stop → (t.after s m).find? s.bucket x.key = none ∧
    ∃ (name : String) (body : ByteArray), x.key = s.keyPrefix ++ name ∧
      m.find? s.bucket x.key = some body ∧
      (t.after s m).find? s.bucket (s.layout.root ++ "completed/" ++
        .ofList (Layout.hourFolders stop) ++ name) = some body
  /-- The marker of a start is deleted only after all those of its completion. -/
  ordered : ∀ x c, s.Starts m x → s.Completes m x.group c → Along (fun before e =>
    e.call = .delete s.bucket x.key → (⟨.delete s.bucket c.key, .ok ()⟩ : Event) ∈ before)
    (t.events s m)
  /-- All other objects are as they were, and there are no others. -/
  kept : ∀ bucket key, (bucket = s.bucket → ∀ x stop, s.EndsAt m x stop →
    key ≠ x.key ∧ key ≠ s.layout.archiveKey x.key stop) →
    (t.after s m).find? bucket key = m.find? bucket key

/-- Without faults and without a limit, a turn in which the next window is accepted archives the
markers of all completed exports if no two starts share a group. -/
theorem archiving_complete (hroot : s.archiveRoot = s.keyPrefix) (hfaults : t.faults = .none)
    (hlimit : t.limit = none)
    (hgroups : ∀ x y, s.Starts m x → s.Starts m y → x.group = y.group → x = y)
    (haccepted : (⟨.submit request, .ok exportId⟩ : Event) ∈ t.events s m) :
    Archives s t m exportId request.window := by
  obtain ⟨v, survey, es, r, hes, hplans, hmoves, hresult⟩ := exists_plan haccepted
  have hreports := reports hes
  have hv := hplans.taken
  -- The survey has each marker once, and so the plan moves each object once.
  obtain ⟨m₁, hsight, -⟩ := Store.passes_append.1 (hes ▸ t.passes s m)
  have hsorted := Sighting.sorted_survey hsight hv
  have hstarted : survey.started.Nodup := (Survey.nodup_keys hsorted.started).of_map
  have hcompleted : survey.completed.Nodup := (Survey.nodup_keys hsorted.completed).of_map
  have hnodup := hreports.nodup_sources hv hcompleted hstarted hgroups
  obtain ⟨moved, rfl⟩ : ∃ moved, r = some moved := by
    have hsome := isSome_result (s := s) (m := m) hlimit
    rw [hresult, Option.isSome_map] at hsome
    exact Option.isSome_iff_exists.1 hsome
  obtain ⟨rfl, rfl, hall, hframe⟩ := Move.relocateAll_found hmoves (passes_moves hes) hfaults
    (hreports.destination_ne_source hv (Settings.apart_of_root hroot))
    (hreports.source_eq_of_destination hv) hnodup (hreports.isSome_source hv)
  refine ⟨⟨survey.started, survey.completions, hstarted, fun x => hreports.mem_started_iff hv,
    hreports.nodup_completions hv hcompleted hstarted hgroups,
    fun c => hreports.mem_completions_iff hv, ?_⟩, fun x stop hends => ?_,
    fun x c hx hc => ?_, fun bucket key hother => ?_⟩
  · rw [hresult, Survey.length_moves]
    rfl
  · obtain ⟨name, hname, -⟩ := Store.lists_iff.1 hends.has.1
    obtain ⟨body, hbody⟩ := hends.has.2
    obtain ⟨hgone, hmoved⟩ := hall _ ((hreports.mem_moves_iff hv).2 ⟨x, stop, hends, rfl⟩)
    have hdestination : s.layout.archiveKey x.key stop =
        s.layout.root ++ "completed/" ++ .ofList (Layout.hourFolders stop) ++ name := by
      rw [hname]
      exact s.layout.archiveKey_append name stop
    refine ⟨hgone, name, body, hname, hbody, ?_⟩
    rw [← hdestination, ← hbody]
    exact hmoved
  · rw [hes, along_append, along_cons]
    refine ⟨along_of_forall fun e he before hkey => ?_, fun hkey => (nomatch hkey),
      (Move.along_carried s.bucket _).imp fun before e he hkey => ?_⟩
    · exact absurd he (Sighting.not_mem_events (by rw [hkey]; rfl) v)
    obtain ⟨l, y, l', hsplit, hsource, hbefore⟩ := he _ hkey
    -- The object of the start is moved once, behind those of its completion.
    obtain ⟨k, k', hsources, hfirst⟩ := Survey.moves_eq_append s.layout
      ((hreports.mem_started_iff hv).2 hx)
    rw [hsplit, List.map_append, List.map_cons, hsource] at hsources hnodup
    have honce := (List.nodup_cons.1 (List.nodup_middle.1 hnodup)).1
    rw [List.mem_append, not_or] at honce
    obtain ⟨rfl, -⟩ := (List.append_cons_inj_of_notMem honce.1 honce.2).1 hsources
    obtain ⟨z, hz, hkey⟩ := List.mem_map.1 (hfirst c (List.mem_filter.2
      ⟨(hreports.mem_completed_iff hv).2 (hc.group_eq ▸ hc), by simpa using hc.group_eq⟩))
    exact List.mem_append_right _ (List.mem_cons_of_mem _ (hkey ▸ hbefore z hz))
  · exact hframe bucket key fun hb y hy => by
      obtain ⟨x, stop, hends, rfl⟩ := (hreports.mem_moves_iff hv).1 hy
      exact hother hb x stop hends

/-- The group of the marker of a start. -/
def startGroup? (key : String) : Option String :=
  ((Marker.classify? key).filter (·.kind = .started)).map (·.group)

/-- The group of a marker of a start is that of its key. -/
theorem startGroup?_of_starts {x : StartedMarker} (h : s.Starts m x) :
    startGroup? x.key = some x.group := by
  rw [startGroup?, h.classified, Option.filter_some, h.kind]
  rfl

/-- No two starts share a group in a store that has no two markers of starts of one group. -/
theorem eq_of_group_eq {bucket : String} {objects : List (String × String)}
    (h : ∀ o ∈ objects, ∀ o' ∈ objects, startGroup? o.1 = startGroup? o'.1 →
      startGroup? o.1 = none ∨ o.1 = o'.1) :
    ∀ x y, s.Starts (.holding bucket objects) x → s.Starts (.holding bucket objects) y →
      x.group = y.group → x = y := by
  intro x y hx hy hgroup
  obtain ⟨body, hbody, -⟩ := hx.manifest
  obtain ⟨body', hbody', -⟩ := hy.manifest
  obtain ⟨o, ho, hkey⟩ := List.mem_map.1 (Store.mem_of_holding hbody).2
  obtain ⟨o', ho', hkey'⟩ := List.mem_map.1 (Store.mem_of_holding hbody').2
  have hsame := h o ho o' ho'
  rw [hkey, hkey', startGroup?_of_starts hx, startGroup?_of_starts hy, hgroup] at hsame
  exact hx.eq_of_key hy ((hsame rfl).resolve_left (by simp))

/-- Two completed exports, whose windows end in different hours, the first with two markers of
completion; one whose marker of a start has no manifest, and one without such a marker. -/
def twoExports : Store := .holding "b"
  [("p/a.started.manifest", Manifest.sampleText "x" "2023-01-01T00:00:00Z"),
    ("p/a.completed.manifest", ""), ("p/a..completed.manifest", "again"),
    ("p/b.started.manifest", Manifest.sampleText "y" "2023-01-01T05:00:00Z"),
    ("p/b.completed.manifest", ""), ("p/c.completed.manifest", ""),
    ("p/d.started.manifest", ""), ("p/d.completed.manifest", "")]

/-- Both exports are archived. -/
theorem two_exports_archived : let s := Settings.sample "p/" "p/"
    let t := sample 0 .none
    s.archiveRoot = s.keyPrefix ∧ t.faults = .none ∧ t.limit = none ∧
    (∀ x y, s.Starts twoExports x → s.Starts twoExports y → x.group = y.group → x = y) ∧
    ∃ request exportId, (⟨.submit request, .ok exportId⟩ : Event) ∈ t.events s twoExports ∧
      Archives s t twoExports exportId request.window := by
  intro s t
  have hgroups : ∀ x y, s.Starts twoExports x → s.Starts twoExports y → x.group = y.group →
      x = y := eq_of_group_eq (by decide +kernel)
  have hsome : (t.events s twoExports).any (fun e => e.accepted?.isSome) = true := by
    unfold events Settings.invoke Survey.take
    rw [Survey.ofReadings_eq_inOrder]
    decide +kernel
  obtain ⟨request, exportId, hmem⟩ := Event.exists_accepted hsome
  exact ⟨rfl, rfl, rfl, hgroups, request, exportId, hmem,
    archiving_complete rfl rfl rfl hgroups hmem⟩

end Turn

end LedgerExport
