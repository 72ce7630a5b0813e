import LedgerExport.Proofs.Acceptances
import LedgerExport.Proofs.Turns

/-!
# Completed exports stay completed

The markers of a completed export are moved in two steps, those of its completion first. A turn
that is stopped between the two leaves a marker of a start alone, and the turns after it take the
export for one that has not completed. `Turn.Tears` says when a turn does that, `Turn.settled` that
no other turn does, and `completed_stays_completed` carries this along any number of turns, with
objects that are put into the bucket between them.
-/

namespace LedgerExport

open Time World

namespace Settings

/-- If the store has the marker of a start, then it can be read and the export has completed. -/
def Settled (s : Settings) (m : Store) (x : Marker) : Prop :=
  ∀ body, m.find? s.bucket x.key = some body →
    (∃ manifest, Manifest.ofBytes body = .ok manifest) ∧ ∃ c, s.Completes m x.group c

/-- An export stays settled when another object is put into the bucket. -/
theorem Settled.put {s : Settings} {m : Store} {x : Marker} (h : s.Settled m x) {key : String}
    (hkey : key ≠ x.key) {body : ByteArray} : s.Settled (m.put s.bucket key body) x := by
  have hfind := Store.find?_put m s.bucket key body s.bucket
  intro b hb
  rw [hfind, if_neg fun heq => hkey heq.2] at hb
  obtain ⟨hread, c, hc⟩ := h b hb
  refine ⟨hread, c, hc.classified, hc.kind, hc.group_eq, hc.has.1, ?_⟩
  rw [hfind]
  split
  · exact ⟨body, rfl⟩
  · exact hc.has.2

/-- Whether a group has a marker of completion is seen in a listing. -/
theorem exists_completes_iff {s : Settings} {m : Store} {group : String} :
    (∃ c, s.Completes m group c) ↔
      (Marker.among (m.listing s.bucket s.keyPrefix (some "/")) .completed).any
        (·.group = group) = true := by
  simp only [List.any_eq_true, decide_eq_true_eq, Marker.mem_among]
  constructor
  · rintro ⟨c, hclass, hkind, hgroup, hlists, body, hbody⟩
    exact ⟨c, ⟨hclass, hkind, ⟨c.key, body.size⟩,
      Store.mem_listing.2 ⟨hlists, body, hbody, rfl⟩, rfl⟩, hgroup⟩
  · rintro ⟨c, ⟨hclass, hkind, o, ho, hkey⟩, hgroup⟩
    obtain ⟨hlists, body, hbody, -⟩ := Store.mem_listing.1 ho
    rw [hkey] at hlists hbody
    exact ⟨c, hclass, hkind, hgroup, hlists, body, hbody⟩

/-- Whether an export is settled is seen in a listing and in the body of its marker. -/
theorem settled_iff {s : Settings} {m : Store} {x : Marker} :
    s.Settled m x ↔ (m.find? s.bucket x.key).all (fun body => (Manifest.ofBytes body).isOk &&
      (Marker.among (m.listing s.bucket s.keyPrefix (some "/")) .completed).any
        (·.group = x.group)) = true := by
  unfold Settled
  rw [exists_completes_iff, Option.all_eq_true]
  refine forall₂_congr fun body hbody => ?_
  rw [Bool.and_eq_true]
  refine and_congr_left fun _ => ?_
  rcases Manifest.ofBytes body with e | manifest <;> simp [Except.isOk, Except.toBool]

end Settings

/-- A marker of completion is deleted only after the service has accepted a request. -/
theorem Settings.Unfolds.accepted_of_delete {s : Settings} {now : Instant} {es : List Event}
    {r : Option (Except Failure Outcome)} (h : s.Unfolds now es r) {c : Marker}
    (hc : Marker.classify? c.key = some c) (hkind : c.kind = .completed)
    {answer : Except StoreFailure Unit}
    (hmem : (⟨.delete s.bucket c.key, answer⟩ : Event) ∈ es) :
    ∃ v survey w exportId es' r', s.Plans now v survey w ∧
      Program.Traces (Move.relocateAll s.bucket (survey.moves s.layout)) es' r' ∧
      es = v.events s.bucket s.keyPrefix ++ ⟨.submit (s.request w), .ok exportId⟩ :: es' ∧
      ((∃ o, r = some (.ok o)) → r' = some (.ok ())) := by
  rcases h.acceptance with ⟨-, hchanges⟩ |
    ⟨v, survey, w, es', r', exportId, rfl, -, hplans, hmoves, rfl⟩
  · -- What is moved into quarantine is a marker of a start.
    obtain ⟨x, hmakes, -, v, survey, es', -, hv, hx⟩ := hchanges _ hmem rfl
    obtain ⟨hclass, hstarted, -⟩ :=
      Marker.mem_among.1 (v.marker_mem_among hv (List.mem_of_mem_filter hx))
    have hkey : c.key = x.key := hmakes.of_delete
    have hsame : some c = some x.marker := hc.symm.trans ((congrArg _ hkey).trans hclass)
    rw [← Option.some.inj hsame, hkind] at hstarted
    cases hstarted
  · refine ⟨v, survey, w, exportId, es', r', hplans, hmoves, rfl, fun ⟨o, ho⟩ => ?_⟩
    obtain ⟨moved, rfl, hmoved⟩ := Option.map_eq_some_iff.1 ho
    rcases moved with e | ⟨⟩
    · cases hmoved
    · rfl

/-- Reported markers of starts are those that the survey has running or blocking. -/
theorem Settings.Unfolds.of_inProgress {s : Settings} {now : Instant} {es : List Event}
    {r : Option (Except Failure Outcome)} (h : s.Unfolds now es r) {runs : List RunCheck}
    (hr : r = some (.ok (.inProgress runs))) :
    ∃ (v : Sighting) (survey : Survey) (es' : List Event),
      es = v.events s.bucket s.keyPrefix ++ es' ∧ v.survey? s.keyPrefix = .ok survey ∧
      ∀ run ∈ runs, (∃ started ∈ survey.running, started.key = run.markerKey) ∨
        ∃ marker ∈ survey.blocking, marker.key = run.markerKey := by
  cases h with
  | reading _ hfails =>
    obtain ⟨f, hf, -⟩ := hfails _ hr
    cases hf
  | @lookingUp v survey es r hv _ hchecks =>
    obtain ⟨answer, rfl, hanswer⟩ := Option.map_eq_some_iff.1 hr
    rcases answer with e | checks <;> cases hanswer
    refine ⟨v, survey, es, rfl, hv, fun run hrun => ?_⟩
    rcases List.mem_append.1 hrun with hrun | hrun
    · have hkey : run.markerKey ∈ survey.running.map (·.key) :=
        markerKeys_of_checkRuns hchecks ▸ List.mem_map_of_mem hrun
      exact .inl (List.mem_map.1 hkey)
    · obtain ⟨marker, hmarker, rfl⟩ := List.mem_map.1 hrun
      exact .inr ⟨marker, hmarker, rfl⟩
  | stopped => cases hr
  | refused => cases hr
  | accepted =>
    obtain ⟨answer, -, hanswer⟩ := Option.map_eq_some_iff.1 hr
    rcases answer with e | ⟨⟩ <;> cases hanswer

/-- Markers that are moved into quarantine are those of starts that the survey has running. -/
theorem Settings.Unfolds.of_quarantine {s : Settings} {now : Instant} {es : List Event}
    {r : Option (Except Failure Outcome)} (h : s.Unfolds now es r) {e : Event} (he : e ∈ es)
    {key : String} (hcall : e.call = .copy s.bucket key (s.layout.quarantineKey key)) :
    ∃ (v : Sighting) (survey : Survey) (es' : List Event),
      es = v.events s.bucket s.keyPrefix ++ es' ∧ v.survey? s.keyPrefix = .ok survey ∧
      ∃ started ∈ survey.running, started.key = key := by
  rcases h.acceptance with ⟨-, hchanges⟩ |
    ⟨v, survey, w, es', r', exportId, rfl, -, hplans, hmoves, -⟩
  · obtain ⟨x, hmakes, -, v, survey, es', hes, hv, hx⟩ := hchanges e he (by rw [hcall]; rfl)
    rw [hcall] at hmakes
    exact ⟨v, survey, es', hes, hv, x, hx, hmakes.of_copy.1.symm⟩
  · have hseen : e ∉ v.events s.bucket s.keyPrefix :=
      Sighting.not_mem_events (by rw [hcall]; rfl) v
    rcases List.mem_cons.1 ((List.mem_append.1 he).resolve_left hseen) with rfl | he
    · cases hcall
    -- A plan has no moves into quarantine.
    obtain ⟨move, hmove, hmakes⟩ := (Move.traces_relocateAll hmoves).1 e he
    rw [hcall] at hmakes
    have hdestination := hmakes.of_copy.2
    obtain ⟨started, -, ⟨c, -, -, rfl⟩ | rfl⟩ := Survey.mem_moves.1 hmove
    · exact absurd hdestination.symm (s.layout.archiveKey_ne_quarantineKey _ _ _)
    · exact absurd hdestination.symm (s.layout.archiveKey_ne_quarantineKey _ _ _)

namespace Turn

variable {τ : Type} {s : Settings} {m : Store} {x : Marker} {t : Turn τ}

/-- A turn is stopped while it moves the markers of an export: the service has accepted its request,
it fails or is cut short, and it has deleted each marker of completion but not that of the start. -/
structure Tears (s : Settings) (m : Store) (x : Marker) (t : Turn τ) : Prop where
  /-- The service has accepted a request. -/
  accepted : ∃ request exportId, (⟨.submit request, .ok exportId⟩ : Event) ∈ t.events s m
  /-- The turn does not end well. -/
  stopped : ∀ o, (t.course s m).result ≠ some (.ok o)
  /-- Each marker of completion is deleted. -/
  completions : ∀ c, s.Completes m x.group c →
    (⟨.delete s.bucket c.key, .ok ()⟩ : Event) ∈ t.events s m
  /-- The marker of the start is not deleted. -/
  start : (⟨.delete s.bucket x.key, .ok ()⟩ : Event) ∉ t.events s m

/-- A turn does not take the export for one that has not completed: it neither reports the marker of
its start nor moves it into quarantine. -/
structure Spares (s : Settings) (m : Store) (x : Marker) (t : Turn τ) : Prop where
  /-- The marker is not reported. -/
  reports : ∀ runs, (t.course s m).result = some (.ok (.inProgress runs)) →
    ∀ run ∈ runs, run.markerKey ≠ x.key
  /-- The marker is not moved into quarantine. -/
  moves : ∀ e ∈ t.events s m, e.call ≠ .copy s.bucket x.key (s.layout.quarantineKey x.key)

/-- In a layout where no archived key is listed, a turn makes no copy to a listed key. -/
theorem destination_ne (hapart : s.layout.Apart) (t : Turn τ) (m : Store) {key : String}
    (hkey : Store.lists s.keyPrefix (some "/") key = true) {e : Event} (he : e ∈ t.events s m)
    (hchange : e.call.isChange = true) :
    ∃ move : Move, move.Makes s.bucket e.call ∧ move.destination ≠ key := by
  obtain ⟨move, hmakes, hsource, hdestination⟩ :=
    (t.unfolds s m).changes (P := fun _ => True) agree_of_eq (t.passes s m) he hchange
  refine ⟨move, hmakes, (Store.ne_of_lists hkey ?_).symm⟩
  rcases hdestination with hq | ⟨stop, ha⟩
  · rw [hq]
    exact Layout.not_lists_quarantineKey (l := s.layout) hsource
  · rw [ha]
    exact hapart _ stop hsource

/-- In a layout where no archived key is listed, a listed object stays as it is in a turn unless it
is deleted. -/
theorem find?_after (hapart : s.layout.Apart) (t : Turn τ) (m : Store) {key : String}
    (hkey : Store.lists s.keyPrefix (some "/") key = true) :
    (t.after s m).find? s.bucket key = m.find? s.bucket key ∨
      (t.after s m).find? s.bucket key = none ∧
        (⟨.delete s.bucket key, .ok ()⟩ : Event) ∈ t.events s m := by
  show (t.after s m).find? s.bucket key = (t.world m).store.find? s.bucket key ∨ _
  exact (t.passes s m).find?_of_moves Store.find?_of_eq fun _ he hchange =>
    destination_ne hapart t m hkey he hchange

/-- In a layout where no archived key is listed, what a turn deletes is gone at its end. -/
theorem gone_after (hapart : s.layout.Apart) (t : Turn τ) (m : Store) {key : String}
    (hkey : Store.lists s.keyPrefix (some "/") key = true)
    (h : (⟨.delete s.bucket key, .ok ()⟩ : Event) ∈ t.events s m) :
    (t.after s m).find? s.bucket key = none :=
  (t.passes s m).gone_of_moves Store.find?_of_eq
    (fun _ he hchange => destination_ne hapart t m hkey he hchange) h

/-- In a layout where no archived key is listed, a turn that moves all markers leaves no marker of a
start that it has read. -/
theorem gone_of_moved (hapart : s.layout.Apart) {v : Sighting} {survey : Survey} {w : Window}
    {exportId : String} {es : List Event} (hes : t.events s m =
      v.events s.bucket s.keyPrefix ++ ⟨.submit (s.request w), .ok exportId⟩ :: es)
    (hmoves : Program.Traces (Move.relocateAll s.bucket (survey.moves s.layout)) es (some (.ok ())))
    {y : StartedMarker} (hy : y ∈ survey.started)
    (hlists : Store.lists s.keyPrefix (some "/") y.key = true) :
    (t.after s m).find? s.bucket y.key = none := by
  obtain ⟨es₁, es₂, es₃, rfl, hmade⟩ := ((Move.traces_relocateAll hmoves).2.1 rfl).exists_made
    (Survey.mem_moves.2 ⟨_, hy, .inr rfl⟩)
  -- The store is followed past the sighting, the request and the moves before this one.
  have hpasses := t.passes s m
  rw [hes] at hpasses
  obtain ⟨m₁, -, hrest⟩ := Store.passes_append.1 hpasses
  cases hrest with
  | cons _ _ hrest =>
    rw [List.append_assoc] at hrest
    obtain ⟨m₂, -, hrest⟩ := Store.passes_append.1 hrest
    obtain ⟨m₃, hmove, hafter⟩ := Store.passes_append.1 hrest
    have hgone : m₃.find? s.bucket y.key = none :=
      hmove.gone_of_made Store.find?_of_eq hmade rfl
    -- No move behind it copies to the key of the marker.
    rcases hafter.find?_of_moves Store.find?_of_eq
      (fun e he => destination_ne hapart t m hlists (by simp [hes, he])) with hsame | ⟨hgone', -⟩
    · rw [hsame, hgone]
    · exact hgone'

/-- A settled export stays settled unless the turn tears its markers apart. -/
theorem settled (hapart : s.layout.Apart) (hx : Marker.classify? x.key = some x)
    (hkind : x.kind = .started) (hlists : Store.lists s.keyPrefix (some "/") x.key = true)
    (h : s.Settled m x) (ht : ¬t.Tears s m x) : s.Settled (t.after s m) x := by
  intro body hbody
  have hbefore : m.find? s.bucket x.key = some body := by
    rcases find?_after hapart t m hlists with hsame | ⟨hgone, -⟩
    · rw [← hsame, hbody]
    · rw [hbody] at hgone
      cases hgone
  obtain ⟨⟨manifest, hmanifest⟩, c, hc⟩ := h body hbefore
  refine ⟨⟨manifest, hmanifest⟩, ?_⟩
  by_contra hnone
  -- Otherwise every marker of completion was deleted.
  have hdeleted : ∀ c, s.Completes m x.group c →
      (⟨.delete s.bucket c.key, .ok ()⟩ : Event) ∈ t.events s m := by
    intro c hc
    rcases find?_after hapart t m hc.has.1 with hsame | ⟨-, hdeleted⟩
    · exact absurd ⟨c, hc.classified, hc.kind, hc.group_eq, hc.has.1, by rw [hsame]; exact hc.has.2⟩
        hnone
    · exact hdeleted
  have hstart : (⟨.delete s.bucket x.key, .ok ()⟩ : Event) ∉ t.events s m := fun hdeleted => by
    rw [gone_after hapart t m hlists hdeleted] at hbody
    cases hbody
  obtain ⟨v, survey, w, exportId, es, r, hplans, hmoves, hes, hok⟩ :=
    (t.unfolds s m).accepted_of_delete hc.classified hc.kind (hdeleted c hc)
  refine ht ⟨⟨s.request w, exportId, by simp [hes]⟩, fun o ho => ?_, hdeleted, hstart⟩
  -- A turn that ends well has also moved the marker of the start.
  have hmem : ⟨x, manifest⟩ ∈ survey.started :=
    ((reports hes).mem_started hplans.taken (x := ⟨x, manifest⟩) trivial).2
      ⟨hx, hkind, hlists, body, hbefore, hmanifest⟩
  have hgone := gone_of_moved hapart hes (hok ⟨o, ho⟩ ▸ hmoves) hmem hlists
  rw [show (t.after s m).find? s.bucket x.key = none from hgone] at hbody
  cases hbody

/-- A turn leaves an export settled just when it does not tear its markers apart. -/
theorem settled_after_iff (hapart : s.layout.Apart) (hx : Marker.classify? x.key = some x)
    (hkind : x.kind = .started) (hhas : s.Has m x.key) (h : s.Settled m x) :
    s.Settled (t.after s m) x ↔ ¬t.Tears s m x := by
  refine ⟨fun hafter htears => ?_, settled hapart hx hkind hhas.1 h⟩
  obtain ⟨hlists, body, hbody⟩ := hhas
  have hthere : (t.after s m).find? s.bucket x.key = some body := by
    rcases find?_after hapart t m hlists with hsame | ⟨-, hdeleted⟩
    · rw [hsame, hbody]
    · exact absurd hdeleted htears.start
  obtain ⟨-, c, hc⟩ := hafter body hthere
  obtain ⟨body', hbody'⟩ := hc.has.2
  -- A marker of completion that is there at the end was there before, and so it was deleted.
  have hbefore : s.Completes m x.group c := by
    refine ⟨hc.classified, hc.kind, hc.group_eq, hc.has.1, ?_⟩
    rcases find?_after hapart t m hc.has.1 with hsame | ⟨hgone, -⟩
    · exact ⟨body', hsame ▸ hbody'⟩
    · rw [hgone] at hbody'
      cases hbody'
  rw [gone_after hapart t m hc.has.1 (htears.completions c hbefore)] at hbody'
  cases hbody'

/-- A marker of a start that a survey has running is not settled. -/
theorem not_settled_of_running {v : Sighting} {survey : Survey} {started : StartedMarker}
    (hreports : v.Reports (fun _ => True) s m) (hv : v.survey? s.keyPrefix = .ok survey)
    (hrunning : started ∈ survey.running) (hx : Marker.classify? x.key = some x)
    (hkey : started.key = x.key) : ¬s.Settled m x := by
  intro h
  obtain ⟨hstarted, hnone⟩ := List.mem_filter.1 hrunning
  obtain ⟨hclass, -, -, body, hbody, -⟩ :=
    (hreports.mem_started hv (x := started) trivial).1 hstarted
  rw [hkey] at hclass hbody
  -- It would have a marker of completion, which the survey would have seen.
  obtain ⟨-, c, hc⟩ := h body hbody
  have hgroup : started.group = x.group :=
    congrArg Marker.group (Option.some.inj (hclass.symm.trans hx))
  rw [hgroup, (hreports.hasCompleted_iff hv).2 ⟨c, hc.classified, hc.kind, hc.has, hc.group_eq⟩]
    at hnone
  cases hnone

/-- A marker of a start that blocks a survey is not settled. -/
theorem not_settled_of_blocking {v : Sighting} {survey : Survey} {marker : Marker}
    (hreports : v.Reports (fun _ => True) s m) (hv : v.survey? s.keyPrefix = .ok survey)
    (hblocking : marker ∈ survey.blocking) (hkey : marker.key = x.key) : ¬s.Settled m x := by
  intro h
  obtain ⟨e, hmem⟩ :=
    (Survey.sorts_ofReadings hv).mem_unreadable.1 (List.mem_of_mem_filter hblocking)
  obtain ⟨⟨marker', body⟩, hmem', heq⟩ := List.mem_map.1 hmem
  obtain ⟨rfl, hbody⟩ : marker' = marker ∧ Manifest.ofBytes body = .error e := Prod.ext_iff.1 heq
  -- The body that was read is that in the store, which has a manifest.
  obtain ⟨⟨manifest, hmanifest⟩, -⟩ := h body (hkey ▸ hreports.read _ hmem' trivial)
  rw [hbody] at hmanifest
  cases hmanifest

/-- A turn spares a settled export. -/
theorem spares (hx : Marker.classify? x.key = some x) (h : s.Settled m x) (t : Turn τ) :
    t.Spares s m x := by
  refine ⟨fun runs hruns run hrun hkey => ?_, fun e he hcall => ?_⟩
  · obtain ⟨v, survey, es, hes, hv, hmarkers⟩ := (t.unfolds s m).of_inProgress hruns
    have hreports := reports hes
    rcases hmarkers run hrun with ⟨started, hrunning, hstarted⟩ | ⟨marker, hblocking, hmarker⟩
    · exact not_settled_of_running hreports hv hrunning hx (hstarted.trans hkey) h
    · exact not_settled_of_blocking hreports hv hblocking (hmarker.trans hkey) h
  · obtain ⟨v, survey, es, hes, hv, started, hrunning, hstarted⟩ :=
      (t.unfolds s m).of_quarantine he hcall
    exact not_settled_of_running (reports hes) hv hrunning hx hstarted h

/-- The stores that come after a store when turns are taken that do not tear the markers of an
export apart, and objects are put into the bucket between them, other than the marker of its
start. -/
inductive Untorn (s : Settings) (x : Marker) (m : Store) : Store → Prop
  /-- The store itself. -/
  | start : Untorn s x m m
  /-- An object is put into the bucket. -/
  | arrival {m' : Store} (key : String) (body : ByteArray) (other : key ≠ x.key) :
    Untorn s x m m' → Untorn s x m (m'.put s.bucket key body)
  /-- A turn is taken. -/
  | turn {m' : Store} {τ : Type} (t : Turn τ) (whole : ¬t.Tears s m' x) :
    Untorn s x m m' → Untorn s x m (t.after s m')

/-- As long as no turn tears its markers apart, an export that has completed stays so: whatever the
turns meet with, the marker of its start is gone, or one of its completion is still there; and no
turn that comes next reports it or moves its marker into quarantine. -/
theorem completed_stays_completed (hapart : s.layout.Apart) (hx : Marker.classify? x.key = some x)
    (hkind : x.kind = .started) (hlists : Store.lists s.keyPrefix (some "/") x.key = true)
    (h : s.Settled m x) {m' : Store} (hturns : Untorn s x m m') :
    s.Settled m' x ∧ ∀ {τ : Type} (t : Turn τ), t.Spares s m' x := by
  -- A turn spares what is settled before it, so only that has to be carried along.
  suffices hsettled : s.Settled m' x from ⟨hsettled, fun t => spares hx hsettled t⟩
  induction hturns with
  | start => exact h
  | arrival key body other _ ih => exact ih.put other
  | turn t whole _ ih => exact settled hapart hx hkind hlists ih whole

/-- The marker of its start. -/
def pairStart : Marker := ⟨"p/a.started.manifest", .started, "p/a"⟩

/-- A turn in which nothing goes wrong archives the markers, and the export stays settled. -/
theorem completed_pair_stays_completed :
    let s := Settings.sample "p/" "p/"
    let t := sample 0 .none
    (s.Settled completedPair pairStart ∧
        Untorn s pairStart completedPair (t.after s completedPair)) ∧
      s.Settled (t.after s completedPair) pairStart ∧
      ∀ {τ : Type} (t' : Turn τ), t'.Spares s (t.after s completedPair) pairStart := by
  intro s t
  have hsettled : s.Settled completedPair pairStart := Settings.settled_iff.2 (by decide +kernel)
  have hresult : (t.course s completedPair).result = some (.ok (.submitted "export1"
      ⟨⟨1672531200, 0, by decide, by decide⟩, t.now⟩ 2)) := by decide +kernel
  have hturns : Untorn s pairStart completedPair (t.after s completedPair) :=
    Untorn.start.turn t fun htears => htears.stopped _ hresult
  have hapart : s.layout.Apart := Layout.apart_ofRoot_self "p/"
  exact ⟨⟨hsettled, hturns⟩, completed_stays_completed hapart (by decide +kernel) rfl
    (by decide +kernel) hsettled hturns⟩

/-- Markers under a prefix within the folder of an hour. The second pair moves to where the first
one was, and the last marker belongs to the first pair's group. -/
def pairsInFolder : Store := .holding "b"
  [("r/completed/2023/01/01/00/aa.started.manifest",
      Manifest.sampleText "x" "2022-01-01T00:00:00Z"),
    ("r/completed/2023/01/01/00/aa.completed.manifest", ""),
    ("r/completed/2023/01/01/00/aaa.started.manifest",
      Manifest.sampleText "y" "2023-01-01T00:00:00Z"),
    ("r/completed/2023/01/01/00/aaa.completed.manifest", ""),
    ("r/completed/2023/01/01/00/aastarted.manifest",
      Manifest.sampleText "z" "2022-06-01T00:00:00Z")]

/-- The marker of the first pair's start. -/
def folderStart : Marker :=
  ⟨"r/completed/2023/01/01/00/aa.started.manifest", .started, "r/completed/2023/01/01/00/aa"⟩

/-- Settings with this prefix. -/
def folderSettings : Settings := .sample "r/completed/2023/01/01/00/a" "r/"

/-- A turn in which nothing goes wrong. -/
def folderTurn : Turn JobTable := sample 0 .none

/-- The turn ends well, and the first pair's marker of a start is left alone. -/
theorem folder_turn : (folderTurn.course folderSettings pairsInFolder).result.any (·.isOk) = true ∧
    ¬folderSettings.Settled (folderTurn.after folderSettings pairsInFolder) folderStart := by
  rw [Settings.settled_iff]
  unfold after course Settings.invoke Survey.take
  rw [Survey.ofReadings_eq_inOrder]
  decide +kernel

/-- An export that has completed can turn back into one that has not. A turn that cannot copy the
marker of a start leaves it alone, and the next one moves it into quarantine. Under a prefix within
the folder of an hour, a turn that ends well can do the same. -/
theorem completed_can_turn_back :
    (let s := Settings.sample "p/" "p/"
     let t := sample 0 ⟨[(.copy, pairStart.key)], []⟩
     let t' := sample 1 .none
     s.Settled completedPair pairStart ∧ s.Has completedPair pairStart.key ∧
      ¬s.Settled (t.after s completedPair) pairStart ∧
      (t'.course s (t.after s completedPair)).result = some (.ok (.inProgress
        [⟨pairStart.key, some "x", .quarantined (s.layout.quarantineKey pairStart.key)⟩]))) ∧
    folderSettings.Settled pairsInFolder folderStart ∧
    folderSettings.Has pairsInFolder folderStart.key ∧
    (folderTurn.course folderSettings pairsInFolder).result.any (·.isOk) = true ∧
    ¬folderSettings.Settled (folderTurn.after folderSettings pairsInFolder) folderStart := by
  constructor
  · intro s t t'
    refine ⟨Settings.settled_iff.2 (by decide +kernel),
      ⟨by decide +kernel, Option.isSome_iff_exists.1 (by decide +kernel)⟩, ?_, by decide +kernel⟩
    rw [Settings.settled_iff]
    decide +kernel
  · exact ⟨Settings.settled_iff.2 (by decide +kernel),
      ⟨by decide +kernel, Option.isSome_iff_exists.1 (by decide +kernel)⟩, folder_turn⟩

end Turn

end LedgerExport
