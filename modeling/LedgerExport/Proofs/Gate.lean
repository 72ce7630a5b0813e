import Mathlib.Data.List.Basic
import LedgerExport.Proofs.Turns

/-!
# The gate before a submission

When an invocation submits an export, whatever it is answered. `Sighting.Admits` says which window a
sighting lets through, and `submission_gate` that every submission is the first call after the
sighting that lets it through, and that it is the only one of its invocation.
-/

namespace LedgerExport

open Time World

namespace Sighting

/-- The ends of the windows of the exports whose markers could be read as manifests. -/
def stops (v : Sighting) : List Instant :=
  v.readings.filterMap fun r => (Manifest.ofBytes r.2).toOption.map (·.stop)

/-- The window may be submitted after this sighting. -/
structure Admits (v : Sighting) (epoch : Instant) (w : Window) : Prop where
  /-- Each export with a listed marker of a start has a listed marker of its completion. -/
  completed : ∀ m ∈ Marker.among v.objects .started,
    ∃ c ∈ Marker.among v.objects .completed, c.group = m.group
  /-- The first window starts at the epoch. -/
  first : Marker.among v.objects .started = [] → w.start = epoch
  /-- A later window starts where the latest one ended. -/
  next : Marker.among v.objects .started ≠ [] → w.start ∈ v.stops ∧ ∀ t ∈ v.stops, t ≤ w.start
  /-- The window is not empty. -/
  start_lt_stop : w.start < w.stop

variable {v : Sighting} {keyPrefix : String} {survey : Survey}

/-- The survey of a sighting sorts what was seen. -/
theorem sorts_survey? (h : v.survey? keyPrefix = .ok survey) :
    survey.Sorts (Marker.among v.objects .completed)
      (v.readings.map fun r => (r.1, Manifest.ofBytes r.2)) :=
  Survey.sorts_ofReadings h

/-- The markers of starts that were read are those that were listed. -/
theorem mem_started_iff {m : Marker} :
    m ∈ Marker.among v.objects .started ↔ ∃ body, (m, body) ∈ v.readings := by
  rw [← v.starts, List.mem_map]
  exact ⟨fun ⟨⟨_, body⟩, hx, hm⟩ => ⟨body, hm ▸ hx⟩, fun ⟨body, hx⟩ => ⟨_, hx, rfl⟩⟩

/-- The ends that were read are those that the survey knows. -/
theorem mem_stops_iff (h : v.survey? keyPrefix = .ok survey) {t : Instant} :
    t ∈ v.stops ↔ ∃ m ∈ survey.started, m.stop = t := by
  rw [stops, List.mem_filterMap]
  constructor
  · rintro ⟨⟨marker, body⟩, hx, ht⟩
    obtain ⟨manifest, hbody, rfl⟩ := Option.map_eq_some_iff.1 ht
    refine ⟨⟨marker, manifest⟩, (sorts_survey? h).mem_started.2 ?_, rfl⟩
    have hok : Manifest.ofBytes body = .ok manifest := by
      dsimp only at hbody
      rcases hb : Manifest.ofBytes body with e | m <;> rw [hb] at hbody <;> cases hbody
      rfl
    exact List.mem_map.2 ⟨_, hx, by rw [hok]⟩
  · rintro ⟨m, hm, rfl⟩
    obtain ⟨⟨marker, body⟩, hx, heq⟩ := List.mem_map.1 ((sorts_survey? h).mem_started.1 hm)
    obtain ⟨-, hbody⟩ : marker = m.marker ∧ Manifest.ofBytes body = .ok m.manifest :=
      Prod.ext_iff.1 heq
    exact ⟨_, hx, by dsimp only; rw [hbody]; rfl⟩

/-- A survey without running and blocking exports has a marker of completion for each marker of a
start that was listed. -/
theorem completed_of_none (h : v.survey? keyPrefix = .ok survey) (hr : survey.running = [])
    (hb : survey.blocking = []) {m : Marker} (hm : m ∈ Marker.among v.objects .started) :
    ∃ c ∈ Marker.among v.objects .completed, c.group = m.group := by
  obtain ⟨body, hx⟩ := mem_started_iff.1 hm
  rw [← (sorts_survey? h).hasCompleted_iff]
  have hread : (m, Manifest.ofBytes body) ∈ v.readings.map fun r => (r.1, Manifest.ofBytes r.2) :=
    List.mem_map.2 ⟨_, hx, rfl⟩
  -- A marker with a manifest would be running otherwise, and one without would block.
  rcases hbody : Manifest.ofBytes body with e | manifest
  · exact Survey.hasCompleted_of_blocking_nil hb
      ((sorts_survey? h).mem_unreadable.2 ⟨e, hbody ▸ hread⟩)
  · exact Survey.hasCompleted_of_running_nil hr (m := ⟨m, manifest⟩)
      ((sorts_survey? h).mem_started.2 (hbody ▸ hread))

/-- A window that is planned after a sighting is one that may be submitted. -/
theorem admits_of_plans {s : Settings} {now : Instant} {w : Window}
    (h : s.Plans now v survey w) : v.Admits s.epoch w := by
  obtain ⟨hv, hr, hb, rfl, hlt⟩ := h
  refine ⟨fun m => completed_of_none hv hr hb, fun hnone => ?_, fun hsome => ?_, hlt⟩
  · -- What the survey has was listed, and nothing was.
    have hnil : survey.started = [] := by
      refine List.eq_nil_iff_forall_not_mem.2 fun m hm => ?_
      obtain ⟨⟨marker, body⟩, hx, heq⟩ := List.mem_map.1 ((sorts_survey? hv).mem_started.1 hm)
      exact List.not_mem_nil (hnone ▸ mem_started_iff.2 ⟨body, hx⟩)
    exact Survey.frontier_nil hnil
  · -- Some marker could be read as a manifest, or else there would be no survey.
    have hne : survey.started ≠ [] := by
      intro hnil
      have hread := (sorts_survey? hv).readable hnil
      rw [List.map_eq_nil_iff] at hread
      exact hsome (by rw [← v.starts, hread, List.map_nil])
    obtain ⟨hmem, hmax⟩ := (Survey.frontier_isGreatest s.epoch hne).1 rfl
    refine ⟨(mem_stops_iff hv).2 hmem, fun t ht => ?_⟩
    obtain ⟨m, hm, rfl⟩ := (mem_stops_iff hv).1 ht
    exact hmax m hm

end Sighting

/-- The calls of a move are neither submissions nor look-ups. -/
theorem Move.Makes.moves_only {bucket : String} {m : Move} {c : Call} (h : m.Makes bucket c) :
    c.isSubmission = false ∧ c.isLookup = false := by
  rcases h with rfl | rfl | rfl <;> exact ⟨rfl, rfl⟩

/-- The calls of a move do not read. -/
theorem Move.Makes.isReading {bucket : String} {m : Move} {c : Call} (h : m.Makes bucket c) :
    c.isReading = false := by
  rcases h with rfl | rfl | rfl <;> rfl

/-- A call that reads is neither a submission nor a look-up. -/
theorem Call.reads_only {c : Call} (h : c.isReading = true) :
    c.isSubmission = false ∧ c.isLookup = false := by
  cases c <;> first | exact ⟨rfl, rfl⟩ | cases h

namespace Settings

/-- Looking up exports neither reads nor submits. -/
theorem lookUps_only {s : Settings} {running : List StartedMarker} {es : List Event}
    {r : Option (Except Failure (List RunCheck))}
    (h : Program.Traces (s.checkRuns running).run es r) :
    ∀ e ∈ es, e.call.isReading = false ∧ e.call.isSubmission = false := by
  intro e he
  -- A call is a look-up, or it belongs to a move into quarantine.
  obtain ⟨started, -, hcall | ⟨hcall, -⟩⟩ := traces_checkRuns h e he
  · rw [hcall]
    exact ⟨rfl, rfl⟩
  · exact ⟨hcall.isReading, hcall.moves_only.1⟩

/-- An invocation submits nothing, or it submits one window right after a sighting that admits it
and then only moves objects. -/
theorem Unfolds.submission {s : Settings} {now : Instant} {es : List Event}
    {r : Option (Except Failure Outcome)} (h : s.Unfolds now es r) :
    (∀ e ∈ es, e.call.isSubmission = false) ∨
      ∃ (v : Sighting) (w : Window) (answer : Except JobFailure String) (es' : List Event),
        es = v.events s.bucket s.keyPrefix ++ ⟨.submit (s.request w), answer⟩ :: es' ∧
        v.Admits s.epoch w ∧ w.stop = now.cutToMillis ∧
        ∀ e ∈ es', e.call.isSubmission = false ∧ e.call.isLookup = false := by
  have hseen (v : Sighting) : ∀ e ∈ v.events s.bucket s.keyPrefix, e.call.isSubmission = false :=
    fun e he => (Call.reads_only (Sighting.isReading_of_mem_events he)).1
  cases h with
  | reading hread => exact .inl fun e he => (Call.reads_only (hread e he)).1
  | lookingUp hv _ hchecks =>
    refine .inl fun e he => ?_
    rcases List.mem_append.1 he with he | he
    · exact hseen _ e he
    · exact (lookUps_only hchecks e he).2
  | stopped => exact .inl (hseen _)
  | refused e hplans =>
    exact .inr ⟨_, _, .error e, [], rfl, Sighting.admits_of_plans hplans,
      congrArg Window.stop hplans.window_eq, by simp⟩
  | accepted exportId hplans hmoves =>
    refine .inr ⟨_, _, .ok exportId, _, rfl, Sighting.admits_of_plans hplans,
      congrArg Window.stop hplans.window_eq, fun e he => ?_⟩
    obtain ⟨m, -, hcall⟩ := (Move.traces_relocateAll hmoves).1 e he
    exact hcall.moves_only

/-- However the store and the service answer and wherever a limit cuts it short, an invocation
submits at most once, and not at all when it looks up an export. What comes before a submission is a
sighting and nothing else; the sighting admits the window, which ends at the clock cut to
milliseconds: at the last whole millisecond of the clock's second that is not after the clock. -/
theorem submission_gate {σ : Type} (s : Settings) (now : Instant) (respond : Responder σ)
    (cost : Call → Nat) (limit : Option Nat) (w : σ) :
    let events := (s.invoke now).run.eventsFrom respond cost limit w 0
    events.countP (·.call.isSubmission) ≤ 1 ∧
    ((∃ e ∈ events, e.call.isLookup = true) → ∀ e ∈ events, e.call.isSubmission = false) ∧
    ∀ before request answer after, events = before ++ ⟨.submit request, answer⟩ :: after →
      (∀ e ∈ before, e.call.isReading = true) ∧
      ∃ (v : Sighting) (window : Window), before = v.events s.bucket s.keyPrefix ∧
        request = s.request window ∧ v.Admits s.epoch window ∧ window.stop = now.cutToMillis ∧
        window.stop ≤ now ∧ window.stop.seconds = now.seconds ∧
        now.nanos < window.stop.nanos + nanosPerMilli ∧ window.stop.nanos % nanosPerMilli = 0 := by
  intro events
  have htrace := Program.traces_eventsFrom respond cost limit (s.invoke now).run w 0
  rcases (unfolds_of_traces htrace).submission with hnone |
    ⟨v, window, answer, es', hes, hadmits, hstop, hrest⟩
  · refine ⟨?_, fun _ => hnone, fun before request answer after heq => ?_⟩
    · rw [List.countP_eq_zero.2 (by simpa using hnone)]
      exact Nat.zero_le 1
    · have hmem : ⟨.submit request, answer⟩ ∈ events := heq ▸ List.mem_append_cons_self
      exact nomatch hnone _ hmem
  -- Neither the calls of the sighting nor those of the moves are submissions or look-ups.
  have hseen : ∀ e ∈ v.events s.bucket s.keyPrefix,
      e.call.isSubmission = false ∧ e.call.isLookup = false := fun e he =>
    Call.reads_only (Sighting.isReading_of_mem_events he)
  refine ⟨?_, ?_, fun before request answer' after heq => ?_⟩
  · show List.countP _ (Program.eventsFrom ..) ≤ 1
    rw [hes, List.countP_append, List.countP_cons, List.countP_eq_zero.2 fun e he => ?_,
      List.countP_eq_zero.2 fun e he => ?_]
    · exact Nat.le_refl 1
    · simp [(hrest e he).1]
    · simp [(hseen e he).1]
  · rintro ⟨e, he, hlookup⟩
    rw [show events = _ from hes] at he
    rcases List.mem_append.1 he with he | he
    · exact absurd hlookup (by simp [(hseen e he).2])
    rcases List.mem_cons.1 he with rfl | he
    · cases hlookup
    · exact absurd hlookup (by simp [(hrest e he).2])
  · -- There is one submission among the calls, and so there is one way to cut them at it.
    have hcut := hes.symm.trans heq
    rw [List.append_cons_inj_of_notMem (fun hmem => Bool.noConfusion (hseen _ hmem).1)
      (fun hmem => Bool.noConfusion (hrest _ hmem).1)] at hcut
    obtain ⟨rfl, hcall, -⟩ := hcut
    obtain rfl := Call.submit.inj (congrArg Event.call hcall)
    have hcut := now.cutToMillis_bounds
    have hwhole := now.cutToMillis_nanos_mod
    rw [← hstop] at hcut hwhole
    obtain ⟨hle, hsame, hnear⟩ := hcut
    exact ⟨fun e he => Sighting.isReading_of_mem_events he, v, window, rfl, rfl, hadmits, hstop,
      hle, hsame, hnear, hwhole⟩

/-- A call that was made has an answer, and calls before and after it. -/
theorem exists_split {es : List Event} {c : Call} (h : (es.any (·.call = c)) = true) :
    ∃ before answer after, es = before ++ ⟨c, answer⟩ :: after := by
  obtain ⟨⟨c', answer⟩, he, hc⟩ := List.any_eq_true.1 h
  obtain rfl : c' = c := of_decide_eq_true hc
  obtain ⟨before, after, hes⟩ := List.append_of_mem he
  exact ⟨before, answer, after, hes⟩

/-- After an export that ended with the year 2022 and has completed, the time up to the clock is
submitted, without the part of a millisecond that has gone by, and the sighting before it admits
that. When the same export is found running, nothing is. -/
theorem gate_opens_and_shuts : let s := Settings.sample "p/" "p/"
    let t : Turn JobTable :=
      { Turn.sample 0 .none with now := ⟨1704067200, 123456789, by decide, by decide⟩ }
    let running : Turn JobTable := { t with jobs := JobTable.empty.know "x" .inProgress }
    let started : Store :=
      .holding "b" [("p/a.started.manifest", Manifest.sampleText "x" "2023-01-01T00:00:00Z")]
    let window : Window := ⟨⟨1672531200, 0, by decide, by decide⟩,
      ⟨1704067200, 123000000, by decide, by decide⟩⟩
    (∃ (v : Sighting) (answer : Except JobFailure String) (after : List Event),
      t.events s Turn.completedPair = v.events s.bucket s.keyPrefix ++
        ⟨.submit (s.request window), answer⟩ :: after ∧ v.Admits s.epoch window ∧
      window.stop ≤ t.now ∧ t.now.nanos < window.stop.nanos + nanosPerMilli) ∧
    (∃ e ∈ running.events s started, e.call.isLookup = true) ∧
    ∀ e ∈ running.events s started, e.call.isSubmission = false := by
  intro s t running started window
  have hsubmitted : ((t.events s Turn.completedPair).any
      (·.call = .submit (s.request window))) = true := by
    decide +kernel
  have hlookup : ((running.events s started).any (·.call.isLookup)) = true := by
    decide +kernel
  obtain ⟨before, answer, after, hes⟩ := exists_split hsubmitted
  obtain ⟨-, v, w, rfl, hrequest, hadmits, -, hle, -, hnear, -⟩ :=
    (submission_gate s t.now _ t.cost t.limit _).2.2 _ _ _ _ hes
  obtain rfl : window = w := congrArg ExportRequest.window hrequest
  rw [List.any_eq_true] at hlookup
  exact ⟨⟨v, answer, after, hes, hadmits, hle, hnear⟩, hlookup,
    (submission_gate s running.now _ running.cost running.limit _).2.1 hlookup⟩

end Settings

end LedgerExport
