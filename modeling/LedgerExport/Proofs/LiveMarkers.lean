import LedgerExport.Proofs.Acceptances
import LedgerExport.Proofs.LookUps

/-!
# What an invocation goes by

Two stores may differ in all but the markers that lie under the prefix (`Settings.SameMarkers`), and
an invocation does not tell them apart until it has submitted a window. It sees the same markers
with the same bodies (`SameMarkers.readings_eq`), and so it sets out to do the same. What it is told
after that does not depend on anything else in the store: the moves into quarantine succeed in both,
and the service is asked the same questions in the same order (`traces_eq_of_gives`).
-/

namespace LedgerExport

open Time World

/-- The calls up to the first submission, and with it. -/
def Call.throughSubmission : List Call → List Call
  | [] => []
  | c :: rest => c :: if c.isSubmission then [] else throughSubmission rest

/-- Calls that submit nothing are all made before the first submission. -/
theorem Call.throughSubmission_append {calls rest : List Call}
    (h : ∀ c ∈ calls, c.isSubmission = false) :
    throughSubmission (calls ++ rest) = calls ++ throughSubmission rest := by
  induction calls with
  | nil => rfl
  | cons c calls ih =>
    obtain ⟨hc, hcalls⟩ := List.forall_mem_cons.1 h
    rw [List.cons_append, throughSubmission, hc, if_neg (by decide), ih hcalls, List.cons_append]

/-! ## The same answers -/

/-- A call of a move that has been granted: the object was copied, the copy found, or the object
deleted. -/
inductive Event.IsGranted : Event → Prop
  /-- The object was copied. -/
  | copy (bucket source destination : String) : IsGranted ⟨.copy bucket source destination, .ok ()⟩
  /-- The copy was found. -/
  | probe (bucket key : String) : IsGranted ⟨.probe bucket key, .ok true⟩
  /-- The object was deleted. -/
  | delete (bucket key : String) : IsGranted ⟨.delete bucket key, .ok ()⟩

/-- There is one answer that grants a call. -/
theorem Event.IsGranted.unique {c : Call} {x₁ x₂ : c.Answer} (h₁ : IsGranted ⟨c, x₁⟩)
    (h₂ : IsGranted ⟨c, x₂⟩) : x₁ = x₂ := by
  cases h₁ <;> cases h₂ <;> rfl

namespace World

open Program (Traces Gives)

variable {τ α : Type} {service : JobService τ} {w₁ w₂ w₁' w₂' : World τ} {es es₁ es₂ : List Event}

/-- What the service answers and its state afterwards depend on nothing but its state. -/
theorem respond_jobs (hjobs : w₁.jobs = w₂.jobs) (c : Call) :
    (respond service c w₁).2.jobs = (respond service c w₂).2.jobs ∧
      (c.isJob = true → (respond service c w₁).1 = (respond service c w₂).1) := by
  obtain ⟨store₁, jobs⟩ := w₁
  obtain ⟨store₂, _⟩ := w₂
  obtain rfl : jobs = _ := hjobs
  cases c with
  | describe | submit => exact ⟨rfl, fun _ => rfl⟩
  | _ => exact ⟨rfl, nofun⟩

/-- After the same events, the service is in the same state. -/
theorem jobs_eq (h₁ : Gives (respond service) w₁ es w₁') (h₂ : Gives (respond service) w₂ es w₂')
    (hjobs : w₁.jobs = w₂.jobs) : w₁'.jobs = w₂'.jobs := by
  induction h₁ generalizing w₂ with
  | nil w₁ =>
    cases h₂
    exact hjobs
  | cons c _ ih => exact ih h₂.of_cons.2 (respond_jobs hjobs c).1

/-- Two runs of a program with a service that is in the same state are the same if all other calls
are granted. -/
theorem traces_eq_of_gives {p : Program α} {a₁ a₂ : α} (h₁ : Traces p es₁ (some a₁))
    (h₂ : Traces p es₂ (some a₂)) (hgives₁ : Gives (respond service) w₁ es₁ w₁')
    (hgives₂ : Gives (respond service) w₂ es₂ w₂') (hjobs : w₁.jobs = w₂.jobs)
    (hgranted₁ : ∀ e ∈ es₁, e.call.isJob = true ∨ e.IsGranted)
    (hgranted₂ : ∀ e ∈ es₂, e.call.isJob = true ∨ e.IsGranted) : es₁ = es₂ ∧ a₁ = a₂ := by
  refine h₁.eq_of_agree h₂ fun before c x₁ x₂ after₁ after₂ heq₁ heq₂ => ?_
  subst heq₁ heq₂
  by_cases hc : c.isJob = true
  · -- The service was asked the same before, and so it is in the same state.
    obtain ⟨w, hbefore₁, hrest₁⟩ := Program.gives_append.1 hgives₁
    obtain ⟨w', hbefore₂, hrest₂⟩ := Program.gives_append.1 hgives₂
    rw [hrest₁.of_cons.1, hrest₂.of_cons.1]
    exact (respond_jobs (jobs_eq hbefore₁ hbefore₂ hjobs) c).2 hc
  · have hx₁ := (hgranted₁ _ List.mem_append_cons_self).resolve_left hc
    have hx₂ := (hgranted₂ _ List.mem_append_cons_self).resolve_left hc
    exact hx₁.unique hx₂

end World

namespace Settings

open Program (Traces Gives)

variable {τ : Type} {s : Settings} {service : JobService τ} {w₁ w₂ w₁' w₂' : World τ}
  {es es₁ es₂ : List Event}

/-- In a store without faults the moves into quarantine of markers that are there are granted. -/
theorem granted_of_checkRuns {m m' : Store} {running : List StartedMarker}
    {r : Except Failure (List RunCheck)} (h : Traces (s.checkRuns running).run es (some r))
    (hpasses : m.Passes Eq es m') (hfaults : m.faults = .none)
    (hnodup : (running.map (·.key)).Nodup) (hhas : ∀ x ∈ running, s.Has m x.key) :
    ∀ e ∈ es, e.call.isJob = true ∨ e.IsGranted := by
  have hlookUp (p : StartedMarker × Lookup) : ∀ e ∈ s.lookUp p, e.call.isJob = true ∨
      e.IsGranted := by
    obtain ⟨x, status | _⟩ := p
    · exact List.forall_mem_singleton.2 (.inl rfl)
    · have hcopy (e : Event) (he : e ∈ (s.quarantineOf x).carried s.bucket) : e.IsGranted := by
        rcases List.mem_cons.1 he with rfl | he
        · exact .copy ..
        rcases List.mem_cons.1 he with rfl | he
        · exact .probe ..
        · exact List.mem_singleton.1 he ▸ .delete ..
      exact List.forall_mem_cons.2 ⟨.inl rfl, fun e he => .inr (hcopy e he)⟩
  have hanswered (answered : List (StartedMarker × Lookup)) : ∀ e ∈ answered.flatMap s.lookUp,
      e.call.isJob = true ∨ e.IsGranted := fun e he => by
    obtain ⟨p, -, he⟩ := List.mem_flatMap.1 he
    exact hlookUp p e he
  obtain ⟨answered, -, ⟨-, rfl, -⟩ | ⟨x, rest, e, -, rfl, -⟩⟩ :=
    checkRuns_found h hpasses hfaults hnodup hhas
  · exact hanswered answered
  · refine fun e' he' => (List.mem_append.1 he').elim (hanswered answered e') fun hlast => .inl ?_
    rw [List.mem_singleton.1 hlast]
    rfl

/-- Two submissions to a service that is in the same state make the same request. If the service
refuses it, they end in the same way. -/
theorem submit_eq {plan : Plan} {r₁ r₂ : Except Failure Outcome}
    (h₁ : Traces (s.submit plan).run es₁ (some r₁)) (h₂ : Traces (s.submit plan).run es₂ (some r₂))
    (hgives₁ : Gives (World.respond service) w₁ es₁ w₁')
    (hgives₂ : Gives (World.respond service) w₂ es₂ w₂') (hjobs : w₁.jobs = w₂.jobs) :
    Call.throughSubmission (es₁.map (·.call)) = Call.throughSubmission (es₂.map (·.call)) ∧
      ((∀ e ∈ es₁, e.accepted? = none) → es₁ = es₂ ∧ r₁ = r₂) := by
  rw [submit] at h₁ h₂
  obtain ⟨answer, es₁, rfl, hrest₁⟩ := Traces.of_call_some (c := .submit (s.request plan.window)) h₁
  obtain ⟨answer', es₂, rfl, hrest₂⟩ :=
    Traces.of_call_some (c := .submit (s.request plan.window)) h₂
  refine ⟨rfl, fun hnone => ?_⟩
  have hsame : answer = answer' := by
    rw [hgives₁.of_cons.1, hgives₂.of_cons.1]
    exact (World.respond_jobs hjobs _).2 rfl
  subst hsame
  rcases answer with e | exportId
  · obtain ⟨rfl, hr₁⟩ := Traces.of_done hrest₁
    obtain ⟨rfl, hr₂⟩ := Traces.of_done hrest₂
    exact ⟨rfl, Option.some.inj (hr₁.trans hr₂.symm)⟩
  · cases hnone _ List.mem_cons_self

end Settings

/-! ## The same markers -/

/-- Two stores have the same markers directly under the prefix, and the markers of starts have the
same bodies. -/
structure Settings.SameMarkers (s : Settings) (m₁ m₂ : Store) : Prop where
  /-- The markers have the same keys. -/
  keys : ∀ key, Store.lists s.keyPrefix (some "/") key = true →
    (∃ x, Marker.classify? key = some x) →
      ((m₁.find? s.bucket key).isSome ↔ (m₂.find? s.bucket key).isSome)
  /-- The markers of starts have the same bodies. -/
  bodies : ∀ key, s.Watches key → m₁.find? s.bucket key = m₂.find? s.bucket key

namespace Settings.SameMarkers

variable {s : Settings} {m₁ m₂ : Store}

/-- A marker lies under the prefix in both stores or in neither. -/
theorem has_iff (h : s.SameMarkers m₁ m₂) {key : String} {x : Marker}
    (hx : Marker.classify? key = some x) : s.Has m₁ key ↔ s.Has m₂ key := by
  unfold Has
  refine and_congr_right fun hlists => ?_
  rw [← Option.isSome_iff_exists, ← Option.isSome_iff_exists]
  exact h.keys key hlists ⟨x, hx⟩

end Settings.SameMarkers

namespace Turn

variable {τ : Type} {s : Settings} {t : Turn τ} {m m₁ m₂ : Store} {v v₁ v₂ : Sighting}
  {es es₁ es₂ : List Event}

/-- The markers that are seen in a turn are in the order of their keys. -/
theorem sorted_among (kind : MarkerKind) (h : t.events s m = v.events s.bucket s.keyPrefix ++ es) :
    (Marker.among v.objects kind).Pairwise fun a b => a.key < b.key := by
  obtain ⟨m', hsight, -⟩ := Store.passes_append.1 (h ▸ t.passes s m)
  exact Sighting.sorted_among kind hsight

variable (h₁ : t.events s m₁ = v₁.events s.bucket s.keyPrefix ++ es₁)
  (h₂ : t.events s m₂ = v₂.events s.bucket s.keyPrefix ++ es₂) (hsame : s.SameMarkers m₁ m₂)

include h₁ h₂ hsame

/-- In stores with the same markers, the same markers are seen in the same order. -/
theorem among_eq (kind : MarkerKind) :
    Marker.among v₁.objects kind = Marker.among v₂.objects kind := by
  refine Survey.eq_of_sorted (sorted_among kind h₁) (sorted_among kind h₂) fun x => ?_
  rw [(reports h₁).mem_among trivial, (reports h₂).mem_among trivial]
  exact and_congr_right fun hclass => and_congr_right fun _ => hsame.has_iff hclass

/-- In stores with the same markers, the same bodies are read. -/
theorem readings_eq : v₁.readings = v₂.readings := by
  -- A reading is that of its marker's body in the store.
  have hread {m : Store} {v : Sighting} (h : v.Reports (fun _ => True) s m) :
      v.readings = (Marker.among v.objects .started).map fun x =>
        (x, (m.find? s.bucket x.key).getD .empty) := by
    rw [← v.starts, List.map_map]
    refine (List.map_id _).symm.trans (List.map_congr_left fun r hr => ?_)
    exact Prod.ext rfl (by simp [h.read r hr trivial])
  rw [hread (reports h₁), hread (reports h₂), among_eq h₁ h₂ hsame]
  refine List.map_congr_left fun x hx => ?_
  obtain ⟨hclass, hkind, hhas⟩ := ((reports h₂).mem_among trivial).1 hx
  rw [hsame.bodies x.key ⟨hhas.1, x, hclass, hkind⟩]

/-- In stores with the same markers, what is seen calls for the same. -/
theorem assess?_eq : v₁.assess? s t.now = v₂.assess? s t.now := by
  unfold Sighting.assess? Sighting.survey?
  rw [among_eq h₁ h₂ hsame, readings_eq h₁ h₂ hsame]

/-- In stores with the same markers, the same calls are made until all are seen. -/
theorem calls_events_eq : (v₁.events s.bucket s.keyPrefix).map (·.call) =
    (v₂.events s.bucket s.keyPrefix).map (·.call) := by
  simp only [Sighting.events, readings_eq h₁ h₂ hsame, List.map_cons, List.map_map,
    Function.comp_def]

omit h₁ h₂ hsame

open Program (Traces Gives) in
/-- In a turn without faults, the moves into quarantine are granted. -/
theorem granted {running : List StartedMarker} {blocking : List Marker}
    {r : Except Failure (List RunCheck)} (hfaults : t.faults = .none)
    (h : t.events s m = v.events s.bucket s.keyPrefix ++ es)
    (ha : v.assess? s t.now = .ok (.inProgress running blocking))
    (hchecks : Traces (s.checkRuns running).run es (some r))
    (hgives : Gives (World.respond t.service) (t.world m) es (t.course s m).state) :
    ∀ e ∈ es, e.call.isJob = true ∨ e.IsGranted := by
  rcases hv : v.survey? s.keyPrefix with f | survey <;> rw [Sighting.assess?, hv] at ha
  · cases ha
  obtain ⟨rfl, rfl, -⟩ := Survey.assess_inProgress ha
  have hunfinished := unfinished h hv
  exact Settings.granted_of_checkRuns hchecks (World.passes_of_gives hgives) hfaults
    (Survey.nodup_keys hunfinished.sorted_running) fun x hx =>
      Settings.EndsAt.has (m := m) ⟨x, ((hunfinished.mem_running x).1 hx).1, rfl, .inl rfl⟩

open Program (Traces Gives) in
/-- Turns without faults that set out to do the same make the same calls up to the submission. If no
window is accepted, they make the same calls to their end. -/
theorem carryOut_eq {a : Assessment} {r₁ r₂ : Except Failure Outcome} (hfaults : t.faults = .none)
    (h₁ : t.events s m₁ = v₁.events s.bucket s.keyPrefix ++ es₁)
    (h₂ : t.events s m₂ = v₂.events s.bucket s.keyPrefix ++ es₂)
    (ha₁ : v₁.assess? s t.now = .ok a) (ha₂ : v₂.assess? s t.now = .ok a)
    (hdo₁ : Traces (s.carryOut a).run es₁ (some r₁))
    (hdo₂ : Traces (s.carryOut a).run es₂ (some r₂))
    (hgives₁ : Gives (World.respond t.service) (t.world m₁) es₁ (t.course s m₁).state)
    (hgives₂ : Gives (World.respond t.service) (t.world m₂) es₂ (t.course s m₂).state) :
    Call.throughSubmission (es₁.map (·.call)) = Call.throughSubmission (es₂.map (·.call)) ∧
      ((∀ e ∈ es₁, e.accepted? = none) → es₁ = es₂ ∧ r₁ = r₂) := by
  cases a with
  | inProgress running blocking =>
    obtain ⟨r₁, hchecks₁, rfl⟩ := Traces.of_attempt_pure_some (x := s.checkRuns running) hdo₁
    obtain ⟨r₂, hchecks₂, rfl⟩ := Traces.of_attempt_pure_some (x := s.checkRuns running) hdo₂
    obtain ⟨rfl, rfl⟩ := World.traces_eq_of_gives hchecks₁ hchecks₂ hgives₁ hgives₂ rfl
      (granted hfaults h₁ ha₁ hchecks₁ hgives₁) (granted hfaults h₂ ha₂ hchecks₂ hgives₂)
    exact ⟨rfl, fun _ => ⟨rfl, rfl⟩⟩
  | ready plan => exact Settings.submit_eq hdo₁ hdo₂ hgives₁ hgives₂ rfl

/-- Without faults and without a limit, an invocation goes by the markers under the prefix and by
nothing else in the store. In two stores with the same markers it makes the same calls up to the
submission of a window; and if no window is accepted, it makes the same calls to its end and has the
same result. -/
theorem live_markers_decide (hfaults : t.faults = .none) (hlimit : t.limit = none)
    (hsame : s.SameMarkers m₁ m₂) :
    Call.throughSubmission (t.course s m₁).calls = Call.throughSubmission (t.course s m₂).calls ∧
      ((∀ e ∈ t.events s m₁, e.accepted? = none) →
        (t.course s m₁).calls = (t.course s m₂).calls ∧
        (t.course s m₁).result = (t.course s m₂).result) := by
  obtain ⟨r₁, v₁, es₁, hr₁, h₁, hgives₁, hends₁⟩ := sees (s := s) (m := m₁) hfaults hlimit
  obtain ⟨r₂, v₂, es₂, hr₂, h₂, hgives₂, hends₂⟩ := sees (s := s) (m := m₂) hfaults hlimit
  have hassess := assess?_eq h₁ h₂ hsame
  have hseen := calls_events_eq h₁ h₂ hsame
  have hreads : ∀ c ∈ (v₂.events s.bucket s.keyPrefix).map (·.call), c.isSubmission = false := by
    simpa using fun e he => (Call.reads_only (Sighting.isReading_of_mem_events he)).1
  -- What is done after the survey is the same as far as it matters.
  have hrest : Call.throughSubmission (es₁.map (·.call)) =
      Call.throughSubmission (es₂.map (·.call)) ∧
      ((∀ e ∈ es₁, e.accepted? = none) → es₁ = es₂ ∧ r₁ = r₂) := by
    rcases hends₁ with ⟨f, hf, rfl, rfl⟩ | ⟨a, ha₁, hdo₁⟩
    · rcases hends₂ with ⟨f', hf', rfl, rfl⟩ | ⟨a, ha₂, -⟩
      · obtain rfl := Except.error.inj (hf.symm.trans (hassess.trans hf'))
        exact ⟨rfl, fun _ => ⟨rfl, rfl⟩⟩
      · cases hf.symm.trans (hassess.trans ha₂)
    rcases hends₂ with ⟨f', hf', -⟩ | ⟨a', ha₂, hdo₂⟩
    · cases ha₁.symm.trans (hassess.trans hf')
    obtain rfl := Except.ok.inj (ha₁.symm.trans (hassess.trans ha₂))
    exact carryOut_eq hfaults h₁ h₂ ha₁ ha₂ hdo₁ hdo₂ hgives₁ hgives₂
  rw [calls_eq hlimit, calls_eq hlimit, h₁, h₂, List.map_append, List.map_append, hseen,
    Call.throughSubmission_append hreads, Call.throughSubmission_append hreads, hrest.1, hr₁, hr₂]
  refine ⟨rfl, fun hnone => ?_⟩
  obtain ⟨rfl, rfl⟩ := hrest.2 fun e he => hnone e (List.mem_append_right _ he)
  exact ⟨rfl, rfl⟩

/-- Two stores with given objects have the same markers if they have the same ones among the keys of
these objects. -/
theorem sameMarkers_of_holding {bucket : String} {objects₁ objects₂ : List (String × String)}
    (h : ∀ key ∈ (objects₁ ++ objects₂).map (·.1),
      Store.lists s.keyPrefix (some "/") key = true → ∀ x ∈ Marker.classify? key,
        ((Store.holding bucket objects₁).find? s.bucket key).isSome =
          ((Store.holding bucket objects₂).find? s.bucket key).isSome ∧
        (x.kind = .started → (Store.holding bucket objects₁).find? s.bucket key =
          (Store.holding bucket objects₂).find? s.bucket key)) :
    s.SameMarkers (.holding bucket objects₁) (.holding bucket objects₂) := by
  -- Neither store has an object with another key.
  have hnone {objects : List (String × String)} {key : String}
      (hmem : key ∉ objects.map (·.1)) : (Store.holding bucket objects).find? s.bucket key = none :=
    Option.eq_none_iff_forall_ne_some.2 fun _ hbody => hmem (Store.mem_of_holding hbody).2
  have hsame (key : String) (hlists : Store.lists s.keyPrefix (some "/") key = true) {x : Marker}
      (hx : Marker.classify? key = some x) :
      ((Store.holding bucket objects₁).find? s.bucket key).isSome =
          ((Store.holding bucket objects₂).find? s.bucket key).isSome ∧
        (x.kind = .started → (Store.holding bucket objects₁).find? s.bucket key =
          (Store.holding bucket objects₂).find? s.bucket key) := by
    by_cases hmem : key ∈ (objects₁ ++ objects₂).map (·.1)
    · exact h key hmem hlists x hx
    · rw [List.map_append, List.mem_append, not_or] at hmem
      rw [hnone hmem.1, hnone hmem.2]
      exact ⟨rfl, fun _ => rfl⟩
  refine ⟨fun key hlists ⟨x, hx⟩ => ?_, fun key ⟨hlists, x, hx, hkind⟩ => ?_⟩
  · rw [(hsame key hlists hx).1]
  · exact (hsame key hlists hx).2 hkind

/-- One export that has started and one that has completed. -/
def tidyObjects : List (String × String) :=
  [("p/a.started.manifest", Manifest.sampleText "x" "2023-01-01T00:00:00Z"),
    ("p/b.started.manifest", Manifest.sampleText "y" "2023-01-01T05:00:00Z"),
    ("p/b.completed.manifest", "")]

/-- The same markers among other objects, namely data, markers in quarantine and in the archive, and
a marker elsewhere; and another body of the marker of completion. -/
def clutteredObjects : List (String × String) :=
  ("p/failed/p/a.started.manifest", "old") :: ("p/data.ion", "data") ::
    ("p/completed/2023/01/01/00/c.started.manifest", "old") :: ("q/d.started.manifest", "") ::
    tidyObjects ++ [("p/b.completed.manifest", "done")]

/-- The export that the service does not know is put into quarantine in both stores, by the same
calls. -/
theorem clutter_ignored : let s := Settings.sample "p/" "p/"
    let t := sample 0 .none
    let tidy : Store := .holding "b" tidyObjects
    let cluttered : Store := .holding "b" clutteredObjects
    t.faults = .none ∧ t.limit = none ∧ s.SameMarkers tidy cluttered ∧
    (∀ e ∈ t.events s tidy, e.accepted? = none) ∧
    (t.course s tidy).calls = (t.course s cluttered).calls ∧
    (t.course s tidy).result = (t.course s cluttered).result ∧
    .copy "b" "p/a.started.manifest" "p/failed/p/a.started.manifest" ∈
      (t.course s cluttered).calls := by
  intro s t tidy cluttered
  have hsame : s.SameMarkers tidy cluttered := sameMarkers_of_holding (by decide +kernel)
  have hevents : ((t.events s tidy).all (·.accepted? = none) && (t.events s tidy).any
      (·.call = .copy "b" "p/a.started.manifest" "p/failed/p/a.started.manifest")) = true := by
    unfold events Settings.invoke Survey.take
    rw [Survey.ofReadings_eq_inOrder]
    decide +kernel
  obtain ⟨hnone, hcopied⟩ := Bool.and_eq_true_iff.1 hevents
  have hnone : ∀ e ∈ t.events s tidy, e.accepted? = none := by simpa using hnone
  obtain ⟨hcalls, hresult⟩ := (live_markers_decide (t := t) rfl rfl hsame).2 hnone
  refine ⟨rfl, rfl, hsame, hnone, hcalls, hresult, ?_⟩
  obtain ⟨e, he, hcall⟩ := List.any_eq_true.1 hcopied
  rw [← hcalls, calls_eq rfl, ← of_decide_eq_true hcall]
  exact List.mem_map_of_mem he

end Turn

end LedgerExport
