import LedgerExport.Proofs.FaultFree
import LedgerExport.Proofs.Warrants

/-!
# Looking up exports in a store without faults

What an invocation does in a store that does nothing wrong while some exports have not completed.
It sees what the store has (`traces_found`), and then it looks up one export after the other. A
look-up that is answered either changes nothing or moves the marker into quarantine
(`LooksUp.answered`); no such move touches a marker that is still to be looked up, and so the
look-ups come to what their answers say, up to the first that fails (`checkRuns_found`).
`in_progress_exact` puts this together.
-/

namespace LedgerExport

open Time World

/-! ## What is seen -/

/-- What a sighting calls for. -/
def Sighting.assess? (s : Settings) (now : Instant) (v : Sighting) : Except Failure Assessment :=
  v.survey? s.keyPrefix >>= fun survey => survey.assess now.cutToMillis s.epoch s.layout

namespace Settings

open Program (Traces)

variable {s : Settings} {now : Instant} {m m₁ m' : Store} {es : List Event}

/-- Without faults all keys are listed and all markers are read, so only their bodies can be the
reason why there is no survey. -/
theorem survey?_of_fails {f : Failure} (h : Survey.Fails s.bucket s.keyPrefix es f)
    (hpasses : m.Passes Eq es m') (hread : ∀ e ∈ es, e.call.isReading = true)
    (hfaults : m.faults = .none) :
    ∃ v : Sighting, es = v.events s.bucket s.keyPrefix ∧ v.survey? s.keyPrefix = .error f := by
  have hanswers {e : Event} (he : e ∈ es) : m.Answers e m :=
    hpasses.answers_of_mem (fun e he => Call.isChange_of_isReading (hread e he)) he
  cases h with
  | listing hlist => cases (hanswers hlist).lists_all hfaults
  | reading hlist hmarker hget =>
    -- What was listed is there.
    obtain rfl := (hanswers hlist).listed
    obtain ⟨o, ho, hkey⟩ := (Marker.mem_among.1 hmarker).2.2
    obtain ⟨-, body, hbody, -⟩ := Store.mem_listing.1 ho
    cases (hanswers hget).reads hfaults (hkey ▸ hbody)
  | allMalformed hes hv => exact ⟨_, hes, hv⟩

/-- Without faults an invocation that is not cut short sees something, and then it does what that
calls for or fails if it calls for nothing. -/
theorem traces_found {r : Except Failure Outcome} (h : Traces (s.invoke now).run es (some r))
    (hpasses : m.Passes Eq es m') (hfaults : m.faults = .none) :
    ∃ (v : Sighting) (es' : List Event), es = v.events s.bucket s.keyPrefix ++ es' ∧
      ((∃ f, v.assess? s now = .error f ∧ es' = [] ∧ r = .error f) ∨
        ∃ a, v.assess? s now = .ok a ∧ Traces (s.carryOut a).run es' (some r)) := by
  rcases traces_invoke h with ⟨hread, hstalls⟩ | ⟨v, survey, a, es', rfl, hv, ha, hdo⟩
  · obtain ⟨f, rfl, hfails | ⟨v, survey, rfl, hv, ha⟩⟩ := hstalls r rfl
    · obtain ⟨v, rfl, hv⟩ := survey?_of_fails hfails hpasses hread hfaults
      exact ⟨v, [], (List.append_nil _).symm, .inl ⟨f, by rw [Sighting.assess?, hv]; rfl, rfl, rfl⟩⟩
    · exact ⟨v, [], (List.append_nil _).symm, .inl ⟨f, by rw [Sighting.assess?, hv]; exact ha,
        rfl, rfl⟩⟩
  · exact ⟨v, es', rfl, .inr ⟨a, by rw [Sighting.assess?, hv]; exact ha, hdo⟩⟩

/-! ## Markers in quarantine -/

/-- The store differs only in that these markers have moved into quarantine with their bodies. -/
structure SetsAside (s : Settings) (m m' : Store) (gone : StartedMarker → Prop) : Prop where
  /-- No such marker is at its key any more. -/
  source : ∀ x, gone x → m'.find? s.bucket x.key = none
  /-- Its body is in quarantine. -/
  moved : ∀ x, gone x →
    m'.find? s.bucket (s.layout.root ++ "failed/" ++ x.key) = m.find? s.bucket x.key
  /-- Nothing else has changed. -/
  frame : ∀ bucket key, (∀ x, gone x → bucket = s.bucket →
    key ≠ x.key ∧ key ≠ s.layout.root ++ "failed/" ++ x.key) →
    m'.find? bucket key = m.find? bucket key

namespace SetsAside

variable {P Q : StartedMarker → Prop}

/-- Without a move nothing changes. -/
theorem refl (s : Settings) (m : Store) (hnone : ∀ x, ¬P x) : s.SetsAside m m P :=
  ⟨fun x hx => absurd hx (hnone x), fun x hx => absurd hx (hnone x), fun _ _ _ => rfl⟩

/-- It does not matter how the markers are described. -/
theorem congr (h : s.SetsAside m m' P) (hiff : ∀ x, P x ↔ Q x) : s.SetsAside m m' Q :=
  ⟨fun x hx => h.source x ((hiff x).2 hx), fun x hx => h.moved x ((hiff x).2 hx),
    fun bucket key hother => h.frame bucket key fun x hx => hother x ((hiff x).1 hx)⟩

/-- What does not move is where it was. -/
theorem find?_of_lists (h : s.SetsAside m m' P) {key : String}
    (hkey : Store.lists s.keyPrefix (some "/") key = true)
    (hlists : ∀ x, P x → Store.lists s.keyPrefix (some "/") x.key = true)
    (hne : ∀ x, P x → key ≠ x.key) : m'.find? s.bucket key = m.find? s.bucket key :=
  h.frame _ _ fun x hx _ => ⟨hne x hx, Store.ne_of_lists hkey
    (Layout.not_lists_quarantineKey (l := s.layout) (hlists x hx))⟩

/-- Markers that move one after the other have all moved if they are different and were listed. -/
theorem trans (h₁ : s.SetsAside m m₁ P) (h₂ : s.SetsAside m₁ m' Q)
    (hapart : ∀ x y, P x → Q y → x.key ≠ y.key)
    (hlists : ∀ x, P x ∨ Q x → Store.lists s.keyPrefix (some "/") x.key = true) :
    s.SetsAside m m' fun x => P x ∨ Q x := by
  have hlists₁ : ∀ x, P x → Store.lists s.keyPrefix (some "/") x.key = true :=
    fun x hx => hlists x (.inl hx)
  have hlists₂ : ∀ x, Q x → Store.lists s.keyPrefix (some "/") x.key = true :=
    fun x hx => hlists x (.inr hx)
  refine ⟨fun x hx => ?_, fun x hx => ?_, fun bucket key hother => ?_⟩
  · rcases hx with hx | hx
    · rw [h₂.find?_of_lists (hlists₁ x hx) hlists₂ fun y hy => hapart x y hx hy, h₁.source x hx]
    · exact h₂.source x hx
  · rcases hx with hx | hx
    · -- The later moves neither start nor end where the earlier one ended.
      have hplace := Layout.not_lists_quarantineKey (l := s.layout) (hlists₁ x hx)
      rw [← h₁.moved x hx]
      refine h₂.frame s.bucket (s.layout.quarantineKey x.key) fun y hy _ => ⟨?_, fun heq => ?_⟩
      · exact (Store.ne_of_lists (hlists₂ y hy) hplace).symm
      · exact hapart x y hx hy (Layout.quarantineKey_inj (l := s.layout) heq)
    · rw [h₂.moved x hx]
      exact h₁.find?_of_lists (hlists₂ x hx) hlists₁ fun y hy => (hapart y x hy hx).symm
  · rw [h₂.frame bucket key fun x hx => hother x (.inr hx),
      h₁.frame bucket key fun x hx => hother x (.inl hx)]

end SetsAside

/-! ## Look-ups -/

/-- The calls of a look-up with this answer, when the marker is there. -/
def lookUp (s : Settings) (x : StartedMarker × Lookup) : List Event :=
  ⟨.describe s.ledger x.1.manifest.exportId, .ok x.2⟩ ::
    match x.2 with
    | .found _ => []
    | .unknown => (s.quarantineOf x.1).carried s.bucket

/-- What is told of an export for which this is the answer. -/
def check (s : Settings) (x : StartedMarker × Lookup) : RunCheck where
  markerKey := x.1.key
  exportId := some x.1.manifest.exportId
  state :=
    match x.2 with
    | .found status => .running status
    | .unknown => .quarantined (s.layout.quarantineKey x.1.key)

/-- Without faults a look-up that is answered tells of the export, and it moves the marker into
quarantine just when the service does not know the export. -/
theorem LooksUp.answered {x : StartedMarker} {r' : Option (Except Failure RunCheck)}
    (h : s.LooksUp x es r') {r : Except Failure RunCheck} (hr : r' = some r)
    (hpasses : m.Passes Eq es m') (hfaults : m.faults = .none) (hhas : s.Has m x.key) :
    (∃ e, es = [⟨.describe s.ledger x.manifest.exportId, .error e⟩] ∧
      r = .error (.lookup x.manifest.exportId e) ∧ m' = m) ∨
    ∃ answer, es = s.lookUp (x, answer) ∧ r = .ok (s.check (x, answer)) ∧
      s.SetsAside m m' fun y => y = x ∧ answer = .unknown := by
  cases h with
  | stopped => cases hr
  | failed e =>
    have hsame := hpasses.eq_of_isChange (List.forall_mem_singleton.2 rfl)
    exact .inl ⟨e, rfl, (Option.some.inj hr).symm, hsame⟩
  | found status =>
    obtain rfl := hpasses.eq_of_isChange (List.forall_mem_singleton.2 rfl)
    exact .inr ⟨.found status, rfl, (Option.some.inj hr).symm, .refl s m' (by simp)⟩
  | @unknown es moved hmove =>
    obtain ⟨m₁, hdescribe, hpasses₁⟩ := hpasses.of_cons
    obtain rfl := hdescribe.eq_of_isChange rfl
    obtain ⟨moved, rfl, rfl⟩ := Option.map_eq_some_iff.1 hr
    obtain ⟨hlists, body, hbody⟩ := hhas
    obtain ⟨rfl, rfl, hm'⟩ := Move.relocate_found hmove hpasses₁ hfaults hbody
    refine .inr ⟨.unknown, rfl, rfl, ?_, ?_, fun bucket key hother => ?_⟩
    · rintro _ ⟨rfl, -⟩
      exact (hm' _ _).trans (if_pos ⟨rfl, rfl⟩)
    · rintro _ ⟨rfl, -⟩
      have hne := Store.ne_of_lists hlists (Layout.not_lists_quarantineKey (l := s.layout) hlists)
      rw [hbody]
      exact (hm' _ _).trans ((if_neg fun heq => hne heq.2).trans (if_pos ⟨rfl, rfl⟩))
    · rw [hm', if_neg, if_neg]
      · rintro ⟨rfl, rfl⟩
        exact (hother x ⟨rfl, rfl⟩ rfl).2 rfl
      · rintro ⟨rfl, rfl⟩
        exact (hother x ⟨rfl, rfl⟩ rfl).1 rfl

/-- Without faults look-ups of different markers that are there come to what the answers say, up to
the first that fails. -/
theorem checkRuns_found {running : List StartedMarker} {r : Except Failure (List RunCheck)}
    (h : Traces (s.checkRuns running).run es (some r)) (hpasses : m.Passes Eq es m')
    (hfaults : m.faults = .none) (hnodup : (running.map (·.key)).Nodup)
    (hhas : ∀ x ∈ running, s.Has m x.key) :
    ∃ answered : List (StartedMarker × Lookup),
      s.SetsAside m m' (fun x => (x, .unknown) ∈ answered) ∧
      ((running = answered.map (·.1) ∧ es = answered.flatMap s.lookUp ∧
        r = .ok (answered.map s.check)) ∨
      ∃ x rest e, running = answered.map (·.1) ++ x :: rest ∧
        es = answered.flatMap s.lookUp ++ [⟨.describe s.ledger x.manifest.exportId, .error e⟩] ∧
        r = .error (.lookup x.manifest.exportId e)) := by
  induction running generalizing m es r with
  | nil =>
    obtain ⟨rfl, hr⟩ := Traces.of_done h
    cases hpasses
    exact ⟨[], .refl s _ (by simp), .inl ⟨rfl, rfl, Option.some.inj hr⟩⟩
  | cons x rest ih =>
    rw [List.map_cons, List.nodup_cons] at hnodup
    have hx := hhas x List.mem_cons_self
    rcases traces_checkRuns_cons h with
      ⟨f, rfl, hfails⟩ | ⟨es₁, check, es₂, r', rfl, hok, hmore, rfl⟩
    · rcases hfails.answered rfl hpasses hfaults hx with ⟨e, rfl, hf, rfl⟩ | ⟨answer, -, hf, -⟩
      · obtain rfl := Except.error.inj hf
        exact ⟨[], .refl s m' (by simp), .inr ⟨x, rest, e, rfl, rfl, rfl⟩⟩
      · cases hf
    obtain ⟨m₁, hpasses₁, hpasses₂⟩ := Store.passes_append.1 hpasses
    rcases hok.answered rfl hpasses₁ hfaults hx with ⟨e, -, hf, -⟩ | ⟨answer, rfl, hcheck, haside⟩
    · cases hf
    obtain rfl := Except.ok.inj hcheck
    have hne {y : StartedMarker} (hy : y ∈ rest) : x.key ≠ y.key := fun heq =>
      hnodup.1 (heq ▸ List.mem_map_of_mem (f := (·.key)) hy)
    -- The marker that may have moved is none of the others, and neither is its place.
    have hrest : ∀ y ∈ rest, s.Has m₁ y.key := fun y hy => by
      obtain ⟨hlists, body, hbody⟩ := hhas y (List.mem_cons_of_mem x hy)
      refine ⟨hlists, body, (haside.find?_of_lists hlists ?_ ?_).trans hbody⟩
      · rintro _ ⟨rfl, -⟩
        exact hx.1
      · rintro _ ⟨rfl, -⟩
        exact (hne hy).symm
    obtain ⟨answered, haside', hend⟩ :=
      ih hmore hpasses₂ (hpasses₁.faults_eq.trans hfaults) hnodup.2 hrest
    have hmem {y : StartedMarker} (hy : (y, Lookup.unknown) ∈ answered) : y ∈ rest := by
      have hfirst : y ∈ answered.map (·.1) := List.mem_map_of_mem (f := (·.1)) hy
      rcases hend with ⟨rfl, -⟩ | ⟨z, rest', e, rfl, -⟩
      · exact hfirst
      · exact List.mem_append_left _ hfirst
    refine ⟨(x, answer) :: answered, (haside.trans haside' ?_ ?_).congr fun y => ?_, ?_⟩
    · rintro _ y ⟨rfl, -⟩ hy
      exact hne (hmem hy)
    · rintro y (⟨rfl, -⟩ | hy)
      · exact hx.1
      · exact (hhas y (List.mem_cons_of_mem x (hmem hy))).1
    · rw [List.mem_cons, Prod.mk.injEq, eq_comm (a := answer)]
    · rcases hend with ⟨rfl, rfl, rfl⟩ | ⟨z, rest', e, rfl, rfl, rfl⟩
      · exact .inl ⟨rfl, rfl, rfl⟩
      · exact .inr ⟨z, rest', e, rfl, by simp, rfl⟩

end Settings

/-! ## Answers of the service -/

namespace Settings

variable {s : Settings}

/-- The call that looks up the export of a start. -/
def lookUpCall (s : Settings) (x : StartedMarker) : Call :=
  .describe s.ledger x.manifest.exportId

/-- Of the calls of look-ups that are answered, those that look up an export are one for each. -/
theorem lookUps_of_answered (s : Settings) (answered : List (StartedMarker × Lookup)) :
    ((answered.flatMap s.lookUp).map (·.call)).filter (·.isLookup) =
      answered.map fun p => s.lookUpCall p.1 := by
  induction answered with
  | nil => rfl
  | cons p rest ih =>
    obtain ⟨x, status | _⟩ := p <;>
      simpa [lookUp, lookUpCall, Move.carried, Move.verified, Call.isLookup] using ih

end Settings


namespace World

variable {τ : Type} {service : JobService τ} {w w' : World τ} {es : List Event}

/-- What a world answers is what its store answers. -/
theorem passes_of_gives (h : Program.Gives (respond service) w es w') :
    w.store.Passes Eq es w'.store := by
  induction h with
  | nil w => exact .nil w.store
  | cons c _ ih => exact .cons rfl (answers_respond service c _) ih

/-- A call that reads leaves a world as it is. -/
theorem respond_of_isReading {c : Call} (hc : c.isReading = true) :
    (respond service c w).2 = w := by
  have hstore := (answers_respond service c w).eq_of_isChange (Call.isChange_of_isReading hc)
  obtain ⟨store, jobs⟩ := w
  cases c with
  | list | get => exact congrArg (World.mk · jobs) hstore
  | _ => cases hc

/-- Calls that read leave a world as it is. -/
theorem eq_of_reads (h : Program.Gives (respond service) w es w')
    (hes : ∀ e ∈ es, e.call.isReading = true) : w' = w := by
  induction h with
  | nil w => rfl
  | cons c _ ih =>
    obtain ⟨hc, hes⟩ := List.forall_mem_cons.1 hes
    rw [ih hes, respond_of_isReading hc]

/-- A look-up of a ledger is answered by the table, and other calls of the store leave the service
alone. -/
theorem respond_of_table {ledger : String} {table : String → Except JobFailure Lookup} {jobs : τ}
    (htable : ∀ exportId, service.describe ledger exportId jobs = (table exportId, jobs)) {c : Call}
    (hc : c.isJob = true → ∃ exportId, c = .describe ledger exportId) (hjobs : w.jobs = jobs) :
    (respond service c w).2.jobs = jobs ∧ ∀ exportId answer,
      (⟨.describe ledger exportId, answer⟩ : Event) = ⟨c, (respond service c w).1⟩ →
        answer = table exportId := by
  cases c with
  | describe ledger' exportId =>
    obtain ⟨exportId', heq⟩ := hc rfl
    obtain ⟨rfl, rfl⟩ := Call.describe.inj heq
    have hanswer : service.describe ledger' exportId w.jobs = (table exportId, jobs) :=
      hjobs ▸ htable exportId
    refine ⟨congrArg Prod.snd hanswer, fun exportId' answer heq => ?_⟩
    cases heq
    exact congrArg Prod.fst hanswer
  | submit => exact nomatch hc rfl
  | _ => exact ⟨hjobs, nofun⟩

/-- The service answers as a table does when it neither changes nor accepts anything. -/
theorem answers_of_table {ledger : String} {table : String → Except JobFailure Lookup} {jobs : τ}
    (h : Program.Gives (respond service) w es w')
    (htable : ∀ exportId, service.describe ledger exportId jobs = (table exportId, jobs))
    (hes : ∀ e ∈ es, e.call.isJob = true → ∃ exportId, e.call = .describe ledger exportId)
    (hjobs : w.jobs = jobs) :
    w'.jobs = jobs ∧ ∀ exportId answer, (⟨.describe ledger exportId, answer⟩ : Event) ∈ es →
      answer = table exportId := by
  induction h with
  | nil w => exact ⟨hjobs, by simp⟩
  | @cons c w w' es hrest ih =>
    obtain ⟨hfirst, hes⟩ := List.forall_mem_cons.1 hes
    have hstep := respond_of_table htable hfirst hjobs
    obtain ⟨hjobs', hanswers⟩ := ih hes hstep.1
    refine ⟨hjobs', fun exportId answer hmem => ?_⟩
    rcases List.mem_cons.1 hmem with heq | hmem
    · exact hstep.2 exportId answer heq
    · exact hanswers exportId answer hmem

end World

/-- Look-ups are answered as the table of exports says. -/
theorem Settings.answers_of_checkRuns {τ : Type} {s : Settings} {service : JobService τ}
    {w w' : World τ} {running : List StartedMarker} {es : List Event}
    {r : Option (Except Failure (List RunCheck))} {table : String → Except JobFailure Lookup}
    (h : Program.Traces (s.checkRuns running).run es r)
    (hgives : Program.Gives (World.respond service) w es w')
    (htable : ∀ exportId, service.describe s.ledger exportId w.jobs = (table exportId, w.jobs)) :
    ∀ exportId answer, (⟨.describe s.ledger exportId, answer⟩ : Event) ∈ es →
      answer = table exportId := by
  refine (World.answers_of_table hgives htable (fun e he hjob => ?_) rfl).2
  obtain ⟨x, -, hcall | ⟨hmakes, -⟩⟩ := traces_checkRuns h e he
  · exact ⟨_, hcall⟩
  · rw [hmakes.isJob] at hjob
    cases hjob

/-! ## Turns -/

/-- A list has one first element that does not satisfy `P`. -/
theorem split_unique {α : Type} {P : α → Prop} {l l' r r' : List α} {a b : α}
    (h : l ++ a :: r = l' ++ b :: r') (hl : ∀ x ∈ l, P x) (ha : ¬P a) (hl' : ∀ x ∈ l', P x)
    (hb : ¬P b) : l = l' ∧ a = b := by
  induction l generalizing l' with
  | nil =>
    cases l' with
    | nil => exact ⟨rfl, (List.cons.inj h).1⟩
    | cons c l' => exact absurd ((List.cons.inj h).1 ▸ hl' c List.mem_cons_self) ha
  | cons c l ih =>
    cases l' with
    | nil => exact absurd ((List.cons.inj h).1 ▸ hl c List.mem_cons_self) hb
    | cons c' l' =>
      obtain ⟨rfl, htail⟩ := List.cons.inj h
      obtain ⟨rfl, rfl⟩ := ih htail (fun x hx => hl x (List.mem_cons_of_mem c hx))
        fun x hx => hl' x (List.mem_cons_of_mem c hx)
      exact ⟨rfl, rfl⟩

/-- The starts without a marker of completion, in the order of their keys: those with a manifest
and those without. -/
structure Settings.Unfinished (s : Settings) (m : Store) (running : List StartedMarker)
    (blocking : List Marker) : Prop where
  /-- The former have a manifest and no marker of completion. -/
  mem_running : ∀ x, x ∈ running ↔ s.Starts m x ∧ ¬∃ c, s.Completes m x.group c
  /-- The latter have neither. -/
  mem_blocking : ∀ x, x ∈ blocking ↔ s.StartsUnreadable m x ∧ ¬∃ c, s.Completes m x.group c
  /-- The former are in the order of their keys. -/
  sorted_running : running.Pairwise fun x y => x.key < y.key
  /-- The latter are in the order of their keys. -/
  sorted_blocking : blocking.Pairwise fun x y => x.key < y.key

/-- The starts without a marker of completion are known by the store. -/
theorem Settings.Unfinished.unique {s : Settings} {m : Store}
    {running running' : List StartedMarker} {blocking blocking' : List Marker}
    (h : s.Unfinished m running blocking)
    (h' : s.Unfinished m running' blocking') : running = running' ∧ blocking = blocking' :=
  ⟨Survey.eq_of_sorted h.sorted_running h'.sorted_running fun x =>
      (h.mem_running x).trans (h'.mem_running x).symm,
    Survey.eq_of_sorted h.sorted_blocking h'.sorted_blocking fun x =>
      (h.mem_blocking x).trans (h'.mem_blocking x).symm⟩

/-- A survey of the store has the starts without a marker of completion. -/
theorem Sighting.Reports.unfinished {s : Settings} {v : Sighting} {m : Store} {survey : Survey}
    (h : v.Reports (fun _ => True) s m) (hv : v.survey? s.keyPrefix = .ok survey)
    (hsorted : survey.Sorted) : s.Unfinished m survey.running survey.blocking := by
  have hcompleted {group : String} :
      survey.hasCompleted group = true ↔ ∃ c, s.Completes m group c := by
    rw [h.hasCompleted_iff hv]
    exact ⟨fun ⟨c, hclass, hkind, hhas, hgroup⟩ => ⟨c, hclass, hkind, hgroup, hhas⟩,
      fun ⟨c, hc⟩ => ⟨c, hc.classified, hc.kind, hc.has, hc.group_eq⟩⟩
  refine ⟨fun x => ?_, fun x => ?_, hsorted.started.filter _, hsorted.unreadable.filter _⟩
  · rw [Survey.running, List.mem_filter, h.mem_started_iff hv, ← hcompleted]
    simp
  · rw [Survey.blocking, List.mem_filter, h.mem_unreadable_iff hv, ← hcompleted]
    simp

/-- A survey that has been taken has the starts without a marker of completion. -/
theorem Settings.unfinished_of_take {τ : Type} {s : Settings} {service : JobService τ} {w : World τ}
    {survey : Survey} (h : ((Survey.take s.bucket s.keyPrefix).run.run
      (World.respond service) w).1 = .ok survey) :
    s.Unfinished w.store survey.running survey.blocking := by
  have htrace := Program.traces_eventsFrom (World.respond service) (fun _ => 0) none
    (Survey.take s.bucket s.keyPrefix).run w 0
  rw [(Program.runFrom_none ..).1, h] at htrace
  obtain ⟨v, hes, hv⟩ := (Survey.traces_take htrace).2.1 survey rfl
  have hpasses := World.passes_of_gives (Program.gives_eventsFrom (World.respond service)
    (fun _ => 0) none (Survey.take s.bucket s.keyPrefix).run w 0)
  rw [hes] at hpasses
  have hreports := (Sighting.reports_of_passes (P := fun _ => True) Turn.agree_of_eq hpasses).1
  exact hreports.unfinished hv (Sighting.sorted_survey hpasses hv)

namespace Turn

open Program (Traces)

variable {τ : Type} {s : Settings} {t : Turn τ} {m : Store} {v : Sighting} {es : List Event}

/-- Without a limit, all calls of a turn are answered. -/
theorem calls_eq (hlimit : t.limit = none) :
    (t.course s m).calls = (t.events s m).map (·.call) := by
  unfold course events Program.runWithin
  rw [hlimit]
  exact Program.calls_runFrom_none ..

/-- The survey of what is seen in a turn has the starts of the store without a marker of
completion. -/
theorem unfinished {survey : Survey} (hes : t.events s m = v.events s.bucket s.keyPrefix ++ es)
    (hv : v.survey? s.keyPrefix = .ok survey) :
    s.Unfinished m survey.running survey.blocking := by
  obtain ⟨m₁, hsight, -⟩ := Store.passes_append.1 (hes ▸ t.passes s m)
  exact (reports hes).unfinished hv (Sighting.sorted_survey hsight hv)

/-- Without faults and without a limit, a turn sees what the store has; until then the world stays
as it is. Then it does what that calls for, or it fails if it calls for nothing. -/
theorem sees (hfaults : t.faults = .none) (hlimit : t.limit = none) :
    ∃ (r : Except Failure Outcome) (v : Sighting) (es : List Event),
      (t.course s m).result = some r ∧ t.events s m = v.events s.bucket s.keyPrefix ++ es ∧
      Program.Gives (World.respond t.service) (t.world m) es (t.course s m).state ∧
      ((∃ f, v.assess? s t.now = .error f ∧ es = [] ∧ r = .error f) ∨
        ∃ a, v.assess? s t.now = .ok a ∧ Traces (s.carryOut a).run es (some r)) := by
  obtain ⟨r, hr⟩ := Option.isSome_iff_exists.1 (isSome_result (s := s) (m := m) hlimit)
  have htrace : Traces (s.invoke t.now).run (t.events s m) (some r) :=
    hr ▸ Program.traces_eventsFrom ..
  obtain ⟨v, es, hes, hends⟩ := Settings.traces_found htrace (t.passes s m) hfaults
  have hgives : Program.Gives (World.respond t.service) (t.world m) (t.events s m)
      (t.course s m).state := Program.gives_eventsFrom ..
  rw [hes] at hgives
  obtain ⟨w, hsight, hrest⟩ := Program.gives_append.1 hgives
  have hsame : w = t.world m :=
    World.eq_of_reads hsight fun e he => Sighting.isReading_of_mem_events he
  exact ⟨r, v, es, hr, hes, hsame ▸ hrest, hends⟩

/-- When some export has not completed and some start has a manifest, what is seen calls for
look-ups. -/
theorem assess?_of_unfinished {running : List StartedMarker} {blocking : List Marker}
    (hes : t.events s m = v.events s.bucket s.keyPrefix ++ es)
    (h : s.Unfinished m running blocking)
    (hsome : running ≠ [] ∨ blocking ≠ [] ∧ ∃ x, s.Starts m x) :
    v.assess? s t.now = .ok (.inProgress running blocking) := by
  have hstarts : ∃ x, s.Starts m x := by
    rcases hsome with hrunning | ⟨-, hx⟩
    · obtain ⟨x, hx⟩ := List.exists_mem_of_ne_nil running hrunning
      exact ⟨x, ((h.mem_running x).1 hx).1⟩
    · exact hx
  obtain ⟨x, hx⟩ := hstarts
  obtain ⟨body, hbody, hmanifest⟩ := hx.manifest
  have hread : (x.marker, body) ∈ v.readings :=
    ((reports hes).mem_readings trivial).2 ⟨hx.classified, hx.kind, hx.lists, hbody⟩
  obtain ⟨survey, hv⟩ := Survey.exists_ofReadings
    (List.mem_map.2 ⟨_, hread, by rw [hmanifest]⟩ :
      (x.marker, .ok x.manifest) ∈ v.readings.map fun r => (r.1, Manifest.ofBytes r.2))
    s.keyPrefix (Marker.among v.objects .completed)
  have hv : v.survey? s.keyPrefix = .ok survey := hv
  obtain ⟨rfl, rfl⟩ := h.unique (unfinished hes hv)
  rw [Sighting.assess?, hv]
  exact Survey.assess_of_unfinished (hsome.imp_right fun hblocking => hblocking.1)

section InProgress

variable {running : List StartedMarker} {blocking : List Marker}
  {table : String → Except JobFailure Lookup}

/-- Without faults and without a limit, a turn in which some export has not completed looks up the
exports one after the other, up to the first that the table fails to tell of. -/
theorem looks_up (hfaults : t.faults = .none) (hlimit : t.limit = none)
    (htable : ∀ exportId, t.service.describe s.ledger exportId t.jobs = (table exportId, t.jobs))
    (h : s.Unfinished m running blocking)
    (hsome : running ≠ [] ∨ blocking ≠ [] ∧ ∃ x, s.Starts m x) :
    ∃ answered : List (StartedMarker × Lookup),
      (∀ p ∈ answered, table p.1.manifest.exportId = .ok p.2) ∧
      s.SetsAside m (t.after s m) (fun x => (x, .unknown) ∈ answered) ∧
      ((running = answered.map (·.1) ∧
        (t.course s m).result = some (.ok (.inProgress
          (answered.map s.check ++ blocking.map (⟨·.key, none, .unreadable⟩)))) ∧
        (t.course s m).calls.filter (·.isLookup) = running.map s.lookUpCall) ∨
      ∃ x rest e, running = answered.map (·.1) ++ x :: rest ∧
        table x.manifest.exportId = .error e ∧
        (t.course s m).result = some (.error (.lookup x.manifest.exportId e)) ∧
        (t.course s m).calls.filter (·.isLookup) =
          (answered.map (·.1) ++ [x]).map s.lookUpCall) := by
  obtain ⟨r, v, es, hr, hes, hgives, hends⟩ := sees (s := s) (m := m) hfaults hlimit
  have hassess := assess?_of_unfinished hes h hsome
  obtain ⟨f, hf, -⟩ | ⟨a, ha, hdo⟩ := hends
  · cases hassess.symm.trans hf
  obtain rfl := Except.ok.inj (hassess.symm.trans ha)
  obtain ⟨r', hchecks, rfl⟩ := Traces.of_attempt_pure_some (x := s.checkRuns running) hdo
  -- The markers are there and have different keys.
  have hnodup : (running.map (·.key)).Nodup := Survey.nodup_keys h.sorted_running
  have hhas : ∀ x ∈ running, s.Has (t.world m).store x.key := fun x hx =>
    Settings.EndsAt.has (m := m) ⟨x, ((h.mem_running x).1 hx).1, rfl, .inl rfl⟩
  obtain ⟨answered, haside, hend⟩ := Settings.checkRuns_found hchecks
    (World.passes_of_gives hgives) hfaults hnodup hhas
  have haside : s.SetsAside m (t.after s m) fun x => (x, .unknown) ∈ answered :=
    ⟨haside.source, haside.moved, haside.frame⟩
  have hanswers := Settings.answers_of_checkRuns hchecks hgives htable
  have hok : ∀ p ∈ answered, ∀ es', es = answered.flatMap s.lookUp ++ es' →
      table p.1.manifest.exportId = .ok p.2 := fun p hp es' hes' => by
    refine (hanswers _ _ (hes' ▸ List.mem_append_left _ ?_)).symm
    exact List.mem_flatMap.2 ⟨p, hp, List.mem_cons_self⟩
  have hseen : ((v.events s.bucket s.keyPrefix).map (·.call)).filter (·.isLookup) = [] := by
    simpa using fun e he => (Call.reads_only (Sighting.isReading_of_mem_events he)).2
  rw [calls_eq hlimit, hes, List.map_append, List.filter_append, hseen, List.nil_append]
  rcases hend with ⟨hrunning, rfl, rfl⟩ | ⟨x, rest, e, hrunning, rfl, rfl⟩
  · refine ⟨answered, fun p hp => hok p hp [] (by simp), haside, .inl ⟨hrunning, hr, ?_⟩⟩
    rw [Settings.lookUps_of_answered, hrunning, List.map_map]
    rfl
  · refine ⟨answered, fun p hp => hok p hp _ rfl, haside, .inr ⟨x, rest, e, hrunning, ?_, hr, ?_⟩⟩
    · exact (hanswers _ _ (List.mem_append_right _ (List.mem_singleton_self _))).symm
    · rw [List.map_append, List.filter_append, Settings.lookUps_of_answered, List.map_append,
        List.map_map]
      rfl

/-- Without faults and without a limit, a turn in which some export has not completed looks up the
exports with a readable marker in the order of the keys. If the table tells of all of them, it tells
of them and then of the unreadable markers, and it has moved just the markers of unknown exports
into quarantine. Otherwise it fails at the first export of which the table does not tell: it has
looked up those before it, and it has moved the markers of the unknown ones among them. -/
theorem in_progress_exact (hfaults : t.faults = .none) (hlimit : t.limit = none)
    (htable : ∀ exportId, t.service.describe s.ledger exportId t.jobs = (table exportId, t.jobs))
    (h : s.Unfinished m running blocking)
    (hsome : running ≠ [] ∨ blocking ≠ [] ∧ ∃ x, s.Starts m x) :
    let told (x : StartedMarker) : Except JobFailure Lookup := table x.manifest.exportId
    let lookUps : List Call := (t.course s m).calls.filter (·.isLookup)
    (∀ answer : StartedMarker → Lookup, (∀ x ∈ running, told x = .ok (answer x)) →
      (t.course s m).result = some (.ok (.inProgress
        (running.map (fun x => s.check (x, answer x)) ++
          blocking.map (⟨·.key, none, .unreadable⟩)))) ∧
      lookUps = running.map s.lookUpCall ∧
      s.SetsAside m (t.after s m) fun x => x ∈ running ∧ told x = .ok .unknown) ∧
    ∀ done x rest e, running = done ++ x :: rest → (∀ y ∈ done, ∃ answer, told y = .ok answer) →
      told x = .error e →
      (t.course s m).result = some (.error (.lookup x.manifest.exportId e)) ∧
      lookUps = (done ++ [x]).map s.lookUpCall ∧
      s.SetsAside m (t.after s m) fun y => y ∈ done ∧ told y = .ok .unknown := by
  intro told lookUps
  obtain ⟨answered, hok, haside, hend⟩ := looks_up hfaults hlimit htable h hsome
  have hok : ∀ p ∈ answered, told p.1 = .ok p.2 := hok
  have hokay : ∀ x ∈ answered.map (·.1), ∃ answer, told x = .ok answer := by
    simpa using fun x answer hx => ⟨answer, hok _ hx⟩
  have hset (x : StartedMarker) :
      (x, .unknown) ∈ answered ↔ x ∈ answered.map (·.1) ∧ told x = .ok .unknown := by
    refine ⟨fun hx => ⟨List.mem_map_of_mem (f := (·.1)) hx, hok _ hx⟩, fun ⟨hx, hunknown⟩ => ?_⟩
    obtain ⟨⟨y, answer⟩, hy, rfl⟩ := List.mem_map.1 hx
    obtain rfl : answer = .unknown := Except.ok.inj ((hok _ hy).symm.trans hunknown)
    exact hy
  refine ⟨fun answer hanswer => ?_, fun done x rest e hrunning hdone hx => ?_⟩
  · rcases hend with ⟨rfl, hresult, hcalls⟩ | ⟨x, rest, e, rfl, hx, -⟩
    · have hanswered : answered = (answered.map (·.1)).map fun x => (x, answer x) := by
        rw [List.map_map]
        refine (List.map_id answered).symm.trans (List.map_congr_left fun p hp => ?_)
        have hp' := hanswer p.1 (List.mem_map_of_mem (f := (·.1)) hp)
        exact Prod.ext rfl (Except.ok.inj ((hok p hp).symm.trans hp'))
      refine ⟨?_, hcalls, haside.congr hset⟩
      rw [hresult]
      nth_rewrite 1 [hanswered]
      rw [List.map_map]
      rfl
    · have hnot := hanswer x (List.mem_append_right _ List.mem_cons_self)
      exact nomatch hx.symm.trans hnot
  · rcases hend with ⟨rfl, -⟩ | ⟨y, rest', e', hrunning', hy, hresult, hcalls⟩
    · obtain ⟨answer, hanswer⟩ := hokay x (hrunning ▸ List.mem_append_right _ List.mem_cons_self)
      exact nomatch hx.symm.trans hanswer
    · -- The list of exports has one first export of which the table does not tell.
      obtain ⟨rfl, rfl⟩ := split_unique (P := fun x => ∃ answer, told x = .ok answer)
        (hrunning.symm.trans hrunning') hdone (by simp [hx])
        hokay (by simp [told, hy])
      obtain rfl : e = e' := Except.error.inj (hx.symm.trans hy)
      exact ⟨hresult, hcalls, haside.congr hset⟩

end InProgress

/-- Three exports that have started, the last with a marker that is no manifest. -/
def threeStarts : Store := .holding "b"
  [("p/a.started.manifest", Manifest.sampleText "x" "2023-01-01T00:00:00Z"),
    ("p/b.started.manifest", Manifest.sampleText "y" "2023-01-01T05:00:00Z"),
    ("p/c.started.manifest", "")]

/-- Looking up an export does not change a table of exports. -/
theorem describe_table (exportId : String) (jobs : JobTable) :
    JobTable.describe exportId jobs = ((JobTable.describe exportId jobs).1, jobs) := by
  unfold JobTable.describe
  split <;> rfl

/-- None of the three has completed. -/
theorem three_starts_unfinished : ∃ x y z,
    (Settings.sample "p/" "p/").Unfinished threeStarts [x, y] [z] ∧
    x.manifest.exportId = "x" ∧ y.manifest.exportId = "y" := by
  let w : World JobTable := ⟨threeStarts, .empty⟩
  have hlists : ((Survey.take "b" "p/").run.run (World.respond JobTable.service) w).1.map
      (fun survey => (survey.running.map (·.manifest.exportId), survey.blocking.length)) =
        .ok (["x", "y"], 1) := by
    unfold Survey.take
    rw [Survey.ofReadings_eq_inOrder]
    decide +kernel
  rcases htake : ((Survey.take "b" "p/").run.run (World.respond JobTable.service) w).1 with
    e | survey <;> rw [htake] at hlists
  · cases hlists
  obtain ⟨hids, hlength⟩ := Prod.mk.inj (Except.ok.inj hlists)
  obtain ⟨x, rest, hrunning, hx, hrest⟩ := List.map_eq_cons_iff.1 hids
  obtain ⟨y, rest, rfl, hy, hnil⟩ := List.map_eq_cons_iff.1 hrest
  obtain rfl := List.map_eq_nil_iff.1 hnil
  obtain ⟨z, hblocking⟩ := List.length_eq_one_iff.1 hlength
  have hunfinished := Settings.unfinished_of_take (s := Settings.sample "p/" "p/") htake
  rw [hrunning, hblocking] at hunfinished
  exact ⟨x, y, z, hunfinished, hx, hy⟩

/-- When the first of the exports is unknown and the second is known, the marker of the first moves;
so it does when the second cannot be looked up. -/
theorem mixed_in_progress : let s := Settings.sample "p/" "p/"
    let known : Turn JobTable :=
      { sample 0 .none with jobs := JobTable.empty.know "y" .inProgress }
    let failing : Turn JobTable :=
      { sample 0 .none with jobs := JobTable.empty.failLookup "y" (.request "down") }
    ∃ x y z, s.Unfinished threeStarts [x, y] [z] ∧
      ((known.course s threeStarts).result = some (.ok (.inProgress [s.check (x, .unknown),
        s.check (y, .found .inProgress), ⟨z.key, none, .unreadable⟩])) ∧
        s.SetsAside threeStarts (known.after s threeStarts) fun u => u = x) ∧
      (failing.course s threeStarts).result =
        some (.error (.lookup y.manifest.exportId (.request "down"))) ∧
      s.SetsAside threeStarts (failing.after s threeStarts) fun u => u = x := by
  intro s known failing
  obtain ⟨x, y, z, hunfinished, hx, hy⟩ := three_starts_unfinished
  have hsome : [x, y] ≠ [] ∨ [z] ≠ [] ∧ ∃ u, s.Starts threeStarts u := .inl nofun
  have hne : y ≠ x := fun heq => by simp [heq, hx] at hy
  -- What the tables tell of the two exports.
  have hx₁ : (JobTable.describe x.manifest.exportId known.jobs).1 = .ok .unknown := by
    rw [hx]
    decide
  have hy₁ : (JobTable.describe y.manifest.exportId known.jobs).1 = .ok (.found .inProgress) := by
    rw [hy]
    decide
  have hx₂ : (JobTable.describe x.manifest.exportId failing.jobs).1 = .ok .unknown := by
    rw [hx]
    decide
  have hy₂ : (JobTable.describe y.manifest.exportId failing.jobs).1 = .error (.request "down") := by
    rw [hy]
    decide
  obtain ⟨hresult, -, haside⟩ := (in_progress_exact (t := known) rfl rfl
    (fun exportId => describe_table exportId known.jobs) hunfinished hsome).1
    (fun u => if u = x then .unknown else .found .inProgress) (by simp [hx₁, hy₁, hne])
  obtain ⟨hfailed, -, haside'⟩ := (in_progress_exact (t := failing) rfl rfl
    (fun exportId => describe_table exportId failing.jobs) hunfinished hsome).2 [x] y []
    (.request "down") rfl (by simp [hx₂]) hy₂
  refine ⟨x, y, z, hunfinished, ⟨?_, haside.congr fun u => ?_⟩, hfailed, haside'.congr fun u => ?_⟩
  · simpa [hne] using hresult
  · refine ⟨fun ⟨hu, hunknown⟩ => ?_, ?_⟩
    · rcases List.mem_cons.1 hu with rfl | hu
      · rfl
      · obtain rfl := List.mem_singleton.1 hu
        exact nomatch hy₁.symm.trans hunknown
    · rintro rfl
      exact ⟨List.mem_cons_self, hx₁⟩
  · refine ⟨fun hu => List.mem_singleton.1 hu.1, ?_⟩
    rintro rfl
    exact ⟨List.mem_singleton_self u, hx₂⟩

end Turn

end LedgerExport
