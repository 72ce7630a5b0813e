import LedgerExport.Proofs.LookUps

/-!
# Taking surveys

What a survey says when nothing changes while it is taken. A responder then shows one listing and
one body for each key (`Responder.Shows`), and the survey is made from these (`Survey.run_take`). It
has every marker of the listing just once, in the list where it belongs and in the order of the keys
(`Survey.Partitions`), so that there is only one such survey, whatever the order of the listing.
Only the markers of starts are read, one after the other (`Survey.calls_take`).
-/

namespace LedgerExport

open World
open Program (Gives Traces)

/-! ## What is shown -/

namespace Responder

/-- As long as it is only asked to list and to read, the responder lists these objects under the
prefix and has these bodies. -/
structure Shows {σ : Type} (respond : Responder σ) (x : σ) (bucket keyPrefix : String)
    (objects : List ObjectSummary) (bodies : String → Except StoreFailure ByteArray) : Prop where
  /-- It lists the objects. -/
  listing : ∀ {es : List Event} {x' : σ}, Gives respond x es x' →
    (∀ e ∈ es, e.call.isReading = true) →
    (respond (.list bucket keyPrefix (some "/")) x').1 = .ok objects
  /-- It has the bodies. -/
  body : ∀ {es : List Event} {x' : σ}, Gives respond x es x' →
    (∀ e ∈ es, e.call.isReading = true) → ∀ key, (respond (.get bucket key) x').1 = bodies key

namespace Shows

variable {σ : Type} {respond : Responder σ} {x x' : σ} {bucket keyPrefix : String}
  {objects : List ObjectSummary} {bodies : String → Except StoreFailure ByteArray}
  {es : List Event}

/-- Each answer that is given among readings is that of a state to which readings have led. -/
theorem exists_state (hgives : Gives respond x es x') (hes : ∀ e ∈ es, e.call.isReading = true)
    {c : Call} {answer : c.Answer} (hmem : (⟨c, answer⟩ : Event) ∈ es) :
    ∃ (before : List Event) (y : σ), Gives respond x before y ∧
      (∀ e ∈ before, e.call.isReading = true) ∧ answer = (respond c y).1 := by
  obtain ⟨before, after, rfl⟩ := List.append_of_mem hmem
  obtain ⟨y, hbefore, hrest⟩ := Program.gives_append.1 hgives
  exact ⟨before, y, hbefore, fun e he => hes e (List.mem_append_left _ he), hrest.of_cons.1⟩

/-- Among readings, the objects are listed. -/
theorem listed (h : respond.Shows x bucket keyPrefix objects bodies)
    (hgives : Gives respond x es x') (hes : ∀ e ∈ es, e.call.isReading = true)
    {answer : Except StoreFailure (List ObjectSummary)}
    (hmem : (⟨.list bucket keyPrefix (some "/"), answer⟩ : Event) ∈ es) : answer = .ok objects := by
  obtain ⟨before, y, hbefore, hreads, rfl⟩ := exists_state hgives hes hmem
  exact h.listing hbefore hreads

/-- Among readings, the bodies are read. -/
theorem read (h : respond.Shows x bucket keyPrefix objects bodies)
    (hgives : Gives respond x es x') (hes : ∀ e ∈ es, e.call.isReading = true) {key : String}
    {answer : Except StoreFailure ByteArray}
    (hmem : (⟨.get bucket key, answer⟩ : Event) ∈ es) : answer = bodies key := by
  obtain ⟨before, y, hbefore, hreads, rfl⟩ := exists_state hgives hes hmem
  exact h.body hbefore hreads key

end Shows

end Responder

/-- A responder that shows these objects and bodies and does nothing. -/
def Responder.showing (objects : List ObjectSummary)
    (bodies : String → Except StoreFailure ByteArray) : Responder Unit
  | .list .., _ => (.ok objects, ())
  | .get _ key, _ => (bodies key, ())
  | .copy .., _ => (.ok (), ())
  | .delete .., _ => (.ok (), ())
  | .probe .., _ => (.ok false, ())
  | .describe .., _ => (.ok .unknown, ())
  | .submit .., _ => (.error (.request "down"), ())

/-- That is what it shows. -/
theorem Responder.shows_showing (bucket keyPrefix : String) (objects : List ObjectSummary)
    (bodies : String → Except StoreFailure ByteArray) :
    (showing objects bodies).Shows () bucket keyPrefix objects bodies :=
  ⟨fun _ _ => rfl, fun _ _ _ => rfl⟩

/-- A world that can be listed shows what its store has. -/
theorem World.shows {τ : Type} (service : JobService τ) (w : World τ) (bucket keyPrefix : String)
    (hfault : w.store.fault? .list bucket keyPrefix = none) :
    Responder.Shows (respond service) w bucket keyPrefix
      (w.store.listing bucket keyPrefix (some "/")) fun key => (w.store.get bucket key).1 where
  listing hgives hes := by
    rw [eq_of_reads hgives hes]
    show (w.store.list bucket keyPrefix (some "/")).1 = _
    rw [Store.list, hfault]
  body hgives hes key := by
    rw [eq_of_reads hgives hes]
    rfl

namespace Survey

variable {bucket keyPrefix : String} {objects objects' : List ObjectSummary}
  {bodies : String → Except StoreFailure ByteArray} {body : String → ByteArray} {es : List Event}

/-! ## The survey of what is shown -/

/-- What its body makes of a marker. -/
def decoded (body : String → ByteArray) (marker : Marker) :
    Marker × Except ManifestError Manifest :=
  (marker, Manifest.ofBytes (body marker.key))

/-- What reading the marker gives. -/
def reading? (bodies : String → Except StoreFailure ByteArray) (marker : Marker) :
    Except Failure (Marker × Except ManifestError Manifest) := do
  let body ← (bodies marker.key).mapError .store
  return (marker, Manifest.ofBytes body)

/-- The survey of a listing and of the bodies. -/
def ofShown (keyPrefix : String) (objects : List ObjectSummary)
    (bodies : String → Except StoreFailure ByteArray) : Except Failure Survey := do
  let readings ← (Marker.among objects .started).mapM (reading? bodies)
  ofReadings keyPrefix (Marker.among objects .completed) readings

/-- The reading of markers reads them in their order, and none of them twice. -/
theorem calls_readAll {markers : List Marker}
    {r : Option (Except Failure (List (Marker × Except ManifestError Manifest)))}
    (h : Traces (readAll bucket markers).run es r) :
    es.map (·.call) <+: markers.map fun m => .get bucket m.key := by
  induction markers generalizing es r with
  | nil =>
    obtain ⟨rfl, -⟩ := Traces.of_done h
    exact List.nil_prefix
  | cons marker rest ih =>
    rw [readAll] at h
    rcases Traces.of_call (c := .get bucket marker.key) h with ⟨rfl, -⟩ | ⟨answer, es, rfl, hget⟩
    · exact List.nil_prefix
    refine List.cons_prefix_cons.2 ⟨rfl, ?_⟩
    rcases answer with e | body
    · obtain ⟨rfl, -⟩ := Traces.of_done hget
      exact List.nil_prefix
    · obtain ⟨r', hrest, -⟩ := Traces.of_attempt_pure (x := readAll bucket rest) hget
      exact ih hrest

/-- The reading of markers gives what reading each of them gives, up to the first that fails. -/
theorem readAll_eq {markers : List Marker}
    {r : Except Failure (List (Marker × Except ManifestError Manifest))}
    (h : Traces (readAll bucket markers).run es (some r))
    (hread : ∀ key answer, (⟨.get bucket key, answer⟩ : Event) ∈ es → answer = bodies key) :
    r = markers.mapM (reading? bodies) := by
  induction markers generalizing es r with
  | nil => exact Option.some.inj (Traces.of_done h).2
  | cons marker rest ih =>
    rw [readAll] at h
    obtain ⟨answer, es, rfl, hget⟩ := Traces.of_call_some (c := .get bucket marker.key) h
    have hanswer : answer = bodies marker.key := hread _ _ List.mem_cons_self
    rw [List.mapM_cons, reading?, ← hanswer]
    rcases answer with e | body
    · exact Option.some.inj (Traces.of_done hget).2
    · obtain ⟨r', hrest, rfl⟩ := Traces.of_attempt_pure_some (x := readAll bucket rest) hget
      obtain rfl := ih hrest fun key answer hmem => hread key answer (List.mem_cons_of_mem _ hmem)
      rfl

/-- Taking a survey lists the objects and then reads the markers of starts in their order. -/
theorem calls_take {r : Option (Except Failure Survey)}
    (h : Traces (take bucket keyPrefix).run es r)
    (hlist : ∀ answer, (⟨.list bucket keyPrefix (some "/"), answer⟩ : Event) ∈ es →
      answer = .ok objects) :
    es.map (·.call) <+: .list bucket keyPrefix (some "/") ::
      (Marker.among objects .started).map fun m => .get bucket m.key := by
  rw [take] at h
  rcases Traces.of_call (c := .list bucket keyPrefix (some "/")) h with
    ⟨rfl, -⟩ | ⟨answer, es, rfl, hrest⟩
  · exact List.nil_prefix
  obtain rfl := hlist answer List.mem_cons_self
  refine List.cons_prefix_cons.2 ⟨rfl, ?_⟩
  rcases Traces.of_attempt hrest with ⟨-, hall⟩ | ⟨f, -, hall⟩ | ⟨es₁, rs, es₂, rfl, hall, hend⟩
  · exact calls_readAll hall
  · exact calls_readAll hall
  · -- Nothing is asked once all markers have been read.
    obtain ⟨rfl, -⟩ := Traces.of_done hend
    rw [List.append_nil]
    exact calls_readAll hall

/-- A survey that has been taken is that of what is shown. -/
theorem take_eq {r : Except Failure Survey} (h : Traces (take bucket keyPrefix).run es (some r))
    (hlist : ∀ answer, (⟨.list bucket keyPrefix (some "/"), answer⟩ : Event) ∈ es →
      answer = .ok objects)
    (hread : ∀ key answer, (⟨.get bucket key, answer⟩ : Event) ∈ es → answer = bodies key) :
    r = ofShown keyPrefix objects bodies := by
  rw [take] at h
  obtain ⟨answer, es, rfl, hrest⟩ :=
    Traces.of_call_some (c := .list bucket keyPrefix (some "/")) h
  obtain rfl := hlist answer List.mem_cons_self
  have hreads : ∀ key answer, (⟨.get bucket key, answer⟩ : Event) ∈ es → answer = bodies key :=
    fun key answer hmem => hread key answer (List.mem_cons_of_mem _ hmem)
  rcases Traces.of_attempt hrest with ⟨hr, -⟩ | ⟨f, hr, hall⟩ | ⟨es₁, rs, es₂, rfl, hall, hend⟩
  · cases hr
  · have hfails : .error f = (Marker.among objects .started).mapM (reading? bodies) :=
      readAll_eq hall hreads
    rw [ofShown, ← hfails]
    exact Option.some.inj hr
  · have hall : .ok rs = (Marker.among objects .started).mapM (reading? bodies) :=
      readAll_eq hall fun key answer hmem => hreads key answer (List.mem_append_left _ hmem)
    rw [ofShown, ← hall]
    exact Option.some.inj (Traces.of_done hend).2

section Run

variable {σ : Type} {respond : Responder σ} {x : σ}
  (h : respond.Shows x bucket keyPrefix objects bodies)

include h

/-- The survey that is taken is that of what is shown. -/
theorem run_take :
    ((take bucket keyPrefix).run.run respond x).1 = ofShown keyPrefix objects bodies := by
  have htrace := Program.traces_eventsFrom respond (fun _ => 0) none (take bucket keyPrefix).run x 0
  have hgives := Program.gives_eventsFrom respond (fun _ => 0) none (take bucket keyPrefix).run x 0
  have hreads := (traces_take htrace).1
  rw [(Program.runFrom_none ..).1] at htrace
  exact take_eq htrace (fun _ => h.listed hgives hreads) fun _ _ => h.read hgives hreads

/-- However long its calls take and wherever it is cut short, the taking of a survey lists the
objects and then reads the markers of starts in their order. -/
theorem calls_runWithin_take (cost : Call → Nat) (limit : Option Nat) :
    ((take bucket keyPrefix).run.runWithin respond cost limit x).calls <+:
      .list bucket keyPrefix (some "/") ::
        (Marker.among objects .started).map fun m => .get bucket m.key := by
  have htrace := Program.traces_eventsFrom respond cost none (take bucket keyPrefix).run x 0
  have hgives := Program.gives_eventsFrom respond cost none (take bucket keyPrefix).run x 0
  have hcalls := calls_take htrace fun _ => h.listed hgives (traces_take htrace).1
  rw [← Program.calls_runFrom_none] at hcalls
  exact (Program.calls_runFrom_prefix ..).trans hcalls

end Run

/-- When each marker is read, so are all. -/
theorem mapM_reading? {markers : List Marker}
    (h : ∀ m ∈ markers, bodies m.key = .ok (body m.key)) :
    markers.mapM (reading? bodies) = .ok (markers.map (decoded body)) := by
  induction markers with
  | nil => rfl
  | cons m rest ih =>
    obtain ⟨hm, hrest⟩ := List.forall_mem_cons.1 h
    rw [List.mapM_cons, ih hrest, reading?, hm]
    rfl

/-- When some marker cannot be read, the first of them decides. -/
theorem mapM_reading?_fails {markers : List Marker} {m : Marker} {e : StoreFailure}
    (hm : m ∈ markers) (he : bodies m.key = .error e) :
    ∃ before first after e', markers = before ++ first :: after ∧
      (∀ x ∈ before, ∃ body, bodies x.key = .ok body) ∧ bodies first.key = .error e' ∧
      markers.mapM (reading? bodies) = .error (.store e') := by
  induction markers with
  | nil => cases hm
  | cons x rest ih =>
    rcases hx : bodies x.key with e' | body
    · refine ⟨[], x, rest, e', rfl, by simp, hx, ?_⟩
      rw [List.mapM_cons, reading?, hx]
      rfl
    · have hrest : m ∈ rest := by
        rcases List.mem_cons.1 hm with rfl | hrest
        · exact nomatch hx.symm.trans he
        · exact hrest
      obtain ⟨before, first, after, e', rfl, hbefore, hfirst, hfails⟩ := ih hrest
      refine ⟨x :: before, first, after, e', rfl, ?_, hfirst, ?_⟩
      · exact List.forall_mem_cons.2 ⟨⟨body, hx⟩, hbefore⟩
      · rw [List.mapM_cons, hfails, reading?, hx]
        rfl

/-- When the markers of starts are read, the survey is that of the readings. -/
theorem ofShown_readable
    (h : ∀ m ∈ Marker.among objects .started, bodies m.key = .ok (body m.key)) :
    ofShown keyPrefix objects bodies = ofReadings keyPrefix (Marker.among objects .completed)
      ((Marker.among objects .started).map (decoded body)) := by
  rw [ofShown, mapM_reading? h]
  rfl

/-! ## The markers of a listing -/

/-- A listing in another order has the same markers. -/
theorem among_perm (h : objects.Perm objects') (kind : MarkerKind) :
    (Marker.among objects kind).Perm (Marker.among objects' kind) :=
  (h.filterMap _).filter _

/-- The markers of a listing of different keys have different keys. -/
theorem nodup_among (h : (objects.map (·.key)).Nodup) (kind : MarkerKind) :
    ((Marker.among objects kind).map (·.key)).Nodup :=
  (nodup_filterMap (fun _ _ => Marker.key_of_classify?) h).sublist (List.filter_sublist.map _)

/-- There are markers of starts, and no body of them is a manifest. -/
def AllMalformed (objects : List ObjectSummary) (body : String → ByteArray) : Prop :=
  Marker.among objects .started ≠ [] ∧
    ∀ m ∈ Marker.among objects .started, ∃ e, Manifest.ofBytes (body m.key) = .error e

/-- It does not depend on the order of the listing. -/
theorem allMalformed_perm (body : String → ByteArray) (h : objects'.Perm objects) :
    AllMalformed objects' body ↔ AllMalformed objects body := by
  have hstarts := among_perm h .started
  unfold AllMalformed
  rw [Ne, Ne, ← List.length_eq_zero_iff, ← List.length_eq_zero_iff, hstarts.length_eq]
  exact and_congr_right' (forall_congr' fun m => by rw [hstarts.mem_iff])

/-- The survey has the markers of the listing and no others, each once in the list where it belongs,
in the order of their keys. -/
structure Partitions (objects : List ObjectSummary) (body : String → ByteArray) (s : Survey) :
    Prop where
  /-- The markers of starts whose body is a manifest are listed with it. -/
  mem_started : ∀ m, m ∈ s.started ↔ m.marker ∈ Marker.among objects .started ∧
    Manifest.ofBytes (body m.key) = .ok m.manifest
  /-- The markers of completions are listed. -/
  mem_completed : ∀ m, m ∈ s.completed ↔ m ∈ Marker.among objects .completed
  /-- The markers of starts whose body is no manifest are listed apart. -/
  mem_unreadable : ∀ m, m ∈ s.unreadable ↔ m ∈ Marker.among objects .started ∧
    ∃ e, Manifest.ofBytes (body m.key) = .error e
  /-- Each list is in the order of the keys, and has no key twice. -/
  sorted : s.Sorted

/-- There is only one such survey, whatever the order of the listing. -/
theorem Partitions.eq_of_perm {s s' : Survey} (h : s.Partitions objects body)
    (h' : s'.Partitions objects' body) (hperm : objects'.Perm objects) : s' = s := by
  have hamong (kind : MarkerKind) (m : Marker) :
      m ∈ Marker.among objects' kind ↔ m ∈ Marker.among objects kind :=
    (among_perm hperm kind).mem_iff
  have hstarted : s'.started = s.started :=
    eq_of_sorted h'.sorted.started h.sorted.started fun m => by
      rw [h.mem_started, h'.mem_started, hamong]
  have hcompleted : s'.completed = s.completed :=
    eq_of_sorted h'.sorted.completed h.sorted.completed fun m => by
      rw [h.mem_completed, h'.mem_completed, hamong]
  have hunreadable : s'.unreadable = s.unreadable :=
    eq_of_sorted h'.sorted.unreadable h.sorted.unreadable fun m => by
      rw [h.mem_unreadable, h'.mem_unreadable, hamong]
  obtain ⟨⟩ := s
  obtain ⟨⟩ := s'
  rw [Survey.mk.injEq]
  exact ⟨hstarted, hcompleted, hunreadable⟩

/-- A survey of readings of the markers of a listing has each of them in the list where it belongs,
once and in order. -/
theorem partitions_ofReadings {s : Survey} (hkeys : (objects.map (·.key)).Nodup)
    (h : ofReadings keyPrefix (Marker.among objects .completed)
      ((Marker.among objects .started).map (decoded body)) = .ok s) :
    s.Partitions objects body := by
  have hsorts := sorts_ofReadings h
  have hread (m : Marker) (r : Except ManifestError Manifest) :
      (m, r) ∈ (Marker.among objects .started).map (decoded body) ↔
        m ∈ Marker.among objects .started ∧ Manifest.ofBytes (body m.key) = r := by
    simp [decoded]
  have hstarts : (((Marker.among objects .started).map (decoded body)).map (·.1.key)).Nodup := by
    rw [List.map_map]
    exact nodup_among hkeys .started
  refine ⟨fun m => ?_, fun m => hsorts.completed.mem_iff, fun m => ?_,
    sorted_ofReadings h (nodup_among hkeys .completed) hstarts⟩
  · rw [hsorts.mem_started, hread]
    rfl
  · simp only [hsorts.mem_unreadable, hread, exists_and_left]

/-- Unless all markers of starts are malformed, there is a survey of what their bodies are. -/
theorem exists_survey (h : ¬AllMalformed objects body) (completed : List Marker) :
    ∃ survey, ofReadings keyPrefix completed
      ((Marker.among objects .started).map (decoded body)) = .ok survey := by
  by_cases hnil : Marker.among objects .started = []
  · rw [hnil]
    exact ⟨_, rfl⟩
  · obtain ⟨m, hm, hbody⟩ : ∃ m ∈ Marker.among objects .started,
        ∀ e, Manifest.ofBytes (body m.key) ≠ .error e := by
      simpa [AllMalformed, hnil] using h
    rcases hmanifest : Manifest.ofBytes (body m.key) with e | manifest
    · exact absurd hmanifest (hbody e)
    · have hmem := List.mem_map_of_mem (f := decoded body) hm
      rw [decoded, hmanifest] at hmem
      exact exists_ofReadings hmem keyPrefix completed

/-- What is shown has a survey unless all markers of starts are malformed; then it is told how many
they are. -/
theorem ofShown_cases (keyPrefix : String) (hkeys : (objects.map (·.key)).Nodup)
    (h : ∀ m ∈ Marker.among objects .started, bodies m.key = .ok (body m.key)) :
    (AllMalformed objects body → ofShown keyPrefix objects bodies =
      .error (.allMalformed keyPrefix (Marker.among objects .started).length)) ∧
    (¬AllMalformed objects body → ∃ survey,
      ofShown keyPrefix objects bodies = .ok survey ∧ survey.Partitions objects body) := by
  rw [ofShown_readable h]
  constructor
  · rintro ⟨hsome, hall⟩
    rw [ofReadings_allMalformed (by simpa using hsome) (by simpa [decoded] using hall),
      List.length_map]
  · intro hnot
    obtain ⟨survey, hsurvey⟩ := exists_survey hnot (Marker.among objects .completed)
    exact ⟨survey, hsurvey, partitions_ofReadings hkeys hsurvey⟩

/-- The order of a listing does not matter. -/
theorem ofShown_perm (hperm : objects'.Perm objects) (hkeys : (objects.map (·.key)).Nodup)
    (h : ∀ m ∈ Marker.among objects .started, bodies m.key = .ok (body m.key)) :
    ofShown keyPrefix objects' bodies = ofShown keyPrefix objects bodies := by
  have hstarts := among_perm hperm .started
  have hkeys' : (objects'.map (·.key)).Nodup := (hperm.map _).nodup_iff.2 hkeys
  obtain ⟨hfails, hsurvey⟩ := ofShown_cases keyPrefix hkeys h
  obtain ⟨hfails', hsurvey'⟩ := ofShown_cases keyPrefix hkeys' fun m hm =>
    h m (hstarts.mem_iff.1 hm)
  have hiff := allMalformed_perm body hperm
  by_cases hall : AllMalformed objects body
  · rw [hfails hall, hfails' (hiff.2 hall), hstarts.length_eq]
  · obtain ⟨survey, hok, hpartitions⟩ := hsurvey hall
    obtain ⟨survey', hok', hpartitions'⟩ := hsurvey' (mt hiff.1 hall)
    rw [hok, hok', hpartitions.eq_of_perm hpartitions' hperm]

/-- Let a listing of different keys be shown. If all markers of starts can be read, the survey has
each marker of the listing in the list where it belongs, once and in order, unless all markers of
starts are malformed; and another order of the listing gives the same. If some marker of a start
cannot be read, the first of them makes the survey fail. No marker of a completion is ever read. -/
theorem take_exact {σ : Type} {respond : Responder σ} {x : σ}
    (hshows : respond.Shows x bucket keyPrefix objects bodies)
    (hkeys : (objects.map (·.key)).Nodup) :
    let result := ((take bucket keyPrefix).run.run respond x).1
    let starts := Marker.among objects .started
    (∀ body : String → ByteArray, (∀ m ∈ starts, bodies m.key = .ok (body m.key)) →
      (AllMalformed objects body → result = .error (.allMalformed keyPrefix starts.length)) ∧
      (¬AllMalformed objects body →
        ∃ survey, result = .ok survey ∧ survey.Partitions objects body) ∧
      ∀ {τ : Type} (respond' : Responder τ) (y : τ) (objects' : List ObjectSummary),
        objects'.Perm objects → respond'.Shows y bucket keyPrefix objects' bodies →
        ((take bucket keyPrefix).run.run respond' y).1 = result) ∧
    (∀ m ∈ starts, ∀ e, bodies m.key = .error e →
      ∃ before first after e', starts = before ++ first :: after ∧
        (∀ m ∈ before, ∃ body, bodies m.key = .ok body) ∧ bodies first.key = .error e' ∧
        result = .error (.store e')) ∧
    ∀ cost limit, ∀ m ∈ Marker.among objects .completed, ∀ b, Call.get b m.key ∉
      ((take bucket keyPrefix).run.runWithin respond cost limit x).calls := by
  intro result starts
  have hresult : result = ofShown keyPrefix objects bodies := run_take hshows
  refine ⟨fun body hbody => ?_, fun m hm e he => ?_, fun cost limit m hm b hget => ?_⟩
  · obtain ⟨hfails, hsurvey⟩ := ofShown_cases keyPrefix hkeys hbody
    rw [hresult]
    refine ⟨hfails, hsurvey, fun respond' y objects' hperm hshows' => ?_⟩
    rw [run_take hshows', ofShown_perm hperm hkeys hbody]
  · obtain ⟨before, first, after, e', hstarts, hbefore, hfirst, hfails⟩ :=
      mapM_reading?_fails hm he
    refine ⟨before, first, after, e', hstarts, hbefore, hfirst, ?_⟩
    rw [hresult, ofShown, hfails]
    rfl
  · -- Only markers of starts are read, and no key is one of both.
    have hcall := (calls_runWithin_take hshows cost limit).subset hget
    rcases List.mem_cons.1 hcall with hlist | hread
    · cases hlist
    obtain ⟨start, hstart, heq⟩ := List.mem_map.1 hread
    obtain ⟨-, hkey⟩ := Call.get.inj heq
    obtain ⟨hclass, hkind, -⟩ := Marker.mem_among.1 hstart
    obtain ⟨hclass', hkind', -⟩ := Marker.mem_among.1 hm
    rw [hkey, hclass'] at hclass
    rw [← Option.some.inj hclass, hkind'] at hkind
    cases hkind

/-- A marker of a completion, two of starts, of which the second is no manifest, and an object that
marks nothing. -/
def twoStartsRead : List (String × String) :=
  [("p/b.completed.manifest", ""), ("p/b.started.manifest",
    Manifest.sampleText "x" "2023-01-01T00:00:00Z"), ("p/c.started.manifest", ""),
    ("p/data.ion", "data")]

/-- A store with these objects has a survey, which is the same when they are listed the other way
round. When the second marker cannot be read, there is none. -/
theorem take_twoStartsRead : let m : Store := .holding "b" twoStartsRead
    let broken := { m with faults := ⟨[(.get, "p/c.started.manifest")], []⟩ }
    let listing := m.listing "b" "p/" (some "/")
    let result (m : Store) := ((take "b" "p/").run.run (World.respond JobTable.service)
      ⟨m, .empty⟩).1
    (∃ survey, result m = .ok survey ∧
      survey.Partitions listing fun key => (m.find? "b" key).getD .empty) ∧
    ((take "b" "p/").run.run (.showing listing.reverse fun key => (m.get "b" key).1) ()).1 =
      result m ∧
    ∃ e, result broken = .error (.store e) := by
  intro m broken listing result
  have hkeys : (listing.map (·.key)).Nodup := nodup_keys (Store.sorted_listing ..)
  have hstarts : Marker.among listing .started =
      [⟨"p/b.started.manifest", .started, "p/b"⟩, ⟨"p/c.started.manifest", .started, "p/c"⟩] := by
    decide +kernel
  have hb : ⟨"p/b.started.manifest", .started, "p/b"⟩ ∈ Marker.among listing .started :=
    hstarts ▸ List.mem_cons_self
  have hc : ⟨"p/c.started.manifest", .started, "p/c"⟩ ∈ Marker.among listing .started :=
    hstarts ▸ List.mem_cons_of_mem _ List.mem_cons_self
  have hbodies : ∀ x ∈ Marker.among listing .started,
      (m.get "b" x.key).1 = .ok ((m.find? "b" x.key).getD .empty) := by
    rw [hstarts]
    decide +kernel
  obtain ⟨hreadable, -, -⟩ :=
    take_exact (World.shows JobTable.service ⟨m, .empty⟩ "b" "p/" rfl) hkeys
  obtain ⟨-, hsurvey, hperm⟩ := hreadable (fun key => (m.find? "b" key).getD .empty) hbodies
  obtain ⟨-, hfails, -⟩ :=
    take_exact (World.shows JobTable.service ⟨broken, .empty⟩ "b" "p/" (by decide)) hkeys
  refine ⟨hsurvey fun hall => ?_, ?_, ?_⟩
  · obtain ⟨e, he⟩ := hall.2 _ hb
    have hok : (Manifest.ofBytes ((m.find? "b" "p/b.started.manifest").getD .empty)).toBool =
        true := by
      decide +kernel
    rw [he] at hok
    cases hok
  · exact hperm _ () _ (List.reverse_perm listing) (Responder.shows_showing "b" "p/" _ _)
  · obtain ⟨before, first, after, e, -, -, -, he⟩ := hfails _ hc _ rfl
    exact ⟨e, he⟩

end Survey

end LedgerExport
