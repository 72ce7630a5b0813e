import Mathlib.Data.List.Chain
import LedgerExport.Proofs.Chronicles

/-!
# Exports that are submitted again

The start of the next window is read off the markers of starts that lie directly under the prefix.
A turn that has a window accepted moves the markers before it away, and one that looks up a lost
export moves the marker of that export into quarantine. After the two, no marker is left that says
how far the exports have come, and the next window starts at the epoch once more.

`Chronicle.exported_once_iff` says exactly when that happens in turns without faults: no completed
export is submitted again as long as no export after a completed one is lost
(`Chronicle.Resumes`), and in a layout where no archived key is listed, only then.
`Chronicle.completed_export_submitted_again` is a run of four turns in which it does happen.

The invariant is `Chronicle.Sound`. It says of all runs but the latest that they have come to an
end, and of the latest that its marker is there unless it has been lost (`Run.Holds`).
-/

namespace LedgerExport

open Time World

namespace Chronicle

variable {s : Settings} {c d : Chronicle} {l k : List Run} {r r' : Run} {m : Store}

/-- What holds at every moment of a chronicle. -/
structure Sound (s : Settings) (c : Chronicle) : Prop where
  /-- Each export precedes the next one. -/
  precedes : c.runs.IsChain (Run.Precedes s)
  /-- The windows end in order. -/
  ordered : c.runs.Pairwise fun r r' => r.window.stop ≤ r'.window.stop
  /-- No name is given twice. -/
  distinct : c.runs.Pairwise fun r r' => r.exportId ≠ r'.exportId
  /-- No window ends after the clock of the latest turn. -/
  clock : ∀ r ∈ c.runs, ∃ u ∈ c.clock, r.window.stop ≤ u.cutToMillis
  /-- No window is empty. -/
  start_lt : ∀ r ∈ c.runs, r.window.start < r.window.stop
  /-- No window starts before the epoch if archived keys are not listed. -/
  epoch_le : s.layout.Apart → ∀ r ∈ c.runs, s.epoch ≤ r.window.start
  /-- There are no markers of starts before the first export. -/
  none : c.runs = [] → s.Throughout (fun _ => False) c.store
  /-- What the store has of the latest export. -/
  latest : ∀ r ∈ c.runs.getLast?, r.Latest s c.store

namespace Sound

/-- An export that has not come to an end, or whose marker has not been written, is the latest
one. -/
theorem eq_nil (h : c.Sound s) (hruns : c.runs = l ++ r :: k)
    (hopen : r.completed = false ∧ r.lost = false ∨ r.start? = Option.none) : k = [] := by
  rcases k with _ | ⟨r', k⟩
  · rfl
  -- An export with another one behind it has come to an end, and its marker has been written.
  have hprecedes : r.Precedes s r' := by
    have hchain := h.precedes
    rw [hruns, List.isChain_append_cons_cons] at hchain
    exact hchain.2.1
  rcases hopen with ⟨hcompleted, hlost⟩ | hunmarked
  · rcases hprecedes.ended with hended | hended
    · rw [hcompleted] at hended
      cases hended
    · rw [hlost] at hended
      cases hended
  · have hmarked := hprecedes.marked
    rw [hunmarked] at hmarked
    cases hmarked

/-- A change of the store that leaves what it has of the latest export preserves what holds. -/
theorem of_store (h : c.Sound s) (hnone : c.runs = [] → s.Throughout (fun _ => False) m)
    (hlatest : ∀ r ∈ c.runs.getLast?, r.Latest s m) : Sound s { c with store := m } :=
  ⟨h.precedes, h.ordered, h.distinct, h.clock, h.start_lt, h.epoch_le, hnone, hlatest⟩

/-- Something that happens to the latest export preserves what holds if its name and its window stay
as they are. -/
theorem of_latest (h : c.Sound s) (hruns : c.runs = l ++ [r]) (hid : r'.exportId = r.exportId)
    (hwindow : r'.window = r.window) (hlatest : r'.Latest s m) :
    Sound s { c with store := m, runs := l ++ [r'] } := by
  obtain ⟨hprecedes, hordered, hdistinct, hclock, hstart, hepoch, -, -⟩ := h
  rw [hruns] at hprecedes hordered hdistinct hclock hstart hepoch
  simp only [List.forall_mem_append, List.forall_mem_singleton] at hclock hstart hepoch
  rw [List.isChain_append] at hprecedes
  rw [List.pairwise_append] at hordered hdistinct
  obtain ⟨hchain, -, hlast⟩ := hprecedes
  -- Only the clause about the latest export sees more of it than its name and its window.
  refine ⟨?_, ?_, ?_, ?_, ?_, fun hapart => ?_, by simp, fun x hx => ?_⟩
  · refine List.isChain_append.2 ⟨hchain, .singleton _, fun x hx y hy => ?_⟩
    obtain rfl : r' = y := Option.some.inj hy
    exact (hlast x hx r rfl).of_window hwindow
  · refine List.pairwise_append.2 ⟨hordered.1, List.pairwise_singleton .., fun x hx => ?_⟩
    simpa [hwindow] using hordered.2.2 x hx
  · refine List.pairwise_append.2 ⟨hdistinct.1, List.pairwise_singleton .., fun x hx => ?_⟩
    simpa [hid] using hdistinct.2.2 x hx
  · exact List.forall_mem_append.2 ⟨hclock.1, by simpa [hwindow] using hclock.2⟩
  · exact List.forall_mem_append.2 ⟨hstart.1, by simpa [hwindow] using hstart.2⟩
  · exact List.forall_mem_append.2 ⟨(hepoch hapart).1, by simpa [hwindow] using (hepoch hapart).2⟩
  · obtain rfl : r' = x := by simpa using hx
    exact hlatest

/-- The writing of an object that is no marker preserves what holds. -/
theorem data {key : String} {body : ByteArray} (h : c.Sound s)
    (hkey : Marker.classify? key = Option.none) :
    Sound s { c with store := c.store.put s.bucket key body } := by
  have hstart : ¬Marker.IsStart key := by
    rintro ⟨x, hx, -⟩
    rw [hkey] at hx
    cases hx
  have hagree : c.store.Agree s.Watches s.bucket (c.store.put s.bucket key body) :=
    Store.agree_put _ body fun hwatches => hstart hwatches.2
  refine h.of_store (fun hnone => Settings.throughout_of_agree hagree (h.none hnone))
    fun r hr => ?_
  have hlatest := h.latest r hr
  refine ⟨hlatest.kept, fun hunmarked hapart => Settings.throughout_of_agree hagree
    (hlatest.unmarked hunmarked hapart), fun x hx => ?_⟩
  have hholds := hlatest.marked x hx
  refine hholds.put hstart rfl rfl rfl fun hnot y hy => ?_
  -- The object is no marker of completion either, and so there are no more of these than before.
  have hne : key ≠ y.key := by
    rintro rfl
    have hclass := hy.classified
    rw [hkey] at hclass
    cases hclass
  obtain ⟨hlists, b, hb⟩ := hy.has
  rw [Store.find?_put, if_neg (fun heq => hne heq.2)] at hb
  exact hholds.uncompleted hnot y ⟨hy.classified, hy.kind, hy.group_eq, hlists, b, hb⟩

/-- What the store has of an export that is the latest one. -/
theorem latest_of_eq (h : c.Sound s) (hruns : c.runs = l ++ [r]) : r.Latest s c.store :=
  h.latest r (by rw [hruns, List.getLast?_concat]; rfl)

/-- The writing of the marker of an export preserves what holds. -/
theorem mark {x : Marker} {body : ByteArray} {start : Option Instant} (h : c.Sound s)
    (hruns : c.runs = l ++ r :: k) (unmarked : r.start? = Option.none)
    (classified : Marker.classify? x.key = some x) (kind : x.kind = .started)
    (lists : Store.lists s.keyPrefix (some "/") x.key = true) (fresh : s.IsFresh c.store x.group)
    (manifest : Manifest.ofBytes body = .ok ⟨r.exportId, r.window.stop, start⟩) :
    Sound s { c with
      store := c.store.put s.bucket x.key body
      runs := l ++ { r with start? := some x } :: k } := by
  -- An export without its marker is the latest one.
  obtain rfl := h.eq_nil hruns (.inr unmarked)
  have hlatest := h.latest_of_eq hruns
  refine h.of_latest hruns rfl rfl ⟨hlatest.kept, (fun hnone => nomatch hnone), fun y hy => ?_⟩
  obtain rfl := Option.some.inj hy
  exact .of_mark classified kind lists fresh manifest (hlatest.unmarked unmarked)

/-- The writing of the marker of completion of an export preserves what holds. -/
theorem complete {x y : Marker} {body : ByteArray} (h : c.Sound s) (hruns : c.runs = l ++ r :: k)
    (marked : r.start? = some x) (completed : r.completed = false) (lost : r.lost = false)
    (classified : Marker.classify? y.key = some y) (kind : y.kind = .completed) :
    Sound s { c with
      store := c.store.put s.bucket y.key body
      runs := l ++ { r with completed := true } :: k } := by
  obtain rfl := h.eq_nil hruns (.inl ⟨completed, lost⟩)
  have hlatest := h.latest_of_eq hruns
  have hstart : ¬Marker.IsStart y.key := by
    rintro ⟨z, hz, hstarted⟩
    rw [← Option.some.inj (classified.symm.trans hz), kind] at hstarted
    cases hstarted
  refine h.of_latest hruns rfl rfl ⟨fun _ => lost, fun hunmarked => ?_, fun z hz => ?_⟩
  · rw [show r.start? = some x from marked] at hunmarked
    cases hunmarked
  · exact (hlatest.marked z hz).put hstart rfl rfl rfl fun hnot => nomatch hnot

/-- The loss of an export preserves what holds. -/
theorem lose (h : c.Sound s) (hruns : c.runs = l ++ r :: k) (completed : r.completed = false)
    (lost : r.lost = false) : Sound s { c with runs := l ++ { r with lost := true } :: k } := by
  -- An export that can still be lost is the latest one.
  obtain rfl := h.eq_nil hruns (.inl ⟨completed, lost⟩)
  have hlatest := h.latest_of_eq hruns
  refine h.of_latest hruns rfl rfl ⟨fun hcompleted => ?_, hlatest.unmarked, fun x hx => ?_⟩
  · rw [show r.completed = true from hcompleted] at completed
    cases completed
  · have hholds := hlatest.marked x hx
    exact ⟨hholds.classified, hholds.kind, hholds.lists, hholds.reads,
      (fun hlost => nomatch hlost), hholds.only, hholds.uncompleted⟩

/-- A turn in which nothing is accepted preserves what holds. -/
theorem quiet {τ : Type} {t : Turn τ} (h : c.Sound s)
    (marked : ∀ r ∈ c.runs, r.start?.isSome = true) (clock : ∀ u ∈ c.clock, u < t.now)
    (lookups : ∀ ledger exportId (answer : Except JobFailure Lookup),
      (⟨.describe ledger exportId, answer⟩ : Event) ∈ t.events s c.store →
      (answer = .ok .unknown ↔ ∃ r ∈ c.runs, r.lost = true ∧ r.exportId = exportId))
    (hchanges : ∀ e ∈ t.events s c.store, e.call.isChange = true →
      ∃ x, s.Quarantines (t.events s c.store) e.call x) :
    Sound s ⟨t.after s c.store, c.runs, some t.now⟩ := by
  refine ⟨h.precedes, h.ordered, h.distinct, fun r hr => ?_, h.start_lt, h.epoch_le,
    fun hnone => ?_, fun r hr => ?_⟩
  · obtain ⟨u, hu, hle⟩ := h.clock r hr
    exact ⟨t.now, rfl, hle.trans (Instant.cutToMillis_le (clock u hu).le)⟩
  · intro key body hkey hbody
    rcases Turn.find?_of_quarantine hchanges hkey.1 with hsame | ⟨hgone, -⟩
    · exact h.none hnone key body hkey (hsame ▸ hbody)
    · rw [hgone] at hbody
      cases hbody
  · -- Every export has its marker, and that of the latest one stays unless it is lost.
    have hlatest := h.latest r hr
    have hmem := List.mem_of_getLast? hr
    refine ⟨hlatest.kept, fun hunmarked => ?_, fun x hx => ?_⟩
    · have hsome := marked r hmem
      rw [hunmarked] at hsome
      cases hsome
    refine Turn.holds_of_quarantine (hlatest.marked x hx) hchanges fun hunknown => ?_
    -- No other export has its name, and so it is the one that is lost.
    obtain ⟨r', hr', hlost, hid⟩ := (lookups _ _ _ hunknown).1 rfl
    by_contra hnot
    have hne : r' ≠ r := fun heq => hnot (heq ▸ hlost)
    have : Std.Symm fun r r' : Run => r.exportId ≠ r'.exportId := ⟨fun _ _ h => h.symm⟩
    exact h.distinct.forall hr' hmem hne hid

/-- If archived keys are not listed and every export has its marker, then a survey has all markers
of starts, and they name the end of the latest window. -/
theorem started_of_apart {v : Sighting} {survey : Survey} (h : c.Sound s)
    (marked : ∀ r ∈ c.runs, r.start?.isSome = true)
    (hreports : v.Reports (fun _ => True) s c.store) (taken : v.survey? s.keyPrefix = .ok survey)
    (hapart : s.layout.Apart) :
    (∀ key body, s.Watches key → c.store.find? s.bucket key = some body →
      ∃ y ∈ survey.started, y.key = key) ∧
    ∀ y ∈ survey.started, ∃ r ∈ c.runs.getLast?, y.stop = r.window.stop := by
  rcases hlast : c.runs.getLast? with _ | r
  · -- Before the first export there are no markers of starts.
    have hnone := h.none (List.getLast?_eq_none_iff.1 hlast)
    refine ⟨fun key body hkey hbody => (hnone key body hkey hbody).elim, fun y hy => ?_⟩
    obtain ⟨hclass, hkind, hlists, body, hbody, -⟩ := (hreports.mem_started taken trivial).1 hy
    exact (hnone y.key body ⟨hlists, y.marker, hclass, hkind⟩ hbody).elim
  · -- Afterwards there is none but that of the latest export.
    obtain ⟨x, hx⟩ := Option.isSome_iff_exists.1 (marked r (List.mem_of_getLast? hlast))
    have hholds := (h.latest r hlast).marked x hx
    refine ⟨fun key body hkey hbody => ?_, fun y hy => ⟨r, rfl, ?_⟩⟩
    · obtain rfl := hholds.only hapart key body hkey hbody
      obtain ⟨start, hmanifest⟩ := hholds.reads body hbody
      exact ⟨⟨x, _⟩, (hreports.mem_started taken (x := ⟨x, _⟩) trivial).2
        ⟨hholds.classified, hholds.kind, hholds.lists, body, hbody, hmanifest⟩, rfl⟩
    · exact (hholds.of_mem_started hreports taken hy (hholds.key_eq hreports taken hapart hy)).2.2

/-- If archived keys are not listed and every export has its marker, then the next window does not
start before the epoch. -/
theorem epoch_le_frontier {v : Sighting} {survey : Survey} (h : c.Sound s)
    (marked : ∀ r ∈ c.runs, r.start?.isSome = true)
    (hreports : v.Reports (fun _ => True) s c.store) (taken : v.survey? s.keyPrefix = .ok survey)
    (hapart : s.layout.Apart) : s.epoch ≤ survey.frontier s.epoch := by
  by_cases hnone : survey.started = []
  · exact (Survey.frontier_nil hnone).ge
  -- It starts at the end of the latest one.
  obtain ⟨⟨y, hy, hstops⟩, -⟩ := (Survey.frontier_isGreatest s.epoch hnone).1 rfl
  obtain ⟨r, hr, hends⟩ := (h.started_of_apart marked hreports taken hapart).2 y hy
  have hmem := List.mem_of_getLast? hr
  calc s.epoch ≤ r.window.start := h.epoch_le hapart r hmem
    _ ≤ r.window.stop := (h.start_lt r hmem).le
    _ = survey.frontier s.epoch := by rw [← hstops, hends]

/-- A turn in which an export is accepted preserves what holds. -/
theorem accept {τ : Type} {t : Turn τ} {v : Sighting} {survey : Survey} {w : Window}
    {exportId : String} {es : List Event} {moved : Except StoreFailure Unit} (h : c.Sound s)
    (marked : ∀ r ∈ c.runs, r.start?.isSome = true) (clock : ∀ u ∈ c.clock, u < t.now)
    (faults : t.faults = .none) (name : ∀ r ∈ c.runs, r.exportId ≠ exportId)
    (hes : t.events s c.store =
      v.events s.bucket s.keyPrefix ++ ⟨.submit (s.request w), .ok exportId⟩ :: es)
    (hplans : s.Plans t.now v survey w)
    (hmoves : Program.Traces (Move.relocateAll s.bucket (survey.moves s.layout)) es (some moved)) :
    Sound s ⟨t.after s c.store, c.runs ++ [⟨exportId, w, Option.none, false, false⟩],
      some t.now⟩ := by
  have hreports := Turn.reports hes
  have hstart : w.start = survey.frontier s.epoch := congrArg Window.start hplans.window_eq
  have hstop : w.stop = t.now.cutToMillis := congrArg Window.stop hplans.window_eq
  have hordered : ∀ r ∈ c.runs, r.window.stop ≤ w.stop := fun r hr => by
    obtain ⟨u, hu, hle⟩ := h.clock r hr
    calc r.window.stop ≤ u.cutToMillis := hle
      _ ≤ t.now.cutToMillis := Instant.cutToMillis_le (clock u hu).le
      _ = w.stop := hstop.symm
  refine ⟨?_, ?_, ?_, ?_, ?_, fun hapart => ?_, by simp, fun r hr => ?_⟩
  · -- The latest export precedes the new one, because the window was planned with its marker there.
    refine h.precedes.append (.singleton _) fun r hr r' hr' => ?_
    obtain rfl := Option.some.inj hr'
    have hsome := marked r (List.mem_of_getLast? hr)
    obtain ⟨x, hx⟩ := Option.isSome_iff_exists.1 hsome
    exact ((h.latest r hr).marked x hx).precedes (h.latest r hr) hsome hreports hplans rfl
  · refine List.pairwise_append.2 ⟨h.ordered, List.pairwise_singleton .., fun r hr => ?_⟩
    simpa using hordered r hr
  · refine List.pairwise_append.2 ⟨h.distinct, List.pairwise_singleton .., fun r hr => ?_⟩
    simpa using name r hr
  · refine List.forall_mem_append.2 ⟨fun r hr => ⟨t.now, rfl, hstop ▸ hordered r hr⟩, ?_⟩
    exact List.forall_mem_singleton.2 ⟨t.now, rfl, hstop.le⟩
  · refine List.forall_mem_append.2 ⟨h.start_lt, List.forall_mem_singleton.2 ?_⟩
    rw [hplans.window_eq]
    exact hplans.start_lt
  · refine List.forall_mem_append.2 ⟨h.epoch_le hapart, List.forall_mem_singleton.2 ?_⟩
    show s.epoch ≤ w.start
    rw [hstart]
    exact h.epoch_le_frontier marked hreports hplans.taken hapart
  · -- The markers before it are moved away, so that there are none until its own is written.
    obtain rfl : (⟨exportId, w, Option.none, false, false⟩ : Run) = r := by simpa using hr
    refine ⟨(fun hcompleted => nomatch hcompleted), fun _ hapart => ?_, fun x hx => nomatch hx⟩
    obtain ⟨hread, hends⟩ := h.started_of_apart marked hreports hplans.taken hapart
    refine Turn.throughout_of_accepted hes hplans hapart faults hmoves hread fun y hy z hz => ?_
    obtain ⟨r, hr, hy⟩ := hends y hy
    obtain ⟨r', hr', hz⟩ := hends z hz
    rw [hy, hz, Option.some.inj (hr.symm.trans hr')]

end Sound

/-- What holds does so at every moment. -/
theorem Reached.sound (hm : s.Throughout (fun _ => False) m) (h : Reached s m c) : c.Sound s := by
  -- By induction on the steps; each kind of step has a lemma of its own above.
  induction h with
  | start => exact ⟨.nil, .nil, .nil, by simp, by simp, by simp, fun _ => hm, by simp⟩
  | @step c d _ hstep ih =>
    cases hstep with
    | data key body hkey => exact ih.data hkey
    | mark x body start runs unmarked classified kind lists fresh manifest =>
      exact ih.mark runs unmarked classified kind lists fresh manifest
    | complete y body runs marked completed lost classified kind =>
      exact ih.complete runs marked completed lost classified kind
    | lose runs completed lost => exact ih.lose runs completed lost
    | turn t marked clock epoch faults limit lookups names =>
      rcases (t.unfolds s c.store).acceptance with ⟨hnothing, hchanges⟩ |
        ⟨v, survey, w, es, moved, exportId, hes, haccepted, hplans, hmoves, hresult⟩
      · have hbegun : t.begun s c.store = [] := by rw [Turn.begun, hnothing]; rfl
        rw [hbegun, List.append_nil]
        exact ih.quiet marked clock lookups hchanges
      · have hbegun : t.begun s c.store = [⟨exportId, w, none, false, false⟩] := by
          rw [Turn.begun, haccepted]
          rfl
        have hsome := Turn.isSome_result (s := s) (m := c.store) limit
        rw [hresult, Option.isSome_map] at hsome
        obtain ⟨moved, rfl⟩ := Option.isSome_iff_exists.1 hsome
        rw [hbegun] at names ⊢
        exact ih.accept marked clock faults
          (fun r hr heq => names _ (List.mem_singleton_self _) r hr heq.symm) hes hplans hmoves

namespace Sound

/-- Each export precedes the one that is accepted next. -/
theorem precedes_next (h : c.Sound s) {j : Nat} (hr : c.runs[j]? = some r)
    (hr' : c.runs[j + 1]? = some r') : r.Precedes s r' := by
  obtain ⟨hj, rfl⟩ := List.getElem?_eq_some_iff.1 hr
  obtain ⟨hj', rfl⟩ := List.getElem?_eq_some_iff.1 hr'
  exact List.isChain_iff_getElem.1 h.precedes j hj'

/-- No window ends before one that was accepted earlier. -/
theorem stop_le_stop (h : c.Sound s) {i j : Nat} (hij : i < j) (hr : c.runs[i]? = some r)
    (hr' : c.runs[j]? = some r') : r.window.stop ≤ r'.window.stop := by
  obtain ⟨hi, rfl⟩ := List.getElem?_eq_some_iff.1 hr
  obtain ⟨hj, rfl⟩ := List.getElem?_eq_some_iff.1 hr'
  exact List.pairwise_iff_getElem.1 h.ordered i j hi hj hij

/-- No completed export is submitted again as long as the exports after completed ones complete. -/
theorem exportsOnce (h : c.Sound s) (hresumes : c.Resumes) : c.ExportsOnce := by
  intro i j r r' hij hr hr' hcompleted
  obtain ⟨j, rfl⟩ : ∃ k, j = k + 1 := ⟨j - 1, by omega⟩
  obtain ⟨r₀, hr₀⟩ : ∃ r₀, c.runs[j]? = some r₀ := by
    obtain ⟨hj, -⟩ := List.getElem?_eq_some_iff.1 hr'
    exact ⟨_, List.getElem?_eq_getElem (by omega)⟩
  rcases Nat.lt_or_eq_of_le (Nat.le_of_lt_succ hij) with hlt | rfl
  · -- The export just before has completed as well, and ends no earlier.
    have hended := hresumes i j r r₀ r' hlt hr hr₀ hr' hcompleted
    calc r.window.stop ≤ r₀.window.stop := h.stop_le_stop hlt hr hr₀
      _ ≤ r'.window.start := (h.precedes_next hr₀ hr').next hended
  · exact (h.precedes_next hr hr').next hcompleted

/-- If archived keys are not listed and no completed export is submitted again, then the exports
after completed ones have completed. -/
theorem resumes (h : c.Sound s) (hapart : s.layout.Apart) (honce : c.ExportsOnce) : c.Resumes := by
  intro i j x r r' hij hx hr hr' hcompleted
  -- Otherwise the next window would start at the epoch, before the end of the completed one.
  by_contra hnot
  have hagain := (h.precedes_next hr hr').again hapart (Bool.eq_false_iff.2 hnot)
  have hmem := List.mem_of_getElem? hx
  have hlt : s.epoch < s.epoch :=
    calc s.epoch ≤ x.window.start := h.epoch_le hapart x hmem
      _ < x.window.stop := h.start_lt x hmem
      _ ≤ r'.window.start := honce i (j + 1) x r' (by omega) hx hr' hcompleted
      _ = s.epoch := hagain
  exact lt_irrefl _ hlt

end Sound

/-- In turns without faults no completed export is submitted again as long as no export after a
completed one is lost before another one is accepted. In a layout where no archived key is listed,
this is also necessary: the windows start at the epoch once more when it does not hold. -/
theorem exported_once_iff
    (hm : ∀ key body, Store.lists s.keyPrefix (some "/") key = true →
      m.find? s.bucket key = some body → Marker.classify? key = none) (h : Reached s m c) :
    (c.Resumes → c.ExportsOnce) ∧ (s.layout.Apart → c.ExportsOnce → c.Resumes) := by
  have hsound := h.sound fun key body hkey hbody => by
    obtain ⟨x, hx, -⟩ := hkey.2
    rw [hm key body hkey.1 hbody] at hx
    cases hx
  exact ⟨hsound.exportsOnce, hsound.resumes⟩

end Chronicle

/-! ## A completed export that is submitted again -/

/-- The export that a call looks up, and whether the service does not know it. -/
def Event.lookup? : Event → Option (String × Bool)
  | ⟨.describe _ exportId, answer⟩ =>
    match (answer : Except JobFailure Lookup) with
    | .ok .unknown => some (exportId, true)
    | _ => some (exportId, false)
  | _ => none

/-- Look-ups are those that are read off the calls. -/
theorem Event.lookup?_of_mem {es : List Event} {lookups : List (String × Bool)}
    (h : es.filterMap lookup? = lookups) {ledger exportId : String}
    {answer : Except JobFailure Lookup} (he : (⟨.describe ledger exportId, answer⟩ : Event) ∈ es) :
    (answer = .ok .unknown ∧ (exportId, true) ∈ lookups) ∨
      (answer ≠ .ok .unknown ∧ (exportId, false) ∈ lookups) := by
  subst h
  rcases answer with e | status | _
  · exact .inr ⟨by simp, List.mem_filterMap.2 ⟨_, he, rfl⟩⟩
  · exact .inr ⟨by simp, List.mem_filterMap.2 ⟨_, he, rfl⟩⟩
  · exact .inl ⟨rfl, List.mem_filterMap.2 ⟨_, he, rfl⟩⟩

namespace Chronicle

/-- Settings with the archive below the prefix. -/
def sampleSettings : Settings := .sample "p/" "p/"

/-- A turn without faults. The service has accepted some exports before and knows none. -/
def sampleTurn (seconds : UInt32) (accepted : Nat) : Turn JobTable :=
  { Turn.sample seconds .none with jobs := { JobTable.empty with accepted } }

/-- A turn on the first day of the year. -/
def turn₁ : Turn JobTable := sampleTurn 0 0

/-- A turn on the second day. -/
def turn₂ : Turn JobTable := sampleTurn 86400 1

/-- A turn on the third day. -/
def turn₃ : Turn JobTable := sampleTurn 172800 2

/-- A turn on the fourth day. -/
def turn₄ : Turn JobTable := sampleTurn 259200 2

/-- The marker of a start. -/
def startMarker (name : String) : Marker :=
  ⟨"p/" ++ name ++ ".started.manifest", .started, "p/" ++ name⟩

/-- The marker of a completion. -/
def completionMarker (name : String) : Marker :=
  ⟨"p/" ++ name ++ ".completed.manifest", .completed, "p/" ++ name⟩

/-- The body of the marker of an export. -/
def sampleBody (exportId : String) (stop : Instant) : ByteArray :=
  (Manifest.sampleText exportId (stop.written .millis)).toUTF8

/-- The store after the first turn, when its export has both its markers. -/
def store₁ : Store :=
  ((turn₁.after sampleSettings .empty).put "b" (startMarker "a").key
    (sampleBody "export1" turn₁.now)).put "b" (completionMarker "a").key .empty

/-- The store after the second turn, when its export has its marker. -/
def store₂ : Store :=
  (turn₂.after sampleSettings store₁).put "b" (startMarker "c").key (sampleBody "export2" turn₂.now)

/-- The export of the first turn when it has completed. -/
def run₁ : Run :=
  ⟨"export1", ⟨Settings.defaultEpoch, turn₁.now⟩, some (startMarker "a"), true, false⟩

/-- The export of the second turn before its marker is written. -/
def run₂ : Run := ⟨"export2", ⟨turn₁.now, turn₂.now⟩, none, false, false⟩

/-- The export of the last turn. -/
def run₃ : Run := ⟨"export3", ⟨Settings.defaultEpoch, turn₄.now⟩, none, false, false⟩

/-- The two first turns. The first export has completed before the second one is accepted. -/
def twoTurns : Chronicle :=
  ⟨turn₂.after sampleSettings store₁, [run₁, run₂], some turn₂.now⟩

/-- A turn can be taken whose look-ups and whose accepted exports are known. -/
theorem Reached.turn {c : Chronicle} (h : Reached sampleSettings .empty c) (t : Turn JobTable)
    {runs : List Run} {lookups : List (String × Bool)}
    (ht : t.begun sampleSettings c.store = runs ∧
      (t.events sampleSettings c.store).filterMap Event.lookup? = lookups)
    (marked : ∀ r ∈ c.runs, r.start?.isSome = true) (clock : ∀ u ∈ c.clock, u < t.now)
    (epoch : sampleSettings.epoch < t.now) (faults : t.faults = .none) (limit : t.limit = none)
    (hlookups : ∀ x ∈ lookups, x.2 = true ↔ ∃ r ∈ c.runs, r.lost = true ∧ r.exportId = x.1)
    (names : ∀ x ∈ runs, ∀ r ∈ c.runs, x.exportId ≠ r.exportId) :
    Reached sampleSettings .empty ⟨t.after sampleSettings c.store, c.runs ++ runs, some t.now⟩ := by
  obtain ⟨rfl, hes⟩ := ht
  refine h.step
    (.turn t marked clock epoch faults limit (fun ledger exportId answer he => ?_) names)
  rcases Event.lookup?_of_mem hes he with ⟨hunknown, hmem⟩ | ⟨hknown, hmem⟩
  · simpa [hunknown] using hlookups _ hmem
  · simpa [hknown] using hlookups _ hmem

/-- The two first turns can be taken. -/
theorem reached_twoTurns : Reached sampleSettings .empty twoTurns := by
  have hturn₁ : turn₁.begun sampleSettings .empty =
      [{ run₁ with start? := none, completed := false }] ∧
      (turn₁.events sampleSettings .empty).filterMap Event.lookup? = [] := by decide +kernel
  have hturn₂ : turn₂.begun sampleSettings store₁ = [run₂] ∧
      (turn₂.events sampleSettings store₁).filterMap Event.lookup? = [] := by decide +kernel
  -- The first export gets its marker and completes before the second turn is taken.
  have hstarted := Reached.start.turn turn₁ hturn₁ (by simp) (by simp) (by decide) rfl rfl
    (by simp) (by simp)
  have hmarked := hstarted.step (.mark (l := []) (k := []) (startMarker "a")
    (sampleBody "export1" turn₁.now) none rfl rfl (by decide +kernel) rfl (by decide +kernel)
    (by unfold Settings.IsFresh; decide +kernel) (by decide +kernel))
  have hcompleted : Reached sampleSettings .empty ⟨store₁, [run₁], some turn₁.now⟩ :=
    hmarked.step (.complete (s := sampleSettings) (l := []) (k := [])
      (r := { run₁ with completed := false }) (x := startMarker "a") (completionMarker "a") .empty
      rfl rfl rfl rfl (by decide +kernel) rfl rfl (by decide +kernel))
  exact hcompleted.turn turn₂ hturn₂ (by decide) (by decide) (by decide) rfl rfl (by simp)
    (by decide)

/-- The second export starts where the first one ends, which has completed. -/
theorem two_exports_once :
    (∀ key body, Store.lists sampleSettings.keyPrefix (some "/") key = true →
      Store.empty.find? sampleSettings.bucket key = some body → Marker.classify? key = none) ∧
    Reached sampleSettings .empty twoTurns ∧ twoTurns.Resumes ∧ twoTurns.ExportsOnce := by
  have hempty : ∀ key body, Store.lists sampleSettings.keyPrefix (some "/") key = true →
      Store.empty.find? sampleSettings.bucket key = some body → Marker.classify? key = none := by
    intro key body _ hbody
    simp [Store.find?, Store.empty] at hbody
  have hresumes : twoTurns.Resumes := by
    intro i j x r r' hij _ _ hr' _
    obtain ⟨hj, -⟩ := List.getElem?_eq_some_iff.1 hr'
    have hlength : twoTurns.runs.length = 2 := rfl
    omega
  exact ⟨hempty, reached_twoTurns, hresumes,
    (exported_once_iff hempty reached_twoTurns).1 hresumes⟩

/-- When the second export is lost, the next turn moves its marker into quarantine, and the turn
after that submits the window of the first export again. -/
theorem completed_export_submitted_again :
    ∃ c, Reached sampleSettings .empty c ∧ c.runs.map (fun r => (r.window, r.completed, r.lost)) =
      [(⟨Settings.defaultEpoch, turn₁.now⟩, true, false), (⟨turn₁.now, turn₂.now⟩, false, true),
        (⟨Settings.defaultEpoch, turn₄.now⟩, false, false)] ∧ ¬c.ExportsOnce := by
  have hturn₃ : turn₃.begun sampleSettings store₂ = [] ∧
      (turn₃.events sampleSettings store₂).filterMap Event.lookup? = [("export2", true)] := by
    decide +kernel
  have hturn₄ : turn₄.begun sampleSettings (turn₃.after sampleSettings store₂) = [run₃] ∧
      (turn₄.events sampleSettings (turn₃.after sampleSettings store₂)).filterMap Event.lookup? =
        [] := by decide +kernel
  have hmarked := reached_twoTurns.step (.mark (l := [run₁]) (k := []) (r := run₂) (startMarker "c")
    (sampleBody "export2" turn₂.now) none rfl rfl (by decide +kernel) rfl (by decide +kernel)
    (by unfold Settings.IsFresh; decide +kernel) (by decide +kernel))
  have hlost : Reached sampleSettings .empty ⟨store₂,
      [run₁, { run₂ with start? := some (startMarker "c"), lost := true }], some turn₂.now⟩ :=
    hmarked.step (.lose (l := [run₁]) (k := [])
      (r := { run₂ with start? := some (startMarker "c") }) rfl rfl rfl)
  -- The third turn looks the export up, and the fourth one finds no marker at all.
  have hquarantined := hlost.turn turn₃ hturn₃ (by decide) (by decide) (by decide) rfl rfl
    (by decide) (by decide)
  have hagain := hquarantined.turn turn₄ hturn₄ (by decide) (by decide) (by decide) rfl rfl
    (by decide) (by decide)
  refine ⟨_, hagain, rfl, fun honce => ?_⟩
  -- The window of the last turn would have to start after the first day of the year.
  have hle : turn₁.now ≤ Settings.defaultEpoch :=
    honce 0 2 run₁ run₃ (by decide) rfl rfl rfl
  exact absurd hle (by decide)

end Chronicle

end LedgerExport
