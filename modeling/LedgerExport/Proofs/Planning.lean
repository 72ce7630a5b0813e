import Mathlib.Data.List.Sort
import Mathlib.Order.MinMax
import LedgerExport.Proofs.Calls

/-!
# What a survey says and calls for

A survey holds the markers that were read, each in the list where it belongs, and nothing else
(`Survey.Sorts`). What it calls for is read off in `assess_inProgress` and `assess_ready`; the start
of a planned window is the greatest of the ends that its markers name (`frontier_isGreatest`).
-/

namespace LedgerExport

open Time

/-! ## Instants in order -/

/-- Instants are ordered by their seconds, and those of one second by their nanoseconds. -/
instance : LinearOrder Instant where
  le_refl a := .inr ⟨rfl, le_rfl⟩
  le_trans a b c hab hbc := by
    rcases hab with h | ⟨h, h'⟩ <;> rcases hbc with k | ⟨k, k'⟩
    · exact .inl (h.trans k)
    · exact .inl (k ▸ h)
    · exact .inl (h ▸ k)
    · exact .inr ⟨h.trans k, h'.trans k'⟩
  lt_iff_le_not_ge a b := by
    show (_ ∨ _ ∧ _) ↔ (_ ∨ _ ∧ _) ∧ ¬(_ ∨ _ ∧ _)
    omega
  le_antisymm a b hab hba := by
    have h : a.seconds = b.seconds ∧ a.nanos = b.nanos := by
      rcases hab with h | ⟨h, h'⟩ <;> rcases hba with k | ⟨k, k'⟩ <;> omega
    exact Instant.ext h.1 h.2
  le_total a b := by
    show (_ ∨ _ ∧ _) ∨ (_ ∨ _ ∧ _)
    omega
  toDecidableLE := inferInstance
  toDecidableLT := inferInstance
  max_def _ _ := rfl

/-- An instant cut to milliseconds has nothing more to cut. -/
theorem Time.Instant.cutToMillis_cutToMillis (t : Instant) :
    t.cutToMillis.cutToMillis = t.cutToMillis := by
  refine Instant.ext rfl ?_
  simp only [Instant.cutToMillis, nanosPerMilli]
  omega

/-- An instant cut to milliseconds lies in the same second, less than a millisecond before. -/
theorem Time.Instant.cutToMillis_bounds (t : Instant) :
    t.cutToMillis ≤ t ∧ t.cutToMillis.seconds = t.seconds ∧
      t.nanos < t.cutToMillis.nanos + nanosPerMilli := by
  refine ⟨.inr ⟨rfl, Nat.sub_le _ _⟩, rfl, ?_⟩
  simp only [cutToMillis, nanosPerMilli]
  omega

/-- An instant cut to milliseconds has whole milliseconds. -/
theorem Time.Instant.cutToMillis_nanos_mod (t : Instant) :
    t.cutToMillis.nanos % nanosPerMilli = 0 := by
  simp only [cutToMillis, nanosPerMilli]
  omega

/-- Cutting to milliseconds keeps the order. -/
theorem Time.Instant.cutToMillis_le {t u : Instant} (h : t ≤ u) :
    t.cutToMillis ≤ u.cutToMillis := by
  rcases h with h | ⟨h, h'⟩
  · exact .inl h
  · refine .inr ⟨h, ?_⟩
    simp only [Instant.cutToMillis, nanosPerMilli]
    omega

namespace Survey

/-! ## Surveys -/

variable {keyPrefix : String} {completed : List Marker}
  {readings : List (Marker × Except ManifestError Manifest)} {s : Survey}

/-- The survey has each of the markers in the list where it belongs. -/
structure Sorts (completed : List Marker)
    (readings : List (Marker × Except ManifestError Manifest)) (s : Survey) : Prop where
  /-- The markers of starts with a manifest. -/
  started : s.started.Perm (readings.filterMap readable?)
  /-- The markers of completions. -/
  completed : s.completed.Perm completed
  /-- The markers of starts without a manifest. -/
  unreadable : s.unreadable.Perm (readings.filterMap unreadable?)
  /-- Some marker of a start has a manifest if there is any. -/
  readable : s.started = [] → readings = []

/-- The survey has the markers in the order of their keys, and no key twice in a list. -/
structure Sorted (s : Survey) : Prop where
  /-- The markers of starts with a manifest. -/
  started : s.started.Pairwise fun a b => a.key < b.key
  /-- The markers of completions. -/
  completed : s.completed.Pairwise fun a b => a.key < b.key
  /-- The markers of starts without a manifest. -/
  unreadable : s.unreadable.Pairwise fun a b => a.key < b.key

/-- A list sorted by a key, which needs no sorting when it is in order. -/
def sortedBy {α : Type} (key : α → String) (l : List α) : List α :=
  if l.Pairwise (fun a b => key a ≤ key b) then l else l.mergeSort fun a b => key a ≤ key b

/-- A list that is sorted is the list sorted by merging. -/
theorem sortedBy_eq {α : Type} (key : α → String) (l : List α) :
    sortedBy key l = l.mergeSort fun a b => key a ≤ key b := by
  unfold sortedBy
  split
  · rename_i h
    exact (List.mergeSort_of_pairwise (by simpa using h)).symm
  · rfl

/-- The survey of readings in a form that can be evaluated when they are in order. -/
def ofReadingsInOrder (keyPrefix : String) (completed : List Marker)
    (readings : List (Marker × Except ManifestError Manifest)) : Except Failure Survey :=
  let started := readings.filterMap readable?
  let unreadable := readings.filterMap unreadable?
  if !unreadable.isEmpty && started.isEmpty then
    .error (.allMalformed keyPrefix unreadable.length)
  else
    .ok ⟨sortedBy (·.key) started, sortedBy (·.key) completed, sortedBy (·.key) unreadable⟩

/-- The two forms are equal. -/
theorem ofReadings_eq_inOrder : ofReadings = ofReadingsInOrder := by
  funext keyPrefix completed readings
  simp only [ofReadings, ofReadingsInOrder, sortedBy_eq]

/-- A reading is of a marker with a manifest or of one without. -/
theorem readable?_or_unreadable? (x : Marker × Except ManifestError Manifest) :
    (∃ m, readable? x = some m ∧ m.marker = x.1) ∨ unreadable? x = some x.1 := by
  rcases x with ⟨marker, e | manifest⟩
  · exact .inr rfl
  · exact .inl ⟨⟨marker, manifest⟩, rfl, rfl⟩

/-- What is made of a reading with a manifest has its marker. -/
theorem marker_of_readable? {x : Marker × Except ManifestError Manifest} {m : StartedMarker}
    (h : readable? x = some m) : m.marker = x.1 := by
  rcases x with ⟨marker, e | manifest⟩ <;> cases h
  rfl

/-- What is made of a reading without a manifest is its marker. -/
theorem marker_of_unreadable? {x : Marker × Except ManifestError Manifest} {m : Marker}
    (h : unreadable? x = some m) : m = x.1 := by
  rcases x with ⟨marker, e | manifest⟩ <;> cases h
  rfl

/-- A survey sorts the markers that it is made from. -/
theorem sorts_ofReadings (h : ofReadings keyPrefix completed readings = .ok s) :
    s.Sorts completed readings := by
  rw [ofReadings] at h
  split at h
  · cases h
  rename_i hsome
  obtain rfl := Except.ok.inj h
  refine ⟨List.mergeSort_perm .., List.mergeSort_perm .., List.mergeSort_perm .., fun hnil => ?_⟩
  -- Without a readable marker there is no unreadable one either, or the survey would have failed.
  have hstarted : readings.filterMap readable? = [] :=
    List.nil_perm.1 (hnil ▸ List.mergeSort_perm _ _)
  have hunreadable : readings.filterMap unreadable? = [] := by simpa [hstarted] using hsome
  -- A reading would be in one of the two lists.
  refine List.eq_nil_iff_forall_not_mem.2 fun x hx => ?_
  rcases readable?_or_unreadable? x with ⟨m, hm, -⟩ | hx'
  · exact List.eq_nil_iff_forall_not_mem.1 hstarted m (List.mem_filterMap.2 ⟨x, hx, hm⟩)
  · exact List.eq_nil_iff_forall_not_mem.1 hunreadable _ (List.mem_filterMap.2 ⟨x, hx, hx'⟩)

/-- A list that has been sorted is in the order of its keys. -/
theorem pairwise_mergeSort {α : Type} (key : α → String) (l : List α) :
    (l.mergeSort fun a b => key a ≤ key b).Pairwise fun a b => key a ≤ key b := by
  have hsorted : (l.mergeSort fun a b => key a ≤ key b).Pairwise fun a b =>
      decide (key a ≤ key b) = true :=
    List.pairwise_mergeSort (fun a b c => by simpa using String.le_trans)
      (fun a b => by simpa using String.le_total (key a) (key b)) l
  simpa using hsorted

/-- Two lists of the same members, each in the order of different keys, are equal. -/
theorem eq_of_sorted {α : Type} {key : α → String} {l l' : List α}
    (h : l.Pairwise fun a b => key a < key b) (h' : l'.Pairwise fun a b => key a < key b)
    (hmem : ∀ a, a ∈ l ↔ a ∈ l') : l = l' := by
  have hirrefl : Std.Irrefl fun a b => key a < key b := ⟨fun a => String.lt_irrefl (key a)⟩
  have hantisymm : Std.Antisymm fun a b => key a < key b :=
    ⟨fun a b hab hba => absurd hab (String.lt_asymm hba)⟩
  exact h.eq_of_mem_iff h' hmem

/-- Elements in the order of different keys have different keys. -/
theorem nodup_keys {α : Type} {key : α → String} {l : List α}
    (h : l.Pairwise fun a b => key a < key b) : (l.map key).Nodup := by
  rw [List.Nodup, List.pairwise_map]
  refine h.imp fun {a b} hlt heq => ?_
  exact String.lt_irrefl (key b) (heq ▸ hlt)

/-- Elements in order that have different keys are strictly in order. -/
theorem pairwise_lt {α : Type} {key : α → String} {l : List α}
    (hle : l.Pairwise fun a b => key a ≤ key b) (hnodup : (l.map key).Nodup) :
    l.Pairwise fun a b => key a < key b := by
  rw [List.Nodup, List.pairwise_map] at hnodup
  refine (hle.and hnodup).imp fun {a b} hab => ?_
  rw [← String.not_le]
  exact fun hba => hab.2 (String.le_antisymm hab.1 hba)

/-- What is made of elements with different keys has different keys if it keeps them. -/
theorem nodup_filterMap {α β : Type} {f : α → Option β} {key : α → String} {key' : β → String}
    {l : List α} (hkey : ∀ a b, f a = some b → key' b = key a) (h : (l.map key).Nodup) :
    ((l.filterMap f).map key').Nodup := by
  rw [List.Nodup, List.pairwise_map] at h ⊢
  refine List.pairwise_filterMap.2 (h.imp fun hne x hx y hy => ?_)
  rwa [hkey _ _ hx, hkey _ _ hy]

/-- A survey names its markers in the order of their keys. -/
theorem pairwise_ofReadings (h : ofReadings keyPrefix completed readings = .ok s) :
    (s.started.Pairwise fun a b => a.key ≤ b.key) ∧
      (s.completed.Pairwise fun a b => a.key ≤ b.key) ∧
        s.unreadable.Pairwise fun a b => a.key ≤ b.key := by
  rw [ofReadings] at h
  split at h
  · cases h
  obtain rfl := Except.ok.inj h
  exact ⟨pairwise_mergeSort StartedMarker.key _, pairwise_mergeSort Marker.key _,
    pairwise_mergeSort Marker.key _⟩

/-- A survey of markers with different keys is sorted. -/
theorem sorted_ofReadings (h : ofReadings keyPrefix completed readings = .ok s)
    (hcompleted : (completed.map (·.key)).Nodup) (hreadings : (readings.map (·.1.key)).Nodup) :
    s.Sorted := by
  have hsorts := sorts_ofReadings h
  obtain ⟨hstarted, hcompleted', hunreadable⟩ := pairwise_ofReadings h
  refine ⟨pairwise_lt hstarted ((hsorts.started.map _).nodup_iff.2 ?_),
    pairwise_lt hcompleted' ((hsorts.completed.map _).nodup_iff.2 hcompleted),
    pairwise_lt hunreadable ((hsorts.unreadable.map _).nodup_iff.2 ?_)⟩
  · exact nodup_filterMap (fun _ _ hx => congrArg Marker.key (marker_of_readable? hx)) hreadings
  · exact nodup_filterMap (fun _ _ hx => congrArg Marker.key (marker_of_unreadable? hx)) hreadings

/-- There is a survey of readings if one of them is a manifest. -/
theorem exists_ofReadings {marker : Marker} {manifest : Manifest}
    (h : (marker, .ok manifest) ∈ readings) (keyPrefix : String) (completed : List Marker) :
    ∃ survey, ofReadings keyPrefix completed readings = .ok survey := by
  have hstarted : (⟨marker, manifest⟩ : StartedMarker) ∈ readings.filterMap readable? :=
    List.mem_filterMap.2 ⟨_, h, rfl⟩
  have hne : (readings.filterMap readable?).isEmpty = false := by
    rw [List.isEmpty_eq_false_iff_exists_mem]
    exact ⟨_, hstarted⟩
  exact ⟨_, if_neg (by simp [hne])⟩

/-- When markers have been read and none has a manifest, there is no survey. -/
theorem ofReadings_allMalformed (hsome : readings ≠ [])
    (h : ∀ x ∈ readings, ∃ e, x.2 = .error e) :
    ofReadings keyPrefix completed readings =
      .error (.allMalformed keyPrefix readings.length) := by
  have hstarted : readings.filterMap readable? = [] := List.filterMap_eq_nil_iff.2 fun x hx => by
    obtain ⟨e, he⟩ := h x hx
    rw [← Prod.eta x, he]
    rfl
  have hunreadable : readings.filterMap unreadable? = readings.map (·.1) :=
    List.filterMap_eq_map_iff_forall_eq_some.2 fun x hx => by
      obtain ⟨e, he⟩ := h x hx
      rw [← Prod.eta x, he]
      rfl
  rw [ofReadings, hstarted, hunreadable, List.length_map]
  exact if_pos (by simpa using hsome)

/-- A survey has the markers of starts that were read and have a manifest. -/
theorem Sorts.mem_started (h : s.Sorts completed readings) {m : StartedMarker} :
    m ∈ s.started ↔ (m.marker, .ok m.manifest) ∈ readings := by
  rw [h.started.mem_iff, List.mem_filterMap]
  constructor
  · rintro ⟨⟨marker, e | manifest⟩, hx, hm⟩
    · cases hm
    · cases hm
      exact hx
  · exact fun hm => ⟨_, hm, rfl⟩

/-- A survey has the markers of starts that were read and have no manifest. -/
theorem Sorts.mem_unreadable (h : s.Sorts completed readings) {m : Marker} :
    m ∈ s.unreadable ↔ ∃ e, (m, .error e) ∈ readings := by
  rw [h.unreadable.mem_iff, List.mem_filterMap]
  constructor
  · rintro ⟨⟨marker, e | manifest⟩, hx, hm⟩
    · cases hm
      exact ⟨e, hx⟩
    · cases hm
  · exact fun ⟨e, hm⟩ => ⟨_, hm, rfl⟩

/-- A survey has a marker of completion of a group if one was listed. -/
theorem Sorts.hasCompleted_iff (h : s.Sorts completed readings) {group : String} :
    s.hasCompleted group = true ↔ ∃ c ∈ completed, c.group = group := by
  simp [hasCompleted, h.completed.mem_iff]

/-- Without running exports, each marker of a start with a manifest has one of completion. -/
theorem hasCompleted_of_running_nil (h : s.running = []) {m : StartedMarker} (hm : m ∈ s.started) :
    s.hasCompleted m.group = true := by
  simpa using List.filter_eq_nil_iff.1 h m hm

/-- Without blocking markers, each marker of a start without a manifest has one of completion. -/
theorem hasCompleted_of_blocking_nil (h : s.blocking = []) {m : Marker} (hm : m ∈ s.unreadable) :
    s.hasCompleted m.group = true := by
  simpa using List.filter_eq_nil_iff.1 h m hm

/-! ## The frontier -/

/-- The frontier is the greatest end if there is any. -/
theorem frontier_eq (s : Survey) (epoch : Instant) :
    s.frontier epoch = (s.started.map (·.stop)).max?.getD epoch := by
  rw [frontier]
  split
  · rename_i h
    rw [h]
    rfl
  · rename_i h
    rw [h]
    rfl

/-- Without a marker that has a manifest, the frontier is the epoch. -/
theorem frontier_nil {epoch : Instant} (h : s.started = []) : s.frontier epoch = epoch := by
  rw [frontier_eq, h]
  rfl

/-- The frontier is the greatest of the ends of the windows that the survey knows. -/
theorem frontier_isGreatest (epoch : Instant) {t : Instant} (h : s.started ≠ []) :
    s.frontier epoch = t ↔ (∃ m ∈ s.started, m.stop = t) ∧ ∀ m ∈ s.started, m.stop ≤ t := by
  -- There is a greatest end as there is an end, and the frontier is just that.
  have hne : s.started.map (·.stop) ≠ [] := by simpa using h
  obtain ⟨u, hu⟩ := Option.isSome_iff_exists.1 (List.isSome_max?_iff.2 hne)
  have hiff : (s.started.map (·.stop)).max? = some t ↔
      (∃ m ∈ s.started, m.stop = t) ∧ ∀ m ∈ s.started, m.stop ≤ t := by
    rw [List.max?_eq_some_iff]
    simp
  rw [frontier_eq, ← hiff, hu, Option.getD_some, Option.some_inj]

/-! ## Assessments -/

variable {now epoch : Instant} {layout : Layout}

/-- The markers of starts and of completions of the same groups are moved, each into the folder for
the end of its window. -/
theorem mem_moves {move : Move} :
    move ∈ s.moves layout ↔ ∃ m ∈ s.started,
      (∃ c ∈ s.completed, c.group = m.group ∧ move = ⟨c.key, layout.archiveKey c.key m.stop⟩) ∨
        move = ⟨m.key, layout.archiveKey m.key m.stop⟩ := by
  simp [moves, movesOf, completedOf, and_assoc, eq_comm (a := move)]

/-- Nothing is submitted only while some export has not completed. -/
theorem assess_inProgress {running : List StartedMarker} {unreadable : List Marker}
    (h : s.assess now epoch layout = .ok (.inProgress running unreadable)) :
    running = s.running ∧ unreadable = s.blocking ∧ (s.running ≠ [] ∨ s.blocking ≠ []) := by
  rw [assess] at h
  split at h
  · rw [nextWindow] at h
    split at h <;> cases h
  · rename_i hsome
    cases h
    exact ⟨rfl, rfl, by simpa [imp_iff_not_or] using hsome⟩

/-- While some export has not completed, nothing is submitted. -/
theorem assess_of_unfinished (h : s.running ≠ [] ∨ s.blocking ≠ []) :
    s.assess now epoch layout = .ok (.inProgress s.running s.blocking) := by
  rw [assess, if_neg]
  simpa [imp_iff_not_or] using h

/-- A window is submitted just when every export has completed and it is not empty; it goes from the
frontier to the present, and the markers of all exports are moved. -/
theorem assess_ready {plan : Plan} :
    s.assess now epoch layout = .ok (.ready plan) ↔
      s.running = [] ∧ s.blocking = [] ∧ s.frontier epoch < now ∧
        plan = ⟨⟨s.frontier epoch, now⟩, s.moves layout⟩ := by
  constructor
  · intro h
    rw [assess] at h
    split at h
    · rename_i hnone
      rw [nextWindow] at h
      split at h
      · rename_i hlt
        obtain rfl := Assessment.ready.inj (Except.ok.inj h)
        simp only [Bool.and_eq_true, List.isEmpty_iff] at hnone
        exact ⟨hnone.1, hnone.2, hlt, rfl⟩
      · cases h
    · cases h
  · rintro ⟨hr, hb, hlt, rfl⟩
    rw [assess, hr, hb, nextWindow, if_pos hlt]
    rfl

end Survey

end LedgerExport
