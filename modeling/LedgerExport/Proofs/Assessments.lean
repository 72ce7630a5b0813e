import Mathlib.Data.List.Perm.Basic
import Mathlib.Order.Bounds.Defs
import LedgerExport.Proofs.Planning

/-!
# What a survey calls for

`Survey.CallsFor` says of the markers of a survey what it calls for, and `assess_eq_iff` that the
assessment is just that. It speaks of markers and groups and not of their order, and so two surveys
with the same markers in a different order (`Survey.Shuffles`) call for the same, up to the order of
what they list (`Assessment.Alike`).
-/

namespace LedgerExport

open Time

/-- Two assessments are the same up to the order of the markers and the moves that they list. -/
inductive Assessment.Alike : Except Failure Assessment → Except Failure Assessment → Prop
  /-- The same failure. -/
  | failed (e : Failure) : Alike (.error e) (.error e)
  /-- The same exports have not completed. -/
  | inProgress {running running' : List StartedMarker} {unreadable unreadable' : List Marker} :
    running.Perm running' → unreadable.Perm unreadable' →
    Alike (.ok (.inProgress running unreadable)) (.ok (.inProgress running' unreadable'))
  /-- The same window is submitted, and the same moves are made. -/
  | ready (window : Window) {moves moves' : List Move} : moves.Perm moves' →
    Alike (.ok (.ready ⟨window, moves⟩)) (.ok (.ready ⟨window, moves'⟩))

namespace Survey

variable {s s' : Survey} {now epoch : Instant} {layout : Layout} {group : String}

/-- No marker of a completion belongs to the group. -/
def Unfinished (s : Survey) (group : String) : Prop := ∀ c ∈ s.completed, c.group ≠ group

instance (s : Survey) (group : String) : Decidable (s.Unfinished group) :=
  inferInstanceAs (Decidable (∀ c ∈ s.completed, c.group ≠ group))

/-- A marker of a start, readable or not, is without a marker of completion. -/
def Waits (s : Survey) : Prop :=
  (∃ m ∈ s.started, s.Unfinished m.group) ∨ ∃ u ∈ s.unreadable, s.Unfinished u.group

/-- The next window starts at this time: the greatest of the ends, or the epoch if there is none. -/
def ResumesAt (s : Survey) (epoch t : Instant) : Prop :=
  if s.started = [] then t = epoch
  else IsGreatest {stop | ∃ m ∈ s.started, m.stop = stop} t

/-- The markers of an export: those of its completion, and behind them the one of its start. -/
def markersOf (s : Survey) (m : StartedMarker) : List Marker :=
  s.completed.filter (·.group = m.group) ++ [m.marker]

/-- What a survey calls for at the time `now`. -/
inductive CallsFor (s : Survey) (now epoch : Instant) (layout : Layout) :
    Except Failure Assessment → Prop
  /-- All markers of starts without one of completion are named, in the order of the survey. -/
  | unfinished : s.Waits → CallsFor s now epoch layout (.ok (.inProgress
      (s.started.filter (s.Unfinished ·.group)) (s.unreadable.filter (s.Unfinished ·.group))))
  /-- No time has passed since the end of the latest window. -/
  | upToDate {t : Instant} : ¬s.Waits → s.ResumesAt epoch t → now ≤ t →
    CallsFor s now epoch layout (.error (.emptyWindow (t.written .millis) (now.written .millis)))
  /-- The next window reaches up to now. The markers of one export after the other are moved, to
  where the end of that export's window says. -/
  | ready {t : Instant} : ¬s.Waits → s.ResumesAt epoch t → t < now →
    CallsFor s now epoch layout (.ok (.ready ⟨⟨t, now⟩, s.started.flatMap fun m =>
      (s.markersOf m).map fun x => ⟨x.key, layout.archiveKey x.key m.stop⟩⟩))

/-! ## The assessment -/

/-- A group is unfinished when it has no marker of completion. -/
theorem not_hasCompleted (s : Survey) (group : String) :
    (!s.hasCompleted group) = decide (s.Unfinished group) := by
  have hiff : s.hasCompleted group = false ↔ s.Unfinished group := by
    simp [hasCompleted, Unfinished]
  rw [Bool.eq_iff_iff, Bool.not_eq_true', hiff, decide_eq_true_iff]

/-- The running exports are those without a marker of completion. -/
theorem running_eq (s : Survey) : s.running = s.started.filter (s.Unfinished ·.group) := by
  simp only [running, not_hasCompleted]

/-- The blocking markers are those without a marker of completion. -/
theorem blocking_eq (s : Survey) : s.blocking = s.unreadable.filter (s.Unfinished ·.group) := by
  simp only [blocking, not_hasCompleted]

/-- There is something to wait for when an export runs or a marker blocks. -/
theorem waits_iff : s.Waits ↔ s.running ≠ [] ∨ s.blocking ≠ [] := by
  simp [Waits, running_eq, blocking_eq, List.filter_eq_nil_iff]

/-- There is nothing to wait for when no export runs and no marker blocks. -/
theorem not_waits_iff : ¬s.Waits ↔ s.running = [] ∧ s.blocking = [] := by
  rw [waits_iff, not_or, not_not, not_not]

/-- The next window starts at the frontier. -/
theorem resumesAt_iff {t : Instant} : s.ResumesAt epoch t ↔ s.frontier epoch = t := by
  unfold ResumesAt
  split
  · rename_i hnone
    rw [frontier_nil hnone, eq_comm]
  · rename_i hsome
    rw [frontier_isGreatest epoch hsome]
    refine and_congr_right fun _ => ⟨fun h m hm => h ⟨m, hm, rfl⟩, ?_⟩
    rintro h _ ⟨m, hm, rfl⟩
    exact h m hm

/-- The markers that are moved are those of one export after the other. -/
theorem moves_eq (s : Survey) (layout : Layout) : s.moves layout = s.started.flatMap fun m =>
    (s.markersOf m).map fun x => ⟨x.key, layout.archiveKey x.key m.stop⟩ := by
  refine List.flatMap_congr fun m _ => ?_
  rw [movesOf, markersOf, List.map_append]
  rfl

/-- A survey is assessed as what it calls for. -/
theorem CallsFor.assess_eq {r : Except Failure Assessment} (h : s.CallsFor now epoch layout r) :
    s.assess now epoch layout = r := by
  cases h with
  | unfinished hwaits => rw [assess_of_unfinished (waits_iff.1 hwaits), running_eq, blocking_eq]
  | upToDate hnone ht hle =>
    obtain ⟨hrunning, hblocking⟩ := not_waits_iff.1 hnone
    obtain rfl := resumesAt_iff.1 ht
    rw [assess, hrunning, hblocking, nextWindow, if_neg (not_lt.2 hle)]
    rfl
  | ready hnone ht hlt =>
    obtain ⟨hrunning, hblocking⟩ := not_waits_iff.1 hnone
    obtain rfl := resumesAt_iff.1 ht
    rw [← moves_eq]
    exact assess_ready.2 ⟨hrunning, hblocking, hlt, rfl⟩

/-- Every survey calls for something. -/
theorem exists_callsFor (s : Survey) (now epoch : Instant) (layout : Layout) :
    ∃ r, s.CallsFor now epoch layout r := by
  have hresumes : s.ResumesAt epoch (s.frontier epoch) := resumesAt_iff.2 rfl
  by_cases hwaits : s.Waits
  · exact ⟨_, .unfinished hwaits⟩
  · rcases lt_or_ge (s.frontier epoch) now with hlt | hle
    · exact ⟨_, .ready hwaits hresumes hlt⟩
    · exact ⟨_, .upToDate hwaits hresumes hle⟩

/-- A survey is assessed as just what it calls for. -/
theorem assess_eq_iff {r : Except Failure Assessment} :
    s.assess now epoch layout = r ↔ s.CallsFor now epoch layout r := by
  constructor
  · rintro rfl
    obtain ⟨r, hr⟩ := exists_callsFor s now epoch layout
    rw [hr.assess_eq]
    exact hr
  · exact CallsFor.assess_eq

/-! ## What is never moved -/

/-- The keys of all markers. -/
def keys (s : Survey) : List String :=
  s.started.map (·.key) ++ (s.completed.map (·.key) ++ s.unreadable.map (·.key))

/-- A marker of a completion is orphaned when none of a start belongs to its group. -/
theorem mem_orphaned {o : Marker} : o ∈ s.orphaned ↔ o ∈ s.completed ∧
    (∀ m ∈ s.started, m.group ≠ o.group) ∧ ∀ u ∈ s.unreadable, u.group ≠ o.group := by
  simp [orphaned]

/-- What is moved is the marker of a start, or one of a completion that is not orphaned. -/
theorem source_of_mem_moves {move : Move} (h : move ∈ s.moves layout) :
    (∃ m ∈ s.started, move.source = m.key) ∨
      ∃ c ∈ s.completed, c ∉ s.orphaned ∧ move.source = c.key := by
  obtain ⟨m, hm, ⟨c, hc, hgroup, rfl⟩ | rfl⟩ := mem_moves.1 h
  · refine .inr ⟨c, hc, fun horphaned => ?_, rfl⟩
    exact (mem_orphaned.1 horphaned).2.1 m hm hgroup.symm
  · exact .inl ⟨m, hm, rfl⟩

/-- When no two markers have the same key, neither an unreadable marker nor an orphaned one is
moved. -/
theorem source_ne_of_nodup (hkeys : s.keys.Nodup) {move : Move} (h : move ∈ s.moves layout)
    {x : Marker} (hx : x ∈ s.unreadable ∨ x ∈ s.orphaned) : move.source ≠ x.key := by
  obtain ⟨-, hrest, hstarted⟩ := List.nodup_append.1 hkeys
  obtain ⟨hcompleted, -, hother⟩ := List.nodup_append.1 hrest
  -- An unreadable marker is in no other list, and an orphaned one only among those of completions.
  have hlisted : x.key ∈ s.completed.map (·.key) ++ s.unreadable.map (·.key) := by
    rcases hx with hx | hx
    · exact List.mem_append_right _ (List.mem_map_of_mem hx)
    · exact List.mem_append_left _ (List.mem_map_of_mem (mem_orphaned.1 hx).1)
  intro heq
  rcases source_of_mem_moves h with ⟨m, hm, hsource⟩ | ⟨c, hc, hpaired, hsource⟩
  · exact hstarted m.key (List.mem_map_of_mem hm) x.key hlisted (hsource.symm.trans heq)
  · have hkey : c.key = x.key := hsource.symm.trans heq
    rcases hx with hx | hx
    · exact hother c.key (List.mem_map_of_mem hc) x.key (List.mem_map_of_mem hx) hkey
    · obtain rfl := List.inj_on_of_nodup_map hcompleted hc (mem_orphaned.1 hx).1 hkey
      exact hpaired hx

/-! ## Surveys in a different order -/

/-- The same markers in a different order. -/
structure Shuffles (s s' : Survey) : Prop where
  /-- The markers of starts with their manifests. -/
  started : s.started.Perm s'.started
  /-- The markers of completions. -/
  completed : s.completed.Perm s'.completed
  /-- The unreadable markers of starts. -/
  unreadable : s.unreadable.Perm s'.unreadable

namespace Shuffles

/-- The same groups are unfinished. -/
theorem unfinished_iff (h : s.Shuffles s') : s.Unfinished group ↔ s'.Unfinished group := by
  simp only [Unfinished, h.completed.mem_iff]

/-- There is as much to wait for. -/
theorem waits_iff (h : s.Shuffles s') : s.Waits ↔ s'.Waits := by
  simp only [Waits, h.started.mem_iff, h.unreadable.mem_iff, h.unfinished_iff]

/-- The next window starts at the same time. -/
theorem resumesAt_iff (h : s.Shuffles s') {t : Instant} :
    s.ResumesAt epoch t ↔ s'.ResumesAt epoch t := by
  have hnil : s.started = [] ↔ s'.started = [] := by
    rw [← List.length_eq_zero_iff, h.started.length_eq, List.length_eq_zero_iff]
  simp only [ResumesAt, hnil, h.started.mem_iff]

/-- The same markers are unfinished. -/
theorem filter_unfinished (h : s.Shuffles s') {α : Type} {l l' : List α} (hl : l.Perm l')
    (groupOf : α → String) : (l.filter fun x => s.Unfinished (groupOf x)).Perm
      (l'.filter fun x => s'.Unfinished (groupOf x)) := by
  simp only [h.unfinished_iff]
  exact hl.filter _

/-- An export has the same markers. -/
theorem markersOf (h : s.Shuffles s') (m : StartedMarker) :
    (s.markersOf m).Perm (s'.markersOf m) :=
  (h.completed.filter _).append_right _

/-- Surveys with the same markers call for the same. -/
theorem alike (h : s.Shuffles s') (now epoch : Instant) (layout : Layout) :
    Assessment.Alike (s.assess now epoch layout) (s'.assess now epoch layout) := by
  generalize hr : s.assess now epoch layout = r
  cases assess_eq_iff.1 hr with
  | unfinished hwaits =>
    rw [assess_eq_iff.2 (.unfinished (h.waits_iff.1 hwaits))]
    exact .inProgress (h.filter_unfinished h.started _) (h.filter_unfinished h.unreadable _)
  | upToDate hnone ht hle =>
    rw [assess_eq_iff.2 (.upToDate (h.waits_iff.not.1 hnone) (h.resumesAt_iff.1 ht) hle)]
    exact .failed _
  | ready hnone ht hlt =>
    rw [assess_eq_iff.2 (.ready (h.waits_iff.not.1 hnone) (h.resumesAt_iff.1 ht) hlt)]
    exact .ready _ (h.started.flatMap fun m _ => (h.markersOf m).map _)

end Shuffles

/-- A survey is assessed as just what it calls for. A plan moves readable markers of starts and
markers of completions that are not orphaned, and no others; and surveys with the same markers in a
different order are assessed alike. -/
theorem assess_exact (s : Survey) (now epoch : Instant) (layout : Layout) :
    (∀ r, s.assess now epoch layout = r ↔ s.CallsFor now epoch layout r) ∧
    (∀ plan, s.assess now epoch layout = .ok (.ready plan) → ∀ move ∈ plan.moves,
      ((∃ m ∈ s.started, move.source = m.key) ∨
        ∃ c ∈ s.completed, c ∉ s.orphaned ∧ move.source = c.key) ∧
      (s.keys.Nodup → ∀ x, x ∈ s.unreadable ∨ x ∈ s.orphaned → move.source ≠ x.key)) ∧
    ∀ s', s.Shuffles s' →
      Assessment.Alike (s.assess now epoch layout) (s'.assess now epoch layout) := by
  refine ⟨fun r => assess_eq_iff, fun plan hplan move hmove => ?_,
    fun s' h => h.alike now epoch layout⟩
  obtain ⟨-, -, -, rfl⟩ := assess_ready.1 hplan
  exact ⟨source_of_mem_moves hmove, fun hkeys x hx => source_ne_of_nodup hkeys hmove hx⟩

/-- Markers of two exports that have completed, the first of them twice, with an unreadable marker
of the second one and an orphaned one. -/
def mixedSurvey : Survey :=
  let marker (kind : MarkerKind) (name group : String) : Marker :=
    ⟨"p/" ++ name ++ "." ++ kind.word, kind, "p/" ++ group⟩
  { started := [
      ⟨marker .started "a" "a", "x", ⟨1640995200, 0, by decide, Instant.start_lt⟩, none⟩,
      ⟨marker .started "b" "b", "y", ⟨1654041600, 0, by decide, Instant.start_lt⟩, none⟩]
    completed := [marker .completed "a" "a", marker .completed "a." "a", marker .completed "b" "b",
      marker .completed "c" "c"]
    unreadable := [marker .started "b." "b"] }

/-- The next window starts at the later of the two ends, and neither the unreadable marker nor the
orphaned one is moved; in reverse, the markers call for the same. -/
theorem mixed_survey_exact :
    let s := mixedSurvey
    let s' : Survey := ⟨s.started.reverse, s.completed.reverse, s.unreadable.reverse⟩
    let now : Instant := ⟨1704067200, 0, by decide, by decide⟩
    let layout := Layout.ofRoot "p/" "p/"
    ∃ plan, s.assess now now layout = .ok (.ready plan) ∧ plan.window.start.seconds = 1654041600 ∧
      plan.moves.map (·.source) = ["p/a.completed.manifest", "p/a..completed.manifest",
        "p/a.started.manifest", "p/b.completed.manifest", "p/b.started.manifest"] ∧
      s.keys.Nodup ∧ (∀ move ∈ plan.moves, ∀ x, x ∈ s.unreadable ∨ x ∈ s.orphaned →
        move.source ≠ x.key) ∧
      s.Shuffles s' ∧ Assessment.Alike (s.assess now now layout) (s'.assess now now layout) := by
  intro s s' now layout
  have hkeys : s.keys.Nodup := by decide +kernel
  have hshuffles : s.Shuffles s' := ⟨(List.reverse_perm _).symm, (List.reverse_perm _).symm,
    (List.reverse_perm _).symm⟩
  obtain ⟨-, hmoves, halike⟩ := assess_exact s now now layout
  have hplan : s.assess now now layout = .ok (.ready
      ⟨⟨s.frontier now, now⟩, s.moves layout⟩) := by decide +kernel
  exact ⟨_, hplan, by decide +kernel, by decide +kernel, hkeys,
    fun move hmove => (hmoves _ hplan move hmove).2 hkeys, hshuffles, halike s' hshuffles⟩

end Survey

end LedgerExport
