import LedgerExport.Proofs.Acceptances
import LedgerExport.Proofs.Completion
import LedgerExport.Proofs.FaultFree

/-!
# Chronicles

What happens to a store, to its exports and to their markers when invocations take their turns
without faults: exports are accepted, their markers are written, and they complete or are lost
(`Chronicle.Step`).

`Run.Latest` says what a store has of the latest export, and `Run.Precedes` what is known of an
export when another one is accepted after it. A turn in which nothing is accepted leaves the marker
of an export that is not lost (`Turn.holds_of_quarantine`); one in which a window is accepted leaves
no marker of a start at all when archived keys are not listed (`Turn.throughout_of_accepted`).
-/

namespace LedgerExport

open Time World

/-- An export that the service has accepted. -/
structure Run where
  /-- Its name. -/
  exportId : String
  /-- Its window. -/
  window : Window
  /-- The marker of its start, once it has been written. -/
  start? : Option Marker
  /-- The marker of its completion has been written. -/
  completed : Bool
  /-- The service has lost it. -/
  lost : Bool
deriving DecidableEq, Repr

/-- No marker of the group lies directly under the prefix. -/
def Settings.IsFresh (s : Settings) (m : Store) (group : String) : Prop :=
  ∀ y ∈ (m.listing s.bucket s.keyPrefix (some "/")).filterMap (Marker.classify? ·.key),
    y.group ≠ group

/-- The store, the exports that have been accepted so far, and the clock of the latest turn. -/
structure Chronicle where
  /-- The store. -/
  store : Store
  /-- The exports, in order. -/
  runs : List Run
  /-- The clock of the latest turn. -/
  clock : Option Instant

/-- The exports that the service accepts in a turn. -/
def Turn.begun {τ : Type} (s : Settings) (t : Turn τ) (m : Store) : List Run :=
  ((t.events s m).filterMap Event.accepted?).map fun x => ⟨x.1, x.2, none, false, false⟩

namespace Chronicle

/-- What can happen next. -/
inductive Step (s : Settings) : Chronicle → Chronicle → Prop
  /-- An object is written that is no marker. -/
  | data {c : Chronicle} (key : String) (body : ByteArray) (h : Marker.classify? key = none) :
    Step s c { c with store := c.store.put s.bucket key body }
  /-- The marker of the start of an export is written: a manifest with its name and with the end of
  its window, of a group of its own. -/
  | mark {c : Chronicle} {l k : List Run} {r : Run} (x : Marker) (body : ByteArray)
      (start : Option Instant) (runs : c.runs = l ++ r :: k) (unmarked : r.start? = none)
      (classified : Marker.classify? x.key = some x) (kind : x.kind = .started)
      (lists : Store.lists s.keyPrefix (some "/") x.key = true) (fresh : s.IsFresh c.store x.group)
      (manifest : Manifest.ofBytes body = .ok ⟨r.exportId, r.window.stop, start⟩) :
    Step s c { c with
      store := c.store.put s.bucket x.key body
      runs := l ++ { r with start? := some x } :: k }
  /-- The marker of the completion of an export is written. -/
  | complete {c : Chronicle} {l k : List Run} {r : Run} {x : Marker} (y : Marker)
      (body : ByteArray) (runs : c.runs = l ++ r :: k) (marked : r.start? = some x)
      (completed : r.completed = false) (lost : r.lost = false)
      (classified : Marker.classify? y.key = some y) (kind : y.kind = .completed)
      (group : y.group = x.group) (lists : Store.lists s.keyPrefix (some "/") y.key = true) :
    Step s c { c with
      store := c.store.put s.bucket y.key body
      runs := l ++ { r with completed := true } :: k }
  /-- An export that has not completed is lost. -/
  | lose {c : Chronicle} {l k : List Run} {r : Run} (runs : c.runs = l ++ r :: k)
      (completed : r.completed = false) (lost : r.lost = false) :
    Step s c { c with runs := l ++ { r with lost := true } :: k }
  /-- When every export has its marker, an invocation takes its turn, later than all before it and
  after the epoch. Nothing goes wrong in it, the service does not know just the exports that are
  lost, and it gives no name twice. -/
  | turn {c : Chronicle} {τ : Type} (t : Turn τ) (marked : ∀ r ∈ c.runs, r.start?.isSome = true)
      (clock : ∀ u ∈ c.clock, u < t.now) (epoch : s.epoch < t.now) (faults : t.faults = .none)
      (limit : t.limit = none)
      (lookups : ∀ ledger exportId (answer : Except JobFailure Lookup),
        (⟨.describe ledger exportId, answer⟩ : Event) ∈ t.events s c.store →
        (answer = .ok .unknown ↔ ∃ r ∈ c.runs, r.lost = true ∧ r.exportId = exportId))
      (names : ∀ x ∈ t.begun s c.store, ∀ r ∈ c.runs, x.exportId ≠ r.exportId) :
    Step s c ⟨t.after s c.store, c.runs ++ t.begun s c.store, some t.now⟩

/-- What can be reached, from a store, before anything has been accepted. -/
inductive Reached (s : Settings) (m : Store) : Chronicle → Prop
  /-- The start. -/
  | start : Reached s m ⟨m, [], none⟩
  /-- One step more. -/
  | step {c d : Chronicle} : Reached s m c → Step s c d → Reached s m d

/-- No window starts before the end of the window of an export that was accepted before it and has
completed. -/
def ExportsOnce (c : Chronicle) : Prop :=
  ∀ (i j : Nat) (r r' : Run), i < j → c.runs[i]? = some r → c.runs[j]? = some r' →
    r.completed = true → r.window.stop ≤ r'.window.start

/-- An export that was accepted after a completed one, and before another one, has completed. -/
def Resumes (c : Chronicle) : Prop :=
  ∀ (i j : Nat) (x r r' : Run), i < j → c.runs[i]? = some x → c.runs[j]? = some r →
    c.runs[j + 1]? = some r' → x.completed = true → r.completed = true

end Chronicle

/-! ## The marker of the latest export -/

namespace Run

variable {s : Settings} {m : Store} {r : Run} {x : Marker}

/-- The store has the marker of the start of an export, and of its completion, as far as they have
been written and not been moved. -/
structure Holds (s : Settings) (m : Store) (r : Run) (x : Marker) : Prop where
  /-- It is what the object with its key is. -/
  classified : Marker.classify? x.key = some x
  /-- It is a marker of a start. -/
  kind : x.kind = .started
  /-- It belongs directly under the prefix. -/
  lists : Store.lists s.keyPrefix (some "/") x.key = true
  /-- Its body gives the name of the export and the end of its window. -/
  reads : ∀ body, m.find? s.bucket x.key = some body →
    ∃ start, Manifest.ofBytes body = .ok ⟨r.exportId, r.window.stop, start⟩
  /-- It is there unless the export is lost. -/
  stays : r.lost = false → ∃ body, m.find? s.bucket x.key = some body
  /-- No other marker of a start is there if archived keys are not listed. -/
  only : s.layout.Apart → ∀ key body, s.Watches key → m.find? s.bucket key = some body → key = x.key
  /-- No marker of its completion is there before the export has completed. -/
  uncompleted : r.completed = false → ∀ y, ¬s.Completes m x.group y

/-- What the store has of the latest export. -/
structure Latest (s : Settings) (m : Store) (r : Run) : Prop where
  /-- A lost export does not complete. -/
  kept : r.completed = true → r.lost = false
  /-- Before its marker is written, there are no markers of starts if archived keys are not
  listed. -/
  unmarked : r.start? = none → s.layout.Apart → s.Throughout (fun _ => False) m
  /-- Its marker. -/
  marked : ∀ x ∈ r.start?, r.Holds s m x

/-- What is known of an export when another one is accepted after it. -/
structure Precedes (s : Settings) (r r' : Run) : Prop where
  /-- It has come to an end. -/
  ended : r.completed = true ∨ r.lost = true
  /-- Its marker has been written. -/
  marked : r.start?.isSome = true
  /-- If it has completed, the other one does not start before its end. -/
  next : r.completed = true → r.window.stop ≤ r'.window.start
  /-- If it has not, the other one starts at the epoch when archived keys are not listed. -/
  again : s.layout.Apart → r.completed = false → r'.window.start = s.epoch

/-- An export precedes another one whatever else is known of that one than its window. -/
theorem Precedes.of_window {r' r'' : Run} (h : r.Precedes s r') (hwindow : r''.window = r'.window) :
    r.Precedes s r'' :=
  ⟨h.ended, h.marked, by rw [hwindow]; exact h.next, by rw [hwindow]; exact h.again⟩

namespace Holds

variable {v : Sighting} {survey : Survey} {now : Instant} {w : Window}

/-- The survey has the marker of an export that is not lost. -/
theorem mem_started (h : r.Holds s m x) (hv : v.Reports (fun _ => True) s m)
    (taken : v.survey? s.keyPrefix = .ok survey) (hlost : r.lost = false) :
    ∃ start, (⟨x, ⟨r.exportId, r.window.stop, start⟩⟩ : StartedMarker) ∈ survey.started := by
  obtain ⟨body, hbody⟩ := h.stays hlost
  obtain ⟨start, hmanifest⟩ := h.reads body hbody
  exact ⟨start, (hv.mem_started taken (x := ⟨x, ⟨r.exportId, r.window.stop, start⟩⟩) trivial).2
    ⟨h.classified, h.kind, h.lists, body, hbody, hmanifest⟩⟩

/-- A marker with its key that the survey has is that marker. -/
theorem of_mem_started (h : r.Holds s m x) (hv : v.Reports (fun _ => True) s m)
    (taken : v.survey? s.keyPrefix = .ok survey) {y : StartedMarker} (hy : y ∈ survey.started)
    (hkey : y.key = x.key) :
    y.marker = x ∧ y.manifest.exportId = r.exportId ∧ y.stop = r.window.stop := by
  obtain ⟨hclass, -, -, body, hbody, hmanifest⟩ := (hv.mem_started taken trivial).1 hy
  rw [hkey] at hclass hbody
  obtain ⟨start, hread⟩ := h.reads body hbody
  have hsame : y.manifest = ⟨r.exportId, r.window.stop, start⟩ :=
    Except.ok.inj (hmanifest.symm.trans hread)
  refine ⟨Option.some.inj (hclass.symm.trans h.classified), ?_, ?_⟩
  · rw [hsame]
  · show y.manifest.stop = _
    rw [hsame]

/-- If a window is planned while its marker is there, the export has completed. -/
theorem completed_of_plans (h : r.Holds s m x) (hv : v.Reports (fun _ => True) s m)
    (hplans : s.Plans now v survey w) {y : StartedMarker} (hy : y ∈ survey.started)
    (hkey : y.key = x.key) : r.completed = true := by
  obtain ⟨hmarker, -⟩ := h.of_mem_started hv hplans.taken hy hkey
  have hgroup : survey.hasCompleted x.group = true :=
    hmarker ▸ Survey.hasCompleted_of_running_nil hplans.running hy
  obtain ⟨c, hclass, hkind, hhas, hgroup⟩ := (hv.hasCompleted_iff hplans.taken).1 hgroup
  by_contra hnot
  exact h.uncompleted (Bool.eq_false_iff.2 hnot) c ⟨hclass, hkind, hgroup, hhas⟩

/-- If archived keys are not listed, the survey has no marker of another start. -/
theorem key_eq (h : r.Holds s m x) (hv : v.Reports (fun _ => True) s m)
    (taken : v.survey? s.keyPrefix = .ok survey) (hapart : s.layout.Apart) {y : StartedMarker}
    (hy : y ∈ survey.started) : y.key = x.key := by
  obtain ⟨hclass, hkind, hlists, body, hbody, -⟩ := (hv.mem_started taken trivial).1 hy
  exact h.only hapart y.key body ⟨hlists, y.marker, hclass, hkind⟩ hbody

/-- An export precedes the one whose window is planned when its marker has been written. -/
theorem precedes (h : r.Holds s m x) (hlatest : r.Latest s m) (hmarked : r.start?.isSome = true)
    (hv : v.Reports (fun _ => True) s m) (hplans : s.Plans now v survey w) {r' : Run}
    (hr' : r'.window = w) : r.Precedes s r' := by
  have hstart : r'.window.start = survey.frontier s.epoch := by rw [hr', hplans.window_eq]
  refine ⟨?_, hmarked, fun hcompleted => ?_, fun hapart hnot => ?_⟩
  · -- If it is not lost, its marker is seen, and would stand in the way had it not completed.
    rcases hlost : r.lost with _ | _
    · obtain ⟨start, hy⟩ := h.mem_started hv hplans.taken hlost
      exact .inl (h.completed_of_plans hv hplans hy rfl)
    · exact .inr rfl
  · -- If it has completed, its end is one of those that the frontier is the greatest of.
    obtain ⟨start, hy⟩ := h.mem_started hv hplans.taken (hlatest.kept hcompleted)
    rw [hstart]
    exact ((Survey.frontier_isGreatest s.epoch (List.ne_nil_of_mem hy)).1 rfl).2 _ hy
  · -- If it has not, no marker is seen, as there is none but its own.
    rw [hstart]
    refine Survey.frontier_nil (List.eq_nil_iff_forall_not_mem.2 fun y hy => ?_)
    rw [h.completed_of_plans hv hplans hy (h.key_eq hv hplans.taken hapart hy)] at hnot
    cases hnot

/-! ### Objects that are written -/

/-- The markers of an export are still there when an object is written that is no marker of a
start. -/
theorem put {key : String} {body : ByteArray} {r' : Run} (h : r.Holds s m x)
    (hkey : ¬Marker.IsStart key) (hid : r'.exportId = r.exportId) (hwindow : r'.window = r.window)
    (hlost : r'.lost = r.lost)
    (uncompleted : r'.completed = false → ∀ y, ¬s.Completes (m.put s.bucket key body) x.group y) :
    r'.Holds s (m.put s.bucket key body) x := by
  -- Markers of starts are not touched, and those are all that the clauses are about.
  have hfind : ∀ k, Marker.IsStart k →
      (m.put s.bucket key body).find? s.bucket k = m.find? s.bucket k := fun k hk =>
    (Store.find?_put ..).trans (if_neg (by rintro ⟨-, rfl⟩; exact hkey hk))
  have hx : Marker.IsStart x.key := ⟨x, h.classified, h.kind⟩
  refine ⟨h.classified, h.kind, h.lists, ?_, ?_, fun hapart k b hk hb => ?_, uncompleted⟩
  · rw [hfind x.key hx, hid, hwindow]
    exact h.reads
  · rw [hfind x.key hx, hlost]
    exact h.stays
  · rw [hfind k hk.2] at hb
    exact h.only hapart k b hk hb

/-- The marker of an export that is written under a group of its own is the only one. -/
theorem of_mark {body : ByteArray} {start : Option Instant}
    (classified : Marker.classify? x.key = some x) (kind : x.kind = .started)
    (lists : Store.lists s.keyPrefix (some "/") x.key = true) (fresh : s.IsFresh m x.group)
    (manifest : Manifest.ofBytes body = .ok ⟨r.exportId, r.window.stop, start⟩)
    (hnone : s.layout.Apart → s.Throughout (fun _ => False) m) :
    r.Holds s (m.put s.bucket x.key body) x := by
  have hfind := Store.find?_put m s.bucket x.key body s.bucket
  have hself : (m.put s.bucket x.key body).find? s.bucket x.key = some body :=
    (hfind x.key).trans (if_pos ⟨rfl, rfl⟩)
  refine ⟨classified, kind, lists, fun b hb => ?_, fun _ => ⟨body, hself⟩,
    fun hapart k b hk hb => ?_, fun _ y hy => ?_⟩
  · obtain rfl := Option.some.inj (hself.symm.trans hb)
    exact ⟨start, manifest⟩
  · rw [hfind] at hb
    split at hb
    · rename_i hkey
      exact hkey.2.symm
    · exact (hnone hapart k b hk hb).elim
  · -- A marker of completion of the group would have been there before.
    obtain ⟨hlists, b, hb⟩ := hy.has
    rw [hfind] at hb
    split at hb
    · rename_i hkey
      have hsame : some y = some x := by rw [← hy.classified, ← hkey.2, classified]
      have hkind := hy.kind
      rw [Option.some.inj hsame, kind] at hkind
      cases hkind
    · refine fresh y (List.mem_filterMap.2 ⟨⟨y.key, b.size⟩, ?_, hy.classified⟩) hy.group_eq
      exact Store.mem_listing.2 ⟨hlists, b, hb, rfl⟩

end Holds

end Run

/-! ## Turns without faults -/

namespace Turn

variable {τ : Type} {s : Settings} {t : Turn τ} {m : Store} {r : Run} {x : Marker}

/-- A listed object stays as it is in a turn in which nothing is accepted unless it is deleted. -/
theorem find?_of_quarantine (h : ∀ e ∈ t.events s m, e.call.isChange = true →
      ∃ x, s.Quarantines (t.events s m) e.call x) {key : String}
    (hkey : Store.lists s.keyPrefix (some "/") key = true) :
    (t.after s m).find? s.bucket key = m.find? s.bucket key ∨
      (t.after s m).find? s.bucket key = none ∧
        (⟨.delete s.bucket key, .ok ()⟩ : Event) ∈ t.events s m := by
  show (t.after s m).find? s.bucket key = (t.world m).store.find? s.bucket key ∨ _
  refine (t.passes s m).find?_of_moves Store.find?_of_eq fun e he hchange => ?_
  obtain ⟨x, hmakes, -, v, survey, es', hes, hv, hx⟩ := h e he hchange
  refine ⟨_, hmakes, fun heq => ?_⟩
  -- A key in quarantine is not listed, so that nothing is copied to a listed one.
  have hlists := (reports hes).lists_of_mem_among
    (v.marker_mem_among hv (List.mem_of_mem_filter hx))
  have hnot := Layout.not_lists_quarantineKey (l := s.layout) hlists
  rw [show s.layout.quarantineKey x.marker.key = key from heq] at hnot
  exact absurd (hkey.symm.trans hnot) (by decide)

/-- The marker of an export is moved into quarantine only if the service does not know the
export. -/
theorem holds_of_quarantine (h : r.Holds s m x) (hchanges : ∀ e ∈ t.events s m,
      e.call.isChange = true → ∃ x, s.Quarantines (t.events s m) e.call x)
    (hknown : (⟨.describe s.ledger r.exportId, .ok .unknown⟩ : Event) ∈ t.events s m →
      r.lost = true) : r.Holds s (t.after s m) x := by
  -- What is listed at the end was there at the start.
  have hkept : ∀ {key body}, Store.lists s.keyPrefix (some "/") key = true →
      (t.after s m).find? s.bucket key = some body → m.find? s.bucket key = some body := by
    intro key body hkey hbody
    rcases find?_of_quarantine hchanges hkey with hsame | ⟨hgone, -⟩
    · rw [← hsame, hbody]
    · rw [hgone] at hbody
      cases hbody
  refine ⟨h.classified, h.kind, h.lists, fun body hbody => h.reads body (hkept h.lists hbody),
    fun hlost => ?_, fun hapart key body hkey hbody => h.only hapart key body hkey
      (hkept hkey.1 hbody), fun hnot y hy => ?_⟩
  · rcases find?_of_quarantine hchanges h.lists with hsame | ⟨-, hdeleted⟩
    · rw [hsame]
      exact h.stays hlost
    · -- The marker was deleted because its export is unknown.
      obtain ⟨y, hmakes, hunknown, v, survey, es', hes, hv, hy⟩ := hchanges _ hdeleted rfl
      have hkey : y.key = x.key := hmakes.of_delete.symm
      rw [(h.of_mem_started (reports hes) hv (List.mem_of_mem_filter hy) hkey).2.1] at hunknown
      rw [hknown hunknown] at hlost
      cases hlost
  · obtain ⟨hlists, body, hbody⟩ := hy.has
    exact h.uncompleted hnot y ⟨hy.classified, hy.kind, hy.group_eq, hlists, body,
      hkept hlists hbody⟩

section Accepted

variable {v : Sighting} {survey : Survey} {w : Window} {exportId : String} {es : List Event}
  (hes : t.events s m =
    v.events s.bucket s.keyPrefix ++ ⟨.submit (s.request w), .ok exportId⟩ :: es)
  (hplans : s.Plans t.now v survey w)

include hes hplans

/-- In a layout where no archived key is listed, a turn without faults makes all moves of its plan,
if the markers in it name one end. -/
theorem moved_ok (hapart : s.layout.Apart) (hfaults : t.faults = .none)
    {moved : Except StoreFailure Unit}
    (hmoves : Program.Traces (Move.relocateAll s.bucket (survey.moves s.layout)) es (some moved))
    (hstop : ∀ y ∈ survey.started, ∀ z ∈ survey.started, y.stop = z.stop) : moved = .ok () := by
  have hreports := reports hes
  have hv := hplans.taken
  refine Move.relocateAll_ok hmoves (passes_moves hes) hfaults
    (hreports.destination_ne_source hv hapart) (hreports.source_eq_of_destination hv)
    (fun a ha b hb heq => ?_) fun a ha => .inl (hreports.isSome_source hv a ha)
  -- Moves of one object go into the folder of one hour, for there is only one end.
  obtain ⟨x, _, ⟨y, hy, rfl, -⟩, rfl⟩ := (hreports.mem_moves_iff hv).1 ha
  obtain ⟨x', _, ⟨z, hz, rfl, -⟩, rfl⟩ := (hreports.mem_moves_iff hv).1 hb
  have hkey : x.key = x'.key := heq
  rw [hkey, hstop y ((hreports.mem_started_iff hv).2 hy) z ((hreports.mem_started_iff hv).2 hz)]

/-- In a layout where no archived key is listed, a turn without faults in which a window is accepted
leaves no markers of starts, if there was at most that of the latest export. -/
theorem throughout_of_accepted (hapart : s.layout.Apart) (hfaults : t.faults = .none)
    {moved : Except StoreFailure Unit}
    (hmoves : Program.Traces (Move.relocateAll s.bucket (survey.moves s.layout)) es (some moved))
    (hread : ∀ key body, s.Watches key → m.find? s.bucket key = some body →
      ∃ y ∈ survey.started, y.key = key)
    (hstop : ∀ y ∈ survey.started, ∀ z ∈ survey.started, y.stop = z.stop) :
    s.Throughout (fun _ => False) (t.after s m) := by
  have hok := moved_ok hes hplans hapart hfaults hmoves hstop
  -- A marker that is there at the end was there at the start, was read, and so has been moved.
  intro key body hkey hbody
  rcases find?_after hapart t m hkey.1 with hsame | ⟨hgone, -⟩
  · obtain ⟨y, hy, rfl⟩ := hread key body hkey (hsame ▸ hbody)
    rw [gone_of_moved hapart hes (hok ▸ hmoves) hy hkey.1] at hbody
    cases hbody
  · rw [hgone] at hbody
    cases hbody

end Accepted

end Turn

end LedgerExport
