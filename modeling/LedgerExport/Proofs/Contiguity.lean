import Mathlib.Data.List.Chain
import LedgerExport.Proofs.Acceptances
import LedgerExport.Proofs.Declarations
import LedgerExport.Proofs.Turns

/-!
# Accepted windows follow one another

While no export is lost, the windows that the service accepts follow one another without a gap and
without an overlap (`History.windows_contiguous`), whatever else goes wrong: calls may fail,
deadlines may cut invocations short anywhere, clocks may jump, and objects may arrive while an
invocation runs. The next window starts at the instant that is read from the marker of the one
before it. That is the end of that window, unless the clock was in a leap second within a minute,
which no text of a time can say.

The end of the latest window is kept in the store and nowhere else. `History.Sound` says how: the
marker of the latest export is readable directly under the prefix and names that end as clocks show
it, and no other marker of a start there names a later one. A turn in which nothing is accepted
leaves these markers as they are; one in which a window is accepted may move any of them, and from
then until its own marker is written no invocation takes place.
-/

namespace LedgerExport

open Time World Ion Ion.FlatObject

namespace Sighting

variable {s : Settings} {v : Sighting} {m : Store} {survey : Survey}

/-- The markers of starts in a survey are markers of starts directly under the prefix. -/
theorem Reports.watches (h : v.Reports s.Watches s m) (hv : v.survey? s.keyPrefix = .ok survey)
    {x : StartedMarker} (hx : x ∈ survey.started) : s.Watches x.key := by
  have hamong := v.marker_mem_among hv hx
  obtain ⟨hclass, hkind, -⟩ := Marker.mem_among.1 hamong
  exact ⟨h.lists_of_mem_among hamong, x.marker, hclass, hkind⟩

/-- Without markers of starts, the next window starts at the epoch. -/
theorem Reports.frontier_of_none (h : v.Reports s.Watches s m)
    (hv : v.survey? s.keyPrefix = .ok survey) (hnone : s.Throughout (fun _ => False) m) :
    survey.frontier s.epoch = s.epoch := by
  refine Survey.frontier_nil (List.eq_nil_iff_forall_not_mem.2 fun x hx => ?_)
  have hwatches := h.watches hv hx
  obtain ⟨-, -, -, body, hbody, -⟩ := (h.mem_started hv hwatches).1 hx
  exact hnone x.key body hwatches hbody

end Sighting

/-- The object is a marker of a start that names the time as the end of its window. -/
def Settings.Shows (s : Settings) (m : Store) (t : Instant) : Prop :=
  ∃ key body manifest, s.Watches key ∧ m.find? s.bucket key = some body ∧
    Manifest.ofBytes body = .ok manifest ∧ manifest.stop = t

/-- The body names no time after `t` as the end of a window. -/
def Manifest.EndsBy (t : Instant) (body : ByteArray) : Prop :=
  ∀ manifest, Manifest.ofBytes body = .ok manifest → manifest.stop ≤ t

namespace Sighting

variable {s : Settings} {v : Sighting} {m : Store} {survey : Survey}

/-- The next window starts at the latest end that a marker names. -/
theorem Reports.frontier_of_shows (h : v.Reports s.Watches s m)
    (hv : v.survey? s.keyPrefix = .ok survey) {t : Instant} (hshows : s.Shows m t)
    (hends : s.Throughout (Manifest.EndsBy t) m) : survey.frontier s.epoch = t := by
  obtain ⟨key, body, manifest, hwatches, hbody, hok, rfl⟩ := hshows
  obtain ⟨marker, hclass, hkind⟩ := hwatches.2
  obtain rfl := Marker.key_of_classify? hclass
  -- The survey has the marker that names the time, and none that names a later one.
  have hx : (⟨marker, manifest⟩ : StartedMarker) ∈ survey.started :=
    (h.mem_started hv (x := ⟨marker, manifest⟩) hwatches).2
      ⟨hclass, hkind, hwatches.1, body, hbody, hok⟩
  refine (Survey.frontier_isGreatest s.epoch (List.ne_nil_of_mem hx)).2
    ⟨⟨_, hx, rfl⟩, fun y hy => ?_⟩
  have hy' := h.watches hv hy
  obtain ⟨-, -, -, body', hbody', hok'⟩ := (h.mem_started hv hy').1 hy
  exact hends y.key body' hy' hbody' y.manifest hok'

end Sighting

/-! ## Turns with company -/

/-- The store in which objects have been put into a bucket. -/
def World.Store.arrive (m : Store) (bucket : String) (objects : List (String × ByteArray)) :
    Store :=
  objects.foldl (fun m o => m.put bucket o.1 o.2) m

/-- An invocation while others put objects into the bucket. -/
structure BusyTurn (τ : Type) extends Turn τ where
  /-- The objects that arrive just before each call. -/
  arrivals : Nat → List (String × ByteArray)

namespace BusyTurn

variable {τ : Type} {s : Settings} {t : BusyTurn τ} {m : Store}

/-- Answers a call, and counts it, when the objects have arrived that arrive before it. -/
def respond (bucket : String) (t : BusyTurn τ) : Responder (World τ × Nat)
  | c, (w, n) =>
    let w := { w with store := w.store.arrive bucket (t.arrivals n) }
    let (answer, w) := World.respond t.service c w
    (answer, (w, n + 1))

/-- What happens in a turn. -/
def course (s : Settings) (t : BusyTurn τ) (m : Store) :
    Course (World τ × Nat) (Except Failure Outcome) :=
  (s.invoke t.now).run.runWithin (t.respond s.bucket) t.cost t.limit (t.world m, 0)

/-- The calls that are answered in a turn. -/
def events (s : Settings) (t : BusyTurn τ) (m : Store) : List Event :=
  (s.invoke t.now).run.eventsFrom (t.respond s.bucket) t.cost t.limit (t.world m, 0) 0

/-- The store at the end of a turn. -/
def after (s : Settings) (t : BusyTurn τ) (m : Store) : Store := (t.course s m).state.1.store

/-- The names and the windows of the exports that the service accepts in a turn. -/
def accepted (s : Settings) (t : BusyTurn τ) (m : Store) : List (String × Window) :=
  (t.events s m).filterMap Event.accepted?

/-- The store that objects without watched keys arrive in keeps its watched objects. -/
theorem agree_arrive {objects : List (String × ByteArray)} (h : ∀ o ∈ objects, ¬s.Watches o.1)
    (m : Store) : m.Agree s.Watches s.bucket (m.arrive s.bucket objects) := by
  intro key hkey
  unfold World.Store.arrive
  induction objects generalizing m with
  | nil => rfl
  | cons o objects ih =>
    obtain ⟨ho, hrest⟩ := List.forall_mem_cons.1 h
    rw [List.foldl_cons, ih hrest, m.agree_put o.2 ho key hkey]

/-- A turn is one of the ways in which an invocation can go. -/
theorem unfolds (s : Settings) (t : BusyTurn τ) (m : Store) :
    s.Unfolds t.now (t.events s m) (t.course s m).result :=
  Settings.unfolds_of_traces (Program.traces_eventsFrom ..)

/-- Objects arrive in the store before one of the calls. -/
def Brings (bucket : String) (t : BusyTurn τ) (m m' : Store) : Prop :=
  ∃ n, m' = m.arrive bucket (t.arrivals n)

/-- The calls of a turn take the store from its start to its end, with what arrives between them. -/
theorem passes (s : Settings) (t : BusyTurn τ) (m : Store) :
    Store.Passes (t.Brings s.bucket) (t.world m).store (t.events s m) (t.after s m) := by
  have hstep (c : Call) (x : World τ × Nat) : ∃ m', t.Brings s.bucket x.1.store m' ∧
      m'.Answers ⟨c, (t.respond s.bucket c x).1⟩ (t.respond s.bucket c x).2.1.store :=
    ⟨_, ⟨x.2, rfl⟩, World.answers_respond t.service c _⟩
  exact Store.passes_eventsFrom (fun x : World τ × Nat => x.1.store) hstep t.cost t.limit
    (s.invoke t.now).run (t.world m, 0) 0

section Arrivals

variable (arrivals : ∀ n, ∀ o ∈ t.arrivals n, ¬s.Watches o.1)

include arrivals

/-- What arrives before a call leaves the watched objects, if it has no watched keys. -/
theorem agree_of_brings (m₁ m₂ : Store) (h : t.Brings s.bucket m₁ m₂) :
    m₁.Agree s.Watches s.bucket m₂ := by
  obtain ⟨n, rfl⟩ := h
  exact agree_arrive (arrivals n) m₁

/-- What is seen at the start of a turn is what the store has at watched keys. -/
theorem reports {v : Sighting} {es : List Event}
    (h : t.events s m = v.events s.bucket s.keyPrefix ++ es) : v.Reports s.Watches s m := by
  have hpasses := t.passes s m
  rw [h] at hpasses
  obtain ⟨m₁, hsight, -⟩ := Store.passes_append.1 hpasses
  obtain ⟨hlists, hlisted, hread⟩ :=
    (Sighting.reports_of_passes (agree_of_brings arrivals) hsight).1
  exact ⟨hlists, hlisted, hread⟩

/-- A turn leaves the watched objects when all that it could do is move them into quarantine and the
service knows every export. -/
theorem agree_of_known (hchanges : ∀ e ∈ t.events s m, e.call.isChange = true →
      ∃ x, s.Quarantines (t.events s m) e.call x)
    (known : ∀ e ∈ t.events s m, ¬e.IsUnknown) : m.Agree s.Watches s.bucket (t.after s m) := by
  -- A change would be a move into quarantine, for which an export has to be unknown.
  have hsame : ∀ e ∈ t.events s m, e.call.isChange = false := fun e he => by
    by_contra hchange
    obtain ⟨x, hx⟩ := hchanges e he (Bool.eq_true_of_not_eq_false hchange)
    exact known _ hx.unknown ⟨_, _, rfl⟩
  exact fun key hkey => (t.passes s m).agree (agree_of_brings arrivals) hsame key hkey

end Arrivals

end BusyTurn

/-! ## Histories -/

/-- The store, the exports that have been accepted so far, and those of them whose marker has not
been written yet. -/
structure History where
  /-- The store. -/
  store : Store
  /-- The names and the windows of the exports that were accepted, in order. -/
  accepted : List (String × Window)
  /-- Those whose marker has not been written. -/
  unmarked : List (String × Window)

namespace History

variable {s : Settings} {c d : History}

/-- The windows that were accepted, in order. -/
def windows (c : History) : List Window := c.accepted.map (·.2)

/-- What can happen next. -/
inductive Step (s : Settings) : History → History → Prop
  /-- An object arrives that is no marker of a start, or that does not lie directly under the
  prefix. -/
  | arrival {c : History} (key : String) (body : ByteArray) (h : ¬s.Watches key) :
    Step s c { c with store := c.store.put s.bucket key body }
  /-- The marker of an export is written: a JSON manifest under a name of one part. -/
  | mark {c : History} {l k : List (String × Window)} {x : String × Window} (name : String)
      (body : ByteArray) (pending : c.unmarked = l ++ x :: k) (single : '/' ∉ name.toList)
      (declares : Manifest.Declares body x.1 x.2.stop) :
    Step s c { c with
      store := c.store.put s.bucket (s.keyPrefix ++ name ++ ".started.manifest") body
      unmarked := l ++ k }
  /-- When every export has its marker, an invocation takes its turn, in which the service knows
  every export that it is asked about. -/
  | turn {c : History} {τ : Type} (t : BusyTurn τ) (marked : c.unmarked = [])
      (arrivals : ∀ n, ∀ o ∈ t.arrivals n, ¬s.Watches o.1)
      (known : ∀ e ∈ t.events s c.store, ¬e.IsUnknown) :
    Step s c ⟨t.after s c.store, c.accepted ++ t.accepted s c.store, t.accepted s c.store⟩

/-- What can be reached, from a store, before anything has been accepted. -/
inductive Reached (s : Settings) (m : Store) : History → Prop
  /-- The start. -/
  | start : Reached s m ⟨m, [], []⟩
  /-- One step more. -/
  | step {c d : History} : Reached s m c → Step s c d → Reached s m d

/-- What holds at every moment of a history. -/
structure Sound (s : Settings) (c : History) : Prop where
  /-- The first window starts at the epoch. -/
  first : ∀ w ∈ c.windows.head?, w.start = s.epoch
  /-- Each window starts where clocks show the end of the one before it. -/
  next : c.windows.IsChain fun w w' => w'.start = w.stop.shown
  /-- No window is empty. -/
  start_lt : ∀ w ∈ c.windows, w.start < w.stop
  /-- Windows end at whole milliseconds. -/
  cut : ∀ w ∈ c.windows, w.stop.cutToMillis = w.stop
  /-- Only the latest export may be without its marker. -/
  unmarked : c.unmarked = [] ∨ ∃ x ∈ c.accepted.getLast?, c.unmarked = [x]
  /-- There are no markers of starts before the first export. -/
  none : c.accepted = [] → s.Throughout (fun _ => False) c.store
  /-- No marker of a start names a later end than that of the latest window. -/
  endsBy : ∀ x ∈ c.accepted.getLast?, s.Throughout (Manifest.EndsBy x.2.stop.shown) c.store
  /-- One names that end, when the latest export has its marker. -/
  shows : c.unmarked = [] → ∀ x ∈ c.accepted.getLast?, s.Shows c.store x.2.stop.shown

/-! ### Steps -/

/-- Stores that agree at watched keys name the same ends of windows. -/
theorem shows_of_agree {t : Instant} {m m' : Store} (h : m.Agree s.Watches s.bucket m')
    (hm : s.Shows m t) : s.Shows m' t := by
  obtain ⟨key, body, manifest, hkey, hbody, hmanifest⟩ := hm
  exact ⟨key, body, manifest, hkey, by rwa [h key hkey], hmanifest⟩

/-- A step that accepts nothing and leaves the markers of starts alone preserves what holds. -/
theorem Sound.of_agree {m : Store} (h : c.Sound s) (hagree : c.store.Agree s.Watches s.bucket m) :
    Sound s { c with store := m } where
  first := h.first
  next := h.next
  start_lt := h.start_lt
  cut := h.cut
  unmarked := h.unmarked
  none hnone := Settings.throughout_of_agree hagree (h.none hnone)
  endsBy x hx := Settings.throughout_of_agree hagree (h.endsBy x hx)
  shows hmarked x hx := shows_of_agree hagree (h.shows hmarked x hx)

/-- The key of a marker under a name of one part is watched. -/
theorem watches_mark {name : String} (h : '/' ∉ name.toList) :
    s.Watches (s.keyPrefix ++ name ++ ".started.manifest") := by
  have hword : ".started.manifest".toList = '.' :: MarkerKind.started.word.toList := rfl
  have hslash : '/' ∉ (name ++ ".started.manifest").toList := by
    rw [String.toList_append, List.mem_append, not_or]
    exact ⟨h, by decide⟩
  rw [String.append_assoc]
  refine ⟨Store.lists_iff.2 ⟨_, rfl, hslash⟩, Marker.isStart_iff.2 ?_⟩
  -- Without a slash in the name, the word stands behind the last slash of the key.
  rw [String.toList_append, Text.cutAfterLast_append fun c hc => by
    rw [beq_eq_false_iff_ne]
    rintro rfl
    exact hslash hc]
  refine List.IsInfix.trans ?_ (List.suffix_append _ _).isInfix
  rw [String.toList_append, hword]
  exact ((List.suffix_cons _ _).trans (List.suffix_append _ _)).isInfix

/-- The writing of the marker of the latest export preserves what holds. -/
theorem Sound.mark {l k : List (String × Window)} {x : String × Window} {name : String}
    {body : ByteArray} (h : c.Sound s) (pending : c.unmarked = l ++ x :: k)
    (single : '/' ∉ name.toList) (declares : Manifest.Declares body x.1 x.2.stop) :
    Sound s { c with
      store := c.store.put s.bucket (s.keyPrefix ++ name ++ ".started.manifest") body
      unmarked := l ++ k } := by
  -- The marker is that of the latest export.
  obtain ⟨hlast, rfl, rfl⟩ : c.accepted.getLast? = some x ∧ l = [] ∧ k = [] := by
    rcases h.unmarked with hnil | ⟨y, hy, hone⟩
    · simp [hnil] at pending
    · rw [hone, eq_comm, List.append_eq_singleton_iff] at pending
      simp only [List.cons.injEq, reduceCtorEq, and_false, or_false] at pending
      obtain ⟨rfl, rfl, rfl⟩ := pending
      exact ⟨hy, rfl, rfl⟩
  have hx : x.2 ∈ c.windows := List.mem_map_of_mem (List.mem_of_getLast? hlast)
  obtain ⟨start, hbody⟩ := declares.ofBytes
  rw [← Instant.shown_cutToMillis, h.cut x.2 hx] at hbody
  have hfind := Store.find?_put c.store s.bucket (s.keyPrefix ++ name ++ ".started.manifest") body
    s.bucket
  refine ⟨h.first, h.next, h.start_lt, h.cut, .inl rfl, fun hnone => ?_, fun y hy => ?_,
    fun _ y hy => ?_⟩
  · rw [hnone] at hlast
    cases hlast
  · -- The new marker names the latest end itself, and the others are as they were.
    obtain rfl : x = y := Option.some.inj (hlast.symm.trans hy)
    intro key body' hkey hbody'
    rw [hfind] at hbody'
    split at hbody'
    · obtain rfl := Option.some.inj hbody'
      intro manifest hmanifest
      rw [← Except.ok.inj (hbody.symm.trans hmanifest)]
    · exact h.endsBy x hlast key body' hkey hbody'
  · obtain rfl : x = y := Option.some.inj (hlast.symm.trans hy)
    exact ⟨_, body, _, watches_mark single, (hfind _).trans (if_pos ⟨rfl, rfl⟩), hbody, rfl⟩

/-- The window that is planned when every export has its marker starts at the epoch if it is the
first one, and where clocks show the end of the latest one if it is not. -/
theorem Sound.start_of_plans {now : Instant} {v : Sighting} {survey : Survey} {w : Window}
    (h : c.Sound s) (marked : c.unmarked = []) (hv : v.Reports s.Watches s c.store)
    (hplans : s.Plans now v survey w) :
    (c.accepted = [] → w.start = s.epoch) ∧
      ∀ x ∈ c.accepted.getLast?, w.start = x.2.stop.shown := by
  have hstart : w.start = survey.frontier s.epoch := congrArg Window.start hplans.window_eq
  refine ⟨fun hnone => ?_, fun x hx => ?_⟩
  · rw [hstart, hv.frontier_of_none hplans.taken (h.none hnone)]
  · rw [hstart, hv.frontier_of_shows hplans.taken (h.shows marked x hx) (h.endsBy x hx)]

/-- The acceptance of a window that starts where it has to preserves what holds, if no marker of a
start names a later end than that start. -/
theorem Sound.accept {x : String × Window} {m : Store} (h : c.Sound s)
    (first : c.accepted = [] → x.2.start = s.epoch)
    (next : ∀ y ∈ c.accepted.getLast?, x.2.start = y.2.stop.shown) (start_lt : x.2.start < x.2.stop)
    (cut : x.2.stop.cutToMillis = x.2.stop)
    (endsBy : s.Throughout (Manifest.EndsBy x.2.start) m) :
    Sound s ⟨m, c.accepted ++ [x], [x]⟩ := by
  -- The clauses on windows hold of those before and of the new one behind them.
  have hwindows : windows ⟨m, c.accepted ++ [x], [x]⟩ = c.windows ++ [x.2] := by simp [windows]
  refine ⟨?_, ?_, ?_, ?_, .inr ⟨x, by simp, rfl⟩, fun hnone => ?_, fun y hy => ?_, fun hnone => ?_⟩
  · rw [hwindows, List.head?_append]
    rcases hc : c.accepted with _ | ⟨y, l⟩
    · simpa [windows, hc] using first hc
    · simpa [windows, hc] using h.first
  · rw [hwindows]
    refine h.next.append (.singleton _) fun y hy z hz => ?_
    obtain rfl := Option.some.inj hz
    rw [windows, List.getLast?_map] at hy
    obtain ⟨y', hy', rfl⟩ := Option.map_eq_some_iff.1 hy
    exact next y' hy'
  · rw [hwindows]
    exact List.forall_mem_append.2 ⟨h.start_lt, by simpa using start_lt⟩
  · rw [hwindows]
    exact List.forall_mem_append.2 ⟨h.cut, by simpa using cut⟩
  · simp at hnone
  · obtain rfl : x = y := by simpa using hy
    intro key body hkey hbody manifest hmanifest
    calc manifest.stop ≤ x.2.start := endsBy key body hkey hbody manifest hmanifest
      _ ≤ x.2.stop := start_lt.le
      _ ≤ x.2.stop.shown := x.2.stop.le_shown
  · cases hnone

/-- A turn preserves what holds. -/
theorem Sound.turn {τ : Type} {t : BusyTurn τ} (h : c.Sound s) (marked : c.unmarked = [])
    (arrivals : ∀ n, ∀ o ∈ t.arrivals n, ¬s.Watches o.1)
    (known : ∀ e ∈ t.events s c.store, ¬e.IsUnknown) :
    Sound s ⟨t.after s c.store, c.accepted ++ t.accepted s c.store, t.accepted s c.store⟩ := by
  rcases (t.unfolds s c.store).acceptance with ⟨hnothing, hchanges⟩ |
    ⟨v, survey, w, es', r', exportId, hes, haccepted, hplans, -, -⟩
  · -- Nothing is accepted, and nothing is changed, because the service knows every export.
    have hsound := h.of_agree (BusyTurn.agree_of_known arrivals hchanges known)
    rw [marked] at hsound
    rwa [show t.accepted s c.store = [] from hnothing, List.append_nil]
  · -- One window is accepted, planned from markers that are as they were at the start.
    have hone : t.accepted s c.store = [(exportId, w)] := haccepted
    have hreports : v.Reports s.Watches s c.store := BusyTurn.reports arrivals hes
    obtain ⟨hfirst, hlater⟩ := h.start_of_plans marked hreports hplans
    have hlt : w.start < w.stop := by
      rw [hplans.window_eq]
      exact hplans.start_lt
    -- No marker of a start names a later end than the start of the window, before and after.
    have hbefore : s.Throughout (Manifest.EndsBy w.start) c.store := by
      rcases hlast : c.accepted.getLast? with _ | x
      · intro key body hkey hbody
        exact (h.none (List.getLast?_eq_none_iff.1 hlast) key body hkey hbody).elim
      · rw [hlater x hlast]
        exact h.endsBy x hlast
    have hafter : s.Throughout (Manifest.EndsBy w.start) (t.after s c.store) :=
      (t.unfolds s c.store).throughout (BusyTurn.agree_of_brings arrivals)
        (t.passes s c.store) hbefore
    rw [hone]
    refine h.accept hfirst hlater hlt ?_ hafter
    rw [hplans.window_eq]
    exact t.now.cutToMillis_cutToMillis

/-- What holds does so at every moment. -/
theorem Reached.sound {m : Store} (hm : s.Throughout (fun _ => False) m) (h : Reached s m c) :
    c.Sound s := by
  -- By induction on the steps; each kind of step has a lemma of its own above.
  induction h with
  | start => exact ⟨by simp [windows], .nil, by simp [windows], by simp [windows], .inl rfl,
      fun _ => hm, by simp, by simp⟩
  | step _ hstep ih =>
    cases hstep with
    | arrival key body hkey => exact ih.of_agree (Store.agree_put _ body hkey)
    | mark name body pending single declares => exact ih.mark pending single declares
    | turn t marked arrivals known => exact ih.turn marked arrivals known

/-- As long as the service knows every export that it is asked about, the windows that it accepts
follow one another: the first one starts at the epoch, each other one where clocks show the end of
the one before it, and none is empty. Clocks show that end as it is unless it lies in a leap second
within a minute. -/
theorem windows_contiguous {m : Store} (hm : ∀ key, s.Watches key → m.find? s.bucket key = none)
    (h : Reached s m c) :
    (∀ w ∈ c.windows.head?, w.start = s.epoch) ∧
      c.windows.IsChain (fun w w' => w'.start = w.stop.shown ∧
        (w'.start = w.stop ↔ w.stop.nanos < nanosPerSecond ∨ w.stop.seconds % 60 = 59)) ∧
      ∀ w ∈ c.windows, w.start < w.stop := by
  have hsound := h.sound fun key body hkey hbody => by
    rw [hm key hkey] at hbody
    cases hbody
  refine ⟨hsound.first, hsound.next.imp fun w w' hnext => ⟨hnext, ?_⟩, hsound.start_lt⟩
  rw [hnext]
  exact Instant.shown_eq_self_iff

end History

/-! ## Two windows -/

/-- The text of a manifest declares what it says. -/
theorem Manifest.declares_sampleText {exportId : String} {stop : Instant}
    (hid : exportId.toList.all Quoted.isPlain = true)
    (hstop : (stop.written .millis).toList.all Quoted.isPlain = true) :
    Declares (sampleText exportId (stop.written .millis)).toUTF8 exportId stop := by
  have hblank : IsBlank [] := by simp [IsBlank]
  have hspace : IsBlank [' '] := by simp [IsBlank]
  have hid : MemberSpells ("exportId", some exportId)
      ([] ++ ('"' :: "exportId".toList ++ '"' :: ([] ++ ':' :: ([' '] ++
        ('"' :: exportId.toList ++ ['"'] ++ []))))) := by
    have hspells := MemberSpells.intro hblank hblank hspace hblank
      (Quoted.spells_self (s := "exportId".toList) (by decide)) (.string (Quoted.spells_self hid))
    rwa [String.ofList_toList, String.ofList_toList] at hspells
  have hstop : MemberSpells ("exclusiveEndTime", some (stop.written .millis))
      ([' '] ++ ('"' :: "exclusiveEndTime".toList ++ '"' :: ([] ++ ':' :: ([' '] ++
        ('"' :: (stop.written .millis).toList ++ ['"'] ++ []))))) := by
    have hspells := MemberSpells.intro hspace hblank hspace hblank
      (Quoted.spells_self (s := "exclusiveEndTime".toList) (by decide))
      (.string (Quoted.spells_self hstop))
    rwa [String.ofList_toList, String.ofList_toList] at hspells
  refine ⟨_, (sampleText exportId (stop.written .millis)).toList,
    ⟨[], _, [], ?_, hblank, hblank, .more hid (.last hstop)⟩, by rw [String.ofList_toList],
    by simp [lastValue?], by simp [lastValue?], by simp [lastValue?]⟩
  simp [sampleText]

namespace History

/-- An invocation at a time. Nothing arrives in it. -/
def firstTurn (now : Instant) : BusyTurn JobTable where
  toTurn := { Turn.sample 0 .none with now := now }
  arrivals _ := []

/-- An invocation on the second day of the year 2024, in which a marker cannot be copied. -/
def secondTurn : BusyTurn JobTable where
  toTurn := .sample 86400 ⟨[(.copy, "p/a.started.manifest")], []⟩
  arrivals _ := []

/-- The export of the first turn, with its window. -/
def firstExport (now : Instant) : String × Window := ("export1", ⟨Settings.defaultEpoch, now⟩)

/-- The body of its marker. -/
def firstBody (now : Instant) : ByteArray :=
  (Manifest.sampleText "export1" (now.written .millis)).toUTF8

/-- The store when both markers of the first export are there. -/
def betweenTurns (now : Instant) : Store :=
  (((firstTurn now).after (.sample "p/" "p/") .empty).put "b" "p/a.started.manifest"
    (firstBody now)).put "b" "p/a.completed.manifest" .empty

/-- Without look-ups, the service knows every export that it is asked about. -/
theorem known_of_isLookup {es : List Event} (h : es.all (!·.call.isLookup) = true) :
    ∀ e ∈ es, ¬e.IsUnknown := by
  rintro e he ⟨ledger, exportId, rfl⟩
  cases List.all_eq_true.1 h _ he

/-- The two turns make a history, in which both markers of the first export come between them. -/
theorem reached_twoTurns {now : Instant}
    (hfirst : (firstTurn now).accepted (.sample "p/" "p/") .empty = [firstExport now])
    (hbody : Manifest.Declares (firstBody now) "export1" now)
    (hlookups : ((firstTurn now).events (.sample "p/" "p/") .empty ++
      secondTurn.events (.sample "p/" "p/") (betweenTurns now)).all (!·.call.isLookup) = true) :
    Reached (.sample "p/" "p/") .empty
      ⟨secondTurn.after (.sample "p/" "p/") (betweenTurns now),
        [] ++ (firstTurn now).accepted (.sample "p/" "p/") .empty ++
          secondTurn.accepted (.sample "p/" "p/") (betweenTurns now),
        secondTurn.accepted (.sample "p/" "p/") (betweenTurns now)⟩ := by
  rw [List.all_append, Bool.and_eq_true] at hlookups
  -- The marker of completion is no marker of a start, and so it may arrive.
  have hcompleted : ¬(Settings.sample "p/" "p/").Watches "p/a.completed.manifest" := by
    rintro ⟨-, hstart⟩
    rw [Marker.isStart_iff, ← Text.occursIn_iff] at hstart
    revert hstart
    decide +kernel
  have h₁ := (Reached.start (m := .empty)).step (.turn (s := .sample "p/" "p/") (firstTurn now) rfl
    (by simp [firstTurn]) (known_of_isLookup hlookups.1))
  have h₂ := h₁.step (.mark (l := []) (k := []) (x := firstExport now) "a" (firstBody now) hfirst
    (by decide) hbody)
  have h₃ := h₂.step (.arrival "p/a.completed.manifest" .empty hcompleted)
  exact h₃.step (.turn secondTurn rfl (by simp [secondTurn]) (known_of_isLookup hlookups.2))

/-- Two exports are accepted, the second one in an invocation that fails when it archives the
markers of the first one, and their windows follow one another. -/
theorem two_windows_contiguous :
    let newYear := (Turn.sample 0 .none).now
    ∃ c, Reached (.sample "p/" "p/") .empty c ∧
      c.windows = [⟨Settings.defaultEpoch, newYear⟩, ⟨newYear, secondTurn.now⟩] ∧
      (∀ w ∈ c.windows.head?, w.start = Settings.defaultEpoch) ∧
      c.windows.IsChain (fun w w' => w'.start = w.stop.shown ∧
        (w'.start = w.stop ↔ w.stop.nanos < nanosPerSecond ∨ w.stop.seconds % 60 = 59)) ∧
      ∀ w ∈ c.windows, w.start < w.stop := by
  intro newYear
  have hfirst : (firstTurn newYear).accepted (.sample "p/" "p/") .empty =
      [firstExport newYear] := by decide +kernel
  have hsecond : secondTurn.accepted (.sample "p/" "p/") (betweenTurns newYear) =
      [("export1", ⟨newYear, secondTurn.now⟩)] := by decide +kernel
  have hreached := reached_twoTurns hfirst
    (Manifest.declares_sampleText (by decide +kernel) (by decide +kernel)) (by decide +kernel)
  refine ⟨_, hreached, ?_, windows_contiguous (fun key _ => ?_) hreached⟩
  · rw [windows, hfirst, hsecond]
    rfl
  · simp [Store.find?, Store.empty]

/-- When the first turn is in a leap second within a minute, the second window does not start where
the first one ends. -/
theorem leaping_windows_apart : ∃ c, Reached (.sample "p/" "p/") .empty c ∧
    c.windows = [⟨Settings.defaultEpoch, Instant.leapingWithin⟩,
      ⟨⟨1704067206, 500000000, by decide, by decide⟩, secondTurn.now⟩] ∧
    ¬c.windows.IsChain (fun w w' => w'.start = w.stop) := by
  have hfirst : (firstTurn .leapingWithin).accepted (.sample "p/" "p/") .empty =
      [firstExport .leapingWithin] := by decide +kernel
  have hsecond : secondTurn.accepted (.sample "p/" "p/") (betweenTurns .leapingWithin) =
      [("export1", ⟨⟨1704067206, 500000000, by decide, by decide⟩, secondTurn.now⟩)] := by
    decide +kernel
  have hreached := reached_twoTurns hfirst
    (Manifest.declares_sampleText (by decide +kernel) (by decide +kernel)) (by decide +kernel)
  refine ⟨_, hreached, ?_, ?_⟩ <;> rw [windows, hfirst, hsecond]
  · rfl
  · simp [firstExport, Instant.leapingWithin]

end History

end LedgerExport
