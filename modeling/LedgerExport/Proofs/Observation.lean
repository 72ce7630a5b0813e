import Mathlib.Data.List.Nodup
import LedgerExport.Proofs.Invocations
import LedgerExport.Proofs.Keys
import LedgerExport.Proofs.Storage

/-!
# What a sighting says of the store

A store can change while an invocation looks at it. As far as its objects stay as they are, a
sighting says what the store has (`Sighting.Reports`), and so does its survey: the markers of starts
in it are those that lie under the prefix and have a manifest (`Reports.mem_started`), and the moves
that it plans are those of the markers for which the store knows an end (`Reports.mem_moves_iff`).
-/

namespace LedgerExport

open World

/-- Two stores have the same objects at the keys of a bucket that satisfy `P`. -/
def World.Store.Agree (P : String → Prop) (bucket : String) (m m' : Store) : Prop :=
  ∀ key, P key → m'.find? bucket key = m.find? bucket key

/-- Calls that change nothing leave the objects that do not change by themselves. -/
theorem World.Store.Passes.agree {P : String → Prop} {bucket : String}
    {enter : Store → Store → Prop} {m m' : Store} {es : List Event}
    (henter : ∀ m₁ m₂, enter m₁ m₂ → m₁.Agree P bucket m₂) (h : m.Passes enter es m')
    (hes : ∀ e ∈ es, e.call.isChange = false) : m.Agree P bucket m' := by
  refine h.preserves (P := m.Agree P bucket) (fun m₁ m₂ h₁₂ h₁ key hkey => ?_)
    (fun e he m₁ m₂ h₁₂ h₁ => ?_) fun _ _ => rfl
  · rw [henter m₁ m₂ h₁₂ key hkey, h₁ key hkey]
  · rwa [h₁₂.eq_of_isChange (hes e he)]

/-- An object that is put leaves the others. -/
theorem World.Store.agree_put {P : String → Prop} {bucket key : String} (m : Store)
    (body : ByteArray) (h : ¬P key) : m.Agree P bucket (m.put bucket key body) :=
  fun k hk => (find?_put ..).trans (if_neg (by rintro ⟨-, rfl⟩; exact h hk))

/-- A call that reads changes nothing. -/
theorem Call.isChange_of_isReading {c : Call} (h : c.isReading = true) : c.isChange = false := by
  cases c <;> first | rfl | cases h

/-- The markers of a kind among listed objects are those that the objects are. -/
theorem Marker.mem_among {objects : List ObjectSummary} {kind : MarkerKind} {m : Marker} :
    m ∈ Marker.among objects kind ↔
      Marker.classify? m.key = some m ∧ m.kind = kind ∧ ∃ o ∈ objects, o.key = m.key := by
  unfold Marker.among
  rw [List.mem_filter, List.mem_filterMap, decide_eq_true_eq]
  constructor
  · rintro ⟨⟨o, ho, hm⟩, hkind⟩
    have hkey := Marker.key_of_classify? hm
    exact ⟨hkey ▸ hm, hkind, o, ho, hkey.symm⟩
  · rintro ⟨hm, hkind, o, ho, hkey⟩
    exact ⟨⟨o, ho, hkey ▸ hm⟩, hkind⟩

namespace Settings

/-- An object with the key lies directly under the prefix. -/
def Has (s : Settings) (m : Store) (key : String) : Prop :=
  Store.lists s.keyPrefix (some "/") key = true ∧ ∃ body, m.find? s.bucket key = some body

/-- The object is a marker of completion of the group and lies directly under the prefix. -/
structure Completes (s : Settings) (m : Store) (group : String) (c : Marker) : Prop where
  /-- It is what the object with its key is. -/
  classified : Marker.classify? c.key = some c
  /-- It is a marker of completion. -/
  kind : c.kind = .completed
  /-- It belongs to the group. -/
  group_eq : c.group = group
  /-- It lies directly under the prefix. -/
  has : s.Has m c.key

/-- The object is a marker of a start with a manifest and lies directly under the prefix. -/
structure Starts (s : Settings) (m : Store) (x : StartedMarker) : Prop where
  /-- It is what the object with its key is. -/
  classified : Marker.classify? x.key = some x.marker
  /-- It is a marker of a start. -/
  kind : x.marker.kind = .started
  /-- It lies directly under the prefix. -/
  lists : Store.lists s.keyPrefix (some "/") x.key = true
  /-- Its body is the manifest. -/
  manifest : ∃ body, m.find? s.bucket x.key = some body ∧ Manifest.ofBytes body = .ok x.manifest

/-- The marker is one of a start with a manifest, or of the completion of its group, and the window
of the export ends at `stop`. -/
def EndsAt (s : Settings) (m : Store) (x : Marker) (stop : Time.Instant) : Prop :=
  ∃ start, s.Starts m start ∧ start.stop = stop ∧ (x = start.marker ∨ s.Completes m start.group x)

/-- A marker for which the store knows an end lies directly under the prefix. -/
theorem EndsAt.has {s : Settings} {m : Store} {x : Marker} {stop : Time.Instant}
    (h : s.EndsAt m x stop) : s.Has m x.key := by
  obtain ⟨start, hstart, -, rfl | hcompletes⟩ := h
  · obtain ⟨body, hbody, -⟩ := hstart.manifest
    exact ⟨hstart.lists, body, hbody⟩
  · exact hcompletes.has

/-- No archived key is listed when the prefix is the root of the archive. -/
theorem apart_of_root {s : Settings} (hroot : s.archiveRoot = s.keyPrefix) : s.layout.Apart := by
  rw [layout, hroot]
  exact Layout.apart_ofRoot_self s.keyPrefix

/-- The object is a marker of a start without a manifest and lies directly under the prefix. -/
structure StartsUnreadable (s : Settings) (m : Store) (x : Marker) : Prop where
  /-- It is what the object with its key is. -/
  classified : Marker.classify? x.key = some x
  /-- It is a marker of a start. -/
  kind : x.kind = .started
  /-- It lies directly under the prefix. -/
  lists : Store.lists s.keyPrefix (some "/") x.key = true
  /-- Its body is no manifest. -/
  body : ∃ body e, m.find? s.bucket x.key = some body ∧ Manifest.ofBytes body = .error e

/-- There is at most one marker with a key and a manifest. -/
theorem Starts.eq_of_key {s : Settings} {m : Store} {x y : StartedMarker} (hx : s.Starts m x)
    (hy : s.Starts m y) (hkey : x.key = y.key) : x = y := by
  obtain ⟨body, hbody, hmanifest⟩ := hx.manifest
  obtain ⟨body', hbody', hmanifest'⟩ := hy.manifest
  have hmarker : some x.marker = some y.marker := by rw [← hx.classified, hkey, hy.classified]
  rw [hkey, hbody'] at hbody
  rw [← Option.some.inj hbody, hmanifest'] at hmanifest
  obtain ⟨⟩ := x
  obtain ⟨⟩ := y
  rw [StartedMarker.mk.injEq]
  exact ⟨Option.some.inj hmarker, (Except.ok.inj hmanifest).symm⟩

/-- The marker of a start is none of a completion. -/
theorem Starts.key_ne {s : Settings} {m : Store} {x : StartedMarker} {group : String} {c : Marker}
    (hx : s.Starts m x) (hc : s.Completes m group c) : x.key ≠ c.key := by
  intro hkey
  have hsame : some x.marker = some c := by rw [← hx.classified, hkey, hc.classified]
  have hkind := hx.kind
  rw [Option.some.inj hsame, hc.kind] at hkind
  cases hkind

end Settings

namespace Sighting

variable {P : String → Prop} {s : Settings} {v : Sighting} {m m' : Store}

/-- The markers of starts in a survey were listed. -/
theorem marker_mem_among {survey : Survey} (h : v.survey? s.keyPrefix = .ok survey)
    {x : StartedMarker} (hx : x ∈ survey.started) : x.marker ∈ Marker.among v.objects .started := by
  obtain ⟨⟨marker, body⟩, hmem, heq⟩ :=
    List.mem_map.1 ((Survey.sorts_ofReadings h).mem_started.1 hx)
  obtain rfl : marker = x.marker := congrArg Prod.fst heq
  exact v.starts ▸ List.mem_map_of_mem hmem

/-- What was seen of the keys that satisfy `P` is what the store has. -/
structure Reports (P : String → Prop) (s : Settings) (v : Sighting) (m : Store) : Prop where
  /-- All listed keys lie directly under the prefix. -/
  lists : ∀ o ∈ v.objects, Store.lists s.keyPrefix (some "/") o.key = true
  /-- The listed keys are those directly under the prefix. -/
  listed : ∀ key, P key → ((∃ o ∈ v.objects, o.key = key) ↔ s.Has m key)
  /-- The bodies that were read are those of the objects. -/
  read : ∀ x ∈ v.readings, P x.1.key → m.find? s.bucket x.1.key = some x.2

/-- A sighting reports the objects that do not change by themselves, and leaves them. -/
theorem reports_of_passes {enter : Store → Store → Prop}
    (henter : ∀ m₁ m₂, enter m₁ m₂ → m₁.Agree P s.bucket m₂)
    (h : m.Passes enter (v.events s.bucket s.keyPrefix) m') :
    v.Reports P s m ∧ m.Agree P s.bucket m' := by
  refine ⟨?_, h.agree henter fun e he =>
    Call.isChange_of_isReading (isReading_of_mem_events he)⟩
  rw [events] at h
  cases h with
  | @cons _ m₁ m₂ _ _ _ h₁ hlist hreads =>
    -- The listing itself changes nothing, so the store before it is the one that was listed.
    have hagree : m.Agree P s.bucket m₂ := hlist.eq_of_isChange rfl ▸ henter _ _ h₁
    have hobjects : v.objects = _ := hlist.listed
    refine ⟨fun o ho => ?_, fun key hkey => ?_, fun x hx hkey => ?_⟩
    · rw [hobjects] at ho
      exact (Store.mem_listing.1 ho).1
    · rw [hobjects, Settings.Has, ← henter _ _ h₁ key hkey]
      constructor
      · rintro ⟨o, ho, rfl⟩
        obtain ⟨hlists, body, hbody, -⟩ := Store.mem_listing.1 ho
        exact ⟨hlists, body, hbody⟩
      · rintro ⟨hlists, body, hbody⟩
        exact ⟨⟨key, body.size⟩, Store.mem_listing.2 ⟨hlists, body, hbody, rfl⟩, rfl⟩
    · -- Between the listing and the reading of this body, nothing but readings happens.
      obtain ⟨before, after, hsplit⟩ := List.append_of_mem hx
      rw [hsplit, List.map_append, List.map_cons, Store.passes_append] at hreads
      obtain ⟨m₃, hbefore, hrest⟩ := hreads
      have hagree' : m₂.Agree P s.bucket m₃ := hbefore.agree henter fun e he => by
        obtain ⟨y, -, rfl⟩ := List.mem_map.1 he
        rfl
      cases hrest with
      | cons h₃ hget _ =>
        rw [← hagree x.1.key hkey, ← hagree' x.1.key hkey, ← henter _ _ h₃ x.1.key hkey]
        exact hget.read

/-- The markers that a listing names are in the order of their keys, each once. -/
theorem sorted_among {enter : Store → Store → Prop} (kind : MarkerKind)
    (h : m.Passes enter (v.events s.bucket s.keyPrefix) m') :
    (Marker.among v.objects kind).Pairwise fun a b => a.key < b.key := by
  have hkeys : v.objects.Pairwise fun a b => a.key < b.key := by
    cases h with
    | cons _ hlist _ =>
      rw [hlist.listed]
      exact Store.sorted_listing ..
  refine (List.pairwise_filterMap.2 (hkeys.imp fun hlt x hx y hy => ?_)).filter _
  rwa [Marker.key_of_classify? hx, Marker.key_of_classify? hy]

/-- A survey of what a store has is sorted. -/
theorem sorted_survey {enter : Store → Store → Prop} {survey : Survey}
    (h : m.Passes enter (v.events s.bucket s.keyPrefix) m')
    (hv : v.survey? s.keyPrefix = .ok survey) : survey.Sorted := by
  have hstarts : (v.readings.map fun r => (r.1, Manifest.ofBytes r.2)).map (·.1.key) =
      (Marker.among v.objects .started).map (·.key) := by
    rw [← v.starts, List.map_map, List.map_map]
    rfl
  refine Survey.sorted_ofReadings hv (Survey.nodup_keys (sorted_among .completed h)) ?_
  rw [hstarts]
  exact Survey.nodup_keys (sorted_among .started h)

namespace Reports

/-- The markers that were listed lie directly under the prefix. -/
theorem lists_of_mem_among (h : v.Reports P s m) {kind : MarkerKind} {x : Marker}
    (hx : x ∈ Marker.among v.objects kind) :
    Store.lists s.keyPrefix (some "/") x.key = true := by
  obtain ⟨o, ho, hkey⟩ := (Marker.mem_among.1 hx).2.2
  exact hkey ▸ h.lists o ho

/-- The markers that were listed are those that lie under the prefix. -/
theorem mem_among (h : v.Reports P s m) {kind : MarkerKind} {x : Marker} (hx : P x.key) :
    x ∈ Marker.among v.objects kind ↔
      Marker.classify? x.key = some x ∧ x.kind = kind ∧ s.Has m x.key := by
  rw [Marker.mem_among, h.listed x.key hx]

/-- The bodies that were read are those of the markers of starts that lie under the prefix. -/
theorem mem_readings (h : v.Reports P s m) {x : Marker} {body : ByteArray} (hx : P x.key) :
    (x, body) ∈ v.readings ↔ Marker.classify? x.key = some x ∧ x.kind = .started ∧
      Store.lists s.keyPrefix (some "/") x.key = true ∧ m.find? s.bucket x.key = some body := by
  constructor
  · intro hmem
    have hamong : x ∈ Marker.among v.objects .started := v.starts ▸ List.mem_map_of_mem hmem
    obtain ⟨hclass, hkind, hlists, -⟩ := (h.mem_among hx).1 hamong
    exact ⟨hclass, hkind, hlists, h.read _ hmem hx⟩
  · -- A marker that is there was listed, and so it has been read.
    rintro ⟨hclass, hkind, hlists, hfind⟩
    have hamong : x ∈ Marker.among v.objects .started :=
      (h.mem_among hx).2 ⟨hclass, hkind, hlists, body, hfind⟩
    rw [← v.starts, List.mem_map] at hamong
    obtain ⟨⟨marker, body'⟩, hmem, rfl⟩ := hamong
    have hsame : some body = some body' := hfind.symm.trans (h.read _ hmem hx)
    rwa [Option.some.inj hsame]

/-- The markers of starts in a survey are those that lie under the prefix and have a manifest. -/
theorem mem_started (h : v.Reports P s m) {survey : Survey}
    (hv : v.survey? s.keyPrefix = .ok survey) {x : StartedMarker} (hx : P x.key) :
    x ∈ survey.started ↔ Marker.classify? x.key = some x.marker ∧ x.marker.kind = .started ∧
      Store.lists s.keyPrefix (some "/") x.key = true ∧
      ∃ body, m.find? s.bucket x.key = some body ∧ Manifest.ofBytes body = .ok x.manifest := by
  rw [(Survey.sorts_ofReadings hv).mem_started, List.mem_map]
  constructor
  · rintro ⟨⟨marker, body⟩, hmem, heq⟩
    obtain ⟨rfl, hbody⟩ : marker = x.marker ∧ Manifest.ofBytes body = .ok x.manifest :=
      Prod.ext_iff.1 heq
    obtain ⟨hclass, hkind, hlists, hfind⟩ := (h.mem_readings hx).1 hmem
    exact ⟨hclass, hkind, hlists, body, hfind, hbody⟩
  · rintro ⟨hclass, hkind, hlists, body, hfind, hbody⟩
    exact ⟨_, (h.mem_readings hx).2 ⟨hclass, hkind, hlists, hfind⟩, by rw [hbody]⟩

/-- The markers of starts in a survey of the store are those that it has. -/
theorem mem_started_iff (h : v.Reports (fun _ => True) s m) {survey : Survey}
    (hv : v.survey? s.keyPrefix = .ok survey) {x : StartedMarker} :
    x ∈ survey.started ↔ s.Starts m x := by
  rw [h.mem_started hv trivial]
  exact ⟨fun ⟨hclass, hkind, hlists, hbody⟩ => ⟨hclass, hkind, hlists, hbody⟩,
    fun hx => ⟨hx.classified, hx.kind, hx.lists, hx.manifest⟩⟩

/-- The unreadable markers of starts in a survey of the store are those that it has. -/
theorem mem_unreadable_iff (h : v.Reports (fun _ => True) s m) {survey : Survey}
    (hv : v.survey? s.keyPrefix = .ok survey) {x : Marker} :
    x ∈ survey.unreadable ↔ s.StartsUnreadable m x := by
  rw [(Survey.sorts_ofReadings hv).mem_unreadable]
  constructor
  · rintro ⟨e, hx⟩
    obtain ⟨⟨marker, body⟩, hmem, heq⟩ := List.mem_map.1 hx
    obtain ⟨rfl, hbody⟩ : marker = x ∧ Manifest.ofBytes body = .error e := Prod.ext_iff.1 heq
    obtain ⟨hclass, hkind, hlists, hfind⟩ := (h.mem_readings trivial).1 hmem
    exact ⟨hclass, hkind, hlists, body, e, hfind, hbody⟩
  · rintro ⟨hclass, hkind, hlists, body, e, hfind, hbody⟩
    have hmem := (h.mem_readings trivial).2 ⟨hclass, hkind, hlists, hfind⟩
    exact ⟨e, List.mem_map.2 ⟨_, hmem, by rw [hbody]⟩⟩

/-- The markers of completion in a survey of the store are those that it has. -/
theorem mem_completed_iff (h : v.Reports (fun _ => True) s m) {survey : Survey}
    (hv : v.survey? s.keyPrefix = .ok survey) {c : Marker} :
    c ∈ survey.completed ↔ s.Completes m c.group c := by
  rw [(Survey.sorts_ofReadings hv).completed.mem_iff, h.mem_among trivial]
  exact ⟨fun ⟨hclass, hkind, hhas⟩ => ⟨hclass, hkind, rfl, hhas⟩,
    fun hc => ⟨hc.classified, hc.kind, hc.has⟩⟩

/-- The markers of completion of a group in a survey are those that lie under the prefix. -/
theorem hasCompleted_iff (h : v.Reports (fun _ => True) s m) {survey : Survey}
    (hv : v.survey? s.keyPrefix = .ok survey) {group : String} :
    survey.hasCompleted group = true ↔
      ∃ c : Marker, Marker.classify? c.key = some c ∧ c.kind = .completed ∧ s.Has m c.key ∧
        c.group = group := by
  rw [(Survey.sorts_ofReadings hv).hasCompleted_iff]
  simp only [h.mem_among trivial, and_assoc]

section Moves

variable {survey : Survey} {move : Move} (h : v.Reports (fun _ => True) s m)
  (hv : v.survey? s.keyPrefix = .ok survey)

include h hv

/-- The moves of a plan are those of the markers for which the store knows an end. -/
theorem mem_moves_iff :
    move ∈ survey.moves s.layout ↔
      ∃ x stop, s.EndsAt m x stop ∧ move = ⟨x.key, s.layout.archiveKey x.key stop⟩ := by
  rw [Survey.mem_moves]
  constructor
  · rintro ⟨start, hstart, ⟨c, hc, hgroup, rfl⟩ | rfl⟩
    · have hcompletes := (h.mem_completed_iff hv).1 hc
      have hstarts := (h.mem_started_iff hv).1 hstart
      exact ⟨c, start.stop, ⟨start, hstarts, rfl, .inr (hgroup ▸ hcompletes)⟩, rfl⟩
    · exact ⟨start.marker, start.stop, ⟨start, (h.mem_started_iff hv).1 hstart, rfl, .inl rfl⟩, rfl⟩
  · rintro ⟨x, stop, ⟨start, hstart, rfl, rfl | hcompletes⟩, rfl⟩
    · exact ⟨start, (h.mem_started_iff hv).2 hstart, .inr rfl⟩
    · have hgroup := hcompletes.group_eq
      exact ⟨start, (h.mem_started_iff hv).2 hstart,
        .inl ⟨x, (h.mem_completed_iff hv).2 (hgroup ▸ hcompletes), hgroup, rfl⟩⟩

/-- No move of a plan goes where another one starts if no archived key is listed. -/
theorem destination_ne_source (hapart : s.layout.Apart) :
    ∀ x ∈ survey.moves s.layout, ∀ y ∈ survey.moves s.layout, x.destination ≠ y.source := by
  intro x hx y hy heq
  obtain ⟨x, stop, hends, rfl⟩ := (h.mem_moves_iff hv).1 hx
  obtain ⟨y, stop', hends', rfl⟩ := (h.mem_moves_iff hv).1 hy
  exact Store.ne_of_lists hends'.has.1 (hapart x.key stop hends.has.1) heq.symm

/-- Only moves of one object go to one place. -/
theorem source_eq_of_destination : ∀ x ∈ survey.moves s.layout, ∀ y ∈ survey.moves s.layout,
    x.destination = y.destination → x.source = y.source := by
  intro x hx y hy heq
  obtain ⟨x, stop, hends, rfl⟩ := (h.mem_moves_iff hv).1 hx
  obtain ⟨y, stop', hends', rfl⟩ := (h.mem_moves_iff hv).1 hy
  exact Layout.archiveKey_inj (l := s.layout) hends.has.1 hends'.has.1 heq

/-- The objects of all moves are there. -/
theorem isSome_source : ∀ x ∈ survey.moves s.layout, (m.find? s.bucket x.source).isSome := by
  intro x hx
  obtain ⟨x, stop, hends, rfl⟩ := (h.mem_moves_iff hv).1 hx
  obtain ⟨body, hbody⟩ := hends.has.2
  exact Option.isSome_iff_exists.2 ⟨body, hbody⟩

end Moves

end Reports

end Sighting

end LedgerExport
