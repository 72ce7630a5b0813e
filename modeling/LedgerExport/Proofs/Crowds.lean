import LedgerExport.Proofs.Warrants

/-!
# Crowds

Invocations that overlap over one store. `Crowd.Step` lets any of them make its next call, and lets
invocations begin and be stopped at any time; the service may answer what it likes, and the store
may do wrong what it likes.

What is shown of the store is `Settings.Keeps`: every marker is where it was or in one of its
refuges, and all else is as it was. A copy to a refuge keeps this, and so does a deletion that comes
after a refuge was found to be there (`Keeps.copy`, `Keeps.delete`). That an invocation makes no
other changes is read off from what it has been told so far (`Attests`), which stays true whatever
the others do.
-/

namespace LedgerExport

open Time World

/-! ## Refuges -/

namespace Settings

/-- The object is a marker and lies directly under the prefix. -/
structure Marks (s : Settings) (m : Store) (x : Marker) : Prop where
  /-- It is what the object with its key is. -/
  classified : Marker.classify? x.key = some x
  /-- It lies directly under the prefix. -/
  has : s.Has m x.key

/-- The keys to which a marker may be moved: its key in quarantine, and its key in the archive for
the end of the window of its own export. -/
inductive Refuge (s : Settings) (m : Store) (x : Marker) : String → Prop
  /-- In quarantine. -/
  | quarantine : Refuge s m x (s.layout.quarantineKey x.key)
  /-- In the archive. -/
  | archive {stop : Instant} : s.EndsAt m x stop → Refuge s m x (s.layout.archiveKey x.key stop)

/-- What the store `m'` has kept of the markers and the other objects of the store `m`. -/
structure Keeps (s : Settings) (m m' : Store) : Prop where
  /-- A marker is where it was, or it is gone and one of its refuges has its body. -/
  marker : ∀ x body, s.Marks m x → m.find? s.bucket x.key = some body →
    m'.find? s.bucket x.key = some body ∨ m'.find? s.bucket x.key = none ∧
      ∃ key, s.Refuge m x key ∧ m'.find? s.bucket key = some body
  /-- A refuge of a marker has nothing but its body. -/
  refuge : ∀ x key, s.Marks m x → s.Refuge m x key → m'.find? s.bucket key = none ∨
    m'.find? s.bucket key = m.find? s.bucket x.key
  /-- All else is as it was. -/
  other : ∀ bucket key, (bucket = s.bucket → ∀ x, s.Marks m x → key ≠ x.key ∧ ¬s.Refuge m x key) →
    m'.find? bucket key = m.find? bucket key

variable {s : Settings} {m m₁ m₂ : Store} {x y : Marker} {key : String}

/-- There is at most one marker with a key. -/
theorem Marks.eq_of_key (hx : s.Marks m x) (hy : s.Marks m y) (hkey : x.key = y.key) : x = y :=
  Option.some.inj (by rw [← hx.classified, hkey, hy.classified])

/-- No refuge is listed. -/
theorem Refuge.not_lists (hapart : s.layout.Apart) (hx : s.Marks m x) (h : s.Refuge m x key) :
    Store.lists s.keyPrefix (some "/") key = false := by
  cases h with
  | quarantine => exact Layout.not_lists_quarantineKey (l := s.layout) hx.has.1
  | archive _ => exact hapart _ _ hx.has.1

/-- A refuge is no key of a marker. -/
theorem Refuge.ne_key (hapart : s.layout.Apart) (hx : s.Marks m x) (h : s.Refuge m x key)
    (hy : s.Marks m y) : key ≠ y.key :=
  (Store.ne_of_lists hy.has.1 (h.not_lists hapart hx)).symm

/-- No two markers have a refuge in common. -/
theorem Refuge.inj (hx : s.Marks m x) (hy : s.Marks m y) (h : s.Refuge m x key)
    (h' : s.Refuge m y key) : x = y := by
  refine hx.eq_of_key hy ?_
  cases h with
  | quarantine =>
    generalize hkey : s.layout.quarantineKey x.key = key at h'
    cases h' with
    | quarantine => exact Layout.quarantineKey_inj hkey
    | archive _ => exact absurd hkey.symm (Layout.archiveKey_ne_quarantineKey _ _ _ _)
  | @archive stop _ =>
    generalize hkey : s.layout.archiveKey x.key stop = key at h'
    cases h' with
    | quarantine => exact absurd hkey (Layout.archiveKey_ne_quarantineKey _ _ _ _)
    | archive _ => exact Layout.archiveKey_inj hx.has.1 hy.has.1 hkey

namespace Keeps

/-- A store in which the refuges of markers are free has kept what it has. -/
theorem refl (hfree : ∀ x key, s.Marks m x → s.Refuge m x key → m.find? s.bucket key = none) :
    s.Keeps m m where
  marker _ _ _ hbody := .inl hbody
  refuge x key hx hkey := .inl (hfree x key hx hkey)
  other _ _ _ := rfl

/-- A marker that is at its key has its body. -/
theorem eq_of_marks (h : s.Keeps m m₁) (hx : s.Marks m x) {body : ByteArray}
    (hbody : m₁.find? s.bucket x.key = some body) : m.find? s.bucket x.key = some body := by
  obtain ⟨body', hbody'⟩ := hx.has.2
  rcases h.marker x body' hx hbody' with hsame | ⟨hgone, -⟩
  · rw [hbody', ← hsame, hbody]
  · rw [hgone] at hbody
    cases hbody

/-- What lies directly under the prefix has been there all along. -/
theorem eq_of_lists (h : s.Keeps m m₁) (hapart : s.layout.Apart)
    (hlists : Store.lists s.keyPrefix (some "/") key = true) {body : ByteArray}
    (hbody : m₁.find? s.bucket key = some body) : m.find? s.bucket key = some body := by
  by_cases hmarker : ∃ x, s.Marks m x ∧ x.key = key
  · obtain ⟨x, hx, rfl⟩ := hmarker
    exact h.eq_of_marks hx hbody
  · rw [← h.other s.bucket key fun _ x hx => ⟨fun heq => hmarker ⟨x, hx, heq.symm⟩, fun hkey => ?_⟩,
      hbody]
    exact Store.ne_of_lists hlists (hkey.not_lists hapart hx) rfl

variable {destination : String}

/-- A copy of a marker to one of its refuges keeps everything. -/
theorem copy (h : s.Keeps m m₁) (hapart : s.layout.Apart) (hx : s.Marks m x)
    (hrefuge : s.Refuge m x destination) {answer : Except StoreFailure Unit}
    (hcopy : m₁.Answers ⟨.copy s.bucket x.key destination, answer⟩ m₂) : s.Keeps m m₂ := by
  -- The destination is as it was, or it has the body of the marker now.
  have hchange (b k : String) : m₂.find? b k = m₁.find? b k ∨
      (b = s.bucket ∧ k = destination) ∧ m₂.find? b k = m.find? s.bucket x.key := by
    rcases hcopy.find?_copy b k with hsame | ⟨rfl, rfl, body, hsource, hcopied⟩
    · exact .inl hsame
    · exact .inr ⟨⟨rfl, rfl⟩, by rw [hcopied, h.eq_of_marks hx hsource]⟩
  refine ⟨fun y body hy hbody => ?_, fun y key hy hkey => ?_, fun b k hother => ?_⟩
  · have hsame : m₂.find? s.bucket y.key = m₁.find? s.bucket y.key :=
      (hchange _ _).resolve_right fun hdest => hrefuge.ne_key hapart hx hy hdest.1.2.symm
    rw [hsame]
    refine (h.marker y body hy hbody).imp_right fun ⟨hgone, key, hkey, hkept⟩ => ?_
    refine ⟨hgone, key, hkey, ?_⟩
    rcases hchange s.bucket key with hsame | ⟨⟨-, rfl⟩, hcopied⟩
    · rw [hsame, hkept]
    · obtain rfl := hkey.inj hy hx hrefuge
      rw [hcopied, hbody]
  · rcases hchange s.bucket key with hsame | ⟨⟨-, rfl⟩, hcopied⟩
    · rw [hsame]
      exact h.refuge y key hy hkey
    · obtain rfl := hkey.inj hy hx hrefuge
      exact .inr hcopied
  · have hsame : m₂.find? b k = m₁.find? b k :=
      (hchange b k).resolve_right fun ⟨⟨hb, hk⟩, _⟩ => (hother hb x hx).2 (hk ▸ hrefuge)
    rw [hsame, h.other b k hother]

/-- A deletion of a marker keeps everything when there is an object in one of its refuges. -/
theorem delete (h : s.Keeps m m₁) (hapart : s.layout.Apart) (hx : s.Marks m x)
    (hrefuge : s.Refuge m x destination) (hfound : (m₁.find? s.bucket destination).isSome)
    {answer : Except StoreFailure Unit}
    (hdelete : m₁.Answers ⟨.delete s.bucket x.key, answer⟩ m₂) : s.Keeps m m₂ := by
  have hchange (b k : String) : m₂.find? b k = m₁.find? b k ∨
      (b = s.bucket ∧ k = x.key) ∧ m₂.find? b k = none :=
    (hdelete.find?_delete b k).imp_right fun ⟨hb, hk, _, hgone⟩ => ⟨⟨hb, hk⟩, hgone⟩
  -- A deletion leaves all refuges.
  have hrefuges {y : Marker} {key : String} (hy : s.Marks m y) (hkey : s.Refuge m y key) :
      m₂.find? s.bucket key = m₁.find? s.bucket key :=
    (hchange _ _).resolve_right fun hsource => hkey.ne_key hapart hy hx hsource.1.2
  refine ⟨fun y body hy hbody => ?_, fun y key hy hkey => ?_, fun b k hother => ?_⟩
  · rcases hchange s.bucket y.key with hsame | ⟨⟨-, hkey⟩, hgone⟩
    · rw [hsame]
      refine (h.marker y body hy hbody).imp_right fun ⟨hgone, key, hkey, hkept⟩ => ?_
      exact ⟨hgone, key, hkey, by rw [hrefuges hy hkey, hkept]⟩
    · -- The marker is the one that was deleted, and its refuge has its body.
      obtain rfl := hy.eq_of_key hx hkey
      refine .inr ⟨hgone, destination, hrefuge, ?_⟩
      rw [hrefuges hy hrefuge, ← hbody]
      refine (h.refuge y destination hy hrefuge).resolve_left fun hnone => ?_
      rw [hnone] at hfound
      cases hfound
  · rw [hrefuges hy hkey]
    exact h.refuge y key hy hkey
  · have hsame : m₂.find? b k = m₁.find? b k :=
      (hchange b k).resolve_right fun ⟨⟨hb, hk⟩, _⟩ => (hother hb x hx).1 hk
    rw [hsame, h.other b k hother]

end Keeps

/-! ## What an invocation has been told -/

/-- What was told by these events is true of the markers that were there in the store `m` and of the
refuges that are there in the store `m'`. -/
structure Attests (s : Settings) (m m' : Store) (es : List Event) : Prop where
  /-- What was listed was there. -/
  listed : ∀ objects, (⟨.list s.bucket s.keyPrefix (some "/"), .ok objects⟩ : Event) ∈ es →
    ∀ o ∈ objects, s.Has m o.key
  /-- What was read under the prefix are the bodies that were there. -/
  read : ∀ key body, (⟨.get s.bucket key, .ok body⟩ : Event) ∈ es → s.Has m key →
    m.find? s.bucket key = some body
  /-- A refuge that was found is there. -/
  found : ∀ x key, s.Marks m x → s.Refuge m x key →
    (⟨.probe s.bucket key, .ok true⟩ : Event) ∈ es → (m'.find? s.bucket key).isSome

variable {es : List Event} {e : Event}

/-- An invocation moves only markers, and only to their refuges, if what it was told is true. -/
theorem Warrants.refuge {v : Sighting} {move : Move} (h : s.Warrants v es move)
    (hseen : v.events s.bucket s.keyPrefix <+: es) (hes : s.Attests m m₁ es) :
    ∃ x, s.Marks m x ∧ move.source = x.key ∧ s.Refuge m x move.destination := by
  -- The markers that were listed and the bodies that were read were there.
  have hmarks {kind : MarkerKind} {x : Marker} (hx : x ∈ Marker.among v.objects kind) :
      s.Marks m x ∧ x.kind = kind := by
    obtain ⟨hclass, hkind, o, ho, hkey⟩ := Marker.mem_among.1 hx
    refine ⟨⟨hclass, hkey ▸ hes.listed v.objects (hseen.subset ?_) o ho⟩, hkind⟩
    exact List.mem_cons_self
  have hstart {x : Marker} {body : ByteArray} {manifest : Manifest} (hx : (x, body) ∈ v.readings)
      (hbody : Manifest.ofBytes body = .ok manifest) : s.Marks m x ∧ s.Starts m ⟨x, manifest⟩ := by
    obtain ⟨hmarks, hkind⟩ := hmarks (Sighting.mem_started_iff.2 ⟨body, hx⟩)
    refine ⟨hmarks, hmarks.classified, hkind, hmarks.has.1, body, ?_, hbody⟩
    refine hes.read x.key body (hseen.subset ?_) hmarks.has
    exact List.mem_cons_of_mem _ (List.mem_map_of_mem hx)
  cases h with
  | @lost x _ _ hx hbody _ => exact ⟨x, (hstart hx hbody).1, rfl, .quarantine⟩
  | @completed x start _ manifest _ _ hread hbody hx _ =>
    obtain ⟨hmark, hstarts⟩ := hstart hread hbody
    rcases hx with rfl | ⟨hx, hgroup⟩
    · exact ⟨x, hmark, rfl, .archive ⟨_, hstarts, rfl, .inl rfl⟩⟩
    · obtain ⟨hmarks, hkind⟩ := hmarks hx
      have hcompletes : s.Completes m start.group x :=
        ⟨hmarks.classified, hkind, hgroup, hmarks.has⟩
      exact ⟨x, hmarks, rfl, .archive ⟨_, hstarts, rfl, .inr hcompletes⟩⟩

/-- A call of an invocation that has been told the truth keeps everything, and no refuge that was
there is gone afterwards. -/
theorem Keeps.call {now : Instant} {next : e.call.Answer → Program (Except Failure Outcome)}
    (h : s.Keeps m m₁) (hapart : s.layout.Apart)
    (hleads : (s.invoke now).run.Leads es (.call e.call next)) (hes : s.Attests m m₁ es)
    (he : m₁.Answers e m₂) :
    s.Keeps m m₂ ∧ ∀ x key, s.Marks m x → s.Refuge m x key →
      (m₁.find? s.bucket key).isSome → (m₂.find? s.bucket key).isSome := by
  by_cases hchange : e.call.isChange = true
  swap
  · rw [he.eq_of_isChange (Bool.eq_false_iff.2 hchange)]
    exact ⟨h, fun _ _ _ _ => id⟩
  obtain ⟨r, htrace⟩ := (hleads.step e.answer).traces
  obtain ⟨v, move, hseen, hwarrants, hchanges⟩ :=
    (unfolds_of_traces htrace).warranted es e [] rfl hchange
  obtain ⟨x, hx, hsource, hrefuge⟩ := hwarrants.refuge hseen hes
  obtain ⟨c, answer⟩ := e
  dsimp only at hchanges
  cases hchanges with
  | copy =>
    rw [hsource] at he
    refine ⟨h.copy hapart hx hrefuge he, fun y key _ _ hkey => ?_⟩
    rcases he.find?_copy s.bucket key with hsame | ⟨-, -, body, -, hcopied⟩
    · rwa [hsame]
    · rw [hcopied]
      rfl
  | delete hverified =>
    rw [hsource] at he
    have hfound := hes.found x _ hx hrefuge (hverified.subset (by simp [Move.verified]))
    refine ⟨h.delete hapart hx hrefuge hfound he, fun y key hy hkey hthere => ?_⟩
    rcases he.find?_delete s.bucket key with hsame | ⟨-, hdeleted, -⟩
    · rwa [hsame]
    · exact absurd hdeleted (hkey.ne_key hapart hy hx)

/-- What has been told stays true as long as no refuge is lost. -/
theorem Attests.mono (h : s.Attests m m₁ es) (hstays : ∀ x key, s.Marks m x → s.Refuge m x key →
    (m₁.find? s.bucket key).isSome → (m₂.find? s.bucket key).isSome) : s.Attests m m₂ es where
  listed := h.listed
  read := h.read
  found x key hx hkey he := hstays x key hx hkey (h.found x key hx hkey he)

/-- What is told next is true as well. -/
theorem Attests.snoc (h : s.Attests m m₂ es) (hkeeps : s.Keeps m m₁) (hapart : s.layout.Apart)
    (he : m₁.Answers e m₂) : s.Attests m m₂ (es ++ [e]) := by
  refine ⟨fun objects hmem o ho => ?_, fun key body hmem hhas => ?_, fun x key hx hkey hmem => ?_⟩
  all_goals rcases List.mem_append.1 hmem with hmem | hmem
  · exact h.listed objects hmem o ho
  · obtain rfl := List.mem_singleton.1 hmem
    obtain rfl := he.listed
    obtain ⟨hlists, body, hbody, -⟩ := Store.mem_listing.1 ho
    exact ⟨hlists, body, hkeeps.eq_of_lists hapart hlists hbody⟩
  · exact h.read key body hmem hhas
  · obtain rfl := List.mem_singleton.1 hmem
    exact hkeeps.eq_of_lists hapart hhas.1 he.read
  · exact h.found x key hx hkey hmem
  · obtain rfl := List.mem_singleton.1 hmem
    rw [he.eq_of_isChange rfl]
    exact he.found

/-- The program is what an invocation still has to do that has been told the truth. -/
def Follows (s : Settings) (m m' : Store) (p : Program (Except Failure Outcome)) : Prop :=
  ∃ now es, (s.invoke now).run.Leads es p ∧ s.Attests m m' es

end Settings

/-! ## Steps of a crowd -/

/-- A store, and what the invocations that are under way still have to do. -/
structure Crowd where
  /-- The store. -/
  store : Store
  /-- What is left of each invocation. -/
  pending : List (Program (Except Failure Outcome))

namespace Crowd

/-- What can happen next. -/
inductive Step (s : Settings) : Crowd → Crowd → Prop
  /-- An invocation begins, with any clock. -/
  | begins {c : Crowd} (now : Instant) :
    Step s c { c with pending := c.pending ++ [(s.invoke now).run] }
  /-- An invocation makes its next call. The store answers its calls, and the service answers
  anything. -/
  | call {c : Crowd} {i : Nat} {call : Call} {next : call.Answer → Program (Except Failure Outcome)}
      {m : Store} (answer : call.Answer) (pending : c.pending[i]? = some (.call call next))
      (answers : c.store.Answers ⟨call, answer⟩ m) :
    Step s c ⟨m, c.pending.set i (next answer)⟩
  /-- An invocation is stopped, or it has ended. -/
  | stops {c : Crowd} (i : Nat) : Step s c { c with pending := c.pending.eraseIdx i }
  /-- The store does something else wrong than before. -/
  | fails {c : Crowd} (faults : Faults) : Step s c { c with store := { c.store with faults } }

/-- What can be reached from a store when no invocation is under way. -/
inductive Reached (s : Settings) (m : Store) : Crowd → Prop
  /-- The start. -/
  | start : Reached s m ⟨m, []⟩
  /-- One step more. -/
  | step {c d : Crowd} : Reached s m c → Step s c d → Reached s m d

/-- The store has kept everything, and what the invocations have been told is true. -/
structure Sound (s : Settings) (m : Store) (c : Crowd) : Prop where
  /-- The store. -/
  keeps : s.Keeps m c.store
  /-- The invocations. -/
  follows : ∀ p ∈ c.pending, s.Follows m c.store p

variable {s : Settings} {m : Store} {c d : Crowd}

/-- A step of a crowd leaves it sound. -/
theorem Sound.step (h : Sound s m c) (hapart : s.layout.Apart) (hstep : Step s c d) :
    Sound s m d := by
  cases hstep with
  | begins now =>
    refine ⟨h.keeps, fun p hp => ?_⟩
    rcases List.mem_append.1 hp with hp | hp
    · exact h.follows p hp
    · -- An invocation that begins has been told nothing.
      obtain rfl := List.mem_singleton.1 hp
      exact ⟨now, [], .refl, by simp, by simp, by simp⟩
  | @call i call next m' answer hpending hanswers =>
    obtain ⟨now, es, hleads, hes⟩ := h.follows _ (List.mem_of_getElem? hpending)
    obtain ⟨hkeeps, hstays⟩ := h.keeps.call (e := ⟨call, answer⟩) hapart hleads hes hanswers
    refine ⟨hkeeps, fun p hp => ?_⟩
    rcases List.mem_or_eq_of_mem_set hp with hp | rfl
    · obtain ⟨now', es', hleads', hes'⟩ := h.follows p hp
      exact ⟨now', es', hleads', hes'.mono hstays⟩
    · exact ⟨now, _, hleads.step answer, (hes.mono hstays).snoc h.keeps hapart hanswers⟩
  | stops i => exact ⟨h.keeps, fun p hp => h.follows p (List.mem_of_mem_eraseIdx hp)⟩
  | fails faults =>
    refine ⟨⟨h.keeps.marker, h.keeps.refuge, h.keeps.other⟩, fun p hp => ?_⟩
    obtain ⟨now, es, hleads, hes⟩ := h.follows p hp
    exact ⟨now, es, hleads, hes.mono fun _ _ _ _ => id⟩

/-- However many invocations overlap, however the service answers, whatever the store does wrong and
wherever invocations are stopped: at every moment each marker that lay directly under the prefix is
there with its body, at its key or at one of its refuges, if these were free; and all else is as it
was. -/
theorem no_marker_lost (hroot : s.archiveRoot = s.keyPrefix)
    (hfree : ∀ x key, s.Marks m x → s.Refuge m x key → m.find? s.bucket key = none)
    (h : Reached s m c) : s.Keeps m c.store := by
  have hapart := Settings.apart_of_root hroot
  have hsound : Sound s m c := by
    induction h with
    | start => exact ⟨.refl hfree, by simp⟩
    | step _ hstep ih => exact ih.step hapart hstep
  exact hsound.keeps

/-- In a store whose objects all lie directly under the prefix, the refuges of markers are free. -/
theorem free_of_lists (hroot : s.archiveRoot = s.keyPrefix) {objects : List (String × String)}
    (h : ∀ o ∈ objects, Store.lists s.keyPrefix (some "/") o.1 = true) :
    ∀ x key, s.Marks (.holding s.bucket objects) x → s.Refuge (.holding s.bucket objects) x key →
      (Store.holding s.bucket objects).find? s.bucket key = none := by
  intro x key hx hkey
  rcases hfind : (Store.holding s.bucket objects).find? s.bucket key with _ | body
  · rfl
  · obtain ⟨o, ho, rfl⟩ := List.mem_map.1 (Store.mem_of_holding hfind).2
    have hnot := hkey.not_lists (Settings.apart_of_root hroot) hx
    exact absurd rfl (Store.ne_of_lists (h o ho) hnot)

/-- The crowd after the next call of an invocation, with a service that knows no export and accepts
any. -/
def advance (c : Crowd) (i : Nat) : Crowd :=
  match c.pending[i]? with
  | some (.call call next) =>
    let (answer, w) := World.respond JobTable.service call ⟨c.store, .empty⟩
    ⟨w.store, c.pending.set i (next answer)⟩
  | _ => c

/-- The next call of an invocation is a step. -/
theorem Reached.advance (h : Reached s m c) (i : Nat) : Reached s m (c.advance i) := by
  unfold Crowd.advance
  split
  · rename_i call next hpending
    exact h.step (.call _ hpending (answers_respond ..))
  · exact h

/-- Two invocations under way: the first has moved the marker of completion when the second one
lists the prefix. Then both move the marker of the start, the one into the archive and the other,
which does not see that the export has completed, into quarantine. -/
def bothMoving : Crowd :=
  let invocation := (Settings.sample "p/" "p/").invoke (Turn.sample 0 .none).now
  [0, 0, 0, 0, 0, 0, 1, 1, 1, 0, 1, 0, 1, 0, 1].foldl advance
    ⟨Turn.completedPair, [invocation.run, invocation.run]⟩

/-- A store in which every object lies directly under the prefix has kept everything although the
marker of a start has been moved by two invocations, to different keys. -/
theorem both_moves_keep : let s := Settings.sample "p/" "p/"
    s.archiveRoot = s.keyPrefix ∧
    (∀ x key, s.Marks Turn.completedPair x → s.Refuge Turn.completedPair x key →
      Turn.completedPair.find? s.bucket key = none) ∧
    Reached s Turn.completedPair bothMoving ∧
    (bothMoving.store.find? s.bucket Settings.sampleStart).isSome = false ∧
    (bothMoving.store.find? s.bucket "p/failed/p/a.started.manifest").isSome ∧
    (bothMoving.store.find? s.bucket "p/completed/2023/01/01/00/a.started.manifest").isSome ∧
    s.Keeps Turn.completedPair bothMoving.store := by
  intro s
  have hfree : ∀ x key, s.Marks Turn.completedPair x → s.Refuge Turn.completedPair x key →
      Turn.completedPair.find? s.bucket key = none := free_of_lists rfl (by decide +kernel)
  have hreached : Reached s Turn.completedPair bothMoving := by
    have hbegun := ((Reached.start (m := Turn.completedPair)).step
      (.begins (s := s) (Turn.sample 0 .none).now)).step (.begins (Turn.sample 0 .none).now)
    exact List.foldlRecOn _ _ hbegun fun _ h i _ => h.advance i
  exact ⟨rfl, hfree, hreached, by decide +kernel, by decide +kernel, by decide +kernel,
    no_marker_lost rfl hfree hreached⟩

end Crowd

end LedgerExport
