import LedgerExport.Proofs.Storage

/-!
# Moves in a store without faults

In a store that does nothing wrong, a move takes its object to its place if the object is there
(`relocate_found`), and it fails just when the object is gone and nothing is at its place
(`relocate_cases`). Of moves that are made one after the other, the ones that cannot be made are
`Lost`: `relocateAll_cases` says that all moves are made, or that one fails that is lost. Moves of
different objects that are all there are made one after the other, with no other calls
(`relocateAll_found`).
-/

namespace LedgerExport

open World

namespace World.Store

variable {m m' : Store} {bucket source destination key : String}

/-- Without faults no call fails. -/
theorem fault?_none (hfaults : m.faults = .none) (point : FaultPoint) (bucket key : String) :
    m.fault? point bucket key = none := by
  rw [fault?, hfaults]
  rfl

/-- Without faults the store is told to fail no call. -/
theorem not_failing (hfaults : m.faults = .none) (x : FaultPoint × String) :
    x ∉ m.faults.failing := by
  rw [hfaults]
  exact List.not_mem_nil

/-- Without faults keys are listed. -/
theorem Answers.lists_all {keyPrefix : String} {delimiter : Option String}
    {answer : Except StoreFailure (List ObjectSummary)}
    (h : m.Answers ⟨.list bucket keyPrefix delimiter, answer⟩ m') (hfaults : m.faults = .none) :
    answer = .ok (m.listing bucket keyPrefix delimiter) := by
  have h : m.list bucket keyPrefix delimiter = (answer, m') := h
  rw [list, fault?_none hfaults] at h
  exact (Prod.ext_iff.1 h).1.symm

/-- Without faults an object that is there is read. -/
theorem Answers.reads {answer : Except StoreFailure ByteArray} {body : ByteArray}
    (h : m.Answers ⟨.get bucket key, answer⟩ m') (hfaults : m.faults = .none)
    (hbody : m.find? bucket key = some body) : answer = .ok body := by
  have h : m.get bucket key = (answer, m') := h
  rw [get, fault?_none hfaults, hbody] at h
  exact (Prod.ext_iff.1 h).1.symm

/-- Without faults an object that is there is copied. -/
theorem Answers.copies {answer : Except StoreFailure Unit} {body : ByteArray}
    (h : m.Answers ⟨.copy bucket source destination, answer⟩ m') (hfaults : m.faults = .none)
    (hbody : m.find? bucket source = some body) :
    answer = .ok () ∧ ∀ b k, m'.find? b k =
      if bucket = b ∧ destination = k then some body else m.find? b k := by
  rcases answer with e | ⟨⟩
  · rcases h.not_copied.2 with ⟨hfailing, -⟩ | ⟨-, hgone, -⟩
    · exact absurd hfailing (not_failing hfaults _)
    · rw [hbody] at hgone
      cases hgone
  · obtain ⟨-, body', hbody', hcopied⟩ := h.copied
    obtain rfl : body = body' := Option.some.inj (hbody.symm.trans hbody')
    have hmade : destination ∉ m.faults.dropped := by simp [hfaults, Faults.none]
    refine ⟨rfl, fun b k => ?_⟩
    rw [hcopied]
    simp only [hmade, not_false_eq_true, and_true]

/-- Without faults an object that is gone is not copied, and nothing changes. -/
theorem Answers.misses {answer : Except StoreFailure Unit}
    (h : m.Answers ⟨.copy bucket source destination, answer⟩ m') (hfaults : m.faults = .none)
    (hgone : m.find? bucket source = none) :
    answer = .error (.notFound bucket source) ∧ ∀ b k, m'.find? b k = m.find? b k := by
  rcases answer with e | ⟨⟩
  · obtain ⟨hsame, ⟨hfailing, -⟩ | ⟨-, -, rfl⟩⟩ := h.not_copied
    · exact absurd hfailing (not_failing hfaults _)
    · exact ⟨rfl, hsame⟩
  · obtain ⟨-, body, hbody, -⟩ := h.copied
    rw [hgone] at hbody
    cases hbody

/-- Without faults a probe tells whether the object is there. -/
theorem Answers.probed {answer : Except StoreFailure Bool}
    (h : m.Answers ⟨.probe bucket key, answer⟩ m') (hfaults : m.faults = .none) :
    answer = .ok (m.find? bucket key).isSome := by
  rcases answer with e | found
  · exact absurd h.not_probed.1 (not_failing hfaults _)
  · rw [h.found]

/-- Without faults a deletion succeeds. -/
theorem Answers.deletes {answer : Except StoreFailure Unit}
    (h : m.Answers ⟨.delete bucket key, answer⟩ m') (hfaults : m.faults = .none) :
    answer = .ok () ∧ ∀ b k, m'.find? b k =
      if bucket = b ∧ key = k then none else m.find? b k := by
  rcases answer with e | ⟨⟩
  · exact absurd h.not_deleted.1 (not_failing hfaults _)
  · exact ⟨rfl, h.deleted_all⟩

/-- The calls of a trace do not change what the store does wrong. -/
theorem Passes.faults_eq {es : List Event} (h : m.Passes Eq es m') : m'.faults = m.faults := by
  refine h.preserves (P := fun m₁ => m₁.faults = m.faults) ?_ (fun e _ m₁ m₂ h₁₂ h₁ => ?_) rfl
  · rintro m₁ _ rfl h₁
    exact h₁
  · rw [h₁₂.faults_eq, h₁]

/-- The first call of a trace, in a store that does not change by itself. -/
theorem Passes.of_cons {e : Event} {es : List Event} (h : m.Passes Eq (e :: es) m') :
    ∃ m₁, m.Answers e m₁ ∧ m₁.Passes Eq es m' := by
  cases h with
  | cons henter he hrest =>
    obtain rfl := henter
    exact ⟨_, he, hrest⟩

end World.Store

namespace Move

open Program (Traces)

variable {m m₁ m' : Store} {bucket : String} {move x y : Move} {moves : List Move}
  {es : List Event} {r : Except StoreFailure Unit}

/-! ## One move -/

/-- The calls of a move whose object is there. -/
def carried (bucket : String) (m : Move) : List Event :=
  m.verified bucket ++ [⟨.delete bucket m.source, .ok ()⟩]

/-- Without faults a move takes its object to its place if the object is there. -/
theorem relocate_found (h : Traces (move.relocate bucket) es (some r)) (hpasses : m.Passes Eq es m')
    (hfaults : m.faults = .none) {body : ByteArray}
    (hbody : m.find? bucket move.source = some body) :
    r = .ok () ∧ es = move.carried bucket ∧ ∀ b k, m'.find? b k =
      if bucket = b ∧ move.source = k then none
      else if bucket = b ∧ move.destination = k then some body else m.find? b k := by
  rw [relocate] at h
  obtain ⟨copied, es, rfl, hrest⟩ := Traces.of_call_some h
  obtain ⟨m₁, hcopy, hpasses₁⟩ := hpasses.of_cons
  have hfaults₁ : m₁.faults = .none := hcopy.faults_eq.trans hfaults
  obtain ⟨rfl, hcopied⟩ := hcopy.copies hfaults hbody
  -- The copy is found, and then the object is deleted.
  obtain ⟨found, es, rfl, hend⟩ := Traces.of_call_some (c := .probe bucket move.destination) hrest
  obtain ⟨m₂, hprobe, hpasses₂⟩ := hpasses₁.of_cons
  obtain rfl := hprobe.probed hfaults₁
  obtain rfl := hprobe.eq_of_isChange rfl
  have hthere : (m₂.find? bucket move.destination).isSome = true := by
    rw [hcopied, if_pos ⟨rfl, rfl⟩]
    rfl
  rw [hthere] at hend ⊢
  obtain ⟨deleted, es, rfl, hlast⟩ := Traces.of_call_some (c := .delete bucket move.source) hend
  obtain ⟨m₃, hdelete, hpasses₃⟩ := hpasses₂.of_cons
  obtain ⟨rfl, hdeleted⟩ := hdelete.deletes hfaults₁
  obtain ⟨rfl, hr⟩ := Traces.of_done hlast
  cases hpasses₃
  exact ⟨Option.some.inj hr, rfl, fun b k => by rw [hdeleted, hcopied]⟩

/-- Without faults a move whose object is gone changes nothing, and it succeeds just when there is
something at its place. -/
theorem relocate_missing (h : Traces (move.relocate bucket) es (some r))
    (hpasses : m.Passes Eq es m') (hfaults : m.faults = .none)
    (hgone : m.find? bucket move.source = none) :
    (∀ b k, m'.find? b k = m.find? b k) ∧ r =
      if (m.find? bucket move.destination).isSome then .ok ()
      else .error (.notFound bucket move.source) := by
  rw [relocate] at h
  obtain ⟨copied, es, rfl, hrest⟩ := Traces.of_call_some h
  obtain ⟨m₁, hcopy, hpasses₁⟩ := hpasses.of_cons
  obtain ⟨rfl, hsame⟩ := hcopy.misses hfaults hgone
  obtain ⟨found, es, rfl, hend⟩ := Traces.of_call_some (c := .probe bucket move.destination) hrest
  obtain ⟨m₂, hprobe, hpasses₂⟩ := hpasses₁.of_cons
  obtain rfl := hprobe.probed (hcopy.faults_eq.trans hfaults)
  obtain rfl := hprobe.eq_of_isChange rfl
  rw [hsame] at hend
  -- What the probe finds decides how the move ends.
  cases hthere : (m.find? bucket move.destination).isSome <;> rw [hthere] at hend
  all_goals
    obtain ⟨rfl, hr⟩ := Traces.of_done hend
    cases hpasses₂
    exact ⟨hsame, Option.some.inj hr⟩

/-- What is known of the store after a move that could be made: the object is not at its key any
more, something is at its place, and nothing else has changed. -/
structure Done (bucket : String) (m m' : Store) (move : Move) : Prop where
  /-- The object or something at its place was there before. -/
  was : (m.find? bucket move.source).isSome ∨ (m.find? bucket move.destination).isSome
  /-- The object is gone. -/
  gone : m'.find? bucket move.source = none
  /-- Something is at its place. -/
  there : (m'.find? bucket move.destination).isSome
  /-- Nothing else has changed. -/
  frame : ∀ key, key ≠ move.source → key ≠ move.destination →
    m'.find? bucket key = m.find? bucket key

/-- Without faults a move is made, or its object is gone and nothing is at its place. -/
theorem relocate_cases (h : Traces (move.relocate bucket) es (some r)) (hpasses : m.Passes Eq es m')
    (hfaults : m.faults = .none) (hne : move.destination ≠ move.source) :
    (r = .error (.notFound bucket move.source) ∧ m.find? bucket move.source = none ∧
      m.find? bucket move.destination = none) ∨ (r = .ok () ∧ Done bucket m m' move) := by
  rcases hsource : m.find? bucket move.source with _ | body
  · obtain ⟨hsame, rfl⟩ := relocate_missing h hpasses hfaults hsource
    rcases hdestination : m.find? bucket move.destination with _ | body
    · exact .inl ⟨rfl, rfl, rfl⟩
    · refine .inr ⟨rfl, .inr (by rw [hdestination]; rfl), by rw [hsame, hsource], ?_,
        fun key _ _ => hsame bucket key⟩
      rw [hsame, hdestination]
      rfl
  · obtain ⟨rfl, -, hm'⟩ := relocate_found h hpasses hfaults hsource
    refine .inr ⟨rfl, .inl (by rw [hsource]; rfl), by simp [hm'], ?_, fun key hs hd => ?_⟩
    · simp [hm', hne.symm]
    · simp [hm', hs.symm, hd.symm]

/-! ## Moves one after the other -/

/-- The move cannot be made when its turn comes among others: nothing is at its place, and its
object is gone or is taken to another place by the first move of it. -/
def Lost (bucket : String) (m : Store) (moves : List Move) (y : Move) : Prop :=
  m.find? bucket y.destination = none ∧ (m.find? bucket y.source = none ∨
    ∃ x, moves.find? (·.source = y.source) = some x ∧ x.destination ≠ y.destination)

/-- The first of some moves cannot be made just when its object is gone and nothing is at its
place. -/
theorem lost_self : Lost bucket m (x :: moves) x ↔
    m.find? bucket x.destination = none ∧ m.find? bucket x.source = none := by
  simp [Lost]

/-- Whether a later move can be made does not change when the first one has been made. -/
theorem lost_cons (h : Done bucket m m₁ x) (hyx : y.destination ≠ x.source)
    (hxy : x.destination ≠ y.source) (hinj : x.destination = y.destination → x.source = y.source) :
    Lost bucket m (x :: moves) y ↔ Lost bucket m₁ moves y := by
  by_cases hsource : x.source = y.source
  · -- The first move is one of the same object, which is gone after it.
    have hgone : m₁.find? bucket y.source = none := hsource ▸ h.gone
    have hfirst : (x :: moves).find? (·.source = y.source) = some x := by simp [hsource]
    by_cases hdestination : y.destination = x.destination
    · -- Something is at the place afterwards, and there was the object or something at the place.
      refine iff_of_false (fun ⟨hnone, hlost⟩ => ?_) fun ⟨hnone, _⟩ => ?_
      · rcases hlost with hgone | ⟨z, hz, hne⟩
        · rw [hdestination] at hnone
          rw [← hsource] at hgone
          rcases h.was with hwas | hwas <;> simp [hnone, hgone] at hwas
        · obtain rfl := Option.some.inj (hfirst.symm.trans hz)
          exact hne hdestination.symm
      · have hthere := h.there
        rw [← hdestination, hnone] at hthere
        cases hthere
    · rw [Lost, Lost, h.frame _ hyx hdestination, hgone, hfirst]
      simp [Ne.symm hdestination]
  · have hne : y.destination ≠ x.destination := fun heq => hsource (hinj heq.symm)
    rw [Lost, Lost, h.frame _ hyx hne, h.frame _ (Ne.symm hsource) hxy.symm,
      List.find?_cons_of_neg (by simpa using hsource)]

/-- An object that is there is still there after the calls of moves of others. -/
theorem isSome_of_makes {key : String} (hpasses : m.Passes Eq es m')
    (hmakes : ∀ e ∈ es, ∃ move : Move, move.Makes bucket e.call ∧ key ≠ move.source)
    (hkey : (m.find? bucket key).isSome) : (m'.find? bucket key).isSome := by
  refine hpasses.preserves (P := fun m₁ => (m₁.find? bucket key).isSome) ?_
    (fun e he m₁ m₂ h₁₂ h₁ => ?_) hkey
  · rintro m₁ _ rfl h₁
    exact h₁
  obtain ⟨c, answer⟩ := e
  obtain ⟨move, rfl | rfl | rfl, hne⟩ := hmakes _ he
  · rcases h₁₂.find?_copy bucket key with hsame | ⟨-, -, body, -, hbody⟩
    · rwa [hsame]
    · rw [hbody]
      rfl
  · rwa [h₁₂.eq_of_isChange rfl]
  · rcases h₁₂.find?_delete bucket key with hsame | ⟨-, hdeleted, -⟩
    · rwa [hsame]
    · exact absurd hdeleted hne

/-- Without faults all moves are made and none of them was lost, or one fails that was. No move goes
where another one starts, and only moves of one object go to one place. -/
theorem relocateAll_cases (h : Traces (relocateAll bucket moves) es (some r))
    (hpasses : m.Passes Eq es m') (hfaults : m.faults = .none)
    (hapart : ∀ x ∈ moves, ∀ y ∈ moves, x.destination ≠ y.source)
    (hinj : ∀ x ∈ moves, ∀ y ∈ moves, x.destination = y.destination → x.source = y.source) :
    (r = .ok () ∧ ∀ y ∈ moves, ¬Lost bucket m moves y ∧ m'.find? bucket y.source = none ∧
      (m'.find? bucket y.destination).isSome) ∨
    ∃ y ∈ moves, Lost bucket m moves y ∧ r = .error (.notFound bucket y.source) := by
  induction moves generalizing m es with
  | nil => exact .inl ⟨Option.some.inj (Traces.of_done h).2, by simp⟩
  | cons x rest ih =>
    rw [relocateAll] at h
    obtain ⟨es₁, moved, es₂, rfl, hx, hrest⟩ := Traces.of_bind_some h
    obtain ⟨m₁, hpasses₁, hpasses₂⟩ := Store.passes_append.1 hpasses
    have hself : x ∈ x :: rest := List.mem_cons_self
    have hmem {y : Move} (hy : y ∈ rest) : y ∈ x :: rest := List.mem_cons_of_mem x hy
    rcases relocate_cases hx hpasses₁ hfaults (hapart x hself x hself) with
      ⟨rfl, hgone, hnone⟩ | ⟨rfl, hdone⟩
    · obtain ⟨-, hr⟩ := Traces.of_done hrest
      exact .inr ⟨x, hself, lost_self.2 ⟨hnone, hgone⟩, Option.some.inj hr⟩
    have hlost {y : Move} (hy : y ∈ rest) : Lost bucket m (x :: rest) y ↔ Lost bucket m₁ rest y :=
      lost_cons hdone (hapart y (hmem hy) x hself) (hapart x hself y (hmem hy))
        (hinj x hself y (hmem hy))
    rcases ih hrest hpasses₂ (hpasses₁.faults_eq.trans hfaults)
      (fun y hy z hz => hapart y (hmem hy) z (hmem hz))
      (fun y hy z hz => hinj y (hmem hy) z (hmem hz)) with ⟨rfl, hall⟩ | ⟨y, hy, hlosty, rfl⟩
    · refine .inl ⟨rfl, List.forall_mem_cons.2 ⟨⟨fun hlost => ?_, ?_, ?_⟩, fun y hy => ?_⟩⟩
      · obtain ⟨hnone, hgone⟩ := lost_self.1 hlost
        rcases hdone.was with hwas | hwas <;> simp [hnone, hgone] at hwas
      -- What the first move has done is not undone by the others.
      · rcases hpasses₂.find?_of_moves Store.find?_of_eq fun e he _ => by
          obtain ⟨z, hz, hmakes⟩ := (traces_relocateAll hrest).1 e he
          exact ⟨z, hmakes, hapart z (hmem hz) x hself⟩ with hsame | ⟨hgone, -⟩
        · rw [hsame, hdone.gone]
        · exact hgone
      · refine isSome_of_makes hpasses₂ (fun e he => ?_) hdone.there
        obtain ⟨z, hz, hmakes⟩ := (traces_relocateAll hrest).1 e he
        exact ⟨z, hmakes, hapart x hself z (hmem hz)⟩
      · exact (hall y hy).imp_left fun hnot h => hnot ((hlost hy).1 h)
    · exact .inr ⟨y, hmem hy, (hlost hy).2 hlosty, rfl⟩

/-- Without faults moves succeed if each object is there or has been moved already, and if moves of
one object go to one place. -/
theorem relocateAll_ok (h : Traces (relocateAll bucket moves) es (some r))
    (hpasses : m.Passes Eq es m') (hfaults : m.faults = .none)
    (hapart : ∀ x ∈ moves, ∀ y ∈ moves, x.destination ≠ y.source)
    (hinj : ∀ x ∈ moves, ∀ y ∈ moves, x.destination = y.destination → x.source = y.source)
    (hsame : ∀ x ∈ moves, ∀ y ∈ moves, x.source = y.source → x.destination = y.destination)
    (hthere : ∀ x ∈ moves,
      (m.find? bucket x.source).isSome ∨ (m.find? bucket x.destination).isSome) : r = .ok () := by
  rcases relocateAll_cases h hpasses hfaults hapart hinj with ⟨hr, -⟩ | ⟨y, hy, ⟨hnone, hlost⟩, -⟩
  · exact hr
  have hsource := (hthere y hy).resolve_right (by simp [hnone])
  rcases hlost with hgone | ⟨x, hx, hne⟩
  · simp [hgone] at hsource
  · have hkey : x.source = y.source := by simpa using List.find?_some hx
    exact absurd (hsame x (List.mem_of_find?_eq_some hx) y hy hkey) hne

/-- Without faults, moves of different objects that are all there take each of them to its place,
and they make no other calls. -/
theorem relocateAll_found (h : Traces (relocateAll bucket moves) es (some r))
    (hpasses : m.Passes Eq es m') (hfaults : m.faults = .none)
    (hapart : ∀ x ∈ moves, ∀ y ∈ moves, x.destination ≠ y.source)
    (hinj : ∀ x ∈ moves, ∀ y ∈ moves, x.destination = y.destination → x.source = y.source)
    (hnodup : (moves.map (·.source)).Nodup)
    (hthere : ∀ x ∈ moves, (m.find? bucket x.source).isSome) :
    r = .ok () ∧ es = moves.flatMap (carried bucket) ∧
    (∀ x ∈ moves, m'.find? bucket x.source = none ∧
      m'.find? bucket x.destination = m.find? bucket x.source) ∧
    ∀ b k, (b = bucket → ∀ x ∈ moves, k ≠ x.source ∧ k ≠ x.destination) →
      m'.find? b k = m.find? b k := by
  induction moves generalizing m es with
  | nil =>
    obtain ⟨rfl, hr⟩ := Traces.of_done h
    cases hpasses
    exact ⟨Option.some.inj hr, rfl, by simp, fun _ _ _ => rfl⟩
  | cons x rest ih =>
    rw [relocateAll] at h
    obtain ⟨es₁, moved, es₂, rfl, hx, hrest⟩ := Traces.of_bind_some h
    obtain ⟨m₁, hpasses₁, hpasses₂⟩ := Store.passes_append.1 hpasses
    have hself : x ∈ x :: rest := List.mem_cons_self
    have hmem {y : Move} (hy : y ∈ rest) : y ∈ x :: rest := List.mem_cons_of_mem x hy
    obtain ⟨body, hbody⟩ := Option.isSome_iff_exists.1 (hthere x hself)
    obtain ⟨rfl, rfl, hm₁⟩ := relocate_found hx hpasses₁ hfaults hbody
    rw [List.map_cons, List.nodup_cons] at hnodup
    -- The first move shares neither its key nor its place with another one.
    have hne {y : Move} (hy : y ∈ rest) :
        x.source ≠ y.source ∧ x.destination ≠ y.destination := by
      have hsource : x.source ≠ y.source := fun heq =>
        hnodup.1 (heq ▸ List.mem_map_of_mem (f := (·.source)) hy)
      exact ⟨hsource, fun heq => hsource (hinj x hself y (hmem hy) heq)⟩
    have hkept {y : Move} (hy : y ∈ rest) : m₁.find? bucket y.source = m.find? bucket y.source := by
      simp [hm₁, (hne hy).1, hapart x hself y (hmem hy)]
    obtain ⟨rfl, rfl, hall, hframe⟩ := ih hrest hpasses₂ (hpasses₁.faults_eq.trans hfaults)
      (fun y hy z hz => hapart y (hmem hy) z (hmem hz))
      (fun y hy z hz => hinj y (hmem hy) z (hmem hz)) hnodup.2
      fun y hy => (hkept hy).symm ▸ hthere y (hmem hy)
    refine ⟨rfl, rfl, fun y hy => ?_, fun b k hk => ?_⟩
    · rcases List.mem_cons.1 hy with rfl | hy
      · rw [hframe bucket y.source fun _ z hz => ⟨(hne hz).1, (hapart z (hmem hz) y hself).symm⟩,
          hframe bucket y.destination fun _ z hz => ⟨hapart y hself z (hmem hz), (hne hz).2⟩]
        simp [hm₁, hbody, (hapart y hself y hself).symm]
      · rw [(hall y hy).1, (hall y hy).2, hkept hy]
        exact ⟨rfl, rfl⟩
    · rw [hframe b k fun hb y hy => hk hb y (hmem hy), hm₁, if_neg, if_neg]
      · rintro ⟨rfl, rfl⟩
        exact (hk rfl x hself).2 rfl
      · rintro ⟨rfl, rfl⟩
        exact (hk rfl x hself).1 rfl

end Move

end LedgerExport
