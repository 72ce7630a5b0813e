import LedgerExport.World.Basic
import LedgerExport.Proofs.Calls

/-!
# What calls do to the store

`Store.Answers` relates the store before a call to the answer and to the store afterwards, and
`Store.Passes` does so for the calls of a trace, between which the store may change by itself.
`passes_eventsFrom` says that every run passes so. What an answer tells of the two stores is said
once for each call and answer (`Answers.copied`, `Answers.not_copied` and so on). What holds of the
objects in the store is carried along a trace by `Passes.preserves`; only copies and deletions
change an object (`Answers.find?_copy`, `Answers.find?_delete`).
-/

namespace LedgerExport.World

namespace Store

variable {m m' m₁ m₂ : Store} {bucket keyPrefix key : String} {delimiter : Option String}

/-! ## Objects -/

/-- The objects after one has been put. -/
theorem find?_put (m : Store) (bucket key : String) (body : ByteArray) (b k : String) :
    (m.put bucket key body).find? b k =
      if bucket = b ∧ key = k then some body else m.find? b k := by
  unfold find? put
  rw [Std.ExtTreeMap.getElem?_insert]
  simp only [Std.LawfulEqCmp.compare_eq_iff_eq, Prod.mk.injEq]

/-- The objects after one has been removed. -/
theorem find?_remove (m : Store) (bucket key b k : String) :
    (m.remove bucket key).find? b k = if bucket = b ∧ key = k then none else m.find? b k := by
  unfold find? remove
  rw [Std.ExtTreeMap.getElem?_erase]
  simp only [Std.LawfulEqCmp.compare_eq_iff_eq, Prod.mk.injEq]

/-- Equal stores have the same objects. -/
theorem find?_of_eq (m m' : Store) (h : m = m') : m'.find? bucket key = m.find? bucket key := by
  rw [h]

/-- A listing names the objects that the store has and whose keys are asked for. -/
theorem mem_listing {o : ObjectSummary} :
    o ∈ m.listing bucket keyPrefix delimiter ↔
      lists keyPrefix delimiter o.key = true ∧
        ∃ body, m.find? bucket o.key = some body ∧ o.size = body.size := by
  rw [listing, List.mem_map]
  constructor
  · rintro ⟨⟨⟨b, k⟩, body⟩, hmem, rfl⟩
    rw [List.mem_filter, Std.ExtTreeMap.mem_toList_iff_getElem?_eq_some] at hmem
    obtain ⟨hfind, hlists⟩ := hmem
    simp only [Bool.and_eq_true, decide_eq_true_eq] at hlists
    obtain ⟨rfl, hlists⟩ := hlists
    exact ⟨hlists, body, hfind, rfl⟩
  · rintro ⟨hlists, body, hfind, hsize⟩
    refine ⟨((bucket, o.key), body), ?_, by rw [← hsize]⟩
    rw [List.mem_filter, Std.ExtTreeMap.mem_toList_iff_getElem?_eq_some]
    exact ⟨hfind, by simpa using hlists⟩

/-- A listing names keys in their order, each once. -/
theorem sorted_listing (m : Store) (bucket keyPrefix : String) (delimiter : Option String) :
    (m.listing bucket keyPrefix delimiter).Pairwise fun a b => a.key < b.key := by
  rw [listing, List.pairwise_map]
  refine List.Pairwise.imp_of_mem (fun {a b} ha hb hlt => ?_)
    (List.Pairwise.filter _ Std.ExtTreeMap.ordered_keys_toList)
  -- The addresses are in order, and those of one bucket are so by their keys.
  rw [List.mem_filter, Bool.and_eq_true, decide_eq_true_eq] at ha hb
  have hbucket : a.1.1 = b.1.1 := ha.2.1.trans hb.2.1.symm
  have hkeys : compare a.1.2 b.1.2 = .lt := by
    simpa [byAddress, compareLex, compareOn, hbucket] using hlt
  exact compareOfLessAndEq_eq_lt.1 hkeys

/-! ## Answers -/

/-- The store can give the answer, and the call changes it so. Calls of the service leave it as it
is. -/
def Answers (m : Store) (e : Event) (m' : Store) : Prop :=
  match e with
  | ⟨.list bucket keyPrefix delimiter, answer⟩ => m.list bucket keyPrefix delimiter = (answer, m')
  | ⟨.get bucket key, answer⟩ => m.get bucket key = (answer, m')
  | ⟨.copy bucket source destination, answer⟩ => m.copy bucket source destination = (answer, m')
  | ⟨.delete bucket key, answer⟩ => m.delete bucket key = (answer, m')
  | ⟨.probe bucket key, answer⟩ => m.probe bucket key = (answer, m')
  | ⟨.describe .., _⟩ | ⟨.submit _, _⟩ => m' = m

/-- Only copies and deletions change the store. -/
theorem Answers.eq_of_isChange {e : Event} (h : m.Answers e m') (he : e.call.isChange = false) :
    m' = m := by
  obtain ⟨c, answer⟩ := e
  cases c with
  | list b p d =>
    have h : m.list b p d = (answer, m') := h
    rw [list] at h
    split at h <;> exact (Prod.ext_iff.1 h).2.symm
  | get b k =>
    have h : m.get b k = (answer, m') := h
    rw [get] at h
    split at h <;> exact (Prod.ext_iff.1 h).2.symm
  | copy => cases he
  | delete => cases he
  | probe b k =>
    have h : m.probe b k = (answer, m') := h
    rw [probe] at h
    split at h <;> exact (Prod.ext_iff.1 h).2.symm
  | describe => exact h
  | submit => exact h

/-- What was listed is what the store had. -/
theorem Answers.listed {objects : List ObjectSummary}
    (h : m.Answers ⟨.list bucket keyPrefix delimiter, .ok objects⟩ m') :
    objects = m.listing bucket keyPrefix delimiter := by
  have h : m.list bucket keyPrefix delimiter = (.ok objects, m') := h
  rw [list] at h
  split at h
  · cases (Prod.ext_iff.1 h).1
  · exact (Except.ok.inj (Prod.ext_iff.1 h).1).symm

/-- What was read is what the store had. -/
theorem Answers.read {body : ByteArray} (h : m.Answers ⟨.get bucket key, .ok body⟩ m') :
    m.find? bucket key = some body := by
  have h : m.get bucket key = (.ok body, m') := h
  rw [get] at h
  split at h
  · cases (Prod.ext_iff.1 h).1
  · cases (Prod.ext_iff.1 h).1
  · rename_i hfind
    rw [hfind, Except.ok.inj (Prod.ext_iff.1 h).1]

/-- What was found is what the store had. -/
theorem Answers.found {found : Bool} (h : m.Answers ⟨.probe bucket key, .ok found⟩ m') :
    (m.find? bucket key).isSome = found := by
  have h : m.probe bucket key = (.ok found, m') := h
  rw [probe] at h
  split at h
  · cases (Prod.ext_iff.1 h).1
  · exact Except.ok.inj (Prod.ext_iff.1 h).1

variable {source destination : String} {e : StoreFailure}

/-- The store fails just the calls that it is told to fail, and never for want of an object. -/
theorem fault?_eq_some {point : FaultPoint} (h : m.fault? point bucket key = some e) :
    (point, key) ∈ m.faults.failing ∧ e.isNotFound = false := by
  unfold fault? at h
  split at h
  · rename_i hfailing
    obtain rfl := Option.some.inj h
    exact ⟨hfailing, rfl⟩
  · cases h

/-- The store is not told to fail a call that it does not fail. -/
theorem fault?_eq_none {point : FaultPoint} (h : m.fault? point bucket key = none) :
    (point, key) ∉ m.faults.failing := by
  unfold fault? at h
  split at h
  · cases h
  · assumption

/-- A copy that is said to be made has an object to copy, and it is made unless it is dropped. -/
theorem Answers.copied (h : m.Answers ⟨.copy bucket source destination, .ok ()⟩ m') :
    (.copy, source) ∉ m.faults.failing ∧ ∃ body, m.find? bucket source = some body ∧
      ∀ b k, m'.find? b k = if (bucket = b ∧ destination = k) ∧ destination ∉ m.faults.dropped
        then some body else m.find? b k := by
  have h : m.copy bucket source destination = (.ok (), m') := h
  unfold copy at h
  split at h
  · cases (Prod.ext_iff.1 h).1
  · cases (Prod.ext_iff.1 h).1
  rename_i body hfault hbody
  refine ⟨fault?_eq_none hfault, body, hbody, fun b k => ?_⟩
  split at h
  · rename_i hdropped
    obtain rfl := (Prod.ext_iff.1 h).2
    rw [if_neg fun hmade => hmade.2 hdropped]
    rfl
  · rename_i hdropped
    obtain rfl := (Prod.ext_iff.1 h).2
    simp only [hdropped, not_false_eq_true, and_true]
    exact find?_put m bucket destination body b k

/-- A copy that fails changes nothing. The store is told to fail it, or there is no object. -/
theorem Answers.not_copied (h : m.Answers ⟨.copy bucket source destination, .error e⟩ m') :
    (∀ b k, m'.find? b k = m.find? b k) ∧
      ((.copy, source) ∈ m.faults.failing ∧ e.isNotFound = false ∨
        (.copy, source) ∉ m.faults.failing ∧ m.find? bucket source = none ∧
          e = .notFound bucket source) := by
  have h : m.copy bucket source destination = (.error e, m') := h
  unfold copy at h
  split at h
  · rename_i e' _ hfault
    obtain ⟨he, rfl⟩ := Prod.ext_iff.1 h
    obtain rfl := Except.error.inj he
    exact ⟨fun _ _ => rfl, .inl (fault?_eq_some hfault)⟩
  · rename_i hfault hgone
    obtain ⟨he, rfl⟩ := Prod.ext_iff.1 h
    exact ⟨fun _ _ => rfl, .inr ⟨fault?_eq_none hfault, hgone, (Except.error.inj he).symm⟩⟩
  · split at h <;> cases (Prod.ext_iff.1 h).1

/-- An object that a copy does not find is not there. -/
theorem Answers.missing
    (h : m.Answers ⟨.copy bucket source destination, .error e⟩ m') (he : e.isNotFound = true) :
    m.find? bucket source = none := by
  rcases h.not_copied.2 with ⟨-, hnot⟩ | ⟨-, hgone, -⟩
  · -- A failure that the store was told to make is never that of a missing object.
    rw [hnot] at he
    cases he
  · exact hgone

/-- A copy changes no object but the one at its destination, which becomes that at its source. -/
theorem Answers.find?_copy {answer : Except StoreFailure Unit}
    (h : m.Answers ⟨.copy bucket source destination, answer⟩ m') (b k : String) :
    m'.find? b k = m.find? b k ∨ b = bucket ∧ k = destination ∧
      ∃ body, m.find? bucket source = some body ∧ m'.find? b k = some body := by
  rcases answer with e | ⟨⟩
  · exact .inl (h.not_copied.1 b k)
  · obtain ⟨-, body, hbody, hcopied⟩ := h.copied
    rw [hcopied]
    split
    · rename_i hmade
      exact .inr ⟨hmade.1.1.symm, hmade.1.2.symm, body, hbody, rfl⟩
    · exact .inl rfl

/-- A probe that is answered is not told to fail. -/
theorem Answers.probe_not_failing {found : Bool} (h : m.Answers ⟨.probe bucket key, .ok found⟩ m') :
    (.probe, key) ∉ m.faults.failing := by
  have h : m.probe bucket key = (.ok found, m') := h
  unfold probe at h
  split at h
  · cases (Prod.ext_iff.1 h).1
  · rename_i hfault
    exact fault?_eq_none hfault

/-- A probe fails only when it is told to. -/
theorem Answers.not_probed (h : m.Answers ⟨.probe bucket key, .error e⟩ m') :
    (.probe, key) ∈ m.faults.failing ∧ e.isNotFound = false := by
  have h : m.probe bucket key = (.error e, m') := h
  unfold probe at h
  split at h
  · rename_i hfault
    obtain rfl := Except.error.inj (Prod.ext_iff.1 h).1
    exact fault?_eq_some hfault
  · cases (Prod.ext_iff.1 h).1

/-- A deletion fails only when it is told to, and then it changes nothing. -/
theorem Answers.not_deleted (h : m.Answers ⟨.delete bucket key, .error e⟩ m') :
    (.delete, key) ∈ m.faults.failing ∧ e.isNotFound = false ∧
      ∀ b k, m'.find? b k = m.find? b k := by
  have h : m.delete bucket key = (.error e, m') := h
  unfold delete at h
  split at h
  · rename_i hfault
    obtain ⟨he, rfl⟩ := Prod.ext_iff.1 h
    obtain rfl := Except.error.inj he
    obtain ⟨hfailing, hnot⟩ := fault?_eq_some hfault
    exact ⟨hfailing, hnot, fun _ _ => rfl⟩
  · cases (Prod.ext_iff.1 h).1

/-- A deletion that succeeds takes its object away and nothing else. -/
theorem Answers.deleted_all (h : m.Answers ⟨.delete bucket key, .ok ()⟩ m') (b k : String) :
    m'.find? b k = if bucket = b ∧ key = k then none else m.find? b k := by
  have h : m.delete bucket key = (.ok (), m') := h
  unfold delete at h
  split at h
  · cases (Prod.ext_iff.1 h).1
  · obtain rfl := (Prod.ext_iff.1 h).2
    exact find?_remove m bucket key b k

/-- A deletion changes no object but its own, which is gone when it succeeds. -/
theorem Answers.find?_delete {answer : Except StoreFailure Unit}
    (h : m.Answers ⟨.delete bucket key, answer⟩ m') (b k : String) :
    m'.find? b k = m.find? b k ∨
      b = bucket ∧ k = key ∧ answer = .ok () ∧ m'.find? b k = none := by
  rcases answer with e | ⟨⟩
  · exact .inl (h.not_deleted.2.2 b k)
  · rw [h.deleted_all]
    split
    · rename_i heq
      exact .inr ⟨heq.1.symm, heq.2.symm, rfl, rfl⟩
    · exact .inl rfl

/-- An object is gone when its deletion succeeds. -/
theorem Answers.deleted (h : m.Answers ⟨.delete bucket key, .ok ()⟩ m') :
    m'.find? bucket key = none := by
  rw [h.deleted_all, if_pos ⟨rfl, rfl⟩]

/-- A call does not change what the store does wrong. -/
theorem Answers.faults_eq {e : Event} (h : m.Answers e m') : m'.faults = m.faults := by
  by_cases he : e.call.isChange = false
  · rw [h.eq_of_isChange he]
  obtain ⟨c, answer⟩ := e
  cases c with
  | copy b s d =>
    have h : m.copy b s d = (answer, m') := h
    rw [copy] at h
    split at h
    · exact (congrArg Store.faults (Prod.ext_iff.1 h).2).symm
    · exact (congrArg Store.faults (Prod.ext_iff.1 h).2).symm
    · split at h <;> exact (congrArg Store.faults (Prod.ext_iff.1 h).2).symm
  | delete b k =>
    have h : m.delete b k = (answer, m') := h
    rw [delete] at h
    split at h <;> exact (congrArg Store.faults (Prod.ext_iff.1 h).2).symm
  | _ => exact absurd rfl he

/-! ## Traces -/

/-- The calls of a trace take the one store to the other when `enter` says how the store may change
before a call. -/
inductive Passes (enter : Store → Store → Prop) : Store → List Event → Store → Prop
  /-- No call changes nothing. -/
  | nil (m : Store) : Passes enter m [] m
  /-- The store changes, and then it answers a call. -/
  | cons {m m₁ m₂ m' : Store} {e : Event} {es : List Event} :
    enter m m₁ → m₁.Answers e m₂ → Passes enter m₂ es m' → Passes enter m (e :: es) m'

variable {enter : Store → Store → Prop} {es es₁ es₂ : List Event}

/-- The calls of two traces in a row go through a store between them. -/
theorem passes_append :
    Passes enter m (es₁ ++ es₂) m' ↔ ∃ m₁, Passes enter m es₁ m₁ ∧ Passes enter m₁ es₂ m' := by
  constructor
  · intro h
    induction es₁ generalizing m with
    | nil => exact ⟨m, .nil m, h⟩
    | cons e es₁ ih =>
      cases h with
      | cons henter he h =>
        obtain ⟨m₁, h₁, h₂⟩ := ih h
        exact ⟨m₁, .cons henter he h₁, h₂⟩
  · rintro ⟨m₁, h₁, h₂⟩
    induction h₁ with
    | nil => exact h₂
    | cons henter he _ ih => exact .cons henter he (ih h₂)

/-- What the changes between calls and the answers to the calls preserve is preserved by a trace. -/
theorem Passes.preserves {P : Store → Prop} (h : Passes enter m es m')
    (hbetween : ∀ m₁ m₂, enter m₁ m₂ → P m₁ → P m₂)
    (hcall : ∀ e ∈ es, ∀ m₁ m₂, m₁.Answers e m₂ → P m₁ → P m₂) (hm : P m) : P m' := by
  induction h with
  | nil => exact hm
  | cons henter he _ ih =>
    refine ih (fun e he' => hcall e (List.mem_cons_of_mem _ he')) ?_
    exact hcall _ List.mem_cons_self _ _ he (hbetween _ _ henter hm)

/-- Calls that change nothing leave a store as it is that does not change by itself. -/
theorem Passes.eq_of_isChange (h : Passes Eq m es m') (hes : ∀ e ∈ es, e.call.isChange = false) :
    m' = m := by
  refine h.preserves (P := fun m₁ => m₁ = m) ?_ (fun e he m₁ m₂ h₁₂ h₁ => ?_) rfl
  · rintro m₁ _ rfl h₁
    exact h₁
  · rw [h₁₂.eq_of_isChange (hes e he), h₁]

/-- Calls that change nothing are all answered by the store at the start if it does not change by
itself. -/
theorem Passes.answers_of_mem (h : Passes Eq m es m') (hes : ∀ e ∈ es, e.call.isChange = false)
    {e : Event} (he : e ∈ es) : m.Answers e m := by
  obtain ⟨before, after, rfl⟩ := List.append_of_mem he
  obtain ⟨m₁, hbefore, hrest⟩ := passes_append.1 h
  obtain rfl := hbefore.eq_of_isChange fun e he => hes e (by simp [he])
  cases hrest with
  | cons henter hanswers _ =>
    obtain rfl := henter
    rwa [hanswers.eq_of_isChange (hes e he)] at hanswers

/-- Where nothing is copied to and nothing changes by itself, an object stays as it is unless it is
deleted. -/
theorem Passes.find?_of_moves
    (henter : ∀ m₁ m₂, enter m₁ m₂ → m₂.find? bucket key = m₁.find? bucket key)
    (h : Passes enter m es m') (hes : ∀ e ∈ es, e.call.isChange = true →
      ∃ move : Move, move.Makes bucket e.call ∧ move.destination ≠ key) :
    m'.find? bucket key = m.find? bucket key ∨
      m'.find? bucket key = none ∧ ⟨.delete bucket key, .ok ()⟩ ∈ es := by
  -- What is to be shown holds of every store on the way.
  refine h.preserves (P := fun m₁ => m₁.find? bucket key = m.find? bucket key ∨
    m₁.find? bucket key = none ∧ ⟨.delete bucket key, .ok ()⟩ ∈ es) (fun m₁ m₂ h₁₂ h₁ => ?_)
    (fun e he m₁ m₂ h₁₂ h₁ => ?_) (.inl rfl)
  · rwa [henter m₁ m₂ h₁₂]
  by_cases hchange : e.call.isChange = true
  · obtain ⟨move, hmakes, hne⟩ := hes e he hchange
    obtain ⟨c, answer⟩ := e
    rcases hmakes with rfl | rfl | rfl
    · rcases h₁₂.find?_copy bucket key with hsame | ⟨-, hkey, -⟩
      · rwa [hsame]
      · exact absurd hkey.symm hne
    · cases hchange
    · rcases h₁₂.find?_delete bucket key with hsame | ⟨-, rfl, rfl, hgone⟩
      · rwa [hsame]
      · exact .inr ⟨hgone, he⟩
  · rwa [h₁₂.eq_of_isChange (Bool.eq_false_iff.2 hchange)]

/-- An object that is deleted and not copied to any more is gone. -/
theorem Passes.gone_of_moves
    (henter : ∀ m₁ m₂, enter m₁ m₂ → m₂.find? bucket key = m₁.find? bucket key)
    (h : Passes enter m es m') (hes : ∀ e ∈ es, e.call.isChange = true →
      ∃ move : Move, move.Makes bucket e.call ∧ move.destination ≠ key)
    (hdelete : ⟨.delete bucket key, .ok ()⟩ ∈ es) : m'.find? bucket key = none := by
  obtain ⟨before, after, rfl⟩ := List.append_of_mem hdelete
  obtain ⟨m₁, -, hrest⟩ := passes_append.1 h
  cases hrest with
  | cons _ hdeleted hafter =>
    -- Nothing that comes after the deletion brings the object back.
    rcases hafter.find?_of_moves henter fun e he => hes e (by simp [he]) with hsame | ⟨hgone, -⟩
    · rw [hsame, hdeleted.deleted]
    · exact hgone

/-- The object of a move that has been made is gone. -/
theorem Passes.gone_of_made
    (henter : ∀ m₁ m₂, enter m₁ m₂ → m₂.find? bucket key = m₁.find? bucket key)
    {move : Move} (h : Passes enter m es m') (hmade : move.Made bucket es)
    (hkey : move.source = key) : m'.find? bucket key = none := by
  subst hkey
  rcases hmade with rfl | ⟨e, he, rfl⟩
  · cases h with
    | cons _ _ h =>
      cases h with
      | cons _ _ h =>
        cases h with
        | cons _ hdelete h =>
          cases h
          exact hdelete.deleted
  · cases h with
    | @cons _ m₁ m₂ _ _ _ _ hcopy h =>
      cases h with
      | cons h₂ hprobe h =>
        cases h
        -- The copy failed because there was nothing to copy, and it made nothing.
        have hgone : m₁.find? bucket move.source = none := hcopy.missing he
        rw [hprobe.eq_of_isChange rfl, henter _ _ h₂]
        rcases hcopy.find?_copy bucket move.source with hsame | ⟨-, -, body, hbody, -⟩
        · rw [hsame, hgone]
        · rw [hgone] at hbody
          cases hbody

/-- A run takes the store from the one at its start to the one at its end. -/
theorem passes_eventsFrom {σ α : Type} {respond : Responder σ} (storeOf : σ → Store)
    (hstep : ∀ c x, ∃ m, enter (storeOf x) m ∧
      m.Answers ⟨c, (respond c x).1⟩ (storeOf (respond c x).2))
    (cost : Call → Nat) (limit : Option Nat) (p : Program α) (x : σ) (t : Nat) :
    Passes enter (storeOf x) (p.eventsFrom respond cost limit x t)
      (storeOf (p.runFrom respond cost limit x t).state) := by
  induction p generalizing x t with
  | done a => exact .nil _
  | call c next ih =>
    rw [Program.eventsFrom, Program.runFrom]
    split
    · obtain ⟨m, henter, he⟩ := hstep c x
      exact .cons henter he (ih _ _ _)
    · exact .nil _

end Store

/-- The world answers calls as its store can. -/
theorem answers_respond {τ : Type} (service : JobService τ) (c : Call) (w : World τ) :
    w.store.Answers ⟨c, (w.respond service c).1⟩ (w.respond service c).2.store := by
  cases c <;> exact rfl

end LedgerExport.World
