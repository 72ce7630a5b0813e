import Mathlib.Tactic.SplitIfs
import LedgerExport.Proofs.Relocations

/-!
# Rivals

Moves of one object that overlap: each makes its calls in order, and the calls of all of them come
in any order, while the store may do wrong what it likes. `rivals_converge` says that one more move
without faults always takes the object to its place, wherever the others have been left; and that
without faults the others succeed as well, each after three calls at the most.

What is shown of the store is `Keeps`: the object is where it was or at its place, and all else is
as it was. It depends on how far each move has come (`Stage`), for an object is deleted only when it
has been seen at its place, and nothing takes it away from there.
-/

namespace LedgerExport

open World

/-- The world in which the store does these things wrong. -/
def World.withFaults {τ : Type} (w : World τ) (faults : Faults) : World τ :=
  { w with store := { w.store with faults } }

/-- A world, and what is left of each of the moves that are under way in it. -/
structure Rivals (τ : Type) where
  /-- The world. -/
  world : World τ
  /-- What is left of each move. -/
  pending : List (Program (Except StoreFailure Unit))

namespace Rivals

/-- What happens next among moves that overlap. -/
inductive Act where
  /-- The move with this number makes its next call, if it has not ended. -/
  | call (i : Nat)
  /-- The store does something else wrong than before. -/
  | fails (faults : Faults)
deriving DecidableEq

/-- So many moves of an object, of which none has begun. -/
def start {τ : Type} (bucket : String) (move : Move) (w : World τ) (count : Nat) : Rivals τ :=
  ⟨w, List.replicate count (move.relocate bucket)⟩

variable {τ : Type} (service : JobService τ)

/-- What has become of the moves when one thing has happened. -/
def take (c : Rivals τ) : Act → Rivals τ
  | .call i =>
    match c.pending[i]? with
    | some (.call call next) =>
      let answered := World.respond service call c.world
      ⟨answered.2, c.pending.set i (next answered.1)⟩
    | _ => c
  | .fails faults => { c with world := c.world.withFaults faults }

/-- What has become of the moves when all of this has happened, in this order. -/
def after (c : Rivals τ) (acts : List Act) : Rivals τ := acts.foldl (take service) c

end Rivals

namespace Move

variable {bucket : String} {move : Move} {body : ByteArray} {m m₁ m₂ : Store}

/-- What a store `m'` has kept of the object of a move and of the others of a store `m`. -/
structure Keeps (bucket : String) (move : Move) (body : ByteArray) (m m' : Store) : Prop where
  /-- The object is where it was, or it is gone and at its place. -/
  object : m'.find? bucket move.source = some body ∨
    m'.find? bucket move.source = none ∧ m'.find? bucket move.destination = some body
  /-- Nothing else is at its place. -/
  place : m'.find? bucket move.destination = none ∨ m'.find? bucket move.destination = some body
  /-- All else is as it was. -/
  other : ∀ b k, (b = bucket → k ≠ move.source ∧ k ≠ move.destination) →
    m'.find? b k = m.find? b k

/-- A store that changes no object keeps what it has kept. -/
theorem Keeps.congr (h : Keeps bucket move body m m₁)
    (hsame : ∀ b k, m₂.find? b k = m₁.find? b k) : Keeps bucket move body m m₂ where
  object := by
    rw [hsame, hsame]
    exact h.object
  place := by
    rw [hsame]
    exact h.place
  other b k hother := (hsame b k).trans (h.other b k hother)

/-- A copy that is said to be made keeps the object, and without faults it brings it to its
place. -/
theorem Keeps.copied (h : Keeps bucket move body m m₁) (hne : move.source ≠ move.destination)
    (hcopy : m₁.Answers ⟨.copy bucket move.source move.destination, .ok ()⟩ m₂) :
    Keeps bucket move body m m₂ ∧
      (m₁.find? bucket move.destination = some body →
        m₂.find? bucket move.destination = some body) ∧
      (m₁.faults = .none → m₂.find? bucket move.destination = some body) := by
  obtain ⟨-, body', hbody', hcopied⟩ := hcopy.copied
  have hbody : m₁.find? bucket move.source = some body := by
    rcases h.object with hobject | hobject
    · exact hobject
    · exact nomatch hbody'.symm.trans hobject.1
  obtain rfl : body' = body := Option.some.inj (hbody'.symm.trans hbody)
  have hsource : m₂.find? bucket move.source = some body' := by
    rw [hcopied, if_neg fun hmade => hne hmade.1.2.symm, hbody]
  have hplace : m₂.find? bucket move.destination =
      if move.destination ∈ m₁.faults.dropped then m₁.find? bucket move.destination
      else some body' := by
    simp [hcopied]
  refine ⟨⟨.inl hsource, ?_, fun b k hother => ?_⟩, fun hthere => ?_, fun hfaults => ?_⟩
  · rw [hplace]
    split
    · exact h.place
    · exact .inr rfl
  · rw [hcopied, if_neg fun hmade => (hother hmade.1.1.symm).2 hmade.1.2.symm]
    exact h.other b k hother
  · rw [hplace, hthere, ite_self]
  · rw [hplace, hfaults, if_neg (by simp [Faults.none])]

/-- A deletion of the object keeps it when it is at its place. -/
theorem Keeps.deleted (h : Keeps bucket move body m m₁) (hne : move.source ≠ move.destination)
    (hthere : m₁.find? bucket move.destination = some body)
    (hdelete : m₁.Answers ⟨.delete bucket move.source, .ok ()⟩ m₂) :
    Keeps bucket move body m m₂ ∧ m₂.find? bucket move.destination = some body := by
  have hdeleted := hdelete.deleted_all
  have hgone : m₂.find? bucket move.source = none := by rw [hdeleted, if_pos ⟨rfl, rfl⟩]
  have hplace : m₂.find? bucket move.destination = some body := by
    rw [hdeleted, if_neg fun heq => hne heq.2, hthere]
  refine ⟨⟨.inr ⟨hgone, hplace⟩, .inr hplace, fun b k hother => ?_⟩, hplace⟩
  rw [hdeleted, if_neg fun heq => (hother heq.1.symm).1 heq.2.symm]
  exact h.other b k hother

/-- The object is at its place when it is gone from where it was. -/
theorem Keeps.there_of_gone (h : Keeps bucket move body m m₁)
    (hgone : m₁.find? bucket move.source = none) :
    m₁.find? bucket move.destination = some body := by
  rcases h.object with hobject | hobject
  · exact nomatch hgone.symm.trans hobject
  · exact hobject.2

/-- What is found at the place is the object. -/
theorem Keeps.there_of_found (h : Keeps bucket move body m m₁) {found : Bool}
    (hfound : (m₁.find? bucket move.destination).isSome = found) :
    found = true ↔ m₁.find? bucket move.destination = some body := by
  rcases h.place with hplace | hplace <;> rw [hplace] at hfound ⊢ <;> subst hfound <;> simp

/-- How far a move has come that still has so many calls to make at the most. The object may be
`there`, at its place; in an `honest` store nothing has gone wrong. -/
inductive Stage (bucket : String) (move : Move) (there honest : Prop) :
    Nat → Program (Except StoreFailure Unit) → Prop
  /-- It has not begun. -/
  | begins : Stage bucket move there honest 3 (move.relocate bucket)
  /-- The object was gone, and its copy is looked for. -/
  | missing {e : StoreFailure} : there →
    Stage bucket move there honest 2 (.call (.probe bucket move.destination) fun
      | .ok true => .done (.ok ())
      | .ok false => .done (.error e)
      | .error e' => .done (.error e'))
  /-- The object has been copied, and the copy is looked for. -/
  | verifies : (honest → there) →
    Stage bucket move there honest 2 (.call (.probe bucket move.destination) fun
      | .ok true => .ask (.delete bucket move.source)
      | .ok false => .done (.error (.copyNotVerified move.source move.destination))
      | .error e => .done (.error e))
  /-- The copy has been found, and the object is deleted. -/
  | deletes : there → Stage bucket move there honest 1 (.ask (.delete bucket move.source))
  /-- It has ended. -/
  | ended {r : Except StoreFailure Unit} : (honest → r = .ok ()) →
    Stage bucket move there honest 0 (.done r)

/-- A move has come as far when the object is still at its place. -/
theorem Stage.mono {there there' honest : Prop} {left : Nat}
    {p : Program (Except StoreFailure Unit)} (h : Stage bucket move there honest left p)
    (hthere : there → there') : Stage bucket move there' honest left p := by
  cases h with
  | begins => exact .begins
  | missing h => exact .missing (hthere h)
  | verifies h => exact .verifies fun hhonest => hthere (h hhonest)
  | deletes h => exact .deletes (hthere h)
  | ended h => exact .ended h

/-- A move that has ended makes no more calls. -/
theorem Stage.left_eq {there honest : Prop} {left : Nat} {r : Except StoreFailure Unit}
    (h : Stage bucket move there honest left (.done r)) : left = 0 ∧ (honest → r = .ok ()) := by
  generalize hp : Program.done r = p at h
  cases h with
  | ended h =>
    obtain rfl := Program.done.inj hp
    exact ⟨rfl, h⟩
  | begins | missing | verifies | deletes => cases hp

/-- When a move makes its next call, the store keeps the object, the object stays at its place if it
was there, and the move comes a stage further. -/
theorem Stage.step {honest : Prop} {left : Nat} {p : Program (Except StoreFailure Unit)}
    {call : Call} {next : call.Answer → Program (Except StoreFailure Unit)} {answer : call.Answer}
    (h : Stage bucket move (m₁.find? bucket move.destination = some body) honest left p)
    (hp : p = .call call next) (hne : move.source ≠ move.destination)
    (hkeeps : Keeps bucket move body m m₁) (hhonest : honest → m₁.faults = .none)
    (hanswers : m₁.Answers ⟨call, answer⟩ m₂) : Keeps bucket move body m m₂ ∧
      (m₁.find? bucket move.destination = some body →
        m₂.find? bucket move.destination = some body) ∧
      ∃ left' < left, Stage bucket move (m₂.find? bucket move.destination = some body) honest
        left' (next answer) := by
  cases h with
  | begins =>
    rw [relocate] at hp
    cases hp
    rcases answer with e | ⟨⟩
    · obtain ⟨hsame, hreason⟩ := hanswers.not_copied
      refine ⟨hkeeps.congr hsame, fun hthere => by rw [hsame, hthere], ?_⟩
      rcases hreason with ⟨hfailing, hnot⟩ | ⟨-, hgone, rfl⟩
      · refine ⟨0, by omega, ?_⟩
        simp only [hnot, Bool.false_eq_true, if_false]
        exact .ended fun h => absurd hfailing (Store.not_failing (hhonest h) _)
      · refine ⟨2, by omega, .missing ?_⟩
        rw [hsame]
        exact hkeeps.there_of_gone hgone
    · obtain ⟨hkeeps₂, hstays, hplace⟩ := hkeeps.copied hne hanswers
      exact ⟨hkeeps₂, hstays, 2, by omega, .verifies fun h => hplace (hhonest h)⟩
  | missing hthere =>
    cases hp
    obtain rfl := hanswers.eq_of_isChange rfl
    refine ⟨hkeeps, id, 0, by omega, ?_⟩
    rcases answer with e | _ | _
    · exact .ended fun h => absurd hanswers.not_probed.1 (Store.not_failing (hhonest h) _)
    · exact absurd ((hkeeps.there_of_found hanswers.found).2 hthere) Bool.false_ne_true
    · exact .ended fun _ => rfl
  | verifies hthere =>
    cases hp
    obtain rfl := hanswers.eq_of_isChange rfl
    refine ⟨hkeeps, id, ?_⟩
    rcases answer with e | _ | _
    · exact ⟨0, by omega, .ended fun h =>
        absurd hanswers.not_probed.1 (Store.not_failing (hhonest h) _)⟩
    · exact ⟨0, by omega, .ended fun h =>
        absurd ((hkeeps.there_of_found hanswers.found).2 (hthere h)) Bool.false_ne_true⟩
    · exact ⟨1, by omega, .deletes ((hkeeps.there_of_found hanswers.found).1 rfl)⟩
  | deletes hthere =>
    cases hp
    rcases answer with e | ⟨⟩
    · obtain ⟨hfailing, -, hsame⟩ := hanswers.not_deleted
      exact ⟨hkeeps.congr hsame, fun _ => by rw [hsame, hthere], 0, by omega,
        .ended fun h => absurd hfailing (Store.not_failing (hhonest h) _)⟩
    · obtain ⟨hkeeps₂, hplace⟩ := hkeeps.deleted hne hthere hanswers
      exact ⟨hkeeps₂, fun _ => hplace, 0, by omega, .ended fun _ => rfl⟩
  | ended => cases hp

/-- One move more, in a store that has kept the object and does nothing wrong any more, succeeds and
takes the object to its place. -/
theorem Keeps.relocate {τ : Type} {w : World τ} (service : JobService τ)
    (h : Keeps bucket move body m w.store) (hfaults : w.store.faults = .none) :
    let course := (move.relocate bucket).run (World.respond service) w
    course.1 = .ok () ∧ ∀ b k, course.2.store.find? b k =
      if bucket = b ∧ move.source = k then none
      else if bucket = b ∧ move.destination = k then some body else m.find? b k := by
  intro course
  have htraces := Program.traces_run (World.respond service) (move.relocate bucket) w
  have hpasses := World.passes_run service (move.relocate bucket) w
  -- What the move leaves as it is has been kept.
  have hother {b k : String} (hs : ¬(bucket = b ∧ move.source = k))
      (hd : ¬(bucket = b ∧ move.destination = k)) : w.store.find? b k = m.find? b k := by
    refine h.other b k ?_
    rintro rfl
    exact ⟨fun heq => hs ⟨rfl, heq.symm⟩, fun heq => hd ⟨rfl, heq.symm⟩⟩
  rcases h.object with hobject | ⟨hgone, hplace⟩
  · obtain ⟨hr, -, hafter⟩ := relocate_found htraces hpasses hfaults hobject
    refine ⟨hr, fun b k => (hafter b k).trans ?_⟩
    split_ifs with hs hd
    · rfl
    · rfl
    · exact hother hs hd
  · obtain ⟨hsame, hr⟩ := relocate_missing htraces hpasses hfaults hgone
    rw [hplace] at hr
    refine ⟨hr, fun b k => (hsame b k).trans ?_⟩
    split_ifs with hs hd
    · rw [← hs.1, ← hs.2, hgone]
    · rw [← hd.1, ← hd.2, hplace]
    · exact hother hs hd

end Move

/-! ## Moves that overlap -/

namespace Rivals

variable {τ : Type} {service : JobService τ} {bucket : String} {move : Move} {body : ByteArray}
  {m : Store} {honest : Prop} {before acts : List Act} {c : Rivals τ}

/-- What is known of moves that overlap when so much has happened. -/
structure Sound (bucket : String) (move : Move) (body : ByteArray) (m : Store) (honest : Prop)
    (acts : List Act) (c : Rivals τ) : Prop where
  /-- The store has kept the object. -/
  keeps : Move.Keeps bucket move body m c.world.store
  /-- An honest store does nothing wrong. -/
  faults : honest → c.world.store.faults = .none
  /-- Each move has come the further the more calls it has made. -/
  stages : ∀ i p, c.pending[i]? = some p → ∃ left, left ≤ 3 - acts.count (.call i) ∧
    Move.Stage bucket move (c.world.store.find? bucket move.destination = some body) honest left p

/-- What happens next leaves them sound. -/
theorem Sound.take (h : Sound bucket move body m honest acts c)
    (hne : move.source ≠ move.destination) {act : Act} (hact : honest → ∃ i, act = .call i) :
    Sound bucket move body m honest (acts ++ [act]) (c.take service act) := by
  cases act with
  | fails faults =>
    refine ⟨⟨h.keeps.object, h.keeps.place, h.keeps.other⟩, fun hhonest => ?_, fun i p hp => ?_⟩
    · exact nomatch (hact hhonest).choose_spec
    · obtain ⟨left, hleft, hstage⟩ := h.stages i p hp
      exact ⟨left, by simpa using hleft, hstage⟩
  | call j =>
    have hcount (i : Nat) : (acts ++ [Act.call j]).count (Act.call i) =
        acts.count (Act.call i) + if j = i then 1 else 0 := by
      simp [List.count_append, List.count_singleton]
    dsimp only [Rivals.take]
    split
    · -- The move comes a stage further, and the others have come as far as before.
      rename_i call next hpending
      have hanswers := World.answers_respond service call c.world
      obtain ⟨left, hleft, hstage⟩ := h.stages j _ hpending
      obtain ⟨hkeeps, hstays, left', hlt, hstage'⟩ :=
        hstage.step rfl hne h.keeps h.faults hanswers
      refine ⟨hkeeps, fun hhonest => hanswers.faults_eq.trans (h.faults hhonest), fun i p hp => ?_⟩
      rw [hcount]
      rw [List.getElem?_set] at hp
      split at hp
      · rename_i hji
        rw [if_pos (List.getElem?_eq_some_iff.1 hpending).1] at hp
        obtain rfl := Option.some.inj hp
        subst hji
        exact ⟨left', by rw [if_pos rfl]; omega, hstage'⟩
      · rename_i hji
        obtain ⟨left, hleft, hstage⟩ := h.stages i p hp
        exact ⟨left, by rw [if_neg hji]; omega, hstage.mono hstays⟩
    · -- A move that makes no call has ended.
      rename_i hnone
      refine ⟨h.keeps, h.faults, fun i p hp => ?_⟩
      rw [hcount]
      obtain ⟨left, hleft, hstage⟩ := h.stages i p hp
      refine ⟨left, ?_, hstage⟩
      split
      · rename_i hji
        subst hji
        cases p with
        | done r => have := hstage.left_eq.1; omega
        | call call next => exact absurd hp (hnone call next)
      · omega

/-- Moves that have not begun are sound. -/
theorem sound_start {w : World τ} (hhonest : honest → w.store.faults = .none)
    (hbody : w.store.find? bucket move.source = some body)
    (hfree : w.store.find? bucket move.destination = none) (count : Nat) :
    Sound bucket move body w.store honest [] (start bucket move w count) := by
  refine ⟨⟨.inl hbody, .inl hfree, fun _ _ _ => rfl⟩, hhonest, fun i p hp => ?_⟩
  obtain rfl := List.eq_of_mem_replicate (List.mem_of_getElem? hp)
  exact ⟨3, Nat.le_refl 3, .begins⟩

/-- Whatever happens leaves them sound. -/
theorem Sound.after (h : Sound bucket move body m honest before c)
    (hne : move.source ≠ move.destination) (hacts : honest → ∀ act ∈ acts, ∃ i, act = .call i) :
    Sound bucket move body m honest (before ++ acts) (c.after service acts) := by
  induction acts generalizing before c with
  | nil => rwa [List.append_nil]
  | cons act acts ih =>
    rw [List.append_cons]
    have htake : Sound bucket move body m honest (before ++ [act]) (c.take service act) :=
      h.take hne fun hhonest => hacts hhonest act List.mem_cons_self
    exact ih htake fun hhonest act' hact' => hacts hhonest act' (List.mem_cons_of_mem _ hact')

/-- There are as many moves as at the start. -/
theorem length_after (c : Rivals τ) (acts : List Act) :
    (c.after service acts).pending.length = c.pending.length := by
  induction acts generalizing c with
  | nil => rfl
  | cons act acts ih =>
    refine (ih (c.take service act)).trans ?_
    unfold Rivals.take
    split
    · split
      · exact List.length_set
      · rfl
    · rfl

/-- However many moves of one object overlap, in whatever order their calls come, whatever the store
does wrong and wherever they are left: one move more without faults succeeds and takes the object to
its place, and all else is as it was. If the store does nothing wrong, no move fails, and each has
ended when it has had its turn three times. -/
theorem rivals_converge (service : JobService τ) (w : World τ) (bucket : String) (move : Move)
    (body : ByteArray) (hne : move.source ≠ move.destination)
    (hbody : w.store.find? bucket move.source = some body)
    (hfree : w.store.find? bucket move.destination = none) (count : Nat) (acts : List Act) :
    let c := (start bucket move w count).after service acts
    let last := (move.relocate bucket).run (World.respond service) (c.world.withFaults .none)
    (last.1 = .ok () ∧ ∀ b k, last.2.store.find? b k =
      if bucket = b ∧ move.source = k then none
      else if bucket = b ∧ move.destination = k then some body else w.store.find? b k) ∧
    (w.store.faults = .none → (∀ act ∈ acts, ∃ i, act = .call i) →
      (∀ (i : Nat) r, c.pending[i]? = some (Program.done r) → r = Except.ok ()) ∧
      ((∀ i < count, 3 ≤ acts.count (.call i)) →
        c.pending = List.replicate count (.done (.ok ())))) := by
  intro c last
  refine ⟨?_, fun hfaults hcalls => ?_⟩
  · -- In this part nothing is asked of the store.
    have hsound : Sound bucket move body w.store False acts c :=
      (sound_start nofun hbody hfree count).after hne nofun
    exact Move.Keeps.relocate (w := c.world.withFaults .none) service
      ⟨hsound.keeps.object, hsound.keeps.place, hsound.keeps.other⟩ rfl
  have hsound : Sound bucket move body w.store True acts c :=
    (sound_start (fun _ => hfaults) hbody hfree count).after hne fun _ => hcalls
  have hended {i : Nat} {r : Except StoreFailure Unit} (hr : c.pending[i]? = some (.done r)) :
      r = .ok () := by
    obtain ⟨left, -, hstage⟩ := hsound.stages i _ hr
    exact hstage.left_eq.2 trivial
  refine ⟨fun i r => hended, fun hturns => List.eq_replicate_iff.2 ⟨?_, fun p hp => ?_⟩⟩
  · exact (length_after _ acts).trans List.length_replicate
  · -- A move that has had its turn three times has no call left.
    obtain ⟨i, hi⟩ := List.mem_iff_getElem?.1 hp
    obtain ⟨left, hleft, hstage⟩ := hsound.stages i p hi
    have hlt : i < count := by
      have hlt := (List.getElem?_eq_some_iff.1 hi).1
      rwa [length_after, start, List.length_replicate] at hlt
    have hzero : left = 0 := by have := hturns i hlt; omega
    subst hzero
    cases hstage with
    | ended hr => rw [hr trivial]

/-- Two moves are broken off by faults, one after a copy that was dropped, and a third is left after
its copy; without faults, the three overlap and succeed. -/
theorem three_rivals_converge :
    let move : Move := ⟨"k", "d"⟩
    let w : World JobTable := ⟨.holding "b" [("k", "body"), ("other", "")], JobTable.empty⟩
    let stopped : List Act := [.fails ⟨[], ["d"]⟩, .call 0, .fails ⟨[(.delete, "k")], []⟩, .call 1,
      .call 2, .call 2, .call 2, .call 0]
    let turns : List Act := [0, 1, 0, 0, 2, 1, 1, 2, 2].map .call
    let after := (start "b" move w 3).after JobTable.service
    let last := (move.relocate "b").run (World.respond JobTable.service)
      ((after stopped).world.withFaults .none)
    (move.source ≠ move.destination ∧ w.store.find? "b" "k" = some "body".toUTF8 ∧
      w.store.find? "b" "d" = none ∧ w.store.faults = .none) ∧
    (last.1 = .ok () ∧ last.2.store.find? "b" "k" = none ∧
      last.2.store.find? "b" "d" = some "body".toUTF8 ∧
      last.2.store.find? "b" "other" = some "".toUTF8) ∧
    (after turns).pending = List.replicate 3 (.done (.ok ())) := by
  intro move w stopped turns after last
  have hne : move.source ≠ move.destination := by decide
  have hbody : w.store.find? "b" "k" = some "body".toUTF8 := by decide +kernel
  have hfree : w.store.find? "b" "d" = none := by decide +kernel
  have hfaults : w.store.faults = .none := by decide +kernel
  have hother : w.store.find? "b" "other" = some "".toUTF8 := by decide +kernel
  obtain ⟨⟨hok, hstore⟩, -⟩ :=
    rivals_converge JobTable.service w "b" move "body".toUTF8 hne hbody hfree 3 stopped
  obtain ⟨-, hall⟩ :=
    rivals_converge JobTable.service w "b" move "body".toUTF8 hne hbody hfree 3 turns
  refine ⟨⟨hne, hbody, hfree, hfaults⟩, ⟨hok, ?_, ?_, ?_⟩, ?_⟩
  · rw [hstore, if_pos ⟨rfl, rfl⟩]
  · rw [hstore, if_neg (by decide), if_pos ⟨rfl, rfl⟩]
  · rw [hstore, if_neg (by decide), if_neg (by decide), hother]
  · refine (hall hfaults fun act hact => ?_).2 (by decide)
    obtain ⟨i, -, rfl⟩ := List.mem_map.1 hact
    exact ⟨i, rfl⟩

end Rivals

end LedgerExport
