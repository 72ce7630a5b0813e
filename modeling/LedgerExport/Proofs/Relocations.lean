import LedgerExport.Proofs.FaultFree
import LedgerExport.Proofs.Turns

/-!
# Relocations

What moving one object does to a store that may do wrong: `relocate_honours` says what is promised
of it (`Move.Honours`), whatever the store is told to fail and to drop. A move that succeeds has
taken its object away, and one that fails has left it. The object is at its place afterwards unless
its copy was dropped and another object was found there.

The proof goes through the calls of the move. `Move.Made` and `Move.Breaks` say which calls and
answers there can be, and the store that gives these answers is known well enough from them.
-/

namespace LedgerExport

open World

/-! ## Runs to the end -/

/-- The calls of a run to the end, with the answers to them. -/
def Program.eventsOf {σ α : Type} (respond : Responder σ) (p : Program α) (s : σ) : List Event :=
  p.eventsFrom respond (fun _ => 0) none s 0

/-- The calls of a run to the end are a trace of the program with the run's result. -/
theorem Program.traces_run {σ α : Type} (respond : Responder σ) (p : Program α) (s : σ) :
    p.Traces (p.eventsOf respond s) (some (p.run respond s).1) := by
  have htrace := traces_eventsFrom respond (fun _ => 0) none p s 0
  rwa [(runFrom_none respond _ p s 0).1] at htrace

/-- The calls of a run to the end take the store from the one at its start to the one at its end. -/
theorem World.passes_run {τ α : Type} (service : JobService τ) (p : Program α) (w : World τ) :
    w.store.Passes Eq (p.eventsOf (World.respond service) w)
      (p.run (World.respond service) w).2.store := by
  have hpasses : w.store.Passes Eq (p.eventsOf (World.respond service) w) _ :=
    Store.passes_eventsFrom World.store
      (fun c w => ⟨w.store, rfl, World.answers_respond service c w⟩) (fun _ => 0) none p w 0
  rwa [(Program.runFrom_none (World.respond service) _ p w 0).2] at hpasses

/-! ## Faults -/

/-- A fault hits a call with this answer: the store is told to fail the call, or to drop the copy
that it says it has made. -/
def World.Faults.Hits (f : Faults) : Event → Prop
  | ⟨.list _ keyPrefix _, _⟩ => (.list, keyPrefix) ∈ f.failing
  | ⟨.get _ key, _⟩ => (.get, key) ∈ f.failing
  | ⟨.copy _ source destination, answer⟩ =>
    (.copy, source) ∈ f.failing ∨ answer = .ok () ∧ destination ∈ f.dropped
  | ⟨.delete _ key, _⟩ => (.delete, key) ∈ f.failing
  | ⟨.probe _ key, _⟩ => (.probe, key) ∈ f.failing
  | ⟨.describe .., _⟩ | ⟨.submit _, _⟩ => False

/-! ## One move -/

namespace Move

open Program (Traces)

variable {m m' : Store} {bucket : String} {move : Move} {es : List Event}
  {r : Except StoreFailure Unit}

/-- What is promised of a move that ends with `r`, makes these calls, and takes the store `m` to the
store `m'`. -/
structure Honours (bucket : String) (move : Move) (m : Store) (es : List Event) (m' : Store)
    (r : Except StoreFailure Unit) : Prop where
  /-- When it succeeds, the object is gone. -/
  gone : r = .ok () → m'.find? bucket move.source = none
  /-- When it succeeds, there is an object at its place. -/
  there : r = .ok () → (m'.find? bucket move.destination).isSome = true
  /-- This is the object that was moved, unless another one was at its place before and copies to
  that are dropped. -/
  moved : r = .ok () → ∀ body, m.find? bucket move.source = some body →
    m.find? bucket move.destination = none ∨ move.destination ∉ m.faults.dropped →
    m'.find? bucket move.destination = some body
  /-- When it succeeds without an object to move, what is at the place is as it was. -/
  again : r = .ok () → m.find? bucket move.source = none →
    m'.find? bucket move.destination = m.find? bucket move.destination
  /-- When it fails, the object is as it was. -/
  kept : ∀ e, r = .error e → m'.find? bucket move.source = m.find? bucket move.source
  /-- When it fails, what is at the place is as it was, or it is a copy of the object. -/
  halfway : ∀ e, r = .error e →
    m'.find? bucket move.destination = m.find? bucket move.destination ∨
      ∃ body, m.find? bucket move.source = some body ∧
        m'.find? bucket move.destination = some body
  /-- It fails for want of an object just when no fault hits its calls and there is an object
  neither to move nor at the place; and it names the one to move. -/
  notFound_iff : ∀ b k, r = .error (.notFound b k) ↔ (b = bucket ∧ k = move.source) ∧
    (∀ e ∈ es, ¬m.faults.Hits e) ∧ m.find? bucket move.source = none ∧
      m.find? bucket move.destination = none
  /-- No other object changes. -/
  frame : ∀ b k, (b = bucket → k ≠ move.source ∧ k ≠ move.destination) →
    m'.find? b k = m.find? b k

/-- A move that has been made has taken its object away and its copy, unless it was dropped, to its
place; or there was no object to move, and nothing has changed. Either way something is at the
place. -/
theorem Made.effect (h : move.Made bucket es) (hpasses : m.Passes Eq es m')
    (hne : move.source ≠ move.destination) :
    (m'.find? bucket move.destination).isSome = true ∧
    ((∃ body, m.find? bucket move.source = some body ∧ ∀ b k, m'.find? b k =
        if bucket = b ∧ move.source = k then none
        else if (bucket = b ∧ move.destination = k) ∧ move.destination ∉ m.faults.dropped
          then some body else m.find? b k) ∨
      m.find? bucket move.source = none ∧ ∀ b k, m'.find? b k = m.find? b k) := by
  rcases h with rfl | ⟨e, he, rfl⟩
  · obtain ⟨m₁, hcopy, hpasses₁⟩ := hpasses.of_cons
    obtain ⟨m₂, hprobe, hpasses₂⟩ := hpasses₁.of_cons
    obtain ⟨m₃, hdelete, hpasses₃⟩ := hpasses₂.of_cons
    cases hpasses₃
    obtain rfl := hprobe.eq_of_isChange rfl
    obtain ⟨-, body, hbody, hcopied⟩ := hcopy.copied
    have hdeleted := hdelete.deleted_all
    -- The copy was found, and it is not what is deleted.
    have hthere : (m'.find? bucket move.destination).isSome = true := by
      rw [hdeleted, if_neg fun heq => hne heq.2]
      exact hprobe.found
    exact ⟨hthere, .inl ⟨body, hbody, fun b k => by rw [hdeleted, hcopied]⟩⟩
  · obtain ⟨m₁, hcopy, hpasses₁⟩ := hpasses.of_cons
    obtain ⟨m₂, hprobe, hpasses₂⟩ := hpasses₁.of_cons
    cases hpasses₂
    obtain rfl := hprobe.eq_of_isChange rfl
    exact ⟨hprobe.found, .inr ⟨hcopy.missing he, hcopy.not_copied.1⟩⟩

/-- A move that has been broken off has changed nothing, or it has copied its object to its
place. -/
theorem Breaks.effect {e : StoreFailure} (h : move.Breaks bucket es e)
    (hpasses : m.Passes Eq es m') (b k : String) : m'.find? b k = m.find? b k ∨
      (b = bucket ∧ k = move.destination) ∧ ∃ body, m.find? bucket move.source = some body ∧
        m'.find? b k = some body := by
  -- Whatever is broken off has begun with a copy, and nothing has changed after it.
  have hbegun {m₁ : Store} {copied : Except StoreFailure Unit}
      (hcopy : m.Answers ⟨.copy bucket move.source move.destination, copied⟩ m₁)
      (hsame : m'.find? b k = m₁.find? b k) : m'.find? b k = m.find? b k ∨
        (b = bucket ∧ k = move.destination) ∧ ∃ body, m.find? bucket move.source = some body ∧
          m'.find? b k = some body := by
    rw [hsame]
    rcases hcopy.find?_copy b k with hsame | ⟨hb, hk, hcopied⟩
    · exact .inl hsame
    · exact .inr ⟨⟨hb, hk⟩, hcopied⟩
  cases h with
  | notCopied | gone | notProbed | notVerified =>
    obtain ⟨m₁, hcopy, hpasses₁⟩ := hpasses.of_cons
    have hafter : m' = m₁ := hpasses₁.eq_of_isChange (by simp [Call.isChange])
    exact hbegun hcopy (by rw [hafter])
  | notDeleted =>
    obtain ⟨m₁, hcopy, hpasses₁⟩ := hpasses.of_cons
    obtain ⟨m₂, hprobe, hpasses₂⟩ := hpasses₁.of_cons
    obtain ⟨m₃, hdelete, hpasses₃⟩ := hpasses₂.of_cons
    cases hpasses₃
    have hprobed : m₂ = m₁ := hprobe.eq_of_isChange rfl
    exact hbegun hcopy (by rw [hdelete.not_deleted.2.2, hprobed])

/-- A move is broken off for want of an object just when no fault hits its calls and there is an
object neither to move nor at the place. -/
theorem Breaks.notFound_cases {e : StoreFailure} (h : move.Breaks bucket es e)
    (hpasses : m.Passes Eq es m') :
    (e = .notFound bucket move.source ∧ (∀ e ∈ es, ¬m.faults.Hits e) ∧
      m.find? bucket move.source = none ∧ m.find? bucket move.destination = none) ∨
    (e.isNotFound = false ∧ ((∃ e ∈ es, m.faults.Hits e) ∨
      (m.find? bucket move.source).isSome = true)) := by
  cases h with
  | notCopied hnot =>
    obtain ⟨m₁, hcopy, -⟩ := hpasses.of_cons
    rcases hcopy.not_copied.2 with ⟨hfailing, -⟩ | ⟨-, -, rfl⟩
    · exact .inr ⟨hnot, .inl ⟨_, List.mem_cons_self, .inl hfailing⟩⟩
    · cases hnot
  | gone hgone =>
    obtain ⟨m₁, hcopy, hpasses₁⟩ := hpasses.of_cons
    obtain ⟨m₂, hprobe, -⟩ := hpasses₁.of_cons
    obtain ⟨hsame, ⟨-, hnot⟩ | ⟨hfine, hnone, rfl⟩⟩ := hcopy.not_copied
    · rw [hnot] at hgone
      cases hgone
    · have hfree : m.find? bucket move.destination = none := by
        rw [← hsame]
        exact Option.not_isSome_iff_eq_none.1 (by simp [hprobe.found])
      have hfine' : (.probe, move.destination) ∉ m.faults.failing := by
        rw [← hcopy.faults_eq]
        exact hprobe.probe_not_failing
      refine .inl ⟨rfl, List.forall_mem_cons.2 ⟨?_, List.forall_mem_singleton.2 hfine'⟩, hnone,
        hfree⟩
      rintro (hfailing | ⟨hok, -⟩)
      · exact hfine hfailing
      · cases hok
  | notProbed _ =>
    obtain ⟨m₁, hcopy, hpasses₁⟩ := hpasses.of_cons
    obtain ⟨m₂, hprobe, -⟩ := hpasses₁.of_cons
    obtain ⟨hfailing, hnot⟩ := hprobe.not_probed
    rw [hcopy.faults_eq] at hfailing
    exact .inr ⟨hnot, .inl ⟨_, List.mem_cons_of_mem _ List.mem_cons_self, hfailing⟩⟩
  | notVerified =>
    obtain ⟨m₁, hcopy, -⟩ := hpasses.of_cons
    obtain ⟨-, body, hbody, -⟩ := hcopy.copied
    exact .inr ⟨rfl, .inr (by rw [hbody]; rfl)⟩
  | notDeleted =>
    obtain ⟨m₁, hcopy, hpasses₁⟩ := hpasses.of_cons
    obtain ⟨m₂, hprobe, hpasses₂⟩ := hpasses₁.of_cons
    obtain ⟨m₃, hdelete, -⟩ := hpasses₂.of_cons
    obtain ⟨-, body, hbody, -⟩ := hcopy.copied
    exact .inr ⟨hdelete.not_deleted.2.1, .inr (by rw [hbody]; rfl)⟩

/-- A move that has been made honours what is promised. -/
theorem Made.honours (h : move.Made bucket es) (hpasses : m.Passes Eq es m')
    (hne : move.source ≠ move.destination) : move.Honours bucket m es m' (.ok ()) := by
  obtain ⟨hthere, ⟨body, hbody, hafter⟩ | ⟨hnone, hsame⟩⟩ := h.effect hpasses hne
  · have hsome : m.find? bucket move.source ≠ none := by simp [hbody]
    have hplace : m'.find? bucket move.destination = if move.destination ∉ m.faults.dropped
        then some body else m.find? bucket move.destination := by
      rw [hafter, if_neg fun heq => hne heq.2]
      simp
    constructor
    case gone => exact fun _ => by rw [hafter, if_pos ⟨rfl, rfl⟩]
    case there => exact fun _ => hthere
    case moved =>
      intro _ body' hbody' hfree
      obtain rfl : body = body' := Option.some.inj (hbody.symm.trans hbody')
      by_cases hdropped : move.destination ∈ m.faults.dropped
      · -- A dropped copy is not found where there was nothing before.
        have hnone := hfree.resolve_right (not_not_intro hdropped)
        rw [hplace, if_neg (not_not_intro hdropped), hnone] at hthere
        cases hthere
      · rw [hplace, if_pos hdropped]
    case again => exact fun _ hnone => absurd hnone hsome
    case kept | halfway => exact fun _ => nofun
    case notFound_iff => exact fun b k => iff_of_false nofun fun hwant => hsome hwant.2.2.1
    case frame =>
      intro b k hother
      rw [hafter, if_neg fun heq => (hother heq.1.symm).1 heq.2.symm,
        if_neg fun hmade => (hother hmade.1.1.symm).2 hmade.1.2.symm]
  · constructor
    case gone => exact fun _ => by rw [hsame, hnone]
    case there => exact fun _ => hthere
    case moved => exact fun _ body hbody => nomatch hnone.symm.trans hbody
    case again => exact fun _ _ => hsame bucket move.destination
    case kept | halfway => exact fun _ => nofun
    case notFound_iff =>
      refine fun b k => iff_of_false nofun fun hwant => ?_
      rw [hsame, hwant.2.2.2] at hthere
      cases hthere
    case frame => exact fun b k _ => hsame b k

/-- A move that has been broken off honours what is promised. -/
theorem Breaks.honours {e : StoreFailure} (h : move.Breaks bucket es e)
    (hpasses : m.Passes Eq es m') (hne : move.source ≠ move.destination) :
    move.Honours bucket m es m' (.error e) := by
  have heffect := h.effect hpasses
  constructor
  case gone | there | moved | again => exact nofun
  case kept =>
    exact fun _ _ => (heffect bucket move.source).resolve_right fun hcopied => hne hcopied.1.2
  case halfway =>
    exact fun _ _ => (heffect bucket move.destination).imp_right fun hcopied => hcopied.2
  case notFound_iff =>
    intro b k
    rcases h.notFound_cases hpasses with ⟨rfl, hwant⟩ | ⟨hnot, hreason⟩
    · rw [Except.error.injEq, StoreFailure.notFound.injEq, eq_comm (a := bucket),
        eq_comm (a := move.source)]
      exact (and_iff_left hwant).symm
    · refine iff_of_false (fun heq => ?_) fun ⟨_, hfine, hnone, _⟩ => ?_
      · obtain rfl := Except.error.inj heq
        cases hnot
      · rcases hreason with ⟨event, hmem, hhit⟩ | hsome
        · exact hfine event hmem hhit
        · rw [hnone] at hsome
          cases hsome
  case frame =>
    intro b k hother
    exact (heffect b k).resolve_right fun ⟨⟨hb, hk⟩, _⟩ => (hother hb).2 hk

/-- A move honours what is promised, whatever the store is told to do wrong. -/
theorem honours_of_traces (h : Traces (move.relocate bucket) es (some r))
    (hpasses : m.Passes Eq es m') (hne : move.source ≠ move.destination) :
    move.Honours bucket m es m' r := by
  obtain ⟨-, hmade, hbreaks⟩ := traces_relocate h
  rcases r with e | ⟨⟩
  · exact (hbreaks e rfl).honours hpasses hne
  · exact (hmade rfl).honours hpasses hne

/-- Moving an object honours what is promised, whatever the store is told to do wrong. -/
theorem relocate_honours {τ : Type} (service : JobService τ) (w : World τ) (bucket : String)
    (move : Move) (hne : move.source ≠ move.destination) :
    let course := (move.relocate bucket).run (World.respond service) w
    move.Honours bucket w.store ((move.relocate bucket).eventsOf (World.respond service) w)
      course.2.store course.1 :=
  honours_of_traces (Program.traces_run ..) (World.passes_run ..) hne

/-- A move whose copy is dropped succeeds and loses its object when another one is at the place. -/
theorem dropped_copy_honours :
    let move : Move := ⟨"k", "d"⟩
    let m : Store := { Store.holding "b" [("k", "new"), ("d", "old")] with faults := ⟨[], ["d"]⟩ }
    let w : World JobTable := ⟨m, JobTable.empty⟩
    let course := (move.relocate "b").run (World.respond JobTable.service) w
    move.source ≠ move.destination ∧ course.1 = .ok () ∧
      course.2.store.find? "b" "k" = none ∧
      course.2.store.find? "b" "d" = some "old".toUTF8 ∧
      move.Honours "b" m ((move.relocate "b").eventsOf (World.respond JobTable.service) w)
        course.2.store course.1 := by
  intro move m w course
  have hne : move.source ≠ move.destination := by decide
  refine ⟨hne, by decide +kernel, by decide +kernel, by decide +kernel, ?_⟩
  exact relocate_honours JobTable.service w "b" move hne

end Move

end LedgerExport
