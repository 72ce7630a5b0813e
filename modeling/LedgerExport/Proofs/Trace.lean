import LedgerExport.Program

/-!
# Traces

What a program asks and what it is told, in order. `Program.Traces` admits every answer to every
call and may stop before any call, so that what holds of every trace holds however the store and
the service behave and wherever a limit cuts the run short. `eventsFrom` gives the calls and answers
of one run: `traces_eventsFrom` says that they are a trace, and `gives_eventsFrom` that the answers
are those that the responder gives. What holds of each event in view of those before it is said with
`Along`.

The other lemmas cut the trace of programs that are made one after the other where the first one
ends; everything that is shown of an invocation's calls is shown with them, part by part.
-/

namespace LedgerExport

/-- A call with the answer to it. -/
structure Event where
  /-- The call. -/
  call : Call
  /-- The answer. -/
  answer : call.Answer

/-! ## Events and what came before them -/

/-- `P` holds of each event and of those before it. -/
def Along (P : List Event → Event → Prop) (es : List Event) : Prop :=
  ∀ before e after, es = before ++ e :: after → P before e

section Along

variable {P Q : List Event → Event → Prop} {es es₁ es₂ : List Event}

/-- What holds of each event, whatever came before it, holds along them. -/
theorem along_of_forall (h : ∀ e ∈ es, ∀ before, P before e) : Along P es := by
  rintro before e after rfl
  exact h e (by simp) before

/-- What holds of the first event and along the others holds along all of them. -/
theorem along_cons {e : Event} :
    Along P (e :: es) ↔ P [] e ∧ Along (fun before => P (e :: before)) es := by
  refine ⟨fun h => ⟨h [] e es rfl, ?_⟩, fun ⟨he, h⟩ before e' after heq => ?_⟩
  · rintro before e' after rfl
    exact h (e :: before) e' after rfl
  · rcases List.cons_eq_append_iff.1 heq with ⟨rfl, hnil⟩ | ⟨before', rfl, rfl⟩
    · obtain ⟨rfl, rfl⟩ := List.cons.inj hnil
      exact he
    · exact h before' e' after rfl

/-- What holds along some events and, behind them, along others holds along both. -/
theorem along_append :
    Along P (es₁ ++ es₂) ↔ Along P es₁ ∧ Along (fun before => P (es₁ ++ before)) es₂ := by
  induction es₁ generalizing P with
  | nil => simp [Along]
  | cons e es₁ ih => simp [along_cons, ih, and_assoc]

/-- What follows from what holds along events holds along them. -/
theorem Along.imp (h : Along P es) (himp : ∀ before e, P before e → Q before e) : Along Q es :=
  fun before e after heq => himp before e (h before e after heq)

end Along

namespace Program

variable {α β ε σ : Type}

/-- The program can make these calls and get these answers, and then it ends with the result, or is
cut short when there is none. -/
inductive Traces {α : Type} : Program α → List Event → Option α → Prop
  /-- A program that has ended makes no more calls. -/
  | done (a : α) : Traces (.done a) [] (some a)
  /-- A program can be cut short before any call. -/
  | stop (c : Call) (next : c.Answer → Program α) : Traces (.call c next) [] none
  /-- A call can get any answer. -/
  | call (c : Call) (next : c.Answer → Program α) (answer : c.Answer) {es : List Event}
      {r : Option α} : Traces (next answer) es r → Traces (.call c next) (⟨c, answer⟩ :: es) r

/-- The calls that are answered in a run from the time `t` on, with the answers to them. -/
def eventsFrom (respond : Responder σ) (cost : Call → Nat) (limit : Option Nat) :
    Program α → σ → (t : Nat) → List Event
  | done _, _, _ => []
  | call c next, s, t =>
    if within limit (t + cost c) then
      let (answer, s) := respond c s
      ⟨c, answer⟩ :: (next answer).eventsFrom respond cost limit s (t + cost c)
    else []

/-- The events of a run are a trace of the program with the run's result. -/
theorem traces_eventsFrom (respond : Responder σ) (cost : Call → Nat) (limit : Option Nat)
    (p : Program α) (s : σ) (t : Nat) :
    p.Traces (p.eventsFrom respond cost limit s t) (p.runFrom respond cost limit s t).result := by
  induction p generalizing s t with
  | done a => exact .done a
  | call c next ih =>
    rw [eventsFrom, runFrom]
    split
    · exact .call c next _ (ih _ _ _)
    · exact .stop c next

/-- Without a limit, a run has a result and a state whatever its calls cost. -/
theorem runFrom_none (respond : Responder σ) (cost : Call → Nat) (p : Program α) (s : σ) (t : Nat) :
    (p.runFrom respond cost none s t).result = some (p.run respond s).1 ∧
      (p.runFrom respond cost none s t).state = (p.run respond s).2 := by
  induction p generalizing s t with
  | done a => exact ⟨rfl, rfl⟩
  | call c next ih =>
    -- No call is too late when there is no limit.
    rw [runFrom, run, if_pos (by rfl : within none (t + cost c) = true)]
    exact ih _ _ _

/-- Without a limit, every call that a run makes is answered. -/
theorem calls_runFrom_none (respond : Responder σ) (cost : Call → Nat) (p : Program α) (s : σ)
    (t : Nat) : (p.runFrom respond cost none s t).calls =
      (p.eventsFrom respond cost none s t).map (·.call) := by
  induction p generalizing s t with
  | done a => rfl
  | call c next ih => exact congrArg (c :: ·) (ih _ _ _)

/-- A limit does not change the calls that a run makes, but it may leave out the last of them. -/
theorem calls_runFrom_prefix (respond : Responder σ) (cost : Call → Nat) (limit : Option Nat)
    (p : Program α) (s : σ) (t : Nat) :
    (p.runFrom respond cost limit s t).calls <+: (p.runFrom respond cost none s t).calls := by
  induction p generalizing s t with
  | done a => exact List.prefix_refl _
  | call c next ih =>
    rw [runFrom]
    split
    · exact List.cons_prefix_cons.2 ⟨rfl, ih _ _ _⟩
    · exact List.cons_prefix_cons.2 ⟨rfl, List.nil_prefix⟩

namespace Traces

/-- The only trace of a program that has ended is empty. -/
theorem of_done {a : α} {es : List Event} {r : Option α} (h : Traces (.done a) es r) :
    es = [] ∧ r = some a := by
  cases h
  exact ⟨rfl, rfl⟩

/-- A trace of a program that makes a call is empty, or it begins with that call. -/
theorem of_call {c : Call} {next : c.Answer → Program α} {es : List Event} {r : Option α}
    (h : Traces (.call c next) es r) :
    (es = [] ∧ r = none) ∨ ∃ answer es', es = ⟨c, answer⟩ :: es' ∧ Traces (next answer) es' r := by
  cases h with
  | stop => exact .inl ⟨rfl, rfl⟩
  | call _ _ answer h => exact .inr ⟨answer, _, rfl, h⟩

/-- A trace to the end of a program that makes a call begins with that call. -/
theorem of_call_some {c : Call} {next : c.Answer → Program α} {es : List Event} {a : α}
    (h : Traces (.call c next) es (some a)) :
    ∃ answer es', es = ⟨c, answer⟩ :: es' ∧ Traces (next answer) es' (some a) := by
  rcases of_call h with ⟨-, hr⟩ | hcall
  · cases hr
  · exact hcall

/-- A trace of one call is empty, or that call with its answer. -/
theorem of_ask {c : Call} {es : List Event} {r : Option c.Answer} (h : Traces (ask c) es r) :
    (es = [] ∧ r = none) ∨ ∃ answer, es = [⟨c, answer⟩] ∧ r = some answer := by
  rcases of_call h with h | ⟨answer, es', rfl, h'⟩
  · exact .inl h
  · obtain ⟨rfl, rfl⟩ := of_done h'
    exact .inr ⟨answer, rfl, rfl⟩

/-- A trace of two programs in a row is a trace of the first that is cut short, or a trace of the
first to its end and one of the second. -/
theorem of_bind {p : Program α} {f : α → Program β} {es : List Event} {r : Option β}
    (h : Traces (p.bind f) es r) :
    (r = none ∧ Traces p es none) ∨
      ∃ es₁ a es₂, es = es₁ ++ es₂ ∧ Traces p es₁ (some a) ∧ Traces (f a) es₂ r := by
  -- By induction on the first program: where it has ended, the second one begins.
  induction p generalizing es with
  | done a => exact .inr ⟨[], a, es, rfl, .done a, h⟩
  | call c next ih =>
    rcases of_call h with ⟨rfl, rfl⟩ | ⟨answer, es', rfl, h'⟩
    · exact .inl ⟨rfl, .stop c next⟩
    rcases ih answer h' with ⟨hr, hp⟩ | ⟨es₁, a, es₂, rfl, hp, hf⟩
    · exact .inl ⟨hr, .call c next answer hp⟩
    · exact .inr ⟨⟨c, answer⟩ :: es₁, a, es₂, rfl, .call c next answer hp, hf⟩

/-- A trace to the end of two programs in a row is one of the first to its end and one of the
second. -/
theorem of_bind_some {p : Program α} {f : α → Program β} {es : List Event} {b : β}
    (h : Traces (p.bind f) es (some b)) :
    ∃ es₁ a es₂, es = es₁ ++ es₂ ∧ Traces p es₁ (some a) ∧ Traces (f a) es₂ (some b) := by
  rcases of_bind h with ⟨hr, -⟩ | hboth
  · cases hr
  · exact hboth

/-- A trace of two attempts in a row is a trace of the first that is cut short or ends with its
failure, or a trace of the first to its success and one of the second. -/
theorem of_attempt {x : ExceptT ε Program α} {f : α → ExceptT ε Program β} {es : List Event}
    {r : Option (Except ε β)} (h : Traces (x >>= f).run es r) :
    (r = none ∧ Traces x.run es none) ∨
      (∃ e, r = some (.error e) ∧ Traces x.run es (some (.error e))) ∨
      ∃ es₁ a es₂, es = es₁ ++ es₂ ∧ Traces x.run es₁ (some (.ok a)) ∧ Traces (f a).run es₂ r := by
  rcases of_bind h with h | ⟨es₁, a | a, es₂, rfl, hx, hf⟩
  · exact .inl h
  -- A failure ends the whole, so nothing comes behind the trace of the first.
  · obtain ⟨rfl, rfl⟩ := of_done hf
    exact .inr (.inl ⟨a, rfl, by rwa [List.append_nil]⟩)
  · exact .inr (.inr ⟨es₁, a, es₂, rfl, hx, hf⟩)

/-- A trace of an attempt whose success is passed on in another form is a trace of the attempt. -/
theorem of_attempt_pure {x : ExceptT ε Program α} {g : α → β} {es : List Event}
    {r : Option (Except ε β)} (h : Traces (x >>= fun a => pure (g a)).run es r) :
    ∃ r', Traces x.run es r' ∧ r = r'.map (·.map g) := by
  rcases of_attempt h with ⟨rfl, hx⟩ | ⟨e, rfl, hx⟩ | ⟨es₁, a, es₂, rfl, hx, hend⟩
  · exact ⟨none, hx, rfl⟩
  · exact ⟨some (.error e), hx, rfl⟩
  · obtain ⟨rfl, rfl⟩ := of_done hend
    exact ⟨some (.ok a), by rwa [List.append_nil], rfl⟩

/-- So it is with a trace that goes to its end. -/
theorem of_attempt_pure_some {x : ExceptT ε Program α} {g : α → β} {es : List Event}
    {r : Except ε β} (h : Traces (x >>= fun a => pure (g a)).run es (some r)) :
    ∃ r', Traces x.run es (some r') ∧ r = r'.map g := by
  obtain ⟨r', hx, hr⟩ := of_attempt_pure h
  obtain ⟨r', rfl, rfl⟩ := Option.map_eq_some_iff.1 hr.symm
  exact ⟨r', hx, rfl⟩

/-- Two traces of a program to its end are equal when each call that both make after the same events
gets the same answer. -/
theorem eq_of_agree {p : Program α} {es₁ es₂ : List Event} {a₁ a₂ : α}
    (h₁ : Traces p es₁ (some a₁)) (h₂ : Traces p es₂ (some a₂))
    (hagree : ∀ before (c : Call) (x₁ x₂ : c.Answer) after₁ after₂,
      es₁ = before ++ ⟨c, x₁⟩ :: after₁ → es₂ = before ++ ⟨c, x₂⟩ :: after₂ → x₁ = x₂) :
    es₁ = es₂ ∧ a₁ = a₂ := by
  induction p generalizing es₁ es₂ with
  | done a =>
    obtain ⟨rfl, ha₁⟩ := of_done h₁
    obtain ⟨rfl, ha₂⟩ := of_done h₂
    exact ⟨rfl, Option.some.inj (ha₁.trans ha₂.symm)⟩
  | call c next ih =>
    obtain ⟨x₁, es₁, rfl, hrest₁⟩ := of_call_some h₁
    obtain ⟨x₂, es₂, rfl, hrest₂⟩ := of_call_some h₂
    obtain rfl := hagree [] c x₁ x₂ es₁ es₂ rfl rfl
    -- What is made after the first call is made after the same events.
    obtain ⟨rfl, ha⟩ := ih x₁ hrest₁ hrest₂ fun before c x₁ x₂ after₁ after₂ heq₁ heq₂ =>
      hagree (_ :: before) c x₁ x₂ after₁ after₂ (congrArg _ heq₁) (congrArg _ heq₂)
    exact ⟨rfl, ha⟩

end Traces

/-- The responder gives the answers of these events, and they take it from one state to another. -/
inductive Gives (respond : Responder σ) : σ → List Event → σ → Prop
  /-- Without a call it stays as it is. -/
  | nil (s : σ) : Gives respond s [] s
  /-- It answers a call, and then the others. -/
  | cons (c : Call) {s s' : σ} {es : List Event} :
    Gives respond (respond c s).2 es s' → Gives respond s (⟨c, (respond c s).1⟩ :: es) s'

section Gives

variable {respond : Responder σ} {s s' : σ} {es es₁ es₂ : List Event}

/-- The answers of two traces in a row are given with a state between them. -/
theorem gives_append :
    Gives respond s (es₁ ++ es₂) s' ↔ ∃ s₁, Gives respond s es₁ s₁ ∧ Gives respond s₁ es₂ s' := by
  constructor
  · intro h
    induction es₁ generalizing s with
    | nil => exact ⟨s, .nil s, h⟩
    | cons e es₁ ih =>
      cases h with
      | cons c h =>
        obtain ⟨s₁, h₁, h₂⟩ := ih h
        exact ⟨s₁, .cons c h₁, h₂⟩
  · rintro ⟨s₁, h₁, h₂⟩
    induction h₁ with
    | nil => exact h₂
    | cons c _ ih => exact .cons c (ih h₂)

/-- The first answer that is given is that of the state at the start. -/
theorem Gives.of_cons {c : Call} {answer : c.Answer}
    (h : Gives respond s (⟨c, answer⟩ :: es) s') :
    answer = (respond c s).1 ∧ Gives respond (respond c s).2 es s' := by
  cases h with
  | cons _ h => exact ⟨rfl, h⟩

/-- The answers in a run are those that the responder gives. -/
theorem gives_eventsFrom (respond : Responder σ) (cost : Call → Nat) (limit : Option Nat)
    (p : Program α) (s : σ) (t : Nat) : Gives respond s (p.eventsFrom respond cost limit s t)
      (p.runFrom respond cost limit s t).state := by
  induction p generalizing s t with
  | done a => exact .nil s
  | call c next ih =>
    rw [eventsFrom, runFrom]
    split
    · exact .cons c (ih _ _ _)
    · exact .nil s

end Gives

/-- With these calls and answers, the first program comes to go on as the second one. -/
inductive Leads {α : Type} (p : Program α) : List Event → Program α → Prop
  /-- Without a call it goes on as itself. -/
  | refl : Leads p [] p
  /-- It makes one more call. -/
  | step {c : Call} {next : c.Answer → Program α} {es : List Event} (answer : c.Answer) :
    Leads p es (.call c next) → Leads p (es ++ [⟨c, answer⟩]) (next answer)

/-- What a program goes on with continues its traces. -/
theorem Leads.traces_append {p q : Program α} {es es' : List Event} {r : Option α}
    (h : Leads p es q) (hq : Traces q es' r) : Traces p (es ++ es') r := by
  induction h generalizing es' with
  | refl => exact hq
  | step answer _ ih =>
    rw [List.append_assoc]
    exact ih (.call _ _ answer hq)

/-- The calls by which a program comes to go on as another are one of its traces. -/
theorem Leads.traces {p q : Program α} {es : List Event} (h : Leads p es q) :
    ∃ r, Traces p es r := by
  rw [← List.append_nil es]
  cases q with
  | done a => exact ⟨some a, h.traces_append (.done a)⟩
  | call c next => exact ⟨none, h.traces_append (.stop c next)⟩

end Program

end LedgerExport
