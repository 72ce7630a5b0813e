import LedgerExport.Call

/-!
# Programs

A program makes calls one after the other and goes on according to the answers; it knows nothing
else of the world. What answers the calls is given when the program is run, with a state of its own.
A run may have a limit: each call takes its time before it has an effect, and the call that would
end after the limit is the last one to be made and has none.
-/

namespace LedgerExport

/-- A program that makes calls and ends with an `α`. -/
inductive Program (α : Type) where
  /-- The program has ended. -/
  | done (a : α)
  /-- The program makes a call and goes on with its answer. -/
  | call (c : Call) (next : c.Answer → Program α)

namespace Program

variable {α β γ σ : Type}

/-- Runs a program, and then the program that its result gives. -/
def bind (p : Program α) (f : α → Program β) : Program β :=
  match p with
  | done a => f a
  | call c next => call c fun r => (next r).bind f

instance : Monad Program where
  pure := done
  bind := bind

/-- Makes one call. -/
def ask (c : Call) : Program c.Answer := call c done

theorem bind_done (p : Program α) : p.bind done = p := by
  induction p with
  | done a => rfl
  | call c next ih => simp only [bind, ih]

theorem bind_assoc (p : Program α) (f : α → Program β) (g : β → Program γ) :
    (p.bind f).bind g = p.bind fun a => (f a).bind g := by
  induction p with
  | done a => rfl
  | call c next ih => simp only [bind, ih]

instance : LawfulMonad Program :=
  .mk' Program (fun p => bind_done p) (fun _ _ => rfl) bind_assoc

end Program

/-- What answers calls, with a state of the type `σ`. -/
abbrev Responder (σ : Type) := (c : Call) → σ → c.Answer × σ

/-- What happened in a run. -/
structure Course (σ α : Type) where
  /-- The calls that were made, in order. -/
  calls : List Call
  /-- The state at the end. -/
  state : σ
  /-- The time that the run took. -/
  elapsed : Nat
  /-- The result, unless the run was cut short. -/
  result : Option α

namespace Program

variable {α σ : Type}

/-- A time lies within a limit. -/
def within (limit : Option Nat) (t : Nat) : Bool := limit.all (t ≤ ·)

/-- Runs a program from the time `t` on. Each call takes the time that `cost` says. -/
def runFrom (respond : Responder σ) (cost : Call → Nat) (limit : Option Nat) :
    Program α → σ → (t : Nat) → Course σ α
  | done a, s, t => ⟨[], s, t, some a⟩
  | call c next, s, t =>
    if within limit (t + cost c) then
      let (answer, s) := respond c s
      let rest := (next answer).runFrom respond cost limit s (t + cost c)
      { rest with calls := c :: rest.calls }
    else ⟨[c], s, limit.getD t, none⟩

/-- Runs a program with a limit. -/
def runWithin (p : Program α) (respond : Responder σ) (cost : Call → Nat) (limit : Option Nat)
    (s : σ) : Course σ α :=
  p.runFrom respond cost limit s 0

/-- Runs a program to its end. -/
def run (respond : Responder σ) : Program α → σ → α × σ
  | done a, s => (a, s)
  | call c next, s =>
    let (answer, s) := respond c s
    (next answer).run respond s

end Program

end LedgerExport
