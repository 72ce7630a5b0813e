import LedgerExport.Proofs.Turns

/-!
# Deadlines

What a deadline does to a run. Without one, a run makes calls that end one after the other; with
one, it makes the same calls up to the first that would end too late, which is begun and has no
effect. `runFrom_of_le` is the case in which no call ends too late and `runFrom_of_lt` the other,
both for every program and by induction on it. `deadline_cuts_short` says it of an invocation.
-/

namespace LedgerExport

open Time World

/-- The state in which a responder is left by calls that are made one after the other. -/
def Responder.after {σ : Type} (respond : Responder σ) (x : σ) (calls : List Call) : σ :=
  calls.foldl (fun x c => (respond c x).2) x

namespace Call

/-- The time that calls take when they are made one after the other. -/
def duration (cost : Call → Nat) : List Call → Nat
  | [] => 0
  | c :: rest => cost c + duration cost rest

/-- Calls made one after the other take the times that their parts take. -/
theorem duration_append (cost : Call → Nat) (calls rest : List Call) :
    duration cost (calls ++ rest) = duration cost calls + duration cost rest := by
  induction calls with
  | nil => exact (Nat.zero_add _).symm
  | cons c calls ih => rw [List.cons_append, duration, duration, ih, Nat.add_assoc]

/-- More calls take no less time. -/
theorem duration_take_le (cost : Call → Nat) (calls : List Call) {i j : Nat} (h : i ≤ j) :
    duration cost (calls.take i) ≤ duration cost (calls.take j) := by
  obtain ⟨rest, hrest⟩ := List.take_prefix_take_left (l := calls) h
  rw [← hrest, duration_append]
  exact Nat.le_add_right ..

end Call

/-- A run with one more call before it. -/
def Course.behind {σ α : Type} (c : Call) (course : Course σ α) : Course σ α :=
  { course with calls := c :: course.calls }

namespace Program

section Call

variable {α σ : Type} (respond : Responder σ) (cost : Call → Nat) (c : Call)
  (next : c.Answer → Program α) (x : σ) (t : Nat)

/-- Without a deadline a call is answered, and the run goes on. -/
theorem runFrom_call_none :
    (call c next).runFrom respond cost none x t =
      ((next (respond c x).1).runFrom respond cost none (respond c x).2 (t + cost c)).behind c :=
  rfl

/-- A call that ends by the deadline is answered, and the run goes on. -/
theorem runFrom_call_of_le {d : Nat} (h : t + cost c ≤ d) :
    (call c next).runFrom respond cost (some d) x t =
      ((next (respond c x).1).runFrom respond cost (some d) (respond c x).2
        (t + cost c)).behind c :=
  if_pos (decide_eq_true h)

/-- A call that would end after the deadline is the last one and has no effect. -/
theorem runFrom_call_of_lt {d : Nat} (h : d < t + cost c) :
    (call c next).runFrom respond cost (some d) x t = ⟨[c], x, d, none⟩ :=
  if_neg (by simpa [within] using h)

end Call

variable {α σ : Type} (respond : Responder σ) (cost : Call → Nat)

/-- A run without a deadline takes the time that its calls take. -/
theorem elapsed_runFrom (p : Program α) (x : σ) (t : Nat) :
    (p.runFrom respond cost none x t).elapsed =
      t + Call.duration cost (p.runFrom respond cost none x t).calls := by
  induction p generalizing x t with
  | done a => rfl
  | call c next ih =>
    rw [runFrom_call_none]
    calc ((next _).runFrom respond cost none _ (t + cost c)).elapsed
        = t + cost c + Call.duration cost _ := ih _ _ _
      _ = t + Call.duration cost (c :: _) := by rw [Call.duration, Nat.add_assoc]

/-- A deadline by which all calls of a run have ended changes nothing. -/
theorem runFrom_of_le (p : Program α) (x : σ) (t : Nat) {d : Nat}
    (h : t + Call.duration cost (p.runFrom respond cost none x t).calls ≤ d) :
    p.runFrom respond cost (some d) x t = p.runFrom respond cost none x t := by
  induction p generalizing x t with
  | done a => rfl
  | call c next ih =>
    rw [runFrom_call_none] at h ⊢
    rw [Course.behind, Call.duration, ← Nat.add_assoc] at h
    have hfirst : t + cost c ≤ d := by omega
    rw [runFrom_call_of_le _ _ _ _ _ _ hfirst, ih _ _ _ h]

/-- A deadline that passes before all calls of a run have ended cuts it short at the first call that
would end too late. -/
theorem runFrom_of_lt (p : Program α) (x : σ) (t : Nat) {d : Nat} (ht : t ≤ d)
    (h : d < t + Call.duration cost (p.runFrom respond cost none x t).calls) :
    let full := p.runFrom respond cost none x t
    let cut := p.runFrom respond cost (some d) x t
    cut.result = none ∧ ∃ i < full.calls.length,
      t + Call.duration cost (full.calls.take i) ≤ d ∧
      d < t + Call.duration cost (full.calls.take (i + 1)) ∧
      cut.calls = full.calls.take (i + 1) ∧ cut.state = respond.after x (full.calls.take i) := by
  induction p generalizing x t with
  | done a =>
    simp only [runFrom, Call.duration] at h
    omega
  | call c next ih =>
    simp only [runFrom_call_none, Course.behind, Call.duration] at h ⊢
    by_cases hfirst : t + cost c ≤ d
    · -- The first call is answered, and the deadline passes in what is left of the run.
      rw [runFrom_call_of_le _ _ _ _ _ _ hfirst]
      obtain ⟨hresult, i, hi, hle, hlt, hcalls, hstate⟩ :=
        ih (respond c x).1 (respond c x).2 (t + cost c) hfirst (by omega)
      refine ⟨hresult, i + 1, by simpa using hi, ?_, ?_, ?_, hstate⟩
      · rwa [List.take_succ_cons, Call.duration, ← Nat.add_assoc]
      · rwa [List.take_succ_cons, Call.duration, ← Nat.add_assoc]
      · rw [List.take_succ_cons, ← hcalls]
        rfl
    · -- The first call is the one that would end too late.
      have hlate : d < t + cost c := by omega
      rw [runFrom_call_of_lt _ _ _ _ _ _ hlate]
      refine ⟨rfl, 0, by simp, by simpa [Call.duration] using ht, ?_, rfl, rfl⟩
      simpa [Call.duration] using hlate

end Program

namespace Turn

/-- A deadline only cuts an invocation short. Without one, its calls end at the times `finished 1`,
`finished 2` and so on. If the last one ends by the deadline, nothing is different with it.
Otherwise the invocation fails at the deadline: the first call that would end after it is the last
one to be made, and only those before it have had an effect. Times are in nanoseconds. -/
theorem deadline_cuts_short {τ : Type} (s : Settings) (t : Turn τ) (m : Store) (deadline : Span) :
    let full := ({ t with limit := none } : Turn τ).course s m
    let cut := ({ t with limit := some deadline.totalNanos } : Turn τ).course s m
    let finished (i : Nat) : Nat := Call.duration t.cost (full.calls.take i)
    full.elapsed = finished full.calls.length ∧
    ∃ result, full.result = some result ∧
      (finished full.calls.length ≤ deadline.totalNanos → cut.calls = full.calls ∧
        Settings.concludeBy deadline cut.result = result ∧ cut.state = full.state) ∧
      (deadline.totalNanos < finished full.calls.length →
        Settings.concludeBy deadline cut.result = .error (.deadlineExceeded deadline) ∧
        ∃ i < full.calls.length, (∀ j ≤ i, finished j ≤ deadline.totalNanos) ∧
          deadline.totalNanos < finished (i + 1) ∧ cut.calls = full.calls.take (i + 1) ∧
          cut.state = Responder.after (World.respond t.service) (t.world m)
            (full.calls.take i)) := by
  intro full cut finished
  have hall : finished full.calls.length = 0 + Call.duration t.cost full.calls := by
    simp only [finished, List.take_length, Nat.zero_add]
  obtain ⟨result, hresult⟩ := Option.isSome_iff_exists.1
    (isSome_result (s := s) (t := { t with limit := none }) (m := m) rfl)
  refine ⟨?_, result, hresult, fun hle => ?_, fun hlt => ?_⟩
  · rw [hall]
    exact Program.elapsed_runFrom ..
  · have hsame : cut = full := Program.runFrom_of_le _ _ _ _ _ (hall ▸ hle)
    rw [hsame]
    exact ⟨rfl, by rw [Settings.concludeBy, hresult, Option.getD_some], rfl⟩
  · obtain ⟨hnone, i, hi, hbefore, hafter, hcalls, hstate⟩ :=
      Program.runFrom_of_lt (World.respond t.service) t.cost (s.invoke t.now).run (t.world m) 0
        (Nat.zero_le deadline.totalNanos) (hall ▸ hlt)
    rw [Nat.zero_add] at hbefore hafter
    have hcut : cut.result = none := hnone
    refine ⟨by rw [hcut]; rfl, i, hi, fun j hj => ?_, hafter, hcalls, hstate⟩
    exact (Call.duration_take_le t.cost full.calls hj).trans hbefore

/-- A turn whose calls take a nanosecond each. -/
def paced (limit : Option Nat) : Turn JobTable :=
  { sample 0 .none with cost := fun _ => 1, limit := limit }

/-- Its calls take as many nanoseconds as they are. -/
theorem duration_paced (limit : Option Nat) (calls : List Call) :
    Call.duration (paced limit).cost calls = calls.length := by
  induction calls with
  | nil => rfl
  | cons c calls ih =>
    rw [Call.duration, ih, List.length_cons, Nat.add_comm]
    rfl

/-- An invocation that archives an export makes nine calls, here of a nanosecond each. Nine
nanoseconds are enough for it. Six are enough for the move of one marker, and the copy of the other
is begun and has no effect. -/
theorem cut_between_moves :
    let s := Settings.sample "p/" "p/"
    let full := (paced none).course s completedPair
    let nine : Span := ⟨0, 9, by decide⟩
    let six : Span := ⟨0, 6, by decide⟩
    let cut (d : Span) := (paced (some d.totalNanos)).course s completedPair
    full.calls.length = 9 ∧
    (full.result = some (Settings.concludeBy nine (cut nine).result) ∧
      (cut nine).calls = full.calls ∧ (cut nine).state = full.state) ∧
    Settings.concludeBy six (cut six).result = .error (.deadlineExceeded six) ∧
      (cut six).calls = full.calls.take 7 ∧
      (cut six).state = Responder.after (World.respond JobTable.service)
        ((paced none).world completedPair) (full.calls.take 6) := by
  intro s full nine six cut
  have hlength : full.calls.length = 9 := by
    show ((paced none).course s completedPair).calls.length = 9
    unfold Turn.course Settings.invoke Survey.take
    rw [Survey.ofReadings_eq_inOrder]
    decide +kernel
  have hnine : nine.totalNanos = 9 := by decide
  have hsix : six.totalNanos = 6 := by decide
  obtain ⟨-, result, hresult, henough, -⟩ := deadline_cuts_short s (paced none) completedPair nine
  obtain ⟨-, -, -, -, hshort⟩ := deadline_cuts_short s (paced none) completedPair six
  simp only [duration_paced, List.length_take, Nat.min_self] at henough hshort
  obtain ⟨hcalls, hconcluded, hstate⟩ := henough (hlength.trans_le hnine.ge)
  obtain ⟨hexceeded, i, -, hbefore, hafter, hcut, hleft⟩ := hshort (by
    change six.totalNanos < full.calls.length
    omega)
  -- The call that would end too late is the seventh.
  obtain rfl : i = 6 := by
    have hin : min i full.calls.length ≤ six.totalNanos := hbefore i (Nat.le_refl i)
    have hout : six.totalNanos < min (i + 1) full.calls.length := hafter
    omega
  exact ⟨hlength, ⟨hresult.trans (congrArg some hconcluded.symm), hcalls, hstate⟩, hexceeded, hcut,
    hleft⟩

end Turn

end LedgerExport
