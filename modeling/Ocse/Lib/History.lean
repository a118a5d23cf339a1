import Mathlib.Data.List.Basic

/-!
# Sequential histories

An object has operations that change its state and give a result. A log of operations with their results is
legal when it is what the object does, one operation after the other. What several parties do to one object
at the same time is in order when the log of the moments at which their operations took effect is legal.
-/

namespace Ocse

variable {σ ω ρ τ : Type*}

/-- From the first state the log leads to the second one, and every result is the operation's own. -/
def Legal (apply : ω → σ → σ × ρ) : σ → List (ω × ρ) → σ → Prop
  | s, [], s' => s' = s
  | s, (o, r) :: log, s' => (apply o s).2 = r ∧ Legal apply (apply o s).1 log s'

variable {apply : ω → σ → σ × ρ} {s s' : σ} {o : ω} {r : ρ} {log log' : List (ω × ρ)}

theorem legal_append : Legal apply s (log ++ log') s' ↔ ∃ m, Legal apply s log m ∧ Legal apply m log' s' := by
  induction log generalizing s with
  | nil =>
    constructor
    · intro h
      exact ⟨s, rfl, h⟩
    · rintro ⟨m, rfl, h⟩
      exact h
  | cons x log ih =>
    rw [List.cons_append, Legal, ih]
    constructor
    · rintro ⟨hx, m, hlog, hlog'⟩
      exact ⟨m, ⟨hx, hlog⟩, hlog'⟩
    · rintro ⟨m, ⟨hx, hlog⟩, hlog'⟩
      exact ⟨hx, m, hlog, hlog'⟩

theorem Legal.snoc (h : Legal apply s log s') (o : ω) :
    Legal apply s (log ++ [(o, (apply o s').2)]) (apply o s').1 :=
  legal_append.mpr ⟨s', h, rfl, rfl⟩

/-- At its place in the log an operation meets the state that the operations before it have left. -/
theorem Legal.at (h : Legal apply s (log ++ (o, r) :: log') s') :
    ∃ m, Legal apply s log m ∧ (apply o m).2 = r ∧ Legal apply (apply o m).1 log' s' := by
  obtain ⟨m, hlog, hr, hlog'⟩ := legal_append.mp h
  exact ⟨m, hlog, hr, hlog'⟩

/-- What no operation of the log changes is what it was. -/
theorem Legal.keeps (view : σ → τ) (h : Legal apply s log s')
    (hkeeps : ∀ x ∈ log, ∀ t, view (apply x.1 t).1 = view t) : view s' = view s := by
  induction log generalizing s with
  | nil => exact congrArg view h
  | cons x log ih =>
    calc view s' = view (apply x.1 s).1 := ih h.2 (fun y hy => hkeeps y (List.mem_cons_of_mem x hy))
      _ = view s := hkeeps x List.mem_cons_self s

end Ocse
