import Mathlib.Data.List.Basic

/-!
# Runs of a step function

A run folds a step function over a list of actions. `Along step Ok` says that every step of a run meets
the condition `Ok`; an invariant need only be preserved by such steps.
-/

namespace Ocse

variable {σ α : Type*} {step : σ → α → σ}

def Along (step : σ → α → σ) (Ok : σ → α → Prop) : σ → List α → Prop
  | _, [] => True
  | s, a :: as => Ok s a ∧ Along step Ok (step s a) as

instance Along.decidable {Ok : σ → α → Prop} [∀ s a, Decidable (Ok s a)] :
    ∀ (s : σ) (as : List α), Decidable (Along step Ok s as)
  | _, [] => isTrue trivial
  | s, a :: as =>
    have : Decidable (Along step Ok (step s a) as) := Along.decidable (step s a) as
    inferInstanceAs (Decidable (Ok s a ∧ Along step Ok (step s a) as))

theorem Along.mono {Ok Ok' : σ → α → Prop} (himp : ∀ s a, Ok s a → Ok' s a) {s : σ} {as : List α}
    (h : Along step Ok s as) : Along step Ok' s as := by
  induction as generalizing s with
  | nil => trivial
  | cons a as ih => exact ⟨himp s a h.1, ih h.2⟩

theorem Along.at {Ok : σ → α → Prop} {s : σ} {as bs : List α} {a : α}
    (h : Along step Ok s (as ++ a :: bs)) : Ok (as.foldl step s) a := by
  induction as generalizing s with
  | nil => exact h.1
  | cons b as ih => exact ih h.2

/-- The rule for properties of whole runs. -/
theorem Along.invariant {Ok : σ → α → Prop} (Inv : σ → Prop)
    (hstep : ∀ s a, Inv s → Ok s a → Inv (step s a)) {s : σ} {as : List α} (hs : Inv s)
    (h : Along step Ok s as) : Inv (as.foldl step s) := by
  induction as generalizing s with
  | nil => exact hs
  | cons a as ih => exact ih (hstep s a hs h.1) h.2

/-- An invariant that every step preserves may be assumed of the states in the condition. -/
theorem Along.strengthen {Ok : σ → α → Prop} (Inv : σ → Prop)
    (hstep : ∀ s a, Inv s → Inv (step s a)) {s : σ} {as : List α} (hs : Inv s)
    (h : Along step Ok s as) : Along step (fun s a => Inv s ∧ Ok s a) s as := by
  induction as generalizing s with
  | nil => trivial
  | cons a as ih => exact ⟨⟨hs, h.1⟩, ih (hstep s a hs) h.2⟩

/-- What every step reaches, a run that takes a step ends in. -/
theorem Along.final {Ok : σ → α → Prop} {P : σ → Prop} (hP : ∀ s a, Ok s a → P (step s a)) {s : σ} {as : List α}
    (h : Along step Ok s as) (has : as ≠ []) : P (as.foldl step s) := by
  induction as generalizing s with
  | nil => exact absurd rfl has
  | cons a as ih =>
    cases as with
    | nil => exact hP s a h.1
    | cons b as => exact ih h.2 (List.cons_ne_nil b as)

theorem along_append {Ok : σ → α → Prop} {s : σ} {as bs : List α} :
    Along step Ok s (as ++ bs) ↔ Along step Ok s as ∧ Along step Ok (as.foldl step s) bs := by
  induction as generalizing s with
  | nil => exact (and_iff_right trivial).symm
  | cons a as ih => simp only [List.cons_append, Along, List.foldl_cons, ih, and_assoc]

/-- What one step shows from an invariant and the condition, every step of a run shows. -/
theorem Along.shows {Ok Ok' : σ → α → Prop} (Inv : σ → Prop)
    (hstep : ∀ s a, Inv s → Ok s a → Inv (step s a) ∧ Ok' s a) {s : σ} {as : List α} (hs : Inv s)
    (h : Along step Ok s as) : Along step Ok' s as := by
  induction as generalizing s with
  | nil => trivial
  | cons a as ih =>
    obtain ⟨hnext, hshown⟩ := hstep s a hs h.1
    exact ⟨hshown, ih hnext h.2⟩

theorem Along.and {Ok Ok' : σ → α → Prop} {s : σ} {as : List α} (h : Along step Ok s as)
    (h' : Along step Ok' s as) : Along step (fun s a => Ok s a ∧ Ok' s a) s as := by
  induction as generalizing s with
  | nil => trivial
  | cons a as ih => exact ⟨⟨h.1, h'.1⟩, ih h.2 h'.2⟩

/-- A run with more in its states meets what the plain run meets. -/
theorem Along.lift {τ : Type*} (step' : τ → α → τ) (f : τ → σ)
    (hf : ∀ x a, f (step' x a) = step (f x) a) {Ok : σ → α → Prop} {x : τ} {as : List α}
    (h : Along step Ok (f x) as) : Along step' (fun x a => Ok (f x) a) x as := by
  induction as generalizing x with
  | nil => trivial
  | cons a as ih =>
    refine ⟨h.1, ih ?_⟩
    rw [hf]
    exact h.2

/-- Conditions that agree in the states of an invariant are met by the same runs. -/
theorem along_congr {Ok Ok' : σ → α → Prop} (Inv : σ → Prop) (hstep : ∀ s a, Inv s → Inv (step s a))
    (hiff : ∀ s a, Inv s → (Ok s a ↔ Ok' s a)) {s : σ} (hs : Inv s) (as : List α) :
    Along step Ok s as ↔ Along step Ok' s as := by
  induction as generalizing s with
  | nil => exact Iff.rfl
  | cons a as ih => exact and_congr (hiff s a hs) (ih (hstep s a hs))

theorem foldl_invariant (Inv : σ → Prop) (hstep : ∀ s a, Inv s → Inv (step s a)) {s : σ} (hs : Inv s)
    (as : List α) : Inv (as.foldl step s) := by
  induction as generalizing s with
  | nil => exact hs
  | cons a as ih => exact ih (hstep s a hs)

/-- When the condition keeps an invariant and the states that matter come by it only, a run meets it just when all
states that the run passes are such states. -/
theorem along_iff_prefixes_of {Ok : σ → α → Prop} (Inv P : σ → Prop) (hshows : ∀ s, Inv s → P s)
    (hkeep : ∀ s a, Inv s → Ok s a → Inv (step s a)) (hneed : ∀ s a, Inv s → P (step s a) → Ok s a)
    {s : σ} (hs : Inv s) (as : List α) :
    (∀ pre, pre <+: as → P (pre.foldl step s)) ↔ Along step Ok s as := by
  induction as generalizing s with
  | nil =>
    constructor
    · intro _
      trivial
    · intro _ pre hpre
      obtain rfl := List.prefix_nil.mp hpre
      exact hshows s hs
  | cons a as ih =>
    constructor
    · intro h
      have hok : Ok s a := hneed s a hs (h [a] (⟨as, rfl⟩))
      refine ⟨hok, (ih (hkeep s a hs hok)).mp (fun pre hpre => ?_)⟩
      exact h (a :: pre) (List.cons_prefix_cons.mpr ⟨rfl, hpre⟩)
    · rintro ⟨hok, hrest⟩ pre hpre
      cases pre with
      | nil => exact hshows s hs
      | cons b pre =>
        obtain ⟨rfl, hrest_pre⟩ := List.cons_prefix_cons.mp hpre
        exact (ih (hkeep s b hs hok)).mpr hrest pre hrest_pre

/-- When the condition is exactly what keeps an invariant, a run meets it just when the invariant holds
in every state that the run passes. -/
theorem along_iff_prefixes {Ok : σ → α → Prop} (Inv : σ → Prop)
    (hstep : ∀ s a, Inv s → (Inv (step s a) ↔ Ok s a)) {s : σ} (hs : Inv s) (as : List α) :
    (∀ pre, pre <+: as → Inv (pre.foldl step s)) ↔ Along step Ok s as := by
  apply along_iff_prefixes_of Inv Inv (fun _ h => h)
  · intro s a h
    exact (hstep s a h).mpr
  · intro s a h
    exact (hstep s a h).mp
  · exact hs

/-- An action of a history that has grown by one is the new one or was there before. -/
theorem concat_eq_append_cons_iff {as before after : List α} {a b : α} :
    as ++ [a] = before ++ b :: after ↔
      (before = as ∧ b = a ∧ after = []) ∨ ∃ rest, after = rest ++ [a] ∧ as = before ++ b :: rest := by
  constructor
  · intro h
    rcases List.eq_nil_or_concat' after with rfl | ⟨rest, last, rfl⟩
    · obtain ⟨rfl, hlast⟩ := List.append_inj' h rfl
      exact .inl ⟨rfl, (List.singleton_inj.mp hlast).symm, rfl⟩
    · rw [← List.cons_append, ← List.append_assoc] at h
      obtain ⟨hrest, hlast⟩ := List.append_inj' h rfl
      obtain rfl := List.singleton_inj.mp hlast
      exact .inr ⟨rest, rfl, hrest⟩
  · rintro (⟨rfl, rfl, rfl⟩ | ⟨rest, rfl, rfl⟩)
    · rfl
    · rw [List.append_assoc, List.cons_append]

end Ocse
