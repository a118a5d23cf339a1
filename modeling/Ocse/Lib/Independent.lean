import Mathlib.Data.List.Basic

/-!
# Independent operations

Two families of operations on one state are independent when an operation of the one and an operation of the
other can change places. Operations that may stop the program are independent when what both orders leave is
the same, and the program has stopped after both just when one of the two stops it. What an interleaving of
the two families comes to then depends on the order within each family only.
-/

namespace Ocse

variable {σ α β γ : Type*}

/-- A stopped program takes no operation. -/
def guarded (stopped : σ → Bool) (f : σ → γ → σ) (s : σ) (c : γ) : σ := if stopped s then s else f s c

/-- An operation of either family. -/
def either (f : σ → α → σ) (g : σ → β → σ) (s : σ) : α ⊕ β → σ := Sum.elim (f s) (g s)

structure Independent (stopped : σ → Bool) (f : σ → α → σ) (g : σ → β → σ) : Prop where
  comm : ∀ s a b, g (f s a) b = f (g s b) a
  stops : ∀ s a b, stopped s = false → stopped (g (f s a) b) = (stopped (f s a) || stopped (g s b))

/-- Both programs have stopped, or neither has and their states are the same. -/
def Alike (stopped : σ → Bool) (s s' : σ) : Prop := stopped s = stopped s' ∧ (stopped s = false → s = s')

section Alike

variable {stopped : σ → Bool} {s s' s'' : σ}

theorem Alike.refl (s : σ) : Alike stopped s s := ⟨rfl, fun _ => rfl⟩

theorem Alike.symm (h : Alike stopped s s') : Alike stopped s' s :=
  ⟨h.1.symm, fun hrunning => (h.2 (h.1.trans hrunning)).symm⟩

theorem Alike.trans (h : Alike stopped s s') (h' : Alike stopped s' s'') : Alike stopped s s'' :=
  ⟨h.1.trans h'.1, fun hrunning => (h.2 hrunning).trans (h'.2 (h.1 ▸ hrunning))⟩

theorem Alike.step (h : Alike stopped s s') (f : σ → γ → σ) (c : γ) :
    Alike stopped (guarded stopped f s c) (guarded stopped f s' c) := by
  cases hstopped : stopped s with
  | true =>
    have hstopped' : stopped s' = true := h.1 ▸ hstopped
    rw [guarded, guarded, if_pos hstopped, if_pos hstopped']
    exact h
  | false =>
    rw [h.2 hstopped]
    exact .refl _

theorem Alike.run (h : Alike stopped s s') (f : σ → γ → σ) (cs : List γ) :
    Alike stopped (cs.foldl (guarded stopped f) s) (cs.foldl (guarded stopped f) s') := by
  induction cs generalizing s s' with
  | nil => exact h
  | cons c cs ih => exact ih (h.step f c)

end Alike

section Interleavings

variable {stopped : σ → Bool} {f : σ → α → σ} {g : σ → β → σ}

theorem guarded_running {s : σ} (h : stopped s = false) (f : σ → γ → σ) (c : γ) : guarded stopped f s c = f s c :=
  if_neg (by rw [h]; decide)

theorem guarded_stopped {s : σ} (h : stopped s = true) (f : σ → γ → σ) (c : γ) : guarded stopped f s c = s :=
  if_pos h

/-- Two operations change places. -/
theorem Independent.swap (h : Independent stopped f g) (s : σ) (a : α) (b : β) :
    Alike stopped (guarded stopped g (guarded stopped f s a) b) (guarded stopped f (guarded stopped g s b) a) := by
  cases hs : stopped s with
  | true =>
    rw [guarded_stopped hs, guarded_stopped hs, guarded_stopped hs]
    exact .refl s
  | false =>
    have hstops := h.stops s a b hs
    have hstops' : stopped (f (g s b) a) = (stopped (f s a) || stopped (g s b)) := h.comm s a b ▸ hstops
    rw [guarded_running hs, guarded_running hs]
    cases hf : stopped (f s a) with
    | true =>
      rw [hf, Bool.true_or] at hstops'
      rw [guarded_stopped hf]
      cases hg : stopped (g s b) with
      | true =>
        rw [guarded_stopped hg]
        exact ⟨hf.trans hg.symm, fun hrunning => absurd (hf.symm.trans hrunning) (by decide)⟩
      | false =>
        rw [guarded_running hg]
        exact ⟨hf.trans hstops'.symm, fun hrunning => absurd (hf.symm.trans hrunning) (by decide)⟩
    | false =>
      rw [hf, Bool.false_or] at hstops
      rw [guarded_running hf]
      cases hg : stopped (g s b) with
      | true =>
        rw [guarded_stopped hg]
        exact ⟨(hstops.trans hg).trans hg.symm,
          fun hrunning => absurd ((hstops.trans hg).symm.trans hrunning) (by decide)⟩
      | false =>
        rw [guarded_running hg, h.comm]
        exact .refl _

/-- An operation of the second family waits until operations of the first have been taken. -/
theorem Independent.wait (h : Independent stopped f g) (s : σ) (as : List α) (b : β) (rest : List (α ⊕ β)) :
    Alike stopped ((Sum.inr b :: (as.map Sum.inl ++ rest)).foldl (guarded stopped (either f g)) s)
      ((as.map Sum.inl ++ Sum.inr b :: rest).foldl (guarded stopped (either f g)) s) := by
  induction as generalizing s with
  | nil => exact .refl _
  | cons a as ih =>
    have hswap : Alike stopped (guarded stopped (either f g) (guarded stopped (either f g) s (.inr b)) (.inl a))
        (guarded stopped (either f g) (guarded stopped (either f g) s (.inl a)) (.inr b)) := (h.swap s a b).symm
    exact (hswap.run (either f g) (as.map Sum.inl ++ rest)).trans (ih (guarded stopped (either f g) s (.inl a)))

/-- An interleaving comes to what all of the first family and then all of the second come to. -/
theorem Independent.sequential (h : Independent stopped f g) (s : σ) (w : List (α ⊕ β)) :
    Alike stopped (w.foldl (guarded stopped (either f g)) s)
      (((w.filterMap Sum.getLeft?).map Sum.inl ++ (w.filterMap Sum.getRight?).map Sum.inr).foldl
        (guarded stopped (either f g)) s) := by
  induction w generalizing s with
  | nil => exact .refl s
  | cons c w ih =>
    cases c with
    | inl a => exact ih (guarded stopped (either f g) s (.inl a))
    | inr b =>
      have hrest := ih (guarded stopped (either f g) s (.inr b))
      exact hrest.trans (h.wait s (w.filterMap Sum.getLeft?) b ((w.filterMap Sum.getRight?).map Sum.inr))

end Interleavings

end Ocse
