import Mathlib.Data.List.Basic

/-!
# Messages through a relay of places

Messages pass three places: staged by the sender, in flight, arrived at the receiver. `Relayed lost` says
that what was taken out and what is in the places, in order, are the messages that were put in without
`lost` of them. A message is lost when another arrives before it is taken.
-/

variable {α : Type*} {lost : ℕ} {sent taken arrived flying staged : List α}

structure Relayed (lost : ℕ) (sent taken arrived flying staged : List α) : Prop where
  inOrder : (taken ++ (arrived ++ (flying ++ staged))).Sublist sent
  count : sent.length = taken.length + (arrived.length + (flying.length + staged.length)) + lost

namespace Relayed

theorem start : Relayed 0 ([] : List α) [] [] [] [] := ⟨List.Sublist.refl [], rfl⟩

/-- A place holds nothing that it did not hold, and what is new. -/
theorem put (h : Relayed lost sent taken arrived flying staged) {new staged' : List α}
    (hput : staged' = staged ++ new) : Relayed lost (sent ++ new) taken arrived flying staged' := by
  subst hput
  constructor
  · have happend := h.inOrder.append (List.Sublist.refl new)
    simpa only [List.append_assoc] using happend
  · have hcount := h.count
    simp only [List.length_append]
    omega

theorem depart (h : Relayed lost sent taken arrived [] staged) :
    Relayed lost sent taken arrived staged [] := by
  constructor
  · simpa only [List.nil_append, List.append_nil] using h.inOrder
  · have hcount := h.count
    simp only [List.length_nil] at hcount ⊢
    omega

/-- What has not been taken by the time of the next arrival is lost. -/
theorem arrive (h : Relayed lost sent taken arrived flying staged) :
    Relayed (lost + arrived.length) sent taken flying [] staged := by
  constructor
  · have hrest : (flying ++ staged).Sublist (arrived ++ (flying ++ staged)) := List.sublist_append_right _ _
    exact ((List.Sublist.refl taken).append hrest).trans h.inOrder
  · have hcount := h.count
    simp only [List.length_nil]
    omega

theorem take (h : Relayed lost sent taken arrived flying staged) {gone arrived' : List α}
    (htake : arrived = gone ++ arrived') : Relayed lost sent (taken ++ gone) arrived' flying staged := by
  subst htake
  constructor
  · simpa only [List.append_assoc] using h.inOrder
  · have hcount := h.count
    simp only [List.length_append] at hcount ⊢
    omega

theorem taken_sublist (h : Relayed lost sent taken arrived flying staged) : taken.Sublist sent :=
  (List.sublist_append_left taken _).trans h.inOrder

/-- When nothing was lost, the messages that were taken are the first that were sent. -/
theorem taken_initial (h : Relayed 0 sent taken arrived flying staged) : taken <+: sent := by
  have hall : taken ++ (arrived ++ (flying ++ staged)) = sent := by
    apply h.inOrder.eq_of_length
    have hcount := h.count
    simp only [List.length_append]
    omega
  exact ⟨_, hall⟩

end Relayed
