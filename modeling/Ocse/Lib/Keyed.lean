import Mathlib.Data.List.Nodup
import Mathlib.Logic.Function.Basic

/-!
# Lists whose elements have distinct keys

A store through a pointer and the unlinking of an element, for a list whose elements are told apart by a
key: `replace` and `remove` touch the one element with that key. `lookup` searches by any other function
that is injective on the list. A partial function that is updated at one key is looked at by its values.
-/

namespace Ocse

variable {α κ : Type*} {key : α → κ} {l : List α} {e e' x : α}

theorem eq_of_key_eq (h : (l.map key).Nodup) (hx : x ∈ l) (he : e ∈ l) (hk : key x = key e) : x = e :=
  List.inj_on_of_nodup_map h hx he hk

/-- One element has an image that no other has, and the others differ. -/
theorem nodup_map_middle {β : Type*} {f : α → β} {l₁ l₂ : List α} :
    ((l₁ ++ x :: l₂).map f).Nodup ↔ f x ∉ (l₁ ++ l₂).map f ∧ ((l₁ ++ l₂).map f).Nodup := by
  rw [List.map_append, List.map_cons, List.nodup_middle, List.nodup_cons, List.map_append]

variable [DecidableEq κ]

/-! ## Partial functions -/

theorem update_eq_some_iff {f : κ → Option α} {i j : κ} {o : Option α} :
    Function.update f i o j = some x ↔ (j = i ∧ o = some x) ∨ (j ≠ i ∧ f j = some x) := by
  by_cases hj : j = i
  · rw [hj, Function.update_self]
    simp
  · rw [Function.update_of_ne hj]
    simp [hj]

theorem update_some_eq_none_iff {f : κ → Option α} {i j : κ} :
    Function.update f i (some x) j = none ↔ j ≠ i ∧ f j = none := by
  by_cases hj : j = i
  · rw [hj, Function.update_self]
    simp
  · rw [Function.update_of_ne hj]
    simp [hj]

/-! ## Lists -/

/-- The element with the key of `e` becomes `e`. -/
def replace (key : α → κ) (l : List α) (e : α) : List α := l.map (fun x => if key x = key e then e else x)

def remove (key : α → κ) (l : List α) (e : α) : List α := l.filter (fun x => key x ≠ key e)

def lookup (key : α → κ) (l : List α) (k : κ) : Option α := l.find? (fun x => key x = k)

theorem mem_replace (h : (l.map key).Nodup) (he : e ∈ l) (hk : key e' = key e) :
    x ∈ replace key l e' ↔ x = e' ∨ (x ∈ l ∧ x ≠ e) := by
  unfold replace
  rw [List.mem_map]
  constructor
  · rintro ⟨y, hy, rfl⟩
    split_ifs with hyk
    · exact .inl rfl
    · refine .inr ⟨hy, ?_⟩
      rintro rfl
      exact hyk hk.symm
  · rintro (rfl | ⟨hx, hne⟩)
    · exact ⟨e, he, if_pos hk.symm⟩
    · refine ⟨x, hx, if_neg (fun hxk => hne (eq_of_key_eq h hx he (hxk.trans hk)))⟩

theorem mem_remove (h : (l.map key).Nodup) (he : e ∈ l) : x ∈ remove key l e ↔ x ∈ l ∧ x ≠ e := by
  unfold remove
  rw [List.mem_filter, decide_eq_true_eq]
  constructor
  · rintro ⟨hx, hk⟩
    exact ⟨hx, fun hxe => hk (congrArg key hxe)⟩
  · rintro ⟨hx, hne⟩
    exact ⟨hx, fun hk => hne (eq_of_key_eq h hx he hk)⟩

theorem mem_of_mem_remove (hx : x ∈ remove key l e) : x ∈ l := List.mem_of_mem_filter hx

/-- A replacement leaves alone every function on which it agrees with what it replaces. -/
theorem map_replace {β : Type*} {f : α → β} (hf : ∀ x ∈ l, key x = key e' → f e' = f x) :
    (replace key l e').map f = l.map f := by
  unfold replace
  rw [List.map_map, List.map_inj_left]
  intro x hx
  change f (if key x = key e' then e' else x) = f x
  split_ifs with hk
  · exact hf x hx hk
  · rfl

theorem map_replace_key : (replace key l e').map key = l.map key :=
  map_replace (fun _ _ hk => hk.symm)

/-- Only the one element with the key is replaced. -/
theorem replace_append_cons {l₁ l₂ : List α} (h : ((l₁ ++ e :: l₂).map key).Nodup) (hk : key e' = key e) :
    replace key (l₁ ++ e :: l₂) e' = l₁ ++ e' :: l₂ := by
  rw [nodup_map_middle] at h
  have hsame : ∀ l' : List α, (∀ x ∈ l', x ∈ l₁ ++ l₂) → replace key l' e' = l' := by
    intro l' hl'
    refine (List.map_congr_left (fun x hx => if_neg (fun hxk => ?_))).trans (List.map_id l')
    exact h.1 (List.mem_map.mpr ⟨x, hl' x hx, hxk.trans hk⟩)
  have hleft := hsame l₁ (fun x hx => List.mem_append_left _ hx)
  have hright := hsame l₂ (fun x hx => List.mem_append_right _ hx)
  unfold replace at hleft hright ⊢
  rw [List.map_append, List.map_cons, hleft, hright, if_pos hk.symm]

theorem remove_append_cons {l₁ l₂ : List α} (h : ((l₁ ++ e :: l₂).map key).Nodup) :
    remove key (l₁ ++ e :: l₂) e = l₁ ++ l₂ := by
  rw [nodup_map_middle] at h
  have hsame : ∀ l' : List α, (∀ x ∈ l', x ∈ l₁ ++ l₂) → remove key l' e = l' := by
    intro l' hl'
    apply List.filter_eq_self.mpr
    intro x hx
    rw [decide_eq_true_eq]
    intro hxk
    exact h.1 (List.mem_map.mpr ⟨x, hl' x hx, hxk⟩)
  have hleft := hsame l₁ (fun x hx => List.mem_append_left _ hx)
  have hright := hsame l₂ (fun x hx => List.mem_append_right _ hx)
  unfold remove at hleft hright ⊢
  rw [List.filter_append, List.filter_cons_of_neg (by simp), hleft, hright]

/-- A list with the keys of another one is that list with every element looked up. -/
theorem map_lookup_of_keys {l' : List α} (h : (l'.map key).Nodup) (hkeys : l'.map key = l.map key) :
    l.map (fun x => (lookup key l' (key x)).getD x) = l' := by
  induction l generalizing l' with
  | nil =>
    obtain rfl := List.map_eq_nil_iff.mp hkeys
    rfl
  | cons x l ih =>
    cases l' with
    | nil => cases hkeys
    | cons x' l' =>
      obtain ⟨hx, hrest⟩ := List.cons.inj hkeys
      obtain ⟨hnot, hnodup⟩ := List.nodup_cons.mp h
      have hfound : lookup key (x' :: l') (key x) = some x' := by
        unfold lookup
        exact List.find?_cons_of_pos (decide_eq_true hx)
      rw [List.map_cons, hfound]
      congr 1
      refine Eq.trans (List.map_congr_left (fun y hy => ?_)) (ih hnodup hrest)
      have hne : ¬decide (key x' = key y) = true := by
        rw [decide_eq_true_eq]
        intro heq
        apply hnot
        rw [hrest, heq]
        exact List.mem_map_of_mem hy
      unfold lookup
      exact congrArg (fun o => Option.getD o y) (List.find?_cons_of_neg hne)

theorem nodup_map_remove {β : Type*} {f : α → β} (h : (l.map f).Nodup) :
    ((remove key l e).map f).Nodup :=
  h.sublist (List.filter_sublist.map f)

theorem lookup_eq_some (h : (l.map key).Nodup) {k : κ} :
    lookup key l k = some e ↔ e ∈ l ∧ key e = k := by
  unfold lookup
  constructor
  · intro hfind
    have hk := List.find?_some hfind
    exact ⟨List.mem_of_find?_eq_some hfind, of_decide_eq_true hk⟩
  · rintro ⟨he, rfl⟩
    cases hfind : l.find? (fun x => key x = key e) with
    | none => exact absurd (decide_eq_true rfl) (List.find?_eq_none.mp hfind e he)
    | some x =>
      have hk := List.find?_some hfind
      rw [eq_of_key_eq h (List.mem_of_find?_eq_some hfind) he (of_decide_eq_true hk)]

theorem lookup_eq_none {k : κ} : lookup key l k = none ↔ ∀ x ∈ l, key x ≠ k := by
  simp [lookup]

/-! ## Searching a list that changes -/

section Lookup

variable {τ : Type*} [DecidableEq τ] {f : α → τ} {t : τ}

theorem lookup_replace (hkey : (l.map key).Nodup) (hf : (l.map f).Nodup) (he : e ∈ l)
    (hk : key e' = key e) (hfe : f e' = f e) :
    lookup f (replace key l e') t = if f e = t then some e' else lookup f l t := by
  have hf' : ((replace key l e').map f).Nodup := by
    rwa [map_replace (fun x hx hxk => eq_of_key_eq hkey hx he (hxk.trans hk) ▸ hfe)]
  split_ifs with ht
  · rw [lookup_eq_some hf', mem_replace hkey he hk]
    exact ⟨.inl rfl, hfe.trans ht⟩
  · ext x
    rw [lookup_eq_some hf', lookup_eq_some hf, mem_replace hkey he hk]
    constructor
    · rintro ⟨rfl | ⟨hx, -⟩, rfl⟩
      · exact absurd hfe.symm ht
      · exact ⟨hx, rfl⟩
    · rintro ⟨hx, rfl⟩
      exact ⟨.inr ⟨hx, fun hxe => ht (congrArg f hxe.symm)⟩, rfl⟩

theorem lookup_remove (hkey : (l.map key).Nodup) (hf : (l.map f).Nodup) (he : e ∈ l) :
    lookup f (remove key l e) t = if f e = t then none else lookup f l t := by
  split_ifs with ht
  · rw [lookup_eq_none]
    intro x hx hxt
    obtain ⟨hx, hne⟩ := (mem_remove hkey he).mp hx
    exact hne (eq_of_key_eq hf hx he (hxt.trans ht.symm))
  · ext x
    rw [lookup_eq_some (nodup_map_remove hf), lookup_eq_some hf, mem_remove hkey he]
    constructor
    · rintro ⟨⟨hx, -⟩, rfl⟩
      exact ⟨hx, rfl⟩
    · rintro ⟨hx, rfl⟩
      exact ⟨⟨hx, fun hxe => ht (congrArg f hxe.symm)⟩, rfl⟩

theorem lookup_insert {l₁ l₂ : List α} (hfresh : ∀ x ∈ l₁ ++ l₂, f x ≠ f e) :
    lookup f (l₁ ++ e :: l₂) t = if f e = t then some e else lookup f (l₁ ++ l₂) t := by
  unfold lookup
  rw [List.find?_append, List.find?_append, List.find?_cons]
  split_ifs with ht
  · have hnone : l₁.find? (fun x => f x = t) = none := by
      rw [List.find?_eq_none]
      intro x hx hxt
      exact hfresh x (List.mem_append_left _ hx) ((of_decide_eq_true hxt).trans ht.symm)
    simp [hnone, ht]
  · simp [ht]

theorem lookup_map {g : α → α} (hg : ∀ x, f (g x) = f x) : lookup f (l.map g) t = (lookup f l t).map g := by
  unfold lookup
  rw [List.find?_map]
  simp only [Function.comp_def, hg]

end Lookup

end Ocse
