import Ocse.Lib.LinkedQueue
import Mathlib.Data.List.Perm.Subperm

/-!
# Lists linked through a heap

A chain of cells is searched from its head, a new cell is put before it, and a cell is taken out behind the one
that links it. The loops count down; a chain has no more cells than the heap.
-/

namespace Ocse

namespace Heap

variable {α : Type}

/-- The first cell from `head` on with data that meets `f`. -/
def find (heap : Heap α) (f : α → Bool) : ℕ → Option ℕ → Option (Option ℕ)
  | 0, _ => none
  | _ + 1, none => some none
  | fuel + 1, some p => do
    let c ← heap.lookup p
    if f c.data then some (some p) else heap.find f fuel c.next

/-- Look for the cell that links `p`, link what is behind `p` instead, and free `p`. -/
def unlink (heap : Heap α) (p : ℕ) : ℕ → Option ℕ → Option (Heap α)
  | 0, _ => none
  | _ + 1, none => some (heap.erase p)
  | fuel + 1, some q => do
    let c ← heap.lookup q
    if c.next = some p then do
      let freed ← heap.lookup p
      some ((heap.insert q { c with next := freed.next }).erase p)
    else heap.unlink p fuel c.next

/-- More than the number of cells. -/
def fuel (heap : Heap α) : ℕ := heap.keys.length + 1

variable {heap heap' : Heap α} {head next : Option ℕ} {before after cells : List (ℕ × α)} {p q : ℕ} {x y : α}

theorem Chain.length_lt_fuel (h : heap.Chain head cells) (hnodup : (cells.map Prod.fst).Nodup) :
    cells.length < heap.fuel := by
  have hsub : cells.map Prod.fst ⊆ heap.keys := by
    intro p hp
    exact AList.mem_keys.mp (h.mem hp)
  have hle := (List.subperm_of_subset hnodup hsub).length_le
  rw [List.length_map] at hle
  exact Nat.lt_succ_of_le hle

theorem Chain.suffix (h : heap.Chain head (before ++ (p, x) :: after)) :
    ∃ next, heap.lookup p = some ⟨x, next⟩ ∧ heap.Chain next after := by
  induction before generalizing head with
  | nil => exact h.2
  | cons c before ih =>
    obtain ⟨-, next, -, hrest⟩ := h
    exact ih hrest

theorem Chain.lookup (h : heap.Chain head cells) (hmem : (p, x) ∈ cells) :
    ∃ next, heap.lookup p = some ⟨x, next⟩ := by
  obtain ⟨before, after, rfl⟩ := List.append_of_mem hmem
  obtain ⟨next, hlookup, -⟩ := h.suffix
  exact ⟨next, hlookup⟩

/-- The cells up to `p` stay, but for the data of `p` and what it links. -/
theorem Chain.splice {rest : List (ℕ × α)} (h : heap.Chain head (before ++ (p, x) :: after))
    (hsame : ∀ a ∈ before.map Prod.fst, heap'.lookup a = heap.lookup a)
    (hlookup : heap'.lookup p = some ⟨y, next⟩) (hrest : heap'.Chain next rest) :
    heap'.Chain head (before ++ (p, y) :: rest) := by
  induction before generalizing head with
  | nil => exact ⟨h.1, next, hlookup, hrest⟩
  | cons c before ih =>
    obtain ⟨hhead, next, hc, hafter⟩ := h
    refine ⟨hhead, next, (hsame c.1 List.mem_cons_self).trans hc, ?_⟩
    apply ih hafter
    intro a ha
    exact hsame a (List.mem_cons_of_mem _ ha)

theorem Chain.insert_head (h : heap.Chain head cells) (hp : p ∉ heap) :
    Heap.Chain (heap.insert p ⟨x, head⟩) (some p) ((p, x) :: cells) := by
  refine ⟨rfl, head, AList.lookup_insert heap, h.insert_other ?_ _⟩
  intro hmem
  exact hp (h.mem hmem)

theorem Chain.set_data (h : heap.Chain head (before ++ (p, x) :: after))
    (hnodup : ((before ++ (p, x) :: after).map Prod.fst).Nodup) (hlookup : heap.lookup p = some ⟨x, next⟩) (y : α) :
    Heap.Chain (heap.insert p ⟨y, next⟩) head (before ++ (p, y) :: after) := by
  rw [List.map_append, List.map_cons, List.nodup_append, List.nodup_cons] at hnodup
  obtain ⟨-, ⟨hpafter, -⟩, hdistinct⟩ := hnodup
  obtain ⟨next', hlookup', hafter⟩ := h.suffix
  obtain rfl : next = next' := congrArg Cell.next (Option.some.inj (hlookup.symm.trans hlookup'))
  apply h.splice _ (AList.lookup_insert heap)
  · exact hafter.insert_other hpafter _
  · intro a ha
    apply AList.lookup_insert_ne
    rintro rfl
    exact hdistinct a ha a List.mem_cons_self rfl

theorem Chain.erase_head (h : heap.Chain head ((p, x) :: cells))
    (hnodup : (((p, x) :: cells).map Prod.fst).Nodup) (hlookup : heap.lookup p = some ⟨x, next⟩) :
    Heap.Chain (heap.erase p) next cells := by
  obtain ⟨-, next', hlookup', hrest⟩ := h
  obtain rfl : next = next' := congrArg Cell.next (Option.some.inj (hlookup.symm.trans hlookup'))
  exact hrest.erase_other (List.nodup_cons.mp hnodup).1

/-- The search finds the first cell that meets `f`. -/
theorem Chain.find (h : heap.Chain head cells) (f : α → Bool) {fuel : ℕ} (hfuel : cells.length < fuel) :
    heap.find f fuel head = some ((cells.find? (fun c => f c.2)).map Prod.fst) := by
  induction cells generalizing head fuel with
  | nil =>
    obtain ⟨fuel, rfl⟩ := Nat.exists_eq_add_one_of_ne_zero (Nat.ne_zero_of_lt hfuel)
    obtain rfl := h
    rfl
  | cons c cells ih =>
    obtain ⟨fuel, rfl⟩ := Nat.exists_eq_add_one_of_ne_zero (Nat.ne_zero_of_lt hfuel)
    obtain ⟨rfl, next, hlookup, hrest⟩ := h
    rw [Heap.find, hlookup, List.find?_cons]
    dsimp only [Option.bind_eq_bind, Option.bind_some]
    cases hf : f c.2 with
    | true => rfl
    | false => exact ih hrest (Nat.lt_of_succ_lt_succ hfuel)

theorem Chain.head_ne {c : ℕ × α} (h : heap.Chain head (c :: cells)) (hnodup : ((c :: cells).map Prod.fst).Nodup)
    (hp : p ∈ cells.map Prod.fst) : head ≠ some p := by
  rintro rfl
  obtain ⟨hhead, -⟩ := h
  obtain rfl := Option.some.inj hhead
  exact (List.nodup_cons.mp hnodup).1 hp

/-- The scan stops at the cell that links `p`. -/
theorem Chain.unlink_eq (h : heap.Chain head (before ++ (q, y) :: (p, x) :: after))
    (hnodup : ((before ++ (q, y) :: (p, x) :: after).map Prod.fst).Nodup)
    (hlookup : heap.lookup p = some ⟨x, next⟩) {fuel : ℕ} (hfuel : before.length < fuel) :
    heap.unlink p fuel head = some ((heap.insert q ⟨y, next⟩).erase p) := by
  induction before generalizing head fuel with
  | nil =>
    obtain ⟨fuel, rfl⟩ := Nat.exists_eq_add_one_of_ne_zero (Nat.ne_zero_of_lt hfuel)
    obtain ⟨rfl, next', hq, hnext, -⟩ := h
    rw [Heap.unlink, hq]
    dsimp only [Option.bind_eq_bind, Option.bind_some]
    rw [if_pos hnext, hlookup]
    rfl
  | cons c before ih =>
    obtain ⟨fuel, rfl⟩ := Nat.exists_eq_add_one_of_ne_zero (Nat.ne_zero_of_lt hfuel)
    obtain ⟨rfl, next', hc, hrest⟩ := h
    rw [List.cons_append, List.map_cons, List.nodup_cons] at hnodup
    have hne : next' ≠ some p := by
      cases before with
      | nil => exact hrest.head_ne hnodup.2 List.mem_cons_self
      | cons c' before =>
        apply hrest.head_ne hnodup.2
        exact List.mem_map_of_mem
          (List.mem_append_right before (List.mem_cons_of_mem (q, y) List.mem_cons_self))
    rw [Heap.unlink, hc]
    dsimp only [Option.bind_eq_bind, Option.bind_some]
    rw [if_neg hne]
    exact ih hrest hnodup.2 (Nat.lt_of_succ_lt_succ hfuel)

/-- A cell that is not the first one is taken out. -/
theorem Chain.unlink (h : heap.Chain head (before ++ (q, y) :: (p, x) :: after))
    (hnodup : ((before ++ (q, y) :: (p, x) :: after).map Prod.fst).Nodup)
    (hlookup : heap.lookup p = some ⟨x, next⟩) :
    Heap.Chain ((heap.insert q ⟨y, next⟩).erase p) head (before ++ (q, y) :: after) := by
  obtain ⟨next', -, hp⟩ := h.suffix
  obtain ⟨-, next'', hlookup', hafter⟩ := hp
  obtain rfl : next = next'' := congrArg Cell.next (Option.some.inj (hlookup.symm.trans hlookup'))
  rw [List.map_append, List.map_cons, List.map_cons, List.nodup_append, List.nodup_cons, List.nodup_cons] at hnodup
  obtain ⟨-, ⟨hq, hpafter, -⟩, hdistinct⟩ := hnodup
  have hother : ∀ a, a ≠ p → a ≠ q → ((heap.insert q ⟨y, next⟩).erase p).lookup a = heap.lookup a :=
    fun a hap haq => (AList.lookup_erase_ne hap).trans (AList.lookup_insert_ne haq)
  apply h.splice
  · intro a ha
    apply hother
    · rintro rfl
      exact hdistinct a ha a (List.mem_cons_of_mem _ List.mem_cons_self) rfl
    · rintro rfl
      exact hdistinct a ha a List.mem_cons_self rfl
  · have hqp : q ≠ p := by
      rintro rfl
      exact hq List.mem_cons_self
    exact (AList.lookup_erase_ne hqp).trans (AList.lookup_insert heap)
  · apply Chain.erase_other _ hpafter
    exact hafter.insert_other (fun hmem => hq (List.mem_cons_of_mem _ hmem)) _

end Heap

end Ocse
