import Mathlib.Algebra.GroupWithZero.Nat
import Mathlib.Algebra.Order.BigOperators.Group.List
import Mathlib.Algebra.Order.Group.Nat
import Mathlib.Data.List.AList

/-!
# Queues linked through a heap

A queue is a chain of cells that starts at `head`; a new cell is linked behind `tail`. Popping the last
cell frees it and leaves `tail` where it was, so `tail` may point to no cell, or to a cell that belongs to
something else. A pointer is followed only when there is a cell behind it: `push` and `pop` have no result
otherwise.

`Lists` relates a queue to the cells that it links. It asks of `tail` nothing while the queue is empty.
-/

namespace Ocse

variable {α : Type}

structure Cell (α : Type) where
  data : α
  next : Option ℕ

/-- The cells that are allocated, by their addresses. -/
abbrev Heap (α : Type) := AList (fun _ : ℕ => Cell α)

/-- An allocator picks an address that is not in use. -/
structure Malloc where
  alloc : List ℕ → ℕ
  fresh : ∀ used, alloc used ∉ used

/-- An address above all that are in use. -/
def Malloc.above : Malloc where
  alloc used := used.sum + 1
  fresh := by
    intro used hmem
    exact Nat.not_succ_le_self _ (List.le_sum_of_mem hmem)

theorem Malloc.notMem_alloc (malloc : Malloc) (heap : Heap α) : malloc.alloc heap.keys ∉ heap := by
  rw [AList.mem_keys]
  exact malloc.fresh _

structure LinkedQueue where
  head : Option ℕ
  tail : Option ℕ

namespace LinkedQueue

/-- Allocate a cell and put it at the tail. -/
def push (malloc : Malloc) (heap : Heap α) (q : LinkedQueue) (x : α) : Option (Heap α × LinkedQueue) :=
  let p := malloc.alloc heap.keys
  let heap := heap.insert p ⟨x, none⟩
  match q.head with
  | none => some (heap, ⟨some p, some p⟩)
  | some _ => do
    let t ← q.tail
    let c ← heap.lookup t
    some (heap.insert t { c with next := some p }, { q with tail := some p })

/-- Take the value of the head cell and free the cell. -/
def pop (heap : Heap α) (q : LinkedQueue) : Option (α × Heap α × LinkedQueue) := do
  let p ← q.head
  let c ← heap.lookup p
  some (c.data, heap.erase p, { q with head := c.next })

end LinkedQueue

/-- The cells from `head` on, with their addresses. -/
def Heap.Chain (heap : Heap α) : Option ℕ → List (ℕ × α) → Prop
  | head, [] => head = none
  | head, (p, x) :: cells =>
    head = some p ∧ ∃ next, heap.lookup p = some ⟨x, next⟩ ∧ Heap.Chain heap next cells

namespace Heap

variable {heap heap' : Heap α} {head : Option ℕ} {cells : List (ℕ × α)} {p t : ℕ} {x y : α} {c : Cell α}

theorem mem_of_lookup (h : heap.lookup p = some c) : p ∈ heap := by
  rw [← AList.lookup_isSome, h]
  rfl

theorem mem_of_lookup_eq (h : heap'.lookup p = heap.lookup p) (hp : p ∈ heap') : p ∈ heap := by
  rw [← AList.lookup_isSome, ← h, AList.lookup_isSome]
  exact hp

theorem Chain.mem (h : heap.Chain head cells) (hp : p ∈ cells.map Prod.fst) : p ∈ heap := by
  induction cells generalizing head with
  | nil => cases hp
  | cons c cells ih =>
    obtain ⟨-, next, hlookup, hrest⟩ := h
    rw [List.map_cons, List.mem_cons] at hp
    rcases hp with rfl | hp
    · exact mem_of_lookup hlookup
    · exact ih hrest hp

/-- A chain stays as it is while its own cells do. -/
theorem Chain.frame (h : heap.Chain head cells)
    (hsame : ∀ p ∈ cells.map Prod.fst, heap'.lookup p = heap.lookup p) : heap'.Chain head cells := by
  induction cells generalizing head with
  | nil => exact h
  | cons c cells ih =>
    obtain ⟨hhead, next, hlookup, hrest⟩ := h
    refine ⟨hhead, next, (hsame c.1 List.mem_cons_self).trans hlookup, ih hrest ?_⟩
    intro p hp
    exact hsame p (List.mem_cons_of_mem _ hp)

theorem Chain.insert_other (h : heap.Chain head cells) (hp : p ∉ cells.map Prod.fst) (c : Cell α) :
    Heap.Chain (heap.insert p c) head cells := by
  apply h.frame
  intro a ha
  apply AList.lookup_insert_ne
  rintro rfl
  exact hp ha

theorem Chain.erase_other (h : heap.Chain head cells) (hp : p ∉ cells.map Prod.fst) :
    Heap.Chain (heap.erase p) head cells := by
  apply h.frame
  intro a ha
  apply AList.lookup_erase_ne
  rintro rfl
  exact hp ha

theorem Chain.lookup_last (h : heap.Chain head (cells ++ [(t, y)])) :
    heap.lookup t = some ⟨y, none⟩ := by
  induction cells generalizing head with
  | nil =>
    obtain ⟨-, next, hlookup, rfl⟩ := h
    exact hlookup
  | cons c cells ih =>
    obtain ⟨-, next, -, hrest⟩ := h
    exact ih hrest

/-- A cell that the last one is made to point to is the new last one. -/
theorem Chain.link (h : heap.Chain head (cells ++ [(t, y)])) (ht : t ∉ cells.map Prod.fst)
    (hlast : heap'.lookup t = some ⟨y, some p⟩) (hnew : heap'.lookup p = some ⟨x, none⟩)
    (hsame : ∀ a ∈ cells.map Prod.fst, heap'.lookup a = heap.lookup a) :
    heap'.Chain head (cells ++ [(t, y)] ++ [(p, x)]) := by
  induction cells generalizing head with
  | nil =>
    obtain ⟨hhead, next, -, -⟩ := h
    exact ⟨hhead, some p, hlast, rfl, none, hnew, rfl⟩
  | cons c cells ih =>
    obtain ⟨hhead, next, hlookup, hrest⟩ := h
    refine ⟨hhead, next, (hsame c.1 List.mem_cons_self).trans hlookup, ?_⟩
    apply ih hrest
    · intro hmem
      exact ht (List.mem_cons_of_mem _ hmem)
    · intro a ha
      exact hsame a (List.mem_cons_of_mem _ ha)

end Heap

/-- The queue links exactly these cells, first to last. -/
structure LinkedQueue.Lists (q : LinkedQueue) (heap : Heap α) (cells : List (ℕ × α)) : Prop where
  chain : heap.Chain q.head cells
  nodup : (cells.map Prod.fst).Nodup
  tail : ∀ before t y, cells = before ++ [(t, y)] → q.tail = some t

namespace LinkedQueue

variable {q : LinkedQueue} {heap heap' : Heap α} {cells : List (ℕ × α)} {p : ℕ} {x : α}

theorem lists_nil (heap : Heap α) (tail : Option ℕ) : Lists ⟨none, tail⟩ heap [] where
  chain := rfl
  nodup := List.nodup_nil
  tail := by
    intro before t y h
    exact absurd h.symm (List.append_ne_nil_of_right_ne_nil _ (List.cons_ne_nil _ _))

theorem Lists.head_eq_none_iff (h : q.Lists heap cells) : q.head = none ↔ cells = [] := by
  cases cells with
  | nil => exact iff_of_true h.chain rfl
  | cons c cells =>
    obtain ⟨hhead, -⟩ := h.chain
    rw [hhead]
    exact iff_of_false (Option.some_ne_none _) (List.cons_ne_nil _ _)

theorem Lists.frame (h : q.Lists heap cells)
    (hsame : ∀ p ∈ cells.map Prod.fst, heap'.lookup p = heap.lookup p) : q.Lists heap' cells :=
  ⟨h.chain.frame hsame, h.nodup, h.tail⟩

theorem Lists.notMem_of_fresh (h : q.Lists heap cells) (hp : p ∉ heap) : p ∉ cells.map Prod.fst :=
  fun hmem => hp (h.chain.mem hmem)

theorem Lists.concat (h : q.Lists heap cells) (hp : p ∉ heap) {head : Option ℕ}
    (hchain : heap'.Chain head (cells ++ [(p, x)])) :
    Lists ⟨head, some p⟩ heap' (cells ++ [(p, x)]) where
  chain := hchain
  nodup := by
    rw [List.map_append, List.nodup_append]
    refine ⟨h.nodup, List.nodup_singleton p, ?_⟩
    rintro a ha b hb rfl
    obtain rfl := List.mem_singleton.mp hb
    exact h.notMem_of_fresh hp ha
  tail := by
    intro before t y heq
    obtain ⟨-, hlast⟩ := List.append_inj' heq rfl
    obtain ⟨rfl, -⟩ := Prod.mk.inj (List.singleton_inj.mp hlast)
    rfl

/-- A push on a queue succeeds; it adds one cell behind the others and touches no other cell. -/
theorem Lists.push (malloc : Malloc) (h : q.Lists heap cells) (x : α) :
    ∃ p heap' q', q.push malloc heap x = some (heap', q') ∧ p ∉ heap ∧
      q'.Lists heap' (cells ++ [(p, x)]) ∧
      ∀ a ∈ heap, a ∉ cells.map Prod.fst → heap'.lookup a = heap.lookup a := by
  have hp := malloc.notMem_alloc heap
  generalize hpdef : malloc.alloc heap.keys = p at hp
  have hother : ∀ a ∈ heap, (heap.insert p ⟨x, none⟩).lookup a = heap.lookup a := by
    intro a ha
    apply AList.lookup_insert_ne
    rintro rfl
    exact hp ha
  rcases List.eq_nil_or_concat' cells with rfl | ⟨before, ⟨t, y⟩, rfl⟩
  · have hhead : q.head = none := h.head_eq_none_iff.mpr rfl
    refine ⟨p, heap.insert p ⟨x, none⟩, ⟨some p, some p⟩, ?_, hp, ?_, fun a ha _ => hother a ha⟩
    · simp only [LinkedQueue.push, hhead, hpdef]
    · apply h.concat hp
      exact ⟨rfl, none, AList.lookup_insert _, rfl⟩
  · have htail : q.tail = some t := h.tail before t y rfl
    have ht : t ∈ heap := h.chain.mem (by simp)
    have hpt : p ≠ t := by
      rintro rfl
      exact hp ht
    have hlast : (heap.insert p ⟨x, none⟩).lookup t = some ⟨y, none⟩ :=
      (hother t ht).trans h.chain.lookup_last
    have hlinked : ∀ a ∈ heap, a ≠ t →
        ((heap.insert p ⟨x, none⟩).insert t ⟨y, some p⟩).lookup a = heap.lookup a := by
      intro a ha hat
      exact (AList.lookup_insert_ne hat).trans (hother a ha)
    have hnodup := h.nodup
    rw [List.map_append, List.nodup_append] at hnodup
    obtain ⟨-, -, hdistinct⟩ := hnodup
    have htbefore : t ∉ before.map Prod.fst := fun hmem => hdistinct t hmem t (by simp) rfl
    obtain ⟨head, hhead⟩ : ∃ head, q.head = some head := by
      cases hq : q.head with
      | none => exact absurd (h.head_eq_none_iff.mp hq) (by simp)
      | some head => exact ⟨head, rfl⟩
    refine ⟨p, (heap.insert p ⟨x, none⟩).insert t ⟨y, some p⟩, { q with tail := some p }, ?_, hp, ?_, ?_⟩
    · simp only [LinkedQueue.push, hhead, hpdef, htail, hlast, Option.bind_eq_bind, Option.bind_some]
    · apply h.concat hp
      apply h.chain.link htbefore (AList.lookup_insert _)
      · rw [AList.lookup_insert_ne hpt, AList.lookup_insert]
      · intro a ha
        apply hlinked a (h.chain.mem (by simp [ha]))
        rintro rfl
        exact htbefore ha
    · intro a ha hacells
      apply hlinked a ha
      rintro rfl
      exact hacells (by simp)

/-- A pop takes the first cell off and touches no other cell. -/
theorem Lists.pop (h : q.Lists heap ((p, x) :: cells)) :
    ∃ q', q.pop heap = some (x, heap.erase p, q') ∧ q'.Lists (heap.erase p) cells ∧
      ∀ a, a ≠ p → (heap.erase p).lookup a = heap.lookup a := by
  obtain ⟨hhead, next, hlookup, hrest⟩ := h.chain
  have hother : ∀ a, a ≠ p → (heap.erase p).lookup a = heap.lookup a :=
    fun a ha => AList.lookup_erase_ne ha
  obtain ⟨hp, hnodup⟩ := List.nodup_cons.mp h.nodup
  refine ⟨{ q with head := next }, ?_, ⟨?_, hnodup, ?_⟩, hother⟩
  · simp only [LinkedQueue.pop, hhead, hlookup, Option.bind_eq_bind, Option.bind_some]
  · exact hrest.erase_other hp
  · intro before t y heq
    exact h.tail ((p, x) :: before) t y (by rw [heq]; rfl)

end LinkedQueue

end Ocse
