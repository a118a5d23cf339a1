import Ocse.Lib.LinkedList

/-!
# Lists linked both ways

A segment of cells links forward and back, between the cell before it and the cell behind it. A cell is taken out
by writing the links of its two neighbours. The null pointer has no link to write; any other pointer is followed
only when there is a cell behind it.
-/

namespace Ocse

variable {α : Type}

/-- What a cell holds besides the link to the next one. -/
structure Back (α : Type) where
  data : α
  prev : Option ℕ

namespace Heap

def next (heap : Heap α) (p : ℕ) : Option ℕ := (heap.lookup p).bind (fun c => c.next)

def prev (heap : Heap (Back α)) (p : ℕ) : Option ℕ := (heap.lookup p).bind (fun c => c.data.prev)

def setNext (heap : Heap (Back α)) (next : Option ℕ) : Option ℕ → Option (Heap (Back α))
  | none => some heap
  | some p => do
    let c ← heap.lookup p
    some (heap.insert p { c with next := next })

def setPrev (heap : Heap (Back α)) (prev : Option ℕ) : Option ℕ → Option (Heap (Back α))
  | none => some heap
  | some p => do
    let c ← heap.lookup p
    some (heap.insert p { c with data := { c.data with prev := prev } })

/-- Let the neighbours of a cell link each other. -/
def detach (heap : Heap (Back α)) (p : ℕ) : Option (Heap (Back α)) := do
  let c ← heap.lookup p
  let heap ← heap.setNext c.next c.data.prev
  let c ← heap.lookup p
  heap.setPrev c.data.prev c.next

/-- The cells from `head` to `last`; the first one links `prev` back, the last one links `next`. -/
def Seg (heap : Heap (Back α)) : Option ℕ → Option ℕ → List (ℕ × α) → Option ℕ → Option ℕ → Prop
  | prev, head, [], last, next => head = next ∧ prev = last
  | prev, head, (p, x) :: cells, last, next =>
    head = some p ∧ ∃ link, heap.lookup p = some ⟨⟨x, prev⟩, link⟩ ∧ Heap.Seg heap (some p) link cells last next

variable {heap heap' : Heap (Back α)} {prev head last next : Option ℕ} {before after cells : List (ℕ × α)}
  {p q : ℕ} {x y : α}

theorem seg_append : heap.Seg prev head (before ++ after) last next ↔
    ∃ m n, heap.Seg prev head before m n ∧ heap.Seg m n after last next := by
  induction before generalizing prev head with
  | nil =>
    constructor
    · intro h
      exact ⟨prev, head, ⟨rfl, rfl⟩, h⟩
    · rintro ⟨m, n, ⟨rfl, rfl⟩, h⟩
      exact h
  | cons c before ih =>
    constructor
    · rintro ⟨hhead, link, hlookup, hrest⟩
      obtain ⟨m, n, hbefore, hafter⟩ := ih.mp hrest
      exact ⟨m, n, ⟨hhead, link, hlookup, hbefore⟩, hafter⟩
    · rintro ⟨m, n, ⟨hhead, link, hlookup, hbefore⟩, hafter⟩
      exact ⟨hhead, link, hlookup, ih.mpr ⟨m, n, hbefore, hafter⟩⟩

theorem seg_singleton : heap.Seg prev head [(p, x)] last next ↔
    head = some p ∧ last = some p ∧ heap.lookup p = some ⟨⟨x, prev⟩, next⟩ := by
  constructor
  · rintro ⟨hhead, link, hlookup, rfl, rfl⟩
    exact ⟨hhead, rfl, hlookup⟩
  · rintro ⟨hhead, rfl, hlookup⟩
    exact ⟨hhead, next, hlookup, rfl, rfl⟩

theorem Seg.mem (h : heap.Seg prev head cells last next) (hp : p ∈ cells.map Prod.fst) : p ∈ heap := by
  induction cells generalizing prev head with
  | nil => cases hp
  | cons c cells ih =>
    obtain ⟨-, link, hlookup, hrest⟩ := h
    rw [List.map_cons, List.mem_cons] at hp
    rcases hp with rfl | hp
    · exact mem_of_lookup hlookup
    · exact ih hrest hp

theorem Seg.frame (h : heap.Seg prev head cells last next)
    (hsame : ∀ a ∈ cells.map Prod.fst, heap'.lookup a = heap.lookup a) : heap'.Seg prev head cells last next := by
  induction cells generalizing prev head with
  | nil => exact h
  | cons c cells ih =>
    obtain ⟨hhead, link, hlookup, hrest⟩ := h
    refine ⟨hhead, link, (hsame c.1 List.mem_cons_self).trans hlookup, ih hrest ?_⟩
    intro a ha
    exact hsame a (List.mem_cons_of_mem _ ha)

theorem Seg.insert_other (h : heap.Seg prev head cells last next) (hp : p ∉ cells.map Prod.fst) (c : Cell (Back α)) :
    Heap.Seg (heap.insert p c) prev head cells last next := by
  apply h.frame
  intro a ha
  apply AList.lookup_insert_ne
  rintro rfl
  exact hp ha

theorem Seg.erase_other (h : heap.Seg prev head cells last next) (hp : p ∉ cells.map Prod.fst) :
    Heap.Seg (heap.erase p) prev head cells last next := by
  apply h.frame
  intro a ha
  apply AList.lookup_erase_ne
  rintro rfl
  exact hp ha

theorem Seg.chain (h : heap.Seg prev head cells last none) :
    ∃ chain, heap.Chain head chain ∧ chain.map (fun c => (c.1, c.2.data)) = cells := by
  induction cells generalizing prev head with
  | nil => exact ⟨[], h.1, rfl⟩
  | cons c cells ih =>
    obtain ⟨hhead, link, hlookup, hrest⟩ := h
    obtain ⟨chain, hchain, rfl⟩ := ih hrest
    exact ⟨(c.1, ⟨c.2, prev⟩) :: chain, ⟨hhead, link, hlookup, hchain⟩, rfl⟩

theorem Seg.lookup (h : heap.Seg prev head cells last next) (hmem : (p, x) ∈ cells) :
    ∃ m n, heap.lookup p = some ⟨⟨x, m⟩, n⟩ := by
  obtain ⟨before, after, rfl⟩ := List.append_of_mem hmem
  obtain ⟨m, n, -, -, link, hlookup, -⟩ := seg_append.mp h
  exact ⟨m, link, hlookup⟩

/-! ## Links -/

/-- The last cell of a segment, if it has one, is made to link another cell. -/
theorem Seg.setNext (h : heap.Seg none head cells last next) (hnodup : (cells.map Prod.fst).Nodup)
    (next' : Option ℕ) :
    ∃ heap', heap.setNext next' last = some heap' ∧
      heap'.Seg none (if cells = [] then next' else head) cells last next' ∧
      ∀ a ∉ cells.map Prod.fst, heap'.lookup a = heap.lookup a := by
  rcases List.eq_nil_or_concat' cells with rfl | ⟨cells, ⟨q, y⟩, rfl⟩
  · obtain ⟨-, rfl⟩ := h
    exact ⟨heap, rfl, ⟨rfl, rfl⟩, fun _ _ => rfl⟩
  · obtain ⟨m, n, hcells, hlast⟩ := seg_append.mp h
    obtain ⟨hn, rfl, hlookup⟩ := seg_singleton.mp hlast
    rw [List.map_append, List.nodup_append] at hnodup
    refine ⟨heap.insert q ⟨⟨y, m⟩, next'⟩, ?_, ?_, ?_⟩
    · rw [Heap.setNext, hlookup]
      rfl
    · rw [if_neg (List.append_ne_nil_of_right_ne_nil cells (List.cons_ne_nil _ _)), seg_append]
      refine ⟨m, n, hcells.insert_other ?_ _, seg_singleton.mpr ⟨hn, rfl, AList.lookup_insert heap⟩⟩
      intro hmem
      exact hnodup.2.2 q hmem q List.mem_cons_self rfl
    · intro a ha
      apply AList.lookup_insert_ne
      rintro rfl
      exact ha (by simp)

/-- The first cell of a segment, if it has one, is made to link another cell back. -/
theorem Seg.setPrev (h : heap.Seg prev head cells last none) (hnodup : (cells.map Prod.fst).Nodup)
    (prev' : Option ℕ) :
    ∃ heap' last', heap.setPrev prev' head = some heap' ∧ heap'.Seg prev' head cells last' none ∧
      ∀ a ∉ cells.map Prod.fst, heap'.lookup a = heap.lookup a := by
  cases cells with
  | nil =>
    obtain ⟨rfl, -⟩ := h
    exact ⟨heap, prev', rfl, ⟨rfl, rfl⟩, fun _ _ => rfl⟩
  | cons c cells =>
    obtain ⟨rfl, link, hlookup, hrest⟩ := h
    rw [List.map_cons, List.nodup_cons] at hnodup
    refine ⟨heap.insert c.1 ⟨⟨c.2, prev'⟩, link⟩, last, ?_,
      ⟨rfl, link, AList.lookup_insert heap, hrest.insert_other hnodup.1 _⟩, ?_⟩
    · rw [Heap.setPrev, hlookup]
      rfl
    · intro a ha
      apply AList.lookup_insert_ne
      rintro rfl
      exact ha List.mem_cons_self

/-! ## Insertion and removal -/

theorem Seg.push (h : heap.Seg none head cells last none) (hnodup : (cells.map Prod.fst).Nodup) (hp : p ∉ heap)
    (x : α) :
    ∃ heap' last', Heap.setPrev (heap.insert p ⟨⟨x, none⟩, head⟩) (some p) head = some heap' ∧
      heap'.Seg none (some p) ((p, x) :: cells) last' none ∧
      ∀ a ∉ ((p, x) :: cells).map Prod.fst, heap'.lookup a = heap.lookup a := by
  have hpcells : p ∉ cells.map Prod.fst := fun hmem => hp (h.mem hmem)
  obtain ⟨heap', last', hset, hseg, hsame⟩ := (h.insert_other hpcells ⟨⟨x, none⟩, head⟩).setPrev hnodup (some p)
  refine ⟨heap', last', hset, ⟨rfl, head, (hsame p hpcells).trans (AList.lookup_insert heap), hseg⟩, ?_⟩
  intro a ha
  rw [List.map_cons, List.mem_cons, not_or] at ha
  exact (hsame a ha.2).trans (AList.lookup_insert_ne ha.1)

/-- A cell that is detached keeps its own links; the others link without it. -/
theorem Seg.detach (h : heap.Seg none head (before ++ (p, x) :: after) last none)
    (hnodup : ((before ++ (p, x) :: after).map Prod.fst).Nodup) :
    ∃ heap' last' m n, heap.detach p = some heap' ∧ heap'.lookup p = some ⟨⟨x, m⟩, n⟩ ∧
      heap'.Seg none (if head = some p then n else head) (before ++ after) last' none ∧
      ∀ a ∉ (before ++ (p, x) :: after).map Prod.fst, heap'.lookup a = heap.lookup a := by
  obtain ⟨m, n, hbefore, rfl, link, hlookup, hafter⟩ := seg_append.mp h
  rw [List.map_append, List.map_cons, List.nodup_append, List.nodup_cons] at hnodup
  obtain ⟨hnodupBefore, ⟨hpafter, hnodupAfter⟩, hdistinct⟩ := hnodup
  have hpbefore : p ∉ before.map Prod.fst := fun hmem => hdistinct p hmem p List.mem_cons_self rfl
  obtain ⟨heap₁, hset₁, hseg₁, hsame₁⟩ := hbefore.setNext hnodupBefore link
  have hlookup₁ : heap₁.lookup p = some ⟨⟨x, m⟩, link⟩ := (hsame₁ p hpbefore).trans hlookup
  have hafter₁ : heap₁.Seg (some p) link after last none := by
    apply hafter.frame
    intro a ha
    apply hsame₁
    intro ha'
    exact hdistinct a ha' a (List.mem_cons_of_mem _ ha) rfl
  obtain ⟨heap₂, last₂, hset₂, hseg₂, hsame₂⟩ := hafter₁.setPrev hnodupAfter m
  have hhead : (if before = [] then link else head) = if head = some p then link else head := by
    cases before with
    | nil => rw [if_pos rfl, if_pos hbefore.1]
    | cons c before =>
      rw [if_neg (List.cons_ne_nil _ _), if_neg]
      intro hhead
      obtain rfl := Option.some.inj (hbefore.1.symm.trans hhead)
      exact hpbefore List.mem_cons_self
  refine ⟨heap₂, last₂, m, link, ?_, (hsame₂ p hpafter).trans hlookup₁, ?_, ?_⟩
  · rw [Heap.detach, hlookup]
    dsimp only [Option.bind_eq_bind, Option.bind_some]
    rw [hset₁, Option.bind_some, hlookup₁]
    exact hset₂
  · rw [← hhead]
    refine seg_append.mpr ⟨m, link, hseg₁.frame ?_, hseg₂⟩
    intro a ha
    apply hsame₂
    intro ha'
    exact hdistinct a ha a (List.mem_cons_of_mem _ ha') rfl
  · intro a ha
    rw [List.map_append, List.mem_append, List.map_cons, List.mem_cons, not_or, not_or] at ha
    exact (hsame₂ a ha.2.2).trans (hsame₁ a ha.1)

end Heap

end Ocse
