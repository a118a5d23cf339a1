import Ocse.Lib.Keyed
import Ocse.Lib.LinkedList

/-!
# Walks over the links of a list

A list is walked by the address of a link: first that of the link to its head, then that of the link in each cell.
Where the walk ends, a cell can be put in or taken out by one store, with no case for the head. What makes the walk
stop may be drawn on the way; `splitWhere` says where it stops in a plain list.
-/

namespace Ocse

variable {α σ : Type}

/-- A list by its first cell, and the cells that are allocated. -/
structure Linked (α : Type) where
  heap : Heap α
  head : Option ℕ

/-- The address of a link. -/
inductive LinkRef
  | head
  | next (p : ℕ)
  deriving DecidableEq, Repr

namespace Linked

def load (l : Linked α) : LinkRef → Option (Option ℕ)
  | .head => some l.head
  | .next p => do
    let c ← l.heap.lookup p
    some c.next

def store (l : Linked α) (value : Option ℕ) : LinkRef → Option (Linked α)
  | .head => some { l with head := value }
  | .next p => do
    let c ← l.heap.lookup p
    some { l with heap := l.heap.insert p { c with next := value } }

/-- The first link from `link` on that is null, or that links a cell at which `stop` says so. -/
def walk (l : Linked α) (stop : σ → α → Bool × σ) : ℕ → σ → LinkRef → Option LinkRef
  | 0, _, _ => none
  | fuel + 1, d, link => do
    match ← l.load link with
    | none => some link
    | some p => do
      let c ← l.heap.lookup p
      let (stops, d) := stop d c.data
      if stops then some link else l.walk stop fuel d (.next p)

/-- Put a new cell where the walk ends. -/
def insert (malloc : Malloc) (stop : σ → α → Bool × σ) (d : σ) (l : Linked α) (x : α) : Option (Linked α) := do
  let p := malloc.alloc l.heap.keys
  let l : Linked α := { l with heap := l.heap.insert p ⟨x, none⟩ }
  let link ← l.walk stop l.heap.fuel d .head
  let next ← l.load link
  let l : Linked α := { l with heap := l.heap.insert p ⟨x, next⟩ }
  l.store (some p) link

def setData (l : Linked α) (p : ℕ) (x : α) : Option (Linked α) := do
  let c ← l.heap.lookup p
  some { l with heap := l.heap.insert p { c with data := x } }

/-- Store what is behind the cell `p` into the link to it, and free the cell. -/
def removeAt (l : Linked α) (link : LinkRef) (p : ℕ) : Option (Linked α) := do
  let c ← l.heap.lookup p
  let l ← l.store c.next link
  some { l with heap := l.heap.erase p }

/-- Write to the data of every cell from `head` on. -/
def mapData (f : α → α) : ℕ → Heap α → Option ℕ → Option (Heap α)
  | 0, _, _ => none
  | _ + 1, heap, none => some heap
  | fuel + 1, heap, some p => do
    let c ← heap.lookup p
    mapData f fuel (heap.insert p { c with data := f c.data }) c.next

/-- The list has these cells, in this order and each once. -/
structure Holds (l : Linked α) (cells : List (ℕ × α)) : Prop where
  chain : l.heap.Chain l.head cells
  nodup : (cells.map Prod.fst).Nodup

end Linked

/-- The elements before the first at which to stop, and the others. -/
def splitWhere (stop : σ → α → Bool × σ) : σ → List α → List α × List α
  | _, [] => ([], [])
  | d, x :: xs => if (stop d x).1 then ([], x :: xs) else (splitWhere stop (stop d x).2 xs).map (x :: ·) id

/-- The link behind some cells. -/
def linkBehind (link : LinkRef) (cells : List (ℕ × α)) : LinkRef := cells.foldl (fun _ c => .next c.1) link

/-- A list is split where its cells are. -/
theorem splitWhere_cells (stop : σ → α → Bool × σ) (d : σ) (cells : List (ℕ × α)) :
    ∃ before after, cells = before ++ after ∧
      splitWhere stop d (cells.map Prod.snd) = (before.map Prod.snd, after.map Prod.snd) := by
  induction cells generalizing d with
  | nil => exact ⟨[], [], rfl, rfl⟩
  | cons c cells ih =>
    rw [List.map_cons, splitWhere]
    by_cases hstop : (stop d c.2).1 = true
    · rw [if_pos hstop]
      exact ⟨[], c :: cells, rfl, rfl⟩
    · obtain ⟨before, after, hcells, hsplit⟩ := ih (stop d c.2).2
      rw [if_neg hstop, hsplit, hcells]
      exact ⟨c :: before, after, rfl, rfl⟩

namespace Linked

variable {l l' : Linked α} {stop : σ → α → Bool × σ} {before after cells : List (ℕ × α)} {p : ℕ} {x y : α}

theorem Holds.length_lt_fuel (h : l.Holds cells) : cells.length < l.heap.fuel := h.chain.length_lt_fuel h.nodup

/-- The walk ends behind the cells that come before the split. -/
theorem walk_eq {link : LinkRef} {head : Option ℕ} {fuel : ℕ} {d : σ} (hload : l.load link = some head)
    (hchain : l.heap.Chain head (before ++ after)) (hfuel : (before ++ after).length < fuel)
    (hsplit : splitWhere stop d ((before ++ after).map Prod.snd) = (before.map Prod.snd, after.map Prod.snd)) :
    l.walk stop fuel d link = some (linkBehind link before) := by
  induction before generalizing link head fuel d with
  | nil =>
    obtain ⟨fuel, rfl⟩ := Nat.exists_eq_add_one_of_ne_zero (Nat.ne_zero_of_lt hfuel)
    rw [walk, hload]
    cases after with
    | nil =>
      obtain rfl := hchain
      rfl
    | cons c after =>
      obtain ⟨rfl, next, hlookup, -⟩ := hchain
      rw [List.nil_append, List.map_cons, splitWhere] at hsplit
      have hstop : (stop d c.2).1 = true := by
        by_contra hgo
        rw [if_neg hgo] at hsplit
        exact List.cons_ne_nil _ _ (Prod.mk.inj hsplit).1
      dsimp only [Option.bind_eq_bind, Option.bind_some]
      rw [hlookup]
      exact if_pos hstop
  | cons c before ih =>
    obtain ⟨fuel, rfl⟩ := Nat.exists_eq_add_one_of_ne_zero (Nat.ne_zero_of_lt hfuel)
    obtain ⟨rfl, next, hlookup, hrest⟩ := hchain
    rw [List.cons_append, List.map_cons, splitWhere] at hsplit
    have hgo : ¬(stop d c.2).1 = true := by
      intro hstop
      rw [if_pos hstop] at hsplit
      exact List.cons_ne_nil _ _ (Prod.mk.inj hsplit).1.symm
    rw [if_neg hgo] at hsplit
    have hrestSplit : splitWhere stop (stop d c.2).2 ((before ++ after).map Prod.snd) =
        (before.map Prod.snd, after.map Prod.snd) := by
      obtain ⟨hbefore, hafter⟩ := Prod.mk.inj hsplit
      exact Prod.ext (List.cons.inj hbefore).2 hafter
    have hnext : l.load (.next c.1) = some next := by
      rw [load, hlookup]
      rfl
    rw [walk, hload]
    dsimp only [Option.bind_eq_bind, Option.bind_some]
    rw [hlookup]
    refine (if_neg hgo).trans ?_
    exact ih hnext hrest (Nat.lt_of_succ_lt_succ hfuel) hrestSplit

theorem load_linkBehind {link : LinkRef} {head : Option ℕ} (hload : l.load link = some head)
    (hchain : l.heap.Chain head (before ++ after)) :
    ∃ next, l.load (linkBehind link before) = some next ∧ l.heap.Chain next after := by
  induction before generalizing link head with
  | nil => exact ⟨head, hload, hchain⟩
  | cons c before ih =>
    obtain ⟨-, next, hlookup, hrest⟩ := hchain
    apply ih _ hrest
    rw [load, hlookup]
    rfl

/-- A walk from the head ends at the link that splits the cells as it does a plain list. -/
theorem Holds.walk (h : l.Holds cells) (stop : σ → α → Bool × σ) (d : σ) :
    ∃ before after, cells = before ++ after ∧
      splitWhere stop d (cells.map Prod.snd) = (before.map Prod.snd, after.map Prod.snd) ∧
      l.walk stop l.heap.fuel d .head = some (linkBehind .head before) ∧
      l.load (linkBehind .head before) = some (after.head?.map Prod.fst) := by
  obtain ⟨before, after, rfl, hsplit⟩ := splitWhere_cells stop d cells
  have hhead : l.load .head = some l.head := rfl
  obtain ⟨next, hload, hafter⟩ := load_linkBehind hhead h.chain
  refine ⟨before, after, rfl, hsplit, walk_eq rfl h.chain h.length_lt_fuel hsplit, ?_⟩
  rw [hload]
  cases after with
  | nil => exact congrArg some hafter
  | cons c after => exact congrArg some hafter.1

theorem Holds.lookup (h : l.Holds (before ++ (p, x) :: after)) : ∃ next, l.heap.lookup p = some ⟨x, next⟩ := by
  obtain ⟨next, hlookup, -⟩ := h.chain.suffix
  exact ⟨next, hlookup⟩

/-- What the list is after a store behind some of its cells: these, and then what the stored link leads to. -/
theorem Holds.store (h : l.Holds (before ++ after)) {value : Option ℕ} {rest : List (ℕ × α)}
    (hrest : l.heap.Chain value rest) (hnodup : ((before ++ rest).map Prod.fst).Nodup) :
    ∃ l', l.store value (linkBehind .head before) = some l' ∧ l'.Holds (before ++ rest) ∧
      ∀ p ∉ before.map Prod.fst, l'.heap.lookup p = l.heap.lookup p := by
  rcases List.eq_nil_or_concat' before with rfl | ⟨before, ⟨t, y⟩, rfl⟩
  · exact ⟨{ l with head := value }, rfl, ⟨hrest, hnodup⟩, fun _ _ => rfl⟩
  · have hlink : linkBehind .head (before ++ [(t, y)]) = .next t := List.foldl_concat _ _ _ _
    have hchain := h.chain
    rw [List.append_assoc] at hchain
    obtain ⟨next, hlookup, -⟩ := hchain.suffix
    have hdistinct := hnodup
    rw [List.append_assoc, List.map_append, List.nodup_append] at hdistinct
    obtain ⟨-, htail, hdistinct⟩ := hdistinct
    refine ⟨{ l with heap := l.heap.insert t ⟨y, value⟩ }, ?_, ⟨?_, hnodup⟩, ?_⟩
    · rw [hlink, Linked.store, hlookup]
      rfl
    · rw [List.append_assoc]
      apply hchain.splice _ (AList.lookup_insert l.heap)
      · exact hrest.insert_other (List.nodup_cons.mp htail).1 _
      · intro a ha
        apply AList.lookup_insert_ne
        rintro rfl
        exact hdistinct a ha a List.mem_cons_self rfl
    · intro a ha
      apply AList.lookup_insert_ne
      rintro rfl
      exact ha (by simp)

/-- A new cell is put in where the walk stops, and no other cell is touched but for the link to it. -/
theorem Holds.insert (malloc : Malloc) (h : l.Holds (before ++ after)) {d : σ}
    (hsplit : splitWhere stop d ((before ++ after).map Prod.snd) = (before.map Prod.snd, after.map Prod.snd)) (x : α) :
    ∃ p l', l.insert malloc stop d x = some l' ∧ p ∉ (before ++ after).map Prod.fst ∧
      l'.Holds (before ++ (p, x) :: after) := by
  have hp := malloc.notMem_alloc l.heap
  generalize hpdef : malloc.alloc l.heap.keys = p at hp
  have hcells : p ∉ (before ++ after).map Prod.fst := fun hmem => hp (h.chain.mem hmem)
  have hfresh : (⟨l.heap.insert p ⟨x, none⟩, l.head⟩ : Linked α).Holds (before ++ after) :=
    ⟨h.chain.insert_other hcells _, h.nodup⟩
  have hhead : Linked.load ⟨l.heap.insert p ⟨x, none⟩, l.head⟩ .head = some l.head := rfl
  obtain ⟨next, hload, hafter⟩ := load_linkBehind hhead hfresh.chain
  have hlinked : (⟨(l.heap.insert p ⟨x, none⟩).insert p ⟨x, next⟩, l.head⟩ : Linked α).Holds (before ++ after) :=
    ⟨hfresh.chain.insert_other hcells _, h.nodup⟩
  have hnodup : ((before ++ (p, x) :: after).map Prod.fst).Nodup := nodup_map_middle.mpr ⟨hcells, h.nodup⟩
  have hpafter : p ∉ after.map Prod.fst := by
    intro hmem
    apply hcells
    rw [List.map_append]
    exact List.mem_append_right _ hmem
  have hrest : Heap.Chain ((l.heap.insert p ⟨x, none⟩).insert p ⟨x, next⟩) (some p) ((p, x) :: after) :=
    ⟨rfl, next, AList.lookup_insert _, hafter.insert_other hpafter _⟩
  obtain ⟨l', hstore, hholds, -⟩ := hlinked.store hrest hnodup
  refine ⟨p, l', ?_, hcells, hholds⟩
  rw [Linked.insert, hpdef]
  dsimp only
  rw [walk_eq rfl hfresh.chain hfresh.length_lt_fuel hsplit]
  dsimp only [Option.bind_eq_bind, Option.bind_some]
  rw [hload]
  exact hstore

/-- The cell behind the link is taken out, and no other cell is touched but for the link to it. -/
theorem Holds.removeAt (h : l.Holds (before ++ (p, x) :: after)) :
    ∃ l', l.removeAt (linkBehind .head before) p = some l' ∧ l'.Holds (before ++ after) := by
  obtain ⟨next, hlookup, hafter⟩ := h.chain.suffix
  obtain ⟨hp, hrest⟩ := nodup_map_middle.mp h.nodup
  obtain ⟨l', hstore, hholds, -⟩ := h.store hafter hrest
  refine ⟨⟨l'.heap.erase p, l'.head⟩, ?_, hholds.chain.erase_other hp, hrest⟩
  rw [Linked.removeAt, hlookup]
  dsimp only [Option.bind_eq_bind, Option.bind_some]
  rw [hstore]
  rfl

theorem Holds.setData (h : l.Holds (before ++ (p, x) :: after)) (y : α) :
    ∃ l', l.setData p y = some l' ∧ l'.Holds (before ++ (p, y) :: after) := by
  obtain ⟨next, hlookup, -⟩ := h.chain.suffix
  have haddresses : (before ++ (p, y) :: after).map Prod.fst = (before ++ (p, x) :: after).map Prod.fst := by
    rw [List.map_append, List.map_append]
    rfl
  refine ⟨⟨l.heap.insert p ⟨y, next⟩, l.head⟩, ?_, h.chain.set_data h.nodup hlookup y, haddresses ▸ h.nodup⟩
  rw [Linked.setData, hlookup]
  rfl

theorem mapData_chain (f : α → α) {heap : Heap α} {head : Option ℕ} {fuel : ℕ} (h : heap.Chain head cells)
    (hnodup : (cells.map Prod.fst).Nodup) (hfuel : cells.length < fuel) :
    ∃ heap', mapData f fuel heap head = some heap' ∧ heap'.Chain head (cells.map (fun c => (c.1, f c.2))) ∧
      ∀ p ∉ cells.map Prod.fst, heap'.lookup p = heap.lookup p := by
  induction cells generalizing heap head fuel with
  | nil =>
    obtain ⟨fuel, rfl⟩ := Nat.exists_eq_add_one_of_ne_zero (Nat.ne_zero_of_lt hfuel)
    obtain rfl := h
    exact ⟨heap, rfl, rfl, fun _ _ => rfl⟩
  | cons c cells ih =>
    obtain ⟨fuel, rfl⟩ := Nat.exists_eq_add_one_of_ne_zero (Nat.ne_zero_of_lt hfuel)
    obtain ⟨rfl, next, hlookup, hrest⟩ := h
    obtain ⟨hc, hnodup⟩ := List.nodup_cons.mp hnodup
    obtain ⟨heap', hmap, hchain, hsame⟩ :=
      ih (hrest.insert_other hc ⟨f c.2, next⟩) hnodup (Nat.lt_of_succ_lt_succ hfuel)
    refine ⟨heap', ?_, ⟨rfl, next, (hsame c.1 hc).trans (AList.lookup_insert heap), hchain⟩, ?_⟩
    · rw [mapData, hlookup]
      exact hmap
    · intro a ha
      rw [List.map_cons, List.mem_cons, not_or] at ha
      exact (hsame a ha.2).trans (AList.lookup_insert_ne ha.1)

theorem Holds.mapData (h : l.Holds cells) (f : α → α) :
    ∃ heap, Linked.mapData f l.heap.fuel l.heap l.head = some heap ∧
      (⟨heap, l.head⟩ : Linked α).Holds (cells.map (fun c => (c.1, f c.2))) := by
  obtain ⟨heap, hmap, hchain, -⟩ := mapData_chain f h.chain h.nodup h.length_lt_fuel
  refine ⟨heap, hmap, hchain, ?_⟩
  rw [List.map_map]
  exact h.nodup

end Linked

end Ocse
