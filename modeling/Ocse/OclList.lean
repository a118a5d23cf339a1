import Ocse.Lib.DoublyLinked
import Ocse.Lib.Keyed
import Ocse.Lib.Run

/-!
# The list of AFU connections

`ocl_init` puts a new `struct ocl` in front of the first one whose bus number is not below its own, and
`parse_host_data` then writes the start of the list into every `struct ocl` that it finds there. The thread of an
`ocl` takes it out of the list when its loop ends; while the configuration of the AFU is read it may run.
-/

namespace Ocse

/-- `head` is null until it is written. -/
structure OclNode where
  bus : UInt8
  head : Bool

/-- `ocl_list` and what it links, the `ocl` that `ocl_init` has put there and still works on, and those that a thread
runs for. -/
structure OclList where
  heap : Heap (Back OclNode)
  list : Option ℕ
  starting : Option ℕ
  threads : List ℕ

/-- A `struct ocl **` -/
inductive OclLink
  | list
  | next (p : ℕ)

/-- `add` is `ocl_init` up to the insertion, `finish` the rest of it and what `parse_host_data` does behind it;
`valid` says whether there are clients to be served. -/
inductive OclOp
  | add (malloc : Malloc) (bus : UInt8)
  | finish (valid : Bool)
  | exit (p : ℕ)

namespace OclList

def start : OclList := ⟨∅, none, none, []⟩

def load (s : OclList) : OclLink → Option (Option ℕ)
  | .list => some s.list
  | .next p => do
    let c ← s.heap.lookup p
    some c.next

def store (s : OclList) (value : Option ℕ) : OclLink → Option OclList
  | .list => some { s with list := value }
  | .next p => do
    let heap ← s.heap.setNext value (some p)
    some { s with heap := heap }

/-- The link that the loop of `ocl_init` ends at. -/
def findLink (s : OclList) (bus : UInt8) : ℕ → OclLink → Option OclLink
  | 0, _ => none
  | fuel + 1, link => do
    match ← s.load link with
    | none => some link
    | some p => do
      let c ← s.heap.lookup p
      if c.data.data.bus < bus then s.findLink bus fuel (.next p) else some link

/-- `_prev` of the new `ocl` stays as `calloc` left it. -/
def oclInit (malloc : Malloc) (s : OclList) (bus : UInt8) : Option OclList := do
  let p := malloc.alloc s.heap.keys
  let link ← s.findLink bus s.heap.fuel .list
  let next ← s.load link
  let heap ← Heap.setPrev (s.heap.insert p ⟨⟨⟨bus, false⟩, none⟩, next⟩) (some p) next
  let s : OclList := { s with heap := heap, starting := some p, threads := p :: s.threads }
  s.store (some p) link

/-- The loop of `parse_host_data` over the list. -/
def updateHeads : ℕ → Heap (Back OclNode) → Option ℕ → Option (Heap (Back OclNode))
  | 0, _, _ => none
  | _ + 1, heap, none => some heap
  | fuel + 1, heap, some p => do
    let c ← heap.lookup p
    updateHeads fuel (heap.insert p ⟨⟨{ c.data.data with head := true }, c.data.prev⟩, c.next⟩) c.next

def finish (s : OclList) (valid : Bool) : Option OclList :=
  match s.starting with
  | none => some s
  | some p => do
    let _ ← s.heap.lookup p
    let s : OclList := { s with starting := none }
    if valid then
      let heap ← updateHeads s.heap.fuel s.heap s.list
      some { s with heap := heap }
    else some { s with heap := s.heap.erase p }

/-- What `_ocl_loop` does behind its loop. -/
def exit (s : OclList) (p : ℕ) : Option OclList :=
  if p ∈ s.threads then do
    let heap ← s.heap.detach p
    let c ← heap.lookup p
    -- `*(ocl->head)` with the null pointer
    if c.data.data.head = false then none
    else
      some { s with
        heap := heap.erase p
        list := if s.list = some p then c.next else s.list
        threads := s.threads.erase p }
  else some s

/-- No result where a pointer is followed that there is no `ocl` behind. A step that is not there to be taken does
nothing. -/
def step (s : OclList) : OclOp → Option OclList
  | .add malloc bus => if s.starting = none then s.oclInit malloc bus else some s
  | .finish valid => s.finish valid
  | .exit p => s.exit p

def next (s : Option OclList) (op : OclOp) : Option OclList := s.bind (fun s => s.step op)

def Meets (s : OclList) : OclOp → Prop
  | .add _ bus => s.starting = none → ∀ p c, s.heap.lookup p = some c → bus ≤ c.data.data.bus
  | .finish valid => s.starting ≠ none → valid = true
  | .exit p => s.starting ≠ some p

/-- What holds besides of a list with these cells. -/
structure Holds (s : OclList) (cells : List (ℕ × OclNode)) : Prop where
  seg : ∃ last, s.heap.Seg none s.list cells last none
  addresses : (cells.map Prod.fst).Nodup
  all : ∀ p ∈ s.heap, p ∈ cells.map Prod.fst
  sorted : cells.Pairwise (fun c d => c.2.bus ≤ d.2.bus)
  heads : ∀ c ∈ cells, c.2.head = true ↔ s.starting ≠ some c.1
  threads : s.threads.Nodup ∧ ∀ p ∈ s.threads, p ∈ cells.map Prod.fst
  starting : ∀ p, s.starting = some p → p ∈ s.threads

theorem holds_start : start.Holds [] where
  seg := ⟨none, rfl, rfl⟩
  addresses := List.nodup_nil
  all := by
    intro p hp
    cases hp
  sorted := .nil
  heads := by
    intro c hc
    cases hc
  threads := ⟨List.nodup_nil, fun p hp => nomatch hp⟩
  starting := by
    intro p hp
    cases hp

section Steps

variable {s s' : OclList} {cells before after : List (ℕ × OclNode)} {p : ℕ} {x : OclNode} {bus : UInt8}

theorem Holds.findLink_front (h : s.Holds cells) (hbus : ∀ p c, s.heap.lookup p = some c → bus ≤ c.data.data.bus) :
    s.findLink bus s.heap.fuel .list = some .list := by
  obtain ⟨last, hseg⟩ := h.seg
  rw [Heap.fuel, findLink, load, Option.bind_eq_bind, Option.bind_some]
  cases cells with
  | nil =>
    rw [hseg.1]
  | cons c cells =>
    obtain ⟨hlist, link, hlookup, -⟩ := hseg
    rw [hlist]
    dsimp only
    rw [hlookup, Option.bind_eq_bind, Option.bind_some, if_neg]
    exact UInt8.not_lt.mpr (hbus c.1 _ hlookup)

theorem Holds.oclInit (malloc : Malloc) (h : s.Holds cells) (hstarting : s.starting = none)
    (hbus : ∀ p c, s.heap.lookup p = some c → bus ≤ c.data.data.bus) :
    ∃ s' cells', s.oclInit malloc bus = some s' ∧ s'.Holds cells' := by
  have hp := malloc.notMem_alloc s.heap
  obtain ⟨last, hseg⟩ := h.seg
  obtain ⟨heap, last', hset, hpush, hsame⟩ := hseg.push h.addresses hp ⟨bus, false⟩
  generalize hpdef : malloc.alloc s.heap.keys = p at hp hset hpush hsame
  have hpcells : p ∉ cells.map Prod.fst := fun hmem => hp (hseg.mem hmem)
  refine ⟨⟨heap, some p, some p, p :: s.threads⟩, (p, ⟨bus, false⟩) :: cells, ?_,
    ⟨last', hpush⟩, List.nodup_cons.mpr ⟨hpcells, h.addresses⟩, ?_, ?_, ?_, ⟨?_, ?_⟩, ?_⟩
  · rw [OclList.oclInit, h.findLink_front hbus, hpdef]
    dsimp only [Option.bind_eq_bind, Option.bind_some, load]
    rw [hset]
    rfl
  · intro q hq
    by_contra hqcells
    exact List.not_mem_of_not_mem_cons hqcells (h.all q (Heap.mem_of_lookup_eq (hsame q hqcells) hq))
  · refine List.pairwise_cons.mpr ⟨?_, h.sorted⟩
    intro c hc
    obtain ⟨m, n, hlookup⟩ := hseg.lookup hc
    exact hbus c.1 _ hlookup
  · intro c hc
    rcases List.mem_cons.mp hc with rfl | hmem
    · exact iff_of_false Bool.false_ne_true (fun hne => hne rfl)
    · have hne : c.1 ≠ p := by
        rintro rfl
        exact hpcells (List.mem_map_of_mem hmem)
      apply iff_of_true
      · rw [h.heads c hmem, hstarting]
        exact fun heq => nomatch heq
      · intro heq
        exact hne (Option.some.inj heq).symm
  · exact List.nodup_cons.mpr ⟨fun hmem => hpcells (h.threads.2 p hmem), h.threads.1⟩
  · intro q hq
    rcases List.mem_cons.mp hq with rfl | hq
    · exact List.mem_cons_self
    · exact List.mem_cons_of_mem _ (h.threads.2 q hq)
  · intro q hq
    obtain rfl := Option.some.inj hq
    exact List.mem_cons_self

theorem updateHeads_seg {heap : Heap (Back OclNode)} {prev head last : Option ℕ} {fuel : ℕ}
    (h : heap.Seg prev head cells last none) (hnodup : (cells.map Prod.fst).Nodup) (hfuel : cells.length < fuel) :
    ∃ heap', updateHeads fuel heap head = some heap' ∧
      heap'.Seg prev head (cells.map (fun c => (c.1, { c.2 with head := true }))) last none ∧
      ∀ a ∉ cells.map Prod.fst, heap'.lookup a = heap.lookup a := by
  induction cells generalizing heap prev head fuel with
  | nil =>
    obtain ⟨fuel, rfl⟩ := Nat.exists_eq_add_one_of_ne_zero (Nat.ne_zero_of_lt hfuel)
    obtain ⟨rfl, rfl⟩ := h
    exact ⟨heap, rfl, ⟨rfl, rfl⟩, fun _ _ => rfl⟩
  | cons c cells ih =>
    obtain ⟨fuel, rfl⟩ := Nat.exists_eq_add_one_of_ne_zero (Nat.ne_zero_of_lt hfuel)
    obtain ⟨rfl, link, hlookup, hrest⟩ := h
    obtain ⟨hc, hnodup⟩ := List.nodup_cons.mp hnodup
    obtain ⟨heap', hupdate, hseg, hsame⟩ :=
      ih (hrest.insert_other hc ⟨⟨{ c.2 with head := true }, prev⟩, link⟩) hnodup (Nat.lt_of_succ_lt_succ hfuel)
    refine ⟨heap', ?_, ⟨rfl, link, (hsame c.1 hc).trans (AList.lookup_insert heap), hseg⟩, ?_⟩
    · rw [updateHeads, hlookup]
      exact hupdate
    · intro a ha
      rw [List.map_cons, List.mem_cons, not_or] at ha
      exact (hsame a ha.2).trans (AList.lookup_insert_ne ha.1)

theorem Holds.finish (h : s.Holds cells) : ∃ s' cells', s.finish true = some s' ∧ s'.Holds cells' := by
  obtain ⟨last, hseg⟩ := h.seg
  cases hstarting : s.starting with
  | none => exact ⟨s, cells, by rw [OclList.finish, hstarting], h⟩
  | some p =>
    have hp : p ∈ s.heap := hseg.mem (h.threads.2 p (h.starting p hstarting))
    obtain ⟨c, hc⟩ := Option.isSome_iff_exists.mp (AList.lookup_isSome.mpr hp)
    obtain ⟨chain, hchain, hcells⟩ := hseg.chain
    have hfuel : cells.length < s.heap.fuel := by
      have haddresses := h.addresses
      rw [← hcells, List.map_map] at haddresses
      rw [← hcells, List.length_map]
      exact hchain.length_lt_fuel haddresses
    obtain ⟨heap', hupdate, hmarked, hsame⟩ := updateHeads_seg hseg h.addresses hfuel
    have hmap : (cells.map (fun c => (c.1, { c.2 with head := true }))).map Prod.fst = cells.map Prod.fst := by
      rw [List.map_map]
      rfl
    refine ⟨⟨heap', s.list, none, s.threads⟩, cells.map (fun c => (c.1, { c.2 with head := true })), ?_,
      ⟨last, hmarked⟩, ?_, ?_, ?_, ?_, ?_, fun _ hnone => nomatch hnone⟩
    · rw [OclList.finish, hstarting]
      dsimp only
      rw [hc, Option.bind_eq_bind, Option.bind_some, if_pos rfl, hupdate]
      rfl
    · rw [hmap]
      exact h.addresses
    · intro q hq
      rw [hmap]
      by_contra hqcells
      exact hqcells (h.all q (Heap.mem_of_lookup_eq (hsame q hqcells) hq))
    · rw [List.pairwise_map]
      exact h.sorted
    · intro c hc
      obtain ⟨d, -, rfl⟩ := List.mem_map.mp hc
      exact iff_of_true rfl (fun hnone => nomatch hnone)
    · rw [hmap]
      exact h.threads

theorem Holds.exit (h : s.Holds cells) (hstarting : s.starting ≠ some p) :
    ∃ s' cells', s.exit p = some s' ∧ s'.Holds cells' := by
  by_cases hp : p ∈ s.threads
  · obtain ⟨last, hseg⟩ := h.seg
    obtain ⟨⟨p, x⟩, hmem, rfl⟩ := List.mem_map.mp (h.threads.2 p hp)
    have hhead : x.head = true := (h.heads _ hmem).mpr hstarting
    obtain ⟨before, after, rfl⟩ := List.append_of_mem hmem
    obtain ⟨heap, last', m, n, hdetach, hlookup, hrest, hsame⟩ := hseg.detach h.addresses
    obtain ⟨hpothers, hothers⟩ := nodup_map_middle.mp h.addresses
    have hsub : (before ++ after).Sublist (before ++ (p, x) :: after) :=
      (List.Sublist.refl before).append (List.sublist_cons_self _ after)
    have hmemOther : ∀ q, q ≠ p → q ∈ (before ++ (p, x) :: after).map Prod.fst →
        q ∈ (before ++ after).map Prod.fst := by
      intro q hq hqmem
      rw [List.map_append, List.map_cons, List.mem_append, List.mem_cons] at hqmem
      rw [List.map_append, List.mem_append]
      exact hqmem.imp_right (fun hafter => hafter.resolve_left hq)
    refine ⟨⟨heap.erase p, if s.list = some p then n else s.list, s.starting, s.threads.erase p⟩, before ++ after,
      ?_, ⟨last', hrest.erase_other hpothers⟩, hothers, ?_, h.sorted.sublist hsub, fun c hc => h.heads c (hsub.subset hc), ⟨?_, ?_⟩, ?_⟩
    · rw [OclList.exit, if_pos hp, hdetach]
      dsimp only [Option.bind_eq_bind, Option.bind_some]
      rw [hlookup]
      dsimp only [Option.bind_some]
      rw [if_neg (by rw [hhead]; exact Bool.noConfusion)]
    · intro q hq
      obtain ⟨hqp, hqheap⟩ := AList.mem_erase.mp hq
      apply hmemOther q hqp
      by_contra hqcells
      exact hqcells (h.all q (Heap.mem_of_lookup_eq (hsame q hqcells) hqheap))
    · exact h.threads.1.erase p
    · intro q hq
      obtain ⟨hqp, hq⟩ := h.threads.1.mem_erase_iff.mp hq
      exact hmemOther q hqp (h.threads.2 q hq)
    · intro q hq
      rw [h.threads.1.mem_erase_iff]
      refine ⟨?_, h.starting q hq⟩
      rintro rfl
      exact hstarting hq
  · exact ⟨s, cells, if_neg hp, h⟩

theorem Holds.step (h : s.Holds cells) {op : OclOp} (hop : s.Meets op) :
    ∃ s' cells', s.step op = some s' ∧ s'.Holds cells' := by
  cases op with
  | add malloc bus =>
    by_cases hstarting : s.starting = none
    · obtain ⟨s', cells', hs', hholds⟩ := h.oclInit malloc hstarting (hop hstarting)
      exact ⟨s', cells', (if_pos hstarting).trans hs', hholds⟩
    · exact ⟨s, cells, if_neg hstarting, h⟩
  | finish valid =>
    by_cases hstarting : s.starting = none
    · exact ⟨s, cells, by rw [OclList.step, OclList.finish, hstarting], h⟩
    · rw [OclList.step, hop hstarting]
      exact h.finish
  | exit p => exact h.exit hop

end Steps

end OclList

end Ocse
