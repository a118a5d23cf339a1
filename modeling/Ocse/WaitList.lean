import Ocse.Lib.Keyed
import Ocse.Lib.LinkedList
import Ocse.Lib.Run
import Mathlib.Logic.Function.Basic

/-!
# Waiting for a wake

A thread in `ocxl_wait` holds on to the node of its id until a wake for the id has marked it. Whichever comes
first, the wait or the wake, puts the node into the list; the wait takes it out.
-/

namespace Ocse

structure WaitEvent where
  tid : UInt16
  enabled : Bool
  received : Bool
deriving DecidableEq, Repr

/-- `ocxl_wait_list` and its nodes, and the nodes that threads in `ocxl_wait` hold on to. -/
structure Waits where
  heap : Heap WaitEvent
  list : Option ℕ
  waiting : UInt16 → Option ℕ

/-- What a thread does at a time: a wake that is taken from ocse, the start of an `ocxl_wait`, a turn of its
loop, and its return when the delay fails. -/
inductive WaitOp
  | wake (malloc : Malloc) (addr : UInt64)
  | register (malloc : Malloc) (tid : UInt16)
  | poll (tid : UInt16)
  | giveUp (tid : UInt16)

namespace Waits

def start : Waits := ⟨∅, none, fun _ => none⟩

/-- No result where a pointer is followed that there is no node behind. -/
def allocWaitEvent (malloc : Malloc) (s : Waits) (tid : UInt16) : Option (ℕ × Waits) := do
  match ← s.heap.find (fun w => w.tid = tid) s.heap.fuel s.list with
  | some p => some (p, s)
  | none =>
    let p := malloc.alloc s.heap.keys
    some (p, { s with heap := s.heap.insert p ⟨⟨tid, false, false⟩, s.list⟩, list := some p })

def freeWaitEvent (s : Waits) (p : ℕ) : Option Waits :=
  match s.list with
  | none => some { s with heap := s.heap.erase p }
  | some first =>
    if first = p then do
      let freed ← s.heap.lookup p
      some { s with heap := s.heap.erase p, list := freed.next }
    else do
      let heap ← s.heap.unlink p s.heap.fuel s.list
      some { s with heap := heap }

/-- Write a node that is already there. -/
def update (s : Waits) (p : ℕ) (f : WaitEvent → WaitEvent) : Option Waits := do
  let c ← s.heap.lookup p
  some { s with heap := s.heap.insert p { c with data := f c.data } }

def handleWakeHostThread (malloc : Malloc) (s : Waits) (addr : UInt64) : Option Waits := do
  let (p, s) ← s.allocWaitEvent malloc addr.toUInt16
  s.update p (fun w => { w with received := true })

def register (malloc : Malloc) (s : Waits) (tid : UInt16) : Option Waits := do
  let (p, s) ← s.allocWaitEvent malloc tid
  let s ← s.update p (fun w => { w with enabled := true })
  some { s with waiting := Function.update s.waiting tid (some p) }

/-- With whether the call returns. -/
def poll (s : Waits) (tid : UInt16) : Option (Waits × Bool) := do
  let p ← s.waiting tid
  let c ← s.heap.lookup p
  if c.data.received = false then some (s, false)
  else
    let s ← s.update p (fun w => { w with enabled := false, received := false })
    let s ← s.freeWaitEvent p
    some ({ s with waiting := Function.update s.waiting tid none }, true)

def step (s : Waits) : WaitOp → Option (Waits × Bool)
  | .wake malloc addr => (s.handleWakeHostThread malloc addr).map (fun s => (s, false))
  | .register malloc tid => (s.register malloc tid).map (fun s => (s, false))
  | .poll tid => s.poll tid
  | .giveUp tid => some ({ s with waiting := Function.update s.waiting tid none }, false)

/-- Of one id at most one thread waits. -/
def Allowed (s : Waits) : WaitOp → Prop
  | .wake _ _ => True
  | .register _ tid => s.waiting tid = none
  | .poll tid => s.waiting tid ≠ none
  | .giveUp tid => s.waiting tid ≠ none

/-- The states that are reached, with the steps that were taken. -/
inductive Reaches : Waits → List (WaitOp × Bool) → Prop
  | start : Reaches start []
  | step {s s' : Waits} {done : List (WaitOp × Bool)} {op : WaitOp} {returns : Bool} :
      Reaches s done → s.Allowed op → s.step op = some (s', returns) → Reaches s' (done ++ [(op, returns)])

/-- There was a wake for the id, and no wait of the id has completed since. -/
def WokenSince (tid : UInt16) (done : List (WaitOp × Bool)) : Prop :=
  ∃ before malloc addr returns after, done = before ++ (.wake malloc addr, returns) :: after ∧
    addr.toUInt16 = tid ∧ (.poll tid, true) ∉ after

/-- What wakes and waits may rely on after the steps `done`. -/
structure Matched (s : Waits) (done : List (WaitOp × Bool)) : Prop where
  runs : ∀ op, s.Allowed op → s.step op ≠ none
  oneNode : ∃ nodes, s.heap.Chain s.list nodes ∧ (nodes.map (fun c => c.2.tid)).Nodup
  completes : ∀ tid, s.waiting tid ≠ none → WokenSince tid done →
    ∃ s' before node after, s.poll tid = some (s', true) ∧ s'.waiting tid = none ∧ node.2.tid = tid ∧
      s.heap.Chain s.list (before ++ node :: after) ∧ s'.heap.Chain s'.list (before ++ after)
  blocks : ∀ tid, s.waiting tid ≠ none → ¬ WokenSince tid done → s.poll tid = some (s, false)

/-! ## Wakes that were not used up -/

theorem not_wokenSince_nil (tid : UInt16) : ¬ WokenSince tid [] := by
  rintro ⟨before, malloc, addr, returns, after, h, -⟩
  exact absurd h.symm (List.append_ne_nil_of_right_ne_nil before (List.cons_ne_nil _ after))

theorem wokenSince_append (tid : UInt16) (done : List (WaitOp × Bool)) (op : WaitOp) (returns : Bool) :
    WokenSince tid (done ++ [(op, returns)]) ↔
      (∃ malloc addr, op = .wake malloc addr ∧ addr.toUInt16 = tid) ∨
        WokenSince tid done ∧ (op, returns) ≠ (.poll tid, true) := by
  constructor
  · rintro ⟨before, malloc, addr, returns', after, h, htid, hafter⟩
    rcases concat_eq_append_cons_iff.mp h with ⟨rfl, hlast, rfl⟩ | ⟨after, rfl, rfl⟩
    · obtain ⟨rfl, -⟩ := Prod.mk.inj hlast
      exact .inl ⟨malloc, addr, rfl, htid⟩
    · rw [List.mem_append, not_or, List.mem_singleton] at hafter
      exact .inr ⟨⟨before, malloc, addr, returns', after, rfl, htid, hafter.1⟩, Ne.symm hafter.2⟩
  · rintro (⟨malloc, addr, rfl, htid⟩ | ⟨⟨before, malloc, addr, returns', after, rfl, htid, hafter⟩, hne⟩)
    · exact ⟨done, malloc, addr, returns, [], rfl, htid, List.not_mem_nil⟩
    · refine ⟨before, malloc, addr, returns', after ++ [(op, returns)], ?_, htid, ?_⟩
      · rw [List.append_assoc, List.cons_append]
      · rw [List.mem_append, not_or, List.mem_singleton]
        exact ⟨hafter, Ne.symm hne⟩

/-! ## The nodes -/

/-- The list has these nodes, of different ids, and each thread that waits holds on to the node of its id. -/
structure Lists (s : Waits) (nodes : List (ℕ × WaitEvent)) : Prop where
  chain : s.heap.Chain s.list nodes
  addresses : (nodes.map Prod.fst).Nodup
  tids : (nodes.map (fun c => c.2.tid)).Nodup
  waiting : ∀ tid p, s.waiting tid = some p → ∃ w, (p, w) ∈ nodes ∧ w.tid = tid

/-- A node of the id is marked. -/
def Signalled (nodes : List (ℕ × WaitEvent)) (tid : UInt16) : Prop :=
  ∃ c ∈ nodes, c.2.tid = tid ∧ c.2.received = true

section Nodes

variable {s s' : Waits} {nodes before after : List (ℕ × WaitEvent)} {p : ℕ} {w w' : WaitEvent} {tid : UInt16}

theorem signalled_middle : Signalled (before ++ (p, w) :: after) tid ↔
    (w.tid = tid ∧ w.received = true) ∨ Signalled (before ++ after) tid := by
  simp only [Signalled, List.mem_append, List.mem_cons]
  constructor
  · rintro ⟨c, hc | rfl | hc, h⟩
    · exact .inr ⟨c, .inl hc, h⟩
    · exact .inl h
    · exact .inr ⟨c, .inr hc, h⟩
  · rintro (h | ⟨c, hc | hc, h⟩)
    · exact ⟨(p, w), .inr (.inl rfl), h⟩
    · exact ⟨c, .inl hc, h⟩
    · exact ⟨c, .inr (.inr hc), h⟩

theorem Lists.not_signalled_others (h : s.Lists (before ++ (p, w) :: after)) :
    ¬ Signalled (before ++ after) w.tid := by
  rintro ⟨c, hc, htid, -⟩
  exact (nodup_map_middle.mp h.tids).1 (List.mem_map.mpr ⟨c, hc, htid⟩)

/-- A node may be written, but for its id. -/
theorem Lists.update (h : s.Lists (before ++ (p, w) :: after)) (f : WaitEvent → WaitEvent)
    (hf : (f w).tid = w.tid) :
    ∃ s', s.update p f = some s' ∧ s'.Lists (before ++ (p, f w) :: after) ∧ s'.waiting = s.waiting := by
  obtain ⟨next, hlookup⟩ := h.chain.lookup (p := p) (x := w) (by simp)
  refine ⟨{ s with heap := s.heap.insert p ⟨f w, next⟩ }, ?_, ⟨?_, ?_, ?_, ?_⟩, rfl⟩
  · rw [Waits.update, hlookup]
    rfl
  · exact h.chain.set_data h.addresses hlookup (f w)
  · have haddresses := h.addresses
    rwa [List.map_append, List.map_cons] at haddresses ⊢
  · have htids := h.tids
    rw [List.map_append, List.map_cons, ← hf] at htids
    rwa [List.map_append, List.map_cons]
  · intro tid q hq
    obtain ⟨w', hmem, htid⟩ := h.waiting tid q hq
    rw [List.mem_append, List.mem_cons] at hmem
    rcases hmem with hmem | hmem | hmem
    · exact ⟨w', List.mem_append_left _ hmem, htid⟩
    · obtain ⟨rfl, rfl⟩ := Prod.mk.inj hmem
      exact ⟨f w', by simp, hf.trans htid⟩
    · exact ⟨w', List.mem_append_right _ (List.mem_cons_of_mem _ hmem), htid⟩

/-- The node of an id is found, or a new one is put before the others. -/
theorem Lists.alloc (malloc : Malloc) (h : s.Lists nodes) (tid : UInt16) :
    ∃ p s' before w after, s.allocWaitEvent malloc tid = some (p, s') ∧
      s'.Lists (before ++ (p, w) :: after) ∧ w.tid = tid ∧ s'.waiting = s.waiting ∧
      ∀ tid', Signalled (before ++ (p, w) :: after) tid' ↔ Signalled nodes tid' := by
  have hfind := h.chain.find (fun w => w.tid = tid) (h.chain.length_lt_fuel h.addresses)
  cases hnode : nodes.find? (fun c => decide (c.2.tid = tid)) with
  | some c =>
    obtain ⟨p, w⟩ := c
    have htid : w.tid = tid := by simpa using List.find?_some hnode
    obtain ⟨before, after, rfl⟩ := List.append_of_mem (List.mem_of_find?_eq_some hnode)
    refine ⟨p, s, before, w, after, ?_, h, htid, rfl, fun _ => Iff.rfl⟩
    rw [allocWaitEvent, hfind, hnode]
    rfl
  | none =>
    have hp := malloc.notMem_alloc s.heap
    rw [List.find?_eq_none] at hnode
    refine ⟨malloc.alloc s.heap.keys, { s with
      heap := s.heap.insert (malloc.alloc s.heap.keys) ⟨⟨tid, false, false⟩, s.list⟩
      list := some (malloc.alloc s.heap.keys) }, [], ⟨tid, false, false⟩, nodes, ?_, ⟨?_, ?_, ?_, ?_⟩, rfl, rfl, ?_⟩
    · rw [allocWaitEvent, hfind, List.find?_eq_none.mpr hnode]
      rfl
    · exact h.chain.insert_head hp
    · refine List.nodup_cons.mpr ⟨?_, h.addresses⟩
      intro hmem
      exact hp (h.chain.mem hmem)
    · refine List.nodup_cons.mpr ⟨?_, h.tids⟩
      intro hmem
      obtain ⟨c, hc, htid⟩ := List.mem_map.mp hmem
      exact hnode c hc (decide_eq_true htid)
    · intro tid' q hq
      obtain ⟨w, hmem, htid⟩ := h.waiting tid' q hq
      exact ⟨w, List.mem_cons_of_mem _ hmem, htid⟩
    · intro tid'
      rw [signalled_middle]
      exact or_iff_right (fun hnew => Bool.false_ne_true hnew.2)

/-- A node is taken out, at the head or behind another. -/
theorem Lists.free (h : s.Lists (before ++ (p, w) :: after)) :
    ∃ s', s.freeWaitEvent p = some s' ∧ s'.heap.Chain s'.list (before ++ after) ∧ s'.waiting = s.waiting := by
  obtain ⟨next, hlookup⟩ := h.chain.lookup (p := p) (x := w) (by simp)
  rcases List.eq_nil_or_concat' before with rfl | ⟨before, ⟨q, y⟩, rfl⟩
  · have hlist : s.list = some p := h.chain.1
    refine ⟨{ s with heap := s.heap.erase p, list := next }, ?_, h.chain.erase_head h.addresses hlookup, rfl⟩
    rw [freeWaitEvent, hlist]
    dsimp only
    rw [if_pos rfl, hlookup]
    rfl
  · have hchain := h.chain
    have haddresses := h.addresses
    have hlength := h.chain.length_lt_fuel h.addresses
    rw [List.append_assoc, List.singleton_append] at hchain haddresses hlength ⊢
    have hfuel : before.length < s.heap.fuel := by
      rw [List.length_append] at hlength
      omega
    have hunlink := hchain.unlink_eq haddresses hlookup hfuel
    refine ⟨{ s with heap := (s.heap.insert q ⟨y, next⟩).erase p }, ?_, hchain.unlink haddresses hlookup, rfl⟩
    have hne : s.list ≠ some p := by
      cases before with
      | nil => exact hchain.head_ne haddresses List.mem_cons_self
      | cons c before =>
        apply hchain.head_ne haddresses
        exact List.mem_map_of_mem
          (List.mem_append_right before (List.mem_cons_of_mem (q, y) List.mem_cons_self))
    rw [freeWaitEvent]
    cases hlist : s.list with
    | none =>
      rw [hlist] at hchain
      cases before with
      | nil => cases hchain.1
      | cons c before => cases hchain.1
    | some first =>
      rw [hlist] at hunlink
      dsimp only
      rw [if_neg (fun hfirst => hne (hlist.trans (congrArg some hfirst))), hunlink]
      rfl

theorem Lists.setWaiting (h : s.Lists nodes) {waiting : UInt16 → Option ℕ}
    (hwaiting : ∀ tid p, waiting tid = some p → ∃ w, (p, w) ∈ nodes ∧ w.tid = tid) :
    Lists { s with waiting := waiting } nodes :=
  ⟨h.chain, h.addresses, h.tids, hwaiting⟩

/-! ## The steps -/

theorem Lists.wake (malloc : Malloc) (h : s.Lists nodes) (addr : UInt64) :
    ∃ s' nodes', s.handleWakeHostThread malloc addr = some s' ∧ s'.Lists nodes' ∧
      ∀ tid, Signalled nodes' tid ↔ addr.toUInt16 = tid ∨ Signalled nodes tid := by
  obtain ⟨p, s₁, before, w, after, halloc, h₁, htid, -, hsame⟩ := h.alloc malloc addr.toUInt16
  obtain ⟨s', hupdate, h', -⟩ := h₁.update (fun w => { w with received := true }) rfl
  refine ⟨s', _, ?_, h', ?_⟩
  · rw [handleWakeHostThread, halloc]
    exact hupdate
  · intro tid
    rw [← hsame tid, signalled_middle, signalled_middle, ← htid]
    constructor
    · rintro (⟨htid, -⟩ | hothers)
      · exact .inl htid
      · exact .inr (.inr hothers)
    · rintro (htid | ⟨htid, -⟩ | hothers)
      · exact .inl ⟨htid, rfl⟩
      · exact .inl ⟨htid, rfl⟩
      · exact .inr hothers

theorem Lists.register (malloc : Malloc) (h : s.Lists nodes) (tid : UInt16) :
    ∃ s' nodes', s.register malloc tid = some s' ∧ s'.Lists nodes' ∧
      ∀ tid', Signalled nodes' tid' ↔ Signalled nodes tid' := by
  obtain ⟨p, s₁, before, w, after, halloc, h₁, htid, -, hsame⟩ := h.alloc malloc tid
  obtain ⟨s₂, hupdate, h₂, -⟩ := h₁.update (fun w => { w with enabled := true }) rfl
  refine ⟨{ s₂ with waiting := Function.update s₂.waiting tid (some p) }, _, ?_, h₂.setWaiting ?_, ?_⟩
  · rw [Waits.register, halloc]
    dsimp only [Option.bind_eq_bind, Option.bind_some]
    rw [hupdate]
    rfl
  · intro tid' q hq
    rcases update_eq_some_iff.mp hq with ⟨rfl, ⟨⟩⟩ | ⟨-, hq⟩
    · exact ⟨_, List.mem_append_right _ List.mem_cons_self, htid⟩
    · exact h₂.waiting tid' q hq
  · intro tid'
    rw [← hsame tid', signalled_middle, signalled_middle]

theorem Lists.giveUp (h : s.Lists nodes) (tid : UInt16) :
    Lists { s with waiting := Function.update s.waiting tid none } nodes := by
  apply h.setWaiting
  intro tid' q hq
  rcases update_eq_some_iff.mp hq with ⟨-, ⟨⟩⟩ | ⟨-, hq⟩
  exact h.waiting tid' q hq

theorem Lists.signalled_iff_received (h : s.Lists (before ++ (p, w) :: after)) :
    Signalled (before ++ (p, w) :: after) w.tid ↔ w.received = true := by
  rw [signalled_middle, or_iff_left h.not_signalled_others, and_iff_right rfl]

/-- A wait whose node is not marked goes on. -/
theorem Lists.blocks (h : s.Lists nodes) (hwaiting : s.waiting tid ≠ none) (hnot : ¬ Signalled nodes tid) :
    s.poll tid = some (s, false) := by
  obtain ⟨p, hp⟩ := Option.ne_none_iff_exists'.mp hwaiting
  obtain ⟨w, hmem, rfl⟩ := h.waiting tid p hp
  obtain ⟨next, hlookup⟩ := h.chain.lookup hmem
  obtain ⟨before, after, rfl⟩ := List.append_of_mem hmem
  rw [h.signalled_iff_received, Bool.not_eq_true] at hnot
  rw [Waits.poll, hp]
  dsimp only [Option.bind_eq_bind, Option.bind_some]
  rw [hlookup]
  dsimp only [Option.bind_some]
  rw [if_pos hnot]

/-- A wait whose node is marked takes it out of the list and is over. -/
theorem Lists.completes (h : s.Lists nodes) (hwaiting : s.waiting tid ≠ none) (hsignalled : Signalled nodes tid) :
    ∃ s' before node after, s.poll tid = some (s', true) ∧ s'.waiting tid = none ∧ node.2.tid = tid ∧
      nodes = before ++ node :: after ∧ s'.Lists (before ++ after) := by
  obtain ⟨p, hp⟩ := Option.ne_none_iff_exists'.mp hwaiting
  obtain ⟨w, hmem, rfl⟩ := h.waiting tid p hp
  obtain ⟨next, hlookup⟩ := h.chain.lookup hmem
  obtain ⟨before, after, rfl⟩ := List.append_of_mem hmem
  have hreceived := h.signalled_iff_received.mp hsignalled
  obtain ⟨s₁, hupdate, h₁, hwaiting₁⟩ := h.update (fun w => { w with enabled := false, received := false }) rfl
  obtain ⟨s₂, hfree, hchain₂, hwaiting₂⟩ := h₁.free
  refine ⟨{ s₂ with waiting := Function.update s₂.waiting w.tid none }, before, (p, w), after, ?_,
    Function.update_self .., rfl, rfl, ⟨hchain₂, ?_, ?_, ?_⟩⟩
  · rw [Waits.poll, hp]
    dsimp only [Option.bind_eq_bind, Option.bind_some]
    rw [hlookup]
    dsimp only [Option.bind_some]
    rw [hreceived, if_neg Bool.true_eq_false.mp, hupdate]
    dsimp only [Option.bind_some]
    rw [hfree]
    rfl
  · exact (nodup_map_middle.mp h.addresses).2
  · exact (nodup_map_middle.mp h.tids).2
  · intro tid q hq
    rcases update_eq_some_iff.mp hq with ⟨-, ⟨⟩⟩ | ⟨htid, hq⟩
    rw [hwaiting₂, hwaiting₁] at hq
    obtain ⟨w', hmem', rfl⟩ := h.waiting tid q hq
    rw [List.mem_append, List.mem_cons] at hmem'
    rcases hmem' with hmem' | heq | hmem'
    · exact ⟨w', List.mem_append_left _ hmem', rfl⟩
    · exact absurd (congrArg WaitEvent.tid (Prod.mk.inj heq).2) htid
    · exact ⟨w', List.mem_append_right _ hmem', rfl⟩

end Nodes

/-! ## Runs -/

/-- The marked nodes are those of the ids with a wake that is not used up. -/
def Holds (s : Waits) (done : List (WaitOp × Bool)) : Prop :=
  ∃ nodes, s.Lists nodes ∧ ∀ tid, Signalled nodes tid ↔ WokenSince tid done

variable {s s' : Waits} {done : List (WaitOp × Bool)}

theorem holds_start : Holds start [] := by
  refine ⟨[], ⟨rfl, List.nodup_nil, List.nodup_nil, ?_⟩, ?_⟩
  · intro tid p h
    cases h
  · intro tid
    apply iff_of_false _ (not_wokenSince_nil tid)
    rintro ⟨c, hc, -⟩
    cases hc

theorem Holds.step (h : s.Holds done) (op : WaitOp) (hallowed : s.Allowed op) :
    ∃ s' returns, s.step op = some (s', returns) ∧ s'.Holds (done ++ [(op, returns)]) := by
  obtain ⟨nodes, hlists, hsignalled⟩ := h
  cases op with
  | wake malloc addr =>
    obtain ⟨s', nodes', hstep, hlists', hsignalled'⟩ := hlists.wake malloc addr
    refine ⟨s', false, by rw [Waits.step, hstep]; rfl, nodes', hlists', ?_⟩
    intro tid
    rw [hsignalled', hsignalled, wokenSince_append]
    constructor
    · rintro (htid | hwoken)
      · exact .inl ⟨malloc, addr, rfl, htid⟩
      · exact .inr ⟨hwoken, fun heq => nomatch heq⟩
    · rintro (⟨malloc', addr', hop, htid⟩ | ⟨hwoken, -⟩)
      · obtain ⟨rfl, rfl⟩ := WaitOp.wake.inj hop
        exact .inl htid
      · exact .inr hwoken
  | register malloc tid =>
    obtain ⟨s', nodes', hstep, hlists', hsignalled'⟩ := hlists.register malloc tid
    refine ⟨s', false, by rw [Waits.step, hstep]; rfl, nodes', hlists', ?_⟩
    intro tid'
    rw [hsignalled', hsignalled, wokenSince_append]
    simp
  | giveUp tid =>
    refine ⟨_, false, rfl, nodes, hlists.giveUp tid, ?_⟩
    intro tid'
    rw [hsignalled, wokenSince_append]
    simp
  | poll tid =>
    by_cases hmarked : Signalled nodes tid
    · obtain ⟨s', before, node, after, hpoll, -, rfl, rfl, hlists'⟩ := hlists.completes hallowed hmarked
      refine ⟨s', true, hpoll, before ++ after, hlists', ?_⟩
      intro tid'
      rw [wokenSince_append, ← hsignalled, signalled_middle]
      constructor
      · intro hothers
        refine .inr ⟨.inr hothers, ?_⟩
        intro heq
        obtain rfl : node.2.tid = tid' := WaitOp.poll.inj (Prod.mk.inj heq).1
        exact hlists.not_signalled_others hothers
      · rintro (⟨malloc, addr, hop, -⟩ | ⟨⟨htid, -⟩ | hothers, hne⟩)
        · cases hop
        · exact absurd (by rw [htid]) hne
        · exact hothers
    · refine ⟨s, false, hlists.blocks hallowed hmarked, nodes, hlists, ?_⟩
      intro tid'
      rw [hsignalled, wokenSince_append]
      simp

theorem Reaches.holds (h : Reaches s done) : s.Holds done := by
  induction h with
  | start => exact holds_start
  | step _ hallowed hstep ih =>
    obtain ⟨s', returns, hstep', hholds⟩ := ih.step _ hallowed
    obtain ⟨rfl, rfl⟩ := Prod.mk.inj (Option.some.inj (hstep'.symm.trans hstep))
    exact hholds

/-- In every order of wakes and waits a wake lets one wait of its id complete, before or during the wait, and a
wait completes by a wake only. -/
theorem Reaches.matched (h : Reaches s done) : s.Matched done := by
  obtain ⟨nodes, hlists, hsignalled⟩ := h.holds
  refine ⟨?_, ⟨nodes, hlists.chain, hlists.tids⟩, ?_, ?_⟩
  · intro op hallowed hnone
    obtain ⟨s', returns, hstep, -⟩ := h.holds.step op hallowed
    rw [hnone] at hstep
    cases hstep
  · intro tid hwaiting hwoken
    obtain ⟨s', before, node, after, hpoll, hfree, htid, rfl, hlists'⟩ :=
      hlists.completes hwaiting ((hsignalled tid).mpr hwoken)
    exact ⟨s', before, node, after, hpoll, hfree, htid, hlists.chain, hlists'.chain⟩
  · intro tid hwaiting hnot
    exact hlists.blocks hwaiting (fun hmarked => hnot ((hsignalled tid).mp hmarked))

/-- The wake comes first and the wait completes by it. -/
theorem matched_wake_register :
    ∃ s, Reaches s [(.wake .above 5, false), (.register .above 5, false)] ∧
      s.Matched [(.wake .above 5, false), (.register .above 5, false)] ∧ (s.poll 5).map Prod.snd = some true := by
  have hwake : Reaches _ ([] ++ [(.wake .above 5, false)]) := .step .start trivial rfl
  have hregister : Reaches _ ([] ++ [(.wake .above 5, false)] ++ [(.register .above 5, false)]) := .step hwake rfl rfl
  exact ⟨_, hregister, hregister.matched, rfl⟩

end Waits

end Ocse
