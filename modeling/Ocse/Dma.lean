import Ocse.Lib.History
import Ocse.Traffic

/-!
# The memory path as one system

The command engine, the processes of its clients and the sockets between them, with the bytes that are on
their way. A step is one of the engine, the engine taking an answer off a socket, a client serving the next
message on its socket, or an application that stores to its own memory. The history keeps the order in which
the memories were used. Sockets deliver every byte in order, and a message is taken when it is there whole.
-/

namespace Ocse

/-! ## The memories -/

/-- A use of a client's memory: a request of ocse that is served, or a store of the application itself. -/
inductive MemOp
  | request (client : ℕ) (e : CmdEvent) (written : Bool) (stale : ∀ n, Stale n)
  | store (client addr : ℕ) (data : List UInt8)

namespace MemOp

/-- What a use does to the processes, and the reply that it sends. -/
def apply : MemOp → (ℕ → PslClient) → (ℕ → PslClient) × List UInt8
  | .request k e written stale, p =>
      (Function.update p k ((p k).serve written stale e.request).1, ((p k).serve written stale e.request).2)
  | .store k addr data, p =>
      (Function.update p k { p k with memory := (p k).memory.write addr data }, [])

def eventId : MemOp → Option ℕ
  | .request _ e _ _ => some e.id
  | .store _ _ _ => none

end MemOp

def PslRequest.isMemory : PslRequest → Bool
  | .read _ _ | .write _ _ _ | .writeBe _ _ _ _ | .dmo _ _ _ _ _ _ _ => true
  | _ => false

/-- The event that a client has been asked about. -/
def Ocl.askedOf (s : Ocl) (k : ℕ) : Option CmdEvent :=
  s.list.find? (fun e => (s.client e.context).any (fun c => c.id = k && c.memAccess = some e.id))

/-! ## The system -/

structure Dma where
  ocl : Ocl
  process : ℕ → PslClient
  down : ℕ → List UInt8
  up : ℕ → List UInt8
  history : List (MemOp × List UInt8)

inductive DmaOp
  | engine (a : Action)
  | answer (i : ℕ)
  | serve (k : ℕ) (written : Bool) (stale : ∀ n, Stale n)
  | store (k addr : ℕ) (data : List UInt8)

namespace Dma

/-- What `_handle_client` finds on the socket of the client in a slot: an answer to the event that the client has
been asked about. -/
def reply (x : Dma) (i : ℕ) : Option (ℕ × ClientInput × List UInt8) := do
  let c ← x.ocl.client i
  let e ← x.ocl.memAccess c
  let (input, rest) ← e.takeAnswer (x.up c.id)
  return (c.id, input, rest)

def step (x : Dma) : DmaOp → Dma
  | .engine a => { x with ocl := x.ocl.step a, down := fun k => x.down k ++ sentTo k (x.ocl.news a) }
  | .answer i =>
      if x.ocl.halted then x
      else match x.reply i with
        | none => x
        | some (k, input, rest) => { x with ocl := x.ocl.step (.client i input), up := Function.update x.up k rest }
  | .serve k written stale =>
      match pslRequest (x.down k) with
      | none => x
      | some (request, rest) =>
        let (p, reply) := (x.process k).serve written stale request
        { x with
          process := Function.update x.process k p
          down := Function.update x.down k rest
          up := Function.update x.up k (x.up k ++ reply)
          history := x.history ++ (if request.isMemory then
            ((x.ocl.askedOf k).map (fun e => (MemOp.request k e written stale, reply))).toList else []) }
  | .store k addr data =>
      { x with
        process := Function.update x.process k { x.process k with memory := (x.process k).memory.write addr data }
        history := x.history ++ [(.store k addr data, [])] }

def run (x : Dma) (ops : List DmaOp) : Dma := ops.foldl step x

/-- The engine without clients, and processes that nobody has asked for anything. -/
def init (parms : Parms) (maxClients : ℕ) (afuEvent : AfuEvent) (process : ℕ → PslClient) : Dma where
  ocl := Ocl.init parms maxClients afuEvent
  process := process
  down := fun _ => []
  up := fun _ => []
  history := []

/-- The steps of a system in which nobody departs and every memory request gets an answer. -/
def Meets (x : Dma) (op : DmaOp) : Prop :=
  (x.step op).ocl.AllValid ∧ match op with
  | .engine a => a.isReply = false ∧ x.ocl.OffersShort
  | .serve k written _ => ∀ request rest, pslRequest (x.down k) = some (request, rest) → request.isMemory = true →
      ∀ e, x.ocl.askedOf k = some e → RequestAnswered (x.process k) written e
  | _ => True

/-- The events whose requests have been served, in order. -/
def servedIds (x : Dma) : List ℕ := x.history.filterMap (fun op => op.1.eventId)

/-- The client has served the request of the event with this reply. -/
def ServedAs (x : Dma) (k : ℕ) (e : CmdEvent) (reply : List UInt8) : Prop :=
  ∃ written stale, (MemOp.request k e written stale, reply) ∈ x.history

end Dma

/-! ## The invariant -/

/-- The memory requests among the messages on a socket. -/
def requestsIn (queue : List CmdEvent) : List CmdEvent := queue.filter (fun q => q.type.isMemory)

namespace Dma

/-- Where the one request of a client is: nowhere, on its way to the client, or answered. -/
inductive Handed (x : Dma) (c : Client) (queue : List CmdEvent) : Prop
  | nothing (hmem : c.memAccess = none) (hqueue : requestsIn queue = []) (hup : x.up c.id = [])
  | asked (e : CmdEvent) (he : e ∈ x.ocl.list) (hmem : c.memAccess = some e.id) (hqueue : requestsIn queue = [e])
      (hup : x.up c.id = []) (hnew : e.id ∉ x.servedIds)
  | answered (e : CmdEvent) (he : e ∈ x.ocl.list) (hmem : c.memAccess = some e.id) (hqueue : requestsIn queue = [])
      (haccepted : e.Accepted) (hframed : Framed e (x.up c.id)) (hserved : x.ServedAs c.id e (x.up c.id))

/-- The bytes on a client's sockets are whole messages, and its request is among them or answered. -/
def Wired (x : Dma) (c : Client) : Prop :=
  ∃ queue : List CmdEvent, (∀ q ∈ queue, q.Accepted) ∧ x.down c.id = queue.flatMap CmdEvent.clientMessage ∧
    x.Handed c queue

/-- A concluded event holds what its client answered when it served the request. -/
structure Outcome (x : Dma) (e : CmdEvent) (k : ℕ) (e₀ : CmdEvent) (data : List UInt8) : Prop where
  served : x.ServedAs k e₀ (ocseMemSuccess :: data)
  accepted : e₀.Accepted
  client : ∃ c, x.ocl.client e.context = some c ∧ c.id = k
  deal : ({ e₀ with data := e₀.data.write e₀.offset data } : CmdEvent).SameDeal e

structure Inv (start : ℕ → PslClient) (x : Dma) : Prop where
  wf : x.ocl.Wf
  valid : x.ocl.AllValid
  out : Outstanding x.ocl
  sane : ∀ e ∈ x.ocl.list, e.Sane
  distinct : ∀ i j c d, x.ocl.client i = some c → x.ocl.client j = some d → c.id = d.id → i = j
  unused : ∀ k, (∀ i c, x.ocl.client i = some c → c.id ≠ k) → x.down k = [] ∧ x.up k = []
  wired : ∀ i c, x.ocl.client i = some c → x.Wired c
  once : x.servedIds.Nodup
  past : ∀ id ∈ x.servedIds, id < x.ocl.nextId
  served : ∀ e ∈ x.ocl.list, e.id ∈ x.servedIds →
    e.state = .done ∨ ∃ c, x.ocl.client e.context = some c ∧ c.memAccess = some e.id
  outcome : ∀ e ∈ x.ocl.list, e.Concluded → ∃ k e₀ data, x.Outcome e k e₀ data
  legal : Legal MemOp.apply start x.history x.process

section Moves

variable {x x' : Dma} {c c' : Client} {queue queue' : List CmdEvent} {e e' : CmdEvent} {k : ℕ}
  {start : ℕ → PslClient}

theorem ServedAs.mono {reply : List UInt8} (h : x.ServedAs k e reply) (hsub : x.history ⊆ x'.history) :
    x'.ServedAs k e reply := by
  obtain ⟨written, stale, hmem⟩ := h
  exact ⟨written, stale, hsub hmem⟩

/-- The client still waits for the same event, and nothing came or went on the way up. -/
theorem Handed.move (h : x.Handed c queue) (hsub : x.history ⊆ x'.history)
    (hnew : ∀ e ∈ x.ocl.list, c.memAccess = some e.id → e.id ∉ x.servedIds → e.id ∉ x'.servedIds)
    (hid : c'.id = c.id) (hmem' : c'.memAccess = c.memAccess) (hup' : x'.up c.id = x.up c.id)
    (hlist : ∀ e ∈ x.ocl.list, c.memAccess = some e.id → e ∈ x'.ocl.list)
    (hqueue' : requestsIn queue' = requestsIn queue) : x'.Handed c' queue' := by
  cases h with
  | nothing hmem hqueue hup =>
    refine .nothing (hmem'.trans hmem) (hqueue'.trans hqueue) ?_
    rw [hid, hup', hup]
  | asked e he hmem hqueue hup hopen =>
    refine .asked e (hlist e he hmem) (hmem'.trans hmem) (hqueue'.trans hqueue) ?_ (hnew e he hmem hopen)
    rw [hid, hup', hup]
  | answered e he hmem hqueue haccepted hframed hserved =>
    refine .answered e (hlist e he hmem) (hmem'.trans hmem) (hqueue'.trans hqueue) haccepted ?_ ?_
    · rw [hid, hup']
      exact hframed
    · rw [hid, hup']
      exact hserved.mono hsub

theorem Outcome.move {e₀ : CmdEvent} {data : List UInt8} (h : x.Outcome e k e₀ data) (hsub : x.history ⊆ x'.history)
    (hdeal : e.SameDeal e')
    (hclient : ∀ c, x.ocl.client e.context = some c → ∃ c', x'.ocl.client e.context = some c' ∧ c'.id = c.id) :
    x'.Outcome e' k e₀ data where
  served := h.served.mono hsub
  accepted := h.accepted
  client := by
    obtain ⟨c, hc, rfl⟩ := h.client
    rw [hdeal.context]
    exact hclient c hc
  deal := h.deal.trans hdeal

theorem requestsIn_append (q q' : List CmdEvent) : requestsIn (q ++ q') = requestsIn q ++ requestsIn q' :=
  List.filter_append ..

theorem requestsIn_cons (q : CmdEvent) (qs : List CmdEvent) :
    requestsIn (q :: qs) = if q.type.isMemory then q :: requestsIn qs else requestsIn qs :=
  List.filter_cons

theorem requestsIn_of_interrupts (h : ∀ q ∈ queue, q.type.isInterrupt = true ∧ q.Accepted) : requestsIn queue = [] := by
  unfold requestsIn
  rw [List.filter_eq_nil_iff]
  intro q hq
  obtain ⟨hint, haccepted⟩ := h q hq
  rw [haccepted.memory, hint]
  exact Bool.noConfusion

end Moves

/-! ## The engine's steps -/

section Engine

variable {x : Dma} {a : Action} {start : ℕ → PslClient}

theorem standing_back {s s' : Ocl} (h : s.Quiet s') {i : ℕ} {c' : Client} (hc' : s'.client i = some c') :
    ∃ c, s.client i = some c ∧ c'.id = c.id ∧ c'.memAccess = c.memAccess := by
  have heq := h.clients i
  rw [hc', Option.map_some] at heq
  obtain ⟨c, hc, hstanding⟩ := Option.map_eq_some_iff.mp heq.symm
  obtain ⟨hid, hmem⟩ := Prod.mk.inj hstanding
  exact ⟨c, hc, hid.symm, hmem.symm⟩

theorem standing_forth {s s' : Ocl} (h : s.Quiet s') {i : ℕ} {c : Client} (hc : s.client i = some c) :
    ∃ c', s'.client i = some c' ∧ c'.id = c.id ∧ c'.memAccess = c.memAccess := by
  have heq := h.clients i
  rw [hc, Option.map_some] at heq
  obtain ⟨c', hc', hstanding⟩ := Option.map_eq_some_iff.mp heq
  obtain ⟨hid, hmem⟩ := Prod.mk.inj hstanding
  exact ⟨c', hc', hid, hmem⟩

/-- Interrupts are passed on, or nothing is said. -/
theorem Inv.quiet (h : x.Inv start) (hvalid : (x.ocl.step a).AllValid) {k : ℕ} {qs : List CmdEvent}
    (hqs : ∀ q ∈ qs, q.type.isInterrupt = true ∧ q.Accepted)
    (hk : qs ≠ [] → ∃ i c, x.ocl.client i = some c ∧ c.id = k)
    (hnews : ∀ j, sentTo j (x.ocl.news a) = if j = k then qs.flatMap CmdEvent.clientMessage else [])
    (hquiet : x.ocl.Quiet (x.ocl.step a)) (hnext : x.ocl.nextId ≤ (x.ocl.step a).nextId) :
    (x.step (.engine a)).Inv start where
  wf := step_wf h.wf a
  valid := hvalid
  out := step_outstanding h.wf h.valid hvalid h.out
  sane := by
    intro e he
    cases hquiet.events e he with
    | new hid hsane hopen => exact hsane
    | old e₀ he₀ hid hcontext hsane hdone hsame => exact hsane
  distinct := by
    intro i j c d hc hd hid
    obtain ⟨c₀, hc₀, hcid, -⟩ := standing_back hquiet hc
    obtain ⟨d₀, hd₀, hdid, -⟩ := standing_back hquiet hd
    exact h.distinct i j c₀ d₀ hc₀ hd₀ (by rw [← hcid, ← hdid, hid])
  unused := by
    intro j hj
    have hj' : ∀ i c, x.ocl.client i = some c → c.id ≠ j := by
      intro i c hc hid
      obtain ⟨c', hc', hid', -⟩ := standing_forth hquiet hc
      exact hj i c' hc' (hid'.trans hid)
    obtain ⟨hdown, hup⟩ := h.unused j hj'
    refine ⟨?_, hup⟩
    change x.down j ++ sentTo j (x.ocl.news a) = []
    rw [hdown, hnews, List.nil_append, ite_eq_right_iff]
    intro hjk
    by_contra hne
    obtain ⟨i, c, hc, hid⟩ := hk (fun hnil => hne (by rw [hnil]; rfl))
    exact hj' i c hc (hid.trans hjk.symm)
  wired := by
    intro i c' hc'
    obtain ⟨c, hc, hid, hmem⟩ := standing_back hquiet hc'
    obtain ⟨queue, haccepted, hdown, hhanded⟩ := h.wired i c hc
    have hdown' : (x.step (.engine a)).down c'.id = x.down c.id ++ sentTo c.id (x.ocl.news a) := by
      rw [hid]
      rfl
    have hmove {queue' : List CmdEvent} (hqueue' : requestsIn queue' = requestsIn queue) :
        (x.step (.engine a)).Handed c' queue' :=
      hhanded.move (List.Subset.refl _) (fun _ _ _ hnot => hnot) hid hmem rfl
        (fun e he hasked => hquiet.asked i c e hc he hasked) hqueue'
    by_cases hck : c.id = k
    · refine ⟨queue ++ qs, ?_, ?_, hmove ?_⟩
      · intro q hq
        exact (List.mem_append.mp hq).elim (haccepted q) (fun hq => (hqs q hq).2)
      · rw [hdown', hnews, if_pos hck, hdown, List.flatMap_append]
      · rw [requestsIn_append, requestsIn_of_interrupts hqs, List.append_nil]
    · refine ⟨queue, haccepted, ?_, hmove rfl⟩
      rw [hdown', hnews, if_neg hck, hdown, List.append_nil]
  once := h.once
  past := fun id hid => Nat.lt_of_lt_of_le (h.past id hid) hnext
  served := by
    intro e' he' hserved
    cases hquiet.events e' he' with
    | new hid hsane hopen => exact absurd (h.past e'.id hserved) (Nat.not_lt.mpr hid)
    | old e he hid hcontext hsane hdone hsame =>
      rw [hid] at hserved
      rcases h.served e he hserved with hstate | ⟨c, hc, hmem⟩
      · exact .inl (hdone hstate)
      · obtain ⟨c', hc', -, hmem'⟩ := standing_forth hquiet hc
        refine .inr ⟨c', hcontext ▸ hc', ?_⟩
        rw [hmem', hmem, hid]
  outcome := by
    intro e' he' hconcluded
    cases hquiet.events e' he' with
    | new hid hsane hopen => exact absurd hconcluded hopen
    | old e he hid hcontext hsane hdone hsame =>
      obtain ⟨hconcluded', hdeal⟩ := hsame hconcluded
      obtain ⟨k, e₀, data, hout⟩ := h.outcome e he hconcluded'
      refine ⟨k, e₀, data, hout.move (List.Subset.refl _) hdeal (fun c hc => ?_)⟩
      obtain ⟨c', hc', hid', -⟩ := standing_forth hquiet hc
      exact ⟨c', hc', hid'⟩
  legal := h.legal

/-- The event of an asked client belongs to the client's slot. -/
theorem Inv.asked_context (h : x.Inv start) {i : ℕ} {c : Client} {e : CmdEvent} (hc : x.ocl.client i = some c)
    (he : e ∈ x.ocl.list) (hmem : c.memAccess = some e.id) : e.context = i ∧ e.Awaiting :=
  h.wf.asked i c e hc (h.valid.client h.wf i c hc) he hmem

/-- The request of one event is sent. -/
theorem Inv.ask (h : x.Inv start) (hvalid : (x.ocl.step a).AllValid) {e : CmdEvent} {c : Client}
    (he : e ∈ x.ocl.list) (hc : x.ocl.client e.context = some c) (hready : e.Ready) (hfree : c.memAccess = none)
    (hnews : ∀ j, sentTo j (x.ocl.news a) = if j = c.id then e.clientMessage else [])
    (hlist : (x.ocl.step a).list = (x.ocl.setEvent { e with state := e.askedState }).list)
    (hclient : (x.ocl.step a).client = Function.update x.ocl.client e.context (some { c with memAccess := some e.id }))
    (hnext : (x.ocl.step a).nextId = x.ocl.nextId) : (x.step (.engine a)).Inv start := by
  have haccepted : e.Accepted := (h.sane e he).accepted (.inl hready.isMemory) hready.open
  have hmem_list {y : CmdEvent} : y ∈ (x.ocl.step a).list ↔
      y = { e with state := e.askedState } ∨ (y ∈ x.ocl.list ∧ y ≠ e) := by
    rw [hlist]
    exact h.wf.mem_setEvent he (show ({ e with state := e.askedState } : CmdEvent).id = e.id from rfl)
  have hasked : { e with state := e.askedState } ∈ (x.ocl.step a).list := hmem_list.mpr (.inl rfl)
  have hawaiting : ({ e with state := e.askedState } : CmdEvent).Awaiting := ⟨hready.isMemory, rfl⟩
  have hslot {i : ℕ} {d : Client} (hd : (x.ocl.step a).client i = some d) :
      (i = e.context ∧ d = { c with memAccess := some e.id }) ∨ (i ≠ e.context ∧ x.ocl.client i = some d) := by
    rw [hclient, update_eq_some_iff] at hd
    exact hd.imp_left (fun hnew => ⟨hnew.1, (Option.some.inj hnew.2).symm⟩)
  have hstay {i : ℕ} {d : Client} (hd : x.ocl.client i = some d) :
      ∃ d', (x.ocl.step a).client i = some d' ∧ d'.id = d.id := by
    by_cases hi : i = e.context
    · subst hi
      rw [hc] at hd
      cases hd
      exact ⟨{ c with memAccess := some e.id }, by rw [hclient, Function.update_self], rfl⟩
    · exact ⟨d, by rw [hclient, Function.update_of_ne hi, hd], rfl⟩
  have hnew : e.id ∉ x.servedIds := by
    intro hserved
    rcases h.served e he hserved with hdone | ⟨d, hd, hmem⟩
    · exact hready.open hdone
    · rw [hc] at hd
      cases hd
      rw [hfree] at hmem
      cases hmem
  constructor
  · exact step_wf h.wf a
  · exact hvalid
  · exact step_outstanding h.wf h.valid hvalid h.out
  · intro y hy
    rcases hmem_list.mp hy with rfl | ⟨hy, -⟩
    · have hs := h.sane e he
      refine ⟨fun _ _ => haccepted.congr rfl rfl rfl rfl, fun hread => ?_, fun hfailed => ?_, fun hpending => ?_, hs.opcode⟩
      · have hstate : e.askedState = .request := by
          unfold CmdEvent.askedState
          rw [show e.type = .read from hread]
        simp [hstate]
      · have hmemory := hready.isMemory
        rw [show e.type = .failed from hfailed] at hmemory
        cases hmemory
      · have hwaiting := hawaiting.state
        rcases hpending with hp | hp | hp <;> simp [show e.askedState = _ from hp] at hwaiting
    · exact h.sane y hy
  · intro i j c₁ c₂ hc₁ hc₂ hid
    rcases hslot hc₁ with ⟨rfl, rfl⟩ | ⟨-, hc₁'⟩
    · rcases hslot hc₂ with ⟨rfl, -⟩ | ⟨-, hc₂'⟩
      · rfl
      · exact h.distinct _ j c c₂ hc hc₂' hid
    · rcases hslot hc₂ with ⟨rfl, rfl⟩ | ⟨-, hc₂'⟩
      · exact h.distinct i _ c₁ c hc₁' hc hid
      · exact h.distinct i j c₁ c₂ hc₁' hc₂' hid
  · intro j hj
    have hj' : ∀ i d, x.ocl.client i = some d → d.id ≠ j := by
      intro i d hd hid
      obtain ⟨d', hd', hid'⟩ := hstay hd
      exact hj i d' hd' (hid'.trans hid)
    obtain ⟨hdown, hup⟩ := h.unused j hj'
    refine ⟨?_, hup⟩
    change x.down j ++ sentTo j (x.ocl.news a) = []
    rw [hdown, hnews, if_neg (fun hjc => hj' e.context c hc hjc.symm)]
    rfl
  · intro i d hd
    rcases hslot hd with ⟨rfl, rfl⟩ | ⟨hi, hd'⟩
    · obtain ⟨queue, hqueue, hdown, hhanded⟩ := h.wired e.context c hc
      refine ⟨queue ++ [{ e with state := e.askedState }], ?_, ?_, ?_⟩
      · intro q hq
        rcases List.mem_append.mp hq with hq | hq
        · exact hqueue q hq
        · obtain rfl := List.mem_singleton.mp hq
          exact haccepted.congr rfl rfl rfl rfl
      · change x.down c.id ++ sentTo c.id (x.ocl.news a) = _
        rw [hnews, if_pos rfl, hdown, List.flatMap_append, List.flatMap_singleton]
        rfl
      · cases hhanded with
        | nothing hmem hnone hup =>
          refine .asked { e with state := e.askedState } hasked rfl ?_ hup hnew
          rw [requestsIn_append, hnone, requestsIn_cons, if_pos hready.isMemory]
          rfl
        | asked e₁ he₁ hmem hone hup hopen =>
          rw [hfree] at hmem
          cases hmem
        | answered e₁ he₁ hmem hnone haccepted₁ hframed hserved =>
          rw [hfree] at hmem
          cases hmem
    · obtain ⟨queue, hqueue, hdown, hhanded⟩ := h.wired i d hd'
      refine ⟨queue, hqueue, ?_, hhanded.move (List.Subset.refl _) (fun _ _ _ hnot => hnot) rfl rfl rfl ?_ rfl⟩
      · change x.down d.id ++ sentTo d.id (x.ocl.news a) = _
        rw [hnews, if_neg (fun hid => hi (h.distinct i e.context d c hd' hc hid)), hdown, List.append_nil]
      · intro y hy hmem
        refine hmem_list.mpr (.inr ⟨hy, ?_⟩)
        rintro rfl
        exact hi (h.asked_context hd' hy hmem).1.symm
  · exact h.once
  · intro id hid
    change id < (x.ocl.step a).nextId
    rw [hnext]
    exact h.past id hid
  · intro y hy hserved
    rcases hmem_list.mp hy with rfl | ⟨hy, -⟩
    · exact absurd hserved hnew
    · rcases h.served y hy hserved with hdone | ⟨d, hd, hmem⟩
      · exact .inl hdone
      · refine .inr ⟨d, ?_, hmem⟩
        by_cases hi : y.context = e.context
        · rw [hi, hc] at hd
          cases hd
          rw [hfree] at hmem
          cases hmem
        · change (x.ocl.step a).client y.context = some d
          rw [hclient, Function.update_of_ne hi, hd]
  · intro y hy hconcluded
    rcases hmem_list.mp hy with rfl | ⟨hy, -⟩
    · exact absurd hconcluded.2 hawaiting.open
    · obtain ⟨k, e₀, data, hout⟩ := h.outcome y hy hconcluded
      exact ⟨k, e₀, data, hout.move (List.Subset.refl _) (.refl y) (fun d hd => hstay hd)⟩
  · exact h.legal

/-- A client connects; nothing has ever been said to it. -/
theorem Inv.connect (h : x.Inv start) (hvalid : (x.ocl.step a).AllValid) {i : ℕ} {c : Client}
    (hi : x.ocl.client i = none) (hid : c.id = x.ocl.nextId) (hmem : c.memAccess = none)
    (hnews : ∀ j, sentTo j (x.ocl.news a) = []) (hlist : (x.ocl.step a).list = x.ocl.list)
    (hclient : (x.ocl.step a).client = Function.update x.ocl.client i (some c))
    (hnext : (x.ocl.step a).nextId = x.ocl.nextId + 1) : (x.step (.engine a)).Inv start := by
  have hslot {j : ℕ} {d : Client} (hd : (x.ocl.step a).client j = some d) :
      (j = i ∧ d = c) ∨ (j ≠ i ∧ x.ocl.client j = some d) := by
    rw [hclient, update_eq_some_iff] at hd
    exact hd.imp_left (fun hnew => ⟨hnew.1, (Option.some.inj hnew.2).symm⟩)
  have hstay {j : ℕ} {d : Client} (hd : x.ocl.client j = some d) : (x.ocl.step a).client j = some d := by
    have hj : j ≠ i := by
      rintro rfl
      rw [hi] at hd
      cases hd
    rw [hclient, Function.update_of_ne hj, hd]
  have hold {j : ℕ} {d : Client} (hd : x.ocl.client j = some d) : d.id ≠ c.id := by
    have hlt := (h.wf.slot j d hd).2.2
    omega
  have hdown (j : ℕ) : (x.step (.engine a)).down j = x.down j := by
    change x.down j ++ sentTo j (x.ocl.news a) = x.down j
    rw [hnews, List.append_nil]
  constructor
  · exact step_wf h.wf a
  · exact hvalid
  · exact step_outstanding h.wf h.valid hvalid h.out
  · intro e he
    exact h.sane e (hlist ▸ he)
  · intro j k d₁ d₂ hd₁ hd₂ heq
    rcases hslot hd₁ with ⟨rfl, rfl⟩ | ⟨-, hd₁'⟩
    · rcases hslot hd₂ with ⟨rfl, -⟩ | ⟨-, hd₂'⟩
      · rfl
      · exact absurd heq.symm (hold hd₂')
    · rcases hslot hd₂ with ⟨rfl, rfl⟩ | ⟨-, hd₂'⟩
      · exact absurd heq (hold hd₁')
      · exact h.distinct j k d₁ d₂ hd₁' hd₂' heq
  · intro j hj
    rw [hdown]
    exact h.unused j (fun k d hd => hj k d (hstay hd))
  · intro j d hd
    rcases hslot hd with ⟨rfl, rfl⟩ | ⟨-, hd'⟩
    · obtain ⟨hnone, hup⟩ := h.unused d.id (fun k d' hd' => hold hd')
      refine ⟨[], fun q hq => absurd hq List.not_mem_nil, ?_, .nothing hmem rfl hup⟩
      rw [hdown, hnone]
      rfl
    · obtain ⟨queue, hqueue, hbytes, hhanded⟩ := h.wired j d hd'
      refine ⟨queue, hqueue, (hdown d.id).trans hbytes, ?_⟩
      exact hhanded.move (List.Subset.refl _) (fun _ _ _ hnot => hnot) rfl rfl rfl
        (fun e he _ => hlist.symm ▸ he) rfl
  · exact h.once
  · intro id hserved
    change id < (x.ocl.step a).nextId
    rw [hnext]
    exact Nat.lt_succ_of_lt (h.past id hserved)
  · intro e he hserved
    rcases h.served e (hlist ▸ he) hserved with hdone | ⟨d, hd, hasked⟩
    · exact .inl hdone
    · exact .inr ⟨d, hstay hd, hasked⟩
  · intro e he hconcluded
    obtain ⟨k, e₀, data, hout⟩ := h.outcome e (hlist ▸ he) hconcluded
    exact ⟨k, e₀, data, hout.move (List.Subset.refl _) (.refl e) (fun d hd => ⟨d, hstay hd, rfl⟩)⟩
  · exact h.legal

theorem Inv.engine (h : x.Inv start) (hmeets : x.Meets (.engine a)) : (x.step (.engine a)).Inv start := by
  obtain ⟨hvalid, hreply, hshort⟩ := hmeets
  cases step_traffic h.wf h.valid h.out h.sane hshort hreply hvalid with
  | quiet k qs hqs hk hnews hquiet hnext => exact h.quiet hvalid hqs hk hnews hquiet hnext
  | ask e c he hc hready hfree hnews hlist hclient hnext =>
    exact h.ask hvalid he hc hready hfree hnews hlist hclient hnext
  | connect i c hi hid hmem hnews hlist hclient hnext => exact h.connect hvalid hi hid hmem hnews hlist hclient hnext

end Engine

/-! ## The clients' steps -/

section Serve

variable {x : Dma} {start : ℕ → PslClient} {i k : ℕ} {c : Client} {e q : CmdEvent} {qs : List CmdEvent}
  {written : Bool} {stale : ∀ n, Stale n}

theorem request_isMemory (h : e.Accepted) : e.request.isMemory = e.type.isMemory := by
  have hsize := h.size
  unfold CmdEvent.LegalSize at hsize
  cases htype : e.type <;> simp only [htype] at hsize <;>
    simp only [CmdEvent.request, htype, CmdType.isMemory, PslRequest.isMemory]
  · split_ifs <;> rfl

theorem isMemory_iff_isMemoryRequest : e.type.isMemory = true ↔ IsMemoryRequest e := by
  unfold IsMemoryRequest
  cases htype : e.type <;> simp [CmdType.isMemory]

theorem serve_of_not_memory (p : PslClient) (h : e.Accepted) (hmemory : e.type.isMemory = false) :
    p.serve written stale e.request = (p, []) := by
  have hsize := h.size
  unfold CmdEvent.LegalSize at hsize
  cases htype : e.type <;> simp only [htype] at hsize <;> simp only [htype, CmdType.isMemory, Bool.true_eq_false] at hmemory
  · unfold CmdEvent.request
    rw [htype]
    dsimp only
    split_ifs <;> rfl
  · unfold CmdEvent.request
    rw [htype]
    rfl

/-- The bytes of whole messages are served message by message. -/
theorem step_serve (written : Bool) (stale : ∀ n, Stale n) (h : e.Accepted) {rest : List UInt8}
    (hdown : x.down k = e.clientMessage ++ rest) :
    x.step (.serve k written stale) =
      { x with
        process := Function.update x.process k ((x.process k).serve written stale e.request).1
        down := Function.update x.down k rest
        up := Function.update x.up k (x.up k ++ ((x.process k).serve written stale e.request).2)
        history := x.history ++ (if e.type.isMemory then ((x.ocl.askedOf k).map (fun e₁ =>
          (MemOp.request k e₁ written stale, ((x.process k).serve written stale e.request).2))).toList else []) } := by
  have hparsed : pslRequest (x.down k) = some (e.request, rest) := by
    rw [hdown]
    exact pslRequest_clientMessage h rest
  simp only [step, hparsed, request_isMemory h]

theorem askedOf_eq (h : x.Inv start) (hc : x.ocl.client i = some c) (he : e ∈ x.ocl.list)
    (hmem : c.memAccess = some e.id) : x.ocl.askedOf c.id = some e := by
  obtain ⟨hcontext, -⟩ := h.asked_context hc he hmem
  have hfound : (x.ocl.client e.context).any (fun d => d.id = c.id && d.memAccess = some e.id) = true := by
    simp [hcontext, hc, hmem]
  cases hfind : x.ocl.askedOf c.id with
  | none =>
    have hall := List.find?_eq_none.mp hfind e he
    exact absurd hfound hall
  | some e₁ =>
    obtain ⟨he₁, hany⟩ := find_mem hfind
    obtain ⟨d, hd, hasked⟩ := (Option.any_eq_true _ _).mp hany
    simp only [Bool.and_eq_true, decide_eq_true_eq] at hasked
    obtain ⟨hid, hmem₁⟩ := hasked
    have hslots := h.distinct _ _ d c hd hc hid
    rw [hslots, hc] at hd
    cases hd
    rw [hmem] at hmem₁
    rw [eq_of_key_eq h.wf.ids he₁ he (Option.some.inj hmem₁).symm]

/-- A message that asks for nothing in memory is taken off the socket. -/
theorem Inv.serve_other (h : x.Inv start) (hc : x.ocl.client i = some c) (haccepted : ∀ p ∈ q :: qs, p.Accepted)
    (hdown : x.down c.id = (q :: qs).flatMap CmdEvent.clientMessage) (hhanded : x.Handed c (q :: qs))
    (hmemory : q.type.isMemory = false) : (x.step (.serve c.id written stale)).Inv start := by
  have hq : q.Accepted := haccepted q List.mem_cons_self
  have hstep := step_serve written stale hq hdown
  rw [serve_of_not_memory (x.process c.id) hq hmemory, hmemory, List.append_nil] at hstep
  simp only [Function.update_eq_self, Bool.false_eq_true, if_false, List.append_nil] at hstep
  rw [hstep]
  have hrest : requestsIn qs = requestsIn (q :: qs) := by
    rw [requestsIn_cons, if_neg (by simp [hmemory])]
  constructor
  · exact h.wf
  · exact h.valid
  · exact h.out
  · exact h.sane
  · exact h.distinct
  · intro j hj
    obtain ⟨hnone, hup⟩ := h.unused j hj
    refine ⟨?_, hup⟩
    change Function.update x.down c.id _ j = []
    rw [Function.update_of_ne (fun heq => hj i c hc heq.symm), hnone]
  · intro j d hd
    obtain ⟨queue, hqueue, hbytes, hd_handed⟩ := h.wired j d hd
    by_cases hid : d.id = c.id
    · obtain rfl := h.distinct j i d c hd hc hid
      rw [hc] at hd
      cases hd
      refine ⟨qs, fun p hp => haccepted p (List.mem_cons_of_mem q hp), Function.update_self .., ?_⟩
      exact hhanded.move (List.Subset.refl _) (fun _ _ _ hnot => hnot) rfl rfl rfl (fun e he _ => he) hrest
    · refine ⟨queue, hqueue, ?_, ?_⟩
      · change Function.update x.down c.id _ d.id = _
        rw [Function.update_of_ne hid, hbytes]
      · exact hd_handed.move (List.Subset.refl _) (fun _ _ _ hnot => hnot) rfl rfl rfl (fun e he _ => he) rfl
  · exact h.once
  · exact h.past
  · exact h.served
  · intro e he hconcluded
    obtain ⟨k, e₀, data, hout⟩ := h.outcome e he hconcluded
    exact ⟨k, e₀, data, hout.move (List.Subset.refl _) (.refl e) (fun d hd => ⟨d, hd, rfl⟩)⟩
  · exact h.legal

/-- The client carries out the request that it has been sent, and answers. -/
theorem Inv.serve_request (h : x.Inv start) (hc : x.ocl.client i = some c) (haccepted : ∀ p ∈ e :: qs, p.Accepted)
    (hdown : x.down c.id = (e :: qs).flatMap CmdEvent.clientMessage) (he : e ∈ x.ocl.list)
    (hmem : c.memAccess = some e.id) (hmemory : e.type.isMemory = true) (hqs : requestsIn qs = [])
    (hup : x.up c.id = []) (hnew : e.id ∉ x.servedIds)
    (hanswered : RequestAnswered (x.process c.id) written e) : (x.step (.serve c.id written stale)).Inv start := by
  have hq : e.Accepted := haccepted e List.mem_cons_self
  have hstep := step_serve written stale hq hdown
  rw [askedOf_eq h hc he hmem, hmemory, hup] at hstep
  simp only [if_true, Option.map_some, Option.toList_some, List.nil_append] at hstep
  rw [hstep]
  have hframed := (framed_serve_iff hq (isMemory_iff_isMemoryRequest.mp hmemory) (x.process c.id) written stale).mpr
    hanswered
  generalize hreply : ((x.process c.id).serve written stale e.request).2 = reply at hframed ⊢
  have hids : (x.history ++ [(MemOp.request c.id e written stale, reply)]).filterMap (fun op => op.1.eventId) =
      x.servedIds ++ [e.id] := by
    rw [List.filterMap_append]
    rfl
  have hsub : x.history ⊆ x.history ++ [(MemOp.request c.id e written stale, reply)] := List.subset_append_left ..
  constructor
  · exact h.wf
  · exact h.valid
  · exact h.out
  · exact h.sane
  · exact h.distinct
  · intro j hj
    obtain ⟨hnone, hnoneUp⟩ := h.unused j hj
    have hjc : j ≠ c.id := fun heq => hj i c hc heq.symm
    constructor
    · change Function.update x.down c.id _ j = []
      rw [Function.update_of_ne hjc, hnone]
    · change Function.update x.up c.id _ j = []
      rw [Function.update_of_ne hjc, hnoneUp]
  · intro j d hd
    by_cases hid : d.id = c.id
    · obtain rfl := h.distinct j i d c hd hc hid
      rw [hc] at hd
      cases hd
      refine ⟨qs, fun p hp => haccepted p (List.mem_cons_of_mem e hp), Function.update_self .., ?_⟩
      refine .answered e he hmem hqs hq ?_ ⟨written, stale, ?_⟩
      · change Framed e (Function.update x.up c.id reply c.id)
        rw [Function.update_self]
        exact hframed
      · change (_, Function.update x.up c.id reply c.id) ∈ _
        rw [Function.update_self]
        exact List.mem_append_right _ (List.mem_singleton.mpr rfl)
    · obtain ⟨queue, hqueue, hbytes, hd_handed⟩ := h.wired j d hd
      refine ⟨queue, hqueue, ?_, hd_handed.move hsub ?_ rfl rfl ?_ (fun e he _ => he) rfl⟩
      · change Function.update x.down c.id _ d.id = _
        rw [Function.update_of_ne hid, hbytes]
      · -- the event of another client is another event
        intro y hy hasked hopen hserved
        change y.id ∈ List.filterMap _ _ at hserved
        rw [hids, List.mem_append, List.mem_singleton] at hserved
        rcases hserved with hserved | hyid
        · exact hopen hserved
        · obtain rfl := eq_of_key_eq h.wf.ids hy he hyid
          have hj := (h.asked_context hd hy hasked).1
          have hi := (h.asked_context hc hy hmem).1
          rw [← hj, hi, hc] at hd
          cases hd
          exact hid rfl
      · change Function.update x.up c.id _ d.id = _
        rw [Function.update_of_ne hid]
  · change List.Nodup (List.filterMap _ _)
    rw [hids]
    exact List.nodup_append.mpr ⟨h.once, List.nodup_singleton _, fun y hy z hz heq => hnew (by
      rw [List.mem_singleton.mp hz] at heq
      exact heq ▸ hy)⟩
  · intro id hid
    change id ∈ List.filterMap _ _ at hid
    rw [hids, List.mem_append, List.mem_singleton] at hid
    rcases hid with hid | rfl
    · exact h.past id hid
    · exact h.wf.fresh e he
  · intro y hy hserved
    change y.id ∈ List.filterMap _ _ at hserved
    rw [hids, List.mem_append, List.mem_singleton] at hserved
    rcases hserved with hserved | hyid
    · exact h.served y hy hserved
    · obtain rfl := eq_of_key_eq h.wf.ids hy he hyid
      refine .inr ⟨c, ?_, hmem⟩
      rw [(h.asked_context hc hy hmem).1]
      exact hc
  · intro y hy hconcluded
    obtain ⟨k, e₀, data, hout⟩ := h.outcome y hy hconcluded
    exact ⟨k, e₀, data, hout.move hsub (.refl y) (fun d hd => ⟨d, hd, rfl⟩)⟩
  · have hlegal := h.legal.snoc (.request c.id e written stale)
    simp only [MemOp.apply, hreply] at hlegal
    exact hlegal

theorem Inv.serve (h : x.Inv start) (hmeets : x.Meets (.serve k written stale)) :
    (x.step (.serve k written stale)).Inv start := by
  by_cases hk : ∃ i c, x.ocl.client i = some c ∧ c.id = k
  · obtain ⟨i, c, hc, rfl⟩ := hk
    obtain ⟨queue, haccepted, hdown, hhanded⟩ := h.wired i c hc
    cases queue with
    | nil =>
      have hstep : x.step (.serve c.id written stale) = x := by
        simp only [step, hdown]
        rfl
      rw [hstep]
      exact h
    | cons q qs =>
      cases hmemory : q.type.isMemory with
      | false => exact h.serve_other hc haccepted hdown hhanded hmemory
      | true =>
        have hcons : requestsIn (q :: qs) = q :: requestsIn qs := by
          rw [requestsIn_cons, if_pos hmemory]
        cases hhanded with
        | nothing hmem hqueue hup => exact absurd (hcons.symm.trans hqueue) (List.cons_ne_nil _ _)
        | answered e he hmem hqueue haccepted hframed hserved =>
          exact absurd (hcons.symm.trans hqueue) (List.cons_ne_nil _ _)
        | asked e he hmem hqueue hup hnew =>
          obtain ⟨rfl, hqs⟩ := List.cons.inj (hcons.symm.trans hqueue)
          have hq : q.Accepted := haccepted q List.mem_cons_self
          refine h.serve_request hc haccepted hdown he hmem hmemory hqs hup hnew ?_
          refine hmeets.2 q.request (qs.flatMap CmdEvent.clientMessage) ?_ ?_ q (askedOf_eq h hc he hmem)
          · rw [hdown]
            exact pslRequest_clientMessage hq _
          · rw [request_isMemory hq, hmemory]
  · obtain ⟨hdown, -⟩ := h.unused k (fun i c hc hid => hk ⟨i, c, hc, hid⟩)
    have hstep : x.step (.serve k written stale) = x := by
      simp only [step, hdown]
      rfl
    rw [hstep]
    exact h

/-- The application stores to its own memory at any time. -/
theorem Inv.store (h : x.Inv start) (k addr : ℕ) (data : List UInt8) : (x.step (.store k addr data)).Inv start := by
  have hsub : x.history ⊆ (x.step (.store k addr data)).history := List.subset_append_left ..
  have hids : (x.step (.store k addr data)).servedIds = x.servedIds := by
    unfold servedIds
    change List.filterMap _ (x.history ++ [_]) = _
    rw [List.filterMap_append]
    exact List.append_nil _
  constructor
  · exact h.wf
  · exact h.valid
  · exact h.out
  · exact h.sane
  · exact h.distinct
  · exact h.unused
  · intro i c hc
    obtain ⟨queue, hqueue, hdown, hhanded⟩ := h.wired i c hc
    refine ⟨queue, hqueue, hdown, hhanded.move hsub (fun y _ _ hnot => ?_) rfl rfl rfl (fun e he _ => he) rfl⟩
    rw [hids]
    exact hnot
  · rw [hids]
    exact h.once
  · rw [hids]
    exact h.past
  · rw [hids]
    exact h.served
  · intro e he hconcluded
    obtain ⟨j, e₀, d, hout⟩ := h.outcome e he hconcluded
    exact ⟨j, e₀, d, hout.move hsub (.refl e) (fun c hc => ⟨c, hc, rfl⟩)⟩
  · exact h.legal.snoc (.store k addr data)

end Serve

/-! ## The answers -/

section Answer

variable {x : Dma} {start : ℕ → PslClient} {i : ℕ} {c : Client} {e : CmdEvent}

theorem takeAnswer_failure (e : CmdEvent) : e.takeAnswer [ocseMemFailure] = some (.memFailure, []) := by
  simp [CmdEvent.takeAnswer]

theorem takeAnswer_success {data : List UInt8} (h : data.length = e.replySize) :
    e.takeAnswer (ocseMemSuccess :: data) = some (.memSuccess data, []) := by
  have hdata := getData_append h []
  rw [List.append_nil] at hdata
  simp [CmdEvent.takeAnswer, hdata, ocseMemSuccess, ocseMemFailure]

theorem memAccess_eq (h : x.Inv start) (he : e ∈ x.ocl.list) (hmem : c.memAccess = some e.id) :
    x.ocl.memAccess c = some e := by
  unfold Ocl.memAccess
  rw [hmem]
  exact (lookup_eq_some h.wf.ids).mpr ⟨he, rfl⟩

/-- The event of the answer, with the data in its place. -/
theorem memReturn_success (hawait : e.Awaiting) {data : List UInt8} (hlength : data.length = e.replySize) :
    ∃ size, (e.memReturn data).1 = { e with data := e.data.write e.offset data, size, state := .done } := by
  obtain ⟨hmemory, hstate⟩ := hawait
  unfold CmdEvent.replySize at hlength
  unfold CmdEvent.memReturn handleMemRead
  cases htype : e.type <;> simp only [htype] at hlength <;> simp only [htype, CmdType.isMemory, Bool.false_eq_true] at hmemory
  case read =>
    refine ⟨e.size, ?_⟩
    simp [hlength, List.take_of_length_le hlength.le]
  case amoRd | amoRw =>
    refine ⟨if e.size = 4 then 2 else 3, ?_⟩
    simp [hlength, List.take_of_length_le hlength.le]
  case write =>
    refine ⟨e.size, ?_⟩
    simp [List.length_eq_zero_iff.mp hlength]
  case wrBe | amoWr =>
    have hreceived : e.state = .received := by
      rw [hstate, CmdEvent.askedState, htype]
    refine ⟨e.size, ?_⟩
    simp [List.length_eq_zero_iff.mp hlength, hreceived]

/-- The event is done, and its client is free. -/
theorem Inv.settled (h : x.Inv start) (e' : CmdEvent) {input : ClientInput} {rest : List UInt8} (hc : x.ocl.client i = some c)
    (he : e ∈ x.ocl.list) (hmem : c.memAccess = some e.id) (hvalid : (x.ocl.step (.client i input)).AllValid)
    (hlist : (x.ocl.step (.client i input)).list = (x.ocl.setEvent e').list)
    (hclient : (x.ocl.step (.client i input)).client = Function.update x.ocl.client i (some { c with memAccess := none }))
    (hnext : (x.ocl.step (.client i input)).nextId = x.ocl.nextId) (hid : e'.id = e.id) (hsane : e'.Sane)
    (hdone : e'.state = .done) (hrest : rest = []) (hqueue : ∀ queue, x.Handed c queue → requestsIn queue = [])
    (houtcome : e'.Concluded → ∃ k e₀ data, x.ServedAs k e₀ (ocseMemSuccess :: data) ∧ e₀.Accepted ∧ k = c.id ∧
      ({ e₀ with data := e₀.data.write e₀.offset data } : CmdEvent).SameDeal e')
    (hcontext' : e'.context = e.context) :
    Inv start { x with ocl := x.ocl.step (.client i input), up := Function.update x.up c.id rest } := by
  obtain ⟨hcontext, -⟩ := h.asked_context hc he hmem
  have hmem_list {y : CmdEvent} : y ∈ (x.ocl.step (.client i input)).list ↔ y = e' ∨ (y ∈ x.ocl.list ∧ y ≠ e) := by
    rw [hlist]
    exact h.wf.mem_setEvent he hid
  have hslot {j : ℕ} {d : Client} (hd : (x.ocl.step (.client i input)).client j = some d) :
      (j = i ∧ d = { c with memAccess := none }) ∨ (j ≠ i ∧ x.ocl.client j = some d) := by
    rw [hclient, update_eq_some_iff] at hd
    exact hd.imp_left (fun hnew => ⟨hnew.1, (Option.some.inj hnew.2).symm⟩)
  have hstay {j : ℕ} {d : Client} (hd : x.ocl.client j = some d) :
      ∃ d', (x.ocl.step (.client i input)).client j = some d' ∧ d'.id = d.id := by
    by_cases hj : j = i
    · subst hj
      rw [hc] at hd
      cases hd
      exact ⟨{ c with memAccess := none }, by rw [hclient, Function.update_self], rfl⟩
    · exact ⟨d, by rw [hclient, Function.update_of_ne hj, hd], rfl⟩
  constructor
  · exact step_wf h.wf _
  · exact hvalid
  · exact step_outstanding h.wf h.valid hvalid h.out
  · intro y hy
    rcases hmem_list.mp hy with rfl | ⟨hy, -⟩
    · exact hsane
    · exact h.sane y hy
  · intro j k d₁ d₂ hd₁ hd₂ heq
    rcases hslot hd₁ with ⟨rfl, rfl⟩ | ⟨-, hd₁'⟩
    · rcases hslot hd₂ with ⟨rfl, -⟩ | ⟨-, hd₂'⟩
      · rfl
      · exact h.distinct _ k c d₂ hc hd₂' heq
    · rcases hslot hd₂ with ⟨rfl, rfl⟩ | ⟨-, hd₂'⟩
      · exact h.distinct j _ d₁ c hd₁' hc heq
      · exact h.distinct j k d₁ d₂ hd₁' hd₂' heq
  · intro k hk
    have hk' : ∀ j d, x.ocl.client j = some d → d.id ≠ k := by
      intro j d hd hdk
      obtain ⟨d', hd', hdid⟩ := hstay hd
      exact hk j d' hd' (hdid.trans hdk)
    obtain ⟨hdown, hup⟩ := h.unused k hk'
    refine ⟨hdown, ?_⟩
    change Function.update x.up c.id rest k = []
    rw [Function.update_of_ne (fun heq => hk' i c hc heq.symm), hup]
  · intro j d hd
    rcases hslot hd with ⟨rfl, rfl⟩ | ⟨hj, hd'⟩
    · obtain ⟨queue, haccepted, hdown, hhanded⟩ := h.wired j c hc
      refine ⟨queue, haccepted, hdown, .nothing rfl (hqueue queue hhanded) ?_⟩
      change Function.update x.up c.id rest c.id = []
      rw [Function.update_self, hrest]
    · obtain ⟨queue, haccepted, hdown, hhanded⟩ := h.wired j d hd'
      refine ⟨queue, haccepted, hdown, hhanded.move (List.Subset.refl _) (fun _ _ _ hnot => hnot) rfl rfl ?_ ?_ rfl⟩
      · change Function.update x.up c.id rest d.id = x.up d.id
        rw [Function.update_of_ne (fun heq => hj (h.distinct j i d c hd' hc heq))]
      · intro y hy hasked
        refine hmem_list.mpr (.inr ⟨hy, ?_⟩)
        rintro rfl
        exact hj ((h.asked_context hd' hy hasked).1.symm.trans hcontext)
  · exact h.once
  · intro id hserved
    change id < (x.ocl.step (.client i input)).nextId
    rw [hnext]
    exact h.past id hserved
  · intro y hy hserved
    rcases hmem_list.mp hy with rfl | ⟨hy, hne⟩
    · exact .inl hdone
    · rcases h.served y hy hserved with hstate | ⟨d, hd, hasked⟩
      · exact .inl hstate
      · have hj : y.context ≠ i := by
          intro heq
          rw [heq, hc] at hd
          cases hd
          rw [hmem] at hasked
          exact hne (eq_of_key_eq h.wf.ids hy he (Option.some.inj hasked).symm)
        refine .inr ⟨d, ?_, hasked⟩
        change (x.ocl.step (.client i input)).client y.context = some d
        rw [hclient, Function.update_of_ne hj, hd]
  · intro y hy hconcluded
    rcases hmem_list.mp hy with rfl | ⟨hy, -⟩
    · obtain ⟨k, e₀, data, hserved, haccepted, rfl, hdeal⟩ := houtcome hconcluded
      refine ⟨c.id, e₀, data, hserved, haccepted, ?_, hdeal⟩
      rw [hcontext', hcontext]
      exact hstay hc
    · obtain ⟨k, e₀, data, hout⟩ := h.outcome y hy hconcluded
      exact ⟨k, e₀, data, hout.move (List.Subset.refl _) (.refl y) (fun d hd => hstay hd)⟩
  · exact h.legal

/-- The engine takes the answer off the socket, and with it the event is done. -/
theorem Inv.answer (h : x.Inv start) (hmeets : x.Meets (.answer i)) : (x.step (.answer i)).Inv start := by
  obtain ⟨hvalid, -⟩ := hmeets
  unfold step at hvalid ⊢
  by_cases hrunning : x.ocl.halted = true
  · dsimp only
    rw [if_pos hrunning]
    exact h
  dsimp only at hvalid ⊢
  rw [if_neg hrunning] at hvalid ⊢
  cases hc : x.ocl.client i with
  | none =>
    have hreply : x.reply i = none := by
      unfold reply
      rw [hc]
      rfl
    rw [hreply]
    exact h
  | some c =>
    obtain ⟨queue, haccepted, hdown, hhanded⟩ := h.wired i c hc
    have hstate := h.valid.client h.wf i c hc
    have hreply_of {e : CmdEvent} (he : e ∈ x.ocl.list) (hmem : c.memAccess = some e.id) :
        x.reply i = (e.takeAnswer (x.up c.id)).map (fun a => (c.id, a)) := by
      unfold reply
      simp only [hc, memAccess_eq h he hmem, Option.bind_eq_bind, Option.bind_some]
      cases e.takeAnswer (x.up c.id) <;> rfl
    cases hhanded with
    | nothing hmem hqueue hup =>
      have hreply : x.reply i = none := by
        unfold reply Ocl.memAccess
        simp [hc, hmem]
      rw [hreply]
      exact h
    | asked e he hmem hqueue hup hnew =>
      have hreply : x.reply i = none := by
        rw [hreply_of he hmem, hup]
        rfl
      rw [hreply]
      exact h
    | answered e he hmem hqueue hacc hframed hserved =>
      obtain ⟨hcontext, hawait⟩ := h.asked_context hc he hmem
      have hnone (queue : List CmdEvent) (hh : x.Handed c queue) : requestsIn queue = [] := by
        cases hh with
        | nothing hmem' hq hup' => exact hq
        | asked e₁ he₁ hmem' hq hup' hnew' =>
          rw [hup'] at hframed
          exact absurd hframed not_framed_nil
        | answered e₁ he₁ hmem' hq hacc' hframed' hserved' => exact hq
      have hfind := memAccess_eq h he hmem
      rcases hframed with hup | ⟨data, hup, hlength⟩
      · rw [hreply_of he hmem, hup, takeAnswer_failure] at hvalid ⊢
        have hstep : x.ocl.step (.client i .memFailure) = (handleAerror x.ocl e).clearMemAccess i c := by
          simp [Ocl.step, hrunning, Ocl.act, handleClient, hc, hstate, hfind]
        refine h.settled { e with state := .done, type := .failed, resp := 0x0e } hc he hmem hvalid
          (by rw [hstep]; rfl) (by rw [hstep]; rfl) (by rw [hstep]; rfl) rfl
          (.of_failed rfl (show (0x0e : UInt8) ≠ 0 by decide)) rfl rfl hnone
          (fun hconcluded => ?_) rfl
        exact Bool.noConfusion hconcluded.1
      · rw [hreply_of he hmem, hup, takeAnswer_success hlength] at hvalid ⊢
        have hget : x.ocl.getClient e = some c := by
          unfold Ocl.getClient
          rw [if_neg (Nat.not_le.mpr (h.wf.context e he)), hcontext, hc]
        have hstep : x.ocl.step (.client i (.memSuccess data)) =
            (((x.ocl.setEvent (e.memReturn data).1).record [.answered e.afutag (e.memReturn data).2]).clearMemAccess i c) := by
          simp [Ocl.step, hrunning, Ocl.act, handleClient, hc, hstate, hfind, handleMemReturn, hget]
        obtain ⟨size, hreturn⟩ := memReturn_success hawait hlength
        refine h.settled (e.memReturn data).1 hc he hmem hvalid (by rw [hstep]; rfl) (by rw [hstep]; rfl)
          (by rw [hstep]; rfl) (by rw [hreturn]) ?_ (by rw [hreturn]) rfl hnone ?_ (by rw [hreturn])
        · rw [hreturn]
          refine ⟨fun _ hopen => absurd rfl hopen, fun _ hrec => MemState.noConfusion hrec, fun hfailed => ?_,
            fun hpending => by simp at hpending, (h.sane e he).opcode⟩
          have hmemory := hawait.1
          rw [show e.type = .failed from hfailed] at hmemory
          cases hmemory
        · intro _
          refine ⟨c.id, e, data, hup ▸ hserved, hacc, rfl, ?_⟩
          rw [hreturn]
          exact ⟨rfl, rfl, rfl, rfl, rfl, rfl, rfl⟩

end Answer

end Dma

end Ocse
