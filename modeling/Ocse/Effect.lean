import Ocse.OclLoop

/-!
# What a step can do

`Effect s a s'` lists every way an action changes the list of events, the clients and the record. Each
handler is taken apart once, here; the properties of whole runs are proved from the effects alone.
-/

namespace Ocse

/-! ## Events that a handler serves -/

/-- The opcode with which an injected failure of an event is answered. -/
def CmdEvent.failOpcode (e : CmdEvent) : UInt8 :=
  match e.type with
  | .read | .amoRd | .amoRw => tlxRspReadFailed
  | .write | .wrBe | .amoWr => tlxRspWriteFailed
  | _ => e.respOpcode

/-- The memory commands: those whose outcome only the client can tell. -/
def CmdType.isMemory : CmdType → Bool
  | .read | .write | .wrBe | .amoRd | .amoRw | .amoWr => true
  | _ => false

def CmdType.isInterrupt : CmdType → Bool
  | .interrupt | .wakeHostThrd => true
  | _ => false

/-- All its data is here and its client has not been asked. -/
def CmdEvent.Ready (e : CmdEvent) : Prop :=
  (e.type = .read ∧ e.state = .idle) ∨ (e.type = .write ∧ e.state = .received) ∨
    (isWriteBeOrAmo e.type = true ∧ e.state = .received)

/-- The state in which a memory command waits for the client's answer. -/
def CmdEvent.askedState (e : CmdEvent) : MemState :=
  match e.type with
  | .read => .request
  | .write => .dmaMemResp
  | _ => .received

/-- The request for the memory operation of an event. -/
def CmdEvent.requestMessage (e : CmdEvent) : List UInt8 :=
  match e.type with
  | .read => memoryReadMessage e
  | .write => memoryWriteMessage e
  | _ => writeBeOrAmoMessage e

/-- An interrupt that has not been passed on. -/
def CmdEvent.Raised (e : CmdEvent) : Prop :=
  e.type.isInterrupt = true ∧ (e.state = .idle ∨ e.state = .received)

/-- Changes to an event that nobody outside sees. -/
inductive Rewrite : CmdEvent → CmdEvent → Prop
  | inject (e : CmdEvent) (code : UInt8) (hready : e.Ready ∨ e.Raised)
      (hcode : code = 0x02 ∨ code = 0x0e ∨ code = 0x08) : Rewrite e (e.fail .done e.failOpcode code)
  | xlatePending (e : CmdEvent) (hready : e.Ready) :
      Rewrite e (e.fail .xlatePending e.failOpcode 0x04)
  | intPending (e : CmdEvent) (hraised : e.Raised) (htype : e.type = .interrupt) :
      Rewrite e (e.fail .intPending e.failOpcode 0x04)
  | readDone (e : CmdEvent) (htype : e.type = .read) (hstate : e.state = .received) :
      Rewrite e { e with resp := tlxResponseDone, state := .done }
  | beat (e : CmdEvent) (bus : Buffer UInt8) (htype : e.type = .write) (hstate : e.state = .buffer) :
      Rewrite e (e.nextBeat bus)
  | redraw (e : CmdEvent) (resp : UInt8) (hstate : e.state = .pendingSent) : Rewrite e { e with resp }

/-! ## New events -/

/-- The sizes and opcodes that the `_add_` functions let through, by type. -/
def CmdEvent.Shape (e : CmdEvent) : Prop :=
  match e.type with
  | .read =>
      e.respOpcode = tlxRspReadResp ∧
      ((isFullRead e.command = true ∧ (e.size = 64 ∨ e.size = 128 ∨ e.size = 256)) ∨
        (isPartialRead e.command = true ∧ e.size ≤ 32))
  | .write =>
      e.respOpcode = tlxRspWriteResp ∧
      ((isFullWrite e.command = true ∧ (e.size = 64 ∨ e.size = 128 ∨ e.size = 256)) ∨
        ((e.command = afuCmdDmaPrW ∨ e.command = afuCmdDmaPrWN) ∧ e.size ≤ 32))
  | .wrBe => e.respOpcode = tlxRspWriteResp ∧ (e.command = afuCmdDmaWBe ∨ e.command = afuCmdDmaWBeN)
  | .amoRd =>
      (e.command = afuCmdAmoRd ∧ e.respOpcode = tlxRspReadResp) ∨
        (e.command = afuCmdAmoRdN ∧ e.respOpcode = tlxRspWriteResp)
  | .amoRw => e.respOpcode = tlxRspReadResp ∧ isAmoRw e.command = true
  | .amoWr => e.respOpcode = tlxRspWriteResp ∧ isAmoW e.command = true
  | .interrupt => e.command = afuCmdIntrpReq ∨ e.command = afuCmdIntrpReqD
  | .wakeHostThrd => e.command = afuCmdWakeHostThrd
  | .touch => e.command = afuCmdXlateTouch ∨ e.command = afuCmdXlateTouchN
  | .failed => e.size = 0
  | .xlatRdTouch | .xlatWrTouch | .other => False

/-- Where a new event starts: a rejected command or a touch is done at once, a write whose data is still
coming gathers it, and what has its data or needs none can be served. -/
def CmdEvent.Start (e : CmdEvent) : Prop :=
  (e.type = .failed ∧ e.state = .done ∧ (e.resp = 0x09 ∨ e.resp = 0x0b ∨ e.resp = tlxResponseFailed)) ∨
  (e.type ≠ .failed ∧ e.resp = 0 ∧
    ((e.type = .touch ∧ e.state = .done) ∨ (e.type ≠ .touch ∧ e.state = .idle) ∨
      (e.type = .write ∧ e.state = .buffer ∧ 64 < e.size) ∨
      (e.type ≠ .touch ∧ e.type ≠ .read ∧ e.type ≠ .interrupt ∧ e.state = .received ∧ e.size ≤ 64)))

def isReadCmd (opcode : UInt8) : Bool := isFullRead opcode || isPartialRead opcode

def isWriteCmd (opcode : UInt8) : Bool :=
  isFullWrite opcode || opcode = afuCmdDmaPrW || opcode = afuCmdDmaPrWN || opcode = afuCmdDmaWBe ||
    opcode = afuCmdDmaWBeN

/-- The operand lengths of an atomic read. -/
def AfuTlxCmd.AmoLength (cmd : AfuTlxCmd) : Prop := cmd.pl = 2 ∨ cmd.pl = 3 ∨ cmd.pl = 6 ∨ cmd.pl = 7

instance (cmd : AfuTlxCmd) : Decidable cmd.AmoLength := inferInstanceAs (Decidable (_ ∨ _ ∨ _ ∨ _))

/-- The opcode with which a command is rejected when it is accepted for no service. -/
def rejectOpcode (cmd : AfuTlxCmd) : UInt8 :=
  if isReadCmd cmd.opcode then tlxRspReadFailed
  else if isWriteCmd cmd.opcode then tlxRspWriteFailed
  else if isAmoRw cmd.opcode then tlxRspReadFailed
  else if isAmoW cmd.opcode then tlxRspWriteFailed
  else if cmd.opcode = afuCmdAmoRd then if cmd.AmoLength then tlxRspReadFailed else tlxRspWriteFailed
  else if cmd.opcode = afuCmdAmoRdN then tlxRspWriteFailed
  else if cmd.opcode = afuCmdXlateTouch ∨ cmd.opcode = afuCmdXlateTouchN then tlxRspTouchResp
  else tlxResponseFailed

def isInterruptCmd (opcode : UInt8) : Bool :=
  opcode = afuCmdIntrpReq || opcode = afuCmdIntrpReqD || opcode = afuCmdWakeHostThrd

/-- The response opcode of a rejected command; interrupts are never rejected. -/
structure Rejects (cmd : AfuTlxCmd) (respOpcode : UInt8) : Prop where
  opcode : respOpcode = rejectOpcode cmd
  interrupt : isInterruptCmd cmd.opcode = false

/-- The response opcode with which an event of a command starts. -/
structure Answers (cmd : AfuTlxCmd) (type : CmdType) (respOpcode : UInt8) : Prop where
  rejected : type = .failed → Rejects cmd respOpcode
  amoLength : type ≠ .failed → cmd.opcode = afuCmdAmoRd → cmd.AmoLength
  wake : type = .wakeHostThrd → respOpcode = tlxRspWakeHostResp
  interrupt : type = .interrupt → respOpcode = tlxRspIntrpResp
  touch : type = .touch → respOpcode = tlxRspTouchResp

theorem rejects_of_read {cmd : AfuTlxCmd} (h : isReadCmd cmd.opcode = true) :
    Rejects cmd tlxRspReadFailed := by
  refine ⟨(if_pos h).symm, ?_⟩
  simp only [isReadCmd, isFullRead, isPartialRead, Bool.or_eq_true, decide_eq_true_eq] at h
  rcases h with (h | h) | h | h <;> rw [h] <;> decide

theorem rejects_of_write {cmd : AfuTlxCmd} (h : isWriteCmd cmd.opcode = true) :
    Rejects cmd tlxRspWriteFailed := by
  have hop : isReadCmd cmd.opcode = false ∧ isInterruptCmd cmd.opcode = false := by
    simp only [isWriteCmd, isFullWrite, Bool.or_eq_true, decide_eq_true_eq] at h
    rcases h with ((((h | h) | h) | h) | h) | h <;> rw [h] <;> decide
  exact ⟨by simp [rejectOpcode, hop.1, h], hop.2⟩

theorem Answers.of_isMemory {cmd : AfuTlxCmd} {type : CmdType} {respOpcode : UInt8}
    (hmem : type.isMemory = true) (hlength : cmd.opcode = afuCmdAmoRd → cmd.AmoLength) :
    Answers cmd type respOpcode := by
  refine ⟨?_, fun _ => hlength, ?_, ?_, ?_⟩ <;> rintro rfl <;> exact Bool.noConfusion hmem

structure NewEvent (s : Ocl) (cmd : AfuTlxCmd) (e : CmdEvent) : Prop where
  id : e.id = s.nextId
  afutag : e.afutag = cmd.afutag
  command : e.command = cmd.opcode
  bytesSent : e.respBytesSent = 0
  dp : e.respDp = 0
  dl : e.respDl = if e.size ≤ 64 then 1 else sizeToDl e.size
  shape : e.Shape
  start : e.Start
  answers : Answers cmd e.type e.respOpcode

/-! ## Effects -/

/-- The engine's own data: everything but the interface and the counters of the loop. -/
structure SameEngine (s s' : Ocl) : Prop where
  list : s'.list = s.list
  client : s'.client = s.client
  nextId : s'.nextId = s.nextId
  trace : s'.trace = s.trace
  parms : s'.parms = s.parms
  maxClients : s'.maxClients = s.maxClients

/-- The command that `handle_cmd` finds at the interface. -/
def Ocl.Offers (s : Ocl) (cmd : AfuTlxCmd) : Prop :=
  s.afuEvent.afuCmd.valid ≠ 0 ∧ s.afuEvent.afuCmd = cmd

inductive Effect (s : Ocl) (a : Action) (s' : Ocl) : Prop
  | quiet (h : SameEngine s s')
  /-- A command that is ignored, or whose tag is in use. -/
  | ignore (cmd : AfuTlxCmd) (d : Draws) (ha : a = .cmd d) (hoffers : s.Offers cmd)
      (hassign : cmd.opcode = afuCmdAssignActag →
        s'.halted = true ∨ findClientByPasidAndBdf s cmd.bdf cmd.pasid = none)
      (htag : s'.halted = true → ∃ e ∈ s.list, e.afutag = cmd.afutag)
      (h : SameEngine (s.record [.command cmd]) s')
  | assign (cmd : AfuTlxCmd) (d : Draws) (ha : a = .cmd d) (hoffers : s.Offers cmd) (i : ℕ) (c : Client)
      (hop : cmd.opcode = afuCmdAssignActag)
      (hfind : findClientByPasidAndBdf s cmd.bdf cmd.pasid = some i) (hc : s.client i = some c)
      (h : SameEngine ((s.record [.command cmd]).setClient i (some { c with actag := cmd.actag })) s')
  | add (cmd : AfuTlxCmd) (d : Draws) (ha : a = .cmd d) (hoffers : s.Offers cmd) (e : CmdEvent) (c : Client)
      (l₁ l₂ : List CmdEvent) (hop : cmd.opcode ≠ afuCmdAssignActag)
      (hfind : findClientByActag s cmd.actag = some e.context) (hc : s.client e.context = some c)
      (hfresh : ∀ x ∈ s.list, x.afutag ≠ e.afutag) (hnew : NewEvent s cmd e)
      (hlist : s.list = l₁ ++ l₂) (hlist' : s'.list = l₁ ++ e :: l₂) (hclient : s'.client = s.client)
      (hnextId : s'.nextId = s.nextId + 1)
      (htrace : s'.trace = s.trace ++ [.command cmd, .added e cmd c.id])
      (hparms : s'.parms = s.parms) (hmax : s'.maxClients = s.maxClients)
  | rewrite (e e' : CmdEvent) (he : e ∈ s.list)
      (hc : e.state ≠ .buffer → ∃ c, s.getClient e = some c ∧ (e.Ready → c.memAccess = none))
      (hr : Rewrite e e') (h : SameEngine (s.setEvent e') s')
  /-- A memory request; the client is dropped when it cannot be reached. -/
  | ask (e : CmdEvent) (c c' : Client) (bytes : List UInt8) (he : e ∈ s.list)
      (hc : s.getClient e = some c)
      (hready : (e.Ready ∧ c.memAccess = none) ∨ (e.type = .read ∧ e.state = .casRd))
      (hbytes : e.state ≠ .casRd → bytes = e.requestMessage)
      (hc' : c' = c ∨ c' = c.drop tlxIdleCycles .none)
      (h : SameEngine (((s.record [.sent c.id e.id bytes]).setEvent { e with state := e.askedState
        }).setClient e.context (some { c' with memAccess := some e.id })) s')
  /-- An interrupt passed on. -/
  | raise (e : CmdEvent) (c c' : Client) (he : e ∈ s.list) (hc : s.getClient e = some c)
      (hraised : e.Raised) (hc' : c' = c ∨ c' = c.drop tlxIdleCycles .none)
      (h : SameEngine (((s.record [.sent c.id e.id (interruptMessage e)]).setEvent { e with state := .done
        }).setClient e.context (some c')) s')
  /-- A response that leaves the event in the list. -/
  | respond (e e' : CmdEvent) (he : e ∈ s.list) (hresp : e.responding = true)
      (hc : (s.getClient e).isSome = true)
      (he' : ((e.state = .xlatePending ∨ e.state = .intPending) ∧
          e' = { e.prepare s.parms.hostClSize with state := .pendingSent }) ∨
        (e.state = .done ∧ e' = e.prepare s.parms.hostClSize ∧ 0 < e'.respBytesSent ∧
          e'.respBytesSent ≠ e'.size))
      (h : SameEngine ((s.record [.responded (e.prepare s.parms.hostClSize).response]).setEvent e') s')
  /-- The last response of an event. -/
  | finish (e : CmdEvent) (he : e ∈ s.list) (hstate : e.state = .done)
      (hc : (s.getClient e).isSome = true)
      (hlast : ¬ (0 < (e.prepare s.parms.hostClSize).respBytesSent ∧
        (e.prepare s.parms.hostClSize).respBytesSent ≠ e.size))
      (h : SameEngine ((s.record [.responded (e.prepare s.parms.hostClSize).response,
        .removed e.afutag]).freeEvent e) s')
  | refuse (e : CmdEvent) (he : e ∈ s.list) (hresp : e.responding = true)
      (hc : (s.getClient e).isSome = true)
      (h : SameEngine ((s.record [.refused e.afutag]).setEvent
        ((e.prepare s.parms.hostClSize).backUp s.parms.hostClSize)) s')
  /-- The posted command that ends a pending event. -/
  | post (e : CmdEvent) (resp : UInt8) (he : e ∈ s.list) (hstate : e.state = .pendingSent)
      (hc : (s.getClient e).isSome = true)
      (h : SameEngine ((s.record [.posted e.afutag (postedOpcode e.command) resp,
        .removed e.afutag]).freeEvent e) s')
  /-- The client's answer to its outstanding request. -/
  | answer (i : ℕ) (input : ClientInput) (ha : a = .client i input) (e e' : CmdEvent) (c : Client)
      (ans : Answer) (he : e ∈ s.list) (hc : s.client i = some c) (hstate : c.state ≠ .none)
      (hmem : c.memAccess = some e.id)
      (he' : (input = .memFailure ∧ ans = .failure ∧
          e' = { e with state := .done, type := .failed, resp := 0x0e }) ∨
        (∃ avail, input = .memSuccess avail ∧ (e', ans) = e.memReturn avail))
      (h : SameEngine (((s.record [.answered e.afutag ans]).setEvent e').setClient i
        (some { c with memAccess := none })) s')
  /-- A client's own bookkeeping: an attach, a departure, an idle count, an answer to nothing. -/
  | client (i : ℕ) (c c' : Client) (hc : s.client i = some c)
      (hid : c'.id = c.id ∧ c'.context = c.context ∧ c'.pasid = c.pasid ∧ c'.bdf = c.bdf ∧
        c'.actag = c.actag)
      (hmem : c'.memAccess = c.memAccess ∨
        (c'.memAccess = none ∧ (c'.state = .none ∨ ∀ e ∈ s.memAccess c, s.getClient e = none)))
      (hstate : (c'.state = c.state ∧ (c.state = .none → c'.idleCycles = c.idleCycles)) ∨
        (c'.state = .none ∧ c'.idleCycles = tlxIdleCycles))
      (h : SameEngine (s.setClient i (some c')) s')
  /-- The events of a departed client are ended. -/
  | terminate (i : ℕ) (ha : a = .settle i) (c : Client) (hc : s.client i = some c)
      (hstate : c.state = .none)
      (h : SameEngine ((terminateEvents s c).setClient i (some { c with idleCycles := 0 })) s')
  | clear (i : ℕ) (ha : a = .clear i) (c : Client) (hc : s.client i = some c) (hstate : c.state = .none)
      (hidle : c.idleCycles = 0) (h : SameEngine (s.setClient i none) s')
  | associate (bdf : UInt16) (i : ℕ) (hi : i < s.maxClients) (hc : s.client i = none)
      (hlist : s'.list = s.list) (hnextId : s'.nextId = s.nextId + 1)
      (hclient : s'.client = Function.update s.client i (some
        { id := s.nextId, context := i, state := .valid, idleCycles := 0, pasid := UInt32.ofNat i
          bdf, actag := 0, memAccess := none }))
      (htrace : s'.trace = s.trace ++ [.connected s.nextId bdf (UInt32.ofNat i)])
      (hparms : s'.parms = s.parms) (hmax : s'.maxClients = s.maxClients)

/-! ## The handlers -/

theorem SameEngine.refl (s : Ocl) : SameEngine s s := ⟨rfl, rfl, rfl, rfl, rfl, rfl⟩

theorem find_mem {list : List CmdEvent} {p : CmdEvent → Bool} {e : CmdEvent}
    (h : list.find? p = some e) : e ∈ list ∧ p e = true :=
  ⟨List.mem_of_find?_eq_some h, List.find?_some h⟩

theorem CmdEvent.Ready.isMemory {e : CmdEvent} (h : e.Ready) : e.type.isMemory = true := by
  rcases h with ⟨h, -⟩ | ⟨h, -⟩ | ⟨h, -⟩
  · rw [h]; rfl
  · rw [h]; rfl
  · cases ht : e.type <;> simp_all [isWriteBeOrAmo, CmdType.isMemory]

theorem CmdEvent.Ready.isInterrupt {e : CmdEvent} (h : e.Ready) : e.type.isInterrupt = false := by
  have hmem := h.isMemory
  cases ht : e.type <;> simp_all [CmdType.isMemory, CmdType.isInterrupt]

theorem inject_rewrite {p : Parms} {d : Draws} {e e' : CmdEvent} {op : UInt8} (hready : e.Ready)
    (hop : op = e.failOpcode) (h : inject p d op e = some e') : Rewrite e e' := by
  subst hop
  unfold inject at h
  split_ifs at h <;> obtain rfl := Option.some.inj h
  · exact .inject e _ (.inl hready) (.inl rfl)
  · exact .inject e _ (.inl hready) (.inr (.inl rfl))
  · exact .inject e _ (.inl hready) (.inr (.inr rfl))
  · exact .xlatePending e hready

theorem request_effect {s : Ocl} {a : Action} {e : CmdEvent} {c : Client} (he : e ∈ s.list)
    (hc : s.getClient e = some c)
    (hready : (e.Ready ∧ c.memAccess = none) ∨ (e.type = .read ∧ e.state = .casRd)) {state : MemState}
    (hstate : state = e.askedState) {bytes : List UInt8}
    (hbytes : e.state ≠ .casRd → bytes = e.requestMessage) (ok : Bool) :
    Effect s a (s.request c e state bytes ok) := by
  subst hstate
  refine .ask e c (if ok then c else c.drop tlxIdleCycles .none) bytes he hc hready hbytes ?_
    ⟨rfl, rfl, rfl, rfl, rfl, rfl⟩
  cases ok
  · exact .inr rfl
  · exact .inl rfl

theorem handleBufferWrite_effect (s : Ocl) (d : Draws) (a : Action) :
    Effect s a (handleBufferWrite s d) := by
  unfold handleBufferWrite
  split
  · exact .quiet (.refl s)
  · rename_i e hfind
    obtain ⟨he, hp⟩ := find_mem hfind
    have htype : e.type = .read := by simp_all
    split
    · exact .quiet (.refl s)
    · rename_i c hc
      split
      · rename_i hidle
        have hready : e.Ready := .inl ⟨htype, hidle⟩
        split_ifs with hmem
        · split
          · rename_i e' hinject
            have hop : tlxRspReadFailed = e.failOpcode := by simp [CmdEvent.failOpcode, htype]
            exact .rewrite e e' he (fun _ => ⟨c, hc, fun _ => hmem⟩) (inject_rewrite hready hop hinject)
              (.refl _)
          · exact request_effect he hc (.inl ⟨hready, hmem⟩) (by simp [CmdEvent.askedState, htype])
              (fun _ => by simp [CmdEvent.requestMessage, htype]) _
        · exact .quiet (.refl s)
      · rename_i hreceived
        split_ifs
        · refine .rewrite e _ he (fun _ => ⟨c, hc, fun hready => ?_⟩) (.readDone e htype hreceived) (.refl _)
          simp [CmdEvent.Ready, htype, hreceived, isWriteBeOrAmo] at hready
        · exact .quiet (.refl s)
      · rename_i hcas
        exact request_effect he hc (.inr ⟨htype, hcas⟩) (by simp [CmdEvent.askedState, htype])
          (fun hne => absurd hcas hne) _
      · exact .quiet (.refl s)

theorem handleAfuTlxCmdDataRead_effect (s : Ocl) (a : Action) :
    Effect s a (handleAfuTlxCmdDataRead s) := by
  unfold handleAfuTlxCmdDataRead
  split
  · exact .quiet (.refl s)
  · rename_i e hfind
    obtain ⟨he, hp⟩ := find_mem hfind
    have hp : e.type = .write ∧ e.state = .buffer := by simpa using hp
    split
    · exact .rewrite e _ he (fun h => absurd hp.2 h) (.beat e _ hp.1 hp.2) ⟨rfl, rfl, rfl, rfl, rfl, rfl⟩
    · exact .quiet ⟨rfl, rfl, rfl, rfl, rfl, rfl⟩

theorem handleAfuTlxWriteCmd_effect (s : Ocl) (d : Draws) (a : Action) :
    Effect s a (handleAfuTlxWriteCmd s d) := by
  unfold handleAfuTlxWriteCmd
  split
  · exact .quiet (.refl s)
  · rename_i e hfind
    obtain ⟨he, hp⟩ := find_mem hfind
    have hp : e.type = .write ∧ e.state = .received := by simpa using hp
    have hready : e.Ready := .inr (.inl hp)
    split
    · exact .quiet (.refl s)
    · rename_i c hc
      split_ifs with hmem
      · exact .quiet (.refl s)
      · split
        · rename_i e' hinject
          have hop : tlxRspWriteFailed = e.failOpcode := by simp [CmdEvent.failOpcode, hp.1]
          exact .rewrite e e' he (fun _ => ⟨c, hc, fun _ => not_not.mp hmem⟩)
            (inject_rewrite hready hop hinject) (.refl _)
        · exact request_effect he hc (.inl ⟨hready, not_not.mp hmem⟩)
            (by simp [CmdEvent.askedState, hp.1]) (fun _ => by simp [CmdEvent.requestMessage, hp.1]) _

theorem handleWriteBeOrAmo_effect (s : Ocl) (d : Draws) (a : Action) :
    Effect s a (handleWriteBeOrAmo s d) := by
  unfold handleWriteBeOrAmo
  split
  · exact .quiet (.refl s)
  · rename_i e hfind
    obtain ⟨he, hp⟩ := find_mem hfind
    have hp : isWriteBeOrAmo e.type = true ∧ e.state = .received := by simpa using hp
    have hready : e.Ready := .inr (.inr hp)
    have hop : (if e.type = .amoRd ∨ e.type = .amoRw then tlxRspReadFailed else tlxRspWriteFailed) =
        e.failOpcode := by
      cases ht : e.type <;> simp_all [CmdEvent.failOpcode, isWriteBeOrAmo]
    split
    · exact .quiet (.refl s)
    · rename_i c hc
      simp only [hop]
      split_ifs with hmem
      · exact .quiet (.refl s)
      · split
        · rename_i e' hinject
          exact .rewrite e e' he (fun _ => ⟨c, hc, fun _ => not_not.mp hmem⟩)
            (inject_rewrite hready rfl hinject) (.refl _)
        · refine request_effect he hc (.inl ⟨hready, not_not.mp hmem⟩) ?_ (fun _ => ?_) _
          · cases ht : e.type <;> simp_all [CmdEvent.askedState, isWriteBeOrAmo]
          · cases ht : e.type <;> simp_all [CmdEvent.requestMessage, isWriteBeOrAmo]

theorem injectInterrupt_rewrite {p : Parms} {d : Draws} {e e' : CmdEvent} (hraised : e.Raised)
    (h : injectInterrupt p d e = some e') : Rewrite e e' := by
  have htype : e.type = .interrupt ∨ e.type = .wakeHostThrd := by
    have := hraised.1
    cases ht : e.type <;> simp_all [CmdType.isInterrupt]
  have hop : e.respOpcode = e.failOpcode := by
    rcases htype with ht | ht <;> simp [CmdEvent.failOpcode, ht]
  unfold injectInterrupt at h
  rw [hop] at h
  split_ifs at h with h₁ h₂ h₃ h₄ <;> obtain rfl := Option.some.inj h
  · exact .inject e _ (.inr hraised) (.inl rfl)
  · exact .inject e _ (.inr hraised) (.inr (.inl rfl))
  · exact .intPending e hraised (htype.resolve_right h₃.1)
  · exact .inject e _ (.inr hraised) (.inr (.inr rfl))

theorem handleInterrupt_effect (s : Ocl) (d : Draws) (a : Action) :
    Effect s a (handleInterrupt s d) := by
  unfold handleInterrupt
  split
  · exact .quiet (.refl s)
  · rename_i e hfind
    obtain ⟨he, hp⟩ := find_mem hfind
    have hraised : e.Raised := by
      refine ⟨?_, by simp_all⟩
      cases ht : e.type <;> simp_all [CmdType.isInterrupt]
    split
    · exact .quiet (.refl s)
    · rename_i c hc
      split
      · rename_i e' hinject
        refine .rewrite e e' he (fun _ => ⟨c, hc, fun hready => ?_⟩)
          (injectInterrupt_rewrite hraised hinject) (.refl _)
        exact absurd hraised.1 (by simp [hready.isInterrupt])
      · refine .raise e c (if d.put then c else c.drop tlxIdleCycles .none) he hc hraised ?_ ⟨rfl, rfl, rfl, rfl, rfl, rfl⟩
        cases d.put
        · exact .inr rfl
        · exact .inl rfl

/-- What `handle_response` does to an event before it sends: the part's fields are the only change. -/
theorem CmdEvent.prepare_eq (e : CmdEvent) (cl : ℕ) :
    e.prepare cl = { e with
      respDp := (e.prepare cl).respDp
      respDl := (e.prepare cl).respDl
      respBytesSent := (e.prepare cl).respBytesSent } := by
  unfold CmdEvent.prepare CmdEvent.nextPart
  split_ifs <;> rfl

@[simp]
theorem CmdEvent.prepare_id (e : CmdEvent) (cl : ℕ) : (e.prepare cl).id = e.id := by
  rw [prepare_eq]

@[simp]
theorem CmdEvent.prepare_afutag (e : CmdEvent) (cl : ℕ) : (e.prepare cl).afutag = e.afutag := by
  rw [prepare_eq]

@[simp]
theorem CmdEvent.prepare_state (e : CmdEvent) (cl : ℕ) : (e.prepare cl).state = e.state := by
  rw [prepare_eq]

@[simp]
theorem CmdEvent.prepare_size (e : CmdEvent) (cl : ℕ) : (e.prepare cl).size = e.size := by
  rw [prepare_eq]

@[simp]
theorem CmdEvent.prepare_context (e : CmdEvent) (cl : ℕ) : (e.prepare cl).context = e.context := by
  rw [prepare_eq]

@[simp]
theorem CmdEvent.prepare_type (e : CmdEvent) (cl : ℕ) : (e.prepare cl).type = e.type := by
  rw [prepare_eq]

@[simp]
theorem CmdEvent.prepare_command (e : CmdEvent) (cl : ℕ) : (e.prepare cl).command = e.command := by
  rw [prepare_eq]

@[simp]
theorem CmdEvent.prepare_resp (e : CmdEvent) (cl : ℕ) : (e.prepare cl).resp = e.resp := by
  rw [prepare_eq]

@[simp]
theorem CmdEvent.prepare_respOpcode (e : CmdEvent) (cl : ℕ) :
    (e.prepare cl).respOpcode = e.respOpcode := by
  rw [prepare_eq]

@[simp]
theorem CmdEvent.prepare_data (e : CmdEvent) (cl : ℕ) : (e.prepare cl).data = e.data := by
  rw [prepare_eq]

theorem handleResponse_effect (s : Ocl) (rand : ℕ) (a : Action) : Effect s a (handleResponse s rand) := by
  unfold handleResponse
  split
  · exact .quiet (.refl s)
  · rename_i e hfind
    obtain ⟨he, hresp⟩ := find_mem hfind
    split
    · exact .quiet (.refl s)
    · rename_i c hc
      have hc : (s.getClient e).isSome = true := by rw [hc]; rfl
      generalize (if percentChance s.parms.bdiRespErrPercent rand then (1 : UInt8) else 0) = bdi
      rcases hsend : sendResponse s.afuEvent (e.prepare s.parms.hostClSize) bdi with ⟨rc, afuEvent⟩
      simp only [hsend]
      split_ifs with hrc hpending hpart
      · refine .respond e _ he hresp hc (.inl ⟨?_, rfl⟩) ⟨rfl, rfl, rfl, rfl, rfl, rfl⟩
        simpa using hpending
      · refine .respond e _ he hresp hc (.inr ⟨?_, rfl, hpart⟩) ⟨rfl, rfl, rfl, rfl, rfl, rfl⟩
        simp_all [CmdEvent.responding]
      · refine .finish e he ?_ hc ?_ ⟨?_, rfl, rfl, ?_, rfl, rfl⟩
        · simp_all [CmdEvent.responding]
        · simpa using hpart
        · simp [Ocl.record, Ocl.freeEvent]
        · simp [Ocl.record, Ocl.freeEvent]
      · exact .refuse e he hresp hc ⟨rfl, rfl, rfl, by simp [Ocl.record, Ocl.setEvent], rfl, rfl⟩

theorem pickPendingSent_mem {p : Parms} {reorder : ℕ → ℕ} {list : List CmdEvent} {e : CmdEvent}
    (h : pickPendingSent p reorder list = some e) : e ∈ list ∧ e.state = .pendingSent := by
  induction list generalizing reorder with
  | nil => cases h
  | cons x xs ih =>
    unfold pickPendingSent at h
    split_ifs at h with hstate hskip
    · exact ⟨.tail _ (ih h).1, (ih h).2⟩
    · obtain rfl := Option.some.inj h
      exact ⟨.head _, hstate⟩
    · exact ⟨.tail _ (ih h).1, (ih h).2⟩

theorem redraw_effect {s : Ocl} {a : Action} {e : CmdEvent} (he : e ∈ s.list)
    (hstate : e.state = .pendingSent) (hc : (s.getClient e).isSome = true) (resp : UInt8) :
    Effect s a (s.setEvent { e with resp }) := by
  obtain ⟨c, hc⟩ := Option.isSome_iff_exists.mp hc
  refine .rewrite e _ he (fun _ => ⟨c, hc, fun hready => ?_⟩) (.redraw e resp hstate) (.refl _)
  simp [CmdEvent.Ready, hstate] at hready

theorem postPending_effect {s : Ocl} {a : Action} {e : CmdEvent} (he : e ∈ s.list)
    (hstate : e.state = .pendingSent) (hc : (s.getClient e).isSome = true) (resp : UInt8) :
    Effect s a (postPending s { e with resp }) := by
  unfold postPending
  split
  split_ifs
  · exact .post e resp he hstate hc ⟨rfl, rfl, rfl, rfl, rfl, rfl⟩
  · exact redraw_effect he hstate hc resp

theorem handleXlateIntrpPendingSent_effect (s : Ocl) (d : Draws) (a : Action) :
    Effect s a (handleXlateIntrpPendingSent s d) := by
  unfold handleXlateIntrpPendingSent
  split
  · exact .quiet (.refl s)
  · rename_i e hpick
    obtain ⟨he, hstate⟩ := pickPendingSent_mem hpick
    split
    · exact .quiet (.refl s)
    · rename_i c hc
      have hc : (s.getClient e).isSome = true := by rw [hc]; rfl
      split_ifs
      · exact postPending_effect he hstate hc _
      · exact redraw_effect he hstate hc _
      · exact postPending_effect he hstate hc _

theorem memAccess_eq_some {s : Ocl} {c : Client} {e : CmdEvent} (h : s.memAccess c = some e) :
    e ∈ s.list ∧ c.memAccess = some e.id := by
  obtain ⟨id, hid, hfind⟩ := Option.bind_eq_some_iff.mp h
  obtain ⟨he, hp⟩ := find_mem hfind
  exact ⟨he, by rw [hid, of_decide_eq_true hp]⟩

theorem handleClient_effect (s : Ocl) (i : ℕ) (input : ClientInput) :
    Effect s (.client i input) (handleClient s i input) := by
  unfold handleClient
  split
  · exact .quiet (.refl s)
  · rename_i c hc
    have hdrop : ∀ s' : Ocl, SameEngine (s.setClient i (some (c.drop tlxIdleCycles .none))) s' →
        Effect s (.client i input) s' := fun s' h =>
      .client i c (c.drop tlxIdleCycles .none) hc ⟨rfl, rfl, rfl, rfl, rfl⟩ (.inr ⟨rfl, .inl rfl⟩)
        (.inr ⟨rfl, rfl⟩) h
    have hclear : (∀ e ∈ s.memAccess c, s.getClient e = none) →
        Effect s (.client i input) (s.clearMemAccess i c) := fun hgone =>
      .client i c { c with memAccess := none } hc ⟨rfl, rfl, rfl, rfl, rfl⟩ (.inr ⟨rfl, .inr hgone⟩)
        (.inl ⟨rfl, fun _ => rfl⟩) (.refl _)
    split_ifs with hnone
    · exact .quiet (.refl s)
    · cases input with
      | quiet => exact .quiet (.refl s)
      | lost => exact hdrop _ (.refl _)
      | detach => exact hdrop _ ⟨rfl, rfl, rfl, rfl, rfl, rfl⟩
      | attach put =>
        cases put with
        | false => exact hdrop _ ⟨rfl, rfl, rfl, rfl, rfl, rfl⟩
        | true =>
          exact .client i c c hc ⟨rfl, rfl, rfl, rfl, rfl⟩ (.inl rfl) (.inl ⟨rfl, fun _ => rfl⟩)
            ⟨rfl, rfl, rfl, rfl, rfl, rfl⟩
      | memFailure =>
        dsimp only
        split
        · rename_i hmem
          exact hclear (by simp [hmem])
        · rename_i e hmem
          obtain ⟨he, hmem⟩ := memAccess_eq_some hmem
          exact .answer i _ rfl e _ c .failure he hc hnone hmem (.inl ⟨rfl, rfl, rfl⟩) ⟨rfl, rfl, rfl, rfl, rfl, rfl⟩
      | memSuccess avail =>
        dsimp only
        split
        · rename_i hmem
          exact hclear (by simp [hmem])
        · rename_i e hfind
          obtain ⟨he, hmem⟩ := memAccess_eq_some hfind
          unfold handleMemReturn
          split
          · rename_i hgone
            exact hclear (by simpa [hfind] using hgone)
          · exact .answer i _ rfl e _ c _ he hc hnone hmem (.inr ⟨avail, rfl, rfl⟩) ⟨rfl, rfl, rfl, rfl, rfl, rfl⟩
      | mmio lost =>
        cases lost with
        | false => exact .quiet (.refl s)
        | true => exact hdrop _ (.refl _)
      | unexpected => exact .quiet ⟨rfl, rfl, rfl, rfl, rfl, rfl⟩

theorem settleClient_effect (s : Ocl) (i : ℕ) : Effect s (.settle i) (settleClient s i) := by
  unfold settleClient
  split
  · exact .quiet (.refl s)
  · rename_i c hc
    have hstays : ∀ n, c.state ≠ .none →
        Effect s (.settle i) (s.setClient i (some { c with idleCycles := n })) := fun n hstate =>
      .client i c { c with idleCycles := n } hc ⟨rfl, rfl, rfl, rfl, rfl⟩ (.inl rfl)
        (.inl ⟨rfl, fun h => absurd h hstate⟩) (.refl _)
    cases hstate : c.state with
    | none => simpa [clientCmd, hstate] using Effect.terminate i rfl c hc hstate (.refl _)
    | init => simpa [clientCmd, hstate] using hstays 0 (by simp [hstate])
    | valid => simpa [clientCmd, hstate] using hstays _ (by simp [hstate])

theorem clearSlot_effect (s : Ocl) (i : ℕ) : Effect s (.clear i) (clearSlot s i) := by
  unfold clearSlot
  split
  · exact .quiet (.refl s)
  · rename_i c hc
    split_ifs with h
    · exact .clear i rfl c hc h.1 h.2 (.refl _)
    · exact .quiet (.refl s)

theorem clientAssociate_effect (s : Ocl) (bdf : UInt16) (a : Action) :
    Effect s a (clientAssociate s bdf) := by
  unfold clientAssociate
  split
  · exact .quiet (.refl s)
  · rename_i i hfind
    have hi : i < s.maxClients := List.mem_range.mp (List.mem_of_find?_eq_some hfind)
    have hc : s.client i = none := by simpa using List.find?_some hfind
    exact .associate bdf i hi hc rfl rfl rfl rfl rfl rfl

/-! ## Commands -/

theorem insertCmd_split (p : Parms) (reorder : ℕ → ℕ) (list : List CmdEvent) (e : CmdEvent) :
    ∃ l₁ l₂, list = l₁ ++ l₂ ∧ insertCmd p reorder e list = l₁ ++ e :: l₂ := by
  induction list generalizing reorder with
  | nil => exact ⟨[], [], rfl, rfl⟩
  | cons x xs ih =>
    unfold insertCmd
    split_ifs
    · exact ⟨[], x :: xs, rfl, rfl⟩
    · obtain ⟨l₁, l₂, hxs, hinsert⟩ := ih (fun n => reorder (n + 1))
      exact ⟨x :: l₁, l₂, by rw [hxs, List.cons_append], by rw [hinsert, List.cons_append]⟩

/-- What the `_add_` functions guarantee of the arguments of `_add_cmd`. -/
structure NewCmd.Admits (n : NewCmd) (cmd : AfuTlxCmd) : Prop where
  afutag : n.afutag = cmd.afutag
  command : n.command = cmd.opcode
  shape : ∀ id, (n.event id).Shape
  start : ∀ id, (n.event id).Start
  beat : n.dataIsValid = true → n.state = .idle ∧ n.type ≠ .read ∧
    (64 < n.size % 2 ^ 16 → n.type = .write ∨ n.type = .interrupt)
  answers : Answers cmd n.type n.respOpcode

theorem CmdEvent.firstBeat_eq (e : CmdEvent) (bus : Buffer UInt8) :
    e.firstBeat bus = { e with
      data := (e.firstBeat bus).data
      dpartialAt := (e.firstBeat bus).dpartialAt
      state := (e.firstBeat bus).state } := by
  simp only [firstBeat]
  split_ifs <;> rfl

theorem CmdEvent.firstBeat_start {e : CmdEvent} (hstart : e.Start) (hidle : e.state = .idle)
    (hread : e.type ≠ .read) (hlong : 64 < e.size → e.type = .write ∨ e.type = .interrupt)
    (bus : Buffer UInt8) : (e.firstBeat bus).Start := by
  have hstart : e.type ≠ .failed ∧ e.resp = 0 ∧ e.type ≠ .touch := by
    simpa [CmdEvent.Start, hidle] using hstart
  obtain ⟨hfailed, hresp, htouch⟩ := hstart
  unfold CmdEvent.firstBeat
  by_cases hint : e.type = .interrupt
  · rw [if_pos hint]
    exact .inr ⟨hfailed, hresp, .inr (.inl ⟨htouch, hidle⟩)⟩
  · rw [if_neg hint]
    by_cases hsize : 64 < e.size
    · rw [if_pos hsize]
      exact .inr ⟨hfailed, hresp, .inr (.inr (.inl ⟨(hlong hsize).resolve_right hint, rfl, hsize⟩))⟩
    · rw [if_neg hsize]
      exact .inr ⟨hfailed, hresp,
        .inr (.inr (.inr ⟨htouch, hread, hint, rfl, Nat.le_of_not_lt hsize⟩))⟩

section Reading

variable {s₀ s : Ocl} {d : Draws} {cmd : AfuTlxCmd}

/-- The engine just after a command with a free tag has been taken from the interface. -/
structure HasRead (s₀ s : Ocl) (cmd : AfuTlxCmd) : Prop where
  offers : s₀.Offers cmd
  same : SameEngine (s₀.record [.command cmd]) s
  running : s.halted = false
  fresh : ∀ x ∈ s₀.list, x.afutag ≠ cmd.afutag

theorem HasRead.keepData (h : HasRead s₀ s cmd) (dataIsValid : Bool) :
    HasRead s₀ (s.keepData dataIsValid) cmd := by
  obtain ⟨hoffers, ⟨hlist, hclient, hnextId, htrace, hparms, hmax⟩, hrunning, hfresh⟩ := h
  cases dataIsValid
  · exact ⟨hoffers, ⟨hlist, hclient, hnextId, htrace, hparms, hmax⟩, hrunning, hfresh⟩
  · exact ⟨hoffers, ⟨hlist, hclient, hnextId, htrace, hparms, hmax⟩, hrunning, hfresh⟩

theorem HasRead.findSlot (h : HasRead s₀ s cmd) (p : Client → Bool) : s.findSlot p = s₀.findSlot p := by
  unfold Ocl.findSlot
  rw [h.same.maxClients, h.same.client]
  rfl

theorem HasRead.ignore (h : HasRead s₀ s cmd) (hop : cmd.opcode = afuCmdAssignActag →
    findClientByPasidAndBdf s₀ cmd.bdf cmd.pasid = none) : Effect s₀ (.cmd d) s :=
  .ignore cmd d rfl h.offers (fun hassign => .inr (hop hassign)) (by simp [h.running]) h.same

theorem findSlot_eq_some {s : Ocl} {p : Client → Bool} {i : ℕ} (h : s.findSlot p = some i) :
    i < s.maxClients ∧ ∃ c, s.client i = some c ∧ p c = true := by
  refine ⟨List.mem_range.mp (List.mem_of_find?_eq_some h), ?_⟩
  have hany := List.find?_some h
  cases hc : s.client i with
  | none => simp [hc] at hany
  | some c => exact ⟨c, rfl, by simpa [hc] using hany⟩

theorem addCmd_effect (h : HasRead s₀ s cmd) {n : NewCmd} (hn : n.Admits cmd) {c : Client}
    (hop : cmd.opcode ≠ afuCmdAssignActag) (hfind : findClientByActag s cmd.actag = some n.context)
    (hc : s.client n.context = some c) : Effect s₀ (.cmd d) (addCmd s d cmd n c) := by
  obtain ⟨hlist, hclient, hnextId, htrace, hparms, hmax⟩ := h.same
  simp only [addCmd]
  generalize hexpected : incomingDataExpected (insertCmd s.parms d.reorder (n.event s.nextId) s.list) =
    expected
  generalize he : (if n.dataIsValid && !expected then
    (n.event s.nextId).firstBeat s.afuEvent.afuCdata.bus else n.event s.nextId) = e
  have hcontext : e.context = n.context := by
    subst he; split_ifs <;> [rw [CmdEvent.firstBeat_eq]; skip] <;> rfl
  have hnew : NewEvent s₀ cmd e := by
    have hid : s.nextId = s₀.nextId := hnextId
    subst he
    split_ifs with hbeat
    · have hvalid : n.dataIsValid = true := by simp_all
      obtain ⟨hidle, hread, hlong⟩ := hn.beat hvalid
      have hstart := CmdEvent.firstBeat_start (hn.start s.nextId) hidle hread hlong
        s.afuEvent.afuCdata.bus
      have hshape := hn.shape s.nextId
      rw [CmdEvent.firstBeat_eq] at hstart ⊢
      exact ⟨hid, hn.afutag, hn.command, rfl, rfl, rfl, hshape, hstart, hn.answers⟩
    · exact ⟨hid, hn.afutag, hn.command, rfl, rfl, rfl, hn.shape _, hn.start _, hn.answers⟩
  obtain ⟨l₁, l₂, hsplit, hinsert⟩ := insertCmd_split s.parms d.reorder s.list e
  refine .add cmd d rfl h.offers e c l₁ l₂ hop ?_ ?_ ?_ hnew ?_ hinsert hclient ?_ ?_ hparms hmax
  · rw [hcontext, ← hfind]
    exact (h.findSlot _).symm
  · rw [hcontext, ← hc, hclient]
    rfl
  · rw [hnew.afutag]
    exact h.fresh
  · rw [← hsplit, hlist]
    rfl
  · simp only [hnextId]
    rfl
  · simp [htrace, Ocl.record]

theorem addFor_effect (h : HasRead s₀ s cmd) (hop : cmd.opcode ≠ afuCmdAssignActag) {n : ℕ → NewCmd}
    (hcontext : ∀ i, (n i).context = i) (hn : ∀ i, (n i).Admits cmd) :
    Effect s₀ (.cmd d) (addFor s d cmd n) := by
  unfold addFor
  split
  · exact h.ignore (fun hassign => absurd hassign hop)
  · rename_i i hfind
    split
    · exact h.ignore (fun hassign => absurd hassign hop)
    · rename_i c hc
      rw [← hcontext i] at hfind hc
      exact addCmd_effect h (hn i) hop hfind hc

theorem addFail_effect (h : HasRead s₀ s cmd) (hop : cmd.opcode ≠ afuCmdAssignActag) {resp : UInt8}
    (hresp : resp = 0x09 ∨ resp = 0x0b ∨ resp = tlxResponseFailed) {respOpcode : UInt8}
    (hreject : Rejects cmd respOpcode) :
    Effect s₀ (.cmd d) (addFail s d cmd resp respOpcode) := by
  refine addFor_effect h hop (fun _ => rfl) (fun i => ⟨rfl, rfl, fun _ => rfl, fun _ => ?_, ?_, ?_⟩)
  · exact .inl ⟨rfl, rfl, hresp⟩
  · exact fun hvalid => Bool.noConfusion hvalid
  · exact ⟨fun _ => hreject, by simp, by simp, by simp, by simp⟩

theorem addAligned_effect (h : HasRead s₀ s cmd) (hop : cmd.opcode ≠ afuCmdAssignActag) {size : ℕ}
    {failOpcode : UInt8} (hreject : Rejects cmd failOpcode) {ok : Ocl} (hok : aligned cmd.addr size = .aligned → Effect s₀ (.cmd d) ok) :
    Effect s₀ (.cmd d) (addAligned s d cmd size failOpcode ok) := by
  unfold addAligned
  split
  · exact addFail_effect h hop (.inl rfl) hreject
  · exact addFail_effect h hop (.inr (.inl rfl)) hreject
  · rename_i halign
    exact hok halign

theorem aligned_dlToSize {addr : ℕ} {dl : UInt8} (h : aligned addr (dlToSize dl) = .aligned) :
    dlToSize dl = 64 ∨ dlToSize dl = 128 ∨ dlToSize dl = 256 := by
  unfold dlToSize at h ⊢
  split_ifs at h ⊢
  · exact .inl rfl
  · exact .inr (.inl rfl)
  · exact .inr (.inr rfl)
  · simp [aligned] at h

theorem aligned_plToSize {addr : ℕ} {pl : UInt8} (h : aligned addr (plToSize pl) = .aligned) :
    plToSize pl ≤ 32 := by
  unfold plToSize at h ⊢
  split_ifs at h ⊢ <;> first | decide | simp [aligned] at h

theorem addRead_effect (h : HasRead s₀ s cmd) (hop : cmd.opcode ≠ afuCmdAssignActag) {size : ℕ}
    (hread : isReadCmd cmd.opcode = true) (hsize : aligned cmd.addr size = .aligned →
      (isFullRead cmd.opcode = true ∧ (size = 64 ∨ size = 128 ∨ size = 256)) ∨
        (isPartialRead cmd.opcode = true ∧ size ≤ 32)) :
    Effect s₀ (.cmd d) (addRead s d cmd size) := by
  refine addAligned_effect h hop (rejects_of_read hread) (fun halign => addFor_effect h hop
    (fun _ => rfl) (fun i => ⟨rfl, rfl, fun _ => ⟨rfl, ?_⟩, fun _ => ?_, fun hvalid =>
      Bool.noConfusion hvalid, .of_isMemory rfl (fun hamo => ?_)⟩))
  · rcases hsize halign with ⟨hfull, rfl | rfl | rfl⟩ | ⟨hpart, hle⟩
    · exact .inl ⟨hfull, .inl rfl⟩
    · exact .inl ⟨hfull, .inr (.inl rfl)⟩
    · exact .inl ⟨hfull, .inr (.inr rfl)⟩
    · exact .inr ⟨hpart, (Nat.mod_le _ _).trans hle⟩
  · exact .inr ⟨by simp [NewCmd.event], rfl, .inr (.inl ⟨by simp [NewCmd.event], rfl⟩)⟩
  · rw [hamo] at hread
    exact Bool.noConfusion hread

theorem addWrite_effect (h : HasRead s₀ s cmd) (hop : cmd.opcode ≠ afuCmdAssignActag) {size : ℕ}
    (hwrite : isWriteCmd cmd.opcode = true) (hsize : aligned cmd.addr size = .aligned →
      (isFullWrite cmd.opcode = true ∧ (size = 64 ∨ size = 128 ∨ size = 256)) ∨
        ((cmd.opcode = afuCmdDmaPrW ∨ cmd.opcode = afuCmdDmaPrWN) ∧ size ≤ 32) ∨
        ((cmd.opcode = afuCmdDmaWBe ∨ cmd.opcode = afuCmdDmaWBeN) ∧ size = 64))
    (dataIsValid : Bool) (be : UInt64) :
    Effect s₀ (.cmd d) (addWrite s d cmd size dataIsValid be) := by
  refine addAligned_effect h hop (rejects_of_write hwrite) (fun halign =>
    addFor_effect h hop (fun _ => rfl) (fun i => ?_))
  have hsize := hsize halign
  have hlength : cmd.opcode = afuCmdAmoRd → cmd.AmoLength := fun hamo => by
    rw [hamo] at hwrite
    exact Bool.noConfusion hwrite
  by_cases hbe : cmd.opcode = afuCmdDmaWBe ∨ cmd.opcode = afuCmdDmaWBeN
  · have hsize : size = 64 := by
      rcases hsize with ⟨hfull, -⟩ | ⟨hpart, -⟩ | ⟨-, hsize⟩
      · rcases hbe with hbe | hbe <;> rw [hbe] at hfull <;> exact absurd hfull (by decide)
      · rcases hbe with hbe | hbe <;> rw [hbe] at hpart <;> exact absurd hpart (by decide)
      · exact hsize
    subst hsize
    simp only [hbe, if_true]
    refine ⟨rfl, rfl, fun _ => ⟨rfl, hbe⟩, fun _ => ?_, fun _ => ⟨rfl, by simp, by simp⟩,
      .of_isMemory rfl hlength⟩
    exact .inr ⟨by simp [NewCmd.event], rfl, .inr (.inl ⟨by simp [NewCmd.event], rfl⟩)⟩
  · have hsize : (isFullWrite cmd.opcode = true ∧ (size = 64 ∨ size = 128 ∨ size = 256)) ∨
        ((cmd.opcode = afuCmdDmaPrW ∨ cmd.opcode = afuCmdDmaPrWN) ∧ size ≤ 32) := by
      rcases hsize with hfull | hpart | ⟨hbe', -⟩
      · exact .inl hfull
      · exact .inr hpart
      · exact absurd hbe' hbe
    simp only [hbe, if_false]
    refine ⟨rfl, rfl, fun _ => ⟨rfl, ?_⟩, fun _ => ?_, fun _ => ⟨rfl, by simp, by simp⟩,
      .of_isMemory rfl hlength⟩
    · rcases hsize with ⟨hfull, rfl | rfl | rfl⟩ | ⟨hpart, hle⟩
      · exact .inl ⟨hfull, .inl rfl⟩
      · exact .inl ⟨hfull, .inr (.inl rfl)⟩
      · exact .inl ⟨hfull, .inr (.inr rfl)⟩
      · exact .inr ⟨hpart, (Nat.mod_le _ _).trans hle⟩
    · exact .inr ⟨by simp [NewCmd.event], rfl, .inr (.inl ⟨by simp [NewCmd.event], rfl⟩)⟩

theorem amoSize_ok {size : ℕ} (h : amoSize cmd = .ok size) : size = 4 ∨ size = 8 := by
  unfold amoSize at h
  split_ifs at h <;> obtain rfl := Except.ok.inj h <;> simp

theorem amoLength_of_amoSize {size : ℕ} (h : amoSize cmd = .ok size) : cmd.AmoLength := by
  unfold amoSize at h
  unfold AfuTlxCmd.AmoLength
  by_cases h₁ : cmd.pl = 2 ∨ cmd.pl = 3
  · exact h₁.elim .inl (fun h₁ => .inr (.inl h₁))
  · by_cases h₂ : cmd.pl = 6 ∨ cmd.pl = 7
    · exact .inr (.inr h₂)
    · rw [if_neg h₁, if_neg h₂] at h
      cases h

/-- The opcodes of the atomic commands, with the type that `_parse_cmd` gives each. -/
def IsAmo (cmd : AfuTlxCmd) (type : CmdType) : Prop :=
  (type = .amoRd ∧ (cmd.opcode = afuCmdAmoRd ∨ cmd.opcode = afuCmdAmoRdN)) ∨
    (type = .amoRw ∧ isAmoRw cmd.opcode = true) ∨ (type = .amoWr ∧ isAmoW cmd.opcode = true)

theorem IsAmo.opcode {type : CmdType} (h : IsAmo cmd type) :
    cmd.opcode = afuCmdAmoRd ∨ cmd.opcode = afuCmdAmoRdN ∨ cmd.opcode = afuCmdAmoRw ∨
      cmd.opcode = afuCmdAmoRwN ∨ cmd.opcode = afuCmdAmoW ∨ cmd.opcode = afuCmdAmoWN := by
  rcases h with ⟨-, h | h⟩ | ⟨-, h⟩ | ⟨-, h⟩
  · exact .inl h
  · exact .inr (.inl h)
  · rcases (by simpa [isAmoRw] using h : cmd.opcode = afuCmdAmoRw ∨ cmd.opcode = afuCmdAmoRwN)
      with h | h <;> simp [h]
  · rcases (by simpa [isAmoW] using h : cmd.opcode = afuCmdAmoW ∨ cmd.opcode = afuCmdAmoWN)
      with h | h <;> simp [h]

theorem rejects_of_amo {type : CmdType} (h : IsAmo cmd type) :
    Rejects cmd (if isAmoRw cmd.opcode = true ∨ (cmd.opcode = afuCmdAmoRd ∧ cmd.AmoLength) then
      tlxRspReadFailed else tlxRspWriteFailed) := by
  constructor
  · by_cases hlength : cmd.AmoLength <;> rcases h.opcode with h | h | h | h | h | h <;>
      simp only [rejectOpcode, h, hlength] <;> decide
  · rcases h.opcode with h | h | h | h | h | h <;> rw [h] <;> decide

theorem amoSize_error {type : CmdType} (htype : IsAmo cmd type) {failOpcode : UInt8}
    (h : amoSize cmd = .error failOpcode) : Rejects cmd failOpcode := by
  refine ⟨?_, (rejects_of_amo htype).interrupt⟩
  rw [← (rejects_of_amo htype).opcode]
  unfold amoSize at h
  have hw : isAmoW cmd.opcode = true → isAmoRw cmd.opcode = false ∧ cmd.opcode ≠ afuCmdAmoRd := by
    intro h
    rcases (by simpa [isAmoW] using h : cmd.opcode = afuCmdAmoW ∨ cmd.opcode = afuCmdAmoWN)
      with h | h <;> rw [h] <;> decide
  by_cases h₁ : cmd.pl = 2 ∨ cmd.pl = 3
  · simp only [h₁, if_true] at h
    split_ifs at h with h₂
    rw [if_pos (.inl h₂.1)]
    exact (Except.error.inj h).symm
  · by_cases h₂ : cmd.pl = 6 ∨ cmd.pl = 7
    · simp only [h₁, h₂, if_true, if_false] at h
      split_ifs at h with h₃
      simpa [hw h₃] using (Except.error.inj h).symm
    · have hlength : ¬ cmd.AmoLength := fun hl => hl.elim (fun hl => h₁ (.inl hl)) (fun hl =>
        hl.elim (fun hl => h₁ (.inr hl)) h₂)
      simpa [h₁, h₂, hlength] using h.symm

theorem amoReads_iff (opcode : UInt8) :
    amoReads opcode = true ↔ isAmoRw opcode = true ∨ opcode = afuCmdAmoRd := by
  simp [amoReads]

theorem addAmo_effect (h : HasRead s₀ s cmd) (hop : cmd.opcode ≠ afuCmdAssignActag) {type : CmdType}
    (htype : IsAmo cmd type) (dataIsValid : Bool) :
    Effect s₀ (.cmd d) (addAmo s d cmd type dataIsValid) := by
  unfold addAmo
  split
  · rename_i failOpcode hsize
    exact addFail_effect h hop (.inl rfl) (amoSize_error htype hsize)
  · rename_i size hsize
    have hlength := amoLength_of_amoSize hsize
    by_cases hoffset : aligned cmd.addr size = .badAddrOffset
    · rw [if_pos hoffset]
      refine addFail_effect h hop (.inr (.inl rfl)) ?_
      have hreject := rejects_of_amo htype
      simp only [hlength, and_true] at hreject
      simpa only [amoReads_iff] using hreject
    · rw [if_neg hoffset]
      refine addFor_effect h hop (fun _ => rfl) (fun i => ⟨rfl, rfl, fun _ => ?_, fun _ => ?_, fun _ =>
        ⟨rfl, ?_, ?_⟩, .of_isMemory ?_ (fun _ => hlength)⟩)
      · rcases htype with ⟨rfl, hrd | hrd⟩ | ⟨rfl, hrw⟩ | ⟨rfl, hw⟩
        · simp [CmdEvent.Shape, NewCmd.event, hrd, amoReads]
        · simp [CmdEvent.Shape, NewCmd.event, hrd, amoReads, isAmoRw, afuCmdAmoRdN, afuCmdAmoRd,
            afuCmdAmoRw, afuCmdAmoRwN]
        · simp [CmdEvent.Shape, NewCmd.event, hrw, amoReads]
        · have hreads : amoReads cmd.opcode = false := by
            rcases (by simpa [isAmoW] using hw : cmd.opcode = afuCmdAmoW ∨ cmd.opcode = afuCmdAmoWN)
              with hw | hw <;> rw [hw] <;> decide
          simp [CmdEvent.Shape, NewCmd.event, hw, hreads]
      · refine .inr ⟨?_, rfl, .inr (.inl ⟨?_, rfl⟩)⟩
        · rcases htype with ⟨rfl, -⟩ | ⟨rfl, -⟩ | ⟨rfl, -⟩ <;> simp [NewCmd.event]
        · rcases htype with ⟨rfl, -⟩ | ⟨rfl, -⟩ | ⟨rfl, -⟩ <;> simp [NewCmd.event]
      · rcases htype with ⟨rfl, -⟩ | ⟨rfl, -⟩ | ⟨rfl, -⟩ <;> simp
      · rcases amoSize_ok hsize with rfl | rfl <;> simp
      · rcases htype with ⟨rfl, -⟩ | ⟨rfl, -⟩ | ⟨rfl, -⟩ <;> rfl

theorem addInterrupt_effect (h : HasRead s₀ s cmd)
    (hcmd : cmd.opcode = afuCmdIntrpReq ∨ cmd.opcode = afuCmdIntrpReqD ∨ cmd.opcode = afuCmdWakeHostThrd)
    {size : ℕ} (hsize : cmd.opcode = afuCmdWakeHostThrd → size = 0) (dataIsValid : Bool) :
    Effect s₀ (.cmd d) (addInterrupt s d cmd size dataIsValid) := by
  have hop : cmd.opcode ≠ afuCmdAssignActag := by
    rcases hcmd with hcmd | hcmd | hcmd <;> rw [hcmd] <;> decide
  have hamo : cmd.opcode ≠ afuCmdAmoRd := by
    rcases hcmd with hcmd | hcmd | hcmd <;> rw [hcmd] <;> decide
  refine addFor_effect h hop (fun _ => rfl) (fun i => ?_)
  by_cases hwake : cmd.opcode = afuCmdWakeHostThrd
  · obtain rfl := hsize hwake
    simp only [hwake, if_true]
    refine ⟨rfl, hwake.symm, fun _ => rfl, fun _ => ?_, fun _ => ⟨rfl, by simp, by simp⟩,
      ⟨by simp, fun _ h => absurd h hamo, fun _ => rfl, by simp, by simp⟩⟩
    exact .inr ⟨by simp [NewCmd.event], rfl, .inr (.inl ⟨by simp [NewCmd.event], rfl⟩)⟩
  · simp only [hwake, if_false]
    refine ⟨rfl, rfl, fun _ => ?_, fun _ => ?_, fun _ => ⟨rfl, by simp, fun _ => .inr rfl⟩,
      ⟨by simp, fun _ h => absurd h hamo, by simp, fun _ => rfl, by simp⟩⟩
    · rcases hcmd with hcmd | hcmd | hcmd
      · exact .inl hcmd
      · exact .inr hcmd
      · exact absurd hcmd hwake
    · exact .inr ⟨by simp [NewCmd.event], rfl, .inr (.inl ⟨by simp [NewCmd.event], rfl⟩)⟩

theorem addXlateTouch_effect (h : HasRead s₀ s cmd)
    (hcmd : cmd.opcode = afuCmdXlateTouch ∨ cmd.opcode = afuCmdXlateTouchN) :
    Effect s₀ (.cmd d) (addXlateTouch s d cmd) := by
  have hop : cmd.opcode ≠ afuCmdAssignActag := by
    rcases hcmd with hcmd | hcmd <;> rw [hcmd] <;> decide
  have hamo : cmd.opcode ≠ afuCmdAmoRd := by
    rcases hcmd with hcmd | hcmd <;> rw [hcmd] <;> decide
  have hreject : Rejects cmd tlxRspTouchResp := by
    constructor
    · rcases hcmd with hcmd | hcmd <;> simp only [rejectOpcode, hcmd] <;> rfl
    · rcases hcmd with hcmd | hcmd <;> rw [hcmd] <;> decide
  refine addAligned_effect h hop hreject (fun _ => addFor_effect h hop (fun _ => rfl) (fun i => ?_))
  refine ⟨rfl, rfl, fun _ => hcmd, fun _ => ?_, fun hvalid => Bool.noConfusion hvalid,
    ⟨by simp, fun _ h => absurd h hamo, by simp, by simp, fun _ => rfl⟩⟩
  exact .inr ⟨by simp [NewCmd.event], rfl, .inl ⟨rfl, rfl⟩⟩

theorem assignActag_effect (h : HasRead s₀ s cmd) (hop : cmd.opcode = afuCmdAssignActag) :
    Effect s₀ (.cmd d) (assignActag s cmd.bdf cmd.pasid cmd.actag) := by
  have hslot : findClientByPasidAndBdf s cmd.bdf cmd.pasid =
      findClientByPasidAndBdf s₀ cmd.bdf cmd.pasid := h.findSlot _
  unfold assignActag
  split
  · rename_i hnone
    exact h.ignore (fun _ => hslot ▸ hnone)
  · rename_i i hfind
    have hclient : s.client = s₀.client := h.same.client
    obtain ⟨-, c, hc, -⟩ := findSlot_eq_some hfind
    refine .assign cmd d rfl h.offers i c hop (hslot ▸ hfind) (by rw [← hclient, hc]) ⟨h.same.list, ?_,
      h.same.nextId, h.same.trace, h.same.parms, h.same.maxClients⟩
    simp [Ocl.setClient, hc, hclient, Ocl.record]

theorem Effect.ite {s s₁ s₂ : Ocl} {a : Action} {p : Prop} [Decidable p] (h₁ : p → Effect s a s₁)
    (h₂ : ¬ p → Effect s a s₂) : Effect s a (if p then s₁ else s₂) :=
  iteInduction (motive := Effect s a) h₁ h₂

theorem parseCmd_effect (h : HasRead s₀ s cmd) (dataIsValid : Bool) :
    Effect s₀ (.cmd d) (parseCmd s d cmd dataIsValid) := by
  have hkept := h.keepData dataIsValid
  refine .ite (fun h₁ => assignActag_effect hkept h₁) (fun h₁ => ?_)
  refine .ite (fun h₂ => ?_) (fun n₂ => .ite (fun h₃ => ?_) (fun n₃ => .ite (fun h₄ => ?_) (fun n₄ =>
    .ite (fun h₅ => ?_) (fun n₅ => .ite (fun h₆ => ?_) (fun n₆ => .ite (fun h₇ => ?_) (fun n₇ =>
    .ite (fun h₈ => ?_) (fun n₈ => .ite (fun h₉ => ?_) (fun n₉ => .ite (fun h₁₀ => ?_) (fun n₁₀ =>
    .ite (fun h₁₁ => ?_) (fun n₁₁ => .ite (fun _ => ?_) (fun _ => .ite (fun h₁₃ => ?_) (fun n₁₃ =>
    ?_))))))))))))
  · have hfull : isFullRead cmd.opcode = true := by simpa [isFullRead] using h₂
    exact addRead_effect hkept h₁ (by simp [isReadCmd, hfull]) (fun halign => .inl ⟨hfull,
      aligned_dlToSize halign⟩)
  · have hpart : isPartialRead cmd.opcode = true := by simpa [isPartialRead] using h₃
    exact addRead_effect hkept h₁ (by simp [isReadCmd, hpart]) (fun halign => .inr ⟨hpart,
      aligned_plToSize halign⟩)
  · have hfull : isFullWrite cmd.opcode = true := by simpa [isFullWrite] using h₄
    exact addWrite_effect h h₁ (by simp [isWriteCmd, hfull]) (fun halign => .inl ⟨hfull,
      aligned_dlToSize halign⟩) _ _
  · exact addWrite_effect h h₁ (by rcases h₅ with h₅ | h₅ <;> simp [isWriteCmd, h₅])
      (fun halign => .inr (.inl ⟨h₅, aligned_plToSize halign⟩)) _ _
  · exact addWrite_effect h h₁ (by rcases h₆ with h₆ | h₆ <;> simp [isWriteCmd, h₆])
      (fun _ => .inr (.inr ⟨h₆, rfl⟩)) _ _
  · exact addAmo_effect h h₁ (.inl ⟨rfl, h₇⟩) _
  · exact addAmo_effect h h₁ (.inr (.inl ⟨rfl, by simpa [isAmoRw] using h₈⟩)) _
  · exact addAmo_effect h h₁ (.inr (.inr ⟨rfl, by simpa [isAmoW] using h₉⟩)) _
  · exact addInterrupt_effect h (.inr (.inl h₁₀)) (fun hwake => absurd (h₁₀.symm.trans hwake) (by decide)) _
  · exact addInterrupt_effect h (h₁₁.imp_right .inr) (fun _ => rfl) _
  · exact h.ignore (fun hassign => absurd hassign h₁)
  · exact addXlateTouch_effect hkept h₁₃
  · refine addFail_effect h h₁ (.inr (.inr rfl)) ⟨?_, ?_⟩
    · simp_all [rejectOpcode, isReadCmd, isWriteCmd, isFullRead, isPartialRead, isFullWrite, isAmoRw, isAmoW]
    · simp_all [isInterruptCmd]

end Reading

theorem handleCmd_effect (s : Ocl) (d : Draws) (hrunning : s.halted = false) :
    Effect s (.cmd d) (handleCmd s d) := by
  unfold handleCmd
  split
  · exact .quiet (.refl s)
  · rename_i cmd dataIsValid afuEvent hread
    have hoffers : s.Offers cmd := by
      unfold afuTlxReadCmdAndData at hread
      by_cases hvalid : s.afuEvent.afuCmd.valid = 0
      · simp [hvalid] at hread
      · simp only [hvalid, if_false, Prod.mk.injEq, Option.some.injEq] at hread
        exact ⟨hvalid, hread.1.1⟩
    by_cases htag : s.list.any (fun e => e.afutag = cmd.afutag) = true
    · simp only [htag, if_true]
      refine .ignore cmd d rfl hoffers (fun _ => .inl rfl) (fun _ => ?_) ⟨rfl, rfl, rfl, rfl, rfl, rfl⟩
      simpa using htag
    · simp only [htag, Bool.false_eq_true, if_false]
      have hfresh : ∀ x ∈ s.list, x.afutag ≠ cmd.afutag := fun x hx hxtag =>
        htag (List.any_eq_true.mpr ⟨x, hx, decide_eq_true hxtag⟩)
      have h : HasRead s { s with afuEvent, trace := s.trace ++ [Obs.command cmd] } cmd :=
        ⟨hoffers, ⟨rfl, rfl, rfl, rfl, rfl, rfl⟩, hrunning, hfresh⟩
      exact parseCmd_effect h _

/-! ## One step -/

theorem step_effect (s : Ocl) (a : Action) : Effect s a (s.step a) := by
  unfold Ocl.step
  split_ifs with hhalted
  · exact .quiet (.refl s)
  · cases a with
    | idle cycles => exact .quiet ⟨rfl, rfl, rfl, rfl, rfl, rfl⟩
    | signalAfu => exact .quiet ⟨rfl, rfl, rfl, rfl, rfl, rfl⟩
    | getAfuEvents socket => exact .quiet ⟨rfl, rfl, rfl, rfl, rfl, rfl⟩
    | mmio signals => exact .quiet ⟨rfl, rfl, rfl, rfl, rfl, rfl⟩
    | response rand => exact handleResponse_effect s rand _
    | bufferWrite d => exact handleBufferWrite_effect s d _
    | pendingSent d => exact handleXlateIntrpPendingSent_effect s d _
    | cmd d => exact handleCmd_effect s d (by simpa using hhalted)
    | cmdDataRead => exact handleAfuTlxCmdDataRead_effect s _
    | writeCmd d => exact handleAfuTlxWriteCmd_effect s d _
    | touch d =>
      rw [show s.act (.touch d) = s from handleTouch_eq s d]
      exact .quiet (.refl s)
    | interrupt d => exact handleInterrupt_effect s d _
    | writeBeOrAmo d => exact handleWriteBeOrAmo_effect s d _
    | client i input => exact handleClient_effect s i input
    | settle i => exact settleClient_effect s i
    | clear i => exact clearSlot_effect s i
    | associate bdf => exact clientAssociate_effect s bdf _

theorem step_parms (s : Ocl) (a : Action) : (s.step a).parms = s.parms := by
  cases step_effect s a <;> rename_i h <;> first | exact h.parms | assumption

theorem step_maxClients (s : Ocl) (a : Action) : (s.step a).maxClients = s.maxClients := by
  cases step_effect s a <;> rename_i h <;> first | exact h.maxClients | assumption

end Ocse
