import Ocse.CmdAdd

/-!
# Serving the events

The handlers that `_handle_afu` calls between a command's arrival and its response. Each picks the first
event it can serve, by list order, and either fails it on a draw, asks the client for the memory
operation, or moves its data. `event->client_state` is never assigned in the source, so its tests for a
client that is not valid always pass and do not appear here.
-/

namespace Ocse

def CmdEvent.fail (e : CmdEvent) (state : MemState) (respOpcode resp : UInt8) : CmdEvent :=
  { e with state, type := .failed, respOpcode, resp }

/-- The four injected outcomes of a memory command, in the order they are drawn. -/
def inject (p : Parms) (d : Draws) (failOpcode : UInt8) (e : CmdEvent) : Option CmdEvent :=
  if percentChance p.retryPercent d.retry then some (e.fail .done failOpcode 0x02)
  else if percentChance p.failedPercent d.failed then some (e.fail .done failOpcode 0x0e)
  else if percentChance p.derrorPercent d.derror then some (e.fail .done failOpcode 0x08)
  else if percentChance p.pendingPercent d.pending then some (e.fail .xlatePending failOpcode 0x04)
  else none

/-- Write to the client's socket. A failed write drops the client. -/
def Ocl.put (s : Ocl) (c : Client) (e : CmdEvent) (bytes : List UInt8) (ok : Bool) : Ocl × Client :=
  (s.record [.sent c.id e.id bytes], if ok then c else c.drop tlxIdleCycles .none)

/-- Send a memory request; the client has this one outstanding, dropped or not. -/
def Ocl.request (s : Ocl) (c : Client) (e : CmdEvent) (state : MemState) (bytes : List UInt8)
    (ok : Bool) : Ocl :=
  let (s, c) := s.put c e bytes ok
  (s.setEvent { e with state }).setClient e.context (some { c with memAccess := some e.id })

/-! ## Reads -/

def memoryReadMessage (e : CmdEvent) : List UInt8 := ocseMemoryRead :: beBytes 2 e.size ++ beBytes 8 e.addr

def isPartialRead (command : UInt8) : Bool := command = afuCmdPrRdWnitc || command = afuCmdPrRdWnitcN

def isFullRead (command : UInt8) : Bool := command = afuCmdRdWnitc || command = afuCmdRdWnitcN

def handleBufferWrite (s : Ocl) (d : Draws) : Ocl :=
  match s.list.find? (fun e => e.type = .read && e.state ≠ .done) with
  | none => s
  | some e =>
    match s.getClient e with
    | none => s
    | some c =>
      match e.state with
      | .idle =>
        if c.memAccess = none then
          match inject s.parms d tlxRspReadFailed e with
          | some e => s.setEvent e
          | none => s.request c e .request (memoryReadMessage e) d.put
        else s
      | .received =>
        if isPartialRead e.command || isFullRead e.command then
          s.setEvent { e with resp := tlxResponseDone, state := .done }
        else s
      | .casRd => s.request c e .request ((memoryReadMessage e).take 10) d.put
      | _ => s

/-! ## Writes -/

/-- One more beat of write data; the last one may be short. -/
def CmdEvent.nextBeat (e : CmdEvent) (bus : Buffer UInt8) : CmdEvent :=
  if 64 < e.size - e.dpartialAt then
    { e with data := e.data.write e.dpartialAt (bus.read 0 64), dpartialAt := e.dpartialAt + 64 }
  else
    { e with data := e.data.write e.dpartialAt (bus.read 0 (e.size - e.dpartialAt)), state := .received }

def handleAfuTlxCmdDataRead (s : Ocl) : Ocl :=
  match s.list.find? (fun e => e.type = .write && e.state = .buffer) with
  | none => s
  | some e =>
    match afuTlxReadCmdData s.afuEvent with
    | (true, afuEvent) => { s with afuEvent }.setEvent (e.nextBeat s.afuEvent.afuCdata.bus)
    | (false, afuEvent) => { s with afuEvent }

/-- A partial write takes its bytes from their place in the 64-byte beat. -/
def memoryWriteMessage (e : CmdEvent) : List UInt8 :=
  ocseMemoryWrite :: UInt8.ofNat ((e.size &&& 0x0F00) >>> 8) :: UInt8.ofNat (e.size &&& 0xFF) ::
    beBytes 8 e.addr ++ e.data.read (if e.size ≤ 32 then e.offset else 0) e.size

def handleAfuTlxWriteCmd (s : Ocl) (d : Draws) : Ocl :=
  match s.list.find? (fun e => e.type = .write && e.state = .received) with
  | none => s
  | some e =>
    match s.getClient e with
    | none => s
    | some c =>
      if c.memAccess ≠ none then s
      else match inject s.parms d tlxRspWriteFailed e with
        | some e => s.setEvent e
        | none => s.request c e .dmaMemResp (memoryWriteMessage e) d.put

/-! ## Writes with byte enable and atomic operations -/

def amoMessage (opcode : UInt8) (e : CmdEvent) (operands : List UInt8) : List UInt8 :=
  opcode :: UInt8.ofNat e.size :: beBytes 8 e.addr ++ e.cmdFlag :: e.cmdEndian :: operands

def writeBeOrAmoMessage (e : CmdEvent) : List UInt8 :=
  if e.type = .wrBe then
    ocseWrBe :: beBytes 2 e.size ++ beBytes 8 e.addr ++ beBytes 8 e.wrBe.toNat ++ e.data.read 0 e.size
  else if e.type = .amoWr then amoMessage ocseAmoWr e (e.data.read e.offset 16)
  else if e.type = .amoRw then amoMessage ocseAmoRw e (e.data.read e.offset 16)
  else amoMessage ocseAmoRd e []

def isWriteBeOrAmo (type : CmdType) : Bool :=
  type = .wrBe || type = .amoWr || type = .amoRw || type = .amoRd

/-- The event stays in `MEM_RECEIVED`; `memAccess` keeps it from being sent again. -/
def handleWriteBeOrAmo (s : Ocl) (d : Draws) : Ocl :=
  match s.list.find? (fun e => isWriteBeOrAmo e.type && e.state = .received) with
  | none => s
  | some e =>
    match s.getClient e with
    | none => s
    | some c =>
      if c.memAccess ≠ none then s
      else
        let failOpcode :=
          if e.type = .amoRd ∨ e.type = .amoRw then tlxRspReadFailed else tlxRspWriteFailed
        match inject s.parms d failOpcode e with
        | some e => s.setEvent e
        | none => s.request c e e.state (writeBeOrAmoMessage e) d.put

/-! ## Touches -/

def memoryTouchMessage (e : CmdEvent) : List UInt8 :=
  ocseMemoryTouch :: beBytes 8 e.addr ++ [e.cmdFlag, 0]

/-- The source compares the event's type with the touch opcodes, which no type equals. -/
def handleTouch (s : Ocl) (d : Draws) : Ocl :=
  match s.list.find? (fun e => (e.type.value = afuCmdXlateTouch.toNat ||
      e.type.value = afuCmdXlateTouchN.toNat) && e.state = .idle) with
  | none => s
  | some e =>
    match s.getClient e with
    | none => s
    | some c =>
      if c.memAccess ≠ none then s
      else if percentChance s.parms.retryPercent d.retry then
        s.setEvent (e.fail .done tlxRspTouchResp 0x02)
      else if percentChance s.parms.failedPercent d.failed then
        s.setEvent (e.fail .done tlxRspTouchResp 0x0e)
      else if percentChance s.parms.pendingPercent d.pending then
        s.setEvent (e.fail .xlatePending tlxRspTouchResp 0x04)
      else s.request c e .touch (memoryTouchMessage e) d.put

theorem handleTouch_eq (s : Ocl) (d : Draws) : handleTouch s d = s := by
  have hnone : s.list.find? (fun e => (e.type.value = afuCmdXlateTouch.toNat ||
      e.type.value = afuCmdXlateTouchN.toNat) && e.state = .idle) = none := by
    rw [List.find?_eq_none]
    intro e _
    cases e.type <;> simp [CmdType.value, afuCmdXlateTouch, afuCmdXlateTouchN]
  unfold handleTouch
  rw [hnone]

/-! ## Interrupts -/

def interruptMessage (e : CmdEvent) : List UInt8 :=
  (if e.type = .wakeHostThrd then ocseWakeHostThread
    else if e.command = afuCmdIntrpReqD then ocseInterruptD else ocseInterrupt) ::
    e.cmdFlag :: leBytes 8 e.addr ++
    (if e.command = afuCmdIntrpReqD then leBytes 2 e.size ++ e.data.read e.offset e.size else [])

/-- An interrupt's failures leave the response opcode as `_add_interrupt` set it. -/
def injectInterrupt (p : Parms) (d : Draws) (e : CmdEvent) : Option CmdEvent :=
  if percentChance p.intRetryPercent d.retry then some (e.fail .done e.respOpcode 0x02)
  else if percentChance p.intFailedPercent d.failed then some (e.fail .done e.respOpcode 0x0e)
  else if e.type ≠ .wakeHostThrd ∧ percentChance p.intPendingPercent d.pending then
    some (e.fail .intPending e.respOpcode 0x04)
  else if e.command = afuCmdIntrpReqD ∧ percentChance p.intDerrorPercent d.derror then
    some (e.fail .done e.respOpcode 0x08)
  else none

def handleInterrupt (s : Ocl) (d : Draws) : Ocl :=
  match s.list.find? (fun e => (e.type = .interrupt || e.type = .wakeHostThrd) &&
      (e.state = .idle || e.state = .received)) with
  | none => s
  | some e =>
    match s.getClient e with
    | none => s
    | some c =>
      match injectInterrupt s.parms d e with
      | some e => s.setEvent e
      | none =>
        let (s, c) := s.put c e (interruptMessage e) d.put
        (s.setEvent { e with state := .done }).setClient e.context (some c)

end Ocse
