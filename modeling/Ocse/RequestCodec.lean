import Mathlib.Data.List.Infix
import Ocse.Lib.Wire
import Ocse.Admitted

/-!
# The requests of ocse to its clients

`_psl_loop` of libocxl reads one message a turn off the socket to ocse, and hands what it read to a
handler. Kept here are the messages that ocse sends on its own account, for a command of the AFU; those
that answer a call of the application are another matter. The bytes come in whole and in order, and the
answers that the handlers write get through.
-/

namespace Ocse

/-! ## The parser -/

/-- What a turn of `_psl_loop` hands to a handler. -/
inductive PslRequest
  | read (addr size : ℕ)
  | write (addr size : ℕ) (data : List UInt8)
  | writeBe (addr size : ℕ) (data : List UInt8) (wrBe : ℕ)
  | dmo (amoOp : UInt8) (opSize addr : ℕ) (functionCode : UInt8) (op1 op2 : ℕ) (cmdEndian : UInt8)
  | touch (addr : ℕ) (functionCode cmdPgSize : UInt8)
  | interrupt (cmdFlag : UInt8) (addr : ℕ)
  | interruptD (cmdFlag : UInt8) (addr dataSize : ℕ) (ddata : List UInt8)
  | wakeHostThread (cmdFlag : UInt8) (addr : ℕ)
  | unknown (opcode : UInt8)
  deriving DecidableEq, Repr

def getByte (stream : List UInt8) : Option (UInt8 × List UInt8) :=
  (getBytes 1 stream).map (fun (b, rest) => (b 0, rest))

def getMemoryRead (stream : List UInt8) : Option (PslRequest × List UInt8) := do
  let (size, stream) ← getBE 2 stream
  let (addr, stream) ← getBE 8 stream
  return (.read addr size, stream)

def getMemoryWrite (stream : List UInt8) : Option (PslRequest × List UInt8) := do
  let (size, stream) ← getBE 2 stream
  let (addr, stream) ← getBE 8 stream
  let (data, stream) ← getData size stream
  return (.write addr size data, stream)

def getWrBe (stream : List UInt8) : Option (PslRequest × List UInt8) := do
  let (size, stream) ← getBE 2 stream
  let (addr, stream) ← getBE 8 stream
  let (wrBe, stream) ← getBE 8 stream
  let (data, stream) ← getData size stream
  return (.writeBe addr size data wrBe, stream)

/-- The operands are copied as they stand, into integers of the host. -/
def getAmoWrOrRw (amoOp : UInt8) (stream : List UInt8) : Option (PslRequest × List UInt8) := do
  let (opSize, stream) ← getBE 1 stream
  let (addr, stream) ← getBE 8 stream
  let (buffer, stream) ← getBytes 18 stream
  return (.dmo amoOp opSize addr (buffer 0) (loadLE buffer 2 8) (loadLE buffer 10 8) (buffer 1), stream)

def getAmoRd (amoOp : UInt8) (stream : List UInt8) : Option (PslRequest × List UInt8) := do
  let (opSize, stream) ← getBE 1 stream
  let (addr, stream) ← getBE 8 stream
  let (buffer, stream) ← getBytes 2 stream
  return (.dmo amoOp opSize addr (buffer 0) 0 0 (buffer 1), stream)

def getMemoryTouch (stream : List UInt8) : Option (PslRequest × List UInt8) := do
  let (addr, stream) ← getBE 8 stream
  let (buffer, stream) ← getBytes 2 stream
  return (.touch addr (buffer 0) (buffer 1), stream)

/-- The part of `_handle_interrupt` that reads the socket. -/
def getInterrupt (dataIsValid : Bool) (stream : List UInt8) : Option (PslRequest × List UInt8) := do
  let (cmdFlag, stream) ← getByte stream
  let (addr, stream) ← getLE 8 stream
  if dataIsValid then
    let (dataSize, stream) ← getLE 2 stream
    let (ddata, stream) ← getData dataSize stream
    return (.interruptD cmdFlag addr dataSize ddata, stream)
  else return (.interrupt cmdFlag addr, stream)

def getWakeHostThread (stream : List UInt8) : Option (PslRequest × List UInt8) := do
  let (cmdFlag, stream) ← getByte stream
  let (addr, stream) ← getLE 8 stream
  return (.wakeHostThread cmdFlag addr, stream)

def pslRequest (stream : List UInt8) : Option (PslRequest × List UInt8) := do
  let (opcode, stream) ← getByte stream
  if opcode = ocseMemoryRead then getMemoryRead stream
  else if opcode = ocseMemoryWrite then getMemoryWrite stream
  else if opcode = ocseWrBe then getWrBe stream
  else if opcode = ocseAmoWr ∨ opcode = ocseAmoRw then getAmoWrOrRw opcode stream
  else if opcode = ocseAmoRd then getAmoRd opcode stream
  else if opcode = ocseMemoryTouch then getMemoryTouch stream
  else if opcode = ocseInterruptD then getInterrupt true stream
  else if opcode = ocseInterrupt then getInterrupt false stream
  else if opcode = ocseWakeHostThread then getWakeHostThread stream
  else return (.unknown opcode, stream)

/-- `_handle_interrupt` fails on an address that no `irq` of the application has, and the loop ends. -/
def PslRequest.survives (irqs : List ℕ) : PslRequest → Bool
  | .interrupt _ addr => irqs.contains addr
  | .interruptD _ addr _ _ => irqs.contains addr
  | _ => true

/-- One message a turn, with the interrupts that the application has allocated at that time. -/
def pslLoop (turns : List (List ℕ)) (stream : List UInt8) : List PslRequest × List UInt8 :=
  decodeTurns pslRequest PslRequest.survives turns stream

/-! ## What an event asks for -/

/-- The message that the handlers send for an event. -/
def CmdEvent.clientMessage (e : CmdEvent) : List UInt8 :=
  if e.type.isInterrupt then interruptMessage e else e.requestMessage

/-- What the message of an event is about. -/
def CmdEvent.request (e : CmdEvent) : PslRequest :=
  match e.type with
  | .read => .read e.addr e.size
  | .write => .write e.addr e.size (e.data.read (if e.size ≤ 32 then e.offset else 0) e.size)
  | .wrBe => .writeBe e.addr e.size (e.data.read 0 e.size) e.wrBe.toNat
  | .amoWr => .dmo ocseAmoWr e.size e.addr e.cmdFlag (loadLE e.data e.offset 8)
      (loadLE e.data (e.offset + 8) 8) e.cmdEndian
  | .amoRw => .dmo ocseAmoRw e.size e.addr e.cmdFlag (loadLE e.data e.offset 8)
      (loadLE e.data (e.offset + 8) 8) e.cmdEndian
  | .wakeHostThrd => .wakeHostThread e.cmdFlag e.addr
  | .interrupt =>
      if e.command = afuCmdIntrpReqD then
        .interruptD e.cmdFlag e.addr e.size (e.data.read e.offset e.size)
      else .interrupt e.cmdFlag e.addr
  | _ => .dmo ocseAmoRd e.size e.addr e.cmdFlag 0 0 e.cmdEndian

/-- The sizes of the commands that `_parse_cmd` accepts, `pl` being at most 5 on an interrupt. -/
def CmdEvent.LegalSize (e : CmdEvent) : Prop :=
  match e.type with
  | .read | .write => e.size ≤ 256
  | .wrBe => e.size = 64
  | .amoRd | .amoRw | .amoWr => e.size = 4 ∨ e.size = 8
  | .interrupt => e.command = afuCmdIntrpReqD → e.size ≤ 32
  | .wakeHostThrd => e.command ≠ afuCmdIntrpReqD
  | _ => False

structure CmdEvent.Accepted (e : CmdEvent) : Prop where
  addr : e.addr < 256 ^ 8
  size : e.LegalSize

/-! ## One message -/

@[simp] theorem getByte_cons (x : UInt8) (rest : List UInt8) : getByte (x :: rest) = some (x, rest) := by
  rw [getByte, ← List.singleton_append, getBytes_append (by simp)]
  rfl

@[simp] theorem getBE_one (x : UInt8) (rest : List UInt8) : getBE 1 (x :: rest) = some (x.toNat, rest) := by
  rw [← List.singleton_append, show [x] = beBytes 1 x.toNat by simp [beBytes]]
  exact getBE_append (by simpa using x.toNat_lt) rest

theorem memoryWrite_size_bytes {size : ℕ} (h : size ≤ 256) :
    [UInt8.ofNat ((size &&& 0x0F00) >>> 8), UInt8.ofNat (size &&& 0xFF)] = beBytes 2 size := by
  have hall : ∀ size < 257,
      [UInt8.ofNat ((size &&& 0x0F00) >>> 8), UInt8.ofNat (size &&& 0xFF)] = beBytes 2 size := by decide +kernel
  exact hall size (by omega)

section Message

variable {e : CmdEvent}

theorem pslRequest_memoryRead (haddr : e.addr < 256 ^ 8) (hsize : e.size ≤ 256) (rest : List UInt8) :
    pslRequest (memoryReadMessage e ++ rest) = some (.read e.addr e.size, rest) := by
  have hsize' : getBE 2 (beBytes 2 e.size ++ (beBytes 8 e.addr ++ rest)) =
      some (e.size, beBytes 8 e.addr ++ rest) := getBE_append (by omega) _
  simp [pslRequest, memoryReadMessage, getMemoryRead, hsize', getBE_append haddr]

theorem pslRequest_memoryWrite (haddr : e.addr < 256 ^ 8) (hsize : e.size ≤ 256) (rest : List UInt8) :
    pslRequest (memoryWriteMessage e ++ rest) =
      some (.write e.addr e.size (e.data.read (if e.size ≤ 32 then e.offset else 0) e.size), rest) := by
  generalize hdata : e.data.read (if e.size ≤ 32 then e.offset else 0) e.size = data
  have hlength : data.length = e.size := by rw [← hdata, Buffer.length_read]
  have hmessage : memoryWriteMessage e ++ rest =
      ocseMemoryWrite :: (beBytes 2 e.size ++ (beBytes 8 e.addr ++ (data ++ rest))) := by
    simp [memoryWriteMessage, ← memoryWrite_size_bytes hsize, hdata]
  have hsize' : e.size < 256 ^ 2 := by omega
  simp [hmessage, pslRequest, getMemoryWrite, getBE_append hsize', getBE_append haddr,
    getData_append hlength, ocseMemoryWrite, ocseMemoryRead]

theorem pslRequest_wrBe (htype : e.type = .wrBe) (haddr : e.addr < 256 ^ 8) (hsize : e.size = 64)
    (rest : List UInt8) :
    pslRequest (writeBeOrAmoMessage e ++ rest) =
      some (.writeBe e.addr e.size (e.data.read 0 e.size) e.wrBe.toNat, rest) := by
  have hsize' : e.size < 256 ^ 2 := by omega
  have hwrBe : e.wrBe.toNat < 256 ^ 8 := e.wrBe.toNat_lt
  have hlength : (e.data.read 0 e.size).length = e.size := Buffer.length_read _ _ _
  simp [writeBeOrAmoMessage, htype, pslRequest, getWrBe, getBE_append hsize', getBE_append haddr,
    getBE_append hwrBe, getData_append hlength, ocseMemoryRead, ocseMemoryWrite, ocseWrBe]

/-- The operands arrive in the places from which `_psl_loop` copies them. -/
theorem amo_operands (data : Buffer UInt8) (offset : ℕ) (flag endian : UInt8) :
    let buffer := (Buffer.const 0).write 0 (flag :: endian :: data.read offset 16)
    buffer 0 = flag ∧ buffer 1 = endian ∧ loadLE buffer 2 8 = loadLE data offset 8 ∧
      loadLE buffer 10 8 = loadLE data (offset + 8) 8 := by
  intro buffer
  have hholds := Buffer.holds_write (Buffer.const 0) 0 (flag :: endian :: data.read offset 16)
  rw [Buffer.holds_cons, Buffer.holds_cons, Buffer.holds_read_iff] at hholds
  obtain ⟨hflag, hendian, hdata⟩ := hholds
  refine ⟨hflag, hendian, loadLE_congr fun i hi => hdata i (by omega), loadLE_congr fun i hi => ?_⟩
  have hbyte := hdata (8 + i) (by omega)
  rw [← Nat.add_assoc, ← Nat.add_assoc] at hbyte
  exact hbyte

theorem amo_size_byte (hsize : e.size = 4 ∨ e.size = 8) : (UInt8.ofNat e.size).toNat = e.size := by
  rw [UInt8.toNat_ofNat', Nat.mod_eq_of_lt (by omega)]

theorem pslRequest_amoWrOrRw {amoOp : UInt8} (hop : amoOp = ocseAmoWr ∨ amoOp = ocseAmoRw)
    (haddr : e.addr < 256 ^ 8) (hsize : e.size = 4 ∨ e.size = 8) (rest : List UInt8) :
    pslRequest (amoMessage amoOp e (e.data.read e.offset 16) ++ rest) =
      some (.dmo amoOp e.size e.addr e.cmdFlag (loadLE e.data e.offset 8)
        (loadLE e.data (e.offset + 8) 8) e.cmdEndian, rest) := by
  obtain ⟨hflag, hendian, hop1, hop2⟩ := amo_operands e.data e.offset e.cmdFlag e.cmdEndian
  have hlength : (e.cmdFlag :: e.cmdEndian :: e.data.read e.offset 16).length = 18 := by simp
  have hmessage : amoMessage amoOp e (e.data.read e.offset 16) ++ rest =
      amoOp :: UInt8.ofNat e.size :: (beBytes 8 e.addr ++
        (e.cmdFlag :: e.cmdEndian :: e.data.read e.offset 16 ++ rest)) := by
    simp [amoMessage]
  have hfields : getAmoWrOrRw amoOp (UInt8.ofNat e.size :: (beBytes 8 e.addr ++
      (e.cmdFlag :: e.cmdEndian :: e.data.read e.offset 16 ++ rest))) =
      some (.dmo amoOp e.size e.addr e.cmdFlag (loadLE e.data e.offset 8)
        (loadLE e.data (e.offset + 8) 8) e.cmdEndian, rest) := by
    rw [getAmoWrOrRw]
    simp only [getBE_one, getBE_append haddr, getBytes_append hlength, Option.bind_eq_bind,
      Option.bind_some, hflag, hendian, hop1, hop2, amo_size_byte hsize]
    rfl
  rw [hmessage, pslRequest, getByte_cons]
  rcases hop with rfl | rfl
  · exact hfields
  · exact hfields

theorem pslRequest_amoRd (haddr : e.addr < 256 ^ 8) (hsize : e.size = 4 ∨ e.size = 8)
    (rest : List UInt8) :
    pslRequest (amoMessage ocseAmoRd e [] ++ rest) =
      some (.dmo ocseAmoRd e.size e.addr e.cmdFlag 0 0 e.cmdEndian, rest) := by
  have hmessage : amoMessage ocseAmoRd e [] ++ rest =
      ocseAmoRd :: UInt8.ofNat e.size :: (beBytes 8 e.addr ++ ([e.cmdFlag, e.cmdEndian] ++ rest)) := by
    simp [amoMessage]
  have hfields : getAmoRd ocseAmoRd (UInt8.ofNat e.size :: (beBytes 8 e.addr ++
      ([e.cmdFlag, e.cmdEndian] ++ rest))) =
      some (.dmo ocseAmoRd e.size e.addr e.cmdFlag 0 0 e.cmdEndian, rest) := by
    rw [getAmoRd]
    simp only [getBE_one, getBE_append haddr,
      getBytes_append (show [e.cmdFlag, e.cmdEndian].length = 2 from rfl), Option.bind_eq_bind,
      Option.bind_some, amo_size_byte hsize]
    rfl
  rw [hmessage, pslRequest, getByte_cons]
  exact hfields

theorem pslRequest_interrupt (htype : e.type.isInterrupt = true) (h : e.Accepted) (rest : List UInt8) :
    pslRequest (interruptMessage e ++ rest) = some (e.request, rest) := by
  have haddr := h.addr
  have hsize := h.size
  cases htype' : e.type <;> simp only [htype', CmdType.isInterrupt, Bool.false_eq_true] at htype
  · by_cases hD : e.command = afuCmdIntrpReqD
    · simp only [CmdEvent.LegalSize, htype'] at hsize
      have hsize' : e.size < 256 ^ 2 := by have := hsize hD; omega
      have hlength : (e.data.read e.offset e.size).length = e.size := Buffer.length_read _ _ _
      simp [interruptMessage, CmdEvent.request, htype', hD, pslRequest, getInterrupt, getLE_append haddr,
        getLE_append hsize', getData_append hlength, ocseMemoryRead, ocseMemoryWrite, ocseWrBe, ocseAmoWr,
        ocseAmoRw, ocseAmoRd, ocseMemoryTouch, ocseInterruptD]
    · simp [interruptMessage, CmdEvent.request, htype', hD, pslRequest, getInterrupt, getLE_append haddr,
        ocseMemoryRead, ocseMemoryWrite, ocseWrBe, ocseAmoWr, ocseAmoRw, ocseAmoRd, ocseMemoryTouch,
        ocseInterruptD, ocseInterrupt]
  · simp only [CmdEvent.LegalSize, htype'] at hsize
    simp [interruptMessage, CmdEvent.request, htype', hsize, pslRequest, getWakeHostThread,
      getLE_append haddr, ocseMemoryRead, ocseMemoryWrite, ocseWrBe, ocseAmoWr, ocseAmoRw, ocseAmoRd,
      ocseMemoryTouch, ocseInterruptD, ocseInterrupt, ocseWakeHostThread]

/-- Whatever follows it, a message is read back and nothing else is. -/
theorem pslRequest_clientMessage (h : e.Accepted) (rest : List UInt8) :
    pslRequest (e.clientMessage ++ rest) = some (e.request, rest) := by
  have haddr := h.addr
  have hsize := h.size
  by_cases hint : e.type.isInterrupt = true
  · rw [CmdEvent.clientMessage, if_pos hint]
    exact pslRequest_interrupt hint h rest
  · rw [CmdEvent.clientMessage, if_neg hint, CmdEvent.requestMessage]
    cases htype : e.type <;> simp only [CmdEvent.LegalSize, htype] at hsize <;>
      simp only [CmdEvent.request, htype]
    · exact pslRequest_memoryRead haddr hsize rest
    · exact pslRequest_memoryWrite haddr hsize rest
    · simp [htype, CmdType.isInterrupt] at hint
    · simp [htype, CmdType.isInterrupt] at hint
    · exact pslRequest_wrBe htype haddr hsize rest
    · rw [writeBeOrAmoMessage, htype]
      exact pslRequest_amoRd haddr hsize rest
    · rw [writeBeOrAmoMessage, htype]
      exact pslRequest_amoWrOrRw (.inr rfl) haddr hsize rest
    · rw [writeBeOrAmoMessage, htype]
      exact pslRequest_amoWrOrRw (.inl rfl) haddr hsize rest

theorem survives_request_iff (h : e.Accepted) (irqs : List ℕ) :
    e.request.survives irqs = true ↔ (e.type = .interrupt → e.addr ∈ irqs) := by
  have hsize := h.size
  by_cases hD : e.command = afuCmdIntrpReqD
  all_goals
    cases htype : e.type <;> simp only [CmdEvent.LegalSize, htype] at hsize <;>
      simp [CmdEvent.request, PslRequest.survives, htype, hD]

end Message

/-! ## Accepted commands -/

section Accepted

variable {s : Ocl} {d : Draws} {cmd : AfuTlxCmd} {e : CmdEvent}

/-- An event that goes to no client, or one whose message can be read. -/
def CmdEvent.Sendable (e : CmdEvent) : Prop := e.type = .failed ∨ e.type = .touch ∨ e.Accepted

/-- Whatever events `s'` has beyond those of `s` are sendable. -/
def AddsSendable (s s' : Ocl) : Prop := ∀ e ∈ s'.list, e ∈ s.list ∨ e.Sendable

theorem AfuTlxCmd.addr_lt (cmd : AfuTlxCmd) : cmd.addr < 256 ^ 8 := loadLE_lt _ _ _

theorem CmdEvent.Admitted.sendable (h : e.Admitted cmd)
    (hpl : cmd.opcode = afuCmdIntrpReqD → cmd.pl ≤ 5) : e.Sendable := by
  have hsize := h.size
  have haccepted : e.type ≠ .failed → e.LegalSize → e.Sendable := fun hfailed hlegal =>
    .inr (.inr ⟨h.addr hfailed ▸ cmd.addr_lt, hlegal⟩)
  have htransfer : IsTransferSize e.size → e.size ≤ 256 := by
    unfold IsTransferSize
    omega
  cases htype : e.type <;> simp only [CmdEvent.AdmittedSize, htype] at hsize
  case failed => exact .inl htype
  case touch => exact .inr (.inl htype)
  all_goals
    refine haccepted (by simp [htype]) ?_
    simp only [CmdEvent.LegalSize, htype]
  case read => exact htransfer hsize.2
  case write => exact htransfer hsize.2
  case interrupt =>
    intro hD
    rw [hsize.1] at hD
    rw [hsize.2 hD]
    exact (Nat.mod_le _ _).trans (plToSize_le (hpl hD))
  all_goals exact hsize

/-- Every event that a command adds has a message that can be read, if it has one at all. -/
theorem parseCmd_sendable (hpl : cmd.opcode = afuCmdIntrpReqD → cmd.pl ≤ 5) (dataIsValid : Bool) :
    AddsSendable s (parseCmd s d cmd dataIsValid) := by
  intro e he
  rcases parseCmd_admits dataIsValid e he with hold | hnew
  · exact .inl hold
  · exact .inr (hnew.sendable hpl)

end Accepted

/-! ## The stream -/

/-- The loop reads back what was sent, message by message, unless an interrupt that is followed by
another message is for an address that the application has not allocated. -/
theorem requestCodec_iff (sends : List (CmdEvent × List ℕ)) (h : ∀ x ∈ sends, x.1.Accepted) :
    pslLoop (sends.map Prod.snd) (sends.flatMap (fun x => x.1.clientMessage)) =
        (sends.map (fun x => x.1.request), []) ↔
      ∀ x ∈ sends.dropLast, x.1.type = .interrupt → x.1.addr ∈ x.2 := by
  rw [pslLoop, decodeTurns_flatMap_iff pslRequest PslRequest.survives (fun x => x.1.clientMessage)
    (fun x => x.1.request) Prod.snd sends (fun x hx rest => pslRequest_clientMessage (h x hx) rest)]
  constructor
  · intro hall x hx
    exact (survives_request_iff (h x (List.mem_of_mem_dropLast hx)) x.2).mp (hall x hx)
  · intro hall x hx
    exact (survives_request_iff (h x (List.mem_of_mem_dropLast hx)) x.2).mpr (hall x hx)

def sampleSend (type : CmdType) (command : UInt8) (addr size : ℕ) : CmdEvent :=
  { id := 0, addr, context := 0, command, afutag := 0, size, resp := 0, respDl := 0, respDp := 0
    respOpcode := 0, dpartialAt := 0, wrBe := 0xFF, respBytesSent := 0, cmdFlag := 3, cmdEndian := 1
    data := UInt8.ofNat, type, state := .received }

/-- An interrupt with data for `addr`, then a read, while the application has allocated `irqs`. -/
def interruptThenRead (addr : ℕ) (irqs : List ℕ) : List (CmdEvent × List ℕ) :=
  [(sampleSend .interrupt afuCmdIntrpReqD addr 4, irqs), (sampleSend .read afuCmdRdWnitc 0x2000 64, irqs)]

theorem interruptThenRead_accepted {addr : ℕ} (haddr : addr < 256 ^ 8) (irqs : List ℕ) :
    ∀ x ∈ interruptThenRead addr irqs, x.1.Accepted := by
  intro x hx
  rcases List.mem_pair.mp hx with rfl | rfl
  · exact ⟨haddr, fun _ => show 4 ≤ 32 by decide⟩
  · exact ⟨show 0x2000 < 256 ^ 8 by decide, show 64 ≤ 256 by decide⟩

theorem interruptThenRead_recovered :
    pslLoop [[0x1000], [0x1000]] ((interruptThenRead 0x1000 [0x1000]).flatMap
      (fun x => x.1.clientMessage)) = ((interruptThenRead 0x1000 [0x1000]).map (fun x => x.1.request), []) :=
  (requestCodec_iff (interruptThenRead 0x1000 [0x1000])
    (interruptThenRead_accepted (by decide) _)).mpr (by decide)

/-- The application has allocated no interrupt: the loop ends, and the read is never looked at. -/
theorem unknownIrq_desynchronised : (∀ x ∈ interruptThenRead 0x1000 [], x.1.Accepted) ∧
    pslLoop [[], []] ((interruptThenRead 0x1000 []).flatMap (fun x => x.1.clientMessage)) =
      ([.interruptD 3 0x1000 4 [0, 1, 2, 3]], memoryReadMessage (sampleSend .read afuCmdRdWnitc 0x2000 64)) ∧
    pslLoop [[], []] ((interruptThenRead 0x1000 []).flatMap (fun x => x.1.clientMessage)) ≠
      ((interruptThenRead 0x1000 []).map (fun x => x.1.request), []) :=
  ⟨interruptThenRead_accepted (by decide) _, by decide +kernel, by decide +kernel⟩

end Ocse
