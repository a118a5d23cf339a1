import Ocse.TlxAp

/-!
# The MMIO engine

Config accesses, MMIO accesses and LPC accesses wait in one list, in the order they came in. `send_mmio`
sends the command of the first one, and the AFU's response and response data are taken for an answer to
it. An event that is done is unlinked and left to the one who waits for it, by its `id`. A client's
departure takes away the one who waits, and nothing else.
-/

namespace Ocse

def ocseMmioAck : UInt8 := 0x11
def ocseLpcAck : UInt8 := 0x2e

/-! ## Events -/

/-- The states of `enum ocse_state` that an MMIO event takes. -/
inductive MmioState
  | idle | pending | buffer | done
  deriving DecidableEq, Repr

/-- An access. `size` is zero on a config access and on an MMIO of 32 or 64 bits, which keep their data
in `cmdData`; an LPC access has its data in `data`. -/
structure MmioEvent where
  id : ℕ
  rnw : Bool
  dw : Bool
  cfg : Bool
  cmdData : UInt64
  cmdPA : UInt64
  cmdPL : UInt8
  cmdDL : UInt8
  cmdDP : UInt8
  partialIndex : ℕ
  ack : UInt8
  respDL : UInt8
  respDP : UInt8
  respCode : UInt8
  respOpcode : UInt8
  beValid : Bool
  be : UInt64
  size : ℕ
  sizeReceived : ℕ
  data : Buffer UInt8
  state : MmioState

/-- What passes between the engine, its users and the AFU. -/
inductive MmioObs
  | added (id : ℕ)
  | sent (id : ℕ)
  | done (id : ℕ)
  | acked (client : ℕ) (bytes : List UInt8)
  deriving DecidableEq, Repr

/-- `access` is the `mmio_access` of the clients, by slot. -/
structure Mmio where
  afuEvent : AfuEvent
  list : List MmioEvent
  finished : List MmioEvent
  access : ℕ → Option ℕ
  nextId : ℕ
  halted : Bool
  trace : List MmioObs

/-- The part of the configuration that addresses are formed from. -/
structure MmioCfg where
  bar0 : UInt64
  globalMmioOffset : UInt64
  ppMmioOffset : UInt64
  ppMmioStride : UInt32
  context : ℕ

/-! ## Adding an access -/

/-- The base of a client's MMIO space. The stride is multiplied in 32 bits. -/
def MmioCfg.base (cfg : MmioCfg) (global : Bool) : UInt64 :=
  if global then cfg.bar0 + cfg.globalMmioOffset
  else cfg.bar0 + cfg.ppMmioOffset + (cfg.ppMmioStride * UInt32.ofNat cfg.context).toUInt64

/-- Fields that neither `_add_` function sets are those of fresh memory. -/
def MmioEvent.new (id : ℕ) (rnw : Bool) (cmdPA : UInt64) : MmioEvent :=
  { id, rnw, dw := false, cfg := false, cmdData := 0, cmdPA, cmdPL := 0, cmdDL := 0, cmdDP := 0
    partialIndex := 0, ack := 0, respDL := 0, respDP := 0, respCode := 0, respOpcode := 0
    beValid := false, be := 0, size := 0, sizeReceived := 0, data := Buffer.const 0, state := .idle }

def Mmio.append (m : Mmio) (e : ℕ → MmioEvent) : Mmio :=
  { m with
    list := m.list ++ [e m.nextId]
    nextId := m.nextId + 1
    trace := m.trace ++ [.added m.nextId] }

def addCfg (m : Mmio) (rnw dw : Bool) (addr : UInt64) (data : UInt64) : Mmio :=
  m.append (fun id => { MmioEvent.new id rnw addr with cfg := true, dw, cmdData := data })

def addMmio (m : Mmio) (cfg : MmioCfg) (rnw dw global : Bool) (addr : UInt64) (data : UInt64) : Mmio :=
  m.append (fun id => { MmioEvent.new id rnw (cfg.base global + addr) with dw, cmdData := data })

/-- LPC memory, the one region that is asked for. -/
def addMem (m : Mmio) (rnw : Bool) (size : ℕ) (addr : UInt64) (data : Buffer UInt8) (beValid : Bool)
    (be : UInt64) : Mmio :=
  m.append (fun id => { MmioEvent.new id rnw addr with size, data, beValid, be })

/-! ## Sending the command -/

/-- `cmd_PA & 0x3F` -/
def MmioEvent.offset (e : MmioEvent) : ℕ := e.cmdPA.toNat % 64

/-- `cmd_pL`, `cmd_dL` and the byte count of a memory access. A size with no encoding is sent all the
same. -/
def MmioEvent.encode (e : MmioEvent) : MmioEvent :=
  if e.size = 0 then
    { e with ack := ocseMmioAck, cmdDL := 0, cmdDP := 0, cmdPL := if e.dw then 3 else 2
             data := e.data.write 0 (leBytes 8 e.cmdData.toNat) }
  else
    { e with
      ack := ocseLpcAck
      cmdDP := 0
      cmdPL := if e.size = 2 then 1 else if e.size = 4 then 2 else if e.size = 8 then 3
        else if e.size = 16 then 4 else if e.size = 32 then 5 else 0
      cmdDL := if e.size = 64 then 1 else if e.size = 128 then 2 else if e.size = 256 then 3 else 0 }

def MmioEvent.byteCnt (e : MmioEvent) : ℕ :=
  if e.size = 0 then if e.dw then 8 else 4 else e.size % 2 ^ 16

/-- The data bus of a write: a partial access stands at its place in a line of zeros. -/
def MmioEvent.tdataBus (e : MmioEvent) : Buffer UInt8 :=
  if e.byteCnt < 64 then (Buffer.const 0).write e.offset (e.data.read 0 e.byteCnt)
  else (Buffer.const 0).write 0 (e.data.read 0 e.byteCnt)

/-- A config write puts its four bytes at the place of its address in a word. -/
def MmioEvent.cfgBus (e : MmioEvent) : Buffer UInt8 :=
  (Buffer.const 0).write (e.cmdPA.toNat % 4) ((leBytes 8 e.cmdData.toNat).take 4)

def MmioEvent.transmit (e : MmioEvent) (a : AfuEvent) : ℤ × AfuEvent :=
  if e.cfg then
    if e.rnw then tlxAfuSendCfgCmdAndData a tlxCmdConfigRead 0xdead 2 0 e.cmdPA 0 (Buffer.const 0)
    else tlxAfuSendCfgCmdAndData a tlxCmdConfigWrite 0xbeef 2 0 e.cmdPA 0 e.cfgBus
  else if e.rnw then
    if e.byteCnt < 64 then tlxAfuSendCmd a tlxCmdPrRdMem 0xcafe e.cmdDL e.cmdPL 0 0 e.cmdPA
    else tlxAfuSendCmd a tlxCmdRdMem 0xefac e.cmdDL e.cmdPL 0 0 e.cmdPA
  else if e.byteCnt < 64 then
    tlxAfuSendCmdAndData a tlxCmdPrWrMem 0xbead e.cmdDL e.cmdPL 0 0 e.cmdPA 0 e.tdataBus
  else if e.beValid then
    tlxAfuSendCmdAndData a tlxCmdWriteMemBe 0xbebe e.cmdDL e.cmdPL e.be 0 e.cmdPA 0 e.tdataBus
  else tlxAfuSendCmdAndData a tlxCmdWriteMem 0xdaeb e.cmdDL e.cmdPL 0 0 e.cmdPA 0 e.tdataBus

def sendMmio (m : Mmio) : Mmio :=
  match m.list with
  | [] => m
  | e :: rest =>
    if e.state ≠ .idle then m
    else
      let e := if e.cfg then { e with ack := ocseMmioAck } else e.encode
      match e.transmit m.afuEvent with
      | (rc, afuEvent) =>
        if rc = tlxSuccess then
          { m with afuEvent, list := { e with state := .pending } :: rest
                   trace := m.trace ++ [.sent e.id] }
        else { m with afuEvent, list := e :: rest }

/-! ## Responses -/

def respDldpIsLegal (cmdDL respDL respDP : UInt8) : Bool :=
  (cmdDL = 0 && respDL = 1) || (cmdDL = 1 && respDL = 1) ||
  (cmdDL = 2 && ((respDL = 1 && (respDP = 0 || respDP = 1)) || (respDL = 2 && respDP = 0))) ||
  (cmdDL = 3 && ((respDL = 1 && (respDP = 0 || respDP = 1 || respDP = 2 || respDP = 3)) ||
    (respDL = 2 && (respDP = 0 || respDP = 1)) || (respDL = 3 && respDP = 0)))

/-- The first event gets its outcome. -/
def Mmio.finish (m : Mmio) (e : MmioEvent) (rest : List MmioEvent) : Mmio :=
  { m with list := { e with state := .done } :: rest, trace := m.trace ++ [.done e.id] }

def Mmio.unlink (m : Mmio) (e : MmioEvent) (rest : List MmioEvent) : Mmio :=
  { m with list := rest, finished := m.finished ++ [e] }

/-- `handle_ap_resp` on a config access. -/
def handleCfgResp (m : Mmio) (e : MmioEvent) (rest : List MmioEvent) : Mmio :=
  match afuTlxReadCfgRespAndData m.afuEvent (if e.rnw then 0xdead else 0xbeef) with
  | (none, afuEvent) => { m with afuEvent }
  | (some (r, dataIsValid), afuEvent) =>
    let m := { m with afuEvent }
    if e.state ≠ .pending then m
    else
      let e := { e with respCode := r.code, respOpcode := r.opcode }
      let cfgReadData := if dataIsValid then loadLE r.rdataBus 0 4 else 0
      if e.rnw then m.finish { e with cmdData := UInt64.ofNat cfgReadData } rest
      else m.finish e rest

/-- `handle_ap_resp` on a memory access: a read goes on to gather its data. -/
def handleMemResp (m : Mmio) (e : MmioEvent) (rest : List MmioEvent) : Mmio :=
  match afuTlxReadResp m.afuEvent with
  | (none, afuEvent) => { m with afuEvent }
  | (some r, afuEvent) =>
    let m := { m with afuEvent }
    if e.state ≠ .pending then m
    else
      let e := { e with respCode := r.code, respOpcode := r.opcode }
      if e.rnw then
        if respDldpIsLegal e.cmdDL r.dl r.dp then
          { m with list := { e with respDL := r.dl, respDP := r.dp, partialIndex := 0
                                    state := .buffer } :: rest }
        else { m with halted := true }
      else m.finish e rest

def handleApResp (m : Mmio) : Mmio :=
  match m.list with
  | [] => m
  | e :: rest => if e.cfg then handleCfgResp m e rest else handleMemResp m e rest

/-! ## Response data -/

/-- Where a beat of a full read goes, or `none` for a `resp_dL` that is not a length. -/
def MmioEvent.beatOffset (e : MmioEvent) : Option ℕ :=
  if e.respDL = 1 then some (e.respDP.toNat * 64)
  else if e.respDL = 2 then some (e.respDP.toNat * 128 + e.partialIndex)
  else if e.respDL = 3 then some e.partialIndex
  else none

/-- `memcpy` of `length` bytes over the first bytes of `cmd_data`. -/
def MmioEvent.stash (e : MmioEvent) (bus : Buffer UInt8) (length : ℕ) : MmioEvent :=
  { e with cmdData := UInt64.ofNat (loadLE (((Buffer.const 0).write 0 (leBytes 8 e.cmdData.toNat)).write 0
      (bus.read e.offset length)) 0 8) }

/-- One more beat of a full read. -/
def MmioEvent.beat (e : MmioEvent) (bus : Buffer UInt8) (offset : ℕ) : MmioEvent :=
  { e with
    data := e.data.write offset (bus.read 0 64)
    partialIndex := (e.partialIndex + 64) % 2 ^ 16
    sizeReceived := (e.sizeReceived + 64) % 2 ^ 32 }

/-- The data of the first event, which is waiting for it. -/
def takeRespData (m : Mmio) (e : MmioEvent) (rest : List MmioEvent) (bus : Buffer UInt8) : Mmio :=
  let finish (e : MmioEvent) : Mmio := (m.finish e rest).unlink { e with state := .done } rest
  if e.size = 0 then finish (e.stash bus (if e.cmdPL = 2 then 4 else 8))
  else if e.size < 64 then finish { e with data := e.data.write 0 (bus.read e.offset e.size) }
  else match e.beatOffset with
    | none => { m with halted := true }
    | some offset =>
      let e := e.beat bus offset
      if e.sizeReceived = e.size then finish e else { m with list := e :: rest }

def handleApRespData (m : Mmio) : Mmio :=
  match m.list with
  | [] => m
  | e :: rest =>
    if e.cfg || !e.rnw then if e.state = .done then m.unlink e rest else m
    else match afuTlxReadRespData m.afuEvent with
      | (none, afuEvent) => { m with afuEvent }
      | (some bus, afuEvent) =>
        let m := { m with afuEvent }
        if e.state ≠ .buffer then m else takeRespData m e rest bus

/-- The part of `_handle_afu` that is about MMIO. The program ends at an illegal length. -/
def handleAfuMmio (m : Mmio) : Mmio :=
  let m := handleApResp m
  if m.halted then m else handleApRespData m

/-! ## The client's side -/

/-- A failed access is acknowledged without its data. -/
def MmioEvent.ackMessage (e : MmioEvent) : List UInt8 :=
  if (e.respOpcode = 0x02 ∨ e.respOpcode = 0x04) ∧ e.respCode ≠ 0 then [e.ack, e.respCode]
  else if e.rnw then
    e.ack :: e.respCode ::
      (if e.size ≠ 0 then e.data.read 0 e.size
        else if e.dw then beBytes 8 e.cmdData.toNat else beBytes 4 e.cmdData.toNat)
  else [e.ack, e.respCode]

def Mmio.setAccess (m : Mmio) (client : ℕ) (id : Option ℕ) : Mmio :=
  { m with access := fun i => if i = client then id else m.access i }

/-- `handle_mmio_done`: the event is freed when its client has been told. -/
def handleMmioDone (m : Mmio) (client : ℕ) : Mmio :=
  match m.access client with
  | none => m
  | some id =>
    match m.finished.find? (fun e => e.id = id) with
    | none => m
    | some e =>
      { m with
        finished := m.finished.filter (fun e => e.id ≠ id)
        trace := m.trace ++ [MmioObs.acked client e.ackMessage] }.setAccess client none

/-! ## Runs -/

/-- `frame` is a clock: the interface then shows what the AFU has sent. -/
inductive MmioAction
  | frame (afuEvent : AfuEvent)
  | cfg (rnw dw : Bool) (addr data : UInt64)
  | mmio (client : ℕ) (cfg : MmioCfg) (rnw dw global : Bool) (addr data : UInt64)
  | mem (client : ℕ) (rnw : Bool) (size : ℕ) (addr : UInt64) (data : Buffer UInt8) (beValid : Bool)
      (be : UInt64)
  | handleAfu
  | send
  | poll (client : ℕ)
  | depart (client : ℕ)

def Mmio.act (m : Mmio) : MmioAction → Mmio
  | .frame afuEvent => { m with afuEvent }
  | .cfg rnw dw addr data => addCfg m rnw dw addr data
  | .mmio client cfg rnw dw global addr data =>
      (addMmio m cfg rnw dw global addr data).setAccess client (some m.nextId)
  | .mem client rnw size addr data beValid be =>
      (addMem m rnw size addr data beValid be).setAccess client (some m.nextId)
  | .handleAfu => handleAfuMmio m
  | .send => sendMmio m
  | .poll client => handleMmioDone m client
  | .depart client => m.setAccess client none

def Mmio.step (m : Mmio) (a : MmioAction) : Mmio := if m.halted then m else m.act a

def Mmio.run (m : Mmio) (actions : List MmioAction) : Mmio := actions.foldl Mmio.step m

/-- The engine as `mmio_init` leaves it. -/
def mmioInit (afuEvent : AfuEvent) : Mmio :=
  { afuEvent, list := [], finished := [], access := fun _ => none, nextId := 0, halted := false, trace := [] }

end Ocse
