import Ocse.TlxSend

/-!
# The state of the command engine

One `CmdEvent` tracks one AFU command from `_add_cmd` to the message that frees it. Pointers are
modelled by the `id` an allocation is given: a client's `memAccess` names the event it has been asked
about. Of a `client` the fields that the command engine reads are kept. Nothing in the engine reads
`trace`; it records what passed its interfaces, in order.
-/

namespace Ocse

/-! ## Opcodes -/

def afuCmdNop : UInt8 := 0x00
def afuCmdRdWnitc : UInt8 := 0x10
def afuCmdPrRdWnitc : UInt8 := 0x12
def afuCmdRdWnitcN : UInt8 := 0x14
def afuCmdPrRdWnitcN : UInt8 := 0x16
def afuCmdDmaW : UInt8 := 0x20
def afuCmdDmaWN : UInt8 := 0x24
def afuCmdDmaWBe : UInt8 := 0x28
def afuCmdDmaWBeN : UInt8 := 0x2c
def afuCmdDmaPrW : UInt8 := 0x30
def afuCmdDmaPrWN : UInt8 := 0x34
def afuCmdAmoRd : UInt8 := 0x38
def afuCmdAmoRdN : UInt8 := 0x3c
def afuCmdAmoRw : UInt8 := 0x40
def afuCmdAmoRwN : UInt8 := 0x44
def afuCmdAmoW : UInt8 := 0x48
def afuCmdAmoWN : UInt8 := 0x4c
def afuCmdAssignActag : UInt8 := 0x50
def afuCmdIntrpReq : UInt8 := 0x58
def afuCmdIntrpReqD : UInt8 := 0x5a
def afuCmdWakeHostThrd : UInt8 := 0x5c
def afuCmdWakeHostThrdS : UInt8 := 0x5d
def afuCmdXlateTouch : UInt8 := 0x78
def afuCmdXlateTouchN : UInt8 := 0x7c

def tlxCmdXlateDone : UInt8 := 0x18
def tlxCmdIntrpRdy : UInt8 := 0x1a

def tlxRspTouchResp : UInt8 := 0x02
def tlxRspReadResp : UInt8 := 0x04
def tlxRspReadFailed : UInt8 := 0x05
def tlxRspWriteResp : UInt8 := 0x08
def tlxRspWriteFailed : UInt8 := 0x09
def tlxRspIntrpResp : UInt8 := 0x0c
def tlxRspWakeHostResp : UInt8 := 0x10

def tlxResponseDone : UInt8 := 0
def tlxResponseFailed : UInt8 := 15

def ocseMemoryRead : UInt8 := 0x07
def ocseMemoryWrite : UInt8 := 0x08
def ocseMemoryTouch : UInt8 := 0x09
def ocseInterrupt : UInt8 := 0x13
def ocseWakeHostThread : UInt8 := 0x15
def ocseInterruptD : UInt8 := 0x16
def ocseWrBe : UInt8 := 0x21
def ocseAmoRd : UInt8 := 0x22
def ocseAmoRw : UInt8 := 0x23
def ocseAmoWr : UInt8 := 0x24

def tlxIdleCycles : ℕ := 200

/-! ## Events -/

inductive CmdType
  | read | write | touch | interrupt | wakeHostThrd | wrBe | amoRd | amoRw | amoWr
  | xlatRdTouch | xlatWrTouch | failed | other
  deriving DecidableEq, Repr

/-- The enumerator's value, for the one place that compares it with an opcode. -/
def CmdType.value : CmdType → ℕ
  | .read => 0 | .write => 1 | .touch => 2 | .interrupt => 3 | .wakeHostThrd => 4 | .wrBe => 5
  | .amoRd => 6 | .amoRw => 7 | .amoWr => 8 | .xlatRdTouch => 9 | .xlatWrTouch => 10
  | .failed => 11 | .other => 12

inductive MemState
  | idle | xlatePending | intPending | pendingSent | touch | touched | buffer | request | casRd
  | received | amoMemResp | dmaMemResp | done
  deriving DecidableEq, Repr

structure CmdEvent where
  id : ℕ
  addr : ℕ
  context : ℕ
  command : UInt8
  afutag : UInt16
  size : ℕ
  resp : UInt8
  respDl : UInt8
  respDp : UInt8
  respOpcode : UInt8
  dpartialAt : ℕ
  wrBe : UInt64
  respBytesSent : ℕ
  cmdFlag : UInt8
  cmdEndian : UInt8
  data : Buffer UInt8
  type : CmdType
  state : MemState

/-- `addr & ~CACHELINE_MASK` -/
def CmdEvent.offset (e : CmdEvent) : ℕ := e.addr % 64

/-! ## Clients and parameters -/

inductive ClientState
  | none | init | valid
  deriving DecidableEq, Repr

structure Client where
  id : ℕ
  context : ℕ
  state : ClientState
  idleCycles : ℕ
  pasid : UInt32
  bdf : UInt16
  actag : UInt16
  memAccess : Option ℕ
  deriving DecidableEq, Repr

def Client.drop (c : Client) (cycles : ℕ) (state : ClientState) : Client :=
  { c with idleCycles := cycles, state, memAccess := none }

/-- The parameters that the command engine draws against. `parse_parms` takes no other line size. -/
structure Parms where
  hostClSize : ℕ
  hostClSize_supported : hostClSize = 64 ∨ hostClSize = 128 ∨ hostClSize = 256
  retryPercent : ℤ
  failedPercent : ℤ
  derrorPercent : ℤ
  pendingPercent : ℤ
  intRetryPercent : ℤ
  intFailedPercent : ℤ
  intDerrorPercent : ℤ
  intPendingPercent : ℤ
  bdiRespErrPercent : ℤ
  reorderPercent : ℤ

/-- `percent_chance` on the value that `rand` returned. -/
def percentChance (chance : ℤ) (rand : ℕ) : Bool := decide (((rand % 100 : ℕ) : ℤ) < chance)

/-- What a handler meets outside the engine: the values of `rand`, in the order of the `allow` calls
of the source, and whether `put_bytes` reaches the client. -/
structure Draws where
  retry : ℕ
  failed : ℕ
  derror : ℕ
  pending : ℕ
  reorder : ℕ → ℕ
  put : Bool

/-! ## The record of a run -/

/-- A response staged to the AFU, with its data when it has some. -/
structure Response where
  afutag : UInt16
  opcode : UInt8
  code : UInt8
  dl : UInt8
  dp : UInt8
  data : Option (List UInt8)
  deriving DecidableEq, Repr

/-- How a client's message answered the request it had been sent. -/
inductive Answer
  | success | failure | shortData
  deriving DecidableEq, Repr

inductive Obs
  | command (c : AfuTlxCmd)
  | added (e : CmdEvent) (cmd : AfuTlxCmd) (client : ℕ)
  | responded (r : Response)
  | refused (afutag : UInt16)
  | posted (afutag : UInt16) (opcode code : UInt8)
  | removed (afutag : UInt16)
  | sent (client event : ℕ) (bytes : List UInt8)
  | answered (afutag : UInt16) (answer : Answer)
  | terminated (afutag : UInt16)
  | connected (client : ℕ) (bdf : UInt16) (pasid : UInt32)

/-! ## The engine -/

inductive OcseState
  | idle | running | reset | desc | done
  deriving DecidableEq, Repr

structure Ocl where
  afuEvent : AfuEvent
  list : List CmdEvent
  client : ℕ → Option Client
  maxClients : ℕ
  parms : Parms
  state : OcseState
  attachedClients : ℤ
  idleCycles : ℕ
  nextId : ℕ
  halted : Bool
  trace : List Obs

namespace Ocl

def record (s : Ocl) (obs : List Obs) : Ocl := { s with trace := s.trace ++ obs }

/-- The client an event belongs to, by slot; `NULL` when the slot is empty. -/
def getClient (s : Ocl) (e : CmdEvent) : Option Client :=
  if s.maxClients ≤ e.context then none else s.client e.context

/-- Store through the pointer to an event. -/
def setEvent (s : Ocl) (e : CmdEvent) : Ocl :=
  { s with list := s.list.map (fun x => if x.id = e.id then e else x) }

/-- Unlink an event and free it. -/
def freeEvent (s : Ocl) (e : CmdEvent) : Ocl :=
  { s with list := s.list.filter (fun x => x.id ≠ e.id) }

def setClient (s : Ocl) (i : ℕ) (c : Option Client) : Ocl :=
  { s with client := Function.update s.client i c }

end Ocl

end Ocse
