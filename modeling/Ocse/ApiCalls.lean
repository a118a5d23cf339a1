import Ocse.AckFraming
import Ocse.Lpc
import Ocse.MmioCoherence

/-!
# The calls of the library

A call checks its arguments, leaves a request in a slot and waits until the slot is idle. The thread of
`_psl_loop` sends the request and takes what ocse sends, one message in a turn; it makes a slot idle when the
acknowledgement comes, and every slot when the connection is lost or ocse detaches the client. A call looks at the
slot between two turns. The bytes that are sent are `MmioReq.message` and `MemReq.message`.
-/

namespace Ocse

inductive ReqState
  | idle | request | pending
  deriving DecidableEq, Repr

/-- The requests that a call may wait for. -/
inductive Slot
  | attach | mmio | mem
  deriving DecidableEq, Repr

/-- `struct ocxl_afu`, and whether the thread and the program still run. -/
structure LibAfu where
  opened : Bool
  attached : Bool
  mapped : Bool
  globalMapped : Bool
  lpcMapped : Bool
  state : Slot → ReqState
  mmioType : UInt8
  mmioAddr : UInt32
  mmioData : UInt64
  mmioCount : ℕ
  mmioMax : ℕ
  mem : MemReq
  memData : Option (List UInt8)
  running : Bool
  exited : Bool

/-- The flags that say what the client may do. -/
def LibAfu.flags (afu : LibAfu) : Bool × Bool × Bool × Bool :=
  (afu.attached, afu.mapped, afu.globalMapped, afu.lpcMapped)

def LibAfu.setState (afu : LibAfu) (slot : Slot) (state : ReqState) : LibAfu :=
  { afu with state := Function.update afu.state slot state }

/-! ## The thread -/

/-- What the thread finds on the socket. The bytes behind the opcode of an acknowledgement are those that come in
time; of the other messages only their ends are kept: a reply that cannot be written, a message that stops short,
an interrupt that nobody has asked for. -/
inductive PslMessage
  | quiet
  | lost
  | attach
  | detach
  | mmioAck (avail : List UInt8)
  | lpcAck (avail : List UInt8)
  | served
  | putFailed
  | starved
  | noIrq
  deriving DecidableEq, Repr

/-- One turn of `_psl_loop`: whether each request can be written, and the message. -/
structure PslInput where
  put : Slot → Bool
  message : PslMessage

/-- `_all_idle` -/
def LibAfu.allIdle (afu : LibAfu) : LibAfu :=
  { afu with
    state := fun _ => .idle
    mapped := false, globalMapped := false, attached := false, opened := false }

def isMmioRead64 (type : UInt8) : Bool := type = ocseMmioRead64 || type = ocseGlobalMmioRead64

def isMmioRead32 (type : UInt8) : Bool := type = ocseMmioRead32 || type = ocseGlobalMmioRead32

/-- `_ocse_attach`, `_mmio_map` and the other senders: a request that cannot be written is given up. -/
def LibAfu.send (afu : LibAfu) (slot : Slot) (put : Bool) : LibAfu :=
  if afu.state slot = .request then
    if put then afu.setState slot .pending
    else
      { afu with
        opened := false, attached := false
        mmioData := if slot = Slot.mmio ∧ (isMmioRead64 afu.mmioType || isMmioRead32 afu.mmioType) = true then
          0xFEEDB00FFEEDB00F else afu.mmioData }.setState slot .idle
  else afu

/-- `_handle_ack`. A response code has no effect. -/
def LibAfu.handleAck (afu : LibAfu) (avail : List UInt8) : LibAfu :=
  let (afu, stream) := match getBytes 1 avail with
    | none => (afu.allIdle, avail)
    | some (_, stream) => (afu, stream)
  let afu :=
    if isMmioRead64 afu.mmioType then
      match getBE 8 stream with
      | none => { afu.allIdle with mmioData := 0xFEEDB00FFEEDB00F }
      | some (data, _) => { afu with mmioData := UInt64.ofNat data }
    else if isMmioRead32 afu.mmioType then
      match getBE 4 stream with
      | none => { afu.allIdle with mmioData := 0xFEEDB00F }
      | some (data, _) => { afu with mmioData := UInt64.ofNat data }
    else afu
  afu.setState .mmio .idle

/-- `_handle_mem_ack`. A response code ends the program. Data that does not come leaves the pointer to the buffer
that has been freed. -/
def LibAfu.handleMemAck (afu : LibAfu) (avail : List UInt8) : LibAfu :=
  let (afu, respCode, stream) := match getBytes 1 avail with
    | none => (afu.allIdle, 0, avail)
    | some (b, stream) => (afu, b 0, stream)
  if respCode ≠ 0 then { afu with exited := true }
  else
    let afu :=
      if afu.mem.type = .read then
        match getData afu.mem.size stream with
        | none => { afu.allIdle with memData := some [] }
        | some (data, _) => { afu with memData := some data }
      else afu
    afu.setState .mem .idle

def LibAfu.receive (afu : LibAfu) : PslMessage → LibAfu
  | .quiet => afu
  | .lost => { afu.allIdle with running := false }
  | .attach => afu.setState .attach .idle
  | .detach => afu.allIdle
  | .mmioAck avail => afu.handleAck avail
  | .lpcAck avail => afu.handleMemAck avail
  | .served => afu
  | .putFailed => { afu with opened := false, attached := false }
  | .starved => afu.allIdle
  | .noIrq => { afu with running := false }

/-- The thread is in its loop. -/
def LibAfu.alive (afu : LibAfu) : Bool := afu.running && afu.opened && !afu.exited

def LibAfu.sendAll (afu : LibAfu) (put : Slot → Bool) : LibAfu :=
  ((afu.send .attach (put .attach)).send .mmio (put .mmio)).send .mem (put .mem)

/-- One turn of `_psl_loop`. When it was the last one the thread takes the attach back. -/
def LibAfu.pslTurn (afu : LibAfu) (t : PslInput) : LibAfu :=
  if afu.alive then
    let afu := (afu.sendAll t.put).receive t.message
    if afu.alive || afu.exited then afu else { afu with attached := false, running := false }
  else afu

/-! ## The calls -/

/-- The loop in which a call waits, over the turns until it sees the slot idle. A call in a program that has ended
does not return. -/
def LibAfu.wait (afu : LibAfu) (slot : Slot) (turns : List PslInput) : Option LibAfu :=
  let afu := turns.foldl LibAfu.pslTurn (afu.setState slot .request)
  if afu.exited then none else if afu.state slot = .idle then some afu else none

def LibAfu.ocxlAfuAttach (afu : LibAfu) (turns : List PslInput) : Option (OcxlErr × LibAfu) :=
  if !afu.opened then some (.noDev, afu)
  else if afu.attached then some (.noDev, afu)
  else (afu.wait .attach turns).map (fun afu => (.ok, { afu with attached := true }))

/-- The slot of a mapping, as the call fills it. -/
def LibAfu.askMap (afu : LibAfu) (global : Bool) : LibAfu :=
  { afu with mmioType := if global then ocseGlobalMmioMap else ocseMmioMap }

def LibAfu.ocxlMmioMap (afu : LibAfu) (global : Bool) (turns : List PslInput) : Option (OcxlErr × LibAfu) :=
  if !afu.opened then some (.noContext, afu)
  else if afu.mmioCount = afu.mmioMax then some (.noMem, afu)
  else
    ((afu.askMap global).wait .mmio turns).map (fun afu =>
      (.ok, { afu with
        mapped := if global then afu.mapped else true
        globalMapped := if global then true else afu.globalMapped
        mmioCount := afu.mmioCount + 1 }))

/-- The slot of an access. A read leaves `mmio.data` as it is. -/
def LibAfu.askMmio (afu : LibAfu) (r : MmioReq) : LibAfu :=
  { afu with
    mmioType := r.type, mmioAddr := r.addr
    mmioData := if r.rnw then afu.mmioData else r.data }

/-- The slot of a piece of a transfer. -/
def LibAfu.askMem (afu : LibAfu) (r : MemReq) : LibAfu := { afu with mem := r }

/-- What the four calls have in common. -/
def LibAfu.mmioCall (afu : LibAfu) (global rnw dw : Bool) (offset value : UInt64) (turns : List PslInput) :
    Option (OcxlErr × Option UInt64 × LibAfu) :=
  match OcxlMmio.check ⟨some ⟨afu.mapped, afu.globalMapped, afu.opened⟩, global⟩ offset (if dw then 0x7 else 0x3) with
  | .error err => some (err, none, afu)
  | .ok _ =>
    ((afu.askMmio ⟨global, rnw, dw, offset.toUInt32, value⟩).wait .mmio turns).map (fun afu =>
      (if afu.opened then .ok else .noDev, some afu.mmioData, afu))

/-- The loop of an LPC transfer over its requests, with the turns while each waits. -/
def LibAfu.memTransfer : List MemReq → List (List PslInput) → LibAfu → List (List UInt8) →
    Option (Bool × List (List UInt8) × LibAfu)
  | [], _, afu, out => some (true, out, afu)
  | _ :: _, [], _, _ => none
  | r :: rs, turns :: rest, afu, out =>
    match (afu.askMem r).wait .mem turns with
    | none => none
    | some afu =>
      if r.type = .read then
        match afu.memData with
        | none => some (false, out, afu)
        | some data =>
          if afu.opened then memTransfer rs rest afu (out ++ [data]) else some (false, out ++ [data], afu)
      else if afu.opened then memTransfer rs rest afu out else some (false, out, afu)

def LibAfu.ocxlMmioWrite64 (afu : LibAfu) (global : Bool) (offset value : UInt64) (turns : List PslInput) :
    Option (OcxlErr × LibAfu) :=
  (afu.mmioCall global false true offset value turns).map (fun (err, _, afu) => (err, afu))

def LibAfu.ocxlMmioRead64 (afu : LibAfu) (global : Bool) (offset : UInt64) (turns : List PslInput) :
    Option (OcxlErr × Option UInt64 × LibAfu) :=
  afu.mmioCall global true true offset 0 turns

def LibAfu.ocxlMmioWrite32 (afu : LibAfu) (global : Bool) (offset : UInt64) (value : UInt32) (turns : List PslInput) :
    Option (OcxlErr × LibAfu) :=
  (afu.mmioCall global false false offset value.toUInt64 turns).map (fun (err, _, afu) => (err, afu))

def LibAfu.ocxlMmioRead32 (afu : LibAfu) (global : Bool) (offset : UInt64) (turns : List PslInput) :
    Option (OcxlErr × Option UInt32 × LibAfu) :=
  (afu.mmioCall global true false offset 0 turns).map (fun (err, out, afu) => (err, out.map UInt64.toUInt32, afu))

/-- `ocxl_lpc_read` and `ocxl_lpc_write`, from what `LpcCall.requests` makes of their arguments. -/
def LibAfu.lpcCall (afu : LibAfu) (call : LpcCall) (turns : List (List PslInput)) :
    Option (Bool × List (List UInt8) × LibAfu) :=
  if !afu.lpcMapped then some (false, [], afu)
  else match call.requests with
    | none => some (false, [], afu)
    | some requests => LibAfu.memTransfer requests turns afu []

def LibAfu.ocxlLpcRead (afu : LibAfu) (offset : UInt64) (size : ℕ) (turns : List (List PslInput)) :
    Option (Bool × List (List UInt8) × LibAfu) :=
  afu.lpcCall (.read offset size) turns

def LibAfu.ocxlLpcWrite (afu : LibAfu) (offset : UInt64) (val : Buffer UInt8) (size : ℕ)
    (turns : List (List PslInput)) : Option (Bool × LibAfu) :=
  (afu.lpcCall (.write offset val size) turns).map (fun (ok, _, afu) => (ok, afu))

end Ocse
