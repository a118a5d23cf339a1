import Ocse.DriverFifo
import Ocse.Staging

/-!
# The AFU driver with its clock low

`tlx_bfm` samples what the AFU drives, stages it for the next answer to the host, and drives what the last
frame of the host brought. Its sampling variables are static: of those that are read when their own valid
signal is down, `respDp` and the pending acknowledge are kept here. Of a vector signal only `aval` is used;
a scalar signal with an X or a Z counts as down. The lines that are driven are queued first, as `DriverFifo`
has it; the calls under reset are left out.
-/

namespace Ocse

/-! ## What the AFU drives -/

structure AfuPins where
  cmdInitialCredit : UInt8
  respInitialCredit : UInt8
  cfgInitialCredit : UInt8
  cfgCreditReturn : UInt8
  respCredit : UInt8
  cmdCredit : UInt8
  cmdValid : UInt8
  cmd : AfuTlxCmd
  cdataValid : UInt8
  cdataBdi : UInt8
  cdataBus : Buffer UInt8
  respValid : UInt8
  respOpcode : UInt8
  respDl : UInt8
  respCapptag : UInt16
  respDp : UInt8
  respCode : UInt8
  rdataValid : UInt8
  rdataBdi : UInt8
  rdataBus : Buffer UInt8
  cfgRespValid : UInt8
  cfgRespOpcode : UInt8
  cfgRespCapptag : UInt16
  cfgRespCode : UInt8
  cfgRdataBdi : UInt8
  cfgRdataBus : Buffer UInt8

/-- `getMyByteArray` copies whole words, so that of the nine bytes of the address the last stays zero. -/
def AfuTlxCmd.sampled (g : AfuTlxCmd) : AfuTlxCmd :=
  { g with
    actag := g.actag &&& 0xFFF
    streamId := g.streamId &&& 0xF
    eaOrObj := (Buffer.const 0).write 0 (g.eaOrObj.read 0 8)
    dl := g.dl &&& 0x3
    pl := g.pl &&& 0x7
    flag := g.flag &&& 0xF
    endian := logicBit g.endian
    pasid := g.pasid &&& 0xFFFFF
    pgSize := g.pgSize &&& 0x3F }

namespace AfuPins

variable (p : AfuPins)

def cmdCalls : List StageCall := if logicBit p.cmdValid ≠ 0 then [.afuSendCmd p.cmd.sampled] else []

def cdataCalls : List StageCall :=
  if logicBit p.cdataValid ≠ 0 then [.afuSendCmdData (logicBit p.cdataBdi) p.cdataBus] else []

/-- A config response is staged only when there is neither a response nor response data, and once until its
valid signal has been down. -/
def stagesCfg (ackPending : Bool) : Prop :=
  logicBit p.respValid = 0 ∧ logicBit p.rdataValid = 0 ∧ logicBit p.cfgRespValid ≠ 0 ∧ ackPending = false

instance (ackPending : Bool) : Decidable (p.stagesCfg ackPending) :=
  inferInstanceAs (Decidable (_ ∧ _ ∧ _ ∧ _))

/-- Data without a response goes with the part of the last response that was sampled. -/
def respCalls (respDp : UInt8) (ackPending : Bool) : List StageCall :=
  if logicBit p.respValid ≠ 0 ∧ logicBit p.rdataValid = 0 then
    [.afuSendResp p.respOpcode (p.respDl &&& 0x3) p.respCapptag (p.respDp &&& 0x3) (p.respCode &&& 0xF)]
  else if logicBit p.respValid ≠ 0 ∧ logicBit p.rdataValid ≠ 0 then
    [.afuSendRespAndData p.respOpcode (p.respDl &&& 0x3) p.respCapptag (p.respDp &&& 0x3) (p.respCode &&& 0xF)
      p.rdataBus (logicBit p.rdataBdi)]
  else if logicBit p.rdataValid ≠ 0 then [.afuSendRespData (logicBit p.rdataBdi) respDp p.rdataBus]
  else if p.stagesCfg ackPending then
    [.afuCfgSendRespAndData p.cfgRespOpcode p.cfgRespCapptag (p.cfgRespCode &&& 0xF) p.cfgRdataBus
      (logicBit p.cfgRdataBdi)]
  else []

/-- A credit signal with an X or a Z leaves the config flag as it is and takes the other two down. -/
def returnCredits (g : AfuTlxCreditReq) : AfuTlxCreditReq :=
  { g with
    cfgCreditReturn := if p.cfgCreditReturn &&& 0x2 ≠ 0 then g.cfgCreditReturn else p.cfgCreditReturn &&& 0x1
    respCredit := logicBit p.respCredit
    cmdCredit := logicBit p.cmdCredit
    valid :=
      if logicBit p.cfgCreditReturn = 1 ∨ logicBit p.respCredit = 1 ∨ logicBit p.cmdCredit = 1 then 1
      else g.valid }

end AfuPins

/-! ## The driver -/

/-- `low` says that the next call comes with the clock low. -/
structure Bfm where
  event : AfuEvent
  low : Bool
  creditsSent : Bool
  creditsRead : Bool
  respDp : UInt8
  ackPending : Bool

def Bfm.init : Bfm := ⟨tlxEventReset, false, false, false, 0, false⟩

namespace Bfm

variable (d : Bfm) (p : AfuPins)

/-- Each end's initial credits are given once, and read when they have come. -/
def initialCredits : Bfm :=
  let d :=
    if d.creditsSent then d
    else { d with
      event := afuTlxSendInitialCredits d.event (p.cmdInitialCredit &&& 0x7F) (p.cfgInitialCredit &&& 0x0F)
        (p.respInitialCredit &&& 0x7F)
      creditsSent := true }
  if d.creditsRead then d
  else
    { d with
      event := (tlxAfuReadInitialCredits d.event).2
      creditsRead := decide ((tlxAfuReadInitialCredits d.event).1 = tlxSuccess) }

def calls : List StageCall := p.cmdCalls ++ (p.cdataCalls ++ p.respCalls d.respDp d.ackPending)

/-- The codes that the calls return are not looked at. -/
def stage : Bfm :=
  { d with
    event := (d.calls p).foldl (fun e call => (call.apply e).2)
      { d.event with afuCreditReq := p.returnCredits d.event.afuCreditReq }
    respDp := if logicBit p.respValid ≠ 0 then p.respDp &&& 0x3 else d.respDp
    ackPending :=
      if p.stagesCfg d.ackPending then true else if logicBit p.cfgRespValid = 0 then false else d.ackPending }

/-- What the frame brought is driven and taken down, and the credits with it. -/
def drive : Bfm :=
  { d with
    low := false
    event := { d.event.driven with
      tlxCredits := { d.event.tlxCredits with
        cfgRespAck := 0, respCredit := 0, respDataCredit := 0, cmdCredit := 0, cmdDataCredit := 0 } } }

/-- `tlx_bfm` with the clock low. -/
def tlxBfmLow : Bfm := ((d.initialCredits p).stage p).drive

end Bfm

end Ocse
