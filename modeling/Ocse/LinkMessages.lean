import Ocse.BfmCycle

/-!
# Messages of the TLX link

The groups of an event as messages. The host sends on three channels, config commands, commands and
responses, of which the last two take their data along; the AFU sends on five, as data need not come with its
command or response. A message has what the other end can see of it: the fields in the width of their
signals, and of the data as many bytes as the length says. `hostStaged` are the messages that stand in the
event of the host, `hostDriven` those that the driver drives of its event, and `afuStanding` those of the
AFU, staged at the driver or received at the host.
-/

namespace Ocse

/-! ## From the host to the AFU -/

inductive HostChannel
  | cfg | cmd | resp
  deriving DecidableEq, Repr

inductive HostMessage
  | cfg (opcode : UInt8) (capptag : UInt16) (pa : UInt64) (t pl : UInt8) (data : Option (UInt8 × List UInt8))
  | cmd (opcode : UInt8) (capptag : UInt16) (dl pl : UInt8) (be : UInt64) (cmdEnd : UInt8) (pa : UInt64)
      (data : List UInt8)
  | resp (opcode : UInt8) (afutag : UInt16) (code pgSize dl dp : UInt8) (data : List UInt8)
  deriving DecidableEq, Repr

def HostMessage.channel : HostMessage → HostChannel
  | .cfg .. => .cfg
  | .cmd .. => .cmd
  | .resp .. => .resp

/-- Only a config write has data. -/
def TlxCfgCmd.message (g : TlxCfgCmd) : HostMessage :=
  .cfg g.opcode g.capptag g.pa (g.t &&& 0x01) (g.pl &&& 0x07)
    (if g.opcode = tlxCmdConfigWrite then some (g.dataBdi &&& 0x01, g.dataBus.read 0 4) else none)

def TlxAfuCmd.message (g : TlxAfuCmd) (data : List UInt8) : HostMessage :=
  .cmd g.opcode g.capptag (g.dl &&& 0x03) (g.pl &&& 0x07) g.be (g.cmdEnd &&& 0x01) g.pa data

def TlxAfuResp.message (g : TlxAfuResp) (data : List UInt8) : HostMessage :=
  .resp g.opcode g.afutag (g.code &&& 0x0F) (g.pgSize &&& 0x3F) (g.dl &&& 0x03) (g.dp &&& 0x03) data

def AfuEvent.hostStaged (e : AfuEvent) : HostChannel → List HostMessage
  | .cfg => if e.tlxCfg.valid ≠ 0 then [e.tlxCfg.message] else []
  | .cmd =>
    if e.tlxCmd.valid ≠ 0 then
      [e.tlxCmd.message
        (if e.tlxCmdData.valid ≠ 0 then e.tlxCmdData.dataBus.read 0 e.tlxCmdData.byteCnt.toNat else [])]
    else []
  | .resp =>
    if e.tlxResp.valid ≠ 0 then
      [e.tlxResp.message
        (if e.tlxRespData.valid ≠ 0 then e.tlxRespData.data.read 0 e.tlxRespData.byteCnt.toNat else [])]
    else []

/-- The data is what the driver queues, in lines. -/
def AfuEvent.hostDriven (e : AfuEvent) : HostChannel → List HostMessage
  | .cfg => if e.tlxCfg.valid ≠ 0 then [e.tlxCfg.message] else []
  | .cmd =>
    if e.tlxCmd.valid ≠ 0 then
      [e.tlxCmd.message
        (if e.tlxCmdData.valid ≠ 0 then (newLines e.tlxCmdData.dataBus e.tlxCmd.dl).flatten else [])]
    else []
  | .resp =>
    if e.tlxResp.valid ≠ 0 then
      [e.tlxResp.message
        (if e.tlxRespData.valid ≠ 0 then (newLines e.tlxRespData.data e.tlxResp.dl).flatten else [])]
    else []

/-- The message that a handler asks for. -/
def HostCall.message : HostCall → List HostMessage
  | .sendResp opcode afutag code pgSize dl dp addrTag =>
    [TlxAfuResp.message ⟨1, opcode, afutag, code, pgSize, dl, dp, addrTag⟩ []]
  | .sendRespAndData opcode afutag code pgSize dl dp addrTag _ data =>
    [TlxAfuResp.message ⟨1, opcode, afutag, code, pgSize, dl, dp, addrTag⟩
      (data.read ((dp &&& 3).toNat * 64) (dlToSize dl))]
  | .sendPostedCmd opcode afutag code => [TlxAfuResp.message ⟨1, opcode, afutag, code, 0, 0, 0, 0⟩ []]
  | .sendCmd opcode capptag dl pl be cmdEnd pa =>
    [TlxAfuCmd.message ⟨1, opcode, capptag, dl, pl, be, cmdEnd, pa⟩ []]
  | .sendCmdAndData opcode capptag dl pl be cmdEnd pa _ data =>
    [TlxAfuCmd.message ⟨1, opcode, capptag, dl, pl, be, cmdEnd, pa⟩ (data.read 0 (cmdDataSize dl))]
  | .sendCfgCmdAndData opcode capptag pl t pa dataBdi data =>
    [.cfg opcode capptag pa (t &&& 0x01) (pl &&& 0x07)
      (if opcode = tlxCmdConfigWrite then some (dataBdi &&& 0x01, if pl = 2 then data.read 0 4 else cfgFill)
       else none)]
  | _ => []

/-- What a call that returned `rc` has put on a channel. -/
def HostCall.puts (call : HostCall) (rc : ℤ) (c : HostChannel) : List HostMessage :=
  if rc = tlxSuccess then call.message.filter (fun m => m.channel = c) else []

/-- What holds of the groups of the host between two calls. -/
structure HostOrder (e : AfuEvent) : Prop where
  cfg : e.tlxCfg.valid = 0 ∨ e.tlxCfg.valid = 1
  cmd : e.tlxCmd.valid = 0 ∨ e.tlxCmd.valid = 1
  resp : e.tlxResp.valid = 0 ∨ e.tlxResp.valid = 1
  cmdData : e.tlxCmdData.valid ≠ 0 →
    e.tlxCmd.valid ≠ 0 ∧ e.tlxCmdData.byteCnt.toNat = cmdDataSize e.tlxCmd.dl
  respData : e.tlxRespData.valid ≠ 0 →
    e.tlxResp.valid ≠ 0 ∧ e.tlxRespData.byteCnt.toNat = dlToSize e.tlxResp.dl
  cmdCnt : e.tlxCmdData.byteCnt.toNat ≤ 256
  respCnt : e.tlxRespData.byteCnt.toNat ≤ 256

/-! ## From the AFU to the host -/

inductive AfuChannel
  | cmd | cdata | resp | rdata | cfgResp
  deriving DecidableEq, Repr

inductive AfuMessage
  | cmd (opcode : UInt8) (actag : UInt16) (streamId : UInt8) (eaOrObj : List UInt8) (afutag : UInt16)
      (dl pl : UInt8) (be : UInt64) (flag endian : UInt8) (bdf : UInt16) (pasid : UInt32) (pgSize : UInt8)
  | cdata (bdi : UInt8) (bus : List UInt8)
  | resp (opcode dl : UInt8) (capptag : UInt16) (dp code : UInt8)
  | rdata (bdi : UInt8) (bus : List UInt8)
  | cfgResp (opcode : UInt8) (capptag : UInt16) (code : UInt8) (data : Option (UInt8 × List UInt8))
  deriving DecidableEq, Repr

def AfuMessage.channel : AfuMessage → AfuChannel
  | .cmd .. => .cmd
  | .cdata .. => .cdata
  | .resp .. => .resp
  | .rdata .. => .rdata
  | .cfgResp .. => .cfgResp

def AfuTlxCmd.message (g : AfuTlxCmd) : AfuMessage :=
  .cmd g.opcode g.actag (g.streamId &&& 0x0F) (g.eaOrObj.read 0 9) g.afutag (g.dl &&& 0x03) (g.pl &&& 0x07) g.be
    (g.flag &&& 0x0F) (g.endian &&& 0x01) g.bdf g.pasid g.pgSize

def AfuTlxCdata.message (g : AfuTlxCdata) : AfuMessage := .cdata (g.bdi &&& 0x01) (g.bus.read 0 64)

def AfuTlxResp.message (g : AfuTlxResp) : AfuMessage :=
  .resp g.opcode (g.dl &&& 0x03) g.capptag (g.dp &&& 0x03) (g.code &&& 0x0F)

def AfuTlxRdata.message (g : AfuTlxRdata) : AfuMessage := .rdata (g.bdi &&& 0x01) (g.bus.read 0 64)

/-- Only the response to a config read has data. -/
def CfgTlxResp.message (g : CfgTlxResp) : AfuMessage :=
  .cfgResp g.opcode g.capptag (g.code &&& 0x0F)
    (if g.opcode = afuRspMemRdResp then some (g.rdataBdi &&& 0x01, g.rdataBus.read 0 4) else none)

@[simp] theorem AfuTlxCmd.channel_message (g : AfuTlxCmd) : g.message.channel = .cmd := rfl

@[simp] theorem AfuTlxCdata.channel_message (g : AfuTlxCdata) : g.message.channel = .cdata := rfl

@[simp] theorem AfuTlxResp.channel_message (g : AfuTlxResp) : g.message.channel = .resp := rfl

@[simp] theorem AfuTlxRdata.channel_message (g : AfuTlxRdata) : g.message.channel = .rdata := rfl

@[simp] theorem CfgTlxResp.channel_message (g : CfgTlxResp) : g.message.channel = .cfgResp := rfl

def AfuEvent.afuStanding (e : AfuEvent) : AfuChannel → List AfuMessage
  | .cmd => if e.afuCmd.valid ≠ 0 then [e.afuCmd.message] else []
  | .cdata => if e.afuCdata.valid ≠ 0 then [e.afuCdata.message] else []
  | .resp => if e.afuResp.valid ≠ 0 then [e.afuResp.message] else []
  | .rdata => if e.afuRdata.valid ≠ 0 then [e.afuRdata.message] else []
  | .cfgResp => if e.cfgResp.valid ≠ 0 then [e.cfgResp.message] else []

/-- The messages that a call of the driver asks for. -/
def StageCall.messages : StageCall → List AfuMessage
  | .afuSendResp opcode dl capptag dp code => [AfuTlxResp.message ⟨1, opcode, dl, capptag, dp, code⟩]
  | .afuSendRespData bdi _ bus => [AfuTlxRdata.message ⟨1, bus, bdi⟩]
  | .afuSendRespAndData opcode dl capptag dp code bus bdi =>
    [AfuTlxResp.message ⟨1, opcode, dl, capptag, dp, code⟩, AfuTlxRdata.message ⟨1, bus, bdi⟩]
  | .afuCfgSendRespAndData opcode capptag code bus bdi => [CfgTlxResp.message ⟨1, opcode, capptag, code, bdi, bus⟩]
  | .afuSendCmd cmd => [cmd.message]
  | .afuSendCmdData bdi bus => [AfuTlxCdata.message ⟨1, bus, bdi⟩]
  | .afuSendCmdAndData cmd bdi bus => [cmd.message, AfuTlxCdata.message ⟨1, bus, bdi⟩]
  | _ => []

def StageCall.puts (call : StageCall) (rc : ℤ) (c : AfuChannel) : List AfuMessage :=
  if rc = tlxSuccess then call.messages.filter (fun m => m.channel = c) else []

/-- The response and its data, if data stands there; both are taken down. -/
def afuTlxReadRespAndData (e : AfuEvent) : Option (AfuTlxResp × Bool) × AfuEvent :=
  if e.afuResp.valid = 0 then (none, e)
  else (some (e.afuResp, decide (e.afuRdata.valid ≠ 0)), { e with
    afuResp := { e.afuResp with valid := 0 }
    afuRdata := { e.afuRdata with valid := 0 }
    tlxCredits := { e.tlxCredits with
      respDataCredit := if e.afuRdata.valid ≠ 0 then 1 else e.tlxCredits.respDataCredit
      respCredit := 1
      valid := 1 } })

def standing (g : AfuMessage) (there : Bool) : List AfuMessage := if there then [g] else []

def respAndDataRead (e : AfuEvent) : List AfuMessage :=
  match (afuTlxReadRespAndData e).1 with
  | some (resp, data) => resp.message :: standing e.afuRdata.message data
  | none => []

/-- What a call of the host reads. -/
def HostCall.reads (call : HostCall) (e : AfuEvent) : List AfuMessage :=
  match call with
  | .readCmdAndData =>
    match (afuTlxReadCmdAndData e).1 with
    | some (cmd, data) => cmd.message :: standing e.afuCdata.message data
    | none => []
  | .readCmdData => standing e.afuCdata.message (afuTlxReadCmdData e).1
  | .readResp => (afuTlxReadResp e).1.toList.map AfuTlxResp.message
  | .readRespData => (afuTlxReadRespData e).1.toList.map fun bus => AfuTlxRdata.message ⟨1, bus, e.afuRdata.bdi⟩
  | .readCfgRespAndData requestedCapptag =>
    match (afuTlxReadCfgRespAndData e requestedCapptag).1 with
    | some (resp, _) => [resp.message]
    | none => []
  | _ => []

end Ocse
