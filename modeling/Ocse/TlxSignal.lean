import Ocse.AfuEvent

/-!
# Writing a frame

`tlxSignalAfuModel` is what the host sends on a clock and `tlxSignalTlxModel` is the AFU's answer. Each
valid group sets its bit of the first byte, appends its bytes and is marked sent. Both functions return
the code, the event with the transmitted groups cleared, and the bytes that the `send` loop delivers.
-/

namespace Ocse

/-! ## Host to AFU -/

def TlxCfgCmd.bytes (g : TlxCfgCmd) : List UInt8 :=
  g.opcode :: beBytes 2 g.capptag.toNat ++ beBytes 8 g.pa.toNat ++
    [g.t &&& 0x01, g.pl &&& 0x07, g.dataBdi &&& 0x01] ++ g.dataBus.read 0 4

def TlxCfgCmd.put (g : TlxCfgCmd) (b : TxBuffer) : TlxCfgCmd × TxBuffer :=
  if g.valid ≠ 0 then ({ g with valid := 0 }, b.group 0x20 g.bytes) else (g, b)

def TlxAfuCmd.bytes (g : TlxAfuCmd) : List UInt8 :=
  g.opcode :: beBytes 2 g.capptag.toNat ++ [g.dl &&& 0x03, g.pl &&& 0x07] ++ beBytes 8 g.be.toNat ++
    [g.cmdEnd &&& 0x01] ++ beBytes 8 g.pa.toNat

def TlxAfuCmd.put (g : TlxAfuCmd) (b : TxBuffer) : TlxAfuCmd × TxBuffer :=
  if g.valid ≠ 0 then ({ g with valid := 0 }, b.group 0x10 g.bytes) else (g, b)

def TlxAfuCmdData.bytes (g : TlxAfuCmdData) : List UInt8 :=
  (g.bdi &&& 0x01) :: g.dataBus.read 0 g.byteCnt.toNat

def TlxAfuCmdData.put (g : TlxAfuCmdData) (b : TxBuffer) : TlxAfuCmdData × TxBuffer :=
  if g.valid ≠ 0 then
    ({ g with valid := 0 }, { b.group 0x08 g.bytes with
      size₁ := UInt8.ofNat (g.byteCnt.toNat >>> 8) &&& 0x0F
      size₂ := UInt8.ofNat g.byteCnt.toNat })
  else (g, b)

def TlxAfuResp.bytes (g : TlxAfuResp) : List UInt8 :=
  g.opcode :: beBytes 2 g.afutag.toNat ++ [g.code, g.pgSize, g.dl, g.dp]

def TlxAfuResp.put (g : TlxAfuResp) (b : TxBuffer) : TlxAfuResp × TxBuffer :=
  if g.valid ≠ 0 then ({ g with valid := 0 }, b.group 0x04 g.bytes) else (g, b)

def TlxAfuRespData.bytes (g : TlxAfuRespData) : List UInt8 :=
  (g.bdi &&& 0x01) :: g.data.read 0 g.byteCnt.toNat

def TlxAfuRespData.put (g : TlxAfuRespData) (b : TxBuffer) : TlxAfuRespData × TxBuffer :=
  if g.valid ≠ 0 then
    ({ g with valid := 0 }, { b.group 0x02 g.bytes with
      size₃ := UInt8.ofNat (g.byteCnt.toNat >>> 8) &&& 0x0F
      size₄ := UInt8.ofNat g.byteCnt.toNat })
  else (g, b)

def TlxAfuCredits.bytes (g : TlxAfuCredits) : List UInt8 :=
  [g.cmdInitialCredit, g.cmdDataInitialCredit, g.respInitialCredit, g.respDataInitialCredit,
    g.respCredit, g.cmdCredit, g.respDataCredit, g.cmdDataCredit, g.cfgRespAck]

def TlxAfuCredits.put (g : TlxAfuCredits) (b : TxBuffer) : TlxAfuCredits × TxBuffer :=
  if g.valid ≠ 0 then
    ({ g with valid := 0, cmdCredit := 0, cfgRespAck := 0, cmdDataCredit := 0, respCredit := 0,
              respDataCredit := 0 }, b.group 0x01 g.bytes)
  else (g, b)

def tlxSignalAfuModel (e : AfuEvent) : ℤ × AfuEvent × List UInt8 :=
  if e.clock ≠ 0 then (tlxTransmissionError, e, [])
  else
    let (tlxCfg, b) := e.tlxCfg.put (TxBuffer.start 0x40)
    let (tlxCmd, b) := e.tlxCmd.put b
    let (tlxCmdData, b) := e.tlxCmdData.put b
    let (tlxResp, b) := e.tlxResp.put b
    let (tlxRespData, b) := e.tlxRespData.put b
    let (tlxCredits, b) := e.tlxCredits.put b
    (tlxSuccess, { e with clock := 1, tlxCfg, tlxCmd, tlxCmdData, tlxResp, tlxRespData, tlxCredits },
      b.frame)

/-! ## AFU to host -/

def AfuTlxCmd.bytes (g : AfuTlxCmd) : List UInt8 :=
  g.opcode :: beBytes 2 g.actag.toNat ++ [g.streamId &&& 0x0F] ++ g.eaOrObj.read 0 9 ++
    beBytes 2 g.afutag.toNat ++ [g.dl &&& 0x03, g.pl &&& 0x07] ++ beBytes 8 g.be.toNat ++
    [g.flag &&& 0x0F, g.endian &&& 0x01] ++ beBytes 2 g.bdf.toNat ++ beBytes 4 g.pasid.toNat ++
    [g.pgSize]

def AfuTlxCmd.put (g : AfuTlxCmd) (b : TxBuffer) : AfuTlxCmd × TxBuffer :=
  if g.valid ≠ 0 then ({ g with valid := 0 }, b.group 0x02 g.bytes) else (g, b)

def AfuTlxCdata.bytes (g : AfuTlxCdata) : List UInt8 := (g.bdi &&& 0x01) :: g.bus.read 0 64

def AfuTlxCdata.put (g : AfuTlxCdata) (b : TxBuffer) : AfuTlxCdata × TxBuffer :=
  if g.valid ≠ 0 then
    ({ g with valid := 0 }, { b.group 0x04 g.bytes with size₁ := 0, size₂ := 64 })
  else (g, b)

def AfuTlxResp.bytes (g : AfuTlxResp) : List UInt8 :=
  g.opcode :: (g.dl &&& 0x03) :: beBytes 2 g.capptag.toNat ++ [g.dp &&& 0x03, g.code &&& 0x0F]

def AfuTlxResp.put (g : AfuTlxResp) (b : TxBuffer) : AfuTlxResp × TxBuffer :=
  if g.valid ≠ 0 then ({ g with valid := 0 }, b.group 0x08 g.bytes) else (g, b)

def AfuTlxRdata.bytes (g : AfuTlxRdata) : List UInt8 := (g.bdi &&& 0x01) :: g.bus.read 0 64

def AfuTlxRdata.put (g : AfuTlxRdata) (b : TxBuffer) : AfuTlxRdata × TxBuffer :=
  if g.valid ≠ 0 then
    ({ g with valid := 0 }, { b.group 0x20 g.bytes with size₃ := 0, size₄ := 64 })
  else (g, b)

def CfgTlxResp.bytes (g : CfgTlxResp) : List UInt8 :=
  g.opcode :: beBytes 2 g.capptag.toNat ++ [g.code &&& 0x0F, g.rdataBdi &&& 0x01] ++
    g.rdataBus.read 0 4

def CfgTlxResp.put (g : CfgTlxResp) (b : TxBuffer) : CfgTlxResp × TxBuffer :=
  if g.valid ≠ 0 then ({ g with valid := 0 }, b.group 0x40 g.bytes) else (g, b)

def AfuTlxCreditReq.bytes (g : AfuTlxCreditReq) : List UInt8 :=
  [g.respInitialCredit, g.cmdInitialCredit, g.cfgInitialCredit, g.respCredit, g.cmdCredit,
    g.cfgCreditReturn, g.respRdReq, g.respRdCnt, g.cmdRdReq, g.cmdRdCnt]

def AfuTlxCreditReq.put (g : AfuTlxCreditReq) (b : TxBuffer) : AfuTlxCreditReq × TxBuffer :=
  if g.valid ≠ 0 then
    ({ g with valid := 0, cmdCredit := 0, cfgCreditReturn := 0, respCredit := 0 },
      b.group 0x01 g.bytes)
  else (g, b)

/-- Called when the clock is low it transmits nothing and still reports success. -/
def tlxSignalTlxModel (e : AfuEvent) : ℤ × AfuEvent × List UInt8 :=
  if e.clock ≠ 1 then (tlxSuccess, e, [])
  else
    let (afuCmd, b) := e.afuCmd.put (TxBuffer.start 0x10)
    let (afuCdata, b) := e.afuCdata.put b
    let (afuResp, b) := e.afuResp.put b
    let (afuRdata, b) := e.afuRdata.put b
    let (cfgResp, b) := e.cfgResp.put b
    let (afuCreditReq, b) := e.afuCreditReq.put b
    (tlxSuccess, { e with clock := 0, afuCmd, afuCdata, afuResp, afuRdata, cfgResp, afuCreditReq },
      b.frame)

end Ocse
