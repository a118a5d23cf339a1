import Ocse.TlxSend

/-!
# Commands to the AFU and their responses

The functions of the TLX interface that the MMIO engine calls: config commands and memory commands go
to the AFU, and the responses and response data of the AFU are read, each at most once. The two functions
for memory commands take a credit without looking whether there is one.
-/

namespace Ocse

def tlxCmdRdMem : UInt8 := 0x20
def tlxCmdPrRdMem : UInt8 := 0x28
def tlxCmdWriteMem : UInt8 := 0x81
def tlxCmdWriteMemBe : UInt8 := 0x82
def tlxCmdPrWrMem : UInt8 := 0x86
def tlxCmdConfigRead : UInt8 := 0xe0
def tlxCmdConfigWrite : UInt8 := 0xe1

def afuRspMemRdResp : UInt8 := 0x01
def afuRspMemRdFail : UInt8 := 0x02
def afuRspMemWrResp : UInt8 := 0x04

def tlxAfuDoubleCmdAndData : ℤ := 3
def cfgTlxNoCredits : ℤ := 42
def cfgTlxNotCfgCmd : ℤ := 43

/-! ## Initial credits -/

def afuTlxReadInitialCredits (e : AfuEvent) : ℤ × AfuEvent :=
  if e.afuCreditReq.valid = 0 then (afuTlxNoCredits, e)
  else (tlxSuccess, { e with
    cfgTlxCreditsAvailable := e.afuCreditReq.cfgInitialCredit
    afuTlxCmdCreditsAvailable := e.afuCreditReq.cmdInitialCredit
    afuTlxRespCreditsAvailable := e.afuCreditReq.respInitialCredit
    afuCreditReq := { e.afuCreditReq with valid := 0 } })

/-! ## Commands -/

/-- The source asks whether the opcode is both a config read and a config write. -/
def tlxAfuSendCmd (e : AfuEvent) (opcode : UInt8) (capptag : UInt16) (dl pl : UInt8) (be : UInt64)
    (cmdEnd : UInt8) (pa : UInt64) : ℤ × AfuEvent :=
  if opcode = tlxCmdConfigRead ∧ opcode = tlxCmdConfigWrite then (cfgTlxNotCfgCmd, e)
  else if e.tlxCmd.valid = 1 then (tlxAfuDoubleCommand, e)
  else (tlxSuccess, { e with
    afuTlxCmdCreditsAvailable := e.afuTlxCmdCreditsAvailable - 1
    tlxCmd := ⟨1, opcode, capptag, dl, pl, be, cmdEnd, pa⟩ })

/-- A partial write has `dl` zero and takes a whole line of data. -/
def cmdDataSize (dl : UInt8) : ℕ := if dl ≠ 0 then dlToSize dl else 64

def tlxAfuSendCmdAndData (e : AfuEvent) (opcode : UInt8) (capptag : UInt16) (dl pl : UInt8) (be : UInt64)
    (cmdEnd : UInt8) (pa : UInt64) (dataBdi : UInt8) (data : Buffer UInt8) : ℤ × AfuEvent :=
  if opcode = tlxCmdConfigRead ∧ opcode = tlxCmdConfigWrite then (cfgTlxNotCfgCmd, e)
  else if e.tlxCmd.valid = 1 then (tlxAfuDoubleCommand, e)
  else (tlxSuccess, { e with
    afuTlxCmdCreditsAvailable := e.afuTlxCmdCreditsAvailable - 1
    tlxCmd := ⟨1, opcode, capptag, dl, pl, be, cmdEnd, pa⟩
    tlxCmdData :=
      { valid := 1
        dataBus := e.tlxCmdData.dataBus.write 0 (data.read 0 (cmdDataSize dl))
        bdi := dataBdi
        byteCnt := UInt16.ofNat (cmdDataSize dl) } })

/-- What goes where a config write has no data: the text `dead`. -/
def cfgFill : List UInt8 := [0x64, 0x65, 0x61, 0x64]

def tlxAfuSendCfgCmdAndData (e : AfuEvent) (opcode : UInt8) (capptag : UInt16) (pl t : UInt8) (pa : UInt64)
    (dataBdi : UInt8) (data : Buffer UInt8) : ℤ × AfuEvent :=
  if e.tlxCfg.valid = 1 then (tlxAfuDoubleCmdAndData, e)
  else if opcode ≠ tlxCmdConfigRead ∧ opcode ≠ tlxCmdConfigWrite then (cfgTlxNotCfgCmd, e)
  else if e.cfgTlxCreditsAvailable = 0 then (cfgTlxNoCredits, e)
  else (tlxSuccess, { e with
    cfgTlxCreditsAvailable := e.cfgTlxCreditsAvailable - 1
    tlxCfg :=
      { valid := 1, opcode, capptag, pa, t, pl
        dataBdi := if opcode = tlxCmdConfigWrite then dataBdi else e.tlxCfg.dataBdi
        dataBus :=
          if opcode = tlxCmdConfigWrite then
            e.tlxCfg.dataBus.write 0 (if pl = 2 then data.read 0 4 else cfgFill)
          else e.tlxCfg.dataBus } })

/-! ## Responses -/

/-- A config response and whether it carries data; a response for another tag is left where it is. -/
def afuTlxReadCfgRespAndData (e : AfuEvent) (requestedCapptag : UInt16) :
    Option (CfgTlxResp × Bool) × AfuEvent :=
  if e.cfgResp.valid = 0 then (none, e)
  else if e.cfgResp.capptag ≠ requestedCapptag then (none, e)
  else (some (e.cfgResp, decide (e.cfgResp.opcode = afuRspMemRdResp)), { e with
    cfgResp := { e.cfgResp with valid := 0 }
    tlxCredits := { e.tlxCredits with cfgRespAck := 1, valid := 1 } })

def afuTlxReadResp (e : AfuEvent) : Option AfuTlxResp × AfuEvent :=
  if e.afuResp.valid = 0 then (none, e)
  else (some e.afuResp, { e with
    afuResp := { e.afuResp with valid := 0 }
    tlxCredits := { e.tlxCredits with respCredit := 1, valid := 1 } })

def afuTlxReadRespData (e : AfuEvent) : Option (Buffer UInt8) × AfuEvent :=
  if e.afuRdata.valid = 0 then (none, e)
  else (some e.afuRdata.bus, { e with
    afuRdata := { e.afuRdata with valid := 0 }
    tlxCredits := { e.tlxCredits with respDataCredit := 1, valid := 1 } })

end Ocse
