import Ocse.TlxSignal

/-!
# Receiving a frame

Both receivers read the first byte, then the four size bytes, compute the frame length from the header
and read the rest; only then are the groups parsed. `rbp` makes a receive resumable. The byte counts are
taken before the last read. Each `get` function parses one group at the cursor `rbc` and returns the
cursor behind it; an absent group clears its flag. The credit flags that the two receivers raise or take
down while they parse are collected in `dropReturns` and `earnCredits`.
-/

namespace Ocse

/-- Is the group with this header bit in the received frame? -/
def present (rbuf : Buffer UInt8) (bit : UInt8) : Prop := rbuf 0 &&& bit ≠ 0

instance (rbuf : Buffer UInt8) (bit : UInt8) : Decidable (present rbuf bit) :=
  inferInstanceAs (Decidable (rbuf 0 &&& bit ≠ 0))

/-- `cmd_data_byte_cnt` and `resp_data_byte_cnt`: two size bytes, zero when the group is absent. -/
def byteCnt (rbuf : Buffer UInt8) (bit : UInt8) (pos : ℕ) : ℕ :=
  if present rbuf bit then loadBE rbuf pos 2 else 0

def AfuEvent.fillHead (e : AfuEvent) (s : Socket) : Option ℤ × AfuEvent × Socket :=
  if e.rbp = 0 then e.fill s 1 else (none, e, s)

/-! ## The AFU side: `tlx_get_tlx_events` -/

def tlxEventsLength (rbuf : Buffer UInt8) : ℕ :=
  5 + (if present rbuf 0x20 then 18 else 0) + (if present rbuf 0x10 then 22 else 0) +
    (if present rbuf 0x08 then byteCnt rbuf 0x08 1 + 1 else 0) +
    (if present rbuf 0x04 then 7 else 0) +
    (if present rbuf 0x02 then byteCnt rbuf 0x02 3 + 1 else 0) +
    (if present rbuf 0x01 then 9 else 0)

def TlxCfgCmd.get (g : TlxCfgCmd) (rbuf : Buffer UInt8) (rbc : ℕ) : TlxCfgCmd × ℕ :=
  if present rbuf 0x20 then
    ({ valid := 1
       opcode := rbuf rbc
       capptag := UInt16.ofNat (loadBE rbuf (rbc + 1) 2)
       pa := UInt64.ofNat (loadBE rbuf (rbc + 3) 8)
       t := rbuf (rbc + 11)
       pl := rbuf (rbc + 12)
       dataBdi := rbuf (rbc + 13)
       dataBus := g.dataBus.write 0 (rbuf.read (rbc + 14) 4) }, rbc + 18)
  else ({ g with valid := 0 }, rbc)

def TlxAfuCmd.get (g : TlxAfuCmd) (rbuf : Buffer UInt8) (rbc : ℕ) : TlxAfuCmd × ℕ :=
  if present rbuf 0x10 then
    ({ valid := 1
       opcode := rbuf rbc
       capptag := UInt16.ofNat (loadBE rbuf (rbc + 1) 2)
       dl := rbuf (rbc + 3)
       pl := rbuf (rbc + 4)
       be := UInt64.ofNat (loadBE rbuf (rbc + 5) 8)
       cmdEnd := rbuf (rbc + 13)
       pa := UInt64.ofNat (loadBE rbuf (rbc + 14) 8) }, rbc + 22)
  else ({ g with valid := 0 }, rbc)

def TlxAfuCmdData.get (g : TlxAfuCmdData) (rbuf : Buffer UInt8) (cnt rbc : ℕ) : TlxAfuCmdData × ℕ :=
  if present rbuf 0x08 then
    ({ g with
       valid := 1
       bdi := rbuf rbc
       dataBus := g.dataBus.write 0 (rbuf.read (rbc + 1) cnt) }, rbc + 1 + cnt)
  else ({ g with valid := 0 }, rbc)

def TlxAfuResp.get (g : TlxAfuResp) (rbuf : Buffer UInt8) (rbc : ℕ) : TlxAfuResp × ℕ :=
  if present rbuf 0x04 then
    ({ g with
       valid := 1
       opcode := rbuf rbc
       afutag := UInt16.ofNat (loadBE rbuf (rbc + 1) 2)
       code := rbuf (rbc + 3)
       pgSize := rbuf (rbc + 4)
       dl := rbuf (rbc + 5)
       dp := rbuf (rbc + 6) }, rbc + 7)
  else ({ g with valid := 0 }, rbc)

def TlxAfuRespData.get (g : TlxAfuRespData) (rbuf : Buffer UInt8) (cnt rbc : ℕ) :
    TlxAfuRespData × ℕ :=
  if present rbuf 0x02 then
    ({ g with
       valid := 1
       bdi := rbuf rbc
       data := g.data.write 0 (rbuf.read (rbc + 1) cnt) }, rbc + 1 + cnt)
  else ({ g with valid := 0 }, rbc)

def TlxAfuCredits.get (g : TlxAfuCredits) (rbuf : Buffer UInt8) (rbc : ℕ) : TlxAfuCredits :=
  if present rbuf 0x01 then
    { valid := 1
      cmdInitialCredit := rbuf rbc
      cmdDataInitialCredit := rbuf (rbc + 1)
      respInitialCredit := rbuf (rbc + 2)
      respDataInitialCredit := rbuf (rbc + 3)
      respCredit := rbuf (rbc + 4)
      cmdCredit := rbuf (rbc + 5)
      respDataCredit := rbuf (rbc + 6)
      cmdDataCredit := rbuf (rbc + 7)
      cfgRespAck := rbuf (rbc + 8) }
  else
    { g with valid := 0, cmdCredit := 0, respCredit := 0, cmdDataCredit := 0, respDataCredit := 0 }

/-- One more credit when the flag that was read is exactly one. -/
def addCredit (available credit : UInt8) : UInt8 := if credit = 1 then available + 1 else available

/-- A frame without a command or response of a class takes down the AFU's return flag of that class. -/
def AfuTlxCreditReq.dropReturns (g : AfuTlxCreditReq) (rbuf : Buffer UInt8) : AfuTlxCreditReq :=
  { g with
    cfgCreditReturn := if present rbuf 0x20 then g.cfgCreditReturn else 0
    cmdCredit := if present rbuf 0x10 then g.cmdCredit else 0
    respCredit := if present rbuf 0x04 then g.respCredit else 0 }

def parseTlxEvents (e : AfuEvent) (cmdCnt respCnt : ℕ) : AfuEvent :=
  let (tlxCfg, rbc) := e.tlxCfg.get e.rbuf 5
  let (tlxCmd, rbc) := e.tlxCmd.get e.rbuf rbc
  let (tlxCmdData, rbc) := e.tlxCmdData.get e.rbuf cmdCnt rbc
  let (tlxResp, rbc) := e.tlxResp.get e.rbuf rbc
  let (tlxRespData, rbc) := e.tlxRespData.get e.rbuf respCnt rbc
  let tlxCredits := e.tlxCredits.get e.rbuf rbc
  { e with
    rbp := 0
    tlxCfg, tlxCmd, tlxCmdData, tlxResp, tlxRespData, tlxCredits
    afuCreditReq := e.afuCreditReq.dropReturns e.rbuf
    tlxAfuCmdCreditsAvailable := addCredit e.tlxAfuCmdCreditsAvailable tlxCredits.cmdCredit
    tlxAfuRespCreditsAvailable := addCredit e.tlxAfuRespCreditsAvailable tlxCredits.respCredit
    tlxAfuCmdDataCreditsAvailable :=
      addCredit e.tlxAfuCmdDataCreditsAvailable tlxCredits.cmdDataCredit
    tlxAfuRespDataCreditsAvailable :=
      addCredit e.tlxAfuRespDataCreditsAvailable tlxCredits.respDataCredit }

/-- A clock from the host is answered with the AFU's own frame before anything else is decoded. -/
def answerClock (e : AfuEvent) (s : Socket) : AfuEvent × Socket :=
  if present e.rbuf 0x40 then
    let (_, e, frame) := tlxSignalTlxModel { e with clock := 1 }
    (e, s.send frame)
  else (e, s)

def tlxGetTlxEvents (e : AfuEvent) (s : Socket) : ℤ × AfuEvent × Socket :=
  match e.fillHead s with
  | (some rc, e, s) => (rc, e, s)
  | (none, e, s) =>
    let (e, s) := answerClock e s
    if e.rbuf 0 = 0x40 then (1, { e with rbp := 0 }, s)
    else match e.fill s 4 with
      | (some rc, e, s) => (rc, e, s)
      | (none, e, s) =>
        let rbc := tlxEventsLength e.rbuf
        let cmdCnt := byteCnt e.rbuf 0x08 1
        let respCnt := byteCnt e.rbuf 0x02 3
        match e.fill s (remaining rbc e.rbp) with
        | (some rc, e, s) => (rc, e, s)
        | (none, e, s) => if e.rbp < rbc then (0, e, s) else (1, parseTlxEvents e cmdCnt respCnt, s)

/-! ## The host side: `tlx_get_afu_events` -/

def afuEventsLength (rbuf : Buffer UInt8) : ℕ :=
  5 + (if present rbuf 0x20 then byteCnt rbuf 0x20 3 + 1 else 0) +
    (if present rbuf 0x08 then 6 else 0) +
    (if present rbuf 0x04 then byteCnt rbuf 0x04 1 + 1 else 0) +
    (if present rbuf 0x02 then 34 else 0) + (if present rbuf 0x01 then 10 else 0) +
    (if present rbuf 0x40 then 9 else 0)

def AfuTlxCmd.get (g : AfuTlxCmd) (rbuf : Buffer UInt8) (rbc : ℕ) : AfuTlxCmd × ℕ :=
  if present rbuf 0x02 then
    ({ valid := 1
       opcode := rbuf rbc
       actag := UInt16.ofNat (loadBE rbuf (rbc + 1) 2)
       streamId := rbuf (rbc + 3)
       eaOrObj := g.eaOrObj.write 0 (rbuf.read (rbc + 4) 9)
       afutag := UInt16.ofNat (loadBE rbuf (rbc + 13) 2)
       dl := rbuf (rbc + 15)
       pl := rbuf (rbc + 16)
       be := UInt64.ofNat (loadBE rbuf (rbc + 17) 8)
       flag := rbuf (rbc + 25)
       endian := rbuf (rbc + 26)
       bdf := UInt16.ofNat (loadBE rbuf (rbc + 27) 2)
       pasid := UInt32.ofNat (loadBE rbuf (rbc + 29) 4)
       pgSize := rbuf (rbc + 33) }, rbc + 34)
  else ({ g with valid := 0 }, rbc)

def AfuTlxCdata.get (g : AfuTlxCdata) (rbuf : Buffer UInt8) (cnt rbc : ℕ) : AfuTlxCdata × ℕ :=
  if present rbuf 0x04 then
    ({ valid := 1
       bdi := rbuf rbc
       bus := g.bus.write 0 (rbuf.read (rbc + 1) cnt) }, rbc + 1 + cnt)
  else ({ g with valid := 0 }, rbc)

def AfuTlxResp.get (g : AfuTlxResp) (rbuf : Buffer UInt8) (rbc : ℕ) : AfuTlxResp × ℕ :=
  if present rbuf 0x08 then
    ({ valid := 1
       opcode := rbuf rbc
       dl := rbuf (rbc + 1)
       capptag := UInt16.ofNat (loadBE rbuf (rbc + 2) 2)
       dp := rbuf (rbc + 4)
       code := rbuf (rbc + 5) }, rbc + 6)
  else ({ g with valid := 0 }, rbc)

def AfuTlxRdata.get (g : AfuTlxRdata) (rbuf : Buffer UInt8) (rbc : ℕ) : AfuTlxRdata × ℕ :=
  if present rbuf 0x20 then
    ({ valid := 1
       bdi := rbuf rbc
       bus := g.bus.write 0 (rbuf.read (rbc + 1) 64) }, rbc + 65)
  else ({ g with valid := 0 }, rbc)

def CfgTlxResp.get (g : CfgTlxResp) (rbuf : Buffer UInt8) (rbc : ℕ) : CfgTlxResp × ℕ :=
  if present rbuf 0x40 then
    ({ valid := 1
       opcode := rbuf rbc
       capptag := UInt16.ofNat (loadBE rbuf (rbc + 1) 2)
       code := rbuf (rbc + 3)
       rdataBdi := rbuf (rbc + 4)
       rdataBus := g.rdataBus.write 0 (rbuf.read (rbc + 5) 4) }, rbc + 9)
  else ({ g with valid := 0 }, rbc)

def AfuTlxCreditReq.get (g : AfuTlxCreditReq) (rbuf : Buffer UInt8) (rbc : ℕ) : AfuTlxCreditReq :=
  if present rbuf 0x01 then
    { valid := 1
      respInitialCredit := rbuf rbc
      cmdInitialCredit := rbuf (rbc + 1)
      cfgInitialCredit := rbuf (rbc + 2)
      respCredit := rbuf (rbc + 3)
      cmdCredit := rbuf (rbc + 4)
      cfgCreditReturn := rbuf (rbc + 5)
      respRdReq := rbuf (rbc + 6)
      respRdCnt := rbuf (rbc + 7)
      cmdRdReq := rbuf (rbc + 8)
      cmdRdCnt := rbuf (rbc + 9) }
  else { g with valid := 0 }

def takeDown (credit : UInt8) : UInt8 := if credit = 1 then 0 else credit

/-- Returned credits are counted only when the frame carries them, and their flags taken down. -/
def AfuEvent.countReturns (e : AfuEvent) (g : AfuTlxCreditReq) : AfuEvent :=
  if g.valid ≠ 0 then
    { e with
      afuCreditReq := { g with
        cmdCredit := takeDown g.cmdCredit
        cfgCreditReturn := takeDown g.cfgCreditReturn
        respCredit := takeDown g.respCredit }
      afuTlxCmdCreditsAvailable := addCredit e.afuTlxCmdCreditsAvailable g.cmdCredit
      cfgTlxCreditsAvailable := addCredit e.cfgTlxCreditsAvailable g.cfgCreditReturn
      afuTlxRespCreditsAvailable := addCredit e.afuTlxRespCreditsAvailable g.respCredit }
  else { e with afuCreditReq := g }

/-- A received command or data beat earns its credit back at once; a response when it is read. -/
def TlxAfuCredits.earnCredits (g : TlxAfuCredits) (rbuf : Buffer UInt8) : TlxAfuCredits :=
  { g with
    valid := if present rbuf 0x02 ∨ present rbuf 0x04 then 1 else g.valid
    cmdCredit := if present rbuf 0x02 then 1 else 0
    cmdDataCredit := if present rbuf 0x04 then 1 else 0
    respCredit := if present rbuf 0x08 then g.respCredit else 0
    respDataCredit := if present rbuf 0x20 then g.respDataCredit else 0 }

def parseAfuEvents (e : AfuEvent) (cmdCnt : ℕ) : AfuEvent :=
  let (afuCmd, rbc) := e.afuCmd.get e.rbuf 5
  let (afuCdata, rbc) := e.afuCdata.get e.rbuf cmdCnt rbc
  let (afuResp, rbc) := e.afuResp.get e.rbuf rbc
  let (afuRdata, rbc) := e.afuRdata.get e.rbuf rbc
  let (cfgResp, rbc) := e.cfgResp.get e.rbuf rbc
  { e with
    rbp := 0
    afuCmd, afuCdata, afuResp, afuRdata, cfgResp
    tlxCredits := e.tlxCredits.earnCredits e.rbuf }.countReturns (e.afuCreditReq.get e.rbuf rbc)

def lowerClock (e : AfuEvent) : AfuEvent :=
  if present e.rbuf 0x10 then { e with clock := 0 } else e

def tlxGetAfuEvents (e : AfuEvent) (s : Socket) : ℤ × AfuEvent × Socket :=
  match e.fillHead s with
  | (some rc, e, s) => (rc, e, s)
  | (none, e, s) =>
    let e := lowerClock e
    if e.rbuf 0 = 0x10 then (1, { e with rbp := 0 }, s)
    else match e.fill s 4 with
      | (some rc, e, s) => (rc, e, s)
      | (none, e, s) =>
        let rbc := afuEventsLength e.rbuf
        let cmdCnt := byteCnt e.rbuf 0x04 1
        match e.fill s (remaining rbc e.rbp) with
        | (some rc, e, s) => (rc, e, s)
        | (none, e, s) => if e.rbp < rbc then (0, e, s) else (1, parseAfuEvents e cmdCnt, s)

end Ocse
