import Ocse.AfuFrame
import Ocse.HostCredits
import Ocse.HostFrame

/-!
# The credits that the host gives the AFU

The host and the driver of the AFU as two parties with a frame between them. The driver takes a credit for
every command and every line of command data that it stages; the host records a return when it decodes
the frame, sends it with its next frame, and the driver counts it. The clock keeps the two in step: a
frame of the host goes out only after the answer to the one before has come in. In every state each
credit is in exactly one place.
-/

namespace Ocse

/-! ## The calls of the driver -/

def tlxAfuNoCredits : ℤ := 10
def afuTlxDoubleCommand : ℤ := 21
def afuTlxDoubleCmdAndData : ℤ := 23

def tlxAfuSendInitialCredits (e : AfuEvent) (cmd resp cmdData respData : UInt8) : AfuEvent :=
  { e with tlxCredits := { e.tlxCredits with
      cmdInitialCredit := cmd, cmdDataInitialCredit := cmdData, respInitialCredit := resp
      respDataInitialCredit := respData, valid := 1 } }

def afuTlxSendInitialCredits (e : AfuEvent) (cmd cfg resp : UInt8) : AfuEvent :=
  { e with afuCreditReq := { e.afuCreditReq with
      cmdInitialCredit := cmd, cfgInitialCredit := cfg, respInitialCredit := resp, valid := 1 } }

def tlxAfuReadInitialCredits (e : AfuEvent) : ℤ × AfuEvent :=
  if e.tlxCredits.valid = 0 then (tlxAfuNoCredits, e)
  else (tlxSuccess, { e with
    tlxAfuCmdCreditsAvailable := e.tlxCredits.cmdInitialCredit
    tlxAfuRespCreditsAvailable := e.tlxCredits.respInitialCredit
    tlxAfuCmdDataCreditsAvailable := e.tlxCredits.cmdDataInitialCredit
    tlxAfuRespDataCreditsAvailable := e.tlxCredits.respDataInitialCredit
    tlxCredits := { e.tlxCredits with valid := 0 } })

/-- The arguments of a command come as a record, of which the flag is not read. -/
def AfuTlxCmd.load (g cmd : AfuTlxCmd) : AfuTlxCmd :=
  { cmd with valid := 1, eaOrObj := g.eaOrObj.write 0 (cmd.eaOrObj.read 0 9) }

def AfuTlxCdata.load (g : AfuTlxCdata) (bdi : UInt8) (bus : Buffer UInt8) : AfuTlxCdata :=
  { valid := 1, bus := g.bus.write 0 (bus.read 0 64), bdi }

def afuTlxSendCmd (e : AfuEvent) (cmd : AfuTlxCmd) : ℤ × AfuEvent :=
  if e.tlxAfuCmdCreditsAvailable = 0 then (tlxAfuNoCredits, e)
  else if e.afuCmd.valid ≠ 0 then (afuTlxDoubleCommand, e)
  else (tlxSuccess, { e with
    tlxAfuCmdCreditsAvailable := e.tlxAfuCmdCreditsAvailable - 1
    afuCmd := e.afuCmd.load cmd })

/-- A line that is already staged is overwritten. -/
def afuTlxSendCmdData (e : AfuEvent) (bdi : UInt8) (bus : Buffer UInt8) : ℤ × AfuEvent :=
  if e.tlxAfuCmdDataCreditsAvailable = 0 then (tlxAfuNoCredits, e)
  else (tlxSuccess, { e with
    tlxAfuCmdDataCreditsAvailable := e.tlxAfuCmdDataCreditsAvailable - 1
    afuCdata := e.afuCdata.load bdi bus })

def afuTlxSendCmdAndData (e : AfuEvent) (cmd : AfuTlxCmd) (bdi : UInt8) (bus : Buffer UInt8) :
    ℤ × AfuEvent :=
  if e.tlxAfuCmdCreditsAvailable = 0 ∨ e.tlxAfuCmdDataCreditsAvailable = 0 then (tlxAfuNoCredits, e)
  else if e.afuCmd.valid = 1 ∨ e.afuCdata.valid = 1 then (afuTlxDoubleCmdAndData, e)
  else (tlxSuccess, { e with
    tlxAfuCmdCreditsAvailable := e.tlxAfuCmdCreditsAvailable - 1
    tlxAfuCmdDataCreditsAvailable := e.tlxAfuCmdDataCreditsAvailable - 1
    afuCmd := e.afuCmd.load cmd
    afuCdata := e.afuCdata.load bdi bus })

inductive CmdClass
  | cmd | cmdData
  deriving DecidableEq, Repr

/-- What the driver calls between two frames; `respond` is whatever it does to the groups that carry no
command. -/
inductive DriverCall
  | sendCmd (cmd : AfuTlxCmd)
  | sendCmdData (bdi : UInt8) (bus : Buffer UInt8)
  | sendCmdAndData (cmd : AfuTlxCmd) (bdi : UInt8) (bus : Buffer UInt8)
  | respond (afuResp : AfuTlxResp) (afuRdata : AfuTlxRdata) (cfgResp : CfgTlxResp)
      (afuCreditReq : AfuTlxCreditReq)

def DriverCall.apply (e : AfuEvent) : DriverCall → ℤ × AfuEvent
  | .sendCmd cmd => afuTlxSendCmd e cmd
  | .sendCmdData bdi bus => afuTlxSendCmdData e bdi bus
  | .sendCmdAndData cmd bdi bus => afuTlxSendCmdAndData e cmd bdi bus
  | .respond afuResp afuRdata cfgResp afuCreditReq =>
      (tlxSuccess, { e with afuResp, afuRdata, cfgResp, afuCreditReq })

/-- The items that a call stages when it succeeds. -/
def DriverCall.items : DriverCall → CmdClass → ℕ
  | .sendCmd _, .cmd | .sendCmdData .., .cmdData | .sendCmdAndData .., _ => 1
  | _, _ => 0

/-! ## Where a credit can be -/

def AfuEvent.available (e : AfuEvent) : CmdClass → UInt8
  | .cmd => e.tlxAfuCmdCreditsAvailable
  | .cmdData => e.tlxAfuCmdDataCreditsAvailable

/-- A command, or a line of data, stands in the event: staged at the driver, received at the host. -/
def AfuEvent.holds (e : AfuEvent) : CmdClass → ℕ
  | .cmd => if e.afuCmd.valid ≠ 0 then 1 else 0
  | .cmdData => if e.afuCdata.valid ≠ 0 then 1 else 0

def TlxAfuCredits.flag (g : TlxAfuCredits) : CmdClass → UInt8
  | .cmd => g.cmdCredit
  | .cmdData => g.cmdDataCredit

/-- A return that the host has recorded. -/
def AfuEvent.recorded (e : AfuEvent) (c : CmdClass) : ℕ := if e.tlxCredits.flag c = 1 then 1 else 0

/-- The items in a frame of the AFU, by its first byte. -/
def carried (frame : List UInt8) : CmdClass → ℕ
  | .cmd => if frame.headD 0 &&& 0x02 ≠ 0 then 1 else 0
  | .cmdData => if frame.headD 0 &&& 0x04 ≠ 0 then 1 else 0

/-- The credits are the last nine bytes of a frame of the host. -/
def returning (frame : List UInt8) (c : CmdClass) : ℕ :=
  let back := match c with | .cmd => 4 | .cmdData => 2
  if frame.headD 0 &&& 0x01 ≠ 0 ∧ frame.getD (frame.length - back) 0 = 1 then 1 else 0

/-! ## The two parties -/

/-- The calls of a handler of ocse: it neither signals nor receives, and its data has a legal length. -/
def HostCall.isHandler : HostCall → Bool
  | .signal | .receive .. => false
  | .sendRespAndData _ _ _ _ dl _ _ _ _ => decide (dlToSize dl ≤ 256)
  | .sendCmdAndData _ _ dl _ _ _ _ _ _ => decide (cmdDataSize dl ≤ 256)
  | _ => true

/-- `toAfu` and `toHost` are the bytes in flight. `issued` counts what the calls of the driver staged and
`arrived` what the host decoded. -/
structure Link where
  host : AfuEvent
  driver : AfuEvent
  toAfu : List UInt8
  toHost : List UInt8
  issued : CmdClass → ℕ
  arrived : CmdClass → ℕ

inductive LinkStep
  | signal
  | handle (call : { call : HostCall // call.isHandler = true })
  | answer
  | call (call : DriverCall)
  | receive

def Link.step (l : Link) : LinkStep → Link
  | .signal =>
    let (_, host, frame) := tlxSignalAfuModel l.host
    { l with host, toAfu := l.toAfu ++ frame }
  | .handle call => { l with host := (call.1.apply l.host).2 }
  | .answer =>
    let (_, driver, s) := tlxGetTlxEvents l.driver (Socket.whole l.toAfu)
    { l with driver, toAfu := s.stream, toHost := l.toHost ++ s.sent }
  | .call call =>
    let (rc, driver) := call.apply l.driver
    { l with driver, issued := fun c => l.issued c + if rc = tlxSuccess then call.items c else 0 }
  | .receive =>
    let (rc, host, s) := tlxGetAfuEvents l.host (Socket.whole l.toHost)
    { l with
      host
      toHost := s.stream
      arrived := fun c => l.arrived c + if rc = 1 ∧ l.toHost ≠ [0x10] then host.holds c else 0 }

def Link.run (l : Link) (steps : List LinkStep) : Link := steps.foldl Link.step l

/-- The initial credits go to the driver with the first frame; its answer is still in flight. -/
def linkStart (cmd resp cmdData respData afuCmd afuCfg afuResp : UInt8) : Link :=
  let l : Link :=
    { host := tlxAfuSendInitialCredits tlxEventReset cmd resp cmdData respData
      driver := afuTlxSendInitialCredits tlxEventReset afuCmd afuCfg afuResp
      toAfu := [], toHost := [], issued := fun _ => 0, arrived := fun _ => 0 }
  let l := l.run [.signal, .answer]
  { l with driver := (tlxAfuReadInitialCredits l.driver).2 }

/-- At most one line of data is staged for a frame. -/
def LinkStep.OneLine (l : Link) : LinkStep → Prop
  | .call (.sendCmdData ..) => l.driver.afuCdata.valid = 0
  | _ => True

/-- Every credit is in one place, and every item that was staged has arrived or is under way. -/
structure Link.Conserved (initial : CmdClass → ℕ) (l : Link) : Prop where
  credits : ∀ c, (l.driver.available c).toNat + (l.driver.holds c + carried l.toHost c) +
    (l.host.recorded c + returning l.toAfu c) = initial c
  items : ∀ c, l.issued c = l.arrived c + (l.driver.holds c + carried l.toHost c)

theorem Link.Conserved.available_le {initial : CmdClass → ℕ} {l : Link} (h : l.Conserved initial)
    (c : CmdClass) : (l.driver.available c).toNat ≤ initial c := by
  have hcredits := h.credits c
  omega

/-! ## What frames carry -/

theorem hostFrame_headD (e : AfuEvent) (h : e.clock = 0) :
    (tlxSignalAfuModel e).2.2.headD 0 = (hostBuffer e).head := by
  rw [tlxSignalAfuModel_frame e h, TxBuffer.frame]
  split <;> rfl

theorem afuFrame_headD (e : AfuEvent) (h : e.clock = 1) :
    (tlxSignalTlxModel e).2.2.headD 0 = (afuBuffer e).head := by
  rw [tlxSignalTlxModel_frame e h, TxBuffer.frame]
  split <;> rfl

/-- A frame of the AFU carries what was staged. -/
theorem carried_afuFrame (e : AfuEvent) (h : e.clock = 1) (c : CmdClass) :
    carried (tlxSignalTlxModel e).2.2 c = e.holds c := by
  have hheader := afuHeader_of_holds e _ (Buffer.holds_write (Buffer.const 0) 0 (afuBuffer e).header)
  have hbit := present_congr (Buffer.holds_write (Buffer.const 0) 0 (afuBuffer e).header)
  cases c with
  | cmd =>
    simp only [carried, AfuEvent.holds, afuFrame_headD e h]
    exact if_congr ((hbit 0x02).symm.trans hheader.cmd) rfl rfl
  | cmdData =>
    simp only [carried, AfuEvent.holds, afuFrame_headD e h]
    exact if_congr ((hbit 0x04).symm.trans hheader.cdata) rfl rfl

theorem getD_credits (xs : List UInt8) (g : TlxAfuCredits) :
    (xs ++ g.bytes).getD ((xs ++ g.bytes).length - 4) 0 = g.cmdCredit ∧
      (xs ++ g.bytes).getD ((xs ++ g.bytes).length - 2) 0 = g.cmdDataCredit := by
  have hlength : (xs ++ g.bytes).length = xs.length + 9 := by simp
  rw [hlength]
  constructor
  · rw [show xs.length + 9 - 4 = xs.length + 5 by omega, List.getD_append_right _ _ _ _ (by omega)]
    simp [TlxAfuCredits.bytes]
  · rw [show xs.length + 9 - 2 = xs.length + 7 by omega, List.getD_append_right _ _ _ _ (by omega)]
    simp [TlxAfuCredits.bytes]

/-- A frame of the host carries the returns that were recorded, if the credits are sent at all. -/
theorem returning_hostFrame (e : AfuEvent) (h : e.clock = 0) (c : CmdClass) :
    returning (tlxSignalAfuModel e).2.2 c = if e.tlxCredits.valid ≠ 0 then e.recorded c else 0 := by
  have hbit : (hostBuffer e).head &&& 0x01 ≠ 0 ↔ e.tlxCredits.valid ≠ 0 := by
    have hbits := hostHead_bits (decide (e.tlxCfg.valid ≠ 0)) (decide (e.tlxCmd.valid ≠ 0))
      (decide (e.tlxCmdData.valid ≠ 0)) (decide (e.tlxResp.valid ≠ 0))
      (decide (e.tlxRespData.valid ≠ 0)) (decide (e.tlxCredits.valid ≠ 0))
    simp only [← groupBit_eq_cond, decide_eq_true_eq] at hbits
    exact hbits.2.2.2.2.2.1
  unfold returning
  simp only [hostFrame_headD e h, hbit]
  by_cases hvalid : e.tlxCredits.valid = 0
  · simp [hvalid]
  · have hbody : (hostBuffer e).body ≠ [] := by
      simp [hostBuffer, groupBytes, hvalid, TlxAfuCredits.bytes]
    obtain ⟨xs, hxs⟩ : ∃ xs, (tlxSignalAfuModel e).2.2 = xs ++ e.tlxCredits.bytes := by
      rw [tlxSignalAfuModel_frame e h, TxBuffer.frame_of_ne _ hbody]
      simp only [hostBuffer, groupBytes_of_ne hvalid, ← List.append_assoc]
      exact ⟨_, rfl⟩
    obtain ⟨hcmd, hdata⟩ := getD_credits xs e.tlxCredits
    rw [hxs]
    cases c with
    | cmd =>
      simp only [hcmd, ne_eq, hvalid, not_false_eq_true, true_and, if_true]
      rfl
    | cmdData =>
      simp only [hdata, ne_eq, hvalid, not_false_eq_true, true_and, if_true]
      rfl

theorem returning_le (frame : List UInt8) (c : CmdClass) : returning frame c ≤ 1 := by
  unfold returning
  dsimp only
  split_ifs <;> decide

/-! ## The host -/

/-- What the handlers leave alone at the host. -/
structure HostKept (e e' : AfuEvent) : Prop where
  clock : e'.clock = e.clock
  rbp : e'.rbp = e.rbp
  flag : ∀ c, e'.tlxCredits.flag c = e.tlxCredits.flag c
  valid : e.tlxCredits.valid ≠ 0 → e'.tlxCredits.valid ≠ 0
  cmdCnt : e.tlxCmdData.byteCnt.toNat ≤ 256 → e'.tlxCmdData.byteCnt.toNat ≤ 256
  respCnt : e.tlxRespData.byteCnt.toNat ≤ 256 → e'.tlxRespData.byteCnt.toNat ≤ 256

theorem HostKept.refl (e : AfuEvent) : HostKept e e := ⟨rfl, rfl, fun _ => rfl, id, id, id⟩

theorem HostKept.recorded {e e' : AfuEvent} (h : HostKept e e') (c : CmdClass) :
    e'.recorded c = e.recorded c := by
  rw [AfuEvent.recorded, AfuEvent.recorded, h.flag]

theorem HostKept.ite {p : Prop} [Decidable p] {rc : ℤ} {e : AfuEvent} {r : ℤ × AfuEvent}
    (h : HostKept e r.2) : HostKept e (if p then (rc, e) else r).2 := by
  split_ifs
  · exact .refl e
  · exact h

theorem toNat_ofNat_size {n : ℕ} (h : n ≤ 256) : (UInt16.ofNat n).toNat ≤ 256 := by
  rw [UInt16.toNat_ofNat']
  omega

theorem HostCall.handler_kept {call : HostCall} (h : call.isHandler = true) (e : AfuEvent) :
    HostKept e (call.apply e).2 := by
  cases call with
  | signal | receive => exact absurd h (by simp [isHandler])
  | sendResp => exact .ite (.ite ⟨rfl, rfl, fun _ => rfl, id, id, id⟩)
  | sendRespAndData =>
    exact .ite (.ite ⟨rfl, rfl, fun _ => rfl, id, id,
      fun _ => toNat_ofNat_size (of_decide_eq_true h)⟩)
  | sendPostedCmd => exact .ite (.ite ⟨rfl, rfl, fun _ => rfl, id, id, id⟩)
  | sendCmd => exact .ite (.ite ⟨rfl, rfl, fun _ => rfl, id, id, id⟩)
  | sendCmdAndData =>
    exact .ite (.ite ⟨rfl, rfl, fun _ => rfl, id,
      fun _ => toNat_ofNat_size (of_decide_eq_true h), id⟩)
  | sendCfgCmdAndData => exact .ite (.ite (.ite ⟨rfl, rfl, fun _ => rfl, id, id, id⟩))
  | readCmdAndData =>
    change HostKept e (afuTlxReadCmdAndData e).2
    unfold afuTlxReadCmdAndData
    split_ifs <;> exact ⟨rfl, rfl, fun _ => rfl, id, id, id⟩
  | readCmdData =>
    change HostKept e (afuTlxReadCmdData e).2
    unfold afuTlxReadCmdData
    split_ifs <;> exact ⟨rfl, rfl, fun _ => rfl, id, id, id⟩
  | readResp =>
    change HostKept e (afuTlxReadResp e).2
    unfold afuTlxReadResp
    split_ifs
    · exact .refl e
    · exact ⟨rfl, rfl, by rintro (_ | _) <;> rfl, fun _ => show (1 : UInt8) ≠ 0 by decide, id, id⟩
  | readRespData =>
    change HostKept e (afuTlxReadRespData e).2
    unfold afuTlxReadRespData
    split_ifs
    · exact .refl e
    · exact ⟨rfl, rfl, by rintro (_ | _) <;> rfl, fun _ => show (1 : UInt8) ≠ 0 by decide, id, id⟩
  | readCfgRespAndData requestedCapptag =>
    change HostKept e (afuTlxReadCfgRespAndData e requestedCapptag).2
    unfold afuTlxReadCfgRespAndData
    split_ifs
    · exact .refl e
    · exact .refl e
    · exact ⟨rfl, rfl, by rintro (_ | _) <;> rfl, fun _ => show (1 : UInt8) ≠ 0 by decide, id, id⟩

/-- A signal sends the recorded returns and takes their flags down. -/
theorem tlxSignalAfuModel_host (e : AfuEvent) (h : e.clock = 0)
    (hvalid : ∀ c, e.recorded c = 1 → e.tlxCredits.valid ≠ 0) :
    (tlxSignalAfuModel e).2.1.clock = 1 ∧ (tlxSignalAfuModel e).2.1.rbp = e.rbp ∧
      (∀ c, (tlxSignalAfuModel e).2.1.recorded c = 0) ∧
      (∀ c, returning (tlxSignalAfuModel e).2.2 c = e.recorded c) ∧
      (tlxSignalAfuModel e).2.1.tlxCmdData.byteCnt = e.tlxCmdData.byteCnt ∧
      (tlxSignalAfuModel e).2.1.tlxRespData.byteCnt = e.tlxRespData.byteCnt := by
  have hcredits : (tlxSignalAfuModel e).2.1.tlxCredits = (e.tlxCredits.put ⟨0, 0, 0, 0, 0, []⟩).1 := by
    unfold tlxSignalAfuModel TlxAfuCredits.put
    rw [if_neg (not_not.mpr h)]
    split_ifs <;> rfl
  have hzero : ∀ c, e.tlxCredits.valid = 0 → e.recorded c = 0 := by
    intro c hc
    have hle : e.recorded c ≤ 1 := by unfold AfuEvent.recorded; split_ifs <;> decide
    by_contra hne
    exact hvalid c (by omega) hc
  refine ⟨?_, ?_, ?_, ?_, ?_, ?_⟩
  · unfold tlxSignalAfuModel
    rw [if_neg (not_not.mpr h)]
  · unfold tlxSignalAfuModel
    rw [if_neg (not_not.mpr h)]
  · intro c
    by_cases hv : e.tlxCredits.valid = 0
    · rw [AfuEvent.recorded, hcredits, TlxAfuCredits.put, if_neg (not_not.mpr hv)]
      exact hzero c hv
    · rw [AfuEvent.recorded, hcredits, TlxAfuCredits.put, if_pos hv]
      cases c <;> simp [TlxAfuCredits.flag]
  · intro c
    rw [returning_hostFrame e h]
    split_ifs with hv
    · rfl
    · exact (hzero c (not_not.mp hv)).symm
  · unfold tlxSignalAfuModel TlxAfuCmdData.put
    rw [if_neg (not_not.mpr h)]
    split_ifs <;> rfl
  · unfold tlxSignalAfuModel TlxAfuRespData.put
    rw [if_neg (not_not.mpr h)]
    split_ifs <;> rfl

theorem parseAfuEvents_credits (e : AfuEvent) (cmdCnt : ℕ) :
    (parseAfuEvents e cmdCnt).tlxCredits = e.tlxCredits.earnCredits e.rbuf ∧
      (parseAfuEvents e cmdCnt).clock = e.clock ∧ (parseAfuEvents e cmdCnt).rbp = 0 ∧
      (parseAfuEvents e cmdCnt).tlxCmdData = e.tlxCmdData ∧
      (parseAfuEvents e cmdCnt).tlxRespData = e.tlxRespData ∧
      (∀ c, (parseAfuEvents e cmdCnt).holds c = (parseAfuEvents e cmdCnt).recorded c) := by
  have hcmd : ∀ rbc, (e.afuCmd.get e.rbuf rbc).1.valid = if present e.rbuf 0x02 then 1 else 0 := by
    intro rbc
    unfold AfuTlxCmd.get
    split_ifs <;> rfl
  have hcdata : ∀ cnt rbc, (e.afuCdata.get e.rbuf cnt rbc).1.valid =
      if present e.rbuf 0x04 then 1 else 0 := by
    intro cnt rbc
    unfold AfuTlxCdata.get
    split_ifs <;> rfl
  simp only [parseAfuEvents]
  unfold AfuEvent.countReturns
  split_ifs
  all_goals
    refine ⟨rfl, rfl, rfl, rfl, rfl, ?_⟩
    rintro (_ | _)
    · simp only [AfuEvent.holds, AfuEvent.recorded, TlxAfuCredits.flag, TlxAfuCredits.earnCredits, hcmd]
      split_ifs <;> simp_all
    · simp only [AfuEvent.holds, AfuEvent.recorded, TlxAfuCredits.flag, TlxAfuCredits.earnCredits, hcdata]
      split_ifs <;> simp_all

theorem lowerClock_kept (e : AfuEvent) :
    (lowerClock e).tlxCredits = e.tlxCredits ∧ (lowerClock e).tlxCmdData = e.tlxCmdData ∧
      (lowerClock e).tlxRespData = e.tlxRespData ∧ (present e.rbuf 0x10 → (lowerClock e).clock = 0) := by
  unfold lowerClock
  split_ifs with h
  · exact ⟨rfl, rfl, rfl, fun _ => rfl⟩
  · exact ⟨rfl, rfl, rfl, fun hp => absurd hp h⟩

theorem afuBuffer_clock (e : AfuEvent) : (afuBuffer e).head &&& 0x10 ≠ 0 := by
  have hbits : ∀ a b c d f g : Bool, ((0x10 : UInt8) ||| cond a 0x02 0 ||| cond b 0x04 0 |||
      cond c 0x08 0 ||| cond d 0x20 0 ||| cond f 0x40 0 ||| cond g 0x01 0) &&& 0x10 ≠ 0 := by decide
  have h := hbits (decide (e.afuCmd.valid ≠ 0)) (decide (e.afuCdata.valid ≠ 0))
    (decide (e.afuResp.valid ≠ 0)) (decide (e.afuRdata.valid ≠ 0))
    (decide (e.cfgResp.valid ≠ 0)) (decide (e.afuCreditReq.valid ≠ 0))
  simp only [← groupBit_eq_cond] at h
  exact h

theorem AfuEvent.clocked_kept (e r : AfuEvent) :
    (r.clocked (afuBuffer e).head).tlxCredits = r.tlxCredits ∧
      (r.clocked (afuBuffer e).head).tlxCmdData = r.tlxCmdData ∧
      (r.clocked (afuBuffer e).head).tlxRespData = r.tlxRespData ∧
      (r.clocked (afuBuffer e).head).clock = 0 := by
  obtain ⟨hcredits, hcmd, hresp, hclock⟩ := lowerClock_kept
    { r with rbuf := r.rbuf.write 0 [(afuBuffer e).head], rbp := 1 }
  refine ⟨hcredits, hcmd, hresp, hclock ?_⟩
  rw [present]
  simp only [Buffer.write_at r.rbuf 0 [(afuBuffer e).head] 0 (by simp)]
  exact afuBuffer_clock e

/-- What the host has when the AFU's frame is in. -/
structure HostTaken (e r r' : AfuEvent) : Prop where
  clock : r'.clock = 0
  rbp : r'.rbp = 0
  recorded : ∀ c, r'.recorded c = e.holds c
  valid : ∀ c, r'.recorded c = 1 → r'.tlxCredits.valid ≠ 0
  cmdData : r'.tlxCmdData = r.tlxCmdData
  respData : r'.tlxRespData = r.tlxRespData
  holds : ∀ c, (if (tlxSignalTlxModel e).2.2 ≠ [0x10] then r'.holds c else 0) = e.holds c

theorem tlxGetAfuEvents_taken (e r : AfuEvent) (hclock : e.clock = 1) (hrbp : r.rbp = 0)
    (hnone : ∀ c, r.recorded c = 0) :
    ∃ r', tlxGetAfuEvents r (Socket.whole (tlxSignalTlxModel e).2.2) = (1, r', Socket.whole []) ∧
      HostTaken e r r' := by
  obtain ⟨hcredits, hcmdData, hrespData, hclock₁⟩ := AfuEvent.clocked_kept e r
  rcases tlxGetAfuEvents_whole e r (Socket.whole (tlxSignalTlxModel e).2.2) [] hclock hrbp rfl (by simp) with
    ⟨hbody, hget⟩ | ⟨r', cmdCnt, hr', hbody, hget, hheader, -⟩
  · -- A clock alone has no item and records none.
    have hframe : (tlxSignalTlxModel e).2.2 = [0x10] := by
      rw [tlxSignalTlxModel_frame e hclock, TxBuffer.frame_of_eq _ hbody, (afuBuffer_head_eq_iff e).mpr hbody]
    have hzero : ∀ c, e.holds c = 0 := by
      intro c
      rw [← carried_afuFrame e hclock, hframe]
      cases c <;> rfl
    have hsame : ∀ c, AfuEvent.recorded { r.clocked (afuBuffer e).head with rbp := 0 } c = 0 := by
      intro c
      rw [← hnone c, AfuEvent.recorded, AfuEvent.recorded, ← hcredits]
    refine ⟨_, hget, hclock₁, rfl, fun c => (hsame c).trans (hzero c).symm, ?_, hcmdData, hrespData, ?_⟩
    · intro c hc
      rw [hsame c] at hc
      exact absurd hc (by decide)
    · intro c
      rw [if_neg (not_not.mpr hframe), hzero]
  · obtain ⟨hearn, hclock₂, hrbp₂, hcmdData₂, hrespData₂, hholds⟩ := parseAfuEvents_credits r' cmdCnt
    have hrecorded : ∀ c, (parseAfuEvents r' cmdCnt).recorded c = e.holds c := by
      rintro (_ | _)
      · simp only [AfuEvent.recorded, hearn, TlxAfuCredits.flag, TlxAfuCredits.earnCredits, hheader.cmd,
          AfuEvent.holds]
        split_ifs <;> simp_all
      · simp only [AfuEvent.recorded, hearn, TlxAfuCredits.flag, TlxAfuCredits.earnCredits, hheader.cdata,
          AfuEvent.holds]
        split_ifs <;> simp_all
    have hframe : (tlxSignalTlxModel e).2.2 ≠ [0x10] := by
      rw [tlxSignalTlxModel_frame e hclock, TxBuffer.frame_of_ne _ hbody]
      simp [TxBuffer.header]
    subst hr'
    refine ⟨_, hget, hclock₂.trans hclock₁, hrbp₂, hrecorded, ?_, hcmdData₂.trans hcmdData,
      hrespData₂.trans hrespData, ?_⟩
    · intro c hc
      rw [hearn]
      rw [AfuEvent.recorded, hearn] at hc
      cases c <;> simp_all [TlxAfuCredits.flag, TlxAfuCredits.earnCredits]
    · intro c
      rw [if_pos hframe, hholds, hrecorded]

/-! ## The driver -/

theorem tlxSignalTlxModel_sent (e : AfuEvent) (h : e.clock = 1) :
    (tlxSignalTlxModel e).2.1.afuCmd.valid = 0 ∧ (tlxSignalTlxModel e).2.1.afuCdata.valid = 0 ∧
      ∀ c, (tlxSignalTlxModel e).2.1.available c = e.available c := by
  unfold tlxSignalTlxModel
  rw [if_neg (not_not.mpr h)]
  refine ⟨?_, ?_, by rintro (_ | _) <;> rfl⟩
  · unfold AfuTlxCmd.put
    split_ifs with hv
    · rfl
    · exact not_not.mp hv
  · unfold AfuTlxCdata.put
    split_ifs with hv
    · rfl
    · exact not_not.mp hv

theorem parseTlxEvents_available (e : AfuEvent) (cmdCnt respCnt : ℕ) :
    (∀ c, (parseTlxEvents e cmdCnt respCnt).available c =
      addCredit (e.available c) ((parseTlxEvents e cmdCnt respCnt).tlxCredits.flag c)) ∧
    (¬present e.rbuf 0x01 → ∀ c, (parseTlxEvents e cmdCnt respCnt).tlxCredits.flag c = 0) := by
  simp only [parseTlxEvents]
  refine ⟨by rintro (_ | _) <;> rfl, fun hnone c => ?_⟩
  unfold TlxAfuCredits.get
  rw [if_neg hnone]
  cases c <;> rfl

/-- What the driver has when it has answered the host's frame and taken it in. -/
structure DriverTaken (e r r' : AfuEvent) : Prop where
  rbp : r'.rbp = 0
  cmd : r'.afuCmd.valid = 0
  cdata : r'.afuCdata.valid = 0
  available : ∀ c, r'.available c =
    if returning (tlxSignalAfuModel e).2.2 c = 0 then r.available c else r.available c + 1

theorem tlxGetTlxEvents_taken (e r : AfuEvent) (hclock : e.clock = 0)
    (hcmd : e.tlxCmdData.byteCnt.toNat ≤ 256) (hresp : e.tlxRespData.byteCnt.toNat ≤ 256) (hrbp : r.rbp = 0) :
    ∃ r' answer s, tlxGetTlxEvents r (Socket.whole (tlxSignalAfuModel e).2.2) = (1, r', s) ∧
      answer.clock = 1 ∧ (∀ c, answer.holds c = r.holds c) ∧ s.stream = [] ∧
      s.sent = (tlxSignalTlxModel answer).2.2 ∧ DriverTaken e r r' := by
  set answer : AfuEvent := { r with rbuf := r.rbuf.write 0 [(hostBuffer e).head], rbp := 1, clock := 1 }
  have hholds : ∀ c, answer.holds c = r.holds c := by rintro (_ | _) <;> rfl
  obtain ⟨hcmd₁, hcdata₁, havail₁⟩ := tlxSignalTlxModel_sent answer rfl
  have hbefore : ∀ c, (tlxSignalTlxModel answer).2.1.available c = r.available c := by
    intro c
    rw [havail₁]
    cases c <;> rfl
  rcases tlxGetTlxEvents_whole e r (Socket.whole (tlxSignalAfuModel e).2.2) [] hclock hcmd hresp hrbp rfl
    (by simp) with ⟨hbody, hget⟩ | ⟨r', cmdCnt, respCnt, hr', hbody, hget, hheader, hbytes, hcmdCnt, hrespCnt⟩
  · refine ⟨_, answer, _, hget, rfl, hholds, rfl, rfl, rfl, hcmd₁, hcdata₁, fun c => ?_⟩
    have hvalid : e.tlxCredits.valid = 0 := by
      simp [hostBuffer, groupBytes, TlxAfuCredits.bytes] at hbody
      exact hbody.2.2.2.2.2
    rw [returning_hostFrame e hclock, if_neg (not_not.mpr hvalid), if_pos rfl, ← hbefore c]
    cases c <;> rfl
  · have hreceived := parseTlxEvents_received e r' hheader hbytes cmdCnt respCnt hcmdCnt hrespCnt
    obtain ⟨havail, hnone⟩ := parseTlxEvents_available r' cmdCnt respCnt
    refine ⟨_, answer, _, hget, rfl, hholds, rfl, rfl, rfl, ?_, ?_, fun c => ?_⟩
    · rw [hr']
      exact hcmd₁
    · rw [hr']
      exact hcdata₁
    · have hsame : r'.available c = r.available c := by
        rw [hr', ← hbefore c]
        cases c <;> rfl
      rw [havail, hsame, returning_hostFrame e hclock]
      by_cases hvalid : e.tlxCredits.valid = 0
      · rw [hnone (fun hp => hheader.credits.mp hp hvalid) c, if_neg (not_not.mpr hvalid)]
        rfl
      · have hflag : (parseTlxEvents r' cmdCnt respCnt).tlxCredits.flag c = e.tlxCredits.flag c := by
          obtain ⟨-, -, -, -, -, hcmdCredit, -, hdataCredit, -⟩ := hreceived.credits.2 hvalid
          cases c
          · exact hcmdCredit
          · exact hdataCredit
        rw [hflag, if_pos hvalid, AfuEvent.recorded, addCredit]
        split_ifs <;> simp_all

/-- The flags of the two groups are flags. -/
structure AfuEvent.CmdFlags (e : AfuEvent) : Prop where
  cmd : e.afuCmd.valid = 0 ∨ e.afuCmd.valid = 1
  cdata : e.afuCdata.valid = 0 ∨ e.afuCdata.valid = 1

/-- A call moves a credit of the counter to each item that it stages. -/
structure DriverMoved (call : DriverCall) (e : AfuEvent) (r : ℤ × AfuEvent) : Prop where
  rbp : r.2.rbp = e.rbp
  flags : r.2.CmdFlags
  credits : ∀ c, (r.2.available c).toNat + r.2.holds c = (e.available c).toNat + e.holds c
  items : ∀ c, r.2.holds c = e.holds c + if r.1 = tlxSuccess then call.items c else 0

theorem DriverMoved.refused {call : DriverCall} {e : AfuEvent} (hflags : e.CmdFlags) {rc : ℤ}
    (h : rc ≠ tlxSuccess) : DriverMoved call e (rc, e) :=
  ⟨rfl, hflags, fun _ => rfl, fun c => by rw [if_neg h, Nat.add_zero]⟩

theorem DriverCall.apply_moved (call : DriverCall) (e : AfuEvent) (hflags : e.CmdFlags)
    (hone : ∀ bdi bus, call = .sendCmdData bdi bus → e.afuCdata.valid = 0) :
    DriverMoved call e (call.apply e) := by
  cases call with
  | sendCmd cmd =>
    change DriverMoved _ e (afuTlxSendCmd e cmd)
    unfold afuTlxSendCmd
    split_ifs with hcredit hdouble
    · exact .refused hflags (by decide)
    · exact .refused hflags (by decide)
    · have hpred := toNat_pred hcredit
      refine ⟨rfl, ⟨.inr rfl, hflags.cdata⟩, ?_, ?_⟩ <;> rintro (_ | _)
      · simp [AfuEvent.available, AfuEvent.holds, AfuTlxCmd.load, hdouble, hpred]
      · rfl
      · simp [AfuEvent.holds, AfuTlxCmd.load, hdouble, items]
      · simp [AfuEvent.holds, items]
  | sendCmdData bdi bus =>
    have hfree := hone bdi bus rfl
    change DriverMoved _ e (afuTlxSendCmdData e bdi bus)
    unfold afuTlxSendCmdData
    split_ifs with hcredit
    · exact .refused hflags (by decide)
    · have hpred := toNat_pred hcredit
      refine ⟨rfl, ⟨hflags.cmd, .inr rfl⟩, ?_, ?_⟩ <;> rintro (_ | _)
      · rfl
      · simp [AfuEvent.available, AfuEvent.holds, AfuTlxCdata.load, hfree, hpred]
      · simp [AfuEvent.holds, items]
      · simp [AfuEvent.holds, AfuTlxCdata.load, hfree, items]
  | sendCmdAndData cmd bdi bus =>
    change DriverMoved _ e (afuTlxSendCmdAndData e cmd bdi bus)
    unfold afuTlxSendCmdAndData
    split_ifs with hcredit hdouble
    · exact .refused hflags (by decide)
    · exact .refused hflags (by decide)
    · obtain ⟨hcredit₁, hcredit₂⟩ := not_or.mp hcredit
      obtain ⟨hcmd, hcdata⟩ := not_or.mp hdouble
      have hfree₁ := hflags.cmd.resolve_right hcmd
      have hfree₂ := hflags.cdata.resolve_right hcdata
      have hpred₁ := toNat_pred hcredit₁
      have hpred₂ := toNat_pred hcredit₂
      refine ⟨rfl, ⟨.inr rfl, .inr rfl⟩, ?_, ?_⟩ <;> rintro (_ | _)
      · simp [AfuEvent.available, AfuEvent.holds, AfuTlxCmd.load, hfree₁, hpred₁]
      · simp [AfuEvent.available, AfuEvent.holds, AfuTlxCdata.load, hfree₂, hpred₂]
      · simp [AfuEvent.holds, AfuTlxCmd.load, hfree₁, items]
      · simp [AfuEvent.holds, AfuTlxCdata.load, hfree₂, items]
  | respond => exact ⟨rfl, ⟨hflags.cmd, hflags.cdata⟩, by rintro (_ | _) <;> rfl, by rintro (_ | _) <;> rfl⟩

/-! ## Lock step -/

/-- Where the one frame is. A return can be recorded only while there is none. -/
inductive Link.Phase (l : Link) : Prop
  | host (clock : l.host.clock = 0) (toAfu : l.toAfu = []) (toHost : l.toHost = [])
      (valid : ∀ c, l.host.recorded c = 1 → l.host.tlxCredits.valid ≠ 0)
  | asked (e : AfuEvent) (clock : e.clock = 0) (cmdCnt : e.tlxCmdData.byteCnt.toNat ≤ 256)
      (respCnt : e.tlxRespData.byteCnt.toNat ≤ 256) (busy : l.host.clock = 1)
      (toAfu : l.toAfu = (tlxSignalAfuModel e).2.2) (toHost : l.toHost = [])
      (recorded : ∀ c, l.host.recorded c = 0)
  | answered (e : AfuEvent) (clock : e.clock = 1) (busy : l.host.clock = 1) (toAfu : l.toAfu = [])
      (toHost : l.toHost = (tlxSignalTlxModel e).2.2) (recorded : ∀ c, l.host.recorded c = 0)

structure Link.Inv (initial : CmdClass → ℕ) (l : Link) : Prop where
  conserved : l.Conserved initial
  phase : l.Phase
  hostRbp : l.host.rbp = 0
  driverRbp : l.driver.rbp = 0
  flags : l.driver.CmdFlags
  cmdCnt : l.host.tlxCmdData.byteCnt.toNat ≤ 256
  respCnt : l.host.tlxRespData.byteCnt.toNat ≤ 256

/-- Without a byte in flight a receiver does nothing. -/
theorem tlxGetTlxEvents_nil (r : AfuEvent) (h : r.rbp = 0) :
    tlxGetTlxEvents r (Socket.whole []) = (0, r, Socket.whole []) := by
  have hfill : r.fillHead (Socket.whole []) = (some 0, r, Socket.whole []) := by
    rw [AfuEvent.fillHead, if_pos h]
    rfl
  unfold tlxGetTlxEvents
  rw [hfill]

theorem tlxGetAfuEvents_nil (r : AfuEvent) (h : r.rbp = 0) :
    tlxGetAfuEvents r (Socket.whole []) = (0, r, Socket.whole []) := by
  have hfill : r.fillHead (Socket.whole []) = (some 0, r, Socket.whole []) := by
    rw [AfuEvent.fillHead, if_pos h]
    rfl
  unfold tlxGetAfuEvents
  rw [hfill]

theorem Link.signal_inv {initial : CmdClass → ℕ} {l : Link} (h : l.Inv initial) :
    (l.step .signal).Inv initial := by
  rcases h.phase with ⟨hclock, htoAfu, htoHost, hvalid⟩ |
    ⟨e, hclock, hcmdCnt, hrespCnt, hbusy, htoAfu, htoHost, hnone⟩ | ⟨e, hclock, hbusy, htoAfu, htoHost, hnone⟩
  · obtain ⟨hclock', hrbp', hrecorded', hreturning, hcmdCnt', hrespCnt'⟩ :=
      tlxSignalAfuModel_host l.host hclock hvalid
    have hflight : l.toAfu ++ (tlxSignalAfuModel l.host).2.2 = (tlxSignalAfuModel l.host).2.2 := by
      rw [htoAfu, List.nil_append]
    refine ⟨⟨fun c => ?_, h.conserved.items⟩, ?_, hrbp'.trans h.hostRbp, h.driverRbp, h.flags, ?_, ?_⟩
    · have hcredits := h.conserved.credits c
      rw [htoAfu, show returning [] c = 0 by cases c <;> rfl] at hcredits
      simp only [Link.step, hrecorded', hflight, hreturning]
      omega
    · exact .asked l.host hclock h.cmdCnt h.respCnt hclock' hflight htoHost hrecorded'
    · simp only [Link.step, hcmdCnt']
      exact h.cmdCnt
    · simp only [Link.step, hrespCnt']
      exact h.respCnt
  all_goals
    -- The clock is still up: nothing is sent.
    have hsame : l.step .signal = l := by
      simp [Link.step, tlxSignalAfuModel, hbusy]
    rw [hsame]
    exact h

theorem Link.handle_inv {initial : CmdClass → ℕ} {l : Link} (h : l.Inv initial)
    (call : { call : HostCall // call.isHandler = true }) : (l.step (.handle call)).Inv initial := by
  have hkept := HostCall.handler_kept call.2 l.host
  refine ⟨⟨fun c => ?_, h.conserved.items⟩, ?_, hkept.rbp.trans h.hostRbp, h.driverRbp, h.flags,
    hkept.cmdCnt h.cmdCnt, hkept.respCnt h.respCnt⟩
  · simp only [Link.step, hkept.recorded]
    exact h.conserved.credits c
  · rcases h.phase with ⟨hclock, htoAfu, htoHost, hvalid⟩ |
      ⟨e, hclock, hcmdCnt, hrespCnt, hbusy, htoAfu, htoHost, hnone⟩ |
      ⟨e, hclock, hbusy, htoAfu, htoHost, hnone⟩
    · refine .host (hkept.clock.trans hclock) htoAfu htoHost (fun c hc => hkept.valid (hvalid c ?_))
      rw [← hkept.recorded]
      exact hc
    · exact .asked e hclock hcmdCnt hrespCnt (hkept.clock.trans hbusy) htoAfu htoHost
        (fun c => (hkept.recorded c).trans (hnone c))
    · exact .answered e hclock (hkept.clock.trans hbusy) htoAfu htoHost
        (fun c => (hkept.recorded c).trans (hnone c))

theorem Link.answer_inv {initial : CmdClass → ℕ} (hbyte : ∀ c, initial c < 256) {l : Link}
    (h : l.Inv initial) : (l.step .answer).Inv initial := by
  rcases h.phase with ⟨hclock, htoAfu, htoHost, hvalid⟩ |
    ⟨e, hclock, hcmdCnt, hrespCnt, hbusy, htoAfu, htoHost, hnone⟩ | ⟨e, hclock, hbusy, htoAfu, htoHost, hnone⟩
  case asked =>
    obtain ⟨driver, answer, s, hget, hclock', hholds, hstream, hsent, htaken⟩ :=
      tlxGetTlxEvents_taken e l.driver hclock hcmdCnt hrespCnt h.driverRbp
    rw [← htoAfu] at hget
    have hstep : l.step .answer = { l with
        driver, toAfu := [], toHost := (tlxSignalTlxModel answer).2.2 } := by
      simp only [Link.step, hget, hstream, hsent, htoHost, List.nil_append]
    have hstaged : ∀ c, driver.holds c = 0 := by
      rintro (_ | _)
      · simp [AfuEvent.holds, htaken.cmd]
      · simp [AfuEvent.holds, htaken.cdata]
    have hcarried : ∀ c, carried (tlxSignalTlxModel answer).2.2 c = l.driver.holds c :=
      fun c => (carried_afuFrame answer hclock' c).trans (hholds c)
    have hnil : ∀ c, carried [] c = 0 := by rintro (_ | _) <;> rfl
    rw [hstep]
    refine ⟨⟨fun c => ?_, fun c => ?_⟩, .answered answer hclock' hbusy rfl rfl hnone, h.hostRbp, htaken.rbp,
      ⟨.inl htaken.cmd, .inl htaken.cdata⟩, h.cmdCnt, h.respCnt⟩
    · have hcredits := h.conserved.credits c
      have hlt := hbyte c
      have hle := returning_le (tlxSignalAfuModel e).2.2 c
      rw [htoAfu, htoHost, hnil, hnone] at hcredits
      simp only [hstaged, hcarried, hnone, htaken.available, show returning [] c = 0 by cases c <;> rfl]
      split_ifs with hreturning
      · omega
      · have hroom : l.driver.available c ≠ 255 := by
          intro hfull
          rw [hfull, show (255 : UInt8).toNat = 255 by rfl] at hcredits
          omega
        have hsucc := toNat_succ hroom
        omega
    · have hitems := h.conserved.items c
      rw [htoHost, hnil] at hitems
      simp only [hstaged, hcarried]
      omega
  all_goals
    have hsame : l.step .answer = l := by
      simp only [Link.step, htoAfu, tlxGetTlxEvents_nil l.driver h.driverRbp]
      rw [← htoAfu]
      simp [Socket.whole]
    rw [hsame]
    exact h

theorem Link.call_inv {initial : CmdClass → ℕ} {l : Link} (h : l.Inv initial) (call : DriverCall)
    (hone : LinkStep.OneLine l (.call call)) : (l.step (.call call)).Inv initial := by
  have hmoved := call.apply_moved l.driver h.flags (by
    rintro bdi bus rfl
    exact hone)
  refine ⟨⟨fun c => ?_, fun c => ?_⟩, ?_, h.hostRbp, hmoved.rbp.trans h.driverRbp, hmoved.flags, h.cmdCnt,
    h.respCnt⟩
  · have hcredits := h.conserved.credits c
    have hmove := hmoved.credits c
    simp only [Link.step]
    omega
  · have hitems := h.conserved.items c
    have hmove := hmoved.items c
    simp only [Link.step]
    omega
  · rcases h.phase with ⟨hclock, htoAfu, htoHost, hvalid⟩ |
      ⟨e, hclock, hcmdCnt, hrespCnt, hbusy, htoAfu, htoHost, hnone⟩ |
      ⟨e, hclock, hbusy, htoAfu, htoHost, hnone⟩
    · exact .host hclock htoAfu htoHost hvalid
    · exact .asked e hclock hcmdCnt hrespCnt hbusy htoAfu htoHost hnone
    · exact .answered e hclock hbusy htoAfu htoHost hnone

theorem Link.receive_inv {initial : CmdClass → ℕ} {l : Link} (h : l.Inv initial) :
    (l.step .receive).Inv initial := by
  rcases h.phase with ⟨hclock, htoAfu, htoHost, hvalid⟩ |
    ⟨e, hclock, hcmdCnt, hrespCnt, hbusy, htoAfu, htoHost, hnone⟩ | ⟨e, hclock, hbusy, htoAfu, htoHost, hnone⟩
  case answered =>
    obtain ⟨host, hget, htaken⟩ := tlxGetAfuEvents_taken e l.host hclock h.hostRbp hnone
    have hcarried := carried_afuFrame e hclock
    rw [← htoHost] at hget hcarried
    have hstep : l.step .receive = { l with
        host, toHost := [], arrived := fun c => l.arrived c + e.holds c } := by
      have harrived := htaken.holds
      rw [← htoHost] at harrived
      simp only [Link.step, hget, true_and, harrived]
      rfl
    have hnil : ∀ c, carried [] c = 0 := by rintro (_ | _) <;> rfl
    rw [hstep]
    refine ⟨⟨fun c => ?_, fun c => ?_⟩, .host htaken.clock htoAfu rfl htaken.valid, htaken.rbp, h.driverRbp,
      h.flags, ?_, ?_⟩
    · have hcredits := h.conserved.credits c
      rw [hcarried, hnone] at hcredits
      simp only [hnil, htaken.recorded]
      omega
    · have hitems := h.conserved.items c
      rw [hcarried] at hitems
      simp only [hnil]
      omega
    · rw [htaken.cmdData]
      exact h.cmdCnt
    · rw [htaken.respData]
      exact h.respCnt
  all_goals
    have hsame : l.step .receive = l := by
      simp only [Link.step, htoHost, tlxGetAfuEvents_nil l.host h.hostRbp, Socket.whole_stream,
        show ¬(0 : ℤ) = 1 by decide, false_and, if_false, Nat.add_zero]
      rw [← htoHost]
    rw [hsame]
    exact h

theorem Link.step_inv {initial : CmdClass → ℕ} (hbyte : ∀ c, initial c < 256) {l : Link}
    (h : l.Inv initial) (step : LinkStep) (hone : step.OneLine l) : (l.step step).Inv initial := by
  cases step with
  | signal => exact Link.signal_inv h
  | handle call => exact Link.handle_inv h call
  | answer => exact Link.answer_inv hbyte h
  | call call => exact Link.call_inv h call hone
  | receive => exact Link.receive_inv h

/-- The initial credits of the host. -/
def givenCredits (cmd cmdData : UInt8) : CmdClass → ℕ
  | .cmd => cmd.toNat
  | .cmdData => cmdData.toNat

theorem linkStart_inv (cmd resp cmdData respData afuCmd afuCfg afuResp : UInt8) :
    (linkStart cmd resp cmdData respData afuCmd afuCfg afuResp).Inv (givenCredits cmd cmdData) := by
  set host := tlxAfuSendInitialCredits tlxEventReset cmd resp cmdData respData with hhost
  set driver := afuTlxSendInitialCredits tlxEventReset afuCmd afuCfg afuResp with hdriver
  have hcnt : host.tlxCmdData.byteCnt.toNat ≤ 256 ∧ host.tlxRespData.byteCnt.toNat ≤ 256 :=
    show (0 : UInt16).toNat ≤ 256 ∧ (0 : UInt16).toNat ≤ 256 by decide
  obtain ⟨hclock, hrbp, hnone, -, hcmdCnt, hrespCnt⟩ := tlxSignalAfuModel_host host rfl
    (fun _ _ => show (1 : UInt8) ≠ 0 by decide)
  obtain ⟨r', answer, s, hget, hclock', hholds, hstream, hsent, htaken⟩ :=
    tlxGetTlxEvents_taken host driver rfl hcnt.1 hcnt.2 rfl
  obtain ⟨r'', s'', hget', hreceived, -⟩ := hostFrame_roundTrip host driver
    (Socket.whole (tlxSignalAfuModel host).2.2) [] rfl hcnt.1 hcnt.2 rfl
    ⟨rfl, rfl, rfl, rfl, rfl, rfl⟩ rfl (by simp)
  obtain rfl : r' = r'' := (Prod.mk.inj (Prod.mk.inj (hget.symm.trans hget')).2).1
  obtain ⟨hvalid, hinitial⟩ := hreceived.credits
  obtain ⟨hcmd, hcmdData, -⟩ := hinitial (show (1 : UInt8) ≠ 0 by decide)
  have hread : ¬r'.tlxCredits.valid = 0 := by
    rw [hvalid]
    exact show ¬(1 : UInt8) = 0 by decide
  have hstart : linkStart cmd resp cmdData respData afuCmd afuCfg afuResp =
      { host := (tlxSignalAfuModel host).2.1
        driver := (tlxAfuReadInitialCredits r').2
        toAfu := [], toHost := (tlxSignalTlxModel answer).2.2
        issued := fun _ => 0, arrived := fun _ => 0 } := by
    simp only [linkStart, Link.run, List.foldl_cons, List.foldl_nil, Link.step, List.nil_append, ← hhost,
      ← hdriver, hget, hstream, hsent]
  have hcarried : ∀ c, carried (tlxSignalTlxModel answer).2.2 c = 0 := by
    intro c
    rw [carried_afuFrame answer hclock', hholds]
    cases c <;> rfl
  have hkept : (tlxAfuReadInitialCredits r').2.rbp = 0 ∧ (tlxAfuReadInitialCredits r').2.afuCmd.valid = 0 ∧
      (tlxAfuReadInitialCredits r').2.afuCdata.valid = 0 ∧
      (∀ c, ((tlxAfuReadInitialCredits r').2.available c).toNat = givenCredits cmd cmdData c) := by
    rw [tlxAfuReadInitialCredits, if_neg hread]
    refine ⟨htaken.rbp, htaken.cmd, htaken.cdata, ?_⟩
    rintro (_ | _)
    · exact congrArg UInt8.toNat hcmd
    · exact congrArg UInt8.toNat hcmdData
  obtain ⟨hrbp', hcmd', hcdata', havailable⟩ := hkept
  have hstaged : ∀ c, (tlxAfuReadInitialCredits r').2.holds c = 0 := by
    rintro (_ | _)
    · simp [AfuEvent.holds, hcmd']
    · simp [AfuEvent.holds, hcdata']
  rw [hstart]
  refine ⟨⟨fun c => ?_, fun c => ?_⟩, .answered answer hclock' hclock rfl rfl hnone, hrbp.trans rfl, hrbp',
    ⟨.inl hcmd', .inl hcdata'⟩, ?_, ?_⟩
  · simp only [havailable, hstaged, hcarried, hnone, show returning [] c = 0 by cases c <;> rfl, Nat.add_zero]
  · simp only [hstaged, hcarried]
  · rw [hcmdCnt]
    exact hcnt.1
  · rw [hrespCnt]
    exact hcnt.2

/-- After the initial exchange, whatever the handlers and the driver call and however the steps of the two
interleave, the credits and the commands are conserved, and no counter exceeds its initial value. -/
theorem afuCredits_conserved (cmd resp cmdData respData afuCmd afuCfg afuResp : UInt8)
    (steps : List LinkStep)
    (h : Along Link.step (fun l step => step.OneLine l)
      (linkStart cmd resp cmdData respData afuCmd afuCfg afuResp) steps) :
    let l := (linkStart cmd resp cmdData respData afuCmd afuCfg afuResp).run steps
    l.Conserved (givenCredits cmd cmdData) ∧
      ∀ c, (l.driver.available c).toNat ≤ givenCredits cmd cmdData c := by
  have hbyte : ∀ c, givenCredits cmd cmdData c < 256 := by
    rintro (_ | _)
    · exact cmd.toNat_lt
    · exact cmdData.toNat_lt
  have hinv := Along.invariant (Link.Inv (givenCredits cmd cmdData))
    (fun l step hl hone => Link.step_inv hbyte hl step hone)
    (linkStart_inv cmd resp cmdData respData afuCmd afuCfg afuResp) h
  exact ⟨hinv.conserved, hinv.conserved.available_le⟩

/-- The driver stages a write with its line and a second line for the next frame. -/
def sampleLinkSteps : List LinkStep :=
  [.call (.sendCmdAndData { tlxEventReset.afuCmd with opcode := 0x20, dl := 2 } 0 (Buffer.const 0x55)),
    .receive, .signal, .answer, .call (.sendCmdData 0 (Buffer.const 0xaa)), .receive,
    .handle ⟨.readCmdAndData, rfl⟩, .signal, .answer]

theorem sampleLink_conserved :
    ((linkStart 8 7 32 32 4 1 4).run sampleLinkSteps).Conserved (givenCredits 8 32) ∧
      ((linkStart 8 7 32 32 4 1 4).run sampleLinkSteps).driver.available .cmd = 8 ∧
      ((linkStart 8 7 32 32 4 1 4).run sampleLinkSteps).driver.available .cmdData = 31 ∧
      ((linkStart 8 7 32 32 4 1 4).run sampleLinkSteps).arrived .cmdData = 1 := by
  refine ⟨(afuCredits_conserved 8 7 32 32 4 1 4 sampleLinkSteps ?_).1, by decide +kernel, by decide +kernel,
    by decide +kernel⟩
  have hfree : ((linkStart 8 7 32 32 4 1 4).run (sampleLinkSteps.take 4)).driver.afuCdata.valid = 0 := by
    decide +kernel
  exact ⟨trivial, trivial, trivial, trivial, hfree, trivial, trivial, trivial, trivial, trivial⟩

end Ocse
