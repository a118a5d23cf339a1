import Ocse.Lib.Independent
import Ocse.Mmio
import Ocse.OclLoop

/-!
# Two engines on one interface

The command engine and the MMIO engine of an `ocl` work on the same `AFU_EVENT`. Between two clocks the one reads
and drives `CmdSignals` and the other `MmioSignals`, and nothing else: the operations of an engine go through the
same on every interface that shows it the same signals. The two sets are disjoint, so an operation of the one
engine and an operation of the other can change places.
-/

namespace Ocse

/-- The signals of the command engine, and the counter of the responses that it may send. -/
structure CmdSignals where
  tlxResp : TlxAfuResp
  tlxRespData : TlxAfuRespData
  afuCmd : AfuTlxCmd
  afuCdata : AfuTlxCdata
  afuTlxRespCreditsAvailable : UInt8

def AfuEvent.cmdSignals (e : AfuEvent) : CmdSignals :=
  ⟨e.tlxResp, e.tlxRespData, e.afuCmd, e.afuCdata, e.afuTlxRespCreditsAvailable⟩

def CmdSignals.drive (c : CmdSignals) (e : AfuEvent) : AfuEvent :=
  { e with
    tlxResp := c.tlxResp, tlxRespData := c.tlxRespData, afuCmd := c.afuCmd, afuCdata := c.afuCdata
    afuTlxRespCreditsAvailable := c.afuTlxRespCreditsAvailable }

/-- The command engine on another interface, which shows it the same signals. -/
def Ocl.onto (s : Ocl) (e : AfuEvent) : Ocl := { s with afuEvent := s.afuEvent.cmdSignals.drive e }

def AfuEvent.mmioSignals (e : AfuEvent) : MmioSignals :=
  ⟨e.tlxCfg, e.tlxCmd, e.tlxCmdData, e.tlxCredits, e.afuResp, e.afuRdata, e.cfgResp, e.afuTlxCmdCreditsAvailable,
    e.cfgTlxCreditsAvailable⟩

/-- The MMIO engine on another interface. -/
def Mmio.onto (m : Mmio) (e : AfuEvent) : Mmio := { m with afuEvent := m.afuEvent.mmioSignals.drive e }

/-! ## The command engine -/

section Command

variable (s : Ocl) (e : AfuEvent)

@[simp] theorem onto_afuEvent : (s.onto e).afuEvent = s.afuEvent.cmdSignals.drive e := rfl
@[simp] theorem onto_list : (s.onto e).list = s.list := rfl
@[simp] theorem onto_client : (s.onto e).client = s.client := rfl
@[simp] theorem onto_maxClients : (s.onto e).maxClients = s.maxClients := rfl
@[simp] theorem onto_parms : (s.onto e).parms = s.parms := rfl
@[simp] theorem onto_getClient (x : CmdEvent) : (s.onto e).getClient x = s.getClient x := rfl
@[simp] theorem onto_memAccess (c : Client) : (s.onto e).memAccess c = s.memAccess c := rfl
@[simp] theorem onto_setEvent (x : CmdEvent) : (s.onto e).setEvent x = (s.setEvent x).onto e := rfl
@[simp] theorem onto_setClient (i : ℕ) (c : Option Client) : (s.onto e).setClient i c = (s.setClient i c).onto e := rfl
@[simp] theorem onto_record (obs : List Obs) : (s.onto e).record obs = (s.record obs).onto e := rfl
@[simp] theorem onto_request (c : Client) (x : CmdEvent) (state : MemState) (bytes : List UInt8) (ok : Bool) :
    (s.onto e).request c x state bytes ok = (s.request c x state bytes ok).onto e := rfl

@[simp] theorem onto_self : s.onto s.afuEvent = s := rfl

theorem tlxAfuSendResp_drive (a : AfuEvent) (opcode : UInt8) (afutag : UInt16) (code pgSize dl dp : UInt8)
    (addrTag : UInt32) :
    tlxAfuSendResp (a.cmdSignals.drive e) opcode afutag code pgSize dl dp addrTag =
      ((tlxAfuSendResp a opcode afutag code pgSize dl dp addrTag).1,
        (tlxAfuSendResp a opcode afutag code pgSize dl dp addrTag).2.cmdSignals.drive e) := by
  unfold tlxAfuSendResp
  change (if a.afuTlxRespCreditsAvailable = 0 then _ else if a.tlxResp.valid ≠ 0 then _ else _) = _
  split_ifs <;> rfl

theorem tlxAfuSendRespAndData_drive (a : AfuEvent) (opcode : UInt8) (afutag : UInt16) (code pgSize dl dp : UInt8)
    (addrTag : UInt32) (bdi : UInt8) (data : Buffer UInt8) :
    tlxAfuSendRespAndData (a.cmdSignals.drive e) opcode afutag code pgSize dl dp addrTag bdi data =
      ((tlxAfuSendRespAndData a opcode afutag code pgSize dl dp addrTag bdi data).1,
        (tlxAfuSendRespAndData a opcode afutag code pgSize dl dp addrTag bdi data).2.cmdSignals.drive e) := by
  unfold tlxAfuSendRespAndData
  change (if a.afuTlxRespCreditsAvailable = 0 then _
    else if a.tlxResp.valid = 1 ∨ a.tlxRespData.valid = 1 then _ else _) = _
  split_ifs <;> rfl

theorem tlxAfuSendPostedCmd_drive (a : AfuEvent) (opcode : UInt8) (afutag : UInt16) (code : UInt8) :
    tlxAfuSendPostedCmd (a.cmdSignals.drive e) opcode afutag code =
      ((tlxAfuSendPostedCmd a opcode afutag code).1, (tlxAfuSendPostedCmd a opcode afutag code).2.cmdSignals.drive e) := by
  unfold tlxAfuSendPostedCmd
  change (if a.afuTlxRespCreditsAvailable = 0 then _ else if a.tlxResp.valid ≠ 0 then _ else _) = _
  split_ifs <;> rfl

theorem sendResponse_drive (a : AfuEvent) (x : CmdEvent) (bdi : UInt8) :
    sendResponse (a.cmdSignals.drive e) x bdi = ((sendResponse a x bdi).1, (sendResponse a x bdi).2.cmdSignals.drive e) := by
  unfold sendResponse
  rw [tlxAfuSendResp_drive, tlxAfuSendRespAndData_drive]
  split_ifs <;> rfl

theorem handleResponse_onto (rand : ℕ) : handleResponse (s.onto e) rand = (handleResponse s rand).onto e := by
  unfold handleResponse
  dsimp only
  generalize hbdi : (if percentChance (s.onto e).parms.bdiRespErrPercent rand = true then (1 : UInt8) else 0) = bdi
  rw [show (if percentChance s.parms.bdiRespErrPercent rand = true then (1 : UInt8) else 0) = bdi from hbdi]
  simp only [onto_list, onto_getClient, onto_parms, onto_setEvent, onto_afuEvent, sendResponse_drive]
  generalize s.list.find? _ = found
  cases found with
  | none => rfl
  | some x =>
    dsimp only
    generalize s.getClient x = c
    cases c with
    | none => rfl
    | some c =>
      dsimp only
      split_ifs <;> rfl

theorem handleBufferWrite_onto (d : Draws) : handleBufferWrite (s.onto e) d = (handleBufferWrite s d).onto e := by
  unfold handleBufferWrite
  simp only [onto_list, onto_getClient, onto_parms, onto_setEvent, onto_request]
  generalize s.list.find? _ = found
  cases found with
  | none => rfl
  | some x =>
    dsimp only
    generalize s.getClient x = c
    cases c with
    | none => rfl
    | some c =>
      dsimp only
      generalize x.state = state
      cases state with
      | idle =>
        dsimp only
        generalize inject _ _ _ _ = failed
        cases failed <;> split_ifs <;> rfl
      | received => split_ifs <;> rfl
      | _ => rfl

theorem postPending_onto (x : CmdEvent) : postPending (s.onto e) x = (postPending s x).onto e := by
  unfold postPending
  simp only [onto_setEvent, onto_afuEvent, tlxAfuSendPostedCmd_drive]
  split_ifs <;> rfl

theorem handleXlateIntrpPendingSent_onto (d : Draws) :
    handleXlateIntrpPendingSent (s.onto e) d = (handleXlateIntrpPendingSent s d).onto e := by
  unfold handleXlateIntrpPendingSent
  simp only [onto_list, onto_getClient, onto_parms, onto_setEvent, postPending_onto]
  generalize pickPendingSent _ _ _ = found
  cases found with
  | none => rfl
  | some x =>
    dsimp only
    generalize s.getClient x = c
    cases c with
    | none => rfl
    | some c => split_ifs <;> rfl

theorem handleAfuTlxCmdDataRead_onto :
    handleAfuTlxCmdDataRead (s.onto e) = (handleAfuTlxCmdDataRead s).onto e := by
  have hread : afuTlxReadCmdData (s.afuEvent.cmdSignals.drive e) =
      ((afuTlxReadCmdData s.afuEvent).1, (afuTlxReadCmdData s.afuEvent).2.cmdSignals.drive e) := by
    unfold afuTlxReadCmdData
    change (if s.afuEvent.afuCdata.valid ≠ 0 then _ else _) = _
    split_ifs <;> rfl
  unfold handleAfuTlxCmdDataRead
  simp only [onto_list, onto_afuEvent, hread]
  generalize s.list.find? _ = found
  cases found with
  | none => rfl
  | some x =>
    dsimp only
    generalize afuTlxReadCmdData s.afuEvent = taken
    obtain ⟨_ | _, a⟩ := taken
    · rfl
    · rfl

theorem handleAfuTlxWriteCmd_onto (d : Draws) :
    handleAfuTlxWriteCmd (s.onto e) d = (handleAfuTlxWriteCmd s d).onto e := by
  unfold handleAfuTlxWriteCmd
  simp only [onto_list, onto_getClient, onto_parms, onto_setEvent, onto_request]
  generalize s.list.find? _ = found
  cases found with
  | none => rfl
  | some x =>
    dsimp only
    generalize s.getClient x = c
    cases c with
    | none => rfl
    | some c =>
      dsimp only
      generalize inject _ _ _ _ = failed
      cases failed <;> split_ifs <;> rfl

theorem handleWriteBeOrAmo_onto (d : Draws) : handleWriteBeOrAmo (s.onto e) d = (handleWriteBeOrAmo s d).onto e := by
  unfold handleWriteBeOrAmo
  simp only [onto_list, onto_getClient, onto_parms, onto_setEvent, onto_request]
  generalize s.list.find? _ = found
  cases found with
  | none => rfl
  | some x =>
    dsimp only
    generalize s.getClient x = c
    cases c with
    | none => rfl
    | some c =>
      dsimp only
      generalize inject _ _ _ _ = failed
      cases failed <;> split_ifs <;> rfl

theorem handleInterrupt_onto (d : Draws) : handleInterrupt (s.onto e) d = (handleInterrupt s d).onto e := by
  unfold handleInterrupt
  simp only [onto_list, onto_getClient, onto_parms, onto_setEvent]
  generalize s.list.find? _ = found
  cases found with
  | none => rfl
  | some x =>
    dsimp only
    generalize s.getClient x = c
    cases c with
    | none => rfl
    | some c =>
      dsimp only
      generalize injectInterrupt _ _ _ = failed
      cases failed <;> rfl

theorem addCmd_onto (d : Draws) (cmd : AfuTlxCmd) (n : NewCmd) (c : Client) :
    addCmd (s.onto e) d cmd n c = (addCmd s d cmd n c).onto e := by
  unfold addCmd
  dsimp only
  generalize hkept : (n.dataIsValid && incomingDataExpected
    (insertCmd (s.onto e).parms d.reorder (n.event (s.onto e).nextId) (s.onto e).list)) = kept
  rw [show (n.dataIsValid && incomingDataExpected (insertCmd s.parms d.reorder (n.event s.nextId) s.list)) = kept
    from hkept]
  cases kept <;> rfl

theorem addFor_onto (d : Draws) (cmd : AfuTlxCmd) (n : ℕ → NewCmd) :
    addFor (s.onto e) d cmd n = (addFor s d cmd n).onto e := by
  unfold addFor
  rw [show findClientByActag (s.onto e) cmd.actag = findClientByActag s cmd.actag from rfl]
  generalize findClientByActag s cmd.actag = found
  cases found with
  | none => rfl
  | some i =>
    simp only [onto_client, addCmd_onto]
    generalize s.client i = c
    cases c with
    | none => rfl
    | some c => rfl

theorem addAligned_onto (d : Draws) (cmd : AfuTlxCmd) (size : ℕ) (failOpcode : UInt8) (ok : Ocl) :
    addAligned (s.onto e) d cmd size failOpcode (ok.onto e) = (addAligned s d cmd size failOpcode ok).onto e := by
  unfold addAligned addFail
  simp only [addFor_onto]
  generalize aligned _ _ = alignment
  cases alignment <;> rfl

theorem addAmo_onto (d : Draws) (cmd : AfuTlxCmd) (type : CmdType) (dataIsValid : Bool) :
    addAmo (s.onto e) d cmd type dataIsValid = (addAmo s d cmd type dataIsValid).onto e := by
  unfold addAmo addFail
  simp only [addFor_onto]
  generalize amoSize _ = size
  cases size with
  | error failOpcode => rfl
  | ok size =>
    dsimp only
    split_ifs <;> rfl

theorem keepData_onto (dataIsValid : Bool) : (s.onto e).keepData dataIsValid = (s.keepData dataIsValid).onto e := by
  unfold Ocl.keepData
  split_ifs <;> rfl

theorem assignActag_onto (bdf : UInt16) (pasid : UInt32) (actag : UInt16) :
    assignActag (s.onto e) bdf pasid actag = (assignActag s bdf pasid actag).onto e := by
  unfold assignActag
  rw [show findClientByPasidAndBdf (s.onto e) bdf pasid = findClientByPasidAndBdf s bdf pasid from rfl]
  generalize findClientByPasidAndBdf s bdf pasid = found
  cases found <;> rfl

theorem addFail_onto (d : Draws) (cmd : AfuTlxCmd) (resp respOpcode : UInt8) :
    addFail (s.onto e) d cmd resp respOpcode = (addFail s d cmd resp respOpcode).onto e := addFor_onto s e d cmd _

theorem addInterrupt_onto (d : Draws) (cmd : AfuTlxCmd) (size : ℕ) (dataIsValid : Bool) :
    addInterrupt (s.onto e) d cmd size dataIsValid = (addInterrupt s d cmd size dataIsValid).onto e :=
  addFor_onto s e d cmd _

theorem addXlateTouch_onto (d : Draws) (cmd : AfuTlxCmd) :
    addXlateTouch (s.onto e) d cmd = (addXlateTouch s d cmd).onto e := by
  unfold addXlateTouch
  rw [addFor_onto, addAligned_onto]

theorem addRead_onto (d : Draws) (cmd : AfuTlxCmd) (size : ℕ) :
    addRead (s.onto e) d cmd size = (addRead s d cmd size).onto e := by
  unfold addRead
  rw [addFor_onto, addAligned_onto]

theorem addWrite_onto (d : Draws) (cmd : AfuTlxCmd) (size : ℕ) (dataIsValid : Bool) (be : UInt64) :
    addWrite (s.onto e) d cmd size dataIsValid be = (addWrite s d cmd size dataIsValid be).onto e := by
  unfold addWrite
  dsimp only
  rw [addFor_onto, addAligned_onto]

theorem onto_ite (p : Prop) [Decidable p] (s s' : Ocl) :
    (if p then s.onto e else s'.onto e) = (if p then s else s').onto e := (apply_ite (fun s => Ocl.onto s e) p s s').symm

theorem parseCmd_onto (d : Draws) (cmd : AfuTlxCmd) (dataIsValid : Bool) :
    parseCmd (s.onto e) d cmd dataIsValid = (parseCmd s d cmd dataIsValid).onto e := by
  unfold parseCmd
  simp only [keepData_onto, assignActag_onto, addRead_onto, addWrite_onto, addAmo_onto, addInterrupt_onto,
    addXlateTouch_onto, addFail_onto, onto_ite]

theorem handleCmd_onto (d : Draws) : handleCmd (s.onto e) d = (handleCmd s d).onto e := by
  have hread : afuTlxReadCmdAndData (s.afuEvent.cmdSignals.drive e) =
      ((afuTlxReadCmdAndData s.afuEvent).1, (afuTlxReadCmdAndData s.afuEvent).2.cmdSignals.drive e) := by
    unfold afuTlxReadCmdAndData
    change (if s.afuEvent.afuCmd.valid = 0 then _ else _) = _
    split_ifs <;> rfl
  unfold handleCmd
  rw [onto_afuEvent, hread]
  generalize afuTlxReadCmdAndData s.afuEvent = taken
  obtain ⟨_ | ⟨cmd, dataIsValid⟩, a⟩ := taken
  · rfl
  · change (if s.list.any (fun x => x.afutag = cmd.afutag) = true then _ else _) =
      (if s.list.any (fun x => x.afutag = cmd.afutag) = true then _ else _ : Ocl).onto e
    split_ifs
    · rfl
    · exact parseCmd_onto { s with afuEvent := a, trace := s.trace ++ [Obs.command cmd] } e d cmd dataIsValid

theorem handleClient_onto (i : ℕ) (input : ClientInput) :
    handleClient (s.onto e) i input = (handleClient s i input).onto e := by
  unfold handleClient
  simp only [onto_client, onto_memAccess]
  generalize s.client i = c
  cases c with
  | none => rfl
  | some c =>
    dsimp only
    split_ifs
    · rfl
    · cases input with
      | memFailure =>
        dsimp only
        generalize s.memAccess c = asked
        cases asked <;> rfl
      | memSuccess avail =>
        dsimp only
        generalize s.memAccess c = asked
        cases asked with
        | none => rfl
        | some x =>
          dsimp only
          unfold handleMemReturn
          simp only [onto_getClient]
          generalize s.getClient x = found
          cases found <;> rfl
      | mmio lost => cases lost <;> rfl
      | _ => rfl

theorem settleClient_onto (i : ℕ) : settleClient (s.onto e) i = (settleClient s i).onto e := by
  unfold settleClient
  simp only [onto_client]
  generalize s.client i = c
  cases c with
  | none => rfl
  | some c =>
    dsimp only
    unfold clientCmd
    generalize c.state = state
    cases state <;> rfl

theorem clearSlot_onto (i : ℕ) : clearSlot (s.onto e) i = (clearSlot s i).onto e := by
  unfold clearSlot
  simp only [onto_client]
  generalize s.client i = c
  cases c with
  | none => rfl
  | some c =>
    dsimp only
    split_ifs <;> rfl

theorem clientAssociate_onto (bdf : UInt16) : clientAssociate (s.onto e) bdf = (clientAssociate s bdf).onto e := by
  unfold clientAssociate
  simp only [onto_client, onto_maxClients]
  generalize (List.range s.maxClients).find? _ = found
  cases found <;> rfl

/-- The operations of the command engine and its clients between two clocks. -/
def Action.OfEngine : Action → Prop
  | .signalAfu | .getAfuEvents _ | .mmio _ => False
  | _ => True

/-- Between two clocks the command engine goes through the same on every interface that shows it the same signals. -/
theorem act_onto {a : Action} (ha : a.OfEngine) : (s.onto e).act a = (s.act a).onto e := by
  cases a with
  | signalAfu | getAfuEvents | mmio => exact ha.elim
  | idle cycles => rfl
  | response rand => exact handleResponse_onto s e rand
  | bufferWrite d => exact handleBufferWrite_onto s e d
  | pendingSent d => exact handleXlateIntrpPendingSent_onto s e d
  | cmd d => exact handleCmd_onto s e d
  | cmdDataRead => exact handleAfuTlxCmdDataRead_onto s e
  | writeCmd d => exact handleAfuTlxWriteCmd_onto s e d
  | touch d =>
    change handleTouch (s.onto e) d = (handleTouch s d).onto e
    rw [handleTouch_eq, handleTouch_eq]
  | interrupt d => exact handleInterrupt_onto s e d
  | writeBeOrAmo d => exact handleWriteBeOrAmo_onto s e d
  | client i input => exact handleClient_onto s e i input
  | settle i => exact settleClient_onto s e i
  | clear i => exact clearSlot_onto s e i
  | associate bdf => exact clientAssociate_onto s e bdf

/-- It changes nothing but its own signals. -/
theorem act_cmdSignals {a : Action} (ha : a.OfEngine) :
    (s.act a).afuEvent = (s.act a).afuEvent.cmdSignals.drive s.afuEvent := by
  have h := act_onto s s.afuEvent ha
  rw [onto_self] at h
  exact congrArg Ocl.afuEvent h

end Command

/-! ## The MMIO engine -/

section Memory

variable (m : Mmio) (e : AfuEvent)

theorem mmio_onto_list : (m.onto e).list = m.list := rfl

theorem transmit_drive (x : MmioEvent) (a : AfuEvent) :
    x.transmit (a.mmioSignals.drive e) = ((x.transmit a).1, (x.transmit a).2.mmioSignals.drive e) := by
  have hcmd : ∀ opcode capptag dl pl be cmdEnd pa, tlxAfuSendCmd (a.mmioSignals.drive e) opcode capptag dl pl be cmdEnd pa =
      ((tlxAfuSendCmd a opcode capptag dl pl be cmdEnd pa).1,
        (tlxAfuSendCmd a opcode capptag dl pl be cmdEnd pa).2.mmioSignals.drive e) := by
    intro opcode capptag dl pl be cmdEnd pa
    unfold tlxAfuSendCmd
    change (if opcode = tlxCmdConfigRead ∧ opcode = tlxCmdConfigWrite then _ else if a.tlxCmd.valid = 1 then _ else _) = _
    split_ifs <;> rfl
  have hdata : ∀ opcode capptag dl pl be cmdEnd pa bdi data,
      tlxAfuSendCmdAndData (a.mmioSignals.drive e) opcode capptag dl pl be cmdEnd pa bdi data =
        ((tlxAfuSendCmdAndData a opcode capptag dl pl be cmdEnd pa bdi data).1,
          (tlxAfuSendCmdAndData a opcode capptag dl pl be cmdEnd pa bdi data).2.mmioSignals.drive e) := by
    intro opcode capptag dl pl be cmdEnd pa bdi data
    unfold tlxAfuSendCmdAndData
    change (if opcode = tlxCmdConfigRead ∧ opcode = tlxCmdConfigWrite then _ else if a.tlxCmd.valid = 1 then _ else _) = _
    split_ifs <;> rfl
  have hcfg : ∀ opcode capptag pl t pa bdi data, tlxAfuSendCfgCmdAndData (a.mmioSignals.drive e) opcode capptag pl t pa bdi data =
      ((tlxAfuSendCfgCmdAndData a opcode capptag pl t pa bdi data).1,
        (tlxAfuSendCfgCmdAndData a opcode capptag pl t pa bdi data).2.mmioSignals.drive e) := by
    intro opcode capptag pl t pa bdi data
    unfold tlxAfuSendCfgCmdAndData
    change (if a.tlxCfg.valid = 1 then _ else if opcode ≠ tlxCmdConfigRead ∧ opcode ≠ tlxCmdConfigWrite then _
      else if a.cfgTlxCreditsAvailable = 0 then _ else _) = _
    split_ifs <;> rfl
  unfold MmioEvent.transmit
  simp only [hcmd, hdata, hcfg]
  split_ifs <;> rfl

theorem sendMmio_onto : sendMmio (m.onto e) = (sendMmio m).onto e := by
  have hsend : ∀ x : MmioEvent, x.transmit (m.onto e).afuEvent =
      ((x.transmit m.afuEvent).1, (x.transmit m.afuEvent).2.mmioSignals.drive e) := fun x => transmit_drive e x m.afuEvent
  unfold sendMmio
  rw [mmio_onto_list]
  cases m.list with
  | nil => rfl
  | cons x rest =>
    dsimp only
    by_cases hidle : x.state ≠ .idle
    · rw [if_pos hidle, if_pos hidle]
    · rw [if_neg hidle, if_neg hidle, hsend]
      generalize MmioEvent.transmit _ m.afuEvent = sent
      dsimp only
      split_ifs <;> rfl

theorem handleApResp_onto : handleApResp (m.onto e) = (handleApResp m).onto e := by
  have hcfg : ∀ capptag, afuTlxReadCfgRespAndData (m.onto e).afuEvent capptag =
      ((afuTlxReadCfgRespAndData m.afuEvent capptag).1, (afuTlxReadCfgRespAndData m.afuEvent capptag).2.mmioSignals.drive e) := by
    intro capptag
    unfold afuTlxReadCfgRespAndData
    change (if m.afuEvent.cfgResp.valid = 0 then _ else if m.afuEvent.cfgResp.capptag ≠ capptag then _ else _) = _
    split_ifs <;> rfl
  have hresp : afuTlxReadResp (m.onto e).afuEvent =
      ((afuTlxReadResp m.afuEvent).1, (afuTlxReadResp m.afuEvent).2.mmioSignals.drive e) := by
    unfold afuTlxReadResp
    change (if m.afuEvent.afuResp.valid = 0 then _ else _) = _
    split_ifs <;> rfl
  unfold handleApResp
  rw [mmio_onto_list]
  cases m.list with
  | nil => rfl
  | cons x rest =>
    dsimp only
    split_ifs
    · unfold handleCfgResp
      rw [hcfg]
      generalize afuTlxReadCfgRespAndData m.afuEvent _ = taken
      obtain ⟨_ | ⟨r, dataIsValid⟩, a⟩ := taken
      · rfl
      · dsimp only
        split_ifs <;> rfl
    · unfold handleMemResp
      rw [hresp]
      generalize afuTlxReadResp m.afuEvent = taken
      obtain ⟨_ | r, a⟩ := taken
      · rfl
      · dsimp only
        split_ifs <;> rfl

theorem takeRespData_onto (x : MmioEvent) (rest : List MmioEvent) (bus : Buffer UInt8) :
    takeRespData (m.onto e) x rest bus = (takeRespData m x rest bus).onto e := by
  unfold takeRespData
  dsimp only
  generalize x.beatOffset = offset
  cases offset with
  | none => split_ifs <;> rfl
  | some offset =>
    dsimp only
    split_ifs <;> rfl

theorem handleApRespData_onto : handleApRespData (m.onto e) = (handleApRespData m).onto e := by
  have hdata : afuTlxReadRespData (m.onto e).afuEvent =
      ((afuTlxReadRespData m.afuEvent).1, (afuTlxReadRespData m.afuEvent).2.mmioSignals.drive e) := by
    unfold afuTlxReadRespData
    change (if m.afuEvent.afuRdata.valid = 0 then _ else _) = _
    split_ifs <;> rfl
  unfold handleApRespData
  rw [mmio_onto_list]
  cases hlist : m.list with
  | nil => rfl
  | cons x rest =>
    dsimp only
    by_cases hx : (x.cfg || !x.rnw) = true
    · rw [if_pos hx, if_pos hx]
      split_ifs <;> rfl
    · rw [if_neg hx, if_neg hx, hdata]
      generalize afuTlxReadRespData m.afuEvent = taken
      rw [← hlist]
      obtain ⟨_ | bus, a⟩ := taken
      · rfl
      · dsimp only
        split_ifs
        · rfl
        · exact takeRespData_onto { m with afuEvent := a } e x rest bus

theorem handleAfuMmio_onto : handleAfuMmio (m.onto e) = (handleAfuMmio m).onto e := by
  unfold handleAfuMmio
  dsimp only
  rw [handleApResp_onto]
  change (if (handleApResp m).halted = true then _ else _) = _
  split_ifs
  · rfl
  · exact handleApRespData_onto _ e

theorem handleMmioDone_onto (client : ℕ) : handleMmioDone (m.onto e) client = (handleMmioDone m client).onto e := by
  unfold handleMmioDone
  rw [show (m.onto e).access client = m.access client from rfl]
  generalize m.access client = waits
  cases waits with
  | none => rfl
  | some id =>
    dsimp only
    rw [show (m.onto e).finished = m.finished from rfl]
    generalize m.finished.find? _ = found
    cases found <;> rfl

/-- The operations of the MMIO engine between two clocks. -/
def MmioAction.OfEngine : MmioAction → Prop
  | .frame _ => False
  | _ => True

theorem act_onto_mmio {b : MmioAction} (hb : b.OfEngine) : (m.onto e).act b = (m.act b).onto e := by
  cases b with
  | frame => exact hb.elim
  | handleAfu => exact handleAfuMmio_onto m e
  | send => exact sendMmio_onto m e
  | poll client => exact handleMmioDone_onto m e client
  | _ => rfl

theorem act_mmioSignals {b : MmioAction} (hb : b.OfEngine) :
    (m.act b).afuEvent = (m.act b).afuEvent.mmioSignals.drive m.afuEvent :=
  congrArg Mmio.afuEvent (act_onto_mmio m m.afuEvent hb)

end Memory

end Ocse
