import Ocse.LostAck
import Ocse.MemRequest

/-!
# The length of an acknowledgement

ocse chooses the length of an acknowledgement by what the AFU has answered, libocxl by the type of its pending
request. A reply is `Framed` when libocxl takes all of it and nothing else, whatever follows. That fails for
an MMIO read that the AFU has failed, and for an LPC read with a response code that is not a failure's.
-/

namespace Ocse

def ocseMmioMap : UInt8 := 0x0c
def ocseMmioFail : UInt8 := 0x12
def ocseGlobalMmioMap : UInt8 := 0x25
def ocseLpcFail : UInt8 := 0x2f

/-! ## The library -/

/-- What `_psl_loop` keeps of its requests when it has sent them. -/
structure ReqSlots where
  mmioType : UInt8
  memType : LpcType
  memSize : ℕ

/-- The stream after a turn of `_psl_loop`, which may end the program, or wait for bytes that are not there. -/
inductive PslTurn
  | goesOn (rest : List UInt8)
  | exits (rest : List UInt8)
  | starves
  deriving DecidableEq, Repr

/-- What `_handle_ack` takes behind the response code. -/
def mmioAckSize (type : UInt8) : ℕ :=
  if type = ocseMmioRead64 ∨ type = ocseGlobalMmioRead64 then 8
  else if type = ocseMmioRead32 ∨ type = ocseGlobalMmioRead32 then 4 else 0

/-- The bytes that `_handle_ack` takes. A response code has no effect. -/
def takeAck (slots : ReqSlots) (stream : List UInt8) : PslTurn :=
  match getBytes 1 stream with
  | none => .starves
  | some (_, stream) =>
    match getBytes (mmioAckSize slots.mmioType) stream with
    | none => .starves
    | some (_, stream) => .goesOn stream

/-- The bytes that `_handle_mem_ack` takes. It ends the program on a response code. -/
def takeMemAck (slots : ReqSlots) (stream : List UInt8) : PslTurn :=
  match getBytes 1 stream with
  | none => .starves
  | some (b, stream) =>
    if b 0 ≠ 0 then .exits stream
    else match getBytes (if slots.memType = .read then slots.memSize else 0) stream with
      | none => .starves
      | some (_, stream) => .goesOn stream

/-- A turn of `_psl_loop` that begins with an acknowledgement. The failures have no case of their own. -/
def pslAckTurn (slots : ReqSlots) : List UInt8 → PslTurn
  | [] => .starves
  | opcode :: stream =>
    if opcode = ocseMmioAck then takeAck slots stream
    else if opcode = ocseLpcAck then takeMemAck slots stream
    else .goesOn stream

/-- A request of one of the two slots. To map LPC memory nothing is sent. -/
inductive AccessReq
  | mmioMap (global : Bool)
  | mmio (r : MmioReq)
  | lpc (r : MemReq)

/-- The request is the last one of its slot. -/
def ReqSlots.Holds (slots : ReqSlots) : AccessReq → Prop
  | .mmioMap global => slots.mmioType = if global then ocseGlobalMmioMap else ocseMmioMap
  | .mmio r => slots.mmioType = r.type
  | .lpc r => slots.memType = r.type ∧ slots.memSize = r.size

/-- A request as libocxl makes it. -/
def AccessReq.Formed : AccessReq → Prop
  | .lpc r => r.Formed ∧ r.size ≠ 0
  | _ => True

/-- libocxl takes the reply, all of it and nothing else. -/
def TakenWhole (slots : ReqSlots) (reply : List UInt8) : Prop :=
  ∀ rest, pslAckTurn slots (reply ++ rest) = .goesOn rest ∨ pslAckTurn slots (reply ++ rest) = .exits rest

/-! ## ocse -/

/-- `handle_mmio_map` -/
def handleMmioMap : List UInt8 := [ocseMmioAck, 0]

/-- What becomes of a request. -/
inductive AccessOutcome
  | mapped
  | refused
  | answered (respOpcode respCode : UInt8)
  deriving DecidableEq, Repr

/-- The access that ocse makes of a message of libocxl. -/
def AccessReq.Asks (q : AccessReq) (r : ClientAccess) : Prop :=
  ∃ cfg a, r ∈ a.asks r.id ∧ match q with
    | .mmioMap _ => False
    | .mmio m => handleClientMmio r.client cfg m.message = some (a, [])
    | .lpc m => handleClientMmio r.client cfg m.message = some (a, [])

/-- The replies that ocse gives to a request. A client that is not valid is refused an access, not a mapping. -/
inductive OcseReply : AccessReq → AccessOutcome → List UInt8 → Prop
  | map (global : Bool) : OcseReply (.mmioMap global) .mapped handleMmioMap
  | failMmio (r : MmioReq) : OcseReply (.mmio r) .refused [ocseMmioFail]
  | failLpc (r : MemReq) : OcseReply (.lpc r) .refused [ocseLpcFail]
  | ack (q : AccessReq) (afuEvent : AfuEvent) (actions : List MmioAction) (r : ClientAccess) (e : MmioEvent)
      (hr : r ∈ ((AckLedger.init afuEvent).run actions).asked) (hasks : q.Asks r)
      (he : (r.client, e) ∈ ((AckLedger.init afuEvent).run actions).told) (hid : e.id = r.id) :
      OcseReply q (.answered e.respOpcode e.respCode) e.ackMessage

/-- A failure of the AFU, `mem_rd_fail` or `mem_wr_fail` with a code. -/
def AfuFailed (respOpcode respCode : UInt8) : Prop := (respOpcode = 0x02 ∨ respOpcode = 0x04) ∧ respCode ≠ 0

instance (respOpcode respCode : UInt8) : Decidable (AfuFailed respOpcode respCode) := by
  unfold AfuFailed
  infer_instance

/-- The two ends agree on the length: no MMIO read has failed, and no LPC read has a code without a failure. -/
def AccessReq.Agrees (q : AccessReq) (o : AccessOutcome) : Prop :=
  match q, o with
  | .mmio r, .answered respOpcode respCode => r.rnw = true → ¬AfuFailed respOpcode respCode
  | .lpc r, .answered respOpcode respCode => r.type = .read → respCode ≠ 0 → AfuFailed respOpcode respCode
  | _, _ => True

/-! ## Lengths -/

section Taken

variable {slots : ReqSlots}

theorem takenWhole_fail {opcode : UInt8} (hmmio : opcode ≠ ocseMmioAck) (hlpc : opcode ≠ ocseLpcAck) :
    TakenWhole slots [opcode] := by
  intro rest
  refine .inl ?_
  simp [pslAckTurn, hmmio, hlpc]

/-- A turn that takes `n` bytes takes the data in front of any rest when there are as many. -/
theorem taken_iff {turn : List UInt8 → PslTurn} {n : ℕ} {data : List UInt8}
    (hturn : ∀ rest, turn rest = match getBytes n (data ++ rest) with
      | none => .starves
      | some (_, stream) => .goesOn stream) :
    (∀ rest, turn rest = .goesOn rest ∨ turn rest = .exits rest) ↔ data.length = n := by
  constructor
  · intro h
    have htaken := h (List.replicate n 0)
    rw [hturn] at htaken
    unfold getBytes at htaken
    rw [if_pos (by simp)] at htaken
    have hdrop : (data ++ List.replicate n (0 : UInt8)).drop n = List.replicate n 0 := by simpa using htaken
    have hlength := congrArg List.length hdrop
    simp at hlength
    omega
  · intro h rest
    rw [hturn, getBytes_append h]
    exact .inl rfl

theorem getBytes_code (code : UInt8) (stream : List UInt8) :
    getBytes 1 (code :: stream) = some ((Buffer.const 0).write 0 [code], stream) :=
  getBytes_append (show [code].length = 1 from rfl) _

theorem code_byte (code : UInt8) : (Buffer.const 0).write 0 [code] 0 = code := by simp [Buffer.write]

/-- Behind an MMIO acknowledgement libocxl takes as many bytes as the type of its request says. -/
theorem takenWhole_mmio_iff (code : UInt8) (data : List UInt8) :
    TakenWhole slots (ocseMmioAck :: code :: data) ↔ data.length = mmioAckSize slots.mmioType := by
  apply taken_iff
  intro rest
  unfold pslAckTurn takeAck
  rw [List.cons_append, List.cons_append]
  dsimp only
  rw [if_pos rfl, getBytes_code]

theorem takenWhole_lpc_iff (data : List UInt8) : TakenWhole slots (ocseLpcAck :: 0 :: data) ↔
    data.length = if slots.memType = .read then slots.memSize else 0 := by
  apply taken_iff
  intro rest
  unfold pslAckTurn takeMemAck
  rw [List.cons_append, List.cons_append]
  dsimp only
  rw [if_neg (by decide), if_pos rfl, getBytes_code]
  dsimp only
  rw [code_byte, if_neg (by decide)]

/-- Behind an LPC acknowledgement with a code nothing more is taken. -/
theorem takenWhole_lpc_code {code : UInt8} (hcode : code ≠ 0) (data : List UInt8) :
    TakenWhole slots (ocseLpcAck :: code :: data) ↔ data = [] := by
  have hturn : ∀ rest, pslAckTurn slots (ocseLpcAck :: code :: data ++ rest) = .exits (data ++ rest) := by
    intro rest
    unfold pslAckTurn takeMemAck
    rw [List.cons_append, List.cons_append]
    dsimp only
    rw [if_neg (by decide), if_pos rfl, getBytes_code]
    dsimp only
    rw [code_byte, if_pos hcode]
  unfold TakenWhole
  simp only [hturn]
  constructor
  · intro h
    simpa using h []
  · rintro rfl rest
    exact .inr rfl

end Taken

/-! ## Acknowledgements of events -/

theorem mmioAckSize_type (m : MmioReq) :
    mmioAckSize m.type = if m.rnw = true then if m.dw = true then 8 else 4 else 0 := by
  rcases m with ⟨_ | _, _ | _, _ | _, addr, data⟩ <;> rfl

section Event

variable {e : MmioEvent} {slots : ReqSlots}

/-- The acknowledgement of an event that the AFU has not failed. -/
theorem ackMessage_sound (h : ¬AfuFailed e.respOpcode e.respCode) : ∃ data, e.ackMessage = e.ack :: e.respCode :: data ∧
    data.length = if e.rnw = true then if e.size ≠ 0 then e.size else if e.dw = true then 8 else 4 else 0 := by
  unfold AfuFailed at h
  unfold MmioEvent.ackMessage
  rw [if_neg h]
  split
  · split
    · exact ⟨_, rfl, Buffer.length_read ..⟩
    · split
      · exact ⟨_, rfl, length_beBytes ..⟩
      · exact ⟨_, rfl, length_beBytes ..⟩
  · exact ⟨[], rfl, rfl⟩

theorem ackMessage_failed (h : AfuFailed e.respOpcode e.respCode) : e.ackMessage = [e.ack, e.respCode] := if_pos h

theorem framed_mmio_iff {m : MmioReq} (hack : e.ack = ocseMmioAck) (hrnw : e.rnw = m.rnw) (hdw : e.dw = m.dw)
    (hsize : e.size = 0) (hslots : slots.mmioType = m.type) :
    TakenWhole slots e.ackMessage ↔ (m.rnw = true → ¬AfuFailed e.respOpcode e.respCode) := by
  by_cases hfailed : AfuFailed e.respOpcode e.respCode
  · rw [ackMessage_failed hfailed, hack, takenWhole_mmio_iff, hslots, mmioAckSize_type, List.length_nil]
    cases m.rnw
    · simp
    · cases m.dw <;> simp [hfailed]
  · obtain ⟨data, hmessage, hlength⟩ := ackMessage_sound hfailed
    rw [hmessage, hack, takenWhole_mmio_iff, hslots, mmioAckSize_type, hlength, hrnw, hdw]
    simp [hsize, hfailed]

theorem framed_lpc_iff {m : MemReq} (hack : e.ack = ocseLpcAck) (hrnw : e.rnw = decide (m.type = .read))
    (hsize : e.size = m.size) (hpos : m.size ≠ 0) (hslots : slots.memType = m.type ∧ slots.memSize = m.size) :
    TakenWhole slots e.ackMessage ↔
      (m.type = .read → e.respCode ≠ 0 → AfuFailed e.respOpcode e.respCode) := by
  by_cases hfailed : AfuFailed e.respOpcode e.respCode
  · rw [ackMessage_failed hfailed, hack, takenWhole_lpc_code hfailed.2]
    simp [hfailed]
  · obtain ⟨data, hmessage, hlength⟩ := ackMessage_sound hfailed
    rw [hsize, hrnw] at hlength
    rw [hmessage, hack]
    by_cases hcode : e.respCode = 0
    · rw [hcode, takenWhole_lpc_iff, hslots.1, hslots.2, hlength]
      by_cases hread : m.type = .read
      · simp [hread, hpos]
      · simp [hread]
    · rw [takenWhole_lpc_code hcode, ← List.length_eq_zero_iff, hlength]
      by_cases hread : m.type = .read
      · simp [hread, hpos, hcode, hfailed]
      · simp [hread]

end Event

/-- libocxl takes the reply to a request whole exactly when the two ends agree on its length, whatever run of
ocse the reply comes from. -/
theorem ackFraming_iff {q : AccessReq} {o : AccessOutcome} {reply : List UInt8} (h : OcseReply q o reply)
    (hq : q.Formed) {slots : ReqSlots} (hslots : slots.Holds q) : TakenWhole slots reply ↔ q.Agrees o := by
  cases h with
  | map global =>
      refine iff_of_true ((takenWhole_mmio_iff 0 []).mpr ?_) trivial
      rw [show slots.mmioType = _ from hslots]
      cases global <;> rfl
  | failMmio r => exact iff_of_true (takenWhole_fail (by decide) (by decide)) trivial
  | failLpc r => exact iff_of_true (takenWhole_fail (by decide) (by decide)) trivial
  | ack q afuEvent actions r e hr hasks he hid =>
      have hsound := AckLedger.run_sound afuEvent actions
      obtain ⟨hdone, r', hr', -, hanswers⟩ := hsound.told _ he
      obtain rfl : r' = r := List.inj_on_of_nodup_map hsound.distinct hr' hr (hanswers.id.symm.trans hid)
      dsimp only at hdone hanswers
      have hack := hanswers.acked (by simp [hdone])
      unfold MmioEvent.rightAck at hack
      obtain ⟨cfg, a, ha, hmessage⟩ := hasks
      cases q with
      | mmioMap global => cases hmessage
      | mmio m =>
          have hdecoded := handleMmio_message r'.client cfg m []
          rw [List.append_nil, hmessage, Option.some_inj, Prod.mk.injEq] at hdecoded
          rw [hdecoded.1] at ha
          have hfields := Option.some.inj ha
          have hsize : e.size = 0 := hanswers.size.trans (congrArg ClientAccess.size hfields).symm
          rw [if_pos (.inr hsize)] at hack
          exact framed_mmio_iff hack (hanswers.rnw.trans (congrArg ClientAccess.rnw hfields).symm)
            (hanswers.dw.trans (congrArg ClientAccess.dw hfields).symm) hsize hslots
      | lpc m =>
          have hdecoded := handleMem_message r'.client cfg m hq.1 []
          rw [List.append_nil, hmessage, Option.some_inj, Prod.mk.injEq] at hdecoded
          rw [hdecoded.1] at ha
          have hfields := Option.some.inj ha
          have hsize : e.size = m.size := hanswers.size.trans (congrArg ClientAccess.size hfields).symm
          have hnot : ¬(e.cfg = true ∨ e.size = 0) := by simp [hanswers.cfg, hsize, hq.2]
          rw [if_neg hnot] at hack
          exact framed_lpc_iff hack (hanswers.rnw.trans (congrArg ClientAccess.rnw hfields).symm) hsize hq.2 hslots

/-! ## Replies to look at -/

/-- A read of 32 bits. -/
def sampleReadReq : MmioReq := ⟨true, true, false, 0, 0⟩

/-- The AFU answers the read in this way, and a beat of data comes with the answer. -/
def sampleMmioRead (respOpcode respCode : UInt8) : List MmioAction :=
  [.mmio 0 ⟨0, 0, 0, 0, 0⟩ true false true 0 0, .send,
    .frame { sampleMmioAnswer with
      afuResp := { sampleMmioAnswer.afuResp with opcode := respOpcode, code := respCode } },
    .handleAfu, .poll 0]

theorem sampleMmioRead_replies {respOpcode respCode : UInt8}
    (hasked : ((AckLedger.init sampleMmioAfu).run (sampleMmioRead respOpcode respCode)).asked =
      [⟨0, 0, false, true, false, 0⟩])
    (htold : ((AckLedger.init sampleMmioAfu).run (sampleMmioRead respOpcode respCode)).told.map
      (fun x => (x.1, x.2.id, x.2.respOpcode, x.2.respCode, x.2.ackMessage)) =
      [(0, 0, respOpcode, respCode, reply)]) :
    OcseReply (.mmio sampleReadReq) (.answered respOpcode respCode) reply := by
  have hmem := List.mem_singleton.mpr (Eq.refl (0, 0, respOpcode, respCode, reply))
  rw [← htold, List.mem_map] at hmem
  obtain ⟨⟨c, e⟩, he, hfields⟩ := hmem
  simp only [Prod.mk.injEq] at hfields
  obtain ⟨rfl, hid, rfl, rfl, rfl⟩ := hfields
  refine .ack _ sampleMmioAfu _ ⟨0, 0, false, true, false, 0⟩ e ?_ ?_ he hid
  · rw [hasked]
    exact List.mem_singleton.mpr rfl
  · exact ⟨⟨0, 0, 0, 0, 0⟩, .mmio 0 ⟨0, 0, 0, 0, 0⟩ true false true 0 0, rfl, rfl⟩

theorem ackFraming_iff_success :
    TakenWhole ⟨sampleReadReq.type, .write, 0⟩ [ocseMmioAck, 0, 0, 0, 0, 0] ↔
      (AccessReq.mmio sampleReadReq).Agrees (.answered 0x01 0) :=
  ackFraming_iff (sampleMmioRead_replies (by decide +kernel) (by decide +kernel)) trivial rfl

/-- The AFU fails the read: ocse sends two bytes and libocxl waits for six. -/
theorem failedRead_misframed :
    OcseReply (.mmio sampleReadReq) (.answered 0x02 0x01) [ocseMmioAck, 0x01] ∧
      (AccessReq.mmio sampleReadReq).Formed ∧
      ReqSlots.Holds ⟨sampleReadReq.type, .write, 0⟩ (.mmio sampleReadReq) ∧
      ¬TakenWhole ⟨sampleReadReq.type, .write, 0⟩ [ocseMmioAck, 0x01] := by
  refine ⟨sampleMmioRead_replies (by decide +kernel) (by decide +kernel), trivial, rfl, ?_⟩
  rw [takenWhole_mmio_iff]
  decide

end Ocse
