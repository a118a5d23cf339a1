import Ocse.Frame

/-!
# AFU frames arrive as they were sent

The other direction: from `tlxSignalTlxModel` to the groups that `tlxGetAfuEvents` leaves. The three
credit-return flags do not stay in the receiver's event: each is counted once and taken down.
-/

namespace Ocse

/-! ## What a receiver holds of a group -/

def AfuTlxCmd.Received (g r : AfuTlxCmd) : Prop :=
  r.valid = validFlag g.valid ∧ (g.valid ≠ 0 →
    r.opcode = g.opcode ∧ r.actag = g.actag ∧ r.streamId = g.streamId &&& 0x0F ∧
    (∀ i < 9, r.eaOrObj i = g.eaOrObj i) ∧ r.afutag = g.afutag ∧ r.dl = g.dl &&& 0x03 ∧
    r.pl = g.pl &&& 0x07 ∧ r.be = g.be ∧ r.flag = g.flag &&& 0x0F ∧ r.endian = g.endian &&& 0x01 ∧
    r.bdf = g.bdf ∧ r.pasid = g.pasid ∧ r.pgSize = g.pgSize)

def AfuTlxCdata.Received (g r : AfuTlxCdata) : Prop :=
  r.valid = validFlag g.valid ∧ (g.valid ≠ 0 → r.bdi = g.bdi &&& 0x01 ∧ ∀ i < 64, r.bus i = g.bus i)

def AfuTlxResp.Received (g r : AfuTlxResp) : Prop :=
  r.valid = validFlag g.valid ∧ (g.valid ≠ 0 →
    r.opcode = g.opcode ∧ r.dl = g.dl &&& 0x03 ∧ r.capptag = g.capptag ∧ r.dp = g.dp &&& 0x03 ∧
    r.code = g.code &&& 0x0F)

def AfuTlxRdata.Received (g r : AfuTlxRdata) : Prop :=
  r.valid = validFlag g.valid ∧ (g.valid ≠ 0 → r.bdi = g.bdi &&& 0x01 ∧ ∀ i < 64, r.bus i = g.bus i)

def CfgTlxResp.Received (g r : CfgTlxResp) : Prop :=
  r.valid = validFlag g.valid ∧ (g.valid ≠ 0 →
    r.opcode = g.opcode ∧ r.capptag = g.capptag ∧ r.code = g.code &&& 0x0F ∧
    r.rdataBdi = g.rdataBdi &&& 0x01 ∧ ∀ i < 4, r.rdataBus i = g.rdataBus i)

def AfuTlxCreditReq.Received (g r : AfuTlxCreditReq) : Prop :=
  r.valid = validFlag g.valid ∧ (g.valid ≠ 0 →
    r.respInitialCredit = g.respInitialCredit ∧ r.cmdInitialCredit = g.cmdInitialCredit ∧
    r.cfgInitialCredit = g.cfgInitialCredit ∧ r.respRdReq = g.respRdReq ∧ r.respRdCnt = g.respRdCnt ∧
    r.cmdRdReq = g.cmdRdReq ∧ r.cmdRdCnt = g.cmdRdCnt)

/-- The three return flags have arrived unchanged. -/
def AfuTlxCreditReq.SameReturns (g r : AfuTlxCreditReq) : Prop :=
  g.valid ≠ 0 → r.respCredit = g.respCredit ∧ r.cmdCredit = g.cmdCredit ∧
    r.cfgCreditReturn = g.cfgCreditReturn

/-- The three return flags have been taken down at the receiver. -/
def AfuTlxCreditReq.ReturnsTaken (g r : AfuTlxCreditReq) : Prop :=
  g.valid ≠ 0 → r.respCredit = 0 ∧ r.cmdCredit = 0 ∧ r.cfgCreditReturn = 0

/-- A return flag counts only when the credit group is transmitted. -/
def returned (valid credit : UInt8) : UInt8 := if valid ≠ 0 then credit else 0

/-- The receiver `r'` holds everything that an AFU frame carries of `e`, return flags apart. -/
structure AfuReceived (e r' : AfuEvent) : Prop where
  cmd : e.afuCmd.Received r'.afuCmd
  cdata : e.afuCdata.Received r'.afuCdata
  resp : e.afuResp.Received r'.afuResp
  rdata : e.afuRdata.Received r'.afuRdata
  cfgResp : e.cfgResp.Received r'.cfgResp
  creditReq : e.afuCreditReq.Received r'.afuCreditReq

/-- Every return flag of `e` was added once to the counter that `r` kept of it. -/
structure ReturnsCounted (e r r' : AfuEvent) : Prop where
  cmd : r'.afuTlxCmdCreditsAvailable =
    r.afuTlxCmdCreditsAvailable + returned e.afuCreditReq.valid e.afuCreditReq.cmdCredit
  resp : r'.afuTlxRespCreditsAvailable =
    r.afuTlxRespCreditsAvailable + returned e.afuCreditReq.valid e.afuCreditReq.respCredit
  cfg : r'.cfgTlxCreditsAvailable =
    r.cfgTlxCreditsAvailable + returned e.afuCreditReq.valid e.afuCreditReq.cfgCreditReturn

/-- No group of the AFU is pending at the receiver. -/
structure AfuGroupsClear (r : AfuEvent) : Prop where
  cmd : r.afuCmd.valid = 0
  cdata : r.afuCdata.valid = 0
  resp : r.afuResp.valid = 0
  rdata : r.afuRdata.valid = 0
  cfgResp : r.cfgResp.valid = 0
  creditReq : r.afuCreditReq.valid = 0

/-- The credit-return fields are flags. -/
structure ReturnFlags (g : AfuTlxCreditReq) : Prop where
  resp : g.respCredit = 0 ∨ g.respCredit = 1
  cmd : g.cmdCredit = 0 ∨ g.cmdCredit = 1
  cfg : g.cfgCreditReturn = 0 ∨ g.cfgCreditReturn = 1

/-- The length the host works out: a clock alone is one byte, else the header says it. -/
def afuFrameLength (rbuf : Buffer UInt8) : ℕ := if rbuf 0 = 0x10 then 1 else afuEventsLength rbuf

/-! ## The frame that is sent -/

@[simp] theorem AfuTlxCmd.length_bytes (g : AfuTlxCmd) : g.bytes.length = 34 := by
  simp [AfuTlxCmd.bytes]

@[simp] theorem AfuTlxCdata.length_bytes (g : AfuTlxCdata) : g.bytes.length = 65 := by
  simp [AfuTlxCdata.bytes]

@[simp] theorem AfuTlxResp.length_bytes (g : AfuTlxResp) : g.bytes.length = 6 := by
  simp [AfuTlxResp.bytes]

@[simp] theorem AfuTlxRdata.length_bytes (g : AfuTlxRdata) : g.bytes.length = 65 := by
  simp [AfuTlxRdata.bytes]

@[simp] theorem CfgTlxResp.length_bytes (g : CfgTlxResp) : g.bytes.length = 9 := by
  simp [CfgTlxResp.bytes]

@[simp] theorem AfuTlxCreditReq.length_bytes (g : AfuTlxCreditReq) : g.bytes.length = 10 := rfl

theorem AfuTlxCmd.put_snd (g : AfuTlxCmd) (b : TxBuffer) :
    (g.put b).2 = b.group (groupBit g.valid 0x02) (groupBytes g.valid g.bytes) := by
  by_cases h : g.valid = 0 <;> simp [AfuTlxCmd.put, TxBuffer.group, groupBit, groupBytes, h]

theorem AfuTlxCdata.put_snd (g : AfuTlxCdata) (b : TxBuffer) :
    (g.put b).2 = { b.group (groupBit g.valid 0x04) (groupBytes g.valid g.bytes) with
      size₁ := if g.valid ≠ 0 then 0 else b.size₁
      size₂ := if g.valid ≠ 0 then 64 else b.size₂ } := by
  by_cases h : g.valid = 0 <;> simp [AfuTlxCdata.put, TxBuffer.group, groupBit, groupBytes, h]

theorem AfuTlxResp.put_snd (g : AfuTlxResp) (b : TxBuffer) :
    (g.put b).2 = b.group (groupBit g.valid 0x08) (groupBytes g.valid g.bytes) := by
  by_cases h : g.valid = 0 <;> simp [AfuTlxResp.put, TxBuffer.group, groupBit, groupBytes, h]

theorem AfuTlxRdata.put_snd (g : AfuTlxRdata) (b : TxBuffer) :
    (g.put b).2 = { b.group (groupBit g.valid 0x20) (groupBytes g.valid g.bytes) with
      size₃ := if g.valid ≠ 0 then 0 else b.size₃
      size₄ := if g.valid ≠ 0 then 64 else b.size₄ } := by
  by_cases h : g.valid = 0 <;> simp [AfuTlxRdata.put, TxBuffer.group, groupBit, groupBytes, h]

theorem CfgTlxResp.put_snd (g : CfgTlxResp) (b : TxBuffer) :
    (g.put b).2 = b.group (groupBit g.valid 0x40) (groupBytes g.valid g.bytes) := by
  by_cases h : g.valid = 0 <;> simp [CfgTlxResp.put, TxBuffer.group, groupBit, groupBytes, h]

theorem AfuTlxCreditReq.put_snd (g : AfuTlxCreditReq) (b : TxBuffer) :
    (g.put b).2 = b.group (groupBit g.valid 0x01) (groupBytes g.valid g.bytes) := by
  by_cases h : g.valid = 0 <;> simp [AfuTlxCreditReq.put, TxBuffer.group, groupBit, groupBytes, h]

/-- The transmit buffer of `tlx_signal_tlx_model` when its groups are in place. -/
def afuBuffer (e : AfuEvent) : TxBuffer where
  head := 0x10 ||| groupBit e.afuCmd.valid 0x02 ||| groupBit e.afuCdata.valid 0x04 |||
    groupBit e.afuResp.valid 0x08 ||| groupBit e.afuRdata.valid 0x20 |||
    groupBit e.cfgResp.valid 0x40 ||| groupBit e.afuCreditReq.valid 0x01
  size₁ := if e.afuCdata.valid ≠ 0 then 0 else 0
  size₂ := if e.afuCdata.valid ≠ 0 then 64 else 0
  size₃ := if e.afuRdata.valid ≠ 0 then 0 else 0
  size₄ := if e.afuRdata.valid ≠ 0 then 64 else 0
  body := groupBytes e.afuCmd.valid e.afuCmd.bytes ++ (groupBytes e.afuCdata.valid e.afuCdata.bytes ++
    (groupBytes e.afuResp.valid e.afuResp.bytes ++ (groupBytes e.afuRdata.valid e.afuRdata.bytes ++
    (groupBytes e.cfgResp.valid e.cfgResp.bytes ++
      groupBytes e.afuCreditReq.valid e.afuCreditReq.bytes))))

theorem tlxSignalTlxModel_frame (e : AfuEvent) (hclock : e.clock = 1) :
    (tlxSignalTlxModel e).2.2 = (afuBuffer e).frame := by
  unfold tlxSignalTlxModel
  rw [if_neg (not_not.mpr hclock)]
  simp only [AfuTlxCmd.put_snd, AfuTlxCdata.put_snd, AfuTlxResp.put_snd, AfuTlxRdata.put_snd,
    CfgTlxResp.put_snd, AfuTlxCreditReq.put_snd, TxBuffer.group, TxBuffer.start, List.nil_append,
    List.append_assoc]
  rfl

theorem afuHead_bits (a b c d f g : Bool) :
    let h : UInt8 := 0x10 ||| cond a 0x02 0 ||| cond b 0x04 0 ||| cond c 0x08 0 ||| cond d 0x20 0 |||
      cond f 0x40 0 ||| cond g 0x01 0
    (h &&& 0x02 ≠ 0 ↔ a = true) ∧ (h &&& 0x04 ≠ 0 ↔ b = true) ∧ (h &&& 0x08 ≠ 0 ↔ c = true) ∧
      (h &&& 0x20 ≠ 0 ↔ d = true) ∧ (h &&& 0x40 ≠ 0 ↔ f = true) ∧ (h &&& 0x01 ≠ 0 ↔ g = true) ∧
      (h = 0x10 ↔ (a || b || c || d || f || g) = false) := by
  revert a b c d f g
  decide

/-- A receive buffer that starts with the header of `e`'s frame: the six presence tests and the counts. -/
structure AfuHeader (e : AfuEvent) (rbuf : Buffer UInt8) : Prop where
  cmd : present rbuf 0x02 ↔ e.afuCmd.valid ≠ 0
  cdata : present rbuf 0x04 ↔ e.afuCdata.valid ≠ 0
  resp : present rbuf 0x08 ↔ e.afuResp.valid ≠ 0
  rdata : present rbuf 0x20 ↔ e.afuRdata.valid ≠ 0
  cfgResp : present rbuf 0x40 ↔ e.cfgResp.valid ≠ 0
  creditReq : present rbuf 0x01 ↔ e.afuCreditReq.valid ≠ 0
  cmdCnt : e.afuCdata.valid ≠ 0 → byteCnt rbuf 0x04 1 = 64
  respCnt : e.afuRdata.valid ≠ 0 → byteCnt rbuf 0x20 3 = 64

theorem afuHeader_of_holds (e : AfuEvent) (rbuf : Buffer UInt8)
    (h : rbuf.Holds 0 (afuBuffer e).header) : AfuHeader e rbuf := by
  have hbits := afuHead_bits (decide (e.afuCmd.valid ≠ 0)) (decide (e.afuCdata.valid ≠ 0))
    (decide (e.afuResp.valid ≠ 0)) (decide (e.afuRdata.valid ≠ 0))
    (decide (e.cfgResp.valid ≠ 0)) (decide (e.afuCreditReq.valid ≠ 0))
  simp only [← groupBit_eq_cond, decide_eq_true_eq] at hbits
  obtain ⟨h₁, h₂, h₃, h₄, h₅, h₆, -⟩ := hbits
  have hp := present_congr h
  simp only [TxBuffer.header, Buffer.holds_cons, afuBuffer] at h
  obtain ⟨-, hs₁, hs₂, hs₃, hs₄, -⟩ := h
  refine ⟨(hp 0x02).trans h₁, (hp 0x04).trans h₂, (hp 0x08).trans h₃, (hp 0x20).trans h₄,
    (hp 0x40).trans h₅, (hp 0x01).trans h₆, ?_, ?_⟩
  · intro hv
    rw [byteCnt, if_pos ((hp 0x04).trans h₂ |>.mpr hv)]
    rw [if_pos hv] at hs₁ hs₂
    exact loadBE_size rbuf 1 64 (by decide) hs₁ hs₂
  · intro hv
    rw [byteCnt, if_pos ((hp 0x20).trans h₄ |>.mpr hv)]
    rw [if_pos hv] at hs₃ hs₄
    exact loadBE_size rbuf 3 64 (by decide) hs₃ hs₄

/-! ## Parsing the groups -/

theorem AfuTlxCmd.get_received (g r : AfuTlxCmd) (rbuf : Buffer UInt8) (rbc : ℕ)
    (hp : present rbuf 0x02 ↔ g.valid ≠ 0) (h : rbuf.Holds rbc (groupBytes g.valid g.bytes)) :
    ∃ r', r.get rbuf rbc = (r', rbc + (groupBytes g.valid g.bytes).length) ∧ g.Received r' := by
  by_cases hv : g.valid = 0
  · refine ⟨{ r with valid := 0 }, ?_, by rw [hv]; rfl, fun h => absurd hv h⟩
    rw [groupBytes_of_eq hv, AfuTlxCmd.get, if_neg (fun h => hp.mp h hv)]
    rfl
  · rw [groupBytes_of_ne hv] at h ⊢
    simp only [AfuTlxCmd.bytes, List.cons_append, List.append_assoc, List.nil_append,
      Buffer.holds_cons, Buffer.holds_append, length_beBytes, Buffer.length_read, Nat.add_assoc,
      Nat.reduceAdd] at h
    obtain ⟨hop, hactag, hstream, hea, htag, hdl, hpl, hbe, hflag, hend, hbdf, hpasid, hpg, -⟩ := h
    rw [AfuTlxCmd.get, if_pos (hp.mpr hv)]
    refine ⟨_, by rw [length_bytes], by simp [validFlag, hv], fun _ =>
      ⟨hop, ?_, hstream, ?_, ?_, hdl, hpl, ?_, hflag, hend, ?_, ?_, hpg⟩⟩
    · exact ofNat_loadBE_uint16 _ _ _ hactag
    · exact Buffer.write_read_of_holds _ _ _ _ _ hea
    · exact ofNat_loadBE_uint16 _ _ _ htag
    · exact ofNat_loadBE_uint64 _ _ _ hbe
    · exact ofNat_loadBE_uint16 _ _ _ hbdf
    · exact ofNat_loadBE_uint32 _ _ _ hpasid

theorem AfuTlxCdata.get_received (g r : AfuTlxCdata) (rbuf : Buffer UInt8) (cnt rbc : ℕ)
    (hp : present rbuf 0x04 ↔ g.valid ≠ 0) (hcnt : g.valid ≠ 0 → cnt = 64)
    (h : rbuf.Holds rbc (groupBytes g.valid g.bytes)) :
    ∃ r', r.get rbuf cnt rbc = (r', rbc + (groupBytes g.valid g.bytes).length) ∧ g.Received r' := by
  by_cases hv : g.valid = 0
  · refine ⟨{ r with valid := 0 }, ?_, by rw [hv]; rfl, fun h => absurd hv h⟩
    rw [groupBytes_of_eq hv, AfuTlxCdata.get, if_neg (fun h => hp.mp h hv)]
    rfl
  · rw [groupBytes_of_ne hv] at h ⊢
    rw [AfuTlxCdata.bytes, Buffer.holds_cons] at h
    rw [AfuTlxCdata.get, if_pos (hp.mpr hv), hcnt hv]
    refine ⟨_, by rw [length_bytes], by simp [validFlag, hv], fun _ => ⟨h.1, ?_⟩⟩
    exact Buffer.write_read_of_holds _ _ _ _ _ h.2

theorem AfuTlxResp.get_received (g r : AfuTlxResp) (rbuf : Buffer UInt8) (rbc : ℕ)
    (hp : present rbuf 0x08 ↔ g.valid ≠ 0) (h : rbuf.Holds rbc (groupBytes g.valid g.bytes)) :
    ∃ r', r.get rbuf rbc = (r', rbc + (groupBytes g.valid g.bytes).length) ∧ g.Received r' := by
  by_cases hv : g.valid = 0
  · refine ⟨{ r with valid := 0 }, ?_, by rw [hv]; rfl, fun h => absurd hv h⟩
    rw [groupBytes_of_eq hv, AfuTlxResp.get, if_neg (fun h => hp.mp h hv)]
    rfl
  · rw [groupBytes_of_ne hv] at h ⊢
    simp only [AfuTlxResp.bytes, List.cons_append, Buffer.holds_cons, Buffer.holds_append,
      length_beBytes, Nat.add_assoc, Nat.reduceAdd] at h
    obtain ⟨hop, hdl, htag, hdp, hcode, -⟩ := h
    rw [AfuTlxResp.get, if_pos (hp.mpr hv)]
    refine ⟨_, by rw [length_bytes], by simp [validFlag, hv], fun _ => ⟨hop, hdl, ?_, hdp, hcode⟩⟩
    exact ofNat_loadBE_uint16 _ _ _ htag

theorem AfuTlxRdata.get_received (g r : AfuTlxRdata) (rbuf : Buffer UInt8) (rbc : ℕ)
    (hp : present rbuf 0x20 ↔ g.valid ≠ 0) (h : rbuf.Holds rbc (groupBytes g.valid g.bytes)) :
    ∃ r', r.get rbuf rbc = (r', rbc + (groupBytes g.valid g.bytes).length) ∧ g.Received r' := by
  by_cases hv : g.valid = 0
  · refine ⟨{ r with valid := 0 }, ?_, by rw [hv]; rfl, fun h => absurd hv h⟩
    rw [groupBytes_of_eq hv, AfuTlxRdata.get, if_neg (fun h => hp.mp h hv)]
    rfl
  · rw [groupBytes_of_ne hv] at h ⊢
    rw [AfuTlxRdata.bytes, Buffer.holds_cons] at h
    rw [AfuTlxRdata.get, if_pos (hp.mpr hv)]
    refine ⟨_, by rw [length_bytes], by simp [validFlag, hv], fun _ => ⟨h.1, ?_⟩⟩
    exact Buffer.write_read_of_holds _ _ _ _ _ h.2

theorem CfgTlxResp.get_received (g r : CfgTlxResp) (rbuf : Buffer UInt8) (rbc : ℕ)
    (hp : present rbuf 0x40 ↔ g.valid ≠ 0) (h : rbuf.Holds rbc (groupBytes g.valid g.bytes)) :
    ∃ r', r.get rbuf rbc = (r', rbc + (groupBytes g.valid g.bytes).length) ∧ g.Received r' := by
  by_cases hv : g.valid = 0
  · refine ⟨{ r with valid := 0 }, ?_, by rw [hv]; rfl, fun h => absurd hv h⟩
    rw [groupBytes_of_eq hv, CfgTlxResp.get, if_neg (fun h => hp.mp h hv)]
    rfl
  · rw [groupBytes_of_ne hv] at h ⊢
    simp only [CfgTlxResp.bytes, List.cons_append, List.append_assoc, List.nil_append,
      Buffer.holds_cons, Buffer.holds_append, length_beBytes, Nat.add_assoc, Nat.reduceAdd] at h
    obtain ⟨hop, htag, hcode, hbdi, hdata⟩ := h
    rw [CfgTlxResp.get, if_pos (hp.mpr hv)]
    refine ⟨_, by rw [length_bytes], by simp [validFlag, hv], fun _ => ⟨hop, ?_, hcode, hbdi, ?_⟩⟩
    · exact ofNat_loadBE_uint16 _ _ _ htag
    · exact Buffer.write_read_of_holds _ _ _ _ _ hdata

theorem AfuTlxCreditReq.get_received (g r : AfuTlxCreditReq) (rbuf : Buffer UInt8) (rbc : ℕ)
    (hp : present rbuf 0x01 ↔ g.valid ≠ 0) (h : rbuf.Holds rbc (groupBytes g.valid g.bytes)) :
    g.Received (r.get rbuf rbc) ∧ g.SameReturns (r.get rbuf rbc) := by
  by_cases hv : g.valid = 0
  · rw [AfuTlxCreditReq.get, if_neg (fun h => hp.mp h hv)]
    exact ⟨⟨by rw [hv]; rfl, fun h => absurd hv h⟩, fun h => absurd hv h⟩
  · rw [groupBytes_of_ne hv] at h
    simp only [AfuTlxCreditReq.bytes, Buffer.holds_cons, Nat.add_assoc, Nat.reduceAdd] at h
    obtain ⟨h₀, h₁, h₂, h₃, h₄, h₅, h₆, h₇, h₈, h₉, -⟩ := h
    rw [AfuTlxCreditReq.get, if_pos (hp.mpr hv)]
    exact ⟨⟨by simp [validFlag, hv], fun _ => ⟨h₀, h₁, h₂, h₆, h₇, h₈, h₉⟩⟩, fun _ => ⟨h₃, h₄, h₅⟩⟩

theorem addCredit_returned (available : UInt8) {valid got credit : UInt8} (hv : valid ≠ 0)
    (hgot : got = credit) (h : credit = 0 ∨ credit = 1) :
    addCredit available got = available + returned valid credit := by
  rw [hgot, returned, if_pos hv]
  rcases h with rfl | rfl <;> simp [addCredit]

theorem takeDown_of_flag {credit : UInt8} (h : credit = 0 ∨ credit = 1) : takeDown credit = 0 := by
  rcases h with rfl | rfl <;> rfl

/-- Counting the returns leaves the rest of the event alone. -/
theorem AfuEvent.countReturns_spec (r : AfuEvent) (g got : AfuTlxCreditReq) (hflags : ReturnFlags g)
    (hrec : g.Received got) (hret : g.SameReturns got) :
    g.Received (r.countReturns got).afuCreditReq ∧ g.ReturnsTaken (r.countReturns got).afuCreditReq ∧
      (r.countReturns got).afuTlxCmdCreditsAvailable =
        r.afuTlxCmdCreditsAvailable + returned g.valid g.cmdCredit ∧
      (r.countReturns got).afuTlxRespCreditsAvailable =
        r.afuTlxRespCreditsAvailable + returned g.valid g.respCredit ∧
      (r.countReturns got).cfgTlxCreditsAvailable =
        r.cfgTlxCreditsAvailable + returned g.valid g.cfgCreditReturn := by
  by_cases hv : g.valid = 0
  · have hgot : got.valid = 0 := by rw [hrec.1, hv]; rfl
    rw [AfuEvent.countReturns, if_neg (not_not.mpr hgot)]
    refine ⟨hrec, fun h => absurd hv h, ?_⟩
    simp [returned, hv]
  · have hgot : got.valid ≠ 0 := by rw [hrec.1]; simp [validFlag, hv]
    obtain ⟨hresp, hcmd, hcfg⟩ := hret hv
    rw [AfuEvent.countReturns, if_pos hgot]
    refine ⟨⟨hrec.1, hrec.2⟩, fun _ => ⟨?_, ?_, ?_⟩, ?_, ?_, ?_⟩
    · exact takeDown_of_flag (hresp ▸ hflags.resp)
    · exact takeDown_of_flag (hcmd ▸ hflags.cmd)
    · exact takeDown_of_flag (hcfg ▸ hflags.cfg)
    · exact addCredit_returned _ hv hcmd hflags.cmd
    · exact addCredit_returned _ hv hresp hflags.resp
    · exact addCredit_returned _ hv hcfg hflags.cfg

theorem AfuEvent.countReturns_groups (r : AfuEvent) (g : AfuTlxCreditReq) :
    (r.countReturns g).afuCmd = r.afuCmd ∧ (r.countReturns g).afuCdata = r.afuCdata ∧
      (r.countReturns g).afuResp = r.afuResp ∧ (r.countReturns g).afuRdata = r.afuRdata ∧
      (r.countReturns g).cfgResp = r.cfgResp ∧ (r.countReturns g).rbp = r.rbp ∧
      (r.countReturns g).rbuf = r.rbuf := by
  unfold AfuEvent.countReturns
  split <;> exact ⟨rfl, rfl, rfl, rfl, rfl, rfl, rfl⟩

theorem afuEventsLength_eq (e : AfuEvent) (rbuf : Buffer UInt8) (h : AfuHeader e rbuf) :
    afuEventsLength rbuf = 5 + (afuBuffer e).body.length := by
  have hrdata : (if present rbuf 0x20 then byteCnt rbuf 0x20 3 + 1 else 0) =
      (groupBytes e.afuRdata.valid e.afuRdata.bytes).length := by
    by_cases hv : e.afuRdata.valid = 0
    · simp [length_groupBytes, h.rdata, hv]
    · simp [length_groupBytes, h.rdata, h.respCnt hv, hv]
  have hresp : (if present rbuf 0x08 then 6 else 0) =
      (groupBytes e.afuResp.valid e.afuResp.bytes).length := by
    simp [length_groupBytes, h.resp]
  have hcdata : (if present rbuf 0x04 then byteCnt rbuf 0x04 1 + 1 else 0) =
      (groupBytes e.afuCdata.valid e.afuCdata.bytes).length := by
    by_cases hv : e.afuCdata.valid = 0
    · simp [length_groupBytes, h.cdata, hv]
    · simp [length_groupBytes, h.cdata, h.cmdCnt hv, hv]
  have hcmd : (if present rbuf 0x02 then 34 else 0) =
      (groupBytes e.afuCmd.valid e.afuCmd.bytes).length := by
    simp [length_groupBytes, h.cmd]
  have hcredit : (if present rbuf 0x01 then 10 else 0) =
      (groupBytes e.afuCreditReq.valid e.afuCreditReq.bytes).length := by
    simp [length_groupBytes, h.creditReq]
  have hcfg : (if present rbuf 0x40 then 9 else 0) =
      (groupBytes e.cfgResp.valid e.cfgResp.bytes).length := by
    simp [length_groupBytes, h.cfgResp]
  unfold afuEventsLength
  rw [hrdata, hresp, hcdata, hcmd, hcredit, hcfg]
  simp only [afuBuffer, List.length_append]
  omega

theorem parseAfuEvents_received (e r : AfuEvent) (h : AfuHeader e r.rbuf)
    (hbody : r.rbuf.Holds 5 (afuBuffer e).body) (hflags : ReturnFlags e.afuCreditReq) (cmdCnt : ℕ)
    (hcmdCnt : e.afuCdata.valid ≠ 0 → cmdCnt = 64) :
    AfuReceived e (parseAfuEvents r cmdCnt) ∧
      e.afuCreditReq.ReturnsTaken (parseAfuEvents r cmdCnt).afuCreditReq ∧
      ReturnsCounted e r (parseAfuEvents r cmdCnt) ∧
      (parseAfuEvents r cmdCnt).rbp = 0 ∧ (parseAfuEvents r cmdCnt).rbuf = r.rbuf := by
  simp only [afuBuffer, Buffer.holds_append] at hbody
  obtain ⟨hcmd, hcdata, hresp, hrdata, hcfg, hcredit⟩ := hbody
  obtain ⟨cmd, gcmd, rcmd⟩ := e.afuCmd.get_received r.afuCmd r.rbuf _ h.cmd hcmd
  obtain ⟨cdata, gcdata, rcdata⟩ :=
    e.afuCdata.get_received r.afuCdata r.rbuf cmdCnt _ h.cdata hcmdCnt hcdata
  obtain ⟨resp, gresp, rresp⟩ := e.afuResp.get_received r.afuResp r.rbuf _ h.resp hresp
  obtain ⟨rdata, grdata, rrdata⟩ := e.afuRdata.get_received r.afuRdata r.rbuf _ h.rdata hrdata
  obtain ⟨cfg, gcfg, rcfg⟩ := e.cfgResp.get_received r.cfgResp r.rbuf _ h.cfgResp hcfg
  obtain ⟨rcredit, hret⟩ := e.afuCreditReq.get_received r.afuCreditReq r.rbuf _ h.creditReq hcredit
  simp only [parseAfuEvents, gcmd, gcdata, gresp, grdata, gcfg]
  generalize r.afuCreditReq.get _ _ = got at rcredit hret
  have hspec := AfuEvent.countReturns_spec { r with
    rbp := 0, afuCmd := cmd, afuCdata := cdata, afuResp := resp, afuRdata := rdata, cfgResp := cfg
    tlxCredits := r.tlxCredits.earnCredits r.rbuf } e.afuCreditReq got hflags rcredit hret
  have hgroups := AfuEvent.countReturns_groups { r with
    rbp := 0, afuCmd := cmd, afuCdata := cdata, afuResp := resp, afuRdata := rdata, cfgResp := cfg
    tlxCredits := r.tlxCredits.earnCredits r.rbuf } got
  obtain ⟨hrec, htaken, hccmd, hcresp, hccfg⟩ := hspec
  obtain ⟨h₁, h₂, h₃, h₄, h₅, hrbp, hrbuf⟩ := hgroups
  refine ⟨⟨?_, ?_, ?_, ?_, ?_, hrec⟩, htaken, ⟨hccmd, hcresp, hccfg⟩, hrbp, hrbuf⟩
  · rw [h₁]; exact rcmd
  · rw [h₂]; exact rcdata
  · rw [h₃]; exact rresp
  · rw [h₄]; exact rrdata
  · rw [h₅]; exact rcfg

/-! ## The round trip -/

theorem lowerClock_spec (r : AfuEvent) :
    (lowerClock r).rbuf = r.rbuf ∧ (lowerClock r).rbp = r.rbp ∧
      (AfuGroupsClear r → AfuGroupsClear (lowerClock r)) ∧
      (∀ e r', ReturnsCounted e (lowerClock r) r' → ReturnsCounted e r r') := by
  unfold lowerClock
  split
  · exact ⟨rfl, rfl, fun h => ⟨h.cmd, h.cdata, h.resp, h.rdata, h.cfgResp, h.creditReq⟩,
      fun _ _ h => ⟨h.cmd, h.resp, h.cfg⟩⟩
  · exact ⟨rfl, rfl, id, fun _ _ => id⟩

theorem afuBuffer_head_eq_iff (e : AfuEvent) :
    (afuBuffer e).head = 0x10 ↔ (afuBuffer e).body = [] := by
  have hbits := afuHead_bits (decide (e.afuCmd.valid ≠ 0)) (decide (e.afuCdata.valid ≠ 0))
    (decide (e.afuResp.valid ≠ 0)) (decide (e.afuRdata.valid ≠ 0))
    (decide (e.cfgResp.valid ≠ 0)) (decide (e.afuCreditReq.valid ≠ 0))
  simp only [← groupBit_eq_cond] at hbits
  refine hbits.2.2.2.2.2.2.trans ?_
  simp [afuBuffer, groupBytes, AfuTlxCmd.bytes, AfuTlxCdata.bytes, AfuTlxResp.bytes,
    AfuTlxRdata.bytes, CfgTlxResp.bytes, AfuTlxCreditReq.bytes, and_assoc]

/-- Without a group in the frame a receiver at rest already holds all there is. -/
theorem afuReceived_of_body_eq_nil (e r : AfuEvent) (hbody : (afuBuffer e).body = [])
    (hclear : AfuGroupsClear r) :
    AfuReceived e r ∧ e.afuCreditReq.ReturnsTaken r.afuCreditReq ∧ ReturnsCounted e r r := by
  simp [afuBuffer, groupBytes, AfuTlxCmd.bytes, AfuTlxCdata.bytes, AfuTlxResp.bytes,
    AfuTlxRdata.bytes, CfgTlxResp.bytes, AfuTlxCreditReq.bytes] at hbody
  obtain ⟨h₁, h₂, h₃, h₄, h₅, h₆⟩ := hbody
  refine ⟨⟨?_, ?_, ?_, ?_, ?_, ?_⟩, fun h => absurd h₆ h, ?_⟩
  · exact ⟨by rw [h₁, hclear.cmd]; rfl, fun h => absurd h₁ h⟩
  · exact ⟨by rw [h₂, hclear.cdata]; rfl, fun h => absurd h₂ h⟩
  · exact ⟨by rw [h₃, hclear.resp]; rfl, fun h => absurd h₃ h⟩
  · exact ⟨by rw [h₄, hclear.rdata]; rfl, fun h => absurd h₄ h⟩
  · exact ⟨by rw [h₅, hclear.cfgResp]; rfl, fun h => absurd h₅ h⟩
  · exact ⟨by rw [h₆, hclear.creditReq]; rfl, fun h => absurd h₆ h⟩
  · constructor <;> simp [returned, h₆]

theorem afuBuffer_body_length_lt (e : AfuEvent) : (afuBuffer e).body.length < 2 ^ 32 - 5 := by
  have h₁ := length_groupBytes_le e.afuCmd.valid e.afuCmd.bytes
  have h₂ := length_groupBytes_le e.afuCdata.valid e.afuCdata.bytes
  have h₃ := length_groupBytes_le e.afuResp.valid e.afuResp.bytes
  have h₄ := length_groupBytes_le e.afuRdata.valid e.afuRdata.bytes
  have h₅ := length_groupBytes_le e.cfgResp.valid e.cfgResp.bytes
  have h₆ := length_groupBytes_le e.afuCreditReq.valid e.afuCreditReq.bytes
  simp only [AfuTlxCmd.length_bytes, AfuTlxCdata.length_bytes, AfuTlxResp.length_bytes,
    AfuTlxRdata.length_bytes, CfgTlxResp.length_bytes, AfuTlxCreditReq.length_bytes] at *
  simp only [afuBuffer, List.length_append]
  omega

theorem tlxGetAfuEvents_clock {r r₁ : AfuEvent} {s s₁ : Socket}
    (h₁ : r.fillHead s = (none, r₁, s₁)) (hclock : (lowerClock r₁).rbuf 0 = 0x10) :
    tlxGetAfuEvents r s = (1, { lowerClock r₁ with rbp := 0 }, s₁) := by
  unfold tlxGetAfuEvents
  simp only [h₁, if_pos hclock]

theorem tlxGetAfuEvents_groups {r r₁ r₂ r₃ r₄ : AfuEvent} {s s₁ s₃ s₄ : Socket} {rbc : ℕ}
    (h₁ : r.fillHead s = (none, r₁, s₁)) (h₂ : lowerClock r₁ = r₂) (hclock : ¬ r₂.rbuf 0 = 0x10)
    (h₃ : r₂.fill s₁ 4 = (none, r₃, s₃)) (hrbc : afuEventsLength r₃.rbuf = rbc)
    (h₄ : r₃.fill s₃ (remaining rbc r₃.rbp) = (none, r₄, s₄)) (hle : rbc ≤ r₄.rbp) :
    tlxGetAfuEvents r s = (1, parseAfuEvents r₄ (byteCnt r₃.rbuf 0x04 1), s₄) := by
  unfold tlxGetAfuEvents
  simp only [h₁, h₂, if_neg hclock, h₃, hrbc, h₄, if_neg (Nat.not_lt.mpr hle)]

/-- The host when it has read the first byte of an AFU frame. -/
def AfuEvent.clocked (r : AfuEvent) (head : UInt8) : AfuEvent :=
  lowerClock { r with rbuf := r.rbuf.write 0 [head], rbp := 1 }

/-- An AFU frame that arrives whole: its groups are parsed where they stand. -/
theorem tlxGetAfuEvents_whole (e r : AfuEvent) (s : Socket) (rest : List UInt8)
    (hclock : e.clock = 1) (hrbp : r.rbp = 0) (hall : s.arrivals = [])
    (hstream : s.stream = (tlxSignalTlxModel e).2.2 ++ rest) :
    let after := r.clocked (afuBuffer e).head
    let s' := { s with stream := rest }
    ((afuBuffer e).body = [] ∧ tlxGetAfuEvents r s = (1, { after with rbp := 0 }, s')) ∨
    ∃ r' cmdCnt, r' = { after with
        rbuf := r.rbuf.write 0 ((afuBuffer e).header ++ (afuBuffer e).body)
        rbp := 5 + (afuBuffer e).body.length } ∧
      (afuBuffer e).body ≠ [] ∧ tlxGetAfuEvents r s = (1, parseAfuEvents r' cmdCnt, s') ∧
      AfuHeader e r'.rbuf ∧ r'.rbuf.Holds 5 (afuBuffer e).body ∧
      (e.afuCdata.valid ≠ 0 → cmdCnt = 64) := by
  rw [tlxSignalTlxModel_frame e hclock] at hstream
  have hone : r.rbuf.write 0 [(afuBuffer e).head] 0 = (afuBuffer e).head :=
    Buffer.write_at r.rbuf 0 [(afuBuffer e).head] 0 (by simp)
  obtain ⟨hrbuf, hrbp₁, -⟩ := lowerClock_spec
    { r with rbuf := r.rbuf.write 0 [(afuBuffer e).head], rbp := 1 }
  have hx := (congrFun hrbuf 0).trans hone
  by_cases hbody : (afuBuffer e).body = []
  · -- nothing but a clock: one byte
    rw [TxBuffer.frame_of_eq _ hbody] at hstream
    have h₁ := r.fillHead_cons s (afuBuffer e).head rest hrbp hall hstream
    exact .inl ⟨hbody, tlxGetAfuEvents_clock h₁ (hx.trans ((afuBuffer_head_eq_iff e).mpr hbody))⟩
  · rw [TxBuffer.frame_of_ne _ hbody, List.append_assoc] at hstream
    have hne : ¬ (afuBuffer e).head = 0x10 := fun h => hbody ((afuBuffer_head_eq_iff e).mp h)
    have h₁ := r.fillHead_cons s (afuBuffer e).head
      ((afuBuffer e).header.tail ++ ((afuBuffer e).body ++ rest)) hrbp hall hstream
    have h₃ := AfuEvent.fill_sizes (r.clocked (afuBuffer e).head)
      { s with stream := (afuBuffer e).header.tail ++ ((afuBuffer e).body ++ rest) } (afuBuffer e) r.rbuf
      ((afuBuffer e).body ++ rest) hrbuf hrbp₁ hall rfl
    have h₄ := AfuEvent.fill_body
      { r.clocked (afuBuffer e).head with rbuf := r.rbuf.write 0 (afuBuffer e).header, rbp := 5 }
      { s with stream := (afuBuffer e).body ++ rest } (afuBuffer e) r.rbuf rest
      rfl rfl hall rfl hbody (afuBuffer_body_length_lt e)
    have hshort : AfuHeader e (r.rbuf.write 0 (afuBuffer e).header) :=
      afuHeader_of_holds e _ (Buffer.holds_write _ _ _)
    have hholds := Buffer.holds_write r.rbuf 0 ((afuBuffer e).header ++ (afuBuffer e).body)
    rw [Buffer.holds_append] at hholds
    have hlong := afuHeader_of_holds e _ hholds.1
    exact .inr ⟨_, _, rfl, hbody, tlxGetAfuEvents_groups h₁ rfl (fun h => hne (hx.symm.trans h)) h₃
      (afuEventsLength_eq e _ hshort) h₄ (Nat.le_refl _), hlong, hholds.2, hshort.cmdCnt⟩

theorem afuFrameLength_eq (e : AfuEvent) {rbuf : Buffer UInt8} (hclock : e.clock = 1)
    (h : AfuHeader e rbuf) (hhead : rbuf 0 = (afuBuffer e).head) (hbody : (afuBuffer e).body ≠ []) :
    afuFrameLength rbuf = (tlxSignalTlxModel e).2.2.length := by
  have hne : ¬ rbuf 0 = 0x10 := fun h => hbody ((afuBuffer_head_eq_iff e).mp (hhead.symm.trans h))
  rw [tlxSignalTlxModel_frame e hclock, TxBuffer.frame_of_ne _ hbody, afuFrameLength, if_neg hne,
    afuEventsLength_eq e _ h]
  simp

/-- Whatever groups are valid, an AFU frame that arrives whole leaves its receiver with those groups and
with every returned credit counted once, is as long as its header says, and is consumed exactly. -/
theorem afuFrame_roundTrip (e r : AfuEvent) (s : Socket) (rest : List UInt8)
    (hclock : e.clock = 1) (hflags : ReturnFlags e.afuCreditReq) (hrbp : r.rbp = 0)
    (hclear : AfuGroupsClear r) (hall : s.arrivals = [])
    (hstream : s.stream = (tlxSignalTlxModel e).2.2 ++ rest) :
    ∃ r' s', tlxGetAfuEvents r s = (1, r', s') ∧ AfuReceived e r' ∧
      e.afuCreditReq.ReturnsTaken r'.afuCreditReq ∧ ReturnsCounted e r r' ∧
      afuFrameLength r'.rbuf = (tlxSignalTlxModel e).2.2.length ∧ s'.stream = rest ∧ r'.rbp = 0 := by
  have hone : ∀ xs, r.rbuf.write 0 ((afuBuffer e).head :: xs) 0 = (afuBuffer e).head := by
    intro xs
    exact Buffer.write_at r.rbuf 0 ((afuBuffer e).head :: xs) 0 (by simp)
  obtain ⟨hrbuf, -, hclear₁, hcounted⟩ := lowerClock_spec
    { r with rbuf := r.rbuf.write 0 [(afuBuffer e).head], rbp := 1 }
  rcases tlxGetAfuEvents_whole e r s rest hclock hrbp hall hstream with
    ⟨hbody, hget⟩ | ⟨r', cmdCnt, hr', hbody, hget, hheader, hholds, hcmdCnt⟩
  · -- the groups stay clear
    have hc := hclear₁ ⟨hclear.cmd, hclear.cdata, hclear.resp, hclear.rdata, hclear.cfgResp,
      hclear.creditReq⟩
    obtain ⟨hrec, htaken, hcount⟩ := afuReceived_of_body_eq_nil e _ hbody hc
    have hcount' := hcounted e _ hcount
    refine ⟨_, _, hget, ?_, htaken, ?_, ?_, rfl, rfl⟩
    · exact ⟨hrec.cmd, hrec.cdata, hrec.resp, hrec.rdata, hrec.cfgResp, hrec.creditReq⟩
    · exact ⟨hcount'.cmd, hcount'.resp, hcount'.cfg⟩
    · rw [tlxSignalTlxModel_frame e hclock, TxBuffer.frame_of_eq _ hbody]
      exact if_pos ((congrFun hrbuf 0).trans ((hone []).trans ((afuBuffer_head_eq_iff e).mpr hbody)))
  · obtain ⟨hrec, htaken, hcount, hrbp', hrbuf'⟩ :=
      parseAfuEvents_received e r' hheader hholds hflags cmdCnt hcmdCnt
    subst hr'
    have hcount' := hcounted e _ ⟨hcount.cmd, hcount.resp, hcount.cfg⟩
    refine ⟨_, _, hget, hrec, htaken, ⟨hcount'.cmd, hcount'.resp, hcount'.cfg⟩, ?_, rfl, hrbp'⟩
    rw [hrbuf']
    exact afuFrameLength_eq e hclock hheader (hone ((afuBuffer e).header.tail ++ (afuBuffer e).body)) hbody

/-- A command without data and a returned command credit. -/
def sampleAfuEvent : AfuEvent :=
  { tlxEventReset with
    clock := 1
    afuCmd := { tlxEventReset.afuCmd with valid := 1, opcode := 0x10, actag := 3, afutag := 0x0102, dl := 1 }
    afuCreditReq := { tlxEventReset.afuCreditReq with valid := 1, cmdCredit := 1 } }

theorem sampleAfuEvent_roundTrip :
    ∃ r' s', tlxGetAfuEvents tlxEventReset (Socket.whole (tlxSignalTlxModel sampleAfuEvent).2.2) =
        (1, r', s') ∧ AfuReceived sampleAfuEvent r' ∧
      sampleAfuEvent.afuCreditReq.ReturnsTaken r'.afuCreditReq ∧
      ReturnsCounted sampleAfuEvent tlxEventReset r' ∧
      afuFrameLength r'.rbuf = (tlxSignalTlxModel sampleAfuEvent).2.2.length ∧ s'.stream = [] ∧
      r'.rbp = 0 :=
  afuFrame_roundTrip sampleAfuEvent tlxEventReset _ [] rfl
    ⟨Or.inl rfl, Or.inr rfl, Or.inl rfl⟩ rfl ⟨rfl, rfl, rfl, rfl, rfl, rfl⟩ rfl (by simp)

/-- The flag of a returned credit is not found set at the receiver. -/
theorem sampleAfuEvent_return_taken :
    sampleAfuEvent.clock = 1 ∧ ReturnFlags sampleAfuEvent.afuCreditReq ∧ tlxEventReset.rbp = 0 ∧
      AfuGroupsClear tlxEventReset ∧
      ¬ sampleAfuEvent.afuCreditReq.SameReturns (tlxGetAfuEvents tlxEventReset
        (Socket.whole (tlxSignalTlxModel sampleAfuEvent).2.2)).2.1.afuCreditReq := by
  refine ⟨rfl, ⟨Or.inl rfl, Or.inr rfl, Or.inl rfl⟩, rfl, ⟨rfl, rfl, rfl, rfl, rfl, rfl⟩, ?_⟩
  intro h
  exact absurd (h (by decide)).2.1 (by decide)

end Ocse
