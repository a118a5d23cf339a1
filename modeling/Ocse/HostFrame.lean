import Ocse.Frame

/-!
# Host frames arrive as they were sent

The groups of a host frame are followed one by one from `tlxSignalAfuModel` through the receive buffer
into the groups that `tlxGetTlxEvents` leaves. `Received` relates a group to what its receiver holds: the
flag, and while the flag is set every field that was transmitted.
-/

namespace Ocse

/-! ## What a receiver holds of a group -/

def TlxCfgCmd.Received (g r : TlxCfgCmd) : Prop :=
  r.valid = validFlag g.valid ∧ (g.valid ≠ 0 →
    r.opcode = g.opcode ∧ r.capptag = g.capptag ∧ r.pa = g.pa ∧ r.t = g.t &&& 0x01 ∧
    r.pl = g.pl &&& 0x07 ∧ r.dataBdi = g.dataBdi &&& 0x01 ∧ ∀ i < 4, r.dataBus i = g.dataBus i)

def TlxAfuCmd.Received (g r : TlxAfuCmd) : Prop :=
  r.valid = validFlag g.valid ∧ (g.valid ≠ 0 →
    r.opcode = g.opcode ∧ r.capptag = g.capptag ∧ r.dl = g.dl &&& 0x03 ∧ r.pl = g.pl &&& 0x07 ∧
    r.be = g.be ∧ r.cmdEnd = g.cmdEnd &&& 0x01 ∧ r.pa = g.pa)

def TlxAfuCmdData.Received (g r : TlxAfuCmdData) : Prop :=
  r.valid = validFlag g.valid ∧ (g.valid ≠ 0 →
    r.bdi = g.bdi &&& 0x01 ∧ ∀ i < g.byteCnt.toNat, r.dataBus i = g.dataBus i)

def TlxAfuResp.Received (g r : TlxAfuResp) : Prop :=
  r.valid = validFlag g.valid ∧ (g.valid ≠ 0 →
    r.opcode = g.opcode ∧ r.afutag = g.afutag ∧ r.code = g.code ∧ r.pgSize = g.pgSize ∧
    r.dl = g.dl ∧ r.dp = g.dp)

def TlxAfuRespData.Received (g r : TlxAfuRespData) : Prop :=
  r.valid = validFlag g.valid ∧ (g.valid ≠ 0 →
    r.bdi = g.bdi &&& 0x01 ∧ ∀ i < g.byteCnt.toNat, r.data i = g.data i)

def TlxAfuCredits.Received (g r : TlxAfuCredits) : Prop :=
  r.valid = validFlag g.valid ∧ (g.valid ≠ 0 →
    r.cmdInitialCredit = g.cmdInitialCredit ∧ r.cmdDataInitialCredit = g.cmdDataInitialCredit ∧
    r.respInitialCredit = g.respInitialCredit ∧ r.respDataInitialCredit = g.respDataInitialCredit ∧
    r.respCredit = g.respCredit ∧ r.cmdCredit = g.cmdCredit ∧ r.respDataCredit = g.respDataCredit ∧
    r.cmdDataCredit = g.cmdDataCredit ∧ r.cfgRespAck = g.cfgRespAck)

/-- The receiver `r` holds everything that a host frame carries of `e`. -/
structure HostReceived (e r : AfuEvent) : Prop where
  cfg : e.tlxCfg.Received r.tlxCfg
  cmd : e.tlxCmd.Received r.tlxCmd
  cmdData : e.tlxCmdData.Received r.tlxCmdData
  resp : e.tlxResp.Received r.tlxResp
  respData : e.tlxRespData.Received r.tlxRespData
  credits : e.tlxCredits.Received r.tlxCredits

/-- No group of the host is pending at the receiver. -/
structure HostGroupsClear (r : AfuEvent) : Prop where
  cfg : r.tlxCfg.valid = 0
  cmd : r.tlxCmd.valid = 0
  cmdData : r.tlxCmdData.valid = 0
  resp : r.tlxResp.valid = 0
  respData : r.tlxRespData.valid = 0
  credits : r.tlxCredits.valid = 0

/-- The length the AFU side works out: a clock alone is one byte, else the header says it. -/
def tlxFrameLength (rbuf : Buffer UInt8) : ℕ := if rbuf 0 = 0x40 then 1 else tlxEventsLength rbuf

/-! ## The frame that is sent -/

@[simp] theorem TlxCfgCmd.length_bytes (g : TlxCfgCmd) : g.bytes.length = 18 := by
  simp [TlxCfgCmd.bytes]

@[simp] theorem TlxAfuCmd.length_bytes (g : TlxAfuCmd) : g.bytes.length = 22 := by
  simp [TlxAfuCmd.bytes]

@[simp] theorem TlxAfuCmdData.length_bytes (g : TlxAfuCmdData) :
    g.bytes.length = g.byteCnt.toNat + 1 := by
  simp [TlxAfuCmdData.bytes]

@[simp] theorem TlxAfuResp.length_bytes (g : TlxAfuResp) : g.bytes.length = 7 := by
  simp [TlxAfuResp.bytes]

@[simp] theorem TlxAfuRespData.length_bytes (g : TlxAfuRespData) :
    g.bytes.length = g.byteCnt.toNat + 1 := by
  simp [TlxAfuRespData.bytes]

@[simp] theorem TlxAfuCredits.length_bytes (g : TlxAfuCredits) : g.bytes.length = 9 := rfl

theorem TlxCfgCmd.put_snd (g : TlxCfgCmd) (b : TxBuffer) :
    (g.put b).2 = b.group (groupBit g.valid 0x20) (groupBytes g.valid g.bytes) := by
  by_cases h : g.valid = 0 <;> simp [TlxCfgCmd.put, TxBuffer.group, groupBit, groupBytes, h]

theorem TlxAfuCmd.put_snd (g : TlxAfuCmd) (b : TxBuffer) :
    (g.put b).2 = b.group (groupBit g.valid 0x10) (groupBytes g.valid g.bytes) := by
  by_cases h : g.valid = 0 <;> simp [TlxAfuCmd.put, TxBuffer.group, groupBit, groupBytes, h]

theorem TlxAfuCmdData.put_snd (g : TlxAfuCmdData) (b : TxBuffer) :
    (g.put b).2 = { b.group (groupBit g.valid 0x08) (groupBytes g.valid g.bytes) with
      size₁ := if g.valid ≠ 0 then UInt8.ofNat (g.byteCnt.toNat >>> 8) &&& 0x0F else b.size₁
      size₂ := if g.valid ≠ 0 then UInt8.ofNat g.byteCnt.toNat else b.size₂ } := by
  by_cases h : g.valid = 0 <;> simp [TlxAfuCmdData.put, TxBuffer.group, groupBit, groupBytes, h]

theorem TlxAfuResp.put_snd (g : TlxAfuResp) (b : TxBuffer) :
    (g.put b).2 = b.group (groupBit g.valid 0x04) (groupBytes g.valid g.bytes) := by
  by_cases h : g.valid = 0 <;> simp [TlxAfuResp.put, TxBuffer.group, groupBit, groupBytes, h]

theorem TlxAfuRespData.put_snd (g : TlxAfuRespData) (b : TxBuffer) :
    (g.put b).2 = { b.group (groupBit g.valid 0x02) (groupBytes g.valid g.bytes) with
      size₃ := if g.valid ≠ 0 then UInt8.ofNat (g.byteCnt.toNat >>> 8) &&& 0x0F else b.size₃
      size₄ := if g.valid ≠ 0 then UInt8.ofNat g.byteCnt.toNat else b.size₄ } := by
  by_cases h : g.valid = 0 <;> simp [TlxAfuRespData.put, TxBuffer.group, groupBit, groupBytes, h]

theorem TlxAfuCredits.put_snd (g : TlxAfuCredits) (b : TxBuffer) :
    (g.put b).2 = b.group (groupBit g.valid 0x01) (groupBytes g.valid g.bytes) := by
  by_cases h : g.valid = 0 <;> simp [TlxAfuCredits.put, TxBuffer.group, groupBit, groupBytes, h]

/-- The transmit buffer of `tlx_signal_afu_model` when its groups are in place. -/
def hostBuffer (e : AfuEvent) : TxBuffer where
  head := 0x40 ||| groupBit e.tlxCfg.valid 0x20 ||| groupBit e.tlxCmd.valid 0x10 |||
    groupBit e.tlxCmdData.valid 0x08 ||| groupBit e.tlxResp.valid 0x04 |||
    groupBit e.tlxRespData.valid 0x02 ||| groupBit e.tlxCredits.valid 0x01
  size₁ := if e.tlxCmdData.valid ≠ 0 then UInt8.ofNat (e.tlxCmdData.byteCnt.toNat >>> 8) &&& 0x0F else 0
  size₂ := if e.tlxCmdData.valid ≠ 0 then UInt8.ofNat e.tlxCmdData.byteCnt.toNat else 0
  size₃ := if e.tlxRespData.valid ≠ 0 then UInt8.ofNat (e.tlxRespData.byteCnt.toNat >>> 8) &&& 0x0F else 0
  size₄ := if e.tlxRespData.valid ≠ 0 then UInt8.ofNat e.tlxRespData.byteCnt.toNat else 0
  body := groupBytes e.tlxCfg.valid e.tlxCfg.bytes ++ (groupBytes e.tlxCmd.valid e.tlxCmd.bytes ++
    (groupBytes e.tlxCmdData.valid e.tlxCmdData.bytes ++ (groupBytes e.tlxResp.valid e.tlxResp.bytes ++
    (groupBytes e.tlxRespData.valid e.tlxRespData.bytes ++
      groupBytes e.tlxCredits.valid e.tlxCredits.bytes))))

theorem tlxSignalAfuModel_frame (e : AfuEvent) (hclock : e.clock = 0) :
    (tlxSignalAfuModel e).2.2 = (hostBuffer e).frame := by
  unfold tlxSignalAfuModel
  rw [if_neg (not_not.mpr hclock)]
  simp only [TlxCfgCmd.put_snd, TlxAfuCmd.put_snd, TlxAfuCmdData.put_snd, TlxAfuResp.put_snd,
    TlxAfuRespData.put_snd, TlxAfuCredits.put_snd, TxBuffer.group, TxBuffer.start, List.nil_append,
    List.append_assoc]
  rfl

theorem hostHead_bits (a b c d f g : Bool) :
    let h : UInt8 := 0x40 ||| cond a 0x20 0 ||| cond b 0x10 0 ||| cond c 0x08 0 ||| cond d 0x04 0 |||
      cond f 0x02 0 ||| cond g 0x01 0
    (h &&& 0x20 ≠ 0 ↔ a = true) ∧ (h &&& 0x10 ≠ 0 ↔ b = true) ∧ (h &&& 0x08 ≠ 0 ↔ c = true) ∧
      (h &&& 0x04 ≠ 0 ↔ d = true) ∧ (h &&& 0x02 ≠ 0 ↔ f = true) ∧ (h &&& 0x01 ≠ 0 ↔ g = true) ∧
      h &&& 0x40 ≠ 0 ∧ (h = 0x40 ↔ (a || b || c || d || f || g) = false) := by
  revert a b c d f g
  decide

/-- A receive buffer that starts with the header of `e`'s frame: the six presence tests and the counts. -/
structure HostHeader (e : AfuEvent) (rbuf : Buffer UInt8) : Prop where
  cfg : present rbuf 0x20 ↔ e.tlxCfg.valid ≠ 0
  cmd : present rbuf 0x10 ↔ e.tlxCmd.valid ≠ 0
  cmdData : present rbuf 0x08 ↔ e.tlxCmdData.valid ≠ 0
  resp : present rbuf 0x04 ↔ e.tlxResp.valid ≠ 0
  respData : present rbuf 0x02 ↔ e.tlxRespData.valid ≠ 0
  credits : present rbuf 0x01 ↔ e.tlxCredits.valid ≠ 0
  cmdCnt : e.tlxCmdData.valid ≠ 0 → byteCnt rbuf 0x08 1 = e.tlxCmdData.byteCnt.toNat
  respCnt : e.tlxRespData.valid ≠ 0 → byteCnt rbuf 0x02 3 = e.tlxRespData.byteCnt.toNat

theorem hostHeader_of_holds (e : AfuEvent) (rbuf : Buffer UInt8)
    (hcmd : e.tlxCmdData.byteCnt.toNat ≤ 256) (hresp : e.tlxRespData.byteCnt.toNat ≤ 256)
    (h : rbuf.Holds 0 (hostBuffer e).header) : HostHeader e rbuf := by
  have hbits := hostHead_bits (decide (e.tlxCfg.valid ≠ 0)) (decide (e.tlxCmd.valid ≠ 0))
    (decide (e.tlxCmdData.valid ≠ 0)) (decide (e.tlxResp.valid ≠ 0))
    (decide (e.tlxRespData.valid ≠ 0)) (decide (e.tlxCredits.valid ≠ 0))
  simp only [← groupBit_eq_cond, decide_eq_true_eq] at hbits
  obtain ⟨h₁, h₂, h₃, h₄, h₅, h₆, -⟩ := hbits
  have hp := present_congr h
  simp only [TxBuffer.header, Buffer.holds_cons, hostBuffer] at h
  obtain ⟨-, hs₁, hs₂, hs₃, hs₄, -⟩ := h
  refine ⟨(hp 0x20).trans h₁, (hp 0x10).trans h₂, (hp 0x08).trans h₃, (hp 0x04).trans h₄,
    (hp 0x02).trans h₅, (hp 0x01).trans h₆, ?_, ?_⟩
  · intro hv
    rw [byteCnt, if_pos ((hp 0x08).trans h₃ |>.mpr hv)]
    rw [if_pos hv] at hs₁ hs₂
    exact loadBE_size rbuf 1 _ (by omega) hs₁ hs₂
  · intro hv
    rw [byteCnt, if_pos ((hp 0x02).trans h₅ |>.mpr hv)]
    rw [if_pos hv] at hs₃ hs₄
    exact loadBE_size rbuf 3 _ (by omega) hs₃ hs₄

/-! ## Parsing the groups -/

theorem TlxCfgCmd.get_received (g r : TlxCfgCmd) (rbuf : Buffer UInt8) (rbc : ℕ)
    (hp : present rbuf 0x20 ↔ g.valid ≠ 0) (h : rbuf.Holds rbc (groupBytes g.valid g.bytes)) :
    ∃ r', r.get rbuf rbc = (r', rbc + (groupBytes g.valid g.bytes).length) ∧ g.Received r' := by
  by_cases hv : g.valid = 0
  · refine ⟨{ r with valid := 0 }, ?_, by rw [hv]; rfl, fun h => absurd hv h⟩
    rw [groupBytes_of_eq hv, TlxCfgCmd.get, if_neg (fun h => hp.mp h hv)]
    rfl
  · rw [groupBytes_of_ne hv] at h ⊢
    simp only [TlxCfgCmd.bytes, List.cons_append, List.append_assoc, List.nil_append,
      Buffer.holds_cons, Buffer.holds_append, length_beBytes, Nat.add_assoc, Nat.reduceAdd] at h
    obtain ⟨hop, htag, hpa, ht, hpl, hbdi, hdata⟩ := h
    rw [TlxCfgCmd.get, if_pos (hp.mpr hv)]
    refine ⟨_, by rw [length_bytes], by simp [validFlag, hv], fun _ => ⟨hop, ?_, ?_, ht, hpl, hbdi, ?_⟩⟩
    · exact ofNat_loadBE_uint16 _ _ _ htag
    · exact ofNat_loadBE_uint64 _ _ _ hpa
    · exact Buffer.write_read_of_holds _ _ _ _ _ hdata

theorem TlxAfuCmd.get_received (g r : TlxAfuCmd) (rbuf : Buffer UInt8) (rbc : ℕ)
    (hp : present rbuf 0x10 ↔ g.valid ≠ 0) (h : rbuf.Holds rbc (groupBytes g.valid g.bytes)) :
    ∃ r', r.get rbuf rbc = (r', rbc + (groupBytes g.valid g.bytes).length) ∧ g.Received r' := by
  by_cases hv : g.valid = 0
  · refine ⟨{ r with valid := 0 }, ?_, by rw [hv]; rfl, fun h => absurd hv h⟩
    rw [groupBytes_of_eq hv, TlxAfuCmd.get, if_neg (fun h => hp.mp h hv)]
    rfl
  · rw [groupBytes_of_ne hv] at h ⊢
    simp only [TlxAfuCmd.bytes, List.cons_append, List.append_assoc, List.nil_append,
      Buffer.holds_cons, Buffer.holds_append, length_beBytes, Nat.add_assoc, Nat.reduceAdd] at h
    obtain ⟨hop, htag, hdl, hpl, hbe, hend, hpa⟩ := h
    rw [TlxAfuCmd.get, if_pos (hp.mpr hv)]
    refine ⟨_, by rw [length_bytes], by simp [validFlag, hv], fun _ => ⟨hop, ?_, hdl, hpl, ?_, hend, ?_⟩⟩
    · exact ofNat_loadBE_uint16 _ _ _ htag
    · exact ofNat_loadBE_uint64 _ _ _ hbe
    · exact ofNat_loadBE_uint64 _ _ _ hpa

theorem TlxAfuCmdData.get_received (g r : TlxAfuCmdData) (rbuf : Buffer UInt8) (cnt rbc : ℕ)
    (hp : present rbuf 0x08 ↔ g.valid ≠ 0) (hcnt : g.valid ≠ 0 → cnt = g.byteCnt.toNat)
    (h : rbuf.Holds rbc (groupBytes g.valid g.bytes)) :
    ∃ r', r.get rbuf cnt rbc = (r', rbc + (groupBytes g.valid g.bytes).length) ∧ g.Received r' := by
  by_cases hv : g.valid = 0
  · refine ⟨{ r with valid := 0 }, ?_, by rw [hv]; rfl, fun h => absurd hv h⟩
    rw [groupBytes_of_eq hv, TlxAfuCmdData.get, if_neg (fun h => hp.mp h hv)]
    rfl
  · rw [groupBytes_of_ne hv] at h ⊢
    rw [TlxAfuCmdData.bytes, Buffer.holds_cons] at h
    rw [TlxAfuCmdData.get, if_pos (hp.mpr hv), hcnt hv]
    refine ⟨_, by rw [length_bytes, Nat.add_assoc, Nat.add_comm 1], by simp [validFlag, hv],
      fun _ => ⟨h.1, ?_⟩⟩
    exact Buffer.write_read_of_holds _ _ _ _ _ h.2

theorem TlxAfuResp.get_received (g r : TlxAfuResp) (rbuf : Buffer UInt8) (rbc : ℕ)
    (hp : present rbuf 0x04 ↔ g.valid ≠ 0) (h : rbuf.Holds rbc (groupBytes g.valid g.bytes)) :
    ∃ r', r.get rbuf rbc = (r', rbc + (groupBytes g.valid g.bytes).length) ∧ g.Received r' := by
  by_cases hv : g.valid = 0
  · refine ⟨{ r with valid := 0 }, ?_, by rw [hv]; rfl, fun h => absurd hv h⟩
    rw [groupBytes_of_eq hv, TlxAfuResp.get, if_neg (fun h => hp.mp h hv)]
    rfl
  · rw [groupBytes_of_ne hv] at h ⊢
    simp only [TlxAfuResp.bytes, List.cons_append, Buffer.holds_cons, Buffer.holds_append,
      length_beBytes, Nat.add_assoc, Nat.reduceAdd] at h
    obtain ⟨hop, htag, hcode, hpg, hdl, hdp, -⟩ := h
    rw [TlxAfuResp.get, if_pos (hp.mpr hv)]
    refine ⟨_, by rw [length_bytes], by simp [validFlag, hv], fun _ => ⟨hop, ?_, hcode, hpg, hdl, hdp⟩⟩
    exact ofNat_loadBE_uint16 _ _ _ htag

theorem TlxAfuRespData.get_received (g r : TlxAfuRespData) (rbuf : Buffer UInt8) (cnt rbc : ℕ)
    (hp : present rbuf 0x02 ↔ g.valid ≠ 0) (hcnt : g.valid ≠ 0 → cnt = g.byteCnt.toNat)
    (h : rbuf.Holds rbc (groupBytes g.valid g.bytes)) :
    ∃ r', r.get rbuf cnt rbc = (r', rbc + (groupBytes g.valid g.bytes).length) ∧ g.Received r' := by
  by_cases hv : g.valid = 0
  · refine ⟨{ r with valid := 0 }, ?_, by rw [hv]; rfl, fun h => absurd hv h⟩
    rw [groupBytes_of_eq hv, TlxAfuRespData.get, if_neg (fun h => hp.mp h hv)]
    rfl
  · rw [groupBytes_of_ne hv] at h ⊢
    rw [TlxAfuRespData.bytes, Buffer.holds_cons] at h
    rw [TlxAfuRespData.get, if_pos (hp.mpr hv), hcnt hv]
    refine ⟨_, by rw [length_bytes, Nat.add_assoc, Nat.add_comm 1], by simp [validFlag, hv],
      fun _ => ⟨h.1, ?_⟩⟩
    exact Buffer.write_read_of_holds _ _ _ _ _ h.2

theorem TlxAfuCredits.get_received (g r : TlxAfuCredits) (rbuf : Buffer UInt8) (rbc : ℕ)
    (hp : present rbuf 0x01 ↔ g.valid ≠ 0) (h : rbuf.Holds rbc (groupBytes g.valid g.bytes)) :
    g.Received (r.get rbuf rbc) := by
  by_cases hv : g.valid = 0
  · simp [TlxAfuCredits.get, TlxAfuCredits.Received, hp, hv]
  · rw [groupBytes_of_ne hv] at h
    simp only [TlxAfuCredits.bytes, Buffer.holds_cons, Nat.add_assoc, Nat.reduceAdd] at h
    obtain ⟨h₀, h₁, h₂, h₃, h₄, h₅, h₆, h₇, h₈, -⟩ := h
    rw [TlxAfuCredits.get, if_pos (hp.mpr hv)]
    exact ⟨by simp [validFlag, hv], fun _ => ⟨h₀, h₁, h₂, h₃, h₄, h₅, h₆, h₇, h₈⟩⟩

theorem tlxEventsLength_eq (e : AfuEvent) (rbuf : Buffer UInt8) (h : HostHeader e rbuf) :
    tlxEventsLength rbuf = 5 + (hostBuffer e).body.length := by
  have hcfg : (if present rbuf 0x20 then 18 else 0) =
      (groupBytes e.tlxCfg.valid e.tlxCfg.bytes).length := by
    simp [length_groupBytes, h.cfg]
  have hcmd : (if present rbuf 0x10 then 22 else 0) =
      (groupBytes e.tlxCmd.valid e.tlxCmd.bytes).length := by
    simp [length_groupBytes, h.cmd]
  have hcmdData : (if present rbuf 0x08 then byteCnt rbuf 0x08 1 + 1 else 0) =
      (groupBytes e.tlxCmdData.valid e.tlxCmdData.bytes).length := by
    by_cases hv : e.tlxCmdData.valid = 0
    · simp [length_groupBytes, h.cmdData, hv]
    · simp [length_groupBytes, h.cmdData, h.cmdCnt hv, hv]
  have hresp : (if present rbuf 0x04 then 7 else 0) =
      (groupBytes e.tlxResp.valid e.tlxResp.bytes).length := by
    simp [length_groupBytes, h.resp]
  have hrespData : (if present rbuf 0x02 then byteCnt rbuf 0x02 3 + 1 else 0) =
      (groupBytes e.tlxRespData.valid e.tlxRespData.bytes).length := by
    by_cases hv : e.tlxRespData.valid = 0
    · simp [length_groupBytes, h.respData, hv]
    · simp [length_groupBytes, h.respData, h.respCnt hv, hv]
  have hcredits : (if present rbuf 0x01 then 9 else 0) =
      (groupBytes e.tlxCredits.valid e.tlxCredits.bytes).length := by
    simp [length_groupBytes, h.credits]
  unfold tlxEventsLength
  rw [hcfg, hcmd, hcmdData, hresp, hrespData, hcredits]
  simp only [hostBuffer, List.length_append]
  omega

theorem parseTlxEvents_received (e r : AfuEvent) (h : HostHeader e r.rbuf)
    (hbody : r.rbuf.Holds 5 (hostBuffer e).body) (cmdCnt respCnt : ℕ)
    (hcmdCnt : e.tlxCmdData.valid ≠ 0 → cmdCnt = e.tlxCmdData.byteCnt.toNat)
    (hrespCnt : e.tlxRespData.valid ≠ 0 → respCnt = e.tlxRespData.byteCnt.toNat) :
    HostReceived e (parseTlxEvents r cmdCnt respCnt) := by
  simp only [hostBuffer, Buffer.holds_append] at hbody
  obtain ⟨hcfg, hcmd, hcmdData, hresp, hrespData, hcredits⟩ := hbody
  obtain ⟨cfg, gcfg, rcfg⟩ := e.tlxCfg.get_received r.tlxCfg r.rbuf _ h.cfg hcfg
  obtain ⟨cmd, gcmd, rcmd⟩ := e.tlxCmd.get_received r.tlxCmd r.rbuf _ h.cmd hcmd
  obtain ⟨cmdData, gcmdData, rcmdData⟩ :=
    e.tlxCmdData.get_received r.tlxCmdData r.rbuf cmdCnt _ h.cmdData hcmdCnt hcmdData
  obtain ⟨resp, gresp, rresp⟩ := e.tlxResp.get_received r.tlxResp r.rbuf _ h.resp hresp
  obtain ⟨respData, grespData, rrespData⟩ :=
    e.tlxRespData.get_received r.tlxRespData r.rbuf respCnt _ h.respData hrespCnt hrespData
  have rcredits := e.tlxCredits.get_received r.tlxCredits r.rbuf _ h.credits hcredits
  simp only [parseTlxEvents, gcfg, gcmd, gcmdData, gresp, grespData]
  exact ⟨rcfg, rcmd, rcmdData, rresp, rrespData, rcredits⟩

/-! ## The round trip -/

theorem tlxSignalTlxModel_rbuf (e : AfuEvent) : (tlxSignalTlxModel e).2.1.rbuf = e.rbuf := by
  unfold tlxSignalTlxModel
  split <;> rfl

theorem tlxSignalTlxModel_rbp (e : AfuEvent) : (tlxSignalTlxModel e).2.1.rbp = e.rbp := by
  unfold tlxSignalTlxModel
  split <;> rfl

theorem tlxSignalTlxModel_clear (e : AfuEvent) (h : HostGroupsClear e) :
    HostGroupsClear (tlxSignalTlxModel e).2.1 := by
  unfold tlxSignalTlxModel
  split <;> exact ⟨h.cfg, h.cmd, h.cmdData, h.resp, h.respData, h.credits⟩

theorem hostBuffer_head_eq_iff (e : AfuEvent) :
    (hostBuffer e).head = 0x40 ↔ (hostBuffer e).body = [] := by
  have hbits := hostHead_bits (decide (e.tlxCfg.valid ≠ 0)) (decide (e.tlxCmd.valid ≠ 0))
    (decide (e.tlxCmdData.valid ≠ 0)) (decide (e.tlxResp.valid ≠ 0))
    (decide (e.tlxRespData.valid ≠ 0)) (decide (e.tlxCredits.valid ≠ 0))
  simp only [← groupBit_eq_cond] at hbits
  refine hbits.2.2.2.2.2.2.2.trans ?_
  simp [hostBuffer, groupBytes, TlxCfgCmd.bytes, TlxAfuCmd.bytes, TlxAfuCmdData.bytes,
    TlxAfuResp.bytes, TlxAfuRespData.bytes, TlxAfuCredits.bytes, and_assoc]

theorem hostBuffer_clock (e : AfuEvent) : (hostBuffer e).head &&& 0x40 ≠ 0 := by
  have hbits := hostHead_bits (decide (e.tlxCfg.valid ≠ 0)) (decide (e.tlxCmd.valid ≠ 0))
    (decide (e.tlxCmdData.valid ≠ 0)) (decide (e.tlxResp.valid ≠ 0))
    (decide (e.tlxRespData.valid ≠ 0)) (decide (e.tlxCredits.valid ≠ 0))
  simp only [← groupBit_eq_cond] at hbits
  exact hbits.2.2.2.2.2.2.1

theorem hostReceived_of_body_eq_nil (e r : AfuEvent) (hbody : (hostBuffer e).body = [])
    (hclear : HostGroupsClear r) : HostReceived e r := by
  simp [hostBuffer, groupBytes, TlxCfgCmd.bytes, TlxAfuCmd.bytes, TlxAfuCmdData.bytes,
    TlxAfuResp.bytes, TlxAfuRespData.bytes, TlxAfuCredits.bytes] at hbody
  obtain ⟨h₁, h₂, h₃, h₄, h₅, h₆⟩ := hbody
  refine ⟨?_, ?_, ?_, ?_, ?_, ?_⟩
  · exact ⟨by rw [h₁, hclear.cfg]; rfl, fun h => absurd h₁ h⟩
  · exact ⟨by rw [h₂, hclear.cmd]; rfl, fun h => absurd h₂ h⟩
  · exact ⟨by rw [h₃, hclear.cmdData]; rfl, fun h => absurd h₃ h⟩
  · exact ⟨by rw [h₄, hclear.resp]; rfl, fun h => absurd h₄ h⟩
  · exact ⟨by rw [h₅, hclear.respData]; rfl, fun h => absurd h₅ h⟩
  · exact ⟨by rw [h₆, hclear.credits]; rfl, fun h => absurd h₆ h⟩

theorem hostBuffer_body_length_lt (e : AfuEvent) : (hostBuffer e).body.length < 2 ^ 32 - 5 := by
  have h₁ := length_groupBytes_le e.tlxCfg.valid e.tlxCfg.bytes
  have h₂ := length_groupBytes_le e.tlxCmd.valid e.tlxCmd.bytes
  have h₃ := length_groupBytes_le e.tlxCmdData.valid e.tlxCmdData.bytes
  have h₄ := length_groupBytes_le e.tlxResp.valid e.tlxResp.bytes
  have h₅ := length_groupBytes_le e.tlxRespData.valid e.tlxRespData.bytes
  have h₆ := length_groupBytes_le e.tlxCredits.valid e.tlxCredits.bytes
  have hcmd := e.tlxCmdData.byteCnt.toNat_lt
  have hresp := e.tlxRespData.byteCnt.toNat_lt
  simp only [TlxCfgCmd.length_bytes, TlxAfuCmd.length_bytes, TlxAfuCmdData.length_bytes,
    TlxAfuResp.length_bytes, TlxAfuRespData.length_bytes, TlxAfuCredits.length_bytes] at *
  simp only [hostBuffer, List.length_append]
  omega

theorem tlxGetTlxEvents_clock {r r₁ r₂ : AfuEvent} {s s₁ s₂ : Socket}
    (h₁ : r.fillHead s = (none, r₁, s₁)) (h₂ : answerClock r₁ s₁ = (r₂, s₂))
    (hclock : r₂.rbuf 0 = 0x40) : tlxGetTlxEvents r s = (1, { r₂ with rbp := 0 }, s₂) := by
  unfold tlxGetTlxEvents
  simp only [h₁, h₂, if_pos hclock]

theorem tlxGetTlxEvents_groups {r r₁ r₂ r₃ r₄ : AfuEvent} {s s₁ s₂ s₃ s₄ : Socket} {rbc : ℕ}
    (h₁ : r.fillHead s = (none, r₁, s₁)) (h₂ : answerClock r₁ s₁ = (r₂, s₂))
    (hclock : ¬ r₂.rbuf 0 = 0x40) (h₃ : r₂.fill s₂ 4 = (none, r₃, s₃))
    (hrbc : tlxEventsLength r₃.rbuf = rbc)
    (h₄ : r₃.fill s₃ (remaining rbc r₃.rbp) = (none, r₄, s₄)) (hle : rbc ≤ r₄.rbp) :
    tlxGetTlxEvents r s =
      (1, parseTlxEvents r₄ (byteCnt r₃.rbuf 0x08 1) (byteCnt r₃.rbuf 0x02 3), s₄) := by
  unfold tlxGetTlxEvents
  simp only [h₁, h₂, if_neg hclock, h₃, hrbc, h₄, if_neg (Nat.not_lt.mpr hle)]

/-- The receiver when it has read the first byte of a host frame and answered its clock. -/
def AfuEvent.answered (r : AfuEvent) (head : UInt8) : ℤ × AfuEvent × List UInt8 :=
  tlxSignalTlxModel { r with rbuf := r.rbuf.write 0 [head], rbp := 1, clock := 1 }

/-- A host frame that arrives whole: its clock is answered, then its groups are parsed where they stand. -/
theorem tlxGetTlxEvents_whole (e r : AfuEvent) (s : Socket) (rest : List UInt8)
    (hclock : e.clock = 0) (hcmd : e.tlxCmdData.byteCnt.toNat ≤ 256)
    (hresp : e.tlxRespData.byteCnt.toNat ≤ 256) (hrbp : r.rbp = 0) (hall : s.arrivals = [])
    (hstream : s.stream = (tlxSignalAfuModel e).2.2 ++ rest) :
    let after := r.answered (hostBuffer e).head
    let s' := { s with stream := rest, sent := s.sent ++ after.2.2 }
    ((hostBuffer e).body = [] ∧ tlxGetTlxEvents r s = (1, { after.2.1 with rbp := 0 }, s')) ∨
    ∃ r' cmdCnt respCnt, r' = { after.2.1 with
        rbuf := r.rbuf.write 0 ((hostBuffer e).header ++ (hostBuffer e).body)
        rbp := 5 + (hostBuffer e).body.length } ∧
      (hostBuffer e).body ≠ [] ∧ tlxGetTlxEvents r s = (1, parseTlxEvents r' cmdCnt respCnt, s') ∧
      HostHeader e r'.rbuf ∧ r'.rbuf.Holds 5 (hostBuffer e).body ∧
      (e.tlxCmdData.valid ≠ 0 → cmdCnt = e.tlxCmdData.byteCnt.toNat) ∧
      (e.tlxRespData.valid ≠ 0 → respCnt = e.tlxRespData.byteCnt.toNat) := by
  rw [tlxSignalAfuModel_frame e hclock] at hstream
  have hone : r.rbuf.write 0 [(hostBuffer e).head] 0 = (hostBuffer e).head :=
    Buffer.write_at r.rbuf 0 [(hostBuffer e).head] 0 (by simp)
  have hanswer : ∀ stream, answerClock { r with rbuf := r.rbuf.write 0 [(hostBuffer e).head], rbp := 1 }
      { s with stream } = ((r.answered (hostBuffer e).head).2.1,
        { s with stream, sent := s.sent ++ (r.answered (hostBuffer e).head).2.2 }) := by
    intro stream
    have hpresent : present (r.rbuf.write 0 [(hostBuffer e).head]) 0x40 := by
      rw [present, hone]
      exact hostBuffer_clock e
    rw [answerClock, if_pos hpresent]
    rfl
  have hrbuf : (r.answered (hostBuffer e).head).2.1.rbuf = r.rbuf.write 0 [(hostBuffer e).head] :=
    tlxSignalTlxModel_rbuf _
  have hrbp₁ : (r.answered (hostBuffer e).head).2.1.rbp = 1 := tlxSignalTlxModel_rbp _
  have hx := (congrFun hrbuf 0).trans hone
  by_cases hbody : (hostBuffer e).body = []
  · -- nothing but a clock: one byte
    rw [TxBuffer.frame_of_eq _ hbody] at hstream
    have h₁ := r.fillHead_cons s (hostBuffer e).head rest hrbp hall hstream
    exact .inl ⟨hbody, tlxGetTlxEvents_clock h₁ (hanswer rest)
      (hx.trans ((hostBuffer_head_eq_iff e).mpr hbody))⟩
  · rw [TxBuffer.frame_of_ne _ hbody, List.append_assoc] at hstream
    have hne : ¬ (hostBuffer e).head = 0x40 := fun h => hbody ((hostBuffer_head_eq_iff e).mp h)
    have h₁ := r.fillHead_cons s (hostBuffer e).head
      ((hostBuffer e).header.tail ++ ((hostBuffer e).body ++ rest)) hrbp hall hstream
    have h₃ := AfuEvent.fill_sizes (r.answered (hostBuffer e).head).2.1
      { s with
        stream := (hostBuffer e).header.tail ++ ((hostBuffer e).body ++ rest)
        sent := s.sent ++ (r.answered (hostBuffer e).head).2.2 }
      (hostBuffer e) r.rbuf ((hostBuffer e).body ++ rest) hrbuf hrbp₁ hall rfl
    have h₄ := AfuEvent.fill_body
      { (r.answered (hostBuffer e).head).2.1 with rbuf := r.rbuf.write 0 (hostBuffer e).header, rbp := 5 }
      { s with
        stream := (hostBuffer e).body ++ rest
        sent := s.sent ++ (r.answered (hostBuffer e).head).2.2 } (hostBuffer e) r.rbuf rest
      rfl rfl hall rfl hbody (hostBuffer_body_length_lt e)
    have hshort : HostHeader e (r.rbuf.write 0 (hostBuffer e).header) :=
      hostHeader_of_holds e _ hcmd hresp (Buffer.holds_write _ _ _)
    have hholds := Buffer.holds_write r.rbuf 0 ((hostBuffer e).header ++ (hostBuffer e).body)
    rw [Buffer.holds_append] at hholds
    have hlong := hostHeader_of_holds e _ hcmd hresp hholds.1
    exact .inr ⟨_, _, _, rfl, hbody, tlxGetTlxEvents_groups h₁ (hanswer _)
      (fun h => hne (hx.symm.trans h)) h₃ (tlxEventsLength_eq e _ hshort) h₄ (Nat.le_refl _), hlong,
      hholds.2, hshort.cmdCnt, hshort.respCnt⟩

theorem tlxFrameLength_eq (e : AfuEvent) {rbuf : Buffer UInt8} (hclock : e.clock = 0)
    (h : HostHeader e rbuf) (hhead : rbuf 0 = (hostBuffer e).head) (hbody : (hostBuffer e).body ≠ []) :
    tlxFrameLength rbuf = (tlxSignalAfuModel e).2.2.length := by
  have hne : ¬ rbuf 0 = 0x40 := fun h => hbody ((hostBuffer_head_eq_iff e).mp (hhead.symm.trans h))
  rw [tlxSignalAfuModel_frame e hclock, TxBuffer.frame_of_ne _ hbody, tlxFrameLength, if_neg hne,
    tlxEventsLength_eq e _ h]
  simp

/-- Whatever groups are valid, a host frame that arrives whole leaves its receiver with those groups, is
as long as its header says, and is consumed exactly. -/
theorem hostFrame_roundTrip (e r : AfuEvent) (s : Socket) (rest : List UInt8)
    (hclock : e.clock = 0) (hcmd : e.tlxCmdData.byteCnt.toNat ≤ 256)
    (hresp : e.tlxRespData.byteCnt.toNat ≤ 256) (hrbp : r.rbp = 0) (hclear : HostGroupsClear r)
    (hall : s.arrivals = []) (hstream : s.stream = (tlxSignalAfuModel e).2.2 ++ rest) :
    ∃ r' s', tlxGetTlxEvents r s = (1, r', s') ∧ HostReceived e r' ∧
      tlxFrameLength r'.rbuf = (tlxSignalAfuModel e).2.2.length ∧ s'.stream = rest ∧ r'.rbp = 0 := by
  have hone : ∀ xs, r.rbuf.write 0 ((hostBuffer e).head :: xs) 0 = (hostBuffer e).head := by
    intro xs
    exact Buffer.write_at r.rbuf 0 ((hostBuffer e).head :: xs) 0 (by simp)
  rcases tlxGetTlxEvents_whole e r s rest hclock hcmd hresp hrbp hall hstream with
    ⟨hbody, hget⟩ | ⟨r', cmdCnt, respCnt, hr', hbody, hget, hheader, hholds, hcmdCnt, hrespCnt⟩
  · -- the groups stay clear
    have hc : HostGroupsClear (r.answered (hostBuffer e).head).2.1 :=
      tlxSignalTlxModel_clear _ ⟨hclear.cfg, hclear.cmd, hclear.cmdData, hclear.resp, hclear.respData,
        hclear.credits⟩
    refine ⟨_, _, hget, ?_, ?_, rfl, rfl⟩
    · exact hostReceived_of_body_eq_nil e _ hbody
        ⟨hc.cfg, hc.cmd, hc.cmdData, hc.resp, hc.respData, hc.credits⟩
    · have hx : (r.answered (hostBuffer e).head).2.1.rbuf 0 = 0x40 :=
        (congrFun (tlxSignalTlxModel_rbuf _) 0).trans
          ((hone []).trans ((hostBuffer_head_eq_iff e).mpr hbody))
      rw [tlxSignalAfuModel_frame e hclock, TxBuffer.frame_of_eq _ hbody]
      exact if_pos hx
  · refine ⟨_, _, hget, parseTlxEvents_received e r' hheader hholds _ _ hcmdCnt hrespCnt, ?_, rfl, rfl⟩
    subst hr'
    exact tlxFrameLength_eq e hclock hheader (hone ((hostBuffer e).header.tail ++ (hostBuffer e).body)) hbody

/-- A read response with its data and a returned command credit. -/
def sampleHostEvent : AfuEvent :=
  { tlxEventReset with
    tlxResp := ⟨1, 0x04, 0x0102, 0, 0, 1, 0, 0⟩
    tlxRespData := ⟨1, fun i => UInt8.ofNat i, 0, 64⟩
    tlxCredits := { tlxEventReset.tlxCredits with valid := 1, cmdCredit := 1 } }

theorem sampleHostEvent_roundTrip :
    ∃ r' s', tlxGetTlxEvents tlxEventReset (Socket.whole (tlxSignalAfuModel sampleHostEvent).2.2) =
        (1, r', s') ∧ HostReceived sampleHostEvent r' ∧
      tlxFrameLength r'.rbuf = (tlxSignalAfuModel sampleHostEvent).2.2.length ∧ s'.stream = [] ∧
      r'.rbp = 0 :=
  hostFrame_roundTrip sampleHostEvent tlxEventReset _ [] rfl (by decide) (by decide) rfl
    ⟨rfl, rfl, rfl, rfl, rfl, rfl⟩ rfl (by simp)

end Ocse
