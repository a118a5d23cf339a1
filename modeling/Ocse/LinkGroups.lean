import Ocse.LinkMessages

/-!
# What the operations of the link do to its messages

One lemma for each operation of either end: the handlers of the host put a message on a channel or read
what stands there, a frame carries all that is staged to the other end, and the driver takes and stages
messages while its clock is low.
-/

namespace Ocse

/-! ## The host stages -/

theorem length_dataSize {n : ℕ} (h : n ≤ 256) : (UInt16.ofNat n).toNat = n := by
  rw [UInt16.toNat_ofNat']
  omega

theorem HostOrder.cmdData_clear {e : AfuEvent} (h : HostOrder e) (hcmd : ¬e.tlxCmd.valid = 1) :
    e.tlxCmd.valid = 0 ∧ e.tlxCmdData.valid = 0 := by
  have hzero := h.cmd.resolve_right hcmd
  refine ⟨hzero, ?_⟩
  by_contra hdata
  exact (h.cmdData hdata).1 hzero

theorem HostOrder.respData_clear {e : AfuEvent} (h : HostOrder e) (hresp : e.tlxResp.valid = 0) :
    e.tlxRespData.valid = 0 := by
  by_contra hdata
  exact (h.respData hdata).1 hresp

theorem read_write_zero (b : Buffer UInt8) (xs : List UInt8) {n : ℕ} (hn : xs.length = n) :
    (b.write 0 xs).read 0 n = xs := by
  rw [← hn]
  exact Buffer.read_eq_of_holds (Buffer.holds_write b 0 xs)

/-- What a handler does to the groups of the host. -/
structure HostPuts (call : HostCall) (e : AfuEvent) (r : ℤ × AfuEvent) : Prop where
  order : HostOrder r.2
  puts : ∀ c, r.2.hostStaged c = e.hostStaged c ++ call.puts r.1 c

theorem HostPuts.refused {call : HostCall} {e : AfuEvent} (ho : HostOrder e) {rc : ℤ} (h : rc ≠ tlxSuccess) :
    HostPuts call e (rc, e) :=
  ⟨ho, fun c => by rw [HostCall.puts, if_neg h, List.append_nil]⟩

theorem HostOrder.congr {e e' : AfuEvent} (ho : HostOrder e) (hcfg : e'.tlxCfg = e.tlxCfg) (hcmd : e'.tlxCmd = e.tlxCmd)
    (hcmdData : e'.tlxCmdData = e.tlxCmdData) (hresp : e'.tlxResp = e.tlxResp)
    (hrespData : e'.tlxRespData = e.tlxRespData) :
    HostOrder e' ∧ ∀ c, e'.hostStaged c = e.hostStaged c := by
  refine ⟨?_, fun c => ?_⟩
  · constructor <;> simp only [hcfg, hcmd, hcmdData, hresp, hrespData]
    exacts [ho.cfg, ho.cmd, ho.resp, ho.cmdData, ho.respData, ho.cmdCnt, ho.respCnt]
  · cases c <;> simp only [AfuEvent.hostStaged, hcfg, hcmd, hcmdData, hresp, hrespData]

/-- A call that leaves the groups of the host alone and asks for no message. -/
theorem HostPuts.reads {call : HostCall} {e e' : AfuEvent} {rc : ℤ} (ho : HostOrder e) (hmessage : call.message = [])
    (hcfg : e'.tlxCfg = e.tlxCfg) (hcmd : e'.tlxCmd = e.tlxCmd) (hcmdData : e'.tlxCmdData = e.tlxCmdData)
    (hresp : e'.tlxResp = e.tlxResp) (hrespData : e'.tlxRespData = e.tlxRespData) :
    HostPuts call e (rc, e') := by
  have hputs : ∀ c, call.puts rc c = [] := by
    intro c
    rw [HostCall.puts, hmessage, List.filter_nil, ite_self]
  obtain ⟨horder, hstaged⟩ := ho.congr hcfg hcmd hcmdData hresp hrespData
  refine ⟨horder, fun c => ?_⟩
  rw [hputs, List.append_nil]
  exact hstaged c

/-- A call that puts a message on a channel where nothing stood, and changes nothing on the others. -/
theorem HostPuts.put {call : HostCall} {e e' : AfuEvent} {m : HostMessage} (ho : HostOrder e')
    (hmessage : call.message = [m]) (hfree : e.hostStaged m.channel = []) (hput : e'.hostStaged m.channel = [m])
    (hothers : ∀ c, c ≠ m.channel → e'.hostStaged c = e.hostStaged c) : HostPuts call e (tlxSuccess, e') := by
  refine ⟨ho, fun c => ?_⟩
  rw [HostCall.puts, if_pos rfl, hmessage]
  by_cases hc : c = m.channel
  · subst hc
    rw [hput, hfree, List.filter_cons_of_pos (by simp), List.filter_nil, List.nil_append]
  · rw [hothers c hc, List.filter_cons_of_neg (by simpa using Ne.symm hc), List.filter_nil, List.append_nil]

theorem AfuEvent.hostStaged_free (e : AfuEvent) :
    (e.tlxCfg.valid = 0 → e.hostStaged .cfg = []) ∧ (e.tlxCmd.valid = 0 → e.hostStaged .cmd = []) ∧
      (e.tlxResp.valid = 0 → e.hostStaged .resp = []) :=
  ⟨fun h => if_neg (not_not.mpr h), fun h => if_neg (not_not.mpr h), fun h => if_neg (not_not.mpr h)⟩

theorem AfuEvent.hostStaged_cfg {e : AfuEvent} {m : HostMessage} (h : e.tlxCfg.valid = 1) (hm : e.tlxCfg.message = m) :
    e.hostStaged .cfg = [m] := by
  subst hm
  exact if_pos (by rw [h]; decide)

theorem AfuEvent.hostStaged_cmd {e : AfuEvent} {data : List UInt8} (h : e.tlxCmd.valid = 1)
    (hdata : (if e.tlxCmdData.valid ≠ 0 then e.tlxCmdData.dataBus.read 0 e.tlxCmdData.byteCnt.toNat else []) = data) :
    e.hostStaged .cmd = [e.tlxCmd.message data] := by
  subst hdata
  exact if_pos (by rw [h]; decide)

theorem AfuEvent.hostStaged_resp {e : AfuEvent} {data : List UInt8} (h : e.tlxResp.valid = 1)
    (hdata : (if e.tlxRespData.valid ≠ 0 then e.tlxRespData.data.read 0 e.tlxRespData.byteCnt.toNat else []) = data) :
    e.hostStaged .resp = [e.tlxResp.message data] := by
  subst hdata
  exact if_pos (by rw [h]; decide)

theorem HostCall.handler_puts {call : HostCall} (h : call.isHandler = true) (e : AfuEvent) (ho : HostOrder e) :
    HostPuts call e (call.apply e) := by
  have hone : (1 : UInt8) ≠ 0 := by decide
  obtain ⟨hcfgFree, hcmdFree, hrespFree⟩ := e.hostStaged_free
  cases call with
  | signal | receive => exact absurd h (by simp [isHandler])
  | sendResp opcode afutag code pgSize dl dp addrTag =>
    change HostPuts _ e (tlxAfuSendResp e opcode afutag code pgSize dl dp addrTag)
    unfold tlxAfuSendResp
    split_ifs with hcredit hdouble
    · exact .refused ho (by decide)
    · exact .refused ho (by decide)
    · have hzero := not_not.mp hdouble
      have hdata := ho.respData_clear hzero
      refine .put ⟨ho.cfg, ho.cmd, .inr rfl, ho.cmdData, fun hd => absurd hdata hd, ho.cmdCnt, ho.respCnt⟩
        rfl (hrespFree hzero) (AfuEvent.hostStaged_resp rfl (if_neg (not_not.mpr hdata))) ?_
      rintro (_ | _ | _) hc
      exacts [rfl, rfl, absurd rfl hc]
  | sendRespAndData opcode afutag code pgSize dl dp addrTag bdi data =>
    have hsize : dlToSize dl ≤ 256 := of_decide_eq_true h
    have hcnt := length_dataSize hsize
    change HostPuts _ e (tlxAfuSendRespAndData e opcode afutag code pgSize dl dp addrTag bdi data)
    unfold tlxAfuSendRespAndData
    split_ifs with hcredit hdouble
    · exact .refused ho (by decide)
    · exact .refused ho (by decide)
    · have hzero := ho.resp.resolve_right (not_or.mp hdouble).1
      have hread := read_write_zero e.tlxRespData.data (data.read ((dp &&& 3).toNat * 64) (dlToSize dl))
        (Buffer.length_read _ _ _)
      refine .put ⟨ho.cfg, ho.cmd, .inr rfl, ho.cmdData, fun _ => ⟨hone, hcnt⟩, ho.cmdCnt, ?_⟩
        rfl (hrespFree hzero) (AfuEvent.hostStaged_resp rfl ((if_pos hone).trans ?_)) ?_
      · exact Nat.le_trans (Nat.le_of_eq hcnt) hsize
      · rw [hcnt, hread]
      · rintro (_ | _ | _) hc
        exacts [rfl, rfl, absurd rfl hc]
  | sendPostedCmd opcode afutag code =>
    change HostPuts _ e (tlxAfuSendPostedCmd e opcode afutag code)
    unfold tlxAfuSendPostedCmd
    split_ifs with hcredit hdouble
    · exact .refused ho (by decide)
    · exact .refused ho (by decide)
    · have hzero := not_not.mp hdouble
      have hdata := ho.respData_clear hzero
      refine .put ⟨ho.cfg, ho.cmd, .inr rfl, ho.cmdData, fun hd => absurd hdata hd, ho.cmdCnt, ho.respCnt⟩
        rfl (hrespFree hzero) (AfuEvent.hostStaged_resp rfl (if_neg (not_not.mpr hdata))) ?_
      rintro (_ | _ | _) hc
      exacts [rfl, rfl, absurd rfl hc]
  | sendCmd opcode capptag dl pl be cmdEnd pa =>
    change HostPuts _ e (tlxAfuSendCmd e opcode capptag dl pl be cmdEnd pa)
    unfold tlxAfuSendCmd
    split_ifs with hconfig hdouble
    · exact .refused ho (by decide)
    · exact .refused ho (by decide)
    · obtain ⟨hzero, hdata⟩ := ho.cmdData_clear hdouble
      refine .put ⟨ho.cfg, .inr rfl, ho.resp, fun hd => absurd hdata hd, ho.respData, ho.cmdCnt, ho.respCnt⟩
        rfl (hcmdFree hzero) (AfuEvent.hostStaged_cmd rfl (if_neg (not_not.mpr hdata))) ?_
      rintro (_ | _ | _) hc
      exacts [rfl, absurd rfl hc, rfl]
  | sendCmdAndData opcode capptag dl pl be cmdEnd pa dataBdi data =>
    have hsize : cmdDataSize dl ≤ 256 := of_decide_eq_true h
    have hcnt := length_dataSize hsize
    change HostPuts _ e (tlxAfuSendCmdAndData e opcode capptag dl pl be cmdEnd pa dataBdi data)
    unfold tlxAfuSendCmdAndData
    split_ifs with hconfig hdouble
    · exact .refused ho (by decide)
    · exact .refused ho (by decide)
    · obtain ⟨hzero, -⟩ := ho.cmdData_clear hdouble
      have hread := read_write_zero e.tlxCmdData.dataBus (data.read 0 (cmdDataSize dl)) (Buffer.length_read _ _ _)
      refine .put ⟨ho.cfg, .inr rfl, ho.resp, fun _ => ⟨hone, hcnt⟩, ho.respData, ?_, ho.respCnt⟩
        rfl (hcmdFree hzero) (AfuEvent.hostStaged_cmd rfl ((if_pos hone).trans ?_)) ?_
      · exact Nat.le_trans (Nat.le_of_eq hcnt) hsize
      · rw [hcnt, hread]
      · rintro (_ | _ | _) hc
        exacts [rfl, absurd rfl hc, rfl]
  | sendCfgCmdAndData opcode capptag pl t pa dataBdi data =>
    change HostPuts _ e (tlxAfuSendCfgCmdAndData e opcode capptag pl t pa dataBdi data)
    unfold tlxAfuSendCfgCmdAndData
    by_cases hdouble : e.tlxCfg.valid = 1
    · rw [if_pos hdouble]
      exact .refused ho (by decide)
    rw [if_neg hdouble]
    by_cases hconfig : opcode ≠ tlxCmdConfigRead ∧ opcode ≠ tlxCmdConfigWrite
    · rw [if_pos hconfig]
      exact .refused ho (by decide)
    rw [if_neg hconfig]
    by_cases hcredit : e.cfgTlxCreditsAvailable = 0
    · rw [if_pos hcredit]
      exact .refused ho (by decide)
    rw [if_neg hcredit]
    refine .put ⟨.inr rfl, ho.cmd, ho.resp, ho.cmdData, ho.respData, ho.cmdCnt, ho.respCnt⟩
      rfl (hcfgFree (ho.cfg.resolve_right hdouble)) (AfuEvent.hostStaged_cfg rfl ?_) ?_
    · by_cases hwrite : opcode = tlxCmdConfigWrite
      · -- the four bytes of a config write, or the text that fills them
        have hread := read_write_zero e.tlxCfg.dataBus (if pl = 2 then data.read 0 4 else cfgFill)
          (show _ = 4 by split <;> rfl)
        simp only [TlxCfgCmd.message, if_pos hwrite, hread]
      · simp only [TlxCfgCmd.message, if_neg hwrite]
    · rintro (_ | _ | _) hc
      exacts [absurd rfl hc, rfl, rfl]
  | readCmdAndData =>
    change HostPuts _ e (tlxSuccess, (afuTlxReadCmdAndData e).2)
    unfold afuTlxReadCmdAndData
    split_ifs <;> exact .reads ho rfl rfl rfl rfl rfl rfl
  | readCmdData =>
    change HostPuts _ e (tlxSuccess, (afuTlxReadCmdData e).2)
    unfold afuTlxReadCmdData
    split_ifs <;> exact .reads ho rfl rfl rfl rfl rfl rfl
  | readResp =>
    change HostPuts _ e (tlxSuccess, (afuTlxReadResp e).2)
    unfold afuTlxReadResp
    split_ifs <;> exact .reads ho rfl rfl rfl rfl rfl rfl
  | readRespData =>
    change HostPuts _ e (tlxSuccess, (afuTlxReadRespData e).2)
    unfold afuTlxReadRespData
    split_ifs <;> exact .reads ho rfl rfl rfl rfl rfl rfl
  | readCfgRespAndData requestedCapptag =>
    change HostPuts _ e (tlxSuccess, (afuTlxReadCfgRespAndData e requestedCapptag).2)
    unfold afuTlxReadCfgRespAndData
    split_ifs <;> exact .reads ho rfl rfl rfl rfl rfl rfl

/-! ## A frame to the AFU -/

theorem validFlag_ne {valid : UInt8} : validFlag valid ≠ 0 ↔ valid ≠ 0 := by
  unfold validFlag
  split_ifs with h
  · exact ⟨fun _ => h, fun _ => by decide⟩
  · exact ⟨fun hz => absurd rfl hz, fun hv => absurd hv h⟩

theorem and_mask_idem (x mask : UInt8) : x &&& mask &&& mask = x &&& mask := by
  rw [UInt8.and_assoc, UInt8.and_self]

theorem flatten_newLines (data : Buffer UInt8) (dl : UInt8) :
    (newLines data dl).flatten = data.read 0 (64 * newLineCnt dl) := by
  unfold newLines
  generalize newLineCnt dl = n
  induction n with
  | zero => rfl
  | succ n ih =>
    rw [List.range_succ, List.map_append, List.flatten_append, ih, Nat.mul_succ, Buffer.read_append, Nat.zero_add]
    simp

/-- The lines that a length of data makes up. -/
theorem newLineCnt_size (dl : UInt8) :
    (cmdDataSize dl ≤ 256 → 64 * newLineCnt dl = cmdDataSize dl ∧ dl &&& 0x03 = dl) ∧
      (dlToSize dl ≤ 256 → 64 * newLineCnt dl = dlToSize dl) := by
  constructor
  · rw [StageCall.cmdDataSize_le_iff]
    rintro (rfl | rfl | rfl | rfl) <;> decide
  · rw [StageCall.dlToSize_le_iff]
    rintro (rfl | rfl | rfl) <;> decide

theorem TlxCfgCmd.Received.message {g r : TlxCfgCmd} (h : g.Received r) (hv : g.valid ≠ 0) :
    r.message = g.message := by
  obtain ⟨hopcode, hcapptag, hpa, ht, hpl, hbdi, hdata⟩ := h.2 hv
  have hbus : r.dataBus.read 0 4 = g.dataBus.read 0 4 :=
    Buffer.read_congr fun i hi => by rw [Nat.zero_add]; exact hdata i hi
  simp only [TlxCfgCmd.message, hopcode, hcapptag, hpa, ht, hpl, hbdi, hbus, and_mask_idem]

theorem TlxAfuCmd.Received.message {g r : TlxAfuCmd} (h : g.Received r) (hv : g.valid ≠ 0) (data : List UInt8) :
    r.message data = g.message data := by
  obtain ⟨hopcode, hcapptag, hdl, hpl, hbe, hend, hpa⟩ := h.2 hv
  simp only [TlxAfuCmd.message, hopcode, hcapptag, hdl, hpl, hbe, hend, hpa, and_mask_idem]

theorem TlxAfuResp.Received.message {g r : TlxAfuResp} (h : g.Received r) (hv : g.valid ≠ 0) (data : List UInt8) :
    r.message data = g.message data := by
  obtain ⟨hopcode, hafutag, hcode, hpgSize, hdl, hdp⟩ := h.2 hv
  simp only [TlxAfuResp.message, hopcode, hafutag, hcode, hpgSize, hdl, hdp]

/-- What the driver drives of what it received is what the host staged. -/
theorem hostDriven_received {e r : AfuEvent} (ho : HostOrder e) (h : HostReceived e r) (c : HostChannel) :
    r.hostDriven c = e.hostStaged c := by
  have hread : ∀ {b b' : Buffer UInt8} {n : ℕ}, (∀ i < n, b i = b' i) → b.read 0 n = b'.read 0 n :=
    fun hsame => Buffer.read_congr fun i hi => by rw [Nat.zero_add]; exact hsame i hi
  cases c with
  | cfg =>
    simp only [AfuEvent.hostDriven, AfuEvent.hostStaged, h.cfg.1, validFlag_ne]
    split_ifs with hv
    · rw [h.cfg.message hv]
    · rfl
  | cmd =>
    simp only [AfuEvent.hostDriven, AfuEvent.hostStaged, h.cmd.1, h.cmdData.1, validFlag_ne]
    split_ifs with hv hd
    · -- the length says how many lines there are, and the count how many bytes came
      obtain ⟨-, hcnt⟩ := ho.cmdData hd
      obtain ⟨hsize, hdl⟩ := (newLineCnt_size e.tlxCmd.dl).1 (hcnt ▸ ho.cmdCnt)
      rw [h.cmd.message hv, flatten_newLines, (h.cmd.2 hv).2.2.1, hdl, hsize, ← hcnt, hread (h.cmdData.2 hd).2]
    · rw [h.cmd.message hv]
    · rfl
  | resp =>
    simp only [AfuEvent.hostDriven, AfuEvent.hostStaged, h.resp.1, h.respData.1, validFlag_ne]
    split_ifs with hv hd
    · obtain ⟨-, hcnt⟩ := ho.respData hd
      have hsize := (newLineCnt_size e.tlxResp.dl).2 (hcnt ▸ ho.respCnt)
      rw [h.resp.message hv, flatten_newLines, (h.resp.2 hv).2.2.2.2.1, hsize, ← hcnt, hread (h.respData.2 hd).2]
    · rw [h.resp.message hv]
    · rfl

/-- The bit of a channel in the first byte of a frame of the host. -/
def HostChannel.bit : HostChannel → UInt8
  | .cfg => 0x20
  | .cmd => 0x10
  | .resp => 0x04

/-- Of each channel a frame carries a message or none. -/
def carriedDown (frame : List UInt8) (c : HostChannel) : ℕ := if frame.headD 0 &&& c.bit ≠ 0 then 1 else 0

theorem length_ite_singleton {α : Type} {p : Prop} [Decidable p] (x : α) :
    (if p then [x] else []).length = if p then 1 else 0 := by
  split_ifs <;> rfl

theorem carriedDown_frame (e : AfuEvent) (hclock : e.clock = 0) (c : HostChannel) :
    carriedDown (tlxSignalAfuModel e).2.2 c = (e.hostStaged c).length := by
  have hbits := hostHead_bits (decide (e.tlxCfg.valid ≠ 0)) (decide (e.tlxCmd.valid ≠ 0))
    (decide (e.tlxCmdData.valid ≠ 0)) (decide (e.tlxResp.valid ≠ 0))
    (decide (e.tlxRespData.valid ≠ 0)) (decide (e.tlxCredits.valid ≠ 0))
  simp only [← groupBit_eq_cond, decide_eq_true_eq] at hbits
  unfold carriedDown
  rw [hostFrame_headD e hclock]
  cases c with
  | cfg => exact (if_congr hbits.1 rfl rfl).trans (length_ite_singleton _).symm
  | cmd => exact (if_congr hbits.2.1 rfl rfl).trans (length_ite_singleton _).symm
  | resp => exact (if_congr hbits.2.2.2.1 rfl rfl).trans (length_ite_singleton _).symm

/-- What a signal leaves at the host. -/
structure Signalled (e e' : AfuEvent) : Prop where
  clock : e'.clock = 1
  rbp : e'.rbp = e.rbp
  order : HostOrder e'
  staged : ∀ c, e'.hostStaged c = []
  standing : ∀ c, e'.afuStanding c = e.afuStanding c

theorem tlxSignalAfuModel_signalled (e : AfuEvent) (hclock : e.clock = 0) (ho : HostOrder e) :
    Signalled e (tlxSignalAfuModel e).2.1 := by
  have hcfg : (e.tlxCfg.put (TxBuffer.start 0x40)).1.valid = 0 := by
    unfold TlxCfgCmd.put
    split_ifs with h
    exacts [rfl, not_not.mp h]
  have hcmd : ∀ b, (e.tlxCmd.put b).1.valid = 0 := by
    intro b
    unfold TlxAfuCmd.put
    split_ifs with h
    exacts [rfl, not_not.mp h]
  have hcmdData : ∀ b, (e.tlxCmdData.put b).1.valid = 0 ∧ (e.tlxCmdData.put b).1.byteCnt = e.tlxCmdData.byteCnt := by
    intro b
    unfold TlxAfuCmdData.put
    split_ifs with h
    exacts [⟨rfl, rfl⟩, ⟨not_not.mp h, rfl⟩]
  have hresp : ∀ b, (e.tlxResp.put b).1.valid = 0 := by
    intro b
    unfold TlxAfuResp.put
    split_ifs with h
    exacts [rfl, not_not.mp h]
  have hrespData : ∀ b, (e.tlxRespData.put b).1.valid = 0 ∧
      (e.tlxRespData.put b).1.byteCnt = e.tlxRespData.byteCnt := by
    intro b
    unfold TlxAfuRespData.put
    split_ifs with h
    exacts [⟨rfl, rfl⟩, ⟨not_not.mp h, rfl⟩]
  unfold tlxSignalAfuModel
  rw [if_neg (not_not.mpr hclock)]
  refine ⟨rfl, rfl, ⟨.inl hcfg, .inl (hcmd _), .inl (hresp _), fun h => absurd (hcmdData _).1 h,
    fun h => absurd (hrespData _).1 h, ?_, ?_⟩, ?_, ?_⟩
  · exact Nat.le_trans (Nat.le_of_eq (congrArg UInt16.toNat (hcmdData _).2)) ho.cmdCnt
  · exact Nat.le_trans (Nat.le_of_eq (congrArg UInt16.toNat (hrespData _).2)) ho.respCnt
  · rintro (_ | _ | _)
    exacts [if_neg (not_not.mpr hcfg), if_neg (not_not.mpr (hcmd _)), if_neg (not_not.mpr (hresp _))]
  · rintro (_ | _ | _ | _ | _) <;> rfl

/-- What holds of the groups of the driver between two calls. -/
structure DriverOrder (r : AfuEvent) : Prop where
  rbp : r.rbp = 0
  cmdData : r.tlxCmdData.valid ≠ 0 → r.tlxCmd.valid ≠ 0
  respData : r.tlxRespData.valid ≠ 0 → r.tlxResp.valid ≠ 0
  returns : ReturnFlags r.afuCreditReq

theorem AfuEvent.hostDriven_eq_nil {r : AfuEvent} (h : ∀ c, r.hostDriven c = []) :
    r.tlxCfg.valid = 0 ∧ r.tlxCmd.valid = 0 ∧ r.tlxResp.valid = 0 := by
  have hzero : ∀ {valid : UInt8} {m : HostMessage}, (if valid ≠ 0 then [m] else []) = [] → valid = 0 := by
    intro valid m hnil
    by_contra hv
    rw [if_pos hv] at hnil
    exact List.cons_ne_nil _ _ hnil
  exact ⟨hzero (h .cfg), hzero (h .cmd), hzero (h .resp)⟩

/-- What the driver has when it has answered a clock: all that it staged is in the answer. -/
theorem tlxSignalTlxModel_answered (a : AfuEvent) (hclock : a.clock = 1) (hreturns : ReturnFlags a.afuCreditReq) :
    (∀ c, (tlxSignalTlxModel a).2.1.afuStanding c = []) ∧
      (∀ c, (tlxSignalTlxModel a).2.1.hostDriven c = a.hostDriven c) ∧
      ReturnFlags (tlxSignalTlxModel a).2.1.afuCreditReq := by
  unfold tlxSignalTlxModel
  rw [if_neg (not_not.mpr hclock)]
  refine ⟨?_, ?_, ?_⟩
  · rintro (_ | _ | _ | _ | _) <;> apply if_neg <;> rw [not_not]
    · unfold AfuTlxCmd.put
      split_ifs with h
      exacts [rfl, not_not.mp h]
    · unfold AfuTlxCdata.put
      split_ifs with h
      exacts [rfl, not_not.mp h]
    · unfold AfuTlxResp.put
      split_ifs with h
      exacts [rfl, not_not.mp h]
    · unfold AfuTlxRdata.put
      split_ifs with h
      exacts [rfl, not_not.mp h]
    · unfold CfgTlxResp.put
      split_ifs with h
      exacts [rfl, not_not.mp h]
  · rintro (_ | _ | _) <;> rfl
  · unfold AfuTlxCreditReq.put
    split_ifs with h
    exacts [⟨.inl rfl, .inl rfl, .inl rfl⟩, hreturns]

theorem dropReturns_flags {g : AfuTlxCreditReq} (h : ReturnFlags g) (rbuf : Buffer UInt8) :
    ReturnFlags (g.dropReturns rbuf) := by
  constructor <;> simp only [AfuTlxCreditReq.dropReturns] <;> split_ifs
  exacts [h.resp, .inl rfl, h.cmd, .inl rfl, h.cfg, .inl rfl]

/-- What a frame brings, and what goes out with the answer to it. -/
structure Carried (e r r' answer : AfuEvent) : Prop where
  order : DriverOrder r'
  driven : ∀ c, r'.hostDriven c = e.hostStaged c
  taken : ∀ c, r'.afuStanding c = []
  clock : answer.clock = 1
  returns : ReturnFlags answer.afuCreditReq
  answered : ∀ c, answer.afuStanding c = r.afuStanding c

theorem tlxGetTlxEvents_carries (e r : AfuEvent) (hclock : e.clock = 0) (ho : HostOrder e) (hr : DriverOrder r)
    (hidle : ∀ c, r.hostDriven c = []) :
    ∃ r' answer s, tlxGetTlxEvents r (Socket.whole (tlxSignalAfuModel e).2.2) = (1, r', s) ∧ s.stream = [] ∧
      s.sent = (tlxSignalTlxModel answer).2.2 ∧ Carried e r r' answer := by
  set answer : AfuEvent := { r with rbuf := r.rbuf.write 0 [(hostBuffer e).head], rbp := 1, clock := 1 }
  have hstanding : ∀ c, answer.afuStanding c = r.afuStanding c := by rintro (_ | _ | _ | _ | _) <;> rfl
  obtain ⟨htaken, hsame, hreturns⟩ := tlxSignalTlxModel_answered answer rfl hr.returns
  obtain ⟨hcfg, hcmd, hresp⟩ := AfuEvent.hostDriven_eq_nil hidle
  rcases tlxGetTlxEvents_whole e r (Socket.whole (tlxSignalAfuModel e).2.2) [] hclock ho.cmdCnt ho.respCnt hr.rbp
    rfl (by simp) with ⟨hbody, hget⟩ | ⟨r', cmdCnt, respCnt, hr', hbody, hget, hheader, hbytes, hcmdCnt, hrespCnt⟩
  · -- a clock alone: nothing was staged, and nothing is driven
    refine ⟨_, answer, _, hget, rfl, rfl, ⟨rfl, ?_, ?_, hreturns⟩, ?_, ?_, rfl, hr.returns, hstanding⟩
    · exact fun hd => absurd hcmd (hr.cmdData hd)
    · exact fun hd => absurd hresp (hr.respData hd)
    · have hnone : e.tlxCfg.valid = 0 ∧ e.tlxCmd.valid = 0 ∧ e.tlxResp.valid = 0 := by
        simp [hostBuffer, groupBytes, TlxCfgCmd.bytes, TlxAfuCmd.bytes, TlxAfuCmdData.bytes, TlxAfuResp.bytes,
          TlxAfuRespData.bytes, TlxAfuCredits.bytes] at hbody
        exact ⟨hbody.1, hbody.2.1, hbody.2.2.2.1⟩
      obtain ⟨hcfgFree, hcmdFree, hrespFree⟩ := e.hostStaged_free
      rintro (_ | _ | _)
      · exact (if_neg (not_not.mpr hcfg)).trans (hcfgFree hnone.1).symm
      · exact (if_neg (not_not.mpr hcmd)).trans (hcmdFree hnone.2.1).symm
      · exact (if_neg (not_not.mpr hresp)).trans (hrespFree hnone.2.2).symm
    · intro c
      rw [← htaken c]
      cases c <;> rfl
  · have hreceived := parseTlxEvents_received e r' hheader hbytes cmdCnt respCnt hcmdCnt hrespCnt
    refine ⟨_, answer, _, hget, rfl, rfl, ⟨rfl, ?_, ?_, ?_⟩, hostDriven_received ho hreceived, ?_, rfl,
      hr.returns, hstanding⟩
    · rw [hreceived.cmdData.1, hreceived.cmd.1, validFlag_ne, validFlag_ne]
      exact fun hd => (ho.cmdData hd).1
    · rw [hreceived.respData.1, hreceived.resp.1, validFlag_ne, validFlag_ne]
      exact fun hd => (ho.respData hd).1
    · rw [hr']
      exact dropReturns_flags hreturns _
    · intro c
      rw [hr', ← htaken c]
      cases c <;> rfl

/-! ## A frame to the host -/

theorem AfuTlxCmd.Received.message {g r : AfuTlxCmd} (h : g.Received r) (hv : g.valid ≠ 0) : r.message = g.message := by
  obtain ⟨hopcode, hactag, hstream, hea, hafutag, hdl, hpl, hbe, hflag, hendian, hbdf, hpasid, hpgSize⟩ := h.2 hv
  have hread : r.eaOrObj.read 0 9 = g.eaOrObj.read 0 9 :=
    Buffer.read_congr fun i hi => by rw [Nat.zero_add]; exact hea i hi
  simp only [AfuTlxCmd.message, hopcode, hactag, hstream, hread, hafutag, hdl, hpl, hbe, hflag, hendian, hbdf,
    hpasid, hpgSize, and_mask_idem]

theorem AfuTlxCdata.Received.message {g r : AfuTlxCdata} (h : g.Received r) (hv : g.valid ≠ 0) :
    r.message = g.message := by
  have hread : r.bus.read 0 64 = g.bus.read 0 64 :=
    Buffer.read_congr fun i hi => by rw [Nat.zero_add]; exact (h.2 hv).2 i hi
  simp only [AfuTlxCdata.message, (h.2 hv).1, hread, and_mask_idem]

theorem AfuTlxResp.Received.message {g r : AfuTlxResp} (h : g.Received r) (hv : g.valid ≠ 0) :
    r.message = g.message := by
  obtain ⟨hopcode, hdl, hcapptag, hdp, hcode⟩ := h.2 hv
  simp only [AfuTlxResp.message, hopcode, hdl, hcapptag, hdp, hcode, and_mask_idem]

theorem AfuTlxRdata.Received.message {g r : AfuTlxRdata} (h : g.Received r) (hv : g.valid ≠ 0) :
    r.message = g.message := by
  have hread : r.bus.read 0 64 = g.bus.read 0 64 :=
    Buffer.read_congr fun i hi => by rw [Nat.zero_add]; exact (h.2 hv).2 i hi
  simp only [AfuTlxRdata.message, (h.2 hv).1, hread, and_mask_idem]

theorem CfgTlxResp.Received.message {g r : CfgTlxResp} (h : g.Received r) (hv : g.valid ≠ 0) :
    r.message = g.message := by
  obtain ⟨hopcode, hcapptag, hcode, hbdi, hdata⟩ := h.2 hv
  have hread : r.rdataBus.read 0 4 = g.rdataBus.read 0 4 :=
    Buffer.read_congr fun i hi => by rw [Nat.zero_add]; exact hdata i hi
  simp only [CfgTlxResp.message, hopcode, hcapptag, hcode, hbdi, hread, and_mask_idem]

theorem standing_received {valid valid' : UInt8} {m m' : AfuMessage} (hvalid : valid' = validFlag valid)
    (hm : valid ≠ 0 → m' = m) : (if valid' ≠ 0 then [m'] else []) = if valid ≠ 0 then [m] else [] := by
  simp only [hvalid, validFlag_ne]
  split_ifs with hv
  · rw [hm hv]
  · rfl

theorem afuStanding_received {e r : AfuEvent} (h : AfuReceived e r) (c : AfuChannel) :
    r.afuStanding c = e.afuStanding c := by
  cases c with
  | cmd => exact standing_received h.cmd.1 h.cmd.message
  | cdata => exact standing_received h.cdata.1 h.cdata.message
  | resp => exact standing_received h.resp.1 h.resp.message
  | rdata => exact standing_received h.rdata.1 h.rdata.message
  | cfgResp => exact standing_received h.cfgResp.1 h.cfgResp.message

def AfuChannel.bit : AfuChannel → UInt8
  | .cmd => 0x02
  | .cdata => 0x04
  | .resp => 0x08
  | .rdata => 0x20
  | .cfgResp => 0x40

def carriedUp (frame : List UInt8) (c : AfuChannel) : ℕ := if frame.headD 0 &&& c.bit ≠ 0 then 1 else 0

theorem carriedUp_frame (a : AfuEvent) (hclock : a.clock = 1) (c : AfuChannel) :
    carriedUp (tlxSignalTlxModel a).2.2 c = (a.afuStanding c).length := by
  have hholds := Buffer.holds_write (Buffer.const 0) 0 (afuBuffer a).header
  have hheader := afuHeader_of_holds a _ hholds
  unfold carriedUp
  rw [afuFrame_headD a hclock]
  cases c with
  | cmd => exact (if_congr ((present_congr hholds _).symm.trans hheader.cmd) rfl rfl).trans (length_ite_singleton _).symm
  | cdata => exact (if_congr ((present_congr hholds _).symm.trans hheader.cdata) rfl rfl).trans (length_ite_singleton _).symm
  | resp => exact (if_congr ((present_congr hholds _).symm.trans hheader.resp) rfl rfl).trans (length_ite_singleton _).symm
  | rdata => exact (if_congr ((present_congr hholds _).symm.trans hheader.rdata) rfl rfl).trans (length_ite_singleton _).symm
  | cfgResp =>
    exact (if_congr ((present_congr hholds _).symm.trans hheader.cfgResp) rfl rfl).trans (length_ite_singleton _).symm

/-- What a frame of the AFU leaves at the host. A clock alone leaves what was not read. -/
structure HostHears (a r r' : AfuEvent) : Prop where
  clock : r'.clock = 0
  rbp : r'.rbp = 0
  order : HostOrder r'
  staged : ∀ c, r'.hostStaged c = r.hostStaged c
  alone : (tlxSignalTlxModel a).2.2 = [0x10] → ∀ c, a.afuStanding c = [] ∧ r'.afuStanding c = r.afuStanding c
  groups : (tlxSignalTlxModel a).2.2 ≠ [0x10] → ∀ c, r'.afuStanding c = a.afuStanding c

theorem lowerClock_groups (e : AfuEvent) :
    ((lowerClock e).tlxCfg = e.tlxCfg ∧ (lowerClock e).tlxCmd = e.tlxCmd ∧ (lowerClock e).tlxCmdData = e.tlxCmdData ∧
      (lowerClock e).tlxResp = e.tlxResp ∧ (lowerClock e).tlxRespData = e.tlxRespData) ∧
    ∀ c, (lowerClock e).afuStanding c = e.afuStanding c := by
  unfold lowerClock
  split_ifs
  · exact ⟨⟨rfl, rfl, rfl, rfl, rfl⟩, by rintro (_ | _ | _ | _ | _) <;> rfl⟩
  · exact ⟨⟨rfl, rfl, rfl, rfl, rfl⟩, fun _ => rfl⟩

theorem parseAfuEvents_host (e : AfuEvent) (cmdCnt : ℕ) :
    (parseAfuEvents e cmdCnt).tlxCfg = e.tlxCfg ∧ (parseAfuEvents e cmdCnt).tlxCmd = e.tlxCmd ∧
      (parseAfuEvents e cmdCnt).tlxCmdData = e.tlxCmdData ∧ (parseAfuEvents e cmdCnt).tlxResp = e.tlxResp ∧
      (parseAfuEvents e cmdCnt).tlxRespData = e.tlxRespData ∧ (parseAfuEvents e cmdCnt).clock = e.clock := by
  simp only [parseAfuEvents]
  unfold AfuEvent.countReturns
  split_ifs <;> exact ⟨rfl, rfl, rfl, rfl, rfl, rfl⟩

theorem tlxGetAfuEvents_carries (a r : AfuEvent) (hclock : a.clock = 1) (hreturns : ReturnFlags a.afuCreditReq)
    (hrbp : r.rbp = 0) (ho : HostOrder r) :
    ∃ r', tlxGetAfuEvents r (Socket.whole (tlxSignalTlxModel a).2.2) = (1, r', Socket.whole []) ∧ HostHears a r r' := by
  obtain ⟨-, -, -, hclock₁⟩ := AfuEvent.clocked_kept a r
  obtain ⟨⟨hcfg, hcmd, hcmdData, hresp, hrespData⟩, hstanding⟩ :=
    lowerClock_groups { r with rbuf := r.rbuf.write 0 [(afuBuffer a).head], rbp := 1 }
  rcases tlxGetAfuEvents_whole a r (Socket.whole (tlxSignalTlxModel a).2.2) [] hclock hrbp rfl (by simp) with
    ⟨hbody, hget⟩ | ⟨r', cmdCnt, hr', hbody, hget, hheader, hholds, hcmdCnt⟩
  · have hframe : (tlxSignalTlxModel a).2.2 = [0x10] := by
      rw [tlxSignalTlxModel_frame a hclock, TxBuffer.frame_of_eq _ hbody, (afuBuffer_head_eq_iff a).mpr hbody]
    have hkept : HostOrder { r.clocked (afuBuffer a).head with rbp := 0 } ∧ _ :=
      ho.congr hcfg hcmd hcmdData hresp hrespData
    obtain ⟨horder, hstaged⟩ := hkept
    refine ⟨_, hget, hclock₁, rfl, horder, hstaged, fun _ c => ⟨?_, ?_⟩, fun hne => absurd hframe hne⟩
    · apply List.eq_nil_of_length_eq_zero
      rw [← carriedUp_frame a hclock, hframe]
      cases c <;> rfl
    · have hsame : (r.clocked (afuBuffer a).head).afuStanding c = r.afuStanding c := by
        rw [AfuEvent.clocked, hstanding]
        cases c <;> rfl
      rw [← hsame]
      cases c <;> rfl
  · have hframe : (tlxSignalTlxModel a).2.2 ≠ [0x10] := by
      rw [tlxSignalTlxModel_frame a hclock, TxBuffer.frame_of_ne _ hbody]
      simp [TxBuffer.header]
    obtain ⟨hreceived, -, -, hrbp', -⟩ := parseAfuEvents_received a r' hheader hholds hreturns cmdCnt hcmdCnt
    obtain ⟨hcfg', hcmd', hcmdData', hresp', hrespData', hclock'⟩ := parseAfuEvents_host r' cmdCnt
    subst hr'
    obtain ⟨horder, hstaged⟩ := ho.congr (hcfg'.trans hcfg) (hcmd'.trans hcmd) (hcmdData'.trans hcmdData)
      (hresp'.trans hresp) (hrespData'.trans hrespData)
    exact ⟨_, hget, hclock'.trans hclock₁, hrbp', horder, hstaged, fun heq => absurd heq hframe,
      fun _ c => afuStanding_received hreceived c⟩

/-! ## The host reads -/

/-- What a handler takes of the messages that stand at the host. -/
def Reads (read : List AfuMessage) (e e' : AfuEvent) : Prop :=
  ∀ c, e.afuStanding c = read.filter (fun m => m.channel = c) ++ e'.afuStanding c

theorem Reads.refl (e : AfuEvent) : Reads [] e e := fun _ => rfl

theorem Reads.same {e e' : AfuEvent} (hcmd : e'.afuCmd = e.afuCmd) (hcdata : e'.afuCdata = e.afuCdata)
    (hresp : e'.afuResp = e.afuResp) (hrdata : e'.afuRdata = e.afuRdata) (hcfgResp : e'.cfgResp = e.cfgResp) :
    Reads [] e e' := by
  intro c
  rw [List.filter_nil, List.nil_append]
  cases c <;> simp only [AfuEvent.afuStanding, hcmd, hcdata, hresp, hrdata, hcfgResp]

theorem HostCall.handler_reads {call : HostCall} (h : call.isHandler = true) (e : AfuEvent) :
    Reads (call.reads e) e (call.apply e).2 := by
  cases call with
  | signal | receive => exact absurd h (by simp [isHandler])
  | sendResp opcode afutag code pgSize dl dp addrTag =>
    change Reads [] e (tlxAfuSendResp e opcode afutag code pgSize dl dp addrTag).2
    unfold tlxAfuSendResp
    split_ifs <;> exact .same rfl rfl rfl rfl rfl
  | sendRespAndData opcode afutag code pgSize dl dp addrTag bdi data =>
    change Reads [] e (tlxAfuSendRespAndData e opcode afutag code pgSize dl dp addrTag bdi data).2
    unfold tlxAfuSendRespAndData
    split_ifs <;> exact .same rfl rfl rfl rfl rfl
  | sendPostedCmd opcode afutag code =>
    change Reads [] e (tlxAfuSendPostedCmd e opcode afutag code).2
    unfold tlxAfuSendPostedCmd
    split_ifs <;> exact .same rfl rfl rfl rfl rfl
  | sendCmd opcode capptag dl pl be cmdEnd pa =>
    change Reads [] e (tlxAfuSendCmd e opcode capptag dl pl be cmdEnd pa).2
    unfold tlxAfuSendCmd
    split_ifs <;> exact .same rfl rfl rfl rfl rfl
  | sendCmdAndData opcode capptag dl pl be cmdEnd pa dataBdi data =>
    change Reads [] e (tlxAfuSendCmdAndData e opcode capptag dl pl be cmdEnd pa dataBdi data).2
    unfold tlxAfuSendCmdAndData
    split_ifs <;> exact .same rfl rfl rfl rfl rfl
  | sendCfgCmdAndData opcode capptag pl t pa dataBdi data =>
    change Reads [] e (tlxAfuSendCfgCmdAndData e opcode capptag pl t pa dataBdi data).2
    unfold tlxAfuSendCfgCmdAndData
    split_ifs <;> exact .same rfl rfl rfl rfl rfl
  | readCmdAndData =>
    change Reads (HostCall.reads .readCmdAndData e) e (afuTlxReadCmdAndData e).2
    unfold HostCall.reads afuTlxReadCmdAndData
    by_cases hcmd : e.afuCmd.valid = 0
    · simp only [if_pos hcmd]
      exact .refl e
    · simp only [if_neg hcmd]
      by_cases hdata : e.afuCdata.valid = 0 <;> rintro (_ | _ | _ | _ | _) <;>
        simp [AfuEvent.afuStanding, standing, hcmd, hdata]
  | readCmdData =>
    change Reads (HostCall.reads .readCmdData e) e (afuTlxReadCmdData e).2
    unfold HostCall.reads afuTlxReadCmdData
    by_cases hdata : e.afuCdata.valid = 0 <;> rintro (_ | _ | _ | _ | _) <;>
      simp [AfuEvent.afuStanding, standing, hdata]
  | readResp =>
    change Reads (HostCall.reads .readResp e) e (afuTlxReadResp e).2
    unfold HostCall.reads afuTlxReadResp
    by_cases hresp : e.afuResp.valid = 0 <;> rintro (_ | _ | _ | _ | _) <;>
      simp [AfuEvent.afuStanding, hresp]
  | readRespData =>
    change Reads (HostCall.reads .readRespData e) e (afuTlxReadRespData e).2
    unfold HostCall.reads afuTlxReadRespData
    by_cases hrdata : e.afuRdata.valid = 0 <;> rintro (_ | _ | _ | _ | _) <;>
      simp [AfuEvent.afuStanding, AfuTlxRdata.message, AfuMessage.channel, hrdata]
  | readCfgRespAndData requestedCapptag =>
    change Reads (HostCall.reads (.readCfgRespAndData requestedCapptag) e) e
      (afuTlxReadCfgRespAndData e requestedCapptag).2
    unfold HostCall.reads afuTlxReadCfgRespAndData
    by_cases hresp : e.cfgResp.valid = 0
    · simp only [if_pos hresp]
      exact .refl e
    · by_cases htag : e.cfgResp.capptag = requestedCapptag <;> rintro (_ | _ | _ | _ | _) <;>
        simp [AfuEvent.afuStanding, hresp, htag]

theorem afuTlxReadRespAndData_reads (e : AfuEvent) : Reads (respAndDataRead e) e (afuTlxReadRespAndData e).2 := by
  unfold respAndDataRead afuTlxReadRespAndData
  by_cases hresp : e.afuResp.valid = 0
  · simp only [if_pos hresp]
    exact .refl e
  · simp only [if_neg hresp]
    by_cases hdata : e.afuRdata.valid = 0 <;> rintro (_ | _ | _ | _ | _) <;>
      simp [AfuEvent.afuStanding, standing, hresp, hdata]

/-! ## The driver stages -/

/-- The channels whose groups a call of the driver writes. -/
def StageCall.channels : StageCall → List AfuChannel
  | .afuSendResp .. => [.resp]
  | .afuSendRespData .. | .afuSendRespAndData .. => [.resp, .rdata]
  | .afuCfgSendRespAndData .. => [.cfgResp]
  | .afuSendCmd _ => [.cmd]
  | .afuSendCmdData .. => [.cdata]
  | .afuSendCmdAndData .. => [.cmd, .cdata]
  | _ => []

theorem StageCall.channel_mem {call : StageCall} {m : AfuMessage} (hm : m ∈ call.messages) :
    m.channel ∈ call.channels := by
  cases call with
  | tlxSendResp | tlxSendRespAndData | tlxSendPostedCmd | tlxSendCmd | tlxSendCmdAndData | tlxSendCfgCmdAndData =>
    cases hm
  | afuSendResp | afuSendRespData | afuCfgSendRespAndData | afuSendCmd | afuSendCmdData =>
    rw [List.mem_singleton.mp hm]
    simp [channels]
  | afuSendRespAndData | afuSendCmdAndData =>
    rcases List.mem_pair.mp hm with rfl | rfl <;> simp [channels]

theorem StageCall.puts_eq_nil {call : StageCall} {c : AfuChannel} (h : c ∉ call.channels) (rc : ℤ) :
    call.puts rc c = [] := by
  unfold puts
  split_ifs
  · apply List.filter_eq_nil_iff.mpr
    intro m hm hc
    exact h (of_decide_eq_true hc ▸ channel_mem hm)
  · rfl

/-- What a call of the driver does to the groups of its event. -/
structure DriverPuts (call : StageCall) (e : AfuEvent) (r : ℤ × AfuEvent) : Prop where
  order : DriverOrder r.2
  driven : ∀ c, r.2.hostDriven c = e.hostDriven c
  puts : ∀ c, r.2.afuStanding c = e.afuStanding c ++ call.puts r.1 c

theorem DriverPuts.refused {call : StageCall} {e : AfuEvent} (hr : DriverOrder e) {rc : ℤ} (h : rc ≠ tlxSuccess) :
    DriverPuts call e (rc, e) :=
  ⟨hr, fun _ => rfl, fun c => by rw [StageCall.puts, if_neg h, List.append_nil]⟩

theorem AfuEvent.afuStanding_eq_nil {e : AfuEvent} :
    (e.afuStanding .cmd = [] → e.afuCmd.valid = 0) ∧ (e.afuStanding .cdata = [] → e.afuCdata.valid = 0) ∧
      (e.afuStanding .resp = [] → e.afuResp.valid = 0) ∧ (e.afuStanding .rdata = [] → e.afuRdata.valid = 0) ∧
      (e.afuStanding .cfgResp = [] → e.cfgResp.valid = 0) := by
  simp [afuStanding]

@[simp] theorem AfuTlxCmd.valid_load (g cmd : AfuTlxCmd) : (g.load cmd).valid = 1 := rfl

@[simp] theorem AfuTlxCdata.valid_load (g : AfuTlxCdata) (bdi : UInt8) (bus : Buffer UInt8) :
    (g.load bdi bus).valid = 1 := rfl

@[simp] theorem AfuTlxRdata.valid_load (g : AfuTlxRdata) (bdi : UInt8) (bus : Buffer UInt8) :
    (g.load bdi bus).valid = 1 := rfl

theorem AfuTlxCmd.message_load (g cmd : AfuTlxCmd) : (g.load cmd).message = cmd.message := by
  have hread := read_write_zero g.eaOrObj (cmd.eaOrObj.read 0 9) (Buffer.length_read _ _ _)
  simp only [AfuTlxCmd.message, AfuTlxCmd.load, hread]

theorem AfuTlxCdata.message_load (g : AfuTlxCdata) (valid bdi : UInt8) (bus : Buffer UInt8) :
    (g.load bdi bus).message = AfuTlxCdata.message ⟨valid, bus, bdi⟩ := by
  have hread := read_write_zero g.bus (bus.read 0 64) (Buffer.length_read _ _ _)
  simp only [AfuTlxCdata.message, AfuTlxCdata.load, hread]

theorem AfuTlxRdata.message_load (g : AfuTlxRdata) (valid bdi : UInt8) (bus : Buffer UInt8) :
    (g.load bdi bus).message = AfuTlxRdata.message ⟨valid, bus, bdi⟩ := by
  have hread := read_write_zero g.bus (bus.read 0 64) (Buffer.length_read _ _ _)
  simp only [AfuTlxRdata.message, AfuTlxRdata.load, hread]

/-- A call that stages its messages and leaves the groups of the host alone. -/
theorem DriverPuts.stage {call : StageCall} {e e' : AfuEvent} (hr : DriverOrder e) (hrbp : e'.rbp = e.rbp)
    (hcfg : e'.tlxCfg = e.tlxCfg) (hcmd : e'.tlxCmd = e.tlxCmd) (hcmdData : e'.tlxCmdData = e.tlxCmdData)
    (hresp : e'.tlxResp = e.tlxResp) (hrespData : e'.tlxRespData = e.tlxRespData)
    (hreturns : e'.afuCreditReq = e.afuCreditReq)
    (hputs : ∀ c, e'.afuStanding c = e.afuStanding c ++ call.messages.filter (fun m => m.channel = c)) :
    DriverPuts call e (tlxSuccess, e') := by
  refine ⟨⟨hrbp.trans hr.rbp, ?_, ?_, ?_⟩, fun c => ?_, fun c => ?_⟩
  · rw [hcmdData, hcmd]
    exact hr.cmdData
  · rw [hrespData, hresp]
    exact hr.respData
  · rw [hreturns]
    exact hr.returns
  · cases c <;> simp only [AfuEvent.hostDriven, hcfg, hcmd, hcmdData, hresp, hrespData]
  · rw [StageCall.puts, if_pos rfl]
    exact hputs c

theorem StageCall.driver_puts (call : StageCall) (hcall : call.channels ≠ []) (e : AfuEvent) (hr : DriverOrder e)
    (hfree : ∀ c ∈ call.channels, e.afuStanding c = []) : DriverPuts call e (call.apply e) := by
  obtain ⟨hcmd, hcdata, hresp, hrdata, hcfgResp⟩ := @AfuEvent.afuStanding_eq_nil e
  cases call with
  | tlxSendResp | tlxSendRespAndData | tlxSendPostedCmd | tlxSendCmd | tlxSendCmdAndData | tlxSendCfgCmdAndData =>
    exact absurd rfl hcall
  | afuSendResp opcode dl capptag dp code =>
    have hzero := hresp (hfree .resp (by simp [channels]))
    change DriverPuts _ e (afuTlxSendResp e opcode dl capptag dp code)
    unfold afuTlxSendResp
    split_ifs with hcredit hdouble
    · exact .refused hr (by decide)
    · exact .refused hr (by decide)
    · refine .stage hr rfl rfl rfl rfl rfl rfl rfl ?_
      rintro (_ | _ | _ | _ | _) <;> simp [AfuEvent.afuStanding, messages, hzero]
  | afuSendRespData bdi dp bus =>
    have hzero := hresp (hfree .resp (by simp [channels]))
    have hzero' := hrdata (hfree .rdata (by simp [channels]))
    change DriverPuts _ e (afuTlxSendRespData e bdi dp bus)
    unfold afuTlxSendRespData
    split_ifs with hcredit hdouble
    · exact .refused hr (by decide)
    · exact .refused hr (by decide)
    · have hload := e.afuRdata.message_load 1 bdi bus
      refine .stage hr rfl rfl rfl rfl rfl rfl rfl ?_
      rintro (_ | _ | _ | _ | _) <;> simp [AfuEvent.afuStanding, messages, hload, hzero, hzero']
  | afuSendRespAndData opcode dl capptag dp code bus bdi =>
    have hzero := hresp (hfree .resp (by simp [channels]))
    have hzero' := hrdata (hfree .rdata (by simp [channels]))
    change DriverPuts _ e (afuTlxSendRespAndData e opcode dl capptag dp code bus bdi)
    unfold afuTlxSendRespAndData
    split_ifs with hcredit hdouble
    · exact .refused hr (by decide)
    · exact .refused hr (by decide)
    · have hload := e.afuRdata.message_load 1 bdi bus
      refine .stage hr rfl rfl rfl rfl rfl rfl rfl ?_
      rintro (_ | _ | _ | _ | _) <;> simp [AfuEvent.afuStanding, messages, hload, hzero, hzero']
  | afuCfgSendRespAndData opcode capptag code bus bdi =>
    have hzero := hcfgResp (hfree .cfgResp (by simp [channels]))
    change DriverPuts _ e (Ocse.afuCfgSendRespAndData e opcode capptag code bus bdi)
    unfold Ocse.afuCfgSendRespAndData
    by_cases hdouble : e.cfgResp.valid = 1
    · rw [if_pos hdouble]
      exact .refused hr (by decide)
    · rw [if_neg hdouble]
      have hload : CfgTlxResp.message ⟨1, opcode, capptag, code, bdi,
          e.cfgResp.rdataBus.write 0 (if opcode ≠ afuRspMemRdResp then cfgFill else bus.read 0 4)⟩ =
          CfgTlxResp.message ⟨1, opcode, capptag, code, bdi, bus⟩ := by
        by_cases hread : opcode = afuRspMemRdResp
        · have hbus := read_write_zero e.cfgResp.rdataBus (bus.read 0 4) (Buffer.length_read _ _ _)
          simp only [CfgTlxResp.message, if_pos hread, if_neg (not_not.mpr hread), hbus]
        · simp only [CfgTlxResp.message, if_neg hread]
      refine .stage hr rfl rfl rfl rfl rfl rfl rfl ?_
      rintro (_ | _ | _ | _ | _) <;> simp only [AfuEvent.afuStanding, messages, hload, hzero] <;> simp
  | afuSendCmd cmd =>
    have hzero := hcmd (hfree .cmd (by simp [channels]))
    change DriverPuts _ e (afuTlxSendCmd e cmd)
    unfold afuTlxSendCmd
    split_ifs with hcredit hdouble
    · exact .refused hr (by decide)
    · exact .refused hr (by decide)
    · have hload := e.afuCmd.message_load cmd
      refine .stage hr rfl rfl rfl rfl rfl rfl rfl ?_
      rintro (_ | _ | _ | _ | _) <;> simp [AfuEvent.afuStanding, messages, hload, hzero]
  | afuSendCmdData bdi bus =>
    have hzero := hcdata (hfree .cdata (by simp [channels]))
    change DriverPuts _ e (afuTlxSendCmdData e bdi bus)
    unfold afuTlxSendCmdData
    split_ifs with hcredit
    · exact .refused hr (by decide)
    · have hload := e.afuCdata.message_load 1 bdi bus
      refine .stage hr rfl rfl rfl rfl rfl rfl rfl ?_
      rintro (_ | _ | _ | _ | _) <;> simp [AfuEvent.afuStanding, messages, hload, hzero]
  | afuSendCmdAndData cmd bdi bus =>
    have hzero := hcmd (hfree .cmd (by simp [channels]))
    have hzero' := hcdata (hfree .cdata (by simp [channels]))
    change DriverPuts _ e (afuTlxSendCmdAndData e cmd bdi bus)
    unfold afuTlxSendCmdAndData
    split_ifs with hcredit hdouble
    · exact .refused hr (by decide)
    · exact .refused hr (by decide)
    · have hload := e.afuCmd.message_load cmd
      have hload' := e.afuCdata.message_load 1 bdi bus
      refine .stage hr rfl rfl rfl rfl rfl rfl rfl ?_
      rintro (_ | _ | _ | _ | _) <;> simp [AfuEvent.afuStanding, messages, hload, hload', hzero, hzero']

end Ocse
