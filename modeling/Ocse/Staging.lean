import Ocse.AfuCredits

/-!
# What a staging function may change

Thirteen functions of `tlx_interface.c` put a message into the event, to go out with the next frame. Each
checks its credits and the flags of its groups in its own way. A call is atomic when it fails and leaves the
event as it was, or succeeds on groups with nothing staged and changes these groups and its counters only.

The response part `afu_tlx_resp_dp` belongs to the response group, with which it is transmitted.
-/

namespace Ocse

/-! ## The responses of the AFU -/

def afuTlxDoubleResp : ℤ := 31
def afuTlxDoubleRespAndData : ℤ := 33
def afuTlxDoubleRespData : ℤ := 36

def AfuTlxRdata.load (g : AfuTlxRdata) (bdi : UInt8) (bus : Buffer UInt8) : AfuTlxRdata :=
  { valid := 1, bus := g.bus.write 0 (bus.read 0 64), bdi }

def afuTlxSendResp (e : AfuEvent) (opcode dl : UInt8) (capptag : UInt16) (dp code : UInt8) : ℤ × AfuEvent :=
  if e.tlxAfuRespCreditsAvailable = 0 then (tlxAfuNoCredits, e)
  else if e.afuResp.valid ≠ 0 then (afuTlxDoubleResp, e)
  else (tlxSuccess, { e with
    tlxAfuRespCreditsAvailable := e.tlxAfuRespCreditsAvailable - 1
    afuResp := { valid := 1, opcode, dl, capptag, dp, code } })

/-- The part is stored with the response group. -/
def afuTlxSendRespData (e : AfuEvent) (bdi dp : UInt8) (bus : Buffer UInt8) : ℤ × AfuEvent :=
  if e.tlxAfuRespDataCreditsAvailable = 0 then (tlxAfuNoCredits, e)
  else if e.afuRdata.valid = 1 then (afuTlxDoubleRespData, e)
  else (tlxSuccess, { e with
    tlxAfuRespDataCreditsAvailable := e.tlxAfuRespDataCreditsAvailable - 1
    afuResp := { e.afuResp with dp }
    afuRdata := e.afuRdata.load bdi bus })

def afuTlxSendRespAndData (e : AfuEvent) (opcode dl : UInt8) (capptag : UInt16) (dp code : UInt8)
    (bus : Buffer UInt8) (bdi : UInt8) : ℤ × AfuEvent :=
  if e.tlxAfuRespCreditsAvailable = 0 ∨ e.tlxAfuRespDataCreditsAvailable = 0 then (tlxAfuNoCredits, e)
  else if e.afuResp.valid = 1 ∨ e.afuRdata.valid = 1 then (afuTlxDoubleRespAndData, e)
  else (tlxSuccess, { e with
    tlxAfuRespCreditsAvailable := e.tlxAfuRespCreditsAvailable - 1
    tlxAfuRespDataCreditsAvailable := e.tlxAfuRespDataCreditsAvailable - 1
    afuResp := { valid := 1, opcode, dl, capptag, dp, code }
    afuRdata := e.afuRdata.load bdi bus })

/-- There is no credit for config responses. -/
def afuCfgSendRespAndData (e : AfuEvent) (opcode : UInt8) (capptag : UInt16) (code : UInt8)
    (bus : Buffer UInt8) (bdi : UInt8) : ℤ × AfuEvent :=
  if e.cfgResp.valid = 1 then (afuTlxDoubleRespAndData, e)
  else (tlxSuccess, { e with
    cfgResp :=
      { valid := 1, opcode, capptag, code, rdataBdi := bdi
        rdataBus := e.cfgResp.rdataBus.write 0
          (if opcode ≠ afuRspMemRdResp then cfgFill else bus.read 0 4) } })

/-! ## The calls -/

inductive StageCall
  | tlxSendResp (opcode : UInt8) (afutag : UInt16) (code pgSize dl dp : UInt8) (addrTag : UInt32)
  | tlxSendRespAndData (opcode : UInt8) (afutag : UInt16) (code pgSize dl dp : UInt8) (addrTag : UInt32)
      (bdi : UInt8) (data : Buffer UInt8)
  | tlxSendPostedCmd (opcode : UInt8) (afutag : UInt16) (code : UInt8)
  | tlxSendCmd (opcode : UInt8) (capptag : UInt16) (dl pl : UInt8) (be : UInt64) (cmdEnd : UInt8) (pa : UInt64)
  | tlxSendCmdAndData (opcode : UInt8) (capptag : UInt16) (dl pl : UInt8) (be : UInt64) (cmdEnd : UInt8)
      (pa : UInt64) (dataBdi : UInt8) (data : Buffer UInt8)
  | tlxSendCfgCmdAndData (opcode : UInt8) (capptag : UInt16) (pl t : UInt8) (pa : UInt64) (dataBdi : UInt8)
      (data : Buffer UInt8)
  | afuSendResp (opcode dl : UInt8) (capptag : UInt16) (dp code : UInt8)
  | afuSendRespData (bdi dp : UInt8) (bus : Buffer UInt8)
  | afuSendRespAndData (opcode dl : UInt8) (capptag : UInt16) (dp code : UInt8) (bus : Buffer UInt8)
      (bdi : UInt8)
  | afuCfgSendRespAndData (opcode : UInt8) (capptag : UInt16) (code : UInt8) (bus : Buffer UInt8) (bdi : UInt8)
  | afuSendCmd (cmd : AfuTlxCmd)
  | afuSendCmdData (bdi : UInt8) (bus : Buffer UInt8)
  | afuSendCmdAndData (cmd : AfuTlxCmd) (bdi : UInt8) (bus : Buffer UInt8)

inductive Group
  | tlxResp | tlxRespData | tlxCmd | tlxCmdData | tlxCfg
  | afuResp | afuRdata | cfgResp | afuCmd | afuCdata

inductive Counter
  | afuTlxResp | afuTlxCmd | cfgTlx
  | tlxAfuResp | tlxAfuRespData | tlxAfuCmd | tlxAfuCmdData

def AfuEvent.flag (e : AfuEvent) : Group → UInt8
  | .tlxResp => e.tlxResp.valid
  | .tlxRespData => e.tlxRespData.valid
  | .tlxCmd => e.tlxCmd.valid
  | .tlxCmdData => e.tlxCmdData.valid
  | .tlxCfg => e.tlxCfg.valid
  | .afuResp => e.afuResp.valid
  | .afuRdata => e.afuRdata.valid
  | .cfgResp => e.cfgResp.valid
  | .afuCmd => e.afuCmd.valid
  | .afuCdata => e.afuCdata.valid

/-- `e` with one group as it is in `e'`. -/
def AfuEvent.withGroup (e' e : AfuEvent) : Group → AfuEvent
  | .tlxResp => { e with tlxResp := e'.tlxResp }
  | .tlxRespData => { e with tlxRespData := e'.tlxRespData }
  | .tlxCmd => { e with tlxCmd := e'.tlxCmd }
  | .tlxCmdData => { e with tlxCmdData := e'.tlxCmdData }
  | .tlxCfg => { e with tlxCfg := e'.tlxCfg }
  | .afuResp => { e with afuResp := e'.afuResp }
  | .afuRdata => { e with afuRdata := e'.afuRdata }
  | .cfgResp => { e with cfgResp := e'.cfgResp }
  | .afuCmd => { e with afuCmd := e'.afuCmd }
  | .afuCdata => { e with afuCdata := e'.afuCdata }

/-- `e` with one credit counter as it is in `e'`. -/
def AfuEvent.withCounter (e' e : AfuEvent) : Counter → AfuEvent
  | .afuTlxResp => { e with afuTlxRespCreditsAvailable := e'.afuTlxRespCreditsAvailable }
  | .afuTlxCmd => { e with afuTlxCmdCreditsAvailable := e'.afuTlxCmdCreditsAvailable }
  | .cfgTlx => { e with cfgTlxCreditsAvailable := e'.cfgTlxCreditsAvailable }
  | .tlxAfuResp => { e with tlxAfuRespCreditsAvailable := e'.tlxAfuRespCreditsAvailable }
  | .tlxAfuRespData => { e with tlxAfuRespDataCreditsAvailable := e'.tlxAfuRespDataCreditsAvailable }
  | .tlxAfuCmd => { e with tlxAfuCmdCreditsAvailable := e'.tlxAfuCmdCreditsAvailable }
  | .tlxAfuCmdData => { e with tlxAfuCmdDataCreditsAvailable := e'.tlxAfuCmdDataCreditsAvailable }

namespace StageCall

def apply (e : AfuEvent) : StageCall → ℤ × AfuEvent
  | tlxSendResp opcode afutag code pgSize dl dp addrTag =>
    tlxAfuSendResp e opcode afutag code pgSize dl dp addrTag
  | tlxSendRespAndData opcode afutag code pgSize dl dp addrTag bdi data =>
    tlxAfuSendRespAndData e opcode afutag code pgSize dl dp addrTag bdi data
  | tlxSendPostedCmd opcode afutag code => tlxAfuSendPostedCmd e opcode afutag code
  | tlxSendCmd opcode capptag dl pl be cmdEnd pa => tlxAfuSendCmd e opcode capptag dl pl be cmdEnd pa
  | tlxSendCmdAndData opcode capptag dl pl be cmdEnd pa dataBdi data =>
    tlxAfuSendCmdAndData e opcode capptag dl pl be cmdEnd pa dataBdi data
  | tlxSendCfgCmdAndData opcode capptag pl t pa dataBdi data =>
    tlxAfuSendCfgCmdAndData e opcode capptag pl t pa dataBdi data
  | afuSendResp opcode dl capptag dp code => afuTlxSendResp e opcode dl capptag dp code
  | afuSendRespData bdi dp bus => afuTlxSendRespData e bdi dp bus
  | afuSendRespAndData opcode dl capptag dp code bus bdi =>
    afuTlxSendRespAndData e opcode dl capptag dp code bus bdi
  | afuCfgSendRespAndData opcode capptag code bus bdi => Ocse.afuCfgSendRespAndData e opcode capptag code bus bdi
  | afuSendCmd cmd => afuTlxSendCmd e cmd
  | afuSendCmdData bdi bus => afuTlxSendCmdData e bdi bus
  | afuSendCmdAndData cmd bdi bus => afuTlxSendCmdAndData e cmd bdi bus

/-- The groups that a call is for. -/
def groups : StageCall → List Group
  | tlxSendResp .. | tlxSendPostedCmd .. => [.tlxResp]
  | tlxSendRespAndData .. => [.tlxResp, .tlxRespData]
  | tlxSendCmd .. => [.tlxCmd]
  | tlxSendCmdAndData .. => [.tlxCmd, .tlxCmdData]
  | tlxSendCfgCmdAndData .. => [.tlxCfg]
  | afuSendResp .. => [.afuResp]
  | afuSendRespData .. => [.afuRdata]
  | afuSendRespAndData .. => [.afuResp, .afuRdata]
  | afuCfgSendRespAndData .. => [.cfgResp]
  | afuSendCmd .. => [.afuCmd]
  | afuSendCmdData .. => [.afuCdata]
  | afuSendCmdAndData .. => [.afuCmd, .afuCdata]

def counters : StageCall → List Counter
  | tlxSendResp .. | tlxSendPostedCmd .. | tlxSendRespAndData .. => [.afuTlxResp]
  | tlxSendCmd .. | tlxSendCmdAndData .. => [.afuTlxCmd]
  | tlxSendCfgCmdAndData .. => [.cfgTlx]
  | afuSendResp .. => [.tlxAfuResp]
  | afuSendRespData .. => [.tlxAfuRespData]
  | afuSendRespAndData .. => [.tlxAfuResp, .tlxAfuRespData]
  | afuCfgSendRespAndData .. => []
  | afuSendCmd .. => [.tlxAfuCmd]
  | afuSendCmdData .. => [.tlxAfuCmdData]
  | afuSendCmdAndData .. => [.tlxAfuCmd, .tlxAfuCmdData]

/-- The bytes that a call copies and the size of the array it copies them to. -/
def copies : StageCall → List (ℕ × ℕ)
  | tlxSendRespAndData _ _ _ _ dl .. => [(dlToSize dl, 256)]
  | tlxSendCmdAndData _ _ dl .. => [(cmdDataSize dl, 256)]
  | tlxSendCfgCmdAndData .. | afuCfgSendRespAndData .. => [(4, 4)]
  | afuSendRespData .. | afuSendRespAndData .. | afuSendCmdData .. => [(64, 64)]
  | afuSendCmd .. => [(9, 9)]
  | afuSendCmdAndData .. => [(9, 9), (64, 64)]
  | _ => []

/-- From `e` to `e'` nothing but the call's groups and counters changes. -/
def ChangesOnly (c : StageCall) (e e' : AfuEvent) : Prop :=
  e' = c.counters.foldl e'.withCounter (c.groups.foldl e'.withGroup e)

def Atomic (c : StageCall) (e : AfuEvent) : Prop :=
  ((c.apply e).1 ≠ tlxSuccess ∧ (c.apply e).2 = e) ∨
    ((c.apply e).1 = tlxSuccess ∧ c.ChangesOnly e (c.apply e).2 ∧ (∀ k ∈ c.copies, k.1 ≤ k.2) ∧
      ∀ g ∈ c.groups, e.flag g = 0)

/-! ## The checks of the functions -/

/-- The call fails one of the checks that its function makes. -/
def Refused (e : AfuEvent) : StageCall → Prop
  | tlxSendResp .. | tlxSendPostedCmd .. => e.afuTlxRespCreditsAvailable = 0 ∨ e.tlxResp.valid ≠ 0
  | tlxSendRespAndData .. =>
    e.afuTlxRespCreditsAvailable = 0 ∨ e.tlxResp.valid = 1 ∨ e.tlxRespData.valid = 1
  | tlxSendCmd .. | tlxSendCmdAndData .. => e.tlxCmd.valid = 1
  | tlxSendCfgCmdAndData opcode .. =>
    e.tlxCfg.valid = 1 ∨ (opcode ≠ tlxCmdConfigRead ∧ opcode ≠ tlxCmdConfigWrite) ∨
      e.cfgTlxCreditsAvailable = 0
  | afuSendResp .. => e.tlxAfuRespCreditsAvailable = 0 ∨ e.afuResp.valid ≠ 0
  | afuSendRespData .. => e.tlxAfuRespDataCreditsAvailable = 0 ∨ e.afuRdata.valid = 1
  | afuSendRespAndData .. =>
    (e.tlxAfuRespCreditsAvailable = 0 ∨ e.tlxAfuRespDataCreditsAvailable = 0) ∨
      e.afuResp.valid = 1 ∨ e.afuRdata.valid = 1
  | afuCfgSendRespAndData .. => e.cfgResp.valid = 1
  | afuSendCmd .. => e.tlxAfuCmdCreditsAvailable = 0 ∨ e.afuCmd.valid ≠ 0
  | afuSendCmdData .. => e.tlxAfuCmdDataCreditsAvailable = 0
  | afuSendCmdAndData .. =>
    (e.tlxAfuCmdCreditsAvailable = 0 ∨ e.tlxAfuCmdDataCreditsAvailable = 0) ∨
      e.afuCmd.valid = 1 ∨ e.afuCdata.valid = 1

/-- What the checks leave open: flags they do not test or test for one only, the length of the data, and the
part of a response that may be staged. -/
def Unchecked (e : AfuEvent) : StageCall → Prop
  | tlxSendResp .. | tlxSendPostedCmd .. | afuSendResp .. | afuSendCmd .. => True
  | tlxSendRespAndData _ _ _ _ dl .. =>
    e.tlxResp.valid = 0 ∧ e.tlxRespData.valid = 0 ∧ (dl = 1 ∨ dl = 2 ∨ dl = 3)
  | tlxSendCmd .. => e.tlxCmd.valid = 0
  | tlxSendCmdAndData _ _ dl .. =>
    e.tlxCmd.valid = 0 ∧ e.tlxCmdData.valid = 0 ∧ (dl = 0 ∨ dl = 1 ∨ dl = 2 ∨ dl = 3)
  | tlxSendCfgCmdAndData .. => e.tlxCfg.valid = 0
  | afuSendRespData _ dp _ => e.afuRdata.valid = 0 ∧ e.afuResp.dp = dp
  | afuSendRespAndData .. => e.afuResp.valid = 0 ∧ e.afuRdata.valid = 0
  | afuCfgSendRespAndData .. => e.cfgResp.valid = 0
  | afuSendCmdData .. => e.afuCdata.valid = 0
  | afuSendCmdAndData .. => e.afuCmd.valid = 0 ∧ e.afuCdata.valid = 0

variable {c : StageCall} {e e' : AfuEvent}

theorem not_both_config (opcode : UInt8) : ¬ (opcode = tlxCmdConfigRead ∧ opcode = tlxCmdConfigWrite) := by
  rintro ⟨rfl, h⟩
  exact absurd h (by decide)

theorem dlToSize_le_iff (dl : UInt8) : dlToSize dl ≤ 256 ↔ dl = 1 ∨ dl = 2 ∨ dl = 3 := by
  unfold dlToSize
  split_ifs <;> simp_all

theorem cmdDataSize_le_iff (dl : UInt8) :
    cmdDataSize dl ≤ 256 ↔ dl = 0 ∨ dl = 1 ∨ dl = 2 ∨ dl = 3 := by
  unfold cmdDataSize
  split_ifs with h
  · rw [dlToSize_le_iff, or_iff_right h]
  · simp_all

/-- The call failed and left the event as it was. -/
def Failed (e : AfuEvent) (r : ℤ × AfuEvent) : Prop := r.1 ≠ tlxSuccess ∧ r.2 = e

theorem failed_of_check {p : Prop} [Decidable p] {code : ℤ} {r : ℤ × AfuEvent} (hcode : code ≠ tlxSuccess)
    (hp : p) : Failed e (if p then (code, e) else r) := by
  rw [if_pos hp]
  exact ⟨hcode, rfl⟩

theorem failed_of_later_check {p : Prop} [Decidable p] {code : ℤ} {r : ℤ × AfuEvent}
    (hcode : code ≠ tlxSuccess) (h : ¬ p → Failed e r) : Failed e (if p then (code, e) else r) := by
  by_cases hp : p
  · exact failed_of_check hcode hp
  · rw [if_neg hp]
    exact h hp

theorem failed_of_checks {p q : Prop} [Decidable p] [Decidable q] {code code' : ℤ} {r : ℤ × AfuEvent}
    (hcode : code ≠ tlxSuccess) (hcode' : code' ≠ tlxSuccess) (h : p ∨ q) :
    Failed e (if p then (code, e) else if q then (code', e) else r) :=
  failed_of_later_check hcode (fun hp => failed_of_check hcode' (h.resolve_left hp))

theorem failed_of_refused (h : c.Refused e) : Failed e (c.apply e) := by
  cases c with
  | tlxSendResp => exact failed_of_checks (by decide) (by decide) h
  | tlxSendRespAndData => exact failed_of_checks (by decide) (by decide) h
  | tlxSendPostedCmd => exact failed_of_checks (by decide) (by decide) h
  | tlxSendCmd => exact failed_of_checks (by decide) (by decide) (.inr h)
  | tlxSendCmdAndData => exact failed_of_checks (by decide) (by decide) (.inr h)
  | tlxSendCfgCmdAndData =>
    apply failed_of_later_check (by decide)
    intro hbusy
    exact failed_of_checks (by decide) (by decide) (h.resolve_left hbusy)
  | afuSendResp => exact failed_of_checks (by decide) (by decide) h
  | afuSendRespData => exact failed_of_checks (by decide) (by decide) h
  | afuSendRespAndData => exact failed_of_checks (by decide) (by decide) h
  | afuCfgSendRespAndData => exact failed_of_check (by decide) h
  | afuSendCmd => exact failed_of_checks (by decide) (by decide) h
  | afuSendCmdData => exact failed_of_check (by decide) h
  | afuSendCmdAndData => exact failed_of_checks (by decide) (by decide) h

theorem atomic_of_failed (h : Failed e (c.apply e)) : c.Atomic e := .inl h

theorem atomic_iff_of_success (h : c.apply e = (tlxSuccess, e')) :
    c.Atomic e ↔ c.ChangesOnly e e' ∧ (∀ k ∈ c.copies, k.1 ≤ k.2) ∧ ∀ g ∈ c.groups, e.flag g = 0 := by
  unfold Atomic
  rw [h, or_iff_right (fun hfail => hfail.1 rfl), and_iff_right rfl]

/-- When nothing else changes, what is left are the lengths and the flags. -/
theorem atomic_iff_of_changesOnly (h : c.apply e = (tlxSuccess, e')) (honly : c.ChangesOnly e e') :
    c.Atomic e ↔ (∀ k ∈ c.copies, k.1 ≤ k.2) ∧ ∀ g ∈ c.groups, e.flag g = 0 := by
  rw [atomic_iff_of_success h, and_iff_right honly]

/-- The part that `afu_tlx_send_resp_data` stores must be the one that is there. -/
theorem changesOnly_sendRespData (e : AfuEvent) (bdi dp : UInt8) (bus : Buffer UInt8) :
    (afuSendRespData bdi dp bus).ChangesOnly e { e with
      tlxAfuRespDataCreditsAvailable := e.tlxAfuRespDataCreditsAvailable - 1
      afuResp := { e.afuResp with dp }
      afuRdata := e.afuRdata.load bdi bus } ↔ e.afuResp.dp = dp := by
  constructor
  · intro h
    exact (congrArg (fun x : AfuEvent => x.afuResp.dp) h).symm
  · rintro rfl
    rfl

theorem atomic_iff_unchecked (h : ¬ c.Refused e) : c.Atomic e ↔ c.Unchecked e := by
  cases c with
  | tlxSendResp | tlxSendPostedCmd =>
    obtain ⟨hcredit, hfree⟩ := not_or.mp h
    refine (atomic_iff_of_changesOnly (by exact (if_neg hcredit).trans (if_neg hfree)) (by rfl)).trans ?_
    simpa [copies, groups, AfuEvent.flag, Unchecked] using hfree
  | tlxSendRespAndData _ _ _ _ dl =>
    obtain ⟨hcredit, hfree⟩ := not_or.mp h
    refine (atomic_iff_of_changesOnly (by exact (if_neg hcredit).trans (if_neg hfree)) (by rfl)).trans ?_
    simp only [copies, groups, AfuEvent.flag, Unchecked, List.forall_mem_cons, List.not_mem_nil,
      false_implies, implies_true, and_true, dlToSize_le_iff]
    tauto
  | tlxSendCmd opcode =>
    refine (atomic_iff_of_changesOnly (by exact (if_neg (not_both_config opcode)).trans (if_neg h)) (by rfl)).trans ?_
    simp [copies, groups, AfuEvent.flag, Unchecked]
  | tlxSendCmdAndData opcode _ dl =>
    refine (atomic_iff_of_changesOnly (by exact (if_neg (not_both_config opcode)).trans (if_neg h)) (by rfl)).trans ?_
    simp only [copies, groups, AfuEvent.flag, Unchecked, List.forall_mem_cons, List.not_mem_nil,
      false_implies, implies_true, and_true, cmdDataSize_le_iff]
    tauto
  | tlxSendCfgCmdAndData opcode =>
    obtain ⟨hfree, hother⟩ := not_or.mp h
    obtain ⟨hopcode, hcredit⟩ := not_or.mp hother
    refine (atomic_iff_of_changesOnly
      (by exact (if_neg hfree).trans ((if_neg hopcode).trans (if_neg hcredit))) (by rfl)).trans ?_
    simp [copies, groups, AfuEvent.flag, Unchecked]
  | afuSendResp | afuSendCmd =>
    obtain ⟨hcredit, hfree⟩ := not_or.mp h
    refine (atomic_iff_of_changesOnly (by exact (if_neg hcredit).trans (if_neg hfree)) (by rfl)).trans ?_
    simpa [copies, groups, AfuEvent.flag, Unchecked] using hfree
  | afuSendRespData bdi dp bus =>
    obtain ⟨hcredit, hfree⟩ := not_or.mp h
    refine (atomic_iff_of_success (by exact (if_neg hcredit).trans (if_neg hfree))).trans ?_
    rw [changesOnly_sendRespData]
    simp [copies, groups, AfuEvent.flag, Unchecked, and_comm]
  | afuSendRespAndData | afuSendCmdAndData =>
    obtain ⟨hcredit, hfree⟩ := not_or.mp h
    refine (atomic_iff_of_changesOnly (by exact (if_neg hcredit).trans (if_neg hfree)) (by rfl)).trans ?_
    simp [copies, groups, AfuEvent.flag, Unchecked]
  | afuCfgSendRespAndData =>
    refine (atomic_iff_of_changesOnly (by exact if_neg h) (by rfl)).trans ?_
    simp [copies, groups, AfuEvent.flag, Unchecked]
  | afuSendCmdData =>
    refine (atomic_iff_of_changesOnly (by exact if_neg h) (by rfl)).trans ?_
    simp [copies, groups, AfuEvent.flag, Unchecked]

/-- A staging call is atomic exactly when its own checks refuse it or what they leave open is in order. -/
theorem staging_atomic_iff (e : AfuEvent) (c : StageCall) : c.Atomic e ↔ c.Refused e ∨ c.Unchecked e := by
  by_cases h : c.Refused e
  · exact iff_of_true (atomic_of_failed (failed_of_refused h)) (.inl h)
  · rw [atomic_iff_unchecked h, or_iff_right h]

/-- A driver with two data credits has staged a line of command data. -/
def stagedLine : AfuEvent :=
  ((afuSendCmdData 0 (Buffer.const 1)).apply { tlxEventReset with tlxAfuCmdDataCreditsAvailable := 2 }).2

/-- A second line takes the place of the first, for one more credit. -/
theorem stagedLine_overwritten :
    ¬ (afuSendCmdData 0 (Buffer.const 2)).Atomic stagedLine ∧
      ((afuSendCmdData 0 (Buffer.const 2)).apply stagedLine).1 = tlxSuccess ∧
      stagedLine.afuCdata.bus 0 = 1 ∧
      ((afuSendCmdData 0 (Buffer.const 2)).apply stagedLine).2.afuCdata.bus 0 = 2 ∧
      stagedLine.tlxAfuCmdDataCreditsAvailable = 1 ∧
      ((afuSendCmdData 0 (Buffer.const 2)).apply stagedLine).2.tlxAfuCmdDataCreditsAvailable = 0 := by
  refine ⟨?_, rfl, by decide, by decide, rfl, rfl⟩
  have hcredit : ¬ (afuSendCmdData 0 (Buffer.const 2)).Refused stagedLine := by
    change ¬ (1 : UInt8) = 0
    decide
  rw [atomic_iff_unchecked hcredit]
  change ¬ (1 : UInt8) = 0
  decide

end StageCall

end Ocse
