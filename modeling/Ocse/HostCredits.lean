import Ocse.Lib.Run
import Ocse.Mmio
import Ocse.TlxGet

/-!
# The credits that the AFU gives the host

ocse reaches the TLX interface through a few calls. A `Ledger` keeps beside the interface what the calls
have staged and what the frames of the AFU have brought back, for each of the three classes of credits.
The books are in order while a counter is its initial value less what was staged plus what came back, and
nothing was staged on a counter of zero. The calls for responses and config commands look at their
counter first; the two calls for memory commands do not.
-/

namespace Ocse

/-! ## Calls -/

inductive CreditClass
  | cmd | resp | cfg
  deriving DecidableEq, Repr

def AfuEvent.counter (e : AfuEvent) : CreditClass → UInt8
  | .cmd => e.afuTlxCmdCreditsAvailable
  | .resp => e.afuTlxRespCreditsAvailable
  | .cfg => e.cfgTlxCreditsAvailable

/-- What ocse calls on the interface once the initial credits are read. A frame that has come in whole
stands in `rbuf` when it is parsed; `cmdCnt` is the length of its command data. -/
inductive HostCall
  | sendResp (opcode : UInt8) (afutag : UInt16) (code pgSize dl dp : UInt8) (addrTag : UInt32)
  | sendRespAndData (opcode : UInt8) (afutag : UInt16) (code pgSize dl dp : UInt8) (addrTag : UInt32)
      (bdi : UInt8) (data : Buffer UInt8)
  | sendPostedCmd (opcode : UInt8) (afutag : UInt16) (code : UInt8)
  | sendCmd (opcode : UInt8) (capptag : UInt16) (dl pl : UInt8) (be : UInt64) (cmdEnd : UInt8) (pa : UInt64)
  | sendCmdAndData (opcode : UInt8) (capptag : UInt16) (dl pl : UInt8) (be : UInt64) (cmdEnd : UInt8)
      (pa : UInt64) (dataBdi : UInt8) (data : Buffer UInt8)
  | sendCfgCmdAndData (opcode : UInt8) (capptag : UInt16) (pl t : UInt8) (pa : UInt64) (dataBdi : UInt8)
      (data : Buffer UInt8)
  | readCmdAndData
  | readCmdData
  | readResp
  | readRespData
  | readCfgRespAndData (requestedCapptag : UInt16)
  | signal
  | receive (rbuf : Buffer UInt8) (cmdCnt : ℕ)

/-- The parse of a received frame, a clock alone or one with groups. -/
def receiveFrame (e : AfuEvent) (rbuf : Buffer UInt8) (cmdCnt : ℕ) : AfuEvent :=
  let e := lowerClock { e with rbuf }
  if rbuf 0 = 0x10 then { e with rbp := 0 } else parseAfuEvents e cmdCnt

def HostCall.apply (e : AfuEvent) : HostCall → ℤ × AfuEvent
  | .sendResp opcode afutag code pgSize dl dp addrTag =>
      tlxAfuSendResp e opcode afutag code pgSize dl dp addrTag
  | .sendRespAndData opcode afutag code pgSize dl dp addrTag bdi data =>
      tlxAfuSendRespAndData e opcode afutag code pgSize dl dp addrTag bdi data
  | .sendPostedCmd opcode afutag code => tlxAfuSendPostedCmd e opcode afutag code
  | .sendCmd opcode capptag dl pl be cmdEnd pa => tlxAfuSendCmd e opcode capptag dl pl be cmdEnd pa
  | .sendCmdAndData opcode capptag dl pl be cmdEnd pa dataBdi data =>
      tlxAfuSendCmdAndData e opcode capptag dl pl be cmdEnd pa dataBdi data
  | .sendCfgCmdAndData opcode capptag pl t pa dataBdi data =>
      tlxAfuSendCfgCmdAndData e opcode capptag pl t pa dataBdi data
  | .readCmdAndData => (tlxSuccess, (afuTlxReadCmdAndData e).2)
  | .readCmdData => (tlxSuccess, (afuTlxReadCmdData e).2)
  | .readResp => (tlxSuccess, (afuTlxReadResp e).2)
  | .readRespData => (tlxSuccess, (afuTlxReadRespData e).2)
  | .readCfgRespAndData requestedCapptag => (tlxSuccess, (afuTlxReadCfgRespAndData e requestedCapptag).2)
  | .signal => (tlxSuccess, (tlxSignalAfuModel e).2.1)
  | .receive rbuf cmdCnt => (tlxSuccess, receiveFrame e rbuf cmdCnt)

/-- The class of the message that a call stages. -/
def HostCall.stages : HostCall → Option CreditClass
  | .sendResp .. | .sendRespAndData .. | .sendPostedCmd .. => some .resp
  | .sendCmd .. | .sendCmdAndData .. => some .cmd
  | .sendCfgCmdAndData .. => some .cfg
  | _ => none

/-- Where the credits stand in a frame of the AFU. -/
def creditsAt (rbuf : Buffer UInt8) (cmdCnt : ℕ) : ℕ :=
  5 + (if present rbuf 0x02 then 34 else 0) + (if present rbuf 0x04 then 1 + cmdCnt else 0) +
    (if present rbuf 0x08 then 6 else 0) + (if present rbuf 0x20 then 65 else 0) +
    (if present rbuf 0x40 then 9 else 0)

/-- A frame returns a credit by a flag of exactly one. -/
def frameReturns (rbuf : Buffer UInt8) (cmdCnt : ℕ) : CreditClass → Prop
  | .resp => present rbuf 0x01 ∧ rbuf (creditsAt rbuf cmdCnt + 3) = 1
  | .cmd => present rbuf 0x01 ∧ rbuf (creditsAt rbuf cmdCnt + 4) = 1
  | .cfg => present rbuf 0x01 ∧ rbuf (creditsAt rbuf cmdCnt + 5) = 1

instance (rbuf : Buffer UInt8) (cmdCnt : ℕ) : ∀ c, Decidable (frameReturns rbuf cmdCnt c)
  | .resp => inferInstanceAs (Decidable (present rbuf 0x01 ∧ rbuf (creditsAt rbuf cmdCnt + 3) = 1))
  | .cmd => inferInstanceAs (Decidable (present rbuf 0x01 ∧ rbuf (creditsAt rbuf cmdCnt + 4) = 1))
  | .cfg => inferInstanceAs (Decidable (present rbuf 0x01 ∧ rbuf (creditsAt rbuf cmdCnt + 5) = 1))

def HostCall.returns : HostCall → CreditClass → Prop
  | .receive rbuf cmdCnt => frameReturns rbuf cmdCnt
  | _ => fun _ => False

instance : ∀ (call : HostCall) (c : CreditClass), Decidable (call.returns c)
  | .receive rbuf cmdCnt, c => inferInstanceAs (Decidable (frameReturns rbuf cmdCnt c))
  | .sendResp .., _ | .sendRespAndData .., _ | .sendPostedCmd .., _ | .sendCmd .., _ | .sendCmdAndData .., _
  | .sendCfgCmdAndData .., _ | .readCmdAndData, _ | .readCmdData, _ | .readResp, _ | .readRespData, _
  | .readCfgRespAndData .., _ | .signal, _ => isFalse id

/-! ## The books -/

structure Ledger where
  event : AfuEvent
  staged : CreditClass → ℕ
  returned : CreditClass → ℕ
  overdrawn : Bool

/-- A call stages a message of the class, successfully. -/
def HostCall.Stages (call : HostCall) (e : AfuEvent) (c : CreditClass) : Prop :=
  call.stages = some c ∧ (call.apply e).1 = tlxSuccess

instance (call : HostCall) (e : AfuEvent) (c : CreditClass) : Decidable (call.Stages e c) :=
  inferInstanceAs (Decidable (call.stages = some c ∧ (call.apply e).1 = tlxSuccess))

def Ledger.step (l : Ledger) (call : HostCall) : Ledger where
  event := (call.apply l.event).2
  staged c := l.staged c + if call.Stages l.event c then 1 else 0
  returned c := l.returned c + if call.returns c then 1 else 0
  overdrawn := l.overdrawn || decide (∃ c ∈ call.stages, call.Stages l.event c ∧ l.event.counter c = 0)

def Ledger.run (l : Ledger) (calls : List HostCall) : Ledger := calls.foldl Ledger.step l

/-- The books as `read_afu_config` opens them, on an interface with the credits of the AFU. -/
def openLedger (e : AfuEvent) : Ledger :=
  { event := (afuTlxReadInitialCredits e).2, staged := fun _ => 0, returned := fun _ => 0, overdrawn := false }

/-- The initial credits of the AFU. -/
def AfuEvent.initial (e : AfuEvent) : CreditClass → ℕ
  | .cmd => e.afuCreditReq.cmdInitialCredit.toNat
  | .resp => e.afuCreditReq.respInitialCredit.toNat
  | .cfg => e.afuCreditReq.cfgInitialCredit.toNat

/-- A counter is its initial value less what was staged plus what came back, as numbers, and nothing was
staged on a counter of zero. -/
structure Ledger.Balanced (initial : CreditClass → ℕ) (l : Ledger) : Prop where
  balance : ∀ c, (l.event.counter c).toNat + l.staged c = initial c + l.returned c
  covered : l.overdrawn = false

/-! ## One call -/

/-- Calls that stage memory commands. -/
def HostCall.isMemCmd : HostCall → Bool
  | .sendCmd .. | .sendCmdAndData .. => true
  | _ => false

/-- The cursor of the parse comes to the credits where `creditsAt` says they stand. -/
theorem parse_creditsAt (e : AfuEvent) (cmdCnt : ℕ) :
    (e.cfgResp.get e.rbuf (e.afuRdata.get e.rbuf (e.afuResp.get e.rbuf (e.afuCdata.get e.rbuf
      cmdCnt (e.afuCmd.get e.rbuf 5).2).2).2).2).2 = creditsAt e.rbuf cmdCnt := by
  have hcmd : ∀ rbc, (e.afuCmd.get e.rbuf rbc).2 = rbc + if present e.rbuf 0x02 then 34 else 0 := by
    intro rbc; unfold AfuTlxCmd.get; split_ifs <;> rfl
  have hcdata : ∀ cnt rbc, (e.afuCdata.get e.rbuf cnt rbc).2 =
      rbc + if present e.rbuf 0x04 then 1 + cnt else 0 := by
    intro cnt rbc; unfold AfuTlxCdata.get; split_ifs <;> simp [Nat.add_assoc]
  have hresp : ∀ rbc, (e.afuResp.get e.rbuf rbc).2 = rbc + if present e.rbuf 0x08 then 6 else 0 := by
    intro rbc; unfold AfuTlxResp.get; split_ifs <;> rfl
  have hrdata : ∀ rbc, (e.afuRdata.get e.rbuf rbc).2 = rbc + if present e.rbuf 0x20 then 65 else 0 := by
    intro rbc; unfold AfuTlxRdata.get; split_ifs <;> rfl
  have hcfg : ∀ rbc, (e.cfgResp.get e.rbuf rbc).2 = rbc + if present e.rbuf 0x40 then 9 else 0 := by
    intro rbc; unfold CfgTlxResp.get; split_ifs <;> rfl
  rw [hcfg, hrdata, hresp, hcdata, hcmd]
  rfl

/-- A parsed frame counts the credits that it returns. -/
theorem parseAfuEvents_counter (e : AfuEvent) (cmdCnt : ℕ) (c : CreditClass) :
    (parseAfuEvents e cmdCnt).counter c =
      if frameReturns e.rbuf cmdCnt c then e.counter c + 1 else e.counter c := by
  unfold parseAfuEvents
  simp only [parse_creditsAt]
  unfold AfuEvent.countReturns AfuTlxCreditReq.get
  by_cases hcredits : present e.rbuf 0x01
  · rw [if_pos hcredits, if_pos (by simp)]
    cases c <;> simp [AfuEvent.counter, frameReturns, hcredits, addCredit]
  · rw [if_neg hcredits, if_neg (by simp)]
    cases c <;> simp [AfuEvent.counter, frameReturns, hcredits]

theorem lowerClock_counter (e : AfuEvent) (c : CreditClass) : (lowerClock e).counter c = e.counter c := by
  unfold lowerClock
  split_ifs <;> rfl

theorem lowerClock_rbuf (e : AfuEvent) : (lowerClock e).rbuf = e.rbuf := by
  unfold lowerClock
  split_ifs <;> rfl

theorem receiveFrame_counter (e : AfuEvent) (rbuf : Buffer UInt8) (cmdCnt : ℕ) (c : CreditClass) :
    (receiveFrame e rbuf cmdCnt).counter c =
      if frameReturns rbuf cmdCnt c then e.counter c + 1 else e.counter c := by
  have hparse := parseAfuEvents_counter (lowerClock { e with rbuf }) cmdCnt c
  rw [lowerClock_rbuf, lowerClock_counter] at hparse
  unfold receiveFrame
  simp only
  split_ifs with hclock hreturns hreturns
  · -- A clock alone has no credits.
    have hpresent : ¬present rbuf 0x01 := by
      rw [present, hclock]
      decide
    cases c <;> exact absurd hreturns.1 hpresent
  · exact lowerClock_counter { e with rbuf } c
  · exact hparse.trans (if_pos hreturns)
  · exact hparse.trans (if_neg hreturns)

/-- A call that stages a message of the class: it fails and leaves everything as it is, or it takes one
credit of its class. -/
def TakesCredit (c : CreditClass) (e : AfuEvent) (r : ℤ × AfuEvent) : Prop :=
  (r.1 ≠ tlxSuccess ∧ r.2 = e) ∨
    (r.1 = tlxSuccess ∧ ∀ c', r.2.counter c' = if c' = c then e.counter c' - 1 else e.counter c')

theorem TakesCredit.ite {c : CreditClass} {e : AfuEvent} {p : Prop} [Decidable p] {rc : ℤ}
    (hrc : rc ≠ tlxSuccess) {r : ℤ × AfuEvent} (h : TakesCredit c e r) :
    TakesCredit c e (if p then (rc, e) else r) := by
  by_cases hp : p
  · rw [if_pos hp]
    exact .inl ⟨hrc, rfl⟩
  · rw [if_neg hp]
    exact h

theorem HostCall.takesCredit {call : HostCall} {c : CreditClass} (h : call.stages = some c) (e : AfuEvent) :
    TakesCredit c e (call.apply e) := by
  cases call <;> simp only [stages, Option.some.injEq, reduceCtorEq] at h <;> subst h
  case sendResp => exact .ite (by decide) (.ite (by decide) (.inr ⟨rfl, by rintro (_ | _ | _) <;> rfl⟩))
  case sendRespAndData =>
    exact .ite (by decide) (.ite (by decide) (.inr ⟨rfl, by rintro (_ | _ | _) <;> rfl⟩))
  case sendPostedCmd => exact .ite (by decide) (.ite (by decide) (.inr ⟨rfl, by rintro (_ | _ | _) <;> rfl⟩))
  case sendCmd => exact .ite (by decide) (.ite (by decide) (.inr ⟨rfl, by rintro (_ | _ | _) <;> rfl⟩))
  case sendCmdAndData =>
    exact .ite (by decide) (.ite (by decide) (.inr ⟨rfl, by rintro (_ | _ | _) <;> rfl⟩))
  case sendCfgCmdAndData =>
    exact .ite (by decide) (.ite (by decide) (.ite (by decide)
      (.inr ⟨rfl, by rintro (_ | _ | _) <;> rfl⟩)))

/-- The other calls touch no counter, but for the parse of a frame. -/
theorem HostCall.counter_of_not_stages {call : HostCall} (h : call.stages = none) (e : AfuEvent)
    (c : CreditClass) :
    (call.apply e).2.counter c = if call.returns c then e.counter c + 1 else e.counter c := by
  cases call with
  | receive rbuf cmdCnt => exact receiveFrame_counter e rbuf cmdCnt c
  | signal =>
    change (tlxSignalAfuModel e).2.1.counter c = e.counter c
    unfold tlxSignalAfuModel
    split_ifs <;> cases c <;> rfl
  | readCmdAndData =>
    change (afuTlxReadCmdAndData e).2.counter c = e.counter c
    unfold afuTlxReadCmdAndData
    split_ifs <;> cases c <;> rfl
  | readCmdData =>
    change (afuTlxReadCmdData e).2.counter c = e.counter c
    unfold afuTlxReadCmdData
    split_ifs <;> cases c <;> rfl
  | readResp =>
    change (afuTlxReadResp e).2.counter c = e.counter c
    unfold afuTlxReadResp
    split_ifs <;> cases c <;> rfl
  | readRespData =>
    change (afuTlxReadRespData e).2.counter c = e.counter c
    unfold afuTlxReadRespData
    split_ifs <;> cases c <;> rfl
  | readCfgRespAndData requestedCapptag =>
    change (afuTlxReadCfgRespAndData e requestedCapptag).2.counter c = e.counter c
    unfold afuTlxReadCfgRespAndData
    split_ifs <;> cases c <;> rfl
  | _ => simp [stages] at h

/-! ## When the books stay in order -/

/-- A memory command is refused or finds a credit, and no credit comes back to a counter that is full. -/
def HostCall.Covered (l : Ledger) (call : HostCall) : Prop :=
  (call.isMemCmd = true → l.event.tlxCmd.valid = 1 ∨ l.event.counter .cmd ≠ 0) ∧
    ∀ c, call.returns c → l.event.counter c ≠ 255

/-- A call finds a credit, unless it is a memory command that is staged with none. -/
theorem HostCall.credit_of_stages {call : HostCall} {e : AfuEvent} {c : CreditClass} (h : call.Stages e c)
    (hmem : call.isMemCmd = true → e.tlxCmd.valid = 1 ∨ e.counter .cmd ≠ 0) : e.counter c ≠ 0 := by
  obtain ⟨hclass, hsuccess⟩ := h
  cases call <;> simp only [stages, Option.some.injEq, reduceCtorEq] at hclass <;> subst hclass <;>
    simp only [apply] at hsuccess
  case sendResp =>
    intro (hzero : e.afuTlxRespCreditsAvailable = 0)
    rw [tlxAfuSendResp, if_pos hzero] at hsuccess
    exact absurd hsuccess (show afuTlxNoCredits ≠ tlxSuccess by decide)
  case sendRespAndData =>
    intro (hzero : e.afuTlxRespCreditsAvailable = 0)
    rw [tlxAfuSendRespAndData, if_pos hzero] at hsuccess
    exact absurd hsuccess (show afuTlxNoCredits ≠ tlxSuccess by decide)
  case sendPostedCmd =>
    intro (hzero : e.afuTlxRespCreditsAvailable = 0)
    rw [tlxAfuSendPostedCmd, if_pos hzero] at hsuccess
    exact absurd hsuccess (show afuTlxNoCredits ≠ tlxSuccess by decide)
  case sendCmd =>
    refine (hmem rfl).resolve_left (fun hvalid => ?_)
    rw [tlxAfuSendCmd, if_pos hvalid] at hsuccess
    split_ifs at hsuccess <;> simp [tlxSuccess, cfgTlxNotCfgCmd, tlxAfuDoubleCommand] at hsuccess
  case sendCmdAndData =>
    refine (hmem rfl).resolve_left (fun hvalid => ?_)
    rw [tlxAfuSendCmdAndData, if_pos hvalid] at hsuccess
    split_ifs at hsuccess <;> simp [tlxSuccess, cfgTlxNotCfgCmd, tlxAfuDoubleCommand] at hsuccess
  case sendCfgCmdAndData =>
    intro (hzero : e.cfgTlxCreditsAvailable = 0)
    rw [tlxAfuSendCfgCmdAndData, if_pos hzero] at hsuccess
    split_ifs at hsuccess <;>
      simp [tlxSuccess, tlxAfuDoubleCmdAndData, cfgTlxNotCfgCmd, cfgTlxNoCredits] at hsuccess

/-- A memory command with a free slot is staged, whatever its counter says. -/
theorem HostCall.memCmd_stages {call : HostCall} {e : AfuEvent} (hmem : call.isMemCmd = true)
    (hfree : e.tlxCmd.valid ≠ 1) : call.Stages e .cmd := by
  have hboth : ∀ opcode : UInt8, ¬(opcode = tlxCmdConfigRead ∧ opcode = tlxCmdConfigWrite) := by
    rintro opcode ⟨rfl, hwrite⟩
    exact absurd hwrite (by decide)
  cases call <;> simp only [isMemCmd, Bool.false_eq_true] at hmem
  case sendCmd => exact ⟨rfl, by simp [apply, tlxAfuSendCmd, hboth, hfree]⟩
  case sendCmdAndData => exact ⟨rfl, by simp [apply, tlxAfuSendCmdAndData, hboth, hfree]⟩

theorem HostCall.not_returns_of_stages {call : HostCall} {c : CreditClass} (h : call.stages = some c)
    (c' : CreditClass) : ¬call.returns c' := by
  cases call <;> simp [stages, returns] at h ⊢

/-- A byte counts down when there is something left, and up when it is not full. -/
theorem toNat_pred {x : UInt8} (h : x ≠ 0) : (x - 1).toNat + 1 = x.toNat := by
  have hpos : x.toNat ≠ 0 := fun hzero => h (UInt8.toNat_inj.mp (by simpa using hzero))
  rw [UInt8.toNat_sub_of_le _ _ (by rw [UInt8.le_iff_toNat_le]; simp; omega)]
  simp
  omega

theorem toNat_succ {x : UInt8} (h : x ≠ 255) : (x + 1).toNat = x.toNat + 1 := by
  have hlt : x.toNat < 256 := x.toNat_lt
  have hne : x.toNat ≠ 255 := fun hfull => h (UInt8.toNat_inj.mp (by simpa using hfull))
  rw [UInt8.toNat_add]
  simp
  omega

theorem Ledger.step_balanced_iff {initial : CreditClass → ℕ} {l : Ledger} (h : l.Balanced initial)
    (call : HostCall) : (l.step call).Balanced initial ↔ call.Covered l := by
  obtain ⟨hbalance, hcovered⟩ := h
  cases hstages : call.stages with
  | some c =>
    have hreturns := HostCall.not_returns_of_stages hstages
    rcases HostCall.takesCredit hstages l.event with ⟨hfail, hsame⟩ | ⟨hsuccess, hcounter⟩
    · have hnot : ∀ c, ¬call.Stages l.event c := fun c h => hfail h.2
      refine iff_of_true ⟨fun c => ?_, by simp [Ledger.step, hcovered, hnot]⟩ ⟨fun hmem => ?_, ?_⟩
      · simp only [Ledger.step, hsame, if_neg (hnot c), if_neg (hreturns c)]
        exact hbalance c
      · by_contra hnone
        exact hnot .cmd (HostCall.memCmd_stages hmem (not_or.mp hnone).1)
      · exact fun c hc => absurd hc (hreturns c)
    · have hthis : call.Stages l.event c := ⟨hstages, hsuccess⟩
      have hother : ∀ c', call.Stages l.event c' ↔ c' = c := fun c' =>
        ⟨fun h => Option.some.inj (h.1.symm.trans hstages), fun h => h ▸ hthis⟩
      constructor
      · rintro ⟨-, hcovered'⟩
        have hcredit : l.event.counter c ≠ 0 := by
          intro hzero
          simp [Ledger.step, hstages, hthis, hzero] at hcovered'
        refine ⟨fun hmem => .inr ?_, fun c' hc' => absurd hc' (hreturns c')⟩
        have hclass : c = .cmd := by
          cases call <;> simp [HostCall.isMemCmd, HostCall.stages] at hmem hstages
          all_goals exact hstages.symm
        exact hclass ▸ hcredit
      · rintro ⟨hmem, -⟩
        have hcredit := HostCall.credit_of_stages hthis hmem
        refine ⟨fun c' => ?_, ?_⟩
        · have hb := hbalance c'
          simp only [Ledger.step, hcounter, hother, if_neg (hreturns c')]
          by_cases hc : c' = c
          · subst hc
            have hpred := toNat_pred hcredit
            simp only [if_pos]
            omega
          · simp only [if_neg hc]
            omega
        · simp [Ledger.step, hcovered, hstages, hcredit]
  | none =>
    have hnot : ∀ c, ¬call.Stages l.event c := fun c h => by simp [HostCall.Stages, hstages] at h
    have hmem : call.isMemCmd = false := by cases call <;> simp [HostCall.stages, HostCall.isMemCmd] at hstages ⊢
    have hcounter := HostCall.counter_of_not_stages hstages l.event
    constructor
    · rintro ⟨hbalance', -⟩
      refine ⟨by simp [hmem], fun c hc hfull => ?_⟩
      have hc' := hbalance' c
      have hb := hbalance c
      simp only [Ledger.step, hcounter, if_pos hc, if_neg (hnot c), hfull] at hc'
      rw [hfull] at hb
      simp at hc' hb
      omega
    · rintro ⟨-, hfull⟩
      refine ⟨fun c => ?_, by simp [Ledger.step, hcovered, hstages]⟩
      have hb := hbalance c
      simp only [Ledger.step, hcounter, if_neg (hnot c)]
      by_cases hc : call.returns c
      · have hsucc := toNat_succ (hfull c hc)
        simp only [if_pos hc]
        omega
      · simp only [if_neg hc]
        omega

/-! ## Runs -/

theorem openLedger_balanced {e : AfuEvent} (h : e.afuCreditReq.valid ≠ 0) :
    (openLedger e).Balanced e.initial := by
  refine ⟨fun c => ?_, rfl⟩
  unfold openLedger afuTlxReadInitialCredits
  rw [if_neg h]
  cases c <;> simp [AfuEvent.counter, AfuEvent.initial]

/-- In every run the books are in order in every state just when every call is covered. -/
theorem hostCredits_iff (e : AfuEvent) (h : e.afuCreditReq.valid ≠ 0) (calls : List HostCall) :
    (∀ pre, pre <+: calls → ((openLedger e).run pre).Balanced e.initial) ↔
      Along Ledger.step (fun l call => call.Covered l) (openLedger e) calls :=
  along_iff_prefixes (Ledger.Balanced e.initial) (fun _ call hl => Ledger.step_balanced_iff hl call)
    (openLedger_balanced h) calls

theorem fill_counter (e : AfuEvent) (s : Socket) (n : ℕ) (c : CreditClass) :
    (e.fill s n).2.1.counter c = e.counter c := by
  unfold AfuEvent.fill
  split <;> cases c <;> rfl

theorem fillHead_counter (e : AfuEvent) (s : Socket) (c : CreditClass) :
    (e.fillHead s).2.1.counter c = e.counter c := by
  unfold AfuEvent.fillHead
  split_ifs
  · exact fill_counter e s 1 c
  · rfl

/-- However little of a frame arrives, `tlx_get_afu_events` counts as one received frame does. -/
theorem tlxGetAfuEvents_counter (e : AfuEvent) (s : Socket) : ∃ rbuf cmdCnt, ∀ c,
    (tlxGetAfuEvents e s).2.1.counter c = (receiveFrame e rbuf cmdCnt).counter c := by
  have hclock : ∀ c, (receiveFrame e (Buffer.const 0x10) 0).counter c = e.counter c :=
    fun c => (receiveFrame_counter e _ 0 c).trans (if_neg (by cases c <;> decide))
  have hstay : ∀ e' : AfuEvent, (∀ c, e'.counter c = e.counter c) →
      ∃ rbuf cmdCnt, ∀ c, e'.counter c = (receiveFrame e rbuf cmdCnt).counter c :=
    fun e' h => ⟨Buffer.const 0x10, 0, fun c => (h c).trans (hclock c).symm⟩
  unfold tlxGetAfuEvents
  have h₁ := fillHead_counter e s
  generalize e.fillHead s = r₁ at h₁ ⊢
  rcases r₁ with ⟨_ | rc, e₁, s₁⟩
  · have hlow : ∀ c, (lowerClock e₁).counter c = e.counter c :=
      fun c => (lowerClock_counter e₁ c).trans (h₁ c)
    simp only
    split
    · exact hstay _ (fun c => by cases c; exacts [hlow .cmd, hlow .resp, hlow .cfg])
    · have h₂ := fill_counter (lowerClock e₁) s₁ 4
      generalize (lowerClock e₁).fill s₁ 4 = r₂ at h₂ ⊢
      rcases r₂ with ⟨_ | rc, e₂, s₂⟩
      · have h₃ := fill_counter e₂ s₂ (remaining (afuEventsLength e₂.rbuf) e₂.rbp)
        simp only
        generalize e₂.fill s₂ (remaining (afuEventsLength e₂.rbuf) e₂.rbp) = r₃ at h₃ ⊢
        rcases r₃ with ⟨_ | rc, e₃, s₃⟩
        · have hsame : ∀ c, e₃.counter c = e.counter c :=
            fun c => (h₃ c).trans ((h₂ c).trans (hlow c))
          simp only
          split
          · exact hstay e₃ hsame
          · -- The frame is complete and parsed.
            by_cases hhead : e₃.rbuf 0 = 0x10
            · refine hstay _ (fun c => ?_)
              have hnone : ¬present e₃.rbuf 0x01 := by
                rw [present, hhead]
                decide
              rw [parseAfuEvents_counter, hsame, if_neg (by cases c <;> exact fun h => hnone h.1)]
            · refine ⟨e₃.rbuf, byteCnt e₂.rbuf 0x04 1, fun c => ?_⟩
              rw [parseAfuEvents_counter, receiveFrame_counter, hsame]
        · exact hstay e₃ (fun c => (h₃ c).trans ((h₂ c).trans (hlow c)))
      · exact hstay e₂ (fun c => (h₂ c).trans (hlow c))
  · exact hstay e₁ h₁

/-- What `send_mmio` does to the interface is one call. -/
theorem transmit_call (e : MmioEvent) (a : AfuEvent) : ∃ call : HostCall, e.transmit a = call.apply a := by
  unfold MmioEvent.transmit
  split_ifs
  · exact ⟨.sendCfgCmdAndData .., rfl⟩
  · exact ⟨.sendCfgCmdAndData .., rfl⟩
  · exact ⟨.sendCmd .., rfl⟩
  · exact ⟨.sendCmd .., rfl⟩
  · exact ⟨.sendCmdAndData .., rfl⟩
  · exact ⟨.sendCmdAndData .., rfl⟩
  · exact ⟨.sendCmdAndData .., rfl⟩

/-- An AFU that gives `cmd` command credits to begin with. -/
def sampleAfuCredits (cmd : UInt8) : AfuEvent :=
  { tlxEventReset with afuCreditReq := ⟨1, 4, cmd, 4, 0, 0, 0, 0, 0, 0, 0⟩ }

/-- The command of a 64-bit MMIO read of address 0. -/
def sampleReadCall : HostCall := .sendCmd tlxCmdPrRdMem 0xcafe 0 3 0 0 0

theorem sampleRead_balanced :
    ((openLedger (sampleAfuCredits 1)).run [sampleReadCall, .signal]).Balanced (sampleAfuCredits 1).initial := by
  refine (hostCredits_iff (sampleAfuCredits 1) (by decide) [sampleReadCall, .signal]).mpr ?_ _ List.prefix_rfl
  exact ⟨⟨fun _ => .inr (by decide), fun _ hc => absurd hc id⟩,
    ⟨fun hmem => absurd hmem (by decide), fun _ hc => absurd hc id⟩, trivial⟩

/-- The AFU gives no command credit and a client reads a register: the engine stages the command, and the
counter goes round to 255. -/
theorem mmioRead_overdraws :
    let m := (mmioInit (openLedger (sampleAfuCredits 0)).event).run
      [.mmio 0 ⟨0, 0, 0, 0, 0⟩ true true true 0 0, .send]
    let l := (openLedger (sampleAfuCredits 0)).run [sampleReadCall]
    m.trace = [.added 0, .sent 0] ∧ m.afuEvent.tlxCmd.valid = 1 ∧ m.afuEvent.counter .cmd = 255 ∧
      l.event.counter .cmd = 255 ∧ l.overdrawn = true ∧ ¬l.Balanced (sampleAfuCredits 0).initial := by
  refine ⟨by decide, by decide, by decide, by decide, by decide, ?_⟩
  rintro ⟨-, hcovered⟩
  exact absurd hcovered (by decide)

end Ocse
