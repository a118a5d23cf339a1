import Ocse.Lib.Relay
import Ocse.LinkGroups

/-!
# The TLX link delivers each message once and in order

The host and the driver of the AFU with the bytes between them, in any order of their steps. The host
stages, reads and signals; the driver is called with its clock high and low in turn, and waits with the
clock high until a frame is there. `sent` and `driven` list the messages of the host as they are staged and
as the driver drives them; `issued` and `read` those of the AFU as the driver stages them and as the host
reads them. A message of the AFU that the host has not read is lost with the next frame that has a group.
-/

namespace Ocse

structure TlxLink where
  host : AfuEvent
  driver : Bfm
  toAfu : List UInt8
  toHost : List UInt8
  sent : HostChannel → List HostMessage
  driven : HostChannel → List HostMessage
  issued : AfuChannel → List AfuMessage
  read : AfuChannel → List AfuMessage
  lost : AfuChannel → ℕ

inductive TlxStep
  | readCredits
  | handle (call : { call : HostCall // call.isHandler = true })
  | readRespAndData
  | signal
  | receive
  | high
  | low (pins : AfuPins)

/-- What a list of calls stages, each after those before it. -/
def stagedBy (c : AfuChannel) : AfuEvent → List StageCall → List AfuMessage
  | _, [] => []
  | e, call :: calls => call.puts (call.apply e).1 c ++ stagedBy c (call.apply e).2 calls

namespace TlxLink

/-- Both ends after the handshake; the host has staged its initial credits. -/
def init (cmd resp cmdData respData : UInt8) : TlxLink where
  host := tlxAfuSendInitialCredits tlxEventReset cmd resp cmdData respData
  driver := Bfm.init
  toAfu := []
  toHost := []
  sent _ := []
  driven _ := []
  issued _ := []
  read _ := []
  lost _ := 0

def reads (l : TlxLink) (msgs : List AfuMessage) (host : AfuEvent) : TlxLink :=
  { l with host, read := fun c => l.read c ++ msgs.filter (fun m => m.channel = c) }

def step (l : TlxLink) : TlxStep → TlxLink
  | .readCredits => { l with host := (afuTlxReadInitialCredits l.host).2 }
  | .handle call =>
    let (rc, host) := call.1.apply l.host
    { l.reads (call.1.reads l.host) host with sent := fun c => l.sent c ++ call.1.puts rc c }
  | .readRespAndData => l.reads (respAndDataRead l.host) (afuTlxReadRespAndData l.host).2
  | .signal =>
    let (_, host, frame) := tlxSignalAfuModel l.host
    { l with host, toAfu := l.toAfu ++ frame }
  | .receive =>
    let (rc, host, s) := tlxGetAfuEvents l.host (Socket.whole l.toHost)
    { l with
      host
      toHost := s.stream
      lost := fun c => l.lost c + if rc = 1 ∧ l.toHost ≠ [0x10] then (l.host.afuStanding c).length else 0 }
  | .high =>
    let (rc, event, s) := tlxGetTlxEvents l.driver.event (Socket.whole l.toAfu)
    if l.driver.low = false ∧ rc ≠ 0 then
      { l with driver := { l.driver with event, low := true }, toAfu := s.stream, toHost := l.toHost ++ s.sent }
    else l
  | .low pins =>
    if l.driver.low = true then
      let d := l.driver.initialCredits pins
      let event := { d.event with afuCreditReq := pins.returnCredits d.event.afuCreditReq }
      { l with
        driver := l.driver.tlxBfmLow pins
        driven := fun c => l.driven c ++ (d.stage pins).event.hostDriven c
        issued := fun c => l.issued c ++ stagedBy c event (d.calls pins) }
    else l

def run (l : TlxLink) (steps : List TlxStep) : TlxLink := steps.foldl step l

/-! ## The driver with its clock low -/

/-- What a list of calls does to the groups of the driver. -/
structure StagesAll (calls : List StageCall) (e e' : AfuEvent) : Prop where
  order : DriverOrder e'
  driven : ∀ c, e'.hostDriven c = e.hostDriven c
  staged : ∀ c, e'.afuStanding c = e.afuStanding c ++ stagedBy c e calls

/-- Calls for different groups, of which none is staged, each stage their own. -/
theorem foldl_stages (calls : List StageCall) (e : AfuEvent) (hr : DriverOrder e)
    (hcalls : ∀ call ∈ calls, call.channels ≠ [] ∧ ∀ c ∈ call.channels, e.afuStanding c = [])
    (hapart : calls.Pairwise fun call later => ∀ c ∈ later.channels, c ∉ call.channels) :
    StagesAll calls e (calls.foldl (fun e call => (call.apply e).2) e) := by
  induction calls generalizing e with
  | nil => exact ⟨hr, fun _ => rfl, fun c => (List.append_nil _).symm⟩
  | cons call calls ih =>
    obtain ⟨hfirst, hrest⟩ := List.pairwise_cons.mp hapart
    obtain ⟨hcall, hfree⟩ := hcalls call List.mem_cons_self
    have hput := call.driver_puts hcall e hr hfree
    have hlater := ih (call.apply e).2 hput.order (fun later hmem => ⟨(hcalls later (.tail _ hmem)).1, fun c hc => by
      rw [hput.puts, StageCall.puts_eq_nil (hfirst later hmem c hc), List.append_nil]
      exact (hcalls later (.tail _ hmem)).2 c hc⟩) hrest
    refine ⟨hlater.order, fun c => (hlater.driven c).trans (hput.driven c), fun c => ?_⟩
    rw [List.foldl_cons, hlater.staged, hput.puts, List.append_assoc]
    rfl

theorem calls_apart (d : Bfm) (pins : AfuPins) :
    (∀ call ∈ d.calls pins, call.channels ≠ []) ∧
      (d.calls pins).Pairwise fun call later => ∀ c ∈ later.channels, c ∉ call.channels := by
  unfold Bfm.calls AfuPins.cmdCalls AfuPins.cdataCalls AfuPins.respCalls
  split_ifs <;> simp [StageCall.channels]

theorem and_one_flag (x : UInt8) : x &&& 0x1 = 0 ∨ x &&& 0x1 = 1 := by
  have hmod : (x &&& 0x1).toNat = x.toNat % 2 := by
    rw [UInt8.toNat_and]
    exact Nat.and_one_is_mod _
  rcases Nat.mod_two_eq_zero_or_one x.toNat with h | h
  · exact .inl (UInt8.toNat_inj.mp (hmod.trans h))
  · exact .inr (UInt8.toNat_inj.mp (hmod.trans h))

theorem logicBit_flag (x : UInt8) : logicBit x = 0 ∨ logicBit x = 1 := by
  unfold logicBit
  split_ifs
  · exact .inl rfl
  · exact and_one_flag x

/-- The groups that carry messages, and the flags of returned credits. -/
structure SameMessages (e e' : AfuEvent) : Prop where
  order : DriverOrder e'
  driven : ∀ c, e'.hostDriven c = e.hostDriven c
  standing : ∀ c, e'.afuStanding c = e.afuStanding c

theorem initialCredits_same (d : Bfm) (pins : AfuPins) (hr : DriverOrder d.event) :
    SameMessages d.event (d.initialCredits pins).event := by
  have hsend : ∀ e : AfuEvent, DriverOrder e → ∀ cmd cfg resp, SameMessages e (afuTlxSendInitialCredits e cmd cfg resp) := by
    intro e he cmd cfg resp
    exact ⟨⟨he.rbp, he.cmdData, he.respData, ⟨he.returns.resp, he.returns.cmd, he.returns.cfg⟩⟩,
      by rintro (_ | _ | _) <;> rfl, by rintro (_ | _ | _ | _ | _) <;> rfl⟩
  have hread : ∀ e : AfuEvent, DriverOrder e → SameMessages e (tlxAfuReadInitialCredits e).2 := by
    intro e he
    unfold tlxAfuReadInitialCredits
    split_ifs
    · exact ⟨he, fun _ => rfl, fun _ => rfl⟩
    · exact ⟨⟨he.rbp, he.cmdData, he.respData, he.returns⟩, by rintro (_ | _ | _) <;> rfl,
        by rintro (_ | _ | _ | _ | _) <;> rfl⟩
  unfold Bfm.initialCredits
  dsimp only
  split_ifs
  · exact ⟨hr, fun _ => rfl, fun _ => rfl⟩
  · exact hread d.event hr
  · exact hsend d.event hr _ _ _
  · have h := hsend d.event hr (pins.cmdInitialCredit &&& 0x7F) (pins.cfgInitialCredit &&& 0x0F)
      (pins.respInitialCredit &&& 0x7F)
    have h' := hread _ h.order
    exact ⟨h'.order, fun c => (h'.driven c).trans (h.driven c), fun c => (h'.standing c).trans (h.standing c)⟩

theorem returnCredits_same (e : AfuEvent) (pins : AfuPins) (hr : DriverOrder e) :
    SameMessages e { e with afuCreditReq := pins.returnCredits e.afuCreditReq } := by
  refine ⟨⟨hr.rbp, hr.cmdData, hr.respData, ⟨logicBit_flag _, logicBit_flag _, ?_⟩⟩, by rintro (_ | _ | _) <;> rfl,
    by rintro (_ | _ | _ | _ | _) <;> rfl⟩
  simp only [AfuPins.returnCredits]
  split_ifs
  · exact hr.returns.cfg
  · exact and_one_flag _

theorem drive_clear (d : Bfm) (hr : DriverOrder d.event) :
    DriverOrder d.drive.event ∧ (∀ c, d.drive.event.hostDriven c = []) ∧
      ∀ c, d.drive.event.afuStanding c = d.event.afuStanding c := by
  have hcmd : (if d.event.tlxCmd.valid ≠ 0 then 0 else d.event.tlxCmdData.valid) = 0 := by
    split_ifs with hv
    · rfl
    · by_contra hd
      exact hv (hr.cmdData hd)
  have hresp : (if d.event.tlxResp.valid ≠ 0 then 0 else d.event.tlxRespData.valid) = 0 := by
    split_ifs with hv
    · rfl
    · by_contra hd
      exact hv (hr.respData hd)
  exact ⟨⟨hr.rbp, fun hd => absurd hcmd hd, fun hd => absurd hresp hd, hr.returns⟩, by rintro (_ | _ | _) <;> rfl,
    by rintro (_ | _ | _ | _ | _) <;> rfl⟩

/-! ## The invariant -/

/-- The one frame of the link, with the messages in flight. -/
inductive Phase (l : TlxLink) : (HostChannel → List HostMessage) → (AfuChannel → List AfuMessage) → Prop
  | host (clock : l.host.clock = 0) (toAfu : l.toAfu = []) (toHost : l.toHost = []) :
      Phase l (fun _ => []) (fun _ => [])
  | asked (e : AfuEvent) (clock : e.clock = 0) (order : HostOrder e) (busy : l.host.clock = 1)
      (toAfu : l.toAfu = (tlxSignalAfuModel e).2.2) (toHost : l.toHost = []) : Phase l e.hostStaged (fun _ => [])
  | answered (a : AfuEvent) (clock : a.clock = 1) (returns : ReturnFlags a.afuCreditReq) (busy : l.host.clock = 1)
      (toAfu : l.toAfu = []) (toHost : l.toHost = (tlxSignalTlxModel a).2.2) : Phase l (fun _ => []) a.afuStanding

structure Inv (l : TlxLink) (down : HostChannel → List HostMessage) (up : AfuChannel → List AfuMessage) : Prop where
  phase : l.Phase down up
  hostRbp : l.host.rbp = 0
  hostOrder : HostOrder l.host
  driverOrder : DriverOrder l.driver.event
  high : l.driver.low = false → ∀ c, l.driver.event.hostDriven c = []
  low : l.driver.low = true → ∀ c, l.driver.event.afuStanding c = []
  sent : ∀ c, Relayed 0 (l.sent c) (l.driven c) (l.driver.event.hostDriven c) (down c) (l.host.hostStaged c)
  issued : ∀ c, Relayed (l.lost c) (l.issued c) (l.read c) (l.host.afuStanding c) (up c)
    (l.driver.event.afuStanding c)

theorem init_inv (cmd resp cmdData respData : UInt8) :
    (init cmd resp cmdData respData).Inv (fun _ => []) (fun _ => []) where
  phase := .host rfl rfl rfl
  hostRbp := rfl
  hostOrder := ⟨.inl rfl, .inl rfl, .inl rfl, fun h => absurd rfl h, fun h => absurd rfl h, Nat.zero_le _, Nat.zero_le _⟩
  driverOrder := ⟨rfl, fun h => absurd rfl h, fun h => absurd rfl h, ⟨.inl rfl, .inl rfl, .inl rfl⟩⟩
  high _ := by rintro (_ | _ | _) <;> rfl
  low h := absurd h (Bool.false_ne_true)
  sent := by rintro (_ | _ | _) <;> exact .start
  issued := by rintro (_ | _ | _ | _ | _) <;> exact .start

variable {l : TlxLink} {down : HostChannel → List HostMessage} {up : AfuChannel → List AfuMessage}

/-- The host does something to its event and leaves the clock and the wires alone. -/
theorem Phase.handled (h : l.Phase down up) {l' : TlxLink} (hclock : l'.host.clock = l.host.clock)
    (htoAfu : l'.toAfu = l.toAfu) (htoHost : l'.toHost = l.toHost) : l'.Phase down up := by
  cases h with
  | host clock toAfu toHost => exact .host (hclock.trans clock) (htoAfu.trans toAfu) (htoHost.trans toHost)
  | asked e clock order busy toAfu toHost =>
    exact .asked e clock order (hclock.trans busy) (htoAfu.trans toAfu) (htoHost.trans toHost)
  | answered a clock returns busy toAfu toHost =>
    exact .answered a clock returns (hclock.trans busy) (htoAfu.trans toAfu) (htoHost.trans toHost)

theorem Inv.readCredits (h : l.Inv down up) : (l.step .readCredits).Inv down up := by
  have hsame : ((afuTlxReadInitialCredits l.host).2.clock = l.host.clock ∧
      (afuTlxReadInitialCredits l.host).2.rbp = l.host.rbp) ∧ (HostOrder (afuTlxReadInitialCredits l.host).2 ∧
      ∀ c, (afuTlxReadInitialCredits l.host).2.hostStaged c = l.host.hostStaged c) ∧
      ∀ c, (afuTlxReadInitialCredits l.host).2.afuStanding c = l.host.afuStanding c := by
    unfold afuTlxReadInitialCredits
    by_cases hvalid : l.host.afuCreditReq.valid = 0
    · rw [if_pos hvalid]
      exact ⟨⟨rfl, rfl⟩, ⟨h.hostOrder, fun _ => rfl⟩, fun _ => rfl⟩
    · rw [if_neg hvalid]
      exact ⟨⟨rfl, rfl⟩, h.hostOrder.congr rfl rfl rfl rfl rfl, by rintro (_ | _ | _ | _ | _) <;> rfl⟩
  obtain ⟨⟨hclock, hrbp⟩, ⟨horder, hstaged⟩, hstanding⟩ := hsame
  refine ⟨h.phase.handled hclock rfl rfl, hrbp.trans h.hostRbp, horder, h.driverOrder, h.high, h.low, fun c => ?_,
    fun c => ?_⟩
  · exact (hstaged c).symm ▸ h.sent c
  · exact (hstanding c).symm ▸ h.issued c

theorem Inv.handle (h : l.Inv down up) (call : { call : HostCall // call.isHandler = true }) :
    (l.step (.handle call)).Inv down up := by
  have hkept := HostCall.handler_kept call.2 l.host
  have hputs := HostCall.handler_puts call.2 l.host h.hostOrder
  have hreads := HostCall.handler_reads call.2 l.host
  exact ⟨h.phase.handled hkept.clock rfl rfl, hkept.rbp.trans h.hostRbp, hputs.order, h.driverOrder, h.high, h.low,
    fun c => (h.sent c).put (hputs.puts c), fun c => (h.issued c).take (hreads c)⟩

theorem Inv.readRespAndData (h : l.Inv down up) : (l.step .readRespAndData).Inv down up := by
  have hsame : ((afuTlxReadRespAndData l.host).2.clock = l.host.clock ∧
      (afuTlxReadRespAndData l.host).2.rbp = l.host.rbp) ∧ HostOrder (afuTlxReadRespAndData l.host).2 ∧
      ∀ c, (afuTlxReadRespAndData l.host).2.hostStaged c = l.host.hostStaged c := by
    unfold afuTlxReadRespAndData
    by_cases hvalid : l.host.afuResp.valid = 0
    · rw [if_pos hvalid]
      exact ⟨⟨rfl, rfl⟩, h.hostOrder, fun _ => rfl⟩
    · rw [if_neg hvalid]
      exact ⟨⟨rfl, rfl⟩, h.hostOrder.congr rfl rfl rfl rfl rfl⟩
  obtain ⟨⟨hclock, hrbp⟩, horder, hstaged⟩ := hsame
  refine ⟨h.phase.handled hclock rfl rfl, hrbp.trans h.hostRbp, horder, h.driverOrder, h.high, h.low, fun c => ?_,
    fun c => (h.issued c).take (afuTlxReadRespAndData_reads l.host c)⟩
  exact (hstaged c).symm ▸ h.sent c

/-- A signal sends what is staged, or finds the clock up and does nothing. -/
theorem Inv.signal (h : l.Inv down up) : ∃ down', (l.step .signal).Inv down' up := by
  by_cases hclock : l.host.clock = 0
  · obtain ⟨-, htoAfu, htoHost⟩ | ⟨-, -, -, hbusy, -⟩ | ⟨-, -, -, hbusy, -⟩ := h.phase
    · have hsig := tlxSignalAfuModel_signalled l.host hclock h.hostOrder
      refine ⟨l.host.hostStaged, .asked l.host hclock h.hostOrder hsig.clock ?_ htoHost, hsig.rbp.trans h.hostRbp,
        hsig.order, h.driverOrder, h.high, h.low, fun c => ?_, fun c => ?_⟩
      · change l.toAfu ++ (tlxSignalAfuModel l.host).2.2 = _
        rw [htoAfu, List.nil_append]
      · change Relayed 0 (l.sent c) (l.driven c) (l.driver.event.hostDriven c) (l.host.hostStaged c)
          ((tlxSignalAfuModel l.host).2.1.hostStaged c)
        rw [hsig.staged]
        exact (h.sent c).depart
      · exact (hsig.standing c).symm ▸ h.issued c
    all_goals exact absurd (hclock.symm.trans hbusy) (by decide)
  · have hsame : l.step .signal = l := by
      simp [step, tlxSignalAfuModel, hclock]
    exact ⟨down, hsame.symm ▸ h⟩

theorem receive_idle (hrbp : l.host.rbp = 0) (htoHost : l.toHost = []) : l.step .receive = l := by
  obtain ⟨host, driver, toAfu, toHost, sent, driven, issued, read, lost⟩ := l
  subst htoHost
  have hnil := tlxGetAfuEvents_nil host hrbp
  simp only [step, hnil, zero_ne_one, false_and, if_false, Nat.add_zero, Socket.whole_stream]

theorem high_idle (hrbp : l.driver.event.rbp = 0) (htoAfu : l.toAfu = []) : l.step .high = l := by
  simp only [step, htoAfu, tlxGetTlxEvents_nil l.driver.event hrbp, ne_eq, not_true_eq_false, and_false, if_false]

/-- A frame of the AFU replaces what was not read, unless it is a clock alone. -/
theorem Inv.receive (h : l.Inv down up) : ∃ up', (l.step .receive).Inv down up' := by
  have hphase := h.phase
  cases hphase with
  | answered a hclock hreturns hbusy htoAfu htoHost =>
    obtain ⟨host, hget, hhears⟩ := tlxGetAfuEvents_carries a l.host hclock hreturns h.hostRbp h.hostOrder
    rw [← htoHost] at hget
    have hstep : l.step .receive = { l with
        host
        toHost := []
        lost := fun c => l.lost c + if l.toHost ≠ [0x10] then (l.host.afuStanding c).length else 0 } := by
      simp only [step, hget, true_and, Socket.whole_stream]
    rw [hstep]
    refine ⟨fun _ => [], .host hhears.clock htoAfu rfl, hhears.rbp, hhears.order, h.driverOrder, h.high, h.low,
      fun c => ?_, fun c => ?_⟩
    · exact (hhears.staged c).symm ▸ h.sent c
    · dsimp only
      by_cases hframe : l.toHost = [0x10]
      · obtain ⟨hnone, hsame⟩ := hhears.alone (htoHost ▸ hframe) c
        rw [if_neg (not_not.mpr hframe), Nat.add_zero, hsame, ← hnone]
        exact h.issued c
      · rw [if_pos hframe, hhears.groups (htoHost ▸ hframe) c]
        exact (h.issued c).arrive
  | host hclock htoAfu htoHost => exact ⟨_, (receive_idle h.hostRbp htoHost).symm ▸ h⟩
  | asked e hclock horder hbusy htoAfu htoHost => exact ⟨_, (receive_idle h.hostRbp htoHost).symm ▸ h⟩

/-- The driver takes in a frame and answers it with what it has staged. -/
theorem Inv.clockHigh (h : l.Inv down up) : ∃ down' up', (l.step .high).Inv down' up' := by
  by_cases hlow : l.driver.low = false
  swap
  · have hsame : l.step .high = l := if_neg fun hgo => hlow hgo.1
    exact ⟨down, up, hsame.symm ▸ h⟩
  have hphase := h.phase
  cases hphase with
  | host hclock htoAfu htoHost => exact ⟨_, _, (high_idle h.driverOrder.rbp htoAfu).symm ▸ h⟩
  | answered a hclock hreturns hbusy htoAfu htoHost =>
    exact ⟨_, _, (high_idle h.driverOrder.rbp htoAfu).symm ▸ h⟩
  | asked e hclock horder hbusy htoAfu htoHost =>
    have hidle := h.high hlow
    obtain ⟨event, answer, s, hget, hstream, hsent, hcarried⟩ :=
      tlxGetTlxEvents_carries e l.driver.event hclock horder h.driverOrder hidle
    rw [← htoAfu] at hget
    have hstep : l.step .high = { l with
        driver := { l.driver with event, low := true }
        toAfu := []
        toHost := (tlxSignalTlxModel answer).2.2 } := by
      simp only [step, hget, hlow, hstream, hsent, htoHost, List.nil_append, ne_eq, one_ne_zero, not_false_eq_true,
        and_self, if_true]
    rw [hstep]
    refine ⟨fun _ => [], answer.afuStanding, .answered answer hcarried.clock hcarried.returns hbusy rfl rfl, h.hostRbp,
      h.hostOrder, hcarried.order, fun hhigh => Bool.noConfusion hhigh, fun _ => hcarried.taken, fun c => ?_,
      fun c => ?_⟩
    · have harrive := (h.sent c).arrive
      rw [hidle c] at harrive
      exact (hcarried.driven c).symm ▸ harrive
    · have hdepart := (h.issued c).depart
      exact (hcarried.taken c).symm ▸ (hcarried.answered c).symm ▸ hdepart

/-- The driver stages what the AFU drives, and drives what the frame brought. -/
theorem Inv.clockLow (h : l.Inv down up) (pins : AfuPins) : (l.step (.low pins)).Inv down up := by
  by_cases hlow : l.driver.low = true
  swap
  · have hsame : l.step (.low pins) = l := if_neg hlow
    exact hsame.symm ▸ h
  have hcredits := initialCredits_same l.driver pins h.driverOrder
  set d := l.driver.initialCredits pins
  have hreturns := returnCredits_same d.event pins hcredits.order
  set event := { d.event with afuCreditReq := pins.returnCredits d.event.afuCreditReq }
  have hnone : ∀ c, event.afuStanding c = [] := by
    intro c
    rw [hreturns.standing, hcredits.standing]
    exact h.low hlow c
  obtain ⟨hcalls, hapart⟩ := calls_apart d pins
  have hstages := foldl_stages (d.calls pins) event hreturns.order (fun call hmem => ⟨hcalls call hmem, fun c _ => hnone c⟩)
    hapart
  change StagesAll (d.calls pins) event (d.stage pins).event at hstages
  obtain ⟨horder, hclear, hkept⟩ := drive_clear (d.stage pins) hstages.order
  have hdriven : ∀ c, (d.stage pins).event.hostDriven c = l.driver.event.hostDriven c := fun c =>
    (hstages.driven c).trans ((hreturns.driven c).trans (hcredits.driven c))
  have hstep : l.step (.low pins) = { l with
      driver := (d.stage pins).drive
      driven := fun c => l.driven c ++ (d.stage pins).event.hostDriven c
      issued := fun c => l.issued c ++ stagedBy c event (d.calls pins) } := if_pos hlow
  rw [hstep]
  refine ⟨h.phase.handled rfl rfl rfl, h.hostRbp, h.hostOrder, horder, fun _ => hclear,
    fun hl => absurd hl Bool.false_ne_true, fun c => ?_, fun c => ?_⟩
  · dsimp only
    rw [hclear, hdriven]
    exact (h.sent c).take (List.append_nil _).symm
  · apply (h.issued c).put
    dsimp only
    rw [hkept, hstages.staged, hnone, h.low hlow c]

/-! ## Runs -/

theorem Inv.step_inv (h : l.Inv down up) (st : TlxStep) : ∃ down' up', (l.step st).Inv down' up' := by
  cases st with
  | readCredits => exact ⟨down, up, h.readCredits⟩
  | handle call => exact ⟨down, up, h.handle call⟩
  | readRespAndData => exact ⟨down, up, h.readRespAndData⟩
  | signal =>
    obtain ⟨down', hl⟩ := h.signal
    exact ⟨down', up, hl⟩
  | receive =>
    obtain ⟨up', hl⟩ := h.receive
    exact ⟨down, up', hl⟩
  | high => exact h.clockHigh
  | low pins => exact ⟨down, up, h.clockLow pins⟩

theorem Inv.run_inv (h : l.Inv down up) (steps : List TlxStep) : ∃ down' up', (l.run steps).Inv down' up' := by
  induction steps generalizing l down up with
  | nil => exact ⟨down, up, h⟩
  | cons st steps ih =>
    obtain ⟨down', up', hstep⟩ := h.step_inv st
    exact ih hstep

/-- What a frame in flight carries is what its sender had staged. -/
theorem Phase.carried (h : l.Phase down up) :
    (∀ c, (down c).length = carriedDown l.toAfu c) ∧ ∀ c, (up c).length = carriedUp l.toHost c := by
  have hnone : (∀ c, carriedDown [] c = 0) ∧ ∀ c, carriedUp [] c = 0 := by
    constructor <;> intro c <;> cases c <;> rfl
  cases h with
  | host clock toAfu toHost =>
    rw [toAfu, toHost]
    exact ⟨fun c => (hnone.1 c).symm, fun c => (hnone.2 c).symm⟩
  | asked e clock order busy toAfu toHost =>
    rw [toAfu, toHost]
    exact ⟨fun c => (carriedDown_frame e clock c).symm, fun c => (hnone.2 c).symm⟩
  | answered a clock returns busy toAfu toHost =>
    rw [toAfu, toHost]
    exact ⟨fun c => (hnone.1 c).symm, fun c => (carriedUp_frame a clock c).symm⟩

end TlxLink

/-- On each channel the driver drives the first of the messages that the host staged, in their order and each
once; the others stand at the driver, are in the frame in flight, or stand at the host. -/
theorem hostMessages_delivered (cmd resp cmdData respData : UInt8) (steps : List TlxStep) (c : HostChannel) :
    let l := (TlxLink.init cmd resp cmdData respData).run steps
    l.driven c <+: l.sent c ∧ (l.sent c).length = (l.driven c).length +
      ((l.driver.event.hostDriven c).length + (carriedDown l.toAfu c + (l.host.hostStaged c).length)) := by
  intro l
  obtain ⟨down, up, hinv⟩ := (TlxLink.init_inv cmd resp cmdData respData).run_inv steps
  refine ⟨(hinv.sent c).taken_initial, ?_⟩
  rw [← hinv.phase.carried.1 c]
  exact (hinv.sent c).count

/-- On each channel the host reads messages that the driver staged, in their order and each once; those that it
has not read stand at the host, are in the frame in flight, stand at the driver, or were lost. When none was
lost it has read the first of them. -/
theorem afuMessages_delivered (cmd resp cmdData respData : UInt8) (steps : List TlxStep) (c : AfuChannel) :
    let l := (TlxLink.init cmd resp cmdData respData).run steps
    (l.read c).Sublist (l.issued c) ∧ (l.lost c = 0 → l.read c <+: l.issued c) ∧
      (l.issued c).length = (l.read c).length + ((l.host.afuStanding c).length + (carriedUp l.toHost c +
        (l.driver.event.afuStanding c).length)) + l.lost c := by
  intro l
  obtain ⟨down, up, hinv⟩ := (TlxLink.init_inv cmd resp cmdData respData).run_inv steps
  have hrelayed := hinv.issued c
  refine ⟨hrelayed.taken_sublist, fun hlost => ?_, ?_⟩
  · rw [show ((TlxLink.init cmd resp cmdData respData).run steps).lost c = 0 from hlost] at hrelayed
    exact hrelayed.taken_initial
  · rw [← hinv.phase.carried.2 c]
    exact hrelayed.count

end Ocse
