import Ocse.SlotReuse
import Ocse.SplitCoverage

/-!
# A departed client and the responses of the others

`handle_response` looks at the first event that is ready for a response and at no other. When the slot of
that event has been cleared, no response is staged for anyone, until the slot is taken again.
-/

namespace Ocse

/-! ## One call -/

/-- The call of `handle_response` stages a response. -/
def Stages (s : Ocl) (rand : ℕ) : Prop :=
  (handleResponse s rand).afuEvent.tlxResp.valid = 1 ∧
    ∃ r obs, (handleResponse s rand).trace = s.trace ++ .responded r :: obs

def Progress (s : Ocl) : Prop :=
  (∃ e ∈ s.list, e.responding = true ∧ (s.client e.context).isSome = true) → s.afuEvent.RespReady →
    ∀ rand, Stages s rand

/-- The first event that is ready for a response has a client. -/
def FirstHoused (s : Ocl) : Prop :=
  ∀ e ∈ s.list.find? CmdEvent.responding, (s.client e.context).isSome = true

theorem sendResponse_of_ready {a : AfuEvent} (h : a.RespReady) (e : CmdEvent) (bdi : UInt8) :
    (sendResponse a e bdi).1 = tlxSuccess ∧ (sendResponse a e bdi).2.tlxResp.valid = 1 := by
  unfold sendResponse
  split_ifs
  · exact tlxAfuSendResp_of_ready a h _ _ _ _ _ _ _
  · exact tlxAfuSendRespAndData_of_ready a h _ _ _ _ _ _ _ _ _
  · exact tlxAfuSendResp_of_ready a h _ _ _ _ _ _ _

theorem stages_of_housed {s : Ocl} (hs : s.Wf) {e : CmdEvent}
    (hfind : s.list.find? CmdEvent.responding = some e)
    (hhoused : (s.client e.context).isSome = true) (hready : s.afuEvent.RespReady) (rand : ℕ) :
    Stages s rand := by
  obtain ⟨c, hc⟩ := Option.isSome_iff_exists.mp hhoused
  have hget : s.getClient e = some c := by
    unfold Ocl.getClient
    rw [if_neg (Nat.not_le.mpr (hs.context e (find_mem hfind).1)), hc]
  generalize hbdi : (if percentChance s.parms.bdiRespErrPercent rand then (1 : UInt8) else 0) = bdi
  obtain ⟨hrc, hvalid⟩ := sendResponse_of_ready hready (e.prepare s.parms.hostClSize) bdi
  unfold Stages handleResponse
  simp only [hfind, hget, hbdi, hrc, if_true]
  split_ifs
  · exact ⟨hvalid, _, _, rfl⟩
  · exact ⟨hvalid, _, _, rfl⟩
  · exact ⟨hvalid, (e.prepare s.parms.hostClSize).response, [.removed e.afutag], by
      simp [Ocl.record, Ocl.freeEvent]⟩

/-- When somebody waits for a response that could be staged, one is staged exactly when the first in line
has a client. -/
theorem progress_iff {s : Ocl} (hs : s.Wf)
    (hwaiting : ∃ e ∈ s.list, e.responding = true ∧ (s.client e.context).isSome = true)
    (hready : s.afuEvent.RespReady) : (∀ rand, Stages s rand) ↔ FirstHoused s := by
  obtain ⟨x, hx, hresp, -⟩ := hwaiting
  obtain ⟨e, hfind⟩ : ∃ e, s.list.find? CmdEvent.responding = some e := by
    cases hfind : s.list.find? CmdEvent.responding with
    | none => exact absurd hresp (List.find?_eq_none.mp hfind x hx)
    | some e => exact ⟨e, rfl⟩
  constructor
  · intro hstages e' he'
    rw [hfind] at he'
    cases he'
    by_contra hnone
    have hget : s.getClient e = none := by
      unfold Ocl.getClient
      split_ifs
      · rfl
      · simpa using hnone
    obtain ⟨hvalid, -⟩ := hstages 0
    unfold handleResponse at hvalid
    simp only [hfind, hget] at hvalid
    simp [hready.2.1] at hvalid
  · intro hfirst
    exact stages_of_housed hs hfind (hfirst e hfind) hready

/-! ## Whole runs -/

/-- A slot is not cleared while one of its events is ready for a response. -/
def ClearsDrained (s : Ocl) : Action → Prop
  | .clear i => ∀ c ∈ s.client i, c.state = .none → c.idleCycles = 0 →
      ∀ e ∈ s.list, e.context = i → e.responding = false
  | _ => True

instance (s : Ocl) (a : Action) : Decidable (ClearsDrained s a) :=
  match a with
  | .clear i => inferInstanceAs (Decidable (∀ c ∈ s.client i, c.state = .none → c.idleCycles = 0 →
      ∀ e ∈ s.list, e.context = i → e.responding = false))
  | .idle _ | .signalAfu | .getAfuEvents _ | .mmio _ | .response _ | .bufferWrite _ | .pendingSent _
  | .cmd _ | .client _ _ | .cmdDataRead | .writeCmd _ | .touch _ | .interrupt _ | .writeBeOrAmo _
  | .settle _ | .associate _ => isTrue trivial

/-- Every event that is ready for a response has a client. -/
def Housed (s : Ocl) : Prop := ∀ e ∈ s.list, e.responding = true → (s.client e.context).isSome = true

theorem step_housed {s : Ocl} (hs : s.Wf) {a : Action} (hdrained : ClearsDrained s a) (h : Housed s) :
    Housed (s.step a) := by
  intro x' hx' hresp
  by_contra hgone
  have hnone : (s.step a).client x'.context = none := by simpa using hgone
  rcases step_mem_list hs hx' with ⟨x, hx, hf⟩ | ⟨cmd, c, hadds⟩
  · rw [hf.context] at hnone
    have hhoused : (s.client x.context).isSome = true := (hf.housed hresp).elim (h x hx) id
    rcases step_client_none hnone with hempty | ⟨rfl, c, hc, hstate, hidle⟩
    · simp [hempty] at hhoused
    · -- clearing a slot leaves the events alone, so the event was ready before
      have hlist : (s.step (.clear x.context)).list = s.list := by
        unfold Ocl.step Ocl.act clearSlot
        split_ifs
        · rfl
        · simp [hc, hstate, hidle, Ocl.setClient]
      have hquiet := hdrained c hc hstate hidle x' (hlist ▸ hx') hf.context
      simp [hresp] at hquiet
  · rcases step_client_none hnone with hempty | ⟨rfl, -⟩
    · simp [hadds.client] at hempty
    · obtain ⟨d, hd⟩ := hadds.action
      cases hd

/-- As long as no slot is cleared while one of its events is ready for a response, a waiting event of a
client that is there gets the interface, or another event does. -/
theorem responseProgress_drained (parms : Parms) (maxClients : ℕ) (afuEvent : AfuEvent)
    (as : List Action)
    (hdrained : Along Ocl.step ClearsDrained (Ocl.init parms maxClients afuEvent) as) :
    Progress ((Ocl.init parms maxClients afuEvent).run as) := by
  have hinv := hdrained.invariant (fun s => s.Wf ∧ Housed s)
    (fun s a h hok => ⟨step_wf h.1 a, step_housed h.1 hok h.2⟩)
    ⟨Ocl.init_wf _ _ _, by simp [Housed, Ocl.init]⟩
  intro hwaiting hready
  refine (progress_iff hinv.1 hwaiting hready).mpr ?_
  intro e he
  obtain ⟨hmem, hresp⟩ := find_mem he
  exact hinv.2 e hmem hresp

/-- Binds acTag 1 to the client of the second slot. -/
def sampleAssign : AfuTlxCmd :=
  { tlxEventReset.afuCmd with opcode := afuCmdAssignActag, afutag := 9, pasid := 1, actag := 1 }

/-- A read of the client behind acTag 1. -/
def sampleSecondRead : AfuTlxCmd := { sampleRead with afutag := 6, actag := 1 }

/-- The frame of a credit has been received, and `handle_response` is next. -/
def creditReceived : List Action := [.idle tlxIdleCycles, .signalAfu, .getAfuEvents creditFrame]

/-- Both clients are asked for a read and answer. -/
def bothAnswerRun : List Action :=
  .associate 0 :: .associate 0 :: { Turn.quiet with socket := sampleAssign.frame }.actions 2 ++
    { Turn.quiet with socket := sampleRead.frame }.actions 2 ++
    { Turn.quiet with socket := sampleSecondRead.frame }.actions 2 ++
    { Turn.quiet with input := fun _ => .memSuccess (List.replicate 64 7) }.actions 2 ++
    Turn.quiet.actions 2 ++
    { Turn.quiet with input := fun _ => .memSuccess (List.replicate 64 7) }.actions 2 ++ creditReceived

/-- The interface without response credits. -/
def sampleAfuNoCredit : AfuEvent := { tlxEventReset with afuTlxRespCreditsAvailable := 0 }

theorem bothAnswerRun_progress :
    Along Ocl.step ClearsDrained (Ocl.init (.quiet 128 (by simp)) 2 sampleAfuNoCredit) bothAnswerRun ∧
      Progress ((Ocl.init (.quiet 128 (by simp)) 2 sampleAfuNoCredit).run bothAnswerRun) := by
  have hdrained : Along Ocl.step ClearsDrained (Ocl.init (.quiet 128 (by simp)) 2 sampleAfuNoCredit)
      bothAnswerRun := by decide +kernel
  exact ⟨hdrained, responseProgress_drained _ 2 sampleAfuNoCredit bothAnswerRun hdrained⟩

/-- The first client detaches without an answer, its slot is cleared while no credit is there, and the
second client answers. -/
def blockedRun : List Action :=
  .associate 0 :: .associate 0 :: { Turn.quiet with socket := sampleAssign.frame }.actions 2 ++
    { Turn.quiet with socket := sampleRead.frame }.actions 2 ++
    { Turn.quiet with socket := sampleSecondRead.frame }.actions 2 ++
    { Turn.quiet with input := fun i => if i = 0 then .detach else .quiet }.actions 2 ++
    Turn.quiet.actions 2 ++
    { Turn.quiet with input := fun _ => .memSuccess (List.replicate 64 7) }.actions 2 ++ creditReceived

/-- The event that the first client left behind keeps the second client's response back. -/
theorem blockedRun_blocked :
    ¬ Progress ((Ocl.init (.quiet 128 (by simp)) 2 sampleAfuNoCredit).run blockedRun) := by
  intro h
  have hwaiting : ∃ e ∈ ((Ocl.init (.quiet 128 (by simp)) 2 sampleAfuNoCredit).run blockedRun).list,
      e.responding = true ∧
      (((Ocl.init (.quiet 128 (by simp)) 2 sampleAfuNoCredit).run blockedRun).client e.context).isSome =
        true := by decide +kernel
  have hready : ((Ocl.init (.quiet 128 (by simp)) 2 sampleAfuNoCredit).run blockedRun).afuEvent.RespReady := by
    unfold AfuEvent.RespReady
    decide +kernel
  have hstaged : (handleResponse ((Ocl.init (.quiet 128 (by simp)) 2 sampleAfuNoCredit).run blockedRun)
      0).afuEvent.tlxResp.valid = 0 := by decide +kernel
  have hvalid := (h hwaiting hready 0).1
  rw [hstaged] at hvalid
  exact absurd hvalid (by decide)

end Ocse
