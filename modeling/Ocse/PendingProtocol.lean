import Ocse.Completion

/-!
# The pending protocol

A response with code `0x04` promises a posted command: `xlate_done` for memory commands, `intrp_rdy` for
interrupts. `client_cmd` ends the events of a departed client without regard to that promise; as long as
it meets none in the middle of the protocol, the promise is kept.
-/

namespace Ocse

/-! ## Promises -/

def Message.isPending : Message → Bool
  | .response r => r.code = 0x04
  | .posted _ _ => false

def Message.isPosted : Message → Bool
  | .response _ => false
  | .posted _ _ => true

/-- The posted command that a pending response to the command added as `e` promises. -/
def CmdEvent.promised (e : CmdEvent) : UInt8 :=
  if e.type.isInterrupt then tlxCmdIntrpRdy else tlxCmdXlateDone

/-- The messages of a closed session: whatever is pending is followed by what it promised, and by
nothing else. -/
inductive PromiseKept (e : CmdEvent) : List Message → Prop
  | noPending (ms : List Message) (h : ∀ m ∈ ms, m.isPending = false) : PromiseKept e ms
  | kept (ms : List Message) (r : Response) (code : UInt8) (h : ∀ m ∈ ms, m.isPending = false)
      (hcode : r.code = 0x04) : PromiseKept e (ms ++ [.response r, .posted e.promised code])

/-- The messages of an open session: nothing has followed what is pending. -/
inductive PromiseOpen : List Message → Prop
  | noPending (ms : List Message) (h : ∀ m ∈ ms, m.isPending = false) : PromiseOpen ms
  | promised (ms : List Message) (r : Response) (h : ∀ m ∈ ms, m.isPending = false)
      (hcode : r.code = 0x04) : PromiseOpen (ms ++ [.response r])

/-- The event is in the middle of the pending protocol. -/
def CmdEvent.InPending (e : CmdEvent) : Prop :=
  e.state = .xlatePending ∨ e.state = .intPending ∨ e.state = .pendingSent

instance (e : CmdEvent) : Decidable e.InPending :=
  inferInstanceAs (Decidable (_ ∨ _ ∨ _))

def pendingLimits : Limits where
  answer _ _ := True
  terminate e := ¬ e.InPending

/-! ## The phases of an event -/

inductive Phase (e₀ e : CmdEvent) : List Message → Prop
  | calm (ms : List Message) (h : ∀ m ∈ ms, m.isPending = false) (hstate : ¬ e.InPending)
      (hresp : e.resp ≠ 0x04) : Phase e₀ e ms
  | drawn (ms : List Message) (h : ∀ m ∈ ms, m.isPending = false)
      (hstate : e.state = .xlatePending ∨ e.state = .intPending) (htype : e.type = .failed)
      (hresp : e.resp = 0x04) (hstarted : e₀.type ≠ .failed) : Phase e₀ e ms
  | promised (ms : List Message) (r : Response) (h : ∀ m ∈ ms, m.isPending = false)
      (hcode : r.code = 0x04) (hstate : e.state = .pendingSent) (hstarted : e₀.type ≠ .failed) :
      Phase e₀ e (ms ++ [.response r])

section Phases

variable {cl : ℕ} {e₀ e e' : CmdEvent} {ms : List Message}

theorem CmdEvent.Fresh.postedOpcode_eq (h : e.Fresh) (htype : e.type ≠ .failed) :
    postedOpcode e.command = e.promised := by
  have hshape := h.shape
  have hread : ∀ op, isFullRead op = true ∨ isPartialRead op = true → postedOpcode op = tlxCmdXlateDone := by
    intro op hop
    simp only [isFullRead, isPartialRead, Bool.or_eq_true, decide_eq_true_eq] at hop
    rcases hop with (rfl | rfl) | rfl | rfl <;> rfl
  unfold CmdEvent.Shape at hshape
  unfold CmdEvent.promised
  split at hshape <;> rename_i heq <;> rw [heq] <;> simp only [CmdType.isInterrupt] <;>
    simp only [Bool.false_eq_true, if_true, if_false]
  · rcases hshape.2 with ⟨hop, -⟩ | ⟨hop, -⟩
    · exact hread _ (.inl hop)
    · exact hread _ (.inr hop)
  · have hop := hshape.2
    simp only [isFullWrite, Bool.or_eq_true, decide_eq_true_eq] at hop
    rcases hop with ⟨h | h, -⟩ | ⟨h | h, -⟩ <;> rw [h] <;> rfl
  · rcases hshape.2 with h | h <;> rw [h] <;> rfl
  · rcases hshape with ⟨h, -⟩ | ⟨h, -⟩ <;> rw [h] <;> rfl
  · have hop := hshape.2
    simp only [isAmoRw, Bool.or_eq_true, decide_eq_true_eq] at hop
    rcases hop with h | h <;> rw [h] <;> rfl
  · have hop := hshape.2
    simp only [isAmoW, Bool.or_eq_true, decide_eq_true_eq] at hop
    rcases hop with h | h <;> rw [h] <;> rfl
  · rcases hshape with h | h <;> rw [h] <;> rfl
  · rw [hshape]; rfl
  · rcases hshape with h | h <;> rw [h] <;> rfl
  · exact absurd heq htype
  · exact hshape.elim
  · exact hshape.elim
  · exact hshape.elim

theorem CmdEvent.Fresh.phase (h : e.Fresh) : Phase e e [] := by
  have hstate : ¬ e.InPending := by
    unfold CmdEvent.InPending
    rcases h.start with ⟨-, hs, -⟩ | ⟨-, -, ⟨-, hs⟩ | ⟨-, hs⟩ | ⟨-, hs, -⟩ | ⟨-, -, -, hs, -⟩⟩ <;> simp [hs]
  refine .calm [] (by simp) hstate ?_
  rcases h.start with ⟨-, -, hr | hr | hr⟩ | ⟨-, hr, -⟩ <;> rw [hr] <;> decide

/-- An event that can still be served is in no promise, and keeps none. -/
theorem Phase.calm_of (h : Phase e₀ e ms) (hstate : ¬ e.InPending) :
    (∀ m ∈ ms, m.isPending = false) ∧ e.resp ≠ 0x04 := by
  cases h with
  | calm _ hms _ hresp => exact ⟨hms, hresp⟩
  | drawn _ _ hdrawn => exact absurd (hdrawn.imp_right .inl) hstate
  | promised _ _ _ _ hsent => exact absurd (.inr (.inr hsent)) hstate

theorem response_not_pending (hresp : e.resp ≠ 0x04) : (Message.response e.response).isPending = false := by
  unfold Message.isPending CmdEvent.response
  simp only [decide_eq_false_iff_not]
  split_ifs
  · exact hresp
  · decide
  · exact hresp

theorem isPending_append (hms : ∀ m ∈ ms, m.isPending = false) {x : Message} (hx : x.isPending = false) :
    ∀ m ∈ ms ++ [x], m.isPending = false := by
  intro m hm
  rcases List.mem_append.mp hm with hm | hm
  · exact hms m hm
  · rw [List.mem_singleton.mp hm]
    exact hx

theorem Descends.started (hd : Descends e₀ e) (hmem : e.type ≠ .failed) : e₀.type ≠ .failed :=
  (hd.kept hmem).1 ▸ hmem

theorem Phase.rewrite (hd : Descends e₀ e) (h : Phase e₀ e ms) (hr : Rewrite e e') : Phase e₀ e' ms := by
  by_cases hsent : e.state = .pendingSent
  · obtain ⟨resp, rfl⟩ := hr.of_pendingSent hsent
    cases h with
    | calm _ _ hstate => exact absurd (.inr (.inr hsent)) hstate
    | drawn _ _ hdrawn => rcases hdrawn with h | h <;> simp [h] at hsent
    | promised ms r hms hcode hstate hstarted => exact .promised ms r hms hcode hstate hstarted
  · have hcalm : ¬ e.InPending := by
      rintro (h | h | h)
      · rcases hr.state with h' | h' | h' | h' <;> simp [h] at h'
      · rcases hr.state with h' | h' | h' | h' <;> simp [h] at h'
      · exact hsent h
    obtain ⟨hms, hresp⟩ := h.calm_of hcalm
    cases hr with
    | inject code hor hcode =>
      refine .calm ms hms (by simp [CmdEvent.InPending, CmdEvent.fail]) ?_
      change code ≠ 0x04
      rcases hcode with rfl | rfl | rfl <;> decide
    | xlatePending hready =>
      refine .drawn ms hms (.inl rfl) rfl rfl (hd.started ?_)
      intro htype
      have hmem := hready.isMemory
      simp [htype, CmdType.isMemory] at hmem
    | intPending hraised htype => exact .drawn ms hms (.inr rfl) rfl rfl (hd.started (by simp [htype]))
    | readDone htype hstate => exact .calm ms hms (by simp [CmdEvent.InPending]) (by simp [tlxResponseDone])
    | beat bus htype hstate =>
      unfold CmdEvent.nextBeat
      split_ifs
      · exact .calm ms hms (by simp [CmdEvent.InPending, hstate]) hresp
      · exact .calm ms hms (by simp [CmdEvent.InPending]) hresp
    | redraw resp hstate => exact absurd hstate hsent

theorem Phase.move {ns ns' : List Note} (hd : Descends e₀ e) (h : Phase e₀ e (staged ns))
    (hm : Move pendingLimits cl e ns' e') : Phase e₀ e' (staged (ns ++ ns')) := by
  rw [staged_append]
  generalize staged ns = ms at h ⊢
  cases hm with
  | stay => simpa [staged] using h
  | rewrite _ hr => simpa [staged] using h.rewrite hd hr
  | ask hready =>
    obtain ⟨hms, hresp⟩ := h.calm_of (by
      unfold CmdEvent.InPending
      rcases hready.state with h | h <;> simp [h])
    rw [show staged [] = [] from rfl, List.append_nil]
    refine .calm ms hms ?_ hresp
    change ¬ (e.askedState = _ ∨ e.askedState = _ ∨ e.askedState = _)
    unfold CmdEvent.askedState
    split <;> simp
  | raise hraised =>
    obtain ⟨hms, hresp⟩ := h.calm_of (by
      unfold CmdEvent.InPending
      rcases hraised.2 with h | h <;> simp [h])
    rw [show staged [] = [] from rfl, List.append_nil]
    exact .calm ms hms (by simp [CmdEvent.InPending]) hresp
  | pending hstate =>
    cases h with
    | calm _ _ hcalm => exact absurd (hstate.imp_right .inl) hcalm
    | drawn ms hms _ htype hresp hstarted =>
      rw [CmdEvent.prepare_of_failed htype]
      exact .promised ms e.response hms ((response_code_of_failed htype).trans hresp) rfl hstarted
    | promised _ _ _ _ hsent => rcases hstate with h | h <;> simp [h] at hsent
  | part hstate hmore =>
    obtain ⟨hms, hresp⟩ := h.calm_of (by simp [CmdEvent.InPending, hstate])
    have hresp : (e.prepare cl).resp ≠ 0x04 := by simpa using hresp
    exact .calm _ (isPending_append hms (response_not_pending hresp))
      (by simp [CmdEvent.InPending, hstate]) hresp
  | refuse hrespond =>
    have hnone : staged [Note.refused] = [] := rfl
    rw [hnone, List.append_nil, CmdEvent.backUp_eq]
    cases h with
    | calm ms hms hstate hresp =>
      exact .calm ms hms (by simpa [CmdEvent.InPending] using hstate) (by simpa using hresp)
    | drawn ms hms hstate htype hresp hstarted =>
      exact .drawn ms hms (by simpa using hstate) (by simpa using htype) (by simpa using hresp) hstarted
    | promised _ _ _ _ hsent => simp [CmdEvent.responding, hsent] at hrespond
  | answer ans _ hawait hans hlimit =>
    obtain ⟨hms, hresp⟩ := h.calm_of (by
      unfold CmdEvent.InPending
      rcases hawait.state with h | h | h <;> simp [h])
    have hnone : staged [Note.answered ans] = [] := rfl
    rw [hnone, List.append_nil]
    cases hans with
    | success data size hsize => exact .calm ms hms (by simp [CmdEvent.InPending]) hresp
    | failure ans size hne => exact .calm ms hms (by simp [CmdEvent.InPending]) (by simp)
  | terminate hstate hlimit =>
    obtain ⟨hms, hresp⟩ := h.calm_of hlimit
    have hnone : staged [Note.terminated] = [] := rfl
    rw [hnone, List.append_nil]
    refine .calm ms hms (by simp [CmdEvent.InPending, CmdEvent.terminate]) ?_
    unfold CmdEvent.terminate
    dsimp only
    split_ifs
    · decide
    · exact hresp

theorem Phase.last {ns ns' : List Note} (hd : Descends e₀ e) (h : Phase e₀ e (staged ns))
    (hl : Last cl e ns') : PromiseKept e₀ (staged (ns ++ ns')) := by
  rw [staged_append]
  generalize staged ns = ms at h ⊢
  cases hl with
  | finish hstate hlast =>
    obtain ⟨hms, hresp⟩ := h.calm_of (by simp [CmdEvent.InPending, hstate])
    have hresp : (e.prepare cl).resp ≠ 0x04 := by simpa using hresp
    exact .noPending _ (isPending_append hms (response_not_pending hresp))
  | post hstate resp =>
    cases h with
    | calm _ _ hcalm => exact absurd (.inr (.inr hstate)) hcalm
    | drawn _ _ hdrawn => rcases hdrawn with h | h <;> simp [h] at hstate
    | promised ms r hms hcode _ hstarted =>
      rw [List.append_assoc, hd.command, hd.fresh.postedOpcode_eq hstarted]
      exact .kept ms r resp hms hcode

theorem Phase.promiseOpen (h : Phase e₀ e ms) : PromiseOpen ms := by
  cases h with
  | calm _ h => exact .noPending _ h
  | drawn _ h => exact .noPending _ h
  | promised ms r h hcode => exact .promised ms r h hcode

end Phases

/-! ## Whole runs -/

/-- As long as `client_cmd` never ends an event in the middle of the pending protocol, every pending
response is followed by the command it promised, and then the tag is free. -/
theorem pendingProtocol_kept (parms : Parms) (maxClients : ℕ) (afuEvent : AfuEvent) (as : List Action)
    (hcondition : Along Ocl.step (fun s a => ∀ e ∈ s.ended a, ¬ e.InPending)
      (Ocl.init parms maxClients afuEvent) as) (t : UInt16) :
    ∃ o, Sessions (fun e ns => PromiseKept e (staged ns))
        (history t ((Ocl.init parms maxClients afuEvent).run as).trace) o ∧
      match o with
      | none => ∀ e ∈ ((Ocl.init parms maxClients afuEvent).run as).list, e.afutag ≠ t
      | some (_, ns) => PromiseOpen (staged ns) := by
  have hM : Along Ocl.step (Within pendingLimits) (Ocl.init parms maxClients afuEvent) as :=
    hcondition.mono (fun s a h => ⟨fun _ _ => trivial, h⟩)
  have htracked := run_tracked (fun e ns => PromiseKept e (staged ns))
    (fun e₀ e ns => Descends e₀ e ∧ Phase e₀ e (staged ns))
    (fun e hfresh => ⟨hfresh.descends, hfresh.phase⟩)
    (fun e₀ e ns ms e' h hm => ⟨h.1.move hm, h.2.move h.1 hm⟩)
    (fun e₀ e ns ms h hl => h.2.last h.1 hl) hM t
  cases htagged : ((Ocl.init parms maxClients afuEvent).run as).tagged t with
  | none =>
    rw [htagged] at htracked
    exact ⟨none, htracked, lookup_eq_none.mp htagged⟩
  | some e =>
    rw [htagged] at htracked
    obtain ⟨e₀, ns, hsessions, -, hphase⟩ := htracked
    exact ⟨some (e₀, ns), hsessions, hphase.promiseOpen⟩

/-- Every memory command is answered with code `0x04` first. -/
def pendingParms : Parms := { Parms.quiet 128 (by simp) with pendingPercent := 100 }

/-- The response with code `0x04` is staged, and then, with a credit left, `xlate_done`. -/
def samplePendingRun : List Action :=
  .associate 0 :: { Turn.quiet with socket := sampleRead.frame }.actions 2 ++ Turn.quiet.actions 2 ++
    Turn.quiet.actions 2 ++ Turn.quiet.actions 2

theorem samplePendingRun_kept :
    Along Ocl.step (fun s a => ∀ e ∈ s.ended a, ¬ e.InPending) (Ocl.init pendingParms 2 sampleAfu)
        samplePendingRun ∧
      ∃ o, Sessions (fun e ns => PromiseKept e (staged ns))
          (history 5 ((Ocl.init pendingParms 2 sampleAfu).run samplePendingRun).trace) o ∧
        match o with
        | none => ∀ e ∈ ((Ocl.init pendingParms 2 sampleAfu).run samplePendingRun).list, e.afutag ≠ 5
        | some (_, ns) => PromiseOpen (staged ns) := by
  have hcondition : Along Ocl.step (fun s a => ∀ e ∈ s.ended a, ¬ e.InPending)
      (Ocl.init pendingParms 2 sampleAfu) samplePendingRun := by decide +kernel
  exact ⟨hcondition, pendingProtocol_kept pendingParms 2 sampleAfu samplePendingRun hcondition 5⟩

/-- The client detaches while `xlate_done` is owed. -/
def brokenPromiseRun : List Action :=
  .associate 0 :: { Turn.quiet with socket := sampleRead.frame }.actions 2 ++ Turn.quiet.actions 2 ++
    { Turn.quiet with input := fun _ => .detach }.actions 2 ++ Turn.quiet.actions 2

/-- The pending response is followed by a second response. -/
theorem brokenPromiseRun_broken :
    ¬ ∃ o, Sessions (fun e ns => PromiseKept e (staged ns))
        (history 5 ((Ocl.init pendingParms 2 sampleAfu).run brokenPromiseRun).trace) o ∧
      match o with
      | none => ∀ e ∈ ((Ocl.init pendingParms 2 sampleAfu).run brokenPromiseRun).list, e.afutag ≠ 5
      | some (_, ns) => PromiseOpen (staged ns) := by
  rintro ⟨o, hsessions, -⟩
  obtain ⟨e, ns, hscan, hkept⟩ := hsessions.last_done (by decide +kernel)
  have hstaged : (scan (history 5 ((Ocl.init pendingParms 2 sampleAfu).run
      brokenPromiseRun).trace).dropLast).map (Option.map (fun x => (staged x.2).map
        (fun m => (m.isPending, m.isPosted)))) = some (some [(true, false), (false, false)]) := by
    decide +kernel
  rw [hscan] at hstaged
  have hms : (staged ns).map (fun m => (m.isPending, m.isPosted)) = [(true, false), (false, false)] := by
    simpa using hstaged
  generalize staged ns = ms at hkept hms
  cases hkept with
  | noPending _ h =>
    have hfirst : (true, false) ∈ ms.map (fun m => (m.isPending, m.isPosted)) := by simp [hms]
    obtain ⟨m, hm, hpending⟩ := List.mem_map.mp hfirst
    simp [h m hm] at hpending
  | kept ms r code h hcode =>
    have hposted : (false, true) ∈ (ms ++ [Message.response r, .posted e.promised code]).map
        (fun m => (m.isPending, m.isPosted)) := by simp [Message.isPending, Message.isPosted]
    rw [hms] at hposted
    simp at hposted

end Ocse
