import Ocse.BeatStream

/-!
# The handlers that leave the beats alone

All handlers but `handle_cmd` and `handle_afu_tlx_cmd_data_read` leave the data bus, the write that gathers and the
data of every write as they are. A departed client's events are ended; its write must not be gathering then.
-/

namespace Ocse

/-- A write, also after it has failed. -/
def CmdEvent.Writes (e : CmdEvent) : Prop := e.type = .write ∨ e.type = .failed

/-- The event after a handler that gathers nothing. -/
structure CmdEvent.Becomes (e e' : CmdEvent) : Prop where
  id : e'.id = e.id
  afutag : e'.afutag = e.afutag
  writes : e.Writes → e'.Writes ∧ e'.data = e.data
  gathers : e'.Gathers → e' = e

theorem CmdEvent.Becomes.refl (e : CmdEvent) : e.Becomes e := ⟨rfl, rfl, fun h => ⟨h, rfl⟩, fun _ => rfl⟩

structure LeavesBeats (s s' : Ocl) : Prop where
  cdata : s'.afuEvent.afuCdata = s.afuEvent.afuCdata
  nextId : s.nextId ≤ s'.nextId
  keeps : ∀ e ∈ s.list, e.Gathers → e ∈ s'.list
  origin : ∀ e' ∈ s'.list, ∃ e ∈ s.list, e.Becomes e'

section Stores

variable {s s' : Ocl} {e e' : CmdEvent}

theorem leaves_same (hlist : s'.list = s.list) (hnext : s.nextId ≤ s'.nextId)
    (hcdata : s'.afuEvent.afuCdata = s.afuEvent.afuCdata) : LeavesBeats s s' := by
  refine ⟨hcdata, hnext, fun e he _ => ?_, fun e he => ⟨e, ?_, .refl e⟩⟩
  · rw [hlist]
    exact he
  · rw [← hlist]
    exact he

theorem LeavesBeats.refl (s : Ocl) : LeavesBeats s s := leaves_same rfl le_rfl rfl

theorem leaves_setEvent (hs : s.Wf) (he : e ∈ s.list) (hnot : ¬e.Gathers) (hb : e.Becomes e')
    (hlist : s'.list = (s.setEvent e').list) (hnext : s'.nextId = s.nextId)
    (hcdata : s'.afuEvent.afuCdata = s.afuEvent.afuCdata) : LeavesBeats s s' := by
  refine ⟨hcdata, hnext.ge, fun x hx hgathers => ?_, fun x hx => ?_⟩
  · rw [hlist, hs.mem_setEvent he hb.id]
    refine .inr ⟨hx, ?_⟩
    rintro rfl
    exact hnot hgathers
  · rw [hlist, hs.mem_setEvent he hb.id] at hx
    rcases hx with rfl | ⟨hx, -⟩
    · exact ⟨e, he, hb⟩
    · exact ⟨x, hx, .refl x⟩

theorem leaves_freeEvent (hs : s.Wf) (he : e ∈ s.list) (hnot : ¬e.Gathers) (hlist : s'.list = (s.freeEvent e).list)
    (hnext : s'.nextId = s.nextId) (hcdata : s'.afuEvent.afuCdata = s.afuEvent.afuCdata) : LeavesBeats s s' := by
  refine ⟨hcdata, hnext.ge, fun x hx hgathers => ?_, fun x hx => ?_⟩
  · rw [hlist, hs.mem_freeEvent he]
    refine ⟨hx, ?_⟩
    rintro rfl
    exact hnot hgathers
  · rw [hlist, hs.mem_freeEvent he] at hx
    exact ⟨x, hx.1, .refl x⟩

theorem not_gathers_of_state (h : e.state ≠ .buffer) : ¬e.Gathers := fun hg => h hg.2

theorem not_gathers_of_type (h : e.type ≠ .write) : ¬e.Gathers := fun hg => h hg.1

theorem becomes_fail (e : CmdEvent) (state : MemState) (respOpcode resp : UInt8) :
    e.Becomes (e.fail state respOpcode resp) :=
  ⟨rfl, rfl, fun _ => ⟨.inr rfl, rfl⟩, fun hg => nomatch hg.1⟩

theorem becomes_state (e : CmdEvent) {state : MemState} (h : state ≠ .buffer) : e.Becomes { e with state } :=
  ⟨rfl, rfl, fun hw => ⟨hw, rfl⟩, fun hg => absurd hg.2 h⟩

theorem inject_becomes {p : Parms} {d : Draws} {op : UInt8} (h : inject p d op e = some e') : e.Becomes e' := by
  unfold inject at h
  split_ifs at h <;> obtain rfl := Option.some.inj h <;> exact becomes_fail e _ _ _

theorem injectInterrupt_becomes {p : Parms} {d : Draws} (h : injectInterrupt p d e = some e') : e.Becomes e' := by
  unfold injectInterrupt at h
  split_ifs at h <;> obtain rfl := Option.some.inj h <;> exact becomes_fail e _ _ _

theorem leaves_request (hs : s.Wf) (he : e ∈ s.list) (hnot : ¬e.Gathers) {state : MemState} (hstate : state ≠ .buffer)
    (c : Client) (bytes : List UInt8) (ok : Bool) : LeavesBeats s (s.request c e state bytes ok) :=
  leaves_setEvent hs he hnot (becomes_state e hstate) rfl rfl rfl

end Stores

/-! ## Handlers -/

section Handlers

variable {s : Ocl}

theorem handleBufferWrite_leaves (hs : s.Wf) (d : Draws) : LeavesBeats s (handleBufferWrite s d) := by
  unfold handleBufferWrite
  split
  · exact .refl s
  · rename_i e hfind
    obtain ⟨he, hp⟩ := find_mem hfind
    have hnot : ¬e.Gathers := by
      apply not_gathers_of_type
      intro htype
      simp [htype] at hp
    split
    · exact .refl s
    · rename_i c hc
      split
      · split_ifs
        · split
          · rename_i e' hinject
            exact leaves_setEvent hs he hnot (inject_becomes hinject) rfl rfl rfl
          · exact leaves_request hs he hnot (by decide) c _ _
        · exact .refl s
      · split_ifs
        · have hdone : e.Becomes { e with resp := tlxResponseDone, state := .done } :=
            ⟨rfl, rfl, fun hw => ⟨hw, rfl⟩, fun hg => nomatch hg.2⟩
          exact leaves_setEvent hs he hnot hdone rfl rfl rfl
        · exact .refl s
      · exact leaves_request hs he hnot (by decide) c _ _
      · exact .refl s

theorem handleAfuTlxWriteCmd_leaves (hs : s.Wf) (d : Draws) : LeavesBeats s (handleAfuTlxWriteCmd s d) := by
  unfold handleAfuTlxWriteCmd
  split
  · exact .refl s
  · rename_i e hfind
    obtain ⟨he, hp⟩ := find_mem hfind
    have hnot : ¬e.Gathers := by
      apply not_gathers_of_state
      intro hstate
      simp [hstate] at hp
    split
    · exact .refl s
    · rename_i c hc
      split_ifs
      · exact .refl s
      · split
        · rename_i e' hinject
          exact leaves_setEvent hs he hnot (inject_becomes hinject) rfl rfl rfl
        · exact leaves_request hs he hnot (by decide) c _ _

theorem handleWriteBeOrAmo_leaves (hs : s.Wf) (d : Draws) : LeavesBeats s (handleWriteBeOrAmo s d) := by
  unfold handleWriteBeOrAmo
  split
  · exact .refl s
  · rename_i e hfind
    obtain ⟨he, hp⟩ := find_mem hfind
    have hstate : e.state = .received := by
      simp only [Bool.and_eq_true, decide_eq_true_eq] at hp
      exact hp.2
    have hnot : ¬e.Gathers := not_gathers_of_state (by simp [hstate])
    split
    · exact .refl s
    · rename_i c hc
      split_ifs
      · exact .refl s
      · dsimp only
        split
        · rename_i e' hinject
          exact leaves_setEvent hs he hnot (inject_becomes hinject) rfl rfl rfl
        · exact leaves_request hs he hnot (by simp [hstate]) c _ _
      · dsimp only
        split
        · rename_i e' hinject
          exact leaves_setEvent hs he hnot (inject_becomes hinject) rfl rfl rfl
        · exact leaves_request hs he hnot (by simp [hstate]) c _ _

theorem handleInterrupt_leaves (hs : s.Wf) (d : Draws) : LeavesBeats s (handleInterrupt s d) := by
  unfold handleInterrupt
  split
  · exact .refl s
  · rename_i e hfind
    obtain ⟨he, hp⟩ := find_mem hfind
    have hnot : ¬e.Gathers := by
      apply not_gathers_of_type
      intro htype
      simp [htype] at hp
    split
    · exact .refl s
    · rename_i c hc
      split
      · rename_i e' hinject
        exact leaves_setEvent hs he hnot (injectInterrupt_becomes hinject) rfl rfl rfl
      · exact leaves_setEvent hs he hnot (becomes_state e (by decide)) rfl rfl rfl

theorem tlxAfuSendResp_cdata (a : AfuEvent) (opcode : UInt8) (afutag : UInt16) (code pgSize dl dp : UInt8)
    (addrTag : UInt32) : (tlxAfuSendResp a opcode afutag code pgSize dl dp addrTag).2.afuCdata = a.afuCdata := by
  unfold tlxAfuSendResp
  split_ifs <;> rfl

theorem sendResponse_cdata (a : AfuEvent) (e : CmdEvent) (bdi : UInt8) :
    (sendResponse a e bdi).2.afuCdata = a.afuCdata := by
  unfold sendResponse tlxAfuSendRespAndData
  split_ifs
  · exact tlxAfuSendResp_cdata a _ _ _ _ _ _ _
  · rfl
  · rfl
  · rfl
  · exact tlxAfuSendResp_cdata a _ _ _ _ _ _ _

theorem prepare_becomes (e : CmdEvent) (cl : ℕ) (h : e.state ≠ .buffer) : e.Becomes (e.prepare cl) := by
  refine ⟨by simp, by simp, fun hw => ⟨?_, by simp⟩, fun hg => ?_⟩
  · unfold CmdEvent.Writes
    rw [CmdEvent.prepare_type]
    exact hw
  · have hstate := hg.2
    rw [CmdEvent.prepare_state] at hstate
    exact absurd hstate h

theorem handleResponse_leaves (hs : s.Wf) (rand : ℕ) : LeavesBeats s (handleResponse s rand) := by
  unfold handleResponse
  split
  · exact .refl s
  · rename_i e hfind
    obtain ⟨he, hresp⟩ := find_mem hfind
    have hstate : e.state ≠ .buffer := by
      intro hbuffer
      simp [CmdEvent.responding, hbuffer] at hresp
    have hnot := not_gathers_of_state hstate
    have hprepare := prepare_becomes e s.parms.hostClSize hstate
    split
    · exact .refl s
    · dsimp only
      generalize (if percentChance s.parms.bdiRespErrPercent rand then (1 : UInt8) else 0) = bdi
      have hcdata := sendResponse_cdata s.afuEvent (e.prepare s.parms.hostClSize) bdi
      split_ifs
      · have hpending : e.Becomes { e.prepare s.parms.hostClSize with state := .pendingSent } :=
          ⟨hprepare.id, hprepare.afutag, hprepare.writes, fun hg => absurd hg.2 (by simp)⟩
        exact leaves_setEvent hs he hnot hpending rfl rfl hcdata
      · exact leaves_setEvent hs he hnot hprepare rfl rfl hcdata
      · refine leaves_freeEvent hs he hnot ?_ rfl hcdata
        simp [Ocl.record, Ocl.freeEvent]
      · refine leaves_setEvent hs he hnot ?_ rfl rfl rfl
        unfold CmdEvent.backUp
        split_ifs
        · refine ⟨hprepare.id, hprepare.afutag, hprepare.writes, fun hg => ?_⟩
          have hbuffer : (e.prepare s.parms.hostClSize).state = .buffer := hg.2
          rw [CmdEvent.prepare_state] at hbuffer
          exact absurd hbuffer hstate
        · exact hprepare

theorem redraw_becomes {e : CmdEvent} (hstate : e.state = .pendingSent) (resp : UInt8) : e.Becomes { e with resp } :=
  ⟨rfl, rfl, fun hw => ⟨hw, rfl⟩, fun hg => absurd hg.2 (by simp [hstate])⟩

theorem postPending_leaves (hs : s.Wf) {e : CmdEvent} (he : e ∈ s.list) (hstate : e.state = .pendingSent)
    (resp : UInt8) : LeavesBeats s (postPending s { e with resp }) := by
  have hnot : ¬e.Gathers := not_gathers_of_state (by simp [hstate])
  have hcdata : (tlxAfuSendPostedCmd s.afuEvent (postedOpcode e.command) e.afutag resp).2.afuCdata =
      s.afuEvent.afuCdata := by
    unfold tlxAfuSendPostedCmd
    split_ifs <;> rfl
  unfold postPending
  dsimp only
  split_ifs
  · exact leaves_freeEvent hs he hnot rfl rfl hcdata
  · exact leaves_setEvent hs he hnot (redraw_becomes hstate resp) rfl rfl rfl

theorem handleXlateIntrpPendingSent_leaves (hs : s.Wf) (d : Draws) :
    LeavesBeats s (handleXlateIntrpPendingSent s d) := by
  unfold handleXlateIntrpPendingSent
  split
  · exact .refl s
  · rename_i e hpick
    obtain ⟨he, hstate⟩ := pickPendingSent_mem hpick
    have hnot : ¬e.Gathers := not_gathers_of_state (by simp [hstate])
    split
    · exact .refl s
    · split_ifs
      · exact postPending_leaves hs he hstate _
      · exact leaves_setEvent hs he hnot (redraw_becomes hstate 0x0f) rfl rfl rfl
      · exact postPending_leaves hs he hstate _

/-! ## Clients -/

theorem memReturn_becomes {e : CmdEvent} (h : e.Awaiting) (avail : List UInt8) : e.Becomes (e.memReturn avail).1 := by
  obtain ⟨hid, htag, -, hdone⟩ := (h.memReturn avail).facts
  refine ⟨hid, htag, fun hw => ?_, fun hg => ?_⟩
  · rcases hw with htype | htype
    · have heq : (e.memReturn avail).1 = { e with state := .done } := by
        simp [CmdEvent.memReturn, htype]
      rw [heq]
      exact ⟨.inl htype, rfl⟩
    · have hmem := h.1
      rw [htype] at hmem
      cases hmem
  · have hbuffer := hg.2
    rw [hdone] at hbuffer
    cases hbuffer

theorem awaiting_not_gathers {e : CmdEvent} (h : e.Awaiting) : ¬e.Gathers := by
  rintro ⟨htype, hstate⟩
  have hasked := h.2
  simp [CmdEvent.askedState, htype, hstate] at hasked

theorem handleClient_leaves (hs : s.Wf) (i : ℕ) (input : ClientInput) : LeavesBeats s (handleClient s i input) := by
  unfold handleClient
  split
  · exact .refl s
  · rename_i c hc
    split_ifs with hnone
    · exact .refl s
    · have hawaits : ∀ e, s.memAccess c = some e → e ∈ s.list ∧ e.Awaiting := by
        intro e hmem
        obtain ⟨he, hid⟩ := memAccess_eq_some hmem
        exact ⟨he, (hs.asked i c e hc hnone he hid).2⟩
      cases input with
      | quiet => exact .refl s
      | lost => exact leaves_same rfl le_rfl rfl
      | detach => exact leaves_same rfl le_rfl rfl
      | attach put => exact leaves_same rfl le_rfl rfl
      | memFailure =>
          dsimp only
          split
          · exact leaves_same rfl le_rfl rfl
          · rename_i e hmem
            obtain ⟨he, hawait⟩ := hawaits e hmem
            refine leaves_setEvent hs he (awaiting_not_gathers hawait) ?_ rfl rfl rfl
            exact ⟨rfl, rfl, fun _ => ⟨.inr rfl, rfl⟩, fun hg => nomatch hg.1⟩
      | memSuccess avail =>
          dsimp only
          split
          · exact leaves_same rfl le_rfl rfl
          · rename_i e hmem
            obtain ⟨he, hawait⟩ := hawaits e hmem
            unfold handleMemReturn
            split
            · exact leaves_same rfl le_rfl rfl
            · exact leaves_setEvent hs he (awaiting_not_gathers hawait) (memReturn_becomes hawait avail) rfl rfl rfl
      | mmio lost =>
          cases lost with
          | false => exact .refl s
          | true => exact leaves_same rfl le_rfl rfl
      | unexpected => exact leaves_same rfl le_rfl rfl

theorem terminate_becomes (e : CmdEvent) : e.Becomes e.terminate :=
  ⟨rfl, rfl, fun hw => ⟨hw, rfl⟩, fun hg => nomatch hg.2⟩

theorem settleClient_leaves (i : ℕ) (h : ∀ c, s.client i = some c → c.state = .none →
    ∀ e ∈ s.list, e.Gathers → e.context ≠ c.context) : LeavesBeats s (settleClient s i) := by
  unfold settleClient
  split
  · exact .refl s
  · rename_i c hc
    cases hstate : c.state with
    | none =>
        simp only [clientCmd, hstate]
        refine ⟨rfl, le_rfl, fun e he hg => ?_, fun e' he' => ?_⟩
        · have hclosed : e.openFor c = false := by
            simp [CmdEvent.openFor, h c hc hstate e he hg]
          exact List.mem_map.mpr ⟨e, he, by simp [hclosed]⟩
        · obtain ⟨e, he, rfl⟩ := List.mem_map.mp he'
          refine ⟨e, he, ?_⟩
          split_ifs
          · exact terminate_becomes e
          · exact .refl e
    | init =>
        simp only [clientCmd, hstate]
        exact leaves_same rfl le_rfl rfl
    | valid =>
        simp only [clientCmd, hstate]
        exact leaves_same rfl le_rfl rfl

theorem clearSlot_leaves (i : ℕ) : LeavesBeats s (clearSlot s i) := by
  unfold clearSlot
  split
  · exact .refl s
  · split_ifs
    · exact leaves_same rfl le_rfl rfl
    · exact .refl s

theorem clientAssociate_leaves (bdf : UInt16) : LeavesBeats s (clientAssociate s bdf) := by
  unfold clientAssociate
  split
  · exact .refl s
  · exact leaves_same rfl (Nat.le_succ s.nextId) rfl

end Handlers

theorem signalAfu_cdata (a : AfuEvent) : (tlxSignalAfuModel a).2.1.afuCdata = a.afuCdata := by
  unfold tlxSignalAfuModel
  split_ifs
  · rfl
  · rfl

/-- What the other actions do. -/
theorem step_leaves {s : Ocl} (hs : s.Wf) (a : Action) (hget : ∀ socket, a ≠ .getAfuEvents socket)
    (hcmd : ∀ d, a ≠ .cmd d) (hread : a ≠ .cmdDataRead)
    (hsettle : ∀ i, a = .settle i → ∀ c, s.client i = some c → c.state = .none →
      ∀ e ∈ s.list, e.Gathers → e.context ≠ c.context) : LeavesBeats s (s.step a) := by
  unfold Ocl.step
  split_ifs
  · exact .refl s
  · cases a with
    | idle cycles => exact leaves_same rfl le_rfl rfl
    | signalAfu => exact leaves_same rfl le_rfl (signalAfu_cdata s.afuEvent)
    | getAfuEvents socket => exact absurd rfl (hget socket)
    | mmio signals => exact leaves_same rfl le_rfl rfl
    | response rand => exact handleResponse_leaves hs rand
    | bufferWrite d => exact handleBufferWrite_leaves hs d
    | pendingSent d => exact handleXlateIntrpPendingSent_leaves hs d
    | cmd d => exact absurd rfl (hcmd d)
    | cmdDataRead => exact absurd rfl hread
    | writeCmd d => exact handleAfuTlxWriteCmd_leaves hs d
    | touch d =>
        rw [Ocl.act, handleTouch_eq]
        exact .refl s
    | interrupt d => exact handleInterrupt_leaves hs d
    | writeBeOrAmo d => exact handleWriteBeOrAmo_leaves hs d
    | client i input => exact handleClient_leaves hs i input
    | settle i => exact settleClient_leaves i (hsettle i rfl)
    | clear i => exact clearSlot_leaves i
    | associate bdf => exact clientAssociate_leaves bdf

end Ocse
