import Ocse.LostAck
import Ocse.SplitRead

/-!
# Reads that the AFU fails

`handle_ap_resp` sends every read on to wait for its data, and notes the opcode and the code of the response on
the way. A failure brings no data, so that the read stays where it is and keeps the list to itself.
-/

namespace Ocse

/-- `mem_rd_fail` with a code. -/
def AfuTlxResp.Failed (r : AfuTlxResp) : Prop := r.opcode = afuRspMemRdFail ∧ r.code ≠ 0

section Waiting

variable {m : Mmio} {e : MmioEvent} {r : AfuTlxResp}

theorem mmioRun_halted (hhalted : m.halted = true) (actions : List MmioAction) : m.run actions = m := by
  induction actions with
  | nil => rfl
  | cons a actions ih =>
      have hstep : m.step a = m := if_pos hhalted
      rw [Mmio.run, List.foldl_cons, hstep]
      exact ih

/-- Responses alone do not move a read that waits for data. -/
theorem turns_silent (hcfg : e.cfg = false) (hrnw : e.rnw = true) (hstate : e.state = .buffer) (h : m.Heads e)
    (ts : List MmioTurn) (hbeats : beatsOf (shownIn ts) = []) : (m.turns ts).Heads e := by
  have hidle : e.state ≠ .idle := by
    rw [hstate]
    exact MmioState.noConfusion
  have hpending : e.state ≠ .pending := by
    rw [hstate]
    exact MmioState.noConfusion
  induction ts generalizing m with
  | nil => exact h
  | cons t ts ih =>
      rw [shownIn, List.flatMap_cons, beatsOf_append, List.append_eq_nil_iff, beatsOf_shows] at hbeats
      obtain ⟨hbeat, hrest⟩ := hbeats
      obtain ⟨m₁, hm₁, hframe, hturn⟩ := h.turn hidle t
      obtain ⟨hheads, hsame, -⟩ := handleApResp_stays hm₁ hcfg (.inr hpending)
      have hnone : (handleApResp m₁).afuEvent.beat? = none := by
        rw [hsame, hframe]
        exact Option.toList_eq_nil_iff.mp hbeat
      rw [turns_cons]
      apply ih _ hrest
      rw [hturn, handleAfuMmio, if_neg (by rw [hheads.running]; decide)]
      exact (handleApRespData_waits hheads hcfg hrnw hnone).1

/-- A read whose response has come without data: the program has ended, or the read waits. -/
def Mmio.WaitsForData (m : Mmio) (e : MmioEvent) (r : AfuTlxResp) : Prop :=
  m.halted = true ∧ (∃ rest, m.list = e :: rest) ∨ m.Heads (e.gather r [])

theorem turns_respond (hawaits : e.Awaits) (h : m.Heads e) (ts : List MmioTurn) (later : List AfuTlxResp)
    (hshown : shownIn ts = (r :: later).map .resp) : (m.turns ts).WaitsForData e r := by
  have hidle : e.state ≠ .idle := by
    rw [hawaits.pending]
    exact MmioState.noConfusion
  induction ts generalizing m with
  | nil => cases hshown
  | cons t ts ih =>
      rw [shownIn, List.flatMap_cons] at hshown
      have hbeats : beatsOf t.frame.shows ++ beatsOf (shownIn ts) = [] := by
        rw [← beatsOf_resps (r :: later), ← hshown, beatsOf_append]
        rfl
      rw [List.append_eq_nil_iff, beatsOf_shows] at hbeats
      obtain ⟨hbeat, hrest⟩ := hbeats
      have hnone : t.frame.beat? = none := Option.toList_eq_nil_iff.mp hbeat
      rw [turns_cons]
      cases hresp : t.frame.resp? with
      | none =>
          have hshows : t.frame.shows = [] := by simp [AfuEvent.shows, hresp, hnone]
          rw [hshows, List.nil_append] at hshown
          exact ih (turn_waits hawaits h t hshows) hshown
      | some r' =>
          have hshows : t.frame.shows = [.resp r'] := by simp [AfuEvent.shows, hresp, hnone]
          rw [hshows, List.map_cons, List.cons_append, List.nil_append] at hshown
          obtain rfl := AfuItem.resp.inj (List.cons.inj hshown).1
          obtain ⟨m₁, hm₁, hframe, hturn⟩ := h.turn hidle t
          obtain ⟨rest, hlist⟩ := hm₁.list
          rcases handleApResp_answers r' hm₁ hawaits (hframe ▸ hresp) with
            ⟨-, hhalted, hsame, -⟩ | ⟨-, hheads, hsame, -⟩
          · have hstop : m.turns [t] = handleApResp m₁ := by rw [hturn, handleAfuMmio, if_pos hhalted]
            rw [hstop, Mmio.turns, mmioRun_halted hhalted]
            exact .inl ⟨hhalted, rest, hsame.trans hlist⟩
          · have hwait : (m.turns [t]).Heads (e.gather r' []) := by
              rw [hturn, handleAfuMmio, if_neg (by rw [hheads.running]; decide)]
              apply (handleApRespData_waits hheads hawaits.cfg hawaits.rnw _).1
              rw [hsame, hframe]
              exact hnone
            exact .inr (turns_silent (e := e.gather r' []) hawaits.cfg hawaits.rnw rfl hwait ts hrest)

end Waiting

/-- A listed event has not been finished, in any state that a run reaches. -/
theorem listed_unfinished {afuEvent : AfuEvent} {actions : List MmioAction} {e : MmioEvent}
    (he : e ∈ ((mmioInit afuEvent).run actions).list) :
    ∀ x ∈ ((mmioInit afuEvent).run actions).finished, x.id ≠ e.id := by
  have hnodup := (AckLedger.run_sound afuEvent actions).ids
  rw [AckLedger.events, AckLedger.run_engine] at hnodup
  change (MmioEvent.ids (((mmioInit afuEvent).run actions).events ++ _)).Nodup at hnodup
  rw [MmioEvent.ids, Mmio.events, List.map_append, List.map_append, List.append_assoc] at hnodup
  have hdisjoint := (List.nodup_append.mp hnodup).2.2
  intro x hx heq
  exact hdisjoint e.id (List.mem_map_of_mem he) x.id (List.mem_append_left _ (List.mem_map_of_mem hx)) heq.symm

/-- For every run that has come to a read, and every failure of it: however long no data comes, the read is not
done, nothing else is sent, and its client is not told. It has its code, and the message that would tell. -/
theorem failedRead_waits (afuEvent : AfuEvent) (actions : List MmioAction) (e : MmioEvent) (rest : List MmioEvent)
    (hrunning : ((mmioInit afuEvent).run actions).halted = false)
    (hlist : ((mmioInit afuEvent).run actions).list = e :: rest) (hcfg : e.cfg = false) (hrnw : e.rnw = true)
    (hpending : e.state = .pending) (r : AfuTlxResp) (hfailed : r.Failed) (ts : List MmioTurn)
    (later : List AfuTlxResp) (hshown : shownIn ts = (r :: later).map .resp) :
    let m := ((mmioInit afuEvent).run actions).turns ts
    (∃ e' rest', m.list = e' :: rest' ∧ e'.id = e.id ∧
      (m.halted = true ∨ e'.state = .buffer ∧ e'.ackMessage = [e.ack, r.code])) ∧
    .done e.id ∉ m.trace ∧ sendMmio m = m ∧
    ∀ client, m.access client = some e.id → handleMmioDone m client = m := by
  intro m
  obtain ⟨hawaits, -⟩ := run_awaits hlist hcfg hrnw hpending
  have hidle : e.state ≠ .idle := by
    rw [hpending]
    exact MmioState.noConfusion
  have hwaits := turns_respond hawaits ⟨hrunning, rest, hlist⟩ ts later hshown
  have hfirst : ∃ e' rest', m.list = e' :: rest' ∧ e'.id = e.id ∧ e'.state ≠ .idle ∧
      (m.halted = true ∨ e'.state = .buffer ∧ e'.ackMessage = [e.ack, r.code]) := by
    rcases hwaits with ⟨hhalted, rest', hlist'⟩ | ⟨-, rest', hlist'⟩
    · exact ⟨e, rest', hlist', rfl, hidle, .inl hhalted⟩
    · refine ⟨e.gather r [], rest', hlist', rfl, MmioState.noConfusion, .inr ⟨rfl, ?_⟩⟩
      exact if_pos ⟨.inl hfailed.1, hfailed.2⟩
  obtain ⟨e', rest', hlist', hid, hidle', hstate⟩ := hfirst
  have hreached : m = (mmioInit afuEvent).run (actions ++ ts.flatMap MmioTurn.actions) := (run_run _ _ _).symm
  have hmem : e' ∈ m.list := by
    rw [hlist']
    exact List.mem_cons_self
  refine ⟨⟨e', rest', hlist', hid, hstate⟩, ?_, ?_, ?_⟩
  · intro hdone
    have hqueue := run_queue afuEvent (actions ++ ts.flatMap MmioTurn.actions)
    rw [← hreached] at hqueue
    apply hqueue.done_unlisted hdone
    rw [← hid]
    exact List.mem_map_of_mem hmem
  · unfold sendMmio
    rw [hlist']
    exact if_pos hidle'
  · intro client haccess
    rw [hreached] at hmem
    have hunfinished := listed_unfinished hmem
    rw [← hreached] at hunfinished
    have hnone : m.finished.find? (fun x => x.id = e.id) = none := by
      apply List.find?_eq_none.mpr
      intro x hx
      rw [decide_eq_true_eq, ← hid]
      exact hunfinished x hx
    unfold handleMmioDone
    rw [haccess]
    dsimp only
    rw [hnone]

/-- A failure without data, and the clocks behind it. -/
def sampleFailure : AfuTlxResp := ⟨1, afuRspMemRdFail, 1, 0xcafe, 0, 0x0e⟩

def sampleFailureTurns : List MmioTurn :=
  [⟨[], List.forall_mem_nil _, { tlxEventReset with afuResp := sampleFailure }⟩,
    ⟨[.poll 0], List.forall_mem_singleton.mpr trivial, tlxEventReset⟩]

/-- A client's MMIO read that has been sent. -/
def sampleSentRead : List MmioAction := [.mmio 0 ⟨0, 0, 0, 0, 0⟩ true true true 0x40 0, .send]

def sampleSentEvent : MmioEvent :=
  { MmioEvent.new 0 true 0x40 with
    dw := true
    ack := ocseMmioAck
    cmdPL := 3
    data := (Buffer.const 0).write 0 (leBytes 8 0)
    state := .pending }

theorem failedRead_waits_sample :
    .done 0 ∉ (((mmioInit tlxEventReset).run sampleSentRead).turns sampleFailureTurns).trace :=
  (failedRead_waits tlxEventReset sampleSentRead sampleSentEvent [] rfl rfl rfl rfl rfl sampleFailure
    ⟨rfl, by decide⟩ sampleFailureTurns [] rfl).2.1

/-- After the failure the client still has no answer. -/
theorem failedRead_untold :
    (((mmioInit tlxEventReset).run sampleSentRead).turns sampleFailureTurns).list.map MmioEvent.key = [(0, .buffer)] ∧
      (((mmioInit tlxEventReset).run sampleSentRead).turns sampleFailureTurns).trace = [.added 0, .sent 0] := by
  decide +kernel

end Ocse
