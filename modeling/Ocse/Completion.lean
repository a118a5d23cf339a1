import Ocse.TagLife

/-!
# Exactly-once completion

In a run in which no client departs, the messages of every session are one response, or the parts of a
split response, or a response with code `0x04` and the posted command that ends it.
-/

namespace Ocse

/-! ## Messages -/

/-- What is staged to the AFU. -/
inductive Message
  | response (r : Response)
  | posted (opcode code : UInt8)

def Note.staged : Note → Option Message
  | .response r => some (.response r)
  | .posted opcode code => some (.posted opcode code)
  | _ => none

def staged (ns : List Note) : List Message := ns.filterMap Note.staged

theorem staged_append (ns ms : List Note) : staged (ns ++ ms) = staged ns ++ staged ms :=
  List.filterMap_append

/-- The messages with which the command that was added as `e` may be answered. -/
inductive Complete (cl : ℕ) (e : CmdEvent) : List Message → Prop
  | single (r : Response) (hcode : r.code ≠ 0x04) (hsplit : e.Splits cl → r.code ≠ 0) :
      Complete cl e [.response r]
  | parts (rs : List Response) (hsplit : e.Splits cl) (hcode : ∀ r ∈ rs, r.code = 0)
      (hcount : rs.length = e.size / cl) (hlength : (rs.map (fun r => dlToSize r.dl)).sum = e.size) :
      Complete cl e (rs.map .response)
  | pending (r : Response) (code : UInt8) (hcode : r.code = 0x04) :
      Complete cl e [.response r, .posted (postedOpcode e.command) code]

/-! ## The stages of an event -/

/-- An event that has not been answered: what its answer will be, as far as it is decided. -/
def CmdEvent.Outcome (e : CmdEvent) : Prop :=
  (e.type ≠ .failed ∧ e.resp = 0 ∧ e.state ≠ .xlatePending ∧ e.state ≠ .intPending ∧
    e.state ≠ .pendingSent) ∨
  (e.type = .failed ∧ (e.state = .xlatePending ∨ e.state = .intPending) ∧ e.resp = 0x04) ∨
  (e.type = .failed ∧ e.state = .done ∧ e.resp ≠ 0 ∧ e.resp ≠ 0x04)

inductive Stage (cl : ℕ) (e₀ e : CmdEvent) : List Message → Prop
  | fresh (hsent : e.respBytesSent = 0) (houtcome : e.Outcome) : Stage cl e₀ e []
  | parts (rs : List Response) (hsplit : e₀.Splits cl) (htype : e.type ≠ .failed)
      (hstate : e.state = .done) (hresp : e.resp = 0) (hsent : rs.length * cl = e.respBytesSent)
      (hlt : e.respBytesSent < e₀.size) (hcode : ∀ r ∈ rs, r.code = 0 ∧ r.dl = sizeToDl cl) :
      Stage cl e₀ e (rs.map .response)
  | pendingSent (r : Response) (hcode : r.code = 0x04) (hstate : e.state = .pendingSent) :
      Stage cl e₀ e [.response r]

/-! ## The stages of an event, step by step -/

section Stages

variable {M : Limits} {parms : Parms} {e₀ e e' : CmdEvent}

theorem CmdEvent.Fresh.outcome {e : CmdEvent} (h : e.Fresh) : e.Outcome := by
  rcases h.start with ⟨htype, hstate, hresp⟩ | ⟨htype, hresp, hstate⟩
  · refine .inr (.inr ⟨htype, hstate, ?_⟩)
    rcases hresp with hresp | hresp | hresp <;> rw [hresp] <;> decide
  · refine .inl ⟨htype, hresp, ?_⟩
    rcases hstate with ⟨-, h⟩ | ⟨-, h⟩ | ⟨-, h, -⟩ | ⟨-, -, -, h, -⟩ <;> simp [h]

theorem Outcome.not_pendingSent (h : e.Outcome) : e.state ≠ .pendingSent := by
  rcases h with ⟨-, -, -, -, h⟩ | ⟨-, h | h, -⟩ | ⟨-, h, -⟩
  · exact h
  · simp [h]
  · simp [h]
  · simp [h]

theorem Outcome.rewrite (h : e.Outcome) (hr : Rewrite e e') :
    e'.Outcome ∧ e'.respBytesSent = e.respBytesSent := by
  -- a failed event has left the states in which it is rewritten
  have hok : e.type ≠ .failed ∧ e.resp = 0 := by
    rcases h with ⟨htype, hresp, -⟩ | ⟨-, hstate, -⟩ | ⟨-, hstate, -⟩
    · exact ⟨htype, hresp⟩
    · rcases hr.state with h | h | h | h <;> simp [h] at hstate
    · rcases hr.state with h | h | h | h <;> simp [h] at hstate
  cases hr with
  | inject code hor hcode =>
    refine ⟨.inr (.inr ⟨rfl, rfl, ?_⟩), rfl⟩
    change code ≠ 0 ∧ code ≠ 0x04
    rcases hcode with rfl | rfl | rfl <;> decide
  | xlatePending hready => exact ⟨.inr (.inl ⟨rfl, .inl rfl, rfl⟩), rfl⟩
  | intPending hraised htype => exact ⟨.inr (.inl ⟨rfl, .inr rfl, rfl⟩), rfl⟩
  | readDone htype hstate => exact ⟨.inl ⟨hok.1, rfl, by simp⟩, rfl⟩
  | beat bus htype hstate =>
    unfold CmdEvent.nextBeat
    split_ifs
    · exact ⟨.inl ⟨hok.1, hok.2, by simp [hstate]⟩, rfl⟩
    · exact ⟨.inl ⟨hok.1, hok.2, by simp⟩, rfl⟩
  | redraw resp hstate => exact absurd hstate (Outcome.not_pendingSent h)

theorem Outcome.of_memory (h : e.Outcome) (hmem : e.type.isMemory = true) :
    e.type ≠ .failed ∧ e.resp = 0 := by
  have htype : e.type ≠ .failed := by
    intro htype
    rw [htype] at hmem
    cases hmem
  rcases h with ⟨-, hresp, -⟩ | ⟨h, -⟩ | ⟨h, -⟩
  · exact ⟨htype, hresp⟩
  · exact absurd h htype
  · exact absurd h htype

theorem response_code (e : CmdEvent) (hresp : e.resp = 0) : e.response.code = 0 := by
  unfold CmdEvent.response
  split_ifs <;> first | exact hresp | rfl

theorem response_code_of_failed (htype : e.type = .failed) : e.response.code = e.resp := by
  unfold CmdEvent.response
  rw [if_pos htype]

/-- The bytes that a first part would send: none unless the response is split. -/
theorem Descends.splits_of_part (h : Descends e₀ e) (hsent : e.respBytesSent = 0)
    (hmore : 0 < (e.prepare parms.hostClSize).respBytesSent) :
    e.type ≠ .failed ∧ e₀.Splits parms.hostClSize := by
  by_cases htype : e.type = .failed
  · rw [CmdEvent.prepare_of_failed htype] at hmore
    omega
  · by_cases hsplit : e.Splits parms.hostClSize
    · exact ⟨htype, (h.splits htype).mp hsplit⟩
    · rw [CmdEvent.prepare_of_not_splits hsplit] at hmore
      omega

theorem Stage.part {ms : List Message} (hd : Descends e₀ e) (hstage : Stage parms.hostClSize e₀ e ms)
    (hstate : e.state = .done)
    (hmore : 0 < (e.prepare parms.hostClSize).respBytesSent ∧
      (e.prepare parms.hostClSize).respBytesSent ≠ e.size) :
    Stage parms.hostClSize e₀ (e.prepare parms.hostClSize)
      (ms ++ [.response (e.prepare parms.hostClSize).response]) := by
  obtain ⟨rs, rfl, hsplit, htype, hresp, hsent, hlt, hcode⟩ : ∃ rs : List Response,
      ms = rs.map .response ∧ e₀.Splits parms.hostClSize ∧ e.type ≠ .failed ∧ e.resp = 0 ∧
      rs.length * parms.hostClSize = e.respBytesSent ∧ e.respBytesSent < e₀.size ∧
      ∀ r ∈ rs, r.code = 0 ∧ r.dl = sizeToDl parms.hostClSize := by
    cases hstage with
    | fresh hsent houtcome =>
      obtain ⟨htype, hsplit⟩ := hd.splits_of_part hsent hmore.1
      have hresp : e.resp = 0 := by
        rcases houtcome with ⟨-, hresp, -⟩ | ⟨h, -⟩ | ⟨h, -⟩
        · exact hresp
        · exact absurd h htype
        · exact absurd h htype
      refine ⟨[], rfl, hsplit, htype, hresp, by simp [hsent], ?_, by simp⟩
      rw [hsent]
      exact Nat.zero_lt_of_lt hsplit.2
    | parts rs hsplit htype _ hresp hsent hlt hcode =>
      exact ⟨rs, rfl, hsplit, htype, hresp, hsent, hlt, hcode⟩
    | pendingSent r hcode hpending => simp [hstate] at hpending
  obtain ⟨hnext, hle⟩ := hd.nextPart htype hsplit hsent hlt
  have hsize : e.size = e₀.size := (hd.kept htype).2 (hd.fresh.splits hsplit).1
  rw [CmdEvent.prepare_of_splits htype ((hd.splits htype).mpr hsplit)] at hmore ⊢
  have hparts : rs.map Message.response ++ [.response (e.nextPart parms.hostClSize).response] =
      (rs ++ [(e.nextPart parms.hostClSize).response]).map .response := by simp
  rw [hparts]
  refine .parts _ hsplit htype hstate hresp ?_ ?_ ?_
  · rw [List.length_append, List.length_singleton]
    exact hnext
  · omega
  · intro r hr
    rcases List.mem_append.mp hr with hr | hr
    · exact hcode r hr
    · rw [List.mem_singleton.mp hr]
      exact ⟨response_code _ hresp, rfl⟩

theorem Stage.refuse {ms : List Message} (hd : Descends e₀ e) (hstage : Stage parms.hostClSize e₀ e ms)
    (hresp : e.responding = true) : Stage parms.hostClSize e₀
      ((e.prepare parms.hostClSize).backUp parms.hostClSize) ms := by
  have hsent : ((e.prepare parms.hostClSize).backUp parms.hostClSize).respBytesSent =
      e.respBytesSent := by
    by_cases hsplit : e.type ≠ .failed ∧ e.Splits parms.hostClSize
    · rw [CmdEvent.prepare_of_splits hsplit.1 hsplit.2]
      apply backUp_nextPart
      have hsize := (hd.fresh.splits ((hd.splits hsplit.1).mp hsplit.2)).2
      cases hstage with
      | fresh hsent houtcome => omega
      | parts rs _ _ _ _ _ hlt => omega
      | pendingSent r hcode hpending => simp [CmdEvent.responding, hpending] at hresp
    · have hzero : e.respBytesSent = 0 := by
        cases hstage with
        | fresh hsent houtcome => exact hsent
        | parts rs hs htype => exact absurd ⟨htype, (hd.splits htype).mpr hs⟩ hsplit
        | pendingSent r hcode hpending => simp [CmdEvent.responding, hpending] at hresp
      have hsame : e.prepare parms.hostClSize = e := by
        by_cases htype : e.type = .failed
        · exact CmdEvent.prepare_of_failed htype
        · exact CmdEvent.prepare_of_not_splits (fun h => hsplit ⟨htype, h⟩)
      rw [hsame]
      simp [CmdEvent.backUp, hzero]
  rw [CmdEvent.backUp_eq, hsent]
  cases hstage with
  | fresh hzero houtcome => exact .fresh hzero (by simpa [CmdEvent.Outcome] using houtcome)
  | parts rs hsplit htype hstate hzero hcount hlt hcode =>
    exact .parts rs hsplit (by simpa using htype) (by simpa using hstate) (by simpa using hzero) hcount hlt
      hcode
  | pendingSent r hcode hpending => simp [CmdEvent.responding, hpending] at hresp

theorem Stage.rewrite {ms : List Message} (hstage : Stage parms.hostClSize e₀ e ms) (hr : Rewrite e e') :
    Stage parms.hostClSize e₀ e' ms := by
  cases hstage with
  | fresh hsent houtcome =>
    obtain ⟨hout, hbytes⟩ := Outcome.rewrite houtcome hr
    exact .fresh (hbytes.trans hsent) hout
  | parts rs hsplit htype hstate => rcases hr.state with h | h | h | h <;> simp [h] at hstate
  | pendingSent r hcode hpending =>
    obtain ⟨resp, rfl⟩ := hr.of_pendingSent hpending
    exact .pendingSent r hcode hpending

/-- An event that can still be served has not been answered. -/
theorem Stage.of_unserved {ms : List Message} (hstage : Stage parms.hostClSize e₀ e ms)
    (hdone : e.state ≠ .done) (hpending : e.state ≠ .pendingSent) :
    ms = [] ∧ e.respBytesSent = 0 ∧ e.Outcome := by
  cases hstage with
  | fresh hsent houtcome => exact ⟨rfl, hsent, houtcome⟩
  | parts rs hsplit htype hstate => exact absurd hstate hdone
  | pendingSent r hcode hstate => exact absurd hstate hpending

theorem Stage.move {ns ms : List Note} (hd : Descends e₀ e)
    (hstage : Stage parms.hostClSize e₀ e (staged ns)) (hM : ∀ x, ¬ M.terminate x)
    (hm : Move M parms.hostClSize e ms e') :
    Stage parms.hostClSize e₀ e' (staged (ns ++ ms)) := by
  rw [staged_append]
  cases hm with
  | stay => simpa [staged] using hstage
  | rewrite _ hr => simpa [staged] using hstage.rewrite hr
  | ask hready =>
    have hstate := hready.state
    obtain ⟨hns, hsent, houtcome⟩ := hstage.of_unserved (by rcases hstate with h | h <;> simp [h])
      (by rcases hstate with h | h <;> simp [h])
    obtain ⟨htype, hresp⟩ := Outcome.of_memory houtcome hready.isMemory
    rw [hns]
    refine .fresh hsent (.inl ⟨htype, hresp, ?_⟩)
    change e.askedState ≠ _ ∧ e.askedState ≠ _ ∧ e.askedState ≠ _
    unfold CmdEvent.askedState
    split <;> simp
  | raise hraised =>
    have hstate := hraised.2
    obtain ⟨hns, hsent, houtcome⟩ := hstage.of_unserved (by rcases hstate with h | h <;> simp [h])
      (by rcases hstate with h | h <;> simp [h])
    have hok : e.type ≠ .failed ∧ e.resp = 0 := by
      rcases houtcome with ⟨htype, hresp, -⟩ | ⟨htype, -⟩ | ⟨htype, -⟩
      · exact ⟨htype, hresp⟩
      · exact absurd hraised.1 (by simp [htype, CmdType.isInterrupt])
      · exact absurd hraised.1 (by simp [htype, CmdType.isInterrupt])
    rw [hns]
    exact .fresh hsent (.inl ⟨hok.1, hok.2, by simp⟩)
  | pending hstate =>
    obtain ⟨hns, hsent, houtcome⟩ := hstage.of_unserved (by rcases hstate with h | h <;> simp [h])
      (by rcases hstate with h | h <;> simp [h])
    have hfailed : e.type = .failed ∧ e.resp = 0x04 := by
      rcases houtcome with ⟨-, -, hx, hi, -⟩ | ⟨htype, -, hresp⟩ | ⟨-, hdone, -⟩
      · rcases hstate with h | h
        · exact absurd h hx
        · exact absurd h hi
      · exact ⟨htype, hresp⟩
      · rcases hstate with h | h <;> simp [h] at hdone
    rw [hns, CmdEvent.prepare_of_failed hfailed.1]
    exact .pendingSent e.response ((response_code_of_failed hfailed.1).trans hfailed.2) rfl
  | part hstate hmore => exact hstage.part hd hstate hmore
  | refuse hresp =>
    have hnone : staged [Note.refused] = [] := rfl
    rw [hnone, List.append_nil]
    exact hstage.refuse hd hresp
  | answer ans _ hawait hans hlimit =>
    have hstate := hawait.state
    obtain ⟨hns, hsent, houtcome⟩ := hstage.of_unserved (by rcases hstate with h | h | h <;> simp [h])
      (by rcases hstate with h | h | h <;> simp [h])
    obtain ⟨htype, hresp⟩ := Outcome.of_memory houtcome hawait.1
    have hnone : staged [Note.answered ans] = [] := rfl
    rw [hns, hnone]
    cases hans with
    | success data size hsize => exact .fresh hsent (.inl ⟨htype, hresp, by simp⟩)
    | failure ans size hne => exact .fresh hsent (.inr (.inr ⟨rfl, rfl, by simp⟩))
  | terminate hstate hlimit => exact absurd hlimit (hM e)

theorem Stage.last {ns ms : List Note} (hd : Descends e₀ e)
    (hstage : Stage parms.hostClSize e₀ e (staged ns)) (hl : Last parms.hostClSize e ms) :
    Complete parms.hostClSize e₀ (staged (ns ++ ms)) := by
  rw [staged_append]
  generalize staged ns = sent at hstage ⊢
  cases hl with
  | finish hstate hlast =>
    change Complete _ _ (sent ++ [.response (e.prepare parms.hostClSize).response])
    cases hstage with
    | fresh hsent houtcome =>
      rcases houtcome with ⟨htype, hresp, -⟩ | ⟨-, h | h, -⟩ | ⟨htype, -, hzero, hfour⟩
      · -- a response that is split is not over after its first part
        have hnot : ¬ e₀.Splits parms.hostClSize := by
          intro hsplit
          obtain ⟨hnext, -⟩ := hd.nextPart (k := 0) htype hsplit (by simp [hsent])
            (by rw [hsent]; exact Nat.zero_lt_of_lt hsplit.2)
          have hsize : e.size = e₀.size := (hd.kept htype).2 (hd.fresh.splits hsplit).1
          rw [CmdEvent.prepare_of_splits htype ((hd.splits htype).mpr hsplit), ← hnext, hsize] at hlast
          have hlt := hsplit.2
          have hcl := parms.hostClSize_supported
          omega
        rw [CmdEvent.prepare_of_not_splits (fun h => hnot ((hd.splits htype).mp h))]
        refine .single _ ?_ (fun h => absurd h hnot)
        rw [response_code e hresp]
        decide
      · simp [h] at hstate
      · simp [h] at hstate
      · rw [CmdEvent.prepare_of_failed htype]
        refine .single _ ?_ (fun _ => ?_)
        · rw [response_code_of_failed htype]
          exact hfour
        · rw [response_code_of_failed htype]
          exact hzero
    | parts rs hsplit htype _ hresp hsent hlt hcode =>
      obtain ⟨hnext, hle⟩ := hd.nextPart htype hsplit hsent hlt
      have hsize : e.size = e₀.size := (hd.kept htype).2 (hd.fresh.splits hsplit).1
      rw [CmdEvent.prepare_of_splits htype ((hd.splits htype).mpr hsplit)] at hlast ⊢
      have hpos : 0 < parms.hostClSize := by
        have hcl := parms.hostClSize_supported
        omega
      have hall : (rs.length + 1) * parms.hostClSize = e₀.size := by
        have hle' : 0 < (rs.length + 1) * parms.hostClSize := Nat.mul_pos (Nat.succ_pos _) hpos
        omega
      have hparts : rs.map Message.response ++ [.response (e.nextPart parms.hostClSize).response] =
          (rs ++ [(e.nextPart parms.hostClSize).response]).map .response := by simp
      have hdl : ∀ r ∈ rs ++ [(e.nextPart parms.hostClSize).response],
          r.code = 0 ∧ dlToSize r.dl = parms.hostClSize := by
        have hback : dlToSize (sizeToDl parms.hostClSize) = parms.hostClSize := by
          rcases parms.hostClSize_supported with h | h | h <;> rw [h] <;> rfl
        intro r hr
        rcases List.mem_append.mp hr with hr | hr
        · rw [(hcode r hr).2]
          exact ⟨(hcode r hr).1, hback⟩
        · rw [List.mem_singleton.mp hr]
          exact ⟨response_code _ hresp, hback⟩
      rw [hparts]
      refine .parts _ hsplit (fun r hr => (hdl r hr).1) ?_ ?_
      · rw [List.length_append, List.length_singleton]
        exact Nat.eq_div_of_mul_eq_left hpos.ne' hall
      · rw [List.map_congr_left (fun r hr => (hdl r hr).2), List.map_const', List.sum_replicate_nat,
          List.length_append, List.length_singleton]
        exact hall
    | pendingSent r hcode hpending => simp [hstate] at hpending
  | post hstate resp =>
    cases hstage with
    | fresh hsent houtcome => exact absurd hstate (Outcome.not_pendingSent houtcome)
    | parts rs hsplit htype hdone => simp [hstate] at hdone
    | pendingSent r hcode hpending =>
      rw [hd.command]
      exact .pending r resp hcode

end Stages

/-! ## Whole runs -/

/-- While every client stays valid, no event is ended by a departure. -/
theorem ended_of_allValid {s : Ocl} (hs : s.Wf) {a : Action} (hvalid : (s.step a).AllValid)
    (e : CmdEvent) : e ∉ s.ended a := by
  intro he
  cases a with
  | settle i =>
    cases hc : s.client i with
    | none => simp [Ocl.ended, hc] at he
    | some c =>
      have hgone : s.halted = false ∧ c.state = .none := by
        by_contra hne
        simp [Ocl.ended, hc, hne] at he
      have hstep : (s.step (.settle i)).client i = some { c with idleCycles := 0 } := by
        simp [Ocl.step, hgone, Ocl.act, settleClient, hc, clientCmd, Ocl.setClient]
      have hi : i < (s.step (.settle i)).maxClients := by
        rw [step_maxClients]
        exact (hs.slot i c hc).1
      have hstate : ({ c with idleCycles := 0 } : Client).state = .valid := hvalid i hi _ hstep
      simp [hgone.2] at hstate
  | _ => simp [Ocl.ended] at he

/-- In every run in which no client is dropped or detached, the history of every tag is a sequence of
completed sessions, and behind them the open session of the event that carries the tag, if any. -/
theorem exactlyOnce_completion (parms : Parms) (maxClients : ℕ) (afuEvent : AfuEvent) (as : List Action)
    (hvalid : Along Ocl.step (fun s a => (s.step a).AllValid) (Ocl.init parms maxClients afuEvent) as)
    (t : UInt16) :
    ∃ o, Sessions (fun e ns => Complete parms.hostClSize e (staged ns))
        (history t ((Ocl.init parms maxClients afuEvent).run as).trace) o ∧
      match o with
      | none => ∀ e ∈ ((Ocl.init parms maxClients afuEvent).run as).list, e.afutag ≠ t
      | some (e₀, _) => ∃ e ∈ ((Ocl.init parms maxClients afuEvent).run as).list,
          e.afutag = t ∧ e.id = e₀.id := by
  have hwf := run_wf (Ocl.init_wf parms maxClients afuEvent) as
  have hM : Along Ocl.step (Within ⟨fun _ _ => True, fun _ => False⟩)
      (Ocl.init parms maxClients afuEvent) as := by
    refine (hvalid.strengthen Ocl.Wf (fun _ a h => step_wf h a) (Ocl.init_wf _ _ _)).mono ?_
    rintro s a ⟨hs, hnext⟩
    exact ⟨fun _ _ => trivial, ended_of_allValid hs hnext⟩
  have htracked := run_tracked (fun e ns => Complete parms.hostClSize e (staged ns))
    (fun e₀ e ns => Descends e₀ e ∧ Stage parms.hostClSize e₀ e (staged ns))
    (fun e hfresh => ⟨hfresh.descends, .fresh hfresh.bytesSent hfresh.outcome⟩)
    (fun e₀ e ns ms e' h hm => ⟨h.1.move hm, h.2.move h.1 (fun _ => id) hm⟩)
    (fun e₀ e ns ms h hl => h.2.last h.1 hl) hM t
  cases htagged : ((Ocl.init parms maxClients afuEvent).run as).tagged t with
  | none =>
    rw [htagged] at htracked
    exact ⟨none, htracked, lookup_eq_none.mp htagged⟩
  | some e =>
    rw [htagged] at htracked
    obtain ⟨e₀, ns, hsessions, hdescends, -⟩ := htracked
    obtain ⟨he, htag⟩ := (tagged_eq_some hwf).mp htagged
    exact ⟨some (e₀, ns), hsessions, e, he, htag, hdescends.id⟩

/-- A client connects, a read is accepted and sent to it, it replies, and the response is staged. -/
def sampleReadRun : List Action :=
  .associate 0 :: { Turn.quiet with socket := sampleRead.frame }.actions 2 ++ Turn.quiet.actions 2 ++
    { Turn.quiet with input := fun _ => .memSuccess (List.replicate 64 7) }.actions 2 ++
    Turn.quiet.actions 2

theorem sampleReadRun_completion :
    Along Ocl.step (fun s a => (s.step a).AllValid)
        (Ocl.init (.quiet 128 (by simp)) 2 sampleAfu) sampleReadRun ∧
      ∃ o, Sessions (fun e ns => Complete 128 e (staged ns))
          (history 5 ((Ocl.init (.quiet 128 (by simp)) 2 sampleAfu).run sampleReadRun).trace) o ∧
        match o with
        | none => ∀ e ∈ ((Ocl.init (.quiet 128 (by simp)) 2 sampleAfu).run sampleReadRun).list,
            e.afutag ≠ 5
        | some (e₀, _) => ∃ e ∈ ((Ocl.init (.quiet 128 (by simp)) 2 sampleAfu).run sampleReadRun).list,
            e.afutag = 5 ∧ e.id = e₀.id := by
  have hvalid : Along Ocl.step (fun s a => (s.step a).AllValid)
      (Ocl.init (.quiet 128 (by simp)) 2 sampleAfu) sampleReadRun := by decide +kernel
  exact ⟨hvalid, exactlyOnce_completion _ 2 sampleAfu sampleReadRun hvalid 5⟩

end Ocse
