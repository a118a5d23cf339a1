import Ocse.ResponseClass

/-!
# Truthful responses

A memory command is answered with success only when its client has answered with success. The failure
paths do not keep to this: `handle_aerror` leaves the opcode of the good response, and `client_cmd` leaves
the type of an event that it ends.
-/

namespace Ocse

/-! ## What a response signals -/

def isMemoryCmd (opcode : UInt8) : Bool :=
  RespClass.reads.commands.contains opcode || RespClass.stores.commands.contains opcode

/-- A response that signals success: read data, or a good code for a write. -/
def Response.Success (r : Response) : Prop :=
  (r.opcode = tlxRspReadResp ∧ r.data.isSome = true) ∨ (r.opcode = tlxRspWriteResp ∧ r.code = 0)

def Response.Failure (r : Response) : Prop :=
  (r.opcode = tlxRspReadFailed ∨ r.opcode = tlxRspWriteFailed) ∧ r.code ≠ 0

theorem Response.Failure.not_success {r : Response} (h : r.Failure) : ¬ r.Success := by
  rintro (⟨hop, -⟩ | ⟨hop, -⟩) <;> rcases h.1 with h | h <;> rw [hop] at h <;> revert h <;> decide

def Note.unanswered : Note → Bool
  | .answered _ => false
  | _ => true

/-- Success is signalled only behind the client's own success, whose data was complete; a command that its
client never answered with success has nothing but failures. -/
structure Truthful (ns : List Note) : Prop where
  success : ∀ ns₁ r ns₂, ns = ns₁ ++ .response r :: ns₂ → r.Success → Note.answered .success ∈ ns₁
  failure : Note.answered .success ∉ ns → ∀ r ∈ responses ns, r.Failure

theorem truthful_nil : Truthful [] := by
  constructor
  · intro ns₁ r ns₂ h
    simp at h
  · simp [responses]

theorem Truthful.concat {ns : List Note} (h : Truthful ns) (n : Note)
    (hn : ∀ r, n = .response r → Note.answered .success ∈ ns ∨ r.Failure) : Truthful (ns ++ [n]) := by
  constructor
  · intro ns₁ r ns₂ heq hsuccess
    rcases concat_eq_append_cons_iff.mp heq with ⟨rfl, hlast, -⟩ | ⟨ms, -, hinit⟩
    · exact (hn r hlast.symm).resolve_right (fun hf => hf.not_success hsuccess)
    · exact h.success ns₁ r ms hinit hsuccess
  · intro hnot r hr
    have hnot : Note.answered .success ∉ ns := fun hmem => hnot (List.mem_append_left _ hmem)
    rw [responses_append, List.mem_append] at hr
    rcases hr with hr | hr
    · exact h.failure hnot r hr
    · have heq : n = .response r := by
        cases n <;> simp [responses, Note.toResponse] at hr
        rw [hr]
      exact (hn r heq).resolve_left hnot

/-! ## Steps on which the code keeps to it -/

/-- An event that `client_cmd` may end: it has failed, with a code. -/
def CmdEvent.EndsWell (e : CmdEvent) : Prop :=
  isMemoryCmd e.command = true → e.type = .failed ∧ (e.state = .pendingSent → e.resp ≠ 0)

instance (e : CmdEvent) : Decidable e.EndsWell :=
  inferInstanceAs (Decidable (_ → _ ∧ (_ → _)))

/-- The client answers with success if at all, and leaves nothing behind that it was to answer. -/
def Reliable (s : Ocl) (a : Action) : Prop :=
  (∀ x ∈ s.answered a, x.2 = .success) ∧ ∀ e ∈ s.ended a, e.EndsWell

instance (s : Ocl) (a : Action) : Decidable (Reliable s a) :=
  inferInstanceAs (Decidable ((∀ x ∈ s.answered a, x.2 = .success) ∧ ∀ e ∈ s.ended a, e.EndsWell))

def truthLimits : Limits where
  answer _ ans := ans = .success
  terminate e := e.EndsWell

/-! ## The grounds of an event -/

/-- An event of a memory command, with what has been noted of it. -/
inductive Grounded (e : CmdEvent) (ns : List Note) : Prop
  | waiting (hmem : e.type.isMemory = true) (hstate : e.state ≠ .pendingSent)
      (hresp : e.responding = false) (hread : e.type = .read → e.state ≠ .received)
  | answered (hmem : e.type.isMemory = true) (hstate : e.state = .done)
      (hans : Note.answered .success ∈ ns)
  | failed (htype : e.type = .failed)
      (hop : e.respOpcode = tlxRspReadFailed ∨ e.respOpcode = tlxRspWriteFailed)
      (hresp : e.state ≠ .pendingSent → e.resp ≠ 0)

section Grounded

variable {cmd : AfuTlxCmd} {e₀ e e' : CmdEvent} {cl : ℕ} {ns ms : List Note}

theorem isMemoryCmd_iff {op : UInt8} :
    isMemoryCmd op = true ↔ op ∈ RespClass.reads.commands ∨ op ∈ RespClass.stores.commands := by
  simp [isMemoryCmd]

theorem CmdEvent.Shape.isMemory (h : e.Shape) (hcmd : isMemoryCmd e.command = true)
    (htype : e.type ≠ .failed) : e.type.isMemory = true := by
  have hmem := h.mem_commands htype
  have hclass : e.type.respClass = .reads ∨ e.type.respClass = .stores := by
    rcases isMemoryCmd_iff.mp hcmd with hop | hop
    · exact .inl (RespClass.eq_of_mem hmem hop)
    · exact .inr (RespClass.eq_of_mem hmem hop)
  cases heq : e.type <;> simp only [CmdEvent.Shape, heq] at h <;> simp [heq, CmdType.respClass] at hclass htype <;>
    rfl

theorem rejectOpcode_of_memory (h : isMemoryCmd cmd.opcode = true) :
    rejectOpcode cmd = tlxRspReadFailed ∨ rejectOpcode cmd = tlxRspWriteFailed := by
  have hop := isMemoryCmd_iff.mp h
  simp only [RespClass.commands, List.mem_cons, List.not_mem_nil, or_false] at hop
  by_cases hlength : cmd.AmoLength <;>
    rcases hop with (h | h | h | h | h | h | h | h) | (h | h | h | h | h | h | h | h) <;>
    simp only [rejectOpcode, h, hlength] <;> decide

theorem Issued.grounded (h : Issued cmd e) (hcmd : isMemoryCmd cmd.opcode = true) : Grounded e [] := by
  have hstart := h.start
  by_cases htype : e.type = .failed
  · have hstart : e.state = .done ∧ (e.resp = 0x09 ∨ e.resp = 0x0b ∨ e.resp = tlxResponseFailed) := by
      simpa [CmdEvent.Start, htype] using hstart
    refine .failed htype ?_ ?_
    · rw [(h.answers.rejected htype).opcode]
      exact rejectOpcode_of_memory hcmd
    · intro _
      rcases hstart.2 with hresp | hresp | hresp <;> rw [hresp] <;> decide
  · have hmem := h.shape.isMemory (h.command ▸ hcmd) htype
    have htouch : e.type ≠ .touch := by
      intro heq
      simp [heq, CmdType.isMemory] at hmem
    have hstate : e.state = .idle ∨ e.state = .buffer ∨ (e.state = .received ∧ e.type ≠ .read) := by
      rcases hstart with ⟨hf, -⟩ | ⟨-, -, ⟨ht, -⟩ | ⟨-, hs⟩ | ⟨-, hs, -⟩ | ⟨-, hread, -, hs, -⟩⟩
      · exact absurd hf htype
      · exact absurd ht htouch
      · exact .inl hs
      · exact .inr (.inl hs)
      · exact .inr (.inr ⟨hs, hread⟩)
    refine .waiting hmem ?_ ?_ ?_
    · rcases hstate with hs | hs | ⟨hs, -⟩ <;> rw [hs] <;> decide
    · rcases hstate with hs | hs | ⟨hs, -⟩ <;> simp [CmdEvent.responding, hs]
    · intro hread
      rcases hstate with hs | hs | ⟨-, hne⟩
      · simp [hs]
      · simp [hs]
      · exact absurd hread hne

theorem Grounded.mono (h : Grounded e ns) (ms : List Note) : Grounded e (ns ++ ms) := by
  cases h with
  | waiting hmem hstate hresp hread => exact .waiting hmem hstate hresp hread
  | answered hmem hstate hans => exact .answered hmem hstate (List.mem_append_left ms hans)
  | failed htype hop hresp => exact .failed htype hop hresp

/-- The response of a grounded event is a failure, or the client has answered. -/
theorem Grounded.response (h : Grounded e ns) (hresponding : e.responding = true) :
    Note.answered .success ∈ ns ∨ (e.prepare cl).response.Failure := by
  cases h with
  | waiting hmem hstate hresp => simp [hresponding] at hresp
  | answered hmem hstate hans => exact .inl hans
  | failed htype hop hresp =>
    have hstate : e.state ≠ .pendingSent := by
      intro hs
      simp [CmdEvent.responding, hs] at hresponding
    refine .inr ⟨?_, ?_⟩
    · simpa [CmdEvent.response] using hop
    · simpa [CmdEvent.response, htype] using hresp hstate

theorem CmdEvent.failOpcode_of_isMemory (h : e.type.isMemory = true) :
    e.failOpcode = tlxRspReadFailed ∨ e.failOpcode = tlxRspWriteFailed := by
  unfold CmdEvent.failOpcode
  cases heq : e.type <;> simp [heq, CmdType.isMemory] at h <;> simp

theorem grounded_fail (hmem : e.type.isMemory = true) (state : MemState) {code : UInt8}
    (hcode : code ≠ 0) : Grounded (e.fail state e.failOpcode code) ns :=
  .failed rfl (CmdEvent.failOpcode_of_isMemory hmem) (fun _ => hcode)

theorem Grounded.rewrite (h : Grounded e ns) (hr : Rewrite e e') : Grounded e' ns := by
  cases hr with
  | inject code hor hcode =>
    have hmem : e.type.isMemory = true := by
      rcases hor with hready | hraised
      · exact hready.isMemory
      · have hint := hraised.1
        cases h with
        | waiting hmem => exact hmem
        | answered hmem => exact hmem
        | failed htype => simp [htype, CmdType.isInterrupt] at hint
    exact grounded_fail hmem _ (by rcases hcode with rfl | rfl | rfl <;> decide)
  | xlatePending hready => exact grounded_fail hready.isMemory _ (by decide)
  | intPending hraised htype =>
    cases h with
    | waiting hmem => simp [htype, CmdType.isMemory] at hmem
    | answered hmem => simp [htype, CmdType.isMemory] at hmem
    | failed hf => simp [htype] at hf
  | readDone htype hstate =>
    cases h with
    | waiting _ _ _ hread => exact absurd hstate (hread htype)
    | answered hmem hdone => simp [hstate] at hdone
    | failed hf => simp [htype] at hf
  | beat bus htype hstate =>
    have hne : (e.nextBeat bus).state ≠ .pendingSent ∧ (e.nextBeat bus).responding = false ∧
        (e.nextBeat bus).type = e.type := by
      unfold CmdEvent.nextBeat
      split_ifs <;> simp [CmdEvent.responding, hstate]
    refine .waiting ?_ hne.1 hne.2.1 ?_
    · rw [hne.2.2, htype]
      rfl
    · rw [hne.2.2, htype]
      simp
  | redraw resp hstate =>
    cases h with
    | waiting hmem hne => exact absurd hstate hne
    | answered hmem hdone => simp [hstate] at hdone
    | failed htype hop _ => exact .failed htype hop (fun hne => absurd hstate hne)

theorem CmdEvent.Ready.waiting (h : e.Ready) : Grounded { e with state := e.askedState } ns := by
  have hasked : e.askedState = .request ∨ e.askedState = .dmaMemResp ∨ e.askedState = .received := by
    unfold CmdEvent.askedState
    split <;> simp
  refine .waiting h.isMemory ?_ ?_ ?_
  · rcases hasked with hs | hs | hs <;> simp [hs]
  · rcases hasked with hs | hs | hs <;> simp [CmdEvent.responding, hs]
  · intro hread
    have hread : e.type = .read := hread
    simp [CmdEvent.askedState, hread]

theorem Grounded.congr (h : Grounded e ns) (htype : e'.type = e.type) (hstate : e'.state = e.state)
    (hop : e'.respOpcode = e.respOpcode) (hresp : e'.resp = e.resp) : Grounded e' ns := by
  cases h with
  | waiting hmem hne hresponding hread =>
    exact .waiting (htype ▸ hmem) (hstate ▸ hne) (by
      simpa only [CmdEvent.responding, hstate] using hresponding) (by rwa [htype, hstate])
  | answered hmem hdone hans => exact .answered (htype ▸ hmem) (hstate ▸ hdone) hans
  | failed hf hopcode hcode => exact .failed (htype ▸ hf) (hop ▸ hopcode) (by rwa [hstate, hresp])

/-- An event of a memory command is grounded, and what it has been answered with is true. -/
structure Honest (cmd : AfuTlxCmd) (e₀ e : CmdEvent) (ns : List Note) : Prop where
  issued : Issued cmd e₀
  descends : Descends e₀ e
  grounded : isMemoryCmd cmd.opcode = true → Grounded e ns
  truthful : isMemoryCmd cmd.opcode = true → Truthful ns

theorem Honest.quiet (h : Honest cmd e₀ e ns) (hd : Descends e₀ e')
    (hg : isMemoryCmd cmd.opcode = true → Grounded e ns → Grounded e' ns) :
    Honest cmd e₀ e' (ns ++ []) := by
  rw [List.append_nil]
  exact ⟨h.issued, hd, fun hcmd => hg hcmd (h.grounded hcmd), h.truthful⟩

theorem Honest.noted (h : Honest cmd e₀ e ns) (hd : Descends e₀ e') {n : Note}
    (hn : ∀ r, n ≠ .response r)
    (hg : isMemoryCmd cmd.opcode = true → Grounded e ns → Grounded e' (ns ++ [n])) :
    Honest cmd e₀ e' (ns ++ [n]) :=
  ⟨h.issued, hd, fun hcmd => hg hcmd (h.grounded hcmd), fun hcmd =>
    (h.truthful hcmd).concat n (fun r hr => absurd hr (hn r))⟩

theorem Honest.truthful_response (h : Honest cmd e₀ e ns) (hresponding : e.responding = true)
    (hcmd : isMemoryCmd cmd.opcode = true) :
    Truthful (ns ++ [.response (e.prepare cl).response]) := by
  refine (h.truthful hcmd).concat _ (fun r hr => ?_)
  obtain rfl := Note.response.inj hr
  exact (h.grounded hcmd).response hresponding

theorem Honest.move (h : Honest cmd e₀ e ns) (hm : Move truthLimits cl e ms e') :
    Honest cmd e₀ e' (ns ++ ms) := by
  have hd := h.descends.move hm
  cases hm with
  | stay => exact h.quiet hd (fun _ hg => hg)
  | rewrite _ hr => exact h.quiet hd (fun _ hg => hg.rewrite hr)
  | ask hready => exact h.quiet hd (fun _ _ => hready.waiting)
  | raise hraised =>
    refine h.quiet hd (fun hcmd hg => ?_)
    have hint := hraised.1
    cases hg with
    | waiting hmem => cases heq : e.type <;> simp [heq, CmdType.isMemory, CmdType.isInterrupt] at hmem hint
    | answered hmem => cases heq : e.type <;> simp [heq, CmdType.isMemory, CmdType.isInterrupt] at hmem hint
    | failed htype => simp [htype, CmdType.isInterrupt] at hint
  | pending hstate =>
    have hresponding : e.responding = true := by
      rcases hstate with hs | hs <;> simp [CmdEvent.responding, hs]
    refine ⟨h.issued, hd, fun hcmd => ?_, h.truthful_response hresponding⟩
    cases h.grounded hcmd with
    | waiting _ _ hresp => simp [hresponding] at hresp
    | answered _ hdone => rcases hstate with hs | hs <;> simp [hs] at hdone
    | failed htype hop => exact .failed (by simpa using htype) (by simpa using hop) (by simp)
  | part hstate hmore =>
    have hresponding : e.responding = true := by simp [CmdEvent.responding, hstate]
    refine ⟨h.issued, hd, fun hcmd => ?_, h.truthful_response hresponding⟩
    exact ((h.grounded hcmd).mono _).congr (by simp) (by simp) (by simp) (by simp)
  | refuse hresp =>
    refine h.noted hd (by simp) (fun _ hg => (hg.mono _).congr ?_ ?_ ?_ ?_) <;>
      rw [CmdEvent.backUp_eq] <;> simp
  | answer ans _ hawait hans hlimit =>
    obtain rfl : ans = .success := hlimit
    refine h.noted hd (by simp) (fun _ hg => ?_)
    cases hans with
    | success data size hsize => exact .answered hawait.1 rfl (by simp)
    | failure _ size hne => exact absurd rfl hne
  | terminate hstate hlimit =>
    refine h.noted hd (by simp) (fun hcmd hg => ?_)
    have hcommand : e.command = cmd.opcode := h.descends.command.trans h.issued.command
    obtain ⟨htype, hresp⟩ := hlimit (hcommand ▸ hcmd)
    cases hg with
    | waiting hmem => simp [htype, CmdType.isMemory] at hmem
    | answered hmem => simp [htype, CmdType.isMemory] at hmem
    | failed _ hop hcode =>
      refine .failed htype hop (fun _ => ?_)
      have hterminate : e.terminate.resp = e.resp := by simp [CmdEvent.terminate, htype]
      rw [hterminate]
      by_cases hs : e.state = .pendingSent
      · exact hresp hs
      · exact hcode hs

theorem Honest.last (h : Honest cmd e₀ e ns) (hl : Last cl e ms) (hcmd : isMemoryCmd cmd.opcode = true) :
    Truthful (ns ++ ms) := by
  cases hl with
  | finish hstate hlast => exact h.truthful_response (by simp [CmdEvent.responding, hstate]) hcmd
  | post hstate resp => exact (h.truthful hcmd).concat _ (by simp)

end Grounded

/-! ## Whole runs -/

/-- As long as the clients answer with success and `client_cmd` ends no memory command that has not
failed, every response to a memory command is true, in every session. -/
theorem responseTruth_reliable (parms : Parms) (maxClients : ℕ) (afuEvent : AfuEvent) (as : List Action)
    (hreliable : Along Ocl.step Reliable (Ocl.init parms maxClients afuEvent) as) (t : UInt16) :
    ∃ o, Sessions (fun x ns => isMemoryCmd x.1.opcode = true → Truthful ns)
        (cmdHistory t ((Ocl.init parms maxClients afuEvent).run as).trace) o ∧
      ∀ y ∈ o, isMemoryCmd y.1.1.opcode = true → Truthful y.2 := by
  have hM : Along Ocl.step (Within truthLimits) (Ocl.init parms maxClients afuEvent) as :=
    hreliable.mono (fun s a h => ⟨h.1, h.2⟩)
  have htracked := run_issued (fun cmd _ ns => isMemoryCmd cmd.opcode = true → Truthful ns) Honest
    (fun cmd e h => ⟨h, h.descends, h.grounded, fun _ => truthful_nil⟩)
    (fun cmd e₀ e ns ms e' h hm => h.move hm) (fun cmd e₀ e ns ms h hl => h.last hl) hM t
  exact htracked.sessions (fun x e ns h => h.truthful)

theorem sampleReadRun_truthful :
    Along Ocl.step Reliable (Ocl.init (.quiet 128 (by simp)) 2 sampleAfu) sampleReadRun ∧
      ∃ o, Sessions (fun x ns => isMemoryCmd x.1.opcode = true → Truthful ns)
          (cmdHistory 5 ((Ocl.init (.quiet 128 (by simp)) 2 sampleAfu).run sampleReadRun).trace) o ∧
        ∀ y ∈ o, isMemoryCmd y.1.1.opcode = true → Truthful y.2 := by
  have hreliable : Along Ocl.step Reliable (Ocl.init (.quiet 128 (by simp)) 2 sampleAfu)
      sampleReadRun := by decide +kernel
  exact ⟨hreliable, responseTruth_reliable _ 2 sampleAfu sampleReadRun hreliable 5⟩

/-- The client detaches with a read request in its hands. -/
def abandonedReadRun : List Action :=
  .associate 0 :: { Turn.quiet with socket := sampleRead.frame }.actions 2 ++ Turn.quiet.actions 2 ++
    { Turn.quiet with input := fun _ => .detach }.actions 2 ++ Turn.quiet.actions 2

/-- The read is answered with data that nobody supplied. -/
theorem abandonedReadRun_untrue :
    ¬ ∃ o, Sessions (fun x ns => isMemoryCmd x.1.opcode = true → Truthful ns)
        (cmdHistory 5 ((Ocl.init (.quiet 128 (by simp)) 2 sampleAfu).run abandonedReadRun).trace) o ∧
      ∀ y ∈ o, isMemoryCmd y.1.1.opcode = true → Truthful y.2 := by
  rintro ⟨o, hsessions, -⟩
  obtain ⟨x, ns, hscan, htruth⟩ := hsessions.last_done (by decide +kernel)
  have hadded : (scan (cmdHistory 5 ((Ocl.init (.quiet 128 (by simp)) 2 sampleAfu).run
      abandonedReadRun).trace).dropLast).map (Option.map (fun y => y.1.1.opcode)) =
      some (some afuCmdRdWnitc) := by decide +kernel
  have hsent : (scan (cmdHistory 5 ((Ocl.init (.quiet 128 (by simp)) 2 sampleAfu).run
      abandonedReadRun).trace).dropLast).map (Option.map (fun y => (responses y.2).map
        (fun r => (r.opcode, r.data.isSome)))) = some (some [(tlxRspReadResp, true)]) := by
    decide +kernel
  have hquiet : (scan (cmdHistory 5 ((Ocl.init (.quiet 128 (by simp)) 2 sampleAfu).run
      abandonedReadRun).trace).dropLast).map (Option.map (fun y => y.2.all Note.unanswered)) =
      some (some true) := by decide +kernel
  rw [hscan] at hadded hsent hquiet
  have hop : x.1.opcode = afuCmdRdWnitc := by simpa using hadded
  have hnot : Note.answered .success ∉ ns := by
    intro hmem
    have hall : ns.all Note.unanswered = true := by simpa using hquiet
    exact Bool.noConfusion (List.all_eq_true.mp hall _ hmem)
  have hrs : (responses ns).map (fun r => (r.opcode, r.data.isSome)) = [(tlxRspReadResp, true)] := by
    simpa using hsent
  obtain ⟨r, hr⟩ : ∃ r, responses ns = [r] := List.length_eq_one_iff.mp (by
    simpa using congrArg List.length hrs)
  rw [hr, List.map_singleton, List.singleton_inj, Prod.mk.injEq] at hrs
  have hfailure := (htruth (by rw [hop]; decide)).failure hnot r (by simp [hr])
  exact hfailure.not_success (.inl ⟨hrs.1, hrs.2⟩)

end Ocse
