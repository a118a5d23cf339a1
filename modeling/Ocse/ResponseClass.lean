import Ocse.Completion

/-!
# The class of a response

A command that returns data is answered with `READ_RESP` or `READ_FAILED`, one that stores with
`WRITE_RESP` or `WRITE_FAILED`, and data comes with `READ_RESP` alone. `_add_amo` leaves `AMO_RD_N` out
of the commands that read, and rejects the length of an `AMO_RD` as if it were a store; `handle_aerror`
keeps the opcode of the good response.
-/

namespace Ocse

inductive RespClass
  | reads | stores | interrupt | wake | touch
  deriving DecidableEq, Repr

/-- The commands of a class, as `_parse_cmd` knows them. -/
def RespClass.commands : RespClass → List UInt8
  | .reads => [afuCmdRdWnitc, afuCmdRdWnitcN, afuCmdPrRdWnitc, afuCmdPrRdWnitcN, afuCmdAmoRd,
      afuCmdAmoRdN, afuCmdAmoRw, afuCmdAmoRwN]
  | .stores => [afuCmdDmaW, afuCmdDmaWN, afuCmdDmaPrW, afuCmdDmaPrWN, afuCmdDmaWBe, afuCmdDmaWBeN,
      afuCmdAmoW, afuCmdAmoWN]
  | .interrupt => [afuCmdIntrpReq, afuCmdIntrpReqD]
  | .wake => [afuCmdWakeHostThrd]
  | .touch => [afuCmdXlateTouch, afuCmdXlateTouchN]

def RespClass.opcodes : RespClass → List UInt8
  | .reads => [tlxRspReadResp, tlxRspReadFailed]
  | .stores => [tlxRspWriteResp, tlxRspWriteFailed]
  | .interrupt => [tlxRspIntrpResp]
  | .wake => [tlxRspWakeHostResp]
  | .touch => [tlxRspTouchResp]

structure Response.Agrees (r : Response) (c : RespClass) : Prop where
  opcode : r.opcode ∈ c.opcodes
  data : r.data.isSome = true ↔ r.opcode = tlxRspReadResp

/-- The responses of a session agree with the class of its command. -/
def Agreement (cmd : AfuTlxCmd) (ns : List Note) : Prop :=
  ∀ c : RespClass, cmd.opcode ∈ c.commands → ∀ r ∈ responses ns, r.Agrees c

/-- The commands whose response opcode `_add_amo` gets right. -/
def AfuTlxCmd.Sound (cmd : AfuTlxCmd) : Prop :=
  cmd.opcode ≠ afuCmdAmoRdN ∧ (cmd.opcode = afuCmdAmoRd → cmd.AmoLength)

/-- The client answered no request of a data-returning command with a failure or with too few bytes. -/
def AnsweredWell (cmd : AfuTlxCmd) (ns : List Note) : Prop :=
  cmd.opcode ∈ RespClass.reads.commands → ∀ ans, Note.answered ans ∈ ns → ans = .success

theorem AnsweredWell.of_append {cmd : AfuTlxCmd} {ns ms : List Note} (h : AnsweredWell cmd (ns ++ ms)) :
    AnsweredWell cmd ns :=
  fun hreads ans hmem => h hreads ans (List.mem_append_left ms hmem)

/-! ## Classes and types -/

def CmdType.respClass : CmdType → RespClass
  | .read | .amoRd | .amoRw => .reads
  | .interrupt => .interrupt
  | .wakeHostThrd => .wake
  | .touch => .touch
  | _ => .stores

theorem RespClass.eq_of_mem {op : UInt8} {c c' : RespClass} (h : op ∈ c.commands)
    (h' : op ∈ c'.commands) : c = c' := by
  have hdisjoint : ∀ op ∈ c.commands, op ∈ c'.commands → c = c' := by
    cases c <;> cases c' <;> decide +kernel
  exact hdisjoint op h h'

theorem respondsWithData_iff {op : UInt8} {c : RespClass} (h : op ∈ c.commands) :
    respondsWithData op = true ↔ c = .reads := by
  have hall : ∀ op ∈ c.commands, respondsWithData op = true ↔ c = .reads := by
    cases c <;> decide +kernel
  exact hall op h

theorem readResp_mem_opcodes {c : RespClass} (h : tlxRspReadResp ∈ c.opcodes) : c = .reads := by
  cases c <;> revert h <;> decide

theorem CmdEvent.Shape.mem_commands {e : CmdEvent} (h : e.Shape) (htype : e.type ≠ .failed) :
    e.command ∈ e.type.respClass.commands := by
  unfold CmdEvent.Shape at h
  split at h <;> rename_i heq <;> rw [heq]
  · rcases h.2 with ⟨hop, -⟩ | ⟨hop, -⟩
    · simp only [isFullRead, Bool.or_eq_true, decide_eq_true_eq] at hop
      rcases hop with hop | hop <;> rw [hop] <;> decide
    · simp only [isPartialRead, Bool.or_eq_true, decide_eq_true_eq] at hop
      rcases hop with hop | hop <;> rw [hop] <;> decide
  · rcases h.2 with ⟨hop, -⟩ | ⟨hop, -⟩
    · simp only [isFullWrite, Bool.or_eq_true, decide_eq_true_eq] at hop
      rcases hop with hop | hop <;> rw [hop] <;> decide
    · rcases hop with hop | hop <;> rw [hop] <;> decide
  · rcases h.2 with hop | hop <;> rw [hop] <;> decide
  · rcases h with ⟨hop, -⟩ | ⟨hop, -⟩ <;> rw [hop] <;> decide
  · have hop := h.2
    simp only [isAmoRw, Bool.or_eq_true, decide_eq_true_eq] at hop
    rcases hop with hop | hop <;> rw [hop] <;> decide
  · have hop := h.2
    simp only [isAmoW, Bool.or_eq_true, decide_eq_true_eq] at hop
    rcases hop with hop | hop <;> rw [hop] <;> decide
  · rcases h with hop | hop <;> rw [hop] <;> decide
  · rw [h]
    decide
  · rcases h with hop | hop <;> rw [hop] <;> decide
  · exact absurd heq htype
  · exact h.elim
  · exact h.elim
  · exact h.elim

theorem Rejects.mem_opcodes {cmd : AfuTlxCmd} {respOpcode : UInt8} (hreject : Rejects cmd respOpcode)
    {c : RespClass} (hsound : cmd.Sound) (h : cmd.opcode ∈ c.commands) :
    respOpcode ∈ c.opcodes ∧ respOpcode ≠ tlxRspReadResp := by
  obtain ⟨hrdn, hlength⟩ := hsound
  obtain ⟨rfl, hint⟩ := hreject
  cases c <;> simp only [RespClass.commands, List.mem_cons, List.not_mem_nil, or_false] at h
  · have hfailed : rejectOpcode cmd = tlxRspReadFailed := by
      rcases h with h | h | h | h | h | h | h | h
      · exact (rejects_of_read (by rw [h]; decide)).opcode.symm
      · exact (rejects_of_read (by rw [h]; decide)).opcode.symm
      · exact (rejects_of_read (by rw [h]; decide)).opcode.symm
      · exact (rejects_of_read (by rw [h]; decide)).opcode.symm
      · rw [← (rejects_of_amo (.inl ⟨rfl, .inl h⟩)).opcode, if_pos (.inr ⟨h, hlength h⟩)]
      · exact absurd h hrdn
      · rw [← (rejects_of_amo (.inr (.inl ⟨rfl, by rw [h]; decide⟩))).opcode,
          if_pos (.inl (by rw [h]; decide))]
      · rw [← (rejects_of_amo (.inr (.inl ⟨rfl, by rw [h]; decide⟩))).opcode,
          if_pos (.inl (by rw [h]; decide))]
    rw [hfailed]
    decide
  · have hfailed : rejectOpcode cmd = tlxRspWriteFailed := by
      rcases h with h | h | h | h | h | h | h | h <;> simp only [rejectOpcode, h] <;> rfl
    rw [hfailed]
    decide
  · rcases h with h | h <;> rw [h] at hint <;> exact Bool.noConfusion hint
  · rw [h] at hint
    exact Bool.noConfusion hint
  · have htouch : rejectOpcode cmd = tlxRspTouchResp := by
      rcases h with h | h <;> simp only [rejectOpcode, h] <;> rfl
    rw [htouch]
    decide

/-! ## The opcode of an event -/

/-- The opcode fits the class, and is that of a good read as long as the event has not failed. -/
structure CmdEvent.Fits (e : CmdEvent) (c : RespClass) : Prop where
  opcode : e.respOpcode ∈ c.opcodes
  good : c = .reads → (e.respOpcode = tlxRspReadResp ↔ e.type ≠ .failed)

section Fits

variable {cmd : AfuTlxCmd} {c : RespClass} {e₀ e e' : CmdEvent} {M : Limits} {cl : ℕ} {ns ms : List Note}

theorem CmdEvent.Fits.congr (h : e.Fits c) (hop : e'.respOpcode = e.respOpcode)
    (htype : e'.type = e.type) : e'.Fits c := by
  constructor
  · rw [hop]
    exact h.opcode
  · rw [hop, htype]
    exact h.good

theorem Issued.fits (h : Issued cmd e) (hsound : cmd.Sound) (hc : cmd.opcode ∈ c.commands) :
    e.Fits c := by
  by_cases htype : e.type = .failed
  · obtain ⟨hmem, hne⟩ := (h.answers.rejected htype).mem_opcodes hsound hc
    exact ⟨hmem, fun _ => ⟨fun heq => absurd heq hne, fun hne' => absurd htype hne'⟩⟩
  · obtain rfl : c = e.type.respClass :=
      RespClass.eq_of_mem hc (h.command ▸ h.shape.mem_commands htype)
    have hshape := h.shape
    have hop : e.respOpcode ∈ e.type.respClass.opcodes ∧
        (e.type.respClass = .reads → e.respOpcode = tlxRspReadResp) := by
      cases heq : e.type with
      | read => simp only [CmdEvent.Shape, heq] at hshape; rw [hshape.1]; decide
      | write => simp only [CmdEvent.Shape, heq] at hshape; rw [hshape.1]; decide
      | wrBe => simp only [CmdEvent.Shape, heq] at hshape; rw [hshape.1]; decide
      | amoRd =>
        simp only [CmdEvent.Shape, heq] at hshape
        rcases hshape with ⟨-, hop⟩ | ⟨hrdn, -⟩
        · rw [hop]; decide
        · exact absurd (h.command.symm.trans hrdn) hsound.1
      | amoRw => simp only [CmdEvent.Shape, heq] at hshape; rw [hshape.1]; decide
      | amoWr => simp only [CmdEvent.Shape, heq] at hshape; rw [hshape.1]; decide
      | interrupt => rw [h.answers.interrupt heq]; decide
      | wakeHostThrd => rw [h.answers.wake heq]; decide
      | touch => rw [h.answers.touch heq]; decide
      | failed => exact absurd heq htype
      | xlatRdTouch => simp only [CmdEvent.Shape, heq] at hshape
      | xlatWrTouch => simp only [CmdEvent.Shape, heq] at hshape
      | other => simp only [CmdEvent.Shape, heq] at hshape
    exact ⟨hop.1, fun hreads => ⟨fun _ => htype, fun _ => hop.2 hreads⟩⟩

/-- An injected failure answers with the failure opcode of the class. -/
theorem CmdEvent.Fits.fail (h : e.Fits c) (htype : e.type.respClass = c) (state : MemState)
    (code : UInt8) : (e.fail state e.failOpcode code).Fits c := by
  subst htype
  have hop : e.failOpcode ∈ e.type.respClass.opcodes ∧
      (e.type.respClass = .reads → e.failOpcode ≠ tlxRspReadResp) := by
    have hmem := h.opcode
    cases heq : e.type <;> simp only [heq] at hmem <;> simp only [CmdEvent.failOpcode, heq] <;>
      first | decide | exact ⟨hmem, by simp [CmdType.respClass]⟩
  exact ⟨hop.1, fun hreads => ⟨fun heq => absurd heq (hop.2 hreads), fun hf => absurd rfl hf⟩⟩

theorem CmdEvent.Fits.rewrite (h : e.Fits c) (htype : e.type ≠ .failed → e.type.respClass = c)
    (hr : Rewrite e e') : e'.Fits c := by
  have hready : e.Ready → e.type ≠ .failed := by
    intro hready hf
    have hmem := hready.isMemory
    simp [hf, CmdType.isMemory] at hmem
  have hraised : e.Raised → e.type ≠ .failed := by
    intro hraised hf
    have hint := hraised.1
    simp [hf, CmdType.isInterrupt] at hint
  cases hr with
  | inject code hor hcode => exact h.fail (htype (hor.elim hready hraised)) _ _
  | xlatePending hrd => exact h.fail (htype (hready hrd)) _ _
  | intPending hrs _ => exact h.fail (htype (hraised hrs)) _ _
  | readDone htype hstate => exact h.congr rfl rfl
  | beat bus htype hstate =>
    unfold CmdEvent.nextBeat
    split_ifs <;> exact h.congr rfl rfl
  | redraw resp hstate => exact h.congr rfl rfl

theorem CmdEvent.Fits.agrees (h : e.Fits c) (hc : e.command ∈ c.commands) : e.response.Agrees c := by
  refine ⟨h.opcode, ?_⟩
  by_cases hreads : c = .reads
  · have hdata := (respondsWithData_iff hc).mpr hreads
    have hgood := h.good hreads
    simp only [CmdEvent.response, hdata, and_true]
    by_cases htype : e.type = .failed
    · simpa [htype] using hgood
    · simpa [htype] using hgood
  · have hdata : ¬ respondsWithData e.command = true := fun hd => hreads ((respondsWithData_iff hc).mp hd)
    have hop : e.respOpcode ≠ tlxRspReadResp := fun heq => hreads (readResp_mem_opcodes (heq ▸ h.opcode))
    simp [CmdEvent.response, hdata, hop]

/-! ## Sessions -/

/-- An event with its command and its notes, as long as nothing that breaks the agreement has happened. -/
structure InClass (cmd : AfuTlxCmd) (e₀ e : CmdEvent) (ns : List Note) : Prop where
  issued : Issued cmd e₀
  descends : Descends e₀ e
  fits : cmd.Sound → AnsweredWell cmd ns → ∀ c : RespClass, cmd.opcode ∈ c.commands → e.Fits c
  agrees : cmd.Sound → AnsweredWell cmd ns → Agreement cmd ns

theorem InClass.command (h : InClass cmd e₀ e ns) : e.command = cmd.opcode :=
  h.descends.command.trans h.issued.command

theorem InClass.respClass (h : InClass cmd e₀ e ns) (hc : cmd.opcode ∈ c.commands)
    (hne : e.type ≠ .failed) : e.type.respClass = c := by
  have htype := (h.descends.kept hne).1
  rw [htype]
  have hmem := h.issued.shape.mem_commands (htype ▸ hne)
  rw [h.issued.command] at hmem
  exact RespClass.eq_of_mem hmem hc

/-- Notes that are no response leave the agreement alone. -/
theorem InClass.silent (h : InClass cmd e₀ e ns) (hd : Descends e₀ e')
    (hsilent : responses ms = [])
    (hfits : ∀ c : RespClass, cmd.opcode ∈ c.commands → AnsweredWell cmd (ns ++ ms) → e.Fits c →
      e'.Fits c) : InClass cmd e₀ e' (ns ++ ms) := by
  refine ⟨h.issued, hd, fun hsound hwell c hc => ?_, fun hsound hwell => ?_⟩
  · exact hfits c hc hwell (h.fits hsound hwell.of_append c hc)
  · intro c hc r hr
    rw [responses_append, hsilent, List.append_nil] at hr
    exact h.agrees hsound hwell.of_append c hc r hr

theorem InClass.agreement_response (h : InClass cmd e₀ e ns) (hsound : cmd.Sound)
    (hwell : AnsweredWell cmd (ns ++ [.response (e.prepare cl).response])) :
    Agreement cmd (ns ++ [.response (e.prepare cl).response]) := by
  intro c hc r hr
  rw [responses_append, List.mem_append] at hr
  rcases hr with hr | hr
  · exact h.agrees hsound hwell.of_append c hc r hr
  · obtain rfl : r = (e.prepare cl).response := by simpa [responses, Note.toResponse] using hr
    have hfits := h.fits hsound hwell.of_append c hc
    have hcommand : (e.prepare cl).command ∈ c.commands := by simpa [h.command] using hc
    exact (hfits.congr (by simp) (by simp)).agrees hcommand

theorem InClass.move (h : InClass cmd e₀ e ns) (hm : Move M cl e ms e') : InClass cmd e₀ e' (ns ++ ms) := by
  have hd := h.descends.move hm
  cases hm with
  | stay => exact h.silent hd rfl (fun _ _ _ hfits => hfits)
  | rewrite _ hr => exact h.silent hd rfl (fun c hc _ hfits => hfits.rewrite (h.respClass hc) hr)
  | ask hready => exact h.silent hd rfl (fun _ _ _ hfits => hfits.congr rfl rfl)
  | raise hraised => exact h.silent hd rfl (fun _ _ _ hfits => hfits.congr rfl rfl)
  | pending hstate =>
    refine ⟨h.issued, hd, fun hsound hwell c hc => ?_, fun hsound => h.agreement_response hsound⟩
    exact (h.fits hsound hwell.of_append c hc).congr (by simp) (by simp)
  | part hstate hmore =>
    refine ⟨h.issued, hd, fun hsound hwell c hc => ?_, fun hsound => h.agreement_response hsound⟩
    exact (h.fits hsound hwell.of_append c hc).congr (by simp) (by simp)
  | refuse hresp =>
    refine h.silent hd rfl (fun _ _ _ hfits => ?_)
    rw [CmdEvent.backUp_eq]
    exact hfits.congr (by simp) (by simp)
  | answer ans _ hawait hans hlimit =>
    refine h.silent hd rfl (fun c hc hwell hfits => ?_)
    cases hans with
    | success data size hsize => exact hfits.congr rfl rfl
    | failure ans size hans =>
      refine ⟨hfits.opcode, ?_⟩
      rintro rfl
      exact absurd (hwell hc ans (by simp)) hans
  | terminate hstate hlimit => exact h.silent hd rfl (fun _ _ _ hfits => hfits.congr rfl rfl)

theorem InClass.last (h : InClass cmd e₀ e ns) (hl : Last cl e ms) (hsound : cmd.Sound)
    (hwell : AnsweredWell cmd (ns ++ ms)) : Agreement cmd (ns ++ ms) := by
  cases hl with
  | finish hstate hlast => exact h.agreement_response hsound hwell
  | post hstate resp =>
    have hsilent : InClass cmd e₀ e (ns ++ [.posted (postedOpcode e.command) resp]) :=
      h.silent h.descends rfl (fun _ _ _ hfits => hfits)
    exact hsilent.agrees hsound hwell

end Fits

/-! ## Whole runs -/

/-- In every run, whatever is injected and whoever departs: the responses to a command agree with its
class when `_add_amo` gets its opcode right and its client fails no read. -/
theorem responseClass_agrees (parms : Parms) (maxClients : ℕ) (afuEvent : AfuEvent) (as : List Action)
    (t : UInt16) :
    ∃ o, Sessions (fun x ns => x.1.Sound → AnsweredWell x.1 ns → Agreement x.1 ns)
        (cmdHistory t ((Ocl.init parms maxClients afuEvent).run as).trace) o ∧
      ∀ y ∈ o, y.1.1.Sound → AnsweredWell y.1.1 y.2 → Agreement y.1.1 y.2 := by
  have htracked := run_issued (fun cmd _ ns => cmd.Sound → AnsweredWell cmd ns → Agreement cmd ns) InClass
    (fun cmd e h => ⟨h, h.descends, fun hsound _ c hc => h.fits hsound hc, fun _ _ _ _ => by
      simp [responses]⟩)
    (fun cmd e₀ e ns ms e' h hm => h.move hm) (fun cmd e₀ e ns ms h hl => h.last hl)
    (along_within_any (Ocl.init parms maxClients afuEvent) as) t
  exact htracked.sessions (fun x e ns h => h.agrees)

/-- An `AMO_RD_N` of eight bytes. -/
def sampleAmoRdN : AfuTlxCmd :=
  { tlxEventReset.afuCmd with opcode := afuCmdAmoRdN, afutag := 5, pl := 3 }

/-- The frame in which the AFU signals a command with its data. -/
def AfuTlxCmd.frameWithData (cmd : AfuTlxCmd) : Socket :=
  Socket.whole (tlxSignalTlxModel { tlxEventReset with
    clock := 1, afuCmd := { cmd with valid := 1 }
    afuCdata := { tlxEventReset.afuCdata with valid := 1 } }).2.2

def amoRdNRun : List Action :=
  .associate 0 :: { Turn.quiet with socket := sampleAmoRdN.frameWithData }.actions 1 ++
    Turn.quiet.actions 1 ++ { Turn.quiet with input := fun _ => .memSuccess (List.replicate 8 7)
      }.actions 1 ++ Turn.quiet.actions 1

/-- The data of an `AMO_RD_N` comes with `WRITE_RESP`. -/
theorem amoRdNRun_disagrees :
    ¬ ∃ o, Sessions (fun x ns => Agreement x.1 ns)
        (cmdHistory 5 ((Ocl.init (.quiet 64 (by simp)) 1 sampleAfu).run amoRdNRun).trace) o ∧
      ∀ y ∈ o, Agreement y.1.1 y.2 := by
  rintro ⟨o, hsessions, -⟩
  obtain ⟨x, ns, hscan, hagree⟩ := hsessions.last_done (by decide +kernel)
  have hadded : (scan (cmdHistory 5 ((Ocl.init (.quiet 64 (by simp)) 1 sampleAfu).run
      amoRdNRun).trace).dropLast).map (Option.map (fun y => y.1.1.opcode)) =
      some (some afuCmdAmoRdN) := by decide +kernel
  have hsent : (scan (cmdHistory 5 ((Ocl.init (.quiet 64 (by simp)) 1 sampleAfu).run
      amoRdNRun).trace).dropLast).map (Option.map (fun y => (responses y.2).map
        (fun r => (r.opcode, r.data.isSome)))) = some (some [(tlxRspWriteResp, true)]) := by
    decide +kernel
  rw [hscan] at hadded hsent
  have hop : x.1.opcode = afuCmdAmoRdN := by simpa using hadded
  have hrs : (responses ns).map (fun r => (r.opcode, r.data.isSome)) = [(tlxRspWriteResp, true)] := by
    simpa using hsent
  obtain ⟨r, hr⟩ : ∃ r, responses ns = [r] := List.length_eq_one_iff.mp (by
    simpa using congrArg List.length hrs)
  rw [hr, List.map_singleton, List.singleton_inj, Prod.mk.injEq] at hrs
  have hagrees := hagree .reads (by rw [hop]; decide) r (by simp [hr])
  have hmem := hagrees.opcode
  rw [hrs.1] at hmem
  revert hmem
  decide

end Ocse
