import Ocse.BeatAssembly

/-!
# Write data over the runs of the loop

Between two frames the beat of the first one has found its place: `handle_cmd` starts a burst with it, or
`handle_afu_tlx_cmd_data_read` copies it. With this order of the loop the step lemma covers every run.
-/

namespace Ocse

/-- No beat waits for its place. -/
def BeatRun.Clear (r : BeatRun) : Prop := r.engine.halted = true ∨ r.ledger.beat = none

/-- A frame is received when no beat waits. -/
def FrameInTime (r : BeatRun) (a : Action) : Prop :=
  r.engine.halted = false → ∀ socket, a = .getAfuEvents socket → r.ledger.beat = none

def Frameless (as : List Action) : Prop := ∀ a ∈ as, ∀ socket, a ≠ .getAfuEvents socket

section Order

variable {r : BeatRun} {as : List Action}

theorem run_engine (r : BeatRun) (as : List Action) : (as.foldl BeatRun.step r).engine = r.engine.run as := by
  induction as generalizing r with
  | nil => rfl
  | cons a as ih => exact ih (r.step a)

theorem halted_step {a : Action} (h : r.engine.halted = true) : r.step a = r := by
  have hengine : r.engine.step a = r.engine := by
    unfold Ocl.step
    rw [if_pos h]
  have hledger : r.ledger.step r.engine a = r.ledger := by
    unfold BeatLedger.step
    rw [if_pos h]
  cases r
  exact congrArg₂ BeatRun.mk hengine hledger

theorem BeatRun.Clear.step {a : Action} (h : r.Clear) (ha : ∀ socket, a ≠ .getAfuEvents socket) : (r.step a).Clear := by
  rcases h with hhalted | hnone
  · rw [halted_step hhalted]
    exact .inl hhalted
  · right
    change (r.ledger.step r.engine a).beat = none
    unfold BeatLedger.step
    split
    · exact hnone
    · rw [hnone]
      cases a with
      | getAfuEvents socket => exact absurd rfl (ha socket)
      | _ => exact hnone

theorem Frameless.clear (has : Frameless as) (h : r.Clear) : (as.foldl BeatRun.step r).Clear := by
  induction as generalizing r with
  | nil => exact h
  | cons a as ih =>
      exact ih (fun x hx => has x (List.mem_cons_of_mem _ hx)) (h.step (has a List.mem_cons_self))

theorem Frameless.inTime (has : Frameless as) (r : BeatRun) : Along BeatRun.step FrameInTime r as := by
  induction as generalizing r with
  | nil => trivial
  | cons a as ih =>
      refine ⟨fun _ socket ha => absurd ha (has a List.mem_cons_self socket), ?_⟩
      exact ih (fun x hx => has x (List.mem_cons_of_mem _ hx)) _

theorem frameless_mmio (signals : List MmioSignals) : Frameless (signals.map .mmio) := by
  intro a ha socket
  obtain ⟨m, -, rfl⟩ := List.mem_map.mp ha
  intro hframe
  cases hframe

theorem Frameless.append {bs : List Action} (has : Frameless as) (hbs : Frameless bs) : Frameless (as ++ bs) := by
  intro a ha
  rcases List.mem_append.mp ha with ha | ha
  · exact has a ha
  · exact hbs a ha

/-- A part of a run that receives its frames in time and leaves no beat behind. -/
def InOrder (r : BeatRun) (as : List Action) : Prop :=
  Along BeatRun.step FrameInTime r as ∧ (as.foldl BeatRun.step r).Clear

theorem Frameless.inOrder (has : Frameless as) (h : r.Clear) : InOrder r as := ⟨has.inTime r, has.clear h⟩

theorem InOrder.append {bs : List Action} (h : InOrder r as)
    (h' : (as.foldl BeatRun.step r).Clear → InOrder (as.foldl BeatRun.step r) bs) : InOrder r (as ++ bs) := by
  obtain ⟨hinTime, hclear⟩ := h' h.2
  refine ⟨along_append.mpr ⟨h.1, hinTime⟩, ?_⟩
  rw [List.foldl_append]
  exact hclear

theorem next_beat {g : BeatLedger} (h : g.gathering = true) (beat : List UInt8) : (g.next beat).beat = none := by
  unfold BeatLedger.gathering at h
  unfold BeatLedger.next
  cases hbursts : g.bursts with
  | nil =>
      rw [hbursts] at h
      cases h
  | cons b bs => rfl

/-- `handle_cmd` and `handle_afu_tlx_cmd_data_read` together find a place for any beat of the stream. -/
theorem clear_cmd (r : BeatRun) (d : Draws) (hstream : r.InStream (.cmd d)) :
    ((r.step (.cmd d)).step .cmdDataRead).Clear := by
  have hread : (r.step (.cmd d)).Clear → ((r.step (.cmd d)).step .cmdDataRead).Clear := fun h => h.step nofun
  cases hhalted : r.engine.halted with
  | true =>
      rw [halted_step hhalted, halted_step hhalted]
      exact .inl hhalted
  | false =>
      cases hbeat : r.ledger.beat with
      | none =>
          have hclear : r.Clear := .inr hbeat
          exact hread (hclear.step nofun)
      | some beat =>
          cases hgathering : r.ledger.gathering with
          | false =>
              have hstarts := hstream (by rw [hbeat]; rfl) hgathering
              apply hread
              right
              simp [BeatRun.step, BeatLedger.step, hhalted, hbeat, hgathering, BeatLedger.start, hstarts]
          | true =>
              have hledger : (r.step (.cmd d)).ledger = r.ledger := by
                simp [BeatRun.step, BeatLedger.step, hhalted, hbeat, hgathering]
              cases hnext : (r.step (.cmd d)).engine.halted with
              | true => exact hread (.inl hnext)
              | false =>
                  right
                  have htaken : ((r.step (.cmd d)).step .cmdDataRead).ledger = r.ledger.next beat := by
                    change (r.step (.cmd d)).ledger.step (r.step (.cmd d)).engine .cmdDataRead = _
                    rw [hledger]
                    simp [BeatLedger.step, hnext, hbeat, hgathering]
                  rw [htaken]
                  exact next_beat hgathering beat

/-- Inside `_handle_afu` a beat may wait until the command is handled. -/
theorem handleAfu_inOrder (t : Turn) (h : Along BeatRun.step BeatRun.InStream r t.handleAfu) :
    InOrder r t.handleAfu := by
  have hsplit : t.handleAfu = (t.mmioBefore.map .mmio ++
      [.response t.rand, .bufferWrite t.bufferWrite, .pendingSent t.pendingSent]) ++ ([.cmd t.cmd, .cmdDataRead] ++
      [.writeCmd t.writeCmd, .touch t.touch, .interrupt t.interrupt, .writeBeOrAmo t.writeBeOrAmo]) := by
    simp [Turn.handleAfu]
  have htail : Frameless [.writeCmd t.writeCmd, .touch t.touch, .interrupt t.interrupt, .writeBeOrAmo t.writeBeOrAmo] := by
    simp [Frameless]
  have hall : Frameless t.handleAfu := (frameless_mmio t.mmioBefore).append (by simp [Frameless])
  refine ⟨hall.inTime r, ?_⟩
  rw [hsplit] at h ⊢
  obtain ⟨-, hrest⟩ := along_append.mp h
  obtain ⟨hcmd, -⟩ := along_append.mp hrest
  rw [List.foldl_append, List.foldl_append]
  exact htail.clear (clear_cmd _ t.cmd hcmd.1)

/-- A frame that is not whole brings no beat. -/
theorem getAfuEvents_clear {socket : Socket} (h : ¬0 < (tlxGetAfuEvents r.engine.afuEvent socket).1) (hclear : r.Clear) :
    (r.step (.getAfuEvents socket)).Clear := by
  rcases hclear with hhalted | hnone
  · rw [halted_step hhalted]
    exact .inl hhalted
  · right
    cases hhalted : r.engine.halted with
    | true => simp [BeatRun.step, BeatLedger.step, hhalted, hnone]
    | false => simp [BeatRun.step, BeatLedger.step, hhalted, Ocl.frameBeat, h]

theorem frame_inOrder (t : Turn) (hclear : r.Clear) (h : Along BeatRun.step BeatRun.InStream r (t.frame r.engine)) :
    InOrder r (t.frame r.engine) := by
  have hsignal : (r.step .signalAfu).Clear := hclear.step nofun
  have hget : FrameInTime (r.step .signalAfu) (.getAfuEvents t.socket) := by
    intro hrun socket ha
    rcases hsignal with hhalted | hnone
    · rw [hrun] at hhalted
      cases hhalted
    · exact hnone
  have hinTime : Along BeatRun.step FrameInTime r [.signalAfu, .getAfuEvents t.socket] :=
    ⟨fun _ _ ha => (nomatch ha), hget, trivial⟩
  unfold Turn.frame at h ⊢
  split_ifs at h ⊢ with hevents
  · obtain ⟨-, hafu⟩ := along_append.mp h
    obtain ⟨hinTime', hclear'⟩ := handleAfu_inOrder t hafu
    refine ⟨along_append.mpr ⟨hinTime, hinTime'⟩, ?_⟩
    rw [List.foldl_append]
    exact hclear'
  · rw [List.append_nil]
    exact ⟨hinTime, getAfuEvents_clear hevents hsignal⟩

theorem frameless_idle (p : Prop) [Decidable p] (cycles : ℕ) : Frameless (if p then [.idle cycles] else []) := by
  split_ifs
  · simp [Frameless]
  · simp [Frameless]

theorem clocked_inOrder (t : Turn) (hclear : r.Clear) (h : Along BeatRun.step BeatRun.InStream r (t.clocked r.engine)) :
    InOrder r (t.clocked r.engine) := by
  unfold Turn.clocked at h ⊢
  dsimp only at h ⊢
  by_cases hcycles : r.engine.idleCycles ≠ 0
  · rw [if_pos hcycles] at h ⊢
    obtain ⟨hdriven, -⟩ := along_append.mp h
    obtain ⟨hframe, -⟩ := along_append.mp hdriven
    have hmmio := (frame_inOrder t hclear hframe).append (frameless_mmio t.mmioAfter).inOrder
    exact hmmio.append (frameless_idle _ _).inOrder
  · rw [if_neg hcycles]
    exact ⟨trivial, hclear⟩

theorem frameless_clients (t : Turn) (maxClients : ℕ) : Frameless (t.clients maxClients) := by
  intro a ha
  obtain ⟨i, -, ha⟩ := List.mem_flatMap.mp ha
  revert ha
  have hslot : Frameless [.clear i, .client i (t.input i), .settle i] := by simp [Frameless]
  exact hslot a

theorem sequence_inOrder (t : Turn) (hclear : r.Clear) (h : Along BeatRun.step BeatRun.InStream r (t.sequence r.engine)) :
    InOrder r (t.sequence r.engine) := by
  have hrefresh : InOrder r r.engine.refresh := (frameless_idle _ tlxIdleCycles).inOrder hclear
  unfold Turn.sequence at h ⊢
  dsimp only at h ⊢
  rw [← run_engine] at h ⊢
  obtain ⟨hfirst, -⟩ := along_append.mp h
  refine (hrefresh.append (fun hclear' => ?_)).append (frameless_clients t _).inOrder
  exact clocked_inOrder t hclear' (along_append.mp hfirst).2

/-- The run lemma for the order of the loop. -/
theorem loopActions_inTime (evs : List LoopEvent) (hclear : r.Clear)
    (h : Along BeatRun.step BeatRun.InStream r (loopActions r.engine evs)) :
    Along BeatRun.step FrameInTime r (loopActions r.engine evs) := by
  induction evs generalizing r with
  | nil => trivial
  | cons ev evs ih =>
      have hev : Along BeatRun.step BeatRun.InStream r (ev.actions r.engine) → InOrder r (ev.actions r.engine) := by
        intro hstream
        cases ev with
        | turn t => exact sequence_inOrder t hclear hstream
        | associate bdf => exact Frameless.inOrder (by simp [Frameless, LoopEvent.actions]) hclear
      unfold loopActions at h ⊢
      rw [← run_engine] at h ⊢
      obtain ⟨hfirst, hrest⟩ := along_append.mp h
      obtain ⟨hinTime, hclear'⟩ := hev hfirst
      exact along_append.mpr ⟨hinTime, ih hclear' hrest⟩

end Order

/-! ## Every run -/

/-- The invariant of a run; a program that has exited is not spoken of. -/
structure BeatSound (r : BeatRun) : Prop where
  wf : r.engine.Wf
  beats : r.engine.halted = false → BeatInv r

theorem init_beatSound (parms : Parms) (maxClients : ℕ) {afuEvent : AfuEvent} (h : afuEvent.afuCdata.valid = 0) :
    BeatSound (.init (.init parms maxClients afuEvent)) := by
  refine ⟨Ocl.init_wf parms maxClients afuEvent, fun _ => ⟨?_, nofun, ?_⟩⟩
  · have hflag : ¬afuEvent.afuCdata.valid ≠ 0 := by simp [h]
    exact iff_of_false hflag nofun
  · exact ⟨nofun, List.nodup_nil, nofun, nofun, nofun, nofun, nofun⟩

/-- What an action shows of the beats: a frame comes when the last beat has its place, and the bursts are assembled. -/
def ShowsBeats (r : BeatRun) (a : Action) : Prop :=
  FrameInTime r a ∧
    ((r.step a).engine.halted = false → Assembled (r.step a).ledger (r.step a).engine ∧ Receives r a)

theorem step_beatSound {r : BeatRun} (h : BeatSound r) {a : Action} (hstream : r.InStream a) (hspares : r.Spares a)
    (hinTime : FrameInTime r a) : BeatSound (r.step a) ∧ ShowsBeats r a := by
  have hwf : (r.step a).engine.Wf := step_wf h.wf a
  have hstep : (r.step a).engine.halted = false → BeatInv (r.step a) ∧ Receives r a := by
    intro hnext
    cases hrun : r.engine.halted with
    | true =>
        rw [halted_step hrun, hrun] at hnext
        cases hnext
    | false => exact step_beats h.wf (h.beats hrun) hrun hstream hspares (hinTime hrun) hnext
  refine ⟨⟨hwf, fun hnext => (hstep hnext).1⟩, hinTime, fun hnext => ?_⟩
  exact ⟨(hstep hnext).1.assembled hwf, (hstep hnext).2⟩

/-- In every run of the loop on a stream of frames in which nothing takes a later beat away, every beat is in its own
event's data, each once and in order, one write gathers at a time, and a write is received with its last beat. -/
theorem beats_assembled (parms : Parms) (maxClients : ℕ) (afuEvent : AfuEvent) (hdown : afuEvent.afuCdata.valid = 0)
    (evs : List LoopEvent)
    (hstream : Along BeatRun.step BeatRun.InStream (.init (.init parms maxClients afuEvent))
      (loopActions (.init parms maxClients afuEvent) evs))
    (hspares : Along BeatRun.step BeatRun.Spares (.init (.init parms maxClients afuEvent))
      (loopActions (.init parms maxClients afuEvent) evs)) :
    Along BeatRun.step ShowsBeats (.init (.init parms maxClients afuEvent))
      (loopActions (.init parms maxClients afuEvent) evs) := by
  have hclear : (BeatRun.init (.init parms maxClients afuEvent)).Clear := .inr rfl
  have hinTime := loopActions_inTime evs hclear hstream
  apply ((hstream.and hspares).and hinTime).shows BeatSound _ (init_beatSound parms maxClients hdown)
  rintro r a hsound ⟨⟨hin, hspare⟩, htime⟩
  exact step_beatSound hsound hin hspare htime

instance (e : CmdEvent) : Decidable e.Gathers := inferInstanceAs (Decidable (_ ∧ _))

instance BeatRun.InStream.decidable (r : BeatRun) : ∀ a, Decidable (r.InStream a)
  | .cmd _ => inferInstanceAs (Decidable (_ → _ → _))
  | .idle _ | .signalAfu | .getAfuEvents _ | .mmio _ | .response _ | .bufferWrite _ | .pendingSent _ | .cmdDataRead
  | .writeCmd _ | .touch _ | .interrupt _ | .writeBeOrAmo _ | .client _ _ | .settle _ | .clear _ | .associate _ =>
      isTrue trivial

instance BeatRun.Spares.decidable (r : BeatRun) : ∀ a, Decidable (r.Spares a)
  | .cmd _ => inferInstanceAs (Decidable (_ → _ → _ → _))
  | .settle i => inferInstanceAs (Decidable (∀ c ∈ r.engine.client i, c.state = .none →
      ∀ e ∈ r.engine.list, e.Gathers → e.context ≠ c.context))
  | .idle _ | .signalAfu | .getAfuEvents _ | .mmio _ | .response _ | .bufferWrite _ | .pendingSent _ | .cmdDataRead
  | .writeCmd _ | .touch _ | .interrupt _ | .writeBeOrAmo _ | .client _ _ | .clear _ | .associate _ => isTrue trivial

/-- The frame that brings 64 equal bytes beside a command. -/
def beatFrame (afuCmd : AfuTlxCmd) (byte : UInt8) : Socket :=
  Socket.whole (tlxSignalTlxModel { tlxEventReset with
    clock := 1, afuCmd, afuCdata := { tlxEventReset.afuCdata with valid := 1, bus := Buffer.const byte } }).2.2

/-- A write of 128 bytes at address 0 under acTag 0. -/
def sampleBurst : AfuTlxCmd := { tlxEventReset.afuCmd with valid := 1, opcode := afuCmdDmaW, afutag := 5, dl := 2 }

/-- The write with its first beat, and its second beat beside another command. -/
def burstRun (beside : AfuTlxCmd) : List LoopEvent :=
  [.associate 0, .turn { Turn.quiet with socket := beatFrame sampleBurst 1 },
    .turn { Turn.quiet with socket := beatFrame beside 2 }]

def burstInit : Ocl := .init (.quiet 64 (by simp)) 1 sampleAfu

/-- A read beside the second beat. -/
theorem beats_assembled_read : Along BeatRun.step ShowsBeats (.init burstInit)
    (loopActions burstInit (burstRun { sampleRead with valid := 1, afutag := 6 })) :=
  beats_assembled _ 1 sampleAfu rfl _ (by decide +kernel) (by decide +kernel)

/-- A nop beside the second beat: the beat is gone, and the write waits for it forever. -/
theorem beats_lost_nop : ¬(Along BeatRun.step BeatRun.InStream (.init burstInit)
      (loopActions burstInit (burstRun { tlxEventReset.afuCmd with valid := 1 })) →
    Along BeatRun.step ShowsBeats (.init burstInit)
      (loopActions burstInit (burstRun { tlxEventReset.afuCmd with valid := 1 }))) := by
  intro h
  have hshown := h (by decide +kernel)
  have hend := hshown.final (P := fun r => r.engine.halted = false → Assembled r.ledger r.engine)
    (fun _ _ hshows hrun => (hshows.2 hrun).1) (by decide +kernel)
  have hgathers := (hend (by decide +kernel)).gathers
  revert hgathers
  decide +kernel

end Ocse
