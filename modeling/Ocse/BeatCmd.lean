import Ocse.BeatHandlers

/-!
# What a command does to the beat beside it

`afu_tlx_read_cmd_and_data` takes the data flag down with the command. `Parsed` says what becomes of the flag when
the data belongs to a burst in progress, or when there is none, and that the command adds nothing that gathers;
`Started` says what an accepted write makes of its first beat.
-/

namespace Ocse

/-- At most one event is added, which gathers nothing, and the data flag is put back if the beat is kept. -/
structure Parsed (s s' : Ocl) (kept : Bool) : Prop where
  halted : s'.halted = s.halted
  cdata : s'.afuEvent.afuCdata = if kept then { s.afuEvent.afuCdata with valid := 1 } else s.afuEvent.afuCdata
  added : (s'.list = s.list ∧ s'.nextId = s.nextId) ∨
    ∃ e l₁ l₂, s.list = l₁ ++ l₂ ∧ s'.list = l₁ ++ e :: l₂ ∧ e.id = s.nextId ∧ ¬e.Gathers ∧ s'.nextId = s.nextId + 1

/-- The event of a burst is added, with its first beat. -/
structure Started (s s' : Ocl) (cmd : AfuTlxCmd) (e : CmdEvent) : Prop where
  halted : s'.halted = s.halted
  cdata : s'.afuEvent.afuCdata = s.afuEvent.afuCdata
  nextId : s'.nextId = s.nextId + 1
  added : ∃ l₁ l₂, s.list = l₁ ++ l₂ ∧ s'.list = l₁ ++ e :: l₂
  id : e.id = s.nextId
  afutag : e.afutag = cmd.afutag
  type : e.type = .write
  size : e.size = dlToSize cmd.dl
  data : e.data = (Buffer.const 0).write 0 (s.afuEvent.afuCdata.bus.read 0 64)
  long : 64 < e.size → e.state = .buffer ∧ e.dpartialAt = 64
  short : e.size ≤ 64 → e.state = .received

section Add

variable {s : Ocl} {d : Draws} {cmd : AfuTlxCmd}

theorem incomingDataExpected_iff (list : List CmdEvent) :
    incomingDataExpected list = true ↔ ∃ e ∈ list, e.Gathers := by
  simp [incomingDataExpected, CmdEvent.Gathers]

/-- An event that gathers nothing is not expected data for. -/
theorem expected_insert (parms : Parms) (reorder : ℕ → ℕ) {e : CmdEvent} (hnot : ¬e.Gathers) (list : List CmdEvent) :
    incomingDataExpected (insertCmd parms reorder e list) = incomingDataExpected list := by
  obtain ⟨l₁, l₂, hlist, hinsert⟩ := insertCmd_split parms reorder list e
  rw [Bool.eq_iff_iff, incomingDataExpected_iff, incomingDataExpected_iff, hinsert, hlist]
  constructor
  · rintro ⟨x, hx, hg⟩
    rcases List.mem_append.mp hx with hx | hx
    · exact ⟨x, List.mem_append_left _ hx, hg⟩
    · rcases List.mem_cons.mp hx with rfl | hx
      · exact absurd hg hnot
      · exact ⟨x, List.mem_append_right _ hx, hg⟩
  · rintro ⟨x, hx, hg⟩
    rcases List.mem_append.mp hx with hx | hx
    · exact ⟨x, List.mem_append_left _ hx, hg⟩
    · exact ⟨x, List.mem_append_right _ (List.mem_cons_of_mem _ hx), hg⟩

theorem addCmd_parsed {n : NewCmd} (hstate : n.state ≠ .buffer) (c : Client)
    (hexp : n.dataIsValid = true → incomingDataExpected s.list = true) :
    Parsed s (addCmd s d cmd n c) n.dataIsValid := by
  have hnot : ¬(n.event s.nextId).Gathers := not_gathers_of_state hstate
  obtain ⟨l₁, l₂, hlist, hinsert⟩ := insertCmd_split s.parms d.reorder s.list (n.event s.nextId)
  unfold addCmd
  dsimp only
  rw [expected_insert s.parms d.reorder hnot]
  cases hdata : n.dataIsValid with
  | false => exact ⟨rfl, rfl, .inr ⟨_, l₁, l₂, hlist, hinsert, rfl, hnot, rfl⟩⟩
  | true =>
      rw [hexp hdata]
      exact ⟨rfl, rfl, .inr ⟨_, l₁, l₂, hlist, hinsert, rfl, hnot, rfl⟩⟩

theorem addFor_parsed {n : ℕ → NewCmd} {dataIsValid : Bool} (hstate : ∀ i, (n i).state ≠ .buffer)
    (hdata : ∀ i, (n i).dataIsValid = dataIsValid)
    (hexp : dataIsValid = true → incomingDataExpected s.list = true) :
    Parsed s (addFor s d cmd n) (s.knows cmd && dataIsValid) := by
  unfold addFor Ocl.knows
  cases hfind : findClientByActag s cmd.actag with
  | none => exact ⟨rfl, rfl, .inl ⟨rfl, rfl⟩⟩
  | some i =>
      obtain ⟨-, c, hc, -⟩ := findSlot_eq_some hfind
      dsimp only
      rw [hc, Option.isSome_some, Bool.true_and, ← hdata i]
      apply addCmd_parsed (hstate i) c
      rw [hdata i]
      exact hexp

theorem addFail_parsed (resp respOpcode : UInt8) : Parsed s (addFail s d cmd resp respOpcode) false := by
  rw [← Bool.and_false (s.knows cmd)]
  exact addFor_parsed (fun _ => nofun) (fun _ => rfl) nofun

theorem addAligned_parsed {size : ℕ} (failOpcode : UInt8) {ok : Ocl} {kept : Bool} (h : Parsed s ok kept) :
    Parsed s (addAligned s d cmd size failOpcode ok) (decide (aligned cmd.addr size = .aligned) && kept) := by
  unfold addAligned
  split
  · rename_i halign
    rw [halign]
    exact addFail_parsed _ _
  · rename_i halign
    rw [halign]
    exact addFail_parsed _ _
  · rename_i halign
    rw [halign]
    exact h

/-- What puts the flag back first and adds without data keeps the beat. -/
theorem keepData_parsed {s' : Ocl} {dataIsValid : Bool} (h : Parsed (s.keepData dataIsValid) s' false) :
    Parsed s s' dataIsValid := by
  cases dataIsValid with
  | false => exact h
  | true => exact ⟨h.halted, h.cdata, h.added⟩

theorem assignActag_parsed (bdf : UInt16) (pasid : UInt32) (actag : UInt16) :
    Parsed s (assignActag s bdf pasid actag) false := by
  unfold assignActag
  split
  · exact ⟨rfl, rfl, .inl ⟨rfl, rfl⟩⟩
  · exact ⟨rfl, rfl, .inl ⟨rfl, rfl⟩⟩

theorem addRead_parsed (size : ℕ) : Parsed s (addRead s d cmd size) false := by
  have h : Parsed s (addRead s d cmd size)
      (decide (aligned cmd.addr size = .aligned) && (s.knows cmd && false)) :=
    addAligned_parsed _ (addFor_parsed (fun _ => nofun) (fun _ => rfl) nofun)
  simpa using h

theorem addXlateTouch_parsed : Parsed s (addXlateTouch s d cmd) false := by
  have h : Parsed s (addXlateTouch s d cmd)
      (decide (aligned cmd.addr 64 = .aligned) && (s.knows cmd && false)) :=
    addAligned_parsed _ (addFor_parsed (fun _ => nofun) (fun _ => rfl) nofun)
  simpa using h

theorem addWrite_parsed (size : ℕ) {dataIsValid : Bool} (be : UInt64)
    (hexp : dataIsValid = true → incomingDataExpected s.list = true) :
    Parsed s (addWrite s d cmd size dataIsValid be)
      (decide (aligned cmd.addr size = .aligned) && (s.knows cmd && dataIsValid)) :=
  addAligned_parsed _ (addFor_parsed (fun _ => nofun) (fun _ => rfl) hexp)

theorem addInterrupt_parsed (size : ℕ) {dataIsValid : Bool}
    (hexp : dataIsValid = true → incomingDataExpected s.list = true) :
    Parsed s (addInterrupt s d cmd size dataIsValid) (s.knows cmd && dataIsValid) :=
  addFor_parsed (fun _ => nofun) (fun _ => rfl) hexp

theorem addAmo_parsed (type : CmdType) {dataIsValid : Bool}
    (hexp : dataIsValid = true → incomingDataExpected s.list = true) :
    Parsed s (addAmo s d cmd type dataIsValid) (amoAccepted cmd && (s.knows cmd && dataIsValid)) := by
  unfold addAmo amoAccepted
  cases hsize : amoSize cmd with
  | error failOpcode => exact addFail_parsed _ _
  | ok size =>
      by_cases hoffset : aligned cmd.addr size = .badAddrOffset
      · simp only [hoffset, if_true, ne_eq, not_true_eq_false, decide_false, Bool.false_and]
        exact addFail_parsed _ _
      · simp only [hoffset, if_false, ne_eq, not_false_eq_true, decide_true, Bool.true_and]
        exact addFor_parsed (fun _ => nofun) (fun _ => rfl) hexp

/-! Which of the kinds a command is. -/

/-- The kinds of command that bring the beat back only through `_add_cmd`. -/
structure NotKeeper (opcode : UInt8) : Prop where
  assign : opcode ≠ afuCmdAssignActag
  read : isReadCmd opcode = false
  touch : isTouchCmd opcode = false

instance (opcode : UInt8) : Decidable (NotKeeper opcode) :=
  decidable_of_iff (opcode ≠ afuCmdAssignActag ∧ isReadCmd opcode = false ∧ isTouchCmd opcode = false)
    ⟨fun h => ⟨h.1, h.2.1, h.2.2⟩, fun h => ⟨h.assign, h.read, h.touch⟩⟩

theorem keepsBeat_of_notKeeper (h : NotKeeper cmd.opcode) : s.keepsBeat cmd =
    (s.knows cmd && (isWriteCmd cmd.opcode && decide (aligned cmd.addr (writeSize cmd) = .aligned) ||
      isAmoCmd cmd.opcode && amoAccepted cmd || isInterruptCmd cmd.opcode)) := by
  simp [Ocl.keepsBeat, h.assign, h.read, h.touch]

theorem keepsBeat_write (h : isWriteCmd cmd.opcode = true) :
    s.keepsBeat cmd = (s.knows cmd && decide (aligned cmd.addr (writeSize cmd) = .aligned)) := by
  have hkind : NotKeeper cmd.opcode ∧ isAmoCmd cmd.opcode = false ∧ isInterruptCmd cmd.opcode = false := by
    simp only [isWriteCmd, isFullWrite, Bool.or_eq_true, decide_eq_true_eq] at h
    rcases h with ((((h | h) | h) | h) | h) | h <;> rw [h] <;> decide
  rw [keepsBeat_of_notKeeper hkind.1]
  simp [h, hkind.2.1, hkind.2.2]

theorem keepsBeat_amo (h : isAmoCmd cmd.opcode = true) : s.keepsBeat cmd = (s.knows cmd && amoAccepted cmd) := by
  have hkind : NotKeeper cmd.opcode ∧ isWriteCmd cmd.opcode = false ∧ isInterruptCmd cmd.opcode = false := by
    simp only [isAmoCmd, isAmoRw, isAmoW, Bool.or_eq_true, decide_eq_true_eq] at h
    rcases h with (((h | h) | h | h) | h) | h <;> rw [h] <;> decide
  rw [keepsBeat_of_notKeeper hkind.1]
  simp [h, hkind.2.1, hkind.2.2]

theorem keepsBeat_interrupt (h : isInterruptCmd cmd.opcode = true) : s.keepsBeat cmd = s.knows cmd := by
  have hkind : NotKeeper cmd.opcode := by
    simp only [isInterruptCmd, Bool.or_eq_true, decide_eq_true_eq] at h
    rcases h with (h | h) | h <;> rw [h] <;> decide
  rw [keepsBeat_of_notKeeper hkind]
  simp [h]

end Add

/-! ## `_parse_cmd` -/

section Parse

variable {s : Ocl} {d : Draws} {cmd : AfuTlxCmd} {dataIsValid : Bool}

theorem Parsed.cast {s' : Ocl} {kept kept' : Bool} (h : Parsed s s' kept) (heq : kept = kept') : Parsed s s' kept' :=
  heq ▸ h

theorem Parsed.same (s : Ocl) : Parsed s s false := ⟨rfl, rfl, .inl ⟨rfl, rfl⟩⟩

theorem and_rotate (a b c : Bool) : (a && (b && c)) = (b && a && c) := by
  cases a <;> cases b <;> rfl

theorem Parsed.ite {s₁ s₂ : Ocl} {kept : Bool} {p : Prop} [Decidable p] (h₁ : p → Parsed s s₁ kept)
    (h₂ : ¬p → Parsed s s₂ kept) : Parsed s (if p then s₁ else s₂) kept :=
  iteInduction (motive := fun s' => Parsed s s' kept) h₁ h₂

/-- The beat of a burst in progress stays on the bus just when the command keeps it. -/
theorem parseCmd_parsed (hexp : dataIsValid = true → incomingDataExpected s.list = true) :
    Parsed s (parseCmd s d cmd dataIsValid) (s.keepsBeat cmd && dataIsValid) := by
  refine .ite (fun h => ?_) (fun h₁ => .ite (fun h => ?_) (fun h₂ => .ite (fun h => ?_) (fun h₃ =>
    .ite (fun h => ?_) (fun h₄ => .ite (fun h => ?_) (fun h₅ => .ite (fun h => ?_) (fun h₆ =>
    .ite (fun h => ?_) (fun h₇ => .ite (fun h => ?_) (fun h₈ => .ite (fun h => ?_) (fun h₉ =>
    .ite (fun h => ?_) (fun h₁₀ => .ite (fun h => ?_) (fun h₁₁ => .ite (fun h => ?_) (fun h₁₂ =>
    .ite (fun h => ?_) (fun h₁₃ => ?_)))))))))))))
  · refine (keepData_parsed (assignActag_parsed _ _ _)).cast ?_
    simp [Ocl.keepsBeat, h]
  · refine (keepData_parsed (addRead_parsed _)).cast ?_
    simp [Ocl.keepsBeat, isReadCmd, isFullRead, h]
  · refine (keepData_parsed (addRead_parsed _)).cast ?_
    simp [Ocl.keepsBeat, isReadCmd, isPartialRead, h]
  · have hfull : isFullWrite cmd.opcode = true := by simpa [isFullWrite] using h
    refine (addWrite_parsed _ _ hexp).cast ?_
    rw [keepsBeat_write (by simp [isWriteCmd, hfull]), writeSize, if_pos hfull]
    exact and_rotate _ _ _
  · have hfull : isFullWrite cmd.opcode = false := by rcases h with h | h <;> rw [h] <;> decide
    refine (addWrite_parsed _ _ hexp).cast ?_
    rw [keepsBeat_write (by rcases h with h | h <;> simp [isWriteCmd, h]), writeSize, if_neg (by simp [hfull]), if_pos h]
    exact and_rotate _ _ _
  · have hother : isFullWrite cmd.opcode = false ∧ ¬(cmd.opcode = afuCmdDmaPrW ∨ cmd.opcode = afuCmdDmaPrWN) := by
      rcases h with h | h <;> rw [h] <;> decide
    refine (addWrite_parsed _ _ hexp).cast ?_
    rw [keepsBeat_write (by rcases h with h | h <;> simp [isWriteCmd, h]), writeSize, if_neg (by simp [hother.1]),
      if_neg hother.2]
    exact and_rotate _ _ _
  · refine (addAmo_parsed _ hexp).cast ?_
    rw [keepsBeat_amo (by rcases h with h | h <;> simp [isAmoCmd, h])]
    exact and_rotate _ _ _
  · refine (addAmo_parsed _ hexp).cast ?_
    rw [keepsBeat_amo (by rcases h with h | h <;> simp [isAmoCmd, isAmoRw, h])]
    exact and_rotate _ _ _
  · refine (addAmo_parsed _ hexp).cast ?_
    rw [keepsBeat_amo (by rcases h with h | h <;> simp [isAmoCmd, isAmoW, h])]
    exact and_rotate _ _ _
  · refine (addInterrupt_parsed _ hexp).cast ?_
    rw [keepsBeat_interrupt (by simp [isInterruptCmd, h])]
  · refine (addInterrupt_parsed _ hexp).cast ?_
    rw [keepsBeat_interrupt (by rcases h with h | h <;> simp [isInterruptCmd, h])]
  · refine Parsed.cast (.same s) ?_
    have hnop : s.keepsBeat cmd = false := by
      have hkind : isWriteCmd afuCmdNop = false ∧ isAmoCmd afuCmdNop = false ∧ isInterruptCmd afuCmdNop = false := by
        decide
      rw [keepsBeat_of_notKeeper (by rw [h]; decide), h]
      simp [hkind]
    rw [hnop]
    rfl
  · refine (keepData_parsed addXlateTouch_parsed).cast ?_
    simp [Ocl.keepsBeat, isTouchCmd, h]
  · refine (addFail_parsed _ _).cast ?_
    have hnone : s.keepsBeat cmd = false := by
      simp_all [Ocl.keepsBeat, isReadCmd, isFullRead, isPartialRead, isTouchCmd, isWriteCmd, isFullWrite, isAmoCmd,
        isAmoRw, isAmoW, isInterruptCmd]
    rw [hnone]
    rfl

theorem addCmd_started {n : NewCmd} (hdata : n.dataIsValid = true) (hstate : n.state ≠ .buffer)
    (htype : n.type = .write) (htag : n.afutag = cmd.afutag) (hsize : n.size = dlToSize cmd.dl) (hle : dlToSize cmd.dl ≤ 256)
    (c : Client) (hidle : incomingDataExpected s.list = false) :
    Started s (addCmd s d cmd n c) cmd ((n.event s.nextId).firstBeat s.afuEvent.afuCdata.bus) := by
  have hnot : ¬(n.event s.nextId).Gathers := not_gathers_of_state hstate
  have hadd : addCmd s d cmd n c = { s with
      list := insertCmd s.parms d.reorder ((n.event s.nextId).firstBeat s.afuEvent.afuCdata.bus) s.list
      nextId := s.nextId + 1
      trace := s.trace ++ [.added ((n.event s.nextId).firstBeat s.afuEvent.afuCdata.bus) cmd c.id] } := by
    unfold addCmd
    dsimp only
    rw [expected_insert s.parms d.reorder hnot, hidle, hdata]
    rfl
  have hfields : (n.event s.nextId).type = .write ∧ (n.event s.nextId).size = dlToSize cmd.dl := by
    refine ⟨htype, ?_⟩
    rw [← hsize] at hle ⊢
    exact Nat.mod_eq_of_lt (by omega)
  obtain ⟨htype', hsize'⟩ := hfields
  rw [hadd]
  refine ⟨rfl, rfl, rfl, insertCmd_split _ _ _ _, ?_, ?_, ?_, ?_, ?_, fun hlong => ?_, fun hshort => ?_⟩
  · rw [CmdEvent.firstBeat_eq]
    rfl
  · rw [CmdEvent.firstBeat_eq]
    exact htag
  · rw [CmdEvent.firstBeat_eq]
    exact htype'
  · rw [CmdEvent.firstBeat_eq]
    exact hsize'
  · unfold CmdEvent.firstBeat
    dsimp only
    split_ifs <;> rfl
  · rw [CmdEvent.firstBeat_eq] at hlong
    have hlong : 64 < (n.event s.nextId).size := hlong
    unfold CmdEvent.firstBeat
    dsimp only
    rw [htype', if_neg (by decide), if_pos hlong]
    exact ⟨rfl, rfl⟩
  · rw [CmdEvent.firstBeat_eq] at hshort
    have hshort : (n.event s.nextId).size ≤ 64 := hshort
    unfold CmdEvent.firstBeat
    dsimp only
    rw [htype', if_neg (by decide), if_neg (Nat.not_lt.mpr hshort)]

/-- An accepted write that finds no burst in progress starts its own. -/
theorem parseCmd_started (hop : isFullWrite cmd.opcode = true)
    (halign : aligned cmd.addr (dlToSize cmd.dl) = .aligned) (hknows : s.knows cmd = true)
    (hidle : incomingDataExpected s.list = false) : ∃ e, Started s (parseCmd s d cmd true) cmd e := by
  have hparse : parseCmd s d cmd true = addWrite s d cmd (dlToSize cmd.dl) true 0 := by
    simp only [isFullWrite, Bool.or_eq_true, decide_eq_true_eq] at hop
    rcases hop with hop | hop
    · unfold parseCmd
      rw [hop]
      rfl
    · unfold parseCmd
      rw [hop]
      rfl
  have hbe : ¬(cmd.opcode = afuCmdDmaWBe ∨ cmd.opcode = afuCmdDmaWBeN) := by
    simp only [isFullWrite, Bool.or_eq_true, decide_eq_true_eq] at hop
    rcases hop with hop | hop <;> rw [hop] <;> decide
  obtain ⟨i, hfind⟩ := Option.isSome_iff_exists.mp hknows
  obtain ⟨-, c, hc, -⟩ := findSlot_eq_some hfind
  have hle : dlToSize cmd.dl ≤ 256 := by
    rcases aligned_dlToSize halign with h | h | h <;> omega
  rw [hparse]
  unfold addWrite addAligned
  rw [halign]
  unfold addFor
  rw [hfind]
  dsimp only
  rw [hc]
  exact ⟨_, addCmd_started rfl (by simp) (if_neg hbe) rfl rfl hle c hidle⟩

end Parse

/-! ## `handle_cmd` -/

/-- The engine when the command and the data flag have been taken from the interface. -/
def Ocl.taken (s : Ocl) : Ocl :=
  { s with
    afuEvent := { s.afuEvent with
      afuCmd := { s.afuEvent.afuCmd with valid := 0 }
      afuCdata := { s.afuEvent.afuCdata with valid := 0 } }
    trace := s.trace ++ [Obs.command s.afuEvent.afuCmd] }

section HandleCmd

variable {s : Ocl} {d : Draws}

theorem handleCmd_none (h : s.afuEvent.afuCmd.valid = 0) : handleCmd s d = s := by
  unfold handleCmd afuTlxReadCmdAndData
  rw [if_pos h]

theorem handleCmd_parse (h : s.afuEvent.afuCmd.valid ≠ 0) (hrun : (handleCmd s d).halted = false) :
    handleCmd s d = parseCmd s.taken d s.afuEvent.afuCmd (decide (s.afuEvent.afuCdata.valid ≠ 0)) := by
  unfold handleCmd afuTlxReadCmdAndData at hrun ⊢
  rw [if_neg h] at hrun ⊢
  dsimp only at hrun ⊢
  split at hrun
  · cases hrun
  · rename_i hfresh
    rw [if_neg hfresh]
    rfl

theorem handleCmd_parsed (h : s.afuEvent.afuCmd.valid ≠ 0) (hrun : (handleCmd s d).halted = false)
    (hexp : s.afuEvent.afuCdata.valid ≠ 0 → incomingDataExpected s.list = true) :
    Parsed s.taken (handleCmd s d)
      (s.keepsBeat s.afuEvent.afuCmd && decide (s.afuEvent.afuCdata.valid ≠ 0)) := by
  rw [handleCmd_parse h hrun]
  exact parseCmd_parsed (fun hdata => hexp (of_decide_eq_true hdata))

theorem handleCmd_started (h : s.startsBurst = true) (hrun : (handleCmd s d).halted = false)
    (hdata : s.afuEvent.afuCdata.valid ≠ 0) (hidle : incomingDataExpected s.list = false) :
    ∃ e, Started s.taken (handleCmd s d) s.afuEvent.afuCmd e := by
  simp only [Ocl.startsBurst, Bool.and_eq_true, decide_eq_true_eq] at h
  obtain ⟨⟨⟨hvalid, hop⟩, halign⟩, hknows⟩ := h
  rw [handleCmd_parse hvalid hrun, decide_eq_true hdata]
  exact parseCmd_started hop halign hknows hidle

end HandleCmd

end Ocse
