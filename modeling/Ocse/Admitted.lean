import Ocse.Effect

/-!
# What an accepted command may ask for

`_parse_cmd` checks the size and the address of most commands before it links an event, and of some it does
not. `CmdEvent.Admitted` says what sizes and addresses are left, by the type of the event.
-/

namespace Ocse

/-! ## Linking -/

/-- What `_add_cmd` takes over into the event that it links. -/
structure NewCmd.Links (n : NewCmd) (e : CmdEvent) : Prop where
  type : e.type = n.type
  size : e.size = n.size % 2 ^ 16
  addr : e.addr = n.addr
  command : e.command = n.command
  dpartialAt : e.dpartialAt ≤ 64

theorem NewCmd.event_links (n : NewCmd) (id : ℕ) : n.Links (n.event id) :=
  ⟨rfl, rfl, rfl, rfl, Nat.zero_le _⟩

theorem NewCmd.Links.firstBeat {n : NewCmd} {e : CmdEvent} (h : n.Links e) (bus : Buffer UInt8) :
    n.Links (e.firstBeat bus) := by
  obtain ⟨htype, hsize, haddr, hcommand, hgathered⟩ := h
  unfold CmdEvent.firstBeat
  by_cases hint : e.type = .interrupt
  · rw [if_pos hint]
    exact ⟨htype, hsize, haddr, hcommand, hgathered⟩
  · rw [if_neg hint]
    by_cases hlong : 64 < e.size
    · rw [if_pos hlong]
      exact ⟨htype, hsize, haddr, hcommand, Nat.le_refl _⟩
    · rw [if_neg hlong]
      exact ⟨htype, hsize, haddr, hcommand, Nat.zero_le _⟩

section Admitted

variable {s : Ocl} {d : Draws} {cmd : AfuTlxCmd} {e : CmdEvent}

theorem mem_addFor {n : ℕ → NewCmd} (h : e ∈ (addFor s d cmd n).list) :
    e ∈ s.list ∨ ∃ i, (n i).Links e := by
  unfold addFor at h
  split at h
  · exact .inl h
  · rename_i i _
    split at h
    · exact .inl h
    · simp only [addCmd] at h
      obtain ⟨l₁, l₂, hsplit, hinsert⟩ := insertCmd_split s.parms d.reorder s.list
        (if (n i).dataIsValid && !incomingDataExpected (insertCmd s.parms d.reorder
          ((n i).event s.nextId) s.list) then ((n i).event s.nextId).firstBeat s.afuEvent.afuCdata.bus
          else (n i).event s.nextId)
      rw [hinsert, List.mem_append, List.mem_cons] at h
      rcases h with h | rfl | h
      · exact .inl (hsplit ▸ List.mem_append_left _ h)
      · right
        use i
        split_ifs
        · exact ((n i).event_links _).firstBeat _
        · exact (n i).event_links _
      · exact .inl (hsplit ▸ List.mem_append_right _ h)

/-! ## Sizes -/

/-- The sizes that a full or a partial transfer can have. -/
def IsTransferSize (size : ℕ) : Prop := size ≤ 32 ∨ size = 64 ∨ size = 128 ∨ size = 256

/-- The operand length of an interrupt with data is not checked: an unsupported code gives the size 65535. -/
def CmdEvent.AdmittedSize (e : CmdEvent) (cmd : AfuTlxCmd) : Prop :=
  match e.type with
  | .read | .write => aligned e.addr e.size = .aligned ∧ IsTransferSize e.size
  | .wrBe => e.size = 64
  | .amoRd | .amoRw | .amoWr => e.size = 4 ∨ e.size = 8
  | .interrupt =>
      e.command = cmd.opcode ∧ (cmd.opcode = afuCmdIntrpReqD → e.size = plToSize cmd.pl % 2 ^ 16)
  | .wakeHostThrd => e.command ≠ afuCmdIntrpReqD
  | .touch | .failed => True
  | .xlatRdTouch | .xlatWrTouch | .other => False

structure CmdEvent.Admitted (e : CmdEvent) (cmd : AfuTlxCmd) : Prop where
  addr : e.type ≠ .failed → e.addr = cmd.addr
  dpartialAt : e.dpartialAt ≤ 64
  size : e.AdmittedSize cmd

theorem dlToSize_isTransferSize {addr : ℕ} {dl : UInt8} (h : aligned addr (dlToSize dl) = .aligned) :
    IsTransferSize (dlToSize dl) := .inr (aligned_dlToSize h)

theorem plToSize_isTransferSize {addr : ℕ} {pl : UInt8} (h : aligned addr (plToSize pl) = .aligned) :
    IsTransferSize (plToSize pl) := .inl (aligned_plToSize h)

theorem IsTransferSize.mod {size : ℕ} (h : IsTransferSize size) : size % 2 ^ 16 = size := by
  unfold IsTransferSize at h
  omega

theorem plToSize_le {pl : UInt8} (h : pl ≤ 5) : plToSize pl ≤ 32 := by
  have hall : ∀ n ≤ 5, plToSize (UInt8.ofNat n) ≤ 32 := by decide
  simpa using hall pl.toNat h

/-- `pl_to_size` gives -1 for a code that it does not know. -/
theorem plToSize_or (pl : UInt8) : plToSize pl ≤ 32 ∨ plToSize pl = 2 ^ 32 - 1 := by
  unfold plToSize
  split_ifs <;> decide

/-! ## Parsing -/

/-- Whatever events `s'` has beyond those of `s` are admitted. -/
def Admits (cmd : AfuTlxCmd) (s s' : Ocl) : Prop := ∀ e ∈ s'.list, e ∈ s.list ∨ e.Admitted cmd

theorem Admits.ite {p : Prop} [Decidable p] {s₁ s₂ : Ocl} (h₁ : p → Admits cmd s s₁)
    (h₂ : ¬p → Admits cmd s s₂) : Admits cmd s (if p then s₁ else s₂) :=
  iteInduction (motive := Admits cmd s) h₁ h₂

theorem Admits.of_keepData (dataIsValid : Bool) {s' : Ocl} (h : Admits cmd (s.keepData dataIsValid) s') :
    Admits cmd s s' := by
  have hkeep : (s.keepData dataIsValid).list = s.list := by cases dataIsValid <;> rfl
  intro e he
  rw [← hkeep]
  exact h e he

theorem addFor_admits {n : ℕ → NewCmd} (hn : ∀ i e, (n i).Links e → e.Admitted cmd) :
    Admits cmd s (addFor s d cmd n) := by
  intro e he
  rcases mem_addFor he with hold | ⟨i, hlinks⟩
  · exact .inl hold
  · exact .inr (hn i e hlinks)

theorem addFail_admits (resp respOpcode : UInt8) : Admits cmd s (addFail s d cmd resp respOpcode) := by
  refine addFor_admits (fun i e h => ⟨fun hne => absurd h.type hne, h.dpartialAt, ?_⟩)
  rw [CmdEvent.AdmittedSize, h.type]
  trivial

theorem addAligned_admits {size : ℕ} {failOpcode : UInt8} {ok : Ocl}
    (hok : aligned cmd.addr size = .aligned → Admits cmd s ok) :
    Admits cmd s (addAligned s d cmd size failOpcode ok) := by
  unfold addAligned
  split
  · exact addFail_admits _ _
  · exact addFail_admits _ _
  · rename_i halign
    exact hok halign

theorem addRead_admits {size : ℕ} (hsize : aligned cmd.addr size = .aligned → IsTransferSize size) :
    Admits cmd s (addRead s d cmd size) := by
  refine addAligned_admits (fun halign => addFor_admits (fun i e h => ⟨fun _ => h.addr, h.dpartialAt, ?_⟩))
  have hexact : e.size = size := h.size.trans (hsize halign).mod
  have haddr : e.addr = cmd.addr := h.addr
  rw [CmdEvent.AdmittedSize, h.type, hexact, haddr]
  exact ⟨halign, hsize halign⟩

theorem addWrite_admits {size : ℕ} {dataIsValid : Bool} {be : UInt64}
    (hsize : aligned cmd.addr size = .aligned → IsTransferSize size)
    (hbe : cmd.opcode = afuCmdDmaWBe ∨ cmd.opcode = afuCmdDmaWBeN → size = 64) :
    Admits cmd s (addWrite s d cmd size dataIsValid be) := by
  refine addAligned_admits (fun halign => addFor_admits (fun i e h => ⟨fun _ => h.addr, h.dpartialAt, ?_⟩))
  have hexact : e.size = size := h.size.trans (hsize halign).mod
  have haddr : e.addr = cmd.addr := h.addr
  have htype := h.type
  by_cases hop : cmd.opcode = afuCmdDmaWBe ∨ cmd.opcode = afuCmdDmaWBeN
  · simp only [if_pos hop] at htype
    rw [CmdEvent.AdmittedSize, htype]
    exact hexact.trans (hbe hop)
  · simp only [if_neg hop] at htype
    rw [CmdEvent.AdmittedSize, htype, hexact, haddr]
    exact ⟨halign, hsize halign⟩

theorem addAmo_admits {type : CmdType} (htypes : type = .amoRd ∨ type = .amoRw ∨ type = .amoWr)
    (dataIsValid : Bool) : Admits cmd s (addAmo s d cmd type dataIsValid) := by
  unfold addAmo
  split
  · exact addFail_admits _ _
  · rename_i size hsize
    have h48 := amoSize_ok hsize
    refine .ite (fun _ => addFail_admits _ _)
      (fun _ => addFor_admits (fun i e h => ⟨fun _ => h.addr, h.dpartialAt, ?_⟩))
    have hexact : e.size = size % 2 ^ 16 := h.size
    rcases htypes with rfl | rfl | rfl <;> simp only [CmdEvent.AdmittedSize, h.type, hexact] <;> omega

theorem addInterrupt_admits {size : ℕ} (hsize : cmd.opcode = afuCmdIntrpReqD → size = plToSize cmd.pl)
    (dataIsValid : Bool) : Admits cmd s (addInterrupt s d cmd size dataIsValid) := by
  refine addFor_admits (fun i e h => ⟨fun _ => h.addr, h.dpartialAt, ?_⟩)
  have htype := h.type
  have hcommand : e.command = cmd.opcode := h.command
  by_cases hwake : cmd.opcode = afuCmdWakeHostThrd
  · simp only [if_pos hwake] at htype
    rw [CmdEvent.AdmittedSize, htype]
    change e.command ≠ afuCmdIntrpReqD
    rw [hcommand, hwake]
    decide
  · simp only [if_neg hwake] at htype
    rw [CmdEvent.AdmittedSize, htype]
    refine ⟨hcommand, fun hD => ?_⟩
    rw [← hsize hD]
    exact h.size

/-- Every event that a command adds is admitted. -/
theorem parseCmd_admits (dataIsValid : Bool) : Admits cmd s (parseCmd s d cmd dataIsValid) := by
  refine .ite (fun _ => ?_) (fun _ => .ite (fun _ => ?_) (fun _ => .ite (fun _ => ?_) (fun _ =>
    .ite (fun hwrite => ?_) (fun _ => .ite (fun hwrite => ?_) (fun _ => .ite (fun _ => ?_) (fun _ =>
    .ite (fun _ => ?_) (fun _ => .ite (fun _ => ?_) (fun _ => .ite (fun _ => ?_) (fun _ =>
    .ite (fun _ => ?_) (fun n₁₀ => .ite (fun _ => ?_) (fun _ => .ite (fun _ => ?_) (fun _ =>
    .ite (fun _ => ?_) (fun _ => ?_)))))))))))))
  · refine .of_keepData dataIsValid (fun e he => .inl ?_)
    unfold assignActag at he
    split at he <;> exact he
  · exact .of_keepData _ (addRead_admits dlToSize_isTransferSize)
  · exact .of_keepData _ (addRead_admits plToSize_isTransferSize)
  · refine addWrite_admits dlToSize_isTransferSize (fun hop => ?_)
    rcases hwrite with hw | hw <;> rw [hw] at hop <;> exact absurd hop (by decide)
  · refine addWrite_admits plToSize_isTransferSize (fun hop => ?_)
    rcases hwrite with hw | hw <;> rw [hw] at hop <;> exact absurd hop (by decide)
  · exact addWrite_admits (fun _ => .inr (.inl rfl)) (fun _ => rfl)
  · exact addAmo_admits (.inl rfl) _
  · exact addAmo_admits (.inr (.inl rfl)) _
  · exact addAmo_admits (.inr (.inr rfl)) _
  · exact addInterrupt_admits (fun _ => rfl) _
  · exact addInterrupt_admits (fun hD => absurd hD n₁₀) _
  · exact fun e he => .inl he
  · refine .of_keepData _ (addAligned_admits (fun _ => addFor_admits (fun i e h =>
      ⟨fun _ => h.addr, h.dpartialAt, ?_⟩)))
    rw [CmdEvent.AdmittedSize, h.type]
    trivial
  · exact addFail_admits _ _

theorem mem_handleCmd (h : e ∈ (handleCmd s d).list) : e ∈ s.list ∨ ∃ cmd, e.Admitted cmd := by
  unfold handleCmd at h
  split at h
  · exact .inl h
  · rename_i cmd dataIsValid afuEvent _
    dsimp only at h
    split_ifs at h
    · exact .inl h
    · rcases parseCmd_admits dataIsValid e h with hold | hnew
      · exact .inl hold
      · exact .inr ⟨cmd, hnew⟩

end Admitted

end Ocse
