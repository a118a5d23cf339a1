import Ocse.AmoOps
import Ocse.RequestCodec

/-!
# The operands of an atomic operation, from the data line to the client

`handle_write_be_or_amo` cuts 16 bytes out of the data line at the offset of the address, and `_handle_DMO_OPs`
picks the operands out of the 16 bytes by the place of the address once more.
-/

namespace Ocse

/-! ## What the client picks -/

section Pick

variable {data : Buffer UInt8} {n addr : ℕ} {amoOp : UInt8}

/-- Where in the line the operands come from that are picked out of the 16 bytes at `offset`. -/
def pickedAt (n addr offset : ℕ) : ℕ × ℕ :=
  match addr / 4 % 4 with
  | 0 => (offset, offset + 8)
  | 1 => (offset + 4, offset + 12)
  | 2 => if n = 4 then (offset, offset + 8) else (offset + 8, offset)
  | _ => (offset + 12, offset + 4)

theorem pieceOf_loadLE {k : ℕ} (h : k + n ≤ 8) (pos : ℕ) :
    pieceOf n (BitVec.ofNat 64 (loadLE data pos 8)) k = data.loadWord (pos + k) n :=
  data.extractLsb'_loadWord pos h

theorem selectOperands_line (hn : n = 4 ∨ n = 8) (haligned : addr % n = 0) (hkind : amoOp ≠ ocseAmoRd)
    (offset : ℕ) (stale : Stale n) :
    selectOperands amoOp n addr (BitVec.ofNat 64 (loadLE data offset 8))
      (BitVec.ofNat 64 (loadLE data (offset + 8) 8)) stale =
      some (data.loadWord (pickedAt n addr offset).1 n, data.loadWord (pickedAt n addr offset).2 n) := by
  have hptr := opPtr_eq addr
  have hplace : addr / 4 % 4 = 0 ∨ addr / 4 % 4 = 1 ∨ addr / 4 % 4 = 2 ∨ addr / 4 % 4 = 3 := by omega
  unfold selectOperands pickedAt
  rcases hplace with h | h | h | h
  all_goals
    rw [h] at hptr
    rcases hn with rfl | rfl
  · simp [hptr, h, hkind, pieceOf_loadLE]
  · simp [hptr, h, hkind, pieceOf_loadLE]
  · simp [hptr, h, hkind, pieceOf_loadLE]
  · omega
  · simp [hptr, h, hkind, pieceOf_loadLE]
  · simp [hptr, h, hkind, pieceOf_loadLE]
  · simp [hptr, h, hkind, pieceOf_loadLE]
  · omega

end Pick

/-! ## From the line to the operands -/

def casFunctions : List UInt8 := [amoArmwfCasU, amoArmwfCasE, amoArmwfCasNe]

/-- The message of the event gives the client the operands that stand in the line: the first at the offset of the
address, and that of a compare-and-swap eight bytes beside it. -/
def OperandsPlaced (e : CmdEvent) : Prop :=
  ∀ rest (stale : Stale e.size), ∃ amoOp op1 op2 v w,
    pslRequest (e.clientMessage ++ rest) =
      some (.dmo amoOp e.size e.addr e.cmdFlag op1 op2 e.cmdEndian, rest) ∧
    selectOperands amoOp e.size e.addr (BitVec.ofNat 64 op1) (BitVec.ofNat 64 op2) stale = some (v, w) ∧
    v = e.data.loadWord e.offset e.size ∧
    (e.cmdFlag ∈ casFunctions → w = e.data.loadWord (e.offset ^^^ 8) e.size)

theorem offset_xor_eight (addr : ℕ) :
    addr % 64 ^^^ 8 = if addr / 4 % 4 < 2 then addr % 64 + 8 else addr % 64 - 8 := by
  have hall : ∀ o < 64, o ^^^ 8 = if o / 4 % 4 < 2 then o + 8 else o - 8 := by decide
  have hplace : addr % 64 / 4 % 4 = addr / 4 % 4 := by omega
  rw [hall _ (Nat.mod_lt _ (by decide)), hplace]

section Place

variable {n addr : ℕ} (hn : n = 4 ∨ n = 8) (haligned : addr % n = 0)

include hn haligned

/-- The operand that is picked is the right one, or it does not even touch it. -/
theorem pickedAt_fst_cases : (pickedAt n addr (addr % 64)).1 = addr % 64 ∨
    addr % 64 + n ≤ (pickedAt n addr (addr % 64)).1 := by
  have hplace : addr / 4 % 4 = 0 ∨ addr / 4 % 4 = 1 ∨ addr / 4 % 4 = 2 ∨ addr / 4 % 4 = 3 := by omega
  unfold pickedAt
  rcases hn with rfl | rfl
  all_goals rcases hplace with h | h | h | h <;> rw [h] <;> simp <;> omega

theorem pickedAt_snd_cases : (pickedAt n addr (addr % 64)).2 = addr % 64 ^^^ 8 ∨
    (pickedAt n addr (addr % 64)).2 + n ≤ addr % 64 ^^^ 8 ∨ (addr % 64 ^^^ 8) + n ≤ (pickedAt n addr (addr % 64)).2 := by
  have hplace : addr / 4 % 4 = 0 ∨ addr / 4 % 4 = 1 ∨ addr / 4 % 4 = 2 ∨ addr / 4 % 4 = 3 := by omega
  rw [offset_xor_eight]
  unfold pickedAt
  rcases hn with rfl | rfl <;> rcases hplace with h | h | h | h <;> rw [h] <;> simp <;> omega

/-- The places of the address at which both operands are the right ones. -/
theorem pickedAt_eq_iff (P : Prop) :
    (pickedAt n addr (addr % 64)).1 = addr % 64 ∧ (P → (pickedAt n addr (addr % 64)).2 = addr % 64 ^^^ 8) ↔
      addr / 4 % 4 = 0 ∨ n = 4 ∧ addr / 4 % 4 = 2 ∧ ¬P := by
  have hplace : addr / 4 % 4 = 0 ∨ addr / 4 % 4 = 1 ∨ addr / 4 % 4 = 2 ∨ addr / 4 % 4 = 3 := by omega
  rw [offset_xor_eight]
  unfold pickedAt
  by_cases hP : P
  all_goals rcases hn with rfl | rfl <;> rcases hplace with h | h | h | h <;> rw [h] <;> simp [hP] <;> omega

theorem offset_fits : addr % 64 + n ≤ 64 ∧ (addr % 64 ^^^ 8) + n ≤ 64 := by
  rw [offset_xor_eight]
  rcases hn with rfl | rfl <;> split <;> omega

end Place

section Line

variable {e : CmdEvent}

/-- What the client makes of the message of an operation with operands. -/
theorem pslRequest_operands (htype : e.type = .amoWr ∨ e.type = .amoRw) (hsize : e.size = 4 ∨ e.size = 8)
    (haddr : e.addr < 256 ^ 8) : ∃ amoOp, amoOp ≠ ocseAmoRd ∧ ∀ rest,
      pslRequest (e.clientMessage ++ rest) =
        some (.dmo amoOp e.size e.addr e.cmdFlag (loadLE e.data e.offset 8) (loadLE e.data (e.offset + 8) 8)
          e.cmdEndian, rest) := by
  have haccepted : e.Accepted := by
    refine ⟨haddr, ?_⟩
    unfold CmdEvent.LegalSize
    rcases htype with htype | htype <;> rw [htype] <;> exact hsize
  rcases htype with htype | htype
  · refine ⟨ocseAmoWr, by decide, fun rest => ?_⟩
    rw [pslRequest_clientMessage haccepted, CmdEvent.request, htype]
  · refine ⟨ocseAmoRw, by decide, fun rest => ?_⟩
    rw [pslRequest_clientMessage haccepted, CmdEvent.request, htype]

theorem operandsPlaced_iff_picked (htype : e.type = .amoWr ∨ e.type = .amoRw) (hsize : e.size = 4 ∨ e.size = 8)
    (haddr : e.addr < 256 ^ 8) (haligned : e.addr % e.size = 0) :
    OperandsPlaced e ↔
      e.data.loadWord (pickedAt e.size e.addr e.offset).1 e.size = e.data.loadWord e.offset e.size ∧
      (e.cmdFlag ∈ casFunctions →
        e.data.loadWord (pickedAt e.size e.addr e.offset).2 e.size = e.data.loadWord (e.offset ^^^ 8) e.size) := by
  obtain ⟨amoOp, hkind, hrequest⟩ := pslRequest_operands htype hsize haddr
  have hpicked (stale : Stale e.size) :
      selectOperands amoOp e.size e.addr (BitVec.ofNat 64 (loadLE e.data e.offset 8))
        (BitVec.ofNat 64 (loadLE e.data (e.offset + 8) 8)) stale =
        some (e.data.loadWord (pickedAt e.size e.addr e.offset).1 e.size,
          e.data.loadWord (pickedAt e.size e.addr e.offset).2 e.size) :=
    selectOperands_line hsize haligned hkind e.offset stale
  constructor
  · intro h
    obtain ⟨amoOp', op1, op2, v, w, hparsed, hselected, hv, hw⟩ := h [] ⟨0, 0, 0⟩
    rw [hrequest] at hparsed
    cases hparsed
    rw [hpicked] at hselected
    cases hselected
    exact ⟨hv, hw⟩
  · rintro ⟨hv, hw⟩ rest stale
    exact ⟨amoOp, _, _, _, _, hrequest rest, hpicked stale, hv, hw⟩

/-- A line can be the data of the event with any word in the place of one of its own. -/
theorem firstBeat_storeWord {pos n : ℕ} (hpos : pos + n ≤ 64) (x : BitVec (8 * n)) :
    (e.firstBeat (e.data.storeWord pos x)).data = e.data.storeWord pos x := by
  have hdata : (e.firstBeat (e.data.storeWord pos x)).data =
      e.data.write 0 ((e.data.storeWord pos x).read 0 64) := by
    unfold CmdEvent.firstBeat
    dsimp only
    split_ifs <;> rfl
  rw [hdata]
  funext i
  rcases Nat.lt_or_ge i 64 with hlow | hhigh
  · have hat := e.data.write_at 0 ((e.data.storeWord pos x).read 0 64) i (by rw [Buffer.length_read]; exact hlow)
    rw [Buffer.get_read, Nat.zero_add] at hat
    exact hat
  · rw [Buffer.write_of_ge _ _ _ _ (by rw [Buffer.length_read]; omega), Buffer.storeWord_of_ge _ _ _ (by omega)]

/-- A word of the line is not known by another place. -/
theorem exists_line_ne {p q n : ℕ} (hn : 0 < n) (hq : q + n ≤ 64) (hapart : p + n ≤ q ∨ q + n ≤ p) :
    ∃ line, (e.firstBeat line).data.loadWord p n ≠ (e.firstBeat line).data.loadWord q n := by
  refine ⟨e.data.storeWord q (e.data.loadWord p n + 1), ?_⟩
  rw [firstBeat_storeWord hq, Buffer.loadWord_storeWord_same, Buffer.loadWord_storeWord_other _ _ _ hapart]
  exact (add_one_ne (by omega) _).symm

/-- The operands of every line arrive in their places exactly when the address starts 16 bytes, or when a
four-byte one starts the second half of them and the function has one operand. -/
theorem operandsPlaced_iff (htype : e.type = .amoWr ∨ e.type = .amoRw) (hsize : e.size = 4 ∨ e.size = 8)
    (haddr : e.addr < 256 ^ 8) (haligned : e.addr % e.size = 0) :
    (∀ line, OperandsPlaced (e.firstBeat line)) ↔
      e.addr / 4 % 4 = 0 ∨ e.size = 4 ∧ e.addr / 4 % 4 = 2 ∧ e.cmdFlag ∉ casFunctions := by
  have hpicked (line : Buffer UInt8) : OperandsPlaced (e.firstBeat line) ↔
      (e.firstBeat line).data.loadWord (pickedAt e.size e.addr e.offset).1 e.size =
        (e.firstBeat line).data.loadWord e.offset e.size ∧
      (e.cmdFlag ∈ casFunctions →
        (e.firstBeat line).data.loadWord (pickedAt e.size e.addr e.offset).2 e.size =
          (e.firstBeat line).data.loadWord (e.offset ^^^ 8) e.size) := by
    have hkept := e.firstBeat_eq line
    have htype' : (e.firstBeat line).type = .amoWr ∨ (e.firstBeat line).type = .amoRw := by
      rw [hkept]
      exact htype
    have hsame : (e.firstBeat line).size = e.size ∧ (e.firstBeat line).addr = e.addr ∧
        (e.firstBeat line).cmdFlag = e.cmdFlag := by
      rw [hkept]
      exact ⟨rfl, rfl, rfl⟩
    have h := operandsPlaced_iff_picked (e := e.firstBeat line) htype'
    rw [CmdEvent.offset, hsame.1, hsame.2.1, hsame.2.2] at h
    exact h hsize haddr haligned
  have hfits := offset_fits hsize haligned
  have hpos : 0 < e.size := by omega
  simp only [hpicked]
  rw [← pickedAt_eq_iff hsize haligned]
  constructor
  · intro hall
    constructor
    · rcases pickedAt_fst_cases hsize haligned with h | happart
      · exact h
      · obtain ⟨line, hne⟩ := exists_line_ne (e := e) hpos hfits.1 (.inr happart)
        exact absurd (hall line).1 hne
    · intro hcas
      rcases pickedAt_snd_cases hsize haligned with h | happart
      · exact h
      · obtain ⟨line, hne⟩ := exists_line_ne (e := e) hpos hfits.2 happart
        exact absurd ((hall line).2 hcas) hne
  · rintro ⟨hfirst, hsecond⟩ line
    rw [CmdEvent.offset, hfirst]
    refine ⟨rfl, fun hcas => ?_⟩
    rw [hsecond hcas]

end Line

/-- An addition to four bytes in the middle of eight. -/
def sampleAmo : CmdEvent := { sampleSend .amoRw afuCmdAmoRw 0x1004 4 with data := Buffer.const 0 }

theorem operandsPlaced_iff_sampleAmo : (∀ line, OperandsPlaced (sampleAmo.firstBeat line)) ↔
    sampleAmo.addr / 4 % 4 = 0 ∨ sampleAmo.size = 4 ∧ sampleAmo.addr / 4 % 4 = 2 ∧
      sampleAmo.cmdFlag ∉ casFunctions :=
  operandsPlaced_iff (.inr rfl) (.inl rfl) (by decide) rfl

/-- In a line that counts its bytes, the operand at byte 4 is picked from byte 8. -/
theorem sampleAmo_misplaced :
    ¬OperandsPlaced (sampleAmo.firstBeat UInt8.ofNat) ∧
      selectOperands ocseAmoRw 4 0x1004
        (BitVec.ofNat 64 (loadLE (sampleAmo.firstBeat UInt8.ofNat).data 4 8))
        (BitVec.ofNat 64 (loadLE (sampleAmo.firstBeat UInt8.ofNat).data 12 8)) ⟨0, 0, 0⟩ =
          some (0x0b0a0908, 0x13121110) ∧
      (sampleAmo.firstBeat UInt8.ofNat).data.loadWord 4 4 = 0x07060504 := by
  refine ⟨?_, by decide +kernel, by decide +kernel⟩
  rw [operandsPlaced_iff_picked (.inr rfl) (.inl rfl) (by decide) rfl]
  decide +kernel

end Ocse
