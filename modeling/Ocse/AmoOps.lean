import Ocse.Amo

/-!
# What the atomic operations do

`AmoResult` is what a fetch-and-op stores, by the meaning of its function code; the code of `_handle_DMO_OPs`
is compared with it for every memory, address and operand. The functions that are not defined for a kind of
operation and those of the bounded reads are followed to the stores behind the switch as well.
-/

namespace Ocse

/-! ## Words and places -/

section Word

variable {w : ℕ}

theorem add_one_ne (hw : 0 < w) (v : BitVec w) : v + 1 ≠ v := by
  intro h
  have hone : (1 : BitVec w) = 0 := by
    rw [← BitVec.add_zero v, BitVec.add_assoc] at h
    exact (BitVec.add_right_inj v).mp (by simpa using h)
  have hval := congrArg BitVec.toNat hone
  have hlt : 1 < 2 ^ w := Nat.one_lt_two_pow (by omega)
  rw [show BitVec.toNat (1 : BitVec w) = 1 % 2 ^ w from rfl, Nat.mod_eq_of_lt hlt] at hval
  exact absurd hval (by simp)

/-- Below the sign bit the mask is all ones. -/
theorem getLsbD_signMask (hw : 0 < w) {i : ℕ} (hi : i < w) :
    (BitVec.twoPow w (w - 1) - 1).getLsbD i = decide (i < w - 1) := by
  have hlt : 2 ^ (w - 1) < 2 ^ w := Nat.pow_lt_pow_right (by decide) (by omega)
  have hpos : 0 < 2 ^ (w - 1) := Nat.two_pow_pos _
  have hone : 1 < 2 ^ w := Nat.one_lt_two_pow (by omega)
  have hmask : BitVec.twoPow w (w - 1) - 1 = BitVec.ofNat w (2 ^ (w - 1) - 1) := by
    apply BitVec.eq_of_toNat_eq
    have htoNat : BitVec.toNat (1 : BitVec w) = 1 := Nat.mod_eq_of_lt hone
    have hsum : 2 ^ w - 1 + 2 ^ (w - 1) = 2 ^ (w - 1) - 1 + 2 ^ w := by omega
    rw [BitVec.toNat_sub, BitVec.toNat_twoPow, htoNat, BitVec.toNat_ofNat, Nat.mod_eq_of_lt hlt, hsum,
      Nat.add_mod_right]
  rw [hmask, BitVec.getLsbD_ofNat, Nat.testBit_two_pow_sub_one, decide_eq_true hi, Bool.true_and]

/-- A word that has all its bits is its own sign extension. -/
theorem signExtend_eq (hw : 0 < w) (x : BitVec w) : signExtend x = x := by
  have hsign : (x &&& BitVec.twoPow w (w - 1)).getLsbD (w - 1) = x.getLsbD (w - 1) := by
    rw [BitVec.getLsbD_and, BitVec.getLsbD_twoPow]
    have hlt : w - 1 < w := by omega
    simp [hlt]
  unfold signExtend
  dsimp only
  split
  · next hset =>
    have hmsb : x.getLsbD (w - 1) = true := by
      by_contra hclear
      apply hset
      rw [BitVec.and_twoPow, if_neg hclear]
      rfl
    apply BitVec.eq_of_getLsbD_eq
    intro i hi
    rw [BitVec.getLsbD_or, BitVec.getLsbD_not, getLsbD_signMask hw hi, decide_eq_true hi, Bool.true_and]
    rcases Nat.lt_or_ge i (w - 1) with hlow | htop
    · simp [hlow]
    · obtain rfl : i = w - 1 := by omega
      simp [hmsb]
  · next hclear =>
    have hmsb : x.getLsbD (w - 1) = false := by
      rw [← hsign, not_not.mp hclear]
      exact BitVec.getLsbD_zero
    apply BitVec.eq_of_getLsbD_eq
    intro i hi
    rw [BitVec.getLsbD_and, getLsbD_signMask hw hi]
    rcases Nat.lt_or_ge i (w - 1) with hlow | htop
    · simp [hlow]
    · obtain rfl : i = w - 1 := by omega
      simp [hmsb]

end Word

/-- The place of an address in 16 bytes, in words. -/
theorem opPtr_eq (addr : ℕ) : addr &&& 0xc = 4 * (addr / 4 % 4) := by
  have hlow : addr &&& 0xc = addr % 16 &&& 0xc := by
    have hle : addr &&& 0xc ≤ 0xc := Nat.and_le_right
    have hmod := Nat.and_mod_two_pow (a := addr) (b := 0xc) (n := 4)
    rw [Nat.mod_eq_of_lt (by omega)] at hmod
    exact hmod
  have hcases : ∀ r < 16, r &&& 0xc = 4 * (r / 4 % 4) := by decide
  rw [hlow, hcases _ (Nat.mod_lt _ (by decide))]
  omega

/-- Only an eight-byte operand that starts in the middle of eight bytes is refused. -/
theorem selectOperands_eq_none_iff {n : ℕ} (hn : n = 4 ∨ n = 8) (amoOp : UInt8) (addr : ℕ) (op1 op2 : BitVec 64)
    (stale : Stale n) : selectOperands amoOp n addr op1 op2 stale = none ↔ n = 8 ∧ addr / 4 % 2 = 1 := by
  have hptr := opPtr_eq addr
  have hplace : addr / 4 % 4 = 0 ∨ addr / 4 % 4 = 1 ∨ addr / 4 % 4 = 2 ∨ addr / 4 % 4 = 3 := by omega
  unfold selectOperands
  rcases hplace with h | h | h | h <;> rw [h] at hptr <;> have hodd : addr / 4 % 2 = (addr / 4 % 4) % 2 := by omega
  all_goals
    rw [h] at hodd
    rcases hn with rfl | rfl <;> by_cases hread : amoOp = ocseAmoRd <;> simp [hptr, hodd, hread]

theorem selectOperands_some {n addr : ℕ} (hn : n = 4 ∨ n = 8) (hplace : ¬(n = 8 ∧ addr / 4 % 2 = 1))
    (amoOp : UInt8) (op1 op2 : BitVec 64) (stale : Stale n) :
    ∃ v w, selectOperands amoOp n addr op1 op2 stale = some (v, w) := by
  cases h : selectOperands amoOp n addr op1 op2 stale with
  | some vw => exact ⟨vw.1, vw.2, rfl⟩
  | none => exact absurd ((selectOperands_eq_none_iff hn amoOp addr op1 op2 stale).mp h) hplace

theorem selectOperands_aligned {n addr : ℕ} (hn : n = 4 ∨ n = 8) (haligned : addr % n = 0) (amoOp : UInt8)
    (op1 op2 : BitVec 64) (stale : Stale n) : ∃ v w, selectOperands amoOp n addr op1 op2 stale = some (v, w) := by
  apply selectOperands_some hn
  rintro ⟨rfl, hodd⟩
  omega

/-! ## Fetch and operate -/

/-- What a function code stores, given the old value and the operands: add, exclusive or, or, and, the greater
and the smaller of the two with and without sign, swap, and the two compare-and-swaps. -/
def amoResult {w : ℕ} (functionCode : ℕ) (old v op2 : BitVec w) : BitVec w :=
  match functionCode with
  | 0 => BitVec.ofNat w (old.toNat + v.toNat)
  | 1 => old ^^^ v
  | 2 => old ||| v
  | 3 => old &&& v
  | 4 => BitVec.ofNat w (max old.toNat v.toNat)
  | 5 => BitVec.ofInt w (max old.toInt v.toInt)
  | 6 => BitVec.ofNat w (min old.toNat v.toNat)
  | 7 => BitVec.ofInt w (min old.toInt v.toInt)
  | 8 => op2
  | 9 => if old = v then op2 else old
  | 10 => if old ≠ v then op2 else old
  | _ => old

/-- An operand or a reply in the byte order that the endian bit asks for. -/
def endianWord {n : ℕ} (cmdEndian : UInt8) (v : BitVec (8 * n)) : BitVec (8 * n) :=
  if cmdEndian = 0 then v else byteSwap v

section Order

variable {w : ℕ} (a v : BitVec w)

theorem ite_gt_eq_max : (if a > v then a else v) = BitVec.ofNat w (max a.toNat v.toNat) := by
  by_cases h : a > v
  · rw [if_pos h, Nat.max_eq_left (Nat.le_of_lt h), BitVec.ofNat_toNat, BitVec.setWidth_eq]
  · rw [if_neg h, Nat.max_eq_right (Nat.le_of_not_lt h), BitVec.ofNat_toNat, BitVec.setWidth_eq]

theorem ite_lt_eq_min : (if a < v then a else v) = BitVec.ofNat w (min a.toNat v.toNat) := by
  by_cases h : a < v
  · rw [if_pos h, Nat.min_eq_left (Nat.le_of_lt h), BitVec.ofNat_toNat, BitVec.setWidth_eq]
  · rw [if_neg h, Nat.min_eq_right (Nat.le_of_not_lt h), BitVec.ofNat_toNat, BitVec.setWidth_eq]

theorem ite_slt_eq_max : (if v.slt a then a else v) = BitVec.ofInt w (max a.toInt v.toInt) := by
  by_cases h : v.slt a = true
  · have hle := Int.le_of_lt (BitVec.slt_iff_toInt_lt.mp h)
    rw [if_pos h, Int.max_eq_left hle, BitVec.ofInt_toInt]
  · have hle := Int.not_lt.mp (fun hlt => h (BitVec.slt_iff_toInt_lt.mpr hlt))
    rw [if_neg h, Int.max_eq_right hle, BitVec.ofInt_toInt]

theorem ite_slt_eq_min : (if a.slt v then a else v) = BitVec.ofInt w (min a.toInt v.toInt) := by
  by_cases h : a.slt v = true
  · have hle := Int.le_of_lt (BitVec.slt_iff_toInt_lt.mp h)
    rw [if_pos h, Int.min_eq_left hle, BitVec.ofInt_toInt]
  · have hle := Int.not_lt.mp (fun hlt => h (BitVec.slt_iff_toInt_lt.mpr hlt))
    rw [if_neg h, Int.min_eq_right hle, BitVec.ofInt_toInt]

end Order

/-! ### The switch -/

/-- `wb` of an operation that returns the old value, unless it is a write. -/
def valueBack (amoOp : UInt8) (n : ℕ) : UInt8 := if amoOp = ocseAmoWr then 0 else if n = 4 then 1 else 2

section Execute

variable {n : ℕ} (mem : Buffer UInt8) (addr : ℕ) (staleA : BitVec 32) (l : AmoLocals n)

/-- The fetch-and-op functions of every kind. -/
theorem executeAmo_fetch (hn : n = 4 ∨ n = 8) (amoOp f : UInt8) (hf : f.toNat ≤ 7) :
    executeAmo amoOp f n mem addr staleA l =
      ({ l with op1 := amoResult f.toNat l.opA l.op1 l.op2 }, valueBack amoOp n) := by
  have hw : 0 < 8 * n := by omega
  have hcode : f = amoWrmwfAdd ∨ f = amoWrmwfXor ∨ f = amoWrmwfOr ∨ f = amoWrmwfAnd ∨ f = amoWrmwfCasMaxU ∨
      f = amoWrmwfCasMaxS ∨ f = amoWrmwfCasMinU ∨ f = amoWrmwfCasMinS := by
    simp only [← UInt8.toNat_inj, amoWrmwfAdd, amoWrmwfXor, amoWrmwfOr, amoWrmwfAnd, amoWrmwfCasMaxU,
      amoWrmwfCasMaxS, amoWrmwfCasMinU, amoWrmwfCasMinS, UInt8.reduceToNat]
    omega
  rcases hcode with rfl | rfl | rfl | rfl | rfl | rfl | rfl | rfl
  · have hadd : l.op1 + l.opA = BitVec.ofNat (8 * n) (l.opA.toNat + l.op1.toNat) := by
      rw [BitVec.ofNat_add, BitVec.ofNat_toNat, BitVec.ofNat_toNat, BitVec.setWidth_eq, BitVec.setWidth_eq,
        BitVec.add_comm]
    change ({ l with op1 := l.op1 + l.opA }, _) = _
    rw [hadd]
    rfl
  · change ({ l with op1 := l.op1 ^^^ l.opA }, _) = _
    rw [BitVec.xor_comm]
    rfl
  · change ({ l with op1 := l.op1 ||| l.opA }, _) = _
    rw [BitVec.or_comm]
    rfl
  · change ({ l with op1 := l.op1 &&& l.opA }, _) = _
    rw [BitVec.and_comm]
    rfl
  · change ({ l with op1 := if l.opA > l.op1 then l.opA else l.op1 }, _) = _
    rw [ite_gt_eq_max]
    rfl
  · change ({ l with
        opA := signExtend l.opA
        op1 := if (signExtend l.op1).slt (signExtend l.opA) then signExtend l.opA else signExtend l.op1 }, _) = _
    rw [signExtend_eq hw, signExtend_eq hw, ite_slt_eq_max]
    rfl
  · change ({ l with op1 := if l.opA < l.op1 then l.opA else l.op1 }, _) = _
    rw [ite_lt_eq_min]
    rfl
  · change ({ l with
        opA := signExtend l.opA
        op1 := if (signExtend l.opA).slt (signExtend l.op1) then signExtend l.opA else signExtend l.op1 }, _) = _
    rw [signExtend_eq hw, signExtend_eq hw, ite_slt_eq_min]
    rfl

/-- The compare-and-swap functions of a read-write. -/
theorem executeAmo_swap (f : UInt8) (hf : 8 ≤ f.toNat ∧ f.toNat ≤ 10) :
    executeAmo ocseAmoRw f n mem addr staleA l =
      ({ l with op1 := amoResult f.toNat l.opA l.op1 l.op2 }, valueBack ocseAmoRw n) := by
  have hcode : f = amoArmwfCasU ∨ f = amoArmwfCasE ∨ f = amoArmwfCasNe := by
    simp only [← UInt8.toNat_inj, amoArmwfCasU, amoArmwfCasE, amoArmwfCasNe, UInt8.reduceToNat]
    omega
  rcases hcode with rfl | rfl | rfl <;> rfl

end Execute

/-! ### The whole operation -/

section Operation

variable (c : MemClient) {n addr : ℕ} (functionCode : UInt8) (op1 op2 : BitVec 64) (cmdEndian : UInt8)
  (stale : Stale n)

/-- The locals in front of the switch. -/
def amoLocals (mem : Buffer UInt8) (addr : ℕ) (cmdEndian : UInt8) {n : ℕ} (v w : BitVec (8 * n)) : AmoLocals n where
  opA := mem.loadWord addr n
  op1 := endianWord cmdEndian v
  op2 := endianWord cmdEndian w

/-- At an address that can be used, the operation is the switch, the stores and the reply. -/
theorem MemClient.handleDmoOps_of_operands (hvalid : c.valid addr = true) {amoOp : UInt8} {v w : BitVec (8 * n)}
    (hoperands : selectOperands amoOp n addr op1 op2 stale = some (v, w)) :
    c.handleDmoOps amoOp n addr functionCode op1 op2 cmdEndian stale =
      let r := executeAmo amoOp functionCode n c.memory addr stale.opA (amoLocals c.memory addr cmdEndian v w)
      ({ c with memory := storeAmo functionCode c.memory addr r.1 r.2 }, replyAmo (cmdEndian = 0) r.1 r.2) := by
  unfold MemClient.handleDmoOps amoLocals endianWord
  rw [if_neg (by simp [hvalid]), hoperands]
  simp only [decide_eq_true_eq]

theorem valueBack_ne (amoOp : UInt8) : valueBack amoOp n ≠ 0xf := by
  unfold valueBack
  split_ifs <;> decide

theorem replyAmo_valueBack {amoOp : UInt8} (h : amoOp ≠ ocseAmoWr) (l : AmoLocals n) :
    replyAmo (cmdEndian = 0) l (valueBack amoOp n) =
      ocseMemSuccess :: leBytes n (endianWord cmdEndian l.opA).toNat := by
  unfold replyAmo valueBack endianWord
  rw [if_neg h]
  split_ifs <;> simp_all

/-- An operation that is not the twin store stores one word. -/
theorem storeAmo_single {atomicOp wb : UInt8} (hop : atomicOp ≠ amoWCasT) (hwb : wb ≠ 0xf) (mem : Buffer UInt8)
    (l : AmoLocals n) : storeAmo atomicOp mem addr l wb = mem.storeWord addr l.op1 := by
  rw [storeAmo, if_pos hwb, if_neg hop]

theorem storeAmo_twin {wb : UInt8} (hwb : wb ≠ 0xf) (mem : Buffer UInt8) (l : AmoLocals n) :
    storeAmo amoWCasT mem addr l wb = (mem.storeWord addr l.op1).storeWord (above addr n) l.op2 := by
  rw [storeAmo, if_pos hwb, if_pos rfl]

theorem ne_amoWCasT {f : UInt8} (h : f.toNat ≤ 10) : f ≠ amoWCasT := by
  rintro rfl
  exact absurd h (by decide)

/-- Fetch-and-op, compare-and-swap and the twin store do what their function codes say, in the byte order that
is asked for, and change no other byte. -/
theorem amo_fetchAndOp (hn : n = 4 ∨ n = 8) (haligned : addr % n = 0) (hvalid : c.valid addr = true) :
    let old := c.memory.loadWord addr n
    (functionCode.toNat ≤ 10 → ∃ v w, selectOperands ocseAmoRw n addr op1 op2 stale = some (v, w) ∧
      c.handleDmoOps ocseAmoRw n addr functionCode op1 op2 cmdEndian stale =
        ({ c with
            memory := c.memory.storeWord addr
              (amoResult functionCode.toNat old (endianWord cmdEndian v) (endianWord cmdEndian w)) },
          ocseMemSuccess :: leBytes n (endianWord cmdEndian old).toNat)) ∧
    (functionCode.toNat ≤ 7 → ∃ v w, selectOperands ocseAmoWr n addr op1 op2 stale = some (v, w) ∧
      c.handleDmoOps ocseAmoWr n addr functionCode op1 op2 cmdEndian stale =
        ({ c with
            memory := c.memory.storeWord addr
              (amoResult functionCode.toNat old (endianWord cmdEndian v) (endianWord cmdEndian w)) },
          [ocseMemSuccess])) ∧
    (functionCode = amoWCasT → ∃ v w, selectOperands ocseAmoWr n addr op1 op2 stale = some (v, w) ∧
      c.handleDmoOps ocseAmoWr n addr functionCode op1 op2 cmdEndian stale =
        ({ c with
            memory := if old = c.memory.loadWord (above addr n) n
              then (c.memory.storeWord addr (endianWord cmdEndian v)).storeWord (above addr n) (endianWord cmdEndian v)
              else c.memory },
          [ocseMemSuccess])) := by
  intro old
  refine ⟨fun hf => ?_, fun hf => ?_, fun hf => ?_⟩
  · obtain ⟨v, w, hoperands⟩ := selectOperands_aligned hn haligned ocseAmoRw op1 op2 stale
    refine ⟨v, w, hoperands, ?_⟩
    have hexecute : executeAmo ocseAmoRw functionCode n c.memory addr stale.opA
        (amoLocals c.memory addr cmdEndian v w) =
          ({ amoLocals c.memory addr cmdEndian v w with
              op1 := amoResult functionCode.toNat old (endianWord cmdEndian v) (endianWord cmdEndian w) },
            valueBack ocseAmoRw n) := by
      rcases Nat.lt_or_ge 7 functionCode.toNat with hswap | hfetch
      · exact executeAmo_swap _ _ _ _ _ ⟨hswap, hf⟩
      · exact executeAmo_fetch _ _ _ _ hn _ _ hfetch
    rw [c.handleDmoOps_of_operands functionCode op1 op2 cmdEndian stale hvalid hoperands, hexecute]
    dsimp only
    rw [storeAmo_single (ne_amoWCasT hf) (valueBack_ne _), replyAmo_valueBack cmdEndian (by decide)]
    rfl
  · obtain ⟨v, w, hoperands⟩ := selectOperands_aligned hn haligned ocseAmoWr op1 op2 stale
    refine ⟨v, w, hoperands, ?_⟩
    rw [c.handleDmoOps_of_operands functionCode op1 op2 cmdEndian stale hvalid hoperands,
      executeAmo_fetch _ _ _ _ hn _ _ hf]
    dsimp only
    rw [storeAmo_single (ne_amoWCasT (by omega)) (valueBack_ne _)]
    rfl
  · subst hf
    obtain ⟨v, w, hoperands⟩ := selectOperands_aligned hn haligned ocseAmoWr op1 op2 stale
    refine ⟨v, w, hoperands, ?_⟩
    have hexecute : executeAmo ocseAmoWr amoWCasT n c.memory addr stale.opA (amoLocals c.memory addr cmdEndian v w) =
        (if old = c.memory.loadWord (above addr n) n then
          { amoLocals c.memory addr cmdEndian v w with op2 := endianWord cmdEndian v }
        else { amoLocals c.memory addr cmdEndian v w with op1 := old, op2 := c.memory.loadWord (above addr n) n },
          0) := rfl
    rw [c.handleDmoOps_of_operands amoWCasT op1 op2 cmdEndian stale hvalid hoperands, hexecute]
    dsimp only
    rw [storeAmo_twin (by decide)]
    by_cases htwin : old = c.memory.loadWord (above addr n) n
    · simp only [if_pos htwin]
      rfl
    · -- both stores put back what is there
      simp only [if_neg htwin]
      rw [Buffer.storeWord_loadWord, Buffer.storeWord_loadWord]
      rfl

end Operation

/-- The empty memory of an application. -/
def zeroClient : MemClient where
  memory := Buffer.const 0
  valid := fun _ => true

theorem amo_fetchAndOp_zero :
    ∃ v w, selectOperands ocseAmoRw 4 0x1000 7 9 ⟨0, 0, 0⟩ = some (v, w) ∧
      zeroClient.handleDmoOps ocseAmoRw 4 0x1000 amoWrmwfAdd 7 9 0 ⟨0, 0, 0⟩ =
        ({ zeroClient with
            memory := zeroClient.memory.storeWord 0x1000
              (amoResult 0 (zeroClient.memory.loadWord 0x1000 4) (endianWord 0 v) (endianWord 0 w)) },
          ocseMemSuccess :: leBytes 4 (endianWord 0 (zeroClient.memory.loadWord 0x1000 4)).toNat) :=
  (amo_fetchAndOp zeroClient amoWrmwfAdd 7 9 0 ⟨0, 0, 0⟩ (.inl rfl) rfl rfl).1 (by decide)

end Ocse
