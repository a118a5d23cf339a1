import Mathlib
import Ocse.AmoOps

/-!
# Where the atomic operations go wrong

The bounded reads of `_handle_DMO_OPs` against `boundedRead`, which is what they are for, and the functions that
are not defined for a kind of operation, which go through the stores behind the switch all the same.
-/

namespace Ocse

/-! ## Words that do not meet -/

theorem above_disjoint {n addr : ℕ} (hn : n = 4 ∨ n = 8) (haddr : addr < 2 ^ 64) :
    addr + n ≤ above addr n ∨ above addr n + n ≤ addr := by
  unfold above
  rcases Nat.lt_or_ge (addr + n) (2 ^ 64) with hlow | hwrap
  · rw [Nat.mod_eq_of_lt hlow]
    exact .inl (Nat.le_refl _)
  · rw [Nat.mod_eq_sub_mod hwrap, Nat.mod_eq_of_lt (by omega)]
    omega

/-- Both stores change nothing exactly when both words were there. -/
theorem storeWord_above_eq_self_iff {n addr : ℕ} (hn : n = 4 ∨ n = 8) (haddr : addr < 2 ^ 64) (mem : Buffer UInt8)
    (v w : BitVec (8 * n)) : (mem.storeWord addr v).storeWord (above addr n) w = mem ↔
      v = mem.loadWord addr n ∧ w = mem.loadWord (above addr n) n := by
  have hapart := above_disjoint hn haddr
  constructor
  · intro h
    have hword : ((mem.storeWord addr v).storeWord (above addr n) w).loadWord addr n = v := by
      rw [Buffer.loadWord_storeWord_other _ _ _ hapart, Buffer.loadWord_storeWord_same]
    have htwin := (mem.storeWord addr v).loadWord_storeWord_same (above addr n) w
    rw [h] at hword htwin
    exact ⟨hword.symm, htwin.symm⟩
  · rintro ⟨rfl, rfl⟩
    rw [Buffer.storeWord_loadWord, Buffer.storeWord_loadWord]

theorem endianWord_endianWord {n : ℕ} (cmdEndian : UInt8) (v : BitVec (8 * n)) :
    endianWord cmdEndian (endianWord cmdEndian v) = v := by
  unfold endianWord
  split
  · rfl
  · exact byteSwap_byteSwap v

/-! ## Bounded reads -/

/-- The word that bounds the one at `addr`. -/
def boundWord (mem : Buffer UInt8) (n addr : ℕ) (functionCode : UInt8) : BitVec (8 * n) :=
  if functionCode = amoArmwfDecB then mem.loadWord (below addr n) n else mem.loadWord (above addr n) n

/-- The condition under which a bounded read counts. -/
def BoundedMoves (mem : Buffer UInt8) (n addr : ℕ) (functionCode : UInt8) : Prop :=
  if functionCode = amoArmwfIncE then mem.loadWord addr n = boundWord mem n addr functionCode
  else mem.loadWord addr n ≠ boundWord mem n addr functionCode

instance (mem : Buffer UInt8) (n addr : ℕ) (functionCode : UInt8) :
    Decidable (BoundedMoves mem n addr functionCode) := by
  unfold BoundedMoves
  infer_instance

/-- Fetch and increment bounded, increment equal and decrement bounded, as they are meant. -/
def MemClient.boundedRead (c : MemClient) (n addr : ℕ) (functionCode cmdEndian : UInt8) : MemClient × List UInt8 :=
  let m := c.memory.loadWord addr n
  if BoundedMoves c.memory n addr functionCode then
    let next := if functionCode = amoArmwfDecB then m - 1 else m + 1
    ({ c with memory := c.memory.storeWord addr next },
      ocseMemSuccess :: leBytes n (endianWord cmdEndian m).toNat)
  else (c, ocseMemSuccess :: leBytes n (endianWord cmdEndian (minInt (8 * n))).toNat)

theorem selectOperands_read {n addr : ℕ} (hn : n = 4 ∨ n = 8) (hplace : ¬(n = 8 ∧ addr / 4 % 2 = 1))
    (op1 op2 : BitVec 64) (stale : Stale n) :
    selectOperands ocseAmoRd n addr op1 op2 stale = some (stale.op1, stale.op2) := by
  have hsome := mt (selectOperands_eq_none_iff hn ocseAmoRd addr op1 op2 stale).mp hplace
  unfold selectOperands at hsome ⊢
  grind

section Bounded

variable (c : MemClient) {n addr : ℕ} (op1 op2 : BitVec 64) (cmdEndian : UInt8) (stale : Stale n)

/-- The bounded reads leave the bound word alone, as they are meant. -/
theorem loadWord_above_boundedRead (hn : n = 4 ∨ n = 8) (haddr : addr < 2 ^ 64) (functionCode : UInt8) :
    (c.boundedRead n addr functionCode cmdEndian).1.memory.loadWord (above addr n) n =
      c.memory.loadWord (above addr n) n := by
  unfold MemClient.boundedRead
  dsimp only
  split
  · exact Buffer.loadWord_storeWord_other _ _ _ (above_disjoint hn haddr).symm
  · rfl

/-- Decrement and increment equal, with `step` for the word that is stored when the condition holds. -/
theorem handleDmoOps_bounded (hn : n = 4 ∨ n = 8) (hplace : ¬(n = 8 ∧ addr / 4 % 2 = 1))
    (hvalid : c.valid addr = true) {f : UInt8} (hf : f ≠ amoWCasT) {step : BitVec (8 * n)}
    (hexecute : ∀ l : AmoLocals n, l.opA = c.memory.loadWord addr n →
      executeAmo ocseAmoRd f n c.memory addr stale.opA l =
        (if BoundedMoves c.memory n addr f then { l with op1 := step }
          else { l with op1 := l.opA, opA := minInt (8 * n) }, valueBack ocseAmoRd n)) :
    c.handleDmoOps ocseAmoRd n addr f op1 op2 cmdEndian stale =
      if BoundedMoves c.memory n addr f then
        ({ c with memory := c.memory.storeWord addr step },
          ocseMemSuccess :: leBytes n (endianWord cmdEndian (c.memory.loadWord addr n)).toNat)
      else (c, ocseMemSuccess :: leBytes n (endianWord cmdEndian (minInt (8 * n))).toNat) := by
  have hoperands := selectOperands_read hn hplace op1 op2 stale
  have hlocals := hexecute (amoLocals c.memory addr cmdEndian stale.op1 stale.op2) rfl
  rw [c.handleDmoOps_of_operands _ _ _ _ _ hvalid hoperands, hlocals]
  dsimp only
  rw [storeAmo_single hf (valueBack_ne _), replyAmo_valueBack cmdEndian (by decide)]
  split
  · rfl
  · -- the word that was there is stored once more
    change ({ c with memory := c.memory.storeWord addr (c.memory.loadWord addr n) }, _) = _
    rw [Buffer.storeWord_loadWord]

theorem handleDmoOps_decB (hn : n = 4 ∨ n = 8) (hplace : ¬(n = 8 ∧ addr / 4 % 2 = 1))
    (hvalid : c.valid addr = true) :
    c.handleDmoOps ocseAmoRd n addr amoArmwfDecB op1 op2 cmdEndian stale =
      c.boundedRead n addr amoArmwfDecB cmdEndian := by
  refine handleDmoOps_bounded c op1 op2 cmdEndian stale hn hplace hvalid (by decide) ?_
  intro l hl
  rw [← hl]
  have hmoves : l.opA ≠ c.memory.loadWord (below addr n) n ↔ BoundedMoves c.memory n addr amoArmwfDecB := by
    rw [hl]
    exact Iff.rfl
  exact Prod.ext (if_congr hmoves rfl rfl) rfl

/-- The word that an increment equal stores when the condition holds. -/
def incEqual (n : ℕ) (opA : BitVec (8 * n)) (staleA : BitVec 32) : BitVec (8 * n) :=
  if n = 4 then opA + 1 else (staleA + 1).setWidth (8 * n)

theorem handleDmoOps_incE (hn : n = 4 ∨ n = 8) (hplace : ¬(n = 8 ∧ addr / 4 % 2 = 1))
    (hvalid : c.valid addr = true) :
    c.handleDmoOps ocseAmoRd n addr amoArmwfIncE op1 op2 cmdEndian stale =
      if BoundedMoves c.memory n addr amoArmwfIncE then
        ({ c with memory := c.memory.storeWord addr (incEqual n (c.memory.loadWord addr n) stale.opA) },
          ocseMemSuccess :: leBytes n (endianWord cmdEndian (c.memory.loadWord addr n)).toNat)
      else (c, ocseMemSuccess :: leBytes n (endianWord cmdEndian (minInt (8 * n))).toNat) := by
  refine handleDmoOps_bounded c op1 op2 cmdEndian stale hn hplace hvalid (by decide) ?_
  intro l hl
  rw [← hl]
  have hmoves : l.opA = c.memory.loadWord (above addr n) n ↔ BoundedMoves c.memory n addr amoArmwfIncE := by
    rw [hl]
    exact Iff.rfl
  exact Prod.ext (if_congr hmoves rfl rfl) rfl

/-- The second store of an increment bounded puts an operand over the bound word. -/
theorem loadWord_above_incB (hn : n = 4 ∨ n = 8) (hplace : ¬(n = 8 ∧ addr / 4 % 2 = 1))
    (hvalid : c.valid addr = true) :
    (c.handleDmoOps ocseAmoRd n addr amoArmwfIncB op1 op2 cmdEndian stale).1.memory.loadWord (above addr n) n =
      endianWord cmdEndian stale.op2 := by
  have hoperands := selectOperands_read hn hplace op1 op2 stale
  have hexecute (l : AmoLocals n) : executeAmo ocseAmoRd amoArmwfIncB n c.memory addr stale.opA l =
      (if l.opA ≠ c.memory.loadWord (above addr n) n then { l with op1 := l.opA + 1 }
        else { l with op1 := l.opA, opA := minInt (8 * n) }, valueBack ocseAmoRd n) := rfl
  rw [c.handleDmoOps_of_operands _ _ _ _ _ hvalid hoperands, hexecute]
  dsimp only
  rw [show amoArmwfIncB = amoWCasT from rfl, storeAmo_twin (valueBack_ne _), Buffer.loadWord_storeWord_same]
  split <;> rfl

/-- The bounded reads do what they are meant to do, whatever the locals held, exactly for a decrement and for an
increment equal that stays in the word it counts. -/
theorem boundedRead_iff (hn : n = 4 ∨ n = 8) (haddr : addr < 2 ^ 64) (haligned : addr % n = 0)
    (hvalid : c.valid addr = true) (functionCode : UInt8)
    (hf : functionCode = amoArmwfIncB ∨ functionCode = amoArmwfIncE ∨ functionCode = amoArmwfDecB) :
    (∀ stale : Stale n, c.handleDmoOps ocseAmoRd n addr functionCode op1 op2 cmdEndian stale =
      c.boundedRead n addr functionCode cmdEndian) ↔
      functionCode = amoArmwfDecB ∨ functionCode = amoArmwfIncE ∧
        (n = 4 ∨ c.memory.loadWord addr n ≠ c.memory.loadWord (above addr n) n) := by
  have hw : 0 < 8 * n := by omega
  have hplace : ¬(n = 8 ∧ addr / 4 % 2 = 1) := by
    rintro ⟨rfl, hodd⟩
    omega
  rcases hf with rfl | rfl | rfl
  · -- the bound word takes any value
    constructor
    · intro h
      have hbound := loadWord_above_incB c op1 op2 cmdEndian
        ⟨0, endianWord cmdEndian (c.memory.loadWord (above addr n) n + 1), 0⟩ hn hplace hvalid
      rw [h, loadWord_above_boundedRead c cmdEndian hn haddr, endianWord_endianWord] at hbound
      exact absurd hbound.symm (add_one_ne hw _)
    · rintro (h | ⟨h, -⟩)
      · exact absurd h (by decide)
      · exact absurd h (by decide)
  · by_cases hmoves : BoundedMoves c.memory n addr amoArmwfIncE
    · have hbound : c.memory.loadWord addr n = c.memory.loadWord (above addr n) n := hmoves
      constructor
      · intro h
        refine .inr ⟨rfl, .inl ?_⟩
        by_contra hfour
        -- the four-byte local is one of two words, and the incremented word is not both
        have hstored (staleA : BitVec 32) :
            (staleA + 1).setWidth (8 * n) = c.memory.loadWord addr n + 1 := by
          have hmem := congrArg (fun r => r.1.memory.loadWord addr n) (h ⟨0, 0, staleA⟩)
          rw [handleDmoOps_incE c op1 op2 cmdEndian _ hn hplace hvalid, if_pos hmoves, MemClient.boundedRead,
            if_pos hmoves] at hmem
          simp only [Buffer.loadWord_storeWord_same, incEqual, if_neg hfour] at hmem
          exact hmem
        have hsame := (hstored 0).trans (hstored 1).symm
        obtain rfl : n = 8 := by omega
        exact absurd hsame (by decide)
      · rintro (h | ⟨-, rfl | h⟩) stale
        · exact absurd h (by decide)
        · rw [handleDmoOps_incE c op1 op2 cmdEndian stale hn hplace hvalid]
          rfl
        · exact absurd hbound h
    · have hstays : c.memory.loadWord addr n ≠ c.memory.loadWord (above addr n) n := hmoves
      constructor
      · intro _
        exact .inr ⟨rfl, .inr hstays⟩
      · intro _ stale
        rw [handleDmoOps_incE c op1 op2 cmdEndian stale hn hplace hvalid, if_neg hmoves, MemClient.boundedRead,
          if_neg hmoves]
  · constructor
    · intro _
      exact .inl rfl
    · intro _ stale
      exact handleDmoOps_decB c op1 op2 cmdEndian stale hn hplace hvalid

end Bounded

theorem boundedRead_iff_decB :
    (∀ stale : Stale 4, zeroClient.handleDmoOps ocseAmoRd 4 0x1000 amoArmwfDecB 0 0 0 stale =
      zeroClient.boundedRead 4 0x1000 amoArmwfDecB 0) ↔
      amoArmwfDecB = amoArmwfDecB ∨ amoArmwfDecB = amoArmwfIncE ∧
        (4 = 4 ∨ zeroClient.memory.loadWord 0x1000 4 ≠ zeroClient.memory.loadWord (above 0x1000 4) 4) :=
  boundedRead_iff zeroClient 0 0 0 (.inl rfl) (by decide) rfl rfl amoArmwfDecB (.inr (.inr rfl))

/-- An increment bounded at its bound, which changes the bound word. -/
theorem boundedRead_incB_bound :
    (zeroClient.handleDmoOps ocseAmoRd 4 0x1000 amoArmwfIncB 0 0 0 ⟨0, 1, 0⟩).1.memory 0x1004 = 1 ∧
      (zeroClient.boundedRead 4 0x1000 amoArmwfIncB 0).1.memory 0x1004 = 0 ∧
      zeroClient.handleDmoOps ocseAmoRd 4 0x1000 amoArmwfIncB 0 0 0 ⟨0, 1, 0⟩ ≠
        zeroClient.boundedRead 4 0x1000 amoArmwfIncB 0 := by
  have hcode : (zeroClient.handleDmoOps ocseAmoRd 4 0x1000 amoArmwfIncB 0 0 0 ⟨0, 1, 0⟩).1.memory 0x1004 = 1 := by
    decide +kernel
  have hmeant : (zeroClient.boundedRead 4 0x1000 amoArmwfIncB 0).1.memory 0x1004 = 0 := by
    decide +kernel
  refine ⟨hcode, hmeant, fun h => ?_⟩
  rw [h, hmeant] at hcode
  exact absurd hcode (by decide)

/-! ## Functions that are not defined -/

/-- The code reports the function as unsupported. -/
def Unsupported (functionCode : UInt8) : Prop := functionCode = 0xb ∨ 0xf ≤ functionCode.toNat

/-- A function that is not defined for a kind of operation. -/
def IllegalAmo (amoOp functionCode : UInt8) : Prop :=
  Unsupported functionCode ∨
  amoOp = ocseAmoWr ∧ functionCode ∈ [amoArmwfCasU, amoArmwfCasE, amoArmwfCasNe, amoArmwfIncE, amoArmwfDecB] ∨
  amoOp = ocseAmoRw ∧ functionCode ∈ [amoArmwfIncB, amoArmwfIncE, amoArmwfDecB] ∨
  amoOp = ocseAmoRd ∧ functionCode.toNat ≤ 10

/-- The word that a fetch-and-op function cannot change, whatever the operand. -/
def absorbing (w functionCode : ℕ) : Option (BitVec w) :=
  match functionCode with
  | 2 => some (BitVec.allOnes w)
  | 3 => some 0
  | 4 => some (BitVec.allOnes w)
  | 5 => some (BitVec.intMax w)
  | 6 => some 0
  | 7 => some (BitVec.intMin w)
  | _ => none

section Absorb

variable {α β : Type} [LinearOrder α] {enc : α → β} {dec : β → α}

theorem enc_max_eq_iff (hround : ∀ x, enc (dec x) = x) (old s : β) :
    enc (max (dec old) (dec s)) = old ↔ dec s ≤ dec old := by
  constructor
  · intro h
    by_contra hlt
    rw [max_eq_right (le_of_not_ge hlt), hround] at h
    exact hlt (le_of_eq (congrArg dec h))
  · intro hle
    rw [max_eq_left hle, hround]

theorem enc_min_eq_iff (hround : ∀ x, enc (dec x) = x) (old s : β) :
    enc (min (dec old) (dec s)) = old ↔ dec old ≤ dec s := by
  constructor
  · intro h
    by_contra hlt
    rw [min_eq_right (le_of_not_ge hlt), hround] at h
    exact hlt (le_of_eq (congrArg dec h).symm)
  · intro hle
    rw [min_eq_left hle, hround]

variable {w : ℕ}

theorem ofNat_toNat_self (x : BitVec w) : BitVec.ofNat w x.toNat = x := by
  rw [BitVec.ofNat_toNat, BitVec.setWidth_eq]

/-- The function changes the word for some operand, unless the word is the absorbing one. -/
theorem amoResult_absorbs_iff (hw : 0 < w) {f : ℕ} (hf : f ≤ 7) (old : BitVec w) :
    (∀ s t, amoResult f old s t = old) ↔ absorbing w f = some old := by
  have hcode : f = 0 ∨ f = 1 ∨ f = 2 ∨ f = 3 ∨ f = 4 ∨ f = 5 ∨ f = 6 ∨ f = 7 := by omega
  rcases hcode with rfl | rfl | rfl | rfl | rfl | rfl | rfl | rfl
  · simp only [absorbing, reduceCtorEq, iff_false]
    intro h
    have hone := h 1 0
    simp only [amoResult, BitVec.ofNat_add, ofNat_toNat_self] at hone
    exact add_one_ne hw old hone
  · simp only [absorbing, reduceCtorEq, iff_false]
    intro h
    have hzero : old ^^^ 1 = old ^^^ 0 := (h 1 0).trans BitVec.xor_zero.symm
    have hone : (1 : BitVec w) = 0 := (BitVec.xor_right_inj old).mp hzero
    have hnext := add_one_ne hw (0 : BitVec w)
    rw [hone] at hnext
    exact hnext (BitVec.add_zero 0)
  · simp only [absorbing, Option.some.injEq]
    constructor
    · intro h
      have hones : old ||| BitVec.allOnes w = old := h (BitVec.allOnes w) 0
      rw [BitVec.or_allOnes] at hones
      exact hones
    · rintro rfl s t
      exact BitVec.allOnes_or
  · simp only [absorbing, Option.some.injEq]
    constructor
    · intro h
      have hzero : old &&& 0 = old := h 0 0
      rw [← hzero]
      exact BitVec.and_zero.symm
    · rintro rfl s t
      exact BitVec.zero_and
  · simp only [absorbing, Option.some.injEq, amoResult, enc_max_eq_iff ofNat_toNat_self]
    constructor
    · intro h
      exact (BitVec.allOnes_le_iff.mp (h (BitVec.allOnes w) 0)).symm
    · rintro rfl s t
      rw [BitVec.toNat_allOnes]
      have hlt := s.isLt
      omega
  · simp only [absorbing, Option.some.injEq, amoResult, enc_max_eq_iff (fun x => BitVec.ofInt_toInt)]
    have hmax : ∀ s : BitVec w, s.toInt ≤ (BitVec.intMax w).toInt := by
      intro s
      rw [BitVec.toInt_intMax]
      exact BitVec.toInt_le
    constructor
    · intro h
      exact BitVec.eq_of_toInt_eq (Int.le_antisymm (h (BitVec.intMax w) 0) (hmax old))
    · rintro rfl s t
      exact hmax s
  · simp only [absorbing, Option.some.injEq, amoResult, enc_min_eq_iff ofNat_toNat_self]
    constructor
    · intro h
      exact (BitVec.eq_of_toNat_eq (Nat.le_antisymm (h 0 0) (Nat.zero_le _))).symm
    · rintro rfl s t
      exact Nat.zero_le _
  · simp only [absorbing, Option.some.injEq, amoResult, enc_min_eq_iff (fun x => BitVec.ofInt_toInt)]
    constructor
    · intro h
      exact BitVec.eq_of_toInt_eq (Int.le_antisymm (BitVec.toInt_intMin_le old) (h (BitVec.intMin w) 0))
    · rintro rfl s t
      exact BitVec.toInt_intMin_le s

end Absorb

section Illegal

variable {n : ℕ} (mem : Buffer UInt8) (addr : ℕ) (staleA : BitVec 32) (l : AmoLocals n)

theorem executeAmo_unsupported (amoOp : UInt8) {f : UInt8} (hf : Unsupported f) :
    executeAmo amoOp f n mem addr staleA l = (l, 0xf) := by
  have hne : ∀ g ∈ [amoWrmwfAdd, amoWrmwfXor, amoWrmwfOr, amoWrmwfAnd, amoWrmwfCasMaxU, amoWrmwfCasMaxS,
      amoWrmwfCasMinU, amoWrmwfCasMinS, amoArmwfCasU, amoArmwfCasE, amoArmwfCasNe, amoArmwfIncB, amoArmwfIncE,
      amoArmwfDecB], f ≠ g := by
    have hknown : ∀ g ∈ [amoWrmwfAdd, amoWrmwfXor, amoWrmwfOr, amoWrmwfAnd, amoWrmwfCasMaxU, amoWrmwfCasMaxS,
        amoWrmwfCasMinU, amoWrmwfCasMinS, amoArmwfCasU, amoArmwfCasE, amoArmwfCasNe, amoArmwfIncB, amoArmwfIncE,
        amoArmwfDecB], g ≠ 0xb ∧ g.toNat < 0xf := by decide +kernel
    rintro g hg rfl
    obtain ⟨hb, hlt⟩ := hknown f hg
    rcases hf with hf | hf
    · exact hb hf
    · omega
  simp only [List.forall_mem_cons] at hne
  simp only [executeAmo, if_neg, hne, not_false_eq_true]

/-- A function that the code calls a NOP leaves the locals as they are, with the `wb` of a success. -/
theorem executeAmo_nop {amoOp f : UInt8} (hillegal : IllegalAmo amoOp f) (hsupported : ¬Unsupported f)
    (hfetch : ¬(amoOp = ocseAmoRd ∧ f.toNat ≤ 7)) : executeAmo amoOp f n mem addr staleA l = (l, 0) := by
  rcases hillegal with h | ⟨rfl, h⟩ | ⟨rfl, h⟩ | ⟨rfl, h⟩
  · exact absurd h hsupported
  · simp only [List.mem_cons, List.not_mem_nil, or_false] at h
    rcases h with rfl | rfl | rfl | rfl | rfl <;> rfl
  · simp only [List.mem_cons, List.not_mem_nil, or_false] at h
    rcases h with rfl | rfl | rfl <;> rfl
  · have hcode : f = amoArmwfCasU ∨ f = amoArmwfCasE ∨ f = amoArmwfCasNe := by
      have hlow : ¬f.toNat ≤ 7 := fun hle => hfetch ⟨rfl, hle⟩
      simp only [← UInt8.toNat_inj, amoArmwfCasU, amoArmwfCasE, amoArmwfCasNe, UInt8.reduceToNat]
      omega
    rcases hcode with rfl | rfl | rfl <;> rfl

/-- What is stored behind a NOP: the words that the operands left. -/
theorem storeAmo_nop_eq_self_iff (hn : n = 4 ∨ n = 8) (haddr : addr < 2 ^ 64) (f : UInt8) :
    storeAmo f mem addr l 0 = mem ↔
      l.op1 = mem.loadWord addr n ∧ (f = amoWCasT → l.op2 = mem.loadWord (above addr n) n) := by
  by_cases htwin : f = amoWCasT
  · subst htwin
    rw [storeAmo_twin (by decide), storeWord_above_eq_self_iff hn haddr]
    simp only [forall_const]
  · rw [storeAmo_single htwin (by decide), Buffer.storeWord_eq_self_iff]
    simp only [htwin, false_implies, and_true, eq_comm]

end Illegal

section IllegalOperation

variable (c : MemClient) {n addr : ℕ} (op1 op2 : BitVec 64) (cmdEndian : UInt8)

theorem not_unsupported {f : UInt8} (hf : f.toNat ≤ 10) : ¬Unsupported f := by
  rintro (rfl | hge)
  · exact absurd hf (by decide)
  · omega

theorem absorbing_eq_none {w f : ℕ} (hf : 7 < f) : absorbing w f = none := by
  unfold absorbing
  split <;> first | omega | rfl

/-- An illegal read stores what the locals held. -/
theorem illegalRead_unchanged_iff (hn : n = 4 ∨ n = 8) (haddr : addr < 2 ^ 64) (hvalid : c.valid addr = true)
    (hplace : ¬(n = 8 ∧ addr / 4 % 2 = 1)) {f : UInt8} (hf : f.toNat ≤ 10) :
    (∀ stale : Stale n, (c.handleDmoOps ocseAmoRd n addr f op1 op2 cmdEndian stale).1.memory = c.memory) ↔
      absorbing (8 * n) f.toNat = some (c.memory.loadWord addr n) := by
  have hw : 0 < 8 * n := by omega
  rcases Nat.lt_or_ge 7 f.toNat with hswap | hfetch
  · rw [absorbing_eq_none hswap]
    simp only [reduceCtorEq, iff_false]
    intro h
    have hstale := h ⟨endianWord cmdEndian (c.memory.loadWord addr n + 1), 0, 0⟩
    rw [c.handleDmoOps_of_operands _ _ _ _ _ hvalid (selectOperands_read hn hplace op1 op2 _),
      executeAmo_nop _ _ _ _ (.inr (.inr (.inr ⟨rfl, hf⟩))) (not_unsupported hf)
        (fun hlow => absurd hlow.2 (by omega))] at hstale
    have hword := ((storeAmo_nop_eq_self_iff _ _ _ hn haddr f).mp hstale).1
    exact add_one_ne hw _ ((endianWord_endianWord cmdEndian _).symm.trans hword)
  · rw [← amoResult_absorbs_iff hw hfetch]
    have hmemory (stale : Stale n) :
        (c.handleDmoOps ocseAmoRd n addr f op1 op2 cmdEndian stale).1.memory =
          c.memory.storeWord addr (amoResult f.toNat (c.memory.loadWord addr n) (endianWord cmdEndian stale.op1)
            (endianWord cmdEndian stale.op2)) := by
      rw [c.handleDmoOps_of_operands _ _ _ _ _ hvalid (selectOperands_read hn hplace op1 op2 _),
        executeAmo_fetch _ _ _ _ hn _ _ hfetch]
      dsimp only
      rw [storeAmo_single (ne_amoWCasT hf) (valueBack_ne _)]
      rfl
    constructor
    · intro h s t
      have hstale := h ⟨endianWord cmdEndian s, endianWord cmdEndian t, 0⟩
      rw [hmemory, Buffer.storeWord_eq_self_iff, endianWord_endianWord, endianWord_endianWord] at hstale
      exact hstale.symm
    · intro h stale
      rw [hmemory, h, Buffer.storeWord_loadWord]

/-- A function that is not defined for its kind of operation leaves memory alone exactly when nothing is reached
that stores, or when the words that the NOP stores are those that are there. -/
theorem illegalAmo_unchanged_iff (hn : n = 4 ∨ n = 8) (haddr : addr < 2 ^ 64) {amoOp f : UInt8}
    (hkind : amoOp = ocseAmoWr ∨ amoOp = ocseAmoRw ∨ amoOp = ocseAmoRd) (hillegal : IllegalAmo amoOp f) :
    (∀ stale : Stale n, (c.handleDmoOps amoOp n addr f op1 op2 cmdEndian stale).1.memory = c.memory) ↔
      c.valid addr = false ∨ n = 8 ∧ addr / 4 % 2 = 1 ∨ Unsupported f ∨
      amoOp = ocseAmoRd ∧ absorbing (8 * n) f.toNat = some (c.memory.loadWord addr n) ∨
      amoOp ≠ ocseAmoRd ∧ ∀ stale v w, selectOperands amoOp n addr op1 op2 stale = some (v, w) →
        endianWord cmdEndian v = c.memory.loadWord addr n ∧
        (f = amoWCasT → endianWord cmdEndian w = c.memory.loadWord (above addr n) n) := by
  by_cases hvalid : c.valid addr = false
  · simp only [hvalid, true_or, iff_true]
    intro stale
    rw [MemClient.handleDmoOps, if_pos hvalid]
  have husable : c.valid addr = true := by simpa using hvalid
  by_cases hplace : n = 8 ∧ addr / 4 % 2 = 1
  · simp only [hplace, true_and, true_or, or_true, iff_true]
    intro stale
    rw [MemClient.handleDmoOps, if_neg hvalid, (selectOperands_eq_none_iff hn amoOp addr op1 op2 stale).mpr hplace]
  by_cases hsupported : Unsupported f
  · simp only [hsupported, true_or, or_true, iff_true]
    intro stale
    obtain ⟨v, w, hoperands⟩ := selectOperands_some hn hplace amoOp op1 op2 stale
    rw [c.handleDmoOps_of_operands _ _ _ _ _ husable hoperands, executeAmo_unsupported _ _ _ _ _ hsupported]
    rfl
  simp only [husable, Bool.true_eq_false, hplace, hsupported, false_or]
  by_cases hread : amoOp = ocseAmoRd
  · subst hread
    have hf : f.toNat ≤ 10 := by
      rcases hillegal with h | ⟨h, -⟩ | ⟨h, -⟩ | ⟨-, h⟩
      · exact absurd h hsupported
      · exact absurd h (by decide)
      · exact absurd h (by decide)
      · exact h
    rw [illegalRead_unchanged_iff c op1 op2 cmdEndian hn haddr husable hplace hf]
    simp only [true_and, ne_eq, not_true_eq_false, false_and, or_false]
  · have hmemory {stale : Stale n} {v w : BitVec (8 * n)}
        (hoperands : selectOperands amoOp n addr op1 op2 stale = some (v, w)) :
        (c.handleDmoOps amoOp n addr f op1 op2 cmdEndian stale).1.memory = c.memory ↔
          endianWord cmdEndian v = c.memory.loadWord addr n ∧
          (f = amoWCasT → endianWord cmdEndian w = c.memory.loadWord (above addr n) n) := by
      rw [c.handleDmoOps_of_operands _ _ _ _ _ husable hoperands,
        executeAmo_nop _ _ _ _ hillegal hsupported (fun h => hread h.1)]
      exact storeAmo_nop_eq_self_iff _ _ _ hn haddr f
    simp only [hread, false_and, false_or, ne_eq, not_false_eq_true, true_and]
    constructor
    · intro h stale v w hoperands
      exact (hmemory hoperands).mp (h stale)
    · intro h stale
      obtain ⟨v, w, hoperands⟩ := selectOperands_some hn hplace amoOp op1 op2 stale
      exact (hmemory hoperands).mpr (h stale v w hoperands)

end IllegalOperation

theorem illegalAmo_unchanged_iff_casU :
    (∀ stale : Stale 4,
      (zeroClient.handleDmoOps ocseAmoWr 4 0x1000 amoArmwfCasU 0 0 0 stale).1.memory = zeroClient.memory) ↔
      zeroClient.valid 0x1000 = false ∨ 4 = 8 ∧ 0x1000 / 4 % 2 = 1 ∨ Unsupported amoArmwfCasU ∨
      ocseAmoWr = ocseAmoRd ∧
        absorbing (8 * 4) amoArmwfCasU.toNat = some (zeroClient.memory.loadWord 0x1000 4) ∨
      ocseAmoWr ≠ ocseAmoRd ∧ ∀ stale v w, selectOperands ocseAmoWr 4 0x1000 0 0 stale = some (v, w) →
        endianWord 0 v = zeroClient.memory.loadWord 0x1000 4 ∧
        (amoArmwfCasU = amoWCasT → endianWord 0 w = zeroClient.memory.loadWord (above 0x1000 4) 4) :=
  illegalAmo_unchanged_iff zeroClient 0 0 0 (.inl rfl) (by decide) (.inl rfl) (.inr (.inl ⟨rfl, by decide⟩))

/-- A write with the function code of an unconditional swap, which is called a NOP and stores its operand. -/
theorem illegalAmo_casU_stores :
    IllegalAmo ocseAmoWr amoArmwfCasU ∧
      (zeroClient.handleDmoOps ocseAmoWr 4 0x1000 amoArmwfCasU 7 0 0 ⟨0, 0, 0⟩).1.memory 0x1000 = 7 ∧
      (zeroClient.handleDmoOps ocseAmoWr 4 0x1000 amoArmwfCasU 7 0 0 ⟨0, 0, 0⟩).1.memory ≠ zeroClient.memory := by
  have hstored :
      (zeroClient.handleDmoOps ocseAmoWr 4 0x1000 amoArmwfCasU 7 0 0 ⟨0, 0, 0⟩).1.memory 0x1000 = 7 := by
    decide +kernel
  refine ⟨.inr (.inl ⟨rfl, by decide⟩), hstored, fun h => ?_⟩
  rw [h] at hstored
  exact absurd hstored (by decide)

end Ocse
