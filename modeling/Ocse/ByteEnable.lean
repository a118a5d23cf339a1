import Ocse.ClientMemory

/-!
# Writes with a byte enable

`_handle_write_be` shifts a copy of the mask to the right and tests it with a logical and, so that a byte is
written as long as its bit or a higher one is set.
-/

namespace Ocse

variable (addr : ℕ) (data : Buffer UInt8) (be : UInt64)

/-- One turn of the loop over 64 bytes, on the memory and `be_copy`. -/
def enabledByte (s : Buffer UInt8 × UInt64) (i : ℕ) : Buffer UInt8 × UInt64 :=
  (if s.2 ≠ 0 then s.1.write (addr + i) [data i] else s.1, s.2 >>> 1)

theorem writeEnabled_eq (memory : Buffer UInt8) :
    PslClient.writeEnabled memory addr data be =
      ((List.range 64).foldl (enabledByte addr data) (memory, be)).1 := rfl

/-- After `k` turns the mask has lost `k` bits, and the first `k` bytes are written up to its highest one. -/
theorem enabledByte_upTo (memory : Buffer UInt8) (k : ℕ) :
    let s := (List.range k).foldl (enabledByte addr data) (memory, be)
    s.2.toNat = be.toNat / 2 ^ k ∧
      ∀ a, s.1 a = if addr ≤ a ∧ a < addr + k ∧ 2 ^ (a - addr) ≤ be.toNat then data (a - addr)
        else memory a := by
  induction k with
  | zero =>
      refine ⟨by simp, fun a => ?_⟩
      rw [if_neg (by omega)]
      rfl
  | succ k ih =>
      obtain ⟨hmask, hbytes⟩ := ih
      simp only [List.range_succ, List.foldl_append, List.foldl_cons, List.foldl_nil]
      generalize (List.range k).foldl (enabledByte addr data) (memory, be) = s at hmask hbytes
      have hleft : s.2 ≠ 0 ↔ 2 ^ k ≤ be.toNat := by
        rw [Ne, ← UInt64.toNat_inj, hmask]
        change ¬ be.toNat / 2 ^ k = 0 ↔ _
        rw [Nat.div_eq_zero_iff]
        have hpos : 0 < 2 ^ k := Nat.two_pow_pos k
        omega
      constructor
      · change (s.2 >>> 1).toNat = _
        rw [UInt64.toNat_shiftRight, hmask, Nat.shiftRight_eq_div_pow, Nat.div_div_eq_div_mul]
        rfl
      · intro a
        simp only [enabledByte, hleft]
        by_cases ha : a = addr + k
        · subst ha
          have hself : addr + k - addr = k := by omega
          by_cases hk : 2 ^ k ≤ be.toNat
          · rw [if_pos hk, Buffer.write_singleton, if_pos rfl, if_pos ⟨by omega, by omega, by rwa [hself]⟩, hself]
          · rw [if_neg hk, hbytes, if_neg (by omega), if_neg (by rw [hself]; omega)]
        · have hin : (addr ≤ a ∧ a < addr + (k + 1) ∧ 2 ^ (a - addr) ≤ be.toNat) ↔
              (addr ≤ a ∧ a < addr + k ∧ 2 ^ (a - addr) ≤ be.toNat) := by omega
          simp only [hin]
          rw [← hbytes a]
          split
          · rw [Buffer.write_singleton, if_neg ha]
          · rfl

/-- What the loop writes: every byte up to the highest bit of the mask. -/
theorem writeEnabled_apply (memory : Buffer UInt8) (a : ℕ) :
    PslClient.writeEnabled memory addr data be a =
      if addr ≤ a ∧ a < addr + 64 ∧ 2 ^ (a - addr) ≤ be.toNat then data (a - addr) else memory a := by
  rw [writeEnabled_eq]
  exact (enabledByte_upTo addr data be memory 64).2 a

/-- The byte at `addr + i` becomes `data[i]` where bit `i` of the mask is set, and nothing else changes. -/
def WritesEnabled (before after : Buffer UInt8) (addr : ℕ) (data : List UInt8) (be : UInt64) : Prop :=
  (∀ i < 64, after (addr + i) = if be.toNat.testBit i then data.getD i 0 else before (addr + i)) ∧
    ∀ a, a < addr ∨ addr + 64 ≤ a → after a = before a

/-- A byte under the highest bit of the mask is written whatever its own bit is, so it must hold its data
already when that bit is clear. -/
theorem handleWriteBe_writes_iff (c : PslClient) (written : Bool) (addr : ℕ) (data : List UInt8) (be : UInt64)
    (hvalid : c.valid addr = true) (hdata : data.length = 64) :
    WritesEnabled c.memory (c.handleWriteBe written addr data be.toNat).1.memory addr data be ↔
      ∀ i < 64, be.toNat.testBit i = true ∨ be.toNat < 2 ^ i ∨ c.memory (addr + i) = data.getD i 0 := by
  have hmemory : (c.handleWriteBe written addr data be.toNat).1.memory =
      PslClient.writeEnabled c.memory addr ((Buffer.const 0).write 0 data) be := by
    rw [PslClient.handleWriteBe, if_neg (by rw [hvalid]; decide), UInt64.ofNat_toNat]
  have hbyte : ∀ i < 64, (c.handleWriteBe written addr data be.toNat).1.memory (addr + i) =
      if 2 ^ i ≤ be.toNat then data.getD i 0 else c.memory (addr + i) := by
    intro i hi
    have hself : addr + i - addr = i := by omega
    have hfrom := (Buffer.const 0).write_at 0 data i (by omega)
    rw [Nat.zero_add] at hfrom
    have hget : data.getD i 0 = data.get ⟨i, by omega⟩ := by
      rw [List.getD_eq_getElem?_getD, List.getElem?_eq_getElem (by omega)]
      rfl
    rw [hmemory, writeEnabled_apply, hself, hfrom, hget]
    by_cases hle : 2 ^ i ≤ be.toNat
    · rw [if_pos ⟨by omega, by omega, hle⟩, if_pos hle]
    · rw [if_neg (by omega), if_neg hle]
  have houtside : ∀ a, a < addr ∨ addr + 64 ≤ a →
      (c.handleWriteBe written addr data be.toNat).1.memory a = c.memory a := by
    intro a ha
    rw [hmemory, writeEnabled_apply, if_neg (by omega)]
  constructor
  · rintro ⟨hin, -⟩ i hi
    cases hbit : be.toNat.testBit i with
    | true => exact .inl rfl
    | false =>
        have hsame := hin i hi
        rw [hbyte i hi, hbit] at hsame
        by_cases hle : 2 ^ i ≤ be.toNat
        · rw [if_pos hle] at hsame
          exact .inr (.inr hsame.symm)
        · exact .inr (.inl (by omega))
  · intro h
    refine ⟨fun i hi => ?_, houtside⟩
    rw [hbyte i hi]
    rcases h i hi with hset | hover | hsame
    · rw [if_pos (Nat.ge_two_pow_of_testBit hset), if_pos hset]
    · rw [if_neg (by omega), Nat.testBit_lt_two_pow hover]
      rfl
    · rw [hsame]
      split <;> split <;> rfl

/-- A client whose memory is zero everywhere and whose addresses are all valid. -/
def blankClient : PslClient where
  memory := Buffer.const 0
  valid := fun _ => true
  tracked := false

theorem handleWriteBe_writes_full :
    WritesEnabled blankClient.memory
      (blankClient.handleWriteBe true 0 (List.replicate 64 1) (0xff : UInt64).toNat).1.memory 0
      (List.replicate 64 1) 0xff :=
  (handleWriteBe_writes_iff blankClient true 0 (List.replicate 64 1) 0xff rfl rfl).mpr (by decide +kernel)

/-- Only bit 1 is set, and byte 0 is written too. -/
theorem handleWriteBe_sparse :
    ¬ WritesEnabled blankClient.memory
      (blankClient.handleWriteBe true 0 (List.replicate 64 1) (0x2 : UInt64).toNat).1.memory 0
      (List.replicate 64 1) 0x2 := by
  intro h
  have hbyte := h.1 0 (by decide)
  exact absurd hbyte (by decide +kernel)

end Ocse
