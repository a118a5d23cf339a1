import Ocse.Lib.BigEndian

/-!
# Words in a byte memory

A word of `n` bytes is a bit vector of `8 * n` bits; `loadWord` and `storeWord` are the loads and stores of a
little-endian machine, and `byteSwap` is `htonl` and `ntohl` on it, for any number of bytes.
-/

namespace Buffer

variable {n : ℕ}

def loadWord (b : Buffer UInt8) (pos n : ℕ) : BitVec (8 * n) := BitVec.ofNat (8 * n) (loadLE b pos n)

def storeWord (b : Buffer UInt8) (pos : ℕ) (v : BitVec (8 * n)) : Buffer UInt8 := b.write pos (leBytes n v.toNat)

end Buffer

/-- The word whose bytes stand in the other order. -/
def byteSwap {n : ℕ} (v : BitVec (8 * n)) : BitVec (8 * n) :=
  ((Buffer.const 0).write 0 (beBytes n v.toNat)).loadWord 0 n

theorem two_pow_bytes (n : ℕ) : 2 ^ (8 * n) = 256 ^ n := by
  rw [Nat.pow_mul]

namespace Buffer

variable {n : ℕ} (b : Buffer UInt8) (pos : ℕ)

theorem toNat_loadWord (n : ℕ) : (b.loadWord pos n).toNat = loadLE b pos n := by
  have hlt := loadLE_lt b pos n
  rw [← two_pow_bytes] at hlt
  rw [loadWord, BitVec.toNat_ofNat, Nat.mod_eq_of_lt hlt]

/-- A piece of a word is the word at that place. -/
theorem extractLsb'_loadWord {k m : ℕ} (h : k + n ≤ m) :
    (b.loadWord pos m).extractLsb' (8 * k) (8 * n) = b.loadWord (pos + k) n := by
  obtain ⟨r, rfl⟩ := Nat.exists_eq_add_of_le h
  apply BitVec.eq_of_toNat_eq
  rw [BitVec.extractLsb'_toNat, toNat_loadWord, toNat_loadWord, Nat.shiftRight_eq_div_pow, two_pow_bytes,
    two_pow_bytes, Nat.add_assoc, loadLE_add, loadLE_add]
  have hlow : loadLE b pos k / 256 ^ k = 0 := Nat.div_eq_of_lt (loadLE_lt b pos k)
  have hpos : 0 < 256 ^ k := Nat.pow_pos (by decide)
  rw [Nat.add_mul_div_left _ _ hpos, hlow, Nat.zero_add, Nat.add_mul_mod_self_left,
    Nat.mod_eq_of_lt (loadLE_lt b (pos + k) n)]

/-- The bytes of a word that was loaded are the bytes that were there. -/
theorem leBytes_loadWord (n : ℕ) : leBytes n (b.loadWord pos n).toNat = b.read pos n := by
  have hbytes := leBytes_loadLE b pos n 0
  rw [Nat.add_zero] at hbytes
  rw [toNat_loadWord, hbytes]

theorem loadWord_storeWord_same (v : BitVec (8 * n)) : (b.storeWord pos v).loadWord pos n = v := by
  have hlt := v.isLt
  rw [two_pow_bytes] at hlt
  rw [loadWord, storeWord, loadLE_write_same b pos hlt, BitVec.ofNat_toNat, BitVec.setWidth_eq]

theorem loadWord_storeWord_other {pos' m : ℕ} (v : BitVec (8 * n)) (h : pos' + m ≤ pos ∨ pos + n ≤ pos') :
    (b.storeWord pos v).loadWord pos' m = b.loadWord pos' m := by
  rw [loadWord, storeWord, loadLE_write_other b (by rw [length_leBytes]; exact h), loadWord]

theorem storeWord_of_lt (v : BitVec (8 * n)) {i : ℕ} (h : i < pos) : b.storeWord pos v i = b i :=
  b.write_of_lt pos _ i h

theorem storeWord_of_ge (v : BitVec (8 * n)) {i : ℕ} (h : pos + n ≤ i) : b.storeWord pos v i = b i :=
  b.write_of_ge pos _ i (by rw [length_leBytes]; exact h)

/-- Storing the word that is there changes nothing. -/
theorem storeWord_loadWord (n : ℕ) : b.storeWord pos (b.loadWord pos n) = b := by
  funext i
  by_cases hlt : i < pos
  · exact b.storeWord_of_lt pos _ hlt
  by_cases hge : pos + n ≤ i
  · exact b.storeWord_of_ge pos _ hge
  · obtain ⟨k, rfl⟩ := Nat.exists_eq_add_of_le (Nat.le_of_not_lt hlt)
    have hk : k < (b.read pos n).length := by
      rw [length_read]
      omega
    rw [storeWord, leBytes_loadWord, b.write_at pos _ k hk, b.get_read pos n k hk]

theorem storeWord_eq_self_iff (v : BitVec (8 * n)) : b.storeWord pos v = b ↔ b.loadWord pos n = v := by
  constructor
  · intro h
    rw [← h]
    exact b.loadWord_storeWord_same pos v
  · rintro rfl
    exact b.storeWord_loadWord pos n

end Buffer

/-! ## The other byte order -/

section Swap

variable {n : ℕ}

theorem leBytes_byteSwap (v : BitVec (8 * n)) : leBytes n (byteSwap v).toNat = beBytes n v.toNat := by
  have hread := Buffer.read_eq_of_holds (Buffer.holds_write (Buffer.const 0) 0 (beBytes n v.toNat))
  rw [length_beBytes] at hread
  rw [byteSwap, Buffer.leBytes_loadWord, hread]

/-- A word is known by its bytes. -/
theorem word_ext {v w : BitVec (8 * n)} (h : leBytes n v.toNat = leBytes n w.toNat) : v = w := by
  have hv := (Buffer.const 0).loadWord_storeWord_same 0 v
  have hw := (Buffer.const 0).loadWord_storeWord_same 0 w
  rw [Buffer.storeWord] at hv hw
  rw [← hv, ← hw, h]

theorem byteSwap_byteSwap (v : BitVec (8 * n)) : byteSwap (byteSwap v) = v := by
  apply word_ext
  have hreverse : beBytes n (byteSwap v).toNat = (leBytes n (byteSwap v).toNat).reverse := by
    rw [leBytes, List.reverse_reverse]
  rw [leBytes_byteSwap, hreverse, leBytes_byteSwap, leBytes]

end Swap
