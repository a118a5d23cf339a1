import Ocse.Lib.Buffer
import Mathlib.Data.Nat.Bitwise

/-!
# Big-endian byte packing

`beBytes n v` are the bytes that a loop over `(v >> ((n - 1 - i) * 8)) & 0xFF` stores, most significant
first; `loadBE b pos n` is the number that a loop over `acc = (acc << 8) | b[pos + i]` reads back.
-/

def beBytes (n v : ℕ) : List UInt8 :=
  (List.range n).map (fun i => UInt8.ofNat (v >>> ((n - 1 - i) * 8)))

def loadBE (b : Buffer UInt8) (pos n : ℕ) : ℕ :=
  (List.range n).foldl (fun acc i => acc <<< 8 ||| (b (pos + i)).toNat) 0

@[simp] theorem length_beBytes (n v : ℕ) : (beBytes n v).length = n := by
  simp [beBytes]

@[simp] theorem beBytes_zero (v : ℕ) : beBytes 0 v = [] := rfl

theorem beBytes_succ (n v : ℕ) : beBytes (n + 1) v = beBytes n (v / 256) ++ [UInt8.ofNat v] := by
  unfold beBytes
  rw [List.range_succ, List.map_append]
  congr 1
  · apply List.map_congr_left
    intro i hi
    have hin : i < n := List.mem_range.mp hi
    have hexp : (n + 1 - 1 - i) * 8 = 8 + (n - 1 - i) * 8 := by omega
    rw [hexp, Nat.shiftRight_add, Nat.shiftRight_eq_div_pow v 8]
  · simp

@[simp] theorem loadBE_zero (b : Buffer UInt8) (pos : ℕ) : loadBE b pos 0 = 0 := rfl

theorem loadBE_succ (b : Buffer UInt8) (pos n : ℕ) :
    loadBE b pos (n + 1) = loadBE b pos n * 256 + (b (pos + n)).toNat := by
  unfold loadBE
  rw [List.range_succ, List.foldl_append]
  have hlt : (b (pos + n)).toNat < 2 ^ 8 := (b (pos + n)).toNat_lt
  rw [List.foldl_cons, List.foldl_nil, ← Nat.shiftLeft_add_eq_or_of_lt hlt, Nat.shiftLeft_eq]

/-- Reading back packed bytes gives the number, reduced to the width they hold. -/
theorem loadBE_lt (b : Buffer UInt8) (pos n : ℕ) : loadBE b pos n < 256 ^ n := by
  induction n with
  | zero => exact Nat.one_pos
  | succ n ih =>
    have hbyte : (b (pos + n)).toNat < 256 := (b (pos + n)).toNat_lt
    rw [loadBE_succ, Nat.pow_succ]
    omega

theorem loadBE_of_holds (b : Buffer UInt8) (pos n v : ℕ) (h : b.Holds pos (beBytes n v)) :
    loadBE b pos n = v % 256 ^ n := by
  induction n generalizing v with
  | zero => simp [Nat.mod_one]
  | succ n ih =>
      rw [beBytes_succ, Buffer.holds_append, Buffer.holds_cons, length_beBytes] at h
      have hbyte : (UInt8.ofNat v).toNat = v % 256 := by simp
      rw [loadBE_succ, ih (v / 256) h.1, h.2.1, hbyte, Nat.pow_succ, Nat.mul_comm (256 ^ n) 256,
        Nat.mod_mul]
      omega

theorem loadBE_of_holds_lt (b : Buffer UInt8) (pos n v : ℕ) (hv : v < 256 ^ n)
    (h : b.Holds pos (beBytes n v)) : loadBE b pos n = v := by
  rw [loadBE_of_holds b pos n v h, Nat.mod_eq_of_lt hv]

/-- Where the last of the bytes are missing and zeros stand for them, the number loses its low digits. -/
theorem loadBE_zeros (b : Buffer UInt8) (pos k m : ℕ) (h : ∀ i < m, b (pos + k + i) = 0) :
    loadBE b pos (k + m) = loadBE b pos k * 256 ^ m := by
  induction m with
  | zero => rw [Nat.add_zero, Nat.pow_zero, Nat.mul_one]
  | succ m ih =>
    have hlast : b (pos + (k + m)) = 0 := by rw [← Nat.add_assoc]; exact h m (Nat.lt_succ_self m)
    rw [← Nat.add_assoc, loadBE_succ, hlast, ih (fun i hi => h i (Nat.lt_succ_of_lt hi)), Nat.pow_succ,
      ← Nat.mul_assoc, UInt8.toNat_zero, Nat.add_zero]

theorem take_beBytes (n m v : ℕ) : (beBytes (n + m) v).take n = beBytes n (v / 256 ^ m) := by
  induction m generalizing v with
  | zero => rw [Nat.add_zero, Nat.pow_zero, Nat.div_one, List.take_of_length_le (by rw [length_beBytes])]
  | succ m ih =>
    rw [← Nat.add_assoc, beBytes_succ, List.take_append_of_le_length (by rw [length_beBytes]; omega), ih,
      Nat.div_div_eq_div_mul, Nat.pow_succ, Nat.mul_comm]

theorem loadBE_cut {b : Buffer UInt8} {pos k m v : ℕ} (hv : v < 256 ^ (k + m))
    (hold : b.Holds pos ((beBytes (k + m) v).take k)) (hzero : ∀ i < m, b (pos + k + i) = 0) :
    loadBE b pos (k + m) = v / 256 ^ m * 256 ^ m := by
  have hlt : v / 256 ^ m < 256 ^ k := by
    rw [Nat.div_lt_iff_lt_mul (Nat.pow_pos (by decide)), ← Nat.pow_add]
    exact hv
  rw [take_beBytes] at hold
  rw [loadBE_zeros b pos k m hzero, loadBE_of_holds_lt b pos k _ hlt hold]

theorem ofNat_loadBE_uint16 (b : Buffer UInt8) (pos : ℕ) (v : UInt16)
    (h : b.Holds pos (beBytes 2 v.toNat)) : UInt16.ofNat (loadBE b pos 2) = v := by
  rw [loadBE_of_holds_lt b pos 2 v.toNat v.toNat_lt h, UInt16.ofNat_toNat]

theorem ofNat_loadBE_uint32 (b : Buffer UInt8) (pos : ℕ) (v : UInt32)
    (h : b.Holds pos (beBytes 4 v.toNat)) : UInt32.ofNat (loadBE b pos 4) = v := by
  rw [loadBE_of_holds_lt b pos 4 v.toNat v.toNat_lt h, UInt32.ofNat_toNat]

theorem ofNat_loadBE_uint64 (b : Buffer UInt8) (pos : ℕ) (v : UInt64)
    (h : b.Holds pos (beBytes 8 v.toNat)) : UInt64.ofNat (loadBE b pos 8) = v := by
  rw [loadBE_of_holds_lt b pos 8 v.toNat v.toNat_lt h, UInt64.ofNat_toNat]

/-! ## The order of the host -/

/-- The bytes of a stored number in a little-endian memory. -/
def leBytes (n v : ℕ) : List UInt8 := (beBytes n v).reverse

/-- The number that a little-endian memory holds in `n` bytes. -/
def loadLE (b : Buffer UInt8) (pos n : ℕ) : ℕ :=
  (List.range n).foldr (fun i acc => acc <<< 8 ||| (b (pos + i)).toNat) 0

@[simp] theorem length_leBytes (n v : ℕ) : (leBytes n v).length = n := by
  simp [leBytes]

theorem leBytes_succ (n v : ℕ) : leBytes (n + 1) v = UInt8.ofNat v :: leBytes n (v / 256) := by
  rw [leBytes, beBytes_succ, List.reverse_append]
  rfl

theorem loadLE_succ (b : Buffer UInt8) (pos n : ℕ) :
    loadLE b pos (n + 1) = loadLE b (pos + 1) n * 256 + (b pos).toNat := by
  have hshift : (fun i acc => acc <<< 8 ||| (b (pos + Nat.succ i)).toNat) =
      fun i acc => acc <<< 8 ||| (b (pos + 1 + i)).toNat := by
    funext i acc
    rw [Nat.succ_eq_add_one, Nat.add_right_comm, Nat.add_assoc]
  have hlt : (b pos).toNat < 2 ^ 8 := (b pos).toNat_lt
  unfold loadLE
  rw [List.range_succ_eq_map, List.foldr_cons, List.foldr_map, hshift, Nat.add_zero pos,
    ← Nat.shiftLeft_add_eq_or_of_lt hlt, Nat.shiftLeft_eq]

theorem loadLE_of_holds (b : Buffer UInt8) (pos n v : ℕ) (h : b.Holds pos (leBytes n v)) :
    loadLE b pos n = v % 256 ^ n := by
  induction n generalizing pos v with
  | zero => simp [loadLE, Nat.mod_one]
  | succ n ih =>
      rw [leBytes_succ, Buffer.holds_cons] at h
      have hbyte : (UInt8.ofNat v).toNat = v % 256 := by simp
      rw [loadLE_succ, ih (pos + 1) (v / 256) h.2, h.1, hbyte, Nat.pow_succ, Nat.mul_comm (256 ^ n) 256,
        Nat.mod_mul]
      omega

theorem loadLE_lt (b : Buffer UInt8) (pos n : ℕ) : loadLE b pos n < 256 ^ n := by
  induction n generalizing pos with
  | zero => simp [loadLE]
  | succ n ih =>
      have hrest := ih (pos + 1)
      have hlt : (b pos).toNat < 256 := (b pos).toNat_lt
      rw [loadLE_succ, Nat.pow_succ]
      omega

theorem loadLE_congr {b c : Buffer UInt8} {pos pos' n : ℕ} (h : ∀ i < n, b (pos + i) = c (pos' + i)) :
    loadLE b pos n = loadLE c pos' n := by
  unfold loadLE
  apply List.foldr_ext
  intro i hi acc
  rw [h i (List.mem_range.mp hi)]

/-- The low bytes of a number that was loaded are the bytes that were there. -/
theorem leBytes_loadLE (b : Buffer UInt8) (pos n m : ℕ) : leBytes n (loadLE b pos (n + m)) = b.read pos n := by
  induction n generalizing pos with
  | zero => rfl
  | succ n ih =>
      have hlt : (b pos).toNat < 256 := (b pos).toNat_lt
      have hload : loadLE b pos (n + 1 + m) = loadLE b (pos + 1) (n + m) * 256 + (b pos).toNat := by
        rw [Nat.add_right_comm, loadLE_succ]
      have hlow : UInt8.ofNat (loadLE b pos (n + 1 + m)) = b pos := by
        rw [← UInt8.toNat_inj, UInt8.toNat_ofNat', hload]
        omega
      have hhigh : loadLE b pos (n + 1 + m) / 256 = loadLE b (pos + 1) (n + m) := by
        rw [hload]
        omega
      rw [leBytes_succ, hlow, hhigh, ih, Buffer.read_succ]

theorem beBytes_loadLE (b : Buffer UInt8) (pos n m : ℕ) :
    beBytes n (loadLE b pos (n + m)) = (b.read pos n).reverse := by
  rw [← leBytes_loadLE b pos n m, leBytes, List.reverse_reverse]

/-- The number in a wider piece of memory, by its parts. -/
theorem loadLE_add (b : Buffer UInt8) (pos n m : ℕ) :
    loadLE b pos (n + m) = loadLE b pos n + 256 ^ n * loadLE b (pos + n) m := by
  induction n generalizing pos with
  | zero => simp [loadLE]
  | succ n ih =>
      have hpos : pos + 1 + n = pos + (n + 1) := by omega
      rw [Nat.add_right_comm, loadLE_succ, ih, loadLE_succ, hpos, Nat.pow_succ, Nat.add_mul, Nat.mul_right_comm,
        Nat.add_right_comm]

theorem leBytes_mod (n v : ℕ) : leBytes n (v % 256 ^ n) = leBytes n v := by
  have hholds := Buffer.holds_write (Buffer.const 0) 0 (leBytes n v)
  have hread := Buffer.read_eq_of_holds hholds
  have hbytes := leBytes_loadLE ((Buffer.const 0).write 0 (leBytes n v)) 0 n 0
  rw [Nat.add_zero, loadLE_of_holds _ 0 n v hholds] at hbytes
  rw [length_leBytes] at hread
  rw [hbytes, hread]

theorem loadLE_write_same (b : Buffer UInt8) (pos : ℕ) {n v : ℕ} (hv : v < 256 ^ n) :
    loadLE (b.write pos (leBytes n v)) pos n = v := by
  rw [loadLE_of_holds _ pos n v (Buffer.holds_write b pos _), Nat.mod_eq_of_lt hv]

theorem loadLE_write_other (b : Buffer UInt8) {pos pos' n : ℕ} {bytes : List UInt8}
    (h : pos' + n ≤ pos ∨ pos + bytes.length ≤ pos') : loadLE (b.write pos bytes) pos' n = loadLE b pos' n := by
  apply loadLE_congr
  intro i hi
  rcases h with h | h
  · exact Buffer.write_of_lt b pos bytes (pos' + i) (by omega)
  · exact Buffer.write_of_ge b pos bytes (pos' + i) (by omega)
