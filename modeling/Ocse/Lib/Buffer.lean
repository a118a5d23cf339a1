import Mathlib.Data.List.Basic
import Mathlib.Data.List.Range

/-!
# Flat buffers and what they hold

A buffer is a total function from positions to values, as a C array is to the code that indexes it.
`write` is `memcpy` into it and `read` is `memcpy` out of it. `Holds b pos xs` says that `xs` stands
in `b` from `pos` on; it splits along appends, which is how a reader with a moving cursor is followed.
-/

def Buffer (α : Type) := ℕ → α

namespace Buffer

variable {α : Type}

def const (x : α) : Buffer α := fun _ => x

def read (b : Buffer α) (pos n : ℕ) : List α :=
  (List.range n).map (fun i => b (pos + i))

def write (b : Buffer α) (pos : ℕ) (xs : List α) : Buffer α :=
  fun i => if pos ≤ i then xs.getD (i - pos) (b i) else b i

def Holds (b : Buffer α) (pos : ℕ) (xs : List α) : Prop :=
  ∀ i (hi : i < xs.length), b (pos + i) = xs.get ⟨i, hi⟩

@[simp] theorem length_read (b : Buffer α) (pos n : ℕ) : (b.read pos n).length = n := by
  simp [read]

theorem get_read (b : Buffer α) (pos n i : ℕ) (hi : i < (b.read pos n).length) :
    (b.read pos n).get ⟨i, hi⟩ = b (pos + i) := by
  simp [read]

theorem write_of_lt (b : Buffer α) (pos : ℕ) (xs : List α) (i : ℕ) (hi : i < pos) :
    b.write pos xs i = b i := by
  simp [write, Nat.not_le.mpr hi]

theorem write_of_ge (b : Buffer α) (pos : ℕ) (xs : List α) (i : ℕ) (hi : pos + xs.length ≤ i) :
    b.write pos xs i = b i := by
  have hp : pos ≤ i := by omega
  have hn : xs.length ≤ i - pos := by omega
  simp [write, hp, List.getElem?_eq_none hn]

theorem write_at (b : Buffer α) (pos : ℕ) (xs : List α) (i : ℕ) (hi : i < xs.length) :
    b.write pos xs (pos + i) = xs.get ⟨i, hi⟩ := by
  simp [write, hi]

theorem write_singleton (b : Buffer α) (pos : ℕ) (x : α) (i : ℕ) :
    b.write pos [x] i = if i = pos then x else b i := by
  by_cases heq : i = pos
  · subst heq
    rw [if_pos rfl]
    exact b.write_at i [x] 0 (by simp)
  · rw [if_neg heq]
    by_cases hlt : i < pos
    · exact b.write_of_lt pos [x] i hlt
    · apply b.write_of_ge pos [x] i
      simp only [List.length_singleton]
      omega

@[simp] theorem write_nil (b : Buffer α) (pos : ℕ) : b.write pos [] = b := by
  funext i
  simp [write]

/-- Writing in two pieces is writing the whole. -/
theorem write_append (b : Buffer α) (pos : ℕ) (xs ys : List α) :
    (b.write pos xs).write (pos + xs.length) ys = b.write pos (xs ++ ys) := by
  funext i
  by_cases h₁ : i < pos
  · rw [write_of_lt _ _ _ _ (by omega), write_of_lt _ _ _ _ h₁, write_of_lt _ _ _ _ h₁]
  · obtain ⟨k, rfl⟩ := Nat.exists_eq_add_of_le (Nat.not_lt.mp h₁)
    by_cases h₂ : k < xs.length
    · rw [write_of_lt _ _ _ _ (by omega), write_at _ _ _ _ h₂,
        write_at _ _ _ _ (by rw [List.length_append]; omega)]
      simp [List.getElem_append_left h₂]
    · by_cases h₃ : k < xs.length + ys.length
      · have hk : pos + k = pos + xs.length + (k - xs.length) := by omega
        rw [write_at b pos (xs ++ ys) k (by rw [List.length_append]; omega), hk,
          write_at _ _ _ _ (by omega)]
        simp [List.getElem_append_right (Nat.not_lt.mp h₂)]
      · rw [write_of_ge _ _ _ _ (by omega), write_of_ge _ _ _ _ (by omega),
          write_of_ge _ _ _ _ (by rw [List.length_append]; omega)]

theorem holds_write (b : Buffer α) (pos : ℕ) (xs : List α) : (b.write pos xs).Holds pos xs :=
  fun i hi => write_at b pos xs i hi

@[simp] theorem holds_nil (b : Buffer α) (pos : ℕ) : b.Holds pos [] := by
  intro i hi
  simp at hi

theorem holds_cons (b : Buffer α) (pos : ℕ) (x : α) (xs : List α) :
    b.Holds pos (x :: xs) ↔ b pos = x ∧ b.Holds (pos + 1) xs := by
  constructor
  · intro h
    refine ⟨h 0 (by simp), ?_⟩
    intro i hi
    have hx := h (i + 1) (by simpa using hi)
    rw [show pos + 1 + i = pos + (i + 1) by omega, hx]
    rfl
  · rintro ⟨hx, hxs⟩ i hi
    cases i with
    | zero => exact hx
    | succ i =>
        have hi' : i < xs.length := by simpa using hi
        rw [show pos + (i + 1) = pos + 1 + i by omega, hxs i hi']
        rfl

theorem holds_append (b : Buffer α) (pos : ℕ) (xs ys : List α) :
    b.Holds pos (xs ++ ys) ↔ b.Holds pos xs ∧ b.Holds (pos + xs.length) ys := by
  induction xs generalizing pos with
  | nil => simp
  | cons x xs ih =>
      have hpos : pos + (x :: xs).length = pos + 1 + xs.length := by
        simp only [List.length_cons]
        omega
      rw [List.cons_append, holds_cons, holds_cons, ih, hpos, and_assoc]

theorem holds_read_iff (b c : Buffer α) (pos from' n : ℕ) :
    b.Holds pos (c.read from' n) ↔ ∀ i < n, b (pos + i) = c (from' + i) := by
  simp [Holds, read]

/-- Copying out of a buffer that holds part of `src` makes the copy agree with `src` there. -/
theorem write_read_of_holds (dst b src : Buffer α) (pos n : ℕ) (h : b.Holds pos (src.read 0 n)) :
    ∀ i < n, dst.write 0 (b.read pos n) i = src i := by
  intro i hi
  have hsrc := (holds_read_iff b src pos 0 n).mp h i hi
  have hw := write_at dst 0 (b.read pos n) i (by simpa using hi)
  rw [Nat.zero_add, get_read, hsrc, Nat.zero_add] at hw
  exact hw

theorem read_eq_of_holds {b : Buffer α} {pos : ℕ} {xs : List α} (h : b.Holds pos xs) :
    b.read pos xs.length = xs := by
  apply List.ext_getElem (by simp)
  intro i hi hi'
  have hx := h i hi'
  simpa [read] using hx

/-- Reading back part of what was copied to the front. -/
theorem read_write_read (b c : Buffer α) {pos n size : ℕ} (h : pos + n ≤ size) :
    (b.write 0 (c.read 0 size)).read pos n = c.read pos n := by
  unfold read
  apply List.map_congr_left
  intro i hi
  have hin : i < n := List.mem_range.mp hi
  have hw := write_at b 0 (c.read 0 size) (pos + i) (by rw [length_read]; omega)
  rw [Nat.zero_add, get_read, Nat.zero_add] at hw
  exact hw

theorem read_succ (b : Buffer α) (pos n : ℕ) : b.read pos (n + 1) = b pos :: b.read (pos + 1) n := by
  unfold read
  rw [List.range_succ_eq_map, List.map_cons, List.map_map]
  congr 1
  apply List.map_congr_left
  intro i _
  rw [Function.comp_apply, Nat.succ_eq_add_one, Nat.add_right_comm, Nat.add_assoc]

theorem read_append (b : Buffer α) (pos n m : ℕ) : b.read pos (n + m) = b.read pos n ++ b.read (pos + n) m := by
  unfold read
  rw [List.range_add, List.map_append, List.map_map]
  congr 1
  apply List.map_congr_left
  intro i _
  rw [Function.comp_apply, Nat.add_assoc]

theorem read_congr {b c : Buffer α} {pos pos' n : ℕ} (h : ∀ i < n, b (pos + i) = c (pos' + i)) :
    b.read pos n = c.read pos' n := by
  unfold read
  apply List.map_congr_left
  intro i hi
  exact h i (List.mem_range.mp hi)

end Buffer
