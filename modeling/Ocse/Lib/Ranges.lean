import Mathlib.Data.Nat.ModEq
import Mathlib.Order.Interval.Finset.Nat
import Mathlib.Order.CompletePartialOrder
import Mathlib.Order.Interval.Set.Disjoint
import Mathlib.Algebra.Order.BigOperators.Group.List

/-!
# Ranges given out by a running mark

Ranges are given out one behind the other from a mark that grows by the length of each; the base that is kept
is the mark modulo `N`, as a field of fixed width keeps it.
-/

namespace Ocse

/-- Windows of one stride do not meet. -/
theorem window_ne {stride c₁ c₂ i j : ℕ} (hc : c₁ ≠ c₂) (hi : i < stride) (hj : j < stride) :
    stride * c₁ + i ≠ stride * c₂ + j := by
  intro h
  apply hc
  have hdiv := congrArg (· / stride) h
  simpa only [Nat.mul_add_div (Nat.zero_lt_of_lt hi), Nat.div_eq_of_lt hi, Nat.div_eq_of_lt hj,
    Nat.add_zero] using hdiv

structure Extent where
  base : ℕ
  length : ℕ
deriving DecidableEq, Repr

namespace Extent

def set (r : Extent) : Set ℕ := Set.Ico r.base (r.base + r.length)

/-- No two ranges of a list share a number. -/
def Apart (rs : List Extent) : Prop := rs.Pairwise (fun r r' => Disjoint r.set r'.set)

def total (rs : List Extent) : ℕ := (rs.map length).sum

@[simp] theorem total_nil : total [] = 0 := rfl

@[simp] theorem total_cons (r : Extent) (rs : List Extent) : total (r :: rs) = r.length + total rs := rfl

@[simp] theorem total_append (rs rs' : List Extent) : total (rs ++ rs') = total rs + total rs' := by
  simp [total]

def Laid (N : ℕ) : ℕ → List Extent → Prop
  | _, [] => True
  | mark, r :: rs => r.base = mark % N ∧ Laid N (mark + r.length) rs

/-- Every length divides the mark at which its range is given out. -/
def Aligned : ℕ → List Extent → Prop
  | _, [] => True
  | mark, r :: rs => r.length ∣ mark ∧ Aligned (mark + r.length) rs

instance Aligned.decidable : ∀ (mark : ℕ) (rs : List Extent), Decidable (Aligned mark rs)
  | _, [] => isTrue trivial
  | mark, r :: rs =>
    have : Decidable (Aligned (mark + r.length) rs) := Aligned.decidable _ rs
    inferInstanceAs (Decidable (r.length ∣ mark ∧ Aligned (mark + r.length) rs))

variable {N mark : ℕ} {r r' : Extent} {rs rs' : List Extent}

theorem laid_append : Laid N mark (rs ++ rs') ↔ Laid N mark rs ∧ Laid N (mark + total rs) rs' := by
  induction rs generalizing mark with
  | nil => exact (and_iff_right trivial).symm
  | cons r rs ih =>
    simp only [List.cons_append, Laid, ih, total_cons, Nat.add_assoc, and_assoc]

/-- Where the mark stood when a range was given out. -/
theorem Laid.mark_of_mem (h : Laid N mark rs) (hr : r ∈ rs) :
    ∃ at', mark ≤ at' ∧ at' + r.length ≤ mark + total rs ∧ r.base = at' % N := by
  induction rs generalizing mark with
  | nil => cases hr
  | cons r₀ rs ih =>
    rw [total_cons]
    rcases List.mem_cons.mp hr with rfl | hr
    · exact ⟨mark, Nat.le_refl _, by omega, h.1⟩
    · obtain ⟨at', hle, hend, hbase⟩ := ih h.2 hr
      exact ⟨at', by omega, by omega, hbase⟩

theorem disjoint_of_le (h : r.base + r.length ≤ r'.base) : Disjoint r.set r'.set := by
  rw [Set.disjoint_left]
  intro x hx hx'
  exact absurd (Nat.lt_of_lt_of_le hx.2 h) (Nat.not_lt.mpr hx'.1)

/-- Two ranges that follow one another on a circle of `N` numbers, and go no further than around it. -/
theorem disjoint_of_mod {a b : ℕ} (hr : r.base = a % N) (hr' : r'.base = b % N) (hlt : r'.base < N) (hab : a + r.length ≤ b) (hba : b + r'.length ≤ a + N) :
    Disjoint r.set r'.set := by
  have ha := Nat.div_add_mod a N
  have hb := Nat.div_add_mod b N
  have hmod : a % N < N := Nat.mod_lt a (by omega)
  obtain ⟨d, hd⟩ := Nat.exists_eq_add_of_le (Nat.div_le_div_right (c := N) (show a ≤ b by omega))
  rw [hd, Nat.mul_add] at hb
  -- the second range lies on the same turn or on the next one
  match d with
  | 0 =>
    apply disjoint_of_le
    rw [Nat.mul_zero] at hb
    omega
  | 1 =>
    apply Disjoint.symm
    apply disjoint_of_le
    rw [Nat.mul_one] at hb
    omega
  | d + 2 =>
    have hturns : N * (d + 2) = N * d + N + N := by rw [Nat.mul_add, Nat.mul_two, Nat.add_assoc]
    omega

theorem Laid.base_lt (hN : 0 < N) (h : Laid N mark rs) (hr : r ∈ rs) : r.base < N := by
  obtain ⟨at', -, -, hbase⟩ := h.mark_of_mem hr
  rw [hbase]
  exact Nat.mod_lt _ hN

/-- Ranges that are together no longer than the whole. -/
theorem Laid.apart (hN : 0 < N) (h : Laid N mark rs) (htotal : total rs ≤ N) : Apart rs := by
  induction rs generalizing mark with
  | nil => exact List.Pairwise.nil
  | cons r rs ih =>
    rw [total_cons] at htotal
    refine List.Pairwise.cons ?_ (ih h.2 (by omega))
    intro r' hr'
    obtain ⟨at', hle, hend, hbase⟩ := h.2.mark_of_mem hr'
    exact disjoint_of_mod h.1 hbase (h.2.base_lt hN hr') hle (by omega)

/-- Every mark at which a range is given out is kept as it is. -/
def Fits (N : ℕ) : ℕ → List Extent → Prop
  | _, [] => True
  | mark, r :: rs => mark < N ∧ Fits N (mark + r.length) rs

instance Fits.decidable : ∀ (N mark : ℕ) (rs : List Extent), Decidable (Fits N mark rs)
  | _, _, [] => isTrue trivial
  | N, mark, r :: rs =>
    have : Decidable (Fits N (mark + r.length) rs) := Fits.decidable N _ rs
    inferInstanceAs (Decidable (mark < N ∧ Fits N (mark + r.length) rs))

theorem fits_append : Fits N mark (rs ++ rs') ↔ Fits N mark rs ∧ Fits N (mark + total rs) rs' := by
  induction rs generalizing mark with
  | nil => exact (and_iff_right trivial).symm
  | cons r rs ih =>
    simp only [List.cons_append, Fits, ih, total_cons, Nat.add_assoc, and_assoc]

/-- Ranges whose bases are exact fill an interval. -/
theorem Laid.iUnion_set (h : Laid N mark rs) (hfits : Fits N mark rs) :
    (⋃ r ∈ rs, r.set) = Set.Ico mark (mark + total rs) := by
  induction rs generalizing mark with
  | nil => simp
  | cons r rs ih =>
    have hset : r.set = Set.Ico mark (mark + r.length) := by
      rw [set, h.1, Nat.mod_eq_of_lt hfits.1]
    have hunion : (⋃ r' ∈ r :: rs, r'.set) = r.set ∪ ⋃ r' ∈ rs, r'.set := by
      ext x
      simp
    rw [hunion, hset, ih h.2 hfits.2, Set.Ico_union_Ico_eq_Ico (by omega) (by omega), total_cons, Nat.add_assoc]

theorem Apart.exists_finset (h : Apart rs) :
    ∃ s : Finset ℕ, s.card = total rs ∧ ∀ x, x ∈ s ↔ ∃ r ∈ rs, x ∈ r.set := by
  induction rs with
  | nil => exact ⟨∅, rfl, by simp⟩
  | cons r rs ih =>
    obtain ⟨hhead, htail⟩ := List.pairwise_cons.mp h
    obtain ⟨s, hs, hmem⟩ := ih htail
    refine ⟨Finset.Ico r.base (r.base + r.length) ∪ s, ?_, ?_⟩
    · rw [Finset.card_union_of_disjoint, Nat.card_Ico, hs, total_cons, Nat.add_sub_cancel_left]
      rw [Finset.disjoint_left]
      intro x hx hxs
      obtain ⟨r', hr', hx'⟩ := (hmem x).mp hxs
      exact Set.disjoint_left.mp (hhead r' hr') (Finset.mem_Ico.mp hx) hx'
    · intro x
      rw [Finset.mem_union, hmem, Finset.mem_Ico]
      simp [set]

/-- Ranges that are apart are together no longer than what holds them. -/
theorem Apart.total_le (h : Apart rs) (hin : ∀ r ∈ rs, r.base + r.length ≤ N) : total rs ≤ N := by
  obtain ⟨s, hs, hmem⟩ := h.exists_finset
  rw [← hs, ← Finset.card_range N]
  apply Finset.card_le_card
  intro x hx
  obtain ⟨r, hr, hxr⟩ := (hmem x).mp hx
  exact Finset.mem_range.mpr (Nat.lt_of_lt_of_le hxr.2 (hin r hr))

/-- For lengths that divide `N`, a base is a multiple of its length just when the mark was. -/
theorem Laid.aligned_iff (h : Laid N mark rs) (hdvd : ∀ r ∈ rs, r.length ∣ N) :
    Aligned mark rs ↔ ∀ r ∈ rs, r.length ∣ r.base := by
  induction rs generalizing mark with
  | nil => simp [Aligned]
  | cons r rs ih =>
    rw [List.forall_mem_cons, Aligned, ih h.2 (fun r' hr' => hdvd r' (List.mem_cons_of_mem _ hr')), h.1,
      Nat.dvd_mod_iff (hdvd r List.mem_cons_self)]

theorem base_add_length_le (hlt : r.base < N) (hdvd : r.length ∣ N) (hbase : r.length ∣ r.base) :
    r.base + r.length ≤ N := by
  obtain ⟨a, ha⟩ := hbase
  obtain ⟨n, hn⟩ := hdvd
  have hlt' : a < n := by
    rw [ha, hn] at hlt
    exact Nat.lt_of_mul_lt_mul_left hlt
  rw [ha, hn, ← Nat.mul_succ]
  exact Nat.mul_le_mul_left _ hlt'

/-- For lengths that divide `N`: the ranges are apart and each base is a multiple of its length just when every
mark was one and the ranges are together no longer than `N`. -/
theorem Laid.apart_and_dvd_iff (hN : 0 < N) (h : Laid N mark rs) (hdvd : ∀ r ∈ rs, r.length ∣ N) :
    (Apart rs ∧ ∀ r ∈ rs, r.length ∣ r.base) ↔ Aligned mark rs ∧ total rs ≤ N := by
  rw [h.aligned_iff hdvd]
  constructor
  · rintro ⟨hapart, hbase⟩
    refine ⟨hbase, hapart.total_le ?_⟩
    intro r hr
    exact base_add_length_le (h.base_lt hN hr) (hdvd r hr) (hbase r hr)
  · rintro ⟨hbase, htotal⟩
    exact ⟨h.apart hN htotal, hbase⟩

end Extent

end Ocse
