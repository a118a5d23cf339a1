import Mathlib.Algebra.Ring.Int.Defs
import Mathlib.Algebra.Ring.Nat
import Mathlib.Data.List.TakeWhile

/-!
# Numbers in text

Numerals in a base of at most sixteen, and the C functions that look for a character, cut a string at a
character and read a number. A numeral that is printed in one base is read back in the same base; in a smaller
one it is read as a smaller number, unless it has one digit only.
-/

namespace Ocse

/-! ## Numerals -/

/-- 36 is no digit in any base. -/
def digitValue (c : Char) : ℕ :=
  if c.isDigit then c.toNat - '0'.toNat
  else if c.isLower then c.toNat - 'a'.toNat + 10
  else if c.isUpper then c.toNat - 'A'.toNat + 10
  else 36

def isDigitIn (b : ℕ) (c : Char) : Bool := digitValue c < b

def numeral (b : ℕ) (s : List Char) : ℕ := s.foldl (fun n c => b * n + digitValue c) 0

/-- `s` does not go on with a digit. -/
def EndsDigits (b : ℕ) (s : List Char) : Prop := ∀ c ∈ s.head?, isDigitIn b c = false

@[simp] theorem endsDigits_nil (b : ℕ) : EndsDigits b [] := by
  intro c hc
  cases hc

theorem endsDigits_cons {b : ℕ} {c : Char} (hc : isDigitIn b c = false) (s : List Char) :
    EndsDigits b (c :: s) := by
  intro c' hc'
  cases hc'
  exact hc

theorem takeWhile_append_endsDigits {b : ℕ} (ds : List Char) {s : List Char} (hs : EndsDigits b s) :
    (ds ++ s).takeWhile (isDigitIn b) = ds.takeWhile (isDigitIn b) := by
  induction ds with
  | nil =>
    cases s with
    | nil => rfl
    | cons c s => rw [List.nil_append, List.takeWhile_cons, hs c rfl]; rfl
  | cons d ds ih => rw [List.cons_append, List.takeWhile_cons, List.takeWhile_cons, ih]

theorem dropWhile_append_endsDigits {b : ℕ} (ds : List Char) {s : List Char} (hs : EndsDigits b s) :
    (ds ++ s).dropWhile (isDigitIn b) = ds.dropWhile (isDigitIn b) ++ s := by
  induction ds with
  | nil =>
    cases s with
    | nil => rfl
    | cons c s => rw [List.nil_append, List.dropWhile_cons, hs c rfl]; rfl
  | cons d ds ih =>
    rw [List.cons_append, List.dropWhile_cons, List.dropWhile_cons, ih]
    cases isDigitIn b d <;> rfl

theorem numeral_append_digit (b : ℕ) (ds : List Char) (d : Char) :
    numeral b (ds ++ [d]) = b * numeral b ds + digitValue d := by
  rw [numeral, List.foldl_append]
  rfl

theorem numeral_replicate_append (b k : ℕ) (ds : List Char) :
    numeral b (List.replicate k '0' ++ ds) = numeral b ds := by
  have hzeros : numeral b (List.replicate k '0') = 0 := by
    induction k with
    | zero => rfl
    | succ k ih =>
      rw [List.replicate_succ', numeral_append_digit, ih]
      rfl
  rw [numeral, List.foldl_append, ← numeral, hzeros]
  rfl

/-! ## The C functions -/

def strrchr (c : Char) : List Char → Option (List Char)
  | [] => none
  | d :: s =>
    match strrchr c s with
    | some found => some found
    | none => if d = c then some (d :: s) else none

/-- A token of what the last call left, and what is left now. -/
def strtok (delim : Char) (s : List Char) : Option (List Char) × List Char :=
  match s.dropWhile (fun c => c = delim) with
  | [] => (none, [])
  | c :: s =>
    (some ((c :: s).takeWhile (fun c => c ≠ delim)), ((c :: s).dropWhile (fun c => c ≠ delim)).drop 1)

def isSpace (c : Char) : Bool := c ∈ [' ', '\t', '\n', '\x0b', '\x0c', '\r']

/-- Whether the number is negative, and the digits. -/
def readSign : List Char → Bool × List Char
  | '-' :: s => (true, s)
  | '+' :: s => (false, s)
  | s => (false, s)

def dropHexPrefix : List Char → List Char
  | '0' :: 'x' :: s => s
  | '0' :: 'X' :: s => s
  | s => s

/-- A number that is too large for a `long` is the largest or the smallest one. -/
def clampLong (negative : Bool) (n : ℤ) : ℤ :=
  if negative then max (-2 ^ 63) (-n) else min (2 ^ 63 - 1) n

/-- `strtol` in base 10. -/
def strtol10 (s : List Char) : ℤ :=
  let (negative, s) := readSign (s.dropWhile isSpace)
  clampLong negative (numeral 10 (s.takeWhile (isDigitIn 10)))

/-- `strtol` in base 16. -/
def strtol16 (s : List Char) : ℤ :=
  let (negative, s) := readSign (s.dropWhile isSpace)
  clampLong negative (numeral 16 ((dropHexPrefix s).takeWhile (isDigitIn 16)))

/-- `atoi` takes the low half of a `long`. -/
def atoi (s : List Char) : Int32 := Int32.ofInt (strtol10 s)

/-- `%u` of `sscanf`: the `unsigned long` before it is stored, and what is left of the text. -/
def scanUnsigned (s : List Char) : Option (ℕ × List Char) :=
  let (negative, s) := readSign (s.dropWhile isSpace)
  let digits := s.takeWhile (isDigitIn 10)
  if digits = [] then none
  else
    let n := numeral 10 digits
    some (if 2 ^ 64 ≤ n then 2 ^ 64 - 1 else if negative then (2 ^ 64 - n) % 2 ^ 64 else n,
      s.dropWhile (isDigitIn 10))

/-- A character of the format of `sscanf`. -/
def scanChar (c : Char) : List Char → Option (List Char)
  | [] => none
  | d :: s => if d = c then some s else none

theorem strrchr_append {c : Char} (s : List Char) {t : List Char} (ht : c ∉ t) :
    strrchr c (s ++ c :: t) = some (c :: t) := by
  have hnone : strrchr c t = none := by
    induction t with
    | nil => rfl
    | cons d t ih =>
      rw [List.mem_cons, not_or] at ht
      rw [strrchr, ih ht.2]
      exact if_neg (Ne.symm ht.1)
  induction s with
  | nil =>
    rw [List.nil_append, strrchr, hnone]
    exact if_pos rfl
  | cons d s ih => rw [List.cons_append, strrchr, ih]

theorem strtok_of_not_mem {delim : Char} {token : List Char} (hne : token ≠ []) (htoken : delim ∉ token)
    (t : List Char) :
    strtok delim (token ++ t) =
      (some (token ++ t.takeWhile (fun c => c ≠ delim)), (t.dropWhile (fun c => c ≠ delim)).drop 1) := by
  obtain ⟨c, s, rfl⟩ := List.exists_cons_of_ne_nil hne
  have hall : ∀ d ∈ c :: s, decide (d ≠ delim) = true := by
    intro d hd
    exact decide_eq_true (fun h => htoken (h ▸ hd))
  have hc : decide (c = delim) = false := by
    rw [decide_eq_false_iff_not]
    exact of_decide_eq_true (hall c List.mem_cons_self)
  rw [strtok, List.cons_append, List.dropWhile_cons, hc, if_neg Bool.false_ne_true]
  change (some ((c :: s ++ t).takeWhile _), ((c :: s ++ t).dropWhile _).drop 1) = _
  rw [List.takeWhile_append_of_pos hall, List.dropWhile_append_of_pos hall]

theorem strtok_append {delim : Char} {token : List Char} (hne : token ≠ []) (htoken : delim ∉ token)
    (t : List Char) : strtok delim (token ++ delim :: t) = (some token, t) := by
  rw [strtok_of_not_mem hne htoken, List.takeWhile_cons, List.dropWhile_cons,
    decide_eq_false (not_not_intro rfl), if_neg Bool.false_ne_true, List.append_nil]
  rfl

theorem strtok_last {delim : Char} {token : List Char} (hne : token ≠ []) (htoken : delim ∉ token) :
    strtok delim token = (some token, []) := by
  have h := strtok_of_not_mem hne htoken []
  rwa [List.takeWhile_nil, List.dropWhile_nil, List.append_nil] at h

theorem strtok_delim (delim : Char) (s : List Char) : strtok delim (delim :: s) = strtok delim s := by
  rw [strtok, strtok, List.dropWhile_cons, decide_eq_true rfl, if_pos rfl]

/-! ## Printed numbers -/

theorem digitValue_digitChar {d : ℕ} (hd : d < 16) : digitValue (Nat.digitChar d) = d := by
  revert d
  decide

theorem isDigitIn_digitChar {b d : ℕ} (hd : d < 16) : isDigitIn b (Nat.digitChar d) = decide (d < b) := by
  rw [isDigitIn, digitValue_digitChar hd]

section Printed

variable {b c : ℕ}

theorem isDigitIn_of_mem_toDigits (hc : 1 < c) (hc' : c ≤ 16) (n : ℕ) :
    ∀ d ∈ Nat.toDigits c n, isDigitIn c d := by
  induction n using Nat.strongRecOn with
  | ind n ih =>
    intro d hd
    by_cases hn : n < c
    · rw [Nat.toDigits_of_lt_base hn, List.mem_singleton] at hd
      rw [hd, isDigitIn_digitChar (by omega)]
      exact decide_eq_true hn
    · rw [Nat.toDigits_of_base_le hc (by omega), List.mem_append, List.mem_singleton] at hd
      have hmod : n % c < c := Nat.mod_lt n (by omega)
      rcases hd with hd | hd
      · exact ih (n / c) (Nat.div_lt_self (by omega) hc) d hd
      · rw [hd, isDigitIn_digitChar (by omega)]
        exact decide_eq_true hmod

theorem numeral_toDigits (hc : 1 < c) (hc' : c ≤ 16) (n : ℕ) : numeral c (Nat.toDigits c n) = n := by
  induction n using Nat.strongRecOn with
  | ind n ih =>
    by_cases hn : n < c
    · rw [Nat.toDigits_of_lt_base hn]
      change c * 0 + digitValue (Nat.digitChar n) = n
      rw [digitValue_digitChar (by omega)]
      omega
    · have hmod : n % c < c := Nat.mod_lt n (by omega)
      rw [Nat.toDigits_of_base_le hc (by omega), numeral_append_digit,
        ih (n / c) (Nat.div_lt_self (by omega) hc), digitValue_digitChar (by omega)]
      exact Nat.div_add_mod n c

/-- Printed in base `c`, read in a smaller base: the number comes out smaller unless it has one digit. -/
theorem numeral_takeWhile_toDigits (hb : 1 < b) (hbc : b < c) (hc' : c ≤ 16) (n : ℕ) :
    numeral b ((Nat.toDigits c n).takeWhile (isDigitIn b)) ≤ n ∧
      (b ≤ n → numeral b ((Nat.toDigits c n).takeWhile (isDigitIn b)) < n) := by
  induction n using Nat.strongRecOn with
  | ind n ih =>
    by_cases hn : n < c
    · rw [Nat.toDigits_of_lt_base hn, List.takeWhile_cons, isDigitIn_digitChar (by omega), List.takeWhile_nil]
      by_cases hnb : n < b
      · rw [decide_eq_true hnb, if_pos rfl]
        change b * 0 + digitValue (Nat.digitChar n) ≤ n ∧ _
        rw [digitValue_digitChar (by omega)]
        omega
      · rw [decide_eq_false hnb, if_neg Bool.false_ne_true]
        change 0 ≤ n ∧ (b ≤ n → 0 < n)
        omega
    · obtain ⟨hle, -⟩ := ih (n / c) (Nat.div_lt_self (by omega) (by omega))
      have hdiv : 0 < n / c := Nat.div_pos (by omega) (by omega)
      have hmod : n % c < c := Nat.mod_lt n (by omega)
      have hlt : b * (n / c) < c * (n / c) := (Nat.mul_lt_mul_right hdiv).mpr hbc
      have hself : n / c ≤ b * (n / c) := Nat.le_mul_of_pos_left (n / c) (by omega)
      have hn' := Nat.div_add_mod n c
      rw [Nat.toDigits_of_base_le (by omega) (by omega), List.takeWhile_append]
      split
      · -- every digit but the last is one of the smaller base
        rename_i hall
        have htake := (List.takeWhile_prefix (isDigitIn b)).eq_of_length hall
        rw [htake] at hle
        have hmul := Nat.mul_le_mul_left b hle
        rw [List.takeWhile_cons, isDigitIn_digitChar (by omega), List.takeWhile_nil]
        by_cases hd : n % c < b
        · rw [decide_eq_true hd, if_pos rfl, numeral_append_digit, digitValue_digitChar (by omega)]
          omega
        · rw [decide_eq_false hd, if_neg Bool.false_ne_true, List.append_nil]
          omega
      · omega

theorem numeral_takeWhile_toDigits_eq_iff (hb : 1 < b) (hbc : b < c) (hc' : c ≤ 16) (n : ℕ) :
    numeral b ((Nat.toDigits c n).takeWhile (isDigitIn b)) = n ↔ n < b := by
  constructor
  · intro h
    by_contra hn
    have hlt := (numeral_takeWhile_toDigits hb hbc hc' n).2 (by omega)
    omega
  · intro hn
    rw [Nat.toDigits_of_lt_base (by omega), List.takeWhile_cons, isDigitIn_digitChar (by omega),
      List.takeWhile_nil, decide_eq_true hn, if_pos rfl]
    change b * 0 + digitValue (Nat.digitChar n) = n
    rw [digitValue_digitChar (by omega)]
    omega

end Printed

/-! ## Hexadecimal numbers -/

/-- `%x` of `printf`, with leading zeros up to a width. -/
def printHex (width n : ℕ) : List Char :=
  List.replicate (width - (Nat.toDigits 16 n).length) '0' ++ Nat.toDigits 16 n

section Hex

variable {width n : ℕ}

theorem isDigitIn_of_mem_printHex (width n : ℕ) : ∀ d ∈ printHex width n, isDigitIn 16 d := by
  intro d hd
  rw [printHex, List.mem_append] at hd
  rcases hd with hd | hd
  · rw [List.eq_of_mem_replicate hd]
    rfl
  · exact isDigitIn_of_mem_toDigits (by decide) le_rfl n d hd

theorem not_mem_printHex {d : Char} (hd : isDigitIn 16 d = false) : d ∉ printHex width n := by
  intro hmem
  rw [isDigitIn_of_mem_printHex width n d hmem] at hd
  cases hd

theorem printHex_ne_nil (width n : ℕ) : printHex width n ≠ [] :=
  List.append_ne_nil_of_right_ne_nil _ Nat.toDigits_ne_nil

theorem readSign_dropWhile_isSpace {c : Char} (hc : isDigitIn 16 c) (s : List Char) :
    readSign ((c :: s).dropWhile isSpace) = (false, c :: s) := by
  have hspace : isSpace c = false := by
    rw [Bool.eq_false_iff]
    intro h
    simp only [isSpace, List.mem_cons, List.not_mem_nil, or_false, decide_eq_true_eq] at h
    rcases h with rfl | rfl | rfl | rfl | rfl | rfl <;> cases hc
  rw [List.dropWhile_cons, hspace, if_neg Bool.false_ne_true]
  unfold readSign
  split
  · rename_i h
    cases h
    cases hc
  · rename_i h
    cases h
    cases hc
  · rfl

theorem dropHexPrefix_eq_self {s : List Char} (hs : ∀ d ∈ s, isDigitIn 16 d) : dropHexPrefix s = s := by
  unfold dropHexPrefix
  split
  · cases hs 'x' (List.mem_cons_of_mem _ List.mem_cons_self)
  · cases hs 'X' (List.mem_cons_of_mem _ List.mem_cons_self)
  · rfl

theorem strtol16_printHex (hn : n < 2 ^ 63) : strtol16 (printHex width n) = n := by
  obtain ⟨c, s, hcons⟩ := List.exists_cons_of_ne_nil (printHex_ne_nil width n)
  have hall := isDigitIn_of_mem_printHex width n
  have hsign : readSign ((printHex width n).dropWhile isSpace) = (false, printHex width n) := by
    rw [hcons] at hall ⊢
    exact readSign_dropWhile_isSpace (hall c List.mem_cons_self) s
  rw [strtol16, hsign]
  dsimp only
  rw [dropHexPrefix_eq_self hall, List.takeWhile_eq_self_iff.mpr hall, printHex, numeral_replicate_append,
    numeral_toDigits (by decide) le_rfl, clampLong, if_neg Bool.false_ne_true]
  omega

theorem takeWhile_printHex (width n : ℕ) :
    (printHex width n).takeWhile (isDigitIn 10) =
      List.replicate (width - (Nat.toDigits 16 n).length) '0' ++ (Nat.toDigits 16 n).takeWhile (isDigitIn 10) := by
  apply List.takeWhile_append_of_pos
  intro d hd
  rw [List.eq_of_mem_replicate hd]
  rfl

theorem scanUnsigned_printHex {s : List Char} (hs : EndsDigits 10 s) :
    scanUnsigned (printHex width n ++ s) =
      let digits := (printHex width n).takeWhile (isDigitIn 10)
      if digits = [] then none
      else
        some (if 2 ^ 64 ≤ numeral 10 digits then 2 ^ 64 - 1 else numeral 10 digits,
          (printHex width n).dropWhile (isDigitIn 10) ++ s) := by
  obtain ⟨c, s', hcons⟩ := List.exists_cons_of_ne_nil (printHex_ne_nil width n)
  have hsign : readSign ((printHex width n ++ s).dropWhile isSpace) = (false, printHex width n ++ s) := by
    have hall := isDigitIn_of_mem_printHex width n
    rw [hcons] at hall ⊢
    exact readSign_dropWhile_isSpace (hall c List.mem_cons_self) (s' ++ s)
  rw [scanUnsigned, hsign]
  dsimp only
  rw [takeWhile_append_endsDigits _ hs, dropWhile_append_endsDigits _ hs]
  rfl

/-- A number of one digit is read back. -/
theorem scanUnsigned_digit {s : List Char} (hs : EndsDigits 10 s) (hn : n < 10) :
    scanUnsigned (printHex width n ++ s) = some (n, s) := by
  have hall : ∀ d ∈ printHex width n, isDigitIn 10 d := by
    intro d hd
    rw [printHex, Nat.toDigits_of_lt_base (by omega), List.mem_append, List.mem_singleton] at hd
    rcases hd with hd | hd
    · rw [List.eq_of_mem_replicate hd]
      rfl
    · rw [hd, isDigitIn_digitChar (by omega)]
      exact decide_eq_true hn
  have hvalue : numeral 10 (printHex width n) = n := by
    rw [printHex, numeral_replicate_append, ← List.takeWhile_eq_self_iff.mpr
      (fun d hd => hall d (List.mem_append_right _ hd))]
    exact (numeral_takeWhile_toDigits_eq_iff (by decide) (by decide) le_rfl n).mpr hn
  rw [scanUnsigned_printHex hs]
  dsimp only
  rw [List.takeWhile_eq_self_iff.mpr hall, List.dropWhile_eq_nil_iff.mpr hall, hvalue,
    if_neg (printHex_ne_nil width n), if_neg (by omega)]
  rfl

/-- Any other is read as a smaller one, if as a number at all. -/
theorem scanUnsigned_lt {s rest : List Char} {v : ℕ} (hs : EndsDigits 10 s) (hn : 10 ≤ n) (hn' : n < 2 ^ 64)
    (h : scanUnsigned (printHex width n ++ s) = some (v, rest)) : v < n := by
  have hlt := (numeral_takeWhile_toDigits (b := 10) (c := 16) (by decide) (by decide) le_rfl n).2 hn
  rw [scanUnsigned_printHex hs] at h
  dsimp only at h
  split at h
  · cases h
  · rw [takeWhile_printHex, numeral_replicate_append, if_neg (by omega)] at h
    obtain ⟨rfl, -⟩ := Prod.mk.inj (Option.some.inj h)
    exact hlt

end Hex

end Ocse
