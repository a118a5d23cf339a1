import Mathlib.Data.List.Chain
import Ocse.Lpc

/-!
# The loop of an LPC transfer

`ocxl_lpc_write` and `ocxl_lpc_read` run the same loop. Its index, its stride and what remains are ints of 32
bits, and the size has 64; a turn of the loop compares and subtracts in 64 bits and converts the result. The
afu stays open and answers every piece. Two numbers bound the turns of the inner and of the outer loop; a loop
that ends does so for some bounds.
-/

namespace Ocse

/-! ## The loop -/

/-- A conversion to `int`. -/
def cInt (x : ℤ) : ℤ := x.bmod (2 ^ 32)

/-- `while (stride > remainder) stride = stride / 2` -/
def lpcHalve (remainder : ℤ) : ℕ → ℤ → Option ℤ
  | 0, _ => none
  | k + 1, stride => if stride > remainder then lpcHalve remainder k (stride.tdiv 2) else some stride

section Loop

variable {σ : Type} (piece : σ → ℤ → ℤ → σ) (offset size : UInt64) (k : ℕ)

/-- `piece` is what the body does with the piece of length `stride` at `i`. -/
def lpcLoop : ℕ → ℤ → σ → Option σ
  | 0, _, _ => none
  | n + 1, i, s =>
    if UInt64.ofInt i < size then
      let toI := offset + UInt64.ofInt i
      let remainder := cInt (size - UInt64.ofInt i).toNat
      match lpcHalve remainder k (lpcAlign toI) with
      | none => none
      | some stride => lpcLoop n (cInt (i + stride)) (piece s i stride)
    else some s

end Loop

/-- The loop of `ocxl_lpc_write`, and the requests that it makes. -/
def lpcWriteLoop (offset : UInt64) (val : Buffer UInt8) (size : UInt64) (k n : ℕ) : Option (List MemReq) :=
  lpcLoop (fun requests i stride => requests ++
    [{ type := .write, addr := offset + UInt64.ofInt i, size := (UInt64.ofInt stride).toNat
       data := val.read i.toNat stride.toNat, be := 0 }]) offset size k n 0 []

/-- The loop of `ocxl_lpc_read`, with the data that it copies out of the answers to its requests. -/
def lpcReadLoop (offset : UInt64) (out : Buffer UInt8) (size : UInt64) (answer : MemReq → Buffer UInt8)
    (k n : ℕ) : Option (List MemReq × Buffer UInt8) :=
  lpcLoop (fun (requests, out) i stride =>
    let request : MemReq :=
      { type := .read, addr := offset + UInt64.ofInt i, size := (UInt64.ofInt stride).toNat, data := [], be := 0 }
    (requests ++ [request], out.write i.toNat ((answer request).read 0 request.size)))
    offset size k n 0 ([], out)

/-! ## Conversions -/

theorem cInt_of_lt {x : ℕ} (h : x < 2 ^ 31) : cInt x = x := by
  unfold cInt
  rw [Int.bmod_eq_of_le] <;> omega

theorem cInt_natCast (x : ℕ) :
    cInt x = if x % 2 ^ 32 < 2 ^ 31 then ((x % 2 ^ 32 : ℕ) : ℤ) else ((x % 2 ^ 32 : ℕ) : ℤ) - 2 ^ 32 := by
  unfold cInt
  rw [Int.bmod_eq_emod]
  split <;> split <;> omega

theorem ofInt_natCast (i : ℕ) : UInt64.ofInt (i : ℤ) = UInt64.ofNat i := by
  apply UInt64.toNat_inj.mp
  rw [UInt64.ofInt, UInt64.toNat_ofNat', UInt64.toNat_ofNat']
  omega

/-! ## Halving -/

/-- Where something remains, the loop ends with the stride that fits. -/
theorem lpcHalve_fits {remainder : ℕ} (hpos : 0 < remainder) (n k j : ℕ) (hj : j ≤ n) :
    lpcHalve remainder (n + 1 + k) ((2 ^ j : ℕ) : ℤ) = some ((lpcFit remainder n (2 ^ j) : ℕ) : ℤ) := by
  induction n generalizing j with
  | zero =>
      obtain rfl : j = 0 := by omega
      have hk : 0 + 1 + k = k + 1 := by omega
      rw [hk, lpcHalve, if_neg (by omega), lpcFit]
  | succ n ih =>
      have hk : n + 1 + 1 + k = (n + 1 + k) + 1 := by omega
      rw [hk, lpcHalve, lpcFit]
      by_cases hgt : 2 ^ j > remainder
      · rw [if_pos (by exact_mod_cast hgt), if_pos hgt]
        cases j with
        | zero =>
            rw [Nat.pow_zero] at hgt
            omega
        | succ j =>
            have hhalf : 2 ^ (j + 1) / 2 = 2 ^ j := by rw [Nat.pow_succ, Nat.mul_div_cancel _ (by decide)]
            have hhalf' : ((2 ^ (j + 1) : ℕ) : ℤ).tdiv 2 = ((2 ^ j : ℕ) : ℤ) := by
              rw [← hhalf]
              rfl
            rw [hhalf, hhalf']
            exact ih j (by omega)
      · rw [if_neg (by exact_mod_cast hgt), if_neg hgt]

/-- Whatever remains, a loop that ends leaves a stride that is not negative and fits. -/
theorem lpcHalve_bounds {remainder stride stride' : ℤ} {k : ℕ} (hstride : 0 ≤ stride)
    (h : lpcHalve remainder k stride = some stride') : 0 ≤ stride' ∧ stride' ≤ remainder := by
  induction k generalizing stride with
  | zero => cases h
  | succ k ih =>
      rw [lpcHalve] at h
      by_cases hgt : stride > remainder
      · rw [if_pos hgt] at h
        exact ih (Int.tdiv_nonneg hstride (by decide)) h
      · rw [if_neg hgt] at h
        obtain rfl := Option.some.inj h
        exact ⟨hstride, by omega⟩

theorem lpcAlign_pow (toI : UInt64) : ∃ j ≤ 8, lpcAlign toI = 2 ^ j := by
  have hall : ∀ n ∈ lpcSizes, ∃ j ≤ 8, n = 2 ^ j := by decide
  exact hall _ (lpcAlign_spec toI).1

/-! ## A transfer that ends -/

section Ends

variable {σ : Type} (piece : σ → ℤ → ℤ → σ) (offset size : UInt64)

theorem lpcLoop_ends (hsize : size.toNat < 2 ^ 31) (n i : ℕ) (s : σ) (hi : i ≤ size.toNat)
    (hn : size.toNat ≤ i + n) :
    lpcLoop piece offset size 9 (n + 1) i s =
      some ((lpcPieces offset size.toNat n i).foldl (fun s p => piece s (p.1 : ℤ) (p.2 : ℤ)) s) := by
  have hmod : i % 2 ^ 64 = i := Nat.mod_eq_of_lt (by omega)
  have hindex : (UInt64.ofNat i).toNat = i := by rw [UInt64.toNat_ofNat', hmod]
  induction n generalizing i s with
  | zero =>
      rw [lpcLoop, ofInt_natCast, if_neg (by rw [UInt64.lt_iff_toNat_lt, hindex]; omega)]
      rfl
  | succ n ih =>
      rw [lpcLoop, ofInt_natCast, lpcPieces]
      by_cases hlt : i < size.toNat
      · have hleft : (size - UInt64.ofNat i).toNat = size.toNat - i := by
          rw [UInt64.toNat_sub_of_le _ _ (by rw [UInt64.le_iff_toNat_le, hindex]; exact hi), hindex]
        obtain ⟨j, hj, halign⟩ := lpcAlign_pow (offset + UInt64.ofNat i)
        have hhalve := lpcHalve_fits (Nat.sub_pos_of_lt hlt) 8 0 j hj
        rw [← halign] at hhalve
        have hstride := (lpcStride_spec (offset + UInt64.ofNat i) (Nat.sub_pos_of_lt hlt))
        have hpos := lpcSizes_pos hstride.1
        have hle := hstride.2.2
        rw [if_pos (by rw [UInt64.lt_iff_toNat_lt, hindex]; exact hlt), if_pos hlt]
        dsimp only
        rw [hleft, cInt_of_lt (by omega), hhalve]
        change lpcLoop piece offset size 9 (n + 1)
          (cInt ((i : ℤ) + (lpcStride (offset + UInt64.ofNat i) (size.toNat - i) : ℤ))) _ = _
        rw [← Int.natCast_add, cInt_of_lt (by omega)]
        exact ih _ _ (by omega) (by omega) (Nat.mod_eq_of_lt (by omega))
          (by rw [UInt64.toNat_ofNat', Nat.mod_eq_of_lt (by omega)])
      · rw [if_neg (by rw [UInt64.lt_iff_toNat_lt, hindex]; exact hlt), if_neg hlt]
        rfl

/-! ## A transfer that does not -/

/-- When the low word of the size is used up before the size is, nothing remains and the loop goes on. -/
theorem lpcLoop_spins (hlarge : size.toNat % 2 ^ 32 < size.toNat) (hlow : size.toNat % 2 ^ 32 < 2 ^ 31)
    (k n i : ℕ) (s : σ) (hi : i ≤ size.toNat % 2 ^ 32) : lpcLoop piece offset size k n i s = none := by
  induction n generalizing i s with
  | zero => rfl
  | succ n ih =>
      have hindex : (UInt64.ofNat i).toNat = i := by rw [UInt64.toNat_ofNat', Nat.mod_eq_of_lt (by omega)]
      have hleft : (size - UInt64.ofNat i).toNat = size.toNat - i := by
        rw [UInt64.toNat_sub_of_le _ _ (by rw [UInt64.le_iff_toNat_le, hindex]; omega), hindex]
      have hremainder : cInt ((size.toNat - i : ℕ) : ℤ) = ((size.toNat % 2 ^ 32 - i : ℕ) : ℤ) := by
        have hword : (size.toNat - i) % 2 ^ 32 = size.toNat % 2 ^ 32 - i := by omega
        rw [cInt_natCast, hword, if_pos (by omega)]
      rw [lpcLoop, ofInt_natCast, if_pos (by rw [UInt64.lt_iff_toNat_lt, hindex]; omega)]
      dsimp only
      rw [hleft, hremainder]
      cases hhalve : lpcHalve _ k _ with
      | none => rfl
      | some stride =>
          obtain ⟨hnonneg, hle⟩ := lpcHalve_bounds (Int.natCast_nonneg _) hhalve
          obtain ⟨t, rfl⟩ := Int.eq_ofNat_of_zero_le hnonneg
          dsimp only
          rw [← Int.natCast_add, cInt_of_lt (by omega)]
          exact ih (i + t) _ (by omega)

/-- When the low word of the size is negative as an int, the first stride is halved for ever. -/
theorem lpcLoop_stuck (hlow : 2 ^ 31 ≤ size.toNat % 2 ^ 32) (k n : ℕ) (s : σ) :
    lpcLoop piece offset size k n 0 s = none := by
  cases n with
  | zero => rfl
  | succ n =>
      have hsize := size.toNat_lt
      have hleft : size - UInt64.ofInt 0 = size := UInt64.sub_zero size
      have hremainder : cInt size.toNat < 0 := by
        rw [cInt_natCast, if_neg (by omega)]
        omega
      have hmore : UInt64.ofInt 0 < size := by
        rw [UInt64.lt_iff_toNat_lt]
        change 0 < size.toNat
        omega
      rw [lpcLoop, if_pos hmore]
      dsimp only
      rw [hleft]
      cases hhalve : lpcHalve (cInt size.toNat) k _ with
      | none => rfl
      | some stride =>
          obtain ⟨hnonneg, hle⟩ := lpcHalve_bounds (Int.natCast_nonneg _) hhalve
          omega

/-- The loop ends exactly when the size is an int. -/
theorem lpcLoop_some_iff (s : σ) :
    (∃ k n s', lpcLoop piece offset size k n 0 s = some s') ↔ size.toNat < 2 ^ 31 := by
  constructor
  · rintro ⟨k, n, s', hrun⟩
    by_contra hlarge
    by_cases hlow : size.toNat % 2 ^ 32 < 2 ^ 31
    · have hnone := lpcLoop_spins piece offset size (by omega) hlow k n 0 s (Nat.zero_le _)
      rw [Int.natCast_zero, hrun] at hnone
      cases hnone
    · have hnone := lpcLoop_stuck piece offset size (by omega) k n s
      rw [hrun] at hnone
      cases hnone
  · intro hsize
    exact ⟨9, size.toNat + 1, _, lpcLoop_ends piece offset size hsize size.toNat 0 s (Nat.zero_le _) (by omega)⟩

end Ends

/-! ## The pieces -/

/-- The bytes from `offset` on, cut into pieces of an address and a length: powers of two, aligned, adjacent,
inside, and each byte in one of them. -/
structure LpcCut (offset : UInt64) (size : ℕ) (pieces : List (UInt64 × ℕ)) : Prop where
  power : ∀ p ∈ pieces, ∃ j ≤ 8, p.2 = 2 ^ j
  aligned : ∀ p ∈ pieces, p.2 ∣ p.1.toNat
  first : ∀ p ∈ pieces.head?, p.1 = offset
  adjacent : pieces.IsChain (fun p q => q.1 = p.1 + UInt64.ofNat p.2)
  inside : ∀ p ∈ pieces, (p.1 - offset).toNat + p.2 ≤ size
  covers : pieces.flatMap (fun p => (List.range p.2).map (fun j => p.1 + UInt64.ofNat j)) =
    (List.range size).map (fun j => offset + UInt64.ofNat j)

theorem Contiguous.covers_once {i size : ℕ} {ps : List (ℕ × ℕ)} (h : Contiguous i size ps)
    (hin : ∀ p ∈ ps, p.1 + p.2 ≤ size) :
    ps.flatMap (fun p => List.range' p.1 p.2) = List.range' i (size - i) := by
  induction ps generalizing i with
  | nil =>
      have hend : size ≤ i := h
      rw [List.flatMap_nil, Nat.sub_eq_zero_of_le hend, List.range'_zero]
  | cons p ps ih =>
      obtain ⟨rfl, hrest⟩ := h
      have hp := hin p List.mem_cons_self
      have hlen : size - p.1 = p.2 + (size - (p.1 + p.2)) := by omega
      rw [List.flatMap_cons, ih hrest (fun q hq => hin q (List.mem_cons_of_mem p hq)), hlen]
      exact List.range'_append_1

theorem Contiguous.adjacent {i size : ℕ} {ps : List (ℕ × ℕ)} (h : Contiguous i size ps) (offset : UInt64) :
    (ps.map (fun p => (offset + UInt64.ofNat p.1, p.2))).IsChain (fun p q => q.1 = p.1 + UInt64.ofNat p.2) := by
  induction ps generalizing i with
  | nil => exact .nil
  | cons p ps ih =>
      obtain ⟨rfl, hrest⟩ := h
      cases ps with
      | nil => exact .singleton _
      | cons q ps =>
          refine .cons_cons ?_ (ih hrest)
          change offset + UInt64.ofNat q.1 = offset + UInt64.ofNat p.1 + UInt64.ofNat p.2
          rw [hrest.1, UInt64.ofNat_add, UInt64.add_assoc]

theorem lpcPieces_cut (offset : UInt64) {size : ℕ} (hsize : size < 2 ^ 31) :
    LpcCut offset size ((lpcPieces offset size size 0).map (fun p => (offset + UInt64.ofNat p.1, p.2))) := by
  obtain ⟨hpieces, hcontiguous⟩ := lpcPieces_spec offset size size 0 (by omega)
  refine ⟨?_, ?_, ?_, hcontiguous.adjacent offset, ?_, ?_⟩
  · intro p hp
    obtain ⟨q, hq, rfl⟩ := List.mem_map.mp hp
    have hall : ∀ n ∈ lpcSizes, ∃ j ≤ 8, n = 2 ^ j := by decide
    exact hall _ (hpieces q hq).legal
  · intro p hp
    obtain ⟨q, hq, rfl⟩ := List.mem_map.mp hp
    exact (hpieces q hq).aligned
  · intro p hp
    cases hps : lpcPieces offset size size 0 with
    | nil =>
        rw [hps] at hp
        cases hp
    | cons q ps =>
        rw [hps] at hp hcontiguous
        obtain rfl := Option.some.inj hp
        change offset + UInt64.ofNat q.1 = offset
        rw [hcontiguous.1]
        exact UInt64.add_zero offset
  · intro p hp
    obtain ⟨q, hq, rfl⟩ := List.mem_map.mp hp
    have hin := (hpieces q hq).inside
    change (offset + UInt64.ofNat q.1 - offset).toNat + q.2 ≤ size
    rw [UInt64.add_comm, UInt64.add_sub_cancel, UInt64.toNat_ofNat', Nat.mod_eq_of_lt (by omega)]
    exact hin
  · have hcovers := hcontiguous.covers_once (fun p hp => (hpieces p hp).inside)
    rw [Nat.sub_zero, ← List.range_eq_range'] at hcovers
    rw [← hcovers, List.map_flatMap, List.flatMap_map]
    apply List.flatMap_congr
    intro p _
    rw [List.range'_eq_map_range, List.map_map]
    apply List.map_congr_left
    intro j _
    change offset + UInt64.ofNat p.1 + UInt64.ofNat j = offset + UInt64.ofNat (p.1 + j)
    rw [UInt64.ofNat_add, UInt64.add_assoc]

/-- The address and the length of the pieces that a call asks for. -/
def piecesOf (requests : List MemReq) : List (UInt64 × ℕ) := requests.map (fun r => (r.addr, r.size))

section Calls

variable (offset size : UInt64)

theorem piecesOf_fold {σ : Type} (piece : σ → ℤ → ℤ → σ) (asked : σ → List MemReq) {ps : List (ℕ × ℕ)}
    (hpiece : ∀ s (i t : ℕ), t ≤ 256 → piecesOf (asked (piece s i t)) =
      piecesOf (asked s) ++ [(offset + UInt64.ofNat i, t)]) (hps : ∀ p ∈ ps, p.2 ≤ 256) (s : σ) :
    piecesOf (asked (ps.foldl (fun s p => piece s (p.1 : ℤ) (p.2 : ℤ)) s)) =
      piecesOf (asked s) ++ ps.map (fun p => (offset + UInt64.ofNat p.1, p.2)) := by
  induction ps generalizing s with
  | nil => exact (List.append_nil _).symm
  | cons p ps ih =>
      rw [List.foldl_cons, ih (fun q hq => hps q (List.mem_cons_of_mem p hq)),
        hpiece s p.1 p.2 (hps p List.mem_cons_self), List.append_assoc]
      rfl

/-- A loop whose body asks for its piece asks for the pieces of the transfer. -/
theorem lpcLoop_asks {σ : Type} (piece : σ → ℤ → ℤ → σ) (asked : σ → List MemReq) (s : σ)
    (hpiece : ∀ s (i t : ℕ), t ≤ 256 → piecesOf (asked (piece s i t)) =
      piecesOf (asked s) ++ [(offset + UInt64.ofNat i, t)]) (hs : asked s = []) (hsize : size.toNat < 2 ^ 31) :
    ∃ s', lpcLoop piece offset size 9 (size.toNat + 1) 0 s = some s' ∧ piecesOf (asked s') =
      (lpcPieces offset size.toNat size.toNat 0).map (fun p => (offset + UInt64.ofNat p.1, p.2)) := by
  have hsmall : ∀ p ∈ lpcPieces offset size.toNat size.toNat 0, p.2 ≤ 256 := by
    intro p hp
    have hall : ∀ n ∈ lpcSizes, n ≤ 256 := by decide
    exact hall _ ((lpcPieces_spec offset size.toNat size.toNat 0 (by omega)).1 p hp).legal
  refine ⟨_, lpcLoop_ends piece offset size hsize size.toNat 0 s (Nat.zero_le _) (by omega), ?_⟩
  rw [piecesOf_fold offset piece asked hpiece hsmall, hs]
  rfl

theorem ofInt_stride {t : ℕ} (ht : t ≤ 256) : (UInt64.ofInt (t : ℤ)).toNat = t := by
  rw [ofInt_natCast, UInt64.toNat_ofNat', Nat.mod_eq_of_lt (by omega)]

theorem lpcWriteLoop_asks (val : Buffer UInt8) (hsize : size.toNat < 2 ^ 31) :
    ∃ requests, lpcWriteLoop offset val size 9 (size.toNat + 1) = some requests ∧ piecesOf requests =
      (lpcPieces offset size.toNat size.toNat 0).map (fun p => (offset + UInt64.ofNat p.1, p.2)) := by
  refine lpcLoop_asks offset size _ (fun requests => requests) [] ?_ rfl hsize
  intro requests i t ht
  rw [piecesOf, List.map_append, List.map_singleton, ofInt_natCast, ofInt_stride ht]
  rfl

theorem lpcReadLoop_asks (out : Buffer UInt8) (answer : MemReq → Buffer UInt8) (hsize : size.toNat < 2 ^ 31) :
    ∃ s, lpcReadLoop offset out size answer 9 (size.toNat + 1) = some s ∧ piecesOf s.1 =
      (lpcPieces offset size.toNat size.toNat 0).map (fun p => (offset + UInt64.ofNat p.1, p.2)) := by
  refine lpcLoop_asks offset size _ Prod.fst ([], out) ?_ rfl hsize
  rintro ⟨requests, out⟩ i t ht
  change piecesOf (requests ++ [_]) = _
  rw [piecesOf, List.map_append, List.map_singleton, ofInt_natCast, ofInt_stride ht]
  rfl

/-- For every offset and every size below 2^31 both calls end, and they ask for the same pieces, which cut the
transfer. -/
theorem lpcTransfer_cut (val out : Buffer UInt8) (answer : MemReq → Buffer UInt8) (hsize : size.toNat < 2 ^ 31) :
    ∃ pieces, LpcCut offset size.toNat pieces ∧
      (∃ k n requests, lpcWriteLoop offset val size k n = some requests ∧ piecesOf requests = pieces) ∧
      ∃ k n s, lpcReadLoop offset out size answer k n = some s ∧ piecesOf s.1 = pieces :=
  ⟨_, lpcPieces_cut offset hsize, ⟨9, size.toNat + 1, lpcWriteLoop_asks offset size val hsize⟩,
    ⟨9, size.toNat + 1, lpcReadLoop_asks offset size out answer hsize⟩⟩

theorem lpcTransfer_cut_three : ∃ pieces, LpcCut 0xfe 3 pieces ∧
    (∃ k n requests, lpcWriteLoop 0xfe (Buffer.const 0) 3 k n = some requests ∧ piecesOf requests = pieces) ∧
    ∃ k n s, lpcReadLoop 0xfe (Buffer.const 0) 3 (fun _ => Buffer.const 0) k n = some s ∧ piecesOf s.1 = pieces :=
  lpcTransfer_cut 0xfe 3 (Buffer.const 0) (Buffer.const 0) (fun _ => Buffer.const 0) (by decide)

example : (lpcWriteLoop 0xfe (Buffer.const 0) 3 9 4).map piecesOf = some [(0xfe, 2), (0x100, 1)] := by decide +kernel

/-- A call that ends, and asks for no empty piece. -/
def EndsWell {σ : Type} (run : ℕ → ℕ → Option σ) (asked : σ → List MemReq) : Prop :=
  ∃ k n s, run k n = some s ∧ ∀ p ∈ piecesOf (asked s), 0 < p.2

theorem lpcPieces_nonempty : ∀ p ∈ (lpcPieces offset size.toNat size.toNat 0).map
    (fun p => (offset + UInt64.ofNat p.1, p.2)), 0 < p.2 := by
  intro p hp
  obtain ⟨q, hq, rfl⟩ := List.mem_map.mp hp
  exact lpcSizes_pos ((lpcPieces_spec offset size.toNat size.toNat 0 (by omega)).1 q hq).legal

/-- Either call ends, with pieces that are not empty, exactly when the size is below 2^31. -/
theorem lpcTransfer_ends_iff (val out : Buffer UInt8) (answer : MemReq → Buffer UInt8) :
    (EndsWell (lpcWriteLoop offset val size) id ↔ size.toNat < 2 ^ 31) ∧
      (EndsWell (lpcReadLoop offset out size answer) Prod.fst ↔ size.toNat < 2 ^ 31) := by
  refine ⟨⟨?_, fun hsize => ?_⟩, ⟨?_, fun hsize => ?_⟩⟩
  · rintro ⟨k, n, requests, hrun, -⟩
    exact (lpcLoop_some_iff _ offset size []).mp ⟨k, n, requests, hrun⟩
  · obtain ⟨requests, hrun, hpieces⟩ := lpcWriteLoop_asks offset size val hsize
    refine ⟨9, size.toNat + 1, requests, hrun, ?_⟩
    rw [id, hpieces]
    exact lpcPieces_nonempty offset size
  · rintro ⟨k, n, s, hrun, -⟩
    exact (lpcLoop_some_iff _ offset size ([], out)).mp ⟨k, n, s, hrun⟩
  · obtain ⟨s, hrun, hpieces⟩ := lpcReadLoop_asks offset size out answer hsize
    refine ⟨9, size.toNat + 1, s, hrun, ?_⟩
    rw [hpieces]
    exact lpcPieces_nonempty offset size

/-- A transfer of 2^31 bytes: what remains is negative, and the stride is halved for ever. -/
theorem lpcTransfer_endless : ¬EndsWell (lpcWriteLoop 0 (Buffer.const 0) 0x80000000) id := by
  rintro ⟨k, n, requests, hrun, -⟩
  have hnone : lpcWriteLoop 0 (Buffer.const 0) 0x80000000 k n = none :=
    lpcLoop_stuck _ 0 0x80000000 (by decide) k n []
  rw [hnone] at hrun
  cases hrun

end Calls

end Ocse
