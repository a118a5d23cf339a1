import Ocse.Discovery
import Mathlib.Data.Fin.Basic
import Mathlib.Data.List.FinRange
import Mathlib.Data.List.ReduceOption

/-!
# Finding an AFU by its name

`_find` answers with the first function that has an AFU of a name, `_find_nth` with a later one. Its count goes
on by one at every function with AFUs, whether an AFU of the name is there or not, and once more at a function
where the search for the name broke off.
-/

namespace Ocse

/-- An OCL with the records of its functions. -/
structure OclCfg where
  bus : UInt8
  fcnCfgArray : Fin 8 → Option FcnCfg

/-- What is answered about an AFU; the device is always 0. -/
structure Place where
  bus : UInt8
  fcn : UInt8
  afuid : UInt8
deriving DecidableEq, Repr

/-! ## Names -/

def cString (chars : List UInt8) : List UInt8 := chars.takeWhile (fun c => c ≠ 0)

/-- `strcmp( name, namespace ) == 0` -/
def AfuCfg.named (afu : AfuCfg) (name : List UInt8) : Bool := cString name = cString afu.nameSpace

/-- A pointer that is not set is passed over. -/
def FcnCfg.hasAfu (fcn : FcnCfg) (name : List UInt8) (afuid : ℕ) : Bool :=
  match fcn.afuCfgArray with
  | none => false
  | some afuCfgArray =>
    match afuCfgArray afuid with
    | none => false
    | some afu => afu.named name

/-- `max_afu_index` is at most 63. -/
def FcnCfg.afuids (fcn : FcnCfg) : List ℕ := List.range (fcn.maxAfuIndex.toNat + 1)

/-! ## The loops -/

section Loops

variable (name : List UInt8) (cardIndex : UInt8)

def findAfu (fcn : FcnCfg) : List ℕ → Option ℕ
  | [] => none
  | afuid :: afuids => if fcn.hasAfu name afuid then some afuid else findAfu fcn afuids

def findFcn (ocl : OclCfg) : List (Fin 8) → Option Place
  | [] => none
  | f :: fcns =>
    match ocl.fcnCfgArray f with
    | none => findFcn ocl fcns
    | some fcn =>
      if fcn.afuPresent = 0 then findFcn ocl fcns
      else
        match findAfu name fcn fcn.afuids with
        | some afuid => some ⟨ocl.bus, UInt8.ofNat f, UInt8.ofNat afuid⟩
        | none => findFcn ocl fcns

def findOcl : List OclCfg → Option Place
  | [] => none
  | ocl :: ocls =>
    match findFcn name ocl (List.finRange 8) with
    | some place => some place
    | none => findOcl ocls

/-- The AFU that is answered with, or the count after the loop. -/
def findNthAfu (fcn : FcnCfg) : List ℕ → ℤ → ℕ ⊕ ℤ
  | [], thisIteration => .inr thisIteration
  | afuid :: afuids, thisIteration =>
    if ¬ fcn.hasAfu name afuid then findNthAfu fcn afuids thisIteration
    else if thisIteration ≠ (cardIndex.toNat : ℤ) then .inr (thisIteration + 1)
    else .inl afuid

def findNthFcn (ocl : OclCfg) : List (Fin 8) → ℤ → Place ⊕ ℤ
  | [], thisIteration => .inr thisIteration
  | f :: fcns, thisIteration =>
    match ocl.fcnCfgArray f with
    | none => findNthFcn ocl fcns thisIteration
    | some fcn =>
      if fcn.afuPresent = 0 then findNthFcn ocl fcns thisIteration
      else
        match findNthAfu name cardIndex fcn fcn.afuids thisIteration with
        | .inl afuid => .inl ⟨ocl.bus, UInt8.ofNat f, UInt8.ofNat afuid⟩
        | .inr thisIteration => findNthFcn ocl fcns (thisIteration + 1)

def findNthOcl : List OclCfg → ℤ → Option Place
  | [], _ => none
  | ocl :: ocls, thisIteration =>
    match findNthFcn name cardIndex ocl (List.finRange 8) thisIteration with
    | .inl place => some place
    | .inr thisIteration => findNthOcl ocls thisIteration

end Loops

/-! ## Requests and replies -/

/-- The AFU index that comes with a request is not looked at. -/
structure FindNth where
  name : List UInt8
  cardIndex : UInt8
  afuIndexValid : UInt8
  afuIndex : UInt8
deriving DecidableEq, Repr

/-- `none` while the socket does not hold the whole request. -/
def readFindNth : List UInt8 → Option FindNth
  | [] => none
  | nameLength :: bytes =>
    match bytes.drop nameLength.toNat with
    | cardIndex :: afuIndexValid :: afuIndex :: _ =>
      some ⟨bytes.take nameLength.toNat, cardIndex, afuIndexValid, afuIndex⟩
    | _ => none

/-- What `_find_afu_nth` sends. -/
def findAfuNthMessage (name : List UInt8) (cardIndex : UInt8) (afuIndex : Int16) : List UInt8 :=
  0x31 :: UInt8.ofNat (cString name).length ::
    (cString name ++ [cardIndex, if afuIndex < 0 then 0 else 1, afuIndex.toUInt16.toUInt8])

def findReply : Option Place → List UInt8
  | some place => [0x32, place.bus, 0, place.fcn, place.afuid]
  | none => [0xff]

def find (ocls : List OclCfg) (name : List UInt8) : List UInt8 := findReply (findOcl name ocls)

def findNth (ocls : List OclCfg) (r : FindNth) : List UInt8 :=
  findReply (findNthOcl r.name r.cardIndex ocls 0)

/-! ## What is looked for -/

/-- The functions with AFUs, each with the first AFU of the name if it has one. -/
def OclCfg.places (ocl : OclCfg) (name : List UInt8) (f : Fin 8) : Option (Option Place) :=
  match ocl.fcnCfgArray f with
  | none => none
  | some fcn =>
    if fcn.afuPresent = 0 then none
    else some ((fcn.afuids.find? (fcn.hasAfu name)).map
      (fun afuid => ⟨ocl.bus, UInt8.ofNat f, UInt8.ofNat afuid⟩))

def places (name : List UInt8) (ocls : List OclCfg) : List (Option Place) :=
  ocls.flatMap (fun ocl => (List.finRange 8).filterMap (ocl.places name))

/-- The functions that contain an AFU of the name, in list and function order. -/
def occurrences (name : List UInt8) (ocls : List OclCfg) : List Place := (places name ocls).reduceOption

structure FindsNth (ocls : List OclCfg) (r : FindNth) : Prop where
  answer : findNth ocls r = findReply (occurrences r.name ocls)[r.cardIndex.toNat]?
  first : r.cardIndex = 0 → findNth ocls r = find ocls r.name

/-- A function with the name at which the count is `k`: so many functions with AFUs and, once more, functions
with the name are before it. -/
def CountedAt (k : ℕ) (p : Place) (places : List (Option Place)) : Prop :=
  ∃ before after, places = before ++ some p :: after ∧ before.length + before.reduceOption.length = k

/-- A request is read as it was sent, while its name is not too long for the byte that carries its length. -/
theorem readFindNth_message {name : List UInt8} (h : (cString name).length < 256) (cardIndex : UInt8)
    (afuIndex : Int16) (rest : List UInt8) :
    readFindNth ((findAfuNthMessage name cardIndex afuIndex).tail ++ rest) =
      some ⟨cString name, cardIndex, if afuIndex < 0 then 0 else 1, afuIndex.toUInt16.toUInt8⟩ := by
  have hlength : (UInt8.ofNat (cString name).length).toNat = (cString name).length := UInt8.toNat_ofNat_of_lt' h
  rw [findAfuNthMessage, List.tail_cons, List.cons_append, List.append_assoc, readFindNth, hlength,
    List.drop_left, List.take_left]
  rfl

/-! ## The first one -/

theorem findReply_inj {p q : Option Place} : findReply p = findReply q ↔ p = q := by
  constructor
  · intro h
    match p, q with
    | none, none => rfl
    | none, some _ => cases h
    | some _, none => cases h
    | some p, some q =>
      simp only [findReply, List.cons.injEq] at h
      obtain ⟨-, hbus, -, hfcn, hafuid, -⟩ := h
      cases p
      cases q
      simp only at hbus hfcn hafuid
      rw [hbus, hfcn, hafuid]
  · intro h
    rw [h]

theorem head?_reduceOption_append (ps qs : List (Option Place)) :
    (ps ++ qs).reduceOption.head? = ps.reduceOption.head?.or qs.reduceOption.head? := by
  rw [List.reduceOption_append, List.head?_append]

section First

variable (name : List UInt8)

theorem findAfu_eq (fcn : FcnCfg) (afuids : List ℕ) :
    findAfu name fcn afuids = afuids.find? (fcn.hasAfu name) := by
  induction afuids with
  | nil => rfl
  | cons afuid afuids ih =>
    rw [findAfu, List.find?_cons, ih]
    cases fcn.hasAfu name afuid <;> rfl

theorem findFcn_eq (ocl : OclCfg) (fcns : List (Fin 8)) :
    findFcn name ocl fcns = (fcns.filterMap (ocl.places name)).reduceOption.head? := by
  induction fcns with
  | nil => rfl
  | cons f fcns ih =>
    rw [findFcn, List.filterMap_cons, OclCfg.places]
    cases ocl.fcnCfgArray f with
    | none => exact ih
    | some fcn =>
      dsimp only
      by_cases hpresent : fcn.afuPresent = 0
      · rw [if_pos hpresent, if_pos hpresent]
        exact ih
      · rw [if_neg hpresent, if_neg hpresent, findAfu_eq]
        cases fcn.afuids.find? (fcn.hasAfu name) with
        | none => exact ih
        | some afuid => rfl

theorem findOcl_eq (ocls : List OclCfg) : findOcl name ocls = (occurrences name ocls).head? := by
  induction ocls with
  | nil => rfl
  | cons ocl ocls ih =>
    rw [findOcl, findFcn_eq, occurrences, places, List.flatMap_cons, head?_reduceOption_append, ih]
    cases ((List.finRange 8).filterMap (ocl.places name)).reduceOption.head? <;> rfl

end First

/-! ## The count -/

/-- The loops of `_find_nth` over what is found in each function with AFUs. -/
def countTo (k : ℤ) : List (Option Place) → ℤ → Place ⊕ ℤ
  | [], i => .inr i
  | none :: places, i => countTo k places (i + 1)
  | some p :: places, i => if i ≠ k then countTo k places (i + 1 + 1) else .inl p

theorem countTo_append (k : ℤ) (ps qs : List (Option Place)) (i : ℤ) :
    countTo k (ps ++ qs) i =
      match countTo k ps i with
      | .inl p => .inl p
      | .inr i => countTo k qs i := by
  induction ps generalizing i with
  | nil => rfl
  | cons p ps ih =>
    cases p with
    | none => exact ih (i + 1)
    | some p =>
      rw [List.cons_append, countTo, countTo]
      by_cases hi : i ≠ k
      · rw [if_pos hi, if_pos hi]
        exact ih (i + 1 + 1)
      · rw [if_neg hi, if_neg hi]

section Count

variable (name : List UInt8) (cardIndex : UInt8)

theorem findNthAfu_eq (fcn : FcnCfg) (afuids : List ℕ) (i : ℤ) :
    findNthAfu name cardIndex fcn afuids i =
      match afuids.find? (fcn.hasAfu name) with
      | none => .inr i
      | some afuid => if i ≠ (cardIndex.toNat : ℤ) then .inr (i + 1) else .inl afuid := by
  induction afuids with
  | nil => rfl
  | cons afuid afuids ih =>
    rw [findNthAfu, List.find?_cons, ih]
    cases fcn.hasAfu name afuid <;> rfl

theorem findNthFcn_eq (ocl : OclCfg) (fcns : List (Fin 8)) (i : ℤ) :
    findNthFcn name cardIndex ocl fcns i = countTo cardIndex.toNat (fcns.filterMap (ocl.places name)) i := by
  induction fcns generalizing i with
  | nil => rfl
  | cons f fcns ih =>
    rw [findNthFcn, List.filterMap_cons, OclCfg.places]
    cases ocl.fcnCfgArray f with
    | none => exact ih i
    | some fcn =>
      dsimp only
      by_cases hpresent : fcn.afuPresent = 0
      · rw [if_pos hpresent, if_pos hpresent]
        exact ih i
      · rw [if_neg hpresent, if_neg hpresent, findNthAfu_eq]
        cases fcn.afuids.find? (fcn.hasAfu name) with
        | none => exact ih (i + 1)
        | some afuid =>
          dsimp only [Option.map_some, countTo]
          by_cases hi : i ≠ (cardIndex.toNat : ℤ)
          · rw [if_pos hi, if_pos hi]
            exact ih (i + 1 + 1)
          · rw [if_neg hi, if_neg hi]

theorem findNthOcl_eq (ocls : List OclCfg) (i : ℤ) :
    findNthOcl name cardIndex ocls i = (countTo cardIndex.toNat (places name ocls) i).getLeft? := by
  induction ocls generalizing i with
  | nil => rfl
  | cons ocl ocls ih =>
    rw [findNthOcl, findNthFcn_eq, places, List.flatMap_cons, countTo_append]
    cases countTo cardIndex.toNat ((List.finRange 8).filterMap (ocl.places name)) i with
    | inl p => rfl
    | inr i => exact ih i

end Count

theorem countTo_eq_inl_iff (k : ℤ) (p : Place) (ps : List (Option Place)) (i : ℤ) :
    (countTo k ps i).getLeft? = some p ↔
      ∃ before after, ps = before ++ some p :: after ∧
        i + before.length + before.reduceOption.length = k := by
  induction ps generalizing i with
  | nil =>
    constructor
    · intro h
      cases h
    · rintro ⟨before, after, h, -⟩
      exact absurd h.symm (List.append_ne_nil_of_right_ne_nil before (List.cons_ne_nil _ after))
  | cons q ps ih =>
    cases q with
    | none =>
      rw [countTo, ih]
      constructor
      · rintro ⟨before, after, rfl, hcount⟩
        refine ⟨none :: before, after, rfl, ?_⟩
        rw [List.length_cons, List.reduceOption_cons_of_none]
        push_cast
        omega
      · rintro ⟨before, after, h, hcount⟩
        cases before with
        | nil => cases h
        | cons q before =>
          obtain ⟨rfl, rfl⟩ := List.cons.inj h
          refine ⟨before, after, rfl, ?_⟩
          rw [List.length_cons, List.reduceOption_cons_of_none] at hcount
          push_cast at hcount
          omega
    | some q =>
      rw [countTo]
      by_cases hi : i ≠ k
      · rw [if_pos hi, ih]
        constructor
        · rintro ⟨before, after, rfl, hcount⟩
          refine ⟨some q :: before, after, rfl, ?_⟩
          rw [List.length_cons, List.reduceOption_cons_of_some, List.length_cons]
          push_cast
          omega
        · rintro ⟨before, after, h, hcount⟩
          cases before with
          | nil =>
            rw [List.length_nil, List.reduceOption_nil] at hcount
            simp only [List.length_nil] at hcount
            omega
          | cons q' before =>
            obtain ⟨rfl, rfl⟩ := List.cons.inj h
            refine ⟨before, after, rfl, ?_⟩
            rw [List.length_cons, List.reduceOption_cons_of_some, List.length_cons] at hcount
            push_cast at hcount
            omega
      · rw [if_neg hi]
        constructor
        · intro h
          obtain rfl := Option.some.inj h
          refine ⟨[], ps, rfl, ?_⟩
          simp only [List.length_nil, List.reduceOption_nil]
          omega
        · rintro ⟨before, after, h, hcount⟩
          cases before with
          | nil =>
            obtain ⟨hq, -⟩ := List.cons.inj h
            exact hq
          | cons q' before =>
            obtain ⟨rfl, rfl⟩ := List.cons.inj h
            rw [List.length_cons, List.reduceOption_cons_of_some, List.length_cons] at hcount
            push_cast at hcount
            omega

theorem findNthOcl_eq_some_iff (name : List UInt8) (cardIndex : UInt8) (ocls : List OclCfg) (p : Place) :
    findNthOcl name cardIndex ocls 0 = some p ↔ CountedAt cardIndex.toNat p (places name ocls) := by
  rw [findNthOcl_eq, countTo_eq_inl_iff, CountedAt]
  constructor
  · rintro ⟨before, after, hplaces, hcount⟩
    exact ⟨before, after, hplaces, by omega⟩
  · rintro ⟨before, after, hplaces, hcount⟩
    exact ⟨before, after, hplaces, by omega⟩

/-- The answer is right just when the function whose count is the card index is, if there is one, the one that
was asked for, and if more than so many functions have the name there is one. -/
theorem findNth_iff (ocls : List OclCfg) (r : FindNth) :
    FindsNth ocls r ↔
      (∀ p, (occurrences r.name ocls)[r.cardIndex.toNat]? = some p →
        CountedAt r.cardIndex.toNat p (places r.name ocls)) ∧
      ((occurrences r.name ocls).length ≤ r.cardIndex.toNat →
        ∀ p, ¬ CountedAt r.cardIndex.toNat p (places r.name ocls)) := by
  have hanswer : FindsNth ocls r ↔
      findNthOcl r.name r.cardIndex ocls 0 = (occurrences r.name ocls)[r.cardIndex.toNat]? := by
    constructor
    · intro h
      exact findReply_inj.mp h.answer
    · intro h
      refine ⟨congrArg findReply h, ?_⟩
      intro hzero
      rw [findNth, find, h, hzero, findOcl_eq, List.head?_eq_getElem?]
      rfl
  rw [hanswer]
  constructor
  · intro h
    refine ⟨?_, ?_⟩
    · intro p hp
      rw [← findNthOcl_eq_some_iff, h, hp]
    · intro hle p hcounted
      rw [← findNthOcl_eq_some_iff, h, List.getElem?_eq_none hle] at hcounted
      cases hcounted
  · rintro ⟨hsome, hnone⟩
    cases hocc : (occurrences r.name ocls)[r.cardIndex.toNat]? with
    | some p => exact (findNthOcl_eq_some_iff ..).mpr (hsome p hocc)
    | none =>
      rw [Option.eq_none_iff_forall_ne_some]
      intro p hp
      exact hnone (List.getElem?_eq_none_iff.mp hocc) p ((findNthOcl_eq_some_iff ..).mp hp)

/-- Where no two functions are reported under one address, the first card is the only one that is ever found
where it is, and only when it is the first function with AFUs. -/
theorem countedAt_occurrence_iff {name : List UInt8} {ocls : List OclCfg} {k : ℕ} {p : Place}
    (hnodup : (occurrences name ocls).Nodup) (hp : (occurrences name ocls)[k]? = some p) :
    CountedAt k p (places name ocls) ↔ k = 0 ∧ (places name ocls).head? = some (some p) := by
  constructor
  · rintro ⟨before, after, hplaces, hcount⟩
    have hocc : occurrences name ocls = before.reduceOption ++ p :: after.reduceOption := by
      rw [occurrences, hplaces, List.reduceOption_append, List.reduceOption_cons_of_some]
    have hk : before.reduceOption.length = k := by
      have hself : (occurrences name ocls)[before.reduceOption.length]? = some p := by
        rw [hocc, List.getElem?_append_right (Nat.le_refl _), Nat.sub_self]
        rfl
      obtain ⟨hlt, -⟩ := List.getElem?_eq_some_iff.mp hself
      exact (List.getElem?_inj hlt hnodup).mp (hself.trans hp.symm)
    have hbefore : before = [] := List.length_eq_zero_iff.mp (by omega)
    subst hbefore
    exact ⟨hk.symm, by rw [hplaces]; rfl⟩
  · rintro ⟨rfl, hhead⟩
    obtain ⟨after, hplaces⟩ := List.head?_eq_some_iff.mp hhead
    exact ⟨[], after, hplaces, rfl⟩

/-- A function with one AFU, of the name `A`. -/
def namedFcn : FcnCfg :=
  ⟨0x062B, 0x1014, 0x40000000000, 0, 0, 0, 0, 0, 0, 0x80, 0, 0, 0, 0,
    some (fun afuid => if afuid = 0 then some ⟨0, 0, 0, 0, 0, 0, [0x41, 0], 0, 0, 0, 0, 0, 0, 0, 0, 0, 0⟩ else none)⟩

/-- Functions 0 and 1 have the name. The second one is asked for, and the search fails: at the second the count
is 2. -/
theorem secondCard_notFound :
    let ocls : List OclCfg := [⟨5, fun f => if f.val < 2 then some namedFcn else none⟩]
    (occurrences [0x41] ocls)[1]? = some ⟨5, 1, 0⟩ ∧ findNth ocls ⟨[0x41], 1, 0, 0⟩ = [0xff] ∧
      ¬ FindsNth ocls ⟨[0x41], 1, 0, 0⟩ := by
  intro ocls
  have hreply : findNth ocls ⟨[0x41], 1, 0, 0⟩ = [0xff] := by decide
  have hocc : (occurrences [0x41] ocls)[1]? = some ⟨5, 1, 0⟩ := by decide
  refine ⟨hocc, hreply, ?_⟩
  intro h
  have hanswer := h.answer
  have hindex : (⟨[0x41], 1, 0, 0⟩ : FindNth).cardIndex.toNat = 1 := rfl
  rw [hreply, hindex, hocc] at hanswer
  cases hanswer

end Ocse
