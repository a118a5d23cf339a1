import Ocse.BarWindows

/-!
# The ranges of PASIDs and acTags

The PASIDs of an AFU start at a mark that every function starts over with, the acTags at one for the whole
device. A function's own range of acTags starts where the mark stood at its function DVSEC, and its length is
the sum of its AFUs'. The fields of the records are narrower than the marks.
-/

namespace Ocse

open Traced Extent

def AfuRange.pasids (a : AfuRange) : Extent := ⟨a.pasidBase.toNat, 2 ^ a.pasidLen.toNat⟩

def AfuRange.actags (a : AfuRange) : Extent := ⟨a.actagBase.toNat, a.actagLength.toNat⟩

def FcnRange.actags (r : FcnRange) : Extent := ⟨r.actagBase.toNat, r.actagLength.toNat⟩

namespace Discovery

/-- The AFUs of a function, in the order in which they got their ranges. -/
def afusOf (d : Discovery) (f : ℕ) : List AfuRange := d.afus.filter (fun a => a.fcn = f)

/-- The last ranges that were given to an AFU. -/
def rangeOf (d : Discovery) (f afuIndex : ℕ) : Option AfuRange :=
  ((d.afusOf f).filter (fun a => a.afuIndex = afuIndex)).getLast?

/-- Every mark fits into the field that keeps it. -/
structure MarksFit (d : Discovery) : Prop where
  pasids : ∀ f, Fits (2 ^ 8) 0 ((d.afusOf f).map AfuRange.pasids)
  actags : Fits (2 ^ 16) 0 (d.afus.map AfuRange.actags)
  lengths : ∀ f, total ((d.afusOf f).map AfuRange.actags) < 2 ^ 16

end Discovery

theorem FcnCfg.toNat_actagWord (fcn : FcnCfg) : fcn.actagWord.toNat =
    2 ^ 16 * fcn.functionActagBase.toNat + fcn.functionActagLengthEnabled.toNat := by
  have hbase := fcn.functionActagBase.toNat_lt
  have hlength := fcn.functionActagLengthEnabled.toNat_lt
  rw [FcnCfg.actagWord, UInt64.toNat_or, UInt64.toNat_shiftLeft, UInt16.toNat_toUInt64, UInt16.toNat_toUInt64,
    show (16 : UInt64).toNat % 64 = 16 from rfl, Nat.shiftLeft_eq, Nat.mod_eq_of_lt (by omega), Nat.mul_comm]
  exact (Nat.two_pow_add_eq_or_of_lt hlength _).symm

namespace Discovery

variable {d d' : Discovery} {trace trace' : List CfgAccess} {bus : UInt8} {f : ℕ} {fcn : FcnCfg}
  {s : FcnCfg × Discovery} {a : AfuRange}

theorem afusOf_eq_nil (h : ∀ a ∈ d.afus, a.fcn < f) : d.afusOf f = [] := by
  rw [afusOf, List.filter_eq_nil_iff]
  intro a ha
  have hlt := h a ha
  simp only [decide_eq_true_eq]
  omega

theorem afusOf_snoc (hd : d'.afus = d.afus ++ [a]) (f : ℕ) :
    d'.afusOf f = if a.fcn = f then d.afusOf f ++ [a] else d.afusOf f := by
  rw [afusOf, afusOf, hd, List.filter_append]
  by_cases hf : a.fcn = f
  · rw [if_pos hf, List.filter_cons_of_pos (by simpa using hf)]
    rfl
  · rw [if_neg hf, List.filter_cons_of_neg (by simpa using hf)]
    exact List.append_nil _

/-! ## The marks -/

structure RangesLaid (d : Discovery) (trace : List CfgAccess) : Prop where
  pasids : ∀ f, Laid (2 ^ 8) 0 ((d.afusOf f).map AfuRange.pasids)
  actags : Laid (2 ^ 16) 0 (d.afus.map AfuRange.actags)
  actag : d.actag.toNat = total (d.afus.map AfuRange.actags) % 2 ^ 64
  afusWritten : ∀ a ∈ d.afus, a.accesses <:+: trace
  fcnsWritten : ∀ r ∈ d.fcns, ∃ word : UInt64, .write (r.functionDvsecPa + 0x0c) word ∈ trace ∧
    word.toNat = 2 ^ 16 * r.actagBase.toNat + r.actagLength.toNat

/-- The mark of the PASIDs while the capabilities of the function `f` are walked. -/
structure PasidMark (d : Discovery) (f : ℕ) : Prop where
  afus : ∀ a ∈ d.afus, a.fcn ≤ f
  pasid : d.pasid.toNat = total ((d.afusOf f).map AfuRange.pasids) % 2 ^ 64

theorem RangesLaid.longer (h : d.RangesLaid trace) (hpre : trace <+: trace') : d.RangesLaid trace' where
  pasids := h.pasids
  actags := h.actags
  actag := h.actag
  afusWritten a ha := (h.afusWritten a ha).trans hpre.isInfix
  fcnsWritten r hr := by
    obtain ⟨word, hmem, hword⟩ := h.fcnsWritten r hr
    exact ⟨word, hpre.subset hmem, hword⟩

theorem RangesLaid.step (h : d.RangesLaid trace) (hmark : d.PasidMark f) (hpre : trace <+: trace')
    (hs : CapStep f (fcnPa bus f) trace' fcn d s) : s.2.RangesLaid trace' ∧ s.2.PasidMark f := by
  have hlonger := h.longer hpre
  cases hs with
  | quiet fcn' maxClients =>
    exact ⟨⟨hlonger.pasids, hlonger.actags, hlonger.actag, hlonger.afusWritten, hlonger.fcnsWritten⟩,
      ⟨hmark.afus, hmark.pasid⟩⟩
  | window fcn' w =>
    exact ⟨⟨hlonger.pasids, hlonger.actags, hlonger.actag, hlonger.afusWritten, hlonger.fcnsWritten⟩,
      ⟨hmark.afus, hmark.pasid⟩⟩
  | ranges fcn' a afu afuCfgArray hfcn hlen hpasid hactag hbar0 hbase hlength harray harray' hafu haccesses =>
    have hpow : (UInt64.ofNat (2 ^ a.pasidLen.toNat)).toNat = 2 ^ a.pasidLen.toNat := by
      rw [UInt64.toNat_ofNat']
      exact Nat.mod_eq_of_lt (Nat.pow_lt_pow_right (by decide) (by omega))
    refine ⟨⟨?_, ?_, ?_, ?_, h.longer hpre |>.fcnsWritten⟩, ⟨?_, ?_⟩⟩
    · intro g
      rw [afusOf_snoc rfl]
      by_cases hg : a.fcn = g
      · subst hg
        rw [if_pos rfl, List.map_append, laid_append]
        refine ⟨h.pasids _, ?_, trivial⟩
        change a.pasidBase.toNat = _
        rw [hpasid, UInt64.toNat_toUInt8, hmark.pasid, hfcn, Nat.zero_add]
        exact Nat.mod_mod_of_dvd _ (by decide)
      · rw [if_neg hg]
        exact h.pasids g
    · change Laid _ _ ((d.afus ++ [a]).map AfuRange.actags)
      rw [List.map_append, laid_append]
      refine ⟨h.actags, ?_, trivial⟩
      change a.actagBase.toNat = _
      rw [hactag, UInt64.toNat_toUInt16, h.actag, Nat.zero_add]
      exact Nat.mod_mod_of_dvd _ (by decide)
    · change (d.actag + a.actagLength.toUInt64).toNat = total ((d.afus ++ [a]).map AfuRange.actags) % _
      rw [List.map_append, total_append, UInt64.toNat_add, h.actag, UInt16.toNat_toUInt64, Nat.mod_add_mod]
      rfl
    · exact List.forall_mem_append.mpr ⟨hlonger.afusWritten, List.forall_mem_singleton.mpr haccesses⟩
    · exact List.forall_mem_append.mpr ⟨hmark.afus, List.forall_mem_singleton.mpr (Nat.le_of_eq hfcn)⟩
    · change (d.pasid + UInt64.ofNat (2 ^ a.pasidLen.toNat)).toNat = _ % _
      rw [afusOf_snoc rfl, if_pos hfcn, List.map_append, total_append, UInt64.toNat_add, hpow, hmark.pasid,
        Nat.mod_add_mod]
      rfl

/-! ## The functions -/

/-- A function's range of acTags: its AFUs got theirs one after the other. -/
def Spanned (d : Discovery) (f actagBase actagLength : ℕ) : Prop :=
  ∃ before after, d.afus = before ++ d.afusOf f ++ after ∧
    (d.afusOf f ≠ [] → actagBase = total (before.map AfuRange.actags) % 2 ^ 16) ∧
    actagLength = total ((d.afusOf f).map AfuRange.actags) % 2 ^ 16

def AfuRecorded (d : Discovery) (f : ℕ) (fcn : FcnCfg) : Prop :=
  ∀ afuIndex a, d.rangeOf f afuIndex = some a →
    ∃ afuCfgArray afu, fcn.afuCfgArray = some afuCfgArray ∧ afuCfgArray afuIndex = some afu ∧ a.RecordedIn afu

/-- Nothing was given out to the function `f` or one behind it. -/
structure Below (d : Discovery) (f : ℕ) : Prop where
  windows : ∀ w ∈ d.windows, w.fcn < f
  afus : ∀ a ∈ d.afus, a.fcn < f

/-- The functions below `f`. -/
structure Spans (d : Discovery) (f : ℕ) : Prop where
  fcns : ∀ r ∈ d.fcns, r.fcn < f ∧ d.Spanned r.fcn r.actagBase.toNat r.actagLength.toNat
  recorded : ∀ g < f, d.afusOf g ≠ [] → ∃ fcn, d.fcnCfgArray g = some fcn ∧ d.AfuRecorded g fcn

/-- While the capabilities of the function `f` are walked, its AFUs are the last ones. -/
structure Spanning (d : Discovery) (f : ℕ) (fcn : FcnCfg) : Prop extends d.Spans f where
  own : d.AfuRecorded f fcn
  length : fcn.functionActagLengthEnabled.toNat = total ((d.afusOf f).map AfuRange.actags) % 2 ^ 16
  base : ∃ before, d.afus = before ++ d.afusOf f ∧
    (d.windowOf f ≠ none → fcn.functionActagBase.toNat = total (before.map AfuRange.actags) % 2 ^ 16)
  array : fcn.afuCfgArray ≠ none ∨ d.afusOf f ≠ [] → d.windowOf f ≠ none

theorem Below.start (h : d.Below f) : ({ d with pasid := 0 } : Discovery).PasidMark f where
  afus a ha := Nat.le_of_lt (h.afus a ha)
  pasid := by
    rw [show ({ d with pasid := 0 } : Discovery).afusOf f = d.afusOf f from rfl, afusOf_eq_nil h.afus]
    rfl

theorem rangeOf_of_afusOf_eq_nil (h : d.afusOf f = []) (afuIndex : ℕ) : d.rangeOf f afuIndex = none := by
  rw [rangeOf, h]
  rfl

theorem Spans.start (h : d.Spans f) (hbelow : d.Below f) (harray : fcn.afuCfgArray = none)
    (hlength : fcn.functionActagLengthEnabled = 0) : ({ d with pasid := 0 } : Discovery).Spanning f fcn := by
  have hafus : d.afusOf f = [] := afusOf_eq_nil hbelow.afus
  have hwindow : d.windowOf f = none := windowOf_eq_none hbelow.windows
  refine ⟨⟨h.fcns, h.recorded⟩, ?_, ?_, ⟨d.afus, ?_, ?_⟩, ?_⟩
  · intro afuIndex a ha
    rw [show ({ d with pasid := 0 } : Discovery).rangeOf f afuIndex = d.rangeOf f afuIndex from rfl,
      rangeOf_of_afusOf_eq_nil hafus] at ha
    cases ha
  · change _ = total ((d.afusOf f).map AfuRange.actags) % _
    rw [hlength, hafus]
    rfl
  · change d.afus = d.afus ++ d.afusOf f
    rw [hafus, List.append_nil]
  · intro hne
    exact absurd hwindow hne
  · rintro (hne | hne)
    · exact absurd harray hne
    · exact absurd hafus hne

theorem Spanned.snoc {n m : ℕ} (h : d.Spanned f n m) (hd : d'.afus = d.afus ++ [a]) (hf : a.fcn ≠ f) :
    d'.Spanned f n m := by
  obtain ⟨before, after, hafus, hbase, hlength⟩ := h
  have hsame : d'.afusOf f = d.afusOf f := by rw [afusOf_snoc hd, if_neg hf]
  refine ⟨before, after ++ [a], ?_, ?_, ?_⟩
  · rw [hd, hafus, hsame, List.append_assoc]
  · rwa [hsame]
  · rwa [hsame]

theorem rangeOf_snoc (hd : d'.afus = d.afus ++ [a]) (f afuIndex : ℕ) :
    d'.rangeOf f afuIndex = if a.fcn = f ∧ a.afuIndex = afuIndex then some a else d.rangeOf f afuIndex := by
  rw [rangeOf, rangeOf, afusOf_snoc hd]
  by_cases hf : a.fcn = f
  · rw [if_pos hf, List.filter_append]
    by_cases hi : a.afuIndex = afuIndex
    · rw [if_pos ⟨hf, hi⟩, List.filter_cons_of_pos (by simpa using hi)]
      exact List.getLast?_concat
    · rw [if_neg (fun h => hi h.2), List.filter_cons_of_neg (by simpa using hi)]
      simp
  · rw [if_neg hf, if_neg (fun h => hf h.1)]

theorem AfuRecorded.snoc (h : d.AfuRecorded f fcn) (hd : d'.afus = d.afus ++ [a]) (hf : a.fcn ≠ f) :
    d'.AfuRecorded f fcn := by
  intro afuIndex a' ha'
  rw [rangeOf_snoc hd, if_neg (fun h => hf h.1)] at ha'
  exact h afuIndex a' ha'

/-- The AFU's record takes its place in the array of the function. -/
theorem AfuRecorded.own {fcn' : FcnCfg} {afuCfgArray : ℕ → Option AfuCfg} {afu : AfuCfg}
    (h : d.AfuRecorded f fcn) (hd : d'.afus = d.afus ++ [a]) (hf : a.fcn = f) (harray : fcn.afuCfgArray = some afuCfgArray)
    (harray' : fcn'.afuCfgArray = some (Function.update afuCfgArray a.afuIndex (some afu)))
    (hafu : a.RecordedIn afu) : d'.AfuRecorded f fcn' := by
  intro afuIndex a' ha'
  rw [rangeOf_snoc hd] at ha'
  by_cases hindex : a.afuIndex = afuIndex
  · rw [if_pos ⟨hf, hindex⟩] at ha'
    obtain rfl := Option.some.inj ha'
    subst hindex
    exact ⟨_, afu, harray', Function.update_self .., hafu⟩
  · rw [if_neg (fun h => hindex h.2)] at ha'
    obtain ⟨array, afu', hsome, hlookup, hafu'⟩ := h afuIndex a' ha'
    rw [harray] at hsome
    obtain rfl := Option.some.inj hsome
    exact ⟨_, afu', harray', (Function.update_of_ne (Ne.symm hindex) _ _).trans hlookup, hafu'⟩

theorem Spanning.step (h : d.Spanning f fcn) (hlaid : d.RangesLaid trace)
    (hs : CapStep f (fcnPa bus f) trace' fcn d s) (hone : (s.2.windows.map Window.fcn).Nodup) :
    s.2.Spanning f s.1 := by
  cases hs with
  | quiet fcn' maxClients hbar0 hbase hlength harray =>
    refine ⟨⟨h.fcns, h.recorded⟩, ?_, hlength ▸ h.length, ?_, ?_⟩
    · intro afuIndex a ha
      obtain ⟨afuCfgArray, afu, hsome, hlookup⟩ := h.own afuIndex a ha
      exact ⟨afuCfgArray, afu, harray.trans hsome, hlookup⟩
    · rw [hbase]
      exact h.base
    · rw [harray]
      exact h.array
  | window fcn' w hfcn hpa hbar hbar0 hbase hlength harray =>
    -- this is the first function DVSEC, so the function has no AFUs yet
    have hnone : d.windowOf f = none := by
      rw [List.map_append, List.map_singleton, List.nodup_append] at hone
      rw [windowOf, List.getLast?_eq_none_iff, List.filter_eq_nil_iff]
      intro w' hw' hw'f
      refine hone.2.2 w'.fcn (List.mem_map_of_mem hw') w.fcn List.mem_cons_self ?_
      rw [hfcn]
      exact of_decide_eq_true hw'f
    have hafus : d.afusOf f = [] := by
      by_contra hne
      exact h.array (Or.inr hne) hnone
    refine ⟨⟨h.fcns, h.recorded⟩, ?_, hlength ▸ h.length, ⟨d.afus, ?_, ?_⟩, ?_⟩
    · intro afuIndex a ha
      have hrange := rangeOf_of_afusOf_eq_nil hafus afuIndex
      cases hrange.symm.trans ha
    · change d.afus = d.afus ++ d.afusOf f
      rw [hafus, List.append_nil]
    · intro _
      rw [hbase, UInt64.toNat_toUInt16, hlaid.actag]
      exact Nat.mod_mod_of_dvd _ (by decide)
    · intro _
      rw [windowOf_snoc rfl, if_pos hfcn]
      exact Option.some_ne_none w
  | ranges fcn' a afu afuCfgArray hfcn hlen hpasid hactag hbar0 hbase hlength harray harray' hafu =>
    have hwindow : d.windowOf f ≠ none := h.array (Or.inl (by rw [harray]; exact Option.some_ne_none _))
    refine ⟨⟨?_, ?_⟩, h.own.own rfl hfcn harray harray' hafu, ?_, ?_, fun _ => hwindow⟩
    · intro r hr
      obtain ⟨hlt, hspanned⟩ := h.fcns r hr
      exact ⟨hlt, hspanned.snoc rfl (by omega)⟩
    · intro g hg hne
      have hag : a.fcn ≠ g := by omega
      rw [afusOf_snoc rfl, if_neg hag] at hne
      obtain ⟨fcn₀, hsome, hrecorded⟩ := h.recorded g hg hne
      exact ⟨fcn₀, hsome, hrecorded.snoc rfl hag⟩
    · rw [afusOf_snoc rfl, if_pos hfcn, List.map_append, total_append, hlength, UInt16.toNat_add, h.length,
        Nat.mod_add_mod]
      rfl
    · obtain ⟨before, hafus, hbase₀⟩ := h.base
      refine ⟨before, ?_, ?_⟩
      · rw [afusOf_snoc rfl, if_pos hfcn, ← List.append_assoc, ← hafus]
      · intro hne
        rw [hbase]
        exact hbase₀ hne

theorem Spanning.finish (h : d.Spanning f fcn) (hd' : d'.afus = d.afus)
    (harray : d'.fcnCfgArray = Function.update d.fcnCfgArray f (some fcn)) {pa : UInt64}
    (hfcns : d'.fcns = d.fcns ++ [⟨f, pa, fcn.functionActagBase, fcn.functionActagLengthEnabled⟩]) :
    d'.Spans (f + 1) := by
  have hof : ∀ g, d'.afusOf g = d.afusOf g := by
    intro g
    rw [afusOf, afusOf, hd']
  have hspanned : ∀ {g n m}, d.Spanned g n m → d'.Spanned g n m := by
    intro g n m hg
    unfold Spanned at *
    rwa [hof, hd']
  have hrecorded : ∀ {g fcn}, d.AfuRecorded g fcn → d'.AfuRecorded g fcn := by
    intro g fcn hg
    unfold AfuRecorded rangeOf at *
    rwa [hof]
  refine ⟨?_, ?_⟩
  · rw [hfcns]
    refine List.forall_mem_append.mpr ⟨?_, List.forall_mem_singleton.mpr ⟨Nat.lt_succ_self f, hspanned ?_⟩⟩
    · intro r hr
      exact ⟨Nat.lt_succ_of_lt (h.fcns r hr).1, hspanned (h.fcns r hr).2⟩
    · obtain ⟨before, hafus, hbase⟩ := h.base
      refine ⟨before, [], ?_, ?_, h.length⟩
      · rw [List.append_nil]
        exact hafus
      · intro hne
        exact hbase (h.array (Or.inr hne))
  · intro g hg hne
    rw [harray]
    rw [hof] at hne
    by_cases hgf : g = f
    · subst hgf
      rw [Function.update_self]
      exact ⟨fcn, rfl, hrecorded h.own⟩
    · rw [Function.update_of_ne hgf]
      obtain ⟨fcn₀, hsome, hg₀⟩ := h.recorded g (by omega) hne
      exact ⟨fcn₀, hsome, hrecorded hg₀⟩

theorem Spans.skip (h : d.Spans f) (hbelow : d.Below f) :
    ({ d with pasid := 0 } : Discovery).Spans (f + 1) where
  fcns r hr := ⟨Nat.lt_succ_of_lt (h.fcns r hr).1, (h.fcns r hr).2⟩
  recorded g hg hne := by
    by_cases hgf : g = f
    · subst hgf
      exact absurd (afusOf_eq_nil hbelow.afus) hne
    · exact h.recorded g (by omega) hne

theorem RangesLaid.written (h : d.RangesLaid trace) (hafus : d'.afus = d.afus) (hactag : d'.actag = d.actag)
    (hfcns : d'.fcns = d.fcns ++
      [⟨f, fcn.functionDvsecPa, fcn.functionActagBase, fcn.functionActagLengthEnabled⟩]) :
    d'.RangesLaid (trace ++ [.write (fcn.functionDvsecPa + 0x0c) fcn.actagWord]) := by
  have hlonger := h.longer (List.prefix_append trace [.write (fcn.functionDvsecPa + 0x0c) fcn.actagWord])
  have hof : ∀ g, d'.afusOf g = d.afusOf g := by
    intro g
    rw [afusOf, afusOf, hafus]
  refine ⟨?_, ?_, ?_, ?_, ?_⟩
  · intro g
    rw [hof]
    exact h.pasids g
  · rw [hafus]
    exact h.actags
  · rw [hafus, hactag]
    exact h.actag
  · rw [hafus]
    exact hlonger.afusWritten
  · rw [hfcns]
    refine List.forall_mem_append.mpr ⟨hlonger.fcnsWritten, List.forall_mem_singleton.mpr ?_⟩
    exact ⟨fcn.actagWord, List.mem_append_right _ List.mem_cons_self, fcn.toNat_actagWord⟩

/-- Disjoint ranges in their place, while every mark fits. -/
theorem Spanned.covers {n m : ℕ} (h : d.Spanned f n m) (hlaid : d.RangesLaid trace) (hfit : d.MarksFit) :
    Extent.set ⟨n, m⟩ = ⋃ a ∈ (d.afusOf f).map AfuRange.actags, a.set := by
  obtain ⟨before, after, hafus, hbase, hlength⟩ := h
  rw [Nat.mod_eq_of_lt (hfit.lengths f)] at hlength
  by_cases hnil : d.afusOf f = []
  · rw [hnil] at hlength ⊢
    subst hlength
    simp [Extent.set]
  · have hlaids := hlaid.actags
    have hfits := hfit.actags
    rw [hafus, List.map_append, List.map_append, List.append_assoc] at hlaids hfits
    have hown := (laid_append.mp (laid_append.mp hlaids).2).1
    have hownFits := (fits_append.mp (fits_append.mp hfits).2).1
    rw [Nat.zero_add] at hown hownFits
    obtain ⟨a, as, has⟩ := List.exists_cons_of_ne_nil hnil
    have hlt : total (before.map AfuRange.actags) < 2 ^ 16 := by
      rw [has] at hownFits
      exact hownFits.1
    rw [hown.iUnion_set hownFits, hlength, hbase hnil, Nat.mod_eq_of_lt hlt]
    rfl

end Discovery

end Ocse
