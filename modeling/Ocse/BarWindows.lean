import Ocse.Discovery
import Ocse.Lib.Ranges

/-!
# The windows of the functions

The base address of a function is where the mark stands when it is discovered, and the mark goes on by the size
of its window. Nothing aligns the mark: a window that is larger than one before it may start at no multiple
of its own size, and the function, which implements only the upper address bits, decodes another address.
-/

namespace Ocse

open Traced Extent

def fcnPa (bus : UInt8) (f : ℕ) : UInt64 := (bus.toUInt64 <<< 24) + UInt64.ofNat (f * 0x10000)

def Window.size (w : Window) : ℕ := (windowSize w.low w.high).toNat

def Window.extent (w : Window) : Extent := ⟨w.bar0.toNat, w.size⟩

/-- The window that a function ended up with. -/
def Discovery.windowOf (d : Discovery) (f : ℕ) : Option Window :=
  (d.windows.filter (fun w => w.fcn = f)).getLast?

/-- What the functions with AFUs can rely on. The probe and the two writes stand in the trace. -/
structure BarsAssigned (bus : UInt8) (d : Discovery) (trace : List CfgAccess) : Prop where
  apart : Apart (d.windows.map Window.extent)
  multiple : ∀ w ∈ d.windows, w.size ∣ w.bar0.toNat
  written : ∀ w ∈ d.windows, ∃ low high : UInt64,
    [.write (w.cmdPaFcn + 0x10) 0xFFFFFFFF, .write (w.cmdPaFcn + 0x14) 0xFFFFFFFF,
      .read (w.cmdPaFcn + 0x10) w.low, .read (w.cmdPaFcn + 0x14) w.high,
      .write (w.cmdPaFcn + 0x10) low, .write (w.cmdPaFcn + 0x14) high] <:+: trace ∧
    low.toNat < 2 ^ 32 ∧ high.toNat < 2 ^ 32 ∧ low.toNat + 2 ^ 32 * high.toNat = w.bar0.toNat
  recorded : ∀ f w, d.windowOf f = some w →
    w.cmdPaFcn = fcnPa bus f ∧ ∃ fcn, d.fcnCfgArray f = some fcn ∧ fcn.bar0 = w.bar0

theorem low_add_high (bar : UInt64) :
    (bar &&& 0xFFFFFFFF).toNat < 2 ^ 32 ∧ (bar >>> 32).toNat < 2 ^ 32 ∧
      (bar &&& 0xFFFFFFFF).toNat + 2 ^ 32 * (bar >>> 32).toNat = bar.toNat := by
  have hlow : (bar &&& 0xFFFFFFFF).toNat = bar.toNat % 2 ^ 32 := by
    rw [UInt64.toNat_and]
    exact Nat.and_two_pow_sub_one_eq_mod bar.toNat 32
  have hhigh : (bar >>> 32).toNat = bar.toNat / 2 ^ 32 := by
    rw [UInt64.toNat_shiftRight]
    exact Nat.shiftRight_eq_div_pow bar.toNat 32
  have hlt := bar.toNat_lt
  rw [hlow, hhigh]
  omega

/-! ## The walk -/

/-- The windows lie where the mark stood. -/
structure Discovery.BarsLaid (d : Discovery) (trace : List CfgAccess) : Prop where
  laid : Laid (2 ^ 64) 0x40000000000 (d.windows.map Window.extent)
  mark : d.bar.toNat = (0x40000000000 + total (d.windows.map Window.extent)) % 2 ^ 64
  accesses : ∀ w ∈ d.windows, w.accesses <:+: trace

structure Discovery.Recorded (d : Discovery) (bus : UInt8) (f : ℕ) : Prop where
  windows : ∀ w ∈ d.windows, w.fcn < f
  fcns : ∀ g < f, ∀ w, d.windowOf g = some w →
    w.cmdPaFcn = fcnPa bus g ∧ ∃ fcn, d.fcnCfgArray g = some fcn ∧ fcn.bar0 = w.bar0

/-- While the capabilities of the function `f` are walked, its own record is still in hand. -/
structure Discovery.Recording (d : Discovery) (bus : UInt8) (f : ℕ) (fcn : FcnCfg) : Prop where
  windows : ∀ w ∈ d.windows, w.fcn ≤ f
  fcns : ∀ g < f, ∀ w, d.windowOf g = some w →
    w.cmdPaFcn = fcnPa bus g ∧ ∃ fcn, d.fcnCfgArray g = some fcn ∧ fcn.bar0 = w.bar0
  own : ∀ w, d.windowOf f = some w → w.cmdPaFcn = fcnPa bus f ∧ fcn.bar0 = w.bar0

namespace Discovery

variable {d : Discovery} {trace trace' : List CfgAccess} {bus : UInt8} {f : ℕ} {fcn : FcnCfg}
  {s : FcnCfg × Discovery}

theorem windowOf_eq_none (h : ∀ w ∈ d.windows, w.fcn < f) : d.windowOf f = none := by
  rw [windowOf, List.getLast?_eq_none_iff, List.filter_eq_nil_iff]
  intro w hw
  have hlt := h w hw
  simp only [decide_eq_true_eq]
  omega

theorem windowOf_snoc {d' : Discovery} {w : Window} (hd : d'.windows = d.windows ++ [w]) (g : ℕ) :
    d'.windowOf g = if w.fcn = g then some w else d.windowOf g := by
  rw [windowOf, windowOf, hd, List.filter_append]
  by_cases hg : w.fcn = g
  · rw [if_pos hg, List.filter_cons_of_pos (by simpa using hg)]
    exact List.getLast?_concat
  · rw [if_neg hg, List.filter_cons_of_neg (by simpa using hg)]
    simp

theorem BarsLaid.step (h : d.BarsLaid trace) (hpre : trace <+: trace')
    (hs : CapStep f (fcnPa bus f) trace' fcn d s) : s.2.BarsLaid trace' := by
  have hold : ∀ w ∈ d.windows, w.accesses <:+: trace' := by
    intro w hw
    exact (h.accesses w hw).trans hpre.isInfix
  cases hs with
  | quiet fcn' maxClients => exact ⟨h.laid, h.mark, hold⟩
  | ranges fcn' r afu afuCfgArray => exact ⟨h.laid, h.mark, hold⟩
  | window fcn' w hfcn hpa hbar hbar0 hbase hlength harray haccesses =>
    have hsize : (w.extent).length = (windowSize w.low w.high).toNat := rfl
    refine ⟨?_, ?_, ?_⟩
    · change Laid _ _ ((d.windows ++ [w]).map Window.extent)
      rw [List.map_append, laid_append]
      refine ⟨h.laid, ?_, trivial⟩
      change w.bar0.toNat = _
      rw [hbar, h.mark]
    · change (d.bar + windowSize w.low w.high).toNat = _ % _
      rw [List.map_append, total_append, List.map_singleton, total_cons, total_nil, hsize, UInt64.toNat_add,
        h.mark, Nat.mod_add_mod, Nat.add_zero, Nat.add_assoc]
    · exact List.forall_mem_append.mpr ⟨hold, List.forall_mem_singleton.mpr haccesses⟩

theorem Recorded.start (h : d.Recorded bus f) (fcn : FcnCfg) :
    ({ d with pasid := 0 } : Discovery).Recording bus f fcn where
  windows w hw := Nat.le_of_lt (h.windows w hw)
  fcns := h.fcns
  own w hw := by
    rw [show ({ d with pasid := 0 } : Discovery).windowOf f = d.windowOf f from rfl,
      windowOf_eq_none h.windows] at hw
    cases hw

theorem Recording.step (h : d.Recording bus f fcn) (hs : CapStep f (fcnPa bus f) trace' fcn d s) :
    s.2.Recording bus f s.1 := by
  cases hs with
  | quiet fcn' maxClients hbar0 =>
    refine ⟨h.windows, h.fcns, ?_⟩
    intro w hw
    rw [hbar0]
    exact h.own w hw
  | ranges fcn' r afu afuCfgArray hfcn hlen hpasid hactag hbar0 =>
    refine ⟨h.windows, h.fcns, ?_⟩
    intro w hw
    rw [hbar0]
    exact h.own w hw
  | window fcn' w hfcn hpa hbar hbar0 =>
    refine ⟨List.forall_mem_append.mpr ⟨h.windows, List.forall_mem_singleton.mpr (Nat.le_of_eq hfcn)⟩, ?_, ?_⟩
    · intro g hg w' hw'
      rw [windowOf_snoc rfl, if_neg (by omega)] at hw'
      exact h.fcns g hg w' hw'
    · intro w' hw'
      rw [windowOf_snoc rfl, if_pos hfcn] at hw'
      obtain rfl := Option.some.inj hw'
      exact ⟨hpa, hbar0.trans hbar.symm⟩

/-- The record goes into its place when the walk is over. -/
theorem Recording.finish (h : d.Recording bus f fcn) {d' : Discovery} (hwindows : d'.windows = d.windows)
    (harray : d'.fcnCfgArray = Function.update d.fcnCfgArray f (some fcn)) : d'.Recorded bus (f + 1) := by
  have hof : ∀ g, d'.windowOf g = d.windowOf g := by
    intro g
    rw [windowOf, windowOf, hwindows]
  refine ⟨?_, ?_⟩
  · rw [hwindows]
    intro w hw
    exact Nat.lt_succ_of_le (h.windows w hw)
  · intro g hg w hw
    rw [hof] at hw
    rw [harray]
    by_cases hgf : g = f
    · subst hgf
      rw [Function.update_self]
      exact ⟨(h.own w hw).1, fcn, rfl, (h.own w hw).2⟩
    · rw [Function.update_of_ne hgf]
      exact h.fcns g (by omega) w hw

theorem Recorded.skip (h : d.Recorded bus f) : ({ d with pasid := 0 } : Discovery).Recorded bus (f + 1) where
  windows w hw := Nat.lt_succ_of_lt (h.windows w hw)
  fcns g hg w hw := by
    by_cases hgf : g = f
    · subst hgf
      rw [show ({ d with pasid := 0 } : Discovery).windowOf g = d.windowOf g from rfl,
        windowOf_eq_none h.windows] at hw
      cases hw
    · exact h.fcns g (by omega) w hw

end Discovery

theorem readAfuConfig_bars (cs : CfgSpace) (fresh : Fresh) (n : ℕ) (bus : UInt8) :
    (readAfuConfig cs fresh n bus).Shows [] (fun d trace => d.BarsLaid trace ∧ d.Recorded bus 8) := by
  refine shows_foldlM_range (fun f (d : Discovery) trace => d.BarsLaid trace ∧ d.Recorded bus f) ?_ 8 ?_
  · intro f d trace hd
    refine discoverFcn_shows (fun d trace => d.BarsLaid trace ∧ d.Recorded bus f)
      (fun d trace => d.BarsLaid trace ∧ d.Recorded bus (f + 1))
      (fun s trace => s.2.BarsLaid trace ∧ s.2.Recording bus f s.1) cs fresh n bus f ?_ ?_ ?_ ?_ hd
    · rintro d trace trace' ⟨hlaid, hrecorded⟩ hpre
      exact ⟨⟨hlaid.laid, hlaid.mark, fun w hw => (hlaid.accesses w hw).trans hpre.isInfix⟩, hrecorded.skip⟩
    · rintro fcn d trace trace' ⟨hlaid, hrecorded⟩ hpre _ _
      exact ⟨⟨hlaid.laid, hlaid.mark, fun w hw => (hlaid.accesses w hw).trans hpre.isInfix⟩, hrecorded.start fcn⟩
    · rintro fcn d trace s trace' ⟨hlaid, hrecording⟩ hpre hs
      exact ⟨hlaid.step hpre hs, hrecording.step hs⟩
    · rintro fcn d trace ⟨hlaid, hrecording⟩
      refine ⟨⟨hlaid.laid, hlaid.mark, ?_⟩, hrecording.finish rfl rfl⟩
      intro w hw
      exact (hlaid.accesses w hw).trans (List.prefix_append _ _).isInfix
  · refine ⟨⟨trivial, rfl, ?_⟩, ⟨?_, ?_⟩⟩
    · intro w hw
      cases hw
    · intro w hw
      cases hw
    · intro g hg
      cases hg

/-- A device with two functions, each with a function DVSEC only; the sizes of their windows are `2 ^ 32 - low`. -/
def barDevice (low₀ low₁ : UInt32) : CfgSpace := fun _ pa =>
  if 2 ≤ pa.toNat / 0x10000 then 0xFFFFFFFF
  else if pa.toNat % 0x10000 = 0 then 0x062B1014
  else if pa.toNat % 0x10000 = 0x10 then if pa.toNat / 0x10000 = 0 then low₀ else low₁
  else if pa.toNat % 0x10000 = 0x14 then 0xFFFFFFFF
  else if pa.toNat % 0x10000 = 0x108 then 0x8000F001
  else 0x00000023

def freshZero : Fresh where
  fcn _ := ⟨0, 0, 0, 0, 0, 0, 0, 0, 0, 0, 0, 0, 0, 0, none⟩
  afu _ := ⟨0, 0, 0, 0, 0, 0, [], 0, 0, 0, 0, 0, 0, 0, 0, 0, 0⟩

/-- 64 KB for the first function, then 1 MB for the second, whose window starts 64 KB behind a multiple of
1 MB. -/
theorem growingWindows_misaligned : ∃ d trace,
    readAfuConfig (barDevice 0xFFFF0000 0xFFF00000) freshZero 1 0 [] = some (d, trace) ∧
      d.windows.map Window.extent = [⟨0x40000000000, 0x10000⟩, ⟨0x40000010000, 0x100000⟩] ∧
      ¬ BarsAssigned 0 d trace := by
  have hrun : ((readAfuConfig (barDevice 0xFFFF0000 0xFFF00000) freshZero 1 0) []).map (fun s => s.1.windows) =
      some [⟨0, 0, 0xFFFF0000, 0xFFFFFFFF, 0x40000000000⟩, ⟨1, 0x10000, 0xFFF00000, 0xFFFFFFFF, 0x40000010000⟩] := by
    decide +kernel
  obtain ⟨⟨d, trace⟩, hread, hwindows⟩ := Option.map_eq_some_iff.mp hrun
  dsimp only at hwindows
  refine ⟨d, trace, hread, by rw [hwindows]; decide, ?_⟩
  intro h
  have hmultiple := h.multiple ⟨1, 0x10000, 0xFFF00000, 0xFFFFFFFF, 0x40000010000⟩
    (by rw [hwindows]; exact List.mem_pair.mpr (Or.inr rfl))
  revert hmultiple
  decide

/-- For window sizes that are powers of two: the assignment is right just when the mark stood, for each window
in the order of discovery, at a multiple of its size, and the windows together fit into the address space. -/
theorem barWindows_iff (cs : CfgSpace) (fresh : Fresh) (n : ℕ) (bus : UInt8) (d : Discovery)
    (trace : List CfgAccess) (hread : readAfuConfig cs fresh n bus [] = some (d, trace))
    (hsizes : ∀ w ∈ d.windows, ∃ k, w.size = 2 ^ k) :
    BarsAssigned bus d trace ↔
      Aligned 0x40000000000 (d.windows.map Window.extent) ∧ total (d.windows.map Window.extent) ≤ 2 ^ 64 := by
  obtain ⟨hlaid, hrecorded⟩ := readAfuConfig_bars cs fresh n bus d trace hread
  have hdvd : ∀ r ∈ d.windows.map Window.extent, r.length ∣ 2 ^ 64 := by
    intro r hr
    obtain ⟨w, hw, rfl⟩ := List.mem_map.mp hr
    obtain ⟨k, hk⟩ := hsizes w hw
    have hlt : w.size < 2 ^ 64 := UInt64.toNat_lt _
    change w.size ∣ _
    rw [hk] at hlt ⊢
    exact Nat.pow_dvd_pow 2 (Nat.le_of_lt ((Nat.pow_lt_pow_iff_right (by decide)).mp hlt))
  have hiff := hlaid.laid.apart_and_dvd_iff (by decide) hdvd
  rw [List.forall_mem_map] at hiff
  rw [← hiff]
  constructor
  · intro h
    exact ⟨h.apart, h.multiple⟩
  · rintro ⟨hapart, hmultiple⟩
    refine ⟨hapart, hmultiple, ?_, ?_⟩
    · intro w hw
      exact ⟨_, _, hlaid.accesses w hw, low_add_high w.bar0⟩
    · intro f w hw
      by_cases hf : f < 8
      · exact hrecorded.fcns f hf w hw
      · rw [Discovery.windowOf_eq_none (fun w hw => by have hlt := hrecorded.windows w hw; omega)] at hw
        cases hw

/-- 1 MB first, then 64 KB. -/
theorem shrinkingWindows_assigned : ∃ d trace,
    readAfuConfig (barDevice 0xFFF00000 0xFFFF0000) freshZero 1 0 [] = some (d, trace) ∧
      d.windows.map Window.extent = [⟨0x40000000000, 0x100000⟩, ⟨0x40000100000, 0x10000⟩] ∧
      BarsAssigned 0 d trace := by
  have hrun : ((readAfuConfig (barDevice 0xFFF00000 0xFFFF0000) freshZero 1 0) []).map (fun s => s.1.windows) =
      some [⟨0, 0, 0xFFF00000, 0xFFFFFFFF, 0x40000000000⟩, ⟨1, 0x10000, 0xFFFF0000, 0xFFFFFFFF, 0x40000100000⟩] := by
    decide +kernel
  obtain ⟨⟨d, trace⟩, hread, hwindows⟩ := Option.map_eq_some_iff.mp hrun
  dsimp only at hwindows
  refine ⟨d, trace, hread, by rw [hwindows]; decide, (barWindows_iff _ _ _ _ d trace hread ?_).mpr ?_⟩
  · rw [hwindows]
    intro w hw
    rcases List.mem_pair.mp hw with rfl | rfl
    · exact ⟨20, by decide⟩
    · exact ⟨16, by decide⟩
  · rw [hwindows]
    decide

end Ocse
