import Ocse.Mmio
import Ocse.Lib.Ranges

/-!
# The per-PASID windows

A client's per-PASID MMIO space is the window of `pp_mmio_stride` bytes that its context picks. `_add_event`
multiplies the stride with the context in 32 bits and widens the product afterwards, so the windows are apart
just as long as the product of the stride and the last context fits into 32 bits.
-/

namespace Ocse

/-- Where the window of a context starts, in exact arithmetic. -/
def MmioCfg.window (cfg : MmioCfg) (context : ℕ) : ℕ :=
  cfg.bar0.toNat + cfg.ppMmioOffset.toNat + cfg.ppMmioStride.toNat * context

/-- The address of the event that was queued last. -/
def Mmio.lastPA (m : Mmio) : Option UInt64 := m.list.getLast?.map MmioEvent.cmdPA

def MmioCfg.cmdPA (cfg : MmioCfg) (context : ℕ) (addr : UInt64) : UInt64 :=
  { cfg with context }.base false + addr

/-- Whichever two accesses two clients make, the addresses are those of their own windows and differ. -/
def MmioCfg.Isolated (cfg : MmioCfg) (maxClients : ℕ) : Prop :=
  ∀ (m₁ m₂ : Mmio) (rnw₁ rnw₂ dw₁ dw₂ : Bool) (data₁ data₂ : UInt64) (c₁ c₂ : ℕ) (addr₁ addr₂ : UInt64),
    c₁ < maxClients → c₂ < maxClients → c₁ ≠ c₂ →
    addr₁.toNat < cfg.ppMmioStride.toNat → addr₂.toNat < cfg.ppMmioStride.toNat →
    ∃ pa₁ pa₂, (addMmio m₁ { cfg with context := c₁ } rnw₁ dw₁ false addr₁ data₁).lastPA = some pa₁ ∧
      (addMmio m₂ { cfg with context := c₂ } rnw₂ dw₂ false addr₂ data₂).lastPA = some pa₂ ∧
      pa₁ ≠ pa₂ ∧ pa₁.toNat = cfg.window c₁ + addr₁.toNat ∧ pa₂.toNat = cfg.window c₂ + addr₂.toNat

theorem lastPA_addMmio (m : Mmio) (cfg : MmioCfg) (rnw dw : Bool) (addr data : UInt64) :
    (addMmio m cfg rnw dw false addr data).lastPA = some (cfg.base false + addr) := by
  simp [addMmio, Mmio.append, Mmio.lastPA, MmioEvent.new]

namespace MmioCfg

variable (cfg : MmioCfg) {context maxClients : ℕ} {addr : UInt64}

/-- The product as it is computed. -/
theorem toNat_cmdPA (hstride : cfg.ppMmioStride.toNat * context % 2 ^ 32 + addr.toNat + cfg.bar0.toNat +
      cfg.ppMmioOffset.toNat < 2 ^ 64) :
    (cfg.cmdPA context addr).toNat = cfg.bar0.toNat + cfg.ppMmioOffset.toNat +
      cfg.ppMmioStride.toNat * context % 2 ^ 32 + addr.toNat := by
  have hmul : (cfg.ppMmioStride * UInt32.ofNat context).toUInt64.toNat =
      cfg.ppMmioStride.toNat * context % 2 ^ 32 := by
    rw [UInt32.toNat_toUInt64, UInt32.toNat_mul, UInt32.toNat_ofNat', Nat.mul_mod_mod]
  change (cfg.bar0 + cfg.ppMmioOffset + _ + addr).toNat = _
  rw [UInt64.toNat_add, UInt64.toNat_add, UInt64.toNat_add, hmul]
  omega

theorem window_le (h : context ≤ maxClients) : cfg.window context ≤ cfg.window maxClients := by
  have hmul := Nat.mul_le_mul_left cfg.ppMmioStride.toNat h
  unfold window
  omega

theorem window_succ_le (h : context < maxClients) :
    cfg.window context + cfg.ppMmioStride.toNat ≤ cfg.window maxClients := by
  have hle := cfg.window_le (show context + 1 ≤ maxClients from h)
  have hsucc : cfg.ppMmioStride.toNat * (context + 1) = cfg.ppMmioStride.toNat * context + cfg.ppMmioStride.toNat :=
    Nat.mul_succ _ _
  unfold window at *
  omega

/-- The address is the exact one just when the product fits. -/
theorem cmdPA_exact_iff (hfit : cfg.window maxClients ≤ 2 ^ 64) (hcontext : context < maxClients)
    (haddr : addr.toNat < cfg.ppMmioStride.toNat) :
    (cfg.cmdPA context addr).toNat = cfg.window context + addr.toNat ↔
      cfg.ppMmioStride.toNat * context < 2 ^ 32 := by
  have hsucc := cfg.window_succ_le hcontext
  have hmod := Nat.mod_le (cfg.ppMmioStride.toNat * context) (2 ^ 32)
  unfold window at hsucc hfit
  rw [cfg.toNat_cmdPA (by omega), window]
  constructor
  · intro h
    have hlt := Nat.mod_lt (cfg.ppMmioStride.toNat * context) (Nat.two_pow_pos 32)
    omega
  · intro h
    rw [Nat.mod_eq_of_lt h]

theorem Isolated.exact {cfg : MmioCfg} (h : cfg.Isolated maxClients) {c₁ c₂ : ℕ} (h₁ : c₁ < maxClients)
    (h₂ : c₂ < maxClients) (hne : c₁ ≠ c₂) (hstride : 0 < cfg.ppMmioStride.toNat) (m : Mmio) :
    (cfg.cmdPA c₁ 0).toNat = cfg.window c₁ := by
  obtain ⟨pa₁, pa₂, hlast, -, -, hexact, -⟩ :=
    h m m true true true true 0 0 c₁ c₂ 0 0 h₁ h₂ hne hstride hstride
  rw [lastPA_addMmio] at hlast
  obtain rfl := Option.some.inj hlast
  exact hexact

end MmioCfg

/-- For windows that fit below `2 ^ 64`: the clients are isolated just when there are not two of them, no
window has a byte, or the product of the stride and the last context fits into 32 bits. -/
theorem pasidWindows_isolated_iff (cfg : MmioCfg) (maxClients : ℕ) (hfit : cfg.window maxClients ≤ 2 ^ 64) :
    cfg.Isolated maxClients ↔
      maxClients ≤ 1 ∨ cfg.ppMmioStride = 0 ∨ cfg.ppMmioStride.toNat * (maxClients - 1) < 2 ^ 32 := by
  constructor
  · intro h
    by_cases hone : maxClients ≤ 1
    · exact Or.inl hone
    by_cases hstride : cfg.ppMmioStride = 0
    · exact Or.inr (Or.inl hstride)
    have hpos : 0 < cfg.ppMmioStride.toNat := by
      apply Nat.pos_of_ne_zero
      intro hzero
      exact hstride (UInt32.toNat_inj.mp hzero)
    have hlast : maxClients - 1 < maxClients := by omega
    have hfirst : 0 < maxClients := by omega
    have hexact := h.exact hlast hfirst (by omega) hpos ⟨tlxEventReset, [], [], fun _ => none, 0, false, []⟩
    have haddr : (0 : UInt64).toNat < cfg.ppMmioStride.toNat := hpos
    exact Or.inr (Or.inr ((cfg.cmdPA_exact_iff hfit hlast haddr).mp hexact))
  · intro hcond m₁ m₂ rnw₁ rnw₂ dw₁ dw₂ data₁ data₂ c₁ c₂ addr₁ addr₂ h₁ h₂ hne haddr₁ haddr₂
    have hexact : ∀ c < maxClients, ∀ addr : UInt64, addr.toNat < cfg.ppMmioStride.toNat →
        (cfg.cmdPA c addr).toNat = cfg.window c + addr.toNat := by
      intro c hc addr haddr
      apply (cfg.cmdPA_exact_iff hfit hc haddr).mpr
      rcases hcond with hone | hzero | hlt
      · omega
      · rw [hzero] at haddr
        exact absurd haddr (Nat.not_lt_zero _)
      · have hmul := Nat.mul_le_mul_left cfg.ppMmioStride.toNat (Nat.le_sub_one_of_lt hc)
        omega
    refine ⟨_, _, lastPA_addMmio .., lastPA_addMmio .., ?_, hexact c₁ h₁ addr₁ haddr₁, hexact c₂ h₂ addr₂ haddr₂⟩
    intro hsame
    have heq : cfg.window c₁ + addr₁.toNat = cfg.window c₂ + addr₂.toNat := by
      rw [← hexact c₁ h₁ addr₁ haddr₁, ← hexact c₂ h₂ addr₂ haddr₂]
      exact congrArg UInt64.toNat hsame
    apply window_ne hne haddr₁ haddr₂
    unfold MmioCfg.window at heq
    omega

/-- Two gigabytes for each context, where the first function's windows start. -/
def wideStride : MmioCfg := ⟨0x40000000000, 0, 0, 0x80000000, 0⟩

/-- With four clients the windows fit, but the window of context 2 is that of context 0. -/
theorem wideStride_aliased : wideStride.window 4 ≤ 2 ^ 64 ∧ wideStride.cmdPA 0 8 = wideStride.cmdPA 2 8 ∧
    ¬ wideStride.Isolated 4 := by
  refine ⟨by decide, by decide, ?_⟩
  intro h
  have hexact := h.exact (show 2 < 4 by decide) (show 0 < 4 by decide) (by decide) (by decide)
    ⟨tlxEventReset, [], [], fun _ => none, 0, false, []⟩
  revert hexact
  decide

/-- Of the same stride, two windows are apart. -/
theorem wideStride_isolated_two : wideStride.window 2 ≤ 2 ^ 64 ∧ wideStride.Isolated 2 :=
  ⟨by decide, (pasidWindows_isolated_iff wideStride 2 (by decide)).mpr (by decide)⟩

end Ocse
