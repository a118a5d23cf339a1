import Mathlib.Logic.Function.Basic
import Ocse.CmdService
import Ocse.Lib.CText
import Ocse.Lib.Run

/-!
# The parameter file

`parse_parms` sets some members of `struct parms` to a default and every member that a line of the file names. A
percentage may be given as a range, from which one value is drawn before it is looked at.
-/

namespace Ocse

/-! ## The percentages -/

inductive Percent
  | resp | paged | retry | failed | pending | derror | intRetry | intFailed | intPending | intDerror
  | bdiRespErr | bdiCmdErr | reorder | buffer
deriving DecidableEq, Repr

namespace Percent

def all : List Percent :=
  [resp, paged, retry, failed, pending, derror, intRetry, intFailed, intPending, intDerror, bdiRespErr, bdiCmdErr,
    reorder, buffer]

def key : Percent → String
  | resp => "RESPONSE_PERCENT"
  | paged => "PAGED_PERCENT"
  | retry => "RETRY_PERCENT"
  | failed => "FAILED_PERCENT"
  | pending => "PENDING_PERCENT"
  | derror => "DERROR_PERCENT"
  | intRetry => "INT_RETRY_PERCENT"
  | intFailed => "INT_FAILED_PERCENT"
  | intPending => "INT_PENDING_PERCENT"
  | intDerror => "INT_DERROR_PERCENT"
  | bdiRespErr => "BDI_RESP_ERR_PERCENT"
  | bdiCmdErr => "BDI_CMD_ERR_PERCENT"
  | reorder => "REORDER_PERCENT"
  | buffer => "BUFFER_PERCENT"

def low : Percent → ℕ
  | resp => 1
  | _ => 0

def high : Percent → ℕ
  | resp => 100
  | _ => 99

def ofKey (parm : List Char) : Option Percent := all.find? (fun f => f.key.toList = parm)

def Holds (f : Percent) (value : UInt32) : Prop := f.low ≤ value.toNat ∧ value.toNat ≤ f.high

/-- The check of the source lets the value pass. -/
def Accepts (f : Percent) (data : Int32) : Prop := f.low ≤ data.toInt ∧ data.toInt ≤ f.high

instance (f : Percent) (data : Int32) : Decidable (f.Accepts data) :=
  inferInstanceAs (Decidable (_ ∧ _))

end Percent

/-- `struct parms` -/
structure ParsedParms where
  timeout : UInt32
  seed : UInt32
  pagesize : UInt32
  hostClSize : UInt32
  percent : Percent → UInt32

/-! ## Lines -/

/-- A percentage, or one of the two ends of a range. Without a result: the remainder of a division by zero. -/
def percentParm (value : List Char) (rand : Fin (2 ^ 31)) : Option Int32 :=
  let parm := atoi value
  match value.dropWhile (· ≠ ',') with
  | [] => some parm
  | _ :: comma =>
    let (min, max) := if atoi comma < parm then (atoi comma, parm) else (parm, atoi comma)
    if 1 + max - min = 0 then none else some (min + Int32.ofNat rand % (1 + max - min))

/-- `drawn` counts the calls of `rand`. -/
structure ParmsState where
  parms : ParsedParms
  drawn : ℕ

section Parse

variable (rand : ℕ → Fin (2 ^ 31))

def setParm (s : ParmsState) (line : List Char × List Char) : Option ParmsState :=
  let (parm, value) := line
  if parm = "SEED".toList then some { s with parms.seed := (atoi value).toUInt32 }
  else if parm = "TIMEOUT".toList then some { s with parms.timeout := (atoi value).toUInt32 }
  else if parm = "PAGESIZE".toList then
    let data := atoi value
    if data < 0 ∨ data = 1 ∨ data = 6 ∨ 8 ≤ data then some s
    else some { s with parms.pagesize := data.toUInt32 }
  else if parm = "HOST_CL_SIZE".toList then
    let data := atoi value
    if data ≠ 128 ∧ data ≠ 64 ∧ data ≠ 256 then some s
    else some { s with parms.hostClSize := data.toUInt32 }
  else
    match Percent.ofKey parm with
    | none => some s
    | some f => do
      let data ← percentParm value (rand s.drawn)
      let parms : ParsedParms :=
        if f.Accepts data then { s.parms with percent := Function.update s.parms.percent f data.toUInt32 }
        else s.parms
      some ⟨parms, if ',' ∈ value then s.drawn + 1 else s.drawn⟩

end Parse

/-! ## What is documented -/

structure ParsedParms.Sized (p : ParsedParms) : Prop where
  hostClSize : p.hostClSize = 64 ∨ p.hostClSize = 128 ∨ p.hostClSize = 256
  pagesize : p.pagesize ∈ ([0, 2, 3, 4, 5, 7] : List UInt32)

structure ParsedParms.InRange (p : ParsedParms) : Prop extends p.Sized where
  percent : ∀ f : Percent, f.Holds (p.percent f)

/-- The calls of `rand` for these lines. -/
def drawsIn (lines : List (List Char × List Char)) : ℕ :=
  lines.countP (fun line => (Percent.ofKey line.1).isSome && decide (',' ∈ line.2))

/-- A line names the percentage, and the value that is drawn for it passes the check. -/
def Percent.SetBy (f : Percent) (rand : ℕ → Fin (2 ^ 31)) (lines : List (List Char × List Char)) : Prop :=
  ∃ before line after data, lines = before ++ line :: after ∧ ofKey line.1 = some f ∧
    percentParm line.2 (rand (drawsIn before)) = some data ∧ f.Accepts data

namespace Percent

theorem holds_of_accepts {f : Percent} {data : Int32} (h : f.Accepts data) : f.Holds data.toUInt32 := by
  obtain ⟨hlow, hhigh⟩ := h
  have hnonneg : 0 ≤ data := by
    rw [Int32.le_iff_toInt_le]
    exact Int.le_trans (Int.natCast_nonneg f.low) hlow
  rw [Holds, Int32.toNat_toUInt32_of_le hnonneg, Int32.toNatClampNeg]
  omega

variable {f : Percent} {rand : ℕ → Fin (2 ^ 31)} {lines : List (List Char × List Char)}

theorem setBy_append (line : List Char × List Char) :
    f.SetBy rand (lines ++ [line]) ↔ f.SetBy rand lines ∨
      ∃ data, ofKey line.1 = some f ∧ percentParm line.2 (rand (drawsIn lines)) = some data ∧ f.Accepts data := by
  constructor
  · rintro ⟨before, line', after, data, h, hset⟩
    rcases concat_eq_append_cons_iff.mp h with ⟨rfl, rfl, rfl⟩ | ⟨after, rfl, rfl⟩
    · exact .inr ⟨data, hset⟩
    · exact .inl ⟨before, line', after, data, rfl, hset⟩
  · rintro (⟨before, line', after, data, rfl, hset⟩ | ⟨data, hset⟩)
    · exact ⟨before, line', after ++ [line], data, by rw [List.append_assoc, List.cons_append], hset⟩
    · exact ⟨lines, line, [], data, rfl, hset⟩

theorem setBy_append_other {line : List Char × List Char} (hline : ofKey line.1 ≠ some f) :
    f.SetBy rand (lines ++ [line]) ↔ f.SetBy rand lines := by
  rw [setBy_append]
  apply or_iff_left
  rintro ⟨data, hkey, -⟩
  exact hline hkey

end Percent

theorem drawsIn_append (lines : List (List Char × List Char)) (line : List Char × List Char) :
    drawsIn (lines ++ [line]) =
      if (Percent.ofKey line.1).isSome && decide (',' ∈ line.2) then drawsIn lines + 1 else drawsIn lines := by
  rw [drawsIn, List.countP_append, List.countP_singleton]
  split <;> rfl

/-! ## The division -/

theorem hostClSize_of_accepted {data : Int32} (h : ¬ (data ≠ 128 ∧ data ≠ 64 ∧ data ≠ 256)) :
    data.toUInt32 = 64 ∨ data.toUInt32 = 128 ∨ data.toUInt32 = 256 := by
  by_cases hdefault : data = 128
  · exact .inr (.inl (by rw [hdefault]; rfl))
  by_cases hhalf : data = 64
  · exact .inl (by rw [hhalf]; rfl)
  by_cases hdouble : data = 256
  · exact .inr (.inr (by rw [hdouble]; rfl))
  exact absurd ⟨hdefault, hhalf, hdouble⟩ h

theorem pagesize_of_accepted {data : Int32} (h : ¬ (data < 0 ∨ data = 1 ∨ data = 6 ∨ 8 ≤ data)) :
    data.toUInt32 ∈ ([0, 2, 3, 4, 5, 7] : List UInt32) := by
  have hzero : (0 : Int32).toInt = 0 := rfl
  have hone : (1 : Int32).toInt = 1 := rfl
  have hsix : (6 : Int32).toInt = 6 := rfl
  have height : (8 : Int32).toInt = 8 := rfl
  rw [Int32.lt_iff_toInt_lt, Int32.le_iff_toInt_le, ← Int32.toInt_inj, ← Int32.toInt_inj, hzero, hone, hsix, height] at h
  have hdata : data.toInt = (0 : Int32).toInt ∨ data.toInt = (2 : Int32).toInt ∨ data.toInt = (3 : Int32).toInt ∨
      data.toInt = (4 : Int32).toInt ∨ data.toInt = (5 : Int32).toInt ∨ data.toInt = (7 : Int32).toInt := by
    change data.toInt = 0 ∨ data.toInt = 2 ∨ data.toInt = 3 ∨ data.toInt = 4 ∨ data.toInt = 5 ∨ data.toInt = 7
    omega
  simp only [Int32.toInt_inj] at hdata
  rcases hdata with rfl | rfl | rfl | rfl | rfl | rfl <;> decide

section Lines

variable {rand : ℕ → Fin (2 ^ 31)} {s s' : ParmsState} {line : List Char × List Char}

/-- A line that names no percentage changes none. -/
theorem setParm_other (rand : ℕ → Fin (2 ^ 31)) (s : ParmsState) (hkey : Percent.ofKey line.1 = none) :
    ∃ s', setParm rand s line = some s' ∧ s'.drawn = s.drawn ∧ s'.parms.percent = s.parms.percent ∧
      (s.parms.Sized → s'.parms.Sized) := by
  obtain ⟨parm, value⟩ := line
  unfold setParm
  dsimp only at hkey ⊢
  by_cases hseed : parm = "SEED".toList
  · exact ⟨_, if_pos hseed, rfl, rfl, fun h => ⟨h.hostClSize, h.pagesize⟩⟩
  by_cases htimeout : parm = "TIMEOUT".toList
  · rw [if_neg hseed, if_pos htimeout]
    exact ⟨_, rfl, rfl, rfl, fun h => ⟨h.hostClSize, h.pagesize⟩⟩
  by_cases hpagesize : parm = "PAGESIZE".toList
  · rw [if_neg hseed, if_neg htimeout, if_pos hpagesize]
    split
    case isTrue => exact ⟨s, rfl, rfl, rfl, id⟩
    case isFalse hdata => exact ⟨_, rfl, rfl, rfl, fun h => ⟨h.hostClSize, pagesize_of_accepted hdata⟩⟩
  by_cases hhost : parm = "HOST_CL_SIZE".toList
  · rw [if_neg hseed, if_neg htimeout, if_neg hpagesize, if_pos hhost]
    split
    case isTrue => exact ⟨s, rfl, rfl, rfl, id⟩
    case isFalse hdata => exact ⟨_, rfl, rfl, rfl, fun h => ⟨hostClSize_of_accepted hdata, h.pagesize⟩⟩
  · rw [if_neg hseed, if_neg htimeout, if_neg hpagesize, if_neg hhost, hkey]
    exact ⟨s, rfl, rfl, rfl, id⟩

theorem setParm_percent {f : Percent} (hkey : Percent.ofKey line.1 = some f) :
    setParm rand s line = (percentParm line.2 (rand s.drawn)).map (fun data =>
      ⟨if f.Accepts data then { s.parms with percent := Function.update s.parms.percent f data.toUInt32 } else s.parms,
        if ',' ∈ line.2 then s.drawn + 1 else s.drawn⟩) := by
  obtain ⟨parm, value⟩ := line
  have hne (other : List Char) (hother : Percent.ofKey other = none) : parm ≠ other := by
    rintro rfl
    rw [hother] at hkey
    contradiction
  unfold setParm
  dsimp only at hkey ⊢
  rw [if_neg (hne _ (by decide)), if_neg (hne _ (by decide)), if_neg (hne _ (by decide)),
    if_neg (hne _ (by decide)), hkey]
  cases percentParm value (rand s.drawn) <;> rfl

/-- What holds of the members after some lines, `init` being their values before them. -/
structure ParmsState.After (s : ParmsState) (rand : ℕ → Fin (2 ^ 31)) (init : ParsedParms)
    (lines : List (List Char × List Char)) : Prop extends s.parms.Sized where
  drawn : s.drawn = drawsIn lines
  set : ∀ f : Percent, f.SetBy rand lines → f.Holds (s.parms.percent f)
  unset : ∀ f : Percent, ¬ f.SetBy rand lines → s.parms.percent f = init.percent f

section Step

variable {init : ParsedParms} {lines : List (List Char × List Char)} {f g : Percent} {data : Int32}

theorem ParmsState.After.drawn_append (h : s.After rand init lines) (hkey : Percent.ofKey line.1 = some g) :
    (if ',' ∈ line.2 then s.drawn + 1 else s.drawn) = drawsIn (lines ++ [line]) := by
  rw [h.drawn, drawsIn_append, hkey]
  simp

theorem ParmsState.After.other (h : s.After rand init lines) (hkey : Percent.ofKey line.1 = none)
    (hdrawn : s'.drawn = s.drawn) (hpercent : s'.parms.percent = s.parms.percent) (hsized : s'.parms.Sized) :
    s'.After rand init (lines ++ [line]) := by
  have hsetBy (f : Percent) : f.SetBy rand (lines ++ [line]) ↔ f.SetBy rand lines :=
    Percent.setBy_append_other (by simp [hkey])
  refine ⟨hsized, ?_, ?_, ?_⟩
  · rw [hdrawn, h.drawn, drawsIn_append, hkey]
    rfl
  · intro f hset
    rw [hpercent]
    exact h.set f ((hsetBy f).mp hset)
  · intro f hunset
    rw [hpercent]
    exact h.unset f (fun hset => hunset ((hsetBy f).mpr hset))

theorem ParmsState.After.accept (h : s.After rand init lines) (hkey : Percent.ofKey line.1 = some g)
    (hdata : percentParm line.2 (rand (drawsIn lines)) = some data) (haccepts : g.Accepts data) :
    ParmsState.After ⟨{ s.parms with percent := Function.update s.parms.percent g data.toUInt32 },
      if ',' ∈ line.2 then s.drawn + 1 else s.drawn⟩ rand init (lines ++ [line]) := by
  have hothers {f : Percent} (hne : f ≠ g) : f.SetBy rand (lines ++ [line]) ↔ f.SetBy rand lines :=
    Percent.setBy_append_other (by rw [hkey]; exact fun hsome => hne (Option.some.inj hsome).symm)
  refine ⟨⟨h.hostClSize, h.pagesize⟩, h.drawn_append hkey, ?_, ?_⟩
  · intro f hset
    change f.Holds (Function.update s.parms.percent g data.toUInt32 f)
    by_cases hne : f = g
    · subst hne
      rw [Function.update_self]
      exact Percent.holds_of_accepts haccepts
    · rw [Function.update_of_ne hne]
      exact h.set f ((hothers hne).mp hset)
  · intro f hunset
    have hne : f ≠ g := by
      rintro rfl
      exact hunset ((Percent.setBy_append line).mpr (.inr ⟨data, hkey, hdata, haccepts⟩))
    change Function.update s.parms.percent g data.toUInt32 f = init.percent f
    rw [Function.update_of_ne hne]
    exact h.unset f (fun hset => hunset ((hothers hne).mpr hset))

/-- A value that is refused leaves the member as the earlier lines set it. -/
theorem ParmsState.After.refuse (h : s.After rand init lines) (hkey : Percent.ofKey line.1 = some g)
    (hdata : percentParm line.2 (rand (drawsIn lines)) = some data) (hrefused : ¬ g.Accepts data) :
    ParmsState.After ⟨s.parms, if ',' ∈ line.2 then s.drawn + 1 else s.drawn⟩ rand init (lines ++ [line]) := by
  have hsetBy (f : Percent) : f.SetBy rand (lines ++ [line]) ↔ f.SetBy rand lines := by
    rw [Percent.setBy_append]
    apply or_iff_left
    rintro ⟨data', hkey', hdata', haccepts⟩
    obtain rfl := Option.some.inj (hkey.symm.trans hkey')
    obtain rfl := Option.some.inj (hdata.symm.trans hdata')
    exact hrefused haccepts
  refine ⟨h.toSized, h.drawn_append hkey, ?_, ?_⟩
  · intro f hset
    exact h.set f ((hsetBy f).mp hset)
  · intro f hunset
    exact h.unset f (fun hset => hunset ((hsetBy f).mpr hset))

theorem ParmsState.After.setParm (h : s.After rand init lines) (hs : setParm rand s line = some s') :
    s'.After rand init (lines ++ [line]) := by
  cases hkey : Percent.ofKey line.1 with
  | none =>
    obtain ⟨_, hother, hdrawn, hpercent, hsized⟩ := setParm_other rand s hkey
    obtain rfl := Option.some.inj (hother.symm.trans hs)
    exact h.other hkey hdrawn hpercent (hsized h.toSized)
  | some g =>
    rw [setParm_percent hkey, Option.map_eq_some_iff] at hs
    obtain ⟨data, hdata, rfl⟩ := hs
    rw [h.drawn] at hdata
    by_cases haccepts : g.Accepts data
    · rw [if_pos haccepts]
      exact h.accept hkey hdata haccepts
    · rw [if_neg haccepts]
      exact h.refuse hkey hdata haccepts

end Step

theorem ParmsState.After.run {init : ParsedParms} {lines more : List (List Char × List Char)}
    (h : s.After rand init lines) (hrun : more.foldlM (Ocse.setParm rand) s = some s') :
    s'.After rand init (lines ++ more) := by
  induction more generalizing s lines with
  | nil =>
    obtain rfl := Option.some.inj hrun
    rwa [List.append_nil]
  | cons line more ih =>
    rw [List.foldlM_cons, Option.bind_eq_bind, Option.bind_eq_some_iff] at hrun
    obtain ⟨next, hnext, hrun⟩ := hrun
    have hafter := ih (h.setParm hnext) hrun
    rwa [List.append_assoc] at hafter

end Lines

variable {rand : ℕ → Fin (2 ^ 31)} {fresh : Percent → UInt32} {time : UInt32} {text : List Char}

/-- The parameters as the command engine takes them. -/
def ParsedParms.toParms (p : ParsedParms) (h : p.Sized) : Parms where
  hostClSize := p.hostClSize.toNat
  hostClSize_supported := h.hostClSize.imp (congrArg UInt32.toNat) (Or.imp (congrArg UInt32.toNat) (congrArg UInt32.toNat))
  retryPercent := (p.percent .retry).toInt32.toInt
  failedPercent := (p.percent .failed).toInt32.toInt
  derrorPercent := (p.percent .derror).toInt32.toInt
  pendingPercent := (p.percent .pending).toInt32.toInt
  intRetryPercent := (p.percent .intRetry).toInt32.toInt
  intFailedPercent := (p.percent .intFailed).toInt32.toInt
  intDerrorPercent := (p.percent .intDerror).toInt32.toInt
  intPendingPercent := (p.percent .intPending).toInt32.toInt
  bdiRespErrPercent := (p.percent .bdiRespErr).toInt32.toInt
  reorderPercent := (p.percent .reorder).toInt32.toInt

/-- A percentage that may be 99 at most is not met by a draw of 99. -/
theorem Percent.Holds.percentChance_eq_false {f : Percent} {value : UInt32} (h : f.Holds value) (hf : f ≠ .resp)
    {draw : ℕ} (hdraw : draw % 100 = 99) : percentChance value.toInt32.toInt draw = false := by
  have hhigh : f.high = 99 := by
    cases f with
    | resp => exact absurd rfl hf
    | _ => rfl
  have hvalue : value.toNat ≤ 99 := by
    rw [← hhigh]
    exact h.2
  have hint : value.toInt32.toInt = value.toNat := by
    apply BitVec.toInt_eq_toNat_of_lt
    change 2 * value.toNat < 2 ^ 32
    omega
  rw [percentChance, hint, hdraw, decide_eq_false_iff_not]
  omega

/-- With percentages in range the engine may always leave a command alone. -/
theorem ParsedParms.InRange.inject_eq_none {p : ParsedParms} (h : p.InRange) {d : Draws} (hretry : d.retry % 100 = 99)
    (hfailed : d.failed % 100 = 99) (hderror : d.derror % 100 = 99) (hpending : d.pending % 100 = 99)
    (failOpcode : UInt8) (e : CmdEvent) : inject (p.toParms h.toSized) d failOpcode e = none := by
  have hno (f : Percent) (hf : f ≠ .resp) {draw : ℕ} (hdraw : draw % 100 = 99) :=
    (h.percent f).percentChance_eq_false hf hdraw
  rw [inject, toParms, hno .retry (by decide) hretry, hno .failed (by decide) hfailed,
    hno .derror (by decide) hderror, hno .pending (by decide) hpending]
  rfl

end Ocse
