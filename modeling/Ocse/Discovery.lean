import Ocse.Lib.Buffer
import Ocse.Lib.BigEndian
import Ocse.Lib.Traced
import Mathlib.Logic.Function.Basic

/-!
# Discovery

`read_afu_config` walks the config space of the eight functions of a device and keeps what it reads. On its
way it gives each function with AFUs a base address for its window, and each AFU ranges of PASIDs and acTags;
the running marks `bar`, `pasid` and `actag` are where the next ones start.

What the device answers to a read may depend on everything done before it. Memory that `malloc` returned holds
anything; a pointer that was never set stands as `none`. `n` bounds the turns of each loop: a device can keep
the walk from ending. The powers of two added to `pasid` stay far below `2 ^ 53`, so that the sums of doubles
are exact.
-/

namespace Ocse

open Traced

inductive CfgAccess where
  | read (pa : UInt64) (data : UInt32)
  | write (pa data : UInt64)
deriving DecidableEq, Repr

/-- What a config read gets, after the accesses so far. -/
abbrev CfgSpace := List CfgAccess → UInt64 → UInt32

/-! ## What is kept -/

structure AfuCfg where
  pasidBase : UInt8
  pasidLenEnabled : UInt8
  pasidLenSupported : UInt8
  actagBase : UInt16
  actagLengthEnabled : UInt16
  actagLengthSupported : UInt16
  nameSpace : List UInt8
  afuVersionMajor : UInt8
  afuVersionMinor : UInt8
  globalMmioBar : UInt8
  globalMmioOffset : UInt64
  globalMmioSize : UInt32
  ppMmioBar : UInt8
  ppMmioOffset : UInt64
  ppMmioStride : UInt32
  memBaseAddress : UInt64
  memSize : UInt8
deriving DecidableEq, Repr

structure FcnCfg where
  deviceId : UInt16
  vendorId : UInt16
  bar0 : UInt64
  maxPasidWidth : UInt8
  tlMajorVersionCapability : UInt8
  tlMinorVersionCapability : UInt8
  tlXmitTemplateCfg : UInt32
  tlXmitRatePerTemplateCfg : UInt32
  functionDvsecPa : UInt64
  afuPresent : UInt8
  maxAfuIndex : UInt8
  functionActagBase : UInt16
  functionActagLengthEnabled : UInt16
  afuInformationDvsecPa : UInt64
  afuCfgArray : Option (ℕ → Option AfuCfg)

/-- What `malloc` finds in the memory that it returns. -/
structure Fresh where
  fcn : List CfgAccess → FcnCfg
  afu : List CfgAccess → AfuCfg

/-- A window that a function was given; `low` and `high` are what the probe of its size read. -/
structure Window where
  fcn : ℕ
  cmdPaFcn : UInt64
  low : UInt32
  high : UInt32
  bar0 : UInt64
deriving DecidableEq, Repr

/-- The ranges that an AFU was given, as they are in its record. -/
structure AfuRange where
  fcn : ℕ
  afuIndex : ℕ
  cmdPaEc : UInt64
  pasidBase : UInt8
  pasidLen : UInt8
  actagBase : UInt16
  actagLength : UInt16
deriving DecidableEq, Repr

/-- The range of acTags that was written for a function. -/
structure FcnRange where
  fcn : ℕ
  functionDvsecPa : UInt64
  actagBase : UInt16
  actagLength : UInt16
deriving DecidableEq, Repr

/-- The lists say what was given out, in order. -/
structure Discovery where
  fcnCfgArray : ℕ → Option FcnCfg
  maxClients : ℤ
  bar : UInt64
  actag : UInt64
  pasid : UInt64
  windows : List Window
  afus : List AfuRange
  fcns : List FcnRange

/-- The windows start at 4 TB. -/
def Discovery.initial : Discovery := ⟨fun _ => none, 0, 0x0000040000000000, 0, 0, [], [], []⟩

/-! ## Config accesses -/

def cfgRead (cs : CfgSpace) (pa : UInt64) : Traced CfgAccess UInt32 := do
  let data ← ask (fun trace => cs trace pa)
  emit (.read pa data)
  return data

def cfgWrite (pa data : UInt64) : Traced CfgAccess Unit := emit (.write pa data)

/-- Read until bit 31 is up. -/
def awaitDataValid (cs : CfgSpace) (addr : UInt64) : ℕ → Traced CfgAccess Unit
  | 0 => diverge
  | n + 1 => do
    let data ← cfgRead cs addr
    if data &&& 0x80000000 = 0 then awaitDataValid cs addr n else return ()

def readAfuDescriptor (cs : CfgSpace) (n : ℕ) (addr offset : UInt64) : Traced CfgAccess UInt32 := do
  cfgWrite addr offset
  awaitDataValid cs addr n
  cfgRead cs (addr + 4)

/-! ## The DVSECs -/

/-- Four characters of the name; a dot becomes a NUL. -/
def namePart (word : UInt32) : List UInt8 := (leBytes 4 word.toNat).map (fun c => if c = 0x2e then 0 else c)

def readNamespace (cs : CfgSpace) (n : ℕ) (addr : UInt64) : Traced CfgAccess (List UInt8) := do
  let words ← (List.range 6).mapM (fun i => readAfuDescriptor cs n addr (UInt64.ofNat (4 + 4 * i)))
  return words.flatMap namePart ++ [0]

/-- Descriptor template 0. -/
def readTemplate (cs : CfgSpace) (n : ℕ) (addr : UInt64) (afu : AfuCfg) : Traced CfgAccess AfuCfg := do
  let nameSpace ← readNamespace cs n addr
  let version ← readAfuDescriptor cs n addr 0x1c
  let globalLow ← readAfuDescriptor cs n addr 0x20
  let globalHigh ← readAfuDescriptor cs n addr 0x24
  let globalMmioSize ← readAfuDescriptor cs n addr 0x28
  let ppLow ← readAfuDescriptor cs n addr 0x30
  let ppHigh ← readAfuDescriptor cs n addr 0x34
  let ppStride ← readAfuDescriptor cs n addr 0x38
  let memSize ← readAfuDescriptor cs n addr 0x3c
  let memLow ← readAfuDescriptor cs n addr 0x40
  let memHigh ← readAfuDescriptor cs n addr 0x44
  return { afu with
    nameSpace
    afuVersionMajor := (version >>> 24).toUInt8
    afuVersionMinor := (version >>> 16).toUInt8
    globalMmioBar := (globalLow &&& 0x07).toUInt8
    globalMmioOffset := (globalLow &&& 0xFFFF0000).toUInt64 ||| (globalHigh.toUInt64 <<< 32)
    globalMmioSize
    ppMmioBar := (ppLow &&& 0x07).toUInt8
    ppMmioOffset := (ppLow &&& 0xFFFF0000).toUInt64 ||| (ppHigh.toUInt64 <<< 32)
    ppMmioStride := ppStride &&& 0xFFFF0000
    memSize := memSize.toUInt8
    memBaseAddress := memLow.toUInt64 ||| (memHigh.toUInt64 <<< 32) }

def foundTlDvsec (cs : CfgSpace) (cmdPaEc : UInt64) (fcn : FcnCfg) : Traced CfgAccess FcnCfg := do
  let version ← cfgRead cs (cmdPaEc + 0x0c)
  let templates ← cfgRead cs (cmdPaEc + 0x24)
  let rates ← cfgRead cs (cmdPaEc + 0x6c)
  return { fcn with
    tlMajorVersionCapability := (version >>> 24).toUInt8
    tlMinorVersionCapability := (version >>> 16).toUInt8
    tlXmitTemplateCfg := templates
    tlXmitRatePerTemplateCfg := rates }

/-- What the all-ones probe says of the size of a window: `~( bar0 ) + 1`. -/
def windowSize (low high : UInt32) : UInt64 :=
  ~~~((low &&& 0xFFFFFFF0).toUInt64 ||| (high.toUInt64 <<< 32)) + 1

/-- A function with AFUs gets its window at the mark. -/
def assignBar (cs : CfgSpace) (f : ℕ) (cmdPaFcn : UInt64) (fcn : FcnCfg) (d : Discovery) :
    Traced CfgAccess (FcnCfg × Discovery) := do
  cfgWrite (cmdPaFcn + 0x10) 0xFFFFFFFF
  cfgWrite (cmdPaFcn + 0x14) 0xFFFFFFFF
  let low ← cfgRead cs (cmdPaFcn + 0x10)
  let high ← cfgRead cs (cmdPaFcn + 0x14)
  cfgWrite (cmdPaFcn + 0x10) (d.bar &&& 0xFFFFFFFF)
  cfgWrite (cmdPaFcn + 0x14) (d.bar >>> 32)
  return ({ fcn with bar0 := d.bar },
    { d with bar := d.bar + windowSize low high, windows := d.windows ++ [⟨f, cmdPaFcn, low, high, d.bar⟩] })

def foundFunctionDvsec (cs : CfgSpace) (f : ℕ) (cmdPaFcn cmdPaEc : UInt64) (dvsec : UInt32) (fcn : FcnCfg)
    (d : Discovery) : Traced CfgAccess (FcnCfg × Discovery) := do
  let fcn : FcnCfg := { fcn with
    afuPresent := (dvsec >>> 24).toUInt8 &&& 0x80
    maxAfuIndex := (dvsec >>> 24).toUInt8 &&& 0x3F
    functionDvsecPa := cmdPaEc }
  if fcn.afuPresent = 0 then return (fcn, d)
  let (fcn, d) ← assignBar cs f cmdPaFcn { fcn with afuCfgArray := some (fun _ => none) } d
  cfgWrite (cmdPaFcn + 0x04) 0x00000002
  return ({ fcn with functionActagBase := d.actag.toUInt16 }, d)

/-- The ranges of an AFU start at the marks; its lengths are those that it supports. -/
def assignRanges (f afuIndex : ℕ) (cmdPaEc : UInt64) (afu : AfuCfg) (fcn : FcnCfg) (d : Discovery) :
    Traced CfgAccess (AfuCfg × FcnCfg × Discovery) := do
  let afu : AfuCfg := { afu with pasidLenEnabled := afu.pasidLenSupported, pasidBase := d.pasid.toUInt8 }
  cfgWrite (cmdPaEc + 0x10) (afu.pasidLenEnabled.toUInt64 <<< 8)
  cfgWrite (cmdPaEc + 0x14) afu.pasidBase.toUInt64
  let afu : AfuCfg := { afu with actagLengthEnabled := afu.actagLengthSupported, actagBase := d.actag.toUInt16 }
  cfgWrite (cmdPaEc + 0x18) (afu.actagLengthEnabled.toUInt64 <<< 16)
  cfgWrite (cmdPaEc + 0x1c) afu.actagBase.toUInt64
  return (afu,
    { fcn with functionActagLengthEnabled := fcn.functionActagLengthEnabled + afu.actagLengthEnabled },
    { d with
      pasid := d.pasid + UInt64.ofNat (2 ^ afu.pasidLenEnabled.toNat)
      actag := d.actag + afu.actagLengthEnabled.toUInt64
      afus := d.afus ++
        [⟨f, afuIndex, cmdPaEc, afu.pasidBase, afu.pasidLenEnabled, afu.actagBase, afu.actagLengthEnabled⟩] })

def foundAfuCtlDvsec (cs : CfgSpace) (fresh : Fresh) (n f : ℕ) (cmdPaEc : UInt64) (dvsec : UInt32)
    (fcn : FcnCfg) (d : Discovery) : Traced CfgAccess (FcnCfg × Discovery) := do
  if fcn.afuPresent = 0 then return (fcn, d)
  let afuIndex := ((dvsec >>> 16) &&& 0x003F).toNat
  -- the pointer goes to an array that was allocated, and to a place in it
  match fcn.afuCfgArray with
  | none => diverge
  | some afuCfgArray =>
    if fcn.maxAfuIndex.toNat < afuIndex then diverge
    else
      let afu ← ask fresh.afu
      let pasidLen ← cfgRead cs (cmdPaEc + 0x10)
      let actagLength ← cfgRead cs (cmdPaEc + 0x18)
      cfgWrite (fcn.afuInformationDvsecPa + 0x08) (UInt64.ofNat afuIndex <<< 16)
      let afu ← readTemplate cs n (fcn.afuInformationDvsecPa + 0x0c) { afu with
        pasidLenSupported := pasidLen.toUInt8 &&& 0x1F
        actagLengthSupported := actagLength.toUInt16 &&& 0xFFF }
      let (afu, fcn, d) ← assignRanges f afuIndex cmdPaEc afu fcn d
      cfgWrite (cmdPaEc + 0x0c) 0x01000000
      return ({ fcn with afuCfgArray := some (Function.update afuCfgArray afuIndex (some afu)) }, d)

def foundDvsec (cs : CfgSpace) (fresh : Fresh) (n f : ℕ) (cmdPaFcn cmdPaEc : UInt64) (fcn : FcnCfg)
    (d : Discovery) : Traced CfgAccess (FcnCfg × Discovery) := do
  let dvsec ← cfgRead cs (cmdPaEc + 0x08)
  if dvsec.toUInt16 = 0xF000 then
    let fcn ← foundTlDvsec cs cmdPaEc fcn
    return (fcn, d)
  else if dvsec.toUInt16 = 0xF001 then foundFunctionDvsec cs f cmdPaFcn cmdPaEc dvsec fcn d
  else if dvsec.toUInt16 = 0xF003 then return ({ fcn with afuInformationDvsecPa := cmdPaEc }, d)
  else if dvsec.toUInt16 = 0xF004 then foundAfuCtlDvsec cs fresh n f cmdPaEc dvsec fcn d
  else return (fcn, d)

def foundPasid (cs : CfgSpace) (cmdPaEc : UInt64) (fcn : FcnCfg) (d : Discovery) :
    Traced CfgAccess (FcnCfg × Discovery) := do
  let width ← cfgRead cs (cmdPaEc + 0x04)
  let fcn : FcnCfg := { fcn with maxPasidWidth := (width >>> 8).toUInt8 }
  return (fcn, { d with maxClients := d.maxClients + 2 ^ fcn.maxPasidWidth.toNat })

/-! ## The walk -/

/-- One extended capability. The first result is the offset of the next. -/
def foundCapability (cs : CfgSpace) (fresh : Fresh) (n f : ℕ) (cmdPaFcn offset : UInt64) (fcn : FcnCfg)
    (d : Discovery) : Traced CfgAccess (UInt64 × FcnCfg × Discovery) := do
  let ec ← cfgRead cs (cmdPaFcn + offset)
  let next := (ec >>> 20).toUInt64
  if ec.toUInt16 = 0x001b then
    let s ← foundPasid cs (cmdPaFcn + offset) fcn d
    return (next, s)
  else if ec.toUInt16 = 0x0023 then
    let s ← foundDvsec cs fresh n f cmdPaFcn (cmdPaFcn + offset) fcn d
    return (next, s)
  else return (next, fcn, d)

def walkCapabilities (cs : CfgSpace) (fresh : Fresh) (n f : ℕ) (cmdPaFcn : UInt64) :
    ℕ → UInt64 → FcnCfg → Discovery → Traced CfgAccess (FcnCfg × Discovery)
  | 0, offset, fcn, d => if offset = 0 then return (fcn, d) else diverge
  | k + 1, offset, fcn, d =>
    if offset = 0 then return (fcn, d)
    else do
      let (next, fcn, d) ← foundCapability cs fresh n f cmdPaFcn offset fcn d
      walkCapabilities cs fresh n f cmdPaFcn k next fcn d

def FcnCfg.actagWord (fcn : FcnCfg) : UInt64 :=
  (fcn.functionActagBase.toUInt64 <<< 16) ||| fcn.functionActagLengthEnabled.toUInt64

/-- The ids of a function that is there. -/
def validId (id : UInt16) : Bool := id ≠ 0 && id ≠ 0xffff

def discoverFcn (cs : CfgSpace) (fresh : Fresh) (n : ℕ) (bus : UInt8) (d : Discovery) (f : ℕ) :
    Traced CfgAccess Discovery := do
  let cmdPaFcn := (bus.toUInt64 <<< 24) + UInt64.ofNat (f * 0x10000)
  let header ← cfgRead cs cmdPaFcn
  let d := { d with pasid := 0 }
  if validId (header >>> 16).toUInt16 && validId header.toUInt16 then
    let fcn ← ask fresh.fcn
    let (fcn, d) ← walkCapabilities cs fresh n f cmdPaFcn n 0x100
      { fcn with
        deviceId := (header >>> 16).toUInt16
        vendorId := header.toUInt16
        afuCfgArray := none } d
    cfgWrite (fcn.functionDvsecPa + 0x0c) fcn.actagWord
    return { d with
      fcnCfgArray := Function.update d.fcnCfgArray f (some fcn)
      fcns := d.fcns ++ [⟨f, fcn.functionDvsecPa, fcn.functionActagBase, fcn.functionActagLengthEnabled⟩] }
  else return d

def readAfuConfig (cs : CfgSpace) (fresh : Fresh) (n : ℕ) (bus : UInt8) : Traced CfgAccess Discovery :=
  (List.range 8).foldlM (discoverFcn cs fresh n bus) Discovery.initial

/-! ## What a capability does -/

@[simp] theorem shows_cfgRead {cs : CfgSpace} {pa : UInt64} {trace : List CfgAccess}
    {post : UInt32 → List CfgAccess → Prop} :
    (cfgRead cs pa).Shows trace post ↔ post (cs trace pa) (trace ++ [.read pa (cs trace pa)]) := by
  simp only [cfgRead, shows_bind, shows_ask, shows_emit, shows_pure]

@[simp] theorem shows_cfgWrite {pa data : UInt64} {trace : List CfgAccess}
    {post : Unit → List CfgAccess → Prop} :
    (cfgWrite pa data).Shows trace post ↔ post () (trace ++ [.write pa data]) :=
  shows_emit

theorem grows_cfgRead (cs : CfgSpace) (pa : UInt64) : (cfgRead cs pa).Grows := by
  intro trace
  exact shows_cfgRead.mpr (List.prefix_append _ _)

theorem grows_awaitDataValid (cs : CfgSpace) (addr : UInt64) (n : ℕ) : (awaitDataValid cs addr n).Grows := by
  induction n with
  | zero => exact grows_diverge
  | succ n ih => exact (grows_cfgRead cs addr).bind (fun _ => ih.ite grows_pure)

theorem grows_readAfuDescriptor (cs : CfgSpace) (n : ℕ) (addr offset : UInt64) :
    (readAfuDescriptor cs n addr offset).Grows :=
  grows_emit.bind (fun _ => (grows_awaitDataValid cs addr n).bind (fun _ => grows_cfgRead cs _))

theorem grows_readNamespace (cs : CfgSpace) (n : ℕ) (addr : UInt64) : (readNamespace cs n addr).Grows :=
  (grows_mapM (fun _ => grows_readAfuDescriptor cs n addr _) _).bind (fun _ => grows_pure)

theorem grows_readTemplate (cs : CfgSpace) (n : ℕ) (addr : UInt64) (afu : AfuCfg) :
    (readTemplate cs n addr afu).Grows := by
  have hword : ∀ offset, (readAfuDescriptor cs n addr offset).Grows := grows_readAfuDescriptor cs n addr
  unfold readTemplate
  refine (grows_readNamespace cs n addr).bind (fun _ => ?_)
  iterate 10 refine (hword _).bind (fun _ => ?_)
  exact grows_pure

/-- The descriptor says nothing of the lengths that an AFU supports. -/
theorem readTemplate_yields (cs : CfgSpace) (n : ℕ) (addr : UInt64) (afu : AfuCfg) :
    (readTemplate cs n addr afu).Yields (fun afu' => afu'.pasidLenSupported = afu.pasidLenSupported) := by
  unfold readTemplate
  iterate 11 refine yields_bind (fun _ => ?_)
  exact yields_pure rfl

/-- The accesses that probe a window and set its base. -/
def Window.accesses (w : Window) : List CfgAccess :=
  [.write (w.cmdPaFcn + 0x10) 0xFFFFFFFF, .write (w.cmdPaFcn + 0x14) 0xFFFFFFFF,
    .read (w.cmdPaFcn + 0x10) w.low, .read (w.cmdPaFcn + 0x14) w.high,
    .write (w.cmdPaFcn + 0x10) (w.bar0 &&& 0xFFFFFFFF), .write (w.cmdPaFcn + 0x14) (w.bar0 >>> 32)]

/-- The accesses that set the ranges of an AFU. -/
def AfuRange.accesses (r : AfuRange) : List CfgAccess :=
  [.write (r.cmdPaEc + 0x10) (r.pasidLen.toUInt64 <<< 8), .write (r.cmdPaEc + 0x14) r.pasidBase.toUInt64,
    .write (r.cmdPaEc + 0x18) (r.actagLength.toUInt64 <<< 16), .write (r.cmdPaEc + 0x1c) r.actagBase.toUInt64]

structure AfuRange.RecordedIn (r : AfuRange) (afu : AfuCfg) : Prop where
  pasidBase : afu.pasidBase = r.pasidBase
  pasidLen : afu.pasidLenEnabled = r.pasidLen
  actagBase : afu.actagBase = r.actagBase
  actagLength : afu.actagLengthEnabled = r.actagLength

/-- What an extended capability of the function `f` does to its record, to the marks and to what was given out,
where `trace` are the accesses so far. -/
inductive CapStep (f : ℕ) (cmdPaFcn : UInt64) (trace : List CfgAccess) (fcn : FcnCfg) (d : Discovery) :
    FcnCfg × Discovery → Prop
  | quiet (fcn' : FcnCfg) (maxClients : ℤ) (hbar0 : fcn'.bar0 = fcn.bar0)
      (hbase : fcn'.functionActagBase = fcn.functionActagBase)
      (hlength : fcn'.functionActagLengthEnabled = fcn.functionActagLengthEnabled)
      (harray : fcn'.afuCfgArray = fcn.afuCfgArray) :
      CapStep f cmdPaFcn trace fcn d (fcn', { d with maxClients })
  | window (fcn' : FcnCfg) (w : Window) (hfcn : w.fcn = f) (hpa : w.cmdPaFcn = cmdPaFcn) (hbar : w.bar0 = d.bar)
      (hbar0 : fcn'.bar0 = d.bar) (hbase : fcn'.functionActagBase = d.actag.toUInt16)
      (hlength : fcn'.functionActagLengthEnabled = fcn.functionActagLengthEnabled)
      (harray : fcn'.afuCfgArray = some (fun _ => none)) (haccesses : w.accesses <:+: trace) :
      CapStep f cmdPaFcn trace fcn d
        (fcn', { d with bar := d.bar + windowSize w.low w.high, windows := d.windows ++ [w] })
  | ranges (fcn' : FcnCfg) (r : AfuRange) (afu : AfuCfg) (afuCfgArray : ℕ → Option AfuCfg) (hfcn : r.fcn = f)
      (hlen : r.pasidLen.toNat < 32) (hpasid : r.pasidBase = d.pasid.toUInt8)
      (hactag : r.actagBase = d.actag.toUInt16) (hbar0 : fcn'.bar0 = fcn.bar0)
      (hbase : fcn'.functionActagBase = fcn.functionActagBase)
      (hlength : fcn'.functionActagLengthEnabled = fcn.functionActagLengthEnabled + r.actagLength)
      (harray : fcn.afuCfgArray = some afuCfgArray)
      (harray' : fcn'.afuCfgArray = some (Function.update afuCfgArray r.afuIndex (some afu)))
      (hafu : r.RecordedIn afu) (haccesses : r.accesses <:+: trace) :
      CapStep f cmdPaFcn trace fcn d
        (fcn', { d with
          pasid := d.pasid + UInt64.ofNat (2 ^ r.pasidLen.toNat)
          actag := d.actag + r.actagLength.toUInt64
          afus := d.afus ++ [r] })

/-- A step stands in every trace that goes on from its own. -/
theorem CapStep.mono {f : ℕ} {cmdPaFcn : UInt64} {trace trace' : List CfgAccess} {fcn : FcnCfg}
    {d : Discovery} {s : FcnCfg × Discovery} (h : CapStep f cmdPaFcn trace fcn d s) (hpre : trace <+: trace') :
    CapStep f cmdPaFcn trace' fcn d s := by
  cases h with
  | quiet fcn' maxClients hbar0 hbase hlength harray => exact .quiet fcn' maxClients hbar0 hbase hlength harray
  | window fcn' w hfcn hpa hbar hbar0 hbase hlength harray haccesses =>
    exact .window fcn' w hfcn hpa hbar hbar0 hbase hlength harray (haccesses.trans hpre.isInfix)
  | ranges fcn' r afu afuCfgArray hfcn hlen hpasid hactag hbar0 hbase hlength harray harray' hafu haccesses =>
    exact .ranges fcn' r afu afuCfgArray hfcn hlen hpasid hactag hbar0 hbase hlength harray harray' hafu
      (haccesses.trans hpre.isInfix)

theorem prefix_emit {trace trace' : List CfgAccess} {a : CfgAccess} (h : trace <+: trace') :
    trace <+: trace' ++ [a] :=
  h.trans (List.prefix_append _ _)

section Steps

variable (cs : CfgSpace) (fresh : Fresh) (n f : ℕ) (cmdPaFcn cmdPaEc : UInt64) (dvsec : UInt32) (fcn : FcnCfg)
  (d : Discovery) (trace : List CfgAccess)

/-- Each of the handlers of a DVSEC takes such a step. -/
def TakesStep (m : Traced CfgAccess (FcnCfg × Discovery)) : Prop :=
  m.Shows trace (fun s trace' => trace <+: trace' ∧ CapStep f cmdPaFcn trace' fcn d s)

variable {f cmdPaFcn fcn d trace} in
theorem takesStep_after {a : CfgAccess} {m : Traced CfgAccess (FcnCfg × Discovery)}
    (h : TakesStep f cmdPaFcn fcn d (trace ++ [a]) m) :
    m.Shows (trace ++ [a]) (fun s trace' => trace <+: trace' ∧ CapStep f cmdPaFcn trace' fcn d s) :=
  h.mono (fun _ _ hs => ⟨(List.prefix_append _ _).trans hs.1, hs.2⟩)

theorem foundPasid_step : TakesStep f cmdPaFcn fcn d trace (foundPasid cs cmdPaEc fcn d) := by
  simp only [TakesStep, foundPasid, shows_bind, shows_cfgRead, shows_pure]
  exact ⟨List.prefix_append _ _, .quiet _ _ rfl rfl rfl rfl⟩

theorem foundFunctionDvsec_step :
    TakesStep f cmdPaFcn fcn d trace (foundFunctionDvsec cs f cmdPaFcn cmdPaEc dvsec fcn d) := by
  unfold TakesStep foundFunctionDvsec
  dsimp only
  split
  · exact shows_pure.mpr ⟨List.prefix_rfl, .quiet _ d.maxClients rfl rfl rfl rfl⟩
  · simp only [assignBar, shows_bind, shows_cfgRead, shows_cfgWrite, shows_pure]
    refine ⟨?_, .window _ ⟨f, cmdPaFcn, _, _, d.bar⟩ rfl rfl rfl rfl rfl rfl rfl ?_⟩
    · iterate 7 apply prefix_emit
      exact List.prefix_rfl
    exact ⟨trace, [.write (cmdPaFcn + 0x04) 0x00000002], by simp [Window.accesses]⟩

theorem foundAfuCtlDvsec_step :
    TakesStep f cmdPaFcn fcn d trace (foundAfuCtlDvsec cs fresh n f cmdPaEc dvsec fcn d) := by
  unfold TakesStep foundAfuCtlDvsec
  split
  · exact shows_pure.mpr ⟨List.prefix_rfl, .quiet _ d.maxClients rfl rfl rfl rfl⟩
  cases harray : fcn.afuCfgArray with
  | none => exact shows_diverge
  | some afuCfgArray =>
    dsimp only
    split
    · exact shows_diverge
    · simp only [shows_bind, shows_ask, shows_cfgRead, shows_cfgWrite]
      intro afu trace' hafu
      have hpre := grows_readTemplate cs n _ _ _ afu trace' hafu
      have hlen := readTemplate_yields cs n _ _ _ afu trace' hafu
      simp only [assignRanges, shows_bind, shows_cfgWrite, shows_pure]
      refine ⟨?_, .ranges _ ⟨f, _, cmdPaEc, _, _, _, _⟩ _ afuCfgArray rfl ?_ rfl rfl rfl rfl rfl harray rfl
        ⟨rfl, rfl, rfl, rfl⟩ ?_⟩
      · iterate 5 apply prefix_emit
        refine List.IsPrefix.trans ?_ hpre
        iterate 3 apply prefix_emit
        exact List.prefix_rfl
      · change afu.pasidLenSupported.toNat < 32
        rw [hlen, UInt8.toNat_and]
        exact Nat.lt_of_le_of_lt Nat.and_le_right (by decide)
      · exact ⟨trace', [.write (cmdPaEc + 0x0c) 0x01000000], by simp [AfuRange.accesses]⟩

theorem foundDvsec_step :
    TakesStep f cmdPaFcn fcn d trace (foundDvsec cs fresh n f cmdPaFcn cmdPaEc fcn d) := by
  unfold TakesStep foundDvsec
  rw [shows_bind, shows_cfgRead]
  generalize cs trace (cmdPaEc + 0x08) = dvsec
  apply takesStep_after
  by_cases htl : dvsec.toUInt16 = 0xF000
  · rw [if_pos htl]
    simp only [TakesStep, foundTlDvsec, shows_bind, shows_cfgRead, shows_pure]
    refine ⟨?_, .quiet _ d.maxClients rfl rfl rfl rfl⟩
    iterate 3 apply prefix_emit
    exact List.prefix_rfl
  rw [if_neg htl]
  by_cases hfunction : dvsec.toUInt16 = 0xF001
  · rw [if_pos hfunction]
    exact foundFunctionDvsec_step cs f cmdPaFcn cmdPaEc dvsec fcn d _
  rw [if_neg hfunction]
  by_cases hinfo : dvsec.toUInt16 = 0xF003
  · rw [if_pos hinfo]
    exact shows_pure.mpr ⟨List.prefix_rfl, .quiet _ d.maxClients rfl rfl rfl rfl⟩
  rw [if_neg hinfo]
  by_cases hctl : dvsec.toUInt16 = 0xF004
  · rw [if_pos hctl]
    exact foundAfuCtlDvsec_step cs fresh n f cmdPaFcn cmdPaEc dvsec fcn d _
  · rw [if_neg hctl]
    exact shows_pure.mpr ⟨List.prefix_rfl, .quiet _ d.maxClients rfl rfl rfl rfl⟩

theorem foundCapability_step (offset : UInt64) :
    (foundCapability cs fresh n f cmdPaFcn offset fcn d).Shows trace (fun s trace' =>
      trace <+: trace' ∧ CapStep f cmdPaFcn trace' fcn d s.2) := by
  unfold foundCapability
  simp only [shows_bind, shows_cfgRead]
  split
  · rw [shows_bind]
    refine (takesStep_after (foundPasid_step cs f cmdPaFcn _ fcn d _)).mono ?_
    intro s trace' hs
    exact shows_pure.mpr hs
  split
  · rw [shows_bind]
    refine (takesStep_after (foundDvsec_step cs fresh n f cmdPaFcn _ fcn d _)).mono ?_
    intro s trace' hs
    exact shows_pure.mpr hs
  · exact shows_pure.mpr ⟨List.prefix_append _ _, .quiet _ d.maxClients rfl rfl rfl rfl⟩

end Steps

/-- What every capability keeps, and a longer trace keeps, the walk keeps. -/
theorem walkCapabilities_shows (cs : CfgSpace) (fresh : Fresh) (n f : ℕ) (cmdPaFcn : UInt64)
    {Inv : FcnCfg × Discovery → List CfgAccess → Prop}
    (hstep : ∀ fcn d trace s trace', Inv (fcn, d) trace → trace <+: trace' →
      CapStep f cmdPaFcn trace' fcn d s → Inv s trace')
    (k : ℕ) (offset : UInt64) (fcn : FcnCfg) (d : Discovery) (trace : List CfgAccess) (h : Inv (fcn, d) trace) :
    (walkCapabilities cs fresh n f cmdPaFcn k offset fcn d).Shows trace Inv := by
  induction k generalizing offset fcn d trace with
  | zero =>
    unfold walkCapabilities
    split
    · exact shows_pure.mpr h
    · exact shows_diverge
  | succ k ih =>
    unfold walkCapabilities
    split
    · exact shows_pure.mpr h
    · rw [shows_bind]
      refine (foundCapability_step cs fresh n f cmdPaFcn fcn d trace offset).mono ?_
      intro s trace' hs
      exact ih s.1 s.2.1 s.2.2 trace' (hstep fcn d trace s.2 trace' h hs.1 hs.2)

/-- A function at a time: what the walk over its capabilities starts from, keeps and ends in. -/
theorem discoverFcn_shows (Inv Inv' : Discovery → List CfgAccess → Prop)
    (During : FcnCfg × Discovery → List CfgAccess → Prop) (cs : CfgSpace) (fresh : Fresh) (n : ℕ)
    (bus : UInt8) (f : ℕ)
    (hskip : ∀ d trace trace', Inv d trace → trace <+: trace' → Inv' { d with pasid := 0 } trace')
    (hstart : ∀ fcn d trace trace', Inv d trace → trace <+: trace' → fcn.afuCfgArray = none →
      fcn.functionActagLengthEnabled = (fresh.fcn trace').functionActagLengthEnabled →
      During (fcn, { d with pasid := 0 }) trace')
    (hstep : ∀ fcn d trace s trace', During (fcn, d) trace → trace <+: trace' →
      CapStep f ((bus.toUInt64 <<< 24) + UInt64.ofNat (f * 0x10000)) trace' fcn d s → During s trace')
    (hend : ∀ fcn d trace, During (fcn, d) trace →
      Inv' { d with
        fcnCfgArray := Function.update d.fcnCfgArray f (some fcn)
        fcns := d.fcns ++ [⟨f, fcn.functionDvsecPa, fcn.functionActagBase, fcn.functionActagLengthEnabled⟩] }
        (trace ++ [.write (fcn.functionDvsecPa + 0x0c) fcn.actagWord]))
    {d : Discovery} {trace : List CfgAccess} (h : Inv d trace) :
    (discoverFcn cs fresh n bus d f).Shows trace Inv' := by
  unfold discoverFcn
  rw [shows_bind, shows_cfgRead]
  dsimp only
  split
  · rw [shows_bind, shows_ask, shows_bind]
    refine (walkCapabilities_shows cs fresh n f _ hstep n 0x100 _ _ _ ?_).mono ?_
    · exact hstart _ d trace _ h (List.prefix_append _ _) rfl rfl
    · intro s trace' hs
      rw [shows_bind, shows_cfgWrite, shows_pure]
      exact hend s.1 s.2 trace' hs
  · exact shows_pure.mpr (hskip d trace _ h (List.prefix_append _ _))

end Ocse
