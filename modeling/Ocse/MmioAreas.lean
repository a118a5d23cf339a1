import Ocse.ApiHonest
import Mathlib.Data.Finset.Option
import Mathlib.Data.Fintype.Card

/-!
# MMIO areas

`ocxl_mmio_map` hands out the next entry of an array of areas and counts it; `ocxl_mmio_unmap` clears the flag of the
area's type and leaves the count as it is. An access asks for the flag. So the areas that may be used are those that
were returned and not given back as long as no area is given back, or there has been only one map. Otherwise the next
map is refused, although fewer areas are mapped than there may be.
-/

namespace Ocse

/-- `ocxl_mmio_area`; of the pointer to the AFU, whether it is set. -/
structure MmioArea where
  start : UInt64
  length : UInt64
  global : Bool
  afu : Bool
  deriving DecidableEq, Repr

/-- The areas of `struct ocxl_afu`, beside what the other calls look at. -/
structure AreaAfu where
  lib : LibAfu
  globalMmio : MmioArea
  perPasidMmio : MmioArea
  mmios : Fin 2 → MmioArea

namespace AreaAfu

def withLib (a : AreaAfu) (lib : LibAfu) : AreaAfu := { a with lib }

/-- The entry that `mmio_count` points at. -/
def entry (a : AreaAfu) : Option (Fin 2) := if h : a.lib.mmioCount < 2 then some ⟨a.lib.mmioCount, h⟩ else none

/-- What `_handle_ack` writes into an entry. -/
def mappedArea (a : AreaAfu) : MmioArea :=
  let mmio := if a.lib.mmioType = ocseGlobalMmioMap then a.globalMmio else a.perPasidMmio
  ⟨mmio.start, mmio.length, a.lib.mmioType = ocseGlobalMmioMap, true⟩

/-- The entries after `_handle_ack`. A map has seen that there is one left before it sends its request. -/
def ackedAreas (a : AreaAfu) : Fin 2 → MmioArea :=
  if a.lib.mmioType = ocseMmioMap ∨ a.lib.mmioType = ocseGlobalMmioMap then
    match a.entry with
    | some h => Function.update a.mmios h a.mappedArea
    | none => a.mmios
  else a.mmios

/-- One turn of `_psl_loop` -/
def pslTurn (a : AreaAfu) (t : PslInput) : AreaAfu :=
  { a with
    lib := a.lib.pslTurn t
    mmios := match t.message with
      | .mmioAck _ => if a.lib.alive then a.ackedAreas else a.mmios
      | _ => a.mmios }

def wait (a : AreaAfu) (turns : List PslInput) : Option AreaAfu :=
  let a := turns.foldl pslTurn (a.withLib (a.lib.setState .mmio .request))
  if a.lib.exited then none else if a.lib.state .mmio = .idle then some a else none

def ocxlMmioMap (a : AreaAfu) (global : Bool) (turns : List PslInput) :
    Option (OcxlErr × Option (Fin 2) × AreaAfu) :=
  if !a.lib.opened then some (.noContext, none, a)
  else if a.lib.mmioCount = a.lib.mmioMax then some (.noMem, none, a)
  else
    ((a.withLib (a.lib.askMap global)).wait turns).map (fun a =>
      (.ok, a.entry, a.withLib
        { a.lib with
          mapped := if global then a.lib.mapped else true
          globalMapped := if global then true else a.lib.globalMapped
          mmioCount := a.lib.mmioCount + 1 }))

/-- An area that no map has returned has no AFU to follow. -/
def ocxlMmioUnmap (a : AreaAfu) (h : Fin 2) : Option AreaAfu :=
  if (a.mmios h).afu then
    some (a.withLib
      (if (a.mmios h).global then { a.lib with globalMapped := false } else { a.lib with mapped := false }))
  else none

/-- A handle, as the accesses see it. -/
def handle (a : AreaAfu) (h : Fin 2) : OcxlMmio where
  afu := if (a.mmios h).afu then some ⟨a.lib.mapped, a.lib.globalMapped, a.lib.opened⟩ else none
  global := (a.mmios h).global

/-- The checks of an access let it pass. -/
def accepts (a : AreaAfu) (h : Fin 2) (offset mask : UInt64) : Bool := ((a.handle h).check offset mask).isOk

/-- A device that has just been opened. -/
structure Fresh (a : AreaAfu) : Prop where
  opened : a.lib.opened = true
  running : a.lib.running = true
  exited : a.lib.exited = false
  state : ∀ slot, a.lib.state slot = .idle
  mapped : a.lib.mapped = false
  globalMapped : a.lib.globalMapped = false
  mmioCount : a.lib.mmioCount = 0
  mmioMax : a.lib.mmioMax = 2
  mmios : ∀ h, (a.mmios h).afu = false

end AreaAfu

/-! ## Runs -/

/-- Some turns in which nothing comes, and the reply of ocse. -/
def mapTurns (n : ℕ) : List PslInput :=
  List.replicate n ⟨fun _ => true, .quiet⟩ ++ [⟨fun _ => true, .mmioAck handleMmioMap.tail⟩]

/-- A call of an application, with the number of turns that a map waits for its reply. -/
inductive AreaCall
  | map (global : Bool) (n : ℕ)
  | unmap (h : Fin 2)
  deriving DecidableEq, Repr

/-- A device, and the handles that were returned by a map and not unmapped since. -/
structure AreaRun where
  afu : AreaAfu
  live : Finset (Fin 2)

namespace AreaRun

def init (a : AreaAfu) : AreaRun := ⟨a, ∅⟩

def call (r : AreaRun) : AreaCall → Option AreaRun
  | .map global n => (r.afu.ocxlMmioMap global (mapTurns n)).map (fun (_, h, a) => ⟨a, r.live ∪ h.toFinset⟩)
  | .unmap h => (r.afu.ocxlMmioUnmap h).map (fun a => ⟨a, r.live.erase h⟩)

def run (r : AreaRun) : List AreaCall → Option AreaRun
  | [] => some r
  | c :: cs => (r.call c).bind (fun r => run r cs)

/-- A map succeeds while there is room, and exactly the live handles may be used. -/
structure Right (r : AreaRun) : Prop where
  maps : r.live.card < r.afu.lib.mmioMax → ∀ global n,
    ∃ h a, r.afu.ocxlMmioMap global (mapTurns n) = some (.ok, some h, a)
  access : ∀ (h : Fin 2) (offset : UInt64) (dw : Bool), offset &&& (if dw then 0x7 else 0x3) = 0 →
    (r.afu.accepts h offset (if dw then 0x7 else 0x3) = true ↔ h ∈ r.live)

end AreaRun

def mapsIn (calls : List AreaCall) : ℕ := calls.countP (fun c => match c with | .map _ _ => true | .unmap _ => false)

/-- No area is given back, or there is one map at most. -/
def AreasHold (calls : List AreaCall) : Prop := (∃ h, .unmap h ∈ calls) → mapsIn calls ≤ 1

/-! ## One call -/

section Calls

variable {a : AreaAfu} {global : Bool}

theorem foldl_pslTurn_lib (turns : List PslInput) :
    (turns.foldl AreaAfu.pslTurn a).lib = turns.foldl LibAfu.pslTurn a.lib := by
  induction turns generalizing a with
  | nil => rfl
  | cons t turns ih => exact ih

theorem areaWait_lib (turns : List PslInput) : (a.wait turns).map AreaAfu.lib = a.lib.wait .mmio turns := by
  have hlib := foldl_pslTurn_lib (a := a.withLib (a.lib.setState .mmio .request)) turns
  unfold AreaAfu.wait LibAfu.wait
  dsimp only
  rw [hlib]
  change _ = if (turns.foldl LibAfu.pslTurn (a.lib.setState .mmio .request)).exited = true then none else _
  by_cases hexited : (turns.foldl LibAfu.pslTurn (a.lib.setState .mmio .request)).exited = true
  · rw [if_pos hexited]
    exact congrArg (Option.map AreaAfu.lib) (if_pos hexited)
  · by_cases hidle : (turns.foldl LibAfu.pslTurn (a.lib.setState .mmio .request)).state .mmio = .idle
    · rw [if_neg hexited, if_pos hidle]
      exact (congrArg (Option.map AreaAfu.lib) ((if_neg hexited).trans (if_pos hidle))).trans (congrArg some hlib)
    · rw [if_neg hexited, if_neg hidle]
      exact congrArg (Option.map AreaAfu.lib) ((if_neg hexited).trans (if_neg hidle))

/-- Without the areas this is the call that all properties of the library are about. -/
theorem ocxlMmioMap_lib (turns : List PslInput) :
    (a.ocxlMmioMap global turns).map (fun (err, _, a) => (err, a.lib)) = a.lib.ocxlMmioMap global turns := by
  have hwait := areaWait_lib (a := a.withLib (a.lib.askMap global)) turns
  unfold AreaAfu.ocxlMmioMap LibAfu.ocxlMmioMap
  by_cases hopened : (!a.lib.opened) = true
  · rw [if_pos hopened, if_pos hopened]
    rfl
  · by_cases hfull : a.lib.mmioCount = a.lib.mmioMax
    · rw [if_neg hopened, if_neg hopened, if_pos hfull, if_pos hfull]
      rfl
    · rw [if_neg hopened, if_neg hopened, if_neg hfull, if_neg hfull]
      change _ = Option.map _ ((a.withLib (a.lib.askMap global)).lib.wait .mmio turns)
      rw [← hwait, Option.map_map, Option.map_map]
      rfl

/-- The connection is up and no request is under way. -/
structure LibAfu.Ready (lib : LibAfu) : Prop where
  opened : lib.opened = true
  running : lib.running = true
  exited : lib.exited = false
  state : ∀ slot, lib.state slot = .idle

theorem sendAll_waiting {lib : LibAfu} (hready : lib.Ready) {s : ReqState} (hs : s ≠ .idle) :
    (lib.setState .mmio s).sendAll (fun _ => true) = lib.setState .mmio .pending := by
  have hattach := hready.state .attach
  have hmem := hready.state .mem
  cases s with
  | idle => exact absurd rfl hs
  | request => simp [LibAfu.sendAll, LibAfu.send, LibAfu.setState, hattach, hmem]
  | pending => simp [LibAfu.sendAll, LibAfu.send, LibAfu.setState, hattach, hmem]

theorem setState_alive {lib : LibAfu} (hready : lib.Ready) (s : ReqState) : (lib.setState .mmio s).alive = true := by
  unfold LibAfu.alive LibAfu.setState
  rw [hready.running, hready.opened, hready.exited]
  rfl

theorem setState_idle_self {lib : LibAfu} (hready : lib.Ready) (s : ReqState) :
    (lib.setState .mmio s).setState .mmio .idle = lib := by
  unfold LibAfu.setState
  dsimp only
  rw [Function.update_idem, ← hready.state .mmio, Function.update_eq_self]

theorem pslTurn_quiet {lib : LibAfu} (hready : lib.Ready) {s : ReqState} (hs : s ≠ .idle) :
    (lib.setState .mmio s).pslTurn ⟨fun _ => true, .quiet⟩ = lib.setState .mmio .pending := by
  unfold LibAfu.pslTurn
  rw [if_pos (setState_alive hready s)]
  dsimp only
  rw [sendAll_waiting hready hs]
  exact if_pos (by simp [LibAfu.receive, setState_alive hready])

theorem pslTurn_mapAck {lib : LibAfu} (hready : lib.Ready) {s : ReqState} (hs : s ≠ .idle)
    (htype : lib.mmioType = ocseMmioMap ∨ lib.mmioType = ocseGlobalMmioMap) :
    (lib.setState .mmio s).pslTurn ⟨fun _ => true, .mmioAck handleMmioMap.tail⟩ = lib := by
  have hsize : isMmioRead64 lib.mmioType = false ∧ isMmioRead32 lib.mmioType = false := by
    rcases htype with h | h <;> simp [h] <;> decide
  have hack : (lib.setState .mmio .pending).handleAck handleMmioMap.tail = lib := by
    have hcode : getBytes 1 handleMmioMap.tail = some ((Buffer.const 0).write 0 [0], []) := rfl
    unfold LibAfu.handleAck
    rw [hcode]
    dsimp only
    rw [if_neg (by simp [LibAfu.setState, hsize]), if_neg (by simp [LibAfu.setState, hsize])]
    exact setState_idle_self hready .pending
  unfold LibAfu.pslTurn
  rw [if_pos (setState_alive hready s)]
  dsimp only
  rw [sendAll_waiting hready hs, LibAfu.receive, hack]
  exact if_pos (by simp [LibAfu.alive, hready.running, hready.opened, hready.exited])

theorem areaTurns_quiet (hready : a.lib.Ready) {s : ReqState} (hs : s ≠ .idle) (n : ℕ) :
    ∃ s', s' ≠ .idle ∧ (List.replicate n ⟨fun _ => true, .quiet⟩).foldl AreaAfu.pslTurn
      (a.withLib (a.lib.setState .mmio s)) = a.withLib (a.lib.setState .mmio s') := by
  induction n generalizing s with
  | zero => exact ⟨s, hs, rfl⟩
  | succ n ih =>
    obtain ⟨s', hs', heq⟩ := ih (s := .pending) (by decide)
    refine ⟨s', hs', ?_⟩
    rw [List.replicate_succ, List.foldl_cons, ← heq]
    congr 1
    unfold AreaAfu.pslTurn AreaAfu.withLib
    dsimp only
    rw [pslTurn_quiet hready hs]

theorem areaWait_mapTurns (hready : a.lib.Ready)
    (htype : a.lib.mmioType = ocseMmioMap ∨ a.lib.mmioType = ocseGlobalMmioMap) (n : ℕ) :
    a.wait (mapTurns n) = some { a with mmios := a.ackedAreas } := by
  obtain ⟨s, hs, hquiet⟩ := areaTurns_quiet hready (s := .request) (by decide) n
  have hturns : (mapTurns n).foldl AreaAfu.pslTurn (a.withLib (a.lib.setState .mmio .request)) =
      { a with mmios := a.ackedAreas } := by
    rw [mapTurns, List.foldl_append, hquiet]
    change AreaAfu.pslTurn _ _ = _
    unfold AreaAfu.pslTurn AreaAfu.withLib
    dsimp only
    rw [pslTurn_mapAck hready hs htype, if_pos (setState_alive hready s)]
    rfl
  unfold AreaAfu.wait
  dsimp only
  rw [hturns, if_neg (by simp [hready.exited]), if_pos (hready.state .mmio)]

/-- The flag that an area of a type depends on. -/
def AreaAfu.flag (a : AreaAfu) (global : Bool) : Bool := if global then a.lib.globalMapped else a.lib.mapped

/-- What a map that succeeds does, with the handle that it returns. -/
structure AreaAfu.Maps (a : AreaAfu) (global : Bool) (h : Fin 2) (b : AreaAfu) : Prop where
  ready : b.lib.Ready
  mmioMax : b.lib.mmioMax = a.lib.mmioMax
  mmioCount : b.lib.mmioCount = a.lib.mmioCount + 1
  flag : ∀ g, b.flag g = true ↔ g = global ∨ a.flag g = true
  afu : (b.mmios h).afu = true
  global : (b.mmios h).global = global
  others : ∀ i, i ≠ h → b.mmios i = a.mmios i

theorem ocxlMmioMap_room (hready : a.lib.Ready) (hroom : a.lib.mmioCount < 2) (hmax : a.lib.mmioMax = 2)
    (global : Bool) (n : ℕ) :
    ∃ b, a.ocxlMmioMap global (mapTurns n) = some (.ok, some ⟨a.lib.mmioCount, hroom⟩, b) ∧
      a.Maps global ⟨a.lib.mmioCount, hroom⟩ b := by
  have hasked : (a.withLib (a.lib.askMap global)).lib.Ready := ⟨hready.opened, hready.running, hready.exited, hready.state⟩
  have htype : (a.withLib (a.lib.askMap global)).lib.mmioType = ocseMmioMap ∨
      (a.withLib (a.lib.askMap global)).lib.mmioType = ocseGlobalMmioMap := by
    cases global
    · exact .inl rfl
    · exact .inr rfl
  have hentry : (a.withLib (a.lib.askMap global)).entry = some ⟨a.lib.mmioCount, hroom⟩ := dif_pos hroom
  have hareas : (a.withLib (a.lib.askMap global)).ackedAreas = Function.update a.mmios ⟨a.lib.mmioCount, hroom⟩
      (a.withLib (a.lib.askMap global)).mappedArea := by
    unfold AreaAfu.ackedAreas
    rw [if_pos htype, hentry]
    rfl
  unfold AreaAfu.ocxlMmioMap
  rw [if_neg (by simp [hready.opened]), if_neg (by omega), areaWait_mapTurns hasked htype n]
  refine ⟨_, congrArg (fun h => some (OcxlErr.ok, h, _)) hentry, ?_⟩
  constructor
  · exact ⟨hready.opened, hready.running, hready.exited, hready.state⟩
  · rfl
  · rfl
  · intro g
    cases g <;> cases global <;> simp [AreaAfu.flag, AreaAfu.withLib, LibAfu.askMap]
  · change ((a.withLib (a.lib.askMap global)).ackedAreas _).afu = true
    rw [hareas, Function.update_self]
    rfl
  · change ((a.withLib (a.lib.askMap global)).ackedAreas _).global = global
    rw [hareas, Function.update_self]
    cases global <;> rfl
  · intro i hi
    change (a.withLib (a.lib.askMap global)).ackedAreas i = a.mmios i
    rw [hareas, Function.update_of_ne hi]

theorem ocxlMmioMap_full (hready : a.lib.Ready) (hfull : a.lib.mmioCount = a.lib.mmioMax) (turns : List PslInput) :
    a.ocxlMmioMap global turns = some (.noMem, none, a) := by
  unfold AreaAfu.ocxlMmioMap
  rw [if_neg (by simp [hready.opened]), if_pos hfull]

theorem accepts_iff (h : Fin 2) (offset : UInt64) {mask : UInt64} (haligned : offset &&& mask = 0) :
    a.accepts h offset mask = true ↔ (a.mmios h).afu = true ∧ a.flag (a.mmios h).global = true := by
  unfold AreaAfu.accepts AreaAfu.handle OcxlMmio.check AreaAfu.flag
  cases hafu : (a.mmios h).afu with
  | false => simp [Except.isOk, Except.toBool]
  | true =>
    cases hglobal : (a.mmios h).global with
    | false => cases hflag : a.lib.mapped <;> simp [OcxlAfu.mappedFor, haligned, Except.isOk, Except.toBool]
    | true => cases hflag : a.lib.globalMapped <;> simp [OcxlAfu.mappedFor, haligned, Except.isOk, Except.toBool]

theorem ocxlMmioUnmap_eq_some_iff {h : Fin 2} {b : AreaAfu} : a.ocxlMmioUnmap h = some b ↔ (a.mmios h).afu = true ∧
    b = a.withLib (if (a.mmios h).global then { a.lib with globalMapped := false } else { a.lib with mapped := false }) := by
  unfold AreaAfu.ocxlMmioUnmap
  by_cases hafu : (a.mmios h).afu = true
  · rw [if_pos hafu, Option.some_inj]
    exact ⟨fun heq => ⟨hafu, heq.symm⟩, fun heq => heq.2.symm⟩
  · rw [if_neg hafu]
    exact ⟨fun heq => absurd heq (by simp), fun heq => absurd heq.1 hafu⟩

/-- What an unmap does. -/
structure AreaAfu.Unmaps (a : AreaAfu) (h : Fin 2) (b : AreaAfu) : Prop where
  ready : a.lib.Ready → b.lib.Ready
  mmioMax : b.lib.mmioMax = a.lib.mmioMax
  mmioCount : b.lib.mmioCount = a.lib.mmioCount
  flag : b.flag (a.mmios h).global = false
  mmios : b.mmios = a.mmios

theorem ocxlMmioUnmap_unmaps {h : Fin 2} {b : AreaAfu} (hunmap : a.ocxlMmioUnmap h = some b) : a.Unmaps h b := by
  obtain ⟨-, rfl⟩ := ocxlMmioUnmap_eq_some_iff.mp hunmap
  cases hglobal : (a.mmios h).global with
  | false => exact ⟨fun hready => ⟨hready.opened, hready.running, hready.exited, hready.state⟩, rfl, rfl, by rw [hglobal]; rfl, rfl⟩
  | true => exact ⟨fun hready => ⟨hready.opened, hready.running, hready.exited, hready.state⟩, rfl, rfl, by rw [hglobal]; rfl, rfl⟩

end Calls

/-! ## Every run -/

theorem areaRun_concat (r : AreaRun) (calls : List AreaCall) (c : AreaCall) :
    r.run (calls ++ [c]) = (r.run calls).bind (fun r => r.call c) := by
  induction calls generalizing r with
  | nil =>
    change (r.call c).bind some = r.call c
    exact Option.bind_fun_some _
  | cons d calls ih =>
    change (r.call d).bind (fun r => r.run (calls ++ [c])) = ((r.call d).bind (fun r => r.run calls)).bind _
    rw [Option.bind_assoc]
    exact congrArg _ (funext ih)

theorem mapsIn_map (calls : List AreaCall) (global : Bool) (n : ℕ) : mapsIn (calls ++ [.map global n]) = mapsIn calls + 1 := by
  simp [mapsIn]

theorem mapsIn_unmap (calls : List AreaCall) (h : Fin 2) : mapsIn (calls ++ [.unmap h]) = mapsIn calls := by
  simp [mapsIn]

/-- The count against the handles, after some calls. -/
structure AreaRun.Books (calls : List AreaCall) (r : AreaRun) : Prop where
  ready : r.afu.lib.Ready
  mmioMax : r.afu.lib.mmioMax = 2
  mmioCount : r.afu.lib.mmioCount = min 2 (mapsIn calls)
  entries : ∀ h : Fin 2, (r.afu.mmios h).afu = true ↔ h.val < r.afu.lib.mmioCount
  known : ∀ h ∈ r.live, h.val < r.afu.lib.mmioCount
  allLive : (¬∃ h, .unmap h ∈ calls) → ∀ h : Fin 2, h.val < r.afu.lib.mmioCount → h ∈ r.live
  gone : (∃ h, .unmap h ∈ calls) → ∃ h : Fin 2, h.val < r.afu.lib.mmioCount ∧ h ∉ r.live
  flags : AreasHold calls → ∀ h : Fin 2, h.val < r.afu.lib.mmioCount →
    (r.afu.flag (r.afu.mmios h).global = true ↔ h ∈ r.live)

section Books

variable {calls : List AreaCall} {r : AreaRun}

theorem areaBooks_init {a : AreaAfu} (hfresh : a.Fresh) : (AreaRun.init a).Books [] := by
  constructor
  · exact ⟨hfresh.opened, hfresh.running, hfresh.exited, hfresh.state⟩
  · exact hfresh.mmioMax
  · exact hfresh.mmioCount
  · intro h
    change (a.mmios h).afu = true ↔ h.val < a.lib.mmioCount
    rw [hfresh.mmios h, hfresh.mmioCount]
    simp
  · intro h hlive
    exact absurd hlive (Finset.notMem_empty h)
  · intro _ h hlt
    exact absurd (hfresh.mmioCount ▸ hlt) (Nat.not_lt_zero _)
  · rintro ⟨h, hmem⟩
    exact absurd hmem List.not_mem_nil
  · intro _ h hlt
    exact absurd (hfresh.mmioCount ▸ hlt) (Nat.not_lt_zero _)

/-- While a map may follow, no area has been given back. -/
theorem AreaRun.Books.unmapped_none (hbooks : r.Books calls) {global : Bool} {n : ℕ}
    (hhold : AreasHold (calls ++ [.map global n])) : ¬∃ h, .unmap h ∈ calls := by
  rintro ⟨h, hmem⟩
  have hone := hhold ⟨h, List.mem_append_left _ hmem⟩
  rw [mapsIn_map] at hone
  obtain ⟨i, hlt, -⟩ := hbooks.gone ⟨h, hmem⟩
  have hcount := hbooks.mmioCount
  omega

theorem AreaRun.Books.map (hbooks : r.Books calls) {global : Bool} {n : ℕ} (hroom : r.afu.lib.mmioCount < 2)
    {b : AreaAfu} (hmaps : r.afu.Maps global ⟨r.afu.lib.mmioCount, hroom⟩ b) :
    AreaRun.Books (calls ++ [.map global n]) ⟨b, r.live ∪ {⟨r.afu.lib.mmioCount, hroom⟩}⟩ := by
  have hcases : ∀ i : Fin 2, i.val < b.lib.mmioCount → i.val < r.afu.lib.mmioCount ∨ i = ⟨r.afu.lib.mmioCount, hroom⟩ := by
    intro i hi
    rw [hmaps.mmioCount] at hi
    rcases Nat.lt_succ_iff_lt_or_eq.mp hi with hlt | heq
    · exact .inl hlt
    · exact .inr (Fin.ext heq)
  have hother : ∀ i : Fin 2, i.val < r.afu.lib.mmioCount → i ≠ ⟨r.afu.lib.mmioCount, hroom⟩ := by
    rintro i hi rfl
    exact Nat.lt_irrefl _ hi
  have hunmaps : (∃ h, .unmap h ∈ calls ++ [.map global n]) ↔ ∃ h, .unmap h ∈ calls := by simp
  constructor
  · exact hmaps.ready
  · exact hmaps.mmioMax.trans hbooks.mmioMax
  · have hcount := hbooks.mmioCount
    change b.lib.mmioCount = _
    rw [hmaps.mmioCount, mapsIn_map]
    omega
  · intro i
    constructor
    · intro hafu
      change i.val < b.lib.mmioCount
      rw [hmaps.mmioCount]
      by_cases heq : i = ⟨r.afu.lib.mmioCount, hroom⟩
      · rw [heq]
        exact Nat.lt_succ_self _
      · change (b.mmios i).afu = true at hafu
        rw [hmaps.others i heq] at hafu
        exact Nat.lt_succ_of_lt ((hbooks.entries i).mp hafu)
    · intro hi
      change (b.mmios i).afu = true
      rcases hcases i hi with hlt | rfl
      · rw [hmaps.others i (hother i hlt)]
        exact (hbooks.entries i).mpr hlt
      · exact hmaps.afu
  · intro i hi
    change i.val < b.lib.mmioCount
    rw [hmaps.mmioCount]
    rcases Finset.mem_union.mp hi with hold | hnew
    · exact Nat.lt_succ_of_lt (hbooks.known i hold)
    · rw [Finset.mem_singleton.mp hnew]
      exact Nat.lt_succ_self _
  · intro hnone i hi
    rcases hcases i hi with hlt | rfl
    · exact Finset.mem_union_left _ (hbooks.allLive (mt hunmaps.mpr hnone) i hlt)
    · exact Finset.mem_union_right _ (Finset.mem_singleton_self _)
  · intro hsome
    obtain ⟨i, hlt, hnot⟩ := hbooks.gone (hunmaps.mp hsome)
    refine ⟨i, ?_, ?_⟩
    · change i.val < b.lib.mmioCount
      rw [hmaps.mmioCount]
      exact Nat.lt_succ_of_lt hlt
    · rw [Finset.mem_union, Finset.mem_singleton, not_or]
      exact ⟨hnot, hother i hlt⟩
  · intro hhold i hi
    have hnone := hbooks.unmapped_none hhold
    change b.flag (b.mmios i).global = true ↔ _
    rw [hmaps.flag]
    rcases hcases i hi with hlt | rfl
    · rw [hmaps.others i (hother i hlt)]
      have hlive := hbooks.allLive hnone i hlt
      have hflag := (hbooks.flags (fun hsome => absurd hsome hnone) i hlt).mpr hlive
      exact iff_of_true (.inr hflag) (Finset.mem_union_left _ hlive)
    · rw [hmaps.global]
      exact iff_of_true (.inl rfl) (Finset.mem_union_right _ (Finset.mem_singleton_self _))

theorem AreaRun.Books.full (hbooks : r.Books calls) {global : Bool} {n : ℕ} (hfull : r.afu.lib.mmioCount = 2) :
    r.Books (calls ++ [.map global n]) := by
  have hunmaps : (∃ h, .unmap h ∈ calls ++ [.map global n]) ↔ ∃ h, .unmap h ∈ calls := by simp
  constructor
  · exact hbooks.ready
  · exact hbooks.mmioMax
  · have hcount := hbooks.mmioCount
    rw [mapsIn_map]
    omega
  · exact hbooks.entries
  · exact hbooks.known
  · intro hnone
    exact hbooks.allLive (mt hunmaps.mpr hnone)
  · intro hsome
    exact hbooks.gone (hunmaps.mp hsome)
  · intro hhold
    exact hbooks.flags (fun hsome => absurd hsome (hbooks.unmapped_none hhold))

theorem AreaRun.Books.unmap (hbooks : r.Books calls) {h : Fin 2} (hafu : (r.afu.mmios h).afu = true) {b : AreaAfu}
    (hunmaps : r.afu.Unmaps h b) : AreaRun.Books (calls ++ [.unmap h]) ⟨b, r.live.erase h⟩ := by
  have hlt := (hbooks.entries h).mp hafu
  have hsome : ∃ i, .unmap i ∈ calls ++ [.unmap h] := ⟨h, List.mem_append_right _ (List.mem_singleton_self _)⟩
  constructor
  · exact hunmaps.ready hbooks.ready
  · exact hunmaps.mmioMax.trans hbooks.mmioMax
  · rw [mapsIn_unmap]
    exact hunmaps.mmioCount.trans hbooks.mmioCount
  · intro i
    change (b.mmios i).afu = true ↔ i.val < b.lib.mmioCount
    rw [hunmaps.mmios, hunmaps.mmioCount]
    exact hbooks.entries i
  · intro i hi
    change i.val < b.lib.mmioCount
    rw [hunmaps.mmioCount]
    exact hbooks.known i (Finset.mem_of_mem_erase hi)
  · intro hnone
    exact absurd hsome hnone
  · intro _
    refine ⟨h, ?_, Finset.notMem_erase h _⟩
    change h.val < b.lib.mmioCount
    rw [hunmaps.mmioCount]
    exact hlt
  · intro hhold i hi
    -- there has been one map, and the area that is given back is its area
    have hone := hhold hsome
    rw [mapsIn_unmap] at hone
    have hcount := hbooks.mmioCount
    change i.val < b.lib.mmioCount at hi
    rw [hunmaps.mmioCount] at hi
    obtain rfl : i = h := Fin.ext (by omega)
    change b.flag (b.mmios i).global = true ↔ _
    rw [hunmaps.mmios, hunmaps.flag]
    exact iff_of_false (by simp) (Finset.notMem_erase i _)

theorem AreaRun.Books.call (hbooks : r.Books calls) {c : AreaCall} {r' : AreaRun} (hcall : r.call c = some r') :
    r'.Books (calls ++ [c]) := by
  cases c with
  | map global n =>
    obtain ⟨⟨err, entry, b⟩, hmap, rfl⟩ := Option.map_eq_some_iff.mp hcall
    by_cases hroom : r.afu.lib.mmioCount < 2
    · obtain ⟨b', heq, hmaps⟩ := ocxlMmioMap_room hbooks.ready hroom hbooks.mmioMax global n
      rw [heq] at hmap
      cases hmap
      exact hbooks.map hroom hmaps
    · have hfull : r.afu.lib.mmioCount = 2 := by
        have hcount := hbooks.mmioCount
        omega
      rw [ocxlMmioMap_full hbooks.ready (hfull.trans hbooks.mmioMax.symm)] at hmap
      cases hmap
      dsimp only
      rw [Option.toFinset_none, Finset.union_empty]
      exact hbooks.full hfull
  | unmap h =>
    obtain ⟨b, hunmap, rfl⟩ := Option.map_eq_some_iff.mp hcall
    exact hbooks.unmap (ocxlMmioUnmap_eq_some_iff.mp hunmap).1 (ocxlMmioUnmap_unmaps hunmap)

theorem areaBooks_run {a : AreaAfu} (hfresh : a.Fresh) (hrun : (AreaRun.init a).run calls = some r) : r.Books calls := by
  induction calls using List.reverseRecOn generalizing r with
  | nil =>
    cases hrun
    exact areaBooks_init hfresh
  | append_singleton calls c ih =>
    rw [areaRun_concat] at hrun
    obtain ⟨before, hbefore, hcall⟩ := Option.bind_eq_some_iff.mp hrun
    exact (ih hbefore).call hcall

theorem AreaRun.Books.call_isSome (hbooks : r.Books calls) (c : AreaCall) :
    (r.call c).isSome = true ↔ ∀ h, c = .unmap h → h.val < mapsIn calls := by
  cases c with
  | map global n =>
    refine iff_of_true ?_ (fun h hc => by cases hc)
    by_cases hroom : r.afu.lib.mmioCount < 2
    · obtain ⟨b, heq, -⟩ := ocxlMmioMap_room hbooks.ready hroom hbooks.mmioMax global n
      rw [AreaRun.call, heq]
      rfl
    · have hcount := hbooks.mmioCount
      have hmax := hbooks.mmioMax
      rw [AreaRun.call, ocxlMmioMap_full hbooks.ready (by omega)]
      rfl
  | unmap h =>
    have hcount := hbooks.mmioCount
    rw [AreaRun.call, Option.isSome_map]
    constructor
    · intro hsome i hi
      cases hi
      obtain ⟨b, hunmap⟩ := Option.isSome_iff_exists.mp hsome
      have hlt := (hbooks.entries h).mp (ocxlMmioUnmap_eq_some_iff.mp hunmap).1
      omega
    · intro hlt
      have hafu := (hbooks.entries h).mpr (by have := hlt h rfl; omega)
      exact Option.isSome_iff_exists.mpr ⟨_, ocxlMmioUnmap_eq_some_iff.mpr ⟨hafu, rfl⟩⟩

/-- The runs that have a result are those in which an area is given back after a map has returned it. -/
theorem areaRun_isSome_iff {a : AreaAfu} (hfresh : a.Fresh) (calls : List AreaCall) :
    ((AreaRun.init a).run calls).isSome = true ↔
      ∀ before h after, calls = before ++ .unmap h :: after → h.val < mapsIn before := by
  induction calls using List.reverseRecOn with
  | nil => simp [AreaRun.run]
  | append_singleton calls c ih =>
    have hsplit : (∀ before h after, calls ++ [c] = before ++ .unmap h :: after → h.val < mapsIn before) ↔
        (∀ before h after, calls = before ++ .unmap h :: after → h.val < mapsIn before) ∧
          ∀ h, c = .unmap h → h.val < mapsIn calls := by
      constructor
      · intro hall
        constructor
        · intro before h after heq
          exact hall before h (after ++ [c]) (concat_eq_append_cons_iff.mpr (.inr ⟨after, rfl, heq⟩))
        · intro h heq
          exact hall calls h [] (concat_eq_append_cons_iff.mpr (.inl ⟨rfl, heq.symm, rfl⟩))
      · rintro ⟨hold, hnew⟩ before h after heq
        rcases concat_eq_append_cons_iff.mp heq with ⟨rfl, hc, -⟩ | ⟨rest, -, hcalls⟩
        · exact hnew h hc.symm
        · exact hold before h rest hcalls
    rw [areaRun_concat, hsplit, ← ih]
    cases hrun : (AreaRun.init a).run calls with
    | none => simp
    | some r =>
      rw [Option.bind_some, (areaBooks_run hfresh hrun).call_isSome c]
      simp

theorem AreaRun.Books.right_iff (hbooks : r.Books calls) : r.Right ↔ AreasHold calls := by
  have hcount := hbooks.mmioCount
  constructor
  · intro hright hsome
    by_contra hmany
    have hfull : r.afu.lib.mmioCount = r.afu.lib.mmioMax := by
      rw [hbooks.mmioMax]
      omega
    obtain ⟨i, -, hnot⟩ := hbooks.gone hsome
    have hcard : r.live.card < r.afu.lib.mmioMax := by
      rw [hbooks.mmioMax]
      exact (Finset.card_lt_univ_of_notMem hnot).trans_eq (Fintype.card_fin 2)
    obtain ⟨h, b, hmap⟩ := hright.maps hcard false 0
    rw [ocxlMmioMap_full hbooks.ready hfull] at hmap
    cases hmap
  · intro hhold
    constructor
    · intro hcard global n
      have hroom : r.afu.lib.mmioCount < 2 := by
        by_contra hno
        have hnone : ¬∃ h, .unmap h ∈ calls := by
          intro hsome
          have hone := hhold hsome
          omega
        have hall : r.live = Finset.univ := by
          ext i
          have hi := hbooks.allLive hnone i (by omega)
          exact iff_of_true hi (Finset.mem_univ i)
        rw [hall, hbooks.mmioMax, Finset.card_univ, Fintype.card_fin] at hcard
        exact Nat.lt_irrefl _ hcard
      obtain ⟨b, hmap, -⟩ := ocxlMmioMap_room hbooks.ready hroom hbooks.mmioMax global n
      exact ⟨_, b, hmap⟩
    · intro h offset dw haligned
      rw [accepts_iff h offset haligned, hbooks.entries]
      constructor
      · rintro ⟨hlt, hflag⟩
        exact (hbooks.flags hhold h hlt).mp hflag
      · intro hlive
        have hlt := hbooks.known h hlive
        exact ⟨hlt, (hbooks.flags hhold h hlt).mpr hlive⟩

end Books

/-- The areas are as they were handed out just in the runs that do not have both an unmap and a second map. -/
theorem areas_right_iff {a : AreaAfu} (hfresh : a.Fresh) {calls : List AreaCall} {r : AreaRun}
    (hrun : (AreaRun.init a).run calls = some r) : r.Right ↔ AreasHold calls :=
  (areaBooks_run hfresh hrun).right_iff

def sampleAreaAfu : AreaAfu where
  lib := { sampleLibAfu false with mapped := false, globalMapped := false }
  globalMmio := ⟨0, 0x10000, true, false⟩
  perPasidMmio := ⟨0x10000, 0x1000, false, false⟩
  mmios := fun _ => ⟨0, 0, false, false⟩

theorem sampleAreaAfu_fresh : sampleAreaAfu.Fresh := ⟨rfl, rfl, rfl, fun _ => rfl, rfl, rfl, rfl, rfl, fun _ => rfl⟩

theorem areas_right_iff_returned : ∃ r, (AreaRun.init sampleAreaAfu).run [.map true 1, .unmap 0] = some r ∧
    (r.Right ↔ AreasHold [.map true 1, .unmap 0]) :=
  ⟨_, rfl, areas_right_iff sampleAreaAfu_fresh rfl⟩

/-- An area is mapped, given back and mapped again: one of two is mapped, the third map is refused, and the handle
that was given back may be used. Of two areas of one type, one is given back: the other may not be used. -/
theorem unmappedAreas_wrong :
    (∃ r, (AreaRun.init sampleAreaAfu).run [.map false 0, .unmap 0, .map false 0] = some r ∧ ¬r.Right ∧
      r.live.card < r.afu.lib.mmioMax ∧ (r.afu.ocxlMmioMap true (mapTurns 0)).map Prod.fst = some .noMem ∧
      0 ∉ r.live ∧ r.afu.accepts 0 0 0x7 = true) ∧
    ∃ r, (AreaRun.init sampleAreaAfu).run [.map false 0, .map false 0, .unmap 0] = some r ∧ ¬r.Right ∧
      1 ∈ r.live ∧ r.afu.accepts 1 0 0x7 = false := by
  have hmapped : ¬AreasHold [.map false 0, .unmap 0, .map false 0] := fun hhold => absurd (hhold ⟨0, by simp⟩) (by decide)
  have htwice : ¬AreasHold [.map false 0, .map false 0, .unmap 0] := fun hhold => absurd (hhold ⟨0, by simp⟩) (by decide)
  constructor
  · refine ⟨_, rfl, ?_, by decide, rfl, by decide, rfl⟩
    exact (areaBooks_run sampleAreaAfu_fresh rfl).right_iff.not.mpr hmapped
  · refine ⟨_, rfl, ?_, by decide, rfl⟩
    exact (areaBooks_run sampleAreaAfu_fresh rfl).right_iff.not.mpr htwice

end Ocse
