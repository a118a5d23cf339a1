import Ocse.CmdResponse
import Ocse.TlxGet

/-!
# The loop of one AFU

`_ocl_loop` clocks the AFU, receives its frame, calls the handlers and then looks at every client slot.
The loop is taken apart into the actions of `Action`, which a run may take in any order; `oclLoop` puts
them together as the source does, and is a run of actions. A client is associated by its own thread
between two turns of the loop, under the same lock.

The queue of MMIO requests is not part of this model. It shares the interface with the command engine
but not the response group or its credits, so its steps may set every other host signal at will.
-/

namespace Ocse

/-! ## Clients -/

/-- What a client's socket offers when its slot is looked at. -/
inductive ClientInput
  | quiet
  | lost
  | detach
  | attach (put : Bool)
  | memFailure
  | memSuccess (avail : List UInt8)
  | mmio (lost : Bool)
  | unexpected

def attach (s : Ocl) (i : ℕ) (c : Client) (put : Bool) : Ocl :=
  { s with
    idleCycles := if s.attachedClients < s.maxClients then tlxIdleCycles else s.idleCycles
    attachedClients := s.attachedClients + 1
    state := .running }.setClient i (some (if put then c else c.drop tlxIdleCycles .none))

/-- `client_drop` has cleared `mem_access` when `_detach` comes to look at it. -/
def detach (s : Ocl) (i : ℕ) (c : Client) : Ocl :=
  { s with
    attachedClients := s.attachedClients - 1
    state := if s.attachedClients - 1 = 0 then .idle else s.state
    }.setClient i (some (c.drop tlxIdleCycles .none))

/-- The event a client has been asked about. -/
def Ocl.memAccess (s : Ocl) (c : Client) : Option CmdEvent :=
  c.memAccess.bind (fun id => s.list.find? (fun e => e.id = id))

def Ocl.clearMemAccess (s : Ocl) (i : ℕ) (c : Client) : Ocl :=
  s.setClient i (some { c with memAccess := none })

/-- `_handle_client`. An unexpected opcode ends the program. The idle cycles it gives a valid client are
left out: `settleClient` follows and runs them down. -/
def handleClient (s : Ocl) (i : ℕ) (input : ClientInput) : Ocl :=
  match s.client i with
  | none => s
  | some c =>
    if c.state = .none then s
    else match input with
      | .quiet => s
      | .lost => s.setClient i (some (c.drop tlxIdleCycles .none))
      | .detach => detach s i c
      | .attach put => attach s i c put
      | .memFailure =>
          match s.memAccess c with
          | none => s.clearMemAccess i c
          | some e => (handleAerror s e).clearMemAccess i c
      | .memSuccess avail =>
          match s.memAccess c with
          | none => s.clearMemAccess i c
          | some e => (handleMemReturn s e avail).clearMemAccess i c
      | .mmio lost => if lost then s.setClient i (some (c.drop tlxIdleCycles .none)) else s
      | .unexpected => { s with halted := true }

/-- What follows `_handle_client` in the loop: the idle cycles run down and `client_cmd` is called. -/
def settleClient (s : Ocl) (i : ℕ) : Ocl :=
  match s.client i with
  | none => s
  | some c =>
    let (busy, s) := clientCmd s c
    s.setClient i (some { c with idleCycles := if busy then tlxIdleCycles else 0 })

/-- A departed client whose idle cycles have run down gives up its slot. -/
def clearSlot (s : Ocl) (i : ℕ) : Ocl :=
  match s.client i with
  | none => s
  | some c => if c.state = .none ∧ c.idleCycles = 0 then s.setClient i none else s

/-- `_client_associate`: the first empty slot becomes the client's context and pasid. -/
def clientAssociate (s : Ocl) (bdf : UInt16) : Ocl :=
  match (List.range s.maxClients).find? (fun i => (s.client i).isNone) with
  | none => s
  | some i =>
    { s with
      nextId := s.nextId + 1
      trace := s.trace ++ [Obs.connected s.nextId bdf (UInt32.ofNat i)] }.setClient i (some
        { id := s.nextId, context := i, state := .valid, idleCycles := 0, pasid := UInt32.ofNat i
          bdf, actag := 0, memAccess := none })

/-! ## Actions -/

/-- The signals that the MMIO queue drives or consumes. -/
structure MmioSignals where
  tlxCfg : TlxCfgCmd
  tlxCmd : TlxAfuCmd
  tlxCmdData : TlxAfuCmdData
  tlxCredits : TlxAfuCredits
  afuResp : AfuTlxResp
  afuRdata : AfuTlxRdata
  cfgResp : CfgTlxResp
  afuTlxCmdCreditsAvailable : UInt8
  cfgTlxCreditsAvailable : UInt8

def MmioSignals.drive (m : MmioSignals) (a : AfuEvent) : AfuEvent :=
  { a with
    tlxCfg := m.tlxCfg, tlxCmd := m.tlxCmd, tlxCmdData := m.tlxCmdData, tlxCredits := m.tlxCredits
    afuResp := m.afuResp, afuRdata := m.afuRdata, cfgResp := m.cfgResp
    afuTlxCmdCreditsAvailable := m.afuTlxCmdCreditsAvailable
    cfgTlxCreditsAvailable := m.cfgTlxCreditsAvailable }

inductive Action
  | idle (cycles : ℕ)
  | signalAfu
  | getAfuEvents (socket : Socket)
  | mmio (signals : MmioSignals)
  | response (rand : ℕ)
  | bufferWrite (d : Draws)
  | pendingSent (d : Draws)
  | cmd (d : Draws)
  | cmdDataRead
  | writeCmd (d : Draws)
  | touch (d : Draws)
  | interrupt (d : Draws)
  | writeBeOrAmo (d : Draws)
  | client (i : ℕ) (input : ClientInput)
  | settle (i : ℕ)
  | clear (i : ℕ)
  | associate (bdf : UInt16)

def signalAfu (s : Ocl) : Ocl := { s with afuEvent := (tlxSignalAfuModel s.afuEvent).2.1 }

/-- A lost connection ends the loop. -/
def getAfuEvents (s : Ocl) (socket : Socket) : Ocl :=
  { s with
    afuEvent := (tlxGetAfuEvents s.afuEvent socket).2.1
    halted := decide ((tlxGetAfuEvents s.afuEvent socket).1 < 0) }

def Ocl.act (s : Ocl) : Action → Ocl
  | .idle cycles => { s with idleCycles := cycles }
  | .signalAfu => signalAfu s
  | .getAfuEvents socket => getAfuEvents s socket
  | .mmio signals => { s with afuEvent := signals.drive s.afuEvent }
  | .response rand => handleResponse s rand
  | .bufferWrite d => handleBufferWrite s d
  | .pendingSent d => handleXlateIntrpPendingSent s d
  | .cmd d => handleCmd s d
  | .cmdDataRead => handleAfuTlxCmdDataRead s
  | .writeCmd d => handleAfuTlxWriteCmd s d
  | .touch d => handleTouch s d
  | .interrupt d => handleInterrupt s d
  | .writeBeOrAmo d => handleWriteBeOrAmo s d
  | .client i input => handleClient s i input
  | .settle i => settleClient s i
  | .clear i => clearSlot s i
  | .associate bdf => clientAssociate s bdf

/-- One action; a program that has exited takes none. -/
def Ocl.step (s : Ocl) (a : Action) : Ocl := if s.halted then s else s.act a

def Ocl.run (s : Ocl) (as : List Action) : Ocl := as.foldl Ocl.step s

/-- The engine as `ocl_init` leaves it, with no client and an empty list. -/
def Ocl.init (parms : Parms) (maxClients : ℕ) (afuEvent : AfuEvent) : Ocl where
  afuEvent := afuEvent
  list := []
  client := fun _ => none
  maxClients := maxClients
  parms := parms
  state := .idle
  attachedClients := 0
  idleCycles := tlxIdleCycles
  nextId := 0
  halted := false
  trace := []

/-- No client has been dropped or detached. -/
def Ocl.AllValid (s : Ocl) : Prop := ∀ i < s.maxClients, ∀ c ∈ s.client i, c.state = .valid

instance (s : Ocl) : Decidable s.AllValid :=
  inferInstanceAs (Decidable (∀ i < s.maxClients, ∀ c ∈ s.client i, c.state = .valid))

/-! ## A turn of the loop -/

/-- What one turn meets: the AFU's socket, the MMIO traffic around the handlers, the draws of each
handler, and what each client's socket offers. -/
structure Turn where
  socket : Socket
  mmioBefore : List MmioSignals
  mmioAfter : List MmioSignals
  mmioEmpty : Bool
  rand : ℕ
  bufferWrite : Draws
  pendingSent : Draws
  cmd : Draws
  writeCmd : Draws
  touch : Draws
  interrupt : Draws
  writeBeOrAmo : Draws
  input : ℕ → ClientInput

/-- `_handle_afu` -/
def Turn.handleAfu (t : Turn) : List Action :=
  t.mmioBefore.map .mmio ++
    [.response t.rand, .bufferWrite t.bufferWrite, .pendingSent t.pendingSent, .cmd t.cmd, .cmdDataRead,
      .writeCmd t.writeCmd, .touch t.touch, .interrupt t.interrupt, .writeBeOrAmo t.writeBeOrAmo]

/-- The clients' part of a turn. A slot that is cleared is skipped by the two actions behind. -/
def Turn.clients (t : Turn) (maxClients : ℕ) : List Action :=
  (List.range maxClients).flatMap (fun i => [.clear i, .client i (t.input i), .settle i])

def oclLoop (s : Ocl) (t : Turn) : Ocl :=
  let s :=
    if s.state ≠ .idle ∧ (0 < s.attachedClients ∨ s.state = .reset ∨ s.state = .desc) then
      s.step (.idle tlxIdleCycles)
    else s
  let s :=
    if s.idleCycles ≠ 0 then
      let s := s.step .signalAfu
      let events := (tlxGetAfuEvents s.afuEvent t.socket).1
      let s := s.step (.getAfuEvents t.socket)
      let s := if 0 < events then s.run t.handleAfu else s
      let s := s.run (t.mmioAfter.map .mmio)
      if t.mmioEmpty then s.step (.idle (s.idleCycles - 1)) else s
    else s
  s.run (t.clients s.maxClients)

theorem Ocl.run_append (s : Ocl) (as bs : List Action) : s.run (as ++ bs) = (s.run as).run bs :=
  List.foldl_append

/-- Every turn is a run of actions. -/
theorem oclLoop_eq_run (s : Ocl) (t : Turn) : ∃ as, oclLoop s t = s.run as := by
  have hstep : ∀ (s s' : Ocl) (a : Action), (∃ as, s' = s.run as) → ∃ as, s'.step a = s.run as := by
    rintro s s' a ⟨as, rfl⟩
    exact ⟨as ++ [a], (s.run_append as [a]).symm⟩
  have hrun : ∀ (s s' : Ocl) (bs : List Action), (∃ as, s' = s.run as) → ∃ as, s'.run bs = s.run as := by
    rintro s s' bs ⟨as, rfl⟩
    exact ⟨as ++ bs, (s.run_append as bs).symm⟩
  have hite : ∀ (s s₁ s₂ : Ocl) (p : Prop) [Decidable p], (∃ as, s₁ = s.run as) →
      (∃ as, s₂ = s.run as) → ∃ as, (if p then s₁ else s₂) = s.run as := by
    intro s s₁ s₂ p _ h₁ h₂
    split
    · exact h₁
    · exact h₂
  have hnil : ∃ as, s = s.run as := ⟨[], rfl⟩
  have hidle := hite s _ _ (s.state ≠ .idle ∧ (0 < s.attachedClients ∨ s.state = .reset ∨
    s.state = .desc)) (hstep s s (.idle tlxIdleCycles) hnil) hnil
  unfold oclLoop
  apply hrun
  apply hite _ _ _ _ ?_ hidle
  apply hite
  · exact hstep _ _ _ (hrun _ _ _ (hite _ _ _ _ (hrun _ _ _ (hstep _ _ _ (hstep _ _ _ hidle)))
      (hstep _ _ _ (hstep _ _ _ hidle))))
  · exact hrun _ _ _ (hite _ _ _ _ (hrun _ _ _ (hstep _ _ _ (hstep _ _ _ hidle)))
      (hstep _ _ _ (hstep _ _ _ hidle)))

/-! ## Runs to look at -/

/-- A turn with a client attached, as the list of its actions. -/
def Turn.actions (t : Turn) (maxClients : ℕ) : List Action :=
  [.idle tlxIdleCycles, .signalAfu, .getAfuEvents t.socket] ++ t.handleAfu ++ t.clients maxClients

/-- Nothing is injected, nothing is reordered. -/
def Parms.quiet (hostClSize : ℕ) (h : hostClSize = 64 ∨ hostClSize = 128 ∨ hostClSize = 256) : Parms where
  hostClSize := hostClSize
  hostClSize_supported := h
  retryPercent := 0
  failedPercent := 0
  derrorPercent := 0
  pendingPercent := 0
  intRetryPercent := 0
  intFailedPercent := 0
  intDerrorPercent := 0
  intPendingPercent := 0
  bdiRespErrPercent := 0
  reorderPercent := 0

def Draws.quiet : Draws := ⟨0, 0, 0, 0, fun _ => 0, true⟩

/-- The AFU sends its clock and no client says anything. -/
def Turn.quiet : Turn where
  socket := Socket.whole [0x10]
  mmioBefore := []
  mmioAfter := []
  mmioEmpty := true
  rand := 0
  bufferWrite := .quiet
  pendingSent := .quiet
  cmd := .quiet
  writeCmd := .quiet
  touch := .quiet
  interrupt := .quiet
  writeBeOrAmo := .quiet
  input := fun _ => .quiet

/-- The frame in which the AFU's end of the socket signals a command. -/
def AfuTlxCmd.frame (cmd : AfuTlxCmd) : Socket :=
  Socket.whole (tlxSignalTlxModel
    { tlxEventReset with clock := 1, afuCmd := { cmd with valid := 1 } }).2.2

/-- A read of one 64-byte line at address 0 under acTag 0. -/
def sampleRead : AfuTlxCmd := { tlxEventReset.afuCmd with opcode := afuCmdRdWnitc, afutag := 5, dl := 1 }

/-- The interface as initialisation leaves it, with response credits granted. -/
def sampleAfu : AfuEvent := { tlxEventReset with afuTlxRespCreditsAvailable := 7 }

end Ocse
