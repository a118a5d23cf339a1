import Ocse.AckFraming
import Ocse.Amo
import Ocse.Lib.Run
import Ocse.Opening
import Ocse.SharedInterface

/-!
# The TLX thread

`_ocl_loop` runs the command engine and the MMIO engine of an `ocl` on one `AFU_EVENT`. A turn clocks the AFU and
handles what it has sent, sends the next MMIO, and looks at every client slot. A client's opcode goes to the one
engine or to the other. Between two turns a client may be associated by its own thread, under the same lock.
-/

namespace Ocse

def ocseAttach : UInt8 := 0x05

/-! ## Two engines -/

/-- An `ocl` with its `mmio`; both hold the pointer to the one interface. -/
structure TlxThread where
  ocl : Ocl
  mmio : Mmio
  shared : mmio.afuEvent = ocl.afuEvent

namespace TlxThread

/-- The program has exited or the thread has left its loop. -/
def halted (t : TlxThread) : Bool := t.ocl.halted || t.mmio.halted

def engine (t : TlxThread) (a : Action) : TlxThread :=
  ⟨t.ocl.act a, { t.mmio with afuEvent := (t.ocl.act a).afuEvent }, rfl⟩

def access (t : TlxThread) (b : MmioAction) : TlxThread :=
  ⟨{ t.ocl with afuEvent := (t.mmio.act b).afuEvent }, t.mmio.act b, rfl⟩

end TlxThread

/-- An operation of either engine. -/
abbrev ThreadAction := Action ⊕ MmioAction

namespace TlxThread

def step : TlxThread → ThreadAction → TlxThread := guarded halted (either engine access)

def run (t : TlxThread) (w : List ThreadAction) : TlxThread := w.foldl step t

end TlxThread

/-! ## A client's slot -/

/-- What a client's socket offers: nothing, its end, or an opcode with what can be read behind it. `put` tells
whether the reply can be put. -/
inductive ThreadInput
  | quiet
  | lost
  | bytes (type : UInt8) (stream : List UInt8) (put : Bool)

/-- The opcodes of `handle_mmio` and `handle_mem`. -/
def accessTypes : List UInt8 :=
  [ocseGlobalMmioWrite64, ocseMmioWrite64, ocseGlobalMmioWrite32, ocseMmioWrite32, ocseGlobalMmioRead64,
    ocseMmioRead64, ocseGlobalMmioRead32, ocseMmioRead32, ocseLpcWrite, ocseLpcWriteBe, ocseLpcRead]

/-- The `switch` of `_handle_client`. A request that is cut off drops the client, and only a valid client may ask
for an access. -/
def ThreadInput.actions (cfg : MmioCfg) (i : ℕ) (c : Client) : ThreadInput → List ThreadAction
  | .quiet => []
  | .lost => [.inl (.client i .lost)]
  | .bytes type stream put =>
    if type = ocseDetach then [.inr (.depart i), .inl (.client i .detach)]
    else if type = ocseAttach then [.inl (.client i (.attach put))]
    else if type = ocseMemFailure then [.inl (.client i .memFailure)]
    else if type = ocseMemSuccess then [.inl (.client i (.memSuccess stream))]
    else if type = ocseMmioMap ∨ type = ocseGlobalMmioMap then [.inl (.client i (.mmio (!put)))]
    else if type ∈ accessTypes then
      if c.state ≠ .valid then [.inl (.client i (.mmio (!put)))]
      else match handleClientMmio i { cfg with context := c.context } (type :: stream) with
        | none => [.inl (.client i (.mmio true))]
        | some (b, _) => [.inr b]
    else [.inl (.client i .unexpected)]

/-- What one turn meets: the AFU's socket, the draws of each handler, what each client's socket offers, and whether
an acknowledgement can be put to it. -/
structure ThreadTurn where
  socket : Socket
  rand : ℕ
  bufferWrite : Draws
  pendingSent : Draws
  cmd : Draws
  writeCmd : Draws
  touch : Draws
  interrupt : Draws
  writeBeOrAmo : Draws
  input : ℕ → ThreadInput
  ackPut : ℕ → Bool

namespace TlxThread

/-- `handle_mmio_done` as `_handle_client` calls it: a client whose acknowledgement cannot be put is dropped. -/
def tellClient (t : TlxThread) (i : ℕ) (put : Bool) : TlxThread :=
  if ((MmioAction.poll i).tells t.mmio).isSome && !put then t.run [.inr (.poll i), .inl (.client i .lost)]
  else t.step (.inr (.poll i))

/-- `_handle_client` -/
def handleClient (cfg : MmioCfg) (u : ThreadTurn) (t : TlxThread) (i : ℕ) : TlxThread :=
  let t := t.tellClient i (u.ackPut i)
  match t.ocl.client i with
  | none => t
  | some c => if c.state = .none then t else t.run ((u.input i).actions cfg i c)

/-- A slot in the loop. Who has given up its slot is no longer waited for. -/
def lookAt (cfg : MmioCfg) (u : ThreadTurn) (t : TlxThread) (i : ℕ) : TlxThread :=
  match t.ocl.client i with
  | none => t
  | some c =>
    if c.state = .none ∧ c.idleCycles = 0 then t.run [.inr (.depart i), .inl (.clear i)]
    else if t.ocl.state = .reset then t
    else (t.handleClient cfg u i).step (.inl (.settle i))

end TlxThread

/-! ## A turn -/

/-- `_handle_afu` -/
def ThreadTurn.handleAfu (u : ThreadTurn) : List ThreadAction :=
  .inr .handleAfu ::
    [Action.response u.rand, .bufferWrite u.bufferWrite, .pendingSent u.pendingSent, .cmd u.cmd, .cmdDataRead,
      .writeCmd u.writeCmd, .touch u.touch, .interrupt u.interrupt, .writeBeOrAmo u.writeBeOrAmo].map Sum.inl

namespace TlxThread

/-- Attached clients keep the clock running. -/
def refresh (t : TlxThread) : TlxThread :=
  if t.ocl.state ≠ .idle ∧ (0 < t.ocl.attachedClients ∨ t.ocl.state = .reset ∨ t.ocl.state = .desc) then
    t.step (.inl (.idle tlxIdleCycles))
  else t

/-- A clock of the AFU and the frame that may come back. -/
def framed (u : ThreadTurn) (t : TlxThread) : TlxThread :=
  (t.step (.inl .signalAfu)).step (.inl (.getAfuEvents u.socket))

/-- The events of the frame are handled. -/
def handled (u : ThreadTurn) (t : TlxThread) : TlxThread :=
  if 0 < (tlxGetAfuEvents (t.step (.inl .signalAfu)).ocl.afuEvent u.socket).1 then (t.framed u).run u.handleAfu
  else t.framed u

/-- The AFU is clocked and the next MMIO is sent. An MMIO that waits holds the idle cycles. -/
def clock (u : ThreadTurn) (t : TlxThread) : TlxThread :=
  let t := (t.handled u).step (.inr .send)
  if t.mmio.list = [] then t.step (.inl (.idle (t.ocl.idleCycles - 1))) else t

/-- The body of `_ocl_loop`. -/
def turn (cfg : MmioCfg) (t : TlxThread) (u : ThreadTurn) : TlxThread :=
  let t := t.refresh
  let t := if t.ocl.idleCycles ≠ 0 then t.clock u else t
  (List.range t.ocl.maxClients).foldl (lookAt cfg u) t

/-- The thread when `ocl_init` has started it. -/
def init (parms : Parms) (maxClients : ℕ) (afuEvent : AfuEvent) : TlxThread :=
  ⟨Ocl.init parms maxClients afuEvent, mmioInit afuEvent, rfl⟩

end TlxThread

/-- Who holds the lock. -/
inductive ThreadStep
  | turn (u : ThreadTurn)
  | associate (bdf : UInt16)

namespace TlxThread

def advance (cfg : MmioCfg) (t : TlxThread) : ThreadStep → TlxThread
  | .turn u => t.turn cfg u
  | .associate bdf => t.step (.inl (.associate bdf))

def advanceAll (cfg : MmioCfg) (t : TlxThread) (steps : List ThreadStep) : TlxThread := steps.foldl (advance cfg) t

end TlxThread

/-! ## What the loop asks of the engines -/

/-- The operations of the loop: no interface comes from anywhere else, nobody is waited for in a slot that is
given up, and an access is a valid client's. -/
def ThreadAction.Allowed (t : TlxThread) : ThreadAction → Prop
  | .inl (.mmio _) | .inr (.frame _) | .inr (.cfg ..) => False
  | .inl (.clear i) => t.mmio.access i = none
  | .inr (.mmio i ..) => ∃ c, t.ocl.client i = some c ∧ c.state = .valid
  | .inr (.mem i _ size ..) => (∃ c, t.ocl.client i = some c ∧ c.state = .valid) ∧ size < 2 ^ 32
  | _ => True

/-- What a decoder makes of a message is an access of the client, of a size of four bytes. -/
def AsksFor (i id : ℕ) (o : Option (MmioAction × List UInt8)) : Prop :=
  ∀ x, o = some x → ∃ r, x.1.asks id = some r ∧ r.client = i ∧ r.size < 2 ^ 32

section Asks

variable {i id : ℕ}

theorem AsksFor.none : AsksFor i id none := by
  intro x h
  cases h

theorem AsksFor.some {b : MmioAction} {rest : List UInt8} {r : ClientAccess} (hb : b.asks id = some r)
    (hr : r.client = i) (hsize : r.size < 2 ^ 32) : AsksFor i id (some (b, rest)) := by
  intro x h
  cases h
  exact ⟨r, hb, hr, hsize⟩

theorem AsksFor.ite {p : Prop} [Decidable p] {o o' : Option (MmioAction × List UInt8)} (h : AsksFor i id o)
    (h' : AsksFor i id o') : AsksFor i id (if p then o else o') := by
  split
  · exact h
  · exact h'

theorem handleMmio_asks (cfg : MmioCfg) (rnw dw global : Bool) (stream : List UInt8) :
    AsksFor i id (handleMmio i cfg rnw dw global stream) := by
  have hsize : 0 < 2 ^ 32 := by decide
  unfold handleMmio
  split
  · exact .none
  · apply AsksFor.ite
    · exact .some rfl rfl hsize
    apply AsksFor.ite
    · split
      · exact .none
      · exact .some rfl rfl hsize
    · split
      · exact .none
      · exact .some rfl rfl hsize

theorem mmioHandleMemRead_asks (stream : List UInt8) : AsksFor i id (mmioHandleMemRead i stream) := by
  unfold mmioHandleMemRead
  split
  · exact .none
  · split
    · exact .none
    · rename_i hsize
      exact .some rfl rfl (getBE_lt hsize)

theorem mmioHandleMemWrite_asks (beValid : Bool) (stream : List UInt8) :
    AsksFor i id (mmioHandleMemWrite i beValid stream) := by
  unfold mmioHandleMemWrite
  split
  · exact .none
  · cases beValid with
    | true =>
      have hline : 64 < 2 ^ 32 := by decide
      split
      · exact .none
      · dsimp only
        split
        · exact .none
        · exact .some rfl rfl hline
    | false =>
      split
      · exact .none
      · rename_i hsize
        dsimp only
        split
        · exact .none
        · exact .some rfl rfl (getBE_lt hsize)

/-- The access that a message asks for is its client's. -/
theorem handleClientMmio_asks (cfg : MmioCfg) (stream : List UInt8) : AsksFor i id (handleClientMmio i cfg stream) := by
  cases stream with
  | nil => exact .none
  | cons type stream =>
    have hmmio : ∀ rnw dw global, AsksFor i id (handleMmio i cfg rnw dw global stream) :=
      fun rnw dw global => handleMmio_asks cfg rnw dw global stream
    exact .ite (hmmio _ _ _) (.ite (hmmio _ _ _) (.ite (hmmio _ _ _) (.ite (hmmio _ _ _) (.ite (hmmio _ _ _)
      (.ite (hmmio _ _ _) (.ite (hmmio _ _ _) (.ite (hmmio _ _ _) (.ite (mmioHandleMemWrite_asks _ stream)
        (.ite (mmioHandleMemWrite_asks _ stream) (.ite (mmioHandleMemRead_asks stream) .none))))))))))

end Asks

namespace TlxThread

def Takes (t : TlxThread) (c : ThreadAction) : Prop := t.halted = false ∧ c.Allowed t

/-- A run of operations that the loop may take. -/
def Runs (t t' : TlxThread) : Prop := ∃ w, Along step Takes t w ∧ t' = t.run w

theorem Runs.refl (t : TlxThread) : t.Runs t := ⟨[], trivial, rfl⟩

theorem Runs.trans {t t' t'' : TlxThread} (h : t.Runs t') (h' : t'.Runs t'') : t.Runs t'' := by
  obtain ⟨w, hw, rfl⟩ := h
  obtain ⟨w', hw', rfl⟩ := h'
  exact ⟨w ++ w', along_append.mpr ⟨hw, hw'⟩, List.foldl_append.symm⟩

/-- A thread that has stopped takes nothing. -/
theorem step_halted {t : TlxThread} (hstopped : t.halted = true) (c : ThreadAction) : t.step c = t :=
  guarded_stopped hstopped _ c

theorem step_running {t : TlxThread} (hrunning : t.halted = false) (c : ThreadAction) :
    t.step c = either engine access t c :=
  guarded_running hrunning _ c

theorem Runs.step_of {t : TlxThread} (c : ThreadAction) (hc : t.halted = false → c.Allowed t) : t.Runs (t.step c) := by
  cases hstopped : t.halted with
  | true =>
    rw [step_halted hstopped]
    exact .refl t
  | false => exact ⟨[c], ⟨⟨hstopped, hc hstopped⟩, trivial⟩, rfl⟩

theorem Runs.step {t : TlxThread} (c : ThreadAction) (hc : c.Allowed t) : t.Runs (t.step c) := .step_of c (fun _ => hc)

theorem Runs.ite {t t₁ t₂ : TlxThread} {p : Prop} [Decidable p] (h₁ : p → t.Runs t₁) (h₂ : ¬p → t.Runs t₂) :
    t.Runs (if p then t₁ else t₂) := by
  split_ifs with hp
  · exact h₁ hp
  · exact h₂ hp

/-- Operations that may be taken at any time. -/
theorem Runs.always {w : List ThreadAction} (hw : ∀ c ∈ w, ∀ t, ThreadAction.Allowed t c) (t : TlxThread) :
    t.Runs (t.run w) := by
  induction w generalizing t with
  | nil => exact .refl t
  | cons c w ih =>
    exact (Runs.step c (hw c List.mem_cons_self t)).trans
      (ih (fun d hd => hw d (List.mem_cons_of_mem c hd)) (guarded halted (either engine access) t c))

theorem Runs.foldl {α : Type*} {f : TlxThread → α → TlxThread} (hf : ∀ (t : TlxThread) x, t.Runs (f t x))
    (xs : List α) (t : TlxThread) : t.Runs (xs.foldl f t) := by
  induction xs generalizing t with
  | nil => exact .refl t
  | cons x xs ih => exact (hf t x).trans (ih (f t x))

/-- A slot is given up when nobody waits in it. -/
theorem runs_leave (t : TlxThread) (i : ℕ) : t.Runs (t.run [.inr (.depart i), .inl (.clear i)]) := by
  cases hstopped : t.halted with
  | true =>
    change t.Runs ((t.step (.inr (.depart i))).step (.inl (.clear i)))
    rw [step_halted hstopped, step_halted hstopped]
    exact .refl t
  | false =>
    have hnone : (t.step (.inr (.depart i))).mmio.access i = none := by
      rw [step_running hstopped]
      exact if_pos rfl
    exact (Runs.step (.inr (.depart i)) trivial).trans (.step (.inl (.clear i)) hnone)

theorem runs_tellClient (t : TlxThread) (i : ℕ) (put : Bool) : t.Runs (t.tellClient i put) := by
  apply Runs.ite
  · intro _
    apply Runs.always
    intro c hc t'
    rcases List.mem_cons.mp hc with rfl | hc
    · trivial
    · obtain rfl := List.mem_singleton.mp hc
      trivial
  · intro _
    exact .step _ trivial

/-- An access may be asked for by the valid client whose message it is. -/
theorem runs_ask {t : TlxThread} {i : ℕ} {c : Client} (hc : t.ocl.client i = some c) (hvalid : c.state = .valid)
    {b : MmioAction} {r : ClientAccess} (hb : b.asks 0 = some r) (hr : r.client = i) (hsize : r.size < 2 ^ 32) :
    t.Runs (t.step (.inr b)) := by
  have hslot : ∃ c, t.ocl.client r.client = some c ∧ c.state = .valid := ⟨c, hr ▸ hc, hvalid⟩
  apply Runs.step (.inr b)
  cases b with
  | mmio j =>
    cases hb
    exact hslot
  | mem j =>
    cases hb
    exact ⟨hslot, hsize⟩
  | _ => cases hb

theorem runs_actions (cfg : MmioCfg) (input : ThreadInput) {t : TlxThread} {i : ℕ} {c : Client}
    (hc : t.ocl.client i = some c) : t.Runs (t.run (input.actions cfg i c)) := by
  have hchoose : ∀ {p : Prop} [Decidable p] {w w' : List ThreadAction}, t.Runs (t.run w) → (¬p → t.Runs (t.run w')) →
      t.Runs (t.run (if p then w else w')) := by
    intro p _ w w' h h'
    split
    · exact h
    · exact h' ‹_›
  have hsingle : ∀ input, t.Runs (t.run [.inl (.client i input)]) := fun input => .step (.inl (.client i input)) trivial
  cases input with
  | quiet => exact .refl t
  | lost => exact hsingle .lost
  | bytes type stream put =>
    have hdetach : t.Runs (t.run [.inr (.depart i), .inl (.client i .detach)]) :=
      (Runs.step (.inr (.depart i)) trivial).trans (.step (.inl (.client i .detach)) trivial)
    apply hchoose hdetach
    intro _
    apply hchoose (hsingle _)
    intro _
    apply hchoose (hsingle _)
    intro _
    apply hchoose (hsingle _)
    intro _
    apply hchoose (hsingle _)
    intro _
    apply hchoose ?_ (fun _ => hsingle _)
    apply hchoose (hsingle _)
    intro hvalid
    cases hb : handleClientMmio i { cfg with context := c.context } (type :: stream) with
    | none => exact hsingle _
    | some x =>
      obtain ⟨r, hr, hclient, hsize⟩ := handleClientMmio_asks _ _ x hb
      exact runs_ask hc (not_not.mp hvalid) hr hclient hsize

theorem runs_handleClient (cfg : MmioCfg) (u : ThreadTurn) (t : TlxThread) (i : ℕ) :
    t.Runs (t.handleClient cfg u i) := by
  have htold := runs_tellClient t i (u.ackPut i)
  unfold handleClient
  dsimp only
  cases hc : (t.tellClient i (u.ackPut i)).ocl.client i with
  | none => exact htold
  | some c => exact Runs.ite (fun _ => htold) (fun _ => htold.trans (runs_actions cfg (u.input i) hc))

theorem runs_lookAt (cfg : MmioCfg) (u : ThreadTurn) (t : TlxThread) (i : ℕ) : t.Runs (t.lookAt cfg u i) := by
  unfold lookAt
  cases t.ocl.client i with
  | none => exact .refl t
  | some c =>
    apply Runs.ite
    · intro _
      exact runs_leave t i
    · intro _
      exact Runs.ite (fun _ => .refl t) (fun _ => (runs_handleClient cfg u t i).trans (.step (.inl (.settle i)) trivial))

theorem runs_framed (u : ThreadTurn) (t : TlxThread) : t.Runs (t.framed u) :=
  (Runs.step (.inl .signalAfu) trivial).trans (.step (.inl (.getAfuEvents u.socket)) trivial)

theorem handleAfu_allowed (u : ThreadTurn) : ∀ c ∈ u.handleAfu, ∀ t, ThreadAction.Allowed t c := by
  intro c hc t
  rcases List.mem_cons.mp hc with rfl | hc
  · trivial
  · obtain ⟨a, ha, rfl⟩ := List.mem_map.mp hc
    simp only [List.mem_cons, List.not_mem_nil, or_false] at ha
    rcases ha with rfl | rfl | rfl | rfl | rfl | rfl | rfl | rfl | rfl <;> trivial

theorem runs_handled (u : ThreadTurn) (t : TlxThread) : t.Runs (t.handled u) :=
  Runs.ite (fun _ => (runs_framed u t).trans (.always (handleAfu_allowed u) _)) (fun _ => runs_framed u t)

theorem runs_slots (cfg : MmioCfg) (u : ThreadTurn) (t : TlxThread) (slots : List ℕ) :
    t.Runs (slots.foldl (lookAt cfg u) t) :=
  Runs.foldl (fun t i => runs_lookAt cfg u t i) slots t

theorem runs_refresh (t : TlxThread) : t.Runs t.refresh :=
  Runs.ite (fun _ => .step (.inl (.idle tlxIdleCycles)) trivial) (fun _ => .refl t)

theorem runs_counted (t : TlxThread) :
    t.Runs (if t.mmio.list = [] then t.step (.inl (.idle (t.ocl.idleCycles - 1))) else t) :=
  Runs.ite (fun _ => .step (.inl (.idle _)) trivial) (fun _ => .refl t)

theorem runs_clock (u : ThreadTurn) (t : TlxThread) : t.Runs (t.clock u) :=
  ((runs_handled u t).trans (.step (.inr .send) trivial)).trans (runs_counted _)

theorem runs_turn (cfg : MmioCfg) (t : TlxThread) (u : ThreadTurn) : t.Runs (t.turn cfg u) := by
  have hclocked : t.Runs (if t.refresh.ocl.idleCycles ≠ 0 then t.refresh.clock u else t.refresh) :=
    Runs.ite (fun _ => (runs_refresh t).trans (runs_clock u t.refresh)) (fun _ => runs_refresh t)
  exact hclocked.trans (runs_slots cfg u _ _)

theorem runs_advance (cfg : MmioCfg) (t : TlxThread) (x : ThreadStep) : t.Runs (t.advance cfg x) := by
  cases x with
  | turn u => exact runs_turn cfg t u
  | associate bdf => exact .step (.inl (.associate bdf)) trivial

/-- The loop is a run of operations that it may take. -/
theorem runs_advanceAll (cfg : MmioCfg) (t : TlxThread) (steps : List ThreadStep) :
    t.Runs (t.advanceAll cfg steps) :=
  Runs.foldl (runs_advance cfg) steps t

end TlxThread

/-! ## Each engine's view -/

/-- What is not the environment's. -/
def Action.own : Action → Bool
  | .mmio _ => false
  | _ => true

def MmioAction.own : MmioAction → Bool
  | .frame _ => false
  | _ => true

namespace TlxThread

/-- The command engine sees an operation of the MMIO queue as signals that are driven. -/
theorem access_ocl (t : TlxThread) {b : MmioAction} (hb : b.OfEngine) :
    (t.access b).ocl = t.ocl.act (.mmio (t.mmio.act b).afuEvent.mmioSignals) := by
  change { t.ocl with afuEvent := (t.mmio.act b).afuEvent } =
    { t.ocl with afuEvent := (t.mmio.act b).afuEvent.mmioSignals.drive t.ocl.afuEvent }
  rw [← t.shared, ← act_mmioSignals t.mmio hb]

theorem halted_eq_false {t : TlxThread} (h : t.halted = false) : t.ocl.halted = false ∧ t.mmio.halted = false :=
  Bool.or_eq_false_iff.mp h

/-- An operation of the command engine is a frame to the MMIO engine. -/
theorem Takes.engine {t : TlxThread} {a : Action} (h : Takes t (.inl a)) :
    a.own = true ∧ (t.step (.inl a)).ocl = t.ocl.step a ∧
      (t.step (.inl a)).mmio = t.mmio.step (.frame (t.ocl.act a).afuEvent) := by
  obtain ⟨hrunning, hallowed⟩ := h
  obtain ⟨hocl, hmmio⟩ := halted_eq_false hrunning
  have hown : a.own = true := by
    cases a with
    | mmio => exact hallowed.elim
    | _ => rfl
  have hengine : t.ocl.step a = t.ocl.act a := if_neg (by rw [hocl]; decide)
  have hframe : t.mmio.step (.frame (t.ocl.act a).afuEvent) = t.mmio.act (.frame (t.ocl.act a).afuEvent) :=
    if_neg (by rw [hmmio]; decide)
  rw [step_running hrunning, hengine, hframe]
  exact ⟨hown, rfl, rfl⟩

/-- An operation of the MMIO engine is signals that are driven to the command engine. -/
theorem Takes.access {t : TlxThread} {b : MmioAction} (h : Takes t (.inr b)) :
    b.own = true ∧ (t.step (.inr b)).mmio = t.mmio.step b ∧
      (t.step (.inr b)).ocl = t.ocl.step (.mmio (t.mmio.act b).afuEvent.mmioSignals) := by
  obtain ⟨hrunning, hallowed⟩ := h
  obtain ⟨hocl, hmmio⟩ := halted_eq_false hrunning
  have hown : b.own = true ∧ b.OfEngine := by
    cases b with
    | frame => exact hallowed.elim
    | _ => exact ⟨rfl, trivial⟩
  have hqueue : t.mmio.step b = t.mmio.act b := if_neg (by rw [hmmio]; decide)
  have hdriven : ∀ d, t.ocl.step (.mmio d) = t.ocl.act (.mmio d) := fun d => if_neg (by rw [hocl]; decide)
  rw [step_running hrunning, hqueue, hdriven]
  exact ⟨hown.1, rfl, access_ocl t hown.2⟩

/-- The operations that the loop takes are run by each engine, with those of the other as its environment. -/
theorem along_engines {t : TlxThread} {w : List ThreadAction} (hw : Along step Takes t w) :
    (∃ as, (t.run w).ocl = t.ocl.run as ∧ as.filter Action.own = w.filterMap Sum.getLeft?) ∧
      ∃ bs, (t.run w).mmio = t.mmio.run bs ∧ bs.filter MmioAction.own = w.filterMap Sum.getRight? := by
  induction w generalizing t with
  | nil => exact ⟨⟨[], rfl, rfl⟩, [], rfl, rfl⟩
  | cons c w ih =>
    obtain ⟨htakes, hrest⟩ := hw
    obtain ⟨⟨as, has, howns⟩, bs, hbs, hbowns⟩ := ih hrest
    have hrun : t.run (c :: w) = (t.step c).run w := rfl
    rw [hrun, has, hbs]
    cases c with
    | inl a =>
      obtain ⟨hown, hocl, hmmio⟩ := htakes.engine
      rw [hocl, hmmio]
      constructor
      · exists a :: as
        refine ⟨rfl, ?_⟩
        rw [List.filter_cons_of_pos hown, howns]
        rfl
      · exact ⟨.frame (t.ocl.act a).afuEvent :: bs, rfl, hbowns⟩
    | inr b =>
      obtain ⟨hown, hmmio, hocl⟩ := htakes.access
      rw [hocl, hmmio]
      constructor
      · exact ⟨.mmio (t.mmio.act b).afuEvent.mmioSignals :: as, rfl, howns⟩
      · exists b :: bs
        refine ⟨rfl, ?_⟩
        rw [List.filter_cons_of_pos hown, hbowns]
        rfl

/-- Whatever the turns of the loop meet and whoever is associated between them, each engine is run by its own
operations of the loop, in their order, on an interface that the other drives in between. -/
theorem loop_engines (cfg : MmioCfg) (parms : Parms) (maxClients : ℕ) (afuEvent : AfuEvent) (steps : List ThreadStep) :
    ∃ w, Along step Takes (init parms maxClients afuEvent) w ∧
      (init parms maxClients afuEvent).advanceAll cfg steps = (init parms maxClients afuEvent).run w ∧
      (∃ as, ((init parms maxClients afuEvent).advanceAll cfg steps).ocl = (Ocl.init parms maxClients afuEvent).run as ∧
        as.filter Action.own = w.filterMap Sum.getLeft?) ∧
      ∃ bs, ((init parms maxClients afuEvent).advanceAll cfg steps).mmio = (mmioInit afuEvent).run bs ∧
        bs.filter MmioAction.own = w.filterMap Sum.getRight? := by
  obtain ⟨w, hw, hrun⟩ := runs_advanceAll cfg (init parms maxClients afuEvent) steps
  obtain ⟨hengine, hqueue⟩ := along_engines hw
  rw [hrun]
  exact ⟨w, hw, rfl, hengine, hqueue⟩

end TlxThread

/-! ## The engines do not get in each other's way -/

/-- The interface of the MMIO engine after the command engine has worked on it. -/
theorem onto_of_engine {m : Mmio} {s : Ocl} (hshared : m.afuEvent = s.afuEvent) {a : Action} (ha : a.OfEngine) :
    { m with afuEvent := (s.act a).afuEvent } = m.onto (s.act a).afuEvent := by
  have hsignals : (s.act a).afuEvent.mmioSignals = m.afuEvent.mmioSignals := by
    rw [act_cmdSignals s ha, hshared]
    rfl
  unfold Mmio.onto
  rw [← hsignals]
  rfl

theorem onto_of_access {s : Ocl} {m : Mmio} (hshared : m.afuEvent = s.afuEvent) {b : MmioAction} (hb : b.OfEngine) :
    { s with afuEvent := (m.act b).afuEvent } = s.onto (m.act b).afuEvent := by
  have hsignals : (m.act b).afuEvent.cmdSignals = s.afuEvent.cmdSignals := by
    rw [act_mmioSignals m hb, ← hshared]
    rfl
  unfold Ocl.onto
  rw [← hsignals]
  rfl

namespace TlxThread

theorem ext {t t' : TlxThread} (hocl : t.ocl = t'.ocl) (hmmio : t.mmio = t'.mmio) : t = t' := by
  cases t
  cases t'
  cases hocl
  cases hmmio
  rfl

section Between

variable (t : TlxThread) {a : Action} {b : MmioAction} (ha : a.OfEngine) (hb : b.OfEngine)

include ha hb in
theorem engine_access_mmio :
    ((t.engine a).access b).mmio = (t.mmio.act b).onto (t.ocl.act a).afuEvent := by
  change ({ t.mmio with afuEvent := (t.ocl.act a).afuEvent } : Mmio).act b = _
  rw [onto_of_engine t.shared ha, act_onto_mmio _ _ hb]

include ha hb in
theorem access_engine_ocl : ((t.access b).engine a).ocl = (t.ocl.act a).onto (t.mmio.act b).afuEvent := by
  change ({ t.ocl with afuEvent := (t.mmio.act b).afuEvent } : Ocl).act a = _
  rw [onto_of_access t.shared hb, act_onto _ _ ha]

include ha hb in
/-- What both have driven, whoever came first. -/
theorem drive_comm :
    (t.mmio.act b).afuEvent.mmioSignals.drive (t.ocl.act a).afuEvent =
      (t.ocl.act a).afuEvent.cmdSignals.drive (t.mmio.act b).afuEvent := by
  rw [act_cmdSignals t.ocl ha, act_mmioSignals t.mmio hb, t.shared]
  rfl

include ha hb in
theorem engine_access_comm : (t.engine a).access b = (t.access b).engine a := by
  have hmmio := engine_access_mmio t ha hb
  have hocl := access_engine_ocl t ha hb
  apply ext
  · rw [hocl]
    change { t.ocl.act a with afuEvent := ((t.engine a).access b).mmio.afuEvent } = _
    rw [hmmio]
    exact congrArg (fun e => { t.ocl.act a with afuEvent := e }) (drive_comm t ha hb)
  · rw [hmmio]
    change _ = { t.mmio.act b with afuEvent := ((t.access b).engine a).ocl.afuEvent }
    rw [hocl]
    exact congrArg (fun e => { t.mmio.act b with afuEvent := e }) (drive_comm t ha hb)

end Between

/-- The operations of the two engines between two clocks. -/
theorem engines_independent :
    Independent halted (fun t (a : { a : Action // a.OfEngine }) => t.engine a.1)
      (fun t (b : { b : MmioAction // b.OfEngine }) => t.access b.1) where
  comm t a b := engine_access_comm t a.2 b.2
  stops t a b hrunning := by
    obtain ⟨hocl, hmmio⟩ := Bool.or_eq_false_iff.mp hrunning
    have hboth : ((t.engine a.1).access b.1).mmio.halted = (t.mmio.act b.1).halted := by
      rw [engine_access_mmio t a.2 b.2]
      rfl
    change ((t.ocl.act a.1).halted || ((t.engine a.1).access b.1).mmio.halted) =
      (((t.ocl.act a.1).halted || t.mmio.halted) || (t.ocl.halted || (t.mmio.act b.1).halted))
    rw [hboth, hocl, hmmio, Bool.or_false, Bool.false_or]

end TlxThread

/-- An operation that is no clock: the work of the handlers, of the clients and of the MMIO queue. -/
abbrev HandlerAction := { a : Action // a.OfEngine } ⊕ { b : MmioAction // b.OfEngine }

def HandlerAction.toThread (c : HandlerAction) : ThreadAction := c.map Subtype.val Subtype.val

namespace TlxThread

/-- However the handlers, the clients and the MMIO queue take turns between two clocks, the thread comes to what the
command engine's operations and after them the MMIO engine's come to, or it has stopped in both orders. -/
theorem handlers_sequential (t : TlxThread) (w : List HandlerAction) :
    Alike halted (t.run (w.map HandlerAction.toThread))
      (t.run (((w.filterMap Sum.getLeft?).map (fun a => .inl a.1)) ++
        ((w.filterMap Sum.getRight?).map (fun b => .inr b.1)))) := by
  have hstep : ∀ (t : TlxThread) (c : HandlerAction), t.step c.toThread =
      guarded halted (either (fun t (a : { a : Action // a.OfEngine }) => t.engine a.1)
        (fun t (b : { b : MmioAction // b.OfEngine }) => t.access b.1)) t c := by
    rintro t (a | b) <;> rfl
  have hrun : ∀ (t : TlxThread) (w : List HandlerAction), t.run (w.map HandlerAction.toThread) =
      w.foldl (guarded halted (either (fun t (a : { a : Action // a.OfEngine }) => t.engine a.1)
        (fun t (b : { b : MmioAction // b.OfEngine }) => t.access b.1))) t := by
    intro t w
    induction w generalizing t with
    | nil => rfl
    | cons c w ih =>
      change TlxThread.run (t.step c.toThread) (w.map HandlerAction.toThread) = _
      rw [hstep, ih]
      rfl
  have hsorted : ∀ (as : List { a : Action // a.OfEngine }) (bs : List { b : MmioAction // b.OfEngine }),
      ((as.map Sum.inl ++ bs.map Sum.inr : List HandlerAction)).map HandlerAction.toThread =
        as.map (fun a => .inl a.1) ++ bs.map (fun b => .inr b.1) := by
    intro as bs
    rw [List.map_append, List.map_map, List.map_map]
    rfl
  have hseq := engines_independent.sequential t w
  rw [← hrun, ← hrun, hsorted] at hseq
  exact hseq

end TlxThread

end Ocse
