import Ocse.EngineInv

/-!
# Bursts of write data

A write of more than 64 bytes brings its first beat with its command; the others come in later frames, where a
command of another kind may stand beside them. The ledger is the AFU's account of its bursts: it is told of the beat
of every frame, and says to which burst it belongs. A run of `oclLoop` is taken apart into its actions, so that what
holds between the handlers of one turn can be said too.
-/

namespace Ocse

/-! ## The loop as a run -/

def Ocl.refresh (s : Ocl) : List Action :=
  if s.state ≠ .idle ∧ (0 < s.attachedClients ∨ s.state = .reset ∨ s.state = .desc) then [.idle tlxIdleCycles]
  else []

/-- The frame, and what is done with it when it is whole. -/
def Turn.frame (t : Turn) (s : Ocl) : List Action :=
  [.signalAfu, .getAfuEvents t.socket] ++
    if 0 < (tlxGetAfuEvents (s.step .signalAfu).afuEvent t.socket).1 then t.handleAfu else []

def Turn.clocked (t : Turn) (s : Ocl) : List Action :=
  let driven := t.frame s ++ t.mmioAfter.map .mmio
  if s.idleCycles ≠ 0 then driven ++ if t.mmioEmpty then [.idle ((s.run driven).idleCycles - 1)] else []
  else []

/-- The actions of a turn, in the order of the source. -/
def Turn.sequence (t : Turn) (s : Ocl) : List Action :=
  let s₁ := s.run s.refresh
  s.refresh ++ t.clocked s₁ ++ t.clients (s₁.run (t.clocked s₁)).maxClients

theorem run_refresh (s : Ocl) : s.run s.refresh =
    if s.state ≠ .idle ∧ (0 < s.attachedClients ∨ s.state = .reset ∨ s.state = .desc) then
      s.step (.idle tlxIdleCycles) else s := by
  unfold Ocl.refresh
  split
  · rfl
  · rfl

theorem run_frame (s : Ocl) (t : Turn) : s.run (t.frame s) =
    if 0 < (tlxGetAfuEvents (s.step .signalAfu).afuEvent t.socket).1 then
      ((s.step .signalAfu).step (.getAfuEvents t.socket)).run t.handleAfu
    else (s.step .signalAfu).step (.getAfuEvents t.socket) := by
  unfold Turn.frame
  rw [Ocl.run_append]
  split
  · rfl
  · rfl

theorem oclLoop_eq_sequence (s : Ocl) (t : Turn) : oclLoop s t = s.run (t.sequence s) := by
  unfold oclLoop Turn.sequence
  dsimp only
  rw [Ocl.run_append, Ocl.run_append, ← run_refresh]
  generalize s.run s.refresh = s₁
  have hclocked : s₁.run (t.clocked s₁) =
      if s₁.idleCycles ≠ 0 then
        if t.mmioEmpty then ((s₁.run (t.frame s₁)).run (t.mmioAfter.map .mmio)).step
          (.idle (((s₁.run (t.frame s₁)).run (t.mmioAfter.map .mmio)).idleCycles - 1))
        else (s₁.run (t.frame s₁)).run (t.mmioAfter.map .mmio)
      else s₁ := by
    unfold Turn.clocked
    dsimp only
    split
    · rw [Ocl.run_append, Ocl.run_append]
      split
      · rfl
      · rfl
    · rfl
  rw [hclocked, run_frame]

/-- Between two turns a client may be associated by its own thread. -/
inductive LoopEvent
  | turn (t : Turn)
  | associate (bdf : UInt16)

def LoopEvent.actions (s : Ocl) : LoopEvent → List Action
  | .turn t => t.sequence s
  | .associate bdf => [.associate bdf]

def loopActions : Ocl → List LoopEvent → List Action
  | _, [] => []
  | s, ev :: evs => ev.actions s ++ loopActions (s.run (ev.actions s)) evs

/-! ## Which commands keep a beat -/

/-- The write waits for more of its data. -/
def CmdEvent.Gathers (e : CmdEvent) : Prop := e.type = .write ∧ e.state = .buffer

def isTouchCmd (opcode : UInt8) : Bool := opcode = afuCmdXlateTouch || opcode = afuCmdXlateTouchN

def isAmoCmd (opcode : UInt8) : Bool :=
  isAmoRw opcode || isAmoW opcode || opcode = afuCmdAmoRd || opcode = afuCmdAmoRdN

def writeSize (cmd : AfuTlxCmd) : ℕ :=
  if isFullWrite cmd.opcode then dlToSize cmd.dl
  else if cmd.opcode = afuCmdDmaPrW ∨ cmd.opcode = afuCmdDmaPrWN then plToSize cmd.pl
  else 64

def amoAccepted (cmd : AfuTlxCmd) : Bool :=
  match amoSize cmd with
  | .error _ => false
  | .ok size => aligned cmd.addr size ≠ .badAddrOffset

/-- The command's acTag names a client. -/
def Ocl.knows (s : Ocl) (cmd : AfuTlxCmd) : Bool := (findClientByActag s cmd.actag).isSome

/-- The command leaves a beat of another command on the bus. An `assign_actag`, a read and a touch put the flag back
themselves; a write, an AMO and an interrupt do so in `_add_cmd`, if they get there. -/
def Ocl.keepsBeat (s : Ocl) (cmd : AfuTlxCmd) : Bool :=
  cmd.opcode = afuCmdAssignActag || isReadCmd cmd.opcode || isTouchCmd cmd.opcode ||
    (s.knows cmd && (isWriteCmd cmd.opcode && aligned cmd.addr (writeSize cmd) = .aligned ||
      isAmoCmd cmd.opcode && amoAccepted cmd || isInterruptCmd cmd.opcode))

/-- The command at the interface is a write of 64, 128 or 256 bytes that is accepted. -/
def Ocl.startsBurst (s : Ocl) : Bool :=
  let cmd := s.afuEvent.afuCmd
  cmd.valid ≠ 0 && isFullWrite cmd.opcode && aligned cmd.addr (dlToSize cmd.dl) = .aligned && s.knows cmd

/-! ## The ledger -/

/-- A burst: the event and the tag of its command, its length, and the beats that belong to it so far. -/
structure Burst where
  id : ℕ
  afutag : UInt16
  size : ℕ
  beats : List (List UInt8)

/-- More beats are to come. -/
def Burst.unfinished (b : Burst) : Bool := 64 * b.beats.length < b.size

/-- The bursts, the newest one first, and the beat of the last frame until it has its place. -/
structure BeatLedger where
  bursts : List Burst
  beat : Option (List UInt8)

def BeatLedger.gathering (g : BeatLedger) : Bool := g.bursts.head?.any Burst.unfinished

/-- The data that the frame brings. -/
def Ocl.frameBeat (s : Ocl) (socket : Socket) : Option (List UInt8) :=
  let (events, afuEvent, _) := tlxGetAfuEvents s.afuEvent socket
  if 0 < events ∧ present afuEvent.rbuf 0x04 then some (afuEvent.afuCdata.bus.read 0 64) else none

/-- The beat that comes with an accepted write, when no burst is in progress, starts a burst. -/
def BeatLedger.start (g : BeatLedger) (s : Ocl) (beat : List UInt8) : BeatLedger :=
  if s.startsBurst then
    { bursts := ⟨s.nextId, s.afuEvent.afuCmd.afutag, dlToSize s.afuEvent.afuCmd.dl, [beat]⟩ :: g.bursts, beat := none }
  else g

/-- Any other beat belongs to the burst in progress. -/
def BeatLedger.next (g : BeatLedger) (beat : List UInt8) : BeatLedger :=
  match g.bursts with
  | [] => g
  | b :: bs => { bursts := { b with beats := b.beats ++ [beat] } :: bs, beat := none }

def BeatLedger.step (g : BeatLedger) (s : Ocl) (a : Action) : BeatLedger :=
  if s.halted then g
  else match a, g.beat with
    | .getAfuEvents socket, _ => { g with beat := s.frameBeat socket }
    | .cmd _, some beat => if g.gathering then g else g.start s beat
    | .cmdDataRead, some beat => if g.gathering then g.next beat else g
    | _, _ => g

structure BeatRun where
  engine : Ocl
  ledger : BeatLedger

def BeatRun.step (r : BeatRun) (a : Action) : BeatRun := ⟨r.engine.step a, r.ledger.step r.engine a⟩

def BeatRun.init (s : Ocl) : BeatRun := ⟨s, ⟨[], none⟩⟩

/-! ## The condition -/

/-- The stream of frames: data that is not of the burst in progress comes with a write that starts one. -/
def BeatRun.InStream (r : BeatRun) : Action → Prop
  | .cmd _ => r.ledger.beat.isSome = true → r.ledger.gathering = false → r.engine.startsBurst = true
  | _ => True

/-- Nothing takes a later beat or its event away: the command beside it keeps it, and the client of the write has
not departed. -/
def BeatRun.Spares (r : BeatRun) : Action → Prop
  | .cmd _ => r.ledger.beat.isSome = true → r.ledger.gathering = true → r.engine.afuEvent.afuCmd.valid ≠ 0 →
      r.engine.keepsBeat r.engine.afuEvent.afuCmd = true
  | .settle i => ∀ c, r.engine.client i = some c → c.state = .none →
      ∀ e ∈ r.engine.list, e.Gathers → e.context ≠ c.context
  | _ => True

/-! ## The property -/

structure Assembled (g : BeatLedger) (s : Ocl) : Prop where
  /-- At most one write gathers. -/
  single : ∀ e ∈ s.list, ∀ e' ∈ s.list, e.Gathers → e'.Gathers → e = e'
  /-- A burst's event is that of its command and holds its beats, each once and in order, and nothing else. -/
  holds : ∀ b ∈ g.bursts, ∀ e ∈ s.list, e.id = b.id →
    e.afutag = b.afutag ∧ e.data = (Buffer.const 0).write 0 b.beats.flatten
  /-- The event gathers just until the last beat. -/
  gathers : ∀ b ∈ g.bursts, b.unfinished = true ↔ ∃ e ∈ s.list, e.id = b.id ∧ e.Gathers

/-- The step that copies the last beat of a burst, and no other, makes its event received. -/
def Receives (r : BeatRun) (a : Action) : Prop :=
  ∀ b ∈ (r.step a).ledger.bursts, b.unfinished = false →
    (∀ b' ∈ r.ledger.bursts, b'.id = b.id → b'.unfinished = true) →
    ∃ e ∈ (r.step a).engine.list, e.id = b.id ∧ e.type = .write ∧ e.state = .received

end Ocse
