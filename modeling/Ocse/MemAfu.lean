import Ocse.Lpc
import Ocse.TlxSignal

/-!
# An AFU that is a byte memory

The bench joins the MMIO engine to an AFU that keeps a byte memory and takes every command. Partial data
stands on a line at `PA & 0x3F`; the other bytes of a line of read data are whatever `fill` says. The
responses and the 64-byte beats of read data wait in a queue, and each clock shows as much of its front
as a frame can hold, or less. A clock ends with `_handle_afu`, as in the loop of ocse.
-/

namespace Ocse

/-! ## The AFU -/

inductive AfuItem
  | resp (r : AfuTlxResp)
  | beat (bus : Buffer UInt8)

structure MemAfu where
  mem : Buffer UInt8
  queue : List AfuItem

/-- A command from the interface: the memory after it and the answer. -/
def MemAfu.take (a : MemAfu) (fill : Buffer UInt8) (cmd : TlxAfuCmd) (data : Buffer UInt8) : MemAfu :=
  let pa := cmd.pa.toNat
  let written (mem : Buffer UInt8) : MemAfu :=
    { mem, queue := a.queue ++ [.resp ⟨1, afuRspMemWrResp, cmd.dl, cmd.capptag, 0, 0⟩] }
  if cmd.opcode = tlxCmdPrRdMem then
    { a with queue := a.queue ++ [.resp ⟨1, afuRspMemRdResp, 1, cmd.capptag, 0, 0⟩,
        .beat (fill.write (pa % 64) (a.mem.read pa (plToSize cmd.pl)))] }
  else if cmd.opcode = tlxCmdRdMem then
    { a with queue := a.queue ++ .resp ⟨1, afuRspMemRdResp, cmd.dl, cmd.capptag, 0, 0⟩ ::
        (List.range (dlToSize cmd.dl / 64)).map (fun k => .beat (fill.write 0 (a.mem.read (pa + 64 * k) 64))) }
  else if cmd.opcode = tlxCmdPrWrMem then
    written (a.mem.write pa (data.read (pa % 64) (plToSize cmd.pl)))
  else if cmd.opcode = tlxCmdWriteMem then written (a.mem.write pa (data.read 0 (dlToSize cmd.dl)))
  else if cmd.opcode = tlxCmdWriteMemBe then
    written (fun i => if pa ≤ i ∧ i < pa + 64 ∧ cmd.be.toNat.testBit (i - pa) then data (i - pa) else a.mem i)
  else a

/-- What a frame shows of the queue: a response, a beat, or a response and the beat behind it. -/
def MemAfu.answer (a : MemAfu) (k : ℕ) : Option AfuTlxResp × Option (Buffer UInt8) × MemAfu :=
  match k, a.queue with
  | 0, _ | _, [] => (none, none, a)
  | _ + 2, .resp r :: .beat bus :: queue => (some r, some bus, { a with queue })
  | _, .resp r :: queue => (some r, none, { a with queue })
  | _, .beat bus :: queue => (none, some bus, { a with queue })

/-! ## The bench -/

structure Bench where
  engine : Mmio
  afu : MemAfu

inductive BenchStep
  | send
  | clock (fill : Buffer UInt8) (k : ℕ)
  | poll (client : ℕ)

/-- The interface when the host has sent its frame and taken one with this response and this beat. -/
def AfuEvent.clocks (host : AfuEvent) (resp : Option AfuTlxResp) (beat : Option (Buffer UInt8)) : AfuEvent :=
  let sent := (tlxSignalAfuModel host).2.1
  { sent with
    clock := 0
    afuResp := resp.getD { sent.afuResp with valid := 0 }
    afuRdata := (beat.map (fun bus => ⟨1, bus, 0⟩)).getD { sent.afuRdata with valid := 0 } }

/-- The AFU answers a clock with what it has before it takes the command that came with it. -/
def Bench.clock (b : Bench) (fill : Buffer UInt8) (k : ℕ) : Bench :=
  let host := b.engine.afuEvent
  let (resp, beat, afu) := b.afu.answer k
  { engine := (b.engine.step (.frame (host.clocks resp beat))).step .handleAfu
    afu := if host.tlxCmd.valid ≠ 0 then afu.take fill host.tlxCmd host.tlxCmdData.dataBus else afu }

def Bench.step (b : Bench) : BenchStep → Bench
  | .send => { b with engine := b.engine.step .send }
  | .clock fill k => b.clock fill k
  | .poll client => { b with engine := b.engine.step (.poll client) }

def Bench.run (b : Bench) (steps : List BenchStep) : Bench := steps.foldl Bench.step b

/-- What the clients have been told. -/
def acksOf (trace : List MmioObs) : List (ℕ × List UInt8) :=
  trace.filterMap (fun | .acked client bytes => some (client, bytes) | _ => none)

/-- A client's message to ocse, and the acknowledgement it gets when the steps are done. -/
def Bench.exchange (b : Bench) (client : ℕ) (cfg : MmioCfg) (message : List UInt8) (steps : List BenchStep) :
    Option (List UInt8 × Bench) :=
  match handleClientMmio client cfg message with
  | none => none
  | some (action, _) =>
    let b' := Bench.run { b with engine := b.engine.step action } steps
    match (acksOf b'.engine.trace).drop (acksOf b.engine.trace).length with
    | [(_, bytes)] => some (bytes, b')
    | _ => none

end Ocse
