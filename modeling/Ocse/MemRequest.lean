import Ocse.Lib.Wire
import Ocse.Mmio

/-!
# MMIO and LPC requests of a client

What libocxl writes to the socket for an MMIO or LPC access, and what ocse makes of it. An offset takes
four bytes in every message. `_mem_write_be` puts the network order of the low word of its byte enables
into eight bytes, and ocse takes the low word of those eight back to its own order.
-/

namespace Ocse

/-! ## The library -/

def ocseMmioRead64 : UInt8 := 0x0d
def ocseMmioWrite64 : UInt8 := 0x0e
def ocseMmioRead32 : UInt8 := 0x0f
def ocseMmioWrite32 : UInt8 := 0x10
def ocseGlobalMmioRead64 : UInt8 := 0x26
def ocseGlobalMmioWrite64 : UInt8 := 0x27
def ocseGlobalMmioRead32 : UInt8 := 0x28
def ocseGlobalMmioWrite32 : UInt8 := 0x29
def ocseLpcRead : UInt8 := 0x2b
def ocseLpcWrite : UInt8 := 0x2c
def ocseLpcWriteBe : UInt8 := 0x2d

/-- `struct mmio_req`, its type spelled out. -/
structure MmioReq where
  global : Bool
  rnw : Bool
  dw : Bool
  addr : UInt32
  data : UInt64
  deriving DecidableEq, Repr

def MmioReq.type (r : MmioReq) : UInt8 :=
  match r.global, r.rnw, r.dw with
  | false, true, true => ocseMmioRead64
  | false, false, true => ocseMmioWrite64
  | false, true, false => ocseMmioRead32
  | false, false, false => ocseMmioWrite32
  | true, true, true => ocseGlobalMmioRead64
  | true, false, true => ocseGlobalMmioWrite64
  | true, true, false => ocseGlobalMmioRead32
  | true, false, false => ocseGlobalMmioWrite32

/-- `_mmio_read`, `_mmio_write64` and `_mmio_write32` -/
def MmioReq.message (r : MmioReq) : List UInt8 :=
  r.type :: beBytes 4 r.addr.toNat ++
    (if r.rnw then [] else if r.dw then beBytes 8 r.data.toNat else beBytes 4 r.data.toNat)

inductive LpcType
  | read | write | writeBe
  deriving DecidableEq, Repr

/-- `struct mem_req` -/
structure MemReq where
  type : LpcType
  addr : UInt64
  size : ℕ
  data : List UInt8
  be : UInt64
  deriving DecidableEq, Repr

/-- `_mem_read`, `_mem_write` and `_mem_write_be` -/
def MemReq.message (r : MemReq) : List UInt8 :=
  match r.type with
  | .read => ocseLpcRead :: (beBytes 4 r.addr.toNat ++ beBytes 4 r.size)
  | .write => ocseLpcWrite :: (beBytes 4 r.addr.toNat ++ (beBytes 4 r.size ++ r.data))
  | .writeBe => ocseLpcWriteBe :: (beBytes 4 r.addr.toNat ++ (beBytes 4 r.be.toNat ++ [0, 0, 0, 0] ++ r.data))

/-! ## ocse -/

/-- The low word of the eight bytes in network order, as `ntohl` gives it. -/
def getBe (stream : List UInt8) : Option (ℕ × List UInt8) :=
  (getBytes 8 stream).map (fun (b, rest) => (loadBE b 0 4, rest))

/-- `handle_mmio` for a valid client. A 32-bit value fills both halves. -/
def handleMmio (client : ℕ) (cfg : MmioCfg) (rnw dw global : Bool) (stream : List UInt8) :
    Option (MmioAction × List UInt8) :=
  match getBE 4 stream with
  | none => none
  | some (offset, stream) =>
    if rnw then some (.mmio client cfg rnw dw global (UInt64.ofNat offset) 0, stream)
    else if dw then
      match getBE 8 stream with
      | none => none
      | some (data, stream) =>
        some (.mmio client cfg rnw dw global (UInt64.ofNat offset) (UInt64.ofNat data), stream)
    else
      match getBE 4 stream with
      | none => none
      | some (data, stream) =>
        some (.mmio client cfg rnw dw global (UInt64.ofNat offset)
          (UInt64.ofNat (data <<< 32 ||| data)), stream)

/-- `_handle_mem_read`; the data of the AFU will go into fresh memory. -/
def mmioHandleMemRead (client : ℕ) (stream : List UInt8) : Option (MmioAction × List UInt8) :=
  match getBE 4 stream with
  | none => none
  | some (offset, stream) =>
    match getBE 4 stream with
    | none => none
    | some (size, stream) =>
      some (.mem client true size (UInt64.ofNat offset) (Buffer.const 0) false 0, stream)

/-- `_handle_mem_write`; with byte enables the size is always 64. -/
def mmioHandleMemWrite (client : ℕ) (beValid : Bool) (stream : List UInt8) : Option (MmioAction × List UInt8) :=
  match getBE 4 stream with
  | none => none
  | some (offset, stream) =>
    match if beValid then getBe stream else getBE 4 stream with
    | none => none
    | some (value, stream) =>
      let size := if beValid then 64 else value
      let be := if beValid then value else 0
      match getData size stream with
      | none => none
      | some (data, stream) =>
        some (.mem client false size (UInt64.ofNat offset) ((Buffer.const 0).write 0 data) beValid
          (UInt64.ofNat be), stream)

/-- The part of `_handle_client` that is about MMIO and LPC. -/
def handleClientMmio (client : ℕ) (cfg : MmioCfg) : List UInt8 → Option (MmioAction × List UInt8)
  | [] => none
  | type :: stream =>
    if type = ocseGlobalMmioWrite64 then handleMmio client cfg false true true stream
    else if type = ocseMmioWrite64 then handleMmio client cfg false true false stream
    else if type = ocseGlobalMmioWrite32 then handleMmio client cfg false false true stream
    else if type = ocseMmioWrite32 then handleMmio client cfg false false false stream
    else if type = ocseGlobalMmioRead64 then handleMmio client cfg true true true stream
    else if type = ocseMmioRead64 then handleMmio client cfg true true false stream
    else if type = ocseGlobalMmioRead32 then handleMmio client cfg true false true stream
    else if type = ocseMmioRead32 then handleMmio client cfg true false false stream
    else if type = ocseLpcWrite then mmioHandleMemWrite client false stream
    else if type = ocseLpcWriteBe then mmioHandleMemWrite client true stream
    else if type = ocseLpcRead then mmioHandleMemRead client stream
    else none

/-! ## What arrives -/

/-- The data of an MMIO as ocse has it. -/
def MmioReq.received (r : MmioReq) : UInt64 :=
  if r.rnw then 0 else if r.dw then r.data
  else UInt64.ofNat ((r.data.toNat % 2 ^ 32) <<< 32 ||| r.data.toNat % 2 ^ 32)

theorem handleMmio_message (client : ℕ) (cfg : MmioCfg) (r : MmioReq) (rest : List UInt8) :
    handleClientMmio client cfg (r.message ++ rest) =
      some (.mmio client cfg r.rnw r.dw r.global (UInt64.ofNat r.addr.toNat) r.received, rest) := by
  have hdispatch : ∀ stream, handleClientMmio client cfg (r.type :: stream) =
      handleMmio client cfg r.rnw r.dw r.global stream := by
    intro stream
    rcases r with ⟨_ | _, _ | _, _ | _, addr, data⟩ <;> rfl
  have haddr : r.addr.toNat < 256 ^ 4 := r.addr.toNat_lt
  have hdata : r.data.toNat < 256 ^ 8 := r.data.toNat_lt
  rw [MmioReq.message, List.cons_append, List.cons_append, hdispatch, List.append_assoc, handleMmio,
    getBE_append haddr, MmioReq.received]
  cases r.rnw with
  | true => rfl
  | false =>
    cases r.dw with
    | true => simp [getBE_append hdata]
    | false => simp [getBE_append_mod]

/-- A request as libocxl makes it. -/
structure MemReq.Formed (r : MemReq) : Prop where
  size : r.size < 2 ^ 32
  data : r.type ≠ .read → r.data.length = r.size
  be : r.type = .writeBe → r.size = 64
  noBe : r.type ≠ .writeBe → r.be = 0

/-- What ocse makes of an LPC request: the low words of its offset and of its byte enables. -/
def MemReq.action (client : ℕ) (r : MemReq) : MmioAction :=
  .mem client (r.type = .read) r.size (UInt64.ofNat (r.addr.toNat % 2 ^ 32))
    (if r.type = .read then Buffer.const 0 else (Buffer.const 0).write 0 r.data) (r.type = .writeBe)
    (UInt64.ofNat (r.be.toNat % 2 ^ 32))

theorem handleMem_message (client : ℕ) (cfg : MmioCfg) (r : MemReq) (h : r.Formed) (rest : List UInt8) :
    handleClientMmio client cfg (r.message ++ rest) = some (r.action client, rest) := by
  have hsize : r.size < 256 ^ 4 := h.size
  rcases r with ⟨_ | _ | _, addr, size, data, be⟩
  · have hbe : be = 0 := h.noBe nofun
    have hdispatch : ∀ stream, handleClientMmio client cfg (ocseLpcRead :: stream) =
        mmioHandleMemRead client stream := fun _ => rfl
    simp [MemReq.message, hdispatch, mmioHandleMemRead, getBE_append_mod, getBE_append hsize, MemReq.action, hbe]
  · have hbe : be = 0 := h.noBe nofun
    have hdata : data.length = size := h.data nofun
    have hdispatch : ∀ stream, handleClientMmio client cfg (ocseLpcWrite :: stream) =
        mmioHandleMemWrite client false stream := fun _ => rfl
    simp [MemReq.message, hdispatch, mmioHandleMemWrite, getBE_append_mod, getBE_append hsize,
      getData_append hdata, MemReq.action, hbe]
  · have hlines : size = 64 := h.be rfl
    have hdata : data.length = 64 := (h.data nofun).trans hlines
    have hdispatch : ∀ stream, handleClientMmio client cfg (ocseLpcWriteBe :: stream) =
        mmioHandleMemWrite client true stream := fun _ => rfl
    have hbe : ∀ rest, getBe (beBytes 4 be.toNat ++ ([0, 0, 0, 0] ++ rest)) =
        some (be.toNat % 2 ^ 32, rest) := by
      intro rest
      have hholds := Buffer.holds_write (Buffer.const 0) 0 (beBytes 4 be.toNat ++ [0, 0, 0, 0])
      rw [Buffer.holds_append] at hholds
      have hload := loadBE_of_holds _ 0 4 be.toNat hholds.1
      rw [show 256 ^ 4 = 2 ^ 32 by rfl] at hload
      rw [getBe, ← List.append_assoc, getBytes_append (by simp), Option.map_some]
      simp only [hload]
    have hbytes : MemReq.message ⟨.writeBe, addr, size, data, be⟩ ++ rest =
        ocseLpcWriteBe :: (beBytes 4 addr.toNat ++ (beBytes 4 be.toNat ++ ([0, 0, 0, 0] ++ (data ++ rest)))) := by
      simp [MemReq.message]
    rw [hbytes, hdispatch, mmioHandleMemWrite, getBE_append_mod]
    simp only [if_true, hbe, getData_append hdata, MemReq.action, hlines]
    rfl

/-! ## The command that is staged -/

/-- The command of a memory access. -/
def MmioEvent.command (e : MmioEvent) : TlxAfuCmd :=
  let (opcode, capptag) : UInt8 × UInt16 :=
    if e.rnw then if e.byteCnt < 64 then (tlxCmdPrRdMem, 0xcafe) else (tlxCmdRdMem, 0xefac)
    else if e.byteCnt < 64 then (tlxCmdPrWrMem, 0xbead)
    else if e.beValid then (tlxCmdWriteMemBe, 0xbebe)
    else (tlxCmdWriteMem, 0xdaeb)
  { valid := 1, opcode, capptag, dl := e.cmdDL, pl := e.cmdPL
    be := if e.rnw = false ∧ 64 ≤ e.byteCnt ∧ e.beValid then e.be else 0
    cmdEnd := 0, pa := e.cmdPA }

/-- Its data, over what the bus held before. -/
def MmioEvent.commandData (e : MmioEvent) (g : TlxAfuCmdData) : TlxAfuCmdData :=
  if e.rnw then g
  else
    { valid := 1
      dataBus := g.dataBus.write 0 (e.tdataBus.read 0 (cmdDataSize e.cmdDL))
      bdi := 0
      byteCnt := UInt16.ofNat (cmdDataSize e.cmdDL) }

/-- A memory access finds the slot free: it is staged, whatever the counter says. -/
theorem transmit_mem (e : MmioEvent) (a : AfuEvent) (hcfg : e.cfg = false) (hfree : a.tlxCmd.valid ≠ 1) :
    e.transmit a = (tlxSuccess, { a with
      afuTlxCmdCreditsAvailable := a.afuTlxCmdCreditsAvailable - 1
      tlxCmd := e.command
      tlxCmdData := e.commandData a.tlxCmdData }) := by
  have hcmd : ∀ opcode capptag dl pl be cmdEnd pa, opcode = tlxCmdPrRdMem ∨ opcode = tlxCmdRdMem →
      tlxAfuSendCmd a opcode capptag dl pl be cmdEnd pa = (tlxSuccess, { a with
        afuTlxCmdCreditsAvailable := a.afuTlxCmdCreditsAvailable - 1
        tlxCmd := ⟨1, opcode, capptag, dl, pl, be, cmdEnd, pa⟩ }) := by
    intro opcode capptag dl pl be cmdEnd pa hop
    have hnot : ¬(opcode = tlxCmdConfigRead ∧ opcode = tlxCmdConfigWrite) := by
      rcases hop with rfl | rfl <;> decide
    rw [tlxAfuSendCmd, if_neg hnot, if_neg hfree]
  have hdata : ∀ opcode capptag dl pl be cmdEnd pa bdi data,
      opcode = tlxCmdPrWrMem ∨ opcode = tlxCmdWriteMemBe ∨ opcode = tlxCmdWriteMem →
      tlxAfuSendCmdAndData a opcode capptag dl pl be cmdEnd pa bdi data = (tlxSuccess, { a with
        afuTlxCmdCreditsAvailable := a.afuTlxCmdCreditsAvailable - 1
        tlxCmd := ⟨1, opcode, capptag, dl, pl, be, cmdEnd, pa⟩
        tlxCmdData := ⟨1, a.tlxCmdData.dataBus.write 0 (data.read 0 (cmdDataSize dl)), bdi,
          UInt16.ofNat (cmdDataSize dl)⟩ }) := by
    intro opcode capptag dl pl be cmdEnd pa bdi data hop
    have hnot : ¬(opcode = tlxCmdConfigRead ∧ opcode = tlxCmdConfigWrite) := by
      rcases hop with rfl | rfl | rfl <;> decide
    rw [tlxAfuSendCmdAndData, if_neg hnot, if_neg hfree]
  unfold MmioEvent.transmit
  rw [hcfg]
  cases hrnw : e.rnw with
  | true =>
    by_cases hpart : e.byteCnt < 64
    · simp [hpart, hcmd, MmioEvent.command, MmioEvent.commandData, hrnw]
    · simp [hpart, hcmd, MmioEvent.command, MmioEvent.commandData, hrnw]
  | false =>
    by_cases hpart : e.byteCnt < 64
    · simp [hpart, hdata, MmioEvent.command, MmioEvent.commandData, hrnw]
    · cases hbe : e.beValid with
      | true =>
        simp [hpart, hdata, MmioEvent.command, MmioEvent.commandData, hrnw, hbe, Nat.not_lt.mp hpart]
      | false => simp [hpart, hdata, MmioEvent.command, MmioEvent.commandData, hrnw, hbe]

end Ocse
