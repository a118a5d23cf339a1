import Ocse.CmdEvent

/-!
# Accepting a command

`handle_cmd` reads a command from the interface, refuses a tag that is in use (`error_msg` ends the
program), and `_parse_cmd` turns the command into an event in the list, or binds an acTag.
-/

namespace Ocse

/-! ## Finding clients -/

/-- The first slot whose client satisfies `p`, as the two lookups search for it. -/
def Ocl.findSlot (s : Ocl) (p : Client → Bool) : Option ℕ :=
  (List.range s.maxClients).find? (fun i => (s.client i).any p)

def findClientByPasidAndBdf (s : Ocl) (bdf : UInt16) (pasid : UInt32) : Option ℕ :=
  s.findSlot (fun c => c.bdf = bdf && c.pasid = pasid)

def findClientByActag (s : Ocl) (actag : UInt16) : Option ℕ := s.findSlot (fun c => c.actag = actag)

/-! ## Adding an event -/

def incomingDataExpected (list : List CmdEvent) : Bool :=
  list.any (fun e => e.type = .write && e.state = .buffer)

/-- The insertion loop of `_add_cmd`: walk on until `allow_reorder` says stop. -/
def insertCmd (parms : Parms) (reorder : ℕ → ℕ) (e : CmdEvent) : List CmdEvent → List CmdEvent
  | [] => [e]
  | x :: xs =>
      if percentChance parms.reorderPercent (reorder 0) then e :: x :: xs
      else x :: insertCmd parms (fun n => reorder (n + 1)) e xs

/-- What the `_add_` functions pass to `_add_cmd`. -/
structure NewCmd where
  context : ℕ
  afutag : UInt16
  command : UInt8
  type : CmdType
  addr : ℕ
  size : ℕ
  state : MemState
  resp : UInt8
  dataIsValid : Bool
  wrBe : UInt64
  cmdFlag : UInt8
  cmdEndian : UInt8
  respOpcode : UInt8

/-- The event that `_add_cmd` links, before it looks at the data bus. -/
def NewCmd.event (n : NewCmd) (id : ℕ) : CmdEvent where
  id := id
  addr := n.addr
  context := n.context
  command := n.command
  afutag := n.afutag
  size := n.size % 2 ^ 16
  resp := n.resp
  respDl := if n.size % 2 ^ 16 ≤ 64 then 1 else sizeToDl (n.size % 2 ^ 16)
  respDp := 0
  respOpcode := n.respOpcode
  dpartialAt := 0
  wrBe := n.wrBe
  respBytesSent := 0
  cmdFlag := n.cmdFlag
  cmdEndian := n.cmdEndian
  data := Buffer.const 0
  type := n.type
  state := n.state

/-- The first 64 bytes of write data, which come with the command. -/
def CmdEvent.firstBeat (e : CmdEvent) (bus : Buffer UInt8) : CmdEvent :=
  let e := { e with data := e.data.write 0 (bus.read 0 64) }
  if e.type = .interrupt then e
  else if 64 < e.size then { e with dpartialAt := 64, state := .buffer }
  else { e with dpartialAt := 0, state := .received }

/-- The slot was found occupied just before, so `_add_cmd`'s own test of it passes. -/
def addCmd (s : Ocl) (d : Draws) (cmd : AfuTlxCmd) (n : NewCmd) (c : Client) : Ocl :=
  let e := n.event s.nextId
  let expected := incomingDataExpected (insertCmd s.parms d.reorder e s.list)
  let e := if n.dataIsValid && !expected then e.firstBeat s.afuEvent.afuCdata.bus else e
  { s with
    list := insertCmd s.parms d.reorder e s.list
    nextId := s.nextId + 1
    afuEvent :=
      if n.dataIsValid && expected then
        { s.afuEvent with afuCdata := { s.afuEvent.afuCdata with valid := 1 } }
      else s.afuEvent
    trace := s.trace ++ [.added e cmd c.id] }

/-- The context of a command's acTag; a command that names no client is ignored. -/
def addFor (s : Ocl) (d : Draws) (cmd : AfuTlxCmd) (n : ℕ → NewCmd) : Ocl :=
  match findClientByActag s cmd.actag with
  | none => s
  | some i =>
    match s.client i with
    | none => s
    | some c => addCmd s d cmd (n i) c

def addFail (s : Ocl) (d : Draws) (cmd : AfuTlxCmd) (resp respOpcode : UInt8) : Ocl :=
  addFor s d cmd (fun context =>
    { context, afutag := cmd.afutag, command := cmd.opcode, type := .failed, addr := 0, size := 0
      state := .done, resp, dataIsValid := false, wrBe := 0, cmdFlag := 0, cmdEndian := 0, respOpcode })

/-- `memcpy` of the first eight bytes of `ea_or_obj` into an integer. -/
def AfuTlxCmd.addr (cmd : AfuTlxCmd) : ℕ := loadLE cmd.eaOrObj 0 8

def addInterrupt (s : Ocl) (d : Draws) (cmd : AfuTlxCmd) (size : ℕ) (dataIsValid : Bool) : Ocl :=
  let wake := cmd.opcode = afuCmdWakeHostThrd
  addFor s d cmd (fun context =>
    { context, afutag := cmd.afutag, command := cmd.opcode
      type := if wake then .wakeHostThrd else .interrupt
      addr := cmd.addr, size, state := .idle, resp := 0, dataIsValid, wrBe := 0, cmdFlag := cmd.flag
      cmdEndian := 0, respOpcode := if wake then tlxRspWakeHostResp else tlxRspIntrpResp })

inductive Alignment
  | aligned | badOperandSize | badAddrOffset
  deriving DecidableEq, Repr

def aligned (addr size : ℕ) : Alignment :=
  if size = 0 ∨ size &&& (size - 1) ≠ 0 then .badOperandSize
  else if addr &&& (size - 1) ≠ 0 then .badAddrOffset
  else .aligned

/-- A command that is rejected for its size or address is answered with `failOpcode`. -/
def addAligned (s : Ocl) (d : Draws) (cmd : AfuTlxCmd) (size : ℕ) (failOpcode : UInt8) (ok : Ocl) :
    Ocl :=
  match aligned cmd.addr size with
  | .badOperandSize => addFail s d cmd 0x09 failOpcode
  | .badAddrOffset => addFail s d cmd 0x0b failOpcode
  | .aligned => ok

def addXlateTouch (s : Ocl) (d : Draws) (cmd : AfuTlxCmd) : Ocl :=
  addAligned s d cmd 64 tlxRspTouchResp (addFor s d cmd (fun context =>
    { context, afutag := cmd.afutag, command := cmd.opcode, type := .touch, addr := cmd.addr, size := 0
      state := .done, resp := 0, dataIsValid := false, wrBe := 0, cmdFlag := 0, cmdEndian := 0
      respOpcode := tlxRspTouchResp }))

def assignActag (s : Ocl) (bdf : UInt16) (pasid : UInt32) (actag : UInt16) : Ocl :=
  match findClientByPasidAndBdf s bdf pasid with
  | none => s
  | some i => s.setClient i ((s.client i).map (fun c => { c with actag }))

def addRead (s : Ocl) (d : Draws) (cmd : AfuTlxCmd) (size : ℕ) : Ocl :=
  addAligned s d cmd size tlxRspReadFailed (addFor s d cmd (fun context =>
    { context, afutag := cmd.afutag, command := cmd.opcode, type := .read, addr := cmd.addr, size
      state := .idle, resp := tlxResponseDone, dataIsValid := false, wrBe := 0, cmdFlag := 0
      cmdEndian := 0, respOpcode := tlxRspReadResp }))

def isAmoRw (opcode : UInt8) : Bool := opcode = afuCmdAmoRw || opcode = afuCmdAmoRwN

def isAmoW (opcode : UInt8) : Bool := opcode = afuCmdAmoW || opcode = afuCmdAmoWN

/-- The commands that `_add_amo` answers with a read response; `AMO_RD_N` is not one of them. -/
def amoReads (opcode : UInt8) : Bool := isAmoRw opcode || opcode = afuCmdAmoRd

/-- The operand size of an AMO, or the opcode of the response that rejects its length. -/
def amoSize (cmd : AfuTlxCmd) : Except UInt8 ℕ :=
  if cmd.pl = 2 ∨ cmd.pl = 3 then
    if isAmoRw cmd.opcode ∧ 8 ≤ cmd.flag then .error tlxRspReadFailed
    else .ok (if cmd.pl = 2 then 4 else 8)
  else if cmd.pl = 6 ∨ cmd.pl = 7 then
    if isAmoW cmd.opcode then .error tlxRspWriteFailed
    else .ok (if cmd.pl = 6 then 4 else 8)
  else .error (if isAmoRw cmd.opcode then tlxRspReadFailed else tlxRspWriteFailed)

def addAmo (s : Ocl) (d : Draws) (cmd : AfuTlxCmd) (type : CmdType) (dataIsValid : Bool) : Ocl :=
  match amoSize cmd with
  | .error failOpcode => addFail s d cmd 0x09 failOpcode
  | .ok size =>
    if aligned cmd.addr size = .badAddrOffset then
      addFail s d cmd 0x0b (if amoReads cmd.opcode then tlxRspReadFailed else tlxRspWriteFailed)
    else addFor s d cmd (fun context =>
      { context, afutag := cmd.afutag, command := cmd.opcode, type, addr := cmd.addr, size
        state := .idle, resp := tlxResponseDone, dataIsValid, wrBe := 0, cmdFlag := cmd.flag
        cmdEndian := cmd.endian
        respOpcode := if amoReads cmd.opcode then tlxRspReadResp else tlxRspWriteResp })

def addWrite (s : Ocl) (d : Draws) (cmd : AfuTlxCmd) (size : ℕ) (dataIsValid : Bool) (be : UInt64) :
    Ocl :=
  let byteEnabled := cmd.opcode = afuCmdDmaWBe ∨ cmd.opcode = afuCmdDmaWBeN
  addAligned s d cmd size tlxRspWriteFailed (addFor s d cmd (fun context =>
    { context, afutag := cmd.afutag, command := cmd.opcode
      type := if byteEnabled then .wrBe else .write
      addr := cmd.addr, size, state := .idle, resp := tlxResponseDone, dataIsValid
      wrBe := if byteEnabled then be else 0, cmdFlag := 0, cmdEndian := 0
      respOpcode := tlxRspWriteResp }))

/-! ## Reading the command -/

/-- Data that came with a command that takes none is left on the bus. -/
def Ocl.keepData (s : Ocl) (dataIsValid : Bool) : Ocl :=
  if dataIsValid then
    { s with afuEvent := { s.afuEvent with afuCdata := { s.afuEvent.afuCdata with valid := 1 } } }
  else s

def parseCmd (s : Ocl) (d : Draws) (cmd : AfuTlxCmd) (dataIsValid : Bool) : Ocl :=
  let op := cmd.opcode
  if op = afuCmdAssignActag then assignActag (s.keepData dataIsValid) cmd.bdf cmd.pasid cmd.actag
  else if op = afuCmdRdWnitc ∨ op = afuCmdRdWnitcN then
    addRead (s.keepData dataIsValid) d cmd (dlToSize cmd.dl)
  else if op = afuCmdPrRdWnitc ∨ op = afuCmdPrRdWnitcN then
    addRead (s.keepData dataIsValid) d cmd (plToSize cmd.pl)
  else if op = afuCmdDmaW ∨ op = afuCmdDmaWN then addWrite s d cmd (dlToSize cmd.dl) dataIsValid 0
  else if op = afuCmdDmaPrW ∨ op = afuCmdDmaPrWN then addWrite s d cmd (plToSize cmd.pl) dataIsValid 0
  else if op = afuCmdDmaWBe ∨ op = afuCmdDmaWBeN then addWrite s d cmd 64 dataIsValid cmd.be
  else if op = afuCmdAmoRd ∨ op = afuCmdAmoRdN then addAmo s d cmd .amoRd dataIsValid
  else if op = afuCmdAmoRw ∨ op = afuCmdAmoRwN then addAmo s d cmd .amoRw dataIsValid
  else if op = afuCmdAmoW ∨ op = afuCmdAmoWN then addAmo s d cmd .amoWr dataIsValid
  else if op = afuCmdIntrpReqD then addInterrupt s d cmd (plToSize cmd.pl) dataIsValid
  else if op = afuCmdIntrpReq ∨ op = afuCmdWakeHostThrd then addInterrupt s d cmd 0 dataIsValid
  else if op = afuCmdNop then s
  else if op = afuCmdXlateTouch ∨ op = afuCmdXlateTouchN then addXlateTouch (s.keepData dataIsValid) d cmd
  else addFail s d cmd tlxResponseFailed tlxResponseFailed

def handleCmd (s : Ocl) (d : Draws) : Ocl :=
  match afuTlxReadCmdAndData s.afuEvent with
  | (none, _) => s
  | (some (cmd, dataIsValid), afuEvent) =>
    let s := { s with afuEvent, trace := s.trace ++ [Obs.command cmd] }
    if s.list.any (fun e => e.afutag = cmd.afutag) then { s with halted := true }
    else parseCmd s d cmd dataIsValid

end Ocse
