import Ocse.CmdService

/-!
# Answering the AFU

`handle_response` sends the response of the first event that is ready for one, splitting full reads and
writes at the host's line size, and frees it unless more is to come. A response with code `0x04` is
followed by a posted command from `handle_xlate_intrp_pending_sent`. The client's own answers come
through `handle_mem_return` and `handle_aerror`.
-/

namespace Ocse

/-! ## Responses -/

def CmdEvent.responding (e : CmdEvent) : Bool :=
  e.state = .done || e.state = .xlatePending || e.state = .intPending

def isFullWrite (command : UInt8) : Bool := command = afuCmdDmaW || command = afuCmdDmaWN

/-- The commands whose good response carries data. -/
def respondsWithData (command : UInt8) : Bool :=
  isPartialRead command || command = afuCmdAmoRd || command = afuCmdAmoRdN ||
    command = afuCmdAmoRw || command = afuCmdAmoRwN || isFullRead command

/-- Move on to the next part of a split response, before it is known whether it can be sent. -/
def CmdEvent.nextPart (e : CmdEvent) (cl : ℕ) : CmdEvent :=
  { e with
    respDp := if e.respBytesSent ≠ 0 then (if cl = 128 then 2 else e.respDp + 1) else e.respDp
    respDl := sizeToDl cl
    respBytesSent := (e.respBytesSent + cl) % 2 ^ 16 }

/-- The event as `handle_response` sends it. -/
def CmdEvent.prepare (e : CmdEvent) (cl : ℕ) : CmdEvent :=
  if e.type ≠ .failed ∧ (isFullRead e.command || isFullWrite e.command) ∧ cl < e.size then e.nextPart cl
  else e

/-- What is left after the response could not be sent: the byte count is backed up. -/
def CmdEvent.backUp (e : CmdEvent) (cl : ℕ) : CmdEvent :=
  if e.respBytesSent ≠ 0 then
    { e with respBytesSent := (2 ^ 16 - cl % 2 ^ 16 + e.respBytesSent) % 2 ^ 16 }
  else e

/-- The response to an event, with data for a good answer to a read. -/
def CmdEvent.response (e : CmdEvent) : Response where
  afutag := e.afutag
  opcode := e.respOpcode
  code := if e.type = .failed then e.resp else if respondsWithData e.command then 0 else e.resp
  dl := e.respDl
  dp := e.respDp
  data :=
    if e.type ≠ .failed ∧ respondsWithData e.command then
      some (e.data.read ((e.respDp &&& 3).toNat * 64) (dlToSize e.respDl))
    else none

def sendResponse (a : AfuEvent) (e : CmdEvent) (bdi : UInt8) : ℤ × AfuEvent :=
  if e.type = .failed then tlxAfuSendResp a e.respOpcode e.afutag e.resp 0 e.respDl e.respDp 0
  else if respondsWithData e.command then
    tlxAfuSendRespAndData a e.respOpcode e.afutag 0 0 e.respDl e.respDp 0 bdi e.data
  else tlxAfuSendResp a e.respOpcode e.afutag e.resp 0 e.respDl e.respDp 0

/-- `rand` is the draw of `allow_bdi_resp_err`. -/
def handleResponse (s : Ocl) (rand : ℕ) : Ocl :=
  match s.list.find? CmdEvent.responding with
  | none => s
  | some e₀ =>
    match s.getClient e₀ with
    | none => s
    | some _ =>
      let e := e₀.prepare s.parms.hostClSize
      let bdi := if percentChance s.parms.bdiRespErrPercent rand then 1 else 0
      let (rc, afuEvent) := sendResponse s.afuEvent e bdi
      if rc = tlxSuccess then
        let s := { s with afuEvent }.record [.responded e.response]
        if e.state = .xlatePending ∨ e.state = .intPending then
          s.setEvent { e with state := .pendingSent }
        else if 0 < e.respBytesSent ∧ e.respBytesSent ≠ e.size then s.setEvent e
        else (s.freeEvent e).record [.removed e.afutag]
      else (s.setEvent (e.backUp s.parms.hostClSize)).record [.refused e.afutag]

/-! ## The end of a pending command -/

/-- The first event whose pending response has been sent and that the draw does not pass over. -/
def pickPendingSent (p : Parms) (reorder : ℕ → ℕ) : List CmdEvent → Option CmdEvent
  | [] => none
  | e :: es =>
      if e.state = .pendingSent then
        if percentChance p.reorderPercent (reorder 0) then pickPendingSent p (fun n => reorder (n + 1)) es
        else some e
      else pickPendingSent p reorder es

/-- The interrupt commands are answered with `intrp_rdy`, all others with `xlate_done`. -/
def postedOpcode (command : UInt8) : UInt8 :=
  if afuCmdIntrpReq ≤ command ∧ command ≤ afuCmdWakeHostThrdS then tlxCmdIntrpRdy else tlxCmdXlateDone

/-- Post the command that ends a pending one, with the code that was drawn for it. -/
def postPending (s : Ocl) (e : CmdEvent) : Ocl :=
  let (rc, afuEvent) := tlxAfuSendPostedCmd s.afuEvent (postedOpcode e.command) e.afutag e.resp
  if rc = tlxSuccess then
    ({ s with afuEvent }.freeEvent e).record
      [.posted e.afutag (postedOpcode e.command) e.resp, .removed e.afutag]
  else s.setEvent e

def handleXlateIntrpPendingSent (s : Ocl) (d : Draws) : Ocl :=
  match pickPendingSent s.parms d.reorder s.list with
  | none => s
  | some e =>
    match s.getClient e with
    | none => s
    | some _ =>
      if percentChance s.parms.retryPercent d.retry then postPending s { e with resp := 0x02 }
      else if percentChance s.parms.failedPercent d.failed then s.setEvent { e with resp := 0x0f }
      else postPending s { e with resp := 0 }

/-! ## The client's answer -/

/-- `_handle_mem_read`: `avail` is what the socket delivers before the timeout. -/
def handleMemRead (e : CmdEvent) (avail : List UInt8) (ok : MemState) : CmdEvent × Answer :=
  if avail.length < e.size then ({ e with state := .done, type := .failed, resp := 0x0e }, .shortData)
  else ({ e with data := e.data.write e.offset (avail.take e.size), state := ok }, .success)

/-- The event after `handle_mem_return`, and what the answer was. -/
def CmdEvent.memReturn (e : CmdEvent) (avail : List UInt8) : CmdEvent × Answer :=
  match e.type with
  | .read => ({ (handleMemRead e avail .received).1 with state := .done }, (handleMemRead e avail .received).2)
  | .amoRd | .amoRw =>
      ({ (handleMemRead e avail .done).1 with size := if e.size = 4 then 2 else 3 },
        (handleMemRead e avail .done).2)
  | .write | .touch => ({ e with state := .done }, .success)
  | _ => ({ e with state := if e.state = .touch then .touched else .done }, .success)

def handleMemReturn (s : Ocl) (e : CmdEvent) (avail : List UInt8) : Ocl :=
  match s.getClient e with
  | none => s
  | some _ => (s.setEvent (e.memReturn avail).1).record [.answered e.afutag (e.memReturn avail).2]

/-- The response opcode is left as the command was added with. -/
def handleAerror (s : Ocl) (e : CmdEvent) : Ocl :=
  (s.setEvent { e with state := .done, type := .failed, resp := 0x0e }).record
    [.answered e.afutag .failure]

/-! ## Departed clients -/

/-- `client_cmd` ends every event of a departed client. -/
def CmdEvent.terminate (e : CmdEvent) : CmdEvent :=
  { e with
    state := .done
    resp :=
      if e.type = .read ∨ e.type = .write ∨ e.type = .touch then tlxResponseFailed else e.resp }

/-- An event that `client_cmd` ends when its client `c` has departed. -/
def CmdEvent.openFor (e : CmdEvent) (c : Client) : Bool := e.context = c.context && e.state ≠ .done

def terminateEvents (s : Ocl) (c : Client) : Ocl :=
  { s with
    list := s.list.map (fun e => if e.openFor c then e.terminate else e)
    trace := s.trace ++ (s.list.filter (fun e => e.openFor c)).map (fun e => Obs.terminated e.afutag) }

def clientCmd (s : Ocl) (c : Client) : Bool × Ocl :=
  match c.state with
  | .valid => (s.list.any (fun e => e.context = c.context), s)
  | .none => (false, terminateEvents s c)
  | .init => (false, s)

end Ocse
