import Ocse.Lib.BigEndian
import Ocse.Lib.Socket

/-!
# The TLX event structure

`AfuEvent` is the state that one end of the TLX socket keeps. Its signals are grouped by the interface
tables of `tlx_interface_t.h`: what the host drives to the AFU, what the AFU drives to the host, and the
credit counters either end keeps. A valid flag is a byte that the code tests against zero. The
`byteCnt` fields of the two host data groups serve the socket transfer only.

A frame is assembled in `TxBuffer` and received into `rbuf` at `rbp` by `fill`; `remaining` is the
unsigned difference `rbc - event->rbp` that the receivers pass to `recv`.
-/

namespace Ocse

/-! ## Return codes -/

def tlxSuccess : ℤ := 0
def tlxAfuDoubleCommand : ℤ := 1
def tlxAfuDoubleResp : ℤ := 5
def tlxAfuDoubleRespAndData : ℤ := 7
def afuTlxCmdNotValid : ℤ := 22
def afuTlxNoCredits : ℤ := 40
def tlxTransmissionError : ℤ := 64

/-! ## Signals from the host to the AFU -/

structure TlxCfgCmd where
  valid : UInt8
  opcode : UInt8
  capptag : UInt16
  pa : UInt64
  t : UInt8
  pl : UInt8
  dataBdi : UInt8
  dataBus : Buffer UInt8

structure TlxAfuCmd where
  valid : UInt8
  opcode : UInt8
  capptag : UInt16
  dl : UInt8
  pl : UInt8
  be : UInt64
  cmdEnd : UInt8
  pa : UInt64

structure TlxAfuCmdData where
  valid : UInt8
  dataBus : Buffer UInt8
  bdi : UInt8
  byteCnt : UInt16

structure TlxAfuResp where
  valid : UInt8
  opcode : UInt8
  afutag : UInt16
  code : UInt8
  pgSize : UInt8
  dl : UInt8
  dp : UInt8
  addrTag : UInt32

structure TlxAfuRespData where
  valid : UInt8
  data : Buffer UInt8
  bdi : UInt8
  byteCnt : UInt16

structure TlxAfuCredits where
  valid : UInt8
  cmdInitialCredit : UInt8
  cmdDataInitialCredit : UInt8
  respInitialCredit : UInt8
  respDataInitialCredit : UInt8
  respCredit : UInt8
  cmdCredit : UInt8
  respDataCredit : UInt8
  cmdDataCredit : UInt8
  cfgRespAck : UInt8

/-! ## Signals from the AFU to the host -/

structure AfuTlxCmd where
  valid : UInt8
  opcode : UInt8
  actag : UInt16
  streamId : UInt8
  eaOrObj : Buffer UInt8
  afutag : UInt16
  dl : UInt8
  pl : UInt8
  be : UInt64
  flag : UInt8
  endian : UInt8
  bdf : UInt16
  pasid : UInt32
  pgSize : UInt8

structure AfuTlxCdata where
  valid : UInt8
  bus : Buffer UInt8
  bdi : UInt8

structure AfuTlxResp where
  valid : UInt8
  opcode : UInt8
  dl : UInt8
  capptag : UInt16
  dp : UInt8
  code : UInt8

structure AfuTlxRdata where
  valid : UInt8
  bus : Buffer UInt8
  bdi : UInt8

structure CfgTlxResp where
  valid : UInt8
  opcode : UInt8
  capptag : UInt16
  code : UInt8
  rdataBdi : UInt8
  rdataBus : Buffer UInt8

structure AfuTlxCreditReq where
  valid : UInt8
  respInitialCredit : UInt8
  cmdInitialCredit : UInt8
  cfgInitialCredit : UInt8
  respCredit : UInt8
  cmdCredit : UInt8
  cfgCreditReturn : UInt8
  respRdReq : UInt8
  respRdCnt : UInt8
  cmdRdReq : UInt8
  cmdRdCnt : UInt8

/-- One end of the TLX socket. `rbuf` and `rbp` are the receive buffer and its position. -/
structure AfuEvent where
  clock : ℤ
  rbuf : Buffer UInt8
  rbp : ℕ
  tlxCfg : TlxCfgCmd
  tlxCmd : TlxAfuCmd
  tlxCmdData : TlxAfuCmdData
  tlxResp : TlxAfuResp
  tlxRespData : TlxAfuRespData
  tlxCredits : TlxAfuCredits
  afuCmd : AfuTlxCmd
  afuCdata : AfuTlxCdata
  afuResp : AfuTlxResp
  afuRdata : AfuTlxRdata
  cfgResp : CfgTlxResp
  afuCreditReq : AfuTlxCreditReq
  afuTlxCmdCreditsAvailable : UInt8
  afuTlxRespCreditsAvailable : UInt8
  cfgTlxCreditsAvailable : UInt8
  tlxAfuCmdCreditsAvailable : UInt8
  tlxAfuRespCreditsAvailable : UInt8
  tlxAfuCmdDataCreditsAvailable : UInt8
  tlxAfuRespDataCreditsAvailable : UInt8

def tlxEventReset : AfuEvent where
  clock := 0
  rbuf := Buffer.const 0
  rbp := 0
  tlxCfg := ⟨0, 0, 0, 0, 0, 0, 0, Buffer.const 0⟩
  tlxCmd := ⟨0, 0, 0, 0, 0, 0, 0, 0⟩
  tlxCmdData := ⟨0, Buffer.const 0, 0, 0⟩
  tlxResp := ⟨0, 0, 0, 0, 0, 0, 0, 0⟩
  tlxRespData := ⟨0, Buffer.const 0, 0, 0⟩
  tlxCredits := ⟨0, 0, 0, 0, 0, 0, 0, 0, 0, 0⟩
  afuCmd := ⟨0, 0, 0, 0, Buffer.const 0, 0, 0, 0, 0, 0, 0, 0, 0, 0⟩
  afuCdata := ⟨0, Buffer.const 0, 0⟩
  afuResp := ⟨0, 0, 0, 0, 0, 0⟩
  afuRdata := ⟨0, Buffer.const 0, 0⟩
  cfgResp := ⟨0, 0, 0, 0, 0, Buffer.const 0⟩
  afuCreditReq := ⟨0, 0, 0, 0, 0, 0, 0, 0, 0, 0, 0⟩
  afuTlxCmdCreditsAvailable := 0
  afuTlxRespCreditsAvailable := 0
  cfgTlxCreditsAvailable := 0
  tlxAfuCmdCreditsAvailable := 0
  tlxAfuRespCreditsAvailable := 0
  tlxAfuCmdDataCreditsAvailable := 0
  tlxAfuRespDataCreditsAvailable := 0

/-! ## The frame under construction and the receive buffer -/

/-- The transmit buffer: `tbuf[0]`, the size bytes `tbuf[1..4]` and the bytes from position 5 on. -/
structure TxBuffer where
  head : UInt8
  size₁ : UInt8
  size₂ : UInt8
  size₃ : UInt8
  size₄ : UInt8
  body : List UInt8

def TxBuffer.start (head : UInt8) : TxBuffer := ⟨head, 0, 0, 0, 0, []⟩

def TxBuffer.group (b : TxBuffer) (bit : UInt8) (bytes : List UInt8) : TxBuffer :=
  { b with head := b.head ||| bit, body := b.body ++ bytes }

/-- The bytes handed to `send`; a clock alone goes without the size bytes. -/
def TxBuffer.frame (b : TxBuffer) : List UInt8 :=
  if b.body = [] then [b.head]
  else b.head :: b.size₁ :: b.size₂ :: b.size₃ :: b.size₄ :: b.body

/-- Receive up to `n` bytes at `rbuf + rbp`. The code to return when nothing was stored is `0` for
`EWOULDBLOCK` and `-1` for an error or a closed socket. -/
def AfuEvent.fill (e : AfuEvent) (s : Socket) (n : ℕ) : Option ℤ × AfuEvent × Socket :=
  match s.recv n with
  | (.wouldBlock, s) => (some 0, e, s)
  | (.failed, s) => (some (-1), e, s)
  | (.got [], s) => (some (-1), e, s)
  | (.got bytes, s) =>
      (none, { e with rbuf := e.rbuf.write e.rbp bytes, rbp := e.rbp + bytes.length }, s)

def remaining (rbc rbp : ℕ) : ℕ := (2 ^ 32 - rbp + rbc) % 2 ^ 32

theorem AfuEvent.fill_append (e : AfuEvent) (s : Socket) (bytes rest : List UInt8)
    (hall : s.arrivals = []) (hstream : s.stream = bytes ++ rest) (hne : bytes ≠ []) :
    e.fill s bytes.length = (none, { e with
      rbuf := e.rbuf.write e.rbp bytes
      rbp := e.rbp + bytes.length }, { s with stream := rest }) := by
  unfold AfuEvent.fill
  rw [s.recv_append bytes rest hall hstream hne]
  cases bytes with
  | nil => exact absurd rfl hne
  | cons x xs => rfl

end Ocse
