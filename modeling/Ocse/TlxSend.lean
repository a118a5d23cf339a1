import Ocse.AfuEvent

/-!
# Staging responses and reading commands

The host's side of the TLX interface as the command engine calls it: a response takes one of the
AFU's response credits and the response slot, which `tlx_signal_afu_model` empties; a command is read
once. The three staging functions fail without touching the event.
-/

namespace Ocse

/-! ## Data lengths -/

/-- `dl_to_size`; an unsupported length is the unsigned view of `-1`. -/
def dlToSize (dl : UInt8) : ℕ :=
  if dl = 1 then 64 else if dl = 2 then 128 else if dl = 3 then 256 else 2 ^ 32 - 1

def plToSize (pl : UInt8) : ℕ :=
  if pl = 0 then 1 else if pl = 1 then 2 else if pl = 2 then 4 else if pl = 3 then 8
  else if pl = 4 then 16 else if pl = 5 then 32 else 2 ^ 32 - 1

/-- `size_to_dl`; a size with no encoding gives `-1` as a byte. -/
def sizeToDl (size : ℕ) : UInt8 :=
  if size = 64 then 1 else if size = 128 then 2 else if size = 256 then 3 else 0xFF

/-! ## Responses -/

def tlxAfuSendResp (e : AfuEvent) (opcode : UInt8) (afutag : UInt16) (code pgSize dl dp : UInt8)
    (addrTag : UInt32) : ℤ × AfuEvent :=
  if e.afuTlxRespCreditsAvailable = 0 then (afuTlxNoCredits, e)
  else if e.tlxResp.valid ≠ 0 then (tlxAfuDoubleResp, e)
  else (tlxSuccess, { e with
    tlxResp := ⟨1, opcode, afutag, code, pgSize, dl, dp, addrTag⟩
    afuTlxRespCreditsAvailable := e.afuTlxRespCreditsAvailable - 1 })

/-- The data is taken from the event's buffer at the part that `dp` names. -/
def tlxAfuSendRespAndData (e : AfuEvent) (opcode : UInt8) (afutag : UInt16) (code pgSize dl dp : UInt8)
    (addrTag : UInt32) (bdi : UInt8) (data : Buffer UInt8) : ℤ × AfuEvent :=
  if e.afuTlxRespCreditsAvailable = 0 then (afuTlxNoCredits, e)
  else if e.tlxResp.valid = 1 ∨ e.tlxRespData.valid = 1 then (tlxAfuDoubleRespAndData, e)
  else (tlxSuccess, { e with
    tlxResp := ⟨1, opcode, afutag, code, pgSize, dl, dp, addrTag⟩
    tlxRespData :=
      { valid := 1
        data := e.tlxRespData.data.write 0 (data.read ((dp &&& 3).toNat * 64) (dlToSize dl))
        bdi := bdi
        byteCnt := UInt16.ofNat (dlToSize dl) }
    afuTlxRespCreditsAvailable := e.afuTlxRespCreditsAvailable - 1 })

def tlxAfuSendPostedCmd (e : AfuEvent) (opcode : UInt8) (afutag : UInt16) (code : UInt8) :
    ℤ × AfuEvent :=
  if e.afuTlxRespCreditsAvailable = 0 then (afuTlxNoCredits, e)
  else if e.tlxResp.valid ≠ 0 then (tlxAfuDoubleResp, e)
  else (tlxSuccess, { e with
    tlxResp := ⟨1, opcode, afutag, code, 0, 0, 0, 0⟩
    afuTlxRespCreditsAvailable := e.afuTlxRespCreditsAvailable - 1 })

/-! ## Commands -/

/-- The command on the interface and whether data came with it; both flags are taken down. -/
def afuTlxReadCmdAndData (e : AfuEvent) : Option (AfuTlxCmd × Bool) × AfuEvent :=
  if e.afuCmd.valid = 0 then (none, e)
  else (some (e.afuCmd, decide (e.afuCdata.valid ≠ 0)), { e with
    afuCmd := { e.afuCmd with valid := 0 }
    afuCdata := { e.afuCdata with valid := 0 } })

def afuTlxReadCmdData (e : AfuEvent) : Bool × AfuEvent :=
  if e.afuCdata.valid ≠ 0 then (true, { e with afuCdata := { e.afuCdata with valid := 0 } })
  else (false, e)

/-! ## When a response is taken -/

/-- A credit is left and neither the response nor its data is staged. -/
def AfuEvent.RespReady (e : AfuEvent) : Prop :=
  e.afuTlxRespCreditsAvailable ≠ 0 ∧ e.tlxResp.valid = 0 ∧ e.tlxRespData.valid = 0

theorem tlxAfuSendResp_of_ready (e : AfuEvent) (h : e.RespReady) (opcode : UInt8) (afutag : UInt16)
    (code pgSize dl dp : UInt8) (addrTag : UInt32) :
    (tlxAfuSendResp e opcode afutag code pgSize dl dp addrTag).1 = tlxSuccess ∧
      (tlxAfuSendResp e opcode afutag code pgSize dl dp addrTag).2.tlxResp.valid = 1 := by
  obtain ⟨hcredit, hresp, -⟩ := h
  simp [tlxAfuSendResp, hcredit, hresp]

theorem tlxAfuSendRespAndData_of_ready (e : AfuEvent) (h : e.RespReady) (opcode : UInt8)
    (afutag : UInt16) (code pgSize dl dp : UInt8) (addrTag : UInt32) (bdi : UInt8)
    (data : Buffer UInt8) :
    (tlxAfuSendRespAndData e opcode afutag code pgSize dl dp addrTag bdi data).1 = tlxSuccess ∧
      (tlxAfuSendRespAndData e opcode afutag code pgSize dl dp addrTag bdi data).2.tlxResp.valid = 1 := by
  obtain ⟨hcredit, hresp, hdata⟩ := h
  simp [tlxAfuSendRespAndData, hcredit, hresp, hdata]

end Ocse
