import Ocse.TlxGet

/-!
# Frames and their headers

A frame is a header, whose first byte names the groups that follow, and the groups' bytes in order.
`groupBit` and `groupBytes` are what one group contributes to a frame; the lemmas here follow the bytes
of a frame through the three reads of a receiver, whichever side it is.
-/

namespace Ocse

/-- A valid flag as the receiver of a frame sets it. -/
def validFlag (valid : UInt8) : UInt8 := if valid ≠ 0 then 1 else 0

def groupBit (valid bit : UInt8) : UInt8 := if valid ≠ 0 then bit else 0

def groupBytes (valid : UInt8) (bytes : List UInt8) : List UInt8 := if valid ≠ 0 then bytes else []

@[simp] theorem validFlag_zero : validFlag 0 = 0 := rfl

theorem groupBytes_of_ne {valid : UInt8} (h : valid ≠ 0) (bytes : List UInt8) :
    groupBytes valid bytes = bytes := if_pos h

theorem groupBytes_of_eq {valid : UInt8} (h : valid = 0) (bytes : List UInt8) :
    groupBytes valid bytes = [] := if_neg (not_not.mpr h)

theorem length_groupBytes (valid : UInt8) (bytes : List UInt8) :
    (groupBytes valid bytes).length = if valid ≠ 0 then bytes.length else 0 := by
  unfold groupBytes
  split <;> rfl

theorem length_groupBytes_le (valid : UInt8) (bytes : List UInt8) :
    (groupBytes valid bytes).length ≤ bytes.length := by
  rw [length_groupBytes]
  split <;> omega

theorem groupBit_eq_cond (valid bit : UInt8) :
    groupBit valid bit = cond (decide (valid ≠ 0)) bit 0 :=
  (Bool.cond_decide _ _ _).symm

def TxBuffer.header (b : TxBuffer) : List UInt8 := [b.head, b.size₁, b.size₂, b.size₃, b.size₄]

@[simp] theorem TxBuffer.length_header (b : TxBuffer) : b.header.length = 5 := rfl

theorem TxBuffer.frame_of_ne (b : TxBuffer) (h : b.body ≠ []) : b.frame = b.header ++ b.body := by
  simp [TxBuffer.frame, TxBuffer.header, h]

theorem TxBuffer.frame_of_eq (b : TxBuffer) (h : b.body = []) : b.frame = [b.head] := by
  simp [TxBuffer.frame, h]

theorem present_congr {rbuf : Buffer UInt8} {b : TxBuffer} (h : rbuf.Holds 0 b.header) (bit : UInt8) :
    present rbuf bit ↔ b.head &&& bit ≠ 0 := by
  have hhead : rbuf 0 = b.head := ((Buffer.holds_cons _ _ _ _).mp h).1
  rw [present, hhead]

/-- A byte count below the twelve bits that are sent comes back as it was. -/
theorem loadBE_size (rbuf : Buffer UInt8) (pos : ℕ) (cnt : UInt16) (hcnt : cnt.toNat < 4096)
    (h₁ : rbuf pos = UInt8.ofNat (cnt.toNat >>> 8) &&& 0x0F) (h₂ : rbuf (pos + 1) = UInt8.ofNat cnt.toNat) :
    loadBE rbuf pos 2 = cnt.toNat := by
  have hhi : (UInt8.ofNat (cnt.toNat >>> 8) &&& 0x0F).toNat = cnt.toNat / 256 := by
    rw [UInt8.toNat_and, UInt8.toNat_ofNat', Nat.shiftRight_eq_div_pow]
    have hmask : (0x0F : UInt8).toNat = 2 ^ 4 - 1 := rfl
    rw [hmask, Nat.and_two_pow_sub_one_eq_mod]
    omega
  have hlo : (UInt8.ofNat cnt.toNat).toNat = cnt.toNat % 256 := by simp
  rw [loadBE_succ, loadBE_succ, loadBE_zero, Nat.add_zero, h₁, h₂, hhi, hlo]
  omega

/-- The first read of a receiver at rest takes the first byte of the stream. -/
theorem AfuEvent.fillHead_cons (e : AfuEvent) (s : Socket) (x : UInt8) (rest : List UInt8)
    (hrbp : e.rbp = 0) (hall : s.arrivals = []) (hstream : s.stream = x :: rest) :
    e.fillHead s = (none, { e with rbuf := e.rbuf.write 0 [x], rbp := 1 }, { s with stream := rest }) := by
  have hfill := e.fill_append s [x] rest hall (by rw [hstream]; rfl) (by simp)
  rw [AfuEvent.fillHead, if_pos hrbp]
  rw [hrbp] at hfill
  exact hfill

/-- The second read takes the four size bytes. -/
theorem AfuEvent.fill_sizes (e : AfuEvent) (s : Socket) (b : TxBuffer) (old : Buffer UInt8)
    (rest : List UInt8) (hrbuf : e.rbuf = old.write 0 [b.head]) (hrbp : e.rbp = 1)
    (hall : s.arrivals = []) (hstream : s.stream = b.header.tail ++ rest) :
    e.fill s 4 = (none, { e with rbuf := old.write 0 b.header, rbp := 5 }, { s with stream := rest }) := by
  have hfill := e.fill_append s b.header.tail rest hall hstream (by simp [TxBuffer.header])
  have hwrite := old.write_append 0 [b.head] b.header.tail
  rw [hrbuf, hrbp] at hfill
  rw [← show [b.head] ++ b.header.tail = b.header from rfl, ← hwrite]
  exact hfill

/-- The third read takes the rest of the frame, whose length the header gave. -/
theorem AfuEvent.fill_body (e : AfuEvent) (s : Socket) (b : TxBuffer) (old : Buffer UInt8)
    (rest : List UInt8) (hrbuf : e.rbuf = old.write 0 b.header) (hrbp : e.rbp = 5)
    (hall : s.arrivals = []) (hstream : s.stream = b.body ++ rest) (hne : b.body ≠ [])
    (hlt : b.body.length < 2 ^ 32 - 5) :
    e.fill s (remaining (5 + b.body.length) e.rbp) = (none, { e with
      rbuf := old.write 0 (b.header ++ b.body)
      rbp := 5 + b.body.length }, { s with stream := rest }) := by
  have hrem : remaining (5 + b.body.length) e.rbp = b.body.length := by
    rw [hrbp, remaining]
    omega
  have hfill := e.fill_append s b.body rest hall hstream hne
  rw [hrem, hfill, hrbuf, hrbp, ← old.write_append 0 b.header b.body, TxBuffer.length_header,
    Nat.zero_add]

end Ocse
