import Ocse.AfuFrame
import Ocse.HostFrame

/-!
# One receiver for both ends

`tlx_get_afu_events` and `tlx_get_tlx_events` are the same function but for what they do about a clock, how
long a frame is and how its groups are parsed. `Receiver` says what the two have in common: the head action
looks at the first byte only, lengths and counts at the first five. `repeats` are the heads whose action is
not idle the second time: a clock is lowered again without effect, but it is answered again with a frame.
-/

namespace Ocse

structure Receiver where
  clockByte : UInt8
  onHead : AfuEvent → AfuEvent × List UInt8
  length : Buffer UInt8 → ℕ
  counts : Buffer UInt8 → ℕ × ℕ
  parse : AfuEvent → ℕ × ℕ → AfuEvent
  repeats : UInt8 → Bool
  onHead_rbuf : ∀ e, (onHead e).1.rbuf = e.rbuf
  onHead_rbp : ∀ e, (onHead e).1.rbp = e.rbp
  onHead_again : ∀ e rbuf rbp, rbuf 0 = e.rbuf 0 → repeats (e.rbuf 0) = false →
    onHead { (onHead e).1 with rbuf, rbp } = ({ (onHead e).1 with rbuf, rbp }, [])
  sizes_congr : ∀ b c : Buffer UInt8, (∀ i < 5, b i = c i) → length b = length c ∧ counts b = counts c
  length_lt : ∀ b, length b < 2 ^ 32
  parse_rbp : ∀ e cnt, (parse e cnt).rbp = 0
  parse_rbuf : ∀ e cnt, (parse e cnt).rbuf = e.rbuf

/-- The call when the head has been dealt with. -/
def Receiver.body (R : Receiver) (e : AfuEvent) (s : Socket) : ℤ × AfuEvent × Socket :=
  match e.fill s 4 with
  | (some rc, e, s) => (rc, e, s)
  | (none, e, s) =>
    let rbc := R.length e.rbuf
    let counts := R.counts e.rbuf
    match e.fill s (remaining rbc e.rbp) with
    | (some rc, e, s) => (rc, e, s)
    | (none, e, s) => if e.rbp < rbc then (0, e, s) else (1, R.parse e counts, s)

def Receiver.get (R : Receiver) (e : AfuEvent) (s : Socket) : ℤ × AfuEvent × Socket :=
  match e.fillHead s with
  | (some rc, e, s) => (rc, e, s)
  | (none, e, s) =>
    let (e, frame) := R.onHead e
    let s := s.send frame
    if e.rbuf 0 = R.clockByte then (1, { e with rbp := 0 }, s) else R.body e s

/-! ## The two receivers -/

theorem present_of_eq {b c : Buffer UInt8} (h : b 0 = c 0) (bit : UInt8) : present b bit ↔ present c bit := by
  rw [present, present, h]

theorem byteCnt_congr {b c : Buffer UInt8} (h : ∀ i < 5, b i = c i) (bit : UInt8) (pos : ℕ) (hpos : pos + 1 < 5) :
    byteCnt b bit pos = byteCnt c bit pos := by
  have h₁ := h pos (by omega)
  have h₂ := h (pos + 1) hpos
  have hload : loadBE b pos 2 = loadBE c pos 2 := by
    simp only [loadBE_succ, loadBE_zero, Nat.add_zero, h₁, h₂]
  simp only [byteCnt, present_of_eq (h 0 (by omega)), hload]

theorem byteCnt_lt (b : Buffer UInt8) (bit : UInt8) (pos : ℕ) : byteCnt b bit pos < 2 ^ 16 := by
  have h₁ := (b pos).toNat_lt
  have h₂ := (b (pos + 1)).toNat_lt
  unfold byteCnt
  split_ifs
  · simp only [loadBE_succ, loadBE_zero, Nat.add_zero]
    omega
  · decide

/-- The host: `tlx_get_afu_events`. -/
def hostReceiver : Receiver where
  clockByte := 0x10
  onHead e := (lowerClock e, [])
  length := afuEventsLength
  counts rbuf := (byteCnt rbuf 0x04 1, 0)
  parse e cnt := parseAfuEvents e cnt.1
  repeats _ := false
  onHead_rbuf e := by
    unfold lowerClock
    split <;> rfl
  onHead_rbp e := by
    unfold lowerClock
    split <;> rfl
  onHead_again e rbuf rbp hhead _ := by
    have hpresent := present_of_eq hhead 0x10
    unfold lowerClock
    by_cases h : present e.rbuf 0x10
    · simp only [if_pos h, if_pos (hpresent.mpr h)]
    · simp only [if_neg h]
      rw [if_neg (fun h' => h (hpresent.mp h'))]
  sizes_congr b c h := by
    refine ⟨?_, by rw [byteCnt_congr h 0x04 1 (by decide)]⟩
    simp only [afuEventsLength, byteCnt_congr h 0x20 3 (by decide), byteCnt_congr h 0x04 1 (by decide),
      present_of_eq (h 0 (by decide))]
  length_lt b := by
    have h₁ := byteCnt_lt b 0x20 3
    have h₂ := byteCnt_lt b 0x04 1
    unfold afuEventsLength
    split_ifs <;> omega
  parse_rbp e cnt := by
    unfold parseAfuEvents AfuEvent.countReturns
    simp only
    split <;> rfl
  parse_rbuf e cnt := by
    unfold parseAfuEvents AfuEvent.countReturns
    simp only
    split <;> rfl

theorem tlxGetAfuEvents_eq (e : AfuEvent) (s : Socket) : tlxGetAfuEvents e s = hostReceiver.get e s := by
  have hsend : ∀ s : Socket, s.send [] = s := fun s => by simp [Socket.send]
  unfold tlxGetAfuEvents Receiver.get Receiver.body
  simp only [hostReceiver, hsend]
  rfl

/-- The AFU: `tlx_get_tlx_events`. -/
def afuReceiver : Receiver where
  clockByte := 0x40
  onHead e := if present e.rbuf 0x40 then (tlxSignalTlxModel { e with clock := 1 }).2 else (e, [])
  length := tlxEventsLength
  counts rbuf := (byteCnt rbuf 0x08 1, byteCnt rbuf 0x02 3)
  parse e cnt := parseTlxEvents e cnt.1 cnt.2
  repeats head := head &&& 0x40 ≠ 0
  onHead_rbuf e := by
    split
    · exact tlxSignalTlxModel_rbuf _
    · rfl
  onHead_rbp e := by
    split
    · exact tlxSignalTlxModel_rbp _
    · rfl
  onHead_again e rbuf rbp hhead hrepeats := by
    have hpresent := present_of_eq hhead 0x40
    have hnot : ¬present e.rbuf 0x40 := by
      intro h
      have hne : e.rbuf 0 &&& 0x40 ≠ 0 := h
      simp [hne] at hrepeats
    simp only [if_neg hnot]
    rw [if_neg (fun h => hnot (hpresent.mp h))]
  sizes_congr b c h := by
    refine ⟨?_, by rw [byteCnt_congr h 0x08 1 (by decide), byteCnt_congr h 0x02 3 (by decide)]⟩
    simp only [tlxEventsLength, byteCnt_congr h 0x08 1 (by decide), byteCnt_congr h 0x02 3 (by decide),
      present_of_eq (h 0 (by decide))]
  length_lt b := by
    have h₁ := byteCnt_lt b 0x08 1
    have h₂ := byteCnt_lt b 0x02 3
    unfold tlxEventsLength
    split_ifs <;> omega
  parse_rbp e cnt := rfl
  parse_rbuf e cnt := rfl

theorem tlxGetTlxEvents_eq (e : AfuEvent) (s : Socket) : tlxGetTlxEvents e s = afuReceiver.get e s := by
  have hanswer : ∀ (e : AfuEvent) (s : Socket),
      answerClock e s = ((afuReceiver.onHead e).1, s.send (afuReceiver.onHead e).2) := by
    intro e s
    unfold answerClock
    simp only [afuReceiver]
    split
    · rfl
    · simp [Socket.send]
  unfold tlxGetTlxEvents Receiver.get Receiver.body
  simp only [hanswer]
  rfl

end Ocse
