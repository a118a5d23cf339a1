import Ocse.Receiver

/-!
# Frames that arrive in pieces

A receiver that is called again for a frame starts from the top: it deals with the clock again and reads
four bytes as if they were the sizes. They go to their place, since they are stored at `rbp`, but four
bytes may be all that is left of the frame, or more than that; and when fewer than the four size bytes
have come, the length is worked out from bytes of an earlier frame. `orderly` is the condition on the state
before a call that rules this out; calls that meet it see what they would see if every frame arrived whole.
-/

namespace Ocse

/-! ## Frames and how they arrive -/

/-- A clock alone, or a frame whose header says how long it is. -/
def Receiver.WellFormed (R : Receiver) (f : List UInt8) : Prop :=
  f = [R.clockByte] ∨ (f.headD 0 ≠ R.clockByte ∧ 5 < f.length ∧ R.length ((Buffer.const 0).write 0 f) = f.length)

/-- The second and third read: the four bytes do not reach the end of the frame, and what is left of the
size bytes of an earlier frame gives the same lengths, or the call does not come to the end of either. -/
def Receiver.bodyOrderly (R : Receiver) (e : AfuEvent) (s : Socket) : Bool :=
  let view := (Buffer.const 0).write 0 (e.rbuf.read 0 e.rbp ++ s.stream)
  let k := s.ready 4
  let early := e.rbuf.write e.rbp (s.stream.take k)
  let m := (s.after k).ready (R.length early - (e.rbp + k))
  k = 0 || (e.rbp + k < R.length view &&
    ((R.length early = R.length view && R.counts early = R.counts view) ||
      (e.rbp + k + m < R.length view && e.rbp + k + m < R.length early)))

/-- The event and the socket when the first byte of a frame has been read, or had been before. -/
def AfuEvent.headRead (e : AfuEvent) (s : Socket) : AfuEvent × Socket :=
  if e.rbp = 0 then ({ e with rbuf := e.rbuf.write 0 (s.stream.take 1), rbp := 1 }, s.after 1) else (e, s)

def Receiver.orderly (R : Receiver) (e : AfuEvent) (s : Socket) : Bool :=
  let (e', s') := e.headRead s
  (e.rbp = 0 && s.ready 1 = 0) || e'.rbuf 0 = R.clockByte ||
    ((e.rbp = 0 || !R.repeats (e.rbuf 0)) && R.bodyOrderly e' s')

/-! ## Whole frames -/

/-- The event when the head of a frame has been dealt with, and the answer to a clock. -/
def Receiver.headed (R : Receiver) (e : AfuEvent) (f : List UInt8) : AfuEvent × List UInt8 :=
  R.onHead { e with rbuf := e.rbuf.write 0 (f.take 1), rbp := 1 }

/-- The event when `n` bytes of a frame have come. -/
def Receiver.partway (R : Receiver) (e : AfuEvent) (f : List UInt8) (n : ℕ) : AfuEvent :=
  { (R.headed e f).1 with rbuf := e.rbuf.write 0 (f.take n), rbp := n }

/-- The event that is reported for a frame. -/
def Receiver.reported (R : Receiver) (e : AfuEvent) (f : List UInt8) : AfuEvent :=
  if f.length = 1 then { (R.headed e f).1 with rbp := 0 }
  else R.parse (R.partway e f f.length) (R.counts (e.rbuf.write 0 f))

section Body

variable (R : Receiver) {e : AfuEvent} {f : List UInt8} {n : ℕ}

/-- The next bytes of the stream go to their place in the frame. -/
theorem Receiver.partway_write {stream rest : List UInt8} (hlt : n < f.length) (hstream : stream = f.drop n ++ rest)
    {k : ℕ} (hk : k ≤ f.length - n) : (stream.take k).length = k ∧
      (R.partway e f n).rbuf.write n (stream.take k) = (R.partway e f (n + k)).rbuf := by
  have htake : stream.take k = (f.drop n).take k := by
    rw [hstream, List.take_append_of_le_length (by rw [List.length_drop]; exact hk)]
  have hsplit := e.rbuf.write_append 0 (f.take n) ((f.drop n).take k)
  rw [List.length_take, Nat.min_eq_left (Nat.le_of_lt hlt), Nat.zero_add, ← List.take_add] at hsplit
  rw [htake]
  refine ⟨?_, hsplit⟩
  rw [List.length_take, List.length_drop]
  omega

/-- One more piece of a frame. -/
theorem Receiver.fill_partway {s : Socket} {rest : List UInt8} (hopen : s.Open) (hlt : n < f.length)
    (hstream : s.stream = f.drop n ++ rest) {ask : ℕ} (hask : ask ≠ 0) (hfits : s.ready ask ≤ f.length - n) :
    (R.partway e f n).fill s ask =
      if s.ready ask = 0 then (some 0, R.partway e f n, s.after 0)
      else (none, R.partway e f (n + s.ready ask), s.after (s.ready ask)) := by
  obtain ⟨hlength, hwrite⟩ := R.partway_write (e := e) hlt hstream hfits
  unfold AfuEvent.fill
  rw [s.recv_ready hask hopen]
  by_cases hzero : s.ready ask = 0
  · rw [if_pos hzero, if_pos hzero]
  · rw [if_neg hzero, if_neg hzero]
    generalize s.stream.take (s.ready ask) = bytes at hlength hwrite
    cases bytes with
    | nil => exact absurd hlength.symm hzero
    | cons x xs =>
      have hrbp : (R.partway e f n).rbp = n := rfl
      simp only [hrbp, hwrite, hlength]
      rfl

/-- What a call leaves of the socket. -/
structure Leaves (s : Socket) (stream : List UInt8) (s' : Socket) : Prop where
  stream : s'.stream = stream
  sent : s'.sent = s.sent
  isOpen : s'.Open
  fewer : s'.arrivals.length ≤ s.arrivals.length

theorem leaves_after {s : Socket} {rest : List UInt8} (hopen : s.Open) (hstream : s.stream = f.drop n ++ rest) {k : ℕ}
    (hk : k ≤ f.length - n) : Leaves s (f.drop (n + k) ++ rest) (s.after k) := by
  refine ⟨?_, rfl, hopen.after k, ?_⟩
  · change s.stream.drop k = _
    rw [hstream, List.drop_append_of_le_length (by rw [List.length_drop]; exact hk), List.drop_drop]
  · change s.arrivals.tail.length ≤ s.arrivals.length
    rw [List.length_tail]
    omega

theorem Leaves.trans {s s' s'' : Socket} {stream stream' : List UInt8} (h : Leaves s stream s')
    (h' : Leaves s' stream' s'') : Leaves s stream' s'' :=
  ⟨h'.stream, h'.sent.trans h.sent, h'.isOpen, Nat.le_trans h'.fewer h.fewer⟩

/-- A call that finds less than it asked for, while there is more to come, has used up an arrival. -/
theorem after_fewer {s : Socket} (ask : ℕ) (hshort : s.ready ask < ask) (hmore : s.ready ask < s.stream.length)
    (k : ℕ) : (s.after k).arrivals.length < s.arrivals.length := by
  cases harr : s.arrivals with
  | nil =>
    rw [Socket.ready_of_arrived harr] at hshort hmore
    omega
  | cons a rest =>
    change s.arrivals.tail.length < _
    rw [harr]
    exact Nat.lt_succ_self _

theorem write_take_agrees {b c : Buffer UInt8} (xs ys : List UInt8) {i : ℕ} (hi : i < xs.length) :
    b.write 0 (xs ++ ys) i = c.write 0 xs i := by
  have h₁ := b.write_at 0 (xs ++ ys) i (by rw [List.length_append]; omega)
  have h₂ := c.write_at 0 xs i hi
  rw [Nat.zero_add] at h₁ h₂
  rw [h₁, h₂]
  exact List.getElem_append_left hi

/-- The sizes of a frame do not depend on what is behind it or was there before. -/
theorem Receiver.sizes_frame (h : 5 < f.length) (b c : Buffer UInt8) (rest : List UInt8) :
    R.length (b.write 0 (f ++ rest)) = R.length (c.write 0 f) ∧
      R.counts (b.write 0 (f ++ rest)) = R.counts (c.write 0 f) :=
  R.sizes_congr _ _ (fun i hi => write_take_agrees f rest (by omega))

theorem remaining_eq {rbc rbp : ℕ} (hle : rbp ≤ rbc) (hlt : rbc < 2 ^ 32) : remaining rbc rbp = rbc - rbp := by
  unfold remaining
  omega

/-- A call on a frame that is under way: it gets further, or it reports the frame. -/
theorem Receiver.body_orderly (hlong : 5 < f.length)
    (hlength : R.length ((Buffer.const 0).write 0 f) = f.length) (hlt : n < f.length) {s : Socket}
    {rest : List UInt8} (hopen : s.Open) (hstream : s.stream = f.drop n ++ rest)
    (horderly : R.bodyOrderly (R.partway e f n) s = true) :
    (∃ n' s', R.body (R.partway e f n) s = (0, R.partway e f n', s') ∧ n ≤ n' ∧ n' < f.length ∧
      Leaves s (f.drop n' ++ rest) s' ∧ s'.arrivals.length < s.arrivals.length) ∨
    (∃ s', R.body (R.partway e f n) s = (1, R.reported e f, s') ∧ Leaves s rest s') := by
  have hread : (e.rbuf.write 0 (f.take n)).read 0 n = f.take n := by
    have h := Buffer.read_eq_of_holds (Buffer.holds_write e.rbuf 0 (f.take n))
    rw [List.length_take, Nat.min_eq_left (Nat.le_of_lt hlt)] at h
    exact h
  have hview : (R.partway e f n).rbuf.read 0 (R.partway e f n).rbp ++ s.stream = f ++ rest := by
    change (e.rbuf.write 0 (f.take n)).read 0 n ++ s.stream = _
    rw [hread, hstream, ← List.append_assoc, List.take_append_drop]
  have hsizes := R.sizes_frame hlong (Buffer.const 0) (Buffer.const 0) rest
  rw [hlength] at hsizes
  have hstreamLength : s.stream.length = f.length - n + rest.length := by
    rw [hstream, List.length_append, List.length_drop]
  unfold Receiver.bodyOrderly at horderly
  simp only [hview, hsizes.1, hsizes.2, Bool.or_eq_true, Bool.and_eq_true, decide_eq_true_eq] at horderly
  unfold Receiver.body
  by_cases hzero : s.ready 4 = 0
  · -- nothing has arrived for the second read
    rw [R.fill_partway hopen hlt hstream (by decide) (by omega), if_pos hzero]
    have hleaves := leaves_after hopen hstream (Nat.zero_le (f.length - n))
    exact .inl ⟨n, s.after 0, rfl, Nat.le_refl n, hlt, hleaves, after_fewer 4 (by omega) (by omega) 0⟩
  · obtain ⟨hbefore, hagree⟩ := horderly.resolve_left hzero
    have hrbp : (R.partway e f n).rbp = n := rfl
    rw [hrbp] at hbefore hagree
    have hfill := R.fill_partway (e := e) hopen hlt hstream (show 4 ≠ 0 by decide) (by omega)
    generalize s.ready 4 = k at hzero hbefore hagree hfill
    rw [if_neg hzero] at hfill
    obtain ⟨-, hearly⟩ := R.partway_write (e := e) hlt hstream (k := k) (by omega)
    have hleaves := leaves_after (k := k) hopen hstream (by omega)
    rw [hearly] at hagree
    rw [hfill]
    dsimp only
    have hrbp' : (R.partway e f (n + k)).rbp = n + k := rfl
    have hlt' : n + k < f.length := hbefore
    have hmore : (s.after k).stream.length = f.length - (n + k) + rest.length := by
      rw [hleaves.stream, List.length_append, List.length_drop]
    rw [hrbp']
    generalize hrbc : R.length (R.partway e f (n + k)).rbuf = rbc at hagree
    have hrange : rbc < 2 ^ 32 := hrbc ▸ R.length_lt _
    have hle : n + k ≤ rbc := by omega
    rw [remaining_eq hle hrange]
    have hready := (s.after k).ready_le (rbc - (n + k))
    have hfill' := R.fill_partway (e := e) hleaves.isOpen hlt' hleaves.stream (show rbc - (n + k) ≠ 0 by omega)
      (by omega)
    generalize hm : (s.after k).ready (rbc - (n + k)) = m at hagree hready hfill'
    have hleaves' : m ≤ f.length - (n + k) →
        Leaves s (f.drop (n + k + m) ++ rest) ((s.after k).after m) :=
      fun hle => hleaves.trans (leaves_after hleaves.isOpen hleaves.stream hle)
    have hstrict : m < rbc - (n + k) → m < f.length - (n + k) →
        ((s.after k).after m).arrivals.length < s.arrivals.length := by
      intro hshort hless
      have hfewer := after_fewer (s := s.after k) (rbc - (n + k)) (by omega) (by omega) m
      exact Nat.lt_of_lt_of_le hfewer hleaves.fewer
    by_cases hnone : m = 0
    · rw [hfill', if_pos hnone]
      subst hnone
      exact .inl ⟨n + k, _, rfl, by omega, hlt', hleaves' (by omega), hstrict (by omega) (by omega)⟩
    · rw [hfill', if_neg hnone]
      dsimp only
      have hrbp'' : (R.partway e f (n + k + m)).rbp = n + k + m := rfl
      rw [hrbp'']
      by_cases hshort : n + k + m < rbc
      · rw [if_pos hshort]
        exact .inl ⟨n + k + m, _, rfl, by omega, by omega, hleaves' (by omega), hstrict (by omega) (by omega)⟩
      · -- the lengths were right, and the whole frame is there
        have hcounts : rbc = f.length ∧ R.counts (R.partway e f (n + k)).rbuf =
            R.counts ((Buffer.const 0).write 0 f) := by
          rcases hagree with hagree | hagree
          · exact hagree
          · omega
        obtain ⟨hframe, hcounts⟩ := hcounts
        have hall : n + k + m = f.length := by omega
        have hdone := hleaves' (by omega)
        rw [hall, List.drop_length, List.nil_append] at hdone
        have hreported : R.reported e f = R.parse (R.partway e f f.length)
            (R.counts (R.partway e f (n + k)).rbuf) := by
          have hsame := (R.sizes_frame hlong e.rbuf (Buffer.const 0) []).2
          rw [List.append_nil] at hsame
          rw [Receiver.reported, if_neg (by omega), hcounts, hsame]
        rw [if_neg hshort, hall, hreported]
        exact .inr ⟨_, rfl, hdone⟩

end Body

/-! ## One call -/

/-- Between two frames, or in the middle of one: `e` is the event that was last reported, `sent` what had
been answered then, and the frames are those that were not reported yet. -/
inductive Receiver.At (R : Receiver) (e : AfuEvent) (sent : List UInt8) : List (List UInt8) → AfuEvent → Socket → Prop
  | idle (fs : List (List UInt8)) (s : Socket) (hrbp : e.rbp = 0) (hopen : s.Open) (hstream : s.stream = fs.flatten)
      (hsent : s.sent = sent) : R.At e sent fs e s
  | partway (f : List UInt8) (fs : List (List UInt8)) (n : ℕ) (s : Socket) (hrbp : e.rbp = 0) (hn : 0 < n)
      (hlt : n < f.length) (hopen : s.Open) (hstream : s.stream = f.drop n ++ fs.flatten)
      (hsent : s.sent = sent ++ (R.headed e f).2) : R.At e sent (f :: fs) (R.partway e f n) s

/-- A frame of more than a clock. -/
theorem Receiver.WellFormed.long {R : Receiver} {f : List UInt8} (h : R.WellFormed f)
    (hclock : f.headD 0 ≠ R.clockByte) :
    5 < f.length ∧ R.length ((Buffer.const 0).write 0 f) = f.length := by
  rcases h with rfl | ⟨-, hlong, hlength⟩
  · exact absurd rfl hclock
  · exact ⟨hlong, hlength⟩

theorem Receiver.WellFormed.clock {R : Receiver} {f : List UInt8} (h : R.WellFormed f)
    (hclock : f.headD 0 = R.clockByte) : f.length = 1 := by
  rcases h with rfl | ⟨hne, -, -⟩
  · rfl
  · exact absurd hclock hne

theorem Receiver.WellFormed.pos {R : Receiver} {f : List UInt8} (h : R.WellFormed f) : 0 < f.length := by
  rcases h with rfl | ⟨-, hlong, -⟩
  · exact Nat.one_pos
  · omega

section Call

variable (R : Receiver) {e : AfuEvent} {f : List UInt8}

/-- The first byte of the frame is in the buffer as soon as anything of it is. -/
theorem Receiver.partway_head {n : ℕ} (hn : 0 < n) (hpos : 0 < f.length) : (R.partway e f n).rbuf 0 = f.headD 0 := by
  cases f with
  | nil => exact absurd hpos (Nat.lt_irrefl 0)
  | cons x xs =>
    obtain ⟨n, rfl⟩ := Nat.exists_eq_succ_of_ne_zero (Nat.ne_of_gt hn)
    exact e.rbuf.write_at 0 (x :: xs.take n) 0 (by simp)

theorem Receiver.partway_one (R : Receiver) (e : AfuEvent) (f : List UInt8) :
    R.partway e f 1 = (R.headed e f).1 := by
  have hrbuf : (R.headed e f).1.rbuf = e.rbuf.write 0 (f.take 1) := R.onHead_rbuf _
  have hrbp : (R.headed e f).1.rbp = 1 := R.onHead_rbp _
  unfold Receiver.partway
  rw [← hrbuf, ← hrbp]

/-- The first byte of a frame is read. -/
theorem fillHead_ready {s : Socket} (hopen : s.Open) (hrbp : e.rbp = 0) : e.fillHead s =
    if s.ready 1 = 0 then (some 0, e, s.after 0)
    else (none, { e with rbuf := e.rbuf.write 0 (s.stream.take 1), rbp := 1 }, s.after 1) := by
  have hle := s.ready_le 1
  have hle' := s.ready_le_length 1
  rw [AfuEvent.fillHead, if_pos hrbp, AfuEvent.fill, s.recv_ready (by decide) hopen]
  by_cases hzero : s.ready 1 = 0
  · rw [if_pos hzero, if_pos hzero]
  · have hone : s.ready 1 = 1 := by omega
    rw [if_neg hzero, if_neg hzero, hone]
    cases hstream : s.stream with
    | nil => simp [hstream] at hle'; omega
    | cons x xs => simp [hrbp]

/-- The same for the part of a call behind the head. -/
theorem Receiver.body_at {sent : List UInt8} {fs : List (List UInt8)} {n : ℕ} {s : Socket} (hf : R.WellFormed f)
    (hclock : f.headD 0 ≠ R.clockByte) (hrbp : e.rbp = 0) (hn : 0 < n) (hlt : n < f.length) (hopen : s.Open)
    (hstream : s.stream = f.drop n ++ fs.flatten) (hsent : s.sent = sent ++ (R.headed e f).2)
    (hbody : R.bodyOrderly (R.partway e f n) s = true) :
    (∃ e' s', R.body (R.partway e f n) s = (0, e', s') ∧ R.At e sent (f :: fs) e' s' ∧
      s'.arrivals.length < s.arrivals.length) ∨
    (∃ s', R.body (R.partway e f n) s = (1, R.reported e f, s') ∧ s'.Open ∧ s'.stream = fs.flatten ∧
      s'.sent = sent ++ (R.headed e f).2 ∧ s'.arrivals.length ≤ s.arrivals.length) := by
  obtain ⟨hlong, hlength⟩ := hf.long hclock
  rcases R.body_orderly hlong hlength hlt hopen hstream hbody with
    ⟨n', s', hres, hge, hlt', hleaves, hfewer⟩ | ⟨s', hres, hleaves⟩
  · exact .inl ⟨_, s', hres, .partway f fs n' s' hrbp (by omega) hlt' hleaves.isOpen hleaves.stream
      (hleaves.sent.trans hsent), hfewer⟩
  · exact .inr ⟨s', hres, hleaves.isOpen, hleaves.stream, hleaves.sent.trans hsent, hleaves.fewer⟩

/-- The condition looks at the buffer and at what has arrived, not at what has been sent. -/
theorem Receiver.bodyOrderly_headed (s : Socket) (frame : List UInt8) :
    R.bodyOrderly (R.partway e f 1) (s.send frame) =
      R.bodyOrderly { e with rbuf := e.rbuf.write 0 (f.take 1), rbp := 1 } s := rfl

/-- What a call that meets the condition does: it returns zero and the frame is still under way, or it reports
the frame as if it had come whole. -/
theorem Receiver.get_orderly {sent : List UInt8} {fs : List (List UInt8)} (hwf : ∀ f ∈ fs, R.WellFormed f)
    {e' : AfuEvent} {s : Socket} (hat : R.At e sent fs e' s) (horderly : R.orderly e' s = true) :
    (∃ e'' s', R.get e' s = (0, e'', s') ∧ R.At e sent fs e'' s' ∧
      (fs ≠ [] → s'.arrivals.length < s.arrivals.length)) ∨
    (∃ f fs' s', fs = f :: fs' ∧ R.get e' s = (1, R.reported e f, s') ∧ s'.Open ∧ s'.stream = fs'.flatten ∧
      s'.sent = sent ++ (R.headed e f).2 ∧ s'.arrivals.length ≤ s.arrivals.length) := by
  cases hat with
  | idle fs s hrbp hopen hstream hsent =>
    by_cases hzero : s.ready 1 = 0
    · refine .inl ⟨e, s.after 0, ?_, .idle fs _ hrbp (hopen.after 0) hstream hsent, ?_⟩
      · rw [Receiver.get, fillHead_ready hopen hrbp, if_pos hzero]
      · intro hsome
        obtain ⟨f, fs, rfl⟩ := List.exists_cons_of_ne_nil hsome
        have hpos := (hwf f (by simp)).pos
        refine after_fewer 1 (by omega) ?_ 0
        rw [hstream, List.flatten_cons, List.length_append]
        omega
    · cases fs with
      | nil =>
        have hle := s.ready_le_length 1
        rw [hstream] at hle
        exact absurd (Nat.le_zero.mp hle) hzero
      | cons f fs =>
        have hf := hwf f (by simp)
        rw [List.flatten_cons] at hstream
        have htake : s.stream.take 1 = f.take 1 := by
          rw [hstream, List.take_append_of_le_length hf.pos]
        have hget : R.get e s = if (R.headed e f).1.rbuf 0 = R.clockByte
            then (1, { (R.headed e f).1 with rbp := 0 }, (s.after 1).send (R.headed e f).2)
            else R.body (R.headed e f).1 ((s.after 1).send (R.headed e f).2) := by
          rw [Receiver.get, fillHead_ready hopen hrbp, if_neg hzero, htake]
          rfl
        have hhead : (R.headed e f).1.rbuf 0 = f.headD 0 := by
          rw [← R.partway_one]
          exact R.partway_head Nat.one_pos hf.pos
        have hafter : (s.after 1).stream = f.drop 1 ++ fs.flatten := by
          change s.stream.drop 1 = _
          rw [hstream, List.drop_append_of_le_length hf.pos]
        rw [hget, hhead]
        by_cases hclock : f.headD 0 = R.clockByte
        · have hone := hf.clock hclock
          rw [if_pos hclock]
          refine .inr ⟨f, fs, (s.after 1).send (R.headed e f).2, rfl, ?_, hopen.after 1, ?_, ?_, ?_⟩
          · rw [Receiver.reported, if_pos hone]
          · change (s.after 1).stream = fs.flatten
            rw [hafter, ← hone, List.drop_length, List.nil_append]
          · change s.sent ++ _ = _
            rw [hsent]
          · change s.arrivals.tail.length ≤ _
            rw [List.length_tail]
            omega
        · have hbody : R.bodyOrderly (R.partway e f 1) ((s.after 1).send (R.headed e f).2) = true := by
            have hhead' : e.rbuf.write 0 (f.take 1) 0 = f.headD 0 := by
              rw [← R.partway_head (e := e) Nat.one_pos hf.pos]
              rfl
            rw [R.bodyOrderly_headed]
            unfold Receiver.orderly AfuEvent.headRead at horderly
            simp [hrbp, hzero, htake, hhead'] at horderly
            exact horderly.resolve_left (by simpa using hclock)
          have hlong := (hf.long hclock).1
          rw [if_neg hclock, ← R.partway_one]
          rcases R.body_at hf hclock hrbp Nat.one_pos (by omega)
              ((hopen.after 1).send _) hafter (congrArg (· ++ _) hsent) hbody with
            ⟨e'', s', hres, hat, hfewer⟩ | ⟨s', hres, hopen', hstream', hsent', hfewer⟩
          · refine .inl ⟨e'', s', hres, hat, fun _ => Nat.lt_of_lt_of_le hfewer ?_⟩
            change s.arrivals.tail.length ≤ _
            rw [List.length_tail]
            omega
          · refine .inr ⟨f, fs, s', rfl, hres, hopen', hstream', hsent', Nat.le_trans hfewer ?_⟩
            change s.arrivals.tail.length ≤ _
            rw [List.length_tail]
            omega
  | partway f fs n s hrbp hn hlt hopen hstream hsent =>
    have hf := hwf f (by simp)
    have hhead := R.partway_head (e := e) hn hf.pos
    have hne : ¬(R.partway e f n).rbp = 0 := Nat.ne_of_gt hn
    have hone : (e.rbuf.write 0 (f.take 1)) 0 = f.headD 0 := R.partway_head (e := e) Nat.one_pos hf.pos
    have hlong : 1 < f.length := by omega
    have hclock : f.headD 0 ≠ R.clockByte := by
      intro h
      have := hf.clock h
      omega
    unfold Receiver.orderly AfuEvent.headRead at horderly
    simp only [if_neg hne, hhead, decide_eq_false hne, decide_eq_false hclock, Bool.false_and, Bool.false_or,
      Bool.and_eq_true, Bool.not_eq_true'] at horderly
    obtain ⟨hrepeats, hbody⟩ := horderly
    have hidle : R.repeats (e.rbuf.write 0 (f.take 1) 0) = false := by rw [hone, hrepeats]
    have hagain : R.onHead (R.partway e f n) = (R.partway e f n, []) :=
      R.onHead_again _ _ n (hhead.trans hone.symm) hidle
    have hsend : s.send [] = s := by simp [Socket.send]
    have hget : R.get (R.partway e f n) s = R.body (R.partway e f n) s := by
      rw [Receiver.get, AfuEvent.fillHead, if_neg hne]
      simp only [hagain, hsend]
      rw [hhead, if_neg hclock]
    rw [hget]
    rcases R.body_at hf hclock hrbp hn hlt hopen hstream hsent hbody with
      ⟨e'', s', hres, hat, hfewer⟩ | ⟨s', hres, hopen', hstream', hsent', hfewer⟩
    · exact .inl ⟨e'', s', hres, hat, fun _ => hfewer⟩
    · exact .inr ⟨f, fs, s', rfl, hres, hopen', hstream', hsent', hfewer⟩

end Call

end Ocse
