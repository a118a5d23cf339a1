import Ocse.Lib.Buffer

/-!
# Reading a message from a socket

`get_bytes_silent` peeks until it believes that the message is there, and then reads it. `stream` is all that the
peer sends and nobody has read; the calls of `bytes_ready` and of `recv` are numbered, and what each of them
finds is given.
-/

namespace Ocse

/-! ## The two loops -/

/-- What a call of `recv` finds. It returns at most what was asked for. -/
inductive RecvFinds
  | upTo (n : ℕ)
  | eintr
  | failed
  deriving DecidableEq, Repr

structure RecvCalls where
  ready : ℕ → ℤ
  peek : ℕ → RecvFinds
  recv : ℕ → RecvFinds

section Get

variable (w : RecvCalls) (size : ℕ) (stream : List UInt8)

/-- The loop that peeks: `bytes` is what the last call has returned, and the next one asks for the rest. True
when the message is believed to be there; `none` when the turns run out. -/
def peekLoop : ℕ → ℕ → ℤ → Option Bool
  | 0, _, _ => none
  | n + 1, k, bytes =>
    if bytes < size then
      if w.ready k ≤ 0 then some false
      else match w.peek k with
        | .upTo m =>
          let got := min (min m (size - bytes).toNat) stream.length
          if got = 0 then some false else peekLoop n (k + 1) got
        | .eintr => peekLoop n (k + 1) (-1)
        | .failed => some false
    else some true

/-- The loop that reads: every call asks for `size` bytes. It ends early when a call fails. -/
def consumeLoop : ℕ → ℕ → ℕ → Buffer UInt8 → List UInt8 → Option (Buffer UInt8 × List UInt8)
  | 0, _, _, _, _ => none
  | n + 1, k, bytes, data, unread =>
    if bytes < size then
      match w.recv k with
      | .upTo m =>
        let got := min (min m size) unread.length
        if got = 0 then some (data, unread)
        else consumeLoop n (k + 1) (bytes + got) (data.write bytes (unread.take got)) (unread.drop got)
      | .eintr => consumeLoop n (k + 1) bytes data unread
      | .failed => some (data, unread)
    else some (data, unread)

/-- The return value, the buffer and what is left unread; `n` bounds the turns of either loop. -/
def getBytesSilent (data : Option (Buffer UInt8)) (n : ℕ) : Option (ℤ × Option (Buffer UInt8) × List UInt8) :=
  match peekLoop w size stream n 0 0 with
  | none => none
  | some false => some (-1, data, stream)
  | some true =>
    match data with
    | none => some (0, none, stream)
    | some data => (consumeLoop w size n 0 0 data stream).map (fun (data, unread) => (0, some data, unread))

end Get

/-! ## What is asked of it -/

/-- The call ends, returns 0, and has moved exactly the message from the socket to the buffer. -/
def GetsMessage (w : RecvCalls) (size : ℕ) (stream : List UInt8) (data : Buffer UInt8) : Prop :=
  ∃ n data', getBytesSilent w size stream (some data) n = some (0, some data', stream.drop size) ∧
    data'.read 0 size = stream.take size

/-- A peer whose bytes come in time: `peek` and `recv` say how many are there, and some always are. -/
structure Arrives (w : RecvCalls) (peek recv : ℕ → ℕ) : Prop where
  ready : ∀ k, w.ready k = 1
  peeks : ∀ k, w.peek k = .upTo (peek k)
  recvs : ∀ k, w.recv k = .upTo (recv k)
  peekSome : ∀ k, 0 < peek k
  recvSome : ∀ k, 0 < recv k

/-- What the first calls of `recv` take when nothing but their request limits them. -/
def takenBy (size : ℕ) (recv : ℕ → ℕ) : ℕ → ℕ
  | 0 => 0
  | k + 1 => takenBy size recv k + min (recv k) size

section Get

variable {w : RecvCalls} {size : ℕ} {stream : List UInt8} {peek recv : ℕ → ℕ}

/-! ## Peeking -/

/-- A peek that has found only a part makes the next one ask for less than the message. -/
theorem peekLoop_spins (hw : Arrives w peek recv) (hlen : size ≤ stream.length) (n k bytes : ℕ)
    (hpos : 0 < bytes) (hlt : bytes < size) : peekLoop w size stream n k bytes = none := by
  induction n generalizing k bytes with
  | zero => rfl
  | succ n ih =>
      have hask : ((size : ℤ) - bytes).toNat = size - bytes := by omega
      have hpeek := hw.peekSome k
      rw [peekLoop, if_pos (by exact_mod_cast hlt), hw.ready, if_neg (by decide), hw.peeks]
      dsimp only
      rw [hask, if_neg (by omega)]
      exact ih (k + 1) _ (by omega) (by omega)

theorem peekLoop_iff (hw : Arrives w peek recv) (hsize : 0 < size) (hlen : size ≤ stream.length) (n : ℕ) :
    peekLoop w size stream n 0 0 = if 2 ≤ n ∧ size ≤ peek 0 then some true else none := by
  cases n with
  | zero => exact (if_neg (by omega)).symm
  | succ n =>
      have hask : ((size : ℤ) - 0).toNat = size := by omega
      have hpeek := hw.peekSome 0
      rw [peekLoop, if_pos (by exact_mod_cast hsize), hw.ready, if_neg (by decide), hw.peeks]
      dsimp only
      rw [hask, if_neg (by omega)]
      by_cases hall : size ≤ peek 0
      · have hgot : min (min (peek 0) size) stream.length = size := by omega
        rw [hgot]
        cases n with
        | zero => exact (if_neg (by omega)).symm
        | succ n => rw [peekLoop, if_neg (Int.lt_irrefl _), if_pos ⟨by omega, hall⟩]
      · rw [peekLoop_spins hw hlen n 1 _ (by omega) (by omega), if_neg (by omega)]

/-! ## Reading -/

/-- The loop goes on to the first call with which the message is complete, and what it has taken by then has
gone to the buffer. -/
theorem consumeLoop_ends (hw : Arrives w peek recv) (hsize : 0 < size) (hlen : size ≤ stream.length) (n k bytes : ℕ)
    (data : Buffer UInt8) (hbytes : bytes = min (takenBy size recv k) stream.length)
    (hn : size ≤ bytes + n) (hbefore : ∀ j < k, takenBy size recv j < size)
    (hdata : data.read 0 bytes = stream.take bytes) :
    ∃ j data', consumeLoop w size (n + 1) k bytes data (stream.drop bytes) =
        some (data', stream.drop (min (takenBy size recv j) stream.length)) ∧
      size ≤ takenBy size recv j ∧ (∀ i < j, takenBy size recv i < size) ∧
      data'.read 0 (min (takenBy size recv j) stream.length) =
        stream.take (min (takenBy size recv j) stream.length) := by
  induction n generalizing k bytes data with
  | zero =>
      refine ⟨k, data, ?_, by omega, hbefore, hbytes ▸ hdata⟩
      rw [consumeLoop, if_neg (by omega), hbytes]
  | succ n ih =>
      rw [consumeLoop]
      by_cases hlt : bytes < size
      · have hexact : takenBy size recv k = bytes := by omega
        have hpos := hw.recvSome k
        have hunread : (stream.drop bytes).length = stream.length - bytes := List.length_drop
        have hnext : bytes + min (min (recv k) size) (stream.length - bytes) =
            min (takenBy size recv (k + 1)) stream.length := by
          rw [takenBy, hexact]
          omega
        rw [if_pos hlt, hw.recvs]
        dsimp only
        rw [hunread, if_neg (by omega), List.drop_drop]
        apply ih (k + 1) _ _ hnext (by omega)
        · intro j hj
          rcases Nat.lt_succ_iff_lt_or_eq.mp hj with hj | rfl
          · exact hbefore j hj
          · rw [hexact]
            exact hlt
        · generalize hgot : min (min (recv k) size) (stream.length - bytes) = got
          have htake : ((stream.drop bytes).take got).length = got := by
            rw [List.length_take, hunread]
            omega
          have hold : (data.write bytes ((stream.drop bytes).take got)).read 0 bytes = data.read 0 bytes :=
            Buffer.read_congr (fun i hi => data.write_of_lt bytes _ (0 + i) (by omega))
          have hnew := Buffer.read_eq_of_holds (data.holds_write bytes ((stream.drop bytes).take got))
          rw [htake] at hnew
          rw [Buffer.read_append, hold, hdata, Nat.zero_add, hnew, List.take_add]
      · rw [if_neg hlt]
        exact ⟨k, data, by rw [hbytes], by omega, hbefore, hbytes ▸ hdata⟩

/-- More turns than the loop needs change nothing. -/
theorem consumeLoop_more {n k bytes : ℕ} {data : Buffer UInt8} {unread : List UInt8}
    {out : Buffer UInt8 × List UInt8} (h : consumeLoop w size n k bytes data unread = some out) (m : ℕ) :
    consumeLoop w size (n + m) k bytes data unread = some out := by
  induction n generalizing k bytes data unread with
  | zero => cases h
  | succ n ih =>
      have hturns : n + 1 + m = (n + m) + 1 := by omega
      rw [hturns]
      rw [consumeLoop] at h ⊢
      by_cases hlt : bytes < size
      · rw [if_pos hlt] at h ⊢
        cases hfinds : w.recv k with
        | upTo found =>
            rw [hfinds] at h
            dsimp only at h ⊢
            by_cases hnone : min (min found size) unread.length = 0
            · rw [if_pos hnone] at h ⊢
              exact h
            · rw [if_neg hnone] at h ⊢
              exact ih h
        | eintr =>
            rw [hfinds] at h
            exact ih h
        | failed =>
            rw [hfinds] at h
            exact h
      · rw [if_neg hlt] at h ⊢
        exact h

theorem takenBy_mono {j k : ℕ} (h : j ≤ k) : takenBy size recv j ≤ takenBy size recv k := by
  induction k with
  | zero =>
      obtain rfl := Nat.le_zero.mp h
      exact Nat.le_refl _
  | succ k ih =>
      rcases Nat.le_succ_iff.mp h with h | rfl
      · exact (ih h).trans (Nat.le_add_right _ _)
      · exact Nat.le_refl _

/-- For every message and every way of arriving in time: the message is got as it should be exactly when the
first peek sees all of it, and the calls that read it do not go over its end. -/
theorem getBytesSilent_iff (hw : Arrives w peek recv) (hsize : 0 < size) (hlen : size ≤ stream.length)
    (data : Buffer UInt8) : GetsMessage w size stream data ↔
      size ≤ peek 0 ∧ (stream.length = size ∨ ∃ j, takenBy size recv j = size) := by
  obtain ⟨j, data', hrun, hdone, hfirst, hread⟩ := consumeLoop_ends hw hsize hlen size 0 0 data
    (Nat.zero_min _).symm (by omega) (fun i hi => by omega) rfl
  rw [List.drop_zero] at hrun
  constructor
  · rintro ⟨n, data'', hget, -⟩
    rw [getBytesSilent, peekLoop_iff hw hsize hlen] at hget
    by_cases hpeek : 2 ≤ n ∧ size ≤ peek 0
    · rw [if_pos hpeek] at hget
      obtain ⟨out, hconsume, hout⟩ := Option.map_eq_some_iff.mp hget
      have hsame : out = (data', stream.drop (min (takenBy size recv j) stream.length)) := by
        have hleft := consumeLoop_more hconsume (size + 1)
        have hright := consumeLoop_more hrun n
        rw [Nat.add_comm] at hright
        exact Option.some.inj (hleft.symm.trans hright)
      have hunread : stream.drop (min (takenBy size recv j) stream.length) = stream.drop size := by
        rw [hsame] at hout
        exact (Prod.mk.inj (Prod.mk.inj hout).2).2
      have hlength := congrArg List.length hunread
      rw [List.length_drop, List.length_drop] at hlength
      refine ⟨hpeek.2, ?_⟩
      by_cases hall : stream.length = size
      · exact .inl hall
      · exact .inr ⟨j, by omega⟩
    · rw [if_neg hpeek] at hget
      cases hget
  · rintro ⟨hpeek, hexact⟩
    have hend : min (takenBy size recv j) stream.length = size := by
      rcases hexact with hall | ⟨i, hi⟩
      · omega
      · have hle : j ≤ i := by
          by_contra hlt
          exact absurd (hfirst i (by omega)) (by omega)
        have hmono : takenBy size recv j ≤ takenBy size recv i := takenBy_mono hle
        omega
    rw [hend] at hrun hread
    refine ⟨size + 1 + 1, data', ?_, hread⟩
    rw [getBytesSilent, peekLoop_iff hw hsize hlen, if_pos ⟨by omega, hpeek⟩]
    dsimp only
    rw [consumeLoop_more hrun 1]
    rfl

end Get

/-- A peer that is always five bytes ahead. -/
def sampleCalls : RecvCalls := ⟨fun _ => 1, fun _ => .upTo 5, fun _ => .upTo 5⟩

theorem getBytesSilent_iff_whole : GetsMessage sampleCalls 3 [1, 2, 3, 4] (Buffer.const 0) ↔
    3 ≤ 5 ∧ (4 = 3 ∨ ∃ j, takenBy 3 (fun _ => 5) j = 3) :=
  getBytesSilent_iff (w := sampleCalls)
    ⟨fun _ => rfl, fun _ => rfl, fun _ => rfl, fun _ => by decide, fun _ => by decide⟩
    (by decide) (by decide) (Buffer.const 0)

/-- A message of four bytes of which one comes first. -/
def splitCalls : RecvCalls := ⟨fun _ => 1, fun k => .upTo (if k = 0 then 1 else 4), fun _ => .upTo 4⟩

/-- No number of peeks is enough for it. -/
theorem getBytesSilent_split : ¬GetsMessage splitCalls 4 [1, 2, 3, 4] (Buffer.const 0) := by
  rintro ⟨n, data, hget, -⟩
  have hw : Arrives splitCalls (fun k => if k = 0 then 1 else 4) (fun _ => 4) := by
    refine ⟨fun _ => rfl, fun _ => rfl, fun _ => rfl, fun k => ?_, fun _ => by decide⟩
    split <;> decide
  have hspin : peekLoop splitCalls 4 [1, 2, 3, 4] n 0 0 = none := by
    rw [peekLoop_iff hw (by decide) (by decide), if_neg (fun h => absurd h.2 (by decide))]
  rw [getBytesSilent, hspin] at hget
  cases hget

end Ocse
