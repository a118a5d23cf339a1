import Mathlib.Data.List.Basic

/-!
# A non-blocking stream socket

`stream` are the bytes the peer has written and nobody has read, in order. Each coming call of `recv`
finds the outcome that `arrivals` lists for it: so many bytes have arrived, the peer has closed, or the
call fails; when the list runs out everything has arrived. `recv` returns at most what was asked for.
-/

inductive Arrival
  | upTo (n : ℕ)
  | closed
  | failed
  deriving DecidableEq, Repr

structure Socket where
  stream : List UInt8
  arrivals : List Arrival
  sent : List UInt8
  deriving DecidableEq, Repr

/-- What a call of `recv` returns: `-1` with `EWOULDBLOCK`, `-1` with another error, or the bytes it
stored, none of them at the end of the stream. -/
inductive RecvResult
  | wouldBlock
  | failed
  | got (bytes : List UInt8)
  deriving DecidableEq, Repr

namespace Socket

def whole (stream : List UInt8) : Socket := { stream, arrivals := [], sent := [] }

def send (s : Socket) (bytes : List UInt8) : Socket := { s with sent := s.sent ++ bytes }

def take (s : Socket) (n : ℕ) : RecvResult × Socket :=
  let bytes := s.stream.take n
  if bytes = [] then (.wouldBlock, s)
  else (.got bytes, { s with stream := s.stream.drop n })

def recv (s : Socket) (n : ℕ) : RecvResult × Socket :=
  if n = 0 then (.got [], s)
  else match s.arrivals with
    | [] => s.take n
    | .upTo k :: rest => { s with arrivals := rest }.take (min n k)
    | .closed :: rest => (.got [], { s with arrivals := rest })
    | .failed :: rest => (.failed, { s with arrivals := rest })

@[simp] theorem whole_stream (stream : List UInt8) : (whole stream).stream = stream := rfl

@[simp] theorem whole_arrivals (stream : List UInt8) : (whole stream).arrivals = [] := rfl

@[simp] theorem send_stream (s : Socket) (bytes : List UInt8) : (s.send bytes).stream = s.stream := rfl

@[simp] theorem send_arrivals (s : Socket) (bytes : List UInt8) :
    (s.send bytes).arrivals = s.arrivals := rfl

/-- With everything arrived, asking for exactly the next bytes returns them and leaves the rest. -/
theorem recv_append (s : Socket) (bytes rest : List UInt8) (hall : s.arrivals = [])
    (hstream : s.stream = bytes ++ rest) (hne : bytes ≠ []) :
    s.recv bytes.length = (.got bytes, { s with stream := rest }) := by
  have hpos : bytes.length ≠ 0 := by simpa using hne
  simp only [recv, if_neg hpos, hall, take, hstream, List.take_left, if_neg hne, List.drop_left]

/-! ## Calls that find part of the stream -/

/-- The socket neither closes nor fails. -/
def Open (s : Socket) : Prop := ∀ a ∈ s.arrivals, ∃ n, a = .upTo n

/-- How many bytes a call that asks for `n` finds. -/
def ready (s : Socket) (n : ℕ) : ℕ :=
  match s.arrivals with
  | .upTo k :: _ => min (min n k) s.stream.length
  | [] => min n s.stream.length
  | _ => 0

/-- The socket after a call that took `k` bytes. -/
def after (s : Socket) (k : ℕ) : Socket := { s with stream := s.stream.drop k, arrivals := s.arrivals.tail }

theorem Open.after {s : Socket} (h : s.Open) (k : ℕ) : (s.after k).Open :=
  fun a ha => h a (List.mem_of_mem_tail ha)

theorem Open.send {s : Socket} (h : s.Open) (bytes : List UInt8) : (s.send bytes).Open := h

theorem ready_le (s : Socket) (n : ℕ) : s.ready n ≤ n := by
  unfold ready
  split <;> omega

theorem ready_le_length (s : Socket) (n : ℕ) : s.ready n ≤ s.stream.length := by
  unfold ready
  split <;> omega

theorem ready_of_arrived {s : Socket} (h : s.arrivals = []) (n : ℕ) : s.ready n = min n s.stream.length := by
  unfold ready
  rw [h]

theorem take_min (s : Socket) (n : ℕ) : s.take n = if min n s.stream.length = 0 then (.wouldBlock, s)
    else (.got (s.stream.take (min n s.stream.length)), { s with stream := s.stream.drop (min n s.stream.length) }) := by
  have htake : s.stream.take n = s.stream.take (min n s.stream.length) := List.take_eq_take_min
  have hdrop : s.stream.drop n = s.stream.drop (min n s.stream.length) := by
    rcases Nat.le_total n s.stream.length with h | h
    · rw [Nat.min_eq_left h]
    · rw [Nat.min_eq_right h, List.drop_length, List.drop_eq_nil_of_le h]
  have hempty : s.stream.take n = [] ↔ min n s.stream.length = 0 := by
    rw [← List.length_eq_zero_iff, List.length_take]
  unfold take
  by_cases h : min n s.stream.length = 0
  · simp only [if_pos h, if_pos (hempty.mpr h)]
  · simp only [if_neg h, if_neg (fun heq => h (hempty.mp heq)), ← htake, ← hdrop]

theorem recv_ready (s : Socket) {n : ℕ} (hn : n ≠ 0) (hopen : s.Open) : s.recv n =
    if s.ready n = 0 then (.wouldBlock, s.after 0)
    else (.got (s.stream.take (s.ready n)), s.after (s.ready n)) := by
  unfold recv
  rw [if_neg hn]
  cases harr : s.arrivals with
  | nil =>
    have htail : s.arrivals.tail = s.arrivals := by rw [harr]; rfl
    rw [ready_of_arrived harr]
    simp only [take_min, after, List.drop_zero, htail]
  | cons a rest =>
    obtain ⟨k, rfl⟩ := hopen a (by simp [harr])
    have hready : s.ready n = min (min n k) s.stream.length := by
      unfold ready
      rw [harr]
    simp only [take_min, hready, after, harr, List.tail_cons, List.drop_zero]

/-! ## Waiting, and reading byte by byte -/

/-- `select` returns when there is something to read: the calls that would have found nothing are not made. -/
def select (s : Socket) : Socket := { s with arrivals := s.arrivals.dropWhile (· = .upTo 0) }

/-- How many of the next `n` calls for one byte find it before one blocks, while the stream lasts. -/
def steady : List Arrival → ℕ → ℕ
  | _, 0 => 0
  | [], n + 1 => n + 1
  | .upTo 0 :: _, _ + 1 => 0
  | _ :: rest, n + 1 => steady rest n + 1

@[simp] theorem select_stream (s : Socket) : s.select.stream = s.stream := rfl

@[simp] theorem select_sent (s : Socket) : s.select.sent = s.sent := rfl

theorem Open.select {s : Socket} (h : s.Open) : s.select.Open :=
  fun a ha => h a ((List.dropWhile_sublist _).subset ha)

theorem steady_le (as : List Arrival) (n : ℕ) : steady as n ≤ n := by
  fun_induction steady as n with
  | case1 => exact Nat.le_refl 0
  | case2 n => exact Nat.le_refl (n + 1)
  | case3 _ n => exact Nat.zero_le (n + 1)
  | case4 _ _ n _ ih => exact Nat.succ_le_succ ih

/-- The call for the next byte of a stream blocks when `steady` counts none, and otherwise takes it. -/
theorem recv_steady {s : Socket} (hopen : s.Open) (hmore : s.stream ≠ []) (n : ℕ) :
    (s.recv 1 = (.wouldBlock, s.after 0) ∧ steady s.arrivals (n + 1) = 0) ∨
      (s.recv 1 = (.got (s.stream.take 1), s.after 1) ∧
        steady s.arrivals (n + 1) = steady (s.after 1).arrivals n + 1) := by
  have hpos : 0 < s.stream.length := List.length_pos_iff.mpr hmore
  rw [recv_ready s Nat.one_ne_zero hopen]
  cases harr : s.arrivals with
  | nil =>
    have hready : s.ready 1 = 1 := by rw [ready_of_arrived harr]; omega
    rw [hready, if_neg Nat.one_ne_zero]
    have hafter : (s.after 1).arrivals = [] := by rw [after, harr]; rfl
    rw [hafter]
    cases n <;> exact .inr ⟨rfl, rfl⟩
  | cons a rest =>
    obtain ⟨k, rfl⟩ := hopen a (by simp [harr])
    have hready : s.ready 1 = min (min 1 k) s.stream.length := by unfold ready; rw [harr]
    have hafter : (s.after 1).arrivals = rest := by rw [after, harr]; rfl
    cases k with
    | zero =>
      have hnone : s.ready 1 = 0 := by rw [hready]; omega
      rw [hnone, if_pos rfl]
      exact .inl ⟨rfl, rfl⟩
    | succ k =>
      have hone : s.ready 1 = 1 := by rw [hready]; omega
      rw [hone, if_neg Nat.one_ne_zero, hafter]
      exact .inr ⟨rfl, rfl⟩

end Socket
