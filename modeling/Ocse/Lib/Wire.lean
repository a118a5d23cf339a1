import Ocse.Lib.BigEndian

/-!
# Reading messages off a byte stream

A reader takes its fields off the front of a stream, one `getBytes` each, and fails when the stream
ends first. `decodeTurns` is a receiver's loop: one message a turn, until a message it does not survive.
When a decoder undoes an encoder on every message, whatever follows it, the loop undoes a concatenation
of messages exactly when it survives all but the last of them.
-/

/-- `n` bytes of the stream, in a buffer of their own. -/
def getBytes (n : ℕ) (stream : List UInt8) : Option (Buffer UInt8 × List UInt8) :=
  if n ≤ stream.length then some ((Buffer.const 0).write 0 (stream.take n), stream.drop n) else none

theorem getBytes_append {n : ℕ} {bytes : List UInt8} (hn : bytes.length = n) (rest : List UInt8) :
    getBytes n (bytes ++ rest) = some ((Buffer.const 0).write 0 bytes, rest) := by
  subst hn
  simp [getBytes]

/-- A field of `n` bytes in network order. -/
def getBE (n : ℕ) (stream : List UInt8) : Option (ℕ × List UInt8) :=
  (getBytes n stream).map (fun (b, rest) => (loadBE b 0 n, rest))

/-- A field of `n` bytes in the order of the host. -/
def getLE (n : ℕ) (stream : List UInt8) : Option (ℕ × List UInt8) :=
  (getBytes n stream).map (fun (b, rest) => (loadLE b 0 n, rest))

/-- `n` bytes of data. -/
def getData (n : ℕ) (stream : List UInt8) : Option (List UInt8 × List UInt8) :=
  (getBytes n stream).map (fun (b, rest) => (b.read 0 n, rest))

theorem getBE_append_mod (n v : ℕ) (rest : List UInt8) :
    getBE n (beBytes n v ++ rest) = some (v % 256 ^ n, rest) := by
  have hload := loadBE_of_holds _ 0 n v (Buffer.holds_write (Buffer.const 0) 0 (beBytes n v))
  simp [getBE, getBytes_append (length_beBytes n v), hload]

theorem getBE_append {n v : ℕ} (hv : v < 256 ^ n) (rest : List UInt8) :
    getBE n (beBytes n v ++ rest) = some (v, rest) := by
  rw [getBE_append_mod, Nat.mod_eq_of_lt hv]

theorem getBE_lt {n v : ℕ} {stream rest : List UInt8} (h : getBE n stream = some (v, rest)) : v < 256 ^ n := by
  obtain ⟨⟨b, tail⟩, -, hpair⟩ := Option.map_eq_some_iff.mp h
  obtain ⟨rfl, -⟩ := Prod.mk.inj hpair
  exact loadBE_lt b 0 n

theorem getLE_append {n v : ℕ} (hv : v < 256 ^ n) (rest : List UInt8) :
    getLE n (leBytes n v ++ rest) = some (v, rest) := by
  have hload := loadLE_of_holds _ 0 n v (Buffer.holds_write (Buffer.const 0) 0 (leBytes n v))
  rw [Nat.mod_eq_of_lt hv] at hload
  simp [getLE, getBytes_append (length_leBytes n v), hload]

theorem getData_append {n : ℕ} {bytes : List UInt8} (hn : bytes.length = n) (rest : List UInt8) :
    getData n (bytes ++ rest) = some (bytes, rest) := by
  have hread := Buffer.read_eq_of_holds (Buffer.holds_write (Buffer.const 0) 0 bytes)
  subst hn
  simp [getData, getBytes_append, hread]

section Turns

variable {τ α β : Type}

/-- One message a turn; the loop ends after a message that it does not survive, or cannot read. -/
def decodeTurns (decode : List UInt8 → Option (α × List UInt8)) (survives : τ → α → Bool) :
    List τ → List UInt8 → List α × List UInt8
  | [], stream => ([], stream)
  | t :: turns, stream =>
    match decode stream with
    | none => ([], [])
    | some (a, rest) =>
      if survives t a then
        let (as, rest) := decodeTurns decode survives turns rest
        (a :: as, rest)
      else ([a], rest)

theorem decodeTurns_flatMap_iff (decode : List UInt8 → Option (α × List UInt8)) (survives : τ → α → Bool)
    (encode : β → List UInt8) (value : β → α) (turn : β → τ) (xs : List β)
    (h : ∀ x ∈ xs, ∀ rest, decode (encode x ++ rest) = some (value x, rest)) :
    decodeTurns decode survives (xs.map turn) (xs.flatMap encode) = (xs.map value, []) ↔
      ∀ x ∈ xs.dropLast, survives (turn x) (value x) = true := by
  induction xs with
  | nil => simp [decodeTurns]
  | cons x xs ih =>
      have hx := h x (by simp) (xs.flatMap encode)
      have hrest := ih (fun y hy => h y (by simp [hy]))
      rw [List.flatMap_cons, List.map_cons, List.map_cons, decodeTurns, hx]
      cases xs with
      | nil => by_cases hs : survives (turn x) (value x) = true <;> simp [decodeTurns, hs]
      | cons y ys =>
          rw [List.dropLast_cons_of_ne_nil (by simp), List.forall_mem_cons, ← hrest]
          by_cases hs : survives (turn x) (value x) = true
          · simp [hs, Prod.ext_iff]
          · simp [hs]

end Turns
