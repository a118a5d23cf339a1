import Mathlib.Algebra.GroupWithZero.Nat
import Ocse.Lib.Buffer

/-!
# Writing a message to a socket

`put_bytes_silent` writes the bytes of `data` in a loop, and every call of `write` may take less than it is
asked to. The results of the calls are given; `calls` notes what each was asked for.
-/

namespace Ocse

/-! ## The loop -/

inductive WriteResult
  | wrote (n : ℕ)
  | eintr
  | failed
  deriving DecidableEq, Repr

/-- `write(fd, &data[pos], len)` and its result -/
structure WriteCall where
  pos : ℕ
  len : ℕ
  result : WriteResult
  deriving DecidableEq, Repr

/-- `stream` is what the calls have put into the socket. -/
structure PutState where
  bytes : ℕ
  stream : List UInt8
  calls : List WriteCall

/-- `write(fd, &data[bytes], size)`, before its result is looked at. -/
def PutState.call (p : PutState) (size : ℕ) (r : WriteResult) : PutState :=
  { p with calls := p.calls ++ [⟨p.bytes, size, r⟩] }

@[simp] theorem PutState.call_bytes (p : PutState) (size : ℕ) (r : WriteResult) : (p.call size r).bytes = p.bytes := rfl

section Put

variable (data : Buffer UInt8) (size : ℕ)

/-- Every call asks for `size` bytes, however many have been written; `none` while a call is waited for. -/
def putLoop : List WriteResult → PutState → Option (ℤ × PutState)
  | [], p => if p.bytes < size then none else some (p.bytes, p)
  | r :: rs, p =>
    if p.bytes < size then
      let p := p.call size r
      match r with
      | .wrote n => putLoop rs { p with bytes := p.bytes + n, stream := p.stream ++ data.read p.bytes n }
      | .eintr => putLoop rs p
      | .failed => some (-1, p)
    else some (p.bytes, p)

end Put

def putBytesSilent (data : Option (Buffer UInt8)) (size : ℕ) (rs : List WriteResult) : Option (ℤ × PutState) :=
  match data with
  | none => some (0, ⟨0, [], []⟩)
  | some data => putLoop data size rs ⟨0, [], []⟩

/-! ## What is asked of it -/

/-- No call asks for more than the data has; without an error the data is written and its size returned, and
an error is returned. -/
structure PutsAll (data : Buffer UInt8) (size : ℕ) (rc : ℤ) (p : PutState) : Prop where
  inside : ∀ c ∈ p.calls, c.pos + c.len ≤ size
  done : (∀ c ∈ p.calls, c.result ≠ .failed) → rc = size ∧ p.stream = data.read 0 size
  failed : (∃ c ∈ p.calls, c.result = .failed) → rc = -1

/-- The bytes that the calls write. -/
def written (rs : List WriteResult) : ℕ := (rs.map (fun | .wrote n => n | _ => 0)).sum

/-- The first count that is not zero, if no error comes before it. -/
def firstCount : List WriteResult → Option ℕ
  | [] => none
  | .wrote 0 :: rs => firstCount rs
  | .wrote (n + 1) :: _ => some (n + 1)
  | .eintr :: rs => firstCount rs
  | .failed :: _ => none

section Results

variable {data : Buffer UInt8} {size : ℕ} {rs : List WriteResult} {p q : PutState} {rc : ℤ}

/-- With enough progress, or an error, the loop ends. -/
theorem putLoop_ends (h : .failed ∈ rs ∨ size ≤ p.bytes + written rs) :
    ∃ out, putLoop data size rs p = some out := by
  induction rs generalizing p with
  | nil =>
      have hle : size ≤ p.bytes := h.resolve_left List.not_mem_nil
      exact ⟨_, if_neg (Nat.not_lt.mpr hle)⟩
  | cons r rs ih =>
      rw [putLoop]
      by_cases hlt : p.bytes < size
      · rw [if_pos hlt]
        cases r with
        | failed => exact ⟨_, rfl⟩
        | eintr =>
            apply ih
            rcases h with hmem | hsum
            · exact .inl ((List.mem_cons.mp hmem).resolve_left WriteResult.noConfusion)
            · exact .inr (by simpa [written] using hsum)
        | wrote n =>
            apply ih
            rcases h with hmem | hsum
            · exact .inl ((List.mem_cons.mp hmem).resolve_left WriteResult.noConfusion)
            · refine .inr ?_
              simp only [written, List.map_cons, List.sum_cons, PutState.call_bytes] at hsum ⊢
              omega
      · rw [if_neg hlt]
        exact ⟨_, rfl⟩

/-- A call that was made is not forgotten. -/
theorem putLoop_calls (h : putLoop data size rs p = some (rc, q)) : ∀ c ∈ p.calls, c ∈ q.calls := by
  induction rs generalizing p with
  | nil =>
      rw [putLoop] at h
      split at h
      · cases h
      · obtain ⟨-, rfl⟩ := Prod.mk.inj (Option.some.inj h)
        exact fun c hc => hc
  | cons r rs ih =>
      rw [putLoop] at h
      split at h
      · intro c hc
        cases r with
        | wrote n => exact ih h c (List.mem_append_left _ hc)
        | eintr => exact ih h c (List.mem_append_left _ hc)
        | failed =>
            obtain ⟨-, rfl⟩ := Prod.mk.inj (Option.some.inj h)
            exact List.mem_append_left _ hc
      · obtain ⟨-, rfl⟩ := Prod.mk.inj (Option.some.inj h)
        exact fun c hc => hc

/-- Where bytes are missing the loop makes another call, for all of them. -/
theorem putLoop_asks (h : putLoop data size rs p = some (rc, q)) (hlt : p.bytes < size) :
    ∃ c ∈ q.calls, c.pos = p.bytes ∧ c.len = size := by
  cases rs with
  | nil =>
      rw [putLoop, if_pos hlt] at h
      cases h
  | cons r rs =>
      rw [putLoop, if_pos hlt] at h
      refine ⟨⟨p.bytes, size, r⟩, ?_, rfl, rfl⟩
      cases r with
      | wrote n => exact putLoop_calls h _ (List.mem_append_right _ List.mem_cons_self)
      | eintr => exact putLoop_calls h _ (List.mem_append_right _ List.mem_cons_self)
      | failed =>
          obtain ⟨-, rfl⟩ := Prod.mk.inj (Option.some.inj h)
          exact List.mem_append_right _ List.mem_cons_self

theorem putLoop_done (h : ¬p.bytes < size) : putLoop data size rs p = some ((p.bytes : ℤ), p) := by
  cases rs with
  | nil => exact if_neg h
  | cons r rs => exact if_neg h

theorem firstCount_mem {n : ℕ} (h : firstCount rs = some n) : .wrote n ∈ rs := by
  induction rs using firstCount.induct with
  | case1 => cases h
  | case2 rs ih => exact List.mem_cons_of_mem _ (ih h)
  | case3 k rs =>
      obtain rfl := Option.some.inj h
      exact List.mem_cons_self
  | case4 rs ih => exact List.mem_cons_of_mem _ (ih h)
  | case5 rs => cases h

/-- Nothing has been written yet. -/
structure PutState.Unbegun (p : PutState) (size : ℕ) : Prop where
  bytes : p.bytes = 0
  stream : p.stream = []
  inside : ∀ c ∈ p.calls, c.pos + c.len ≤ size
  unfailed : ∀ c ∈ p.calls, c.result ≠ .failed

theorem PutState.Unbegun.inside_call (h : p.Unbegun size) (r : WriteResult) :
    ∀ c ∈ (p.call size r).calls, c.pos + c.len ≤ size := by
  intro c hc
  rcases List.mem_append.mp hc with hc | hc
  · exact h.inside c hc
  · rw [List.mem_singleton.mp hc, h.bytes]
    exact Nat.le_of_eq (Nat.zero_add size)

theorem PutState.Unbegun.unfailed_call (h : p.Unbegun size) {r : WriteResult} (hr : r ≠ .failed) :
    ∀ c ∈ (p.call size r).calls, c.result ≠ .failed := by
  intro c hc
  rcases List.mem_append.mp hc with hc | hc
  · exact h.unfailed c hc
  · rw [List.mem_singleton.mp hc]
    exact hr

theorem PutState.Unbegun.call (h : p.Unbegun size) {r : WriteResult} (hr : r ≠ .failed) :
    (p.call size r).Unbegun size :=
  ⟨h.bytes, h.stream, h.inside_call r, h.unfailed_call hr⟩

/-- The calls before the first progress change nothing, and the first progress decides. -/
theorem putLoop_iff (hsize : 0 < size) (hcounts : ∀ n, .wrote n ∈ rs → n ≤ size) (hp : p.Unbegun size)
    (h : putLoop data size rs p = some (rc, q)) :
    PutsAll data size rc q ↔ ∀ n, firstCount rs = some n → n = size := by
  induction rs generalizing p with
  | nil =>
      rw [putLoop, if_pos (by rw [hp.bytes]; exact hsize)] at h
      cases h
  | cons r rs ih =>
      have hrest : ∀ n, .wrote n ∈ rs → n ≤ size := fun n hn => hcounts n (List.mem_cons_of_mem r hn)
      rw [putLoop, if_pos (by rw [hp.bytes]; exact hsize)] at h
      cases r with
      | eintr =>
          exact ih hrest (hp.call (r := .eintr) WriteResult.noConfusion) h
      | failed =>
          obtain ⟨hrc, hq⟩ := Prod.mk.inj (Option.some.inj h)
          refine iff_of_true ⟨?_, ?_, fun _ => hrc.symm⟩ (fun n hn => by cases hn)
          · rw [← hq]
            exact hp.inside_call .failed
          · intro hnone
            rw [← hq] at hnone
            exact absurd rfl (hnone _ (List.mem_append_right _ List.mem_cons_self))
      | wrote n =>
          cases n with
          | zero =>
              have hnext := hp.call (r := .wrote 0) WriteResult.noConfusion
              refine ih hrest ?_ h
              exact ⟨hnext.bytes, List.append_eq_nil_iff.mpr ⟨hnext.stream, rfl⟩, hnext.inside, hnext.unfailed⟩
          | succ n =>
              have hle := hcounts (n + 1) List.mem_cons_self
              by_cases hall : n + 1 = size
              · -- The first progress is the whole message, and the loop is over.
                have hbytes : p.bytes + (n + 1) = size := by rw [hp.bytes, Nat.zero_add, hall]
                dsimp only at h
                rw [putLoop_done (Nat.not_lt.mpr (Nat.le_of_eq hbytes.symm))] at h
                obtain ⟨hrc, hq⟩ := Prod.mk.inj (Option.some.inj h)
                refine iff_of_true ⟨?_, fun _ => ⟨?_, ?_⟩, ?_⟩ (fun k hk => (Option.some.inj hk).symm.trans hall)
                · rw [← hq]
                  exact hp.inside_call _
                · rw [← hrc]
                  exact congrArg Nat.cast hbytes
                · rw [← hq]
                  change p.stream ++ data.read p.bytes (n + 1) = _
                  rw [hp.bytes, hp.stream, hall, List.nil_append]
                · rw [← hq]
                  rintro ⟨c, hc, hfailed⟩
                  exact absurd hfailed (hp.unfailed_call (r := .wrote (n + 1)) WriteResult.noConfusion c hc)
              · -- The next call asks for bytes behind the message.
                obtain ⟨c, hc, hpos, hlen⟩ := putLoop_asks h (by
                  change p.bytes + (n + 1) < size
                  rw [hp.bytes]
                  omega)
                refine iff_of_false (fun hputs => ?_) (fun hfirst => hall (hfirst (n + 1) rfl))
                have hin := hputs.inside c hc
                rw [hpos, hlen] at hin
                exact absurd hin (by change ¬p.bytes + (n + 1) + size ≤ size; omega)

/-- For every message and every results of `write` that fail or suffice, none more than it was asked for: the
message is written as it should be exactly when the first call that makes progress writes all of it. -/
theorem putBytesSilent_iff (data : Buffer UInt8) (size : ℕ) (rs : List WriteResult)
    (hcounts : ∀ n, .wrote n ∈ rs → n ≤ size) (hends : .failed ∈ rs ∨ size ≤ written rs) :
    (∃ rc p, putBytesSilent (some data) size rs = some (rc, p) ∧ PutsAll data size rc p) ↔
      ∀ n, firstCount rs = some n → n = size := by
  have hreturns : ∃ out, putLoop data size rs ⟨0, [], []⟩ = some out := by
    apply putLoop_ends
    rw [Nat.zero_add]
    exact hends
  obtain ⟨⟨rc, q⟩, hrun⟩ := hreturns
  have honly : (∃ rc p, putBytesSilent (some data) size rs = some (rc, p) ∧ PutsAll data size rc p) ↔
      PutsAll data size rc q := by
    constructor
    · rintro ⟨rc', q', hrun', hputs⟩
      obtain ⟨rfl, rfl⟩ := Prod.mk.inj (Option.some.inj (hrun'.symm.trans hrun))
      exact hputs
    · exact fun hputs => ⟨rc, q, hrun, hputs⟩
  rw [honly]
  rcases Nat.eq_zero_or_pos size with rfl | hsize
  · rw [putLoop_done (Nat.lt_irrefl 0)] at hrun
    obtain ⟨hrc, hq⟩ := Prod.mk.inj (Option.some.inj hrun)
    refine iff_of_true ?_ (fun n hn => Nat.le_zero.mp (hcounts n (firstCount_mem hn)))
    rw [← hrc, ← hq]
    refine ⟨?_, fun _ => ⟨rfl, rfl⟩, ?_⟩
    · intro c hc
      cases hc
    · rintro ⟨c, hc, -⟩
      cases hc
  · refine putLoop_iff hsize hcounts ⟨rfl, rfl, ?_, ?_⟩ hrun <;>
    · intro c hc
      cases hc

theorem putBytesSilent_iff_whole :
    (∃ rc p, putBytesSilent (some (Buffer.const 7)) 5 [.eintr, .wrote 5] = some (rc, p) ∧
      PutsAll (Buffer.const 7) 5 rc p) ↔ ∀ n, firstCount [.eintr, .wrote 5] = some n → n = 5 :=
  putBytesSilent_iff (Buffer.const 7) 5 [.eintr, .wrote 5] (by simp) (.inr (by decide))

/-- Five bytes, and what happens to lie behind them. -/
def sampleMessage : Buffer UInt8 := fun i => UInt8.ofNat i

example : (putBytesSilent (some sampleMessage) 5 [.wrote 2, .wrote 5]).map (fun out => (out.1, out.2.stream)) =
    some (7, [0, 1, 2, 3, 4, 5, 6]) := by decide +kernel

/-- After a short count of 2 the loop asks for 5 bytes where 3 are left. -/
theorem putBytesSilent_short : ¬∃ rc p, putBytesSilent (some sampleMessage) 5 [.wrote 2, .wrote 5] = some (rc, p) ∧
    PutsAll sampleMessage 5 rc p := by
  rintro ⟨rc, p, hrun, hputs⟩
  have hcalls : (putBytesSilent (some sampleMessage) 5 [.wrote 2, .wrote 5]).map (fun out => out.2.calls) =
      some [⟨0, 5, .wrote 2⟩, ⟨2, 5, .wrote 5⟩] := by decide +kernel
  rw [hrun] at hcalls
  have hmade : p.calls = [⟨0, 5, .wrote 2⟩, ⟨2, 5, .wrote 5⟩] := Option.some.inj hcalls
  have hin := hputs.inside ⟨2, 5, .wrote 5⟩ (by rw [hmade]; decide)
  exact absurd hin (by decide)

end Results

end Ocse
