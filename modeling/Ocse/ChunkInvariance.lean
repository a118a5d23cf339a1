import Mathlib.Logic.Function.Iterate
import Ocse.ChunkReceive

/-!
# A stream in pieces and a stream of whole frames

The event loops call a receiver again and again on one socket. `Session` is such a loop: it notes what every
call returned that did not return zero. It is compared with the delivery of each frame whole, by one call on
a socket that holds that frame and nothing else.
-/

namespace Ocse

/-! ## The loop around a receiver -/

structure Session where
  event : AfuEvent
  socket : Socket
  outcomes : List (ℤ × AfuEvent)

section Delivery

variable (get : AfuEvent → Socket → ℤ × AfuEvent × Socket)

def Session.call (w : Session) : Session :=
  let (rc, event, socket) := get w.event w.socket
  { event, socket, outcomes := if rc = 0 then w.outcomes else w.outcomes ++ [(rc, event)] }

/-- `n` calls on a stream whose frames nobody has looked at yet. -/
def Session.run (e : AfuEvent) (s : Socket) (n : ℕ) : Session := (Session.call get)^[n] ⟨e, s, []⟩

/-- The event when the frames have been delivered whole, one after the other. -/
def wholeEvent (e : AfuEvent) (fs : List (List UInt8)) : AfuEvent :=
  fs.foldl (fun e f => (get e (Socket.whole f)).2.1) e

/-- What the calls return for whole frames. -/
def wholeOutcomes (e : AfuEvent) : List (List UInt8) → List (ℤ × AfuEvent)
  | [] => []
  | f :: fs =>
    let (rc, e', _) := get e (Socket.whole f)
    (rc, e') :: wholeOutcomes e' fs

/-- One answer for each frame, from the event that the frame found. -/
def wholeAnswers (answer : AfuEvent → List UInt8 → List UInt8) (e : AfuEvent) : List (List UInt8) → List UInt8
  | [] => []
  | f :: fs => answer e f ++ wholeAnswers answer (get e (Socket.whole f)).2.1 fs

/-- The frames of which the session has seen something: those it reported, and the one under way. -/
def Session.begun (w : Session) : ℕ := w.outcomes.length + if w.event.rbp = 0 then 0 else 1

/-- What a session has done is what whole delivery of the frames does: the same outcomes, all of them events,
exactly the bytes of their frames and of the one under way, and one answer to each. -/
structure Session.Follows (answer : AfuEvent → List UInt8 → List UInt8) (e : AfuEvent) (s : Socket)
    (fs : List (List UInt8)) (w : Session) : Prop where
  within : w.begun ≤ fs.length
  outcomes : w.outcomes = wholeOutcomes get e (fs.take w.outcomes.length)
  events : ∀ o ∈ w.outcomes, o.1 = 1
  bytes : (fs.take w.outcomes.length).flatten ++ w.event.rbuf.read 0 w.event.rbp ++ w.socket.stream = fs.flatten
  short : ∀ f, fs[w.outcomes.length]? = some f → w.event.rbp < f.length
  sent : w.socket.sent = s.sent ++ wholeAnswers get answer e (fs.take w.begun)

/-- A call stores nothing behind the frame under way. -/
def Session.StoresWithin (fs : List (List UInt8)) (w w' : Session) : Prop :=
  ∀ i, w'.event.rbuf i ≠ w.event.rbuf i → ∃ f, fs[w.outcomes.length]? = some f ∧ i < f.length

theorem wholeOutcomes_cons (e : AfuEvent) (f : List UInt8) (fs : List (List UInt8)) :
    wholeOutcomes get e (f :: fs) = ((get e (Socket.whole f)).1, (get e (Socket.whole f)).2.1) ::
      wholeOutcomes get (get e (Socket.whole f)).2.1 fs := rfl

theorem wholeOutcomes_append (e : AfuEvent) (fs fs' : List (List UInt8)) : wholeOutcomes get e (fs ++ fs') =
    wholeOutcomes get e fs ++ wholeOutcomes get (wholeEvent get e fs) fs' := by
  induction fs generalizing e with
  | nil => rfl
  | cons f fs ih => exact congrArg (List.cons _) (ih _)

theorem wholeAnswers_append (answer : AfuEvent → List UInt8 → List UInt8) (e : AfuEvent)
    (fs fs' : List (List UInt8)) : wholeAnswers get answer e (fs ++ fs') =
      wholeAnswers get answer e fs ++ wholeAnswers get answer (wholeEvent get e fs) fs' := by
  induction fs generalizing e with
  | nil => rfl
  | cons f fs ih =>
    change answer e f ++ _ = answer e f ++ _ ++ _
    rw [List.append_assoc]
    exact congrArg (answer e f ++ ·) (ih _)

theorem wholeAnswers_singleton (answer : AfuEvent → List UInt8 → List UInt8) (e : AfuEvent) (f : List UInt8) :
    wholeAnswers get answer e [f] = answer e f := List.append_nil _

theorem wholeEvent_append (e : AfuEvent) (fs fs' : List (List UInt8)) :
    wholeEvent get e (fs ++ fs') = wholeEvent get (wholeEvent get e fs) fs' := List.foldl_append

theorem length_wholeOutcomes (e : AfuEvent) (fs : List (List UInt8)) :
    (wholeOutcomes get e fs).length = fs.length := by
  induction fs generalizing e with
  | nil => rfl
  | cons f fs ih => exact congrArg (· + 1) (ih _)

end Delivery

/-! ## Whole delivery -/

section Whole

variable (R : Receiver) {e : AfuEvent} {f : List UInt8}

/-- The size bytes are all that the sizes of a frame depend on. -/
theorem Receiver.sizes_head (hlong : 5 < f.length) (b c : Buffer UInt8) :
    R.length (b.write 0 (f.take 5)) = R.length (c.write 0 f) ∧
      R.counts (b.write 0 (f.take 5)) = R.counts (c.write 0 f) := by
  apply R.sizes_congr
  intro i hi
  have hagree := write_take_agrees (b := c) (c := b) (f.take 5) (f.drop 5) (i := i)
    (by rw [List.length_take]; omega)
  rw [List.take_append_drop] at hagree
  exact hagree.symm

/-- Behind the head of a frame that is all there, the four bytes are the sizes. -/
theorem Receiver.bodyOrderly_whole (hlong : 5 < f.length)
    (hlength : R.length ((Buffer.const 0).write 0 f) = f.length) :
    R.bodyOrderly (R.partway e f 1) ((Socket.whole f).after 1) = true := by
  have hstream : ((Socket.whole f).after 1).stream = f.drop 1 ++ [] := by
    rw [List.append_nil]
    rfl
  have hready : ((Socket.whole f).after 1).ready 4 = 4 := by
    rw [Socket.ready_of_arrived rfl, hstream, List.append_nil, List.length_drop]
    omega
  have hread : (R.partway e f 1).rbuf.read 0 1 = f.take 1 := by
    have h := Buffer.read_eq_of_holds (Buffer.holds_write e.rbuf 0 (f.take 1))
    rw [List.length_take, Nat.min_eq_left (by omega)] at h
    exact h
  have hview : (R.partway e f 1).rbuf.read 0 1 ++ ((Socket.whole f).after 1).stream = f := by
    rw [hread, hstream, List.append_nil, List.take_append_drop]
  have hearly := (R.partway_write (e := e) (by omega) hstream (k := 4) (by omega)).2
  have hsizes := R.sizes_head hlong e.rbuf (Buffer.const 0)
  have hrbp : (R.partway e f 1).rbp = 1 := rfl
  have hrbuf : (R.partway e f (1 + 4)).rbuf = e.rbuf.write 0 (f.take 5) := rfl
  unfold Receiver.bodyOrderly
  simp only [hrbp, hview, hready, hearly, hrbuf, hsizes.1, hsizes.2, hlength]
  simp
  omega

/-- A call that finds a whole frame meets the condition. -/
theorem Receiver.orderly_whole (hf : R.WellFormed f) (hrbp : e.rbp = 0) :
    R.orderly e (Socket.whole f) = true := by
  have hpos := hf.pos
  have hready : (Socket.whole f).ready 1 = 1 := by
    rw [Socket.ready_of_arrived rfl]
    exact Nat.min_eq_left hpos
  have hhead : e.rbuf.write 0 (f.take 1) 0 = f.headD 0 := R.partway_head (e := e) Nat.one_pos hpos
  unfold Receiver.orderly AfuEvent.headRead
  simp only [if_pos hrbp, hready, Socket.whole_stream, hhead, decide_eq_true hrbp, Bool.true_or, Bool.true_and,
    Bool.or_eq_true, decide_eq_true_eq]
  by_cases hclock : f.headD 0 = R.clockByte
  · exact .inl (.inr hclock)
  · obtain ⟨hlong, hlength⟩ := hf.long hclock
    exact .inr (R.bodyOrderly_whole hlong hlength)

theorem Receiver.get_whole (hf : R.WellFormed f) (hrbp : e.rbp = 0) :
    (R.get e (Socket.whole f)).1 = 1 ∧ (R.get e (Socket.whole f)).2.1 = R.reported e f ∧
      (R.get e (Socket.whole f)).2.2.sent = (R.headed e f).2 := by
  have hwf : ∀ f' ∈ [f], R.WellFormed f' := by simpa using hf
  have hopen : (Socket.whole f).Open := fun a ha => absurd ha (by simp)
  have hat : R.At e [] [f] e (Socket.whole f) := .idle [f] _ hrbp hopen (by simp) rfl
  rcases R.get_orderly hwf hat (R.orderly_whole hf hrbp) with
    ⟨e', s', -, -, hfewer⟩ | ⟨f', fs', s', hcons, hget, -, -, hsent, -⟩
  · exact absurd (hfewer (by simp)) (Nat.not_lt_zero _)
  · obtain ⟨rfl, rfl⟩ := List.cons.inj hcons
    rw [hget]
    exact ⟨rfl, rfl, hsent⟩

theorem Receiver.reported_rbp : (R.reported e f).rbp = 0 := by
  unfold Receiver.reported
  split
  · rfl
  · exact R.parse_rbp _ _

theorem Receiver.reported_rbuf : (R.reported e f).rbuf = e.rbuf.write 0 f := by
  unfold Receiver.reported
  split
  · next hone =>
    have hrbuf : (R.headed e f).1.rbuf = e.rbuf.write 0 (f.take 1) := R.onHead_rbuf _
    rw [← hone, List.take_length] at hrbuf
    exact hrbuf
  · rw [R.parse_rbuf]
    change e.rbuf.write 0 (f.take f.length) = _
    rw [List.take_length]

theorem Receiver.wholeOutcomes_one {fs : List (List UInt8)} (hwf : ∀ f ∈ fs, R.WellFormed f) {e : AfuEvent}
    (hrbp : e.rbp = 0) : ∀ o ∈ wholeOutcomes R.get e fs, o.1 = 1 := by
  induction fs generalizing e with
  | nil => exact fun o ho => absurd ho (List.not_mem_nil)
  | cons f fs ih =>
    obtain ⟨hrc, hevent, -⟩ := R.get_whole (hwf f (by simp)) hrbp
    intro o ho
    rw [wholeOutcomes_cons, hrc, hevent] at ho
    rcases List.mem_cons.mp ho with rfl | ho
    · rfl
    · exact ih (fun f' hf' => hwf f' (by simp [hf'])) R.reported_rbp o ho

end Whole

/-! ## Runs -/

section Run

variable (R : Receiver) (answer : AfuEvent → List UInt8 → List UInt8)

/-- Where a run stands after `n` calls: the frames in `past` have been reported, those in `rest` have not. -/
structure Receiver.Tracks (e : AfuEvent) (s : Socket) (n : ℕ) (past rest : List (List UInt8)) (w : Session) :
    Prop where
  outcomes : w.outcomes = wholeOutcomes R.get e past
  stands : R.At (wholeEvent R.get e past) (s.sent ++ wholeAnswers R.get answer e past) rest w.event w.socket
  left : rest ≠ [] → w.socket.arrivals.length + rest.length + n ≤ s.arrivals.length + (past ++ rest).length

variable {R}

theorem Receiver.At.rbp_zero {e e' : AfuEvent} {sent : List UInt8} {fs : List (List UInt8)} {s : Socket}
    (h : R.At e sent fs e' s) : e.rbp = 0 := by
  cases h <;> assumption

/-- Behind the frame under way the buffer is what it was when the frame began. -/
theorem Receiver.At.beyond {e e' : AfuEvent} {sent : List UInt8} {fs : List (List UInt8)} {s : Socket}
    (h : R.At e sent fs e' s) {i : ℕ} (hi : ∀ f, fs.head? = some f → f.length ≤ i) : e'.rbuf i = e.rbuf i := by
  cases h with
  | idle => rfl
  | partway f fs n s hrbp hn hlt hopen hstream hsent =>
    have hle := hi f rfl
    refine Buffer.write_of_ge e.rbuf 0 (f.take n) i ?_
    rw [List.length_take]
    omega

variable {answer}

theorem Receiver.Tracks.length_outcomes {e : AfuEvent} {s : Socket} {n : ℕ} {past rest : List (List UInt8)}
    {w : Session} (h : R.Tracks answer e s n past rest w) : w.outcomes.length = past.length := by
  rw [h.outcomes, length_wholeOutcomes]

variable (hanswer : ∀ e f, R.WellFormed f → (R.headed e f).2 = answer e f)
include hanswer

/-- One call. -/
theorem Receiver.Tracks.call {e : AfuEvent} {s : Socket} {n : ℕ} {past rest : List (List UInt8)} {w : Session}
    (h : R.Tracks answer e s n past rest w) (hwf : ∀ f ∈ rest, R.WellFormed f)
    (horderly : R.orderly w.event w.socket = true) :
    (∃ past' rest', past' ++ rest' = past ++ rest ∧ R.Tracks answer e s (n + 1) past' rest' (w.call R.get)) ∧
      Session.StoresWithin (past ++ rest) w (w.call R.get) := by
  have hindex : (past ++ rest)[w.outcomes.length]? = rest.head? := by
    rw [h.length_outcomes, List.getElem?_append_right (Nat.le_refl _), Nat.sub_self, List.head?_eq_getElem?]
  have hstores : ∀ e' : AfuEvent, (∀ i, (∀ f, rest.head? = some f → f.length ≤ i) →
      e'.rbuf i = (wholeEvent R.get e past).rbuf i) → ∀ i, e'.rbuf i ≠ w.event.rbuf i →
        ∃ f, (past ++ rest)[w.outcomes.length]? = some f ∧ i < f.length := by
    intro e' hbeyond i hne
    by_contra hnone
    have hbehind : ∀ f, rest.head? = some f → f.length ≤ i := by
      intro f hf
      by_contra hlt
      exact hnone ⟨f, hindex.trans hf, Nat.lt_of_not_le hlt⟩
    exact hne ((hbeyond i hbehind).trans (h.stands.beyond hbehind).symm)
  rcases R.get_orderly hwf h.stands horderly with
    ⟨e', s', hget, hat, hfewer⟩ | ⟨f, fs, s', hcons, hget, hopen, hstream, hsent, hfewer⟩
  · have hcall : w.call R.get = ⟨e', s', w.outcomes⟩ := by
      rw [Session.call, hget]
      rfl
    rw [hcall]
    refine ⟨⟨past, rest, rfl, h.outcomes, hat, fun hsome => ?_⟩, hstores e' fun i hi => hat.beyond hi⟩
    have hleft := h.left hsome
    have hless := hfewer hsome
    change s'.arrivals.length + _ + _ ≤ _
    omega
  · subst hcons
    have hf := hwf f (by simp)
    have hrbp := h.stands.rbp_zero
    obtain ⟨hrc, hevent, -⟩ := R.get_whole hf hrbp
    have hcall : w.call R.get = ⟨R.reported (wholeEvent R.get e past) f, s',
        w.outcomes ++ [(1, R.reported (wholeEvent R.get e past) f)]⟩ := by
      rw [Session.call, hget]
      rfl
    rw [hcall]
    have hnext : wholeEvent R.get e (past ++ [f]) = R.reported (wholeEvent R.get e past) f := by
      rw [wholeEvent_append, ← hevent]
      rfl
    refine ⟨⟨past ++ [f], fs, by simp, ?_, ?_, fun hsome => ?_⟩, hstores _ fun i hi => ?_⟩
    · change w.outcomes ++ _ = _
      rw [wholeOutcomes_append, h.outcomes, ← hevent, ← hrc]
      rfl
    · rw [hnext]
      refine .idle fs s' R.reported_rbp hopen hstream ?_
      rw [hsent, hanswer _ f hf, wholeAnswers_append, wholeAnswers_singleton, ← List.append_assoc]
    · have hleft := h.left (by simp)
      simp only [List.length_append, List.length_cons, List.length_nil] at hleft ⊢
      omega
    · rw [R.reported_rbuf]
      exact Buffer.write_of_ge _ _ _ _ (by have := hi f rfl; omega)

/-- A whole run whose calls all meet the condition. -/
theorem Receiver.run_tracks {e : AfuEvent} {s : Socket} {fs : List (List UInt8)} (hwf : ∀ f ∈ fs, R.WellFormed f)
    (hrbp : e.rbp = 0) (hopen : s.Open) (hstream : s.stream = fs.flatten) {n : ℕ}
    (horderly : ∀ m < n, R.orderly (Session.run R.get e s m).event (Session.run R.get e s m).socket = true) :
    (∃ past rest, past ++ rest = fs ∧ R.Tracks answer e s n past rest (Session.run R.get e s n)) ∧
      ∀ m < n, Session.StoresWithin fs (Session.run R.get e s m) (Session.run R.get e s (m + 1)) := by
  induction n with
  | zero =>
    refine ⟨⟨[], fs, rfl, rfl, ?_, fun _ => ?_⟩, fun m hm => absurd hm (Nat.not_lt_zero m)⟩
    · exact .idle fs s hrbp hopen hstream (List.append_nil _).symm
    · change s.arrivals.length + _ + 0 ≤ _
      rw [List.nil_append]
      exact Nat.le_refl _
  | succ n ih =>
    obtain ⟨⟨past, rest, rfl, htracks⟩, hstores⟩ := ih (fun m hm => horderly m (Nat.lt_succ_of_lt hm))
    have hsucc : Session.run R.get e s (n + 1) = (Session.run R.get e s n).call R.get :=
      Function.iterate_succ_apply' _ _ _
    have hrest : ∀ f ∈ rest, R.WellFormed f := fun f hf => hwf f (List.mem_append_right past hf)
    obtain ⟨⟨past', rest', hsplit, htracks'⟩, hstores'⟩ :=
      htracks.call hanswer hrest (horderly n (Nat.lt_succ_self n))
    rw [← hsucc] at htracks' hstores'
    refine ⟨⟨past', rest', hsplit, htracks'⟩, fun m hm => ?_⟩
    rcases Nat.lt_succ_iff_lt_or_eq.mp hm with hm | rfl
    · exact hstores m hm
    · exact hstores'

/-- What that says of the session, without the frames that are not there any more. -/
theorem Receiver.Tracks.follows {e : AfuEvent} {s : Socket} {n : ℕ} {past rest : List (List UInt8)} {w : Session}
    (h : R.Tracks answer e s n past rest w) (hwf : ∀ f ∈ past ++ rest, R.WellFormed f) (hrbp : e.rbp = 0) :
    w.Follows R.get answer e s (past ++ rest) := by
  have hlength := h.length_outcomes
  have hpast : (past ++ rest).take w.outcomes.length = past := by
    rw [hlength, List.take_left]
  have hindex : (past ++ rest)[w.outcomes.length]? = rest.head? := by
    rw [hlength, List.getElem?_append_right (Nat.le_refl _), Nat.sub_self, List.head?_eq_getElem?]
  have hevents : ∀ o ∈ w.outcomes, o.1 = 1 := by
    rw [h.outcomes]
    exact R.wholeOutcomes_one (fun f hf => hwf f (List.mem_append_left rest hf)) hrbp
  have houtcomes : w.outcomes = wholeOutcomes R.get e ((past ++ rest).take w.outcomes.length) := by
    rw [hpast]
    exact h.outcomes
  have hstands := h.stands
  obtain ⟨event, socket, outcomes⟩ := w
  dsimp only at hlength hpast hindex hevents houtcomes hstands
  cases hstands with
  | idle _ _ hrbp' hopen hstream hsent =>
    have hbegun : Session.begun ⟨wholeEvent R.get e past, socket, outcomes⟩ = outcomes.length := by
      rw [Session.begun, if_pos hrbp', Nat.add_zero]
    refine ⟨?_, houtcomes, hevents, ?_, ?_, ?_⟩
    · rw [hbegun, hlength, List.length_append]
      exact Nat.le_add_right _ _
    · dsimp only
      rw [hpast, hrbp', hstream, List.flatten_append]
      simp [Buffer.read]
    · intro f hf
      dsimp only at hf ⊢
      rw [hindex] at hf
      rw [hrbp']
      exact (hwf f (List.mem_append_right past (List.mem_of_mem_head? hf))).pos
    · rw [hbegun, hpast]
      exact hsent
  | partway f fs k _ hrbp' hk hlt hopen hstream hsent =>
    have hne : ¬(R.partway (wholeEvent R.get e past) f k).rbp = 0 := Nat.ne_of_gt hk
    have hbegun : Session.begun ⟨R.partway (wholeEvent R.get e past) f k, socket, outcomes⟩ = outcomes.length + 1 := by
      rw [Session.begun, if_neg hne]
    have hread : (R.partway (wholeEvent R.get e past) f k).rbuf.read 0 k = f.take k := by
      have hholds := Buffer.read_eq_of_holds (Buffer.holds_write (wholeEvent R.get e past).rbuf 0 (f.take k))
      rw [List.length_take, Nat.min_eq_left (Nat.le_of_lt hlt)] at hholds
      exact hholds
    have hrbp'' : (R.partway (wholeEvent R.get e past) f k).rbp = k := rfl
    have hf := hwf f (by simp)
    refine ⟨?_, houtcomes, hevents, ?_, ?_, ?_⟩
    · rw [hbegun, hlength, List.length_append, List.length_cons]
      omega
    · dsimp only
      rw [hpast, hrbp'', hread, hstream, List.flatten_append, List.flatten_cons, List.append_assoc,
        ← List.append_assoc (f.take k), List.take_append_drop]
    · intro f' hf'
      rw [hindex] at hf'
      obtain rfl : f = f' := by simpa using hf'
      exact hlt
    · have htake : (past ++ f :: fs).take (outcomes.length + 1) = past ++ [f] := by
        rw [hlength, ← List.singleton_append, ← List.append_assoc]
        exact List.take_left' (by simp)
      rw [hbegun, htake, wholeAnswers_append, wholeAnswers_singleton, ← List.append_assoc, ← hanswer _ f hf]
      exact hsent

/-- All of it together, and that enough calls report every frame. -/
theorem Receiver.run_follows {e : AfuEvent} {s : Socket} {fs : List (List UInt8)} (hwf : ∀ f ∈ fs, R.WellFormed f)
    (hrbp : e.rbp = 0) (hopen : s.Open) (hstream : s.stream = fs.flatten) {n : ℕ}
    (horderly : ∀ m < n, R.orderly (Session.run R.get e s m).event (Session.run R.get e s m).socket = true) :
    (Session.run R.get e s n).Follows R.get answer e s fs ∧
      (∀ m < n, Session.StoresWithin fs (Session.run R.get e s m) (Session.run R.get e s (m + 1))) ∧
      (s.arrivals.length + fs.length ≤ n → (Session.run R.get e s n).outcomes = wholeOutcomes R.get e fs) := by
  obtain ⟨⟨past, rest, rfl, htracks⟩, hstores⟩ := R.run_tracks hanswer hwf hrbp hopen hstream horderly
  refine ⟨htracks.follows hanswer hwf hrbp, hstores, fun henough => ?_⟩
  have hnone : rest = [] := by
    by_contra hsome
    have hleft := htracks.left hsome
    have hpos := List.length_pos_iff.mpr hsome
    omega
  rw [hnone, List.append_nil]
  exact htracks.outcomes

end Run

/-! ## The two ends -/

/-- What the AFU owes for a frame: one frame of its own if there is a clock in it. -/
def clockAnswer (e : AfuEvent) (f : List UInt8) : List UInt8 :=
  if f.headD 0 &&& 0x40 ≠ 0 then (tlxSignalTlxModel { e with clock := 1 }).2.2 else []

/-- `n` calls on a stream that arrives in pieces do what whole delivery does. -/
structure ChunkInvariant (get : AfuEvent → Socket → ℤ × AfuEvent × Socket)
    (answer : AfuEvent → List UInt8 → List UInt8) (e : AfuEvent) (s : Socket) (fs : List (List UInt8)) (n : ℕ) :
    Prop where
  follows : (Session.run get e s n).Follows get answer e s fs
  stores : ∀ m < n, Session.StoresWithin fs (Session.run get e s m) (Session.run get e s (m + 1))
  complete : s.arrivals.length + fs.length ≤ n → (Session.run get e s n).outcomes = wholeOutcomes get e fs

theorem hostReceiver_answer (e : AfuEvent) (f : List UInt8) : (hostReceiver.headed e f).2 = [] := rfl

theorem afuReceiver_answer (e : AfuEvent) (f : List UInt8) (hf : afuReceiver.WellFormed f) :
    (afuReceiver.headed e f).2 = clockAnswer e f := by
  have hhead : e.rbuf.write 0 (f.take 1) 0 = f.headD 0 := afuReceiver.partway_head (e := e) Nat.one_pos hf.pos
  unfold clockAnswer Receiver.headed
  simp only [afuReceiver, present, hhead]
  split <;> rfl

/-- The frames of the host are well formed. -/
theorem tlxSignalAfuModel_wellFormed (e : AfuEvent) (hclock : e.clock = 0)
    (hcmd : e.tlxCmdData.byteCnt.toNat ≤ 256) (hresp : e.tlxRespData.byteCnt.toNat ≤ 256) :
    afuReceiver.WellFormed (tlxSignalAfuModel e).2.2 := by
  rw [tlxSignalAfuModel_frame e hclock]
  by_cases hbody : (hostBuffer e).body = []
  · left
    rw [TxBuffer.frame_of_eq _ hbody, (hostBuffer_head_eq_iff e).mpr hbody]
    rfl
  · right
    have hpos := List.length_pos_iff.mpr hbody
    have hholds := Buffer.holds_write (Buffer.const 0) 0 ((hostBuffer e).header ++ (hostBuffer e).body)
    rw [Buffer.holds_append] at hholds
    rw [TxBuffer.frame_of_ne _ hbody]
    refine ⟨fun h => hbody ((hostBuffer_head_eq_iff e).mp h), ?_, ?_⟩
    · rw [List.length_append, TxBuffer.length_header]
      omega
    · rw [List.length_append, TxBuffer.length_header]
      exact tlxEventsLength_eq e _ (hostHeader_of_holds e _ hcmd hresp hholds.1)

/-- The frames of the AFU are well formed. -/
theorem tlxSignalTlxModel_wellFormed (e : AfuEvent) (hclock : e.clock = 1) :
    hostReceiver.WellFormed (tlxSignalTlxModel e).2.2 := by
  rw [tlxSignalTlxModel_frame e hclock]
  by_cases hbody : (afuBuffer e).body = []
  · left
    rw [TxBuffer.frame_of_eq _ hbody, (afuBuffer_head_eq_iff e).mpr hbody]
    rfl
  · right
    have hpos := List.length_pos_iff.mpr hbody
    have hholds := Buffer.holds_write (Buffer.const 0) 0 ((afuBuffer e).header ++ (afuBuffer e).body)
    rw [Buffer.holds_append] at hholds
    rw [TxBuffer.frame_of_ne _ hbody]
    refine ⟨fun h => hbody ((afuBuffer_head_eq_iff e).mp h), ?_, ?_⟩
    · rw [List.length_append, TxBuffer.length_header]
      omega
    · rw [List.length_append, TxBuffer.length_header]
      exact afuEventsLength_eq e _ (afuHeader_of_holds e _ hholds.1)

/-- Calls that all meet the condition see the frames as if they had arrived whole, at either end. -/
theorem chunkInvariance_orderly (e : AfuEvent) (s : Socket) (fs : List (List UInt8)) (n : ℕ) (hrbp : e.rbp = 0)
    (hopen : s.Open) (hstream : s.stream = fs.flatten) :
    ((∀ f ∈ fs, hostReceiver.WellFormed f) → (∀ m < n, hostReceiver.orderly
        (Session.run tlxGetAfuEvents e s m).event (Session.run tlxGetAfuEvents e s m).socket = true) →
      ChunkInvariant tlxGetAfuEvents (fun _ _ => []) e s fs n) ∧
    ((∀ f ∈ fs, afuReceiver.WellFormed f) → (∀ m < n, afuReceiver.orderly
        (Session.run tlxGetTlxEvents e s m).event (Session.run tlxGetTlxEvents e s m).socket = true) →
      ChunkInvariant tlxGetTlxEvents clockAnswer e s fs n) := by
  have hhost : tlxGetAfuEvents = hostReceiver.get := funext₂ tlxGetAfuEvents_eq
  have hafu : tlxGetTlxEvents = afuReceiver.get := funext₂ tlxGetTlxEvents_eq
  rw [hhost, hafu]
  constructor
  · intro hwf horderly
    obtain ⟨hfollows, hstores, hcomplete⟩ :=
      Receiver.run_follows (fun e f _ => hostReceiver_answer e f) hwf hrbp hopen hstream horderly
    exact ⟨hfollows, hstores, hcomplete⟩
  · intro hwf horderly
    obtain ⟨hfollows, hstores, hcomplete⟩ :=
      Receiver.run_follows afuReceiver_answer hwf hrbp hopen hstream horderly
    exact ⟨hfollows, hstores, hcomplete⟩

/-- An AFU frame that comes in three pieces, the last for a second call, and a host frame that one call finds
whole after another has found nothing. -/
theorem chunkInvariance_pieces :
    ChunkInvariant tlxGetAfuEvents (fun _ _ => []) tlxEventReset
      ⟨(tlxSignalTlxModel sampleAfuEvent).2.2, [.upTo 1, .upTo 4, .upTo 10], []⟩
      [(tlxSignalTlxModel sampleAfuEvent).2.2] 4 ∧
    ChunkInvariant tlxGetTlxEvents clockAnswer tlxEventReset
      ⟨(tlxSignalAfuModel sampleHostEvent).2.2, [.upTo 0, .upTo 1, .upTo 4], []⟩
      [(tlxSignalAfuModel sampleHostEvent).2.2] 4 := by
  have hafu := tlxSignalTlxModel_wellFormed sampleAfuEvent rfl
  have hhost := tlxSignalAfuModel_wellFormed sampleHostEvent rfl (by decide) (by decide)
  constructor
  · refine (chunkInvariance_orderly tlxEventReset _ _ 4 rfl ?_ (by simp)).1 (by simpa using hafu) (by decide +kernel)
    simp [Socket.Open]
  · refine (chunkInvariance_orderly tlxEventReset _ _ 4 rfl ?_ (by simp)).2 (by simpa using hhost) (by decide +kernel)
    simp [Socket.Open]

/-- Two frames that may arrive in pieces: credits alone, from the host and from the AFU. -/
def hostCreditsAlone : AfuEvent :=
  { tlxEventReset with tlxCredits := { tlxEventReset.tlxCredits with valid := 1, cmdCredit := 1 } }

def afuCreditsAlone : AfuEvent :=
  { tlxEventReset with
    clock := 1
    afuCreditReq := { tlxEventReset.afuCreditReq with valid := 1, cmdCredit := 1 } }

/-- A host frame whose first byte comes alone is answered twice; and of an AFU frame whose last four bytes come
late, the read of the sizes takes them all, so that the next read asks for nothing and the call fails. -/
theorem chunkInvariance_resumed :
    ¬(∀ (e : AfuEvent) (s : Socket) (fs : List (List UInt8)) (n : ℕ), e.rbp = 0 → s.Open → s.stream = fs.flatten →
      (∀ f ∈ fs, afuReceiver.WellFormed f) → ChunkInvariant tlxGetTlxEvents clockAnswer e s fs n) ∧
    ¬(∀ (e : AfuEvent) (s : Socket) (fs : List (List UInt8)) (n : ℕ), e.rbp = 0 → s.Open → s.stream = fs.flatten →
      (∀ f ∈ fs, hostReceiver.WellFormed f) → ChunkInvariant tlxGetAfuEvents (fun _ _ => []) e s fs n) := by
  constructor
  · intro h
    have hwf := tlxSignalAfuModel_wellFormed hostCreditsAlone rfl (by decide) (by decide)
    have hinv := h tlxEventReset ⟨(tlxSignalAfuModel hostCreditsAlone).2.2, [.upTo 1, .upTo 0], []⟩
      [(tlxSignalAfuModel hostCreditsAlone).2.2] 2 rfl (by simp [Socket.Open]) (by simp) (by simpa using hwf)
    exact absurd hinv.follows.sent (by decide +kernel)
  · intro h
    have hwf := tlxSignalTlxModel_wellFormed afuCreditsAlone rfl
    have hinv := h tlxEventReset ⟨(tlxSignalTlxModel afuCreditsAlone).2.2, [.upTo 1, .upTo 4, .upTo 6], []⟩
      [(tlxSignalTlxModel afuCreditsAlone).2.2] 2 rfl (by simp [Socket.Open]) (by simp) (by simpa using hwf)
    have hfailed : -1 ∈ (Session.run tlxGetAfuEvents tlxEventReset
        ⟨(tlxSignalTlxModel afuCreditsAlone).2.2, [.upTo 1, .upTo 4, .upTo 6], []⟩ 2).outcomes.map (·.1) := by
      decide +kernel
    obtain ⟨o, ho, hrc⟩ := List.mem_map.mp hfailed
    have hone := hinv.follows.events o ho
    omega

end Ocse
