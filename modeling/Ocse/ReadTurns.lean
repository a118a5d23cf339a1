import Ocse.MemAfu
import Ocse.MmioQueue

/-!
# Turns of the MMIO engine under a read

In each turn ocse does what its other users ask for, takes a frame and looks at the AFU's response and data in
it. The first event of the list is a read here, and whatever else goes on leaves it where it is; of the AFU's
side only the responses and the beats that the frames show matter.
-/

namespace Ocse

/-! ## What a frame shows -/

def AfuEvent.resp? (a : AfuEvent) : Option AfuTlxResp := if a.afuResp.valid = 0 then none else some a.afuResp

def AfuEvent.beat? (a : AfuEvent) : Option (Buffer UInt8) :=
  if a.afuRdata.valid = 0 then none else some a.afuRdata.bus

/-- A response stands before the beat that comes with it. -/
def AfuEvent.shows (a : AfuEvent) : List AfuItem := a.resp?.toList.map .resp ++ a.beat?.toList.map .beat

theorem afuTlxReadResp_fst (a : AfuEvent) : (afuTlxReadResp a).1 = a.resp? := by
  unfold afuTlxReadResp AfuEvent.resp?
  split <;> rfl

theorem afuTlxReadResp_beat (a : AfuEvent) : (afuTlxReadResp a).2.beat? = a.beat? := by
  unfold afuTlxReadResp AfuEvent.beat?
  split <;> rfl

theorem afuTlxReadRespData_fst (a : AfuEvent) : (afuTlxReadRespData a).1 = a.beat? := by
  unfold afuTlxReadRespData AfuEvent.beat?
  split <;> rfl

/-- The beats among some items. -/
def beatsOf (items : List AfuItem) : List (Buffer UInt8) :=
  items.filterMap (fun | .beat bus => some bus | .resp _ => none)

@[simp] theorem beatsOf_append (xs ys : List AfuItem) : beatsOf (xs ++ ys) = beatsOf xs ++ beatsOf ys :=
  List.filterMap_append

@[simp] theorem beatsOf_resps (rs : List AfuTlxResp) : beatsOf (rs.map .resp) = [] := by
  simp [beatsOf]

@[simp] theorem beatsOf_beats (bs : List (Buffer UInt8)) : beatsOf (bs.map .beat) = bs := by
  simp [beatsOf]

@[simp] theorem beatsOf_cons_resp (r : AfuTlxResp) (xs : List AfuItem) : beatsOf (.resp r :: xs) = beatsOf xs := rfl

theorem beatsOf_shows (a : AfuEvent) : beatsOf a.shows = a.beat?.toList := by
  rw [AfuEvent.shows, beatsOf_append, beatsOf_resps, beatsOf_beats, List.nil_append]

/-! ## Turns -/

/-- An action for one of the engine's users. -/
def MmioAction.Aside : MmioAction → Prop
  | .frame _ | .handleAfu => False
  | _ => True

structure MmioTurn where
  asides : List MmioAction
  aside : ∀ a ∈ asides, a.Aside
  frame : AfuEvent

def MmioTurn.actions (t : MmioTurn) : List MmioAction := t.asides ++ [.frame t.frame, .handleAfu]

def Mmio.turns (m : Mmio) (ts : List MmioTurn) : Mmio := m.run (ts.flatMap MmioTurn.actions)

/-- What the frames of some turns show, in order. -/
def shownIn (ts : List MmioTurn) : List AfuItem := ts.flatMap (fun t => t.frame.shows)

theorem run_run (m : Mmio) (as bs : List MmioAction) : m.run (as ++ bs) = (m.run as).run bs :=
  List.foldl_append

theorem turns_cons (m : Mmio) (t : MmioTurn) (ts : List MmioTurn) :
    m.turns (t :: ts) = (m.turns [t]).turns ts := by
  simp only [Mmio.turns, List.flatMap_cons, List.flatMap_nil, List.append_nil, run_run]

theorem turns_append (m : Mmio) (ts us : List MmioTurn) : m.turns (ts ++ us) = (m.turns ts).turns us := by
  rw [Mmio.turns, List.flatMap_append, run_run]
  rfl

/-- The engine runs and its first event is `e`. -/
structure Mmio.Heads (m : Mmio) (e : MmioEvent) : Prop where
  running : m.halted = false
  list : ∃ rest, m.list = e :: rest

section Turn

variable {m : Mmio} {e : MmioEvent}

theorem handleMmioDone_list (m : Mmio) (client : ℕ) :
    (handleMmioDone m client).list = m.list ∧ (handleMmioDone m client).halted = m.halted := by
  unfold handleMmioDone
  split
  · exact ⟨rfl, rfl⟩
  · split
    · exact ⟨rfl, rfl⟩
    · exact ⟨rfl, rfl⟩

/-- Nothing is sent while the first event is under way. -/
theorem sendMmio_under_way (h : m.Heads e) (hidle : e.state ≠ .idle) : sendMmio m = m := by
  obtain ⟨rest, hlist⟩ := h.list
  unfold sendMmio
  rw [hlist]
  exact if_pos hidle

theorem Mmio.Heads.aside (h : m.Heads e) (hidle : e.state ≠ .idle) {a : MmioAction} (ha : a.Aside) :
    (m.step a).Heads e := by
  obtain ⟨rest, hlist⟩ := h.list
  have hact : m.step a = m.act a := if_neg (by rw [h.running]; decide)
  have happend : ∀ x : MmioEvent, ∃ rest', m.list ++ [x] = e :: rest' :=
    fun x => ⟨rest ++ [x], by rw [hlist, List.cons_append]⟩
  rw [hact]
  cases a with
  | frame afuEvent => exact ha.elim
  | handleAfu => exact ha.elim
  | cfg rnw dw addr data => exact ⟨h.running, happend _⟩
  | mmio client cfg rnw dw global addr data => exact ⟨h.running, happend _⟩
  | mem client rnw size addr data beValid be => exact ⟨h.running, happend _⟩
  | send =>
      change (sendMmio m).Heads e
      rw [sendMmio_under_way h hidle]
      exact h
  | poll client =>
      obtain ⟨hsame, hrunning⟩ := handleMmioDone_list m client
      exact ⟨hrunning.trans h.running, rest, hsame.trans hlist⟩
  | depart client => exact ⟨h.running, rest, hlist⟩

theorem Mmio.Heads.asides (h : m.Heads e) (hidle : e.state ≠ .idle) {as : List MmioAction}
    (has : ∀ a ∈ as, a.Aside) : (m.run as).Heads e := by
  induction as generalizing m with
  | nil => exact h
  | cons a as ih =>
      apply ih (h.aside hidle (has a List.mem_cons_self))
      intro b hb
      exact has b (List.mem_cons_of_mem a hb)

/-- A turn ends with the look at its frame, on an engine whose first event is still `e`. -/
theorem Mmio.Heads.turn (h : m.Heads e) (hidle : e.state ≠ .idle) (t : MmioTurn) :
    ∃ m₁ : Mmio, m₁.Heads e ∧ m₁.afuEvent = t.frame ∧ m.turns [t] = handleAfuMmio m₁ := by
  have haside := h.asides hidle t.aside
  obtain ⟨rest, hlist⟩ := haside.list
  refine ⟨{ m.run t.asides with afuEvent := t.frame }, ⟨haside.running, rest, hlist⟩, rfl, ?_⟩
  have hrun : m.turns [t] = ((m.run t.asides).step (.frame t.frame)).step .handleAfu := by
    rw [Mmio.turns, List.flatMap_cons, List.flatMap_nil, List.append_nil, MmioTurn.actions, run_run]
    rfl
  have hframe : (m.run t.asides).step (.frame t.frame) = { m.run t.asides with afuEvent := t.frame } :=
    if_neg (by rw [haside.running]; decide)
  rw [hrun, hframe]
  exact if_neg (by rw [haside.running]; decide)

end Turn

/-! ## Gathering -/

/-- Where the `k`-th beat goes after the response `r`. -/
def AfuTlxResp.place (r : AfuTlxResp) (k : ℕ) : ℕ :=
  if r.dl = 1 then r.dp.toNat * 64 else if r.dl = 2 then r.dp.toNat * 128 + 64 * k else 64 * k

/-- The data when some beats have been stored after the response `r`. -/
def AfuTlxResp.stored (r : AfuTlxResp) (data : Buffer UInt8) (beats : List (Buffer UInt8)) : Buffer UInt8 :=
  beats.zipIdx.foldl (fun data bk => data.write (r.place bk.2) (bk.1.read 0 64)) data

/-- A read that has heard the response `r` and taken some beats. -/
def MmioEvent.gather (e : MmioEvent) (r : AfuTlxResp) (beats : List (Buffer UInt8)) : MmioEvent :=
  { e with
    state := .buffer
    respCode := r.code
    respOpcode := r.opcode
    respDL := r.dl
    respDP := r.dp
    partialIndex := 64 * beats.length
    sizeReceived := 64 * beats.length
    data := r.stored e.data beats }

theorem AfuTlxResp.stored_snoc (r : AfuTlxResp) (data : Buffer UInt8) (beats : List (Buffer UInt8))
    (bus : Buffer UInt8) :
    r.stored data (beats ++ [bus]) = (r.stored data beats).write (r.place beats.length) (bus.read 0 64) := by
  simp [AfuTlxResp.stored, List.zipIdx_append]

section Gather

variable {m : Mmio} {e : MmioEvent} (r : AfuTlxResp) (beats : List (Buffer UInt8))

/-- A read that has been sent and not been answered. -/
structure MmioEvent.Awaits (e : MmioEvent) : Prop where
  cfg : e.cfg = false
  rnw : e.rnw = true
  pending : e.state = .pending
  fresh : e.sizeReceived = 0

theorem handleApResp_mem (h : m.Heads e) (hcfg : e.cfg = false) :
    ∃ rest, m.list = e :: rest ∧ handleApResp m = handleMemResp m e rest := by
  obtain ⟨rest, hlist⟩ := h.list
  refine ⟨rest, hlist, ?_⟩
  unfold handleApResp
  rw [hlist]
  exact if_neg (by rw [hcfg]; decide)

/-- A frame without a response changes nothing, and one with a response that is not waited for only takes it. -/
theorem handleApResp_stays (h : m.Heads e) (hcfg : e.cfg = false)
    (hquiet : m.afuEvent.resp? = none ∨ e.state ≠ .pending) :
    (handleApResp m).Heads e ∧ (handleApResp m).afuEvent.beat? = m.afuEvent.beat? ∧
      (handleApResp m).finished = m.finished := by
  obtain ⟨rest, hlist, heq⟩ := handleApResp_mem h hcfg
  have hbeat := afuTlxReadResp_beat m.afuEvent
  have hresp := afuTlxReadResp_fst m.afuEvent
  rw [heq, handleMemResp]
  generalize afuTlxReadResp m.afuEvent = taken at hbeat hresp
  obtain ⟨shown, a⟩ := taken
  cases shown with
  | none => exact ⟨⟨h.running, rest, hlist⟩, hbeat, rfl⟩
  | some r =>
      have hstate : e.state ≠ .pending := by
        rcases hquiet with hnone | hstate
        · rw [hnone] at hresp
          cases hresp
        · exact hstate
      dsimp only
      rw [if_pos hstate]
      exact ⟨⟨h.running, rest, hlist⟩, hbeat, rfl⟩

/-- The response that a read waits for: the program ends, or the data is waited for. -/
theorem handleApResp_answers (h : m.Heads e) (he : e.Awaits) (hresp : m.afuEvent.resp? = some r) :
    (respDldpIsLegal e.cmdDL r.dl r.dp = false ∧ (handleApResp m).halted = true ∧
      (handleApResp m).list = m.list ∧ (handleApResp m).finished = m.finished) ∨
    (respDldpIsLegal e.cmdDL r.dl r.dp = true ∧ (handleApResp m).Heads (e.gather r []) ∧
      (handleApResp m).afuEvent.beat? = m.afuEvent.beat? ∧ (handleApResp m).finished = m.finished) := by
  obtain ⟨rest, hlist, heq⟩ := handleApResp_mem h he.cfg
  have hbeat := afuTlxReadResp_beat m.afuEvent
  have hfst := afuTlxReadResp_fst m.afuEvent
  rw [heq, handleMemResp]
  generalize afuTlxReadResp m.afuEvent = taken at hbeat hfst
  obtain ⟨shown, a⟩ := taken
  obtain rfl : shown = some r := hfst.trans hresp
  dsimp only
  rw [if_neg (not_not.mpr he.pending), if_pos he.rnw]
  cases hlegal : respDldpIsLegal e.cmdDL r.dl r.dp with
  | false => exact .inl ⟨rfl, rfl, rfl, rfl⟩
  | true =>
      refine .inr ⟨rfl, ⟨h.running, rest, ?_⟩, hbeat, rfl⟩
      simp [MmioEvent.gather, AfuTlxResp.stored, he.fresh]

theorem handleApRespData_read (h : m.Heads e) (hcfg : e.cfg = false) (hrnw : e.rnw = true) :
    ∃ rest, m.list = e :: rest ∧ handleApRespData m =
      match afuTlxReadRespData m.afuEvent with
      | (none, afuEvent) => { m with afuEvent }
      | (some bus, afuEvent) =>
        if e.state ≠ .buffer then { m with afuEvent } else takeRespData { m with afuEvent } e rest bus := by
  obtain ⟨rest, hlist⟩ := h.list
  refine ⟨rest, hlist, ?_⟩
  unfold handleApRespData
  rw [hlist]
  exact if_neg (by rw [hcfg, hrnw]; decide)

theorem handleApRespData_waits (h : m.Heads e) (hcfg : e.cfg = false) (hrnw : e.rnw = true)
    (hsilent : m.afuEvent.beat? = none) :
    (handleApRespData m).Heads e ∧ (handleApRespData m).finished = m.finished := by
  obtain ⟨rest, hlist, heq⟩ := handleApRespData_read h hcfg hrnw
  have hfst := afuTlxReadRespData_fst m.afuEvent
  rw [heq]
  generalize afuTlxReadRespData m.afuEvent = taken at hfst
  obtain ⟨shown, a⟩ := taken
  obtain rfl : shown = none := hfst.trans hsilent
  exact ⟨⟨h.running, rest, hlist⟩, rfl⟩

/-- A read of 64, 128 or 256 bytes, and a response with a length that it can have. -/
structure MmioEvent.Full (e : MmioEvent) : Prop where
  cfg : e.cfg = false
  rnw : e.rnw = true
  lines : 64 ∣ e.size
  some : 0 < e.size
  most : e.size ≤ 256

def AfuTlxResp.Long (r : AfuTlxResp) : Prop := r.dl = 1 ∨ r.dl = 2 ∨ r.dl = 3

theorem AfuTlxResp.Long.of_legal {r : AfuTlxResp} {cmdDL : UInt8}
    (h : respDldpIsLegal cmdDL r.dl r.dp = true) : r.Long := by
  unfold respDldpIsLegal at h
  unfold AfuTlxResp.Long
  simp only [Bool.or_eq_true, Bool.and_eq_true, decide_eq_true_eq] at h
  tauto

variable {r beats}

theorem beatOffset_gather (hr : r.Long) : (e.gather r beats).beatOffset = some (r.place beats.length) := by
  unfold MmioEvent.beatOffset AfuTlxResp.place
  change (if r.dl = 1 then some (r.dp.toNat * 64)
    else if r.dl = 2 then some (r.dp.toNat * 128 + 64 * beats.length)
    else if r.dl = 3 then some (64 * beats.length) else none) = _
  rcases hr with hdl | hdl | hdl <;> rw [hdl] <;> rfl

theorem beat_gather (bus : Buffer UInt8) (hroom : 64 * beats.length < 256) :
    (e.gather r beats).beat bus (r.place beats.length) = e.gather r (beats ++ [bus]) := by
  have hindex : (64 * beats.length + 64) % 2 ^ 16 = 64 * (beats ++ [bus]).length := by
    rw [List.length_append, List.length_singleton, Nat.mod_eq_of_lt (by omega)]
    rfl
  have hreceived : (64 * beats.length + 64) % 2 ^ 32 = 64 * (beats ++ [bus]).length := by
    rw [List.length_append, List.length_singleton, Nat.mod_eq_of_lt (by omega)]
    rfl
  simp only [MmioEvent.beat, MmioEvent.gather, hindex, hreceived, r.stored_snoc]

/-- One more beat: it goes on, or it was the last. -/
theorem handleApRespData_bus (he : e.Full) (hr : r.Long) (h : m.Heads (e.gather r beats)) {bus : Buffer UInt8}
    (hmore : 64 * beats.length < e.size) (hbeat : m.afuEvent.beat? = some bus) :
    (64 * (beats ++ [bus]).length < e.size ∧ (handleApRespData m).Heads (e.gather r (beats ++ [bus]))) ∨
    (64 * (beats ++ [bus]).length = e.size ∧ (handleApRespData m).finished =
      m.finished ++ [{ e.gather r (beats ++ [bus]) with state := .done }]) := by
  obtain ⟨rest, hlist, heq⟩ := handleApRespData_read h he.cfg he.rnw
  have hfst := afuTlxReadRespData_fst m.afuEvent
  obtain ⟨k, hk⟩ := he.lines
  have hmost := he.most
  have hroom : 64 * beats.length < 256 := by omega
  rw [heq]
  generalize afuTlxReadRespData m.afuEvent = taken at hfst
  obtain ⟨shown, a⟩ := taken
  obtain rfl : shown = some bus := hfst.trans hbeat
  have hstate : ¬(e.gather r beats).state ≠ .buffer := not_not.mpr rfl
  have hzero : ¬(e.gather r beats).size = 0 := Nat.pos_iff_ne_zero.mp he.some
  have hlong : ¬(e.gather r beats).size < 64 := by
    change ¬e.size < 64
    have := he.some
    omega
  have hgot : (e.gather r (beats ++ [bus])).sizeReceived = 64 * (beats ++ [bus]).length := rfl
  have hsize : (e.gather r (beats ++ [bus])).size = e.size := rfl
  dsimp only
  rw [if_neg hstate]
  unfold takeRespData
  dsimp only
  rw [if_neg hzero, if_neg hlong, beatOffset_gather hr]
  dsimp only
  rw [beat_gather bus hroom, hgot, hsize]
  by_cases hlast : 64 * (beats ++ [bus]).length = e.size
  · rw [if_pos hlast]
    exact .inr ⟨hlast, rfl⟩
  · rw [if_neg hlast]
    refine .inl ⟨?_, h.running, rest, rfl⟩
    rw [List.length_append, List.length_singleton] at hlast ⊢
    omega

/-- What a turn makes of a read with its response: it gathers the beat that the frame shows. -/
def Mmio.Gathers (m : Mmio) (e : MmioEvent) (r : AfuTlxResp) (beats : List (Buffer UInt8)) : Prop :=
  (64 * beats.length < e.size ∧ m.Heads (e.gather r beats)) ∨
    (64 * beats.length = e.size ∧ ∃ fs, m.finished = fs ++ [{ e.gather r beats with state := .done }])

theorem handleApRespData_gathers (he : e.Full) (hr : r.Long) (h : m.Heads (e.gather r beats))
    (hmore : 64 * beats.length < e.size) :
    (handleApRespData m).Gathers e r (beats ++ m.afuEvent.beat?.toList) := by
  cases hbeat : m.afuEvent.beat? with
  | none =>
      obtain ⟨hheads, -⟩ := handleApRespData_waits h he.cfg he.rnw hbeat
      rw [Option.toList_none, List.append_nil]
      exact .inl ⟨hmore, hheads⟩
  | some bus =>
      rcases handleApRespData_bus he hr h hmore hbeat with hon | ⟨hlast, hfinished⟩
      · exact .inl hon
      · exact .inr ⟨hlast, _, hfinished⟩

theorem turn_gathers (he : e.Full) (hr : r.Long) (h : m.Heads (e.gather r beats))
    (hmore : 64 * beats.length < e.size) (t : MmioTurn) :
    (m.turns [t]).Gathers e r (beats ++ beatsOf t.frame.shows) := by
  obtain ⟨m₁, hm₁, hframe, hturn⟩ := h.turn MmioState.noConfusion t
  obtain ⟨hheads, hbeat, -⟩ := handleApResp_stays hm₁ he.cfg (.inr MmioState.noConfusion)
  rw [hturn, handleAfuMmio, if_neg (by rw [hheads.running]; decide), beatsOf_shows, ← hframe, ← hbeat]
  exact handleApRespData_gathers he hr hheads hmore

theorem turn_answers (he : e.Full) (hawaits : e.Awaits) (h : m.Heads e) (t : MmioTurn)
    (hresp : t.frame.resp? = some r) (hlegal : respDldpIsLegal e.cmdDL r.dl r.dp = true) :
    (m.turns [t]).Gathers e r (beatsOf t.frame.shows) := by
  have hidle : e.state ≠ .idle := by
    rw [hawaits.pending]
    exact MmioState.noConfusion
  obtain ⟨m₁, hm₁, hframe, hturn⟩ := h.turn hidle t
  rcases handleApResp_answers r hm₁ hawaits (hframe ▸ hresp) with ⟨hillegal, -⟩ | ⟨-, hheads, hbeat, -⟩
  · rw [hlegal] at hillegal
    cases hillegal
  · rw [hturn, handleAfuMmio, if_neg (by rw [hheads.running]; decide), beatsOf_shows, ← hframe, ← hbeat]
    exact handleApRespData_gathers he (.of_legal hlegal) hheads he.some

/-- Before the response nothing comes. -/
theorem turn_waits (hawaits : e.Awaits) (h : m.Heads e) (t : MmioTurn) (hshows : t.frame.shows = []) :
    (m.turns [t]).Heads e := by
  have hidle : e.state ≠ .idle := by
    rw [hawaits.pending]
    exact MmioState.noConfusion
  obtain ⟨m₁, hm₁, hframe, hturn⟩ := h.turn hidle t
  have hnone : t.frame.resp? = none ∧ t.frame.beat? = none := by simpa [AfuEvent.shows] using hshows
  obtain ⟨hheads, hbeat, -⟩ := handleApResp_stays hm₁ hawaits.cfg (.inl (hframe ▸ hnone.1))
  rw [hturn, handleAfuMmio, if_neg (by rw [hheads.running]; decide)]
  exact (handleApRespData_waits hheads hawaits.cfg hawaits.rnw (hbeat.trans (hframe ▸ hnone.2))).1

end Gather

/-! ## Whole runs -/

section Runs

variable {m : Mmio} {e : MmioEvent} {r : AfuTlxResp}

/-- While data is still to come, the first event is what has been gathered. -/
theorem turns_gather (he : e.Full) (hr : r.Long) {beats : List (Buffer UInt8)} (h : m.Heads (e.gather r beats))
    (ts : List MmioTurn) (hmore : 64 * (beats ++ beatsOf (shownIn ts)).length < e.size) :
    (m.turns ts).Heads (e.gather r (beats ++ beatsOf (shownIn ts))) := by
  induction ts generalizing m beats with
  | nil =>
      rw [shownIn, List.flatMap_nil, beatsOf, List.filterMap_nil, List.append_nil]
      exact h
  | cons t ts ih =>
      have hshown : beats ++ beatsOf (shownIn (t :: ts)) =
          (beats ++ beatsOf t.frame.shows) ++ beatsOf (shownIn ts) := by
        rw [shownIn, List.flatMap_cons, beatsOf_append, List.append_assoc]
        rfl
      rw [hshown] at hmore ⊢
      rw [turns_cons]
      have hlt : 64 * (beats ++ beatsOf t.frame.shows).length < e.size := by
        rw [List.length_append] at hmore
        omega
      have hbefore : 64 * beats.length < e.size := by
        rw [List.length_append] at hlt
        omega
      rcases turn_gathers he hr h hbefore t with ⟨-, hheads⟩ | ⟨hlast, -⟩
      · exact ih hheads hmore
      · omega

/-- The first response that the frames show is the one that counts. -/
theorem turns_answer (he : e.Full) (hawaits : e.Awaits) (h : m.Heads e) (ts : List MmioTurn)
    {items : List AfuItem} (hshown : shownIn ts = .resp r :: items)
    (hlegal : respDldpIsLegal e.cmdDL r.dl r.dp = true) (hmore : 64 * (beatsOf items).length < e.size) :
    (m.turns ts).Heads (e.gather r (beatsOf items)) := by
  induction ts generalizing m with
  | nil => cases hshown
  | cons t ts ih =>
      rw [shownIn, List.flatMap_cons] at hshown
      rw [turns_cons]
      cases hresp : t.frame.resp? with
      | none =>
          cases hbeat : t.frame.beat? with
          | none =>
              have hshows : t.frame.shows = [] := by simp [AfuEvent.shows, hresp, hbeat]
              rw [hshows, List.nil_append] at hshown
              exact ih (turn_waits hawaits h t hshows) hshown
          | some bus =>
              simp [AfuEvent.shows, hresp, hbeat] at hshown
      | some r' =>
          have hshows : t.frame.shows = .resp r' :: t.frame.beat?.toList.map .beat := by
            simp [AfuEvent.shows, hresp]
          rw [hshows, List.cons_append] at hshown
          obtain ⟨hr, hitems⟩ := List.cons.inj hshown
          obtain rfl := AfuItem.resp.inj hr
          have hbeats : beatsOf items = beatsOf t.frame.shows ++ beatsOf (shownIn ts) := by
            rw [← hitems, beatsOf_append, hshows]
            rfl
          rw [hbeats] at hmore ⊢
          have hlt : 64 * (beatsOf t.frame.shows).length < e.size := by
            rw [List.length_append] at hmore
            omega
          rcases turn_answers he hawaits h t hresp hlegal with ⟨-, hheads⟩ | ⟨hlast, -⟩
          · exact turns_gather he (.of_legal hlegal) hheads ts hmore
          · omega

theorem turns_wait (hawaits : e.Awaits) (h : m.Heads e) (ts : List MmioTurn) (hshown : shownIn ts = []) :
    (m.turns ts).Heads e := by
  induction ts generalizing m with
  | nil => exact h
  | cons t ts ih =>
      rw [shownIn, List.flatMap_cons, List.append_eq_nil_iff] at hshown
      rw [turns_cons]
      exact ih (turn_waits hawaits h t hshown.1) hshown.2

/-- One turn more may bring the last beat. -/
theorem turns_snoc (he : e.Full) (hawaits : e.Awaits) (h : m.Heads e) (ts : List MmioTurn) (t : MmioTurn)
    {items : List AfuItem} (hshown : shownIn (ts ++ [t]) = .resp r :: items)
    (hlegal : respDldpIsLegal e.cmdDL r.dl r.dp = true)
    (hmore : 64 * (beatsOf (shownIn ts)).length < e.size) :
    (m.turns (ts ++ [t])).Gathers e r (beatsOf items) := by
  have hsplit : shownIn ts ++ t.frame.shows = .resp r :: items := by
    rw [← hshown]
    simp [shownIn]
  rw [turns_append]
  cases hts : shownIn ts with
  | nil =>
      rw [hts, List.nil_append] at hsplit
      have hresp : t.frame.resp? = some r := by
        cases hresp : t.frame.resp? with
        | none => cases hbeat : t.frame.beat? <;> simp [AfuEvent.shows, hresp, hbeat] at hsplit
        | some r' =>
            simp only [AfuEvent.shows, hresp, Option.toList_some, List.map_cons, List.cons_append,
              List.cons.injEq, AfuItem.resp.injEq] at hsplit
            rw [hsplit.1]
      have hgathers := turn_answers he hawaits (turns_wait hawaits h ts hts) t hresp hlegal
      rw [hsplit] at hgathers
      exact hgathers
  | cons item items₁ =>
      rw [hts, List.cons_append] at hsplit
      obtain ⟨rfl, hitems⟩ := List.cons.inj hsplit
      rw [hts] at hmore
      have hgathers := turn_gathers he (.of_legal hlegal)
        (turns_answer he hawaits h ts hts hlegal hmore) hmore t
      rw [← hitems, beatsOf_append]
      exact hgathers

end Runs

end Ocse
