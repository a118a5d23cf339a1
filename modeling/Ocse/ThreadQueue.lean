import Ocse.MemAccess
import Ocse.ReadTurns
import Ocse.TlxThread

/-!
# The queue of the thread

The accesses of the clients wait in the order in which they came, and only the first one moves. A read of a line or
more ends when the lines that have come make up its size, which never happens when the size is no number of lines:
such a read holds up whatever stands behind it. The cost of an access is what the AFU still has to do for it.
-/

namespace Ocse

/-! ## Accesses -/

/-- The data of the access, if it reads, comes in one beat or fills lines. -/
def MmioEvent.Whole (e : MmioEvent) : Prop := e.rnw = true → e.size < 64 ∨ 64 ∣ e.size

instance MmioEvent.Whole.decidable (e : MmioEvent) : Decidable e.Whole := inferInstanceAs (Decidable (_ → _ ∨ _))

/-- The beats of data that are still to come. -/
def MmioEvent.beats (e : MmioEvent) : ℕ :=
  if e.rnw = false then 0 else if e.size < 64 then 1 else (e.size - e.sizeReceived) / 64

/-- The command, the response and the beats that are still to come. -/
def MmioEvent.cost (e : MmioEvent) : ℕ :=
  match e.state with
  | .idle => e.beats + 2
  | .pending => e.beats + 1
  | .buffer => e.beats
  | .done => 0

/-- An access of a client on its way. -/
structure MmioEvent.Queued (e : MmioEvent) : Prop where
  memory : e.cfg = false
  undone : e.state ≠ .done
  gathers : e.state = .buffer → e.rnw = true
  lines : 64 ∣ e.sizeReceived
  bound : e.size < 2 ^ 32
  room : 64 ≤ e.size → 64 ∣ e.size → e.sizeReceived < e.size

section Cost

variable {e e' : MmioEvent}

theorem cost_idle (h : e.state = .idle) : e.cost = e.beats + 2 := by
  unfold MmioEvent.cost
  rw [h]

theorem cost_pending (h : e.state = .pending) : e.cost = e.beats + 1 := by
  unfold MmioEvent.cost
  rw [h]

theorem cost_buffer (h : e.state = .buffer) : e.cost = e.beats := by
  unfold MmioEvent.cost
  rw [h]

theorem beats_large (hrnw : e.rnw = true) (hsize : 64 ≤ e.size) : e.beats = (e.size - e.sizeReceived) / 64 := by
  unfold MmioEvent.beats
  rw [if_neg (by rw [hrnw]; decide), if_neg (Nat.not_lt.mpr hsize)]

theorem beats_congr (hrnw : e'.rnw = e.rnw) (hsize : e'.size = e.size) (hreceived : e'.sizeReceived = e.sizeReceived) :
    e'.beats = e.beats := by
  unfold MmioEvent.beats
  rw [hrnw, hsize, hreceived]

theorem MmioEvent.Queued.cost_pos (h : e.Queued) (hwhole : e.Whole) : 0 < e.cost := by
  cases hstate : e.state with
  | idle =>
    rw [cost_idle hstate]
    omega
  | pending =>
    rw [cost_pending hstate]
    omega
  | buffer =>
    have hrnw := h.gathers hstate
    rw [cost_buffer hstate]
    rcases hwhole hrnw with hsmall | hlines
    · unfold MmioEvent.beats
      rw [if_neg (by rw [hrnw]; decide), if_pos hsmall]
      exact Nat.one_pos
    · by_cases hlarge : 64 ≤ e.size
      · have hroom := h.room hlarge hlines
        have hreceived := h.lines
        rw [beats_large hrnw hlarge]
        omega
      · unfold MmioEvent.beats
        rw [if_neg (by rw [hrnw]; decide), if_pos (Nat.not_le.mp hlarge)]
        exact Nat.one_pos
  | done => exact absurd hstate h.undone

end Cost

/-! ## Lists -/

/-- The accesses up to this one. -/
def ahead (id : ℕ) : List MmioEvent → List MmioEvent
  | [] => []
  | e :: rest => if e.id = id then [e] else e :: ahead id rest

/-- What these cost together. -/
def waitOf (id : ℕ) : List MmioEvent → ℕ
  | [] => 0
  | e :: rest => if e.id = id then e.cost else e.cost + waitOf id rest

/-- The access has left, or it and those ahead of it will, after `n` more doings of the AFU. -/
def WithinQueue (id n : ℕ) (l : List MmioEvent) : Prop :=
  id ∈ MmioEvent.ids l → (∀ e ∈ ahead id l, e.Whole) ∧ waitOf id l ≤ n

/-- The access or one ahead of it never ends. -/
def StuckQueue (id : ℕ) (l : List MmioEvent) : Prop := id ∈ MmioEvent.ids l ∧ ∃ e ∈ ahead id l, ¬e.Whole

/-- What becomes of the queue; it costs the AFU at least `k` to get there. -/
inductive QueueStep (k next next' : ℕ) (l l' : List MmioEvent) : Prop
  | same (hk : k = 0) (h : l' = l)
  | onward (e e' : MmioEvent) (rest : List MmioEvent) (hl : l = e :: rest) (hl' : l' = e' :: rest) (hid : e'.id = e.id)
      (hrnw : e'.rnw = e.rnw) (hsize : e'.size = e.size) (hqueued : e'.Queued) (hcost : e.Whole → e'.cost + k ≤ e.cost)
  | leave (e : MmioEvent) (rest : List MmioEvent) (hl : l = e :: rest) (hl' : l' = rest) (hwhole : e.Whole)
  | join (hk : k = 0) (e : MmioEvent) (hl' : l' = l ++ [e]) (hid : e.id = next) (hnext : next < next')
      (hqueued : e.Queued)

theorem whole_congr {e e' : MmioEvent} (hrnw : e'.rnw = e.rnw) (hsize : e'.size = e.size) (h : e.Whole) : e'.Whole := by
  intro hread
  rw [hsize]
  exact h (hrnw ▸ hread)

theorem ahead_cons_other {e : MmioEvent} {id : ℕ} (h : e.id ≠ id) (rest : List MmioEvent) :
    ahead id (e :: rest) = e :: ahead id rest := if_neg h

theorem ahead_cons_self {e : MmioEvent} {id : ℕ} (h : e.id = id) (rest : List MmioEvent) :
    ahead id (e :: rest) = [e] := if_pos h

theorem ahead_append {id : ℕ} {l : List MmioEvent} (h : id ∈ MmioEvent.ids l) (l' : List MmioEvent) :
    ahead id (l ++ l') = ahead id l ∧ waitOf id (l ++ l') = waitOf id l := by
  induction l with
  | nil => cases h
  | cons e l ih =>
    by_cases hid : e.id = id
    · exact ⟨(ahead_cons_self hid _).trans (ahead_cons_self hid _).symm,
        (if_pos hid).trans (if_pos hid : waitOf id (e :: l) = e.cost).symm⟩
    · have hrest : id ∈ MmioEvent.ids l := (List.mem_cons.mp h).resolve_left (fun heq => hid heq.symm)
      obtain ⟨hahead, hwait⟩ := ih hrest
      constructor
      · rw [List.cons_append, ahead_cons_other hid, ahead_cons_other hid, hahead]
      · change (if e.id = id then e.cost else e.cost + waitOf id (l ++ l')) =
          if e.id = id then e.cost else e.cost + waitOf id l
        rw [hwait]

section Steps

variable {id k n next next' : ℕ} {l l' : List MmioEvent}

theorem QueueStep.queued (h : QueueStep k next next' l l') (hq : ∀ e ∈ l, e.Queued) : ∀ e ∈ l', e.Queued := by
  intro x hx
  cases h with
  | same hk h => exact hq x (h ▸ hx)
  | onward e e' rest hl hl' hid hrnw hsize hqueued hcost =>
    rw [hl'] at hx
    rcases List.mem_cons.mp hx with rfl | hx
    · exact hqueued
    · exact hq x (hl ▸ List.mem_cons_of_mem e hx)
  | leave e rest hl hl' hwhole => exact hq x (hl ▸ List.mem_cons_of_mem e (hl' ▸ hx))
  | join hk e hl' hid hnext hqueued =>
    rw [hl'] at hx
    rcases List.mem_append.mp hx with hx | hx
    · exact hq x hx
    · obtain rfl := List.mem_singleton.mp hx
      exact hqueued

/-- The ids after a step: the first may be gone, or the next one has come. -/
theorem QueueStep.ids (h : QueueStep k next next' l l') :
    MmioEvent.ids l' = MmioEvent.ids l ∨ (∃ x, MmioEvent.ids l = x :: MmioEvent.ids l') ∨
      (MmioEvent.ids l' = MmioEvent.ids l ++ [next] ∧ next < next') := by
  cases h with
  | same hk h => exact .inl (h ▸ rfl)
  | onward e e' rest hl hl' hid =>
    left
    rw [hl, hl']
    change e'.id :: _ = e.id :: _
    rw [hid]
  | leave e rest hl hl' hwhole =>
    right
    left
    exact ⟨e.id, by rw [hl, hl']; rfl⟩
  | join hk e hl' hid hnext hqueued =>
    right
    right
    rw [hl', ← hid]
    exact ⟨List.map_append, hid ▸ hnext⟩

/-- A step that costs the AFU `k` brings the access nearer by `k`. -/
theorem QueueStep.within (h : QueueStep k next next' l l') (hk : k ≤ 1) (hq : ∀ e ∈ l, e.Queued)
    (hnodup : (MmioEvent.ids l).Nodup) (hid : id < next) (hw : WithinQueue id n l) : WithinQueue id (n - k) l' := by
  intro hmem
  cases h with
  | same hzero h =>
    rw [hzero, h]
    exact hw (h ▸ hmem)
  | onward e e' rest hl hl' hsame hrnw hsize hqueued hcost =>
    have hold : id ∈ MmioEvent.ids l := by
      rw [hl]
      rw [hl'] at hmem
      change id ∈ e'.id :: _ at hmem
      rw [hsame] at hmem
      exact hmem
    obtain ⟨hwhole, hwait⟩ := hw hold
    rw [hl] at hwhole hwait
    rw [hl']
    by_cases heid : e.id = id
    · have hfirst : e.Whole := hwhole e (by rw [ahead_cons_self heid]; exact List.mem_singleton_self e)
      have hcost' := hcost hfirst
      rw [waitOf, if_pos heid] at hwait
      rw [ahead_cons_self (hsame.trans heid), waitOf, if_pos (hsame.trans heid)]
      refine ⟨?_, by omega⟩
      intro x hx
      obtain rfl := List.mem_singleton.mp hx
      exact whole_congr hrnw hsize hfirst
    · have heid' : e'.id ≠ id := hsame ▸ heid
      rw [ahead_cons_other heid] at hwhole
      have hfirst : e.Whole := hwhole e List.mem_cons_self
      have hcost' := hcost hfirst
      rw [waitOf, if_neg heid] at hwait
      rw [ahead_cons_other heid', waitOf, if_neg heid']
      refine ⟨?_, by omega⟩
      intro x hx
      rcases List.mem_cons.mp hx with rfl | hx
      · exact whole_congr hrnw hsize hfirst
      · exact hwhole x (List.mem_cons_of_mem e hx)
  | leave e rest hl hl' hgone =>
    rw [hl'] at hmem ⊢
    rw [hl] at hnodup hw
    have heid : e.id ≠ id := by
      rintro rfl
      exact (List.nodup_cons.mp hnodup).1 hmem
    obtain ⟨hwhole, hwait⟩ := hw (List.mem_cons_of_mem e.id hmem)
    rw [ahead_cons_other heid] at hwhole
    rw [waitOf, if_neg heid] at hwait
    have hpos := (hq e (hl ▸ List.mem_cons_self)).cost_pos hgone
    exact ⟨fun x hx => hwhole x (List.mem_cons_of_mem e hx), by omega⟩
  | join hzero e hl' hnew hnext hqueued =>
    rw [hl'] at hmem ⊢
    rw [hzero]
    have hold : id ∈ MmioEvent.ids l := by
      change id ∈ (l ++ [e]).map MmioEvent.id at hmem
      rw [List.map_append, List.mem_append] at hmem
      rcases hmem with hmem | hmem
      · exact hmem
      · have heq : id = e.id := List.mem_singleton.mp hmem
        omega
    obtain ⟨hahead, hsum⟩ := ahead_append hold [e]
    rw [hahead, hsum]
    exact hw hold

theorem QueueStep.stuck (h : QueueStep k next next' l l') (hs : StuckQueue id l) : StuckQueue id l' := by
  obtain ⟨hmem, x, hx, hbad⟩ := hs
  cases h with
  | same hk h =>
    rw [h]
    exact ⟨hmem, x, hx, hbad⟩
  | onward e e' rest hl hl' hsame hrnw hsize hqueued hcost =>
    have hback : e'.Whole → e.Whole := whole_congr hrnw.symm hsize.symm
    rw [hl] at hmem hx
    rw [hl']
    constructor
    · change id ∈ e'.id :: _
      rw [hsame]
      exact hmem
    · by_cases heid : e.id = id
      · rw [ahead_cons_self heid] at hx
        obtain rfl := List.mem_singleton.mp hx
        rw [ahead_cons_self (hsame.trans heid)]
        exact ⟨e', List.mem_singleton_self e', fun h => hbad (hback h)⟩
      · rw [ahead_cons_other heid] at hx
        rw [ahead_cons_other (hsame ▸ heid)]
        rcases List.mem_cons.mp hx with rfl | hx
        · exact ⟨e', List.mem_cons_self, fun h => hbad (hback h)⟩
        · exact ⟨x, List.mem_cons_of_mem e' hx, hbad⟩
  | leave e rest hl hl' hgone =>
    rw [hl] at hmem hx
    rw [hl']
    by_cases heid : e.id = id
    · rw [ahead_cons_self heid] at hx
      obtain rfl := List.mem_singleton.mp hx
      exact absurd hgone hbad
    · rw [ahead_cons_other heid] at hx
      rcases List.mem_cons.mp hx with rfl | hx
      · exact absurd hgone hbad
      · exact ⟨(List.mem_cons.mp hmem).resolve_left (fun heq => heid heq.symm), x, hx, hbad⟩
  | join hk e hl' hnew hnext hqueued =>
    rw [hl']
    obtain ⟨hahead, -⟩ := ahead_append hmem [e]
    constructor
    · change id ∈ (l ++ [e]).map MmioEvent.id
      rw [List.map_append]
      exact List.mem_append_left _ hmem
    · rw [hahead]
      exact ⟨x, hx, hbad⟩

end Steps

/-! ## The engine -/

/-- The fields of an access that its service leaves alone until data comes. -/
structure MmioEvent.SameAccess (e e' : MmioEvent) : Prop where
  id : e'.id = e.id
  rnw : e'.rnw = e.rnw
  size : e'.size = e.size
  received : e'.sizeReceived = e.sizeReceived
  cfg : e'.cfg = e.cfg

/-- What the access waits for has come. -/
def MmioEvent.Arrived (m : Mmio) (e : MmioEvent) : Prop :=
  (e.state = .pending ∧ m.afuEvent.afuResp.valid ≠ 0) ∨ (e.state = .buffer ∧ m.afuEvent.afuRdata.valid ≠ 0)

/-- `handle_ap_resp` on a memory access. -/
inductive RespStep (m : Mmio) (e : MmioEvent) (rest : List MmioEvent) (m' : Mmio) : Prop
  | halted (h : m'.halted = true) (hlist : m'.list = e :: rest)
  | same (hlist : m'.list = e :: rest) (hresp : ¬(e.state = .pending ∧ m.afuEvent.afuResp.valid ≠ 0))
  | gathers (e' : MmioEvent) (hlist : m'.list = e' :: rest) (hstate : e.state = .pending) (hsame : e.SameAccess e')
      (hrnw : e.rnw = true) (hstate' : e'.state = .buffer) (hhalted : m'.halted = m.halted)
  | done (e' : MmioEvent) (hlist : m'.list = e' :: rest) (hstate : e.state = .pending) (hsame : e.SameAccess e')
      (hrnw : e.rnw = false) (hstate' : e'.state = .done) (hhalted : m'.halted = m.halted)

/-- `handle_ap_resp_data` on an access that is under way. -/
inductive DataStep (m : Mmio) (e : MmioEvent) (rest : List MmioEvent) (m' : Mmio) : Prop
  | halted (h : m'.halted = true) (hlist : m'.list = e :: rest)
  | same (hlist : m'.list = e :: rest) (hbeat : ¬(e.state = .buffer ∧ m.afuEvent.afuRdata.valid ≠ 0))
  | last (hlist : m'.list = rest) (hwhole : e.Whole)
  | beat (e' : MmioEvent) (hlist : m'.list = e' :: rest) (hid : e'.id = e.id) (hrnw : e'.rnw = e.rnw)
      (hsize : e'.size = e.size) (hqueued : e'.Queued) (hcost : e.Whole → e'.cost + 1 ≤ e.cost)

section Engine

variable {m : Mmio} {e : MmioEvent} {rest : List MmioEvent}

theorem MmioEvent.SameAccess.queued {e' : MmioEvent} (h : e.SameAccess e') (hq : e.Queued) (hundone : e'.state ≠ .done)
    (hgathers : e'.state = .buffer → e.rnw = true) : e'.Queued where
  memory := h.cfg.trans hq.memory
  undone := hundone
  gathers hstate := h.rnw.trans (hgathers hstate)
  lines := h.received ▸ hq.lines
  bound := h.size ▸ hq.bound
  room := by
    rw [h.size, h.received]
    exact hq.room

theorem handleMemResp_afuEvent (m : Mmio) (e : MmioEvent) (rest : List MmioEvent) :
    (handleMemResp m e rest).afuEvent = (afuTlxReadResp m.afuEvent).2 := by
  unfold handleMemResp
  generalize afuTlxReadResp m.afuEvent = taken
  obtain ⟨_ | r, a⟩ := taken
  · rfl
  · dsimp only
    split_ifs <;> rfl

theorem readResp_none {a : AfuEvent} : (afuTlxReadResp a).1 = none → a.afuResp.valid = 0 := by
  unfold afuTlxReadResp
  split_ifs with hvalid
  · intro _
    exact hvalid
  · intro h
    cases h

theorem readRespData_none {a : AfuEvent} : (afuTlxReadRespData a).1 = none → a.afuRdata.valid = 0 := by
  unfold afuTlxReadRespData
  split_ifs with hvalid
  · intro _
    exact hvalid
  · intro h
    cases h

theorem handleMemResp_step (hlist : m.list = e :: rest) : RespStep m e rest (handleMemResp m e rest) := by
  have hnone : (afuTlxReadResp m.afuEvent).1 = none → m.afuEvent.afuResp.valid = 0 := readResp_none
  unfold handleMemResp
  generalize afuTlxReadResp m.afuEvent = taken at hnone ⊢
  obtain ⟨_ | r, a⟩ := taken
  · exact .same hlist (fun h => h.2 (hnone rfl))
  · dsimp only
    split_ifs with hstate hrnw hlegal
    · exact .same hlist (fun h => hstate h.1)
    · exact .gathers _ rfl (not_not.mp hstate) ⟨rfl, rfl, rfl, rfl, rfl⟩ hrnw rfl rfl
    · exact .halted rfl hlist
    · exact .done _ rfl (not_not.mp hstate) ⟨rfl, rfl, rfl, rfl, rfl⟩ (Bool.eq_false_of_not_eq_true hrnw) rfl rfl

/-- One more line of a read: the last one, or a line nearer. -/
theorem takeRespData_step (m₀ : Mmio) (hlist : m.list = e :: rest) (hq : e.Queued) (hstate : e.state = .buffer)
    (bus : Buffer UInt8) : DataStep m₀ e rest (takeRespData m e rest bus) := by
  have hrnw := hq.gathers hstate
  unfold takeRespData
  dsimp only
  by_cases hzero : e.size = 0
  · rw [if_pos hzero]
    exact .last rfl (fun _ => .inl (by omega))
  rw [if_neg hzero]
  by_cases hsmall : e.size < 64
  · rw [if_pos hsmall]
    exact .last rfl (fun _ => .inl hsmall)
  rw [if_neg hsmall]
  cases e.beatOffset with
  | none => exact .halted rfl hlist
  | some offset =>
    have hlines := hq.lines
    have hbound := hq.bound
    have hreceived : (e.beat bus offset).sizeReceived = (e.sizeReceived + 64) % 2 ^ 32 := rfl
    have hsize : (e.beat bus offset).size = e.size := rfl
    dsimp only
    by_cases hlast : (e.beat bus offset).sizeReceived = (e.beat bus offset).size
    · rw [if_pos hlast]
      rw [hreceived, hsize] at hlast
      exact .last rfl (fun _ => .inr (by omega))
    · rw [if_neg hlast]
      rw [hreceived, hsize] at hlast
      have hqueued : (e.beat bus offset).Queued := by
        refine ⟨hq.memory, hq.undone, hq.gathers, ?_, hbound, ?_⟩
        · rw [hreceived]
          omega
        · intro hlarge hfits
          have hroom := hq.room hlarge hfits
          rw [hreceived, hsize]
          rw [hsize] at hfits
          omega
      refine .beat (e.beat bus offset) rfl rfl rfl rfl hqueued ?_
      intro hwhole
      have hlarge : 64 ≤ e.size := Nat.not_lt.mp hsmall
      have hfits : 64 ∣ e.size := (hwhole hrnw).resolve_left hsmall
      have hroom := hq.room hlarge hfits
      have hbeats : (e.beat bus offset).beats = (e.size - (e.sizeReceived + 64) % 2 ^ 32) / 64 :=
        beats_large hrnw hlarge
      rw [cost_buffer (show (e.beat bus offset).state = .buffer from hstate), cost_buffer hstate, hbeats,
        beats_large hrnw hlarge]
      omega

theorem handleApRespData_step (hlist : m.list = e :: rest) (hq : e.Queued) :
    DataStep m e rest (handleApRespData m) := by
  by_cases hwrite : (e.cfg || !e.rnw) = true
  · have hkept : handleApRespData m = m := by
      unfold handleApRespData
      rw [hlist]
      dsimp only
      rw [if_pos hwrite, if_neg hq.undone]
    rw [hkept]
    refine .same hlist (fun h => ?_)
    rw [hq.memory, hq.gathers h.1] at hwrite
    cases hwrite
  cases htaken : afuTlxReadRespData m.afuEvent with
  | mk data a =>
    cases data with
    | none =>
      have hvalid : m.afuEvent.afuRdata.valid = 0 := readRespData_none (congrArg Prod.fst htaken)
      have hkept : handleApRespData m = { m with afuEvent := a } := by
        unfold handleApRespData
        rw [hlist]
        dsimp only
        rw [if_neg hwrite, htaken, ← hlist]
      rw [hkept]
      exact .same hlist (fun h => h.2 hvalid)
    | some bus =>
      have htakes : handleApRespData m = if e.state ≠ .buffer then { m with afuEvent := a }
          else takeRespData { m with afuEvent := a } e rest bus := by
        unfold handleApRespData
        rw [hlist]
        dsimp only
        rw [if_neg hwrite, htaken, ← hlist]
      rw [htakes]
      by_cases hstate : e.state = .buffer
      · rw [if_neg (not_not.mpr hstate)]
        exact takeRespData_step (m := { m with afuEvent := a }) m hlist hq hstate bus
      · rw [if_pos hstate]
        exact .same hlist (fun h => hstate h.1)

/-- The part of `_handle_afu` that is about MMIO leaves the queue as it is, or serves the first access. -/
theorem handleAfuMmio_queue (next next' : ℕ) (hrunning : m.halted = false) (hlist : m.list = e :: rest)
    (hq : e.Queued) :
    ((handleAfuMmio m).list = m.list ∧ ((handleAfuMmio m).halted = true ∨ ¬e.Arrived m)) ∨
      QueueStep 1 next next' m.list (handleAfuMmio m).list := by
  have hresp : handleApResp m = handleMemResp m e rest := by
    unfold handleApResp
    rw [hlist]
    dsimp only
    rw [if_neg (by rw [hq.memory]; decide)]
  have hrdata : (handleMemResp m e rest).afuEvent.afuRdata = m.afuEvent.afuRdata := by
    rw [handleMemResp_afuEvent]
    exact (readResp_fields m.afuEvent).2.2.2
  have hstep := handleMemResp_step hlist
  unfold handleAfuMmio
  rw [hresp]
  generalize handleMemResp m e rest = m₁ at hstep hrdata ⊢
  dsimp only
  by_cases hhalted : m₁.halted = true
  · rw [if_pos hhalted]
    cases hstep with
    | halted _ hlist₁ | same hlist₁ => exact .inl ⟨hlist₁.trans hlist.symm, .inl hhalted⟩
    | gathers _ _ _ _ _ _ hsame | done _ _ _ _ _ _ hsame =>
      rw [hsame, hrunning] at hhalted
      cases hhalted
  rw [if_neg hhalted]
  cases hstep with
  | halted h => exact absurd h hhalted
  | same hlist₁ hnone =>
    cases handleApRespData_step hlist₁ hq with
    | halted h hlist₂ => exact .inl ⟨hlist₂.trans hlist.symm, .inl h⟩
    | same hlist₂ hbeat =>
      rw [hrdata] at hbeat
      exact .inl ⟨hlist₂.trans hlist.symm, .inr (fun h => h.elim hnone hbeat)⟩
    | last hlist₂ hwhole => exact .inr (.leave e rest hlist hlist₂ hwhole)
    | beat e' hlist₂ hid hrnw hsize hqueued hcost =>
      exact .inr (.onward e e' rest hlist hlist₂ hid hrnw hsize hqueued hcost)
  | gathers e₁ hlist₁ hpending hsame hread hbuffer =>
    -- The response of a read may come with its first beat of data.
    have hq₁ : e₁.Queued := hsame.queued hq (by rw [hbuffer]; decide) (fun _ => hread)
    have hcost₁ : e₁.cost + 1 = e.cost := by
      rw [cost_buffer hbuffer, cost_pending hpending, beats_congr hsame.rnw hsame.size hsame.received]
    have hwhole₁ : e.Whole → e₁.Whole := whole_congr hsame.rnw hsame.size
    right
    cases handleApRespData_step hlist₁ hq₁ with
    | halted _ hlist₂ | same hlist₂ =>
      exact .onward e e₁ rest hlist hlist₂ hsame.id hsame.rnw hsame.size hq₁ (fun _ => hcost₁.le)
    | last hlist₂ hwhole =>
      exact .leave e rest hlist hlist₂ (whole_congr hsame.rnw.symm hsame.size.symm hwhole)
    | beat e₂ hlist₂ hid hrnw hsize hqueued hcost =>
      refine .onward e e₂ rest hlist hlist₂ (hid.trans hsame.id) (hrnw.trans hsame.rnw) (hsize.trans hsame.size)
        hqueued ?_
      intro hwhole
      have hbeat := hcost (hwhole₁ hwhole)
      omega
  | done e₁ hlist₁ hpending hsame hwrite hdone =>
    have hunlinked : handleApRespData m₁ = m₁.unlink e₁ rest := by
      apply handleApRespData_unlinks hlist₁ _ hdone
      rw [hsame.rnw, hwrite]
      exact Bool.or_true _
    right
    refine .leave e rest hlist ?_ (fun hread => ?_)
    · rw [hunlinked]
      rfl
    · rw [hwrite] at hread
      cases hread

/-- `send_mmio` sends the first access where the last command has gone. -/
theorem sendMmio_queue {k : ℕ} (next next' : ℕ) (hlist : m.list = e :: rest) (hq : e.Queued) (hk : k ≤ 1)
    (hserves : k = 1 → e.state = .idle ∧ m.afuEvent.tlxCmd.valid ≠ 1) :
    QueueStep k next next' m.list (sendMmio m).list := by
  have hsame : e.SameAccess e.encode := by
    unfold MmioEvent.encode
    split <;> exact ⟨rfl, rfl, rfl, rfl, rfl⟩
  have hstate' : e.encode.state = e.state := congrArg Prod.snd (encode_key e)
  unfold sendMmio
  rw [hlist]
  dsimp only
  by_cases hidle : e.state = .idle
  · have hmemory : ¬e.cfg = true := by
      rw [hq.memory]
      decide
    rw [if_neg (not_not.mpr hidle), if_neg hmemory]
    have hsent := transmit_mem e.encode m.afuEvent (hsame.cfg.trans hq.memory)
    generalize e.encode.transmit m.afuEvent = sent at hsent ⊢
    obtain ⟨rc, a⟩ := sent
    dsimp only
    split_ifs with hsuccess
    · have hpending : e.SameAccess { e.encode with state := .pending } :=
        ⟨hsame.id, hsame.rnw, hsame.size, hsame.received, hsame.cfg⟩
      have hqueued := hpending.queued hq (fun h => by cases h) (fun h => by cases h)
      refine .onward e _ rest rfl rfl hsame.id hsame.rnw hsame.size hqueued (fun _ => ?_)
      rw [cost_pending rfl, cost_idle hidle, beats_congr hpending.rnw hpending.size hpending.received]
      omega
    · have hzero : k = 0 := by
        by_contra hone
        have hfree := (hserves (by omega)).2
        exact hsuccess (congrArg Prod.fst (hsent hfree))
      have hqueued := hsame.queued hq (by rw [hstate', hidle]; decide) (fun h => by rw [hstate', hidle] at h; cases h)
      refine .onward e e.encode rest rfl rfl hsame.id hsame.rnw hsame.size hqueued (fun _ => ?_)
      rw [cost_idle (hstate'.trans hidle), cost_idle hidle, beats_congr hsame.rnw hsame.size hsame.received, hzero]
  · have hzero : k = 0 := by
      by_contra hone
      exact hidle (hserves (by omega)).1
    rw [if_pos hidle]
    exact .same hzero hlist

end Engine

/-! ## Runs -/

/-- The accesses in the queue are on their way and have ids of their own. -/
structure Mmio.Orderly (m : Mmio) : Prop where
  queued : ∀ e ∈ m.list, e.Queued
  distinct : (MmioEvent.ids m.list).Nodup
  below : ∀ id ∈ MmioEvent.ids m.list, id < m.nextId

/-- The queue has moved on: the AFU has done at least `k` of what it has to do, and what never ends is still there. -/
structure Mmio.Onward (k : ℕ) (m m' : Mmio) : Prop where
  next : m.nextId ≤ m'.nextId
  orderly : m'.Orderly
  within : ∀ id n, id < m.nextId → WithinQueue id n m.list → WithinQueue id (n - k) m'.list
  stuck : ∀ id, StuckQueue id m.list → StuckQueue id m'.list

/-- What a client of the loop may ask for. -/
def MmioAction.OfLoop : MmioAction → Prop
  | .cfg .. => False
  | .mem _ _ size .. => size < 2 ^ 32
  | _ => True

section Onward

variable {k k' : ℕ} {m m' m'' : Mmio}

theorem Mmio.Orderly.head {e : MmioEvent} {rest : List MmioEvent} (h : m.Orderly) (hlist : m.list = e :: rest) :
    e.Queued :=
  h.queued e (hlist ▸ List.mem_cons_self)

theorem Mmio.Onward.refl (h : m.Orderly) : m.Onward 0 m := ⟨le_refl _, h, fun _ _ _ hw => hw, fun _ hs => hs⟩

theorem Mmio.Onward.trans (h : m.Onward k m') (h' : m'.Onward k' m'') : m.Onward (k + k') m'' where
  next := h.next.trans h'.next
  orderly := h'.orderly
  within id n hid hw := by
    have hnearer := h'.within id (n - k) (hid.trans_le h.next) (h.within id n hid hw)
    rw [Nat.sub_sub] at hnearer
    exact hnearer
  stuck id hs := h'.stuck id (h.stuck id hs)

theorem QueueStep.orderly (h : QueueStep k m.nextId m'.nextId m.list m'.list) (hm : m.Orderly)
    (hnext : m.nextId ≤ m'.nextId) : m'.Orderly where
  queued := h.queued hm.queued
  distinct := by
    rcases h.ids with hids | ⟨x, hids⟩ | ⟨hids, -⟩
    · rw [hids]
      exact hm.distinct
    · have hdistinct := hm.distinct
      rw [hids] at hdistinct
      exact (List.nodup_cons.mp hdistinct).2
    · rw [hids]
      refine List.nodup_append.mpr ⟨hm.distinct, List.nodup_singleton _, ?_⟩
      intro id hid x hx
      obtain rfl := List.mem_singleton.mp hx
      exact (hm.below id hid).ne
  below := by
    intro id hid
    rcases h.ids with hids | ⟨x, hids⟩ | ⟨hids, hnew⟩
    · exact (hm.below id (hids ▸ hid)).trans_le hnext
    · exact (hm.below id (hids ▸ List.mem_cons_of_mem x hid)).trans_le hnext
    · rw [hids, List.mem_append, List.mem_singleton] at hid
      rcases hid with hid | rfl
      · exact (hm.below id hid).trans_le hnext
      · exact hnew

theorem QueueStep.moves (h : QueueStep k m.nextId m'.nextId m.list m'.list) (hk : k ≤ 1) (hm : m.Orderly)
    (hnext : m.nextId ≤ m'.nextId) : m.Onward k m' :=
  ⟨hnext, h.orderly hm hnext, fun _ _ hid hw => h.within hk hm.queued hm.distinct hid hw, fun _ hs => h.stuck hs⟩

theorem QueueStep.unpaid {next next' : ℕ} {l l' : List MmioEvent} (h : QueueStep k next next' l l') :
    QueueStep 0 next next' l l' := by
  cases h with
  | same hk h => exact .same rfl h
  | onward e e' rest hl hl' hid hrnw hsize hqueued hcost =>
    exact .onward e e' rest hl hl' hid hrnw hsize hqueued (fun hwhole => (Nat.le_add_right _ k).trans (hcost hwhole))
  | leave e rest hl hl' hwhole => exact .leave e rest hl hl' hwhole
  | join hk e hl' hid hnext hqueued => exact .join rfl e hl' hid hnext hqueued

theorem MmioEffect.nextId (h : MmioEffect m m') : m.nextId ≤ m'.nextId := by
  cases h with
  | quiet _ hnext | ack _ _ _ hnext | send _ _ _ _ hnext | wait _ _ _ _ _ _ hnext | finish _ _ _ _ _ _ hnext =>
    exact hnext.ge
  | add _ hnext =>
    rw [hnext]
    exact Nat.le_succ _

theorem handleAfuMmio_nil (h : m.list = []) : handleAfuMmio m = m := by
  have hresp : handleApResp m = m := by
    unfold handleApResp
    rw [h]
  have hdata : handleApRespData m = m := by
    unfold handleApRespData
    rw [h]
  unfold handleAfuMmio
  rw [hresp]
  exact (ite_congr rfl (fun _ => rfl) (fun _ => hdata)).trans (ite_self m)

theorem sendMmio_nil (h : m.list = []) : sendMmio m = m := by
  unfold sendMmio
  rw [h]

theorem new_queued {e : MmioEvent} (hcfg : e.cfg = false)
    (hstate : e.state = .idle) (hreceived : e.sizeReceived = 0) (hsize : e.size < 2 ^ 32) : e.Queued where
  memory := hcfg
  undone := by
    rw [hstate]
    exact fun h => by cases h
  gathers h := by
    rw [hstate] at h
    cases h
  lines := by
    rw [hreceived]
    exact Nat.dvd_zero 64
  bound := hsize
  room hlarge _ := by
    rw [hreceived]
    omega

/-- What one operation does to the queue. -/
theorem act_queue (hrunning : m.halted = false) (hm : m.Orderly) {b : MmioAction} (hb : b.OfLoop) :
    QueueStep 0 m.nextId (m.act b).nextId m.list (m.act b).list := by
  cases b with
  | frame afuEvent => exact .same rfl rfl
  | cfg => exact hb.elim
  | mmio client cfg rnw dw global addr data =>
    exact .join rfl _ rfl rfl (Nat.lt_succ_self _) (new_queued rfl rfl rfl (show 0 < 2 ^ 32 by decide))
  | mem client rnw size addr data beValid be =>
    exact .join rfl _ rfl rfl (Nat.lt_succ_self _) (new_queued rfl rfl rfl hb)
  | handleAfu =>
    change QueueStep 0 _ _ m.list (handleAfuMmio m).list
    cases hlist : m.list with
    | nil => exact .same rfl ((congrArg Mmio.list (handleAfuMmio_nil hlist)).trans hlist)
    | cons e rest =>
      rcases handleAfuMmio_queue _ _ hrunning hlist (hm.head hlist) with ⟨hsame, -⟩ | hstep
      · exact .same rfl (hsame.trans hlist)
      · rw [← hlist]
        exact hstep.unpaid
  | send =>
    change QueueStep 0 _ _ m.list (sendMmio m).list
    cases hlist : m.list with
    | nil => exact .same rfl ((congrArg Mmio.list (sendMmio_nil hlist)).trans hlist)
    | cons e rest =>
      rw [← hlist]
      exact sendMmio_queue _ _ hlist (hm.head hlist) (Nat.zero_le 1) (fun h => by cases h)
  | poll client => exact .same rfl (handleMmioDone_list m client).1
  | depart client => exact .same rfl rfl

theorem running_before {b : MmioAction} (h : (m.step b).halted = false) : m.halted = false := by
  by_contra hstopped
  rw [Mmio.step, if_pos (Bool.eq_true_of_not_eq_false hstopped)] at h
  exact hstopped h

theorem running_act (hrunning : m.halted = false) (b : MmioAction) : m.step b = m.act b :=
  if_neg (by rw [hrunning]; decide)

theorem Mmio.Orderly.nextId (hm : m.Orderly) (b : MmioAction) : m.nextId ≤ (m.step b).nextId :=
  (mmioStep_effect m b (fun e he => (hm.queued e he).undone)).nextId

theorem step_onward (hm : m.Orderly) {b : MmioAction} (hb : b.OfLoop) : m.Onward 0 (m.step b) := by
  cases hrunning : m.halted with
  | true =>
    rw [Mmio.step, if_pos hrunning]
    exact .refl hm
  | false =>
    have hnext := hm.nextId b
    rw [running_act hrunning] at hnext ⊢
    exact (act_queue hrunning hm hb).moves (Nat.zero_le 1) hm hnext

end Onward

/-! ## Turns -/

/-- The AFU's frame has what the first access waits for. -/
def Mmio.Served (m : Mmio) : Prop := ∃ e ∈ m.list.head?, e.Arrived m

/-- The first access is still to be sent, and the last command has gone. -/
def Mmio.Sendable (m : Mmio) : Prop := (∃ e ∈ m.list.head?, e.state = .idle) ∧ m.afuEvent.tlxCmd.valid ≠ 1

instance MmioEvent.Arrived.decidable (m : Mmio) (e : MmioEvent) : Decidable (e.Arrived m) :=
  inferInstanceAs (Decidable (_ ∨ _))

instance Mmio.Served.decidable (m : Mmio) : Decidable m.Served :=
  inferInstanceAs (Decidable (∃ e ∈ m.list.head?, e.Arrived m))

instance Mmio.Sendable.decidable (m : Mmio) : Decidable m.Sendable :=
  inferInstanceAs (Decidable ((∃ e ∈ m.list.head?, e.state = .idle) ∧ m.afuEvent.tlxCmd.valid ≠ 1))

section Work

variable {m : Mmio}

/-- The frame serves the first access, unless the program ends. -/
theorem handleAfu_onward (hm : m.Orderly) (hserved : m.Served) (hrunning : (m.step .handleAfu).halted = false) :
    m.Onward 1 (m.step .handleAfu) := by
  have hbefore := running_before hrunning
  have hnext := hm.nextId .handleAfu
  rw [running_act hbefore] at hnext hrunning ⊢
  obtain ⟨e, he, harrived⟩ := hserved
  obtain ⟨rest, hlist⟩ := List.head?_eq_some_iff.mp he
  have hqueue := handleAfuMmio_queue m.nextId (handleAfuMmio m).nextId hbefore hlist (hm.head hlist)
  rcases hqueue with ⟨-, hstopped | hmissed⟩ | hqueue
  · exact absurd (hstopped.symm.trans hrunning) (by decide)
  · exact absurd harrived hmissed
  · exact hqueue.moves (le_refl 1) hm hnext

theorem send_onward (hm : m.Orderly) (hsendable : m.Sendable) (hrunning : (m.step .send).halted = false) :
    m.Onward 1 (m.step .send) := by
  have hnext := hm.nextId .send
  rw [running_act (running_before hrunning)] at hnext ⊢
  obtain ⟨⟨e, he, hidle⟩, hfree⟩ := hsendable
  obtain ⟨rest, hlist⟩ := List.head?_eq_some_iff.mp he
  have hqueue := sendMmio_queue m.nextId (sendMmio m).nextId hlist (hm.head hlist) (le_refl 1)
    (fun _ => ⟨hidle, hfree⟩)
  exact hqueue.moves (le_refl 1) hm hnext

end Work

namespace TlxThread

/-- What the loop does keeps the queue in order and goes nowhere back. -/
theorem Runs.onward {t t' : TlxThread} (h : t.Runs t') (hm : t.mmio.Orderly) : t.mmio.Onward 0 t'.mmio := by
  obtain ⟨w, hw, rfl⟩ := h
  induction w generalizing t with
  | nil => exact .refl hm
  | cons c w ih =>
    obtain ⟨htakes, hrest⟩ := hw
    have hstep : t.mmio.Onward 0 (t.step c).mmio := by
      cases c with
      | inl a =>
        rw [(Takes.engine htakes).2.2]
        exact step_onward hm trivial
      | inr b =>
        rw [(Takes.access htakes).2.1]
        apply step_onward hm
        have hallowed := htakes.2
        cases b with
        | cfg => exact hallowed.elim
        | mem => exact hallowed.2
        | _ => trivial
    exact hstep.trans (ih hstep.orderly hrest)

theorem Runs.running {t t' : TlxThread} (h : t.Runs t') (hrunning : t'.halted = false) : t.halted = false := by
  obtain ⟨w, hw, rfl⟩ := h
  cases w with
  | nil => exact hrunning
  | cons c w => exact hw.1.1

/-- The operation of the MMIO engine by which the first access gets on. -/
theorem step_served {t : TlxThread} (hm : t.mmio.Orderly) {b : MmioAction}
    (hb : b = .handleAfu ∧ t.mmio.Served ∨ b = .send ∧ t.mmio.Sendable) (hrunning : (t.step (.inr b)).halted = false) :
    t.mmio.Onward 1 (t.step (.inr b)).mmio := by
  have hallowed : ThreadAction.Allowed t (.inr b) := by
    rcases hb with ⟨rfl, -⟩ | ⟨rfl, -⟩ <;> trivial
  have htakes : t.Takes (.inr b) := ⟨(Runs.step (.inr b) hallowed).running hrunning, hallowed⟩
  have hmmio := (halted_eq_false hrunning).2
  rw [(Takes.access htakes).2.1] at hmmio ⊢
  rcases hb with ⟨rfl, hserved⟩ | ⟨rfl, hsendable⟩
  · exact handleAfu_onward hm hserved hmmio
  · exact send_onward hm hsendable hmmio

end TlxThread

/-- The AFU sends a frame in the turn. -/
def ThreadTurn.Framed (u : ThreadTurn) (t : TlxThread) : Prop :=
  0 < (tlxGetAfuEvents (t.step (.inl .signalAfu)).ocl.afuEvent u.socket).1

/-- The first access gets on in the turn: the clock is on, and the AFU's frame has what the access waits for or its
command can be sent. -/
def ThreadTurn.Serves (u : ThreadTurn) (t : TlxThread) : Prop :=
  t.refresh.ocl.idleCycles ≠ 0 ∧
    (u.Framed t.refresh ∧ (t.refresh.framed u).mmio.Served ∨ (t.refresh.handled u).mmio.Sendable)

instance ThreadTurn.Framed.decidable (u : ThreadTurn) (t : TlxThread) : Decidable (u.Framed t) :=
  inferInstanceAs (Decidable (_ < _))

instance ThreadTurn.Serves.decidable (u : ThreadTurn) (t : TlxThread) : Decidable (u.Serves t) :=
  inferInstanceAs (Decidable (_ ∧ (_ ∨ _)))

namespace TlxThread

/-- The turns in which the first access gets on. -/
def services (cfg : MmioCfg) (t : TlxThread) : List ThreadStep → ℕ
  | [] => 0
  | .turn u :: steps => (if u.Serves t then 1 else 0) + (t.turn cfg u).services cfg steps
  | .associate bdf :: steps => (t.advance cfg (.associate bdf)).services cfg steps

section Turns

variable {cfg : MmioCfg} {t : TlxThread}

theorem framed_served {u : ThreadTurn} (hm : t.mmio.Orderly) (hframed : u.Framed t) (hserved : (t.framed u).mmio.Served)
    (hrunning : (t.handled u).halted = false) : t.mmio.Onward 1 (t.handled u).mmio := by
  have hto := (runs_framed u t).onward hm
  have hhandled : t.handled u = (t.framed u).run u.handleAfu := if_pos hframed
  have hrest : ((t.framed u).step (.inr .handleAfu)).Runs ((t.framed u).run u.handleAfu) :=
    .always (fun c hc => handleAfu_allowed u c (List.mem_cons_of_mem _ hc)) _
  rw [hhandled] at hrunning ⊢
  have hserve := step_served hto.orderly (.inl ⟨rfl, hserved⟩) (hrest.running hrunning)
  exact (hto.trans hserve).trans (hrest.onward hserve.orderly)

theorem turn_served {u : ThreadTurn} (hm : t.mmio.Orderly) (hserves : u.Serves t)
    (hrunning : (t.turn cfg u).halted = false) : t.mmio.Onward 1 (t.turn cfg u).mmio := by
  obtain ⟨hclock, hserved⟩ := hserves
  have hto := (runs_refresh t).onward hm
  have hturn : t.turn cfg u =
      (List.range (t.refresh.clock u).ocl.maxClients).foldl (lookAt cfg u) (t.refresh.clock u) := by
    unfold turn
    dsimp only
    rw [if_pos hclock]
  have hslots : (t.refresh.clock u).Runs (t.turn cfg u) := hturn ▸ runs_slots cfg u _ _
  have hsent : ((t.refresh.handled u).step (.inr .send)).Runs (t.turn cfg u) := (runs_counted _).trans hslots
  have hafter : (t.refresh.handled u).Runs (t.turn cfg u) := (Runs.step (.inr .send) trivial).trans hsent
  rcases hserved with ⟨hframed, hserved⟩ | hsendable
  · have hhandled := framed_served hto.orderly hframed hserved (hafter.running hrunning)
    exact (hto.trans hhandled).trans (hafter.onward hhandled.orderly)
  · have hhandled := (runs_handled u t.refresh).onward hto.orderly
    have hsend := step_served hhandled.orderly (.inr ⟨rfl, hsendable⟩) (hsent.running hrunning)
    exact ((hto.trans hhandled).trans hsend).trans (hsent.onward hsend.orderly)

theorem advanceAll_served (steps : List ThreadStep) (hm : t.mmio.Orderly)
    (hrunning : (t.advanceAll cfg steps).halted = false) :
    t.mmio.Onward (t.services cfg steps) (t.advanceAll cfg steps).mmio := by
  induction steps generalizing t with
  | nil => exact .refl hm
  | cons x steps ih =>
    have hrest : (t.advance cfg x).Runs (t.advanceAll cfg (x :: steps)) := runs_advanceAll cfg (t.advance cfg x) steps
    cases x with
    | turn u =>
      have hturn : t.mmio.Onward (if u.Serves t then 1 else 0) (t.turn cfg u).mmio := by
        split_ifs with hserves
        · exact turn_served hm hserves (hrest.running hrunning)
        · exact (runs_turn cfg t u).onward hm
      exact hturn.trans (ih hturn.orderly hrunning)
    | associate bdf =>
      have hstep := (runs_advance cfg t (.associate bdf)).onward hm
      have hon := hstep.trans (ih hstep.orderly hrunning)
      rw [Nat.zero_add] at hon
      exact hon

end Turns

end TlxThread

/-! ## The wait -/

theorem mem_ahead {id : ℕ} {l : List MmioEvent} (h : id ∈ MmioEvent.ids l) :
    ∃ e ∈ ahead id l, e ∈ l ∧ e.cost ≤ waitOf id l := by
  induction l with
  | nil => cases h
  | cons e l ih =>
    by_cases hid : e.id = id
    · rw [ahead_cons_self hid, waitOf, if_pos hid]
      exact ⟨e, List.mem_singleton_self e, List.mem_cons_self, le_refl _⟩
    · obtain ⟨x, hx, hmem, hcost⟩ := ih ((List.mem_cons.mp h).resolve_left (fun heq => hid heq.symm))
      rw [ahead_cons_other hid, waitOf, if_neg hid]
      exact ⟨x, List.mem_cons_of_mem e hx, List.mem_cons_of_mem e hmem, hcost.trans (Nat.le_add_left _ _)⟩

theorem within_zero {id : ℕ} {l : List MmioEvent} (hq : ∀ e ∈ l, e.Queued) (h : WithinQueue id 0 l) :
    id ∉ MmioEvent.ids l := by
  intro hmem
  obtain ⟨hwhole, hwait⟩ := h hmem
  obtain ⟨e, hahead, he, hcost⟩ := mem_ahead hmem
  have hpos := (hq e he).cost_pos (hwhole e hahead)
  omega

theorem init_orderly (afuEvent : AfuEvent) : (mmioInit afuEvent).Orderly where
  queued e he := by cases he
  distinct := List.nodup_nil
  below id hid := by cases hid

namespace TlxThread

/-- An access that waits in the thread is out of the queue when it and those ahead of it have been served as often
as they cost, unless one of these reads a line or more that is no number of lines: then it waits for ever. -/
theorem queue_served (cfg : MmioCfg) (parms : Parms) (maxClients : ℕ) (afuEvent : AfuEvent)
    (steps steps' : List ThreadStep) (id : ℕ) :
    let t := (init parms maxClients afuEvent).advanceAll cfg steps
    let t' := t.advanceAll cfg steps'
    id ∈ MmioEvent.ids t.mmio.list →
      ((∀ e ∈ ahead id t.mmio.list, e.Whole) → waitOf id t.mmio.list ≤ t.services cfg steps' → t'.halted = false →
        id ∉ MmioEvent.ids t'.mmio.list) ∧
      ((∃ e ∈ ahead id t.mmio.list, ¬e.Whole) → id ∈ MmioEvent.ids t'.mmio.list) := by
  intro t t' hid
  have hm : t.mmio.Orderly :=
    ((runs_advanceAll cfg (init parms maxClients afuEvent) steps).onward (init_orderly afuEvent)).orderly
  constructor
  · intro hwhole hwait hrunning
    have hon := advanceAll_served steps' hm hrunning
    have hwithin := hon.within id _ (hm.below id hid) (fun _ => ⟨hwhole, hwait⟩)
    rw [Nat.sub_self] at hwithin
    exact within_zero hon.orderly.queued hwithin
  · intro hstuck
    exact (((runs_advanceAll cfg t steps').onward hm).stuck id ⟨hid, hstuck⟩).1

end TlxThread

/-! ## A write -/

/-- The AFU sends its clock and no client says anything. -/
def ThreadTurn.quiet : ThreadTurn :=
  ⟨Socket.whole [0x10], 0, .quiet, .quiet, .quiet, .quiet, .quiet, .quiet, .quiet, fun _ => .quiet, fun _ => true⟩

def sampleWriteAnswer : AfuEvent :=
  { tlxEventReset with clock := 1, afuResp := { tlxEventReset.afuResp with valid := 1, opcode := 0x04, dl := 1 } }

/-- A client is associated, attaches and asks for a write. -/
def sampleAsking : List ThreadStep :=
  [.associate 0, .turn { ThreadTurn.quiet with input := fun _ => .bytes ocseAttach [] true },
    .turn { ThreadTurn.quiet with input := fun _ => .bytes ocseGlobalMmioWrite64 (List.replicate 16 0) true }]

/-- The write is sent and answered. -/
def sampleServing : List ThreadStep :=
  [.turn .quiet, .turn { ThreadTurn.quiet with socket := Socket.whole (tlxSignalTlxModel sampleWriteAnswer).2.2 }]

theorem queue_served_sampleServing :
    0 ∉ MmioEvent.ids (((TlxThread.init (.quiet 64 (by simp)) 1 tlxEventReset).advanceAll ⟨0, 0, 0, 0, 0⟩
      sampleAsking).advanceAll ⟨0, 0, 0, 0, 0⟩ sampleServing).mmio.list :=
  (TlxThread.queue_served ⟨0, 0, 0, 0, 0⟩ (.quiet 64 (by simp)) 1 tlxEventReset sampleAsking sampleServing 0
    (by decide +kernel)).1 (by decide +kernel) (by decide +kernel) (by decide +kernel)

end Ocse
