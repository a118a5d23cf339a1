import Ocse.MmioLedger

/-!
# Acknowledgements that are lost

A client may have one MMIO and one LPC access under way at once, and ocse keeps one pointer for both. An
access that is done is acknowledged once, by its own kind of acknowledgement and with the data of its own event,
unless another access of the client has taken the pointer before, or the client has departed.
-/

namespace Ocse

/-- libocxl asks for at least one byte of LPC memory. -/
def MmioAction.Sized : MmioAction → Prop
  | .mem _ _ size _ _ _ _ => size ≠ 0
  | _ => True

instance (a : MmioAction) : Decidable a.Sized := by
  cases a <;> unfold MmioAction.Sized <;> infer_instance

def ClientAccess.ackKind (r : ClientAccess) : UInt8 := if r.lpc then ocseLpcAck else ocseMmioAck

/-- The client is told of the access by one acknowledgement, of the access's kind, from its event. -/
def AckLedger.AckedOnce (l : AckLedger) (r : ClientAccess) : Prop :=
  ∃ e, l.told.filter (fun x => x.2.id = r.id) = [(r.client, e)] ∧ e.Answers r ∧ e.state = .done ∧
    e.ack = r.ackKind

/-- Another access of the client, or its departure, comes in while the client waits for the event. -/
def DisplacedIn (afuEvent : AfuEvent) (actions : List MmioAction) (id : ℕ) : Prop :=
  ∃ before a after, actions = before ++ a :: after ∧ ((mmioInit afuEvent).run before).halted = false ∧
    a.displaces ((mmioInit afuEvent).run before) = some id

section Run

variable {afuEvent : AfuEvent} {actions : List MmioAction}

theorem AckLedger.run_append (l : AckLedger) (as bs : List MmioAction) : l.run (as ++ bs) = (l.run as).run bs :=
  List.foldl_append

theorem mem_lost {id : ℕ} : id ∈ ((AckLedger.init afuEvent).run actions).lost ↔ DisplacedIn afuEvent actions id := by
  induction actions using List.reverseRecOn with
  | nil =>
      constructor
      · intro h
        cases h
      · rintro ⟨before, a, after, heq, -⟩
        exact absurd heq (by simp)
  | append_singleton actions a ih =>
      have hengine := (AckLedger.init afuEvent).run_engine actions
      rw [AckLedger.run_append]
      change id ∈ (((AckLedger.init afuEvent).run actions).step a).lost ↔ _
      have hsplit : DisplacedIn afuEvent (actions ++ [a]) id ↔ DisplacedIn afuEvent actions id ∨
          (((mmioInit afuEvent).run actions).halted = false ∧
            a.displaces ((mmioInit afuEvent).run actions) = some id) := by
        constructor
        · rintro ⟨before, a', after, heq, hrunning, hdisplaces⟩
          rcases concat_eq_append_cons_iff.mp heq with ⟨rfl, rfl, rfl⟩ | ⟨after, rfl, rfl⟩
          · exact .inr ⟨hrunning, hdisplaces⟩
          · exact .inl ⟨before, a', after, rfl, hrunning, hdisplaces⟩
        · rintro (⟨before, a', after, rfl, hrunning, hdisplaces⟩ | ⟨hrunning, hdisplaces⟩)
          · exact ⟨before, a', after ++ [a], by simp, hrunning, hdisplaces⟩
          · exact ⟨actions, a, [], rfl, hrunning, hdisplaces⟩
      rw [hsplit, ← ih]
      generalize (AckLedger.init afuEvent).run actions = l at hengine ⊢
      have hsame : l.engine = (mmioInit afuEvent).run actions := hengine
      rw [← hsame]
      unfold AckLedger.step
      by_cases hhalted : l.engine.halted = true
      · simp [hhalted]
      · simp [hhalted, Option.mem_toList]

theorem AckLedger.run_kinds (hsized : ∀ a ∈ actions, a.Sized) :
    ∀ r ∈ ((AckLedger.init afuEvent).run actions).asked, r.lpc = true ↔ r.size ≠ 0 := by
  induction actions using List.reverseRecOn with
  | nil =>
      intro r hr
      cases hr
  | append_singleton actions a ih =>
      have hbefore := ih (fun a' ha' => hsized a' (List.mem_append_left _ ha'))
      have ha : a.Sized := hsized a (by simp)
      rw [AckLedger.run_append]
      generalize (AckLedger.init afuEvent).run actions = l at hbefore
      change ∀ r ∈ (l.step a).asked, r.lpc = true ↔ r.size ≠ 0
      unfold AckLedger.step
      split
      · exact hbefore
      · intro r hr
        rcases List.mem_append.mp hr with hr | hr
        · exact hbefore r hr
        · cases a <;> simp [MmioAction.asks] at hr
          · simp [hr]
          · simpa [hr, MmioAction.Sized] using ha

end Run

/-! ## What the ledger says of an access that is done -/

section Done

variable {l : AckLedger}

/-- An access that is done is not listed any more. -/
theorem Mmio.Queue.done_unlisted {m : Mmio} (hq : m.Queue) {id : ℕ} (hdone : .done id ∈ m.trace) :
    id ∉ MmioEvent.ids m.list := by
  intro hlisted
  have hnodup : (doneIds m.trace ++ m.keys.map Prod.fst).Nodup := by
    rw [hq.order, hq.fresh]
    exact List.nodup_range
  have hid : id ∈ doneIds m.trace := List.mem_filterMap.mpr ⟨.done id, hdone, rfl⟩
  have hkey : id ∈ m.keys.map Prod.fst := by
    unfold Mmio.keys
    rw [List.map_map]
    exact hlisted
  exact (List.nodup_append.mp hnodup).2.2 id hid id hkey rfl

theorem AckLedger.Sound.told_once (h : l.Sound) {client : ℕ} {e : MmioEvent} (he : (client, e) ∈ l.told) :
    l.told.filter (fun x => x.2.id = e.id) = [(client, e)] := by
  have hnodup : (l.told.map (fun x => x.2.id)).Nodup := by
    refine h.ids.sublist ?_
    unfold AckLedger.events MmioEvent.ids
    rw [List.map_append, List.map_map]
    exact List.sublist_append_right _ _
  generalize l.told = told at he hnodup
  induction told with
  | nil => cases he
  | cons x xs ih =>
      obtain ⟨hx, hxs⟩ := List.nodup_cons.mp hnodup
      rcases List.mem_cons.mp he with rfl | he
      · rw [List.filter_cons_of_pos (by simp), List.cons_inj_right, List.filter_eq_nil_iff]
        intro y hy
        have hne : y.2.id ≠ e.id := fun heq => hx (List.mem_map.mpr ⟨y, hy, heq⟩)
        simp [hne]
      · have hne : x.2.id ≠ e.id := fun heq => hx (List.mem_map.mpr ⟨(client, e), he, heq.symm⟩)
        rw [List.filter_cons_of_neg (by simp [hne])]
        exact ih he hxs

theorem AckLedger.Sound.ackedOnce (h : l.Sound) (hkinds : ∀ r ∈ l.asked, r.lpc = true ↔ r.size ≠ 0)
    {r : ClientAccess} (hr : r ∈ l.asked) {e : MmioEvent} (he : (r.client, e) ∈ l.told) (hid : e.id = r.id) :
    l.AckedOnce r := by
  obtain ⟨hdone, r', hr', -, hanswers⟩ := h.told (r.client, e) he
  obtain rfl : r' = r := List.inj_on_of_nodup_map h.distinct hr' hr (hanswers.id.symm.trans hid)
  refine ⟨e, ?_, hanswers, hdone, ?_⟩
  · rw [← hid]
    exact h.told_once he
  · have hundone : e.state ≠ .idle := by simp [show e.state = .done from hdone]
    rw [hanswers.acked hundone]
    unfold MmioEvent.rightAck ClientAccess.ackKind
    rw [hanswers.cfg, hanswers.size]
    by_cases hlpc : r'.lpc = true
    · simp [hlpc, (hkinds r' hr).mp hlpc]
    · have hsize : r'.size = 0 := not_not.mp (fun hne => hlpc ((hkinds r' hr).mpr hne))
      simp [hlpc, hsize]

/-- A client that still waits for a finished access is told by the next poll. -/
theorem AckLedger.Sound.poll_tells (h : l.Sound) (hrunning : l.engine.halted = false) {r : ClientAccess}
    (hr : r ∈ l.asked) (hunlisted : r.id ∉ MmioEvent.ids l.engine.list) (hlost : r.id ∉ l.lost) :
    ∃ e, (r.client, e) ∈ (l.step (.poll r.client)).told ∧ e.id = r.id := by
  unfold AckLedger.step
  rw [if_neg (by simp [hrunning])]
  rcases h.waiting r hr with hwaits | hwas | ⟨e, he, hid⟩
  · obtain ⟨e, he, hanswers⟩ := h.asked r hr
    obtain ⟨-, -, htold⟩ := h.access r.client r.id hwaits
    have hfinished : e ∈ l.engine.finished := by
      unfold AckLedger.events Mmio.events at he
      rcases List.mem_append.mp he with he | he
      · rcases List.mem_append.mp he with he | he
        · exact absurd (hanswers.id ▸ List.mem_map_of_mem he) hunlisted
        · exact he
      · obtain ⟨x, hx, rfl⟩ := List.mem_map.mp he
        exact absurd hanswers.id (htold x hx)
    cases hfind : l.engine.finished.find? (fun x => x.id = r.id) with
    | none =>
        rw [List.find?_eq_none] at hfind
        exact absurd hanswers.id (by simpa using hfind e hfinished)
    | some e' =>
        refine ⟨e', ?_, by simpa using List.find?_some hfind⟩
        simp [MmioAction.tells, hwaits, hfind]
  · exact absurd hwas hlost
  · exact ⟨e, List.mem_append_left _ he, hid⟩

end Done

/-- In every run, each acknowledgement is of an event that a client has been told of, and an access that is done
is acknowledged once just when nothing has taken its place while the client waited. -/
theorem ackedOnce_iff (afuEvent : AfuEvent) (actions : List MmioAction) (hsized : ∀ a ∈ actions, a.Sized)
    (l : AckLedger) (hl : l = (AckLedger.init afuEvent).run actions) (hrunning : l.engine.halted = false) :
    ackedOf l.engine.trace = l.told.map (fun x => .acked x.1 x.2.ackMessage) ∧
      ∀ r ∈ l.asked, .done r.id ∈ l.engine.trace →
        ((l.step (.poll r.client)).AckedOnce r ↔ ¬ DisplacedIn afuEvent actions r.id) := by
  have hsound : l.Sound := hl ▸ AckLedger.run_sound afuEvent actions
  have hqueue : l.engine.Queue := by
    rw [hl, AckLedger.run_engine]
    exact run_queue afuEvent actions
  refine ⟨hsound.messages, fun r hr hdone => ?_⟩
  rw [← mem_lost, ← hl]
  have hsound' := hsound.step (.poll r.client)
  have hasked : (l.step (.poll r.client)).asked = l.asked := by
    unfold AckLedger.step
    split
    · rfl
    · simp [MmioAction.asks]
  have hlost : (l.step (.poll r.client)).lost = l.lost := by
    unfold AckLedger.step
    split
    · rfl
    · simp [MmioAction.displaces]
  constructor
  · rintro ⟨e, honce, hanswers, -⟩ hwas
    have htold : (r.client, e) ∈ (l.step (.poll r.client)).told := by
      refine List.mem_of_mem_filter (p := fun x => x.2.id = r.id) ?_
      rw [honce]
      exact List.mem_singleton.mpr rfl
    exact (hsound'.lost r.id (hlost ▸ hwas)).2 _ htold hanswers.id
  · intro hnot
    obtain ⟨e, he, hid⟩ := hsound.poll_tells hrunning hr (hqueue.done_unlisted hdone) hnot
    refine hsound'.ackedOnce ?_ (hasked ▸ hr) he hid
    rw [hasked, hl]
    exact AckLedger.run_kinds hsized

/-! ## Runs to look at -/

/-- The AFU grants a command credit. -/
def sampleMmioAfu : AfuEvent := { tlxEventReset with afuTlxCmdCreditsAvailable := 1 }

/-- The AFU answers a read of 32 bits. -/
def sampleMmioAnswer : AfuEvent := { sampleMmioAfu with
  afuResp := { sampleMmioAfu.afuResp with valid := 1, opcode := 1, dl := 1 }
  afuRdata := { sampleMmioAfu.afuRdata with valid := 1 } }

/-- An MMIO read, sent and answered. -/
def sampleMmioRun : List MmioAction :=
  [.mmio 0 ⟨0, 0, 0, 0, 0⟩ true false true 0 0, .send, .frame sampleMmioAnswer, .handleAfu]

theorem ackedOnce_iff_sampleMmioRun :
    (((AckLedger.init sampleMmioAfu).run sampleMmioRun).step (.poll 0)).AckedOnce ⟨0, 0, false, true, false, 0⟩ := by
  have hiff := (ackedOnce_iff sampleMmioAfu sampleMmioRun (by decide) _ rfl (by decide +kernel)).2
    ⟨0, 0, false, true, false, 0⟩ (by decide +kernel) (by decide +kernel)
  refine hiff.mpr ?_
  rw [← mem_lost]
  decide +kernel

/-- An LPC read of the same client comes in before the answer to its MMIO read. -/
def overlapRun : List MmioAction :=
  [.mmio 0 ⟨0, 0, 0, 0, 0⟩ true false true 0 0, .send, .mem 0 true 64 0 (Buffer.const 0) false 0,
    .frame sampleMmioAnswer, .handleAfu]

/-- The MMIO read is done and nobody is told of it. -/
theorem overlapRun_unacked :
    ¬ ∀ r ∈ ((AckLedger.init sampleMmioAfu).run overlapRun).asked,
      .done r.id ∈ ((AckLedger.init sampleMmioAfu).run overlapRun).engine.trace →
        (((AckLedger.init sampleMmioAfu).run overlapRun).step (.poll r.client)).AckedOnce r := by
  intro h
  obtain ⟨e, honce, -⟩ := h ⟨0, 0, false, true, false, 0⟩ (by decide +kernel) (by decide +kernel)
  have hnone : ((((AckLedger.init sampleMmioAfu).run overlapRun).step (.poll 0)).told.filter
      (fun x => x.2.id = 0)).length = 0 := by decide +kernel
  rw [honce] at hnone
  cases hnone

end Ocse
