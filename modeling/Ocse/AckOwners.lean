import Ocse.EngineInv
import Ocse.MmioLedger
import Ocse.TlxThread

/-!
# Acknowledgements and who asked

A slot of the client table is used again when its client has departed, and an access may still be on its way to the
AFU then. The record here names the client by its connection and not by its slot: what an acknowledgement of the
loop answers was asked for by the client that it is put to.
-/

namespace Ocse

/-! ## Slots -/

/-- A client stays in its slot until the slot is given up. -/
theorem step_keeps_client {s : Ocl} {a : Action} {i : ℕ} {c : Client} (hc : s.client i = some c) (ha : a ≠ .clear i) :
    ∃ d, (s.step a).client i = some d ∧ d.id = c.id := by
  have hsame : (s.step a).client = s.client → ∃ d, (s.step a).client i = some d ∧ d.id = c.id :=
    fun h => ⟨c, h ▸ hc, rfl⟩
  have hset : ∀ {j : ℕ} {x y : Client}, (s.step a).client = Function.update s.client j (some y) →
      s.client j = some x → y.id = x.id → ∃ d, (s.step a).client i = some d ∧ d.id = c.id := by
    intro j x y h hx hid
    by_cases hij : i = j
    · subst hij
      obtain rfl : c = x := Option.some.inj (hc.symm.trans hx)
      exact ⟨y, by rw [h, Function.update_self], hid⟩
    · exact ⟨c, by rw [h, Function.update_of_ne hij, hc], rfl⟩
  have hdropped : ∀ {x y : Client} (m : Option ℕ), (y = x ∨ y = x.drop tlxIdleCycles .none) →
      ({ y with memAccess := m } : Client).id = x.id := by
    intro x y m h
    rcases h with rfl | rfl <;> rfl
  cases step_effect s a with
  | quiet h => exact hsame h.client
  | ignore cmd d ha hoffers hassign htag h => exact hsame h.client
  | assign cmd d ha hoffers j x hop hfind hx h => exact hset h.client hx rfl
  | add cmd d ha hoffers e x l₁ l₂ hop hfind hx hfresh hnew hlist hlist' hclient =>
    exact hsame hclient
  | rewrite e e' he hx hr h => exact hsame h.client
  | ask e x y bytes he hx hready hbytes hy h =>
    exact hset h.client (getClient_eq_some hx).2 (hdropped (some e.id) hy)
  | raise e x y he hx hraised hy h => exact hset h.client (getClient_eq_some hx).2 (hdropped y.memAccess hy)
  | respond e e' he hresp hx he' h => exact hsame h.client
  | finish e he hdone hx hlast h => exact hsame h.client
  | refuse e he hresp hx h => exact hsame h.client
  | post e resp he hsent hx h => exact hsame h.client
  | answer j input ha e e' x ans he hx hvalid hmem he' h => exact hset h.client hx rfl
  | client j x y hx hid hmem hleft h => exact hset h.client hx hid.1
  | terminate j ha x hx hgone h => exact hset h.client hx rfl
  | clear j hclear x hx hgone hidle h =>
    have hij : i ≠ j := by
      rintro rfl
      exact ha hclear
    have hkept : (s.step a).client i = some c := by
      rw [h.client]
      exact (Function.update_of_ne hij none s.client).trans hc
    exact ⟨c, hkept, rfl⟩
  | associate bdf j hj hnone hlist hnextId hclient =>
    have hij : i ≠ j := by
      rintro rfl
      rw [hnone] at hc
      cases hc
    exact ⟨c, by rw [hclient, Function.update_of_ne hij, hc], rfl⟩

/-! ## The record -/

/-- The connection that has a slot. -/
def TlxThread.holder (t : TlxThread) (i : ℕ) : Option ℕ := (t.ocl.client i).map Client.id

/-- The thread, with the accesses asked for and the acknowledgements put so far, each with its connection. -/
structure AccessLog where
  thread : TlxThread
  asked : List (Option ℕ × ClientAccess)
  told : List (Option ℕ × (ℕ × MmioEvent))

def AccessLog.step (l : AccessLog) (c : ThreadAction) : AccessLog :=
  if l.thread.halted then l
  else match c with
    | .inl a => { l with thread := l.thread.engine a }
    | .inr b =>
      { thread := l.thread.access b
        asked := l.asked ++ (b.asks l.thread.mmio.nextId).toList.map (fun r => (l.thread.holder r.client, r))
        told := l.told ++ (b.tells l.thread.mmio).toList.map (fun x => (l.thread.holder x.1, x)) }

def AccessLog.run (l : AccessLog) (w : List ThreadAction) : AccessLog := w.foldl AccessLog.step l

def AccessLog.init (parms : Parms) (maxClients : ℕ) (afuEvent : AfuEvent) : AccessLog :=
  ⟨TlxThread.init parms maxClients afuEvent, [], []⟩

theorem AccessLog.step_thread (l : AccessLog) (c : ThreadAction) : (l.step c).thread = l.thread.step c := by
  unfold AccessLog.step TlxThread.step guarded
  cases l.thread.halted with
  | true => rfl
  | false => cases c <;> rfl

theorem AccessLog.run_thread (l : AccessLog) (w : List ThreadAction) : (l.run w).thread = l.thread.run w := by
  induction w generalizing l with
  | nil => rfl
  | cons c w ih =>
    have hrest := ih (l.step c)
    rw [step_thread] at hrest
    exact hrest

/-- The ledger of the MMIO engine agrees with the record, a slot in which an access is waited for has the client
that asked for it, and so had the slot of each acknowledgement. -/
structure AccessLog.Faithful (l : AccessLog) : Prop where
  ledger : ∃ k : AckLedger, k.Sound ∧ k.engine = l.thread.mmio ∧ k.asked = l.asked.map Prod.snd ∧
    k.told = l.told.map Prod.snd
  waits : ∀ i id, l.thread.mmio.access i = some id →
    ∃ k r, l.thread.holder i = some k ∧ (some k, r) ∈ l.asked ∧ r.client = i ∧ r.id = id
  told : ∀ x ∈ l.told, ∃ k r, x.1 = some k ∧ (some k, r) ∈ l.asked ∧ r.id = x.2.2.id

section Faithful

variable {l : AccessLog}

/-- The command engine and the clients leave the accesses alone. -/
theorem AccessLog.Faithful.engine (h : l.Faithful) (hrunning : l.thread.halted = false) {a : Action}
    (ha : ThreadAction.Allowed l.thread (.inl a)) : ({ l with thread := l.thread.engine a } : AccessLog).Faithful := by
  obtain ⟨hocl, hmmio⟩ := TlxThread.halted_eq_false hrunning
  obtain ⟨k, hsound, hengine, hasked, htold⟩ := h.ledger
  have hstep : l.thread.ocl.step a = l.thread.ocl.act a := if_neg (by rw [hocl]; decide)
  constructor
  · exists k.step (.frame (l.thread.ocl.act a).afuEvent)
    have hnext : k.step (.frame (l.thread.ocl.act a).afuEvent) =
        { k with engine := { l.thread.mmio with afuEvent := (l.thread.ocl.act a).afuEvent } } := by
      unfold AckLedger.step
      rw [hengine, hmmio]
      simp [MmioAction.asks, MmioAction.tells, MmioAction.displaces, Mmio.act]
    have hsound' := hsound.step (.frame (l.thread.ocl.act a).afuEvent)
    rw [hnext] at hsound' ⊢
    exact ⟨hsound', rfl, hasked, htold⟩
  · intro i id hid
    obtain ⟨n, r, hholder, hr, hclient, hrid⟩ := h.waits i id hid
    obtain ⟨c, hc, rfl⟩ := Option.map_eq_some_iff.mp hholder
    have hkept : a ≠ .clear i := by
      rintro rfl
      change l.thread.mmio.access i = none at ha
      change l.thread.mmio.access i = some id at hid
      rw [ha] at hid
      cases hid
    obtain ⟨d, hd, hdid⟩ := step_keeps_client hc hkept
    rw [hstep] at hd
    exact ⟨c.id, r, Option.map_eq_some_iff.mpr ⟨d, hd, hdid⟩, hr, hclient, hrid⟩
  · exact h.told

/-- Who is waited for after an operation of the MMIO queue was waited for before, or has asked just now. -/
theorem access_after (m : Mmio) {b : MmioAction} {i id : ℕ} (h : (m.act b).access i = some id) :
    m.access i = some id ∨ ∃ r, b.asks m.nextId = some r ∧ r.client = i ∧ r.id = id := by
  have hset : ∀ {m' : Mmio} {j : ℕ} {o : Option ℕ}, m'.access = m.access → (m'.setAccess j o).access i = some id →
      m.access i = some id ∨ (i = j ∧ o = some id) := by
    intro m' j o hm h
    change (if i = j then o else m'.access i) = some id at h
    split at h
    · exact .inr ⟨‹_›, h⟩
    · exact .inl (hm ▸ h)
  cases b with
  | frame e => exact .inl h
  | cfg rnw dw addr data => exact .inl h
  | mmio j cfg rnw dw global addr data =>
    rcases hset rfl h with hold | ⟨rfl, hid⟩
    · exact .inl hold
    · exact .inr ⟨_, rfl, rfl, Option.some.inj hid⟩
  | mem j rnw size addr data beValid be =>
    rcases hset rfl h with hold | ⟨rfl, hid⟩
    · exact .inl hold
    · exact .inr ⟨_, rfl, rfl, Option.some.inj hid⟩
  | handleAfu =>
    change (handleAfuMmio m).access i = some id at h
    rw [(handleAfuMmio_moves m).access] at h
    exact .inl h
  | send =>
    change (sendMmio m).access i = some id at h
    rw [(sendMmio_moves m).access] at h
    exact .inl h
  | poll j =>
    change (handleMmioDone m j).access i = some id at h
    unfold handleMmioDone at h
    split at h
    · exact .inl h
    · split at h
      · exact .inl h
      · rcases hset rfl h with hold | ⟨-, hid⟩
        · exact .inl hold
        · cases hid
  | depart j =>
    rcases hset rfl h with hold | ⟨-, hid⟩
    · exact .inl hold
    · cases hid

/-- An operation of the MMIO queue: who asks has its slot, and who is told was waited for. -/
theorem AccessLog.Faithful.access (h : l.Faithful) (hrunning : l.thread.halted = false) {b : MmioAction}
    (hb : ThreadAction.Allowed l.thread (.inr b)) : (l.step (.inr b)).Faithful := by
  obtain ⟨hocl, hmmio⟩ := TlxThread.halted_eq_false hrunning
  obtain ⟨k, hsound, hengine, hasked, htold⟩ := h.ledger
  have hlog : l.step (.inr b) = ⟨l.thread.access b,
      l.asked ++ (b.asks l.thread.mmio.nextId).toList.map (fun r => (l.thread.holder r.client, r)),
      l.told ++ (b.tells l.thread.mmio).toList.map (fun x => (l.thread.holder x.1, x))⟩ := by
    unfold AccessLog.step
    rw [hrunning]
    rfl
  have hledger : k.step b = ⟨l.thread.mmio.act b, k.asked ++ (b.asks l.thread.mmio.nextId).toList,
      k.told ++ (b.tells l.thread.mmio).toList, k.lost ++ (b.displaces l.thread.mmio).toList⟩ := by
    unfold AckLedger.step
    rw [hengine, hmmio]
    rfl
  have hsound' := hsound.step b
  rw [hlog]
  constructor
  · exists k.step b
    rw [hledger] at hsound' ⊢
    have hsnd : ∀ {α : Type} (f : α → Option ℕ) (o : Option α), (o.toList.map (fun r => (f r, r))).map Prod.snd =
        o.toList := by
      intro α f o
      cases o <;> rfl
    rw [List.map_append, List.map_append, hsnd (fun r : ClientAccess => l.thread.holder r.client),
      hsnd (fun x : ℕ × MmioEvent => l.thread.holder x.1), ← hasked, ← htold]
    exact ⟨hsound', rfl, rfl, rfl⟩
  · intro i id hid
    rcases access_after l.thread.mmio hid with hold | ⟨r, hr, rfl, rfl⟩
    · obtain ⟨n, r, hholder, hr, hclient, hrid⟩ := h.waits i id hold
      exact ⟨n, r, hholder, List.mem_append_left _ hr, hclient, hrid⟩
    · have hslot : ∃ c, l.thread.ocl.client r.client = some c := by
        cases b with
        | mmio j =>
          cases hr
          obtain ⟨c, hc, -⟩ := hb
          exact ⟨c, hc⟩
        | mem j =>
          cases hr
          obtain ⟨⟨c, hc, -⟩, -⟩ := hb
          exact ⟨c, hc⟩
        | _ => cases hr
      obtain ⟨c, hc⟩ := hslot
      have hholder : l.thread.holder r.client = some c.id := by
        unfold TlxThread.holder
        rw [hc]
        rfl
      refine ⟨c.id, r, hholder, List.mem_append_right _ ?_, rfl, rfl⟩
      rw [hr, ← hholder]
      exact List.mem_singleton_self _
  · intro x hx
    rcases List.mem_append.mp hx with hx | hx
    · obtain ⟨n, r, hn, hr, hid⟩ := h.told x hx
      exact ⟨n, r, hn, List.mem_append_left _ hr, hid⟩
    · obtain ⟨y, hy, rfl⟩ := List.mem_map.mp hx
      have htells : b.tells l.thread.mmio = some y := Option.mem_toList.mp hy
      have hwaited : l.thread.mmio.access y.1 = some y.2.id := by
        cases b with
        | poll j =>
          obtain ⟨id, hid, hfound⟩ := Option.bind_eq_some_iff.mp htells
          obtain ⟨e, he, hpair⟩ := Option.bind_eq_some_iff.mp hfound
          obtain rfl : (j, e) = y := Option.some.inj hpair
          have heid : e.id = id := by
            have hfound := List.find?_some he
            exact of_decide_eq_true hfound
          rw [heid]
          exact hid
        | _ => cases htells
      obtain ⟨n, r, hholder, hr, -, hid⟩ := h.waits y.1 y.2.id hwaited
      exact ⟨n, r, hholder, List.mem_append_left _ hr, hid⟩

theorem AccessLog.Faithful.step (h : l.Faithful) {c : ThreadAction} (hc : l.thread.Takes c) : (l.step c).Faithful := by
  cases c with
  | inl a =>
    have hlog : l.step (.inl a) = { l with thread := l.thread.engine a } := by
      unfold AccessLog.step
      rw [hc.1]
      rfl
    rw [hlog]
    exact h.engine hc.1 hc.2
  | inr b => exact h.access hc.1 hc.2

theorem AccessLog.Faithful.run (h : l.Faithful) {w : List ThreadAction} (hw : Along TlxThread.step TlxThread.Takes l.thread w) :
    (l.run w).Faithful := by
  induction w generalizing l with
  | nil => exact h
  | cons c w ih =>
    apply ih (h.step hw.1)
    rw [step_thread]
    exact hw.2

end Faithful

theorem AccessLog.init_faithful (parms : Parms) (maxClients : ℕ) (afuEvent : AfuEvent) :
    (AccessLog.init parms maxClients afuEvent).Faithful where
  ledger := ⟨AckLedger.init afuEvent, AckLedger.init_sound afuEvent, rfl, rfl, rfl⟩
  waits := by
    intro i id h
    cases h
  told := by
    intro x hx
    cases hx

/-- In every run of the loop each acknowledgement is put to the connection that asked for the access, whatever has
become of the slots in between, and no access is acknowledged twice. -/
theorem acks_reach_asker (cfg : MmioCfg) (parms : Parms) (maxClients : ℕ) (afuEvent : AfuEvent) (steps : List ThreadStep) :
    ∃ w, Along TlxThread.step TlxThread.Takes (TlxThread.init parms maxClients afuEvent) w ∧
      ((AccessLog.init parms maxClients afuEvent).run w).thread =
        (TlxThread.init parms maxClients afuEvent).advanceAll cfg steps ∧
      ackedOf ((AccessLog.init parms maxClients afuEvent).run w).thread.mmio.trace =
        ((AccessLog.init parms maxClients afuEvent).run w).told.map (fun x => .acked x.2.1 x.2.2.ackMessage) ∧
      (((AccessLog.init parms maxClients afuEvent).run w).told.map (fun x => x.2.2.id)).Nodup ∧
      ∀ x ∈ ((AccessLog.init parms maxClients afuEvent).run w).told, ∃ k r, x.1 = some k ∧
        (some k, r) ∈ ((AccessLog.init parms maxClients afuEvent).run w).asked ∧ r.client = x.2.1 ∧ x.2.2.Answers r := by
  obtain ⟨w, hw, hrun⟩ := TlxThread.runs_advanceAll cfg (TlxThread.init parms maxClients afuEvent) steps
  have hfaithful := (AccessLog.init_faithful parms maxClients afuEvent).run hw
  obtain ⟨k, hsound, hengine, hasked, htold⟩ := hfaithful.ledger
  refine ⟨w, hw, ?_, ?_, ?_, ?_⟩
  · rw [AccessLog.run_thread, hrun]
    rfl
  · rw [← hengine, hsound.messages, htold, List.map_map]
    rfl
  · have hids := hsound.ids
    unfold AckLedger.events MmioEvent.ids at hids
    rw [htold, List.map_append] at hids
    have htail := hids.of_append_right
    rw [List.map_map, List.map_map] at htail
    exact htail
  · intro x hx
    obtain ⟨n, r, hn, hr, hid⟩ := hfaithful.told x hx
    have hx' : x.2 ∈ k.told := by
      rw [htold]
      exact List.mem_map_of_mem hx
    obtain ⟨-, r', hr', hclient, hanswers⟩ := hsound.told x.2 hx'
    have hrk : r ∈ k.asked := by
      rw [hasked]
      exact List.mem_map_of_mem hr
    obtain rfl : r = r' := List.inj_on_of_nodup_map hsound.distinct hrk hr' (hid.trans hanswers.id)
    exact ⟨n, r, hn, hr, hclient, hanswers⟩

end Ocse
