import Ocse.Effect
import Ocse.Lib.Keyed
import Ocse.Lib.Run

/-!
# The invariant of the engine

Events and clients never get mixed up: identities and tags are distinct, every event belongs to a slot,
and the event that a connected client has been asked about belongs to that client and is waiting for it.
-/

namespace Ocse

/-- The event waits for its client's answer, or could be about to be sent to it. -/
def CmdEvent.Awaiting (e : CmdEvent) : Prop := e.type.isMemory = true ∧ e.state = e.askedState

structure Ocl.Wf (s : Ocl) : Prop where
  ids : (s.list.map CmdEvent.id).Nodup
  tags : (s.list.map CmdEvent.afutag).Nodup
  fresh : ∀ e ∈ s.list, e.id < s.nextId
  context : ∀ e ∈ s.list, e.context < s.maxClients
  noCas : ∀ e ∈ s.list, e.state ≠ .casRd
  slot : ∀ i c, s.client i = some c → i < s.maxClients ∧ c.context = i ∧ c.id < s.nextId
  memAccess : ∀ i c id, s.client i = some c → c.memAccess = some id → id < s.nextId
  asked : ∀ i c e, s.client i = some c → c.state ≠ .none → e ∈ s.list → c.memAccess = some e.id →
    e.context = i ∧ e.Awaiting

theorem Ocl.Wf.congr {s s' : Ocl} (hs : s.Wf) (hlist : s'.list = s.list) (hclient : s'.client = s.client)
    (hnextId : s'.nextId = s.nextId) (hmax : s'.maxClients = s.maxClients) : s'.Wf := by
  obtain ⟨ids, tags, fresh, context, noCas, slot, memAccess, asked⟩ := hs
  constructor <;> simpa only [hlist, hclient, hnextId, hmax]

theorem Ocl.Wf.same {s s' : Ocl} (hs : s.Wf) (h : SameEngine s s') : s'.Wf :=
  hs.congr h.list h.client h.nextId h.maxClients

theorem Ocl.Wf.record {s : Ocl} (hs : s.Wf) (obs : List Obs) : (s.record obs).Wf :=
  hs.congr rfl rfl rfl rfl

theorem Ocl.init_wf (parms : Parms) (maxClients : ℕ) (afuEvent : AfuEvent) :
    (Ocl.init parms maxClients afuEvent).Wf := by
  constructor <;> simp [Ocl.init]

theorem getClient_eq_some {s : Ocl} {e : CmdEvent} {c : Client} (h : s.getClient e = some c) :
    e.context < s.maxClients ∧ s.client e.context = some c := by
  unfold Ocl.getClient at h
  split_ifs at h with hmax
  exact ⟨Nat.lt_of_not_le hmax, h⟩

/-! ## Stores -/

section Stores

variable {s : Ocl} {e e' : CmdEvent}

theorem Ocl.Wf.mem_setEvent (hs : s.Wf) (he : e ∈ s.list) (hid : e'.id = e.id) {x : CmdEvent} :
    x ∈ (s.setEvent e').list ↔ x = e' ∨ (x ∈ s.list ∧ x ≠ e) :=
  mem_replace hs.ids he hid

theorem Ocl.Wf.mem_freeEvent (hs : s.Wf) (he : e ∈ s.list) {x : CmdEvent} :
    x ∈ (s.freeEvent e).list ↔ x ∈ s.list ∧ x ≠ e :=
  mem_remove hs.ids he

theorem Ocl.Wf.setEvent (hs : s.Wf) (he : e ∈ s.list) (hid : e'.id = e.id) (htag : e'.afutag = e.afutag)
    (hcontext : e'.context = e.context) (hcas : e'.state ≠ .casRd)
    (hasked : ∀ c, s.client e.context = some c → c.state ≠ .none → c.memAccess = some e.id → e.Awaiting →
      e'.Awaiting) : (s.setEvent e').Wf := by
  have hkey : ∀ x ∈ s.list, x.id = e'.id → x = e := fun x hx hxid =>
    eq_of_key_eq hs.ids hx he (hxid.trans hid)
  constructor
  · have hids : (s.setEvent e').list.map CmdEvent.id = s.list.map CmdEvent.id := map_replace_key
    rw [hids]
    exact hs.ids
  · have htags : (s.setEvent e').list.map CmdEvent.afutag = s.list.map CmdEvent.afutag :=
      map_replace (fun x hx hxid => hkey x hx hxid ▸ htag)
    rw [htags]
    exact hs.tags
  · intro x hx
    rcases (hs.mem_setEvent he hid).mp hx with rfl | ⟨hx, -⟩
    · exact hid ▸ hs.fresh e he
    · exact hs.fresh x hx
  · intro x hx
    rcases (hs.mem_setEvent he hid).mp hx with rfl | ⟨hx, -⟩
    · exact hcontext ▸ hs.context e he
    · exact hs.context x hx
  · intro x hx
    rcases (hs.mem_setEvent he hid).mp hx with rfl | ⟨hx, -⟩
    · exact hcas
    · exact hs.noCas x hx
  · exact hs.slot
  · exact hs.memAccess
  · intro i c x hc hstate hx hmem
    rcases (hs.mem_setEvent he hid).mp hx with rfl | ⟨hx, -⟩
    · rw [hid] at hmem
      obtain ⟨rfl, hawait⟩ := hs.asked i c e hc hstate he hmem
      exact ⟨hcontext, hasked c hc hstate hmem hawait⟩
    · exact hs.asked i c x hc hstate hx hmem

theorem Ocl.Wf.freeEvent (hs : s.Wf) (e : CmdEvent) : (s.freeEvent e).Wf := by
  have hmem : ∀ x ∈ (s.freeEvent e).list, x ∈ s.list := fun x hx => mem_of_mem_remove hx
  constructor
  · exact nodup_map_remove hs.ids
  · exact nodup_map_remove hs.tags
  · exact fun x hx => hs.fresh x (hmem x hx)
  · exact fun x hx => hs.context x (hmem x hx)
  · exact fun x hx => hs.noCas x (hmem x hx)
  · exact hs.slot
  · exact hs.memAccess
  · exact fun i c x hc hstate hx => hs.asked i c x hc hstate (hmem x hx)

theorem Ocl.setClient_eq_some {s : Ocl} {i j : ℕ} {x : Option Client} {c : Client}
    (h : (s.setClient i x).client j = some c) : (j = i ∧ x = some c) ∨ (j ≠ i ∧ s.client j = some c) := by
  exact update_eq_some_iff.mp h

theorem Ocl.Wf.setClient (hs : s.Wf) {i : ℕ} {x : Option Client}
    (hslot : ∀ c, x = some c → i < s.maxClients ∧ c.context = i ∧ c.id < s.nextId)
    (hmem : ∀ c id, x = some c → c.memAccess = some id → id < s.nextId)
    (hasked : ∀ c e, x = some c → c.state ≠ .none → e ∈ s.list → c.memAccess = some e.id →
      e.context = i ∧ e.Awaiting) : (s.setClient i x).Wf := by
  obtain ⟨ids, tags, fresh, context, noCas, slot, memAccess, asked⟩ := hs
  refine ⟨ids, tags, fresh, context, noCas, ?_, ?_, ?_⟩
  · intro j c hc
    rcases Ocl.setClient_eq_some hc with ⟨rfl, rfl⟩ | ⟨-, hc⟩
    · exact hslot c rfl
    · exact slot j c hc
  · intro j c id hc
    rcases Ocl.setClient_eq_some hc with ⟨rfl, rfl⟩ | ⟨-, hc⟩
    · exact hmem c id rfl
    · exact memAccess j c id hc
  · intro j c e hc
    rcases Ocl.setClient_eq_some hc with ⟨rfl, rfl⟩ | ⟨-, hc⟩
    · exact hasked c e rfl
    · exact asked j c e hc

/-- A change of a client that keeps who it is and what it was asked, if that is kept at all. -/
theorem Ocl.Wf.updateClient (hs : s.Wf) {i : ℕ} {c c' : Client} (hc : s.client i = some c)
    (hid : c'.id = c.id) (hcontext : c'.context = c.context)
    (hmem : c'.memAccess = none ∨ (c'.memAccess = c.memAccess ∧ (c'.state ≠ .none → c.state ≠ .none))) :
    (s.setClient i (some c')).Wf := by
  obtain ⟨hi, hctx, hlt⟩ := hs.slot i c hc
  apply hs.setClient
  · rintro _ ⟨⟩
    exact ⟨hi, hcontext.trans hctx, hid ▸ hlt⟩
  · rintro _ id ⟨⟩ hsome
    rcases hmem with hnone | ⟨hsame, -⟩
    · simp [hnone] at hsome
    · exact hs.memAccess i c id hc (hsame ▸ hsome)
  · rintro _ e ⟨⟩ hstate he hsome
    rcases hmem with hnone | ⟨hsame, himp⟩
    · simp [hnone] at hsome
    · exact hs.asked i c e hc (himp hstate) he (hsame ▸ hsome)

end Stores

/-! ## Answers -/

/-- What a client's answer makes of an event that waited for it. -/
inductive Answered (e : CmdEvent) : Answer → CmdEvent → Prop
  | success (data : Buffer UInt8) (size : ℕ) (hsize : e.type = .read ∨ e.type = .write → size = e.size) :
      Answered e .success { e with data, size, state := .done }
  | failure (ans : Answer) (size : ℕ) (hans : ans ≠ .success) :
      Answered e ans { e with size, state := .done, type := .failed, resp := 0x0e }

theorem CmdEvent.Awaiting.memReturn {e : CmdEvent} (h : e.Awaiting) (avail : List UInt8) :
    Answered e (e.memReturn avail).2 (e.memReturn avail).1 := by
  obtain ⟨hmem, hstate⟩ := h
  unfold CmdEvent.memReturn handleMemRead
  cases htype : e.type with
  | read =>
    by_cases hshort : avail.length < e.size
    · simpa [hshort, htype] using Answered.failure (e := e) .shortData e.size (by simp)
    · simpa [hshort, htype] using Answered.success (e := e) (e.data.write e.offset (avail.take e.size))
        e.size (fun _ => rfl)
  | write => simpa [htype] using Answered.success (e := e) e.data e.size (fun _ => rfl)
  | amoRd | amoRw =>
    by_cases hshort : avail.length < e.size
    · simpa [hshort, htype] using Answered.failure (e := e) .shortData (if e.size = 4 then 2 else 3) (by simp)
    · simpa [hshort, htype] using Answered.success (e := e) (e.data.write e.offset (avail.take e.size))
        (if e.size = 4 then 2 else 3) (by simp [htype])
  | wrBe | amoWr =>
    have hreceived : e.state = .received := by simpa [CmdEvent.askedState, htype] using hstate
    simpa [htype, hreceived] using Answered.success (e := e) e.data e.size (fun _ => rfl)
  | _ => simp [CmdType.isMemory, htype] at hmem

theorem Answered.facts {e e' : CmdEvent} {ans : Answer} (h : Answered e ans e') :
    e'.id = e.id ∧ e'.afutag = e.afutag ∧ e'.context = e.context ∧ e'.state = .done := by
  cases h <;> exact ⟨rfl, rfl, rfl, rfl⟩

/-- In an engine in order, every answer goes to the event that waited for it. -/
theorem Ocl.Wf.answered {s : Ocl} (hs : s.Wf) {i : ℕ} {input : ClientInput} {e e' : CmdEvent} {c : Client}
    {ans : Answer} (he : e ∈ s.list) (hc : s.client i = some c) (hstate : c.state ≠ .none)
    (hmem : c.memAccess = some e.id)
    (he' : (input = .memFailure ∧ ans = .failure ∧
        e' = { e with state := .done, type := .failed, resp := 0x0e }) ∨
      (∃ avail, input = .memSuccess avail ∧ (e', ans) = e.memReturn avail)) :
    e.context = i ∧ e.Awaiting ∧ Answered e ans e' := by
  obtain ⟨hcontext, hawait⟩ := hs.asked i c e hc hstate he hmem
  refine ⟨hcontext, hawait, ?_⟩
  rcases he' with ⟨-, rfl, rfl⟩ | ⟨avail, -, hreturn⟩
  · exact .failure .failure e.size (by simp)
  · obtain ⟨rfl, rfl⟩ := Prod.mk.inj hreturn
    exact hawait.memReturn avail

/-! ## One step -/

theorem Rewrite.facts {e e' : CmdEvent} (h : Rewrite e e') :
    e'.id = e.id ∧ e'.afutag = e.afutag ∧ e'.context = e.context ∧ e'.command = e.command := by
  cases h with
  | beat bus =>
    unfold CmdEvent.nextBeat
    split_ifs <;> exact ⟨rfl, rfl, rfl, rfl⟩
  | _ => exact ⟨rfl, rfl, rfl, rfl⟩

theorem Rewrite.noCas {e e' : CmdEvent} (h : Rewrite e e') (hcas : e.state ≠ .casRd) :
    e'.state ≠ .casRd := by
  cases h with
  | beat bus =>
    unfold CmdEvent.nextBeat
    split_ifs
    · exact hcas
    · simp
  | redraw resp => exact hcas
  | _ => simp [CmdEvent.fail]

/-- No rewrite touches an event that waits for its client. -/
theorem Rewrite.not_awaiting {e e' : CmdEvent} (h : Rewrite e e') (hawait : e.Awaiting) : e.Ready := by
  obtain ⟨hmem, hstate⟩ := hawait
  have hraised : ¬ e.Raised := by
    rintro ⟨hint, -⟩
    cases htype : e.type <;> simp_all [CmdType.isMemory, CmdType.isInterrupt]
  cases h with
  | inject code hready hcode => exact hready.resolve_right hraised
  | xlatePending hready => exact hready
  | intPending hr htype => exact absurd hr hraised
  | readDone htype hreceived => simp [CmdEvent.askedState, htype, hreceived] at hstate
  | beat bus htype hbuffer => simp [CmdEvent.askedState, htype, hbuffer] at hstate
  | redraw resp hpending =>
    rw [hpending] at hstate
    unfold CmdEvent.askedState at hstate
    split at hstate <;> exact absurd hstate (by simp)

theorem CmdEvent.Awaiting.not_responding {e : CmdEvent} (h : e.Awaiting) : e.responding = false := by
  obtain ⟨-, hstate⟩ := h
  unfold CmdEvent.responding
  rw [hstate]
  unfold CmdEvent.askedState
  split <;> rfl

theorem Ocl.Wf.terminate {s : Ocl} (hs : s.Wf) {i : ℕ} {c : Client} (hc : s.client i = some c)
    (hstate : c.state = .none) : (terminateEvents s c).Wf := by
  have hback : ∀ x ∈ (terminateEvents s c).list, ∃ e ∈ s.list, x = if e.openFor c then e.terminate else e := by
    intro x hx
    obtain ⟨e, he, rfl⟩ := List.mem_map.mp hx
    exact ⟨e, he, rfl⟩
  have hmap : ∀ {β : Type} (f : CmdEvent → β), (∀ e : CmdEvent, f e.terminate = f e) →
      (terminateEvents s c).list.map f = s.list.map f := by
    intro β f hf
    unfold terminateEvents
    rw [List.map_map, List.map_inj_left]
    intro e _
    change f (if e.openFor c then e.terminate else e) = f e
    split_ifs
    · exact hf e
    · rfl
  constructor
  · rw [hmap _ (fun _ => rfl)]
    exact hs.ids
  · rw [hmap _ (fun _ => rfl)]
    exact hs.tags
  · intro x hx
    obtain ⟨e, he, rfl⟩ := hback x hx
    split_ifs <;> exact hs.fresh e he
  · intro x hx
    obtain ⟨e, he, rfl⟩ := hback x hx
    split_ifs <;> exact hs.context e he
  · intro x hx
    obtain ⟨e, he, rfl⟩ := hback x hx
    split_ifs
    · simp [CmdEvent.terminate]
    · exact hs.noCas e he
  · exact hs.slot
  · exact hs.memAccess
  · intro j c' x hc' hstate' hx hmem
    have hc' : s.client j = some c' := hc'
    obtain ⟨e, he, rfl⟩ := hback x hx
    have hid : c'.memAccess = some e.id := by
      split_ifs at hmem <;> exact hmem
    obtain ⟨hcontext, hawait⟩ := hs.asked j c' e hc' hstate' he hid
    -- an event of the departed client is not what another client was asked about
    have hopen : e.openFor c = false := by
      by_contra hne
      have hctx : e.context = c.context := by
        simp only [CmdEvent.openFor, Bool.not_eq_false, Bool.and_eq_true, decide_eq_true_eq] at hne
        exact hne.1
      rw [hcontext, (hs.slot i c hc).2.1] at hctx
      subst hctx
      rw [hc] at hc'
      cases hc'
      exact hstate' hstate
    simp only [hopen, Bool.false_eq_true, if_false]
    exact ⟨hcontext, hawait⟩

theorem Ocl.Wf.insert {s s' : Ocl} (hs : s.Wf) {e : CmdEvent} {l₁ l₂ : List CmdEvent}
    (hid : e.id = s.nextId) (hfresh : ∀ x ∈ s.list, x.afutag ≠ e.afutag) (hctx : e.context < s.maxClients)
    (hcas : e.state ≠ .casRd) (hlist : s.list = l₁ ++ l₂) (hlist' : s'.list = l₁ ++ e :: l₂)
    (hclient : s'.client = s.client) (hnextId : s'.nextId = s.nextId + 1)
    (hmax : s'.maxClients = s.maxClients) : s'.Wf := by
  have hmem : ∀ x, x ∈ s'.list ↔ x = e ∨ x ∈ s.list := by
    intro x
    rw [hlist', hlist]
    simp only [List.mem_append, List.mem_cons]
    tauto
  have hnew : ∀ {β : Type} (f : CmdEvent → β), (s.list.map f).Nodup → (∀ x ∈ s.list, f x ≠ f e) →
      (s'.list.map f).Nodup := by
    intro β f hnodup hne
    rw [hlist', nodup_map_middle, ← hlist]
    refine ⟨?_, hnodup⟩
    intro hin
    obtain ⟨x, hx, hxe⟩ := List.mem_map.mp hin
    exact hne x hx hxe
  constructor
  · apply hnew _ hs.ids
    intro x hx
    have := hs.fresh x hx
    omega
  · exact hnew _ hs.tags hfresh
  · intro x hx
    rcases (hmem x).mp hx with rfl | hx
    · omega
    · have := hs.fresh x hx
      omega
  · intro x hx
    rw [hmax]
    rcases (hmem x).mp hx with rfl | hx
    · exact hctx
    · exact hs.context x hx
  · intro x hx
    rcases (hmem x).mp hx with rfl | hx
    · exact hcas
    · exact hs.noCas x hx
  · intro i c hc
    rw [hclient] at hc
    obtain ⟨hi, hcontext, hlt⟩ := hs.slot i c hc
    exact ⟨hmax ▸ hi, hcontext, by omega⟩
  · intro i c id hc hmemAccess
    rw [hclient] at hc
    have := hs.memAccess i c id hc hmemAccess
    omega
  · intro i c x hc hstate hx hmemAccess
    rw [hclient] at hc
    rcases (hmem x).mp hx with rfl | hx
    · have := hs.memAccess i c x.id hc hmemAccess
      omega
    · exact hs.asked i c x hc hstate hx hmemAccess

/-- A new client is given the next identity. -/
theorem Ocl.Wf.associate {s s' : Ocl} (hs : s.Wf) {i : ℕ} (hi : i < s.maxClients) {c : Client} (hcontext : c.context = i)
    (hid : c.id = s.nextId) (hmem : c.memAccess = none) (hlist : s'.list = s.list)
    (hclient : s'.client = Function.update s.client i (some c)) (hnextId : s'.nextId = s.nextId + 1)
    (hmax : s'.maxClients = s.maxClients) : s'.Wf := by
  have hnext : ({ s with nextId := s.nextId + 1 } : Ocl).Wf := by
    obtain ⟨ids, tags, fresh, context, noCas, slot, memAccess, asked⟩ := hs
    refine ⟨ids, tags, ?_, context, noCas, ?_, ?_, asked⟩
    · exact fun e he => Nat.lt_succ_of_lt (fresh e he)
    · intro j c hj
      obtain ⟨hlt, hctx, hid⟩ := slot j c hj
      exact ⟨hlt, hctx, Nat.lt_succ_of_lt hid⟩
    · exact fun j c id hj hmem => Nat.lt_succ_of_lt (memAccess j c id hj hmem)
  have hset := hnext.setClient (i := i) (x := some c) ?_ ?_ ?_
  · exact hset.congr hlist hclient hnextId hmax
  · rintro _ ⟨⟩
    exact ⟨hi, hcontext, hid ▸ Nat.lt_succ_self _⟩
  · rintro _ _ ⟨⟩ hsome
    exact absurd (hmem.symm.trans hsome) (by simp)
  · rintro _ _ ⟨⟩ _ _ hsome
    exact absurd (hmem.symm.trans hsome) (by simp)

theorem step_wf {s : Ocl} (hs : s.Wf) (a : Action) : (s.step a).Wf := by
  cases step_effect s a with
  | quiet h => exact hs.same h
  | ignore cmd d ha hoffers hassign htag h => exact (hs.record _).same h
  | assign cmd d ha hoffers i c hop hfind hc h =>
    have hset : ((s.record [.command cmd]).setClient i (some { c with actag := cmd.actag })).Wf :=
      (hs.record _).updateClient hc rfl rfl (.inr ⟨rfl, id⟩)
    exact hset.same h
  | add cmd d ha hoffers e c l₁ l₂ hop hfind hc hfresh hnew hlist hlist' hclient hnextId htrace hparms hmax =>
    refine hs.insert hnew.id hfresh (findSlot_eq_some hfind).1 ?_ hlist hlist' hclient hnextId hmax
    rcases hnew.start with ⟨-, hstate, -⟩ | ⟨-, -, ⟨-, hstate⟩ | ⟨-, hstate⟩ | ⟨-, hstate, -⟩ |
      ⟨-, -, -, hstate, -⟩⟩ <;> simp [hstate]
  | rewrite e e' he hc hr h =>
    obtain ⟨hid, htag, hcontext, -⟩ := hr.facts
    refine Ocl.Wf.same (hs.setEvent he hid htag hcontext (hr.noCas (hs.noCas e he)) ?_) h
    intro c hclient hstate hmem hawait
    have hready := hr.not_awaiting hawait
    have hbuffer : e.state ≠ .buffer := by
      rw [hawait.2]
      unfold CmdEvent.askedState
      split <;> simp
    obtain ⟨c', hc', hnone⟩ := hc hbuffer
    rw [(getClient_eq_some hc').2] at hclient
    cases hclient
    simp [hnone hready] at hmem
  | ask e c c' bytes he hc hready hbytes hc' h =>
    have hmemory : e.type.isMemory = true := by
      rcases hready with ⟨hready, -⟩ | ⟨htype, -⟩
      · exact hready.isMemory
      · rw [htype]; rfl
    have hasked : e.askedState ≠ .casRd := by
      unfold CmdEvent.askedState
      split <;> simp
    obtain ⟨hlt, hclient⟩ := getClient_eq_some hc
    obtain ⟨-, hctx, hcid⟩ := hs.slot _ c hclient
    have hset : ((s.record [.sent c.id e.id bytes]).setEvent { e with state := e.askedState }).Wf :=
      (hs.record _).setEvent he rfl rfl rfl hasked (fun _ _ _ _ _ => ⟨hmemory, rfl⟩)
    have hsame : c'.id = c.id ∧ c'.context = c.context := by
      rcases hc' with rfl | rfl <;> exact ⟨rfl, rfl⟩
    refine Ocl.Wf.same (hset.setClient ?_ ?_ ?_) h
    · rintro _ ⟨⟩
      exact ⟨hlt, hsame.2.trans hctx, hsame.1.symm ▸ hcid⟩
    · rintro _ id ⟨⟩ hid
      obtain rfl := Option.some.inj hid
      exact hs.fresh e he
    · rintro _ x ⟨⟩ - hx hid
      have hid : e.id = x.id := Option.some.inj hid
      have hid' : ({ e with state := e.askedState } : CmdEvent).id = e.id := rfl
      rcases (hs.mem_setEvent he hid').mp hx with rfl | ⟨hx, hne⟩
      · exact ⟨rfl, hmemory, rfl⟩
      · exact absurd (eq_of_key_eq hs.ids hx he hid.symm) hne
  | raise e c c' he hc hraised hc' h =>
    obtain ⟨hlt, hclient⟩ := getClient_eq_some hc
    have hset : ((s.record [.sent c.id e.id (interruptMessage e)]).setEvent { e with state := .done }).Wf := by
      refine (hs.record _).setEvent he rfl rfl rfl (by simp) (fun _ _ _ _ hawait => ?_)
      obtain ⟨hmem, -⟩ := hawait
      have hint := hraised.1
      cases htype : e.type <;> simp_all [CmdType.isMemory, CmdType.isInterrupt]
    refine Ocl.Wf.same (hset.updateClient hclient ?_ ?_ ?_) h
    · rcases hc' with rfl | rfl <;> rfl
    · rcases hc' with rfl | rfl <;> rfl
    · rcases hc' with rfl | rfl
      · exact .inr ⟨rfl, id⟩
      · exact .inl rfl
  | respond e e' he hresp hc he' h =>
    refine Ocl.Wf.same ((hs.record _).setEvent he ?_ ?_ ?_ ?_ ?_) h
    · rcases he' with ⟨-, rfl⟩ | ⟨-, rfl, -⟩ <;> simp
    · rcases he' with ⟨-, rfl⟩ | ⟨-, rfl, -⟩ <;> simp
    · rcases he' with ⟨-, rfl⟩ | ⟨-, rfl, -⟩ <;> simp
    · rcases he' with ⟨-, rfl⟩ | ⟨hdone, rfl, -⟩ <;> simp [*]
    · intro c _ _ _ hawait
      simp [hawait.not_responding] at hresp
  | finish e he hstate hc hlast h => exact ((hs.record _).freeEvent e).same h
  | refuse e he hresp hc h =>
    have hback : (e.prepare s.parms.hostClSize).backUp s.parms.hostClSize = { e.prepare s.parms.hostClSize
        with respBytesSent := ((e.prepare s.parms.hostClSize).backUp s.parms.hostClSize).respBytesSent } := by
      unfold CmdEvent.backUp
      split_ifs <;> rfl
    refine Ocl.Wf.same ((hs.record _).setEvent he ?_ ?_ ?_ ?_ ?_) h
    · rw [hback]; simp
    · rw [hback]; simp
    · rw [hback]; simp
    · rw [hback]; simpa using hs.noCas e he
    · intro c _ _ _ hawait
      simp [hawait.not_responding] at hresp
  | post e resp he hstate hc h => exact ((hs.record _).freeEvent e).same h
  | answer i input ha e e' c ans he hc hstate hmem he' h =>
    obtain ⟨hcontext, hawait, hans⟩ := hs.answered he hc hstate hmem he'
    obtain ⟨hid, htag, hctx, hdone⟩ := hans.facts
    have hclear : ((s.record [.answered e.afutag ans]).setClient i (some { c with memAccess := none
        })).Wf := (hs.record _).updateClient hc rfl rfl (.inl rfl)
    have hset : (((s.record [.answered e.afutag ans]).setClient i (some { c with memAccess := none
        })).setEvent e').Wf := by
      refine hclear.setEvent he hid htag hctx (by simp [hdone]) ?_
      intro c' hc' _ hmem' _
      rcases Ocl.setClient_eq_some hc' with ⟨-, ⟨⟩⟩ | ⟨hne, -⟩
      · cases hmem'
      · exact absurd hcontext hne
    exact (hset.congr rfl rfl rfl rfl).same h
  | client i c c' hc hid hmem hstate h =>
    refine Ocl.Wf.same (hs.updateClient hc hid.1 hid.2.1 ?_) h
    rcases hmem with hsame | ⟨hnone, -⟩
    · refine .inr ⟨hsame, ?_⟩
      rcases hstate with ⟨hstate, -⟩ | ⟨hstate, -⟩
      · rw [hstate]; exact id
      · exact fun hne => absurd hstate hne
    · exact .inl hnone
  | terminate i ha c hc hstate h =>
    have hset : ((terminateEvents s c).setClient i (some { c with idleCycles := 0 })).Wf :=
      (hs.terminate hc hstate).updateClient hc rfl rfl (.inr ⟨rfl, id⟩)
    exact hset.same h
  | clear i ha c hc hstate hidle h =>
    refine Ocl.Wf.same (hs.setClient ?_ ?_ ?_) h <;> simp
  | associate bdf i hi hc hlist hnextId hclient htrace hparms hmax =>
    exact hs.associate hi rfl rfl rfl hlist hclient hnextId hmax

theorem run_wf {s : Ocl} (hs : s.Wf) (as : List Action) : (s.run as).Wf := by
  unfold Ocl.run
  exact foldl_invariant Ocl.Wf (fun _ a h => step_wf h a) hs as

end Ocse
