import Mathlib.Data.List.Nodup
import Ocse.Lib.Run
import Ocse.Mmio

/-!
# The discipline of the MMIO list

Of the list only the ids and states matter here, its `keys`. `MmioEffect` says what one action can do to
them; from it come the invariants of whole runs. The responses carry tags that nobody compares, so that a
response belongs to the first event rests on these invariants alone.
-/

namespace Ocse

/-! ## What an action can do -/

def MmioEvent.key (e : MmioEvent) : ℕ × MmioState := (e.id, e.state)

def Mmio.keys (m : Mmio) : List (ℕ × MmioState) := m.list.map MmioEvent.key

/-- The ids of the observations of one kind, in order. -/
def addedIds (trace : List MmioObs) : List ℕ :=
  trace.filterMap (fun o => match o with | .added id => some id | _ => none)

def sentIds (trace : List MmioObs) : List ℕ :=
  trace.filterMap (fun o => match o with | .sent id => some id | _ => none)

def doneIds (trace : List MmioObs) : List ℕ :=
  trace.filterMap (fun o => match o with | .done id => some id | _ => none)

inductive MmioEffect (m m' : Mmio) : Prop
  | quiet (hkeys : m'.keys = m.keys) (hnext : m'.nextId = m.nextId) (htrace : m'.trace = m.trace)
  | ack (client : ℕ) (bytes : List UInt8) (hkeys : m'.keys = m.keys) (hnext : m'.nextId = m.nextId)
      (htrace : m'.trace = m.trace ++ [.acked client bytes])
  | add (hkeys : m'.keys = m.keys ++ [(m.nextId, .idle)]) (hnext : m'.nextId = m.nextId + 1)
      (htrace : m'.trace = m.trace ++ [.added m.nextId])
  | send (id : ℕ) (rest : List (ℕ × MmioState)) (hkeys : m.keys = (id, .idle) :: rest)
      (hkeys' : m'.keys = (id, .pending) :: rest) (hnext : m'.nextId = m.nextId)
      (htrace : m'.trace = m.trace ++ [.sent id])
  | wait (id : ℕ) (state : MmioState) (hstate : state = .pending ∨ state = .buffer)
      (rest : List (ℕ × MmioState)) (hkeys : m.keys = (id, state) :: rest)
      (hkeys' : m'.keys = (id, .buffer) :: rest) (hnext : m'.nextId = m.nextId)
      (htrace : m'.trace = m.trace)
  | finish (id : ℕ) (state : MmioState) (hstate : state = .pending ∨ state = .buffer)
      (rest : List (ℕ × MmioState)) (hkeys : m.keys = (id, state) :: rest) (hkeys' : m'.keys = rest)
      (hnext : m'.nextId = m.nextId) (htrace : m'.trace = m.trace ++ [.done id])

theorem append_keys (m : Mmio) (e : ℕ → MmioEvent) : (m.append e).keys = m.keys ++ [(e m.nextId).key] := by
  simp [Mmio.keys, Mmio.append]

theorem setAccess_keys (m : Mmio) (client : ℕ) (id : Option ℕ) : (m.setAccess client id).keys = m.keys := rfl

theorem encode_key (e : MmioEvent) : e.encode.key = e.key := by
  unfold MmioEvent.encode
  split <;> rfl

theorem sendMmio_effect (m : Mmio) : MmioEffect m (sendMmio m) := by
  unfold sendMmio
  split
  · exact .quiet rfl rfl rfl
  · rename_i e rest hlist
    split
    · exact .quiet rfl rfl rfl
    · rename_i hstate
      have hidle : e.state = .idle := not_not.mp hstate
      generalize he : (if e.cfg then { e with ack := ocseMmioAck } else e.encode) = e'
      have hkey : e'.key = (e.id, .idle) := by
        rw [← hidle, ← he]
        split
        · rfl
        · exact encode_key e
      have hid : e'.id = e.id := congrArg Prod.fst hkey
      have hkeys : m.keys = (e.id, .idle) :: rest.map MmioEvent.key := by
        rw [Mmio.keys, hlist, ← hidle]
        rfl
      simp only
      split
      · exact .send e.id _ hkeys (by simp [Mmio.keys, MmioEvent.key, hid]) rfl (by simp [hid])
      · exact .quiet (by rw [hkeys, ← hkey]; rfl) rfl rfl

theorem handleMmioDone_effect (m : Mmio) (client : ℕ) : MmioEffect m (handleMmioDone m client) := by
  unfold handleMmioDone
  split
  · exact .quiet rfl rfl rfl
  · split
    · exact .quiet rfl rfl rfl
    · exact .ack client _ rfl rfl rfl

/-- What `handle_ap_resp` leaves to `handle_ap_resp_data`: the first event is as it was, gathers data, or
is done and still linked. -/
inductive RespEffect (m m' : Mmio) : Prop
  | quiet (hlist : m'.list = m.list) (hnext : m'.nextId = m.nextId) (htrace : m'.trace = m.trace)
  | wait (e e' : MmioEvent) (rest : List MmioEvent) (hlist : m.list = e :: rest)
      (hstate : e.state = .pending) (hid : e'.id = e.id) (hstate' : e'.state = .buffer)
      (hlist' : m'.list = e' :: rest) (hnext : m'.nextId = m.nextId) (htrace : m'.trace = m.trace)
      (hhalted : m'.halted = m.halted)
  | done (e e' : MmioEvent) (rest : List MmioEvent) (hlist : m.list = e :: rest)
      (hstate : e.state = .pending) (hid : e'.id = e.id) (hstate' : e'.state = .done)
      (hwrite : (e'.cfg || !e'.rnw) = true) (hlist' : m'.list = e' :: rest)
      (hnext : m'.nextId = m.nextId) (htrace : m'.trace = m.trace ++ [.done e.id])
      (hhalted : m'.halted = m.halted)

theorem handleApResp_effect (m : Mmio) : RespEffect m (handleApResp m) := by
  unfold handleApResp
  split
  · exact .quiet rfl rfl rfl
  · rename_i e rest hlist
    split
    · rename_i hcfg
      unfold handleCfgResp
      split
      · exact .quiet rfl rfl rfl
      · simp only
        split
        · exact .quiet rfl rfl rfl
        · rename_i hstate
          have hpending : e.state = .pending := not_not.mp hstate
          split
          · refine .done e _ rest hlist hpending ?_ ?_ ?_ rfl rfl rfl rfl <;> simp [hcfg]
          · refine .done e _ rest hlist hpending ?_ ?_ ?_ rfl rfl rfl rfl <;> simp [hcfg]
    · unfold handleMemResp
      split
      · exact .quiet rfl rfl rfl
      · simp only
        split
        · exact .quiet rfl rfl rfl
        · rename_i hstate
          have hpending : e.state = .pending := not_not.mp hstate
          split
          · split
            · refine .wait e _ rest hlist hpending ?_ ?_ rfl rfl rfl rfl <;> rfl
            · exact .quiet rfl rfl rfl
          · rename_i hrnw
            refine .done e _ rest hlist hpending ?_ ?_ ?_ rfl rfl rfl rfl <;> simp [hrnw]

/-- What a beat of data does: it is kept or left, or it was the last. -/
inductive DataEffect (m m' : Mmio) : Prop
  | quiet (hkeys : m'.keys = m.keys) (hnext : m'.nextId = m.nextId) (htrace : m'.trace = m.trace)
  | last (id : ℕ) (rest : List (ℕ × MmioState)) (hkeys : m.keys = (id, .buffer) :: rest)
      (hkeys' : m'.keys = rest) (hnext : m'.nextId = m.nextId) (htrace : m'.trace = m.trace ++ [.done id])

theorem takeRespData_effect {m : Mmio} {e : MmioEvent} {rest : List MmioEvent} (afuEvent : AfuEvent)
    (hlist : m.list = e :: rest) (hstate : e.state = .buffer) (bus : Buffer UInt8) :
    DataEffect m (takeRespData { m with afuEvent } e rest bus) := by
  have hkeys : m.keys = (e.id, .buffer) :: rest.map MmioEvent.key := by
    rw [Mmio.keys, hlist, ← hstate]
    rfl
  have hlast : ∀ e' : MmioEvent, e'.id = e.id → DataEffect m
      ((({ m with afuEvent } : Mmio).finish e' rest).unlink { e' with state := .done } rest) := by
    intro e' hid
    exact .last e.id _ hkeys rfl rfl (by simp [Mmio.unlink, Mmio.finish, hid])
  unfold takeRespData
  simp only
  split
  · exact hlast _ rfl
  · split
    · exact hlast _ rfl
    · split
      · exact .quiet rfl rfl rfl
      · split
        · exact hlast _ rfl
        · refine .quiet ?_ rfl rfl
          rw [hkeys, ← hstate]
          rfl

theorem handleApRespData_effect (m : Mmio) (hdone : ∀ e ∈ m.list, e.state ≠ .done) :
    DataEffect m (handleApRespData m) := by
  unfold handleApRespData
  split
  · exact .quiet rfl rfl rfl
  · rename_i e rest hlist
    split
    · rw [if_neg (hdone e (by simp [hlist]))]
      exact .quiet rfl rfl rfl
    · split
      · exact .quiet rfl rfl rfl
      · simp only
        split
        · exact .quiet rfl rfl rfl
        · rename_i bus afuEvent _ hstate
          exact takeRespData_effect afuEvent hlist (not_not.mp hstate) bus

/-- An event that came to be done is unlinked at once. -/
theorem handleApRespData_unlinks {m : Mmio} {e : MmioEvent} {rest : List MmioEvent}
    (hlist : m.list = e :: rest) (hwrite : (e.cfg || !e.rnw) = true) (hdone : e.state = .done) :
    handleApRespData m = m.unlink e rest := by
  unfold handleApRespData
  rw [hlist]
  simp only
  rw [if_pos hwrite, if_pos hdone]

theorem handleAfuMmio_effect (m : Mmio) (hrunning : m.halted = false)
    (hdone : ∀ e ∈ m.list, e.state ≠ .done) : MmioEffect m (handleAfuMmio m) := by
  unfold handleAfuMmio
  simp only
  generalize hm : handleApResp m = m'
  have hresp := handleApResp_effect m
  rw [hm] at hresp
  rcases hresp with ⟨hlist, hnext, htrace⟩ |
    ⟨e, e', rest, hlist, hstate, hid, hstate', hlist', hnext, htrace, hhalted⟩ |
    ⟨e, e', rest, hlist, hstate, hid, hstate', hwrite, hlist', hnext, htrace, hhalted⟩
  · have hkeys : m'.keys = m.keys := congrArg (List.map MmioEvent.key) hlist
    split
    · exact .quiet hkeys hnext htrace
    · rcases handleApRespData_effect m' (hlist ▸ hdone) with
        ⟨hkeys₂, hnext₂, htrace₂⟩ | ⟨id, rest, hbuffer, hkeys₂, hnext₂, htrace₂⟩
      · exact .quiet (hkeys₂.trans hkeys) (hnext₂.trans hnext) (htrace₂.trans htrace)
      · exact .finish id .buffer (.inr rfl) rest (hkeys ▸ hbuffer) hkeys₂ (hnext₂.trans hnext)
          (htrace ▸ htrace₂)
  · -- The response of a read may come with its first beat of data.
    have hkeys : m.keys = (e.id, .pending) :: rest.map MmioEvent.key := by
      rw [Mmio.keys, hlist, ← hstate]
      rfl
    have hkeys' : m'.keys = (e.id, .buffer) :: rest.map MmioEvent.key := by
      rw [Mmio.keys, hlist', ← hstate', ← hid]
      rfl
    have hdone' : ∀ x ∈ m'.list, x.state ≠ .done := by
      intro x hx
      rw [hlist', List.mem_cons] at hx
      rcases hx with rfl | hx
      · simp [hstate']
      · exact hdone x (by simp [hlist, hx])
    rw [if_neg (by simp [hhalted, hrunning])]
    rcases handleApRespData_effect m' hdone' with
      ⟨hkeys₂, hnext₂, htrace₂⟩ | ⟨id, rest₂, hbuffer, hkeys₂, hnext₂, htrace₂⟩
    · exact .wait e.id .pending (.inl rfl) _ hkeys (hkeys₂.trans hkeys') (hnext₂.trans hnext)
        (htrace₂.trans htrace)
    · obtain ⟨hidₑ, rfl⟩ := List.cons.inj (hkeys'.symm.trans hbuffer)
      obtain rfl : e.id = id := congrArg Prod.fst hidₑ
      exact .finish e.id .pending (.inl rfl) _ hkeys hkeys₂ (hnext₂.trans hnext) (htrace ▸ htrace₂)
  · have hkeys : m.keys = (e.id, .pending) :: rest.map MmioEvent.key := by
      rw [Mmio.keys, hlist, ← hstate]
      rfl
    rw [if_neg (by simp [hhalted, hrunning]), handleApRespData_unlinks hlist' hwrite hstate']
    exact .finish e.id .pending (.inl rfl) _ hkeys rfl hnext htrace

theorem mmioStep_effect (m : Mmio) (a : MmioAction) (hdone : ∀ e ∈ m.list, e.state ≠ .done) :
    MmioEffect m (m.step a) := by
  unfold Mmio.step
  split
  · exact .quiet rfl rfl rfl
  · rename_i hrunning
    cases a with
    | frame afuEvent => exact .quiet rfl rfl rfl
    | cfg rnw dw addr data => exact .add (append_keys m _) rfl rfl
    | mmio client cfg rnw dw global addr data =>
      exact .add ((setAccess_keys _ _ _).trans (append_keys m _)) rfl rfl
    | mem client rnw size addr data beValid be =>
      exact .add ((setAccess_keys _ _ _).trans (append_keys m _)) rfl rfl
    | handleAfu => exact handleAfuMmio_effect m (by simpa using hrunning) hdone
    | send => exact sendMmio_effect m
    | poll client => exact handleMmioDone_effect m client
    | depart client => exact .quiet rfl rfl rfl

/-! ## The invariant -/

/-- Whatever was done had been sent before. -/
def SentFirst (trace : List MmioObs) : Prop := ∀ t₁ t₂ id, trace = t₁ ++ .done id :: t₂ → .sent id ∈ t₁

theorem SentFirst.append {trace : List MmioObs} (h : SentFirst trace) (o : MmioObs)
    (ho : ∀ id, o = .done id → .sent id ∈ trace) : SentFirst (trace ++ [o]) := by
  intro t₁ t₂ id heq
  rcases concat_eq_append_cons_iff.mp heq with ⟨rfl, hlast, -⟩ | ⟨t₂', -, htrace⟩
  · exact ho id hlast.symm
  · exact h t₁ t₂' id htrace

/-- The ids of the events that have been sent and are still listed. -/
def underWay (keys : List (ℕ × MmioState)) : List ℕ := (keys.filter (fun k => k.2 ≠ .idle)).map Prod.fst

theorem underWay_append (keys keys' : List (ℕ × MmioState)) :
    underWay (keys ++ keys') = underWay keys ++ underWay keys' := by
  simp [underWay]

theorem underWay_of_idle {rest : List (ℕ × MmioState)} (h : ∀ k ∈ rest, k.2 = .idle) : underWay rest = [] := by
  rw [underWay, List.map_eq_nil_iff, List.filter_eq_nil_iff]
  intro k hk
  simp [h k hk]

theorem underWay_cons {rest : List (ℕ × MmioState)} (h : ∀ k ∈ rest, k.2 = .idle) (id : ℕ)
    (state : MmioState) : underWay ((id, state) :: rest) = if state = .idle then [] else [id] := by
  rw [← List.singleton_append, underWay_append, underWay_of_idle h, List.append_nil]
  by_cases hidle : state = .idle
  · simp [underWay, hidle]
  · simp [underWay, hidle]

/-- The ids that were added are those that are done and those that are listed, in order; the ids that were
sent are those that are done, and the first listed one when it is no longer idle. -/
structure Mmio.Queue (m : Mmio) : Prop where
  tail : ∀ k ∈ m.keys.tail, k.2 = .idle
  undone : ∀ k ∈ m.keys, k.2 ≠ .done
  fresh : addedIds m.trace = List.range m.nextId
  order : doneIds m.trace ++ m.keys.map Prod.fst = addedIds m.trace
  sent : sentIds m.trace = doneIds m.trace ++ underWay m.keys
  before : SentFirst m.trace

theorem mem_sentIds {trace : List MmioObs} {id : ℕ} : id ∈ sentIds trace ↔ .sent id ∈ trace := by
  unfold sentIds
  rw [List.mem_filterMap]
  constructor
  · rintro ⟨o, ho, hid⟩
    cases o <;> simp at hid
    exact hid ▸ ho
  · exact fun h => ⟨_, h, rfl⟩

theorem MmioEffect.queue {m m' : Mmio} (h : MmioEffect m m') (hq : m.Queue) : m'.Queue := by
  obtain ⟨htail, hundone, hfresh, horder, hsent, hbefore⟩ := hq
  rcases h with ⟨hkeys, hnext, htrace⟩ | ⟨client, bytes, hkeys, hnext, htrace⟩ | ⟨hkeys, hnext, htrace⟩ |
    ⟨id, rest, hkeys, hkeys', hnext, htrace⟩ | ⟨id, state, hstate, rest, hkeys, hkeys', hnext, htrace⟩ |
    ⟨id, state, hstate, rest, hkeys, hkeys', hnext, htrace⟩
  · exact ⟨hkeys ▸ htail, hkeys ▸ hundone, by rw [htrace, hnext, hfresh], by rw [htrace, hkeys, horder],
      by rw [htrace, hkeys, hsent], htrace ▸ hbefore⟩
  · have hadded : addedIds m'.trace = addedIds m.trace := by simp [htrace, addedIds]
    have hsent' : sentIds m'.trace = sentIds m.trace := by simp [htrace, sentIds]
    have hdone' : doneIds m'.trace = doneIds m.trace := by simp [htrace, doneIds]
    exact ⟨hkeys ▸ htail, hkeys ▸ hundone, by rw [hadded, hnext, hfresh],
      by rw [hadded, hdone', hkeys, horder], by rw [hsent', hdone', hkeys, hsent],
      htrace ▸ hbefore.append _ (by simp)⟩
  · have hadded : addedIds m'.trace = addedIds m.trace ++ [m.nextId] := by simp [htrace, addedIds]
    have hsent' : sentIds m'.trace = sentIds m.trace := by simp [htrace, sentIds]
    have hdone' : doneIds m'.trace = doneIds m.trace := by simp [htrace, doneIds]
    refine ⟨?_, ?_, ?_, ?_, ?_, htrace ▸ hbefore.append _ (by simp)⟩
    · rw [hkeys]
      intro k hk
      cases hm : m.keys with
      | nil => simp [hm] at hk
      | cons x xs =>
          rw [hm, List.cons_append, List.tail_cons, List.mem_append, List.mem_singleton] at hk
          rcases hk with hk | rfl
          · exact htail k (by simp [hm, hk])
          · rfl
    · rw [hkeys]
      intro k hk
      rcases List.mem_append.mp hk with hk | hk
      · exact hundone k hk
      · rw [List.mem_singleton.mp hk]
        exact MmioState.noConfusion
    · rw [hadded, hnext, List.range_succ, hfresh]
    · rw [hadded, hdone', hkeys, List.map_append, ← List.append_assoc, horder]
      rfl
    · have hnew : underWay [(m.nextId, .idle)] = [] := rfl
      rw [hsent', hdone', hkeys, underWay_append, hnew, List.append_nil, hsent]
  · have hadded : addedIds m'.trace = addedIds m.trace := by simp [htrace, addedIds]
    have hsent' : sentIds m'.trace = sentIds m.trace ++ [id] := by simp [htrace, sentIds]
    have hdone' : doneIds m'.trace = doneIds m.trace := by simp [htrace, doneIds]
    rw [hkeys] at htail hundone horder hsent
    rw [List.tail_cons] at htail
    refine ⟨by rw [hkeys']; exact htail, ?_, by rw [hadded, hnext, hfresh],
      by rw [hadded, hdone', hkeys', ← horder]; rfl, ?_, htrace ▸ hbefore.append _ (by simp)⟩
    · rw [hkeys', List.forall_mem_cons]
      exact ⟨MmioState.noConfusion, (List.forall_mem_cons.mp hundone).2⟩
    · rw [hsent', hdone', hkeys', hsent, underWay_cons htail, underWay_cons htail]
      simp
  · rw [hkeys] at htail hundone horder hsent
    rw [List.tail_cons] at htail
    refine ⟨by rw [hkeys']; exact htail, ?_, by rw [htrace, hnext, hfresh],
      by rw [htrace, hkeys', ← horder]; rfl, ?_, htrace ▸ hbefore⟩
    · rw [hkeys', List.forall_mem_cons]
      exact ⟨MmioState.noConfusion, (List.forall_mem_cons.mp hundone).2⟩
    · rw [htrace, hkeys', hsent, underWay_cons htail, underWay_cons htail]
      rcases hstate with rfl | rfl <;> rfl
  · have hadded : addedIds m'.trace = addedIds m.trace := by simp [htrace, addedIds]
    have hsent' : sentIds m'.trace = sentIds m.trace := by simp [htrace, sentIds]
    have hdone' : doneIds m'.trace = doneIds m.trace ++ [id] := by simp [htrace, doneIds]
    rw [hkeys] at htail hundone horder hsent
    rw [List.tail_cons] at htail
    have hfirst : sentIds m.trace = doneIds m.trace ++ [id] := by
      rw [hsent, underWay_cons htail]
      rcases hstate with rfl | rfl <;> rfl
    have hwas : .sent id ∈ m.trace := mem_sentIds.mp (by simp [hfirst])
    refine ⟨?_, ?_, by rw [hadded, hnext, hfresh], ?_, ?_, ?_⟩
    · rw [hkeys']
      exact fun k hk => htail k (List.mem_of_mem_tail hk)
    · rw [hkeys']
      exact (List.forall_mem_cons.mp hundone).2
    · rw [hadded, hdone', hkeys', ← horder]
      simp
    · rw [hsent', hdone', hkeys', underWay_of_idle htail, hfirst, List.append_nil]
    · rw [htrace]
      refine hbefore.append _ (fun id' heq => ?_)
      obtain rfl := MmioObs.done.inj heq
      exact hwas

theorem mmioInit_queue (afuEvent : AfuEvent) : (mmioInit afuEvent).Queue := by
  refine ⟨?_, ?_, rfl, rfl, rfl, ?_⟩
  · intro k hk
    cases hk
  · intro k hk
    cases hk
  · intro t₁ t₂ id heq
    exact absurd heq (by simp [mmioInit])

theorem run_queue (afuEvent : AfuEvent) (actions : List MmioAction) :
    ((mmioInit afuEvent).run actions).Queue := by
  apply foldl_invariant Mmio.Queue _ (mmioInit_queue afuEvent)
  intro m a hq
  refine (mmioStep_effect m a (fun e he => ?_)).queue hq
  exact hq.undone e.key (List.mem_map_of_mem he)

/-! ## The discipline -/

/-- Only the first event is under way, none that is done is still listed, each is sent at most once and
before it is done, and they are done in the order they were added. -/
structure Mmio.Disciplined (m : Mmio) : Prop where
  others : ∀ e ∈ m.list.tail, e.state = .idle
  undone : ∀ e ∈ m.list, e.state ≠ .done
  once : ∀ id, m.trace.count (.sent id) ≤ 1
  before : SentFirst m.trace
  order : doneIds m.trace <+: addedIds m.trace
  distinct : (addedIds m.trace).Nodup

theorem sentIds_count (trace : List MmioObs) (id : ℕ) : (sentIds trace).count id = trace.count (.sent id) := by
  induction trace with
  | nil => rfl
  | cons o trace ih =>
      have hcons : sentIds (o :: trace) = sentIds [o] ++ sentIds trace := by
        rw [sentIds, ← List.singleton_append, List.filterMap_append]
        rfl
      rw [hcons, List.count_append, ih, List.count_cons]
      cases o <;> simp [sentIds, List.count_cons, Nat.add_comm]

theorem Mmio.Queue.disciplined {m : Mmio} (h : m.Queue) : m.Disciplined := by
  obtain ⟨htail, hundone, hfresh, horder, hsent, hbefore⟩ := h
  have hnodup : (addedIds m.trace).Nodup := hfresh ▸ List.nodup_range
  refine ⟨?_, ?_, ?_, hbefore, ⟨_, horder⟩, hnodup⟩
  · intro e he
    refine htail e.key ?_
    rw [Mmio.keys, ← List.map_tail]
    exact List.mem_map_of_mem he
  · intro e he
    exact hundone e.key (List.mem_map_of_mem he)
  · intro id
    have hsub : List.Sublist (sentIds m.trace) (addedIds m.trace) := by
      rw [hsent, ← horder]
      exact List.Sublist.append (List.Sublist.refl _) (List.Sublist.map _ List.filter_sublist)
    rw [← sentIds_count]
    exact List.nodup_iff_count_le_one.mp (hnodup.sublist hsub) id

/-- The discipline holds in every state that a run reaches, whatever the AFU answers. -/
theorem mmioQueue_disciplined (afuEvent : AfuEvent) (actions : List MmioAction) :
    ((mmioInit afuEvent).run actions).Disciplined :=
  (run_queue afuEvent actions).disciplined

end Ocse
