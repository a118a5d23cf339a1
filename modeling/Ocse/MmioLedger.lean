import Ocse.MmioQueue

/-!
# What the clients are told

The ledger of a run notes who asked for which event, whom an acknowledgement told of which event, and which
events nobody waits for any more: ocse keeps one pointer for each client, and a request that comes in while
it is in use takes its place.
-/

namespace Ocse

/-! ## What happens to an event -/

/-- The acknowledgement of the right kind. -/
def MmioEvent.rightAck (e : MmioEvent) : UInt8 := if e.cfg = true ∨ e.size = 0 then ocseMmioAck else ocseLpcAck

/-- The kind is set when the command is sent. -/
def MmioEvent.Acked (e : MmioEvent) : Prop := e.state ≠ .idle → e.ack = e.rightAck

/-- The event is still the same request. -/
structure MmioEvent.Kept (e e' : MmioEvent) : Prop where
  id : e'.id = e.id
  rnw : e'.rnw = e.rnw
  dw : e'.dw = e.dw
  cfg : e'.cfg = e.cfg
  size : e'.size = e.size
  acked : e.Acked → e'.Acked

theorem MmioEvent.Kept.trans {e e' e'' : MmioEvent} (h : e.Kept e') (h' : e'.Kept e'') : e.Kept e'' where
  id := h'.id.trans h.id
  rnw := h'.rnw.trans h.rnw
  dw := h'.dw.trans h.dw
  cfg := h'.cfg.trans h.cfg
  size := h'.size.trans h.size
  acked ha := h'.acked (h.acked ha)

/-- What a handler does to the events: it works on the first one, and may unlink it. -/
inductive Moved (m m' : Mmio) : Prop
  | keep (hlist : m'.list = m.list) (hfinished : m'.finished = m.finished)
  | alter (e e' : MmioEvent) (rest : List MmioEvent) (hlist : m.list = e :: rest) (hkept : e.Kept e')
      (hlist' : m'.list = e' :: rest) (hfinished : m'.finished = m.finished)
  | finish (e e' : MmioEvent) (rest : List MmioEvent) (hlist : m.list = e :: rest) (hkept : e.Kept e')
      (hdone : e'.state = .done) (hlist' : m'.list = rest) (hfinished : m'.finished = m.finished ++ [e'])

/-- What the clients have been told. -/
def ackedOf (trace : List MmioObs) : List MmioObs :=
  trace.filter (fun o => match o with | .acked .. => true | _ => false)

theorem ackedOf_sent (trace : List MmioObs) (id : ℕ) : ackedOf (trace ++ [.sent id]) = ackedOf trace := by
  simp [ackedOf]

theorem ackedOf_done (trace : List MmioObs) (id : ℕ) : ackedOf (trace ++ [.done id]) = ackedOf trace := by
  simp [ackedOf]

structure Moves (m m' : Mmio) : Prop where
  access : m'.access = m.access
  nextId : m'.nextId = m.nextId
  acked : ackedOf m'.trace = ackedOf m.trace
  moved : Moved m m'

/-- The event as `send_mmio` makes it ready, sent or not. -/
theorem kept_of_ready (e : MmioEvent) (state : MmioState) :
    e.Kept { (if e.cfg then { e with ack := ocseMmioAck } else e.encode) with state := state } := by
  have hack : ({ (if e.cfg then { e with ack := ocseMmioAck } else e.encode) with state := state } : MmioEvent).ack =
      e.rightAck := by
    unfold MmioEvent.encode MmioEvent.rightAck
    split_ifs <;> simp_all
  have hfields : ∀ e' : MmioEvent, e' = (if e.cfg then { e with ack := ocseMmioAck } else e.encode) →
      e'.id = e.id ∧ e'.rnw = e.rnw ∧ e'.dw = e.dw ∧ e'.cfg = e.cfg ∧ e'.size = e.size := by
    rintro e' rfl
    unfold MmioEvent.encode
    split_ifs <;> exact ⟨rfl, rfl, rfl, rfl, rfl⟩
  obtain ⟨hid, hrnw, hdw, hcfg, hsize⟩ := hfields _ rfl
  refine ⟨hid, hrnw, hdw, hcfg, hsize, fun _ _ => ?_⟩
  rw [hack]
  unfold MmioEvent.rightAck
  simp only [hcfg, hsize]

theorem sendMmio_moves (m : Mmio) : Moves m (sendMmio m) := by
  unfold sendMmio
  split
  · exact ⟨rfl, rfl, rfl, .keep rfl rfl⟩
  · rename_i e rest hlist
    split
    · exact ⟨rfl, rfl, rfl, .keep rfl rfl⟩
    · have hkept := kept_of_ready e
      generalize (if e.cfg then { e with ack := ocseMmioAck } else e.encode) = e' at hkept ⊢
      dsimp only
      split
      · exact ⟨rfl, rfl, ackedOf_sent _ _, .alter e _ rest hlist (hkept .pending) rfl rfl⟩
      · exact ⟨rfl, rfl, rfl, .alter e e' rest hlist (hkept e'.state) rfl rfl⟩

/-- An event under way that takes over something of a response. -/
theorem Kept.of_under_way {e e' : MmioEvent} (hstate : e.state ≠ .idle)
    (h : e'.id = e.id ∧ e'.rnw = e.rnw ∧ e'.dw = e.dw ∧ e'.cfg = e.cfg ∧ e'.size = e.size ∧ e'.ack = e.ack) :
    e.Kept e' := by
  obtain ⟨hid, hrnw, hdw, hcfg, hsize, hack⟩ := h
  refine ⟨hid, hrnw, hdw, hcfg, hsize, fun hacked _ => ?_⟩
  rw [hack, hacked hstate]
  unfold MmioEvent.rightAck
  simp only [hcfg, hsize]

/-- A response is noted, and the event stays the first. -/
theorem handleApResp_moves (m : Mmio) : Moves m (handleApResp m) ∧ (handleApResp m).finished = m.finished := by
  unfold handleApResp
  split
  · exact ⟨⟨rfl, rfl, rfl, .keep rfl rfl⟩, rfl⟩
  · rename_i e rest hlist
    split
    · unfold handleCfgResp
      split
      · exact ⟨⟨rfl, rfl, rfl, .keep rfl rfl⟩, rfl⟩
      · dsimp only
        split
        · exact ⟨⟨rfl, rfl, rfl, .keep rfl rfl⟩, rfl⟩
        · rename_i hstate
          have hunder : e.state ≠ .idle := by simp [not_not.mp hstate]
          split
          · refine ⟨⟨rfl, rfl, ackedOf_done _ _, .alter e _ rest hlist ?_ rfl rfl⟩, rfl⟩
            exact Kept.of_under_way hunder ⟨rfl, rfl, rfl, rfl, rfl, rfl⟩
          · refine ⟨⟨rfl, rfl, ackedOf_done _ _, .alter e _ rest hlist ?_ rfl rfl⟩, rfl⟩
            exact Kept.of_under_way hunder ⟨rfl, rfl, rfl, rfl, rfl, rfl⟩
    · unfold handleMemResp
      split
      · exact ⟨⟨rfl, rfl, rfl, .keep rfl rfl⟩, rfl⟩
      · dsimp only
        split
        · exact ⟨⟨rfl, rfl, rfl, .keep rfl rfl⟩, rfl⟩
        · rename_i hstate
          have hunder : e.state ≠ .idle := by simp [not_not.mp hstate]
          split
          · split
            · refine ⟨⟨rfl, rfl, rfl, .alter e _ rest hlist ?_ rfl rfl⟩, rfl⟩
              exact Kept.of_under_way hunder ⟨rfl, rfl, rfl, rfl, rfl, rfl⟩
            · exact ⟨⟨rfl, rfl, rfl, .keep rfl rfl⟩, rfl⟩
          · refine ⟨⟨rfl, rfl, ackedOf_done _ _, .alter e _ rest hlist ?_ rfl rfl⟩, rfl⟩
            exact Kept.of_under_way hunder ⟨rfl, rfl, rfl, rfl, rfl, rfl⟩

theorem takeRespData_moves {m : Mmio} {e : MmioEvent} {rest : List MmioEvent} (hlist : m.list = e :: rest)
    (hstate : e.state = .buffer) (afuEvent : AfuEvent) (bus : Buffer UInt8) :
    Moves m (takeRespData { m with afuEvent } e rest bus) := by
  have hunder : e.state ≠ .idle := by simp [hstate]
  unfold takeRespData
  dsimp only
  split
  · refine ⟨rfl, rfl, ackedOf_done _ _, .finish e _ rest hlist ?_ rfl rfl rfl⟩
    exact Kept.of_under_way hunder ⟨rfl, rfl, rfl, rfl, rfl, rfl⟩
  split
  · refine ⟨rfl, rfl, ackedOf_done _ _, .finish e _ rest hlist ?_ rfl rfl rfl⟩
    exact Kept.of_under_way hunder ⟨rfl, rfl, rfl, rfl, rfl, rfl⟩
  split
  · exact ⟨rfl, rfl, rfl, .keep rfl rfl⟩
  split
  · refine ⟨rfl, rfl, ackedOf_done _ _, .finish e _ rest hlist ?_ rfl rfl rfl⟩
    exact Kept.of_under_way hunder ⟨rfl, rfl, rfl, rfl, rfl, rfl⟩
  · refine ⟨rfl, rfl, rfl, .alter e _ rest hlist ?_ rfl rfl⟩
    exact Kept.of_under_way hunder ⟨rfl, rfl, rfl, rfl, rfl, rfl⟩

theorem handleApRespData_moves (m : Mmio) : Moves m (handleApRespData m) := by
  unfold handleApRespData
  split
  · exact ⟨rfl, rfl, rfl, .keep rfl rfl⟩
  · rename_i e rest hlist
    split
    · split
      · rename_i hdone
        have hunder : e.state ≠ .idle := by simp [hdone]
        exact ⟨rfl, rfl, rfl, .finish e e rest hlist (Kept.of_under_way hunder ⟨rfl, rfl, rfl, rfl, rfl, rfl⟩) hdone rfl rfl⟩
      · exact ⟨rfl, rfl, rfl, .keep rfl rfl⟩
    · split
      · exact ⟨rfl, rfl, rfl, .keep rfl rfl⟩
      · dsimp only
        split
        · exact ⟨rfl, rfl, rfl, .keep rfl rfl⟩
        · rename_i hstate
          exact takeRespData_moves hlist (not_not.mp hstate) _ _

theorem handleAfuMmio_moves (m : Mmio) : Moves m (handleAfuMmio m) := by
  obtain ⟨⟨haccess, hnext, hacked, hmoved⟩, hfinished⟩ := handleApResp_moves m
  unfold handleAfuMmio
  dsimp only
  split
  · exact ⟨haccess, hnext, hacked, hmoved⟩
  · obtain ⟨haccess', hnext', hacked', hmoved'⟩ := handleApRespData_moves (handleApResp m)
    refine ⟨haccess'.trans haccess, hnext'.trans hnext, hacked'.trans hacked, ?_⟩
    generalize handleApResp m = m₁ at hmoved hfinished hmoved'
    rcases hmoved with ⟨hlist, -⟩ | ⟨e, e₁, rest, hlist, hkept, hlist₁, -⟩ | ⟨e, e₁, rest, -, -, -, -, hgrown⟩
    · rcases hmoved' with ⟨hlist₂, hfin₂⟩ | ⟨e₁, e₂, rest, hlist₁, hkept₂, hlist₂, hfin₂⟩ |
        ⟨e₁, e₂, rest, hlist₁, hkept₂, hdone, hlist₂, hfin₂⟩
      · exact .keep (hlist₂.trans hlist) (hfin₂.trans hfinished)
      · exact .alter e₁ e₂ rest (hlist ▸ hlist₁) hkept₂ hlist₂ (hfin₂.trans hfinished)
      · exact .finish e₁ e₂ rest (hlist ▸ hlist₁) hkept₂ hdone hlist₂ (hfinished ▸ hfin₂)
    · rcases hmoved' with ⟨hlist₂, hfin₂⟩ | ⟨e₁', e₂, rest', hlist₁', hkept₂, hlist₂, hfin₂⟩ |
        ⟨e₁', e₂, rest', hlist₁', hkept₂, hdone, hlist₂, hfin₂⟩
      · exact .alter e e₁ rest hlist hkept (hlist₂.trans hlist₁) (hfin₂.trans hfinished)
      · obtain ⟨rfl, rfl⟩ := List.cons.inj (hlist₁.symm.trans hlist₁')
        exact .alter e e₂ rest hlist (hkept.trans hkept₂) hlist₂ (hfin₂.trans hfinished)
      · obtain ⟨rfl, rfl⟩ := List.cons.inj (hlist₁.symm.trans hlist₁')
        exact .finish e e₂ rest hlist (hkept.trans hkept₂) hdone hlist₂ (hfinished ▸ hfin₂)
    · rw [hfinished] at hgrown
      have hlength := congrArg List.length hgrown
      simp at hlength

theorem MmioEvent.Kept.refl (e : MmioEvent) : e.Kept e := ⟨rfl, rfl, rfl, rfl, rfl, fun h => h⟩

def Mmio.events (m : Mmio) : List MmioEvent := m.list ++ m.finished

def MmioEvent.ids (l : List MmioEvent) : List ℕ := l.map MmioEvent.id

section Events

variable {m m' : Mmio}

theorem Moved.ids_perm (h : Moved m m') : (MmioEvent.ids m'.events).Perm (MmioEvent.ids m.events) := by
  unfold Mmio.events MmioEvent.ids
  rcases h with ⟨hlist, hfinished⟩ | ⟨e, e', rest, hlist, hkept, hlist', hfinished⟩ |
    ⟨e, e', rest, hlist, hkept, -, hlist', hfinished⟩
  · rw [hlist, hfinished]
  · rw [hlist, hlist', hfinished]
    simp [hkept.id]
  · rw [hlist, hlist', hfinished, ← List.append_assoc, List.map_append, List.cons_append, List.map_cons,
      List.map_cons, List.map_nil, hkept.id]
    exact List.perm_append_singleton e.id _

/-- No event is dropped. -/
theorem Moved.kept (h : Moved m m') {e : MmioEvent} (he : e ∈ m.events) : ∃ e' ∈ m'.events, e.Kept e' := by
  unfold Mmio.events at he ⊢
  rcases h with ⟨hlist, hfinished⟩ | ⟨e₀, e', rest, hlist, hkept, hlist', hfinished⟩ |
    ⟨e₀, e', rest, hlist, hkept, -, hlist', hfinished⟩
  · rw [hlist, hfinished]
    exact ⟨e, he, .refl e⟩
  · rw [hlist, List.cons_append, List.mem_cons] at he
    rw [hlist', hfinished]
    rcases he with rfl | he
    · exact ⟨e', by simp, hkept⟩
    · exact ⟨e, List.mem_cons_of_mem _ he, .refl e⟩
  · rw [hlist, List.cons_append, List.mem_cons] at he
    rw [hlist', hfinished]
    rcases he with rfl | he
    · exact ⟨e', by simp, hkept⟩
    · refine ⟨e, ?_, .refl e⟩
      rw [← List.append_assoc]
      exact List.mem_append_left _ he

theorem Moved.finished_done (h : Moved m m') (hdone : ∀ e ∈ m.finished, e.state = .done) :
    ∀ e ∈ m'.finished, e.state = .done := by
  intro e he
  rcases h with ⟨-, hfinished⟩ | ⟨-, -, -, -, -, -, hfinished⟩ | ⟨e₀, e', rest, -, -, hdone', -, hfinished⟩
  · exact hdone e (hfinished ▸ he)
  · exact hdone e (hfinished ▸ he)
  · rw [hfinished, List.mem_append, List.mem_singleton] at he
    rcases he with he | rfl
    · exact hdone e he
    · exact hdone'

end Events

/-! ## The ledger -/

/-- An access that a client has asked for; `size` is zero for an MMIO. -/
structure ClientAccess where
  client : ℕ
  id : ℕ
  lpc : Bool
  rnw : Bool
  dw : Bool
  size : ℕ
  deriving DecidableEq, Repr

/-- The event of an access, whatever has become of it. -/
structure MmioEvent.Answers (e : MmioEvent) (r : ClientAccess) : Prop where
  id : e.id = r.id
  rnw : e.rnw = r.rnw
  dw : e.dw = r.dw
  cfg : e.cfg = false
  size : e.size = r.size
  acked : e.Acked

theorem MmioEvent.Answers.kept {e e' : MmioEvent} {r : ClientAccess} (h : e.Answers r) (hkept : e.Kept e') :
    e'.Answers r where
  id := hkept.id.trans h.id
  rnw := hkept.rnw.trans h.rnw
  dw := hkept.dw.trans h.dw
  cfg := hkept.cfg.trans h.cfg
  size := hkept.size.trans h.size
  acked := hkept.acked h.acked

structure AckLedger where
  engine : Mmio
  asked : List ClientAccess
  told : List (ℕ × MmioEvent)
  lost : List ℕ

/-- The access that an action asks for, as the event with this id. -/
def MmioAction.asks (a : MmioAction) (id : ℕ) : Option ClientAccess :=
  match a with
  | .mmio client _ rnw dw _ _ _ => some ⟨client, id, false, rnw, dw, 0⟩
  | .mem client rnw size _ _ _ _ => some ⟨client, id, true, rnw, false, size⟩
  | _ => none

/-- The event that a client waits for when its pointer is overwritten, or when it departs. -/
def MmioAction.displaces (a : MmioAction) (m : Mmio) : Option ℕ :=
  match a with
  | .mmio client .. | .mem client .. | .depart client => m.access client
  | _ => none

/-- The event that a poll acknowledges. -/
def MmioAction.tells (a : MmioAction) (m : Mmio) : Option (ℕ × MmioEvent) :=
  match a with
  | .poll client => do
      let id ← m.access client
      let e ← m.finished.find? (fun e => e.id = id)
      return (client, e)
  | _ => none

def AckLedger.step (l : AckLedger) (a : MmioAction) : AckLedger :=
  if l.engine.halted then l
  else
    { engine := l.engine.act a
      asked := l.asked ++ (a.asks l.engine.nextId).toList
      told := l.told ++ (a.tells l.engine).toList
      lost := l.lost ++ (a.displaces l.engine).toList }

def AckLedger.run (l : AckLedger) (actions : List MmioAction) : AckLedger := actions.foldl AckLedger.step l

def AckLedger.init (afuEvent : AfuEvent) : AckLedger := ⟨mmioInit afuEvent, [], [], []⟩

theorem AckLedger.run_engine (l : AckLedger) (actions : List MmioAction) :
    (l.run actions).engine = l.engine.run actions := by
  induction actions generalizing l with
  | nil => rfl
  | cons a actions ih =>
    have hstep : (l.step a).engine = l.engine.step a := by
      unfold AckLedger.step Mmio.step
      split <;> rfl
    have hrest := ih (l.step a)
    rw [hstep] at hrest
    exact hrest

def AckLedger.events (l : AckLedger) : List MmioEvent := l.engine.events ++ l.told.map Prod.snd

/-- No event is there twice, each access has its event, and each client waits for its access, has been told of
it, or has lost it; only one of the three. -/
structure AckLedger.Sound (l : AckLedger) : Prop where
  ids : (MmioEvent.ids l.events).Nodup
  below : ∀ id ∈ MmioEvent.ids l.events, id < l.engine.nextId
  done : ∀ e ∈ l.engine.finished, e.state = .done
  distinct : (l.asked.map ClientAccess.id).Nodup
  asked : ∀ r ∈ l.asked, ∃ e ∈ l.events, e.Answers r
  waiting : ∀ r ∈ l.asked, l.engine.access r.client = some r.id ∨ r.id ∈ l.lost ∨
    ∃ e, (r.client, e) ∈ l.told ∧ e.id = r.id
  access : ∀ c id, l.engine.access c = some id → (∃ r ∈ l.asked, r.client = c ∧ r.id = id) ∧ id ∉ l.lost ∧
    ∀ x ∈ l.told, x.2.id ≠ id
  lost : ∀ id ∈ l.lost, (∃ r ∈ l.asked, r.id = id) ∧ ∀ x ∈ l.told, x.2.id ≠ id
  told : ∀ x ∈ l.told, x.2.state = .done ∧ ∃ r ∈ l.asked, r.client = x.1 ∧ x.2.Answers r
  messages : ackedOf l.engine.trace = l.told.map (fun x => .acked x.1 x.2.ackMessage)

section Sound

variable {l : AckLedger}

theorem AckLedger.Sound.fresh (h : l.Sound) {r : ClientAccess} (hr : r ∈ l.asked) : r.id < l.engine.nextId := by
  obtain ⟨e, he, hanswers⟩ := h.asked r hr
  rw [← hanswers.id]
  exact h.below e.id (List.mem_map_of_mem he)

theorem AckLedger.Sound.lost_fresh (h : l.Sound) {id : ℕ} (hid : id ∈ l.lost) : id < l.engine.nextId := by
  obtain ⟨⟨r, hr, rfl⟩, -⟩ := h.lost id hid
  exact h.fresh hr

theorem AckLedger.Sound.told_fresh (h : l.Sound) {x : ℕ × MmioEvent} (hx : x ∈ l.told) :
    x.2.id < l.engine.nextId :=
  h.below x.2.id (List.mem_map_of_mem (List.mem_append_right _ (List.mem_map_of_mem hx)))

/-- The handlers work on the events and leave the ledger alone. -/
theorem AckLedger.Sound.moves (h : l.Sound) {m' : Mmio} (hm : Moves l.engine m') :
    ({ l with engine := m' } : AckLedger).Sound := by
  obtain ⟨haccess, hnext, hacked, hmoved⟩ := hm
  have hperm : (MmioEvent.ids ({ l with engine := m' } : AckLedger).events).Perm (MmioEvent.ids l.events) := by
    unfold AckLedger.events MmioEvent.ids
    rw [List.map_append, List.map_append]
    exact hmoved.ids_perm.append_right _
  refine ⟨hperm.nodup_iff.mpr h.ids, ?_, hmoved.finished_done h.done, h.distinct, ?_, ?_, ?_, h.lost, h.told, ?_⟩
  · intro id hid
    change id < m'.nextId
    rw [hnext]
    exact h.below id (hperm.mem_iff.mp hid)
  · intro r hr
    obtain ⟨e, he, hanswers⟩ := h.asked r hr
    rcases List.mem_append.mp he with he | he
    · obtain ⟨e', he', hkept⟩ := hmoved.kept he
      exact ⟨e', List.mem_append_left _ he', hanswers.kept hkept⟩
    · exact ⟨e, List.mem_append_right _ he, hanswers⟩
  · intro r hr
    change m'.access r.client = some r.id ∨ _
    rw [haccess]
    exact h.waiting r hr
  · intro c id hid
    have hid' : m'.access c = some id := hid
    rw [haccess] at hid'
    exact h.access c id hid'
  · change ackedOf m'.trace = _
    rw [hacked]
    exact h.messages

/-- The ids of the events when one more is linked. -/
theorem ids_append (m : Mmio) (e : ℕ → MmioEvent) (he : (e m.nextId).id = m.nextId) (rest : List MmioEvent) :
    (MmioEvent.ids ((m.append e).events ++ rest)).Perm (m.nextId :: MmioEvent.ids (m.events ++ rest)) := by
  unfold MmioEvent.ids Mmio.events Mmio.append
  dsimp only
  simp only [List.append_assoc, List.singleton_append, List.map_append, List.map_cons, he]
  exact List.perm_middle

theorem AckLedger.Sound.ids_append (h : l.Sound) (e : ℕ → MmioEvent) (he : (e l.engine.nextId).id = l.engine.nextId) :
    (MmioEvent.ids ((l.engine.append e).events ++ l.told.map Prod.snd)).Nodup ∧
      ∀ id ∈ MmioEvent.ids ((l.engine.append e).events ++ l.told.map Prod.snd), id < l.engine.nextId + 1 := by
  have hperm := Ocse.ids_append l.engine e he (l.told.map Prod.snd)
  constructor
  · rw [hperm.nodup_iff, List.nodup_cons]
    refine ⟨fun hmem => ?_, h.ids⟩
    exact absurd (h.below _ hmem) (Nat.lt_irrefl _)
  · intro id hid
    rw [hperm.mem_iff, List.mem_cons] at hid
    rcases hid with rfl | hid
    · exact Nat.lt_succ_self _
    · exact Nat.lt_succ_of_lt (h.below id hid)

theorem ackedOf_added (trace : List MmioObs) (id : ℕ) : ackedOf (trace ++ [.added id]) = ackedOf trace := by
  simp [ackedOf]

/-- A config access is nobody's. -/
theorem AckLedger.Sound.addCfg (h : l.Sound) (rnw dw : Bool) (addr data : UInt64) :
    ({ l with engine := Ocse.addCfg l.engine rnw dw addr data } : AckLedger).Sound := by
  obtain ⟨hids, hbelow⟩ := h.ids_append
    (fun id => { MmioEvent.new id rnw addr with cfg := true, dw, cmdData := data }) rfl
  refine ⟨hids, hbelow, h.done, h.distinct, ?_, h.waiting, h.access, h.lost, h.told, ?_⟩
  · intro r hr
    obtain ⟨e, he, hanswers⟩ := h.asked r hr
    refine ⟨e, ?_, hanswers⟩
    unfold AckLedger.events Mmio.events at he ⊢
    simp only [List.mem_append] at he ⊢
    rcases he with (he | he) | he
    · exact .inl (.inl (List.mem_append_left _ he))
    · exact .inl (.inr he)
    · exact .inr he
  · exact (ackedOf_added _ _).trans h.messages

theorem setAccess_same (m : Mmio) (client : ℕ) (id : Option ℕ) : (m.setAccess client id).access client = id := by
  simp [Mmio.setAccess]

theorem setAccess_other (m : Mmio) {client c : ℕ} (id : Option ℕ) (h : c ≠ client) :
    (m.setAccess client id).access c = m.access c := by
  simp [Mmio.setAccess, h]

/-- Two clients never wait for one event. -/
theorem AckLedger.Sound.access_unique (h : l.Sound) {c c' id : ℕ} (hc : l.engine.access c = some id)
    (hc' : l.engine.access c' = some id) : c = c' := by
  obtain ⟨⟨r, hr, rfl, hid⟩, -⟩ := h.access c id hc
  obtain ⟨⟨r', hr', rfl, hid'⟩, -⟩ := h.access c' id hc'
  rw [List.inj_on_of_nodup_map h.distinct hr hr' (hid.trans hid'.symm)]

/-- An access of a client takes the place of the one that it waits for. -/
theorem AckLedger.Sound.ask (h : l.Sound) (client : ℕ) (e : ℕ → MmioEvent) (r : ClientAccess)
    (hr : r.client = client ∧ r.id = l.engine.nextId) (he : (e l.engine.nextId).Answers r) :
    ({ engine := (l.engine.append e).setAccess client (some l.engine.nextId)
       asked := l.asked ++ [r], told := l.told
       lost := l.lost ++ (l.engine.access client).toList } : AckLedger).Sound := by
  obtain ⟨hclient, hrid⟩ := hr
  obtain ⟨hids, hbelow⟩ := h.ids_append e (he.id.trans hrid)
  refine ⟨hids, hbelow, h.done, ?_, ?_, ?_, ?_, ?_, ?_, (ackedOf_added _ _).trans h.messages⟩
  · rw [List.map_append, List.map_singleton, List.nodup_append]
    refine ⟨h.distinct, by simp, ?_⟩
    intro id hid id' hid'
    obtain ⟨r', hr', rfl⟩ := List.mem_map.mp hid
    rw [List.mem_singleton.mp hid', hrid]
    exact Nat.ne_of_lt (h.fresh hr')
  · intro r' hr'
    unfold AckLedger.events Mmio.events
    rcases List.mem_append.mp hr' with hr' | hr'
    · obtain ⟨e', he', hanswers⟩ := h.asked r' hr'
      refine ⟨e', ?_, hanswers⟩
      unfold AckLedger.events Mmio.events at he'
      simp only [List.mem_append] at he' ⊢
      rcases he' with (he' | he') | he'
      · exact .inl (.inl (List.mem_append_left _ he'))
      · exact .inl (.inr he')
      · exact .inr he'
    · rw [List.mem_singleton.mp hr']
      refine ⟨e l.engine.nextId, ?_, he⟩
      exact List.mem_append_left _ (List.mem_append_left _ (List.mem_append_right _ (List.mem_singleton.mpr rfl)))
  · intro r' hr'
    rcases List.mem_append.mp hr' with hr' | hr'
    · by_cases hsame : r'.client = client
      · rcases h.waiting r' hr' with hwaits | hlost | htold
        · rw [hsame] at hwaits
          exact .inr (.inl (List.mem_append_right _ (by simp [hwaits])))
        · exact .inr (.inl (List.mem_append_left _ hlost))
        · exact .inr (.inr htold)
      · rcases h.waiting r' hr' with hwaits | hlost | htold
        · exact .inl ((setAccess_other _ _ hsame).trans hwaits)
        · exact .inr (.inl (List.mem_append_left _ hlost))
        · exact .inr (.inr htold)
    · rw [List.mem_singleton.mp hr', hclient, hrid]
      exact .inl (setAccess_same _ _ _)
  · intro c id hid
    by_cases hsame : c = client
    · subst hsame
      obtain rfl : l.engine.nextId = id := Option.some.inj ((setAccess_same _ _ _).symm.trans hid)
      refine ⟨⟨r, by simp, hclient, hrid⟩, fun hlost => ?_, fun x hx => Nat.ne_of_lt (h.told_fresh hx)⟩
      rcases List.mem_append.mp hlost with hlost | hlost
      · exact Nat.lt_irrefl _ (h.lost_fresh hlost)
      · obtain ⟨⟨r', hr', -, hid'⟩, -⟩ := h.access c _ (Option.mem_toList.mp hlost)
        have hfresh := h.fresh hr'
        omega
    · have hid' : l.engine.access c = some id := (setAccess_other _ _ hsame).symm.trans hid
      obtain ⟨⟨r', hr', hc', hrid'⟩, hlost, htold⟩ := h.access c id hid'
      refine ⟨⟨r', List.mem_append_left _ hr', hc', hrid'⟩, fun hlost' => ?_, htold⟩
      rcases List.mem_append.mp hlost' with hlost' | hlost'
      · exact hlost hlost'
      · exact hsame (h.access_unique hid' (Option.mem_toList.mp hlost'))
  · intro id hid
    rcases List.mem_append.mp hid with hid | hid
    · obtain ⟨⟨r', hr', hrid'⟩, htold⟩ := h.lost id hid
      exact ⟨⟨r', List.mem_append_left _ hr', hrid'⟩, htold⟩
    · obtain ⟨⟨r', hr', -, hrid'⟩, -, htold⟩ := h.access client id (Option.mem_toList.mp hid)
      exact ⟨⟨r', List.mem_append_left _ hr', hrid'⟩, htold⟩
  · intro x hx
    obtain ⟨hdone, r', hr', hanswers⟩ := h.told x hx
    exact ⟨hdone, r', List.mem_append_left _ hr', hanswers⟩

/-- What is told leaves the finished events, and nothing else does. -/
theorem finished_perm {finished : List MmioEvent} (hnodup : (MmioEvent.ids finished).Nodup) {e : MmioEvent}
    (he : e ∈ finished) : (finished.filter (fun x => x.id ≠ e.id) ++ [e]).Perm finished := by
  induction finished with
  | nil => cases he
  | cons x xs ih =>
      obtain ⟨hx, hxs⟩ := List.nodup_cons.mp hnodup
      rcases List.mem_cons.mp he with rfl | he
      · have hrest : xs.filter (fun y => y.id ≠ e.id) = xs := by
          rw [List.filter_eq_self]
          intro y hy
          have hne : y.id ≠ e.id := fun heq => hx (heq ▸ List.mem_map_of_mem hy)
          simp [hne]
        rw [List.filter_cons_of_neg (by simp), hrest]
        exact List.perm_append_singleton e xs
      · have hne : x.id ≠ e.id := fun heq => hx (heq ▸ List.mem_map_of_mem he)
        rw [List.filter_cons_of_pos (by simp [hne]), List.cons_append]
        exact (ih hxs he).cons x

theorem ackedOf_acked (trace : List MmioObs) (client : ℕ) (bytes : List UInt8) :
    ackedOf (trace ++ [MmioObs.acked client bytes]) = ackedOf trace ++ [MmioObs.acked client bytes] := by
  simp [ackedOf]

/-- A client that waits for a finished event is told of it. -/
theorem AckLedger.Sound.tell (h : l.Sound) {client : ℕ} {e : MmioEvent} (hwaits : l.engine.access client = some e.id)
    (he : e ∈ l.engine.finished) : ({ l with
    engine := { l.engine with
      finished := l.engine.finished.filter (fun x => x.id ≠ e.id)
      trace := l.engine.trace ++ [MmioObs.acked client e.ackMessage] }.setAccess client none
    told := l.told ++ [(client, e)] } : AckLedger).Sound := by
  obtain ⟨⟨r, hr, hclient, hrid⟩, hnotLost, hnotTold⟩ := h.access client e.id hwaits
  have hnodup : (MmioEvent.ids l.engine.finished).Nodup := by
    refine h.ids.sublist ?_
    unfold AckLedger.events Mmio.events MmioEvent.ids
    refine List.Sublist.map _ ?_
    exact (List.sublist_append_right _ _).trans (List.sublist_append_left _ _)
  have hperm : (l.engine.list ++ l.engine.finished.filter (fun x => x.id ≠ e.id) ++
      (l.told ++ [(client, e)]).map Prod.snd).Perm l.events := by
    unfold AckLedger.events Mmio.events
    rw [List.map_append, List.append_assoc, List.append_assoc]
    refine List.Perm.append_left _ ?_
    have hswap : (l.told.map Prod.snd ++ [e]).Perm ([e] ++ l.told.map Prod.snd) := List.perm_append_comm
    have hback := (finished_perm hnodup he).append_right (l.told.map Prod.snd)
    rw [List.append_assoc] at hback
    exact (hswap.append_left _).trans hback
  refine ⟨?_, ?_, ?_, h.distinct, ?_, ?_, ?_, ?_, ?_, ?_⟩
  · exact (hperm.map MmioEvent.id).nodup_iff.mpr h.ids
  · intro id hid
    exact h.below id ((hperm.map MmioEvent.id).mem_iff.mp hid)
  · intro x hx
    exact h.done x (List.mem_of_mem_filter hx)
  · intro r' hr'
    obtain ⟨x, hx, hanswers⟩ := h.asked r' hr'
    exact ⟨x, hperm.mem_iff.mpr hx, hanswers⟩
  · intro r' hr'
    rcases h.waiting r' hr' with hwaits' | hlost | ⟨x, hx, hid⟩
    · by_cases hsame : r'.client = client
      · rw [hsame, hwaits] at hwaits'
        exact .inr (.inr ⟨e, by simp [hsame], Option.some.inj hwaits'⟩)
      · exact .inl ((setAccess_other _ _ hsame).trans hwaits')
    · exact .inr (.inl hlost)
    · exact .inr (.inr ⟨x, List.mem_append_left _ hx, hid⟩)
  · intro c id hid
    by_cases hsame : c = client
    · rw [hsame] at hid
      exact absurd ((setAccess_same _ _ _).symm.trans hid) (by simp)
    · have hid' : l.engine.access c = some id := (setAccess_other _ _ hsame).symm.trans hid
      obtain ⟨hasked, hlost, htold⟩ := h.access c id hid'
      refine ⟨hasked, hlost, fun x hx heq => ?_⟩
      rcases List.mem_append.mp hx with hx | hx
      · exact htold x hx heq
      · rw [List.mem_singleton.mp hx] at heq
        exact hsame (h.access_unique hid' (heq ▸ hwaits))
  · intro id hid
    obtain ⟨hasked, htold⟩ := h.lost id hid
    refine ⟨hasked, fun x hx heq => ?_⟩
    rcases List.mem_append.mp hx with hx | hx
    · exact htold x hx heq
    · rw [List.mem_singleton.mp hx] at heq
      exact hnotLost (heq ▸ hid)
  · intro x hx
    rcases List.mem_append.mp hx with hx | hx
    · exact h.told x hx
    · rw [List.mem_singleton.mp hx]
      obtain ⟨e₁, he₁, hanswers⟩ := h.asked r hr
      have hsame : e₁ = e := by
        refine List.inj_on_of_nodup_map h.ids he₁ ?_ (hanswers.id.trans hrid)
        exact List.mem_append_left _ (List.mem_append_right _ he)
      exact ⟨h.done e he, r, hr, hclient, hsame ▸ hanswers⟩
  · refine (ackedOf_acked _ _ _).trans ?_
    rw [h.messages, List.map_append]
    rfl

theorem AckLedger.Sound.poll (h : l.Sound) (client : ℕ) : ({ l with
    engine := handleMmioDone l.engine client
    told := l.told ++ ((MmioAction.poll client).tells l.engine).toList } : AckLedger).Sound := by
  unfold handleMmioDone MmioAction.tells
  cases hwaits : l.engine.access client with
  | none => simpa [hwaits] using h
  | some id =>
      cases hfind : l.engine.finished.find? (fun e => e.id = id) with
      | none => simpa [hwaits, hfind] using h
      | some e =>
          obtain rfl : e.id = id := by simpa using List.find?_some hfind
          have htell := h.tell hwaits (List.mem_of_find?_eq_some hfind)
          simpa [hwaits, hfind] using htell

theorem AckLedger.Sound.depart (h : l.Sound) (client : ℕ) : ({ l with
    engine := l.engine.setAccess client none
    lost := l.lost ++ (l.engine.access client).toList } : AckLedger).Sound := by
  refine ⟨h.ids, h.below, h.done, h.distinct, h.asked, ?_, ?_, ?_, h.told, h.messages⟩
  · intro r hr
    by_cases hsame : r.client = client
    · rcases h.waiting r hr with hwaits | hlost | htold
      · rw [hsame] at hwaits
        exact .inr (.inl (List.mem_append_right _ (by simp [hwaits])))
      · exact .inr (.inl (List.mem_append_left _ hlost))
      · exact .inr (.inr htold)
    · rcases h.waiting r hr with hwaits | hlost | htold
      · exact .inl ((setAccess_other _ _ hsame).trans hwaits)
      · exact .inr (.inl (List.mem_append_left _ hlost))
      · exact .inr (.inr htold)
  · intro c id hid
    by_cases hsame : c = client
    · rw [hsame] at hid
      exact absurd ((setAccess_same _ _ _).symm.trans hid) (by simp)
    · have hid' : l.engine.access c = some id := (setAccess_other _ _ hsame).symm.trans hid
      obtain ⟨hasked, hlost, htold⟩ := h.access c id hid'
      refine ⟨hasked, fun hlost' => ?_, htold⟩
      rcases List.mem_append.mp hlost' with hlost' | hlost'
      · exact hlost hlost'
      · exact hsame (h.access_unique hid' (Option.mem_toList.mp hlost'))
  · intro id hid
    rcases List.mem_append.mp hid with hid | hid
    · exact h.lost id hid
    · obtain ⟨⟨r', hr', -, hrid'⟩, -, htold⟩ := h.access client id (Option.mem_toList.mp hid)
      exact ⟨⟨r', hr', hrid'⟩, htold⟩

theorem AckLedger.Sound.step (h : l.Sound) (a : MmioAction) : (l.step a).Sound := by
  unfold AckLedger.step
  split
  · exact h
  · cases a with
    | frame afuEvent =>
      have hmoves : Moves l.engine { l.engine with afuEvent } := ⟨rfl, rfl, rfl, .keep rfl rfl⟩
      simp only [MmioAction.asks, MmioAction.tells, MmioAction.displaces, Option.toList_none, List.append_nil]
      exact h.moves hmoves
    | cfg rnw dw addr data =>
      simp only [MmioAction.asks, MmioAction.tells, MmioAction.displaces, Option.toList_none, List.append_nil]
      exact h.addCfg rnw dw addr data
    | mmio client cfg rnw dw global addr data =>
      simp only [MmioAction.asks, MmioAction.tells, MmioAction.displaces, Option.toList_none, Option.toList_some,
        List.append_nil]
      exact h.ask client (fun id => { MmioEvent.new id rnw (cfg.base global + addr) with dw, cmdData := data })
        _ ⟨rfl, rfl⟩ ⟨rfl, rfl, rfl, rfl, rfl, fun hstate => absurd rfl hstate⟩
    | mem client rnw size addr data beValid be =>
      simp only [MmioAction.asks, MmioAction.tells, MmioAction.displaces, Option.toList_none, Option.toList_some,
        List.append_nil]
      exact h.ask client (fun id => { MmioEvent.new id rnw addr with size, data, beValid, be })
        _ ⟨rfl, rfl⟩ ⟨rfl, rfl, rfl, rfl, rfl, fun hstate => absurd rfl hstate⟩
    | handleAfu =>
      simp only [MmioAction.asks, MmioAction.tells, MmioAction.displaces, Option.toList_none, List.append_nil]
      exact h.moves (handleAfuMmio_moves l.engine)
    | send =>
      simp only [MmioAction.asks, MmioAction.tells, MmioAction.displaces, Option.toList_none, List.append_nil]
      exact h.moves (sendMmio_moves l.engine)
    | poll client =>
      simp only [MmioAction.asks, MmioAction.displaces, Option.toList_none, List.append_nil]
      exact h.poll client
    | depart client =>
      simp only [MmioAction.asks, MmioAction.tells, MmioAction.displaces, Option.toList_none, List.append_nil]
      exact h.depart client

end Sound

theorem AckLedger.init_sound (afuEvent : AfuEvent) : (AckLedger.init afuEvent).Sound where
  ids := List.nodup_nil
  below := by
    intro id hid
    cases hid
  done := by
    intro e he
    cases he
  distinct := List.nodup_nil
  asked := by
    intro r hr
    cases hr
  waiting := by
    intro r hr
    cases hr
  access := by
    intro c id hid
    cases hid
  lost := by
    intro id hid
    cases hid
  told := by
    intro x hx
    cases hx
  messages := rfl

theorem AckLedger.run_sound (afuEvent : AfuEvent) (actions : List MmioAction) :
    ((AckLedger.init afuEvent).run actions).Sound := by
  apply foldl_invariant AckLedger.Sound _ (AckLedger.init_sound afuEvent)
  intro l a h
  exact h.step a

end Ocse
