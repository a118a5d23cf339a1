import Ocse.MemReply
import Ocse.Outstanding
import Ocse.Routing

/-!
# What a step puts on the sockets

The engine as its clients see it while nobody departs: a step asks one client for a memory operation, passes
an interrupt on, connects a client, or says nothing to anybody. Whoever has been asked goes on waiting, and an
event that is done stays what it is.
-/

namespace Ocse

/-! ## Messages -/

/-- The bytes that a part of the record puts on a client's socket. -/
def sentTo (client : ℕ) (obs : List Obs) : List UInt8 :=
  obs.flatMap (fun
    | .sent c _ bytes => if c = client then bytes else []
    | _ => [])

def Obs.isSent : Obs → Bool
  | .sent _ _ _ => true
  | _ => false

/-- The step reads the answer to a memory request off a socket. -/
def Action.isReply : Action → Bool
  | .client _ .memFailure | .client _ (.memSuccess _) => true
  | _ => false

/-- A command that comes with a length that its interrupt message has room for. -/
def Ocl.OffersShort (s : Ocl) : Prop :=
  s.afuEvent.afuCmd.valid ≠ 0 → s.afuEvent.afuCmd.opcode = afuCmdIntrpReqD → s.afuEvent.afuCmd.pl ≤ 5

instance (s : Ocl) : Decidable s.OffersShort := inferInstanceAs (Decidable (_ → _ → _))

/-! ## Events -/

/-- What is known of a listed event: its message can be read as long as it may be sent, and the answer that it gets
tells a failure from a success. -/
structure CmdEvent.Sane (e : CmdEvent) : Prop where
  accepted : e.type.isMemory = true ∨ e.type.isInterrupt = true → e.state ≠ .done → e.Accepted
  reads : e.type = .read → e.state ≠ .received
  failed : e.type = .failed → e.state ≠ .pendingSent → e.resp ≠ 0
  pending : e.state = .xlatePending ∨ e.state = .intPending ∨ e.state = .pendingSent → e.type = .failed
  opcode : e.type ≠ .failed → e.respOpcode = tlxRspReadResp ∨ e.respOpcode = tlxRspWriteResp → e.type.isMemory = true

/-- A memory command that its client has carried out. -/
def CmdEvent.Concluded (e : CmdEvent) : Prop := e.type.isMemory = true ∧ e.state = .done

/-- Two states of one event, with the same data for the same request. -/
structure CmdEvent.SameDeal (e e' : CmdEvent) : Prop where
  id : e'.id = e.id
  context : e'.context = e.context
  afutag : e'.afutag = e.afutag
  command : e'.command = e.command
  addr : e'.addr = e.addr
  type : e'.type = e.type
  data : e'.data = e.data

/-- Where an event of the next state comes from when nobody is asked. -/
inductive Ocl.Gives (s : Ocl) (e' : CmdEvent) : Prop
  | new (hid : s.nextId ≤ e'.id) (hsane : e'.Sane) (hopen : ¬e'.Concluded)
  | old (e : CmdEvent) (he : e ∈ s.list) (hid : e'.id = e.id) (hcontext : e'.context = e.context)
      (hsane : e'.Sane) (hdone : e.state = .done → e'.state = .done)
      (hsame : e'.Concluded → e.Concluded ∧ e.SameDeal e')

/-- Who a client is, and what it has been asked. -/
def Client.standing (c : Client) : ℕ × Option ℕ := (c.id, c.memAccess)

structure Ocl.Quiet (s s' : Ocl) : Prop where
  clients : ∀ i, (s'.client i).map Client.standing = (s.client i).map Client.standing
  asked : ∀ i c e, s.client i = some c → e ∈ s.list → c.memAccess = some e.id → e ∈ s'.list
  events : ∀ e ∈ s'.list, s.Gives e

inductive Ocl.Traffic (s : Ocl) (a : Action) : Prop
  | quiet (k : ℕ) (qs : List CmdEvent) (hqs : ∀ q ∈ qs, q.type.isInterrupt = true ∧ q.Accepted)
      (hk : qs ≠ [] → ∃ i c, s.client i = some c ∧ c.id = k)
      (hnews : ∀ j, sentTo j (s.news a) = if j = k then qs.flatMap CmdEvent.clientMessage else [])
      (hquiet : s.Quiet (s.step a)) (hnext : s.nextId ≤ (s.step a).nextId)
  | ask (e : CmdEvent) (c : Client) (he : e ∈ s.list) (hc : s.client e.context = some c) (hready : e.Ready)
      (hfree : c.memAccess = none)
      (hnews : ∀ j, sentTo j (s.news a) = if j = c.id then e.clientMessage else [])
      (hlist : (s.step a).list = (s.setEvent { e with state := e.askedState }).list)
      (hclient : (s.step a).client = Function.update s.client e.context (some { c with memAccess := some e.id }))
      (hnext : (s.step a).nextId = s.nextId)
  | connect (i : ℕ) (c : Client) (hi : s.client i = none) (hid : c.id = s.nextId) (hmem : c.memAccess = none)
      (hnews : ∀ j, sentTo j (s.news a) = []) (hlist : (s.step a).list = s.list)
      (hclient : (s.step a).client = Function.update s.client i (some c))
      (hnext : (s.step a).nextId = s.nextId + 1)

section Events

variable {s : Ocl} {e e' : CmdEvent}

theorem CmdEvent.SameDeal.refl (e : CmdEvent) : e.SameDeal e := ⟨rfl, rfl, rfl, rfl, rfl, rfl, rfl⟩

theorem CmdEvent.SameDeal.trans {e'' : CmdEvent} (h : e.SameDeal e') (h' : e'.SameDeal e'') : e.SameDeal e'' :=
  ⟨h'.id.trans h.id, h'.context.trans h.context, h'.afutag.trans h.afutag, h'.command.trans h.command,
    h'.addr.trans h.addr, h'.type.trans h.type, h'.data.trans h.data⟩

theorem Ocl.Gives.same (he : e ∈ s.list) (hsane : e.Sane) : s.Gives e :=
  .old e he rfl rfl hsane (fun h => h) (fun h => ⟨h, .refl e⟩)

theorem CmdEvent.Accepted.congr (h : e.Accepted) (haddr : e'.addr = e.addr) (htype : e'.type = e.type)
    (hsize : e'.size = e.size) (hcommand : e'.command = e.command) : e'.Accepted := by
  obtain ⟨haddr', hsize'⟩ := h
  refine ⟨haddr ▸ haddr', ?_⟩
  unfold CmdEvent.LegalSize at hsize' ⊢
  rw [htype, hsize, hcommand]
  exact hsize'

theorem CmdEvent.Sane.of_failed (htype : e.type = .failed) (hresp : e.resp ≠ 0) : e.Sane := by
  constructor
  · rintro (h | h) <;> simp [htype, CmdType.isMemory, CmdType.isInterrupt] at h
  · intro h
    rw [htype] at h
    cases h
  · exact fun _ _ => hresp
  · exact fun _ => htype
  · exact fun h => absurd htype h

/-- The state matters for what can be sent only. -/
theorem CmdEvent.Sane.setState (h : e.Sane) {state : MemState} (hopen : state ≠ .done → e.state ≠ .done)
    (hreceived : state ≠ .received) (hpending : state ≠ .pendingSent → e.state ≠ .pendingSent)
    (hfailed : state = .xlatePending ∨ state = .intPending ∨ state = .pendingSent → e.type = .failed) :
    ({ e with state } : CmdEvent).Sane where
  accepted := fun htype hstate => (h.accepted htype (hopen hstate)).congr rfl rfl rfl rfl
  reads := fun _ => hreceived
  failed := fun htype hstate => h.failed htype (hpending hstate)
  pending := hfailed
  opcode := h.opcode

theorem CmdEvent.Accepted.memory (h : e.Accepted) : e.type.isMemory = true ↔ e.type.isInterrupt = false := by
  have hsize := h.size
  unfold CmdEvent.LegalSize at hsize
  cases htype : e.type <;> simp [htype, CmdType.isMemory, CmdType.isInterrupt] at hsize ⊢

theorem CmdEvent.Ready.open (h : e.Ready) : e.state ≠ .done := by
  rcases h.state with hs | hs <;> simp [hs]

theorem CmdEvent.Awaiting.open (h : e.Awaiting) : e.state ≠ .done := by
  rcases h.state with hs | hs | hs <;> simp [hs]

/-- A change that nobody outside sees leaves a done event done with the same data. -/
theorem Rewrite.sane (hr : Rewrite e e') (hsane : e.Sane) : e'.Sane := by
  cases hr with
  | inject code hor hcode =>
    have hne : code ≠ 0 := by rcases hcode with rfl | rfl | rfl <;> decide
    exact .of_failed rfl hne
  | xlatePending hready => exact .of_failed rfl (show (0x04 : UInt8) ≠ 0 by decide)
  | intPending hraised htype => exact .of_failed rfl (show (0x04 : UInt8) ≠ 0 by decide)
  | readDone htype hstate => exact absurd hstate (hsane.reads htype)
  | beat bus htype hstate =>
    have haccepted : e.Accepted :=
      hsane.accepted (.inl (by rw [htype]; rfl)) (by simp [hstate])
    unfold CmdEvent.nextBeat
    split_ifs
    all_goals
      refine ⟨fun _ _ => haccepted.congr rfl rfl rfl rfl, fun h => ?_, fun h => ?_, fun h => ?_, hsane.opcode⟩
      · exact absurd h (by simp [htype])
      · exact absurd h (by simp [htype])
      · exact absurd h (by simp [hstate])
  | redraw resp hstate =>
    refine ⟨fun htype hopen => ?_, hsane.reads, fun _ h => absurd hstate h, hsane.pending, hsane.opcode⟩
    exact (hsane.accepted htype hopen).congr rfl rfl rfl rfl

theorem Rewrite.open (hr : Rewrite e e') (hsane : e.Sane) : e.state ≠ .done ∧ ¬e'.Concluded := by
  cases hr with
  | inject code hor hcode =>
    refine ⟨?_, fun h => Bool.noConfusion h.1⟩
    rcases hor with hready | ⟨-, hs | hs⟩
    · exact hready.open
    all_goals simp [hs]
  | xlatePending hready => exact ⟨hready.open, fun h => Bool.noConfusion h.1⟩
  | intPending hraised htype =>
    refine ⟨?_, fun h => Bool.noConfusion h.1⟩
    rcases hraised.2 with hs | hs <;> simp [hs]
  | readDone htype hstate => exact absurd hstate (hsane.reads htype)
  | beat bus htype hstate =>
    refine ⟨by simp [hstate], fun h => ?_⟩
    have hdone := h.2
    unfold CmdEvent.nextBeat at hdone
    split_ifs at hdone
    · simp [hstate] at hdone
  | redraw resp hstate =>
    refine ⟨by simp [hstate], fun h => ?_⟩
    have hdone := h.2
    simp [hstate] at hdone

/-- How the event is answered does not matter. -/
theorem Ocl.Gives.congr (h : s.Gives e) (hsize : e'.size = e.size) (hstate : e'.state = e.state)
    (hresp : e'.resp = e.resp) (hop : e'.respOpcode = e.respOpcode) (hsame : e.SameDeal e') : s.Gives e' := by
  have hsane (hs : e.Sane) : e'.Sane := by
    constructor
    · rw [hsame.type, hstate]
      exact fun htype hopen => (hs.accepted htype hopen).congr hsame.addr hsame.type hsize hsame.command
    · rw [hsame.type, hstate]
      exact hs.reads
    · rw [hsame.type, hstate, hresp]
      exact hs.failed
    · rw [hsame.type, hstate]
      exact hs.pending
    · rw [hsame.type, hop]
      exact hs.opcode
  have hconcluded : e'.Concluded → e.Concluded := by
    unfold CmdEvent.Concluded
    rw [hsame.type, hstate]
    exact fun h => h
  cases h with
  | new hnew hs hopen => exact .new (hsame.id ▸ hnew) (hsane hs) (fun h => hopen (hconcluded h))
  | old x hx hxid hxcontext hs hdone hdeal =>
    refine .old x hx (hsame.id.trans hxid) (hsame.context.trans hxcontext) (hsane hs) (fun h => hstate ▸ hdone h) ?_
    intro h
    obtain ⟨hx, hxe⟩ := hdeal (hconcluded h)
    exact ⟨hx, hxe.trans hsame⟩

theorem Ocl.Gives.rewrite (he : e ∈ s.list) (hsane : e.Sane) (hr : Rewrite e e') : s.Gives e' := by
  obtain ⟨hid, -, hcontext, -⟩ := hr.facts
  obtain ⟨hopen, hopen'⟩ := hr.open hsane
  exact .old e he hid hcontext (hr.sane hsane) (fun h => absurd h hopen) (fun h => absurd h hopen')

/-- A part of a response changes the counters of the response only. -/
theorem Ocl.Gives.prepared (he : e ∈ s.list) (hsane : e.Sane) (cl : ℕ) : s.Gives (e.prepare cl) := by
  refine (Ocl.Gives.same he hsane).congr (e.prepare_size cl) (e.prepare_state cl) (e.prepare_resp cl)
    (e.prepare_respOpcode cl) ?_
  rw [e.prepare_eq]
  exact ⟨rfl, rfl, rfl, rfl, rfl, rfl, rfl⟩

theorem Ocl.Gives.backUp (h : s.Gives e) (cl : ℕ) : s.Gives (e.backUp cl) := by
  rw [CmdEvent.backUp_eq]
  exact h.congr rfl rfl rfl rfl ⟨rfl, rfl, rfl, rfl, rfl, rfl, rfl⟩

/-- An event whose pending response has been sent is not done. -/
theorem Ocl.Gives.pendingSent {cl : ℕ} (h : s.Gives (e.prepare cl))
    (hpending : e.state = .xlatePending ∨ e.state = .intPending) :
    s.Gives { e.prepare cl with state := .pendingSent } := by
  have hopen : (e.prepare cl).state ≠ .done := by
    rw [e.prepare_state]
    rcases hpending with hs | hs <;> simp [hs]
  have hsane (hs : (e.prepare cl).Sane) : ({ e.prepare cl with state := .pendingSent } : CmdEvent).Sane :=
    hs.setState (fun _ => hopen) (fun h => MemState.noConfusion h) (fun h => absurd rfl h) (fun _ => hs.pending (by
      rw [e.prepare_state]
      exact hpending.elim .inl (fun h => .inr (.inl h))))
  cases h with
  | new hnew hs _ => exact .new hnew (hsane hs) (fun h => MemState.noConfusion h.2)
  | old x hx hid hcontext hs hdone _ =>
    exact .old x hx hid hcontext (hsane hs) (fun h => absurd (hdone h) hopen) (fun h => MemState.noConfusion h.2)

end Events

/-! ## Quiet steps -/

section Quiet

variable {s s' : Ocl} {e e' : CmdEvent} {a : Action}

theorem sentTo_of_silent (k : ℕ) {obs : List Obs} (h : ∀ o ∈ obs, o.isSent = false) : sentTo k obs = [] := by
  unfold sentTo
  rw [List.flatMap_eq_nil_iff]
  intro o ho
  have hsilent := h o ho
  cases o <;> first | rfl | exact Bool.noConfusion hsilent

theorem sentTo_sent (k j id : ℕ) (bytes : List UInt8) : sentTo k [.sent j id bytes] = if k = j then bytes else [] := by
  simp only [sentTo, List.flatMap_cons, List.flatMap_nil, List.append_nil, eq_comm]

/-- An event that is not waiting has been asked of nobody. -/
theorem Ocl.Wf.not_asked (hs : s.Wf) (hstate : ∀ i c, s.client i = some c → c.state ≠ .none) (he : e ∈ s.list)
    (hidle : ¬e.Awaiting) (i : ℕ) (c : Client) (hc : s.client i = some c) : c.memAccess ≠ some e.id :=
  fun hmem => hidle (hs.asked i c e hc (hstate i c hc) he hmem).2

theorem standing_setClient {i : ℕ} {c c' : Client} (hclient : s'.client = Function.update s.client i (some c'))
    (hc : s.client i = some c) (hid : c'.id = c.id) (hmem : c'.memAccess = c.memAccess) (j : ℕ) :
    (s'.client j).map Client.standing = (s.client j).map Client.standing := by
  rw [hclient]
  by_cases hj : j = i
  · rw [hj, Function.update_self, hc, Option.map_some, Option.map_some, Client.standing, Client.standing, hid, hmem]
  · rw [Function.update_of_ne hj]

theorem Ocl.Quiet.of_list (hsane : ∀ e ∈ s.list, e.Sane) (hlist : s'.list = s.list)
    (hclients : ∀ i, (s'.client i).map Client.standing = (s.client i).map Client.standing) : s.Quiet s' where
  clients := hclients
  asked := by
    intro i c e _ he _
    rw [hlist]
    exact he
  events := by
    intro e he
    rw [hlist] at he
    exact .same he (hsane e he)

theorem Ocl.Quiet.setEvent (hs : s.Wf) (hsane : ∀ e ∈ s.list, e.Sane) (he : e ∈ s.list)
    (hidle : ∀ i c, s.client i = some c → c.memAccess ≠ some e.id) (hlist : s'.list = (s.setEvent e').list)
    (hid : e'.id = e.id) (hgives : s.Gives e')
    (hclients : ∀ i, (s'.client i).map Client.standing = (s.client i).map Client.standing) : s.Quiet s' where
  clients := hclients
  asked := by
    intro i c x hc hx hmem
    rw [hlist]
    refine (hs.mem_setEvent he hid).mpr (.inr ⟨hx, ?_⟩)
    rintro rfl
    exact hidle i c hc hmem
  events := by
    intro x hx
    rw [hlist] at hx
    rcases (hs.mem_setEvent he hid).mp hx with rfl | ⟨hx, -⟩
    · exact hgives
    · exact .same hx (hsane x hx)

theorem Ocl.Quiet.freeEvent (hs : s.Wf) (hsane : ∀ e ∈ s.list, e.Sane) (he : e ∈ s.list)
    (hidle : ∀ i c, s.client i = some c → c.memAccess ≠ some e.id) (hlist : s'.list = (s.freeEvent e).list)
    (hclients : ∀ i, (s'.client i).map Client.standing = (s.client i).map Client.standing) : s.Quiet s' where
  clients := hclients
  asked := by
    intro i c x hc hx hmem
    rw [hlist]
    refine (hs.mem_freeEvent he).mpr ⟨hx, ?_⟩
    rintro rfl
    exact hidle i c hc hmem
  events := by
    intro x hx
    rw [hlist] at hx
    obtain ⟨hx, -⟩ := (hs.mem_freeEvent he).mp hx
    exact .same hx (hsane x hx)

/-- A step that leaves the sockets alone. -/
theorem Ocl.Traffic.silent {obs : List Obs} (htrace : (s.step a).trace = s.trace ++ obs)
    (hobs : ∀ o ∈ obs, o.isSent = false) (hquiet : s.Quiet (s.step a)) (hnext : s.nextId ≤ (s.step a).nextId) :
    s.Traffic a := by
  refine .quiet 0 [] (fun q hq => absurd hq List.not_mem_nil) (fun h => absurd rfl h) (fun j => ?_) hquiet hnext
  rw [news_eq htrace, sentTo_of_silent j hobs, List.flatMap_nil, ite_self]

end Quiet

/-! ## Every step -/

section Step

variable {s : Ocl} {a : Action}

theorem mem_cmd_sendable (hshort : s.OffersShort) (d : Draws) {e : CmdEvent} (he : e ∈ (s.step (.cmd d)).list) :
    e ∈ s.list ∨ e.Sendable := by
  unfold Ocl.step at he
  split at he
  · exact .inl he
  · change e ∈ (handleCmd s d).list at he
    unfold handleCmd afuTlxReadCmdAndData at he
    split at he
    · exact .inl he
    · rename_i cmd dataIsValid afuEvent hread
      split_ifs at hread with hvalid
      · cases (Prod.mk.inj hread).1
      · obtain ⟨rfl, -⟩ := Prod.mk.inj (Option.some.inj (Prod.mk.inj hread).1)
        dsimp only at he
        split_ifs at he
        · exact .inl he
        · rcases parseCmd_sendable (hshort hvalid) dataIsValid e he with hold | hnew
          · exact .inl hold
          · exact .inr hnew

theorem NewEvent.sane {cmd : AfuTlxCmd} {e : CmdEvent} (hnew : NewEvent s cmd e) (hsendable : e.Sendable) :
    e.Sane ∧ ¬e.Concluded := by
  have hstart := hnew.start
  refine ⟨⟨fun htype _ => ?_, fun hread hreceived => ?_, fun hfailed _ => ?_, fun hpending => ?_, fun hfailed hop => ?_⟩,
    fun hdone => ?_⟩
  · rcases hsendable with h | h | h
    · rw [h] at htype
      exact absurd htype (by decide)
    · rw [h] at htype
      exact absurd htype (by decide)
    · exact h
  · rcases hstart with ⟨h, -⟩ | ⟨-, -, ⟨h, -⟩ | ⟨-, h⟩ | ⟨h, -⟩ | ⟨-, h, -⟩⟩
    · rw [hread] at h
      cases h
    · rw [hread] at h
      cases h
    · rw [hreceived] at h
      cases h
    · rw [hread] at h
      cases h
    · exact h hread
  · rcases hstart with ⟨-, -, h | h | h⟩ | ⟨h, -⟩
    · rw [h]
      decide
    · rw [h]
      decide
    · rw [h]
      decide
    · exact absurd hfailed h
  · rcases hstart with ⟨h, -⟩ | ⟨-, -, ⟨-, h⟩ | ⟨-, h⟩ | ⟨-, h, -⟩ | ⟨-, -, -, h, -⟩⟩
    · exact h
    all_goals simp [h] at hpending
  · have hshape := hnew.shape
    unfold CmdEvent.Shape at hshape
    cases htype : e.type <;> simp only [htype] at hshape <;> try rfl
    case touch =>
      rw [hnew.answers.touch htype] at hop
      exact absurd hop (by decide)
    case interrupt =>
      rw [hnew.answers.interrupt htype] at hop
      exact absurd hop (by decide)
    case wakeHostThrd =>
      rw [hnew.answers.wake htype] at hop
      exact absurd hop (by decide)
    case failed => exact absurd htype hfailed
  · obtain ⟨htype, hstate⟩ := hdone
    rcases hstart with ⟨h, -⟩ | ⟨-, -, ⟨h, -⟩ | ⟨-, h⟩ | ⟨-, h, -⟩ | ⟨-, -, -, h, -⟩⟩
    · rw [h] at htype
      cases htype
    · rw [h] at htype
      cases htype
    all_goals
      rw [hstate] at h
      cases h

theorem CmdEvent.Ready.clientMessage {e : CmdEvent} (h : e.Ready) : e.clientMessage = e.requestMessage := by
  rw [CmdEvent.clientMessage, if_neg (by simp [h.isInterrupt])]

theorem CmdEvent.Raised.clientMessage {e : CmdEvent} (h : e.Raised) : e.clientMessage = interruptMessage e := by
  rw [CmdEvent.clientMessage, if_pos h.1]

theorem step_traffic (hs : s.Wf) (hvalid : s.AllValid) (hout : Outstanding s) (hsane : ∀ e ∈ s.list, e.Sane)
    (hshort : s.OffersShort) (hreply : a.isReply = false) (hnext : (s.step a).AllValid) : s.Traffic a := by
  have hstate := hvalid.client hs
  have hstate' := hnext.client (step_wf hs a)
  have hreached : ∀ {i : ℕ} {c c' : Client} (m : Option ℕ), c' = c ∨ c' = c.drop tlxIdleCycles .none →
      (s.step a).client = Function.update s.client i (some { c' with memAccess := m }) → c' = c := by
    intro i c c' m hc' hclient
    refine hc'.resolve_right (fun hdrop => ?_)
    refine hstate' i { c' with memAccess := m } ?_ (by rw [hdrop]; rfl)
    rw [hclient, Function.update_self]
  cases step_effect s a with
  | quiet hsame =>
    exact .silent (hsame.trace.trans (List.append_nil _).symm) (by simp)
      (.of_list hsane hsame.list (by simp [hsame.client])) hsame.nextId.ge
  | ignore cmd d ha hoffers hassign htag hsame =>
    exact .silent hsame.trace (by simp [Obs.isSent]) (.of_list hsane hsame.list (by simp [hsame.client, Ocl.record]))
      hsame.nextId.ge
  | assign cmd d ha hoffers i c hop hfind hc hsame =>
    exact .silent hsame.trace (by simp [Obs.isSent])
      (.of_list hsane hsame.list (standing_setClient hsame.client hc rfl rfl)) hsame.nextId.ge
  | add cmd d ha hoffers e c l₁ l₂ hop hfind hc hfresh hnew hlist hlist' hclient hnextId htrace hparms hmax =>
    refine .silent htrace (by simp [Obs.isSent]) ⟨by simp [hclient], ?_, ?_⟩ (by omega)
    · intro i c x _ hx _
      rw [hlist] at hx
      rw [hlist', List.mem_append, List.mem_cons]
      exact (List.mem_append.mp hx).imp_right .inr
    · have hsendable : e.Sendable := by
        have hmem : e ∈ (s.step a).list := by simp [hlist']
        rw [ha] at hmem
        refine (mem_cmd_sendable hshort d hmem).resolve_left (fun hold => ?_)
        exact hfresh e hold rfl
      intro x hx
      rw [hlist', List.mem_append, List.mem_cons] at hx
      rcases hx with hx | rfl | hx
      · have hold : x ∈ s.list := hlist ▸ List.mem_append_left _ hx
        exact .same hold (hsane x hold)
      · obtain ⟨hx, hopen⟩ := hnew.sane hsendable
        exact .new hnew.id.ge hx hopen
      · have hold : x ∈ s.list := hlist ▸ List.mem_append_right _ hx
        exact .same hold (hsane x hold)
  | rewrite e e' he hc hr hsame =>
    refine .silent (hsame.trace.trans (List.append_nil _).symm) (by simp) ?_ hsame.nextId.ge
    refine .setEvent hs hsane he ?_ hsame.list hr.facts.1 (.rewrite he (hsane e he) hr)
      (by simp [hsame.client, Ocl.setEvent])
    -- the client of an event that is about to be served has been asked nothing
    intro i c hclient hmem
    obtain ⟨rfl, hawait⟩ := hs.asked i c e hclient (hstate i c hclient) he hmem
    have hready := hr.not_awaiting hawait
    obtain ⟨c', hget, hfree⟩ := hc (by rcases hready.state with h | h <;> simp [h])
    obtain ⟨-, hclient'⟩ := getClient_eq_some hget
    rw [hclient] at hclient'
    cases hclient'
    rw [hfree hready] at hmem
    cases hmem
  | ask e c c' bytes he hc hready hbytes hc' hsame =>
    obtain ⟨-, hclient⟩ := getClient_eq_some hc
    have hcas := hs.noCas e he
    obtain ⟨hrd, hnone⟩ : e.Ready ∧ c.memAccess = none := hready.resolve_right (fun h => hcas h.2)
    obtain rfl := hbytes hcas
    obtain rfl := hreached (some e.id) hc' hsame.client
    refine .ask e c' he hclient hrd hnone (fun j => ?_) hsame.list hsame.client hsame.nextId
    rw [news_eq hsame.trace, hrd.clientMessage]
    exact sentTo_sent j c'.id e.id e.requestMessage
  | raise e c c' he hc hraised hc' hsame =>
    obtain ⟨-, hclient⟩ := getClient_eq_some hc
    obtain rfl := hreached c'.memAccess hc' hsame.client
    have hopen : e.state ≠ .done := by rcases hraised.2 with h | h <;> simp [h]
    have hmemory : ¬e.type.isMemory = true := by
      intro hmem
      have hint := hraised.1
      cases htype : e.type <;> simp [htype, CmdType.isMemory, CmdType.isInterrupt] at hmem hint
    have hpending : e.state ≠ .pendingSent := by rcases hraised.2 with h | h <;> simp [h]
    have hgives : s.Gives { e with state := .done } :=
      .old e he rfl rfl ((hsane e he).setState (fun h => absurd rfl h) (fun h => MemState.noConfusion h)
        (fun _ => hpending) (fun h => by simp at h)) (fun _ => rfl) (fun h => absurd h.1 hmemory)
    refine .quiet c'.id [e] ?_ (fun _ => ⟨e.context, c', hclient, rfl⟩) (fun j => ?_) ?_ hsame.nextId.ge
    · intro q hq
      obtain rfl := List.mem_singleton.mp hq
      exact ⟨hraised.1, (hsane q he).accepted (.inr hraised.1) hopen⟩
    · rw [news_eq hsame.trace, List.flatMap_singleton, hraised.clientMessage]
      exact sentTo_sent j c'.id e.id (interruptMessage e)
    · exact .setEvent hs hsane he (hs.not_asked hstate he (fun h => hmemory h.1)) hsame.list rfl hgives
        (standing_setClient hsame.client hclient rfl rfl)
  | respond e e' he hresp hc he' hsame =>
    have hidle := hs.not_asked hstate he (fun h => by simp [h.not_responding] at hresp)
    have hgives := Ocl.Gives.prepared he (hsane e he) s.parms.hostClSize
    refine .silent hsame.trace (by simp [Obs.isSent]) ?_ hsame.nextId.ge
    rcases he' with ⟨hpending, rfl⟩ | ⟨-, rfl, -⟩
    · exact .setEvent hs hsane he hidle hsame.list (e.prepare_id _) (hgives.pendingSent hpending)
        (by simp [hsame.client, Ocl.record, Ocl.setEvent])
    · exact .setEvent hs hsane he hidle hsame.list (e.prepare_id _) hgives
        (by simp [hsame.client, Ocl.record, Ocl.setEvent])
  | finish e he hdone hc hlast hsame =>
    exact .silent hsame.trace (by simp [Obs.isSent]) (.freeEvent hs hsane he
      (hs.not_asked hstate he (fun h => h.open hdone)) hsame.list
      (by simp [hsame.client, Ocl.record, Ocl.freeEvent])) hsame.nextId.ge
  | refuse e he hresp hc hsame =>
    refine .silent hsame.trace (by simp [Obs.isSent]) (.setEvent hs hsane he
      (hs.not_asked hstate he (fun h => by simp [h.not_responding] at hresp)) hsame.list ?_ ?_
      (by simp [hsame.client, Ocl.record, Ocl.setEvent])) hsame.nextId.ge
    · rw [CmdEvent.backUp_eq, CmdEvent.prepare_id]
    · exact (Ocl.Gives.prepared he (hsane e he) s.parms.hostClSize).backUp s.parms.hostClSize
  | post e resp he hsent hc hsame =>
    exact .silent hsame.trace (by simp [Obs.isSent]) (.freeEvent hs hsane he
      (hs.not_asked hstate he (fun h => by rcases h.state with hw | hw | hw <;> simp [hw] at hsent)) hsame.list
      (by simp [hsame.client, Ocl.record, Ocl.freeEvent])) hsame.nextId.ge
  | answer i input ha e e' c ans he hc hne hmem he' hsame =>
    rw [ha] at hreply
    rcases he' with ⟨rfl, -⟩ | ⟨avail, rfl, -⟩ <;> cases hreply
  | client i c c' hc hid hmem hcs hsame =>
    have hclient' : (s.step a).client i = some c' := by
      rw [hsame.client]
      simp [Ocl.setClient]
    have hkept := hout.kept hs hstate hc hmem (hstate' i c' hclient')
    exact .silent (hsame.trace.trans (List.append_nil _).symm) (by simp)
      (.of_list hsane hsame.list (standing_setClient hsame.client hc hid.1 hkept)) hsame.nextId.ge
  | terminate i ha c hc hgone hsame => exact absurd hgone (hstate i c hc)
  | clear i ha c hc hgone hidle hsame => exact absurd hgone (hstate i c hc)
  | associate bdf i hi hc hlist hnextId hclient htrace hparms hmax =>
    refine .connect i _ hc rfl rfl (fun j => ?_) hlist hclient hnextId
    rw [news_eq htrace]
    exact sentTo_of_silent j (by simp [Obs.isSent])

end Step

end Ocse
