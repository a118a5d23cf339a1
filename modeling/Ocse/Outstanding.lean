import Ocse.Completion

/-!
# One outstanding request per client

While nobody is dropped or detached, `mem_access` of a client is empty or points to an event of the list
that waits for that client, and it keeps the books: one more request has been sent to the client than
answers have been consumed from it exactly when `mem_access` is set.
-/

namespace Ocse

/-! ## What is outstanding -/

/-- The request of the event has been sent and not answered. -/
def CmdEvent.AwaitsReply (e : CmdEvent) : Prop :=
  (e.type = .read ∧ e.state = .request) ∨ (e.type = .write ∧ e.state = .dmaMemResp) ∨
    (isWriteBeOrAmo e.type = true ∧ e.state = .received)

def CmdEvent.requested (e : CmdEvent) : Prop := e.state = .request ∨ e.state = .dmaMemResp

structure OneOutstanding (s : Ocl) : Prop where
  memAccess : ∀ i c, s.client i = some c →
    c.memAccess = none ∨ ∃ e ∈ s.list, c.memAccess = some e.id ∧ e.context = i ∧ e.AwaitsReply
  requested : ∀ e ∈ s.list, e.requested → ∃ c, s.client e.context = some c ∧ c.memAccess = some e.id

/-- The two halves that are not already in `Ocl.Wf`. -/
structure Outstanding (s : Ocl) : Prop where
  present : ∀ i c id, s.client i = some c → c.memAccess = some id → ∃ e ∈ s.list, e.id = id
  requested : ∀ e ∈ s.list, e.requested → ∃ c, s.client e.context = some c ∧ c.memAccess = some e.id

theorem CmdEvent.Awaiting.awaitsReply {e : CmdEvent} (h : e.Awaiting) : e.AwaitsReply := by
  obtain ⟨hmem, hstate⟩ := h
  unfold CmdEvent.askedState at hstate
  cases htype : e.type <;> simp [htype, CmdType.isMemory] at hmem hstate <;>
    simp [CmdEvent.AwaitsReply, htype, hstate, isWriteBeOrAmo]

theorem Outstanding.one {s : Ocl} (h : Outstanding s) (hs : s.Wf)
    (hvalid : ∀ i c, s.client i = some c → c.state ≠ .none) : OneOutstanding s := by
  refine ⟨fun i c hc => ?_, h.requested⟩
  cases hmem : c.memAccess with
  | none => exact .inl rfl
  | some id =>
    obtain ⟨e, he, rfl⟩ := h.present i c id hc hmem
    obtain ⟨hcontext, hawait⟩ := hs.asked i c e hc (hvalid i c hc) he hmem
    exact .inr ⟨e, he, rfl, hcontext, hawait.awaitsReply⟩

theorem Ocl.AllValid.client {s : Ocl} (h : s.AllValid) (hs : s.Wf) (i : ℕ) (c : Client)
    (hc : s.client i = some c) : c.state ≠ .none := by
  rw [h i (hs.slot i c hc).1 c hc]
  simp

/-! ## Stores -/

section Stores

variable {s s' : Ocl} {e e' : CmdEvent}

theorem Outstanding.congr (h : Outstanding s) (hlist : s'.list = s.list)
    (hclient : s'.client = s.client) : Outstanding s' := by
  obtain ⟨present, requested⟩ := h
  constructor <;> simpa only [hlist, hclient]

theorem Outstanding.same (h : Outstanding s) (hsame : SameEngine s s') : Outstanding s' :=
  h.congr hsame.list hsame.client

theorem Outstanding.setEvent (h : Outstanding s) (hs : s.Wf) (he : e ∈ s.list) (hid : e'.id = e.id)
    (hcontext : e'.context = e.context) (hrequested : e'.requested → e.requested) :
    Outstanding (s.setEvent e') := by
  constructor
  · intro i c id hc hmem
    obtain ⟨x, hx, rfl⟩ := h.present i c id hc hmem
    by_cases hxe : x = e
    · exact ⟨e', (hs.mem_setEvent he hid).mpr (.inl rfl), hid.trans (hxe ▸ rfl)⟩
    · exact ⟨x, (hs.mem_setEvent he hid).mpr (.inr ⟨hx, hxe⟩), rfl⟩
  · intro x hx hreq
    rcases (hs.mem_setEvent he hid).mp hx with rfl | ⟨hx, -⟩
    · rw [hcontext, hid]
      exact h.requested e he (hrequested hreq)
    · exact h.requested x hx hreq

/-- An event that nobody waits for may be freed. -/
theorem Outstanding.freeEvent (h : Outstanding s) (hs : s.Wf) (he : e ∈ s.list)
    (hvalid : ∀ i c, s.client i = some c → c.state ≠ .none) (hawait : ¬ e.Awaiting) :
    Outstanding (s.freeEvent e) := by
  constructor
  · intro i c id hc hmem
    obtain ⟨x, hx, rfl⟩ := h.present i c id hc hmem
    have hne : x ≠ e := by
      rintro rfl
      exact hawait (hs.asked i c x hc (hvalid i c hc) hx hmem).2
    exact ⟨x, (hs.mem_freeEvent he).mpr ⟨hx, hne⟩, rfl⟩
  · intro x hx hreq
    exact h.requested x ((hs.mem_freeEvent he).mp hx).1 hreq

theorem Outstanding.setClient (h : Outstanding s) {i : ℕ} {c c' : Client} (hc : s.client i = some c)
    (hmem : c'.memAccess = c.memAccess) : Outstanding (s.setClient i (some c')) := by
  constructor
  · intro j d id hd hdmem
    rcases Ocl.setClient_eq_some hd with ⟨rfl, ⟨⟩⟩ | ⟨-, hd⟩
    · exact h.present j c id hc (hmem ▸ hdmem)
    · exact h.present j d id hd hdmem
  · intro e he hreq
    obtain ⟨d, hd, hdmem⟩ := h.requested e he hreq
    by_cases hj : e.context = i
    · refine ⟨c', by simp [Ocl.setClient, hj], ?_⟩
      rw [hj, hc] at hd
      cases hd
      rw [hmem, hdmem]
    · exact ⟨d, by simpa [Ocl.setClient, hj] using hd, hdmem⟩

/-- A request is sent for an event whose client has none outstanding. -/
theorem Outstanding.ask (h : Outstanding s) (hs : s.Wf) (he : e ∈ s.list) {c : Client}
    (hc : s.client e.context = some c) (hnone : c.memAccess = none) :
    Outstanding ((s.setEvent { e with state := e.askedState }).setClient e.context
      (some { c with memAccess := some e.id })) := by
  have hid : ({ e with state := e.askedState } : CmdEvent).id = e.id := rfl
  have hasked : ({ e with state := e.askedState } : CmdEvent) ∈
      (s.setEvent { e with state := e.askedState }).list := (hs.mem_setEvent he hid).mpr (.inl rfl)
  constructor
  · intro j d id hd hmem
    rcases Ocl.setClient_eq_some hd with ⟨rfl, ⟨⟩⟩ | ⟨-, hd⟩
    · exact ⟨_, hasked, Option.some.inj hmem⟩
    · obtain ⟨x, hx, rfl⟩ := h.present j d id hd hmem
      by_cases hxe : x = e
      · exact ⟨_, hasked, by rw [hxe]⟩
      · exact ⟨x, (hs.mem_setEvent he hid).mpr (.inr ⟨hx, hxe⟩), rfl⟩
  · intro x hx hreq
    rcases (hs.mem_setEvent he hid).mp hx with rfl | ⟨hx, -⟩
    · exact ⟨{ c with memAccess := some e.id }, by simp [Ocl.setClient], rfl⟩
    · -- another event of the slot that awaits a reply would be the client's outstanding one
      obtain ⟨d, hd, hmem⟩ := h.requested x hx hreq
      have hne : x.context ≠ e.context := by
        intro heq
        rw [heq, hc] at hd
        cases hd
        simp [hnone] at hmem
      exact ⟨d, by simpa [Ocl.setClient, Ocl.setEvent, hne] using hd, hmem⟩

/-- The outstanding request of a client is answered. -/
theorem Outstanding.answer (h : Outstanding s) (hs : s.Wf) (he : e ∈ s.list) (hid : e'.id = e.id)
    (hdone : e'.state = .done) {i : ℕ} {c : Client} (hc : s.client i = some c)
    (hmem : c.memAccess = some e.id) :
    Outstanding ((s.setEvent e').setClient i (some { c with memAccess := none })) := by
  constructor
  · intro j d id hd hdmem
    rcases Ocl.setClient_eq_some hd with ⟨-, ⟨⟩⟩ | ⟨-, hd⟩
    · cases hdmem
    · obtain ⟨x, hx, rfl⟩ := h.present j d id hd hdmem
      by_cases hxe : x = e
      · exact ⟨e', (hs.mem_setEvent he hid).mpr (.inl rfl), by rw [hxe, hid]⟩
      · exact ⟨x, (hs.mem_setEvent he hid).mpr (.inr ⟨hx, hxe⟩), rfl⟩
  · intro x hx hreq
    rcases (hs.mem_setEvent he hid).mp hx with rfl | ⟨hx, hxe⟩
    · simp [CmdEvent.requested, hdone] at hreq
    · obtain ⟨d, hd, hdmem⟩ := h.requested x hx hreq
      have hne : x.context ≠ i := by
        intro heq
        rw [heq, hc] at hd
        cases hd
        rw [hmem] at hdmem
        exact hxe (eq_of_key_eq hs.ids hx he (Option.some.inj hdmem).symm)
      exact ⟨d, by simpa [Ocl.setClient, Ocl.setEvent, hne] using hd, hdmem⟩

/-- A new event has been asked of nobody. -/
theorem Outstanding.insert (h : Outstanding s) {l₁ l₂ : List CmdEvent} (hnew : ¬ e.requested)
    (hlist : s.list = l₁ ++ l₂) (hlist' : s'.list = l₁ ++ e :: l₂) (hclient : s'.client = s.client) :
    Outstanding s' := by
  constructor
  · intro i c id hc hmem
    rw [hclient] at hc
    obtain ⟨x, hx, rfl⟩ := h.present i c id hc hmem
    refine ⟨x, ?_, rfl⟩
    rw [hlist] at hx
    rw [hlist', List.mem_append, List.mem_cons]
    exact (List.mem_append.mp hx).imp_right .inr
  · intro x hx hreq
    rw [hclient]
    rw [hlist', List.mem_append, List.mem_cons] at hx
    rcases hx with hx | rfl | hx
    · exact h.requested x (hlist ▸ List.mem_append_left _ hx) hreq
    · exact absurd hreq hnew
    · exact h.requested x (hlist ▸ List.mem_append_right _ hx) hreq

/-- A new client has been asked for nothing. -/
theorem Outstanding.associate (h : Outstanding s) {i : ℕ} (hc : s.client i = none) {c : Client}
    (hmem : c.memAccess = none) (hlist : s'.list = s.list)
    (hclient : s'.client = Function.update s.client i (some c)) : Outstanding s' := by
  constructor
  · intro j d id hd hdmem
    rw [hlist]
    rw [hclient, update_eq_some_iff] at hd
    rcases hd with ⟨-, ⟨⟩⟩ | ⟨-, hd⟩
    · rw [hmem] at hdmem
      cases hdmem
    · exact h.present j d id hd hdmem
  · intro e he hreq
    rw [hlist] at he
    obtain ⟨d, hd, hdmem⟩ := h.requested e he hreq
    have hne : e.context ≠ i := by
      intro heq
      rw [heq, hc] at hd
      cases hd
    exact ⟨d, by rw [hclient, Function.update_of_ne hne]; exact hd, hdmem⟩

/-- A client that stays keeps its outstanding request. -/
theorem Outstanding.kept (h : Outstanding s) (hs : s.Wf)
    (hvalid : ∀ i c, s.client i = some c → c.state ≠ .none) {i : ℕ} {c c' : Client}
    (hc : s.client i = some c)
    (hmem : c'.memAccess = c.memAccess ∨
      (c'.memAccess = none ∧ (c'.state = .none ∨ ∀ e ∈ s.memAccess c, s.getClient e = none)))
    (hstays : c'.state ≠ .none) : c'.memAccess = c.memAccess := by
  rcases hmem with hkept | ⟨hnone, hgone | hgone⟩
  · exact hkept
  · exact absurd hgone hstays
  · -- the client's outstanding event is in the list and its slot is the client's own
    cases hold : c.memAccess with
    | none => exact hnone
    | some id =>
      obtain ⟨e, he, rfl⟩ := h.present i c id hc hold
      obtain ⟨hcontext, -⟩ := hs.asked i c e hc (hvalid i c hc) he hold
      have hfind : s.memAccess c = some e := by
        unfold Ocl.memAccess
        rw [hold]
        exact (lookup_eq_some hs.ids).mpr ⟨he, rfl⟩
      have hget : s.getClient e = none := hgone e hfind
      unfold Ocl.getClient at hget
      rw [if_neg (Nat.not_le.mpr (hs.context e he)), hcontext, hc] at hget
      cases hget

theorem Rewrite.not_requested (h : Rewrite e e') : ¬ e'.requested := by
  cases h with
  | inject code hor hcode => simp [CmdEvent.requested, CmdEvent.fail]
  | xlatePending hready => simp [CmdEvent.requested, CmdEvent.fail]
  | intPending hraised htype => simp [CmdEvent.requested, CmdEvent.fail]
  | readDone htype hstate => simp [CmdEvent.requested]
  | beat bus htype hstate =>
    unfold CmdEvent.nextBeat
    split_ifs <;> simp [CmdEvent.requested, hstate]
  | redraw resp hstate => simp [CmdEvent.requested, hstate]

theorem CmdEvent.Start.not_requested (h : e.Start) : ¬ e.requested := by
  rcases h with ⟨-, hstate, -⟩ | ⟨-, -, ⟨-, hstate⟩ | ⟨-, hstate⟩ | ⟨-, hstate, -⟩ |
    ⟨-, -, -, hstate, -⟩⟩ <;> simp [CmdEvent.requested, hstate]

end Stores

/-! ## One step -/

theorem step_outstanding {s : Ocl} (hs : s.Wf) (hvalid : s.AllValid) {a : Action}
    (hnext : (s.step a).AllValid) (h : Outstanding s) : Outstanding (s.step a) := by
  have hstate := hvalid.client hs
  have hstate' := hnext.client (step_wf hs a)
  -- a client that is sent something has not been dropped, as it is still connected
  have hreached : ∀ {i : ℕ} {c c' : Client} (m : Option ℕ), c' = c ∨ c' = c.drop tlxIdleCycles .none →
      (s.step a).client = Function.update s.client i (some { c' with memAccess := m }) → c' = c := by
    intro i c c' m hc' hclient
    refine hc'.resolve_right (fun hdrop => ?_)
    refine hstate' i { c' with memAccess := m } ?_ (by rw [hdrop]; rfl)
    rw [hclient, Function.update_self]
  cases step_effect s a with
  | quiet hsame => exact h.same hsame
  | ignore cmd d ha hoffers hassign htag hsame => exact h.congr hsame.list hsame.client
  | assign cmd d ha hoffers i c hop hfind hc hsame =>
    have hrecord : Outstanding (s.record [.command cmd]) := h.congr rfl rfl
    have hset : Outstanding ((s.record [.command cmd]).setClient i (some { c with actag := cmd.actag })) :=
      hrecord.setClient hc rfl
    exact hset.same hsame
  | add cmd d ha hoffers e c l₁ l₂ hop hfind hc hfresh hnew hlist hlist' hclient hnextId htrace hparms hmax =>
    exact h.insert hnew.start.not_requested hlist hlist' hclient
  | rewrite e e' he hc hr hsame =>
    obtain ⟨hid, -, hcontext, -⟩ := hr.facts
    exact (h.setEvent hs he hid hcontext (fun hreq => absurd hreq hr.not_requested)).same hsame
  | ask e c c' bytes he hc hready hbytes hc' hsame =>
    obtain ⟨-, hclient⟩ := getClient_eq_some hc
    have hnone : c.memAccess = none := by
      rcases hready with ⟨-, hnone⟩ | ⟨-, hcas⟩
      · exact hnone
      · exact absurd hcas (hs.noCas e he)
    obtain rfl := hreached (some e.id) hc' hsame.client
    have hrecord : Outstanding (s.record [.sent c'.id e.id bytes]) := h.congr rfl rfl
    exact (hrecord.ask (hs.record _) he hclient hnone).same hsame
  | raise e c c' he hc hraised hc' hsame =>
    obtain ⟨-, hclient⟩ := getClient_eq_some hc
    obtain rfl := hreached c'.memAccess hc' hsame.client
    have hrecord : Outstanding (s.record [.sent c'.id e.id (interruptMessage e)]) := h.congr rfl rfl
    have hset : Outstanding ((s.record [.sent c'.id e.id (interruptMessage e)]).setEvent
        { e with state := .done }) :=
      hrecord.setEvent (hs.record _) he rfl rfl (by simp [CmdEvent.requested])
    exact (hset.setClient hclient rfl).same hsame
  | respond e e' he hresp hc he' hsame =>
    have hrecord : Outstanding (s.record [.responded (e.prepare s.parms.hostClSize).response]) :=
      h.congr rfl rfl
    refine (hrecord.setEvent (hs.record _) he ?_ ?_ ?_).same hsame
    · rcases he' with ⟨-, rfl⟩ | ⟨-, rfl, -⟩ <;> simp
    · rcases he' with ⟨-, rfl⟩ | ⟨-, rfl, -⟩ <;> simp
    · rcases he' with ⟨-, rfl⟩ | ⟨hdone, rfl, -⟩
      · simp [CmdEvent.requested]
      · simp [CmdEvent.requested]
  | finish e he hdone hc hlast hsame =>
    have hawait : ¬ e.Awaiting := fun hawait => by
      rcases hawait.state with hs | hs | hs <;> simp [hs] at hdone
    exact (h.freeEvent hs he hstate hawait).congr hsame.list hsame.client
  | refuse e he hresp hc hsame =>
    have hrecord : Outstanding (s.record [.refused e.afutag]) := h.congr rfl rfl
    refine (hrecord.setEvent (hs.record _) he ?_ ?_ ?_).same hsame <;> rw [CmdEvent.backUp_eq]
    · simp
    · simp
    · simp [CmdEvent.requested]
  | post e resp he hsent hc hsame =>
    have hawait : ¬ e.Awaiting := fun hawait => by
      rcases hawait.state with hs | hs | hs <;> simp [hs] at hsent
    exact (h.freeEvent hs he hstate hawait).congr hsame.list hsame.client
  | answer i input ha e e' c ans he hc hne hmem he' hsame =>
    obtain ⟨-, -, hans⟩ := hs.answered he hc hne hmem he'
    obtain ⟨hid, -, -, hdone⟩ := hans.facts
    exact (h.answer hs he hid hdone hc hmem).congr hsame.list hsame.client
  | client i c c' hc hid hmem hcs hsame =>
    have hclient' : (s.step a).client i = some c' := by
      rw [hsame.client]
      simp [Ocl.setClient]
    have hkept := h.kept hs hstate hc hmem (hstate' i c' hclient')
    exact (h.setClient hc hkept).same hsame
  | terminate i ha c hc hgone hsame => exact absurd hgone (hstate i c hc)
  | clear i ha c hc hgone hidle hsame => exact absurd hgone (hstate i c hc)
  | associate bdf i hi hc hlist hnextId hclient htrace hparms hmax =>
    exact h.associate hc rfl hlist hclient

/-! ## Requests and replies -/

def isMemoryRequest (bytes : List UInt8) : Bool :=
  bytes.head?.any ([ocseMemoryRead, ocseMemoryWrite, ocseWrBe, ocseAmoRd, ocseAmoRw, ocseAmoWr].contains ·)

def Obs.isRequestTo (client : ℕ) : Obs → Bool
  | .sent c _ bytes => c = client && isMemoryRequest bytes
  | _ => false

/-- The memory requests that have been sent to a client. -/
def requests (client : ℕ) (trace : List Obs) : ℕ := trace.countP (Obs.isRequestTo client)

/-- The step takes a memory reply from the socket of the client in slot `i`. -/
def Ocl.consumes (s : Ocl) (i : ℕ) : Action → Bool
  | .client j .memFailure => !s.halted && j = i && (s.client i).any (fun c => c.state ≠ .none)
  | .client j (.memSuccess _) => !s.halted && j = i && (s.client i).any (fun c => c.state ≠ .none)
  | _ => false

/-- The engine, with the replies that have been consumed from each slot. -/
structure Tally where
  ocl : Ocl
  replies : ℕ → ℕ

def Tally.step (x : Tally) (a : Action) : Tally where
  ocl := x.ocl.step a
  replies i := x.replies i + if x.ocl.consumes i a then 1 else 0

/-- A reply answers a request: more requests have been sent to its client than it has answered. -/
def Tally.OnRequest (x : Tally) : Action → Prop
  | .client i input => ∀ c ∈ x.ocl.client i, x.ocl.consumes i (.client i input) = true →
      x.replies i < requests c.id x.ocl.trace
  | _ => True

instance (x : Tally) (a : Action) : Decidable (x.OnRequest a) :=
  match a with
  | .client i input => inferInstanceAs (Decidable (∀ c ∈ x.ocl.client i,
      x.ocl.consumes i (.client i input) = true → x.replies i < requests c.id x.ocl.trace))
  | .idle _ | .signalAfu | .getAfuEvents _ | .mmio _ | .response _ | .bufferWrite _ | .pendingSent _
  | .cmd _ | .cmdDataRead | .writeCmd _ | .touch _ | .interrupt _ | .writeBeOrAmo _ | .settle _
  | .clear _ | .associate _ => isTrue trivial

theorem tally_ocl (x : Tally) (as : List Action) : (as.foldl Tally.step x).ocl = x.ocl.run as := by
  induction as generalizing x with
  | nil => rfl
  | cons a as ih => exact ih (x.step a)

theorem requests_append (client : ℕ) (trace obs : List Obs) :
    requests client (trace ++ obs) = requests client trace + requests client obs :=
  List.countP_append

theorem requests_append_of_silent {client : ℕ} {obs : List Obs}
    (h : ∀ o ∈ obs, o.isRequestTo client = false) (trace : List Obs) :
    requests client (trace ++ obs) = requests client trace := by
  have hzero : requests client obs = 0 := by
    rw [requests, List.countP_eq_zero]
    intro o ho
    simp [h o ho]
  rw [requests_append, hzero, Nat.add_zero]

theorem CmdEvent.Ready.isMemoryRequest {e : CmdEvent} (h : e.Ready) :
    isMemoryRequest e.requestMessage = true := by
  have hmem := h.isMemory
  cases htype : e.type <;> simp only [htype, CmdType.isMemory] at hmem <;>
    first | exact Bool.noConfusion hmem | simp [CmdEvent.requestMessage, htype, memoryReadMessage,
      memoryWriteMessage, writeBeOrAmoMessage, amoMessage, Ocse.isMemoryRequest]

theorem isMemoryRequest_interruptMessage (e : CmdEvent) : isMemoryRequest (interruptMessage e) = false := by
  unfold interruptMessage
  split_ifs <;> simp [isMemoryRequest] <;> decide

/-- The account of each client is balanced. -/
structure Books (s : Ocl) (replies : ℕ → ℕ) : Prop where
  balance : ∀ i c, s.client i = some c →
    requests c.id s.trace = replies i + if c.memAccess.isSome then 1 else 0
  empty : ∀ i, s.client i = none → replies i = 0
  unsent : ∀ id, s.nextId ≤ id → requests id s.trace = 0
  distinct : ∀ i j c d, s.client i = some c → s.client j = some d → c.id = d.id → i = j

section Books

variable {s s' : Ocl} {r : ℕ → ℕ}

theorem Books.congr (h : Books s r) {obs : List Obs} (htrace : s'.trace = s.trace ++ obs)
    (hobs : ∀ id, ∀ o ∈ obs, o.isRequestTo id = false) (hnext : s.nextId ≤ s'.nextId)
    (hsame : ∀ i c', s'.client i = some c' →
      ∃ c, s.client i = some c ∧ c'.id = c.id ∧ c'.memAccess.isSome = c.memAccess.isSome)
    (hempty : ∀ i, s'.client i = none → s.client i = none) : Books s' r := by
  have hcount : ∀ id, requests id s'.trace = requests id s.trace := by
    intro id
    rw [htrace, requests_append_of_silent (hobs id)]
  constructor
  · intro i c' hc'
    obtain ⟨c, hc, hid, hmem⟩ := hsame i c' hc'
    rw [hcount, hid, hmem]
    exact h.balance i c hc
  · exact fun i hi => h.empty i (hempty i hi)
  · intro id hid
    rw [hcount]
    exact h.unsent id (Nat.le_trans hnext hid)
  · intro i j c' d' hc' hd' heq
    obtain ⟨c, hc, hcid, -⟩ := hsame i c' hc'
    obtain ⟨d, hd, hdid, -⟩ := hsame j d' hd'
    exact h.distinct i j c d hc hd (by rw [← hcid, ← hdid, heq])

theorem Books.sameClients (h : Books s r) {obs : List Obs} (htrace : s'.trace = s.trace ++ obs)
    (hobs : ∀ id, ∀ o ∈ obs, o.isRequestTo id = false) (hnext : s.nextId ≤ s'.nextId)
    (hclient : s'.client = s.client) : Books s' r := by
  refine h.congr htrace hobs hnext ?_ ?_
  · intro i c hc
    exact ⟨c, hclient ▸ hc, rfl, rfl⟩
  · intro i hi
    exact hclient ▸ hi

theorem Books.setClient (h : Books s r) {obs : List Obs} (htrace : s'.trace = s.trace ++ obs)
    (hobs : ∀ id, ∀ o ∈ obs, o.isRequestTo id = false) (hnext : s.nextId ≤ s'.nextId) {i : ℕ}
    {c c' : Client} (hc : s.client i = some c) (hclient : s'.client = Function.update s.client i (some c'))
    (hid : c'.id = c.id) (hmem : c'.memAccess = c.memAccess) : Books s' r := by
  refine h.congr htrace hobs hnext ?_ ?_
  · intro j d hd
    rw [hclient, update_eq_some_iff] at hd
    rcases hd with ⟨rfl, ⟨⟩⟩ | ⟨-, hd⟩
    · exact ⟨c, hc, hid, by rw [hmem]⟩
    · exact ⟨d, hd, rfl, rfl⟩
  · intro j hj
    rw [hclient, update_some_eq_none_iff] at hj
    exact hj.2

/-- One slot's account changes: a request is sent, or a reply is consumed. -/
theorem Books.post (h : Books s r) {i : ℕ} {c c' : Client} (hc : s.client i = some c)
    (hclient : s'.client = Function.update s.client i (some c')) (hid : c'.id = c.id)
    (hnext : s'.nextId = s.nextId) (hlt : c.id < s.nextId) {r' : ℕ → ℕ}
    (hreplies : ∀ j, j ≠ i → r' j = r j)
    (hcount : ∀ id, id ≠ c.id → requests id s'.trace = requests id s.trace)
    (hbalance : requests c.id s'.trace = r' i + if c'.memAccess.isSome then 1 else 0) : Books s' r' := by
  have hslot : ∀ j d, s'.client j = some d → (j = i ∧ d = c') ∨ (j ≠ i ∧ s.client j = some d) := by
    intro j d hd
    rw [hclient, update_eq_some_iff] at hd
    exact hd.imp_left (fun hnew => ⟨hnew.1, (Option.some.inj hnew.2).symm⟩)
  constructor
  · intro j d hd
    rcases hslot j d hd with ⟨rfl, rfl⟩ | ⟨hj, hd⟩
    · rw [hid]
      exact hbalance
    · have hne : d.id ≠ c.id := fun heq => hj (h.distinct j i d c hd hc heq)
      rw [hcount d.id hne, hreplies j hj]
      exact h.balance j d hd
  · intro j hj
    rw [hclient, update_some_eq_none_iff] at hj
    rw [hreplies j hj.1]
    exact h.empty j hj.2
  · intro id hge
    rw [hnext] at hge
    rw [hcount id (by omega)]
    exact h.unsent id hge
  · intro j k d e hd he heq
    rcases hslot j d hd with ⟨rfl, rfl⟩ | ⟨hj, hd⟩
    · rcases hslot k e he with ⟨rfl, rfl⟩ | ⟨hk, he⟩
      · rfl
      · exact absurd (h.distinct k j e c he hc (by rw [← heq, hid])) hk
    · rcases hslot k e he with ⟨rfl, rfl⟩ | ⟨hk, he⟩
      · exact absurd (h.distinct j k d c hd hc (by rw [heq, hid])) hj
      · exact h.distinct j k d e hd he heq

theorem consumes_eq_true {i : ℕ} {a : Action} (h : s.consumes i a = true) :
    s.halted = false ∧ ∃ input, a = .client i input ∧
      (input = .memFailure ∨ ∃ avail, input = .memSuccess avail) ∧
      ∃ c, s.client i = some c ∧ c.state ≠ .none := by
  cases a with
  | client j input =>
    cases input with
    | memFailure =>
      simp only [Ocl.consumes, Bool.and_eq_true, Bool.not_eq_true', decide_eq_true_eq,
        Option.any_eq_true] at h
      obtain ⟨⟨hrunning, rfl⟩, c, hc, hstate⟩ := h
      exact ⟨hrunning, _, rfl, .inl rfl, c, hc, by simpa using hstate⟩
    | memSuccess avail =>
      simp only [Ocl.consumes, Bool.and_eq_true, Bool.not_eq_true', decide_eq_true_eq,
        Option.any_eq_true] at h
      obtain ⟨⟨hrunning, rfl⟩, c, hc, hstate⟩ := h
      exact ⟨hrunning, _, rfl, .inr ⟨avail, rfl⟩, c, hc, by simpa using hstate⟩
    | _ => simp [Ocl.consumes] at h
  | _ => simp [Ocl.consumes] at h

/-- The reply to an outstanding request clears `mem_access`. -/
theorem consumes_step (hs : s.Wf) (hout : Outstanding s) {i : ℕ} {a : Action}
    (h : s.consumes i a = true) {c : Client} (hc : s.client i = some c)
    (hmem : c.memAccess.isSome = true) :
    (s.step a).client = Function.update s.client i (some { c with memAccess := none }) ∧
      (s.step a).nextId = s.nextId ∧ ∃ tag ans, (s.step a).trace = s.trace ++ [.answered tag ans] := by
  obtain ⟨hrunning, input, rfl, hinput, c', hc', hstate⟩ := consumes_eq_true h
  rw [hc] at hc'
  cases hc'
  obtain ⟨id, hid⟩ := Option.isSome_iff_exists.mp hmem
  obtain ⟨e, he, rfl⟩ := hout.present i c id hc hid
  obtain ⟨hcontext, -⟩ := hs.asked i c e hc hstate he hid
  have hfind : s.memAccess c = some e := by
    unfold Ocl.memAccess
    rw [hid]
    exact (lookup_eq_some hs.ids).mpr ⟨he, rfl⟩
  have hget : s.getClient e = some c := by
    unfold Ocl.getClient
    rw [if_neg (Nat.not_le.mpr (hs.context e he)), hcontext, hc]
  rcases hinput with rfl | ⟨avail, rfl⟩
  · have hstep : s.step (.client i .memFailure) = (handleAerror s e).clearMemAccess i c := by
      simp [Ocl.step, hrunning, Ocl.act, handleClient, hc, hstate, hfind]
    rw [hstep]
    exact ⟨rfl, rfl, _, _, rfl⟩
  · have hstep : s.step (.client i (.memSuccess avail)) = (handleMemReturn s e avail).clearMemAccess i c := by
      simp [Ocl.step, hrunning, Ocl.act, handleClient, hc, hstate, hfind]
    rw [hstep]
    unfold handleMemReturn
    rw [hget]
    exact ⟨rfl, rfl, _, _, rfl⟩

/-- A reply that is consumed is counted, and leaves no request outstanding. -/
theorem Books.consume (hs : s.Wf) (hout : Outstanding s) (h : Books s r) {a : Action}
    (hreq : Tally.OnRequest ⟨s, r⟩ a) {i : ℕ} (hi : s.consumes i a = true) :
    Books (s.step a) (Tally.step ⟨s, r⟩ a).replies := by
  obtain ⟨hrunning, input, rfl, hinput, c, hc, -⟩ := consumes_eq_true hi
  have hbalance := h.balance i c hc
  have hlt : r i < requests c.id s.trace := hreq c hc hi
  have hmem : c.memAccess.isSome = true := by
    by_contra hnone
    rw [if_neg hnone] at hbalance
    omega
  rw [if_pos hmem] at hbalance
  obtain ⟨hclient, hnextId, tag, ans, htrace⟩ := consumes_step hs hout hi hc hmem
  have hcount : ∀ id, requests id (s.step (.client i input)).trace = requests id s.trace := by
    intro id
    rw [htrace, requests_append_of_silent (by simp [Obs.isRequestTo])]
  refine h.post hc hclient rfl hnextId (hs.slot i c hc).2.2 ?_ (fun id _ => hcount id) ?_
  · intro j hj
    have hother : s.consumes j (.client i input) = false := by
      rcases hinput with rfl | ⟨avail, rfl⟩ <;> simp [Ocl.consumes, Ne.symm hj]
    simp [Tally.step, hother]
  · simp [hcount, hbalance, Tally.step, hi]

/-- A client that connects has sent nothing yet, and its identity is larger than every other. -/
theorem Books.associate (hs : s.Wf) (h : Books s r) {i : ℕ} {c : Client} (hi : s.client i = none)
    (hid : c.id = s.nextId) (hmem : c.memAccess = none) (hclient : s'.client = Function.update s.client i (some c))
    (hnext : s'.nextId = s.nextId + 1) {obs : List Obs} (htrace : s'.trace = s.trace ++ obs)
    (hobs : ∀ id, ∀ o ∈ obs, o.isRequestTo id = false) : Books s' r := by
  have hcount : ∀ id, requests id s'.trace = requests id s.trace := by
    intro id
    rw [htrace, requests_append_of_silent (hobs id)]
  have hslot : ∀ j d, s'.client j = some d → (j = i ∧ d = c) ∨ (j ≠ i ∧ s.client j = some d) := by
    intro j d hd
    rw [hclient, update_eq_some_iff] at hd
    exact hd.imp_left (fun hnew => ⟨hnew.1, (Option.some.inj hnew.2).symm⟩)
  constructor
  · intro j d hd
    rw [hcount]
    rcases hslot j d hd with ⟨rfl, rfl⟩ | ⟨-, hd⟩
    · simp [hid, hmem, h.unsent _ le_rfl, h.empty j hi]
    · exact h.balance j d hd
  · intro j hj
    rw [hclient, update_some_eq_none_iff] at hj
    exact h.empty j hj.2
  · intro id hge
    rw [hcount]
    exact h.unsent id (by omega)
  · intro j k d e hd he heq
    rcases hslot j d hd with ⟨rfl, rfl⟩ | ⟨-, hd⟩
    · rcases hslot k e he with ⟨rfl, -⟩ | ⟨-, he⟩
      · rfl
      · have hlt := (hs.slot k e he).2.2
        omega
    · rcases hslot k e he with ⟨rfl, rfl⟩ | ⟨-, he⟩
      · have hlt := (hs.slot j d hd).2.2
        omega
      · exact h.distinct j k d e hd he heq

theorem step_books (hs : s.Wf) (hvalid : s.AllValid) {a : Action} (hnext : (s.step a).AllValid)
    (hout : Outstanding s) (h : Books s r) (hreq : Tally.OnRequest ⟨s, r⟩ a) :
    Books (s.step a) (Tally.step ⟨s, r⟩ a).replies := by
  have hstate := hvalid.client hs
  have hstate' := hnext.client (step_wf hs a)
  by_cases hconsumes : ∃ i, s.consumes i a = true
  · obtain ⟨i, hi⟩ := hconsumes
    exact h.consume hs hout hreq hi
  · have hquiet : ∀ i, s.consumes i a = false := fun i => by
      simpa using fun hi => hconsumes ⟨i, hi⟩
    have hreplies : (Tally.step ⟨s, r⟩ a).replies = r := by
      funext i
      simp [Tally.step, hquiet i]
    rw [hreplies]
    by_cases hhalted : s.halted = true
    · have hstep : s.step a = s := by simp [Ocl.step, hhalted]
      rw [hstep]
      exact h
    cases step_effect s a with
    | quiet hsame =>
      exact h.sameClients (by rw [hsame.trace, List.append_nil]) (by simp) hsame.nextId.ge hsame.client
    | ignore cmd d ha hoffers hassign htag hsame =>
      exact h.sameClients hsame.trace (by simp [Obs.isRequestTo]) hsame.nextId.ge hsame.client
    | assign cmd d ha hoffers i c hop hfind hc hsame =>
      exact h.setClient hsame.trace (by simp [Obs.isRequestTo]) hsame.nextId.ge hc hsame.client rfl rfl
    | add cmd d ha hoffers e c l₁ l₂ hop hfind hc hfresh hnew hlist hlist' hclient hnextId htrace hparms hmax =>
      exact h.sameClients htrace (by simp [Obs.isRequestTo]) (by omega) hclient
    | rewrite e e' he hc hr hsame =>
      exact h.sameClients (hsame.trace.trans (List.append_nil _).symm) (by simp) hsame.nextId.ge hsame.client
    | ask e c c' bytes he hc hready hbytes hc' hsame =>
      obtain ⟨-, hclient⟩ := getClient_eq_some hc
      have hcas := hs.noCas e he
      obtain ⟨hrd, hnone⟩ : e.Ready ∧ c.memAccess = none := hready.resolve_right (fun h => hcas h.2)
      obtain rfl := hbytes hcas
      have hid : c'.id = c.id := by rcases hc' with rfl | rfl <;> rfl
      refine h.post hclient hsame.client hid hsame.nextId (hs.slot _ c hclient).2.2 (fun _ _ => rfl) ?_ ?_
      · intro id hne
        rw [hsame.trace]
        change requests id (s.trace ++ [.sent c.id e.id e.requestMessage]) = _
        exact requests_append_of_silent (by simp [Obs.isRequestTo, Ne.symm hne]) _
      · rw [hsame.trace]
        change requests c.id (s.trace ++ [.sent c.id e.id e.requestMessage]) = _
        have hbalance := h.balance _ c hclient
        rw [requests_append, hbalance]
        simp [hnone, requests, Obs.isRequestTo, hrd.isMemoryRequest]
    | raise e c c' he hc hraised hc' hsame =>
      obtain ⟨-, hclient⟩ := getClient_eq_some hc
      have hkept : c' = c := by
        refine hc'.resolve_right (fun hdrop => ?_)
        have hclient' : (s.step a).client e.context = some c' := by
          rw [hsame.client]
          simp [Ocl.setClient]
        exact hstate' _ _ hclient' (by rw [hdrop]; rfl)
      subst hkept
      exact h.setClient hsame.trace (by simp [Obs.isRequestTo, isMemoryRequest_interruptMessage])
        hsame.nextId.ge hclient hsame.client rfl rfl
    | respond e e' he hresp hc he' hsame =>
      exact h.sameClients hsame.trace (by simp [Obs.isRequestTo]) hsame.nextId.ge hsame.client
    | finish e he hdone hc hlast hsame =>
      exact h.sameClients hsame.trace (by simp [Obs.isRequestTo]) hsame.nextId.ge hsame.client
    | refuse e he hresp hc hsame =>
      exact h.sameClients hsame.trace (by simp [Obs.isRequestTo]) hsame.nextId.ge hsame.client
    | post e resp he hsent hc hsame =>
      exact h.sameClients hsame.trace (by simp [Obs.isRequestTo]) hsame.nextId.ge hsame.client
    | answer i input ha e e' c ans he hc hne hmem he' hsame =>
      have hconsumed : s.consumes i a = true := by
        have hrunning : s.halted = false := by simpa using hhalted
        rcases he' with ⟨rfl, -, -⟩ | ⟨avail, rfl, -⟩ <;> simp [ha, Ocl.consumes, hc, hne, hrunning]
      simp [hquiet i] at hconsumed
    | client i c c' hc hid hmem hcs hsame =>
      have hclient' : (s.step a).client i = some c' := by
        rw [hsame.client]
        simp [Ocl.setClient]
      have hkept := hout.kept hs hstate hc hmem (hstate' i c' hclient')
      exact h.setClient (hsame.trace.trans (List.append_nil _).symm) (by simp) hsame.nextId.ge hc
        hsame.client hid.1 hkept
    | terminate i ha c hc hgone hsame => exact absurd hgone (hstate i c hc)
    | clear i ha c hc hgone hidle hsame => exact absurd hgone (hstate i c hc)
    | associate bdf i hi hc hlist hnextId hclient htrace hparms hmax =>
      exact h.associate hs hc rfl rfl hclient hnextId htrace (by simp [Obs.isRequestTo])

end Books

/-! ## Whole runs -/

/-- In every run in which nobody is dropped or detached, each client has at most one request outstanding,
and if the clients reply only to requests, `mem_access` is what the messages say. -/
theorem oneOutstanding_run (parms : Parms) (maxClients : ℕ) (afuEvent : AfuEvent) (as : List Action)
    (hvalid : Along Ocl.step (fun s a => (s.step a).AllValid) (Ocl.init parms maxClients afuEvent) as) :
    OneOutstanding ((Ocl.init parms maxClients afuEvent).run as) ∧
      (Along Tally.step Tally.OnRequest ⟨Ocl.init parms maxClients afuEvent, fun _ => 0⟩ as →
        ∀ i c, ((Ocl.init parms maxClients afuEvent).run as).client i = some c →
          requests c.id ((Ocl.init parms maxClients afuEvent).run as).trace =
            (as.foldl Tally.step ⟨Ocl.init parms maxClients afuEvent, fun _ => 0⟩).replies i +
              if c.memAccess.isSome then 1 else 0) := by
  let Inv (s : Ocl) : Prop := s.Wf ∧ s.AllValid ∧ Outstanding s
  have hinit : Inv (Ocl.init parms maxClients afuEvent) :=
    ⟨Ocl.init_wf _ _ _, by simp [Ocl.AllValid, Ocl.init], by constructor <;> simp [Ocl.init]⟩
  have hstep : ∀ s a, Inv s → (s.step a).AllValid → Inv (s.step a) := fun s a h hnext =>
    ⟨step_wf h.1 a, hnext, step_outstanding h.1 h.2.1 hnext h.2.2⟩
  obtain ⟨hwf, hall, hout⟩ := hvalid.invariant Inv hstep hinit
  refine ⟨hout.one hwf (hall.client hwf), fun hreq i c hc => ?_⟩
  have hboth := (hvalid.lift Tally.step Tally.ocl (fun _ _ => rfl) (x := ⟨_, fun _ => 0⟩)).and hreq
  have hbooks := hboth.invariant (fun x => Inv x.ocl ∧ Books x.ocl x.replies)
    (fun x a h hok => ⟨hstep x.ocl a h.1 hok.1,
      step_books h.1.1 h.1.2.1 hok.1 h.1.2.2 h.2 hok.2⟩)
    ⟨hinit, by constructor <;> simp [requests]⟩
  have hbalance := hbooks.2.balance i c
  rw [tally_ocl] at hbalance
  exact hbalance hc

/-- The client has answered its one request. -/
theorem sampleReadRun_balanced :
    Along Ocl.step (fun s a => (s.step a).AllValid)
        (Ocl.init (.quiet 128 (by simp)) 2 sampleAfu) sampleReadRun ∧
      Along Tally.step Tally.OnRequest ⟨Ocl.init (.quiet 128 (by simp)) 2 sampleAfu, fun _ => 0⟩
        sampleReadRun ∧
      OneOutstanding ((Ocl.init (.quiet 128 (by simp)) 2 sampleAfu).run sampleReadRun) ∧
      ∀ i c, ((Ocl.init (.quiet 128 (by simp)) 2 sampleAfu).run sampleReadRun).client i = some c →
        requests c.id ((Ocl.init (.quiet 128 (by simp)) 2 sampleAfu).run sampleReadRun).trace =
          (sampleReadRun.foldl Tally.step
            ⟨Ocl.init (.quiet 128 (by simp)) 2 sampleAfu, fun _ => 0⟩).replies i +
            if c.memAccess.isSome then 1 else 0 := by
  have hvalid : Along Ocl.step (fun s a => (s.step a).AllValid)
      (Ocl.init (.quiet 128 (by simp)) 2 sampleAfu) sampleReadRun := by decide +kernel
  have hreq : Along Tally.step Tally.OnRequest
      ⟨Ocl.init (.quiet 128 (by simp)) 2 sampleAfu, fun _ => 0⟩ sampleReadRun := by decide +kernel
  obtain ⟨hone, hbalance⟩ := oneOutstanding_run (.quiet 128 (by simp)) 2 sampleAfu sampleReadRun hvalid
  exact ⟨hvalid, hreq, hone, hbalance hreq⟩

end Ocse
