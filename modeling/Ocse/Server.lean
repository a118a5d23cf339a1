import Ocse.CmdList

/-!
# The server

`main` puts every client that connects into `client_list` and frees a client there once it has departed; a thread of
its own serves a client until it is given a slot of an `ocl`; the loop of the `ocl` then serves the clients that its
slots lead to. A slot is emptied only by the turn of the loop after the one in which its client has departed, and in
between `main` may run. So a slot leads to the client that was put there as long as `main` frees no client that is in
a slot; and then the list of commands is what the engine says it is.
-/

namespace Ocse

/-- A client in `client_list`, which is `pending` while a thread of its own serves it. -/
structure ListedClient where
  pending : Bool
  client : Client
  deriving DecidableEq, Repr

/-- An `ocl` with its list of commands in memory and the addresses in its slots. -/
structure OclThread where
  ocl : Ocl
  list : CmdList
  slots : ℕ → Option ℕ

/-- All there is of it, with `client_list` by address. -/
structure Server (κ : Type) where
  ocls : κ → OclThread
  clients : List (ℕ × ListedClient)

/-- `free` is one turn of the cleanup in `main`, which other threads may run after; `connect`, `associate` and `drop`
are `_client_connect`, `_client_associate` and a failed read of the client's thread; `unknown` is a request that it
does not know. -/
inductive ServerOp (κ : Type)
  | ocl (k : κ) (malloc : Malloc) (a : Action)
  | free (p : ℕ)
  | connect (malloc : Malloc)
  | associate (k : κ) (p : ℕ)
  | drop (p : ℕ)
  | unknown (p : ℕ)

/-- `_client_associate` is no part of the loop. -/
def Action.associates : Action → Bool
  | .associate _ => true
  | _ => false

/-- When the loop has ended, the array of its clients is freed. -/
def Ocl.close (s : Ocl) : Ocl := if s.halted then { s with client := fun _ => none } else s

/-- `_client_connect` -/
def connectedClient : Client where
  id := 0
  context := 0
  state := .init
  idleCycles := 0
  pasid := 0
  bdf := 0x5001
  actag := 0
  memAccess := none

/-- `_client_associate`, with an identity for the client. -/
def Client.associate (c : Client) (i id : ℕ) : Client :=
  { c with id, context := i, state := .valid, pasid := UInt32.ofNat i }

def ListedClient.departed (c : ListedClient) : Bool := !c.pending && c.client.state = .none

/-- The client at `p` after an action that has left the engine `ocl`: a slot that leads to it may have changed. -/
def OclThread.written (t : OclThread) (ocl : Ocl) (p : ℕ) (c : Client) : Client :=
  match (List.range t.ocl.maxClients).find? (fun i => t.slots i = some p ∧ ocl.client i ≠ some c) with
  | none => c
  | some i => (ocl.client i).getD c

namespace Server

variable {κ : Type}

def find (s : Server κ) (p : ℕ) : Option ListedClient := (lookup Prod.fst s.clients p).map Prod.snd

/-- The engine of an `ocl`, with the clients that its slots lead to. -/
def view (s : Server κ) (k : κ) : Ocl :=
  { (s.ocls k).ocl with client := fun i => ((s.ocls k).slots i).bind (fun p => (s.find p).map ListedClient.client) }

/-- No slot leads to memory that has been freed. -/
def Leads (s : Server κ) (k : κ) : Prop :=
  ∀ i < (s.ocls k).ocl.maxClients, ∀ p ∈ (s.ocls k).slots i, (s.find p).isSome = true

instance (s : Server κ) (k : κ) : Decidable (s.Leads k) :=
  inferInstanceAs (Decidable (∀ i < (s.ocls k).ocl.maxClients, ∀ p ∈ (s.ocls k).slots i, (s.find p).isSome = true))

variable [DecidableEq κ]

/-- The server after an action of the loop that has left the engine `ocl` and the list. -/
def after (s : Server κ) (k : κ) (ocl : Ocl) (list : CmdList) : Server κ where
  ocls := Function.update s.ocls k
    ⟨ocl.close, list, fun i => if (ocl.close.client i).isSome then (s.ocls k).slots i else none⟩
  clients := s.clients.map (fun c => (c.1, { c.2 with client := (s.ocls k).written ocl c.1 c.2.client }))

/-- An action of the loop of an `ocl`; it has no result when the loop follows a slot to memory that has been freed. -/
def oclStep (s : Server κ) (k : κ) (malloc : Malloc) (a : Action) : Option (Server κ) :=
  if s.Leads k then
    (CmdList.step malloc (s.view k) (s.ocls k).list a).map (s.after k ((s.view k).step a))
  else none

def house (s : Server κ) (k : κ) (i p : ℕ) (c : Client) : Server κ :=
  let t := s.ocls k
  let ocl : Ocl :=
    { t.ocl with
      nextId := t.ocl.nextId + 1
      trace := t.ocl.trace ++ [.connected t.ocl.nextId c.bdf (UInt32.ofNat i)] }
  { ocls := Function.update s.ocls k ⟨ocl, t.list, Function.update t.slots i (some p)⟩
    clients := replace Prod.fst s.clients (p, ⟨false, c.associate i t.ocl.nextId⟩) }

/-- The first empty slot of the `ocl` is given to the client. -/
def associate (s : Server κ) (k : κ) (p : ℕ) (c : Client) : Server κ :=
  match (List.range (s.ocls k).ocl.maxClients).find? (fun i => ((s.ocls k).slots i).isNone) with
  | none => s
  | some i => s.house k i p c

/-- One turn of the cleanup in `main` -/
def free (s : Server κ) (p : ℕ) : Server κ :=
  match s.find p with
  | none => s
  | some c => if c.departed then { s with clients := remove Prod.fst s.clients (p, c) } else s

/-- What the thread of a client does is done while the client is pending. -/
def pendingStep (s : Server κ) (p : ℕ) (f : ListedClient → Server κ) : Server κ :=
  match s.find p with
  | none => s
  | some c => if c.pending then f c else s

def step (s : Server κ) : ServerOp κ → Option (Server κ)
  | .ocl k malloc a => if a.associates then some s else s.oclStep k malloc a
  | .free p => some (s.free p)
  | .connect malloc =>
    some { s with clients := (malloc.alloc (s.clients.map Prod.fst), ⟨true, connectedClient⟩) :: s.clients }
  | .associate k p =>
    some (s.pendingStep p (fun c => if (s.ocls k).ocl.halted then s else s.associate k p c.client))
  | .drop p =>
    some (s.pendingStep p (fun c =>
      { s with clients := replace Prod.fst s.clients (p, { c with client := c.client.drop tlxIdleCycles .none }) }))
  | .unknown p =>
    some (s.pendingStep p (fun c => { s with clients := replace Prod.fst s.clients (p, { c with pending := false }) }))

def next (s : Option (Server κ)) (op : ServerOp κ) : Option (Server κ) := s.bind (fun s => s.step op)

/-- No client has connected, and no `ocl` has a client or a command. -/
def init (parms : Parms) (maxClients : κ → ℕ) (afuEvent : κ → AfuEvent) : Server κ where
  ocls k := ⟨Ocl.init parms (maxClients k) (afuEvent k), ⟨∅, none⟩, fun _ => none⟩
  clients := []

/-- The list of commands of an `ocl` has these cells, which are the events of the engine; tags are distinct, and every
slot that is not empty leads to a client with the number of the slot. -/
structure SoundAt (s : Server κ) (k : κ) (cells : List (ℕ × CmdEvent)) : Prop where
  list : (s.ocls k).list.Holds cells
  events : cells.map Prod.snd = (s.ocls k).ocl.list
  tags : (cells.map (fun c => c.2.afutag)).Nodup
  slots : ∀ i p, (s.ocls k).slots i = some p →
    ∃ c, s.find p = some c ∧ c.client.context = i ∧ c.client.pasid = UInt32.ofNat i

def Sound (s : Server κ) : Prop := ∀ k, ∃ cells, s.SoundAt k cells

/-- Of the lists of commands only that of the `ocl` that takes an action changes, by an event at most. -/
def Changes (s : Server κ) (op : ServerOp κ) (s' : Server κ) : Prop :=
  ∀ k, ∃ cells cells', (s.ocls k).list.Holds cells ∧ (s'.ocls k).list.Holds cells' ∧
    ((∃ malloc a, op = .ocl k malloc a ∧ CellsStep a cells cells') ∨ cells' = cells)

/-- A client that is freed is in no slot. -/
def Meets (s : Server κ) : ServerOp κ → Prop
  | .free p => ∀ c ∈ s.find p, c.departed = true → ∀ k i, (s.ocls k).slots i ≠ some p
  | _ => True

end Server

/-! ## The engine in order -/

/-- Beside what `Wf` says, a client has the number of its slot for a pasid, and the event that a connected client has
been asked about is in the list. -/
structure Ocl.Tidy (s : Ocl) : Prop where
  wf : s.Wf
  pasid : ∀ i c, s.client i = some c → c.pasid = UInt32.ofNat i
  named : ∀ i c id, s.client i = some c → c.state ≠ .none → c.memAccess = some id → ∃ e ∈ s.list, e.id = id

section Tidy

variable {s : Ocl}

theorem Ocl.init_tidy (parms : Parms) (maxClients : ℕ) (afuEvent : AfuEvent) :
    (Ocl.init parms maxClients afuEvent).Tidy where
  wf := Ocl.init_wf parms maxClients afuEvent
  pasid := by
    intro i c hc
    cases hc
  named := by
    intro i c id hc
    cases hc

theorem step_tidy (hs : s.Tidy) (a : Action) : (s.step a).Tidy where
  wf := step_wf hs.wf a
  pasid := by
    intro i c' hc'
    cases step_clientStep s a hc' with
    | kept c hc hpasid hasked => exact hpasid.trans (hs.pasid i c hc)
    | new hpasid hmem => exact hpasid
  named := by
    intro i c' id hc' hstate hmem
    cases step_clientStep s a hc' with
    | kept c hc hpasid hasked =>
      rcases hasked hstate id hmem with ⟨hconnected, hid⟩ | hnamed
      · obtain ⟨e, he, rfl⟩ := hs.named i c id hc hconnected hid
        obtain ⟨-, hawait⟩ := hs.wf.asked i c e hc hconnected he hid
        exact step_awaiting hs.wf a he hawait
      · exact hnamed
    | new hpasid hnone =>
      rw [hnone] at hmem
      cases hmem

theorem Ocl.close_client {i : ℕ} {c : Client} (hc : s.close.client i = some c) : s.client i = some c := by
  unfold Ocl.close at hc
  split at hc
  · cases hc
  · exact hc

theorem Ocl.close_list (s : Ocl) : s.close.list = s.list := by
  unfold Ocl.close
  split
  · rfl
  · rfl

theorem Ocl.Tidy.close (hs : s.Tidy) : s.close.Tidy := by
  unfold Ocl.close
  split
  · obtain ⟨ids, tags, fresh, context, noCas, slot, memAccess, asked⟩ := hs.wf
    refine ⟨⟨ids, tags, fresh, context, noCas, ?_, ?_, ?_⟩, ?_, ?_⟩
    · intro i c hc
      cases hc
    · intro i c id hc
      cases hc
    · intro i c e hc
      cases hc
    · intro i c hc
      cases hc
    · intro i c id hc
      cases hc
  · exact hs

/-- A client whose thread has waited for no answer is given a slot. -/
theorem Ocl.Tidy.associate (hs : s.Tidy) {i : ℕ} (hi : i < s.maxClients) {c : Client} (hmem : c.memAccess = none)
    (obs : List Obs) : ({ s with
      client := Function.update s.client i (some (c.associate i s.nextId)), nextId := s.nextId + 1
      trace := s.trace ++ obs } : Ocl).Tidy where
  wf := hs.wf.associate hi (c := c.associate i s.nextId) rfl rfl hmem rfl rfl rfl rfl
  pasid := by
    intro j c' hc'
    rcases update_eq_some_iff.mp hc' with ⟨rfl, hnew⟩ | ⟨-, hc⟩
    · obtain rfl := Option.some.inj hnew
      rfl
    · exact hs.pasid j c' hc
  named := by
    intro j c' id hc' hstate hid
    rcases update_eq_some_iff.mp hc' with ⟨rfl, hnew⟩ | ⟨-, hc⟩
    · obtain rfl := Option.some.inj hnew
      exact absurd (hmem.symm.trans hid) (fun h => nomatch h)
    · exact hs.named j c' id hc hstate hid

theorem handleResponse_client (s : Ocl) (rand : ℕ) : (handleResponse s rand).client = s.client := by
  unfold handleResponse
  dsimp only
  repeat' split
  all_goals rfl

theorem handleXlateIntrpPendingSent_client (s : Ocl) (d : Draws) :
    (handleXlateIntrpPendingSent s d).client = s.client := by
  unfold handleXlateIntrpPendingSent postPending
  repeat' split
  all_goals rfl

/-- No action of the loop fills a slot. -/
theorem step_slots {a : Action} (ha : a.associates = false) {i : ℕ} (hi : s.client i = none) :
    (s.step a).client i = none := by
  unfold Ocl.step
  split
  · exact hi
  · cases a with
    | response rand =>
      change (handleResponse s rand).client i = none
      rw [handleResponse_client, hi]
    | pendingSent d =>
      change (handleXlateIntrpPendingSent s d).client i = none
      rw [handleXlateIntrpPendingSent_client, hi]
    | cmd d => exact (handleCmd_adds s d).slots i hi
    | associate bdf => cases ha
    | idle | signalAfu | getAfuEvents | mmio | bufferWrite | cmdDataRead | writeCmd | touch | interrupt |
      writeBeOrAmo | client | settle | clear =>
      refine (act_staysPut s ?_).slots i hi
      trivial

end Tidy

section Written

variable {t : OclThread} {ocl : Ocl} {i p : ℕ} {c : Client}

theorem OclThread.written_elsewhere (hslot : ∀ i, t.slots i ≠ some p) : t.written ocl p c = c := by
  unfold OclThread.written
  rw [List.find?_eq_none.mpr]
  intro i _ hfound
  exact hslot i (of_decide_eq_true hfound).1

theorem OclThread.written_slot (hi : i < t.ocl.maxClients) (hslot : t.slots i = some p)
    (hone : ∀ j, t.slots j = some p → j = i) : t.written ocl p c = (ocl.client i).getD c := by
  unfold OclThread.written
  cases hfound : (List.range t.ocl.maxClients).find? (fun i => t.slots i = some p ∧ ocl.client i ≠ some c) with
  | none =>
    have hsame := List.find?_eq_none.mp hfound i (List.mem_range.mpr hi)
    rw [decide_eq_true_eq, not_and, not_not] at hsame
    rw [hsame hslot]
    rfl
  | some j =>
    have hj := List.find?_some hfound
    rw [decide_eq_true_eq] at hj
    rw [hone j hj.1]

end Written

namespace Server

/-! ## Clients by address -/

section Find

variable {κ : Type} {s s' : Server κ} {p q : ℕ} {c : ListedClient}

theorem find_eq_some (hkeys : (s.clients.map Prod.fst).Nodup) : s.find p = some c ↔ (p, c) ∈ s.clients := by
  unfold find
  rw [Option.map_eq_some_iff]
  constructor
  · rintro ⟨⟨q, d⟩, hlookup, rfl⟩
    obtain ⟨hmem, rfl⟩ := (lookup_eq_some hkeys).mp hlookup
    exact hmem
  · intro hmem
    exact ⟨(p, c), (lookup_eq_some hkeys).mpr ⟨hmem, rfl⟩, rfl⟩

theorem find_replace (hkeys : (s.clients.map Prod.fst).Nodup) (hc : s.find p = some c) (d : ListedClient)
    (ocls : κ → OclThread) :
    find ⟨ocls, replace Prod.fst s.clients (p, d)⟩ q = if p = q then some d else s.find q := by
  have hmem := (find_eq_some hkeys).mp hc
  have hsame : Prod.fst (p, d) = Prod.fst (p, c) := rfl
  unfold find
  rw [lookup_replace hkeys hkeys hmem hsame hsame]
  split_ifs
  · rfl
  · rfl

theorem find_remove (hkeys : (s.clients.map Prod.fst).Nodup) (hc : s.find p = some c) :
    find { s with clients := remove Prod.fst s.clients (p, c) } q = if p = q then none else s.find q := by
  have hmem := (find_eq_some hkeys).mp hc
  unfold find
  rw [lookup_remove hkeys hkeys hmem]
  split_ifs
  · rfl
  · rfl

theorem find_cons (hp : p ∉ s.clients.map Prod.fst) :
    find { s with clients := (p, c) :: s.clients } q = if p = q then some c else s.find q := by
  have hfresh : ∀ x ∈ [] ++ s.clients, x.1 ≠ p := by
    rintro x hx rfl
    exact hp (List.mem_map_of_mem hx)
  unfold find
  rw [← List.nil_append ((p, c) :: s.clients), lookup_insert hfresh, List.nil_append]
  split_ifs
  · rfl
  · rfl

theorem find_map (f : ℕ → ListedClient → ListedClient) (ocls : κ → OclThread) :
    find ⟨ocls, s.clients.map (fun c => (c.1, f c.1 c.2))⟩ p = (s.find p).map (f p) := by
  unfold find
  rw [lookup_map (g := fun c => (c.1, f c.1 c.2)) (fun _ => rfl)]
  cases hlookup : lookup Prod.fst s.clients p with
  | none => rfl
  | some c =>
    unfold lookup at hlookup
    have hp := List.find?_some hlookup
    rw [decide_eq_true_eq] at hp
    obtain rfl := hp
    rfl

theorem map_fst_replace (d : ListedClient) :
    (replace Prod.fst s.clients (p, d)).map Prod.fst = s.clients.map Prod.fst := map_replace_key

end Find

/-! ## The invariant -/

/-- A slot leads to a client whose own thread is done with it, and no two slots lead to the same one. -/
structure Holds {κ : Type} (s : Server κ) : Prop where
  tidy : ∀ k, (s.view k).Tidy
  lists : ∀ k, ∃ cells, (s.ocls k).list.Lists (s.view k) cells
  keys : (s.clients.map Prod.fst).Nodup
  housed : ∀ k i p, (s.ocls k).slots i = some p → ∃ c, s.find p = some c ∧ c.pending = false
  apart : ∀ k i k' i' p, (s.ocls k).slots i = some p → (s.ocls k').slots i' = some p → k = k' ∧ i = i'
  waiting : ∀ p c, s.find p = some c → c.pending = true → c.client.memAccess = none

section Holds

variable {κ : Type} {s s' : Server κ} {k : κ} {i p : ℕ} {c : ListedClient}

theorem view_client (hslot : (s.ocls k).slots i = some p) (hc : s.find p = some c) :
    (s.view k).client i = some c.client := by
  unfold view
  dsimp only
  rw [hslot, Option.bind_some, hc]
  rfl

theorem view_eq {ocl : Ocl} (hocl : { (s.ocls k).ocl with client := ocl.client } = ocl)
    (hclients : ∀ i, ((s.ocls k).slots i).bind (fun p => (s.find p).map ListedClient.client) = ocl.client i) :
    s.view k = ocl := by
  unfold view
  rw [funext hclients]
  exact hocl

theorem view_congr (hocl : s'.ocls k = s.ocls k)
    (hfind : ∀ i p, (s.ocls k).slots i = some p → s'.find p = s.find p) : s'.view k = s.view k := by
  apply view_eq
  · rw [hocl]
    rfl
  · intro i
    rw [hocl]
    unfold view
    dsimp only
    cases hslot : (s.ocls k).slots i with
    | none => rfl
    | some p => exact congrArg (Option.map ListedClient.client) (hfind i p hslot)

theorem init_holds (parms : Parms) (maxClients : κ → ℕ) (afuEvent : κ → AfuEvent) :
    (init parms maxClients afuEvent).Holds where
  tidy k := Ocl.init_tidy parms (maxClients k) (afuEvent k)
  lists k := ⟨[], ⟨rfl, List.nodup_nil⟩, rfl⟩
  keys := List.nodup_nil
  housed := by
    intro k i p hslot
    cases hslot
  apart := by
    intro k i k' i' p hslot
    cases hslot
  waiting := by
    intro p c hc
    cases hc

theorem Holds.slot_lt (h : s.Holds) (hslot : (s.ocls k).slots i = some p) : i < (s.ocls k).ocl.maxClients := by
  obtain ⟨c, hc, -⟩ := h.housed k i p hslot
  exact ((h.tidy k).wf.slot i c.client (view_client hslot hc)).1

theorem Holds.leads (h : s.Holds) (k : κ) : s.Leads k := by
  intro i _ p hslot
  obtain ⟨c, hc, -⟩ := h.housed k i p hslot
  rw [hc]
  rfl

theorem Holds.not_housed (h : s.Holds) (hc : s.find p = some c) (hpending : c.pending = true) (k : κ) (i : ℕ) :
    (s.ocls k).slots i ≠ some p := by
  intro hslot
  obtain ⟨d, hd, hserved⟩ := h.housed k i p hslot
  obtain rfl := Option.some.inj (hc.symm.trans hd)
  rw [hpending] at hserved
  cases hserved

theorem Holds.sound (h : s.Holds) : s.Sound := by
  intro k
  obtain ⟨cells, hlist⟩ := h.lists k
  refine ⟨cells, hlist.holds, hlist.events, ?_, ?_⟩
  · have htags := (h.tidy k).wf.tags
    rw [← hlist.events, List.map_map] at htags
    exact htags
  · intro i p hslot
    obtain ⟨c, hc, -⟩ := h.housed k i p hslot
    have hclient := view_client hslot hc
    exact ⟨c, hc, ((h.tidy k).wf.slot i c.client hclient).2.1, (h.tidy k).pasid i c.client hclient⟩

/-- The clients in the slots are left as they are. -/
theorem Holds.keep (h : s.Holds) (hocls : s'.ocls = s.ocls) (hkeys : (s'.clients.map Prod.fst).Nodup)
    (hfind : ∀ k i p, (s.ocls k).slots i = some p → s'.find p = s.find p)
    (hwaiting : ∀ p c, s'.find p = some c → c.pending = true → c.client.memAccess = none) : s'.Holds := by
  have hocl : ∀ k, s'.ocls k = s.ocls k := fun k => congrFun hocls k
  have hview : ∀ k, s'.view k = s.view k := fun k => view_congr (hocl k) (hfind k)
  refine ⟨?_, ?_, hkeys, ?_, ?_, hwaiting⟩
  · intro k
    rw [hview]
    exact h.tidy k
  · intro k
    rw [hview, hocl]
    exact h.lists k
  · intro k i p hslot
    rw [hocl] at hslot
    rw [hfind k i p hslot]
    exact h.housed k i p hslot
  · intro k i k' i' p hslot hslot'
    rw [hocl] at hslot hslot'
    exact h.apart k i k' i' p hslot hslot'

/-- A pending client is written to. -/
theorem Holds.setPending (h : s.Holds) (hc : s.find p = some c) (hpending : c.pending = true) {d : ListedClient}
    (hmem : d.client.memAccess = none) : Holds { s with clients := replace Prod.fst s.clients (p, d) } := by
  refine h.keep rfl ?_ ?_ ?_
  · rw [map_fst_replace]
    exact h.keys
  · intro k i q hslot
    rw [find_replace h.keys hc, if_neg]
    rintro rfl
    exact h.not_housed hc hpending k i hslot
  · intro q d' hd' hwaiting
    rw [find_replace h.keys hc] at hd'
    split_ifs at hd' with hpq
    · obtain rfl := Option.some.inj hd'
      exact hmem
    · exact h.waiting q d' hd' hwaiting

theorem free_ocls : (s.free p).ocls = s.ocls := by
  unfold Server.free
  split
  · rfl
  · split_ifs
    · rfl
    · rfl

theorem free_departed (hc : s.find p = some c) (hdeparted : c.departed = true) :
    s.free p = { s with clients := remove Prod.fst s.clients (p, c) } := by
  unfold Server.free
  rw [hc]
  exact if_pos hdeparted

/-- A client that no slot leads to is freed. -/
theorem Holds.remove (h : s.Holds) (hc : s.find p = some c) (hfree : ∀ k i, (s.ocls k).slots i ≠ some p) :
    Holds { s with clients := remove Prod.fst s.clients (p, c) } := by
  refine h.keep rfl (nodup_map_remove h.keys) ?_ ?_
  · intro k i q hslot
    rw [find_remove h.keys hc, if_neg]
    rintro rfl
    exact hfree k i hslot
  · intro q d hd hwaiting
    rw [find_remove h.keys hc] at hd
    split_ifs at hd with hpq
    exact h.waiting q d hd hwaiting

theorem Holds.free (h : s.Holds)
    (hfree : ∀ c ∈ s.find p, c.departed = true → ∀ k i, (s.ocls k).slots i ≠ some p) : (s.free p).Holds := by
  unfold Server.free
  cases hc : s.find p with
  | none => exact h
  | some c =>
    dsimp only
    split_ifs with hdeparted
    · exact h.remove hc (hfree c hc hdeparted)
    · exact h

theorem Holds.connect (h : s.Holds) (hp : p ∉ s.clients.map Prod.fst) :
    Holds { s with clients := (p, ⟨true, connectedClient⟩) :: s.clients } := by
  refine h.keep rfl (List.nodup_cons.mpr ⟨hp, h.keys⟩) ?_ ?_
  · intro k i q hslot
    rw [find_cons hp, if_neg]
    rintro rfl
    obtain ⟨c, hc, -⟩ := h.housed k i p hslot
    exact hp (List.mem_map_of_mem ((find_eq_some h.keys).mp hc))
  · intro q d hd hwaiting
    rw [find_cons hp] at hd
    split_ifs at hd with hpq
    · obtain rfl := Option.some.inj hd
      rfl
    · exact h.waiting q d hd hwaiting

theorem Holds.changes_same (h : s.Holds) (hlist : ∀ k, (s'.ocls k).list = (s.ocls k).list) (op : ServerOp κ) :
    s.Changes op s' := by
  intro k
  obtain ⟨cells, hcells⟩ := h.lists k
  refine ⟨cells, cells, hcells.holds, ?_, .inr rfl⟩
  rw [hlist]
  exact hcells.holds

theorem Holds.pendingStep (h : s.Holds) (p : ℕ) {f : ListedClient → Server κ}
    (hf : ∀ c, s.find p = some c → c.pending = true → (f c).Holds ∧ ∀ k, ((f c).ocls k).list = (s.ocls k).list)
    (op : ServerOp κ) : (s.pendingStep p f).Holds ∧ s.Changes op (s.pendingStep p f) := by
  unfold Server.pendingStep
  cases hc : s.find p with
  | none => exact ⟨h, h.changes_same (fun _ => rfl) op⟩
  | some c =>
    dsimp only
    by_cases hpending : c.pending = true
    · obtain ⟨hholds, hlist⟩ := hf c hc hpending
      rw [if_pos hpending]
      exact ⟨hholds, h.changes_same hlist op⟩
    · rw [if_neg hpending]
      exact ⟨h, h.changes_same (fun _ => rfl) op⟩

variable [DecidableEq κ]

theorem house_ocls_self (c : Client) : (s.house k i p c).ocls k =
    ⟨{ (s.ocls k).ocl with
        nextId := (s.ocls k).ocl.nextId + 1
        trace := (s.ocls k).ocl.trace ++ [.connected (s.ocls k).ocl.nextId c.bdf (UInt32.ofNat i)] },
      (s.ocls k).list, Function.update (s.ocls k).slots i (some p)⟩ := Function.update_self _ _ _

theorem Holds.view_house (h : s.Holds) (hc : s.find p = some c) (hpending : c.pending = true) :
    (s.house k i p c.client).view k = { s.view k with
      client := Function.update (s.view k).client i (some (c.client.associate i (s.view k).nextId))
      nextId := (s.view k).nextId + 1
      trace := (s.view k).trace ++ [.connected (s.view k).nextId c.client.bdf (UInt32.ofNat i)] } := by
  apply view_eq
  · rw [house_ocls_self]
    rfl
  · intro j
    rw [house_ocls_self]
    dsimp only
    by_cases hij : j = i
    · rw [hij, Function.update_self, Function.update_self, Option.bind_some, house, find_replace h.keys hc, if_pos rfl]
      rfl
    · rw [Function.update_of_ne hij, Function.update_of_ne hij]
      unfold view
      dsimp only
      cases hslot : (s.ocls k).slots j with
      | none => rfl
      | some q =>
        have hpq : p ≠ q := by
          rintro rfl
          exact h.not_housed hc hpending k j hslot
        rw [Option.bind_some, Option.bind_some, house, find_replace h.keys hc, if_neg hpq]

theorem house_ocls_of_ne {k' : κ} (hk : k' ≠ k) (c : Client) : (s.house k i p c).ocls k' = s.ocls k' :=
  Function.update_of_ne hk _ _

/-- A slot leads to the client that it was given to, or where it led before, which is not to that client. -/
theorem Holds.house_slots (h : s.Holds) (hc : s.find p = some c) (hpending : c.pending = true) {k' : κ} {j q : ℕ}
    (hslot : ((s.house k i p c.client).ocls k').slots j = some q) :
    (k' = k ∧ j = i ∧ q = p) ∨ ((s.ocls k').slots j = some q ∧ p ≠ q) := by
  have hold : (s.ocls k').slots j = some q → p ≠ q := by
    rintro hslot rfl
    exact h.not_housed hc hpending k' j hslot
  by_cases hk : k' = k
  · subst hk
    rw [house_ocls_self] at hslot
    rcases update_eq_some_iff.mp hslot with ⟨rfl, hnew⟩ | ⟨-, hslot⟩
    · exact .inl ⟨rfl, rfl, (Option.some.inj hnew).symm⟩
    · exact .inr ⟨hslot, hold hslot⟩
  · rw [house_ocls_of_ne hk] at hslot
    exact .inr ⟨hslot, hold hslot⟩

theorem Holds.house (h : s.Holds) (hc : s.find p = some c) (hpending : c.pending = true)
    (hi : i < (s.ocls k).ocl.maxClients) : (s.house k i p c.client).Holds := by
  have hfind : ∀ q, (s.house k i p c.client).find q =
      if p = q then some ⟨false, c.client.associate i (s.ocls k).ocl.nextId⟩ else s.find q := fun q =>
    find_replace h.keys hc _ _
  have hview : ∀ k', k' ≠ k → (s.house k i p c.client).view k' = s.view k' := by
    intro k' hk
    apply view_congr (house_ocls_of_ne hk _)
    intro j q hslot
    rw [hfind, if_neg]
    rintro rfl
    exact h.not_housed hc hpending k' j hslot
  refine ⟨?_, ?_, ?_, ?_, ?_, ?_⟩
  · intro k'
    by_cases hk : k' = k
    · rw [hk, h.view_house hc hpending]
      exact (h.tidy k).associate hi (h.waiting p c hc hpending) _
    · rw [hview k' hk]
      exact h.tidy k'
  · intro k'
    by_cases hk : k' = k
    · subst hk
      obtain ⟨cells, hlist⟩ := h.lists k'
      rw [h.view_house hc hpending, house_ocls_self]
      exact ⟨cells, hlist.congr rfl⟩
    · rw [hview k' hk, house_ocls_of_ne hk]
      exact h.lists k'
  · change ((replace Prod.fst s.clients (p, _)).map Prod.fst).Nodup
    rw [map_fst_replace]
    exact h.keys
  · intro k' j q hslot
    rw [hfind]
    rcases h.house_slots hc hpending hslot with ⟨-, -, rfl⟩ | ⟨hslot, hpq⟩
    · exact ⟨_, if_pos rfl, rfl⟩
    · rw [if_neg hpq]
      exact h.housed k' j q hslot
  · intro k₁ j₁ k₂ j₂ q hslot₁ hslot₂
    rcases h.house_slots hc hpending hslot₁ with ⟨rfl, rfl, rfl⟩ | ⟨hslot₁, hpq⟩
    · rcases h.house_slots hc hpending hslot₂ with ⟨rfl, rfl, -⟩ | ⟨-, hpq⟩
      · exact ⟨rfl, rfl⟩
      · exact absurd rfl hpq
    · rcases h.house_slots hc hpending hslot₂ with ⟨-, -, rfl⟩ | ⟨hslot₂, -⟩
      · exact absurd rfl hpq
      · exact h.apart k₁ j₁ k₂ j₂ q hslot₁ hslot₂
  · intro q d hd hwaiting
    rw [hfind] at hd
    split_ifs at hd with hpq
    · obtain rfl := Option.some.inj hd
      cases hwaiting
    · exact h.waiting q d hd hwaiting

theorem Holds.associate (h : s.Holds) (hc : s.find p = some c) (hpending : c.pending = true) :
    (s.associate k p c.client).Holds := by
  unfold Server.associate
  cases hfirst : (List.range (s.ocls k).ocl.maxClients).find? (fun i => ((s.ocls k).slots i).isNone) with
  | none => exact h
  | some i => exact h.house hc hpending (List.mem_range.mp (List.mem_of_find?_eq_some hfirst))

section After

variable {ocl : Ocl} {list : CmdList}

theorem after_ocls_self : (s.after k ocl list).ocls k =
    ⟨ocl.close, list, fun i => if (ocl.close.client i).isSome then (s.ocls k).slots i else none⟩ :=
  Function.update_self _ _ _

theorem after_ocls_of_ne {k' : κ} (hk : k' ≠ k) : (s.after k ocl list).ocls k' = s.ocls k' :=
  Function.update_of_ne hk _ _

theorem after_slots {k' : κ} (hslot : ((s.after k ocl list).ocls k').slots i = some p) : (s.ocls k').slots i = some p := by
  by_cases hk : k' = k
  · subst hk
    rw [after_ocls_self] at hslot
    dsimp only at hslot
    split_ifs at hslot
    exact hslot
  · rw [after_ocls_of_ne hk] at hslot
    exact hslot

theorem after_find : (s.after k ocl list).find p =
    (s.find p).map (fun c => { c with client := (s.ocls k).written ocl p c.client }) :=
  find_map (fun p c => { c with client := (s.ocls k).written ocl p c.client }) _

theorem after_find_elsewhere (hslot : ∀ i, (s.ocls k).slots i ≠ some p) : (s.after k ocl list).find p = s.find p := by
  rw [after_find]
  cases s.find p with
  | none => rfl
  | some c =>
    rw [Option.map_some, OclThread.written_elsewhere hslot]

theorem Holds.after_find_slot (h : s.Holds) (hslot : (s.ocls k).slots i = some p) (hc : s.find p = some c) :
    (s.after k ocl list).find p = some { c with client := (ocl.client i).getD c.client } := by
  rw [after_find, hc, Option.map_some, OclThread.written_slot (h.slot_lt hslot) hslot]
  intro j hj
  exact (h.apart k j k i p hj hslot).2

theorem Holds.after_view (h : s.Holds) (hslots : ∀ i, (s.view k).client i = none → ocl.client i = none) :
    (s.after k ocl list).view k = ocl.close := by
  apply view_eq
  · rw [after_ocls_self]
  · intro i
    rw [after_ocls_self]
    dsimp only
    cases hclient : ocl.close.client i with
    | none => rfl
    | some d =>
      have hd := Ocl.close_client hclient
      rw [Option.isSome_some, if_pos rfl]
      cases hslot : (s.ocls k).slots i with
      | none =>
        have hnone : (s.view k).client i = none := by
          unfold view
          dsimp only
          rw [hslot]
          rfl
        rw [hslots i hnone] at hd
        cases hd
      | some p =>
        obtain ⟨c, hc, -⟩ := h.housed k i p hslot
        rw [Option.bind_some, h.after_find_slot hslot hc, hd]
        rfl

theorem Holds.after_view_of_ne (h : s.Holds) {k' : κ} (hk : k' ≠ k) : (s.after k ocl list).view k' = s.view k' := by
  apply view_congr (after_ocls_of_ne hk)
  intro i p hslot
  apply after_find_elsewhere
  intro j hj
  exact hk (h.apart k' i k j p hslot hj).1

theorem Holds.after (h : s.Holds) (htidy : ocl.Tidy) (hslots : ∀ i, (s.view k).client i = none → ocl.client i = none)
    {cells : List (ℕ × CmdEvent)} (hlist : list.Lists ocl cells) : (s.after k ocl list).Holds := by
  refine ⟨?_, ?_, ?_, ?_, ?_, ?_⟩
  · intro k'
    by_cases hk : k' = k
    · rw [hk, h.after_view hslots]
      exact htidy.close
    · rw [h.after_view_of_ne hk]
      exact h.tidy k'
  · intro k'
    by_cases hk : k' = k
    · subst hk
      rw [h.after_view hslots, after_ocls_self]
      exact ⟨cells, hlist.congr (Ocl.close_list ocl)⟩
    · rw [h.after_view_of_ne hk, after_ocls_of_ne hk]
      exact h.lists k'
  · change ((s.clients.map _).map Prod.fst).Nodup
    rw [List.map_map]
    exact h.keys
  · intro k' i p hslot
    obtain ⟨c, hc, hserved⟩ := h.housed k' i p (after_slots hslot)
    rw [after_find, hc]
    exact ⟨_, rfl, hserved⟩
  · intro k₁ i₁ k₂ i₂ p hslot₁ hslot₂
    exact h.apart k₁ i₁ k₂ i₂ p (after_slots hslot₁) (after_slots hslot₂)
  · intro p c hc hwaiting
    cases hfind : s.find p with
    | none =>
      rw [after_find, hfind] at hc
      cases hc
    | some d =>
      have hpending : d.pending = true := by
        rw [after_find, hfind] at hc
        obtain rfl := Option.some.inj hc
        exact hwaiting
      rw [after_find_elsewhere (h.not_housed hfind hpending k)] at hc
      exact h.waiting p c hc hwaiting

end After

/-! ## Steps -/

theorem Holds.oclStep (h : s.Holds) (k : κ) (malloc : Malloc) {a : Action} (ha : a.associates = false) :
    ∃ s', s.oclStep k malloc a = some s' ∧ s'.Holds ∧ s.Changes (.ocl k malloc a) s' := by
  obtain ⟨cells, hcells⟩ := h.lists k
  obtain ⟨list, cells', hstep, hcells', hchange⟩ := hcells.step malloc (h.tidy k).wf a
  refine ⟨s.after k ((s.view k).step a) list, ?_,
    h.after (step_tidy (h.tidy k) a) (fun _ hi => step_slots ha hi) hcells', ?_⟩
  · rw [Server.oclStep, if_pos (h.leads k), hstep]
    rfl
  · intro k'
    by_cases hk : k' = k
    · subst hk
      rw [after_ocls_self]
      exact ⟨cells, cells', hcells.holds, hcells'.holds, .inl ⟨malloc, a, rfl, hchange⟩⟩
    · obtain ⟨other, hother⟩ := h.lists k'
      rw [after_ocls_of_ne hk]
      exact ⟨other, other, hother.holds, hother.holds, .inr rfl⟩

theorem associate_list (k' : κ) (c : Client) : ((s.associate k p c).ocls k').list = (s.ocls k').list := by
  unfold Server.associate
  split
  · rfl
  · by_cases hk : k' = k
    · rw [hk, house_ocls_self]
    · rw [house_ocls_of_ne hk]

/-- A step that frees no client in a slot keeps the invariant. -/
theorem Holds.step (h : s.Holds) {op : ServerOp κ} (hmeets : s.Meets op) :
    ∃ s', s.step op = some s' ∧ s'.Holds ∧ s.Changes op s' := by
  cases op with
  | ocl k malloc a =>
    unfold Server.step
    by_cases ha : a.associates = true
    · exact ⟨s, if_pos ha, h, h.changes_same (fun _ => rfl) _⟩
    · dsimp only
      rw [if_neg ha]
      exact h.oclStep k malloc (Bool.not_eq_true _ ▸ ha)
  | free p => exact ⟨_, rfl, h.free hmeets, h.changes_same (fun k => by rw [free_ocls]) _⟩
  | connect malloc => exact ⟨_, rfl, h.connect (malloc.fresh _), h.changes_same (fun _ => rfl) _⟩
  | associate k p =>
    refine ⟨_, rfl, h.pendingStep p ?_ _⟩
    intro c hc hpending
    split_ifs
    · exact ⟨h, fun _ => rfl⟩
    · exact ⟨h.associate hc hpending, fun k' => associate_list k' c.client⟩
  | drop p =>
    refine ⟨_, rfl, h.pendingStep p ?_ _⟩
    intro c hc hpending
    exact ⟨h.setPending hc hpending rfl, fun _ => rfl⟩
  | unknown p =>
    refine ⟨_, rfl, h.pendingStep p ?_ _⟩
    intro c hc hpending
    exact ⟨h.setPending hc hpending (h.waiting p c hc hpending), fun _ => rfl⟩

/-- Once a client in a slot is freed, the slot leads to no client. -/
theorem Holds.meets_of_sound (h : s.Holds) {op : ServerOp κ} (hstep : s.step op = some s') (hsound : s'.Sound) :
    s.Meets op := by
  cases op with
  | free p =>
    intro c hc hdeparted k i hslot
    obtain rfl : s.free p = s' := Option.some.inj hstep
    obtain ⟨cells, hat⟩ := hsound k
    rw [← free_ocls (p := p)] at hslot
    obtain ⟨d, hd, -⟩ := hat.slots i p hslot
    rw [free_departed hc hdeparted, find_remove h.keys hc, if_pos rfl] at hd
    cases hd
  | ocl | connect | associate | drop | unknown => trivial

end Holds

section Runs

variable {κ : Type} [DecidableEq κ]

theorem next_holds (s : Option (Server κ)) (op : ServerOp κ) (h : ∃ x, s = some x ∧ x.Holds)
    (hmeets : ∀ x ∈ s, x.Meets op) : ∃ x, next s op = some x ∧ x.Holds := by
  obtain ⟨x, rfl, hx⟩ := h
  obtain ⟨x', hx', hholds, -⟩ := hx.step (hmeets x rfl)
  exact ⟨x', hx', hholds⟩

/-- The answer of a connected client finds the event that the client was asked about. -/
theorem asked_event_listed (parms : Parms) (maxClients : κ → ℕ) (afuEvent : κ → AfuEvent) {ops : List (ServerOp κ)}
    (hmeets : Along next (fun s op => ∀ x ∈ s, x.Meets op) (some (init parms maxClients afuEvent)) ops) :
    ∃ s, ops.foldl next (some (init parms maxClients afuEvent)) = some s ∧
      ∀ k i p c id, (s.ocls k).slots i = some p → s.find p = some c → c.client.state ≠ .none →
        c.client.memAccess = some id → ∃ e ∈ (s.ocls k).ocl.list, e.id = id := by
  obtain ⟨s, hs, h⟩ := hmeets.invariant (fun s => ∃ x, s = some x ∧ x.Holds) next_holds
    ⟨_, rfl, init_holds parms maxClients afuEvent⟩
  refine ⟨s, hs, ?_⟩
  intro k i p c id hslot hc hstate hmem
  exact (h.tidy k).named i c.client id (view_client hslot hc) hstate hmem

/-- In every run the lists of commands and the slots are in order in every state, and every step changes a list by an
event at most, just when no client is freed while it is in a slot. -/
theorem server_sound_iff (parms : Parms) (maxClients : κ → ℕ) (afuEvent : κ → AfuEvent) (ops : List (ServerOp κ)) :
    ((∀ pre, pre <+: ops → ∃ s, pre.foldl next (some (init parms maxClients afuEvent)) = some s ∧ s.Sound) ∧
      Along next (fun s op => ∀ x ∈ s, ∀ x' ∈ x.step op, x.Changes op x') (some (init parms maxClients afuEvent)) ops) ↔
    Along next (fun s op => ∀ x ∈ s, x.Meets op) (some (init parms maxClients afuEvent)) ops := by
  have hinit : ∃ s, some (init parms maxClients afuEvent) = some s ∧ s.Holds :=
    ⟨_, rfl, init_holds parms maxClients afuEvent⟩
  have hiff := along_iff_prefixes_of (fun s => ∃ x : Server κ, s = some x ∧ x.Holds)
    (fun s => ∃ x : Server κ, s = some x ∧ x.Sound) ?_ next_holds ?_ hinit ops
  · rw [hiff]
    refine and_iff_left_of_imp (fun hmeets => ?_)
    refine hmeets.shows (fun s => ∃ x, s = some x ∧ x.Holds) ?_ hinit
    intro s op h hmeets
    refine ⟨next_holds s op h hmeets, ?_⟩
    obtain ⟨x, rfl, hx⟩ := h
    obtain ⟨x', hx', -, hchange⟩ := hx.step (hmeets x rfl)
    rintro _ ⟨⟩ y hy
    obtain rfl := Option.some.inj (hx'.symm.trans hy)
    exact hchange
  · rintro _ ⟨x, rfl, hx⟩
    exact ⟨x, rfl, hx.sound⟩
  · rintro _ op ⟨x, rfl, hx⟩ ⟨x', hx', hsound⟩ _ ⟨⟩
    exact hx.meets_of_sound hx' hsound

end Runs

/-- The client of the second slot departs and is freed before the loop has emptied the slot, and the next one to connect
is given its memory. -/
def reuseOps : List (ServerOp Unit) :=
  [.connect .above, .associate () 1, .connect .above, .associate () 2, .ocl () .above (.client 1 .detach),
    .ocl () .above (.settle 1), .free 2, .connect .above]

/-- The second slot then leads to a client that has asked for no slot and whose context is 0. -/
theorem server_reuse_unsound :
    ∃ s, reuseOps.foldl next (some (init (.quiet 128 (by simp)) (fun _ => 2) (fun _ => sampleAfu))) = some s ∧
      (s.ocls ()).slots 1 = some 2 ∧ s.find 2 = some ⟨true, connectedClient⟩ ∧ ¬s.Sound := by
  have hrun : (reuseOps.foldl next (some (init (.quiet 128 (by simp)) (fun _ => 2) (fun _ => sampleAfu)))).map
      (fun s => ((s.ocls ()).slots 1, s.find 2)) = some (some 2, some ⟨true, connectedClient⟩) := by decide +kernel
  obtain ⟨s, hs, hled⟩ := Option.map_eq_some_iff.mp hrun
  obtain ⟨hslot, hfind⟩ := Prod.mk.inj hled
  refine ⟨s, hs, hslot, hfind, ?_⟩
  intro hsound
  obtain ⟨cells, hat⟩ := hsound ()
  obtain ⟨c, hc, hcontext, -⟩ := hat.slots 1 2 hslot
  obtain rfl := Option.some.inj (hfind.symm.trans hc)
  cases hcontext

end Server

end Ocse
