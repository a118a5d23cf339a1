import Ocse.SlotReuse
import Ocse.ResponseProgress

/-!
# Routing by acTag

`assign_actag` writes the tag into the client's slot. It does not take the tag away from a client that has
it, a client starts with tag 0 as if it had been assigned, lookups take the first slot with the tag, and
the command itself is subject to the check for duplicate tags. `Routing` follows the bindings that the AFU
has asked for, to compare them with what the slots do.
-/

namespace Ocse

/-! ## Bindings -/

/-- The binding that a step asks for: the tag, the slot of the client that `bdf` and `pasid` name, and the
client. -/
def Ocl.binds (s : Ocl) : Action → Option (UInt16 × ℕ × Client)
  | .cmd _ =>
      if s.halted = false ∧ s.afuEvent.afuCmd.valid ≠ 0 ∧
          s.afuEvent.afuCmd.opcode = afuCmdAssignActag then
        (findClientByPasidAndBdf s s.afuEvent.afuCmd.bdf s.afuEvent.afuCmd.pasid).bind (fun i =>
          (s.client i).map (fun c => (s.afuEvent.afuCmd.actag, i, c)))
      else none
  | _ => none

/-- The engine, the client to which each tag was bound last, and the clients that were ever bound. -/
structure Routing where
  ocl : Ocl
  bound : UInt16 → Option ℕ
  assigned : ℕ → Bool

def Routing.step (x : Routing) (a : Action) : Routing :=
  match x.ocl.binds a with
  | none => { x with ocl := x.ocl.step a }
  | some (t, _, c) =>
      { ocl := x.ocl.step a
        bound := Function.update x.bound t (some c.id)
        assigned := Function.update x.assigned c.id true }

/-- The acTag of the command that created an event. -/
def actagOf (trace : List Obs) (id : ℕ) : Option UInt16 :=
  trace.findSome? (fun
    | .added e cmd _ => if e.id = id then some cmd.actag else none
    | _ => none)

/-- What a step adds to the record. -/
def Ocl.news (s : Ocl) (a : Action) : List Obs := (s.step a).trace.drop s.trace.length

/-- Messages and new events go where the tag is bound, and a binding that is asked for is made. -/
structure Routing.Routed (x : Routing) (a : Action) : Prop where
  sent : ∀ c id bytes, .sent c id bytes ∈ x.ocl.news a →
    ∃ t, actagOf x.ocl.trace id = some t ∧ x.bound t = some c
  added : ∀ e cmd c, .added e cmd c ∈ x.ocl.news a → x.bound cmd.actag = some c
  binds : ∀ t i c, x.ocl.binds a = some (t, i, c) →
    ∃ c', (x.ocl.step a).client i = some c' ∧ c'.id = c.id ∧ c'.actag = t

/-! ## Steps on which the slots follow the bindings -/

/-- No other client has the tag, no other client's open event carries it, and `assign_actag` does not come
with an afutag in use. -/
def Ocl.Binds (s : Ocl) (t : UInt16) (i : ℕ) : Prop :=
  (∀ j < s.maxClients, j ≠ i → ∀ d ∈ s.client j, d.actag ≠ t) ∧
    (∀ e ∈ s.list, e.state ≠ .done → e.context ≠ i → actagOf s.trace e.id ≠ some t) ∧
    ∀ e ∈ s.list, e.afutag ≠ s.afuEvent.afuCmd.afutag

instance (s : Ocl) (t : UInt16) (i : ℕ) : Decidable (s.Binds t i) :=
  inferInstanceAs (Decidable ((∀ j < s.maxClients, j ≠ i → ∀ d ∈ s.client j, d.actag ≠ t) ∧
    (∀ e ∈ s.list, e.state ≠ .done → e.context ≠ i → actagOf s.trace e.id ≠ some t) ∧
    ∀ e ∈ s.list, e.afutag ≠ s.afuEvent.afuCmd.afutag))

/-- A command with acTag 0 comes only when every client has been assigned a tag. -/
def Routing.Assigned (x : Routing) : Action → Prop
  | .cmd _ => x.ocl.afuEvent.afuCmd.valid ≠ 0 → x.ocl.afuEvent.afuCmd.opcode ≠ afuCmdAssignActag →
      x.ocl.afuEvent.afuCmd.actag = 0 →
      ∀ j < x.ocl.maxClients, ∀ d ∈ x.ocl.client j, x.assigned d.id = true
  | _ => True

instance (x : Routing) (a : Action) : Decidable (x.Assigned a) :=
  match a with
  | .cmd _ => inferInstanceAs (Decidable (x.ocl.afuEvent.afuCmd.valid ≠ 0 →
      x.ocl.afuEvent.afuCmd.opcode ≠ afuCmdAssignActag → x.ocl.afuEvent.afuCmd.actag = 0 →
      ∀ j < x.ocl.maxClients, ∀ d ∈ x.ocl.client j, x.assigned d.id = true))
  | .idle _ | .signalAfu | .getAfuEvents _ | .mmio _ | .response _ | .bufferWrite _ | .pendingSent _
  | .client _ _ | .cmdDataRead | .writeCmd _ | .touch _ | .interrupt _ | .writeBeOrAmo _ | .settle _
  | .clear _ | .associate _ => isTrue trivial

def Routing.Orderly (x : Routing) (a : Action) : Prop :=
  Timely x.ocl a ∧ (∀ b ∈ x.ocl.binds a, x.ocl.Binds b.1 b.2.1) ∧ x.Assigned a

instance (x : Routing) (a : Action) : Decidable (x.Orderly a) :=
  inferInstanceAs (Decidable (Timely x.ocl a ∧ (∀ b ∈ x.ocl.binds a, x.ocl.Binds b.1 b.2.1) ∧
    x.Assigned a))

/-! ## The invariant -/

structure Routing.Faithful (x : Routing) : Prop where
  wf : x.ocl.Wf
  owned : Owned x.ocl
  assigned : ∀ i c, x.ocl.client i = some c → x.assigned c.id = true → x.bound c.actag = some c.id
  unassigned : ∀ i c, x.ocl.client i = some c → x.assigned c.id = false → c.actag = 0
  outstanding : ∀ e ∈ x.ocl.list, e.state ≠ .done → ∀ c, CreatedFor x.ocl.trace e.id c →
    ∃ t, actagOf x.ocl.trace e.id = some t ∧ x.bound t = some c
  fresh : ∀ id, x.ocl.nextId ≤ id → x.assigned id = false
  distinct : ∀ i j c d, x.ocl.client i = some c → x.ocl.client j = some d → c.id = d.id → i = j
  created : ∀ id, x.ocl.nextId ≤ id → actagOf x.ocl.trace id = none

theorem actagOf_append (trace obs : List Obs) (id : ℕ) :
    actagOf (trace ++ obs) id = (actagOf trace id).or (actagOf obs id) := by
  unfold actagOf
  rw [List.findSome?_append]

theorem actagOf_append_of_some {trace : List Obs} {id : ℕ} {t : UInt16} (h : actagOf trace id = some t)
    (obs : List Obs) : actagOf (trace ++ obs) id = some t := by
  rw [actagOf_append, h]
  rfl

theorem news_eq {s : Ocl} {a : Action} {obs : List Obs} (h : (s.step a).trace = s.trace ++ obs) :
    s.news a = obs := by
  unfold Ocl.news
  rw [h, List.drop_left]

section Steps

variable {x : Routing} {a : Action}

theorem binds_eq_some {s : Ocl} {t : UInt16} {i : ℕ} {c : Client} (h : s.binds a = some (t, i, c)) :
    (∃ d, a = .cmd d) ∧ s.halted = false ∧ s.afuEvent.afuCmd.valid ≠ 0 ∧
      s.afuEvent.afuCmd.opcode = afuCmdAssignActag ∧
      findClientByPasidAndBdf s s.afuEvent.afuCmd.bdf s.afuEvent.afuCmd.pasid = some i ∧
      s.client i = some c ∧ s.afuEvent.afuCmd.actag = t := by
  cases a with
  | cmd d =>
    simp only [Ocl.binds] at h
    split_ifs at h with hcond
    obtain ⟨j, hfind, hmap⟩ := Option.bind_eq_some_iff.mp h
    obtain ⟨e, he, hpair⟩ := Option.map_eq_some_iff.mp hmap
    simp only [Prod.mk.injEq] at hpair
    obtain ⟨rfl, rfl, rfl⟩ := hpair
    exact ⟨⟨d, rfl⟩, hcond.1, hcond.2.1, hcond.2.2, hfind, he, rfl⟩
  | _ => simp [Ocl.binds] at h

theorem handleCmd_of_free {s : Ocl} (d : Draws) (hvalid : s.afuEvent.afuCmd.valid ≠ 0)
    (hfree : ∀ e ∈ s.list, e.afutag ≠ s.afuEvent.afuCmd.afutag) :
    ∃ afuEvent dataIsValid, handleCmd s d = parseCmd { s with
      afuEvent, trace := s.trace ++ [Obs.command s.afuEvent.afuCmd] } d s.afuEvent.afuCmd dataIsValid := by
  have hany : s.list.any (fun e => e.afutag = s.afuEvent.afuCmd.afutag) = false := by
    simpa using hfree
  unfold handleCmd afuTlxReadCmdAndData
  rw [if_neg hvalid]
  dsimp only
  rw [hany]
  exact ⟨_, _, rfl⟩

/-- An `assign_actag` whose afutag is free writes the tag into the slot of the client it names. -/
theorem binds_step {s : Ocl} {t : UInt16} {i : ℕ} {c : Client} (h : s.binds a = some (t, i, c))
    (hfree : ∀ e ∈ s.list, e.afutag ≠ s.afuEvent.afuCmd.afutag) :
    (s.step a).list = s.list ∧ (s.step a).nextId = s.nextId ∧
      (s.step a).client = Function.update s.client i (some { c with actag := t }) ∧
      (s.step a).trace = s.trace ++ [.command s.afuEvent.afuCmd] := by
  obtain ⟨⟨d, rfl⟩, hrunning, hvalid, hop, hfind, hc, rfl⟩ := binds_eq_some h
  obtain ⟨afuEvent, dataIsValid, hstep⟩ := handleCmd_of_free d hvalid hfree
  have hact : s.step (.cmd d) = handleCmd s d := by simp [Ocl.step, hrunning, Ocl.act]
  have hfind' : findClientByPasidAndBdf ({ s with
      afuEvent, trace := s.trace ++ [Obs.command s.afuEvent.afuCmd] }.keepData dataIsValid)
      s.afuEvent.afuCmd.bdf s.afuEvent.afuCmd.pasid = some i := by
    rw [← hfind]
    cases dataIsValid <;> rfl
  have hparse : ∀ s₁ : Ocl, parseCmd s₁ d s.afuEvent.afuCmd dataIsValid = assignActag
      (s₁.keepData dataIsValid) s.afuEvent.afuCmd.bdf s.afuEvent.afuCmd.pasid s.afuEvent.afuCmd.actag :=
    fun s₁ => if_pos hop
  rw [hact, hstep, hparse]
  unfold assignActag
  rw [hfind']
  cases dataIsValid <;> simp [Ocl.keepData, Ocl.setClient, hc]

theorem Routing.step_of_none (h : x.ocl.binds a = none) :
    x.step a = { x with ocl := x.ocl.step a } := by
  unfold Routing.step
  rw [h]

theorem Routing.step_of_some {t : UInt16} {i : ℕ} {c : Client} (h : x.ocl.binds a = some (t, i, c)) :
    x.step a = { ocl := x.ocl.step a
                 bound := Function.update x.bound t (some c.id)
                 assigned := Function.update x.assigned c.id true } := by
  unfold Routing.step
  rw [h]

/-- The lookup of a command's tag finds the client to which it is bound. -/
theorem Routing.Faithful.lookup (h : x.Faithful) {d : Draws} (ha : a = .cmd d) (hok : x.Assigned a)
    {cmd : AfuTlxCmd} (hoffers : x.ocl.Offers cmd) (hop : cmd.opcode ≠ afuCmdAssignActag) {i : ℕ}
    (hslot : findClientByActag x.ocl cmd.actag = some i) {c : Client} (hc : x.ocl.client i = some c) :
    x.bound cmd.actag = some c.id := by
  subst ha
  obtain ⟨hvalid, rfl⟩ := hoffers
  obtain ⟨hi, c', hc', htag⟩ := findSlot_eq_some hslot
  rw [hc] at hc'
  cases hc'
  have htag : c.actag = x.ocl.afuEvent.afuCmd.actag := by simpa using htag
  cases hassigned : x.assigned c.id with
  | true =>
    rw [← htag]
    exact h.assigned i c hc hassigned
  | false =>
    have hzero := h.unassigned i c hc hassigned
    have hall := hok hvalid hop (htag ▸ hzero) i hi c hc
    simp [hassigned] at hall

theorem Routing.Faithful.routed (h : x.Faithful) (hok : x.Orderly a) : x.Routed a := by
  obtain ⟨obs, htrace, hobs⟩ := step_trace (s := x.ocl) (a := a)
  obtain ⟨htimely, hbinds, hassigned⟩ := hok
  constructor
  · intro c id bytes hmem
    rw [news_eq htrace] at hmem
    cases hobs _ hmem with
    | sent e he hopen d hd =>
      exact h.outstanding e he hopen d.id (h.owned.owner e he hopen d hd)
    | other _ hsent hadded => exact absurd rfl (hsent c id bytes)
  · intro e cmd c hmem
    rw [news_eq htrace] at hmem
    cases hobs _ hmem with
    | added _ _ d draws ha hoffers hop hslot hc hid hnext =>
      exact h.lookup ha hassigned hoffers hop hslot hc
    | other _ hsent hadded => exact absurd rfl (hadded e cmd c)
  · intro t i c hb
    obtain ⟨-, -, hclient, -⟩ := binds_step hb (hbinds _ hb).2.2
    exact ⟨{ c with actag := t }, by rw [hclient, Function.update_self], rfl, rfl⟩

/-- What a step has created, or was there. -/
theorem createdFor_step {s : Ocl} {id c : ℕ} (h : CreatedFor (s.step a).trace id c) (hlt : id < s.nextId) :
    CreatedFor s.trace id c := by
  obtain ⟨obs, htrace, hobs⟩ := step_trace (s := s) (a := a)
  obtain ⟨e, cmd, hmem, rfl⟩ := h
  rw [htrace, List.mem_append] at hmem
  rcases hmem with hmem | hmem
  · exact ⟨e, cmd, hmem, rfl⟩
  · cases hobs _ hmem with
    | added _ _ d _ _ hoffers hop hslot hc hid hnext => omega
    | other _ hsent hadded => exact absurd rfl (hadded e cmd c)

theorem actagOf_step_none {s : Ocl} (hnone : ∀ id, s.nextId ≤ id → actagOf s.trace id = none) {id : ℕ}
    (hid : (s.step a).nextId ≤ id) : actagOf (s.step a).trace id = none := by
  obtain ⟨obs, htrace, hobs⟩ := step_trace (s := s) (a := a)
  have hold := hnone id (Nat.le_trans step_nextId hid)
  rw [htrace, actagOf_append, hold, Option.none_or]
  unfold actagOf
  rw [List.findSome?_eq_none_iff]
  intro o ho
  cases hobs o ho with
  | sent e he hopen c hc bytes => rfl
  | added cmd e c _ _ hoffers hop hslot hc hnew hnext => 
    have hne : e.id ≠ id := by omega
    simp [hne]
  | other _ hsent hadded =>
    cases o with
    | added e cmd c => exact absurd rfl (hadded e cmd c)
    | _ => rfl

theorem distinct_step {s : Ocl} (hs : s.Wf)
    (h : ∀ i j c d, s.client i = some c → s.client j = some d → c.id = d.id → i = j) (i j : ℕ)
    (c' d' : Client) (hc' : (s.step a).client i = some c') (hd' : (s.step a).client j = some d')
    (heq : c'.id = d'.id) : i = j := by
  cases step_tenant hc' with
  | stays c hc hid _ _ _ _ =>
    cases step_tenant hd' with
    | stays d hd hid' _ _ _ _ => exact h i j c d hc hd (by rw [← hid, heq, hid'])
    | connects hd hid' _ _ _ =>
      have := (hs.slot i c hc).2.2
      omega
  | connects hc hid _ _ hothers =>
    cases step_tenant hd' with
    | stays d hd hid' _ _ _ _ =>
      have := (hs.slot j d hd).2.2
      omega
    | connects hd hid' _ _ _ =>
      -- only one client connects in a step
      by_contra hne
      rw [hothers j (Ne.symm hne), hd] at hd'
      cases hd'

/-- A step that binds nothing. -/
theorem Routing.Faithful.step_of_none (h : x.Faithful) (hok : x.Orderly a)
    (hb : x.ocl.binds a = none) : (x.step a).Faithful := by
  obtain ⟨htimely, -, hassigned⟩ := hok
  rw [Routing.step_of_none hb]
  have howned := step_owned h.wf htimely h.owned
  -- a tag that changes in a slot would have been asked for
  have hactag : ∀ {i c c'}, x.ocl.client i = some c →
      (c'.actag = c.actag ∨ ∃ cmd d, a = .cmd d ∧ x.ocl.halted = false ∧ x.ocl.Offers cmd ∧
        cmd.opcode = afuCmdAssignActag ∧ findClientByPasidAndBdf x.ocl cmd.bdf cmd.pasid = some i ∧
        c'.actag = cmd.actag) → Client.actag c' = c.actag := by
    intro i c c' hc htag
    rcases htag with hsame | ⟨cmd, d, rfl, hrunning, ⟨hvalid, rfl⟩, hop, hfind, -⟩
    · exact hsame
    · simp [Ocl.binds, hrunning, hvalid, hop, hfind, hc] at hb
  refine ⟨step_wf h.wf a, howned, ?_, ?_, ?_, ?_, ?_, ?_⟩
  · intro i c' hc' hassigned'
    cases step_tenant hc' with
    | stays c hc hid _ _ _ htag =>
      rw [hactag hc htag, hid]
      exact h.assigned i c hc (hid ▸ hassigned')
    | connects hc hid _ _ _ =>
      have hfresh := h.fresh c'.id (by omega)
      rw [hfresh] at hassigned'
      cases hassigned'
  · intro i c' hc' hassigned'
    cases step_tenant hc' with
    | stays c hc hid _ _ _ htag =>
      rw [hactag hc htag]
      exact h.unassigned i c hc (hid ▸ hassigned')
    | connects hc hid _ hzero _ => exact hzero
  · intro e' he' hopen c hcreated
    rcases step_mem_list h.wf he' with ⟨e, he, hf⟩ | ⟨cmd, d, hadds⟩
    · have hopen : e.state ≠ .done := fun hdone => hopen (hf.done hdone)
      rw [hf.id] at hcreated ⊢
      obtain ⟨t, htag, hbound⟩ := h.outstanding e he hopen c
        (createdFor_step hcreated (h.wf.fresh e he))
      obtain ⟨obs, htrace, -⟩ := step_trace (s := x.ocl) (a := a)
      exact ⟨t, by rw [htrace]; exact actagOf_append_of_some htag obs, hbound⟩
    · obtain ⟨draws, ha⟩ := hadds.action
      have hbound := h.lookup ha hassigned hadds.offers hadds.opcode hadds.slot hadds.client
      have hown : CreatedFor (x.ocl.step a).trace e'.id d.id :=
        ⟨e', cmd, by rw [hadds.added]; simp, rfl⟩
      obtain rfl := howned.unique _ _ _ hown hcreated
      refine ⟨cmd.actag, ?_, hbound⟩
      have hnone := h.created e'.id hadds.id.ge
      rw [hadds.added, actagOf_append, hnone]
      simp [actagOf]
  · exact fun id hid => h.fresh id (Nat.le_trans step_nextId hid)
  · exact distinct_step h.wf h.distinct
  · exact fun id hid => actagOf_step_none h.created hid

/-- A step that binds a tag to the client in slot `i`. -/
theorem Routing.Faithful.step_of_some (h : x.Faithful) (hok : x.Orderly a) {t : UInt16} {i : ℕ}
    {c : Client} (hb : x.ocl.binds a = some (t, i, c)) : (x.step a).Faithful := by
  obtain ⟨htimely, hbinds, -⟩ := hok
  obtain ⟨hothers, hopen, hfree⟩ := hbinds _ hb
  obtain ⟨hlist, hnextId, hclient, htrace⟩ := binds_step hb hfree
  obtain ⟨-, -, -, -, -, hc, -⟩ := binds_eq_some hb
  rw [Routing.step_of_some hb]
  have hslot : ∀ {j d}, (x.ocl.step a).client j = some d →
      (j = i ∧ d = { c with actag := t }) ∨ (j ≠ i ∧ x.ocl.client j = some d) := by
    intro j d hd
    rw [hclient, update_eq_some_iff] at hd
    exact hd.imp_left (fun hnew => ⟨hnew.1, (Option.some.inj hnew.2).symm⟩)
  refine ⟨step_wf h.wf a, step_owned h.wf htimely h.owned, ?_, ?_, ?_, ?_, ?_, ?_⟩
  · intro j d hd hassigned
    rcases hslot hd with ⟨rfl, rfl⟩ | ⟨hj, hd⟩
    · exact Function.update_self ..
    · have hne : d.id ≠ c.id := fun heq => hj (h.distinct j i d c hd hc heq)
      have hassigned : x.assigned d.id = true := by
        simpa [Function.update_of_ne hne] using hassigned
      have htag : d.actag ≠ t := hothers j (h.wf.slot j d hd).1 hj d hd
      change Function.update x.bound t (some c.id) d.actag = some d.id
      rw [Function.update_of_ne htag]
      exact h.assigned j d hd hassigned
  · intro j d hd hassigned
    rcases hslot hd with ⟨rfl, rfl⟩ | ⟨hj, hd⟩
    · simp [Function.update_self] at hassigned
    · have hne : d.id ≠ c.id := fun heq => hj (h.distinct j i d c hd hc heq)
      exact h.unassigned j d hd (by simpa [Function.update_of_ne hne] using hassigned)
  · intro e he hstate c₀ hcreated
    have hmem : e ∈ x.ocl.list := hlist ▸ he
    have hold := createdFor_step hcreated (h.wf.fresh e hmem)
    obtain ⟨t₀, htag, hbound⟩ := h.outstanding e hmem hstate c₀ hold
    refine ⟨t₀, ?_, ?_⟩
    · change actagOf (x.ocl.step a).trace e.id = some t₀
      rw [htrace]
      exact actagOf_append_of_some htag _
    · change Function.update x.bound t (some c.id) t₀ = some c₀
      by_cases ht : t₀ = t
      · subst ht
        have hcontext : e.context = i := by
          by_contra hne
          exact hopen e hmem hstate hne htag
        have hown := h.owned.owner e hmem hstate c (by rw [hcontext, hc])
        rw [Function.update_self, h.owned.unique _ _ _ hown hold]
      · rw [Function.update_of_ne ht]
        exact hbound
  · intro id hid
    have hid : x.ocl.nextId ≤ id := hnextId ▸ hid
    have hlt := (h.wf.slot i c hc).2.2
    change Function.update x.assigned c.id true id = false
    rw [Function.update_of_ne (by omega)]
    exact h.fresh id hid
  · exact distinct_step h.wf h.distinct
  · exact fun id hid => actagOf_step_none h.created hid

theorem Routing.Faithful.step (h : x.Faithful) (hok : x.Orderly a) : (x.step a).Faithful := by
  cases hb : x.ocl.binds a with
  | none => exact h.step_of_none hok hb
  | some b =>
    obtain ⟨t, i, c⟩ := b
    exact h.step_of_some hok hb

end Steps

/-! ## Whole runs -/

/-- Nothing is bound when the engine starts. -/
def Routing.init (parms : Parms) (maxClients : ℕ) (afuEvent : AfuEvent) : Routing where
  ocl := Ocl.init parms maxClients afuEvent
  bound _ := none
  assigned _ := false

theorem Routing.init_faithful (parms : Parms) (maxClients : ℕ) (afuEvent : AfuEvent) :
    (Routing.init parms maxClients afuEvent).Faithful := by
  refine ⟨Ocl.init_wf _ _ _, ?_, ?_, ?_, ?_, ?_, ?_, ?_⟩
  · constructor <;> simp [Routing.init, Ocl.init, CreatedFor]
  all_goals simp [Routing.init, Ocl.init, actagOf]

/-- As long as tags are not bound twice, no tag is taken from an outstanding command, acTag 0 is used only
when everybody has a tag, `assign_actag` comes with a free afutag and no command comes for a departed
client, every step routes by the latest binding. -/
theorem routing_orderly (parms : Parms) (maxClients : ℕ) (afuEvent : AfuEvent) (as : List Action)
    (horderly : Along Routing.step Routing.Orderly (Routing.init parms maxClients afuEvent) as) :
    Along Routing.step Routing.Routed (Routing.init parms maxClients afuEvent) as := by
  have hfaithful := Routing.init_faithful parms maxClients afuEvent
  generalize Routing.init parms maxClients afuEvent = x at horderly hfaithful ⊢
  induction as generalizing x with
  | nil => trivial
  | cons a as ih =>
    exact ⟨hfaithful.routed horderly.1, ih _ horderly.2 (hfaithful.step horderly.1)⟩

/-- Binds an acTag to the client of a slot. -/
def assignTo (slot : UInt32) (actag : UInt16) : AfuTlxCmd :=
  { tlxEventReset.afuCmd with opcode := afuCmdAssignActag, afutag := 9, pasid := slot, actag }

/-- Both clients get a tag of their own, and a read of the second is served. -/
def ownTagsRun : List Action :=
  .associate 0 :: .associate 0 :: { Turn.quiet with socket := (assignTo 0 1).frame }.actions 2 ++
    { Turn.quiet with socket := (assignTo 1 2).frame }.actions 2 ++
    { Turn.quiet with socket := ({ sampleRead with actag := 2 } : AfuTlxCmd).frame }.actions 2 ++
    Turn.quiet.actions 2

theorem ownTagsRun_routed :
    Along Routing.step Routing.Orderly (Routing.init (.quiet 128 (by simp)) 2 sampleAfu) ownTagsRun ∧
      Along Routing.step Routing.Routed (Routing.init (.quiet 128 (by simp)) 2 sampleAfu) ownTagsRun := by
  have horderly : Along Routing.step Routing.Orderly (Routing.init (.quiet 128 (by simp)) 2 sampleAfu)
      ownTagsRun := by decide +kernel
  exact ⟨horderly, routing_orderly _ 2 sampleAfu ownTagsRun horderly⟩

/-- The tag of the first client has been bound to the second, and a read with it is at the interface. -/
def staleTagStart : List Action :=
  .associate 0 :: .associate 0 :: { Turn.quiet with socket := (assignTo 0 1).frame }.actions 2 ++
    { Turn.quiet with socket := (assignTo 1 1).frame }.actions 2 ++
    [.signalAfu, .getAfuEvents ({ sampleRead with actag := 1 } : AfuTlxCmd).frame]

/-- The read is accepted for the first client. -/
theorem staleTag_misrouted :
    ¬ Along Routing.step Routing.Routed (Routing.init (.quiet 128 (by simp)) 2 sampleAfu)
      (staleTagStart ++ [.cmd .quiet]) := by
  intro h
  have hadded := h.at.added
  have hnews : ((staleTagStart.foldl Routing.step (Routing.init (.quiet 128 (by simp)) 2 sampleAfu)).ocl.news
      (.cmd .quiet)).filterMap Obs.addedFor = [(0, 2)] := by decide +kernel
  have htag : ((staleTagStart.foldl Routing.step (Routing.init (.quiet 128 (by simp)) 2 sampleAfu)).ocl.news
      (.cmd .quiet)).all (fun | .added _ cmd _ => cmd.actag = 1 | _ => true) = true := by decide +kernel
  have hbound : (staleTagStart.foldl Routing.step (Routing.init (.quiet 128 (by simp)) 2 sampleAfu)).bound 1 =
      some 1 := by decide +kernel
  obtain ⟨o, ho, haddedFor⟩ := List.mem_filterMap.mp (show (0, 2) ∈ _ by rw [hnews]; simp)
  cases o with
  | added e cmd c =>
    have hactag : cmd.actag = 1 := by simpa using List.all_eq_true.mp htag _ ho
    have hrouted := hadded e cmd c ho
    rw [hactag, hbound, Option.some.injEq] at hrouted
    simp only [Obs.addedFor, Option.some.injEq, Prod.mk.injEq] at haddedFor
    exact absurd (hrouted.trans haddedFor.1) (by decide)
  | _ => simp [Obs.addedFor] at haddedFor

end Ocse
