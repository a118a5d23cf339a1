import Ocse.TagLife

/-!
# Slots and their tenants

Events name their client by slot. `client_cmd` ends the events of a departed client once, and its slot is
cleared one turn later, so a command that comes in between belongs to the next tenant. Without such a
command, an event is only ever passed on to the client that held the slot when it was created.
-/

namespace Ocse

/-! ## What a step does to the list and the slots -/

section Steps

variable {s s' : Ocl} {a : Action}

/-- An event and what a step makes of it. -/
structure Follows (s : Ocl) (x x' : CmdEvent) : Prop where
  id : x'.id = x.id
  context : x'.context = x.context
  done : x.state = .done → x'.state = .done
  housed : x'.responding = true → x.responding = true ∨ (s.client x.context).isSome = true

theorem Follows.refl (x : CmdEvent) : Follows s x x := ⟨rfl, rfl, fun h => h, .inl⟩

theorem Follows.of_getClient {e e' : CmdEvent} (hid : e'.id = e.id) (hcontext : e'.context = e.context)
    (hdone : e.state = .done → e'.state = .done) (hc : (s.getClient e).isSome = true) :
    Follows s e e' := by
  refine ⟨hid, hcontext, hdone, fun _ => .inr ?_⟩
  obtain ⟨c, hc⟩ := Option.isSome_iff_exists.mp hc
  rw [(getClient_eq_some hc).2]
  rfl

theorem Rewrite.not_buffer {e e' : CmdEvent} (h : Rewrite e e') (hresp : e'.responding = true) :
    e.state ≠ .buffer := by
  cases h with
  | inject code hor hcode =>
    rcases hor with h | h
    · rcases h.state with h | h <;> simp [h]
    · rcases h.2 with h | h <;> simp [h]
  | xlatePending h => rcases h.state with h | h <;> simp [h]
  | intPending h => rcases h.2 with h | h <;> simp [h]
  | readDone htype h => simp [h]
  | beat bus htype h =>
    unfold CmdEvent.nextBeat at hresp
    split_ifs at hresp <;> simp [CmdEvent.responding, h] at hresp
  | redraw resp h => simp [h]

theorem follows_setEvent (hs : s.Wf) {e e' : CmdEvent} (he : e ∈ s.list) (h : Follows s e e')
    (hlist : s'.list = (s.setEvent e').list) {x' : CmdEvent} (hx' : x' ∈ s'.list) :
    ∃ x ∈ s.list, Follows s x x' := by
  rw [hlist] at hx'
  rcases (hs.mem_setEvent he h.id).mp hx' with rfl | ⟨hx, -⟩
  · exact ⟨e, he, h⟩
  · exact ⟨x', hx, .refl x'⟩

/-- The command that a step turns into the event `x'`. -/
structure Adds (s : Ocl) (a : Action) (s' : Ocl) (x' : CmdEvent) (cmd : AfuTlxCmd) (c : Client) :
    Prop where
  action : ∃ d, a = .cmd d
  offers : s.Offers cmd
  opcode : cmd.opcode ≠ afuCmdAssignActag
  slot : findClientByActag s cmd.actag = some x'.context
  client : s.client x'.context = some c
  id : x'.id = s.nextId
  added : s'.trace = s.trace ++ [.command cmd, .added x' cmd c.id]

theorem asked_not_done {e : CmdEvent} {c : Client}
    (hready : (e.Ready ∧ c.memAccess = none) ∨ (e.type = .read ∧ e.state = .casRd)) : e.state ≠ .done := by
  rcases hready with ⟨hready, -⟩ | ⟨-, hcas⟩
  · rcases hready.state with hst | hst <;> simp [hst]
  · simp [hcas]

theorem step_mem_list (hs : s.Wf) {x' : CmdEvent} (hx' : x' ∈ (s.step a).list) :
    (∃ x ∈ s.list, Follows s x x') ∨ ∃ cmd c, Adds s a (s.step a) x' cmd c := by
  cases step_effect s a with
  | quiet h => exact .inl ⟨x', h.list ▸ hx', .refl x'⟩
  | ignore cmd d ha hoffers hassign htag h => exact .inl ⟨x', by rwa [h.list] at hx', .refl x'⟩
  | assign cmd d ha hoffers i c hop hfind hc h => exact .inl ⟨x', by rwa [h.list] at hx', .refl x'⟩
  | add cmd d ha hoffers e c l₁ l₂ hop hfind hc hfresh hnew hlist hlist' hclient hnextId htrace hparms hmax =>
    rw [hlist', List.mem_append, List.mem_cons] at hx'
    rcases hx' with hx | rfl | hx
    · exact .inl ⟨x', hlist ▸ List.mem_append_left _ hx, .refl x'⟩
    · exact .inr ⟨cmd, c, ⟨d, ha⟩, hoffers, hop, hfind, hc, hnew.id, htrace⟩
    · exact .inl ⟨x', hlist ▸ List.mem_append_right _ hx, .refl x'⟩
  | rewrite e e' he hc hr h =>
    obtain ⟨hid, -, hcontext, -⟩ := hr.facts
    have hdone : e.state ≠ .done := by
      rcases hr.state with hst | hst | hst | hst <;> simp [hst]
    refine .inl (follows_setEvent hs he ⟨hid, hcontext, fun h => absurd h hdone, fun hresp => ?_⟩ h.list hx')
    obtain ⟨c, hc, -⟩ := hc (hr.not_buffer hresp)
    rw [(getClient_eq_some hc).2]
    exact .inr rfl
  | ask e c c' bytes he hc hready hbytes hc' h =>
    have hfollows : Follows s e { e with state := e.askedState } :=
      .of_getClient rfl rfl (fun hdone => absurd hdone (asked_not_done hready)) (by rw [hc]; rfl)
    exact .inl (follows_setEvent hs he hfollows h.list hx')
  | raise e c c' he hc hraised hc' h =>
    have hfollows : Follows s e { e with state := .done } :=
      .of_getClient rfl rfl (fun _ => rfl) (by rw [hc]; rfl)
    exact .inl (follows_setEvent hs he hfollows h.list hx')
  | respond e e' he hresp hc he' h =>
    refine .inl (follows_setEvent hs he ?_ h.list hx')
    rcases he' with ⟨hstate, rfl⟩ | ⟨hstate, rfl, -⟩
    · refine .of_getClient (by simp) (by simp) (fun hdone => ?_) hc
      rcases hstate with hst | hst <;> simp [hst] at hdone
    · exact .of_getClient (by simp) (by simp) (by simp) hc
  | finish e he hstate hc hlast h =>
    refine .inl ⟨x', ?_, .refl x'⟩
    rw [h.list] at hx'
    exact mem_of_mem_remove hx'
  | refuse e he hresp hc h =>
    refine .inl (follows_setEvent hs he ?_ h.list hx')
    rw [CmdEvent.backUp_eq]
    exact .of_getClient (by simp) (by simp) (by simp) hc
  | post e resp he hstate hc h =>
    refine .inl ⟨x', ?_, .refl x'⟩
    rw [h.list] at hx'
    exact mem_of_mem_remove hx'
  | answer i input ha e e' c ans he hc hstate hmem he' h =>
    obtain ⟨hcontext, -, hans⟩ := hs.answered he hc hstate hmem he'
    obtain ⟨hid, -, hctx, hdone⟩ := hans.facts
    refine .inl (follows_setEvent hs he ⟨hid, hctx, fun _ => hdone, fun _ => .inr ?_⟩ h.list hx')
    rw [hcontext, hc]
    rfl
  | client i c c' hc hid hmem hstate h => exact .inl ⟨x', by rwa [h.list] at hx', .refl x'⟩
  | terminate i ha c hc hstate h =>
    rw [h.list] at hx'
    obtain ⟨x, hx, rfl⟩ := List.mem_map.mp hx'
    refine .inl ⟨x, hx, ?_⟩
    split_ifs with hopen
    · refine ⟨rfl, rfl, fun _ => rfl, fun _ => .inr ?_⟩
      have hctx : c.context = i := (hs.slot i c hc).2.1
      simp only [CmdEvent.openFor, Bool.and_eq_true, decide_eq_true_eq] at hopen
      rw [hopen.1, hctx, hc]
      rfl
    · exact .refl x
  | clear i ha c hc hstate hidle h => exact .inl ⟨x', by rwa [h.list] at hx', .refl x'⟩
  | associate bdf i hi hc hlist hnextId hclient htrace hparms hmax =>
    exact .inl ⟨x', hlist ▸ hx', .refl x'⟩

/-- A client and what a step makes of it, or a client that has just connected. -/
inductive Tenant (s : Ocl) (a : Action) (i : ℕ) (c' : Client) : Prop
  | stays (c : Client) (hc : s.client i = some c) (hid : c'.id = c.id) (hpasid : c'.pasid = c.pasid)
      (hbdf : c'.bdf = c.bdf)
      (hdeparted : c'.state = .none → c'.idleCycles = 0 →
        (c.state = .none ∧ c.idleCycles = 0) ∨ (a = .settle i ∧ c.state = .none ∧ s.halted = false))
      (hactag : c'.actag = c.actag ∨ ∃ cmd d, a = .cmd d ∧ s.halted = false ∧ s.Offers cmd ∧
        cmd.opcode = afuCmdAssignActag ∧ findClientByPasidAndBdf s cmd.bdf cmd.pasid = some i ∧
        c'.actag = cmd.actag)
  | connects (hc : s.client i = none) (hid : c'.id = s.nextId) (hstate : c'.state = .valid)
      (hactag : c'.actag = 0) (hothers : ∀ j, j ≠ i → (s.step a).client j = s.client j)

theorem tenant_same {i : ℕ} {c : Client} (hc : s.client i = some c) : Tenant s a i c :=
  .stays c hc rfl rfl rfl (fun hstate hidle => .inl ⟨hstate, hidle⟩) (.inl rfl)

theorem tenant_setClient {j i : ℕ} {c' d : Client} (ht : Tenant s a i c') (hclient : s'.client = Function.update s.client i (some c'))
    (hd : s'.client j = some d) : Tenant s a j d := by
  rw [hclient, update_eq_some_iff] at hd
  rcases hd with ⟨rfl, ⟨⟩⟩ | ⟨-, hd⟩
  · exact ht
  · exact tenant_same hd

theorem step_tenant {j : ℕ} {d : Client} (hd : (s.step a).client j = some d) :
    Tenant s a j d := by
  by_cases hhalted : s.halted = true
  · have hstep : s.step a = s := by simp [Ocl.step, hhalted]
    rw [hstep] at hd
    exact tenant_same hd
  have hrunning : s.halted = false := by simpa using hhalted
  have hkept : ∀ {c c' : Client} {i : ℕ}, s.client i = some c →
      (c' = c ∨ c' = c.drop tlxIdleCycles .none) → ∀ m, Tenant s a i { c' with memAccess := m } := by
    intro c c' i hc hc' m
    rcases hc' with rfl | rfl
    · exact .stays c' hc rfl rfl rfl (fun hstate hidle => .inl ⟨hstate, hidle⟩) (.inl rfl)
    · refine .stays c hc rfl rfl rfl (fun _ hidle => ?_) (.inl rfl)
      exact absurd hidle (show tlxIdleCycles ≠ 0 by decide)
  cases step_effect s a with
  | quiet h => exact tenant_same (h.client ▸ hd)
  | ignore cmd d ha hoffers hassign htag h => exact tenant_same (by rwa [h.client] at hd)
  | assign cmd d ha hoffers i c hop hfind hc h =>
    refine tenant_setClient ?_ h.client hd
    exact .stays c hc rfl rfl rfl (fun hstate hidle => .inl ⟨hstate, hidle⟩)
      (.inr ⟨cmd, d, ha, hrunning, hoffers, hop, hfind, rfl⟩)
  | add cmd d ha hoffers e c l₁ l₂ hop hfind hc hfresh hnew hlist hlist' hclient hnextId htrace hparms hmax =>
    exact tenant_same (hclient ▸ hd)
  | rewrite e e' he hc hr h => exact tenant_same (by rwa [h.client] at hd)
  | ask e c c' bytes he hc hready hbytes hc' h =>
    obtain ⟨-, hclient⟩ := getClient_eq_some hc
    exact tenant_setClient (hkept hclient hc' _) h.client hd
  | raise e c c' he hc hraised hc' h =>
    obtain ⟨-, hclient⟩ := getClient_eq_some hc
    exact tenant_setClient (hkept hclient hc' c'.memAccess) h.client hd
  | respond e e' he hresp hc he' h => exact tenant_same (by rwa [h.client] at hd)
  | finish e he hstate hc hlast h => exact tenant_same (by rwa [h.client] at hd)
  | refuse e he hresp hc h => exact tenant_same (by rwa [h.client] at hd)
  | post e resp he hstate hc h => exact tenant_same (by rwa [h.client] at hd)
  | answer i input ha e e' c ans he hc hstate hmem he' h =>
    exact tenant_setClient (hkept hc (.inl rfl) none) h.client hd
  | client i c c' hc hid hmem hstate h =>
    refine tenant_setClient ?_ h.client hd
    refine .stays c hc hid.1 hid.2.2.1 hid.2.2.2.1 (fun hgone hidle => ?_) (.inl hid.2.2.2.2)
    rcases hstate with ⟨hsame, hcycles⟩ | ⟨-, hcycles⟩
    · have hgone : c.state = .none := hsame ▸ hgone
      exact .inl ⟨hgone, hcycles hgone ▸ hidle⟩
    · exact absurd (hcycles.symm.trans hidle) (by decide)
  | terminate i ha c hc hstate h =>
    refine tenant_setClient ?_ h.client hd
    exact .stays c hc rfl rfl rfl (fun _ _ => .inr ⟨ha, hstate, hrunning⟩) (.inl rfl)
  | clear i ha c hc hstate hidle h =>
    rw [h.client] at hd
    rcases Ocl.setClient_eq_some hd with ⟨-, ⟨⟩⟩ | ⟨-, hd⟩
    exact tenant_same hd
  | associate bdf i hi hc hlist hnextId hclient htrace hparms hmax =>
    rw [hclient, update_eq_some_iff] at hd
    rcases hd with ⟨rfl, ⟨⟩⟩ | ⟨-, hd⟩
    · exact .connects hc rfl rfl rfl (fun k hk => by rw [hclient, Function.update_of_ne hk])
    · exact tenant_same hd

theorem step_client_none {i : ℕ} (h : (s.step a).client i = none) :
    s.client i = none ∨
      (a = .clear i ∧ ∃ c, s.client i = some c ∧ c.state = .none ∧ c.idleCycles = 0) := by
  have hset : ∀ {t : Ocl} {j : ℕ} {c' : Client}, t.client = Function.update s.client j (some c') →
      t.client i = none → s.client i = none := by
    intro t j c' hclient hnone
    rw [hclient, update_some_eq_none_iff] at hnone
    exact hnone.2
  cases step_effect s a with
  | quiet hsame => exact .inl (hsame.client ▸ h)
  | ignore cmd d ha hoffers hassign htag hsame => exact .inl (by rwa [hsame.client] at h)
  | assign cmd d ha hoffers j c hop hfind hc hsame => exact .inl (hset hsame.client h)
  | add cmd d ha hoffers e c l₁ l₂ hop hfind hc hfresh hnew hlist hlist' hclient hnextId htrace hparms hmax =>
    exact .inl (hclient ▸ h)
  | rewrite e e' he hc hr hsame => exact .inl (by rwa [hsame.client] at h)
  | ask e c c' bytes he hc hready hbytes hc' hsame => exact .inl (hset hsame.client h)
  | raise e c c' he hc hraised hc' hsame => exact .inl (hset hsame.client h)
  | respond e e' he hresp hc he' hsame => exact .inl (by rwa [hsame.client] at h)
  | finish e he hstate hc hlast hsame => exact .inl (by rwa [hsame.client] at h)
  | refuse e he hresp hc hsame => exact .inl (by rwa [hsame.client] at h)
  | post e resp he hstate hc hsame => exact .inl (by rwa [hsame.client] at h)
  | answer j input ha e e' c ans he hc hstate hmem he' hsame => exact .inl (hset hsame.client h)
  | client j c c' hc hid hmem hstate hsame => exact .inl (hset hsame.client h)
  | terminate j ha c hc hstate hsame => exact .inl (hset hsame.client h)
  | clear j ha c hc hstate hidle hsame =>
    by_cases hi : i = j
    · subst hi
      exact .inr ⟨ha, c, hc, hstate, hidle⟩
    · rw [hsame.client] at h
      exact .inl (by simpa [Ocl.setClient, hi] using h)
  | associate bdf j hj hc hlist hnextId hclient htrace hparms hmax => exact .inl (hset hclient h)

/-- `client_cmd` leaves no open event of a departed client. -/
theorem settle_done (hs : s.Wf) (hrunning : s.halted = false) {i : ℕ} {c : Client}
    (hc : s.client i = some c) (hgone : c.state = .none) {x : CmdEvent}
    (hx : x ∈ (s.step (.settle i)).list) (hcontext : x.context = i) : x.state = .done := by
  have hlist : (s.step (.settle i)).list = (terminateEvents s c).list := by
    simp [Ocl.step, hrunning, Ocl.act, settleClient, hc, clientCmd, hgone, Ocl.setClient]
  rw [hlist] at hx
  obtain ⟨y, hy, rfl⟩ := List.mem_map.mp hx
  have hctx : c.context = i := (hs.slot i c hc).2.1
  split_ifs at hcontext ⊢ with hopen
  · rfl
  · by_contra hne
    exact hopen (by simp [CmdEvent.openFor, hctx, hcontext, hne])

/-- What a step adds to the record. -/
inductive Records (s : Ocl) (a : Action) : Obs → Prop
  | sent (e : CmdEvent) (he : e ∈ s.list) (hopen : e.state ≠ .done) (c : Client)
      (hc : s.client e.context = some c) (bytes : List UInt8) : Records s a (.sent c.id e.id bytes)
  | added (cmd : AfuTlxCmd) (e : CmdEvent) (c : Client) (d : Draws) (ha : a = .cmd d)
      (hoffers : s.Offers cmd) (hop : cmd.opcode ≠ afuCmdAssignActag)
      (hslot : findClientByActag s cmd.actag = some e.context) (hc : s.client e.context = some c)
      (hid : e.id = s.nextId) (hnext : (s.step a).nextId = s.nextId + 1) : Records s a (.added e cmd c.id)
  | other (o : Obs) (hsent : ∀ c id bytes, o ≠ .sent c id bytes) (hadded : ∀ e cmd c, o ≠ .added e cmd c) :
      Records s a o

theorem step_trace : ∃ obs, (s.step a).trace = s.trace ++ obs ∧ ∀ o ∈ obs, Records s a o := by
  have hnone : (s.step a).trace = s.trace →
      ∃ obs, (s.step a).trace = s.trace ++ obs ∧ ∀ o ∈ obs, Records s a o := by
    intro htrace
    exact ⟨[], htrace.trans (List.append_nil _).symm, by simp⟩
  have hone : ∀ o, Records s a o → (s.step a).trace = s.trace ++ [o] →
      ∃ obs, (s.step a).trace = s.trace ++ obs ∧ ∀ o ∈ obs, Records s a o := by
    intro o ho htrace
    refine ⟨[o], htrace, ?_⟩
    simp only [List.mem_singleton, forall_eq]
    exact ho
  have htwo : ∀ o o', Records s a o → Records s a o' → (s.step a).trace = s.trace ++ [o, o'] →
      ∃ obs, (s.step a).trace = s.trace ++ obs ∧ ∀ o ∈ obs, Records s a o := by
    intro o o' ho ho' htrace
    refine ⟨[o, o'], htrace, ?_⟩
    simp only [List.mem_cons, List.not_mem_nil, or_false, forall_eq_or_imp, forall_eq]
    exact ⟨ho, ho'⟩
  cases step_effect s a with
  | quiet h => exact hnone h.trace
  | ignore cmd d ha hoffers hassign htag h => exact hone _ (.other _ (by simp) (by simp)) h.trace
  | assign cmd d ha hoffers i c hop hfind hc h => exact hone _ (.other _ (by simp) (by simp)) h.trace
  | add cmd d ha hoffers e c l₁ l₂ hop hfind hc hfresh hnew hlist hlist' hclient hnextId htrace hparms hmax =>
    exact htwo _ _ (.other _ (by simp) (by simp))
      (.added cmd e c d ha hoffers hop hfind hc hnew.id hnextId) htrace
  | rewrite e e' he hc hr h => exact hnone h.trace
  | ask e c c' bytes he hc hready hbytes hc' h =>
    exact hone _ (.sent e he (asked_not_done hready) c (getClient_eq_some hc).2 bytes) h.trace
  | raise e c c' he hc hraised hc' h =>
    have hopen : e.state ≠ .done := by
      rcases hraised.2 with hst | hst <;> simp [hst]
    exact hone _ (.sent e he hopen c (getClient_eq_some hc).2 _) h.trace
  | respond e e' he hresp hc he' h => exact hone _ (.other _ (by simp) (by simp)) h.trace
  | finish e he hstate hc hlast h =>
    exact htwo _ _ (.other _ (by simp) (by simp)) (.other _ (by simp) (by simp)) h.trace
  | refuse e he hresp hc h => exact hone _ (.other _ (by simp) (by simp)) h.trace
  | post e resp he hstate hc h =>
    exact htwo _ _ (.other _ (by simp) (by simp)) (.other _ (by simp) (by simp)) h.trace
  | answer i input ha e e' c ans he hc hstate hmem he' h =>
    exact hone _ (.other _ (by simp) (by simp)) h.trace
  | client i c c' hc hid hmem hstate h => exact hnone h.trace
  | terminate i ha c hc hstate h =>
    refine ⟨_, h.trace, ?_⟩
    intro o ho
    obtain ⟨x, -, rfl⟩ := List.mem_map.mp ho
    exact .other _ (by simp) (by simp)
  | clear i ha c hc hstate hidle h => exact hnone h.trace
  | associate bdf i hi hc hlist hnextId hclient htrace hparms hmax =>
    exact hone _ (.other _ (by simp) (by simp)) htrace

theorem step_nextId : s.nextId ≤ (s.step a).nextId := by
  cases step_effect s a <;> rename_i h <;> first | exact h.nextId.ge | omega

end Steps

/-! ## Owners -/

/-- The event `id` was created while the client `c` held its slot. -/
def CreatedFor (trace : List Obs) (id c : ℕ) : Prop := ∃ e cmd, Obs.added e cmd c ∈ trace ∧ e.id = id

/-- Every message went to the client for which its event was created. -/
def Isolated (trace : List Obs) : Prop :=
  ∀ c id bytes, Obs.sent c id bytes ∈ trace → ∀ c', CreatedFor trace id c' → c' = c

/-- No command comes for a client that has departed and whose events have been ended. -/
def Timely (s : Ocl) : Action → Prop
  | .cmd _ => s.afuEvent.afuCmd.valid ≠ 0 →
      ∀ i ∈ findClientByActag s s.afuEvent.afuCmd.actag, ∀ c ∈ s.client i,
        ¬ (c.state = .none ∧ c.idleCycles = 0)
  | _ => True

instance (s : Ocl) (a : Action) : Decidable (Timely s a) :=
  match a with
  | .cmd _ => inferInstanceAs (Decidable (s.afuEvent.afuCmd.valid ≠ 0 →
      ∀ i ∈ findClientByActag s s.afuEvent.afuCmd.actag, ∀ c ∈ s.client i,
        ¬ (c.state = .none ∧ c.idleCycles = 0)))
  | .idle _ | .signalAfu | .getAfuEvents _ | .mmio _ | .response _ | .bufferWrite _ | .pendingSent _
  | .client _ _ | .cmdDataRead | .writeCmd _ | .touch _ | .interrupt _ | .writeBeOrAmo _ | .settle _
  | .clear _ | .associate _ => isTrue trivial

structure Owned (s : Ocl) : Prop where
  emptied : ∀ i, s.client i = none → ∀ e ∈ s.list, e.context = i → e.state = .done
  departed : ∀ i c, s.client i = some c → c.state = .none → c.idleCycles = 0 →
    ∀ e ∈ s.list, e.context = i → e.state = .done
  owner : ∀ e ∈ s.list, e.state ≠ .done → ∀ c, s.client e.context = some c →
    CreatedFor s.trace e.id c.id
  unique : ∀ id c c', CreatedFor s.trace id c → CreatedFor s.trace id c' → c = c'
  fresh : ∀ id c, CreatedFor s.trace id c → id < s.nextId
  sent : ∀ c id bytes, Obs.sent c id bytes ∈ s.trace → CreatedFor s.trace id c

theorem CreatedFor.append {trace : List Obs} {id c : ℕ} (h : CreatedFor trace id c) (obs : List Obs) :
    CreatedFor (trace ++ obs) id c := by
  obtain ⟨e, cmd, hmem, hid⟩ := h
  exact ⟨e, cmd, List.mem_append_left _ hmem, hid⟩

theorem step_owned {s : Ocl} (hs : s.Wf) {a : Action} (htimely : Timely s a) (h : Owned s) :
    Owned (s.step a) := by
  obtain ⟨obs, htrace, hobs⟩ := step_trace (s := s) (a := a)
  have hmono : ∀ {id c}, CreatedFor s.trace id c → CreatedFor (s.step a).trace id c := by
    intro id c hc
    rw [htrace]
    exact hc.append obs
  -- an event that a step creates belongs to a client that is still served
  have hserved : ∀ {x' cmd c}, Adds s a (s.step a) x' cmd c → ¬ (c.state = .none ∧ c.idleCycles = 0) := by
    intro x' cmd c hadds
    obtain ⟨d, rfl⟩ := hadds.action
    obtain ⟨hvalid, rfl⟩ := hadds.offers
    exact htimely hvalid _ hadds.slot c hadds.client
  have hnew : ∀ {id c}, CreatedFor (s.step a).trace id c → CreatedFor s.trace id c ∨
      (id = s.nextId ∧ s.nextId < (s.step a).nextId ∧ ∃ i d, findClientByActag s s.afuEvent.afuCmd.actag = some i ∧
        s.client i = some d ∧ d.id = c) := by
    rintro id c ⟨e, cmd, hmem, rfl⟩
    rw [htrace, List.mem_append] at hmem
    rcases hmem with hmem | hmem
    · exact .inl ⟨e, cmd, hmem, rfl⟩
    · refine .inr ?_
      cases hobs _ hmem with
      | added _ _ d _ _ hoffers _ hslot hc hid hnext =>
        obtain ⟨-, rfl⟩ := hoffers
        exact ⟨hid, by omega, _, d, hslot, hc, rfl⟩
      | other _ hsent hadded => exact absurd rfl (hadded e cmd c)
  constructor
  · intro i hi x' hx' hcontext
    rcases step_mem_list hs hx' with ⟨x, hx, hf⟩ | ⟨cmd, c, hadds⟩
    · rcases step_client_none hi with hnone | ⟨-, c, hc, hgone, hidle⟩
      · exact hf.done (h.emptied i hnone x hx (hf.context ▸ hcontext))
      · exact hf.done (h.departed i c hc hgone hidle x hx (hf.context ▸ hcontext))
    · have hclient := hadds.client
      rw [hcontext] at hclient
      rcases step_client_none hi with hnone | ⟨-, d, hd, hgone⟩
      · simp [hnone] at hclient
      · rw [hd] at hclient
        cases hclient
        exact absurd hgone (hserved hadds)
  · intro i c' hc' hgone hidle x' hx' hcontext
    cases step_tenant hc' with
    | stays c hc hid _ _ hdeparted _ =>
      rcases hdeparted hgone hidle with hsettled | ⟨rfl, hstate, hrunning⟩
      · rcases step_mem_list hs hx' with ⟨x, hx, hf⟩ | ⟨cmd, d, hadds⟩
        · exact hf.done (h.departed i c hc hsettled.1 hsettled.2 x hx (hf.context ▸ hcontext))
        · have hclient := hadds.client
          rw [hcontext, hc] at hclient
          cases hclient
          exact absurd hsettled (hserved hadds)
      · exact settle_done hs hrunning hc hstate hx' hcontext
    | connects hc hid hstate _ _ => simp [hstate] at hgone
  · intro x' hx' hopen c' hc'
    rcases step_mem_list hs hx' with ⟨x, hx, hf⟩ | ⟨cmd, d, hadds⟩
    · have hxopen : x.state ≠ .done := fun hdone => hopen (hf.done hdone)
      rw [hf.id]
      rw [hf.context] at hc'
      cases step_tenant hc' with
      | stays c hc hid _ _ _ _ =>
        rw [hid]
        exact hmono (h.owner x hx hxopen c hc)
      | connects hc => exact absurd (h.emptied _ hc x hx rfl) hxopen
    · cases step_tenant hc' with
      | stays c hc hid _ _ _ _ =>
        rw [hadds.client] at hc
        cases hc
        rw [hid]
        exact ⟨x', cmd, by rw [hadds.added]; simp, rfl⟩
      | connects hc => simp [hadds.client] at hc
  · intro id c c' hc hc'
    rcases hnew hc with hc | ⟨rfl, -, i, d, hi, hd, rfl⟩
    · rcases hnew hc' with hc' | ⟨rfl, -⟩
      · exact h.unique id c c' hc hc'
      · exact absurd (h.fresh _ _ hc) (Nat.lt_irrefl _)
    · rcases hnew hc' with hc' | ⟨-, -, j, d', hj, hd', rfl⟩
      · exact absurd (h.fresh _ _ hc') (Nat.lt_irrefl _)
      · rw [hi] at hj
        cases hj
        rw [hd] at hd'
        cases hd'
        rfl
  · intro id c hc
    rcases hnew hc with hc | ⟨rfl, hlt, -⟩
    · exact Nat.lt_of_lt_of_le (h.fresh id c hc) step_nextId
    · exact hlt
  · intro c id bytes hmem
    rw [htrace, List.mem_append] at hmem
    rcases hmem with hmem | hmem
    · exact hmono (h.sent c id bytes hmem)
    · cases hobs _ hmem with
      | sent e he hopen d hd => exact hmono (h.owner e he hopen d hd)
      | other _ hsent hadded => exact absurd rfl (hsent c id bytes)

theorem Owned.isolated {s : Ocl} (h : Owned s) : Isolated s.trace :=
  fun c id bytes hmem c' hc' => h.unique id c' c hc' (h.sent c id bytes hmem)

/-! ## Whole runs -/

/-- As long as no command comes for a departed client whose events have been ended, no event is passed on
to a later tenant of its slot. -/
theorem slotReuse_isolated (parms : Parms) (maxClients : ℕ) (afuEvent : AfuEvent) (as : List Action)
    (htimely : Along Ocl.step Timely (Ocl.init parms maxClients afuEvent) as) :
    Isolated ((Ocl.init parms maxClients afuEvent).run as).trace := by
  have hinit : Owned (Ocl.init parms maxClients afuEvent) := by
    constructor <;> simp [Ocl.init, CreatedFor]
  have hinv := htimely.invariant (fun s => s.Wf ∧ Owned s)
    (fun s a h hok => ⟨step_wf h.1 a, step_owned h.1 hok h.2⟩) ⟨Ocl.init_wf _ _ _, hinit⟩
  exact hinv.2.isolated

/-- A client detaches, its slot is cleared and another client takes it; then a read comes. -/
def nextTenantRun : List Action :=
  .associate 0 :: { Turn.quiet with input := fun _ => .detach }.actions 1 ++ Turn.quiet.actions 1 ++
    .associate 0 :: { Turn.quiet with socket := sampleRead.frame }.actions 1 ++ Turn.quiet.actions 1

theorem nextTenantRun_isolated :
    Along Ocl.step Timely (Ocl.init (.quiet 128 (by simp)) 1 sampleAfu) nextTenantRun ∧
      Isolated ((Ocl.init (.quiet 128 (by simp)) 1 sampleAfu).run nextTenantRun).trace := by
  have htimely : Along Ocl.step Timely (Ocl.init (.quiet 128 (by simp)) 1 sampleAfu) nextTenantRun := by
    decide +kernel
  exact ⟨htimely, slotReuse_isolated _ 1 sampleAfu nextTenantRun htimely⟩

/-- The read comes after the client's events have been ended and before its slot is cleared. -/
def inheritedReadRun : List Action :=
  .associate 0 :: { Turn.quiet with input := fun _ => .detach }.actions 1 ++
    { Turn.quiet with socket := sampleRead.frame }.actions 1 ++ .associate 0 :: Turn.quiet.actions 1

def Obs.sentTo : Obs → Option (ℕ × ℕ)
  | .sent c id _ => some (c, id)
  | _ => none

def Obs.addedFor : Obs → Option (ℕ × ℕ)
  | .added e _ c => some (c, e.id)
  | _ => none

/-- The read of the first client is sent to the second. -/
theorem inheritedReadRun_leaks :
    ¬ Isolated ((Ocl.init (.quiet 128 (by simp)) 1 sampleAfu).run inheritedReadRun).trace := by
  intro h
  have hsent : (((Ocl.init (.quiet 128 (by simp)) 1 sampleAfu).run inheritedReadRun).trace.filterMap
      Obs.sentTo) = [(2, 1)] := by decide +kernel
  have hadded : (((Ocl.init (.quiet 128 (by simp)) 1 sampleAfu).run inheritedReadRun).trace.filterMap
      Obs.addedFor) = [(0, 1)] := by decide +kernel
  obtain ⟨o, ho, hsentTo⟩ := List.mem_filterMap.mp (show (2, 1) ∈ _ by rw [hsent]; simp)
  obtain ⟨o', ho', haddedFor⟩ := List.mem_filterMap.mp (show (0, 1) ∈ _ by rw [hadded]; simp)
  cases o <;> simp only [Obs.sentTo, Option.some.injEq, Prod.mk.injEq, reduceCtorEq] at hsentTo
  cases o' <;> simp only [Obs.addedFor, Option.some.injEq, Prod.mk.injEq, reduceCtorEq] at haddedFor
  obtain ⟨rfl, rfl⟩ := hsentTo
  obtain ⟨rfl, hid⟩ := haddedFor
  exact absurd (h _ _ _ ho 0 ⟨_, _, ho', hid⟩) (by decide)

end Ocse
