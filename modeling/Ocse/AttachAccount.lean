import Mathlib.Data.Finset.Card
import Mathlib.Data.Int.Order.Basic
import Ocse.SlotReuse

/-!
# The number of attached clients

`_attach` counts every message and `_detach` every other, whoever sends them, and a client that is dropped stays
counted. The number is right exactly as long as each client attaches once, while it can be reached, detaches only
after that, and is not dropped in between.
-/

namespace Ocse

/-! ## What the handlers leave alone -/

/-- The fields of the loop that `_attach` and `_detach` write. -/
structure SameCount (s s' : Ocl) : Prop where
  attachedClients : s'.attachedClients = s.attachedClients
  state : s'.state = s.state

theorem SameCount.refl (s : Ocl) : SameCount s s := ⟨rfl, rfl⟩

section Handlers

variable (s : Ocl)

theorem handleResponse_count (rand : ℕ) : SameCount s (handleResponse s rand) := by
  unfold handleResponse
  dsimp only
  repeat' split
  all_goals exact ⟨rfl, rfl⟩

theorem handleBufferWrite_count (d : Draws) : SameCount s (handleBufferWrite s d) := by
  unfold handleBufferWrite
  repeat' split
  all_goals exact ⟨rfl, rfl⟩

theorem handleXlateIntrpPendingSent_count (d : Draws) : SameCount s (handleXlateIntrpPendingSent s d) := by
  unfold handleXlateIntrpPendingSent postPending
  repeat' split
  all_goals exact ⟨rfl, rfl⟩

theorem handleAfuTlxCmdDataRead_count : SameCount s (handleAfuTlxCmdDataRead s) := by
  unfold handleAfuTlxCmdDataRead
  repeat' split
  all_goals exact ⟨rfl, rfl⟩

theorem handleAfuTlxWriteCmd_count (d : Draws) : SameCount s (handleAfuTlxWriteCmd s d) := by
  unfold handleAfuTlxWriteCmd
  repeat' split
  all_goals exact ⟨rfl, rfl⟩

theorem handleInterrupt_count (d : Draws) : SameCount s (handleInterrupt s d) := by
  unfold handleInterrupt Ocl.put
  dsimp only
  repeat' split
  all_goals exact ⟨rfl, rfl⟩

theorem handleWriteBeOrAmo_count (d : Draws) : SameCount s (handleWriteBeOrAmo s d) := by
  unfold handleWriteBeOrAmo
  dsimp only
  repeat' split
  all_goals exact ⟨rfl, rfl⟩

theorem addFor_count (d : Draws) (cmd : AfuTlxCmd) (n : ℕ → NewCmd) : SameCount s (addFor s d cmd n) := by
  unfold addFor
  repeat' split
  all_goals exact ⟨rfl, rfl⟩

theorem addAligned_count (d : Draws) (cmd : AfuTlxCmd) (size : ℕ) (failOpcode : UInt8) {ok : Ocl}
    (hok : SameCount s ok) : SameCount s (addAligned s d cmd size failOpcode ok) := by
  unfold addAligned
  split
  · exact addFor_count s d cmd _
  · exact addFor_count s d cmd _
  · exact hok

theorem addAmo_count (d : Draws) (cmd : AfuTlxCmd) (type : CmdType) (dataIsValid : Bool) :
    SameCount s (addAmo s d cmd type dataIsValid) := by
  unfold addAmo
  split
  · exact addFor_count s d cmd _
  · split
    · exact addFor_count s d cmd _
    · exact addFor_count s d cmd _

theorem keepData_count (dataIsValid : Bool) : SameCount s (s.keepData dataIsValid) := by
  unfold Ocl.keepData
  split
  · exact ⟨rfl, rfl⟩
  · exact ⟨rfl, rfl⟩

theorem SameCount.trans {s s' s'' : Ocl} (h : SameCount s s') (h' : SameCount s' s'') : SameCount s s'' :=
  ⟨h'.attachedClients.trans h.attachedClients, h'.state.trans h.state⟩

theorem SameCount.ite {s s₁ s₂ : Ocl} {p : Prop} [Decidable p] (h₁ : SameCount s s₁) (h₂ : SameCount s s₂) :
    SameCount s (if p then s₁ else s₂) := by
  apply iteInduction (motive := SameCount s)
  · exact fun _ => h₁
  · exact fun _ => h₂

theorem parseCmd_count (d : Draws) (cmd : AfuTlxCmd) (dataIsValid : Bool) :
    SameCount s (parseCmd s d cmd dataIsValid) := by
  have hkept := keepData_count s dataIsValid
  have hread : ∀ size, SameCount s (addRead (s.keepData dataIsValid) d cmd size) :=
    fun size => hkept.trans (addAligned_count _ d cmd size _ (addFor_count _ d cmd _))
  have hwrite : ∀ size be, SameCount s (addWrite s d cmd size dataIsValid be) :=
    fun size be => addAligned_count s d cmd size _ (addFor_count s d cmd _)
  have hamo : ∀ type, SameCount s (addAmo s d cmd type dataIsValid) :=
    fun type => addAmo_count s d cmd type dataIsValid
  have hinterrupt : ∀ size, SameCount s (addInterrupt s d cmd size dataIsValid) :=
    fun size => addFor_count s d cmd _
  have htouch : SameCount s (addXlateTouch (s.keepData dataIsValid) d cmd) :=
    hkept.trans (addAligned_count _ d cmd 64 _ (addFor_count _ d cmd _))
  have hassign : SameCount s (assignActag (s.keepData dataIsValid) cmd.bdf cmd.pasid cmd.actag) := by
    refine hkept.trans ?_
    unfold assignActag
    split
    · exact ⟨rfl, rfl⟩
    · exact ⟨rfl, rfl⟩
  have hfail : SameCount s (addFail s d cmd tlxResponseFailed tlxResponseFailed) := addFor_count s d cmd _
  exact .ite hassign (.ite (hread _) (.ite (hread _) (.ite (hwrite _ _) (.ite (hwrite _ _) (.ite (hwrite _ _)
    (.ite (hamo _) (.ite (hamo _) (.ite (hamo _) (.ite (hinterrupt _) (.ite (hinterrupt _) (.ite (.refl s)
    (.ite htouch hfail))))))))))))

theorem handleCmd_count (d : Draws) : SameCount s (handleCmd s d) := by
  unfold handleCmd
  split
  · exact .refl s
  · rename_i cmd dataIsValid afuEvent _
    have hread : SameCount s { s with afuEvent, trace := s.trace ++ [Obs.command cmd] } := ⟨rfl, rfl⟩
    dsimp only
    split
    · exact ⟨rfl, rfl⟩
    · exact hread.trans (parseCmd_count _ d cmd dataIsValid)

theorem handleClient_count (i : ℕ) (input : ClientInput) (hattach : ∀ put, input ≠ .attach put)
    (hdetach : input ≠ .detach) : SameCount s (handleClient s i input) := by
  unfold handleClient
  split
  · exact .refl s
  · split
    · exact .refl s
    · cases input with
      | quiet => exact .refl s
      | lost => exact ⟨rfl, rfl⟩
      | detach => exact absurd rfl hdetach
      | attach put => exact absurd rfl (hattach put)
      | memFailure =>
          dsimp only
          split
          · exact ⟨rfl, rfl⟩
          · exact ⟨rfl, rfl⟩
      | memSuccess avail =>
          dsimp only
          unfold handleMemReturn
          split
          · exact ⟨rfl, rfl⟩
          · split
            · exact ⟨rfl, rfl⟩
            · exact ⟨rfl, rfl⟩
      | mmio lost => cases lost <;> exact ⟨rfl, rfl⟩
      | unexpected => exact ⟨rfl, rfl⟩

theorem settleClient_count (i : ℕ) : SameCount s (settleClient s i) := by
  unfold settleClient
  split
  · exact .refl s
  · rename_i c _
    have hcmd : SameCount s (clientCmd s c).2 := by
      unfold clientCmd
      split
      · exact .refl s
      · exact ⟨rfl, rfl⟩
      · exact .refl s
    exact hcmd.trans ⟨rfl, rfl⟩

theorem clearSlot_count (i : ℕ) : SameCount s (clearSlot s i) := by
  unfold clearSlot
  repeat' split
  all_goals exact ⟨rfl, rfl⟩

theorem clientAssociate_count (bdf : UInt16) : SameCount s (clientAssociate s bdf) := by
  unfold clientAssociate
  split
  · exact ⟨rfl, rfl⟩
  · exact ⟨rfl, rfl⟩

/-- Only an attach and a detach change the number and the state. -/
theorem act_count (a : Action) (hattach : ∀ i put, a ≠ .client i (.attach put))
    (hdetach : ∀ i, a ≠ .client i .detach) : SameCount s (s.act a) := by
  cases a with
  | idle cycles => exact ⟨rfl, rfl⟩
  | signalAfu => exact ⟨rfl, rfl⟩
  | getAfuEvents socket => exact ⟨rfl, rfl⟩
  | mmio signals => exact ⟨rfl, rfl⟩
  | response rand => exact handleResponse_count s rand
  | bufferWrite d => exact handleBufferWrite_count s d
  | pendingSent d => exact handleXlateIntrpPendingSent_count s d
  | cmd d => exact handleCmd_count s d
  | cmdDataRead => exact handleAfuTlxCmdDataRead_count s
  | writeCmd d => exact handleAfuTlxWriteCmd_count s d
  | touch d =>
      change SameCount s (handleTouch s d)
      rw [handleTouch_eq]
      exact .refl s
  | interrupt d => exact handleInterrupt_count s d
  | writeBeOrAmo d => exact handleWriteBeOrAmo_count s d
  | client i input =>
      exact handleClient_count s i input (fun put h => hattach i put (h ▸ rfl)) (fun h => hdetach i (h ▸ rfl))
  | settle i => exact settleClient_count s i
  | clear i => exact clearSlot_count s i
  | associate bdf => exact clientAssociate_count s bdf

end Handlers

/-! ## Clients that can be reached -/

/-- The client of a slot, as long as its messages are looked at. -/
def Ocl.live (s : Ocl) (i : ℕ) : Option Client := (s.client i).filter (fun c => c.state ≠ .none)

theorem live_eq_some {s : Ocl} {i : ℕ} {c : Client} :
    s.live i = some c ↔ s.client i = some c ∧ c.state ≠ .none := by
  simp [Ocl.live, Option.filter_eq_some_iff]

theorem handleClient_unreached {s : Ocl} {i : ℕ} (h : s.live i = none) (input : ClientInput) :
    handleClient s i input = s := by
  unfold handleClient
  cases hc : s.client i with
  | none => rfl
  | some c =>
      have hstate : c.state = .none := by
        by_contra hne
        rw [live_eq_some.mpr ⟨hc, hne⟩] at h
        cases h
      exact if_pos hstate

/-- A client that can be reached could be reached before, or has just connected. -/
theorem step_live {s : Ocl} {a : Action} {j : ℕ} {d : Client} (hd : (s.step a).live j = some d) :
    (∃ c, s.live j = some c ∧ d.id = c.id) ∨ (s.client j = none ∧ d.id = s.nextId) := by
  obtain ⟨hclient, hstate⟩ := live_eq_some.mp hd
  have hset : ∀ {t : Ocl} {i : ℕ} {c c' : Client}, t.client = Function.update s.client i (some c') →
      s.client i = some c → c'.id = c.id → (c'.state ≠ .none → c.state ≠ .none) → t.client j = some d →
      ∃ c, s.live j = some c ∧ d.id = c.id := by
    intro t i c c' hupdate hc hid hreached htj
    rw [hupdate, update_eq_some_iff] at htj
    rcases htj with ⟨rfl, ⟨⟩⟩ | ⟨-, htj⟩
    · exact ⟨c, live_eq_some.mpr ⟨hc, hreached hstate⟩, hid⟩
    · exact ⟨d, live_eq_some.mpr ⟨htj, hstate⟩, rfl⟩
  have hsame : s.client j = some d → ∃ c, s.live j = some c ∧ d.id = c.id :=
    fun h => ⟨d, live_eq_some.mpr ⟨h, hstate⟩, rfl⟩
  have hkept : ∀ {c c' : Client} (m : Option ℕ), (c' = c ∨ c' = c.drop tlxIdleCycles .none) →
      ({ c' with memAccess := m } : Client).id = c.id ∧
        (({ c' with memAccess := m } : Client).state ≠ .none → c.state ≠ .none) := by
    intro c c' m hc'
    rcases hc' with rfl | rfl
    · exact ⟨rfl, fun h => h⟩
    · exact ⟨rfl, fun h => absurd rfl h⟩
  cases step_effect s a with
  | quiet h => exact .inl (hsame (h.client ▸ hclient))
  | ignore cmd d' ha hoffers hassign htag h => exact .inl (hsame (by rwa [h.client] at hclient))
  | assign cmd d' ha hoffers i c hop hfind hc h => exact .inl (hset h.client hc rfl (fun h => h) hclient)
  | add cmd d' ha hoffers e c l₁ l₂ hop hfind hc hfresh hnew hlist hlist' hclient' hnextId htrace hparms hmax =>
    exact .inl (hsame (hclient' ▸ hclient))
  | rewrite e e' he hc hr h => exact .inl (hsame (by rwa [h.client] at hclient))
  | ask e c c' bytes he hc hready hbytes hc' h =>
    obtain ⟨-, hslot⟩ := getClient_eq_some hc
    obtain ⟨hid, hreached⟩ := hkept (some e.id) hc'
    exact .inl (hset h.client hslot hid hreached hclient)
  | raise e c c' he hc hraised hc' h =>
    obtain ⟨-, hslot⟩ := getClient_eq_some hc
    obtain ⟨hid, hreached⟩ := hkept c'.memAccess hc'
    exact .inl (hset h.client hslot hid hreached hclient)
  | respond e e' he hresp hc he' h => exact .inl (hsame (by rwa [h.client] at hclient))
  | finish e he hdone hc hlast h => exact .inl (hsame (by rwa [h.client] at hclient))
  | refuse e he hresp hc h => exact .inl (hsame (by rwa [h.client] at hclient))
  | post e resp he hsent hc h => exact .inl (hsame (by rwa [h.client] at hclient))
  | answer i input ha e e' c ans he hc hvalid hmem he' h =>
    exact .inl (hset h.client hc rfl (fun h => h) hclient)
  | client i c c' hc hid hmem hleft h =>
    refine .inl (hset h.client hc hid.1 (fun hne => ?_) hclient)
    rcases hleft with ⟨hsame', -⟩ | ⟨hgone, -⟩
    · exact hsame' ▸ hne
    · exact absurd hgone hne
  | terminate i ha c hc hgone h => exact .inl (hset h.client hc rfl (fun h => h) hclient)
  | clear i ha c hc hgone hidle h =>
    rw [h.client] at hclient
    rcases Ocl.setClient_eq_some hclient with ⟨-, ⟨⟩⟩ | ⟨-, hclient⟩
    exact .inl (hsame hclient)
  | associate bdf i hi hc hlist hnextId hclient' htrace hparms hmax =>
    rw [hclient', update_eq_some_iff] at hclient
    rcases hclient with ⟨rfl, ⟨⟩⟩ | ⟨-, hclient⟩
    · exact .inr ⟨hc, rfl⟩
    · exact .inl (hsame hclient)

/-! ## The account -/

/-- An attach that is taken, and whether it can be acknowledged. -/
def Ocl.attaches (s : Ocl) : Action → Option (ℕ × Bool)
  | .client i (.attach put) => (s.live i).map (fun c => (c.id, put))
  | _ => none

def Ocl.detaches (s : Ocl) : Action → Option ℕ
  | .client i .detach => (s.live i).map Client.id
  | _ => none

/-- A run with the clients that have attached and not detached, with those that were counted, and with those that
were sent `OCSE_ATTACH`: at the limit the byte that is sent has not been set. -/
structure Attachments where
  ocl : Ocl
  attached : List ℕ
  counted : List ℕ
  acked : List ℕ

def Attachments.step (x : Attachments) (a : Action) : Attachments :=
  if x.ocl.halted then x
  else
    { ocl := x.ocl.step a
      attached := x.attached.filter (fun id => x.ocl.detaches a ≠ some id) ++
        (x.ocl.attaches a).toList.map Prod.fst
      counted := x.counted ++ (x.ocl.attaches a).toList.map Prod.fst
      acked := x.acked ++ ((x.ocl.attaches a).filter
        (fun p => p.2 && x.ocl.attachedClients < x.ocl.maxClients)).toList.map Prod.fst }

def Attachments.init (parms : Parms) (maxClients : ℕ) (afuEvent : AfuEvent) : Attachments :=
  ⟨Ocl.init parms maxClients afuEvent, [], [], []⟩

/-- The slots of the clients that have attached, and neither detached nor been dropped. -/
def Attachments.slots (x : Attachments) : Finset ℕ :=
  (Finset.range x.ocl.maxClients).filter (fun i => ∃ c ∈ x.ocl.live i, c.id ∈ x.attached)

structure Attachments.Accounted (x : Attachments) : Prop where
  number : x.ocl.attachedClients = x.slots.card
  low : 0 ≤ x.ocl.attachedClients
  high : x.ocl.attachedClients ≤ x.ocl.maxClients
  acked : x.acked = x.counted
  idle : x.ocl.state = .idle → x.slots.card = 0

/-- A client attaches once and can then be told so, it detaches when it has attached, and no client that has
attached is dropped by anything else. -/
def Attachments.Proper (x : Attachments) (a : Action) : Prop :=
  x.ocl.halted = true ∨ match a with
    | .client i (.attach put) => ∀ c ∈ x.ocl.live i, put = true ∧ c.id ∉ x.attached
    | .client i .detach => ∀ c ∈ x.ocl.live i, c.id ∈ x.attached
    | a => ∀ i ∈ x.slots, ((x.ocl.step a).live i).isSome = true

/-- What the account rests on: no two slots have the same client, and those who have attached have connected. -/
structure Attachments.Known (x : Attachments) : Prop where
  wf : x.ocl.Wf
  distinct : ∀ i j c d, x.ocl.client i = some c → x.ocl.client j = some d → c.id = d.id → i = j
  fresh : ∀ id ∈ x.attached, id < x.ocl.nextId

section Account

variable {x : Attachments}

theorem mem_slots (hx : x.Known) {i : ℕ} : i ∈ x.slots ↔ ∃ c, x.ocl.live i = some c ∧ c.id ∈ x.attached := by
  unfold Attachments.slots
  rw [Finset.mem_filter, Finset.mem_range]
  constructor
  · rintro ⟨-, c, hc, hid⟩
    exact ⟨c, hc, hid⟩
  · rintro ⟨c, hc, hid⟩
    exact ⟨(hx.wf.slot i c (live_eq_some.mp hc).1).1, c, hc, hid⟩

theorem mem_slots_live (hx : x.Known) {i : ℕ} {c : Client} (hc : x.ocl.live i = some c) :
    i ∈ x.slots ↔ c.id ∈ x.attached := by
  rw [mem_slots hx, hc]
  simp

theorem slots_card_le (x : Attachments) : x.slots.card ≤ x.ocl.maxClients := by
  have hle := Finset.card_filter_le (Finset.range x.ocl.maxClients)
    (fun i => ∃ c ∈ x.ocl.live i, c.id ∈ x.attached)
  rwa [Finset.card_range] at hle

/-- The rest of the account follows from its number and its acknowledgements. -/
theorem accounted_of {x : Attachments} (hnumber : x.ocl.attachedClients = x.slots.card) (hacked : x.acked = x.counted)
    (hidle : x.ocl.state = .idle → x.slots.card = 0) : x.Accounted := by
  have hle := slots_card_le x
  refine ⟨hnumber, ?_, ?_, hacked, hidle⟩
  · rw [hnumber]
    exact Int.natCast_nonneg _
  · rw [hnumber]
    exact Int.ofNat_le.mpr hle

theorem attachments_step_ocl (x : Attachments) (a : Action) : (x.step a).ocl = x.ocl.step a := by
  unfold Attachments.step
  split
  · rename_i hhalted
    simp [Ocl.step, hhalted]
  · rfl

theorem attaches_fresh (hx : x.Known) {a : Action} {p : ℕ × Bool} (h : x.ocl.attaches a = some p) :
    p.1 < x.ocl.nextId := by
  unfold Ocl.attaches at h
  split at h
  · rename_i i put
    obtain ⟨c, hc, rfl⟩ := Option.map_eq_some_iff.mp h
    exact (hx.wf.slot i c (live_eq_some.mp hc).1).2.2
  · cases h

theorem Attachments.Known.step (hx : x.Known) (a : Action) : (x.step a).Known := by
  have hnext := step_nextId (s := x.ocl) (a := a)
  have hids : ∀ i c, (x.ocl.step a).client i = some c →
      (∃ c₀, x.ocl.client i = some c₀ ∧ c.id = c₀.id) ∨ (c.id = x.ocl.nextId ∧
        ∀ j, j ≠ i → (x.ocl.step a).client j = x.ocl.client j) := by
    intro i c hc
    rcases step_tenant hc with ⟨c₀, hc₀, hid, -⟩ | ⟨-, hid, -, -, hothers⟩
    · exact .inl ⟨c₀, hc₀, hid⟩
    · exact .inr ⟨hid, hothers⟩
  refine ⟨?_, ?_, ?_⟩
  · rw [attachments_step_ocl]
    exact step_wf hx.wf a
  · rw [attachments_step_ocl]
    intro i j c d hc hd hid
    by_contra hij
    rcases hids i c hc with ⟨c₀, hc₀, hidc⟩ | ⟨hidc, hothers⟩
    · rcases hids j d hd with ⟨d₀, hd₀, hidd⟩ | ⟨hidd, hothers⟩
      · exact hij (hx.distinct i j c₀ d₀ hc₀ hd₀ (by rw [← hidc, hid, hidd]))
      · have hold := (hx.wf.slot i c₀ hc₀).2.2
        omega
    · rw [hothers j (Ne.symm hij)] at hd
      have hold := (hx.wf.slot j d hd).2.2
      omega
  · intro id hid
    rw [attachments_step_ocl]
    unfold Attachments.step at hid
    split at hid
    · exact (hx.fresh id hid).trans_le hnext
    · rcases List.mem_append.mp hid with hid | hid
      · exact (hx.fresh id (List.mem_of_mem_filter hid)).trans_le hnext
      · obtain ⟨p, hp, rfl⟩ := List.mem_map.mp hid
        exact (attaches_fresh hx (Option.mem_toList.mp hp)).trans_le hnext

theorem Attachments.init_known (parms : Parms) (maxClients : ℕ) (afuEvent : AfuEvent) :
    (Attachments.init parms maxClients afuEvent).Known := by
  refine ⟨Ocl.init_wf parms maxClients afuEvent, ?_, ?_⟩
  · intro i j c d hc
    cases hc
  · intro id hid
    cases hid

theorem Attachments.init_accounted (parms : Parms) (maxClients : ℕ) (afuEvent : AfuEvent) :
    (Attachments.init parms maxClients afuEvent).Accounted := by
  have hempty : (Attachments.init parms maxClients afuEvent).slots = ∅ := by
    unfold Attachments.slots
    rw [Finset.filter_eq_empty_iff]
    rintro i - ⟨c, -, hid⟩
    cases hid
  refine accounted_of ?_ rfl (fun _ => ?_)
  · rw [hempty]
    rfl
  · rw [hempty]
    rfl

/-! ## One step -/

/-- Any other action keeps the number, so that it must keep the clients. -/
theorem accounted_step_other (hx : x.Known) (h : x.Accounted) (hrunning : x.ocl.halted = false) {a : Action}
    (hattach : ∀ i put, a ≠ .client i (.attach put)) (hdetach : ∀ i, a ≠ .client i .detach) :
    (x.step a).Accounted ↔ ∀ i ∈ x.slots, ((x.ocl.step a).live i).isSome = true := by
  have hnone : x.ocl.attaches a = none := by
    unfold Ocl.attaches
    split
    · exact absurd rfl (hattach _ _)
    · rfl
  have hnone' : x.ocl.detaches a = none := by
    unfold Ocl.detaches
    split
    · exact absurd rfl (hdetach _)
    · rfl
  have hstep : x.step a = { x with ocl := x.ocl.step a } := by
    unfold Attachments.step
    rw [if_neg (by simp [hrunning]), hnone, hnone']
    simp
  have hcount : SameCount x.ocl (x.ocl.step a) := by
    unfold Ocl.step
    rw [if_neg (by simp [hrunning])]
    exact act_count x.ocl a hattach hdetach
  have hknown := hx.step a
  rw [hstep] at hknown ⊢
  have hsub : ({ x with ocl := x.ocl.step a } : Attachments).slots ⊆ x.slots := by
    intro i hi
    obtain ⟨d, hd, hid⟩ := (mem_slots hknown).mp hi
    rcases step_live hd with ⟨c, hc, hsame⟩ | ⟨-, hnew⟩
    · exact (mem_slots hx).mpr ⟨c, hc, hsame ▸ hid⟩
    · exact absurd (hx.fresh _ hid) (by simp [hnew])
  constructor
  · intro h' i hi
    have hcard : x.slots.card ≤ ({ x with ocl := x.ocl.step a } : Attachments).slots.card := by
      have hnumber := h'.number
      rw [show ({ x with ocl := x.ocl.step a } : Attachments).ocl.attachedClients = x.ocl.attachedClients from
        hcount.attachedClients, h.number] at hnumber
      exact (Int.ofNat.inj hnumber).le
    rw [← Finset.eq_of_subset_of_card_le hsub hcard] at hi
    obtain ⟨d, hd, -⟩ := (mem_slots hknown).mp hi
    exact Option.isSome_iff_exists.mpr ⟨d, hd⟩
  · intro hlive
    have hslots : ({ x with ocl := x.ocl.step a } : Attachments).slots = x.slots := by
      refine Finset.Subset.antisymm hsub (fun i hi => ?_)
      obtain ⟨c, hc, hid⟩ := (mem_slots hx).mp hi
      obtain ⟨d, hd⟩ := Option.isSome_iff_exists.mp (hlive i hi)
      refine (mem_slots hknown).mpr ⟨d, hd, ?_⟩
      rcases step_live hd with ⟨c', hc', hsame⟩ | ⟨hempty, -⟩
      · rw [hsame, ← Option.some.inj (hc.symm.trans hc')]
        exact hid
      · rw [(live_eq_some.mp hc).1] at hempty
        cases hempty
    refine accounted_of ?_ h.acked ?_
    · rw [hslots, ← h.number]
      exact hcount.attachedClients
    · rw [hslots]
      exact fun hidle => h.idle (hcount.state ▸ hidle)

theorem live_setClient (s : Ocl) (i j : ℕ) (c : Option Client) :
    (s.setClient i c).live j = if j = i then c.filter (fun c => c.state ≠ .none) else s.live j := by
  unfold Ocl.live Ocl.setClient
  by_cases hj : j = i
  · subst hj
    simp
  · simp [hj]

theorem drop_live (c : Client) :
    (some (c.drop tlxIdleCycles .none)).filter (fun c => decide (c.state ≠ .none)) = none := rfl

theorem attach_live {s : Ocl} {i : ℕ} {c : Client} (hc : s.live i = some c) (put : Bool) (j : ℕ) :
    (attach s i c put).live j = if j = i then if put then some c else none else s.live j := by
  unfold attach
  rw [live_setClient]
  cases put with
  | true => simp [Option.filter, (live_eq_some.mp hc).2]; rfl
  | false => simp [Option.filter, Client.drop]; rfl

theorem detach_live (s : Ocl) (i : ℕ) (c : Client) (j : ℕ) :
    (detach s i c).live j = if j = i then none else s.live j := by
  unfold detach
  rw [live_setClient, drop_live]
  rfl

/-- Two clients that can be reached are one when they have one id. -/
theorem live_distinct (hx : x.Known) {i j : ℕ} {c d : Client} (hc : x.ocl.live i = some c)
    (hd : x.ocl.live j = some d) (hid : d.id = c.id) : j = i :=
  hx.distinct j i d c (live_eq_some.mp hd).1 (live_eq_some.mp hc).1 hid

theorem act_attach {s : Ocl} {i : ℕ} {c : Client} (hc : s.live i = some c) (put : Bool) :
    s.act (.client i (.attach put)) = attach s i c put := by
  obtain ⟨hclient, hstate⟩ := live_eq_some.mp hc
  change handleClient s i (.attach put) = _
  unfold handleClient
  rw [hclient]
  exact if_neg hstate

theorem act_detach {s : Ocl} {i : ℕ} {c : Client} (hc : s.live i = some c) :
    s.act (.client i .detach) = detach s i c := by
  obtain ⟨hclient, hstate⟩ := live_eq_some.mp hc
  change handleClient s i .detach = _
  unfold handleClient
  rw [hclient]
  exact if_neg hstate

theorem attachments_step_attach (hrunning : x.ocl.halted = false) {i : ℕ} {c : Client} (hc : x.ocl.live i = some c)
    (put : Bool) : x.step (.client i (.attach put)) =
      { ocl := attach x.ocl i c put, attached := x.attached ++ [c.id], counted := x.counted ++ [c.id]
        acked := x.acked ++ if put = true ∧ x.ocl.attachedClients < x.ocl.maxClients then [c.id] else [] } := by
  have hact : x.ocl.step (.client i (.attach put)) = attach x.ocl i c put := by
    unfold Ocl.step
    rw [if_neg (by simp [hrunning]), act_attach hc]
  unfold Attachments.step
  rw [if_neg (by simp [hrunning]), hact]
  by_cases hack : put = true ∧ x.ocl.attachedClients < x.ocl.maxClients
  · simp [Ocl.attaches, Ocl.detaches, hc, hack.1, hack.2]
  · rw [if_neg hack]
    have hnot : (put && decide (x.ocl.attachedClients < x.ocl.maxClients)) = false := by
      simpa using hack
    simp [Ocl.attaches, Ocl.detaches, hc, Option.filter, hnot]

theorem attachments_step_detach (hrunning : x.ocl.halted = false) {i : ℕ} {c : Client} (hc : x.ocl.live i = some c) :
    x.step (.client i .detach) =
      ⟨detach x.ocl i c, x.attached.filter (fun id => c.id ≠ id), x.counted, x.acked⟩ := by
  have hact : x.ocl.step (.client i .detach) = detach x.ocl i c := by
    unfold Ocl.step
    rw [if_neg (by simp [hrunning]), act_detach hc]
  unfold Attachments.step
  rw [if_neg (by simp [hrunning]), hact]
  simp [Ocl.attaches, Ocl.detaches, hc]

/-- A message of a client that cannot be reached is not taken. -/
theorem step_unreached (hrunning : x.ocl.halted = false) {i : ℕ} (hnone : x.ocl.live i = none) {input : ClientInput}
    (hinput : (∃ put, input = .attach put) ∨ input = .detach) : x.step (.client i input) = x := by
  have hocl : x.ocl.step (.client i input) = x.ocl := by
    unfold Ocl.step
    rw [if_neg (by simp [hrunning])]
    exact handleClient_unreached hnone input
  have hattaches : x.ocl.attaches (.client i input) = none := by
    rcases hinput with ⟨put, rfl⟩ | rfl
    · simp [Ocl.attaches, hnone]
    · rfl
  have hdetaches : x.ocl.detaches (.client i input) = none := by
    rcases hinput with ⟨put, rfl⟩ | rfl
    · rfl
    · simp [Ocl.detaches, hnone]
  unfold Attachments.step
  rw [if_neg (by simp [hrunning]), hocl, hattaches, hdetaches]
  simp

/-- A slot whose client is as before counts as before. -/
theorem mem_slots_other {x' : Attachments} (hx : x.Known) (hx' : x'.Known) {j : ℕ}
    (hlive : x'.ocl.live j = x.ocl.live j)
    (hsame : ∀ d, x.ocl.live j = some d → (d.id ∈ x'.attached ↔ d.id ∈ x.attached)) :
    j ∈ x'.slots ↔ j ∈ x.slots := by
  rw [mem_slots hx', mem_slots hx, hlive]
  constructor
  · rintro ⟨d, hd, hid⟩
    exact ⟨d, hd, (hsame d hd).mp hid⟩
  · rintro ⟨d, hd, hid⟩
    exact ⟨d, hd, (hsame d hd).mpr hid⟩

/-- An attach counts, so that it must be the first of a client that can be told. -/
theorem accounted_step_attach (hx : x.Known) (h : x.Accounted) (hrunning : x.ocl.halted = false) {i : ℕ}
    {c : Client} (hc : x.ocl.live i = some c) (put : Bool) :
    (x.step (.client i (.attach put))).Accounted ↔ put = true ∧ c.id ∉ x.attached := by
  have hknown := hx.step (.client i (.attach put))
  rw [attachments_step_attach hrunning hc] at hknown ⊢
  generalize hx' : (⟨attach x.ocl i c put, x.attached ++ [c.id], x.counted ++ [c.id],
    x.acked ++ if put = true ∧ x.ocl.attachedClients < x.ocl.maxClients then [c.id] else []⟩ : Attachments) = x'
    at hknown ⊢
  have hlive : ∀ j, x'.ocl.live j = if j = i then if put then some c else none else x.ocl.live j := by
    intro j
    subst hx'
    exact attach_live hc put j
  have hslots : ∀ j, j ∈ x'.slots ↔ if j = i then put = true else j ∈ x.slots := by
    intro j
    by_cases hj : j = i
    · rw [mem_slots hknown, hlive]
      subst hj
      subst hx'
      cases put <;> simp
    · rw [if_neg hj]
      apply mem_slots_other hx hknown ((hlive j).trans (if_neg hj))
      intro d hd
      have hne : d.id ≠ c.id := fun hid => hj (live_distinct hx hc hd hid)
      subst hx'
      simp [hne]
  have hcount : x'.ocl.attachedClients = x.ocl.attachedClients + 1 := by
    subst hx'
    rfl
  have hiff := mem_slots_live hx hc
  constructor
  · intro h'
    have hnumber : (x'.slots.card : ℤ) = x.slots.card + 1 := by
      rw [← h'.number, hcount, h.number]
    have hnew : i ∈ x'.slots ∧ i ∉ x.slots := by
      by_contra hnot
      have hsub : x'.slots ⊆ x.slots := by
        intro j hj
        have hj' := (hslots j).mp hj
        by_cases hji : j = i
        · subst hji
          by_contra hout
          exact hnot ⟨hj, hout⟩
        · rwa [if_neg hji] at hj'
      have hle := Finset.card_le_card hsub
      omega
    exact ⟨by simpa using (hslots i).mp hnew.1, fun hid => hnew.2 (hiff.mpr hid)⟩
  · rintro ⟨hput, hid⟩
    have hout : i ∉ x.slots := fun hin => hid (hiff.mp hin)
    have hinsert : x'.slots = insert i x.slots := by
      ext j
      rw [hslots, Finset.mem_insert]
      by_cases hj : j = i
      · simp [hj, hput]
      · simp [hj]
    have hbelow : x.ocl.attachedClients < x.ocl.maxClients := by
      have hle := slots_card_le x'
      have hmax : x'.ocl.maxClients = x.ocl.maxClients := by
        subst hx'
        rfl
      rw [hinsert, Finset.card_insert_of_notMem hout, hmax] at hle
      have hnumber := h.number
      omega
    refine accounted_of ?_ ?_ ?_
    · rw [hcount, hinsert, Finset.card_insert_of_notMem hout, h.number]
      rfl
    · subst hx'
      change x.acked ++ _ = x.counted ++ [c.id]
      rw [if_pos ⟨hput, hbelow⟩, h.acked]
    · intro hidle
      subst hx'
      cases hidle

/-- A detach counts down, so that it must be of a client that has attached. -/
theorem accounted_step_detach (hx : x.Known) (h : x.Accounted) (hrunning : x.ocl.halted = false) {i : ℕ}
    {c : Client} (hc : x.ocl.live i = some c) :
    (x.step (.client i .detach)).Accounted ↔ c.id ∈ x.attached := by
  have hknown := hx.step (.client i .detach)
  rw [attachments_step_detach hrunning hc] at hknown ⊢
  generalize hx' : (⟨detach x.ocl i c, x.attached.filter (fun id => c.id ≠ id), x.counted, x.acked⟩ :
    Attachments) = x' at hknown ⊢
  have hlive : ∀ j, x'.ocl.live j = if j = i then none else x.ocl.live j := by
    intro j
    subst hx'
    exact detach_live x.ocl i c j
  have herase : x'.slots = x.slots.erase i := by
    ext j
    rw [Finset.mem_erase]
    by_cases hj : j = i
    · simp [mem_slots hknown, hlive, hj]
    · rw [and_iff_right hj]
      apply mem_slots_other hx hknown ((hlive j).trans (if_neg hj))
      intro d hd
      have hne : d.id ≠ c.id := fun hid => hj (live_distinct hx hc hd hid)
      subst hx'
      simp [hne.symm]
  have hcount : x'.ocl.attachedClients = x.ocl.attachedClients - 1 := by
    subst hx'
    rfl
  have hiff := mem_slots_live hx hc
  constructor
  · intro h'
    by_contra hid
    have hnumber := h'.number
    rw [herase, Finset.erase_eq_of_notMem (fun hin => hid (hiff.mp hin)), hcount, h.number] at hnumber
    omega
  · intro hid
    have hin : i ∈ x.slots := hiff.mpr hid
    have hpos : 0 < x.slots.card := Finset.card_pos.mpr ⟨i, hin⟩
    have hnumber : x'.ocl.attachedClients = x'.slots.card := by
      rw [hcount, herase, Finset.card_erase_of_mem hin, h.number]
      omega
    refine accounted_of hnumber ?_ ?_
    · subst hx'
      exact h.acked
    · intro hidle
      have hstate : x'.ocl.state = if x.ocl.attachedClients - 1 = 0 then .idle else x.ocl.state := by
        subst hx'
        rfl
      by_cases hzero : x.ocl.attachedClients - 1 = 0
      · omega
      · rw [hstate, if_neg hzero] at hidle
        have hnone := h.idle hidle
        omega

/-- The account goes on exactly over proper steps. -/
theorem accounted_step_iff (hx : x.Known) (h : x.Accounted) (a : Action) : (x.step a).Accounted ↔ x.Proper a := by
  by_cases hhalted : x.ocl.halted = true
  · have hstep : x.step a = x := by simp [Attachments.step, hhalted]
    rw [hstep]
    exact iff_of_true h (.inl hhalted)
  have hrunning : x.ocl.halted = false := by simpa using hhalted
  have hproper : x.Proper a ↔ match a with
      | .client i (.attach put) => ∀ c ∈ x.ocl.live i, put = true ∧ c.id ∉ x.attached
      | .client i .detach => ∀ c ∈ x.ocl.live i, c.id ∈ x.attached
      | a => ∀ i ∈ x.slots, ((x.ocl.step a).live i).isSome = true := by
    unfold Attachments.Proper
    rw [hrunning]
    simp
  rw [hproper]
  split
  · rename_i i put
    cases hc : x.ocl.live i with
    | none =>
        rw [step_unreached hrunning hc (.inl ⟨put, rfl⟩)]
        exact iff_of_true h nofun
    | some c =>
        rw [accounted_step_attach hx h hrunning hc]
        simp
  · rename_i i
    cases hc : x.ocl.live i with
    | none =>
        rw [step_unreached hrunning hc (.inr rfl)]
        exact iff_of_true h nofun
    | some c =>
        rw [accounted_step_detach hx h hrunning hc]
        simp
  · rename_i hattach hdetach
    exact accounted_step_other hx h hrunning hattach hdetach

end Account

/-- In every run the account is right in all states exactly when all steps are proper. -/
theorem attachAccount_iff (parms : Parms) (maxClients : ℕ) (afuEvent : AfuEvent) (as : List Action) :
    (∀ pre, pre <+: as → (pre.foldl Attachments.step (Attachments.init parms maxClients afuEvent)).Accounted) ↔
      Along Attachments.step Attachments.Proper (Attachments.init parms maxClients afuEvent) as := by
  have hknown : ∀ pre : List Action,
      (pre.foldl Attachments.step (Attachments.init parms maxClients afuEvent)).Known :=
    foldl_invariant Attachments.Known (fun x a hx => hx.step a)
      (Attachments.init_known parms maxClients afuEvent)
  have hstep : ∀ (x : Attachments) (a : Action), x.Known ∧ x.Accounted →
      (((x.step a).Known ∧ (x.step a).Accounted) ↔ x.Proper a) := by
    rintro x a ⟨hx, h⟩
    rw [← accounted_step_iff hx h a, and_iff_right (hx.step a)]
  have hprefixes := along_iff_prefixes (fun x : Attachments => x.Known ∧ x.Accounted) hstep
    ⟨Attachments.init_known parms maxClients afuEvent, Attachments.init_accounted parms maxClients afuEvent⟩ as
  rw [← hprefixes]
  constructor
  · exact fun h pre hpre => ⟨hknown pre, h pre hpre⟩
  · exact fun h pre hpre => (h pre hpre).2

/-- Two clients connect, the first one attaches, the second one closes. -/
def closedUnattachedRun : List Action :=
  [.associate 0, .associate 0, .client 0 (.attach true), .client 1 .detach]

/-- The AFU is idle and its clock stops, with a client attached. -/
theorem closedUnattachedRun_uncounted :
    ¬(closedUnattachedRun.foldl Attachments.step (Attachments.init (.quiet 128 (by simp)) 2 sampleAfu)).Accounted := by
  intro h
  have hstate : (closedUnattachedRun.foldl Attachments.step
      (Attachments.init (.quiet 128 (by simp)) 2 sampleAfu)).ocl.state = .idle := by decide +kernel
  have hcard : (closedUnattachedRun.foldl Attachments.step
      (Attachments.init (.quiet 128 (by simp)) 2 sampleAfu)).slots.card = 1 := by decide +kernel
  rw [h.idle hstate] at hcard
  cases hcard

end Ocse
