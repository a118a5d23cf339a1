import Ocse.EngineInv
import Ocse.Lib.LinkWalk

/-!
# The list of commands

`cmd->list` as the source has it: events that are allocated and linked by `_next`, walked by the address of a link.
`_add_cmd` puts an event in where its draws stop the walk, `handle_response` and `handle_xlate_intrp_pending_sent`
take one out where theirs stops; the other handlers write to events that stay where they are. Step by step this is
the list of the engine.
-/

namespace Ocse

abbrev CmdList := Linked CmdEvent

namespace CmdList

/-- `!allow_reorder`, with the draws that are left. -/
def reorderStop (p : Parms) (reorder : ℕ → ℕ) (_ : CmdEvent) : Bool × (ℕ → ℕ) :=
  (percentChance p.reorderPercent (reorder 0), fun n => reorder (n + 1))

def respondStop (_ : Unit) (e : CmdEvent) : Bool × Unit := (e.responding, ())

/-- The draw is made for the events whose pending response has been sent, and for no other. -/
def pendingStop (p : Parms) (reorder : ℕ → ℕ) (e : CmdEvent) : Bool × (ℕ → ℕ) :=
  if e.state = .pendingSent then (!percentChance p.reorderPercent (reorder 0), fun n => reorder (n + 1))
  else (false, reorder)

/-- The part of `_add_cmd` that links the event. -/
def addCmd (malloc : Malloc) (p : Parms) (d : Draws) (e : CmdEvent) (l : CmdList) : Option CmdList :=
  l.insert malloc (reorderStop p) d.reorder e

/-- The part of `handle_response` that serves the event it has found. -/
def respond (s : Ocl) (rand : ℕ) (link : LinkRef) (p : ℕ) (e : CmdEvent) (l : CmdList) : Option CmdList := do
  let e := e.prepare s.parms.hostClSize
  let l ← l.setData p e
  if (sendResponse s.afuEvent e (if percentChance s.parms.bdiRespErrPercent rand then 1 else 0)).1 = tlxSuccess then
    if e.state = .xlatePending ∨ e.state = .intPending then l.setData p { e with state := .pendingSent }
    else if 0 < e.respBytesSent ∧ e.respBytesSent ≠ e.size then some l
    else l.removeAt link p
  else l.setData p (e.backUp s.parms.hostClSize)

/-- Of the engine `s` everything but the list is looked at. -/
def handleResponse (s : Ocl) (rand : ℕ) (l : CmdList) : Option CmdList := do
  let link ← l.walk respondStop l.heap.fuel () .head
  match ← l.load link with
  | none => some l
  | some p => do
    let c ← l.heap.lookup p
    match s.getClient c.data with
    | none => some l
    | some _ => respond s rand link p c.data l

/-- The end of `handle_xlate_intrp_pending_sent`, with the code that was drawn for the event. -/
def postPending (s : Ocl) (link : LinkRef) (p : ℕ) (e : CmdEvent) (l : CmdList) : Option CmdList := do
  let l ← l.setData p e
  if (tlxAfuSendPostedCmd s.afuEvent (postedOpcode e.command) e.afutag e.resp).1 = tlxSuccess then l.removeAt link p
  else some l

def handleXlateIntrpPendingSent (s : Ocl) (d : Draws) (l : CmdList) : Option CmdList := do
  let link ← l.walk (pendingStop s.parms) l.heap.fuel d.reorder .head
  match ← l.load link with
  | none => some l
  | some p => do
    let c ← l.heap.lookup p
    match s.getClient c.data with
    | none => some l
    | some _ =>
      if percentChance s.parms.retryPercent d.retry then postPending s link p { c.data with resp := 0x02 } l
      else if percentChance s.parms.failedPercent d.failed then l.setData p { c.data with resp := 0x0f }
      else postPending s link p { c.data with resp := 0 } l

/-- What `handle_cmd` does to the list, with the event that it has made of the command. -/
def handleCmd (malloc : Malloc) (s : Ocl) (d : Draws) (l : CmdList) : Option CmdList :=
  match lookup CmdEvent.id (Ocse.handleCmd s d).list s.nextId with
  | none => some l
  | some e => addCmd malloc s.parms d e l

/-- The events are written to where they are. -/
def writeEvents (list : List CmdEvent) (l : CmdList) : Option CmdList := do
  let heap ← Linked.mapData (fun e => (lookup CmdEvent.id list e.id).getD e) l.heap.fuel l.heap l.head
  some { l with heap := heap }

/-- What an action does to the list in memory. -/
def act (malloc : Malloc) (s : Ocl) (l : CmdList) : Action → Option CmdList
  | .response rand => handleResponse s rand l
  | .pendingSent d => handleXlateIntrpPendingSent s d l
  | .cmd d => handleCmd malloc s d l
  | a => writeEvents (s.act a).list l

def step (malloc : Malloc) (s : Ocl) (l : CmdList) (a : Action) : Option CmdList :=
  if s.halted then some l else act malloc s l a

end CmdList

/-- The two handlers that take an event out of the list. -/
def Action.Removes : Action → Prop
  | .response _ | .pendingSent _ => True
  | _ => False

/-- What an action may do to the cells of the list: one is put in by a command, one is taken out by a response or a
posted command, or all stay where they are. The other cells keep their addresses, their events and their order. -/
inductive CellsStep (a : Action) : List (ℕ × CmdEvent) → List (ℕ × CmdEvent) → Prop
  | added (d : Draws) (ha : a = .cmd d) (before after : List (ℕ × CmdEvent)) (p : ℕ) (e : CmdEvent)
      (hp : p ∉ (before ++ after).map Prod.fst) (htag : e.afutag ∉ (before ++ after).map (fun c => c.2.afutag)) :
      CellsStep a (before ++ after) (before ++ (p, e) :: after)
  | removed (ha : a.Removes) (before after : List (ℕ × CmdEvent)) (p : ℕ) (e : CmdEvent) :
      CellsStep a (before ++ (p, e) :: after) (before ++ after)
  | kept (cells cells' : List (ℕ × CmdEvent)) (hp : cells'.map Prod.fst = cells.map Prod.fst)
      (hid : cells'.map (fun c => c.2.id) = cells.map (fun c => c.2.id)) : CellsStep a cells cells'

/-! ## Where the walks end -/

section Walks

variable {p : Parms} {reorder : ℕ → ℕ} {e : CmdEvent} {list : List CmdEvent}

theorem insertCmd_eq_split : insertCmd p reorder e list =
    (splitWhere (CmdList.reorderStop p) reorder list).1 ++ e :: (splitWhere (CmdList.reorderStop p) reorder list).2 := by
  induction list generalizing reorder with
  | nil => rfl
  | cons x xs ih =>
    rw [insertCmd, splitWhere]
    by_cases hchance : percentChance p.reorderPercent (reorder 0) = true
    · rw [if_pos hchance, if_pos (show (CmdList.reorderStop p reorder x).1 = true from hchance)]
      rfl
    · rw [if_neg hchance, if_neg (show ¬(CmdList.reorderStop p reorder x).1 = true from hchance), ih]
      rfl

theorem find_responding_eq_split :
    list.find? CmdEvent.responding = (splitWhere CmdList.respondStop () list).2.head? := by
  induction list with
  | nil => rfl
  | cons x xs ih =>
    rw [splitWhere]
    by_cases hresp : x.responding = true
    · rw [List.find?_cons_of_pos hresp, if_pos (show (CmdList.respondStop () x).1 = true from hresp)]
      rfl
    · rw [List.find?_cons_of_neg hresp, if_neg (show ¬(CmdList.respondStop () x).1 = true from hresp), ih]
      rfl

theorem pickPendingSent_eq_split :
    pickPendingSent p reorder list = (splitWhere (CmdList.pendingStop p) reorder list).2.head? := by
  induction list generalizing reorder with
  | nil => rfl
  | cons x xs ih =>
    rw [pickPendingSent, splitWhere]
    unfold CmdList.pendingStop
    by_cases hstate : x.state = .pendingSent
    · rw [if_pos hstate, if_pos hstate]
      by_cases hchance : percentChance p.reorderPercent (reorder 0) = true
      · rw [if_pos hchance, if_neg (by simp [hchance]), ih]
        rfl
      · rw [if_neg hchance, if_pos (by simp [hchance])]
        rfl
    · rw [if_neg hstate, if_neg hstate, if_neg (by simp), ih]
      rfl

end Walks

/-! ## What the other handlers leave as it is -/

/-- No event has come or gone, and no slot has been filled. -/
structure StaysPut (s s' : Ocl) : Prop where
  ids : s'.list.map CmdEvent.id = s.list.map CmdEvent.id
  slots : ∀ i, s.client i = none → s'.client i = none

section StaysPut

variable {s s' s'' : Ocl} {e : CmdEvent} {c : Client}

theorem StaysPut.same (hlist : s'.list = s.list) (hclient : s'.client = s.client) : StaysPut s s' where
  ids := by rw [hlist]
  slots := by
    intro i hi
    rw [hclient]
    exact hi

theorem StaysPut.refl (s : Ocl) : StaysPut s s := .same rfl rfl

theorem StaysPut.trans (h : StaysPut s s') (h' : StaysPut s' s'') : StaysPut s s'' where
  ids := h'.ids.trans h.ids
  slots := fun i hi => h'.slots i (h.slots i hi)

theorem StaysPut.setEvent (e : CmdEvent) (hlist : s'.list = (s.setEvent e).list) (hclient : s'.client = s.client) :
    StaysPut s s' where
  ids := by
    rw [hlist]
    exact map_replace_key
  slots := by
    intro i hi
    rw [hclient]
    exact hi

theorem StaysPut.setClient {i : ℕ} (hc : s.client i = some c) (x : Option Client)
    (hids : s'.list.map CmdEvent.id = s.list.map CmdEvent.id) (hclient : s'.client = Function.update s.client i x) :
    StaysPut s s' where
  ids := hids
  slots := by
    intro j hj
    have hji : j ≠ i := by
      rintro rfl
      rw [hc] at hj
      cases hj
    rw [hclient, Function.update_of_ne hji]
    exact hj

theorem StaysPut.request (hc : s.getClient e = some c) (state : MemState) (bytes : List UInt8) (ok : Bool) :
    StaysPut s (s.request c e state bytes ok) :=
  .setClient (getClient_eq_some hc).2 _ map_replace_key rfl

theorem handleBufferWrite_staysPut (s : Ocl) (d : Draws) : StaysPut s (handleBufferWrite s d) := by
  unfold handleBufferWrite
  cases s.list.find? (fun e => e.type = .read && e.state ≠ .done) with
  | none => exact .refl s
  | some e =>
    dsimp only
    cases hc : s.getClient e with
    | none => exact .refl s
    | some c =>
      dsimp only
      split
      · split_ifs
        · cases inject s.parms d tlxRspReadFailed e with
          | none => exact .request hc _ _ _
          | some e => exact .setEvent e rfl rfl
        · exact .refl s
      · split_ifs
        · exact .setEvent _ rfl rfl
        · exact .refl s
      · exact .request hc _ _ _
      · exact .refl s

theorem handleAfuTlxCmdDataRead_staysPut (s : Ocl) : StaysPut s (handleAfuTlxCmdDataRead s) := by
  unfold handleAfuTlxCmdDataRead
  split
  · exact .refl s
  · split
    · exact .setEvent _ rfl rfl
    · exact .same rfl rfl

theorem handleAfuTlxWriteCmd_staysPut (s : Ocl) (d : Draws) : StaysPut s (handleAfuTlxWriteCmd s d) := by
  unfold handleAfuTlxWriteCmd
  cases s.list.find? (fun e => e.type = .write && e.state = .received) with
  | none => exact .refl s
  | some e =>
    dsimp only
    cases hc : s.getClient e with
    | none => exact .refl s
    | some c =>
      dsimp only
      split_ifs
      · exact .refl s
      · cases inject s.parms d tlxRspWriteFailed e with
        | none => exact .request hc _ _ _
        | some e => exact .setEvent e rfl rfl

theorem handleWriteBeOrAmo_staysPut (s : Ocl) (d : Draws) : StaysPut s (handleWriteBeOrAmo s d) := by
  unfold handleWriteBeOrAmo
  cases s.list.find? (fun e => isWriteBeOrAmo e.type && e.state = .received) with
  | none => exact .refl s
  | some e =>
    dsimp only
    cases hc : s.getClient e with
    | none => exact .refl s
    | some c =>
      dsimp only
      by_cases hasked : c.memAccess ≠ none
      · rw [if_pos hasked]
        exact .refl s
      · rw [if_neg hasked]
        cases inject s.parms d (if e.type = .amoRd ∨ e.type = .amoRw then tlxRspReadFailed else tlxRspWriteFailed) e with
        | none => exact .request hc _ _ _
        | some e => exact .setEvent e rfl rfl

theorem handleInterrupt_staysPut (s : Ocl) (d : Draws) : StaysPut s (handleInterrupt s d) := by
  unfold handleInterrupt
  cases s.list.find? (fun e => (e.type = .interrupt || e.type = .wakeHostThrd) &&
      (e.state = .idle || e.state = .received)) with
  | none => exact .refl s
  | some e =>
    dsimp only
    cases hc : s.getClient e with
    | none => exact .refl s
    | some c =>
      dsimp only
      cases injectInterrupt s.parms d e with
      | some e => exact .setEvent e rfl rfl
      | none => exact .setClient (getClient_eq_some hc).2 _ map_replace_key rfl

theorem handleMemReturn_staysPut (s : Ocl) (e : CmdEvent) (avail : List UInt8) :
    StaysPut s (handleMemReturn s e avail) := by
  unfold handleMemReturn
  split
  · exact .refl s
  · exact .setEvent _ rfl rfl

theorem handleClient_staysPut (s : Ocl) (i : ℕ) (input : ClientInput) : StaysPut s (handleClient s i input) := by
  unfold handleClient
  cases hc : s.client i with
  | none => exact .refl s
  | some c =>
    have hanswer : ∀ s', StaysPut s s' → s'.client = s.client → StaysPut s (s'.clearMemAccess i c) := by
      intro s' h hclient
      refine .setClient hc (some { c with memAccess := none }) h.ids ?_
      rw [← hclient]
      rfl
    dsimp only
    split_ifs
    · exact .refl s
    · cases input with
      | quiet => exact .refl s
      | lost => exact .setClient hc _ rfl rfl
      | detach => exact .setClient hc _ rfl rfl
      | attach put => exact .setClient hc _ rfl rfl
      | memFailure =>
        dsimp only
        cases s.memAccess c with
        | none => exact hanswer s (.refl s) rfl
        | some e => exact hanswer _ (.setEvent _ rfl rfl) rfl
      | memSuccess avail =>
        dsimp only
        cases s.memAccess c with
        | none => exact hanswer s (.refl s) rfl
        | some e =>
          refine hanswer _ (handleMemReturn_staysPut s e avail) ?_
          unfold handleMemReturn
          split
          · rfl
          · rfl
      | mmio lost =>
        cases lost
        · exact .refl s
        · exact .setClient hc _ rfl rfl
      | unexpected => exact .same rfl rfl

theorem terminateEvents_staysPut (s : Ocl) (c : Client) : StaysPut s (terminateEvents s c) where
  ids := by
    unfold terminateEvents
    rw [List.map_map, List.map_inj_left]
    intro e _
    change (if e.openFor c then e.terminate else e).id = e.id
    split_ifs
    · rfl
    · rfl
  slots := fun _ hi => hi

theorem settleClient_staysPut (s : Ocl) (i : ℕ) : StaysPut s (settleClient s i) := by
  unfold settleClient
  cases hc : s.client i with
  | none => exact .refl s
  | some c =>
    have hcmd : StaysPut s (clientCmd s c).2 ∧ (clientCmd s c).2.client = s.client := by
      unfold clientCmd
      cases c.state with
      | valid => exact ⟨.refl s, rfl⟩
      | none => exact ⟨terminateEvents_staysPut s c, rfl⟩
      | init => exact ⟨.refl s, rfl⟩
    refine .setClient hc (some { c with idleCycles := if (clientCmd s c).1 then tlxIdleCycles else 0 }) hcmd.1.ids ?_
    rw [← hcmd.2]
    rfl

theorem clearSlot_staysPut (s : Ocl) (i : ℕ) : StaysPut s (clearSlot s i) := by
  unfold clearSlot
  cases hc : s.client i with
  | none => exact .refl s
  | some c =>
    dsimp only
    split_ifs
    · exact .setClient hc none rfl rfl
    · exact .refl s

end StaysPut

/-- The actions that leave every event where it is and fill no slot. -/
def Action.Stays : Action → Prop
  | .response _ | .pendingSent _ | .cmd _ | .associate _ => False
  | _ => True

theorem act_staysPut (s : Ocl) {a : Action} (ha : a.Stays) : StaysPut s (s.act a) := by
  cases a with
  | idle cycles => exact .same rfl rfl
  | signalAfu => exact .same rfl rfl
  | getAfuEvents socket => exact .same rfl rfl
  | mmio signals => exact .same rfl rfl
  | response rand => exact ha.elim
  | bufferWrite d => exact handleBufferWrite_staysPut s d
  | pendingSent d => exact ha.elim
  | cmd d => exact ha.elim
  | cmdDataRead => exact handleAfuTlxCmdDataRead_staysPut s
  | writeCmd d => exact handleAfuTlxWriteCmd_staysPut s d
  | touch d =>
    change StaysPut s (handleTouch s d)
    rw [handleTouch_eq]
    exact .refl s
  | interrupt d => exact handleInterrupt_staysPut s d
  | writeBeOrAmo d => exact handleWriteBeOrAmo_staysPut s d
  | client i input => exact handleClient_staysPut s i input
  | settle i => exact settleClient_staysPut s i
  | clear i => exact clearSlot_staysPut s i
  | associate bdf => exact ha.elim

/-! ## Commands -/

/-- A command adds at most one event, where the draws say, and fills no slot. -/
structure CmdAdds (s : Ocl) (d : Draws) (s' : Ocl) : Prop where
  list : s'.list = s.list ∨ ∃ e, e.id = s.nextId ∧ s'.list = insertCmd s.parms d.reorder e s.list
  slots : ∀ i, s.client i = none → s'.client i = none

section CmdAdds

variable {s s' : Ocl} {d : Draws} {cmd : AfuTlxCmd}

theorem CmdAdds.refl (s : Ocl) (d : Draws) : CmdAdds s d s := ⟨.inl rfl, fun _ hi => hi⟩

theorem CmdAdds.ite {s₁ s₂ : Ocl} {p : Prop} [Decidable p] (h₁ : CmdAdds s d s₁) (h₂ : CmdAdds s d s₂) :
    CmdAdds s d (if p then s₁ else s₂) := by
  apply iteInduction (motive := CmdAdds s d)
  · exact fun _ => h₁
  · exact fun _ => h₂

theorem addCmd_adds (s : Ocl) (d : Draws) (cmd : AfuTlxCmd) (n : NewCmd) (c : Client) :
    CmdAdds s d (addCmd s d cmd n c) := by
  refine ⟨.inr ⟨_, ?_, rfl⟩, fun _ hi => hi⟩
  split_ifs
  · rw [CmdEvent.firstBeat_eq]
    rfl
  · rfl

theorem addFor_adds (s : Ocl) (d : Draws) (cmd : AfuTlxCmd) (n : ℕ → NewCmd) : CmdAdds s d (addFor s d cmd n) := by
  unfold addFor
  split
  · exact .refl s d
  · split
    · exact .refl s d
    · exact addCmd_adds s d cmd _ _

theorem addAligned_adds (size : ℕ) (failOpcode : UInt8) (hok : CmdAdds s d s') :
    CmdAdds s d (addAligned s d cmd size failOpcode s') := by
  unfold addAligned
  split
  · exact addFor_adds s d cmd _
  · exact addFor_adds s d cmd _
  · exact hok

theorem addAmo_adds (s : Ocl) (d : Draws) (cmd : AfuTlxCmd) (type : CmdType) (dataIsValid : Bool) :
    CmdAdds s d (addAmo s d cmd type dataIsValid) := by
  unfold addAmo
  split
  · exact addFor_adds s d cmd _
  · exact .ite (addFor_adds s d cmd _) (addFor_adds s d cmd _)

theorem assignActag_adds (s : Ocl) (d : Draws) (bdf : UInt16) (pasid : UInt32) (actag : UInt16) :
    CmdAdds s d (assignActag s bdf pasid actag) := by
  unfold assignActag
  split
  · exact .refl s d
  · refine ⟨.inl rfl, fun i hi => ?_⟩
    rename_i j _
    change Function.update s.client j ((s.client j).map _) i = none
    by_cases hij : i = j
    · rw [hij, Function.update_self, ← hij, hi]
      rfl
    · rw [Function.update_of_ne hij, hi]

theorem CmdAdds.keepData {dataIsValid : Bool} (h : CmdAdds (s.keepData dataIsValid) d s') : CmdAdds s d s' := by
  cases dataIsValid
  · exact h
  · exact ⟨h.list, h.slots⟩

theorem parseCmd_adds (s : Ocl) (d : Draws) (cmd : AfuTlxCmd) (dataIsValid : Bool) :
    CmdAdds s d (parseCmd s d cmd dataIsValid) := by
  unfold parseCmd
  dsimp only
  refine .ite (assignActag_adds _ d _ _ _).keepData ?_
  refine .ite (addAligned_adds _ _ (addFor_adds _ d cmd _)).keepData ?_
  refine .ite (addAligned_adds _ _ (addFor_adds _ d cmd _)).keepData ?_
  refine .ite (addAligned_adds _ _ (addFor_adds s d cmd _)) ?_
  refine .ite (addAligned_adds _ _ (addFor_adds s d cmd _)) ?_
  refine .ite (addAligned_adds _ _ (addFor_adds s d cmd _)) ?_
  refine .ite (addAmo_adds s d cmd _ _) ?_
  refine .ite (addAmo_adds s d cmd _ _) ?_
  refine .ite (addAmo_adds s d cmd _ _) ?_
  refine .ite (addFor_adds s d cmd _) ?_
  refine .ite (addFor_adds s d cmd _) ?_
  refine .ite (.refl s d) ?_
  exact .ite (addAligned_adds _ _ (addFor_adds _ d cmd _)).keepData (addFor_adds s d cmd _)

theorem handleCmd_adds (s : Ocl) (d : Draws) : CmdAdds s d (handleCmd s d) := by
  unfold handleCmd
  split
  · exact .refl s d
  · dsimp only
    split_ifs
    · exact ⟨.inl rfl, fun _ hi => hi⟩
    · obtain ⟨hlist, hslots⟩ := parseCmd_adds _ d _ _
      exact ⟨hlist, hslots⟩

end CmdAdds

/-! ## One step -/

section Steps

variable {s : Ocl} {l : CmdList} {cells before after : List (ℕ × CmdEvent)} {p : ℕ} {e e' : CmdEvent}

/-- The list in memory is the list of the engine. -/
structure CmdList.Lists (l : CmdList) (s : Ocl) (cells : List (ℕ × CmdEvent)) : Prop where
  holds : l.Holds cells
  events : cells.map Prod.snd = s.list

theorem CmdList.Lists.congr {s' : Ocl} (h : l.Lists s cells) (hlist : s'.list = s.list) : l.Lists s' cells :=
  ⟨h.holds, h.events.trans hlist.symm⟩

/-- What is to be shown of a step: it has a result, which is the list of the engine again. -/
def CmdList.Follows (l' : Option CmdList) (s' : Ocl) (a : Action) (cells : List (ℕ × CmdEvent)) : Prop :=
  ∃ l cells', l' = some l ∧ l.Lists s' cells' ∧ CellsStep a cells cells'

theorem CmdList.Lists.stay (h : l.Lists s cells) {s' : Ocl} (hlist : s'.list = s.list) (a : Action) :
    CmdList.Follows (some l) s' a cells :=
  ⟨l, cells, rfl, h.congr hlist, .kept cells cells rfl rfl⟩

theorem CmdList.Lists.list_eq (h : l.Lists s (before ++ (p, e) :: after)) :
    s.list = before.map Prod.snd ++ e :: after.map Prod.snd := by
  rw [← h.events, List.map_append]
  rfl

theorem CmdList.Lists.setEvent (h : l.Lists s (before ++ (p, e) :: after)) (hs : s.Wf) (hid : e'.id = e.id) :
    (s.setEvent e').list = before.map Prod.snd ++ e' :: after.map Prod.snd := by
  have hids := hs.ids
  rw [h.list_eq] at hids
  have hreplace := replace_append_cons hids hid
  rw [← h.list_eq] at hreplace
  exact hreplace

theorem CmdList.Lists.freeEvent (h : l.Lists s (before ++ (p, e) :: after)) (hs : s.Wf) :
    (s.freeEvent e).list = before.map Prod.snd ++ after.map Prod.snd := by
  have hids := hs.ids
  rw [h.list_eq] at hids
  have hremove := remove_append_cons hids
  rw [← h.list_eq] at hremove
  exact hremove

theorem CmdList.Lists.stored (h : l.Lists s (before ++ (p, e) :: after)) (hs : s.Wf) (hid : e'.id = e.id) {s' : Ocl}
    (hlist : s'.list = (s.setEvent e').list) (a : Action) {l' : CmdList} (hholds : l'.Holds (before ++ (p, e') :: after)) :
    CmdList.Follows (some l') s' a (before ++ (p, e) :: after) := by
  refine ⟨l', before ++ (p, e') :: after, rfl, ⟨hholds, ?_⟩, .kept _ _ ?_ ?_⟩
  · rw [hlist, h.setEvent hs hid, List.map_append]
    rfl
  · rw [List.map_append, List.map_append]
    rfl
  · rw [List.map_append, List.map_append, List.map_cons, List.map_cons, hid]

theorem CmdList.Lists.removed (h : l.Lists s (before ++ (p, e) :: after)) (hs : s.Wf) {s' : Ocl}
    (hlist : s'.list = (s.freeEvent e).list) {a : Action} (ha : a.Removes) {l' : CmdList}
    (hholds : l'.Holds (before ++ after)) : CmdList.Follows (some l') s' a (before ++ (p, e) :: after) := by
  refine ⟨l', before ++ after, rfl, ⟨hholds, ?_⟩, .removed ha before after p e⟩
  rw [hlist, h.freeEvent hs, List.map_append]

theorem respond_follows (hs : s.Wf) (h : l.Lists s (before ++ (p, e) :: after)) (rand : ℕ) {c : Client}
    (hfind : s.list.find? CmdEvent.responding = some e) (hc : s.getClient e = some c) :
    CmdList.Follows (CmdList.respond s rand (linkBehind .head before) p e l) (handleResponse s rand) (.response rand)
      (before ++ (p, e) :: after) := by
  have hid : (e.prepare s.parms.hostClSize).id = e.id := e.prepare_id _
  obtain ⟨l', hset, hholds⟩ := h.holds.setData (e.prepare s.parms.hostClSize)
  unfold CmdList.respond
  dsimp only
  rw [hset]
  dsimp only [Option.bind_eq_bind, Option.bind_some]
  unfold handleResponse
  rw [hfind]
  dsimp only
  rw [hc]
  dsimp only
  by_cases hsent : (sendResponse s.afuEvent (e.prepare s.parms.hostClSize)
      (if percentChance s.parms.bdiRespErrPercent rand then 1 else 0)).1 = tlxSuccess
  · rw [if_pos hsent, if_pos hsent]
    by_cases hpending : (e.prepare s.parms.hostClSize).state = .xlatePending ∨
        (e.prepare s.parms.hostClSize).state = .intPending
    · obtain ⟨l'', hset', hholds'⟩ := hholds.setData { e.prepare s.parms.hostClSize with state := .pendingSent }
      rw [if_pos hpending, if_pos hpending, hset']
      refine h.stored hs ?_ ?_ _ hholds'
      · exact hid
      · rfl
    · rw [if_neg hpending, if_neg hpending]
      by_cases hmore : 0 < (e.prepare s.parms.hostClSize).respBytesSent ∧
          (e.prepare s.parms.hostClSize).respBytesSent ≠ (e.prepare s.parms.hostClSize).size
      · rw [if_pos hmore, if_pos hmore]
        refine h.stored hs hid ?_ _ hholds
        rfl
      · obtain ⟨l'', hremove, hholds'⟩ := hholds.removeAt
        rw [if_neg hmore, if_neg hmore, hremove]
        refine h.removed hs ?_ ?_ hholds'
        · unfold Ocl.freeEvent
          rw [hid]
          rfl
        · trivial
  · have hback : ((e.prepare s.parms.hostClSize).backUp s.parms.hostClSize).id = e.id := by
      unfold CmdEvent.backUp
      split_ifs
      · exact hid
      · exact hid
    obtain ⟨l'', hset', hholds'⟩ := hholds.setData ((e.prepare s.parms.hostClSize).backUp s.parms.hostClSize)
    rw [if_neg hsent, if_neg hsent, hset']
    refine h.stored hs hback ?_ _ hholds'
    rfl

theorem handleResponse_follows (hs : s.Wf) (h : l.Lists s cells) (rand : ℕ) :
    CmdList.Follows (CmdList.handleResponse s rand l) (handleResponse s rand) (.response rand) cells := by
  obtain ⟨before, after, rfl, hsplit, hwalk, hload⟩ := h.holds.walk CmdList.respondStop ()
  have hfind : s.list.find? CmdEvent.responding = (after.map Prod.snd).head? := by
    rw [find_responding_eq_split, ← h.events, hsplit]
  unfold CmdList.handleResponse
  rw [hwalk]
  dsimp only [Option.bind_eq_bind, Option.bind_some]
  rw [hload]
  cases after with
  | nil =>
    refine h.stay ?_ _
    unfold handleResponse
    rw [hfind]
    rfl
  | cons c after =>
    obtain ⟨p, e⟩ := c
    obtain ⟨next, hlookup⟩ := h.holds.lookup
    replace hfind : s.list.find? CmdEvent.responding = some e := hfind
    dsimp only [List.head?_cons, Option.map_some, Option.bind_some]
    rw [hlookup]
    dsimp only [Option.bind_some]
    cases hc : s.getClient e with
    | none =>
      refine h.stay ?_ _
      unfold handleResponse
      rw [hfind]
      dsimp only
      rw [hc]
    | some c => exact respond_follows hs h rand hfind hc

theorem postPending_follows (hs : s.Wf) (h : l.Lists s (before ++ (p, e) :: after)) (hid : e'.id = e.id) {a : Action}
    (ha : a.Removes) :
    CmdList.Follows (CmdList.postPending s (linkBehind .head before) p e' l) (postPending s e') a
      (before ++ (p, e) :: after) := by
  obtain ⟨l', hset, hholds⟩ := h.holds.setData e'
  unfold CmdList.postPending postPending
  rw [hset]
  dsimp only [Option.bind_eq_bind, Option.bind_some]
  by_cases hsent : (tlxAfuSendPostedCmd s.afuEvent (postedOpcode e'.command) e'.afutag e'.resp).1 = tlxSuccess
  · obtain ⟨l'', hremove, hholds'⟩ := hholds.removeAt
    rw [if_pos hsent, if_pos hsent, hremove]
    refine h.removed hs ?_ ha hholds'
    unfold Ocl.freeEvent
    rw [hid]
    rfl
  · rw [if_neg hsent, if_neg hsent]
    exact h.stored hs hid rfl _ hholds

theorem handleXlateIntrpPendingSent_follows (hs : s.Wf) (h : l.Lists s cells) (d : Draws) :
    CmdList.Follows (CmdList.handleXlateIntrpPendingSent s d l) (handleXlateIntrpPendingSent s d) (.pendingSent d)
      cells := by
  have hremoves : (Action.pendingSent d).Removes := trivial
  obtain ⟨before, after, rfl, hsplit, hwalk, hload⟩ := h.holds.walk (CmdList.pendingStop s.parms) d.reorder
  have hpick : pickPendingSent s.parms d.reorder s.list = (after.map Prod.snd).head? := by
    rw [pickPendingSent_eq_split, ← h.events, hsplit]
  unfold CmdList.handleXlateIntrpPendingSent
  rw [hwalk]
  dsimp only [Option.bind_eq_bind, Option.bind_some]
  rw [hload]
  cases after with
  | nil =>
    refine h.stay ?_ _
    unfold handleXlateIntrpPendingSent
    rw [hpick]
    rfl
  | cons c after =>
    obtain ⟨p, e⟩ := c
    obtain ⟨next, hlookup⟩ := h.holds.lookup
    replace hpick : pickPendingSent s.parms d.reorder s.list = some e := hpick
    dsimp only [List.head?_cons, Option.map_some, Option.bind_some]
    rw [hlookup]
    unfold handleXlateIntrpPendingSent
    rw [hpick]
    dsimp only [Option.bind_some]
    cases hc : s.getClient e with
    | none => exact h.stay rfl _
    | some c =>
      dsimp only
      by_cases hretry : percentChance s.parms.retryPercent d.retry = true
      · rw [if_pos hretry, if_pos hretry]
        refine postPending_follows hs h ?_ hremoves
        rfl
      · rw [if_neg hretry, if_neg hretry]
        by_cases hfailed : percentChance s.parms.failedPercent d.failed = true
        · obtain ⟨l', hset, hholds⟩ := h.holds.setData { e with resp := 0x0f }
          rw [if_pos hfailed, if_pos hfailed, hset]
          refine h.stored hs ?_ ?_ _ hholds
          · rfl
          · rfl
        · rw [if_neg hfailed, if_neg hfailed]
          refine postPending_follows hs h ?_ hremoves
          rfl

theorem handleCmd_follows (malloc : Malloc) (hs : s.Wf) (h : l.Lists s cells) {d : Draws} (hs' : (handleCmd s d).Wf) :
    CmdList.Follows (CmdList.handleCmd malloc s d l) (handleCmd s d) (.cmd d) cells := by
  unfold CmdList.handleCmd
  rcases (handleCmd_adds s d).list with hsame | ⟨e, hid, hlist⟩
  · have hnone : lookup CmdEvent.id (handleCmd s d).list s.nextId = none := by
      rw [hsame, lookup_eq_none]
      intro x hx
      exact Nat.ne_of_lt (hs.fresh x hx)
    rw [hnone]
    exact h.stay hsame _
  · obtain ⟨l₁, l₂, hl, hinsert⟩ := insertCmd_split s.parms d.reorder s.list e
    have hmem : e ∈ (handleCmd s d).list := by
      rw [hlist, hinsert]
      exact List.mem_append_right l₁ List.mem_cons_self
    have hfound : lookup CmdEvent.id (handleCmd s d).list s.nextId = some e := (lookup_eq_some hs'.ids).mpr ⟨hmem, hid⟩
    rw [hfound]
    obtain ⟨before, after, rfl, hsplit, -, -⟩ := h.holds.walk (CmdList.reorderStop s.parms) d.reorder
    obtain ⟨p, l', hadd, hp, hholds⟩ := h.holds.insert malloc hsplit e
    have hevents : (before ++ (p, e) :: after).map Prod.snd = (handleCmd s d).list := by
      rw [hlist, insertCmd_eq_split, ← h.events, hsplit, List.map_append]
      rfl
    refine ⟨l', before ++ (p, e) :: after, hadd, ⟨hholds, hevents⟩, .added d rfl before after p e hp ?_⟩
    have htags := hs'.tags
    rw [← hevents, List.map_map] at htags
    exact (nodup_map_middle.mp htags).1

theorem CmdList.Lists.write (h : l.Lists s cells) {s' : Ocl} (hs' : s'.Wf)
    (hids : s'.list.map CmdEvent.id = s.list.map CmdEvent.id) (a : Action) :
    CmdList.Follows (CmdList.writeEvents s'.list l) s' a cells := by
  obtain ⟨heap, hmap, hholds⟩ := h.holds.mapData (fun e => (lookup CmdEvent.id s'.list e.id).getD e)
  have hevents : (cells.map (fun c => (c.1, (lookup CmdEvent.id s'.list c.2.id).getD c.2))).map Prod.snd = s'.list := by
    have hlist := map_lookup_of_keys hs'.ids hids
    rw [← h.events, List.map_map] at hlist
    rw [List.map_map]
    exact hlist
  refine ⟨⟨heap, l.head⟩, _, ?_, ⟨hholds, hevents⟩, .kept _ _ ?_ ?_⟩
  · unfold CmdList.writeEvents
    rw [hmap]
    rfl
  · rw [List.map_map]
    rfl
  · have hof : ∀ (list : List CmdEvent) (cells : List (ℕ × CmdEvent)), cells.map Prod.snd = list →
        cells.map (fun c => c.2.id) = list.map CmdEvent.id := by
      rintro list cells rfl
      rw [List.map_map]
      rfl
    rw [hof _ _ hevents, hof _ _ h.events, hids]

/-- Whatever the action, the list in memory becomes the list of the engine. -/
theorem CmdList.Lists.step (malloc : Malloc) (hs : s.Wf) (h : l.Lists s cells) (a : Action) :
    CmdList.Follows (CmdList.step malloc s l a) (s.step a) a cells := by
  have hs' := step_wf hs a
  unfold CmdList.step
  by_cases hhalted : s.halted = true
  · have hstep : s.step a = s := if_pos hhalted
    rw [if_pos hhalted, hstep]
    exact h.stay rfl a
  · have hstep : s.step a = s.act a := if_neg hhalted
    rw [hstep] at hs'
    rw [if_neg hhalted, hstep]
    cases a with
    | response rand => exact handleResponse_follows hs h rand
    | pendingSent d => exact handleXlateIntrpPendingSent_follows hs h d
    | cmd d => exact handleCmd_follows malloc hs h hs'
    | associate bdf =>
      refine h.write hs' ?_ _
      change (clientAssociate s bdf).list.map CmdEvent.id = _
      unfold clientAssociate
      split
      · rfl
      · rfl
    | idle | signalAfu | getAfuEvents | mmio | bufferWrite | cmdDataRead | writeCmd | touch | interrupt |
      writeBeOrAmo | client | settle | clear =>
      refine h.write hs' (act_staysPut s ?_).ids _
      trivial

end Steps

/-! ## Clients and their events -/

/-- What a step makes of the client of a slot. -/
inductive ClientStep (s s' : Ocl) (i : ℕ) (c' : Client) : Prop
  | kept (c : Client) (hc : s.client i = some c) (hpasid : c'.pasid = c.pasid)
      (hasked : c'.state ≠ .none → ∀ id, c'.memAccess = some id →
        (c.state ≠ .none ∧ c.memAccess = some id) ∨ ∃ e ∈ s'.list, e.id = id)
  | new (hpasid : c'.pasid = UInt32.ofNat i) (hmem : c'.memAccess = none)

section Clients

variable {s s' : Ocl} {a : Action} {i j : ℕ} {c c' : Client} {e e' : CmdEvent}

theorem ClientStep.same (hclient : s'.client = s.client) (hc' : s'.client i = some c') : ClientStep s s' i c' := by
  rw [hclient] at hc'
  exact .kept c' hc' rfl (fun hstate id hmem => .inl ⟨hstate, hmem⟩)

/-- The client of one slot has changed. -/
theorem ClientStep.update {x : Option Client} (hclient : s'.client = Function.update s.client j x)
    (hc' : s'.client i = some c') (hx : ∀ c', x = some c' → ClientStep s s' j c') : ClientStep s s' i c' := by
  rw [hclient] at hc'
  rcases update_eq_some_iff.mp hc' with ⟨rfl, hx'⟩ | ⟨-, hc⟩
  · exact hx c' hx'
  · exact .kept c' hc rfl (fun hstate id hmem => .inl ⟨hstate, hmem⟩)

theorem ClientStep.dropped (hc : s.client j = some c) (h : c' = c ∨ c' = c.drop tlxIdleCycles .none) :
    ClientStep s s' j c' := by
  rcases h with rfl | rfl
  · exact .kept c' hc rfl (fun hstate id hmem => .inl ⟨hstate, hmem⟩)
  · exact .kept c hc rfl (fun hstate => absurd rfl hstate)

theorem step_clientStep (s : Ocl) (a : Action) (hc' : (s.step a).client i = some c') :
    ClientStep s (s.step a) i c' := by
  have heffect := step_effect s a
  generalize s.step a = s' at heffect hc' ⊢
  cases heffect with
  | quiet h => exact .same h.client hc'
  | ignore cmd d ha hoffers hassign htag h => exact .same h.client hc'
  | assign cmd d ha hoffers j c hop hfind hc h =>
    refine .update h.client hc' ?_
    rintro _ ⟨⟩
    exact .kept c hc rfl (fun hstate id hmem => .inl ⟨hstate, hmem⟩)
  | add cmd d ha hoffers e c l₁ l₂ hop hfind hc hfresh hnew hlist hlist' hclient hnextId htrace hparms hmax =>
    exact .same hclient hc'
  | rewrite e e' he hc hr h => exact .same h.client hc'
  | ask e c c'' bytes he hc hready hbytes hc'' h =>
    refine .update h.client hc' ?_
    rintro _ ⟨⟩
    have hpasid : c''.pasid = c.pasid := by rcases hc'' with rfl | rfl <;> rfl
    refine .kept c (getClient_eq_some hc).2 hpasid (fun _ id hmem => .inr ?_)
    obtain rfl := Option.some.inj hmem
    have hids : s'.list.map CmdEvent.id = s.list.map CmdEvent.id := by
      rw [h.list]
      exact map_replace_key
    have hmem := List.mem_map_of_mem (f := CmdEvent.id) he
    rw [← hids] at hmem
    exact List.mem_map.mp hmem
  | raise e c c'' he hc hraised hc'' h =>
    refine .update h.client hc' ?_
    rintro _ ⟨⟩
    exact .dropped (getClient_eq_some hc).2 hc''
  | respond e e' he hresp hc he' h => exact .same h.client hc'
  | finish e he hstate hc hlast h => exact .same h.client hc'
  | refuse e he hresp hc h => exact .same h.client hc'
  | post e resp he hstate hc h => exact .same h.client hc'
  | answer j input ha e e' c ans he hc hstate hmem he' h =>
    refine .update h.client hc' ?_
    rintro _ ⟨⟩
    exact .kept c hc rfl (fun _ id hmem => nomatch hmem)
  | client j c c'' hc hid hmem hstate h =>
    refine .update h.client hc' ?_
    rintro _ ⟨⟩
    refine .kept c hc hid.2.2.1 (fun hne id hid' => .inl ?_)
    rcases hmem with hsame | ⟨hnone, -⟩
    · rcases hstate with ⟨hstate, -⟩ | ⟨hstate, -⟩
      · exact ⟨hstate ▸ hne, hsame ▸ hid'⟩
      · exact absurd hstate hne
    · rw [hnone] at hid'
      cases hid'
  | terminate j ha c hc hstate h =>
    refine .update h.client hc' ?_
    rintro _ ⟨⟩
    exact .kept c hc rfl (fun hne => absurd hstate hne)
  | clear j ha c hc hstate hidle h =>
    refine .update h.client hc' ?_
    rintro _ ⟨⟩
  | associate bdf j hj hc hlist hnextId hclient htrace hparms hmax =>
    refine .update hclient hc' ?_
    rintro _ ⟨⟩
    exact .new rfl rfl

/-- An event that a client has been asked about stays in the list. -/
theorem step_awaiting (hs : s.Wf) (a : Action) (he : e ∈ s.list) (hawait : e.Awaiting) :
    ∃ e' ∈ (s.step a).list, e'.id = e.id := by
  have hkept : ∀ s' : Ocl, s'.list.map CmdEvent.id = s.list.map CmdEvent.id → ∃ e' ∈ s'.list, e'.id = e.id := by
    intro s' hids
    have hmem := List.mem_map_of_mem (f := CmdEvent.id) he
    rw [← hids] at hmem
    exact List.mem_map.mp hmem
  have hset : ∀ (s' : Ocl) (x : CmdEvent), s'.list = (s.setEvent x).list → ∃ e' ∈ s'.list, e'.id = e.id := by
    intro s' x hlist
    apply hkept s'
    rw [hlist]
    exact map_replace_key
  -- a client has not answered for it, so it is not what is freed
  have hfree : ∀ (s' : Ocl) (x : CmdEvent), x ∈ s.list → x.state = .done ∨ x.state = .pendingSent →
      s'.list = (s.freeEvent x).list → ∃ e' ∈ s'.list, e'.id = e.id := by
    intro s' x hx hstate hlist
    refine ⟨e, ?_, rfl⟩
    rw [hlist, hs.mem_freeEvent hx]
    refine ⟨he, ?_⟩
    rintro rfl
    rw [hawait.2] at hstate
    unfold CmdEvent.askedState at hstate
    split at hstate
    all_goals exact hstate.elim (fun h => nomatch h) (fun h => nomatch h)
  have heffect := step_effect s a
  generalize s.step a = s' at heffect ⊢
  cases heffect with
  | quiet h => exact ⟨e, h.list ▸ he, rfl⟩
  | ignore cmd d ha hoffers hassign htag h => exact ⟨e, h.list ▸ he, rfl⟩
  | assign cmd d ha hoffers j c hop hfind hc h => exact ⟨e, h.list ▸ he, rfl⟩
  | add cmd d ha hoffers x c l₁ l₂ hop hfind hc hfresh hnew hlist hlist' hclient hnextId htrace hparms hmax =>
    refine ⟨e, ?_, rfl⟩
    rw [hlist', List.mem_append, List.mem_cons]
    rw [hlist, List.mem_append] at he
    exact he.imp_right .inr
  | rewrite x x' hx hc hr h => exact hset _ _ h.list
  | ask x c c'' bytes hx hc hready hbytes hc'' h => exact hset _ _ h.list
  | raise x c c'' hx hc hraised hc'' h => exact hset _ _ h.list
  | respond x x' hx hresp hc hx' h => exact hset _ _ h.list
  | finish x hx hstate hc hlast h => exact hfree _ _ hx (.inl hstate) h.list
  | refuse x hx hresp hc h => exact hset _ _ h.list
  | post x resp hx hstate hc h => exact hfree _ _ hx (.inr hstate) h.list
  | answer j input ha x x' c ans hx hc hstate hmem hx' h => exact hset _ _ h.list
  | client j c c'' hc hid hmem hstate h => exact ⟨e, h.list ▸ he, rfl⟩
  | terminate j ha c hc hstate h =>
    apply hkept s'
    rw [h.list]
    exact (terminateEvents_staysPut s c).ids
  | clear j ha c hc hstate hidle h => exact ⟨e, h.list ▸ he, rfl⟩
  | associate bdf j hj hc hlist hnextId hclient htrace hparms hmax => exact ⟨e, hlist ▸ he, rfl⟩

end Clients

end Ocse
