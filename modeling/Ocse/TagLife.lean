import Ocse.EngineInv
import Ocse.Lib.Sessions

/-!
# The life of a tag

What the engine does, seen from one `afutag`: the tag is free, or one event carries it. A command opens a
session, the event moves while messages and answers are noted, and the message that unlinks the event
closes the session. `step_life` shows that every step of the engine is a step of every tag's life.
-/

namespace Ocse

/-! ## Histories -/

inductive Note
  | response (r : Response)
  | posted (opcode code : UInt8)
  | answered (ans : Answer)
  | terminated
  | refused

def Note.toResponse : Note → Option Response
  | .response r => some r
  | _ => none

def responses (ns : List Note) : List Response := ns.filterMap Note.toResponse

theorem responses_append (ns ms : List Note) : responses (ns ++ ms) = responses ns ++ responses ms :=
  List.filterMap_append

def entry (t : UInt16) : Obs → Option (Entry CmdEvent Note)
  | .added e _ _ => if e.afutag = t then some (.opened e) else none
  | .responded r => if r.afutag = t then some (.note (.response r)) else none
  | .refused tag => if tag = t then some (.note .refused) else none
  | .posted tag opcode code => if tag = t then some (.note (.posted opcode code)) else none
  | .answered tag ans => if tag = t then some (.note (.answered ans)) else none
  | .terminated tag => if tag = t then some (.note .terminated) else none
  | .removed tag => if tag = t then some .closed else none
  | .command _ | .sent _ _ _ | .connected _ _ _ => none

/-- The record of a run, as it concerns one tag. -/
def history (t : UInt16) (trace : List Obs) : List (Entry CmdEvent Note) := trace.filterMap (entry t)

def cmdEntry (t : UInt16) : Obs → Option (Entry (AfuTlxCmd × CmdEvent) Note)
  | .added e cmd _ => if e.afutag = t then some (.opened (cmd, e)) else none
  | .responded r => if r.afutag = t then some (.note (.response r)) else none
  | .refused tag => if tag = t then some (.note .refused) else none
  | .posted tag opcode code => if tag = t then some (.note (.posted opcode code)) else none
  | .answered tag ans => if tag = t then some (.note (.answered ans)) else none
  | .terminated tag => if tag = t then some (.note .terminated) else none
  | .removed tag => if tag = t then some .closed else none
  | .command _ | .sent _ _ _ | .connected _ _ _ => none

/-- The record as it concerns one tag, with the commands that opened the sessions. -/
def cmdHistory (t : UInt16) (trace : List Obs) : List (Entry (AfuTlxCmd × CmdEvent) Note) :=
  trace.filterMap (cmdEntry t)

theorem history_eq_map (t : UInt16) (trace : List Obs) :
    history t trace = (cmdHistory t trace).map (Entry.map Prod.snd) := by
  have hentry : ∀ o, entry t o = (cmdEntry t o).map (Entry.map Prod.snd) := by
    intro o
    cases o <;> simp only [entry, cmdEntry] <;> first | rfl | (split_ifs <;> rfl)
  unfold history cmdHistory
  rw [List.map_filterMap]
  exact congrArg (trace.filterMap ·) (funext hentry)

/-- The event that carries a tag. -/
def Ocl.tagged (s : Ocl) (t : UInt16) : Option CmdEvent := lookup CmdEvent.afutag s.list t

/-! ## Moves -/

/-- The event that a client answers about in this step, with the answer. -/
def Ocl.answered (s : Ocl) : Action → Option (CmdEvent × Answer)
  | .client i input =>
      match s.client i with
      | none => none
      | some c =>
        if s.halted = false ∧ c.state ≠ .none then
          match s.memAccess c, input with
          | some e, .memFailure => some (e, .failure)
          | some e, .memSuccess avail => some (e, (e.memReturn avail).2)
          | _, _ => none
        else none
  | _ => none

/-- The events of a departed client that `client_cmd` ends in this step. -/
def Ocl.ended (s : Ocl) : Action → List CmdEvent
  | .settle i =>
      match s.client i with
      | none => []
      | some c => if s.halted = false ∧ c.state = .none then s.list.filter (fun e => e.openFor c) else []
  | _ => []

/-- Bounds on what clients do, for the properties that hold within such bounds. -/
structure Limits where
  answer : CmdEvent → Answer → Prop
  terminate : CmdEvent → Prop

/-- The step stays within the limits. -/
structure Within (M : Limits) (s : Ocl) (a : Action) : Prop where
  answer : ∀ x ∈ s.answered a, M.answer x.1 x.2
  terminate : ∀ e ∈ s.ended a, M.terminate e

/-- Clients answer and depart as they like. -/
def Limits.any : Limits := ⟨fun _ _ => True, fun _ => True⟩

theorem along_within_any (s : Ocl) (as : List Action) : Along Ocl.step (Within .any) s as := by
  induction as generalizing s with
  | nil => trivial
  | cons a as ih => exact ⟨⟨fun _ _ => trivial, fun _ _ => trivial⟩, ih _⟩

/-- An event as `_add_cmd` links it. -/
structure CmdEvent.Fresh (e : CmdEvent) : Prop where
  bytesSent : e.respBytesSent = 0
  dp : e.respDp = 0
  dl : e.respDl = if e.size ≤ 64 then 1 else sizeToDl e.size
  shape : e.Shape
  start : e.Start

inductive Move (M : Limits) (cl : ℕ) (e : CmdEvent) : List Note → CmdEvent → Prop
  | stay : Move M cl e [] e
  | rewrite (e' : CmdEvent) (hr : Rewrite e e') : Move M cl e [] e'
  | ask (hready : e.Ready) : Move M cl e [] { e with state := e.askedState }
  | raise (hraised : e.Raised) : Move M cl e [] { e with state := .done }
  | pending (hstate : e.state = .xlatePending ∨ e.state = .intPending) :
      Move M cl e [.response (e.prepare cl).response] { e.prepare cl with state := .pendingSent }
  | part (hstate : e.state = .done)
      (hmore : 0 < (e.prepare cl).respBytesSent ∧ (e.prepare cl).respBytesSent ≠ e.size) :
      Move M cl e [.response (e.prepare cl).response] (e.prepare cl)
  | refuse (hresp : e.responding = true) : Move M cl e [.refused] ((e.prepare cl).backUp cl)
  | answer (ans : Answer) (e' : CmdEvent) (hawait : e.Awaiting) (hans : Answered e ans e')
      (hlimit : M.answer e ans) : Move M cl e [.answered ans] e'
  | terminate (hstate : e.state ≠ .done) (hlimit : M.terminate e) :
      Move M cl e [.terminated] e.terminate

inductive Last (cl : ℕ) (e : CmdEvent) : List Note → Prop
  | finish (hstate : e.state = .done)
      (hlast : ¬ (0 < (e.prepare cl).respBytesSent ∧ (e.prepare cl).respBytesSent ≠ e.size)) :
      Last cl e [.response (e.prepare cl).response]
  | post (hstate : e.state = .pendingSent) (resp : UInt8) :
      Last cl e [.posted (postedOpcode e.command) resp]

/-- An event as a command opens it. -/
structure Issued (cmd : AfuTlxCmd) (e : CmdEvent) : Prop extends CmdEvent.Fresh e where
  command : e.command = cmd.opcode
  answers : Answers cmd e.type e.respOpcode

def eventLife (M : Limits) (cl : ℕ) : Life (AfuTlxCmd × CmdEvent) CmdEvent Note where
  start x e := e = x.2 ∧ Issued x.1 x.2
  move := Move M cl
  last := Last cl

/-! ## The engine and its tags -/

theorem NewEvent.issued {s : Ocl} {cmd : AfuTlxCmd} {e : CmdEvent} (h : NewEvent s cmd e) :
    Issued cmd e :=
  ⟨⟨h.bytesSent, h.dp, h.dl, h.shape, h.start⟩, h.command, h.answers⟩

theorem CmdEvent.backUp_eq (e : CmdEvent) (cl : ℕ) :
    e.backUp cl = { e with respBytesSent := (e.backUp cl).respBytesSent } := by
  unfold CmdEvent.backUp
  split_ifs <;> rfl

theorem cmdHistory_append (t : UInt16) (trace obs : List Obs) :
    cmdHistory t (trace ++ obs) = cmdHistory t trace ++ cmdHistory t obs :=
  List.filterMap_append

section Tagged

variable {s s' : Ocl} {M : Limits} {cl : ℕ} {t : UInt16} {e e' : CmdEvent}

theorem tagged_congr (h : s'.list = s.list) : s'.tagged t = s.tagged t := by
  unfold Ocl.tagged
  rw [h]

theorem tagged_eq_some (hs : s.Wf) : s.tagged t = some e ↔ e ∈ s.list ∧ e.afutag = t :=
  lookup_eq_some hs.tags

theorem life_moved {ns : List Note} (h : Move M cl e ns e') :
    (eventLife M cl).Step (some e) (ns.map .note) (some e') := .moved h

theorem life_stay (x : Option CmdEvent) : (eventLife M cl).Step x [] x := by
  cases x with
  | none => exact .absent
  | some e => exact life_moved .stay

theorem life_of_same (hlist : s'.list = s.list) {obs : List Obs} (htrace : s'.trace = s.trace ++ obs)
    (hobs : cmdHistory t obs = []) : ∃ es, cmdHistory t s'.trace = cmdHistory t s.trace ++ es ∧
      (eventLife M cl).Step (s.tagged t) es (s'.tagged t) := by
  refine ⟨[], ?_, ?_⟩
  · rw [htrace, cmdHistory_append, hobs]
  · rw [tagged_congr hlist]
    exact life_stay _

/-- The tag's own event moves and the notes are its own; for every other tag nothing happens. -/
theorem life_of_set (hs : s.Wf) (he : e ∈ s.list) {ns : List Note} (hmove : Move M cl e ns e')
    (hid : e'.id = e.id) (htag : e'.afutag = e.afutag)
    (hlist : s'.list = replace CmdEvent.id s.list e') {obs : List Obs}
    (htrace : s'.trace = s.trace ++ obs)
    (hobs : cmdHistory t obs = if e.afutag = t then ns.map .note else []) :
    ∃ es, cmdHistory t s'.trace = cmdHistory t s.trace ++ es ∧
      (eventLife M cl).Step (s.tagged t) es (s'.tagged t) := by
  have hlookup : s'.tagged t = if e.afutag = t then some e' else s.tagged t := by
    unfold Ocl.tagged
    rw [hlist, lookup_replace hs.ids hs.tags he hid htag]
  refine ⟨_, by rw [htrace, cmdHistory_append], ?_⟩
  rw [hobs, hlookup]
  split_ifs with ht
  · rw [(tagged_eq_some hs).mpr ⟨he, ht⟩]
    exact life_moved hmove
  · exact life_stay _

theorem life_of_free (hs : s.Wf) (he : e ∈ s.list) (hlist : s'.list = remove CmdEvent.id s.list e)
    {obs : List Obs} {ns : List Note} (htrace : s'.trace = s.trace ++ obs)
    (hobs : cmdHistory t obs = if e.afutag = t then ns.map .note ++ [.closed] else [])
    (hlast : Last cl e ns) : ∃ es, cmdHistory t s'.trace = cmdHistory t s.trace ++ es ∧
      (eventLife M cl).Step (s.tagged t) es (s'.tagged t) := by
  have hlookup : s'.tagged t = if e.afutag = t then none else s.tagged t := by
    unfold Ocl.tagged
    rw [hlist, lookup_remove hs.ids hs.tags he]
  refine ⟨_, by rw [htrace, cmdHistory_append], ?_⟩
  rw [hobs, hlookup]
  split_ifs with ht
  · rw [(tagged_eq_some hs).mpr ⟨he, ht⟩]
    exact .closed hlast
  · exact life_stay _

theorem cmdHistory_terminated (hs : s.Wf) (c : Client) (h : s.tagged t = some e) :
    cmdHistory t ((s.list.filter (fun x => x.openFor c)).map (fun x => Obs.terminated x.afutag)) =
      if e.openFor c then [.note .terminated] else [] := by
  obtain ⟨he, rfl⟩ := (tagged_eq_some hs).mp h
  have hnotags : ∀ l : List CmdEvent, e.afutag ∉ l.map CmdEvent.afutag → cmdHistory e.afutag
      ((l.filter (fun x => x.openFor c)).map (fun x => Obs.terminated x.afutag)) = [] := by
    intro l hl
    unfold cmdHistory
    rw [List.filterMap_eq_nil_iff]
    intro o ho
    obtain ⟨x, hx, rfl⟩ := List.mem_map.mp ho
    have hne : x.afutag ≠ e.afutag := fun hxe =>
      hl (List.mem_map.mpr ⟨x, List.mem_of_mem_filter hx, hxe⟩)
    simp [cmdEntry, hne]
  -- the tag occurs once: before and behind its event there is no note
  obtain ⟨l₁, l₂, hl⟩ := List.append_of_mem he
  have htags := hs.tags
  rw [hl, nodup_map_middle, List.map_append, List.mem_append, not_or] at htags
  rw [hl, List.filter_append, List.map_append, cmdHistory_append, hnotags l₁ htags.1.1, List.nil_append,
    List.filter_cons]
  split_ifs with hopen
  · rw [List.map_cons]
    have hcons := hnotags l₂ htags.1.2
    unfold cmdHistory at hcons ⊢
    rw [List.filterMap_cons, hcons]
    simp [cmdEntry]
  · exact hnotags l₂ htags.1.2

theorem life_of_terminate (hs : s.Wf) (c : Client) (hlimit : ∀ e ∈ s.list, e.openFor c = true → M.terminate e)
    (hlist : s'.list = (terminateEvents s c).list) (htrace : s'.trace = (terminateEvents s c).trace) :
    ∃ es, cmdHistory t s'.trace = cmdHistory t s.trace ++ es ∧
      (eventLife M cl).Step (s.tagged t) es (s'.tagged t) := by
  have hlookup : s'.tagged t = (s.tagged t).map (fun e => if e.openFor c then e.terminate else e) := by
    unfold Ocl.tagged
    rw [hlist]
    apply lookup_map
    intro x
    split_ifs <;> rfl
  refine ⟨_, by rw [htrace, terminateEvents, cmdHistory_append], ?_⟩
  rw [hlookup]
  cases htagged : s.tagged t with
  | none =>
    have hnone := lookup_eq_none.mp htagged
    have hobs : cmdHistory t ((s.list.filter (fun e => e.openFor c)).map
        (fun e => Obs.terminated e.afutag)) = [] := by
      unfold cmdHistory
      rw [List.filterMap_eq_nil_iff]
      intro o ho
      obtain ⟨x, hx, rfl⟩ := List.mem_map.mp ho
      simp [cmdEntry, hnone x (List.mem_of_mem_filter hx)]
    rw [hobs]
    exact .absent
  | some e =>
    obtain ⟨he, -⟩ := (tagged_eq_some hs).mp htagged
    rw [cmdHistory_terminated hs c htagged, Option.map_some]
    split_ifs with hopen
    · have hstate : e.state ≠ .done := by
        simp only [CmdEvent.openFor, Bool.and_eq_true, decide_eq_true_eq] at hopen
        exact hopen.2
      exact life_moved (.terminate hstate (hlimit e he hopen))
    · exact life_stay _

end Tagged

/-- Every step of the engine is a step of the life of every tag. -/
theorem step_life {s : Ocl} (hs : s.Wf) {M : Limits} {a : Action} (hM : Within M s a) (t : UInt16) :
    ∃ es, cmdHistory t (s.step a).trace = cmdHistory t s.trace ++ es ∧
      (eventLife M s.parms.hostClSize).Step (s.tagged t) es ((s.step a).tagged t) := by
  by_cases hhalted : s.halted = true
  · have hstep : s.step a = s := by simp [Ocl.step, hhalted]
    rw [hstep]
    exact ⟨[], by simp, life_stay _⟩
  have hrunning : s.halted = false := by simpa using hhalted
  have hone : ∀ (x : UInt16) (n : Note) (o : Obs), (cmdEntry t o = if x = t then some (.note n) else none) →
      cmdHistory t [o] = if x = t then [n].map .note else [] := by
    intro x n o ho
    unfold cmdHistory
    split_ifs at ho ⊢ <;> simp [ho]
  cases step_effect s a with
  | quiet h => exact life_of_same h.list (by rw [h.trace, List.append_nil]) rfl
  | ignore cmd d ha hoffers hassign htag h => exact life_of_same h.list h.trace rfl
  | assign cmd d ha hoffers i c hop hfind hc h => exact life_of_same h.list h.trace rfl
  | add cmd d ha hoffers e c l₁ l₂ hop hfind hc hfresh hnew hlist hlist' hclient hnextId htrace hparms hmax =>
    have hlookup : (s.step a).tagged t = if e.afutag = t then some e else s.tagged t := by
      unfold Ocl.tagged
      rw [hlist', hlist, lookup_insert (hlist ▸ hfresh)]
    refine ⟨_, by rw [htrace, cmdHistory_append], ?_⟩
    rw [hlookup]
    by_cases ht : e.afutag = t
    · have hnone : s.tagged t = none := lookup_eq_none.mpr (ht ▸ hfresh)
      simp only [cmdHistory, List.filterMap_cons, cmdEntry, ht, if_true, List.filterMap_nil, hnone]
      exact .opened ⟨rfl, hnew.issued⟩
    · simp only [cmdHistory, List.filterMap_cons, cmdEntry, ht, if_false, List.filterMap_nil]
      exact life_stay _
  | rewrite e e' he hc hr h =>
    obtain ⟨hid, htag, -, -⟩ := hr.facts
    exact life_of_set hs he (.rewrite e' hr) hid htag h.list
      (by rw [h.trace]; exact (List.append_nil _).symm) (by simp [cmdHistory])
  | ask e c c' bytes he hc hready hbytes hc' h =>
    have hready : e.Ready := by
      rcases hready with ⟨hready, -⟩ | ⟨-, hcas⟩
      · exact hready
      · exact absurd hcas (hs.noCas e he)
    exact life_of_set hs he (.ask hready) rfl rfl h.list h.trace (by simp [cmdHistory, cmdEntry])
  | raise e c c' he hc hraised hc' h =>
    exact life_of_set hs he (.raise hraised) rfl rfl h.list h.trace (by simp [cmdHistory, cmdEntry])
  | respond e e' he hresp hc he' h =>
    have hobs := hone e.afutag (.response (e.prepare s.parms.hostClSize).response)
      (.responded (e.prepare s.parms.hostClSize).response) (by simp [cmdEntry, CmdEvent.response])
    rcases he' with ⟨hstate, rfl⟩ | ⟨hstate, rfl, hmore⟩
    · exact life_of_set hs he (.pending hstate) (by simp) (by simp) h.list h.trace hobs
    · have hmore : 0 < (e.prepare s.parms.hostClSize).respBytesSent ∧
          (e.prepare s.parms.hostClSize).respBytesSent ≠ e.size := by simpa using hmore
      exact life_of_set hs he (.part hstate hmore) (by simp) (by simp) h.list h.trace hobs
  | finish e he hstate hc hlast h =>
    refine life_of_free hs he h.list h.trace ?_ (.finish hstate hlast)
    simp only [cmdHistory, List.filterMap_cons, cmdEntry, CmdEvent.response, CmdEvent.prepare_afutag,
      List.filterMap_nil]
    split_ifs <;> rfl
  | refuse e he hresp hc h =>
    refine life_of_set hs he (.refuse hresp) ?_ ?_ h.list h.trace (hone e.afutag .refused _ rfl)
    · rw [CmdEvent.backUp_eq]
      simp
    · rw [CmdEvent.backUp_eq]
      simp
  | post e resp he hstate hc h =>
    refine life_of_free hs he h.list h.trace ?_ (.post hstate resp)
    simp only [cmdHistory, List.filterMap_cons, cmdEntry, List.filterMap_nil]
    split_ifs <;> rfl
  | answer i input ha e e' c ans he hc hstate hmem he' h =>
    obtain ⟨-, hawait, hans⟩ := hs.answered he hc hstate hmem he'
    obtain ⟨hid, htag, -, -⟩ := hans.facts
    have hfind : s.memAccess c = some e := by
      unfold Ocl.memAccess
      rw [hmem]
      exact (lookup_eq_some hs.ids).mpr ⟨he, rfl⟩
    have hanswered : s.answered a = some (e, ans) := by
      rcases he' with ⟨rfl, rfl, -⟩ | ⟨avail, rfl, hreturn⟩
      · simp [ha, Ocl.answered, hc, hstate, hrunning, hfind]
      · simp [ha, Ocl.answered, hc, hstate, hrunning, hfind, ← hreturn]
    exact life_of_set hs he (.answer ans e' hawait hans (hM.answer _ hanswered)) hid htag h.list
      h.trace (hone e.afutag (.answered ans) _ rfl)
  | client i c c' hc hid hmem hstate h =>
    exact life_of_same h.list (by rw [h.trace]; exact (List.append_nil _).symm) rfl
  | terminate i ha c hc hstate h =>
    refine life_of_terminate hs c ?_ h.list h.trace
    intro e he hopen
    apply hM.terminate e
    simp [ha, Ocl.ended, hc, hstate, hrunning, he, hopen]
  | clear i ha c hc hstate hidle h =>
    exact life_of_same h.list (by rw [h.trace]; exact (List.append_nil _).symm) rfl
  | associate bdf i hi hc hlist hnextId hclient htrace hparms hmax =>
    exact life_of_same hlist htrace rfl

/-- The rule by which a property of commands and events becomes a property of every session of every
run. -/
theorem run_issued {parms : Parms} {M : Limits} (Done : AfuTlxCmd → CmdEvent → List Note → Prop)
    (T : AfuTlxCmd → CmdEvent → CmdEvent → List Note → Prop)
    (hstart : ∀ cmd e, Issued cmd e → T cmd e e [])
    (hmove : ∀ cmd e₀ e ns ms e', T cmd e₀ e ns → Move M parms.hostClSize e ms e' →
      T cmd e₀ e' (ns ++ ms))
    (hlast : ∀ cmd e₀ e ns ms, T cmd e₀ e ns → Last parms.hostClSize e ms → Done cmd e₀ (ns ++ ms))
    {maxClients : ℕ} {afuEvent : AfuEvent} {as : List Action}
    (hM : Along Ocl.step (Within M) (Ocl.init parms maxClients afuEvent) as) (t : UInt16) :
    Tracked (fun x => Done x.1 x.2) (fun x => T x.1 x.2)
      (cmdHistory t ((Ocl.init parms maxClients afuEvent).run as).trace)
      (((Ocl.init parms maxClients afuEvent).run as).tagged t) := by
  let Inv (s : Ocl) : Prop := s.Wf ∧ s.parms = parms ∧
    Tracked (fun x => Done x.1 x.2) (fun x => T x.1 x.2) (cmdHistory t s.trace) (s.tagged t)
  have hinit : Inv (Ocl.init parms maxClients afuEvent) := ⟨Ocl.init_wf _ _ _, rfl, Sessions.nil⟩
  have hinv := hM.invariant Inv ?_ hinit
  · exact hinv.2.2
  · rintro s a ⟨hs, hparms, htracked⟩ hwithin
    obtain ⟨es, hhistory, hstep⟩ := step_life hs hwithin t
    rw [hparms] at hstep
    refine ⟨step_wf hs a, (step_parms s a).trans hparms, ?_⟩
    rw [hhistory]
    refine htracked.step ?_ (fun x => hmove x.1 x.2) (fun x => hlast x.1 x.2) hstep
    rintro ⟨cmd, e₀⟩ e ⟨rfl, hissued⟩
    exact hstart cmd e hissued

/-- The rule by which a property of the events becomes a property of every session of every run. -/
theorem run_tracked {parms : Parms} {M : Limits} (Done : CmdEvent → List Note → Prop)
    (T : CmdEvent → CmdEvent → List Note → Prop) (hstart : ∀ e, e.Fresh → T e e [])
    (hmove : ∀ e₀ e ns ms e', T e₀ e ns → Move M parms.hostClSize e ms e' → T e₀ e' (ns ++ ms))
    (hlast : ∀ e₀ e ns ms, T e₀ e ns → Last parms.hostClSize e ms → Done e₀ (ns ++ ms))
    {maxClients : ℕ} {afuEvent : AfuEvent} {as : List Action}
    (hM : Along Ocl.step (Within M) (Ocl.init parms maxClients afuEvent) as) (t : UInt16) :
    Tracked Done T (history t ((Ocl.init parms maxClients afuEvent).run as).trace)
      (((Ocl.init parms maxClients afuEvent).run as).tagged t) := by
  rw [history_eq_map]
  exact Tracked.map Prod.snd (run_issued (fun _ => Done) (fun _ => T) (fun _ e h => hstart e h.toFresh)
    (fun _ => hmove) (fun _ => hlast) hM t)

/-! ## Parts -/

section Parts

variable {e : CmdEvent} {cl : ℕ}

/-- A full read or write that is longer than the host's line is answered in parts. -/
def CmdEvent.Splits (e : CmdEvent) (cl : ℕ) : Prop :=
  (isFullRead e.command || isFullWrite e.command) = true ∧ cl < e.size

theorem CmdEvent.prepare_of_splits (htype : e.type ≠ .failed) (h : e.Splits cl) :
    e.prepare cl = e.nextPart cl := by
  unfold CmdEvent.prepare
  exact if_pos ⟨htype, h.1, h.2⟩

theorem CmdEvent.prepare_of_failed (htype : e.type = .failed) : e.prepare cl = e := by
  unfold CmdEvent.prepare
  exact if_neg (fun h => h.1 htype)

theorem CmdEvent.prepare_of_not_splits (h : ¬ e.Splits cl) : e.prepare cl = e := by
  unfold CmdEvent.prepare
  exact if_neg (fun h' => h h'.2)

theorem CmdEvent.Fresh.full {e : CmdEvent} (h : e.Fresh)
    (hfull : (isFullRead e.command || isFullWrite e.command) = true) (htype : e.type ≠ .failed) :
    (e.type = .read ∨ e.type = .write) ∧ (e.size = 64 ∨ e.size = 128 ∨ e.size = 256) := by
  have hshape := h.shape
  have hne : ∀ op : UInt8, (isFullRead op || isFullWrite op) = false → e.command ≠ op := by
    rintro op hop rfl
    rw [hfull] at hop
    cases hop
  unfold CmdEvent.Shape at hshape
  split at hshape <;> rename_i heq
  · refine ⟨.inl heq, ?_⟩
    rcases hshape.2 with ⟨-, hsize⟩ | ⟨hpart, -⟩
    · exact hsize
    · simp only [isPartialRead, Bool.or_eq_true, decide_eq_true_eq] at hpart
      rcases hpart with hpart | hpart <;> exact absurd hpart (hne _ (by decide))
  · refine ⟨.inr heq, ?_⟩
    rcases hshape.2 with ⟨-, hsize⟩ | ⟨hpart | hpart, -⟩
    · exact hsize
    · exact absurd hpart (hne _ (by decide))
    · exact absurd hpart (hne _ (by decide))
  · rcases hshape.2 with h | h <;> exact absurd h (hne _ (by decide))
  · rcases hshape with ⟨h, -⟩ | ⟨h, -⟩ <;> exact absurd h (hne _ (by decide))
  · have hop := hshape.2
    simp only [isAmoRw, Bool.or_eq_true, decide_eq_true_eq] at hop
    rcases hop with h | h <;> exact absurd h (hne _ (by decide))
  · have hop := hshape.2
    simp only [isAmoW, Bool.or_eq_true, decide_eq_true_eq] at hop
    rcases hop with h | h <;> exact absurd h (hne _ (by decide))
  · rcases hshape with h | h <;> exact absurd h (hne _ (by decide))
  · exact absurd hshape (hne _ (by decide))
  · rcases hshape with h | h <;> exact absurd h (hne _ (by decide))
  · exact absurd heq htype
  · exact hshape.elim
  · exact hshape.elim
  · exact hshape.elim

/-- The line sizes and command sizes that meet in a split. -/
theorem CmdEvent.Fresh.splits {e : CmdEvent} (h : e.Fresh) {parms : Parms}
    (hsplit : e.Splits parms.hostClSize) : (e.type = .read ∨ e.type = .write) ∧
      ((parms.hostClSize = 64 ∧ e.size = 128) ∨ (parms.hostClSize = 64 ∧ e.size = 256) ∨
        (parms.hostClSize = 128 ∧ e.size = 256)) := by
  obtain ⟨hfull, hlt⟩ := hsplit
  have htype : e.type ≠ .failed := by
    intro htype
    have hshape := h.shape
    simp only [CmdEvent.Shape, htype] at hshape
    omega
  obtain ⟨htype, hsize⟩ := h.full hfull htype
  refine ⟨htype, ?_⟩
  have hcl := parms.hostClSize_supported
  omega

end Parts

/-! ## An event and its command -/

/-- An event and the command it was added as. -/
structure Descends (e₀ e : CmdEvent) : Prop where
  fresh : e₀.Fresh
  id : e.id = e₀.id
  command : e.command = e₀.command
  kept : e.type ≠ .failed → e.type = e₀.type ∧ (e₀.type = .read ∨ e₀.type = .write → e.size = e₀.size)

theorem CmdEvent.Ready.state {e : CmdEvent} (h : e.Ready) : e.state = .idle ∨ e.state = .received := by
  rcases h with ⟨-, h⟩ | ⟨-, h⟩ | ⟨-, h⟩
  · exact .inl h
  · exact .inr h
  · exact .inr h

theorem CmdEvent.Awaiting.state {e : CmdEvent} (h : e.Awaiting) :
    e.state = .request ∨ e.state = .dmaMemResp ∨ e.state = .received := by
  rw [h.2]
  unfold CmdEvent.askedState
  split <;> simp

/-- The states in which an event is rewritten. -/
theorem Rewrite.state {e e' : CmdEvent} (h : Rewrite e e') :
    e.state = .idle ∨ e.state = .received ∨ e.state = .buffer ∨ e.state = .pendingSent := by
  cases h with
  | inject code hor hcode =>
    rcases hor with h | h
    · rcases h.state with h | h <;> simp [h]
    · rcases h.2 with h | h <;> simp [h]
  | xlatePending h => rcases h.state with h | h <;> simp [h]
  | intPending h => rcases h.2 with h | h <;> simp [h]
  | readDone htype h => simp [h]
  | beat bus htype h => simp [h]
  | redraw resp h => simp [h]

theorem Rewrite.of_pendingSent {e e' : CmdEvent} (h : Rewrite e e') (hstate : e.state = .pendingSent) :
    ∃ resp, e' = { e with resp } := by
  cases h with
  | inject code hor hcode =>
    rcases hor with h | h
    · rcases h.state with h | h <;> simp [h] at hstate
    · rcases h.2 with h | h <;> simp [h] at hstate
  | xlatePending h => rcases h.state with h | h <;> simp [h] at hstate
  | intPending h => rcases h.2 with h | h <;> simp [h] at hstate
  | readDone htype h => simp [h] at hstate
  | beat bus htype h => simp [h] at hstate
  | redraw resp h => exact ⟨resp, rfl⟩

section Descends

variable {M : Limits} {cl : ℕ} {e₀ e e' : CmdEvent} {ns : List Note}

theorem Descends.rewrite (h : Descends e₀ e) (hr : Rewrite e e') : Descends e₀ e' := by
  obtain ⟨hfresh, hid, hcommand, hkept⟩ := h
  cases hr with
  | inject code hor hcode => exact ⟨hfresh, hid, hcommand, fun hne => absurd rfl hne⟩
  | xlatePending hready => exact ⟨hfresh, hid, hcommand, fun hne => absurd rfl hne⟩
  | intPending hraised htype => exact ⟨hfresh, hid, hcommand, fun hne => absurd rfl hne⟩
  | readDone htype hstate => exact ⟨hfresh, hid, hcommand, hkept⟩
  | beat bus htype hstate =>
    unfold CmdEvent.nextBeat
    split_ifs <;> exact ⟨hfresh, hid, hcommand, hkept⟩
  | redraw resp hstate => exact ⟨hfresh, hid, hcommand, hkept⟩

theorem Descends.answered (h : Descends e₀ e) {ans : Answer} (hans : Answered e ans e') :
    Descends e₀ e' := by
  obtain ⟨hfresh, hid, hcommand, hkept⟩ := h
  cases hans with
  | success data size hsize =>
    refine ⟨hfresh, hid, hcommand, fun hne => ?_⟩
    obtain ⟨htype, hsame⟩ := hkept hne
    exact ⟨htype, fun hrw => (hsize (htype ▸ hrw)).trans (hsame hrw)⟩
  | failure ans size hans => exact ⟨hfresh, hid, hcommand, fun hne => absurd rfl hne⟩

theorem Descends.move (h : Descends e₀ e) (hm : Move M cl e ns e') : Descends e₀ e' := by
  cases hm with
  | stay => exact h
  | rewrite _ hr => exact h.rewrite hr
  | ask hready => exact ⟨h.fresh, h.id, h.command, h.kept⟩
  | raise hraised => exact ⟨h.fresh, h.id, h.command, h.kept⟩
  | pending hstate =>
    exact ⟨h.fresh, by simpa using h.id, by simpa using h.command, by simpa using h.kept⟩
  | part hstate hmore =>
    exact ⟨h.fresh, by simpa using h.id, by simpa using h.command, by simpa using h.kept⟩
  | refuse hresp =>
    rw [CmdEvent.backUp_eq]
    exact ⟨h.fresh, by simpa using h.id, by simpa using h.command, by simpa using h.kept⟩
  | answer ans _ hawait hans hlimit => exact h.answered hans
  | terminate hstate hlimit => exact ⟨h.fresh, h.id, h.command, h.kept⟩

theorem CmdEvent.Fresh.descends {e : CmdEvent} (h : e.Fresh) : Descends e e :=
  ⟨h, rfl, rfl, fun _ => ⟨rfl, fun _ => rfl⟩⟩

theorem Descends.splits (h : Descends e₀ e) (htype : e.type ≠ .failed) {parms : Parms} :
    e.Splits parms.hostClSize ↔ e₀.Splits parms.hostClSize := by
  obtain ⟨hkind, hsize⟩ := h.kept htype
  unfold CmdEvent.Splits
  rw [h.command]
  constructor
  · rintro ⟨hfull, hlt⟩
    have hrw := (h.fresh.full hfull (hkind ▸ htype)).1
    exact ⟨hfull, hsize hrw ▸ hlt⟩
  · rintro ⟨hfull, hlt⟩
    have hrw := (h.fresh.full hfull (hkind ▸ htype)).1
    exact ⟨hfull, (hsize hrw).symm ▸ hlt⟩

/-- The next part of a split response, when `k` parts have been sent. -/
theorem Descends.nextPart (h : Descends e₀ e) (htype : e.type ≠ .failed) {parms : Parms}
    (hsplit : e₀.Splits parms.hostClSize) {k : ℕ} (hsent : k * parms.hostClSize = e.respBytesSent)
    (hlt : e.respBytesSent < e₀.size) :
    (k + 1) * parms.hostClSize = (e.nextPart parms.hostClSize).respBytesSent ∧
      (k + 1) * parms.hostClSize ≤ e.size := by
  obtain ⟨hkind, hsizes⟩ := h.fresh.splits hsplit
  rw [((h.kept htype).2 hkind)]
  unfold CmdEvent.nextPart
  rcases hsizes with ⟨hcl, hsize⟩ | ⟨hcl, hsize⟩ | ⟨hcl, hsize⟩ <;> rw [hcl] at hsent ⊢ <;> dsimp only <;>
    omega

/-- A part that could not be sent is taken back from the count. -/
theorem backUp_nextPart (e : CmdEvent) {parms : Parms} (hsmall : e.respBytesSent < 256) :
    ((e.nextPart parms.hostClSize).backUp parms.hostClSize).respBytesSent = e.respBytesSent := by
  unfold CmdEvent.backUp CmdEvent.nextPart
  rcases parms.hostClSize_supported with hcl | hcl | hcl <;> rw [hcl] <;> dsimp only <;> split_ifs <;>
    dsimp only <;> omega

end Descends

end Ocse
