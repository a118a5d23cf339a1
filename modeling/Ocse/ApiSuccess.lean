import Ocse.ApiCalls
import Ocse.Lib.Run

/-!
# What a success of the library means

A slot becomes idle by its acknowledgement and by every loss of the connection. `takes` tells the two apart; from
it come the acknowledgements of a run, `acksTaken`, and what a call may conclude from the idle slot.
-/

namespace Ocse

/-! ## What a turn does -/

/-- The message leads to `_all_idle`, or stops short and does. -/
def PslMessage.clears (afu : LibAfu) : PslMessage → Bool
  | .lost | .detach | .starved => true
  | .mmioAck avail => avail.length < 1 + mmioAckSize afu.mmioType
  | .lpcAck [] => true
  | .lpcAck (code :: data) => code = 0 && afu.mem.type = .read && data.length < afu.mem.size
  | _ => false

/-- The slot that a message is the acknowledgement of, and its response code. -/
def PslMessage.ack : PslMessage → Option (Slot × UInt8)
  | .attach => some (.attach, 0)
  | .mmioAck (code :: _) => some (.mmio, code)
  | .lpcAck (code :: _) => some (.mem, code)
  | _ => none

/-- The acknowledgement that a turn takes for a request that is pending. -/
def LibAfu.takes (afu : LibAfu) (t : PslInput) : Option (Slot × UInt8) :=
  if afu.alive = true ∧ t.message.clears afu = false then
    t.message.ack.filter (fun p => (afu.sendAll t.put).state p.1 = .pending)
  else none

def acksTaken : LibAfu → List PslInput → List (Slot × UInt8)
  | _, [] => []
  | afu, t :: ts => (afu.takes t).toList ++ acksTaken (afu.pslTurn t) ts

/-- Every request that is there can be written. -/
def LibAfu.Writes (afu : LibAfu) (put : Slot → Bool) : Prop := ∀ slot, afu.state slot = .request → put slot = true

section Send

variable (afu : LibAfu)

theorem send_state (slot s : Slot) (put : Bool) : (afu.send slot put).state s =
    if s = slot ∧ afu.state slot = .request then if put then .pending else .idle else afu.state s := by
  unfold LibAfu.send LibAfu.setState
  by_cases hreq : afu.state slot = .request
  · cases put
    · by_cases hs : s = slot <;> simp [hreq, hs, Function.update]
    · by_cases hs : s = slot <;> simp [hreq, hs, Function.update]
  · simp [hreq]

theorem send_opened (slot : Slot) (put : Bool) : (afu.send slot put).opened = true ↔
    afu.opened = true ∧ (afu.state slot = .request → put = true) := by
  unfold LibAfu.send LibAfu.setState
  by_cases hreq : afu.state slot = .request
  · cases put <;> simp [hreq]
  · simp [hreq]

/-- What the senders never touch. -/
structure SameMaps (afu afu' : LibAfu) : Prop where
  mapped : afu'.mapped = afu.mapped
  globalMapped : afu'.globalMapped = afu.globalMapped
  lpcMapped : afu'.lpcMapped = afu.lpcMapped
  mmioType : afu'.mmioType = afu.mmioType
  mem : afu'.mem = afu.mem
  exited : afu'.exited = afu.exited
  running : afu'.running = afu.running
  memData : afu'.memData = afu.memData

theorem SameMaps.trans {a b c : LibAfu} (h : SameMaps a b) (h' : SameMaps b c) : SameMaps a c where
  mapped := h'.mapped.trans h.mapped
  globalMapped := h'.globalMapped.trans h.globalMapped
  lpcMapped := h'.lpcMapped.trans h.lpcMapped
  mmioType := h'.mmioType.trans h.mmioType
  mem := h'.mem.trans h.mem
  exited := h'.exited.trans h.exited
  running := h'.running.trans h.running
  memData := h'.memData.trans h.memData

theorem send_maps (slot : Slot) (put : Bool) : SameMaps afu (afu.send slot put) := by
  unfold LibAfu.send LibAfu.setState
  split
  · split
    · exact ⟨rfl, rfl, rfl, rfl, rfl, rfl, rfl, rfl⟩
    · exact ⟨rfl, rfl, rfl, rfl, rfl, rfl, rfl, rfl⟩
  · exact ⟨rfl, rfl, rfl, rfl, rfl, rfl, rfl, rfl⟩

variable (put : Slot → Bool)

theorem sendAll_maps : SameMaps afu (afu.sendAll put) :=
  ((send_maps afu .attach _).trans (send_maps _ .mmio _)).trans (send_maps _ .mem _)

theorem sendAll_state (s : Slot) : (afu.sendAll put).state s =
    if afu.state s = .request then if put s then .pending else .idle else afu.state s := by
  unfold LibAfu.sendAll
  rw [send_state, send_state, send_state]
  cases s <;> simp [send_state]

theorem sendAll_opened : (afu.sendAll put).opened = true ↔ afu.opened = true ∧ afu.Writes put := by
  unfold LibAfu.sendAll LibAfu.Writes
  rw [send_opened, send_opened, send_opened, send_state, send_state, send_state]
  constructor
  · rintro ⟨⟨⟨hopened, hattach⟩, hmmio⟩, hmem⟩
    refine ⟨hopened, fun slot hreq => ?_⟩
    cases slot with
    | attach => exact hattach hreq
    | mmio => exact hmmio (by simpa using hreq)
    | mem => exact hmem (by simpa [send_state] using hreq)
  · rintro ⟨hopened, hwrites⟩
    refine ⟨⟨⟨hopened, hwrites .attach⟩, fun hreq => hwrites .mmio ?_⟩, fun hreq => hwrites .mem ?_⟩
    · simpa using hreq
    · simpa [send_state] using hreq

end Send

/-! ## Messages -/

section Receive

variable (afu : LibAfu)

/-- What is left when the library gives up. -/
structure GivenUp (afu afu' : LibAfu) : Prop where
  opened : afu'.opened = false
  attached : afu'.attached = false
  mapped : afu'.mapped = false
  globalMapped : afu'.globalMapped = false
  lpcMapped : afu'.lpcMapped = afu.lpcMapped
  state : ∀ s, afu'.state s = .idle
  exited : afu'.exited = afu.exited

theorem setState_idle {slot : Slot} (h : ∀ s, afu.state s = .idle) (s : Slot) :
    (afu.setState slot .idle).state s = .idle := by
  unfold LibAfu.setState
  by_cases hs : s = slot <;> simp [Function.update, hs, h]

theorem mmioAckSize_eq (type : UInt8) :
    mmioAckSize type = if isMmioRead64 type = true then 8 else if isMmioRead32 type = true then 4 else 0 := by
  simp [mmioAckSize, isMmioRead64, isMmioRead32]

theorem getBytes_short {n : ℕ} {stream : List UInt8} (h : stream.length < n) : getBytes n stream = none :=
  if_neg (Nat.not_le.mpr h)

theorem getBytes_long {n : ℕ} {stream : List UInt8} (h : n ≤ stream.length) :
    getBytes n stream = some ((Buffer.const 0).write 0 (stream.take n), stream.drop n) :=
  if_pos h

theorem givenUp_setState {afu₀ afu : LibAfu} (h : GivenUp afu₀ afu) (slot : Slot) :
    GivenUp afu₀ (afu.setState slot .idle) :=
  ⟨h.opened, h.attached, h.mapped, h.globalMapped, h.lpcMapped, setState_idle afu h.state, h.exited⟩

theorem allIdle_givenUp : GivenUp afu afu.allIdle := ⟨rfl, rfl, rfl, rfl, rfl, fun _ => rfl, rfl⟩

/-- An acknowledgement of which too little comes. -/
theorem handleAck_short {avail : List UInt8} (h : avail.length < 1 + mmioAckSize afu.mmioType) :
    GivenUp afu (afu.handleAck avail) := by
  rw [mmioAckSize_eq] at h
  unfold LibAfu.handleAck
  apply givenUp_setState
  cases avail with
  | nil =>
      rw [getBytes_short (by simp)]
      dsimp only
      unfold getBE
      rw [getBytes_short (by simp), getBytes_short (by simp)]
      by_cases h64 : isMmioRead64 afu.allIdle.mmioType = true
      · rw [if_pos h64]
        exact ⟨rfl, rfl, rfl, rfl, rfl, fun _ => rfl, rfl⟩
      · rw [if_neg h64]
        by_cases h32 : isMmioRead32 afu.allIdle.mmioType = true
        · rw [if_pos h32]
          exact ⟨rfl, rfl, rfl, rfl, rfl, fun _ => rfl, rfl⟩
        · rw [if_neg h32]
          exact allIdle_givenUp afu
  | cons code data =>
      rw [getBytes_code]
      rw [List.length_cons] at h
      dsimp only
      unfold getBE
      by_cases h64 : isMmioRead64 afu.mmioType = true
      · rw [if_pos h64] at h ⊢
        rw [getBytes_short (by omega)]
        exact ⟨rfl, rfl, rfl, rfl, rfl, fun _ => rfl, rfl⟩
      · rw [if_neg h64] at h ⊢
        by_cases h32 : isMmioRead32 afu.mmioType = true
        · rw [if_pos h32] at h ⊢
          rw [getBytes_short (by omega)]
          exact ⟨rfl, rfl, rfl, rfl, rfl, fun _ => rfl, rfl⟩
        · rw [if_neg h32] at h
          omega

theorem handleAck_whole {avail : List UInt8} (h : 1 + mmioAckSize afu.mmioType ≤ avail.length) :
    ∃ mmioData, afu.handleAck avail = { afu with mmioData }.setState .mmio .idle := by
  rw [mmioAckSize_eq] at h
  unfold LibAfu.handleAck
  rw [getBytes_long (by omega : 1 ≤ avail.length)]
  dsimp only
  by_cases h64 : isMmioRead64 afu.mmioType = true
  · rw [if_pos h64] at h ⊢
    unfold getBE
    rw [getBytes_long (by rw [List.length_drop]; omega)]
    exact ⟨_, rfl⟩
  · rw [if_neg h64] at h ⊢
    by_cases h32 : isMmioRead32 afu.mmioType = true
    · rw [if_pos h32] at h ⊢
      unfold getBE
      rw [getBytes_long (by rw [List.length_drop]; omega)]
      exact ⟨_, rfl⟩
    · rw [if_neg h32]
      exact ⟨afu.mmioData, rfl⟩

/-- An LPC acknowledgement that ends nothing, of which too little comes. -/
theorem handleMemAck_short {avail : List UInt8} (h : (PslMessage.lpcAck avail).clears afu = true) :
    GivenUp afu (afu.handleMemAck avail) := by
  unfold LibAfu.handleMemAck
  cases avail with
  | nil =>
      rw [getBytes_short (by simp)]
      dsimp only
      rw [if_neg (by simp)]
      apply givenUp_setState
      split
      · split
        · exact ⟨rfl, rfl, rfl, rfl, rfl, fun _ => rfl, rfl⟩
        · exact ⟨rfl, rfl, rfl, rfl, rfl, fun _ => rfl, rfl⟩
      · exact allIdle_givenUp afu
  | cons code data =>
      simp only [PslMessage.clears, Bool.and_eq_true, decide_eq_true_eq] at h
      obtain ⟨⟨hcode, hread⟩, hshort⟩ := h
      rw [getBytes_code]
      dsimp only
      rw [code_byte, if_neg (by simp [hcode]), if_pos hread]
      apply givenUp_setState
      unfold getData
      rw [getBytes_short hshort]
      exact ⟨rfl, rfl, rfl, rfl, rfl, fun _ => rfl, rfl⟩

theorem handleMemAck_code {code : UInt8} (hcode : code ≠ 0) (data : List UInt8) :
    afu.handleMemAck (code :: data) = { afu with exited := true } := by
  unfold LibAfu.handleMemAck
  rw [getBytes_code]
  dsimp only
  rw [code_byte, if_pos hcode]

theorem handleMemAck_whole {data : List UInt8} (h : (PslMessage.lpcAck (0 :: data)).clears afu = false) :
    ∃ memData, afu.handleMemAck (0 :: data) = { afu with memData }.setState .mem .idle ∧
      (afu.mem.type = .read ∨ afu.memData.isSome = true → memData.isSome = true) := by
  unfold LibAfu.handleMemAck
  rw [getBytes_code]
  dsimp only
  rw [code_byte, if_neg (by decide)]
  by_cases hread : afu.mem.type = .read
  · have hlong : afu.mem.size ≤ data.length := by
      simpa [PslMessage.clears, hread] using h
    rw [if_pos hread]
    unfold getData
    rw [getBytes_long hlong]
    exact ⟨_, rfl, fun _ => rfl⟩
  · rw [if_neg hread]
    exact ⟨afu.memData, rfl, fun hmem => hmem.resolve_left hread⟩

/-- A message that clears makes the library give up. -/
theorem receive_clears {m : PslMessage} (h : m.clears afu = true) : GivenUp afu (afu.receive m) := by
  cases m with
  | quiet => cases h
  | lost => exact ⟨rfl, rfl, rfl, rfl, rfl, fun _ => rfl, rfl⟩
  | attach => cases h
  | detach => exact allIdle_givenUp afu
  | mmioAck avail => exact handleAck_short afu (by simpa [PslMessage.clears] using h)
  | lpcAck avail => exact handleMemAck_short afu h
  | served => cases h
  | putFailed => cases h
  | starved => exact allIdle_givenUp afu
  | noIrq => cases h

/-- What another message can do. -/
structure Received (afu : LibAfu) (m : PslMessage) (afu' : LibAfu) : Prop where
  opened : afu'.opened = true ↔ afu.opened = true ∧ m ≠ .putFailed
  mapped : afu'.mapped = afu.mapped
  globalMapped : afu'.globalMapped = afu.globalMapped
  lpcMapped : afu'.lpcMapped = afu.lpcMapped
  mmioType : afu'.mmioType = afu.mmioType
  mem : afu'.mem = afu.mem
  exited : afu'.exited = false → afu.exited = false ∧ ∀ code, m.ack = some (.mem, code) → code = 0
  acked : afu'.exited = false → ∀ s code, m.ack = some (s, code) → afu'.state s = .idle
  kept : ∀ s, (∀ code, m.ack ≠ some (s, code)) → afu'.state s = afu.state s
  memData : afu'.exited = false → afu.mem.type = .read → ∀ code, m.ack = some (.mem, code) → afu'.memData.isSome = true
  memData_kept : afu.memData.isSome = true → afu'.memData.isSome = true

theorem setState_self (slot : Slot) (state : ReqState) : (afu.setState slot state).state slot = state := by
  simp [LibAfu.setState]

theorem setState_other {slot s : Slot} (hs : s ≠ slot) (state : ReqState) :
    (afu.setState slot state).state s = afu.state s := by
  simp [LibAfu.setState, hs]

theorem received_attach : Received afu .attach (afu.setState .attach .idle) where
  opened := by simp [LibAfu.setState]
  mapped := rfl
  globalMapped := rfl
  lpcMapped := rfl
  mmioType := rfl
  mem := rfl
  exited h := ⟨h, nofun⟩
  acked _ s code hack := by
    obtain ⟨rfl, -⟩ := Prod.mk.inj (Option.some.inj hack)
    exact setState_self afu .attach .idle
  kept s hnot := by
    refine setState_other afu ?_ .idle
    rintro rfl
    exact hnot 0 rfl
  memData _ _ := nofun
  memData_kept h := h

theorem received_mmioAck {avail : List UInt8} (h : (PslMessage.mmioAck avail).clears afu = false) :
    Received afu (.mmioAck avail) (afu.handleAck avail) := by
  have hlong : 1 + mmioAckSize afu.mmioType ≤ avail.length := by
    simpa [PslMessage.clears] using h
  obtain ⟨data, heq⟩ := handleAck_whole afu hlong
  cases avail with
  | nil =>
      rw [List.length_nil] at hlong
      omega
  | cons code rest =>
      rw [heq]
      refine ⟨by simp [LibAfu.setState], rfl, rfl, rfl, rfl, rfl, fun h => ⟨h, nofun⟩, ?_, ?_, fun _ _ => nofun, fun h => h⟩
      · rintro - s code' hack
        obtain ⟨rfl, -⟩ := Prod.mk.inj (Option.some.inj hack)
        exact setState_self _ .mmio .idle
      · intro s hnot
        refine setState_other { afu with mmioData := data } ?_ .idle
        rintro rfl
        exact hnot code rfl

theorem received_lpcAck {avail : List UInt8} (h : (PslMessage.lpcAck avail).clears afu = false) :
    Received afu (.lpcAck avail) (afu.handleMemAck avail) := by
  cases avail with
  | nil => cases h
  | cons code rest =>
      by_cases hcode : code = 0
      · subst hcode
        obtain ⟨data, heq, hdata⟩ := handleMemAck_whole afu h
        rw [heq]
        refine ⟨by simp [LibAfu.setState], rfl, rfl, rfl, rfl, rfl, fun h => ⟨h, ?_⟩, ?_, ?_, fun _ hread _ _ => hdata (.inl hread), fun hsome => hdata (.inr hsome)⟩
        · intro code' hack
          exact (Prod.mk.inj (Option.some.inj hack)).2.symm
        · rintro - s code' hack
          obtain ⟨rfl, -⟩ := Prod.mk.inj (Option.some.inj hack)
          exact setState_self _ .mem .idle
        · intro s hnot
          refine setState_other { afu with memData := data } ?_ .idle
          rintro rfl
          exact hnot 0 rfl
      · rw [handleMemAck_code afu hcode]
        refine ⟨by simp, rfl, rfl, rfl, rfl, rfl, nofun, nofun, fun _ _ => rfl, nofun, fun h => h⟩

/-- The other messages are taken as they are. -/
theorem receive_keeps {m : PslMessage} (h : m.clears afu = false) : Received afu m (afu.receive m) := by
  have hquiet : ∀ m : PslMessage, m ≠ .putFailed → m.ack = none → Received afu m afu := by
    intro m hput hack
    refine ⟨by simp [hput], rfl, rfl, rfl, rfl, rfl, fun h => ⟨h, ?_⟩, ?_, fun _ _ => rfl, ?_, fun h => h⟩
    · simp [hack]
    · simp [hack]
    · simp [hack]
  cases m with
  | quiet => exact hquiet .quiet nofun rfl
  | lost => cases h
  | attach => exact received_attach afu
  | detach => cases h
  | mmioAck avail => exact received_mmioAck afu h
  | lpcAck avail => exact received_lpcAck afu h
  | served => exact hquiet .served nofun rfl
  | putFailed =>
      exact ⟨by simp [LibAfu.receive], rfl, rfl, rfl, rfl, rfl, fun h => ⟨h, nofun⟩, fun _ _ => nofun, fun _ _ => rfl,
        fun _ _ => nofun, fun h => h⟩
  | starved => cases h
  | noIrq =>
      exact ⟨by simp [LibAfu.receive], rfl, rfl, rfl, rfl, rfl, fun h => ⟨h, nofun⟩, fun _ _ => nofun, fun _ _ => rfl,
        fun _ _ => nofun, fun h => h⟩

end Receive

/-! ## One turn -/

/-- The turn does not take the request of this slot away: it can be written, and the message keeps it. -/
def LibAfu.Spares (afu : LibAfu) (slot : Slot) (t : PslInput) : Prop :=
  (afu.state slot = .request → t.put slot = true) ∧ t.message.clears afu = false

/-- The connection outlives the turn. -/
def LibAfu.Harmless (afu : LibAfu) (t : PslInput) : Prop :=
  afu.Writes t.put ∧ t.message.clears afu = false ∧ t.message ≠ .putFailed

section PslTurn

variable {afu : LibAfu} {t : PslInput}

theorem clears_sendAll (put : Slot → Bool) (m : PslMessage) : m.clears (afu.sendAll put) = m.clears afu := by
  obtain ⟨-, -, -, hmmio, hmem, -, -, -⟩ := sendAll_maps afu put
  cases m with
  | mmioAck avail => simp only [PslMessage.clears, hmmio]
  | lpcAck avail => cases avail <;> simp only [PslMessage.clears, hmem]
  | _ => rfl

theorem pslTurn_dead (h : afu.alive = false) (t : PslInput) : afu.pslTurn t = afu := by
  unfold LibAfu.pslTurn
  rw [h]
  rfl

theorem takes_dead (h : afu.alive = false) (t : PslInput) : afu.takes t = none := by
  unfold LibAfu.takes
  simp [h]

/-- The end of the thread changes nothing but the attach. -/
structure EndOfTurn (afu afu' : LibAfu) : Prop where
  opened : afu'.opened = afu.opened
  mapped : afu'.mapped = afu.mapped
  globalMapped : afu'.globalMapped = afu.globalMapped
  lpcMapped : afu'.lpcMapped = afu.lpcMapped
  state : afu'.state = afu.state
  mem : afu'.mem = afu.mem
  memData : afu'.memData = afu.memData
  exited : afu'.exited = afu.exited
  attached : afu'.opened = false → afu'.exited = false → afu'.attached = false

theorem pslTurn_end (h : afu.alive = true) (t : PslInput) :
    EndOfTurn ((afu.sendAll t.put).receive t.message) (afu.pslTurn t) := by
  unfold LibAfu.pslTurn
  rw [if_pos h]
  dsimp only
  generalize (afu.sendAll t.put).receive t.message = afu₂
  by_cases hlast : (afu₂.alive || afu₂.exited) = true
  · rw [if_pos hlast]
    refine ⟨rfl, rfl, rfl, rfl, rfl, rfl, rfl, rfl, fun hopened hexited => ?_⟩
    simp [LibAfu.alive, hopened, hexited] at hlast
  · rw [if_neg hlast]
    exact ⟨rfl, rfl, rfl, rfl, rfl, rfl, rfl, rfl, fun _ _ => rfl⟩

theorem turn_gives_up (h : afu.alive = true) (hclears : t.message.clears afu = true) :
    GivenUp afu (afu.pslTurn t) := by
  have hend := pslTurn_end h t
  have hmaps := sendAll_maps afu t.put
  have hgiven := receive_clears (afu.sendAll t.put) (m := t.message) (by rw [clears_sendAll, hclears])
  have hexited : afu.exited = false := by
    simp only [LibAfu.alive, Bool.and_eq_true, Bool.not_eq_true'] at h
    exact h.2
  refine ⟨hend.opened.trans hgiven.opened, ?_, hend.mapped.trans hgiven.mapped,
    hend.globalMapped.trans hgiven.globalMapped, hend.lpcMapped.trans (hgiven.lpcMapped.trans hmaps.lpcMapped), ?_, ?_⟩
  · refine hend.attached (hend.opened.trans hgiven.opened) ?_
    rw [hend.exited, hgiven.exited, hmaps.exited, hexited]
  · intro s
    rw [hend.state]
    exact hgiven.state s
  · rw [hend.exited, hgiven.exited, hmaps.exited]

theorem turn_receives (h : afu.alive = true) (hclears : t.message.clears afu = false) :
    Received (afu.sendAll t.put) t.message (afu.pslTurn t) := by
  have hend := pslTurn_end h t
  have hmaps := sendAll_maps afu t.put
  have hreceived := receive_keeps (afu.sendAll t.put) (m := t.message) (by rw [clears_sendAll, hclears])
  have hmmio : (afu.pslTurn t).mmioType = ((afu.sendAll t.put).receive t.message).mmioType := by
    unfold LibAfu.pslTurn
    rw [if_pos h]
    dsimp only
    split <;> rfl
  constructor
  · rw [hend.opened]
    exact hreceived.opened
  · exact hend.mapped.trans hreceived.mapped
  · exact hend.globalMapped.trans hreceived.globalMapped
  · exact hend.lpcMapped.trans hreceived.lpcMapped
  · exact hmmio.trans hreceived.mmioType
  · exact hend.mem.trans hreceived.mem
  · rw [hend.exited]
    exact hreceived.exited
  · rw [hend.exited, hend.state]
    exact hreceived.acked
  · rw [hend.state]
    exact hreceived.kept
  · rw [hend.exited, hend.memData]
    exact hreceived.memData
  · rw [hend.memData]
    exact hreceived.memData_kept

theorem turn_opened (h : afu.alive = true) : (afu.pslTurn t).opened = true ↔ afu.Harmless t := by
  have hopened : afu.opened = true := by
    simp only [LibAfu.alive, Bool.and_eq_true] at h
    exact h.1.2
  unfold LibAfu.Harmless
  cases hclears : t.message.clears afu with
  | true =>
      have hgiven := turn_gives_up h hclears
      simp [hgiven.opened]
  | false =>
      rw [(turn_receives h hclears).opened, sendAll_opened]
      simp [hopened]

/-- A slot that is idle is left alone. -/
theorem turn_idle (hexited : (afu.pslTurn t).exited = false) {s : Slot} (hidle : afu.state s = .idle) :
    (afu.pslTurn t).state s = .idle ∧ ∀ code, afu.takes t ≠ some (s, code) := by
  cases halive : afu.alive with
  | false =>
      rw [pslTurn_dead halive, takes_dead halive]
      exact ⟨hidle, nofun⟩
  | true =>
      have hsent : (afu.sendAll t.put).state s = .idle := by
        rw [sendAll_state, hidle]
        simp
      have hnot : ∀ code, afu.takes t ≠ some (s, code) := by
        intro code htakes
        unfold LibAfu.takes at htakes
        split at htakes
        · obtain ⟨-, hpending⟩ := Option.filter_eq_some_iff.mp htakes
          simp [hsent] at hpending
        · cases htakes
      refine ⟨?_, hnot⟩
      cases hclears : t.message.clears afu with
      | true => exact (turn_gives_up halive hclears).state s
      | false =>
          have hreceived := turn_receives halive hclears
          by_cases hack : ∃ code, t.message.ack = some (s, code)
          · obtain ⟨code, hack⟩ := hack
            exact hreceived.acked hexited s code hack
          · rw [hreceived.kept s (fun code hc => hack ⟨code, hc⟩), hsent]

/-- A request that is spared waits on, or its acknowledgement is taken. -/
theorem turn_spared (halive : afu.alive = true) (hexited : (afu.pslTurn t).exited = false) {s : Slot}
    (hwaits : afu.state s ≠ .idle) (h : afu.Spares s t) :
    ((∃ code, afu.takes t = some (s, code)) ∧ (afu.pslTurn t).state s = .idle) ∨
      ((∀ code, afu.takes t ≠ some (s, code)) ∧ (afu.pslTurn t).state s ≠ .idle) := by
  obtain ⟨hput, hclears⟩ := h
  have hsent : (afu.sendAll t.put).state s = .pending := by
    rw [sendAll_state]
    cases hstate : afu.state s with
    | idle => exact absurd hstate hwaits
    | request => simp [hput hstate]
    | pending => simp
  have hreceived := turn_receives halive hclears
  have htakes : afu.takes t = t.message.ack.filter (fun p => (afu.sendAll t.put).state p.1 = .pending) := by
    unfold LibAfu.takes
    rw [if_pos ⟨halive, hclears⟩]
  by_cases hack : ∃ code, t.message.ack = some (s, code)
  · obtain ⟨code, hack⟩ := hack
    refine .inl ⟨⟨code, ?_⟩, hreceived.acked hexited s code hack⟩
    rw [htakes, hack]
    simp [Option.filter, hsent]
  · refine .inr ⟨fun code htaken => hack ⟨code, ?_⟩, ?_⟩
    · rw [htakes] at htaken
      exact (Option.filter_eq_some_iff.mp htaken).1
    · rw [hreceived.kept s (fun code hc => hack ⟨code, hc⟩), hsent]
      exact nofun

/-- A request that is not spared is given up, and the connection with it. -/
theorem turn_unspared (halive : afu.alive = true) (hexited : (afu.pslTurn t).exited = false) {s : Slot}
    (h : ¬afu.Spares s t) :
    (∀ code, afu.takes t ≠ some (s, code)) ∧ (afu.pslTurn t).state s = .idle ∧ (afu.pslTurn t).opened = false := by
  cases hclears : t.message.clears afu with
  | true =>
      have hgiven := turn_gives_up halive hclears
      refine ⟨fun code htakes => ?_, hgiven.state s, hgiven.opened⟩
      unfold LibAfu.takes at htakes
      rw [if_neg (by simp [hclears])] at htakes
      cases htakes
  | false =>
      have hfailed : afu.state s = .request ∧ t.put s = false := by
        by_contra hnot
        refine h ⟨fun hreq => ?_, hclears⟩
        by_contra hput
        exact hnot ⟨hreq, by simpa using hput⟩
      obtain ⟨hreq, hput⟩ := hfailed
      have hsent : (afu.sendAll t.put).state s = .idle := by
        rw [sendAll_state, if_pos hreq, hput]
        rfl
      have hreceived := turn_receives halive hclears
      refine ⟨fun code htakes => ?_, ?_, ?_⟩
      · unfold LibAfu.takes at htakes
        split at htakes
        · obtain ⟨-, hpending⟩ := Option.filter_eq_some_iff.mp htakes
          simp [hsent] at hpending
        · cases htakes
      · by_cases hack : ∃ code, t.message.ack = some (s, code)
        · obtain ⟨code, hack⟩ := hack
          exact hreceived.acked hexited s code hack
        · rw [hreceived.kept s (fun code hc => hack ⟨code, hc⟩), hsent]
      · have hnot : ¬(afu.pslTurn t).opened = true := by
          rw [turn_opened halive]
          rintro ⟨hwrites, -⟩
          have hwritten := hwrites s hreq
          rw [hput] at hwritten
          cases hwritten
        simpa using hnot

theorem turn_taken (hexited : (afu.pslTurn t).exited = false) {s : Slot} {code : UInt8}
    (h : afu.takes t = some (s, code)) : (afu.pslTurn t).state s = .idle ∧ (s = .mem → code = 0) := by
  unfold LibAfu.takes at h
  split at h
  · rename_i htaken
    obtain ⟨halive, hclears⟩ := htaken
    obtain ⟨hack, -⟩ := Option.filter_eq_some_iff.mp h
    have hreceived := turn_receives halive hclears
    refine ⟨hreceived.acked hexited s code hack, ?_⟩
    rintro rfl
    exact (hreceived.exited hexited).2 code hack
  · cases h

theorem turn_exited (hexited : (afu.pslTurn t).exited = false) : afu.exited = false := by
  cases halive : afu.alive with
  | false =>
      rw [pslTurn_dead halive] at hexited
      exact hexited
  | true =>
      simp only [LibAfu.alive, Bool.and_eq_true, Bool.not_eq_true'] at halive
      exact halive.2

theorem send_attached (slot : Slot) {put : Bool} (h : afu.state slot = .request → put = true) :
    (afu.send slot put).attached = afu.attached := by
  unfold LibAfu.send LibAfu.setState
  split
  · rename_i hreq
    rw [h hreq]
    rfl
  · rfl

theorem sendAll_attached {put : Slot → Bool} (h : afu.Writes put) : (afu.sendAll put).attached = afu.attached := by
  unfold LibAfu.sendAll
  rw [send_attached, send_attached, send_attached .attach (h .attach)]
  · intro hreq
    rw [send_state] at hreq
    exact h .mmio (by simpa using hreq)
  · intro hreq
    rw [send_state, send_state] at hreq
    exact h .mem (by simpa [send_state] using hreq)

theorem receive_attached {m : PslMessage} (hclears : m.clears afu = false) (hput : m ≠ .putFailed) :
    (afu.receive m).attached = afu.attached := by
  cases m with
  | mmioAck avail =>
      have hwhole : 1 + mmioAckSize afu.mmioType ≤ avail.length := by simpa [PslMessage.clears] using hclears
      obtain ⟨data, heq⟩ := handleAck_whole afu hwhole
      rw [LibAfu.receive, heq]
      rfl
  | lpcAck avail =>
      cases avail with
      | nil => cases hclears
      | cons code rest =>
          by_cases hcode : code = 0
          · subst hcode
            obtain ⟨data, heq, -⟩ := handleMemAck_whole afu hclears
            rw [LibAfu.receive, heq]
            rfl
          · rw [LibAfu.receive, handleMemAck_code afu hcode]
  | quiet => rfl
  | lost => cases hclears
  | attach => rfl
  | detach => cases hclears
  | served => rfl
  | putFailed => exact absurd rfl hput
  | starved => cases hclears
  | noIrq => rfl

theorem pslTurn_attached (halive : afu.alive = true) (hnext : (afu.pslTurn t).alive = true) :
    (afu.pslTurn t).attached = ((afu.sendAll t.put).receive t.message).attached := by
  unfold LibAfu.pslTurn at hnext ⊢
  rw [if_pos halive] at hnext ⊢
  dsimp only at hnext ⊢
  split at hnext
  · rename_i hlast
    rw [if_pos hlast]
  · simp [LibAfu.alive] at hnext

/-- As long as the thread runs the flags stay. -/
theorem turn_flags (hnext : (afu.pslTurn t).alive = true) : (afu.pslTurn t).flags = afu.flags := by
  cases halive : afu.alive with
  | false => rw [pslTurn_dead halive]
  | true =>
      have hopened : (afu.pslTurn t).opened = true := by
        simp only [LibAfu.alive, Bool.and_eq_true] at hnext
        exact hnext.1.2
      obtain ⟨hwrites, hclears, hput⟩ := (turn_opened halive).mp hopened
      have hreceived := turn_receives halive hclears
      have hmaps := sendAll_maps afu t.put
      have hattached : (afu.pslTurn t).attached = afu.attached := by
        rw [pslTurn_attached halive hnext, receive_attached _ hput, sendAll_attached hwrites]
        rw [clears_sendAll, hclears]
      unfold LibAfu.flags
      rw [hattached, hreceived.mapped, hreceived.globalMapped, hreceived.lpcMapped, hmaps.mapped, hmaps.globalMapped,
        hmaps.lpcMapped]

end PslTurn

/-! ## The turns of a call -/

/-- The turn is harmless, if it is one. -/
def LibAfu.Holds (afu : LibAfu) (t : PslInput) : Prop := afu.alive = true → afu.Harmless t

/-- The request, as long as it waits, is not taken away. -/
def LibAfu.Keeps (slot : Slot) (afu : LibAfu) (t : PslInput) : Prop :=
  afu.alive = true → afu.state slot ≠ .idle → afu.Spares slot t

/-- The maps, as long as they are there, are not taken away. -/
def LibAfu.SparesMaps (afu : LibAfu) (t : PslInput) : Prop := afu.alive = true → t.message.clears afu = false

section Run

variable {afu : LibAfu} {turns : List PslInput}

theorem run_exited (h : (turns.foldl LibAfu.pslTurn afu).exited = false) : afu.exited = false := by
  induction turns generalizing afu with
  | nil => exact h
  | cons t ts ih => exact turn_exited (ih h)

theorem run_dead (h : afu.alive = false) : turns.foldl LibAfu.pslTurn afu = afu := by
  induction turns with
  | nil => rfl
  | cons t ts ih => rw [List.foldl_cons, pslTurn_dead h, ih]

theorem run_idle {s : Slot} (hexited : (turns.foldl LibAfu.pslTurn afu).exited = false) (hidle : afu.state s = .idle) :
    (turns.foldl LibAfu.pslTurn afu).state s = .idle ∧ (∀ code, (s, code) ∉ acksTaken afu turns) ∧
      Along LibAfu.pslTurn (LibAfu.Keeps s) afu turns := by
  induction turns generalizing afu with
  | nil => exact ⟨hidle, fun _ => List.not_mem_nil, trivial⟩
  | cons t ts ih =>
      rw [List.foldl_cons] at hexited ⊢
      obtain ⟨hnext, hnone⟩ := turn_idle (run_exited hexited) hidle
      obtain ⟨hlast, hrest, hkeeps⟩ := ih hexited hnext
      refine ⟨hlast, fun code hmem => ?_, fun _ hwaits => absurd hidle hwaits, hkeeps⟩
      rcases List.mem_append.mp hmem with hhead | htail
      · exact hnone code (Option.mem_toList.mp hhead)
      · exact hrest code htail

/-- A request has one acknowledgement. -/
theorem run_acked {s : Slot} {code : UInt8} (hexited : (turns.foldl LibAfu.pslTurn afu).exited = false)
    (h : (s, code) ∈ acksTaken afu turns) :
    (s = .mem → code = 0) ∧ ∀ code', (s, code') ∈ acksTaken afu turns → code' = code := by
  induction turns generalizing afu with
  | nil => cases h
  | cons t ts ih =>
      rw [List.foldl_cons] at hexited
      have hturn := run_exited hexited
      rcases List.mem_append.mp h with hhead | htail
      · have htakes := Option.mem_toList.mp hhead
        obtain ⟨hidle, hcode⟩ := turn_taken hturn htakes
        refine ⟨hcode, fun code' hmem => ?_⟩
        rcases List.mem_append.mp hmem with hhead' | htail'
        · have htakes' := Option.mem_toList.mp hhead'
          rw [htakes] at htakes'
          exact (Prod.mk.inj (Option.some.inj htakes')).2.symm
        · exact absurd htail' ((run_idle hexited hidle).2.1 code')
      · obtain ⟨hcode, honly⟩ := ih hexited htail
        refine ⟨hcode, fun code' hmem => ?_⟩
        rcases List.mem_append.mp hmem with hhead' | htail'
        · have hidle := (turn_taken hturn (Option.mem_toList.mp hhead')).1
          exact absurd htail ((run_idle hexited hidle).2.1 code)
        · exact honly code' htail'

/-- A request whose slot is idle in the end was acknowledged, or taken away. -/
theorem acked_iff_keeps {s : Slot} (hexited : (turns.foldl LibAfu.pslTurn afu).exited = false)
    (hwaits : afu.state s ≠ .idle) (hidle : (turns.foldl LibAfu.pslTurn afu).state s = .idle) :
    (∃ code, (s, code) ∈ acksTaken afu turns) ↔ Along LibAfu.pslTurn (LibAfu.Keeps s) afu turns := by
  induction turns generalizing afu with
  | nil => exact absurd hidle hwaits
  | cons t ts ih =>
      rw [List.foldl_cons] at hexited hidle
      have hturn := run_exited hexited
      have hsplit : (∃ code, (s, code) ∈ acksTaken afu (t :: ts)) ↔
          (∃ code, afu.takes t = some (s, code)) ∨ ∃ code, (s, code) ∈ acksTaken (afu.pslTurn t) ts := by
        simp [acksTaken, exists_or]
      rw [hsplit]
      cases halive : afu.alive with
      | false =>
          rw [pslTurn_dead halive, run_dead halive] at hidle
          exact absurd hidle hwaits
      | true =>
          by_cases hspares : afu.Spares s t
          · have hkeeps : LibAfu.Keeps s afu t := fun _ _ => hspares
            rcases turn_spared halive hturn hwaits hspares with ⟨htaken, hnext⟩ | ⟨hnone, hnext⟩
            · exact iff_of_true (.inl htaken) ⟨hkeeps, (run_idle hexited hnext).2.2⟩
            · constructor
              · rintro (⟨code, htaken⟩ | htail)
                · exact absurd htaken (hnone code)
                · exact ⟨hkeeps, (ih hexited hnext hidle).mp htail⟩
              · rintro ⟨-, hrest⟩
                exact .inr ((ih hexited hnext hidle).mpr hrest)
          · obtain ⟨hnone, hnext, -⟩ := turn_unspared halive hturn hspares
            apply iff_of_false
            · rintro (⟨code, htaken⟩ | ⟨code, htail⟩)
              · exact hnone code htaken
              · exact (run_idle hexited hnext).2.1 code htail
            · rintro ⟨hkeeps, -⟩
              exact hspares (hkeeps halive hwaits)

theorem run_opened (hopened : afu.opened = true) :
    (turns.foldl LibAfu.pslTurn afu).opened = true ↔ Along LibAfu.pslTurn LibAfu.Holds afu turns := by
  induction turns generalizing afu with
  | nil => exact iff_of_true hopened trivial
  | cons t ts ih =>
      rw [List.foldl_cons]
      cases halive : afu.alive with
      | false =>
          have hholds : LibAfu.Holds afu t := by
            intro h
            rw [halive] at h
            cases h
          rw [pslTurn_dead halive]
          rw [ih hopened]
          constructor
          · intro h
            refine ⟨hholds, ?_⟩
            rwa [pslTurn_dead halive]
          · rintro ⟨-, h⟩
            rwa [pslTurn_dead halive] at h
      | true =>
          by_cases hharmless : afu.Harmless t
          · rw [ih ((turn_opened halive).mpr hharmless)]
            constructor
            · intro h
              exact ⟨fun _ => hharmless, h⟩
            · rintro ⟨-, h⟩
              exact h
          · have hclosed : (afu.pslTurn t).opened = false := by
              simpa using (turn_opened halive).not.mpr hharmless
            have hdead : (afu.pslTurn t).alive = false := by
              simp [LibAfu.alive, hclosed]
            rw [run_dead hdead]
            apply iff_of_false
            · simp [hclosed]
            · rintro ⟨h, -⟩
              exact hharmless (h halive)

theorem run_flags (h : (turns.foldl LibAfu.pslTurn afu).alive = true) :
    (turns.foldl LibAfu.pslTurn afu).flags = afu.flags := by
  induction turns generalizing afu with
  | nil => rfl
  | cons t ts ih =>
      rw [List.foldl_cons] at h ⊢
      have halive : (afu.pslTurn t).alive = true := by
        by_contra hdead
        rw [run_dead (by simpa using hdead)] at h
        exact hdead h
      rw [ih h, turn_flags halive]

theorem turn_lpcMapped (afu : LibAfu) (t : PslInput) : (afu.pslTurn t).lpcMapped = afu.lpcMapped := by
  cases halive : afu.alive with
  | false => rw [pslTurn_dead halive]
  | true =>
      cases hclears : t.message.clears afu with
      | true => exact (turn_gives_up halive hclears).lpcMapped
      | false => exact (turn_receives halive hclears).lpcMapped.trans (sendAll_maps afu t.put).lpcMapped

theorem run_lpcMapped : (turns.foldl LibAfu.pslTurn afu).lpcMapped = afu.lpcMapped := by
  induction turns generalizing afu with
  | nil => rfl
  | cons t ts ih => rw [List.foldl_cons, ih, turn_lpcMapped]

theorem run_maps_kept (h : Along LibAfu.pslTurn LibAfu.SparesMaps afu turns) :
    (turns.foldl LibAfu.pslTurn afu).mapped = afu.mapped ∧
      (turns.foldl LibAfu.pslTurn afu).globalMapped = afu.globalMapped := by
  induction turns generalizing afu with
  | nil => exact ⟨rfl, rfl⟩
  | cons t ts ih =>
      obtain ⟨hspares, hrest⟩ := h
      obtain ⟨hmapped, hglobal⟩ := ih hrest
      rw [List.foldl_cons, hmapped, hglobal]
      cases halive : afu.alive with
      | false =>
          rw [pslTurn_dead halive]
          exact ⟨rfl, rfl⟩
      | true =>
          have hreceived := turn_receives halive (hspares halive)
          have hmaps := sendAll_maps afu t.put
          exact ⟨hreceived.mapped.trans hmaps.mapped, hreceived.globalMapped.trans hmaps.globalMapped⟩

theorem run_maps_lost (h : ¬Along LibAfu.pslTurn LibAfu.SparesMaps afu turns) :
    (turns.foldl LibAfu.pslTurn afu).mapped = false ∧ (turns.foldl LibAfu.pslTurn afu).globalMapped = false := by
  induction turns generalizing afu with
  | nil => exact absurd trivial h
  | cons t ts ih =>
      rw [List.foldl_cons]
      by_cases hspares : LibAfu.SparesMaps afu t
      · exact ih (fun hrest => h ⟨hspares, hrest⟩)
      · simp only [LibAfu.SparesMaps, Classical.not_imp, Bool.not_eq_false] at hspares
        obtain ⟨halive, hclears⟩ := hspares
        have hgiven := turn_gives_up halive hclears
        have hdead : (afu.pslTurn t).alive = false := by
          simp [LibAfu.alive, hgiven.opened]
        rw [run_dead hdead]
        exact ⟨hgiven.mapped, hgiven.globalMapped⟩

/-- A connection that has ended leaves no attach behind. -/
theorem run_attached (hopened : afu.opened = true) (hexited : (turns.foldl LibAfu.pslTurn afu).exited = false)
    (hclosed : (turns.foldl LibAfu.pslTurn afu).opened = false) :
    (turns.foldl LibAfu.pslTurn afu).attached = false := by
  induction turns generalizing afu with
  | nil =>
      rw [List.foldl_nil, hopened] at hclosed
      cases hclosed
  | cons t ts ih =>
      rw [List.foldl_cons] at hexited hclosed ⊢
      cases hnext : (afu.pslTurn t).opened with
      | true => exact ih hnext hexited hclosed
      | false =>
          have hdead : (afu.pslTurn t).alive = false := by
            simp [LibAfu.alive, hnext]
          have halive : afu.alive = true := by
            by_contra hnot
            rw [pslTurn_dead (by simpa using hnot), hopened] at hnext
            cases hnext
          rw [run_dead hdead]
          exact (pslTurn_end halive t).attached hnext (run_exited hexited)

/-- The flags after the end of the connection. -/
theorem run_flags_closed (hopened : afu.opened = true) (hexited : (turns.foldl LibAfu.pslTurn afu).exited = false)
    (hclosed : (turns.foldl LibAfu.pslTurn afu).opened = false) :
    (turns.foldl LibAfu.pslTurn afu).flags = afu.flags ↔
      afu.attached = false ∧
        (Along LibAfu.pslTurn LibAfu.SparesMaps afu turns ∨ afu.mapped = false ∧ afu.globalMapped = false) := by
  have hattached := run_attached hopened hexited hclosed
  have hlpc : (turns.foldl LibAfu.pslTurn afu).lpcMapped = afu.lpcMapped := run_lpcMapped
  unfold LibAfu.flags
  rw [hattached, hlpc]
  by_cases hspares : Along LibAfu.pslTurn LibAfu.SparesMaps afu turns
  · obtain ⟨hmapped, hglobal⟩ := run_maps_kept hspares
    rw [hmapped, hglobal]
    simp only [Prod.mk.injEq, hspares, true_or, and_true, Bool.false_eq]
  · obtain ⟨hmapped, hglobal⟩ := run_maps_lost hspares
    rw [hmapped, hglobal]
    simp only [Prod.mk.injEq, hspares, false_or, and_true, Bool.false_eq]

/-- When the connection holds, the request is acknowledged. -/
theorem holds_keeps (s : Slot) (h : Along LibAfu.pslTurn LibAfu.Holds afu turns) :
    Along LibAfu.pslTurn (LibAfu.Keeps s) afu turns := by
  refine Along.mono (fun afu t hholds halive _ => ?_) h
  obtain ⟨hwrites, hclears, -⟩ := hholds halive
  exact ⟨hwrites s, hclears⟩

/-- The data of an acknowledged read is there. -/
theorem holds_memData (h : Along LibAfu.pslTurn LibAfu.Holds afu turns) (hread : afu.mem.type = .read)
    (hexited : (turns.foldl LibAfu.pslTurn afu).exited = false)
    (hdata : (∃ code, (Slot.mem, code) ∈ acksTaken afu turns) ∨ afu.memData.isSome = true) :
    (turns.foldl LibAfu.pslTurn afu).memData.isSome = true := by
  induction turns generalizing afu with
  | nil =>
      rcases hdata with ⟨code, hnil⟩ | hsome
      · cases hnil
      · exact hsome
  | cons t ts ih =>
      rw [List.foldl_cons] at hexited ⊢
      obtain ⟨hholds, hrest⟩ := h
      have hturn := run_exited hexited
      cases halive : afu.alive with
      | false =>
          have hacks : acksTaken afu (t :: ts) = acksTaken afu ts := by
            simp [acksTaken, takes_dead halive, pslTurn_dead halive]
          rw [pslTurn_dead halive] at hrest hexited ⊢
          rw [hacks] at hdata
          exact ih hrest hread hexited hdata
      | true =>
          obtain ⟨-, hclears, -⟩ := hholds halive
          have hreceived := turn_receives halive hclears
          have hmaps := sendAll_maps afu t.put
          have hmem : (afu.sendAll t.put).mem.type = .read := by rw [hmaps.mem, hread]
          refine ih hrest (by rw [hreceived.mem, hmem]) hexited ?_
          rcases hdata with ⟨code, hmemAck⟩ | hsome
          · rcases List.mem_append.mp hmemAck with hhead | htail
            · right
              have htaken := Option.mem_toList.mp hhead
              unfold LibAfu.takes at htaken
              rw [if_pos ⟨halive, hclears⟩] at htaken
              exact hreceived.memData hturn hmem code (Option.filter_eq_some_iff.mp htaken).1
            · exact .inl ⟨code, htail⟩
          · right
            exact hreceived.memData_kept (by rw [hmaps.memData, hsome])

end Run

end Ocse
