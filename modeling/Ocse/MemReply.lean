import Ocse.AmoFaults
import Ocse.ClientMemory

/-!
# The replies of a client

ocse takes the answer to a memory request off the socket by the type of the event it has asked about. `ReplyLaw`
says that a handler answered with just these bytes, so that the next byte starts the next message.
-/

namespace Ocse

/-- What `_handle_mem_read` takes off the socket behind the code of a success. -/
def CmdEvent.replySize (e : CmdEvent) : ℕ :=
  match e.type with
  | .read | .amoRd | .amoRw => e.size
  | _ => 0

/-- What `_handle_client` takes off the socket for the answer to an event, and what is left. -/
def CmdEvent.takeAnswer (e : CmdEvent) (stream : List UInt8) : Option (ClientInput × List UInt8) := do
  let (opcode, stream) ← getByte stream
  if opcode = ocseMemFailure then return (.memFailure, stream)
  else if opcode = ocseMemSuccess then
    let (data, stream) ← getData e.replySize stream
    return (.memSuccess data, stream)
  else none

/-- One reply: a failure, or a success with the bytes that the event asks for. -/
def Framed (e : CmdEvent) (reply : List UInt8) : Prop :=
  reply = [ocseMemFailure] ∨ ∃ data, reply = ocseMemSuccess :: data ∧ data.length = e.replySize

/-- The reply is one, ocse takes all of it and nothing else, and asks the client nothing any more. -/
structure ReplyLaw (e : CmdEvent) (reply : List UInt8) : Prop where
  framed : Framed e reply
  taken : ∃ input, (∀ rest, e.takeAnswer (reply ++ rest) = some (input, rest)) ∧
    ∀ s i c, s.client i = some c → c.state ≠ .none →
      ∃ c', (handleClient s i input).client i = some c' ∧ c'.memAccess = none

/-- An answer of either kind lets go of the event. -/
theorem handleClient_released {input : ClientInput} (h : input = .memFailure ∨ ∃ data, input = .memSuccess data)
    {s : Ocl} {i : ℕ} {c : Client} (hc : s.client i = some c) (hstate : c.state ≠ .none) :
    ∃ c', (handleClient s i input).client i = some c' ∧ c'.memAccess = none := by
  refine ⟨{ c with memAccess := none }, ?_, rfl⟩
  have hclear (s : Ocl) : (s.clearMemAccess i c).client i = some { c with memAccess := none } := by
    simp [Ocl.clearMemAccess, Ocl.setClient]
  unfold handleClient
  rw [hc]
  dsimp only
  rw [if_neg hstate]
  rcases h with rfl | ⟨data, rfl⟩ <;> cases s.memAccess c <;> exact hclear _

theorem Framed.replyLaw {e : CmdEvent} {reply : List UInt8} (h : Framed e reply) : ReplyLaw e reply := by
  refine ⟨h, ?_⟩
  rcases h with rfl | ⟨data, rfl, hlength⟩
  · refine ⟨.memFailure, fun rest => ?_, fun s i c => handleClient_released (.inl rfl)⟩
    simp [CmdEvent.takeAnswer]
  · refine ⟨.memSuccess data, fun rest => ?_, fun s i c => handleClient_released (.inr ⟨data, rfl⟩)⟩
    simp [CmdEvent.takeAnswer, getData_append hlength, ocseMemSuccess, ocseMemFailure]

theorem replyLaw_iff_framed (e : CmdEvent) (reply : List UInt8) : ReplyLaw e reply ↔ Framed e reply :=
  ⟨ReplyLaw.framed, Framed.replyLaw⟩

/-! ## Atomic operations -/

/-- The functions for which a kind of operation sends the reply that it owes. -/
def AmoReplies (amoOp f : UInt8) : Prop :=
  ¬Unsupported f ∧ (amoOp = ocseAmoRw → f.toNat ≤ 10) ∧ (amoOp = ocseAmoRd → f.toNat ≤ 7 ∨ 12 ≤ f.toNat)

instance (f : UInt8) : Decidable (Unsupported f) := by
  unfold Unsupported
  infer_instance

instance (amoOp f : UInt8) : Decidable (AmoReplies amoOp f) := by
  unfold AmoReplies
  infer_instance

section Execute

variable {n : ℕ} (mem : Buffer UInt8) (addr : ℕ) (staleA : BitVec 32) (l : AmoLocals n)

/-- What the switch leaves in `wb`. -/
theorem executeAmo_wb (hn : n = 4 ∨ n = 8) {amoOp : UInt8}
    (hkind : amoOp = ocseAmoWr ∨ amoOp = ocseAmoRw ∨ amoOp = ocseAmoRd) (f : UInt8) :
    (AmoReplies amoOp f ∧ (executeAmo amoOp f n mem addr staleA l).2 = valueBack amoOp n) ∨
    (¬AmoReplies amoOp f ∧ (executeAmo amoOp f n mem addr staleA l).2 = 0xf) ∨
    (¬AmoReplies amoOp f ∧ amoOp ≠ ocseAmoWr ∧ (executeAmo amoOp f n mem addr staleA l).2 = 0) := by
  by_cases hsupported : Unsupported f
  · rw [executeAmo_unsupported _ _ _ _ _ hsupported]
    exact .inr (.inl ⟨fun h => h.1 hsupported, rfl⟩)
  rcases Nat.lt_or_ge 7 f.toNat with hhigh | hfetch
  · have hcode : f = amoArmwfCasU ∨ f = amoArmwfCasE ∨ f = amoArmwfCasNe ∨ f = amoArmwfIncB ∨ f = amoArmwfIncE ∨
        f = amoArmwfDecB := by
      have hother : f.toNat ≠ 11 := fun h => hsupported (.inl (UInt8.toNat_inj.mp h))
      have hlow : ¬15 ≤ f.toNat := fun h => hsupported (.inr h)
      simp only [← UInt8.toNat_inj, amoArmwfCasU, amoArmwfCasE, amoArmwfCasNe, amoArmwfIncB, amoArmwfIncE,
        amoArmwfDecB, UInt8.reduceToNat]
      omega
    rcases hkind with rfl | rfl | rfl
    all_goals
      rcases hcode with rfl | rfl | rfl | rfl | rfl | rfl
      all_goals first | exact .inl ⟨by decide, rfl⟩ | exact .inr (.inr ⟨by decide, by decide, rfl⟩)
  · rw [executeAmo_fetch _ _ _ _ hn _ _ hfetch]
    exact .inl ⟨⟨hsupported, fun _ => by omega, fun _ => .inl hfetch⟩, rfl⟩

end Execute

section Reply

variable {e : CmdEvent} {amoOp : UInt8} {n : ℕ}

theorem not_framed_nil : ¬Framed e [] := by
  rintro (h | ⟨data, h, -⟩)
  · cases h
  · cases h

theorem framed_success_iff (data : List UInt8) :
    Framed e (ocseMemSuccess :: data) ↔ data.length = e.replySize := by
  constructor
  · rintro (h | ⟨data', h, hlength⟩)
    · exact absurd (List.cons.inj h).1 (by decide)
    · rw [(List.cons.inj h).2]
      exact hlength
  · intro hlength
    exact .inr ⟨data, rfl, hlength⟩

theorem framed_replyAmo_iff (hn : n = 4 ∨ n = 8) (hkind : amoOp = ocseAmoWr ∨ amoOp = ocseAmoRw ∨ amoOp = ocseAmoRd)
    (hsize : e.replySize = if amoOp = ocseAmoWr then 0 else n) (f cmdEndian : UInt8) (mem : Buffer UInt8)
    (addr : ℕ) (staleA : BitVec 32) (l : AmoLocals n) :
    Framed e (replyAmo (cmdEndian = 0) (executeAmo amoOp f n mem addr staleA l).1
      (executeAmo amoOp f n mem addr staleA l).2) ↔ AmoReplies amoOp f := by
  generalize (executeAmo amoOp f n mem addr staleA l).1 = left
  rcases executeAmo_wb mem addr staleA l hn hkind f with ⟨h, hwb⟩ | ⟨h, hwb⟩ | ⟨h, hwrite, hwb⟩
  · rw [hwb, iff_true_right h]
    by_cases hwrite : amoOp = ocseAmoWr
    · rw [if_pos hwrite] at hsize
      rw [valueBack, if_pos hwrite]
      exact (framed_success_iff []).mpr hsize.symm
    · rw [if_neg hwrite] at hsize
      rw [replyAmo_valueBack cmdEndian hwrite, framed_success_iff, length_leBytes, hsize]
  · rw [hwb, iff_false_right h]
    exact not_framed_nil
  · -- a success is all that is sent, and ocse waits for the data
    rw [if_neg hwrite] at hsize
    rw [hwb, iff_false_right h]
    change ¬Framed e (ocseMemSuccess :: [])
    rw [framed_success_iff, hsize, List.length_nil]
    omega

theorem framed_dmo_iff (hn : n = 4 ∨ n = 8) (hkind : amoOp = ocseAmoWr ∨ amoOp = ocseAmoRw ∨ amoOp = ocseAmoRd)
    (hsize : e.replySize = if amoOp = ocseAmoWr then 0 else n) (c : PslClient) (written : Bool) (addr : ℕ)
    (f cmdEndian : UInt8) (op1 op2 : ℕ) (stale : Stale n) :
    Framed e (c.handleDmoOps written amoOp n addr f op1 op2 cmdEndian stale).2 ↔
      c.valid addr = true ∧ (n = 8 ∧ addr / 4 % 2 = 1 ∨ AmoReplies amoOp f) := by
  unfold PslClient.handleDmoOps
  dsimp only
  by_cases hvalid : c.valid addr = true
  · by_cases hplace : n = 8 ∧ addr / 4 % 2 = 1
    · have hnone := (selectOperands_eq_none_iff hn amoOp addr (BitVec.ofNat 64 op1) (BitVec.ofNat 64 op2)
        stale).mpr hplace
      rw [MemClient.handleDmoOps, if_neg (by simp [hvalid]), hnone]
      exact iff_of_true (.inl rfl) ⟨hvalid, .inl hplace⟩
    · obtain ⟨v, w, hoperands⟩ := selectOperands_some hn hplace amoOp (BitVec.ofNat 64 op1) (BitVec.ofNat 64 op2)
        stale
      rw [c.toMemClient.handleDmoOps_of_operands _ _ _ _ _ hvalid hoperands]
      dsimp only
      rw [framed_replyAmo_iff hn hkind hsize]
      simp only [hvalid, hplace, false_or, true_and]
  · have hrefused : c.valid addr = false := by simpa using hvalid
    rw [MemClient.handleDmoOps, if_pos hrefused]
    exact iff_of_false not_framed_nil (fun h => hvalid h.1)

end Reply

/-! ## Every request -/

theorem framed_failure (e : CmdEvent) : Framed e [ocseMemFailure] := .inl rfl

theorem framed_refuse_iff (e : CmdEvent) (c : PslClient) (written : Bool) :
    Framed e (c.refuse written).2 ↔ c.tracked = true ∨ written = true := by
  unfold PslClient.refuse PslClient.handleDsi
  dsimp only
  rw [← Bool.or_eq_true]
  by_cases h : (c.tracked || written) = true
  · rw [if_pos h]
    exact iff_of_true (framed_failure e) h
  · rw [if_neg h]
    exact iff_of_false not_framed_nil h

/-- The handlers that look at the address, answer a refused one and then succeed. -/
theorem framed_guarded_iff {e : CmdEvent} {c c' : PslClient} {written : Bool} {addr : ℕ} {data : List UInt8}
    (hlength : data.length = e.replySize) :
    Framed e (if c.valid addr = false then c.refuse written else (c', ocseMemSuccess :: data)).2 ↔
      c.valid addr = true ∨ c.tracked = true ∨ written = true := by
  by_cases hvalid : c.valid addr = true
  · rw [if_neg (by simp [hvalid])]
    exact iff_of_true ((framed_success_iff data).mpr hlength) (.inl hvalid)
  · have hrefused : c.valid addr = false := by simpa using hvalid
    rw [if_pos hrefused, framed_refuse_iff, or_iff_right hvalid]

/-- A request for memory with an answer. -/
def IsMemoryRequest (e : CmdEvent) : Prop := e.type ∈ [.read, .write, .wrBe, .amoRd, .amoRw, .amoWr]

/-- The requests that are answered as they have to be. -/
def RequestAnswered (c : PslClient) (written : Bool) (e : CmdEvent) : Prop :=
  let answersAmo (amoOp : UInt8) :=
    c.valid e.addr = true ∧ (e.size = 8 ∧ e.addr / 4 % 2 = 1 ∨ AmoReplies amoOp e.cmdFlag)
  match e.type with
  | .amoRd => answersAmo ocseAmoRd
  | .amoRw => answersAmo ocseAmoRw
  | .amoWr => answersAmo ocseAmoWr
  | _ => c.valid e.addr = true ∨ c.tracked = true ∨ written = true

theorem framed_serve_iff {e : CmdEvent} (haccepted : e.Accepted) (hmemory : IsMemoryRequest e) (c : PslClient)
    (written : Bool) (stale : ∀ n, Stale n) :
    Framed e (c.serve written stale e.request).2 ↔ RequestAnswered c written e := by
  have hsize := haccepted.size
  unfold RequestAnswered
  unfold IsMemoryRequest at hmemory
  cases htype : e.type <;> simp only [CmdEvent.LegalSize, htype] at hsize
  case read =>
    simp only [CmdEvent.request, htype, PslClient.serve, PslClient.handleRead]
    exact framed_guarded_iff (by rw [Buffer.length_read, CmdEvent.replySize, htype])
  case write =>
    simp only [CmdEvent.request, htype, PslClient.serve, PslClient.handleWrite]
    exact framed_guarded_iff (by rw [CmdEvent.replySize, htype]; rfl)
  case wrBe =>
    simp only [CmdEvent.request, htype, PslClient.serve, PslClient.handleWriteBe]
    exact framed_guarded_iff (by rw [CmdEvent.replySize, htype]; rfl)
  case amoRd =>
    simp only [CmdEvent.request, htype, PslClient.serve]
    exact framed_dmo_iff hsize (.inr (.inr rfl)) (by rw [CmdEvent.replySize, htype]; rfl) c written _ _ _ _ _ _
  case amoRw =>
    simp only [CmdEvent.request, htype, PslClient.serve]
    exact framed_dmo_iff hsize (.inr (.inl rfl)) (by rw [CmdEvent.replySize, htype]; rfl) c written _ _ _ _ _ _
  case amoWr =>
    simp only [CmdEvent.request, htype, PslClient.serve]
    exact framed_dmo_iff hsize (.inl rfl) (by rw [CmdEvent.replySize, htype]; rfl) c written _ _ _ _ _ _
  all_goals simp [htype] at hmemory

/-- The reply law for a message that ocse can send, whatever stands behind it in the socket and whatever the locals
of the handler held. -/
theorem replyLaw_iff {e : CmdEvent} (haccepted : e.Accepted) (hmemory : IsMemoryRequest e) (c : PslClient)
    (written : Bool) :
    (∀ stale rest, ∃ request, pslRequest (e.clientMessage ++ rest) = some (request, rest) ∧
      ReplyLaw e (c.serve written stale request).2) ↔ RequestAnswered c written e := by
  constructor
  · intro h
    obtain ⟨request, hparsed, hlaw⟩ := h (fun _ => ⟨0, 0, 0⟩) []
    rw [pslRequest_clientMessage haccepted] at hparsed
    cases hparsed
    exact (framed_serve_iff haccepted hmemory c written _).mp hlaw.framed
  · intro hanswered stale rest
    refine ⟨e.request, pslRequest_clientMessage haccepted rest, ?_⟩
    exact ((framed_serve_iff haccepted hmemory c written stale).mpr hanswered).replyLaw

def zeroPslClient : PslClient := { zeroClient with tracked := false }

/-- An AMO_RD of four bytes. -/
def sampleAmoRd (functionCode : UInt8) : CmdEvent :=
  { sampleSend .amoRd afuCmdAmoRd 0x1000 4 with cmdFlag := functionCode }

theorem sampleAmoRd_accepted (functionCode : UInt8) : (sampleAmoRd functionCode).Accepted :=
  ⟨show 0x1000 < 256 ^ 8 by decide, .inl rfl⟩

theorem replyLaw_iff_sampleAmoRd :
    (∀ stale rest, ∃ request, pslRequest ((sampleAmoRd amoArmwfIncB).clientMessage ++ rest) = some (request, rest) ∧
      ReplyLaw (sampleAmoRd amoArmwfIncB) (zeroPslClient.serve true stale request).2) ↔
      RequestAnswered zeroPslClient true (sampleAmoRd amoArmwfIncB) :=
  replyLaw_iff (sampleAmoRd_accepted amoArmwfIncB) (by unfold IsMemoryRequest; decide) zeroPslClient true

/-- An AMO_RD with the function code of a swap is answered with one byte, and ocse waits for five. -/
theorem sampleAmoRd_short :
    (sampleAmoRd amoArmwfCasU).replySize = 4 ∧
      (zeroPslClient.serve true (fun _ => ⟨0, 0, 0⟩) (sampleAmoRd amoArmwfCasU).request).2 = [ocseMemSuccess] ∧
      ¬ReplyLaw (sampleAmoRd amoArmwfCasU)
        (zeroPslClient.serve true (fun _ => ⟨0, 0, 0⟩) (sampleAmoRd amoArmwfCasU).request).2 := by
  have hreply : (zeroPslClient.serve true (fun _ => ⟨0, 0, 0⟩) (sampleAmoRd amoArmwfCasU).request).2 =
      [ocseMemSuccess] := by decide +kernel
  refine ⟨rfl, hreply, fun h => ?_⟩
  rw [hreply] at h
  have hlength := (framed_success_iff []).mp h.framed
  exact absurd hlength (by decide)

end Ocse
