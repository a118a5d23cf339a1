import Ocse.ApiSuccess

/-!
# What a call reports

A call is honest when a success means that each of its requests was acknowledged without an error, and when a failure
leaves the flags as they were. The calls decide by different signs: attach and map by the idle slot alone, the
accesses by the idle slot and `opened`. For each the turns with which it is honest are given exactly; what the
calls promise with all turns is less.
-/

namespace Ocse

/-- The calls of the library that wait for ocse. -/
inductive ApiCall
  | attach
  | mmioMap (global : Bool)
  | mmioWrite64 (global : Bool) (offset value : UInt64)
  | mmioRead64 (global : Bool) (offset : UInt64)
  | mmioWrite32 (global : Bool) (offset : UInt64) (value : UInt32)
  | mmioRead32 (global : Bool) (offset : UInt64)
  | lpcRead (offset : UInt64) (size : ℕ)
  | lpcWrite (offset : UInt64) (val : Buffer UInt8) (size : ℕ)

/-- Whether the call reports a success, and what it leaves, with the turns while each of its requests waits. There
is no result when it does not return. -/
def ApiCall.exec (afu : LibAfu) (turns : List (List PslInput)) : ApiCall → Option (Bool × LibAfu)
  | .attach => (afu.ocxlAfuAttach turns.flatten).map (fun (err, afu) => (err = .ok, afu))
  | .mmioMap global => (afu.ocxlMmioMap global turns.flatten).map (fun (err, afu) => (err = .ok, afu))
  | .mmioWrite64 global offset value =>
      (afu.ocxlMmioWrite64 global offset value turns.flatten).map (fun (err, afu) => (err = .ok, afu))
  | .mmioRead64 global offset =>
      (afu.ocxlMmioRead64 global offset turns.flatten).map (fun (err, _, afu) => (err = .ok, afu))
  | .mmioWrite32 global offset value =>
      (afu.ocxlMmioWrite32 global offset value turns.flatten).map (fun (err, afu) => (err = .ok, afu))
  | .mmioRead32 global offset =>
      (afu.ocxlMmioRead32 global offset turns.flatten).map (fun (err, _, afu) => (err = .ok, afu))
  | .lpcRead offset size => (afu.ocxlLpcRead offset size turns).map (fun (ok, _, afu) => (ok, afu))
  | .lpcWrite offset val size => afu.ocxlLpcWrite offset val size turns

/-- What a call asks for when it passes its checks: a request of which only the idle slot is looked at, an access
that looks at `opened` too, and the pieces of a transfer. -/
inductive ApiRequest
  | plain (slot : Slot) (start : LibAfu)
  | access (start : LibAfu)
  | transfer (requests : List MemReq) (start : LibAfu)

def LibAfu.mmioRequest (afu : LibAfu) (global rnw dw : Bool) (offset value : UInt64) : Option ApiRequest :=
  match OcxlMmio.check ⟨some ⟨afu.mapped, afu.globalMapped, afu.opened⟩, global⟩ offset (if dw then 0x7 else 0x3) with
  | .error _ => none
  | .ok _ => some (.access (afu.askMmio ⟨global, rnw, dw, offset.toUInt32, value⟩))

def LibAfu.lpcRequest (afu : LibAfu) (call : LpcCall) : Option ApiRequest :=
  if !afu.lpcMapped then none else call.requests.map (.transfer · afu)

def ApiCall.request (afu : LibAfu) : ApiCall → Option ApiRequest
  | .attach => if !afu.opened || afu.attached then none else some (.plain .attach afu)
  | .mmioMap global =>
      if !afu.opened || afu.mmioCount = afu.mmioMax then none else some (.plain .mmio (afu.askMap global))
  | .mmioWrite64 global offset value => afu.mmioRequest global false true offset value
  | .mmioRead64 global offset => afu.mmioRequest global true true offset 0
  | .mmioWrite32 global offset value => afu.mmioRequest global false false offset value.toUInt64
  | .mmioRead32 global offset => afu.mmioRequest global true false offset 0
  | .lpcRead offset size => afu.lpcRequest (.read offset size)
  | .lpcWrite offset val size => afu.lpcRequest (.write offset val size)

/-! ## What is promised -/

/-- Every piece was acknowledged, without an error. -/
def memAcked : List MemReq → List (List PslInput) → LibAfu → Prop
  | [], _, _ => True
  | _ :: _, [], _ => False
  | r :: rs, turns :: rest, afu =>
    let asked := (afu.askMem r).setState .mem .request
    (.mem, 0) ∈ acksTaken asked turns ∧ memAcked rs rest (turns.foldl LibAfu.pslTurn asked)

/-- ocse acknowledged the request. For an attach and a map the AFU has no response. -/
def ApiRequest.Acknowledged (turns : List (List PslInput)) : ApiRequest → Prop
  | .plain slot start => ∃ code, (slot, code) ∈ acksTaken (start.setState slot .request) turns.flatten
  | .access start => (.mmio, 0) ∈ acksTaken (start.setState .mmio .request) turns.flatten
  | .transfer requests start => memAcked requests turns start

/-- The result says what happened. -/
structure ApiCall.Honest (call : ApiCall) (afu : LibAfu) (turns : List (List PslInput)) (ok : Bool) (afu' : LibAfu) : Prop where
  success : ok = true → ∃ q, call.request afu = some q ∧ q.Acknowledged turns
  failure : ok = false → afu'.flags = afu.flags

/-! ## What it takes -/

def LibAfu.HoldsFor (start : LibAfu) (turns : List PslInput) : Prop :=
  Along LibAfu.pslTurn LibAfu.Holds start turns

/-- The loss of the connection takes no flag away that was set. -/
def LibAfu.NothingToLose (start : LibAfu) (turns : List PslInput) : Prop :=
  start.attached = false ∧
    (Along LibAfu.pslTurn LibAfu.SparesMaps start turns ∨ start.mapped = false ∧ start.globalMapped = false)

def memServed : List MemReq → List (List PslInput) → LibAfu → Prop
  | r :: rs, turns :: rest, afu =>
    let asked := (afu.askMem r).setState .mem .request
    (asked.HoldsFor turns → memServed rs rest (turns.foldl LibAfu.pslTurn asked)) ∧
      (¬asked.HoldsFor turns → asked.NothingToLose turns)
  | _, _, _ => True

/-- What the server, the AFU and the socket have to do for the call to report truly. -/
def ApiRequest.Served (turns : List (List PslInput)) : ApiRequest → Prop
  | .plain slot start => Along LibAfu.pslTurn (LibAfu.Keeps slot) (start.setState slot .request) turns.flatten
  | .access start =>
      let asked := start.setState .mmio .request
      (asked.HoldsFor turns.flatten → ∀ code, (.mmio, code) ∈ acksTaken asked turns.flatten → code = 0) ∧
        (¬asked.HoldsFor turns.flatten → asked.NothingToLose turns.flatten)
  | .transfer requests start => memServed requests turns start

/-! ## What is promised with all turns -/

/-- Nothing takes away a request of which only the idle slot is looked at. -/
def ApiRequest.Kept (turns : List (List PslInput)) : ApiRequest → Prop
  | .plain slot start => Along LibAfu.pslTurn (LibAfu.Keeps slot) (start.setState slot .request) turns.flatten
  | .access _ => True
  | .transfer _ _ => True

/-- ocse acknowledged the request, the AFU with whatever code for an access. -/
def ApiRequest.Answered (turns : List (List PslInput)) : ApiRequest → Prop
  | .plain slot start => ∃ code, (slot, code) ∈ acksTaken (start.setState slot .request) turns.flatten
  | .access start => ∃ code, (.mmio, code) ∈ acksTaken (start.setState .mmio .request) turns.flatten
  | .transfer requests start => memAcked requests turns start

section Wait

variable {start afu' : LibAfu} {slot : Slot} {turns : List PslInput}

theorem wait_some (h : start.wait slot turns = some afu') :
    turns.foldl LibAfu.pslTurn (start.setState slot .request) = afu' ∧ afu'.exited = false ∧ afu'.state slot = .idle := by
  unfold LibAfu.wait at h
  dsimp only at h
  split at h
  · cases h
  · rename_i hexited
    split at h
    · rename_i hidle
      obtain rfl := Option.some.inj h
      exact ⟨rfl, by simpa using hexited, hidle⟩
    · cases h

theorem setState_waits (slot : Slot) : (start.setState slot .request).state slot ≠ .idle := by
  rw [setState_self]
  nofun

/-- A call returns only while the thread runs. -/
theorem wait_alive (h : start.wait slot turns = some afu') : start.alive = true := by
  obtain ⟨hrun, -, hidle⟩ := wait_some h
  by_contra hdead
  have hnot : (start.setState slot .request).alive = false := (Bool.not_eq_true start.alive).mp hdead
  rw [run_dead hnot] at hrun
  rw [← hrun] at hidle
  exact setState_waits slot hidle

theorem wait_opened (h : start.wait slot turns = some afu') :
    afu'.opened = true ↔ (start.setState slot .request).HoldsFor turns := by
  have halive := wait_alive h
  simp only [LibAfu.alive, Bool.and_eq_true] at halive
  rw [← (wait_some h).1]
  exact run_opened halive.1.2

theorem wait_acked (h : start.wait slot turns = some afu') :
    (∃ code, (slot, code) ∈ acksTaken (start.setState slot .request) turns) ↔
      Along LibAfu.pslTurn (LibAfu.Keeps slot) (start.setState slot .request) turns := by
  obtain ⟨rfl, hexited, hidle⟩ := wait_some h
  exact acked_iff_keeps hexited (setState_waits slot) hidle

theorem wait_flags_closed (h : start.wait slot turns = some afu') (hclosed : afu'.opened = false) :
    afu'.flags = start.flags ↔ (start.setState slot .request).NothingToLose turns := by
  have halive := wait_alive h
  simp only [LibAfu.alive, Bool.and_eq_true] at halive
  obtain ⟨rfl, hexited, -⟩ := wait_some h
  exact run_flags_closed halive.1.2 hexited hclosed

theorem access_honest (h : start.wait .mmio turns = some afu') :
    ((afu'.opened = true → (.mmio, 0) ∈ acksTaken (start.setState .mmio .request) turns) ∧
        (afu'.opened = false → afu'.flags = start.flags)) ↔
      ((start.setState .mmio .request).HoldsFor turns →
          ∀ code, (.mmio, code) ∈ acksTaken (start.setState .mmio .request) turns → code = 0) ∧
        (¬(start.setState .mmio .request).HoldsFor turns → (start.setState .mmio .request).NothingToLose turns) := by
  have hopened := wait_opened h
  obtain ⟨hrun, hexited, -⟩ := wait_some h
  apply and_congr
  · rw [hopened]
    refine imp_congr_right (fun hholds => ?_)
    obtain ⟨code, hacked⟩ := (wait_acked h).mpr (holds_keeps .mmio hholds)
    obtain ⟨-, honly⟩ := run_acked (by rw [hrun, hexited]) hacked
    constructor
    · intro hzero code' hmem
      rw [honly code' hmem, honly 0 hzero]
    · intro hall
      rw [← hall code hacked]
      exact hacked
  · rw [← hopened, Bool.not_eq_true]
    exact imp_congr_right (wait_flags_closed h)

end Wait

/-! ## Transfers -/

section Transfer

variable {afu afu' : LibAfu} {ok : Bool}

theorem memTransfer_alive {r : MemReq} {rs : List MemReq} {turns : List (List PslInput)} {out out' : List (List UInt8)}
    (h : LibAfu.memTransfer (r :: rs) turns afu out = some (ok, out', afu')) : afu.alive = true := by
  cases turns with
  | nil => cases h
  | cons t rest =>
      unfold LibAfu.memTransfer at h
      cases hwait : (afu.askMem r).wait .mem t with
      | none =>
          rw [hwait] at h
          cases h
      | some afu₁ =>
          have halive : (afu.askMem r).alive = true := wait_alive hwait
          exact halive

/-- One piece: it goes on with the rest when the connection holds, and fails otherwise. -/
theorem memTransfer_piece {r : MemReq} {rs : List MemReq} {turns : List PslInput} {rest : List (List PslInput)}
    {out out' : List (List UInt8)} {afu₁ : LibAfu}
    (hwait : (afu.askMem r).wait .mem turns = some afu₁)
    (h : LibAfu.memTransfer (r :: rs) (turns :: rest) afu out = some (ok, out', afu')) :
    (afu₁.opened = true ∧ ∃ out₁, LibAfu.memTransfer rs rest afu₁ out₁ = some (ok, out', afu')) ∨
      (afu₁.opened = false ∧ ok = false ∧ afu' = afu₁) := by
  have hopened := wait_opened hwait
  unfold LibAfu.memTransfer at h
  rw [hwait] at h
  dsimp only at h
  split at h
  · rename_i hread
    cases hclosed : afu₁.opened with
    | true =>
        obtain ⟨hrun, hexited, -⟩ := wait_some hwait
        have hholds := hopened.mp hclosed
        have hacked := (wait_acked hwait).mpr (holds_keeps .mem hholds)
        have hdata := holds_memData hholds hread (by rw [hrun, hexited]) (.inl hacked)
        rw [hrun] at hdata
        obtain ⟨data, hdata⟩ := Option.isSome_iff_exists.mp hdata
        rw [hdata] at h
        dsimp only at h
        rw [if_pos hclosed] at h
        exact .inl ⟨rfl, _, h⟩
    | false =>
        right
        split at h
        · cases h
          exact ⟨rfl, rfl, rfl⟩
        · rw [if_neg (by simp [hclosed])] at h
          cases h
          exact ⟨rfl, rfl, rfl⟩
  · cases hclosed : afu₁.opened with
    | true =>
        rw [if_pos hclosed] at h
        exact .inl ⟨rfl, _, h⟩
    | false =>
        rw [if_neg (by simp [hclosed])] at h
        cases h
        exact .inr ⟨rfl, rfl, rfl⟩

/-- A transfer that fails later on has lost no flag yet. -/
theorem memTransfer_flags {start afu₁ : LibAfu} {turns : List PslInput} {rs : List MemReq} {rest : List (List PslInput)}
    {out out' : List (List UInt8)} (hwait : start.wait .mem turns = some afu₁)
    (h : LibAfu.memTransfer rs rest afu₁ out = some (false, out', afu')) : afu₁.flags = start.flags := by
  cases rs with
  | nil => cases h
  | cons r rs =>
      have halive := memTransfer_alive h
      rw [← (wait_some hwait).1] at halive ⊢
      exact run_flags halive

theorem transfer_honest {requests : List MemReq} {turns : List (List PslInput)} {out out' : List (List UInt8)}
    (h : LibAfu.memTransfer requests turns afu out = some (ok, out', afu')) :
    ((ok = true → memAcked requests turns afu) ∧ (ok = false → afu'.flags = afu.flags)) ↔
      memServed requests turns afu := by
  induction requests generalizing turns afu out with
  | nil =>
      cases h
      exact iff_of_true ⟨fun _ => trivial, nofun⟩ trivial
  | cons r rs ih =>
      cases turns with
      | nil => cases h
      | cons turns rest =>
          cases hwait : (afu.askMem r).wait .mem turns with
          | none =>
              unfold LibAfu.memTransfer at h
              rw [hwait] at h
              cases h
          | some afu₁ =>
              have hopened := wait_opened hwait
              obtain ⟨hrun, hexited, -⟩ := wait_some hwait
              unfold memAcked memServed
              dsimp only
              rw [hrun]
              rcases memTransfer_piece hwait h with ⟨hopen, out₁, hrest⟩ | ⟨hclosed, rfl, rfl⟩
              · have hholds := hopened.mp hopen
                obtain ⟨code, hacked⟩ := (wait_acked hwait).mpr (holds_keeps .mem hholds)
                obtain ⟨hcode, -⟩ := run_acked (by rw [hrun, hexited]) hacked
                rw [hcode rfl] at hacked
                have hflags : ok = false → afu₁.flags = afu.flags := by
                  rintro rfl
                  have hsame : afu₁.flags = (afu.askMem r).flags := memTransfer_flags hwait hrest
                  exact hsame
                have hmem : memAcked rs rest afu₁ ↔
                    (.mem, 0) ∈ acksTaken ((afu.askMem r).setState .mem .request) turns ∧ memAcked rs rest afu₁ :=
                  (and_iff_right hacked).symm
                simp only [hholds, forall_const, not_true_eq_false, false_implies, and_true]
                rw [← hmem, ← ih hrest]
                refine and_congr_right (fun _ => forall_congr' (fun hok => ?_))
                rw [hflags hok]
              · have hlost : ¬((afu.askMem r).setState .mem .request).HoldsFor turns := by
                  rw [← hopened, hclosed]
                  nofun
                have hflags := wait_flags_closed hwait hclosed
                simp only [hlost, false_implies, not_false_eq_true, forall_const, true_and, reduceCtorEq]
                exact hflags

end Transfer

/-! ## The calls -/

section Calls

variable {afu afu' : LibAfu} {ok : Bool} {turns : List (List PslInput)}

/-- How a call can end. -/
inductive Outcome (afu : LibAfu) (turns : List (List PslInput)) : Option ApiRequest → Bool → LibAfu → Prop
  | refused : Outcome afu turns none false afu
  | plain {slot : Slot} {start last : LibAfu} (afu' : LibAfu) (hwait : start.wait slot turns.flatten = some last) :
      Outcome afu turns (some (.plain slot start)) true afu'
  | access {start afu' : LibAfu} (hwait : start.wait .mmio turns.flatten = some afu') (hflags : start.flags = afu.flags) :
      Outcome afu turns (some (.access start)) afu'.opened afu'
  | transfer {requests : List MemReq} {out : List (List UInt8)} {ok : Bool} {afu' : LibAfu}
      (hmem : LibAfu.memTransfer requests turns afu [] = some (ok, out, afu')) :
      Outcome afu turns (some (.transfer requests afu)) ok afu'

theorem ocxlAfuAttach_outcome {err : OcxlErr} (h : afu.ocxlAfuAttach turns.flatten = some (err, afu')) :
    Outcome afu turns (ApiCall.attach.request afu) (decide (err = .ok)) afu' := by
  unfold LibAfu.ocxlAfuAttach at h
  unfold ApiCall.request
  cases hopened : afu.opened with
  | false =>
      rw [hopened] at h
      cases h
      exact .refused
  | true =>
      cases hattached : afu.attached with
      | true =>
          rw [hopened, hattached] at h
          cases h
          exact .refused
      | false =>
          rw [hopened, hattached] at h
          obtain ⟨last, hwait, heq⟩ := Option.map_eq_some_iff.mp h
          cases heq
          exact .plain _ hwait

theorem ocxlMmioMap_outcome {global : Bool} {err : OcxlErr}
    (h : afu.ocxlMmioMap global turns.flatten = some (err, afu')) :
    Outcome afu turns ((ApiCall.mmioMap global).request afu) (decide (err = .ok)) afu' := by
  unfold LibAfu.ocxlMmioMap at h
  unfold ApiCall.request
  cases hopened : afu.opened with
  | false =>
      rw [hopened] at h
      cases h
      exact .refused
  | true =>
      rw [hopened] at h
      by_cases hfull : afu.mmioCount = afu.mmioMax
      · rw [if_neg (by decide), if_pos hfull] at h
        cases h
        simp only [hfull, decide_true, Bool.not_true, Bool.or_true, if_true]
        exact .refused
      · rw [if_neg (by decide), if_neg hfull] at h
        obtain ⟨last, hwait, heq⟩ := Option.map_eq_some_iff.mp h
        cases heq
        simp only [hfull, decide_false, Bool.not_true, Bool.or_false, Bool.false_eq_true, if_false]
        exact .plain _ hwait

theorem mmioCall_outcome {global rnw dw : Bool} {offset value : UInt64} {err : OcxlErr} {out : Option UInt64}
    (h : afu.mmioCall global rnw dw offset value turns.flatten = some (err, out, afu')) :
    Outcome afu turns (afu.mmioRequest global rnw dw offset value) (decide (err = .ok)) afu' := by
  unfold LibAfu.mmioCall at h
  unfold LibAfu.mmioRequest
  cases hcheck : OcxlMmio.check ⟨some ⟨afu.mapped, afu.globalMapped, afu.opened⟩, global⟩ offset
      (if dw then 0x7 else 0x3) with
  | error err' =>
      rw [hcheck] at h
      cases h
      have herr : err ≠ .ok := by
        rintro rfl
        exact OcxlMmio.check_error hcheck
      rw [decide_eq_false herr]
      exact .refused
  | ok checked =>
      rw [hcheck] at h
      obtain ⟨last, hwait, heq⟩ := Option.map_eq_some_iff.mp h
      cases heq
      have hok : decide ((if afu'.opened then OcxlErr.ok else .noDev) = .ok) = afu'.opened := by
        cases afu'.opened <;> rfl
      rw [hok]
      exact .access hwait rfl

theorem lpcCall_outcome {call : LpcCall} {out : List (List UInt8)} (h : afu.lpcCall call turns = some (ok, out, afu')) :
    Outcome afu turns (afu.lpcRequest call) ok afu' := by
  unfold LibAfu.lpcCall at h
  unfold LibAfu.lpcRequest
  cases hmapped : afu.lpcMapped with
  | false =>
      rw [hmapped] at h
      cases h
      exact .refused
  | true =>
      rw [hmapped] at h
      cases hrequests : call.requests with
      | none =>
          rw [hrequests] at h
          cases h
          exact .refused
      | some requests =>
          rw [hrequests] at h
          exact .transfer h

theorem exec_outcome {call : ApiCall} (h : call.exec afu turns = some (ok, afu')) :
    Outcome afu turns (call.request afu) ok afu' := by
  cases call with
  | attach =>
      obtain ⟨⟨err, last⟩, hcall, heq⟩ := Option.map_eq_some_iff.mp h
      cases heq
      exact ocxlAfuAttach_outcome hcall
  | mmioMap global =>
      obtain ⟨⟨err, last⟩, hcall, heq⟩ := Option.map_eq_some_iff.mp h
      cases heq
      exact ocxlMmioMap_outcome hcall
  | mmioWrite64 global offset value =>
      obtain ⟨⟨err, last⟩, hcall, heq⟩ := Option.map_eq_some_iff.mp h
      obtain ⟨⟨err', out, last'⟩, hcall', heq'⟩ := Option.map_eq_some_iff.mp hcall
      cases heq
      cases heq'
      exact mmioCall_outcome hcall'
  | mmioRead64 global offset =>
      obtain ⟨⟨err, out, last⟩, hcall, heq⟩ := Option.map_eq_some_iff.mp h
      cases heq
      exact mmioCall_outcome hcall
  | mmioWrite32 global offset value =>
      obtain ⟨⟨err, last⟩, hcall, heq⟩ := Option.map_eq_some_iff.mp h
      obtain ⟨⟨err', out, last'⟩, hcall', heq'⟩ := Option.map_eq_some_iff.mp hcall
      cases heq
      cases heq'
      exact mmioCall_outcome hcall'
  | mmioRead32 global offset =>
      obtain ⟨⟨err, out, last⟩, hcall, heq⟩ := Option.map_eq_some_iff.mp h
      obtain ⟨⟨err', out', last'⟩, hcall', heq'⟩ := Option.map_eq_some_iff.mp hcall
      cases heq
      cases heq'
      exact mmioCall_outcome hcall'
  | lpcRead offset size =>
      obtain ⟨⟨ok', out, last⟩, hcall, heq⟩ := Option.map_eq_some_iff.mp h
      cases heq
      exact lpcCall_outcome hcall
  | lpcWrite offset val size =>
      obtain ⟨⟨ok', out, last⟩, hcall, heq⟩ := Option.map_eq_some_iff.mp h
      cases heq
      exact lpcCall_outcome hcall

/-- A call that returns reports truly just when its request is served. -/
theorem honest_iff_served {call : ApiCall} (h : call.exec afu turns = some (ok, afu')) :
    call.Honest afu turns ok afu' ↔ ∀ q, call.request afu = some q → q.Served turns := by
  have hout := exec_outcome h
  generalize hq : call.request afu = q at hout
  have hhonest : call.Honest afu turns ok afu' ↔
      (ok = true → ∃ q', q = some q' ∧ q'.Acknowledged turns) ∧ (ok = false → afu'.flags = afu.flags) := by
    rw [← hq]
    exact ⟨fun h => ⟨h.success, h.failure⟩, fun h => ⟨h.1, h.2⟩⟩
  rw [hhonest]
  cases hout with
  | refused =>
      refine iff_of_true ⟨Bool.noConfusion, fun _ => rfl⟩ (fun q' hnone => ?_)
      cases hnone
  | plain _ hwait =>
      simpa [ApiRequest.Acknowledged, ApiRequest.Served] using wait_acked hwait
  | access hwait hflags =>
      rw [← hflags]
      simpa [ApiRequest.Acknowledged, ApiRequest.Served] using access_honest hwait
  | transfer hmem =>
      simpa [ApiRequest.Acknowledged, ApiRequest.Served] using transfer_honest hmem

/-- A device that is open and attached, with both maps. -/
def sampleLibAfu (attached : Bool) : LibAfu where
  opened := true
  attached := attached
  mapped := true
  globalMapped := true
  lpcMapped := true
  state := fun _ => .idle
  mmioType := 0
  mmioAddr := 0
  mmioData := 0
  mmioCount := 0
  mmioMax := 2
  mem := ⟨.read, 0, 0, [], 0⟩
  memData := none
  running := true
  exited := false

end Calls

end Ocse
