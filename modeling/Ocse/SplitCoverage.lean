import Ocse.Completion
import Mathlib

/-!
# Coverage of split responses

A full read or write that is longer than the host's line is answered in parts, each with its place `dp`.
`handle_response` moves `dp` on before it knows whether the part can be sent and does not take it back,
so with 64-byte lines every refused send of a later part moves the rest of the response.
-/

namespace Ocse

/-! ## Ranges -/

/-- The bytes of the command that a response answers. -/
def Response.range (r : Response) : Set ℕ :=
  Set.Ico (64 * r.dp.toNat) (64 * r.dp.toNat + dlToSize r.dl)

structure Covers (size : ℕ) (rs : List Response) : Prop where
  inside : ∀ r ∈ rs, r.range ⊆ Set.Ico 0 size
  disjoint : rs.Pairwise (fun r r' => Disjoint r.range r'.range)
  union : ∀ x < size, ∃ r ∈ rs, x ∈ r.range

/-- Responses in order, one after the other, with the same length. -/
theorem covers_of_lines {cl : ℕ} (hcl : 0 < cl) (rs : List Response)
    (h : ∀ i r, rs[i]? = some r → r.range = Set.Ico (cl * i) (cl * (i + 1))) :
    Covers (cl * rs.length) rs := by
  constructor
  · intro r hr x hx
    obtain ⟨i, hi⟩ := List.mem_iff_getElem?.mp hr
    have hlt : i < rs.length := (List.getElem?_eq_some_iff.mp hi).1
    rw [h i r hi, Set.mem_Ico] at hx
    have hle : cl * (i + 1) ≤ cl * rs.length := Nat.mul_le_mul_left cl hlt
    exact ⟨Nat.zero_le x, by omega⟩
  · rw [List.pairwise_iff_getElem]
    intro i j hi hj hij
    rw [h i _ (List.getElem?_eq_getElem hi), h j _ (List.getElem?_eq_getElem hj),
      Set.disjoint_left]
    intro x hx hx'
    have hle : cl * (i + 1) ≤ cl * j := Nat.mul_le_mul_left cl hij
    rw [Set.mem_Ico] at hx hx'
    omega
  · intro x hx
    have hi : x / cl < rs.length := Nat.div_lt_of_lt_mul hx
    refine ⟨_, List.getElem_mem hi, ?_⟩
    rw [h _ _ (List.getElem?_eq_getElem hi), Set.mem_Ico]
    have hdiv := Nat.div_add_mod x cl
    have hmod := Nat.mod_lt x hcl
    rw [Nat.mul_add, Nat.mul_one]
    omega

/-! ## Notes -/

def Note.isRefused : Note → Bool
  | .refused => true
  | _ => false

/-- How often a send was refused after the first response. -/
def lateRefusals : List Note → ℕ
  | [] => 0
  | .response _ :: ns => ns.countP Note.isRefused
  | _ :: ns => lateRefusals ns

theorem lateRefusals_append (ns ms : List Note) :
    lateRefusals (ns ++ ms) =
      if responses ns = [] then lateRefusals ms else lateRefusals ns + ms.countP Note.isRefused := by
  induction ns with
  | nil => rfl
  | cons n ns ih =>
    cases n with
    | response r => simp [lateRefusals, responses, Note.toResponse]
    | _ => simpa [lateRefusals, responses, Note.toResponse] using ih

/-- The command has been answered with no failure. -/
def Clean (ns : List Note) : Prop := ∀ r ∈ responses ns, r.code = 0

/-! ## The parts that have been sent -/

/-- A full read or write of a size that `_add_read` and `_add_write` accept. -/
def CmdEvent.IsFull (e : CmdEvent) : Prop :=
  (isFullRead e.command || isFullWrite e.command) = true ∧ (e.size = 64 ∨ e.size = 128 ∨ e.size = 256)

/-- The places of the parts are right: lines of other sizes, or no refused send of a later part. -/
def PlacesKept (cl : ℕ) (ns : List Note) : Prop := cl ≠ 64 ∨ lateRefusals ns = 0

inductive Parts (cl : ℕ) (e₀ e : CmdEvent) (ns : List Note) : Prop
  | spoiled (r : Response) (hr : r ∈ responses ns) (hcode : r.code ≠ 0)
  | failing (htype : e.type = .failed) (hresp : e.resp ≠ 0) (hstate : e.state ≠ .pendingSent)
  | unsent (htype : e.type ≠ .failed) (hstate : ¬ (e.state = .xlatePending ∨ e.state = .intPending ∨
      e.state = .pendingSent)) (hns : responses ns = []) (hsent : e.respBytesSent = 0)
      (hdp : e.respDp = 0) (hdl : ¬ e₀.Splits cl → e.respDl = sizeToDl e₀.size)
  | sent (htype : e.type ≠ .failed) (hsplit : e₀.Splits cl) (hstate : e.state = .done)
      (hns : responses ns ≠ []) (hsent : (responses ns).length * cl = e.respBytesSent)
      (hlt : e.respBytesSent < e₀.size)
      (hdp : cl = 64 → e.respDp = UInt8.ofNat ((responses ns).length - 1 + lateRefusals ns))
      (hplaces : PlacesKept cl ns → ∀ i r, (responses ns)[i]? = some r →
        r.range = Set.Ico (cl * i) (cl * (i + 1)))

section Parts

variable {M : Limits} {parms : Parms} {e₀ e e' : CmdEvent} {ns ms : List Note}

theorem CmdEvent.IsFull.type (hf : e.Fresh) (h : e.IsFull) : e.type = .read ∨ e.type = .write := by
  refine (hf.full h.1 ?_).1
  intro htype
  have hshape := hf.shape
  simp only [CmdEvent.Shape, htype] at hshape
  have hsize := h.2
  omega

theorem CmdEvent.Fresh.parts (hf : e.Fresh) (h : e.IsFull) (cl : ℕ) : Parts cl e e [] := by
  have htype := h.type hf
  have hne : e.type ≠ .failed := by rcases htype with h | h <;> simp [h]
  refine .unsent hne ?_ rfl hf.bytesSent hf.dp (fun _ => ?_)
  · rcases hf.start with ⟨h, -⟩ | ⟨-, -, ⟨-, hs⟩ | ⟨-, hs⟩ | ⟨-, hs, -⟩ | ⟨-, -, -, hs, -⟩⟩
    · exact absurd h hne
    all_goals simp [hs]
  · rw [hf.dl]
    rcases h.2 with h | h | h <;> rw [h] <;> rfl

theorem Parts.spoiled_append (hr : ∃ r ∈ responses ns, r.code ≠ 0) (ms : List Note) {cl : ℕ} :
    Parts cl e₀ e' (ns ++ ms) := by
  obtain ⟨r, hr, hcode⟩ := hr
  refine .spoiled r ?_ hcode
  rw [responses_append]
  exact List.mem_append_left _ hr

theorem Parts.rewrite (h : Parts parms.hostClSize e₀ e ns) (hr : Rewrite e e') :
    Parts parms.hostClSize e₀ e' ns := by
  cases h with
  | spoiled r hr' hcode => exact .spoiled r hr' hcode
  | failing htype hresp hstate =>
    -- what has failed is rewritten only while its posted command is owed
    cases hr with
    | inject code hor hcode =>
      refine .failing rfl ?_ (by simp [CmdEvent.fail])
      change code ≠ 0
      rcases hcode with rfl | rfl | rfl <;> decide
    | xlatePending hready => exact .failing rfl (by simp [CmdEvent.fail]) (by simp [CmdEvent.fail])
    | intPending hraised ht => exact .failing rfl (by simp [CmdEvent.fail]) (by simp [CmdEvent.fail])
    | readDone ht hs => simp [htype] at ht
    | beat bus ht hs => simp [htype] at ht
    | redraw resp hs => exact absurd hs hstate
  | unsent htype hstate hns hsent hdp hdl =>
    cases hr with
    | inject code hor hcode =>
      refine .failing rfl ?_ (by simp [CmdEvent.fail])
      change code ≠ 0
      rcases hcode with rfl | rfl | rfl <;> decide
    | xlatePending hready => exact .failing rfl (by simp [CmdEvent.fail]) (by simp [CmdEvent.fail])
    | intPending hraised ht => exact .failing rfl (by simp [CmdEvent.fail]) (by simp [CmdEvent.fail])
    | readDone ht hs => exact .unsent htype (by simp) hns hsent hdp hdl
    | beat bus ht hs =>
      unfold CmdEvent.nextBeat
      split_ifs
      · exact .unsent htype (by simp [hs]) hns hsent hdp hdl
      · exact .unsent htype (by simp) hns hsent hdp hdl
    | redraw resp hs => exact absurd (.inr (.inr hs)) hstate
  | sent htype hsplit hstate => rcases hr.state with h | h | h | h <;> simp [h] at hstate

/-- The place of the next part, and where it belongs. -/
theorem nextPart_range (hd : Descends e₀ e) (hsplit : e₀.Splits parms.hostClSize) {k : ℕ} (hpos : 0 < k)
    (hsent : k * parms.hostClSize = e.respBytesSent) (hlt : e.respBytesSent < e₀.size)
    (hdp : parms.hostClSize = 64 → e.respDp = UInt8.ofNat (k - 1)) :
    (e.nextPart parms.hostClSize).response.range =
      Set.Ico (parms.hostClSize * k) (parms.hostClSize * (k + 1)) := by
  obtain ⟨-, hsizes⟩ := hd.fresh.splits hsplit
  have hne : e.respBytesSent ≠ 0 := by
    rw [← hsent]
    have hcl := parms.hostClSize_supported
    exact (Nat.mul_pos hpos (by omega)).ne'
  unfold Response.range CmdEvent.response CmdEvent.nextPart
  simp only [hne, ne_eq, not_false_eq_true, if_true]
  rcases hsizes with ⟨hcl, hsize⟩ | ⟨hcl, hsize⟩ | ⟨hcl, hsize⟩
  · have hk : k = 1 := by rw [hcl] at hsent; omega
    rw [hdp hcl, hcl, hk]
    rfl
  · have hk : k = 1 ∨ k = 2 ∨ k = 3 := by rw [hcl] at hsent; omega
    rw [hdp hcl, hcl]
    rcases hk with rfl | rfl | rfl <;> rfl
  · have hk : k = 1 := by rw [hcl] at hsent; omega
    rw [hcl, hk]
    rfl

/-- An event all of whose parts so far are in their places, about to send the next. -/
structure OnCourse (cl : ℕ) (e₀ e : CmdEvent) (ns : List Note) : Prop where
  type : e.type ≠ .failed
  splits : e₀.Splits cl
  sent : (responses ns).length * cl = e.respBytesSent
  lt : e.respBytesSent < e₀.size
  first : responses ns = [] → e.respDp = 0
  dp : responses ns ≠ [] → cl = 64 → e.respDp = UInt8.ofNat ((responses ns).length - 1 + lateRefusals ns)
  places : PlacesKept cl ns → ∀ i r, (responses ns)[i]? = some r → r.range = Set.Ico (cl * i) (cl * (i + 1))

theorem OnCourse.dp_next (h : OnCourse parms.hostClSize e₀ e ns) (hcl : parms.hostClSize = 64) :
    (e.nextPart parms.hostClSize).respDp = UInt8.ofNat ((responses ns).length +
      lateRefusals (ns ++ [.response (e.nextPart parms.hostClSize).response])) := by
  rw [lateRefusals_append]
  by_cases hns : responses ns = []
  · have hzero : e.respBytesSent = 0 := by rw [← h.sent, hns]; simp
    simp [CmdEvent.nextPart, hzero, h.first hns, hns, lateRefusals]
  · have hpos : 0 < (responses ns).length := List.length_pos_iff.mpr hns
    have hne : e.respBytesSent ≠ 0 := by
      have hsent := h.sent
      rw [hcl] at hsent
      omega
    have hlen : (responses ns).length + lateRefusals ns =
        (responses ns).length - 1 + lateRefusals ns + 1 := by omega
    have hcount : [Note.response (e.nextPart parms.hostClSize).response].countP Note.isRefused = 0 := rfl
    rw [if_neg hns, hcount, Nat.add_zero, hlen, UInt8.ofNat_add, ← h.dp hns hcl]
    simp [CmdEvent.nextPart, hne, hcl]

theorem OnCourse.places_next (hd : Descends e₀ e) (h : OnCourse parms.hostClSize e₀ e ns)
    (hplaces : PlacesKept parms.hostClSize (ns ++ [.response (e.nextPart parms.hostClSize).response]))
    (i : ℕ) (r : Response)
    (hr : (responses (ns ++ [.response (e.nextPart parms.hostClSize).response]))[i]? = some r) :
    r.range = Set.Ico (parms.hostClSize * i) (parms.hostClSize * (i + 1)) := by
  have hresponses : responses (ns ++ [.response (e.nextPart parms.hostClSize).response]) =
      responses ns ++ [(e.nextPart parms.hostClSize).response] := responses_append _ _
  rw [hresponses] at hr
  have hbefore : PlacesKept parms.hostClSize ns ∨ responses ns = [] := by
    by_cases hns : responses ns = []
    · exact .inr hns
    · refine .inl (hplaces.imp_right (fun hlate => ?_))
      rw [lateRefusals_append, if_neg hns] at hlate
      omega
  by_cases hi : i < (responses ns).length
  · rw [List.getElem?_append_left hi] at hr
    rcases hbefore with hkept | hns
    · exact h.places hkept i r hr
    · simp [hns] at hi
  · rw [List.getElem?_append_right (Nat.le_of_not_lt hi)] at hr
    obtain ⟨hzero, rfl⟩ : i - (responses ns).length = 0 ∧ (e.nextPart parms.hostClSize).response = r := by
      cases hdiff : i - (responses ns).length with
      | zero => simpa [hdiff] using hr
      | succ n => simp [hdiff] at hr
    have hlen : i = (responses ns).length := by omega
    subst hlen
    by_cases hns : responses ns = []
    · -- the first part stands at the start
      have hbytes : e.respBytesSent = 0 := by rw [← h.sent, hns]; simp
      have hback : dlToSize (sizeToDl parms.hostClSize) = parms.hostClSize := by
        rcases parms.hostClSize_supported with h | h | h <;> rw [h] <;> rfl
      simp [Response.range, CmdEvent.response, CmdEvent.nextPart, hbytes, h.first hns, hns, hback]
    · refine nextPart_range hd h.splits (List.length_pos_iff.mpr hns) h.sent h.lt (fun hcl => ?_)
      have hlate : lateRefusals ns = 0 := by
        rcases hbefore with hne | hlate
        · exact hne.resolve_left (fun h => h hcl)
        · exact absurd hlate hns
      rw [h.dp hns hcl, hlate, Nat.add_zero]

/-- Whatever can send a part is on course. -/
theorem Parts.onCourse (h : Parts parms.hostClSize e₀ e ns) (htype : e.type ≠ .failed)
    (hsplit : e₀.Splits parms.hostClSize) :
    (∃ r ∈ responses ns, r.code ≠ 0) ∨ OnCourse parms.hostClSize e₀ e ns := by
  cases h with
  | spoiled r hr hcode => exact .inl ⟨r, hr, hcode⟩
  | failing hfailed => exact absurd hfailed htype
  | unsent _ _ hns hsent hdp _ =>
    refine .inr ⟨htype, hsplit, by simp [hns, hsent], ?_, fun _ => hdp, fun h => absurd hns h, ?_⟩
    · rw [hsent]
      exact Nat.zero_lt_of_lt hsplit.2
    · intro _ i r hr
      simp [hns] at hr
  | sent _ _ _ hns hsent hlt hdp hplaces =>
    exact .inr ⟨htype, hsplit, hsent, hlt, fun h => absurd h hns, fun _ => hdp, hplaces⟩

theorem Parts.part (hd : Descends e₀ e) (h : Parts parms.hostClSize e₀ e ns) (hstate : e.state = .done)
    (hmore : 0 < (e.prepare parms.hostClSize).respBytesSent ∧
      (e.prepare parms.hostClSize).respBytesSent ≠ e.size) :
    Parts parms.hostClSize e₀ (e.prepare parms.hostClSize)
      (ns ++ [.response (e.prepare parms.hostClSize).response]) := by
  have hresponses : responses (ns ++ [.response (e.prepare parms.hostClSize).response]) =
      responses ns ++ [(e.prepare parms.hostClSize).response] := responses_append _ _
  by_cases htype : e.type = .failed
  · cases h with
    | spoiled r hr hcode => exact spoiled_append ⟨r, hr, hcode⟩ _
    | failing _ hresp _ =>
      rw [CmdEvent.prepare_of_failed htype] at hresponses ⊢
      refine .spoiled e.response ?_ ((response_code_of_failed htype).trans_ne hresp)
      rw [hresponses]
      simp
    | unsent hne => exact absurd htype hne
    | sent hne => exact absurd htype hne
  · by_cases hsplit : e₀.Splits parms.hostClSize
    · rcases h.onCourse htype hsplit with hspoiled | hcourse
      · exact spoiled_append hspoiled _
      · obtain ⟨hnext, hle⟩ := hd.nextPart htype hsplit hcourse.sent hcourse.lt
        have hsize : e.size = e₀.size := (hd.kept htype).2 (hd.fresh.splits hsplit).1
        rw [CmdEvent.prepare_of_splits htype ((hd.splits htype).mpr hsplit)] at hmore hresponses ⊢
        refine .sent htype hsplit hstate (by simp [hresponses]) ?_ ?_ ?_ (hcourse.places_next hd)
        · rw [hresponses, List.length_append, List.length_singleton]
          exact hnext
        · omega
        · intro hcl
          rw [hresponses, List.length_append, List.length_singleton, Nat.add_sub_cancel]
          exact hcourse.dp_next hcl
    · -- without a split nothing is ever left to be sent
      rw [CmdEvent.prepare_of_not_splits (fun hs => hsplit ((hd.splits htype).mp hs))] at hmore
      cases h with
      | spoiled r hr hcode => exact spoiled_append ⟨r, hr, hcode⟩ _
      | failing hfailed => exact absurd hfailed htype
      | unsent _ _ _ hsent => omega
      | sent _ hs => exact absurd hs hsplit

theorem Parts.refuse (hd : Descends e₀ e) (h : Parts parms.hostClSize e₀ e ns) :
    Parts parms.hostClSize e₀ ((e.prepare parms.hostClSize).backUp parms.hostClSize) (ns ++ [.refused]) := by
  have hresponses : responses (ns ++ [.refused]) = responses ns :=
    (responses_append _ _).trans (List.append_nil _)
  rw [CmdEvent.backUp_eq]
  cases h with
  | spoiled r hr hcode => exact spoiled_append ⟨r, hr, hcode⟩ _
  | failing htype hzero hstate =>
    exact .failing (by simpa using htype) (by simpa using hzero) (by simpa using hstate)
  | unsent htype hstate hns hsent hdp hdl =>
    by_cases hsplit : e₀.Splits parms.hostClSize
    · rw [CmdEvent.prepare_of_splits htype ((hd.splits htype).mpr hsplit),
        backUp_nextPart e (by omega)]
      refine .unsent htype hstate (hresponses.trans hns) hsent ?_ (fun hn => absurd hsplit hn)
      simpa [CmdEvent.nextPart, hsent] using hdp
    · rw [CmdEvent.prepare_of_not_splits (fun hs => hsplit ((hd.splits htype).mp hs))]
      have hback : (e.backUp parms.hostClSize).respBytesSent = 0 := by simp [CmdEvent.backUp, hsent]
      exact .unsent htype hstate (hresponses.trans hns) hback hdp hdl
  | sent htype hsplit hstate hns hsent hlt hdp hplaces =>
    have hsizes := (hd.fresh.splits hsplit).2
    have hlate : lateRefusals (ns ++ [.refused]) = lateRefusals ns + 1 := by
      rw [lateRefusals_append, if_neg hns]
      rfl
    rw [CmdEvent.prepare_of_splits htype ((hd.splits htype).mpr hsplit), backUp_nextPart e (by omega)]
    refine .sent htype hsplit hstate (by rwa [hresponses]) (by rwa [hresponses]) hlt ?_ ?_
    · intro hcl
      have hne : e.respBytesSent ≠ 0 := by
        have hpos : 0 < (responses ns).length := List.length_pos_iff.mpr hns
        rw [hcl] at hsent
        omega
      rw [hresponses, hlate, ← Nat.add_assoc, UInt8.ofNat_add, ← hdp hcl]
      simp [CmdEvent.nextPart, hne, hcl]
    · intro hkept
      rw [hresponses]
      apply hplaces
      refine hkept.imp_right (fun hzero => ?_)
      omega

theorem Parts.move (hd : Descends e₀ e) (h : Parts parms.hostClSize e₀ e ns)
    (hm : Move M parms.hostClSize e ms e') : Parts parms.hostClSize e₀ e' (ns ++ ms) := by
  by_cases hspoiled : ∃ r ∈ responses ns, r.code ≠ 0
  · exact spoiled_append hspoiled ms
  have hquiet : ∀ n : Note, n.toResponse = none → responses (ns ++ [n]) = responses ns := by
    intro n hn
    rw [responses_append]
    simp [responses, hn]
  cases hm with
  | stay => simpa using h
  | rewrite _ hr => simpa using h.rewrite hr
  | ask hready =>
    rw [List.append_nil]
    have hmem := hready.isMemory
    cases h with
    | spoiled r hr hcode => exact absurd ⟨r, hr, hcode⟩ hspoiled
    | failing htype => simp [htype, CmdType.isMemory] at hmem
    | unsent htype hstate hns hsent hdp hdl =>
      refine .unsent htype ?_ hns hsent hdp hdl
      change ¬ (e.askedState = _ ∨ e.askedState = _ ∨ e.askedState = _)
      unfold CmdEvent.askedState
      split <;> simp
    | sent htype hsplit hstate => rcases hready.state with h | h <;> simp [h] at hstate
  | raise hraised =>
    rw [List.append_nil]
    have hint := hraised.1
    cases h with
    | spoiled r hr hcode => exact absurd ⟨r, hr, hcode⟩ hspoiled
    | failing htype => simp [htype, CmdType.isInterrupt] at hint
    | unsent htype hstate hns hsent hdp hdl => exact .unsent htype (by simp) hns hsent hdp hdl
    | sent htype hsplit hstate => rcases hraised.2 with h | h <;> simp [h] at hstate
  | pending hstate =>
    cases h with
    | spoiled r hr hcode => exact absurd ⟨r, hr, hcode⟩ hspoiled
    | failing htype hresp _ =>
      rw [CmdEvent.prepare_of_failed htype]
      refine .spoiled e.response ?_ ((response_code_of_failed htype).trans_ne hresp)
      rw [responses_append]
      simp [responses, Note.toResponse]
    | unsent _ hne => exact absurd (hstate.imp_right .inl) hne
    | sent _ _ hdone => rcases hstate with h | h <;> simp [h] at hdone
  | part hstate hmore => exact h.part hd hstate hmore
  | refuse hresp => exact h.refuse hd
  | answer ans _ hawait hans hlimit =>
    have hmem := hawait.1
    cases h with
    | spoiled r hr hcode => exact absurd ⟨r, hr, hcode⟩ hspoiled
    | failing htype => simp [htype, CmdType.isMemory] at hmem
    | unsent htype hstate hns hsent hdp hdl =>
      cases hans with
      | success data size hsize =>
        exact .unsent htype (by simp) ((hquiet _ rfl).trans hns) hsent hdp hdl
      | failure ans size hne => exact .failing rfl (by simp) (by simp)
    | sent htype hsplit hstate => rcases hawait.state with h | h | h <;> simp [h] at hstate
  | terminate hopen hlimit =>
    cases h with
    | spoiled r hr hcode => exact absurd ⟨r, hr, hcode⟩ hspoiled
    | failing htype hresp _ =>
      refine .failing htype ?_ (by simp [CmdEvent.terminate])
      simpa [CmdEvent.terminate, htype] using hresp
    | unsent htype hstate hns hsent hdp hdl =>
      exact .unsent htype (by simp [CmdEvent.terminate]) ((hquiet _ rfl).trans hns) hsent hdp hdl
    | sent htype hsplit hstate => exact absurd hstate hopen

/-- The places of the parts are right in these cases only, as long as `dp` does not wrap around. -/
def Placed (cl : ℕ) (e₀ : CmdEvent) (ns : List Note) : Prop :=
  cl ≠ 64 ∨ e₀.size = 64 ∨ lateRefusals ns = 0

structure Coverage (cl : ℕ) (e₀ : CmdEvent) (ns : List Note) : Prop where
  covers : Placed cl e₀ ns → Covers e₀.size (responses ns)
  placed : lateRefusals ns < 253 → Covers e₀.size (responses ns) → Placed cl e₀ ns

/-- A response that is not split covers its command. -/
theorem coverage_whole (hfull : e₀.IsFull) (hsplit : ¬ e₀.Splits parms.hostClSize) (hns : responses ns = [])
    {r : Response} (hdp : r.dp = 0) (hdl : r.dl = sizeToDl e₀.size) :
    Coverage parms.hostClSize e₀ (ns ++ [.response r]) := by
  have hresponses : responses (ns ++ [.response r]) = [r] := by
    rw [responses_append, hns]
    rfl
  have hback : dlToSize (sizeToDl e₀.size) = e₀.size := by
    rcases hfull.2 with h | h | h <;> rw [h] <;> rfl
  have hpos : 0 < e₀.size := by
    have hsize := hfull.2
    omega
  have hcovers : Covers (e₀.size * [r].length) [r] := by
    refine covers_of_lines hpos [r] (fun i x hx => ?_)
    obtain ⟨rfl, rfl⟩ : i = 0 ∧ r = x := by
      cases i with
      | zero => simpa using hx
      | succ n => simp at hx
    simp [Response.range, hdp, hdl, hback]
  refine ⟨fun _ => ?_, fun _ _ => ?_⟩
  · rw [hresponses]
    simpa using hcovers
  · have hle : e₀.size ≤ parms.hostClSize := Nat.le_of_not_lt (fun hlt => hsplit ⟨hfull.1, hlt⟩)
    have hsize := hfull.2
    by_cases hcl : parms.hostClSize = 64
    · exact .inr (.inl (by omega))
    · exact .inl hcl

/-- The last part of a split response. -/
theorem coverage_parts (hd : Descends e₀ e) (h : OnCourse parms.hostClSize e₀ e ns)
    (hall : ((responses ns).length + 1) * parms.hostClSize = e₀.size) :
    Coverage parms.hostClSize e₀ (ns ++ [.response (e.nextPart parms.hostClSize).response]) := by
  have hresponses : responses (ns ++ [.response (e.nextPart parms.hostClSize).response]) =
      responses ns ++ [(e.nextPart parms.hostClSize).response] := responses_append _ _
  have hsizes := (hd.fresh.splits h.splits).2
  constructor
  · intro hplaced
    have hkept : PlacesKept parms.hostClSize
        (ns ++ [.response (e.nextPart parms.hostClSize).response]) := by
      rcases hplaced with hcl | hsize | hlate
      · exact .inl hcl
      · omega
      · exact .inr hlate
    have hcovers := covers_of_lines (by omega) _ (h.places_next hd hkept)
    rwa [hresponses, List.length_append, List.length_singleton, Nat.mul_comm, hall,
      ← hresponses] at hcovers
  · intro hfew hcovers
    by_cases hcl : parms.hostClSize = 64
    · -- the last place is the number of parts sent before it and of the refusals among them
      refine .inr (.inr ?_)
      have hdp := h.dp_next hcl
      have hlen : (responses ns).length ≤ 3 := by
        rw [hcl] at hall
        omega
      have hplace : ((e.nextPart parms.hostClSize).response.dp).toNat = (responses ns).length +
          lateRefusals (ns ++ [.response (e.nextPart parms.hostClSize).response]) := by
        change (e.nextPart parms.hostClSize).respDp.toNat = _
        rw [hdp]
        exact UInt8.toNat_ofNat_of_lt' (by change _ < 256; omega)
      have hmem : 64 * ((e.nextPart parms.hostClSize).response.dp).toNat ∈
          (e.nextPart parms.hostClSize).response.range := by
        have hdl : dlToSize (e.nextPart parms.hostClSize).response.dl = 64 := by
          change dlToSize (sizeToDl parms.hostClSize) = 64
          rw [hcl]
          rfl
        rw [Response.range, Set.mem_Ico, hdl]
        omega
      have hinside := hcovers.inside _ (by rw [hresponses]; simp) hmem
      rw [hplace, Set.mem_Ico] at hinside
      rw [hcl] at hall
      omega
    · exact .inl hcl

theorem Parts.last (hd : Descends e₀ e) (hfull : e₀.IsFull) (h : Parts parms.hostClSize e₀ e ns)
    (hl : Last parms.hostClSize e ms) (hclean : Clean (ns ++ ms)) :
    Coverage parms.hostClSize e₀ (ns ++ ms) := by
  have hspoiled : ¬ ∃ r ∈ responses ns, r.code ≠ 0 := by
    rintro ⟨r, hr, hcode⟩
    refine hcode (hclean r ?_)
    rw [responses_append]
    exact List.mem_append_left _ hr
  cases hl with
  | finish hstate hlast =>
    have hcode : (e.prepare parms.hostClSize).response.code = 0 := by
      apply hclean
      rw [responses_append]
      simp [responses, Note.toResponse]
    have htype : e.type ≠ .failed := by
      intro htype
      rw [CmdEvent.prepare_of_failed htype, response_code_of_failed htype] at hcode
      cases h with
      | spoiled r hr hne => exact hspoiled ⟨r, hr, hne⟩
      | failing _ hresp => exact hresp hcode
      | unsent hne => exact hne htype
      | sent hne => exact hne htype
    by_cases hsplit : e₀.Splits parms.hostClSize
    · have hcourse := (h.onCourse htype hsplit).resolve_left hspoiled
      obtain ⟨hnext, hle⟩ := hd.nextPart htype hsplit hcourse.sent hcourse.lt
      have hsizes := (hd.fresh.splits hsplit).2
      have hsize : e.size = e₀.size := (hd.kept htype).2 (hd.fresh.splits hsplit).1
      rw [CmdEvent.prepare_of_splits htype ((hd.splits htype).mpr hsplit)] at hlast ⊢
      have hall : ((responses ns).length + 1) * parms.hostClSize = e₀.size := by
        have hpos : 0 < ((responses ns).length + 1) * parms.hostClSize :=
          Nat.mul_pos (Nat.succ_pos _) (by omega)
        omega
      exact coverage_parts hd hcourse hall
    · rw [CmdEvent.prepare_of_not_splits (fun hs => hsplit ((hd.splits htype).mp hs))]
      cases h with
      | spoiled r hr hne => exact absurd ⟨r, hr, hne⟩ hspoiled
      | failing hfailed => exact absurd hfailed htype
      | unsent _ _ hns _ hdp hdl => exact coverage_whole hfull hsplit hns hdp (hdl hsplit)
      | sent _ hs => exact absurd hs hsplit
  | post hstate resp =>
    cases h with
    | spoiled r hr hne => exact absurd ⟨r, hr, hne⟩ hspoiled
    | failing _ _ hne => exact absurd hstate hne
    | unsent _ hne => exact absurd (.inr (.inr hstate)) hne
    | sent _ _ hdone => simp [hstate] at hdone

end Parts

/-! ## Whole runs -/

/-- In every run, whatever is injected, refused or disconnected: a full read or write that was answered
without failure is covered when its line size and its refused sends leave the places alone; and with
fewer than 253 refused sends in between, only then. -/
theorem splitCoverage_iff (parms : Parms) (maxClients : ℕ) (afuEvent : AfuEvent) (as : List Action)
    (t : UInt16) :
    ∃ o, Sessions (fun e ns => e.IsFull → Clean ns → Coverage parms.hostClSize e ns)
      (history t ((Ocl.init parms maxClients afuEvent).run as).trace) o := by
  have hM := along_within_any (Ocl.init parms maxClients afuEvent) as
  have htracked := run_tracked (fun e ns => e.IsFull → Clean ns → Coverage parms.hostClSize e ns)
    (fun e₀ e ns => Descends e₀ e ∧ (e₀.IsFull → Parts parms.hostClSize e₀ e ns))
    (fun e hfresh => ⟨hfresh.descends, fun hfull => hfresh.parts hfull _⟩)
    (fun e₀ e ns ms e' h hm => ⟨h.1.move hm, fun hfull => (h.2 hfull).move h.1 hm⟩)
    (fun e₀ e ns ms h hl hfull hclean => (h.2 hfull).last h.1 hfull hl hclean) hM t
  cases htagged : ((Ocl.init parms maxClients afuEvent).run as).tagged t with
  | none =>
    rw [htagged] at htracked
    exact ⟨none, htracked⟩
  | some e =>
    rw [htagged] at htracked
    obtain ⟨e₀, ns, hsessions, -⟩ := htracked
    exact ⟨some (e₀, ns), hsessions⟩

/-- A read of 128 bytes. -/
def sampleLongRead : AfuTlxCmd := { sampleRead with dl := 2 }

/-- The frame in which the AFU returns a response credit. -/
def creditFrame : Socket :=
  Socket.whole (tlxSignalTlxModel { tlxEventReset with
    clock := 1, afuCreditReq := { tlxEventReset.afuCreditReq with valid := 1, respCredit := 1 } }).2.2

/-- With 64-byte lines and one response credit: the second part finds no credit, and is sent when the
AFU has returned one. -/
def refusedPartRun : List Action :=
  .associate 0 :: { Turn.quiet with socket := sampleLongRead.frame }.actions 1 ++ Turn.quiet.actions 1 ++
    { Turn.quiet with input := fun _ => .memSuccess (List.replicate 128 7) }.actions 1 ++
    Turn.quiet.actions 1 ++ Turn.quiet.actions 1 ++
    { Turn.quiet with socket := creditFrame }.actions 1

/-- The interface with a single response credit. -/
def sampleAfuOneCredit : AfuEvent := { tlxEventReset with afuTlxRespCreditsAvailable := 1 }

/-- The second part is staged for the bytes behind the end of the command. -/
theorem refusedPartRun_uncovered :
    ¬ ∃ o, Sessions (fun e ns => e.IsFull → Clean ns → Covers e.size (responses ns))
      (history 5 ((Ocl.init (.quiet 64 (by simp)) 1 sampleAfuOneCredit).run refusedPartRun).trace) o := by
  rintro ⟨o, hsessions⟩
  obtain ⟨e, ns, hscan, hcovers⟩ := hsessions.last_done (by decide +kernel)
  have hadded : (scan (history 5 ((Ocl.init (.quiet 64 (by simp)) 1 sampleAfuOneCredit).run
      refusedPartRun).trace).dropLast).map (Option.map (fun x => (x.1.command, x.1.size))) =
      some (some (afuCmdRdWnitc, 128)) := by decide +kernel
  have hsent : (scan (history 5 ((Ocl.init (.quiet 64 (by simp)) 1 sampleAfuOneCredit).run
      refusedPartRun).trace).dropLast).map (Option.map (fun x => (responses x.2).map
        (fun r => (r.code, r.dp, r.dl)))) = some (some [(0, 0, 1), (0, 2, 1)]) := by decide +kernel
  rw [hscan] at hadded hsent
  obtain ⟨hcommand, hsize⟩ : e.command = afuCmdRdWnitc ∧ e.size = 128 := by simpa using hadded
  have hrs : (responses ns).map (fun r => (r.code, r.dp, r.dl)) = [(0, 0, 1), (0, 2, 1)] := by
    simpa using hsent
  have hcode : Clean ns := by
    intro r hr
    have hmem := List.mem_map_of_mem (f := fun r : Response => (r.code, r.dp, r.dl)) hr
    rw [hrs] at hmem
    simp only [List.mem_cons, Prod.mk.injEq, List.not_mem_nil, or_false] at hmem
    rcases hmem with h | h <;> exact h.1
  have hc := hcovers ⟨by rw [hcommand]; rfl, .inr (.inl hsize)⟩ hcode
  obtain ⟨r, hr, hplace⟩ : ∃ r ∈ responses ns, (r.code, r.dp, r.dl) = (0, 2, 1) := by
    have hmem : ((0, 2, 1) : UInt8 × UInt8 × UInt8) ∈ (responses ns).map (fun r => (r.code, r.dp, r.dl)) := by
      rw [hrs]
      simp
    obtain ⟨r, hr, h⟩ := List.mem_map.mp hmem
    exact ⟨r, hr, h⟩
  simp only [Prod.mk.injEq] at hplace
  have hinside := hc.inside r hr (show 128 ∈ r.range by
    rw [Response.range, hplace.2.1, hplace.2.2]
    simp [dlToSize])
  rw [hsize] at hinside
  simp at hinside

end Ocse
