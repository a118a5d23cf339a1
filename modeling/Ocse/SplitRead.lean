import Ocse.ReadTurns

/-!
# Reads that are answered in parts

The AFU may answer a full read with several responses, each for a part of it and each followed by the beats of
that part. `handle_ap_resp` takes `dL` and `dP` from a response only while the event waits for its first one;
what the other responses say is lost, and their beats are stored as if they belonged to the first.
-/

namespace Ocse

/-! ## The first event of a run -/

def dlOfSize (size : ℕ) : UInt8 := if size = 64 then 1 else if size = 128 then 2 else if size = 256 then 3 else 0

theorem encode_cmdDL (e : MmioEvent) : e.encode.cmdDL = dlOfSize e.size ∧ e.encode.size = e.size ∧
    e.encode.state = e.state ∧ e.encode.sizeReceived = e.sizeReceived := by
  unfold MmioEvent.encode
  by_cases hzero : e.size = 0
  · rw [if_pos hzero, hzero]
    exact ⟨rfl, rfl, rfl, rfl⟩
  · rw [if_neg hzero]
    exact ⟨rfl, rfl, rfl, rfl⟩

/-- What `send_mmio` has set on an event that waits for its response. -/
def MmioEvent.Begun (e : MmioEvent) : Prop :=
  (e.state = .idle → e.sizeReceived = 0) ∧
    (e.state = .pending → e.sizeReceived = 0 ∧ (e.cfg = false → e.cmdDL = dlOfSize e.size))

theorem begun_of_state {e : MmioEvent} (h : e.state = .buffer ∨ e.state = .done) : e.Begun := by
  rcases h with h | h <;> rw [MmioEvent.Begun, h] <;> exact ⟨MmioState.noConfusion, MmioState.noConfusion⟩

theorem sendMmio_begun {m : Mmio} (h : ∀ e ∈ m.list, e.Begun) : ∀ e ∈ (sendMmio m).list, e.Begun := by
  unfold sendMmio
  split
  · exact h
  · rename_i e rest hlist
    split
    · exact h
    · rename_i hstate
      rw [hlist, List.forall_mem_cons] at h
      obtain ⟨hfirst, hrest⟩ := h
      have hidle := not_not.mp hstate
      have hready : ∀ e' : MmioEvent, e' = (if e.cfg then { e with ack := ocseMmioAck } else e.encode) →
          e'.state = .idle ∧ e'.sizeReceived = 0 ∧ (e'.cfg = false → e'.cmdDL = dlOfSize e'.size) := by
        rintro e' rfl
        cases hcfg : e.cfg with
        | true => exact ⟨hidle, hfirst.1 hidle, fun hno => by cases hno⟩
        | false =>
            obtain ⟨hcode, hsize, hstate', hreceived⟩ := encode_cmdDL e
            exact ⟨hstate'.trans hidle, hreceived.trans (hfirst.1 hidle), fun _ => hcode.trans (congrArg dlOfSize hsize.symm)⟩
      generalize (if e.cfg then { e with ack := ocseMmioAck } else e.encode) = e' at hready
      obtain ⟨hidle', hfresh, hcode⟩ := hready e' rfl
      dsimp only
      split
      · change ∀ x ∈ ({ e' with state := .pending } : MmioEvent) :: rest, x.Begun
        rw [List.forall_mem_cons]
        exact ⟨⟨MmioState.noConfusion, fun _ => ⟨hfresh, hcode⟩⟩, hrest⟩
      · change ∀ x ∈ e' :: rest, x.Begun
        rw [List.forall_mem_cons]
        refine ⟨⟨fun _ => hfresh, fun hpending => ?_⟩, hrest⟩
        rw [hidle'] at hpending
        cases hpending

theorem handleApResp_begun {m : Mmio} (h : ∀ e ∈ m.list, e.Begun) : ∀ e ∈ (handleApResp m).list, e.Begun := by
  rcases handleApResp_effect m with ⟨hlist, -, -⟩ | ⟨e, e', rest, hlist, -, -, hstate, hlist', -⟩ |
    ⟨e, e', rest, hlist, -, -, hstate, -, hlist', -⟩
  · rw [hlist]
    exact h
  · rw [hlist, List.forall_mem_cons] at h
    rw [hlist', List.forall_mem_cons]
    exact ⟨begun_of_state (.inl hstate), h.2⟩
  · rw [hlist, List.forall_mem_cons] at h
    rw [hlist', List.forall_mem_cons]
    exact ⟨begun_of_state (.inr hstate), h.2⟩

theorem handleApRespData_begun {m : Mmio} (h : ∀ e ∈ m.list, e.Begun) :
    ∀ e ∈ (handleApRespData m).list, e.Begun := by
  unfold handleApRespData
  split
  · exact h
  · rename_i e rest hlist
    have hcons := h
    rw [hlist, List.forall_mem_cons] at hcons
    obtain ⟨-, hrest⟩ := hcons
    split
    · split
      · exact hrest
      · exact h
    · split
      · exact h
      · dsimp only
        split
        · exact h
        · rename_i hstate
          unfold takeRespData
          dsimp only
          split
          · exact hrest
          split
          · exact hrest
          split
          · exact h
          split
          · exact hrest
          · exact List.forall_mem_cons.mpr ⟨begun_of_state (.inl (not_not.mp hstate)), hrest⟩

theorem step_begun {m : Mmio} (a : MmioAction) (h : ∀ e ∈ m.list, e.Begun) : ∀ e ∈ (m.step a).list, e.Begun := by
  unfold Mmio.step
  split
  · exact h
  · have happend : ∀ x : MmioEvent, x.state = .idle → x.sizeReceived = 0 → ∀ e ∈ m.list ++ [x], e.Begun := by
      intro x hidle hfresh e he
      rcases List.mem_append.mp he with he | he
      · exact h e he
      · obtain rfl := List.mem_singleton.mp he
        refine ⟨fun _ => hfresh, fun hpending => ?_⟩
        rw [hidle] at hpending
        cases hpending
    cases a with
    | frame afuEvent => exact h
    | cfg rnw dw addr data => exact happend _ rfl rfl
    | mmio client cfg rnw dw global addr data => exact happend _ rfl rfl
    | mem client rnw size addr data beValid be => exact happend _ rfl rfl
    | handleAfu =>
        change ∀ e ∈ (handleAfuMmio m).list, e.Begun
        unfold handleAfuMmio
        dsimp only
        split
        · exact handleApResp_begun h
        · exact handleApRespData_begun (handleApResp_begun h)
    | send => exact sendMmio_begun h
    | poll client =>
        change ∀ e ∈ (handleMmioDone m client).list, e.Begun
        rw [(handleMmioDone_list m client).1]
        exact h
    | depart client => exact h

theorem run_begun (afuEvent : AfuEvent) (actions : List MmioAction) :
    ∀ e ∈ ((mmioInit afuEvent).run actions).list, e.Begun := by
  apply foldl_invariant (fun m : Mmio => ∀ e ∈ m.list, e.Begun) (fun m a h => step_begun a h)
  intro e he
  cases he

theorem run_awaits {afuEvent : AfuEvent} {actions : List MmioAction} {e : MmioEvent} {rest : List MmioEvent}
    (hlist : ((mmioInit afuEvent).run actions).list = e :: rest) (hcfg : e.cfg = false) (hrnw : e.rnw = true)
    (hpending : e.state = .pending) : e.Awaits ∧ e.cmdDL = dlOfSize e.size := by
  have hbegun := run_begun afuEvent actions e (by rw [hlist]; exact List.mem_cons_self)
  obtain ⟨hfresh, hcode⟩ := hbegun.2 hpending
  exact ⟨⟨hcfg, hrnw, hpending, hfresh⟩, hcode hcfg⟩

/-! ## Parts -/

/-- The lines of 64 bytes that a response is for. -/
def AfuTlxResp.lines (r : AfuTlxResp) : List ℕ :=
  if r.dl = 1 then [r.dp.toNat]
  else if r.dl = 2 then [2 * r.dp.toNat, 2 * r.dp.toNat + 1]
  else if r.dl = 3 then [4 * r.dp.toNat, 4 * r.dp.toNat + 1, 4 * r.dp.toNat + 2, 4 * r.dp.toNat + 3]
  else []

/-- Responses that are legal for the command and divide the lines of the read among them. -/
structure MmioEvent.SplitInto (e : MmioEvent) (parts : List AfuTlxResp) : Prop where
  valid : ∀ r ∈ parts, r.valid = 1
  legal : ∀ r ∈ parts, respDldpIsLegal e.cmdDL r.dl r.dp = true
  covers : (parts.flatMap AfuTlxResp.lines).Perm (List.range (e.size / 64))

/-- Each response with the beats of its part behind it. -/
def splitStream (parts : List AfuTlxResp) (line : ℕ → Buffer UInt8) : List AfuItem :=
  parts.flatMap (fun r => .resp r :: r.lines.map (fun l => .beat (line l)))

/-- The read is under way until the frames have shown the last beat, and it is then done with every line in
its place. -/
def Mmio.ReadsParts (m : Mmio) (e : MmioEvent) (line : ℕ → Buffer UInt8) (ts : List MmioTurn) : Prop :=
  (∀ before after, ts = before ++ after → shownIn after ≠ [] →
    ∃ e', (m.turns before).Heads e' ∧ e'.id = e.id ∧ e'.state ≠ .done) ∧
  ∀ before t after, ts = before ++ t :: after → t.frame.shows ≠ [] → shownIn after = [] →
    ∃ fs e', (m.turns (before ++ [t])).finished = fs ++ [e'] ∧ e'.id = e.id ∧ e'.state = .done ∧
      ∀ l < e.size / 64, e'.data.read (64 * l) 64 = (line l).read 0 64

/-- The lines come in ascending order, and the first response is not for one line of several. -/
def InPlace (parts : List AfuTlxResp) (n : ℕ) : Prop :=
  parts.flatMap AfuTlxResp.lines = List.range n ∧ ∀ r rest, parts = r :: rest → r.dl = 1 → rest = []

theorem beatsOf_stream (parts : List AfuTlxResp) (line : ℕ → Buffer UInt8) :
    beatsOf (splitStream parts line) = (parts.flatMap AfuTlxResp.lines).map line := by
  induction parts with
  | nil => rfl
  | cons r parts ih =>
      have hbeats : r.lines.map (fun l => AfuItem.beat (line l)) = (r.lines.map line).map .beat := by
        rw [List.map_map]
        rfl
      rw [splitStream, List.flatMap_cons, beatsOf_append, List.flatMap_cons, List.map_append, beatsOf_cons_resp,
        hbeats, beatsOf_beats]
      exact congrArg (r.lines.map line ++ ·) ih

theorem AfuTlxResp.Long.lines_ne_nil {r : AfuTlxResp} (h : r.Long) : r.lines ≠ [] := by
  unfold AfuTlxResp.lines
  rcases h with hdl | hdl | hdl <;> rw [hdl] <;> exact List.cons_ne_nil _ _

/-- The stream ends with a beat, so that whatever is left of it has one. -/
theorem beatsOf_suffix {parts : List AfuTlxResp} (hlong : ∀ r ∈ parts, r.Long) (line : ℕ → Buffer UInt8)
    {xs ys : List AfuItem} (h : splitStream parts line = xs ++ ys) (hys : ys ≠ []) : beatsOf ys ≠ [] := by
  have hlast : ∀ item ∈ (splitStream parts line).getLast?, ∃ bus, item = .beat bus := by
    clear h
    induction parts with
    | nil =>
        intro item hitem
        cases hitem
    | cons r parts ih =>
        intro item hitem
        have hcons : splitStream (r :: parts) line =
            .resp r :: r.lines.map (fun l => .beat (line l)) ++ splitStream parts line := rfl
        rw [hcons, List.getLast?_append] at hitem
        cases hrest : (splitStream parts line).getLast? with
        | some other =>
            rw [hrest] at hitem
            obtain rfl : other = item := Option.some.inj hitem
            exact ih (fun r' hr' => hlong r' (List.mem_cons_of_mem r hr')) other hrest
        | none =>
            rw [hrest, Option.none_or] at hitem
            have hne : r.lines.map (fun l => AfuItem.beat (line l)) ≠ [] := by
              simpa using (hlong r List.mem_cons_self).lines_ne_nil
            rw [List.getLast?_cons, List.getLast?_eq_some_getLast hne, Option.getD_some] at hitem
            obtain rfl := Option.some.inj hitem
            obtain ⟨l, -, hbus⟩ := List.mem_map.mp (List.getLast_mem hne)
            exact ⟨line l, hbus.symm⟩
  rw [h, List.getLast?_append, List.getLast?_eq_some_getLast hys, Option.some_or] at hlast
  obtain ⟨bus, hbus⟩ := hlast _ rfl
  have hmem : AfuItem.beat bus ∈ ys := hbus ▸ List.getLast_mem hys
  intro hnone
  have hin : bus ∈ beatsOf ys := List.mem_filterMap.mpr ⟨.beat bus, hmem, rfl⟩
  rw [hnone] at hin
  cases hin

/-! ## What is stored -/

section Stored

variable {r : AfuTlxResp} (data : Buffer UInt8)

/-- Beats that are stored one after another. -/
theorem stored_line (beats : List (Buffer UInt8)) (hplace : ∀ k < beats.length, r.place k = 64 * k) (k : ℕ)
    (hk : k < beats.length) : (r.stored data beats).read (64 * k) 64 = (beats.get ⟨k, hk⟩).read 0 64 := by
  induction beats using List.reverseRecOn with
  | nil => cases hk
  | append_singleton beats bus ih =>
      rw [List.length_append, List.length_singleton] at hplace
      rw [r.stored_snoc, hplace beats.length (by omega)]
      by_cases hlast : k = beats.length
      · subst hlast
        have hholds := Buffer.read_eq_of_holds
          (Buffer.holds_write (r.stored data beats) (64 * beats.length) (bus.read 0 64))
        rw [Buffer.length_read] at hholds
        rw [hholds]
        simp
      · have hlt : k < beats.length := by
          rw [List.length_append, List.length_singleton] at hk
          omega
        have hget : (beats ++ [bus]).get ⟨k, hk⟩ = beats.get ⟨k, hlt⟩ := by
          simp [List.getElem_append_left hlt]
        rw [hget, ← ih (fun j hj => hplace j (by omega)) hlt]
        apply Buffer.read_congr
        intro i hi
        exact Buffer.write_of_lt _ _ _ _ (by omega)

/-- A byte that no beat is stored over. -/
theorem stored_outside (beats : List (Buffer UInt8)) (a : ℕ)
    (h : ∀ k < beats.length, a < r.place k ∨ r.place k + 64 ≤ a) : r.stored data beats a = data a := by
  induction beats using List.reverseRecOn with
  | nil => rfl
  | append_singleton beats bus ih =>
      rw [List.length_append, List.length_singleton] at h
      have hbefore := ih (fun k hk => h k (by omega))
      rw [r.stored_snoc]
      rcases h beats.length (by omega) with hlt | hge
      · rw [Buffer.write_of_lt _ _ _ _ hlt, hbefore]
      · rw [Buffer.write_of_ge _ _ _ _ (by rw [Buffer.length_read]; exact hge), hbefore]

theorem place_line (hlong : r.dl ≠ 1) (hdp : r.dl = 2 → r.dp = 0) (k : ℕ) : r.place k = 64 * k := by
  unfold AfuTlxResp.place
  rw [if_neg hlong]
  by_cases htwo : r.dl = 2
  · rw [if_pos htwo, hdp htwo]
    exact Nat.zero_add _
  · rw [if_neg htwo]

end Stored

section Parts

variable {e : MmioEvent} {r : AfuTlxResp} {rest : List AfuTlxResp} {n : ℕ} (data : Buffer UInt8)

/-- Every line is stored somewhere, if the data is right whatever the beats hold. -/
theorem line_stored {ls : List ℕ} (hlen : ls.length = n)
    (h : ∀ line : ℕ → Buffer UInt8, ∀ l < n,
      (r.stored data (ls.map line)).read (64 * l) 64 = (line l).read 0 64) {l : ℕ} (hl : l < n) :
    ∃ k < n, r.place k ≤ 64 * l ∧ 64 * l < r.place k + 64 := by
  by_contra hnone
  have hright := h (fun _ => Buffer.const (data (64 * l) + 1)) l hl
  have hbyte : r.stored data (ls.map fun _ => Buffer.const (data (64 * l) + 1)) (64 * l) = data (64 * l) + 1 := by
    rw [Buffer.read_succ, Buffer.read_succ] at hright
    exact (List.cons.inj hright).1
  rw [stored_outside] at hbyte
  · have hself : data (64 * l) + 1 - data (64 * l) = 0 := by rw [← hbyte, UInt8.sub_self]
    rw [UInt8.add_comm, UInt8.add_sub_cancel] at hself
    exact absurd hself (by decide)
  · intro k hk
    rw [List.length_map, hlen] at hk
    by_contra hin
    exact hnone ⟨k, hk, by omega, by omega⟩

/-- Beats that are stored one after another show in what order the lines come. -/
theorem lines_eq_range {ls : List ℕ} (hsmall : n ≤ 256) (hcovers : ls.Perm (List.range n))
    (hplace : ∀ k, r.place k = 64 * k) (h : ∀ line : ℕ → Buffer UInt8, ∀ l < n,
      (r.stored data (ls.map line)).read (64 * l) 64 = (line l).read 0 64) : ls = List.range n := by
  have hlen := hcovers.length_eq
  rw [List.length_range] at hlen
  apply List.ext_getElem (by rw [hlen, List.length_range])
  intro k hk hk'
  rw [List.length_range] at hk'
  -- every line is marked with its number
  have hright := h (fun l => Buffer.const (UInt8.ofNat l)) k hk'
  rw [stored_line data _ (fun j _ => hplace j) k (by rw [List.length_map]; exact hk)] at hright
  rw [Buffer.read_succ, Buffer.read_succ] at hright
  have hbyte := (List.cons.inj hright).1
  rw [List.get_eq_getElem, List.getElem_map] at hbyte
  change UInt8.ofNat ls[k] = UInt8.ofNat k at hbyte
  have hline := List.mem_range.mp (hcovers.mem_iff.mp (List.getElem_mem hk))
  have hnat := congrArg UInt8.toNat hbyte
  rw [UInt8.toNat_ofNat', UInt8.toNat_ofNat', Nat.mod_eq_of_lt (by omega), Nat.mod_eq_of_lt (by omega)] at hnat
  rw [hnat, List.getElem_range]

/-- A single line leaves nothing for a second part. -/
theorem rest_eq_nil (hlong : ∀ p ∈ r :: rest, p.Long) (hone : r.dl = 1)
    (hlen : ((r :: rest).flatMap AfuTlxResp.lines).length = 1) : rest = [] := by
  have hlines : r.lines = [r.dp.toNat] := if_pos hone
  rw [List.flatMap_cons, hlines, List.length_append, List.length_singleton] at hlen
  have hnil : rest.flatMap AfuTlxResp.lines = [] := List.length_eq_zero_iff.mp (by omega)
  cases rest with
  | nil => rfl
  | cons p rest =>
      rw [List.flatMap_cons, List.append_eq_nil_iff] at hnil
      exact absurd hnil.1 (hlong p (List.mem_cons_of_mem r List.mem_cons_self)).lines_ne_nil

theorem InPlace.place (h : InPlace (r :: rest) n) (hn : 0 < n) {k : ℕ} (hk : k < n) : r.place k = 64 * k := by
  obtain ⟨horder, hfirst⟩ := h
  by_cases hone : r.dl = 1
  · have hlines : r.lines = [r.dp.toNat] := if_pos hone
    rw [hfirst r rest rfl hone, List.flatMap_cons, List.flatMap_nil, List.append_nil, hlines] at horder
    have hsingle : n = 1 := by
      have hlength := congrArg List.length horder
      rw [List.length_range, List.length_singleton] at hlength
      exact hlength.symm
    subst hsingle
    have hdp : r.dp.toNat = 0 := (List.cons.inj horder).1
    obtain rfl : k = 0 := by omega
    rw [AfuTlxResp.place, if_pos hone, hdp]
  · apply place_line hone
    intro htwo
    have hlines : r.lines = [2 * r.dp.toNat, 2 * r.dp.toNat + 1] := by
      rw [AfuTlxResp.lines, if_neg hone, if_pos htwo]
    obtain ⟨n, rfl⟩ := Nat.exists_eq_add_of_lt hn
    rw [List.flatMap_cons, hlines, List.range_succ_eq_map] at horder
    have hzero : 2 * r.dp.toNat = 0 := (List.cons.inj horder).1
    apply UInt8.toNat_inj.mp
    change r.dp.toNat = 0
    omega

/-- Storing by the first response is right for all data exactly when the parts are in place. -/
theorem stored_iff (hn : 0 < n) (hsmall : n ≤ 256) (hlong : ∀ p ∈ r :: rest, p.Long)
    (hcovers : ((r :: rest).flatMap AfuTlxResp.lines).Perm (List.range n)) :
    (∀ line : ℕ → Buffer UInt8, ∀ l < n,
      (r.stored data (((r :: rest).flatMap AfuTlxResp.lines).map line)).read (64 * l) 64 = (line l).read 0 64) ↔
      InPlace (r :: rest) n := by
  have hlen := hcovers.length_eq
  rw [List.length_range] at hlen
  constructor
  · intro h
    obtain ⟨k₀, -, hlow, -⟩ := line_stored data hlen h hn
    by_cases hone : r.dl = 1
    · -- Every beat goes to one place, so there is only one line.
      have hplace : ∀ k, r.place k = r.dp.toNat * 64 := fun k => if_pos hone
      have hsingle : n = 1 := by
        by_contra hmany
        obtain ⟨k₁, -, -, hhigh⟩ := line_stored data hlen h (show 1 < n by omega)
        rw [hplace] at hlow hhigh
        omega
      subst hsingle
      refine ⟨List.perm_singleton.mp hcovers, ?_⟩
      intro p ps hcons _
      rw [← (List.cons.inj hcons).2]
      exact rest_eq_nil hlong hone hlen
    · have hdp : r.dl = 2 → r.dp = 0 := by
        intro htwo
        unfold AfuTlxResp.place at hlow
        rw [if_neg hone, if_pos htwo] at hlow
        apply UInt8.toNat_inj.mp
        change r.dp.toNat = 0
        omega
      exact ⟨lines_eq_range data hsmall hcovers (place_line hone hdp) h,
        fun p ps hcons hdl => absurd ((List.cons.inj hcons).1 ▸ hdl) hone⟩
  · intro h line l hl
    have hl' : l < (((r :: rest).flatMap AfuTlxResp.lines).map line).length := by
      rw [List.length_map, hlen]
      exact hl
    rw [stored_line data _ (fun k hk => h.place hn (by rwa [List.length_map, hlen] at hk)) l hl']
    simp only [List.get_eq_getElem, List.getElem_map, h.1, List.getElem_range]

end Parts

/-! ## The read -/

section Read

variable {m : Mmio} {e : MmioEvent} {r : AfuTlxResp} {rest : List AfuTlxResp} {line : ℕ → Buffer UInt8}
  {ts : List MmioTurn}

theorem shownIn_append (ts us : List MmioTurn) : shownIn (ts ++ us) = shownIn ts ++ shownIn us :=
  List.flatMap_append

/-- The last turn whose frame shows something. -/
theorem last_shown (ts : List MmioTurn) (h : shownIn ts ≠ []) :
    ∃ before t after, ts = before ++ t :: after ∧ t.frame.shows ≠ [] ∧ shownIn after = [] := by
  induction ts with
  | nil => exact absurd rfl h
  | cons t ts ih =>
      by_cases hafter : shownIn ts = []
      · refine ⟨[], t, ts, rfl, ?_, hafter⟩
        rw [shownIn, List.flatMap_cons] at h
        intro hnone
        rw [hnone, List.nil_append] at h
        exact h hafter
      · obtain ⟨before, t', after, rfl, ht', hafter'⟩ := ih hafter
        exact ⟨t :: before, t', after, rfl, ht', hafter'⟩

/-- One item in each frame. -/
theorem exists_turns (items : List AfuItem) (hvalid : ∀ r, .resp r ∈ items → r.valid = 1) :
    ∃ ts, shownIn ts = items := by
  induction items with
  | nil => exact ⟨[], rfl⟩
  | cons item items ih =>
      obtain ⟨ts, hts⟩ := ih (fun r hr => hvalid r (List.mem_cons_of_mem item hr))
      have hturn : ∃ a : AfuEvent, a.shows = [item] := by
        cases item with
        | resp r =>
            have hone : ¬r.valid = 0 := by
              rw [hvalid r List.mem_cons_self]
              decide
            exact ⟨{ tlxEventReset with afuResp := r }, by
              simp [AfuEvent.shows, AfuEvent.resp?, AfuEvent.beat?, hone, tlxEventReset]⟩
        | beat bus =>
            exact ⟨{ tlxEventReset with afuRdata := ⟨1, bus, 0⟩ }, by
              simp [AfuEvent.shows, AfuEvent.resp?, AfuEvent.beat?, tlxEventReset]⟩
      obtain ⟨a, ha⟩ := hturn
      refine ⟨⟨[], by simp, a⟩ :: ts, ?_⟩
      rw [shownIn, List.flatMap_cons, ha]
      exact congrArg (item :: ·) hts

theorem split_count (he : e.Full) (hcovers : ((r :: rest).flatMap AfuTlxResp.lines).Perm (List.range (e.size / 64))) :
    64 * (beatsOf (splitStream (r :: rest) line)).length = e.size := by
  have hlen := hcovers.length_eq
  rw [List.length_range] at hlen
  rw [beatsOf_stream, List.length_map, hlen]
  exact Nat.mul_div_cancel' he.lines

/-- As long as something is still to be shown, a beat is. -/
theorem split_more (he : e.Full) (hlong : ∀ p ∈ r :: rest, p.Long)
    (hcovers : ((r :: rest).flatMap AfuTlxResp.lines).Perm (List.range (e.size / 64)))
    {xs ys : List AfuItem} (hstream : splitStream (r :: rest) line = xs ++ ys) (hys : ys ≠ []) :
    64 * (beatsOf xs).length < e.size := by
  have hcount : 64 * (beatsOf (splitStream (r :: rest) line)).length = e.size := split_count he hcovers
  have hbeat := List.length_pos_iff.mpr (beatsOf_suffix hlong line hstream hys)
  rw [hstream, beatsOf_append, List.length_append] at hcount
  omega

/-- Whatever the parts are, the read is done with the last beat; where the data stands, the first response has
said. -/
theorem readsParts_iff_stored (he : e.Full) (hawaits : e.Awaits) (h : m.Heads e) (hsplit : e.SplitInto (r :: rest))
    (hshown : shownIn ts = splitStream (r :: rest) line) :
    m.ReadsParts e line ts ↔ ∀ l < e.size / 64,
      (r.stored e.data (((r :: rest).flatMap AfuTlxResp.lines).map line)).read (64 * l) 64 = (line l).read 0 64 := by
  have hlegal := hsplit.legal r List.mem_cons_self
  have hlong : ∀ p ∈ r :: rest, p.Long := fun p hp => .of_legal (hsplit.legal p hp)
  have hstream : splitStream (r :: rest) line =
      .resp r :: (r.lines.map (fun l => .beat (line l)) ++ splitStream rest line) := rfl
  have hbeats : beatsOf (r.lines.map (fun l => .beat (line l)) ++ splitStream rest line) =
      ((r :: rest).flatMap AfuTlxResp.lines).map line := by
    rw [← beatsOf_stream, hstream]
    rfl
  have hunder : ∀ before after, ts = before ++ after → shownIn after ≠ [] →
      ∃ e', (m.turns before).Heads e' ∧ e'.id = e.id ∧ e'.state ≠ .done := by
    rintro before after rfl hafter
    rw [shownIn_append] at hshown
    have hmore := split_more he hlong hsplit.covers hshown.symm hafter
    cases hbefore : shownIn before with
    | nil =>
        refine ⟨e, turns_wait hawaits h before hbefore, rfl, ?_⟩
        rw [hawaits.pending]
        exact MmioState.noConfusion
    | cons item items =>
        rw [hbefore, hstream, List.cons_append] at hshown
        obtain ⟨rfl, -⟩ := List.cons.inj hshown
        rw [hbefore] at hmore
        exact ⟨_, turns_answer he hawaits h before hbefore hlegal hmore, rfl, MmioState.noConfusion⟩
  have hlast : ∀ before t after, ts = before ++ t :: after → t.frame.shows ≠ [] → shownIn after = [] →
      ∃ fs, (m.turns (before ++ [t])).finished =
        fs ++ [{ e.gather r (((r :: rest).flatMap AfuTlxResp.lines).map line) with state := .done }] := by
    rintro before t after rfl ht hafter
    rw [List.append_cons, shownIn_append, hafter, List.append_nil] at hshown
    have hmore : 64 * (beatsOf (shownIn before)).length < e.size := by
      rw [shownIn_append] at hshown
      apply split_more he hlong hsplit.covers hshown.symm
      simpa [shownIn] using ht
    have hgathers := turns_snoc he hawaits h before t (hshown.trans hstream) hlegal hmore
    rw [hbeats] at hgathers
    rcases hgathers with ⟨hlt, -⟩ | ⟨-, hfinished⟩
    · have hcount : 64 * (beatsOf (splitStream (r :: rest) line)).length = e.size := split_count he hsplit.covers
      rw [beatsOf_stream] at hcount
      omega
    · exact hfinished
  constructor
  · rintro ⟨-, hdone⟩
    have hsome : shownIn ts ≠ [] := by
      rw [hshown, hstream]
      exact List.cons_ne_nil _ _
    obtain ⟨before, t, after, hts, ht, hafter⟩ := last_shown ts hsome
    obtain ⟨fs, e', hfinished, -, -, hdata⟩ := hdone before t after hts ht hafter
    obtain ⟨fs', hfinished'⟩ := hlast before t after hts ht hafter
    obtain ⟨-, hsame⟩ := List.append_inj' (hfinished.symm.trans hfinished') rfl
    rw [(List.cons.inj hsame).1] at hdata
    exact hdata
  · intro hright
    refine ⟨hunder, ?_⟩
    intro before t after hts ht hafter
    obtain ⟨fs, hfinished⟩ := hlast before t after hts ht hafter
    exact ⟨fs, _, hfinished, rfl, rfl, hright⟩

end Read

/-- For every run that has come to a read of 64, 128 or 256 bytes, and every legal division of it into parts:
the read gets its data right for all data and however the frames come, exactly when the parts are in place. -/
theorem splitRead_iff (afuEvent : AfuEvent) (actions : List MmioAction) (e : MmioEvent) (rest : List MmioEvent)
    (hrunning : ((mmioInit afuEvent).run actions).halted = false)
    (hlist : ((mmioInit afuEvent).run actions).list = e :: rest) (hcfg : e.cfg = false) (hrnw : e.rnw = true)
    (hpending : e.state = .pending) (hsize : e.size = 64 ∨ e.size = 128 ∨ e.size = 256)
    (parts : List AfuTlxResp) (hsplit : e.SplitInto parts) :
    (∀ line ts, shownIn ts = splitStream parts line →
      ((mmioInit afuEvent).run actions).ReadsParts e line ts) ↔ InPlace parts (e.size / 64) := by
  obtain ⟨hawaits, -⟩ := run_awaits hlist hcfg hrnw hpending
  have he : e.Full := by
    refine ⟨hcfg, hrnw, ?_, ?_, ?_⟩ <;> rcases hsize with hs | hs | hs <;> rw [hs] <;> decide
  have hn : 0 < e.size / 64 := Nat.div_pos (Nat.le_of_dvd he.some he.lines) (by decide)
  have hsmall : e.size / 64 ≤ 256 := (Nat.div_le_self _ _).trans he.most
  cases parts with
  | nil =>
      have hlen := hsplit.covers.length_eq
      rw [List.length_range] at hlen
      exact absurd hlen (by change ¬0 = _; omega)
  | cons r parts =>
      rw [← stored_iff e.data hn hsmall (fun p hp => .of_legal (hsplit.legal p hp)) hsplit.covers]
      constructor
      · intro h line
        obtain ⟨ts, hts⟩ := exists_turns (splitStream (r :: parts) line) (fun p hp => by
          obtain ⟨q, hq, hmem⟩ := List.mem_flatMap.mp hp
          rcases List.mem_cons.mp hmem with heq | hbeat
          · rw [AfuItem.resp.inj heq]
            exact hsplit.valid q hq
          · obtain ⟨l, -, hno⟩ := List.mem_map.mp hbeat
            cases hno)
        exact (readsParts_iff_stored he hawaits ⟨hrunning, rest, hlist⟩ hsplit hts).mp (h line ts hts)
      · intro h line ts hts
        exact (readsParts_iff_stored he hawaits ⟨hrunning, rest, hlist⟩ hsplit hts).mpr (h line)

/-- A read of 128 bytes that has been sent. -/
def sampleFullRead : List MmioAction :=
  [.mem 0 true 128 0x1000 (Buffer.const 0) false 0, .send]

def sampleFullEvent : MmioEvent :=
  { MmioEvent.new 0 true 0x1000 with size := 128, cmdDL := 2, ack := ocseLpcAck, state := .pending }

/-- A part of a read that has gone well. -/
def readPart (dl dp : UInt8) : AfuTlxResp := ⟨1, afuRspMemRdResp, dl, 0xefac, dp, 0⟩

theorem splitRead_iff_whole :
    (∀ line ts, shownIn ts = splitStream [readPart 2 0] line →
      ((mmioInit tlxEventReset).run sampleFullRead).ReadsParts sampleFullEvent line ts) ↔
      InPlace [readPart 2 0] 2 :=
  splitRead_iff tlxEventReset sampleFullRead sampleFullEvent [] rfl rfl rfl rfl rfl (.inr (.inl rfl))
    [readPart 2 0] ⟨by decide, by decide, by decide⟩

/-- Two parts of 64 bytes: the second line is never stored. -/
def halvesTurns (line : ℕ → Buffer UInt8) : List MmioTurn :=
  [0, 1].map (fun l => ⟨[], by simp, { tlxEventReset with
    afuResp := readPart 1 (UInt8.ofNat l), afuRdata := ⟨1, line l, 0⟩ }⟩)

theorem splitRead_halves : sampleFullEvent.SplitInto [readPart 1 0, readPart 1 1] ∧
    shownIn (halvesTurns fun _ => Buffer.const 1) =
      splitStream [readPart 1 0, readPart 1 1] (fun _ => Buffer.const 1) ∧
    ¬((mmioInit tlxEventReset).run sampleFullRead).ReadsParts sampleFullEvent (fun _ => Buffer.const 1)
      (halvesTurns fun _ => Buffer.const 1) := by
  refine ⟨⟨by decide, by decide, by decide⟩, rfl, ?_⟩
  rintro ⟨-, hdone⟩
  obtain ⟨fs, e', hfinished, -, -, hdata⟩ := hdone [_] _ [] rfl (List.cons_ne_nil _ _) rfl
  have hkept : (((mmioInit tlxEventReset).run sampleFullRead).turns
      (halvesTurns fun _ => Buffer.const 1)).finished.map (fun x => x.data 64) = [0] := by decide +kernel
  have hlast : fs.map (fun x => x.data 64) ++ [e'.data 64] = [] ++ [0] := by
    have hmap := congrArg (List.map (fun x : MmioEvent => x.data 64)) hfinished
    rw [List.map_append] at hmap
    exact hmap.symm.trans hkept
  obtain ⟨-, hzero⟩ := List.append_inj' hlast rfl
  have hone := hdata 1 (by decide)
  rw [Buffer.read_succ, Buffer.read_succ] at hone
  exact absurd ((List.cons.inj hzero).1.symm.trans (List.cons.inj hone).1) (by decide)

end Ocse
