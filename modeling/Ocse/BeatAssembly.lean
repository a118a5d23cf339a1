import Ocse.AfuFrame
import Ocse.BeatCmd

/-!
# The assembly of write data

The invariant joins the ledger to the engine: the beat that has no place yet stands on the bus, the newest burst is
the one whose write gathers, and every event of a burst holds the burst's beats.
-/

namespace Ocse

/-! ## Frames -/

theorem fill_cdata (a : AfuEvent) (s : Socket) (n : ℕ) :
    (a.fill s n).2.1.afuCdata = a.afuCdata ∧ ∀ rc, (a.fill s n).1 = some rc → rc ≤ 0 := by
  unfold AfuEvent.fill
  split
  · exact ⟨rfl, by simp⟩
  · exact ⟨rfl, by simp⟩
  · exact ⟨rfl, by simp⟩
  · exact ⟨rfl, nofun⟩

theorem fillHead_cdata (a : AfuEvent) (s : Socket) :
    (a.fillHead s).2.1.afuCdata = a.afuCdata ∧ ∀ rc, (a.fillHead s).1 = some rc → rc ≤ 0 := by
  unfold AfuEvent.fillHead
  split_ifs
  · exact fill_cdata a s 1
  · exact ⟨rfl, nofun⟩

theorem lowerClock_cdata (a : AfuEvent) : (lowerClock a).afuCdata = a.afuCdata := by
  unfold lowerClock
  split_ifs
  · rfl
  · rfl

theorem parseAfuEvents_data (a : AfuEvent) (cmdCnt : ℕ) :
    (parseAfuEvents a cmdCnt).rbuf = a.rbuf ∧
      ((parseAfuEvents a cmdCnt).afuCdata.valid ≠ 0 ↔ present a.rbuf 0x04) := by
  unfold parseAfuEvents
  dsimp only
  simp only [AfuEvent.countReturns_groups, true_and]
  unfold AfuTlxCdata.get
  by_cases hpresent : present a.rbuf 0x04
  · simp [hpresent]
  · simp [hpresent]

/-- With the flag down before, it says after a frame whether the frame brought data. -/
theorem tlxGetAfuEvents_data {a : AfuEvent} (h : a.afuCdata.valid = 0) (s : Socket) :
    (tlxGetAfuEvents a s).2.1.afuCdata.valid ≠ 0 ↔
      0 < (tlxGetAfuEvents a s).1 ∧ present (tlxGetAfuEvents a s).2.1.rbuf 0x04 := by
  have hnone : ∀ (rc : ℤ) (b : AfuEvent) (s' : Socket), b.afuCdata = a.afuCdata → rc ≤ 0 →
      (((rc, b, s') : ℤ × AfuEvent × Socket).2.1.afuCdata.valid ≠ 0 ↔
        0 < ((rc, b, s') : ℤ × AfuEvent × Socket).1 ∧ present ((rc, b, s') : ℤ × AfuEvent × Socket).2.1.rbuf 0x04) := by
    intro rc b s' hb hrc
    apply iff_of_false
    · simp [hb, h]
    · rintro ⟨hpos, -⟩
      exact absurd hrc (Int.not_le.mpr hpos)
  have hhead := fillHead_cdata a s
  unfold tlxGetAfuEvents
  rcases hfill : a.fillHead s with ⟨rc, b, s₁⟩
  rw [hfill] at hhead
  cases rc with
  | some rc => exact hnone rc b s₁ hhead.1 (hhead.2 rc rfl)
  | none =>
      have hclock : (lowerClock b).afuCdata = a.afuCdata := (lowerClock_cdata b).trans hhead.1
      dsimp only
      split_ifs with honly
      · -- the clock alone
        apply iff_of_false
        · simp [hclock, h]
        · rintro ⟨-, hpresent⟩
          have hpresent : (lowerClock b).rbuf 0 &&& 0x04 ≠ 0 := hpresent
          rw [honly] at hpresent
          exact hpresent (by decide)
      · have hsizes := fill_cdata (lowerClock b) s₁ 4
        rcases hfill₂ : (lowerClock b).fill s₁ 4 with ⟨rc, b₂, s₂⟩
        rw [hfill₂] at hsizes
        cases rc with
        | some rc => exact hnone rc b₂ s₂ (hsizes.1.trans hclock) (hsizes.2 rc rfl)
        | none =>
            dsimp only
            have hbody := fill_cdata b₂ s₂ (remaining (afuEventsLength b₂.rbuf) b₂.rbp)
            rcases hfill₃ : b₂.fill s₂ (remaining (afuEventsLength b₂.rbuf) b₂.rbp) with ⟨rc, b₃, s₃⟩
            rw [hfill₃] at hbody
            cases rc with
            | some rc => exact hnone rc b₃ s₃ (hbody.1.trans (hsizes.1.trans hclock)) (hbody.2 rc rfl)
            | none =>
                dsimp only
                split_ifs
                · exact hnone 0 b₃ s₃ (hbody.1.trans (hsizes.1.trans hclock)) (Int.le_refl 0)
                · obtain ⟨hrbuf, hvalid⟩ := parseAfuEvents_data b₃ (byteCnt b₂.rbuf 0x04 1)
                  simp [hrbuf, hvalid]

/-! ## Bursts and events -/

structure Burst.Proper (b : Burst) : Prop where
  size : b.size = 64 ∨ b.size = 128 ∨ b.size = 256
  fits : 64 * b.beats.length ≤ b.size
  beats : ∀ beat ∈ b.beats, beat.length = 64

/-- The event of a burst holds its beats, and gathers only what is still to come. -/
structure Burst.Holds (b : Burst) (e : CmdEvent) : Prop where
  writes : e.Writes
  afutag : e.afutag = b.afutag
  data : e.data = (Buffer.const 0).write 0 b.beats.flatten
  gathers : e.Gathers → b.unfinished = true ∧ e.size = b.size ∧ e.dpartialAt = 64 * b.beats.length

/-- Every burst has its place in the list: only the newest one is in progress, and its event is the one that
gathers. -/
structure Allotted (bursts : List Burst) (list : List CmdEvent) (nextId : ℕ) : Prop where
  fresh : ∀ b ∈ bursts, b.id < nextId
  ids : (bursts.map Burst.id).Nodup
  proper : ∀ b ∈ bursts, b.Proper
  older : ∀ b ∈ bursts.tail, b.unfinished = false
  own : ∀ b ∈ bursts, ∀ e ∈ list, e.id = b.id → b.Holds e
  known : ∀ e ∈ list, e.Gathers → ∃ b ∈ bursts, b.id = e.id
  present : ∀ b ∈ bursts, b.unfinished = true → ∃ e ∈ list, e.id = b.id ∧ e.Gathers

section Allotted

variable {bursts : List Burst} {b : Burst} {list l₁ l₂ : List CmdEvent} {nextId : ℕ} {e : CmdEvent} {s s' : Ocl}

theorem Allotted.newest (h : Allotted bursts list nextId) (hb : b ∈ bursts) (hunfinished : b.unfinished = true) :
    ∃ bs, bursts = b :: bs := by
  cases bursts with
  | nil => cases hb
  | cons b' bs =>
      rcases List.mem_cons.mp hb with rfl | hb
      · exact ⟨bs, rfl⟩
      · have hfinished := h.older b hb
        rw [hunfinished] at hfinished
        cases hfinished

theorem Allotted.gathering_iff {g : BeatLedger} (h : Allotted g.bursts list nextId) :
    g.gathering = true ↔ ∃ e ∈ list, e.Gathers := by
  have hhead : g.gathering = true ↔ ∃ b ∈ g.bursts, b.unfinished = true := by
    unfold BeatLedger.gathering
    constructor
    · intro hany
      cases hbursts : g.bursts with
      | nil =>
          rw [hbursts] at hany
          cases hany
      | cons b bs =>
          rw [hbursts] at hany
          exact ⟨b, List.mem_cons_self, hany⟩
    · rintro ⟨b, hb, hunfinished⟩
      obtain ⟨bs, hbs⟩ := h.newest hb hunfinished
      rw [hbs]
      exact hunfinished
  rw [hhead]
  constructor
  · rintro ⟨b, hb, hunfinished⟩
    obtain ⟨e, he, -, hg⟩ := h.present b hb hunfinished
    exact ⟨e, he, hg⟩
  · rintro ⟨e, he, hg⟩
    obtain ⟨b, hb, hid⟩ := h.known e he hg
    exact ⟨b, hb, ((h.own b hb e he hid.symm).gathers hg).1⟩

/-- A handler that leaves the beats alone. -/
theorem Allotted.leaves (h : Allotted bursts s.list s.nextId) (hl : LeavesBeats s s') :
    Allotted bursts s'.list s'.nextId := by
  refine ⟨fun b hb => (h.fresh b hb).trans_le hl.nextId, h.ids, h.proper, h.older, ?_, ?_, ?_⟩
  · intro b hb e' he' hid
    obtain ⟨e, he, hbecomes⟩ := hl.origin e' he'
    have hholds := h.own b hb e he (hbecomes.id.symm.trans hid)
    obtain ⟨hwrites, hdata⟩ := hbecomes.writes hholds.writes
    refine ⟨hwrites, hbecomes.afutag.trans hholds.afutag, hdata.trans hholds.data, fun hg => ?_⟩
    have hsame := hbecomes.gathers hg
    rw [hsame] at hg ⊢
    exact hholds.gathers hg
  · intro e' he' hg
    obtain ⟨e, he, hbecomes⟩ := hl.origin e' he'
    have hsame := hbecomes.gathers hg
    rw [hsame] at hg ⊢
    exact h.known e he hg
  · intro b hb hunfinished
    obtain ⟨e, he, hid, hg⟩ := h.present b hb hunfinished
    exact ⟨e, hl.keeps e he hg, hid, hg⟩

theorem mem_inserted {x : CmdEvent} : x ∈ l₁ ++ e :: l₂ ↔ x = e ∨ x ∈ l₁ ++ l₂ := by
  simp only [List.mem_append, List.mem_cons]
  tauto

/-- A new event that gathers nothing. -/
theorem Allotted.insert (h : Allotted bursts (l₁ ++ l₂) nextId) (hid : e.id = nextId) (hnot : ¬e.Gathers) :
    Allotted bursts (l₁ ++ e :: l₂) (nextId + 1) := by
  refine ⟨fun b hb => Nat.lt_succ_of_lt (h.fresh b hb), h.ids, h.proper, h.older, ?_, ?_, ?_⟩
  · intro b hb x hx hxb
    rcases mem_inserted.mp hx with rfl | hx
    · have hlt := h.fresh b hb
      omega
    · exact h.own b hb x hx hxb
  · intro x hx hg
    rcases mem_inserted.mp hx with rfl | hx
    · exact absurd hg hnot
    · exact h.known x hx hg
  · intro b hb hunfinished
    obtain ⟨x, hx, hxb, hg⟩ := h.present b hb hunfinished
    exact ⟨x, mem_inserted.mpr (.inr hx), hxb, hg⟩

/-- The event of a new burst, with the first beat. -/
theorem Allotted.start (h : Allotted bursts (l₁ ++ l₂) nextId) (hlist : ∀ x ∈ l₁ ++ l₂, x.id < nextId)
    (hdone : ∀ b ∈ bursts, b.unfinished = false) {beat : List UInt8} (hbeat : beat.length = 64) {afutag : UInt16} {size : ℕ}
    (hsize : size = 64 ∨ size = 128 ∨ size = 256) (hid : e.id = nextId) (htag : e.afutag = afutag)
    (htype : e.type = .write) (hesize : e.size = size) (hdata : e.data = (Buffer.const 0).write 0 beat)
    (hlong : 64 < e.size → e.state = .buffer ∧ e.dpartialAt = 64) (hshort : e.size ≤ 64 → e.state = .received) :
    Allotted (⟨nextId, afutag, size, [beat]⟩ :: bursts) (l₁ ++ e :: l₂) (nextId + 1) := by
  have hunfinished : (⟨nextId, afutag, size, [beat]⟩ : Burst).unfinished = decide (64 < size) := rfl
  refine ⟨?_, ?_, ?_, hdone, ?_, ?_, ?_⟩
  · intro b hb
    rcases List.mem_cons.mp hb with rfl | hb
    · exact Nat.lt_succ_self nextId
    · exact Nat.lt_succ_of_lt (h.fresh b hb)
  · refine List.nodup_cons.mpr ⟨fun hmem => ?_, h.ids⟩
    obtain ⟨b, hb, hbid⟩ := List.mem_map.mp hmem
    have hbid : b.id = nextId := hbid
    have hlt := h.fresh b hb
    omega
  · intro b hb
    rcases List.mem_cons.mp hb with rfl | hb
    · refine ⟨hsize, ?_, ?_⟩
      · simp only [List.length_singleton]
        omega
      · simpa using hbeat
    · exact h.proper b hb
  · intro b hb x hx hxb
    rcases List.mem_cons.mp hb with rfl | hb
    · rcases mem_inserted.mp hx with rfl | hx
      · refine ⟨.inl htype, htag, by simpa using hdata, fun hg => ?_⟩
        have hbig : 64 < x.size := by
          by_contra hsmall
          have hreceived := hshort (Nat.not_lt.mp hsmall)
          rw [hg.2] at hreceived
          cases hreceived
        refine ⟨?_, hesize, ?_⟩
        · rw [hunfinished, ← hesize]
          exact decide_eq_true hbig
        · simpa using (hlong hbig).2
      · have hlt := hlist x hx
        rw [hxb] at hlt
        exact absurd hlt (lt_irrefl _)
    · rcases mem_inserted.mp hx with rfl | hx
      · have hlt := h.fresh b hb
        omega
      · exact h.own b hb x hx hxb
  · intro x hx hg
    rcases mem_inserted.mp hx with rfl | hx
    · exact ⟨_, List.mem_cons_self, hid.symm⟩
    · obtain ⟨b, hb, hbid⟩ := h.known x hx hg
      exact ⟨b, List.mem_cons_of_mem _ hb, hbid⟩
  · intro b hb hmore
    rcases List.mem_cons.mp hb with rfl | hb
    · rw [hunfinished] at hmore
      refine ⟨e, mem_inserted.mpr (.inl rfl), hid, htype, (hlong ?_).1⟩
      rw [hesize]
      exact of_decide_eq_true hmore
    · rw [hdone b hb] at hmore
      cases hmore

theorem Burst.Proper.flatten_length (h : b.Proper) : b.beats.flatten.length = 64 * b.beats.length := by
  have hbeats := h.beats
  revert hbeats
  induction b.beats with
  | nil => exact fun _ => rfl
  | cons beat beats ih =>
      intro hbeats
      rw [List.flatten_cons, List.length_append, hbeats beat List.mem_cons_self,
        ih (fun x hx => hbeats x (List.mem_cons_of_mem _ hx)), List.length_cons]
      omega

/-- The burst with one more beat. -/
def Burst.grow (b : Burst) (beat : List UInt8) : Burst := { b with beats := b.beats ++ [beat] }

theorem Burst.grow_length (b : Burst) (beat : List UInt8) : (b.grow beat).beats.length = b.beats.length + 1 := by
  simp [Burst.grow]

theorem Burst.grow_unfinished (b : Burst) (beat : List UInt8) :
    (b.grow beat).unfinished = decide (64 * (b.beats.length + 1) < b.size) := by
  unfold Burst.unfinished
  rw [Burst.grow_length]
  rfl

/-- A burst in progress lacks a whole beat. -/
theorem Burst.Proper.lacks (h : b.Proper) (hunfinished : b.unfinished = true) :
    64 * (b.beats.length + 1) ≤ b.size := by
  have hlt : 64 * b.beats.length < b.size := of_decide_eq_true hunfinished
  rcases h.size with hsize | hsize | hsize <;> omega

/-- The event of a burst with its next beat; it is received when that was the last one. -/
structure Grown (b : Burst) (beat : List UInt8) (e : CmdEvent) : Prop where
  id : e.id = b.id
  type : e.type = .write
  holds : (b.grow beat).Holds e
  more : (b.grow beat).unfinished = true → e.state = .buffer
  last : (b.grow beat).unfinished = false → e.state = .received

theorem nextBeat_grown (hproper : b.Proper) (hholds : b.Holds e) (hid : e.id = b.id) (hg : e.Gathers)
    (bus : Buffer UInt8) : Grown b (bus.read 0 64) (e.nextBeat bus) := by
  obtain ⟨hunfinished, hsize, hat⟩ := hholds.gathers hg
  have hlacks := hproper.lacks hunfinished
  have hflat := hproper.flatten_length
  have hcopy : (e.data.write e.dpartialAt (bus.read 0 64)) =
      (Buffer.const 0).write 0 (b.grow (bus.read 0 64)).beats.flatten := by
    have happend := Buffer.write_append (Buffer.const (0 : UInt8)) 0 b.beats.flatten (bus.read 0 64)
    rw [Nat.zero_add, hflat] at happend
    rw [hholds.data, hat, happend]
    simp [Burst.grow]
  by_cases hmore : 64 < e.size - e.dpartialAt
  · have hgrows : (b.grow (bus.read 0 64)).unfinished = true := by
      rw [Burst.grow_unfinished]
      exact decide_eq_true (by omega)
    have hbeat : e.nextBeat bus = { e with
        data := e.data.write e.dpartialAt (bus.read 0 64), dpartialAt := e.dpartialAt + 64 } := if_pos hmore
    rw [hbeat]
    refine ⟨hid, hg.1, ⟨.inl hg.1, hholds.afutag, hcopy, fun _ => ⟨hgrows, hsize, ?_⟩⟩, fun _ => hg.2, fun hdone => ?_⟩
    · have hnext : e.dpartialAt + 64 = 64 * (b.grow (bus.read 0 64)).beats.length := by
        rw [Burst.grow_length]
        omega
      exact hnext
    · rw [hgrows] at hdone
      cases hdone
  · have hrest : e.size - e.dpartialAt = 64 := by omega
    have hdone : (b.grow (bus.read 0 64)).unfinished = false := by
      rw [Burst.grow_unfinished]
      exact decide_eq_false (by omega)
    have hbeat : e.nextBeat bus = { e with
        data := e.data.write e.dpartialAt (bus.read 0 64), state := .received } := by
      unfold CmdEvent.nextBeat
      rw [if_neg hmore, hrest]
    rw [hbeat]
    refine ⟨hid, hg.1, ⟨.inl hg.1, hholds.afutag, hcopy, fun hg' => nomatch hg'.2⟩, fun hmore' => ?_, fun _ => rfl⟩
    rw [hdone] at hmore'
    cases hmore'

/-- The next beat of the burst in progress. -/
theorem Allotted.next {bs : List Burst} (hs : s.Wf) (h : Allotted (b :: bs) s.list s.nextId) (he : e ∈ s.list)
    (hid : e.id = b.id) (hg : e.Gathers) (bus : Buffer UInt8) :
    Allotted (b.grow (bus.read 0 64) :: bs) (s.setEvent (e.nextBeat bus)).list s.nextId := by
  have hb : b ∈ b :: bs := List.mem_cons_self
  have hproper := h.proper b hb
  have hholds := h.own b hb e he hid
  have hunfinished := (hholds.gathers hg).1
  have hgrown := nextBeat_grown hproper hholds hid hg bus
  have hmem : ∀ {x : CmdEvent}, x ∈ (s.setEvent (e.nextBeat bus)).list ↔ x = e.nextBeat bus ∨ (x ∈ s.list ∧ x ≠ e) :=
    hs.mem_setEvent he (hgrown.id.trans hid.symm)
  have hothers : ∀ b' ∈ bs, b'.id ≠ b.id := by
    have hnodup := h.ids
    rw [List.map_cons, List.nodup_cons] at hnodup
    intro b' hb' heq
    exact hnodup.1 (List.mem_map.mpr ⟨b', hb', heq⟩)
  refine ⟨?_, h.ids, ?_, h.older, ?_, ?_, ?_⟩
  · intro b' hb'
    rcases List.mem_cons.mp hb' with rfl | hb'
    · exact h.fresh b hb
    · exact h.fresh b' (List.mem_cons_of_mem _ hb')
  · intro b' hb'
    rcases List.mem_cons.mp hb' with rfl | hb'
    · refine ⟨hproper.size, ?_, ?_⟩
      · rw [Burst.grow_length]
        exact hproper.lacks hunfinished
      · intro beat hbeat
        rcases List.mem_append.mp hbeat with hbeat | hbeat
        · exact hproper.beats beat hbeat
        · rw [List.mem_singleton.mp hbeat]
          exact Buffer.length_read bus 0 64
    · exact h.proper b' (List.mem_cons_of_mem _ hb')
  · intro b' hb' x hx hxb
    rcases List.mem_cons.mp hb' with rfl | hb'
    · rcases hmem.mp hx with rfl | ⟨hx, hne⟩
      · exact hgrown.holds
      · exact absurd (eq_of_key_eq hs.ids hx he (hxb.trans hid.symm)) hne
    · rcases hmem.mp hx with rfl | ⟨hx, -⟩
      · exact absurd (hxb.symm.trans hgrown.id) (hothers b' hb')
      · exact h.own b' (List.mem_cons_of_mem _ hb') x hx hxb
  · intro x hx hgx
    rcases hmem.mp hx with rfl | ⟨hx, hne⟩
    · exact ⟨_, List.mem_cons_self, hgrown.id.symm⟩
    · obtain ⟨b', hb', hb'x⟩ := h.known x hx hgx
      rcases List.mem_cons.mp hb' with rfl | hb'
      · exact absurd (eq_of_key_eq hs.ids hx he (hb'x.symm.trans hid.symm)) hne
      · exact ⟨b', List.mem_cons_of_mem _ hb', hb'x⟩
  · intro b' hb' hmore
    rcases List.mem_cons.mp hb' with rfl | hb'
    · exact ⟨_, hmem.mpr (.inl rfl), hgrown.id, hgrown.type, hgrown.more hmore⟩
    · rw [h.older b' hb'] at hmore
      cases hmore

end Allotted

/-! ## The invariant -/

structure BeatInv (r : BeatRun) : Prop where
  flag : r.engine.afuEvent.afuCdata.valid ≠ 0 ↔ r.ledger.beat.isSome = true
  bus : ∀ beat, r.ledger.beat = some beat → r.engine.afuEvent.afuCdata.bus.read 0 64 = beat
  placed : Allotted r.ledger.bursts r.engine.list r.engine.nextId

section Step

variable {r : BeatRun}

theorem BeatInv.assembled (hwf : r.engine.Wf) (h : BeatInv r) : Assembled r.ledger r.engine := by
  refine ⟨fun e he e' he' hg hg' => ?_, fun b hb e he hid => ?_, fun b hb => ⟨h.placed.present b hb, ?_⟩⟩
  · obtain ⟨b, hb, hid⟩ := h.placed.known e he hg
    obtain ⟨b', hb', hid'⟩ := h.placed.known e' he' hg'
    obtain ⟨bs, hbs⟩ := h.placed.newest hb ((h.placed.own b hb e he hid.symm).gathers hg).1
    obtain ⟨bs', hbs'⟩ := h.placed.newest hb' ((h.placed.own b' hb' e' he' hid'.symm).gathers hg').1
    have hsame : b = b' := (List.cons.inj (hbs.symm.trans hbs')).1
    exact eq_of_key_eq hwf.ids he he' (by rw [← hid, hsame, hid'])
  · have hholds := h.placed.own b hb e he hid
    exact ⟨hholds.afutag, hholds.data⟩
  · rintro ⟨e, he, hid, hg⟩
    exact ((h.placed.own b hb e he hid).gathers hg).1

/-- No write gathers just when no burst is in progress. -/
theorem BeatInv.expected (h : BeatInv r) : incomingDataExpected r.engine.list = r.ledger.gathering := by
  rw [Bool.eq_iff_iff, incomingDataExpected_iff, h.placed.gathering_iff]

theorem receives_same {a : Action} (hsame : (r.step a).ledger.bursts = r.ledger.bursts) : Receives r a := by
  intro b hb hfinished hbefore
  rw [hsame] at hb
  rw [hbefore b hb rfl] at hfinished
  cases hfinished

theorem step_other (h : BeatInv r) {a : Action} (hledger : (r.step a).ledger = r.ledger)
    (hl : LeavesBeats r.engine (r.engine.step a)) : BeatInv (r.step a) ∧ Receives r a := by
  have hcdata : (r.step a).engine.afuEvent.afuCdata = r.engine.afuEvent.afuCdata := hl.cdata
  refine ⟨⟨?_, ?_, ?_⟩, receives_same (by rw [hledger])⟩
  · rw [hcdata, hledger]
    exact h.flag
  · rw [hcdata, hledger]
    exact h.bus
  · rw [hledger]
    exact h.placed.leaves hl

theorem step_getAfuEvents (h : BeatInv r) (hrun : r.engine.halted = false) (socket : Socket)
    (hnone : r.ledger.beat = none) : BeatInv (r.step (.getAfuEvents socket)) ∧ Receives r (.getAfuEvents socket) := by
  have hdown : r.engine.afuEvent.afuCdata.valid = 0 := by
    have hflag := h.flag
    rw [hnone] at hflag
    simpa using hflag
  have hengine : (r.step (.getAfuEvents socket)).engine = getAfuEvents r.engine socket := by
    simp [BeatRun.step, Ocl.step, hrun, Ocl.act]
  have hledger : (r.step (.getAfuEvents socket)).ledger =
      { r.ledger with beat := r.engine.frameBeat socket } := by
    simp [BeatRun.step, BeatLedger.step, hrun]
  have hdata := tlxGetAfuEvents_data hdown socket
  refine ⟨⟨?_, ?_, ?_⟩, receives_same (by rw [hledger])⟩
  · rw [hengine, hledger]
    unfold getAfuEvents Ocl.frameBeat
    dsimp only
    rw [hdata]
    split_ifs with hframe
    · simp [hframe]
    · simp [hframe]
  · rw [hengine, hledger]
    intro beat hbeat
    unfold Ocl.frameBeat at hbeat
    dsimp only at hbeat
    split_ifs at hbeat
    exact Option.some.inj hbeat
  · rw [hengine, hledger]
    exact h.placed

theorem step_cmd_engine (hrun : r.engine.halted = false) (d : Draws) :
    (r.step (.cmd d)).engine = handleCmd r.engine d := by
  simp [BeatRun.step, Ocl.step, hrun, Ocl.act]

/-- A command that starts no burst: the beat beside it is still there afterwards. -/
theorem step_cmd_kept (h : BeatInv r) (hrun : r.engine.halted = false) (d : Draws)
    (hledger : (r.step (.cmd d)).ledger = r.ledger) (hnext : (handleCmd r.engine d).halted = false)
    (hgathering : r.ledger.beat.isSome = true → r.ledger.gathering = true)
    (hkeeps : r.ledger.beat.isSome = true → r.engine.afuEvent.afuCmd.valid ≠ 0 →
      r.engine.keepsBeat r.engine.afuEvent.afuCmd = true) : BeatInv (r.step (.cmd d)) := by
  have hengine := step_cmd_engine hrun d
  by_cases hvalid : r.engine.afuEvent.afuCmd.valid = 0
  · rw [handleCmd_none hvalid] at hengine
    have hsame : r.step (.cmd d) = r := by
      cases r
      exact congrArg₂ BeatRun.mk hengine hledger
    rw [hsame]
    exact h
  · have hparsed := handleCmd_parsed hvalid hnext (fun hflag => by
      rw [h.expected]
      exact hgathering (h.flag.mp hflag))
    rw [← hengine] at hparsed
    have hcdata := hparsed.cdata
    refine ⟨?_, ?_, ?_⟩
    · rw [hledger, hcdata]
      cases hbeat : r.ledger.beat.isSome with
      | false =>
          have hdown : ¬r.engine.afuEvent.afuCdata.valid ≠ 0 := by
            rw [h.flag, hbeat]
            nofun
          rw [decide_eq_false hdown, Bool.and_false]
          simp [Ocl.taken]
      | true =>
          rw [hkeeps hbeat hvalid, decide_eq_true (h.flag.mpr hbeat)]
          simp
    · rw [hledger, hcdata]
      intro beat hbeat
      rw [← h.bus beat hbeat]
      split_ifs
      · rfl
      · rfl
    · rw [hledger]
      rcases hparsed.added with ⟨hlist, hnextId⟩ | ⟨e, l₁, l₂, hlist, hlist', hid, hnot, hnextId⟩
      · rw [hlist, hnextId]
        exact h.placed
      · rw [hlist', hnextId]
        have hplaced := h.placed
        have hsplit : r.engine.list = l₁ ++ l₂ := hlist
        rw [hsplit] at hplaced
        exact hplaced.insert hid hnot

/-- The command that starts a burst. -/
theorem step_cmd_started (hwf : r.engine.Wf) (h : BeatInv r) (hrun : r.engine.halted = false) (d : Draws)
    {beat : List UInt8} (hbeat : r.ledger.beat = some beat) (hidle : r.ledger.gathering = false)
    (hstarts : r.engine.startsBurst = true) (hnext : (handleCmd r.engine d).halted = false) :
    BeatInv (r.step (.cmd d)) ∧ Receives r (.cmd d) := by
  have hengine := step_cmd_engine hrun d
  have hflag : r.engine.afuEvent.afuCdata.valid ≠ 0 := h.flag.mpr (by rw [hbeat]; rfl)
  obtain ⟨e, hstarted⟩ := handleCmd_started hstarts hnext hflag (by rw [h.expected, hidle])
  rw [← hengine] at hstarted
  have hsize : dlToSize r.engine.afuEvent.afuCmd.dl = 64 ∨ dlToSize r.engine.afuEvent.afuCmd.dl = 128 ∨
      dlToSize r.engine.afuEvent.afuCmd.dl = 256 := by
    simp only [Ocl.startsBurst, Bool.and_eq_true, decide_eq_true_eq] at hstarts
    exact aligned_dlToSize hstarts.1.2
  have hdata : e.data = (Buffer.const 0).write 0 beat := by
    rw [hstarted.data, ← h.bus beat hbeat]
    rfl
  have hlength : beat.length = 64 := by
    rw [← h.bus beat hbeat]
    exact Buffer.length_read _ 0 64
  have hdone : ∀ b ∈ r.ledger.bursts, b.unfinished = false := by
    intro b hb
    by_contra hmore
    obtain ⟨bs, hbs⟩ := h.placed.newest hb (by simpa using hmore)
    rw [BeatLedger.gathering, hbs] at hidle
    exact hmore hidle
  have hledger : (r.step (.cmd d)).ledger = { bursts := ⟨r.engine.nextId, r.engine.afuEvent.afuCmd.afutag,
      dlToSize r.engine.afuEvent.afuCmd.dl, [beat]⟩ :: r.ledger.bursts, beat := none } := by
    simp [BeatRun.step, BeatLedger.step, hrun, hbeat, hidle, BeatLedger.start, hstarts]
  obtain ⟨l₁, l₂, hlist, hlist'⟩ := hstarted.added
  have hsplit : r.engine.list = l₁ ++ l₂ := hlist
  refine ⟨⟨?_, ?_, ?_⟩, ?_⟩
  · rw [hledger, hstarted.cdata]
    simp [Ocl.taken]
  · rw [hledger]
    intro x hx
    cases hx
  · rw [hledger, hlist', hstarted.nextId]
    have hplaced := h.placed
    rw [hsplit] at hplaced
    refine hplaced.start (fun x hx => ?_) hdone hlength hsize hstarted.id hstarted.afutag hstarted.type hstarted.size
      hdata hstarted.long hstarted.short
    rw [← hsplit] at hx
    exact hwf.fresh x hx
  · intro b hb hfinished hbefore
    rw [hledger] at hb
    rcases List.mem_cons.mp hb with rfl | hb
    · refine ⟨e, ?_, hstarted.id, hstarted.type, hstarted.short ?_⟩
      · rw [hlist']
        exact mem_inserted.mpr (.inl rfl)
      · have hnot : ¬64 < dlToSize r.engine.afuEvent.afuCmd.dl := of_decide_eq_false hfinished
        rw [hstarted.size]
        exact Nat.not_lt.mp hnot
    · rw [hbefore b hb rfl] at hfinished
      cases hfinished

theorem step_cmd (hwf : r.engine.Wf) (h : BeatInv r) (hrun : r.engine.halted = false) (d : Draws)
    (hstream : r.InStream (.cmd d)) (hspares : r.Spares (.cmd d)) (hnext : (r.step (.cmd d)).engine.halted = false) :
    BeatInv (r.step (.cmd d)) ∧ Receives r (.cmd d) := by
  rw [step_cmd_engine hrun d] at hnext
  cases hbeat : r.ledger.beat with
  | none =>
      have hledger : (r.step (.cmd d)).ledger = r.ledger := by
        simp [BeatRun.step, BeatLedger.step, hrun, hbeat]
      have hnone : ¬r.ledger.beat.isSome = true := by simp [hbeat]
      exact ⟨step_cmd_kept h hrun d hledger hnext (fun hsome => absurd hsome hnone) (fun hsome => absurd hsome hnone),
        receives_same (by rw [hledger])⟩
  | some beat =>
      have hsome : r.ledger.beat.isSome = true := by simp [hbeat]
      cases hgathering : r.ledger.gathering with
      | true =>
          have hledger : (r.step (.cmd d)).ledger = r.ledger := by
            simp [BeatRun.step, BeatLedger.step, hrun, hbeat, hgathering]
          exact ⟨step_cmd_kept h hrun d hledger hnext (fun _ => hgathering) (fun _ => hspares hsome hgathering),
            receives_same (by rw [hledger])⟩
      | false => exact step_cmd_started hwf h hrun d hbeat hgathering (hstream hsome hgathering) hnext

theorem cmdDataRead_engine (hrun : r.engine.halted = false) :
    (r.step .cmdDataRead).engine = handleAfuTlxCmdDataRead r.engine := by
  simp [BeatRun.step, Ocl.step, hrun, Ocl.act]

theorem gathers_decide (e : CmdEvent) : (decide (e.type = .write) && decide (e.state = .buffer)) = true ↔ e.Gathers := by
  simp [CmdEvent.Gathers]

/-- With no beat on the bus, or no write to take it, nothing happens. -/
theorem step_cmdDataRead_idle (h : BeatInv r) (hrun : r.engine.halted = false)
    (hidle : r.ledger.beat = none ∨ r.ledger.gathering = false) : r.step .cmdDataRead = r := by
  have hengine : (r.step .cmdDataRead).engine = r.engine := by
    rw [cmdDataRead_engine hrun]
    unfold handleAfuTlxCmdDataRead
    split
    · rfl
    · rename_i e hfind
      obtain ⟨he, hp⟩ := find_mem hfind
      have hgathering := h.placed.gathering_iff.mpr ⟨e, he, (gathers_decide e).mp hp⟩
      rcases hidle with hnone | hidle
      · have hdown : ¬r.engine.afuEvent.afuCdata.valid ≠ 0 := by
          rw [h.flag, hnone]
          nofun
        unfold afuTlxReadCmdData
        rw [if_neg hdown]
      · rw [hidle] at hgathering
        cases hgathering
  have hledger : (r.step .cmdDataRead).ledger = r.ledger := by
    rcases hidle with hnone | hidle
    · simp [BeatRun.step, BeatLedger.step, hrun, hnone]
    · cases hbeat : r.ledger.beat with
      | none => simp [BeatRun.step, BeatLedger.step, hrun, hbeat]
      | some beat => simp [BeatRun.step, BeatLedger.step, hrun, hbeat, hidle]
  cases r
  exact congrArg₂ BeatRun.mk hengine hledger

/-- The write that gathers takes the beat. -/
theorem step_cmdDataRead_next (hwf : r.engine.Wf) (h : BeatInv r) (hrun : r.engine.halted = false)
    {beat : List UInt8} (hbeat : r.ledger.beat = some beat) (hgathering : r.ledger.gathering = true) :
    BeatInv (r.step .cmdDataRead) ∧ Receives r .cmdDataRead := by
  have hengine := cmdDataRead_engine hrun
  unfold handleAfuTlxCmdDataRead at hengine
  split at hengine
  · rename_i hnone
    obtain ⟨e, he, hg⟩ := h.placed.gathering_iff.mp hgathering
    exact absurd ((gathers_decide e).mpr hg) (List.find?_eq_none.mp hnone e he)
  · rename_i e hfind
    obtain ⟨he, hp⟩ := find_mem hfind
    have hg := (gathers_decide e).mp hp
    obtain ⟨b, hb, hid⟩ := h.placed.known e he hg
    have hholds := h.placed.own b hb e he hid.symm
    obtain ⟨bs, hbs⟩ := h.placed.newest hb (hholds.gathers hg).1
    have hflag : r.engine.afuEvent.afuCdata.valid ≠ 0 := h.flag.mpr (by rw [hbeat]; rfl)
    have hledger : (r.step .cmdDataRead).ledger = { bursts := b.grow beat :: bs, beat := none } := by
      simp [BeatRun.step, BeatLedger.step, hrun, hbeat, hgathering, BeatLedger.next, hbs, Burst.grow]
    have hplaced := h.placed
    rw [hbs] at hplaced
    have hnext := hplaced.next hwf he hid.symm hg r.engine.afuEvent.afuCdata.bus
    have hgrown := nextBeat_grown (h.placed.proper b hb) hholds hid.symm hg r.engine.afuEvent.afuCdata.bus
    unfold afuTlxReadCmdData at hengine
    rw [if_pos hflag] at hengine
    rw [h.bus beat hbeat] at hnext hgrown
    refine ⟨⟨?_, ?_, ?_⟩, ?_⟩
    · rw [hengine, hledger]
      simp [Ocl.setEvent]
    · rw [hledger]
      intro x hx
      cases hx
    · rw [hengine, hledger]
      exact hnext
    · intro b' hb' hfinished hbefore
      rw [hledger] at hb'
      rcases List.mem_cons.mp hb' with rfl | hb'
      · refine ⟨e.nextBeat r.engine.afuEvent.afuCdata.bus, ?_, hgrown.id, hgrown.type, hgrown.last hfinished⟩
        rw [hengine]
        exact (hwf.mem_setEvent he (hgrown.id.trans hid)).mpr (.inl rfl)
      · rw [hbefore b' (by rw [hbs]; exact List.mem_cons_of_mem _ hb') rfl] at hfinished
        cases hfinished

theorem step_cmdDataRead (hwf : r.engine.Wf) (h : BeatInv r) (hrun : r.engine.halted = false) :
    BeatInv (r.step .cmdDataRead) ∧ Receives r .cmdDataRead := by
  have hidle : r.ledger.beat = none ∨ r.ledger.gathering = false →
      BeatInv (r.step .cmdDataRead) ∧ Receives r .cmdDataRead := by
    intro hidle
    have hsame := step_cmdDataRead_idle h hrun hidle
    refine ⟨?_, receives_same (by rw [hsame])⟩
    rw [hsame]
    exact h
  cases hbeat : r.ledger.beat with
  | none => exact hidle (.inl hbeat)
  | some beat =>
      cases hgathering : r.ledger.gathering with
      | true => exact step_cmdDataRead_next hwf h hrun hbeat hgathering
      | false => exact hidle (.inr hgathering)

theorem ledger_kept (g : BeatLedger) (s : Ocl) {a : Action} (hget : ∀ socket, a ≠ .getAfuEvents socket)
    (hcmd : ∀ d, a ≠ .cmd d) (hread : a ≠ .cmdDataRead) : g.step s a = g := by
  unfold BeatLedger.step
  split
  · rfl
  · split
    · exact absurd rfl (hget _)
    · exact absurd rfl (hcmd _)
    · exact absurd rfl hread
    · rfl

/-- The step lemma. -/
theorem step_beats (hwf : r.engine.Wf) (h : BeatInv r) (hrun : r.engine.halted = false) {a : Action}
    (hstream : r.InStream a) (hspares : r.Spares a)
    (hget : ∀ socket, a = .getAfuEvents socket → r.ledger.beat = none) (hnext : (r.step a).engine.halted = false) :
    BeatInv (r.step a) ∧ Receives r a := by
  have hother : (∀ socket, a ≠ .getAfuEvents socket) → (∀ d, a ≠ .cmd d) → a ≠ .cmdDataRead →
      (∀ i, a = .settle i → ∀ c, r.engine.client i = some c → c.state = .none →
        ∀ e ∈ r.engine.list, e.Gathers → e.context ≠ c.context) → BeatInv (r.step a) ∧ Receives r a :=
    fun h₁ h₂ h₃ h₄ => step_other h (ledger_kept _ _ h₁ h₂ h₃) (step_leaves hwf a h₁ h₂ h₃ h₄)
  cases a with
  | getAfuEvents socket => exact step_getAfuEvents h hrun socket (hget socket rfl)
  | cmd d => exact step_cmd hwf h hrun d hstream hspares hnext
  | cmdDataRead => exact step_cmdDataRead hwf h hrun
  | settle i =>
      refine hother nofun nofun nofun (fun j hj => ?_)
      obtain rfl := Action.settle.inj hj
      exact hspares
  | _ => exact hother nofun nofun nofun nofun

end Step

end Ocse
