import Mathlib.Order.Monotone.Basic
import Ocse.EngineInv
import Ocse.Admitted
import Ocse.GetBytes

/-!
# The buffers that ocse copies into

A command is kept in an event with 256 bytes of data, an interrupt goes out through a buffer of 45 bytes and comes
in through one of 32, and the name that a client looks for is put into 25 bytes. Listed here are the copies that
each input leads to, with their places and lengths as the source computes them, and what an input must not be for
all of them to stay inside.
-/

namespace Ocse

/-- A copy of `len` bytes to the place `off` of a destination that has `room` bytes. -/
structure Copy where
  room : ℕ
  off : ℕ
  len : ℕ
  deriving DecidableEq, Repr

def Copy.Inside (k : Copy) : Prop := k.off + k.len ≤ k.room

instance (k : Copy) : Decidable k.Inside := inferInstanceAs (Decidable (_ ≤ _))

/-! ## Reading a socket -/

/-- What a read meets on its socket, call by call: what `bytes_ready` returns, and how many bytes have come since
the read began. Nobody else takes them. `turns` is how long the read is watched. -/
structure Arrivals where
  ready : ℕ → ℤ
  come : ℕ → ℕ
  come_mono : Monotone come
  turns : ℕ

/-- `recv` returns what has come and is not taken, up to what it is asked for. -/
def Arrivals.recv (w : Arrivals) (k taken asked : ℕ) : ℕ := min (w.come k - taken) asked

theorem Arrivals.recv_le (w : Arrivals) (k taken asked : ℕ) : w.recv k taken asked ≤ asked := Nat.min_le_right _ _

inductive Peeked
  | waiting
  | failed
  | whole (calls : ℕ)
  deriving DecidableEq, Repr

def Peeked.found : Peeked → Option Bool
  | .waiting => none
  | .failed => some false
  | .whole _ => some true

section Read

variable (w : Arrivals) (room size : ℕ)

/-- What the calls that peek return, and how the loop ends; `bytes` is what the last one has returned. -/
def peeks : ℕ → ℕ → ℕ → List ℕ × Peeked
  | 0, _, _ => ([], .waiting)
  | n + 1, k, bytes =>
    if bytes < size then
      if w.ready k ≤ 0 ∨ w.recv k 0 (size - bytes) = 0 then ([], .failed)
      else
        (w.recv k 0 (size - bytes) :: (peeks n (k + 1) (w.recv k 0 (size - bytes))).1,
          (peeks n (k + 1) (w.recv k 0 (size - bytes))).2)
    else ([], .whole k)

/-- The copies of the calls that read, and whether the loop has ended. Every call asks for `size` bytes. -/
def readCopies : ℕ → ℕ → ℕ → List Copy × Bool
  | 0, _, _ => ([], false)
  | n + 1, k, bytes =>
    if bytes < size then
      if w.recv k bytes size = 0 then ([], true)
      else
        (⟨room, bytes, w.recv k bytes size⟩ :: (readCopies n (k + 1) (bytes + w.recv k bytes size)).1,
          (readCopies n (k + 1) (bytes + w.recv k bytes size)).2)
    else ([], true)

/-- What the peeks of `get_bytes_silent` return. -/
def Arrivals.peeked : List ℕ := (peeks w size (w.turns + 2) 0 0).1

/-- The copies of `get_bytes_silent` to its destination, and whether it returns with the message. A peek puts
what it sees at the front. -/
def getCopies : List Copy × Option Bool :=
  let seen := (w.peeked size).map (fun got => (⟨room, 0, got⟩ : Copy))
  match (peeks w size (w.turns + 2) 0 0).2 with
  | .waiting => (seen, none)
  | .failed => (seen, some false)
  | .whole k =>
    let (copies, ended) := readCopies w room size (w.turns + 2) k 0
    (seen ++ copies, if ended then some true else none)

end Read

section Read

variable {w : Arrivals} {room size : ℕ}

/-- This is the loop of `getBytesSilent` on such a socket. -/
theorem peekLoop_eq (recv : ℕ → RecvFinds) {stream : List UInt8} (hcome : ∀ k, w.come k ≤ stream.length)
    (n k bytes : ℕ) : peekLoop ⟨w.ready, fun k => .upTo (w.come k), recv⟩ size stream n k bytes =
      (peeks w size n k bytes).2.found := by
  induction n generalizing k bytes with
  | zero => rfl
  | succ n ih =>
      have hask : ((size : ℤ) - bytes).toNat = size - bytes := by omega
      have hgot : min (min (w.come k) (size - bytes)) stream.length = w.recv k 0 (size - bytes) := by
        have hle := hcome k
        rw [Arrivals.recv]
        omega
      rw [peekLoop, peeks]
      by_cases hlt : bytes < size
      · rw [if_pos (by exact_mod_cast hlt), if_pos hlt]
        by_cases hready : w.ready k ≤ 0
        · rw [if_pos hready, if_pos (.inl hready)]
          rfl
        · rw [if_neg hready]
          dsimp only
          rw [hask, hgot]
          by_cases hnone : w.recv k 0 (size - bytes) = 0
          · rw [if_pos hnone, if_pos (.inr hnone)]
            rfl
          · rw [if_neg hnone, if_neg (not_or.mpr ⟨hready, hnone⟩)]
            exact ih (k + 1) _
      · rw [if_neg (by exact_mod_cast hlt), if_neg hlt]
        rfl

theorem peeks_le {n k bytes got : ℕ} (h : got ∈ (peeks w size n k bytes).1) : got ≤ size := by
  induction n generalizing k bytes with
  | zero => cases h
  | succ n ih =>
      rw [peeks] at h
      split_ifs at h
      · cases h
      · rcases List.mem_cons.mp h with rfl | h
        · exact (w.recv_le _ _ _).trans (Nat.sub_le _ _)
        · exact ih h
      · cases h

/-- A peek after one that has seen something does not ask for the whole message. -/
theorem peeks_lt {n k bytes got : ℕ} (hpos : 0 < bytes) (h : got ∈ (peeks w size n k bytes).1) : got < size := by
  induction n generalizing k bytes with
  | zero => cases h
  | succ n ih =>
      rw [peeks] at h
      split_ifs at h with hlt hends
      · cases h
      · rcases List.mem_cons.mp h with rfl | h
        · have hle := w.recv_le k 0 (size - bytes)
          omega
        · exact ih (Nat.pos_of_ne_zero (not_or.mp hends).2) h
      · cases h

theorem peeks_whole {n k bytes calls : ℕ} (hlt : bytes < size) (h : (peeks w size n k bytes).2 = .whole calls) :
    size ∈ (peeks w size n k bytes).1 ∧ size ≤ w.come calls := by
  induction n generalizing k bytes with
  | zero => cases h
  | succ n ih =>
      rw [peeks, if_pos hlt] at h ⊢
      split_ifs at h ⊢ with hends
      dsimp only at h ⊢
      by_cases hmore : w.recv k 0 (size - bytes) < size
      · obtain ⟨hmem, hcome⟩ := ih hmore h
        exact ⟨List.mem_cons_of_mem _ hmem, hcome⟩
      · have hle := w.recv_le k 0 (size - bytes)
        have hgot : w.recv k 0 (size - bytes) = size := by omega
        have hcome : size ≤ w.come k := by
          rw [Arrivals.recv] at hgot
          omega
        have hcalls : calls = k + 1 := by
          rw [hgot] at h
          cases n with
          | zero => cases h
          | succ n =>
              rw [peeks, if_neg (Nat.lt_irrefl _)] at h
              exact (Peeked.whole.inj h).symm
        rw [hgot, hcalls]
        exact ⟨List.mem_cons_self, hcome.trans (w.come_mono (Nat.le_succ k))⟩

/-- Only the first peek asks for the whole message, and when it gets it the loop ends. -/
theorem peeks_of_mem {n : ℕ} (hsize : 0 < size) (h : size ∈ (peeks w size (n + 2) 0 0).1) :
    (peeks w size (n + 2) 0 0).2 = .whole 1 := by
  rw [peeks, if_pos hsize] at h ⊢
  split_ifs at h ⊢ with hends
  · cases h
  · rcases List.mem_cons.mp h with hgot | hrest
    · rw [← hgot, peeks, if_neg (Nat.lt_irrefl _)]
    · exact absurd (peeks_lt (Nat.pos_of_ne_zero (not_or.mp hends).2) hrest) (Nat.lt_irrefl _)

/-- When the whole message has come, one call reads it. -/
theorem readCopies_whole {k : ℕ} (hcome : size ≤ w.come k) (n : ℕ) :
    readCopies w room size (n + 2) k 0 = (if size = 0 then [] else [⟨room, 0, size⟩], true) := by
  rw [readCopies]
  by_cases hzero : size = 0
  · rw [if_neg (by omega), if_pos hzero]
  · have hgot : w.recv k 0 size = size := by
      rw [Arrivals.recv]
      omega
    rw [hgot, if_pos (Nat.pos_of_ne_zero hzero), if_neg hzero, if_neg hzero, Nat.zero_add, readCopies,
      if_neg (Nat.lt_irrefl _)]

theorem getCopies_got_iff : (getCopies w room size).2 = some true ↔ size = 0 ∨ size ∈ w.peeked size := by
  rw [getCopies]
  constructor
  · intro h
    by_cases hzero : size = 0
    · exact .inl hzero
    · cases hend : (peeks w size (w.turns + 2) 0 0).2 with
      | waiting =>
          rw [hend] at h
          cases h
      | failed =>
          rw [hend] at h
          cases h
      | whole calls => exact .inr (peeks_whole (Nat.pos_of_ne_zero hzero) hend).1
  · intro h
    have hwhole : ∃ calls, (peeks w size (w.turns + 2) 0 0).2 = .whole calls ∧ size ≤ w.come calls := by
      rcases Nat.eq_zero_or_pos size with hzero | hpos
      · refine ⟨0, ?_, hzero.le.trans (Nat.zero_le _)⟩
        rw [hzero, peeks, if_neg (Nat.lt_irrefl _)]
      · have hmem := h.resolve_left (Nat.ne_of_gt hpos)
        have hend := peeks_of_mem hpos hmem
        exact ⟨1, hend, (peeks_whole hpos hend).2⟩
    obtain ⟨calls, hend, hcome⟩ := hwhole
    rw [hend]
    dsimp only
    rw [readCopies_whole hcome]
    rfl

theorem mem_getCopies {c : Copy} (h : c ∈ (getCopies w room size).1) :
    (∃ got ∈ w.peeked size, c = ⟨room, 0, got⟩) ∨ (c = ⟨room, 0, size⟩ ∧ size ∈ w.peeked size) := by
  rw [getCopies] at h
  have hseen : c ∈ (w.peeked size).map (fun got => (⟨room, 0, got⟩ : Copy)) →
      ∃ got ∈ w.peeked size, c = ⟨room, 0, got⟩ := by
    intro hc
    obtain ⟨got, hgot, rfl⟩ := List.mem_map.mp hc
    exact ⟨got, hgot, rfl⟩
  cases hend : (peeks w size (w.turns + 2) 0 0).2 with
  | waiting =>
      rw [hend] at h
      exact .inl (hseen h)
  | failed =>
      rw [hend] at h
      exact .inl (hseen h)
  | whole calls =>
      rw [hend] at h
      rcases List.mem_append.mp h with hc | hc
      · exact .inl (hseen hc)
      · right
        by_cases hzero : size = 0
        · rw [readCopies_whole (by omega), if_pos hzero] at hc
          cases hc
        · obtain ⟨hmem, hcome⟩ := peeks_whole (Nat.pos_of_ne_zero hzero) hend
          rw [readCopies_whole hcome, if_neg hzero] at hc
          exact ⟨List.mem_singleton.mp hc, hmem⟩

theorem getCopies_inside (hroom : size ≤ room) : ∀ c ∈ (getCopies w room size).1, c.Inside := by
  intro c hc
  rcases mem_getCopies hc with ⟨got, hgot, rfl⟩ | ⟨rfl, -⟩
  · have hle := peeks_le hgot
    change 0 + got ≤ room
    omega
  · change 0 + size ≤ room
    omega

end Read

/-! ## Names -/

/-- `_find` and `_find_nth` read a name of the length that the client has sent, and end it with a zero. -/
def nameCopies (nameLength : UInt8) (w : Arrivals) : List Copy :=
  (getCopies w 25 nameLength.toNat).1 ++
    if (getCopies w 25 nameLength.toNat).2 = some true then [⟨25, nameLength.toNat, 1⟩] else []

/-- A name that fits with its zero, or one of which too little is seen for harm. -/
def NameFits (nameLength : UInt8) (w : Arrivals) : Prop :=
  nameLength.toNat ≤ 24 ∨ ∀ got ∈ w.peeked nameLength.toNat, got ≤ 25 ∧ got < nameLength.toNat

theorem nameCopies_inside_iff (nameLength : UInt8) (w : Arrivals) :
    (∀ c ∈ nameCopies nameLength w, c.Inside) ↔ NameFits nameLength w := by
  unfold nameCopies NameFits
  generalize nameLength.toNat = size
  by_cases hshort : size ≤ 24
  · refine ⟨fun _ => .inl hshort, fun _ c hc => ?_⟩
    rcases List.mem_append.mp hc with hc | hc
    · exact getCopies_inside (by omega) c hc
    · split_ifs at hc
      · obtain rfl := List.mem_singleton.mp hc
        exact Nat.succ_le_succ hshort
      · cases hc
  · constructor
    · intro hinside
      right
      intro got hgot
      have hmem : (⟨25, 0, got⟩ : Copy) ∈ (getCopies w 25 size).1 := by
        have hseen := List.mem_map_of_mem (f := fun got => (⟨25, 0, got⟩ : Copy)) hgot
        rw [getCopies]
        split
        · exact hseen
        · exact hseen
        · exact List.mem_append_left _ hseen
      have hle : 0 + got ≤ 25 := hinside _ (List.mem_append_left _ hmem)
      refine ⟨by omega, Nat.lt_of_le_of_ne (peeks_le hgot) ?_⟩
      rintro rfl
      have hend : got + 1 ≤ 25 := by
        refine hinside ⟨25, got, 1⟩ (List.mem_append_right _ ?_)
        rw [if_pos (getCopies_got_iff.mpr (.inr hgot))]
        exact List.mem_singleton_self _
      omega
    · intro h c hc
      have hsmall := h.resolve_left hshort
      have hnot : size ∉ w.peeked size := fun hmem => absurd (hsmall size hmem).2 (Nat.lt_irrefl _)
      have hend : ¬(getCopies w 25 size).2 = some true := by
        rw [getCopies_got_iff]
        rintro (hzero | hmem)
        · omega
        · exact hnot hmem
      rw [if_neg hend, List.append_nil] at hc
      rcases mem_getCopies hc with ⟨got, hgot, rfl⟩ | ⟨-, hmem⟩
      · have hle := (hsmall got hgot).1
        change 0 + got ≤ 25
        omega
      · exact absurd hmem hnot

/-! ## Events -/

/-- Where one more beat of write data goes. -/
def CmdEvent.beatCopy (e : CmdEvent) : Copy :=
  if 64 < e.size - e.dpartialAt then ⟨256, e.dpartialAt, 64⟩ else ⟨256, e.dpartialAt, e.size - e.dpartialAt⟩

theorem CmdEvent.nextBeat_data (e : CmdEvent) (bus : Buffer UInt8) :
    (e.nextBeat bus).data = e.data.write e.beatCopy.off (bus.read 0 e.beatCopy.len) := by
  unfold CmdEvent.nextBeat CmdEvent.beatCopy
  split_ifs <;> rfl

def CmdType.reads : CmdType → Bool
  | .read | .amoRd | .amoRw => true
  | _ => false

/-- `_handle_mem_read` copies what the client has read when all of it has come. -/
def CmdEvent.memReadCopies (e : CmdEvent) (avail : List UInt8) : List Copy :=
  if e.type.reads ∧ e.size ≤ avail.length then [⟨256, e.offset, e.size⟩] else []

theorem CmdEvent.memReturn_data (e : CmdEvent) (avail : List UInt8) : (e.memReturn avail).1.data =
    if e.memReadCopies avail = [] then e.data else e.data.write e.offset (avail.take e.size) := by
  unfold CmdEvent.memReturn CmdEvent.memReadCopies handleMemRead
  by_cases hshort : avail.length < e.size
  · have hnot : ¬e.size ≤ avail.length := by omega
    cases htype : e.type <;> simp [CmdType.reads, hshort, hnot]
  · have hle : e.size ≤ avail.length := by omega
    cases htype : e.type <;> simp [CmdType.reads, hshort, hle]

/-! ## Interrupts -/

/-- The interrupt that `handle_interrupt` sends to its client. -/
def Ocl.passedOn (s : Ocl) (d : Draws) : Option CmdEvent :=
  (s.list.find? (fun e => (e.type = .interrupt || e.type = .wakeHostThrd) &&
    (e.state = .idle || e.state = .received))).filter
      (fun e => (s.getClient e).isSome && (injectInterrupt s.parms d e).isNone)

theorem handleInterrupt_trace (s : Ocl) (d : Draws) : (handleInterrupt s d).trace = s.trace ++
    (s.passedOn d).toList.flatMap
      (fun e => (s.getClient e).toList.map (fun c => Obs.sent c.id e.id (interruptMessage e))) := by
  unfold handleInterrupt Ocl.passedOn
  split
  · rename_i hfind
    rw [hfind]
    simp
  · rename_i e hfind
    rw [hfind]
    split
    · rename_i hc
      simp [hc]
    · rename_i c hc
      split
      · rename_i e' hinject
        simp [hc, hinject, Ocl.setEvent]
      · rename_i hinject
        simp [hc, hinject, Option.filter_some, Ocl.put, Ocl.record, Ocl.setEvent, Ocl.setClient]

/-- The message is put together from the event's fields. -/
def CmdEvent.messageCopies (e : CmdEvent) : List Copy :=
  [⟨45, 0, 1⟩, ⟨45, 1, 1⟩, ⟨45, 2, 8⟩] ++
    if e.command = afuCmdIntrpReqD then [⟨45, 10, 2⟩, ⟨45, 12, e.size⟩] else []

/-- `_handle_interrupt` of libocxl reads the size of the data into the buffer, and then the data. -/
def ddataCopies (message : List UInt8) (size data : Arrivals) : List Copy :=
  if message.head? = some ocseInterruptD then
    (getCopies size 32 2).1 ++
      if (getCopies size 32 2).2 = some true then
        (getCopies data 32 (loadLE ((Buffer.const 0).write 0 message) 10 2)).1
      else []
  else []

/-! ## Inputs -/

/-- What is done next: an action of the engine, or a name that a client looks for. `size` and `data` are what
libocxl meets when it reads the size and the data of an interrupt that the action passes on. -/
inductive OcseInput
  | engine (a : Action) (size data : Arrivals)
  | find (nameLength : UInt8) (name : Arrivals)
  | findNth (nameLength : UInt8) (name : Arrivals)

def Ocl.handle (s : Ocl) : OcseInput → Ocl
  | .engine a _ _ => s.step a
  | .find _ _ | .findNth _ _ => s

/-- The event that a client's answer is for. -/
def Ocl.answeredEvent (s : Ocl) (i : ℕ) : Option CmdEvent :=
  match s.client i with
  | none => none
  | some c => if c.state = .none then none else (s.memAccess c).filter (fun e => (s.getClient e).isSome)

/-- The copies of an action. The beat that comes with a command is listed when the command leaves it on the bus,
too. -/
def Ocl.actCopies (s : Ocl) (size data : Arrivals) : Action → List Copy
  | .cmd _ => if s.afuEvent.afuCmd.valid ≠ 0 ∧ s.afuEvent.afuCdata.valid ≠ 0 then [⟨256, 0, 64⟩] else []
  | .cmdDataRead =>
      match s.list.find? (fun e => e.type = .write && e.state = .buffer) with
      | none => []
      | some e => if s.afuEvent.afuCdata.valid ≠ 0 then [e.beatCopy] else []
  | .interrupt d =>
      match s.passedOn d with
      | none => []
      | some e => e.messageCopies ++ if d.put then ddataCopies (interruptMessage e) size data else []
  | .client i (.memSuccess avail) =>
      match s.answeredEvent i with
      | none => []
      | some e => e.memReadCopies avail
  | _ => []

def Ocl.copies (s : Ocl) : OcseInput → List Copy
  | .engine a size data => if s.halted then [] else s.actCopies size data a
  | .find nameLength name | .findNth nameLength name => nameCopies nameLength name

def CopiesInside (s : Ocl) (x : OcseInput) : Prop := ∀ c ∈ s.copies x, c.Inside

instance (s : Ocl) (x : OcseInput) : Decidable (CopiesInside s x) :=
  inferInstanceAs (Decidable (∀ c ∈ s.copies x, c.Inside))

/-- The size of an interrupt whose operand length code is not one that `pl_to_size` knows. -/
def unknownSize : ℕ := 65535

/-- No interrupt with data of unknown size is passed on. -/
def Ocl.SizeKnown (s : Ocl) : Action → Prop
  | .interrupt d =>
      s.halted = true ∨ ∀ e ∈ s.passedOn d, e.command = afuCmdIntrpReqD → e.size ≠ unknownSize
  | _ => True

def Contained (s : Ocl) : OcseInput → Prop
  | .engine a _ _ => s.SizeKnown a
  | .find nameLength name | .findNth nameLength name => NameFits nameLength name

/-! ## What is known of an event -/

def CmdEvent.InBounds (e : CmdEvent) : Prop :=
  match e.type with
  | .read => e.offset + e.size ≤ 256
  | .write => e.size ≤ 256 ∧ e.dpartialAt ≤ 256
  | .amoRd | .amoRw => e.size ≤ 8
  | .interrupt => e.command = afuCmdIntrpReqD → e.size ≤ 32 ∨ e.size = unknownSize
  | .wakeHostThrd => e.command ≠ afuCmdIntrpReqD
  | _ => True

theorem aligned_offset {addr size : ℕ} (h : aligned addr size = .aligned) (hsize : IsTransferSize size) :
    addr % 64 + size ≤ 256 := by
  have hlt : addr % 64 < 64 := Nat.mod_lt _ (by decide)
  rcases hsize with hle | rfl | rfl | rfl
  · omega
  · omega
  · omega
  · have hmask : addr &&& 255 = addr % 256 := Nat.and_two_pow_sub_one_eq_mod addr 8
    have hzero : addr % 256 = 0 := by
      by_contra hne
      rw [aligned, if_neg (by decide), if_pos (hmask ▸ hne)] at h
      cases h
    omega

theorem CmdEvent.Admitted.inBounds {e : CmdEvent} {cmd : AfuTlxCmd} (h : e.Admitted cmd) : e.InBounds := by
  have hsize := h.size
  have hgathered := h.dpartialAt
  cases htype : e.type <;> simp only [CmdEvent.AdmittedSize, htype] at hsize <;>
    simp only [CmdEvent.InBounds, htype]
  case read => exact aligned_offset hsize.1 hsize.2
  case write =>
    have hle := aligned_offset hsize.1 hsize.2
    omega
  case interrupt =>
    intro hD
    rw [hsize.1] at hD
    rw [hsize.2 hD]
    rcases plToSize_or cmd.pl with hle | hunknown
    · left
      exact (Nat.mod_le _ _).trans hle
    · right
      rw [hunknown]
      rfl
  case wakeHostThrd => exact hsize
  case amoRd => omega
  case amoRw => omega

theorem CmdEvent.InBounds.of_failed {e : CmdEvent} (h : e.type = .failed) : e.InBounds := by
  rw [CmdEvent.InBounds, h]
  trivial

theorem CmdEvent.InBounds.congr {e e' : CmdEvent} (h : e.InBounds) (htype : e'.type = e.type)
    (haddr : e'.addr = e.addr) (hsize : e'.size = e.size) (hgathered : e'.dpartialAt = e.dpartialAt)
    (hcommand : e'.command = e.command) : e'.InBounds := by
  unfold CmdEvent.InBounds CmdEvent.offset at h ⊢
  rw [htype, haddr, hsize, hgathered, hcommand]
  exact h

theorem CmdEvent.InBounds.nextBeat {e : CmdEvent} (h : e.InBounds) (htype : e.type = .write) (bus : Buffer UInt8) :
    (e.nextBeat bus).InBounds := by
  unfold CmdEvent.nextBeat
  by_cases hmore : 64 < e.size - e.dpartialAt
  · rw [if_pos hmore]
    simp only [CmdEvent.InBounds, htype] at h ⊢
    omega
  · rw [if_neg hmore]
    exact h.congr rfl rfl rfl rfl rfl

theorem CmdEvent.InBounds.rewrite {e e' : CmdEvent} (h : e.InBounds) (hr : Rewrite e e') : e'.InBounds := by
  cases hr with
  | inject code hready hcode => exact .of_failed rfl
  | xlatePending hready => exact .of_failed rfl
  | intPending hraised htype => exact .of_failed rfl
  | readDone htype hstate => exact h.congr rfl rfl rfl rfl rfl
  | beat bus htype hstate => exact h.nextBeat htype bus
  | redraw resp hstate => exact h.congr rfl rfl rfl rfl rfl

theorem CmdEvent.InBounds.of_amo {e : CmdEvent} (htype : e.type = .amoRd ∨ e.type = .amoRw) (hsize : e.size ≤ 8) :
    e.InBounds := by
  rcases htype with htype | htype <;> simpa only [CmdEvent.InBounds, htype] using hsize

theorem CmdEvent.InBounds.memReturn {e : CmdEvent} (h : e.InBounds) (avail : List UInt8) :
    (e.memReturn avail).1.InBounds := by
  have hdata : ∀ state data, ({ e with state, data } : CmdEvent).InBounds := fun _ _ =>
    h.congr rfl rfl rfl rfl rfl
  have hcode : (if e.size = 4 then 2 else 3) ≤ 8 := by split <;> decide
  unfold CmdEvent.memReturn handleMemRead
  split
  · by_cases hshort : avail.length < e.size
    · rw [if_pos hshort]
      exact .of_failed rfl
    · rw [if_neg hshort]
      exact hdata _ _
  · rename_i htype
    by_cases hshort : avail.length < e.size
    · rw [if_pos hshort]
      exact .of_failed rfl
    · rw [if_neg hshort]
      exact .of_amo (.inl htype) hcode
  · rename_i htype
    by_cases hshort : avail.length < e.size
    · rw [if_pos hshort]
      exact .of_failed rfl
    · rw [if_neg hshort]
      exact .of_amo (.inr htype) hcode
  · exact hdata _ _
  · exact hdata _ _
  · exact hdata _ _

/-! ## Runs -/

def Ocl.InBounds (s : Ocl) : Prop := ∀ e ∈ s.list, e.InBounds

theorem mem_of_setEvent {s : Ocl} {e x : CmdEvent} (h : x ∈ (s.setEvent e).list) : x = e ∨ x ∈ s.list := by
  obtain ⟨y, hy, rfl⟩ := List.mem_map.mp h
  split_ifs
  · exact .inl rfl
  · exact .inr hy

theorem Ocl.InBounds.setEvent {s : Ocl} (hs : s.InBounds) {e : CmdEvent} (he : e.InBounds) :
    (s.setEvent e).InBounds := by
  intro x hx
  rcases mem_of_setEvent hx with rfl | hold
  · exact he
  · exact hs x hold

theorem Ocl.InBounds.freeEvent {s : Ocl} (hs : s.InBounds) (e : CmdEvent) : (s.freeEvent e).InBounds :=
  fun x hx => hs x (List.mem_of_mem_filter hx)

theorem Ocl.InBounds.same {s s' s'' : Ocl} (hs : s.InBounds) (h : SameEngine s' s'') (hlist : s'.list = s.list) :
    s''.InBounds := by
  unfold Ocl.InBounds
  rw [h.list, hlist]
  exact hs

theorem Ocl.InBounds.terminate {s : Ocl} (hs : s.InBounds) (c : Client) : (terminateEvents s c).InBounds := by
  intro x hx
  obtain ⟨e, he, rfl⟩ := List.mem_map.mp hx
  split_ifs
  · exact (hs e he).congr rfl rfl rfl rfl rfl
  · exact hs e he

theorem CmdEvent.InBounds.prepare {e : CmdEvent} (h : e.InBounds) (cl : ℕ) : (e.prepare cl).InBounds := by
  rw [CmdEvent.prepare_eq]
  exact h.congr rfl rfl rfl rfl rfl

theorem CmdEvent.InBounds.backUp {e : CmdEvent} (h : e.InBounds) (cl : ℕ) : (e.backUp cl).InBounds := by
  unfold CmdEvent.backUp
  split_ifs
  · exact h.congr rfl rfl rfl rfl rfl
  · exact h

theorem Ocl.InBounds.handleCmd {s : Ocl} (hs : s.InBounds) (d : Draws) : (handleCmd s d).InBounds := by
  intro e he
  rcases mem_handleCmd he with hold | ⟨cmd, hnew⟩
  · exact hs e hold
  · exact hnew.inBounds

theorem step_inBounds {s : Ocl} (hs : s.InBounds) (a : Action) : (s.step a).InBounds := by
  cases step_effect s a with
  | quiet h => exact hs.same h rfl
  | ignore cmd d ha hoffers hassign htag h => exact hs.same h rfl
  | assign cmd d ha hoffers i c hop hfind hc h => exact hs.same h rfl
  | add cmd d ha hoffers e c l₁ l₂ hop hfind hc hfresh hnew hlist hlist' hclient hnextId htrace hparms hmax =>
    subst ha
    unfold Ocl.step
    split_ifs
    · exact hs
    · exact hs.handleCmd d
  | rewrite e e' he hc hr h => exact (hs.setEvent ((hs e he).rewrite hr)).same h rfl
  | ask e c c' bytes he hc hready hbytes hc' h =>
    have hasked : ({ e with state := e.askedState } : CmdEvent).InBounds := (hs e he).congr rfl rfl rfl rfl rfl
    exact (hs.setEvent hasked).same h rfl
  | raise e c c' he hc hraised hc' h =>
    have hdone : ({ e with state := .done } : CmdEvent).InBounds := (hs e he).congr rfl rfl rfl rfl rfl
    exact (hs.setEvent hdone).same h rfl
  | respond e e' he hresp hc he' h =>
    have hprepared := (hs e he).prepare s.parms.hostClSize
    have he'_bounds : e'.InBounds := by
      rcases he' with ⟨-, rfl⟩ | ⟨-, rfl, -⟩
      · exact hprepared.congr rfl rfl rfl rfl rfl
      · exact hprepared
    exact (hs.setEvent he'_bounds).same h rfl
  | finish e he hstate hc hlast h => exact (hs.freeEvent e).same h rfl
  | refuse e he hresp hc h => exact (hs.setEvent (((hs e he).prepare _).backUp _)).same h rfl
  | post e resp he hstate hc h => exact (hs.freeEvent e).same h rfl
  | answer i input ha e e' c ans he hc hstate hmem he' h =>
    have he'_bounds : e'.InBounds := by
      rcases he' with ⟨-, -, rfl⟩ | ⟨avail, -, hreturn⟩
      · exact .of_failed rfl
      · rw [show e' = (e.memReturn avail).1 from congrArg Prod.fst hreturn]
        exact (hs e he).memReturn avail
    exact (hs.setEvent he'_bounds).same h rfl
  | client i c c' hc hid hmem hstate h => exact hs.same h rfl
  | terminate i ha c hc hstate h => exact (hs.terminate c).same h rfl
  | clear i ha c hc hstate hidle h => exact hs.same h rfl
  | associate bdf i hi hc hlist hnextId hclient htrace hparms hmax =>
    intro e he
    rw [hlist] at he
    exact hs e he

theorem handle_inBounds (s : Ocl) (x : OcseInput) (hs : s.InBounds) : (s.handle x).InBounds := by
  cases x with
  | engine a size data => exact step_inBounds hs a
  | find nameLength name => exact hs
  | findNth nameLength name => exact hs

/-! ## The copies of one input -/

theorem CmdEvent.InBounds.beatCopy {e : CmdEvent} (h : e.InBounds) (htype : e.type = .write) :
    e.beatCopy.Inside := by
  simp only [CmdEvent.InBounds, htype] at h
  unfold CmdEvent.beatCopy Copy.Inside
  split_ifs
  · dsimp only
    omega
  · dsimp only
    omega

theorem CmdEvent.InBounds.memReadCopies {e : CmdEvent} (h : e.InBounds) (avail : List UInt8) :
    ∀ c ∈ e.memReadCopies avail, c.Inside := by
  intro c hc
  unfold CmdEvent.memReadCopies at hc
  split_ifs at hc with hreads
  · obtain rfl := List.mem_singleton.mp hc
    have hoffset : e.offset < 64 := Nat.mod_lt _ (by decide)
    have hsum : e.offset + e.size ≤ 256 := by
      have hread := hreads.1
      cases htype : e.type <;> simp only [htype, CmdType.reads, Bool.false_eq_true] at hread <;>
        simp only [CmdEvent.InBounds, htype] at h <;> omega
    exact hsum
  · cases hc

/-- libocxl reads the size that ocse has put into the message. -/
theorem loadLE_interruptMessage {e : CmdEvent} (hD : e.command = afuCmdIntrpReqD) :
    loadLE ((Buffer.const 0).write 0 (interruptMessage e)) 10 2 = e.size % 2 ^ 16 := by
  have hmessage : ∃ opcode, interruptMessage e = opcode :: e.cmdFlag ::
      (leBytes 8 e.addr ++ (leBytes 2 e.size ++ e.data.read e.offset e.size)) :=
    ⟨if e.type = .wakeHostThrd then ocseWakeHostThread else ocseInterruptD, by simp [interruptMessage, hD]⟩
  obtain ⟨opcode, hmessage⟩ := hmessage
  have hholds := (Buffer.const 0).holds_write 0 (interruptMessage e)
  rw [hmessage] at hholds ⊢
  rw [Buffer.holds_cons, Buffer.holds_cons, Buffer.holds_append, Buffer.holds_append, length_leBytes] at hholds
  exact loadLE_of_holds _ 10 2 e.size hholds.2.2.2.1

theorem ddataCopies_inside {e : CmdEvent} (hsize : e.command = afuCmdIntrpReqD → e.size ≤ 32)
    (size data : Arrivals) : ∀ c ∈ ddataCopies (interruptMessage e) size data, c.Inside := by
  intro c hc
  unfold ddataCopies at hc
  split_ifs at hc with hhead hgot
  · have hD : e.command = afuCmdIntrpReqD := by
      by_contra hne
      simp only [interruptMessage, if_neg hne, List.cons_append, List.head?_cons, Option.some.injEq] at hhead
      split_ifs at hhead
      · exact absurd hhead (by decide)
      · exact absurd hhead (by decide)
    rw [loadLE_interruptMessage hD] at hc
    rcases List.mem_append.mp hc with hc | hc
    · exact getCopies_inside (by decide) c hc
    · exact getCopies_inside ((Nat.mod_le _ _).trans (hsize hD)) c hc
  · rw [List.append_nil] at hc
    exact getCopies_inside (by decide) c hc
  · cases hc

theorem CmdEvent.messageCopies_inside_iff (e : CmdEvent) :
    (∀ c ∈ e.messageCopies, c.Inside) ↔ (e.command = afuCmdIntrpReqD → e.size ≤ 33) := by
  unfold CmdEvent.messageCopies
  by_cases hD : e.command = afuCmdIntrpReqD
  · simp [hD, Copy.Inside]
    omega
  · simp [hD, Copy.Inside]

theorem mem_of_passedOn {s : Ocl} {d : Draws} {e : CmdEvent} (h : s.passedOn d = some e) :
    e ∈ s.list ∧ (e.type = .interrupt ∨ e.type = .wakeHostThrd) := by
  obtain ⟨hfind, -⟩ := Option.filter_eq_some_iff.mp h
  obtain ⟨he, hp⟩ := find_mem hfind
  simp only [Bool.and_eq_true, Bool.or_eq_true, decide_eq_true_eq] at hp
  exact ⟨he, hp.1⟩

theorem CmdEvent.InBounds.size_le_iff {e : CmdEvent} (h : e.InBounds)
    (htype : e.type = .interrupt ∨ e.type = .wakeHostThrd) {n : ℕ} (hn : 32 ≤ n) (hlt : n < unknownSize) :
    (e.command = afuCmdIntrpReqD → e.size ≤ n) ↔ (e.command = afuCmdIntrpReqD → e.size ≠ unknownSize) := by
  rcases htype with htype | htype <;> simp only [CmdEvent.InBounds, htype] at h
  · constructor
    · intro hsize hD hunknown
      have hle := hsize hD
      omega
    · intro hsize hD
      have hle := (h hD).resolve_right (hsize hD)
      omega
  · constructor
    · intro _ hD
      exact absurd hD h
    · intro _ hD
      exact absurd hD h

theorem interrupt_inside_iff {s : Ocl} (hs : s.InBounds) (d : Draws) (size data : Arrivals) :
    (∀ c ∈ s.actCopies size data (.interrupt d), c.Inside) ↔
      ∀ e ∈ s.passedOn d, e.command = afuCmdIntrpReqD → e.size ≠ unknownSize := by
  rw [Ocl.actCopies]
  cases hpassed : s.passedOn d with
  | none => simp
  | some e =>
    obtain ⟨he, htype⟩ := mem_of_passedOn hpassed
    have hbounds := hs e he
    have hsmall := hbounds.size_le_iff htype (Nat.le_refl 32) (by decide)
    have hmessage := e.messageCopies_inside_iff.trans (hbounds.size_le_iff htype (by decide) (by decide))
    constructor
    · rintro hinside _ ⟨⟩
      exact hmessage.mp (fun c hc => hinside c (List.mem_append_left _ hc))
    · intro hknown c hc
      have hknown := hknown e rfl
      rcases List.mem_append.mp hc with hc | hc
      · exact hmessage.mpr hknown c hc
      · split_ifs at hc
        · exact ddataCopies_inside (hsmall.mpr hknown) size data c hc
        · cases hc

/-- In an engine whose events are in bounds, the copies of an input are inside just when it is contained. -/
theorem copiesInside_step_iff (s : Ocl) (x : OcseInput) (hs : s.InBounds) : CopiesInside s x ↔ Contained s x := by
  have hquiet : ∀ {copies : List Copy}, copies = [] → ((∀ c ∈ copies, c.Inside) ↔ True) := by
    rintro _ rfl
    simp
  cases x with
  | find nameLength name => exact nameCopies_inside_iff nameLength name
  | findNth nameLength name => exact nameCopies_inside_iff nameLength name
  | engine a size data =>
    change (∀ c ∈ (if s.halted = true then [] else s.actCopies size data a), c.Inside) ↔ _
    by_cases hhalted : s.halted = true
    · rw [if_pos hhalted]
      refine ⟨fun _ => ?_, fun _ c hc => by cases hc⟩
      change s.SizeKnown a
      unfold Ocl.SizeKnown
      split
      · exact .inl hhalted
      · trivial
    · rw [if_neg hhalted]
      cases a with
      | interrupt d =>
        rw [interrupt_inside_iff hs]
        exact (or_iff_right hhalted).symm
      | cmd d =>
        refine ⟨fun _ => trivial, fun _ c hc => ?_⟩
        rw [Ocl.actCopies] at hc
        split_ifs at hc
        · obtain rfl := List.mem_singleton.mp hc
          decide
        · cases hc
      | cmdDataRead =>
        refine ⟨fun _ => trivial, fun _ c hc => ?_⟩
        rw [Ocl.actCopies] at hc
        split at hc
        · cases hc
        · rename_i e hfind
          obtain ⟨he, hp⟩ := find_mem hfind
          have htype : e.type = .write := by simp_all
          split_ifs at hc
          · obtain rfl := List.mem_singleton.mp hc
            exact (hs e he).beatCopy htype
          · cases hc
      | client i input =>
        refine ⟨fun _ => trivial, fun _ c hc => ?_⟩
        cases input with
        | memSuccess avail =>
          rw [Ocl.actCopies] at hc
          split at hc
          · cases hc
          · rename_i e hanswered
            have he : e ∈ s.list := by
              unfold Ocl.answeredEvent at hanswered
              split at hanswered
              · cases hanswered
              · split_ifs at hanswered
                exact (memAccess_eq_some (Option.filter_eq_some_iff.mp hanswered).1).1
            exact (hs e he).memReadCopies avail c hc
        | _ => cases hc
      | _ => exact hquiet rfl

/-- In every run from the start, all copies stay inside exactly when no interrupt of unknown size is passed on
and no name is too long. -/
theorem copiesInside_iff (parms : Parms) (maxClients : ℕ) (afuEvent : AfuEvent) (inputs : List OcseInput) :
    Along Ocl.handle CopiesInside (Ocl.init parms maxClients afuEvent) inputs ↔
      Along Ocl.handle Contained (Ocl.init parms maxClients afuEvent) inputs :=
  along_congr Ocl.InBounds handle_inBounds copiesInside_step_iff (fun e he => by cases he) inputs

/-- All that is asked for has come at once. -/
def Arrivals.atOnce : Arrivals := ⟨fun _ => 1, fun _ => 64, monotone_const, 0⟩

/-- An interrupt with data whose operand length code is 6. -/
def unknownInterrupt : AfuEvent :=
  { sampleAfu with
    afuCmd := { tlxEventReset.afuCmd with valid := 1, opcode := afuCmdIntrpReqD, afutag := 5, pl := 6 } }

/-- 65535 bytes of data are copied into the message. -/
theorem copiesInside_unknownSize :
    ¬Along Ocl.handle CopiesInside (Ocl.init (Parms.quiet 64 (.inl rfl)) 1 unknownInterrupt)
      ([.associate 0, .cmd .quiet, .interrupt .quiet].map (fun a => OcseInput.engine a .atOnce .atOnce)) := by
  decide +kernel

/-- So does a client that looks for a name of 25 bytes. -/
example : ¬Along Ocl.handle CopiesInside (Ocl.init (Parms.quiet 64 (.inl rfl)) 1 sampleAfu) [.find 25 .atOnce] := by
  decide +kernel

end Ocse
