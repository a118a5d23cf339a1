import Ocse.Lib.Run
import Mathlib.Data.Int.Notation
import Mathlib.Data.List.Nodup
import Mathlib.Data.List.Perm.Subperm
import Mathlib.Data.List.ReduceOption

/-!
# The events of an AFU

The thread of `_psl_loop` queues translation faults and interrupts, one of each type at most, and writes a byte to
a pipe for each; `ocxl_afu_event_check` takes the first event off and reads a byte. The index of the new event is
used for the result of the write as well, and `errno` is looked at whether the write failed or not.
-/

namespace Ocse

inductive OcxlEventType
  | irq | translationFault
deriving DecidableEq, Repr

/-- The members that are not set are 0. -/
inductive OcxlEvent
  | irq (irq : UInt16) (handle : UInt64) (count : UInt64)
  | translationFault (addr : UInt64) (dsisr : UInt64)
deriving DecidableEq, Repr

def OcxlEvent.type : OcxlEvent → OcxlEventType
  | .irq _ _ _ => .irq
  | .translationFault _ _ => .translationFault

/-- A node of the list of the interrupts that were allocated. -/
structure OcxlIrq where
  irq : UInt16
  id : UInt64
deriving DecidableEq, Repr

/-- What `write` answers for one byte: 1, 0 or -1. -/
inductive PipeWrite
  | wrote
  | nothing
  | failed (errno : Int32)
deriving DecidableEq, Repr

def eventQueueMax : ℕ := 3

def eintr : Int32 := 4

/-- `pipe` holds the bytes that are not read yet. -/
structure EventQueue where
  events : List (Option OcxlEvent)
  pipe : List OcxlEventType
deriving DecidableEq, Repr

/-- What a call has done: what it returns unless it waits on, and the events it has put in and taken out. -/
structure EventStep where
  queue : EventQueue
  ret : Option ℤ
  inserted : Option OcxlEvent
  delivered : Option OcxlEvent
deriving DecidableEq, Repr

/-- The index of the first entry that is not set, from `i` on, unless there is an event of the type before it;
no result at the end of the array. -/
def findSlot (type : OcxlEventType) : ℕ → List (Option OcxlEvent) → Option (Option ℕ)
  | _, [] => none
  | i, none :: _ => some (some i)
  | i, some event :: events => if event.type = type then some none else findSlot type (i + 1) events

/-- No entry outside of the array. -/
def eventAt (events : List (Option OcxlEvent)) (i : ℤ) : Option (Option OcxlEvent) :=
  if i < 0 then none else events[i.toNat]?

/-- The loop around `write`, with what it returns and the pipe behind it. No result for an index outside of the
array, and none while the loop goes on. -/
def writeType (events : List (Option OcxlEvent)) :
    ℤ → Int32 → List PipeWrite → List OcxlEventType → Option (ℤ × List OcxlEventType)
  | _, _, [], _ => none
  | i, errno, w :: ws, pipe =>
    match eventAt events i with
    | none => none
    -- the address is null, and `write` fails with `EFAULT`
    | some none => some (-1, pipe)
    | some (some event) =>
      match w with
      | .wrote =>
        if errno = eintr then writeType events 1 errno ws (pipe ++ [event.type])
        else some (1, pipe ++ [event.type])
      | .nothing => writeType events 0 errno ws pipe
      | .failed errno => if errno = eintr then writeType events (-1) errno ws pipe else some (-1, pipe)

namespace EventQueue

def enqueue (q : EventQueue) (event : OcxlEvent) (errno : Int32) (ws : List PipeWrite) : Option EventStep :=
  match findSlot event.type 0 q.events with
  | none => none
  | some none => some ⟨q, some 0, none, none⟩
  | some (some i) => do
    let events := q.events.set i (some event)
    let (ret, pipe) ← writeType events i errno ws q.pipe
    some ⟨⟨events, pipe⟩, some ret, some event, none⟩

def handleDsi (q : EventQueue) (addr : UInt64) (errno : Int32) (ws : List PipeWrite) : Option EventStep :=
  q.enqueue (.translationFault (addr &&& 0xfffffffffffff000) 0x4000000040000000) errno ws

/-- From the search for the interrupt on; `OCXL_NO_IRQ` if there is none. -/
def handleInterrupt (q : EventQueue) (irqs : List OcxlIrq) (addr : UInt64) (errno : Int32) (ws : List PipeWrite) :
    Option EventStep :=
  match irqs.find? (fun irq => irq.id = addr) with
  | none => some ⟨q, some (-4), none, none⟩
  | some irq => q.enqueue (.irq irq.irq addr 1) errno ws

/-- A turn of the loop that waits for an event, and what follows it. The result of a read that fails is -1 as a
`uint16_t`; there is none for an AFU that is closed with no event queued, where the event is copied from null,
and none while the read waits for a byte. -/
def eventCheck (q : EventQueue) (opened readFails : Bool) : Option EventStep :=
  match q.events with
  | [] => none
  | none :: _ => if opened then some ⟨q, none, none, none⟩ else none
  | some event :: events =>
    let events := events ++ [none]
    if readFails then some ⟨⟨events, q.pipe⟩, some 65535, none, some event⟩
    else
      match q.pipe with
      | [] => none
      | _ :: pipe => some ⟨⟨events, pipe⟩, some 1, none, some event⟩

end EventQueue

/-- A call, with `errno` before it and what `write` and `read` answer. -/
inductive EventOp
  | fault (addr : UInt64) (errno : Int32) (ws : List PipeWrite)
  | interrupt (irqs : List OcxlIrq) (addr : UInt64) (errno : Int32) (ws : List PipeWrite)
  | check (opened readFails : Bool)
deriving DecidableEq, Repr

def EventOp.exec (q : EventQueue) : EventOp → Option EventStep
  | .fault addr errno ws => q.handleDsi addr errno ws
  | .interrupt irqs addr errno ws => q.handleInterrupt irqs addr errno ws
  | .check opened readFails => q.eventCheck opened readFails

/-- A queue with the events that were put in and taken out of it, and what every call that put one in returned
and how many bytes it wrote. -/
structure EventRun where
  queue : EventQueue
  inserted : List OcxlEvent
  delivered : List OcxlEvent
  enqueued : List (Option ℤ × ℕ)
deriving DecidableEq, Repr

namespace EventRun

def start : EventRun := ⟨⟨List.replicate eventQueueMax none, []⟩, [], [], []⟩

def add (r : EventRun) (s : EventStep) : EventRun where
  queue := s.queue
  inserted := r.inserted ++ s.inserted.toList
  delivered := r.delivered ++ s.delivered.toList
  enqueued := r.enqueued ++ s.inserted.toList.map (fun _ => (s.ret, s.queue.pipe.length - r.queue.pipe.length))

/-- Nothing follows a call that does not end. -/
def next (r : Option EventRun) (op : EventOp) : Option EventRun := do
  let r ← r
  let s ← op.exec r.queue
  some (r.add s)

end EventRun

/-- The array with these events at its front and nothing behind them. -/
def slots (queued : List OcxlEvent) : List (Option OcxlEvent) :=
  queued.map some ++ List.replicate (eventQueueMax - queued.length) none

/-- The events of the run, with those that are queued. -/
structure EventRun.Holds (r : EventRun) (queued : List OcxlEvent) : Prop where
  compact : r.queue.events = slots queued
  bounded : queued.length ≤ eventQueueMax
  types : (queued.map OcxlEvent.type).Nodup
  inOrder : r.inserted = r.delivered ++ queued
  bytes : r.queue.pipe.length = queued.length
  oneWrite : ∀ e ∈ r.enqueued, e = (some 1, 1)

def Orderly (r : Option EventRun) : Prop := ∃ run queued, r = some run ∧ run.Holds queued

/-- One byte is written in the end, and no attempt before fails. -/
def Writes (ws : List PipeWrite) : Prop := ∃ n rest, ws = List.replicate n .nothing ++ .wrote :: rest

def EventOp.Meets (q : EventQueue) : EventOp → Prop
  | .fault _ errno ws => findSlot .translationFault 0 q.events ≠ some none → errno ≠ eintr ∧ Writes ws
  | .interrupt irqs addr errno ws => (∃ irq ∈ irqs, irq.id = addr) → findSlot .irq 0 q.events ≠ some none →
    errno ≠ eintr ∧ Writes ws
  | .check opened readFails => if q.events.head? = some none then opened = true else readFails = false

/-! ## The array -/

theorem reduceOption_slots (queued : List OcxlEvent) : (slots queued).reduceOption = queued := by
  rw [slots, List.reduceOption_append, List.reduceOption_replicate_none, List.append_nil, List.reduceOption,
    List.filterMap_map]
  exact List.filterMap_some

theorem slots_injective {queued queued' : List OcxlEvent} (h : slots queued = slots queued') :
    queued = queued' := by
  rw [← reduceOption_slots queued, h, reduceOption_slots]

theorem length_le_two {types : List OcxlEventType} (h : types.Nodup) : types.length ≤ 2 := by
  have hsub : types ⊆ [.irq, .translationFault] := by
    intro type _
    cases type <;> decide
  exact (List.subperm_of_subset h hsub).length_le

theorem findSlot_append (type : OcxlEventType) (i : ℕ) (queued : List OcxlEvent)
    (rest : List (Option OcxlEvent)) :
    findSlot type i (queued.map some ++ none :: rest) =
      if type ∈ queued.map OcxlEvent.type then some none else some (some (i + queued.length)) := by
  induction queued generalizing i with
  | nil => rfl
  | cons event queued ih =>
    rw [List.map_cons, List.cons_append, findSlot, ih, List.map_cons]
    by_cases htype : event.type = type
    · rw [if_pos htype, if_pos (by rw [htype]; exact List.mem_cons_self)]
    · have hiff : type ∈ event.type :: queued.map OcxlEvent.type ↔ type ∈ queued.map OcxlEvent.type := by
        rw [List.mem_cons, or_iff_right (Ne.symm htype)]
      rw [if_neg htype, if_congr hiff rfl rfl, List.length_cons, Nat.add_assoc, Nat.add_comm 1]

section Slots

variable {queued : List OcxlEvent}

theorem slots_of_lt (h : queued.length < eventQueueMax) :
    slots queued = queued.map some ++ none :: List.replicate (eventQueueMax - queued.length - 1) none := by
  rw [slots]
  obtain ⟨k, hk⟩ : ∃ k, eventQueueMax - queued.length = k + 1 := ⟨eventQueueMax - queued.length - 1, by omega⟩
  rw [hk]
  rfl

theorem findSlot_slots (h : queued.length < eventQueueMax) (type : OcxlEventType) :
    findSlot type 0 (slots queued) =
      if type ∈ queued.map OcxlEvent.type then some none else some (some queued.length) := by
  rw [slots_of_lt h, findSlot_append, Nat.zero_add]

theorem set_slots (h : queued.length < eventQueueMax) (event : OcxlEvent) :
    (slots queued).set queued.length (some event) = slots (queued ++ [event]) := by
  have hlength : (queued.map some).length = queued.length := List.length_map some
  rw [slots_of_lt h, slots, List.set_append_right _ _ (Nat.le_of_eq hlength), hlength, Nat.sub_self, List.set_cons_zero,
    List.map_append, List.length_append, List.append_assoc]
  rfl

theorem eventAt_slots {i : ℕ} (h : i < queued.length) : ∃ event, eventAt (slots queued) i = some (some event) := by
  have hlength : i < (queued.map some).length := by rwa [List.length_map]
  refine ⟨queued[i], ?_⟩
  rw [eventAt, if_neg (by omega), Int.toNat_natCast, slots, List.getElem?_append_left hlength, List.getElem?_map,
    List.getElem?_eq_getElem h]
  rfl

theorem slots_shift (h : queued.length < eventQueueMax) :
    queued.map some ++ List.replicate (eventQueueMax - (queued.length + 1)) none ++ [none] = slots queued := by
  obtain ⟨k, hk⟩ : ∃ k, eventQueueMax - queued.length = k + 1 := ⟨eventQueueMax - queued.length - 1, by omega⟩
  rw [slots, hk, List.replicate_succ', ← List.append_assoc, ← Nat.sub_sub, hk]
  rfl

end Slots

/-! ## The loop around `write` -/

section Loop

variable {events : List (Option OcxlEvent)} {i : ℤ} {errno : Int32} {ws : List PipeWrite}
  {pipe pipe' : List OcxlEventType} {ret : ℤ}

/-- A byte was written if the result is 1. -/
theorem writeType_one (h : writeType events i errno ws pipe = some (1, pipe')) : pipe.length < pipe'.length := by
  induction ws generalizing i errno pipe with
  | nil => cases h
  | cons w ws ih =>
    rw [writeType] at h
    split at h
    · cases h
    · cases h
    · rename_i event _
      cases w with
      | wrote =>
        dsimp only at h
        split at h
        · have hmore := ih h
          rw [List.length_append] at hmore
          omega
        · obtain ⟨-, rfl⟩ := Prod.mk.inj (Option.some.inj h)
          rw [List.length_append]
          exact Nat.lt_succ_self _
      | nothing => exact ih h
      | failed errno =>
        dsimp only at h
        split at h
        · exact ih h
        · cases h

/-- The loop ends with its one byte only where nothing failed before and `errno` was not `EINTR`. -/
theorem writes_of_writeType (h : writeType events i errno ws pipe = some (1, pipe'))
    (hone : pipe'.length = pipe.length + 1) : errno ≠ eintr ∧ Writes ws := by
  induction ws generalizing i with
  | nil => cases h
  | cons w ws ih =>
    rw [writeType] at h
    split at h
    · cases h
    · cases h
    · rename_i event _
      cases w with
      | wrote =>
        dsimp only at h
        split at h
        · have hmore := writeType_one h
          rw [List.length_append, hone] at hmore
          exact absurd hmore (Nat.lt_irrefl _)
        · rename_i hne
          exact ⟨hne, 0, ws, rfl⟩
      | nothing =>
        obtain ⟨hne, n, rest, rfl⟩ := ih h
        exact ⟨hne, n + 1, rest, rfl⟩
      | failed errno' =>
        dsimp only at h
        split at h
        · -- the index is -1 now
          cases ws with
          | nil => cases h
          | cons w ws => cases h
        · cases h

theorem writeType_of_writes {queued : List OcxlEvent} {i : ℕ} (hi : i < queued.length) (hne : errno ≠ eintr)
    (hwrites : Writes ws) :
    ∃ type, writeType (slots queued) i errno ws pipe = some (1, pipe ++ [type]) := by
  obtain ⟨n, rest, rfl⟩ := hwrites
  induction n generalizing i with
  | zero =>
    obtain ⟨event, hevent⟩ := eventAt_slots hi
    refine ⟨event.type, ?_⟩
    rw [List.replicate_zero, List.nil_append, writeType, hevent]
    dsimp only
    rw [if_neg hne]
  | succ n ih =>
    obtain ⟨event, hevent⟩ := eventAt_slots hi
    rw [List.replicate_succ, List.cons_append, writeType, hevent]
    exact ih (i := 0) (by omega)

end Loop

/-! ## A call -/

namespace EventRun.Holds

variable {r : EventRun} {queued : List OcxlEvent}

theorem length_le_two (h : r.Holds queued) : queued.length ≤ 2 := by
  have hle := Ocse.length_le_two h.types
  rwa [List.length_map] at hle

theorem findSlot (h : r.Holds queued) (type : OcxlEventType) :
    findSlot type 0 r.queue.events =
      if type ∈ queued.map OcxlEvent.type then some none else some (some queued.length) := by
  rw [h.compact]
  exact findSlot_slots (Nat.lt_succ_of_le h.length_le_two) type

/-- A call that leaves the queue as it is. -/
theorem unchanged (h : r.Holds queued) (ret : Option ℤ) : (r.add ⟨r.queue, ret, none, none⟩).Holds queued where
  compact := h.compact
  bounded := h.bounded
  types := h.types
  inOrder := by
    change r.inserted ++ [] = r.delivered ++ [] ++ queued
    rw [List.append_nil, List.append_nil, h.inOrder]
  bytes := h.bytes
  oneWrite := by
    change ∀ e ∈ r.enqueued ++ [], e = (some 1, 1)
    rw [List.append_nil]
    exact h.oneWrite

theorem unique (h : r.Holds queued) {queued' : List OcxlEvent} (h' : r.Holds queued') : queued = queued' :=
  slots_injective (h.compact.symm.trans h'.compact)

/-- A call that queues an event keeps order just when it writes one byte and `errno` was not `EINTR`. -/
theorem enqueue_iff (h : r.Holds queued) (event : OcxlEvent) (errno : Int32) (ws : List PipeWrite) :
    (∃ s queued', r.queue.enqueue event errno ws = some s ∧ (r.add s).Holds queued') ↔
      (Ocse.findSlot event.type 0 r.queue.events ≠ some none → errno ≠ eintr ∧ Writes ws) := by
  have hlt : queued.length < eventQueueMax := Nat.lt_succ_of_le h.length_le_two
  rw [EventQueue.enqueue, h.findSlot]
  by_cases htype : event.type ∈ queued.map OcxlEvent.type
  · rw [if_pos htype]
    apply iff_of_true
    · exact ⟨_, queued, rfl, h.unchanged (some 0)⟩
    · intro hne
      exact absurd rfl hne
  · have hfree : (some (some queued.length) : Option (Option ℕ)) ≠ some none := by
      intro hnone
      cases hnone
    rw [if_neg htype, forall_prop_of_true hfree]
    dsimp only
    rw [h.compact, set_slots hlt]
    constructor
    · rintro ⟨s, queued', hstep, hholds⟩
      obtain ⟨⟨ret, pipe⟩, hwrite, hs⟩ := Option.bind_eq_some_iff.mp hstep
      obtain rfl := Option.some.inj hs
      have hone := hholds.oneWrite (some ret, pipe.length - r.queue.pipe.length)
        (List.mem_append_right _ List.mem_cons_self)
      obtain ⟨hret, hbytes⟩ := Prod.mk.inj hone
      obtain rfl := Option.some.inj hret
      exact writes_of_writeType hwrite (by omega)
    · rintro ⟨hne, hwrites⟩
      have hi : queued.length < (queued ++ [event]).length := by
        rw [List.length_append]
        exact Nat.lt_succ_self _
      obtain ⟨type, hwrite⟩ : ∃ type, writeType (slots (queued ++ [event])) queued.length errno ws r.queue.pipe =
        some (1, r.queue.pipe ++ [type]) := writeType_of_writes hi hne hwrites
      refine ⟨_, queued ++ [event], by rw [hwrite]; rfl, ⟨rfl, ?_, ?_, ?_, ?_, ?_⟩⟩
      · rw [List.length_append]
        exact hlt
      · rw [List.map_append, List.map_singleton, List.nodup_append]
        refine ⟨h.types, List.nodup_singleton _, ?_⟩
        rintro t ht t' ht' rfl
        obtain rfl := List.mem_singleton.mp ht'
        exact htype ht
      · change r.inserted ++ [event] = r.delivered ++ [] ++ (queued ++ [event])
        rw [List.append_nil, ← List.append_assoc, h.inOrder]
      · change (r.queue.pipe ++ [type]).length = (queued ++ [event]).length
        rw [List.length_append, List.length_append, h.bytes]
        rfl
      · intro e he
        rcases List.mem_append.mp he with he | he
        · exact h.oneWrite e he
        · obtain rfl := List.mem_singleton.mp he
          have hlength : (r.queue.pipe ++ [type]).length - r.queue.pipe.length = 1 := by
            rw [List.length_append, Nat.add_sub_cancel_left]
            rfl
          exact congrArg (Prod.mk (some 1)) hlength

/-- The first event is taken off, with its byte. -/
theorem deliver {event : OcxlEvent} {type : OcxlEventType} {pipe : List OcxlEventType}
    (h : r.Holds (event :: queued)) (hpipe : r.queue.pipe = type :: pipe) :
    (r.add ⟨⟨slots queued, pipe⟩, some 1, none, some event⟩).Holds queued where
  compact := rfl
  bounded := Nat.le_of_succ_le h.bounded
  types := (List.nodup_cons.mp h.types).2
  inOrder := by
    change r.inserted ++ [] = r.delivered ++ [event] ++ queued
    rw [List.append_nil, List.append_assoc, List.singleton_append, h.inOrder]
  bytes := by
    have hbytes := h.bytes
    rw [hpipe] at hbytes
    exact Nat.succ.inj hbytes
  oneWrite := by
    change ∀ e ∈ r.enqueued ++ [], e = (some 1, 1)
    rw [List.append_nil]
    exact h.oneWrite

/-- A check keeps order just when it does not read null, and its read does not fail. -/
theorem check_iff (h : r.Holds queued) (opened readFails : Bool) :
    (∃ s queued', r.queue.eventCheck opened readFails = some s ∧ (r.add s).Holds queued') ↔
      if r.queue.events.head? = some none then opened = true else readFails = false := by
  cases queued with
  | nil =>
    have hcheck : r.queue.eventCheck opened readFails =
        if opened then some ⟨r.queue, none, none, none⟩ else none := by
      rw [EventQueue.eventCheck, h.compact]
      rfl
    have hhead : r.queue.events.head? = some none := by
      rw [h.compact]
      rfl
    rw [if_pos hhead, hcheck]
    cases opened with
    | true => exact iff_of_true ⟨_, [], rfl, h.unchanged none⟩ rfl
    | false =>
      apply iff_of_false _ Bool.false_ne_true
      rintro ⟨s, queued', hnone, -⟩
      cases hnone
  | cons event queued =>
    have hlt : queued.length < eventQueueMax := Nat.lt_of_succ_le h.bounded
    obtain ⟨type, pipe, hpipe⟩ : ∃ type pipe, r.queue.pipe = type :: pipe := by
      apply List.exists_cons_of_length_pos
      rw [h.bytes]
      exact Nat.succ_pos _
    have hcheck : r.queue.eventCheck opened readFails =
        if readFails then some ⟨⟨slots queued, r.queue.pipe⟩, some 65535, none, some event⟩
        else some ⟨⟨slots queued, pipe⟩, some 1, none, some event⟩ := by
      rw [EventQueue.eventCheck, h.compact, hpipe, ← slots_shift hlt]
      rfl
    have hhead : r.queue.events.head? ≠ some none := by
      rw [h.compact]
      intro hnone
      cases hnone
    rw [if_neg hhead, hcheck]
    cases readFails with
    | false => exact iff_of_true ⟨_, queued, rfl, h.deliver hpipe⟩ rfl
    | true =>
      apply iff_of_false _ Bool.true_eq_false.mp
      rintro ⟨s, queued', hstep, hholds⟩
      obtain rfl := Option.some.inj hstep
      obtain rfl : queued = queued' := slots_injective hholds.compact
      -- its byte is still in the pipe
      have hbytes : r.queue.pipe.length = queued.length := hholds.bytes
      rw [h.bytes, List.length_cons] at hbytes
      omega

end EventRun.Holds

theorem EventRun.Holds.meets_iff {r : EventRun} {queued : List OcxlEvent} (h : r.Holds queued) (op : EventOp) :
    Orderly (EventRun.next (some r) op) ↔ op.Meets r.queue := by
  have hnext : Orderly (EventRun.next (some r) op) ↔
      ∃ s queued', op.exec r.queue = some s ∧ (r.add s).Holds queued' := by
    constructor
    · rintro ⟨run, queued', hrun, hholds⟩
      obtain ⟨s, hs, hadd⟩ := Option.bind_eq_some_iff.mp hrun
      obtain rfl := Option.some.inj hadd
      exact ⟨s, queued', hs, hholds⟩
    · rintro ⟨s, queued', hs, hholds⟩
      exact ⟨r.add s, queued', Option.bind_eq_some_iff.mpr ⟨s, hs, rfl⟩, hholds⟩
  rw [hnext]
  cases op with
  | fault addr errno ws => exact h.enqueue_iff _ errno ws
  | interrupt irqs addr errno ws =>
    cases hirq : irqs.find? (fun irq => irq.id = addr) with
    | none =>
      apply iff_of_true
      · refine ⟨_, queued, ?_, h.unchanged (some (-4))⟩
        rw [EventOp.exec, EventQueue.handleInterrupt, hirq]
      · rintro ⟨irq, hmem, hid⟩
        exact absurd (decide_eq_true hid) (List.find?_eq_none.mp hirq irq hmem)
    | some irq =>
      have hid : irq.id = addr := by simpa using List.find?_some hirq
      have hexists : ∃ irq ∈ irqs, irq.id = addr := ⟨irq, List.mem_of_find?_eq_some hirq, hid⟩
      rw [EventOp.exec, EventQueue.handleInterrupt, hirq, EventOp.Meets, forall_prop_of_true hexists]
      exact h.enqueue_iff _ errno ws
  | check opened readFails => exact h.check_iff opened readFails

theorem EventRun.holds_start : EventRun.start.Holds [] where
  compact := rfl
  bounded := Nat.zero_le _
  types := List.nodup_nil
  inOrder := rfl
  bytes := rfl
  oneWrite := by
    intro e he
    cases he

/-- The queue and the pipe stay in order through a run just when every call that queues an event finds `errno`
other than `EINTR` and has its byte written before an attempt fails, and every check finds an event to read, or
the AFU open, and its read does not fail. -/
theorem eventQueue_orderly_iff (ops : List EventOp) :
    (∀ pre, pre <+: ops → Orderly (pre.foldl EventRun.next (some EventRun.start))) ↔
      Along EventRun.next (fun r op => ∀ run, r = some run → op.Meets run.queue) (some EventRun.start) ops := by
  apply along_iff_prefixes Orderly
  · rintro r op ⟨run, queued, rfl, hholds⟩
    rw [hholds.meets_iff]
    constructor
    · intro h run' hrun
      obtain rfl := Option.some.inj hrun
      exact h
    · intro h
      exact h run rfl
  · exact ⟨EventRun.start, [], rfl, EventRun.holds_start⟩

/-- With `EINTR` from before, the byte of a second event is written as often as the pipe takes it. -/
theorem writeType_eintr {events : List (Option OcxlEvent)} {event : OcxlEvent}
    (hevent : eventAt events 1 = some (some event)) (n : ℕ) (pipe : List OcxlEventType) :
    writeType events 1 eintr (List.replicate n .wrote) pipe = none := by
  induction n generalizing pipe with
  | zero => rfl
  | succ n ih =>
    rw [List.replicate_succ, writeType, hevent]
    dsimp only
    rw [if_pos rfl]
    exact ih _

/-- A translation fault behind an interrupt, with `EINTR` left in `errno`: three bytes are written and the call
still writes. -/
theorem fault_writesOn :
    let interrupt : EventOp := .interrupt [⟨3, 0x1000⟩] 0x1000 0 [.wrote]
    let fault : EventOp := .fault 0x2000 eintr [.wrote, .wrote, .wrote]
    let events := slots [.irq 3 0x1000 1, .translationFault 0x2000 0x4000000040000000]
    ([interrupt].foldl EventRun.next (some EventRun.start)).map (fun r => r.queue) =
        some ⟨slots [.irq 3 0x1000 1], [.irq]⟩ ∧
      writeType events 1 eintr [.wrote, .wrote, .wrote] [.irq] = none ∧
      ¬ ∀ pre, pre <+: [interrupt, fault] → Orderly (pre.foldl EventRun.next (some EventRun.start)) := by
  refine ⟨by decide, writeType_eintr rfl 3 _, ?_⟩
  intro h
  obtain ⟨run, queued, hrun, -⟩ := h _ (List.prefix_refl _)
  cases hrun

end Ocse
