import Ocse.DriverFifo

/-!
# The bad data indication

The bit that goes out beside a line is the one in the event when the line is driven, not the one that came with
the line. The FIFOs run as in `runOps`, each statement with the bit that the event holds for its bus at the time.
-/

namespace Ocse

def AfuEvent.bdi (e : AfuEvent) : Bus → UInt8
  | .resp => e.tlxRespData.bdi &&& 0x1
  | .cmd => e.tlxCmdData.bdi &&& 0x1

def FifoOp.bus : FifoOp → Bus
  | .request b _ => b
  | .append b _ _ => b
  | .drive b => b

/-- The statement puts a line on the bus. -/
def FifoOp.puts (q : DataFifos) (b : Bus) : FifoOp → Bool
  | .drive b' => b' = b ∧ (q.fifo b).rdCnt > 0
  | .request _ _ => false
  | .append _ _ _ => false

/-- The line that the statement takes from the event, with the bit that came with it. -/
def FifoOp.arrivals (b : Bus) (bdi : UInt8) : FifoOp → List (Line × UInt8)
  | .append b' line _ => if b' = b then [(line, bdi)] else []
  | .request _ _ => []
  | .drive _ => []

/-- `bits` lists what has been put on the bad data signal of a bus beside its lines, `arrived` the lines that
came in. -/
structure BdiFifos where
  fifos : DataFifos
  bits : Bus → List UInt8
  arrived : Bus → List (Line × UInt8)

namespace BdiFifos

def empty : BdiFifos := ⟨.empty, fun _ => [], fun _ => []⟩

def exec (s : BdiFifos) (op : FifoOp × UInt8) : Option BdiFifos := do
  let fifos ← op.1.exec s.fifos
  some {
    fifos
    bits := fun b => if op.1.puts s.fifos b then s.bits b ++ [op.2] else s.bits b
    arrived := fun b => s.arrived b ++ op.1.arrivals b op.2 }

/-- Nothing follows a statement that has no result. -/
def next (s : Option BdiFifos) (op : FifoOp × UInt8) : Option BdiFifos := s.bind (fun s => s.exec op)

end BdiFifos

/-- The statements of a run of cycles, with the bits. -/
def bdiOps : AfuEvent → List Cycle → List (FifoOp × UInt8)
  | _, [] => []
  | e, c :: cs =>
    let event := tlxControl e c.calls
    (event.fifoOps c).map (fun op => (op, event.bdi op.bus)) ++ bdiOps event.driven cs

theorem map_fst_bdiOps (e : AfuEvent) (cs : List Cycle) : (bdiOps e cs).map Prod.fst = runOps e cs := by
  induction cs generalizing e with
  | nil => rfl
  | cons c cs ih =>
    rw [bdiOps, runOps, List.map_append, ih, List.map_map]
    congr 1
    exact List.map_id _

/-- Every line that was driven is beside the bit that it came with. -/
def BdiKept (s : Option BdiFifos) : Prop :=
  ∀ s', s = some s' → ∀ b, (s'.fifos.fifo b).bus.zip (s'.bits b) <+: s'.arrived b

/-- When a line is driven, the data that was received last on its bus has the bit that the line came with. -/
def Undisturbed (s : Option BdiFifos) (op : FifoOp × UInt8) : Prop :=
  ∀ s', s = some s' → ∀ b, op.1.puts s'.fifos b = true →
    ∀ a, (s'.arrived b)[(s'.bits b).length]? = some a → a.2 = op.2

/-! ## One statement -/

namespace DataFifos

variable {q q' : DataFifos} {done : List FifoOp} {cells : Bus → List (ℕ × Line)}

/-- What a statement with a result does to the lists and to the data buses. -/
theorem Queues.exec (h : q.Queues done cells) {op : FifoOp} (hexec : op.exec q = some q') :
    ∃ cells', q'.Queues (done ++ [op]) cells' ∧
      ∀ b, (op.puts q b = false ∧ (q'.fifo b).bus = (q.fifo b).bus) ∨
        (op.puts q b = true ∧ ∃ line, (cells b).head?.map Prod.snd = some line ∧
          (q'.fifo b).bus = (q.fifo b).bus ++ [line]) := by
  cases op with
  | request b rdCnt =>
    obtain ⟨q₁, cells', hexec', hqueues⟩ := h.request b rdCnt
    obtain rfl := Option.some.inj (hexec'.symm.trans hexec)
    refine ⟨cells', hqueues, fun b' => .inl ⟨rfl, ?_⟩⟩
    obtain rfl := Option.some.inj hexec
    by_cases hb : b' = b
    · subst hb
      rw [fifo_set]
    · rw [fifo_set_of_ne _ _ _ _ hb]
  | append b line malloc =>
    obtain ⟨q₁, cells', hexec', hqueues⟩ := h.append b line malloc
    obtain rfl := Option.some.inj (hexec'.symm.trans hexec)
    refine ⟨cells', hqueues, fun b' => .inl ⟨rfl, ?_⟩⟩
    obtain ⟨⟨heap, list⟩, -, hset⟩ := Option.bind_eq_some_iff.mp hexec
    obtain rfl := Option.some.inj hset
    by_cases hb : b' = b
    · subst hb
      rw [fifo_set]
    · rw [fifo_set_of_ne _ _ _ _ hb]
  | drive b =>
    by_cases hcnt : (q.fifo b).rdCnt > 0
    · cases hcells : cells b with
      | nil =>
        have hhead := (h.lists b).head_eq_none_iff.mpr hcells
        simp only [FifoOp.exec, if_pos hcnt, LinkedQueue.pop, hhead, Option.bind_eq_bind, Option.bind_none] at hexec
        cases hexec
      | cons c rest =>
        obtain ⟨heap, list, hexec', hqueues⟩ := h.drive_line b hcnt hcells
        obtain rfl := Option.some.inj (hexec'.symm.trans hexec)
        refine ⟨_, hqueues, ?_⟩
        intro b'
        by_cases hb : b' = b
        · subst hb
          refine .inr ⟨decide_eq_true ⟨rfl, hcnt⟩, c.2, by rw [hcells]; rfl, ?_⟩
          rw [fifo_set]
        · refine .inl ⟨decide_eq_false (fun hputs => hb hputs.1.symm), ?_⟩
          rw [fifo_set_of_ne _ _ _ _ hb]
    · obtain ⟨hexec', hqueues⟩ := h.drive_idle b hcnt
      obtain rfl := Option.some.inj (hexec'.symm.trans hexec)
      refine ⟨cells, hqueues, fun b' => .inl ⟨decide_eq_false ?_, rfl⟩⟩
      rintro ⟨rfl, hcnt'⟩
      exact hcnt hcnt'

/-- There is no result only where a line is to be driven and none waits. -/
theorem Queues.exec_eq_none (h : q.Queues done cells) {op : FifoOp} (hexec : op.exec q = none) {b : Bus}
    (hputs : op.puts q b = true) : cells b = [] := by
  cases op with
  | request b' rdCnt => cases hputs
  | append b' line malloc => cases hputs
  | drive b' =>
    obtain ⟨rfl, hcnt⟩ := of_decide_eq_true hputs
    cases hcells : cells b' with
    | nil => rfl
    | cons c rest =>
      obtain ⟨heap, list, hexec', -⟩ := h.drive_line b' hcnt hcells
      rw [hexec] at hexec'
      cases hexec'

end DataFifos

/-- One more line goes out beside a bit: both are those of the next arrival. -/
theorem zip_concat_prefix_iff {bus rest : List Line} {bits : List UInt8} {arrived : List (Line × UInt8)}
    {line : Line} (hlength : bits.length = bus.length) (hlines : arrived.map Prod.fst = bus ++ line :: rest)
    (hkept : bus.zip bits <+: arrived) (bdi : UInt8) :
    (bus ++ [line]).zip (bits ++ [bdi]) <+: arrived ↔ ∀ a, arrived[bits.length]? = some a → a.2 = bdi := by
  obtain ⟨waiting, rfl⟩ := hkept
  rw [List.map_append, List.map_fst_zip (Nat.le_of_eq hlength.symm)] at hlines
  obtain ⟨⟨line', bdi'⟩, waiting, rfl⟩ : ∃ a waiting', waiting = a :: waiting' := by
    apply List.exists_cons_of_ne_nil
    rintro rfl
    exact absurd (List.append_cancel_left hlines) (List.cons_ne_nil _ _).symm
  obtain ⟨rfl, -⟩ := List.cons.inj (List.append_cancel_left hlines)
  have hzip : (bus.zip bits).length = bits.length := by
    rw [List.length_zip, hlength, Nat.min_self]
  rw [List.zip_append hlength.symm, List.prefix_append_right_inj, List.getElem?_append_right (Nat.le_of_eq hzip),
    hzip, Nat.sub_self]
  constructor
  · intro hprefix a ha
    obtain ⟨hhead, -⟩ := List.cons_prefix_cons.mp hprefix
    obtain rfl := Option.some.inj ha
    exact (Prod.mk.inj hhead).2.symm
  · intro h
    have hbdi : bdi' = bdi := h (line', bdi') rfl
    rw [hbdi]
    exact ⟨waiting, rfl⟩

namespace BdiFifos

/-- The state after the statements `done`: a bit for every line that was driven, and the lines that came in. -/
structure Sound (s : BdiFifos) (done : List FifoOp) (cells : Bus → List (ℕ × Line)) : Prop where
  queues : s.fifos.Queues done cells
  arrived : ∀ b, (s.arrived b).map Prod.fst = received b done
  bits : ∀ b, (s.bits b).length = (s.fifos.fifo b).bus.length

variable {s s' : BdiFifos} {done : List FifoOp} {cells : Bus → List (ℕ × Line)}

theorem sound_empty : empty.Sound [] (fun _ => []) where
  queues := DataFifos.queues_empty
  arrived _ := rfl
  bits b := by
    cases b <;> rfl

theorem map_fst_arrivals (b : Bus) (op : FifoOp) (bdi : UInt8) :
    (op.arrivals b bdi).map Prod.fst = received b [op] := by
  cases op with
  | request b' rdCnt => rfl
  | drive b' => rfl
  | append b' line malloc => by_cases hb : b' = b <;> simp [FifoOp.arrivals, received, hb]

theorem arrivals_of_puts {q : DataFifos} {b : Bus} {op : FifoOp} (hputs : op.puts q b = true) (bdi : UInt8) :
    op.arrivals b bdi = [] := by
  cases op with
  | request b' rdCnt => rfl
  | append b' line malloc => cases hputs
  | drive b' => rfl

/-- The lines that came in and were not driven wait, in their order. -/
theorem Sound.lines (h : s.Sound done cells) (b : Bus) :
    (s.arrived b).map Prod.fst = (s.fifos.fifo b).bus ++ (cells b).map Prod.snd :=
  (h.arrived b).trans (h.queues.inOrder b)

theorem Sound.step (h : s.Sound done cells) {op : FifoOp × UInt8} (hexec : s.exec op = some s') :
    ∃ cells', s'.Sound (done ++ [op.1]) cells' := by
  obtain ⟨q, hq, hs⟩ := Option.bind_eq_some_iff.mp hexec
  obtain rfl := Option.some.inj hs
  obtain ⟨cells', hqueues, hbus⟩ := h.queues.exec hq
  refine ⟨cells', hqueues, ?_, ?_⟩
  · intro b
    rw [List.map_append, h.arrived b, map_fst_arrivals, received_append]
  · intro b
    dsimp only
    rcases hbus b with ⟨hputs, hsame⟩ | ⟨hputs, line, -, hline⟩
    · rw [hputs, hsame, if_neg Bool.false_ne_true]
      exact h.bits b
    · rw [hputs, hline, if_pos rfl, List.length_append, List.length_append, h.bits b]
      rfl

/-- A statement keeps the bits with their lines just when it drives no line, or the data received last has the
bit of the line. -/
theorem Sound.kept_iff (h : s.Sound done cells) (hkept : BdiKept (some s)) (op : FifoOp × UInt8) :
    BdiKept (next (some s) op) ↔ Undisturbed (some s) op := by
  have hkept' := hkept s rfl
  change BdiKept (s.exec op) ↔ _
  cases hexec : op.1.exec s.fifos with
  | none =>
    have hnone : s.exec op = none := by
      rw [exec, hexec]
      rfl
    rw [hnone]
    apply iff_of_true
    · intro s' hs'
      cases hs'
    · intro s' hs' b hputs a ha
      obtain rfl := Option.some.inj hs'
      have hlines := congrArg List.length (h.lines b)
      rw [h.queues.exec_eq_none hexec hputs, List.length_append, List.length_map, ← h.bits b] at hlines
      obtain ⟨hlt, -⟩ := List.getElem?_eq_some_iff.mp ha
      exact absurd hlt (Nat.not_lt.mpr (Nat.le_of_eq hlines))
  | some q =>
    have hsome : s.exec op = some ⟨q, fun b => if op.1.puts s.fifos b then s.bits b ++ [op.2] else s.bits b,
        fun b => s.arrived b ++ op.1.arrivals b op.2⟩ := by
      rw [exec, hexec]
      rfl
    obtain ⟨cells', -, hbus⟩ := h.queues.exec hexec
    have hbuses : ∀ b, (q.fifo b).bus.zip (if op.1.puts s.fifos b then s.bits b ++ [op.2] else s.bits b) <+:
          s.arrived b ++ op.1.arrivals b op.2 ↔
        (op.1.puts s.fifos b = true → ∀ a, (s.arrived b)[(s.bits b).length]? = some a → a.2 = op.2) := by
      intro b
      rcases hbus b with ⟨hputs, hsame⟩ | ⟨hputs, line, hhead, hline⟩
      · rw [hputs, hsame, if_neg Bool.false_ne_true]
        apply iff_of_true
        · exact (hkept' b).trans (List.prefix_append _ _)
        · intro hfalse
          cases hfalse
      · obtain ⟨c, hc, rfl⟩ := Option.map_eq_some_iff.mp hhead
        obtain ⟨rest, hcells⟩ := List.head?_eq_some_iff.mp hc
        have hlines := h.lines b
        rw [hcells, List.map_cons] at hlines
        rw [hputs, hline, if_pos rfl, arrivals_of_puts hputs, List.append_nil, forall_prop_of_true rfl]
        exact zip_concat_prefix_iff (h.bits b) hlines (hkept' b) op.2
    rw [hsome]
    constructor
    · intro hnext s' hs' b hputs
      obtain rfl := Option.some.inj hs'
      exact (hbuses b).mp (hnext _ rfl b) hputs
    · intro hundisturbed s' hs' b
      obtain rfl := Option.some.inj hs'
      exact (hbuses b).mpr (hundisturbed s rfl b)

end BdiFifos

/-! ## Runs -/

namespace BdiFifos

/-- The lists are right in every state of a run. -/
theorem sound_run (ops : List (FifoOp × UInt8)) {s : BdiFifos} (hrun : ops.foldl next (some empty) = some s) :
    ∃ done cells, s.Sound done cells := by
  have hinv : ∀ s, ops.foldl next (some empty) = some s → ∃ done cells, s.Sound done cells := by
    apply foldl_invariant (fun r : Option BdiFifos => ∀ s, r = some s → ∃ done cells, s.Sound done cells)
    · intro r op hr s' hnext
      obtain ⟨s, hs, hexec⟩ := Option.bind_eq_some_iff.mp hnext
      obtain ⟨done, cells, hsound⟩ := hr s hs
      obtain ⟨cells', hsound'⟩ := hsound.step hexec
      exact ⟨_, cells', hsound'⟩
    · intro s hs
      obtain rfl := Option.some.inj hs
      exact ⟨[], _, sound_empty⟩
  exact hinv s hrun

/-- The FIFOs run as they do without the bits. -/
theorem fifos_run (ops : List (FifoOp × UInt8)) (s : BdiFifos) :
    (ops.foldl next (some s)).map BdiFifos.fifos = (ops.map Prod.fst).foldlM FifoOp.exec s.fifos := by
  induction ops generalizing s with
  | nil => rfl
  | cons op ops ih =>
    rw [List.foldl_cons, List.map_cons, List.foldlM_cons]
    change (ops.foldl next (s.exec op)).map _ = _
    cases hexec : op.1.exec s.fifos with
    | none =>
      have hnone : ∀ ops : List (FifoOp × UInt8), ops.foldl next none = none := by
        intro ops
        induction ops with
        | nil => rfl
        | cons op ops ih => exact ih
      rw [exec, hexec]
      exact congrArg (Option.map BdiFifos.fifos) (hnone ops)
    | some q =>
      rw [exec, hexec]
      exact ih _

end BdiFifos

/-- However data arrives and is asked for: the bits stay with their lines just when a line is never driven while
the data that was received last on its bus has another bit. -/
theorem bdi_kept_iff (e : AfuEvent) (cs : List Cycle) :
    (∀ done, done <+: bdiOps e cs → BdiKept (done.foldl BdiFifos.next (some .empty))) ↔
      Along BdiFifos.next Undisturbed (some .empty) (bdiOps e cs) := by
  let Inv : Option BdiFifos → Prop := fun r => (∀ s, r = some s → ∃ done cells, s.Sound done cells) ∧ BdiKept r
  have hstep : ∀ r op, Inv r → (Inv (BdiFifos.next r op) ↔ Undisturbed r op) := by
    rintro r op ⟨hsound, hkept⟩
    cases r with
    | none =>
      apply iff_of_true
      · refine ⟨?_, ?_⟩
        · intro s hs
          cases hs
        · intro s hs
          cases hs
      · intro s hs
        cases hs
    | some s =>
      obtain ⟨done, cells, hs⟩ := hsound s rfl
      rw [← hs.kept_iff hkept op]
      apply and_iff_right
      intro s' hexec
      obtain ⟨cells', hs'⟩ := hs.step hexec
      exact ⟨_, cells', hs'⟩
  have hempty : Inv (some .empty) := by
    refine ⟨?_, ?_⟩
    · intro s hs
      obtain rfl := Option.some.inj hs
      exact ⟨[], _, BdiFifos.sound_empty⟩
    · intro s hs b
      obtain rfl := Option.some.inj hs
      cases b <;> exact List.nil_prefix
  rw [← along_iff_prefixes Inv hstep hempty]
  constructor
  · intro h done hdone
    exact ⟨fun s hs => BdiFifos.sound_run done hs, h done hdone⟩
  · intro h done hdone
    exact (h done hdone).2

/-- A response with two lines and the bit set; the AFU reads a line. A response with the bit down arrives while the
AFU reads the other line. -/
def lateCycles : List Cycle :=
  let frame (tag dl bdi : UInt8) (data : List UInt8) : List UInt8 :=
    [0x46, 0, 0, 0, UInt8.ofNat data.length] ++ [1, 0, tag, 0, 0, dl, 0] ++ bdi :: data
  [⟨[.whole (frame 7 2 1 (List.replicate 128 0xAA))], 0, 0, 1, 1, .above⟩,
    ⟨[.whole (frame 8 1 0 (List.replicate 64 0xBB))], 0, 0, 1, 1, .above⟩]

theorem lateBdi_driven :
    ((bdiOps tlxEventReset lateCycles).foldl BdiFifos.next (some .empty)).map
        (fun s => (s.bits .resp, (s.arrived .resp).map Prod.snd)) = some ([1, 0], [1, 1, 0]) ∧
      ¬ ∀ done, done <+: bdiOps tlxEventReset lateCycles →
        BdiKept (done.foldl BdiFifos.next (some .empty)) := by
  have hrun : ((bdiOps tlxEventReset lateCycles).foldl BdiFifos.next (some .empty)).map
      (fun s => (s.bits .resp, (s.arrived .resp).map Prod.snd, (s.fifos.fifo .resp).bus.length)) =
        some ([1, 0], [1, 1, 0], 2) := by
    decide +kernel
  obtain ⟨s, hs, hstate⟩ := Option.map_eq_some_iff.mp hrun
  obtain ⟨hbits, hrest⟩ := Prod.mk.inj hstate
  obtain ⟨harrived, hlength⟩ := Prod.mk.inj hrest
  refine ⟨by rw [hs, Option.map_some, hbits, harrived], ?_⟩
  intro h
  have hkept := (h _ List.prefix_rfl s hs .resp).map Prod.snd
  rw [List.map_snd_zip (by rw [hbits, hlength]; exact Nat.le_refl 2), hbits, harrived] at hkept
  revert hkept
  decide

/-! ## The last arrival -/

section LastArrival

/-- The bit of a bus changes only when data is taken apart for it. -/
def PairedCycle (e : AfuEvent) (c : Cycle) : Prop :=
  ∀ b, (tlxControl e c.calls).bdi b ≠ e.bdi b → received b ((tlxControl e c.calls).newPktOps c.malloc) ≠ []

/-- The line that came in last on the bus came with the bit `x`. -/
def LastBdi (b : Bus) (x : UInt8) (s : Option BdiFifos) : Prop :=
  ∀ s', s = some s' → ∀ a ∈ (s'.arrived b).getLast?, a.2 = x

/-- When a line is driven, the line that came in last has its bit. -/
def UndisturbedArrivals (s : Option BdiFifos) (op : FifoOp × UInt8) : Prop :=
  ∀ s', s = some s' → ∀ b, op.1.puts s'.fifos b = true →
    ∀ a, (s'.arrived b)[(s'.bits b).length]? = some a → ∀ last ∈ (s'.arrived b).getLast?, a.2 = last.2

variable {b : Bus} {x : Bus → UInt8} {s : Option BdiFifos} {ops : List FifoOp}

/-- What a statement adds to the arrivals of a bus carries the bit of the bus. -/
theorem lastBdi_next {op : FifoOp} (h : op.arrivals b (x op.bus) = [] → LastBdi b (x b) s) :
    LastBdi b (x b) (BdiFifos.next s (op, x op.bus)) := by
  intro s' hs' a ha
  obtain ⟨s, rfl, hexec⟩ := Option.bind_eq_some_iff.mp hs'
  obtain ⟨q, -, hq⟩ := Option.bind_eq_some_iff.mp hexec
  obtain rfl := Option.some.inj hq
  change a ∈ (s.arrived b ++ op.arrivals b (x op.bus)).getLast? at ha
  by_cases harrivals : op.arrivals b (x op.bus) = []
  · rw [harrivals, List.append_nil] at ha
    exact h harrivals s rfl a ha
  · cases op with
    | request b' rdCnt => exact absurd rfl harrivals
    | drive b' => exact absurd rfl harrivals
    | append b' line malloc =>
      by_cases hb : b' = b
      · rw [FifoOp.arrivals, if_pos hb, List.getLast?_append] at ha
        obtain rfl := Option.some.inj ha
        exact congrArg x hb
      · exact absurd (if_neg hb) harrivals

theorem LastBdi.run (h : LastBdi b (x b) s) (ops : List FifoOp) :
    LastBdi b (x b) ((ops.map (fun op => (op, x op.bus))).foldl BdiFifos.next s) := by
  induction ops generalizing s with
  | nil => exact h
  | cons op ops ih => exact ih (lastBdi_next (fun _ => h))

theorem lastBdi_of_received (h : received b ops ≠ []) :
    LastBdi b (x b) ((ops.map (fun op => (op, x op.bus))).foldl BdiFifos.next s) := by
  induction ops generalizing s with
  | nil => exact absurd rfl h
  | cons op ops ih =>
    by_cases hop : op.arrivals b (x op.bus) = []
    · apply ih
      intro hops
      apply h
      rw [← List.singleton_append, received_append, ← BdiFifos.map_fst_arrivals b op (x op.bus), hop, hops]
      rfl
    · exact LastBdi.run (lastBdi_next (fun h' => absurd h' hop)) ops

/-- The part of a cycle before the lines are driven. -/
def AfuEvent.inputOps (e : AfuEvent) (c : Cycle) : List FifoOp :=
  readReq .cmd c.cmdRdReq c.cmdRdCnt ++ readReq .resp c.respRdReq c.respRdCnt ++ e.newPktOps c.malloc

theorem inputOps_puts (e : AfuEvent) (c : Cycle) (q : DataFifos) (b : Bus) :
    ∀ op ∈ e.inputOps c, op.puts q b = false := by
  have hreq : ∀ b' rdReq rdCnt, ∀ op ∈ readReq b' rdReq rdCnt, op.puts q b = false := by
    intro b' rdReq rdCnt op hop
    rw [readReq] at hop
    split at hop
    · rw [List.mem_singleton.mp hop]
      rfl
    · cases hop
  have hpkts : ∀ b' malloc valid dataValid lines, ∀ op ∈ newPkts b' malloc valid dataValid lines,
      op.puts q b = false := by
    intro b' malloc valid dataValid lines op hop
    rw [newPkts] at hop
    split at hop
    · obtain ⟨line, -, rfl⟩ := List.mem_map.mp hop
      rfl
    · cases hop
  intro op hop
  rw [AfuEvent.inputOps, AfuEvent.newPktOps, List.mem_append, List.mem_append, List.mem_append] at hop
  rcases hop with (hop | hop) | hop | hop
  · exact hreq _ _ _ op hop
  · exact hreq _ _ _ op hop
  · exact hpkts _ _ _ _ _ op hop
  · exact hpkts _ _ _ _ _ op hop

/-- A statement that is not a drive is never disturbed. -/
theorem along_of_not_puts {Ok : Option BdiFifos → FifoOp × UInt8 → Prop}
    (hok : ∀ s op, (∀ s', s = some s' → ∀ b, op.1.puts s'.fifos b = false) → Ok s op)
    {ops : List (FifoOp × UInt8)} (hops : ∀ op ∈ ops, ∀ q b, op.1.puts q b = false) (s : Option BdiFifos) :
    Along BdiFifos.next Ok s ops := by
  induction ops generalizing s with
  | nil => trivial
  | cons op ops ih =>
    refine ⟨hok s op (fun s' _ b => hops op List.mem_cons_self s'.fifos b), ih ?_ _⟩
    intro op' hop'
    exact hops op' (List.mem_cons_of_mem _ hop')

/-- What was received last is then what came in last. -/
theorem undisturbed_drive_iff (hlast : LastBdi b (x b) s) :
    Undisturbed s (.drive b, x b) ↔ UndisturbedArrivals s (.drive b, x b) := by
  constructor
  · intro h s' hs' b' hputs a ha last hmem
    obtain ⟨rfl, -⟩ := of_decide_eq_true hputs
    rw [h s' hs' b hputs a ha, hlast s' hs' last hmem]
  · intro h s' hs' b' hputs a ha
    obtain ⟨rfl, -⟩ := of_decide_eq_true hputs
    obtain ⟨last, hmem⟩ : ∃ last, (s'.arrived b).getLast? = some last := by
      cases hgetLast : (s'.arrived b).getLast? with
      | some last => exact ⟨last, rfl⟩
      | none =>
        rw [List.getLast?_eq_none_iff.mp hgetLast] at ha
        cases ha
    rw [h s' hs' b hputs a ha last hmem, hlast s' hs' last hmem]

/-- Where data is taken apart in the cycle that it is received in, it is the last arrival that disturbs a line. -/
theorem along_undisturbed_iff (e : AfuEvent) (cs : List Cycle)
    (hpaired : Along (fun e c => (tlxControl e c.calls).driven) PairedCycle e cs) {s : Option BdiFifos}
    (hs : ∀ b, LastBdi b (e.bdi b) s) :
    Along BdiFifos.next Undisturbed s (bdiOps e cs) ↔ Along BdiFifos.next UndisturbedArrivals s (bdiOps e cs) := by
  induction cs generalizing e s with
  | nil => exact Iff.rfl
  | cons c cs ih =>
    let event := tlxControl e c.calls
    let label : FifoOp → FifoOp × UInt8 := fun op => (op, event.bdi op.bus)
    have hops : bdiOps e (c :: cs) = (event.inputOps c).map label ++
        ([label (.drive .resp), label (.drive .cmd)] ++ bdiOps event.driven cs) := by
      rw [bdiOps, ← List.append_assoc]
      congr 1
      exact List.map_append
    have hinput : ∀ b, LastBdi b (event.bdi b) (((event.inputOps c).map label).foldl BdiFifos.next s) := by
      intro b
      by_cases hbdi : event.bdi b = e.bdi b
      · exact LastBdi.run (hbdi ▸ hs b) (event.inputOps c)
      · apply lastBdi_of_received
        rw [AfuEvent.inputOps, received_append]
        exact List.append_ne_nil_of_right_ne_nil _ (hpaired.1 b hbdi)
    generalize hs₁ : ((event.inputOps c).map label).foldl BdiFifos.next s = s₁ at hinput
    have hresp : ∀ b, LastBdi b (event.bdi b) (BdiFifos.next s₁ (label (.drive .resp))) :=
      fun b => (hinput b).run [.drive .resp]
    have hcmd : ∀ b, LastBdi b (event.driven.bdi b)
        (BdiFifos.next (BdiFifos.next s₁ (label (.drive .resp))) (label (.drive .cmd))) := by
      intro b
      have h := (hinput b).run [.drive .resp, .drive .cmd]
      cases b <;> exact h
    have hvacuous : ∀ op ∈ (event.inputOps c).map label, ∀ q b, op.1.puts q b = false := by
      intro op hop q b
      obtain ⟨op, hmem, rfl⟩ := List.mem_map.mp hop
      exact inputOps_puts event c q b op hmem
    have hsplit : ∀ Ok, Along BdiFifos.next Ok s (bdiOps e (c :: cs)) ↔
        Along BdiFifos.next Ok s ((event.inputOps c).map label) ∧ Ok s₁ (label (.drive .resp)) ∧
          Ok (BdiFifos.next s₁ (label (.drive .resp))) (label (.drive .cmd)) ∧
          Along BdiFifos.next Ok (BdiFifos.next (BdiFifos.next s₁ (label (.drive .resp))) (label (.drive .cmd)))
            (bdiOps event.driven cs) := by
      intro Ok
      rw [hops, along_append, hs₁]
      rfl
    rw [hsplit, hsplit]
    apply and_congr
    · apply iff_of_true
      · apply along_of_not_puts _ hvacuous
        intro s op hputs s' hs' b hdrive
        rw [hputs s' hs' b] at hdrive
        cases hdrive
      · apply along_of_not_puts _ hvacuous
        intro s op hputs s' hs' b hdrive
        rw [hputs s' hs' b] at hdrive
        cases hdrive
    · exact and_congr (undisturbed_drive_iff (x := event.bdi) (hinput .resp))
        (and_congr (undisturbed_drive_iff (x := event.bdi) (hresp .cmd)) (ih event.driven hpaired.2 hcmd))

theorem lastBdi_empty (b : Bus) (x : UInt8) : LastBdi b x (some .empty) := by
  intro s' hs' a ha
  obtain rfl := Option.some.inj hs'
  cases ha

theorem undisturbed_run_iff (e : AfuEvent) (cs : List Cycle)
    (hpaired : Along (fun e c => (tlxControl e c.calls).driven) PairedCycle e cs) :
    Along BdiFifos.next Undisturbed (some .empty) (bdiOps e cs) ↔
      Along BdiFifos.next UndisturbedArrivals (some .empty) (bdiOps e cs) :=
  along_undisturbed_iff e cs hpaired (fun b => lastBdi_empty b (e.bdi b))

end LastArrival

end Ocse
