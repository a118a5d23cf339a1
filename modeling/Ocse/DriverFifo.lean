import Ocse.HostFrame
import Ocse.Lib.LinkedQueue
import Ocse.Lib.Run

/-!
# The data FIFOs of the AFU driver

`tlx_bfm` takes the data of a response or a command apart into lines of 64 bytes and queues them; the AFU asks
for lines with read requests, and one line goes out on the data bus in each clock while lines are asked for.
The FIFO for responses (`rdata`) and the one for commands (`cdata`) are the same code on fields of their own.
Their packets come from one heap.

Only the calls with `c_reset_d4` down are modelled: at clock 1 `tlx_control` receives from the host, at clock 0
the FIFO statements run in the order of the source. They are the list `AfuEvent.fifoOps`.
-/

namespace Ocse

abbrev Line := List UInt8

inductive Bus where
  | resp
  | cmd
deriving DecidableEq, Repr

/-! ## Counts -/

def decodeDl (dl : UInt8) : ℕ :=
  if dl = 1 ∨ dl = 2 then dl.toNat else if dl = 3 then 4 else 0

def decodeRdCnt (rdCnt : UInt8) : ℕ :=
  if rdCnt = 0 then 8
  else if rdCnt = 1 ∨ rdCnt = 2 ∨ rdCnt = 5 ∨ rdCnt = 6 ∨ rdCnt = 7 then rdCnt.toNat
  else if rdCnt = 3 then 4
  else if rdCnt = 4 then 3
  else 0

def newLineCnt (dl : UInt8) : ℕ := if dl = 0 then 1 else decodeDl dl

def newLines (data : Buffer UInt8) (dl : UInt8) : List Line :=
  (List.range (newLineCnt dl)).map (fun i => data.read (64 * i) 64)

/-! ## The FIFOs -/

/-- `bus` lists what has been put on the data bus, the oldest line first. -/
structure DataFifo extends LinkedQueue where
  rdCnt : UInt32
  bus : List Line

structure DataFifos where
  heap : Heap Line
  rdata : DataFifo
  cdata : DataFifo

namespace DataFifos

def fifo (q : DataFifos) : Bus → DataFifo
  | .resp => q.rdata
  | .cmd => q.cdata

def set (q : DataFifos) (b : Bus) (heap : Heap Line) (f : DataFifo) : DataFifos :=
  match b with
  | .resp => { q with heap, rdata := f }
  | .cmd => { q with heap, cdata := f }

def empty : DataFifos := ⟨∅, ⟨⟨none, none⟩, 0, []⟩, ⟨⟨none, none⟩, 0, []⟩⟩

variable (q : DataFifos) (b : Bus) (heap : Heap Line) (f : DataFifo)

@[simp] theorem heap_set : (q.set b heap f).heap = heap := by cases b <;> rfl

@[simp] theorem fifo_set : (q.set b heap f).fifo b = f := by cases b <;> rfl

theorem fifo_set_of_ne {b' : Bus} (h : b' ≠ b) : (q.set b heap f).fifo b' = q.fifo b' := by
  cases b <;> cases b' <;> first | rfl | exact absurd rfl h

end DataFifos

/-! ## The statements -/

inductive FifoOp where
  | request (b : Bus) (rdCnt : UInt8)
  | append (b : Bus) (line : Line) (malloc : Malloc)
  | drive (b : Bus)

/-- There is no result when a pointer is followed that points to no packet. -/
def FifoOp.exec (q : DataFifos) : FifoOp → Option DataFifos
  | .request b rdCnt =>
    let f := q.fifo b
    some (q.set b q.heap { f with rdCnt := f.rdCnt + UInt32.ofNat (decodeRdCnt rdCnt) })
  | .append b line malloc => do
    let f := q.fifo b
    let (heap, list) ← f.push malloc q.heap line
    some (q.set b heap { f with toLinkedQueue := list })
  | .drive b =>
    let f := q.fifo b
    if f.rdCnt > 0 then do
      let (line, heap, list) ← f.pop q.heap
      some (q.set b heap { toLinkedQueue := list, rdCnt := f.rdCnt - 1, bus := f.bus ++ [line] })
    else some q

/-- The value of a signal, where one with an X or a Z counts as down. -/
def logicBit (v : UInt8) : UInt8 := if v &&& 0x2 ≠ 0 then 0 else v &&& 0x1

def readReq (b : Bus) (rdReq : UInt8) (rdCnt : UInt32) : List FifoOp :=
  if logicBit rdReq ≠ 0 then [.request b (rdCnt &&& 0x7).toUInt8] else []

def newPkts (b : Bus) (malloc : Malloc) (valid dataValid : UInt8) (lines : List Line) : List FifoOp :=
  if valid ≠ 0 ∧ dataValid ≠ 0 then lines.map (fun line => .append b line malloc) else []

/-- One cycle: what the socket holds at each call that `tlx_control` makes, and the AFU's read requests. -/
structure Cycle where
  calls : List Socket
  cmdRdReq : UInt8
  cmdRdCnt : UInt32
  respRdReq : UInt8
  respRdCnt : UInt32
  malloc : Malloc

def tlxControl (e : AfuEvent) (calls : List Socket) : AfuEvent :=
  calls.foldl (fun e s => (tlxGetTlxEvents e s).2.1) e

def AfuEvent.newPktOps (e : AfuEvent) (malloc : Malloc) : List FifoOp :=
  newPkts .resp malloc e.tlxResp.valid e.tlxRespData.valid (newLines e.tlxRespData.data e.tlxResp.dl) ++
    newPkts .cmd malloc e.tlxCmd.valid e.tlxCmdData.valid (newLines e.tlxCmdData.dataBus e.tlxCmd.dl)

def AfuEvent.fifoOps (e : AfuEvent) (c : Cycle) : List FifoOp :=
  readReq .cmd c.cmdRdReq c.cmdRdCnt ++ readReq .resp c.respRdReq c.respRdCnt ++ e.newPktOps c.malloc ++
    [.drive .resp, .drive .cmd]

/-- The flags that clock 0 takes down. Data that came without a response or command stays where it is. -/
def AfuEvent.driven (e : AfuEvent) : AfuEvent :=
  { e with
    tlxCfg.valid := 0
    tlxResp.valid := 0
    tlxRespData.valid := if e.tlxResp.valid ≠ 0 then 0 else e.tlxRespData.valid
    tlxCmd.valid := 0
    tlxCmdData.valid := if e.tlxCmd.valid ≠ 0 then 0 else e.tlxCmdData.valid }

structure AfuDriver where
  event : AfuEvent
  fifos : DataFifos

/-- The two calls of `tlx_bfm` in one cycle. -/
def AfuDriver.tlxBfm (d : AfuDriver) (c : Cycle) : Option AfuDriver := do
  let event := tlxControl d.event c.calls
  let fifos ← (event.fifoOps c).foldlM FifoOp.exec d.fifos
  some { event := event.driven, fifos }

/-- The statements that a run of cycles goes through. -/
def runOps : AfuEvent → List Cycle → List FifoOp
  | _, [] => []
  | e, c :: cs =>
    let event := tlxControl e c.calls
    event.fifoOps c ++ runOps event.driven cs

/-! ## What was received and asked for -/

def received (b : Bus) (ops : List FifoOp) : List Line :=
  ops.filterMap (fun
    | .append b' line _ => if b' = b then some line else none
    | _ => none)

def requested (b : Bus) (ops : List FifoOp) : ℕ :=
  (ops.map (fun
    | .request b' rdCnt => if b' = b then decodeRdCnt rdCnt else 0
    | _ => 0)).sum

/-- When the driver comes to drive a bus, no more lines were asked for than received. -/
def FifoOp.Covered (done : List FifoOp) : FifoOp → Prop
  | .drive b => requested b done ≤ (received b done).length
  | _ => True

instance FifoOp.decidableCovered (done : List FifoOp) (op : FifoOp) : Decidable (op.Covered done) :=
  match op with
  | .drive b => inferInstanceAs (Decidable (requested b done ≤ (received b done).length))
  | .request _ _ => isTrue trivial
  | .append _ _ _ => isTrue trivial

def Covered (ops : List FifoOp) : Prop := Along (fun done op => done ++ [op]) FifoOp.Covered [] ops

instance (ops : List FifoOp) : Decidable (Covered ops) :=
  inferInstanceAs (Decidable (Along (fun done op => done ++ [op]) FifoOp.Covered [] ops))

/-- The FIFOs after the statements `done`: each list holds what was received and not driven, in its order. -/
def DataFifos.Sound (q : DataFifos) (done : List FifoOp) : Prop :=
  ∃ cells : Bus → List (ℕ × Line), ∀ b,
    q.heap.Chain (q.fifo b).head (cells b) ∧
    received b done = (q.fifo b).bus ++ (cells b).map Prod.snd ∧
    ((q.fifo b).head ≠ none → ∃ before last, cells b = before ++ [last] ∧ (q.fifo b).tail = some last.1) ∧
    (requested b done ≤ (received b done).length → 0 < (q.fifo b).rdCnt → (q.fifo b).head ≠ none)

@[simp] theorem received_append (b : Bus) (ops ops' : List FifoOp) :
    received b (ops ++ ops') = received b ops ++ received b ops' :=
  List.filterMap_append

@[simp] theorem requested_append (b : Bus) (ops ops' : List FifoOp) :
    requested b (ops ++ ops') = requested b ops + requested b ops' := by
  simp [requested]

/-! ## The invariant -/

/-- The FIFOs after the statements `done`, with the packets they link. A pending count may have wrapped; it
is then less than what is still asked for. -/
structure DataFifos.Queues (q : DataFifos) (done : List FifoOp) (cells : Bus → List (ℕ × Line)) : Prop where
  lists : ∀ b, (q.fifo b).Lists q.heap (cells b)
  apart : ∀ b b', b ≠ b' → ∀ p ∈ (cells b).map Prod.fst, p ∉ (cells b').map Prod.fst
  inOrder : ∀ b, received b done = (q.fifo b).bus ++ (cells b).map Prod.snd
  pending : ∀ b, (q.fifo b).rdCnt.toNat + (q.fifo b).bus.length ≤ requested b done

namespace DataFifos

variable {q : DataFifos} {done : List FifoOp} {cells : Bus → List (ℕ × Line)}

theorem queues_empty : empty.Queues [] (fun _ => []) where
  lists b := by
    cases b <;> exact LinkedQueue.lists_nil _ _
  apart := by
    intro b b' _ p hp
    cases hp
  inOrder b := by
    cases b <;> rfl
  pending b := by
    cases b <;> exact Nat.le_refl 0

/-- Lines that are asked for and were received, but not driven, are listed. -/
theorem Queues.head_ne_none (h : q.Queues done cells) (b : Bus)
    (hcovered : requested b done ≤ (received b done).length) (hcnt : 0 < (q.fifo b).rdCnt) :
    (q.fifo b).head ≠ none := by
  rw [Ne, (h.lists b).head_eq_none_iff]
  intro hnil
  have hpending := h.pending b
  have hpos : 0 < (q.fifo b).rdCnt.toNat := hcnt
  rw [h.inOrder b, hnil, List.map_nil, List.append_nil] at hcovered
  omega

theorem Queues.sound (h : q.Queues done cells) : q.Sound done := by
  refine ⟨cells, fun b => ⟨(h.lists b).chain, h.inOrder b, ?_, h.head_ne_none b⟩⟩
  intro hhead
  rcases List.eq_nil_or_concat' (cells b) with hnil | ⟨before, last, hcells⟩
  · exact absurd ((h.lists b).head_eq_none_iff.mpr hnil) hhead
  · exact ⟨before, last, hcells, (h.lists b).tail before last.1 last.2 hcells⟩

/-- One FIFO changes, with the packets that it links; the packets of the other stay where they are. -/
theorem Queues.update (h : q.Queues done cells) (b : Bus) {heap : Heap Line} {f : DataFifo}
    {cells' : List (ℕ × Line)} {op : FifoOp} (hlists : f.Lists heap cells')
    (hother : ∀ b', b' ≠ b → ∀ p ∈ (cells b').map Prod.fst,
      p ∉ cells'.map Prod.fst ∧ heap.lookup p = q.heap.lookup p)
    (hinOrder : received b (done ++ [op]) = f.bus ++ cells'.map Prod.snd)
    (hpending : f.rdCnt.toNat + f.bus.length ≤ requested b (done ++ [op]))
    (hop : ∀ b', b' ≠ b → received b' [op] = [] ∧ requested b' [op] = 0) :
    (q.set b heap f).Queues (done ++ [op]) (Function.update cells b cells') where
  lists b' := by
    rw [heap_set]
    by_cases hb : b' = b
    · subst hb
      rw [fifo_set, Function.update_self]
      exact hlists
    · rw [fifo_set_of_ne _ _ _ _ hb, Function.update_of_ne hb]
      apply (h.lists b').frame
      intro p hp
      exact (hother b' hb p hp).2
  apart := by
    intro b₁ b₂ hne p hp
    by_cases h₁ : b₁ = b
    · subst h₁
      rw [Function.update_self] at hp
      rw [Function.update_of_ne hne.symm]
      intro hp₂
      exact (hother b₂ hne.symm p hp₂).1 hp
    · rw [Function.update_of_ne h₁] at hp
      by_cases h₂ : b₂ = b
      · subst h₂
        rw [Function.update_self]
        exact (hother b₁ h₁ p hp).1
      · rw [Function.update_of_ne h₂]
        exact h.apart b₁ b₂ hne p hp
  inOrder b' := by
    by_cases hb : b' = b
    · subst hb
      rw [fifo_set, Function.update_self]
      exact hinOrder
    · rw [fifo_set_of_ne _ _ _ _ hb, Function.update_of_ne hb, received_append, (hop b' hb).1, List.append_nil]
      exact h.inOrder b'
  pending b' := by
    by_cases hb : b' = b
    · subst hb
      rw [fifo_set]
      exact hpending
    · rw [fifo_set_of_ne _ _ _ _ hb, requested_append, (hop b' hb).2, Nat.add_zero]
      exact h.pending b'

theorem Queues.request (h : q.Queues done cells) (b : Bus) (rdCnt : UInt8) :
    ∃ q' cells', (FifoOp.request b rdCnt).exec q = some q' ∧
      q'.Queues (done ++ [.request b rdCnt]) cells' := by
  refine ⟨_, _, rfl, h.update b (h.lists b) ?_ ?_ ?_ ?_⟩
  · intro b' hb p hp
    exact ⟨h.apart b' b hb p hp, rfl⟩
  · rw [received_append, h.inOrder b]
    exact List.append_nil _
  · have hpending := h.pending b
    have hadd : ((q.fifo b).rdCnt + UInt32.ofNat (decodeRdCnt rdCnt)).toNat ≤
        (q.fifo b).rdCnt.toNat + decodeRdCnt rdCnt := by
      rw [UInt32.toNat_add, UInt32.toNat_ofNat']
      omega
    have hreq : requested b [.request b rdCnt] = decodeRdCnt rdCnt := by
      simp [requested]
    rw [requested_append, hreq]
    change ((q.fifo b).rdCnt + UInt32.ofNat (decodeRdCnt rdCnt)).toNat + (q.fifo b).bus.length ≤ _
    omega
  · intro b' hb
    simp [received, requested, hb.symm]

theorem Queues.append (h : q.Queues done cells) (b : Bus) (line : Line) (malloc : Malloc) :
    ∃ q' cells', (FifoOp.append b line malloc).exec q = some q' ∧
      q'.Queues (done ++ [.append b line malloc]) cells' := by
  obtain ⟨p, heap, list, hpush, hfresh, hlists, hframe⟩ := (h.lists b).push malloc line
  refine ⟨_, _, ?_, h.update b (f := { q.fifo b with toLinkedQueue := list }) hlists ?_ ?_ ?_ ?_⟩
  · simp only [FifoOp.exec, hpush, Option.bind_eq_bind, Option.bind_some]
  · intro b' hb a ha
    have hmem : a ∈ q.heap := (h.lists b').chain.mem ha
    have hapart := h.apart b' b hb a ha
    refine ⟨?_, hframe a hmem hapart⟩
    rw [List.map_append, List.mem_append, not_or]
    refine ⟨hapart, ?_⟩
    intro hap
    obtain rfl := List.mem_singleton.mp hap
    exact hfresh hmem
  · rw [received_append, h.inOrder b]
    simp [received]
  · have hpending := h.pending b
    rw [requested_append]
    exact Nat.le_trans hpending (Nat.le_add_right _ _)
  · intro b' hb
    simp [received, requested, hb.symm]

/-- A drive takes the first listed line. -/
theorem Queues.drive_line (h : q.Queues done cells) (b : Bus) (hcnt : (q.fifo b).rdCnt > 0) {p : ℕ} {line : Line}
    {rest : List (ℕ × Line)} (hcells : cells b = (p, line) :: rest) :
    ∃ heap list, (FifoOp.drive b).exec q =
        some (q.set b heap ⟨list, (q.fifo b).rdCnt - 1, (q.fifo b).bus ++ [line]⟩) ∧
      (q.set b heap ⟨list, (q.fifo b).rdCnt - 1, (q.fifo b).bus ++ [line]⟩).Queues (done ++ [.drive b])
        (Function.update cells b rest) := by
  have hpending := h.pending b
  have hlists := h.lists b
  rw [hcells] at hlists
  obtain ⟨list, hpop, hpopped, hframe⟩ := hlists.pop
  refine ⟨_, list, ?_, h.update b (f := ⟨list, (q.fifo b).rdCnt - 1, (q.fifo b).bus ++ [line]⟩)
    hpopped ?_ ?_ ?_ ?_⟩
  · simp only [FifoOp.exec, if_pos hcnt, hpop, Option.bind_eq_bind, Option.bind_some]
  · intro b' hb a ha
    have hapart := h.apart b' b hb a ha
    rw [hcells, List.map_cons, List.mem_cons, not_or] at hapart
    exact ⟨hapart.2, hframe a hapart.1⟩
  · rw [received_append, h.inOrder b, hcells]
    simp [received]
  · have hpos : 1 ≤ (q.fifo b).rdCnt := hcnt
    have hone : (1 : UInt32).toNat = 1 := rfl
    rw [requested_append]
    change ((q.fifo b).rdCnt - 1).toNat + ((q.fifo b).bus ++ [line]).length ≤ _
    rw [UInt32.toNat_sub_of_le _ _ hpos, List.length_append, List.length_singleton, hone]
    have hposNat : 0 < (q.fifo b).rdCnt.toNat := hcnt
    omega
  · intro b' hb
    simp [received, requested]

theorem Queues.drive_idle (h : q.Queues done cells) (b : Bus) (hcnt : ¬ (q.fifo b).rdCnt > 0) :
    (FifoOp.drive b).exec q = some q ∧ q.Queues (done ++ [.drive b]) cells := by
  refine ⟨?_, ⟨h.lists, h.apart, ?_, ?_⟩⟩
  · simp only [FifoOp.exec, if_neg hcnt]
  · intro b'
    rw [received_append, h.inOrder b']
    exact List.append_nil _
  · intro b'
    rw [requested_append]
    exact Nat.le_trans (h.pending b') (Nat.le_add_right _ _)

/-- A drive finds a line because the lines asked for were received. -/
theorem Queues.drive (h : q.Queues done cells) (b : Bus)
    (hcovered : requested b done ≤ (received b done).length) :
    ∃ q' cells', (FifoOp.drive b).exec q = some q' ∧ q'.Queues (done ++ [.drive b]) cells' := by
  by_cases hcnt : (q.fifo b).rdCnt > 0
  · obtain ⟨⟨p, line⟩, rest, hcells⟩ : ∃ c rest, cells b = c :: rest := by
      rw [← List.ne_nil_iff_exists_cons, Ne, ← (h.lists b).head_eq_none_iff]
      exact h.head_ne_none b hcovered hcnt
    obtain ⟨heap, list, hexec, hqueues⟩ := h.drive_line b hcnt hcells
    exact ⟨_, _, hexec, hqueues⟩
  · obtain ⟨hexec, hqueues⟩ := h.drive_idle b hcnt
    exact ⟨q, cells, hexec, hqueues⟩

theorem Queues.step (h : q.Queues done cells) (op : FifoOp) (hcovered : op.Covered done) :
    ∃ q' cells', op.exec q = some q' ∧ q'.Queues (done ++ [op]) cells' := by
  cases op with
  | request b rdCnt => exact h.request b rdCnt
  | append b line malloc => exact h.append b line malloc
  | drive b => exact h.drive b hcovered

theorem Queues.run {ops : List FifoOp} (h : q.Queues done cells)
    (hcovered : Along (fun done op => done ++ [op]) FifoOp.Covered done ops) :
    ∃ q' cells', ops.foldlM FifoOp.exec q = some q' ∧ q'.Queues (done ++ ops) cells' := by
  induction ops generalizing q done cells with
  | nil => exact ⟨q, cells, rfl, by rwa [List.append_nil]⟩
  | cons op ops ih =>
    obtain ⟨q₁, cells₁, hexec, hq₁⟩ := h.step op hcovered.1
    obtain ⟨q₂, cells₂, hrun, hq₂⟩ := ih hq₁ hcovered.2
    refine ⟨q₂, cells₂, ?_, ?_⟩
    · rw [List.foldlM_cons, hexec]
      exact hrun
    · rwa [List.append_cons]

end DataFifos

/-! ## Runs of the driver -/

theorem Covered.initial {ops pre : List FifoOp} (h : Covered ops) (hpre : pre <+: ops) : Covered pre := by
  obtain ⟨rest, rfl⟩ := hpre
  exact (along_append.mp h).1

/-- A run of cycles is the run of its statements. -/
theorem run_fifos (d : AfuDriver) (cs : List Cycle) {q : DataFifos}
    (h : (runOps d.event cs).foldlM FifoOp.exec d.fifos = some q) :
    ∃ d', cs.foldlM AfuDriver.tlxBfm d = some d' ∧ d'.fifos = q := by
  induction cs generalizing d with
  | nil => exact ⟨d, rfl, Option.some.inj h⟩
  | cons c cs ih =>
    rw [runOps, List.foldlM_append] at h
    obtain ⟨fifos, hcycle, hrest⟩ := Option.bind_eq_some_iff.mp h
    obtain ⟨d', hrun, hq⟩ := ih ⟨(tlxControl d.event c.calls).driven, fifos⟩ hrest
    refine ⟨d', ?_, hq⟩
    have hbfm : d.tlxBfm c = some ⟨(tlxControl d.event c.calls).driven, fifos⟩ := by
      simp only [AfuDriver.tlxBfm, hcycle, Option.bind_eq_bind, Option.bind_some]
    rw [List.foldlM_cons, hbfm]
    exact hrun

/-- The host sends as many bytes as the length of its response or command says. -/
structure AfuEvent.FullLines (e : AfuEvent) : Prop where
  resp : e.tlxResp.valid ≠ 0 → e.tlxRespData.valid ≠ 0 →
    64 * newLineCnt e.tlxResp.dl ≤ e.tlxRespData.byteCnt.toNat
  cmd : e.tlxCmd.valid ≠ 0 → e.tlxCmdData.valid ≠ 0 →
    64 * newLineCnt e.tlxCmd.dl ≤ e.tlxCmdData.byteCnt.toNat ∧ e.tlxCmd.dl &&& 0x03 = e.tlxCmd.dl

theorem newPkts_congr (b : Bus) (malloc : Malloc) {valid dataValid : UInt8} {lines lines' : List Line}
    (h : valid ≠ 0 → dataValid ≠ 0 → lines' = lines) :
    newPkts b malloc (validFlag valid) (validFlag dataValid) lines' = newPkts b malloc valid dataValid lines := by
  by_cases hv : valid = 0
  · simp [newPkts, validFlag, hv]
  · by_cases hd : dataValid = 0
    · simp [newPkts, validFlag, hd]
    · rw [h hv hd]
      simp [newPkts, validFlag, hv, hd]

theorem newLines_congr {data data' : Buffer UInt8} {dl : UInt8} {n : ℕ} (hn : 64 * newLineCnt dl ≤ n)
    (h : ∀ i < n, data' i = data i) : newLines data' dl = newLines data dl := by
  apply List.map_congr_left
  intro i hi
  have hi := List.mem_range.mp hi
  apply Buffer.read_congr
  intro j hj
  exact h _ (by omega)

/-- What the driver receives of a host's frame are the lines that the host sent. -/
theorem HostReceived.newPktOps {e r : AfuEvent} (h : HostReceived e r) (hfull : e.FullLines)
    (malloc : Malloc) : r.newPktOps malloc = e.newPktOps malloc := by
  unfold AfuEvent.newPktOps
  rw [h.resp.1, h.respData.1, h.cmd.1, h.cmdData.1]
  congr 1
  · apply newPkts_congr
    intro hv hd
    rw [(h.resp.2 hv).2.2.2.2.1]
    exact newLines_congr (hfull.resp hv hd) (h.respData.2 hd).2
  · apply newPkts_congr
    intro hv hd
    rw [(h.cmd.2 hv).2.2.1, (hfull.cmd hv hd).2]
    exact newLines_congr (hfull.cmd hv hd).1 (h.cmdData.2 hd).2

theorem tlxControl_newPktOps (e r : AfuEvent) (s : Socket) (rest : List UInt8) (malloc : Malloc)
    (hclock : e.clock = 0) (hcmd : e.tlxCmdData.byteCnt.toNat ≤ 256)
    (hresp : e.tlxRespData.byteCnt.toNat ≤ 256) (hfull : e.FullLines) (hrbp : r.rbp = 0)
    (hclear : HostGroupsClear r) (hall : s.arrivals = [])
    (hstream : s.stream = (tlxSignalAfuModel e).2.2 ++ rest) :
    (tlxControl r [s]).newPktOps malloc = e.newPktOps malloc := by
  refine HostReceived.newPktOps ?_ hfull malloc
  change HostReceived e (tlxGetTlxEvents r s).2.1
  rcases tlxGetTlxEvents_whole e r s rest hclock hcmd hresp hrbp hall hstream with
    ⟨hbody, hget⟩ | ⟨r', cmdCnt, respCnt, -, -, hget, hheader, hholds, hcmdCnt, hrespCnt⟩
  · have hc : HostGroupsClear (r.answered (hostBuffer e).head).2.1 :=
      tlxSignalTlxModel_clear _ ⟨hclear.cfg, hclear.cmd, hclear.cmdData, hclear.resp, hclear.respData,
        hclear.credits⟩
    rw [hget]
    exact hostReceived_of_body_eq_nil e _ hbody
      ⟨hc.cfg, hc.cmd, hc.cmdData, hc.resp, hc.respData, hc.credits⟩
  · rw [hget]
    exact parseTlxEvents_received e r' hheader hholds _ _ hcmdCnt hrespCnt

/-- However host frames and read requests are interleaved, as long as the driver is not asked to drive lines
that it has not received: the run follows no bad pointer, and after each statement the lists, the tails and
the heads are right. -/
theorem dataFifos_inOrder (e : AfuEvent) (cs : List Cycle) (hcovered : Covered (runOps e cs)) :
    (∃ d, cs.foldlM AfuDriver.tlxBfm ⟨e, .empty⟩ = some d ∧ d.fifos.Sound (runOps e cs)) ∧
      ∀ done, done <+: runOps e cs →
        ∃ q, done.foldlM FifoOp.exec .empty = some q ∧ q.Sound done := by
  have hall : ∀ done, done <+: runOps e cs →
      ∃ q, done.foldlM FifoOp.exec .empty = some q ∧ q.Sound done := by
    intro done hdone
    obtain ⟨q, cells, hrun, hq⟩ := DataFifos.queues_empty.run (hcovered.initial hdone)
    exact ⟨q, hrun, hq.sound⟩
  refine ⟨?_, hall⟩
  obtain ⟨q, hrun, hsound⟩ := hall _ List.prefix_rfl
  obtain ⟨d, hd, rfl⟩ := run_fifos ⟨e, .empty⟩ cs hrun
  exact ⟨d, hd, hsound⟩

/-- A response with two lines, which the AFU then asks for one after the other. -/
def sampleCycles : List Cycle :=
  let frame : List UInt8 := [0x46, 0, 0, 0, 128] ++ [1, 0, 7, 0, 0, 2, 0] ++ 0 ::
    (List.replicate 64 0xAA ++ List.replicate 64 0xBB)
  [⟨[.whole frame], 0, 0, 0, 0, .above⟩, ⟨[.whole [0x40]], 0, 0, 1, 1, .above⟩,
    ⟨[.whole [0x40]], 0, 0, 1, 1, .above⟩]

theorem dataFifos_inOrder_sample :
    (∃ d, sampleCycles.foldlM AfuDriver.tlxBfm ⟨tlxEventReset, .empty⟩ = some d ∧
      d.fifos.Sound (runOps tlxEventReset sampleCycles)) ∧
      ∀ done, done <+: runOps tlxEventReset sampleCycles →
        ∃ q, done.foldlM FifoOp.exec .empty = some q ∧ q.Sound done :=
  dataFifos_inOrder tlxEventReset sampleCycles (by decide +kernel)

end Ocse
