import Ocse.MemAccess

/-!
# LPC memory over a byte memory

`ocxl_lpc_write` and `ocxl_lpc_read`, from the call to its return. Each piece of a transfer is one
exchange with ocse; the next one begins when the acknowledgement has come. A write and a read of the same
bytes are cut in the same way, but nothing depends on that: what counts is that the pieces follow each
other from the first byte to the last.
-/

namespace Ocse

/-! ## The library -/

/-- The fields of `struct ocxl_afu` that an LPC access looks at. -/
structure LpcAfu where
  lpcMapped : Bool
  opened : Bool
  deriving DecidableEq, Repr

/-- An application with an AFU, and what is behind the socket. -/
structure LpcApp where
  afu : Option LpcAfu
  bench : Bench

/-- `_handle_mem_ack`: the data that came, or nothing when a response code has ended the program. When the data
does not come, its buffer is freed and read all the same, and nothing is said about that. -/
def handleMemAck (afu : LpcAfu) (r : MemReq) (stream : List UInt8) : Option (List UInt8 × LpcAfu) :=
  let (afu, respCode, stream) := match getBytes 1 stream with
    | none => ({ afu with opened := false }, 0, stream)
    | some (b, stream) => (afu, b 0, stream)
  if respCode ≠ 0 then none
  else if r.type = .read then
    match getData r.size stream with
    | none => none
    | some (data, _) => some (data, afu)
  else some ([], afu)

/-- The part of a transfer that is one request; `none` while it waits. -/
def lpcTurn (afu : LpcAfu) (b : Bench) (client : ℕ) (cfg : MmioCfg) (r : MemReq) (steps : List BenchStep) :
    Option (List UInt8 × LpcAfu × Bench) :=
  match b.exchange client cfg r.message steps with
  | some (ack :: stream, b) =>
    if ack = ocseLpcAck then (handleMemAck afu r stream).map (fun (data, afu) => (data, afu, b)) else none
  | _ => none

/-- The loop over the pieces, with the steps that are taken while each waits. What a read brings goes to its
place in `out`. -/
def lpcTransfer (client : ℕ) (cfg : MmioCfg) (request : ℕ × ℕ → MemReq) :
    List (ℕ × ℕ) → List (List BenchStep) → LpcAfu → Bench → Buffer UInt8 → Option (ℤ × Buffer UInt8 × LpcApp)
  | [], _, afu, b, out => some (0, out, ⟨some afu, b⟩)
  | _ :: _, [], _, _, _ => none
  | p :: pieces, s :: steps, afu, b, out =>
    match lpcTurn afu b client cfg (request p) s with
    | none => none
    | some (data, afu, b) =>
      if afu.opened then lpcTransfer client cfg request pieces steps afu b (out.write p.1 data)
      else some (-1, out.write p.1 data, ⟨some afu, b⟩)

def LpcApp.transfer (a : LpcApp) (client : ℕ) (cfg : MmioCfg) (request : ℕ × ℕ → MemReq) (pieces : List (ℕ × ℕ))
    (steps : List (List BenchStep)) (out : Buffer UInt8) : Option (ℤ × Buffer UInt8 × LpcApp) :=
  match a.afu with
  | none => some (-1, out, a)
  | some afu => if afu.lpcMapped then lpcTransfer client cfg request pieces steps afu a.bench out else some (-1, out, a)

def ocxlLpcWrite (a : LpcApp) (client : ℕ) (cfg : MmioCfg) (offset : UInt64) (val : Buffer UInt8) (size : ℕ)
    (steps : List (List BenchStep)) : Option (ℤ × LpcApp) :=
  (a.transfer client cfg (fun (i, stride) => ⟨.write, offset + UInt64.ofNat i, stride, val.read i stride, 0⟩)
    (lpcPieces offset size size 0) steps (Buffer.const 0)).map (fun (rc, _, a) => (rc, a))

def ocxlLpcRead (a : LpcApp) (client : ℕ) (cfg : MmioCfg) (offset : UInt64) (out : Buffer UInt8) (size : ℕ)
    (steps : List (List BenchStep)) : Option (ℤ × Buffer UInt8 × LpcApp) :=
  a.transfer client cfg (fun (i, stride) => ⟨.read, offset + UInt64.ofNat i, stride, [], 0⟩)
    (lpcPieces offset size size 0) steps out

/-! ## One request -/

/-- A request that both ends see alike. -/
structure MemReq.Plain (r : MemReq) : Prop extends r.Legal where
  plain : r.type ≠ .writeBe
  narrow : r.addr.toNat < 2 ^ 32

theorem MemReq.Plain.pa {r : MemReq} (h : r.Plain) : (UInt64.ofNat (r.addr.toNat % 2 ^ 32)).toNat = r.addr.toNat := by
  have hnarrow := h.narrow
  rw [UInt64.toNat_ofNat']
  omega

theorem MemReq.Plain.event_fits {r : MemReq} (h : r.Plain) (id : ℕ) : (r.event id).Fits := by
  obtain ⟨hpos, hle, -⟩ := lpcSizes_bounds h.legal
  refine ⟨rfl, rfl, ?_, rfl, fun _ => rfl, .inr h.legal, ?_⟩
  · exact decide_eq_false h.plain
  · have hne : (r.event id).size ≠ 0 := Nat.ne_of_gt hpos
    have hmod : r.size % 2 ^ 16 = r.size := by omega
    rw [MmioEvent.byteCnt, if_neg hne]
    change r.size % 2 ^ 16 ∣ (UInt64.ofNat (r.addr.toNat % 2 ^ 32)).toNat
    rw [hmod, h.pa]
    exact h.aligned

theorem Bench.Quiet.asks_mem {b : Bench} (hb : b.Quiet) (client : ℕ) (cfg : MmioCfg) {r : MemReq} (h : r.Plain) :
    b.Asks client cfg r.message (r.event b.engine.nextId) := by
  have hdecode := handleMem_message client cfg r h.toFormed []
  rw [List.append_nil] at hdecode
  refine ⟨hb, h.event_fits _, rfl, _, _, hdecode, ?_⟩
  simp [Mmio.step, hb.running, Mmio.act, addMem, Mmio.append, Mmio.setAccess, Mmio.added, MemReq.event,
    MemReq.action]

theorem MemReq.Plain.encode_event {r : MemReq} (h : r.Plain) (id : ℕ) :
    (r.event id).encode.ack = ocseLpcAck ∧ (r.event id).encode.rnw = decide (r.type = .read) ∧
      (r.event id).encode.size = r.size ∧ (r.event id).encode.data = (r.event id).data ∧
      (r.event id).encode.cmdPA.toNat = r.addr.toNat := by
  obtain ⟨hpos, -⟩ := lpcSizes_bounds h.legal
  have hne : (r.event id).size ≠ 0 := Nat.ne_of_gt hpos
  rw [MmioEvent.encode, if_neg hne]
  exact ⟨rfl, rfl, rfl, rfl, h.pa⟩

/-- The memory after a request. -/
def MemReq.after (r : MemReq) (mem : Buffer UInt8) : Buffer UInt8 :=
  if r.type = .read then mem else mem.write r.addr.toNat r.data

/-- The data that comes back. -/
def MemReq.reply (r : MemReq) (mem : Buffer UInt8) : List UInt8 :=
  if r.type = .read then mem.read r.addr.toNat r.size else []

theorem MemReq.Plain.after_event {r : MemReq} (h : r.Plain) (id : ℕ) (mem : Buffer UInt8) :
    (r.event id).encode.after mem = r.after mem := by
  obtain ⟨-, hrnw, -, hdata, hpa⟩ := h.encode_event id
  rw [MmioEvent.after, MemReq.after, hrnw, MemReq.byteCnt_event h.toLegal, hdata, hpa]
  by_cases htype : r.type = .read
  · simp [htype]
  · have hbytes : (r.event id).data = (Buffer.const 0).write 0 r.data := if_neg htype
    have hread := Buffer.read_eq_of_holds (Buffer.holds_write (Buffer.const 0) 0 r.data)
    rw [h.data htype] at hread
    rw [hbytes, hread]
    simp [htype]

theorem MemReq.Plain.reply_event {r : MemReq} (h : r.Plain) (id : ℕ) (mem : Buffer UInt8) :
    (r.event id).encode.reply mem = r.reply mem := by
  obtain ⟨hpos, -⟩ := lpcSizes_bounds h.legal
  obtain ⟨-, hrnw, hsize, -, hpa⟩ := h.encode_event id
  rw [MmioEvent.reply, MemReq.reply, hrnw, hsize, hpa]
  by_cases htype : r.type = .read
  · simp [htype, Nat.ne_of_gt hpos]
  · simp [htype]

theorem handleMemAck_reply (afu : LpcAfu) (r : MemReq) (mem : Buffer UInt8) :
    handleMemAck afu r (0 :: r.reply mem) = some (r.reply mem, afu) := by
  have hcode : getBytes 1 (0 :: r.reply mem) = some ((Buffer.const 0).write 0 [0], r.reply mem) :=
    getBytes_append (show [(0 : UInt8)].length = 1 by rfl) _
  unfold handleMemAck
  rw [hcode]
  dsimp only
  rw [if_neg (by decide)]
  by_cases htype : r.type = .read
  · have hreply : r.reply mem = mem.read r.addr.toNat r.size := if_pos htype
    have hdata := getData_append (mem.length_read r.addr.toNat r.size) []
    rw [List.append_nil] at hdata
    simp only [hreply, if_pos htype, hdata]
  · have hreply : r.reply mem = [] := if_neg htype
    simp only [hreply, if_neg htype]

section Turn

variable {b : Bench} (client : ℕ) (cfg : MmioCfg) {r : MemReq}

theorem lpcTurn_eq (hb : b.Quiet) (h : r.Plain) (afu : LpcAfu) (steps : List BenchStep) :
    lpcTurn afu b client cfg r steps =
      (b.exchange client cfg r.message steps).map (fun (_, b') => (r.reply b.afu.mem, afu, b')) := by
  unfold lpcTurn
  cases hret : b.exchange client cfg r.message steps with
  | none => rfl
  | some ret =>
    obtain ⟨bytes, b'⟩ := ret
    obtain ⟨-, rfl, -⟩ := (hb.asks_mem client cfg h).returns hret
    obtain ⟨hack, -⟩ := h.encode_event b.engine.nextId
    simp only [hack, if_true, h.reply_event, handleMemAck_reply, Option.map_some]

theorem lpcTurn_returns (hb : b.Quiet) (h : r.Plain) {afu afu' : LpcAfu} {steps : List BenchStep}
    {data : List UInt8} {b' : Bench} (hturn : lpcTurn afu b client cfg r steps = some (data, afu', b')) :
    data = r.reply b.afu.mem ∧ afu' = afu ∧ b'.Quiet ∧ b'.afu.mem = r.after b.afu.mem := by
  rw [lpcTurn_eq client cfg hb h] at hturn
  obtain ⟨⟨bytes, b''⟩, hret, heq⟩ := Option.map_eq_some_iff.mp hturn
  obtain ⟨rfl, hrest⟩ := Prod.mk.inj heq
  obtain ⟨rfl, rfl⟩ := Prod.mk.inj hrest
  obtain ⟨hquiet, -, hmem⟩ := (hb.asks_mem client cfg h).returns hret
  exact ⟨rfl, rfl, hquiet, hmem.trans (h.after_event _ _)⟩

theorem lpcTurn_completes (hb : b.Quiet) (h : r.Plain) (afu : LpcAfu) (start : List BenchStep) :
    ∃ more b', lpcTurn afu b client cfg r (start ++ more) = some (r.reply b.afu.mem, afu, b') := by
  obtain ⟨more, bytes, b', hret⟩ := (hb.asks_mem client cfg h).completes start
  have heq := lpcTurn_eq client cfg hb h afu (start ++ more)
  rw [hret] at heq
  exact ⟨more, b', heq⟩

end Turn

/-! ## Whole transfers -/

/-- What a piece does to the memory and to the caller's buffer. -/
def lpcEffect (request : ℕ × ℕ → MemReq) (s : Buffer UInt8 × Buffer UInt8) (p : ℕ × ℕ) :
    Buffer UInt8 × Buffer UInt8 := ((request p).after s.1, s.2.write p.1 ((request p).reply s.1))

section Loop

variable {client : ℕ} {cfg : MmioCfg} {request : ℕ × ℕ → MemReq} {pieces : List (ℕ × ℕ)} {b : Bench}

theorem lpcTransfer_returns (hplain : ∀ p ∈ pieces, (request p).Plain) {steps : List (List BenchStep)}
    {afu : LpcAfu} (hb : b.Quiet) {out out' : Buffer UInt8} {a' : LpcApp}
    (h : lpcTransfer client cfg request pieces steps afu b out = some (0, out', a')) :
    a'.afu = some afu ∧ a'.bench.Quiet ∧
      (a'.bench.afu.mem, out') = pieces.foldl (lpcEffect request) (b.afu.mem, out) := by
  induction pieces generalizing steps b out with
  | nil =>
    obtain ⟨-, hrest⟩ := Prod.mk.inj (Option.some.inj h)
    obtain ⟨rfl, rfl⟩ := Prod.mk.inj hrest
    exact ⟨rfl, hb, rfl⟩
  | cons p pieces ih =>
    cases steps with
    | nil => exact absurd h nofun
    | cons s steps =>
      unfold lpcTransfer at h
      cases hturn : lpcTurn afu b client cfg (request p) s with
      | none =>
        rw [hturn] at h
        exact absurd h nofun
      | some ret =>
        obtain ⟨data, afu', b'⟩ := ret
        obtain ⟨rfl, rfl, hb', hmem⟩ := lpcTurn_returns client cfg hb (hplain p (by simp)) hturn
        rw [hturn] at h
        dsimp only at h
        by_cases hopened : afu'.opened = true
        · rw [if_pos hopened] at h
          have hrest := ih (fun q hq => hplain q (by simp [hq])) hb' h
          rw [hmem] at hrest
          exact hrest
        · rw [if_neg hopened] at h
          exact absurd (congrArg Prod.fst (Option.some.inj h)) (show ¬(-1 : ℤ) = 0 by decide)

variable (client cfg) in
/-- However the steps begin for each piece, they can go on so that the transfer returns. -/
theorem lpcTransfer_completes (hplain : ∀ p ∈ pieces, (request p).Plain) {afu : LpcAfu}
    (hopened : afu.opened = true) (hb : b.Quiet) (out : Buffer UInt8) {starts : List (List BenchStep)}
    (hlength : starts.length = pieces.length) :
    ∃ steps out' a', List.Forall₂ (fun start s => start <+: s) starts steps ∧
      lpcTransfer client cfg request pieces steps afu b out = some (0, out', a') := by
  induction pieces generalizing starts b out with
  | nil =>
    obtain rfl := List.length_eq_zero_iff.mp hlength
    exact ⟨[], _, _, .nil, rfl⟩
  | cons p pieces ih =>
    cases starts with
    | nil => exact absurd hlength nofun
    | cons start starts =>
      obtain ⟨more, b', hturn⟩ := lpcTurn_completes client cfg hb (hplain p (by simp)) afu start
      obtain ⟨-, -, hb', -⟩ := lpcTurn_returns client cfg hb (hplain p (by simp)) hturn
      obtain ⟨steps, out', a', hstarts, hrest⟩ := ih (fun q hq => hplain q (by simp [hq])) hb'
        (out.write p.1 ((request p).reply b.afu.mem)) (Nat.succ.inj hlength)
      refine ⟨(start ++ more) :: steps, out', a', .cons (List.prefix_append start more) hstarts, ?_⟩
      unfold lpcTransfer
      rw [hturn]
      dsimp only
      rw [if_pos hopened]
      exact hrest

end Loop

/-! ## The bytes of a transfer -/

section Bytes

variable {offset : UInt64} {size : ℕ} (hend : offset.toNat + size ≤ 2 ^ 32)

include hend

theorem address_piece {p : ℕ × ℕ} (h : LpcPiece offset size p) :
    (offset + UInt64.ofNat p.1).toNat = offset.toNat + p.1 := by
  have hinside := h.inside
  rw [UInt64.toNat_add, UInt64.toNat_ofNat']
  omega

theorem narrow_piece {p : ℕ × ℕ} (h : LpcPiece offset size p) : (offset + UInt64.ofNat p.1).toNat < 2 ^ 32 := by
  have hinside := h.inside
  have hpos := lpcSizes_pos h.legal
  rw [address_piece hend h]
  omega

/-- Pieces that are written one after the other are the whole. -/
theorem foldl_write (val : Buffer UInt8) {pieces : List (ℕ × ℕ)}
    (hpieces : ∀ p ∈ pieces, LpcPiece offset size p) {i : ℕ} (hcont : Contiguous i size pieces)
    (mem out : Buffer UInt8) :
    pieces.foldl (lpcEffect (fun (i, stride) => ⟨.write, offset + UInt64.ofNat i, stride, val.read i stride, 0⟩))
      (mem, out) = (mem.write (offset.toNat + i) (val.read i (size - i)), out) := by
  induction pieces generalizing i mem out with
  | nil =>
    have hlast : size - i = 0 := Nat.sub_eq_zero_of_le hcont
    rw [hlast]
    exact Prod.ext (Buffer.write_nil _ _).symm rfl
  | cons p pieces ih =>
    have hp := hpieces p (by simp)
    have hinside := hp.inside
    obtain ⟨rfl, hcont⟩ := hcont
    have hpiece : lpcEffect (fun (i, stride) => ⟨.write, offset + UInt64.ofNat i, stride, val.read i stride, 0⟩)
        (mem, out) p = (mem.write (offset.toNat + p.1) (val.read p.1 p.2), out) := by
      rw [← address_piece hend hp]
      exact Prod.ext rfl (Buffer.write_nil _ _)
    have hsplit := mem.write_append (offset.toNat + p.1) (val.read p.1 p.2)
      (val.read (p.1 + p.2) (size - (p.1 + p.2)))
    rw [Buffer.length_read, ← Buffer.read_append, Nat.add_assoc,
      show p.2 + (size - (p.1 + p.2)) = size - p.1 by omega] at hsplit
    rw [List.foldl_cons, hpiece, ih (fun q hq => hpieces q (by simp [hq])) hcont, hsplit]

/-- Pieces that are read one after the other are the whole. -/
theorem foldl_read {pieces : List (ℕ × ℕ)} (hpieces : ∀ p ∈ pieces, LpcPiece offset size p) {i : ℕ}
    (hcont : Contiguous i size pieces) (mem out : Buffer UInt8) :
    pieces.foldl (lpcEffect (fun (i, stride) => ⟨.read, offset + UInt64.ofNat i, stride, [], 0⟩)) (mem, out) =
      (mem, out.write i (mem.read (offset.toNat + i) (size - i))) := by
  induction pieces generalizing i out with
  | nil =>
    have hlast : size - i = 0 := Nat.sub_eq_zero_of_le hcont
    rw [hlast]
    exact Prod.ext rfl (Buffer.write_nil _ _).symm
  | cons p pieces ih =>
    have hp := hpieces p (by simp)
    have hinside := hp.inside
    obtain ⟨rfl, hcont⟩ := hcont
    have hpiece : lpcEffect (fun (i, stride) => ⟨.read, offset + UInt64.ofNat i, stride, [], 0⟩) (mem, out) p =
        (mem, out.write p.1 (mem.read (offset.toNat + p.1) p.2)) := by
      rw [← address_piece hend hp]
      rfl
    have hsplit := out.write_append p.1 (mem.read (offset.toNat + p.1) p.2)
      (mem.read (offset.toNat + (p.1 + p.2)) (size - (p.1 + p.2)))
    rw [Buffer.length_read, ← Nat.add_assoc, ← Buffer.read_append,
      show p.2 + (size - (p.1 + p.2)) = size - p.1 by omega] at hsplit
    rw [List.foldl_cons, hpiece, ih (fun q hq => hpieces q (by simp [hq])) hcont, ← Nat.add_assoc, hsplit]

end Bytes

/-! ## Coherence -/

section Coherence

variable {a : LpcApp} {client : ℕ} {cfg : MmioCfg} {offset : UInt64} {size : ℕ}

/-- A transfer that succeeds has passed the checks. -/
theorem LpcApp.transfer_checked {request : ℕ × ℕ → MemReq} {pieces : List (ℕ × ℕ)} {steps : List (List BenchStep)}
    {out out' : Buffer UInt8} {a' : LpcApp} (h : a.transfer client cfg request pieces steps out = some (0, out', a')) :
    ∃ afu, a.afu = some afu ∧ lpcTransfer client cfg request pieces steps afu a.bench out = some (0, out', a') := by
  have hfailed : ¬(-1 : ℤ) = 0 := by decide
  unfold LpcApp.transfer at h
  cases hafu : a.afu with
  | none =>
    rw [hafu] at h
    exact absurd (congrArg Prod.fst (Option.some.inj h)) hfailed
  | some afu =>
    rw [hafu] at h
    dsimp only at h
    by_cases hmapped : afu.lpcMapped = true
    · rw [if_pos hmapped] at h
      exact ⟨afu, rfl, h⟩
    · rw [if_neg hmapped] at h
      exact absurd (congrArg Prod.fst (Option.some.inj h)) hfailed

theorem plain_write (hend : offset.toNat + size ≤ 2 ^ 32) (val : Buffer UInt8) :
    ∀ p ∈ lpcPieces offset size size 0,
      MemReq.Plain ⟨.write, offset + UInt64.ofNat p.1, p.2, val.read p.1 p.2, 0⟩ := by
  intro p hp
  have hpiece := (lpcPieces_spec offset size size 0 (by omega)).1 p hp
  exact ⟨lpcWrite_legal hpiece val, nofun, narrow_piece hend hpiece⟩

theorem plain_read (hend : offset.toNat + size ≤ 2 ^ 32) :
    ∀ p ∈ lpcPieces offset size size 0, MemReq.Plain ⟨.read, offset + UInt64.ofNat p.1, p.2, [], 0⟩ := by
  intro p hp
  have hpiece := (lpcPieces_spec offset size size 0 (by omega)).1 p hp
  exact ⟨lpcRead_legal hpiece, nofun, narrow_piece hend hpiece⟩

theorem lpcWrite_returns (hend : offset.toNat + size ≤ 2 ^ 32) (ha : a.bench.Quiet) {val : Buffer UInt8}
    {steps : List (List BenchStep)} {a' : LpcApp} (h : ocxlLpcWrite a client cfg offset val size steps = some (0, a')) :
    a'.afu = a.afu ∧ a'.bench.Quiet ∧
      a'.bench.afu.mem = a.bench.afu.mem.write offset.toNat (val.read 0 size) := by
  obtain ⟨⟨rc, out, a''⟩, htransfer, heq⟩ := Option.map_eq_some_iff.mp h
  obtain ⟨rfl, rfl⟩ := Prod.mk.inj heq
  obtain ⟨afu, hafu, hloop⟩ := LpcApp.transfer_checked htransfer
  obtain ⟨hpieces, hcont⟩ := lpcPieces_spec offset size size 0 (by omega)
  obtain ⟨hafu', hquiet, heffect⟩ := lpcTransfer_returns (plain_write hend val) ha hloop
  rw [foldl_write hend val hpieces hcont] at heffect
  exact ⟨hafu'.trans hafu.symm, hquiet, congrArg Prod.fst heffect⟩

theorem lpcRead_returns (hend : offset.toNat + size ≤ 2 ^ 32) (ha : a.bench.Quiet) {out out' : Buffer UInt8}
    {steps : List (List BenchStep)} {a' : LpcApp}
    (h : ocxlLpcRead a client cfg offset out size steps = some (0, out', a')) :
    a'.bench.afu.mem = a.bench.afu.mem ∧ out' = out.write 0 (a.bench.afu.mem.read offset.toNat size) := by
  obtain ⟨afu, hafu, hloop⟩ := LpcApp.transfer_checked h
  obtain ⟨hpieces, hcont⟩ := lpcPieces_spec offset size size 0 (by omega)
  obtain ⟨-, -, heffect⟩ := lpcTransfer_returns (plain_read hend) ha hloop
  rw [foldl_read hend hpieces hcont] at heffect
  exact ⟨congrArg Prod.fst heffect, congrArg Prod.snd heffect⟩

/-- A mapped and open AFU lets every transfer return, however the steps begin for each piece. -/
structure LpcReturns (client : ℕ) (cfg : MmioCfg) (a : LpcApp) (offset : UInt64) (size : ℕ) : Prop where
  write : ∀ val starts, starts.length = (lpcPieces offset size size 0).length → ∃ steps a',
    List.Forall₂ (fun start s => start <+: s) starts steps ∧
      ocxlLpcWrite a client cfg offset val size steps = some (0, a')
  read : ∀ out starts, starts.length = (lpcPieces offset size size 0).length → ∃ steps out' a',
    List.Forall₂ (fun start s => start <+: s) starts steps ∧
      ocxlLpcRead a client cfg offset out size steps = some (0, out', a')

theorem lpc_completes (hend : offset.toNat + size ≤ 2 ^ 32) (ha : a.bench.Quiet) {afu : LpcAfu}
    (hafu : a.afu = some afu) (hmapped : afu.lpcMapped = true) (hopened : afu.opened = true) :
    LpcReturns client cfg a offset size := by
  constructor
  case write =>
    intro val starts hlength
    obtain ⟨steps, out', a', hstarts, hloop⟩ := lpcTransfer_completes client cfg
      (plain_write hend val) hopened ha (Buffer.const 0) hlength
    refine ⟨steps, a', hstarts, ?_⟩
    rw [ocxlLpcWrite, LpcApp.transfer, hafu]
    dsimp only
    rw [if_pos hmapped, hloop]
    rfl
  case read =>
    intro out starts hlength
    obtain ⟨steps, out', a', hstarts, hloop⟩ := lpcTransfer_completes client cfg
      (plain_read hend) hopened ha out hlength
    refine ⟨steps, out', a', hstarts, ?_⟩
    rw [ocxlLpcRead, LpcApp.transfer, hafu]
    dsimp only
    rw [if_pos hmapped, hloop]

end Coherence

/-- What was written is read back, nothing outside has changed, and both calls do return. The loops of the
source count in an `int`. -/
theorem lpcCoherence (client : ℕ) (cfg : MmioCfg) {a : LpcApp} (ha : a.bench.Quiet) {offset : UInt64} {size : ℕ}
    (_hcounted : size < 2 ^ 31) (hend : offset.toNat + size ≤ 2 ^ 32) (val : Buffer UInt8) :
    (∀ out s₁ s₂ a₁ a₂ out', ocxlLpcWrite a client cfg offset val size s₁ = some (0, a₁) →
      ocxlLpcRead a₁ client cfg offset out size s₂ = some (0, out', a₂) →
      out'.read 0 size = val.read 0 size ∧
      ∀ j, ¬(offset.toNat ≤ j ∧ j < offset.toNat + size) → a₂.bench.afu.mem j = a.bench.afu.mem j) ∧
    (∀ afu, a.afu = some afu → afu.lpcMapped = true → afu.opened = true →
      LpcReturns client cfg a offset size ∧ ∀ s₁ a₁, ocxlLpcWrite a client cfg offset val size s₁ = some (0, a₁) →
        LpcReturns client cfg a₁ offset size) := by
  constructor
  · intro out s₁ s₂ a₁ a₂ out' hwrite hread
    obtain ⟨-, hquiet, hmem₁⟩ := lpcWrite_returns hend ha hwrite
    obtain ⟨hmem₂, hout⟩ := lpcRead_returns hend hquiet hread
    have hstored := Buffer.read_eq_of_holds (Buffer.holds_write a.bench.afu.mem offset.toNat (val.read 0 size))
    have hcopied := Buffer.read_eq_of_holds (Buffer.holds_write out 0 (a₁.bench.afu.mem.read offset.toNat size))
    rw [Buffer.length_read] at hstored hcopied
    refine ⟨?_, ?_⟩
    · rw [hout, hcopied, hmem₁, hstored]
    · intro j hj
      rw [hmem₂, hmem₁]
      by_cases hlow : j < offset.toNat
      · exact Buffer.write_of_lt _ _ _ j hlow
      · exact Buffer.write_of_ge _ _ _ j (by rw [Buffer.length_read]; omega)
  · intro afu hafu hmapped hopened
    refine ⟨lpc_completes hend ha hafu hmapped hopened, ?_⟩
    intro s₁ a₁ hwrite
    obtain ⟨hafu₁, hquiet, -⟩ := lpcWrite_returns hend ha hwrite
    exact lpc_completes hend hquiet (hafu₁.trans hafu) hmapped hopened

/-- Two hundred bytes from `0x3D` on, in six pieces. -/
theorem lpcCoherence_unaligned :
    let cfg : MmioCfg := ⟨0, 0, 0, 0, 0⟩
    let a : LpcApp := ⟨some ⟨true, true⟩, Bench.fresh 0xAA⟩
    let val : Buffer UInt8 := fun i => UInt8.ofNat (7 * i + 1)
    let turn : List BenchStep := [.send, .clock (Buffer.const 0x55) 0, .clock (Buffer.const 0) 1,
      .clock (Buffer.const 0) 2, .poll 3, .clock (Buffer.const 0) 1, .poll 0]
    lpcPieces 0x3D 200 200 0 = [(0, 1), (1, 2), (3, 64), (67, 128), (195, 4), (199, 1)] ∧
      (∀ out s₁ s₂ a₁ a₂ out', ocxlLpcWrite a 0 cfg 0x3D val 200 s₁ = some (0, a₁) →
        ocxlLpcRead a₁ 0 cfg 0x3D out 200 s₂ = some (0, out', a₂) → out'.read 0 200 = val.read 0 200 ∧
        ∀ j, ¬(0x3D ≤ j ∧ j < 0x3D + 200) → a₂.bench.afu.mem j = 0xAA) ∧
      ((ocxlLpcWrite a 0 cfg 0x3D val 200 (List.replicate 6 turn)).bind fun (_, a) =>
        (ocxlLpcRead a 0 cfg 0x3D (Buffer.const 0) 200 (List.replicate 6 turn)).map fun (rc, out, _) =>
          (rc, out.read 64 3)) = some (0, val.read 64 3) := by
  refine ⟨by decide +kernel, ?_, by decide +kernel⟩
  exact (lpcCoherence 0 ⟨0, 0, 0, 0, 0⟩ (a := ⟨some ⟨true, true⟩, Bench.fresh 0xAA⟩) (Bench.fresh_quiet 0xAA)
    (by decide) (by decide) _).1

end Ocse
