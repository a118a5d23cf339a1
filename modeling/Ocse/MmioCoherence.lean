import Ocse.MemAccess

/-!
# MMIO over a byte memory

`ocxl_mmio_write64` and its siblings, from the call to its return: the checks, the message to ocse, the
command to the AFU and its answer, the acknowledgement. A number is sent in network order, stands in the
AFU's memory in the order of the host, and comes back in network order. The endianness that a caller asks
for is not looked at.
-/

namespace Ocse

/-! ## The library -/

inductive OcxlErr
  | ok | noDev | noMem | noContext | outOfBounds
  deriving DecidableEq, Repr

/-- The fields of `struct ocxl_afu` that an MMIO looks at. -/
structure OcxlAfu where
  mapped : Bool
  globalMapped : Bool
  opened : Bool
  deriving DecidableEq, Repr

/-- `_all_idle`, after a failure of the socket -/
def OcxlAfu.allIdle (_ : OcxlAfu) : OcxlAfu := ⟨false, false, false⟩

/-- The flag of the space that a handle is for. -/
def OcxlAfu.mappedFor (afu : OcxlAfu) (global : Bool) : Bool := if global then afu.globalMapped else afu.mapped

/-- `ocxl_mmio_h` -/
structure OcxlMmio where
  afu : Option OcxlAfu
  global : Bool
  deriving DecidableEq, Repr

/-- An application with an MMIO handle, and what is behind the socket. -/
structure App where
  mmio : OcxlMmio
  bench : Bench

def OcxlMmio.check (mmio : OcxlMmio) (offset mask : UInt64) : Except OcxlErr OcxlAfu :=
  match mmio.afu with
  | none => .error .noMem
  | some afu =>
    if !afu.mappedFor mmio.global then .error .noMem
    else if offset &&& mask ≠ 0 then .error .outOfBounds
    else .ok afu

/-- `_handle_ack`: what is then in `mmio.data`. A response code is reported and has no effect. -/
def handleAck (afu : OcxlAfu) (r : MmioReq) (stream : List UInt8) : UInt64 × OcxlAfu :=
  let (afu, stream) := match getBytes 1 stream with
    | none => (afu.allIdle, stream)
    | some (_, stream) => (afu, stream)
  if r.rnw then
    match getBE (if r.dw then 8 else 4) stream with
    | none => (if r.dw then 0xFEEDB00FFEEDB00F else 0xFEEDB00F, afu.allIdle)
    | some (data, _) => (UInt64.ofNat data, afu)
  else (r.data, afu)

/-- A call that waits for its acknowledgement while the steps are taken; `none` when it still waits. The
number is what the call finds in `mmio.data`, or nothing when it does not look. -/
def App.call (a : App) (client : ℕ) (cfg : MmioCfg) (rnw dw : Bool) (offset value : UInt64)
    (steps : List BenchStep) : Option (OcxlErr × Option UInt64 × App) :=
  match a.mmio.check offset (if dw then 0x7 else 0x3) with
  | .error err => some (err, none, a)
  | .ok afu =>
    let r : MmioReq := ⟨a.mmio.global, rnw, dw, offset.toUInt32, value⟩
    match a.bench.exchange client cfg r.message steps with
    | some (ack :: stream, bench) =>
      if ack = ocseMmioAck then
        let (data, afu) := handleAck afu r stream
        some (if afu.opened then .ok else .noDev, some data, ⟨{ a.mmio with afu := some afu }, bench⟩)
      else none
    | _ => none

def ocxlMmioWrite64 (a : App) (client : ℕ) (cfg : MmioCfg) (offset : UInt64) (value : UInt64)
    (steps : List BenchStep) : Option (OcxlErr × App) :=
  (a.call client cfg false true offset value steps).map (fun (err, _, a) => (err, a))

def ocxlMmioRead64 (a : App) (client : ℕ) (cfg : MmioCfg) (offset : UInt64) (steps : List BenchStep) :
    Option (OcxlErr × Option UInt64 × App) :=
  a.call client cfg true true offset 0 steps

def ocxlMmioWrite32 (a : App) (client : ℕ) (cfg : MmioCfg) (offset : UInt64) (value : UInt32)
    (steps : List BenchStep) : Option (OcxlErr × App) :=
  (a.call client cfg false false offset value.toUInt64 steps).map (fun (err, _, a) => (err, a))

def ocxlMmioRead32 (a : App) (client : ℕ) (cfg : MmioCfg) (offset : UInt64) (steps : List BenchStep) :
    Option (OcxlErr × Option UInt32 × App) :=
  (a.call client cfg true false offset 0 steps).map (fun (err, out, a) => (err, out.map UInt64.toUInt32, a))

/-! ## One access -/

/-- The configuration as `read_afu_config` leaves it. -/
structure MmioCfg.Aligned (cfg : MmioCfg) : Prop where
  bar0 : 16 ∣ cfg.bar0.toNat
  globalMmioOffset : 16 ∣ cfg.globalMmioOffset.toNat
  ppMmioOffset : 16 ∣ cfg.ppMmioOffset.toNat
  ppMmioStride : 16 ∣ cfg.ppMmioStride.toNat

theorem MmioCfg.Aligned.base {cfg : MmioCfg} (h : cfg.Aligned) (global : Bool) : 16 ∣ (cfg.base global).toNat := by
  have hmul : 16 ∣ (cfg.ppMmioStride * UInt32.ofNat cfg.context).toUInt64.toNat := by
    obtain ⟨k, hk⟩ := h.ppMmioStride
    rw [UInt32.toNat_toUInt64, UInt32.toNat_mul, hk, Nat.mul_assoc]
    exact (Nat.dvd_mod_iff (by decide)).mpr (Nat.dvd_mul_right _ _)
  obtain ⟨h₁, h₂, h₃, -⟩ := h
  unfold MmioCfg.base
  split_ifs
  · rw [UInt64.toNat_add]
    omega
  · rw [UInt64.toNat_add, UInt64.toNat_add]
    omega

/-- The address of an access in the AFU's memory. -/
def MmioCfg.address (cfg : MmioCfg) (global : Bool) (offset : UInt64) : ℕ :=
  (cfg.base global + UInt64.ofNat offset.toUInt32.toNat).toNat

/-- The event of a request, as it is added to the list. -/
def MmioReq.event (r : MmioReq) (cfg : MmioCfg) (id : ℕ) : MmioEvent :=
  { MmioEvent.new id r.rnw (cfg.base r.global + UInt64.ofNat r.addr.toNat) with
    dw := r.dw
    cmdData := r.received }

theorem MmioReq.byteCnt_event (r : MmioReq) (cfg : MmioCfg) (id : ℕ) :
    (r.event cfg id).byteCnt = if r.dw then 8 else 4 := rfl

theorem MmioReq.event_fits (r : MmioReq) {cfg : MmioCfg} (hcfg : cfg.Aligned) (id : ℕ)
    (haligned : (if r.dw then 8 else 4) ∣ r.addr.toNat) : (r.event cfg id).Fits := by
  refine ⟨rfl, rfl, rfl, rfl, ?_, .inl rfl, ?_⟩
  · intro hrnw
    have hread : r.rnw = true := hrnw
    exact if_pos hread
  · have hbase := hcfg.base r.global
    have haddr := r.addr.toNat_lt
    change (if r.dw then 8 else 4) ∣ (cfg.base r.global + UInt64.ofNat r.addr.toNat).toNat
    rw [UInt64.toNat_add, UInt64.toNat_ofNat']
    cases hdw : r.dw <;> simp only [hdw] at haligned ⊢ <;> simp at haligned ⊢ <;> omega

theorem Bench.Quiet.asks_mmio {b : Bench} (hb : b.Quiet) (client : ℕ) {cfg : MmioCfg} (hcfg : cfg.Aligned)
    (r : MmioReq) (haligned : (if r.dw then 8 else 4) ∣ r.addr.toNat) :
    b.Asks client cfg r.message (r.event cfg b.engine.nextId) := by
  have hdecode := handleMmio_message client cfg r []
  rw [List.append_nil] at hdecode
  refine ⟨hb, r.event_fits hcfg _ haligned, rfl, _, _, hdecode, ?_⟩
  simp [Mmio.step, hb.running, Mmio.act, addMmio, Mmio.append, Mmio.setAccess, Mmio.added, MmioReq.event]

/-- The value that is written; a 32-bit one has been doubled, and its low half goes to the AFU. -/
theorem MmioReq.after_event (r : MmioReq) (hrnw : r.rnw = false) (cfg : MmioCfg) (id : ℕ) (mem : Buffer UInt8) :
    (r.event cfg id).encode.after mem = mem.write (cfg.base r.global + UInt64.ofNat r.addr.toNat).toNat
      (leBytes (if r.dw then 8 else 4) r.data.toNat) := by
  have hbytes : ∀ n m, n + m = 8 → ((Buffer.const 0).write 0 (leBytes 8 r.received.toNat)).read 0 n =
      leBytes n r.received.toNat := by
    intro n m hsum
    have hload := loadLE_of_holds _ 0 8 r.received.toNat (Buffer.holds_write (Buffer.const 0) 0 _)
    have hlt : r.received.toNat < 256 ^ 8 := r.received.toNat_lt
    rw [← leBytes_loadLE _ 0 n m, hsum, hload, Nat.mod_eq_of_lt hlt]
  have hafter : (r.event cfg id).encode.after mem = mem.write
      (cfg.base r.global + UInt64.ofNat r.addr.toNat).toNat
      (((Buffer.const 0).write 0 (leBytes 8 r.received.toNat)).read 0 (if r.dw then 8 else 4)) := by
    have hread : (r.event cfg id).encode.rnw = false := hrnw
    rw [MmioEvent.after, if_neg (by simp [hread])]
    rfl
  rw [hafter]
  cases hdw : r.dw with
  | true =>
    have hrec : r.received = r.data := by simp [MmioReq.received, hrnw, hdw]
    have h8 := hbytes 8 0 rfl
    rw [hrec] at h8
    rw [hrec, if_pos rfl, h8]
  | false =>
    have hrec : r.received.toNat % 256 ^ 4 = r.data.toNat % 256 ^ 4 := by
      have hlow : r.data.toNat % 2 ^ 32 < 2 ^ 32 := Nat.mod_lt _ (by decide)
      have hval : r.received = UInt64.ofNat ((r.data.toNat % 2 ^ 32) <<< 32 ||| r.data.toNat % 2 ^ 32) := by
        simp [MmioReq.received, hrnw, hdw]
      rw [hval, ← Nat.shiftLeft_add_eq_or_of_lt hlow, Nat.shiftLeft_eq, UInt64.toNat_ofNat']
      omega
    rw [if_neg (by decide), hbytes 4 4 rfl, ← leBytes_mod 4 r.received.toNat, hrec, leBytes_mod]

theorem MmioReq.reply_event (r : MmioReq) (hrnw : r.rnw = true) (cfg : MmioCfg) (id : ℕ) (mem : Buffer UInt8) :
    (r.event cfg id).encode.reply mem = beBytes (if r.dw then 8 else 4)
      (loadLE mem (cfg.base r.global + UInt64.ofNat r.addr.toNat).toNat (if r.dw then 8 else 4)) := by
  have hread : ¬(r.event cfg id).encode.rnw = false := by
    have heq : (r.event cfg id).encode.rnw = true := hrnw
    simp [heq]
  have hsize : ¬(r.event cfg id).encode.size ≠ 0 := not_not.mpr rfl
  rw [MmioEvent.reply, if_neg hread, if_neg hsize]
  exact (beBytes_loadLE mem _ (if r.dw then 8 else 4) 0).symm

/-! ## One call -/

/-- What is left when the checks have been passed. -/
structure OcxlMmio.Passes (mmio : OcxlMmio) (offset : UInt64) (dw : Bool) (afu : OcxlAfu) : Prop where
  found : mmio.afu = some afu
  mapped : afu.mappedFor mmio.global = true
  aligned : (if dw then 8 else 4) ∣ offset.toNat

theorem dvd_of_mask {offset mask : UInt64} {k : ℕ} (hmask : mask.toNat = 2 ^ k - 1) (h : offset &&& mask = 0) :
    2 ^ k ∣ offset.toNat := by
  have hzero : offset.toNat &&& (2 ^ k - 1) = 0 := by
    rw [← hmask, ← UInt64.toNat_and, h]
    rfl
  rw [Nat.and_two_pow_sub_one_eq_mod] at hzero
  exact Nat.dvd_of_mod_eq_zero hzero

theorem OcxlMmio.check_ok {mmio : OcxlMmio} {afu : OcxlAfu} {offset : UInt64} {dw : Bool}
    (h : mmio.check offset (if dw then 0x7 else 0x3) = .ok afu) : mmio.Passes offset dw afu := by
  unfold OcxlMmio.check at h
  cases hafu : mmio.afu with
  | none =>
    rw [hafu] at h
    exact absurd h nofun
  | some afu' =>
    rw [hafu] at h
    dsimp only at h
    by_cases hmapped : (!afu'.mappedFor mmio.global) = true
    · rw [if_pos hmapped] at h
      exact absurd h nofun
    · rw [if_neg hmapped] at h
      by_cases hmask : (offset &&& if dw then 0x7 else 0x3) ≠ 0
      · rw [if_pos hmask] at h
        exact absurd h nofun
      · rw [if_neg hmask] at h
        obtain rfl := Except.ok.inj h
        refine ⟨hafu, by simpa using hmapped, ?_⟩
        cases dw with
        | true => exact dvd_of_mask (k := 3) rfl (not_not.mp hmask)
        | false => exact dvd_of_mask (k := 2) rfl (not_not.mp hmask)

theorem OcxlMmio.check_error {mmio : OcxlMmio} {offset mask : UInt64} : mmio.check offset mask ≠ .error .ok := by
  unfold OcxlMmio.check
  cases mmio.afu with
  | none => exact nofun
  | some afu =>
    dsimp only
    split_ifs <;> exact nofun

/-- The number that an acknowledgement leaves in `mmio.data`. -/
theorem handleAck_reply (afu : OcxlAfu) (r : MmioReq) (cfg : MmioCfg) (id : ℕ) (mem : Buffer UInt8) :
    handleAck afu r (0 :: (r.event cfg id).encode.reply mem) = (if r.rnw then UInt64.ofNat
      (loadLE mem (cfg.base r.global + UInt64.ofNat r.addr.toNat).toNat (if r.dw then 8 else 4)) else r.data, afu) := by
  have hcode : getBytes 1 (0 :: (r.event cfg id).encode.reply mem) =
      some ((Buffer.const 0).write 0 [0], (r.event cfg id).encode.reply mem) :=
    getBytes_append (show [(0 : UInt8)].length = 1 by rfl) _
  unfold handleAck
  rw [hcode]
  cases hrnw : r.rnw with
  | false => rfl
  | true =>
    have hdata := getBE_append (loadLE_lt mem (cfg.base r.global + UInt64.ofNat r.addr.toNat).toNat
      (if r.dw then 8 else 4)) []
    rw [List.append_nil] at hdata
    simp only [r.reply_event hrnw, hdata, if_true]

section Call

variable {a : App} (client : ℕ) {cfg : MmioCfg} {offset : UInt64} {dw : Bool} {afu : OcxlAfu}

theorem App.asks (hcfg : cfg.Aligned) (ha : a.bench.Quiet) (hoffset : offset.toNat < 2 ^ 32)
    (hcheck : a.mmio.check offset (if dw then 0x7 else 0x3) = .ok afu) (rnw : Bool) (value : UInt64) :
    a.bench.Asks client cfg (MmioReq.message ⟨a.mmio.global, rnw, dw, offset.toUInt32, value⟩)
      (MmioReq.event ⟨a.mmio.global, rnw, dw, offset.toUInt32, value⟩ cfg a.bench.engine.nextId) := by
  have haddr : offset.toUInt32.toNat = offset.toNat := by
    rw [UInt64.toNat_toUInt32]
    exact Nat.mod_eq_of_lt hoffset
  refine ha.asks_mmio client hcfg _ ?_
  change (if dw then 8 else 4) ∣ offset.toUInt32.toNat
  rw [haddr]
  exact (OcxlMmio.check_ok hcheck).aligned

/-- A call whose checks pass: it waits, or it returns with the memory as the access leaves it. -/
theorem App.call_eq (hcfg : cfg.Aligned) (ha : a.bench.Quiet) (hoffset : offset.toNat < 2 ^ 32)
    (hcheck : a.mmio.check offset (if dw then 0x7 else 0x3) = .ok afu) (rnw : Bool) (value : UInt64)
    (steps : List BenchStep) : a.call client cfg rnw dw offset value steps =
      (a.bench.exchange client cfg (MmioReq.message ⟨a.mmio.global, rnw, dw, offset.toUInt32, value⟩) steps).map
        (fun (_, bench) => (if afu.opened then .ok else .noDev,
          some (if rnw then UInt64.ofNat (loadLE a.bench.afu.mem (cfg.address a.mmio.global offset)
            (if dw then 8 else 4)) else value),
          ⟨a.mmio, bench⟩)) := by
  have hasks := App.asks client hcfg ha hoffset hcheck rnw value
  have hmmio : ({ a.mmio with afu := some afu } : OcxlMmio) = a.mmio := by
    rw [← (OcxlMmio.check_ok hcheck).found]
  unfold App.call
  rw [hcheck]
  dsimp only
  cases hret : a.bench.exchange client cfg
      (MmioReq.message ⟨a.mmio.global, rnw, dw, offset.toUInt32, value⟩) steps with
  | none => rfl
  | some ret =>
    obtain ⟨bytes, bench⟩ := ret
    obtain ⟨-, rfl, -⟩ := hasks.returns hret
    have hack : (MmioReq.event ⟨a.mmio.global, rnw, dw, offset.toUInt32, value⟩ cfg
        a.bench.engine.nextId).encode.ack = ocseMmioAck := rfl
    simp only [hack, if_true, handleAck_reply, Option.map_some, hmmio]
    rfl

/-- A call that succeeds has passed the checks. -/
theorem App.call_checked {a' : App} {rnw : Bool} {value : UInt64} {steps : List BenchStep} {out : Option UInt64}
    (h : a.call client cfg rnw dw offset value steps = some (.ok, out, a')) :
    ∃ afu, a.mmio.check offset (if dw then 0x7 else 0x3) = .ok afu := by
  cases hcheck : a.mmio.check offset (if dw then 0x7 else 0x3) with
  | error err =>
    unfold App.call at h
    rw [hcheck] at h
    obtain rfl : err = .ok := congrArg Prod.fst (Option.some.inj h)
    exact absurd hcheck OcxlMmio.check_error
  | ok afu => exact ⟨afu, rfl⟩

/-- What a call that returned has done. -/
theorem App.call_returns {a' : App} (hcfg : cfg.Aligned) (ha : a.bench.Quiet) (hoffset : offset.toNat < 2 ^ 32)
    {rnw : Bool} {value : UInt64} {steps : List BenchStep} {out : Option UInt64}
    (h : a.call client cfg rnw dw offset value steps = some (.ok, out, a')) :
    a'.mmio = a.mmio ∧ a'.bench.Quiet ∧ (if dw then 8 else 4) ∣ offset.toNat ∧
      out = some (if rnw then UInt64.ofNat (loadLE a.bench.afu.mem (cfg.address a.mmio.global offset)
        (if dw then 8 else 4)) else value) ∧
      a'.bench.afu.mem = if rnw then a.bench.afu.mem else
        a.bench.afu.mem.write (cfg.address a.mmio.global offset) (leBytes (if dw then 8 else 4) value.toNat) := by
  obtain ⟨afu, hcheck⟩ := App.call_checked client h
  rw [App.call_eq client hcfg ha hoffset hcheck] at h
  obtain ⟨⟨bytes, bench⟩, hret, heq⟩ := Option.map_eq_some_iff.mp h
  obtain ⟨-, houtEq⟩ := Prod.mk.inj heq
  obtain ⟨rfl, rfl⟩ := Prod.mk.inj houtEq
  obtain ⟨hquiet, -, hmem⟩ := (App.asks client hcfg ha hoffset hcheck rnw value).returns hret
  refine ⟨rfl, hquiet, (OcxlMmio.check_ok hcheck).aligned, rfl, hmem.trans ?_⟩
  cases rnw with
  | true => rfl
  | false => exact MmioReq.after_event _ rfl cfg _ _

/-- However the steps begin, they can go on so that the call returns. -/
theorem App.call_completes (hcfg : cfg.Aligned) (ha : a.bench.Quiet) (hoffset : offset.toNat < 2 ^ 32)
    (hcheck : a.mmio.check offset (if dw then 0x7 else 0x3) = .ok afu) (hopened : afu.opened = true) (rnw : Bool)
    (value : UInt64) (steps : List BenchStep) :
    ∃ more out a', a.call client cfg rnw dw offset value (steps ++ more) = some (.ok, out, a') := by
  obtain ⟨more, bytes, bench, hret⟩ :=
    (App.asks client hcfg ha hoffset hcheck rnw value).completes steps
  have heq := App.call_eq client hcfg ha hoffset hcheck rnw value (steps ++ more)
  rw [hret, hopened] at heq
  exact ⟨more, _, _, heq⟩

end Call

/-! ## The four functions -/

/-- What a write that returned has done: its bytes stand in the memory, and nothing else has changed. -/
structure App.Wrote (a : App) (cfg : MmioCfg) (offset : UInt64) (n value : ℕ) (a' : App) : Prop where
  mmio : a'.mmio = a.mmio
  quiet : a'.bench.Quiet
  aligned : n ∣ offset.toNat
  mem : a'.bench.afu.mem = a.bench.afu.mem.write (cfg.address a.mmio.global offset) (leBytes n value)

/-- What a read that returned has done. -/
structure App.HasRead (a : App) (cfg : MmioCfg) (offset : UInt64) (n value : ℕ) (a' : App) : Prop where
  mmio : a'.mmio = a.mmio
  quiet : a'.bench.Quiet
  aligned : n ∣ offset.toNat
  mem : a'.bench.afu.mem = a.bench.afu.mem
  value : value = loadLE a.bench.afu.mem (cfg.address a.mmio.global offset) n

section Functions

variable {a a' : App} {client : ℕ} {cfg : MmioCfg} {offset : UInt64} {steps : List BenchStep}

theorem write64_wrote (hcfg : cfg.Aligned) (ha : a.bench.Quiet) (hoffset : offset.toNat < 2 ^ 32) {value : UInt64}
    (h : ocxlMmioWrite64 a client cfg offset value steps = some (.ok, a')) :
    a.Wrote cfg offset 8 value.toNat a' := by
  obtain ⟨⟨err, out, a''⟩, hcall, heq⟩ := Option.map_eq_some_iff.mp h
  obtain ⟨rfl, rfl⟩ := Prod.mk.inj heq
  obtain ⟨hmmio, hquiet, haligned, -, hmem⟩ := App.call_returns client hcfg ha hoffset hcall
  exact ⟨hmmio, hquiet, haligned, hmem⟩

theorem write32_wrote (hcfg : cfg.Aligned) (ha : a.bench.Quiet) (hoffset : offset.toNat < 2 ^ 32) {value : UInt32}
    (h : ocxlMmioWrite32 a client cfg offset value steps = some (.ok, a')) :
    a.Wrote cfg offset 4 value.toNat a' := by
  obtain ⟨⟨err, out, a''⟩, hcall, heq⟩ := Option.map_eq_some_iff.mp h
  obtain ⟨rfl, rfl⟩ := Prod.mk.inj heq
  obtain ⟨hmmio, hquiet, haligned, -, hmem⟩ := App.call_returns client hcfg ha hoffset hcall
  rw [UInt32.toNat_toUInt64] at hmem
  exact ⟨hmmio, hquiet, haligned, hmem⟩

theorem read64_read (hcfg : cfg.Aligned) (ha : a.bench.Quiet) (hoffset : offset.toNat < 2 ^ 32)
    {out : Option UInt64} (h : ocxlMmioRead64 a client cfg offset steps = some (.ok, out, a')) :
    ∃ value, out = some value ∧ a.HasRead cfg offset 8 value.toNat a' := by
  obtain ⟨hmmio, hquiet, haligned, hout, hmem⟩ := App.call_returns client hcfg ha hoffset h
  refine ⟨_, hout, hmmio, hquiet, haligned, hmem, ?_⟩
  change (UInt64.ofNat _).toNat = _
  rw [UInt64.toNat_ofNat']
  exact Nat.mod_eq_of_lt (loadLE_lt _ _ 8)

theorem read64_aligned {out : Option UInt64} (h : ocxlMmioRead64 a client cfg offset steps = some (.ok, out, a')) :
    8 ∣ offset.toNat := by
  obtain ⟨afu, hcheck⟩ := App.call_checked client h
  exact (OcxlMmio.check_ok hcheck).aligned

theorem read32_read (hcfg : cfg.Aligned) (ha : a.bench.Quiet) (hoffset : offset.toNat < 2 ^ 32)
    {out : Option UInt32} (h : ocxlMmioRead32 a client cfg offset steps = some (.ok, out, a')) :
    ∃ value, out = some value ∧ a.HasRead cfg offset 4 value.toNat a' := by
  obtain ⟨⟨err, data, a''⟩, hcall, heq⟩ := Option.map_eq_some_iff.mp h
  obtain ⟨rfl, hrest⟩ := Prod.mk.inj heq
  obtain ⟨rfl, rfl⟩ := Prod.mk.inj hrest
  obtain ⟨hmmio, hquiet, haligned, hout, hmem⟩ := App.call_returns client hcfg ha hoffset hcall
  rw [hout]
  refine ⟨_, rfl, hmmio, hquiet, haligned, hmem, ?_⟩
  have hlt := loadLE_lt a.bench.afu.mem (cfg.address a.mmio.global offset) 4
  change (UInt64.ofNat (loadLE _ _ 4)).toUInt32.toNat = _
  rw [UInt64.toNat_toUInt32, UInt64.toNat_ofNat']
  omega

end Functions

/-! ## Coherence -/

/-- The address of the upper half of eight bytes. -/
theorem MmioCfg.Aligned.address_high {cfg : MmioCfg} (h : cfg.Aligned) (global : Bool) {offset : UInt64}
    (haligned : 8 ∣ offset.toNat) (hoffset : offset.toNat < 2 ^ 32) : (offset + 4).toNat = offset.toNat + 4 ∧
      cfg.address global (offset + 4) = cfg.address global offset + 4 := by
  have hbase := h.base global
  have hhigh : (offset + 4).toNat = offset.toNat + 4 := by
    rw [UInt64.toNat_add]
    change (offset.toNat + 4) % 2 ^ 64 = _
    omega
  refine ⟨hhigh, ?_⟩
  have hlt := (cfg.base global).toNat_lt
  unfold MmioCfg.address
  rw [UInt64.toNat_add, UInt64.toNat_add, UInt64.toNat_ofNat', UInt64.toNat_ofNat', UInt64.toNat_toUInt32,
    UInt64.toNat_toUInt32, hhigh]
  omega

/-- Reads see what was written, in whatever widths, and nothing beside it changes. -/
structure MmioCoherent (client : ℕ) (cfg : MmioCfg) (a : App) (offset : UInt64) : Prop where
  write64_read64 : ∀ value s₁ s₂ a₁ a₂ out, ocxlMmioWrite64 a client cfg offset value s₁ = some (.ok, a₁) →
    ocxlMmioRead64 a₁ client cfg offset s₂ = some (.ok, out, a₂) → out = some value
  write32_read32 : ∀ value s₁ s₂ a₁ a₂ out, ocxlMmioWrite32 a client cfg offset value s₁ = some (.ok, a₁) →
    ocxlMmioRead32 a₁ client cfg offset s₂ = some (.ok, out, a₂) → out = some value
  write64_read32 : ∀ value s₁ s₂ s₃ a₁ a₂ a₃ low high,
    ocxlMmioWrite64 a client cfg offset value s₁ = some (.ok, a₁) →
    ocxlMmioRead32 a₁ client cfg offset s₂ = some (.ok, low, a₂) →
    ocxlMmioRead32 a₂ client cfg (offset + 4) s₃ = some (.ok, high, a₃) →
    low = some value.toUInt32 ∧ high = some (value >>> 32).toUInt32
  write32_read64 : ∀ (low high : UInt32) s₁ s₂ s₃ a₁ a₂ a₃ out,
    ocxlMmioWrite32 a client cfg offset low s₁ = some (.ok, a₁) →
    ocxlMmioWrite32 a₁ client cfg (offset + 4) high s₂ = some (.ok, a₂) →
    ocxlMmioRead64 a₂ client cfg offset s₃ = some (.ok, out, a₃) →
    out = some (high.toUInt64 <<< 32 ||| low.toUInt64)
  highFirst_read64 : ∀ (low high : UInt32) s₁ s₂ s₃ a₁ a₂ a₃ out,
    ocxlMmioWrite32 a client cfg (offset + 4) high s₁ = some (.ok, a₁) →
    ocxlMmioWrite32 a₁ client cfg offset low s₂ = some (.ok, a₂) →
    ocxlMmioRead64 a₂ client cfg offset s₃ = some (.ok, out, a₃) →
    out = some (high.toUInt64 <<< 32 ||| low.toUInt64)
  write64_outside : ∀ value s a', ocxlMmioWrite64 a client cfg offset value s = some (.ok, a') →
    ∀ i, ¬(cfg.address a.mmio.global offset ≤ i ∧ i < cfg.address a.mmio.global offset + 8) →
      a'.bench.afu.mem i = a.bench.afu.mem i
  write32_outside : ∀ value s a', ocxlMmioWrite32 a client cfg offset value s = some (.ok, a') →
    ∀ i, ¬(cfg.address a.mmio.global offset ≤ i ∧ i < cfg.address a.mmio.global offset + 4) →
      a'.bench.afu.mem i = a.bench.afu.mem i
  read64_outside : ∀ s out a', ocxlMmioRead64 a client cfg offset s = some (.ok, out, a') →
    a'.bench.afu.mem = a.bench.afu.mem
  read32_outside : ∀ s out a', ocxlMmioRead32 a client cfg offset s = some (.ok, out, a') →
    a'.bench.afu.mem = a.bench.afu.mem
  returns : ∀ dw afu, a.mmio.check offset (if dw then 0x7 else 0x3) = .ok afu → afu.opened = true →
    ∀ rnw value s, ∃ more out a', a.call client cfg rnw dw offset value (s ++ more) = some (.ok, out, a')

theorem App.Wrote.outside {a a' : App} {cfg : MmioCfg} {offset : UInt64} {n value : ℕ}
    (h : a.Wrote cfg offset n value a') (i : ℕ)
    (hi : ¬(cfg.address a.mmio.global offset ≤ i ∧ i < cfg.address a.mmio.global offset + n)) :
    a'.bench.afu.mem i = a.bench.afu.mem i := by
  rw [h.mem]
  by_cases hlow : i < cfg.address a.mmio.global offset
  · exact Buffer.write_of_lt _ _ _ i hlow
  · exact Buffer.write_of_ge _ _ _ i (by rw [length_leBytes]; omega)

/-- A read of the bytes that were written gives the value. -/
theorem App.Wrote.read_same {a a₁ a₂ : App} {cfg : MmioCfg} {offset : UInt64} {n value value' : ℕ}
    (hw : a.Wrote cfg offset n value a₁) (hr : a₁.HasRead cfg offset n value' a₂) (hv : value < 256 ^ n) :
    value' = value := by
  rw [hr.value, hw.mmio, hw.mem, loadLE_write_same _ _ hv]

/-- Eight bytes are the two halves that 32-bit reads see. -/
theorem App.loadLE_halves {cfg : MmioCfg} (hcfg : cfg.Aligned) (a : App) {offset : UInt64}
    (haligned : 8 ∣ offset.toNat) (hoffset : offset.toNat < 2 ^ 32) (mem : Buffer UInt8) :
    loadLE mem (cfg.address a.mmio.global offset) 8 = loadLE mem (cfg.address a.mmio.global offset) 4 +
      2 ^ 32 * loadLE mem (cfg.address a.mmio.global (offset + 4)) 4 := by
  rw [(hcfg.address_high a.mmio.global haligned hoffset).2]
  exact loadLE_add mem _ 4 4

theorem toNat_halves (low high : UInt32) :
    (high.toUInt64 <<< 32 ||| low.toUInt64).toNat = low.toNat + 2 ^ 32 * high.toNat := by
  have hlow := low.toNat_lt
  have hhigh := high.toNat_lt
  rw [UInt64.toNat_or, UInt64.toNat_shiftLeft, UInt32.toNat_toUInt64, UInt32.toNat_toUInt64]
  change (high.toNat <<< 32) % 2 ^ 64 ||| low.toNat = _
  rw [Nat.shiftLeft_eq, Nat.mod_eq_of_lt (by omega), ← Nat.shiftLeft_eq, ← Nat.shiftLeft_add_eq_or_of_lt hlow,
    Nat.shiftLeft_eq]
  omega

/-- MMIO is coherent at every offset below 4 GiB, for both kinds of space and every context. -/
theorem mmioCoherence (client : ℕ) {cfg : MmioCfg} (hcfg : cfg.Aligned) {a : App} (ha : a.bench.Quiet)
    {offset : UInt64} (hoffset : offset.toNat < 2 ^ 32) : MmioCoherent client cfg a offset := by
  constructor
  case write64_read64 =>
    intro value s₁ s₂ a₁ a₂ out hwrite hread
    have hw := write64_wrote hcfg ha hoffset hwrite
    obtain ⟨value', rfl, hr⟩ := read64_read hcfg hw.quiet hoffset hread
    rw [UInt64.toNat_inj.mp (hw.read_same hr value.toNat_lt)]
  case write32_read32 =>
    intro value s₁ s₂ a₁ a₂ out hwrite hread
    have hw := write32_wrote hcfg ha hoffset hwrite
    obtain ⟨value', rfl, hr⟩ := read32_read hcfg hw.quiet hoffset hread
    rw [UInt32.toNat_inj.mp (hw.read_same hr value.toNat_lt)]
  case write64_read32 =>
    intro value s₁ s₂ s₃ a₁ a₂ a₃ low high hwrite hlow hhigh
    have hw := write64_wrote hcfg ha hoffset hwrite
    obtain ⟨hsum, -⟩ := hcfg.address_high a.mmio.global hw.aligned hoffset
    obtain ⟨low, rfl, hl⟩ := read32_read hcfg hw.quiet hoffset hlow
    have haligned := hw.aligned
    obtain ⟨high, rfl, hh⟩ := read32_read hcfg hl.quiet (by omega) hhigh
    have hboth := App.loadLE_halves hcfg a haligned hoffset a₁.bench.afu.mem
    have hvalue : loadLE a₁.bench.afu.mem (cfg.address a.mmio.global offset) 8 = value.toNat := by
      rw [hw.mem, loadLE_write_same _ _ (show value.toNat < 256 ^ 8 from value.toNat_lt)]
    have hlowv := hl.value
    have hhighv := hh.value
    rw [hw.mmio] at hlowv
    rw [hl.mmio, hw.mmio, hl.mem] at hhighv
    have hlt := low.toNat_lt
    refine ⟨congrArg some (UInt32.toNat_inj.mp ?_), congrArg some (UInt32.toNat_inj.mp ?_)⟩
    · rw [UInt64.toNat_toUInt32]
      omega
    · rw [UInt64.toNat_toUInt32, UInt64.toNat_shiftRight]
      change high.toNat = (value.toNat >>> 32) % 2 ^ 32
      have hval := value.toNat_lt
      rw [Nat.shiftRight_eq_div_pow]
      omega
  case write32_read64 =>
    intro low high s₁ s₂ s₃ a₁ a₂ a₃ out hlow hhigh hread
    have haligned := read64_aligned hread
    obtain ⟨hsum, haddr⟩ := hcfg.address_high a.mmio.global haligned hoffset
    have hl := write32_wrote hcfg ha hoffset hlow
    have hh := write32_wrote hcfg hl.quiet (by omega) hhigh
    obtain ⟨value, rfl, hr⟩ := read64_read hcfg hh.quiet hoffset hread
    refine congrArg some (UInt64.toNat_inj.mp ?_)
    rw [hr.value, hh.mmio, hl.mmio, App.loadLE_halves hcfg a haligned hoffset, hh.mem, hl.mmio,
      loadLE_write_same _ _ (show high.toNat < 256 ^ 4 from high.toNat_lt),
      loadLE_write_other _ (.inl (by omega)), hl.mem,
      loadLE_write_same _ _ (show low.toNat < 256 ^ 4 from low.toNat_lt), toNat_halves]
  case highFirst_read64 =>
    intro low high s₁ s₂ s₃ a₁ a₂ a₃ out hhigh hlow hread
    have haligned := read64_aligned hread
    obtain ⟨hsum, haddr⟩ := hcfg.address_high a.mmio.global haligned hoffset
    have hh := write32_wrote hcfg ha (by omega) hhigh
    have hl := write32_wrote hcfg hh.quiet hoffset hlow
    obtain ⟨value, rfl, hr⟩ := read64_read hcfg hl.quiet hoffset hread
    refine congrArg some (UInt64.toNat_inj.mp ?_)
    rw [hr.value, hl.mmio, hh.mmio, App.loadLE_halves hcfg a haligned hoffset, hl.mem, hh.mmio,
      loadLE_write_same _ _ (show low.toNat < 256 ^ 4 from low.toNat_lt),
      loadLE_write_other _ (.inr (by rw [length_leBytes]; omega)), hh.mem,
      loadLE_write_same _ _ (show high.toNat < 256 ^ 4 from high.toNat_lt), toNat_halves]
  case write64_outside =>
    intro value s a' hwrite
    exact (write64_wrote hcfg ha hoffset hwrite).outside
  case write32_outside =>
    intro value s a' hwrite
    exact (write32_wrote hcfg ha hoffset hwrite).outside
  case read64_outside =>
    intro s out a' hread
    obtain ⟨value, -, hr⟩ := read64_read hcfg ha hoffset hread
    exact hr.mem
  case read32_outside =>
    intro s out a' hread
    obtain ⟨value, -, hr⟩ := read32_read hcfg ha hoffset hread
    exact hr.mem
  case returns =>
    intro dw afu hcheck hopened rnw value s
    exact App.call_completes client hcfg ha hoffset hcheck hopened rnw value s

/-- Context 3 in its own space: eight bytes written, read in halves while the AFU takes its time. -/
theorem mmioCoherence_perPasid :
    let cfg : MmioCfg := ⟨0x4000000, 0x10000, 0x20000, 0x10000, 3⟩
    let a : App := ⟨⟨some ⟨true, false, true⟩, false⟩, Bench.fresh 0xAA⟩
    let steps : List BenchStep := [.send, .clock (Buffer.const 0x55) 0, .poll 7, .clock (Buffer.const 0) 2, .poll 1]
    MmioCoherent 1 cfg a 0x18 ∧
      ((ocxlMmioWrite64 a 1 cfg 0x18 0x1122334455667788 steps).bind fun (_, a) =>
        (ocxlMmioRead32 a 1 cfg 0x1C steps).map fun (err, out, _) => (err, out)) =
          some (.ok, some 0x11223344) :=
  ⟨mmioCoherence 1 ⟨by decide, by decide, by decide, by decide⟩ (Bench.fresh_quiet 0xAA) (by decide),
    by decide +kernel⟩

end Ocse
