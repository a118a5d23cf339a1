import Ocse.MemRequest

/-!
# LPC requests from the application to the AFU

`ocxl_lpc_read` and `ocxl_lpc_write` cut a transfer into pieces, each a power of two of at most 256 bytes
at an address that is a multiple of it. Every piece is one request to ocse, and ocse stages its command
with the offset and the byte enables that came over the socket.
-/

namespace Ocse

/-! ## Cutting a transfer -/

/-- The largest power of two up to 256 that divides an address. -/
def lpcAlign (toI : UInt64) : ℕ :=
  if toI &&& 0x1 ≠ 0 then 1
  else if toI &&& 0x2 ≠ 0 then 2
  else if toI &&& 0x4 ≠ 0 then 4
  else if toI &&& 0x8 ≠ 0 then 8
  else if toI &&& 0x10 ≠ 0 then 16
  else if toI &&& 0x20 ≠ 0 then 32
  else if toI &&& 0x40 ≠ 0 then 64
  else if toI &&& 0x80 ≠ 0 then 128
  else 256

/-- The loop that halves the stride. The first argument bounds its turns: from 256 there are eight. -/
def lpcFit (remainder : ℕ) : ℕ → ℕ → ℕ
  | 0, stride => stride
  | n + 1, stride => if stride > remainder then lpcFit remainder n (stride / 2) else stride

def lpcStride (toI : UInt64) (remainder : ℕ) : ℕ := lpcFit remainder 8 (lpcAlign toI)

/-- The pieces from `i` on, with their strides; the first number bounds the turns of the loop. -/
def lpcPieces (offset : UInt64) (size : ℕ) : ℕ → ℕ → List (ℕ × ℕ)
  | 0, _ => []
  | n + 1, i =>
    if i < size then
      let stride := lpcStride (offset + UInt64.ofNat i) (size - i)
      (i, stride) :: lpcPieces offset size n (i + stride)
    else []

inductive LpcCall
  | read (offset : UInt64) (size : ℕ)
  | write (offset : UInt64) (val : Buffer UInt8) (size : ℕ)
  | writeBe (offset : UInt64) (val : Buffer UInt8) (byteEnable : UInt64)

/-- The requests of `ocxl_lpc_read`, `ocxl_lpc_write` and `ocxl_lpc_write_be`, in order; `none` when the
call is refused. -/
def LpcCall.requests : LpcCall → Option (List MemReq)
  | .read offset size => some ((lpcPieces offset size size 0).map fun (i, stride) =>
      { type := .read, addr := offset + UInt64.ofNat i, size := stride, data := [], be := 0 })
  | .write offset val size => some ((lpcPieces offset size size 0).map fun (i, stride) =>
      { type := .write, addr := offset + UInt64.ofNat i, size := stride, data := val.read i stride, be := 0 })
  | .writeBe offset val byteEnable =>
      if offset &&& 0x3F ≠ 0 then none
      else some [{ type := .writeBe, addr := offset, size := 64, data := val.read 0 64, be := byteEnable }]

/-- The legal sizes of a piece. -/
def lpcSizes : List ℕ := [1, 2, 4, 8, 16, 32, 64, 128, 256]

/-- One more bit that is not set. -/
theorem dvd_of_bit {toI b : UInt64} {k : ℕ} (hb : b.toNat = 2 ^ k) (hdvd : 2 ^ k ∣ toI.toNat)
    (hzero : ¬toI &&& b ≠ 0) : 2 ^ (k + 1) ∣ toI.toNat := by
  have hnat : (toI &&& b).toNat = (toI.toNat.testBit k).toNat * 2 ^ k := by
    rw [UInt64.toNat_and, hb, Nat.and_two_pow]
  rw [not_not.mp hzero, Nat.testBit_eq_decide_div_mod_eq] at hnat
  have hpos : 0 < 2 ^ k := Nat.two_pow_pos k
  have heven : 2 ∣ toI.toNat / 2 ^ k := by
    by_cases hodd : toI.toNat / 2 ^ k % 2 = 1
    · simp [hodd] at hnat
      omega
    · omega
  obtain ⟨c, hc⟩ := hdvd
  rw [hc, Nat.mul_div_cancel_left _ hpos] at heven
  rw [hc, Nat.pow_succ]
  exact Nat.mul_dvd_mul_left _ heven

theorem lpcAlign_spec (toI : UInt64) : lpcAlign toI ∈ lpcSizes ∧ lpcAlign toI ∣ toI.toNat := by
  have d₀ : 2 ^ 0 ∣ toI.toNat := Nat.one_dvd _
  unfold lpcAlign
  split_ifs with c₀ c₁ c₂ c₃ c₄ c₅ c₆ c₇
  · exact ⟨by decide, d₀⟩
  all_goals have d₁ := dvd_of_bit (k := 0) rfl d₀ c₀
  · exact ⟨by decide, d₁⟩
  all_goals have d₂ := dvd_of_bit (k := 1) rfl d₁ c₁
  · exact ⟨by decide, d₂⟩
  all_goals have d₃ := dvd_of_bit (k := 2) rfl d₂ c₂
  · exact ⟨by decide, d₃⟩
  all_goals have d₄ := dvd_of_bit (k := 3) rfl d₃ c₃
  · exact ⟨by decide, d₄⟩
  all_goals have d₅ := dvd_of_bit (k := 4) rfl d₄ c₄
  · exact ⟨by decide, d₅⟩
  all_goals have d₆ := dvd_of_bit (k := 5) rfl d₅ c₅
  · exact ⟨by decide, d₆⟩
  all_goals have d₇ := dvd_of_bit (k := 6) rfl d₆ c₆
  · exact ⟨by decide, d₇⟩
  · exact ⟨by decide, dvd_of_bit (k := 7) rfl d₇ c₇⟩

theorem lpcFit_spec {remainder : ℕ} (hpos : 0 < remainder) (n : ℕ) (hn : n ≤ 8) :
    lpcFit remainder n (2 ^ n) ∈ lpcSizes ∧ lpcFit remainder n (2 ^ n) ∣ 2 ^ n ∧
      lpcFit remainder n (2 ^ n) ≤ remainder := by
  induction n with
  | zero => exact ⟨show 1 ∈ lpcSizes by decide, Nat.dvd_refl _, hpos⟩
  | succ n ih =>
    have hhalf : 2 ^ (n + 1) / 2 = 2 ^ n := by rw [Nat.pow_succ, Nat.mul_div_cancel _ (by decide)]
    unfold lpcFit
    split_ifs with h
    · rw [hhalf]
      obtain ⟨hmem, hdvd, hle⟩ := ih (by omega)
      exact ⟨hmem, hdvd.trans ⟨2, Nat.pow_succ ..⟩, hle⟩
    · refine ⟨?_, Nat.dvd_refl _, by omega⟩
      have hcases : n = 0 ∨ n = 1 ∨ n = 2 ∨ n = 3 ∨ n = 4 ∨ n = 5 ∨ n = 6 ∨ n = 7 := by omega
      rcases hcases with rfl | rfl | rfl | rfl | rfl | rfl | rfl | rfl <;> decide

/-- More turns than the loop needs change nothing. -/
theorem lpcFit_extra (remainder : ℕ) (hpos : 0 < remainder) (n k : ℕ) :
    lpcFit remainder (n + k) (2 ^ n) = lpcFit remainder n (2 ^ n) := by
  induction n with
  | zero =>
    have hfit : ∀ k, lpcFit remainder k 1 = 1 := by
      intro k
      cases k with
      | zero => rfl
      | succ k => exact if_neg (by omega)
    exact (hfit (0 + k)).trans (hfit 0).symm
  | succ n ih =>
    have hhalf : 2 ^ (n + 1) / 2 = 2 ^ n := by rw [Nat.pow_succ, Nat.mul_div_cancel _ (by decide)]
    rw [show n + 1 + k = n + k + 1 by omega, lpcFit, lpcFit, hhalf, ih]

/-- What a piece is: a legal size that divides its address and does not exceed what is left. -/
theorem lpcStride_spec (toI : UInt64) {remainder : ℕ} (hpos : 0 < remainder) :
    lpcStride toI remainder ∈ lpcSizes ∧ lpcStride toI remainder ∣ toI.toNat ∧
      lpcStride toI remainder ≤ remainder := by
  obtain ⟨hmem, hdvd⟩ := lpcAlign_spec toI
  obtain ⟨n, hn, halign⟩ : ∃ n ≤ 8, lpcAlign toI = 2 ^ n := by
    simp only [lpcSizes, List.mem_cons, List.not_mem_nil, or_false] at hmem
    rcases hmem with h | h | h | h | h | h | h | h | h
    · exact ⟨0, by decide, h⟩
    · exact ⟨1, by decide, h⟩
    · exact ⟨2, by decide, h⟩
    · exact ⟨3, by decide, h⟩
    · exact ⟨4, by decide, h⟩
    · exact ⟨5, by decide, h⟩
    · exact ⟨6, by decide, h⟩
    · exact ⟨7, by decide, h⟩
    · exact ⟨8, by decide, h⟩
  obtain ⟨hmem', hdvd', hle⟩ := lpcFit_spec hpos n hn
  have hfit : lpcStride toI remainder = lpcFit remainder n (2 ^ n) := by
    rw [lpcStride, halign, show 8 = n + (8 - n) by omega, lpcFit_extra remainder hpos]
  rw [hfit]
  rw [halign] at hdvd
  exact ⟨hmem', hdvd'.trans hdvd, hle⟩

/-- A piece of a transfer. -/
structure LpcPiece (offset : UInt64) (size : ℕ) (p : ℕ × ℕ) : Prop where
  legal : p.2 ∈ lpcSizes
  aligned : p.2 ∣ (offset + UInt64.ofNat p.1).toNat
  inside : p.1 + p.2 ≤ size

theorem lpcSizes_pos {n : ℕ} (h : n ∈ lpcSizes) : 0 < n := by
  have hall : ∀ n ∈ lpcSizes, 0 < n := by decide
  exact hall n h

/-- Pieces that follow each other from one position to another. -/
def Contiguous : ℕ → ℕ → List (ℕ × ℕ) → Prop
  | i, size, [] => size ≤ i
  | i, size, p :: ps => p.1 = i ∧ Contiguous (i + p.2) size ps

theorem lpcPieces_spec (offset : UInt64) (size n i : ℕ) (hn : size ≤ i + n) :
    (∀ p ∈ lpcPieces offset size n i, LpcPiece offset size p) ∧
      Contiguous i size (lpcPieces offset size n i) := by
  induction n generalizing i with
  | zero =>
    unfold lpcPieces
    exact ⟨fun p hp => absurd hp (by simp), by simpa [Contiguous] using hn⟩
  | succ n ih =>
    unfold lpcPieces
    by_cases hi : i < size
    · obtain ⟨hmem, hdvd, hle⟩ := lpcStride_spec (offset + UInt64.ofNat i) (Nat.sub_pos_of_lt hi)
      have hpos := lpcSizes_pos hmem
      obtain ⟨hpieces, hcontiguous⟩ := ih (i + lpcStride (offset + UInt64.ofNat i) (size - i)) (by omega)
      simp only [if_pos hi]
      refine ⟨?_, rfl, hcontiguous⟩
      intro p hp
      rcases List.mem_cons.mp hp with rfl | hp
      · exact ⟨hmem, hdvd, by simp only; omega⟩
      · exact hpieces p hp
    · rw [if_neg hi]
      exact ⟨fun p hp => absurd hp (by simp), by simpa [Contiguous] using hi⟩

/-- Every byte of the transfer is in a piece. -/
theorem Contiguous.covers {i size : ℕ} {ps : List (ℕ × ℕ)} (h : Contiguous i size ps) {k : ℕ} (hi : i ≤ k)
    (hk : k < size) : ∃ p ∈ ps, p.1 ≤ k ∧ k < p.1 + p.2 := by
  induction ps generalizing i with
  | nil =>
    have hle : size ≤ i := h
    omega
  | cons p ps ih =>
    obtain ⟨hp, hrest⟩ := h
    by_cases hin : k < i + p.2
    · exact ⟨p, by simp, by omega, by omega⟩
    · obtain ⟨q, hq, hcover⟩ := ih hrest (by omega)
      exact ⟨q, by simp [hq], hcover⟩

/-! ## One request through ocse -/

/-- A client's request to the engine, which sends its command. -/
def Mmio.request (m : Mmio) (client : ℕ) (cfg : MmioCfg) (bytes : List UInt8) : Mmio :=
  match handleClientMmio client cfg bytes with
  | none => m
  | some (action, _) => (m.step action).step .send

/-- The engine can send a command at once. -/
structure Mmio.Ready (m : Mmio) : Prop where
  running : m.halted = false
  idle : m.list = []
  free : m.afuEvent.tlxCmd.valid ≠ 1

/-- Where the data of a request stands on the bus. -/
def MemReq.place (r : MemReq) : ℕ := if r.size < 64 then r.addr.toNat % 64 else 0

/-- The command of a request is staged with the address, the byte enables and the data that the
application passed. -/
structure MemReq.Staged (r : MemReq) (a : AfuEvent) : Prop where
  valid : a.tlxCmd.valid = 1
  pa : a.tlxCmd.pa = r.addr
  be : a.tlxCmd.be = r.be
  data : r.type ≠ .read → a.tlxCmdData.valid = 1 ∧ a.tlxCmdData.dataBus.Holds r.place r.data

/-- A request of a legal size at an address that it divides. -/
structure MemReq.Legal (r : MemReq) : Prop extends r.Formed where
  legal : r.size ∈ lpcSizes
  aligned : r.size ∣ r.addr.toNat

/-- The event of a request, as it is added to the list. -/
def MemReq.event (r : MemReq) (id : ℕ) : MmioEvent :=
  { MmioEvent.new id (r.type = .read) (UInt64.ofNat (r.addr.toNat % 2 ^ 32)) with
    size := r.size
    data := if r.type = .read then Buffer.const 0 else (Buffer.const 0).write 0 r.data
    beValid := r.type = .writeBe
    be := UInt64.ofNat (r.be.toNat % 2 ^ 32) }

theorem lpcSizes_bounds {n : ℕ} (h : n ∈ lpcSizes) : 0 < n ∧ n ≤ 256 ∧ (n < 64 → n ∣ 64) ∧ n ∣ 256 := by
  have hall : ∀ n ∈ lpcSizes, 0 < n ∧ n ≤ 256 ∧ (n < 64 → n ∣ 64) ∧ n ∣ 256 := by decide
  exact hall n h

theorem MemReq.byteCnt_event {r : MemReq} (h : r.Legal) (id : ℕ) : (r.event id).encode.byteCnt = r.size := by
  obtain ⟨hpos, hle, -⟩ := lpcSizes_bounds h.legal
  have hne : (r.event id).size ≠ 0 := by
    change r.size ≠ 0
    omega
  rw [MmioEvent.byteCnt, MmioEvent.encode, if_neg hne, if_neg hne]
  change r.size % 2 ^ 16 = r.size
  omega

theorem Mmio.request_afuEvent {m : Mmio} (hm : m.Ready) (client : ℕ) (cfg : MmioCfg) {r : MemReq}
    (h : r.Legal) : (m.request client cfg r.message).afuEvent = { m.afuEvent with
      afuTlxCmdCreditsAvailable := m.afuEvent.afuTlxCmdCreditsAvailable - 1
      tlxCmd := (r.event m.nextId).encode.command
      tlxCmdData := (r.event m.nextId).encode.commandData m.afuEvent.tlxCmdData } := by
  have hdecode := handleMem_message client cfg r h.toFormed []
  rw [List.append_nil] at hdecode
  have hstep : m.step (r.action client) = { m with
      list := [r.event m.nextId]
      nextId := m.nextId + 1
      trace := m.trace ++ [.added m.nextId]
      access := fun i => if i = client then some m.nextId else m.access i } := by
    simp [Mmio.step, hm.running, MemReq.action, Mmio.act, addMem, Mmio.append, Mmio.setAccess, hm.idle,
      MemReq.event]
  have hcfg : (r.event m.nextId).encode.cfg = false := by
    unfold MmioEvent.encode
    split_ifs <;> rfl
  have htransmit := transmit_mem (r.event m.nextId).encode m.afuEvent hcfg hm.free
  have hidle : ¬(r.event m.nextId).state ≠ .idle := not_not.mpr rfl
  have hmem : ¬(r.event m.nextId).cfg = true := by simp [MemReq.event, MmioEvent.new]
  unfold Mmio.request
  rw [hdecode]
  simp only [hstep]
  rw [Mmio.step, if_neg (by simp [hm.running])]
  simp only [Mmio.act, sendMmio, if_neg hidle, if_neg hmem, htransmit, if_true]

/-- What divides a line and its own address does not cross the end of the line. -/
theorem room_of_dvd {n a : ℕ} (hline : n ∣ 64) (haddr : n ∣ a) : a % 64 + n ≤ 64 := by
  obtain ⟨k, hk⟩ := hline
  obtain ⟨j, rfl⟩ := haddr
  have hkpos : 0 < k := by
    rcases Nat.eq_zero_or_pos k with rfl | hkpos
    · simp at hk
    · exact hkpos
  have hmod : j % k + 1 ≤ k := Nat.mod_lt j hkpos
  rw [hk, Nat.mul_mod_mul_left, ← Nat.mul_succ]
  exact Nat.mul_le_mul_left n hmod

/-- A partial write stands at its place in a line of zeros, a full one from the start. -/
theorem MemReq.holds_data {r : MemReq} (h : r.Legal) (hwrite : r.type ≠ .read) (id : ℕ) (old : Buffer UInt8) :
    (old.write 0 ((r.event id).encode.tdataBus.read 0 (cmdDataSize (r.event id).encode.cmdDL))).Holds
      r.place r.data := by
  obtain ⟨hpos, hle, hpart, -⟩ := lpcSizes_bounds h.legal
  have hlength := h.data hwrite
  have hsize : (r.event id).size ≠ 0 := Nat.ne_of_gt hpos
  have hbytes : (r.event id).encode.data = (Buffer.const 0).write 0 r.data := by
    rw [MmioEvent.encode, if_neg hsize]
    exact if_neg hwrite
  have hread : ((r.event id).encode.data).read 0 r.size = r.data := by
    rw [hbytes, ← hlength]
    exact Buffer.read_eq_of_holds (Buffer.holds_write _ _ _)
  have hbus : (r.event id).encode.tdataBus = (Buffer.const 0).write r.place r.data := by
    rw [MmioEvent.tdataBus, MemReq.byteCnt_event h, hread, MemReq.place]
    have hoffset : (r.event id).encode.offset = r.addr.toNat % 64 := by
      have hpa : (r.event id).encode.cmdPA = UInt64.ofNat (r.addr.toNat % 2 ^ 32) := by
        rw [MmioEvent.encode, if_neg hsize]
        rfl
      rw [MmioEvent.offset, hpa, UInt64.toNat_ofNat']
      omega
    split_ifs with hlt
    · rw [hoffset]
    · rfl
  have hfit : r.place + r.data.length ≤ cmdDataSize (r.event id).encode.cmdDL := by
    have hdl : (r.event id).encode.cmdDL =
        if r.size = 64 then 1 else if r.size = 128 then 2 else if r.size = 256 then 3 else 0 := by
      rw [MmioEvent.encode, if_neg hsize]
      rfl
    rw [hdl, hlength, MemReq.place]
    by_cases hlt : r.size < 64
    · have hroom := room_of_dvd (hpart hlt) h.aligned
      rw [if_pos hlt, if_neg (by omega), if_neg (by omega), if_neg (by omega)]
      exact hroom
    · have hcases : r.size = 64 ∨ r.size = 128 ∨ r.size = 256 := by
        have hmem := h.legal
        simp only [lpcSizes, List.mem_cons, List.not_mem_nil, or_false] at hmem
        omega
      rw [if_neg hlt]
      rcases hcases with hs | hs | hs <;> rw [hs] <;> decide
  intro i hi
  have hin : r.place + i < (((r.event id).encode.tdataBus).read 0
      (cmdDataSize (r.event id).encode.cmdDL)).length := by
    rw [Buffer.length_read]
    omega
  have hwrote := Buffer.write_at old 0 _ (r.place + i) hin
  rw [Nat.zero_add] at hwrote
  rw [hwrote, Buffer.get_read, Nat.zero_add, hbus]
  exact Buffer.write_at _ _ _ i hi

/-- A request is staged as the application passed it just when its address and its byte enables fit into
a word. -/
theorem MemReq.staged_iff {m : Mmio} (hm : m.Ready) (client : ℕ) (cfg : MmioCfg) {r : MemReq} (h : r.Legal) :
    r.Staged (m.request client cfg r.message).afuEvent ↔ r.addr.toNat < 2 ^ 32 ∧ r.be.toNat < 2 ^ 32 := by
  obtain ⟨hpos, -⟩ := lpcSizes_bounds h.legal
  have hsize : (r.event m.nextId).size ≠ 0 := Nat.ne_of_gt hpos
  have hword : ∀ x : UInt64, UInt64.ofNat (x.toNat % 2 ^ 32) = x ↔ x.toNat < 2 ^ 32 := by
    intro x
    rw [← UInt64.toNat_inj, UInt64.toNat_ofNat']
    have hlt := x.toNat_lt
    omega
  have hpa : ((r.event m.nextId).encode.command).pa = UInt64.ofNat (r.addr.toNat % 2 ^ 32) := by
    rw [MmioEvent.command, MmioEvent.encode, if_neg hsize]
    rfl
  have hbe : ((r.event m.nextId).encode.command).be =
      if r.type = .writeBe then UInt64.ofNat (r.be.toNat % 2 ^ 32) else 0 := by
    simp only [MmioEvent.command, MemReq.byteCnt_event h]
    rw [MmioEvent.encode, if_neg hsize]
    by_cases htype : r.type = .writeBe
    · simp [MemReq.event, MmioEvent.new, htype, h.be htype]
    · simp [MemReq.event, MmioEvent.new, htype]
  rw [Mmio.request_afuEvent hm client cfg h]
  constructor
  · rintro ⟨-, haddr, henable, -⟩
    refine ⟨(hword r.addr).mp (hpa.symm.trans haddr), ?_⟩
    by_cases htype : r.type = .writeBe
    · rw [if_pos htype] at hbe
      exact (hword r.be).mp (hbe.symm.trans henable)
    · rw [h.noBe htype]
      decide
  · rintro ⟨haddr, henable⟩
    refine ⟨rfl, hpa.trans ((hword r.addr).mpr haddr), hbe.trans ?_, fun hwrite => ?_⟩
    · split_ifs with htype
      · exact (hword r.be).mpr henable
      · exact (h.noBe htype).symm
    · have hrnw : (r.event m.nextId).encode.rnw = false := by
        rw [MmioEvent.encode, if_neg hsize]
        exact decide_eq_false hwrite
      simp only [MmioEvent.commandData, hrnw]
      exact ⟨rfl, MemReq.holds_data h hwrite m.nextId _⟩

/-! ## Whole calls -/

/-- The transfer stays below 4 GiB and the byte enables in a word, or nothing is asked for. -/
def LpcCall.Narrow : LpcCall → Prop
  | .read offset size | .write offset _ size => size = 0 ∨ offset.toNat + size ≤ 2 ^ 32
  | .writeBe offset _ byteEnable =>
      offset &&& 0x3F ≠ 0 ∨ (offset.toNat < 2 ^ 32 ∧ byteEnable.toNat < 2 ^ 32)

/-- The loops count in an `int`. -/
def LpcCall.Counted : LpcCall → Prop
  | .read _ size | .write _ _ size => size < 2 ^ 31
  | .writeBe .. => True

/-- Every request of the call is staged as the application passed it. -/
def LpcCall.Lossless (m : Mmio) (client : ℕ) (cfg : MmioCfg) (call : LpcCall) : Prop :=
  ∀ requests, call.requests = some requests →
    ∀ r ∈ requests, r.Staged (m.request client cfg r.message).afuEvent

/-- The addresses of all pieces fit into a word just when the transfer ends below 4 GiB. -/
theorem pieces_narrow_iff (offset : UInt64) (size : ℕ) (hsize : size < 2 ^ 31) :
    (∀ p ∈ lpcPieces offset size size 0, (offset + UInt64.ofNat p.1).toNat < 2 ^ 32) ↔
      size = 0 ∨ offset.toNat + size ≤ 2 ^ 32 := by
  obtain ⟨hpieces, hcontiguous⟩ := lpcPieces_spec offset size size 0 (by omega)
  have hsum : ∀ i, (offset + UInt64.ofNat i).toNat = (offset.toNat + i) % 2 ^ 64 := by
    intro i
    rw [UInt64.toNat_add, UInt64.toNat_ofNat']
    omega
  constructor
  · intro h
    rcases Nat.eq_zero_or_pos size with hzero | hpos
    · exact .inl hzero
    · -- The first piece says that the offset is small, the last one where the transfer ends.
      obtain ⟨first, hfirst, hle, -⟩ := hcontiguous.covers (Nat.le_refl 0) hpos
      obtain ⟨last, hlast, hbefore, hafter⟩ :=
        hcontiguous.covers (Nat.zero_le (size - 1)) (show size - 1 < size by omega)
      have hlow := h first hfirst
      have hhigh := h last hlast
      obtain ⟨hlegal, haligned, hinside⟩ := hpieces last hlast
      obtain ⟨-, -, -, hdvd⟩ := lpcSizes_bounds hlegal
      have hoffset := offset.toNat_lt
      rw [hsum] at hlow hhigh haligned
      obtain ⟨k, hk⟩ := haligned
      obtain ⟨j, hj⟩ : last.2 ∣ 2 ^ 32 := hdvd.trans (by decide)
      have hfits : last.2 * k + last.2 ≤ last.2 * j := by
        rw [← Nat.mul_succ]
        refine Nat.mul_le_mul_left _ (Nat.lt_of_mul_lt_mul_left (a := last.2) ?_)
        omega
      refine .inr ?_
      omega
  · rintro (rfl | hend) p hp
    · exact absurd hp (by simp [lpcPieces])
    · obtain ⟨hlegal, -, hinside⟩ := hpieces p hp
      have hpos := lpcSizes_pos hlegal
      rw [hsum]
      omega

theorem lpcRead_legal {offset : UInt64} {size : ℕ} {p : ℕ × ℕ} (h : LpcPiece offset size p) :
    MemReq.Legal ⟨.read, offset + UInt64.ofNat p.1, p.2, [], 0⟩ := by
  obtain ⟨-, hle, -⟩ := lpcSizes_bounds h.legal
  refine ⟨⟨?_, fun hread => absurd rfl hread, nofun, fun _ => rfl⟩, h.legal, h.aligned⟩
  change p.2 < 2 ^ 32
  omega

theorem lpcWrite_legal {offset : UInt64} {size : ℕ} {p : ℕ × ℕ} (h : LpcPiece offset size p)
    (val : Buffer UInt8) : MemReq.Legal ⟨.write, offset + UInt64.ofNat p.1, p.2, val.read p.1 p.2, 0⟩ := by
  obtain ⟨-, hle, -⟩ := lpcSizes_bounds h.legal
  refine ⟨⟨?_, fun _ => Buffer.length_read .., nofun, fun _ => rfl⟩, h.legal, h.aligned⟩
  change p.2 < 2 ^ 32
  omega

theorem lpcWriteBe_legal {offset : UInt64} (h : ¬offset &&& 0x3F ≠ 0) (val : Buffer UInt8)
    (byteEnable : UInt64) : MemReq.Legal ⟨.writeBe, offset, 64, val.read 0 64, byteEnable⟩ := by
  refine ⟨⟨show 64 < 2 ^ 32 by decide, fun _ => Buffer.length_read .., fun _ => rfl,
    fun hbe => absurd rfl hbe⟩, show 64 ∈ lpcSizes by decide, ?_⟩
  change 64 ∣ offset.toNat
  have hmask : offset.toNat &&& (2 ^ 6 - 1) = 0 := by
    rw [show 2 ^ 6 - 1 = (0x3F : UInt64).toNat by rfl, ← UInt64.toNat_and, not_not.mp h]
    rfl
  rw [Nat.and_two_pow_sub_one_eq_mod] at hmask
  exact Nat.dvd_of_mod_eq_zero hmask

/-- A call is lossless just when its addresses and byte enables fit into a word. -/
theorem lpcLossless_iff (call : LpcCall) (hcounted : call.Counted) {m : Mmio} (hm : m.Ready) (client : ℕ)
    (cfg : MmioCfg) : call.Lossless m client cfg ↔ call.Narrow := by
  cases call with
  | read offset size =>
    obtain ⟨hpieces, -⟩ := lpcPieces_spec offset size size 0 (by omega)
    refine Iff.trans ?_ (pieces_narrow_iff offset size hcounted)
    simp only [LpcCall.Lossless, LpcCall.requests, Option.some.injEq, forall_eq', List.mem_map,
      forall_exists_index, and_imp, forall_apply_eq_imp_iff₂]
    refine forall₂_congr (fun p hp => ?_)
    refine (MemReq.staged_iff hm client cfg (lpcRead_legal (hpieces p hp))).trans (and_iff_left ?_)
    change (0 : UInt64).toNat < 2 ^ 32
    decide
  | write offset val size =>
    obtain ⟨hpieces, -⟩ := lpcPieces_spec offset size size 0 (by omega)
    refine Iff.trans ?_ (pieces_narrow_iff offset size hcounted)
    simp only [LpcCall.Lossless, LpcCall.requests, Option.some.injEq, forall_eq', List.mem_map,
      forall_exists_index, and_imp, forall_apply_eq_imp_iff₂]
    refine forall₂_congr (fun p hp => ?_)
    refine (MemReq.staged_iff hm client cfg (lpcWrite_legal (hpieces p hp) val)).trans (and_iff_left ?_)
    change (0 : UInt64).toNat < 2 ^ 32
    decide
  | writeBe offset val byteEnable =>
    simp only [LpcCall.Lossless, LpcCall.requests, LpcCall.Narrow]
    by_cases haligned : offset &&& 0x3F ≠ 0
    · simp [haligned]
    · have hstaged := MemReq.staged_iff hm client cfg (lpcWriteBe_legal haligned val byteEnable)
      simpa [haligned] using hstaged

theorem mmioInit_ready : (mmioInit tlxEventReset).Ready := ⟨rfl, rfl, by decide⟩

/-- The last seven bytes below 4 GiB go in pieces of one, two and four bytes. -/
theorem lpcWrite_below_lossless :
    lpcPieces 0xFFFFFFF9 7 7 0 = [(0, 1), (1, 2), (3, 4)] ∧
      (LpcCall.write 0xFFFFFFF9 (fun i => UInt8.ofNat (i + 1)) 7).Lossless (mmioInit tlxEventReset) 0
        ⟨0, 0, 0, 0, 0⟩ :=
  ⟨by decide, (lpcLossless_iff (.write 0xFFFFFFF9 (fun i => UInt8.ofNat (i + 1)) 7)
    (show 7 < 2 ^ 31 by decide) mmioInit_ready 0 ⟨0, 0, 0, 0, 0⟩).mpr (.inr (by decide))⟩

/-- A line at 4 GiB with the upper half of its bytes enabled goes to address 0 with none enabled. -/
theorem lpcWriteBe_truncated :
    let call := LpcCall.writeBe 0x100000000 (Buffer.const 0x5a) 0xFFFFFFFF00000000
    let m := (mmioInit tlxEventReset).request 0 ⟨0, 0, 0, 0, 0⟩
      (MemReq.message ⟨.writeBe, 0x100000000, 64, (Buffer.const 0x5a).read 0 64, 0xFFFFFFFF00000000⟩)
    m.trace = [.added 0, .sent 0] ∧ m.afuEvent.tlxCmd.opcode = tlxCmdWriteMemBe ∧
      m.afuEvent.tlxCmd.pa = 0 ∧ m.afuEvent.tlxCmd.be = 0 ∧
      ¬call.Lossless (mmioInit tlxEventReset) 0 ⟨0, 0, 0, 0, 0⟩ := by
  refine ⟨by decide +kernel, by decide +kernel, by decide +kernel, by decide +kernel, ?_⟩
  intro h
  have hstaged := h _ rfl _ (List.mem_singleton.mpr rfl)
  exact absurd hstaged.pa (by decide +kernel)

end Ocse
