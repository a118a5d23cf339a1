import Ocse.Lib.Run
import Ocse.MemAfu

/-!
# An access from the client to the memory and back

One client has one access at a time. It is queued, staged at the interface, taken by the AFU, answered
with a response and, when it is a read, with its data, finished, and acknowledged. A rank counts what is
still to come: no step of the bench makes it larger, and in every stage there is a step that makes it
smaller.
-/

namespace Ocse

/-! ## The command of an access -/

/-- A memory access as the engine adds it: of a legal size, at an address that the size divides. -/
structure MmioEvent.Fits (e : MmioEvent) : Prop where
  cfg : e.cfg = false
  idle : e.state = .idle
  noBe : e.beValid = false
  fresh : e.sizeReceived = 0
  cleared : e.rnw = true → e.cmdData = 0
  size : e.size = 0 ∨ e.size ∈ lpcSizes
  aligned : e.byteCnt ∣ e.cmdPA.toNat

/-- The same access with the lengths that `send_mmio` has set. -/
structure MmioEvent.Sent (c : MmioEvent) : Prop where
  cfg : c.cfg = false
  noBe : c.beValid = false
  fresh : c.sizeReceived = 0
  cleared : c.rnw = true → c.cmdData = 0
  size : c.size = 0 ∧ c.byteCnt = (if c.dw then 8 else 4) ∧ c.cmdPL = (if c.dw then 3 else 2) ∨
    c.size ≠ 0 ∧ c.size = c.byteCnt
  legal : c.byteCnt ∈ lpcSizes
  aligned : c.byteCnt ∣ c.cmdPA.toNat
  pl : c.byteCnt < 64 → plToSize c.cmdPL = c.byteCnt ∧ c.cmdDL = 0
  dl : 64 ≤ c.byteCnt → dlToSize c.cmdDL = c.byteCnt

@[simp] theorem encode_id (e : MmioEvent) : e.encode.id = e.id := by
  unfold MmioEvent.encode
  split_ifs <;> rfl

theorem MmioEvent.Fits.sent {e : MmioEvent} (h : e.Fits) : e.encode.Sent := by
  by_cases hzero : e.size = 0
  · have hcnt : e.byteCnt = if e.dw then 8 else 4 := by rw [MmioEvent.byteCnt, if_pos hzero]
    have hcnt' : e.encode.byteCnt = e.byteCnt := by
      rw [MmioEvent.byteCnt, MmioEvent.byteCnt, MmioEvent.encode, if_pos hzero]
    have hlegal : e.byteCnt ∈ lpcSizes := by
      rw [hcnt]
      cases e.dw <;> decide
    have hpl : plToSize (if e.dw then 3 else 2) = e.byteCnt := by
      rw [hcnt]
      cases e.dw <;> rfl
    have hsmall : e.byteCnt < 64 := by
      rw [hcnt]
      cases e.dw <;> decide
    have halign := h.aligned
    rw [← hcnt'] at halign hlegal hpl hsmall hcnt
    rw [MmioEvent.encode, if_pos hzero] at *
    exact ⟨h.cfg, h.noBe, h.fresh, h.cleared, .inl ⟨hzero, hcnt, rfl⟩, hlegal, halign,
      fun _ => ⟨hpl, rfl⟩, fun hfull => absurd hsmall (Nat.not_lt.mpr hfull)⟩
  · have hmem := h.size.resolve_left hzero
    obtain ⟨-, hle, -⟩ := lpcSizes_bounds hmem
    have hcnt : e.byteCnt = e.size := by
      rw [MmioEvent.byteCnt, if_neg hzero]
      omega
    have hcnt' : e.encode.byteCnt = e.size := by
      rw [← hcnt, MmioEvent.byteCnt, MmioEvent.byteCnt, MmioEvent.encode, if_neg hzero]
    have hpl : ∀ n ∈ lpcSizes, n < 64 → plToSize (if n = 2 then 1 else if n = 4 then 2 else if n = 8 then 3
        else if n = 16 then 4 else if n = 32 then 5 else 0) = n ∧
        (if n = 64 then 1 else if n = 128 then 2 else if n = 256 then (3 : UInt8) else 0) = 0 := by decide
    have hdl : ∀ n ∈ lpcSizes, 64 ≤ n →
        dlToSize (if n = 64 then 1 else if n = 128 then 2 else if n = 256 then 3 else 0) = n := by decide
    have hpart := hpl e.size hmem
    have hfull := hdl e.size hmem
    have halign := h.aligned
    rw [hcnt, ← hcnt'] at halign
    rw [← hcnt'] at hmem
    refine ⟨?_, ?_, ?_, ?_, .inr ?_, hmem, ?_, ?_, ?_⟩ <;> (try rw [hcnt']) <;>
      rw [MmioEvent.encode, if_neg hzero] at *
    · exact h.cfg
    · exact h.noBe
    · exact h.fresh
    · exact h.cleared
    · exact ⟨hzero, rfl⟩
    · rw [← hcnt']; exact halign
    · exact hpart
    · exact hfull

/-- The memory after an access. -/
def MmioEvent.after (c : MmioEvent) (mem : Buffer UInt8) : Buffer UInt8 :=
  if c.rnw then mem else mem.write c.cmdPA.toNat (c.data.read 0 c.byteCnt)

/-- The data of an acknowledgement; the number that an MMIO has read goes in network order. -/
def MmioEvent.reply (c : MmioEvent) (mem : Buffer UInt8) : List UInt8 :=
  if c.rnw = false then []
  else if c.size ≠ 0 then mem.read c.cmdPA.toNat c.size
  else (mem.read c.cmdPA.toNat c.byteCnt).reverse

/-! ## The answer of the AFU -/

/-- The beats of a full read of `n` bytes from byte `got` on. -/
def Beats (mem : Buffer UInt8) (pa n : ℕ) : ℕ → List AfuItem → Prop
  | got, [] => got = n
  | got, .beat bus :: queue => (∀ i < 64, bus i = mem (pa + (got + i))) ∧ Beats mem pa n (got + 64) queue
  | _, .resp _ :: _ => False

/-- The data of a read that the AFU has still to show, when `got` bytes have come. -/
def MmioEvent.Remaining (c : MmioEvent) (mem : Buffer UInt8) (got : ℕ) (queue : List AfuItem) : Prop :=
  if c.byteCnt < 64 then
    got = 0 ∧ ∃ bus, queue = [.beat bus] ∧ ∀ i < c.byteCnt, bus (c.offset + i) = mem (c.cmdPA.toNat + i)
  else Beats mem c.cmdPA.toNat c.byteCnt got queue

/-- `resp_dL` of the answer to a read. -/
def MmioEvent.answerDL (c : MmioEvent) : UInt8 := if c.byteCnt < 64 then 1 else c.cmdDL

/-- The queue of the AFU when it has taken the command. -/
inductive MmioEvent.Answered (c : MmioEvent) (mem : Buffer UInt8) : List AfuItem → Prop
  | write (dl : UInt8) (capptag : UInt16) (hrnw : c.rnw = false) :
      c.Answered mem [.resp ⟨1, afuRspMemWrResp, dl, capptag, 0, 0⟩]
  | read (capptag : UInt16) (queue : List AfuItem) (hrnw : c.rnw = true) (hdata : c.Remaining mem 0 queue) :
      c.Answered mem (.resp ⟨1, afuRspMemRdResp, c.answerDL, capptag, 0, 0⟩ :: queue)

theorem beats_range (mem fill : Buffer UInt8) (pa n k m : ℕ) (h : 64 * (k + m) = n) :
    Beats mem pa n (64 * k)
      ((List.range' k m).map (fun j => .beat (fill.write 0 (mem.read (pa + 64 * j) 64)))) := by
  induction m generalizing k with
  | zero => exact h
  | succ m ih =>
    rw [List.range'_succ, List.map_cons]
    refine ⟨?_, ?_⟩
    · intro i hi
      have hw := Buffer.write_at fill 0 (mem.read (pa + 64 * k) 64) i (by rw [Buffer.length_read]; exact hi)
      rw [Nat.zero_add, Buffer.get_read, Nat.add_assoc] at hw
      exact hw
    · exact ih (k + 1) (by omega)

/-- The lengths of a full access. -/
theorem MmioEvent.Sent.full {c : MmioEvent} (h : c.Sent) (hfull : 64 ≤ c.byteCnt) :
    c.cmdDL = 1 ∧ c.byteCnt = 64 ∨ c.cmdDL = 2 ∧ c.byteCnt = 128 ∨ c.cmdDL = 3 ∧ c.byteCnt = 256 := by
  have hdl := h.dl hfull
  obtain ⟨-, hle, -⟩ := lpcSizes_bounds h.legal
  unfold dlToSize at hdl
  split_ifs at hdl with h₁ h₂ h₃
  · exact .inl ⟨h₁, hdl.symm⟩
  · exact .inr (.inl ⟨h₂, hdl.symm⟩)
  · exact .inr (.inr ⟨h₃, hdl.symm⟩)
  · omega

theorem MmioEvent.Sent.room {c : MmioEvent} (h : c.Sent) (hpart : c.byteCnt < 64) :
    c.offset + c.byteCnt ≤ 64 := by
  obtain ⟨-, -, hline, -⟩ := lpcSizes_bounds h.legal
  exact room_of_dvd (hline hpart) h.aligned

theorem MemAfu.take_read {c : MmioEvent} (h : c.Sent) (hrnw : c.rnw = true) (a : MemAfu)
    (fill data : Buffer UInt8) (hempty : a.queue = []) :
    (a.take fill c.command data).mem = a.mem ∧ c.Answered a.mem (a.take fill c.command data).queue := by
  by_cases hpart : c.byteCnt < 64
  · obtain ⟨hpl, -⟩ := h.pl hpart
    have hop : c.command.opcode = tlxCmdPrRdMem := by simp [MmioEvent.command, hrnw, hpart]
    rw [MemAfu.take, if_pos hop, hempty]
    refine ⟨rfl, ?_⟩
    have hdata : c.Remaining a.mem 0 [.beat (fill.write c.offset (a.mem.read c.cmdPA.toNat (plToSize c.cmdPL)))] := by
      rw [MmioEvent.Remaining, if_pos hpart]
      refine ⟨rfl, _, rfl, ?_⟩
      intro i hi
      have hw := Buffer.write_at fill c.offset (a.mem.read c.cmdPA.toNat (plToSize c.cmdPL)) i
        (by rw [Buffer.length_read, hpl]; exact hi)
      rw [Buffer.get_read] at hw
      exact hw
    have hans := MmioEvent.Answered.read c.command.capptag _ hrnw hdata
    rw [MmioEvent.answerDL, if_pos hpart] at hans
    exact hans
  · have hop : c.command.opcode = tlxCmdRdMem := by simp [MmioEvent.command, hrnw, hpart]
    have hnot : ¬tlxCmdRdMem = tlxCmdPrRdMem := by decide
    have hdl := h.dl (Nat.not_lt.mp hpart)
    rw [MemAfu.take, hop, if_neg hnot, if_pos rfl, hempty]
    refine ⟨rfl, ?_⟩
    have hans : c.command.dl = c.answerDL := (if_neg hpart).symm
    rw [hans]
    refine .read _ _ hrnw ?_
    have hsize : dlToSize c.answerDL = c.byteCnt := hans ▸ hdl
    rw [MmioEvent.Remaining, if_neg hpart, hsize, List.range_eq_range']
    have hfull := h.full (Nat.not_lt.mp hpart)
    exact beats_range a.mem fill _ _ 0 _ (by omega)

theorem MemAfu.take_write {c : MmioEvent} (h : c.Sent) (hrnw : c.rnw = false) (a : MemAfu)
    (fill : Buffer UInt8) (g : TlxAfuCmdData) (hempty : a.queue = []) :
    (a.take fill c.command (c.commandData g).dataBus).mem = c.after a.mem ∧
      c.Answered a.mem (a.take fill c.command (c.commandData g).dataBus).queue := by
  have hbus : (c.commandData g).dataBus = g.dataBus.write 0 (c.tdataBus.read 0 (cmdDataSize c.cmdDL)) := by
    simp [MmioEvent.commandData, hrnw]
  have hafter : c.after a.mem = a.mem.write c.cmdPA.toNat (c.data.read 0 c.byteCnt) := by
    simp [MmioEvent.after, hrnw]
  rw [hafter, hbus]
  by_cases hpart : c.byteCnt < 64
  · obtain ⟨hpl, hdl⟩ := h.pl hpart
    have hop : c.command.opcode = tlxCmdPrWrMem := by simp [MmioEvent.command, hrnw, hpart]
    have hdata : (g.dataBus.write 0 (c.tdataBus.read 0 (cmdDataSize c.cmdDL))).read c.offset c.byteCnt =
        c.data.read 0 c.byteCnt := by
      rw [hdl, show cmdDataSize 0 = 64 by rfl, Buffer.read_write_read _ _ (h.room hpart), MmioEvent.tdataBus, if_pos hpart]
      have hholds := Buffer.holds_write (Buffer.const 0) c.offset (c.data.read 0 c.byteCnt)
      have hread := Buffer.read_eq_of_holds hholds
      rw [Buffer.length_read] at hread
      exact hread
    rw [MemAfu.take, hop, if_neg (by decide), if_neg (by decide), if_pos rfl, hempty]
    refine ⟨?_, .write _ _ hrnw⟩
    change a.mem.write c.cmdPA.toNat (Buffer.read _ c.offset (plToSize c.cmdPL)) = _
    rw [hpl, hdata]
  · have hop : c.command.opcode = tlxCmdWriteMem := by simp [MmioEvent.command, hrnw, hpart, h.noBe]
    have hdl := h.dl (Nat.not_lt.mp hpart)
    have hsize : cmdDataSize c.cmdDL = c.byteCnt := by
      rw [cmdDataSize, if_pos, hdl]
      rcases h.full (Nat.not_lt.mp hpart) with ⟨heq, -⟩ | ⟨heq, -⟩ | ⟨heq, -⟩ <;> rw [heq] <;> decide
    have hdata : (g.dataBus.write 0 (c.tdataBus.read 0 (cmdDataSize c.cmdDL))).read 0 c.byteCnt =
        c.data.read 0 c.byteCnt := by
      rw [hsize, Buffer.read_write_read _ _ (by omega), MmioEvent.tdataBus, if_neg hpart,
        Buffer.read_write_read _ _ (by omega)]
    rw [MemAfu.take, hop, if_neg (by decide), if_neg (by decide), if_neg (by decide), if_pos rfl, hempty]
    refine ⟨?_, .write _ _ hrnw⟩
    change a.mem.write c.cmdPA.toNat (Buffer.read _ 0 (dlToSize c.cmdDL)) = _
    rw [hdl, hdata]

/-! ## Gathering the data of a read -/

/-- The event of a read when its response and `got` bytes of its data have come. -/
def MmioEvent.gathering (c : MmioEvent) (got : ℕ) (data : Buffer UInt8) : MmioEvent :=
  { c with
    state := .buffer
    respCode := 0
    respOpcode := afuRspMemRdResp
    respDL := c.answerDL
    respDP := 0
    partialIndex := got
    sizeReceived := got
    data }

/-- What was gathered agrees with the memory. -/
structure MmioEvent.Gathered (c : MmioEvent) (mem : Buffer UInt8) (got : ℕ) (data : Buffer UInt8) : Prop where
  read : c.rnw = true
  more : got < c.byteCnt
  lines : 64 ∣ got
  agrees : ∀ i < got, data i = mem (c.cmdPA.toNat + i)

/-- An event that is done and waits for its client. -/
structure MmioEvent.Finished (c : MmioEvent) (mem : Buffer UInt8) (e : MmioEvent) : Prop where
  id : e.id = c.id
  message : e.ackMessage = c.ack :: 0 :: c.reply mem

theorem MmioEvent.finished_of_read {c e : MmioEvent} {mem : Buffer UInt8}
    (hid : e.id = c.id) (hfields : e.rnw = true ∧ e.ack = c.ack ∧ e.size = c.size ∧ e.dw = c.dw)
    (hcode : e.respCode = 0)
    (hdata : c.reply mem = if c.size ≠ 0 then e.data.read 0 c.size
      else if c.dw then beBytes 8 e.cmdData.toNat else beBytes 4 e.cmdData.toNat) : c.Finished mem e := by
  obtain ⟨hread, hack, hsize, hdw⟩ := hfields
  refine ⟨hid, ?_⟩
  rw [MmioEvent.ackMessage, if_neg (by simp [hcode]), if_pos hread, hack, hcode, hsize, hdw, hdata]

theorem MmioEvent.beatOffset_gathering {c : MmioEvent} (h : c.Sent) (hfull : 64 ≤ c.byteCnt) {mem : Buffer UInt8}
    {got : ℕ} {data : Buffer UInt8} (hg : c.Gathered mem got data) :
    (c.gathering got data).beatOffset = some got := by
  have hmore := hg.more
  have hlines := hg.lines
  have hdl : (c.gathering got data).respDL = c.cmdDL := if_neg (Nat.not_lt.mpr hfull)
  unfold MmioEvent.beatOffset
  rw [hdl]
  rcases h.full hfull with ⟨heq, hcnt⟩ | ⟨heq, hcnt⟩ | ⟨heq, hcnt⟩
  · have hzero : got = 0 := by omega
    rw [heq, hzero]
    rfl
  · rw [heq]
    change some (0 * 128 + got) = some got
    rw [Nat.zero_mul, Nat.zero_add]
  · rw [heq]
    rfl

theorem beats_le {mem : Buffer UInt8} {pa n got : ℕ} {queue : List AfuItem} (h : Beats mem pa n got queue) :
    got ≤ n := by
  induction queue generalizing got with
  | nil => exact Nat.le_of_eq h
  | cons item queue ih =>
    cases item with
    | resp r => exact h.elim
    | beat bus =>
      have hnext := ih h.2
      omega

/-- A beat behind the last one would run past the end. -/
theorem beats_end {mem : Buffer UInt8} {pa n : ℕ} {queue : List AfuItem} (h : Beats mem pa n n queue) :
    queue = [] := by
  cases queue with
  | nil => rfl
  | cons item queue =>
    exfalso
    cases item with
    | resp r => exact h
    | beat bus =>
      have hpast := beats_le h.2
      omega

section Gathering

variable {c : MmioEvent} {mem data bus : Buffer UInt8} {got : ℕ}

/-- The one beat of a register's read: the bytes replace the low bytes of a zero. -/
theorem takeRespData_register (hread : c.rnw = true) (hsize : c.size = 0)
    (hcnt : c.byteCnt = if c.dw then 8 else 4) (hpl : c.cmdPL = if c.dw then 3 else 2)
    (hbus : ∀ i < c.byteCnt, bus (c.offset + i) = mem (c.cmdPA.toNat + i)) (m : Mmio) :
    ∃ e, c.Finished mem e ∧ takeRespData m (c.gathering got data) [] bus =
      { m with list := [], finished := m.finished ++ [e], trace := m.trace ++ [.done c.id] } := by
  have hlength : (if (c.gathering got data).cmdPL = 2 then 4 else 8) = c.byteCnt := by
    change (if c.cmdPL = 2 then 4 else 8) = c.byteCnt
    rw [hpl, hcnt]
    cases c.dw <;> rfl
  refine ⟨{ (c.gathering got data).stash bus c.byteCnt with state := .done }, ?_, ?_⟩
  · refine MmioEvent.finished_of_read rfl ⟨hread, rfl, rfl, rfl⟩ rfl ?_
    have hreply : c.reply mem = (mem.read c.cmdPA.toNat c.byteCnt).reverse := by
      simp [MmioEvent.reply, hread, hsize]
    have hbytes : ∀ z : Buffer UInt8, (z.write 0 (bus.read c.offset c.byteCnt)).read 0 c.byteCnt =
        mem.read c.cmdPA.toNat c.byteCnt := by
      intro z
      have hhold := Buffer.read_eq_of_holds (Buffer.holds_write z 0 (bus.read c.offset c.byteCnt))
      rw [Buffer.length_read] at hhold
      rw [hhold]
      exact Buffer.read_congr hbus
    have hnat : ∀ z : Buffer UInt8, (UInt64.ofNat (loadLE z 0 8)).toNat = loadLE z 0 8 := by
      intro z
      rw [UInt64.toNat_ofNat']
      exact Nat.mod_eq_of_lt (loadLE_lt z 0 8)
    rw [hreply, if_neg (not_not.mpr hsize), ← hbytes]
    change _ = if c.dw then beBytes 8 (UInt64.ofNat (loadLE _ 0 8)).toNat
      else beBytes 4 (UInt64.ofNat (loadLE _ 0 8)).toNat
    rw [hnat]
    cases hdw : c.dw with
    | true =>
      have hcnt8 : c.byteCnt = 8 := by rw [hcnt, hdw]; rfl
      rw [hcnt8]
      exact (beBytes_loadLE _ 0 8 0).symm
    | false =>
      have hcnt4 : c.byteCnt = 4 := by rw [hcnt, hdw]; rfl
      rw [hcnt4]
      exact (beBytes_loadLE _ 0 4 4).symm
  · have hzero : (c.gathering got data).size = 0 := hsize
    unfold takeRespData
    simp only [if_pos hzero, hlength]
    rfl

/-- The one beat of a partial LPC read. -/
theorem takeRespData_partialRead (hread : c.rnw = true) (hsize : c.size ≠ 0) (hcnt : c.size = c.byteCnt)
    (hpart : c.byteCnt < 64) (hbus : ∀ i < c.byteCnt, bus (c.offset + i) = mem (c.cmdPA.toNat + i)) (m : Mmio) :
    ∃ e, c.Finished mem e ∧ takeRespData m (c.gathering got data) [] bus =
      { m with list := [], finished := m.finished ++ [e], trace := m.trace ++ [.done c.id] } := by
  refine ⟨{ c.gathering got data with
    data := data.write 0 (bus.read c.offset c.size), state := .done }, ?_, ?_⟩
  · refine MmioEvent.finished_of_read rfl ⟨hread, rfl, rfl, rfl⟩ rfl ?_
    have hreply : c.reply mem = mem.read c.cmdPA.toNat c.size := by
      simp [MmioEvent.reply, hread, hsize]
    have hhold := Buffer.read_eq_of_holds (Buffer.holds_write data 0 (bus.read c.offset c.size))
    rw [Buffer.length_read] at hhold
    rw [hreply, if_pos hsize, hhold, hcnt]
    exact (Buffer.read_congr hbus).symm
  · have hne : ¬(c.gathering got data).size = 0 := hsize
    have hlt : (c.gathering got data).size < 64 := hcnt ▸ hpart
    unfold takeRespData
    simp only [if_neg hne, if_pos hlt]
    rfl

theorem MmioEvent.Gathered.write (hg : c.Gathered mem got data)
    (hbus : ∀ i < 64, bus i = mem (c.cmdPA.toNat + (got + i))) :
    ∀ i < got + 64, data.write got (bus.read 0 64) i = mem (c.cmdPA.toNat + i) := by
  intro i hi
  by_cases hlow : i < got
  · rw [Buffer.write_of_lt _ _ _ _ hlow]
    exact hg.agrees i hlow
  · obtain ⟨j, rfl⟩ := Nat.exists_eq_add_of_le (Nat.not_lt.mp hlow)
    rw [Buffer.write_at _ _ _ j (by rw [Buffer.length_read]; omega), Buffer.get_read, Nat.zero_add]
    exact hbus j (by omega)

/-- A beat of a full LPC read goes behind what has come, and the last one finishes the event. -/
theorem takeRespData_line (h : c.Sent) (hfull : 64 ≤ c.byteCnt) (hcnt : c.size = c.byteCnt)
    (hg : c.Gathered mem got data) (m : Mmio) : takeRespData m (c.gathering got data) [] bus =
      if got + 64 = c.byteCnt then
        (m.finish (c.gathering (got + 64) (data.write got (bus.read 0 64))) []).unlink
          { c.gathering (got + 64) (data.write got (bus.read 0 64)) with state := .done } []
      else { m with list := [c.gathering (got + 64) (data.write got (bus.read 0 64))] } := by
  have hmore := hg.more
  have hsizes := h.full hfull
  have hne : ¬(c.gathering got data).size = 0 := by
    change ¬c.size = 0
    omega
  have hge : ¬(c.gathering got data).size < 64 := by
    change ¬c.size < 64
    omega
  have hoffset := MmioEvent.beatOffset_gathering h hfull hg
  have hbeat : (c.gathering got data).beat bus got =
      c.gathering (got + 64) (data.write got (bus.read 0 64)) := by
    have h₁ : (got + 64) % 2 ^ 16 = got + 64 := by omega
    have h₂ : (got + 64) % 2 ^ 32 = got + 64 := by omega
    change ({ c.gathering got data with
      data := data.write got (bus.read 0 64)
      partialIndex := (got + 64) % 2 ^ 16
      sizeReceived := (got + 64) % 2 ^ 32 } : MmioEvent) = _
    rw [h₁, h₂]
    rfl
  unfold takeRespData
  simp only [if_neg hne, if_neg hge, hoffset, hbeat]
  change (if got + 64 = c.size then _ else _) = _
  rw [hcnt]

/-- One more beat: the read goes on, or it was the last. -/
theorem takeRespData_gathering (h : c.Sent) {queue : List AfuItem} (hg : c.Gathered mem got data)
    (hrest : c.Remaining mem got (.beat bus :: queue)) (m : Mmio) :
    (∃ data', c.Gathered mem (got + 64) data' ∧ c.Remaining mem (got + 64) queue ∧
      takeRespData m (c.gathering got data) [] bus = { m with list := [c.gathering (got + 64) data'] }) ∨
    (∃ e, c.Finished mem e ∧ queue = [] ∧ takeRespData m (c.gathering got data) [] bus =
      { m with list := [], finished := m.finished ++ [e], trace := m.trace ++ [.done c.id] }) := by
  have hread := hg.read
  by_cases hpart : c.byteCnt < 64
  · right
    rw [MmioEvent.Remaining, if_pos hpart] at hrest
    obtain ⟨-, bus', hqueue, hbus⟩ := hrest
    obtain ⟨hitem, hnil⟩ := List.cons.inj hqueue
    obtain rfl := AfuItem.beat.inj hitem
    rcases h.size with ⟨hsize, hcnt, hpl⟩ | ⟨hsize, hcnt⟩
    · obtain ⟨e, hfinished, htake⟩ := takeRespData_register hread hsize hcnt hpl hbus m
      exact ⟨e, hfinished, hnil, htake⟩
    · obtain ⟨e, hfinished, htake⟩ := takeRespData_partialRead hread hsize hcnt hpart hbus m
      exact ⟨e, hfinished, hnil, htake⟩
  · have hfull := Nat.not_lt.mp hpart
    have hmore := hg.more
    have hlines := hg.lines
    have hcnt : c.size = c.byteCnt := by
      rcases h.size with ⟨-, hcnt, -⟩ | ⟨-, hcnt⟩
      · rw [hcnt] at hfull
        cases hdw : c.dw <;> simp [hdw] at hfull
      · exact hcnt
    rw [MmioEvent.Remaining, if_neg hpart] at hrest
    obtain ⟨hbus, hbeats⟩ := hrest
    have hagrees := hg.write hbus
    have htake : takeRespData m (c.gathering got data) [] bus = _ := takeRespData_line h hfull hcnt hg m
    by_cases hlast : got + 64 = c.byteCnt
    · rw [hlast] at hbeats
      refine .inr ⟨_, ?_, beats_end hbeats, htake.trans (if_pos hlast)⟩
      refine MmioEvent.finished_of_read rfl ⟨hread, rfl, rfl, rfl⟩ rfl ?_
      have hsome : c.size ≠ 0 := by omega
      have hreply : c.reply mem = mem.read c.cmdPA.toNat c.size := by
        simp [MmioEvent.reply, hread, hsome]
      rw [hreply, if_pos hsome]
      refine Buffer.read_congr (fun i hi => ?_)
      rw [Nat.zero_add]
      exact (hagrees i (by omega)).symm
    · have hnext := beats_le hbeats
      have hremains : c.Remaining mem (got + 64) queue := by
        rw [MmioEvent.Remaining, if_neg hpart]
        exact hbeats
      exact .inl ⟨_, ⟨hread, by omega, by omega, hagrees⟩, hremains, htake.trans (if_neg hlast)⟩

end Gathering

/-! ## The engine on a clock -/

theorem handleApRespData_silent {m : Mmio} (hrdata : m.afuEvent.afuRdata.valid = 0)
    (hlist : ∀ e ∈ m.list, e.state ≠ .done) : handleApRespData m = m := by
  unfold handleApRespData
  split
  · rfl
  · rename_i e rest heq
    rw [if_neg (hlist e (by simp [heq])), afuTlxReadRespData, if_pos hrdata]
    split <;> rfl

theorem handleApResp_silent {m : Mmio} (hresp : m.afuEvent.afuResp.valid = 0)
    (hlist : ∀ e ∈ m.list, e.cfg = false) : handleApResp m = m := by
  unfold handleApResp
  split
  · rfl
  · rename_i e rest heq
    have hcfg := hlist e (by simp [heq])
    rw [if_neg (by simp [hcfg]), handleMemResp, afuTlxReadResp, if_pos hresp]

/-- The engine has nothing to read, and no event that is done. -/
theorem handleAfuMmio_silent {m : Mmio} (hresp : m.afuEvent.afuResp.valid = 0)
    (hrdata : m.afuEvent.afuRdata.valid = 0) (hlist : ∀ e ∈ m.list, e.cfg = false ∧ e.state ≠ .done) :
    handleAfuMmio m = m := by
  rw [handleAfuMmio, handleApResp_silent hresp (fun e he => (hlist e he).1),
    handleApRespData_silent hrdata (fun e he => (hlist e he).2)]
  split <;> rfl

theorem handleAfuMmio_of_resp {m m' : Mmio} (h : handleApResp m = m') (hrunning : m'.halted = false) :
    handleAfuMmio m = handleApRespData m' := by
  rw [handleAfuMmio, h, if_neg (by simp [hrunning])]

theorem afuTlxReadResp_some {a : AfuEvent} {r : AfuTlxResp} (h : a.afuResp = r) (hvalid : r.valid ≠ 0) :
    afuTlxReadResp a = (some r, (afuTlxReadResp a).2) := by
  rw [afuTlxReadResp, if_neg (by rw [h]; exact hvalid), h]

/-- The response to a write finishes it. -/
theorem handleAfuMmio_write {c : MmioEvent} (hcfg : c.cfg = false) (hrnw : c.rnw = false) {m : Mmio}
    (hrunning : m.halted = false) (hlist : m.list = [{ c with state := .pending }]) {dl : UInt8} {capptag : UInt16}
    (hresp : m.afuEvent.afuResp = ⟨1, afuRspMemWrResp, dl, capptag, 0, 0⟩) (mem : Buffer UInt8) :
    ∃ e, c.Finished mem e ∧ handleAfuMmio m = { m with
      afuEvent := (afuTlxReadResp m.afuEvent).2
      list := []
      finished := m.finished ++ [e]
      trace := m.trace ++ [.done c.id] } := by
  have hmem : ¬c.cfg = true := by simp [hcfg]
  have hread := afuTlxReadResp_some hresp (show (1 : UInt8) ≠ 0 by decide)
  generalize (afuTlxReadResp m.afuEvent).2 = next at hread ⊢
  refine ⟨{ c with state := .done, respCode := 0, respOpcode := afuRspMemWrResp }, ⟨rfl, ?_⟩, ?_⟩
  · have hreply : c.reply mem = [] := if_pos hrnw
    rw [hreply]
    simp [MmioEvent.ackMessage, hrnw]
  · unfold handleAfuMmio handleApResp
    rw [hlist]
    simp only [if_neg hmem, handleMemResp, hread]
    simp [Mmio.finish, handleApRespData, hrunning, hrnw, Mmio.unlink]

/-- The response to a read: its data is now awaited. -/
theorem handleApResp_read {c : MmioEvent} (h : c.Sent) (hrnw : c.rnw = true) {m : Mmio}
    (hlist : m.list = [{ c with state := .pending }]) {capptag : UInt16}
    (hresp : m.afuEvent.afuResp = ⟨1, afuRspMemRdResp, c.answerDL, capptag, 0, 0⟩) :
    handleApResp m = { m with
      afuEvent := (afuTlxReadResp m.afuEvent).2
      list := [c.gathering 0 c.data] } := by
  have hmem : ¬c.cfg = true := by simp [h.cfg]
  have hread := afuTlxReadResp_some hresp (show (1 : UInt8) ≠ 0 by decide)
  generalize (afuTlxReadResp m.afuEvent).2 = next at hread ⊢
  have hlegal : respDldpIsLegal c.cmdDL c.answerDL 0 = true := by
    by_cases hpart : c.byteCnt < 64
    · obtain ⟨-, hdl⟩ := h.pl hpart
      rw [MmioEvent.answerDL, if_pos hpart, hdl]
      decide
    · rw [MmioEvent.answerDL, if_neg hpart]
      rcases h.full (Nat.not_lt.mp hpart) with ⟨heq, -⟩ | ⟨heq, -⟩ | ⟨heq, -⟩ <;> rw [heq] <;> decide
  have hgather : c.gathering 0 c.data = { c with
      state := .buffer, respCode := 0, respOpcode := afuRspMemRdResp, respDL := c.answerDL, respDP := 0
      partialIndex := 0 } := by
    rw [MmioEvent.gathering, ← h.fresh]
  unfold handleApResp
  rw [hlist]
  simp only [if_neg hmem, handleMemResp, hread, hgather]
  simp [hrnw, hlegal]

/-- A beat for an event that gathers. -/
theorem handleApRespData_beat {c : MmioEvent} (hcfg : c.cfg = false) {m : Mmio} {got : ℕ} {data : Buffer UInt8}
    (hrnw : c.rnw = true) (hlist : m.list = [c.gathering got data]) (hrdata : m.afuEvent.afuRdata.valid ≠ 0) :
    handleApRespData m = takeRespData { m with afuEvent := (afuTlxReadRespData m.afuEvent).2 }
      (c.gathering got data) [] m.afuEvent.afuRdata.bus := by
  have hread : afuTlxReadRespData m.afuEvent = (some m.afuEvent.afuRdata.bus,
      (afuTlxReadRespData m.afuEvent).2) := by
    rw [afuTlxReadRespData, if_neg hrdata]
  have hmem : ¬((c.gathering got data).cfg || !(c.gathering got data).rnw) = true := by
    change ¬(c.cfg || !c.rnw) = true
    simp [hcfg, hrnw]
  have hstate : ¬(c.gathering got data).state ≠ .buffer := not_not.mpr rfl
  unfold handleApRespData
  rw [hlist]
  simp only [if_neg hmem]
  rw [hread]
  simp only [if_neg hstate]

/-! ## The stages of an access -/

theorem acksOf_append (t t' : List MmioObs) : acksOf (t ++ t') = acksOf t ++ acksOf t' := List.filterMap_append

/-- The host is between two clocks and has read what the last one showed. -/
structure AfuEvent.Rested (a : AfuEvent) : Prop where
  clock : a.clock = 0
  resp : a.afuResp.valid = 0
  rdata : a.afuRdata.valid = 0

/-- Nothing is under way. -/
structure Bench.Quiet (b : Bench) : Prop where
  running : b.engine.halted = false
  rested : b.engine.afuEvent.Rested
  list : b.engine.list = []
  finished : b.engine.finished = []
  access : ∀ client, b.engine.access client = none
  cmd : b.engine.afuEvent.tlxCmd.valid = 0
  queue : b.afu.queue = []

/-- One client waits for one event, and nobody has been told anything since. -/
structure Mmio.Serves (m : Mmio) (client id : ℕ) (acks : List (ℕ × List UInt8)) : Prop where
  running : m.halted = false
  access : ∀ i, m.access i = if i = client then some id else none
  acks : acksOf m.trace = acks

/-- How far an access has come, with its rank. -/
inductive Bench.Stage (b : Bench) (e : MmioEvent) (mem : Buffer UInt8) : ℕ → Prop
  | queued (hlist : b.engine.list = [e]) (hfin : b.engine.finished = [])
      (hcmd : b.engine.afuEvent.tlxCmd.valid = 0) (hqueue : b.afu.queue = []) (hmem : b.afu.mem = mem) :
      b.Stage e mem (e.encode.byteCnt + 4)
  | staged (g : TlxAfuCmdData) (hlist : b.engine.list = [{ e.encode with state := .pending }])
      (hfin : b.engine.finished = []) (hcmd : b.engine.afuEvent.tlxCmd = e.encode.command)
      (hdata : b.engine.afuEvent.tlxCmdData = e.encode.commandData g) (hqueue : b.afu.queue = [])
      (hmem : b.afu.mem = mem) : b.Stage e mem (e.encode.byteCnt + 3)
  | taken (hlist : b.engine.list = [{ e.encode with state := .pending }]) (hfin : b.engine.finished = [])
      (hcmd : b.engine.afuEvent.tlxCmd.valid = 0) (hqueue : e.encode.Answered mem b.afu.queue)
      (hmem : b.afu.mem = e.encode.after mem) : b.Stage e mem (e.encode.byteCnt + 2)
  | gathering (got : ℕ) (data : Buffer UInt8) (hgot : e.encode.Gathered mem got data)
      (hlist : b.engine.list = [e.encode.gathering got data]) (hfin : b.engine.finished = [])
      (hcmd : b.engine.afuEvent.tlxCmd.valid = 0) (hqueue : e.encode.Remaining mem got b.afu.queue)
      (hmem : b.afu.mem = e.encode.after mem) : b.Stage e mem (e.encode.byteCnt - got + 1)
  | finished (e' : MmioEvent) (hdone : e.encode.Finished mem e') (hlist : b.engine.list = [])
      (hfin : b.engine.finished = [e']) (hcmd : b.engine.afuEvent.tlxCmd.valid = 0) (hqueue : b.afu.queue = [])
      (hmem : b.afu.mem = e.encode.after mem) : b.Stage e mem 1

/-- The access is under way. -/
structure Bench.Under (b₀ : Bench) (client : ℕ) (e : MmioEvent) (r : ℕ) (b : Bench) : Prop where
  serves : b.engine.Serves client e.id (acksOf b₀.engine.trace)
  rested : b.engine.afuEvent.Rested
  stage : b.Stage e b₀.afu.mem r

/-- The access is over: its client has been told. -/
structure Bench.Over (b₀ : Bench) (client : ℕ) (e : MmioEvent) (b : Bench) : Prop where
  quiet : b.Quiet
  acks : acksOf b.engine.trace =
    acksOf b₀.engine.trace ++ [(client, e.encode.ack :: 0 :: e.encode.reply b₀.afu.mem)]
  mem : b.afu.mem = e.encode.after b₀.afu.mem

/-! ## A clock -/

theorem clocks_fields {host : AfuEvent} (hclock : host.clock = 0) (resp : Option AfuTlxResp)
    (beat : Option (Buffer UInt8)) :
    (host.clocks resp beat).clock = 0 ∧ (host.clocks resp beat).tlxCmd.valid = 0 ∧
      (resp = none → (host.clocks resp beat).afuResp.valid = 0) ∧
      (beat = none → (host.clocks resp beat).afuRdata.valid = 0) ∧
      (∀ r, resp = some r → (host.clocks resp beat).afuResp = r) ∧
      (∀ bus, beat = some bus → (host.clocks resp beat).afuRdata = ⟨1, bus, 0⟩) := by
  have hcmd : (tlxSignalAfuModel host).2.1.tlxCmd.valid = 0 := by
    rw [tlxSignalAfuModel, if_neg (not_not.mpr hclock)]
    change (host.tlxCmd.put _).1.valid = 0
    unfold TlxAfuCmd.put
    split_ifs with hv
    · rfl
    · exact not_not.mp hv
  refine ⟨rfl, hcmd, ?_, ?_, ?_, ?_⟩
  · rintro rfl
    rfl
  · rintro rfl
    rfl
  · rintro r rfl
    rfl
  · rintro bus rfl
    rfl

theorem readResp_fields (a : AfuEvent) : (afuTlxReadResp a).2.clock = a.clock ∧
    (afuTlxReadResp a).2.tlxCmd = a.tlxCmd ∧ (afuTlxReadResp a).2.afuResp.valid = 0 ∧
    (afuTlxReadResp a).2.afuRdata = a.afuRdata := by
  unfold afuTlxReadResp
  split_ifs with h
  · exact ⟨rfl, rfl, h, rfl⟩
  · exact ⟨rfl, rfl, rfl, rfl⟩

theorem readRespData_fields (a : AfuEvent) : (afuTlxReadRespData a).2.clock = a.clock ∧
    (afuTlxReadRespData a).2.tlxCmd = a.tlxCmd ∧ (afuTlxReadRespData a).2.afuResp = a.afuResp ∧
    (afuTlxReadRespData a).2.afuRdata.valid = 0 := by
  unfold afuTlxReadRespData
  split_ifs with h
  · exact ⟨rfl, rfl, rfl, h⟩
  · exact ⟨rfl, rfl, rfl, rfl⟩

theorem Bench.clock_eq {b : Bench} (hrunning : b.engine.halted = false) (fill : Buffer UInt8) {k : ℕ}
    {resp : Option AfuTlxResp} {beat : Option (Buffer UInt8)} {afu : MemAfu}
    (h : b.afu.answer k = (resp, beat, afu)) :
    b.clock fill k =
      { engine := handleAfuMmio { b.engine with afuEvent := b.engine.afuEvent.clocks resp beat }
        afu := if b.engine.afuEvent.tlxCmd.valid ≠ 0 then
          afu.take fill b.engine.afuEvent.tlxCmd b.engine.afuEvent.tlxCmdData.dataBus else afu } := by
  simp [Bench.clock, h, Mmio.step, hrunning, Mmio.act]

/-- A clock on which the AFU shows nothing. -/
theorem Bench.clock_silent {b : Bench} (hrunning : b.engine.halted = false) (hclock : b.engine.afuEvent.clock = 0)
    (hlist : ∀ e ∈ b.engine.list, e.cfg = false ∧ e.state ≠ .done) (fill : Buffer UInt8) {k : ℕ}
    (h : b.afu.answer k = (none, none, b.afu)) :
    ∃ a : AfuEvent, a.Rested ∧ a.tlxCmd.valid = 0 ∧ b.clock fill k =
      { engine := { b.engine with afuEvent := a }
        afu := if b.engine.afuEvent.tlxCmd.valid ≠ 0 then
          b.afu.take fill b.engine.afuEvent.tlxCmd b.engine.afuEvent.tlxCmdData.dataBus else b.afu } := by
  obtain ⟨hclock', hcmd, hresp, hrdata, -, -⟩ := clocks_fields hclock none none
  refine ⟨_, ⟨hclock', hresp rfl, hrdata rfl⟩, hcmd, ?_⟩
  have hsilent := handleAfuMmio_silent (m := { b.engine with afuEvent := b.engine.afuEvent.clocks none none })
    (hresp rfl) (hrdata rfl) hlist
  rw [Bench.clock_eq hrunning fill h, hsilent]

theorem MemAfu.answer_nil {a : MemAfu} (h : a.queue = []) (k : ℕ) : a.answer k = (none, none, a) := by
  rcases a with ⟨mem, queue⟩
  obtain rfl : queue = [] := h
  cases k <;> rfl

theorem MemAfu.answer_zero (a : MemAfu) : a.answer 0 = (none, none, a) := rfl

/-- A beat of data comes, with the response or after it. -/
theorem under_beat {b₀ : Bench} {client : ℕ} {e : MmioEvent} (h : e.Fits) {m : Mmio}
    (hserves : m.Serves client e.id (acksOf b₀.engine.trace)) (hclock : m.afuEvent.clock = 0)
    (hcmd : m.afuEvent.tlxCmd.valid = 0) (hresp : m.afuEvent.afuResp.valid = 0) {bus : Buffer UInt8}
    (hrdata : m.afuEvent.afuRdata = ⟨1, bus, 0⟩) (hfin : m.finished = []) {got : ℕ} {data : Buffer UInt8}
    (hlist : m.list = [e.encode.gathering got data]) (hg : e.encode.Gathered b₀.afu.mem got data)
    {queue : List AfuItem} (hrest : e.encode.Remaining b₀.afu.mem got (.beat bus :: queue)) :
    ∃ r ≤ e.encode.byteCnt - got, Bench.Under b₀ client e r
      ⟨handleApRespData m, ⟨e.encode.after b₀.afu.mem, queue⟩⟩ := by
  have hmore := hg.more
  obtain ⟨hclock', hcmd', hresp', hrdata'⟩ := readRespData_fields m.afuEvent
  have hrested : AfuEvent.Rested (afuTlxReadRespData m.afuEvent).2 :=
    ⟨hclock'.trans hclock, hresp' ▸ hresp, hrdata'⟩
  have hfree : (afuTlxReadRespData m.afuEvent).2.tlxCmd.valid = 0 := hcmd' ▸ hcmd
  have hbus : m.afuEvent.afuRdata.bus = bus := by rw [hrdata]
  have hvalid : m.afuEvent.afuRdata.valid ≠ 0 := by
    rw [hrdata]
    exact show (1 : UInt8) ≠ 0 by decide
  rw [handleApRespData_beat h.sent.cfg hg.read hlist hvalid, hbus]
  rcases takeRespData_gathering h.sent hg hrest { m with afuEvent := (afuTlxReadRespData m.afuEvent).2 } with
    ⟨data', hg', hrest', heq⟩ | ⟨e', hdone, rfl, heq⟩
  · refine ⟨e.encode.byteCnt - (got + 64) + 1, ?_, ?_⟩
    · have := hg'.more
      omega
    · rw [heq]
      exact ⟨⟨hserves.running, hserves.access, hserves.acks⟩, hrested,
        .gathering (got + 64) data' hg' rfl hfin hfree hrest' rfl⟩
  · refine ⟨1, by omega, ?_⟩
    rw [heq]
    refine ⟨⟨hserves.running, hserves.access, ?_⟩, hrested, .finished e' hdone rfl ?_ hfree rfl rfl⟩
    · change acksOf (m.trace ++ [.done e.encode.id]) = _
      rw [acksOf_append, hserves.acks]
      exact List.append_nil _
    · change m.finished ++ [e'] = [e']
      rw [hfin]
      rfl

/-- Data is due as long as some is missing. -/
theorem MmioEvent.Remaining.beat {c : MmioEvent} {mem : Buffer UInt8} {got : ℕ} {queue : List AfuItem}
    (h : c.Remaining mem got queue) (hmore : got < c.byteCnt) : ∃ bus rest, queue = .beat bus :: rest := by
  unfold MmioEvent.Remaining at h
  split_ifs at h with hpart
  · obtain ⟨-, bus, rfl, -⟩ := h
    exact ⟨bus, [], rfl⟩
  · cases queue with
    | nil => exact absurd h (Nat.ne_of_lt hmore)
    | cons item rest =>
      cases item with
      | resp r => exact h.elim
      | beat bus => exact ⟨bus, rest, rfl⟩

/-- The AFU has taken the command. -/
theorem Bench.clock_taken {b₀ b : Bench} {client : ℕ} {e : MmioEvent} (h : e.Fits)
    (hserves : b.engine.Serves client e.id (acksOf b₀.engine.trace)) (hclock : b.engine.afuEvent.clock = 0)
    (hlist : b.engine.list = [{ e.encode with state := .pending }]) (hfin : b.engine.finished = [])
    (hcmd : b.engine.afuEvent.tlxCmd.valid = 0) (hqueue : e.encode.Answered b₀.afu.mem b.afu.queue)
    (hmem : b.afu.mem = e.encode.after b₀.afu.mem) (fill : Buffer UInt8) {k : ℕ} (hk : k ≠ 0) :
    ∃ r < e.encode.byteCnt + 2, Bench.Under b₀ client e r (b.clock fill k) := by
  have hsent := h.sent
  obtain ⟨hpos, -⟩ := lpcSizes_bounds hsent.legal
  rcases hafu : b.afu with ⟨mem, queue⟩
  rw [hafu] at hqueue hmem
  cases hqueue with
  | write dl capptag hrnw =>
    have hanswer : b.afu.answer k = (some ⟨1, afuRspMemWrResp, dl, capptag, 0, 0⟩, none, ⟨mem, []⟩) := by
      rw [hafu]
      match k with
      | 1 => rfl
      | k + 2 => rfl
    generalize hr : (⟨1, afuRspMemWrResp, dl, capptag, 0, 0⟩ : AfuTlxResp) = r at hanswer
    obtain ⟨hclock', hcmd', -, hrdata, hresp, -⟩ := clocks_fields hclock (some r) none
    obtain ⟨e', hdone, heq⟩ := handleAfuMmio_write hsent.cfg hrnw
      (m := { b.engine with afuEvent := b.engine.afuEvent.clocks (some r) none }) hserves.running hlist
      ((hresp r rfl).trans hr.symm) b₀.afu.mem
    obtain ⟨hclock₂, hcmd₂, hresp₂, hrdata₂⟩ := readResp_fields (b.engine.afuEvent.clocks (some r) none)
    refine ⟨1, by omega, ?_⟩
    rw [Bench.clock_eq hserves.running fill hanswer, if_neg (not_not.mpr hcmd), heq]
    refine ⟨⟨hserves.running, hserves.access, ?_⟩, ⟨hclock₂.trans hclock', hresp₂, hrdata₂ ▸ hrdata rfl⟩,
      .finished e' hdone rfl ?_ (hcmd₂ ▸ hcmd') rfl hmem⟩
    · change acksOf (b.engine.trace ++ [.done e.encode.id]) = _
      rw [acksOf_append, hserves.acks]
      exact List.append_nil _
    · change b.engine.finished ++ [e'] = [e']
      rw [hfin]
      rfl
  | read capptag queue hrnw hdata =>
    obtain ⟨bus, rest, rfl⟩ := hdata.beat hpos
    generalize hr : (⟨1, afuRspMemRdResp, e.encode.answerDL, capptag, 0, 0⟩ : AfuTlxResp) = r at hafu
    have hgot : e.encode.Gathered b₀.afu.mem 0 e.encode.data :=
      ⟨hrnw, hpos, Nat.dvd_zero _, fun i hi => absurd hi (Nat.not_lt_zero i)⟩
    match k with
    | 1 =>
      have hanswer : b.afu.answer 1 = (some r, none, ⟨mem, .beat bus :: rest⟩) := by rw [hafu]; rfl
      obtain ⟨hclock', hcmd', -, hrdata, hresp, -⟩ := clocks_fields hclock (some r) none
      obtain ⟨hclock₂, hcmd₂, hresp₂, hrdata₂⟩ := readResp_fields (b.engine.afuEvent.clocks (some r) none)
      have heq := handleAfuMmio_of_resp (handleApResp_read hsent hrnw
        (m := { b.engine with afuEvent := b.engine.afuEvent.clocks (some r) none }) hlist
        ((hresp r rfl).trans hr.symm)) hserves.running
      have hsilent := heq.trans (handleApRespData_silent (hrdata₂ ▸ hrdata rfl)
        (by simp [MmioEvent.gathering]))
      refine ⟨e.encode.byteCnt - 0 + 1, by omega, ?_⟩
      rw [Bench.clock_eq hserves.running fill hanswer, if_neg (not_not.mpr hcmd), hsilent]
      exact ⟨⟨hserves.running, hserves.access, hserves.acks⟩,
        ⟨hclock₂.trans hclock', hresp₂, hrdata₂ ▸ hrdata rfl⟩,
        .gathering 0 _ hgot rfl hfin (hcmd₂ ▸ hcmd') hdata hmem⟩
    | k + 2 =>
      have hanswer : b.afu.answer (k + 2) = (some r, some bus, ⟨mem, rest⟩) := by rw [hafu]; rfl
      obtain ⟨hclock', hcmd', -, -, hresp, hrdata⟩ := clocks_fields hclock (some r) (some bus)
      obtain ⟨hclock₂, hcmd₂, hresp₂, hrdata₂⟩ := readResp_fields (b.engine.afuEvent.clocks (some r) (some bus))
      have heq := handleAfuMmio_of_resp (handleApResp_read hsent hrnw
        (m := { b.engine with afuEvent := b.engine.afuEvent.clocks (some r) (some bus) }) hlist
        ((hresp r rfl).trans hr.symm)) hserves.running
      obtain ⟨r', hr', hunder⟩ := under_beat h (m := { b.engine with
          afuEvent := (afuTlxReadResp (b.engine.afuEvent.clocks (some r) (some bus))).2
          list := [e.encode.gathering 0 e.encode.data] })
        ⟨hserves.running, hserves.access, hserves.acks⟩ (hclock₂.trans hclock') (hcmd₂ ▸ hcmd') hresp₂
        (hrdata₂.trans (hrdata bus rfl)) hfin rfl hgot hdata
      refine ⟨r', by omega, ?_⟩
      rw [Bench.clock_eq hserves.running fill hanswer, if_neg (not_not.mpr hcmd), heq]
      obtain rfl : mem = e.encode.after b₀.afu.mem := hmem
      exact hunder

/-- The AFU has beats of data to show. -/
theorem Bench.clock_gathering {b₀ b : Bench} {client : ℕ} {e : MmioEvent} (h : e.Fits)
    (hserves : b.engine.Serves client e.id (acksOf b₀.engine.trace)) (hclock : b.engine.afuEvent.clock = 0)
    {got : ℕ} {data : Buffer UInt8} (hgot : e.encode.Gathered b₀.afu.mem got data)
    (hlist : b.engine.list = [e.encode.gathering got data]) (hfin : b.engine.finished = [])
    (hcmd : b.engine.afuEvent.tlxCmd.valid = 0) (hqueue : e.encode.Remaining b₀.afu.mem got b.afu.queue)
    (hmem : b.afu.mem = e.encode.after b₀.afu.mem) (fill : Buffer UInt8) {k : ℕ} (hk : k ≠ 0) :
    ∃ r ≤ e.encode.byteCnt - got, Bench.Under b₀ client e r (b.clock fill k) := by
  rcases hafu : b.afu with ⟨mem, queue⟩
  rw [hafu] at hqueue hmem
  obtain ⟨bus, rest, rfl⟩ := hqueue.beat hgot.more
  have hanswer : b.afu.answer k = (none, some bus, ⟨mem, rest⟩) := by
    rw [hafu]
    match k with
    | 1 => rfl
    | k + 2 => rfl
  obtain ⟨hclock', hcmd', hresp, -, -, hrdata⟩ := clocks_fields hclock none (some bus)
  have heq := handleAfuMmio_of_resp (handleApResp_silent
    (m := { b.engine with afuEvent := b.engine.afuEvent.clocks none (some bus) }) (hresp rfl)
    (by simp [hlist, MmioEvent.gathering, h.sent.cfg])) hserves.running
  obtain ⟨r', hr', hunder⟩ := under_beat h
    (m := { b.engine with afuEvent := b.engine.afuEvent.clocks none (some bus) })
    ⟨hserves.running, hserves.access, hserves.acks⟩ hclock' hcmd' (hresp rfl) (hrdata bus rfl) hfin hlist
    hgot hqueue
  refine ⟨r', hr', ?_⟩
  rw [Bench.clock_eq hserves.running fill hanswer, if_neg (not_not.mpr hcmd), heq]
  obtain rfl : mem = e.encode.after b₀.afu.mem := hmem
  exact hunder

/-- A clock never takes an access back, and brings it forward when the AFU shows what it has. -/
theorem Bench.Under.clock {b₀ b : Bench} {client r : ℕ} {e : MmioEvent} (h : e.Fits)
    (hb : Bench.Under b₀ client e r b) (fill : Buffer UInt8) (k : ℕ) :
    ∃ r' ≤ r, Bench.Under b₀ client e r' (b.clock fill k) ∧
      (k ≠ 0 → r ≠ 1 → r ≠ e.encode.byteCnt + 4 → r' < r) := by
  obtain ⟨hserves, hrested, hstage⟩ := hb
  have hsent := h.sent
  cases hstage with
  | queued hlist hfin hcmd hqueue hmem =>
    have hquiet : ∀ x ∈ b.engine.list, x.cfg = false ∧ x.state ≠ .done := by
      simp [hlist, h.cfg, h.idle]
    obtain ⟨a, ha, hcmd', heq⟩ := Bench.clock_silent hserves.running hrested.clock hquiet fill
      (b.afu.answer_nil hqueue k)
    rw [heq, if_neg (not_not.mpr hcmd)]
    exact ⟨_, Nat.le_refl _, ⟨⟨hserves.running, hserves.access, hserves.acks⟩, ha,
      .queued hlist hfin hcmd' hqueue hmem⟩, fun _ _ hne => absurd rfl hne⟩
  | staged g hlist hfin hcmd hdata hqueue hmem =>
    have hquiet : ∀ x ∈ b.engine.list, x.cfg = false ∧ x.state ≠ .done := by
      simp [hlist, hsent.cfg]
    obtain ⟨a, ha, hcmd', heq⟩ := Bench.clock_silent hserves.running hrested.clock hquiet fill
      (b.afu.answer_nil hqueue k)
    have hvalid : b.engine.afuEvent.tlxCmd.valid ≠ 0 := by
      rw [hcmd]
      exact show (1 : UInt8) ≠ 0 by decide
    have htake : (b.afu.take fill e.encode.command (e.encode.commandData g).dataBus).mem =
        e.encode.after b₀.afu.mem ∧ e.encode.Answered b₀.afu.mem
          (b.afu.take fill e.encode.command (e.encode.commandData g).dataBus).queue := by
      rw [← hmem]
      cases hrnw : e.encode.rnw with
      | true =>
        have hafter : e.encode.after b.afu.mem = b.afu.mem := if_pos hrnw
        rw [hafter]
        exact MemAfu.take_read hsent hrnw b.afu fill _ hqueue
      | false => exact MemAfu.take_write hsent hrnw b.afu fill g hqueue
    rw [heq, if_pos hvalid, hcmd, hdata]
    exact ⟨e.encode.byteCnt + 2, by omega, ⟨⟨hserves.running, hserves.access, hserves.acks⟩, ha,
      .taken hlist hfin hcmd' htake.2 htake.1⟩, fun _ _ _ => by omega⟩
  | taken hlist hfin hcmd hqueue hmem =>
    by_cases hk : k = 0
    · have hquiet : ∀ x ∈ b.engine.list, x.cfg = false ∧ x.state ≠ .done := by
        simp [hlist, hsent.cfg]
      obtain ⟨a, ha, hcmd', heq⟩ := Bench.clock_silent hserves.running hrested.clock hquiet fill
        (hk ▸ b.afu.answer_zero)
      rw [heq, if_neg (not_not.mpr hcmd)]
      exact ⟨_, Nat.le_refl _, ⟨⟨hserves.running, hserves.access, hserves.acks⟩, ha,
        .taken hlist hfin hcmd' hqueue hmem⟩, fun hne => absurd hk hne⟩
    · obtain ⟨r', hr', hunder⟩ :=
        Bench.clock_taken h hserves hrested.clock hlist hfin hcmd hqueue hmem fill hk
      exact ⟨r', by omega, hunder, fun _ _ _ => hr'⟩
  | gathering got data hgot hlist hfin hcmd hqueue hmem =>
    by_cases hk : k = 0
    · have hquiet : ∀ x ∈ b.engine.list, x.cfg = false ∧ x.state ≠ .done := by
        simp [hlist, MmioEvent.gathering, hsent.cfg]
      obtain ⟨a, ha, hcmd', heq⟩ := Bench.clock_silent hserves.running hrested.clock hquiet fill
        (hk ▸ b.afu.answer_zero)
      rw [heq, if_neg (not_not.mpr hcmd)]
      exact ⟨_, Nat.le_refl _, ⟨⟨hserves.running, hserves.access, hserves.acks⟩, ha,
        .gathering got data hgot hlist hfin hcmd' hqueue hmem⟩, fun hne => absurd hk hne⟩
    · obtain ⟨r', hr', hunder⟩ :=
        Bench.clock_gathering h hserves hrested.clock hgot hlist hfin hcmd hqueue hmem fill hk
      exact ⟨r', by omega, hunder, fun _ _ _ => by omega⟩
  | finished e' hdone hlist hfin hcmd hqueue hmem =>
    have hquiet : ∀ x ∈ b.engine.list, x.cfg = false ∧ x.state ≠ .done := by simp [hlist]
    obtain ⟨a, ha, hcmd', heq⟩ := Bench.clock_silent hserves.running hrested.clock hquiet fill
      (b.afu.answer_nil hqueue k)
    rw [heq, if_neg (not_not.mpr hcmd)]
    exact ⟨_, Nat.le_refl _, ⟨⟨hserves.running, hserves.access, hserves.acks⟩, ha,
      .finished e' hdone hlist hfin hcmd' hqueue hmem⟩, fun _ hne _ => absurd rfl hne⟩

/-! ## The other steps -/

/-- Only an event that is idle is sent. -/
theorem sendMmio_idle {m : Mmio} (h : ∀ e ∈ m.list, e.state ≠ .idle) : sendMmio m = m := by
  unfold sendMmio
  split
  · rfl
  · rename_i e rest heq
    rw [if_pos (h e (by simp [heq]))]

theorem Bench.Under.send {b₀ b : Bench} {client r : ℕ} {e : MmioEvent} (h : e.Fits)
    (hb : Bench.Under b₀ client e r b) :
    ∃ r' ≤ r, Bench.Under b₀ client e r' (b.step .send) ∧ (r = e.encode.byteCnt + 4 → r' < r) := by
  obtain ⟨hserves, hrested, hstage⟩ := hb
  have hstep : b.step .send = { b with engine := sendMmio b.engine } := by
    simp [Bench.step, Mmio.step, hserves.running, Mmio.act]
  have hstays : (∀ x ∈ b.engine.list, x.state ≠ .idle) → b.step .send = b := by
    intro hbusy
    rw [hstep, sendMmio_idle hbusy]
  cases hstage with
  | queued hlist hfin hcmd hqueue hmem =>
    have hcfg : ¬e.cfg = true := by simp [h.cfg]
    have hidle : ¬e.state ≠ .idle := not_not.mpr h.idle
    have htransmit := transmit_mem e.encode b.engine.afuEvent h.sent.cfg
      (by rw [hcmd]; exact show (0 : UInt8) ≠ 1 by decide)
    have hsend : sendMmio b.engine = { b.engine with
        afuEvent := { b.engine.afuEvent with
          afuTlxCmdCreditsAvailable := b.engine.afuEvent.afuTlxCmdCreditsAvailable - 1
          tlxCmd := e.encode.command
          tlxCmdData := e.encode.commandData b.engine.afuEvent.tlxCmdData }
        list := [{ e.encode with state := .pending }]
        trace := b.engine.trace ++ [.sent e.encode.id] } := by
      unfold sendMmio
      rw [hlist]
      simp only [if_neg hidle, if_neg hcfg, htransmit, if_true]
    rw [hstep, hsend]
    refine ⟨e.encode.byteCnt + 3, by omega, ⟨⟨hserves.running, hserves.access, ?_⟩,
      ⟨hrested.clock, hrested.resp, hrested.rdata⟩, .staged _ rfl hfin rfl rfl hqueue hmem⟩, fun _ => by omega⟩
    change acksOf (b.engine.trace ++ [.sent e.encode.id]) = _
    rw [acksOf_append, hserves.acks]
    exact List.append_nil _
  | staged g hlist hfin hcmd hdata hqueue hmem =>
    rw [hstays (by simp [hlist])]
    exact ⟨_, Nat.le_refl _, ⟨hserves, hrested, .staged g hlist hfin hcmd hdata hqueue hmem⟩,
      fun heq => absurd heq (by omega)⟩
  | taken hlist hfin hcmd hqueue hmem =>
    rw [hstays (by simp [hlist])]
    exact ⟨_, Nat.le_refl _, ⟨hserves, hrested, .taken hlist hfin hcmd hqueue hmem⟩,
      fun heq => absurd heq (by omega)⟩
  | gathering got data hgot hlist hfin hcmd hqueue hmem =>
    rw [hstays (by simp [hlist, MmioEvent.gathering])]
    exact ⟨_, Nat.le_refl _, ⟨hserves, hrested, .gathering got data hgot hlist hfin hcmd hqueue hmem⟩,
      fun heq => absurd heq (by omega)⟩
  | finished e' hdone hlist hfin hcmd hqueue hmem =>
    rw [hstays (by simp [hlist])]
    exact ⟨_, Nat.le_refl _, ⟨hserves, hrested, .finished e' hdone hlist hfin hcmd hqueue hmem⟩,
      fun heq => absurd heq (by omega)⟩

theorem handleMmioDone_waits {m : Mmio} {client : ℕ} (h : m.access client = none ∨ m.finished = []) :
    handleMmioDone m client = m := by
  unfold handleMmioDone
  rcases h with h | h
  · rw [h]
  · cases m.access client with
    | none => rfl
    | some id => simp [h]

theorem Bench.Under.poll {b₀ b : Bench} {client r : ℕ} {e : MmioEvent} (hb : Bench.Under b₀ client e r b)
    (i : ℕ) : (Bench.Under b₀ client e r (b.step (.poll i)) ∧ (i = client → r ≠ 1)) ∨
      Bench.Over b₀ client e (b.step (.poll i)) := by
  have hrunning := hb.serves.running
  have hstep : b.step (.poll i) = { b with engine := handleMmioDone b.engine i } := by
    simp [Bench.step, Mmio.step, hrunning, Mmio.act]
  have hstays : b.engine.access i = none ∨ b.engine.finished = [] → b.step (.poll i) = b := by
    intro h
    rw [hstep, handleMmioDone_waits h]
  have hstage := hb.stage
  cases hstage with
  | queued hlist hfin hcmd hqueue hmem =>
    rw [hstays (.inr hfin)]
    exact .inl ⟨hb, fun _ => by omega⟩
  | staged g hlist hfin hcmd hdata hqueue hmem =>
    rw [hstays (.inr hfin)]
    exact .inl ⟨hb, fun _ => by omega⟩
  | taken hlist hfin hcmd hqueue hmem =>
    rw [hstays (.inr hfin)]
    exact .inl ⟨hb, fun _ => by omega⟩
  | gathering got data hgot hlist hfin hcmd hqueue hmem =>
    have hmore := hgot.more
    rw [hstays (.inr hfin)]
    exact .inl ⟨hb, fun _ => by omega⟩
  | finished e' hdone hlist hfin hcmd hqueue hmem =>
    have haccess := hb.serves.access i
    by_cases hi : i = client
    · rw [if_pos hi] at haccess
      have hid : e'.id = e.id := hdone.id.trans (encode_id e)
      have hdoneEq : handleMmioDone b.engine i = { b.engine with
          finished := []
          trace := b.engine.trace ++ [.acked i e'.ackMessage]
          access := fun j => if j = i then none else b.engine.access j } := by
        simp [handleMmioDone, haccess, hfin, hid, Mmio.setAccess]
      refine .inr ?_
      rw [hstep, hdoneEq]
      refine ⟨⟨hrunning, hb.rested, hlist, rfl, ?_, hcmd, hqueue⟩, ?_, hmem⟩
      · intro j
        change (if j = i then none else b.engine.access j) = none
        rw [hb.serves.access j, hi]
        split_ifs <;> rfl
      · change acksOf (b.engine.trace ++ [.acked i e'.ackMessage]) = _
        rw [acksOf_append, hb.serves.acks, hdone.message, hi]
        rfl
    · rw [if_neg hi] at haccess
      rw [hstays (.inl haccess)]
      exact .inl ⟨hb, fun h => absurd h hi⟩

/-- Where nothing is under way, nothing happens. -/
theorem Bench.Quiet.step {b : Bench} (hb : b.Quiet) (s : BenchStep) :
    (b.step s).Quiet ∧ acksOf (b.step s).engine.trace = acksOf b.engine.trace ∧ (b.step s).afu.mem = b.afu.mem := by
  have hrunning := hb.running
  cases s with
  | send =>
    have hstep : b.step .send = b := by
      simp [Bench.step, Mmio.step, hrunning, Mmio.act, sendMmio, hb.list]
    rw [hstep]
    exact ⟨hb, rfl, rfl⟩
  | clock fill k =>
    obtain ⟨a, ha, hcmd, heq⟩ := Bench.clock_silent hrunning hb.rested.clock (by simp [hb.list]) fill
      (b.afu.answer_nil hb.queue k)
    have hstep : b.step (.clock fill k) = b.clock fill k := rfl
    rw [hstep, heq, if_neg (not_not.mpr hb.cmd)]
    exact ⟨⟨hrunning, ha, hb.list, hb.finished, hb.access, hcmd, hb.queue⟩, rfl, rfl⟩
  | poll client =>
    have hstep : b.step (.poll client) = b := by
      simp [Bench.step, Mmio.step, hrunning, Mmio.act, handleMmioDone_waits (.inl (hb.access client))]
    rw [hstep]
    exact ⟨hb, rfl, rfl⟩

/-! ## Whole runs -/

theorem Bench.Over.run {b₀ b : Bench} {client : ℕ} {e : MmioEvent} (hb : Bench.Over b₀ client e b)
    (steps : List BenchStep) : Bench.Over b₀ client e (b.run steps) := by
  unfold Bench.run
  apply foldl_invariant (Bench.Over b₀ client e) _ hb
  intro b s hb
  obtain ⟨hquiet, hacks, hmem⟩ := hb.quiet.step s
  exact ⟨hquiet, hacks.trans hb.acks, hmem.trans hb.mem⟩

/-- Whatever is done, the access is under way or over. -/
theorem Bench.Under.run {b₀ b : Bench} {client r : ℕ} {e : MmioEvent} (h : e.Fits)
    (hb : Bench.Under b₀ client e r b) (steps : List BenchStep) :
    (∃ r', Bench.Under b₀ client e r' (b.run steps)) ∨ Bench.Over b₀ client e (b.run steps) := by
  induction steps generalizing b r with
  | nil => exact .inl ⟨r, hb⟩
  | cons s steps ih =>
    have hrun : b.run (s :: steps) = (b.step s).run steps := rfl
    rw [hrun]
    cases s with
    | send =>
      obtain ⟨r', -, hb', -⟩ := hb.send h
      exact ih hb'
    | clock fill k =>
      obtain ⟨r', -, hb', -⟩ := hb.clock h fill k
      exact ih hb'
    | poll i =>
      rcases hb.poll i with ⟨hb', -⟩ | hover
      · exact ih hb'
      · exact .inr (hover.run steps)

/-- From wherever it is, an access can be brought to its end. -/
theorem Bench.Under.completes {b₀ b : Bench} {client r : ℕ} {e : MmioEvent} (h : e.Fits)
    (hb : Bench.Under b₀ client e r b) : ∃ steps, Bench.Over b₀ client e (b.run steps) := by
  induction r using Nat.strong_induction_on generalizing b with
  | _ r ih =>
    by_cases hlast : r = 1
    · rcases hb.poll client with ⟨-, hne⟩ | hover
      · exact absurd hlast (hne rfl)
      · exact ⟨[.poll client], hover⟩
    · by_cases hfirst : r = e.encode.byteCnt + 4
      · obtain ⟨r', -, hb', hlt⟩ := hb.send h
        obtain ⟨steps, hover⟩ := ih r' (hlt hfirst) hb'
        exact ⟨.send :: steps, hover⟩
      · obtain ⟨r', -, hb', hlt⟩ := hb.clock h (Buffer.const 0) 1
        obtain ⟨steps, hover⟩ := ih r' (hlt (by decide) hlast hfirst) hb'
        exact ⟨.clock (Buffer.const 0) 1 :: steps, hover⟩

/-! ## An exchange -/

/-- The engine when a client's access has come in. -/
def Mmio.added (m : Mmio) (client : ℕ) (e : MmioEvent) : Mmio :=
  { m with
    list := m.list ++ [e]
    nextId := m.nextId + 1
    trace := m.trace ++ [.added m.nextId]
    access := fun i => if i = client then some m.nextId else m.access i }

theorem Bench.Quiet.added {b : Bench} (hb : b.Quiet) (client : ℕ) {e : MmioEvent} (hid : e.id = b.engine.nextId) :
    Bench.Under b client e (e.encode.byteCnt + 4) { b with engine := b.engine.added client e } := by
  refine ⟨⟨hb.running, ?_, ?_⟩, hb.rested, .queued ?_ hb.finished hb.cmd hb.queue rfl⟩
  · intro i
    change (if i = client then some b.engine.nextId else b.engine.access i) = _
    rw [hb.access i, hid]
  · change acksOf (b.engine.trace ++ [.added b.engine.nextId]) = _
    rw [acksOf_append]
    exact List.append_nil _
  · change b.engine.list ++ [e] = [e]
    rw [hb.list]
    rfl

/-- A message that ocse takes for one access. -/
structure Bench.Asks (b : Bench) (client : ℕ) (cfg : MmioCfg) (message : List UInt8) (e : MmioEvent) : Prop where
  quiet : b.Quiet
  fits : e.Fits
  id : e.id = b.engine.nextId
  decodes : ∃ action rest, handleClientMmio client cfg message = some (action, rest) ∧
    b.engine.step action = b.engine.added client e

theorem Bench.Asks.exchange_under {b : Bench} {client r : ℕ} {cfg : MmioCfg} {message : List UInt8}
    {e : MmioEvent} (h : b.Asks client cfg message e) {steps : List BenchStep}
    (hunder : Bench.Under b client e r (Bench.run { b with engine := b.engine.added client e } steps)) :
    b.exchange client cfg message steps = none := by
  obtain ⟨action, rest, hdecode, hstep⟩ := h.decodes
  unfold Bench.exchange
  rw [hdecode]
  simp only [hstep, hunder.serves.acks, List.drop_length]

theorem Bench.Asks.exchange_over {b : Bench} {client : ℕ} {cfg : MmioCfg} {message : List UInt8} {e : MmioEvent}
    (h : b.Asks client cfg message e) {steps : List BenchStep}
    (hover : Bench.Over b client e (Bench.run { b with engine := b.engine.added client e } steps)) :
    b.exchange client cfg message steps = some (e.encode.ack :: 0 :: e.encode.reply b.afu.mem,
      Bench.run { b with engine := b.engine.added client e } steps) := by
  obtain ⟨action, rest, hdecode, hstep⟩ := h.decodes
  unfold Bench.exchange
  rw [hdecode]
  simp only [hstep, hover.acks, List.drop_left]

/-- What comes back is what the memory had, and the memory is as the access leaves it. -/
theorem Bench.Asks.returns {b b' : Bench} {client : ℕ} {cfg : MmioCfg} {message bytes : List UInt8}
    {e : MmioEvent} (h : b.Asks client cfg message e) {steps : List BenchStep}
    (hret : b.exchange client cfg message steps = some (bytes, b')) :
    b'.Quiet ∧ bytes = e.encode.ack :: 0 :: e.encode.reply b.afu.mem ∧
      b'.afu.mem = e.encode.after b.afu.mem := by
  rcases (h.quiet.added client h.id).run h.fits steps with ⟨r, hunder⟩ | hover
  · rw [h.exchange_under hunder] at hret
    exact absurd hret nofun
  · rw [h.exchange_over hover] at hret
    obtain ⟨rfl, rfl⟩ := Prod.mk.inj (Option.some.inj hret)
    exact ⟨hover.quiet, rfl, hover.mem⟩

/-- However the steps begin, they can go on so that the client is told. -/
theorem Bench.Asks.completes {b : Bench} {client : ℕ} {cfg : MmioCfg} {message : List UInt8} {e : MmioEvent}
    (h : b.Asks client cfg message e) (steps : List BenchStep) :
    ∃ more bytes b', b.exchange client cfg message (steps ++ more) = some (bytes, b') := by
  have hover : ∃ more, Bench.Over b client e
      (Bench.run { b with engine := b.engine.added client e } (steps ++ more)) := by
    simp only [Bench.run, List.foldl_append]
    rcases (h.quiet.added client h.id).run h.fits steps with ⟨r, hunder⟩ | hover
    · exact hunder.completes h.fits
    · exact ⟨[], hover⟩
  obtain ⟨more, hover⟩ := hover
  exact ⟨more, _, _, h.exchange_over hover⟩

/-- A bench at its start, with a memory of equal bytes. -/
def Bench.fresh (byte : UInt8) : Bench := ⟨mmioInit tlxEventReset, ⟨Buffer.const byte, []⟩⟩

theorem Bench.fresh_quiet (byte : UInt8) : (Bench.fresh byte).Quiet :=
  ⟨rfl, ⟨rfl, rfl, rfl⟩, rfl, rfl, fun _ => rfl, rfl, rfl⟩

end Ocse
