import Ocse.AfuEvent

/-!
# The first message on a TLX socket

Each end of a new connection sends its protocol level and reads the other's, sixteen bytes, one call of
`recv` for each. The sockets do not block. The loop runs while `bc` is not -1, so that a call that blocks
ends it: the `continue` after `select` goes to that test. What has come by then is judged as it is, and
what has not stays in the stream, where the first frame is looked for. A schedule of arrivals may do this
to one end and not to the other.
-/

namespace Ocse

def tlxBadSocket : ℤ := 16
def tlxVersionError : ℤ := 48

structure Protocol where
  primary : UInt32
  secondary : UInt32
  tertiary : UInt32
  deriving DecidableEq, Repr

/-- The level that `tlx_event_reset` stores. -/
def protocolLevel : Protocol := ⟨3, 0, 0⟩

def tlxId : List UInt8 := [0x54, 0x4C, 0x58, 0]

def Protocol.hello (p : Protocol) : List UInt8 :=
  tlxId ++ beBytes 4 p.primary.toNat ++ beBytes 4 p.secondary.toNat ++ beBytes 4 p.tertiary.toNat

/-- `bc` is what the last call returned. At the end of the stream it is 0, and the loop goes on. -/
def receiveHello : ℕ → ℤ → AfuEvent → Socket → Option (ℤ × AfuEvent × Socket)
  | 0, _, _, _ => none
  | fuel + 1, bc, e, s =>
    if e.rbp < 16 ∧ bc ≠ -1 then
      match s.recv 1 with
      | (.wouldBlock, s) => receiveHello fuel (-1) e s.select
      | (.failed, s) => some (tlxBadSocket, e, s)
      | (.got bytes, s) =>
        let e := { e with rbuf := e.rbuf.write e.rbp bytes, rbp := e.rbp + bytes.length }
        receiveHello fuel bytes.length e s
    else some (tlxSuccess, e, s)

def helloCode (p : Protocol) (rbuf : Buffer UInt8) : ℤ :=
  if rbuf.read 0 4 ≠ tlxId then tlxBadSocket
  else if UInt32.ofNat (loadBE rbuf 4 4) ≠ p.primary then tlxVersionError
  else tlxSuccess

def establishProtocol (fuel : ℕ) (p : Protocol) (e : AfuEvent) (s : Socket) : Option (ℤ × AfuEvent × Socket) :=
  (receiveHello fuel 0 e (s.send p.hello).select).map fun r =>
    if r.1 ≠ tlxSuccess then r else (helloCode p r.2.1.rbuf, { r.2.1 with rbp := 0 }, r.2.2)

/-- The host's end, once it has connected. -/
def tlxInitAfuEvent (fuel : ℕ) (p : Protocol) (s : Socket) : Option (ℤ × AfuEvent × Socket) :=
  establishProtocol fuel p { tlxEventReset with tlxCredits := { tlxEventReset.tlxCredits with valid := 1 } } s

/-- The AFU's end, once it has accepted. -/
def tlxServAfuEvent (fuel : ℕ) (p : Protocol) (s : Socket) : Option (ℤ × AfuEvent × Socket) :=
  establishProtocol fuel p tlxEventReset s

@[simp] theorem Protocol.length_hello (p : Protocol) : p.hello.length = 16 := by
  simp [hello, tlxId]

/-! ## The loop -/

/-- The event and the socket after `n` bytes of the stream. -/
structure HelloReceived (e : AfuEvent) (s : Socket) (n : ℕ) (e' : AfuEvent) (s' : Socket) : Prop where
  rbuf : e'.rbuf = e.rbuf.write e.rbp (s.stream.take n)
  stream : s'.stream = s.stream.drop n
  sent : s'.sent = s.sent
  isOpen : s'.Open

theorem HelloReceived.next {e e' : AfuEvent} {s s' : Socket} {n : ℕ} (hmore : s.stream ≠ [])
    (h : HelloReceived { e with rbuf := e.rbuf.write e.rbp (s.stream.take 1), rbp := e.rbp + (s.stream.take 1).length }
      (s.after 1) n e' s') : HelloReceived e s (n + 1) e' s' := by
  have hone : (s.stream.take 1).length = 1 := by
    rw [List.length_take]
    exact Nat.min_eq_left (List.length_pos_iff.mpr hmore)
  refine ⟨?_, ?_, h.sent, h.isOpen⟩
  · rw [h.rbuf, Nat.add_comm n 1, List.take_add]
    exact Buffer.write_append e.rbuf e.rbp (s.stream.take 1) ((s.stream.drop 1).take n)
  · rw [h.stream, Nat.add_comm n 1]
    exact List.drop_drop

theorem receiveHello_done {fuel : ℕ} {bc : ℤ} {e : AfuEvent} {s : Socket} (h : ¬(e.rbp < 16 ∧ bc ≠ -1)) :
    receiveHello (fuel + 1) bc e s = some (tlxSuccess, e, s) := by
  unfold receiveHello
  exact if_neg h

/-- The loop reads until it has its bytes or a call blocks. -/
theorem receiveHello_steady (n fuel : ℕ) (bc : ℤ) (e : AfuEvent) (s : Socket) (hbc : bc ≠ -1)
    (hrbp : e.rbp + n = 16) (hfuel : n < fuel) (hopen : s.Open) (hlong : n ≤ s.stream.length) :
    ∃ e' s', receiveHello fuel bc e s = some (tlxSuccess, e', s') ∧
      HelloReceived e s (Socket.steady s.arrivals n) e' s' := by
  induction n generalizing fuel bc e s with
  | zero =>
    obtain ⟨fuel, rfl⟩ := Nat.exists_eq_add_of_lt hfuel
    have hnone : Socket.steady s.arrivals 0 = 0 := Nat.le_zero.mp (Socket.steady_le _ 0)
    rw [Nat.zero_add, hnone]
    refine ⟨e, s, receiveHello_done (by omega), ?_, rfl, rfl, hopen⟩
    rw [List.take_zero, Buffer.write_nil]
  | succ n ih =>
    obtain ⟨fuel, rfl⟩ := Nat.exists_eq_add_of_lt hfuel
    have hmore : s.stream ≠ [] := List.length_pos_iff.mp (by omega)
    have hgo : e.rbp < 16 ∧ bc ≠ -1 := ⟨by omega, hbc⟩
    rcases Socket.recv_steady hopen hmore n with ⟨hrecv, hsteady⟩ | ⟨hrecv, hsteady⟩
    · -- the call blocks: the next test finds -1
      rw [hsteady]
      refine ⟨e, (s.after 0).select, ?_, ?_, rfl, rfl, (hopen.after 0).select⟩
      · have hfuel' : n + 1 + fuel + 1 = (n + fuel + 1) + 1 := by omega
        rw [hfuel', receiveHello, if_pos hgo, hrecv]
        exact receiveHello_done (fun h => h.2 rfl)
      · rw [List.take_zero, Buffer.write_nil]
    · have hone : (s.stream.take 1).length = 1 := by
        rw [List.length_take]
        exact Nat.min_eq_left (List.length_pos_iff.mpr hmore)
      rw [hsteady, receiveHello, if_pos hgo, hrecv]
      obtain ⟨e', s', hrun, hreceived⟩ := ih (n + 1 + fuel) ((s.stream.take 1).length : ℤ)
        { e with rbuf := e.rbuf.write e.rbp (s.stream.take 1), rbp := e.rbp + (s.stream.take 1).length } (s.after 1)
        (by omega) (by change e.rbp + (s.stream.take 1).length + n = 16; omega) (by omega) (hopen.after 1)
        (by change n ≤ (s.stream.drop 1).length; rw [List.length_drop]; omega)
      exact ⟨e', s', hrun, hreceived.next hmore⟩

/-! ## What is judged -/

/-- The buffer when `n` bytes of the other's message have come. -/
def Protocol.heard (q : Protocol) (n : ℕ) : Buffer UInt8 := (Buffer.const 0).write 0 (q.hello.take n)

/-- The code for what `n` bytes show: of the primary level, the bytes that have come. -/
def codeAfter (p q : Protocol) (n : ℕ) : ℤ :=
  if n < 3 then tlxBadSocket
  else if q.primary.toNat / 256 ^ (8 - n) * 256 ^ (8 - n) = p.primary.toNat then tlxSuccess
  else tlxVersionError

theorem Protocol.heard_beyond (q : Protocol) {n i : ℕ} (h : n ≤ i) : q.heard n i = 0 := by
  refine Buffer.write_of_ge _ 0 _ i ?_
  rw [List.length_take]
  omega

theorem Protocol.heard_holds (q : Protocol) {n : ℕ} (front : List UInt8) {xs rest : List UInt8}
    (h : q.hello.take n = front ++ xs ++ rest) : (q.heard n).Holds front.length xs := by
  have hall := Buffer.holds_write (Buffer.const (0 : UInt8)) 0 (q.hello.take n)
  rw [h, Buffer.holds_append, Buffer.holds_append, Nat.zero_add, ← h] at hall
  exact hall.1.2

theorem Protocol.take_hello (q : Protocol) (k : ℕ) : q.hello.take (4 + k) = tlxId ++ (beBytes 4 q.primary.toNat ++
    (beBytes 4 q.secondary.toNat ++ beBytes 4 q.tertiary.toNat)).take k := by
  rw [hello, List.append_assoc, List.append_assoc]
  change List.take (tlxId.length + k) _ = _
  rw [List.take_length_add_append]

/-- The name is there from the third byte on, as the buffer was clear. -/
theorem Protocol.heard_id (q : Protocol) (n : ℕ) : (q.heard n).read 0 4 = tlxId ↔ 3 ≤ n := by
  constructor
  · intro hread
    by_contra hshort
    have hthird : (q.heard n).read 0 4 = [q.heard n 0, q.heard n 1, q.heard n 2, q.heard n 3] := rfl
    rw [hthird, q.heard_beyond (show n ≤ 2 by omega)] at hread
    exact absurd (List.cons.inj (List.cons.inj (List.cons.inj hread).2).2).1 (by decide)
  · intro hlong
    suffices hid : (q.heard n).Holds 0 tlxId from Buffer.read_eq_of_holds hid
    rcases Nat.eq_or_lt_of_le hlong with rfl | hlong
    · have hname := q.heard_holds [] (show q.hello.take 3 = [] ++ [0x54, 0x4C, 0x58] ++ [] from rfl)
      have hend := (Buffer.holds_cons (q.heard 3) 3 0 []).mpr ⟨q.heard_beyond (Nat.le_refl 3), Buffer.holds_nil _ _⟩
      exact (Buffer.holds_append (q.heard 3) 0 [0x54, 0x4C, 0x58] [0]).mpr ⟨hname, hend⟩
    · obtain ⟨k, rfl⟩ := Nat.exists_eq_add_of_le hlong
      exact q.heard_holds [] (q.take_hello k)

/-- Of the primary level, the bytes that have not come count as zeros. -/
theorem Protocol.heard_primary (q : Protocol) (n : ℕ) (hlong : 3 ≤ n) :
    loadBE (q.heard n) 4 4 = q.primary.toNat / 256 ^ (8 - n) * 256 ^ (8 - n) := by
  have hlt : q.primary.toNat < 256 ^ 4 := q.primary.toNat_lt
  rcases Nat.eq_or_lt_of_le hlong with rfl | hlong
  · have hzeros := loadBE_zeros (q.heard 3) 4 0 4 (fun i _ => q.heard_beyond (by omega))
    rw [Nat.zero_add, loadBE_zero, Nat.zero_mul] at hzeros
    rw [hzeros, Nat.div_eq_of_lt (Nat.lt_trans hlt (by decide)), Nat.zero_mul]
  · obtain ⟨k, m, hkm, hm, hk⟩ : ∃ k m, k + m = 4 ∧ 8 - n = m ∧ k = min (n - 4) 4 :=
      ⟨min (n - 4) 4, 8 - n, by omega, rfl, rfl⟩
    have hcome : (beBytes 4 q.primary.toNat).take (n - 4) = (beBytes (k + m) q.primary.toNat).take k := by
      rw [hkm, hk, List.take_eq_take_min, length_beBytes]
    have htake := q.take_hello (n - 4)
    rw [show 4 + (n - 4) = n by omega, List.take_append, ← List.append_assoc, hcome] at htake
    have hhold : (q.heard n).Holds 4 _ := q.heard_holds tlxId htake
    have hcut := loadBE_cut (hkm ▸ hlt) hhold (fun i hi => q.heard_beyond (by omega))
    rwa [hkm, ← hm] at hcut

theorem helloCode_heard (p q : Protocol) (n : ℕ) : helloCode p (q.heard n) = codeAfter p q n := by
  unfold helloCode codeAfter
  by_cases hlong : 3 ≤ n
  · have hlt : loadBE (q.heard n) 4 4 < 2 ^ 32 := by
      rw [q.heard_primary n hlong]
      exact Nat.lt_of_le_of_lt (Nat.div_mul_le_self _ _) q.primary.toNat_lt
    have hlevel : UInt32.ofNat (loadBE (q.heard n) 4 4) = p.primary ↔
        q.primary.toNat / 256 ^ (8 - n) * 256 ^ (8 - n) = p.primary.toNat := by
      rw [← UInt32.toNat_inj, UInt32.toNat_ofNat_of_lt' hlt, q.heard_primary n hlong]
    rw [if_neg (not_not.mpr ((q.heard_id n).mpr hlong)), if_neg (Nat.not_lt.mpr hlong)]
    simp only [ne_eq, hlevel, ite_not]
  · rw [if_pos (fun hread => hlong ((q.heard_id n).mp hread)), if_pos (Nat.not_le.mp hlong)]

/-! ## The two ends -/

/-- A call ends with the code for the bytes that came before one blocked, and leaves the others. -/
theorem establishProtocol_code (p q : Protocol) (e : AfuEvent) (s : Socket) (rest : List UInt8)
    (hrbuf : e.rbuf = Buffer.const 0) (hrbp : e.rbp = 0) (hopen : s.Open) (hstream : s.stream = q.hello ++ rest) :
    ∃ e' s', establishProtocol 17 p e s = some (codeAfter p q (Socket.steady s.select.arrivals 16), e', s') ∧
      e'.rbp = 0 ∧ s'.stream = q.hello.drop (Socket.steady s.select.arrivals 16) ++ rest ∧
      s'.sent = s.sent ++ p.hello ∧ s'.Open := by
  have hlong : 16 ≤ s.stream.length := by
    rw [hstream, List.length_append, q.length_hello]
    exact Nat.le_add_right 16 _
  obtain ⟨e', s', hrun, hrecv⟩ := receiveHello_steady 16 17 0 e (s.send p.hello).select (by decide)
    (by rw [hrbp]) (by decide) (hopen.send p.hello).select hlong
  have hle := Socket.steady_le s.select.arrivals 16
  change HelloReceived e (s.send p.hello).select (Socket.steady s.select.arrivals 16) e' s' at hrecv
  generalize Socket.steady s.select.arrivals 16 = n at hrecv hle
  have hcome : n ≤ q.hello.length := by rw [q.length_hello]; exact hle
  have hheard : e'.rbuf = q.heard n := by
    rw [hrecv.rbuf, hrbuf, hrbp]
    change (Buffer.const 0).write 0 (s.stream.take n) = _
    rw [hstream, List.take_append_of_le_length hcome]
    rfl
  refine ⟨{ e' with rbp := 0 }, s', ?_, rfl, ?_, hrecv.sent, hrecv.isOpen⟩
  · rw [establishProtocol, hrun, Option.map_some, if_neg (fun h => h rfl), ← helloCode_heard, ← hheard]
  · rw [hrecv.stream]
    change s.stream.drop n = _
    rw [hstream, List.drop_append_of_le_length hcome]

theorem codeAfter_all (p q : Protocol) :
    codeAfter p q 16 = if p.primary = q.primary then tlxSuccess else tlxVersionError := by
  have hlevel : q.primary.toNat / 256 ^ (8 - 16) * 256 ^ (8 - 16) = p.primary.toNat ↔ p.primary = q.primary := by
    rw [Nat.sub_eq_zero_of_le (by decide), Nat.pow_zero, Nat.div_one, Nat.mul_one, UInt32.toNat_inj]
    exact eq_comm
  rw [codeAfter, if_neg (by decide)]
  exact if_congr hlevel rfl rfl

/-- The two ends of a connection under any two schedules of arrivals: each judges what came before a call
blocked; they read their first frames from the right byte exactly when no call of theirs blocked; and then
they agree on whether the levels match. -/
theorem handshake_agrees (p q : Protocol) (toHost toAfu : List Arrival) (fromAfu fromHost : List UInt8)
    (hopen : ∀ a ∈ toHost ++ toAfu, ∃ n, a = .upTo n) :
    let host : Socket := ⟨q.hello ++ fromAfu, toHost, []⟩
    let afu : Socket := ⟨p.hello ++ fromHost, toAfu, []⟩
    let n := Socket.steady host.select.arrivals 16
    let m := Socket.steady afu.select.arrivals 16
    ∃ e s e' s', tlxInitAfuEvent 17 p host = some (codeAfter p q n, e, s) ∧
      tlxServAfuEvent 17 q afu = some (codeAfter q p m, e', s') ∧ s.sent = p.hello ∧ s'.sent = q.hello ∧
      s.stream = q.hello.drop n ++ fromAfu ∧ s'.stream = p.hello.drop m ++ fromHost ∧
      ((s.stream = fromAfu ∧ s'.stream = fromHost) ↔ n = 16 ∧ m = 16) ∧
      (n = 16 ∧ m = 16 → codeAfter p q n = codeAfter q p m ∧
        codeAfter p q n = if p.primary = q.primary then tlxSuccess else tlxVersionError) := by
  intro host afu n m
  have hhost : host.Open := fun a ha => hopen a (List.mem_append_left toAfu ha)
  have hafu : afu.Open := fun a ha => hopen a (List.mem_append_right toHost ha)
  obtain ⟨e, s, hinit, -, hstream, hsent, -⟩ := establishProtocol_code p q
    { tlxEventReset with tlxCredits := { tlxEventReset.tlxCredits with valid := 1 } } host fromAfu rfl rfl hhost rfl
  obtain ⟨e', s', hserv, -, hstream', hsent', -⟩ :=
    establishProtocol_code q p tlxEventReset afu fromHost rfl rfl hafu rfl
  refine ⟨e, s, e', s', hinit, hserv, hsent, hsent', hstream, hstream', ?_, ?_⟩
  · rw [hstream, hstream', List.append_left_eq_self, List.append_left_eq_self, List.drop_eq_nil_iff,
      List.drop_eq_nil_iff, q.length_hello, p.length_hello]
    have hn : n ≤ 16 := Socket.steady_le _ 16
    have hm : m ≤ 16 := Socket.steady_le _ 16
    constructor
    · intro h
      exact ⟨Nat.le_antisymm hn h.1, Nat.le_antisymm hm h.2⟩
    · intro h
      exact ⟨Nat.le_of_eq h.1.symm, Nat.le_of_eq h.2.symm⟩
  · intro h
    rw [h.1, h.2, codeAfter_all, codeAfter_all]
    exact ⟨if_congr eq_comm rfl rfl, rfl⟩

/-- Half of the message has come when a call blocks: the host reports success, and the other half stands
before the first frame. -/
theorem handshake_cut :
    let host : Socket := ⟨protocolLevel.hello ++ [0x11], List.replicate 8 (.upTo 1) ++ [.upTo 0], []⟩
    let afu : Socket := Socket.whole protocolLevel.hello
    ∃ e s e' s', tlxInitAfuEvent 17 protocolLevel host = some (tlxSuccess, e, s) ∧
      tlxServAfuEvent 17 protocolLevel afu = some (tlxSuccess, e', s') ∧
      s.stream = List.replicate 8 0 ++ [0x11] ∧ s'.stream = [] := by
  obtain ⟨e, s, e', s', hinit, hserv, -, -, hstream, hstream', -⟩ := handshake_agrees protocolLevel protocolLevel
    (List.replicate 8 (.upTo 1) ++ [.upTo 0]) [] [0x11] [] (by simp)
  exact ⟨e, s, e', s', hinit, hserv, hstream, hstream'⟩

end Ocse
