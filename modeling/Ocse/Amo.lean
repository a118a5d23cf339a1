import Ocse.CmdEvent
import Ocse.Lib.Word

/-!
# Atomic operations at the client

`_handle_DMO_OPs` executes an atomic operation on the memory of the application. Its code has every line
twice, for operands of four and of eight bytes; here `n` is that number, and `op_A`, `op_1` and `op_2` stand
for `op_Al`, `op_1l` and `op_2l` as well. The locals are not initialised: `Stale` is what they happen to hold.
Addresses are those of a 64-bit machine.
-/

namespace Ocse

def ocseMemSuccess : UInt8 := 0x0a
def ocseMemFailure : UInt8 := 0x0b

def amoWrmwfAdd : UInt8 := 0x00
def amoWrmwfXor : UInt8 := 0x01
def amoWrmwfOr : UInt8 := 0x02
def amoWrmwfAnd : UInt8 := 0x03
def amoWrmwfCasMaxU : UInt8 := 0x04
def amoWrmwfCasMaxS : UInt8 := 0x05
def amoWrmwfCasMinU : UInt8 := 0x06
def amoWrmwfCasMinS : UInt8 := 0x07
def amoArmwfCasU : UInt8 := 0x08
def amoArmwfCasE : UInt8 := 0x09
def amoArmwfCasNe : UInt8 := 0x0a
def amoArmwfIncB : UInt8 := 0x0c
def amoArmwfIncE : UInt8 := 0x0d
def amoArmwfDecB : UInt8 := 0x0e
def amoWCasT : UInt8 := 0x0c

/-! ## Arithmetic -/

/-- `sign_extend` and `sign_extend64`. -/
def signExtend {w : ℕ} (inOp : BitVec w) : BitVec w :=
  let lvalue := BitVec.twoPow w (w - 1)
  if inOp &&& lvalue ≠ 0 then inOp ||| ~~~(lvalue - 1) else inOp &&& (lvalue - 1)

/-- `MIN_INT32` and `MIN_INT64` -/
def minInt (w : ℕ) : BitVec w := BitVec.twoPow w (w - 1)

/-- `(void *)addr + n` and `(void *)addr - n` -/
def above (addr n : ℕ) : ℕ := (addr + n) % 2 ^ 64

def below (addr n : ℕ) : ℕ := (addr + 2 ^ 64 - n) % 2 ^ 64

/-! ## The operands -/

/-- What the locals hold before they are assigned; `opA` is the four-byte one, which the eight-byte code reads
in one place. -/
structure Stale (n : ℕ) where
  op1 : BitVec (8 * n)
  op2 : BitVec (8 * n)
  opA : BitVec 32

/-- `n` bytes of an operand from byte `k` on. -/
def pieceOf (n : ℕ) (op : BitVec 64) (k : ℕ) : BitVec (8 * n) := op.extractLsb' (8 * k) (8 * n)

/-- The operands by the place of the address in 16 bytes; none for an eight-byte one that straddles. -/
def selectOperands (amoOp : UInt8) (n addr : ℕ) (op1 op2 : BitVec 64) (stale : Stale n) :
    Option (BitVec (8 * n) × BitVec (8 * n)) :=
  let opPtr := addr &&& 0xc
  if opPtr = 0x0 then
    if amoOp ≠ ocseAmoRd then some (pieceOf n op1 0, pieceOf n op2 0) else some (stale.op1, stale.op2)
  else if opPtr = 0x4 then
    if n = 4 ∧ amoOp ≠ ocseAmoRd then some (pieceOf n op1 4, pieceOf n op2 4)
    else if n = 8 then none
    else some (stale.op1, stale.op2)
  else if opPtr = 0x8 then
    if n = 4 ∧ amoOp ≠ ocseAmoRd then some (pieceOf n op1 0, pieceOf n op2 0)
    else if n = 8 ∧ amoOp ≠ ocseAmoRd then some (pieceOf n op2 0, pieceOf n op1 0)
    else some (stale.op1, stale.op2)
  else
    if n = 4 ∧ amoOp ≠ ocseAmoRd then some (pieceOf n op2 4, pieceOf n op1 4)
    else if n = 8 then none
    else some (stale.op1, stale.op2)

/-! ## The operation -/

structure AmoLocals (n : ℕ) where
  opA : BitVec (8 * n)
  op1 : BitVec (8 * n)
  op2 : BitVec (8 * n)
  deriving DecidableEq

/-- The switch over the function code, with the locals and `wb` that it leaves. -/
def executeAmo (amoOp atomicOp : UInt8) (n : ℕ) (mem : Buffer UInt8) (addr : ℕ) (staleA : BitVec 32)
    (l : AmoLocals n) : AmoLocals n × UInt8 :=
  let back : UInt8 := if n = 4 then 1 else 2
  let wb : UInt8 := if amoOp = ocseAmoWr then 0 else back
  if atomicOp = amoWrmwfAdd then ({ l with op1 := l.op1 + l.opA }, wb)
  else if atomicOp = amoWrmwfXor then ({ l with op1 := l.op1 ^^^ l.opA }, wb)
  else if atomicOp = amoWrmwfOr then ({ l with op1 := l.op1 ||| l.opA }, wb)
  else if atomicOp = amoWrmwfAnd then ({ l with op1 := l.op1 &&& l.opA }, wb)
  else if atomicOp = amoWrmwfCasMaxU then ({ l with op1 := if l.opA > l.op1 then l.opA else l.op1 }, wb)
  else if atomicOp = amoWrmwfCasMaxS then
    let l := { l with opA := signExtend l.opA, op1 := signExtend l.op1 }
    ({ l with op1 := if l.op1.slt l.opA then l.opA else l.op1 }, wb)
  else if atomicOp = amoWrmwfCasMinU then ({ l with op1 := if l.opA < l.op1 then l.opA else l.op1 }, wb)
  else if atomicOp = amoWrmwfCasMinS then
    let l := { l with opA := signExtend l.opA, op1 := signExtend l.op1 }
    ({ l with op1 := if l.opA.slt l.op1 then l.opA else l.op1 }, wb)
  else if atomicOp = amoArmwfCasU then
    if amoOp = ocseAmoWr ∨ amoOp = ocseAmoRd then (l, 0) else ({ l with op1 := l.op2 }, back)
  else if atomicOp = amoArmwfCasE then
    if amoOp = ocseAmoWr ∨ amoOp = ocseAmoRd then (l, 0)
    else ({ l with op1 := if l.opA = l.op1 then l.op2 else l.opA }, wb)
  else if atomicOp = amoArmwfCasNe then
    if amoOp = ocseAmoWr ∨ amoOp = ocseAmoRd then (l, 0)
    else ({ l with op1 := if l.opA ≠ l.op1 then l.op2 else l.opA }, wb)
  else if atomicOp = amoArmwfIncB then
    if amoOp = ocseAmoRw then (l, 0)
    else if amoOp = ocseAmoWr then
      let op2 := mem.loadWord (above addr n) n
      (if l.opA = op2 then { l with op2 := l.op1 } else { l with op1 := l.opA, op2 }, 0)
    else
      let op1 := mem.loadWord (above addr n) n
      (if l.opA ≠ op1 then { l with op1 := l.opA + 1 } else { l with op1 := l.opA, opA := minInt (8 * n) }, back)
  else if atomicOp = amoArmwfIncE then
    if amoOp = ocseAmoWr ∨ amoOp = ocseAmoRw then (l, 0)
    else
      let op1 := mem.loadWord (above addr n) n
      (if l.opA = op1 then
        -- the eight-byte code increments the four-byte local
        { l with op1 := if n = 4 then l.opA + 1 else (staleA + 1).setWidth (8 * n) }
      else { l with op1 := l.opA, opA := minInt (8 * n) }, back)
  else if atomicOp = amoArmwfDecB then
    if amoOp = ocseAmoWr ∨ amoOp = ocseAmoRw then (l, 0)
    else
      let op1 := mem.loadWord (below addr n) n
      (if l.opA ≠ op1 then { l with op1 := l.opA - 1 } else { l with op1 := l.opA, opA := minInt (8 * n) }, back)
  else (l, 0xf)

/-- The stores behind the switch. -/
def storeAmo (atomicOp : UInt8) {n : ℕ} (mem : Buffer UInt8) (addr : ℕ) (l : AmoLocals n) (wb : UInt8) :
    Buffer UInt8 :=
  if wb ≠ 0xf then
    if atomicOp = amoWCasT then (mem.storeWord addr l.op1).storeWord (above addr n) l.op2
    else mem.storeWord addr l.op1
  else mem

/-- The reply: nothing at all for an unsupported function. -/
def replyAmo {n : ℕ} (atomicLe : Bool) (l : AmoLocals n) (wb : UInt8) : List UInt8 :=
  if wb = 0 then [ocseMemSuccess]
  else if wb = 1 ∨ wb = 2 then
    ocseMemSuccess :: leBytes n (if atomicLe then l.opA else byteSwap l.opA).toNat
  else []

/-- The application's memory, and what `_testmemaddr` says of an address. -/
structure MemClient where
  memory : Buffer UInt8
  valid : ℕ → Bool

/-- `_handle_DMO_OPs`: the client and the bytes that it sends back. -/
def MemClient.handleDmoOps (c : MemClient) (amoOp : UInt8) (n addr : ℕ) (functionCode : UInt8)
    (op1 op2 : BitVec 64) (cmdEndian : UInt8) (stale : Stale n) : MemClient × List UInt8 :=
  if c.valid addr = false then (c, [])
  else
    match selectOperands amoOp n addr op1 op2 stale with
    | none => (c, [ocseMemFailure])
    | some (op1, op2) =>
      let atomicLe : Bool := cmdEndian = 0
      let (l, wb) := executeAmo amoOp functionCode n c.memory addr stale.opA
        { opA := c.memory.loadWord addr n
          op1 := if atomicLe then op1 else byteSwap op1
          op2 := if atomicLe then op2 else byteSwap op2 }
      ({ c with memory := storeAmo functionCode c.memory addr l wb }, replyAmo atomicLe l wb)

end Ocse
