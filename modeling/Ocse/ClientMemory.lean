import Ocse.Amo
import Ocse.RequestCodec

/-!
# The memory handlers of a client

`_psl_loop` hands a request for memory to a handler, which answers it on the same socket. An address that
`_testmemaddr` refuses makes a translation fault for the application first; `tracked` says that one is queued
already, and `written` that the byte which announces it gets into the pipe. The answers get through.
-/

namespace Ocse

structure PslClient extends MemClient where
  tracked : Bool

namespace PslClient

/-- `_handle_dsi`: one fault is tracked at a time. The flag is false for a negative result. -/
def handleDsi (c : PslClient) (written : Bool) : PslClient × Bool :=
  ({ c with tracked := true }, c.tracked || written)

/-- What the handlers do at an address that is refused. -/
def refuse (c : PslClient) (written : Bool) : PslClient × List UInt8 :=
  let (c, ok) := c.handleDsi written
  (c, if ok then [ocseMemFailure] else [])

def handleRead (c : PslClient) (written : Bool) (addr size : ℕ) : PslClient × List UInt8 :=
  if c.valid addr = false then c.refuse written
  else (c, ocseMemSuccess :: c.memory.read addr size)

/-- The loop over 64 bytes. Its mask is a logical and: a byte is enabled while any bit is left. -/
def writeEnabled (memory : Buffer UInt8) (addr : ℕ) (data : Buffer UInt8) (be : UInt64) : Buffer UInt8 :=
  ((List.range 64).foldl (fun (memory, beCopy) i =>
    (if beCopy ≠ 0 then memory.write (addr + i) [data i] else memory, beCopy >>> 1)) (memory, be)).1

def handleWriteBe (c : PslClient) (written : Bool) (addr : ℕ) (data : List UInt8) (be : ℕ) :
    PslClient × List UInt8 :=
  if c.valid addr = false then c.refuse written
  else
    let data := (Buffer.const 0).write 0 data
    ({ c with memory := writeEnabled c.memory addr data (UInt64.ofNat be) }, [ocseMemSuccess])

def handleWrite (c : PslClient) (written : Bool) (addr : ℕ) (data : List UInt8) : PslClient × List UInt8 :=
  if c.valid addr = false then c.refuse written
  else ({ c with memory := c.memory.write addr data }, [ocseMemSuccess])

def handleTouch (c : PslClient) (written : Bool) (addr : ℕ) : PslClient × List UInt8 :=
  if c.valid addr = false then c.refuse written else (c, [ocseMemSuccess])

/-- `_handle_DMO_OPs` records a fault as well, and does not answer. -/
def handleDmoOps (c : PslClient) (written : Bool) (amoOp : UInt8) (n addr : ℕ) (functionCode : UInt8)
    (op1 op2 : ℕ) (cmdEndian : UInt8) (stale : Stale n) : PslClient × List UInt8 :=
  let r := c.toMemClient.handleDmoOps amoOp n addr functionCode (BitVec.ofNat 64 op1) (BitVec.ofNat 64 op2)
    cmdEndian stale
  ({ (if c.valid addr = false then (c.handleDsi written).1 else c) with toMemClient := r.1 }, r.2)

/-- The dispatch of `_psl_loop` over the requests for memory. -/
def serve (c : PslClient) (written : Bool) (stale : ∀ n, Stale n) : PslRequest → PslClient × List UInt8
  | .read addr size => c.handleRead written addr size
  | .write addr _ data => c.handleWrite written addr data
  | .writeBe addr _ data be => c.handleWriteBe written addr data be
  | .dmo amoOp n addr functionCode op1 op2 cmdEndian =>
      c.handleDmoOps written amoOp n addr functionCode op1 op2 cmdEndian (stale n)
  | .touch addr _ _ => c.handleTouch written addr
  | _ => (c, [])

end PslClient

end Ocse
