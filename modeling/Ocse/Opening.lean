import Ocse.DevicePath
import Ocse.Lib.Keyed
import Ocse.NameLookup
import Ocse.RequestCodec

/-!
# Opening an AFU

What `ocxl_afu_open` and `ocxl_afu_open_specific` exchange with ocse: the greeting, the search for a name, the
query and the open. The two requests at the end are sent together; their replies are taken by the thread of
`_psl_loop`, while the call waits. Messages arrive whole, and a read of the library may fail instead.
-/

namespace Ocse

def ocseConnect : UInt8 := 0x01
def ocseQuery : UInt8 := 0x02
def ocseOpen : UInt8 := 0x04
def ocseDetach : UInt8 := 0x06
def ocseFind : UInt8 := 0x30
def ocseFindNth : UInt8 := 0x31
def ocseFindAck : UInt8 := 0x32
def ocseFailed : UInt8 := 0xff

def ocseVersionMajor : UInt8 := 3
def ocseVersionMinor : UInt8 := 0

def ocxlNoDev : ℤ := -2
def ocxlInternalError : ℤ := -5

/-! ## The side of ocse -/

/-- A card with room for so many clients. -/
structure Card extends OclCfg where
  maxClients : ℕ

/-- `_find_ocl` -/
def findCard (cards : List Card) (bus : UInt8) : Option Card := cards.find? (fun card => card.bus = bus)

/-- The records that `_query` answers from; where one is missing it reads through a pointer that is not set. -/
def queried (cards : List Card) (a : DeviceAddress) : Option (FcnCfg × AfuCfg) := do
  let card ← findCard cards a.bus
  let fcn ← if h : a.fcn.toNat < 8 then card.fcnCfgArray ⟨a.fcn.toNat, h⟩ else none
  let afuCfgArray ← fcn.afuCfgArray
  let afu ← afuCfgArray a.afuid.toNat
  return (fcn, afu)

def queryReply (fcn : FcnCfg) (afu : AfuCfg) : List UInt8 :=
  ocseQuery :: (leBytes 2 fcn.deviceId.toNat ++ (leBytes 2 fcn.vendorId.toNat ++
    (afu.afuVersionMajor :: afu.afuVersionMinor :: (leBytes 8 afu.globalMmioOffset.toNat ++
    (leBytes 4 afu.globalMmioSize.toNat ++ (leBytes 8 afu.ppMmioOffset.toNat ++
    (leBytes 4 afu.ppMmioStride.toNat ++ (leBytes 8 afu.memBaseAddress.toNat ++ [afu.memSize]))))))))

/-- `client->bdf` -/
def DeviceAddress.bdf (a : DeviceAddress) : UInt16 :=
  a.bus.toUInt16 <<< 8 ||| a.dev.toUInt16 <<< 3 ||| a.fcn.toUInt16

/-- The bytes that `_client_connect` acknowledges with. -/
def connectReply (afuMap : UInt16) : List UInt8 := ocseConnect :: beBytes 2 afuMap.toNat

/-- `_client_connect`: whether the greeting is accepted, and what is left on the socket. -/
def clientConnect : List UInt8 → Option (Bool × List UInt8)
  | c₀ :: c₁ :: c₂ :: c₃ :: stream =>
    if [c₀, c₁, c₂, c₃] ≠ [0x4f, 0x43, 0x53, 0x45] then some (false, stream)
    else match stream with
      | major :: minor :: stream => some (decide (major = ocseVersionMajor ∧ minor = ocseVersionMinor), stream)
      | _ => none
  | _ => none

/-- What `_client_loop` reads off the socket of a client that is not associated yet. -/
inductive ClientRequest
  | query (a : DeviceAddress)
  | find (name : List UInt8)
  | findNth (r : FindNth)
  | associate (a : DeviceAddress)
  | other
  deriving DecidableEq, Repr

def getAddress : List UInt8 → Option (DeviceAddress × List UInt8)
  | bus :: dev :: fcn :: afuid :: stream => some (⟨bus, dev, fcn, afuid⟩, stream)
  | _ => none

def getName : List UInt8 → Option (List UInt8 × List UInt8)
  | [] => none
  | nameLength :: stream =>
    if nameLength.toNat ≤ stream.length then
      some (stream.take nameLength.toNat, stream.drop nameLength.toNat)
    else none

def clientRequest : List UInt8 → Option (ClientRequest × List UInt8)
  | [] => none
  | opcode :: stream =>
    if opcode = ocseQuery then (getAddress stream).map (fun (a, stream) => (.query a, stream))
    else if opcode = ocseFind then (getName stream).map (fun (name, stream) => (.find name, stream))
    else if opcode = ocseFindNth then
      (readFindNth stream).map (fun r => (.findNth r, stream.drop (r.name.length + 4)))
    else if opcode = ocseOpen then (getAddress stream).map (fun (a, stream) => (.associate a, stream))
    else some (.other, stream)

/-- The first open slot, as `_client_associate` looks for it. -/
def openSlot (maxClients : ℕ) (slots : ℕ → Option ℕ) : Option ℕ :=
  (List.range maxClients).find? (fun i => (slots i).isNone)

/-! ## The side of the library -/

/-- What an application asks the library for. -/
inductive Asks
  | name (name : List UInt8)
  | address (a : DeviceAddress)
  deriving DecidableEq, Repr

/-- The fields of `struct ocxl_afu` that opening fills in. -/
structure LibHandle where
  address : DeviceAddress
  deviceId : UInt16
  vendorId : UInt16
  afuVersionMajor : UInt8
  afuVersionMinor : UInt8
  globalMmioStart : UInt64
  globalMmioLength : UInt32
  perPasidMmioStart : UInt64
  perPasidMmioLength : UInt32
  mmioCount : ℕ
  mmioMax : ℕ
  memBaseAddress : UInt64
  memSize : UInt8
  context : UInt16
  deriving DecidableEq, Repr

/-- The handle as `_query_afu` leaves it, on memory from `calloc`. -/
def LibHandle.asked (a : DeviceAddress) : LibHandle := ⟨a, 0, 0, 0, 0, 0, 0, 0, 0, 0, 0, 0, 0, 0⟩

/-- The case `OCSE_QUERY` of `_psl_loop`, behind the opcode. -/
def LibHandle.takeQuery (h : LibHandle) (stream : List UInt8) : Option (LibHandle × List UInt8) := do
  let (deviceId, stream) ← getLE 2 stream
  let (vendorId, stream) ← getLE 2 stream
  let (afuVersionMajor, stream) ← getByte stream
  let (afuVersionMinor, stream) ← getByte stream
  let (globalMmioOffset, stream) ← getLE 8 stream
  let (globalMmioSize, stream) ← getLE 4 stream
  let (ppMmioOffset, stream) ← getLE 8 stream
  let (ppMmioStride, stream) ← getLE 4 stream
  let (memBaseAddress, stream) ← getLE 8 stream
  let (memSize, stream) ← getByte stream
  return ({ h with
    deviceId := UInt16.ofNat deviceId
    vendorId := UInt16.ofNat vendorId
    afuVersionMajor, afuVersionMinor
    globalMmioStart := UInt64.ofNat globalMmioOffset
    globalMmioLength := UInt32.ofNat globalMmioSize
    perPasidMmioStart := UInt64.ofNat ppMmioOffset
    perPasidMmioLength := UInt32.ofNat ppMmioStride
    mmioCount := 0
    mmioMax := 2
    memBaseAddress := UInt64.ofNat memBaseAddress
    memSize }, stream)

def greeting : List UInt8 := [0x4f, 0x43, 0x53, 0x45, ocseVersionMajor, ocseVersionMinor]

def DeviceAddress.bytes (a : DeviceAddress) : List UInt8 := [a.bus, a.dev, a.fcn, a.afuid]

/-- What `_find_afu` sends. -/
def findMessage (name : List UInt8) : List UInt8 :=
  ocseFind :: UInt8.ofNat (cString name).length :: cString name

def DeviceAddress.queryMessage (a : DeviceAddress) : List UInt8 := ocseQuery :: a.bytes

def DeviceAddress.openMessage (a : DeviceAddress) : List UInt8 := ocseOpen :: a.bytes

/-- How far a call has got. -/
inductive LibPhase
  | greeting
  | mapping
  | finding
  | placing
  | opening (h : LibHandle)
  | opened (h : LibHandle)
  | failed (rc : ℤ)
  | closed
  deriving DecidableEq, Repr

/-- `_query_afu` and `_open_afu`, up to the loop that waits. -/
def queryAndOpen (a : DeviceAddress) : LibPhase × List UInt8 :=
  (.opening (.asked a), a.queryMessage ++ a.openMessage)

/-- The next read of a call, which `_psl_loop` does for it at the end: where the call goes on, what it sends and
what it leaves on the socket. `none` while the bytes are not there. The messages that only a client that is
associated gets are left out. -/
def LibPhase.take (asks : Asks) : LibPhase → List UInt8 → Option ((LibPhase × List UInt8) × List UInt8)
  | .greeting, ack :: stream => some ((if ack = ocseConnect then .mapping else .failed ocxlNoDev, []), stream)
  | .mapping, _ :: _ :: stream =>
    match asks with
    | .name name => some ((.finding, findMessage name), stream)
    | .address a => some (queryAndOpen a, stream)
  | .finding, ack :: stream => some ((if ack = ocseFindAck then .placing else .failed ocxlNoDev, []), stream)
  | .placing, stream => (getAddress stream).map (fun (a, stream) => (queryAndOpen a, stream))
  | .opening h, opcode :: stream =>
    if opcode = ocseQuery then (h.takeQuery stream).map (fun (h, stream) => ((.opening h, []), stream))
    else if opcode = ocseOpen then
      (getByte stream).map (fun (context, stream) =>
        ((.opened { h with context := context.toUInt16 }, []), stream))
    else if opcode = ocseDetach then some ((.failed ocxlInternalError, []), stream)
    else none
  | _, _ => none

/-- A read that fails ends the call. -/
def LibPhase.giveUp : LibPhase → LibPhase
  | .greeting | .mapping | .finding | .placing => .failed ocxlNoDev
  | .opening _ => .failed ocxlInternalError
  | phase => phase

/-- The call has not returned. -/
def LibPhase.calling : LibPhase → Bool
  | .greeting | .mapping | .finding | .placing | .opening _ => true
  | .opened _ | .failed _ | .closed => false

/-- Nobody reads the socket any more. -/
def LibPhase.gone : LibPhase → Bool
  | .failed _ | .closed => true
  | _ => false

/-! ## Messages there and back -/

theorem clientConnect_greeting (rest : List UInt8) : clientConnect (greeting ++ rest) = some (true, rest) := rfl

theorem clientRequest_query (a : DeviceAddress) (rest : List UInt8) :
    clientRequest (a.queryMessage ++ rest) = some (.query a, rest) := rfl

theorem clientRequest_open (a : DeviceAddress) (rest : List UInt8) :
    clientRequest (a.openMessage ++ rest) = some (.associate a, rest) := rfl

/-- A name that fits into the buffer of `_find` arrives as it is. -/
theorem clientRequest_find {name : List UInt8} (hname : (cString name).length < 25) (rest : List UInt8) :
    clientRequest (findMessage name ++ rest) = some (.find (cString name), rest) := by
  have hlength : (UInt8.ofNat (cString name).length).toNat = (cString name).length := by
    rw [UInt8.toNat_ofNat']
    exact Nat.mod_eq_of_lt (by omega)
  have hget : getName (UInt8.ofNat (cString name).length :: (cString name ++ rest)) = some (cString name, rest) := by
    unfold getName
    dsimp only
    rw [hlength, if_pos (by rw [List.length_append]; omega), List.take_left, List.drop_left]
  unfold findMessage clientRequest
  rw [List.cons_append, List.cons_append]
  dsimp only
  rw [if_neg (by decide), if_pos rfl, hget]
  rfl

/-- The handle that a query of these records leaves. -/
def LibHandle.described (h : LibHandle) (fcn : FcnCfg) (afu : AfuCfg) : LibHandle :=
  { h with
    deviceId := fcn.deviceId
    vendorId := fcn.vendorId
    afuVersionMajor := afu.afuVersionMajor
    afuVersionMinor := afu.afuVersionMinor
    globalMmioStart := afu.globalMmioOffset
    globalMmioLength := afu.globalMmioSize
    perPasidMmioStart := afu.ppMmioOffset
    perPasidMmioLength := afu.ppMmioStride
    mmioCount := 0
    mmioMax := 2
    memBaseAddress := afu.memBaseAddress
    memSize := afu.memSize }

theorem takeQuery_queryReply (h : LibHandle) (fcn : FcnCfg) (afu : AfuCfg) (rest : List UInt8) :
    h.takeQuery ((queryReply fcn afu).tail ++ rest) = some (h.described fcn afu, rest) := by
  have hword (n v : ℕ) (hv : v < 256 ^ n) (stream : List UInt8) :
      getLE n (leBytes n v ++ stream) = some (v, stream) := getLE_append hv stream
  unfold queryReply LibHandle.takeQuery
  simp only [List.tail_cons, List.append_assoc, List.cons_append, List.nil_append,
    hword 2 _ fcn.deviceId.toNat_lt, hword 2 _ fcn.vendorId.toNat_lt, hword 8 _ afu.globalMmioOffset.toNat_lt,
    hword 4 _ afu.globalMmioSize.toNat_lt, hword 8 _ afu.ppMmioOffset.toNat_lt,
    hword 4 _ afu.ppMmioStride.toNat_lt, hword 8 _ afu.memBaseAddress.toNat_lt, getByte_cons,
    UInt16.ofNat_toNat, UInt32.ofNat_toNat, UInt64.ofNat_toNat, Option.bind_eq_bind, Option.bind_some]
  rfl

/-! ## The AFU of a name -/

section Named

variable {name : List UInt8} {cards : List Card} {place : Place}

/-- The place that a name has been found at, as the library asks for it. -/
def Place.address (p : Place) : DeviceAddress := ⟨p.bus, 0, p.fcn, p.afuid⟩

theorem findAfu_hasAfu {fcn : FcnCfg} {afuids : List ℕ} {afuid : ℕ} (h : findAfu name fcn afuids = some afuid) :
    afuid ∈ afuids ∧ fcn.hasAfu name afuid = true := by
  induction afuids with
  | nil => cases h
  | cons n afuids ih =>
    unfold findAfu at h
    split_ifs at h with hn
    · cases h
      exact ⟨List.mem_cons_self, hn⟩
    · exact ⟨List.mem_cons_of_mem n (ih h).1, (ih h).2⟩

theorem findFcn_hasAfu {ocl : OclCfg} {fcns : List (Fin 8)} (h : findFcn name ocl fcns = some place) :
    ∃ f fcn afuid, ocl.fcnCfgArray f = some fcn ∧ afuid ∈ fcn.afuids ∧ fcn.hasAfu name afuid = true ∧
      place = ⟨ocl.bus, UInt8.ofNat f, UInt8.ofNat afuid⟩ := by
  induction fcns with
  | nil => cases h
  | cons f fcns ih =>
    unfold findFcn at h
    cases hfcn : ocl.fcnCfgArray f with
    | none =>
      rw [hfcn] at h
      exact ih h
    | some fcn =>
      rw [hfcn] at h
      dsimp only at h
      split_ifs at h with hpresent
      · exact ih h
      · cases hafu : findAfu name fcn fcn.afuids with
        | none =>
          rw [hafu] at h
          exact ih h
        | some afuid =>
          rw [hafu] at h
          obtain ⟨hmem, hhas⟩ := findAfu_hasAfu hafu
          exact ⟨f, fcn, afuid, hfcn, hmem, hhas, (Option.some.inj h).symm⟩

theorem findOcl_hasAfu {ocls : List OclCfg} (h : findOcl name ocls = some place) :
    ∃ ocl ∈ ocls, ∃ f fcn afuid, ocl.fcnCfgArray f = some fcn ∧ afuid ∈ fcn.afuids ∧
      fcn.hasAfu name afuid = true ∧ place = ⟨ocl.bus, UInt8.ofNat f, UInt8.ofNat afuid⟩ := by
  induction ocls with
  | nil => cases h
  | cons ocl ocls ih =>
    unfold findOcl at h
    cases hfcn : findFcn name ocl (List.finRange 8) with
    | none =>
      rw [hfcn] at h
      obtain ⟨ocl', hocl', hfound⟩ := ih h
      exact ⟨ocl', List.mem_cons_of_mem ocl hocl', hfound⟩
    | some p =>
      rw [hfcn] at h
      obtain rfl := Option.some.inj h
      exact ⟨ocl, List.mem_cons_self, findFcn_hasAfu hfcn⟩

theorem findCard_of_mem {card : Card} (hcards : (cards.map (fun card => card.bus)).Nodup) (hcard : card ∈ cards) :
    findCard cards card.bus = some card :=
  (lookup_eq_some hcards).mpr ⟨hcard, rfl⟩

/-- Where a name has been found there is an AFU to be queried. -/
theorem queried_of_found (hcards : (cards.map (fun card => card.bus)).Nodup)
    (h : findOcl name (cards.map Card.toOclCfg) = some place) :
    ∃ fcn afu, queried cards place.address = some (fcn, afu) ∧ afu.named name = true := by
  obtain ⟨ocl, hocl, f, fcn, afuid, hfcn, hafuid, hhas, rfl⟩ := findOcl_hasAfu h
  obtain ⟨card, hcard, rfl⟩ := List.mem_map.mp hocl
  have hf : (UInt8.ofNat f.val).toNat = f.val := by
    rw [UInt8.toNat_ofNat']
    exact Nat.mod_eq_of_lt (by omega)
  have hn : (UInt8.ofNat afuid).toNat = afuid := by
    have hle := List.mem_range.mp hafuid
    have hmax := fcn.maxAfuIndex.toNat_lt
    rw [UInt8.toNat_ofNat']
    exact Nat.mod_eq_of_lt (by omega)
  unfold FcnCfg.hasAfu at hhas
  cases harray : fcn.afuCfgArray with
  | none => simp [harray] at hhas
  | some afuCfgArray =>
    rw [harray] at hhas
    dsimp only at hhas
    cases hafu : afuCfgArray afuid with
    | none => simp [hafu] at hhas
    | some afu =>
      rw [hafu] at hhas
      refine ⟨fcn, afu, ?_, hhas⟩
      have hlt : (UInt8.ofNat f.val).toNat < 8 := by rw [hf]; exact f.isLt
      have hfin : (⟨(UInt8.ofNat f.val).toNat, hlt⟩ : Fin 8) = f := Fin.ext hf
      simp only [queried, Place.address, findCard_of_mem hcards hcard, Option.bind_eq_bind, Option.bind_some, dif_pos hlt,
        hfin, hfcn, harray, hn, hafu]
      rfl

end Named

end Ocse
