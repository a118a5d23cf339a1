import Ocse.Lib.CText

/-!
# Names of devices

The path of a device is printed with hexadecimal numbers. `ocxl_afu_open_from_dev` reads them back in base 16,
`ocxl_afu_open_specific` reads bus, device and function in base 10.
-/

namespace Ocse

inductive OpenError
  | noDev | invalidArgs
deriving DecidableEq, Repr

/-- What `_query_afu` asks ocse for. -/
structure DeviceAddress where
  bus : UInt8
  dev : UInt8
  fcn : UInt8
  afuid : UInt8
deriving DecidableEq, Repr

/-- `%02x:%02x.%x` behind the domain, which is always 0. -/
def physicalFunction (a : DeviceAddress) : List Char :=
  ['0', '0', '0', '0', ':'] ++ printHex 2 a.bus.toNat ++ [':'] ++ printHex 2 a.dev.toNat ++ ['.'] ++
    printHex 0 a.fcn.toNat

/-- `/dev/ocxl/%s.0000:%02x:%02x.%x.%x`. The buffer that it is printed to is never allocated. -/
def ocxlAfuGetDevicePathname (afuName : List Char) (a : DeviceAddress) : List Char :=
  ['/', 'd', 'e', 'v', '/', 'o', 'c', 'x', 'l', '/'] ++ afuName ++ ['.', '0', '0', '0', '0', ':'] ++
    printHex 2 a.bus.toNat ++ [':'] ++ printHex 2 a.dev.toNat ++ ['.'] ++ printHex 0 a.fcn.toNat ++ ['.'] ++
    printHex 0 a.afuid.toNat

/-- What is left of the calls once the connection is made: the name that is noted and the AFU that is queried.
`none` for a path without a slash, where the search has no result and the address behind it is read. -/
def ocxlAfuOpenFromDev (path : Option (List Char)) : Option (Except OpenError (List Char × DeviceAddress)) :=
  match path with
  | none => some (.error .noDev)
  | some path =>
    match strrchr '/' path with
    | none => none
    | some afuId =>
      let (afuName, rest) := strtok '.' (afuId.drop 1)
      let (_, rest) := strtok ':' rest
      let (devBus, rest) := strtok ':' rest
      let (devDevice, rest) := strtok '.' rest
      let (devFunction, rest) := strtok '.' rest
      let (afuIndex, _) := strtok '.' rest
      match devBus, devDevice, devFunction, afuIndex with
      | some devBus, some devDevice, some devFunction, some afuIndex =>
        some (.ok (afuName.getD [], ⟨UInt8.ofInt (strtol16 devBus), UInt8.ofInt (strtol16 devDevice),
          UInt8.ofInt (strtol16 devFunction), UInt8.ofInt (strtol16 afuIndex)⟩))
      | _, _, _, _ => some (.error .invalidArgs)

/-- `%hu:%hhu:%hhu.%hhu`, with four numbers found; `none` for fewer. -/
def scanPhysicalFunction (s : List Char) : Option (UInt16 × UInt8 × UInt8 × UInt8) := do
  let (domain, s) ← scanUnsigned s
  let s ← scanChar ':' s
  let (bus, s) ← scanUnsigned s
  let s ← scanChar ':' s
  let (device, s) ← scanUnsigned s
  let s ← scanChar '.' s
  let (function, _) ← scanUnsigned s
  some (UInt16.ofNat domain, UInt8.ofNat bus, UInt8.ofNat device, UInt8.ofNat function)

/-- The name is not looked at. -/
def ocxlAfuOpenSpecific (physicalFunction : List Char) (afuIndex : Int16) : Except OpenError DeviceAddress :=
  match scanPhysicalFunction physicalFunction with
  | none => .error .noDev
  | some (_, bus, device, function) => .ok ⟨bus, device, function, UInt8.ofInt afuIndex.toInt⟩

/-- Both calls lead back to the device whose path it is. -/
structure AddressesAgree (afuName : List Char) (a : DeviceAddress) : Prop where
  fromDev : ∃ name, ocxlAfuOpenFromDev (some (ocxlAfuGetDevicePathname afuName a)) = some (.ok (name, a))
  specific : ocxlAfuOpenSpecific (physicalFunction a) (Int16.ofNat a.afuid.toNat) = .ok a

theorem pathname_eq_physicalFunction (afuName : List Char) (a : DeviceAddress) :
    ocxlAfuGetDevicePathname afuName a =
      ['/', 'd', 'e', 'v', '/', 'o', 'c', 'x', 'l', '/'] ++ afuName ++ ['.'] ++ physicalFunction a ++ ['.'] ++
        printHex 0 a.afuid.toNat := by
  simp only [ocxlAfuGetDevicePathname, physicalFunction, List.append_assoc, List.cons_append, List.nil_append]

/-! ## The path -/

theorem strtok_printHex {delim : Char} (hdelim : isDigitIn 16 delim = false) (width n : ℕ) (t : List Char) :
    strtok delim (printHex width n ++ delim :: t) = (some (printHex width n), t) :=
  strtok_append (printHex_ne_nil width n) (not_mem_printHex hdelim) t

theorem strtok_printHex_last {delim : Char} (hdelim : isDigitIn 16 delim = false) (width n : ℕ) :
    strtok delim (printHex width n) = (some (printHex width n), []) :=
  strtok_last (printHex_ne_nil width n) (not_mem_printHex hdelim)

theorem ofInt_strtol16_printHex (width : ℕ) (x : UInt8) : UInt8.ofInt (strtol16 (printHex width x.toNat)) = x := by
  have hx : x.toNat < 256 := x.toNat_lt
  rw [strtol16_printHex (by omega), UInt8.ofInt, Int.emod_eq_of_lt (by omega) (by omega), Int.toNat_natCast,
    UInt8.ofNat_toNat]

/-- What is behind the last slash of the path. -/
def afuId (afuName : List Char) (a : DeviceAddress) : List Char :=
  afuName ++ '.' :: (['0', '0', '0', '0'] ++ ':' :: (printHex 2 a.bus.toNat ++ ':' ::
    (printHex 2 a.dev.toNat ++ '.' :: (printHex 0 a.fcn.toNat ++ '.' :: printHex 0 a.afuid.toNat))))

theorem strrchr_pathname {afuName : List Char} (hslash : '/' ∉ afuName) (a : DeviceAddress) :
    strrchr '/' (ocxlAfuGetDevicePathname afuName a) = some ('/' :: afuId afuName a) := by
  have hpath : ocxlAfuGetDevicePathname afuName a =
      ['/', 'd', 'e', 'v', '/', 'o', 'c', 'x', 'l'] ++ '/' :: afuId afuName a := by
    simp only [ocxlAfuGetDevicePathname, afuId, List.append_assoc, List.cons_append, List.nil_append]
  rw [hpath]
  apply strrchr_append
  have hhex : ∀ width n, '/' ∉ printHex width n := fun width n => not_mem_printHex rfl
  simp only [afuId, List.mem_append, List.mem_cons, List.not_mem_nil, hslash, hhex, Char.reduceEq, or_false,
    not_false_eq_true]

theorem openFromDev_pathname {afuName : List Char} (hdot : '.' ∉ afuName) (hslash : '/' ∉ afuName)
    (hname : afuName ≠ []) (a : DeviceAddress) :
    ocxlAfuOpenFromDev (some (ocxlAfuGetDevicePathname afuName a)) = some (.ok (afuName, a)) := by
  have hdomain : strtok ':' (['0', '0', '0', '0'] ++ ':' :: (printHex 2 a.bus.toNat ++ ':' ::
      (printHex 2 a.dev.toNat ++ '.' :: (printHex 0 a.fcn.toNat ++ '.' :: printHex 0 a.afuid.toNat)))) =
      (some ['0', '0', '0', '0'], _) := strtok_append (by decide) (by decide) _
  rw [ocxlAfuOpenFromDev]
  dsimp only
  rw [strrchr_pathname hslash]
  dsimp only
  rw [List.drop_one, List.tail_cons, afuId, strtok_append hname hdot]
  dsimp only
  rw [hdomain]
  dsimp only
  rw [strtok_printHex rfl]
  dsimp only
  rw [strtok_printHex rfl]
  dsimp only
  rw [strtok_printHex rfl]
  dsimp only
  rw [strtok_printHex_last rfl]
  dsimp only [Option.getD_some]
  rw [ofInt_strtol16_printHex, ofInt_strtol16_printHex, ofInt_strtol16_printHex, ofInt_strtol16_printHex]

/-- Without a name the domain is taken for it and the rest is short of a token. -/
theorem openFromDev_noName (a : DeviceAddress) :
    ocxlAfuOpenFromDev (some (ocxlAfuGetDevicePathname [] a)) = some (.error .invalidArgs) := by
  let domainBusDev := ['0', '0', '0', '0'] ++ ':' :: (printHex 2 a.bus.toNat ++ ':' :: printHex 2 a.dev.toNat)
  let fcnIndex := printHex 0 a.fcn.toNat ++ '.' :: printHex 0 a.afuid.toNat
  have hafuId : afuId [] a = '.' :: (domainBusDev ++ '.' :: fcnIndex) := by
    simp only [afuId, domainBusDev, fcnIndex, List.append_assoc, List.cons_append, List.nil_append]
  have hne : domainBusDev ≠ [] := List.cons_ne_nil _ _
  have hfirst : '.' ∉ domainBusDev := by
    have hhex : ∀ width n, '.' ∉ printHex width n := fun width n => not_mem_printHex rfl
    simp only [domainBusDev, List.mem_append, List.mem_cons, List.not_mem_nil, hhex, Char.reduceEq, or_false,
      not_false_eq_true]
  have hsecond : ':' ∉ fcnIndex := by
    have hhex : ∀ width n, ':' ∉ printHex width n := fun width n => not_mem_printHex rfl
    simp only [fcnIndex, List.mem_append, List.mem_cons, hhex, Char.reduceEq, or_false, not_false_eq_true]
  rw [ocxlAfuOpenFromDev]
  dsimp only
  rw [strrchr_pathname List.not_mem_nil]
  dsimp only
  rw [List.drop_one, List.tail_cons, hafuId, strtok_delim, strtok_append hne hfirst]
  dsimp only
  rw [strtok_last (List.append_ne_nil_of_right_ne_nil _ (List.cons_ne_nil _ _)) hsecond]
  rfl

/-! ## The physical function -/

theorem lt_ten_of_scan {width v : ℕ} {x : UInt8} {s rest : List Char} (hs : EndsDigits 10 s)
    (h : scanUnsigned (printHex width x.toNat ++ s) = some (v, rest)) (hv : UInt8.ofNat v = x) : x.toNat < 10 := by
  by_contra hx
  have hx' : x.toNat < 256 := x.toNat_lt
  have hlt := scanUnsigned_lt hs (by omega) (by omega) h
  rw [← hv, UInt8.toNat_ofNat', Nat.mod_eq_of_lt (by omega)] at hlt
  omega

section Scan

variable (a : DeviceAddress)

theorem endsDigits_colon (s : List Char) : EndsDigits 10 (':' :: s) := endsDigits_cons rfl s

theorem endsDigits_dot (s : List Char) : EndsDigits 10 ('.' :: s) := endsDigits_cons rfl s

theorem scanChar_self (c : Char) (s : List Char) : scanChar c (c :: s) = some s := if_pos rfl

theorem physicalFunction_eq :
    physicalFunction a = ['0', '0', '0', '0'] ++ ':' :: (printHex 2 a.bus.toNat ++ ':' ::
      (printHex 2 a.dev.toNat ++ '.' :: (printHex 0 a.fcn.toNat ++ []))) := by
  simp only [physicalFunction, List.append_assoc, List.cons_append, List.nil_append, List.append_nil]

theorem scanUnsigned_domain (s : List Char) :
    scanUnsigned (['0', '0', '0', '0'] ++ ':' :: s) = some (0, ':' :: s) := rfl

theorem scan_of_digits (hbus : a.bus.toNat < 10) (hdev : a.dev.toNat < 10) (hfcn : a.fcn.toNat < 10) :
    scanPhysicalFunction (physicalFunction a) = some (0, a.bus, a.dev, a.fcn) := by
  rw [scanPhysicalFunction, physicalFunction_eq, scanUnsigned_domain]
  dsimp only [Option.bind_eq_bind, Option.bind_some]
  rw [scanChar_self, Option.bind_some, scanUnsigned_digit (endsDigits_colon _) hbus]
  dsimp only [Option.bind_some]
  rw [scanChar_self, Option.bind_some, scanUnsigned_digit (endsDigits_dot _) hdev]
  dsimp only [Option.bind_some]
  rw [scanChar_self, Option.bind_some, scanUnsigned_digit (endsDigits_nil _) hfcn]
  dsimp only [Option.bind_some]
  rw [UInt8.ofNat_toNat, UInt8.ofNat_toNat, UInt8.ofNat_toNat]
  rfl

/-- The three numbers are read one after the other; one of two digits already comes out as another. -/
theorem digits_of_scan {domain : UInt16}
    (h : scanPhysicalFunction (physicalFunction a) = some (domain, a.bus, a.dev, a.fcn)) :
    a.bus.toNat < 10 ∧ a.dev.toNat < 10 ∧ a.fcn.toNat < 10 := by
  rw [scanPhysicalFunction, physicalFunction_eq, scanUnsigned_domain] at h
  dsimp only [Option.bind_eq_bind, Option.bind_some] at h
  rw [scanChar_self, Option.bind_some] at h
  obtain ⟨⟨bus, afterBus⟩, hscanBus, h⟩ := Option.bind_eq_some_iff.mp h
  obtain ⟨afterColon, hcolon, h⟩ := Option.bind_eq_some_iff.mp h
  obtain ⟨⟨dev, afterDev⟩, hscanDev, h⟩ := Option.bind_eq_some_iff.mp h
  obtain ⟨afterDot, hdot, h⟩ := Option.bind_eq_some_iff.mp h
  obtain ⟨⟨fcn, afterFcn⟩, hscanFcn, h⟩ := Option.bind_eq_some_iff.mp h
  simp only [Option.some.injEq, Prod.mk.injEq] at h
  obtain ⟨-, hbus, hdev, hfcn⟩ := h
  have hbus' := lt_ten_of_scan (endsDigits_colon _) hscanBus hbus
  rw [scanUnsigned_digit (endsDigits_colon _) hbus'] at hscanBus
  obtain ⟨-, rfl⟩ := Prod.mk.inj (Option.some.inj hscanBus)
  rw [scanChar_self] at hcolon
  obtain rfl := Option.some.inj hcolon
  have hdev' := lt_ten_of_scan (endsDigits_dot _) hscanDev hdev
  rw [scanUnsigned_digit (endsDigits_dot _) hdev'] at hscanDev
  obtain ⟨-, rfl⟩ := Prod.mk.inj (Option.some.inj hscanDev)
  rw [scanChar_self] at hdot
  obtain rfl := Option.some.inj hdot
  exact ⟨hbus', hdev', lt_ten_of_scan (endsDigits_nil _) hscanFcn hfcn⟩

theorem afuIndex_eq (afuid : UInt8) : UInt8.ofInt (Int16.ofNat afuid.toNat).toInt = afuid := by
  have hafuid : afuid.toNat < 256 := afuid.toNat_lt
  rw [Int16.toInt_ofNat_of_lt (by omega), UInt8.ofInt, Int.emod_eq_of_lt (by omega) (by omega),
    Int.toNat_natCast, UInt8.ofNat_toNat]

theorem openSpecific_iff :
    ocxlAfuOpenSpecific (physicalFunction a) (Int16.ofNat a.afuid.toNat) = .ok a ↔
      a.bus.toNat < 10 ∧ a.dev.toNat < 10 ∧ a.fcn.toNat < 10 := by
  rw [ocxlAfuOpenSpecific]
  constructor
  · intro h
    cases hscan : scanPhysicalFunction (physicalFunction a) with
    | none =>
      rw [hscan] at h
      cases h
    | some found =>
      rw [hscan] at h
      have ha := Except.ok.inj h
      apply digits_of_scan a
      rw [hscan, ← ha]
  · rintro ⟨hbus, hdev, hfcn⟩
    rw [scan_of_digits a hbus hdev hfcn]
    dsimp only
    rw [afuIndex_eq]

end Scan

/-- The two calls and the path agree just where there is a name and every number that is read in base 10 has one
digit. -/
theorem addressesAgree_iff {afuName : List Char} (hdot : '.' ∉ afuName) (hslash : '/' ∉ afuName)
    {a : DeviceAddress} (hfcn : a.fcn ≤ 7) :
    AddressesAgree afuName a ↔ afuName ≠ [] ∧ a.bus ≤ 9 ∧ a.dev ≤ 9 := by
  have hbus : a.bus ≤ 9 ↔ a.bus.toNat < 10 := by
    rw [UInt8.le_iff_toNat_le]
    exact Nat.lt_succ_iff.symm
  have hdev : a.dev ≤ 9 ↔ a.dev.toNat < 10 := by
    rw [UInt8.le_iff_toNat_le]
    exact Nat.lt_succ_iff.symm
  have hfcn' : a.fcn.toNat < 10 := by
    have hle : a.fcn.toNat ≤ 7 := UInt8.le_iff_toNat_le.mp hfcn
    omega
  rw [hbus, hdev]
  constructor
  · intro h
    obtain ⟨name, hopen⟩ := h.fromDev
    obtain ⟨hbus, hdev, -⟩ := (openSpecific_iff a).mp h.specific
    refine ⟨?_, hbus, hdev⟩
    rintro rfl
    rw [openFromDev_noName] at hopen
    cases hopen
  · rintro ⟨hname, hbus, hdev⟩
    exact ⟨⟨afuName, openFromDev_pathname hdot hslash hname a⟩, (openSpecific_iff a).mpr ⟨hbus, hdev, hfcn'⟩⟩

theorem addressesAgree_memcpy3 :
    AddressesAgree ['I', 'B', 'M', ',', 'M', 'E', 'M', 'C', 'P', 'Y', '3'] ⟨5, 0, 1, 0x3f⟩ :=
  (addressesAgree_iff (by decide) (by decide) (by decide)).mpr ⟨by decide, by decide, by decide⟩

/-- Bus 16 is printed as `10` and read back as 10; bus 10 is printed as `0a` and not read at all. -/
theorem bus16_opensBus10 :
    ocxlAfuOpenFromDev (some (ocxlAfuGetDevicePathname ['A'] ⟨16, 0, 1, 0⟩)) = some (.ok (['A'], ⟨16, 0, 1, 0⟩)) ∧
      ocxlAfuOpenSpecific (physicalFunction ⟨16, 0, 1, 0⟩) 0 = .ok ⟨10, 0, 1, 0⟩ ∧
      ocxlAfuOpenSpecific (physicalFunction ⟨10, 0, 1, 0⟩) 0 = .error .noDev ∧
      ¬ AddressesAgree ['A'] ⟨16, 0, 1, 0⟩ := by
  refine ⟨openFromDev_pathname (by decide) (by decide) (by decide) _, by decide, by decide, ?_⟩
  intro h
  have hspecific : ocxlAfuOpenSpecific (physicalFunction ⟨16, 0, 1, 0⟩) 0 = .ok ⟨10, 0, 1, 0⟩ := by decide
  have hself := hspecific.symm.trans h.specific
  cases hself

end Ocse
