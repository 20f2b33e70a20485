import Rustable.Gatt.Client
import Rustable.Id.RoundTrip

/-!
# The devices an adapter knows

The objects of the devices are children of the adapter's, and their names tell the
addresses: `dev_` and the octets, joined by underscores.  `get_devices` decodes the names
of the children by `MAC::from_dev_str`, and `get_device` asks the object whose name is
written by `to_dev_str`.

The decoder looks only at the octets.  It does not look at what is between them or behind
them, and takes a plus sign for a digit (`MAC.isOk_fromDevStr_iff`).

## Main results

* `MAC.decodesExactly_iff`: which names are decoded as what they are
* `Adapter.findsDevices_iff`: when the devices that are listed are there to be asked
-/

namespace Rustable

open DBus
open Text (IsHex IsNumber IsFields joinFields)

/-! ## Names -/

namespace MAC

variable {c rest : List Char}

/-- What is decoded behind the prefix: there is a number wherever an octet should be. -/
def IsLoose (rest : List Char) : Prop :=
  ∀ p ∈ octets, ∃ g, Text.slice rest p.1 p.2 = some g ∧ IsNumber g

/-- The octets are joined by underscores, are written without plus signs, and nothing comes
behind them. -/
def IsStrict (rest : List Char) : Prop :=
  Text.utf8Len rest = 17 ∧
    (∀ k < 5, Text.slice rest (3 * k + 2) (3 * k + 3) = some ['_']) ∧ '+' ∉ rest

/-- The name of a device, or what is decoded as if it were one. -/
def IsLooseName (c : List Char) : Prop := ∃ rest, "dev_".toList ++ rest = c ∧ IsLoose rest

/-- What is decoded as if it were the name of a device, and is none. -/
def Misread (c : List Char) : Prop :=
  ∃ rest, "dev_".toList ++ rest = c ∧ IsLoose rest ∧ ¬IsStrict rest

/-- If a name is decoded, it is that of the device up to the case of its digits. -/
def DecodesExactly (c : List Char) : Prop :=
  ∀ m, fromDevStr c = pure m → ∃ rest, "dev_".toList ++ rest = c ∧
    IsFields '_' IsHex widths rest ∧ m.toDevStr = "dev_".toList ++ rest.map Char.toUpper

/-- **The names that are decoded.** -/
theorem isOk_fromDevStr_iff : (∃ m, fromDevStr c = pure m) ↔ IsLooseName c := by
  have hread (rest : List Char) :
      (∃ m, (readBytes rest).map ofBytes = some m) ↔ IsLoose rest := by
    rw [← Option.isSome_iff_exists, Option.isSome_map, readBytes, isSome_mapM_iff, IsLoose]
    refine forall₂_congr fun p hp ↦ ?_
    have hbounds : ∀ p ∈ octets, p.2 = p.1 + 2 := by decide
    have hwidth := hbounds p hp
    cases hslice : Text.slice rest p.1 p.2 with
    | none => simp
    | some g =>
        obtain ⟨-, -, -, -, hlen⟩ := Text.slice_eq_some_iff.mp hslice
        have hle := Text.length_le_utf8Len g
        rw [Option.bind_some, Text.isSome_fromStrRadix16_iff (by omega)]
        simp
  constructor
  · rintro ⟨m, hm⟩
    obtain ⟨rest, hc, hm⟩ := fromDevStr_eq_pure_iff.mp hm
    exact ⟨rest, hc, (hread rest).mp ⟨m, hm⟩⟩
  · rintro ⟨rest, hc, hloose⟩
    obtain ⟨m, hm⟩ := (hread rest).mpr hloose
    exact ⟨m, fromDevStr_eq_pure_iff.mpr ⟨rest, hc, hm⟩⟩

/-- Numbers between underscores are there for the decoder, -/
theorem isLoose_of_isFields (h : IsFields '_' IsNumber widths rest) : IsLoose rest := by
  have hascii := h.utf8Size rfl
  obtain ⟨hlen, -, hoctets⟩ := isFields_widths_iff.mp h
  intro p hp
  have hbounds : ∀ p ∈ octets, p.1 ≤ p.2 ∧ p.2 ≤ 17 := by decide
  obtain ⟨hle, hstop⟩ := hbounds p hp
  exact ⟨_, Text.slice_of_ascii hascii hle (hlen ▸ hstop), hoctets p hp⟩

/-- with nothing but underscores around them, -/
theorem isStrict_of_isFields (h : IsFields '_' IsNumber widths rest) (hplus : '+' ∉ rest) :
    IsStrict rest := by
  have hascii := h.utf8Size rfl
  obtain ⟨hlen, hsep, -⟩ := isFields_widths_iff.mp h
  refine ⟨?_, fun k hk ↦ ?_, hplus⟩
  · rw [Text.utf8Len_eq_length hascii, hlen]
  · have hlt : 3 * k + 2 < rest.length := by omega
    rw [Text.slice_of_ascii hascii (by omega) (by omega), List.drop_eq_getElem_cons hlt,
      hsep k _ (List.getElem?_eq_getElem hlt)]
    simp

/-- and such numbers are the whole text. -/
theorem IsLoose.isFields (hloose : IsLoose rest) (hstrict : IsStrict rest) :
    IsFields '_' IsNumber widths rest := by
  obtain ⟨hlen, hsep, -⟩ := hstrict
  obtain ⟨g0, h0, n0⟩ := hloose (0, 2) (by decide)
  obtain ⟨g1, h1, n1⟩ := hloose (3, 5) (by decide)
  obtain ⟨g2, h2, n2⟩ := hloose (6, 8) (by decide)
  obtain ⟨g3, h3, n3⟩ := hloose (9, 11) (by decide)
  obtain ⟨g4, h4, n4⟩ := hloose (12, 14) (by decide)
  obtain ⟨g5, h5, n5⟩ := hloose (15, 17) (by decide)
  have length {g : List Char} {i : Nat} (hg : Text.slice rest i (i + 2) = some g)
      (hnum : IsNumber g) : g.length = 2 := by
    obtain ⟨-, -, -, -, hwidth⟩ := Text.slice_eq_some_iff.mp hg
    rw [← Text.utf8Len_eq_length hnum.utf8Size]
    omega
  -- The octets and the underscores between them are next to each other, and are all there is.
  have hall := Text.slice_trans (Text.slice_trans h0 (hsep 0 (by decide))) <|
    Text.slice_trans (Text.slice_trans h1 (hsep 1 (by decide))) <|
    Text.slice_trans (Text.slice_trans h2 (hsep 2 (by decide))) <|
    Text.slice_trans (Text.slice_trans h3 (hsep 3 (by decide))) <|
    Text.slice_trans (Text.slice_trans h4 (hsep 4 (by decide))) h5
  have hrest := Text.slice_all rest
  rw [hlen] at hrest
  have hjoin : joinFields '_' [g0, g1, g2, g3, g4, g5] = rest := by
    rw [← Option.some.inj (hall.symm.trans hrest)]
    simp [Text.joinFields_cons_cons]
  refine Text.isFields_iff.mpr ⟨[g0, g1, g2, g3, g4, g5], ?_, ?_, hjoin⟩
  · simp only [List.map_cons, List.map_nil, length h0 n0, length h1 n1, length h2 n2,
      length h3 n3, length h4 n4, length h5 n5]
    rfl
  · simp only [List.forall_mem_cons]
    exact ⟨n0, n1, n2, n3, n4, n5, by simp⟩

/-- Octets between underscores are what is left if the decoder looked at everything. -/
theorem isFields_iff_isLoose : IsFields '_' IsHex widths rest ↔ IsLoose rest ∧ IsStrict rest := by
  rw [Text.isFields_isHex_iff (by decide) (by decide)]
  constructor
  · rintro ⟨hnum, hplus⟩
    exact ⟨isLoose_of_isFields hnum, isStrict_of_isFields hnum hplus⟩
  · rintro ⟨hloose, hstrict⟩
    exact ⟨hloose.isFields hstrict, hstrict.2.2⟩

/-- **A name is decoded as what it is** if the decoder missed nothing. -/
theorem decodesExactly_iff : DecodesExactly c ↔ ¬Misread c := by
  have inj {rest rest' : List Char} (h : "dev_".toList ++ rest = "dev_".toList ++ rest') :
      rest = rest' := List.append_cancel_left h
  constructor
  · rintro h ⟨rest, rfl, hloose, hstrict⟩
    obtain ⟨m, hm⟩ := isOk_fromDevStr_iff.mpr ⟨rest, rfl, hloose⟩
    obtain ⟨rest', hc, hfields, -⟩ := h m hm
    obtain rfl := inj hc
    exact hstrict (isFields_iff_isLoose.mp hfields).2
  · intro h m hm
    obtain ⟨rest, rfl, hloose⟩ := isOk_fromDevStr_iff.mp ⟨m, hm⟩
    have hfields : IsFields '_' IsHex widths rest :=
      isFields_iff_isLoose.mpr ⟨hloose, not_not.mp fun hstrict ↦ h ⟨rest, rfl, hloose, hstrict⟩⟩
    obtain ⟨m', hread, hprint⟩ := exists_readBytes hfields rfl rfl
    obtain ⟨rest', hc, hread'⟩ := fromDevStr_eq_pure_iff.mp hm
    obtain rfl := inj hc
    obtain rfl := Option.some.inj (hread'.symm.trans hread)
    exact ⟨rest', rfl, hfields, by rw [toDevStr_eq, hprint]⟩

/-- Names of devices are elements of paths. -/
theorem isElement_toDevStr (m : MAC) : IsElement m.toDevStr := by
  have hprefix : ∀ c ∈ "dev_".toList, isPathChar c = true := List.all_eq_true.mp rfl
  rw [toDevStr_eq]
  refine ⟨List.append_ne_nil_of_left_ne_nil (by decide) _, fun c hc ↦ ?_⟩
  rcases List.mem_append.mp hc with hc | hc
  · exact hprefix c hc
  · rcases Text.mem_joinFields hc with rfl | ⟨g, hg, hc⟩
    · rfl
    · obtain ⟨n, -, rfl⟩ := List.mem_map.mp hg
      exact Text.of_isHexDigit (fun c ↦ isPathChar c = true) rfl (Text.isHex_hex c hc)

end MAC

/-! ## Devices -/

/-- `struct Device`, without the connection. -/
structure Device where
  path : ObjectPath
  mac : MAC

namespace Adapter

/-- The path of an adapter. -/
def path (idx : UInt8) : ObjectPath where
  elements := ["org".toList, "bluez".toList, "hci".toList ++ Nat.toDigits 10 idx.toNat]
  valid := by
    have hdigit : ∀ c ∈ Nat.toDigits 10 idx.toNat, isPathChar c = true := fun c hc ↦ by
      have hdigit := Nat.isDigit_of_mem_toDigits (by decide) (by decide) hc
      simp [isPathChar, Char.isAlphanum, hdigit]
    have hhci : ∀ c ∈ "hci".toList, isPathChar c = true := List.all_eq_true.mp rfl
    simp only [List.forall_mem_cons]
    refine ⟨by decide, by decide, ⟨?_, fun c hc ↦ ?_⟩, by simp⟩
    · exact List.append_ne_nil_of_left_ne_nil (by decide) _
    · exact (List.mem_append.mp hc).elim (hhci c) (hdigit c)

theorem path_ne_root (idx : UInt8) : path idx ≠ .root := by
  intro h
  have helems := congrArg ObjectPath.elements h
  contradiction

/-- The closure in `Adapter::get_devices`. -/
def decodeChild (child : ObjectPath) : OptionT Option MAC := do
  let name ← OptionT.mk (some child.fileName)
  MAC.fromDevStr name

/-- `Adapter::get_devices`, from the children of the adapter; no value is a panic. -/
def getDevices (children : List ObjectPath) : Option (List MAC) := do
  let found ← children.mapM fun child ↦ (decodeChild child).run
  return found.filterMap id

/-- The path in `Adapter::get_device`. -/
def devicePath (adapter : ObjectPath) (mac : MAC) : List Char :=
  adapter.toChars ++ '/' :: mac.toDevStr

/-- `Adapter::get_device`, the request; there is none for a path that is not valid. -/
def getDeviceCall (adapter : ObjectPath) (mac : MAC) : Option MarshalledMessage := do
  let path ← ObjectPath.tryFrom (devicePath adapter mac)
  return getPropCall path bluezDest bluezDevIf "Address"

/-- The address in the reply that `Adapter::get_device` gets. -/
def receivedMac : BluezOptions → MayFail MAC
  | .str s => match (MAC.fromStr s.toList).run with
    | some (.ok resMac) => pure resMac
    | some (.error _) => throw (.bluez ("Invalid MAC received back: " ++ s))
    | none => .panic
  | _ => throw (.bluez "Invalid type received for MAC.")

/-- `Adapter::get_device`, from the reply on. -/
def getDeviceReply (adapter : ObjectPath) (mac : MAC) (msg : MarshalledMessage) :
    MayFail Device := do
  let resVar ← tryCatch (isMsgErr BluezOptions msg) fun _ ↦ throw (.unknownDevice mac)
  let resMac ← receivedMac resVar
  if resMac ≠ mac then
    throw (.bluez ("Address returned " ++ String.ofList resMac.toChars ++
      " did not match given (" ++ String.ofList mac.toChars ++ ")!"))
  else match ObjectPath.tryFrom (devicePath adapter mac) with
    | some path => return { path := path, mac := mac }
    | none => .panic

/-- A child is listed as the device with an address. -/
def Decodes (child : ObjectPath) (m : MAC) : Prop :=
  ∃ name, child.fileName = some name ∧ MAC.fromDevStr name = pure m

/-- `get_device` sends its request to an object, and returns no other device than that. -/
structure Asks (adapter : ObjectPath) (m : MAC) (p : ObjectPath) : Prop where
  call : getDeviceCall adapter m = some (getPropCall p bluezDest bluezDevIf "Address")
  reply : ∀ msg dev, getDeviceReply adapter m msg = pure dev → dev.path = p ∧ dev.mac = m

theorem run_decodeChild (child : ObjectPath) :
    ∃ found, (decodeChild child).run = some found ∧ ∀ m, found = some m ↔ Decodes child m := by
  rw [decodeChild, MAC.get_bind]
  simp only [Decodes]
  cases child.fileName with
  | none => exact ⟨none, rfl, by simp⟩
  | some name =>
      obtain ⟨found, hfound⟩ := Option.isSome_iff_exists.mp (MAC.isSome_fromDevStr name)
      refine ⟨found, hfound, fun m ↦ ?_⟩
      have hpure : MAC.fromDevStr name = pure m ↔ found = some m := by
        have hrun : MAC.fromDevStr name = OptionT.mk (some found) := hfound
        rw [hrun]
        exact ⟨fun h ↦ Option.some.inj h, fun h ↦ congrArg (OptionT.mk ∘ some) h⟩
      simp [hpure]

/-- **What `get_devices` returns**: the addresses of the children that are decoded. -/
theorem getDevices_eq (children : List ObjectPath) : ∃ ms, getDevices children = some ms ∧
    ∀ m, m ∈ ms ↔ ∃ child ∈ children, Decodes child m := by
  have hsome : (children.mapM fun child ↦ (decodeChild child).run).isSome :=
    isSome_mapM_iff.mpr fun child _ ↦ by
      obtain ⟨found, hfound, -⟩ := run_decodeChild child
      rw [hfound, Option.isSome_some]
  obtain ⟨found, hfound⟩ := Option.isSome_iff_exists.mp hsome
  refine ⟨found.filterMap id, ?_, fun m ↦ ?_⟩
  · rw [getDevices, hfound]
    rfl
  · have hmap := mapM_eq_some_iff.mp hfound
    have hmem : some m ∈ found ↔ ∃ child ∈ children, (decodeChild child).run = some (some m) := by
      rw [← List.mem_map (f := fun child ↦ (decodeChild child).run), hmap,
        List.mem_map_of_injective (Option.some_injective _)]
    rw [List.mem_filterMap]
    simp only [id_eq, exists_eq_right, hmem]
    refine exists_congr fun child ↦ and_congr_right fun _ ↦ ?_
    obtain ⟨found, hrun, hdecodes⟩ := run_decodeChild child
    rw [hrun, ← hdecodes, Option.some.injEq]

theorem asks_push (idx : UInt8) (m : MAC) :
    Asks (path idx) m ((path idx).push m.toDevStr m.isElement_toDevStr) := by
  have htry : ObjectPath.tryFrom (devicePath (path idx) m) =
      some ((path idx).push m.toDevStr m.isElement_toDevStr) :=
    ObjectPath.tryFrom_toChars_append (path_ne_root idx) m.isElement_toDevStr
  refine ⟨by rw [getDeviceCall, htry]; rfl, fun msg dev h ↦ ?_⟩
  rw [getDeviceReply, htry] at h
  obtain ⟨resVar, -, h⟩ := MayFail.bind_eq_pure.mp h
  obtain ⟨resMac, -, h⟩ := MayFail.bind_eq_pure.mp h
  by_cases hmac : resMac = m
  · rw [if_neg (not_not.mpr hmac)] at h
    obtain rfl := Except.ok.inj (Option.some.inj h)
    exact ⟨rfl, rfl⟩
  · rw [if_pos hmac] at h
    exact nomatch Option.some.inj h

/-- Only one object is asked. -/
theorem Asks.unique {adapter p q : ObjectPath} {m : MAC} (hp : Asks adapter m p)
    (hq : Asks adapter m q) : p = q := by
  have hcall := Option.some.inj (hp.call.symm.trans hq.call)
  exact Option.some.inj (congrArg (fun call : MarshalledMessage ↦ call.dynheader.object) hcall)

/-! ## Listed and asked for -/

/-- The children of an adapter that are listed as devices are the objects of these devices. -/
structure FindsDevices (idx : UInt8) (children : List ObjectPath) : Prop where
  /-- A name that is decoded is the name of the device, -/
  decoded : ∀ child ∈ children, ∀ name, child.fileName = some name → MAC.DecodesExactly name
  /-- the devices are listed, -/
  listed : ∃ ms, getDevices children = some ms ∧
    ∀ m, m ∈ ms ↔ ∃ child ∈ children, Decodes child m
  /-- with one address for each name, up to case, -/
  distinct : ∀ child ∈ children, ∀ child' ∈ children, ∀ name name',
    child.fileName = some name → child'.fileName = some name' →
      ∀ m, MAC.fromDevStr name = pure m → MAC.fromDevStr name' = pure m →
        name.map Char.toUpper = name'.map Char.toUpper
  /-- and the object that is asked is the one that was listed. -/
  addressed : ∀ child ∈ children, ∀ m, Decodes child m → Asks (path idx) m child

/-- A child is directly below the adapter and its name is written as `to_dev_str` writes it, if
it is decoded. -/
def IsDevice (idx : UInt8) (child : ObjectPath) : Prop :=
  ∀ rest, child.fileName = some ("dev_".toList ++ rest) → MAC.IsLoose rest →
    MAC.IsStrict rest ∧ rest.map Char.toUpper = rest ∧ child.parent = some (path idx)

/-- The name of a child and what it is a child of. -/
theorem eq_push {p q : ObjectPath} {name : List Char} (hname : p.fileName = some name)
    (hparent : p.parent = some q) : ∃ h, p = q.push name h := by
  rw [ObjectPath.parent] at hparent
  split at hparent
  · contradiction
  · next hne =>
      have helems : p.elements = q.elements ++ [name] := by
        rw [← Option.some.inj hparent]
        exact (List.dropLast_append_getLast? name hname).symm
      exact ⟨p.valid name (List.mem_of_getLast? hname), ObjectPath.ext helems⟩

/-- What is asked for an address is the child that is decoded to it, if the child is written as
`to_dev_str` writes it. -/
theorem asks_iff {idx : UInt8} {child : ObjectPath} {rest : List Char} {m : MAC}
    (hname : child.fileName = some ("dev_".toList ++ rest))
    (hprint : m.toDevStr = "dev_".toList ++ rest.map Char.toUpper) :
    Asks (path idx) m child ↔
      rest.map Char.toUpper = rest ∧ child.parent = some (path idx) := by
  constructor
  · intro h
    obtain rfl := h.unique (asks_push idx m)
    rw [ObjectPath.fileName, ObjectPath.push, List.getLast?_concat, hprint, Option.some.injEq] at hname
    exact ⟨List.append_cancel_left hname, ObjectPath.parent_push _ _⟩
  · rintro ⟨hupper, hparent⟩
    obtain ⟨hvalid, rfl⟩ := eq_push hname hparent
    have hdev : m.toDevStr = "dev_".toList ++ rest := by rw [hprint, hupper]
    have hpush : (path idx).push m.toDevStr m.isElement_toDevStr = (path idx).push _ hvalid :=
      ObjectPath.push_inj.mpr ⟨rfl, hdev⟩
    exact hpush ▸ asks_push idx m

/-- **The devices that are listed are there to be asked** if and only if no name is misread or in
lower case, and the children are directly below the adapter. -/
theorem findsDevices_iff (c : List Char) (idx : UInt8) (children : List ObjectPath) :
    (MAC.DecodesExactly c ↔ ¬MAC.Misread c) ∧
      (FindsDevices idx children ↔ ∀ child ∈ children, IsDevice idx child) := by
  refine ⟨MAC.decodesExactly_iff, fun h child hchild rest hname hloose ↦ ?_, fun h ↦ ?_⟩
  · have hexact := h.decoded child hchild _ hname
    obtain ⟨m, hm⟩ := MAC.isOk_fromDevStr_iff.mpr ⟨rest, rfl, hloose⟩
    obtain ⟨rest', hrest, hfields, hprint⟩ := hexact m hm
    obtain rfl := List.append_cancel_left hrest
    refine ⟨(MAC.isFields_iff_isLoose.mp hfields).2, ?_⟩
    exact (asks_iff hname hprint).mp (h.addressed child hchild m ⟨_, hname, hm⟩)
  · have decoded : ∀ child ∈ children, ∀ name, child.fileName = some name →
        MAC.DecodesExactly name := by
      intro child hchild name hname
      refine MAC.decodesExactly_iff.mpr ?_
      rintro ⟨rest, rfl, hloose, hstrict⟩
      exact hstrict (h child hchild rest hname hloose).1
    exact {
      decoded := decoded
      listed := getDevices_eq children
      distinct := fun child hchild child' hchild' name name' hname hname' m hm hm' ↦ by
        obtain ⟨rest, rfl, -, hprint⟩ := decoded child hchild name hname m hm
        obtain ⟨rest', rfl, -, hprint'⟩ := decoded child' hchild' name' hname' m hm'
        rw [List.map_append, List.map_append, List.append_cancel_left (hprint.symm.trans hprint')]
      addressed := fun child hchild m hdecodes ↦ by
        obtain ⟨name, hname, hm⟩ := hdecodes
        obtain ⟨rest, rfl, hfields, hprint⟩ := decoded child hchild name hname m hm
        have hloose : MAC.IsLoose rest := (MAC.isFields_iff_isLoose.mp hfields).1
        exact (asks_iff hname hprint).mpr (h child hchild rest hname hloose).2 }

/-- Other separators are not noticed, nor is what comes behind the octets: a second name is
listed as the device with the first one, and is not asked.  Nor is a name in lower case. -/
theorem misread_names : ¬MAC.DecodesExactly "dev_00x11x22x33x44x55".toList ∧
    ¬FindsDevices 0 [(path 0).push "dev_00_11_22_33_44_55".toList (by decide),
      (path 0).push "dev_00_11_22_33_44_55_0".toList (by decide)] ∧
    ¬FindsDevices 0 [(path 0).push "dev_aa_bb_cc_dd_ee_ff".toList (by decide)] := by
  have misread (rest : List Char) (hloose : MAC.IsLoose rest) (hstrict : ¬MAC.IsStrict rest) :
      ¬MAC.DecodesExactly ("dev_".toList ++ rest) :=
    fun h ↦ MAC.decodesExactly_iff.mp h ⟨rest, rfl, hloose, hstrict⟩
  refine ⟨?_, fun h ↦ ?_, fun h ↦ ?_⟩
  · refine misread "00x11x22x33x44x55".toList ?_ fun h ↦ ?_
    · simp only [MAC.IsLoose, MAC.octets, List.forall_mem_cons]
      exact ⟨⟨_, rfl, by decide⟩, ⟨_, rfl, by decide⟩, ⟨_, rfl, by decide⟩, ⟨_, rfl, by decide⟩,
        ⟨_, rfl, by decide⟩, ⟨_, rfl, by decide⟩, by simp⟩
    · exact absurd (h.2.1 0 (by decide)) (by decide)
  · refine misread "00_11_22_33_44_55_0".toList ?_ (fun h ↦ ?_)
      (h.decoded _ (List.mem_cons_of_mem _ List.mem_cons_self) _ rfl)
    · simp only [MAC.IsLoose, MAC.octets, List.forall_mem_cons]
      exact ⟨⟨_, rfl, by decide⟩, ⟨_, rfl, by decide⟩, ⟨_, rfl, by decide⟩, ⟨_, rfl, by decide⟩,
        ⟨_, rfl, by decide⟩, ⟨_, rfl, by decide⟩, by simp⟩
    · exact absurd h.1 (by decide)
  · have hasks := h.addressed _ List.mem_cons_self ⟨0xAABBCCDD, 0xEEFF⟩ ⟨_, rfl, rfl⟩
    have hupper := congrArg ObjectPath.fileName (hasks.unique (asks_push 0 _))
    exact absurd hupper (by decide)

end Adapter

end Rustable
