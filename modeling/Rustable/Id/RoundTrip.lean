import Rustable.Id.Grammar
import Rustable.Options

/-!
# UUIDs and addresses come back from their texts

A UUID has one text form and an address two, `Display` and the last segment of a device's
path.  They are of the fixed widths of the grammar, and each of them is parsed back to what
it was printed from.  `MAC::new` and `MAC::from_parts` make the same addresses from the
number whose digits the text forms of an address are.

## Main results

* `UUID.textExact`: the text form of UUIDs
* `MAC.newExact`: `MAC::new` and both text forms of addresses
-/

namespace Rustable

open Text (IsHex IsFields joinFields)

/-! ## UUIDs -/

namespace UUID

/-- The text form is the canonical one and has all of the UUID in it. -/
structure TextExact (u : UUID) : Prop where
  ascii : ∀ c ∈ u.toChars, c.utf8Size = 1
  length : Text.utf8Len u.toChars = 36
  form : IsText u.toChars
  lower : u.toChars.map Char.toLower = u.toChars
  fromStr : fromStr u.toChars = pure u
  distinct : ∀ v : UUID, v ≠ u → v.toChars ≠ u.toChars
  /-- A UUID is sent as the string that it is printed as, -/
  marshal : DBus.marshal u = some (.base (String.ofList u.toChars))
  /-- and this string is received as the UUID. -/
  unmarshal : ∀ {ε : Type} (invalidType : ε) (used : Nat),
    unmarshal invalidType (.ok (used, u.toChars)) = pure (used, u)
  received : ∀ v, DBus.marshal u = some v → DBus.unmarshal v = some u

theorem isText_toChars (u : UUID) : IsText u.toChars := by
  have h1 : ((u.val >>> 96).setWidth 32).toNat < 16 ^ 8 := BitVec.isLt _
  have h2 : ((u.val >>> 80).setWidth 16).toNat < 16 ^ 4 := BitVec.isLt _
  have h3 : ((u.val >>> 64).setWidth 16).toNat < 16 ^ 4 := BitVec.isLt _
  have h4 : ((u.val >>> 48).setWidth 16).toNat < 16 ^ 4 := BitVec.isLt _
  have h5 : (u.val.setWidth 64 &&& 0xFFFFFFFFFFFF#64).toNat < 16 ^ 12 := toNat_mask_lt _
  have hjoin : u.toChars = joinFields '-' [Text.hex .lower 8 ((u.val >>> 96).setWidth 32).toNat,
      Text.hex .lower 4 ((u.val >>> 80).setWidth 16).toNat,
      Text.hex .lower 4 ((u.val >>> 64).setWidth 16).toNat,
      Text.hex .lower 4 ((u.val >>> 48).setWidth 16).toNat,
      Text.hex .lower 12 (u.val.setWidth 64 &&& 0xFFFFFFFFFFFF#64).toNat] := by
    simp only [toChars, Text.joinFields_cons_cons, Text.joinFields_singleton]
  refine Text.isFields_iff.mpr ⟨_, ?_, ?_, hjoin.symm⟩
  · simp only [List.map_cons, List.map_nil, widths, Text.length_hex h1, Text.length_hex h2,
      Text.length_hex h3, Text.length_hex h4, Text.length_hex h5]
  · simp [Text.isHex_hex]

/-- **The text round trip** of UUIDs, on the bus as well. -/
theorem textExact (u : UUID) : TextExact u := by
  have form := isText_toChars u
  have ascii : ∀ c ∈ u.toChars, c.utf8Size = 1 := (isText_iff.mp form).1.utf8Size rfl
  exact {
    ascii := ascii
    length := (Text.utf8Len_eq_length ascii).trans (isFields_widths_iff.mp form).1
    form := form
    lower := (toChars_of_fromStr form (fromStr_toChars u)).symm
    fromStr := fromStr_toChars u
    distinct := fun v hne heq ↦ hne (Parse.pure_inj.mp (by
      rw [← fromStr_toChars v, heq, fromStr_toChars]))
    marshal := rfl
    unmarshal := fun invalidType used ↦ by
      rw [unmarshal_ok, fromStr_toChars]
      rfl
    received := fun v hv ↦ DBus.unmarshal_marshal hv }

end UUID

/-! ## MAC addresses -/

namespace MAC

open Parse (pure_inj)

/-- `MAC::new`; no value is a panic.  The index has 32 bits, so that `as usize` keeps it. -/
def new (mac : BitVec 64) : Option MAC := do
  let a := [0]
  let _ ← a[((0xFFFF000000000000#64 &&& mac) >>> 32).toNat]?
  return ⟨(mac >>> 16).setWidth 32, mac.setWidth 16⟩

/-- `MAC::from_parts` -/
def fromParts (firstFour : BitVec 32) (lastTwo : BitVec 16) : MAC := ⟨firstFour, lastTwo⟩

/-- `MAC::to_dev_str` -/
def toDevStr (m : MAC) : List Char :=
  let m0 := m.firstFour.toNat
  let m1 := m.lastTwo.toNat
  "dev_".toList ++ (octet m0 3 ++ '_' :: (octet m0 2 ++ '_' :: (octet m0 1 ++
    '_' :: (octet m0 0 ++ '_' :: (octet m1 1 ++ '_' :: octet m1 0)))))

/-! ### The decoder of path segments -/

/-- The octet read in the `i`th round of the loop in `from_dev_str`. -/
def octetAt (addrStr : List Char) (i : Nat) : Option Nat :=
  (Text.slice addrStr (i * 3 + 1) (i * 3 + 3)).bind (Text.fromStrRadix16 8)

theorem readOctet_eq (addrStr : List Char) {mac : List Nat} {i : Nat} (hi : i < mac.length) :
    readOctet addrStr mac i = OptionT.mk (some ((octetAt addrStr i).map (mac.set i ·))) := by
  rw [readOctet, get_bind, octetAt]
  cases Text.slice addrStr (i * 3 + 1) (i * 3 + 3) with
  | none => rfl
  | some s =>
      rw [Option.elim_some, get_bind, Option.bind_some]
      cases Text.fromStrRadix16 8 s with
      | none => rfl
      | some octet =>
          rw [Option.elim_some, setUnwrap, if_pos hi]
          rfl

/-- The array is filled from the front. -/
theorem foldlM_readOctet (addrStr : List Char) (k : Nat) (done : List Nat) :
    (List.range' done.length k).foldlM (readOctet addrStr) (done ++ List.replicate k 0) =
      OptionT.mk (some (((List.range' done.length k).mapM (octetAt addrStr)).map
        (done ++ ·))) := by
  induction k generalizing done with
  | zero =>
      rw [List.replicate_zero, List.append_nil]
      exact congrArg (OptionT.mk ∘ some ∘ some) (List.append_nil done).symm
  | succ k ih =>
      have hroom : done.length < (done ++ List.replicate (k + 1) 0).length := by simp
      rw [List.range'_succ, List.foldlM_cons, List.mapM_cons, readOctet_eq addrStr hroom]
      cases octetAt addrStr done.length with
      | none => rfl
      | some n =>
          have hset : (done ++ List.replicate (k + 1) 0).set done.length n =
              (done ++ [n]) ++ List.replicate k 0 := by simp [List.replicate_succ]
          have hlen : done.length + 1 = (done ++ [n]).length := by simp
          rw [Option.map_some, hset, hlen]
          refine (ih (done ++ [n])).trans ?_
          cases (List.range' (done ++ [n]).length k).mapM (octetAt addrStr) with
          | none => rfl
          | some ns => simp

/-- **What is decoded** of a text with the right prefix: its octets, wherever they are numbers. -/
theorem fromDevStr_append (rest : List Char) :
    fromDevStr ("dev_".toList ++ rest) = OptionT.mk (some ((readBytes rest).map ofBytes)) := by
  have hprefix : "dev_".toList.isPrefixOf ("dev_".toList ++ rest) :=
    List.isPrefixOf_iff_prefix.mpr (List.prefix_append _ rest)
  have hdrop : Text.dropBytes ("dev_".toList ++ rest) 3 = some ('_' :: rest) :=
    (Text.dropBytes_append "dev".toList ('_' :: rest) 0).trans (Text.dropBytes_zero _)
  have hoctet (i : Nat) : octetAt ('_' :: rest) i =
      (Text.slice rest (i * 3) (i * 3 + 2)).bind (Text.fromStrRadix16 8) := by
    have hskip := Text.slice_append ['_'] rest (i * 3) (i * 3 + 2)
    have hone : Text.utf8Len ['_'] = 1 := rfl
    have hstart : 1 + i * 3 = i * 3 + 1 := Nat.add_comm ..
    have hstop : 1 + (i * 3 + 2) = i * 3 + 3 := by omega
    rw [hone, hstart, hstop] at hskip
    rw [octetAt, ← hskip]
    rfl
  have hread : (List.range' 0 6).mapM (octetAt ('_' :: rest)) = readBytes rest := by
    have hoctets : octets = (List.range' 0 6).map fun i ↦ (i * 3, i * 3 + 2) := rfl
    rw [readBytes, hoctets, List.mapM_map]
    exact congrArg (List.mapM · _) (funext hoctet)
  have hloop : (List.range 6).foldlM (readOctet ('_' :: rest)) (List.replicate 6 0) =
      OptionT.mk (some (readBytes rest)) := by
    have h := foldlM_readOctet ('_' :: rest) 6 []
    simp only [List.length_nil, List.nil_append, Option.map_id', hread] at h
    rw [List.range_eq_range']
    exact h
  simp only [fromDevStr, hprefix, Bool.not_true, Bool.false_eq_true, ↓reduceIte, hdrop, hloop,
    get_bind, Option.elim_some]
  cases readBytes rest with
  | none => rfl
  | some ns => rfl

/-- When a path segment is decoded. -/
theorem fromDevStr_eq_pure_iff {child : List Char} {m : MAC} : fromDevStr child = pure m ↔
    ∃ rest, "dev_".toList ++ rest = child ∧ (readBytes rest).map ofBytes = some m := by
  constructor
  · intro h
    by_cases hdev : "dev_".toList.isPrefixOf child
    · obtain ⟨rest, rfl⟩ := List.isPrefixOf_iff_prefix.mp hdev
      rw [fromDevStr_append] at h
      exact ⟨rest, rfl, Option.some.inj h⟩
    · simp only [fromDevStr, hdev, Bool.not_false, ↓reduceIte] at h
      have hnone : none = some m := Option.some.inj h
      contradiction
  · rintro ⟨rest, rfl, hread⟩
    rw [fromDevStr_append, hread]
    rfl

/-! ### Both text forms -/

theorem toDevStr_eq (m : MAC) :
    m.toDevStr = "dev_".toList ++ joinFields '_' (m.bytes.map (Text.hex .upper 2)) := by
  simp [toDevStr, bytes, octet, Text.joinFields_cons_cons]

theorem lt_of_mem_bytes {m : MAC} {n : Nat} (h : n ∈ m.bytes) : n < 16 ^ 2 := by
  simp only [bytes, List.mem_cons, List.not_mem_nil, or_false] at h
  rcases h with rfl | rfl | rfl | rfl | rfl | rfl <;> exact beByte_lt ..

/-- The octets are the digits of the address in base 256. -/
theorem fromBeBytes_bytes (m : MAC) :
    fromBeBytes m.bytes = m.firstFour.toNat * 2 ^ 16 + m.lastTwo.toNat := by
  have hfirst := m.firstFour.isLt
  have hlast := m.lastTwo.isLt
  simp only [fromBeBytes, bytes, beByte, List.foldl_cons, List.foldl_nil]
  omega

theorem ofBytes_bytes (m : MAC) : ofBytes m.bytes = m := by
  obtain ⟨hi, lo⟩ := m
  rw [ofBytes, MAC.mk.injEq]
  exact ⟨ofNat_fromBeBytes_four hi, ofNat_fromBeBytes_two lo⟩

/-- The texts of the octets are read one by one. -/
theorem mapM_fromStrRadix16_bytes (m : MAC) :
    (m.bytes.map (Text.hex .upper 2)).mapM (Text.fromStrRadix16 8) = some m.bytes := by
  rw [mapM_eq_some_iff, List.map_map]
  refine List.map_congr_left fun n hn ↦ ?_
  exact Text.fromStrRadix16_hex (by decide) (lt_of_mem_bytes hn) (lt_of_mem_bytes hn)

/-- **Path segments come back**: what is written for an address is decoded to it. -/
theorem fromDevStr_toDevStr (m : MAC) : fromDevStr m.toDevStr = pure m := by
  have hutf8 : ∀ g ∈ m.bytes.map (Text.hex .upper 2), Text.utf8Len g = 2 := by
    intro g hg
    obtain ⟨n, hn, rfl⟩ := List.mem_map.mp hg
    exact Text.utf8Len_hex (lt_of_mem_bytes hn)
  refine fromDevStr_eq_pure_iff.mpr ⟨_, (toDevStr_eq m).symm, ?_⟩
  rw [readBytes_joinFields rfl hutf8 rfl, mapM_fromStrRadix16_bytes, Option.map_some,
    ofBytes_bytes]

/-- The digits of the text forms are those of the address. -/
theorem parseHex_filter_joinFields (m : MAC) {sep : Char} (hsep : ¬Text.IsHexDigit sep) :
    Text.parseHex ((joinFields sep (m.bytes.map (Text.hex .upper 2))).filter (· ≠ sep)) =
      some (m.firstFour.toNat * 2 ^ 16 + m.lastTwo.toNat) := by
  have hnot : ∀ g ∈ m.bytes.map (Text.hex .upper 2), sep ∉ g := by
    intro g hg hmem
    obtain ⟨n, -, rfl⟩ := List.mem_map.mp hg
    exact hsep (Text.isHex_hex sep hmem)
  rw [Text.filter_joinFields hnot, Text.parseHex_flatten_hex fun n hn ↦ lt_of_mem_bytes hn,
    ← fromBeBytes_bytes]
  rfl

/-! ### Where addresses come from -/

/-- The index that stands in for an assertion. -/
theorem toNat_index (n : BitVec 64) :
    ((0xFFFF000000000000#64 &&& n) >>> 32).toNat = n.toNat / 2 ^ 48 * 2 ^ 16 := by
  have hlt := n.isLt
  have hmask : (0xFFFF000000000000#64 &&& n).toNat = n.toNat / 2 ^ 48 * 2 ^ 48 := by
    have hones : (0xFFFF000000000000#64).toNat = (2 ^ 16 - 1) <<< 48 := rfl
    rw [BitVec.toNat_and, hones, ← Nat.shiftLeft_eq, ← Nat.shiftRight_eq_div_pow]
    refine Nat.eq_of_testBit_eq fun i ↦ ?_
    rw [Nat.testBit_and, Nat.testBit_shiftLeft, Nat.testBit_shiftLeft, Nat.testBit_shiftRight,
      Nat.testBit_two_pow_sub_one]
    by_cases hi : 48 ≤ i
    · by_cases htop : i < 64
      · have hbit : i - 48 < 16 := by omega
        simp [hi, hbit]
      · have hzero : n.toNat.testBit i = false :=
          Nat.testBit_lt_two_pow (hlt.trans_le (Nat.pow_le_pow_right (by decide) (by omega)))
        simp [hi, hzero]
    · simp [hi]
  rw [BitVec.toNat_ushiftRight, hmask, Nat.shiftRight_eq_div_pow]
  omega

/-- **When `MAC::new` panics**, and its value where it does not. -/
theorem new_eq (n : BitVec 64) : new n =
    if n.toNat < 2 ^ 48 then some ⟨(n >>> 16).setWidth 32, n.setWidth 16⟩ else none := by
  rw [new, toNat_index]
  split
  · next h =>
      rw [Nat.div_eq_of_lt h]
      rfl
  · next h =>
      have hle : 1 ≤ n.toNat / 2 ^ 48 * 2 ^ 16 := by omega
      rw [List.getElem?_eq_none hle]
      rfl

/-- `MAC::new` panics where it should, and else the text forms have the digits of the number
and come back. -/
structure NewExact (n : BitVec 64) : Prop where
  panics : new n = none ↔ 2 ^ 48 - 1 < n.toNat
  digits : ∀ m, new n = some m → Text.parseHex (m.toChars.filter (· ≠ ':')) = some n.toNat
  devDigits : ∀ m, new n = some m → ∃ rest, m.toDevStr = "dev_".toList ++ rest ∧
    Text.parseHex (rest.filter (· ≠ '_')) = some n.toNat
  fromStr : ∀ m, new n = some m → fromStr m.toChars = pure m
  fromDevStr : ∀ m, new n = some m → fromDevStr m.toDevStr = pure m

theorem newExact (n : BitVec 64) : NewExact n := by
  have hnew := new_eq n
  have hnum {m : MAC} (h : new n = some m) :
      m.firstFour.toNat * 2 ^ 16 + m.lastTwo.toNat = n.toNat := by
    rw [hnew] at h
    split at h
    · next hlt =>
        obtain rfl := Option.some.inj h
        simp only [BitVec.toNat_setWidth, BitVec.toNat_ushiftRight, Nat.shiftRight_eq_div_pow]
        omega
    · contradiction
  exact {
    panics := by
      rw [hnew]
      split
      · simp
        omega
      · simp
        omega
    digits := fun m h ↦ by
      rw [toChars_eq, parseHex_filter_joinFields m (by decide), hnum h]
    devDigits := fun m h ↦ ⟨_, toDevStr_eq m, by
      rw [parseHex_filter_joinFields m (by decide), hnum h]⟩
    fromStr := fun m _ ↦ fromStr_toChars m
    fromDevStr := fun m _ ↦ fromDevStr_toDevStr m }

/-- **Numbers, parts and texts of addresses agree**: `new` is defined on the numbers of 48 bits,
`from_parts` is `new` of the parts put together, and both text forms of every address come
back. -/
theorem new_texts_agree : (∀ n, NewExact n) ∧
    (∀ (firstFour : BitVec 32) (lastTwo : BitVec 16),
      new (BitVec.ofNat 64 (firstFour.toNat * 2 ^ 16 + lastTwo.toNat)) =
        some (fromParts firstFour lastTwo)) ∧
    ∀ m : MAC, fromStr m.toChars = pure m ∧ fromDevStr m.toDevStr = pure m := by
  refine ⟨newExact, fun firstFour lastTwo ↦ ?_, fun m ↦
    ⟨fromStr_toChars m, fromDevStr_toDevStr m⟩⟩
  have hfirst := firstFour.isLt
  have hlast := lastTwo.isLt
  rw [new_eq, if_pos (by rw [BitVec.toNat_ofNat]; omega), fromParts, Option.some.injEq,
    MAC.mk.injEq]
  constructor
  · apply BitVec.eq_of_toNat_eq
    simp only [BitVec.toNat_setWidth, BitVec.toNat_ushiftRight, BitVec.toNat_ofNat,
      Nat.shiftRight_eq_div_pow]
    omega
  · apply BitVec.eq_of_toNat_eq
    simp only [BitVec.toNat_setWidth, BitVec.toNat_ofNat]
    omega

end MAC

end Rustable
