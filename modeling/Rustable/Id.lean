import Rustable.Lib.DBus.Wire
import Rustable.Lib.Text

/-!
# UUIDs and MAC addresses

`UUID` and `MAC` of `lib.rs` with their text forms.  A parser can do three things:
return, fail with an `IDParseError`, or panic where it unwraps a missing character or
slices inside one; `Parse` has all three.
-/

namespace Rustable

open Text (LetterCase)

/-- `struct UUID(pub u128)` -/
structure UUID where
  /-- The number. -/
  val : BitVec 128
deriving DecidableEq

/-- `struct MAC(u32, u16)` -/
structure MAC where
  /-- The first four octets. -/
  firstFour : BitVec 32
  /-- The last two. -/
  lastTwo : BitVec 16
deriving DecidableEq

/-- `enum IDParseError` -/
inductive IDParseError
  | invalidLength
  | invalidDelimiter
  | invalidRadix
deriving DecidableEq, Repr

/-- What a parser does: `none` is a panic. -/
abbrev Parse (α : Type) := ExceptT IDParseError Option α

namespace Parse

/-- A panic. -/
def panic {α : Type} : Parse α := ExceptT.mk none

/-- `iter.nth(n).unwrap()`: the character, and the rest of the iterator. -/
def nthUnwrap (cs : List Char) (n : Nat) : Parse (Char × List Char) :=
  match cs.drop n with
  | c :: rest => pure (c, rest)
  | [] => panic

/-- `uN::from_str_radix(&s[start..stop], 16)?` -/
def field (bits : Nat) (s : List Char) (start stop : Nat) : Parse Nat :=
  match Text.slice s start stop with
  | some digits => match Text.fromStrRadix16 bits digits with
    | some n => pure n
    | none => throw .invalidRadix
  | none => panic

theorem nthUnwrap_append {xs rest : List Char} {n : Nat} (c : Char) (h : xs.length = n) :
    nthUnwrap (xs ++ c :: rest) n = pure (c, rest) := by
  rw [nthUnwrap, List.drop_left' h]

/-- The first field of a text. -/
theorem field_head {bits n stop : Nat} {xs : List Char} (ys : List Char)
    (hxs : Text.fromStrRadix16 bits xs = some n) (hstop : Text.utf8Len xs = stop) :
    field bits (xs ++ ys) 0 stop = pure n := by
  subst hstop
  simp only [field, Text.slice_prefix, hxs]

/-- A field behind the first delimiter. -/
theorem field_skip {bits start stop i j : Nat} {xs ys : List Char} {c : Char}
    (hc : c.utf8Size = 1) (hstart : Text.utf8Len xs + 1 + i = start)
    (hstop : Text.utf8Len xs + 1 + j = stop) :
    field bits (xs ++ c :: ys) start stop = field bits ys i j := by
  have hlen : Text.utf8Len (xs ++ [c]) = Text.utf8Len xs + 1 := by
    rw [Text.utf8Len_append, Text.utf8Len_cons, hc]
    rfl
  subst hstart hstop
  rw [← hlen, List.append_cons]
  simp only [field, Text.slice_append]

end Parse

namespace UUID

/-- The loop over the last three delimiters. -/
def checkDelimiters : Nat → List Char → Parse Unit
  | 0, _ => pure ()
  | n + 1, cs => do
      let (c, rest) ← Parse.nthUnwrap cs 4
      if c ≠ '-' then throw .invalidDelimiter
      checkDelimiters n rest

/-- `UUID::from_str` -/
def fromStr (s : List Char) : Parse UUID := do
  if Text.utf8Len s ≠ 36 then throw .invalidLength
  let (c, rest) ← Parse.nthUnwrap s 8
  if c ≠ '-' then throw .invalidDelimiter
  checkDelimiters 3 rest
  let first ← Parse.field 128 s 0 8
  let second ← Parse.field 128 s 9 13
  let third ← Parse.field 128 s 14 18
  let fourth ← Parse.field 128 s 19 23
  let fifth ← Parse.field 128 s 24 36
  return ⟨BitVec.ofNat 128 first <<< 96 ||| BitVec.ofNat 128 second <<< 80 |||
    BitVec.ofNat 128 third <<< 64 ||| BitVec.ofNat 128 fourth <<< 48 ||| BitVec.ofNat 128 fifth⟩

/-- `Display for UUID` -/
def toChars (u : UUID) : List Char :=
  let first := (u.val >>> 96).setWidth 32
  let second := (u.val >>> 80).setWidth 16
  let third := (u.val >>> 64).setWidth 16
  let fourth := (u.val >>> 48).setWidth 16
  let fifth := u.val.setWidth 64 &&& 0xFFFFFFFFFFFF#64
  Text.hex .lower 8 first.toNat ++ '-' :: (Text.hex .lower 4 second.toNat ++
    '-' :: (Text.hex .lower 4 third.toNat ++ '-' :: (Text.hex .lower 4 fourth.toNat ++
      '-' :: Text.hex .lower 12 fifth.toNat)))

/-- The mask of the last group keeps 48 bits. -/
theorem getLsbD_mask (i : Nat) : (0xFFFFFFFFFFFF#64).getLsbD i = decide (i < 48) := by
  have hones : 0xFFFFFFFFFFFF#64 = BitVec.ofNat 64 (2 ^ 48 - 1) := rfl
  rw [hones, BitVec.getLsbD_ofNat, Nat.testBit_two_pow_sub_one, ← Bool.decide_and]
  exact decide_eq_decide.mpr (by omega)

/-- A group shifted back to its place has the bits it was cut out with. -/
theorem getLsbD_group (u : BitVec 128) {k w : Nat} (i : Nat) (hkw : k + w ≤ 128) :
    (BitVec.ofNat 128 ((u >>> k).setWidth w).toNat <<< k).getLsbD i =
      (decide (k ≤ i ∧ i < k + w) && u.getLsbD i) := by
  rw [BitVec.ofNat_toNat, BitVec.getLsbD_shiftLeft, BitVec.getLsbD_setWidth,
    BitVec.getLsbD_setWidth, BitVec.getLsbD_ushiftRight]
  by_cases hk : k ≤ i
  · rw [Nat.add_sub_cancel' hk]
    by_cases hw : i < k + w
    · have h128 : i < 128 := by omega
      have hsub : i - k < w := by omega
      have hsub' : i - k < 128 := by omega
      simp [hk, hw, h128, hsub, hsub']
    · have hsub : ¬i - k < w := by omega
      simp [hw, hsub]
  · have hlt : i < k := by omega
    simp [hk, hlt]

/-- The five groups cover the number. -/
theorem join_groups (u : BitVec 128) :
    BitVec.ofNat 128 ((u >>> 96).setWidth 32).toNat <<< 96 |||
      BitVec.ofNat 128 ((u >>> 80).setWidth 16).toNat <<< 80 |||
      BitVec.ofNat 128 ((u >>> 64).setWidth 16).toNat <<< 64 |||
      BitVec.ofNat 128 ((u >>> 48).setWidth 16).toNat <<< 48 |||
      BitVec.ofNat 128 (u.setWidth 64 &&& 0xFFFFFFFFFFFF#64).toNat = u := by
  apply BitVec.eq_of_getLsbD_eq
  intro i hi
  rw [BitVec.getLsbD_or, BitVec.getLsbD_or, BitVec.getLsbD_or, BitVec.getLsbD_or,
    getLsbD_group u i (by decide), getLsbD_group u i (by decide), getLsbD_group u i (by decide),
    getLsbD_group u i (by decide), BitVec.ofNat_toNat, BitVec.getLsbD_setWidth,
    BitVec.getLsbD_and, BitVec.getLsbD_setWidth, getLsbD_mask]
  cases u.getLsbD i with
  | false => simp
  | true =>
      simp
      omega

theorem toNat_mask_lt (u : BitVec 64) : (u &&& 0xFFFFFFFFFFFF#64).toNat < 2 ^ 48 := by
  rw [BitVec.toNat_and]
  exact Nat.and_lt_two_pow _ (by decide)

/-- Five texts of the right lengths, joined by dashes, are read group by group. -/
theorem fromStr_join {a b c d e : List Char} {n1 n2 n3 n4 n5 : Nat}
    (ha : a.length = 8) (hb : b.length = 4) (hc : c.length = 4) (hd : d.length = 4)
    (la : Text.utf8Len a = 8) (lb : Text.utf8Len b = 4) (lc : Text.utf8Len c = 4)
    (ld : Text.utf8Len d = 4) (le : Text.utf8Len e = 12)
    (ra : Text.fromStrRadix16 128 a = some n1) (rb : Text.fromStrRadix16 128 b = some n2)
    (rc : Text.fromStrRadix16 128 c = some n3) (rd : Text.fromStrRadix16 128 d = some n4)
    (re : Text.fromStrRadix16 128 e = some n5) :
    fromStr (a ++ '-' :: (b ++ '-' :: (c ++ '-' :: (d ++ '-' :: e)))) =
      pure ⟨BitVec.ofNat 128 n1 <<< 96 ||| BitVec.ofNat 128 n2 <<< 80 |||
        BitVec.ofNat 128 n3 <<< 64 ||| BitVec.ofNat 128 n4 <<< 48 ||| BitVec.ofNat 128 n5⟩ := by
  have hdash : Char.utf8Size '-' = 1 := rfl
  have hlen : Text.utf8Len (a ++ '-' :: (b ++ '-' :: (c ++ '-' :: (d ++ '-' :: e)))) = 36 := by
    simp only [Text.utf8Len_append, Text.utf8Len_cons, la, lb, lc, ld, le, hdash]
  have checks : checkDelimiters 3 (b ++ '-' :: (c ++ '-' :: (d ++ '-' :: e))) = pure () := by
    simp only [checkDelimiters, Parse.nthUnwrap_append '-' hb, Parse.nthUnwrap_append '-' hc,
      Parse.nthUnwrap_append '-' hd, pure_bind, ne_eq, not_true_eq_false, ↓reduceIte]
  -- Each field is reached by skipping the groups before it.
  have skipA {s : List Char} {i j : Nat} : Parse.field 128 (a ++ '-' :: s) (9 + i) (9 + j) =
      Parse.field 128 s i j := Parse.field_skip hdash (by omega) (by omega)
  have skipB {s : List Char} {i j : Nat} : Parse.field 128 (b ++ '-' :: s) (5 + i) (5 + j) =
      Parse.field 128 s i j := Parse.field_skip hdash (by omega) (by omega)
  have skipC {s : List Char} {i j : Nat} : Parse.field 128 (c ++ '-' :: s) (5 + i) (5 + j) =
      Parse.field 128 s i j := Parse.field_skip hdash (by omega) (by omega)
  have skipD {s : List Char} {i j : Nat} : Parse.field 128 (d ++ '-' :: s) (5 + i) (5 + j) =
      Parse.field 128 s i j := Parse.field_skip hdash (by omega) (by omega)
  have first := Parse.field_head ('-' :: (b ++ '-' :: (c ++ '-' :: (d ++ '-' :: e)))) ra la
  have second := skipA.trans (Parse.field_head ('-' :: (c ++ '-' :: (d ++ '-' :: e))) rb lb)
  have third := skipA.trans (skipB.trans (Parse.field_head ('-' :: (d ++ '-' :: e)) rc lc))
  have fourth := skipA.trans (skipB.trans (skipC.trans (Parse.field_head ('-' :: e) rd ld)))
  have fifth := skipA.trans (skipB.trans (skipC.trans (skipD.trans (Parse.field_head [] re le))))
  rw [List.append_nil] at fifth
  simp only [fromStr, hlen, Parse.nthUnwrap_append '-' ha, checks, first, second, third, fourth,
    fifth, pure_bind, ne_eq, not_true_eq_false, ↓reduceIte]

/-- **Text round trip**: what is printed parses to the UUID it was printed from. -/
theorem fromStr_toChars (u : UUID) : fromStr u.toChars = pure u := by
  have h1 := ((u.val >>> 96).setWidth 32).isLt
  have h2 := ((u.val >>> 80).setWidth 16).isLt
  have h3 := ((u.val >>> 64).setWidth 16).isLt
  have h4 := ((u.val >>> 48).setWidth 16).isLt
  have h5 := toNat_mask_lt (u.val.setWidth 64)
  have length {w n : Nat} (h : n < 16 ^ w) : (Text.hex .lower w n).length = w := Text.length_hex h
  have utf8Len {w n : Nat} (h : n < 16 ^ w) : Text.utf8Len (Text.hex .lower w n) = w :=
    Text.utf8Len_hex h
  have radix {w n : Nat} (hw : 0 < w) (hle : w ≤ 32) (h : n < 16 ^ w) :
      Text.fromStrRadix16 128 (Text.hex .lower w n) = some n :=
    Text.fromStrRadix16_hex hw h (h.trans_le (by
      rw [show 2 ^ 128 = 16 ^ 32 by decide]
      exact Nat.pow_le_pow_right (by decide) hle))
  rw [toChars, fromStr_join (length h1) (length h2) (length h3) (length h4) (utf8Len h1)
    (utf8Len h2) (utf8Len h3) (utf8Len h4) (utf8Len h5) (radix (by decide) (by decide) h1)
    (radix (by decide) (by decide) h2) (radix (by decide) (by decide) h3)
    (radix (by decide) (by decide) h4) (radix (by decide) (by decide) h5), join_groups]

end UUID

namespace MAC

/-- `u32::from_be_bytes` and `u16::from_be_bytes`. -/
def fromBeBytes (bytes : List Nat) : Nat := bytes.foldl (fun n byte ↦ n * 256 + byte) 0

/-- `u32::to_be_bytes` and `u16::to_be_bytes`, one byte of it. -/
def beByte (n place : Nat) : Nat := n / 256 ^ place % 256

/-- `iter.step_by(3)` -/
def stepBy3 : List Char → List Char
  | [] => []
  | c :: cs => c :: match cs with
    | _ :: _ :: cs => stepBy3 cs
    | _ => []

/-- `MAC::from_str` -/
def fromStr (s : List Char) : Parse MAC := do
  if Text.utf8Len s ≠ 17 then throw .invalidLength
  if (stepBy3 (s.drop 2)).any (· ≠ ':') then throw .invalidDelimiter
  let a ← Parse.field 8 s 0 2
  let b ← Parse.field 8 s 3 5
  let c ← Parse.field 8 s 6 8
  let d ← Parse.field 8 s 9 11
  let e ← Parse.field 8 s 12 14
  let f ← Parse.field 8 s 15 17
  return ⟨BitVec.ofNat 32 (fromBeBytes [a, b, c, d]), BitVec.ofNat 16 (fromBeBytes [e, f])⟩

/-- One octet of the text forms. -/
def octet (n place : Nat) : List Char := Text.hex .upper 2 (beByte n place)

/-- `Display for MAC` -/
def toChars (m : MAC) : List Char :=
  let m0 := m.firstFour.toNat
  let m1 := m.lastTwo.toNat
  octet m0 3 ++ ':' :: (octet m0 2 ++ ':' :: (octet m0 1 ++ ':' :: (octet m0 0 ++
    ':' :: (octet m1 1 ++ ':' :: octet m1 0))))

theorem beByte_lt (n place : Nat) : beByte n place < 256 := Nat.mod_lt _ (by decide)

theorem length_octet (n place : Nat) : (octet n place).length = 2 :=
  Text.length_hex (beByte_lt n place)

theorem utf8Len_octet (n place : Nat) : Text.utf8Len (octet n place) = 2 :=
  Text.utf8Len_hex (beByte_lt n place)

theorem fromStrRadix16_octet (n place : Nat) :
    Text.fromStrRadix16 8 (octet n place) = some (beByte n place) :=
  Text.fromStrRadix16_hex (by decide) (beByte_lt n place) (beByte_lt n place)

/-- Past the first octet the delimiters are at the same places. -/
theorem stepBy3_octet (n place : Nat) (cs : List Char) :
    stepBy3 (':' :: (octet n place ++ cs)) = ':' :: stepBy3 cs := by
  obtain ⟨x, y, hxy⟩ := List.length_eq_two.mp (length_octet n place)
  rw [hxy]
  rfl

theorem ofNat_fromBeBytes_four (n : BitVec 32) :
    BitVec.ofNat 32 (fromBeBytes [beByte n.toNat 3, beByte n.toNat 2, beByte n.toNat 1,
      beByte n.toNat 0]) = n := by
  apply BitVec.eq_of_toNat_eq
  have hlt := n.isLt
  simp only [fromBeBytes, beByte, List.foldl, BitVec.toNat_ofNat]
  omega

theorem ofNat_fromBeBytes_two (n : BitVec 16) :
    BitVec.ofNat 16 (fromBeBytes [beByte n.toNat 1, beByte n.toNat 0]) = n := by
  apply BitVec.eq_of_toNat_eq
  have hlt := n.isLt
  simp only [fromBeBytes, beByte, List.foldl, BitVec.toNat_ofNat]
  omega

theorem utf8Len_toChars (m : MAC) : Text.utf8Len m.toChars = 17 := by
  have hcolon : Char.utf8Size ':' = 1 := rfl
  simp only [toChars, Text.utf8Len_append, Text.utf8Len_cons, utf8Len_octet, hcolon]

theorem delimiters_toChars (m : MAC) : (stepBy3 (m.toChars.drop 2)).any (· ≠ ':') = false := by
  rw [toChars, List.drop_left' (length_octet _ _)]
  simp only [stepBy3_octet]
  -- Nothing follows the last octet, which the iterator steps over.
  obtain ⟨x, y, hxy⟩ := List.length_eq_two.mp (length_octet m.lastTwo.toNat 0)
  rw [hxy]
  simp [stepBy3]

/-- The octet in front is read, -/
theorem field_octet (n place : Nat) (s : List Char) :
    Parse.field 8 (octet n place ++ s) 0 2 = pure (beByte n place) :=
  Parse.field_head s (fromStrRadix16_octet n place) (utf8Len_octet n place)

/-- and the fields behind it are those of the rest of the text. -/
theorem field_octet_skip (n place : Nat) (s : List Char) (i j : Nat) :
    Parse.field 8 (octet n place ++ ':' :: s) (3 + i) (3 + j) = Parse.field 8 s i j :=
  Parse.field_skip rfl (by rw [utf8Len_octet]) (by rw [utf8Len_octet])

/-- **Text round trip**: what is printed parses to the address it was printed from. -/
theorem fromStr_toChars (m : MAC) : fromStr m.toChars = pure m := by
  obtain ⟨hi, lo⟩ := m
  have skip {n place : Nat} {s : List Char} {i j : Nat} := field_octet_skip n place s i j
  have here {n place : Nat} {s : List Char} := field_octet n place s
  have last : Parse.field 8 (octet lo.toNat 0) 0 2 = pure (beByte lo.toNat 0) := by
    simpa using field_octet lo.toNat 0 []
  have a : Parse.field 8 (toChars ⟨hi, lo⟩) 0 2 = pure (beByte hi.toNat 3) := here
  have b : Parse.field 8 (toChars ⟨hi, lo⟩) 3 5 = pure (beByte hi.toNat 2) := skip.trans here
  have c : Parse.field 8 (toChars ⟨hi, lo⟩) 6 8 = pure (beByte hi.toNat 1) :=
    skip.trans (skip.trans here)
  have d : Parse.field 8 (toChars ⟨hi, lo⟩) 9 11 = pure (beByte hi.toNat 0) :=
    skip.trans (skip.trans (skip.trans here))
  have e : Parse.field 8 (toChars ⟨hi, lo⟩) 12 14 = pure (beByte lo.toNat 1) :=
    skip.trans (skip.trans (skip.trans (skip.trans here)))
  have f : Parse.field 8 (toChars ⟨hi, lo⟩) 15 17 = pure (beByte lo.toNat 0) :=
    skip.trans (skip.trans (skip.trans (skip.trans (skip.trans last))))
  simp only [fromStr, utf8Len_toChars, delimiters_toChars, a, b, c, d, e, f, pure_bind,
    ofNat_fromBeBytes_four, ofNat_fromBeBytes_two, ne_eq, not_true_eq_false, Bool.false_eq_true,
    ↓reduceIte]

end MAC

end Rustable
