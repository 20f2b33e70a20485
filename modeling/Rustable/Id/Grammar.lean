import Rustable.Id.Panics
import Rustable.Lib.Fields

/-!
# Which texts are UUIDs and addresses

`UUID::from_str` and `MAC::from_str` check the length, the delimiters and each field on
its own, the fields by `from_str_radix`.  That accepts a plus sign in front of the digits,
so that a text with a `+` in place of the first digit of a field is a UUID or an address
as well.

## Main results

* `UUID.isOk_fromStr_iff`, `MAC.isOk_fromStr_iff`: the ASCII texts that are accepted
* `UUID.toChars_of_fromStr`, `MAC.toChars_of_fromStr`: what is printed of a text without
  plus signs
* `parsesExactly_iff`: on which texts the parsers keep to the grammar
-/

namespace Rustable

open Text (IsHex IsNumber IsFields joinFields)

namespace Parse

variable {α β : Type} {x : Parse α} {f : α → Parse β} {bits n start stop : Nat} {s : List Char}

/-- A sequence succeeds if both of its parts do. -/
theorem bind_eq_pure_iff {b : β} : (x >>= f) = pure b ↔ ∃ a, x = pure a ∧ f a = pure b := by
  constructor
  · intro h
    rcases x with _ | _ | a
    · contradiction
    · exact nomatch Option.some.inj h
    · exact ⟨a, rfl, h⟩
  · rintro ⟨a, rfl, h⟩
    rw [pure_bind, h]

theorem pure_inj {a b : α} : (pure a : Parse α) = pure b ↔ a = b :=
  ⟨fun h ↦ Except.ok.inj (Option.some.inj h), fun h ↦ h ▸ rfl⟩

theorem throw_ne_pure {e : IDParseError} {a : α} : (throw e : Parse α) ≠ pure a :=
  fun h ↦ nomatch Option.some.inj h

theorem nthUnwrap_bind_eq_pure_iff {cs : List Char} {f : Char × List Char → Parse β} {b : β} :
    (nthUnwrap cs n >>= f) = pure b ↔
      ∃ c, cs[n]? = some c ∧ f (c, cs.drop (n + 1)) = pure b := by
  rw [nthUnwrap, ← List.head?_drop, ← List.tail_drop]
  cases cs.drop n with
  | nil => exact iff_of_false (fun h ↦ by contradiction) (by simp)
  | cons c rest => simp

theorem field_eq_pure_iff : field bits s start stop = pure n ↔ Reads bits s start stop n := by
  rw [field, Reads]
  cases Text.slice s start stop with
  | none =>
      refine iff_of_false (fun h ↦ ?_) (by simp)
      contradiction
  | some digits =>
      dsimp only [Option.bind_some]
      cases Text.fromStrRadix16 bits digits with
      | none => exact iff_of_false throw_ne_pure (by simp)
      | some m => exact pure_inj.trans (by simp)

/-- A field of an ASCII text that fits is read if it is a number. -/
theorem exists_reads_iff (hs : ∀ c ∈ s, c.utf8Size = 1) (hle : start ≤ stop)
    (hstop : stop ≤ s.length) (hbits : 4 * (stop - start) ≤ bits) :
    (∃ n, Reads bits s start stop n) ↔ IsNumber ((s.drop start).take (stop - start)) := by
  have hlen : 4 * ((s.drop start).take (stop - start)).length ≤ bits := by
    rw [List.length_take, List.length_drop]
    omega
  rw [← Text.isSome_fromStrRadix16_iff hlen, Option.isSome_iff_exists]
  simp only [Reads, Text.slice_of_ascii hs hle hstop, Option.bind_some]

end Parse

/-! ## UUIDs -/

namespace UUID

open Parse

variable {s : List Char}

/-- The widths of the groups. -/
def widths : List Nat := [8, 4, 4, 4, 12]

/-- The text form of UUIDs: five groups of digits of either case, joined by dashes. -/
def IsText (s : List Char) : Prop := IsFields '-' IsHex widths s

/-- Five numbers of the right widths, joined by dashes: any of them may have a plus sign in
place of its first digit. -/
def IsLaxText (s : List Char) : Prop := IsFields '-' IsNumber widths s

theorem isText_iff : IsText s ↔ IsLaxText s ∧ '+' ∉ s :=
  Text.isFields_isHex_iff (by decide) (by decide)

theorem checkDelimiters_eq_pure_iff (n : Nat) (cs : List Char) :
    checkDelimiters n cs = pure () ↔ ∀ k < n, cs[5 * k + 4]? = some '-' := by
  induction n generalizing cs with
  | zero => simp [checkDelimiters]
  | succ n ih =>
      have hsucc (j : Nat) : 5 * (j + 1) + 4 = 5 + (5 * j + 4) := by omega
      have hdrop (j : Nat) : cs[5 * (j + 1) + 4]? = (cs.drop 5)[5 * j + 4]? := by
        rw [hsucc, List.getElem?_drop]
      simp only [checkDelimiters, nthUnwrap_bind_eq_pure_iff, Nat.forall_lt_succ_left, hdrop, ← ih]
      constructor
      · rintro ⟨c, hc, h⟩
        by_cases hdash : c = '-'
        · subst hdash
          exact ⟨hc, by simpa using h⟩
        · rw [if_pos hdash] at h
          exact absurd h throw_ne_pure
      · rintro ⟨hc, h⟩
        exact ⟨'-', hc, by simpa using h⟩

/-- When `from_str` succeeds: the checks, one by one. -/
theorem fromStr_eq_pure_iff {u : UUID} : fromStr s = pure u ↔ Text.utf8Len s = 36 ∧
    (∀ k < 4, s[5 * k + 8]? = some '-') ∧ readGroups s = pure u := by
  by_cases hlen : Text.utf8Len s = 36
  · have hchar (k : Nat) : (s.drop 4)[5 * k + 4]? = s[5 * k + 8]? := by
      rw [List.getElem?_drop]
      congr 1
      omega
    rw [fromStr_eq hlen, bind_eq_pure_iff, and_iff_right hlen]
    simp only [← hchar, ← checkDelimiters_eq_pure_iff]
    exact ⟨fun ⟨_, hchecks, hread⟩ ↦ ⟨hchecks, hread⟩, fun h ↦ ⟨(), h⟩⟩
  · simp [fromStr, hlen, throw_ne_pure]

theorem exists_readGroups_iff :
    (∃ u, readGroups s = pure u) ↔ ∀ p ∈ groups, ∃ n, Reads 128 s p.1 p.2 n := by
  simp only [readGroups, bind_eq_pure_iff, field_eq_pure_iff, pure_inj, groups,
    List.forall_mem_cons]
  constructor
  · rintro ⟨u, first, h1, second, h2, third, h3, fourth, h4, fifth, h5, -⟩
    exact ⟨⟨first, h1⟩, ⟨second, h2⟩, ⟨third, h3⟩, ⟨fourth, h4⟩, ⟨fifth, h5⟩, by simp⟩
  · rintro ⟨⟨first, h1⟩, ⟨second, h2⟩, ⟨third, h3⟩, ⟨fourth, h4⟩, ⟨fifth, h5⟩, -⟩
    exact ⟨_, first, h1, second, h2, third, h3, fourth, h4, fifth, h5, rfl⟩

/-- The grammar by positions, as the parser checks it. -/
theorem isFields_widths_iff {P : List Char → Prop} : IsFields '-' P widths s ↔
    s.length = 36 ∧ (∀ k < 4, s[5 * k + 8]? = some '-') ∧
      ∀ p ∈ groups, P ((s.drop p.1).take (p.2 - p.1)) := by
  have hlast (hlen : s.length = 36) : (s.drop 24).take 12 = s.drop 24 := by
    apply List.take_of_length_le
    rw [List.length_drop, hlen]
  simp only [IsFields, widths, groups, List.drop_drop, List.getElem?_drop, List.length_drop,
    Nat.forall_lt_succ_left, List.forall_mem_cons, List.drop_zero]
  constructor
  · rintro ⟨⟨h1, p1⟩, ⟨h2, p2⟩, ⟨h3, p3⟩, ⟨h4, p4⟩, hlen, p5⟩
    have hlt := (List.getElem?_eq_some_iff.mp h4).1
    have hlen : s.length = 36 := by omega
    exact ⟨hlen, ⟨h1, h2, h3, h4, by simp⟩, p1, p2, p3, p4, (hlast hlen).symm ▸ p5, by simp⟩
  · rintro ⟨hlen, ⟨h1, h2, h3, h4, -⟩, p1, p2, p3, p4, p5, -⟩
    exact ⟨⟨h1, p1⟩, ⟨h2, p2⟩, ⟨h3, p3⟩, ⟨h4, p4⟩, by rw [hlen], hlast hlen ▸ p5⟩

/-- **The texts that are accepted.** -/
theorem isOk_fromStr_iff (hs : ∀ c ∈ s, c.utf8Size = 1) :
    (∃ u, fromStr s = pure u) ↔ IsLaxText s := by
  simp only [fromStr_eq_pure_iff, exists_and_left, exists_readGroups_iff,
    Text.utf8Len_eq_length hs, IsLaxText, isFields_widths_iff]
  refine and_congr_right fun hlen ↦ and_congr_right fun _ ↦ forall₂_congr fun p hp ↦ ?_
  have hbounds : ∀ p ∈ groups, p.1 ≤ p.2 ∧ p.2 ≤ 36 ∧ 4 * (p.2 - p.1) ≤ 128 := by decide
  obtain ⟨hle, hstop, hbits⟩ := hbounds p hp
  exact exists_reads_iff hs hle (hlen ▸ hstop) hbits

/-- Five groups of digits are read as their numbers. -/
theorem fromStr_of_parseHex {a b c d e : List Char} {n1 n2 n3 n4 n5 : Nat}
    (ha : a.length = 8) (hb : b.length = 4) (hc : c.length = 4) (hd : d.length = 4)
    (he : e.length = 12) (pa : Text.parseHex a = some n1) (pb : Text.parseHex b = some n2)
    (pc : Text.parseHex c = some n3) (pd : Text.parseHex d = some n4)
    (pe : Text.parseHex e = some n5) : fromStr (joinFields '-' [a, b, c, d, e]) =
      pure ⟨BitVec.ofNat 128 n1 <<< 96 ||| BitVec.ofNat 128 n2 <<< 80 |||
        BitVec.ofNat 128 n3 <<< 64 ||| BitVec.ofNat 128 n4 <<< 48 ||| BitVec.ofNat 128 n5⟩ := by
  have utf8Len {g : List Char} {w n : Nat} (hg : g.length = w) (pg : Text.parseHex g = some n) :
      Text.utf8Len g = w := by
    have hhex : IsHex g := Text.isSome_parseHex_iff.mp (by rw [pg]; rfl)
    rw [← hg, Text.utf8Len_eq_length fun c hc ↦ Text.utf8Size_of_isHexDigit (hhex c hc)]
  have radix {g : List Char} {w n : Nat} (hg : g.length = w) (hw : 0 < w ∧ 4 * w ≤ 128)
      (pg : Text.parseHex g = some n) : Text.fromStrRadix16 128 g = some n :=
    Text.fromStrRadix16_of_parseHex (List.ne_nil_of_length_pos (hg ▸ hw.1)) pg (hg ▸ hw.2)
  simp only [Text.joinFields_cons_cons, Text.joinFields_singleton]
  exact fromStr_join ha hb hc hd (utf8Len ha pa) (utf8Len hb pb) (utf8Len hc pc) (utf8Len hd pd)
    (utf8Len he pe) (radix ha (by decide) pa) (radix hb (by decide) pb) (radix hc (by decide) pc)
    (radix hd (by decide) pd) (radix he (by decide) pe)

/-- The UUID with the given groups is printed as them. -/
theorem toChars_ofNat {n1 n2 n3 n4 n5 : Nat} (h1 : n1 < 16 ^ 8) (h2 : n2 < 16 ^ 4)
    (h3 : n3 < 16 ^ 4) (h4 : n4 < 16 ^ 4) (h5 : n5 < 16 ^ 12) :
    toChars ⟨BitVec.ofNat 128 (n1 * 2 ^ 96 + n2 * 2 ^ 80 + n3 * 2 ^ 64 + n4 * 2 ^ 48 + n5)⟩ =
      joinFields '-' [Text.hex .lower 8 n1, Text.hex .lower 4 n2, Text.hex .lower 4 n3,
        Text.hex .lower 4 n4, Text.hex .lower 12 n5] := by
  have hmask : (0xFFFFFFFFFFFF#64).toNat = 2 ^ 48 - 1 := rfl
  simp only [toChars, Text.joinFields_cons_cons, Text.joinFields_singleton, BitVec.toNat_setWidth,
    BitVec.toNat_ushiftRight, BitVec.toNat_and, BitVec.toNat_ofNat, hmask,
    Nat.and_two_pow_sub_one_eq_mod, Nat.shiftRight_eq_div_pow]
  congr <;> omega

/-- **What is printed of a text without plus signs**: the text, in lower case. -/
theorem toChars_of_fromStr {u : UUID} (h : IsText s) (hu : fromStr s = pure u) :
    u.toChars = s.map Char.toLower := by
  obtain ⟨gs, hlen, hhex, rfl⟩ := Text.isFields_iff.mp h
  obtain ⟨a, b, c, d, e, rfl, ha, hb, hc, hd, he⟩ : ∃ a b c d e, gs = [a, b, c, d, e] ∧
      a.length = 8 ∧ b.length = 4 ∧ c.length = 4 ∧ d.length = 4 ∧ e.length = 12 := by
    simpa [widths, List.map_eq_cons_iff] using hlen
  have parse {g : List Char} {w : Nat} (hg : g ∈ [a, b, c, d, e]) (hw : g.length = w) :
      ∃ n, Text.parseHex g = some n ∧ n < 16 ^ w ∧ Text.hex .lower w n = g.map Char.toLower := by
    obtain ⟨n, hn⟩ := Option.isSome_iff_exists.mp (Text.isSome_parseHex_iff.mpr (hhex g hg))
    subst hw
    exact ⟨n, hn, Text.hex_of_parseHex hn⟩
  obtain ⟨n1, p1, h1, e1⟩ := parse (by simp) ha
  obtain ⟨n2, p2, h2, e2⟩ := parse (by simp) hb
  obtain ⟨n3, p3, h3, e3⟩ := parse (by simp) hc
  obtain ⟨n4, p4, h4, e4⟩ := parse (by simp) hd
  obtain ⟨n5, p5, h5, e5⟩ := parse (by simp) he
  -- The text in lower case is that of the UUID with these groups, and is read alike.
  have hprint := toChars_ofNat h1 h2 h3 h4 h5
  have hback := fromStr_toChars
    ⟨BitVec.ofNat 128 (n1 * 2 ^ 96 + n2 * 2 ^ 80 + n3 * 2 ^ 64 + n4 * 2 ^ 48 + n5)⟩
  rw [hprint, fromStr_of_parseHex (Text.length_hex h1) (Text.length_hex h2) (Text.length_hex h3)
    (Text.length_hex h4) (Text.length_hex h5) Text.parseHex_hex Text.parseHex_hex
    Text.parseHex_hex Text.parseHex_hex Text.parseHex_hex, ← fromStr_of_parseHex ha hb hc hd he p1
    p2 p3 p4 p5, hu, pure_inj] at hback
  rw [hback, hprint, Text.map_joinFields, e1, e2, e3, e4, e5]
  rfl

end UUID

/-! ## MAC addresses -/

namespace MAC

open Parse

variable {s : List Char}

/-- The widths of the octets. -/
def widths : List Nat := List.replicate 6 2

/-- The text form of addresses: six pairs of digits of either case, joined by colons. -/
def IsText (s : List Char) : Prop := IsFields ':' IsHex widths s

/-- Six numbers of two characters, joined by colons: any of them may have a plus sign in place
of its first digit. -/
def IsLaxText (s : List Char) : Prop := IsFields ':' IsNumber widths s

theorem isText_iff : IsText s ↔ IsLaxText s ∧ '+' ∉ s :=
  Text.isFields_isHex_iff (by decide) (by decide)

/-- The address with the given octets. -/
def ofBytes (bytes : List Nat) : MAC :=
  ⟨BitVec.ofNat 32 (fromBeBytes (bytes.take 4)), BitVec.ofNat 16 (fromBeBytes (bytes.drop 4))⟩

/-- The octets of an address. -/
def bytes (m : MAC) : List Nat :=
  [beByte m.firstFour.toNat 3, beByte m.firstFour.toNat 2, beByte m.firstFour.toNat 1,
    beByte m.firstFour.toNat 0, beByte m.lastTwo.toNat 1, beByte m.lastTwo.toNat 0]

/-- The octets in a text, if all of them are numbers. -/
def readBytes (s : List Char) : Option (List Nat) :=
  octets.mapM fun p ↦ (Text.slice s p.1 p.2).bind (Text.fromStrRadix16 8)

/-- When `from_str` succeeds: the checks, one by one. -/
theorem fromStr_eq_pure_iff {m : MAC} : fromStr s = pure m ↔ Text.utf8Len s = 17 ∧
    (∀ k c, s[3 * k + 2]? = some c → c = ':') ∧ (readBytes s).map ofBytes = some m := by
  rw [← delimiters_iff, fromStr]
  by_cases hlen : Text.utf8Len s = 17
  · cases hdelim : (stepBy3 (s.drop 2)).any (· ≠ ':') with
    | true => simp [hlen, throw_ne_pure]
    | false =>
        simp only [hlen, ne_eq, not_true_eq_false, Bool.false_eq_true, ↓reduceIte, true_and,
          bind_eq_pure_iff, field_eq_pure_iff, pure_inj, Reads, readBytes, octets, List.mapM_cons,
          List.mapM_nil, Option.bind_eq_bind, Option.bind_eq_some_iff, Option.map_eq_some_iff,
          Option.pure_def, Option.some.injEq]
        constructor
        · rintro ⟨a, ha, b, hb, c, hc, d, hd, e, he, f, hf, rfl⟩
          exact ⟨[a, b, c, d, e, f], ⟨a, ha, _, ⟨b, hb, _, ⟨c, hc, _, ⟨d, hd, _, ⟨e, he, _,
            ⟨f, hf, _, rfl, rfl⟩, rfl⟩, rfl⟩, rfl⟩, rfl⟩, rfl⟩, rfl⟩
        · rintro ⟨_, ⟨a, ha, _, ⟨b, hb, _, ⟨c, hc, _, ⟨d, hd, _, ⟨e, he, _,
            ⟨f, hf, _, rfl, rfl⟩, rfl⟩, rfl⟩, rfl⟩, rfl⟩, rfl⟩, rfl⟩
          exact ⟨a, ha, b, hb, c, hc, d, hd, e, he, f, hf, rfl⟩
  · refine iff_of_false (fun h ↦ ?_) fun h ↦ hlen h.1
    rw [if_pos hlen] at h
    exact throw_ne_pure h

/-- The grammar by positions, as the parser checks it. -/
theorem isFields_widths_iff {sep : Char} {P : List Char → Prop} : IsFields sep P widths s ↔
    s.length = 17 ∧ (∀ k c, s[3 * k + 2]? = some c → c = sep) ∧
      ∀ p ∈ octets, P ((s.drop p.1).take (p.2 - p.1)) := by
  have hlast (hlen : s.length = 17) : (s.drop 15).take 2 = s.drop 15 := by
    apply List.take_of_length_le
    rw [List.length_drop, hlen]
  have hwidths : widths = [2, 2, 2, 2, 2, 2] := rfl
  simp only [IsFields, hwidths, octets, List.drop_drop, List.getElem?_drop, List.length_drop,
    List.forall_mem_cons, List.drop_zero]
  constructor
  · rintro ⟨⟨h1, p1⟩, ⟨h2, p2⟩, ⟨h3, p3⟩, ⟨h4, p4⟩, ⟨h5, p5⟩, hlen, p6⟩
    have hlt := (List.getElem?_eq_some_iff.mp h5).1
    have hlen : s.length = 17 := by omega
    refine ⟨hlen, fun k c hc ↦ ?_, p1, p2, p3, p4, p5, (hlast hlen).symm ▸ p6, by simp⟩
    have hk : k < 5 := by
      have hlt := (List.getElem?_eq_some_iff.mp hc).1
      omega
    interval_cases k
    · exact Option.some.inj (hc.symm.trans h1)
    · exact Option.some.inj (hc.symm.trans h2)
    · exact Option.some.inj (hc.symm.trans h3)
    · exact Option.some.inj (hc.symm.trans h4)
    · exact Option.some.inj (hc.symm.trans h5)
  · rintro ⟨hlen, hsep, p1, p2, p3, p4, p5, p6, -⟩
    have delim {k : Nat} (hk : 3 * k + 2 < 17) : s[3 * k + 2]? = some sep := by
      obtain ⟨c, hc⟩ : ∃ c, s[3 * k + 2]? = some c := ⟨_, List.getElem?_eq_getElem (hlen ▸ hk)⟩
      rw [hc, hsep k c hc]
    exact ⟨⟨delim (k := 0) (by decide), p1⟩, ⟨delim (k := 1) (by decide), p2⟩,
      ⟨delim (k := 2) (by decide), p3⟩, ⟨delim (k := 3) (by decide), p4⟩,
      ⟨delim (k := 4) (by decide), p5⟩, by rw [hlen], hlast hlen ▸ p6⟩

/-- **The texts that are accepted.** -/
theorem isOk_fromStr_iff (hs : ∀ c ∈ s, c.utf8Size = 1) :
    (∃ m, fromStr s = pure m) ↔ IsLaxText s := by
  have hread : (∃ m, (readBytes s).map ofBytes = some m) ↔
      ∀ p ∈ octets, ∃ n, Reads 8 s p.1 p.2 n := by
    rw [← Option.isSome_iff_exists, Option.isSome_map, readBytes, isSome_mapM_iff]
    simp only [Option.isSome_iff_exists, Reads]
  simp only [fromStr_eq_pure_iff, IsLaxText, isFields_widths_iff, Text.utf8Len_eq_length hs,
    exists_and_left, hread]
  refine and_congr_right fun hlen ↦ and_congr_right fun _ ↦ forall₂_congr fun p hp ↦ ?_
  have hbounds : ∀ p ∈ octets, p.1 ≤ p.2 ∧ p.2 ≤ 17 ∧ 4 * (p.2 - p.1) ≤ 8 := by decide
  obtain ⟨hle, hstop, hbits⟩ := hbounds p hp
  exact exists_reads_iff hs hle (hlen ▸ hstop) hbits

theorem bytes_ofBytes {ns : List Nat} (hlen : ns.length = 6) (hlt : ∀ n ∈ ns, n < 16 ^ 2) :
    (ofBytes ns).bytes = ns := by
  obtain ⟨a, b, c, d, e, f, rfl⟩ : ∃ a b c d e f, [a, b, c, d, e, f] = ns := by
    simpa [List.length_eq_succ_iff] using hlen
  simp only [List.forall_mem_cons] at hlt
  obtain ⟨ha, hb, hc, hd, he, hf, -⟩ := hlt
  simp only [bytes, ofBytes, beByte, fromBeBytes, List.take_succ_cons, List.take_zero,
    List.drop_succ_cons, List.drop_zero, List.foldl_cons, List.foldl_nil, BitVec.toNat_ofNat]
  congr <;> omega

/-- The text form, octet by octet. -/
theorem toChars_eq (m : MAC) : m.toChars = joinFields ':' (m.bytes.map (Text.hex .upper 2)) := by
  simp [toChars, bytes, octet, Text.joinFields_cons_cons]

/-- Six texts of two characters are read one by one. -/
theorem readBytes_joinFields {sep : Char} {gs : List (List Char)} (hlen : gs.length = 6)
    (hgs : ∀ g ∈ gs, Text.utf8Len g = 2) (hsep : sep.utf8Size = 1) :
    readBytes (joinFields sep gs) = gs.mapM (Text.fromStrRadix16 8) := by
  have slice {i : Nat} (hi : i < gs.length) :
      Text.slice (joinFields sep gs) (i * 3) (i * 3 + 2) = some gs[i] :=
    Text.slice_joinFields hgs hsep (List.getElem?_eq_getElem hi)
  have hoctets : octets = (List.finRange gs.length).map fun i ↦ (i.1 * 3, i.1 * 3 + 2) := by
    rw [hlen]
    rfl
  rw [readBytes, hoctets, List.mapM_map]
  conv_rhs => rw [← List.map_getElem_finRange gs, List.mapM_map]
  refine congrArg (List.mapM · (List.finRange gs.length)) (funext fun i ↦ ?_)
  rw [Function.comp_apply, slice i.2]
  rfl

/-- Pairs of digits are read and written back, whatever is between them. -/
theorem exists_readBytes {sep : Char} (h : IsFields sep IsHex widths s) (hsep : sep.utf8Size = 1)
    (hupper : sep.toUpper = sep) : ∃ m, (readBytes s).map ofBytes = some m ∧
      joinFields sep (m.bytes.map (Text.hex .upper 2)) = s.map Char.toUpper := by
  obtain ⟨gs, hlen, hhex, rfl⟩ := Text.isFields_iff.mp h
  obtain ⟨hgs, hcount⟩ : (∀ g ∈ gs, g.length = 2) ∧ gs.length = 6 := by
    have h := List.eq_replicate_iff.mp hlen
    rw [List.length_map, List.forall_mem_map] at h
    exact ⟨h.2, h.1⟩
  have hutf8 : ∀ g ∈ gs, Text.utf8Len g = 2 := fun g hg ↦ by
    rw [← hgs g hg, Text.utf8Len_eq_length fun c hc ↦ Text.utf8Size_of_isHexDigit (hhex g hg c hc)]
  obtain ⟨ns, hns, hlt, hprint⟩ := Text.exists_parseHex (k := .upper) hhex hgs
  have hread : gs.mapM (Text.fromStrRadix16 8) = some ns := by
    rw [mapM_eq_some_iff, ← mapM_eq_some_iff.mp hns]
    refine List.map_congr_left fun g hg ↦ ?_
    obtain ⟨n, hn⟩ := Option.isSome_iff_exists.mp (Text.isSome_parseHex_iff.mpr (hhex g hg))
    have hne : g ≠ [] := List.ne_nil_of_length_pos (by rw [hgs g hg]; decide)
    rw [hn, Text.fromStrRadix16_of_parseHex hne hn (by rw [hgs g hg])]
  have hcount' : ns.length = 6 := by
    rw [← hcount]
    simpa using (congrArg List.length (mapM_eq_some_iff.mp hns)).symm
  refine ⟨ofBytes ns, ?_, ?_⟩
  · rw [readBytes_joinFields hcount hutf8 hsep, hread, Option.map_some]
  · rw [bytes_ofBytes hcount' hlt, hprint, Text.map_joinFields, hupper]
    rfl

/-- **What is printed of a text without plus signs**: the text, in upper case. -/
theorem toChars_of_fromStr {m : MAC} (h : IsText s) (hm : fromStr s = pure m) :
    m.toChars = s.map Char.toUpper := by
  obtain ⟨m', hread, hprint⟩ := exists_readBytes h rfl rfl
  obtain rfl := Option.some.inj ((fromStr_eq_pure_iff.mp hm).2.2.symm.trans hread)
  rw [toChars_eq, hprint]

end MAC

/-! ## Both of them -/

/-- The parsers of UUIDs and addresses accept the text forms and nothing else, and what they
read is printed as the text it was read from, in one case. -/
structure ParsesExactly (s : List Char) : Prop where
  uuid : (∃ u, UUID.fromStr s = pure u) ↔ UUID.IsText s
  printUUID : ∀ u, UUID.fromStr s = pure u → u.toChars = s.map Char.toLower
  mac : (∃ m, MAC.fromStr s = pure m) ↔ MAC.IsText s
  printMAC : ∀ m, MAC.fromStr s = pure m → m.toChars = s.map Char.toUpper

/-- **The parsers keep to the grammar** except for a plus sign in front of a field: they do on
each text that is not of the form with such a sign in it. -/
theorem parsesExactly_iff (s : List Char) (hs : ∀ c ∈ s, c.utf8Size = 1) :
    ParsesExactly s ↔ (UUID.IsLaxText s → '+' ∉ s) ∧ (MAC.IsLaxText s → '+' ∉ s) := by
  constructor
  · intro h
    refine ⟨fun hlax ↦ ?_, fun hlax ↦ ?_⟩
    · exact (UUID.isText_iff.mp (h.uuid.mp ((UUID.isOk_fromStr_iff hs).mpr hlax))).2
    · exact (MAC.isText_iff.mp (h.mac.mp ((MAC.isOk_fromStr_iff hs).mpr hlax))).2
  · rintro ⟨huuid, hmac⟩
    have uuid : (∃ u, UUID.fromStr s = pure u) ↔ UUID.IsText s := by
      rw [UUID.isOk_fromStr_iff hs, UUID.isText_iff]
      exact ⟨fun hlax ↦ ⟨hlax, huuid hlax⟩, And.left⟩
    have mac : (∃ m, MAC.fromStr s = pure m) ↔ MAC.IsText s := by
      rw [MAC.isOk_fromStr_iff hs, MAC.isText_iff]
      exact ⟨fun hlax ↦ ⟨hlax, hmac hlax⟩, And.left⟩
    exact {
      uuid := uuid
      printUUID := fun u hu ↦ UUID.toChars_of_fromStr (uuid.mp ⟨u, hu⟩) hu
      mac := mac
      printMAC := fun m hm ↦ MAC.toChars_of_fromStr (mac.mp ⟨m, hm⟩) hm }

/-- A text without a sign. -/
theorem parsesExactly_colons : ParsesExactly "01:23:45:67:89:aB".toList := by
  have hascii : "01:23:45:67:89:aB".toList.all fun c ↦ c.utf8Size = 1 := rfl
  have hplus : '+' ∉ "01:23:45:67:89:aB".toList := by decide
  exact (parsesExactly_iff _ fun c hc ↦ of_decide_eq_true (List.all_eq_true.mp hascii c hc)).mpr
    ⟨fun _ ↦ hplus, fun _ ↦ hplus⟩

/-- A plus sign is taken for a digit of a UUID, and of an address. -/
theorem accepts_plus :
    (∃ u, UUID.fromStr "+0000000-0000-0000-0000-000000000000".toList = pure u) ∧
      (∃ m, MAC.fromStr "+0:00:00:00:00:00".toList = pure m) ∧
      ¬ParsesExactly "+0000000-0000-0000-0000-000000000000".toList ∧
      ¬ParsesExactly "+0:00:00:00:00:00".toList := by
  have huuid : ∃ u, UUID.fromStr "+0000000-0000-0000-0000-000000000000".toList = pure u := by
    have hlax : UUID.IsLaxText "+0000000-0000-0000-0000-000000000000".toList := by
      simp only [UUID.IsLaxText, UUID.widths, IsFields]
      decide
    exact (UUID.isOk_fromStr_iff (hlax.utf8Size rfl)).mpr hlax
  have hmac : ∃ m, MAC.fromStr "+0:00:00:00:00:00".toList = pure m := by
    have hlax : MAC.IsLaxText "+0:00:00:00:00:00".toList := by
      have hwidths : MAC.widths = [2, 2, 2, 2, 2, 2] := rfl
      simp only [MAC.IsLaxText, hwidths, IsFields]
      decide
    exact (MAC.isOk_fromStr_iff (hlax.utf8Size rfl)).mpr hlax
  refine ⟨huuid, hmac, fun h ↦ ?_, fun h ↦ ?_⟩
  · exact (UUID.isText_iff.mp (h.uuid.mp huuid)).2 (by decide)
  · exact (MAC.isText_iff.mp (h.mac.mp hmac)).2 (by decide)

end Rustable
