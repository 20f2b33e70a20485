import Mathlib.Data.Nat.Digits.Lemmas
import Mathlib.Tactic.IntervalCases

/-!
# Text as it is sliced and parsed by byte positions

A string is the list of its characters, but lengths and positions count the bytes of
its UTF-8 encoding.  `slice` fails where a position is out of range or inside a
character.

The second half is about hexadecimal numbers: `hex` writes one with a minimal width,
`fromStrRadix16` reads one back into a given number of bits, with the optional `+` a
reader of unsigned numbers accepts.  What is written is read back
(`fromStrRadix16_hex`).
-/

namespace Text

/-! ## Byte positions -/

/-- The length of a text in bytes. -/
def utf8Len (cs : List Char) : Nat := (cs.map Char.utf8Size).sum

/-- The text from a byte position on. -/
def dropBytes : List Char → Nat → Option (List Char)
  | cs, 0 => some cs
  | [], _ + 1 => none
  | c :: cs, n + 1 => if c.utf8Size ≤ n + 1 then dropBytes cs (n + 1 - c.utf8Size) else none

/-- The text before a byte position. -/
def takeBytes : List Char → Nat → Option (List Char)
  | _, 0 => some []
  | [], _ + 1 => none
  | c :: cs, n + 1 =>
      if c.utf8Size ≤ n + 1 then (takeBytes cs (n + 1 - c.utf8Size)).map (c :: ·) else none

/-- The text between two byte positions. -/
def slice (cs : List Char) (start stop : Nat) : Option (List Char) :=
  if start ≤ stop then (dropBytes cs start).bind (takeBytes · (stop - start)) else none

@[simp] theorem utf8Len_nil : utf8Len [] = 0 := rfl

@[simp] theorem utf8Len_cons (c : Char) (cs : List Char) :
    utf8Len (c :: cs) = c.utf8Size + utf8Len cs := rfl

@[simp] theorem utf8Len_append (xs ys : List Char) :
    utf8Len (xs ++ ys) = utf8Len xs + utf8Len ys := by
  rw [utf8Len, List.map_append, List.sum_append]
  rfl

@[simp] theorem dropBytes_zero (cs : List Char) : dropBytes cs 0 = some cs := by
  cases cs <;> rfl

@[simp] theorem takeBytes_zero (cs : List Char) : takeBytes cs 0 = some [] := by
  cases cs <;> rfl

/-- Past a character, positions count from behind it. -/
theorem dropBytes_cons (c : Char) (cs : List Char) (n : Nat) :
    dropBytes (c :: cs) (c.utf8Size + n) = dropBytes cs n := by
  obtain ⟨k, hk⟩ := Nat.exists_eq_add_one_of_ne_zero (Nat.ne_of_gt c.utf8Size_pos)
  have hsum : c.utf8Size + n = (k + n) + 1 := by omega
  have hrest : k + n + 1 - c.utf8Size = n := by omega
  rw [hsum, dropBytes, if_pos (by omega), hrest]

theorem takeBytes_cons (c : Char) (cs : List Char) (n : Nat) :
    takeBytes (c :: cs) (c.utf8Size + n) = (takeBytes cs n).map (c :: ·) := by
  obtain ⟨k, hk⟩ := Nat.exists_eq_add_one_of_ne_zero (Nat.ne_of_gt c.utf8Size_pos)
  have hsum : c.utf8Size + n = (k + n) + 1 := by omega
  have hrest : k + n + 1 - c.utf8Size = n := by omega
  rw [hsum, takeBytes, if_pos (by omega), hrest]

theorem dropBytes_append (xs ys : List Char) (n : Nat) :
    dropBytes (xs ++ ys) (utf8Len xs + n) = dropBytes ys n := by
  induction xs with
  | nil => rw [List.nil_append, utf8Len_nil, Nat.zero_add]
  | cons c xs ih => rw [List.cons_append, utf8Len_cons, Nat.add_assoc, dropBytes_cons, ih]

theorem takeBytes_append (xs ys : List Char) : takeBytes (xs ++ ys) (utf8Len xs) = some xs := by
  induction xs with
  | nil => exact takeBytes_zero ys
  | cons c xs ih => rw [List.cons_append, utf8Len_cons, takeBytes_cons, ih]; rfl

/-- Past the beginning of a text, positions count from behind it. -/
theorem slice_append (xs ys : List Char) (i j : Nat) :
    slice (xs ++ ys) (utf8Len xs + i) (utf8Len xs + j) = slice ys i j := by
  simp only [slice, dropBytes_append, Nat.add_le_add_iff_left, Nat.add_sub_add_left]

/-- The beginning of a text. -/
theorem slice_prefix (xs ys : List Char) : slice (xs ++ ys) 0 (utf8Len xs) = some xs := by
  rw [slice, if_pos (Nat.zero_le _), dropBytes_zero]
  exact takeBytes_append xs ys

/-- A position between two characters or at one of the ends. -/
def IsBoundary (cs : List Char) (n : Nat) : Prop := ∃ xs ys, xs ++ ys = cs ∧ utf8Len xs = n

theorem dropBytes_eq_some_iff {cs ys : List Char} {n : Nat} :
    dropBytes cs n = some ys ↔ ∃ xs, xs ++ ys = cs ∧ utf8Len xs = n := by
  constructor
  · intro h
    fun_induction dropBytes cs n with
    | case1 cs =>
        obtain rfl := Option.some.inj h
        exact ⟨[], rfl, rfl⟩
    | case2 => contradiction
    | case3 c cs n hle ih =>
        obtain ⟨xs, rfl, hlen⟩ := ih h
        refine ⟨c :: xs, rfl, ?_⟩
        rw [utf8Len_cons, hlen]
        omega
    | case4 => contradiction
  · rintro ⟨xs, rfl, rfl⟩
    have h := dropBytes_append xs ys 0
    rwa [Nat.add_zero, dropBytes_zero] at h

theorem takeBytes_eq_some_iff {cs xs : List Char} {n : Nat} :
    takeBytes cs n = some xs ↔ ∃ ys, xs ++ ys = cs ∧ utf8Len xs = n := by
  constructor
  · intro h
    fun_induction takeBytes cs n generalizing xs with
    | case1 cs =>
        obtain rfl := Option.some.inj h
        exact ⟨cs, rfl, rfl⟩
    | case2 => contradiction
    | case3 c cs n hle ih =>
        obtain ⟨zs, hzs, rfl⟩ := Option.map_eq_some_iff.mp h
        obtain ⟨ys, rfl, hlen⟩ := ih hzs
        refine ⟨ys, rfl, ?_⟩
        rw [utf8Len_cons, hlen]
        omega
    | case4 => contradiction
  · rintro ⟨ys, rfl, rfl⟩
    exact takeBytes_append xs ys

theorem isSome_dropBytes {cs : List Char} {n : Nat} :
    (dropBytes cs n).isSome ↔ IsBoundary cs n := by
  rw [Option.isSome_iff_exists]
  constructor
  · rintro ⟨ys, h⟩
    obtain ⟨xs, hcs, hlen⟩ := dropBytes_eq_some_iff.mp h
    exact ⟨xs, ys, hcs, hlen⟩
  · rintro ⟨xs, ys, hcs, hlen⟩
    exact ⟨ys, dropBytes_eq_some_iff.mpr ⟨xs, hcs, hlen⟩⟩

theorem isSome_takeBytes {cs : List Char} {n : Nat} :
    (takeBytes cs n).isSome ↔ IsBoundary cs n := by
  rw [Option.isSome_iff_exists]
  constructor
  · rintro ⟨xs, h⟩
    obtain ⟨ys, hcs, hlen⟩ := takeBytes_eq_some_iff.mp h
    exact ⟨xs, ys, hcs, hlen⟩
  · rintro ⟨xs, ys, hcs, hlen⟩
    exact ⟨xs, takeBytes_eq_some_iff.mpr ⟨ys, hcs, hlen⟩⟩

theorem isBoundary_append (xs ys : List Char) (n : Nat) :
    IsBoundary (xs ++ ys) (utf8Len xs + n) ↔ IsBoundary ys n := by
  rw [← isSome_dropBytes, dropBytes_append, isSome_dropBytes]

/-- **When a slice is there**: the positions are in order and no character is cut. -/
theorem isSome_slice {cs : List Char} {i j : Nat} (hij : i ≤ j) :
    (slice cs i j).isSome ↔ IsBoundary cs i ∧ IsBoundary cs j := by
  rw [slice, if_pos hij]
  cases h : dropBytes cs i with
  | none =>
      have hi : ¬IsBoundary cs i := by rw [← isSome_dropBytes, h]; simp
      simp [hi]
  | some ys =>
      obtain ⟨xs, rfl, rfl⟩ := dropBytes_eq_some_iff.mp h
      obtain ⟨k, rfl⟩ := Nat.exists_eq_add_of_le hij
      rw [Option.bind_some, Nat.add_sub_cancel_left, isSome_takeBytes, isBoundary_append]
      exact (and_iff_right ⟨xs, ys, rfl, rfl⟩).symm

/-- ASCII text has as many bytes as characters. -/
theorem utf8Len_eq_length {cs : List Char} (h : ∀ c ∈ cs, c.utf8Size = 1) :
    utf8Len cs = cs.length := by
  induction cs with
  | nil => rfl
  | cons c cs ih =>
      rw [utf8Len_cons, h c List.mem_cons_self, ih fun d hd ↦ h d (List.mem_cons_of_mem _ hd),
        List.length_cons, Nat.add_comm]

theorem isBoundary_of_ascii {cs : List Char} {n : Nat} (h : ∀ c ∈ cs, c.utf8Size = 1)
    (hn : n ≤ cs.length) : IsBoundary cs n := by
  refine ⟨cs.take n, cs.drop n, List.take_append_drop n cs, ?_⟩
  rw [utf8Len_eq_length fun c hc ↦ h c (List.mem_of_mem_take hc), List.length_take_of_le hn]

/-- In ASCII text byte positions are those of the characters. -/
theorem slice_of_ascii {cs : List Char} {i j : Nat} (h : ∀ c ∈ cs, c.utf8Size = 1) (hij : i ≤ j)
    (hj : j ≤ cs.length) : slice cs i j = some ((cs.drop i).take (j - i)) := by
  have hdrop : dropBytes cs i = some (cs.drop i) := by
    refine dropBytes_eq_some_iff.mpr ⟨cs.take i, List.take_append_drop i cs, ?_⟩
    rw [utf8Len_eq_length fun c hc ↦ h c (List.mem_of_mem_take hc),
      List.length_take_of_le (hij.trans hj)]
  rw [slice, if_pos hij, hdrop, Option.bind_some, takeBytes_eq_some_iff]
  refine ⟨(cs.drop i).drop (j - i), List.take_append_drop (j - i) (cs.drop i), ?_⟩
  rw [utf8Len_eq_length fun c hc ↦ h c (List.mem_of_mem_drop (List.mem_of_mem_take hc)),
    List.length_take_of_le]
  rw [List.length_drop]
  omega

theorem length_le_utf8Len (cs : List Char) : cs.length ≤ utf8Len cs := by
  induction cs with
  | nil => exact Nat.le_refl 0
  | cons c cs ih =>
      have hpos := c.utf8Size_pos
      rw [List.length_cons, utf8Len_cons]
      omega

/-- What a slice is cut out of. -/
theorem slice_eq_some_iff {cs ys : List Char} {i j : Nat} : slice cs i j = some ys ↔
    ∃ xs zs, xs ++ (ys ++ zs) = cs ∧ utf8Len xs = i ∧ i + utf8Len ys = j := by
  constructor
  · intro h
    rw [slice] at h
    split at h
    · obtain ⟨rest, hrest, htake⟩ := Option.bind_eq_some_iff.mp h
      obtain ⟨xs, rfl, rfl⟩ := dropBytes_eq_some_iff.mp hrest
      obtain ⟨zs, rfl, hlen⟩ := takeBytes_eq_some_iff.mp htake
      exact ⟨xs, zs, rfl, rfl, by omega⟩
    · contradiction
  · rintro ⟨xs, zs, rfl, rfl, rfl⟩
    have h := slice_append xs (ys ++ zs) 0 (utf8Len ys)
    rwa [Nat.add_zero, slice_prefix] at h

/-- Slices next to each other. -/
theorem slice_trans {cs xs ys : List Char} {i j k : Nat} (hxs : slice cs i j = some xs)
    (hys : slice cs j k = some ys) : slice cs i k = some (xs ++ ys) := by
  obtain ⟨before, rest, hcs, rfl, rfl⟩ := slice_eq_some_iff.mp hxs
  obtain ⟨before', after, hcs', hlen, rfl⟩ := slice_eq_some_iff.mp hys
  have hrest : rest = ys ++ after := by
    have hdrop : dropBytes cs (utf8Len before + utf8Len xs) = some rest :=
      dropBytes_eq_some_iff.mpr ⟨before ++ xs, by rw [List.append_assoc, hcs], utf8Len_append ..⟩
    rw [dropBytes_eq_some_iff.mpr ⟨before', hcs', hlen⟩] at hdrop
    exact (Option.some.inj hdrop).symm
  refine slice_eq_some_iff.mpr ⟨before, after, ?_, rfl, ?_⟩
  · rw [List.append_assoc, ← hrest, hcs]
  · rw [utf8Len_append, Nat.add_assoc]

/-- All of a text. -/
theorem slice_all (cs : List Char) : slice cs 0 (utf8Len cs) = some cs := by
  have h := slice_prefix cs []
  rwa [List.append_nil] at h

/-! ## Hexadecimal numbers -/

/-- The case of the digits from ten on. -/
inductive LetterCase
  | lower
  | upper

/-- The digit of a number below sixteen. -/
def hexDigit : LetterCase → Nat → Char
  | .lower, d => Nat.digitChar d
  | .upper, d => (Nat.digitChar d).toUpper

/-- The number a digit of either case stands for. -/
def hexValue (c : Char) : Option Nat :=
  if '0' ≤ c ∧ c ≤ '9' then some (c.toNat - '0'.toNat)
  else if 'a' ≤ c ∧ c ≤ 'f' then some (c.toNat - 'a'.toNat + 10)
  else if 'A' ≤ c ∧ c ≤ 'F' then some (c.toNat - 'A'.toNat + 10)
  else none

/-- A number in hexadecimal, with zeros in front up to the (positive) width `w`. -/
def hex (k : LetterCase) (w n : Nat) : List Char :=
  let digits := Nat.digits 16 n
  (digits ++ List.replicate (w - digits.length) 0).reverse.map (hexDigit k)

/-- The number a list of digits stands for. -/
def parseHex (cs : List Char) : Option Nat :=
  (cs.mapM hexValue).map fun ds ↦ Nat.ofDigits 16 ds.reverse

/-- A text without the plus sign it may start with. -/
def dropPlus : List Char → List Char
  | '+' :: cs => cs
  | cs => cs

/-- Read an unsigned number of at most `bits` bits: an optional `+` and one or more
digits. -/
def fromStrRadix16 (bits : Nat) (cs : List Char) : Option Nat :=
  if dropPlus cs = [] then none else (parseHex (dropPlus cs)).filter (· < 2 ^ bits)

variable {k : LetterCase} {w n d : Nat}

theorem hexValue_hexDigit (h : d < 16) : hexValue (hexDigit k d) = some d := by
  cases k <;> interval_cases d <;> rfl

theorem utf8Size_hexDigit (h : d < 16) : (hexDigit k d).utf8Size = 1 := by
  cases k <;> interval_cases d <;> rfl

theorem hexDigit_ne_plus (h : d < 16) : hexDigit k d ≠ '+' := by
  cases k <;> interval_cases d <;> decide

/-- What `hex` writes are digits. -/
theorem mem_hex {c : Char} (hc : c ∈ hex k w n) : ∃ d < 16, hexDigit k d = c := by
  obtain ⟨d, hd, rfl⟩ := List.mem_map.mp hc
  refine ⟨d, ?_, rfl⟩
  rcases List.mem_append.mp (List.mem_reverse.mp hd) with hd | hd
  · exact Nat.digits_lt_base (by decide) hd
  · obtain rfl := List.eq_of_mem_replicate hd
    decide

theorem length_hex (h : n < 16 ^ w) : (hex k w n).length = w := by
  have hlen : (Nat.digits 16 n).length ≤ w := (Nat.digits_length_le_iff (by decide) n).mpr h
  simp only [hex, List.length_map, List.length_reverse, List.length_append, List.length_replicate]
  omega

theorem utf8Len_hex (h : n < 16 ^ w) : utf8Len (hex k w n) = w := by
  rw [utf8Len_eq_length, length_hex h]
  intro c hc
  obtain ⟨d, hd, rfl⟩ := mem_hex hc
  exact utf8Size_hexDigit hd

theorem mapM_hexValue {ds : List Nat} (h : ∀ d ∈ ds, d < 16) :
    (ds.map (hexDigit k)).mapM hexValue = some ds := by
  induction ds with
  | nil => rfl
  | cons d ds ih =>
      rw [List.map_cons, List.mapM_cons, hexValue_hexDigit (h d List.mem_cons_self),
        ih fun e he ↦ h e (List.mem_cons_of_mem _ he)]
      rfl

theorem parseHex_hex : parseHex (hex k w n) = some n := by
  have hds : ∀ d ∈ (Nat.digits 16 n ++ List.replicate (w - (Nat.digits 16 n).length) 0).reverse,
      d < 16 := by
    intro d hd
    rcases List.mem_append.mp (List.mem_reverse.mp hd) with hd | hd
    · exact Nat.digits_lt_base (by decide) hd
    · exact List.eq_of_mem_replicate hd ▸ by decide
  rw [parseHex, hex, mapM_hexValue hds, Option.map_some, List.reverse_reverse,
    Nat.ofDigits_append_replicate_zero, Nat.ofDigits_digits]

/-- Different numbers are written differently. -/
theorem hex_injective (k : LetterCase) (w : Nat) : Function.Injective (hex k w) := by
  intro m n h
  have hparse : parseHex (hex k w m) = parseHex (hex k w n) := congrArg parseHex h
  rw [parseHex_hex, parseHex_hex] at hparse
  exact Option.some.inj hparse

theorem dropPlus_hex : dropPlus (hex k w n) = hex k w n := by
  have hplus : ∀ c ∈ hex k w n, c ≠ '+' := by
    intro c hc
    obtain ⟨d, hd, rfl⟩ := mem_hex hc
    exact hexDigit_ne_plus hd
  unfold dropPlus
  split
  · next heq => exact absurd rfl (hplus '+' (heq ▸ List.mem_cons_self))
  · rfl

/-- **What is written is read back**, into enough bits. -/
theorem fromStrRadix16_hex {bits : Nat} (hw : 0 < w) (h : n < 16 ^ w) (hbits : n < 2 ^ bits) :
    fromStrRadix16 bits (hex k w n) = some n := by
  have hnil : hex k w n ≠ [] := List.ne_nil_of_length_pos (by rw [length_hex h]; exact hw)
  rw [fromStrRadix16, dropPlus_hex, if_neg hnil, parseHex_hex, Option.filter_some,
    if_pos (decide_eq_true hbits)]

end Text
