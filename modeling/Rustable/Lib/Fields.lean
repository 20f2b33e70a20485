import Rustable.Lib.Keyed
import Rustable.Lib.Text

/-!
# Hexadecimal fields between delimiters

`IsFields sep P widths cs` is the grammar of texts like `01:23:45`: fields of fixed
widths, each of which is a `P`, with one delimiter between two of them.  The fields of
interest are hexadecimal numbers: what `parseHex` reads is written back by `hex` up to the
case of the digits (`hex_of_parseHex`), and a reader of numbers accepts a leading `+` besides
(`IsNumber`).
-/

namespace Text

variable {k : LetterCase} {c : Char} {cs xs ys : List Char} {d m n bits : Nat}

/-! ## Digits -/

/-- A hexadecimal digit of either case. -/
def IsHexDigit (c : Char) : Prop := (hexValue c).isSome

instance : Decidable (IsHexDigit c) := inferInstanceAs (Decidable (_ = _))

/-- A letter in the case. -/
def LetterCase.convert : LetterCase → Char → Char
  | .lower => Char.toLower
  | .upper => Char.toUpper

/-- The digits, each of them once in each case. -/
def hexDigits : List Char := "0123456789abcdefABCDEF".toList

theorem mem_hexDigits (h : IsHexDigit c) : c ∈ hexDigits := by
  have hofNat : Char.ofNat c.toNat = c := Char.ofNat_toNat c
  rw [IsHexDigit, hexValue] at h
  split at h
  · next hc =>
      obtain ⟨hlo, hhi⟩ : 48 ≤ c.toNat ∧ c.toNat ≤ 57 := hc
      rw [← hofNat]
      interval_cases c.toNat <;> decide
  split at h
  · next hc =>
      obtain ⟨hlo, hhi⟩ : 97 ≤ c.toNat ∧ c.toNat ≤ 102 := hc
      rw [← hofNat]
      interval_cases c.toNat <;> decide
  split at h
  · next hc =>
      obtain ⟨hlo, hhi⟩ : 65 ≤ c.toNat ∧ c.toNat ≤ 70 := hc
      rw [← hofNat]
      interval_cases c.toNat <;> decide
  · contradiction

/-- What is true of digits is seen on each of them. -/
theorem of_isHexDigit (P : Char → Prop) [DecidablePred P] (hall : hexDigits.all fun c ↦ P c)
    (h : IsHexDigit c) : P c :=
  of_decide_eq_true (List.all_eq_true.mp hall c (mem_hexDigits h))

theorem utf8Size_of_isHexDigit (h : IsHexDigit c) : c.utf8Size = 1 :=
  of_isHexDigit (fun c ↦ c.utf8Size = 1) rfl h

/-- A digit is written back, in the case of the writer. -/
theorem hexDigit_of_hexValue (h : hexValue c = some d) : d < 16 ∧ hexDigit k d = k.convert c := by
  have hc : IsHexDigit c := by rw [IsHexDigit, h]; rfl
  obtain ⟨hlt, hlower, hupper⟩ := of_isHexDigit (fun c ↦ ∀ d ∈ hexValue c,
    d < 16 ∧ hexDigit .lower d = c.toLower ∧ hexDigit .upper d = c.toUpper) rfl hc d h
  cases k with
  | lower => exact ⟨hlt, hlower⟩
  | upper => exact ⟨hlt, hupper⟩

theorem isHexDigit_hexDigit (h : d < 16) : IsHexDigit (hexDigit k d) := by
  rw [IsHexDigit, hexValue_hexDigit h]
  rfl

/-! ## Numbers -/

/-- A text of digits. -/
def IsHex (cs : List Char) : Prop := ∀ c ∈ cs, IsHexDigit c

instance : DecidablePred IsHex := fun cs ↦ List.decidableBAll _ cs

theorem isHex_hex : IsHex (hex k m n) := by
  intro c hc
  obtain ⟨d, hd, rfl⟩ := mem_hex hc
  exact isHexDigit_hexDigit hd

theorem isSome_parseHex_iff : (parseHex cs).isSome ↔ IsHex cs := by
  rw [parseHex, Option.isSome_map]
  exact isSome_mapM_iff

/-- **What is read is written back**, up to the case of the digits. -/
theorem hex_of_parseHex (h : parseHex cs = some n) :
    n < 16 ^ cs.length ∧ hex k cs.length n = cs.map k.convert := by
  obtain ⟨ds, hds, rfl⟩ := Option.map_eq_some_iff.mp h
  have hmap : cs.map hexValue = ds.map some := mapM_eq_some_iff.mp hds
  have hlen : cs.length = ds.length := by simpa using congrArg List.length hmap
  have hdigit : ∀ d ∈ ds, d < 16 := by
    intro d hd
    obtain ⟨c, -, hc⟩ := exists_of_mem_mapM hds hd
    exact (hexDigit_of_hexValue (k := k) hc).1
  have hlt : Nat.ofDigits 16 ds.reverse < 16 ^ cs.length := by
    rw [hlen, ← List.length_reverse]
    exact Nat.ofDigits_lt_base_pow_length (by decide) fun d hd ↦ hdigit d (List.mem_reverse.mp hd)
  have hback : Nat.digitsAppend 16 cs.length (Nat.ofDigits 16 ds.reverse) = ds.reverse := by
    refine (Nat.setInvOn_digitsAppend_ofDigits (by decide) cs.length).1 ⟨?_, ?_⟩
    · rw [List.length_reverse, hlen]
    · exact fun d hd ↦ hdigit d (List.mem_reverse.mp hd)
  have hconvert : ds.map (hexDigit k) = cs.map k.convert :=
    map_of_mapM hds fun c _ d hd ↦ (hexDigit_of_hexValue hd).2
  refine ⟨hlt, ?_⟩
  change (Nat.digitsAppend 16 cs.length _).reverse.map (hexDigit k) = _
  rw [hback, List.reverse_reverse, hconvert]

/-- Numbers one after the other. -/
theorem parseHex_append (hxs : parseHex xs = some m) (hys : parseHex ys = some n) :
    parseHex (xs ++ ys) = some (m * 16 ^ ys.length + n) := by
  obtain ⟨ds, hds, rfl⟩ := Option.map_eq_some_iff.mp hxs
  obtain ⟨es, hes, rfl⟩ := Option.map_eq_some_iff.mp hys
  have hmap : ys.map hexValue = es.map some := mapM_eq_some_iff.mp hes
  have hlen : ys.length = es.length := by simpa using congrArg List.length hmap
  have happ : (xs ++ ys).mapM hexValue = some (ds ++ es) := by
    rw [mapM_eq_some_iff, List.map_append, List.map_append, mapM_eq_some_iff.mp hds, hmap]
  rw [parseHex, happ, Option.map_some, List.reverse_append, Nat.ofDigits_append,
    List.length_reverse, hlen, Nat.mul_comm, Nat.add_comm]

/-- Numbers of one width are the digits of their sum in a larger base. -/
theorem parseHex_flatten_hex {w : Nat} {ns : List Nat} (h : ∀ n ∈ ns, n < 16 ^ w) :
    parseHex (ns.map (hex k w)).flatten = some (ns.foldl (fun m n ↦ m * 16 ^ w + n) 0) := by
  induction ns using List.reverseRecOn with
  | nil => rfl
  | append_singleton ns n ih =>
      have hn : n < 16 ^ w := h n (List.mem_append_right ns List.mem_cons_self)
      rw [List.map_append, List.flatten_append, List.foldl_append]
      have hlast : parseHex ([n].map (hex k w)).flatten = some n := by simp [parseHex_hex]
      rw [parseHex_append (ih fun n hn ↦ h n (List.mem_append_left _ hn)) hlast]
      simp [length_hex hn]

/-- What a reader of numbers accepts: digits, and a plus sign in front. -/
def IsNumber (cs : List Char) : Prop := dropPlus cs ≠ [] ∧ IsHex (dropPlus cs)

instance : DecidablePred IsNumber := fun _ ↦ inferInstanceAs (Decidable (_ ∧ _))

theorem not_isHexDigit_plus : ¬IsHexDigit '+' := by decide

theorem dropPlus_eq_self (h : '+' ∉ cs) : dropPlus cs = cs := by
  unfold dropPlus
  split
  · exact absurd List.mem_cons_self h
  · rfl

theorem length_dropPlus_le (cs : List Char) : (dropPlus cs).length ≤ cs.length := by
  unfold dropPlus
  split
  · exact Nat.le_succ _
  · exact Nat.le_refl _

/-- A number that fits by its length is read if it is one. -/
theorem isSome_fromStrRadix16_iff (h : 4 * cs.length ≤ bits) :
    (fromStrRadix16 bits cs).isSome ↔ IsNumber cs := by
  rw [fromStrRadix16, IsNumber, ← isSome_parseHex_iff]
  by_cases hnil : dropPlus cs = []
  · simp [hnil]
  rw [if_neg hnil, and_iff_right hnil]
  cases hparse : parseHex (dropPlus cs) with
  | none => exact Iff.rfl
  | some n =>
      have hfits : n < 2 ^ bits := by
        calc n < 16 ^ (dropPlus cs).length := (hex_of_parseHex (k := .lower) hparse).1
          _ = 2 ^ (4 * (dropPlus cs).length) := by rw [Nat.pow_mul]
          _ ≤ 2 ^ bits := Nat.pow_le_pow_right (by decide)
              (Nat.le_trans (Nat.mul_le_mul_left 4 (length_dropPlus_le cs)) h)
      rw [Option.filter_some, if_pos (decide_eq_true hfits)]

theorem mem_or_of_mem (hc : c ∈ cs) : c = '+' ∨ c ∈ dropPlus cs := by
  unfold dropPlus
  split
  · exact List.mem_cons.mp hc
  · exact .inr hc

/-- Digits that fit are read as the number they are. -/
theorem fromStrRadix16_of_parseHex (hcs : cs ≠ []) (h : parseHex cs = some n)
    (hbits : 4 * cs.length ≤ bits) : fromStrRadix16 bits cs = some n := by
  have hhex : IsHex cs := isSome_parseHex_iff.mp (by rw [h]; rfl)
  have hplus : '+' ∉ cs := fun hmem ↦ not_isHexDigit_plus (hhex '+' hmem)
  have hfits : n < 2 ^ bits := by
    calc n < 16 ^ cs.length := (hex_of_parseHex (k := .lower) h).1
      _ = 2 ^ (4 * cs.length) := by rw [Nat.pow_mul]
      _ ≤ 2 ^ bits := Nat.pow_le_pow_right (by decide) hbits
  rw [fromStrRadix16, dropPlus_eq_self hplus, if_neg hcs, h, Option.filter_some,
    if_pos (decide_eq_true hfits)]

theorem IsNumber.utf8Size (h : IsNumber cs) : ∀ c ∈ cs, c.utf8Size = 1 := by
  intro c hc
  rcases mem_or_of_mem hc with rfl | hc
  · rfl
  · exact utf8Size_of_isHexDigit (h.2 c hc)

/-- A number without a plus sign. -/
theorem isHex_iff_isNumber (h : cs ≠ []) : IsHex cs ↔ IsNumber cs ∧ '+' ∉ cs := by
  constructor
  · intro hhex
    have hplus : '+' ∉ cs := fun hmem ↦ not_isHexDigit_plus (hhex '+' hmem)
    rw [IsNumber, dropPlus_eq_self hplus]
    exact ⟨⟨h, hhex⟩, hplus⟩
  · rintro ⟨⟨-, hhex⟩, hplus⟩
    rwa [dropPlus_eq_self hplus] at hhex

/-! ## Fields -/

/-- Fields of the given widths, with a delimiter between two of them. -/
def IsFields (sep : Char) (P : List Char → Prop) : List Nat → List Char → Prop
  | [], cs => cs = []
  | [w], cs => cs.length = w ∧ P cs
  | w :: v :: ws, cs =>
      (cs[w]? = some sep ∧ P (cs.take w)) ∧ IsFields sep P (v :: ws) (cs.drop (w + 1))

/-- The fields joined. -/
def joinFields (sep : Char) (fields : List (List Char)) : List Char := [sep].intercalate fields

section Fields

variable {sep : Char} {P Q : List Char → Prop} {ws : List Nat} {gs : List (List Char)}

theorem joinFields_cons_cons (g g' : List Char) (gs : List (List Char)) :
    joinFields sep (g :: g' :: gs) = g ++ sep :: joinFields sep (g' :: gs) :=
  List.intercalate_cons_cons.trans (List.append_assoc ..)

@[simp] theorem joinFields_singleton (g : List Char) : joinFields sep [g] = g :=
  List.intercalate_singleton

/-- A text is cut at one of its characters. -/
theorem take_cons_drop (h : cs[n]? = some c) : cs.take n ++ c :: cs.drop (n + 1) = cs := by
  obtain ⟨hlt, rfl⟩ := List.getElem?_eq_some_iff.mp h
  rw [← List.drop_eq_getElem_cons hlt, List.take_append_drop]

/-- **The grammar** is that of joined fields. -/
theorem isFields_iff : IsFields sep P ws cs ↔
    ∃ gs, gs.map List.length = ws ∧ (∀ g ∈ gs, P g) ∧ joinFields sep gs = cs := by
  induction ws, cs using IsFields.induct with
  | case1 cs =>
      constructor
      · rintro rfl
        exact ⟨[], rfl, fun _ h ↦ absurd h List.not_mem_nil, rfl⟩
      · rintro ⟨gs, hlen, -, rfl⟩
        obtain rfl := List.map_eq_nil_iff.mp hlen
        rfl
  | case2 w cs =>
      constructor
      · rintro ⟨rfl, h⟩
        exact ⟨[cs], rfl, fun g hg ↦ List.mem_singleton.mp hg ▸ h, List.intercalate_singleton⟩
      · rintro ⟨gs, hlen, hP, rfl⟩
        obtain ⟨g, rfl, rfl⟩ := List.map_eq_singleton_iff.mp hlen
        rw [joinFields_singleton]
        exact ⟨rfl, hP g (List.mem_singleton_self g)⟩
  | case3 w v ws cs ih =>
      rw [IsFields, ih]
      constructor
      · rintro ⟨⟨hsep, hP⟩, gs, hlen, hPs, hjoin⟩
        obtain ⟨g', gs, rfl⟩ := List.exists_cons_of_ne_nil (l := gs) (by rintro rfl; contradiction)
        refine ⟨cs.take w :: g' :: gs, ?_, List.forall_mem_cons.mpr ⟨hP, hPs⟩, ?_⟩
        · have hlt := (List.getElem?_eq_some_iff.mp hsep).1
          rw [List.map_cons, hlen, List.length_take_of_le hlt.le]
        · rw [joinFields_cons_cons, hjoin, take_cons_drop hsep]
      · rintro ⟨gs, hlen, hP, rfl⟩
        obtain ⟨g, rest, rfl, rfl, htail⟩ := List.map_eq_cons_iff.mp hlen
        obtain ⟨g', gs, rfl, rfl, htail⟩ := List.map_eq_cons_iff.mp htail
        obtain ⟨hg, hP⟩ := List.forall_mem_cons.mp hP
        rw [joinFields_cons_cons]
        refine ⟨⟨?_, ?_⟩, g' :: gs, ?_, hP, ?_⟩
        · simp
        · rwa [List.take_left' rfl]
        · rw [htail]
        · simp

/-- What is in a text of fields is in one of them, or it is the delimiter. -/
theorem mem_joinFields (h : c ∈ joinFields sep gs) : c = sep ∨ ∃ g ∈ gs, c ∈ g := by
  induction gs with
  | nil => contradiction
  | cons g gs ih =>
      cases gs with
      | nil =>
          rw [joinFields_singleton] at h
          exact .inr ⟨g, List.mem_singleton_self g, h⟩
      | cons g' gs =>
          rw [joinFields_cons_cons, List.mem_append, List.mem_cons] at h
          rcases h with h | h | h
          · exact .inr ⟨g, List.mem_cons_self, h⟩
          · exact .inl h
          · exact (ih h).imp_right fun ⟨f, hf, hc⟩ ↦ ⟨f, List.mem_cons_of_mem g hf, hc⟩

theorem mem_joinFields_of_mem {g : List Char} (hg : g ∈ gs) (hc : c ∈ g) :
    c ∈ joinFields sep gs := by
  induction gs with
  | nil => contradiction
  | cons f gs ih =>
      cases gs with
      | nil =>
          obtain rfl := List.mem_singleton.mp hg
          rwa [joinFields_singleton]
      | cons f' gs =>
          rw [joinFields_cons_cons, List.mem_append, List.mem_cons]
          rcases List.mem_cons.mp hg with rfl | hg
          · exact .inl hc
          · exact .inr (.inr (ih hg))

/-- **Numbers without a plus sign** are what is left of the numbers where no character of the
text is one. -/
theorem isFields_isHex_iff (hsep : sep ≠ '+') (hws : ∀ w ∈ ws, 0 < w) :
    IsFields sep IsHex ws cs ↔ IsFields sep IsNumber ws cs ∧ '+' ∉ cs := by
  have hne {gs : List (List Char)} (hlen : gs.map List.length = ws) : ∀ g ∈ gs, g ≠ [] :=
    fun g hg ↦ List.ne_nil_of_length_pos (hws _ (hlen ▸ List.mem_map_of_mem hg))
  constructor
  · intro h
    obtain ⟨gs, hlen, hhex, rfl⟩ := isFields_iff.mp h
    have hnum (g : List Char) (hg : g ∈ gs) := (isHex_iff_isNumber (hne hlen g hg)).mp (hhex g hg)
    refine ⟨isFields_iff.mpr ⟨gs, hlen, fun g hg ↦ (hnum g hg).1, rfl⟩, fun hplus ↦ ?_⟩
    rcases mem_joinFields hplus with h | ⟨g, hg, hplus⟩
    · exact hsep h.symm
    · exact (hnum g hg).2 hplus
  · rintro ⟨h, hplus⟩
    obtain ⟨gs, hlen, hnum, rfl⟩ := isFields_iff.mp h
    refine isFields_iff.mpr ⟨gs, hlen, fun g hg ↦ ?_, rfl⟩
    exact (isHex_iff_isNumber (hne hlen g hg)).mpr
      ⟨hnum g hg, fun hmem ↦ hplus (mem_joinFields_of_mem hg hmem)⟩

/-- Every character of a text of numbers takes one byte. -/
theorem IsFields.utf8Size (h : IsFields sep IsNumber ws cs) (hsep : sep.utf8Size = 1) :
    ∀ c ∈ cs, c.utf8Size = 1 := by
  obtain ⟨gs, -, hnum, rfl⟩ := isFields_iff.mp h
  intro c hc
  rcases mem_joinFields hc with rfl | ⟨g, hg, hc⟩
  · exact hsep
  · exact (hnum g hg).utf8Size c hc

/-- Fields of digits are read and written back one by one. -/
theorem exists_parseHex {w : Nat} (hhex : ∀ g ∈ gs, IsHex g) (hw : ∀ g ∈ gs, g.length = w) :
    ∃ ns, gs.mapM parseHex = some ns ∧ (∀ n ∈ ns, n < 16 ^ w) ∧
      ns.map (hex k w) = gs.map (List.map k.convert) := by
  have hsome : (gs.mapM parseHex).isSome :=
    isSome_mapM_iff.mpr fun g hg ↦ isSome_parseHex_iff.mpr (hhex g hg)
  obtain ⟨ns, hns⟩ := Option.isSome_iff_exists.mp hsome
  refine ⟨ns, hns, fun n hn ↦ ?_, map_of_mapM hns fun g hg n hn ↦ ?_⟩
  · obtain ⟨g, hg, hparse⟩ := exists_of_mem_mapM hns hn
    exact hw g hg ▸ (hex_of_parseHex (k := k) hparse).1
  · exact hw g hg ▸ (hex_of_parseHex hn).2

/-- Without the delimiters the fields are one after the other. -/
theorem filter_joinFields (h : ∀ g ∈ gs, sep ∉ g) :
    (joinFields sep gs).filter (· ≠ sep) = gs.flatten := by
  have hfield {g : List Char} (hg : sep ∉ g) : g.filter (· ≠ sep) = g :=
    List.filter_eq_self.mpr fun c hc ↦ decide_eq_true fun heq ↦ hg (heq ▸ hc)
  induction gs with
  | nil => rfl
  | cons g gs ih =>
      obtain ⟨hg, hgs⟩ := List.forall_mem_cons.mp h
      cases gs with
      | nil => rw [joinFields_singleton, hfield hg, List.flatten_singleton]
      | cons g' gs =>
          rw [joinFields_cons_cons, List.filter_append, hfield hg, List.filter_cons_of_neg (by simp),
            ih hgs]
          exact List.flatten_cons.symm

/-- A field of fields of one width is found at its position. -/
theorem slice_joinFields {w i : Nat} {g : List Char} (hw : ∀ g ∈ gs, utf8Len g = w)
    (hsep : sep.utf8Size = 1) (hg : gs[i]? = some g) :
    slice (joinFields sep gs) (i * (w + 1)) (i * (w + 1) + w) = some g := by
  induction gs generalizing i with
  | nil => contradiction
  | cons f gs ih =>
      obtain ⟨hf, hw⟩ := List.forall_mem_cons.mp hw
      cases i with
      | zero =>
          obtain rfl := Option.some.inj hg
          rw [Nat.zero_mul, Nat.zero_add, ← hf]
          cases gs with
          | nil => simpa using slice_prefix f []
          | cons f' gs => rw [joinFields_cons_cons, slice_prefix]
      | succ i =>
          cases gs with
          | nil => contradiction
          | cons f' gs =>
              have hhead : utf8Len (f ++ [sep]) = w + 1 := by simp [hf, hsep]
              have hstart : (i + 1) * (w + 1) = utf8Len (f ++ [sep]) + i * (w + 1) := by
                rw [hhead, Nat.add_mul, Nat.one_mul, Nat.add_comm]
              rw [joinFields_cons_cons, List.append_cons, hstart, Nat.add_assoc, slice_append]
              exact ih hw hg

/-- The case of the digits is changed field by field. -/
theorem map_joinFields (f : Char → Char) (gs : List (List Char)) :
    (joinFields sep gs).map f = joinFields (f sep) (gs.map (List.map f)) := by
  induction gs with
  | nil => rfl
  | cons g gs ih =>
      cases gs with
      | nil => simp
      | cons g' gs =>
          rw [joinFields_cons_cons, List.map_append, List.map_cons, ih, List.map_cons,
            List.map_cons, List.map_cons, joinFields_cons_cons]

end Fields

end Text
