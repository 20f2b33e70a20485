import Rustable.Id

/-!
# Which texts make the id parsers panic

`UUID::from_str`, `validate_uuid` and `MAC::from_str` check the length of a text in
bytes, look for the delimiters by counting characters and cut the fields out by byte
positions.  On a text that is not ASCII these come apart: a delimiter can be looked for
behind the last character, and a field can end inside a character.
`MAC::from_dev_str` asks for its slices with `get`, and never panics.

## Main results

* `UUID.returns_fromStr_iff`, `isSome_validateUuid_iff`, `MAC.returns_fromStr_iff`: on
  which texts each of the parsers returns
* `validateUuid_eq`: `validate_uuid` is `from_str` without the value
* `MAC.isSome_fromDevStr`: `from_dev_str` always returns
* `parsersReturn_iff`: all of them at once
-/

namespace Rustable

open Text (IsBoundary)

namespace Parse

variable {α β : Type} {x : Parse α} {f : α → Parse β} {bits : Nat} {s : List Char}

/-! ## Parsers that return -/

/-- The parser comes back with a value or an error. -/
def Returns (x : Parse α) : Prop := x.run.isSome

instance : Decidable x.Returns := inferInstanceAs (Decidable (x.run.isSome = true))

@[simp] theorem returns_pure (a : α) : (pure a : Parse α).Returns := rfl

@[simp] theorem returns_throw (e : IDParseError) : (throw e : Parse α).Returns := rfl

theorem panic_bind : (panic : Parse α) >>= f = panic := rfl

@[simp] theorem not_returns_panic : ¬(panic : Parse α).Returns := by
  intro h
  contradiction

/-- Whether the next character the iterator is asked for is there. -/
theorem returns_nthUnwrap_bind {cs : List Char} {n : Nat} {f : Char × List Char → Parse β} :
    (nthUnwrap cs n >>= f).Returns ↔ ∃ c, cs[n]? = some c ∧ (f (c, cs.drop (n + 1))).Returns := by
  rw [nthUnwrap, ← List.head?_drop, ← List.tail_drop]
  cases cs.drop n with
  | nil => simp [panic_bind]
  | cons c rest => simp

/-- The number a field is read as. -/
def Reads (bits : Nat) (s : List Char) (start stop n : Nat) : Prop :=
  (Text.slice s start stop).bind (Text.fromStrRadix16 bits) = some n

/-- Whether the field is cut out between characters, and what comes behind it. -/
theorem returns_field_bind {start stop : Nat} {f : Nat → Parse β} (h : start ≤ stop) :
    (field bits s start stop >>= f).Returns ↔
      (IsBoundary s start ∧ IsBoundary s stop) ∧
        ∀ n, Reads bits s start stop n → (f n).Returns := by
  rw [field, ← Text.isSome_slice h]
  simp only [Reads]
  cases Text.slice s start stop with
  | none => simp [panic_bind]
  | some digits =>
      simp only [Option.bind_some]
      cases Text.fromStrRadix16 bits digits with
      | none => simp
      | some n => simp

/-- The fields are cut out between characters, up to the first that is not a number. -/
def CutsBetween (bits : Nat) (s : List Char) : List (Nat × Nat) → Prop
  | [] => True
  | (start, stop) :: fields => (IsBoundary s start ∧ IsBoundary s stop) ∧
      ∀ n, Reads bits s start stop n → CutsBetween bits s fields

/-- Between the characters of an ASCII text is everywhere. -/
theorem cutsBetween_of_ascii (h : ∀ c ∈ s, c.utf8Size = 1) {fields : List (Nat × Nat)}
    (hfields : ∀ p ∈ fields, p.1 ≤ s.length ∧ p.2 ≤ s.length) : CutsBetween bits s fields := by
  induction fields with
  | nil => trivial
  | cons p fields ih =>
      obtain ⟨hstart, hstop⟩ := hfields p List.mem_cons_self
      exact ⟨⟨Text.isBoundary_of_ascii h hstart, Text.isBoundary_of_ascii h hstop⟩,
        fun n _ ↦ ih fun q hq ↦ hfields q (List.mem_cons_of_mem p hq)⟩

end Parse

/-! ## UUIDs -/

namespace UUID

open Parse

/-- The positions of the delimiters, counted in characters behind the first four. -/
theorem returns_checkDelimiters_bind {β : Type} {y : Parse β} (n : Nat) (cs : List Char) :
    (checkDelimiters n cs >>= fun _ ↦ y).Returns ↔
      (∀ k < n, (∀ j < k, cs[5 * j + 4]? = some '-') → 5 * k + 4 < cs.length) ∧
        ((∀ k < n, cs[5 * k + 4]? = some '-') → y.Returns) := by
  induction n generalizing cs with
  | zero => simp [checkDelimiters]
  | succ n ih =>
      have hsucc (j : Nat) : 5 * (j + 1) + 4 = 5 + (5 * j + 4) := by omega
      have hdrop (j : Nat) : cs[5 * (j + 1) + 4]? = (cs.drop 5)[5 * j + 4]? := by
        rw [hsucc, List.getElem?_drop]
      have hlen (k : Nat) : 5 * (k + 1) + 4 < cs.length ↔ 5 * k + 4 < (cs.drop 5).length := by
        rw [List.length_drop]
        omega
      simp only [checkDelimiters, bind_assoc, returns_nthUnwrap_bind, Nat.forall_lt_succ_left,
        hdrop, hlen]
      rcases hc : cs[4]? with _ | c
      · have hle : cs.length ≤ 4 := List.getElem?_eq_none_iff.mp hc
        simp [Nat.not_lt.mpr hle]
      · have hlt : 4 < cs.length := (List.getElem?_eq_some_iff.mp hc).1
        by_cases hdash : c = '-'
        · subst hdash
          simp [hlt, ih]
        · simp [hlt, hdash]

/-- The groups of a UUID. -/
def groups : List (Nat × Nat) := [(0, 8), (9, 13), (14, 18), (19, 23), (24, 36)]

/-- The characters of a text of 36 bytes are where the parsers of UUIDs look for them: a
delimiter is looked for behind the text by none that found dashes so far, and where all four
dashes are found, no group starts or ends inside a character before one is not a number. -/
def Aligned (s : List Char) : Prop :=
  Text.utf8Len s = 36 →
    (∀ k < 4, (∀ j < k, s[5 * j + 8]? = some '-') → 5 * k + 8 < s.length) ∧
      ((∀ k < 4, s[5 * k + 8]? = some '-') → CutsBetween 128 s groups)

/-- `UUID::from_str` behind its checks. -/
def readGroups (s : List Char) : Parse UUID := do
  let first ← field 128 s 0 8
  let second ← field 128 s 9 13
  let third ← field 128 s 14 18
  let fourth ← field 128 s 19 23
  let fifth ← field 128 s 24 36
  return ⟨BitVec.ofNat 128 first <<< 96 ||| BitVec.ofNat 128 second <<< 80 |||
    BitVec.ofNat 128 third <<< 64 ||| BitVec.ofNat 128 fourth <<< 48 ||| BitVec.ofNat 128 fifth⟩

/-- The first delimiter is one more round of the loop, four characters into the text. -/
theorem fromStr_eq {s : List Char} (h : Text.utf8Len s = 36) :
    fromStr s = checkDelimiters 4 (s.drop 4) >>= fun _ ↦ readGroups s := by
  have hfirst : nthUnwrap (s.drop 4) 4 = nthUnwrap s 8 := by
    rw [nthUnwrap, nthUnwrap, List.drop_drop]
  rw [fromStr, checkDelimiters, hfirst, bind_assoc]
  simp only [h, ne_eq, not_true_eq_false, ↓reduceIte]
  congr 1
  funext next
  by_cases hdash : next.1 = '-'
  · simp [hdash, readGroups]
  · simp [hdash]


theorem aligned_of_ascii {s : List Char} (h : ∀ c ∈ s, c.utf8Size = 1) : Aligned s := by
  intro hlen
  rw [Text.utf8Len_eq_length h] at hlen
  refine ⟨fun k hk _ ↦ by omega, fun _ ↦ cutsBetween_of_ascii h ?_⟩
  simp [groups, hlen]

theorem returns_readGroups {s : List Char} :
    (readGroups s).Returns ↔ CutsBetween 128 s groups := by
  simp (disch := decide) only [readGroups, groups, CutsBetween, returns_field_bind, returns_pure]

theorem returns_fromStr_iff {s : List Char} : (fromStr s).Returns ↔ Aligned s := by
  rw [Aligned]
  by_cases hlen : Text.utf8Len s = 36
  · rw [fromStr_eq hlen, returns_checkDelimiters_bind, returns_readGroups]
    have hchar (j : Nat) : (s.drop 4)[5 * j + 4]? = s[5 * j + 8]? := by
      rw [List.getElem?_drop]
      congr 1
      omega
    have hlast (k : Nat) : 5 * k + 4 < (s.drop 4).length ↔ 5 * k + 8 < s.length := by
      rw [List.length_drop]
      omega
    simp only [hchar, hlast, hlen, true_imp_iff]
  · simp [fromStr, hlen]

end UUID

/-! ## `validate_uuid` -/

/-- `iter.nth(n)`: the character, and the rest of the iterator. -/
def Parse.nth (cs : List Char) (n : Nat) : Option (Char × List Char) :=
  match cs.drop n with
  | c :: rest => some (c, rest)
  | [] => none

/-- The loop over the last three delimiters; no value is a panic. -/
def validateDelimiters : Nat → List Char → Option Bool
  | 0, _ => some true
  | n + 1, cs => do
      let (c, rest) ← Parse.nth cs 4
      if c ≠ '-' then return false
      validateDelimiters n rest

/-- The closure `parse` of `validate_uuid`. -/
def parseGroups (s : List Char) : Parse Unit := do
  let _ ← Parse.field 128 s 0 8
  let _ ← Parse.field 128 s 9 13
  let _ ← Parse.field 128 s 14 18
  let _ ← Parse.field 128 s 19 23
  let _ ← Parse.field 128 s 24 36
  return ()

/-- `validate_uuid`; no value is a panic. -/
def validateUuid (s : List Char) : Option Bool := do
  if Text.utf8Len s ≠ 36 then return false
  let (c, rest) ← Parse.nth s 8
  if c ≠ '-' then return false
  if !(← validateDelimiters 3 rest) then return false
  let parsed ← (parseGroups s).run
  return parsed.isOk

namespace Parse

variable {α β : Type} {x : Parse α} {f : α → Parse β}

/-- Whether the parser succeeds; no value is a panic. -/
def isOk (x : Parse α) : Option Bool := x.run.map Except.isOk

@[simp] theorem isOk_pure (a : α) : (pure a : Parse α).isOk = some true := rfl

@[simp] theorem isOk_throw (e : IDParseError) : (throw e : Parse α).isOk = some false := rfl

theorem isSome_isOk : (isOk x).isSome ↔ x.Returns := by
  rw [isOk, Option.isSome_map]
  rfl

theorem isOk_nthUnwrap_bind {cs : List Char} {n : Nat} {f : Char × List Char → Parse β} :
    (nthUnwrap cs n >>= f).isOk = (nth cs n).bind fun next ↦ (f next).isOk := by
  rw [nthUnwrap, nth]
  cases cs.drop n with
  | nil => rfl
  | cons c rest => rw [pure_bind]; rfl

/-- What a parser does with the value it gets does not matter, where it always succeeds. -/
theorem isOk_bind {g : α → Parse Unit} (h : ∀ a, (f a).isOk = (g a).isOk) :
    (x >>= f).isOk = (x >>= g).isOk := by
  rcases x with _ | _ | a
  · rfl
  · rfl
  · exact h a

end Parse

open Parse in
theorem isOk_checkDelimiters_bind {β : Type} {y : Parse β} (n : Nat) (cs : List Char) :
    (UUID.checkDelimiters n cs >>= fun _ ↦ y).isOk =
      (validateDelimiters n cs).bind fun ok ↦ if ok then y.isOk else some false := by
  induction n generalizing cs with
  | zero => simp [UUID.checkDelimiters, validateDelimiters]
  | succ n ih =>
      rw [UUID.checkDelimiters, validateDelimiters, bind_assoc, isOk_nthUnwrap_bind]
      cases nth cs 4 with
      | none => rfl
      | some next =>
          by_cases hdash : next.1 = '-'
          · simp [hdash, ih]
          · simp [hdash]

/-- The groups are read alike. -/
theorem isOk_readGroups (s : List Char) : (UUID.readGroups s).isOk = (parseGroups s).isOk := by
  rw [UUID.readGroups, parseGroups]
  refine Parse.isOk_bind fun first ↦ Parse.isOk_bind fun second ↦ Parse.isOk_bind fun third ↦
    Parse.isOk_bind fun fourth ↦ Parse.isOk_bind fun fifth ↦ rfl

/-- **`validate_uuid` is `UUID::from_str`** without the value. -/
theorem validateUuid_eq (s : List Char) : validateUuid s = (UUID.fromStr s).isOk := by
  rw [validateUuid, UUID.fromStr]
  by_cases hlen : Text.utf8Len s = 36
  · simp only [hlen, ne_eq, not_true_eq_false, ↓reduceIte, Parse.isOk_nthUnwrap_bind]
    rcases Parse.nth s 8 with _ | next
    · rfl
    · by_cases hdash : next.1 = '-'
      · have hgroups := isOk_readGroups s
        rw [UUID.readGroups] at hgroups
        simp only [Option.bind_eq_bind, Option.bind_some, hdash, not_true_eq_false, ↓reduceIte,
          isOk_checkDelimiters_bind, hgroups]
        refine congrArg (Option.bind _) (funext fun ok ↦ ?_)
        cases ok with
        | false => rfl
        | true => exact (Option.map_eq_bind ..).symm
      · simp [hdash]
  · simp [hlen]

theorem isSome_validateUuid_iff {s : List Char} : (validateUuid s).isSome ↔ UUID.Aligned s := by
  rw [validateUuid_eq, Parse.isSome_isOk, UUID.returns_fromStr_iff]

/-- `Unmarshal for UUID`, from what the text it is sent as unmarshals to. -/
def UUID.unmarshal {ε : Type} (invalidType : ε) (text : Except ε (Nat × List Char)) :
    ExceptT ε Option (Nat × UUID) := do
  let (used, s) ← ExceptT.mk (some text)
  let uuid ← ExceptT.mk ((fromStr s).run.map fun parsed ↦ parsed.mapError fun _ ↦ invalidType)
  return (used, uuid)

theorem UUID.unmarshal_ok {ε : Type} {invalidType : ε} {used : Nat} {s : List Char} :
    unmarshal invalidType (.ok (used, s)) = do
      let uuid ← ExceptT.mk ((fromStr s).run.map fun parsed ↦ parsed.mapError fun _ ↦ invalidType)
      return (used, uuid) := rfl

theorem UUID.isSome_unmarshal_iff {ε : Type} {invalidType : ε} {used : Nat} {s : List Char} :
    (unmarshal invalidType (.ok (used, s))).run.isSome ↔ Aligned s := by
  rw [← returns_fromStr_iff, Parse.Returns, unmarshal_ok]
  rcases fromStr s with _ | _ | uuid
  · rfl
  · rfl
  · rfl

/-! ## MAC addresses -/

namespace MAC

open Parse

/-- The octets of an address. -/
def octets : List (Nat × Nat) := [(0, 2), (3, 5), (6, 8), (9, 11), (12, 14), (15, 17)]

/-- The characters of a text of 17 bytes are where the parser of addresses looks for them:
where every third one is a colon, no octet starts or ends inside a character before one is
not a number. -/
def Aligned (s : List Char) : Prop :=
  Text.utf8Len s = 17 → (∀ k c, s[3 * k + 2]? = some c → c = ':') → CutsBetween 8 s octets

theorem getElem?_stepBy3 (k : Nat) (cs : List Char) : (stepBy3 cs)[k]? = cs[3 * k]? := by
  induction k generalizing cs with
  | zero =>
      cases cs with
      | nil => rfl
      | cons c cs => rw [stepBy3.eq_def]; rfl
  | succ k ih =>
      rcases cs with _ | ⟨c, _ | ⟨d, _ | ⟨e, cs⟩⟩⟩
      · rfl
      · rfl
      · rfl
      · exact ih cs

/-- The delimiters are every third character. -/
theorem delimiters_iff {s : List Char} :
    (stepBy3 (s.drop 2)).any (· ≠ ':') = false ↔ ∀ k c, s[3 * k + 2]? = some c → c = ':' := by
  have hget (k : Nat) : (stepBy3 (s.drop 2))[k]? = s[3 * k + 2]? := by
    rw [getElem?_stepBy3, List.getElem?_drop, Nat.add_comm]
  simp only [List.any_eq_false, List.mem_iff_getElem?, hget]
  constructor
  · intro h k c hc
    simpa using h c ⟨k, hc⟩
  · rintro h c ⟨k, hc⟩
    simpa using h k c hc

theorem returns_fromStr_iff {s : List Char} : (fromStr s).Returns ↔ Aligned s := by
  rw [fromStr, Aligned, ← delimiters_iff]
  by_cases hlen : Text.utf8Len s = 17
  · cases hdelim : (stepBy3 (s.drop 2)).any (· ≠ ':') with
    | true => simp [hlen]
    | false =>
        simp (disch := decide) only [hlen, octets, CutsBetween, returns_field_bind,
          returns_pure, ne_eq, not_true_eq_false, Bool.false_eq_true, ↓reduceIte, true_imp_iff]
  · simp [hlen]

/-- `mac[i] = octet`; no value is a panic. -/
def setUnwrap (mac : List Nat) (i octet : Nat) : Option (List Nat) :=
  if i < mac.length then some (mac.set i octet) else none

/-- One round of the loop in `from_dev_str`: what is missing is `None`. -/
def readOctet (addrStr : List Char) (mac : List Nat) (i : Nat) : OptionT Option (List Nat) := do
  let s ← OptionT.mk (some (Text.slice addrStr (i * 3 + 1) (i * 3 + 3)))
  let octet ← OptionT.mk (some (Text.fromStrRadix16 8 s))
  OptionT.lift (setUnwrap mac i octet)

/-- `MAC::from_dev_str`: `None` is a failure, no value at all is a panic. -/
def fromDevStr (child : List Char) : OptionT Option MAC := do
  if !"dev_".toList.isPrefixOf child then failure
  let addrStr ← OptionT.mk (some (Text.dropBytes child 3))
  let mac ← (List.range 6).foldlM (readOctet addrStr) (List.replicate 6 0)
  return ⟨BitVec.ofNat 32 (fromBeBytes (mac.take 4)), BitVec.ofNat 16 (fromBeBytes (mac.drop 4))⟩

/-- `o?` where `None` is returned and nothing panics. -/
theorem get_bind {α β : Type} (o : Option α) (f : α → OptionT Option β) :
    OptionT.mk (some o) >>= f = o.elim failure f := by
  cases o <;> rfl

/-- The array the octets go to has room for each of them. -/
theorem run_readOctet (addrStr : List Char) {mac : List Nat} {i : Nat} (hi : i < mac.length) :
    ∃ read, (readOctet addrStr mac i).run = some read ∧
      ∀ mac', read = some mac' → mac'.length = mac.length := by
  rw [readOctet, get_bind]
  cases Text.slice addrStr (i * 3 + 1) (i * 3 + 3) with
  | none => exact ⟨none, rfl, by simp⟩
  | some s =>
      rw [Option.elim_some, get_bind]
      cases Text.fromStrRadix16 8 s with
      | none => exact ⟨none, rfl, by simp⟩
      | some octet =>
          refine ⟨some (mac.set i octet), ?_, by simp⟩
          show (OptionT.lift (setUnwrap mac i octet)).run = _
          rw [setUnwrap, if_pos hi]
          rfl

theorem isSome_foldlM_readOctet {addrStr : List Char} (is : List Nat) {mac : List Nat}
    (h : ∀ i ∈ is, i < mac.length) : (is.foldlM (readOctet addrStr) mac).run.isSome := by
  induction is generalizing mac with
  | nil => rfl
  | cons i is ih =>
      obtain ⟨read, hread, hlen⟩ := run_readOctet addrStr (h i List.mem_cons_self)
      rw [List.foldlM_cons, OptionT.run_bind, hread]
      cases read with
      | none => rfl
      | some mac' =>
          refine ih fun j hj ↦ ?_
          rw [hlen mac' rfl]
          exact h j (List.mem_cons_of_mem i hj)

/-- **`from_dev_str` always returns.** -/
theorem isSome_fromDevStr (child : List Char) : (fromDevStr child).run.isSome := by
  rw [fromDevStr]
  by_cases hdev : "dev_".toList.isPrefixOf child
  · simp only [hdev, Bool.not_true, Bool.false_eq_true, ↓reduceIte, get_bind]
    cases Text.dropBytes child 3 with
    | none => rfl
    | some addrStr =>
        have hloop : ((List.range 6).foldlM (readOctet addrStr) (List.replicate 6 0)).run.isSome :=
          isSome_foldlM_readOctet (List.range 6) (by simp)
        obtain ⟨read, hread⟩ := Option.isSome_iff_exists.mp hloop
        rw [Option.elim_some, OptionT.run_bind, hread]
        cases read with
        | none => rfl
        | some mac => rfl
  · simp only [hdev]
    rfl

end MAC

/-! ## All of them -/

/-- The parsers of ids come back with a value or an error. -/
structure ParsersReturn (s : List Char) : Prop where
  fromStr : (UUID.fromStr s).Returns
  unmarshal : ∀ {ε : Type} (invalidType : ε) (used : Nat),
    (UUID.unmarshal invalidType (.ok (used, s))).run.isSome
  validateUuid : (validateUuid s).isSome
  fromStrMAC : (MAC.fromStr s).Returns
  fromDevStr : (MAC.fromDevStr s).run.isSome

/-- **The parsers of ids return** exactly on the texts whose characters are aligned with the
byte positions as far as they look. -/
theorem parsersReturn_iff (s : List Char) :
    ParsersReturn s ↔ UUID.Aligned s ∧ MAC.Aligned s := by
  constructor
  · intro h
    exact ⟨UUID.returns_fromStr_iff.mp h.fromStr, MAC.returns_fromStr_iff.mp h.fromStrMAC⟩
  · rintro ⟨huuid, hmac⟩
    exact {
      fromStr := UUID.returns_fromStr_iff.mpr huuid
      unmarshal := fun _ _ ↦ UUID.isSome_unmarshal_iff.mpr huuid
      validateUuid := isSome_validateUuid_iff.mpr huuid
      fromStrMAC := MAC.returns_fromStr_iff.mpr hmac
      fromDevStr := MAC.isSome_fromDevStr s }

/-- A text of 36 bytes with only twelve characters has no second delimiter to unwrap; in an
address whose second character takes two bytes, the first octet ends inside it. -/
theorem parsers_panic :
    (UUID.fromStr (List.replicate 8 '😀' ++ ['-', 'a', 'b', 'c'])).run = none ∧
      validateUuid (List.replicate 8 '😀' ++ ['-', 'a', 'b', 'c']) = none ∧
      (MAC.fromStr "aé:bb:bb:bb:bb:b".toList).run = none ∧
      ¬ParsersReturn (List.replicate 8 '😀' ++ ['-', 'a', 'b', 'c']) ∧
      ¬ParsersReturn "aé:bb:bb:bb:bb:b".toList := by
  have huuid : ¬UUID.Aligned (List.replicate 8 '😀' ++ ['-', 'a', 'b', 'c']) := by
    intro h
    have hlen := (h (by decide)).1 1 (by decide) (by decide)
    contradiction
  have hmac : ¬MAC.Aligned "aé:bb:bb:bb:bb:b".toList := by
    intro h
    have hcut := (h (by decide) (MAC.delimiters_iff.mp (by simp [MAC.stepBy3]))).1.2
    rw [← Text.isSome_dropBytes] at hcut
    revert hcut
    decide
  refine ⟨?_, ?_, ?_, fun h ↦ huuid (UUID.returns_fromStr_iff.mp h.fromStr),
    fun h ↦ hmac (MAC.returns_fromStr_iff.mp h.fromStrMAC)⟩
  · exact Option.not_isSome_iff_eq_none.mp fun h ↦ huuid (UUID.returns_fromStr_iff.mp h)
  · exact Option.not_isSome_iff_eq_none.mp fun h ↦ huuid (isSome_validateUuid_iff.mp h)
  · exact Option.not_isSome_iff_eq_none.mp fun h ↦ hmac (MAC.returns_fromStr_iff.mp h)

end Rustable
