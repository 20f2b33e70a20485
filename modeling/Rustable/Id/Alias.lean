import Rustable.Id

/-!
# The 16- and 32-bit aliases of UUIDs

Every 16- and every 32-bit number stands for a UUID: the number in front, the bits of
`BT_BASE_UUID` behind.  `short` and `uint` go back.  Both test that the UUID has no bit
outside `BT_BASE_UUID` and the alias; neither tests that the bits of `BT_BASE_UUID` are
there.

## Main results

* `fromU32_eq_add`, `fromU16_eq_add`: the conversion in the words of the docs
* `aliasBits_eq_some_iff`: when an alias is given, and which
* `uint_fromU32`, `short_fromU16`: going back is exact on the UUIDs that have an alias
* `aliasExact_iff`: on which UUIDs no other alias is made up
-/

namespace Rustable

/-- `BT_BASE_UUID` -/
def btBaseUuid : UUID := ⟨0x0000000000001000800000805F9B34FB#128⟩

/-- `struct OutOfRange` -/
structure OutOfRange where
deriving DecidableEq

namespace UUID

/-- `From<u32> for UUID` -/
def fromU32 (u : BitVec 32) : UUID := ⟨u.setWidth 128 <<< 96 ||| btBaseUuid.val⟩

/-- `From<u16> for UUID` -/
def fromU16 (u : BitVec 16) : UUID := fromU32 (u.setWidth 32)

/-- `U16_MAX_UUID` and `U32_MAX_UUID`: the bits a UUID with an alias of `w` bits can have. -/
def maxUuid (w : Nat) : BitVec 128 :=
  btBaseUuid.val ||| (BitVec.allOnes w).setWidth 128 <<< 96

/-- The body `short` and `uint` share. -/
def aliasBits (w : Nat) (u : UUID) : Option (BitVec w) :=
  if u.val &&& ~~~maxUuid w = 0 then some ((u.val >>> 96).setWidth w) else none

/-- `UUID::short` -/
def short (u : UUID) : Option (BitVec 16) := aliasBits 16 u

/-- `UUID::uint` -/
def uint (u : UUID) : Option (BitVec 32) := aliasBits 32 u

/-- `TryFrom<UUID> for u16` -/
def tryU16 (u : UUID) : Except OutOfRange (BitVec 16) := u.short.elim (.error ⟨⟩) .ok

/-- `TryFrom<UUID> for u32` -/
def tryU32 (u : UUID) : Except OutOfRange (BitVec 32) := u.uint.elim (.error ⟨⟩) .ok

variable {w : Nat} {u : UUID}

/-! ## Bits -/

/-- The bits of `BT_BASE_UUID` are below the alias. -/
theorem getLsbD_btBaseUuid {i : Nat} (hi : 96 ≤ i) : btBaseUuid.val.getLsbD i = false := by
  have hlow : btBaseUuid.val >>> 96 = 0 := rfl
  have hbit := BitVec.getLsbD_ushiftRight btBaseUuid.val 96 (i - 96)
  rw [hlow, Nat.add_sub_cancel' hi] at hbit
  rw [← hbit]
  exact BitVec.getLsbD_zero

/-- The bits of a number put in front. -/
theorem getLsbD_front (a : BitVec w) (hw : w ≤ 32) (i : Nat) :
    (a.setWidth 128 <<< 96).getLsbD i = (decide (96 ≤ i) && a.getLsbD (i - 96)) := by
  rw [BitVec.getLsbD_shiftLeft, BitVec.getLsbD_setWidth]
  by_cases hi : i < 96 + w
  · have h128 : i < 128 := by omega
    have hsub : i - 96 < 128 := by omega
    by_cases h96 : 96 ≤ i
    · simp [h96, h128, hsub]
    · simp [h96, Nat.lt_of_not_le h96]
  · rw [BitVec.getLsbD_of_ge a (i - 96) (by omega)]
    simp

/-- A shorter number is put in front by the same conversion. -/
theorem fromU16_val (a : BitVec 16) :
    (fromU16 a).val = a.setWidth 128 <<< 96 ||| btBaseUuid.val := by
  have hwidth : (a.setWidth 32).setWidth 128 = a.setWidth 128 :=
    BitVec.setWidth_setWidth (by decide)
  rw [fromU16, fromU32, hwidth]

/-- **The documented conversion** is an addition: no bit is on both sides. -/
theorem front_or_base (a : BitVec w) (hw : w ≤ 32) :
    a.setWidth 128 <<< 96 ||| btBaseUuid.val = a.setWidth 128 <<< 96 + btBaseUuid.val := by
  symm
  apply BitVec.add_eq_or_of_and_eq_zero
  apply BitVec.eq_of_getLsbD_eq
  intro i _
  rw [BitVec.getLsbD_and, getLsbD_front a hw, BitVec.getLsbD_zero]
  by_cases hi : 96 ≤ i
  · rw [getLsbD_btBaseUuid hi, Bool.and_false]
  · simp [hi]

theorem fromU32_eq_add (a : BitVec 32) :
    (fromU32 a).val = a.setWidth 128 <<< 96 + btBaseUuid.val :=
  front_or_base a (Nat.le_refl 32)

theorem fromU16_eq_add (a : BitVec 16) :
    (fromU16 a).val = a.setWidth 128 <<< 96 + btBaseUuid.val := by
  rw [fromU16_val, front_or_base a (by omega)]

/-! ## The range test -/

/-- What `short` and `uint` test: no bit outside `BT_BASE_UUID` and the alias. -/
def InRange (w : Nat) (u : UUID) : Prop := u.val &&& ~~~maxUuid w = 0

instance (w : Nat) (u : UUID) : Decidable (InRange w u) := inferInstanceAs (Decidable (_ = _))

/-- What they do not test: every bit of `BT_BASE_UUID` is there. -/
def OverBase (u : UUID) : Prop := u.val &&& btBaseUuid.val = btBaseUuid.val

instance (u : UUID) : Decidable (OverBase u) := inferInstanceAs (Decidable (_ = _))

theorem getLsbD_maxUuid (hw : w ≤ 32) (i : Nat) :
    (maxUuid w).getLsbD i = (btBaseUuid.val.getLsbD i || decide (96 ≤ i ∧ i < 96 + w)) := by
  rw [maxUuid, BitVec.getLsbD_or, getLsbD_front _ hw, BitVec.getLsbD_allOnes, ← Bool.decide_and]
  congr 1
  exact decide_eq_decide.mpr (by omega)

theorem inRange_iff (hw : w ≤ 32) : InRange w u ↔
    ∀ i, u.val.getLsbD i → btBaseUuid.val.getLsbD i ∨ 96 ≤ i ∧ i < 96 + w := by
  refine BitVec.zero_iff_eq_false.trans ⟨?_, ?_⟩
  · intro h i hi
    have hbit := h i
    have h128 : i < 128 := BitVec.lt_of_getLsbD hi
    rw [BitVec.getLsbD_and, hi, BitVec.getLsbD_not, getLsbD_maxUuid hw] at hbit
    rcases Bool.eq_false_or_eq_true (btBaseUuid.val.getLsbD i) with hbase | hbase
    · exact .inl hbase
    · simp only [h128, hbase, decide_true, Bool.true_and, Bool.false_or, Bool.not_eq_false',
        decide_eq_true_eq] at hbit
      exact .inr hbit
  · intro h i
    rw [BitVec.getLsbD_and, BitVec.getLsbD_not, getLsbD_maxUuid hw]
    cases hi : u.val.getLsbD i with
    | false => rfl
    | true =>
        rcases h i hi with hbase | hfront
        · simp [hbase]
        · simp [hfront]

theorem overBase_iff : OverBase u ↔ ∀ i, btBaseUuid.val.getLsbD i → u.val.getLsbD i := by
  constructor
  · intro h i hi
    rw [← h, BitVec.getLsbD_and, Bool.and_eq_true] at hi
    exact hi.1
  · intro h
    apply BitVec.eq_of_getLsbD_eq
    intro i _
    rw [BitVec.getLsbD_and]
    cases hi : btBaseUuid.val.getLsbD i with
    | false => exact Bool.and_false _
    | true => rw [h i hi]; rfl

/-- A UUID in the range of the shorter aliases is in the range of the longer ones. -/
theorem InRange.mono {v : Nat} (hvw : v ≤ w) (hw : w ≤ 32) (h : InRange v u) : InRange w u := by
  rw [inRange_iff hw]
  intro i hi
  rcases (inRange_iff (hvw.trans hw)).mp h i hi with hbase | ⟨h96, hlt⟩
  · exact .inl hbase
  · exact .inr ⟨h96, by omega⟩

/-! ## The aliases -/

/-- **When an alias is given**, and which. -/
theorem aliasBits_eq_some_iff {a : BitVec w} :
    aliasBits w u = some a ↔ InRange w u ∧ (u.val >>> 96).setWidth w = a := by
  rw [aliasBits, InRange]
  split
  · next h => rw [Option.some.injEq, and_iff_right h]
  · next h => exact ⟨by simp, fun hin ↦ absurd hin.1 h⟩

/-- The number put in front is the alias that is given. -/
theorem aliasBits_front (a : BitVec w) (hw : w ≤ 32) :
    aliasBits w ⟨a.setWidth 128 <<< 96 ||| btBaseUuid.val⟩ = some a := by
  rw [aliasBits_eq_some_iff, inRange_iff hw]
  constructor
  · intro i hi
    rw [BitVec.getLsbD_or, getLsbD_front a hw, Bool.or_eq_true, Bool.and_eq_true] at hi
    rcases hi with ⟨h96, ha⟩ | hbase
    · have hlt : i - 96 < w := BitVec.lt_of_getLsbD ha
      have hle : 96 ≤ i := of_decide_eq_true h96
      exact .inr ⟨hle, by omega⟩
    · exact .inl hbase
  · apply BitVec.eq_of_getLsbD_eq
    intro i hi
    rw [BitVec.getLsbD_setWidth, BitVec.getLsbD_ushiftRight, BitVec.getLsbD_or,
      getLsbD_front a hw, getLsbD_btBaseUuid (Nat.le_add_right 96 i), Nat.add_sub_cancel_left]
    simp [hi]

/-- A UUID in range that has every bit of `BT_BASE_UUID` is the one its alias stands for. -/
theorem val_eq_front (hw : w ≤ 32) (hin : InRange w u) (hover : OverBase u) :
    u.val = ((u.val >>> 96).setWidth w).setWidth 128 <<< 96 ||| btBaseUuid.val := by
  apply BitVec.eq_of_getLsbD_eq
  intro i _
  rw [BitVec.getLsbD_or, getLsbD_front _ hw, BitVec.getLsbD_setWidth, BitVec.getLsbD_ushiftRight]
  cases hbase : btBaseUuid.val.getLsbD i with
  | true => rw [overBase_iff.mp hover i hbase, Bool.or_true]
  | false =>
      rw [Bool.or_false]
      cases hi : u.val.getLsbD i with
      | true =>
          rcases (inRange_iff hw).mp hin i hi with h | ⟨h96, hlt⟩
          · rw [hbase] at h
            contradiction
          · have hsub : i - 96 < w := by omega
            simp [h96, hsub, Nat.add_sub_cancel' h96, hi]
      | false =>
          by_cases h96 : 96 ≤ i
          · simp [Nat.add_sub_cancel' h96, hi]
          · simp [h96]

theorem overBase_front (a : BitVec w) : OverBase ⟨a.setWidth 128 <<< 96 ||| btBaseUuid.val⟩ := by
  rw [overBase_iff]
  intro i hi
  rw [BitVec.getLsbD_or, hi, Bool.or_true]

/-- At any width, the alias given is one that stands for the UUID exactly where the range
test cannot miss a bit of `BT_BASE_UUID`. -/
theorem aliasBits_exact_iff (hw : w ≤ 32) :
    (∀ a, aliasBits w u = some a ↔ ⟨a.setWidth 128 <<< 96 ||| btBaseUuid.val⟩ = u) ↔
      (InRange w u → OverBase u) := by
  constructor
  · intro h hin
    have halias := (h ((u.val >>> 96).setWidth w)).mp (aliasBits_eq_some_iff.mpr ⟨hin, rfl⟩)
    rw [← halias]
    exact overBase_front _
  · intro h a
    constructor
    · intro halias
      obtain ⟨hin, rfl⟩ := aliasBits_eq_some_iff.mp halias
      rw [← val_eq_front hw hin (h hin)]
    · rintro rfl
      exact aliasBits_front a hw

/-- What going back is for: at either width, by either conversion, the UUID has the
aliases that stand for it and no other. -/
structure AliasExact (u : UUID) : Prop where
  uint : ∀ a, u.uint = some a ↔ fromU32 a = u
  short : ∀ a, u.short = some a ↔ fromU16 a = u
  tryU32 : ∀ a, u.tryU32 = .ok a ↔ fromU32 a = u
  tryU16 : ∀ a, u.tryU16 = .ok a ↔ fromU16 a = u

theorem tryU32_eq_ok_iff {a : BitVec 32} : u.tryU32 = .ok a ↔ u.uint = some a := by
  rw [tryU32]
  cases u.uint with
  | none => simp
  | some b => simp

theorem tryU16_eq_ok_iff {a : BitVec 16} : u.tryU16 = .ok a ↔ u.short = some a := by
  rw [tryU16]
  cases u.short with
  | none => simp
  | some b => simp

theorem uint_fromU32 (a : BitVec 32) : (fromU32 a).uint = some a :=
  aliasBits_front a (Nat.le_refl 32)

theorem short_fromU16 (a : BitVec 16) : (fromU16 a).short = some a := by
  have hfront : fromU16 a = ⟨a.setWidth 128 <<< 96 ||| btBaseUuid.val⟩ := by
    rw [← fromU16_val]
  rw [hfront]
  exact aliasBits_front a (by omega)

/-- The two widths share one condition: a UUID in the range of `short` is in that of
`uint`. -/
theorem aliasExact_iff_inRange : u.AliasExact ↔ (InRange 32 u → OverBase u) := by
  constructor
  · intro h
    exact (aliasBits_exact_iff (Nat.le_refl 32)).mp h.uint
  · intro h
    have huint : ∀ a, u.uint = some a ↔ fromU32 a = u :=
      (aliasBits_exact_iff (Nat.le_refl 32)).mpr h
    have hshort (a : BitVec 16) : u.short = some a ↔ fromU16 a = u := by
      have hin (hin : InRange 16 u) : OverBase u := h (hin.mono (by decide) (Nat.le_refl 32))
      refine ((aliasBits_exact_iff (by decide)).mpr hin a).trans ?_
      rw [← fromU16_val]
    exact ⟨huint, hshort, fun a ↦ tryU32_eq_ok_iff.trans (huint a),
      fun a ↦ tryU16_eq_ok_iff.trans (hshort a)⟩

/-- **The aliases are exact** on every UUID but those that pass the range test without
every bit of `BT_BASE_UUID`; away from these no two UUIDs share an alias.  The conversion
followed by the way back never needs the condition. -/
theorem aliasExact_iff (u : UUID) :
    (u.AliasExact ↔ (InRange 32 u → OverBase u)) ∧
      (∀ a, fromU32 a = u → u.uint = some a) ∧ (∀ a, fromU16 a = u → u.short = some a) ∧
      ∀ v : UUID, (InRange 32 u → OverBase u) → (InRange 32 v → OverBase v) →
        (∀ a, u.uint = some a → v.uint = some a → u = v) ∧
          ∀ a, u.short = some a → v.short = some a → u = v := by
  refine ⟨aliasExact_iff_inRange, ?_, ?_, ?_⟩
  · rintro a rfl
    exact uint_fromU32 a
  · rintro a rfl
    exact short_fromU16 a
  · intro v hu hv
    have hu := aliasExact_iff_inRange.mpr hu
    have hv := aliasExact_iff_inRange.mpr hv
    constructor
    · intro a hua hva
      exact ((hu.uint a).mp hua).symm.trans ((hv.uint a).mp hva)
    · intro a hua hva
      exact ((hu.short a).mp hua).symm.trans ((hv.short a).mp hva)

/-- The UUID of the heart rate service. -/
theorem aliasExact_heartRate : (fromU16 0x180D#16).AliasExact :=
  (aliasExact_iff _).1.mpr (by decide)

/-- The UUID with no bit at all is no alias of anything, and shares zero with
`BT_BASE_UUID`. -/
theorem zero_aliased :
    (⟨0⟩ : UUID).uint = some 0 ∧ (⟨0⟩ : UUID).short = some 0 ∧ (∀ a, fromU32 a ≠ ⟨0⟩) ∧
      btBaseUuid.uint = some 0 ∧ ¬(⟨0⟩ : UUID).AliasExact := by
  have hne (a : BitVec 32) : fromU32 a ≠ ⟨0⟩ := by
    intro h
    have hover : OverBase (⟨0⟩ : UUID) := h ▸ overBase_front a
    revert hover
    decide
  exact ⟨rfl, rfl, hne, rfl, fun h ↦ hne 0 ((h.uint 0).mp rfl)⟩

end UUID

end Rustable
