import Rustable.Id.Panics

/-!
# One sequence of checks, written twice

`validate_uuid` repeats what `UUID::from_str` checks: the length, the delimiters and the
groups, each of which is right, wrong or a reason to panic.  The copies agree check by
check, and so they do on every sequence of checks that stops at the first one that is not
right (`isOk_runChecks`).  What the two functions do is one of these sequences
(`isOk_fromStr`, `validateUuid_eq_validateChecks`).

## Main results

* `decidesAlike`: `validate_uuid` and `UUID::from_str` accept, reject and panic alike
-/

namespace Rustable

open Parse

/-! ## The checks -/

/-- A check of the text of a UUID. -/
inductive IdCheck
  | length
  /-- A dash behind a group. -/
  | delimiter (k : Nat)
  /-- The bytes of a group. -/
  | group (g : Nat × Nat)

/-- The order the checks are made in. -/
def IdCheck.inOrder : List IdCheck :=
  .length :: ((List.range' 0 4).map .delimiter ++ UUID.groups.map .group)

/-- A check of `UUID::from_str`. -/
def UUID.check (s : List Char) : IdCheck → Parse Unit
  | .length => if Text.utf8Len s ≠ 36 then throw .invalidLength else pure ()
  | .delimiter k => do
      let (c, _) ← nthUnwrap s (5 * k + 8)
      if c ≠ '-' then throw .invalidDelimiter
  | .group g => do
      let _ ← field 128 s g.1 g.2

/-- A check of `validate_uuid`; no value is a panic. -/
def validateCheck (s : List Char) : IdCheck → Option Bool
  | .length => some (Text.utf8Len s = 36)
  | .delimiter k => (nth s (5 * k + 8)).map fun next ↦ next.1 = '-'
  | .group g => (field 128 s g.1 g.2).isOk

/-- The checks of `UUID::from_str` in some order, up to the first error or panic. -/
def UUID.runChecks (s : List Char) : List IdCheck → Parse Unit
  | [] => pure ()
  | c :: cs => do
      check s c
      runChecks s cs

/-- The checks of `validate_uuid` in some order, up to the first that is not right. -/
def validateChecks (s : List Char) : List IdCheck → Option Bool
  | [] => some true
  | c :: cs => do
      if !(← validateCheck s c) then return false
      validateChecks s cs

/-! ## The copies of a check agree -/

theorem isOk_check (s : List Char) (c : IdCheck) :
    (UUID.check s c).isOk = validateCheck s c := by
  cases c with
  | length =>
      rw [UUID.check, validateCheck]
      by_cases hlen : Text.utf8Len s = 36
      · simp [hlen]
      · simp [hlen]
  | delimiter k =>
      rw [UUID.check, validateCheck, isOk_nthUnwrap_bind]
      cases nth s (5 * k + 8) with
      | none => rfl
      | some next =>
          by_cases hdash : next.1 = '-'
          · simp [hdash]
          · simp [hdash]
  | group g =>
      rw [UUID.check, validateCheck]
      rcases field 128 s g.1 g.2 with _ | _ | n
      · rfl
      · rfl
      · rfl

/-- A sequence goes on if its first part succeeds. -/
theorem Parse.isOk_unit_bind {x y : Parse Unit} :
    (x >>= fun _ ↦ y).isOk = x.isOk.bind fun ok ↦ if ok then y.isOk else some false := by
  rcases x with _ | _ | ⟨⟩
  · rfl
  · rfl
  · rfl

/-- **The order of the checks does not matter** to whether the copies agree. -/
theorem isOk_runChecks (s : List Char) (checks : List IdCheck) :
    (UUID.runChecks s checks).isOk = validateChecks s checks := by
  induction checks with
  | nil => rfl
  | cons c cs ih =>
      rw [UUID.runChecks, isOk_unit_bind, isOk_check, validateChecks]
      refine congrArg (Option.bind _) (funext fun ok ↦ ?_)
      cases ok with
      | false => rfl
      | true => exact ih

/-! ## The functions make these checks -/

theorem UUID.runChecks_append (s : List Char) (cs cs' : List IdCheck) :
    runChecks s (cs ++ cs') = runChecks s cs >>= fun _ ↦ runChecks s cs' := by
  induction cs with
  | nil => rfl
  | cons c cs ih =>
      rw [List.cons_append, runChecks, runChecks, bind_assoc]
      exact congrArg _ (funext fun _ ↦ ih)

/-- The loop over the delimiters from the `k`th on. -/
theorem UUID.checkDelimiters_eq (s : List Char) (n k : Nat) :
    checkDelimiters n (s.drop (5 * k + 4)) = runChecks s ((List.range' k n).map .delimiter) := by
  induction n generalizing k with
  | zero => rfl
  | succ n ih =>
      have hchar : nthUnwrap (s.drop (5 * k + 4)) 4 = nthUnwrap s (5 * k + 8) := by
        rw [nthUnwrap, nthUnwrap, List.drop_drop]
      have hrest {c : Char} {rest : List Char} (h : s.drop (5 * k + 8) = c :: rest) :
          rest = s.drop (5 * (k + 1) + 4) := by
        rw [show 5 * (k + 1) + 4 = 5 * k + 8 + 1 by omega, ← List.tail_drop, h, List.tail_cons]
      rw [List.range'_succ, List.map_cons, runChecks, checkDelimiters, check, hchar, nthUnwrap]
      cases h : s.drop (5 * k + 8) with
      | nil => rfl
      | cons c rest =>
          by_cases hdash : c = '-'
          · simp [hdash, hrest h, ih]
          · simp [hdash]

/-- Reading the groups is a check of each, as far as success goes. -/
theorem UUID.isOk_readGroups_eq (s : List Char) :
    (readGroups s).isOk = (runChecks s (groups.map .group)).isOk := by
  rw [isOk_readGroups, parseGroups]
  simp [runChecks, groups, check]

/-- **What `UUID::from_str` does** before it returns a value. -/
theorem isOk_fromStr (s : List Char) :
    (UUID.fromStr s).isOk = (UUID.runChecks s IdCheck.inOrder).isOk := by
  have hlength : UUID.runChecks s IdCheck.inOrder = UUID.check s .length >>= fun _ ↦
      UUID.runChecks s ((List.range' 0 4).map .delimiter ++ UUID.groups.map .group) := rfl
  rw [hlength, UUID.check]
  by_cases hlen : Text.utf8Len s = 36
  · rw [UUID.fromStr_eq hlen, if_neg (not_not.mpr hlen), pure_bind, UUID.runChecks_append,
      ← UUID.checkDelimiters_eq]
    rcases UUID.checkDelimiters 4 (s.drop 4) with _ | _ | ⟨⟩
    · rfl
    · rfl
    · exact UUID.isOk_readGroups_eq s
  · simp [UUID.fromStr, hlen]

theorem validateUuid_eq_validateChecks (s : List Char) :
    validateUuid s = validateChecks s IdCheck.inOrder := by
  rw [validateUuid_eq, isOk_fromStr, isOk_runChecks]

/-! ## What follows for the functions -/

namespace Parse

variable {α : Type} {x : Parse α}

theorem isOk_eq_true_iff : x.isOk = some true ↔ ∃ a, x = pure a := by
  rcases x with _ | e | a
  · exact iff_of_false (fun h ↦ nomatch h) fun ⟨_, h⟩ ↦ nomatch h
  · exact iff_of_false (fun h ↦ nomatch Option.some.inj h) fun ⟨_, h⟩ ↦ nomatch Option.some.inj h
  · exact iff_of_true rfl ⟨a, rfl⟩

theorem isOk_eq_false_iff : x.isOk = some false ↔ ∃ e, x = throw e := by
  rcases x with _ | e | a
  · exact iff_of_false (fun h ↦ nomatch h) fun ⟨_, h⟩ ↦ nomatch h
  · exact iff_of_true rfl ⟨e, rfl⟩
  · exact iff_of_false (fun h ↦ nomatch Option.some.inj h) fun ⟨_, h⟩ ↦ nomatch Option.some.inj h

theorem isOk_eq_none_iff : x.isOk = none ↔ x = panic := by
  rcases x with _ | e | a
  · exact iff_of_true rfl rfl
  · exact iff_of_false (fun h ↦ nomatch h) fun h ↦ nomatch h
  · exact iff_of_false (fun h ↦ nomatch h) fun h ↦ nomatch h

end Parse

/-- `validate_uuid` and `UUID::from_str` accept, reject and panic on the same texts, and would if
they made their checks in another order. -/
structure DecidesAlike (s : List Char) : Prop where
  accepts : validateUuid s = some true ↔ ∃ u, UUID.fromStr s = pure u
  rejects : validateUuid s = some false ↔ ∃ e, UUID.fromStr s = throw e
  panics : validateUuid s = none ↔ UUID.fromStr s = panic
  anyOrder : ∀ checks, validateChecks s checks = (UUID.runChecks s checks).isOk
  inOrder : validateUuid s = validateChecks s IdCheck.inOrder ∧
    (UUID.fromStr s).isOk = (UUID.runChecks s IdCheck.inOrder).isOk

/-- **`validate_uuid` and `UUID::from_str` decide the same language.** -/
theorem decidesAlike (s : List Char) : DecidesAlike s where
  accepts := by rw [validateUuid_eq, isOk_eq_true_iff]
  rejects := by rw [validateUuid_eq, isOk_eq_false_iff]
  panics := by rw [validateUuid_eq, isOk_eq_none_iff]
  anyOrder := fun checks ↦ (isOk_runChecks s checks).symm
  inOrder := ⟨validateUuid_eq_validateChecks s, isOk_fromStr s⟩

end Rustable
