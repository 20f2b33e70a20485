import Mathlib.Data.List.Basic

/-!
# Object paths

An object path is the list of its elements, none of which is empty and all of whose
characters are ASCII letters, digits or underscores; the empty list is the root.
`tryFrom` reads the textual form, `toChars` writes it.
-/

namespace DBus

/-- The characters of path elements. -/
def isPathChar (c : Char) : Bool := c.isAlphanum || c == '_'

/-- What may stand between two slashes. -/
def IsElement (e : List Char) : Prop := e ≠ [] ∧ ∀ c ∈ e, isPathChar c = true

instance (e : List Char) : Decidable (IsElement e) :=
  @instDecidableAnd _ _ inferInstance (List.decidableBAll _ e)

/-- A valid object path. -/
@[ext]
structure ObjectPath where
  /-- The elements, from the root on. -/
  elements : List (List Char)
  /-- Each is one. -/
  valid : ∀ e ∈ elements, IsElement e
deriving DecidableEq

namespace ObjectPath

/-- The path `/`. -/
def root : ObjectPath := ⟨[], fun _ h ↦ nomatch h⟩

instance : Inhabited ObjectPath := ⟨root⟩

/-- The textual form. -/
def toChars (p : ObjectPath) : List Char := '/' :: ['/'].intercalate p.elements

/-- Read the elements, separated by slashes. -/
def ofElements (cs : List Char) : Option ObjectPath :=
  if h : ∀ e ∈ cs.splitOn '/', IsElement e then some ⟨cs.splitOn '/', h⟩ else none

/-- Read the textual form. -/
def tryFrom : List Char → Option ObjectPath
  | '/' :: cs => if cs = [] then some root else ofElements cs
  | _ => none

/-- The path one element up. -/
def parent (p : ObjectPath) : Option ObjectPath :=
  if p.elements = [] then none
  else some ⟨p.elements.dropLast, fun e h ↦ p.valid e (List.dropLast_subset _ h)⟩

/-- The last element. -/
def fileName (p : ObjectPath) : Option (List Char) := p.elements.getLast?

/-- The path one element down. -/
def push (p : ObjectPath) (e : List Char) (h : IsElement e) : ObjectPath where
  elements := p.elements ++ [e]
  valid := by
    intro d hd
    rcases List.mem_append.mp hd with hd | hd
    · exact p.valid d hd
    · exact List.mem_singleton.mp hd ▸ h

theorem parent_eq_none {p : ObjectPath} : p.parent = none ↔ p = root := by
  rw [parent, ObjectPath.ext_iff]
  split
  · next h => exact iff_of_true rfl h
  · next h => exact iff_of_false (Option.some_ne_none _) h

theorem parent_isSome {p : ObjectPath} (h : p ≠ root) : ∃ q, p.parent = some q :=
  Option.ne_none_iff_exists'.mp (mt parent_eq_none.mp h)

/-- `q` is an object below `p`. -/
def Below (p q : ObjectPath) : Prop := ∃ names ≠ [], q.elements = p.elements ++ names

theorem below_push (p : ObjectPath) {e : List Char} (h : IsElement e) : p.Below (p.push e h) :=
  ⟨[e], List.cons_ne_nil _ _, rfl⟩

/-- Who is below another has a name. -/
theorem Below.fileName {p q : ObjectPath} (h : p.Below q) : ∃ name, q.fileName = some name := by
  obtain ⟨names, hnames, helems⟩ := h
  refine ⟨names.getLast hnames, ?_⟩
  rw [ObjectPath.fileName, helems, List.getLast?_append_of_ne_nil _ hnames,
    List.getLast?_eq_some_getLast hnames]

theorem push_ne_root (p : ObjectPath) {e : List Char} (h : IsElement e) : p.push e h ≠ root :=
  fun heq ↦ List.append_ne_nil_of_right_ne_nil _ (List.cons_ne_nil _ _) (congrArg elements heq)

/-- Up and down. -/
@[simp] theorem parent_push (p : ObjectPath) {e : List Char} (h : IsElement e) :
    (p.push e h).parent = some p := by
  have hne : p.elements ++ [e] ≠ [] := List.append_ne_nil_of_right_ne_nil _ (List.cons_ne_nil _ _)
  rw [parent, push, if_neg hne]
  exact congrArg some (ObjectPath.ext List.dropLast_concat)

/-- A path one element down tells which element, and of what. -/
theorem push_inj {p q : ObjectPath} {e d : List Char} {he : IsElement e} {hd : IsElement d} :
    p.push e he = q.push d hd ↔ p = q ∧ e = d := by
  constructor
  · intro h
    obtain ⟨helems, hlast⟩ := List.append_inj' (congrArg elements h) rfl
    exact ⟨ObjectPath.ext helems, List.singleton_inj.mp hlast⟩
  · rintro ⟨rfl, rfl⟩
    rfl

/-- Only the single slash reads as the root. -/
theorem ne_root_of_tryFrom {cs : List Char} {p : ObjectPath} (hcs : cs ≠ ['/'])
    (h : tryFrom cs = some p) : p ≠ root := by
  rintro rfl
  rw [tryFrom.eq_def] at h
  split at h
  · next cs =>
      rw [if_neg fun hnil ↦ hcs (by rw [hnil]), ofElements] at h
      split at h
      · have helems : cs.splitOn '/' = [] := congrArg elements (Option.some.inj h)
        exact List.splitOn_ne_nil '/' cs helems
      · contradiction
  · contradiction

/-- Slashes do not stand in elements. -/
theorem slash_notMem {e : List Char} (h : IsElement e) : '/' ∉ e := fun hmem ↦
  absurd (h.2 '/' hmem) (by decide)

/-- Elements joined by slashes are read back. -/
theorem ofElements_intercalate {p : ObjectPath} (h : p ≠ root) :
    ofElements (['/'].intercalate p.elements) = some p := by
  have hne : p.elements ≠ [] := fun hnil ↦ h (ObjectPath.ext hnil)
  have hsplit : (['/'].intercalate p.elements).splitOn '/' = p.elements :=
    List.splitOn_intercalate '/' (fun e he ↦ slash_notMem (p.valid e he)) hne
  simp only [ofElements, hsplit, dif_pos p.valid]

/-- The textual form is read back. -/
theorem tryFrom_toChars {p : ObjectPath} (h : p ≠ root) : tryFrom p.toChars = some p := by
  have hread := ofElements_intercalate h
  by_cases hnil : ['/'].intercalate p.elements = []
  · rw [hnil] at hread
    contradiction
  · rw [toChars, tryFrom, if_neg hnil, hread]

theorem intercalate_snoc {sep e : List Char} {es : List (List Char)} (h : es ≠ []) :
    sep.intercalate (es ++ [e]) = sep.intercalate es ++ (sep ++ e) := by
  induction es with
  | nil => contradiction
  | cons d es ih =>
      cases es with
      | nil => simp
      | cons d' es =>
          rw [List.cons_append, List.cons_append, List.intercalate_cons_cons, ← List.cons_append,
            ih (List.cons_ne_nil _ _), List.intercalate_cons_cons]
          simp only [List.append_assoc]

theorem toChars_push {p : ObjectPath} {e : List Char} (hp : p ≠ root) (h : IsElement e) :
    (p.push e h).toChars = p.toChars ++ '/' :: e := by
  have hne : p.elements ≠ [] := fun hnil ↦ hp (ObjectPath.ext hnil)
  exact congrArg ('/' :: ·) (intercalate_snoc hne)

/-- The text of a path below the root, a slash and an element read as the path one
element down. -/
theorem tryFrom_toChars_append {p : ObjectPath} {e : List Char} (hp : p ≠ root)
    (h : IsElement e) : tryFrom (p.toChars ++ '/' :: e) = some (p.push e h) := by
  rw [← toChars_push hp h]
  exact tryFrom_toChars (push_ne_root p h)

/-- Below the root, whose own slash is one too many, there is no such path. -/
theorem tryFrom_root_append (e : List Char) : tryFrom (root.toChars ++ '/' :: e) = none := by
  have hempty : [] ∈ ('/' :: e).splitOn '/' := by
    rw [List.splitOn_cons_eq_if_modifyHead]
    simp
  change (if ('/' :: e) = [] then some root else ofElements ('/' :: e)) = none
  rw [if_neg (List.cons_ne_nil _ _), ofElements, dif_neg]
  exact fun hall ↦ (hall [] hempty).1 rfl

end ObjectPath

end DBus
