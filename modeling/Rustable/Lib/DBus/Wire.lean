import Mathlib.Data.List.OfFn
import Rustable.Lib.DBus.Path
import Rustable.Lib.Keyed

/-!
# D-Bus values and their types

`Sig` are the types of the D-Bus type system and `Val s` the values of type `s`, so
that a value cannot contradict its signature.  A message body is a sequence of typed
values.

The classes `Signature`, `Marshal` and `Unmarshal` give a Lean type its wire form.
Reading `get` from a body succeeds only if the type of the next value is the one
asked for, compared as a whole.  `Exact` says that reading undoes writing.
-/

namespace DBus

/-! ## Types -/

/-- The basic types. -/
inductive Base
  | byte
  | boolean
  | int16
  | uint16
  | int32
  | uint32
  | int64
  | uint64
  | double
  | string
  | objectPath
  | signature
  | unixFd
deriving DecidableEq, Repr

mutual

/-- The types: basic types, variants and the containers. -/
inductive Sig
  | base (b : Base)
  | variant
  | array (elem : Sig)
  | dict (key : Base) (value : Sig)
  | struct (fields : Sigs)
deriving DecidableEq

/-- The types of the fields of a struct, of which there is at least one. -/
inductive Sigs
  | one (field : Sig)
  | cons (field : Sig) (fields : Sigs)
deriving DecidableEq

end

/-- A file descriptor. -/
structure UnixFd where
  /-- Its number. -/
  raw : Nat
deriving DecidableEq, Repr

/-- The values of the basic types. -/
abbrev Base.Val : Base → Type
  | .byte => UInt8
  | .boolean => Bool
  | .int16 => BitVec 16
  | .uint16 => UInt16
  | .int32 | .uint32 => BitVec 32
  | .int64 | .uint64 | .double => BitVec 64
  | .string => String
  | .objectPath => ObjectPath
  | .signature => List Sig
  | .unixFd => UnixFd

mutual

/-- The values of a type. -/
inductive Val : Sig → Type
  | base {b : Base} (a : b.Val) : Val (.base b)
  | variant {s : Sig} (v : Val s) : Val .variant
  | array {e : Sig} (n : Nat) (elems : Fin n → Val e) : Val (.array e)
  | dict {k : Base} {s : Sig} (n : Nat) (keys : Fin n → k.Val) (values : Fin n → Val s) :
      Val (.dict k s)
  | struct {fs : Sigs} (vs : Fields fs) : Val (.struct fs)

/-- The fields of a struct. -/
inductive Fields : Sigs → Type
  | one {s : Sig} (v : Val s) : Fields (.one s)
  | cons {s : Sig} {fs : Sigs} (v : Val s) (vs : Fields fs) : Fields (.cons s fs)

end

namespace Val

variable {e s : Sig} {k : Base}

/-- The value of a basic type. -/
def ofBase {b : Base} : Val (.base b) → b.Val
  | .base a => a

/-- The elements of an array. -/
def toList : Val (.array e) → List (Val e)
  | .array _ elems => List.ofFn elems

/-- The array of some elements. -/
def ofList (vs : List (Val e)) : Val (.array e) := .array vs.length vs.get

@[simp] theorem toList_ofList (vs : List (Val e)) : (ofList vs).toList = vs := List.ofFn_get vs

/-- The entries of a dictionary. -/
def toEntries : Val (.dict k s) → List (k.Val × Val s)
  | .dict _ keys values => List.ofFn fun i ↦ (keys i, values i)

/-- The dictionary of some entries. -/
def ofEntries (es : List (k.Val × Val s)) : Val (.dict k s) :=
  .dict es.length (fun i ↦ (es.get i).1) fun i ↦ (es.get i).2

@[simp] theorem toEntries_ofEntries (es : List (k.Val × Val s)) :
    (ofEntries es).toEntries = es := List.ofFn_get es

/-- The two fields of a pair. -/
def toPair {a b : Sig} : Val (.struct (.cons a (.one b))) → Val a × Val b
  | .struct (.cons v (.one w)) => (v, w)

end Val

/-! ## Wire forms -/

/-- `α` is sent as a value of one type. -/
class Signature (α : Type) where
  /-- That type. -/
  sig : Sig

export Signature (sig)

/-- `α` can be sent. -/
class Marshal (α : Type) [Signature α] where
  /-- The value sent, if there is one. -/
  marshal : α → Option (Val (sig α))

export Marshal (marshal)

/-- `α` can be received. -/
class Unmarshal (α : Type) [Signature α] where
  /-- What a value stands for, if it is acceptable. -/
  unmarshal : Val (sig α) → Option α

export Unmarshal (unmarshal)

/-- Reading undoes writing. -/
class Exact (α : Type) [Signature α] [Marshal α] [Unmarshal α] : Prop where
  /-- What is sent is received. -/
  unmarshal_marshal : ∀ {a : α} {v : Val (sig α)}, marshal a = some v → unmarshal v = some a

export Exact (unmarshal_marshal)

/-- `α` is sent as a value of a basic type, so that it can be a key of a dictionary. -/
class BaseWire (α : Type) where
  /-- That type. -/
  base : Base
  /-- The value sent. -/
  toVal : α → base.Val
  /-- What a value stands for, if it is acceptable. -/
  ofVal : base.Val → Option α
  /-- Reading undoes writing. -/
  ofVal_toVal : ∀ a, ofVal (toVal a) = some a

instance : BaseWire UInt8 := ⟨.byte, id, some, fun _ ↦ rfl⟩
instance : BaseWire Bool := ⟨.boolean, id, some, fun _ ↦ rfl⟩
instance : BaseWire UInt16 := ⟨.uint16, id, some, fun _ ↦ rfl⟩
instance : BaseWire UInt32 := ⟨.uint32, UInt32.toBitVec, fun v ↦ some (.ofBitVec v), fun _ ↦ rfl⟩
instance : BaseWire String := ⟨.string, id, some, fun _ ↦ rfl⟩
instance : BaseWire ObjectPath := ⟨.objectPath, id, some, fun _ ↦ rfl⟩
instance : BaseWire UnixFd := ⟨.unixFd, id, some, fun _ ↦ rfl⟩

variable {α β κ ν : Type}

section Base

variable [BaseWire α]

instance : Signature α := ⟨.base (BaseWire.base α)⟩
instance : Marshal α := ⟨fun a ↦ some (.base (BaseWire.toVal a))⟩
instance : Unmarshal α := ⟨fun v ↦ BaseWire.ofVal v.ofBase⟩

/-- Values of basic types can be sent. -/
theorem marshal_base_isSome (a : α) : (marshal a).isSome := rfl

instance : Exact α where
  unmarshal_marshal {a v} h := by
    obtain rfl := Option.some.inj h
    exact BaseWire.ofVal_toVal a

end Base

section List

variable [Signature α]

instance : Signature (List α) := ⟨.array (sig α)⟩
instance [Marshal α] : Marshal (List α) := ⟨fun l ↦ (l.mapM marshal).map Val.ofList⟩
instance [Unmarshal α] : Unmarshal (List α) := ⟨fun v ↦ v.toList.mapM unmarshal⟩

/-- A list can be sent if its elements can. -/
theorem marshal_list_isSome [Marshal α] {l : List α} (h : ∀ a ∈ l, (marshal a).isSome) :
    (marshal l).isSome := Option.isSome_map.trans (isSome_mapM_iff.mpr h)

/-- A list of values of a basic type can be sent. -/
theorem marshal_bases_isSome {α : Type} [BaseWire α] (l : List α) : (marshal l).isSome :=
  marshal_list_isSome fun a _ ↦ marshal_base_isSome a

/-- Elements are read one by one as they were written. -/
theorem mapM_unmarshal [Marshal α] [Unmarshal α] [Exact α] {l : List α} {vs : List (Val (sig α))}
    (h : l.mapM marshal = some vs) : vs.mapM unmarshal = some l := by
  induction l generalizing vs with
  | nil =>
      obtain rfl := Option.some.inj h
      rfl
  | cons a l ih =>
      rw [List.mapM_cons] at h
      obtain ⟨v, hv, h⟩ := Option.bind_eq_some_iff.mp h
      obtain ⟨ws, hws, h⟩ := Option.bind_eq_some_iff.mp h
      obtain rfl := Option.some.inj h
      rw [List.mapM_cons, unmarshal_marshal hv, ih hws]
      rfl

instance [Marshal α] [Unmarshal α] [Exact α] : Exact (List α) where
  unmarshal_marshal {l v} h := by
    obtain ⟨vs, hvs, rfl⟩ := Option.map_eq_some_iff.mp h
    change (Val.ofList vs).toList.mapM unmarshal = some l
    rw [Val.toList_ofList, mapM_unmarshal hvs]

end List

section Pair

variable [Signature α] [Signature β]

instance : Signature (α × β) := ⟨.struct (.cons (sig α) (.one (sig β)))⟩

instance [Marshal α] [Marshal β] : Marshal (α × β) := ⟨fun (a, b) ↦ do
  let v ← marshal a
  let w ← marshal b
  return .struct (.cons v (.one w))⟩

instance [Unmarshal α] [Unmarshal β] : Unmarshal (α × β) := ⟨fun v ↦ do
  let a ← unmarshal v.toPair.1
  let b ← unmarshal v.toPair.2
  return (a, b)⟩

end Pair

section Map

variable [BaseWire κ] [DecidableEq κ] [Signature ν]

instance : Signature (HashMap κ ν) := ⟨.dict (BaseWire.base κ) (sig ν)⟩

instance [Marshal ν] : Marshal (HashMap κ ν) := ⟨fun m ↦
  (m.entries.mapM fun e ↦ (marshal e.2).map (BaseWire.toVal e.1, ·)).map Val.ofEntries⟩

/-- Read an entry of a dictionary. -/
def unmarshalEntry [Unmarshal ν] (e : (BaseWire.base κ).Val × Val (sig ν)) :
    Option (Sigma fun _ : κ ↦ ν) := do
  let k ← BaseWire.ofVal e.1
  let a ← unmarshal e.2
  return ⟨k, a⟩

instance [Unmarshal ν] : Unmarshal (HashMap κ ν) := ⟨fun v ↦
  (v.toEntries.mapM unmarshalEntry).map AList.ofEntries⟩

omit [DecidableEq κ] in
/-- A map can be sent if its values can. -/
theorem marshal_map_isSome [Marshal ν] {m : HashMap κ ν}
    (h : ∀ e ∈ m.entries, (marshal e.2).isSome) : (marshal m).isSome := by
  have hes : (m.entries.mapM fun e ↦ (marshal e.2).map (BaseWire.toVal e.1, ·)).isSome :=
    isSome_mapM_iff.mpr fun e he ↦ Option.isSome_map.trans (h e he)
  exact Option.isSome_map.trans hes

/-- A map whose values are sent, and received as `f` makes them, is received with each
value changed by `f`. -/
theorem unmarshal_map [Marshal ν] [Unmarshal ν] (f : ν → ν) {m : HashMap κ ν}
    {v : Val (sig (HashMap κ ν))} (hm : marshal m = some v)
    (hf : ∀ e ∈ m.entries, ∀ w, marshal e.2 = some w → unmarshal w = some (f e.2)) :
    ∃ m' : HashMap κ ν, unmarshal v = some m' ∧ ∀ k, m'.lookup k = (m.lookup k).map f := by
  obtain ⟨es, hes, rfl⟩ := Option.map_eq_some_iff.mp hm
  refine ⟨AList.ofEntries (m.entries.map fun e ↦ ⟨e.1, f e.2⟩), ?_,
    AList.lookup_ofEntries m f⟩
  change Option.map AList.ofEntries (List.mapM _ (Val.ofEntries es).toEntries) = _
  rw [Val.toEntries_ofEntries]
  refine congrArg (Option.map AList.ofEntries) (?_ : _ = some _)
  clear hm
  generalize m.entries = l at hes hf
  induction l generalizing es with
  | nil =>
      obtain rfl := Option.some.inj hes
      rfl
  | cons e l ih =>
      rw [List.mapM_cons] at hes
      obtain ⟨w, hw, hes⟩ := Option.bind_eq_some_iff.mp hes
      obtain ⟨ws, hws, hes⟩ := Option.bind_eq_some_iff.mp hes
      obtain rfl := Option.some.inj hes
      obtain ⟨w', hw', rfl⟩ := Option.map_eq_some_iff.mp hw
      have hentry : unmarshalEntry (BaseWire.toVal e.1, w') = some ⟨e.1, f e.2⟩ := by
        rw [unmarshalEntry, BaseWire.ofVal_toVal, hf e List.mem_cons_self w' hw']
        rfl
      rw [List.mapM_cons, hentry, ih ws hws fun e' he' ↦ hf e' (List.mem_cons_of_mem _ he')]
      rfl

end Map

/-! ## Variants with known contents -/

/-- One of the types a variant may be expected to hold, and how its value is read. -/
structure Alternative (α : Type) where
  /-- The type. -/
  sig : Sig
  /-- How a value of it is read. -/
  read : Val sig → Option α

/-- The alternative that holds a `β`. -/
def Alternative.of [Signature β] [Unmarshal β] (f : β → α) : Alternative α :=
  ⟨Signature.sig β, fun v ↦ (unmarshal v).map f⟩

/-- Read a value as the first alternative of its type; `catchall` is what a value of
none of the types reads as. -/
def firstOf (catchall : Sig → α) : List (Alternative α) → (s : Sig) → Val s → Option α
  | [], s, _ => some (catchall s)
  | alt :: alts, s, v => if h : s = alt.sig then alt.read (h ▸ v) else firstOf catchall alts s v

@[simp] theorem firstOf_hit {catchall : Sig → α} {alt : Alternative α}
    {alts : List (Alternative α)} {v : Val alt.sig} :
    firstOf catchall (alt :: alts) alt.sig v = alt.read v := dif_pos rfl

/-! ## Bodies -/

/-- The body of a message: typed values, one after the other. -/
abbrev Body := List (Sigma Val)

/-- Why a value cannot be read. -/
inductive UnmarshalError
  | endOfMessage
  | wrongSignature
  | invalidType
deriving DecidableEq, Repr

/-- The text of an error. -/
def UnmarshalError.debug : UnmarshalError → String
  | .endOfMessage => "EndOfMessage"
  | .wrongSignature => "WrongSignature"
  | .invalidType => "InvalidType"

namespace Body

/-- Append a value. -/
def pushParam [Signature α] [Marshal α] (body : Body) (a : α) : Option Body :=
  (marshal a).map fun v ↦ body ++ [⟨sig α, v⟩]

/-- Read the next value and leave the rest. -/
def next (α : Type) [Signature α] [Unmarshal α] : Body → Except UnmarshalError (α × Body)
  | [] => .error .endOfMessage
  | ⟨s, v⟩ :: rest =>
      if h : s = sig α then
        match unmarshal (h ▸ v : Val (sig α)) with
        | some a => .ok (a, rest)
        | none => .error .invalidType
      else .error .wrongSignature

/-- `parser().get::<α>()` -/
def get (α : Type) [Signature α] [Unmarshal α] (body : Body) : Except UnmarshalError α := do
  let (a, _) ← body.next α
  return a

/-- `parser().get2::<α, β>()`: the number of values is looked at before their types. -/
def get2 (α β : Type) [Signature α] [Unmarshal α] [Signature β] [Unmarshal β] (body : Body) :
    Except UnmarshalError (α × β) := do
  if body.length < 2 then throw .endOfMessage
  let (a, body) ← body.next α
  let (b, _) ← body.next β
  return (a, b)

/-- `parser().get3::<α, β, γ>()` -/
def get3 (α β γ : Type) [Signature α] [Unmarshal α] [Signature β] [Unmarshal β] [Signature γ]
    [Unmarshal γ] (body : Body) : Except UnmarshalError (α × β × γ) := do
  if body.length < 3 then throw .endOfMessage
  let (a, body) ← body.next α
  let (b, body) ← body.next β
  let (c, _) ← body.next γ
  return (a, b, c)

theorem pushParam_eq [Signature α] [Marshal α] {a : α} {v : Val (sig α)}
    (h : marshal a = some v) (body : Body) : body.pushParam a = some (body ++ [⟨sig α, v⟩]) := by
  rw [pushParam, h, Option.map_some]

variable [Signature α] [Unmarshal α]

/-- A value of the right type is read as what it stands for. -/
theorem next_cons {v : Val (sig α)} {a : α} (h : unmarshal v = some a) (rest : Body) :
    next α (⟨sig α, v⟩ :: rest) = .ok (a, rest) := by
  simp only [next, ↓reduceDIte, h]

/-- A value of another type is not read. -/
theorem next_of_ne {s : Sig} (h : s ≠ sig α) (v : Val s) (rest : Body) :
    next α (⟨s, v⟩ :: rest) = .error .wrongSignature := dif_neg h

/-- Two values of the right types. -/
theorem get2_cons {β : Type} [Signature β] [Unmarshal β] {v : Val (sig α)} {w : Val (sig β)} {a : α}
    {b : β} (ha : unmarshal v = some a) (hb : unmarshal w = some b) (rest : Body) :
    get2 α β (⟨sig α, v⟩ :: ⟨sig β, w⟩ :: rest) = .ok (a, b) := by
  have hlen : ¬(⟨sig α, v⟩ :: ⟨sig β, w⟩ :: rest : Body).length < 2 :=
    not_lt_of_ge (Nat.le_add_left 2 rest.length)
  rw [get2, if_neg hlen, next_cons ha]
  simp only [bind, Except.bind, pure, Except.pure, next_cons hb]

end Body

end DBus
