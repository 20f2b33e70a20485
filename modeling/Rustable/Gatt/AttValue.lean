import Mathlib.Data.List.Basic
import Rustable.Lib.Cells
import Rustable.Lib.Lts

/-!
# The value of an attribute

`AttValue` is the 512-byte buffer of `gatt/mod.rs`: `MaybeUninit` cells of which the
first `len` are handed out as a byte slice by an unsafe cast.  A method either
returns or panics; `Fault` says at which kind of place, with the read of an
uninitialised cell, which is no panic but undefined behaviour, as one more kind.

`AttBytes` is what an `AttValue` is for: a list of at most 512 bytes.  Its
operations are partial functions, undefined where the code panics.

* `Represents v b` links the two, and each method has one lemma `meets_*`: it keeps
  the link and fails exactly where the operation on `AttBytes` is undefined.
* `exec` and `specExec` run the same operations on a store of values and a store of
  byte lists; `exec_refines` carries the link over whole runs.

The rest of the development works with `AttBytes`.
-/

namespace Rustable.Gatt

/-- Where a method of `AttValue` fails: an `assert!`, a slice index out of range,
an `unwrap` of `None`, or the read of an uninitialised cell. -/
inductive Fault
  | assertion
  | slice
  | unwrap
  | uninit
deriving DecidableEq, Repr

/-- `struct AttValue`. -/
structure AttValue where
  /-- `buf: [MaybeUninit<u8>; 512]` -/
  buf : Cells UInt8 512
  /-- `len: usize` -/
  len : Nat

/-- The outcome of a `&mut self` method: whether it failed, and the value it leaves
behind either way. -/
abbrev Outcome := Option Fault × AttValue

namespace AttValue

/-- `AttValue::default` -/
def default : AttValue where
  buf := Cells.uninit
  len := 0

/-- `AttValue::resize` -/
def resize (v : AttValue) (newLen : Nat) (value : UInt8) : Outcome :=
  if v.len < newLen then
    -- `&mut self.buf[self.len..new_len]`
    if newLen ≤ 512 then
      (none, ⟨v.buf.write v.len (List.replicate (newLen - v.len) value), newLen⟩)
    else (some .slice, v)
  else (none, { v with len := newLen })

/-- `AttValue::resize_with`, with the state of the closure made explicit.  A closure
that panics leaves `len` as it was. -/
def resizeWith {γ : Type} (v : AttValue) (newLen : Nat) (f : γ → Except Fault (UInt8 × γ))
    (g : γ) : Outcome :=
  if v.len < newLen then
    if newLen ≤ 512 then
      match Cells.fillWith f (newLen - v.len) v.len v.buf g with
      | (buf, .ok _) => (none, ⟨buf, newLen⟩)
      | (buf, .error e) => (some e, { v with buf := buf })
    else (some .slice, v)
  else (none, { v with len := newLen })

/-- `AttValue::as_slice` (and `as_mut_slice`, `borrow`, `deref`): `&self.buf[..self.len]`,
cast to initialised bytes. -/
def asSlice (v : AttValue) : Except Fault (List UInt8) :=
  if v.len ≤ 512 then
    match v.buf.read 0 v.len with
    | some bytes => .ok bytes
    | none => .error .uninit
  else .error .slice

/-- A write through `as_mut_slice`: the byte at each index is replaced by what `f`
makes of it. -/
def writeSlice (v : AttValue) (f : Nat → UInt8 → UInt8) : Outcome :=
  match v.asSlice with
  | .ok bytes => (none, { v with buf := v.buf.write 0 (bytes.mapIdx f) })
  | .error e => (some e, v)

/-- `AttValue::update`.  Here `offset + slice.len()` cannot overflow: the assertion
bounds the one, the size of an allocation the other. -/
def update (v : AttValue) (slice : List UInt8) (offset : Nat) : Outcome :=
  if offset ≤ v.len then
    let stop := offset + slice.length
    -- `self.buf[offset..end]`
    if stop ≤ 512 then (none, ⟨v.buf.write offset slice, stop⟩)
    else (some .slice, v)
  else (some .assertion, v)

/-- `AttValue::push` -/
def push (v : AttValue) (byte : UInt8) : Outcome :=
  if v.len < 512 then (none, ⟨v.buf.write v.len [byte], v.len + 1⟩)
  else (some .assertion, v)

/-- `iter.next().unwrap()` -/
def nextUnwrap : List UInt8 → Except Fault (UInt8 × List UInt8)
  | [] => .error .unwrap
  | b :: bs => .ok (b, bs)

/-- `AttValue::extend_from_slice` -/
def extendFromSlice (v : AttValue) (slice : List UInt8) : Outcome :=
  v.resizeWith (v.len + slice.length) nextUnwrap slice

/-- `AttValue::new` -/
def new (len : Nat) : Outcome :=
  if len ≤ 512 then default.resize len 0 else (some .assertion, default)

/-- `From<&[u8]>::from` -/
def fromSlice (slice : List UInt8) : Outcome := default.extendFromSlice slice

/-- `Clone::clone` -/
def clone (v : AttValue) : Outcome :=
  match v.asSlice with
  | .ok bytes => default.extendFromSlice bytes
  | .error e => (some e, default)

end AttValue

/-! ## What the buffer stands for -/

/-- At most 512 bytes. -/
structure AttBytes where
  /-- The bytes. -/
  bytes : List UInt8
  /-- They fit in the buffer. -/
  length_le : bytes.length ≤ 512
deriving DecidableEq

/-- A list of bytes that fits, as a value. -/
def fits (l : List UInt8) : Option AttBytes :=
  if h : l.length ≤ 512 then some ⟨l, h⟩ else none

@[simp] theorem fits_of_le {l : List UInt8} (h : l.length ≤ 512) : fits l = some ⟨l, h⟩ :=
  dif_pos h

@[simp] theorem fits_of_lt {l : List UInt8} (h : 512 < l.length) : fits l = none :=
  dif_neg (Nat.not_le.mpr h)

namespace AttBytes

/-- No bytes. -/
def empty : AttBytes := ⟨[], Nat.zero_le _⟩

instance : Inhabited AttBytes := ⟨empty⟩

/-- Truncate or pad with a byte. -/
def resize (b : AttBytes) (newLen : Nat) (value : UInt8) : Option AttBytes :=
  fits (b.bytes.take newLen ++ List.replicate (newLen - b.bytes.length) value)

/-- Truncate or append generated bytes, in order. -/
def resizeWith (b : AttBytes) (newLen : Nat) (gen : Nat → UInt8) : Option AttBytes :=
  fits (b.bytes.take newLen ++ (List.range (newLen - b.bytes.length)).map gen)

/-- Keep the first `offset` bytes and let `slice` follow.  The offset must lie in the
value. -/
def update (b : AttBytes) (slice : List UInt8) (offset : Nat) : Option AttBytes :=
  if offset ≤ b.bytes.length then fits (b.bytes.take offset ++ slice) else none

/-- Append one byte. -/
def push (b : AttBytes) (byte : UInt8) : Option AttBytes := fits (b.bytes ++ [byte])

/-- Append bytes. -/
def extendFromSlice (b : AttBytes) (slice : List UInt8) : Option AttBytes :=
  fits (b.bytes ++ slice)

/-- Change each byte in place. -/
def writeSlice (b : AttBytes) (f : Nat → UInt8 → UInt8) : AttBytes where
  bytes := b.bytes.mapIdx f
  length_le := by rw [List.length_mapIdx]; exact b.length_le

/-- `len` zero bytes. -/
def new (len : Nat) : Option AttBytes := fits (List.replicate len 0)

end AttBytes

/-! ## One method -/

/-- `v` holds the bytes `b`: its length is theirs and its first cells hold them. -/
structure Represents (v : AttValue) (b : AttBytes) : Prop where
  /-- The lengths agree. -/
  len_eq : v.len = b.bytes.length
  /-- The cells below `len` are initialised, with the bytes. -/
  holds : v.buf.Holds b.bytes

/-- An outcome against a partial operation on `b`.  Where the operation is defined the
method returns a value that represents its result; where it is not, the method
panics, at an assertion or a slice index, and still leaves `b` behind. -/
def Meets (b : AttBytes) : Outcome → Option AttBytes → Prop
  | (none, v), some b' => Represents v b'
  | (some e, v), none => (e = .assertion ∨ e = .slice) ∧ Represents v b
  | _, _ => False

variable {v : AttValue} {b : AttBytes}

namespace Represents

theorem len_le (h : Represents v b) : v.len ≤ 512 := h.len_eq ▸ b.length_le

/-- The slice handed out is the list of bytes: no cell read is uninitialised. -/
theorem asSlice_eq (h : Represents v b) : v.asSlice = .ok b.bytes := by
  have hread : v.buf.read 0 v.len = some b.bytes := h.len_eq ▸ h.holds.read_eq
  rw [AttValue.asSlice, if_pos h.len_le, hread]

/-- A shorter length keeps the first bytes. -/
theorem truncate (h : Represents v b) {n : Nat} (hn : n ≤ v.len)
    (hle : (b.bytes.take n).length ≤ 512) :
    Represents { v with len := n } ⟨b.bytes.take n, hle⟩ where
  len_eq := (List.length_take_of_le (h.len_eq ▸ hn)).symm
  holds := h.holds.take n

/-- New bytes written inside the value or right behind it are its new end. -/
theorem overwrite (h : Represents v b) {s : List UInt8} {pos : Nat} (hpos : pos ≤ v.len)
    (hend : pos + s.length ≤ 512) (hle : (b.bytes.take pos ++ s).length ≤ 512) :
    Represents ⟨v.buf.write pos s, pos + s.length⟩ ⟨b.bytes.take pos ++ s, hle⟩ where
  len_eq := by rw [List.length_append, List.length_take_of_le (h.len_eq ▸ hpos)]
  holds := h.holds.write (h.len_eq ▸ hpos) hend

/-- New bytes behind the value are appended. -/
theorem append (h : Represents v b) {s : List UInt8} (hend : v.len + s.length ≤ 512)
    (hle : (b.bytes ++ s).length ≤ 512) :
    Represents ⟨v.buf.write v.len s, v.len + s.length⟩ ⟨b.bytes ++ s, hle⟩ := by
  have htake : b.bytes.take v.len = b.bytes := List.take_of_length_le (Nat.le_of_eq h.len_eq.symm)
  have hover := h.overwrite (Nat.le_refl _) hend (by rw [htake]; exact hle)
  simpa only [htake] using hover

end Represents

theorem represents_default : Represents AttValue.default AttBytes.empty where
  len_eq := rfl
  holds := .nil

/-- The counting closure yields the bytes of its generator in order. -/
theorem yields_gen (gen : Nat → UInt8) (start count : Nat) :
    Cells.Yields (fun n ↦ (.ok (gen n, n + 1) : Except Fault (UInt8 × Nat))) start
      ((List.range' start count).map gen) (start + count) := by
  induction count generalizing start with
  | zero => exact .nil start
  | succ count ih =>
      rw [List.range'_succ, List.map_cons, Nat.add_comm count, ← Nat.add_assoc]
      exact .cons rfl (ih (start + 1))

/-- The iterator of `extend_from_slice` yields the slice: its `unwrap` has something
to unwrap as often as it is called. -/
theorem yields_nextUnwrap (slice : List UInt8) :
    Cells.Yields AttValue.nextUnwrap slice slice [] := by
  induction slice with
  | nil => exact .nil []
  | cons a slice ih => exact .cons rfl ih

/-- A generator that yields as many bytes as are missing fills the value up with
them. -/
theorem meets_resizeWith_of_yields {γ : Type} {f : γ → Except Fault (UInt8 × γ)} {g g' : γ}
    {s : List UInt8} {newLen : Nat} (h : Represents v b) (hs : Cells.Yields f g s g')
    (hlen : s.length = newLen - v.len) :
    Meets b (v.resizeWith newLen f g) (fits (b.bytes.take newLen ++ s)) := by
  rw [AttValue.resizeWith]
  by_cases hgrow : v.len < newLen
  · have htake : b.bytes.take newLen = b.bytes := List.take_of_length_le (by rw [← h.len_eq]; omega)
    have hsum : newLen = v.len + s.length := by omega
    rw [if_pos hgrow, htake, Cells.fillWith_eq hs hlen]
    by_cases hfit : newLen ≤ 512
    · have hle : (b.bytes ++ s).length ≤ 512 := by
        rw [List.length_append, ← h.len_eq]; omega
      rw [if_pos hfit, fits_of_le hle, hsum]
      exact h.append (hsum ▸ hfit) hle
    · have hlt : 512 < (b.bytes ++ s).length := by
        rw [List.length_append, ← h.len_eq]; omega
      rw [if_neg hfit, fits_of_lt hlt]
      exact ⟨.inr rfl, h⟩
  · obtain rfl : s = [] := List.length_eq_zero_iff.mp (by omega)
    have hle : (b.bytes.take newLen).length ≤ 512 :=
      Nat.le_trans (List.length_take_le' ..) b.length_le
    rw [if_neg hgrow, List.append_nil, fits_of_le hle]
    exact h.truncate (Nat.not_lt.mp hgrow) hle

theorem meets_resizeWith (h : Represents v b) (newLen : Nat) (gen : Nat → UInt8) :
    Meets b (v.resizeWith newLen (fun n ↦ .ok (gen n, n + 1)) 0) (b.resizeWith newLen gen) := by
  rw [AttBytes.resizeWith, List.range_eq_range', ← h.len_eq]
  refine meets_resizeWith_of_yields h (yields_gen gen 0 _) ?_
  rw [List.length_map, List.length_range']

theorem meets_extendFromSlice (h : Represents v b) (slice : List UInt8) :
    Meets b (v.extendFromSlice slice) (b.extendFromSlice slice) := by
  have hmeets : Meets b (v.extendFromSlice slice)
      (fits (b.bytes.take (v.len + slice.length) ++ slice)) :=
    meets_resizeWith_of_yields h (yields_nextUnwrap slice) (Nat.add_sub_cancel_left ..).symm
  rwa [List.take_of_length_le (by rw [← h.len_eq]; omega)] at hmeets

/-- Padding with a byte is appending what a constant closure generates. -/
theorem AttValue.resize_eq_resizeWith (v : AttValue) (newLen : Nat) (value : UInt8) :
    v.resize newLen value = v.resizeWith newLen (fun n : Nat ↦ .ok (value, n + 1)) 0 := by
  have hlen : ((List.range' 0 (newLen - v.len)).map fun _ ↦ value).length = newLen - v.len := by
    rw [List.length_map, List.length_range']
  have hconst : (List.range' 0 (newLen - v.len)).map (fun _ ↦ value) =
      List.replicate (newLen - v.len) value := by
    rw [List.map_const', List.length_range']
  rw [AttValue.resize, AttValue.resizeWith, ← hconst,
    Cells.fillWith_eq (yields_gen (fun _ ↦ value) 0 _) hlen]

theorem meets_resize (h : Represents v b) (newLen : Nat) (value : UInt8) :
    Meets b (v.resize newLen value) (b.resize newLen value) := by
  have hconst : (List.range (newLen - b.bytes.length)).map (fun _ ↦ value) =
      List.replicate (newLen - b.bytes.length) value := by
    rw [List.map_const', List.length_range]
  rw [AttValue.resize_eq_resizeWith, AttBytes.resize, ← hconst]
  exact meets_resizeWith h newLen fun _ ↦ value

theorem meets_update (h : Represents v b) (slice : List UInt8) (offset : Nat) :
    Meets b (v.update slice offset) (b.update slice offset) := by
  rw [AttValue.update, AttBytes.update, ← h.len_eq]
  by_cases hoff : offset ≤ v.len
  · have hlen : (b.bytes.take offset ++ slice).length = offset + slice.length := by
      rw [List.length_append, List.length_take_of_le (h.len_eq ▸ hoff)]
    rw [if_pos hoff, if_pos hoff]
    by_cases hfit : offset + slice.length ≤ 512
    · have hle : (b.bytes.take offset ++ slice).length ≤ 512 := hlen.symm ▸ hfit
      rw [if_pos hfit, fits_of_le hle]
      exact h.overwrite hoff hfit hle
    · rw [if_neg hfit, fits_of_lt (by omega)]
      exact ⟨.inr rfl, h⟩
  · rw [if_neg hoff, if_neg hoff]
    exact ⟨.inl rfl, h⟩

theorem meets_push (h : Represents v b) (byte : UInt8) :
    Meets b (v.push byte) (b.push byte) := by
  have hlen : (b.bytes ++ [byte]).length = v.len + 1 := by
    rw [List.length_append, h.len_eq]; rfl
  rw [AttValue.push, AttBytes.push]
  by_cases hfit : v.len < 512
  · have hle : (b.bytes ++ [byte]).length ≤ 512 := hlen.symm ▸ hfit
    rw [if_pos hfit, fits_of_le hle]
    exact h.append (s := [byte]) hfit hle
  · rw [if_neg hfit, fits_of_lt (by omega)]
    exact ⟨.inl rfl, h⟩

theorem meets_writeSlice (h : Represents v b) (f : Nat → UInt8 → UInt8) :
    Meets b (v.writeSlice f) (some (b.writeSlice f)) := by
  rw [AttValue.writeSlice, h.asSlice_eq]
  refine ⟨?_, ?_⟩
  · rw [AttBytes.writeSlice, List.length_mapIdx]
    exact h.len_eq
  · have hend : 0 + (b.bytes.mapIdx f).length ≤ 512 := by
      rw [Nat.zero_add, List.length_mapIdx]
      exact b.length_le
    exact h.holds.write (Nat.zero_le _) hend

theorem meets_fromSlice (slice : List UInt8) :
    Meets AttBytes.empty (AttValue.fromSlice slice) (fits slice) :=
  meets_extendFromSlice represents_default slice

theorem meets_new (len : Nat) : Meets AttBytes.empty (AttValue.new len) (AttBytes.new len) := by
  rw [AttValue.new, AttBytes.new]
  by_cases hlen : len ≤ 512
  · rw [if_pos hlen]
    simpa [AttBytes.resize, AttBytes.empty] using meets_resize represents_default len 0
  · rw [if_neg hlen, fits_of_lt (by rw [List.length_replicate]; omega)]
    exact ⟨.inl rfl, represents_default⟩

theorem meets_clone (h : Represents v b) : Meets AttBytes.empty v.clone (some b) := by
  have hmeets := meets_fromSlice b.bytes
  rw [fits_of_le b.length_le] at hmeets
  rwa [AttValue.clone, h.asSlice_eq]

/-- Where the operation is defined, the method returns. -/
theorem Meets.eq_none {b b' : AttBytes} {r : Outcome} (h : Meets b r (some b')) :
    ∃ v, r = (none, v) ∧ Represents v b' := by
  obtain ⟨_ | e, v⟩ := r
  · exact ⟨v, rfl, h⟩
  · contradiction

/-! ## A store of values -/

/-- An operation on a store of values.  Constructors add a value at the end of the
store; methods name the value they are called on by its index. -/
inductive Op
  | /-- `AttValue::new(len)` -/
    new (len : Nat)
  | /-- `AttValue::default()` -/
    default
  | /-- `AttValue::from(slice)` -/
    fromSlice (slice : List UInt8)
  | /-- `v.clone()` -/
    clone (i : Nat)
  | /-- `v.resize(newLen, value)` -/
    resize (i newLen : Nat) (value : UInt8)
  | /-- `v.resize_with(newLen, f)`, for an `f` whose `n`-th call returns `gen n` -/
    resizeWith (i newLen : Nat) (gen : Nat → UInt8)
  | /-- `v.update(slice, offset)` -/
    update (i : Nat) (slice : List UInt8) (offset : Nat)
  | /-- `v.push(byte)` -/
    push (i : Nat) (byte : UInt8)
  | /-- `v.extend_from_slice(slice)` -/
    extendFromSlice (i : Nat) (slice : List UInt8)
  | /-- Writes through `v.as_mut_slice()` -/
    writeSlice (i : Nat) (f : Nat → UInt8 → UInt8)

/-- Add the value a constructor returns; one that panics adds none. -/
def construct (store : List AttValue) : Outcome → Option Fault × List AttValue
  | (none, v) => (none, store ++ [v])
  | (some e, _) => (some e, store)

/-- Call a constructor that borrows the `i`-th value. -/
def borrowing (store : List AttValue) (i : Nat) (f : AttValue → Outcome) :
    Option Fault × List AttValue :=
  match store[i]? with
  | some v => construct store (f v)
  | none => (none, store)

/-- Call a method of the `i`-th value. -/
def mutate (store : List AttValue) (i : Nat) (f : AttValue → Outcome) :
    Option Fault × List AttValue :=
  match store[i]? with
  | some v => ((f v).1, store.set i (f v).2)
  | none => (none, store)

/-- Run one operation. -/
def exec (store : List AttValue) : Op → Option Fault × List AttValue
  | .new len => construct store (AttValue.new len)
  | .default => construct store (none, AttValue.default)
  | .fromSlice slice => construct store (AttValue.fromSlice slice)
  | .clone i => borrowing store i AttValue.clone
  | .resize i newLen value => mutate store i (·.resize newLen value)
  | .resizeWith i newLen gen =>
      mutate store i (·.resizeWith newLen (fun n ↦ .ok (gen n, n + 1)) 0)
  | .update i slice offset => mutate store i (·.update slice offset)
  | .push i byte => mutate store i (·.push byte)
  | .extendFromSlice i slice => mutate store i (·.extendFromSlice slice)
  | .writeSlice i f => mutate store i (·.writeSlice f)

/-- Add the result of a partial operation.  Where it is undefined `true` is answered,
and the store stays as it was. -/
def specConstruct (store : List AttBytes) : Option AttBytes → Bool × List AttBytes
  | some b => (false, store ++ [b])
  | none => (true, store)

/-- Add the result of a partial operation on the `i`-th byte list. -/
def specBorrowing (store : List AttBytes) (i : Nat) (f : AttBytes → Option AttBytes) :
    Bool × List AttBytes :=
  match store[i]? with
  | some b => specConstruct store (f b)
  | none => (false, store)

/-- Replace the `i`-th byte list by the result of a partial operation on it. -/
def specMutate (store : List AttBytes) (i : Nat) (f : AttBytes → Option AttBytes) :
    Bool × List AttBytes :=
  match store[i]? with
  | some b => ((f b).isNone, store.set i ((f b).getD b))
  | none => (false, store)

/-- What one operation does to byte lists. -/
def specExec (store : List AttBytes) : Op → Bool × List AttBytes
  | .new len => specConstruct store (AttBytes.new len)
  | .default => specConstruct store (some AttBytes.empty)
  | .fromSlice slice => specConstruct store (fits slice)
  | .clone i => specBorrowing store i some
  | .resize i newLen value => specMutate store i (·.resize newLen value)
  | .resizeWith i newLen gen => specMutate store i (·.resizeWith newLen gen)
  | .update i slice offset => specMutate store i (·.update slice offset)
  | .push i byte => specMutate store i (·.push byte)
  | .extendFromSlice i slice => specMutate store i (·.extendFromSlice slice)
  | .writeSlice i f => specMutate store i fun b ↦ some (b.writeSlice f)

/-- How an operation ended against what it should have done: it panics if and only if
the operation on byte lists is undefined, never at the inner `unwrap`, and reads no
uninitialised byte. -/
def Accords (fault : Option Fault) (panics : Bool) : Prop :=
  fault.isSome = panics ∧ fault ≠ some .unwrap ∧ fault ≠ some .uninit

theorem Accords.returned : Accords none false := by simp [Accords]

theorem Accords.panicked {e : Fault} (h : e = .assertion ∨ e = .slice) :
    Accords (some e) true := by
  rcases h with rfl | rfl <;> simp [Accords]

variable {store : List AttValue} {spec : List AttBytes}

/-- An outcome that meets an operation accords with it, and leaves a value behind that
represents its result. -/
theorem Meets.accords {r : Outcome} {o : Option AttBytes} (h : Meets b r o) :
    Accords r.1 o.isNone ∧ Represents r.2 (o.getD b) := by
  match r, o, h with
  | (none, _), some _, hrep => exact ⟨.returned, hrep⟩
  | (some _, _), none, ⟨hwhy, hrep⟩ => exact ⟨.panicked hwhy, hrep⟩

theorem construct_accords {r : Outcome} {o : Option AttBytes}
    (hs : List.Forall₂ Represents store spec) (h : Meets b r o) :
    Accords (construct store r).1 (specConstruct spec o).1 ∧
      List.Forall₂ Represents (construct store r).2 (specConstruct spec o).2 := by
  obtain ⟨hacc, hrep⟩ := h.accords
  match r, o, h with
  | (none, _), some _, _ => exact ⟨hacc, List.rel_append hs (.cons hrep .nil)⟩
  | (some _, _), none, _ => exact ⟨hacc, hs⟩

/-- Related stores have related values at every index. -/
theorem represents_at (hs : List.Forall₂ Represents store spec) (i : Nat) :
    (∃ v b, store[i]? = some v ∧ spec[i]? = some b ∧ Represents v b) ∨
      store[i]? = none ∧ spec[i]? = none := by
  induction hs generalizing i with
  | nil => exact .inr ⟨rfl, rfl⟩
  | cons hrep _ ih =>
      cases i with
      | zero => exact .inl ⟨_, _, rfl, rfl, hrep⟩
      | succ i => exact ih i

/-- A value may be replaced by another that represents the replacement. -/
theorem represents_set (hs : List.Forall₂ Represents store spec) (i : Nat)
    (h : Represents v b) : List.Forall₂ Represents (store.set i v) (spec.set i b) := by
  induction hs generalizing i with
  | nil => exact .nil
  | cons hrep hs ih =>
      cases i with
      | zero => exact .cons h hs
      | succ i => exact .cons hrep (ih i)

theorem borrowing_accords {i : Nat} {f : AttValue → Outcome} {g : AttBytes → Option AttBytes}
    (hs : List.Forall₂ Represents store spec)
    (h : ∀ v b, Represents v b → Meets AttBytes.empty (f v) (g b)) :
    Accords (borrowing store i f).1 (specBorrowing spec i g).1 ∧
      List.Forall₂ Represents (borrowing store i f).2 (specBorrowing spec i g).2 := by
  rw [borrowing, specBorrowing]
  obtain ⟨v, b, hv, hb, hrep⟩ | ⟨hv, hb⟩ := represents_at hs i
  · rw [hv, hb]
    exact construct_accords hs (h v b hrep)
  · rw [hv, hb]
    exact ⟨.returned, hs⟩

theorem mutate_accords {i : Nat} {f : AttValue → Outcome} {g : AttBytes → Option AttBytes}
    (hs : List.Forall₂ Represents store spec)
    (h : ∀ v b, Represents v b → Meets b (f v) (g b)) :
    Accords (mutate store i f).1 (specMutate spec i g).1 ∧
      List.Forall₂ Represents (mutate store i f).2 (specMutate spec i g).2 := by
  rw [mutate, specMutate]
  obtain ⟨v, b, hv, hb, hrep⟩ | ⟨hv, hb⟩ := represents_at hs i
  · obtain ⟨hacc, hrep'⟩ := (h v b hrep).accords
    rw [hv, hb]
    exact ⟨hacc, represents_set hs i hrep'⟩
  · rw [hv, hb]
    exact ⟨.returned, hs⟩

/-- **One operation refines the operation on byte lists.** -/
theorem exec_simulates : Lts.Simulates (List.Forall₂ Represents) Accords exec specExec := by
  intro store spec op hs
  cases op with
  | new len => exact construct_accords hs (meets_new len)
  | default => exact construct_accords hs (b := .empty) (r := (none, _)) represents_default
  | fromSlice slice => exact construct_accords hs (meets_fromSlice slice)
  | clone i => exact borrowing_accords hs fun _ _ h ↦ meets_clone h
  | resize i newLen value => exact mutate_accords hs fun _ _ h ↦ meets_resize h newLen value
  | resizeWith i newLen gen => exact mutate_accords hs fun _ _ h ↦ meets_resizeWith h newLen gen
  | update i slice offset => exact mutate_accords hs fun _ _ h ↦ meets_update h slice offset
  | push i byte => exact mutate_accords hs fun _ _ h ↦ meets_push h byte
  | extendFromSlice i slice =>
      exact mutate_accords hs fun _ _ h ↦ meets_extendFromSlice h slice
  | writeSlice i f => exact mutate_accords hs fun _ _ h ↦ meets_writeSlice h f

/-- **Values are byte lists of at most 512 bytes**, along every run of operations from
an empty store.  Each operation panics exactly where the operation on byte lists is
undefined; after the run every value has `len ≤ 512`, initialised cells below `len`,
and the byte list of the abstract run as its slice. -/
theorem exec_refines (ops : List Op) :
    List.Forall₂ Accords (Lts.outputs exec [] ops) (Lts.outputs specExec [] ops) ∧
      List.Forall₂ (fun v b ↦ v.len ≤ 512 ∧
          (∀ i < v.len, ∃ byte, v.buf[i]? = some (some byte)) ∧ v.asSlice = .ok b.bytes)
        (Lts.final exec [] ops) (Lts.final specExec [] ops) := by
  obtain ⟨hout, hfin⟩ := exec_simulates.run .nil ops
  refine ⟨hout, hfin.imp fun v b h ↦ ⟨h.len_le, ?_, h.asSlice_eq⟩⟩
  intro i hi
  have hbyte := h.holds i _ (List.getElem?_eq_getElem (h.len_eq ▸ hi))
  rw [Nat.zero_add] at hbyte
  exact ⟨_, hbyte⟩

end Rustable.Gatt
