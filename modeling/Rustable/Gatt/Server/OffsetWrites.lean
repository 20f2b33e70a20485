import Rustable.Gatt.Server.Attribute

/-!
# Writes at an offset

A write may start inside the stored value, and what lies behind it is dropped.

* A write that fits is performed; one that does not is met by an assertion or a slice index
  inside `AttValue::update` (`writesAtomically_iff`).
* Chunks that are written one after the other, each where the last one ended, make up the
  whole value, which reads at successive offsets give back (`long_write_read`).
-/

namespace Rustable.Gatt.Server

open DBus

namespace Attribute

variable {path : ObjectPath} {io : Io} {a : Attribute} {c : MethodCall path}

/-! ## One write -/

/-- The call writes the slice at the offset. -/
structure IsWrite (interface : String) (slice : AttBytes) (offset : Nat) (c : MethodCall path) :
    Prop where
  interface_eq : c.interface = some interface
  member_eq : c.member = "WriteValue"
  decoded : ∃ options, c.toMessage.body.get (AttBytes × Options) = .ok (slice, options) ∧
    offsetOption options = offset

/-- The write begins in the stored value or right behind it, and ends in the buffer. -/
def Fits (a : Attribute) (slice : AttBytes) (offset : Nat) : Prop :=
  offset ≤ a.read.1.bytes.length ∧ offset + slice.bytes.length ≤ 512

instance (slice : AttBytes) (offset : Nat) : Decidable (a.Fits slice offset) :=
  inferInstanceAs (Decidable (_ ∧ _))

/-- A write that fits is passed on as the beginning of the old value with the slice behind it.
All others are answered with an error: at most the value callback has been called. -/
structure WritesAtomically (a : Attribute) (io : Io) (c : MethodCall path) (slice : AttBytes)
    (offset : Nat) : Prop where
  passed : a.Fits slice offset → ∃ v t, v.bytes = a.read.1.bytes.take offset ++ slice.bytes ∧
    (t = if offset = 0 then a else a.read.2) ∧
    a.handleCall io c.toMessage =
      (t.accept io path v).map fun _ ↦ c.toMessage.dynheader.makeResponse
  refused : ¬a.Fits slice offset → ∃ m t, a.handleCall io c.toMessage = .done m t [] ∧
    m.typ = .error ∧ (t = a ∨ t = a.read.2)

/-- What is made of the value by a write that fits. -/
theorem updated_of_fits {slice : AttBytes} {offset : Nat} (h : a.Fits slice offset) :
    ∃ v, v.bytes = a.read.1.bytes.take offset ++ slice.bytes ∧
      a.updated slice offset = some (v, if offset = 0 then a else a.read.2) := by
  rw [updated]
  by_cases hzero : offset = 0
  · subst hzero
    exact ⟨slice, rfl, rfl⟩
  · have hle : (a.read.1.bytes.take offset ++ slice.bytes).length ≤ 512 := by
      rw [List.length_append, List.length_take_of_le h.1]
      exact h.2
    rw [if_pos hzero, if_neg hzero, AttBytes.update, if_pos h.1, fits_of_le hle]
    exact ⟨_, rfl, rfl⟩

theorem updated_of_not_fits {slice : AttBytes} {offset : Nat} (h : ¬a.Fits slice offset) :
    a.updated slice offset = none := by
  have hzero : offset ≠ 0 := by
    rintro rfl
    exact h ⟨Nat.zero_le _, (Nat.zero_add _).symm ▸ slice.length_le⟩
  rw [updated, if_pos hzero, Option.map_eq_none_iff, ← Option.not_isSome_iff_eq_none,
    update_isSome_iff]
  exact h

/-- A permitted write either fits or ends the worker. -/
theorem handleCall_isWrite {slice : AttBytes} {offset : Nat}
    (hwrite : IsWrite a.interface slice offset c) (hwritable : a.writable = true) :
    a.handleCall io c.toMessage = match a.updated slice offset with
      | none => .stop .panic []
      | some (v, t) => (t.accept io path v).map fun _ ↦ c.toMessage.dynheader.makeResponse := by
  obtain ⟨options, hbody, rfl⟩ := hwrite.decoded
  have hrun : a.handleCall io c.toMessage = _ :=
    handleCall_writeValue hwrite.interface_eq hwrite.member_eq
  rw [hwritable, if_pos rfl, hbody] at hrun
  exact hrun

/-- **A write at an offset is atomic if and only if it fits.**  One that does not ends the worker
in a panic, without an answer. -/
theorem writesAtomically_iff {slice : AttBytes} {offset : Nat}
    (hwrite : IsWrite a.interface slice offset c) (hwritable : a.writable = true) :
    a.WritesAtomically io c slice offset ↔ a.Fits slice offset := by
  have hrun : a.handleCall io c.toMessage = _ := handleCall_isWrite hwrite hwritable
  constructor
  · intro h
    by_contra hfits
    obtain ⟨m, t, hrefused, -, -⟩ := h.refused hfits
    rw [updated_of_not_fits hfits] at hrun
    rw [hrun] at hrefused
    contradiction
  · intro hfits
    obtain ⟨v, hbytes, hupdated⟩ := updated_of_fits hfits
    rw [hupdated] at hrun
    exact ⟨fun _ ↦ ⟨v, _, hbytes, rfl, hrun⟩, fun h ↦ absurd hfits h⟩

/-- A call that writes. -/
def writeCall (path : ObjectPath) (interface : String) (slice : AttBytes) (offset : UInt16) :
    MethodCall path where
  member := "WriteValue"
  interface := some interface
  body := writeBody slice offset

theorem isWrite_writeCall (path : ObjectPath) (interface : String) (slice : AttBytes)
    (offset : UInt16) :
    IsWrite interface slice offset.toNat (writeCall path interface slice offset) :=
  ⟨rfl, rfl, get_writeBody slice offset⟩

/-- A characteristic that anyone may read and write. -/
def plain (value : AttBytes) : Attribute :=
  chrc { ChrcData.new { uuid := ⟨1⟩, flags := { read := true, write := true } } 0 with
    value := .value value }

/-- A byte is written right behind the stored one. -/
theorem writesAtomically_iff_behind :
    (plain ⟨[1], by decide⟩).WritesAtomically {}
      (writeCall .root bluezChrIf ⟨[2], by decide⟩ 1) ⟨[2], by decide⟩ 1 :=
  (writesAtomically_iff (isWrite_writeCall _ _ _ 1) rfl).mpr (by decide)

/-- A write behind the end of an empty value ends the worker. -/
theorem write_beyond_panics : ¬∀ (path : ObjectPath) (a : Attribute) (io : Io)
    (c : MethodCall path) (slice : AttBytes) (offset : Nat), IsWrite a.interface slice offset c →
      a.writable = true → a.WritesAtomically io c slice offset := by
  intro hall
  have hwrite := isWrite_writeCall .root bluezChrIf .empty 1
  have hatomic := hall .root (plain .empty) {} _ _ _ hwrite rfl
  obtain ⟨m, t, hrun, -, -⟩ := hatomic.refused (by decide)
  have hpanic : (plain .empty).handleCall {} _ = _ := handleCall_isWrite hwrite rfl
  rw [hrun] at hpanic
  contradiction

/-! ## Many writes -/

/-- Calls are handled in order; `none` if one of them gets no answer. -/
def handleAll : List (Io × MethodCall path) → Attribute →
    Option (List MarshalledMessage × Attribute)
  | [], a => some ([], a)
  | (io, c) :: calls, a =>
      match a.handleCall io c.toMessage with
      | .stop _ _ => none
      | .done m t _ => (handleAll calls t).map fun (replies, u) ↦ (m :: replies, u)

/-- A characteristic has the default write callback. -/
def Stores : Attribute → Prop
  | chrc data => data.writeCallback.run = WriteCallback.store.run
  | desc _ => True

/-- The value is stored; the write callback of a characteristic has been called with it. -/
def store (v : AttBytes) : Attribute → Attribute
  | chrc data => chrc { data with
      value := .value v
      writeCallback :=
        { data.writeCallback with calls := data.writeCallback.calls ++ [v] } }
  | desc data => desc { data with value := .value v }

@[simp] theorem value_store (v : AttBytes) (a : Attribute) : (a.store v).value = .value v := by
  cases a <;> rfl

@[simp] theorem interface_store (v : AttBytes) (a : Attribute) :
    (a.store v).interface = a.interface := by
  cases a <;> rfl

@[simp] theorem readable_store (v : AttBytes) (a : Attribute) :
    (a.store v).readable = a.readable := by
  cases a <;> rfl

@[simp] theorem writable_store (v : AttBytes) (a : Attribute) :
    (a.store v).writable = a.writable := by
  cases a <;> rfl

@[simp] theorem stores_store (v : AttBytes) (a : Attribute) : (a.store v).Stores ↔ a.Stores := by
  cases a <;> rfl

@[simp] theorem store_read (v : AttBytes) (a : Attribute) : a.read.2.store v = a.store v := by
  cases a <;> rfl

@[simp] theorem stores_read (a : Attribute) : a.read.2.Stores ↔ a.Stores := by
  cases a <;> rfl

/-- A stored value is read as it is. -/
theorem read_of_value {v : AttBytes} (h : a.value = .value v) : a.read = (v, a) := by
  cases a with
  | chrc data =>
      have hpair : data.value.toValue = (v, data.value) := by
        rw [show data.value = .value v from h]
        rfl
      rw [read, hpair]
  | desc data =>
      have hpair : data.value.toValue = (v, data.value) := by
        rw [show data.value = .value v from h]
        rfl
      rw [read, hpair]

/-- What is written is stored. -/
theorem accept_of_stores (h : a.Stores) (v : AttBytes) :
    a.accept io path v = .done () (a.store v) [] := by
  cases a with
  | chrc data =>
      obtain ⟨children, value, uuid, notify, flags, ⟨run, called⟩, notifyCb, writeFd, handle⟩ := data
      obtain rfl : run = WriteCallback.store.run := h
      rfl
  | desc data => rfl

/-- The chunks with the offsets at which they begin. -/
def placed : Nat → List AttBytes → List (AttBytes × Nat)
  | _, [] => []
  | offset, chunk :: chunks => (chunk, offset) :: placed (offset + chunk.bytes.length) chunks

/-- The call reads from the offset on. -/
structure IsRead (interface : String) (offset : Nat) (c : MethodCall path) : Prop where
  interface_eq : c.interface = some interface
  member_eq : c.member = "ReadValue"
  decoded : ∃ options, c.toMessage.body.get Options = .ok options ∧ offsetOption options = offset

/-- The reply carries the bytes. -/
def Carries (reply : MarshalledMessage) (bytes : List UInt8) : Prop :=
  reply.typ = .reply ∧ reply.body.get (List UInt8) = .ok bytes

theorem carries_valueReply (call : MarshalledMessage) (bytes : List UInt8) :
    Carries (valueReply call bytes) bytes := by
  obtain ⟨w, hw⟩ := Option.isSome_iff_exists.mp (marshal_bases_isSome bytes)
  have hbody : (valueReply call bytes).body = [⟨sig (List UInt8), w⟩] := by
    rw [valueReply, Body.pushParam_eq hw]
    rfl
  refine ⟨rfl, ?_⟩
  rw [hbody, Body.get, Body.next_cons (unmarshal_marshal hw)]
  rfl

/-- A stored value is read from the offset on. -/
theorem handleCall_isRead {v : AttBytes} {offset : Nat} (hread : IsRead a.interface offset c)
    (hreadable : a.readable = true) (hvalue : a.value = .value v) :
    a.handleCall io c.toMessage =
      .done (valueReply c.toMessage (v.bytes.drop offset)) a [] := by
  obtain ⟨options, hbody, rfl⟩ := hread.decoded
  rw [handleCall_readValue hread.interface_eq hread.member_eq, hreadable, if_pos rfl, hbody,
    read_of_value hvalue]

/-- Reads leave the value as it is. -/
theorem handleAll_isRead {v : AttBytes} {offsets : List Nat} {calls : List (Io × MethodCall path)}
    (hreads : List.Forall₂ (fun offset x ↦ IsRead a.interface offset x.2) offsets calls)
    (hreadable : a.readable = true) (hvalue : a.value = .value v) :
    ∃ replies, handleAll calls a = some (replies, a) ∧
      List.Forall₂ (fun offset reply ↦ Carries reply (v.bytes.drop offset)) offsets replies := by
  induction hreads with
  | nil => exact ⟨[], rfl, .nil⟩
  | @cons offset x offsets calls hread hreads ih =>
      obtain ⟨replies, hrun, hcarries⟩ := ih
      refine ⟨valueReply x.2.toMessage (v.bytes.drop offset) :: replies, ?_,
        .cons (carries_valueReply ..) hcarries⟩
      rw [handleAll, handleCall_isRead hread hreadable hvalue]
      dsimp only
      rw [hrun]
      rfl

/-- A chunk is written behind what the value begins with. -/
theorem handleCall_chunk (pre : List UInt8) {chunk : AttBytes}
    (hwrite : IsWrite a.interface chunk pre.length c) (hwritable : a.writable = true)
    (hstores : a.Stores) (hpre : pre <+: a.read.1.bytes)
    (hle : (pre ++ chunk.bytes).length ≤ 512) :
    a.handleCall io c.toMessage =
      .done c.toMessage.dynheader.makeResponse (a.store ⟨pre ++ chunk.bytes, hle⟩) [] := by
  have hfits : a.Fits chunk pre.length := ⟨hpre.length_le, by rwa [List.length_append] at hle⟩
  obtain ⟨v, hbytes, hupdated⟩ := updated_of_fits hfits
  obtain rfl : v = ⟨pre ++ chunk.bytes, hle⟩ := by
    rw [← List.prefix_iff_eq_take.mp hpre] at hbytes
    cases v
    subst hbytes
    rfl
  rw [handleCall_isWrite hwrite hwritable, hupdated]
  dsimp only
  split
  · rw [accept_of_stores hstores]
    rfl
  · rw [accept_of_stores ((stores_read a).mpr hstores), store_read]
    rfl

/-- The bytes of the chunks. -/
abbrev bytesOf (chunks : List AttBytes) : List UInt8 := chunks.flatMap AttBytes.bytes

/-- Chunks are written behind what is stored. -/
theorem handleAll_chunks (pre : AttBytes) {chunks : List AttBytes}
    {calls : List (Io × MethodCall path)}
    (hwrites : List.Forall₂ (fun p x ↦ IsWrite a.interface p.1 p.2 x.2)
      (placed pre.bytes.length chunks) calls)
    (hwritable : a.writable = true) (hstores : a.Stores) (hvalue : a.value = .value pre)
    (hle : (pre.bytes ++ bytesOf chunks).length ≤ 512) :
    ∃ replies t, handleAll calls a = some (replies, t) ∧ (∀ m ∈ replies, m.typ = .reply) ∧
      t.interface = a.interface ∧ t.readable = a.readable ∧
      t.value = .value ⟨pre.bytes ++ bytesOf chunks, hle⟩ := by
  induction chunks generalizing pre a calls with
  | nil =>
      obtain rfl := List.forall₂_nil_left_iff.mp hwrites
      refine ⟨[], a, rfl, by simp, rfl, rfl, ?_⟩
      rw [hvalue]
      simp
  | cons chunk chunks ih =>
      obtain ⟨x, calls, hwrite, hrest, rfl⟩ := List.forall₂_cons_left_iff.mp hwrites
      have hsum : (pre.bytes ++ chunk.bytes) ++ bytesOf chunks =
          pre.bytes ++ bytesOf (chunk :: chunks) := by
        rw [List.append_assoc]
        rfl
      have hshort : (pre.bytes ++ chunk.bytes).length ≤ 512 := by
        rw [← hsum, List.length_append] at hle
        exact (Nat.le_add_right ..).trans hle
      have hpre : pre.bytes <+: a.read.1.bytes := by
        rw [read_of_value hvalue]
      obtain ⟨replies, t, hrun, hreplies, hinterface, hreadable, hfinal⟩ :=
        ih (a := a.store ⟨_, hshort⟩) ⟨_, hshort⟩ (by simpa using hrest)
          (by simpa using hwritable) (by simpa using hstores) (value_store ..) (by rwa [hsum])
      refine ⟨x.2.toMessage.dynheader.makeResponse :: replies, t, ?_, ?_, ?_, ?_, ?_⟩
      · rw [handleAll, handleCall_chunk _ hwrite hwritable hstores hpre hshort]
        dsimp only
        rw [hrun]
        rfl
      · simpa using ⟨rfl, hreplies⟩
      · simpa using hinterface
      · simpa using hreadable
      · rw [hfinal]
        simp

/-- The chunks make up the whole value, whatever it was before. -/
theorem handleAll_first {chunk : AttBytes} {chunks : List AttBytes}
    {calls : List (Io × MethodCall path)}
    (hwrites : List.Forall₂ (fun p x ↦ IsWrite a.interface p.1 p.2 x.2)
      (placed 0 (chunk :: chunks)) calls)
    (hwritable : a.writable = true) (hstores : a.Stores)
    (hle : (bytesOf (chunk :: chunks)).length ≤ 512) :
    ∃ replies t, handleAll calls a = some (replies, t) ∧ (∀ m ∈ replies, m.typ = .reply) ∧
      t.interface = a.interface ∧ t.readable = a.readable ∧
      t.value = .value ⟨bytesOf (chunk :: chunks), hle⟩ := by
  obtain ⟨x, calls, hwrite, hrest, rfl⟩ := List.forall₂_cons_left_iff.mp hwrites
  have hrun : a.handleCall x.1 x.2.toMessage =
      .done x.2.toMessage.dynheader.makeResponse (a.store chunk) [] :=
    handleCall_chunk [] hwrite hwritable hstores List.nil_prefix chunk.length_le
  obtain ⟨replies, t, hcalls, hreplies, hinterface, hreadable, hvalue⟩ :=
    handleAll_chunks (a := a.store chunk) chunk (by simpa using hrest)
      (by simpa using hwritable) (by simpa using hstores) (value_store ..) hle
  refine ⟨x.2.toMessage.dynheader.makeResponse :: replies, t, ?_, ?_, ?_, ?_, hvalue⟩
  · rw [handleAll, hrun]
    dsimp only
    rw [hcalls]
    rfl
  · simpa using ⟨rfl, hreplies⟩
  · simpa using hinterface
  · simpa using hreadable

/-- Pieces of `n` elements, cut off one after the other, are the beginning of the list. -/
theorem flatMap_take_drop {α : Type} (l : List α) (n k : Nat) :
    (List.range k).flatMap (fun i ↦ (l.drop (i * n)).take n) = l.take (k * n) := by
  induction k with
  | zero => simp
  | succ k ih =>
      rw [List.range_succ, List.flatMap_append, ih, Nat.succ_mul, List.take_add,
        List.flatMap_singleton]

/-- **What is written in chunks is read in pieces**: each of the chunks is written where the
last one ended, then the value is what they make up, and what is read from it at `0`, `n`, `2n`
and so on makes up the value again. -/
theorem long_write_read {v : AttBytes} {chunks : List AttBytes}
    {writes : List (Io × MethodCall path)} (hcut : bytesOf chunks = v.bytes) (hne : chunks ≠ [])
    (hwrites : List.Forall₂ (fun p x ↦ IsWrite a.interface p.1 p.2 x.2) (placed 0 chunks) writes)
    (hwritable : a.writable = true) (hreadable : a.readable = true) (hstores : a.Stores) :
    ∃ replies t, handleAll writes a = some (replies, t) ∧ (∀ m ∈ replies, m.typ = .reply) ∧
      t.value = .value v ∧
      (∀ (io : Io) (c : MethodCall path) (offset : Nat), IsRead a.interface offset c →
        ∃ m, t.handleCall io c.toMessage = .done m t [] ∧ Carries m (v.bytes.drop offset)) ∧
      ∀ (n k : Nat) (reads : List (Io × MethodCall path)), 0 < n → v.bytes.length ≤ k * n →
        List.Forall₂ (fun i x ↦ IsRead a.interface (i * n) x.2) (List.range k) reads →
          ∃ replies pieces, handleAll reads t = some (replies, t) ∧
            List.Forall₂ Carries replies pieces ∧ pieces.flatMap (·.take n) = v.bytes := by
  obtain ⟨bytes, hle⟩ := v
  obtain rfl : bytesOf chunks = bytes := hcut
  cases chunks with
  | nil => contradiction
  | cons chunk chunks =>
      obtain ⟨replies, t, hrun, hreplies, hinterface, hread, hvalue⟩ :=
        handleAll_first hwrites hwritable hstores hle
      rw [hreadable] at hread
      rw [← hinterface]
      refine ⟨replies, t, hrun, hreplies, hvalue, ?_, ?_⟩
      · intro io c offset hoffset
        exact ⟨_, handleCall_isRead hoffset hread hvalue, carries_valueReply ..⟩
      · intro n k reads hn hk hreads
        have hoffsets : List.Forall₂ (fun offset x ↦ IsRead t.interface offset x.2)
            ((List.range k).map (· * n)) reads := List.forall₂_map_left_iff.mpr hreads
        obtain ⟨answers, hanswered, hcarries⟩ := handleAll_isRead hoffsets hread hvalue
        refine ⟨answers, (List.range k).map fun i ↦ (bytesOf (chunk :: chunks)).drop (i * n),
          hanswered, ?_, ?_⟩
        · rw [List.forall₂_map_left_iff] at hcarries
          rw [List.forall₂_map_right_iff]
          exact hcarries.flip
        · rw [List.flatMap_map, flatMap_take_drop, List.take_of_length_le hk]

/-- Three chunks, one of them empty, with the offsets at which they are written. -/
def threeChunks : List (AttBytes × UInt16) :=
  [(⟨[1], by decide⟩, 0), (.empty, 1), (⟨[2, 3], by decide⟩, 1)]

/-- The calls that write them. -/
def threeWrites : List (Io × MethodCall .root) :=
  threeChunks.map fun p ↦ ({}, writeCall .root bluezChrIf p.1 p.2)

theorem long_write_read_three : ∃ replies t,
    handleAll threeWrites (plain ⟨[7], by decide⟩) = some (replies, t) ∧
      t.value = .value ⟨[1, 2, 3], by decide⟩ := by
  have hwrites : List.Forall₂ (fun p x ↦ IsWrite bluezChrIf p.1 p.2 x.2)
      (placed 0 (threeChunks.map Prod.fst)) threeWrites :=
    .cons (isWrite_writeCall _ _ _ 0) (.cons (isWrite_writeCall _ _ _ 1)
      (.cons (isWrite_writeCall _ _ _ 1) .nil))
  obtain ⟨replies, t, hrun, -, hvalue, -⟩ := long_write_read (a := plain ⟨[7], by decide⟩)
    (v := ⟨[1, 2, 3], by decide⟩) rfl (List.cons_ne_nil _ _) hwrites rfl rfl rfl
  exact ⟨replies, t, hrun, hvalue⟩

/-- The empty value can be cut into no chunks at all: nothing is written, and the old value
stays. -/
theorem no_chunks_written : ¬∀ (path : ObjectPath) (a : Attribute) (v : AttBytes)
    (chunks : List AttBytes) (writes : List (Io × MethodCall path)), bytesOf chunks = v.bytes →
    List.Forall₂ (fun p x ↦ IsWrite a.interface p.1 p.2 x.2) (placed 0 chunks) writes →
    a.writable = true → a.readable = true → a.Stores →
      ∃ replies t, handleAll writes a = some (replies, t) ∧ t.value = .value v := by
  intro hall
  obtain ⟨replies, t, hrun, hvalue⟩ :=
    hall .root (plain ⟨[7], by decide⟩) .empty [] [] rfl .nil rfl rfl rfl
  obtain ⟨-, rfl⟩ := Prod.mk.inj (Option.some.inj hrun)
  have hbytes := congrArg AttBytes.bytes (ValOrFn.value.inj hvalue)
  contradiction

end Attribute

end Rustable.Gatt.Server
