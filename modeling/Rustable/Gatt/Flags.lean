import Rustable.Gatt.Basic

/-!
# Decoding the flags of characteristics

`CharFlags::to_strings` and `CharFlags::from_strings` each name the seventeen flags.  They
use the same names, and the decoder sets a flag for each occurrence of its name, so that
order and repetitions do not matter.  Other names are `unreachable!()`, although the list
comes from the remote side (`decodesFlags_iff`).
-/

namespace Rustable.Gatt

/-- The fields of `CharFlags`. -/
inductive CharFlag
  | broadcast
  | read
  | write
  | writeWoResponse
  | notify
  | indicate
  | authSignedWrites
  | extendedProperties
  | reliableWrite
  | writableAuxiliaries
  | encryptRead
  | encryptWrite
  | encryptAuthRead
  | encryptAuthWrite
  | secureWrite
  | secureRead
  | authorize
deriving DecidableEq

namespace CharFlag

/-- All of them, in the order they are written in. -/
def all : List CharFlag :=
  [broadcast, read, write, writeWoResponse, notify, indicate, authSignedWrites,
    extendedProperties, reliableWrite, writableAuxiliaries, encryptRead, encryptWrite,
    encryptAuthRead, encryptAuthWrite, secureWrite, secureRead, authorize]

/-- The name it goes by on the bus. -/
def name : CharFlag → String
  | broadcast => "broadcast"
  | read => "read"
  | write => "write"
  | writeWoResponse => "write-without-response"
  | notify => "notify"
  | indicate => "indicate"
  | authSignedWrites => "authenticated-signed-writes"
  | extendedProperties => "extended-properties"
  | reliableWrite => "reliable-write"
  | writableAuxiliaries => "writable-auxiliaries"
  | encryptRead => "encrypt-read"
  | encryptWrite => "encrypt-write"
  | encryptAuthRead => "encrypt-authenticated-read"
  | encryptAuthWrite => "encrypt-authenticated-write"
  | secureWrite => "secure-write"
  | secureRead => "secure-read"
  | authorize => "authorize"

/-- The names that are known. -/
def names : List String := all.map name

theorem mem_all (flag : CharFlag) : flag ∈ all := by
  cases flag <;> decide

theorem mem_names {n : String} : n ∈ names ↔ ∃ flag : CharFlag, flag.name = n := by
  simp [names, mem_all]

/-- No two flags have the same name. -/
theorem name_injective : Function.Injective name := by
  have hnodup : (all.map name).Nodup := by decide
  exact fun a b h ↦ List.inj_on_of_nodup_map hnodup (mem_all a) (mem_all b) h

end CharFlag

namespace CharFlags

/-- A field. -/
def get (f : CharFlags) : CharFlag → Bool
  | .broadcast => f.broadcast
  | .read => f.read
  | .write => f.write
  | .writeWoResponse => f.writeWoResponse
  | .notify => f.notify
  | .indicate => f.indicate
  | .authSignedWrites => f.authSignedWrites
  | .extendedProperties => f.extendedProperties
  | .reliableWrite => f.reliableWrite
  | .writableAuxiliaries => f.writableAuxiliaries
  | .encryptRead => f.encryptRead
  | .encryptWrite => f.encryptWrite
  | .encryptAuthRead => f.encryptAuthRead
  | .encryptAuthWrite => f.encryptAuthWrite
  | .secureWrite => f.secureWrite
  | .secureRead => f.secureRead
  | .authorize => f.authorize

/-- Two records with the same fields. -/
theorem eq_of_get {f g : CharFlags} (h : ∀ flag, f.get flag = g.get flag) : f = g := by
  rw [CharFlags.mk.injEq]
  exact ⟨h .broadcast, h .read, h .writeWoResponse, h .write, h .notify, h .indicate,
    h .authSignedWrites, h .extendedProperties, h .reliableWrite, h .writableAuxiliaries,
    h .encryptRead, h .encryptWrite, h .encryptAuthRead, h .encryptAuthWrite, h .secureRead,
    h .secureWrite, h .authorize⟩

/-- The names that are written are those of the flags that are set. -/
theorem mem_toStrings {f : CharFlags} {n : String} :
    n ∈ f.toStrings ↔ ∃ flag, f.get flag = true ∧ flag.name = n := by
  have hall : f.toStrings = CharFlag.all.flatMap fun flag ↦ pushIf (f.get flag) flag.name := by
    simp [toStrings, CharFlag.all, get, CharFlag.name]
  rw [hall, List.mem_flatMap]
  simp only [mem_pushIf, CharFlag.mem_all, true_and, eq_comm]

/-- A known name sets its flag and no other. -/
theorem addFlag_name (ret : CharFlags) (flag : CharFlag) : ∃ f, ret.addFlag flag.name = some f ∧
    ∀ flag', f.get flag' = (decide (flag' = flag) || ret.get flag') := by
  cases flag <;> exact ⟨_, rfl, fun flag' ↦ by cases flag' <;> rfl⟩

theorem addFlag_of_notMem {n : String} (h : n ∉ CharFlag.names) (ret : CharFlags) :
    ret.addFlag n = none := by
  unfold addFlag
  split
  all_goals first
    | rfl
    | exact absurd (by decide) h

/-- Every flag whose name occurs is set, besides those that were. -/
theorem foldlM_addFlag {names : List String} (h : ∀ n ∈ names, n ∈ CharFlag.names)
    (ret : CharFlags) : ∃ f, names.foldlM addFlag ret = some f ∧
      ∀ flag, f.get flag = true ↔ ret.get flag = true ∨ flag.name ∈ names := by
  induction names generalizing ret with
  | nil => exact ⟨ret, rfl, by simp⟩
  | cons n names ih =>
      obtain ⟨hn, hnames⟩ := List.forall_mem_cons.mp h
      obtain ⟨flag, rfl⟩ := CharFlag.mem_names.mp hn
      obtain ⟨ret', hret', hset⟩ := addFlag_name ret flag
      obtain ⟨f, hf, hget⟩ := ih hnames ret'
      refine ⟨f, by rw [List.foldlM_cons, hret']; exact hf, fun flag' ↦ ?_⟩
      rw [hget, hset, Bool.or_eq_true, decide_eq_true_eq, List.mem_cons,
        CharFlag.name_injective.eq_iff]
      tauto

theorem foldlM_addFlag_of_notMem {names : List String} {n : String} (hn : n ∈ names)
    (h : n ∉ CharFlag.names) (ret : CharFlags) : names.foldlM addFlag ret = none := by
  induction names generalizing ret with
  | nil => contradiction
  | cons n' names ih =>
      rw [List.foldlM_cons]
      rcases List.mem_cons.mp hn with rfl | hn
      · rw [addFlag_of_notMem h]
        rfl
      · cases ret.addFlag n' with
        | none => rfl
        | some ret' => exact ih hn ret'

/-- The decoder returns, and what it returns is what the list says. -/
structure DecodesFlags (names : List String) : Prop where
  returns : ∃ f, fromStrings names = some f ∧ ∀ flag, f.get flag = true ↔ flag.name ∈ names
  /-- A list with the names of a record is decoded to it. -/
  back : ∀ f : CharFlags, (∀ n, n ∈ names ↔ n ∈ f.toStrings) → fromStrings names = some f

/-- **Flags are decoded** from every list of known names, and only from these. -/
theorem decodesFlags_iff (names : List String) :
    DecodesFlags names ↔ ∀ n ∈ names, n ∈ CharFlag.names := by
  constructor
  · intro h n hn
    by_contra hunknown
    obtain ⟨f, hf, -⟩ := h.returns
    rw [fromStrings, foldlM_addFlag_of_notMem hn hunknown] at hf
    contradiction
  · intro h
    obtain ⟨f, hf, hget⟩ := foldlM_addFlag h {}
    have hempty (flag : CharFlag) : get {} flag = false := by cases flag <;> rfl
    have hset (flag : CharFlag) : f.get flag = true ↔ flag.name ∈ names := by
      rw [hget, hempty]
      simp
    refine ⟨⟨f, hf, hset⟩, fun g hg ↦ hf.trans (congrArg some (eq_of_get fun flag ↦ ?_))⟩
    rw [Bool.eq_iff_iff, hset, hg, mem_toStrings]
    constructor
    · rintro ⟨flag', hflag', hname⟩
      rwa [← CharFlag.name_injective hname]
    · exact fun hflag ↦ ⟨flag, hflag, rfl⟩

/-- A flag of a later version is not skipped. -/
theorem unknown_flag_panics :
    fromStrings ["read", "encrypt-notify"] = none ∧ ¬DecodesFlags ["read", "encrypt-notify"] := by
  have hnone : fromStrings ["read", "encrypt-notify"] = none := rfl
  refine ⟨hnone, fun h ↦ ?_⟩
  obtain ⟨f, hf, -⟩ := h.returns
  rw [hnone] at hf
  contradiction

end CharFlags

end Rustable.Gatt
