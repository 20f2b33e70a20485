import Rustable.Lib.Lts

/-!
# The one-time channel

`OneSender` and `OneReceiver` share an `Arc<(Mutex<Option<T>>, Condvar)>`, of which
the sender holds only a `Weak`.  This file models one sender, used by `send` or
dropped unused, and one receiver awaited with `recv`, as two threads that take
atomic steps in any order.  A step is one of: take the lock, test the value, read
the weak count, register as a waiter and release the lock, `notify_all`, release
the `Weak`, and the steps between them that touch the reference counts.

Where a thread is inside its function is its program point.  `SenderPc` and
`ReceiverPc` list them in the order of the source; `next` says what each step does.
An await on the lock that is not free is a disabled step.  The receiver may also be
cancelled wherever it is suspended.
-/

universe u

namespace Rustable.Gatt.Server.OneTime

variable {T : Type u}

/-! ## Program points -/

/-- What became of a `OneSender`. -/
inductive Use (T : Type u) where
  /-- `send(v)` returned `Ok`. -/
  | sent (v : T)
  /-- `send(v)` returned `Err(SendError(v))`. -/
  | refused (v : T)
  /-- It was dropped without being used. -/
  | unused
deriving DecidableEq, Repr

/-- Where the sender is.  The last four points are inside its drop: first the body
of `Drop::drop`, then the release of the `Weak` field. -/
inductive SenderPc (T : Type u) where
  | idle
  | spinning (v : T)
  | locked (v : T)
  | stored (v : T)
  | notified (v : T)
  | unlocked (v : T)
  | dropping (use : Use T)
  | upgraded (use : Use T)
  | dropNotified (use : Use T)
  | releasing (use : Use T)
  | gone (use : Use T)
deriving DecidableEq, Repr

/-- The receiver's error: the sender is gone and has left no value. -/
inductive RecvError where
  | recvError
deriving DecidableEq, Repr

/-- Where the receiver is in `recv`. -/
inductive ReceiverPc (T : Type u) where
  /-- In `lock().await`, the first one or the one that ends a `wait`. -/
  | locking
  /-- At the test of the `while`. -/
  | testing
  /-- `val_fut` is made, the weak count is read next. -/
  | counting
  /-- The weak count was not zero: `val_fut` is polled for the first time next. -/
  | awaiting
  /-- The weak count was zero: `val_fut.now_or_never()` is next. -/
  | polling
  /-- `now_or_never` has polled a pending future. -/
  | pending
  /-- Registered with the condition variable, and woken or not. -/
  | waiting (woken : Bool)
  /-- The value is taken, the guard is dropped next. -/
  | took (v : T)
  /-- The result is known, the `Arc` is dropped next. -/
  | leaving (r : Except RecvError T)
  | finished (r : Except RecvError T)
  /-- The future of `recv` was dropped. -/
  | cancelled

/-- The two owners of the mutex. -/
inductive Side where
  | sender
  | receiver
deriving DecidableEq, Repr

/-- The threads and what they share: the content and the owner of the mutex, and
the two counts of the `Arc`. -/
structure State (T : Type u) where
  sender : SenderPc T
  receiver : ReceiverPc T
  value : Option T
  lock : Option Side
  strong : Nat
  weak : Nat

/-- `one_time_channel`, with `recv` called. -/
def oneTimeChannel : State T :=
  { sender := .idle, receiver := .locking, value := none, lock := none, strong := 1, weak := 1 }

/-! ## Steps -/

/-- The atomic steps. -/
inductive Event (T : Type u) where
  | send (v : T)
  | drop
  | tryLock
  | store
  | notifyAll
  | unlock
  | dropArc
  | upgrade
  | releaseWeak
  | lock
  | test
  | weakCount
  | register
  | giveUp
  | wake
  | dropGuard
  | leave
  | cancel
deriving DecidableEq, Repr

/-- The thread that takes a step. -/
def Event.side : Event T → Side
  | .send _ | .drop | .tryLock | .store | .notifyAll | .unlock | .dropArc | .upgrade
  | .releaseWeak => .sender
  | .lock | .test | .weakCount | .register | .giveUp | .wake | .dropGuard | .leave
  | .cancel => .receiver

/-- `notify_all` wakes the receiver if it is registered. -/
def ReceiverPc.notify : ReceiverPc T → ReceiverPc T
  | .waiting _ => .waiting true
  | pc => pc

/-- The steps, thread by thread.  `none` is a step that is not there: the thread is
elsewhere, or it is suspended. -/
def next (s : State T) : Event T → Option (State T)
  | .send v => match s.sender with
    | .idle =>
        if s.strong = 0 then some { s with sender := .dropping (.refused v) }
        else some { s with sender := .spinning v, strong := s.strong + 1 }
    | _ => none
  | .drop => match s.sender with
    | .idle => some { s with sender := .dropping .unused }
    | _ => none
  | .tryLock => match s.sender with
    | .spinning v =>
        if s.lock = none then some { s with sender := .locked v, lock := some .sender }
        else some s
    | _ => none
  | .store => match s.sender with
    | .locked v => some { s with sender := .stored v, value := some v }
    | _ => none
  | .notifyAll => match s.sender with
    | .stored v => some { s with sender := .notified v, receiver := s.receiver.notify }
    | .upgraded r => some { s with sender := .dropNotified r, receiver := s.receiver.notify }
    | _ => none
  | .unlock => match s.sender with
    | .notified v => some { s with sender := .unlocked v, lock := none }
    | _ => none
  | .dropArc => match s.sender with
    | .unlocked v => some { s with sender := .dropping (.sent v), strong := s.strong - 1 }
    | .dropNotified r => some { s with sender := .releasing r, strong := s.strong - 1 }
    | _ => none
  | .upgrade => match s.sender with
    | .dropping r =>
        if s.strong = 0 then some { s with sender := .releasing r }
        else some { s with sender := .upgraded r, strong := s.strong + 1 }
    | _ => none
  | .releaseWeak => match s.sender with
    | .releasing r => some { s with sender := .gone r, weak := s.weak - 1 }
    | _ => none
  | .lock => match s.receiver with
    | .locking =>
        if s.lock = none then some { s with receiver := .testing, lock := some .receiver }
        else none
    | _ => none
  | .test => match s.receiver, s.value with
    | .testing, some v => some { s with receiver := .took v, value := none }
    | .testing, none => some { s with receiver := .counting }
    | _, _ => none
  | .weakCount => match s.receiver with
    | .counting =>
        if s.weak = 0 then some { s with receiver := .polling }
        else some { s with receiver := .awaiting }
    | _ => none
  | .register => match s.receiver with
    | .awaiting => some { s with receiver := .waiting false, lock := none }
    | .polling => some { s with receiver := .pending, lock := none }
    | _ => none
  -- the pending future is dropped, which takes the receiver off the waiters again
  | .giveUp => match s.receiver with
    | .pending => some { s with receiver := .leaving (.error .recvError) }
    | _ => none
  | .wake => match s.receiver with
    | .waiting true => some { s with receiver := .locking }
    | _ => none
  | .dropGuard => match s.receiver with
    | .took v => some { s with receiver := .leaving (.ok v), lock := none }
    | _ => none
  | .leave => match s.receiver with
    | .leaving r => some { s with receiver := .finished r, strong := s.strong - 1 }
    | _ => none
  | .cancel => match s.receiver with
    | .locking | .waiting _ => some { s with receiver := .cancelled, strong := s.strong - 1 }
    | _ => none

/-- One step of either thread. -/
abbrev Step : State T → Event T → State T → Prop := Lts.ofNext next

/-! ## What the program points say -/

/-- The value a used sender has sent. -/
def Use.value : Use T → Option T
  | .sent v => some v
  | .refused _ | .unused => none

namespace SenderPc

/-- The value this sender has put under the mutex. -/
def storedValue : SenderPc T → Option T
  | .stored v | .notified v | .unlocked v => some v
  | .dropping r | .upgraded r | .dropNotified r | .releasing r | .gone r => r.value
  | _ => none

/-- What became of the sender, once its use is over and only its drop is left. -/
def use? : SenderPc T → Option (Use T)
  | .dropping r | .upgraded r | .dropNotified r | .releasing r | .gone r => some r
  | _ => none

/-- The sender holds the mutex. -/
def holdsLock : SenderPc T → Bool
  | .locked _ | .stored _ | .notified _ => true
  | _ => false

/-- The sender holds an upgraded `Arc`. -/
def holdsArc : SenderPc T → Bool
  | .spinning _ | .locked _ | .stored _ | .notified _ | .unlocked _ | .upgraded _
  | .dropNotified _ => true
  | _ => false

/-- The sender is gone, its `Weak` included. -/
def isGone : SenderPc T → Bool
  | .gone _ => true
  | _ => false

/-- The last `notify_all` of the sender is behind it. -/
def pastNotify : SenderPc T → Bool
  | .dropNotified _ | .releasing _ | .gone _ => true
  | _ => false

theorem storedValue_of_use {pc : SenderPc T} {use : Use T} (h : pc.use? = some use) :
    pc.storedValue = use.value := by cases pc <;> simp_all [use?, storedValue]

end SenderPc

namespace ReceiverPc

/-- The receiver holds the mutex. -/
def holdsLock : ReceiverPc T → Bool
  | .testing | .counting | .awaiting | .polling | .took _ => true
  | _ => false

/-- The receiver still holds its `Arc`. -/
def holdsArc : ReceiverPc T → Bool
  | .finished _ | .cancelled => false
  | _ => true

/-- The value the receiver has taken from under the mutex. -/
def taken : ReceiverPc T → Option T
  | .took v | .leaving (.ok v) | .finished (.ok v) => some v
  | _ => none

/-- The result of `recv`. -/
def result : ReceiverPc T → Option (Except RecvError T)
  | .leaving r | .finished r => some r
  | _ => none

/-- The receiver has found no value, and holds the mutex since. -/
def foundNone : ReceiverPc T → Bool
  | .counting | .awaiting | .polling => true
  | _ => false

/-- The receiver has found the weak count zero. -/
def foundGone : ReceiverPc T → Bool
  | .polling | .pending | .leaving (.error _) | .finished (.error _) => true
  | _ => false

/-! A receiver that is woken has moved nowhere else: nothing but `waiting` reads the
flag. -/

@[simp] theorem holdsLock_notify (pc : ReceiverPc T) :
    pc.notify.holdsLock = pc.holdsLock := by cases pc <;> rfl

@[simp] theorem holdsArc_notify (pc : ReceiverPc T) :
    pc.notify.holdsArc = pc.holdsArc := by cases pc <;> rfl

@[simp] theorem taken_notify (pc : ReceiverPc T) : pc.notify.taken = pc.taken := by
  cases pc <;> rfl

@[simp] theorem foundNone_notify (pc : ReceiverPc T) :
    pc.notify.foundNone = pc.foundNone := by cases pc <;> rfl

@[simp] theorem foundGone_notify (pc : ReceiverPc T) :
    pc.notify.foundGone = pc.foundGone := by cases pc <;> rfl

theorem notify_ne_waiting_false (pc : ReceiverPc T) : pc.notify ≠ .waiting false := by
  cases pc <;> simp [notify]

theorem holdsLock_of_foundNone {pc : ReceiverPc T} (h : pc.foundNone = true) :
    pc.holdsLock = true := by cases pc <;> simp_all [foundNone, holdsLock]

theorem holdsArc_of_holdsLock {pc : ReceiverPc T} (h : pc.holdsLock = true) :
    pc.holdsArc = true := by cases pc <;> simp_all [holdsArc, holdsLock]

theorem taken_of_result {pc : ReceiverPc T} {v : T} (h : pc.result = some (.ok v)) :
    pc.taken = some v := by cases pc <;> simp_all [result, taken]

theorem foundGone_of_result {pc : ReceiverPc T} {err : RecvError}
    (h : pc.result = some (.error err)) : pc.foundGone = true := by
  cases pc <;> simp_all [result, foundGone]

end ReceiverPc

/-! ## The invariant

The lock and the two counts are what the program points say they are.  The three
clauses that matter are `found_none`, by which the sender cannot store while the
receiver decides; `found_gone`, by which a receiver that has seen the weak count
zero has seen the end of an unused sender; and `taken_eq`. -/

/-- What holds in every reachable state. -/
structure Inv (s : State T) : Prop where
  lock_sender : s.lock = some .sender ↔ s.sender.holdsLock = true
  lock_receiver : s.lock = some .receiver ↔ s.receiver.holdsLock = true
  strong_eq : s.strong = s.sender.holdsArc.toNat + s.receiver.holdsArc.toNat
  weak_eq : s.weak = (!s.sender.isGone).toNat
  value_eq : s.receiver.taken = none → s.value = s.sender.storedValue
  taken_eq : ∀ v, s.receiver.taken = some v → s.sender.storedValue = some v
  found_none : s.receiver.foundNone = true → s.sender.storedValue = none
  found_gone : s.receiver.foundGone = true → s.sender = .gone .unused
  refused : ∀ v, s.sender.use? = some (.refused v) → s.receiver.holdsArc = false

theorem inv_oneTimeChannel : Inv (oneTimeChannel : State T) := by
  constructor <;> simp [oneTimeChannel, SenderPc.holdsLock, ReceiverPc.holdsLock,
    SenderPc.holdsArc, ReceiverPc.holdsArc, SenderPc.isGone, ReceiverPc.taken,
    SenderPc.storedValue, ReceiverPc.foundNone, ReceiverPc.foundGone, SenderPc.use?]

variable {s t : State T} {e : Event T}

/-- A weak count of zero, read by a receiver that has found no value: the sender
is gone, and neither stored a value nor was refused one. -/
theorem Inv.gone_unused (hi : Inv s) (hw : s.weak = 0) (hn : s.receiver.foundNone = true) :
    s.sender = .gone .unused := by
  have hstored := hi.found_none hn
  have harc := ReceiverPc.holdsArc_of_holdsLock (ReceiverPc.holdsLock_of_foundNone hn)
  have hgone : s.sender.isGone = true := by
    have := hi.weak_eq
    cases hg : s.sender.isGone <;> simp_all
  cases hs : s.sender with
  | gone use =>
      cases use with
      | sent v => simp [hs, SenderPc.storedValue, Use.value] at hstored
      | refused v => simp [hi.refused v (by rw [hs]; rfl)] at harc
      | unused => rfl
  | _ => simp [hs, SenderPc.isGone] at hgone

/-- With no strong reference left, the receiver has dropped its own. -/
theorem Inv.receiver_gone (hi : Inv s) (hz : s.strong = 0) : s.receiver.holdsArc = false := by
  have := hi.strong_eq
  cases ha : s.receiver.holdsArc with
  | false => rfl
  | true =>
      rw [hz, ha, Bool.toNat_true] at this
      omega

/-! ## What a step changes

The steps of a thread are gone through once, for what they change; what they keep follows from
that. -/

/-- What a step of a thread does to the lock; the last two are whether the thread holds it, before
and after. -/
inductive Locking (side : Side) : Option Side → Option Side → Bool → Bool → Prop where
  | keep (lock : Option Side) (holds : Bool) : Locking side lock lock holds holds
  | acquire : Locking side none (some side) false true
  | release (lock : Option Side) : Locking side lock none true false

namespace Locking

variable {side side' : Side} {lock lock' : Option Side} {holds holds' holdsOther : Bool}

theorem own (h : Locking side lock lock' holds holds') (hl : lock = some side ↔ holds = true) :
    lock' = some side ↔ holds' = true := by
  cases h with
  | keep => exact hl
  | acquire => exact ⟨fun _ ↦ rfl, fun _ ↦ rfl⟩
  | release => exact ⟨nofun, nofun⟩

/-- The other thread is not disturbed. -/
theorem other (h : Locking side lock lock' holds holds') (hne : side' ≠ side)
    (hl : lock = some side ↔ holds = true) (ho : lock = some side' ↔ holdsOther = true) :
    lock' = some side' ↔ holdsOther = true := by
  cases h with
  | keep => exact ho
  | acquire =>
      refine ⟨fun heq ↦ absurd (Option.some.inj heq).symm hne, fun hheld ↦ ?_⟩
      cases ho.mpr hheld
  | release =>
      refine ⟨nofun, fun hheld ↦ ?_⟩
      have hboth : some side' = some side := (ho.mpr hheld).symm.trans (hl.mpr rfl)
      exact absurd (Option.some.inj hboth) hne

end Locking

/-- What a step of the sender changes.  The counts change with what the sender holds, the value
under the lock and together with the sender's own. -/
structure SenderMoves (s t : State T) : Prop where
  receiver : t.receiver = s.receiver.notify ∨ t.receiver = s.receiver ∧
    (t.sender.pastNotify = true → s.sender.pastNotify = true ∨ s.strong = 0)
  lock : Locking .sender s.lock t.lock s.sender.holdsLock t.sender.holdsLock
  strong : t.strong = s.strong + t.sender.holdsArc.toNat - s.sender.holdsArc.toNat
  present : s.sender.isGone = false
  weak : t.weak = s.weak - t.sender.isGone.toNat
  value : (t.value = s.value ∧ t.sender.storedValue = s.sender.storedValue) ∨
    (s.sender.holdsLock = true ∧ s.sender.storedValue = none ∧ t.value = t.sender.storedValue)
  refused : ∀ v, t.sender.use? = some (.refused v) →
    s.sender.use? = some (.refused v) ∨ s.strong = 0

/-- **The steps of the sender.** -/
theorem senderMoves_of_next (hs : next s e = some t) (he : e.side = .sender) :
    SenderMoves s t := by
  obtain ⟨sp, rp, val, lk, st, wk⟩ := s
  cases e with
  | send v =>
      cases sp <;> simp only [next, reduceCtorEq] at hs
      split at hs
      · next hz =>
          obtain rfl := Option.some.inj hs
          exact ⟨.inr ⟨rfl, nofun⟩, .keep _ _, rfl, rfl, rfl, .inl ⟨rfl, rfl⟩, fun _ _ ↦ .inr hz⟩
      · obtain rfl := Option.some.inj hs
        exact ⟨.inr ⟨rfl, nofun⟩, .keep _ _, rfl, rfl, rfl, .inl ⟨rfl, rfl⟩, nofun⟩
  | drop =>
      cases sp <;> simp only [next, reduceCtorEq] at hs
      obtain rfl := Option.some.inj hs
      exact ⟨.inr ⟨rfl, nofun⟩, .keep _ _, rfl, rfl, rfl, .inl ⟨rfl, rfl⟩, nofun⟩
  | tryLock =>
      cases sp <;> simp only [next, reduceCtorEq] at hs
      split at hs
      · next hfree =>
          obtain rfl : lk = none := hfree
          obtain rfl := Option.some.inj hs
          exact ⟨.inr ⟨rfl, nofun⟩, .acquire, rfl, rfl, rfl, .inl ⟨rfl, rfl⟩, nofun⟩
      · obtain rfl := Option.some.inj hs
        exact ⟨.inr ⟨rfl, nofun⟩, .keep _ _, rfl, rfl, rfl, .inl ⟨rfl, rfl⟩, nofun⟩
  | store =>
      cases sp <;> simp only [next, reduceCtorEq] at hs
      obtain rfl := Option.some.inj hs
      exact ⟨.inr ⟨rfl, nofun⟩, .keep _ _, rfl, rfl, rfl, .inr ⟨rfl, rfl, rfl⟩, nofun⟩
  | notifyAll =>
      cases sp <;> simp only [next, reduceCtorEq] at hs
      · obtain rfl := Option.some.inj hs
        exact ⟨.inl rfl, .keep _ _, rfl, rfl, rfl, .inl ⟨rfl, rfl⟩, nofun⟩
      · obtain rfl := Option.some.inj hs
        exact ⟨.inl rfl, .keep _ _, rfl, rfl, rfl, .inl ⟨rfl, rfl⟩, fun _ h ↦ .inl h⟩
  | unlock =>
      cases sp <;> simp only [next, reduceCtorEq] at hs
      obtain rfl := Option.some.inj hs
      exact ⟨.inr ⟨rfl, nofun⟩, .release _, rfl, rfl, rfl, .inl ⟨rfl, rfl⟩, nofun⟩
  | dropArc =>
      cases sp <;> simp only [next, reduceCtorEq] at hs
      · obtain rfl := Option.some.inj hs
        exact ⟨.inr ⟨rfl, nofun⟩, .keep _ _, rfl, rfl, rfl, .inl ⟨rfl, rfl⟩, nofun⟩
      · obtain rfl := Option.some.inj hs
        exact ⟨.inr ⟨rfl, .inl⟩, .keep _ _, rfl, rfl, rfl, .inl ⟨rfl, rfl⟩, fun _ h ↦ .inl h⟩
  | upgrade =>
      cases sp <;> simp only [next, reduceCtorEq] at hs
      split at hs
      · next hz =>
          obtain rfl := Option.some.inj hs
          exact ⟨.inr ⟨rfl, fun _ ↦ .inr hz⟩, .keep _ _, rfl, rfl, rfl, .inl ⟨rfl, rfl⟩,
            fun _ h ↦ .inl h⟩
      · obtain rfl := Option.some.inj hs
        exact ⟨.inr ⟨rfl, nofun⟩, .keep _ _, rfl, rfl, rfl, .inl ⟨rfl, rfl⟩, fun _ h ↦ .inl h⟩
  | releaseWeak =>
      cases sp <;> simp only [next, reduceCtorEq] at hs
      obtain rfl := Option.some.inj hs
      exact ⟨.inr ⟨rfl, .inl⟩, .keep _ _, rfl, rfl, rfl, .inl ⟨rfl, rfl⟩, fun _ h ↦ .inl h⟩
  | _ => cases he

/-- What a step of the receiver changes. -/
structure ReceiverMoves (s : State T) (e : Event T) (t : State T) : Prop where
  sender : t.sender = s.sender
  lock : Locking .receiver s.lock t.lock s.receiver.holdsLock t.receiver.holdsLock
  strong : t.strong = s.strong + t.receiver.holdsArc.toNat - s.receiver.holdsArc.toNat
  weak : t.weak = s.weak
  value : (t.value = s.value ∧ t.receiver.taken = s.receiver.taken) ∨
    ∃ v, s.receiver.taken = none ∧ s.value = some v ∧ t.receiver.taken = some v
  found_none : t.receiver.foundNone = true →
    s.receiver.foundNone = true ∨ s.receiver.taken = none ∧ s.value = none
  found_gone : t.receiver.foundGone = true →
    s.receiver.foundGone = true ∨ s.weak = 0 ∧ s.receiver.foundNone = true
  holdsArc : t.receiver.holdsArc = true → s.receiver.holdsArc = true
  waiting : t.receiver = .waiting false → e = .register ∧ s.receiver = .awaiting

/-- **The steps of the receiver.** -/
theorem receiverMoves_of_next (hs : next s e = some t) (he : e.side = .receiver) :
    ReceiverMoves s e t := by
  obtain ⟨sp, rp, val, lk, st, wk⟩ := s
  cases e with
  | lock =>
      cases rp <;> simp only [next, reduceCtorEq] at hs
      split at hs
      · next hfree =>
          obtain rfl : lk = none := hfree
          obtain rfl := Option.some.inj hs
          exact ⟨rfl, .acquire, rfl, rfl, .inl ⟨rfl, rfl⟩, nofun, nofun, id, nofun⟩
      · contradiction
  | test =>
      cases rp <;> cases val <;> simp only [next, reduceCtorEq] at hs
      · obtain rfl := Option.some.inj hs
        exact ⟨rfl, .keep _ _, rfl, rfl, .inl ⟨rfl, rfl⟩, fun _ ↦ .inr ⟨rfl, rfl⟩, nofun, id, nofun⟩
      · obtain rfl := Option.some.inj hs
        exact ⟨rfl, .keep _ _, rfl, rfl, .inr ⟨_, rfl, rfl, rfl⟩, nofun, nofun, id, nofun⟩
  | weakCount =>
      cases rp <;> simp only [next, reduceCtorEq] at hs
      split at hs
      · next hz =>
          obtain rfl := Option.some.inj hs
          exact ⟨rfl, .keep _ _, rfl, rfl, .inl ⟨rfl, rfl⟩, .inl, fun _ ↦ .inr ⟨hz, rfl⟩, id, nofun⟩
      · obtain rfl := Option.some.inj hs
        exact ⟨rfl, .keep _ _, rfl, rfl, .inl ⟨rfl, rfl⟩, .inl, nofun, id, nofun⟩
  | register =>
      cases rp <;> simp only [next, reduceCtorEq] at hs
      · obtain rfl := Option.some.inj hs
        exact ⟨rfl, .release _, rfl, rfl, .inl ⟨rfl, rfl⟩, nofun, nofun, id, fun _ ↦ ⟨rfl, rfl⟩⟩
      · obtain rfl := Option.some.inj hs
        exact ⟨rfl, .release _, rfl, rfl, .inl ⟨rfl, rfl⟩, nofun, .inl, id, nofun⟩
  | giveUp =>
      cases rp <;> simp only [next, reduceCtorEq] at hs
      obtain rfl := Option.some.inj hs
      exact ⟨rfl, .keep _ _, rfl, rfl, .inl ⟨rfl, rfl⟩, nofun, .inl, id, nofun⟩
  | wake =>
      cases rp <;> simp only [next, reduceCtorEq] at hs
      split at hs
      · obtain rfl := Option.some.inj hs
        exact ⟨rfl, .keep _ _, rfl, rfl, .inl ⟨rfl, rfl⟩, nofun, nofun, id, nofun⟩
      · contradiction
  | dropGuard =>
      cases rp <;> simp only [next, reduceCtorEq] at hs
      obtain rfl := Option.some.inj hs
      exact ⟨rfl, .release _, rfl, rfl, .inl ⟨rfl, rfl⟩, nofun, nofun, id, nofun⟩
  | leave =>
      cases rp <;> simp only [next, reduceCtorEq] at hs
      rename_i r
      obtain rfl := Option.some.inj hs
      cases r with
      | error err => exact ⟨rfl, .keep _ _, rfl, rfl, .inl ⟨rfl, rfl⟩, nofun, .inl, nofun, nofun⟩
      | ok v => exact ⟨rfl, .keep _ _, rfl, rfl, .inl ⟨rfl, rfl⟩, nofun, nofun, nofun, nofun⟩
  | cancel =>
      cases rp <;> simp only [next, reduceCtorEq] at hs
      · obtain rfl := Option.some.inj hs
        exact ⟨rfl, .keep _ _, rfl, rfl, .inl ⟨rfl, rfl⟩, nofun, nofun, nofun, nofun⟩
      · obtain rfl := Option.some.inj hs
        exact ⟨rfl, .keep _ _, rfl, rfl, .inl ⟨rfl, rfl⟩, nofun, nofun, nofun, nofun⟩
  | _ => cases he

/-- Being woken is all that happens to the receiver meanwhile. -/
theorem SenderMoves.receiver_view {α : Type*} (hm : SenderMoves s t) (view : ReceiverPc T → α)
    (hview : ∀ pc, view pc.notify = view pc) : view t.receiver = view s.receiver := by
  rcases hm.receiver with heq | ⟨heq, -⟩
  · rw [heq, hview]
  · rw [heq]

/-! ## Every step keeps the invariant -/

theorem inv_of_senderMoves (h : Inv s) (hm : SenderMoves s t) : Inv t := by
  have hlock := hm.receiver_view _ ReceiverPc.holdsLock_notify
  have harc := hm.receiver_view _ ReceiverPc.holdsArc_notify
  have htaken := hm.receiver_view _ ReceiverPc.taken_notify
  have hnone := hm.receiver_view _ ReceiverPc.foundNone_notify
  have hgone := hm.receiver_view _ ReceiverPc.foundGone_notify
  constructor
  case lock_sender => exact hm.lock.own h.lock_sender
  case lock_receiver =>
      rw [hlock]
      exact hm.lock.other nofun h.lock_sender h.lock_receiver
  case strong_eq =>
      rw [harc, hm.strong, h.strong_eq]
      omega
  case weak_eq =>
      rw [hm.weak, h.weak_eq, hm.present]
      cases t.sender.isGone with
      | false | true => rfl
  case value_eq =>
      rw [htaken]
      intro ht
      rcases hm.value with ⟨hv, hst⟩ | ⟨-, -, hv⟩
      · rw [hv, hst, h.value_eq ht]
      · exact hv
  case taken_eq =>
      rw [htaken]
      intro v ht
      have hs := h.taken_eq v ht
      rcases hm.value with ⟨-, hst⟩ | ⟨-, hn, -⟩
      · rw [hst, hs]
      · rw [hn] at hs
        contradiction
  case found_none =>
      rw [hnone]
      intro hf
      rcases hm.value with ⟨-, hst⟩ | ⟨hheld, -, -⟩
      · rw [hst, h.found_none hf]
      · -- both would hold the lock
        have hr := h.lock_receiver.mpr (ReceiverPc.holdsLock_of_foundNone hf)
        cases hr.symm.trans (h.lock_sender.mpr hheld)
  case found_gone =>
      rw [hgone]
      intro hf
      have hpresent := hm.present
      rw [h.found_gone hf] at hpresent
      contradiction
  case refused =>
      rw [harc]
      intro v hv
      rcases hm.refused v hv with hv | hz
      · exact h.refused v hv
      · exact h.receiver_gone hz

theorem inv_of_receiverMoves (h : Inv s) (hm : ReceiverMoves s e t) : Inv t := by
  constructor
  case lock_sender =>
      rw [hm.sender]
      exact hm.lock.other nofun h.lock_receiver h.lock_sender
  case lock_receiver => exact hm.lock.own h.lock_receiver
  case strong_eq =>
      rw [hm.sender, hm.strong, h.strong_eq]
      omega
  case weak_eq => rw [hm.sender, hm.weak, h.weak_eq]
  case value_eq =>
      rw [hm.sender]
      intro ht
      rcases hm.value with ⟨hv, htaken⟩ | ⟨v, -, -, htaken⟩
      · rw [hv, h.value_eq (htaken ▸ ht)]
      · cases htaken.symm.trans ht
  case taken_eq =>
      rw [hm.sender]
      intro v ht
      rcases hm.value with ⟨-, htaken⟩ | ⟨v', hs, hv, htaken⟩
      · exact h.taken_eq v (htaken ▸ ht)
      · rw [← h.value_eq hs, hv, ← htaken, ht]
  case found_none =>
      rw [hm.sender]
      intro hf
      rcases hm.found_none hf with hf | ⟨ht, hv⟩
      · exact h.found_none hf
      · rw [← h.value_eq ht, hv]
  case found_gone =>
      rw [hm.sender]
      intro hf
      rcases hm.found_gone hf with hf | ⟨hw, hf⟩
      · exact h.found_gone hf
      · exact h.gone_unused hw hf
  case refused =>
      rw [hm.sender]
      intro v hv
      refine Bool.eq_false_iff.mpr fun ha ↦ ?_
      cases (h.refused v hv).symm.trans (hm.holdsArc ha)

theorem inv_next (h : Inv s) (hs : next s e = some t) : Inv t := by
  cases he : e.side with
  | sender => exact inv_of_senderMoves h (senderMoves_of_next hs he)
  | receiver => exact inv_of_receiverMoves h (receiverMoves_of_next hs he)

theorem inv_of_reachable (h : Lts.Reachable Step oneTimeChannel s) : Inv s :=
  h.invariant (fun _ _ _ hi hs ↦ inv_next hi hs) inv_oneTimeChannel

/-! ## Delivery -/

/-- **The channel delivers exactly what was sent.**  In every reachable state: a
receiver that returns `Ok(w)` got the value of a `send(w)` that was performed; one
that returns `RecvError` lost its sender without a `send`; and once `send(v)` has
returned `Ok`, no result but `Ok(v)` is possible. -/
theorem recv_delivers_sent (h : Lts.Reachable Step oneTimeChannel s) :
    (∀ w, s.receiver.result = some (.ok w) → s.sender.storedValue = some w) ∧
    (∀ err, s.receiver.result = some (.error err) → s.sender.use? = some .unused) ∧
    (∀ v r, s.sender.use? = some (.sent v) → s.receiver.result = some r → r = .ok v) := by
  have hi := inv_of_reachable h
  have hok : ∀ w, s.receiver.result = some (.ok w) → s.sender.storedValue = some w :=
    fun w hw ↦ hi.taken_eq w (ReceiverPc.taken_of_result hw)
  have herr : ∀ err, s.receiver.result = some (.error err) → s.sender.use? = some .unused := by
    intro err he
    rw [hi.found_gone (ReceiverPc.foundGone_of_result he)]
    rfl
  refine ⟨hok, herr, fun v r hu hr ↦ ?_⟩
  cases r with
  | error err => simp [herr err hr] at hu
  | ok w =>
      have hw := hok w hr
      rw [SenderPc.storedValue_of_use hu] at hw
      cases hw
      rfl

/-- A value sent before the receiver looks is delivered after the sender is gone. -/
theorem recv_delivers_sent_to_late_receiver :
    ∃ s : State Bool, s.weak = 0 ∧ s.receiver.result = some (.ok true) ∧
      s.sender.storedValue = some true :=
  ⟨_, rfl, rfl, (recv_delivers_sent ⟨[.send true, .tryLock, .store, .notifyAll, .unlock,
    .dropArc, .upgrade, .notifyAll, .dropArc, .releaseWeak, .lock, .test, .dropGuard, .leave],
    .of_replay rfl⟩).1 true rfl⟩

/-! ## Wake-ups

The body of `Drop::drop` does not take the lock, and it calls `notify_all` before
the `Weak` is released.  A receiver that reads the weak count before the release
finds the sender alive; if it registers after the `notify_all`, nothing will wake
it.  `send` is not exposed to this: it stores under the lock, and a receiver that
takes the lock afterwards does not register. -/

/-- The sender is gone, the receiver is registered as a waiter, and no wake-up is
pending. -/
def Stranded (s : State T) : Prop := s.sender.isGone = true ∧ s.receiver = .waiting false

/-- The step does not register the receiver as a waiter once the last `notify_all`
of the sender is over. -/
def RegistersInTime (s : State T) (e : Event T) : Prop :=
  e = .register → s.receiver = .awaiting → s.sender.pastNotify = false

/-- A registered receiver has a wake-up coming, or has one. -/
def WakeUpDue (s : State T) : Prop := s.receiver = .waiting false → s.sender.pastNotify = false

/-- Only registering makes a receiver wait, and only a `notify_all`, which wakes
it, takes the sender past its last one. -/
theorem wakeUpDue_next (hi : Inv s) (h : WakeUpDue s) (hs : next s e = some t)
    (he : RegistersInTime s e) : WakeUpDue t := by
  intro hw
  cases hside : e.side with
  | sender =>
      rcases (senderMoves_of_next hs hside).receiver with heq | ⟨heq, hpast⟩
      · exact absurd (heq.symm.trans hw) s.receiver.notify_ne_waiting_false
      · -- the receiver stays where it is, so the sender was not past its last `notify_all`
        have hwait : s.receiver = .waiting false := heq.symm.trans hw
        refine Bool.eq_false_iff.mpr fun hp ↦ ?_
        rcases hpast hp with hp | hz
        · cases (h hwait).symm.trans hp
        · -- an upgrade fails only if the receiver has left
          have harc := hi.receiver_gone hz
          rw [hwait] at harc
          contradiction
  | receiver =>
      have hm := receiverMoves_of_next hs hside
      obtain ⟨rfl, ha⟩ := hm.waiting hw
      rw [hm.sender]
      exact he rfl ha

/-- What holds along the runs whose registrations are in time. -/
def Safe (s : State T) : Prop := Inv s ∧ WakeUpDue s

theorem safe_next (h : Safe s) (hs : Lts.restrict Step RegistersInTime s e t) : Safe t :=
  ⟨inv_next h.1 hs.1, wakeUpDue_next h.1 h.2 hs.1 hs.2⟩

/-- A sender that was used, or that was refused, is never too late for a waiter. -/
theorem registersInTime_of_used (h : Lts.Reachable Step oneTimeChannel s)
    (hu : s.sender.use? ≠ some .unused) (e : Event T) : RegistersInTime s e := by
  intro _ ha
  have hi := inv_of_reachable h
  have hn : s.sender.storedValue = none := hi.found_none (by rw [ha]; rfl)
  have hr : ∀ v, s.sender.use? ≠ some (.refused v) := fun v hv ↦ by
    have := hi.refused v hv
    rw [ha] at this
    cases this
  cases hs : s.sender with
  | dropNotified use | releasing use | gone use =>
      rw [hs] at hu hn hr
      cases use with
      | sent v => cases hn
      | refused v => exact absurd rfl (hr v)
      | unused => exact absurd rfl hu
  | _ => rfl

/-- With the sender gone, only a stranded receiver is stuck: the lock is free, or
its own. -/
theorem receiver_can_step (hi : Inv s) (hns : ¬ Stranded s) (hg : s.sender.isGone = true)
    (ha : s.receiver.holdsArc = true) : ∃ e, e ≠ .cancel ∧ (next s e).isSome := by
  cases hr : s.receiver with
  | locking =>
      have hsend : s.lock ≠ some .sender := fun hl ↦ by
        have := hi.lock_sender.mp hl
        cases hs : s.sender <;> simp_all [SenderPc.isGone, SenderPc.holdsLock]
      have hrecv : s.lock ≠ some .receiver := fun hl ↦ by
        have := hi.lock_receiver.mp hl
        rw [hr] at this
        cases this
      have hfree : s.lock = none := by
        cases hl : s.lock with
        | none => rfl
        | some side => cases side <;> contradiction
      exact ⟨.lock, nofun, by simp [next, hr, hfree]⟩
  | testing =>
      cases hv : s.value with
      | none => exact ⟨.test, nofun, by simp [next, hr, hv]⟩
      | some v => exact ⟨.test, nofun, by simp [next, hr, hv]⟩
  | counting =>
      by_cases hw : s.weak = 0
      · exact ⟨.weakCount, nofun, by simp [next, hr, hw]⟩
      · exact ⟨.weakCount, nofun, by simp [next, hr, hw]⟩
  | awaiting => exact ⟨.register, nofun, by simp [next, hr]⟩
  | polling => exact ⟨.register, nofun, by simp [next, hr]⟩
  | pending => exact ⟨.giveUp, nofun, by simp [next, hr]⟩
  | waiting woken =>
      cases woken with
      | false => exact absurd ⟨hg, hr⟩ hns
      | true => exact ⟨.wake, nofun, by simp [next, hr]⟩
  | took v => exact ⟨.dropGuard, nofun, by simp [next, hr]⟩
  | leaving r => exact ⟨.leave, nofun, by simp [next, hr]⟩
  | finished r => simp [hr, ReceiverPc.holdsArc] at ha
  | cancelled => simp [hr, ReceiverPc.holdsArc] at ha

/-- After a late registration the sender only has to finish its drop. -/
theorem late_strands (hs : next s .register = some t) (hlate : ¬ RegistersInTime s .register) :
    ∃ es u, Lts.Run Step t es u ∧ Stranded u := by
  simp only [RegistersInTime, forall_const, Classical.not_imp, Bool.not_eq_false] at hlate
  obtain ⟨ha, hp⟩ := hlate
  simp only [next, ha, Option.some.injEq] at hs
  subst hs
  cases hsp : s.sender with
  | dropNotified use =>
      exact ⟨[.dropArc, .releaseWeak], _, .of_replay (by simp [Lts.replay, next]; rfl),
        rfl, rfl⟩
  | releasing use =>
      exact ⟨[.releaseWeak], _, .of_replay (by simp [Lts.replay, next]; rfl), rfl, rfl⟩
  | gone use => exact ⟨[], _, .nil _, by simp [SenderPc.isGone], rfl⟩
  | _ => simp [hsp, SenderPc.pastNotify] at hp

/-- **When the channel strands its receiver.**  A run none of whose steps registers
the receiver after the sender's last `notify_all` never reaches a stranded state,
and once the sender is gone its receiver can step until it has returned.  A step
that does register it too late is followed by a run that strands it; no sender that
is used with `send` allows such a step. -/
theorem not_stranded_of_registersInTime :
    (∀ es (s : State T), Lts.Run (Lts.restrict Step RegistersInTime) oneTimeChannel es s →
      ¬ Stranded s ∧ (s.sender.isGone = true → s.receiver.holdsArc = true →
        ∃ e, e ≠ .cancel ∧ (next s e).isSome)) ∧
    (∀ s t : State T, Lts.Reachable Step oneTimeChannel s → next s .register = some t →
      ¬ RegistersInTime s .register → ∃ es u, Lts.Run Step t es u ∧ Stranded u) ∧
    (∀ s : State T, Lts.Reachable Step oneTimeChannel s →
      s.sender.use? ≠ some .unused → ∀ e, RegistersInTime s e) := by
  refine ⟨fun es s hr ↦ ?_, fun s t _ hs hlate ↦ ?_, fun s h ↦ registersInTime_of_used h⟩
  · have hinit : Safe (oneTimeChannel : State T) := ⟨inv_oneTimeChannel, nofun⟩
    have hinv : Safe s := hr.invariant (fun _ _ _ hi hs ↦ safe_next hi hs) hinit
    have hns : ¬ Stranded s := fun ⟨hg, hw⟩ ↦ by
      have := hinv.2 hw
      cases hs : s.sender <;> simp_all [SenderPc.isGone, SenderPc.pastNotify]
    exact ⟨hns, fun hg ha ↦ receiver_can_step hinv.1 hns hg ha⟩
  · exact late_strands hs hlate

/-- A sender dropped unused strands a receiver that has read the weak count before
the `notify_all` and registers after it. -/
theorem oneTimeChannel_strands :
    ∃ es, ∃ s : State Bool, Lts.Run Step oneTimeChannel es s ∧ Stranded s :=
  ⟨[.lock, .test, .weakCount, .drop, .upgrade, .notifyAll, .register, .dropArc, .releaseWeak],
    _, .of_replay rfl, rfl, rfl⟩

end Rustable.Gatt.Server.OneTime
