import Rustable.Gatt.Server.Iterations

/-!
# The event loop gets through what waits for it

Left to itself, the task takes everything that waits in its sources and then waits for
more, unless a turn ends it.  Each poll that finds something takes one thing, and `items`
counts what is left.
-/

namespace Rustable.Gatt.Server.EventLoop

open DBus

variable {path : ObjectPath} {filter : Option String} {s t : State path}

/-! ## The end of the work -/

namespace State

/-- The task has ended. -/
def Over (s : State path) : Prop :=
  (∃ data, s.phase = .finished data) ∨ ∃ why, s.phase = .failed why

/-- No source has anything for the worker. -/
structure Empty (s : State path) (data : ChrcData) : Prop where
  msgs : s.msgs.queue = []
  senders : s.senders = true
  resolved : s.resolved data.notifyCb = none
  sock : ∀ sock, s.sock = some sock → sock.datagrams.queue = [] ∧ sock.closed = false
  calls : s.calls.queue = []

/-- The task waits, and has nothing left to do. -/
def Idle (s : State path) : Prop :=
  ∃ data, s.phase = .polling data (.ret (.pending (waitAll path data))) ∧ s.Empty data

/-- The task has ended, or has nothing left to do. -/
def Settled (s : State path) : Prop := s.Over ∨ s.Idle

/-- What is left on the socket: datagrams, and the end of the stream. -/
def left (s : State path) : Nat :=
  s.sock.elim 0 fun sock ↦ sock.datagrams.queue.length + sock.closed.toNat

/-- What is left in the sources. -/
def items (s : State path) (data : ChrcData) : Nat :=
  s.msgs.queue.length + (s.resolved data.notifyCb).toList.length + s.left + s.calls.queue.length

end State

/-! ## One step -/

theorem isSome_work (hpath : path ≠ .root) {data : ChrcData} {stage : Stage path} {io : Io}
    (hs : s.Running (.poll data stage)) : (s.work filter io).isSome = true := by
  by_cases hready : ∃ found, stage = .ready found
  · obtain ⟨found, rfl⟩ := hready
    obtain ⟨ran, sock, released, -, -, -, -, hwork⟩ :=
      work_turned filter io hpath hs.phase (hs.holds data _ rfl)
    rw [hwork]
    rfl
  · obtain ⟨u, stage', -, hwork⟩ := work_looked filter io hs.phase (hs.holds data _ rfl)
      fun found hfound ↦ hready ⟨found, hfound⟩
    rw [hwork]
    rfl

/-- What is inevitable after a step of the task is inevitable. -/
theorem inevitable_work {P : State path → Prop} (hpath : path ≠ .root) {data : ChrcData}
    {stage : Stage path} (hs : s.Running (.poll data stage))
    (h : ∀ io t p', t.Running p' → Stepped filter s (.poll data stage) (.work io) t p' →
      Lts.Inevitable (State.work filter) P t) : Lts.Inevitable (State.work filter) P s := by
  refine .later (fun io ↦ isSome_work hpath hs) fun io t ht ↦ ?_
  obtain ⟨p', hrunning, hstepped⟩ := work_cases hpath hs ht
  exact h io t p' hrunning hstepped

/-- The task is at the start of a poll, with at most so much left, or it has ended. -/
def Restarts (n : Nat) (s : State path) : Prop :=
  s.Over ∨ ∃ data, s.Running (.poll data .recv) ∧ s.items data < n

/-- What is counted with the sources until the turn that has found it. -/
def due : Found path → Nat
  | .notified _ | .written (.error _) => 1
  | .message _ | .closed | .call _ | .written (.ok _) => 0

theorem left_socketed {found : Found path} {sock : Option Sock} {released : List Sock}
    (h : Socketed found s sock released) (ht : t.sock = sock) :
    t.left ≤ s.left ∧ (found = gone path → t.left = 0) := by
  cases h with
  | same hfound => exact ⟨by rw [State.left, State.left, ht], fun h ↦ absurd h hfound⟩
  | released hfound hsock =>
      have hleft : t.left = 0 := by rw [State.left, ht]; rfl
      exact ⟨hleft ▸ Nat.zero_le _, fun _ ↦ hleft⟩
  | acquired mtu hfound hsock =>
      have hleft : t.left = 0 := by rw [State.left, ht]; rfl
      exact ⟨hleft ▸ Nat.zero_le _, fun _ ↦ hleft⟩

/-- A turn takes what is due, and nothing else. -/
theorem items_turned {data data' : ChrcData} {found : Found path} {io : Io} {out : List Out}
    {sock : Option Sock} {released : List Sock}
    (hs : s.Running (.poll data (.ready found)))
    (hturned : ChrcData.Turned io filter found data data' .next out)
    (hsocketed : Socketed found s sock released)
    (hnotified : found.futures ≤ (s.resolved data.notifyCb).toList.length)
    (hgone : found = gone path → s.left ≠ 0)
    (phase : Phase path) (log : List (Found path)) (out' : List Out) :
    State.items
      { s with phase := phase, log := log, out := out', sock := sock, released := released }
      data' + due found ≤ s.items data := by
  generalize ht : ({ s with
    phase := phase, log := log, out := out', sock := sock, released := released } :
      State path) = t
  obtain ⟨hle, hzero⟩ := left_socketed hsocketed (congrArg State.sock ht).symm
  have hmsgs : t.msgs = s.msgs := ht ▸ rfl
  have hcalls : t.calls = s.calls := ht ▸ rfl
  have hresolved : t.resolved = s.resolved := ht ▸ rfl
  rw [State.items, State.items, hmsgs, hresolved, hcalls, hturned.took.notifyCb]
  cases found with
  | message | closed | call =>
      simp only [Found.futures, due, Nat.add_zero]
      omega
  | notified shouldNot =>
      have hfresh := hs.fresh data _ rfl (data.notifyCb + 1) (Nat.lt_succ_self _)
      simp only [Found.futures, due, hfresh, Option.toList_none, List.length_nil] at hnotified ⊢
      omega
  | written res =>
      simp only [Found.futures, Nat.add_zero]
      cases res with
      | ok v =>
          simp only [due]
          omega
      | error e =>
          obtain ⟨-, he⟩ := (hs.holds data _ rfl).knows _ rfl
          obtain rfl := he e rfl
          have hleft := hgone rfl
          rw [hzero rfl, due]
          omega

/-- The turn with what a poll has found. -/
theorem inevitable_turn (hpath : path ≠ .root) {data : ChrcData} {found : Found path} {n : Nat}
    (hs : s.Running (.poll data (.ready found)))
    (hnotified : found.futures ≤ (s.resolved data.notifyCb).toList.length)
    (hgone : found = gone path → s.left ≠ 0)
    (hn : found ≠ .closed → s.items data < n + due found) :
    Lts.Inevitable (State.work filter) (Restarts n) s := by
  refine inevitable_work hpath hs fun io t p' hrunning hstepped ↦ .now ?_
  cases hstepped with
  | looked hlooked => cases hlooked
  | @turned _ _ _ ran sock released hturn hended hsocketed =>
      rcases ran with ⟨flow, data', out⟩ | ⟨why, out⟩
      · cases flow with
        | done => exact .inl (.inl ⟨data', rfl⟩)
        | next =>
            have hclosed : found ≠ .closed := by
              rintro rfl
              cases Option.some.inj hturn
            refine .inr ⟨data', hrunning, Nat.lt_of_add_lt_add_right (?_ : _ + due found < _)⟩
            exact (items_turned hs hended hsocketed hnotified hgone _ _ _).trans_lt (hn hclosed)
      · exact .inl (.inr ⟨why, rfl⟩)

/-! ## One poll -/

/-- How far it is to the end of the poll. -/
def Stage.rank : Stage path → Nat
  | recv => 4
  | notified => 3
  | read => 2
  | isHungUp _ | call => 1
  | ready _ | waiting => 0

theorem Looked.rank_lt {data : ChrcData} {stage stage' : Stage path} {u : State path}
    (h : Looked data s stage u stage') (hwaiting : stage ≠ .waiting) :
    stage'.rank < stage.rank := by
  cases h with
  | again => exact absurd rfl hwaiting
  | datagram => split <;> simp [Stage.rank]
  | message | closed | noMessage | resolved | unresolved | noSocket | endOfStream | noDatagram
  | hungUp | notHungUp | call | noCall => simp [Stage.rank]

/-- **Every poll ends**, with what is kept by what it does. -/
theorem inevitable_poll (hpath : path ≠ .root) {P : State path → Prop} {data : ChrcData}
    {I : State path → Stage path → Prop}
    (hlook : ∀ s u stage stage', s.Running (.poll data stage) → I s stage → stage ≠ .waiting →
      Looked data s stage u stage' →
      I { u with phase := (Place.poll data stage').phase } stage')
    (hready : ∀ s found, s.Running (.poll data (.ready found)) → I s (.ready found) →
      Lts.Inevitable (State.work filter) P s)
    (hwaiting : ∀ s, s.Running (.poll data .waiting) → I s .waiting →
      Lts.Inevitable (State.work filter) P s)
    {stage : Stage path} (hs : s.Running (.poll data stage)) (hi : I s stage) :
    Lts.Inevitable (State.work filter) P s := by
  generalize hrank : stage.rank = n
  induction n using Nat.strong_induction_on generalizing s stage with
  | h n ih =>
      by_cases hw : stage = .waiting
      · subst hw
        exact hwaiting s hs hi
      by_cases hr : ∃ found, stage = .ready found
      · obtain ⟨found, rfl⟩ := hr
        exact hready s found hs hi
      refine inevitable_work hpath hs fun io t p' hrunning hstepped ↦ ?_
      cases hstepped with
      | turned => exact absurd ⟨_, rfl⟩ hr
      | looked hlooked =>
          exact ih _ (hrank ▸ hlooked.rank_lt hw) hrunning (hlook _ _ _ _ hs hi hw hlooked) rfl

/-- The task gets to the start of a poll, or ends. -/
theorem inevitable_recv (hpath : path ≠ .root) {data : ChrcData} {stage : Stage path}
    (hs : s.Running (.poll data stage)) :
    Lts.Inevitable (State.work filter)
      (fun t ↦ t.Over ∨ ∃ data, t.Running (.poll data .recv)) s := by
  refine inevitable_poll hpath (I := fun _ _ ↦ True) (fun _ _ _ _ _ _ _ _ ↦ trivial) ?_ ?_ hs trivial
  · intro s found hs _
    refine inevitable_work hpath hs fun io t p' hrunning hstepped ↦ .now ?_
    cases hstepped with
    | looked hlooked => cases hlooked
    | @turned _ _ _ ran sock released hturn hended hsocketed =>
        rcases ran with ⟨flow, data', out⟩ | ⟨why, out⟩
        · cases flow with
          | done => exact .inl (.inl ⟨data', rfl⟩)
          | next => exact .inr ⟨data', hrunning⟩
        · exact .inl (.inr ⟨why, rfl⟩)
  · intro s hs _
    refine inevitable_work hpath hs fun io t p' hrunning hstepped ↦ .now ?_
    cases hstepped with
    | looked hlooked =>
        cases hlooked with
        | again => exact .inr ⟨data, hrunning⟩

/-- What is left at a place in a poll that has started with `n` items. -/
def Spent (n : Nat) (s : State path) (data : ChrcData) : Stage path → Prop
  | .recv | .notified | .read | .call | .waiting => s.items data ≤ n
  | .isHungUp datagram => s.items data + datagram.toNat ≤ n
  | .ready found =>
      found.futures ≤ (s.resolved data.notifyCb).toList.length ∧
        (found = gone path → s.left ≠ 0) ∧ (found ≠ .closed → s.items data < n + due found)

/-- What has been missed before a poll has got to a place. -/
def Missed (s : State path) (data : ChrcData) : Stage path → Prop
  | .recv | .isHungUp _ | .ready _ => True
  | .notified => s.msgs.queue = [] ∧ s.senders = true
  | .read => s.msgs.queue = [] ∧ s.senders = true ∧ s.resolved data.notifyCb = none
  | .call => s.msgs.queue = [] ∧ s.senders = true ∧ s.resolved data.notifyCb = none ∧
      ∀ sock, s.sock = some sock → sock.datagrams.queue = [] ∧ sock.closed = false
  | .waiting => s.Empty data

variable {data : ChrcData} {stage stage' : Stage path} {u : State path} {n : Nat}

theorem Looked.missed (h : Looked data s stage u stage') (hmissed : Missed s data stage)
    (hwaiting : stage ≠ .waiting) (phase : Phase path) :
    Missed { u with phase := phase } data stage' := by
  cases h with
  | message | closed | resolved | endOfStream | hungUp | notHungUp | call => trivial
  | noMessage hqueue hsenders => exact ⟨hqueue, hsenders⟩
  | unresolved hresolved => exact ⟨hmissed.1, hmissed.2, hresolved⟩
  | noSocket hresolved hsock =>
      refine ⟨hmissed.1, hmissed.2, hresolved, fun sock hsome ↦ ?_⟩
      rw [hsock] at hsome
      contradiction
  | datagram => split <;> trivial
  | noDatagram hsock hqueue hclosed =>
      refine ⟨hmissed.1, hmissed.2.1, hmissed.2.2, fun sock hsome ↦ ?_⟩
      obtain rfl := Option.some.inj (hsock.symm.trans hsome)
      exact ⟨hqueue, hclosed⟩
  | noCall hqueue =>
      obtain ⟨hmsgs, hsenders, hresolved, hsock⟩ := hmissed
      exact ⟨hmsgs, hsenders, hresolved, hsock, hqueue⟩
  | again => exact absurd rfl hwaiting

theorem left_eq {sock : Sock} (hsock : s.sock = some sock) :
    s.left = sock.datagrams.queue.length + sock.closed.toNat := by
  rw [State.left, hsock]
  rfl

/-- What a poll takes is counted no more, or is due. -/
theorem Looked.spent (h : Looked data s stage u stage') (hknows : stage.Knows s)
    (hspent : Spent n s data stage) (phase : Phase path) :
    Spent n { u with phase := phase } data stage' := by
  cases h with
  | noMessage | unresolved | noSocket | noDatagram | noCall | again => exact hspent
  | @message msg queue hqueue =>
      have hitems : s.items data ≤ n := hspent
      rw [State.items, hqueue, List.length_cons] at hitems
      refine ⟨Nat.zero_le _, fun h ↦ by simp at h, fun _ ↦ ?_⟩
      change queue.length + (s.resolved data.notifyCb).toList.length + s.left +
        s.calls.queue.length < n
      omega
  | closed => exact ⟨Nat.zero_le _, fun h ↦ by simp at h, fun h ↦ absurd rfl h⟩
  | resolved hresolved =>
      refine ⟨?_, fun h ↦ by simp at h, fun _ ↦ Nat.lt_succ_of_le hspent⟩
      rw [hresolved]
      exact Nat.le_refl 1
  | @call sent queue hqueue =>
      have hitems : s.items data ≤ n := hspent
      rw [State.items, hqueue, List.length_cons] at hitems
      refine ⟨Nat.zero_le _, fun h ↦ by simp at h, fun _ ↦ ?_⟩
      change s.msgs.queue.length + (s.resolved data.notifyCb).toList.length + s.left +
        queue.length < n
      omega
  | endOfStream => exact hspent
  | @datagram sock bytes queue hsock hqueue =>
      have hitems : s.items data ≤ n := hspent
      rw [State.items, left_eq hsock, hqueue, List.length_cons] at hitems
      have hless : State.items
          { s with
            sock := some { sock with datagrams := ⟨sock.datagrams.seen ++ [bytes], queue⟩ } }
          data + 1 ≤ n := by
        change s.msgs.queue.length + (s.resolved data.notifyCb).toList.length +
          (queue.length + sock.closed.toNat) + s.calls.queue.length + 1 ≤ n
        omega
      split
      · exact hless
      · exact ⟨Nat.zero_le _, fun h ↦ by simp at h, fun _ ↦ hless⟩
  | @hungUp sock datagram hsock hclosed =>
      have hitems : s.items data + datagram.toNat ≤ n := hspent
      refine ⟨Nat.zero_le _, fun _ ↦ ?_, fun _ ↦ ?_⟩
      · rw [left_eq (s := { s with phase := phase }) hsock, hclosed]
        exact Nat.succ_ne_zero _
      · exact Nat.lt_succ_of_le (Nat.le_of_add_right_le hitems)
  | @notHungUp sock datagram hsock hclosed =>
      cases datagram with
      | true => exact ⟨Nat.zero_le _, fun h ↦ by simp at h, fun _ ↦ hspent⟩
      | false =>
          obtain ⟨sock', hsock', hclosed', -⟩ := hknows
          obtain rfl := Option.some.inj (hsock.symm.trans hsock')
          rw [hclosed] at hclosed'
          contradiction

/-- A poll finds something, and there is less left, or there is nothing. -/
theorem inevitable_restarts (hpath : path ≠ .root) (hs : s.Running (.poll data .recv))
    (hn : s.items data ≤ n) :
    Lts.Inevitable (State.work filter) (fun t ↦ Restarts n t ∨ t.Idle) s := by
  refine inevitable_poll hpath (I := fun s stage ↦ Spent n s data stage ∧ Missed s data stage)
    ?_ ?_ ?_ hs ⟨hn, trivial⟩
  · rintro s u stage stage' hs ⟨hspent, hmissed⟩ hwaiting hlooked
    exact ⟨hlooked.spent (hs.holds data _ rfl).knows hspent _, hlooked.missed hmissed hwaiting _⟩
  · rintro s found hs ⟨⟨hnotified, hgone, hn⟩, -⟩
    exact (inevitable_turn hpath hs hnotified hgone hn).bind fun t ht ↦ .now (.inl ht)
  · rintro s hs ⟨-, hempty⟩
    exact .now (.inr ⟨data, hs.phase, hempty⟩)

/-- **Left to itself, the task gets through everything.** -/
theorem inevitable_settled (hpath : path ≠ .root) {p : Place path} (hs : s.Running p) :
    Lts.Inevitable (State.work filter) State.Settled s := by
  -- Each poll that finds something leaves less.
  have hrecv (n : Nat) : ∀ (s : State path) (data : ChrcData), s.Running (.poll data .recv) →
      s.items data = n → Lts.Inevitable (State.work filter) State.Settled s := by
    induction n using Nat.strong_induction_on with
    | _ n ih =>
        rintro s data hs rfl
        refine (inevitable_restarts hpath hs (Nat.le_refl _)).bind fun t ht ↦ ?_
        rcases ht with (hover | ⟨data', hrunning, hlt⟩) | hidle
        · exact .now (.inl hover)
        · exact ih _ hlt t data' hrunning rfl
        · exact .now (.inr hidle)
  cases p with
  | finished data => exact .now (.inl (.inl ⟨data, hs.phase⟩))
  | failed why => exact .now (.inl (.inr ⟨why, hs.phase⟩))
  | poll data stage =>
      refine (inevitable_recv hpath hs).bind fun t ht ↦ ?_
      rcases ht with hover | ⟨data', hrunning⟩
      · exact .now (.inl hover)
      · exact hrecv _ t data' hrunning rfl

end Rustable.Gatt.Server.EventLoop
