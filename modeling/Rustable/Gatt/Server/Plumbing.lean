import Rustable.Gatt.Server.Iterations

/-!
# What the event loop takes and what becomes of it

Whatever a poll takes from a source is on its way to a turn, and nothing else is: between
the poll that takes it and the turn there is at most one thing `inFlight`.  So the turns
find exactly what has been taken, in the order of each source (`Accounts`), and there is
one future of the notify callback for each value it has given.

For the datagrams there is one exception, which `Delivers` leaves out.
-/

namespace Rustable.Gatt.Server

open DBus

variable {path : ObjectPath}

/-! ## What is found, by its source -/

/-- The worker messages that are found. -/
def Found.messages : Found path → List WorkerMsg
  | message msg => [msg]
  | closed | call _ | notified _ | written _ => []

/-- The values of the notify callback's futures that are found. -/
def Found.shouldNots : Found path → List ShouldNotify
  | notified shouldNot => [shouldNot]
  | message _ | closed | call _ | written _ => []

/-- The values read from the socket that are found. -/
def Found.values : Found path → List AttBytes
  | written (.ok v) => [v]
  | message _ | closed | call _ | notified _ | written (.error _) => []

theorem Found.length_shouldNots (found : Found path) :
    found.shouldNots.length = found.futures := by
  cases found <;> rfl

namespace EventLoop

variable {filter : Option String} {s t : State path} {p : Place path}

/-- What has been taken from a source and no turn has found yet. -/
def Place.inFlight : Place path → Option (Found path)
  | poll _ (.ready found) => some found
  | poll _ (.isHungUp true) => some (.written (.ok .empty))
  | _ => none

/-- What has been taken from the sources, in order. -/
def State.taken (s : State path) (p : Place path) : List (Found path) :=
  s.log ++ p.inFlight.toList

/-! ## Messages, calls and futures -/

/-- What has been taken is what the sources have given. -/
structure State.Accounts (s : State path) (n : Nat) (taken : List (Found path)) : Prop where
  messages : taken.flatMap Found.messages = s.msgs.seen
  calls : taken.flatMap Found.calls = s.calls.seen.map Sent.call
  /-- The values of the futures with the numbers after `n`. -/
  futures : (taken.flatMap Found.shouldNots).map some =
    (List.range' (n + 1) (taken.flatMap Found.shouldNots).length).map s.resolved

variable {n : Nat} {taken : List (Found path)}

namespace State.Accounts

theorem congr (h : s.Accounts n taken) (hmsgs : t.msgs.seen = s.msgs.seen)
    (hcalls : t.calls.seen = s.calls.seen) (hresolved : t.resolved = s.resolved) :
    t.Accounts n taken where
  messages := h.messages.trans hmsgs.symm
  calls := h.calls.trans (congrArg (List.map Sent.call) hcalls.symm)
  futures := by rw [hresolved]; exact h.futures

theorem closed (h : s.Accounts n taken) : s.Accounts n (taken ++ [.closed]) where
  messages := by simpa [Found.messages] using h.messages
  calls := by simpa [Found.calls] using h.calls
  futures := by simpa [Found.shouldNots] using h.futures

/-- What has been read from the socket is not accounted for here. -/
theorem written_iff (res : Except IoError AttBytes) :
    s.Accounts n (taken ++ [.written res]) ↔ s.Accounts n taken := by
  constructor
  · rintro ⟨hmsgs, hcalls, hfutures⟩
    constructor
    · simpa [Found.messages] using hmsgs
    · simpa [Found.calls] using hcalls
    · simpa [Found.shouldNots] using hfutures
  · rintro ⟨hmsgs, hcalls, hfutures⟩
    constructor
    · simpa [Found.messages] using hmsgs
    · simpa [Found.calls] using hcalls
    · simpa [Found.shouldNots] using hfutures

theorem message (h : s.Accounts n taken) (msg : WorkerMsg) (queue : List WorkerMsg) :
    State.Accounts { s with msgs := ⟨s.msgs.seen ++ [msg], queue⟩ } n
      (taken ++ [.message msg]) where
  messages := by simp [h.messages, Found.messages]
  calls := by simpa [Found.calls] using h.calls
  futures := by simpa [Found.shouldNots] using h.futures

theorem call (h : s.Accounts n taken) (sent : Sent path) (queue : List (Sent path)) :
    State.Accounts { s with calls := ⟨s.calls.seen ++ [sent], queue⟩ } n
      (taken ++ [.call sent.call]) where
  messages := by simpa [Found.messages] using h.messages
  calls := by simp [h.calls, Found.calls]
  futures := by simpa [Found.shouldNots] using h.futures

/-- The next future is resolved. -/
theorem notified (h : s.Accounts n taken) {shouldNot : ShouldNotify}
    (hresolved : s.resolved (n + 1 + (taken.flatMap Found.shouldNots).length) = some shouldNot) :
    s.Accounts n (taken ++ [.notified shouldNot]) where
  messages := by simpa [Found.messages] using h.messages
  calls := by simpa [Found.calls] using h.calls
  futures := by
    have hlast : (taken ++ [Found.notified shouldNot]).flatMap Found.shouldNots =
        taken.flatMap Found.shouldNots ++ [shouldNot] := by
      rw [List.flatMap_append, List.flatMap_singleton]
      rfl
    rw [hlast, List.length_append, List.length_singleton, List.range'_concat, Nat.one_mul,
      List.map_append, List.map_append, h.futures, List.map_singleton, List.map_singleton,
      hresolved]

/-- A future that is resolved has not given its value yet. -/
theorem resolve (h : s.Accounts n taken) {m : Nat} (hm : s.resolved m = none)
    (shouldNot : ShouldNotify) :
    State.Accounts { s with resolved := Function.update s.resolved m (some shouldNot) } n
      taken where
  messages := h.messages
  calls := h.calls
  futures := by
    rw [h.futures]
    refine List.map_congr_left fun i hi ↦ ?_
    have hsome : s.resolved i ∈ (taken.flatMap Found.shouldNots).map some :=
      h.futures ▸ List.mem_map_of_mem hi
    obtain ⟨v, -, hv⟩ := List.mem_map.mp hsome
    refine (Function.update_of_ne ?_ _ _).symm
    rintro rfl
    rw [hm] at hv
    contradiction

end State.Accounts

/-! ## Replies and callbacks -/

/-- The calls found by the turns so far are answered in their order.  A turn that fails
replies nothing, and is the last one. -/
def State.Replied (s : State path) (p : Place path) : Prop :=
  ∃ answered, List.Forall₂ (fun m (c : MethodCall path) ↦ Answers m c.toMessage.dynheader)
      (s.out.filterMap Out.reply?) answered ∧
    match p with
    | .poll _ _ | .finished _ => s.log.flatMap Found.calls = answered
    | .failed _ => ∃ last, last.length ≤ 1 ∧ s.log.flatMap Found.calls = answered ++ last

/-- What one turn passes to the write callback: what has been read from the socket, and the
value of an accepted `WriteValue`. -/
def Passes : Found path → List AttBytes → Prop
  | .written (.ok v), vs => vs = [v]
  | .call _, vs => vs.length ≤ 1
  | .message _, vs | .closed, vs | .notified _, vs | .written (.error _), vs => vs = []

/-- The callbacks have been called as often as the turns say. -/
structure Called (chrc : Characteristic) (log : List (Found path)) (data : ChrcData) : Prop where
  notifyCb : data.notifyCb = chrc.notifyCb + 1 + (log.flatMap Found.shouldNots).length
  writeCallback : ∃ passed, List.Forall₂ Passes log passed ∧
    data.writeCallback.calls = chrc.writeCallback.calls ++ passed.flatten

/-- The data of a worker that has not failed. -/
def Place.data? : Place path → Option ChrcData
  | poll data _ | finished data => some data
  | failed _ => none

theorem passes_passed (filter : Option String) (found : Found path) (data : ChrcData) :
    Passes found ((data.passed filter found).map Prod.fst).toList := by
  cases found with
  | message | closed | notified => rfl
  | call call => exact (Option.length_toList_le ..)
  | written res =>
      cases res with
      | ok v => rfl
      | error e => rfl

theorem Called.turned {chrc : Characteristic} {log : List (Found path)} {data data' : ChrcData}
    {found : Found path} {io : Io} {flow : Flow} {out : List Out} (h : Called chrc log data)
    (hturned : ChrcData.Turned io filter found data data' flow out) :
    Called chrc (log ++ [found]) data' where
  notifyCb := by
    rw [hturned.took.notifyCb, h.notifyCb, List.flatMap_append, List.flatMap_singleton,
      List.length_append, Found.length_shouldNots, Nat.add_assoc]
  writeCallback := by
    obtain ⟨passed, hpassed, hcalls⟩ := h.writeCallback
    refine ⟨passed ++ [((data.passed filter found).map Prod.fst).toList],
      List.rel_append hpassed (.cons (passes_passed filter found data) .nil), ?_⟩
    rw [hturned.took.writeCallback, List.flatten_append, ← List.append_assoc, ← hcalls]
    simp

/-! ## Steps -/

/-- What holds in every state. -/
structure State.Plumbed (chrc : Characteristic) (s : State path) (p : Place path) : Prop where
  accounts : s.Accounts chrc.notifyCb (s.taken p)
  called : ∀ data, p.data? = some data → Called chrc s.log data
  replied : s.Replied p

theorem taken_of_none (h : p.inFlight = none) : s.taken p = s.log := by
  rw [State.taken, h]
  exact List.append_nil _

theorem taken_of_some {found : Found path} (h : p.inFlight = some found) :
    s.taken p = s.log ++ [found] := by
  rw [State.taken, h]
  rfl

theorem inFlight_datagram (data : ChrcData) (v : AttBytes) :
    (Place.poll data (if v = .empty then .isHungUp true
      else .ready (.written (.ok v))) : Place path).inFlight = some (.written (.ok v)) := by
  by_cases h : v = .empty
  · rw [if_pos h, h]
    rfl
  · rw [if_neg h]
    rfl

theorem Looked.accounts {data : ChrcData} {stage stage' : Stage path} {u : State path}
    (h : Looked data s stage u stage')
    (hcount : data.notifyCb = n + 1 + (s.log.flatMap Found.shouldNots).length)
    (hs : s.Accounts n (s.taken (.poll data stage))) :
    u.Accounts n (u.taken (.poll data stage')) := by
  have hnone (hstage : (Place.poll data stage).inFlight = none) : s.Accounts n s.log :=
    taken_of_none (s := s) hstage ▸ hs
  cases h with
  | message hqueue => exact (hnone rfl).message _ _
  | closed => exact (hnone rfl).closed
  | noMessage | unresolved | noSocket | endOfStream | noDatagram | noCall | again => exact hs
  | resolved hresolved => exact (hnone rfl).notified (hcount ▸ hresolved)
  | call hqueue => exact (hnone rfl).call _ _
  | datagram hsock hqueue =>
      rw [taken_of_some (inFlight_datagram data _), State.Accounts.written_iff]
      exact (hnone rfl).congr rfl rfl rfl
  | @hungUp _ datagram | @notHungUp _ datagram =>
      refine (State.Accounts.written_iff _).mpr ?_
      cases datagram with
      | false => exact hnone rfl
      | true => exact (State.Accounts.written_iff _).mp hs

theorem Looked.log_eq {data : ChrcData} {stage stage' : Stage path} {u : State path}
    (h : Looked data s stage u stage') : u.log = s.log ∧ u.out = s.out := by
  cases h <;> exact ⟨rfl, rfl⟩

/-- Between two polls nothing is on its way. -/
theorem inFlight_ofRan (ran : Ran Stop Out ChrcData Flow) :
    (Place.ofRan ran : Place path).inFlight = none := by
  rcases ran with ⟨_ | _, data, out⟩ | ⟨why, out⟩ <;> rfl

theorem length_calls (found : Found path) : found.calls.length ≤ 1 := by
  cases found with
  | call call => exact Nat.le_refl 1
  | message | closed | notified | written => exact Nat.zero_le 1

/-- The replies after a turn. -/
theorem State.Replied.turned {io : Io} {data : ChrcData} {found : Found path}
    {ran : Ran Stop Out ChrcData Flow} (h : s.Replied (.poll data (.ready found)))
    (hended : ChrcData.Ended io filter found data ran) (hlog : t.log = s.log ++ [found])
    (hout : t.out = s.out ++ ran.out) : t.Replied (.ofRan ran) := by
  obtain ⟨answered, hanswered, hcalls⟩ := h
  have hcalls' : t.log.flatMap Found.calls = answered ++ found.calls := by
    rw [hlog, List.flatMap_append, List.flatMap_singleton]
    exact congrArg (· ++ found.calls) hcalls
  cases ran with
  | stop why out =>
      have hnone : out.filterMap Out.reply? = [] := hended.2
      refine ⟨answered, ?_, found.calls, length_calls found, hcalls'⟩
      rw [hout, List.filterMap_append, Ran.out, hnone, List.append_nil]
      exact hanswered
  | done flow data' out =>
      have hturned : ChrcData.Turned io filter found data data' flow out := hended
      refine ⟨answered ++ found.calls, ?_, ?_⟩
      · rw [hout, List.filterMap_append]
        exact List.rel_append hanswered hturned.replies
      · cases flow with
        | next => exact hcalls'
        | done => exact hcalls'

/-- **What each step keeps.** -/
theorem State.Plumbed.step {chrc : Characteristic} {e : Event path} {p' : Place path}
    (hs : s.Plumbed chrc p) (h : Stepped filter s p e t p') : t.Plumbed chrc p' := by
  cases h with
  | message | dropSenders | call | datagram | hangUp =>
      exact ⟨hs.accounts.congr rfl rfl rfl, hs.called, hs.replied⟩
  | resolve hn hnone => exact ⟨hs.accounts.resolve hnone _, hs.called, hs.replied⟩
  | looked hlooked =>
      obtain ⟨hlog, hout⟩ := hlooked.log_eq
      have haccounts := hlooked.accounts (hs.called _ rfl).notifyCb hs.accounts
      refine ⟨haccounts.congr rfl rfl rfl, ?_, ?_⟩
      · intro data hdata
        dsimp only
        rw [hlog]
        exact hs.called data hdata
      · have hreplied := hs.replied
        rw [State.Replied] at hreplied ⊢
        dsimp only at hreplied ⊢
        rw [hlog, hout]
        exact hreplied
  | @turned data found io ran sock released _ hended hsocketed =>
      refine ⟨?_, ?_, hs.replied.turned hended rfl rfl⟩
      · rw [taken_of_none (inFlight_ofRan ran)]
        exact hs.accounts.congr rfl rfl rfl
      · intro data' hdata
        cases ran with
        | stop why out => contradiction
        | done flow data'' out =>
            obtain rfl : data'' = data' := by cases flow <;> exact Option.some.inj hdata
            exact (hs.called data rfl).turned hended

end EventLoop

end Rustable.Gatt.Server
