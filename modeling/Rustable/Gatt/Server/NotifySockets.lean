import Rustable.Gatt.Client
import Rustable.Gatt.Server.Subscribers

/-!
# Notifications through sockets

A client that has acquired a socket for notifications reads from its end what the worker sends
into the other one, and each of them goes on at its own pace: values wait on the way, and the
worker may have closed its end long before the client has read them.  The end of the worker is
closed when the session is over, and a client is told so by a socket that is empty and has hung
up.

`notifications_arrive` says what a client gets in any order of turns and reads: the values that
were notified in its session, each once, whole and in their order.  Only empty values can get
lost, because they look like the end of a socket that has hung up.
-/

namespace Rustable.Gatt.Server

open DBus

variable {path : ObjectPath} {filter : Option String}

/-! ## A socket -/

/-- A socket that has been handed out for notifications. -/
structure NotifyPipe where
  /-- The end of the client. -/
  client : Client.NotifySocket
  /-- What is on its way, with the oldest datagram first. -/
  datagrams : List (List UInt8) := []
  /-- The values that were notified in the session, without those that could not be sent. -/
  notified : List AttBytes := []
  /-- What `recv_notification` has returned. -/
  results : List (Except IoError AttBytes) := []

/-- The datagram that is sent. -/
def Out.datagram? : Out → Option (List UInt8)
  | datagram _ bytes => some bytes
  | answer _ _ | reply _ | signal _ => none

/-- The value that was notified in a turn, unless it could not be sent. -/
def Past.notified (p : Past path) : List AttBytes :=
  match p.io.sockSend with
  | .ok _ => p.asked.toList
  | .error _ => []

namespace NotifyPipe

/-- The worker sends into the socket. -/
def send (self : NotifyPipe) (p : Past path) : NotifyPipe where
  client := self.client
  datagrams := self.datagrams ++ p.out.filterMap Out.datagram?
  notified := self.notified ++ p.notified
  results := self.results

/-- The next datagram; or, when there is none and the socket has hung up, nothing. -/
def recv (self : NotifyPipe) (hungUp : Bool) : Option (List UInt8 × NotifyPipe) :=
  match self.datagrams with
  | datagram :: rest => some (datagram, { self with datagrams := rest })
  | [] => if hungUp then some ([], self) else none

/-- The values the client has got. -/
def got (self : NotifyPipe) : List AttBytes := self.results.filterMap Except.toOption

end NotifyPipe

/-- The client calls `recv_notification`.  Polling tells whether the socket has hung up, or it
fails. -/
inductive NotifyPipe.Received (hungUp : Bool) (self : NotifyPipe) : NotifyPipe → Prop
  | intro (datagram : List UInt8) (next : NotifyPipe) (isHungUp : Except IoError Bool)
      (result : Except IoError AttBytes) (hrecv : self.recv hungUp = some (datagram, next))
      (hpoll : ∀ b, isHungUp = .ok b → b = hungUp)
      (hresult : Client.recvNotification datagram isHungUp = some result) :
      Received hungUp self { next with results := next.results ++ [result] }

/-! ## All sockets -/

/-- The worker and the sockets it has handed out: the one whose session is open, and those of which
it has closed its end, with the oldest first. -/
structure Notifier where
  task : Task ChrcData
  current : Option NotifyPipe
  closed : List NotifyPipe

/-- The MTU of the socket that a task notifies through. -/
def Task.notifyMtu : Task ChrcData → Option Nat
  | running s => match s.notify with
    | .socket _ mtu => some mtu
    | .none | .signal => none
  | finished _ | failed _ => none

/-- The socket that a client gets in a turn. -/
def Past.opened (filter : Option String) (p : Past path) : Option Client.NotifySocket := do
  let c ← p.found.method? filter
  if c.member = "AcquireNotify" then
    match (Client.acquireNotifyReply (← p.granted?)).run with
    | some (.ok sock) => some sock
    | some (.error _) | none => none
  else none

namespace Notifier

/-- Nothing has been handed out. -/
def start (chrc : Characteristic) (children : Nat) : Notifier where
  task := .running (.start chrc children)
  current := none
  closed := []

/-- After a turn.  The worker closes its end of a socket when another one takes its place in the
session, when the session ends, and when the task ends. -/
def turned (filter : Option String) (self : Notifier) (p : Past path) (t : Task ChrcData) :
    Notifier :=
  let current := self.current.map (·.send p)
  match p.opened filter with
  | some client => ⟨t, some { client := client }, self.closed ++ current.toList⟩
  | none =>
      if t.notifyMtu.isSome then ⟨t, current, self.closed⟩
      else ⟨t, none, self.closed ++ current.toList⟩

/-- What can happen. -/
inductive Event (path : ObjectPath)
  | /-- The worker takes a turn. -/
    turn (p : Past path)
  | /-- The client of the open session receives. -/
    recv
  | /-- A client receives from a socket that has hung up. -/
    recvClosed (i : Nat)

/-- The steps. -/
inductive Step (filter : Option String) : Notifier → Event path → Notifier → Prop
  | turn {s : Notifier} {p : Past path} {t : Task ChrcData}
      (h : ChrcData.Recorded filter s.task p t) : Step filter s (.turn p) (s.turned filter p t)
  | recv {s : Notifier} {pipe pipe' : NotifyPipe} (hpipe : s.current = some pipe)
      (h : pipe.Received false pipe') : Step filter s .recv { s with current := some pipe' }
  | recvClosed {s : Notifier} {before after : List NotifyPipe} {pipe pipe' : NotifyPipe}
      (hpipe : s.closed = before ++ pipe :: after) (h : pipe.Received true pipe') :
      Step filter s (.recvClosed before.length) { s with closed := before ++ pipe' :: after }

end Notifier

/-! ## What a receive does -/

namespace NotifyPipe

variable {self next : NotifyPipe}

theorem Received.client {hungUp : Bool} (h : self.Received hungUp next) :
    next.client = self.client := by
  obtain ⟨datagram, u, isHungUp, result, hrecv, -, -⟩ := h
  rw [recv] at hrecv
  split at hrecv
  · obtain ⟨-, rfl⟩ := Prod.mk.inj (Option.some.inj hrecv)
    rfl
  · split at hrecv
    · obtain ⟨-, rfl⟩ := Prod.mk.inj (Option.some.inj hrecv)
      rfl
    · contradiction

/-- A datagram is returned as it is; only an empty one may be taken for the end. -/
theorem result_of_recvNotification {datagram : List UInt8} {isHungUp : Except IoError Bool}
    {result : Except IoError AttBytes} (hle : datagram.length ≤ 512)
    (h : Client.recvNotification datagram isHungUp = some result) :
    result = .ok ⟨datagram, hle⟩ ∨
      datagram = [] ∧ isHungUp = .ok true ∧ result = .error .notConnected := by
  let v : AttBytes := ⟨datagram, hle⟩
  by_cases hend : v.bytes = [] ∧ isHungUp = .ok true
  · obtain ⟨hempty, rfl⟩ := hend
    obtain rfl : datagram = [] := hempty
    exact .inr ⟨rfl, rfl, (Option.some.inj (Client.recvNotification_hungUp.symm.trans h)).symm⟩
  · have heq := Client.recvNotification_eq (v := v) fun hempty hup ↦ hend ⟨hempty, hup⟩
    exact .inl (Option.some.inj (heq.symm.trans h)).symm

/-- What holds of every socket: no value is lost or repeated but empty ones. -/
structure Sound (pipe : NotifyPipe) : Prop where
  length_le : ∀ datagram ∈ pipe.datagrams, datagram.length ≤ 512
  values : (pipe.got.map AttBytes.bytes ++ pipe.datagrams).filter (· ≠ []) =
    (pipe.notified.map AttBytes.bytes).filter (· ≠ [])
  errors : ∀ e, .error e ∈ pipe.results → e = .notConnected

/-- What holds of the socket of an open session: no value is lost or repeated. -/
structure Open (pipe : NotifyPipe) : Prop where
  values : pipe.got.map AttBytes.bytes ++ pipe.datagrams = pipe.notified.map AttBytes.bytes
  errors : ∀ e, .error e ∉ pipe.results

theorem Open.length_le (h : self.Open) : ∀ datagram ∈ self.datagrams, datagram.length ≤ 512 := by
  intro datagram hmem
  have hnotified := List.mem_append_right (self.got.map AttBytes.bytes) hmem
  rw [h.values] at hnotified
  obtain ⟨v, -, rfl⟩ := List.mem_map.mp hnotified
  exact v.length_le

theorem Open.sound (h : self.Open) : self.Sound where
  length_le := h.length_le
  values := congrArg _ h.values
  errors e he := absurd he (h.errors e)

theorem open_new (client : Client.NotifySocket) : Open { client := client } where
  values := rfl
  errors _ := List.not_mem_nil

theorem Open.send {p : Past path} (h : self.Open)
    (hsent : p.out.filterMap Out.datagram? = p.notified.map AttBytes.bytes) :
    (self.send p).Open where
  values := by
    change self.got.map AttBytes.bytes ++ (self.datagrams ++ p.out.filterMap Out.datagram?) =
      (self.notified ++ p.notified).map AttBytes.bytes
    rw [← List.append_assoc, h.values, hsent, List.map_append]
  errors := h.errors

/-- The values the client has got after a receive. -/
theorem got_append (self : NotifyPipe) (result : Except IoError AttBytes) :
    got { self with results := self.results ++ [result] } =
      self.got ++ result.toOption.toList := by
  rw [got, List.filterMap_append]
  cases result with
  | ok | error => rfl

theorem Open.received (h : self.Open) (hnext : self.Received false next) : next.Open := by
  obtain ⟨datagram, u, isHungUp, result, hrecv, hpoll, hresult⟩ := hnext
  rw [recv] at hrecv
  split at hrecv
  · next d rest hdatagrams =>
      obtain ⟨rfl, rfl⟩ := Prod.mk.inj (Option.some.inj hrecv)
      have hle : d.length ≤ 512 := h.length_le d (hdatagrams ▸ List.mem_cons_self)
      obtain rfl | ⟨-, rfl, -⟩ := result_of_recvNotification hle hresult
      · constructor
        · rw [got_append, List.map_append, List.append_assoc]
          exact (congrArg _ hdatagrams.symm).trans h.values
        · intro e he
          rcases List.mem_append.mp he with he | he
          · exact h.errors e he
          · exact nomatch List.mem_singleton.mp he
      · exact nomatch hpoll true rfl
  · exact nomatch hrecv

theorem Sound.received (h : self.Sound) (hnext : self.Received true next) : next.Sound := by
  obtain ⟨datagram, u, isHungUp, result, hrecv, hpoll, hresult⟩ := hnext
  have hrest : datagram.length ≤ 512 ∧ (∀ d ∈ u.datagrams, d.length ≤ 512) ∧
      u.results = self.results ∧ u.notified = self.notified ∧
      (datagram :: u.datagrams).filter (· ≠ []) = self.datagrams.filter (· ≠ []) := by
    rw [recv] at hrecv
    split at hrecv
    · next d rest hdatagrams =>
        obtain ⟨rfl, rfl⟩ := Prod.mk.inj (Option.some.inj hrecv)
        have hle := h.length_le
        rw [hdatagrams] at hle
        obtain ⟨hd, hrest⟩ := List.forall_mem_cons.mp hle
        exact ⟨hd, hrest, rfl, rfl, congrArg _ hdatagrams.symm⟩
    · obtain ⟨rfl, rfl⟩ := Prod.mk.inj (Option.some.inj hrecv)
      exact ⟨Nat.zero_le _, h.length_le, rfl, rfl, List.filter_cons_of_neg (by simp)⟩
  obtain ⟨hle, hles, hresults, hnotified, hfilter⟩ := hrest
  have hvalues := h.values
  rw [List.filter_append, ← hfilter, ← List.filter_append] at hvalues
  have hgot : u.got = self.got := congrArg (List.filterMap Except.toOption) hresults
  have htaken : (result.toOption.toList.map AttBytes.bytes ++ u.datagrams).filter (· ≠ []) =
      (datagram :: u.datagrams).filter (· ≠ []) := by
    obtain rfl | ⟨rfl, -, rfl⟩ := result_of_recvNotification hle hresult
    · rfl
    · exact (List.filter_cons_of_neg (by simp)).symm
  refine ⟨hles, ?_, fun e he ↦ ?_⟩
  · rw [got_append, hgot, List.map_append, List.append_assoc, List.filter_append, htaken,
      ← List.filter_append, hvalues, hnotified]
  · rcases List.mem_append.mp he with he | he
    · exact h.errors e (hresults ▸ he)
    · obtain rfl | ⟨-, -, rfl⟩ := result_of_recvNotification hle hresult
      · exact nomatch List.mem_singleton.mp he
      · exact Except.error.inj (List.mem_singleton.mp he)

/-- A socket that has hung up can be received from at any time, and nothing panics. -/
theorem Sound.exists_received (h : self.Sound) : ∃ next, self.Received true next := by
  have hrecv : ∃ datagram u, self.recv true = some (datagram, u) ∧ datagram.length ≤ 512 := by
    rw [recv]
    cases hdatagrams : self.datagrams with
    | nil => exact ⟨[], self, rfl, Nat.zero_le _⟩
    | cons d rest => exact ⟨d, _, rfl, h.length_le d (hdatagrams ▸ List.mem_cons_self)⟩
  obtain ⟨datagram, u, hrecv, hle⟩ := hrecv
  by_cases hempty : datagram = []
  · subst hempty
    exact ⟨_, .intro [] u (.ok true) _ hrecv (fun b hb ↦ (Except.ok.inj hb).symm)
      Client.recvNotification_hungUp⟩
  · let v : AttBytes := ⟨datagram, hle⟩
    exact ⟨_, .intro datagram u (.ok true) _ hrecv (fun b hb ↦ (Except.ok.inj hb).symm)
      (Client.recvNotification_eq (v := v) fun hv ↦ absurd hv hempty)⟩

end NotifyPipe

/-! ## What a turn does -/

section Turns

variable {s : ChrcData} {p : Past path} {t : Task ChrcData}

theorem datagrams_filter (out : List Out) :
    (out.filter Out.isNote).filterMap Out.datagram? = out.filterMap Out.datagram? := by
  rw [List.filterMap_filter]
  refine List.filterMap_congr fun o _ ↦ ?_
  cases o with
  | answer | reply | signal | datagram => rfl

/-- What is sent through the socket of an open session. -/
theorem datagrams_of_recorded (hpath : path ≠ .root) {sock : UnixFd} {mtu : Nat}
    (hsocket : s.notify = .socket sock mtu) (h : ChrcData.Recorded filter (.running s) p t) :
    p.out.filterMap Out.datagram? = p.notified.map AttBytes.bytes := by
  rw [← datagrams_filter, ChrcData.notes_of_recorded hpath h, hsocket, Past.notified]
  cases p.asked with
  | none =>
      cases p.io.sockSend with
      | ok | error => rfl
  | some v =>
      rw [Option.elim_some, Notify.notes]
      cases p.io.sockSend with
      | ok | error => rfl

theorem acquireNotifyReply_acquiredReply (call : MarshalledMessage) (fd : UnixFd) (mtu : Nat) :
    Client.acquireNotifyReply (ChrcData.acquiredReply call fd mtu) =
      pure { sock := fd, mtu := UInt16.ofNat mtu } := by
  have hpair : Client.acquireReply (ChrcData.acquiredReply call fd mtu) =
      pure (fd, UInt16.ofNat mtu) := isMsgErr2_reply rfl rfl rfl rfl
  rw [Client.acquireNotifyReply, hpair, pure_bind]

/-- A client gets a socket from an `AcquireNotify` that is granted. -/
theorem Past.opened_eq_none
    (h : ∀ c, p.found.method? filter = some c → c.member = "AcquireNotify" → p.granted? = none) :
    p.opened filter = none := by
  rw [opened, Option.bind_eq_bind]
  cases hcall : p.found.method? filter with
  | none => rfl
  | some c =>
      rw [Option.bind_some]
      split
      · next hmember =>
          rw [h c hcall hmember]
          rfl
      · rfl

theorem Past.opened_of_member {c : MethodCall path} (hcall : p.found.method? filter = some c)
    (hmember : c.member ≠ "AcquireNotify") : p.opened filter = none := by
  refine opened_eq_none fun c' hcall' hmember' ↦ ?_
  obtain rfl := Option.some.inj (hcall.symm.trans hcall')
  exact absurd hmember' hmember

/-- A session through a socket that is there after a notification was there before. -/
theorem notifyMtu_after {io : Io} {s s' : ChrcData} (hnotify : s'.notify = s.notify.after io)
    {mtu : Nat} (h : (Task.running s').notifyMtu = some mtu) :
    (Task.running s).notifyMtu = some mtu := by
  rw [Task.notifyMtu, hnotify] at h
  rw [Task.notifyMtu]
  cases hn : s.notify with
  | none | signal =>
      rw [hn] at h
      contradiction
  | socket sock mtu' =>
      rw [hn, Notify.after] at h
      split at h
      · next sock' mtu'' heq =>
          split at heq
          · obtain ⟨-, rfl⟩ := Notify.socket.inj heq
            exact h
          · contradiction
      · contradiction
      · contradiction

/-- A client gets a socket when the worker begins to notify through it, and otherwise the worker
does not begin to notify through one. -/
theorem opened_of_moved {s' : ChrcData} {out : List Out} (hout : p.out = out)
    (h : ChrcData.Moved p.io filter p.found s s' out) :
    (∃ client, p.opened filter = some client ∧
        (Task.running s').notifyMtu = some client.mtu.toNat) ∨
      p.opened filter = none ∧ ∀ mtu, (Task.running s').notifyMtu = some mtu →
        (Task.running s).notifyMtu = some mtu := by
  have hsame (hnotify : s'.notify = s.notify) (mtu : Nat)
      (hmtu : (Task.running s').notifyMtu = some mtu) : (Task.running s).notifyMtu = some mtu := by
    rwa [Task.notifyMtu, hnotify] at hmtu
  have hnever {notify : Notify} (hnotify : s'.notify = notify) (hnone : notify = .none ∨
      notify = .signal) (mtu : Nat) (hmtu : (Task.running s').notifyMtu = some mtu) :
      (Task.running s).notifyMtu = some mtu := by
    rw [Task.notifyMtu, hnotify] at hmtu
    obtain rfl | rfl := hnone
    · contradiction
    · contradiction
  cases h with
  | stays hasked hnotify hwrite hrefused =>
      refine .inr ⟨Past.opened_eq_none fun c hcall hmember ↦ ?_, hsame hnotify⟩
      obtain ⟨m, hm, htyp⟩ := (hrefused c hcall (by rw [hmember]; decide)).error
      exact Past.granted?_error (hout.trans hm) htyp
  | notified v hasked hnotify hwrite =>
      refine .inr ⟨Past.opened_eq_none fun c hcall hmember ↦ ?_, fun mtu ↦ notifyMtu_after hnotify⟩
      rw [ChrcData.asked_method_none hcall (by rw [hmember]; decide)] at hasked
      contradiction
  | started c hcall hmember hasked hflag hnone hnotify =>
      exact .inr ⟨Past.opened_of_member hcall (by rw [hmember]; decide), hnever hnotify (.inr rfl)⟩
  | stopped c hcall hmember hasked hsignal hnotify =>
      exact .inr ⟨Past.opened_of_member hcall (by rw [hmember]; decide), hnever hnotify (.inl rfl)⟩
  | dropped c hcall hmember hasked hfree hnotify hwrite hreply =>
      obtain ⟨m, hm, htyp⟩ := hreply
      refine .inr ⟨Past.opened_eq_none fun c' hcall' hmember' ↦ ?_, hnever hnotify (.inl rfl)⟩
      exact Past.granted?_error (hout.trans hm) htyp
  | acquired c hcall hmember hasked hflag hfree ours theirs mtu hmtu hnotify hwrite hreply =>
      have hgranted : p.granted? = some (ChrcData.acquiredReply c.toMessage theirs mtu) :=
        Past.granted?_reply (hout.trans hreply) rfl
      refine .inl ⟨{ sock := theirs, mtu := UInt16.ofNat mtu }, ?_, ?_⟩
      · rw [Past.opened, hcall, Option.bind_eq_bind, Option.bind_some, if_pos hmember, hgranted]
        dsimp only [Option.bind_eq_bind, Option.bind_some]
        rw [acquireNotifyReply_acquiredReply]
        rfl
      · have hmod : (UInt16.ofNat mtu).toNat = mtu := by
          rw [UInt16.toNat_ofNat']
          exact Nat.mod_eq_of_lt (by omega)
        rw [Task.notifyMtu, hnotify, hmod]
  | acquiredWrite c hcall hmember hasked hflag hnone ours theirs mtu hnotify =>
      exact .inr ⟨Past.opened_of_member hcall (by rw [hmember]; decide), hsame hnotify⟩
  | hungUp hfound hasked hnotify hwrite =>
      refine .inr ⟨Past.opened_eq_none fun c hcall ↦ ?_, hsame hnotify⟩
      rw [hfound] at hcall
      contradiction

theorem opened_of_recorded (hpath : path ≠ .root)
    (h : ChrcData.Recorded filter (.running s) p t) :
    (∃ client, p.opened filter = some client ∧ t.notifyMtu = some client.mtu.toNat) ∨
      p.opened filter = none ∧
        ∀ mtu, t.notifyMtu = some mtu → (Task.running s).notifyMtu = some mtu := by
  obtain ⟨-, ran, hturn, hout, rfl⟩ := h
  have hended := ChrcData.turn_spec hpath hturn
  cases ran with
  | stop why out =>
      refine .inr ⟨Past.opened_eq_none fun c _ _ ↦ ?_, by rintro _ ⟨⟩⟩
      have hreplies : p.out.filterMap Out.reply? = [] := hout ▸ hended.2
      rw [Past.granted?, hreplies]
      rfl
  | done flow s' out =>
      obtain rfl | ⟨rfl, hfound⟩ := hended.flow
      · exact opened_of_moved hout hended.moved
      · refine .inr ⟨Past.opened_eq_none fun c hcall ↦ ?_, by rintro _ ⟨⟩⟩
        rw [hfound] at hcall
        contradiction

end Turns

/-! ## Runs -/

namespace Notifier

/-- What holds in every state. -/
structure Inv (s : Notifier) : Prop where
  mtu : s.current.map (·.client.mtu.toNat) = s.task.notifyMtu
  current : ∀ pipe, s.current = some pipe → pipe.Open
  closed : ∀ pipe ∈ s.closed, pipe.Sound

theorem inv_start (chrc : Characteristic) (children : Nat) : (start chrc children).Inv where
  mtu := rfl
  current := nofun
  closed := nofun

variable {s t : Notifier}

/-- The socket of the session takes what is sent in a turn. -/
theorem Inv.send (h : s.Inv) (hpath : path ≠ .root) {p : Past path} {task : Task ChrcData}
    (hturn : ChrcData.Recorded filter s.task p task) :
    ∀ pipe, s.current.map (·.send p) = some pipe → pipe.Open := by
  intro pipe hpipe
  obtain ⟨before, hcurrent, rfl⟩ := Option.map_eq_some_iff.mp hpipe
  obtain ⟨data, hdata⟩ := ChrcData.running_of_recorded hturn
  have hmtu := h.mtu
  rw [hdata] at hturn
  rw [hcurrent, hdata, Task.notifyMtu] at hmtu
  refine (h.current before hcurrent).send ?_
  cases hn : data.notify with
  | none | signal =>
      rw [hn] at hmtu
      contradiction
  | socket sock mtu => exact datagrams_of_recorded hpath hn hturn

theorem Inv.turned (h : s.Inv) (hpath : path ≠ .root) {p : Past path} {task : Task ChrcData}
    (hturn : ChrcData.Recorded filter s.task p task) : (s.turned filter p task).Inv := by
  have hopen := h.send hpath hturn
  have hclosed : ∀ pipe ∈ s.closed ++ (s.current.map (·.send p)).toList, pipe.Sound := by
    intro pipe hpipe
    rcases List.mem_append.mp hpipe with hpipe | hpipe
    · exact h.closed pipe hpipe
    · exact (hopen pipe (Option.mem_toList.mp hpipe)).sound
  obtain ⟨data, hdata⟩ := ChrcData.running_of_recorded hturn
  rw [hdata] at hturn
  rw [Notifier.turned]
  obtain ⟨client, hopened, hmtu⟩ | ⟨hopened, hmtu⟩ := opened_of_recorded hpath hturn
  · rw [hopened]
    refine ⟨hmtu.symm, fun pipe hpipe ↦ ?_, hclosed⟩
    obtain rfl := Option.some.inj hpipe
    exact NotifyPipe.open_new client
  · rw [hopened]
    dsimp only
    split
    · next hsome =>
        refine ⟨?_, hopen, h.closed⟩
        obtain ⟨mtu, htask⟩ := Option.isSome_iff_exists.mp hsome
        change (s.current.map (·.send p)).map _ = task.notifyMtu
        rw [Option.map_map, htask, ← hmtu mtu htask, ← hdata]
        exact h.mtu
    · next hnone =>
        exact ⟨(Option.not_isSome_iff_eq_none.mp hnone).symm, nofun, hclosed⟩

theorem Inv.step (hpath : path ≠ .root) {e : Event path} (h : s.Inv) (hstep : Step filter s e t) :
    t.Inv := by
  cases hstep with
  | turn hturn => exact h.turned hpath hturn
  | @recv pipe pipe' hpipe hrecv =>
      refine ⟨?_, fun next hnext ↦ ?_, h.closed⟩
      · have hclient : pipe'.client = pipe.client := hrecv.client
        rw [← h.mtu, hpipe]
        exact congrArg (some ·.mtu.toNat) hclient
      · obtain rfl := Option.some.inj hnext
        exact (h.current pipe hpipe).received hrecv
  | @recvClosed before after pipe pipe' hpipe hrecv =>
      refine ⟨h.mtu, h.current, fun next hnext ↦ ?_⟩
      have hsound := h.closed
      rw [hpipe] at hsound
      rcases List.mem_append.mp hnext with hnext | hnext
      · exact hsound next (List.mem_append_left _ hnext)
      rcases List.mem_cons.mp hnext with rfl | hnext
      · exact (hsound pipe (List.mem_append_right _ List.mem_cons_self)).received hrecv
      · exact hsound next (List.mem_append_right _ (List.mem_cons_of_mem _ hnext))

end Notifier

/-- **Notifications arrive.**  In any order of the turns of a characteristic and the receives of
its clients, the client of the open session has got, or will get, the values that were notified
in it, each once, whole and in their order, and is never told that the socket has hung up; the MTU
it knows is that of the session.  The same holds of a session that is over but for empty values,
and the only error its client can get is that the socket has hung up; and the client can go on
receiving. -/
theorem notifications_arrive (hpath : path ≠ .root) {chrc : Characteristic} {children : Nat}
    {t : Notifier} {es : List (Notifier.Event path)}
    (hrun : Lts.Run (Notifier.Step filter) (Notifier.start chrc children) es t) :
    t.current.map (·.client.mtu.toNat) = t.task.notifyMtu ∧
    (∀ pipe, t.current = some pipe →
      pipe.got.map AttBytes.bytes ++ pipe.datagrams = pipe.notified.map AttBytes.bytes ∧
        ∀ e, .error e ∉ pipe.results) ∧
    ∀ pipe ∈ t.closed,
      (pipe.got.map AttBytes.bytes ++ pipe.datagrams).filter (· ≠ []) =
          (pipe.notified.map AttBytes.bytes).filter (· ≠ []) ∧
        (∀ e, .error e ∈ pipe.results → e = .notConnected) ∧
        ∃ next, pipe.Received true next := by
  have hinv : t.Inv := hrun.invariant (fun s e t h hstep ↦ h.step hpath hstep)
    (Notifier.inv_start chrc children)
  refine ⟨hinv.mtu, fun pipe hpipe ↦ ?_, fun pipe hpipe ↦ ?_⟩
  · exact ⟨(hinv.current pipe hpipe).values, (hinv.current pipe hpipe).errors⟩
  · have hsound := hinv.closed pipe hpipe
    exact ⟨hsound.values, hsound.errors, hsound.exists_received⟩

/-- It holds when a client has acquired a socket and received a value of 24 bytes from it. -/
theorem notifications_arrive_long : ∃ (t : Notifier)
    (es : List (Notifier.Event Worker.ofService.path)) (pipe : NotifyPipe),
    Lts.Run (Notifier.Step none) (Notifier.start ChrcData.notifying 0) es t ∧
      t.current = some pipe ∧ pipe.notified = [ChrcData.longValue] ∧
      pipe.results = [.ok ChrcData.longValue] ∧
      pipe.got.map AttBytes.bytes ++ pipe.datagrams = pipe.notified.map AttBytes.bytes := by
  let v := ChrcData.longValue
  let client : Client.NotifySocket := { sock := ⟨4⟩, mtu := 23 }
  let sent : NotifyPipe := { client := client, datagrams := [v.bytes], notified := [v] }
  let received : NotifyPipe := { client := client, notified := [v], results := [.ok v] }
  let acquired : Notifier := ⟨.running ChrcData.acquiredNotify, some { client := client }, []⟩
  have hacquire : Notifier.Step none (.start ChrcData.notifying 0)
      (.turn ChrcData.acquireNotifyPast) acquired :=
    .turn ChrcData.recorded_acquireNotify
  have hturned : acquired.turned none (ChrcData.datagramPast v) acquired.task =
      { acquired with current := some sent } := rfl
  have hsend : Notifier.Step none acquired (.turn (ChrcData.datagramPast v))
      { acquired with current := some sent } :=
    hturned ▸ Notifier.Step.turn (ChrcData.recorded_datagram v)
  let receive : Notifier.Event Worker.ofService.path := .recv
  have hrecv : Notifier.Step none { acquired with current := some sent } receive
      { acquired with current := some received } :=
    .recv rfl (.intro v.bytes { sent with datagrams := [] } (.ok false) _ rfl
      (fun b hb ↦ (Except.ok.inj hb).symm) (Client.recvNotification_eq (v := v) fun _ ↦ nofun))
  have hrun := Lts.Run.cons hacquire (.cons hsend (.single hrecv))
  obtain ⟨-, hcurrent, -⟩ := notifications_arrive Worker.isAttribute_ofService.path hrun
  exact ⟨_, _, received, hrun, rfl, rfl, rfl, (hcurrent received rfl).1⟩

end Rustable.Gatt.Server
