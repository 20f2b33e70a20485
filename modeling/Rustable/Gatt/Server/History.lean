import Rustable.Gatt.Server.Sessions

/-!
# The history of a characteristic

What has happened to a characteristic is told by its history: what it found in each turn,
what it was asked to notify, how the operations ended and what it sent.  From the calls, the
replies and the failures in it follows which sessions are open (`Session.after`), whatever
the worker keeps in its state; `agrees_after` says that it keeps just that.

The reports on the sessions do not all say it.  The property `NotifyAcquired` is true of both
kinds of notify sessions, and `Notifying` of one kind only, the other way round than the
messages of these names (`reports_agree_iff`).
-/

namespace Rustable.Gatt.Server

open DBus

variable {path : ObjectPath} {filter : Option String}

/-- One turn, as it can be told afterwards. -/
structure Past (path : ObjectPath) where
  /-- How the operations of the turn ended. -/
  io : Io
  /-- What was found. -/
  found : Found path
  /-- The value that was to be notified. -/
  asked : Option AttBytes
  /-- What was sent. -/
  out : List Out

/-- The steps of the task of a characteristic, each with what can be told of it. -/
def ChrcData.Recorded (filter : Option String) : Task ChrcData → Past path → Task ChrcData → Prop
  | .running s, p, t => p.asked = s.asked filter p.found ∧
      ∃ ran, turn p.io filter p.found s = some ran ∧ p.out = ran.out ∧ t = Task.ofRan ran
  | .finished _, _, _ | .failed _, _, _ => False

/-! ## Sessions -/

/-- A notify session, if there is one. -/
inductive Subscription
  | none
  | signal
  | /-- Through a socket, with the MTU reported for it. -/
    socket (mtu : Nat)
deriving DecidableEq

/-- The sessions that are open. -/
structure Session where
  notify : Subscription := .none
  /-- A socket for writing has been handed out. -/
  write : Bool := false

/-- The reply to a call that was not refused. -/
def Past.granted? (p : Past path) : Option MarshalledMessage :=
  (p.out.filterMap Out.reply?).find? (·.typ = .reply)

/-- The MTU in the reply to an `AcquireNotify`. -/
def reportedMtu (m : MarshalledMessage) : Nat :=
  match m.body.get2 UnixFd UInt16 with
  | .ok (_, mtu) => mtu.toNat
  | .error _ => 0

namespace Subscription

/-- After a notification: a socket that cannot be written to is closed. -/
def sent (io : Io) : Subscription → Subscription
  | none => none
  | signal => signal
  | socket mtu => match io.sockSend with
    | .ok _ => socket mtu
    | .error _ => none

/-- After a refused `AcquireNotify`: a socket that was found hung up is closed. -/
def checked (io : Io) : Subscription → Subscription
  | none => none
  | signal => signal
  | socket mtu => match io.isHungUp with
    | .ok true => none
    | .ok false | .error _ => socket mtu

/-- After a call of a method. -/
def called (self : Subscription) (io : Io) (granted : Option MarshalledMessage) :
    String → Subscription
  | "StartNotify" => if granted.isSome then signal else self
  | "StopNotify" => if granted.isSome then none else self
  | "AcquireNotify" => match granted with
    | some m => socket (reportedMtu m)
    | Option.none => self.checked io
  | _ => self

/-- After a turn. -/
def next (filter : Option String) (self : Subscription) (p : Past path) : Subscription :=
  match p.asked, p.found.method? filter with
  | some _, _ => self.sent p.io
  | Option.none, some c => self.called p.io p.granted? c.member
  | Option.none, Option.none => self

end Subscription

namespace Session

/-- Whether a socket for writing is held after a turn. -/
def writeNext (filter : Option String) (held : Bool) (p : Past path) : Bool :=
  match p.found with
  | .written (.error .notConnected) => false
  | found => match found.method? filter with
    | some c => held || c.member == "AcquireWrite" && p.granted?.isSome
    | none => held

/-- The sessions that are open after a turn. -/
def next (filter : Option String) (self : Session) (p : Past path) : Session where
  notify := self.notify.next filter p
  write := writeNext filter self.write p

/-- The sessions that a history leaves open. -/
def after (filter : Option String) (ps : List (Past path)) : Session := ps.foldl (next filter) {}

end Session

/-- The subscription of a notify session. -/
def Notify.subscription : Notify → Subscription
  | .none => .none
  | .signal => .signal
  | .socket _ mtu => .socket mtu

/-- The worker has the sessions open. -/
structure ChrcData.Agrees (s : ChrcData) (session : Session) : Prop where
  guarded : s.Guarded
  notify : session.notify = s.notify.subscription
  write : session.write = s.writeFd.isSome

theorem Notify.subscription_after (io : Io) (n : Notify) :
    (n.after io).subscription = n.subscription.sent io := by
  cases n with
  | none | signal => rfl
  | socket sock mtu =>
      rw [after, subscription, Subscription.sent]
      cases io.sockSend with
      | ok | error => rfl

/-- The MTU that is reported is the one that is kept. -/
theorem reportedMtu_acquiredReply (call : MarshalledMessage) (fd : UnixFd) {mtu : Nat}
    (hmtu : mtu ≤ 517) : reportedMtu (ChrcData.acquiredReply call fd mtu) = mtu := by
  change (UInt16.ofNat mtu).toNat = mtu
  rw [UInt16.toNat_ofNat']
  exact Nat.mod_eq_of_lt (by omega)

theorem Past.granted?_reply {p : Past path} {m : MarshalledMessage} (hout : p.out = [.reply m])
    (hm : m.typ = .reply) : p.granted? = some m := by
  rw [granted?, hout]
  exact List.find?_cons_of_pos (decide_eq_true hm)

theorem Past.granted?_error {p : Past path} {m : MarshalledMessage} (hout : p.out = [.reply m])
    (hm : m.typ = .error) : p.granted? = none := by
  have hne : ¬(decide (m.typ = .reply) = true) := by
    rw [hm]
    decide
  rw [granted?, hout]
  exact List.find?_eq_none.mpr fun m' hm' ↦ List.mem_singleton.mp hm' ▸ hne

/-- The other methods leave the subscription alone. -/
theorem Subscription.called_of_notMem (self : Subscription) (io : Io)
    (granted : Option MarshalledMessage) {member : String}
    (h : member ∉ ChrcData.sessionMethods) :
    self.called io granted member = self := by
  unfold called
  split
  · exact absurd (by decide) h
  · exact absurd (by decide) h
  · exact absurd (by decide) h
  · rfl

namespace ChrcData

variable {s s' : ChrcData} {session : Session} {p : Past path} {flow : Flow}

theorem checked_of_inTheWay {io : Io} (hs : s.Guarded)
    (hway : s.flags.notify = true → s.inTheWay io ≠ .ok false) :
    s.notify.subscription.checked io = s.notify.subscription := by
  cases hn : s.notify with
  | none | signal => rfl
  | socket sock mtu =>
      have hfree := hway (hs.socket sock mtu hn)
      rw [inTheWay, hn] at hfree
      rw [Notify.subscription, Subscription.checked]
      cases hup : io.isHungUp with
      | error e => rfl
      | ok b =>
          rw [hup] at hfree
          cases b with
          | true => exact absurd rfl hfree
          | false => rfl

/-- A call that is refused leaves the subscription alone. -/
theorem called_refused (hs : s.Guarded) {c : MethodCall path}
    (hrefused : c.member ∈ sessionMethods → Refused p.io s c p.out) :
    s.notify.subscription.called p.io p.granted? c.member = s.notify.subscription := by
  by_cases hmem : c.member ∈ sessionMethods
  · obtain ⟨⟨m, hout, hm⟩, hway⟩ := hrefused hmem
    rw [Past.granted?_error hout hm]
    unfold Subscription.called
    split
    · rfl
    · rfl
    · next hmember => exact checked_of_inTheWay hs (hway hmember)
    · rfl
  · exact Subscription.called_of_notMem _ _ _ hmem

/-- The subscription after a turn. -/
theorem agrees_notify (hs : s.Agrees session) (hasked : p.asked = s.asked filter p.found)
    (h : Turned p.io filter p.found s s' flow p.out) :
    session.notify.next filter p = s'.notify.subscription := by
  rw [Subscription.next, hasked, hs.notify]
  cases h.moved with
  | stays hnone hnotify hwrite hrefused =>
      rw [hnone, hnotify]
      cases hcall : p.found.method? filter with
      | none => rfl
      | some c => exact called_refused hs.guarded (hrefused c hcall)
  | notified v hsome hnotify =>
      rw [hsome, hnotify]
      exact (Notify.subscription_after ..).symm
  | started c hcall hmember hnone hflag hfree hnotify hwrite hout =>
      rw [hnone, hcall, hnotify]
      dsimp only
      rw [hmember, Past.granted?_reply hout rfl]
      rfl
  | stopped c hcall hmember hnone hsignal hnotify hwrite hout =>
      rw [hnone, hcall, hnotify]
      dsimp only
      rw [hmember, Past.granted?_reply hout rfl]
      rfl
  | dropped c hcall hmember hnone hfree hnotify hwrite hout =>
      obtain ⟨m, hout, hm⟩ := hout
      rw [hnone, hcall, hnotify]
      dsimp only
      rw [hmember, Past.granted?_error hout hm]
      change s.notify.subscription.checked p.io = _
      cases hn : s.notify with
      | none => rfl
      | signal =>
          rw [inTheWay, hn] at hfree
          exact Bool.noConfusion (Except.ok.inj hfree)
      | socket sock mtu =>
          change (Subscription.socket mtu).checked p.io = .none
          rw [Subscription.checked, hungUp_of_inTheWay hn hfree]
  | acquired c hcall hmember hnone hflag hfree ours theirs mtu hmtu hnotify hwrite hout =>
      rw [hnone, hcall, hnotify]
      dsimp only
      rw [hmember, Past.granted?_reply hout rfl]
      exact congrArg Subscription.socket (reportedMtu_acquiredReply _ _ hmtu)
  | acquiredWrite c hcall hmember hnone hflag hfree ours theirs mtu hnotify =>
      rw [hnone, hcall, hnotify]
      dsimp only
      rw [hmember]
      rfl
  | hungUp hfound hnone hnotify =>
      rw [hnone, hfound, hnotify]
      rfl

theorem writeNext_of_granted_none {filter : Option String} {held : Bool}
    (hfound : p.found ≠ .written (.error .notConnected))
    (hgranted : ∀ c, p.found.method? filter = some c → c.member = "AcquireWrite" →
      p.granted? = none) : Session.writeNext filter held p = held := by
  rw [Session.writeNext.eq_def]
  split
  · next heq => exact absurd heq hfound
  · split
    · next c hcall =>
        by_cases hmember : c.member = "AcquireWrite"
        · rw [hgranted c hcall hmember]
          simp
        · simp [hmember]
    · rfl

theorem writeFd_of_hungUp {io : Io} {out : List Out}
    (h : turn io filter (.written (.error .notConnected) : Found path) s =
      some (.done flow s' out)) : s'.writeFd = none := by
  rw [turn] at h
  split at h
  · obtain ⟨-, rfl, -⟩ := Ran.done.inj (Option.some.inj h)
    rfl
  · contradiction

/-- Of the methods, only a `WriteValue` may ask to notify. -/
theorem asked_method_none {found : Found path} {c : MethodCall path}
    (hcall : found.method? filter = some c) (hmember : c.member ≠ "WriteValue") :
    s.asked filter found = none := by
  cases found with
  | call c' =>
      obtain ⟨rfl, -⟩ := method?_eq_some hcall
      rw [asked, asked_call_none (passed_of_ne hcall hmember)]
  | message | closed | notified | written => contradiction

/-- Whether a socket for writing is held after a turn. -/
theorem agrees_write (hs : s.Agrees session)
    (hturn : turn p.io filter p.found s = some (.done flow s' p.out))
    (h : Turned p.io filter p.found s s' flow p.out) :
    Session.writeNext filter session.write p = s'.writeFd.isSome := by
  by_cases hfound : p.found = .written (.error .notConnected)
  · rw [hfound] at hturn
    rw [Session.writeNext.eq_def, hfound, writeFd_of_hungUp hturn]
    rfl
  have hother {c : MethodCall path} {member : String} (hcall : p.found.method? filter = some c)
      (hmember : c.member = member) (hne : member ≠ "AcquireWrite")
      (hwrite : s'.writeFd = s.writeFd) :
      Session.writeNext filter session.write p = s'.writeFd.isSome := by
    rw [writeNext_of_granted_none hfound, hs.write, hwrite]
    intro c' hcall' hmember'
    obtain rfl := Option.some.inj (hcall.symm.trans hcall')
    exact absurd (hmember.symm.trans hmember') hne
  cases h.moved with
  | stays hnone hnotify hwrite hrefused =>
      rw [writeNext_of_granted_none hfound, hs.write, hwrite]
      intro c hcall hmember
      obtain ⟨m, hout, hm⟩ := (hrefused c hcall (by rw [hmember]; decide)).error
      exact Past.granted?_error hout hm
  | notified v hsome hnotify hwrite =>
      rw [writeNext_of_granted_none hfound, hs.write, hwrite]
      intro c hcall hmember
      rw [asked_method_none hcall (by rw [hmember]; decide)] at hsome
      contradiction
  | started c hcall hmember hnone hflag hfree hnotify hwrite =>
      exact hother hcall hmember (by decide) hwrite
  | stopped c hcall hmember hnone hsignal hnotify hwrite =>
      exact hother hcall hmember (by decide) hwrite
  | dropped c hcall hmember hnone hfree hnotify hwrite =>
      exact hother hcall hmember (by decide) hwrite
  | acquired c hcall hmember hnone hflag hfree ours theirs mtu hmtu hnotify hwrite =>
      exact hother hcall hmember (by decide) hwrite
  | acquiredWrite c hcall hmember hnone hflag hfree ours theirs mtu hnotify hwrite hout =>
      rw [Session.writeNext.eq_def, hwrite]
      split
      · next heq => exact absurd heq hfound
      · rw [hcall]
        dsimp only
        rw [hmember, Past.granted?_reply hout rfl]
        exact Bool.or_true _
  | hungUp heq => exact absurd heq hfound

/-- A turn is taken by a task that runs. -/
theorem running_of_recorded {t u : Task ChrcData} (h : Recorded filter t p u) :
    ∃ s, t = .running s := by
  cases t with
  | running s => exact ⟨s, rfl⟩
  | finished | failed => contradiction

/-- **A turn keeps the sessions that its history leaves open.** -/
theorem agrees_step (hpath : path ≠ .root) (session : Session) (t : Task ChrcData)
    (p : Past path) (u : Task ChrcData) (ht : ∀ s, t.state? = some s → s.Agrees session)
    (h : Recorded filter t p u) :
    ∀ s', u.state? = some s' → s'.Agrees (session.next filter p) := by
  obtain ⟨s, rfl⟩ := running_of_recorded h
  have hs := ht s rfl
  obtain ⟨hasked, ran, hturn, hout, rfl⟩ := h
  intro s' hs'
  cases ran with
  | stop why out => contradiction
  | done flow u out =>
      obtain rfl : p.out = out := hout
      obtain rfl : u = s' := by cases flow <;> exact Option.some.inj hs'
      have hspec : Turned p.io filter p.found s u flow p.out := turn_spec hpath hturn
      exact ⟨hs.guarded.turned hspec, agrees_notify hs hasked hspec, agrees_write hs hturn hspec⟩

theorem agrees_start (chrc : Characteristic) (children : Nat) :
    ∀ s, (Task.running (start chrc children)).state? = some s → s.Agrees {} := by
  intro s hs
  obtain rfl := Option.some.inj hs
  exact ⟨guarded_start chrc children, rfl, rfl⟩

/-- **The worker keeps the sessions that its history leaves open.** -/
theorem agrees_after (hpath : path ≠ .root) {chrc : Characteristic} {children : Nat}
    {ps : List (Past path)} {t : Task ChrcData}
    (h : Lts.Run (Recorded filter) (.running (start chrc children)) ps t) :
    ∀ s, t.state? = some s → s.Agrees (Session.after filter ps) :=
  h.ghost (agrees_step hpath) (agrees_start chrc children)

end ChrcData

/-! ## Reports -/

/-- The session is through a socket. -/
def Subscription.isSocket : Subscription → Bool
  | socket _ => true
  | none | signal => false

namespace ChrcData

/-- The message is answered with the flag. -/
def Told (path : ObjectPath) (s : ChrcData) (msg : ReplyTo → WorkerMsg) (b : Bool) : Prop :=
  ∀ (io : Io) (sender : ReplyTo), io.receiverAlive = true →
    onMsg io path (msg sender) s = .done .next s [.answer sender (.flag b)]

/-- The call reads the property of a characteristic. -/
structure Gets (call : MethodCall path) (prop : String) : Prop where
  interface : call.interface = some propsIf
  member : call.member = "Get"
  body : call.body.get2 String String = .ok (bluezChrIf, prop)

/-- The reply with the value of a property. -/
def boolReply (call : MethodCall path) (b : Bool) : MarshalledMessage :=
  { call.toMessage.dynheader.makeResponse with
    body := [⟨.variant, .variant (.base b : Val (sig Bool))⟩] }

/-- The property is shown as the flag to whoever may read it. -/
def Shown (path : ObjectPath) (s : ChrcData) (prop : String) (b : Bool) : Prop :=
  ∀ (io : Io) (filter : Option String) (call : MethodCall path), io.sendReply = .ok () →
    isMsgBluez call.toMessage filter = true → Gets call prop →
      ∃ s', turn io filter (.call call) s = some (.done .next s' [.reply (boolReply call b)])

/-- All reports say that just this session is open. -/
structure Reports (path : ObjectPath) (s : ChrcData) (session : Session) : Prop where
  shownNotifyAcquired : Shown path s naStr session.notify.isSocket
  toldNotifyAcquired : Told path s .notifyAcquired session.notify.isSocket
  shownNotifying : Shown path s noStr (session.notify ≠ .none)
  toldNotifying : Told path s .notifying (session.notify ≠ .none)
  toldNotifyingSignal : Told path s .notifyingSignal (session.notify = .signal)
  shownWriteAcquired : Shown path s waStr session.write

variable {s : ChrcData} {session : Session} {prop : String} {b b' : Bool}

/-- A property is shown as it reads. -/
theorem shown_of_reads (hpath : path ≠ .root)
    (h : Properties.Reads path s.Still bluezChrIf prop (.bool b)) : Shown path s prop b := by
  intro io filter call hio hfilter hcall
  have hobj : call.toMessage.dynheader.object = some path := rfl
  have hinterface : call.toMessage.dynheader.interface = some propsIf := hcall.interface
  obtain ⟨s', hget, -⟩ := Properties.get_of_reads call.toMessage (readable_still hpath s) h
    (w := .variant (.base b : Val (sig Bool))) rfl hobj hcall.body (.refl s)
  refine ⟨s', congrArg some ?_⟩
  have hprops : Properties.propertiesCall call.toMessage s = some (boolReply call b, s') := by
    rw [Properties.propertiesCall_eq call.member rfl, hcall.member]
    exact hget
  rw [onCall, Turn.replyTo_passed hfilter, handleCall, hinterface, Act.unwrap_some, Act.pure_bind,
    if_pos rfl, Turn.ofMayPanic, Turn.onPart_some hprops, Turn.replied_sendable rfl hio]
  rfl

/-- A property is shown as one thing only. -/
theorem Shown.unique (h : Shown path s prop b) (h' : Shown path s prop b') : b = b' := by
  let call : MethodCall path :=
    { member := "Get"
      interface := some propsIf
      body := [⟨sig String, .base bluezChrIf⟩, ⟨sig String, .base prop⟩] }
  have hcall : Gets call prop := ⟨rfl, rfl, rfl⟩
  obtain ⟨t, ht⟩ := h {} none call rfl rfl hcall
  obtain ⟨t', ht'⟩ := h' {} none call rfl rfl hcall
  obtain ⟨-, -, hout⟩ := Ran.done.inj (Option.some.inj (ht.symm.trans ht'))
  have hbody := congrArg MarshalledMessage.body (Out.reply.inj (List.cons.inj hout).1)
  simpa [boolReply] using hbody

theorem reads_notifyAcquired :
    Properties.Reads path s.Still bluezChrIf naStr (.bool (s.notify ≠ .none)) := by
  intro d r d' hd hrun
  rw [← hd.notify]
  exact (congrArg Prod.fst (Option.some.inj hrun)).symm

theorem reads_notifying :
    Properties.Reads path s.Still bluezChrIf noStr (.bool (s.notify = .signal)) := by
  intro d r d' hd hrun
  rw [← hd.notify]
  exact (congrArg Prod.fst (Option.some.inj hrun)).symm

theorem reads_writeAcquired :
    Properties.Reads path s.Still bluezChrIf waStr (.bool s.writeFd.isSome) := by
  intro d r d' hd hrun
  rw [← hd.writeFd]
  exact (congrArg Prod.fst (Option.some.inj hrun)).symm

/-- The messages tell what is open. -/
theorem Agrees.told (hs : s.Agrees session) :
    Told path s .notifyAcquired session.notify.isSocket ∧
      Told path s .notifying (session.notify ≠ .none) ∧
      Told path s .notifyingSignal (session.notify = .signal) := by
  rw [hs.notify]
  refine ⟨?_, ?_, ?_⟩
  · intro io sender hio
    rw [onMsg, Act.read_bind, Turn.answer_eq hio]
    cases s.notify with
    | none | signal | socket => rfl
  · intro io sender hio
    rw [onMsg, Act.read_bind, Turn.answer_eq hio]
    cases s.notify with
    | none | signal | socket => rfl
  · intro io sender hio
    rw [onMsg, Act.read_bind, Turn.answer_eq hio]
    cases s.notify with
    | none | signal | socket => rfl

/-- **The reports agree with the history if and only if no notify session is open**: the two
properties of notify sessions are mixed up. -/
theorem reports_agree_iff (hpath : path ≠ .root) {chrc : Characteristic} {children : Nat}
    {ps : List (Past path)}
    (h : Lts.Run (Recorded filter) (.running (start chrc children)) ps (.running s)) :
    Reports path s (Session.after filter ps) ↔ (Session.after filter ps).notify = .none := by
  have hs := agrees_after hpath h s rfl
  generalize Session.after filter ps = session at hs
  have hacquired : Shown path s naStr (s.notify ≠ .none) :=
    shown_of_reads hpath reads_notifyAcquired
  have hnotifying : Shown path s noStr (s.notify = .signal) := shown_of_reads hpath reads_notifying
  have hwrite : Shown path s waStr s.writeFd.isSome := shown_of_reads hpath reads_writeAcquired
  constructor
  · intro hreports
    have heq := hreports.shownNotifyAcquired.unique hacquired
    have heq' := hreports.shownNotifying.unique hnotifying
    rw [hs.notify] at heq heq' ⊢
    cases hn : s.notify with
    | none => rfl
    | signal =>
        rw [hn] at heq
        contradiction
    | socket sock mtu =>
        rw [hn] at heq'
        contradiction
  · intro hnone
    obtain ⟨htold, htold', htold''⟩ := @Agrees.told path _ _ hs
    have hn : s.notify = .none := by
      have hsub := hs.notify.symm.trans hnone
      cases hn : s.notify with
      | none => rfl
      | signal | socket =>
          rw [hn] at hsub
          contradiction
    rw [hn] at hacquired hnotifying
    rw [← hs.write] at hwrite
    refine ⟨?_, htold, ?_, htold', htold'', hwrite⟩
    · rw [hnone]
      exact hacquired
    · rw [hnone]
      exact hnotifying

/-- The turn in which a session is opened by `StartNotify`. -/
def startNotifyPast : Past Worker.ofService.path where
  io := {}
  found := .call startNotifyCall
  asked := none
  out := [.reply startNotifyCall.toMessage.dynheader.makeResponse]

/-- A characteristic with a session opened by `StartNotify`. -/
def subscribed : ChrcData := { start notifying 0 with notify := .signal }

theorem recorded_startNotify :
    Recorded none (.running (start notifying 0)) startNotifyPast (.running subscribed) :=
  ⟨(asked_method_none (c := startNotifyCall) rfl (by decide)).symm, _, turn_startNotifyCall, rfl,
    rfl⟩

/-- After `StartNotify` the reports are wrong. -/
theorem reports_agree_iff_startNotify :
    ¬Reports Worker.ofService.path subscribed (Session.after none [startNotifyPast]) := by
  have hiff := reports_agree_iff Worker.isAttribute_ofService.path
    (.single recorded_startNotify)
  exact fun h ↦ Subscription.noConfusion (hiff.mp h)

/-- With a session opened by `StartNotify`, the property `NotifyAcquired` is true. -/
theorem notifyAcquired_shown_without_socket :
    ¬∀ (path : ObjectPath) (filter : Option String) (chrc : Characteristic) (children : Nat)
      (ps : List (Past path)) (s : ChrcData), path ≠ .root →
      Lts.Run (Recorded filter) (.running (start chrc children)) ps (.running s) →
        Reports path s (Session.after filter ps) := by
  intro hall
  have hreports := hall Worker.ofService.path none notifying 0 [startNotifyPast] subscribed
    Worker.isAttribute_ofService.path (.single recorded_startNotify)
  have hshown : Shown Worker.ofService.path subscribed naStr true :=
    shown_of_reads Worker.isAttribute_ofService.path reads_notifyAcquired
  exact Bool.noConfusion (hreports.shownNotifyAcquired.unique hshown)

end ChrcData

end Rustable.Gatt.Server
