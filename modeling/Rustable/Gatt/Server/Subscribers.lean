import Rustable.Gatt.Server.History

/-!
# What subscribers see

Who is subscribed to a characteristic gets the notified values as datagrams through a socket
or in `PropertiesChanged` signals.

No such signal can be decoded: its body has the name of the interface twice, where the map of
the changed properties should be the second value, and no list of invalidated ones
(`values_seen_iff`).  A datagram may be longer than the MTU that was reported for its socket,
since nothing looks at it again (`mtu_respected_iff`).
-/

namespace Rustable.Gatt.Server

open DBus

variable {path : ObjectPath} {filter : Option String}

/-- `P` holds of each turn of a history and the sessions that are open before it. -/
abbrev Session.Along (filter : Option String) (P : Session → Past path → Prop) :
    Session → List (Past path) → Prop := Lts.Along (Session.next filter) P

namespace ChrcData

section Turns

variable {s : ChrcData} {session : Session} {p : Past path} {t : Task ChrcData}

/-- What a turn sends to the subscribers. -/
theorem notes_of_recorded (hpath : path ≠ .root) (h : Recorded filter (.running s) p t) :
    p.out.filter Out.isNote = p.asked.elim [] fun v ↦ s.notify.notes p.io path v := by
  obtain ⟨hasked, ran, hturn, hout, -⟩ := h
  have hended := turn_spec hpath hturn
  rw [hasked, hout]
  cases ran with
  | done flow s' out => exact hended.notes
  | stop why out => exact hended.1

end Turns

/-! ## The MTU -/

/-- Datagrams are sent in sessions with a socket only, and are not longer than the MTU that was
reported for it. -/
def Respects (session : Session) (p : Past path) : Prop :=
  ∀ sock bytes, .datagram sock bytes ∈ p.out →
    ∃ mtu, session.notify = .socket mtu ∧ bytes.length ≤ mtu

/-- A value that is notified through a socket is not longer than the MTU that was reported. -/
def Fits (session : Session) (p : Past path) : Prop :=
  ∀ mtu v, session.notify = .socket mtu → p.asked = some v → p.io.sockSend = .ok () →
    v.bytes.length ≤ mtu

theorem mem_notes_datagram {io : Io} {v : AttBytes} {n : Notify} {sock : UnixFd}
    {bytes : List UInt8} : .datagram sock bytes ∈ n.notes io path v ↔
      ∃ mtu, n = .socket sock mtu ∧ io.sockSend = .ok () ∧ bytes = v.bytes := by
  cases n with
  | none => simp [Notify.notes]
  | socket sock' mtu =>
      rw [Notify.notes]
      cases io.sockSend with
      | ok u => simp [eq_comm]
      | error e => simp
  | signal =>
      rw [Notify.notes]
      cases io.sendSignal with
      | ok u => simp
      | error e => simp

theorem respects_iff_fits (hpath : path ≠ .root) {session : Session} {s : ChrcData}
    {p : Past path} {t : Task ChrcData} (hs : s.Agrees session)
    (h : Recorded filter (.running s) p t) : Respects session p ↔ Fits session p := by
  have hmem (sock : UnixFd) (bytes : List UInt8) : .datagram sock bytes ∈ p.out ↔
      .datagram sock bytes ∈ p.asked.elim [] fun v ↦ s.notify.notes p.io path v := by
    rw [← notes_of_recorded hpath h, List.mem_filter]
    exact (and_iff_left rfl).symm
  constructor
  · intro hrespects mtu v hsession hasked hsend
    rw [hs.notify] at hsession
    cases hn : s.notify with
    | none | signal =>
        rw [hn] at hsession
        contradiction
    | socket sock mtu' =>
        have hsent : .datagram sock v.bytes ∈ p.out := by
          rw [hmem, hasked, hn, Option.elim_some]
          exact mem_notes_datagram.mpr ⟨mtu', rfl, hsend, rfl⟩
        obtain ⟨mtu'', hsession'', hle⟩ := hrespects sock v.bytes hsent
        rw [hs.notify, hsession] at hsession''
        obtain rfl := Subscription.socket.inj hsession''
        exact hle
  · intro hfits sock bytes hsent
    rw [hmem] at hsent
    cases hasked : p.asked with
    | none =>
        rw [hasked] at hsent
        contradiction
    | some v =>
        rw [hasked, Option.elim_some] at hsent
        obtain ⟨mtu, hn, hsend, rfl⟩ := mem_notes_datagram.mp hsent
        have hsession : session.notify = .socket mtu := by rw [hs.notify, hn]; rfl
        exact ⟨mtu, hsession, hfits mtu v hsession hasked hsend⟩

/-- **Datagrams are within the MTU reported for their session if and only if the values that
are notified are**: nothing cuts them. -/
theorem mtu_respected_iff (hpath : path ≠ .root) {chrc : Characteristic} {children : Nat}
    {ps : List (Past path)} {t : Task ChrcData}
    (h : Lts.Run (Recorded filter) (.running (start chrc children)) ps t) :
    Session.Along filter Respects {} ps ↔ Session.Along filter Fits {} ps := by
  refine h.along_congr (agrees_step hpath) (fun session t p u ht hstep ↦ ?_)
    (agrees_start chrc children)
  obtain ⟨s, rfl⟩ := running_of_recorded hstep
  exact respects_iff_fits hpath (ht s rfl) hstep

/-- `AcquireNotify` with an MTU of 23, called by the Bluetooth daemon. -/
def acquireNotifyCall : MethodCall Worker.ofService.path where
  member := "AcquireNotify"
  interface := some bluezChrIf
  sender := some bluezDest
  body := [⟨sig Options,
    .ofEntries [("mtu", .variant (.base (23 : UInt16) : Val (sig UInt16)))]⟩]

/-- The turn in which a socket is acquired. -/
def acquireNotifyPast : Past Worker.ofService.path where
  io := {}
  found := .call acquireNotifyCall
  asked := none
  out := [.reply (acquiredReply acquireNotifyCall.toMessage ⟨4⟩ 23)]

/-- A characteristic with an acquired socket. -/
def acquiredNotify : ChrcData := { start notifying 0 with notify := .socket ⟨3⟩ 23 }

theorem recorded_acquireNotify :
    Recorded none (.running (start notifying 0)) acquireNotifyPast (.running acquiredNotify) := by
  have hturn : turn {} none (.call acquireNotifyCall) (start notifying 0) =
      some (.done .next acquiredNotify acquireNotifyPast.out) := by
    rw [turn_method rfl rfl]
    exact congrArg (some ∘ Turn.replied {}) (acquireNotify_eq (start notifying 0))
  exact ⟨(asked_method_none (c := acquireNotifyCall) rfl (by decide)).symm, _, hturn, rfl, rfl⟩

/-- The turn in which a value is notified through the socket. -/
def datagramPast (v : AttBytes) : Past Worker.ofService.path where
  io := {}
  found := .message (.notify (some v))
  asked := some v
  out := [.datagram ⟨3⟩ v.bytes]

theorem recorded_datagram (v : AttBytes) :
    Recorded none (.running acquiredNotify) (datagramPast v) (.running acquiredNotify) :=
  ⟨rfl, _, rfl, rfl, rfl⟩

/-- A value that fits is sent within the MTU. -/
theorem mtu_respected_empty :
    Session.Along none Respects {} [acquireNotifyPast, datagramPast .empty] := by
  have hrun := Lts.Run.cons recorded_acquireNotify (.single (recorded_datagram .empty))
  refine (mtu_respected_iff Worker.isAttribute_ofService.path hrun).mpr ⟨?_, ?_, trivial⟩
  · intro mtu v hsession
    contradiction
  · intro mtu v hsession hasked hsend
    obtain rfl := Option.some.inj hasked
    exact Nat.zero_le mtu

/-- A value of 24 bytes. -/
def longValue : AttBytes := ⟨List.replicate 24 0, by decide⟩

/-- A value of 24 bytes is sent in one datagram, through a socket with an MTU of 23. -/
theorem mtu_exceeded :
    ¬∀ (path : ObjectPath) (filter : Option String) (chrc : Characteristic) (children : Nat)
      (ps : List (Past path)) (t : Task ChrcData), path ≠ .root →
      Lts.Run (Recorded filter) (.running (start chrc children)) ps t →
        Session.Along filter Respects {} ps := by
  intro hall
  have hrun := Lts.Run.cons recorded_acquireNotify (.single (recorded_datagram longValue))
  obtain ⟨-, hrespects, -⟩ := hall _ none notifying 0 _ _ Worker.isAttribute_ofService.path hrun
  obtain ⟨mtu, hsession, hle⟩ := hrespects ⟨3⟩ longValue.bytes List.mem_cons_self
  obtain rfl : 23 = mtu := Subscription.socket.inj hsession
  exact absurd hle (by decide)

/-! ## Values -/

/-- The value in a body that is the name of the interface, the map of changed properties and the
list of invalidated ones. -/
def decodeBody (body : Body) : Option (List UInt8) :=
  match body.get3 String PropMap (List String) with
  | .error _ => none
  | .ok (interface, changed, _) =>
      if interface ≠ bluezChrIf then none
      else match changed.lookup "Value" with
      | some (.buf bytes) => some bytes
      | _ => none

/-- The value in a `PropertiesChanged` signal of a characteristic. -/
def decodeSignal (m : MarshalledMessage) : Option (List UInt8) :=
  if m.typ = .signal ∧ m.dynheader.interface = some propsIf ∧
      m.dynheader.member = some "PropertiesChanged" then decodeBody m.body
  else none

/-- What a subscriber decodes. -/
def decoded : Out → Option (List UInt8)
  | .datagram _ bytes => some bytes
  | .signal m => decodeSignal m
  | .answer _ _ | .reply _ => none

/-- The signals of notifications are not. -/
theorem decodeSignal_propertiesChanged {v : AttBytes} {m : MarshalledMessage}
    (h : propertiesChanged path v = some m) : decodeSignal m = none := by
  obtain ⟨body, hbody, h⟩ := Option.bind_eq_some_iff.mp h
  obtain ⟨changed, -, rfl⟩ := Option.map_eq_some_iff.mp hbody
  obtain rfl := Option.some.inj h
  have hne : sig String ≠ sig PropMap := Sig.noConfusion
  have hname : (unmarshal (.base bluezChrIf : Val (sig String)) : Option String) =
    some bluezChrIf := rfl
  have hget : Body.get3 String PropMap (List String)
      [⟨sig String, .base bluezChrIf⟩, ⟨sig String, .base bluezChrIf⟩, ⟨sig PropMap, changed⟩] =
      .error .wrongSignature := by
    have hlen : ¬([⟨sig String, .base bluezChrIf⟩, ⟨sig String, .base bluezChrIf⟩,
        ⟨sig PropMap, changed⟩] : Body).length < 3 := lt_irrefl 3
    rw [Body.get3, if_neg hlen, Body.next_cons hname]
    simp only [bind, Except.bind, Body.next_of_ne hne]
  have hbody : decodeBody [⟨sig String, .base bluezChrIf⟩, ⟨sig String, .base bluezChrIf⟩,
      ⟨sig PropMap, changed⟩] = none := by
    rw [decodeBody, hget]
  exact (if_pos ⟨rfl, rfl, rfl⟩).trans hbody

/-- What the subscribers decode in the course of a history. -/
def seen (ps : List (Past path)) : List (List UInt8) := ps.flatMap fun p ↦ p.out.filterMap decoded

/-- What they should: the values that are notified while a session is open. -/
def due (filter : Option String) : Session → List (Past path) → List (List UInt8)
  | _, [] => []
  | session, p :: ps =>
      (if session.notify = .none then [] else (p.asked.map AttBytes.bytes).toList) ++
        due filter (session.next filter p) ps

/-- Nothing is sent while no session is open. -/
def SilentWithout (session : Session) (p : Past path) : Prop :=
  session.notify = .none → p.out.filter Out.isNote = []

/-- No value is notified in a session that was opened by `StartNotify`. -/
def NoSignal (session : Session) (p : Past path) : Prop :=
  session.notify = .signal → p.asked = none

theorem decoded_filter (out : List Out) :
    (out.filter Out.isNote).filterMap decoded = out.filterMap decoded := by
  rw [List.filterMap_filter]
  refine List.filterMap_congr fun o _ ↦ ?_
  cases o with
  | answer | reply | signal | datagram => rfl

/-- What should be decoded of what is sent in a turn. -/
def Decodes (session : Session) (p : Past path) : Prop :=
  p.out.filterMap decoded = if session.notify = .none ∨ session.notify = .signal then []
    else (p.asked.map AttBytes.bytes).toList

/-- What is decoded in a turn. -/
theorem seen_of_recorded (hpath : path ≠ .root) {session : Session} {s : ChrcData}
    {p : Past path} {t : Task ChrcData} (hio : p.io.Works) (hs : s.Agrees session)
    (h : Recorded filter (.running s) p t) :
    SilentWithout session p ∧ Decodes session p := by
  have hnotes := notes_of_recorded hpath h
  have hnotify := hs.notify
  rw [SilentWithout, Decodes, ← decoded_filter, hnotes]
  cases hasked : p.asked with
  | none => exact ⟨fun _ ↦ rfl, (ite_self _).symm⟩
  | some v =>
      rw [Option.elim_some]
      cases hn : s.notify with
      | none =>
          rw [hn] at hnotify
          rw [hnotify]
          exact ⟨fun _ ↦ rfl, rfl⟩
      | socket sock mtu =>
          rw [hn] at hnotify
          rw [hnotify, Notify.notes, hio.sockSend]
          refine ⟨?_, rfl⟩
          intro hnone
          contradiction
      | signal =>
          rw [hn] at hnotify
          rw [hnotify, Notify.notes, hio.sendSignal]
          constructor
          · intro hnone
            contradiction
          · obtain ⟨m, hm⟩ := Option.isSome_iff_exists.mp (propertiesChanged_isSome path v)
            rw [hm]
            exact List.filterMap_cons_none (decodeSignal_propertiesChanged hm)

/-- The values of one turn that should be decoded. -/
abbrev dueNow (session : Session) (p : Past path) : List (List UInt8) :=
  if session.notify = .none then [] else (p.asked.map AttBytes.bytes).toList

theorem length_decoded_le {session : Session} {p : Past path} (h : Decodes session p) :
    (p.out.filterMap decoded).length ≤ (dueNow session p).length := by
  rw [h, dueNow]
  cases session.notify with
  | none => exact Nat.le_refl 0
  | signal => exact Nat.zero_le _
  | socket mtu => exact Nat.le_refl _

theorem decoded_eq_iff {session : Session} {p : Past path} (h : Decodes session p) :
    p.out.filterMap decoded = dueNow session p ↔ NoSignal session p := by
  rw [h, dueNow, NoSignal]
  cases session.notify with
  | none => exact iff_of_true rfl fun hnone ↦ Subscription.noConfusion hnone
  | socket mtu => exact iff_of_true rfl fun hsocket ↦ Subscription.noConfusion hsocket
  | signal =>
      cases p.asked with
      | none => exact iff_of_true rfl fun _ ↦ rfl
      | some v =>
          refine iff_of_false (fun heq ↦ ?_) fun hall ↦ ?_
          · exact absurd (congrArg List.length heq) (Nat.succ_ne_zero 0).symm
          · exact Option.some_ne_none v (hall rfl)

theorem length_seen_le {session : Session} {ps : List (Past path)}
    (h : Session.Along filter Decodes session ps) :
    (seen ps).length ≤ (due filter session ps).length := by
  induction ps generalizing session with
  | nil => exact Nat.le_refl 0
  | cons p ps ih =>
      change (p.out.filterMap decoded ++ seen ps).length ≤
        (dueNow session p ++ due filter (session.next filter p) ps).length
      rw [List.length_append, List.length_append]
      exact Nat.add_le_add (length_decoded_le h.1) (ih h.2)

theorem seen_eq_due_iff {session : Session} {ps : List (Past path)}
    (h : Session.Along filter Decodes session ps) :
    seen ps = due filter session ps ↔ Session.Along filter NoSignal session ps := by
  induction ps generalizing session with
  | nil => exact iff_of_true rfl trivial
  | cons p ps ih =>
      change p.out.filterMap decoded ++ seen ps =
        dueNow session p ++ due filter (session.next filter p) ps ↔
          NoSignal session p ∧ Session.Along filter NoSignal (session.next filter p) ps
      rw [← decoded_eq_iff h.1, ← ih h.2]
      constructor
      · intro heq
        -- Neither part decodes more than it should, so both decode as much.
        have hlen := congrArg List.length heq
        rw [List.length_append, List.length_append] at hlen
        have hnow := length_decoded_le h.1
        have hlater := length_seen_le h.2
        exact List.append_inj heq (by omega)
      · rintro ⟨hnow, hlater⟩
        rw [hnow, hlater]

/-- **Subscribers decode the values that are notified while a session is open, and nothing is
sent while none is, if and only if no value is notified in a session that was opened by
`StartNotify`.** -/
theorem values_seen_iff (hpath : path ≠ .root) {chrc : Characteristic} {children : Nat}
    {ps : List (Past path)} {t : Task ChrcData}
    (h : Lts.Run (Recorded filter) (.running (start chrc children)) ps t)
    (hio : ∀ p ∈ ps, p.io.Works) :
    seen ps = due filter {} ps ∧ Session.Along filter SilentWithout {} ps ↔
      Session.Along filter NoSignal {} ps := by
  have hturns : Session.Along filter
      (fun session p ↦ p.io.Works → SilentWithout session p ∧ Decodes session p) {} ps := by
    refine h.along (agrees_step hpath) (fun session t p u ht hstep hwork ↦ ?_)
      (agrees_start chrc children)
    obtain ⟨s, rfl⟩ := running_of_recorded hstep
    exact seen_of_recorded hpath hwork (ht s rfl) hstep
  have hsilent := Lts.Along.imp (Q := SilentWithout) (fun _ p hp himp ↦ (himp (hio p hp)).1) hturns
  have hdecodes := Lts.Along.imp (Q := Decodes) (fun _ p hp himp ↦ (himp (hio p hp)).2) hturns
  exact (and_iff_left hsilent).trans (seen_eq_due_iff hdecodes)

/-- A value that is sent through a socket is seen. -/
theorem values_seen_datagram : seen [acquireNotifyPast, datagramPast longValue] =
    due none {} [acquireNotifyPast, datagramPast longValue] := by
  have hrun := Lts.Run.cons recorded_acquireNotify (.single (recorded_datagram longValue))
  refine ((values_seen_iff Worker.isAttribute_ofService.path hrun ?_).mpr ⟨?_, ?_, trivial⟩).1
  · intro p hp
    rcases List.mem_cons.mp hp with rfl | hp
    · exact Io.works_default
    · obtain rfl := List.mem_singleton.mp hp
      exact Io.works_default
  · intro hsignal
    contradiction
  · intro hsignal
    contradiction

/-- The turn in which a value is notified in a signal. -/
def signalPast (v : AttBytes) : Past Worker.ofService.path where
  io := {}
  found := .message (.notify (some v))
  asked := some v
  out := ((propertiesChanged Worker.ofService.path v).map Out.signal).toList

theorem recorded_signal (v : AttBytes) :
    Recorded none (.running subscribed) (signalPast v) (.running subscribed) := by
  have hturn : turn {} none (.message (.notify (some v)) : Found Worker.ofService.path) subscribed =
      some (.done .next subscribed (signalPast v).out) := by
    refine congrArg some ((Act.bind_pure_apply _ _ _).trans ?_)
    rw [sendNotification_eq]
    rfl
  exact ⟨rfl, _, hturn, rfl, rfl⟩

/-- After `StartNotify` no notified value can be decoded. -/
theorem signal_not_decoded :
    ¬∀ (path : ObjectPath) (filter : Option String) (chrc : Characteristic) (children : Nat)
      (ps : List (Past path)) (t : Task ChrcData), path ≠ .root →
      Lts.Run (Recorded filter) (.running (start chrc children)) ps t →
        (∀ p ∈ ps, p.io.Works) → seen ps = due filter {} ps := by
  intro hall
  have hrun := Lts.Run.cons recorded_startNotify (.single (recorded_signal .empty))
  have hseen := hall _ none notifying 0 _ _ Worker.isAttribute_ofService.path hrun fun p hp ↦ by
    rcases List.mem_cons.mp hp with rfl | hp
    · exact Io.works_default
    · obtain rfl := List.mem_singleton.mp hp
      exact Io.works_default
  obtain ⟨m, hm⟩ := Option.isSome_iff_exists.mp
    (propertiesChanged_isSome Worker.ofService.path .empty)
  have hnone : (signalPast .empty).out.filterMap decoded = [] := by
    rw [signalPast, hm]
    exact List.filterMap_cons_none (decodeSignal_propertiesChanged hm)
  rw [seen, List.flatMap_cons, List.flatMap_cons, hnone] at hseen
  exact List.cons_ne_nil _ _ hseen.symm

end ChrcData

end Rustable.Gatt.Server
