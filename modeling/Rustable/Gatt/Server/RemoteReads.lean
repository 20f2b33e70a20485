import Rustable.Gatt.Methods
import Rustable.Gatt.Server.LongWrites

/-!
# Reads of a client

A client reads the value of a characteristic or of a descriptor with a call, and makes a value of
the reply.  If the call passes the filter and the flags of the attribute permit it, the client has
the bytes that were stored last, from the offset on.  Otherwise it waits in vain: the refusal cannot
be sent, and the worker ends.
-/

namespace Rustable.Gatt.Server

open DBus Mailbox

variable {io : Io} {path : ObjectPath} {filter : Option String}

namespace Attribute

variable {a : Attribute} {c : MethodCall path} {offset : UInt16} {msg : MarshalledMessage}

/-! ## Both ends of a call -/

/-- `read_value`: what the client sends to an attribute of this kind. -/
def readValueCall (path : ObjectPath) (offset : UInt16) : Attribute → Option MarshalledMessage
  | chrc _ => Client.readValueCall path offset
  | desc _ => Client.Descriptor.readValueCall path offset

/-- `read_value`: what the client makes of the reply. -/
def readValueReply : Attribute → MarshalledMessage → MayFail AttBytes
  | chrc _ => Client.readValueReply
  | desc _ => Client.Descriptor.readValueReply

theorem readValueReply_eq (a : Attribute) : a.readValueReply = Client.readValueReply := by
  cases a <;> rfl

/-- What the client pushes is the offset for the server. -/
theorem pushParam_offset (offset : UInt16) : ∃ body options,
    Body.pushParam [] ((∅ : Client.Options).insert "offset" (.u16 offset)) = some body ∧
      body.get Options = .ok options ∧ offsetOption options = offset.toNat := by
  obtain ⟨w, options, hw, hread, hlook⟩ :=
    options_received ((∅ : Client.Options).insert "offset" (.u16 offset)) (by
      intro e he
      obtain rfl := (AList.mem_entries_insert he).resolve_right List.not_mem_nil
      exact ⟨not_false, fun _ heq ↦ nomatch heq⟩)
  refine ⟨_, options, Body.pushParam_eq hw [], get_options hread, ?_⟩
  rw [offsetOption, hlook, AList.lookup_insert]
  rfl

/-- **A client can ask for every value**, and what arrives of its call reads from the offset on. -/
theorem exists_readValueCall (a : Attribute) (path : ObjectPath) (offset : UInt16) :
    ∃ msg, a.readValueCall path offset = some msg ∧
      ∀ c : MethodCall path, Delivers c msg → IsRead a.interface offset.toNat c := by
  obtain ⟨body, options, hpush, hget, hoffset⟩ := pushParam_offset offset
  cases a with
  | chrc data =>
      refine ⟨Client.buildCall path "ReadValue" body, ?_, fun c hc ↦ ⟨hc.interface,
        Option.some.inj hc.member, options, ?_, hoffset⟩⟩
      · rw [readValueCall, Client.readValueCall, hpush]
        rfl
      · change c.body.get Options = _
        rw [hc.body]
        exact hget
  | desc data =>
      refine ⟨Client.Descriptor.buildCall path "ReadValue" body, ?_, fun c hc ↦ ⟨hc.interface,
        Option.some.inj hc.member, options, ?_, hoffset⟩⟩
      · rw [readValueCall, Client.Descriptor.readValueCall, hpush]
        rfl
      · change c.body.get Options = _
        rw [hc.body]
        exact hget

theorem isRead_of_delivers (hmsg : a.readValueCall path offset = some msg) (hc : Delivers c msg) :
    IsRead a.interface offset.toNat c := by
  obtain ⟨msg', hmsg', hread⟩ := exists_readValueCall a path offset
  obtain rfl := Option.some.inj (hmsg'.symm.trans hmsg)
  exact hread c hc

/-! ## What the client makes of the reply -/

/-- The bytes that are sent are read. -/
theorem readValueReply_value (a : Attribute) (call : MarshalledMessage) (v : AttBytes)
    (offset : Nat) : ∃ value : AttBytes, value.bytes = v.bytes.drop offset ∧
      a.readValueReply (valueReply call (v.bytes.drop offset)) = pure value := by
  have hlen : (v.bytes.drop offset).length ≤ 512 := by
    rw [List.length_drop]
    exact (Nat.sub_le _ _).trans v.length_le
  refine ⟨⟨_, hlen⟩, rfl, ?_⟩
  obtain ⟨htyp, hbody⟩ := carries_valueReply call (v.bytes.drop offset)
  rw [readValueReply_eq, Client.readValueReply, isMsgErr, readReply, htyp]
  dsimp only
  rw [hbody]
  have hok : ExceptT.mk (some (Except.mapError unmarshalFailed (.ok (v.bytes.drop offset)))) =
      (pure (v.bytes.drop offset) : MayFail (List UInt8)) := rfl
  rw [hok, pure_bind, fits_of_le hlen]

/-! ## A turn -/

/-- The call is accepted, and the client may read the value. -/
def Permits (a : Attribute) (filter : Option String) (call : MarshalledMessage) : Prop :=
  isMsgBluez call filter = true ∧ a.readable = true

/-- **A client that reads is answered** with the value from the offset on, or refused. -/
theorem onCall_isRead {n : Nat} (hread : IsRead a.interface n c) (io : Io)
    (filter : Option String) (asked : Asked) : ∃ m s,
      a.worker.onCall io filter asked c.toMessage = Turn.replied io (.done m s []) ∧
      (a.Permits filter c.toMessage → m = valueReply c.toMessage (a.read.1.bytes.drop n)) ∧
      (¬a.Permits filter c.toMessage → m = refusal c.toMessage) := by
  obtain ⟨options, hbody, rfl⟩ := hread.decoded
  rw [onCall_worker]
  cases hfilter : isMsgBluez c.toMessage filter with
  | false =>
      refine ⟨refusal c.toMessage, a.worker, ?_, fun h ↦ ?_, fun _ ↦ rfl⟩
      · rw [Turn.replyTo_refused hfilter]
        exact Turn.replied_mapState worker _ _
      · exact absurd (hfilter.symm.trans h.1) Bool.false_ne_true
  | true =>
      rw [Turn.replyTo_passed hfilter, handleCall_readValue hread.interface_eq hread.member_eq,
        hbody]
      cases hreadable : a.readable with
      | false =>
          refine ⟨refusal c.toMessage, a.worker, Turn.replied_mapState worker _ _, fun h ↦ ?_,
            fun _ ↦ rfl⟩
          exact absurd (hreadable.symm.trans h.2) Bool.false_ne_true
      | true =>
          exact ⟨_, a.read.2.worker, Turn.replied_mapState worker _ _, fun _ ↦ rfl,
            fun h ↦ absurd ⟨hfilter, hreadable⟩ h⟩

/-- A worker of which the same is known has an attribute of the same kind, with the same flags. -/
theorem exists_of_known {s : WorkerState} (h : s.known = a.worker.known) :
    ∃ a' : Attribute, s = a'.worker ∧ a'.interface = a.interface ∧ a'.readable = a.readable := by
  cases a with
  | chrc data =>
      cases s with
      | chrc data' =>
          obtain ⟨-, hflags⟩ := Known.chrc.inj h
          refine ⟨chrc data', rfl, rfl, ?_⟩
          simp only [readable, ChrcData.readable?, hflags]
      | app | serv | desc => contradiction
  | desc data =>
      cases s with
      | desc data' =>
          obtain ⟨-, hflags⟩ := Known.desc.inj h
          refine ⟨desc data', rfl, rfl, ?_⟩
          simp only [readable, Descriptor.readable?, hflags]
      | app | serv | chrc => contradiction

end Attribute

/-! ## Runs -/

/-- Where an update has been the last to store something, the worker is still what it was, and has
the value of the update. -/
theorem Worker.shows_stores_of_update {worker worker' : Worker} {ts : List (Io × Input)}
    {first mid rest : List Entry} {vf : ValOrFn} {notify : Bool} {out₁ : List Out} {e : Entry}
    (hpath : worker.path ≠ .root) (hrouted : ∀ t ∈ ts, t.2.Routed worker.path)
    (h : (behaviour filter).told worker ts = some
      (first ++ ((io, .message (.update vf notify)), out₁) :: (mid ++ e :: rest), worker'))
    (hmid : ∀ x ∈ mid, x.1.2.Reads) : ∃ u v us, u.Shows worker.path worker.state.known ∧
      u.Stores worker.path vf.stored ∧ (behaviour filter).turn u e.1 = some (e.2, v) ∧
        (behaviour filter).told v us = some (rest, worker') := by
  obtain ⟨ts₁, ts₂, u₁, rfl, hfirst, h⟩ := Behaviour.told_split h
  obtain ⟨ts₃, u₂, rfl, hupdate, h⟩ := Behaviour.told_entry h
  obtain ⟨ts₄, ts₅, u₃, rfl, hread, h⟩ := Behaviour.told_split h
  obtain ⟨ts₆, u₄, rfl, hturn, hrest⟩ := Behaviour.told_entry h
  simp only [List.forall_mem_append, List.forall_mem_cons] at hrouted
  obtain ⟨hrouted₁, hrouted₂, hrouted₃, -⟩ := hrouted
  have shows (u : Worker) (t : Io × Input) (ht : t.2.Routed worker.path) (out : List Out)
      (u' : Worker) (hu : u.Shows worker.path worker.state.known)
      (hturn : (behaviour filter).turn u t = some (out, u')) :
      u'.Shows worker.path worker.state.known := hu.turn (fun _ ↦ hpath) ht hturn
  have hu₁ : u₁.Shows worker.path worker.state.known :=
    Behaviour.told_invariant (fun u t ht ↦ shows u t (hrouted₁ t ht)) hfirst ⟨rfl, rfl⟩
  have hu₂ := shows u₁ _ hrouted₂ _ u₂ hu₁ hupdate
  have hrunning : u₂.running = true := by
    cases mid with
    | nil =>
        obtain rfl : [] = ts₄ := Behaviour.map_fst_told hread
        obtain ⟨-, rfl⟩ := Prod.mk.inj (Option.some.inj hread)
        exact (behaviour_turn_iff.mp hturn).1
    | cons x mid =>
        obtain ⟨ts₇, u₅, rfl, hx, -⟩ := Behaviour.told_entry hread
        exact (behaviour_turn_iff.mp hx).1
  have hstores := stores_of_update hu₁.path hupdate hrunning
  refine ⟨u₃, u₄, ts₆, ?_, ?_, hturn, hrest⟩
  · exact Behaviour.told_invariant (fun u t ht ↦ shows u t (hrouted₃ t ht)) hread hu₂
  · refine Behaviour.told_invariant (fun u t ht out u' hu hturn ↦ ?_) hread hstores
    obtain ⟨x, hx, rfl⟩ := List.mem_map.mp (Behaviour.map_fst_told hread ▸ ht)
    exact hu.turn hpath (hrouted₃ _ ht) (hmid x hx) hturn

/-- A worker that does not run takes no turns. -/
theorem Worker.told_of_not_running {worker worker' : Worker} {ts : List (Io × Input)}
    {log : List Entry} (hrunning : worker.running = false)
    (h : (behaviour filter).told worker ts = some (log, worker')) : log = [] ∧ worker' = worker := by
  cases ts with
  | nil =>
      obtain ⟨rfl, rfl⟩ := Prod.mk.inj (Option.some.inj h)
      exact ⟨rfl, rfl⟩
  | cons t ts => exact absurd (hrunning.symm.trans (running_of_told h)) Bool.false_ne_true

/-- **A client reads what has been stored last.**  In a run of a registered application, let an
update be sent to an attribute, and nothing else be stored before a client's call to read the value
is handled.

* If the call passes the filter and the flags of the attribute permit it, it has a reply, unless the
  connection fails, and the client has the value of the update from the offset on.
* If not, it has no reply, and the worker has ended. -/
theorem remote_reads {self : Application} {bus : Bus} {app t : AppWorker} {es : List Event}
    (h : self.register bus = pure app) (hrun : Lts.Run AppWorker.RoutedStep app es t) {key : Key}
    {before : Worker} (hbefore : app.workers.lookup key = some before) {a : Attribute}
    (ha : before.state = a.worker) :
    ∃ (log : List Entry) (worker : Worker), log.map Prod.fst = Seen.turns (app.history key es) ∧
      t.workers.lookup key = some worker ∧
      (Worker.behaviour app.filter).told before.alone (Seen.turns (app.history key es)) =
        some (log, worker.alone) ∧
      ∀ (first mid rest : List Entry) (io io' : Io) (vf : ValOrFn) (notify : Bool)
        (out out' : List Out) (asked : Asked) (c : MethodCall before.path) (offset : UInt16)
        (msg : MarshalledMessage),
        log = first ++ ((io, .message (.update vf notify)), out) ::
          (mid ++ ((io', .call asked c.toMessage), out') :: rest) →
        (∀ x ∈ mid, x.1.2.Reads) →
        a.readValueCall before.path offset = some msg → Delivers c msg →
          (a.Permits app.filter c.toMessage →
            (io'.sendReply = .ok () → ∃ m, out' = [.reply m]) ∧
            ∀ m, .reply m ∈ out' → ∃ v value, Content.Reads vf.stored v ∧
              value.bytes = v.bytes.drop offset.toNat ∧ a.readValueReply m = pure value) ∧
          (¬a.Permits app.filter c.toMessage → out' = [] ∧ rest = [] ∧ worker.running = false) := by
  obtain ⟨worker, hworker, ⟨log, hlog⟩, -⟩ := AppWorker.runs_alone hrun.of_restrict hbefore
  refine ⟨log, worker, Behaviour.map_fst_told hlog, hworker, hlog, ?_⟩
  rintro first mid rest io io' vf notify out out' asked c offset msg rfl hmid hmsg hc
  have hroot : before.alone.path ≠ .root := by
    refine Application.below_of_reachable h (.refl app) key before hbefore ?_
    rw [ha]
    cases a <;> exact nofun
  have hrouted := AppWorker.routed_of_mem_history hbefore hrun
  obtain ⟨u, v, us, hshows, hstores, hturn, hrest⟩ :=
    Worker.shows_stores_of_update hroot hrouted hlog hmid
  have hknown : u.state.known = a.worker.known := hshows.known.trans (congrArg _ ha)
  obtain ⟨a', hstate, hinterface, hreadable⟩ := Attribute.exists_of_known hknown
  have hread : Attribute.IsRead a'.interface offset.toNat c :=
    hinterface ▸ Attribute.isRead_of_delivers hmsg hc
  have hpermits : a'.Permits app.filter c.toMessage ↔ a.Permits app.filter c.toMessage := by
    rw [Attribute.Permits, hreadable, Attribute.Permits]
  have hcontent : Content.Reads vf.stored a'.read.1 := by
    have hsome := hstores.content
    rw [hstate, a'.content_worker] at hsome
    exact Option.some.inj hsome ▸ a'.reads_read
  obtain ⟨m, s, hreplied, hvalue, hrefusal⟩ := Attribute.onCall_isRead hread io' app.filter asked
  obtain ⟨-, ran, hran, hout, hafter⟩ := Worker.behaviour_turn_iff.mp hturn
  rw [hshows.path, hstate] at hran
  obtain rfl := Option.some.inj hran
  dsimp only at hout
  rw [← hpermits]
  constructor
  · intro hpermitted
    obtain rfl := hvalue hpermitted
    constructor
    · intro hsend
      rw [hout, hreplied, Turn.replied_sendable rfl hsend]
      exact ⟨_, rfl⟩
    · intro m' hm'
      obtain rfl := eq_of_replied hreplied.symm (hout ▸ hm')
      obtain ⟨value, hbytes, hvalue'⟩ :=
        a.readValueReply_value c.toMessage a'.read.1 offset.toNat
      exact ⟨a'.read.1, value, hcontent, hbytes, hvalue'⟩
  · intro hdenied
    rw [hrefusal hdenied, Turn.replied_unsendable (isSendable_refusal _)] at hreplied
    rw [hreplied] at hout hafter
    obtain ⟨hnone, hworker'⟩ := Worker.told_of_not_running (congrArg Worker.running hafter) hrest
    have hended : worker.alone.running = false := by rw [hworker', hafter]; rfl
    exact ⟨hout, hnone, hended⟩

/-! ## A run -/

/-- The worker of a characteristic can be sent an update, receive it and be called. -/
theorem AppWorker.update_called {app : AppWorker} {serv cha : UUID} {s : ChrcData}
    (h : app.awake (serv, cha, 0) = some { state := .chrc s, path := path }) (v : AttBytes)
    (asked : Asked) (c : MethodCall path) : ∃ es t, Lts.Run RoutedStep app es t ∧
      Seen.turns (app.history (serv, cha, 0) es) =
        [({}, .message (.update (.value v) false)), ({}, .call asked c.toMessage)] := by
  let update : Call := .updateCharacteristic serv cha (.value v) false
  let w : Worker := { state := .chrc s, path := path }
  let w₂ : Worker := { w with state := .chrc { s with value := .value v } }
  let app₁ := app.put (serv, cha, 0) (w.push update.msg)
  let app₂ := app₁.put (serv, cha, 0) w₂
  have h₁ : app₁.awake (serv, cha, 0) = some (w.push update.msg) := awake_put h rfl
  have h₂ : app₂.awake (serv, cha, 0) = some w₂ := awake_put h₁ rfl
  have hupdate : app.next (.call update) = some app₁ := next_call h (by decide : 0 < 8)
  have hstored : { w.push update.msg with queue := [] }.after
      ((WorkerState.chrc s).onMsg {} path update.msg) = w₂ := rfl
  have hreceive : app₁.next (.receive (serv, cha, 0) {}) = some app₂ :=
    (next_receive h₁ rfl {}).trans (congrArg (fun w' ↦ some (app₁.put _ w')) hstored)
  have hcall := next_wake_call h₂ {} asked c.toMessage
  have hsees : app.sees (.call update) (serv, cha, 0) = .sent update.msg := sees_of_awake h _
  refine ⟨[.call update, .receive _ {}, .wake _ {} (.call asked c.toMessage)], _,
    .cons ⟨hupdate, routed_call _ _⟩ (.cons ⟨hreceive, routed_receive _ _ _⟩
      (.cons ⟨hcall, routed_wake_call (lookup_of_awake h₂).1 {} asked c⟩ (.nil _))), ?_⟩
  rw [history, Mailbox.history, hupdate, Option.elim_some, Mailbox.history, hreceive,
    Option.elim_some, Mailbox.history, hcall, Option.elim_some, Mailbox.history, hsees,
    sees_receive h₁ rfl, sees_wake]
  rfl

/-- A byte is stored by an update, and a client reads it.  A call without a sender is not answered,
and ends the worker. -/
theorem remote_reads_ofUuids : ∃ (app : AppWorker) (es es' : List Event) (before : Worker)
    (e₁ e₂ e₁' e₂' : Entry) (after after' : Worker) (m : MarshalledMessage) (value : AttBytes),
    (Application.ofUuids ⟨1⟩ ⟨2⟩ ⟨3⟩).register .working = pure app ∧
    app.workers.lookup (⟨1⟩, ⟨2⟩, 0) = some before ∧
    (Worker.behaviour app.filter).told before.alone
      (Seen.turns (app.history (⟨1⟩, ⟨2⟩, 0) es)) = some ([e₁, e₂], after) ∧
    e₂.2 = [.reply m] ∧ Client.readValueReply m = pure value ∧ value.bytes = [7] ∧
    (Worker.behaviour app.filter).told before.alone
      (Seen.turns (app.history (⟨1⟩, ⟨2⟩, 0) es')) = some ([e₁', e₂'], after') ∧
    e₂'.2 = [] ∧ after'.running = false := by
  obtain ⟨app, happ⟩ := Application.register_ofUuids ⟨1⟩ ⟨2⟩ ⟨3⟩
  have hfilter : ∃ dest, app.filter = some dest := by
    obtain ⟨-, filter, _, _, hfilter, -, -, rfl⟩ := Application.register_spec happ
    exact ⟨_, (Except.ok.inj (Option.some.inj hfilter)).symm⟩
  obtain ⟨path, hbefore⟩ := Application.lookup_chrcOfUuids happ
  obtain ⟨w, options, hmsg, -⟩ := readValueCall_eq path 0
  let v : AttBytes := ⟨[7], by decide⟩
  let call (sender : Option String) : MethodCall path :=
    { member := "ReadValue", interface := some bluezChrIf, sender := sender,
      body := [⟨sig Client.Options, w⟩] }
  have hread (sender : Option String) : ∃ es out out' after,
      (Worker.behaviour app.filter).told { state := Application.chrcOfUuids.worker, path := path }
        (Seen.turns (app.history (⟨1⟩, ⟨2⟩, 0) es)) = some ([(({}, .message (.update (.value v) false)),
          out), (({}, .call (fun _ ↦ none) (call sender).toMessage), out')], after) ∧
      (Application.chrcOfUuids.Permits app.filter (call sender).toMessage →
        ∃ m value, out' = [.reply m] ∧ value.bytes = [7] ∧ Client.readValueReply m = pure value) ∧
      (¬Application.chrcOfUuids.Permits app.filter (call sender).toMessage →
        out' = [] ∧ after.running = false) := by
    obtain ⟨es, t, hrun, hturns⟩ := AppWorker.update_called (AppWorker.awake_of_lookup hbefore rfl)
      v (fun _ ↦ none) (call sender)
    obtain ⟨log, worker, hfst, -, htold, hreads⟩ :=
      remote_reads (a := Application.chrcOfUuids) happ hrun hbefore rfl
    rw [hturns] at hfst
    obtain ⟨⟨t₁, out⟩, log, rfl, ht₁, hfst⟩ := List.map_eq_cons_iff.mp hfst
    obtain ⟨⟨t₂, out'⟩, log, rfl, ht₂, hfst⟩ := List.map_eq_cons_iff.mp hfst
    obtain rfl := List.map_eq_nil_iff.mp hfst
    obtain rfl : t₁ = _ := ht₁
    obtain rfl : t₂ = _ := ht₂
    obtain ⟨hpermitted, hdenied⟩ := hreads [] [] [] {} {} (.value v) false out out' _ (call sender)
      0 _ rfl (fun _ hx ↦ absurd hx List.not_mem_nil) hmsg ⟨rfl, rfl, rfl⟩
    refine ⟨es, out, out', _, htold, fun hpermits ↦ ?_, fun hpermits ↦ ?_⟩
    · obtain ⟨hsent, hread⟩ := hpermitted hpermits
      obtain ⟨m, rfl⟩ := hsent rfl
      obtain ⟨u, value, hu, hbytes, hvalue⟩ := hread m (List.mem_singleton_self _)
      obtain rfl : u = v := hu
      exact ⟨m, value, rfl, hbytes, hvalue⟩
    · obtain ⟨hnone, -, hended⟩ := hdenied hpermits
      exact ⟨hnone, hended⟩
  obtain ⟨es, out₁, out₂, after, htold, hpermitted, -⟩ := hread (some bluezDest)
  obtain ⟨es', out₁', out₂', after', htold', -, hdenied⟩ := hread none
  obtain ⟨m, value, hm, hbytes, hvalue⟩ := hpermitted ⟨isMsgBluez_of_sender rfl _, rfl⟩
  have hforeign : ¬Application.chrcOfUuids.Permits app.filter (call none).toMessage := by
    obtain ⟨dest, hdest⟩ := hfilter
    rw [hdest]
    exact fun h ↦ absurd h.1 Bool.false_ne_true
  obtain ⟨hnone, hended⟩ := hdenied hforeign
  exact ⟨app, es, es', _, _, _, _, _, after, after', m, value, happ, hbefore, htold, hm, hvalue,
    hbytes, htold', hnone, hended⟩

end Rustable.Gatt.Server
