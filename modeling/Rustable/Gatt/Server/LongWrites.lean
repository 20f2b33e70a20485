import Rustable.Gatt.Server.Identity
import Rustable.Gatt.Server.OffsetWrites

/-!
# Long writes among other things

A peer writes a long value in chunks, each of them where the last one ended.  A worker has other
things to do in between: it answers other calls and messages, notifies, and reads.  If each of the
writes has been acknowledged and nothing else has been stored since the first one, then whoever
reads the value reads what the chunks make up, for as long as nothing else is stored
(`long_write_kept`).
-/

namespace Rustable.Gatt.Server

open DBus Mailbox

variable {io : Io} {path : ObjectPath} {filter : Option String} {flow : Flow} {out : List Out}

/-- A turn of a part of a state, and one of the whole. -/
theorem Turn.replyTo_mapState {σ τ : Type} {f : σ → τ} {call : MarshalledMessage}
    {handle : Turn σ MarshalledMessage} {handle' : Turn τ MarshalledMessage} {s : σ}
    (h : handle' (f s) = (handle s).mapState f) :
    (Turn.replyTo io filter call handle s).mapState f =
      Turn.replyTo io filter call handle' (f s) := by
  cases hfilter : isMsgBluez call filter with
  | false => rw [replyTo_refused hfilter, replyTo_refused hfilter, replied_mapState]
  | true =>
      rw [replyTo_passed hfilter, replyTo_passed hfilter, h]
      cases handle s with
      | stop why out => rfl
      | done m t out =>
          rw [Ran.mapState, replied, replied]
          cases io.send m with
          | ok u => rfl
          | error e => rfl

theorem Ran.mapState_mapState {ω ο σ τ υ α : Type} (g : τ → υ) (f : σ → τ) (r : Ran ω ο σ α) :
    (r.mapState f).mapState g = r.mapState (g ∘ f) := by
  cases r <;> rfl

/-! ## An acknowledged write -/

namespace Attribute

variable {a t : Attribute} {c : MethodCall path} {chunk : AttBytes} {offset : Nat}
  {m : MarshalledMessage}

/-- A write is performed without a word to anybody else, if the attribute stores what is
written. -/
theorem out_handleCall_isWrite (hwrite : IsWrite a.interface chunk offset c) (hstores : a.Stores) :
    (a.handleCall io c.toMessage).out = [] := by
  obtain ⟨options, hbody, rfl⟩ := hwrite.decoded
  rw [handleCall_writeValue hwrite.interface_eq hwrite.member_eq]
  split
  · rw [hbody]
    dsimp only
    by_cases hfits : a.Fits chunk (offsetOption options)
    · obtain ⟨v, -, hupdated⟩ := updated_of_fits hfits
      rw [hupdated]
      dsimp only
      split
      · rw [accept_of_stores hstores]
        rfl
      · rw [accept_of_stores ((stores_read a).mpr hstores)]
        rfl
    · rw [updated_of_not_fits hfits]
      rfl
  · rfl

/-- **A write that is acknowledged has been performed.** -/
theorem store_of_acknowledged (hwrite : IsWrite a.interface chunk offset c) (hstores : a.Stores)
    (h : a.handleCall io c.toMessage = .done m t out) (htyp : m.typ = .reply) :
    ∃ v, v.bytes = a.read.1.bytes.take offset ++ chunk.bytes ∧ t = a.store v := by
  obtain ⟨options, hbody, rfl⟩ := hwrite.decoded
  rw [handleCall_writeValue hwrite.interface_eq hwrite.member_eq] at h
  split at h
  · rw [hbody] at h
    dsimp only at h
    by_cases hfits : a.Fits chunk (offsetOption options)
    · obtain ⟨v, hbytes, hupdated⟩ := updated_of_fits hfits
      refine ⟨v, hbytes, ?_⟩
      rw [hupdated] at h
      dsimp only at h
      split at h
      · rw [accept_of_stores hstores] at h
        exact (Ran.done.inj h).2.1.symm
      · rw [accept_of_stores ((stores_read a).mpr hstores), store_read] at h
        exact (Ran.done.inj h).2.1.symm
    · rw [updated_of_not_fits hfits] at h
      contradiction
  · obtain ⟨rfl, -⟩ := Ran.done.inj h
    contradiction

/-- The worker of the attribute. -/
def worker : Attribute → WorkerState
  | chrc data => .chrc data
  | desc data => .desc data

theorem onCall_worker (a : Attribute) (asked : Asked) (msg : MarshalledMessage) :
    a.worker.onCall io filter asked msg =
      (Turn.replyTo io filter msg (handleCall io msg) a).mapState worker := by
  cases a with
  | chrc data =>
      have hreply := @Turn.replyTo_mapState io filter _ _ chrc msg (ChrcData.handleCall io msg)
        (handleCall io msg) data rfl
      rw [← hreply, Ran.mapState_mapState]
      rfl
  | desc data =>
      have hreply := @Turn.replyTo_mapState io filter _ _ desc msg
        (Turn.ofMayPanic (Descriptor.handleCall msg)) (handleCall io msg) data rfl
      rw [← hreply, Ran.mapState_mapState]
      rfl

theorem content_worker (a : Attribute) : a.worker.content = some a.value.stored := by
  cases a <;> rfl

/-- What is read can be read from what is stored. -/
theorem reads_read (a : Attribute) : Content.Reads a.value.stored a.read.1 := by
  cases a with
  | chrc data => exact ValOrFn.reads_toValue data.value
  | desc data => exact ValOrFn.reads_toValue data.value

/-- An attribute of one kind panics on the methods of the other one. -/
theorem handleCall_panics (io : Io) {interface : String} (hcall : c.interface = some interface)
    (hinterface : interface = bluezChrIf ∨ interface = bluezDesIf) (hne : interface ≠ a.interface) :
    a.handleCall io c.toMessage = .stop .panic [] := by
  cases a with
  | chrc data =>
      obtain rfl := hinterface.resolve_left hne
      exact congrArg (Ran.mapState chrc) (ChrcData.handleCall_panics io hcall data)
  | desc data =>
      obtain rfl := hinterface.resolve_right hne
      exact congrArg (Ran.mapState desc) (Descriptor.handleCall_panics hcall data)

end Attribute

/-- A turn that has sent a response has done so at its end. -/
theorem Turn.replyTo_of_reply {σ : Type} {call m : MarshalledMessage}
    {handle : Turn σ MarshalledMessage} {s : σ}
    (hm : .reply m ∈ (Turn.replyTo io filter call handle s).out) (htyp : m.typ = .reply)
    (hhandle : ∀ m, .reply m ∉ (handle s).out) : ∃ t out, handle s = .done m t out ∧
      Turn.replyTo io filter call handle s = .done .next t (out ++ [.reply m]) := by
  obtain ⟨t, out, hrun⟩ := WorkerState.reply_of_replyTo hm htyp hhandle
  refine ⟨t, out, hrun, ?_⟩
  rw [hrun] at hhandle
  cases hfilter : isMsgBluez call filter with
  | false =>
      rw [Turn.replyTo_refused hfilter, Turn.replied.eq_def] at hm
      dsimp only at hm
      split at hm
      · obtain rfl := Out.reply.inj (List.mem_singleton.mp hm)
        contradiction
      · contradiction
  | true =>
      rw [Turn.replyTo_passed hfilter, hrun, Turn.replied.eq_def] at hm ⊢
      dsimp only at hm ⊢
      split at hm
      · rfl
      · exact absurd hm (hhandle m)

namespace WorkerState

/-- The attribute is a descriptor, or a characteristic with the default write callback. -/
def StoresWrites : WorkerState → Prop
  | chrc s => (Attribute.chrc s).Stores
  | desc _ => True
  | app _ | serv _ => False

theorem exists_attribute {s : WorkerState} (hs : s.StoresWrites) :
    ∃ a : Server.Attribute, s = a.worker ∧ a.Stores := by
  cases s with
  | app | serv => contradiction
  | chrc s => exact ⟨.chrc s, rfl, hs⟩
  | desc s => exact ⟨.desc s, rfl, trivial⟩

theorem storesWrites_worker {a : Server.Attribute} (h : a.Stores) : a.worker.StoresWrites := by
  cases a with
  | chrc data => exact h
  | desc data => trivial

/-- It stays one. -/
theorem storesWrites_of_turn {input : Input} {s s' : WorkerState} (hpath : path ≠ .root)
    (hrouted : input.Routed path) (h : s.turn io path filter input = some (.done flow s' out))
    (hs : s.StoresWrites) : s'.StoresWrites := by
  cases s with
  | app | serv => contradiction
  | chrc s =>
      obtain ⟨found, t, rfl, hturn⟩ := chrc_of_turn hrouted h
      have hfixed : ChrcData.Fixed fun s ↦ s.writeCallback.run :=
        ⟨fun _ _ ↦ rfl, fun _ _ ↦ rfl, fun _ _ ↦ rfl, fun _ _ ↦ rfl, fun _ _ ↦ rfl, fun _ _ ↦ rfl⟩
      exact (ChrcData.view_of_turn hfixed hpath hturn).trans hs
  | desc s =>
      have hkind := turn_kind h
      cases s' with
      | desc => trivial
      | app | serv | chrc => contradiction

/-- **After a write that is acknowledged** the worker stores the beginning of the old value, with
the chunk behind it. -/
theorem content_of_write {s : WorkerState} (hs : s.StoresWrites) {asked : Asked}
    {c : MethodCall path} {interface : String}
    (hinterface : interface = bluezChrIf ∨ interface = bluezDesIf) {chunk : AttBytes} {offset : Nat}
    (hwrite : Attribute.IsWrite interface chunk offset c) {m : MarshalledMessage}
    (hm : .reply m ∈ (s.onCall io filter asked c.toMessage).out) (htyp : m.typ = .reply) :
    ∃ (s' : WorkerState) (out : List Out) (content : Content) (old v : AttBytes),
      s.onCall io filter asked c.toMessage = .done .next s' out ∧ s'.StoresWrites ∧
      s.content = some content ∧ content.Reads old ∧
      v.bytes = old.bytes.take offset ++ chunk.bytes ∧ s'.content = some (.inl v) := by
  obtain ⟨a, rfl, hstores⟩ := exists_attribute hs
  rw [Attribute.onCall_worker] at hm ⊢
  rw [Ran.out_mapState] at hm
  by_cases heq : interface = a.interface
  · subst heq
    have hout := @Attribute.out_handleCall_isWrite io path a c chunk offset hwrite hstores
    obtain ⟨t, out, hrun, hreplied⟩ :=
      Turn.replyTo_of_reply hm htyp fun _ ↦ hout ▸ List.not_mem_nil
    obtain ⟨v, hv, rfl⟩ := Attribute.store_of_acknowledged hwrite hstores hrun htyp
    exact ⟨(a.store v).worker, _, a.value.stored, a.read.1, v,
      congrArg (Ran.mapState Attribute.worker) hreplied,
      storesWrites_worker ((Attribute.stores_store v a).mpr hstores), a.content_worker,
      a.reads_read, hv, (a.store v).content_worker.trans (by rw [Attribute.value_store]; rfl)⟩
  · have hpanic := Attribute.handleCall_panics io hwrite.interface_eq hinterface heq
    obtain ⟨t, out, hrun⟩ := reply_of_replyTo hm htyp fun _ ↦ hpanic ▸ List.not_mem_nil
    rw [hpanic] at hrun
    contradiction

end WorkerState

/-! ## What happens at a worker -/

/-- A turn, and what is sent in it. -/
abbrev Entry := (Io × Input) × List Out

/-- In the turn the chunk is written at the offset, and this is acknowledged. -/
def Entry.Writes (path : ObjectPath) (p : AttBytes × Nat) (e : Entry) : Prop :=
  ∃ (asked : Asked) (c : MethodCall path) (interface : String) (m : MarshalledMessage),
    e.1.2 = .call asked c.toMessage ∧ (interface = bluezChrIf ∨ interface = bluezDesIf) ∧
    Attribute.IsWrite interface p.1 p.2 c ∧ .reply m ∈ e.2 ∧ m.typ = .reply

/-- The turns are the writes, in their order, and others that store nothing. -/
inductive Entry.Among (path : ObjectPath) : List (AttBytes × Nat) → List Entry → Prop
  | nil : Among path [] []
  | other {ps : List (AttBytes × Nat)} {e : Entry} {es : List Entry} (hreads : e.1.2.Reads)
      (h : Among path ps es) : Among path ps (e :: es)
  | write {p : AttBytes × Nat} {ps : List (AttBytes × Nat)} {e : Entry} {es : List Entry}
      (hwrites : e.Writes path p) (h : Among path ps es) : Among path (p :: ps) (e :: es)

namespace Worker

variable {worker worker' : Worker} {t : Io × Input} {ts : List (Io × Input)}
  {log : List Entry}

/-- The worker of the path stores what is written. -/
structure Willing (path : ObjectPath) (worker : Worker) : Prop where
  path : worker.path = path
  storesWrites : worker.state.StoresWrites

theorem Willing.turn (hpath : path ≠ .root) (hrouted : t.2.Routed path) (h : worker.Willing path)
    (hturn : (behaviour filter).turn worker t = some (out, worker')) : worker'.Willing path := by
  obtain ⟨-, ran, hran, -, rfl⟩ := behaviour_turn_iff.mp hturn
  obtain ⟨hpath', -, ⟨flow, out', hdone⟩ | ⟨hsame, -⟩⟩ := after_spec worker worker.queue ran
  · refine ⟨hpath'.trans h.path, ?_⟩
    rw [h.path] at hran
    exact WorkerState.storesWrites_of_turn hpath hrouted (hran.trans (congrArg some hdone))
      h.storesWrites
  · exact ⟨hpath'.trans h.path, hsame ▸ h.storesWrites⟩

/-- A write that is acknowledged puts the chunk at its place. -/
theorem stores_of_write {p : AttBytes × Nat} (h : worker.Willing path)
    (hturn : (behaviour filter).turn worker t = some (out, worker'))
    (hwrites : Entry.Writes path p (t, out)) :
    ∃ content old v, worker.state.content = some content ∧ content.Reads old ∧
      v.bytes = old.bytes.take p.2 ++ p.1.bytes ∧ worker'.Stores path (.inl v) := by
  obtain ⟨io, input⟩ := t
  obtain ⟨asked, c, interface, m, rfl, hinterface, hwrite, hm, htyp⟩ := hwrites
  obtain ⟨-, ran, hran, rfl, rfl⟩ := behaviour_turn_iff.mp hturn
  rw [h.path] at hran
  obtain rfl := Option.some.inj hran
  obtain ⟨s', out, content, old, v, hdone, -, hcontent, hreads, hv, hstored⟩ :=
    WorkerState.content_of_write h.storesWrites hinterface hwrite hm htyp
  refine ⟨content, old, v, hcontent, hreads, hv, ?_, ?_⟩
  · exact (after_spec worker worker.queue _).1.trans h.path
  · rw [hdone]
    exact hstored

open Attribute (placed bytesOf)

/-- The chunks are put behind what is stored, whatever else happens. -/
theorem stores_of_among {v : AttBytes} {chunks : List AttBytes} (hpath : path ≠ .root)
    (hrouted : ∀ t ∈ ts, t.2.Routed path)
    (hamong : Entry.Among path (placed v.bytes.length chunks) log)
    (h : (behaviour filter).told worker ts = some (log, worker')) (hwilling : worker.Willing path)
    (hstores : worker.Stores path (.inl v)) :
    ∃ u : AttBytes, u.bytes = v.bytes ++ bytesOf chunks ∧ worker'.Stores path (.inl u) := by
  generalize hps : placed v.bytes.length chunks = ps at hamong
  induction hamong generalizing worker v chunks ts with
  | nil =>
      obtain rfl : [] = ts := Behaviour.map_fst_told h
      obtain ⟨-, rfl⟩ := Prod.mk.inj (Option.some.inj h)
      cases chunks with
      | nil => exact ⟨v, (List.append_nil _).symm, hstores⟩
      | cons chunk chunks => contradiction
  | @other ps e es hreads _ ih =>
      obtain ⟨ts', w, rfl, hturn, hrest⟩ := Behaviour.told_entry h
      obtain ⟨ht, hlater⟩ := List.forall_mem_cons.mp hrouted
      exact ih hlater hrest (hwilling.turn hpath ht hturn) (hstores.turn hpath ht hreads hturn) hps
  | @write p ps e es hwrites _ ih =>
      obtain ⟨ts', w, rfl, hturn, hrest⟩ := Behaviour.told_entry h
      obtain ⟨ht, hlater⟩ := List.forall_mem_cons.mp hrouted
      cases chunks with
      | nil => contradiction
      | cons chunk chunks =>
          obtain ⟨rfl, rfl⟩ := List.cons.inj hps
          obtain ⟨content, old, u, hcontent, hread, hu, hnow⟩ :=
            stores_of_write hwilling hturn hwrites
          obtain rfl : Sum.inl v = content := Option.some.inj (hstores.content.symm.trans hcontent)
          obtain rfl : old = v := hread
          rw [List.take_length] at hu
          have hlength : u.bytes.length = old.bytes.length + chunk.bytes.length := by
            rw [hu, List.length_append]
          obtain ⟨u', hu', hend⟩ := ih hlater hrest (hwilling.turn hpath ht hturn) hnow
            (congrArg (placed · chunks) hlength)
          refine ⟨u', ?_, hend⟩
          rw [hu', hu, List.append_assoc]
          rfl

/-- Whatever has been stored before, the chunks make up the value. -/
theorem stores_of_first {chunks : List AttBytes} (hpath : path ≠ .root)
    (hrouted : ∀ t ∈ ts, t.2.Routed path) (hne : chunks ≠ [])
    (hamong : Entry.Among path (placed 0 chunks) log)
    (h : (behaviour filter).told worker ts = some (log, worker')) (hwilling : worker.Willing path) :
    ∃ v : AttBytes, v.bytes = bytesOf chunks ∧ worker'.Stores path (.inl v) := by
  generalize hps : placed 0 chunks = ps at hamong
  induction hamong generalizing worker ts with
  | nil =>
      cases chunks with
      | nil => contradiction
      | cons chunk chunks => contradiction
  | @other ps e es hreads _ ih =>
      obtain ⟨ts', w, rfl, hturn, hrest⟩ := Behaviour.told_entry h
      obtain ⟨ht, hlater⟩ := List.forall_mem_cons.mp hrouted
      exact ih hlater hrest (hwilling.turn hpath ht hturn) hps
  | @write p ps e es hwrites hamong _ =>
      obtain ⟨ts', w, rfl, hturn, hrest⟩ := Behaviour.told_entry h
      obtain ⟨ht, hlater⟩ := List.forall_mem_cons.mp hrouted
      cases chunks with
      | nil => contradiction
      | cons chunk chunks =>
          obtain ⟨rfl, rfl⟩ := List.cons.inj hps
          obtain ⟨-, old, v, -, -, hv, hnow⟩ := stores_of_write hwilling hturn hwrites
          have hbytes : v.bytes = chunk.bytes := hv
          obtain rfl : v = chunk := by
            cases v
            cases chunk
            subst hbytes
            rfl
          rw [Nat.zero_add] at hamong
          exact stores_of_among hpath hlater hamong hrest (hwilling.turn hpath ht hturn) hnow

end Worker

/-! ## Runs -/

open Attribute (placed bytesOf)

/-- **What is written in chunks is kept.**  In a run of a registered application, let the chunks be
written to an attribute, each where the last one ended, and each of the writes be acknowledged.
If nothing else is stored from the first write on, then whoever reads the value later, by a message
or by a call, reads what the chunks make up. -/
theorem long_write_kept {self : Application} {bus : Bus} {app t : AppWorker} {es : List Event}
    (h : self.register bus = pure app) (hrun : Lts.Run AppWorker.RoutedStep app es t) {key : Key}
    {before : Worker} (hbefore : app.workers.lookup key = some before)
    (hstores : before.state.StoresWrites) :
    ∃ log : List Entry, log.map Prod.fst = Seen.turns (app.history key es) ∧
      (∃ worker, t.workers.lookup key = some worker ∧
        (Worker.behaviour app.filter).told before.alone (Seen.turns (app.history key es)) =
          some (log, worker.alone)) ∧
      ∀ (chunks : List AttBytes) (first writes later rest : List Entry) (e : Entry),
        log = first ++ writes ++ later ++ e :: rest → chunks ≠ [] →
        Entry.Among before.path (placed 0 chunks) writes → (∀ x ∈ later, x.1.2.Reads) →
          ∃ v : AttBytes, v.bytes = bytesOf chunks ∧ Tells (.inl v) before.path e.1 e.2 := by
  obtain ⟨worker, hworker, ⟨log, hlog⟩, -⟩ := AppWorker.runs_alone hrun.of_restrict hbefore
  refine ⟨log, Behaviour.map_fst_told hlog, ⟨worker, hworker, hlog⟩, ?_⟩
  rintro chunks first writes later rest e rfl hne hamong hlater
  have hroot : before.path ≠ .root := by
    refine Application.below_of_reachable h (.refl app) key before hbefore fun happ ↦ ?_
    cases hstate : before.state with
    | app s => rw [hstate] at hstores; contradiction
    | serv s | chrc s | desc s => rw [hstate] at happ; contradiction
  have hrouted := AppWorker.routed_of_mem_history hbefore hrun
  generalize Seen.turns (app.history key es) = ts at hlog hrouted
  obtain ⟨ts, us, u₃, rfl, hlog, hread⟩ := Behaviour.told_split hlog
  obtain ⟨ts, ts₃, u₂, rfl, hlog, hlater'⟩ := Behaviour.told_split hlog
  obtain ⟨ts₁, ts₂, u₁, rfl, hfirst, hwrites⟩ := Behaviour.told_split hlog
  simp only [List.forall_mem_append] at hrouted
  obtain ⟨⟨⟨hrouted₁, hrouted₂⟩, hrouted₃⟩, -⟩ := hrouted
  have hwilling : u₁.Willing before.path := by
    refine Behaviour.told_invariant (fun w t ht out w' hw hturn ↦ ?_) hfirst
      (⟨rfl, hstores⟩ : before.alone.Willing before.path)
    exact hw.turn hroot (hrouted₁ t ht) hturn
  obtain ⟨v, hv, hstored⟩ := Worker.stores_of_first hroot hrouted₂ hne hamong hwrites hwilling
  have hkept : u₃.Stores before.path (.inl v) := by
    refine Behaviour.told_invariant (fun w t ht out w' hw hturn ↦ ?_) hlater' hstored
    obtain ⟨x, hx, rfl⟩ := List.mem_map.mp (Behaviour.map_fst_told hlater' ▸ ht)
    exact hw.turn hroot (hrouted₃ _ ht) (hlater x hx) hturn
  obtain ⟨ts', w, -, hturn, -⟩ := Behaviour.told_entry hread
  exact ⟨v, hv, hkept.tells hturn⟩

/-- A worker that runs can be called. -/
theorem AppWorker.next_wake_call {self : AppWorker} {key : Key} {worker : Worker}
    (h : self.awake key = some worker) (io : Io) (asked : Asked) (msg : MarshalledMessage) :
    self.next (.wake key io (.call asked msg)) = some (self.put key
      (worker.after (worker.state.onCall io self.filter asked msg))) := by
  rw [next.eq_def]
  dsimp only
  rw [h, Option.bind_eq_bind, Option.bind_some]
  rfl

theorem AppWorker.sees_wake (self : AppWorker) (key : Key) (io : Io) (input : Input) :
    self.sees (.wake key io input) key = .turn (io, input) := if_pos rfl

theorem AppWorker.routed_wake_call {self : AppWorker} {key : Key} {worker : Worker}
    (h : self.workers.lookup key = some worker) (io : Io) (asked : Asked)
    (c : MethodCall worker.path) : self.Routed (.wake key io (.call asked c.toMessage)) := by
  rintro key' io' input worker' heq hworker' asked' msg rfl
  obtain ⟨rfl, -, hinput⟩ := Event.wake.inj heq
  obtain ⟨-, rfl⟩ := Input.call.inj hinput
  obtain rfl := Option.some.inj (hworker'.symm.trans h)
  exact ⟨c, rfl⟩

namespace Attribute

variable {a : Attribute} {c : MethodCall path}

/-- A chunk is written behind what the value begins with, and this is acknowledged. -/
theorem onCall_chunk (pre : List UInt8) {chunk : AttBytes}
    (hwrite : IsWrite a.interface chunk pre.length c) (hwritable : a.writable = true)
    (hstores : a.Stores) (hpre : pre <+: a.read.1.bytes) (hle : (pre ++ chunk.bytes).length ≤ 512)
    (hfilter : isMsgBluez c.toMessage filter = true) (asked : Asked) :
    a.worker.onCall {} filter asked c.toMessage =
      .done .next (a.store ⟨pre ++ chunk.bytes, hle⟩).worker
        [.reply c.toMessage.dynheader.makeResponse] := by
  have hrun : a.handleCall {} c.toMessage = .done _ (a.store ⟨pre ++ chunk.bytes, hle⟩) [] :=
    handleCall_chunk pre hwrite hwritable hstores hpre hle
  rw [onCall_worker, Turn.replyTo_passed hfilter, hrun]
  rfl

/-- A stored value is read. -/
theorem onCall_read {v : AttBytes} {offset : Nat} (hread : IsRead a.interface offset c)
    (hreadable : a.readable = true) (hvalue : a.value = .value v)
    (hfilter : isMsgBluez c.toMessage filter = true) (asked : Asked) :
    a.worker.onCall {} filter asked c.toMessage =
      .done .next a.worker [.reply (valueReply c.toMessage (v.bytes.drop offset))] := by
  have hrun : a.handleCall {} c.toMessage = .done _ a [] := handleCall_isRead hread hreadable hvalue
  rw [onCall_worker, Turn.replyTo_passed hfilter, hrun]
  rfl

/-- A call that reads. -/
def readCall (path : ObjectPath) (interface : String) (offset : UInt16) : MethodCall path where
  member := "ReadValue"
  interface := some interface
  body := [⟨sig Options, offsetOptions offset⟩]

theorem get_readCall (path : ObjectPath) (interface : String) (offset : UInt16) : ∃ options,
    (readCall path interface offset).body.get Options = .ok options ∧
      offsetOption options = offset.toNat := by
  obtain ⟨options, hread, hoffset⟩ := unmarshal_offsetOptions offset
  refine ⟨options, ?_, hoffset⟩
  rw [readCall, Body.get, Body.next_cons hread]
  rfl

end Attribute

/-- A turn with a call that asks no other worker. -/
def callTurn (c : MethodCall path) : Io × Input := ({}, .call (fun _ ↦ none) c.toMessage)

/-- The calls are taken one after the other, with what is sent in each turn. -/
inductive WorkerState.Takes (filter : Option String) (path : ObjectPath) :
    WorkerState → List (MethodCall path × List Out) → WorkerState → Prop
  | nil (s : WorkerState) : Takes filter path s [] s
  | cons {s s' s'' : WorkerState} {c : MethodCall path} {out : List Out}
      {cs : List (MethodCall path × List Out)}
      (hcall : s.onCall {} filter (fun _ ↦ none) c.toMessage = .done .next s' out)
      (h : Takes filter path s' cs s'') : Takes filter path s ((c, out) :: cs) s''

section Takes

variable {cs : List (MethodCall path × List Out)} {s s' : WorkerState}

theorem WorkerState.Takes.told (h : s.Takes filter path cs s') :
    (Worker.behaviour filter).told { state := s, path := path } (cs.map fun c ↦ callTurn c.1) =
      some (cs.map (fun c ↦ (callTurn c.1, c.2)), { state := s', path := path }) := by
  induction h with
  | nil s => rfl
  | @cons s s' s'' c out cs hcall _ ih =>
      refine Behaviour.told_cons_iff.mpr ⟨out, { state := s', path := path }, _, ?_, ih, rfl⟩
      exact Worker.behaviour_turn_iff.mpr ⟨rfl, _, congrArg some hcall, rfl, rfl⟩

/-- Calls that are taken can arrive one after the other. -/
theorem AppWorker.run_takes {app : AppWorker} {key : Key}
    (hawake : app.awake key = some { state := s, path := path })
    (h : s.Takes app.filter path cs s') : ∃ es t, Lts.Run RoutedStep app es t ∧
      Seen.turns (app.history key es) = cs.map fun c ↦ callTurn c.1 := by
  generalize hfilter : app.filter = filter at h
  induction h generalizing app with
  | nil s => exact ⟨[], app, .nil app, rfl⟩
  | @cons s s' s'' c out cs hcall _ ih =>
      have hnext : app.next (.wake key {} (.call (fun _ ↦ none) c.toMessage)) =
          some (app.put key { state := s', path := path }) := by
        rw [next_wake_call hawake, hfilter, hcall]
        rfl
      obtain ⟨es, t, hrun, hturns⟩ :=
        ih (awake_put hawake rfl : (app.put key { state := s', path := path }).awake key = _) hfilter
      refine ⟨.wake key {} (.call (fun _ ↦ none) c.toMessage) :: es, t,
        .cons ⟨hnext, routed_wake_call (lookup_of_awake hawake).1 {} _ c⟩ hrun, ?_⟩
      rw [history, Mailbox.history, hnext, Option.elim_some, sees_wake]
      exact congrArg (callTurn c :: ·) hturns

end Takes

/-- The characteristic of an application with one attribute of each kind. -/
def Application.chrcOfUuids : Attribute :=
  .chrc (ChrcData.start { uuid := ⟨2⟩, flags := { read := true, write := true } } 1)

theorem Application.lookup_chrcOfUuids {app : AppWorker}
    (h : (ofUuids ⟨1⟩ ⟨2⟩ ⟨3⟩).register .working = pure app) : ∃ path,
    app.workers.lookup (⟨1⟩, ⟨2⟩, 0) = some { state := chrcOfUuids.worker, path := path } := by
  have hinstalled := installed_of_register (distinct_ofUuids ..) nonZero_ofUuids h
  have hat := @At.chrc (ofUuids ⟨1⟩ ⟨2⟩ ⟨3⟩) 0 0 _ _ rfl rfl
  exact ⟨_, hinstalled.other (.chrc 0 0) (⟨1⟩, ⟨2⟩, 0) _ hat (by intro; contradiction)⟩

/-- A byte is written to the characteristic, which is introspected before a second one is written
behind it.  Both are read. -/
theorem long_write_kept_ofUuids : ∃ (app t : AppWorker) (es : List Event) (before after : Worker)
    (e₁ e₂ e₃ e₄ : Entry) (read : MethodCall before.path) (m : MarshalledMessage) (v : AttBytes)
    (options : Options),
    (Application.ofUuids ⟨1⟩ ⟨2⟩ ⟨3⟩).register .working = pure app ∧
    Lts.Run AppWorker.RoutedStep app es t ∧ app.workers.lookup (⟨1⟩, ⟨2⟩, 0) = some before ∧
    (Worker.behaviour app.filter).told before.alone
      (Seen.turns (app.history (⟨1⟩, ⟨2⟩, 0) es)) = some ([e₁, e₂, e₃, e₄], after) ∧
    e₁.Writes before.path (⟨[7], by decide⟩, 0) ∧ e₂.1.2.Reads ∧
    e₃.Writes before.path (⟨[8], by decide⟩, 1) ∧
    e₄ = (callTurn read, [.reply m]) ∧ read.toMessage.body.get Options = .ok options ∧
    m = valueReply read.toMessage (v.bytes.drop (offsetOption options)) ∧ v.bytes = [7, 8] := by
  obtain ⟨app, happ⟩ := Application.register_ofUuids ⟨1⟩ ⟨2⟩ ⟨3⟩
  obtain ⟨path, hbefore⟩ := Application.lookup_chrcOfUuids happ
  let a := Application.chrcOfUuids
  let write (chunk : AttBytes) (offset : UInt16) : MethodCall path :=
    { Attribute.writeCall path bluezChrIf chunk offset with sender := some bluezDest }
  let read : MethodCall path :=
    { Attribute.readCall path bluezChrIf 0 with sender := some bluezDest }
  have hwrite (chunk : AttBytes) (offset : UInt16) :
      Attribute.IsWrite bluezChrIf chunk offset.toNat (write chunk offset) :=
    ⟨rfl, rfl, get_writeBody chunk offset⟩
  have hread : Attribute.IsRead bluezChrIf 0 read :=
    ⟨rfl, rfl, Attribute.get_readCall path bluezChrIf 0⟩
  have hfilter {c : MethodCall path} (hsender : c.sender = some bluezDest) :
      isMsgBluez c.toMessage app.filter = true := isMsgBluez_of_sender hsender _
  let first : AttBytes := ⟨[7], by decide⟩
  let second : AttBytes := ⟨[8], by decide⟩
  let both : AttBytes := ⟨[7, 8], by decide⟩
  have hfirst := Attribute.onCall_chunk (a := a) [] (hwrite first 0) rfl rfl List.nil_prefix
    first.length_le (hfilter rfl) fun _ ↦ none
  have hintro : (a.store first).worker.onCall {} app.filter (fun _ ↦ none)
      (introspectCall path).toMessage = .done .next _ [.reply _] :=
    (WorkerState.onCall_intro _ rfl (hfilter rfl)).trans (Turn.replied_sendable rfl rfl _ [])
  have hsecond := Attribute.onCall_chunk (a := a.store first) [7] (hwrite second 1) rfl rfl
    (List.prefix_refl _) both.length_le (hfilter rfl) fun _ ↦ none
  have hboth := Attribute.onCall_read (a := (a.store first).store both) hread rfl rfl
    (hfilter rfl) fun _ ↦ none
  have htakes := WorkerState.Takes.cons hfirst (.cons hintro (.cons hsecond (.cons hboth (.nil _))))
  obtain ⟨es, t, hrun, hturns⟩ :=
    AppWorker.run_takes (AppWorker.awake_of_lookup hbefore rfl) htakes
  obtain ⟨log, hfst, ⟨worker, -, htold⟩, hkept⟩ := long_write_kept happ hrun hbefore rfl
  rw [hturns] at htold
  obtain ⟨rfl, -⟩ := Prod.mk.inj (Option.some.inj (htold.symm.trans htakes.told))
  have hwrites (chunk : AttBytes) (offset : UInt16) : Entry.Writes path
      (chunk, offset.toNat) (callTurn (write chunk offset),
        [.reply (write chunk offset).toMessage.dynheader.makeResponse]) :=
    ⟨_, write chunk offset, bluezChrIf, _, rfl, .inl rfl, hwrite chunk offset,
      List.mem_singleton_self _, rfl⟩
  have hreads : (callTurn (introspectCall path)).2.Reads :=
    ⟨(by decide : some "Introspect" ≠ some "WriteValue"), fun _ heq ↦ by contradiction⟩
  obtain ⟨v, hv, htells⟩ := hkept [first, second] [] [_, _, _] [] [] _ rfl (List.cons_ne_nil _ _)
    (.write (hwrites first 0) (.other hreads (.write (hwrites second 1) .nil)))
    fun _ hx ↦ absurd hx List.not_mem_nil
  obtain ⟨u, options, hu, hoptions, hm⟩ := htells.readValue _ read _ rfl rfl (.inl rfl)
    (List.mem_singleton_self _) rfl
  obtain rfl : u = v := hu
  exact ⟨app, t, es, _, _, _, _, _, _, read, _, u, options, happ, hrun, hbefore,
    hturns ▸ htold, hwrites first 0, hreads, hwrites second 1, rfl, hoptions, hm, hv⟩

end Rustable.Gatt.Server
