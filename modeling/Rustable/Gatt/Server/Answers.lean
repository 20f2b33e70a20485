import Rustable.Gatt.Server.Frames

/-!
# Answers to messages

Somebody who asks a worker sends a message with one end of a one-time channel in it, and waits at
the other end.  A turn with a message that asks sends one answer into its channel, of the kind
that is asked for, or none if the worker stops or nobody waits any more.  All other turns answer
nobody.  So in any run the answers of a worker are to the messages it has received, in their
order and each at most once; and if everybody waits and the worker still runs, everybody who has
been received has an answer (`answered_once`).
-/

namespace Rustable.Gatt.Server

open DBus Mailbox

/-! ## The answers to a message -/

/-- Who asks with the message. -/
def WorkerMsg.asker : WorkerMsg → Option ReplyTo
  | get sender | getHandle sender | notifying sender | notifyAcquired sender
  | notifyingSignal sender | objMgr sender => some sender
  | unregister | update _ _ | notify _ | includedPaths _ => none

/-- The message asks for something. -/
abbrev WorkerMsg.asks (msg : WorkerMsg) : Bool := msg.asker.isSome

/-- What the worker at the path can answer to a message, and whom. -/
inductive WorkerMsg.Fits (path : ObjectPath) : WorkerMsg → ReplyTo × Answer → Prop
  | get (sender : ReplyTo) (v : AttBytes) : Fits path (.get sender) (sender, .value v)
  | getHandle (sender : ReplyTo) (h : NonZeroU16) :
      Fits path (.getHandle sender) (sender, .handle h)
  | notifying (sender : ReplyTo) (b : Bool) : Fits path (.notifying sender) (sender, .flag b)
  | notifyAcquired (sender : ReplyTo) (b : Bool) :
      Fits path (.notifyAcquired sender) (sender, .flag b)
  | notifyingSignal (sender : ReplyTo) (b : Bool) :
      Fits path (.notifyingSignal sender) (sender, .flag b)
  | objMgr (sender : ReplyTo) (map : IfAndProps) :
      Fits path (.objMgr sender) (sender, .objects path map)

theorem WorkerMsg.Fits.asks {path : ObjectPath} {msg : WorkerMsg} {a : ReplyTo × Answer}
    (h : msg.Fits path a) : msg.asks = true := by
  cases h <;> rfl

/-- The answers among the outputs. -/
abbrev answers (out : List Out) : List (ReplyTo × Answer) := out.filterMap Out.answer?

/-- The outputs answer some of the messages, in their order and each of them once; and all that
ask for something, if the condition holds. -/
def AnswersTo (path : ObjectPath) (msgs : List WorkerMsg) (out : List Out) (all : Prop) : Prop :=
  ∃ served, served.Sublist msgs ∧ served.Forall₂ (WorkerMsg.Fits path) (answers out) ∧
    (all → served = msgs.filter WorkerMsg.asks)

namespace AnswersTo

variable {path : ObjectPath} {msgs msgs' : List WorkerMsg} {out out' : List Out} {all all' : Prop}

/-- Nobody is answered, and nobody needs to be. -/
theorem silent (hout : ∀ o ∈ out, o.answer? = none) (hall : all → msgs.filter WorkerMsg.asks = []) :
    AnswersTo path msgs out all := by
  refine ⟨[], List.nil_sublist msgs, ?_, fun h ↦ (hall h).symm⟩
  rw [answers, List.filterMap_eq_nil_iff.mpr hout]
  exact .nil

/-- The message is answered. -/
theorem one {msg : WorkerMsg} {sender : ReplyTo} {a : Answer} (h : msg.Fits path (sender, a)) :
    AnswersTo path [msg] [.answer sender a] all := by
  refine ⟨[msg], List.Sublist.refl _, .cons h .nil, fun _ ↦ ?_⟩
  exact (List.filter_cons_of_pos (l := []) h.asks).symm

/-- Some messages and then others. -/
theorem append (h : AnswersTo path msgs out all) (h' : AnswersTo path msgs' out' all') :
    AnswersTo path (msgs ++ msgs') (out ++ out') (all ∧ all') := by
  obtain ⟨served, hsub, hfits, hall⟩ := h
  obtain ⟨served', hsub', hfits', hall'⟩ := h'
  refine ⟨served ++ served', hsub.append hsub', ?_, fun ⟨h, h'⟩ ↦ ?_⟩
  · rw [answers, List.filterMap_append]
    exact List.rel_append hfits hfits'
  · rw [List.filter_append, hall h, hall' h']

/-- Nothing is sent, and nobody waits. -/
theorem nothing (hall : ¬all) : AnswersTo path msgs [] all :=
  silent (fun _ ho ↦ absurd ho List.not_mem_nil) fun h ↦ absurd h hall

/-- Nobody asks without a message. -/
theorem of_nil (h : AnswersTo path [] out all) : AnswersTo path [] out all' := by
  obtain ⟨served, hsub, hfits, -⟩ := h
  exact ⟨served, hsub, hfits, fun _ ↦ List.sublist_nil.mp hsub⟩

theorem imp (h : AnswersTo path msgs out all) (himp : all' → all) :
    AnswersTo path msgs out all' := by
  obtain ⟨served, hsub, hfits, hall⟩ := h
  exact ⟨served, hsub, hfits, fun h ↦ hall (himp h)⟩

end AnswersTo

/-! ## A turn -/

section Turns

variable {σ τ α : Type} {io : Io} {path : ObjectPath} {filter : Option String}

/-- The turn serves the messages it has taken: whoever asks and waits is answered, if the worker
does not stop. -/
def ServesTurn (io : Io) (path : ObjectPath) (msgs : List WorkerMsg)
    (ran : Ran Stop Out σ Flow) : Prop :=
  AnswersTo path msgs ran.out (io.receiverAlive = true ∧ ∃ flow s out, ran = .done flow s out)

theorem ServesTurn.mapState {msgs : List WorkerMsg} {ran : Ran Stop Out σ Flow}
    (h : ServesTurn io path msgs ran) (f : σ → τ) : ServesTurn io path msgs (ran.mapState f) := by
  cases ran with
  | stop why out =>
      refine h.imp ?_
      rintro ⟨-, flow, s, out', hstop⟩
      contradiction
  | done flow s out => exact h.imp fun ⟨halive, _⟩ ↦ ⟨halive, flow, s, out, rfl⟩

/-- A worker that stops at once answers nobody. -/
theorem ServesTurn.stop {msgs : List WorkerMsg} (why : Stop) :
    ServesTurn io path msgs (.stop why [] : Ran Stop Out σ Flow) := by
  refine AnswersTo.nothing ?_
  rintro ⟨-, flow, s, out, hstop⟩
  contradiction

/-- An action that answers nobody. -/
abbrev Silent (x : Turn σ α) : Prop := x.Keeps (fun _ ↦ ()) fun o : Out ↦ o.answer? = none

theorem Silent.servesTurn {x : Turn σ Flow} (hx : Silent x) {msgs : List WorkerMsg}
    (hmsgs : msgs.filter WorkerMsg.asks = []) (s : σ) : ServesTurn io path msgs (x s) :=
  .silent (hx.sends s) fun _ ↦ hmsgs

/-- The answer is sent if somebody waits, and nothing else; then the worker goes on. -/
structure Sends (io : Io) (sender : ReplyTo) (a : Answer) (x : Turn σ Flow) : Prop where
  alive : io.receiverAlive = true → ∀ s, x s = .done .next s [.answer sender a]
  dead : io.receiverAlive = false → ∀ s, (x s).out = []

theorem sends_answer (sender : ReplyTo) (a : Answer) :
    Sends io sender a (do Turn.answer io sender a; return Flow.next : Turn σ Flow) where
  alive halive s := by
    rw [Turn.answer_eq halive]
    rfl
  dead hdead s := by
    rw [Turn.answer, hdead]
    rfl

theorem sends_answerOrStop (sender : ReplyTo) (a : Answer) :
    Sends io sender a (do Turn.answerOrStop io sender a; return Flow.next : Turn σ Flow) where
  alive halive s := by
    rw [Turn.answerOrStop_eq halive]
    rfl
  dead hdead s := by
    rw [Turn.answerOrStop, hdead]
    rfl

theorem keeps_read {P : Out → Prop} : (Act.read : Turn σ σ).Keeps (fun _ ↦ ()) P :=
  fun _ ↦ ⟨trivial, rfl, fun _ ho ↦ absurd ho List.not_mem_nil⟩

/-- What is computed without any output is sent as the answer. -/
theorem servesTurn_answer {x : Turn σ α} (hx : x.Keeps (fun _ ↦ ()) fun _ ↦ False)
    {msg : WorkerMsg} {sender : ReplyTo} {a : α → Answer} {f : α → Turn σ Flow}
    (hsend : ∀ v, Sends io sender (a v) (f v)) (hfits : ∀ v, msg.Fits path (sender, a v)) (s : σ) :
    ServesTurn io path [msg] ((x >>= f) s) := by
  have hnothing : (x s).out = [] := List.eq_nil_iff_forall_not_mem.mpr (hx.sends s)
  cases hrun : x s with
  | stop why out =>
      rw [hrun] at hnothing
      obtain rfl : out = [] := hnothing
      rw [Act.bind_apply, hrun]
      exact .stop _
  | done v t out =>
      rw [hrun] at hnothing
      obtain rfl : out = [] := hnothing
      rw [Act.bind_done hrun]
      cases halive : io.receiverAlive with
      | true =>
          rw [(hsend v).alive halive]
          exact .one (hfits v)
      | false =>
          have hdead : (f v t).out = [] := (hsend v).dead halive t
          rw [ServesTurn, hdead]
          exact AnswersTo.nothing fun h ↦ Bool.false_ne_true (halive.symm.trans h.1)

theorem keeps_part {x : MayPanic τ α} (view : σ → τ) (put : σ → τ → σ) {P : Out → Prop} :
    (Turn.onPart view put x).Keeps (fun _ ↦ ()) P := keeps_onPart fun _ _ _ _ ↦ rfl

/-- The turn of any worker with a message. -/
theorem ChrcData.servesTurn (msg : WorkerMsg) (s : ChrcData) :
    ServesTurn io path [msg] (onMsg io path msg s) := by
  have hfixed : Fixed fun _ ↦ () :=
    ⟨fun _ _ ↦ rfl, fun _ _ ↦ rfl, fun _ _ ↦ rfl, fun _ _ ↦ rfl, fun _ _ ↦ rfl, fun _ _ ↦ rfl⟩
  cases msg with
  | unregister => exact Silent.servesTurn (.pure trivial) rfl s
  | update vf notify =>
      refine Silent.servesTurn (.seq (.modify (fun _ ↦ rfl) trivial) fun _ ↦ ?_) rfl s
      exact .seq (keeps_notifyIf hfixed (fun _ ho ↦ ho) notify) fun _ ↦ .pure trivial
  | objMgr sender =>
      exact servesTurn_answer (keeps_part _ _) (fun map ↦ sends_answer sender _) (.objMgr sender) s
  | get sender =>
      exact servesTurn_answer (keeps_toValue hfixed) (fun v ↦ sends_answer sender _) (.get sender) s
  | getHandle sender =>
      rw [onMsg, Act.read_bind]
      exact servesTurn_answer (Act.Keeps.unwrap _ _) (fun h ↦ sends_answer sender _)
        (.getHandle sender) s
  | notify optAtt =>
      refine Silent.servesTurn (.seq (keeps_sendNotification hfixed (fun _ ho ↦ ho) optAtt) ?_)
        rfl s
      exact fun _ ↦ .pure trivial
  | notifying sender =>
      exact servesTurn_answer keeps_read (fun _ ↦ sends_answer sender _) (fun _ ↦ .notifying ..) s
  | notifyAcquired sender =>
      exact servesTurn_answer keeps_read (fun _ ↦ sends_answer sender _)
        (fun _ ↦ .notifyAcquired ..) s
  | notifyingSignal sender =>
      exact servesTurn_answer keeps_read (fun _ ↦ sends_answer sender _)
        (fun _ ↦ .notifyingSignal ..) s
  | includedPaths paths => exact Silent.servesTurn (.stop trivial) rfl s

theorem Descriptor.servesTurn (msg : WorkerMsg) (s : Descriptor) :
    ServesTurn io path [msg] (onMsg io path msg s) := by
  cases msg with
  | unregister => exact Silent.servesTurn (.pure trivial) rfl s
  | update vf notify =>
      refine Silent.servesTurn (.seq (.modify (fun _ ↦ rfl) trivial) fun _ ↦ ?_) rfl s
      exact .pure trivial
  | get sender =>
      exact servesTurn_answer (.embed (fun _ ↦ rfl) fun _ ↦ trivial)
        (fun v ↦ sends_answerOrStop sender _) (.get sender) s
  | getHandle sender =>
      rw [onMsg, Act.read_bind]
      exact servesTurn_answer (Act.Keeps.unwrap _ _) (fun h ↦ sends_answerOrStop sender _)
        (.getHandle sender) s
  | objMgr sender =>
      exact servesTurn_answer (keeps_part _ _) (fun map ↦ sends_answerOrStop sender _)
        (.objMgr sender) s
  | notify | notifying | notifyAcquired | notifyingSignal | includedPaths =>
      exact .stop _

theorem ServWorker.servesTurn (msg : WorkerMsg) (s : ServWorker) :
    ServesTurn io path [msg] (onMsg io path msg s) := by
  cases msg with
  | unregister => exact Silent.servesTurn (.pure trivial) rfl s
  | includedPaths paths =>
      refine Silent.servesTurn (.seq (.modify (fun _ ↦ rfl) trivial) fun _ ↦ ?_) rfl s
      exact .pure trivial
  | getHandle sender =>
      rw [onMsg, Act.read_bind]
      exact servesTurn_answer (Act.Keeps.unwrap _ _) (fun h ↦ sends_answerOrStop sender _)
        (.getHandle sender) s
  | objMgr sender =>
      exact servesTurn_answer (keeps_part _ _) (fun map ↦ sends_answerOrStop sender _)
        (.objMgr sender) s
  | update | get | notify | notifying | notifyAcquired | notifyingSignal =>
      exact .stop _

theorem AppLoop.servesTurn (msg : WorkerMsg) (s : AppLoop) :
    ServesTurn io path [msg] (onMsg msg s) := by
  cases msg with
  | unregister => exact Silent.servesTurn (.pure trivial) rfl s
  | update | get | getHandle | notify | notifying | notifyAcquired | notifyingSignal
  | includedPaths | objMgr => exact .stop _

/-- The dispatcher of an application answers nobody. -/
theorem WorkerData.silent_handleCall (asked : Asked) (call : MarshalledMessage) :
    Silent (handleCall asked call) := by
  refine .seq (Act.Keeps.unwrap _ _) fun interface ↦ .ite (fun _ ↦ ?_) fun _ ↦ .ite (fun _ ↦ ?_) ?_
  · exact .read fun _ ↦ .pure trivial
  · refine .read fun self ↦ .seq (Act.Keeps.unwrap _ _) fun objects ↦ ?_
    exact .seq (Act.Keeps.unwrap _ _) fun body ↦ .pure trivial
  · exact fun _ ↦ .stop trivial

/-- **A turn answers whoever asks with the message it has taken**, and nobody else. -/
theorem WorkerState.servesTurn {s : WorkerState} {input : Input}
    {ran : Ran Stop Out WorkerState Flow} (h : s.turn io path filter input = some ran) :
    ServesTurn io path ((Worker.behaviour filter).takes (io, input)).toList ran := by
  have hfixed : ChrcData.Fixed fun _ ↦ () :=
    ⟨fun _ _ ↦ rfl, fun _ _ ↦ rfl, fun _ _ ↦ rfl, fun _ _ ↦ rfl, fun _ _ ↦ rfl, fun _ _ ↦ rfl⟩
  have hsilent : ∀ o : Out, o.answer? = none → o.answer? = none := fun _ ho ↦ ho
  cases input with
  | message msg =>
      obtain rfl := Option.some.inj h
      cases s with
      | app s => exact (AppLoop.servesTurn msg s).mapState app
      | serv s => exact (ServWorker.servesTurn msg s).mapState serv
      | chrc s => exact (ChrcData.servesTurn msg s).mapState chrc
      | desc s => exact (Descriptor.servesTurn msg s).mapState desc
  | call asked msg =>
      obtain rfl := Option.some.inj h
      cases s with
      | app s =>
          refine (ServesTurn.mapState ?_ (fun appData ↦ { s with appData := appData })).mapState app
          rw [WorkerData.handleApp, Act.read_bind]
          have hcall : Silent (Turn.replyTo io s.appData.filter msg
              (WorkerData.handleCall asked msg)) :=
            keeps_replyTo hsilent (WorkerData.silent_handleCall asked msg)
          exact hcall.servesTurn rfl s.appData
      | serv s =>
          have hcall : Silent (ServWorker.onCall io filter msg) :=
            keeps_replyTo hsilent (keeps_part _ _)
          exact (hcall.servesTurn rfl s).mapState serv
      | chrc s =>
          have hcall : Silent (ChrcData.onCall io filter msg) :=
            keeps_replyTo hsilent (ChrcData.keeps_handleCall hfixed hsilent fun _ _ _ _ ↦ rfl)
          exact (hcall.servesTurn rfl s).mapState chrc
      | desc s =>
          have hcall : Silent (Descriptor.onCall io filter msg) :=
            keeps_replyTo hsilent (keeps_part _ _)
          exact (hcall.servesTurn rfl s).mapState desc
  | notified shouldNot =>
      cases s with
      | app | serv | desc => contradiction
      | chrc s =>
          obtain rfl := Option.some.inj h
          have hnotified : Silent (ChrcData.onNotifyFuture io path shouldNot) :=
            ChrcData.keeps_onNotifyFuture hfixed hsilent shouldNot
          exact (hnotified.servesTurn rfl s).mapState chrc
  | written res =>
      cases s with
      | app | serv | desc => contradiction
      | chrc s =>
          rw [turn] at h
          split at h
          · obtain rfl := Option.some.inj h
            have hwritten : Silent (ChrcData.onWrite io path res) :=
              ChrcData.keeps_onWrite hfixed hsilent res
            exact (hwritten.servesTurn rfl s).mapState chrc
          · contradiction

end Turns

/-! ## Runs -/

/-- Whoever has asked with a message that is received still waits. -/
def Waited (turns : List (Io × Input)) : Prop :=
  ∀ io msg, (io, Input.message msg) ∈ turns → io.receiverAlive = true

/-- A worker that runs after a turn has not stopped in it. -/
theorem Worker.done_of_running {worker : Worker} {ran : Ran Stop Out WorkerState Flow}
    (h : (worker.after ran).running = true) : ∃ flow s out, ran = .done flow s out := by
  cases ran with
  | stop why out => contradiction
  | done flow s out => exact ⟨flow, s, out, rfl⟩

/-- **A worker answers the messages it takes**, in turns one after another. -/
theorem Worker.serves_told {filter : Option String} {worker worker' : Worker}
    {turns : List (Io × Input)} {log : List ((Io × Input) × List Out)}
    (h : (behaviour filter).told worker turns = some (log, worker')) :
    AnswersTo worker.path (turns.filterMap (behaviour filter).takes) (log.flatMap Prod.snd)
      (Waited turns ∧ worker'.running = true) := by
  induction turns generalizing worker log with
  | nil =>
      obtain ⟨rfl, rfl⟩ := Prod.mk.inj (Option.some.inj h)
      exact .silent (fun _ ho ↦ absurd ho List.not_mem_nil) fun _ ↦ rfl
  | cons t ts ih =>
      obtain ⟨out, u, rest, hturn, hrest, rfl⟩ := Behaviour.told_cons_iff.mp h
      have hpath : u.path = worker.path := (same_of_turn hturn).1
      obtain ⟨-, ran, hran, rfl, rfl⟩ := behaviour_turn_iff.mp hturn
      have hrunning (hworker' : worker'.running = true) : (worker.after ran).running = true := by
        cases ts with
        | nil =>
            obtain ⟨-, rfl⟩ := Prod.mk.inj (Option.some.inj hrest)
            exact hworker'
        | cons t' ts => exact running_of_told hrest
      have hfirst : AnswersTo worker.path ((behaviour filter).takes t).toList ran.out
          (Waited (t :: ts) ∧ worker'.running = true) := by
        obtain ⟨io, input⟩ := t
        cases input with
        | message msg =>
            refine (WorkerState.servesTurn hran).imp fun ⟨hwaited, hworker'⟩ ↦ ⟨?_, ?_⟩
            · exact hwaited io msg List.mem_cons_self
            · exact done_of_running (hrunning hworker')
        | call | notified | written => exact (WorkerState.servesTurn hran).of_nil
      have htakes : (t :: ts).filterMap (behaviour filter).takes =
          ((behaviour filter).takes t).toList ++ ts.filterMap (behaviour filter).takes := by
        rw [List.filterMap_cons]
        cases (behaviour filter).takes t with
        | none | some => rfl
      rw [htakes, List.flatMap_cons]
      refine (hfirst.append (hpath ▸ ih hrest)).imp fun h ↦ ⟨h, fun io msg hmsg ↦ ?_, h.2⟩
      exact h.1 io msg (List.mem_cons_of_mem t hmsg)

/-- **Every question is answered once.**  In any run, what a worker answers are answers to
messages that were in its channel or were sent to it, of the kind that was asked for, in the order
of the messages and at most one to each.  If whoever has asked still waits and the worker still
runs, all that were asked have been answered but those in its channel. -/
theorem answered_once {app t : AppWorker} {es : List Event} (hrun : Lts.Run AppWorker.Step app es t)
    {key : Key} {before : Worker} (hbefore : app.workers.lookup key = some before) :
    ∃ worker log served, t.workers.lookup key = some worker ∧
      (Worker.behaviour app.filter).told before.alone (Seen.turns (app.history key es)) =
        some (log, worker.alone) ∧
      served.Forall₂ (WorkerMsg.Fits before.path) (answers (log.flatMap Prod.snd)) ∧
      served.Sublist (before.queue ++ Seen.sents (app.history key es)) ∧
      (Waited (Seen.turns (app.history key es)) → worker.running = true →
        served ++ worker.queue.filter WorkerMsg.asks =
          (before.queue ++ Seen.sents (app.history key es)).filter WorkerMsg.asks) := by
  obtain ⟨worker, hworker, ⟨log, hlog⟩, hqueue⟩ := AppWorker.runs_alone hrun hbefore
  obtain ⟨served, hsub, hfits, hall⟩ := Worker.serves_told hlog
  refine ⟨worker, log, served, hworker, hlog, hfits, ?_, fun hwaited hrunning ↦ ?_⟩
  · exact hqueue ▸ hsub.trans (List.sublist_append_left ..)
  · rw [← hqueue, List.filter_append, hall ⟨hwaited, hrunning⟩]

/-- It holds of the run in which a characteristic is updated and asked. -/
theorem answered_once_ofUuids : ∃ (app t : AppWorker) (es : List Event) (before worker : Worker)
    (log : List ((Io × Input) × List Out)) (served : List WorkerMsg),
    (Application.ofUuids ⟨1⟩ ⟨2⟩ ⟨3⟩).register .working = pure app ∧
    Lts.Run AppWorker.Step app es t ∧
    Seen.sents (app.history (⟨1⟩, ⟨2⟩, 0) es) = [.update (.value .empty) false, .get 7] ∧
    app.workers.lookup (⟨1⟩, ⟨2⟩, 0) = some before ∧
    t.workers.lookup (⟨1⟩, ⟨2⟩, 0) = some worker ∧
    (Worker.behaviour app.filter).told before.alone
      (Seen.turns (app.history (⟨1⟩, ⟨2⟩, 0) es)) = some (log, worker.alone) ∧
    served.Forall₂ (WorkerMsg.Fits before.path) (answers (log.flatMap Prod.snd)) ∧
    served = [.get 7] := by
  obtain ⟨app, happ⟩ := Application.register_ofUuids ⟨1⟩ ⟨2⟩ ⟨3⟩
  obtain ⟨s, path, hbefore⟩ := Application.lookup_chrc_ofUuids happ
  obtain ⟨es, t, worker, hrun, hworker, hqueue, hsents, hturns, hrunning, -⟩ :=
    AppWorker.update_get (AppWorker.awake_of_lookup hbefore rfl) .empty 7
  obtain ⟨worker', log, served, hworker', hlog, hfits, -, hall⟩ :=
    answered_once hrun.of_restrict hbefore
  obtain rfl := Option.some.inj (hworker.symm.trans hworker')
  have hwaited : Waited (Seen.turns (app.history (⟨1⟩, ⟨2⟩, 0) es)) := by
    rw [hturns]
    intro io msg hmem
    rcases List.mem_cons.mp hmem with heq | hmem
    · obtain ⟨rfl, -⟩ := Prod.mk.inj heq
      rfl
    · obtain ⟨rfl, -⟩ := Prod.mk.inj (List.mem_singleton.mp hmem)
      rfl
  have hserved := hall hwaited hrunning
  rw [hsents, hqueue, List.filter_nil, List.append_nil] at hserved
  exact ⟨app, t, es, _, worker, log, served, happ, hrun.of_restrict, hsents, hbefore, hworker, hlog,
    hfits, hserved⟩

end Rustable.Gatt.Server
