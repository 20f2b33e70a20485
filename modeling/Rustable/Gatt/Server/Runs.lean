import Rustable.Gatt.Server.Task
import Rustable.Lib.Lts

/-!
# Runs of one worker

The worker at a path takes one turn after another, each with something it has found, until
a turn ends it: because it has been told to unregister, or because something has failed.
Calls reach it with their object and their member, which is what `Found` takes for granted
and an `Input` does not.
-/

namespace Rustable.Gatt.Server

open DBus

/-- What the task of the worker at `path` finds when it is woken. -/
inductive Found (path : ObjectPath)
  | /-- A worker message. -/
    message (msg : WorkerMsg)
  | /-- Its channel, closed: nobody can send it messages any more. -/
    closed
  | /-- A D-Bus call. -/
    call (call : MethodCall path)
  | /-- The value of the notify callback's future. -/
    notified (shouldNot : ShouldNotify)
  | /-- What was read from the socket acquired for writing. -/
    written (res : Except IoError AttBytes)

variable {path : ObjectPath} {σ τ ε : Type}

/-- One turn of a characteristic with what it has found, if it waits for that. -/
def ChrcData.turn (io : Io) (filter : Option String) :
    Found path → ChrcData → Option (Ran Stop Out ChrcData Flow)
  | .message msg, s => some (onMsg io path msg s)
  | .closed, _ => some (.stop (.error .threadClosed) [])
  | .call call, s => some (onCall io filter call.toMessage s)
  | .notified shouldNot, s => some (onNotifyFuture io path shouldNot s)
  | .written res, s => if s.writeFd.isSome then some (onWrite io path res s) else none

/-- One turn of the worker of an attribute with what it has found, if it waits for that.
Attributes do not ask others for their objects. -/
def WorkerState.found (io : Io) (filter : Option String) :
    Found path → WorkerState → Option (Ran Stop Out WorkerState Flow)
  | .message msg, s => s.turn io path filter (.message msg)
  | .closed, _ => some (.stop (.error .threadClosed) [])
  | .call call, s => s.turn io path filter (.call (fun _ ↦ none) call.toMessage)
  | .notified shouldNot, s => s.turn io path filter (.notified shouldNot)
  | .written res, s => s.turn io path filter (.written res)

/-! ## Tasks -/

/-- The task of a worker with the state `σ`. -/
inductive Task (σ : Type)
  | /-- It waits for its next turn. -/
    running (s : σ)
  | /-- It has been told to unregister. -/
    finished (s : σ)
  | /-- It has ended before its time. -/
    failed (why : Stop)

/-- The task after a turn. -/
def Task.ofRan : Ran Stop Out σ Flow → Task σ
  | .done .next s _ => .running s
  | .done .done s _ => .finished s
  | .stop why _ => .failed why

/-- The steps of a task: turns with what it waits for, as long as it runs. -/
def Task.Step (turn : ε → σ → Option (Ran Stop Out σ Flow)) : Task σ → ε → Task σ → Prop
  | running s, e, t => ∃ ran, turn e s = some ran ∧ t = ofRan ran
  | finished _, _, _ | failed _, _, _ => False

/-- The state of a task that runs, or that has ended as it should. -/
def Task.state? : Task σ → Option σ
  | running s | finished s => some s
  | failed _ => none

/-- What every turn keeps holds of the states of a task that starts in such a state. -/
theorem Task.invariant {turn : ε → σ → Option (Ran Stop Out σ Flow)} {I : σ → Prop}
    (hturn : ∀ e s flow s' out, I s → turn e s = some (.done flow s' out) → I s') {s : σ}
    {t : Task σ} (h : Lts.Reachable (Step turn) (running s) t) (hs : I s) :
    ∀ s', t.state? = some s' → I s' := by
  refine @Lts.Reachable.invariant _ _ _ _ _ (fun t ↦ ∀ s', t.state? = some s' → I s') ?_ h ?_
  · intro t e u ht hstep s' hs'
    cases t with
    | finished | failed => contradiction
    | running s =>
        obtain ⟨ran, hran, rfl⟩ := hstep
        cases ran with
        | stop why out => contradiction
        | done flow v out =>
            obtain rfl : v = s' := by cases flow <;> exact Option.some.inj hs'
            exact hturn e s flow v out (ht s rfl) hran
  · intro s' hs'
    obtain rfl := Option.some.inj hs'
    exact hs

end Rustable.Gatt.Server
