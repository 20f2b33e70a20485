import Rustable.Gatt.Server.Plumbing

/-!
# Datagrams and hang-ups

A read of nothing says little: an empty datagram looks like the end of the stream, and
`check_for_write` tells them apart by asking whether the peer has hung up.  But it asks
after the read.  If an empty datagram has been read and the peer has closed the socket by
the time it is asked, the datagram is `TakenForHangUp`: it never reaches the write
callback, and neither does what is still queued behind it.

In all other cases `Delivers` holds: the turns find what the peers have sent, each datagram
once and in order, and a socket is released when nothing is left in it.
-/

namespace Rustable.Gatt.Server.EventLoop

open DBus

variable {path : ObjectPath} {filter : Option String} {s t : State path} {p : Place path}

/-- The datagrams that have been taken from a socket, as the worker reads them. -/
def Sock.values (sock : Sock) : List AttBytes := sock.datagrams.seen.map sock.value

namespace State

/-- The sockets that have been acquired, in order. -/
def socks (s : State path) : List Sock := s.released ++ s.sock.toList

/-- The worker has read nothing, and is about to ask whether the peer has hung up. -/
def asks (s : State path) : Bool :=
  match s.phase with
  | .polling _ (.op .isHungUp _) => true
  | _ => false

/-- The worker is about to ask whether the peer has hung up, which it has, and a datagram has
been taken that no turn has found. -/
def TakenForHangUp (s : State path) : Prop :=
  s.asks = true ∧ s.sock.any (·.closed) = true ∧
    (s.log.flatMap Found.values).length < (s.socks.flatMap Sock.values).length

instance (s : State path) : Decidable s.TakenForHangUp := inferInstanceAs (Decidable (_ ∧ _ ∧ _))

/-- The task does not ask whether the peer has hung up when it has with a datagram in its
hands. -/
def TellsApart (s : State path) : Event path → Prop
  | .work _ => ¬ s.TakenForHangUp
  | .message _ | .dropSenders | .call _ | .datagram _ | .hangUp | .resolve _ _ => True

instance (s : State path) : ∀ e, Decidable (s.TellsApart e)
  | .work _ => inferInstanceAs (Decidable (¬ s.TakenForHangUp))
  | .message _ | .dropSenders | .call _ | .datagram _ | .hangUp | .resolve _ _ => .isTrue trivial

/-- The turns have found the datagrams of the sockets, and nothing is left in those that are
released. -/
structure Delivers (s : State path) (p : Place path) : Prop where
  values : (s.taken p).flatMap Found.values = s.socks.flatMap Sock.values
  released : ∀ sock ∈ s.released, sock.closed = true ∧ sock.datagrams.queue = []
  gone : ∀ data, p = .poll data (.ready (gone path)) →
    ∃ sock, s.sock = some sock ∧ sock.closed = true ∧ sock.datagrams.queue = []

theorem values_taken (s : State path) {found : Found path} (h : p.inFlight = some found) :
    (s.taken p).flatMap Found.values = s.log.flatMap Found.values ++ found.values := by
  rw [taken_of_some h, List.flatMap_append, List.flatMap_singleton]

theorem values_socks {sock : Sock} (h : s.sock = some sock) :
    s.socks.flatMap Sock.values = s.released.flatMap Sock.values ++ sock.values := by
  rw [socks, h, List.flatMap_append]
  exact congrArg _ (List.flatMap_singleton ..)

end State

/-- Once the peer has hung up, nothing is read at the end of the stream only, or else what
has been read is taken for the hang-up. -/
theorem endOfStream_of_closed {data : ChrcData} {datagram : Bool}
    (hphase : s.phase = (Place.poll data (.isHungUp datagram)).phase)
    (hclosed : s.sock.any (·.closed) = true) (hmistake : ¬ s.TakenForHangUp)
    (hs : (s.taken (.poll data (.isHungUp datagram))).flatMap Found.values =
      s.socks.flatMap Sock.values) : datagram = false := by
  cases datagram with
  | false => rfl
  | true =>
      refine absurd ⟨by rw [State.asks, hphase]; rfl, hclosed, ?_⟩ hmistake
      rw [← hs, State.values_taken _ rfl, List.length_append]
      exact Nat.lt_succ_self _

/-- What a poll takes, if nothing is taken for a hang-up. -/
theorem Looked.values {data : ChrcData} {stage stage' : Stage path} {u : State path}
    (h : Looked data s stage u stage') (hphase : s.phase = (Place.poll data stage).phase)
    (hknows : stage.Knows s) (hmistake : ¬ s.TakenForHangUp)
    (hs : (s.taken (.poll data stage)).flatMap Found.values = s.socks.flatMap Sock.values) :
    (u.taken (.poll data stage')).flatMap Found.values = u.socks.flatMap Sock.values := by
  have hnone (hstage : (Place.poll data stage).inFlight = none) :
      s.log.flatMap Found.values = s.socks.flatMap Sock.values :=
    taken_of_none (s := s) hstage ▸ hs
  cases h with
  | message | closed | resolved | call =>
      rw [State.values_taken _ rfl]
      exact (List.append_nil _).trans (hnone rfl)
  | noMessage | unresolved | noSocket | endOfStream | noDatagram | noCall | again => exact hs
  | @datagram sock bytes queue hsock hqueue =>
      have htaken := hnone rfl
      rw [State.values_socks hsock] at htaken
      rw [State.values_taken _ (inFlight_datagram data _), State.values_socks rfl, htaken,
        List.append_assoc]
      refine congrArg _ (Eq.symm ?_)
      exact List.map_append
  | hungUp hsock hclosed =>
      obtain rfl := endOfStream_of_closed hphase (by rw [hsock]; exact hclosed) hmistake hs
      rw [State.values_taken _ rfl]
      exact (List.append_nil _).trans (hnone rfl)
  | @notHungUp sock datagram hsock hclosed =>
      cases datagram with
      | true => exact hs
      | false =>
          obtain ⟨sock', hsock', hclosed', -⟩ := hknows
          obtain rfl := Option.some.inj (hsock.symm.trans hsock')
          rw [hclosed] at hclosed'
          contradiction

theorem Looked.released_eq {data : ChrcData} {stage stage' : Stage path} {u : State path}
    (h : Looked data s stage u stage') : u.released = s.released := by
  cases h <;> rfl

/-- What is known when the worker has taken something for a hang-up. -/
theorem Looked.gone {data : ChrcData} {stage stage' : Stage path} {u : State path}
    (h : Looked data s stage u stage') (hgone : stage' = .ready (gone path))
    (hphase : s.phase = (Place.poll data stage).phase) (hknows : stage.Knows s)
    (hmistake : ¬ s.TakenForHangUp)
    (hs : (s.taken (.poll data stage)).flatMap Found.values = s.socks.flatMap Sock.values) :
    ∃ sock, u.sock = some sock ∧ sock.closed = true ∧ sock.datagrams.queue = [] := by
  cases h with
  | message | closed | resolved | call | notHungUp => simp at hgone
  | noMessage | unresolved | noSocket | endOfStream | noDatagram | noCall | again =>
      contradiction
  | datagram => split at hgone <;> simp at hgone
  | hungUp hsock hclosed =>
      obtain rfl := endOfStream_of_closed hphase (by rw [hsock]; exact hclosed) hmistake hs
      exact hknows

/-- **What each step keeps, if nothing is taken for a hang-up.** -/
theorem State.Delivers.step {e : Event path} {p' : Place path} (hrunning : s.Running p)
    (hs : s.Delivers p) (htells : s.TellsApart e)
    (h : Stepped filter s p e t p') : t.Delivers p' := by
  cases h with
  | message | dropSenders | call | resolve => exact ⟨hs.values, hs.released, hs.gone⟩
  | @datagram _ bytes sock hsock hclosed =>
      refine ⟨?_, hs.released, ?_⟩
      · have htaken := hs.values
        rw [State.values_socks hsock] at htaken
        rw [State.values_socks rfl]
        exact htaken
      · intro data hp
        obtain ⟨sock', hsock', hclosed', -⟩ := hs.gone data hp
        obtain rfl := Option.some.inj (hsock.symm.trans hsock')
        rw [hclosed] at hclosed'
        contradiction
  | @hangUp _ sock hsock =>
      refine ⟨?_, hs.released, ?_⟩
      · have htaken := hs.values
        rw [State.values_socks hsock] at htaken
        rw [State.values_socks rfl]
        exact htaken
      · intro data hp
        obtain ⟨sock', hsock', hclosed', hqueue⟩ := hs.gone data hp
        obtain rfl := Option.some.inj (hsock.symm.trans hsock')
        exact ⟨_, rfl, rfl, hqueue⟩
  | @looked data stage stage' u io hlooked =>
      have hknows := (hrunning.holds data stage rfl).knows
      have hnot : ¬ s.TakenForHangUp := htells
      refine ⟨hlooked.values hrunning.phase hknows hnot hs.values, ?_, ?_⟩
      · exact hlooked.released_eq ▸ hs.released
      · intro data' hp
        obtain ⟨-, hstage⟩ := Place.poll.inj hp
        exact hlooked.gone hstage hrunning.phase hknows hnot hs.values
  | @turned data found io ran sock released _ _ hsocketed =>
      have hgone {data' : ChrcData} (hp : Place.ofRan ran = .poll data' (.ready (EventLoop.gone path))) :
          False := by
        obtain ⟨out, -, hstage⟩ := ofRan_eq_poll hp
        contradiction
      have hlog : (s.log ++ [found]).flatMap Found.values = s.socks.flatMap Sock.values := hs.values
      refine ⟨?_, ?_, fun data' hp ↦ (hgone hp).elim⟩
      · rw [taken_of_none (inFlight_ofRan ran)]
        refine hlog.trans ?_
        cases hsocketed with
        | same hfound => rfl
        | released hfound hsock =>
            rw [State.values_socks hsock, State.socks, Option.toList_none, List.append_nil,
              List.flatMap_append, List.flatMap_singleton]
        | acquired mtu hfound hsock =>
            simp [State.socks, hsock, Sock.values]
      · cases hsocketed with
        | same hfound => exact hs.released
        | acquired mtu hfound hsock => exact hs.released
        | released hfound hsock =>
            obtain ⟨sock, hsock', hclosed, hqueue⟩ := hs.gone data (by rw [hfound])
            obtain rfl := Option.some.inj (hsock.symm.trans hsock')
            intro old hold
            rcases List.mem_append.mp hold with hold | hold
            · exact hs.released old hold
            · obtain rfl := List.mem_singleton.mp hold
              exact ⟨hclosed, hqueue⟩

end Rustable.Gatt.Server.EventLoop
