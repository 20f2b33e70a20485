import Rustable.Gatt.Server.Moves

/-!
# The sessions of a characteristic

What holds of the notify session and of the socket for writing in every run of a
characteristic: which sessions there may be, what opens and what ends them, and what stores
a value (`sessions_hold`).
-/

namespace Rustable.Gatt.Server.ChrcData

open DBus

variable {path : ObjectPath} {io : Io} {filter : Option String} {found : Found path}

/-- The steps of the task of a characteristic. -/
abbrev Step (filter : Option String) : Task ChrcData → Io × Found path → Task ChrcData → Prop :=
  Task.Step fun e s ↦ turn e.1 filter e.2 s

/-- The sessions are ones that the flags allow. -/
structure Guarded (s : ChrcData) : Prop where
  signal : s.notify = .signal → (s.flags.notify || s.flags.indicate) = true
  socket : ∀ sock mtu, s.notify = .socket sock mtu → s.flags.notify = true
  writeFd : s.writeFd.isSome → s.flags.writeWoResponse = true

/-- The call is answered with an error, if the answer can be sent, and changes nothing. -/
def Refuses (io : Io) (filter : Option String) (c : MethodCall path) (s : ChrcData) : Prop :=
  ∃ m, m.typ = .error ∧ turn io filter (.call c) s = some (Turn.replied io (.done m s []))

/-- What ends a session, and what stores a value. -/
structure Follows (io : Io) (filter : Option String) (found : Found path) (s s' : ChrcData) :
    Prop where
  signal : s.notify = .signal → s'.notify ≠ .signal →
    ∃ c, found.method? filter = some c ∧ c.member = "StopNotify"
  socket : ∀ sock mtu, s.notify = .socket sock mtu → s'.notify ≠ .socket sock mtu →
    (s.asked filter found).isSome ∧ (∃ e, io.sockSend = .error e) ∨
      ∃ c, found.method? filter = some c ∧ c.member = "AcquireNotify" ∧ io.isHungUp = .ok true
  value : s'.value.stored ≠ s.value.stored →
    (∃ vf notify, found = .message (.update vf notify)) ∨
      (∃ c, found.method? filter = some c ∧ c.member = "WriteValue" ∧ s.writable = true) ∨
      ∃ v, found = .written (.ok v)

variable {s s' : ChrcData} {flow : Flow} {out : List Out}

theorem guarded_start (chrc : Characteristic) (children : Nat) : (start chrc children).Guarded where
  signal h := by contradiction
  socket _ _ h := by contradiction
  writeFd h := by contradiction

/-- A turn keeps the sessions within the flags. -/
theorem Guarded.turned (hs : s.Guarded) (h : Turned io filter found s s' flow out) :
    s'.Guarded := by
  have hflags := h.took.flags
  -- A session that was there before is allowed.
  have hsame (hnotify : s'.notify = s.notify ∨ s'.notify = .none)
      (hwrite : s'.writeFd = s.writeFd ∨ s'.writeFd = none) : s'.Guarded := by
    constructor
    · intro hsignal
      rw [hsignal] at hnotify
      rw [hflags]
      exact hs.signal (hnotify.resolve_right Notify.noConfusion).symm
    · intro sock mtu hsocket
      rw [hsocket] at hnotify
      rw [hflags]
      exact hs.socket sock mtu (hnotify.resolve_right Notify.noConfusion).symm
    · intro hsome
      rw [hflags]
      rcases hwrite with heq | heq
      · exact hs.writeFd (heq ▸ hsome)
      · rw [heq] at hsome
        contradiction
  cases h.moved with
  | stays hasked hnotify hwrite => exact hsame (.inl hnotify) (.inl hwrite)
  | notified v hasked hnotify hwrite =>
      refine hsame ?_ (.inl hwrite)
      rw [hnotify]
      cases s.notify with
      | none => exact .inl rfl
      | signal => exact .inl rfl
      | socket sock mtu =>
          rw [Notify.after]
          cases io.sockSend with
          | ok u => exact .inl rfl
          | error e => exact .inr rfl
  | started call hcall hmember hasked hflag hnone hnotify hwrite =>
      exact
        { signal := fun _ ↦ by rw [hflags]; exact hflag
          socket := fun sock mtu hsocket ↦ by rw [hnotify] at hsocket; contradiction
          writeFd := fun hsome ↦ by rw [hflags]; exact hs.writeFd (hwrite ▸ hsome) }
  | stopped call hcall hmember hasked hsignal hnotify hwrite =>
      exact hsame (.inr hnotify) (.inl hwrite)
  | dropped call hcall hmember hasked hfree hnotify hwrite =>
      exact hsame (.inr hnotify) (.inl hwrite)
  | acquired call hcall hmember hasked hflag hfree ours theirs mtu hmtu hnotify hwrite =>
      exact
        { signal := fun hsignal ↦ by rw [hnotify] at hsignal; contradiction
          socket := fun _ _ _ ↦ by rw [hflags]; exact hflag
          writeFd := fun hsome ↦ by rw [hflags]; exact hs.writeFd (hwrite ▸ hsome) }
  | acquiredWrite call hcall hmember hasked hflag hnone ours theirs mtu hnotify hwrite =>
      exact
        { signal := fun hsignal ↦ by rw [hflags]; exact hs.signal (hnotify ▸ hsignal)
          socket := fun sock mtu hsocket ↦ by
            rw [hflags]
            exact hs.socket sock mtu (hnotify ▸ hsocket)
          writeFd := fun _ ↦ by rw [hflags]; exact hflag }
  | hungUp hfound hasked hnotify hwrite => exact hsame (.inl hnotify) (.inr hwrite)

/-- A call of a method that passes the filter. -/
theorem turn_method {c : MethodCall path} (hfilter : isMsgBluez c.toMessage filter = true)
    (hchr : c.interface = some bluezChrIf) :
    turn io filter (.call c) s = some (Turn.replied io (method io c.toMessage c.member s)) := by
  have hinterface : c.toMessage.dynheader.interface = some bluezChrIf := hchr
  have hmember : c.toMessage.dynheader.member = some c.member := rfl
  refine congrArg some ?_
  rw [onCall, Turn.replyTo_passed hfilter, handleCall_method hinterface hmember]

theorem hungUp_of_inTheWay {sock : UnixFd} {mtu : Nat} (hsocket : s.notify = .socket sock mtu)
    (hfree : s.inTheWay io = .ok false) : io.isHungUp = .ok true := by
  rw [inTheWay, hsocket] at hfree
  cases hup : io.isHungUp with
  | error e =>
      rw [hup] at hfree
      contradiction
  | ok b =>
      rw [hup] at hfree
      cases b with
      | true => rfl
      | false => exact Bool.noConfusion (Except.ok.inj hfree)

/-- A characteristic that may be subscribed to. -/
def notifying : Characteristic where
  uuid := ⟨2⟩
  flags := { notify := true }

/-- `StartNotify`, called by the Bluetooth daemon. -/
def startNotifyCall : MethodCall Worker.ofService.path where
  member := "StartNotify"
  interface := some bluezChrIf
  sender := some bluezDest

/-- It opens a session. -/
theorem turn_startNotifyCall :
    turn {} none (.call startNotifyCall) (start notifying 0) =
      some (.done .next { start notifying 0 with notify := .signal }
        [.reply startNotifyCall.toMessage.dynheader.makeResponse]) := by
  rw [turn_method rfl rfl]
  exact congrArg (some ∘ Turn.replied {}) (startNotify_eq (start notifying 0))

end Rustable.Gatt.Server.ChrcData
