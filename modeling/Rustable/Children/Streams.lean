import Rustable.Children.Documents

/-!
# Replies that are no documents

What a peer sends need not be a document.  The reader then gives some events and after them an
error, again and again.  `get_children` may look for what it misses for ever
(`settles_iff`).
-/

namespace Rustable

open DBus Xml

variable {ε : Type}

variable {join : String → Option ObjectPath} {fromStr : String → EventReader ε}
  {pushPathChecked : ObjectPath → String → Option ObjectPath} {path : ObjectPath}
  {res : MarshalledMessage} {s : String} {r : Ending Error (List ObjectPath)}

/-- The first element of a stream is closed in it, with so many elements open at its beginning. -/
def rootClosed : Nat → List XmlEvent → Bool
  | _, [] => false
  | depth, .startElement _ _ :: events => rootClosed (depth + 1) events
  | 0, .endElement _ :: events => rootClosed 0 events
  | 1, .endElement _ :: _ => true
  | depth + 2, .endElement _ :: events => rootClosed (depth + 1) events
  | depth, .startDocument :: events | depth, .other :: events => rootClosed depth events

/-- `get_children` stops, and fails if the stream does before its root is closed. -/
structure Settles (fromStr : String → EventReader ε)
    (pushPathChecked : ObjectPath → String → Option ObjectPath) (path : ObjectPath)
    (res : MarshalledMessage) (s : String) : Prop where
  stops : ∃ fuel, getChildren fromStr pushPathChecked path res fuel ≠ .cut
  fails : ∀ e, (fromStr s).last = .error e → rootClosed 0 (fromStr s).events = false →
    ∃ fuel err, getChildren fromStr pushPathChecked path res fuel = .failed err

/-- One of the two loops passes over all there is, and goes on. -/
def RunsOut (join : String → Option ObjectPath) (reader : EventReader ε) : Prop :=
  ∃ passed rest, reader.events = .startDocument :: (passed ++ rest) ∧ Passed passed ∧
    (rest = [] ∧ (∃ e, reader.last = .error e) ∨
      ∃ attributes collected added, rest = .startElement "node" attributes :: collected ∧
        Collected join collected added)

/-- An element that is to be skipped breaks off, or a child has an invalid name. -/
def BreaksOff (join : String → Option ObjectPath) (events : List XmlEvent) : Prop :=
  ∃ passed rest, events = .startDocument :: (passed ++ rest) ∧ Passed passed ∧
    ((∃ name attributes inner, rest = .startElement name attributes :: inner ∧ name ≠ "node" ∧
        Unclosed inner) ∨
      ∃ attributes collected added rest',
        rest = .startElement "node" attributes :: (collected ++ rest') ∧
        Collected join collected added ∧
        ((∃ attributes inner childName, rest' = .startElement "node" attributes :: inner ∧
            nameOf attributes = some childName ∧ join childName = none) ∨
          ∃ name attributes inner new, rest' = .startElement name attributes :: inner ∧
            Skips join name attributes new ∧ Unclosed inner))

/-- A stream that begins as it should is left to the two loops. -/
theorem getChildren_startDocument (hbody : res.body.get String = .ok s) {events : List XmlEvent}
    (hevents : (fromStr s).events = .startDocument :: events) :
    getChildren fromStr pushPathChecked path res = fun n ↦
      (findRoot n ⟨events, (fromStr s).last⟩).bind
        (collectChildren (pushPathChecked path) n []) := by
  funext n
  rw [getChildren, hbody]
  dsimp only
  rw [EventReader.next, hevents]

/-- The first loop passes over some events and then comes to a node. -/
theorem ends_getChildren_node {passed inner : List XmlEvent} {attributes : List Attribute}
    (hbody : res.body.get String = .ok s) (hevents : (fromStr s).events =
      .startDocument :: (passed ++ .startElement "node" attributes :: inner))
    (hpassed : Passed passed) :
    Ends (getChildren fromStr pushPathChecked path res) r ↔
      Ends (fun n ↦ collectChildren (pushPathChecked path) n [] ⟨inner, (fromStr s).last⟩) r := by
  rw [getChildren_startDocument hbody hevents]
  exact ends_bind ((findRoot_passed hpassed _).mpr findRoot_node)

/-- If the events run out, `get_children` does not end. -/
theorem RunsOut.not_ends (hbody : res.body.get String = .ok s)
    (h : RunsOut (pushPathChecked path) (fromStr s)) :
    ¬Ends (getChildren fromStr pushPathChecked path res) r := by
  obtain ⟨passed, rest, hevents, hpassed, ⟨rfl, e, hlast⟩ |
    ⟨attributes, collected, added, rfl, hcollected⟩⟩ := h
  · have hfind (n : Nat) : findRoot n ⟨passed ++ [], (fromStr s).last⟩ = .cut := by
      refine Stable.eq_cut (f := fun n ↦ findRoot n ⟨passed ++ [], (fromStr s).last⟩)
        (fun n ↦ below_findRoot n _) (fun r ↦ ?_) n
      rw [findRoot_passed hpassed, hlast]
      exact Ends.not_of_cut (findRoot_error e)
    rw [getChildren_startDocument hbody hevents]
    apply Ends.not_of_cut
    intro n
    rw [hfind]
    rfl
  · rw [ends_getChildren_node hbody hevents hpassed, ← List.append_nil collected,
      collectChildren_collected hcollected]
    exact Ends.not_of_cut fun n ↦ collectChildren_nil n _

/-- Where an element breaks off or a name is invalid, `get_children` fails. -/
theorem BreaksOff.ends (hbody : res.body.get String = .ok s)
    (h : BreaksOff (pushPathChecked path) (fromStr s).events) {e : ε}
    (hlast : (fromStr s).last = .error e) :
    Ends (getChildren fromStr pushPathChecked path res) (.failed invalidIntrospect) := by
  obtain ⟨passed, rest, hevents, hpassed, ⟨name, attributes, inner, rfl, hname, hopen⟩ |
    ⟨attributes, collected, added, rest', rfl, hcollected, hrest⟩⟩ := h
  · rw [getChildren_startDocument hbody hevents, hlast]
    have hfind : Ends (fun n ↦ findRoot n ⟨passed ++ .startElement name attributes :: inner,
        .error e⟩) (.failed invalidIntrospect) := by
      rw [findRoot_passed hpassed, findRoot_start hname]
      exact ignoreOrFail_unclosed hopen name _
    exact ends_bind_of_not_done hfind (fun _ ↦ rfl) (Ending.failed_ne_cut _)
  · rw [ends_getChildren_node hbody hevents hpassed, collectChildren_collected hcollected, hlast]
    obtain ⟨attributes', inner, childName, rfl, hname, hjoin⟩ |
      ⟨name, attributes', inner, new, rfl, hskips, hopen⟩ := hrest
    · exact collectChildren_invalid hname hjoin
    · exact (collectChildren_start hskips).mpr (ignoreOrFail_unclosed hopen name _)

/-- A stream that does not run out comes to an end, which is no error but where an element breaks
off or a name is invalid. -/
def ComesOut (fromStr : String → EventReader ε)
    (pushPathChecked : ObjectPath → String → Option ObjectPath) (path : ObjectPath)
    (res : MarshalledMessage) (s : String) : Prop :=
  RunsOut (pushPathChecked path) (fromStr s) ∨
    ∃ r, Ends (getChildren fromStr pushPathChecked path res) r ∧
      ∀ e err, (fromStr s).last = .error e → r = .failed err →
        BreaksOff (pushPathChecked path) (fromStr s).events

theorem ComesOut.of_breaksOff (hends : Ends (getChildren fromStr pushPathChecked path res) r)
    (h : BreaksOff (pushPathChecked path) (fromStr s).events) :
    ComesOut fromStr pushPathChecked path res s := .inr ⟨r, hends, fun _ _ _ _ ↦ h⟩

theorem ComesOut.of_ne_failed (hends : Ends (getChildren fromStr pushPathChecked path res) r)
    (h : ∀ err, r ≠ .failed err) : ComesOut fromStr pushPathChecked path res s :=
  .inr ⟨r, hends, fun _ err _ hr ↦ absurd hr (h err)⟩

theorem comesOut_of_panicked (hends : Ends (getChildren fromStr pushPathChecked path res) .panicked) :
    ComesOut fromStr pushPathChecked path res s := by
  refine .of_ne_failed hends ?_
  intro err h
  contradiction

/-- From the root on. -/
theorem comesOut_node {passed inner : List XmlEvent} {attributes : List Attribute}
    (hbody : res.body.get String = .ok s) (hevents : (fromStr s).events =
      .startDocument :: (passed ++ .startElement "node" attributes :: inner))
    (hpassed : Passed passed) : ComesOut fromStr pushPathChecked path res s := by
  obtain ⟨collected, rest, added, rfl, hcollected, hrest⟩ :=
    collectChildren_cases (pushPathChecked path) (fromStr s).last inner
  have hiff (r : Ending Error (List ObjectPath)) :
      Ends (getChildren fromStr pushPathChecked path res) r ↔
        Ends (fun n ↦ collectChildren (pushPathChecked path) n ([] ++ added)
          ⟨rest, (fromStr s).last⟩) r := by
    rw [ends_getChildren_node hbody hevents hpassed, collectChildren_collected hcollected]
  rcases hrest with rfl | ⟨name, inner, rfl⟩ | ⟨attributes', inner, childName, rfl, hinvalid⟩ |
    ⟨name, attributes', inner, new, rfl, hskips, hopen | hpanic⟩
  · rw [List.append_nil] at hevents
    exact .inl ⟨passed, _, hevents, hpassed, .inr ⟨attributes, collected, added, rfl, hcollected⟩⟩
  · refine .of_ne_failed ((hiff _).mpr (collectChildren_end _)) ?_
    intro err h
    contradiction
  · refine .of_breaksOff ((hiff _).mpr (collectChildren_invalid hinvalid.1 hinvalid.2)) ?_
    exact ⟨passed, _, hevents, hpassed, .inr ⟨attributes, collected, added, _, rfl, hcollected,
      .inl ⟨attributes', inner, childName, rfl, hinvalid⟩⟩⟩
  · refine .of_breaksOff ((hiff _).mpr ((collectChildren_start hskips).mpr
      (ignoreOrFail_unclosed hopen name _))) ?_
    exact ⟨passed, _, hevents, hpassed, .inr ⟨attributes, collected, added, _, rfl, hcollected,
      .inr ⟨name, attributes', inner, new, rfl, hskips, hopen⟩⟩⟩
  · exact comesOut_of_panicked ((hiff _).mpr ((collectChildren_start hskips).mpr
      (ignoreOrFail_panicked hpanic _)))

/-- **Every stream runs out or comes to an end.** -/
theorem comesOut (hbody : res.body.get String = .ok s) :
    ComesOut fromStr pushPathChecked path res s := by
  by_cases hstart : ∃ events, (fromStr s).events = .startDocument :: events
  · obtain ⟨events, hevents⟩ := hstart
    obtain ⟨passed, rest, rfl, hpassed, rfl | ⟨attributes, inner, rfl⟩ |
      ⟨name, attributes, inner, rfl, hname, hopen | hpanic⟩⟩ :=
        findRoot_cases (fromStr s).last events
    · cases hlast : (fromStr s).last with
      | error e => exact .inl ⟨passed, [], hevents, hpassed, .inl ⟨rfl, e, hlast⟩⟩
      | endDocument =>
          refine .inr ⟨.failed invalidIntrospect, ?_, ?_⟩
          · rw [getChildren_startDocument hbody hevents, hlast]
            exact ends_bind_of_not_done ((findRoot_passed hpassed []).mpr findRoot_endDocument)
              (fun _ ↦ rfl) (Ending.failed_ne_cut _)
          · intro e err herror
            rw [hlast] at herror
            contradiction
    · exact comesOut_node hbody hevents hpassed
    · refine .of_breaksOff (r := brokenOff (fromStr s).last) ?_
        ⟨passed, _, hevents, hpassed, .inl ⟨name, attributes, inner, rfl, hname, hopen⟩⟩
      rw [getChildren_startDocument hbody hevents]
      have hfind : Ends (fun n ↦ findRoot n ⟨passed ++ .startElement name attributes :: inner,
          (fromStr s).last⟩) (brokenOff (fromStr s).last) := by
        rw [findRoot_passed hpassed, findRoot_start hname]
        exact ignoreOrFail_unclosed hopen name _
      refine ends_bind_of_not_done hfind (fun _ ↦ ?_) brokenOff_ne_cut
      cases (fromStr s).last with
      | endDocument => rfl
      | error e => rfl
    · apply comesOut_of_panicked
      rw [getChildren_startDocument hbody hevents]
      have hfind : Ends (fun n ↦ findRoot n ⟨passed ++ .startElement name attributes :: inner,
          (fromStr s).last⟩) .panicked := by
        rw [findRoot_passed hpassed, findRoot_start hname]
        exact ignoreOrFail_panicked hpanic _
      exact ends_bind_of_not_done hfind (fun _ ↦ rfl) Ending.panicked_ne_cut
  · refine comesOut_of_panicked (.of_succ Ending.panicked_ne_cut fun n ↦ ?_)
    rw [getChildren, hbody]
    dsimp only
    rw [EventReader.next]
    cases hevents : (fromStr s).events with
    | nil =>
        cases (fromStr s).last with
        | endDocument => rfl
        | error e => rfl
    | cons e events =>
        cases e with
        | startDocument => exact absurd ⟨events, hevents⟩ hstart
        | startElement name attributes => rfl
        | endElement name => rfl
        | other => rfl

/-- **`get_children` stops, and tells the errors of the stream**, if and only if the stream does
not run out, and breaks off inside an element that is skipped or behind an invalid name if it
ends in an error before its root is closed. -/
theorem settles_iff (hbody : res.body.get String = .ok s) :
    Settles fromStr pushPathChecked path res s ↔
      ¬RunsOut (pushPathChecked path) (fromStr s) ∧
        ∀ e, (fromStr s).last = .error e → rootClosed 0 (fromStr s).events = false →
          BreaksOff (pushPathChecked path) (fromStr s).events := by
  have hstable : Stable (getChildren fromStr pushPathChecked path res) :=
    stable_getChildren fromStr pushPathChecked path res
  have hout : ComesOut fromStr pushPathChecked path res s := comesOut hbody
  constructor
  · intro h
    obtain ⟨r, hends⟩ := hstable.stops_iff.mp h.stops
    have hrunsOut : ¬RunsOut (pushPathChecked path) (fromStr s) :=
      fun hrunsOut ↦ hrunsOut.not_ends hbody hends
    refine ⟨hrunsOut, fun e hlast hopen ↦ ?_⟩
    obtain ⟨r', hends', hbreaks⟩ := hout.resolve_left hrunsOut
    obtain ⟨fuel, err, hfailed⟩ := h.fails e hlast hopen
    have hends'' : Ends (getChildren fromStr pushPathChecked path res) (.failed err) :=
      hfailed ▸ hstable.ends (hfailed ▸ Ending.failed_ne_cut err)
    exact hbreaks e err hlast (hends'.unique hends'')
  · rintro ⟨hrunsOut, hbreaks⟩
    obtain ⟨r, hends, -⟩ := hout.resolve_left hrunsOut
    refine ⟨hstable.stops_iff.mpr ⟨r, hends⟩, fun e hlast hopen ↦ ?_⟩
    obtain ⟨-, n, hn⟩ := (hbreaks e hlast hopen).ends hbody hlast
    exact ⟨n, _, hn n (Nat.le_refl n)⟩

/-- What is read of `<node><interface name='i'>`. -/
def brokenInterface : EventReader Unit where
  events := [.startDocument, .startElement "node" [], .startElement "interface" [("name", "i")]]
  last := .error ()

/-- An interface that breaks off is noticed. -/
theorem settles_iff_interface : Settles (fun _ ↦ brokenInterface) pushName orgPath
    (textReply "<node><interface name='i'>") "<node><interface name='i'>" := by
  have hbreaks : BreaksOff (pushName orgPath) brokenInterface.events :=
    ⟨[], _, rfl, .nil, .inr ⟨[], [], [], _, rfl, .nil,
      .inr ⟨"interface", _, [], [], rfl, .element (by simp), .nil⟩⟩⟩
  have hends : Ends (getChildren (fun _ ↦ brokenInterface) pushName orgPath
      (textReply "<node><interface name='i'>")) (.failed invalidIntrospect) :=
    BreaksOff.ends rfl hbreaks rfl
  refine (settles_iff rfl).mpr ⟨fun h ↦ ?_, fun _ _ _ ↦ hbreaks⟩
  exact absurd hends (RunsOut.not_ends rfl h)

/-- What is read of `<node>`. -/
def brokenRoot : EventReader Unit where
  events := [.startDocument, .startElement "node" []]
  last := .error ()

/-- A root that breaks off is not. -/
theorem broken_root_runs_out : ¬∀ (fromStr : String → EventReader Unit) (res : MarshalledMessage)
    (s : String), res.body.get String = .ok s → Settles fromStr pushName orgPath res s := by
  intro hall
  have hsettles : Settles (fun _ ↦ brokenRoot) pushName orgPath (textReply "<node>") "<node>" :=
    hall _ _ _ rfl
  obtain ⟨r, hends⟩ := (Stable.stops_iff (stable_getChildren _ _ _ _)).mp hsettles.stops
  have hrunsOut : RunsOut (pushName orgPath) brokenRoot :=
    ⟨[], _, rfl, .nil, .inr ⟨[], [], [], rfl, .nil⟩⟩
  exact RunsOut.not_ends rfl hrunsOut hends

end Rustable
