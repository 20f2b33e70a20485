import Mathlib.Data.List.Basic

/-!
# XML as a stream of events

A reader gives the events of a document one by one.  When it has given them all, it gives the
end of the document or an error, and gives it again at every later call.

A `Forest` is what stands between two tags, and `Unclosed` what stands behind a start tag of
which the end has not been read.
-/

namespace Xml

/-- An attribute: its name and its value. -/
abbrev Attribute := String × String

/-- What a reader comes across, but for the end of the document.  Text, white space, comments and
processing instructions are not told apart. -/
inductive XmlEvent
  | startDocument
  | startElement (name : String) (attributes : List Attribute)
  | endElement (name : String)
  | other
deriving DecidableEq

/-- What a reader gives when it has given all its events. -/
inductive Last (ε : Type)
  | endDocument
  | error (e : ε)
deriving DecidableEq

/-- A reader, as the events it has still to give. -/
structure EventReader (ε : Type) where
  events : List XmlEvent
  last : Last ε
deriving DecidableEq

/-- What a call of `next` gives. -/
inductive Next (ε : Type)
  | event (e : XmlEvent)
  | endDocument
  | error (e : ε)

variable {ε : Type}

/-- `EventReader::next` -/
def EventReader.next (reader : EventReader ε) : Next ε × EventReader ε :=
  match reader.events with
  | e :: events => (.event e, { reader with events := events })
  | [] => match reader.last with
    | .endDocument => (.endDocument, reader)
    | .error e => (.error e, reader)

@[simp] theorem EventReader.next_cons (e : XmlEvent) (events : List XmlEvent) (last : Last ε) :
    (⟨e :: events, last⟩ : EventReader ε).next = (.event e, ⟨events, last⟩) := rfl

@[simp] theorem EventReader.next_endDocument :
    (⟨[], .endDocument⟩ : EventReader ε).next = (.endDocument, ⟨[], .endDocument⟩) := rfl

@[simp] theorem EventReader.next_error (e : ε) :
    (⟨[], .error e⟩ : EventReader ε).next = (.error e, ⟨[], .error e⟩) := rfl

/-- What stands between two tags. -/
inductive Forest
  | nil
  | other (rest : Forest)
  | element (name : String) (attributes : List Attribute) (content rest : Forest)

namespace Forest

/-- The events a reader gives of it. -/
def events : Forest → List XmlEvent
  | nil => []
  | other rest => .other :: rest.events
  | element name attributes content rest =>
      .startElement name attributes :: (content.events ++ .endElement name :: rest.events)

end Forest

/-- The events of an element with its tags. -/
def whole (name : String) (attributes : List Attribute) (content : Forest) : List XmlEvent :=
  .startElement name attributes :: (content.events ++ [.endElement name])

@[simp] theorem whole_append (name : String) (attributes : List Attribute) (content : Forest)
    (events : List XmlEvent) : whole name attributes content ++ events =
      .startElement name attributes :: (content.events ++ .endElement name :: events) := by
  simp [whole]

@[simp] theorem Forest.events_element (name : String) (attributes : List Attribute)
    (content rest : Forest) : (element name attributes content rest).events =
      whole name attributes content ++ rest.events := by
  rw [whole_append, events]

/-- What stands behind an element is shorter. -/
theorem length_lt_whole (name : String) (attributes : List Attribute) (content : Forest)
    (events : List XmlEvent) :
    events.length < (XmlEvent.startElement name attributes ::
      (content.events ++ .endElement name :: events)).length := by
  simp only [List.length_cons, List.length_append]
  omega

/-- What stands behind a start tag when the reader has not come to the end of the element. -/
inductive Unclosed : List XmlEvent → Prop
  | nil : Unclosed []
  | other {events : List XmlEvent} : Unclosed events → Unclosed (.other :: events)
  | element (name : String) (attributes : List Attribute) (content : Forest)
      {events : List XmlEvent} :
      Unclosed events → Unclosed (whole name attributes content ++ events)
  | inside (name : String) (attributes : List Attribute) {events : List XmlEvent} :
      Unclosed events → Unclosed (.startElement name attributes :: events)

/-- A document: its root, and what stands before and behind it. -/
structure Document where
  before : Nat
  name : String
  attributes : List Attribute
  content : Forest
  behind : Nat

/-- The events of a document, behind its start. -/
def Document.events (d : Document) : List XmlEvent :=
  List.replicate d.before .other ++
    (whole d.name d.attributes d.content ++ List.replicate d.behind .other)

/-- The reader of a document. -/
def Document.reader (d : Document) : EventReader ε := ⟨.startDocument :: d.events, .endDocument⟩

/-! ## What is read, up to text -/

namespace Forest

/-- One behind the other. -/
def append : Forest → Forest → Forest
  | nil, g => g
  | other rest, g => other (rest.append g)
  | element name attributes content rest, g => element name attributes content (rest.append g)

@[simp] theorem events_append (f g : Forest) : (f.append g).events = f.events ++ g.events := by
  induction f with
  | nil => rfl
  | other rest ih => exact congrArg (XmlEvent.other :: ·) ih
  | element name attributes content rest _ ih =>
      rw [append, events_element, events_element, ih, List.append_assoc]

/-- The elements alone. -/
def bare : Forest → Forest
  | nil => nil
  | other rest => rest.bare
  | element name attributes content rest => element name attributes content.bare rest.bare

end Forest

/-- Read what stands between two tags, up to the second one; no value is a tag that does not
match. -/
def forestOf : Nat → List XmlEvent → Option (Forest × List XmlEvent)
  | 0, _ => none
  | _ + 1, [] => some (.nil, [])
  | fuel + 1, .startElement name attributes :: events => do
      match ← forestOf fuel events with
      | (content, .endElement name' :: events) =>
          if name' = name then
            let (rest, events) ← forestOf fuel events
            return (.element name attributes content rest, events)
          else none
      | _ => none
  | _ + 1, .endElement name :: events => some (.nil, .endElement name :: events)
  | fuel + 1, .other :: events => do
      let (rest, events) ← forestOf fuel events
      return (.other rest, events)
  | _ + 1, .startDocument :: _ => none

/-- What is read is what stands there. -/
theorem events_of_forestOf {fuel : Nat} {events rest : List XmlEvent} {f : Forest}
    (h : forestOf fuel events = some (f, rest)) : events = f.events ++ rest := by
  induction fuel generalizing events f rest with
  | zero => contradiction
  | succ fuel ih =>
      cases events with
      | nil =>
          obtain ⟨rfl, rfl⟩ := Prod.mk.inj (Option.some.inj h)
          rfl
      | cons e events =>
          cases e with
          | startDocument => contradiction
          | endElement name =>
              obtain ⟨rfl, rfl⟩ := Prod.mk.inj (Option.some.inj h)
              rfl
          | other =>
              obtain ⟨⟨rest', events'⟩, hrest, h⟩ := Option.bind_eq_some_iff.mp h
              obtain ⟨rfl, rfl⟩ := Prod.mk.inj (Option.some.inj h)
              rw [ih hrest]
              rfl
          | startElement name attributes =>
              obtain ⟨⟨content, behind⟩, hcontent, h⟩ := Option.bind_eq_some_iff.mp h
              dsimp only at h
              split at h
              · next name' events' heq =>
                  obtain ⟨rfl, rfl⟩ := Prod.mk.inj heq
                  split at h
                  · next hname =>
                      subst hname
                      obtain ⟨⟨rest', events''⟩, hrest, h⟩ := Option.bind_eq_some_iff.mp h
                      obtain ⟨rfl, rfl⟩ := Prod.mk.inj (Option.some.inj h)
                      rw [ih hcontent, ih hrest, Forest.events_element, List.append_assoc,
                        whole_append]
                  · contradiction
              · contradiction

/-- The same document, but for what is no element. -/
structure Document.Same (d d' : Document) : Prop where
  name : d'.name = d.name
  attributes : d'.attributes = d.attributes
  content : d'.content.bare = d.content.bare

end Xml
