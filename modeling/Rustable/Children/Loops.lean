import Rustable.Basic
import Rustable.Lib.Fuel
import Rustable.Lib.Xml

/-!
# The loops of `get_children`

The end of `introspect.rs`: how `get_children` looks for child nodes in the reply to an
`Introspect`.  The reader of XML and the joining of paths belong to other crates; they are
parameters here.

Each of the two loops passes over some events (`Passed`, `Collected`) and then comes to where it
does something else (`findRoot_cases`, `collectChildren_cases`); between them they skip elements,
which end, break off or have a tag in them that does not match (`ignoreXmlTree_cases`).
-/

namespace Rustable

open DBus Xml

variable {ε : Type}

/-! ## The code -/

/-- `ignore_xml_tree` -/
def ignoreXmlTree : Nat → EventReader ε → String → Ending ε (EventReader ε)
  | 0, _, _ => .cut
  | fuel + 1, reader, name => match reader.next with
    | (.error e, _) => .failed e
    | (.event (.startElement inner _), reader) =>
        (ignoreXmlTree fuel reader inner).bind fun reader ↦ ignoreXmlTree fuel reader name
    | (.event (.endElement eName), reader) => if eName = name then .done reader else .panicked
    -- `unreachable!()`
    | (.event .startDocument, _) | (.endDocument, _) => .panicked
    | (.event .other, reader) => ignoreXmlTree fuel reader name

/-- `invalid_introspect` -/
def invalidIntrospect : Error := .bluez "Bluez didn't return valid introspect XML string."

/-- `ignore_xml_tree(reader, name).map_err(invalid_introspect)` -/
def ignoreOrFail (fuel : Nat) (reader : EventReader ε) (name : String) :
    Ending Error (EventReader ε) :=
  (ignoreXmlTree fuel reader name).mapError fun _ ↦ invalidIntrospect

/-- The first loop of `get_children`, up to the start tag of the root. -/
def findRoot : Nat → EventReader ε → Ending Error (EventReader ε)
  | 0, _ => .cut
  | fuel + 1, reader => match reader.next with
    | (.event (.startElement name _), reader) =>
        if name = "node" then .done reader
        else (ignoreOrFail fuel reader name).bind (findRoot fuel)
    | (.endDocument, _) => .failed invalidIntrospect
    | (.event _, reader) | (.error _, reader) => findRoot fuel reader

/-- The value of the attribute `name`. -/
def nameOf (attributes : List Attribute) : Option String :=
  (attributes.find? (·.1 = "name")).map Prod.snd

/-- The second loop, with the children found so far.  `join` is `push_path(&path)` followed by
`push_path_checked`. -/
def collectChildren (join : String → Option ObjectPath) :
    Nat → List ObjectPath → EventReader ε → Ending Error (List ObjectPath)
  | 0, _, _ => .cut
  | fuel + 1, children, reader => match reader.next with
    | (.event (.startElement name attributes), reader) =>
        if name = "node" then
          match nameOf attributes with
          -- `continue`
          | none => collectChildren join fuel children reader
          | some childName => match join childName with
            | none => .failed invalidIntrospect
            | some childPath => (ignoreOrFail fuel reader "node").bind
                (collectChildren join fuel (children ++ [childPath]))
        else (ignoreOrFail fuel reader name).bind (collectChildren join fuel children)
    | (.event (.endElement _), _) => .done children
    | (.event _, reader) | (.endDocument, reader) | (.error _, reader) =>
        collectChildren join fuel children reader

/-- `get_children`, from the reply on; `fromStr` is `EventReader::from_str`. -/
def getChildren (fromStr : String → EventReader ε)
    (pushPathChecked : ObjectPath → String → Option ObjectPath) (path : ObjectPath)
    (res : MarshalledMessage) (fuel : Nat) : Ending Error (List ObjectPath) :=
  match res.body.get String with
  | .error _ => .failed invalidIntrospect
  | .ok s => match (fromStr s).next with
    | (.event .startDocument, reader) =>
        (findRoot fuel reader).bind (collectChildren (pushPathChecked path) fuel [])
    -- `unimplemented!()`
    | _ => .panicked

/-! ## More fuel -/

section Stable

theorem below_ignoreXmlTree (n : Nat) (reader : EventReader ε) (name : String) :
    (ignoreXmlTree n reader name).Below (ignoreXmlTree (n + 1) reader name) := by
  induction n generalizing reader name with
  | zero => exact Ending.below_cut _
  | succ n ih =>
      rw [ignoreXmlTree, ignoreXmlTree]
      split
      · exact .refl _
      · exact (ih _ _).bind fun _ ↦ ih _ _
      · exact .refl _
      · exact .refl _
      · exact .refl _
      · exact ih _ _

theorem below_ignoreOrFail (n : Nat) (reader : EventReader ε) (name : String) :
    (ignoreOrFail n reader name).Below (ignoreOrFail (n + 1) reader name) :=
  (below_ignoreXmlTree n reader name).mapError _

theorem below_findRoot (n : Nat) (reader : EventReader ε) :
    (findRoot n reader).Below (findRoot (n + 1) reader) := by
  induction n generalizing reader with
  | zero => exact Ending.below_cut _
  | succ n ih =>
      rw [findRoot, findRoot]
      split
      · split
        · exact .refl _
        · exact (below_ignoreOrFail n _ _).bind ih
      · exact .refl _
      · exact ih _
      · exact ih _

theorem below_collectChildren (join : String → Option ObjectPath) (n : Nat)
    (children : List ObjectPath) (reader : EventReader ε) :
    (collectChildren join n children reader).Below
      (collectChildren join (n + 1) children reader) := by
  induction n generalizing children reader with
  | zero => exact Ending.below_cut _
  | succ n ih =>
      rw [collectChildren, collectChildren]
      split
      · split
        · split
          · exact ih _ _
          · split
            · exact .refl _
            · exact (below_ignoreOrFail n _ _).bind (ih _)
        · exact (below_ignoreOrFail n _ _).bind (ih _)
      · exact .refl _
      · exact ih _ _
      · exact ih _ _
      · exact ih _ _

theorem stable_getChildren (fromStr : String → EventReader ε)
    (pushPathChecked : ObjectPath → String → Option ObjectPath) (path : ObjectPath)
    (res : MarshalledMessage) : Stable (getChildren fromStr pushPathChecked path res) := by
  intro n
  rw [getChildren, getChildren]
  split
  · exact .refl _
  · split
    · exact (below_findRoot n _).bind (below_collectChildren _ n _)
    · exact .refl _

end Stable

/-! ## Skipped elements -/

section Skipping

variable {last : Last ε}

/-- **A subtree is skipped up to its end tag**, whatever it contains. -/
theorem ignoreXmlTree_content (content : Forest) (name : String) (events : List XmlEvent) :
    Ends (fun n ↦ ignoreXmlTree n ⟨content.events ++ .endElement name :: events, last⟩ name)
      (.done ⟨events, last⟩) := by
  induction content generalizing name events with
  | nil => exact .of_succ (Ending.done_ne_cut _) fun n ↦ if_pos rfl
  | other rest ih => exact (ends_succ fun _ ↦ rfl).mpr (ih name events)
  | element inner attributes content rest ihcontent ihrest =>
      have hcontent := ihcontent inner (rest.events ++ .endElement name :: events)
      rw [Forest.events_element, List.append_assoc, whole_append]
      exact (ends_succ fun _ ↦ rfl).mpr ((ends_bind hcontent).mpr (ihrest name events))

/-- What becomes of a subtree that does not end. -/
def unfinished : Last ε → Ending ε (EventReader ε)
  | .endDocument => .panicked
  | .error e => .failed e

theorem unfinished_ne_cut : (unfinished last) ≠ .cut := by
  cases last with
  | endDocument => exact Ending.panicked_ne_cut
  | error e => exact Ending.failed_ne_cut e

theorem ignoreXmlTree_unclosed {events : List XmlEvent} (h : Unclosed events) (name : String) :
    Ends (fun n ↦ ignoreXmlTree n ⟨events, last⟩ name) (unfinished last) := by
  induction h generalizing name with
  | nil =>
      refine .of_succ unfinished_ne_cut fun n ↦ ?_
      cases last with
      | endDocument => rfl
      | error e => rfl
  | other _ ih => exact (ends_succ fun _ ↦ rfl).mpr (ih name)
  | element inner attributes content _ ih =>
      rw [whole_append]
      exact (ends_succ fun _ ↦ rfl).mpr
        ((ends_bind (ignoreXmlTree_content content inner _)).mpr (ih name))
  | inside inner attributes _ ih =>
      refine (ends_succ fun _ ↦ rfl).mpr
        (ends_bind_of_not_done (ih inner) (fun f ↦ ?_) unfinished_ne_cut)
      cases last with
      | endDocument => rfl
      | error e => rfl

/-- A subtree ends, or it breaks off, or there is a tag in it that does not match. -/
theorem ignoreXmlTree_cases (last : Last ε) (events : List XmlEvent) (name : String) :
    (∃ (content : Forest) (rest : List XmlEvent),
        events = content.events ++ .endElement name :: rest) ∨
      Unclosed events ∨
      Ends (fun n ↦ ignoreXmlTree n ⟨events, last⟩ name) .panicked := by
  induction hlen : events.length using Nat.strong_induction_on generalizing events name with
  | _ len ih =>
      subst hlen
      cases events with
      | nil => exact .inr (.inl .nil)
      | cons e events =>
          have hlt : events.length < (e :: events).length := Nat.lt_succ_self _
          cases e with
          | startDocument => exact .inr (.inr (.of_succ Ending.panicked_ne_cut fun _ ↦ rfl))
          | endElement eName =>
              by_cases heq : eName = name
              · subst heq
                exact .inl ⟨.nil, events, rfl⟩
              · exact .inr (.inr (.of_succ Ending.panicked_ne_cut fun _ ↦ if_neg heq))
          | other =>
              rcases ih _ hlt events name rfl with ⟨content, rest, rfl⟩ | hopen | hpanic
              · exact .inl ⟨.other content, rest, rfl⟩
              · exact .inr (.inl (.other hopen))
              · exact .inr (.inr ((ends_succ fun _ ↦ rfl).mpr hpanic))
          | startElement inner attributes =>
              rcases ih _ hlt events inner rfl with ⟨content, rest, rfl⟩ | hopen | hpanic
              · have hshort := length_lt_whole inner attributes content rest
                rcases ih _ hshort rest name rfl with ⟨content', rest', rfl⟩ | hopen | hpanic
                · refine .inl ⟨.element inner attributes content content', rest', ?_⟩
                  rw [Forest.events_element, List.append_assoc, whole_append]
                · rw [← whole_append]
                  exact .inr (.inl (.element inner attributes content hopen))
                · refine .inr (.inr ((ends_succ fun _ ↦ rfl).mpr ?_))
                  exact (ends_bind (ignoreXmlTree_content content inner rest)).mpr hpanic
              · exact .inr (.inl (.inside inner attributes hopen))
              · refine .inr (.inr ((ends_succ fun _ ↦ rfl).mpr ?_))
                exact ends_bind_of_not_done hpanic (fun _ ↦ rfl) Ending.panicked_ne_cut

/-- A skipped element either ends, breaks off or has a tag in it that does not match. -/
theorem ignoreOrFail_content (content : Forest) (name : String) (events : List XmlEvent) :
    Ends (fun n ↦ ignoreOrFail n ⟨content.events ++ .endElement name :: events, last⟩ name)
      (.done ⟨events, last⟩) :=
  ends_mapError _ (ignoreXmlTree_content content name events)

/-- What becomes of the search when the element that is skipped breaks off. -/
def brokenOff {α : Type} : Last ε → Ending Error α
  | .endDocument => .panicked
  | .error _ => .failed invalidIntrospect

theorem brokenOff_ne_cut {α : Type} : (brokenOff last : Ending Error α) ≠ .cut := by
  cases last with
  | endDocument => exact Ending.panicked_ne_cut
  | error e => exact Ending.failed_ne_cut _

theorem ignoreOrFail_unclosed {α : Type} {events : List XmlEvent} (h : Unclosed events)
    (name : String) (k : Nat → EventReader ε → Ending Error α) :
    Ends (fun n ↦ (ignoreOrFail n ⟨events, last⟩ name).bind (k n)) (brokenOff last) := by
  refine ends_bind_of_not_done (ends_mapError _ (ignoreXmlTree_unclosed h name)) (fun f ↦ ?_)
    brokenOff_ne_cut
  cases last with
  | endDocument => rfl
  | error e => rfl

theorem ignoreOrFail_panicked {α : Type} {events : List XmlEvent} {name : String}
    (h : Ends (fun n ↦ ignoreXmlTree n ⟨events, last⟩ name) .panicked)
    (k : Nat → EventReader ε → Ending Error α) :
    Ends (fun n ↦ (ignoreOrFail n ⟨events, last⟩ name).bind (k n)) .panicked :=
  ends_bind_of_not_done (ends_mapError _ h) (fun _ ↦ rfl) Ending.panicked_ne_cut

end Skipping

/-! ## The first loop -/

section FindRoot

variable {last : Last ε} {name : String} {attributes : List Attribute} {events : List XmlEvent}
  {r : Ending Error (EventReader ε)}

/-- Events the loop takes no notice of. -/
theorem findRoot_skip {e : XmlEvent} (he : ∀ name attributes, e ≠ .startElement name attributes) :
    Ends (fun n ↦ findRoot n ⟨e :: events, last⟩) r ↔
      Ends (fun n ↦ findRoot n ⟨events, last⟩) r := by
  refine ends_succ fun _ ↦ ?_
  cases e with
  | startElement name attributes => exact absurd rfl (he name attributes)
  | startDocument => rfl
  | endElement name => rfl
  | other => rfl

theorem findRoot_start (hname : name ≠ "node") :
    Ends (fun n ↦ findRoot n ⟨.startElement name attributes :: events, last⟩) r ↔
      Ends (fun n ↦ (ignoreOrFail n ⟨events, last⟩ name).bind (findRoot n)) r :=
  ends_succ fun _ ↦ if_neg hname

theorem findRoot_element (hname : name ≠ "node") (content : Forest) :
    Ends (fun n ↦ findRoot n ⟨whole name attributes content ++ events, last⟩) r ↔
      Ends (fun n ↦ findRoot n ⟨events, last⟩) r := by
  rw [whole_append, findRoot_start hname, ends_bind (ignoreOrFail_content content name events)]

theorem findRoot_node :
    Ends (fun n ↦ findRoot n ⟨.startElement "node" attributes :: events, last⟩)
      (.done ⟨events, last⟩) := by
  refine .of_succ (Ending.done_ne_cut _) fun n ↦ ?_
  rw [findRoot]
  exact if_pos rfl

theorem findRoot_endDocument :
    Ends (fun n ↦ findRoot n (⟨[], .endDocument⟩ : EventReader ε)) (.failed invalidIntrospect) :=
  .of_succ (Ending.failed_ne_cut _) fun _ ↦ rfl

/-- An error is not taken notice of either, and the reader has nothing else any more. -/
theorem findRoot_error (e : ε) (n : Nat) : findRoot n ⟨[], .error e⟩ = .cut := by
  induction n with
  | zero => rfl
  | succ n ih => exact ih

/-- What the first loop passes over. -/
inductive Passed : List XmlEvent → Prop
  | nil : Passed []
  | skip (e : XmlEvent) {events : List XmlEvent} :
      (∀ name attributes, e ≠ .startElement name attributes) → Passed events → Passed (e :: events)
  | element (name : String) (attributes : List Attribute) (content : Forest)
      {events : List XmlEvent} :
      name ≠ "node" → Passed events → Passed (whole name attributes content ++ events)

theorem findRoot_passed (h : Passed events) (rest : List XmlEvent) :
    Ends (fun n ↦ findRoot n ⟨events ++ rest, last⟩) r ↔
      Ends (fun n ↦ findRoot n ⟨rest, last⟩) r := by
  induction h with
  | nil => exact Iff.rfl
  | skip e he _ ih => exact (findRoot_skip he).trans ih
  | element name attributes content hname _ ih =>
      rw [List.append_assoc]
      exact (findRoot_element hname content).trans ih

/-- Where the first loop comes to. -/
theorem findRoot_cases (last : Last ε) (events : List XmlEvent) :
    ∃ passed rest, events = passed ++ rest ∧ Passed passed ∧
      (rest = [] ∨ (∃ attributes inner, rest = .startElement "node" attributes :: inner) ∨
        ∃ name attributes inner, rest = .startElement name attributes :: inner ∧ name ≠ "node" ∧
          (Unclosed inner ∨ Ends (fun n ↦ ignoreXmlTree n ⟨inner, last⟩ name) .panicked)) := by
  induction hlen : events.length using Nat.strong_induction_on generalizing events with
  | _ len ih =>
      subst hlen
      cases events with
      | nil => exact ⟨[], [], rfl, .nil, .inl rfl⟩
      | cons e events =>
          have hlt : events.length < (e :: events).length := Nat.lt_succ_self _
          by_cases hstart : ∀ name attributes, e ≠ .startElement name attributes
          · obtain ⟨passed, rest, rfl, hpassed, hrest⟩ := ih _ hlt events rfl
            exact ⟨e :: passed, rest, rfl, .skip e hstart hpassed, hrest⟩
          · simp only [not_forall, not_not] at hstart
            obtain ⟨name, attributes, rfl⟩ := hstart
            by_cases hname : name = "node"
            · subst hname
              exact ⟨[], _, rfl, .nil, .inr (.inl ⟨attributes, events, rfl⟩)⟩
            · rcases ignoreXmlTree_cases last events name with
                ⟨content, rest, rfl⟩ | hopen | hpanic
              · have hshort := length_lt_whole name attributes content rest
                obtain ⟨passed, rest', rfl, hpassed, hrest⟩ := ih _ hshort rest rfl
                refine ⟨whole name attributes content ++ passed, rest', ?_,
                  .element name attributes content hname hpassed, hrest⟩
                rw [List.append_assoc, whole_append]
              · exact ⟨[], _, rfl, .nil,
                  .inr (.inr ⟨name, attributes, events, rfl, hname, .inl hopen⟩)⟩
              · exact ⟨[], _, rfl, .nil,
                  .inr (.inr ⟨name, attributes, events, rfl, hname, .inr hpanic⟩)⟩

end FindRoot

/-! ## The second loop -/

section CollectChildren

variable {join : String → Option ObjectPath} {last : Last ε} {children : List ObjectPath}
  {name : String} {attributes : List Attribute} {events : List XmlEvent}
  {r : Ending Error (List ObjectPath)}

theorem collectChildren_skip {e : XmlEvent}
    (he : e = .startDocument ∨ e = .other) :
    Ends (fun n ↦ collectChildren join n children ⟨e :: events, last⟩) r ↔
      Ends (fun n ↦ collectChildren join n children ⟨events, last⟩) r := by
  refine ends_succ fun _ ↦ ?_
  rcases he with rfl | rfl
  · rfl
  · rfl

/-- A node without a name is entered. -/
theorem collectChildren_nameless (hname : nameOf attributes = none) :
    Ends (fun n ↦ collectChildren join n children
        ⟨.startElement "node" attributes :: events, last⟩) r ↔
      Ends (fun n ↦ collectChildren join n children ⟨events, last⟩) r := by
  refine ends_succ fun n ↦ ?_
  rw [collectChildren, EventReader.next_cons]
  dsimp only
  rw [if_pos rfl, hname]

theorem collectChildren_invalid {childName : String} (hname : nameOf attributes = some childName)
    (hjoin : join childName = none) :
    Ends (fun n ↦ collectChildren join n children
      ⟨.startElement "node" attributes :: events, last⟩) (.failed invalidIntrospect) := by
  refine .of_succ (Ending.failed_ne_cut _) fun n ↦ ?_
  rw [collectChildren, EventReader.next_cons]
  dsimp only
  rw [if_pos rfl, hname]
  dsimp only
  rw [hjoin]

/-- A start tag at which an element is skipped, and what is added to the children before. -/
inductive Skips (join : String → Option ObjectPath) (name : String) (attributes : List Attribute) :
    List ObjectPath → Prop
  | node (childName : String) (childPath : ObjectPath) : name = "node" →
      nameOf attributes = some childName → join childName = some childPath →
      Skips join name attributes [childPath]
  | element : name ≠ "node" → Skips join name attributes []

theorem collectChildren_start {added : List ObjectPath} (h : Skips join name attributes added) :
    Ends (fun n ↦ collectChildren join n children
        ⟨.startElement name attributes :: events, last⟩) r ↔
      Ends (fun n ↦ (ignoreOrFail n ⟨events, last⟩ name).bind
        (collectChildren join n (children ++ added))) r := by
  refine ends_succ fun n ↦ ?_
  rw [collectChildren, EventReader.next_cons]
  dsimp only
  cases h with
  | node childName childPath hnode hname hjoin =>
      subst hnode
      rw [if_pos rfl, hname]
      dsimp only
      rw [hjoin]
  | element hnode => rw [if_neg hnode, List.append_nil]

theorem collectChildren_element {added : List ObjectPath} (h : Skips join name attributes added)
    (content : Forest) :
    Ends (fun n ↦ collectChildren join n children
        ⟨whole name attributes content ++ events, last⟩) r ↔
      Ends (fun n ↦ collectChildren join n (children ++ added) ⟨events, last⟩) r := by
  rw [whole_append, collectChildren_start h,
    ends_bind (ignoreOrFail_content content name events)]

theorem collectChildren_end (children : List ObjectPath) :
    Ends (fun n ↦ collectChildren join n children ⟨.endElement name :: events, last⟩)
      (.done children) := .of_succ (Ending.done_ne_cut _) fun _ ↦ rfl

/-- Neither the end of the document nor an error stops the loop. -/
theorem collectChildren_nil (n : Nat) (children : List ObjectPath) :
    collectChildren join n children ⟨[], last⟩ = .cut := by
  induction n with
  | zero => rfl
  | succ n ih =>
      cases last with
      | endDocument => exact ih
      | error e => exact ih

/-- What the second loop passes over, and the children it adds. -/
inductive Collected (join : String → Option ObjectPath) :
    List XmlEvent → List ObjectPath → Prop
  | nil : Collected join [] []
  | skip (e : XmlEvent) {events : List XmlEvent} {added : List ObjectPath} :
      e = .startDocument ∨ e = .other → Collected join events added →
      Collected join (e :: events) added
  | nameless (attributes : List Attribute) {events : List XmlEvent} {added : List ObjectPath} :
      nameOf attributes = none → Collected join events added →
      Collected join (.startElement "node" attributes :: events) added
  | element (name : String) (attributes : List Attribute) (content : Forest)
      {events : List XmlEvent} {added added' : List ObjectPath} :
      Skips join name attributes added → Collected join events added' →
      Collected join (whole name attributes content ++ events) (added ++ added')

theorem collectChildren_collected {added : List ObjectPath} (h : Collected join events added)
    (children : List ObjectPath) (rest : List XmlEvent) :
    Ends (fun n ↦ collectChildren join n children ⟨events ++ rest, last⟩) r ↔
      Ends (fun n ↦ collectChildren join n (children ++ added) ⟨rest, last⟩) r := by
  induction h generalizing children with
  | nil => rw [List.nil_append, List.append_nil]
  | skip e he _ ih => exact (collectChildren_skip he).trans (ih children)
  | nameless attributes hname _ ih => exact (collectChildren_nameless hname).trans (ih children)
  | element name attributes content hskips _ ih =>
      rw [List.append_assoc, ← List.append_assoc children]
      exact (collectChildren_element hskips content).trans (ih _)

/-- What the loop does at a start tag. -/
theorem skips_cases (join : String → Option ObjectPath) (name : String)
    (attributes : List Attribute) :
    name = "node" ∧ nameOf attributes = none ∨
      (∃ childName, name = "node" ∧ nameOf attributes = some childName ∧ join childName = none) ∨
      ∃ added, Skips join name attributes added := by
  by_cases hnode : name = "node"
  · cases hname : nameOf attributes with
    | none => exact .inl ⟨hnode, rfl⟩
    | some childName =>
        cases hjoin : join childName with
        | none => exact .inr (.inl ⟨childName, hnode, rfl, hjoin⟩)
        | some childPath => exact .inr (.inr ⟨_, .node childName childPath hnode hname hjoin⟩)
  · exact .inr (.inr ⟨[], .element hnode⟩)

/-- Where the second loop comes to. -/
theorem collectChildren_cases (join : String → Option ObjectPath) (last : Last ε)
    (events : List XmlEvent) :
    ∃ passed rest added, events = passed ++ rest ∧ Collected join passed added ∧
      (rest = [] ∨ (∃ name inner, rest = .endElement name :: inner) ∨
        (∃ attributes inner childName, rest = .startElement "node" attributes :: inner ∧
          nameOf attributes = some childName ∧ join childName = none) ∨
        ∃ name attributes inner new, rest = .startElement name attributes :: inner ∧
          Skips join name attributes new ∧
          (Unclosed inner ∨ Ends (fun n ↦ ignoreXmlTree n ⟨inner, last⟩ name) .panicked)) := by
  induction hlen : events.length using Nat.strong_induction_on generalizing events with
  | _ len ih =>
      subst hlen
      cases events with
      | nil => exact ⟨[], [], [], rfl, .nil, .inl rfl⟩
      | cons e events =>
          have hlt : events.length < (e :: events).length := Nat.lt_succ_self _
          obtain ⟨passed, rest, added, hevents, hpassed, hrest⟩ := ih _ hlt events rfl
          cases e with
          | startDocument =>
              exact ⟨_, rest, added, by rw [hevents]; rfl, .skip .startDocument (.inl rfl) hpassed,
                hrest⟩
          | other =>
              exact ⟨_, rest, added, by rw [hevents]; rfl, .skip .other (.inr rfl) hpassed, hrest⟩
          | endElement name =>
              exact ⟨[], _, [], rfl, .nil, .inr (.inl ⟨name, events, rfl⟩)⟩
          | startElement name attributes =>
              rcases skips_cases join name attributes with
                ⟨rfl, hname⟩ | ⟨childName, rfl, hinvalid⟩ | ⟨new, hskips⟩
              · exact ⟨_, rest, added, by rw [hevents]; rfl, .nameless attributes hname hpassed,
                  hrest⟩
              · exact ⟨[], _, [], rfl, .nil,
                  .inr (.inr (.inl ⟨attributes, events, childName, rfl, hinvalid⟩))⟩
              · rcases ignoreXmlTree_cases last events name with
                  ⟨content, rest', rfl⟩ | hopen | hpanic
                · have hshort := length_lt_whole name attributes content rest'
                  obtain ⟨passed', rest'', added', rfl, hpassed', hrest'⟩ := ih _ hshort rest' rfl
                  refine ⟨whole name attributes content ++ passed', rest'', new ++ added', ?_,
                    .element name attributes content hskips hpassed', hrest'⟩
                  rw [List.append_assoc, whole_append]
                · exact ⟨[], _, [], rfl, .nil, .inr (.inr (.inr
                    ⟨name, attributes, events, new, rfl, hskips, .inl hopen⟩))⟩
                · exact ⟨[], _, [], rfl, .nil, .inr (.inr (.inr
                    ⟨name, attributes, events, new, rfl, hskips, .inr hpanic⟩))⟩

end CollectChildren

/-! ## What is found -/

/-- Whatever the events are, a child that is found is a name joined to the path. -/
theorem mem_of_collectChildren {join : String → Option ObjectPath} {n : Nat}
    {children paths : List ObjectPath} {reader : EventReader ε}
    (h : collectChildren join n children reader = .done paths) {p : ObjectPath} (hp : p ∈ paths) :
    p ∈ children ∨ ∃ name, join name = some p := by
  induction n generalizing children reader with
  | zero => contradiction
  | succ n ih =>
      rw [collectChildren] at h
      split at h
      · split at h
        · split at h
          · exact ih h
          · next childName _ =>
              split at h
              · contradiction
              · next childPath hjoin =>
                  obtain ⟨reader', -, h⟩ := Ending.bind_eq_done.mp h
                  rcases ih h with hmem | hfound
                  · rcases List.mem_append.mp hmem with hmem | hmem
                    · exact .inl hmem
                    · obtain rfl := List.mem_singleton.mp hmem
                      exact .inr ⟨childName, hjoin⟩
                  · exact .inr hfound
        · obtain ⟨reader', -, h⟩ := Ending.bind_eq_done.mp h
          exact ih h
      · exact .inl (Ending.done.inj h ▸ hp)
      · exact ih h
      · exact ih h
      · exact ih h

/-- **Children are below their parent**, if joining a name leads below it. -/
theorem below_of_getChildren {fromStr : String → EventReader ε}
    {pushPathChecked : ObjectPath → String → Option ObjectPath} {path : ObjectPath}
    (hpush : ∀ name p, pushPathChecked path name = some p → path.Below p)
    {res : MarshalledMessage} {n : Nat} {paths : List ObjectPath}
    (h : getChildren fromStr pushPathChecked path res n = .done paths) :
    ∀ p ∈ paths, path.Below p := by
  intro p hp
  rw [getChildren] at h
  split at h
  · contradiction
  · split at h
    · obtain ⟨reader, -, h⟩ := Ending.bind_eq_done.mp h
      rcases mem_of_collectChildren h hp with hmem | ⟨name, hname⟩
      · contradiction
      · exact hpush name p hname
    · contradiction

end Rustable
