import Rustable.Children.Documents
import Rustable.Introspect

/-!
# Introspection texts are read back

The introspection handlers put a text together, and `get_children` takes one apart.  The tags of
a text from the handlers are those of a document (`spells_intro`): a node with the interfaces and
one node for each child.  If the reader of XML comes across just that, text and white space apart,
`get_children` returns the paths of the children (`getChildren_intro`).
-/

namespace Rustable.Introspect

open DBus Xml

/-! ## The tags of a text -/

/-- What has been read of the attributes in a tag. -/
inductive InTag
  | between
  | name (cs : List Char)
  | quote (name : String)
  | value (name : String) (cs : List Char)

/-- The attributes in a tag, from some point on. -/
def attributesOf : InTag → List Char → Option (List Attribute)
  | .between, [] => some []
  | .between, c :: cs => attributesOf (if c = ' ' then .between else .name [c]) cs
  | .name name, c :: cs =>
      attributesOf (if c = '=' then .quote (String.ofList name.reverse) else .name (c :: name)) cs
  | .quote name, c :: cs => if c = '"' then attributesOf (.value name []) cs else none
  | .value name value, c :: cs =>
      if c = '"' then
        (attributesOf .between cs).map ((name, String.ofList value.reverse) :: ·)
      else attributesOf (.value name (c :: value)) cs
  | .name _, [] | .quote _, [] | .value _ _, [] => none

/-- The events of a tag, which is written without its brackets. -/
def tagEvents : List Char → Option (List XmlEvent)
  -- A declaration.
  | '!' :: _ => some []
  | '/' :: name => some [.endElement (String.ofList name)]
  | tag => do
      let empty := tag.getLast? = some '/'
      let tag := if empty then tag.dropLast else tag
      let name := String.ofList (tag.takeWhile (· ≠ ' '))
      let attributes ← attributesOf .between (tag.dropWhile (· ≠ ' '))
      return .startElement name attributes :: if empty then [.endElement name] else []

/-- The events of some tags. -/
def eventsOf : List (List Char) → Option (List XmlEvent)
  | [] => some []
  | tag :: tags => do return (← tagEvents tag) ++ (← eventsOf tags)

theorem eventsOf_append {tags tags' : List (List Char)} {es es' : List XmlEvent}
    (h : eventsOf tags = some es) (h' : eventsOf tags' = some es') :
    eventsOf (tags ++ tags') = some (es ++ es') := by
  induction tags generalizing es with
  | nil =>
      obtain rfl := Option.some.inj h
      exact h'
  | cons tag tags ih =>
      obtain ⟨first, hfirst, h⟩ := Option.bind_eq_some_iff.mp h
      obtain ⟨rest, hrest, h⟩ := Option.bind_eq_some_iff.mp h
      obtain rfl := Option.some.inj h
      rw [List.cons_append, eventsOf, hfirst, ih hrest, List.append_assoc]
      rfl

/-- A text that consists of whole tags, which have the events. -/
structure Tags (text : String) (events : List XmlEvent) : Prop where
  closed : unclosed none text.toList = none
  events : eventsOf (tags none text.toList) = some events

theorem Tags.append {text text' : String} {es es' : List XmlEvent} (h : Tags text es)
    (h' : Tags text' es') : Tags (text ++ text') (es ++ es') := by
  constructor
  · rw [String.toList_append, unclosed_append, h.closed, h'.closed]
  · rw [String.toList_append, tags_append, h.closed]
    exact eventsOf_append h.events h'.events

/-- The events of a text that is spelled out. -/
def spelled (cs : List Char) : List XmlEvent := (eventsOf (tags none cs)).getD []

theorem Tags.ofList {cs : List Char} (hclosed : unclosed none cs = none)
    (h : (eventsOf (tags none cs)).isSome) : Tags (String.ofList cs) (spelled cs) := by
  constructor
  · rwa [String.toList_ofList]
  · obtain ⟨es, hes⟩ := Option.isSome_iff_exists.mp h
    rw [String.toList_ofList, spelled, hes]
    rfl

/-- The tags of the text are those of the document. -/
def Spells (text : String) (d : Document) : Prop :=
  Tags text (whole d.name d.attributes d.content)

/-! ## Interfaces -/

/-- No node is among the elements. -/
def NoNodes : Forest → Bool
  | .nil => true
  | .other rest => NoNodes rest
  | .element name _ _ rest => name ≠ "node" && NoNodes rest

/-- A text with elements, but without nodes. -/
def Elements (text : String) : Prop := ∃ f, Tags text f.events ∧ NoNodes f = true

/-- Whether the events are those of some elements, none of which is a node. -/
def areElements (events : List XmlEvent) : Bool :=
  match forestOf (events.length + 1) events with
  | some (f, []) => NoNodes f
  | _ => false

theorem exists_forest {events : List XmlEvent} (h : areElements events = true) :
    ∃ f, events = f.events ∧ NoNodes f = true := by
  rw [areElements] at h
  split at h
  · next f hf =>
      have heq := events_of_forestOf hf
      rw [List.append_nil] at heq
      exact ⟨f, heq, h⟩
  · contradiction

theorem Elements.of_tags {text : String} {events : List XmlEvent} (h : Tags text events)
    (hevents : areElements events = true) : Elements text := by
  obtain ⟨f, rfl, hf⟩ := exists_forest hevents
  exact ⟨f, h, hf⟩

theorem Elements.append {text text' : String} (h : Elements text) (h' : Elements text') :
    Elements (text ++ text') := by
  obtain ⟨f, htags, hf⟩ := h
  obtain ⟨g, htags', hg⟩ := h'
  refine ⟨f.append g, Forest.events_append f g ▸ htags.append htags', ?_⟩
  clear htags
  induction f with
  | nil => exact hg
  | other rest ih => exact ih hf
  | element name attributes content rest _ ih =>
      obtain ⟨hname, hrest⟩ := Bool.and_eq_true_iff.mp hf
      exact Bool.and_eq_true_iff.mpr ⟨hname, ih hrest⟩

theorem elements_propStr : Elements propStr := by
  apply Elements.of_tags
  · unfold propStr
    repeat' apply Tags.append
    all_goals exact .ofList (by decide +kernel) (by decide +kernel)
  · decide +kernel

theorem elements_serviceStr : Elements serviceStr := by
  apply Elements.of_tags
  · unfold serviceStr
    repeat' apply Tags.append
    all_goals exact .ofList (by decide +kernel) (by decide +kernel)
  · decide +kernel

theorem elements_charStr : Elements charStr := by
  apply Elements.of_tags
  · unfold charStr
    repeat' apply Tags.append
    all_goals exact .ofList (by decide +kernel) (by decide +kernel)
  · decide +kernel

theorem elements_descStr : Elements descStr := by
  apply Elements.of_tags
  · unfold descStr
    repeat' apply Tags.append
    all_goals exact .ofList (by decide +kernel) (by decide +kernel)
  · decide +kernel

theorem elements_mangagerStr : Elements mangagerStr := by
  apply Elements.of_tags
  · unfold mangagerStr
    repeat' apply Tags.append
    all_goals exact .ofList (by decide +kernel) (by decide +kernel)
  · decide +kernel

/-! ## The node around them -/

/-- A text that starts a node, with elements in it. -/
def Starts (text : String) : Prop :=
  ∃ f, Tags text (.startElement "node" [] :: f.events) ∧ NoNodes f = true

theorem Starts.of_tags {text : String} {events : List XmlEvent} (h : Tags text events)
    (hhead : events.head? = some (.startElement "node" []))
    (htail : areElements events.tail = true) : Starts text := by
  obtain ⟨rest, rfl⟩ := List.head?_eq_some_iff.mp hhead
  obtain ⟨f, hrest, hf⟩ := exists_forest htail
  exact ⟨f, congrArg (Tags text <| XmlEvent.startElement "node" [] :: ·) hrest ▸ h, hf⟩

set_option maxRecDepth 4000 in
theorem starts_introspectFmtP1 : Starts introspectFmtP1 := by
  apply Starts.of_tags
  · unfold introspectFmtP1
    repeat' apply Tags.append
    all_goals exact .ofList (by decide +kernel) (by decide +kernel)
  · decide +kernel
  · decide +kernel

theorem tags_introspectFmtP3 : Tags introspectFmtP3 [.endElement "node"] :=
  ⟨by decide +kernel, by decide +kernel⟩

/-! ## The nodes of the children -/

/-- One node for each name. -/
def nodes : List String → Forest
  | [] => .nil
  | name :: names => .element "node" [("name", name)] .nil (nodes names)

theorem attributesOf_value (name : String) {value : List Char} (hvalue : '"' ∉ value)
    (read rest : List Char) : attributesOf (.value name read) (value ++ '"' :: rest) =
      (attributesOf .between rest).map ((name, String.ofList (read.reverse ++ value)) :: ·) := by
  induction value generalizing read with
  | nil => rw [List.append_nil, List.nil_append, attributesOf, if_pos rfl]
  | cons c value ih =>
      obtain ⟨hc, hvalue⟩ := not_or.mp (mt List.mem_cons.mpr hvalue)
      rw [List.cons_append, attributesOf, if_neg (Ne.symm hc), ih hvalue, List.reverse_cons,
        List.append_assoc]
      rfl

theorem tagEvents_child {name : List Char} (h : '"' ∉ name) :
    tagEvents ("node name=\"".toList ++ (name ++ '"' :: ['/'])) =
      some [.startElement "node" [("name", String.ofList name)], .endElement "node"] := by
  let tag := 'n' :: ("ode name=\"".toList ++ (name ++ ['"']))
  have htag : "node name=\"".toList ++ (name ++ '"' :: ['/']) = tag ++ ['/'] := by simp [tag]
  have hattributes : attributesOf .between (tag.dropWhile (· ≠ ' ')) =
      some [("name", String.ofList name)] := by
    have hdrop : tag.dropWhile (· ≠ ' ') = " name=\"".toList ++ (name ++ '"' :: []) := by
      simp [tag]
    rw [hdrop]
    exact attributesOf_value "name" h [] []
  have hname : tag.takeWhile (· ≠ ' ') = "node".toList := by simp [tag]
  have hlast : (tag ++ ['/']).getLast? = some '/' := List.getLast?_concat
  have hinit : (tag ++ ['/']).dropLast = tag := List.dropLast_concat
  rw [htag, tagEvents]
  · simp only [hlast, hinit, if_true, hattributes, hname]
    rfl
  · exact fun _ h ↦ absurd (List.cons.inj h).1 (by decide)
  · exact fun _ h ↦ absurd (List.cons.inj h).1 (by decide)

/-- The line of a child. -/
theorem tags_child {name : String} (h : Quotable name) :
    Tags ("\t<node name=\"" ++ name ++ "\"/>\n")
      [.startElement "node" [("name", name)], .endElement "node"] := by
  obtain ⟨hbracket, hquote⟩ := h
  have htext : ("\t<node name=\"" ++ name ++ "\"/>\n").toList =
      '\t' :: '<' :: (("node name=\"".toList ++ (name.toList ++ '"' :: ['/'])) ++ ['>', '\n']) := by
    simp
  have hnotMem : '>' ∉ "node name=\"".toList ++ (name.toList ++ '"' :: ['/']) := by
    simpa using hbracket
  obtain ⟨htags, hclosed⟩ := tags_line hnotMem
  constructor
  · rw [htext, hclosed]
  · rw [htext, htags, eventsOf, tagEvents_child hquote, String.ofList_toList]
    rfl

theorem tags_childNodes {children : List String} (h : ∀ child ∈ children, Quotable child)
    {dst : String} {events : List XmlEvent} (hdst : Tags dst events) :
    Tags (childNodes children dst) (events ++ (nodes children).events) := by
  induction children generalizing dst events with
  | nil =>
      rw [nodes, Forest.events, List.append_nil]
      exact hdst
  | cons child children ih =>
      obtain ⟨hchild, hchildren⟩ := List.forall_mem_cons.mp h
      have hnext := hdst.append (tags_child hchild)
      rw [← String.append_assoc, ← String.append_assoc] at hnext
      have hrest := ih hchildren hnext
      rwa [List.append_assoc] at hrest

/-! ## The text -/

theorem enteredNames_append {f : Forest} (h : NoNodes f = true) (g : Forest) :
    enteredNames (f.append g) = enteredNames g := by
  induction f with
  | nil => rfl
  | other rest ih => exact ih h
  | element name attributes content rest _ ih =>
      obtain ⟨hname, hrest⟩ := Bool.and_eq_true_iff.mp h
      rw [Forest.append, enteredNames, if_neg (of_decide_eq_true hname), ih hrest]

theorem enteredNames_nodes (names : List String) : enteredNames (nodes names) = names := by
  induction names with
  | nil => rfl
  | cons name names ih => exact congrArg (name :: ·) ih

/-- What is no element makes no difference. -/
theorem enteredNames_bare (f : Forest) : enteredNames f.bare = enteredNames f := by
  induction f with
  | nil => rfl
  | other rest ih => exact ih
  | element name attributes content rest ihcontent ihrest =>
      rw [Forest.bare, enteredNames, enteredNames, ihcontent, ihrest]

/-- **A text from the handlers spells a document**, with a node for each child. -/
theorem spells_intro {interfaces : String} {children : List String} (h : Elements interfaces)
    (hchildren : ∀ child ∈ children, IsElement child.toList) :
    ∃ d : Document, d.name = "node" ∧ enteredNames d.content = children ∧
      Spells (childNodes children (introspectFmtP1 ++ interfaces) ++ introspectFmtP3) d := by
  have hquotable : ∀ child ∈ children, Quotable child := by
    intro child hchild
    have hpath := (hchildren child hchild).2
    exact ⟨fun hmem ↦ absurd (hpath '>' hmem) (by decide),
      fun hmem ↦ absurd (hpath '"' hmem) (by decide)⟩
  obtain ⟨f, hf, hfnodes⟩ := starts_introspectFmtP1
  obtain ⟨g, hg, hgnodes⟩ := h
  let d : Document :=
    { before := 0, name := "node", attributes := [], behind := 0
      content := f.append (g.append (nodes children)) }
  refine ⟨d, rfl, ?_, ?_⟩
  · change enteredNames (f.append (g.append (nodes children))) = children
    rw [enteredNames_append hfnodes, enteredNames_append hgnodes, enteredNames_nodes]
  · have htags := (tags_childNodes hquotable (hf.append hg)).append tags_introspectFmtP3
    have hevents : whole d.name d.attributes d.content =
        .startElement "node" [] :: f.events ++ g.events ++ (nodes children).events ++
          [.endElement "node"] := by
      simp [d, whole]
    rw [Spells, hevents]
    exact htags

/-- **What is read of a text from the handlers**, if the reader comes across the elements that
it spells. -/
theorem getChildren_intro {ε : Type} {fromStr : String → EventReader ε}
    {pushPathChecked : ObjectPath → String → Option ObjectPath} {path : ObjectPath}
    {res : MarshalledMessage} {text : String} {d d' : Document} (hname : d.name = "node")
    (hbody : res.body.get String = .ok text) (hsame : d.Same d')
    (hread : fromStr text = d'.reader) :
    Ends (getChildren fromStr pushPathChecked path res)
      (joined (pushPathChecked path) [] (enteredNames d.content)) := by
  have hends := @getChildren_document _ fromStr pushPathChecked path _ _ _ hbody hread
  rw [hsame.name, if_pos hname] at hends
  rwa [← enteredNames_bare, ← hsame.content, enteredNames_bare]

end Rustable.Introspect
