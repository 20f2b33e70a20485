import Rustable.Basic

/-!
# Introspection texts

The XML of `introspect.rs`, piece by piece, and the list of child nodes put between the
pieces.  The names that are put into a text are those of the nodes one finds in it
(`names_intro`).
-/

namespace Rustable.Introspect

/-- `INTROSPECT_FMT_P1` -/
def introspectFmtP1 : String :=
  "<!DOCTYPE node PUBLIC \"-//freedesktop//DTD D-BUS Object Introspection 1.0//EN\" \"http://www.freedesktop.org/standards/dbus/1.0/introspect.dtd\">\n" ++
    " <node>\n" ++
    "\t<interface name=\"org.freedesktop.DBus.Introspectable\">\n" ++
    "\t\t<method name=\"Introspect\">\n" ++
    "\t\t\t<arg name=\"xml_data\" type=\"s\" direction=\"out\"/>\n" ++
    "\t\t</method>\n" ++
    "\t</interface>\n"

/-- `INTROSPECT_FMT_P3` -/
def introspectFmtP3 : String :=
  " </node>"

/-- `PROP_STR` -/
def propStr : String :=
  "\t<interface name=\"org.freedesktop.DBus.Properties\">\n" ++
    "\t\t<method name=\"Get\">\n" ++
    "\t\t\t<arg name=\"interface_name\" type=\"s\" direction=\"in\"/>\n" ++
    "\t\t\t<arg name=\"property_name\" type=\"s\" direction=\"in\"/>\n" ++
    "\t\t\t<arg name=\"value\" type=\"v\" direction=\"out\"/>\n" ++
    "\t\t</method>\n" ++
    "\t\t<method name=\"GetAll\">\n" ++
    "\t\t\t<arg name=\"interface_name\" type=\"s\" direction=\"in\"/>\n" ++
    "\t\t\t<arg name=\"props\" type=\"a\x7bsv\x7d\" direction=\"out\"/>\n" ++
    "\t\t</method>\n" ++
    "\t\t<method name=\"Set\">\n" ++
    "\t\t\t<arg name=\"interface_name\" type=\"s\" direction=\"in\"/>\n" ++
    "\t\t\t<arg name=\"property_name\" type=\"s\" direction=\"in\"/>\n" ++
    "\t\t\t<arg name=\"value\" type=\"v\" direction=\"in\"/>\n" ++
    "\t\t</method>\n" ++
    "\t</interface>\n"

/-- `ADV_STR` -/
def advStr : String :=
  "\t<interface name=\"org.bluez.LEAdvertisement1\">\n" ++
    "\t\t<method name=\"Release\"/>\n" ++
    "\t\t<property name=\"Type\" type=\"s\" access=\"readwrite\"/>\n" ++
    "\t\t<property name=\"ServiceUUIDs\" type=\"as\" access=\"readwrite\"/>\n" ++
    "\t\t<property name=\"SolicitUUIDs\" type=\"as\" access=\"readwrite\"/>\n" ++
    "\t\t<property name=\"ServiceData\" type=\"a\x7bsv\x7d\" access=\"readwrite\"/>\n" ++
    "\t\t<property name=\"ManufacturerData\" type=\"a\x7bqa\x7by\x7d\x7d\" access=\"readwrite\"/>\n" ++
    "\t\t<property name=\"Data\" type=\"a\x7bsv\x7d\" access=\"readwrite\"/>\n" ++
    "\t\t<property name=\"Discoverable\" type=\"b\" access=\"readwrite\"/>\n" ++
    "\t\t<property name=\"DiscoverableTimeout\" type=\"q\" access=\"readwrite\"/>\n" ++
    "\t\t<property name=\"Includes\" type=\"ao\" access=\"readwrite\"/>\n" ++
    "\t\t<property name=\"LocalName\" type=\"s\" access=\"readwrite\"/>\n" ++
    "\t\t<property name=\"Appearance\" type=\"q\" access=\"readwrite\"/>\n" ++
    "\t\t<property name=\"Duration\" type=\"q\" access=\"readwrite\"/>\n" ++
    "\t\t<property name=\"Timeout\" type=\"q\" access=\"readwrite\"/>\n" ++
    "\t\t<property name=\"SecondaryChannel\" type=\"s\" access=\"readwrite\"/>\n" ++
    "\t</interface>\n"

/-- `SERVICE_STR` -/
def serviceStr : String :=
  "\t<interface name=\"org.bluez.GattService1\">\n" ++
    "\t\t<property name=\"UUID\" type=\"s\" access=\"read\"/>\n" ++
    "\t\t<property name=\"Primary\" type=\"b\" access=\"read\"/>\n" ++
    "\t\t<property name=\"Device\" type=\"o\" access=\"read\"/>\n" ++
    "\t\t<property name=\"Handle\" type=\"q\" access=\"read\"/>\n" ++
    "\t\t<property name=\"Includes\" type=\"as\" access=\"read\"/>\n" ++
    "\t</interface>\n"

/-- `CHAR_STR` -/
def charStr : String :=
  "\t<interface name=\"org.bluez.GattCharacteristic1\">\n" ++
    "\t\t<method name=\"ReadValue\">\n" ++
    "\t\t\t<arg name=\"options\" type=\"a\x7bsv\x7d\" direction=\"in\"/>\n" ++
    "\t\t\t<arg name=\"value\" type=\"ay\" direction=\"out\"/>\n" ++
    "\t\t</method>\n" ++
    "\t\t<method name=\"WriteValue\">\n" ++
    "\t\t\t<arg name=\"value\" type=\"ay\" direction=\"in\"/>\n" ++
    "\t\t\t<arg name=\"options\" type=\"a\x7bsv\x7d\" direction=\"in\"/>\n" ++
    "\t\t</method>\n" ++
    "\t\t<method name=\"AcquireWrite\">\n" ++
    "\t\t\t<arg name=\"options\" type=\"a\x7bsv\x7d\" direction=\"in\"/>\n" ++
    "\t\t\t<arg name=\"write_fd\" type=\"h\" direction=\"out\"/>\n" ++
    "\t\t\t<arg name=\"mtu\" type=\"q\" direction=\"out\"/>\n" ++
    "\t\t</method>\n" ++
    "\t\t<method name=\"AcquireNotify\">\n" ++
    "\t\t\t<arg name=\"options\" type=\"a\x7bsv\x7d\" direction=\"in\"/>\n" ++
    "\t\t\t<arg name=\"write_fd\" type=\"h\" direction=\"out\"/>\n" ++
    "\t\t\t<arg name=\"mtu\" type=\"q\" direction=\"out\"/>\n" ++
    "\t\t</method>\n" ++
    "\t\t<method name=\"StartNotify\"/>\n" ++
    "\t\t<method name=\"StopNotify\"/>\n" ++
    "\t\t<method name=\"Confirm\"/>\n" ++
    "\t\t<property name=\"UUID\" type=\"s\" access=\"read\"/>\n" ++
    "\t\t<property name=\"Service\" type=\"s\" access=\"read\"/>\n" ++
    "\t\t<property name=\"Value\" type=\"ay\" access=\"read\"/>\n" ++
    "\t\t<property name=\"WriteAcquired\" type=\"b\" access=\"read\"/>\n" ++
    "\t\t<property name=\"NotifyAcquired\" type=\"b\" access=\"read\"/>\n" ++
    "\t\t<property name=\"Notifying\" type=\"b\" access=\"read\"/>\n" ++
    "\t\t<property name=\"Flags\" type=\"as\" access=\"read\"/>\n" ++
    "\t\t<property name=\"Handle\" type=\"q\" access=\"readwrite\"/>\n" ++
    "\t</interface>\n"

/-- `DESC_STR` -/
def descStr : String :=
  "\t<interface name=\"org.bluez.GattDescriptor1\">\n" ++
    "\t\t<method name=\"ReadValue\">\n" ++
    "\t\t\t<arg name=\"options\" type=\"a\x7bsv\x7d\" direction=\"in\"/>\n" ++
    "\t\t\t<arg name=\"value\" type=\"ay\" direction=\"out\"/>\n" ++
    "\t\t</method>\n" ++
    "\t\t<method name=\"WriteValue\">\n" ++
    "\t\t\t<arg name=\"value\" type=\"ay\" direction=\"in\"/>\n" ++
    "\t\t\t<arg name=\"options\" type=\"a\x7bsv\x7d\" direction=\"in\"/>\n" ++
    "\t\t</method>\n" ++
    "\t\t<property name=\"UUID\" type=\"s\" access=\"read\"/>\n" ++
    "\t\t<property name=\"Characteristic\" type=\"s\" access=\"read\"/>\n" ++
    "\t\t<property name=\"Value\" type=\"ay\" access=\"read\"/>\n" ++
    "\t\t<property name=\"Flags\" type=\"as\" access=\"read\"/>\n" ++
    "\t\t<property name=\"Handle\" type=\"q\" access=\"readwrite\"/>\n" ++
    "\t</interface>\n"

/-- `MANGAGER_STR` -/
def mangagerStr : String :=
  "\t<interface name=\"org.freedesktop.DBus.ObjectManager\">\n" ++
    "\t\t<method name=\"GetManagedObjects\">\n" ++
    "\t\t\t<arg type=\"a\x7boa\x7bsa\x7bsv\x7d\x7d\x7d\" name=\"object_paths_interfaces_and_properties\" direction=\"out\"/>\n" ++
    "\t\t</method>\n" ++
    "\t\t<signal name=\"InterfacesAdded\">\n" ++
    "\t\t\t<arg type=\"o\" name=\"object_path\"/>\n" ++
    "\t\t\t<arg type=\"a\x7bsa\x7bsv\x7d\x7d\" name=\"interfaces_and_properties\"/>\n" ++
    "\t\t</signal>\n" ++
    "\t\t<signal name=\"InterfacesRemoved\">\n" ++
    "\t\t\t<arg type=\"o\" name=\"object_path\"/>\n" ++
    "\t\t\t<arg type=\"as\" name=\"interfaces\"/>\n" ++
    "\t\t</signal>\n" ++
    "\t</interface>\n"

/-- `child_nodes`: one node element for each name, appended to the text. -/
def childNodes (children : List String) (dst : String) : String :=
  children.foldl (fun dst child ↦ dst ++ "\t<node name=\"" ++ child ++ "\"/>\n") dst

/-- `format!("{}{:04x}", prefix, u)` for the `u` below a number: the names of the
children. -/
def childNames (kind : String) (count : Nat) : List String :=
  (List.range count).map fun u ↦ kind ++ String.ofList (Text.hex .lower 4 u)

/-! ## Reading a text -/

/-- The tags of a text, without their brackets; `tag` is what has been read of one that is
open, backwards. -/
def tags : Option (List Char) → List Char → List (List Char)
  | _, [] => []
  | none, c :: cs => tags (if c = '<' then some [] else none) cs
  | some tag, c :: cs =>
      if c = '>' then tag.reverse :: tags none cs else tags (some (c :: tag)) cs

/-- What has been read of a tag that is open at the end of a text. -/
def unclosed : Option (List Char) → List Char → Option (List Char)
  | tag, [] => tag
  | none, c :: cs => unclosed (if c = '<' then some [] else none) cs
  | some tag, c :: cs => unclosed (if c = '>' then none else some (c :: tag)) cs

/-- The name of a node, if the tag is that of a node with a name. -/
def nodeName (tag : List Char) : Option String :=
  ("node name=\"".toList.isPrefixOf? tag).map fun cs ↦ String.ofList (cs.takeWhile (· ≠ '"'))

/-- The names of the nodes in a text. -/
def nodeNames (text : String) : List String := (tags none text.toList).filterMap nodeName

theorem tags_append (tag : Option (List Char)) (cs ds : List Char) :
    tags tag (cs ++ ds) = tags tag cs ++ tags (unclosed tag cs) ds := by
  induction cs generalizing tag with
  | nil => cases tag <;> rfl
  | cons c cs ih =>
      cases tag with
      | none => simp only [List.cons_append, tags, unclosed, ih]
      | some tag =>
          simp only [List.cons_append, tags, unclosed]
          split
          · rw [ih, List.cons_append]
          · rw [ih]

theorem unclosed_append (tag : Option (List Char)) (cs ds : List Char) :
    unclosed tag (cs ++ ds) = unclosed (unclosed tag cs) ds := by
  induction cs generalizing tag with
  | nil => cases tag <;> rfl
  | cons c cs ih =>
      cases tag with
      | none | some => simp only [List.cons_append, unclosed, ih]

/-- Up to the next bracket a tag stays open. -/
theorem tags_of_notMem {cs : List Char} (h : '>' ∉ cs) (tag : List Char) :
    tags (some tag) cs = [] ∧ unclosed (some tag) cs = some (cs.reverse ++ tag) := by
  induction cs generalizing tag with
  | nil => exact ⟨rfl, rfl⟩
  | cons c cs ih =>
      obtain ⟨hc, hcs⟩ := not_or.mp (mt List.mem_cons.mpr h)
      obtain ⟨htags, hopen⟩ := ih hcs (c :: tag)
      rw [tags, unclosed, if_neg (Ne.symm hc), if_neg (Ne.symm hc)]
      refine ⟨htags, hopen.trans ?_⟩
      rw [List.reverse_cons, List.append_assoc]
      rfl

/-- A text that consists of whole tags and contains the names. -/
structure Names (text : String) (names : List String) : Prop where
  closed : unclosed none text.toList = none
  names : nodeNames text = names

instance (text : String) (names : List String) : Decidable (Names text names) :=
  decidable_of_iff (unclosed none text.toList = none ∧ nodeNames text = names)
    ⟨fun h ↦ ⟨h.1, h.2⟩, fun h ↦ ⟨h.closed, h.names⟩⟩

theorem Names.append {text text' : String} {names names' : List String} (h : Names text names)
    (h' : Names text' names') : Names (text ++ text') (names ++ names') := by
  constructor
  · rw [String.toList_append, unclosed_append, h.closed, h'.closed]
  · rw [nodeNames, String.toList_append, tags_append, h.closed, List.filterMap_append]
    exact congrArg₂ (· ++ ·) h.names h'.names

/-- Texts that contain no names. -/
theorem Names.seq {text text' : String} (h : Names text []) (h' : Names text' []) :
    Names (text ++ text') [] := h.append h'

/-- The names in a text that is spelled out. -/
theorem Names.ofList {cs : List Char} {names : List String} (hclosed : unclosed none cs = none)
    (h : (tags none cs).filterMap nodeName = names) : Names (String.ofList cs) names := by
  constructor
  · rwa [String.toList_ofList]
  · rwa [nodeNames, String.toList_ofList]

set_option maxRecDepth 4000 in
theorem names_introspectFmtP1 : Names introspectFmtP1 [] := by
  unfold introspectFmtP1
  repeat' apply Names.seq
  all_goals exact .ofList (by decide +kernel) (by decide +kernel)

theorem names_introspectFmtP3 : Names introspectFmtP3 [] := by
  exact .ofList (by decide +kernel) (by decide +kernel)

theorem names_propStr : Names propStr [] := by
  unfold propStr
  repeat' apply Names.seq
  all_goals exact .ofList (by decide +kernel) (by decide +kernel)

theorem names_serviceStr : Names serviceStr [] := by
  unfold serviceStr
  repeat' apply Names.seq
  all_goals exact .ofList (by decide +kernel) (by decide +kernel)

theorem names_charStr : Names charStr [] := by
  unfold charStr
  repeat' apply Names.seq
  all_goals exact .ofList (by decide +kernel) (by decide +kernel)

theorem names_descStr : Names descStr [] := by
  unfold descStr
  repeat' apply Names.seq
  all_goals exact .ofList (by decide +kernel) (by decide +kernel)

theorem names_mangagerStr : Names mangagerStr [] := by
  unfold mangagerStr
  repeat' apply Names.seq
  all_goals exact .ofList (by decide +kernel) (by decide +kernel)

/-! ## The names of children -/

/-- A name that can stand in quotes in a tag. -/
def Quotable (name : String) : Prop := '>' ∉ name.toList ∧ '"' ∉ name.toList

theorem nodeName_node {cs : List Char} (hcs : '"' ∉ cs) (rest : List Char) :
    nodeName ("node name=\"".toList ++ (cs ++ '"' :: rest)) = some (String.ofList cs) := by
  have hprefix : "node name=\"".toList.isPrefixOf? ("node name=\"".toList ++ (cs ++ '"' :: rest)) =
      some (cs ++ '"' :: rest) := List.isPrefixOf?_eq_some_iff_append_eq.mpr rfl
  have hcs' : ∀ c ∈ cs, (decide (c ≠ '"')) = true := by
    rintro c hc
    exact decide_eq_true fun heq ↦ hcs (heq ▸ hc)
  rw [nodeName, hprefix, Option.map_some, List.takeWhile_append_of_pos hcs']
  simp

/-- A line with one tag. -/
theorem tags_line {cs : List Char} (h : '>' ∉ cs) :
    tags none ('\t' :: '<' :: (cs ++ ['>', '\n'])) = [cs] ∧
      unclosed none ('\t' :: '<' :: (cs ++ ['>', '\n'])) = none := by
  obtain ⟨htags, hopen⟩ := tags_of_notMem h []
  rw [List.append_nil] at hopen
  have hstart : tags none ('\t' :: '<' :: (cs ++ ['>', '\n'])) =
      tags (some []) (cs ++ ['>', '\n']) := rfl
  have hstart' : unclosed none ('\t' :: '<' :: (cs ++ ['>', '\n'])) =
      unclosed (some []) (cs ++ ['>', '\n']) := rfl
  rw [hstart, hstart', tags_append, unclosed_append, htags, hopen]
  exact ⟨congrArg (· :: []) (List.reverse_reverse cs), rfl⟩

/-- The element of a child. -/
theorem names_child {name : String} (h : Quotable name) :
    Names ("\t<node name=\"" ++ name ++ "\"/>\n") [name] := by
  obtain ⟨hbracket, hquote⟩ := h
  have htext : ("\t<node name=\"" ++ name ++ "\"/>\n").toList =
      '\t' :: '<' :: (("node name=\"".toList ++ (name.toList ++ '"' :: ['/'])) ++ ['>', '\n']) := by
    simp
  have hnotMem : '>' ∉ "node name=\"".toList ++ (name.toList ++ '"' :: ['/']) := by
    simpa using hbracket
  obtain ⟨htags, hclosed⟩ := tags_line hnotMem
  constructor
  · rw [htext, hclosed]
  · rw [nodeNames, htext, htags, List.filterMap_cons, nodeName_node hquote, String.ofList_toList]
    rfl

/-- **The names that are put into a text are those that are read from it.** -/
theorem names_childNodes {children : List String} (h : ∀ child ∈ children, Quotable child)
    {dst : String} {names : List String} (hdst : Names dst names) :
    Names (childNodes children dst) (names ++ children) := by
  induction children generalizing dst names with
  | nil =>
      rw [List.append_nil]
      exact hdst
  | cons child children ih =>
      obtain ⟨hchild, hchildren⟩ := List.forall_mem_cons.mp h
      have hnext : Names (dst ++ "\t<node name=\"" ++ child ++ "\"/>\n") (names ++ [child]) := by
        simpa only [String.append_assoc] using hdst.append (names_child hchild)
      have hrest := ih hchildren hnext
      rwa [List.append_assoc] at hrest

/-- **The names of its children are what is read from an introspection text.** -/
theorem names_intro {interfaces : String} {children : List String} (h : Names interfaces [])
    (hchildren : ∀ child ∈ children, DBus.IsElement child.toList) :
    Names (childNodes children (introspectFmtP1 ++ interfaces) ++ introspectFmtP3) children := by
  have hquotable : ∀ child ∈ children, Quotable child := by
    intro child hchild
    have hpath := (hchildren child hchild).2
    exact ⟨fun hmem ↦ absurd (hpath '>' hmem) (by decide),
      fun hmem ↦ absurd (hpath '"' hmem) (by decide)⟩
  have hnodes := names_childNodes hquotable (names_introspectFmtP1.append h)
  have htext := hnodes.append names_introspectFmtP3
  rwa [List.append_nil, List.nil_append, List.nil_append] at htext

end Rustable.Introspect
