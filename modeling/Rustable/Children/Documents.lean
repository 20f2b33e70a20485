import Mathlib.Data.List.ReduceOption
import Rustable.Children.Loops

/-!
# The child nodes of a document

On a document `get_children` returns the child nodes of the root, unless one of them has no
name: then it goes on inside that node, and stops at its end (`findsChildren_iff`).
-/

namespace Rustable

open DBus Xml

variable {ε : Type}

/-- The child nodes among some elements, each with the name it has, if any. -/
def childNodes : Forest → List (Option String)
  | .nil => []
  | .other rest => childNodes rest
  | .element name attributes _ rest =>
      if name = "node" then nameOf attributes :: childNodes rest else childNodes rest

/-- The names that are come across if a node without a name is entered, not to be left any
more. -/
def enteredNames : Forest → List String
  | .nil => []
  | .other rest => enteredNames rest
  | .element name attributes content rest =>
      if name = "node" then
        match nameOf attributes with
        | some childName => childName :: enteredNames rest
        | none => enteredNames content
      else enteredNames rest

/-- The children, and behind them the paths that end in the names; or an error, if one of the
names cannot be at the end of a path. -/
def joined (join : String → Option ObjectPath) (children : List ObjectPath)
    (names : List String) : Ending Error (List ObjectPath) :=
  match names.mapM join with
  | some paths => .done (children ++ paths)
  | none => .failed invalidIntrospect

/-- What should be returned of a document. -/
def expected (join : String → Option ObjectPath) (d : Document) : Ending Error (List ObjectPath) :=
  if d.name = "node" then joined join [] (childNodes d.content).reduceOption
  else .failed invalidIntrospect

variable {join : String → Option ObjectPath} {last : Last ε}

theorem joined_inj {names names' : List String} :
    joined join [] names = joined join [] names' ↔ names.mapM join = names'.mapM join := by
  refine ⟨fun h ↦ ?_, fun h ↦ by rw [joined, joined, h]⟩
  rw [joined, joined] at h
  cases hnames : names.mapM join with
  | none =>
      rw [hnames] at h
      cases hnames' : names'.mapM join with
      | none => rfl
      | some paths =>
          rw [hnames'] at h
          contradiction
  | some paths =>
      rw [hnames] at h
      cases hnames' : names'.mapM join with
      | none =>
          rw [hnames'] at h
          contradiction
      | some paths' =>
          rw [hnames'] at h
          exact congrArg some (Ending.done.inj h)

/-- What the second loop returns of what stands between two tags. -/
theorem collectChildren_content (content : Forest) (children : List ObjectPath) (name : String)
    (events : List XmlEvent) :
    Ends (fun n ↦ collectChildren join n children
        ⟨content.events ++ .endElement name :: events, last⟩)
      (joined join children (enteredNames content)) := by
  induction content generalizing children name events with
  | nil =>
      have hjoined : joined join children (enteredNames .nil) = .done children := by
        simp [joined, enteredNames]
      rw [hjoined]
      exact collectChildren_end children
  | other rest ih => exact (collectChildren_skip (.inr rfl)).mpr (ih children name events)
  | element inner attributes content rest ihcontent ihrest =>
      rw [Forest.events_element, List.append_assoc, enteredNames]
      rcases skips_cases join inner attributes with
        ⟨rfl, hname⟩ | ⟨childName, rfl, hname, hjoin⟩ | ⟨added, hskips⟩
      · rw [whole_append, if_pos rfl, hname]
        exact (collectChildren_nameless hname).mpr (ihcontent children "node" _)
      · rw [whole_append, if_pos rfl, hname]
        have hjoined : joined join children (childName :: enteredNames rest) =
            .failed invalidIntrospect := by
          simp [joined, hjoin]
        dsimp only
        rw [hjoined]
        exact collectChildren_invalid hname hjoin
      · refine (collectChildren_element hskips content).mpr ?_
        have hrest := ihrest (children ++ added) name events
        cases hskips with
        | node childName childPath hnode hname hjoin =>
            subst hnode
            rw [if_pos rfl, hname]
            have hjoined : joined join children (childName :: enteredNames rest) =
                joined join (children ++ [childPath]) (enteredNames rest) := by
              rw [joined, joined, List.mapM_cons, hjoin]
              cases (enteredNames rest).mapM join with
              | none => rfl
              | some paths => simp
            dsimp only
            rw [hjoined]
            exact hrest
        | element hnode =>
            rw [if_neg hnode]
            rw [List.append_nil] at hrest ⊢
            exact hrest

theorem passed_replicate (k : Nat) : Passed (List.replicate k .other) := by
  induction k with
  | zero => exact .nil
  | succ k ih => exact .skip .other (fun _ _ h ↦ XmlEvent.noConfusion h) ih

/-- **What `get_children` returns of a document.** -/
theorem getChildren_document {fromStr : String → EventReader ε}
    {pushPathChecked : ObjectPath → String → Option ObjectPath} {path : ObjectPath}
    {res : MarshalledMessage} {s : String} {d : Document}
    (hbody : res.body.get String = .ok s) (hread : fromStr s = d.reader) :
    Ends (getChildren fromStr pushPathChecked path res)
      (if d.name = "node" then joined (pushPathChecked path) [] (enteredNames d.content)
        else .failed invalidIntrospect) := by
  have hrun (n : Nat) : getChildren fromStr pushPathChecked path res n =
      (findRoot n ⟨d.events, (.endDocument : Last ε)⟩).bind
        (collectChildren (pushPathChecked path) n []) := by
    rw [getChildren, hbody]
    dsimp only
    rw [hread]
    rfl
  rw [funext hrun]
  split
  · next hnode =>
      have hfound : Ends (fun n ↦ findRoot n ⟨d.events, (.endDocument : Last ε)⟩)
          (.done ⟨d.content.events ++ .endElement d.name :: List.replicate d.behind .other,
            .endDocument⟩) := by
        refine (findRoot_passed (passed_replicate d.before) _).mpr ?_
        rw [whole_append, hnode]
        exact findRoot_node
      exact (ends_bind hfound).mpr (collectChildren_content ..)
  · next hnode =>
      have hfailed : Ends (fun n ↦ findRoot n ⟨d.events, (.endDocument : Last ε)⟩)
          (.failed invalidIntrospect) := by
        refine (findRoot_passed (passed_replicate d.before) _).mpr ?_
        refine (findRoot_element hnode d.content).mpr ?_
        rw [← List.append_nil (List.replicate d.behind XmlEvent.other)]
        exact (findRoot_passed (passed_replicate d.behind) []).mpr findRoot_endDocument
      exact ends_bind_of_not_done hfailed (fun _ ↦ rfl) (Ending.failed_ne_cut _)

/-- Up to the first child with an invalid name every child node has a name; or what is come
across in the first one that has none is by chance what comes behind it. -/
def Agrees (join : String → Option ObjectPath) : Forest → Prop
  | .nil => True
  | .other rest => Agrees join rest
  | .element name attributes content rest =>
      if name = "node" then
        match nameOf attributes with
        | some childName => join childName = none ∨ Agrees join rest
        | none => (enteredNames content).mapM join = (childNodes rest).reduceOption.mapM join
      else Agrees join rest

theorem mapM_cons_inj {childName : String} {childPath : ObjectPath}
    (hjoin : join childName = some childPath) (names names' : List String) :
    (childName :: names).mapM join = (childName :: names').mapM join ↔
      names.mapM join = names'.mapM join := by
  have hcons (names : List String) :
      (childName :: names).mapM join = (names.mapM join).map (childPath :: ·) := by
    rw [List.mapM_cons, hjoin]
    cases names.mapM join with
    | none => rfl
    | some paths => rfl
  rw [hcons, hcons]
  exact (Option.map_injective fun _ _ h ↦ (List.cons.inj h).2).eq_iff

theorem enteredNames_iff (join : String → Option ObjectPath) (content : Forest) :
    (enteredNames content).mapM join = (childNodes content).reduceOption.mapM join ↔
      Agrees join content := by
  induction content with
  | nil => exact iff_of_true rfl trivial
  | other rest ih => exact ih
  | element name attributes content rest _ ih =>
      rw [enteredNames, childNodes, Agrees]
      by_cases hnode : name = "node"
      · rw [if_pos hnode, if_pos hnode, if_pos hnode]
        cases hname : nameOf attributes with
        | none => exact Iff.rfl
        | some childName =>
            dsimp only
            rw [List.reduceOption_cons_of_some]
            cases hjoin : join childName with
            | none => exact iff_of_true (by simp [hjoin]) (.inl rfl)
            | some childPath =>
                rw [mapM_cons_inj hjoin, ih]
                exact (or_iff_right (Option.some_ne_none _)).symm
      · rw [if_neg hnode, if_neg hnode, if_neg hnode]
        exact ih

/-- `get_children` returns the child nodes of the root, and skips what it is to skip. -/
structure FindsChildren (fromStr : String → EventReader ε)
    (pushPathChecked : ObjectPath → String → Option ObjectPath) (path : ObjectPath)
    (res : MarshalledMessage) (d : Document) : Prop where
  returns : Ends (getChildren fromStr pushPathChecked path res) (expected (pushPathChecked path) d)
  skips : ∀ (content : Forest) (name : String) (events : List XmlEvent) (last : Last ε),
    Ends (fun n ↦ ignoreXmlTree n ⟨content.events ++ .endElement name :: events, last⟩ name)
      (.done ⟨events, last⟩)

/-- **The child nodes of a document are found**, unless one of them has no name and what is
inside it makes a difference. -/
theorem findsChildren_iff {fromStr : String → EventReader ε}
    {pushPathChecked : ObjectPath → String → Option ObjectPath} {path : ObjectPath}
    {res : MarshalledMessage} {s : String} {d : Document}
    (hbody : res.body.get String = .ok s) (hread : fromStr s = d.reader) :
    FindsChildren fromStr pushPathChecked path res d ↔
      (d.name = "node" → Agrees (pushPathChecked path) d.content) := by
  have hdocument : Ends (getChildren fromStr pushPathChecked path res) _ :=
    getChildren_document hbody hread
  have hresult : (if d.name = "node" then
      joined (pushPathChecked path) [] (enteredNames d.content)
        else .failed invalidIntrospect) = expected (pushPathChecked path) d ↔
      (d.name = "node" → Agrees (pushPathChecked path) d.content) := by
    rw [expected]
    by_cases hnode : d.name = "node"
    · rw [if_pos hnode, if_pos hnode, joined_inj, enteredNames_iff, forall_prop_of_true hnode]
    · rw [if_neg hnode, if_neg hnode]
      exact iff_of_true rfl fun h ↦ absurd h hnode
  rw [← hresult]
  constructor
  · intro h
    exact hdocument.unique h.returns
  · intro h
    exact ⟨h ▸ hdocument, fun content name events last ↦ ignoreXmlTree_content content name events⟩

/-- The reply that carries a text. -/
def textReply (s : String) : MarshalledMessage where
  typ := .reply
  dynheader := {}
  body := [⟨sig String, .base s⟩]

/-- The path `/org`. -/
def orgPath : ObjectPath := .push .root "org".toList (by decide)

/-- A path that is not the root, and a name below it. -/
def pushName (path : ObjectPath) (name : String) : Option ObjectPath :=
  ObjectPath.tryFrom (path.toChars ++ '/' :: name.toList)

/-- What can be an element of a path is joined to any path but the root. -/
def JoinsElements (pushPathChecked : ObjectPath → String → Option ObjectPath) : Prop :=
  ∀ (path : ObjectPath) (name : String) (h : IsElement name.toList), path ≠ .root →
    pushPathChecked path name = some (path.push name.toList h)

theorem joinsElements_pushName : JoinsElements pushName :=
  fun _ _ h hpath ↦ ObjectPath.tryFrom_toChars_append hpath h

/-- A document whose root is a node. -/
def nodeDocument (content : Forest) : Document where
  before := 0
  name := "node"
  attributes := []
  content := content
  behind := 0

/-- A child node inside an interface, and one behind it. -/
def behindInterface : Forest :=
  .element "interface" [("name", "i")] (.element "node" [("name", "x")] .nil .nil)
    (.element "node" [("name", "a")] .nil .nil)

/-- The one inside is none of the root's. -/
theorem findsChildren_iff_interface :
    FindsChildren (fun _ ↦ (nodeDocument behindInterface).reader : String → EventReader Unit)
      pushName orgPath
      (textReply "<node><interface name='i'><node name='x'/></interface><node name='a'/></node>")
      (nodeDocument behindInterface) :=
  (findsChildren_iff rfl rfl).mpr fun _ ↦ by simp [Agrees, nodeDocument, behindInterface, nameOf]

/-- A child node without a name, and one behind it. -/
def behindNameless : Forest := .element "node" [] .nil (.element "node" [("name", "a")] .nil .nil)

/-- The one behind it is not found. -/
theorem child_behind_nameless : ¬∀ (fromStr : String → EventReader Unit) (res : MarshalledMessage)
    (s : String) (d : Document), res.body.get String = .ok s → fromStr s = d.reader →
      FindsChildren fromStr pushName orgPath res d := by
  intro hall
  have hbody : (textReply "<node><node/><node name='a'/></node>").body.get String = .ok _ := rfl
  have hfinds := hall (fun _ ↦ (nodeDocument behindNameless).reader) _ _ _ hbody rfl
  have hdocument : Ends (getChildren (fun _ ↦ (nodeDocument behindNameless).reader :
      String → EventReader Unit) pushName orgPath _) _ :=
    getChildren_document (d := nodeDocument behindNameless) hbody rfl
  have hnames : ([] : List String).mapM (pushName orgPath) = ["a"].mapM (pushName orgPath) :=
    joined_inj.mp (hdocument.unique hfinds.returns)
  cases hjoin : pushName orgPath "a" with
  | none => simp [hjoin] at hnames
  | some childPath => simp [hjoin] at hnames

end Rustable
