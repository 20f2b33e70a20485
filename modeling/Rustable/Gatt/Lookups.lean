import Rustable.Children.Loops
import Rustable.Devices
import Rustable.Lib.Unordered

/-!
# Looking up the attributes of a remote device

`get_services`, `get_characteristics` and `get_descriptors` ask each child object for its UUID,
and collect those that answer with one.  `get_service`, `get_characteristic` and `get_descriptor`
ask in the same way, and return the first one that has the UUID they look for.

The requests are made by futures of which each sends one and waits for the reply to it.  They
are in a `FuturesUnordered`, so the replies are dealt with in whatever order they come.  It makes
no difference to the result, up to the order of a list (`lookups_agree`).
-/

namespace Rustable

open DBus

namespace Gatt.Client

/-! ## One child -/

/-- The operations of a request. -/
inductive Op
  | /-- `conn.send_msg_w_rsp` -/
    sendMsgWRsp (call : MarshalledMessage)
  | /-- The response to it. -/
    response

/-- What they answer; `none` if that takes more time. -/
def Op.Answer : Op → Type
  | sendMsgWRsp _ => Option (Except IoError Unit)
  | response => Option (Except IoError MarshalledMessage)

/-- How far a request is. -/
inductive Stage
  | start
  | sending
  | waiting

/-- The futures of `Service::get_service`, `Characteristic::get_char` and `Descriptor::get_desc`:
what the names of the children begin with, and the interface that is asked. -/
structure Request where
  kind : String
  interface : String
  child : ObjectPath
  stage : Stage := .start

namespace Request

/-- A poll of the future. -/
abbrev Polling := Prog Op.Answer (Poll Request (MayFail (Option Attribute)))

/-- Wait for the response. -/
def awaitResponse (self : Request) : Polling := .op .response fun
  | none => return .pending { self with stage := .waiting }
  | some (.error e) => return .ready (throw (.io e))
  | some (.ok res) => return .ready (lookupAttribute self.kind self.child res)

/-- Send the call. -/
def send (self : Request) : Polling :=
  .op (.sendMsgWRsp (getPropCall self.child bluezDest self.interface "UUID")) fun
    | none => return .pending { self with stage := .sending }
    | some (.error e) => return .ready (throw (.io e))
    | some (.ok ()) => self.awaitResponse

/-- Only children whose name begins as it should are asked. -/
def poll (self : Request) : Polling :=
  match self.stage with
  | .start => match self.child.fileName with
    | none => return .ready .panic
    | some _ => if namedLike self.kind self.child then self.send else return .ready (pure none)
  | .sending => self.send
  | .waiting => self.awaitResponse

instance : Future Op.Answer Request (MayFail (Option Attribute)) where
  poll := poll

end Request

/-! ## All children -/

/-- A function that goes through the children, with the state of its loop and what it returns. -/
abbrev Lookup (γ β : Type) := Looping Request γ (MayFail β)

/-- `try_filter_map(..).try_collect()` -/
def collect : Loop (MayFail (Option Attribute)) (List Attribute) (MayFail (List Attribute)) where
  body found item := match item.run with
    | none => .inr .panic
    | some (.error e) => .inr (throw e)
    | some (.ok none) => .inl found
    | some (.ok (some a)) => .inl (found ++ [a])
  done found := pure found

/-- The loop of the functions that look for a UUID. -/
def search {β : Type} (uuid : UUID) (found : Attribute → β) (unknown : MayFail β) :
    Loop (MayFail (Option Attribute)) Unit (MayFail β) where
  body _ item := match item.run with
    | none => .inr .panic
    | some (.error e) => .inr (throw e)
    | some (.ok none) => .inl ()
    | some (.ok (some a)) => if a.uuid = uuid then .inr (pure (found a)) else .inl ()
  done _ := unknown

/-- Make a request of each child, and run a loop over the results; the wakes are what happens
in the meantime. -/
def lookup {γ β : Type} (kind interface : String) (children : MayFail (List ObjectPath))
    (loop : Loop (MayFail (Option Attribute)) γ (MayFail β)) (acc : γ)
    (ws : List (Wake Op.Answer)) : Lookup γ β :=
  match children.run with
  | none => .returned .panic
  | some (.error e) => .returned (throw e)
  | some (.ok children) =>
      let requests := children.map fun child ↦
        { kind := kind, interface := interface, child := child : Request }
      loop.run (loop.next (.ofList requests) (.inl acc)) ws

end Gatt.Client

open Gatt.Client

section Functions

-- What `get_children` returns for an object.
variable (getChildren : ObjectPath → MayFail (List ObjectPath))

/-- `Device::get_services` -/
def Device.getServices (self : Device) :
    List (Wake Op.Answer) → Lookup (List Attribute) (List Attribute) :=
  lookup "service" bluezSerIf (getChildren self.path) collect []

/-- `Device::get_service` -/
def Device.getService (self : Device) (uuid : UUID) :
    List (Wake Op.Answer) → Lookup Unit Attribute :=
  lookup "service" bluezSerIf (getChildren self.path)
    (search uuid id (throw (.unknownServ uuid))) ()

namespace Gatt.Client.Attribute

/-- `Service::get_characteristics` -/
def getCharacteristics (self : Attribute) :
    List (Wake Op.Answer) → Lookup (List Attribute) (List Attribute) :=
  lookup "char" bluezChrIf (getChildren self.path) collect []

/-- `Service::get_characteristic` -/
def getCharacteristic (self : Attribute) (uuid : UUID) :
    List (Wake Op.Answer) → Lookup Unit Attribute :=
  lookup "char" bluezChrIf (getChildren self.path)
    (search uuid id (throw (.unknownChrc self.uuid uuid))) ()

/-- `Characteristic::get_descriptors` -/
def getDescriptors (self : Attribute) :
    List (Wake Op.Answer) → Lookup (List Attribute) (List Attribute) :=
  lookup "desc" bluezDesIf (getChildren self.path) collect []

/-- `Characteristic::get_descriptor` -/
def getDescriptor (self : Attribute) (uuid : UUID) :
    List (Wake Op.Answer) → Lookup Unit (Option Attribute) :=
  lookup "desc" bluezDesIf (getChildren self.path) (search uuid some (pure none)) ()

end Gatt.Client.Attribute

end Functions

namespace Gatt.Client

/-! ## The children and their replies -/

/-- The UUID in a reply, if it is a response with a string that can be read as one. -/
def validUuid (res : MarshalledMessage) : Option UUID :=
  match (isMsgErr BluezOptions res).run with
  | some (.ok (.str s)) => match (UUID.fromStr s.toList).run with
    | some (.ok u) => some u
    | _ => none
  | _ => none

theorem validUuid_eq_some_iff {res : MarshalledMessage} {u : UUID} : validUuid res = some u ↔
    ∃ s, isMsgErr BluezOptions res = pure (.str s) ∧ UUID.fromStr s.toList = pure u := by
  constructor
  · intro h
    rw [validUuid] at h
    split at h
    · next s hs =>
        split at h
        · next v hv =>
            obtain rfl := Option.some.inj h
            exact ⟨s, hs, hv⟩
        · contradiction
    · contradiction
  · rintro ⟨s, hs, hu⟩
    have hread : (isMsgErr BluezOptions res).run = some (.ok (.str s)) := hs
    have hparse : (UUID.fromStr s.toList).run = some (.ok u) := hu
    simp only [validUuid, hread, hparse]

/-- What is read of a response or an error is never a panic. -/
theorem run_isMsgErr_ne_none {res : MarshalledMessage}
    (htyp : res.typ = .reply ∨ res.typ = .error) : (isMsgErr BluezOptions res).run ≠ none := by
  rcases htyp with htyp | htyp
  · rw [isMsgErr, readReply, htyp]
    exact Option.some_ne_none _
  · obtain ⟨e, he⟩ := readReply_error (fun body ↦ (body.get BluezOptions).mapError unmarshalFailed)
      htyp
    rw [isMsgErr, he]
    exact Option.some_ne_none _

/-- A reply with an ASCII string is read without a panic. -/
theorem uuidOfReply_eq_validUuid {res : MarshalledMessage}
    (htyp : res.typ = .reply ∨ res.typ = .error)
    (hascii : ∀ s, isMsgErr BluezOptions res = pure (.str s) → ∀ c ∈ s.toList, c.utf8Size = 1) :
    uuidOfReply res = pure (validUuid res) := by
  rw [uuidOfReply]
  split
  · next s hs =>
      have hreturns := UUID.returns_fromStr_iff.mpr (UUID.aligned_of_ascii (hascii s hs))
      rw [validUuid, hs]
      split
      · next u hu => simp only [hu]
      · next e he => simp only [he]
      · next hnone =>
          rw [Parse.Returns, hnone] at hreturns
          contradiction
  · next r hother hr =>
      have hnone : validUuid res = none := by
        refine Option.eq_none_iff_forall_ne_some.mpr fun u hu ↦ ?_
        obtain ⟨s, hs, -⟩ := validUuid_eq_some_iff.mp hu
        exact hother s (Option.some.inj (hr.symm.trans hs))
      rw [hnone]
  · next hnone => exact absurd hnone (run_isMsgErr_ne_none htyp)

/-! ### Polls -/

/-- Something takes more time. -/
def Late (w : Wake Op.Answer) : Prop :=
  (∃ call, w.answers (.sendMsgWRsp call) = none) ∨ w.answers .response = none

/-- The connection does not fail, and the response is `res`, once it is there. -/
def Answers (w : Wake Op.Answer) (res : MarshalledMessage) : Prop :=
  (∀ call, w.answers (.sendMsgWRsp call) = none ∨ w.answers (.sendMsgWRsp call) = some (.ok ())) ∧
    (w.answers .response = none ∨ w.answers .response = some (.ok res))

/-- A poll gives what is made of the response, unless something takes more time. -/
def Gives (w : Wake Op.Answer) (request : Request) (res : MarshalledMessage)
    (x : Poll Request (MayFail (Option Attribute))) : Prop :=
  x = .ready (lookupAttribute request.kind request.child res) ∨
    Late w ∧ ∃ stage, x = .pending { request with stage := stage }

section Polls

variable {w : Wake Op.Answer} {request : Request} {res : MarshalledMessage}

theorem gives_awaitResponse (h : Answers w res) :
    Gives w request res (request.awaitResponse.eval w.answers) := by
  rw [Request.awaitResponse, Prog.eval]
  rcases h.2 with hnone | hsome
  · rw [hnone]
    exact .inr ⟨.inr hnone, .waiting, rfl⟩
  · rw [hsome]
    exact .inl rfl

theorem gives_send (h : Answers w res) : Gives w request res (request.send.eval w.answers) := by
  rw [Request.send, Prog.eval]
  rcases h.1 (getPropCall request.child bluezDest request.interface "UUID") with hnone | hsome
  · rw [hnone]
    exact .inr ⟨.inl ⟨_, hnone⟩, .sending, rfl⟩
  · rw [hsome]
    exact gives_awaitResponse h

/-- **What a poll gives**, at any stage of the request. -/
theorem gives_poll (request : Request) (h : Answers w res) :
    Gives w request res (w.poll request) := by
  obtain ⟨kind, interface, child, stage⟩ := request
  cases stage with
  | start =>
      change Gives w _ res (Prog.eval w.answers (Request.poll ⟨kind, interface, child, .start⟩))
      rw [Request.poll]
      cases hname : child.fileName with
      | none =>
          refine .inl ?_
          rw [lookupAttribute, hname]
          rfl
      | some name =>
          by_cases hkind : namedLike kind child = true
          · rw [if_pos hkind]
            exact gives_send h
          · refine .inl ?_
            rw [if_neg hkind, lookupAttribute, hname]
            exact congrArg Poll.ready (if_neg hkind).symm
  | sending => exact gives_send h
  | waiting => exact gives_awaitResponse h

end Polls

/-! ### Attributes -/

/-- The attribute that a child is: its name begins as it should, and it has a UUID. -/
def attributeOf (kind : String) (o : ObjectPath × MarshalledMessage) : Option Attribute :=
  if namedLike kind o.1 then (validUuid o.2).map fun u ↦ { path := o.1, uuid := u } else none

/-- The child objects of an object, each with the reply to the request for its UUID. -/
structure Children (parent : ObjectPath) where
  objects : List (ObjectPath × MarshalledMessage)
  below : ∀ o ∈ objects, parent.Below o.1
  isReply : ∀ o ∈ objects, o.2.typ = .reply ∨ o.2.typ = .error
  /-- UUIDs are sent as ASCII strings. -/
  ascii : ∀ o ∈ objects, ∀ s, isMsgErr BluezOptions o.2 = pure (.str s) →
    ∀ c ∈ s.toList, c.utf8Size = 1

namespace Children

variable {parent : ObjectPath} (self : Children parent)

/-- What `get_children` returns. -/
def paths : List ObjectPath := self.objects.map Prod.fst

/-- The children whose name begins in a certain way and that have a UUID. -/
def attributes (kind : String) : List Attribute := self.objects.filterMap (attributeOf kind)

/-- The connection does not fail, and the reply to a request is that of the child. -/
def Honest (w : Wake Op.Answer) : Prop := ∀ o, self.objects[w.key]? = some o → Answers w o.2

/-- Each future has been polled when nothing took more time. -/
def Replied (ws : List (Wake Op.Answer)) : Prop :=
  ∀ k < self.objects.length, ∃ w ∈ ws, w.key = k ∧ ¬Late w

/-- What a request comes to. -/
def found (kind : String) (k : Nat) : Option Attribute :=
  (self.objects[k]?).bind (attributeOf kind)

/-- The request of a child, at any stage. -/
def IsRequest (kind interface : String) (k : Nat) (request : Request) : Prop :=
  ∃ o stage, self.objects[k]? = some o ∧
    request = { kind := kind, interface := interface, child := o.1, stage := stage }

variable {self} {kind interface : String} {w : Wake Op.Answer}

/-- Children are looked up without a panic. -/
theorem lookupAttribute_eq {o : ObjectPath × MarshalledMessage} (ho : o ∈ self.objects) :
    lookupAttribute kind o.1 o.2 = pure (attributeOf kind o) := by
  obtain ⟨name, hname⟩ := (self.below o ho).fileName
  rw [lookupAttribute, hname, attributeOf]
  dsimp only
  split
  · rw [uuidOfReply_eq_validUuid (self.isReply o ho) (self.ascii o ho), pure_bind]
    cases validUuid o.2 with
    | none => rfl
    | some u => rfl
  · rfl

/-- What a request comes to is what is found of the child. -/
theorem leads (h : self.Honest w) :
    w.Leads (self.IsRequest kind interface) fun k ↦ pure (self.found kind k) := by
  rintro request ⟨o, stage, ho, rfl⟩
  have hfound : lookupAttribute kind o.1 o.2 = pure (self.found kind w.key) := by
    rw [found, ho, Option.bind_some]
    exact lookupAttribute_eq (List.mem_of_getElem? ho)
  rcases gives_poll ⟨kind, interface, o.1, stage⟩ (h o ho) with
    hready | ⟨-, stage', hpending⟩
  · exact .inl (hready.trans (congrArg Poll.ready hfound))
  · exact .inr ⟨_, hpending, o, stage', ho, rfl⟩

/-- If nothing takes more time, the request has come to it. -/
theorem completes (h : self.Honest w) (hlate : ¬Late w) :
    w.Completes (self.IsRequest kind interface) fun k ↦ pure (self.found kind k) := by
  intro request hrequest
  rcases leads h request hrequest with hready | ⟨rest, hpending, -⟩
  · exact hready
  · obtain ⟨o, stage, ho, rfl⟩ := hrequest
    rcases gives_poll ⟨kind, interface, o.1, stage⟩ (h o ho) with
      hready | ⟨hlate', -⟩
    · rw [hready] at hpending
      contradiction
    · exact absurd hlate' hlate

/-- The requests of all children. -/
def requests (self : Children parent) (kind interface : String) : FuturesUnordered Request :=
  .ofList (self.paths.map fun child ↦ { kind := kind, interface := interface, child := child })

theorem satisfy_requests :
    (self.requests kind interface).Satisfy (self.IsRequest kind interface) := by
  intro k request h
  rw [requests, FuturesUnordered.lookup_ofList, paths, List.map_map, List.getElem?_map] at h
  obtain ⟨o, ho, rfl⟩ := Option.map_eq_some_iff.mp h
  exact ⟨o, .start, ho, rfl⟩

theorem keys_requests :
    (self.requests kind interface).keys = List.range self.objects.length := by
  rw [requests, FuturesUnordered.keys_ofList, List.length_map, paths, List.length_map]

theorem map_found (kind : String) : (List.range self.objects.length).map (self.found kind) =
    self.objects.map (attributeOf kind) := by
  refine List.ext_getElem (by simp) fun i hi _ ↦ ?_
  have hlt : i < self.objects.length := by simpa using hi
  simp [found, List.getElem?_eq_getElem hlt]

section Lookup

variable {γ β : Type} {loop : Loop (MayFail (Option Attribute)) γ (MayFail β)} {acc : γ}
  {ws : List (Wake Op.Answer)} {r : MayFail β}

/-- **What a lookup returns**: what its loop does over the children, in one order or another. -/
theorem lookup_returned (hws : ∀ w ∈ ws, self.Honest w)
    (h : lookup kind interface (pure self.paths) loop acc ws = .returned r) :
    ∃ items : List (Option Attribute), items.Perm (self.objects.map (attributeOf kind)) ∧
      loop.result acc (items.map pure) = r := by
  obtain ⟨order, hperm, hresult⟩ :=
    Loop.run_returned satisfy_requests (fun w hw ↦ leads (hws w hw)) h
  refine ⟨order.map (self.found kind), ?_, ?_⟩
  · rw [keys_requests] at hperm
    exact (hperm.map (self.found kind)).trans (.of_eq (map_found kind))
  · rw [List.map_map]
    exact hresult

/-- A lookup returns, at the latest when there are replies to all requests. -/
theorem lookup_returns (hws : ∀ w ∈ ws, self.Honest w) (hreplied : self.Replied ws) :
    ∃ r, lookup kind interface (pure self.paths) loop acc ws = .returned r := by
  refine Loop.run_returns (s := self.requests kind interface) satisfy_requests
    (fun w hw ↦ leads (hws w hw)) fun k hk ↦ ?_
  rw [keys_requests, List.mem_range] at hk
  obtain ⟨w, hw, rfl, hlate⟩ := hreplied k hk
  exact ⟨w, hw, rfl, completes (hws w hw) hlate⟩

/-- Nothing takes any time. -/
def prompt (self : Children parent) (k : Nat) : ∀ o, Op.Answer o
  | .sendMsgWRsp _ => some (.ok ())
  | .response => (self.objects[k]?).map fun o ↦ .ok o.2

theorem honest_prompt (k : Nat) : self.Honest ⟨k, self.prompt k⟩ := by
  intro o ho
  have hresponse : self.prompt k .response = some (.ok o.2) := by
    rw [prompt.eq_def]
    exact congrArg (Option.map _) ho
  exact ⟨fun call ↦ .inr rfl, .inr hresponse⟩

theorem not_late_prompt {k : Nat} (hk : k < self.objects.length) :
    ¬Late ⟨k, self.prompt k⟩ := by
  rintro (⟨call, h⟩ | h)
  · contradiction
  · have hnone : self.objects[k]? = none := Option.map_eq_none_iff.mp h
    exact absurd hk (Nat.not_lt.mpr (List.getElem?_eq_none_iff.mp hnone))

/-- The requests may complete in any order. -/
theorem lookup_order {order : List Nat} (hperm : order.Perm (List.range self.objects.length)) :
    lookup kind interface (pure self.paths) loop acc (order.map fun k ↦ ⟨k, self.prompt k⟩) =
      .returned (loop.result acc ((order.map (self.found kind)).map pure)) := by
  have h : lookup kind interface (pure self.paths) loop acc (order.map fun k ↦ ⟨k, self.prompt k⟩) =
      .returned (loop.result acc (order.map fun k ↦ pure (self.found kind k))) :=
    Loop.run_order self.prompt satisfy_requests (keys_requests ▸ hperm) fun k hk ↦
      completes (honest_prompt k) (not_late_prompt (List.mem_range.mp (hperm.subset hk)))
  rw [List.map_map]
  exact h

end Lookup

end Children

/-! ### Loops -/

theorem fold_collect (found : List Attribute) (items : List (Option Attribute)) :
    collect.fold found (items.map pure) = .inl (found ++ items.reduceOption) := by
  induction items generalizing found with
  | nil => exact congrArg Sum.inl (List.append_nil found).symm
  | cons item items ih =>
      cases item with
      | none => exact ih found
      | some a =>
          refine (ih (found ++ [a])).trans ?_
          rw [List.reduceOption_cons_of_some, List.append_assoc]
          rfl

/-- **Everything is collected.** -/
theorem result_collect (items : List (Option Attribute)) :
    collect.result [] (items.map pure) = pure items.reduceOption := by
  rw [Loop.result, fold_collect, List.nil_append]
  rfl

/-- **The first one is found.** -/
theorem result_search {β : Type} (uuid : UUID) (found : Attribute → β) (unknown : MayFail β)
    (items : List (Option Attribute)) :
    (search uuid found unknown).result () (items.map pure) =
      (items.reduceOption.find? (·.uuid = uuid)).elim unknown fun a ↦ pure (found a) := by
  induction items with
  | nil => rfl
  | cons item items ih =>
      cases item with
      | none => exact ih
      | some a =>
          by_cases ha : a.uuid = uuid
          · rw [List.reduceOption_cons_of_some, List.find?_cons_of_pos (by simpa using ha)]
            have hbody : (search uuid found unknown).body () (pure (some a)) =
                .inr (pure (found a)) := if_pos ha
            rw [Loop.result, List.map_cons, Loop.fold, hbody]
            rfl
          · rw [List.reduceOption_cons_of_some, List.find?_cons_of_neg (by simpa using ha), ← ih]
            have hbody : (search uuid found unknown).body () (pure (some a)) = .inl () := if_neg ha
            rw [Loop.result, List.map_cons, Loop.fold, hbody]
            rfl

/-! ## Looking up one and all -/

/-- A function that lists the attributes among the children and one that looks for a UUID agree,
in whatever order the requests complete. -/
structure Agree {β : Type} {parent : ObjectPath} (c : Children parent) (kind : String)
    (list : List (Wake Op.Answer) → Lookup (List Attribute) (List Attribute))
    (find : UUID → List (Wake Op.Answer) → Lookup Unit β) (found : Attribute → β)
    (unknown : UUID → MayFail β) : Prop where
  /-- The list has the children with the right name and a UUID. -/
  listed : ∀ ws, (∀ w ∈ ws, c.Honest w) → ∀ r, list ws = .returned r →
    ∃ attributes, r = pure attributes ∧ attributes.Perm (c.attributes kind)
  /-- One of these with the UUID is found, if there is one. -/
  finds : ∀ ws, (∀ w ∈ ws, c.Honest w) → ∀ uuid r, find uuid ws = .returned r →
    (∃ a ∈ c.attributes kind, a.uuid = uuid ∧ r = pure (found a)) ∨
      (∀ a ∈ c.attributes kind, a.uuid ≠ uuid) ∧ r = unknown uuid
  /-- Both return, at the latest when there are replies to all requests. -/
  returns : ∀ ws, (∀ w ∈ ws, c.Honest w) → c.Replied ws →
    (∃ r, list ws = .returned r) ∧ ∀ uuid, ∃ r, find uuid ws = .returned r
  /-- If there are no two with the same UUID, it is the same one in each order. -/
  same : ((c.attributes kind).map (·.uuid)).Nodup →
    ∀ ws ws', (∀ w ∈ ws, c.Honest w) → (∀ w ∈ ws', c.Honest w) →
      ∀ uuid r r', find uuid ws = .returned r → find uuid ws' = .returned r' → r = r'
  /-- Each order in which the requests complete is possible: the list is in that order, and the
  first one in it is found. -/
  orders : ∀ order : List Nat, order.Perm (List.range c.objects.length) →
    ∃ ws, (∀ w ∈ ws, c.Honest w) ∧ c.Replied ws ∧
      list ws = .returned (pure (order.map (c.found kind)).reduceOption) ∧
      ∀ uuid, find uuid ws = .returned (((order.map (c.found kind)).reduceOption.find?
        (·.uuid = uuid)).elim (unknown uuid) fun a ↦ pure (found a))

section Agree

variable {β : Type} {parent : ObjectPath} {c : Children parent} {kind interface : String}

theorem perm_reduceOption {items : List (Option Attribute)}
    (h : items.Perm (c.objects.map (attributeOf kind))) :
    items.reduceOption.Perm (c.attributes kind) := by
  have hperm := h.filterMap id
  rwa [List.filterMap_map] at hperm

theorem lookup_found {ws : List (Wake Op.Answer)} (hws : ∀ w ∈ ws, c.Honest w) {uuid : UUID}
    {found : Attribute → β} {unknown : MayFail β} {r : MayFail β}
    (h : lookup kind interface (pure c.paths) (search uuid found unknown) () ws = .returned r) :
    (∃ a ∈ c.attributes kind, a.uuid = uuid ∧ r = pure (found a)) ∨
      (∀ a ∈ c.attributes kind, a.uuid ≠ uuid) ∧ r = unknown := by
  obtain ⟨items, hperm, rfl⟩ := Children.lookup_returned hws h
  have hattributes := perm_reduceOption hperm
  rw [result_search]
  cases hfind : items.reduceOption.find? (·.uuid = uuid) with
  | some a =>
      refine .inl ⟨a, hattributes.subset (List.mem_of_find?_eq_some hfind), ?_, rfl⟩
      simpa using List.find?_some hfind
  | none =>
      refine .inr ⟨fun a ha huuid ↦ ?_, rfl⟩
      have hnot := List.find?_eq_none.mp hfind a (hattributes.symm.subset ha)
      exact hnot (decide_eq_true huuid)

/-- **The two loops agree** over the same requests. -/
theorem agree (c : Children parent) (kind interface : String) (found : Attribute → β)
    (unknown : UUID → MayFail β) :
    Agree c kind (lookup kind interface (pure c.paths) collect [])
      (fun uuid ↦ lookup kind interface (pure c.paths) (search uuid found (unknown uuid)) ())
      found unknown where
  listed ws hws r h := by
    obtain ⟨items, hperm, rfl⟩ := Children.lookup_returned hws h
    exact ⟨_, result_collect items, perm_reduceOption hperm⟩
  finds ws hws uuid r h := lookup_found hws h
  returns ws hws hreplied :=
    ⟨Children.lookup_returns hws hreplied, fun uuid ↦ Children.lookup_returns hws hreplied⟩
  same hnodup ws ws' hws hws' uuid r r' h h' := by
    rcases lookup_found hws h with ⟨a, ha, hau, rfl⟩ | ⟨hnone, rfl⟩
    · rcases lookup_found hws' h' with ⟨a', ha', hau', rfl⟩ | ⟨hnone, -⟩
      · rw [List.inj_on_of_nodup_map hnodup ha ha' (hau.trans hau'.symm)]
      · exact absurd hau (hnone a ha)
    · rcases lookup_found hws' h' with ⟨a', ha', hau', -⟩ | ⟨-, rfl⟩
      · exact absurd hau' (hnone a' ha')
      · rfl
  orders order hperm := by
    refine ⟨order.map fun k ↦ ⟨k, c.prompt k⟩, ?_, fun k hk ↦ ?_, ?_, fun uuid ↦ ?_⟩
    · intro w hw
      obtain ⟨k, -, rfl⟩ := List.mem_map.mp hw
      exact Children.honest_prompt k
    · have hmem : k ∈ order := hperm.symm.subset (List.mem_range.mpr hk)
      exact ⟨_, List.mem_map_of_mem hmem, rfl, Children.not_late_prompt hk⟩
    · rw [Children.lookup_order hperm, result_collect]
    · rw [Children.lookup_order hperm, result_search]

end Agree

/-- What `get_children` finds are child objects, whatever is replied about them. -/
theorem exists_children {ε : Type} {fromStr : String → Xml.EventReader ε}
    {pushPathChecked : ObjectPath → String → Option ObjectPath} {path : ObjectPath}
    (hpush : ∀ name p, pushPathChecked path name = some p → path.Below p)
    {res : MarshalledMessage} {fuel : Nat} {paths : List ObjectPath}
    (h : Rustable.getChildren fromStr pushPathChecked path res fuel = .done paths)
    (reply : ObjectPath → MarshalledMessage)
    (htyp : ∀ p, (reply p).typ = .reply ∨ (reply p).typ = .error)
    (hascii : ∀ p s, isMsgErr BluezOptions (reply p) = pure (.str s) →
      ∀ c ∈ s.toList, c.utf8Size = 1) :
    ∃ c : Children path, c.paths = paths ∧ ∀ o ∈ c.objects, o.2 = reply o.1 := by
  have hmem {o : ObjectPath × MarshalledMessage} (ho : o ∈ paths.map fun p ↦ (p, reply p)) :
      o.1 ∈ paths ∧ o.2 = reply o.1 := by
    obtain ⟨p, hp, rfl⟩ := List.mem_map.mp ho
    exact ⟨hp, rfl⟩
  refine ⟨{
    objects := paths.map fun p ↦ (p, reply p)
    below := fun o ho ↦ below_of_getChildren hpush h o.1 (hmem ho).1
    isReply := fun o ho ↦ (hmem ho).2 ▸ htyp o.1
    ascii := fun o ho ↦ (hmem ho).2 ▸ hascii o.1 }, ?_, fun o ho ↦ (hmem ho).2⟩
  rw [Children.paths, List.map_map]
  exact List.map_id paths

end Gatt.Client

/-- **Looking up one attribute agrees with listing them all**, for services, characteristics and
descriptors. -/
theorem lookups_agree (getChildren : ObjectPath → MayFail (List ObjectPath)) {parent : ObjectPath}
    (c : Children parent) (h : getChildren parent = pure c.paths) :
    (∀ self : Device, self.path = parent →
      Agree c "service" (self.getServices getChildren) (self.getService getChildren) id
        fun uuid ↦ throw (.unknownServ uuid)) ∧
    (∀ self : Attribute, self.path = parent →
      Agree c "char" (self.getCharacteristics getChildren) (self.getCharacteristic getChildren) id
        fun uuid ↦ throw (.unknownChrc self.uuid uuid)) ∧
    ∀ self : Attribute, self.path = parent →
      Agree c "desc" (self.getDescriptors getChildren) (self.getDescriptor getChildren) some
        fun _ ↦ pure none := by
  refine ⟨?_, ?_, ?_⟩
  · rintro self rfl
    have hagree := agree c "service" bluezSerIf id fun uuid ↦ throw (.unknownServ uuid)
    rwa [← h] at hagree
  · rintro self rfl
    have hagree := agree c "char" bluezChrIf id fun uuid ↦ throw (.unknownChrc self.uuid uuid)
    rwa [← h] at hagree
  · rintro self rfl
    have hagree := agree c "desc" bluezDesIf some fun _ ↦ pure none
    rwa [← h] at hagree

/-- The response with a UUID. -/
def uuidResponse (u : UUID) : MarshalledMessage where
  typ := .reply
  dynheader := {}
  body := [⟨sig BluezOptions, .variant (.base (String.ofList u.toChars) : Val (sig String))⟩]

theorem isMsgErr_uuidResponse (u : UUID) :
    isMsgErr BluezOptions (uuidResponse u) = pure (.str (String.ofList u.toChars)) :=
  isMsgErr_reply rfl rfl
    (BluezOptions.unmarshal_marshal (o := .ownedStr (String.ofList u.toChars)) rfl not_false)

theorem ascii_uuidResponse {u : UUID} {s : String}
    (h : isMsgErr BluezOptions (uuidResponse u) = pure (.str s)) :
    ∀ c ∈ s.toList, c.utf8Size = 1 := by
  rw [isMsgErr_uuidResponse] at h
  obtain rfl := BluezOptions.str.inj (Except.ok.inj (Option.some.inj h))
  rw [String.toList_ofList]
  exact (UUID.isText_iff.mp (UUID.isText_toChars u)).1.utf8Size rfl

/-- An object that replies with a UUID is the attribute with it, if its name is that of one. -/
theorem attributeOf_uuidResponse {kind : String} {p : ObjectPath} {u : UUID}
    (hkind : namedLike kind p = true) : attributeOf kind (p, uuidResponse u) = some ⟨p, u⟩ := by
  have huuid : validUuid (uuidResponse u) = some u := by
    refine validUuid_eq_some_iff.mpr ⟨_, isMsgErr_uuidResponse u, ?_⟩
    rw [String.toList_ofList, UUID.fromStr_toChars]
  rw [attributeOf, if_pos hkind, huuid]
  rfl

/-- A service of a device. -/
def firstService (device : ObjectPath) : ObjectPath :=
  device.push "service0001".toList (by decide)

/-- Another one. -/
def secondService (device : ObjectPath) : ObjectPath :=
  device.push "service0002".toList (by decide)

theorem namedLike_push {p : ObjectPath} {e : List Char} (he : IsElement e) {kind : String} :
    namedLike kind (p.push e he) = kind.toList.isPrefixOf e := by
  have hname : (p.push e he).fileName = some e := List.getLast?_concat
  rw [namedLike, hname]

theorem attributeOf_firstService (device : ObjectPath) (u : UUID) :
    attributeOf "service" (firstService device, uuidResponse u) = some ⟨firstService device, u⟩ := by
  refine attributeOf_uuidResponse ?_
  rw [firstService, namedLike_push]
  decide

theorem attributeOf_secondService (device : ObjectPath) (u : UUID) :
    attributeOf "service" (secondService device, uuidResponse u) =
      some ⟨secondService device, u⟩ := by
  refine attributeOf_uuidResponse ?_
  rw [secondService, namedLike_push]
  decide

/-- A device with two services, and with a child that is none although it has a UUID. -/
def twoServices (device : ObjectPath) (u v : UUID) : Children device where
  objects := [(firstService device, uuidResponse u), (secondService device, uuidResponse v),
    (device.push "player0".toList (by decide), uuidResponse u)]
  below := by
    simp only [List.forall_mem_cons]
    exact ⟨device.below_push _, device.below_push _, device.below_push _, by simp⟩
  isReply := by
    simp only [List.forall_mem_cons]
    exact ⟨.inl rfl, .inl rfl, .inl rfl, by simp⟩
  ascii := by
    simp only [List.forall_mem_cons]
    exact ⟨fun _ ↦ ascii_uuidResponse, fun _ ↦ ascii_uuidResponse, fun _ ↦ ascii_uuidResponse,
      by simp⟩

/-- The requests of the three children come to the two services. -/
theorem found_twoServices (device : ObjectPath) (u v : UUID) :
    (twoServices device u v).found "service" 0 = some ⟨firstService device, u⟩ ∧
      (twoServices device u v).found "service" 1 = some ⟨secondService device, v⟩ ∧
      (twoServices device u v).found "service" 2 = none := by
  refine ⟨attributeOf_firstService device u, attributeOf_secondService device v, ?_⟩
  change attributeOf "service" (device.push "player0".toList _, uuidResponse u) = none
  rw [attributeOf, namedLike_push]
  rfl

/-- Its services are listed in the order of the replies, and the one that is looked for is found
in each order. -/
theorem lookups_agree_twoServices : ∃ (device : Device) (u v : UUID) (paths : List ObjectPath)
    (ws ws' : List (Wake Op.Answer)),
    let first : Attribute := ⟨firstService device.path, u⟩
    let second : Attribute := ⟨secondService device.path, v⟩
    device.getServices (fun _ ↦ pure paths) ws = .returned (pure [first, second]) ∧
      device.getServices (fun _ ↦ pure paths) ws' = .returned (pure [second, first]) ∧
      device.getService (fun _ ↦ pure paths) v ws = .returned (pure second) ∧
      device.getService (fun _ ↦ pure paths) v ws' = .returned (pure second) := by
  let device : Device := ⟨.push .root "dev".toList (by decide), ⟨0, 0⟩⟩
  let c := twoServices device.path ⟨0x180D⟩ ⟨0x180F⟩
  obtain ⟨hservices, -, -⟩ := lookups_agree (fun _ ↦ pure c.paths) c rfl
  obtain ⟨ws, -, -, hlist, hfind⟩ := (hservices device rfl).orders [0, 1, 2] (.refl _)
  obtain ⟨ws', -, -, hlist', hfind'⟩ :=
    (hservices device rfl).orders [2, 1, 0] (List.range 3).reverse_perm
  obtain ⟨hfirst, hsecond, hother⟩ := found_twoServices device.path ⟨0x180D⟩ ⟨0x180F⟩
  refine ⟨device, ⟨0x180D⟩, ⟨0x180F⟩, c.paths, ws, ws', ?_, ?_, ?_, ?_⟩
  · rw [hlist]
    simp only [List.map_cons, List.map_nil, c, hfirst, hsecond, hother]
    rfl
  · rw [hlist']
    simp only [List.map_cons, List.map_nil, c, hfirst, hsecond, hother]
    rfl
  · rw [hfind]
    simp only [List.map_cons, List.map_nil, c, hfirst, hsecond, hother]
    rfl
  · rw [hfind']
    simp only [List.map_cons, List.map_nil, c, hfirst, hsecond, hother]
    rfl

end Rustable
