import Rustable.Gatt.Lookups
import Rustable.Lib.TryJoin

/-!
# Included services

`get_includes` reads the paths of the services that a service includes, asks the object at each
of them for its UUID, and joins the requests.  The replies come in any order; the services are
returned in the order of the paths, and if one of the paths is not that of a service there is
an error (`getIncludes_returned`).
-/

namespace Rustable

open DBus

namespace Gatt.Client

/-- The error of `get_includes` for a path that is not that of a service. -/
def invalidServicePath : Error := .bluez "Bluez returned invalid service path!"

/-- What `get_includes` makes of the result of a request: a service, or what it returns. -/
def included (item : MayFail (Option Attribute)) : Attribute ⊕ MayFail (List Attribute) :=
  match item.run with
  | none => .inr .panic
  | some (.error e) => .inr (throw e)
  | some (.ok none) => .inr (throw invalidServicePath)
  | some (.ok (some service)) => .inl service

/-- `Service::get_includes`, from the reply to the request for the paths on. -/
def getIncludes (reply : MayFail MarshalledMessage) (ws : List (Wake Op.Answer)) :
    Looping (Numbered Request) (HashMap Nat Attribute) (MayFail (List Attribute)) :=
  match (reply >>= includesOfReply).run with
  | none => .returned .panic
  | some (.error e) => .returned (throw e)
  | some (.ok paths) =>
      let requests := paths.map fun path ↦
        { kind := "service", interface := bluezSerIf, child := path : Request }
      joinAll included pure requests ws

/-- The objects at the paths, each with the reply to the request for its UUID. -/
structure Includes where
  objects : List (ObjectPath × MarshalledMessage)
  isReply : ∀ o ∈ objects, o.2.typ = .reply ∨ o.2.typ = .error
  /-- UUIDs are sent as ASCII strings. -/
  ascii : ∀ o ∈ objects, ∀ s, isMsgErr BluezOptions o.2 = pure (.str s) →
    ∀ c ∈ s.toList, c.utf8Size = 1

namespace Includes

variable {self : Includes} {w : Wake Op.Answer} {o : ObjectPath × MarshalledMessage}

/-- The connection does not fail, and the reply to a request is that of the object. -/
def Honest (self : Includes) (w : Wake Op.Answer) : Prop :=
  ∀ o, self.objects[w.key]? = some o → Answers w o.2

/-- Each future has been polled when nothing took more time. -/
def Replied (self : Includes) (ws : List (Wake Op.Answer)) : Prop :=
  ∀ k < self.objects.length, ∃ w ∈ ws, w.key = k ∧ ¬Late w

/-- What the request of an object comes to. -/
def outcome (self : Includes) (k : Nat) : MayFail (Option Attribute) :=
  match self.objects[k]? with
  | none => pure none
  | some o => lookupAttribute "service" o.1 o.2

/-- The request of an object, at any stage. -/
def IsRequest (self : Includes) (k : Nat) (request : Request) : Prop :=
  ∃ o stage, self.objects[k]? = some o ∧
    request = { kind := "service", interface := bluezSerIf, child := o.1, stage := stage }

/-- The name of the root cannot be read, any other object is looked up. -/
theorem lookupAttribute_cases (ho : o ∈ self.objects) :
    o.1 = .root ∧ lookupAttribute "service" o.1 o.2 = .panic ∨
      o.1 ≠ .root ∧ lookupAttribute "service" o.1 o.2 = pure (attributeOf "service" o) := by
  by_cases hroot : o.1 = .root
  · exact .inl ⟨hroot, by rw [hroot]; rfl⟩
  · have hbelow : ObjectPath.root.Below o.1 := by
      refine ⟨o.1.elements, fun hnil ↦ hroot (ObjectPath.ext hnil), rfl⟩
    let c : Children .root := {
      objects := [o]
      below := fun o' ho' ↦ List.mem_singleton.mp ho' ▸ hbelow
      isReply := fun o' ho' ↦ List.mem_singleton.mp ho' ▸ self.isReply o ho
      ascii := fun o' ho' ↦ List.mem_singleton.mp ho' ▸ self.ascii o ho }
    exact .inr ⟨hroot, c.lookupAttribute_eq List.mem_cons_self⟩

/-- A request comes to its outcome. -/
theorem leads (h : self.Honest w) : w.Leads self.IsRequest self.outcome := by
  rintro request ⟨o, stage, ho, rfl⟩
  rcases gives_poll ⟨"service", bluezSerIf, o.1, stage⟩ (h o ho) with hready | ⟨-, stage', hpending⟩
  · exact .inl (hready.trans (by rw [outcome, ho]))
  · exact .inr ⟨_, hpending, o, stage', ho, rfl⟩

/-- If nothing takes more time, it has come to it. -/
theorem completes (h : self.Honest w) (hlate : ¬Late w) :
    w.Completes self.IsRequest self.outcome := by
  rintro request ⟨o, stage, ho, rfl⟩
  rcases gives_poll ⟨"service", bluezSerIf, o.1, stage⟩ (h o ho) with hready | ⟨hlate', -⟩
  · exact hready.trans (by rw [outcome, ho])
  · exact absurd hlate' hlate

/-- What `get_includes` makes of the outcomes. -/
theorem included_outcome {k : Nat} (hk : self.objects[k]? = some o) :
    o.1 = .root ∧ included (self.outcome k) = .inr .panic ∨
      o.1 ≠ .root ∧ included (self.outcome k) = match attributeOf "service" o with
        | some service => .inl service
        | none => .inr (throw invalidServicePath) := by
  have houtcome : self.outcome k = lookupAttribute "service" o.1 o.2 := by rw [outcome, hk]
  rw [houtcome]
  rcases lookupAttribute_cases (List.mem_of_getElem? hk) with ⟨hroot, heq⟩ | ⟨hroot, heq⟩
  · exact .inl ⟨hroot, by rw [heq]; rfl⟩
  · refine .inr ⟨hroot, ?_⟩
    rw [heq]
    cases attributeOf "service" o with
    | none => rfl
    | some service => rfl

/-- The paths that are returned in the reply. -/
def paths (self : Includes) : List ObjectPath := self.objects.map Prod.fst

/-- The requests at the paths. -/
def requests (self : Includes) : List Request :=
  self.paths.map fun path ↦ { kind := "service", interface := bluezSerIf, child := path }

theorem isRequest_requests (k : Nat) (request : Request) (h : self.requests[k]? = some request) :
    self.IsRequest k request := by
  rw [requests, paths, List.map_map, List.getElem?_map] at h
  obtain ⟨o, ho, rfl⟩ := Option.map_eq_some_iff.mp h
  exact ⟨o, .start, ho, rfl⟩

theorem length_requests : self.requests.length = self.objects.length := by
  rw [requests, paths, List.length_map, List.length_map]

/-- The values of the requests, if each has one, are the services. -/
theorem map_values
    (h : ∀ k < self.objects.length, (valueAt included self.outcome k).isSome) :
    ((List.range self.objects.length).filterMap (valueAt included self.outcome)).map some =
      self.objects.map (attributeOf "service") := by
  have hsome {l : List Nat} (hl : ∀ k ∈ l, (valueAt included self.outcome k).isSome) :
      (l.filterMap (valueAt included self.outcome)).map some =
        l.map (valueAt included self.outcome) := by
    induction l with
    | nil => rfl
    | cons k l ih =>
        obtain ⟨hk, hl⟩ := List.forall_mem_cons.mp hl
        obtain ⟨service, hservice⟩ := Option.isSome_iff_exists.mp hk
        rw [List.filterMap_cons, hservice, List.map_cons, List.map_cons, hservice, ih hl]
  rw [hsome fun k hk ↦ h k (List.mem_range.mp hk)]
  refine List.ext_getElem (by simp) fun k hk _ ↦ ?_
  have hlt : k < self.objects.length := by simpa using hk
  rw [List.getElem_map, List.getElem_map, List.getElem_range]
  have hvalue := h k hlt
  rw [valueAt] at hvalue ⊢
  rcases included_outcome (List.getElem?_eq_getElem hlt) with ⟨-, heq⟩ | ⟨-, heq⟩
  · rw [heq] at hvalue
    contradiction
  · rw [heq] at hvalue ⊢
    cases hservice : attributeOf "service" self.objects[k] with
    | none =>
        rw [hservice] at hvalue
        contradiction
    | some service => rfl

end Includes

/-- What `get_includes` may return. -/
inductive GetsIncludes (objects : List (ObjectPath × MarshalledMessage)) :
    MayFail (List Attribute) → Prop
  | /-- All of them are services. -/
    services {services : List Attribute}
      (h : services.map some = objects.map (attributeOf "service")) :
      GetsIncludes objects (pure services)
  | /-- One of them is none. -/
    invalid {o : ObjectPath × MarshalledMessage} (ho : o ∈ objects) (hroot : o.1 ≠ .root)
      (h : attributeOf "service" o = none) : GetsIncludes objects (throw invalidServicePath)
  | /-- One of them is the root. -/
    root {o : ObjectPath × MarshalledMessage} (ho : o ∈ objects) (hroot : o.1 = .root) :
      GetsIncludes objects .panic

section Returned

variable {c : Includes} {reply : MayFail MarshalledMessage} {ws : List (Wake Op.Answer)}
  {r : MayFail (List Attribute)}

theorem getIncludes_eq (hreply : reply >>= includesOfReply = pure c.paths)
    (ws : List (Wake Op.Answer)) :
    getIncludes reply ws = joinAll included pure c.requests ws := by
  rw [getIncludes, hreply]
  rfl

theorem getsIncludes_of_returned (hreply : reply >>= includesOfReply = pure c.paths)
    (hws : ∀ w ∈ ws, c.Honest w) (h : getIncludes reply ws = .returned r) :
    GetsIncludes c.objects r := by
  rw [getIncludes_eq hreply] at h
  rcases joinAll_returned Includes.isRequest_requests (fun w hw ↦ Includes.leads (hws w hw)) h with
    ⟨hall, rfl⟩ | ⟨k, hk, hb⟩
  · rw [Includes.length_requests] at hall ⊢
    exact .services (Includes.map_values hall)
  · rw [Includes.length_requests] at hk
    have ho := List.getElem?_eq_getElem hk
    have hmem := List.mem_of_getElem? ho
    rcases Includes.included_outcome ho with ⟨hroot, heq⟩ | ⟨hroot, heq⟩
    · obtain rfl := Sum.inr.inj (hb.symm.trans heq)
      exact .root hmem hroot
    · rw [hb] at heq
      cases hservice : attributeOf "service" c.objects[k] with
      | none =>
          rw [hservice] at heq
          obtain rfl := Sum.inr.inj heq
          exact .invalid hmem hroot hservice
      | some service =>
          rw [hservice] at heq
          contradiction

end Returned

/-- Only one thing may be returned, unless the root is among the paths. -/
theorem GetsIncludes.unique {objects : List (ObjectPath × MarshalledMessage)}
    (hroots : ∀ o ∈ objects, o.1 ≠ .root) {r r' : MayFail (List Attribute)}
    (h : GetsIncludes objects r) (h' : GetsIncludes objects r') : r = r' := by
  have hnot {services : List Attribute} {o : ObjectPath × MarshalledMessage}
      (hs : services.map some = objects.map (attributeOf "service")) (ho : o ∈ objects)
      (hnone : attributeOf "service" o = none) : False := by
    have hmem := List.mem_map_of_mem (f := attributeOf "service") ho
    rw [← hs, hnone] at hmem
    obtain ⟨a, -, ha⟩ := List.mem_map.mp hmem
    contradiction
  cases h with
  | root ho hroot => exact absurd hroot (hroots _ ho)
  | services hs =>
      cases h' with
      | root ho hroot => exact absurd hroot (hroots _ ho)
      | services hs' =>
          rw [List.map_injective_iff.mpr (Option.some_injective Attribute) (hs.trans hs'.symm)]
      | invalid ho _ hnone => exact (hnot hs ho hnone).elim
  | invalid ho _ hnone =>
      cases h' with
      | root ho hroot => exact absurd hroot (hroots _ ho)
      | services hs' => exact (hnot hs' ho hnone).elim
      | invalid => rfl

/-- What `get_includes` does with a reply that has some paths, in whatever order the objects at
the paths reply. -/
structure ReadsIncludes (reply : MayFail MarshalledMessage) (c : Includes) : Prop where
  /-- It returns the services in the order of the paths, if all of them are services. -/
  returned : ∀ ws, (∀ w ∈ ws, c.Honest w) → ∀ r, getIncludes reply ws = .returned r →
    GetsIncludes c.objects r
  /-- It returns, at the latest when there are replies to all requests. -/
  returns : ∀ ws, (∀ w ∈ ws, c.Honest w) → c.Replied ws → ∃ r, getIncludes reply ws = .returned r
  /-- It returns the same in each order. -/
  same : (∀ o ∈ c.objects, o.1 ≠ .root) → ∀ ws ws', (∀ w ∈ ws, c.Honest w) →
    (∀ w ∈ ws', c.Honest w) → ∀ r r', getIncludes reply ws = .returned r →
      getIncludes reply ws' = .returned r' → r = r'

/-- **The included services are those at the paths**, in the order of the paths. -/
theorem readsIncludes {c : Includes} {reply : MayFail MarshalledMessage}
    (hreply : reply >>= includesOfReply = pure c.paths) : ReadsIncludes reply c where
  returned ws hws r h := getsIncludes_of_returned hreply hws h
  returns ws hws hreplied := by
    rw [getIncludes_eq hreply]
    refine joinAll_returns Includes.isRequest_requests (fun w hw ↦ Includes.leads (hws w hw))
      fun k hk ↦ ?_
    rw [Includes.length_requests] at hk
    obtain ⟨w, hw, hkey, hlate⟩ := hreplied k hk
    exact ⟨w, hw, hkey, Includes.completes (hws w hw) hlate⟩
  same hroots ws ws' hws hws' r r' h h' :=
    (getsIncludes_of_returned hreply hws h).unique hroots (getsIncludes_of_returned hreply hws' h')

/-- The response with some paths. -/
theorem exists_pathsResponse (paths : List ObjectPath) :
    ∃ res : MarshalledMessage, includesOfReply res = pure paths := by
  obtain ⟨v, hv⟩ := Option.isSome_iff_exists.mp
    (BluezOptions.marshal_isSome (o := .ownedPaths paths) fun _ heq ↦ BluezOptions.noConfusion heq)
  refine ⟨{ typ := .reply, dynheader := {}, body := [⟨sig BluezOptions, v⟩] }, ?_⟩
  rw [includesOfReply, isMsgErr_reply rfl rfl (BluezOptions.unmarshal_marshal hv not_false)]
  rfl

/-- Two services that are included. -/
def twoIncludes (u v : UUID) : Includes where
  objects := [(firstService .root, uuidResponse u), (secondService .root, uuidResponse v)]
  isReply o ho := (twoServices .root u v).isReply o (List.mem_append_left [_] ho)
  ascii o ho := (twoServices .root u v).ascii o (List.mem_append_left [_] ho)

section TwoIncludes

variable {u v : UUID} {k : Nat} {order : List Nat}

/-- The wakes in which the services reply at once, in an order. -/
def promptly (u v : UUID) (order : List Nat) : List (Wake Op.Answer) :=
  order.map fun k ↦ ⟨k, (twoServices .root u v).prompt k⟩

theorem key_promptly : (promptly u v order).map (·.key) = order := by
  rw [promptly, List.map_map]
  exact List.map_id order

theorem honest_prompt_twoIncludes (hk : k < 2) :
    (twoIncludes u v).Honest ⟨k, (twoServices .root u v).prompt k⟩ := by
  intro o ho
  refine Children.honest_prompt k o ?_
  have hobjects : (twoServices .root u v).objects = (twoIncludes u v).objects ++ [_] := rfl
  rw [hobjects, List.getElem?_append_left hk]
  exact ho

theorem honest_promptly (h : ∀ k ∈ order, k < 2) :
    ∀ w ∈ promptly u v order, (twoIncludes u v).Honest w := by
  intro w hw
  obtain ⟨k, hk, rfl⟩ := List.mem_map.mp hw
  exact honest_prompt_twoIncludes (h k hk)

theorem replied_promptly (h : ∀ k < 2, k ∈ order) :
    (twoIncludes u v).Replied (promptly u v order) := by
  intro k hk
  have hlt : k < 2 := hk
  have hlate : ¬Late ⟨k, (twoServices .root u v).prompt k⟩ :=
    Children.not_late_prompt (Nat.lt_succ_of_lt hlt)
  exact ⟨_, List.mem_map.mpr ⟨k, h k hk, rfl⟩, rfl, hlate⟩

theorem path_ne_root_of_twoIncludes : ∀ o ∈ (twoIncludes u v).objects, o.1 ≠ .root := by
  simp only [twoIncludes, List.forall_mem_cons]
  exact ⟨ObjectPath.push_ne_root _ _, ObjectPath.push_ne_root _ _, by simp⟩

theorem getsIncludes_twoIncludes : GetsIncludes (twoIncludes u v).objects
    (pure [⟨firstService .root, u⟩, ⟨secondService .root, v⟩]) := by
  refine .services ?_
  rw [twoIncludes, List.map_cons, List.map_cons, List.map_cons, List.map_cons,
    attributeOf_firstService, attributeOf_secondService]
  rfl

/-- They are returned in the order of the paths, whichever of them replies first. -/
theorem ReadsIncludes.getIncludes_promptly {reply : MayFail MarshalledMessage}
    (h : ReadsIncludes reply (twoIncludes u v)) (horder : ∀ k, k ∈ order ↔ k < 2) :
    getIncludes reply (promptly u v order) =
      .returned (pure [⟨firstService .root, u⟩, ⟨secondService .root, v⟩]) := by
  have hhonest := honest_promptly (u := u) (v := v) fun k hk ↦ (horder k).mp hk
  have hreplied := replied_promptly (u := u) (v := v) fun k hk ↦ (horder k).mpr hk
  obtain ⟨r, hr⟩ := h.returns _ hhonest hreplied
  have hreturned := (h.returned _ hhonest r hr).unique path_ne_root_of_twoIncludes
    getsIncludes_twoIncludes
  rw [hr, hreturned]

end TwoIncludes

/-- It holds of two included services, which may reply in either order. -/
theorem readsIncludes_twoIncludes : ∃ (u v : UUID) (reply : MayFail MarshalledMessage),
    ReadsIncludes reply (twoIncludes u v) ∧ ∃ ws ws' : List (Wake Op.Answer),
      ws.map (·.key) = [0, 1] ∧ ws'.map (·.key) = [1, 0] ∧
      getIncludes reply ws =
        .returned (pure [⟨firstService .root, u⟩, ⟨secondService .root, v⟩]) ∧
      getIncludes reply ws' =
        .returned (pure [⟨firstService .root, u⟩, ⟨secondService .root, v⟩]) := by
  obtain ⟨res, hres⟩ := exists_pathsResponse (twoIncludes ⟨0x180D⟩ ⟨0x180F⟩).paths
  have hreads : ReadsIncludes (pure res) (twoIncludes ⟨0x180D⟩ ⟨0x180F⟩) := readsIncludes hres
  refine ⟨_, _, _, hreads, _, _, key_promptly, key_promptly, hreads.getIncludes_promptly ?_,
    hreads.getIncludes_promptly ?_⟩
  · intro k
    simp only [List.mem_cons, List.not_mem_nil, or_false]
    omega
  · intro k
    simp only [List.mem_cons, List.not_mem_nil, or_false]
    omega

end Gatt.Client
end Rustable
