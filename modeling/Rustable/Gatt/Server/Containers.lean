import Rustable.Gatt.Server.Application
import Rustable.Lib.InsertionOrder

/-!
# The containers of attributes

An application keeps services, a service characteristics and the UUIDs it includes, and a
characteristic descriptors.  Each of the four is an insertion-ordered map with UUIDs as
keys, whatever was added and removed before (`made_ordered`).  An attribute that is
removed can be changed and added again, like any other that was made from an empty one.
-/

namespace Rustable.Gatt.Server

/-! ## Descriptors of a characteristic -/

namespace Characteristic

/-- `Characteristic::find_desc_unsorted` -/
def findDescUnsorted (self : Characteristic) (uuid : UUID) : Option Descriptor :=
  self.descs.find? (·.uuid = uuid)

/-- A call of `add_desc` or `remove_desc`. -/
def step (self : Characteristic) : KeyOp Descriptor UUID → Characteristic
  | .add desc => self.addDesc desc
  | .remove uuid => (self.removeDesc uuid).2

/-- The characteristic was made by these calls from one without descriptors. -/
def Made (chrc : Characteristic) (ops : List (KeyOp Descriptor UUID)) : Prop :=
  ∃ chrc₀ : Characteristic, chrc₀.descs = [] ∧ ops.foldl step chrc₀ = chrc

/-- The descriptors are in the order of insertion. -/
structure Ordered (chrc : Characteristic) (ops : List (KeyOp Descriptor UUID)) : Prop where
  descs : InsertionOrdered Descriptor.uuid ops chrc.descs chrc.findDescUnsorted
    (fun desc ↦ some (chrc.addDesc desc).descs) fun uuid ↦ (chrc.removeDesc uuid).2.descs
  removed : ∀ uuid, (chrc.removeDesc uuid).1 = KeyOp.latest Descriptor.uuid ops uuid

theorem descs_step (self : Characteristic) (op : KeyOp Descriptor UUID) :
    (self.step op).descs = op.apply Descriptor.uuid self.descs := by
  cases op with
  | add desc => rfl
  | remove uuid => rfl

theorem Made.ordered {chrc : Characteristic} {ops : List (KeyOp Descriptor UUID)}
    (h : chrc.Made ops) : chrc.Ordered ops := by
  obtain ⟨chrc₀, hempty, rfl⟩ := h
  have hdescs : (ops.foldl step chrc₀).descs = ops.foldl (KeyOp.apply Descriptor.uuid) [] := by
    rw [← hempty, KeyOp.foldl_part descs some descs_step, List.filterMap_some]
  have descs : InsertionOrdered Descriptor.uuid ops _ _ _ _ :=
    KeyOp.insertionOrdered hdescs (fun _ ↦ rfl) (fun _ _ h ↦ (Option.some.inj h).symm) fun _ ↦ rfl
  exact ⟨descs, descs.lookup⟩

theorem Distinct.step {self : Characteristic} (h : self.Distinct) (op : KeyOp Descriptor UUID) :
    (self.step op).Distinct := by
  cases op with
  | add desc => exact h.addDesc desc
  | remove uuid => exact h.removeDesc uuid

/-- Descriptors that have been added have different UUIDs. -/
theorem Made.distinct {chrc : Characteristic} {ops : List (KeyOp Descriptor UUID)}
    (h : chrc.Made ops) : chrc.Distinct := by
  obtain ⟨chrc₀, hempty, rfl⟩ := h
  have hnew : chrc₀.Distinct := ⟨by rw [hempty]; exact List.nodup_nil⟩
  exact List.foldlRecOn ops Characteristic.step hnew fun _ hself op _ ↦ hself.step op

end Characteristic

/-! ## Characteristics and included services of a service -/

/-- A call that changes one of the containers of a service. -/
inductive ServiceOp
  | char (op : KeyOp Characteristic UUID)
  | includes (op : KeyOp UUID UUID)

namespace ServiceOp

/-- What it does to the characteristics. -/
def char? : ServiceOp → Option (KeyOp Characteristic UUID)
  | char op => some op
  | includes _ => none

/-- What it does to the included services. -/
def includes? : ServiceOp → Option (KeyOp UUID UUID)
  | char _ => none
  | includes op => some op

end ServiceOp

namespace Service

/-- `Service::find_char_unsorted` -/
def findCharUnsorted (self : Service) (uuid : UUID) : Option Characteristic :=
  self.chars.find? (·.uuid = uuid)

/-- A call of `add_char`, `remove_char`, `add_includes` or `remove_includes`. -/
def step (self : Service) : ServiceOp → Service
  | .char (.add chrc) => self.addChar chrc
  | .char (.remove uuid) => (self.removeChar uuid).2
  | .includes (.add uuid) => self.addIncludes uuid
  | .includes (.remove uuid) => self.removeIncludes uuid

/-- The service was made by these calls from one without characteristics, with characteristics
that were made likewise. -/
def Made (serv : Service) (ops : List ServiceOp) : Prop :=
  ∃ serv₀ : Service, serv₀.chars = [] ∧ serv₀.includes = [] ∧
    (∀ chrc, .char (.add chrc) ∈ ops → ∃ ops, chrc.Made ops) ∧ ops.foldl step serv₀ = serv

/-- The characteristics and the included services are in the order of insertion, and so are the
descriptors of each characteristic. -/
structure Ordered (serv : Service) (ops : List ServiceOp) : Prop where
  chars : InsertionOrdered Characteristic.uuid (ops.filterMap ServiceOp.char?) serv.chars
    serv.findCharUnsorted (fun chrc ↦ some (serv.addChar chrc).chars)
    fun uuid ↦ (serv.removeChar uuid).2.chars
  removed : ∀ uuid, (serv.removeChar uuid).1 =
    KeyOp.latest Characteristic.uuid (ops.filterMap ServiceOp.char?) uuid
  includes : InsertionOrdered id (ops.filterMap ServiceOp.includes?) serv.includes
    (fun uuid ↦ if uuid ∈ serv.includes then some uuid else none)
    (fun uuid ↦ some (serv.addIncludes uuid).includes)
    fun uuid ↦ (serv.removeIncludes uuid).includes
  each : ∀ chrc ∈ serv.chars, ∃ ops, chrc.Made ops ∧ chrc.Ordered ops

theorem chars_step (self : Service) (op : ServiceOp) : (self.step op).chars =
    (op.char?.map (KeyOp.apply Characteristic.uuid self.chars)).getD self.chars := by
  rcases op with (chrc | uuid) | (uuid | uuid)
  · rfl
  · rfl
  · rw [step, addIncludes]
    split <;> rfl
  · rfl

theorem lookup_includes (self : Service) (uuid : UUID) :
    (if uuid ∈ self.includes then some uuid else none) = self.includes.find? (id · = uuid) := by
  cases h : self.includes.find? (id · = uuid) with
  | none => exact if_neg fun hmem ↦ List.find?_eq_none.mp h uuid hmem (decide_eq_true rfl)
  | some u =>
      obtain rfl : id u = uuid := by simpa using List.find?_some h
      exact if_pos (List.mem_of_find?_eq_some h)

/-- `add_includes` adds what is not there. -/
theorem includes_addIncludes (self : Service) (uuid : UUID) :
    (self.addIncludes uuid).includes = replaceOrPush id uuid self.includes := by
  rw [addIncludes]
  split
  · next hmem => exact (replaceOrPush_self hmem).symm
  · next hmem => exact (replaceOrPush_of_notMem (by simpa using hmem)).symm

theorem includes_removeIncludes (self : Service) (uuid : UUID) :
    (self.removeIncludes uuid).includes = self.includes.eraseP (id · = uuid) := by
  rw [removeIncludes, List.erase_eq_eraseP']
  exact congrArg (List.eraseP · self.includes) (funext fun u ↦ beq_eq_decide u uuid)

theorem includes_step (self : Service) (op : ServiceOp) : (self.step op).includes =
    (op.includes?.map (KeyOp.apply id self.includes)).getD self.includes := by
  rcases op with (chrc | uuid) | (uuid | uuid)
  · rfl
  · rfl
  · exact includes_addIncludes self uuid
  · exact includes_removeIncludes self uuid

theorem Made.ordered {serv : Service} {ops : List ServiceOp} (h : serv.Made ops) :
    serv.Ordered ops := by
  obtain ⟨serv₀, hchars, hincludes, heach, rfl⟩ := h
  have hchars' : (ops.foldl step serv₀).chars =
      (ops.filterMap ServiceOp.char?).foldl (KeyOp.apply Characteristic.uuid) [] := by
    rw [← hchars, KeyOp.foldl_part Service.chars ServiceOp.char? chars_step]
  have hincludes' : (ops.foldl step serv₀).includes =
      (ops.filterMap ServiceOp.includes?).foldl (KeyOp.apply id) [] := by
    rw [← hincludes, KeyOp.foldl_part Service.includes ServiceOp.includes? includes_step]
  have chars : InsertionOrdered Characteristic.uuid _ (ops.foldl step serv₀).chars _ _ _ :=
    KeyOp.insertionOrdered hchars' (fun _ ↦ rfl) (fun _ _ h ↦ (Option.some.inj h).symm) fun _ ↦ rfl
  exact {
    chars := chars
    removed := chars.lookup
    includes := KeyOp.insertionOrdered hincludes' (lookup_includes _)
      (fun _ _ h ↦ (Option.some.inj h).symm.trans (includes_addIncludes _ _))
      (includes_removeIncludes _)
    each := fun chrc hchrc ↦ by
      rw [hchars'] at hchrc
      have hadd := (KeyOp.mem_foldl hchrc).resolve_left List.not_mem_nil
      obtain ⟨op, hop, hchar⟩ := List.mem_filterMap.mp hadd
      obtain rfl : op = .char (.add chrc) := by
        cases op with
        | char op => rw [Option.some.inj hchar]
        | includes op => contradiction
      obtain ⟨ops', hmade⟩ := heach chrc hop
      exact ⟨ops', hmade, hmade.ordered⟩ }

theorem Distinct.step {self : Service} (h : self.Distinct) {op : ServiceOp}
    (hop : ∀ chrc, op = .char (.add chrc) → chrc.Distinct) : (self.step op).Distinct := by
  have hchars {serv : Service} (hsame : serv.chars = self.chars) : serv.Distinct :=
    ⟨hsame ▸ h.nodup, hsame ▸ h.each⟩
  rcases op with (chrc | uuid) | op
  · exact h.addChar (hop chrc rfl)
  · exact h.removeChar uuid
  · exact hchars (chars_step self (.includes op))

/-- Characteristics that have been added have different UUIDs. -/
theorem Made.distinct {serv : Service} {ops : List ServiceOp} (h : serv.Made ops) :
    serv.Distinct := by
  obtain ⟨serv₀, hchars, -, heach, rfl⟩ := h
  have hnew : serv₀.Distinct := by
    refine ⟨?_, ?_⟩ <;> rw [hchars]
    · exact List.nodup_nil
    · exact fun _ h ↦ absurd h List.not_mem_nil
  refine List.foldlRecOn ops Service.step hnew fun _ hself op hop ↦ hself.step ?_
  rintro chrc rfl
  obtain ⟨ops', hmade⟩ := heach chrc hop
  exact hmade.distinct

end Service

/-! ## Services of an application -/

namespace Application

/-- `Application::find_serv_unsorted` -/
def findServUnsorted (self : Application) (uuid : UUID) : Option Service :=
  self.services.find? (·.uuid = uuid)

/-- A call of `add_service` or `remove_service`; no value is a panic. -/
def step (self : Application) : KeyOp Service UUID → Option Application
  | .add service => self.addService service
  | .remove uuid => some (self.removeService uuid).2

/-- The application was made by these calls from one without services, with services that were
made likewise and have characteristics. -/
def Made (app : Application) (ops : List (KeyOp Service UUID)) : Prop :=
  ∃ app₀ : Application, app₀.services = [] ∧
    (∀ serv, .add serv ∈ ops → serv.chars ≠ [] ∧ ∃ ops, serv.Made ops) ∧
    ops.foldlM step app₀ = some app

/-- The services are in the order of insertion, and so are the attributes of each of them. -/
structure Ordered (app : Application) (ops : List (KeyOp Service UUID)) : Prop where
  services : InsertionOrdered Service.uuid ops app.services app.findServUnsorted
    (fun serv ↦ (app.addService serv).map services) fun uuid ↦ (app.removeService uuid).2.services
  removed : ∀ uuid, (app.removeService uuid).1 = KeyOp.latest Service.uuid ops uuid
  each : ∀ serv ∈ app.services, ∃ ops, serv.Made ops ∧ serv.Ordered ops

theorem services_addService {self app : Application} {service : Service}
    (h : self.addService service = some app) :
    app.services = replaceOrPush Service.uuid service self.services := by
  rw [addService] at h
  split at h
  · contradiction
  · rw [← Option.some.inj h]

theorem services_step {self app : Application} {op : KeyOp Service UUID}
    (h : self.step op = some app) : app.services = op.apply Service.uuid self.services := by
  cases op with
  | add service => exact services_addService h
  | remove uuid => rw [← Option.some.inj h]; rfl

theorem services_foldlM {self app : Application} {ops : List (KeyOp Service UUID)}
    (h : ops.foldlM step self = some app) :
    app.services = ops.foldl (KeyOp.apply Service.uuid) self.services := by
  induction ops generalizing self with
  | nil => rw [← Option.some.inj h]; rfl
  | cons op ops ih =>
      obtain ⟨self', hstep, h⟩ := Option.bind_eq_some_iff.mp h
      rw [ih h, services_step hstep, List.foldl_cons]

theorem Made.ordered {app : Application} {ops : List (KeyOp Service UUID)} (h : app.Made ops) :
    app.Ordered ops := by
  obtain ⟨app₀, hempty, heach, hrun⟩ := h
  have hservices := services_foldlM hrun
  rw [hempty] at hservices
  have services : InsertionOrdered Service.uuid ops app.services app.findServUnsorted
      (fun serv ↦ (app.addService serv).map services)
      fun uuid ↦ (app.removeService uuid).2.services := by
    refine KeyOp.insertionOrdered hservices (fun _ ↦ rfl) (fun serv l h ↦ ?_) fun _ ↦ rfl
    obtain ⟨app', happ', rfl⟩ := Option.map_eq_some_iff.mp h
    exact services_addService happ'
  refine ⟨services, services.lookup, fun serv hserv ↦ ?_⟩
  rw [hservices] at hserv
  have hadd := (KeyOp.mem_foldl hserv).resolve_left List.not_mem_nil
  obtain ⟨-, ops', hmade⟩ := heach serv hadd
  exact ⟨ops', hmade, hmade.ordered⟩

/-- A service with characteristics is added without a panic. -/
theorem isSome_foldlM {ops : List (KeyOp Service UUID)}
    (h : ∀ serv, .add serv ∈ ops → serv.chars ≠ []) (self : Application) :
    (ops.foldlM step self).isSome := by
  induction ops generalizing self with
  | nil => rfl
  | cons op ops ih =>
      obtain ⟨app, happ⟩ : ∃ app, self.step op = some app := by
        cases op with
        | add serv =>
            have hne : ¬serv.chars.isEmpty := by simpa using h serv List.mem_cons_self
            exact ⟨_, if_neg hne⟩
        | remove uuid => exact ⟨_, rfl⟩
      rw [List.foldlM_cons, happ]
      exact ih (fun serv hserv ↦ h serv (List.mem_cons_of_mem op hserv)) app

theorem Distinct.step {self app : Application} (h : self.Distinct) {op : KeyOp Service UUID}
    (hop : ∀ serv, op = .add serv → serv.Distinct) (happ : self.step op = some app) :
    app.Distinct := by
  cases op with
  | add serv => exact h.addService (hop serv rfl) happ
  | remove uuid =>
      obtain rfl := Option.some.inj happ
      exact h.removeService uuid

theorem Distinct.foldlM {self app : Application} {ops : List (KeyOp Service UUID)}
    (h : self.Distinct) (hops : ∀ serv, .add serv ∈ ops → serv.Distinct)
    (happ : ops.foldlM Application.step self = some app) : app.Distinct := by
  induction ops generalizing self with
  | nil => exact Option.some.inj happ ▸ h
  | cons op ops ih =>
      obtain ⟨self', hstep, happ⟩ := Option.bind_eq_some_iff.mp happ
      refine ih (h.step (fun serv heq ↦ hops serv ?_) hstep) (fun serv hserv ↦ hops serv ?_) happ
      · exact heq ▸ List.mem_cons_self
      · exact List.mem_cons_of_mem op hserv

/-- **What is put together is distinct**: of an application that was made by these calls, the
attributes with the same parent have different UUIDs. -/
theorem Made.distinct {app : Application} {ops : List (KeyOp Service UUID)} (h : app.Made ops) :
    app.Distinct := by
  obtain ⟨app₀, hempty, heach, hrun⟩ := h
  have hnew : app₀.Distinct := by
    refine ⟨?_, ?_⟩ <;> rw [hempty]
    · exact List.nodup_nil
    · exact fun _ h ↦ absurd h List.not_mem_nil
  refine hnew.foldlM (fun serv hserv ↦ ?_) hrun
  obtain ⟨-, ops', hmade⟩ := heach serv hserv
  exact hmade.distinct

end Application

/-! ## All of them -/

/-- **The containers of attributes are insertion-ordered maps** at every level, and no call
panics as long as the services that are added have characteristics. -/
theorem made_ordered :
    (∀ (chrc : Characteristic) ops, chrc.Made ops → chrc.Ordered ops) ∧
      (∀ (serv : Service) ops, serv.Made ops → serv.Ordered ops) ∧
      (∀ (app : Application) ops, app.Made ops → app.Ordered ops) ∧
      ∀ (app₀ : Application) (ops : List (KeyOp Service UUID)),
        (∀ serv, .add serv ∈ ops → serv.chars ≠ []) → (ops.foldlM Application.step app₀).isSome :=
  ⟨fun _ _ h ↦ h.ordered, fun _ _ h ↦ h.ordered, fun _ _ h ↦ h.ordered,
    fun app₀ _ h ↦ Application.isSome_foldlM h app₀⟩

/-- A descriptor that is added twice, in an application with one service. -/
theorem made_ordered_descriptor :
    let desc : Descriptor := { uuid := ⟨3⟩, flags := {} }
    let chrc : Characteristic := { uuid := ⟨2⟩, flags := {}, descs := [desc] }
    let serv : Service := { uuid := ⟨1⟩, primary := true, chars := [chrc] }
    let app : Application := { hci := .root, basePath := .root, services := [serv] }
    chrc.Ordered [.add desc, .add desc] ∧ serv.Ordered [.char (.add chrc)] ∧
      app.Ordered [.add serv] := by
  intro desc chrc serv app
  have hchrc : chrc.Made [.add desc, .add desc] := ⟨{ chrc with descs := [] }, rfl, rfl⟩
  have hserv : serv.Made [.char (.add chrc)] := by
    refine ⟨{ serv with chars := [] }, rfl, rfl, fun chrc' h ↦ ⟨[.add desc, .add desc], ?_⟩, rfl⟩
    obtain ⟨rfl⟩ := List.mem_singleton.mp h
    exact hchrc
  refine ⟨made_ordered.1 _ _ hchrc, made_ordered.2.1 _ _ hserv, made_ordered.2.2.1 _ _ ?_⟩
  refine ⟨{ app with services := [] }, rfl, fun serv' h ↦ ?_, rfl⟩
  obtain ⟨rfl⟩ := List.mem_singleton.mp h
  exact ⟨List.cons_ne_nil _ _, [.char (.add chrc)], hserv⟩

end Rustable.Gatt.Server
