import Rustable.Existence

/-!
# Property calls that are granted

`properties_call` refuses what an object does not have, or what cannot be set, with the name of a
`PropError`.  None of them is the name of an error, so that a connection does not take the reply;
the one that `properties_call` has for an unknown method is.  `Grants` says of which calls the reply
can be sent (`sendable_propertiesCall`).
-/

namespace Rustable

open DBus

/-- No error of a property has the name of one. -/
theorem PropError.isErrorName_toStr (e : PropError) : isErrorName e.toStr = false := by
  cases e <;> decide

namespace Properties

variable {σ : Type} [Properties σ] {path : ObjectPath}
  {accepts : String → String → BluezOptions → Prop}

/-- The object has what a call on its properties asks for: a property of the table, or all of an
interface of the table, or it accepts what is to be set.  What is no method of the interface is
refused with the name of an error. -/
def Grants (σ : Type) [Properties σ] (accepts : String → String → BluezOptions → Prop)
    (c : MethodCall path) : Prop :=
  match c.member with
  | "Get" => ∃ interface prop, c.body.get2 String String = .ok (interface, prop) ∧
      prop ∈ listed σ interface
  | "Set" => ∃ interface prop v,
      c.body.get3 String String BluezOptions = .ok (interface, prop, v) ∧ accepts interface prop v
  | "GetAll" => ∃ interface, c.body.get String = .ok interface ∧
      ∃ i ∈ interfaces σ, interface = i.1
  | _ => True

section Replies

variable {c : MethodCall path} {s t : σ} {m : MarshalledMessage}

/-- The reply to a `Get`. -/
theorem sendable_get (hread : Readable path fun _ : σ ↦ True) (hexact : ∀ s : σ, Exact path s)
    (h : get c.toMessage s = some (m, t)) : m.isSendable = true ↔
      ∃ interface prop, c.body.get2 String String = .ok (interface, prop) ∧
        prop ∈ listed σ interface := by
  have hpath : (MayPanic.unwrap c.toMessage.dynheader.object : MayPanic σ ObjectPath) s =
      some (path, s) := rfl
  cases hbody : c.toMessage.body.get2 String String with
  | error e =>
      simp only [get, hbody] at h
      obtain ⟨rfl, -⟩ := Prod.mk.inj (Option.some.inj h)
      refine iff_of_false (by rw [isSendable_makeErrorResponse]; decide) ?_
      rintro ⟨interface, prop, hargs, -⟩
      have hboth := hbody.symm.trans hargs
      contradiction
  | ok args =>
      obtain ⟨interface, prop⟩ := args
      obtain ⟨r, s', hget, -, hsend⟩ := hread.getInner_total interface prop s trivial
      have hlisted := hexact s interface prop r s' hget
      simp only [get, hbody, MayPanic.bind_some hpath, MayPanic.bind_some hget] at h
      have hargs (hmem : ∃ interface prop, c.body.get2 String String = .ok (interface, prop) ∧
          prop ∈ listed σ interface) : prop ∈ listed σ interface := by
        obtain ⟨interface', prop', hargs, hmem⟩ := hmem
        obtain ⟨rfl, rfl⟩ := Prod.mk.inj (Except.ok.inj (hbody.symm.trans hargs))
        exact hmem
      cases r with
      | error e =>
          obtain ⟨rfl, -⟩ := Prod.mk.inj (Option.some.inj h)
          refine iff_of_false ?_ fun hmem ↦ ?_
          · rw [isSendable_makeErrorResponse, e.isErrorName_toStr]
            exact Bool.false_ne_true
          · rw [existence_eq_ok.mpr (hargs hmem)] at hlisted
            contradiction
      | ok v =>
          obtain ⟨w, hw⟩ := Option.isSome_iff_exists.mp (hsend v rfl)
          simp only [Body.pushParam_eq hw] at h
          obtain ⟨rfl, -⟩ := Prod.mk.inj (Option.some.inj h)
          exact iff_of_true rfl ⟨interface, prop, hbody, existence_eq_ok.mp hlisted.symm⟩

/-- The reply to a `GetAll`. -/
theorem sendable_getAll (hread : Readable path fun _ : σ ↦ True)
    (h : getAll c.toMessage s = some (m, t)) : m.isSendable = true ↔
      ∃ interface, c.body.get String = .ok interface ∧ ∃ i ∈ interfaces σ, interface = i.1 := by
  have hpath : (MayPanic.unwrap c.toMessage.dynheader.object : MayPanic σ ObjectPath) s =
      some (path, s) := rfl
  cases hbody : c.toMessage.body.get String with
  | error e =>
      simp only [getAll, hbody] at h
      obtain ⟨rfl, -⟩ := Prod.mk.inj (Option.some.inj h)
      refine iff_of_false (by rw [isSendable_makeErrorResponse]; decide) ?_
      rintro ⟨interface, hargs, -⟩
      have hboth := hbody.symm.trans hargs
      contradiction
  | ok interface =>
      obtain ⟨r, s', hget, -, hr⟩ := getAllInner_spec hread interface (s := s) trivial
      simp only [getAll, hbody, MayPanic.bind_some hpath, MayPanic.bind_some hget] at h
      obtain ⟨hno, rfl⟩ | ⟨map, rfl, hsend, -⟩ := hr
      · obtain ⟨rfl, -⟩ := Prod.mk.inj (Option.some.inj h)
        refine iff_of_false ?_ ?_
        · rw [isSendable_makeErrorResponse, PropError.isErrorName_toStr]
          exact Bool.false_ne_true
        · rintro ⟨interface', hargs, i, hi, heq⟩
          obtain rfl := Except.ok.inj (hbody.symm.trans hargs)
          exact hno i hi heq
      · obtain ⟨w, hw⟩ := Option.isSome_iff_exists.mp (marshal_map_isSome hsend)
        simp only [Body.pushParam_eq hw] at h
        obtain ⟨rfl, -⟩ := Prod.mk.inj (Option.some.inj h)
        refine iff_of_true rfl ⟨interface, hbody, ?_⟩
        -- An interface that is not in the table would have been refused.
        cases hfind : (interfaces σ).find? fun i ↦ interface = i.1 with
        | none =>
            rw [getAllInner, hfind] at hget
            have hres := congrArg Prod.fst (Option.some.inj hget)
            contradiction
        | some i =>
            exact ⟨i, List.mem_of_find?_eq_some hfind, by simpa using List.find?_some hfind⟩

/-- The reply to a `Set`. -/
theorem sendable_set
    (haccepts : ∀ i prop v (s : σ), accepts i prop v →
      ∃ s', setInner path i prop v s = some (.ok (), s'))
    (hrefuses : ∀ i prop v (s : σ), accepts i prop v ∨
      ∃ e, setInner path i prop v s = some (.error e, s))
    (h : set c.toMessage s = some (m, t)) : m.isSendable = true ↔
      ∃ i prop v, c.body.get3 String String BluezOptions = .ok (i, prop, v) ∧
        accepts i prop v := by
  cases hbody : c.toMessage.body.get3 String String BluezOptions with
  | error e =>
      simp only [set, hbody] at h
      obtain ⟨rfl, -⟩ := Prod.mk.inj (Option.some.inj h)
      refine iff_of_false (by rw [isSendable_makeErrorResponse]; decide) ?_
      rintro ⟨i, prop, v, hargs, -⟩
      have hboth := hbody.symm.trans hargs
      contradiction
  | ok args =>
      obtain ⟨i, prop, v⟩ := args
      rcases hrefuses i prop v s with haccepted | ⟨e, he⟩
      · obtain ⟨s', hset⟩ := haccepts i prop v s haccepted
        rw [set_of_setInner c.toMessage rfl hbody hset] at h
        obtain ⟨rfl, -⟩ := Prod.mk.inj (Option.some.inj h)
        exact iff_of_true rfl ⟨i, prop, v, hbody, haccepted⟩
      · rw [set_of_setInner c.toMessage rfl hbody he] at h
        obtain ⟨rfl, -⟩ := Prod.mk.inj (Option.some.inj h)
        refine iff_of_false ?_ ?_
        · rw [setReply, isSendable_makeErrorResponse, e.isErrorName_toStr]
          exact Bool.false_ne_true
        · rintro ⟨i', prop', v', hargs, haccepted⟩
          obtain ⟨rfl, hrest⟩ := Prod.mk.inj (Except.ok.inj (hbody.symm.trans hargs))
          obtain ⟨rfl, rfl⟩ := Prod.mk.inj hrest
          obtain ⟨s', hset⟩ := haccepts i prop v s haccepted
          obtain ⟨hres, -⟩ := Prod.mk.inj (Option.some.inj (hset.symm.trans he))
          contradiction

/-- **The reply to a property call can be sent** just if the object has what is asked for. -/
theorem sendable_propertiesCall (hread : Readable path fun _ : σ ↦ True)
    (hexact : ∀ s : σ, Exact path s)
    (haccepts : ∀ i prop v (s : σ), accepts i prop v →
      ∃ s', setInner path i prop v s = some (.ok (), s'))
    (hrefuses : ∀ i prop v (s : σ), accepts i prop v ∨
      ∃ e, setInner path i prop v s = some (.error e, s))
    (h : propertiesCall c.toMessage s = some (m, t)) :
    m.isSendable = true ↔ Grants σ accepts c := by
  rw [propertiesCall_eq c.member rfl] at h
  generalize hmember : c.member = member at h
  split at h <;> rw [Grants, hmember]
  · exact sendable_get hread hexact h
  · exact sendable_set haccepts hrefuses h
  · exact sendable_getAll hread h
  · obtain ⟨rfl, -⟩ := Prod.mk.inj (Option.some.inj h)
    refine iff_of_true (isSendable_unknownMethod _) ?_
    split
    · contradiction
    · contradiction
    · contradiction
    · trivial

end Replies

end Properties

end Rustable
