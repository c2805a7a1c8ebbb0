import ClassBench.Proofs.Constructor.Realized
import ClassBench.Proofs.World.ConstructorChain

/-! Defining the class of a plan.  A scope that sees the super class and the interfaces of a plan,
and does not see its name, takes the class; the scope then sees all that it saw before, and the name
stands for the new class. -/

namespace ClassBench

namespace ClassPlan

variable {plan : ClassPlan} {super : String}

/-- The class below a super class as a scope holds it. -/
def loaded (plan : ClassPlan) (super : String) : LoadedType where
  type := TypeDef.ofClassFile plan.name (plan.classFile super)
  classFile := plan.classFile super
  bytes := (plan.classFile super).encode

theorem faithful (valid : plan.Valid) (fits : plan.Fits super) :
    (plan.loaded super).Faithful where
  decoded := by
    have back := (plan.classFile super).decode_append fits.file []
    rwa [List.append_nil, if_pos rfl] at back
  verified := fits.realizes.verify_eq valid
  named := fits.realizes.name?_eq
  type_eq := rfl

theorem type_loaded (valid : plan.Valid) (fits : plan.Fits super) : (plan.loaded super).type =
    { TypeDef.extending plan.name super with
      interfaces := (plan.classFile super).interfaceNames } :=
  fits.realizes.ofClassFile_eq valid.isClass

/-- The type builds on the super class and on the interfaces of the plan. -/
theorem mem_parents_loaded (valid : plan.Valid) (fits : plan.Fits super) {n : String} :
    n ∈ (plan.loaded super).type.parents ↔ n = super ∨ n ∈ plan.interfaces := by
  rw [type_loaded valid fits, TypeDef.parents, List.mem_append,
    fits.realizes.mem_interfaceNames, TypeDef.extending]
  simp [eq_comm]

theorem instantiable (fits : plan.Fits super)
    (concrete : Access.has plan.access (Access.isInterface ||| Access.isAbstract) = false) :
    (plan.loaded super).Instantiable where
  concrete := by
    show Access.has (plan.classFile super).access _ = false
    rw [fits.realizes.access, concrete]
  constructor := by
    obtain ⟨m, code, is, found, -⟩ := fits.realizes.constructor?_eq
    show (plan.classFile super).constructor?.isSome = true
    rw [found]
    rfl

end ClassPlan

namespace World

variable {w : World} {id other : ScopeId} {n : String} {d : TypeDef} {more : List LoadedType}

/-! ### What a scope sees when one grows -/

theorem Nested.grow (nested : w.Nested) : (w.grow id d more).Nested := by
  intro other present
  rw [has_grow] at present
  simpa using nested other present

theorem Extends.grow (present : w.has id = true) : w.Extends (w.grow id d more) where
  has other here := by simpa using here
  ancestors other _ := ancestors_grow more
  types other _ := by
    rw [typesOf_grow more present]
    exact List.prefix_append _ _

/-- What stood for something goes on to stand for it, since the scope takes only what is new. -/
theorem Nested.resolve?_grow (nested : w.Nested) (present : w.has id = true)
    (fresh : w.resolve? id d.name = none) {h : TypeHandle} (found : w.resolve? id n = some h) :
    (w.grow id d more).resolve? id n = some h := by
  rw [(Extends.grow present).resolve?_same nested nested.grow found]
  obtain ⟨-, -, outside⟩ := nested.resolve?_eq_some.mp found
  intro a around defines
  rcases (defines_grow present).mp defines with before | ⟨-, rfl⟩
  · exact outside a around before
  · rw [fresh] at found
    cases found

/-- The name of the type that a scope takes stands for it. -/
theorem Nested.resolve?_grow_self (nested : w.Nested) (present : w.has id = true)
    (fresh : w.resolve? id d.name = none) :
    (w.grow id d more).resolve? id d.name = some ⟨d, id⟩ := by
  have none := resolve?_eq_none.mp fresh
  rw [nested.grow.resolve?_eq_some, lineage_grow, ancestors_grow]
  refine ⟨mem_lineage_self present, ?_, fun a around defines => ?_⟩
  · have absent := none id (mem_lineage_self present)
    rw [not_defines_iff, local?_eq_find?] at absent
    rw [local?_eq_find?, typesOf_grow more present, if_pos rfl, List.find?_append, absent]
    simp
  · rcases (defines_grow present).mp defines with before | ⟨rfl, -⟩
    · exact none a (lineage_eq present ▸ List.mem_append_left _ around) before
    · exact Nat.lt_irrefl _ (nested.index_lt present around)

theorem isContext_grow : (w.grow id d more).isContext id = w.isContext id := by
  rw [isContext, World.grow, scope?_modifyScope, if_pos rfl, isContext]
  cases w.scope? id <;> rfl

theorem resolve?_grow_none (present : w.has id = true) (unseen : w.resolve? id n = none)
    (other : d.name ≠ n) :
    (w.grow id d more).resolve? id n = none := by
  rw [resolve?_eq_none, lineage_grow]
  intro a around defines
  rcases (defines_grow present).mp defines with before | ⟨-, same⟩
  · exact resolve?_eq_none.mp unseen a around before
  · exact other same

/-- What a scope does not see it has not loaded. -/
theorem Loads.loaded?_eq_none (loads : w.Loads id) (present : w.has id = true)
    (fresh : w.resolve? id n = none) : w.loaded? id n = none := by
  cases held : w.loaded? id n with
  | none => rfl
  | some t =>
    obtain ⟨member, rfl⟩ := loaded?_eq_some held
    have defined := defines_of_eq_some (loads.holds t member).defined
    exact absurd defined (resolve?_eq_none.mp fresh id (mem_lineage_self present))

theorem loaded?_grow (present : w.has id = true) {t : LoadedType} :
    (w.grow id d [t]).loaded? id n =
      (w.loaded? id n).or (if t.name = n then some t else none) := by
  rw [loaded?_eq_find?, loaded?_eq_find?, loadedOf_grow _ present, if_pos rfl, List.find?_append,
    List.find?_singleton]
  simp

/-- A sound class whose name the scope sees is a duplicate, whether the scope loaded the type of
that name or was given it otherwise. -/
theorem define_visible {bytes : Bytes} {c : ClassFile} (decoded : ClassFile.decode bytes = .ok c)
    (verified : c.verify = .ok ()) (named : c.name? = some n)
    (visible : (w.resolve? id n).isSome) :
    w.define id bytes = .error (.duplicateDefinition n) := by
  have refused : w.register id (TypeDef.ofClassFile n c) = .error (.duplicateType n) := by
    unfold register
    rw [if_pos (by exact visible)]
    rfl
  rw [define, decoded]
  show ((c.verify.mapError LoadError.verify) >>= fun _ => _) = _
  rw [verified, named]
  show (if (w.loaded? id n).isSome = true then _ else _) = _
  cases (w.loaded? id n).isSome with
  | true => rfl
  | false =>
    show ((w.register id _).mapError LoadError.ofScope >>= fun _ => _) = _
    rw [refused]
    rfl

/-! ### A class of a plan enters a scope -/

variable {plan : ClassPlan} {super : String}

/-- A scope sees what the class of a plan builds on. -/
structure Sees (w : World) (id : ScopeId) (plan : ClassPlan) (super : String) : Prop where
  superClass : ∃ h, w.resolve? id super = some h ∧ h.type.isInterface = false
  interfaces : ∀ n ∈ plan.interfaces, ∃ h, w.resolve? id n = some h ∧ h.type.isInterface = true

theorem Sees.accepts (sees : w.Sees id plan super) (valid : plan.Valid) (fits : plan.Fits super)
    (fresh : w.resolve? id plan.name = none) : w.Accepts id (plan.loaded super).type where
  fresh := fresh
  superClass m above := by
    rw [ClassPlan.type_loaded valid fits] at above
    obtain rfl : super = m := Option.some.inj above
    exact sees.superClass
  interfaces m listed := by
    rw [ClassPlan.type_loaded valid fits] at listed
    exact sees.interfaces m (fits.realizes.mem_interfaceNames.mp listed)
  rooted none := by
    rw [ClassPlan.type_loaded valid fits] at none
    cases none

theorem Sees.define (sees : w.Sees id plan super) (valid : plan.Valid) (fits : plan.Fits super)
    (loads : w.Loads id) (present : w.has id = true) (fresh : w.resolve? id plan.name = none) :
    w.define id (plan.classFile super).encode =
      .ok (plan.loaded super, w.grow id (plan.loaded super).type [plan.loaded super]) :=
  define_eq_ok.mpr ⟨rfl, ClassPlan.faithful valid fits, loads.loaded?_eq_none present fresh,
    sees.accepts valid fits fresh, rfl⟩

/-! ### A constructor of a plan runs -/

theorem callSuper_host {h : TypeHandle} (absent : w.loaded? id super = none)
    (found : w.resolve? id super = some h) (fuel : Nat) (fields : Fields) :
    w.callSuper id fuel super fields =
      if h.type.hasDefaultConstructor then .ok fields
      else .error (.noDefaultConstructor super) := by
  rw [callSuper, absent, found]

theorem runChain_loaded (valid : plan.Valid) (fits : plan.Fits super) (fuel : Nat)
    (fields : Fields) : w.runChain id (fuel + 1) (plan.loaded super) fields =
      (w.callSuper id fuel super fields).map (Fields.storeAll · plan.values) := by
  rw [runChain_succ]
  exact LoadedType.runConstructor_realized fits.realizes rfl valid _ _

end World

end ClassBench
