import ClassBench.Proofs.World.Defining

/-! The fields of the instances of a chain of classes.  Each class of the chain is defined below the
one before it, and the first below a host class with a constructor without parameters.  Instances
of them can be made, and hold in each field the last value that the constructors store in it, in the
order from the host class on. -/

namespace ClassBench

/-! ### Chains of classes -/

namespace ClassPlan

/-- The class that a chain ends with.  A chain has its youngest class first, and without classes it
ends with the host class. -/
def youngest (host : String) : List ClassPlan → String
  | [] => host
  | plan :: _ => plan.name

/-- Defines the classes of a chain in a scope, each after the class that it extends. -/
def definitions (id : ScopeId) (host : String) : List ClassPlan → List Operation
  | [] => []
  | plan :: supers => definitions id host supers ++
      [.define id (plan.classFile (youngest host supers)).encode]

/-- What the constructors of a chain store, those of a super class before those of its heirs. -/
def stored (chain : List ClassPlan) : List (String × Value) := chain.reverse.flatMap values

theorem stored_cons (plan : ClassPlan) (supers : List ClassPlan) :
    stored (plan :: supers) = stored supers ++ plan.values := by
  simp [stored]

end ClassPlan

namespace World

open ClassPlan (youngest definitions stored)

variable {w w' : World} {id : ScopeId} {host n : String} {chain : List ClassPlan}

/-- A scope has loaded the classes of a chain, and sees the host class but has not loaded it. -/
inductive LoadsChain (w : World) (id : ScopeId) (host : String) : List ClassPlan → Prop
  | host (h : TypeHandle) (found : w.resolve? id host = some h)
      (isClass : h.type.isInterface = false) (constructor : h.type.hasDefaultConstructor = true)
      (unloaded : w.loaded? id host = none) : LoadsChain w id host []
  | heir (plan : ClassPlan) (supers : List ClassPlan) (below : LoadsChain w id host supers)
      (valid : plan.Valid) (fits : plan.Fits (youngest host supers))
      (found : w.resolve? id plan.name = some ⟨(plan.loaded (youngest host supers)).type, id⟩)
      (loaded : w.loaded? id plan.name = some (plan.loaded (youngest host supers))) :
      LoadsChain w id host (plan :: supers)

namespace LoadsChain

theorem youngest_isClass (loads : w.LoadsChain id host chain) :
    ∃ h, w.resolve? id (youngest host chain) = some h ∧ h.type.isInterface = false := by
  cases loads with
  | host h found isClass => exact ⟨h, found, isClass⟩
  | heir plan supers below valid fits found =>
    refine ⟨_, found, ?_⟩
    rw [ClassPlan.type_loaded valid fits]
    rfl

/-- A part of the chain up to a class of it is loaded too. -/
theorem of_suffix {part : List ClassPlan} (loads : w.LoadsChain id host chain)
    (suffix : part <:+ chain) : w.LoadsChain id host part := by
  induction loads with
  | host h found isClass constructor unloaded =>
    obtain rfl := List.suffix_nil.mp suffix
    exact .host h found isClass constructor unloaded
  | heir plan supers below valid fits found loaded ih =>
    rcases List.suffix_cons_iff.mp suffix with rfl | inside
    · exact .heir plan supers below valid fits found loaded
    · exact ih inside

/-- The chain stays loaded when the scope takes one more type. -/
theorem grow (loads : w.LoadsChain id host chain) (nested : w.Nested) (present : w.has id = true)
    {t : LoadedType} (fresh : w.resolve? id t.name = none) :
    (w.grow id t.type [t]).LoadsChain id host chain := by
  induction loads with
  | host h found isClass constructor unloaded =>
    refine .host h (nested.resolve?_grow present fresh found) isClass constructor ?_
    rw [loaded?_grow present, unloaded, Option.none_or, if_neg]
    rintro rfl
    rw [fresh] at found
    cases found
  | heir plan supers below valid fits found loaded ih =>
    refine .heir plan supers ih valid fits (nested.resolve?_grow present fresh found) ?_
    rw [loaded?_grow present, loaded, Option.some_or]

/-- The constructors of the chain run, the one of the host class first. -/
theorem callSuper (loads : w.LoadsChain id host chain) {fuel : Nat} (enough : chain.length ≤ fuel)
    (fields : Fields) :
    w.callSuper id fuel (youngest host chain) fields = .ok (fields.storeAll (stored chain)) := by
  induction loads generalizing fuel with
  | host h found isClass constructor unloaded =>
    rw [youngest, callSuper_host unloaded found, if_pos constructor]
    rfl
  | heir plan supers below valid fits found loaded ih =>
    cases fuel with
    | zero => exact absurd enough (Nat.not_succ_le_zero _)
    | succ fuel =>
      rw [youngest, callSuper_loaded loaded, runChain_loaded valid fits,
        ih (Nat.le_of_succ_le_succ enough), ClassPlan.stored_cons, Fields.storeAll_append]
      rfl

theorem instantiate {plan : ClassPlan} {supers : List ClassPlan}
    (loads : w.LoadsChain id host (plan :: supers))
    (enough : supers.length ≤ (w.loadedOf id).length)
    (concrete : Access.has plan.access (Access.isInterface ||| Access.isAbstract) = false) :
    w.instantiate id plan.name = .ok ⟨id, plan.loaded (youngest host supers),
      Fields.storeAll [] (stored (plan :: supers))⟩ := by
  cases loads with
  | heir _ _ below valid fits found loaded =>
    rw [instantiate_eq loaded (ClassPlan.instantiable fits concrete), construct_eq,
      runChain_loaded valid fits, below.callSuper enough, ClassPlan.stored_cons,
      Fields.storeAll_append]
    rfl

end LoadsChain

/-! ### Defining a chain -/

/-- A scope can take the classes of a chain above a host class: it sees a host class that it has not
loaded itself and that has a constructor, and the interfaces; it does not see the names of the
classes, which differ; and the classes are within the limits of the format. -/
structure Awaits (w : World) (id : ScopeId) (host : String) (chain : List ClassPlan) : Prop where
  context : w.isContext id = true
  hosted : ∃ h, w.resolve? id host = some h ∧ h.type.isInterface = false ∧
    h.type.hasDefaultConstructor = true
  unloaded : w.loaded? id host = none
  fresh : ∀ plan ∈ chain, w.resolve? id plan.name = none
  distinct : (chain.map ClassPlan.name).Nodup
  interfaces : ∀ plan ∈ chain, ∀ n ∈ plan.interfaces,
    ∃ h, w.resolve? id n = some h ∧ h.type.isInterface = true
  valid : ∀ plan ∈ chain, plan.Valid
  fits : ∀ plan supers, plan :: supers <:+ chain → plan.Fits (youngest host supers)

/-- A scope took the classes of a chain, and what it saw before it still sees. -/
structure Took (w w' : World) (id : ScopeId) (host : String) (chain : List ClassPlan) : Prop where
  context : w'.isContext id = true
  loads : w'.LoadsChain id host chain
  enough : chain.length ≤ (w'.loadedOf id).length
  kept : ∀ n h, w.resolve? id n = some h → w'.resolve? id n = some h
  free : ∀ n, w.resolve? id n = none → n ∉ chain.map ClassPlan.name → w'.resolve? id n = none

theorem Awaits.tail {plan : ClassPlan} (awaits : w.Awaits id host (plan :: chain)) :
    w.Awaits id host chain where
  context := awaits.context
  hosted := awaits.hosted
  unloaded := awaits.unloaded
  fresh p member := awaits.fresh p (List.mem_cons_of_mem _ member)
  distinct := awaits.distinct.of_cons
  interfaces p member := awaits.interfaces p (List.mem_cons_of_mem _ member)
  valid p member := awaits.valid p (List.mem_cons_of_mem _ member)
  fits p supers suffix := awaits.fits p supers (suffix.trans (List.suffix_cons _ _))

/-- One more class of the chain is defined. -/
theorem Took.define {plan : ClassPlan} (took : Took w w' id host chain) (nested : w'.Nested)
    (loads : w'.Loads id) (awaits : w.Awaits id host (plan :: chain)) :
    Took w (w'.perform (.define id (plan.classFile (youngest host chain)).encode)) id host
      (plan :: chain) := by
  have here := List.mem_cons_self (a := plan) (l := chain)
  have valid := awaits.valid plan here
  have fits := awaits.fits plan chain (List.suffix_refl _)
  have fresh : w'.resolve? id plan.name = none :=
    took.free _ (awaits.fresh plan here) (List.nodup_cons.mp awaits.distinct).1
  have sees : w'.Sees id plan (youngest host chain) := {
    superClass := took.loads.youngest_isClass
    interfaces := fun n listed =>
      (awaits.interfaces plan here n listed).imp fun _ found => ⟨took.kept _ _ found.1, found.2⟩ }
  have present := has_of_isContext took.context
  rw [perform, if_pos took.context, sees.define valid fits loads present fresh]
  exact {
    context := isContext_grow.trans took.context
    loads := .heir plan chain (took.loads.grow nested present fresh) valid fits
      (nested.resolve?_grow_self present fresh)
      (by rw [loaded?_grow present, loads.loaded?_eq_none present fresh, Option.none_or]
          exact if_pos rfl)
    enough := by
      rw [loadedOf_grow _ present, if_pos rfl, List.length_append, List.length_cons]
      exact Nat.add_le_add_right took.enough 1
    kept := fun n h found => nested.resolve?_grow present fresh (took.kept n h found)
    free := fun n unseen outside => by
      rw [List.map_cons, List.mem_cons, not_or] at outside
      exact resolve?_grow_none present (took.free n unseen outside.2) (Ne.symm outside.1) }

theorem took_definitions (operations : List Operation)
    (awaits : (after operations).Awaits id host chain) :
    Took (after operations) (after (operations ++ definitions id host chain)) id host chain := by
  induction chain with
  | nil =>
    obtain ⟨h, found, isClass, constructor⟩ := awaits.hosted
    rw [definitions, List.append_nil]
    exact ⟨awaits.context, .host h found isClass constructor awaits.unloaded, Nat.zero_le _,
      fun _ _ found => found, fun _ unseen _ => unseen⟩
  | cons plan supers ih =>
    rw [definitions, ← List.append_assoc, after_append _ [_]]
    exact (ih awaits.tail).define (nested_after _) (loads_after _ id) awaits

/-- After every history, and after a scope that can take the classes of a chain took them: of every
class of the chain that is not abstract an instance can be made, and it holds in each field exactly
the last value that the constructors store in it, that of the super class first. -/
theorem instances_hold_last_stores (operations : List Operation) (id : ScopeId) (host : String)
    (chain : List ClassPlan) (awaits : (after operations).Awaits id host chain) :
    let w := after (operations ++ definitions id host chain)
    ∀ plan supers, plan :: supers <:+ chain →
      Access.has plan.access (Access.isInterface ||| Access.isAbstract) = false →
      ∃ i, w.instantiate id plan.name = .ok i ∧ i.scope = id ∧ i.type.name = plan.name ∧
        i.fields.Sorted ∧
        ∀ name, i.fields.lookup name = (stored (plan :: supers)).reverse.lookup name := by
  intro w plan supers suffix concrete
  have took := took_definitions operations awaits
  have enough : supers.length ≤ (w.loadedOf id).length :=
    Nat.le_of_succ_le (Nat.le_trans suffix.length_le took.enough)
  refine ⟨_, (took.loads.of_suffix suffix).instantiate enough concrete, rfl, rfl,
    Fields.Sorted.storeAll List.Pairwise.nil _, fun name => ?_⟩
  rw [Fields.lookup_storeAll]
  exact Option.or_none

theorem instances_hold_last_stores_override :
    let text := "Ljava/lang/String;"
    let base : ClassPlan :=
      { name := "app/Base"
        fields := [⟨Access.isPublic, "count", "I"⟩, ⟨Access.isPublic, "label", text⟩]
        stores := [⟨"count", "I", .int 70000⟩, ⟨"label", text, .text "base"⟩,
          ⟨"count", "I", .int (-1)⟩] }
    let heir : ClassPlan :=
      { name := "app/Heir", laterFields := [⟨Access.isPublic, "label", text⟩],
        stores := [⟨"label", text, .null⟩] }
    let operations := [.bootstrap, .isolated ⟨0⟩]
    let w := after (operations ++ definitions ⟨1⟩ objectName [heir, base])
    (after operations).Awaits ⟨1⟩ objectName [heir, base] ∧
    ∃ i, w.instantiate ⟨1⟩ "app/Heir" = .ok i ∧ i.fields.lookup "count" = some (.int (-1)) ∧
      i.fields.lookup "label" = some .null ∧ i.fields.lookup "other" = none := by
  intro text base heir operations w
  have awaits : (after operations).Awaits ⟨1⟩ objectName [heir, base] := {
    context := by decide +kernel
    hosted := ⟨⟨.object, ⟨0⟩⟩, by decide +kernel⟩
    unloaded := by
      rw [← Option.isNone_iff_eq_none]
      decide +kernel
    fresh := by decide +kernel
    distinct := by decide +kernel
    interfaces := by decide +kernel
    valid := by decide +kernel
    fits := fun plan supers suffix => by
      rcases List.suffix_cons_iff.mp suffix with same | inside
      · obtain ⟨rfl, rfl⟩ := List.cons.inj same
        decide +kernel
      · rcases List.suffix_cons_iff.mp inside with same | absent
        · obtain ⟨rfl, rfl⟩ := List.cons.inj same
          decide +kernel
        · cases List.suffix_nil.mp absent }
  obtain ⟨i, made, -, -, -, holds⟩ := instances_hold_last_stores operations ⟨1⟩ objectName _ awaits
    heir [base] (List.suffix_refl _) (by decide +kernel)
  refine ⟨awaits, i, made, ?_⟩
  rw [holds, holds, holds]
  decide +kernel

end World

end ClassBench
