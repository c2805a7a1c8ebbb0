import ClassBench.Proofs.Assembly.Plan
import ClassBench.Proofs.ClassFile.RoundTrip

/-! The class of a plan, as it is loaded.  The verifier accepts it, its type is a class below the
super class with a constructor without parameters, and to run the constructor is to run that of the
super class and then to store the constants of the plan. -/

namespace ClassBench

/-- A plan that can be carried out: it is one of a class that is no interface, with a constructor
that has a body, with distinct fields of field types, and with stores in these fields only. -/
structure ClassPlan.Valid (plan : ClassPlan) : Prop where
  isClass : Access.has plan.access Access.isInterface = false
  hasBody : Access.has plan.constructorAccess (Access.isAbstract ||| Access.isNative) = false
  types : ∀ f ∈ plan.allFields, Descriptor.isField f.descriptor = true
  distinct : (plan.allFields.map FieldPlan.key).Nodup
  own : ∀ s ∈ plan.stores, (s.name, s.descriptor) ∈ plan.allFields.map FieldPlan.key

/-- The class of the plan keeps to the limits of the format: its constructor is not too long to be
added, and its counts and lengths fit their fields. -/
structure ClassPlan.Fits (plan : ClassPlan) (super : String) : Prop where
  code : plan.result super = .ok ()
  file : (plan.classFile super).Fits

instance (plan : ClassPlan) : Decidable plan.Valid :=
  decidable_of_iff (Access.has plan.access Access.isInterface = false ∧
      Access.has plan.constructorAccess (Access.isAbstract ||| Access.isNative) = false ∧
      (∀ f ∈ plan.allFields, Descriptor.isField f.descriptor = true) ∧
      (plan.allFields.map FieldPlan.key).Nodup ∧
      ∀ s ∈ plan.stores, (s.name, s.descriptor) ∈ plan.allFields.map FieldPlan.key)
    ⟨fun ⟨isClass, hasBody, types, distinct, own⟩ => ⟨isClass, hasBody, types, distinct, own⟩,
      fun ⟨isClass, hasBody, types, distinct, own⟩ => ⟨isClass, hasBody, types, distinct, own⟩⟩

instance (plan : ClassPlan) (super : String) : Decidable (plan.Fits super) :=
  decidable_of_iff (plan.result super = .ok () ∧ (plan.classFile super).Fits)
    ⟨fun ⟨code, file⟩ => ⟨code, file⟩, fun ⟨code, file⟩ => ⟨code, file⟩⟩

theorem ClassPlan.Fits.realizes {plan : ClassPlan} {super : String} (fits : plan.Fits super) :
    (plan.classFile super).Realizes plan super :=
  ClassPlan.realizes fits.code fits.file.pool.slots

theorem Instruction.Initializes.ends {pool : Pool} {method : MemberRef}
    {writes : List (MemberRef × Value)} {is : List Instruction}
    (row : Initializes pool method writes is) :
    ∃ last, is.getLast? = some last ∧ last.opcode.isTerminator = true := by
  obtain @⟨this, call, last, stores, -, -, -, -, returns⟩ := row
  exact ⟨last, List.getLast?_concat, by rw [returns]; rfl⟩

theorem Member.isNamed_iff {m : Member} {pool : Pool} {name descriptor : String} :
    m.isNamed pool name descriptor = true ↔
      m.signature pool = (some name, some descriptor) := by
  simp [isNamed, signature]

namespace ClassFile.Realizes

variable {c : ClassFile} {plan : ClassPlan} {super : String}

theorem name?_eq (r : c.Realizes plan super) : c.name? = some plan.name :=
  Pool.className?_eq_some.mpr r.thisClass

theorem superName?_eq (r : c.Realizes plan super) : c.superName? = some super :=
  Pool.className?_eq_some.mpr r.superClass

theorem mem_interfaceNames (r : c.Realizes plan super) {n : String} :
    n ∈ c.interfaceNames ↔ n ∈ plan.interfaces := by
  rw [interfaceNames, List.mem_filterMap]
  constructor
  · rintro ⟨i, member, named⟩
    obtain ⟨m, inside, names⟩ := r.interfaces i member
    rw [Pool.className?_eq_some] at named
    rwa [named.eq names]
  · intro member
    obtain ⟨i, inside, names⟩ := r.implements n member
    exact ⟨i, inside, Pool.className?_eq_some.mpr names⟩

/-- The fields are declared as the plan has them. -/
theorem signature_mem (r : c.Realizes plan super) {name descriptor : String} :
    (∃ m ∈ c.fields, m.signature c.pool = (some name, some descriptor)) ↔
      (name, descriptor) ∈ plan.allFields.map FieldPlan.key := by
  rw [← List.mem_map, r.fields, List.mem_map, List.mem_map]
  simp [FieldPlan.key]

theorem constructor?_eq (r : c.Realizes plan super) : ∃ m code is, c.constructor? = some m ∧
    m.Straight c.pool code is ∧
    Instruction.Initializes c.pool (ClassPlan.constructorOf super) plan.writes is := by
  obtain ⟨m, code, is, only, -, signed, straight, row⟩ := r.constructor
  refine ⟨m, code, is, ?_, straight, row⟩
  rw [constructor?, method?, only, List.find?_singleton, Member.isNamed_iff.mpr signed, if_pos rfl]

/-- The verifier accepts the class. -/
theorem verify_eq (r : c.Realizes plan super) (valid : plan.Valid) : c.verify = .ok () := by
  obtain ⟨m, code, is, only, access, signed, straight, row⟩ := r.constructor
  obtain ⟨last, ends, terminates⟩ := row.ends
  have body : m.SoundBody c.pool := straight.soundBody ends terminates (access ▸ valid.hasBody)
  have declares : m.Declares c.pool Descriptor.MethodType :=
    Verify.declares_iff.mpr ⟨(constructorName, plainDescriptor), signed,
      Descriptor.isMethod_iff.mp (by decide +kernel)⟩
  have fields : ∀ m ∈ c.fields, m.Declares c.pool Descriptor.FieldType := by
    intro m member
    have signature : m.signature c.pool ∈ c.fields.map (·.signature c.pool) :=
      List.mem_map_of_mem member
    rw [r.fields, List.mem_map] at signature
    obtain ⟨f, inside, same⟩ := signature
    exact Verify.declares_iff.mpr
      ⟨f.key, same.symm, Descriptor.isField_iff.mp (valid.types f inside)⟩
  have distinct : (c.fields.map (·.signature c.pool)).Nodup := by
    have keys := valid.distinct
    rw [List.Nodup, List.pairwise_map] at keys
    rw [r.fields, List.Nodup, List.pairwise_map]
    exact keys.imp fun differ same => differ (by simpa [FieldPlan.key] using same)
  rw [List.Nodup, List.pairwise_map] at distinct
  rw [verify_eq_ok, Pool.verify_eq_ok, Verify.fields_eq_ok, Verify.methods_eq_ok, only]
  refine ⟨r.entries, plan.name, r.thisClass,
    (verifySuper_eq_ok r.thisClass).mpr (.inl ⟨_, r.superClass⟩), fun i member => ?_,
    ⟨fields, distinct⟩, ?_, List.pairwise_singleton _ _, ?_⟩
  · exact (r.interfaces i member).imp fun _ found => found.2
  · exact List.forall_mem_singleton.mpr declares
  · exact List.forall_mem_singleton.mpr body

theorem ofClassFile_eq (r : c.Realizes plan super)
    (isClass : Access.has plan.access Access.isInterface = false) :
    TypeDef.ofClassFile plan.name c =
      { TypeDef.extending plan.name super with interfaces := c.interfaceNames } := by
  obtain ⟨m, code, is, found, -⟩ := r.constructor?_eq
  have kind : c.isInterface = false := by rw [isInterface, r.access, isClass]
  simp [TypeDef.ofClassFile, TypeDef.extending, kind, r.superName?_eq, found]

end ClassFile.Realizes

namespace LoadedType

variable {t : LoadedType} {plan : ClassPlan} {super : String}

theorem constructorBody_realized (r : t.classFile.Realizes plan super) :
    ∃ is, t.constructorBody = .ok is ∧ Instruction.Initializes t.classFile.pool
      (ClassPlan.constructorOf super) plan.writes is := by
  obtain ⟨m, code, is, found, straight, row⟩ := r.constructor?_eq
  refine ⟨is, ?_, row⟩
  simp only [constructorBody, found, straight.code?_eq, straight.split_eq]
  rfl

theorem runConstructor_realized (r : t.classFile.Realizes plan super) (named : t.name = plan.name)
    (valid : plan.Valid) (callSuper : SuperCall) (fields : Fields) :
    t.runConstructor callSuper fields =
      (callSuper super fields).map (Fields.storeAll · plan.values) := by
  obtain ⟨is, body, row⟩ := constructorBody_realized r
  have declared : ∀ write ∈ plan.writes, t.declares write.1 = true := by
    intro write member
    obtain ⟨s, inside, rfl⟩ := List.mem_map.mp member
    obtain ⟨m, isField, signed⟩ := r.signature_mem.mpr (valid.own s inside)
    simp only [declares, named, BEq.rfl, Bool.true_and, List.any_eq_true]
    exact ⟨m, isField, Member.isNamed_iff.mpr signed⟩
  have super' : t.isSuperConstructor (ClassPlan.constructorOf super) = true := by
    simp [isSuperConstructor, ClassPlan.constructorOf, r.superName?_eq]
  have values : plan.values = plan.writes.map fun write => (write.1.name, write.2) := by
    rw [ClassPlan.values, ClassPlan.writes, List.map_map]
    rfl
  rw [runConstructor, body, values]
  exact fieldsAfter_initializes row super' declared

end LoadedType

end ClassBench
