import ClassBench.Fixture
import ClassBench.Proofs.Constructor.Realized

/-! Fixtures are classes of plans.  A fixture without members of its own is the class of a plan that
extends or implements the type asked for and stores nothing; and it keeps to the limits of the
format, whatever its name is, as long as its name and that of the type do. -/

namespace ClassBench.Synthesizer

open Pool (Adds)

variable {super : TypeHandle} {name : String}

/-- The plan of a fixture without members of its own. -/
def plan (super : TypeHandle) (name : String) : ClassPlan where
  name := name
  interfaces := if super.type.isInterface then [super.type.name] else []
  maxStack := 1

theorem argumentSlots_plain : Descriptor.argumentSlots? plainDescriptor = some 0 := by
  decide +kernel

theorem start_plain (c : ClassFile) :
    MethodDraft.start c Access.isPublic constructorName plainDescriptor =
      .ok { owner := c, access := Access.isPublic, name := constructorName,
            descriptor := plainDescriptor, maxLocals := 1 } := by
  simp only [MethodDraft.start, argumentSlots_plain]
  rfl

/-- The bytes that are written for a constructor are those that a draft by the plan has. -/
theorem drafted (super : TypeHandle) (name owner : String) (c : ClassFile) :
    Assembly.draftMethod Access.isPublic constructorName plainDescriptor
      ((plan super name).body owner) c = (.ok (), (addConstructor owner c).2) := by
  unfold Assembly.draftMethod
  rw [start_plain]
  simp only [MethodDraft.finish]
  rw [if_neg]
  · rfl
  · show ¬65535 < Array.size (Array.push (Array.appendList (Array.push (Array.push #[] _) _) _) _)
    simp

theorem assemble_eq (super : TypeHandle) (name : String) (c : ClassFile) :
    (plan super name).assemble (superName super) c = (.ok (), (assemble super (pure ()) c).2) := by
  have step := drafted super name (superName super)
  -- The list of interfaces has to be known for the steps of both sides to be the same.
  cases kind : super.type.isInterface with
  | true =>
    have names : (plan super name).interfaces = [super.type.name] := by simp [plan, kind]
    unfold ClassPlan.assemble
    simp only [names, assemble, kind, ↓reduceIte]
    exact (step _).trans rfl
  | false =>
    have names : (plan super name).interfaces = [] := by simp [plan, kind]
    unfold ClassPlan.assemble
    simp only [names, assemble, kind]
    exact (step _).trans rfl

/-- The class of a fixture without members of its own. -/
def fixture (super : TypeHandle) (name : String) : ClassFile :=
  (assemble super (pure ()) (ClassFile.new name (superName super))).2

theorem classFile_plan (super : TypeHandle) (name : String) :
    (plan super name).classFile (superName super) = fixture super name :=
  congrArg Prod.snd (assemble_eq super name _)

theorem addInterface_adds (short : (Constant.utf8 name).Fits) (c : ClassFile) :
    ∃ pool interfaces, (Assembly.addInterface name c).2 = { c with pool, interfaces } ∧
      Adds 2 c.pool pool ∧ interfaces.length ≤ c.interfaces.length + 1 := by
  obtain ⟨interfaces, made, either⟩ := Assembly.addInterface_eq name c
  refine ⟨_, interfaces, made, .classRef short c.pool, ?_⟩
  rcases either with ⟨-, rfl⟩ | ⟨-, rfl⟩
  · exact Nat.le_succ _
  · simp

theorem addMethod_adds {descriptor : String} (shortName : (Constant.utf8 name).Fits)
    (shortDescriptor : (Constant.utf8 descriptor).Fits) {code : Code}
    (shortCode : code.encode.length < UInt32.size) (access : UInt16) (c : ClassFile) :
    ∃ pool m, (Assembly.addMethod access name descriptor code c).2 =
        { c with pool, methods := c.methods ++ [m] } ∧ Adds 3 c.pool pool ∧ m.Fits := by
  refine ⟨_, _, rfl, ((Adds.utf8 shortName c.pool).trans (.utf8 shortDescriptor _)).trans
    (.utf8 (by decide +kernel) _), by simp, fun a member => ?_⟩
  obtain rfl := List.mem_singleton.mp member
  exact shortCode

/-- The body of the constructor of a fixture, with the entry of the constructor that it calls. -/
def constructorCode (init : UInt16) : Code where
  maxStack := 1
  maxLocals := 1
  code := [Opcode.aload_0.byte, Opcode.invokespecial.byte] ++ Bytes.ofUInt16 init ++
    [Opcode.return_.byte]

theorem length_constructorCode (init : UInt16) : (constructorCode init).encode.length = 17 := by
  simp [constructorCode, Code.encode, Bytes.measured, Bytes.counted, Bytes.length_ofUInt16,
    Bytes.length_ofUInt32]

theorem addConstructor_eq (name : String) (c : ClassFile) :
    addConstructor name c =
      Assembly.addMethod Access.isPublic constructorName plainDescriptor
        (constructorCode (Pool.methodRef ⟨name, constructorName, plainDescriptor⟩ c.pool).1)
        { c with pool := (Pool.methodRef ⟨name, constructorName, plainDescriptor⟩ c.pool).2 } := by
  rfl

theorem addConstructor_adds (short : (Constant.utf8 name).Fits) (c : ClassFile) :
    ∃ pool m, (addConstructor name c).2 = { c with pool, methods := c.methods ++ [m] } ∧
      Adds 9 c.pool pool ∧ m.Fits := by
  have plainName : (Constant.utf8 constructorName).Fits := by decide +kernel
  have plain : (Constant.utf8 plainDescriptor).Fits := by decide +kernel
  have calls := Adds.methodRef ⟨name, constructorName, plainDescriptor⟩ short plainName plain c.pool
  rw [addConstructor_eq]
  generalize Pool.methodRef ⟨name, constructorName, plainDescriptor⟩ c.pool = init at calls ⊢
  obtain ⟨pool, m, made, adds, fits⟩ := addMethod_adds plainName plain
    (by rw [length_constructorCode init.1]; decide) Access.isPublic { c with pool := init.2 }
  exact ⟨pool, m, made, calls.trans adds, fits⟩

theorem superName_fits (shortSuper : (Constant.utf8 super.type.name).Fits) :
    (Constant.utf8 (superName super)).Fits := by
  unfold superName
  split
  · decide +kernel
  · exact shortSuper

/-- Before its constructor is declared, a fixture has its name, that of its super class and one
interface at most. -/
theorem fixture_eq (short : (Constant.utf8 name).Fits)
    (shortSuper : (Constant.utf8 super.type.name).Fits) :
    ∃ c : ClassFile, fixture super name = (addConstructor (superName super) c).2 ∧
      Adds 6 .empty c.pool ∧ c.interfaces.length ≤ 1 ∧ c.fields = [] ∧ c.methods = [] ∧
      c.attributes = [] := by
  have started : Adds 4 .empty (ClassFile.new name (superName super)).pool :=
    (Adds.classRef short .empty).trans (.classRef (superName_fits shortSuper) _)
  let opened := { ClassFile.new name (superName super) with
    access := Access.isPublic ||| Access.callsSuper }
  unfold fixture assemble
  cases super.type.isInterface with
  | true =>
    obtain ⟨pool, interfaces, declared, adds, few⟩ := addInterface_adds shortSuper opened
    refine ⟨{ opened with pool, interfaces }, ?_, started.trans adds, few, rfl, rfl, rfl⟩
    rw [← declared]
    rfl
  | false =>
    exact ⟨opened, rfl, ⟨Nat.le_trans started.slots (Nat.le_add_right _ 2), started.fits⟩,
      Nat.zero_le _, rfl, rfl, rfl⟩

/-- A fixture keeps to the limits of the format if its name and that of its super type do. -/
theorem fits_plan (short : (Constant.utf8 name).Fits)
    (shortSuper : (Constant.utf8 super.type.name).Fits) :
    (plan super name).Fits (superName super) where
  code := congrArg Prod.fst (assemble_eq super name _)
  file := by
    obtain ⟨c, made, adds, few, noFields, noMethods, noAttributes⟩ := fixture_eq short shortSuper
    obtain ⟨pool, m, declared, more, fits⟩ := addConstructor_adds (superName_fits shortSuper) c
    have all := adds.trans more
    rw [classFile_plan, made, declared]
    exact {
      pool := ⟨Nat.le_trans all.slots (by decide +kernel),
        all.fits (by simp [Pool.entries, Pool.empty])⟩
      interfaces := Nat.le_trans few (by decide)
      fields := by simp [noFields, Member.AllFit]
      methods := by simp [noMethods, Member.AllFit, fits]
      attributes := by simp [noAttributes, Attribute.AllFit] }

theorem concrete_plan (super : TypeHandle) (name : String) :
    Access.has (plan super name).access (Access.isInterface ||| Access.isAbstract) = false :=
  (by decide : Access.has (Access.isPublic ||| Access.callsSuper) _ = false)

theorem valid_plan (super : TypeHandle) (name : String) : (plan super name).Valid where
  isClass := (by decide : Access.has (Access.isPublic ||| Access.callsSuper) _ = false)
  hasBody := (by decide : Access.has Access.isPublic _ = false)
  types := fun _ member => by cases member
  distinct := List.nodup_nil
  own := fun _ member => by cases member

end ClassBench.Synthesizer
