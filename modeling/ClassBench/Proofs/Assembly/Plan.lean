import ClassBench.Proofs.Assembly.Steps
import ClassBench.TypeDef

/-! Plans of classes.  A plan says which fields a class declares and which constants its constructor
stores in them, after it has called the constructor of the super class.  The class that is assembled
by the plan is accepted by the verifier, says of its type what the plan says, and its constructor
leaves the constants in the fields, whatever had to be interned for it and in whichever form the
constants are pushed. -/

namespace ClassBench

/-- A constant that a constructor pushes. -/
inductive Pushed where
  | int (value : Int32)
  | text (content : String)
  | null
  deriving DecidableEq, Repr

/-- Pushes the constant. -/
def Pushed.push : Pushed → Drafting Unit
  | int value => Drafting.iconst value
  | text content => Drafting.ldcString content
  | null => Drafting.emit .aconst_null

/-- The value of the constant. -/
def Pushed.value : Pushed → Value
  | int value => .int value
  | text content => .string content
  | null => .null

/-- A field to declare. -/
structure FieldPlan where
  access : UInt16 := Access.isPublic
  name : String
  descriptor : String
  deriving DecidableEq, Repr

/-- A constant to store in a field of the class. -/
structure StorePlan where
  name : String
  descriptor : String
  constant : Pushed
  deriving DecidableEq, Repr

/-- A class with fields and a constructor that stores constants in them. -/
structure ClassPlan where
  name : String
  access : UInt16 := Access.isPublic ||| Access.callsSuper
  interfaces : List String := []
  /-- The fields that are declared before the constructor is written. -/
  fields : List FieldPlan := []
  /-- The fields that are declared after it. -/
  laterFields : List FieldPlan := []
  constructorAccess : UInt16 := Access.isPublic
  maxStack : UInt16 := 2
  stores : List StorePlan := []
  deriving DecidableEq, Repr

namespace FieldPlan

/-- Declares the field. -/
def declare (f : FieldPlan) : Assembly Unit := Assembly.addField f.access f.name f.descriptor

/-- The name and the descriptor of the field. -/
def key (f : FieldPlan) : String × String := (f.name, f.descriptor)

end FieldPlan

namespace ClassPlan

/-- All fields in the order in which they are declared. -/
def allFields (plan : ClassPlan) : List FieldPlan := plan.fields ++ plan.laterFields

/-- What the constructor stores, by the names of the fields. -/
def values (plan : ClassPlan) : List (String × Value) :=
  plan.stores.map fun s => (s.name, s.constant.value)

/-- What the constructor stores, by the fields as it names them. -/
def writes (plan : ClassPlan) : List (MemberRef × Value) :=
  plan.stores.map fun s => (⟨plan.name, s.name, s.descriptor⟩, s.constant.value)

/-- Stores a constant in a field of the instance. -/
def store (owner : String) (s : StorePlan) : Drafting Unit := do
  Drafting.accessLocal .aload 0
  s.constant.push
  Drafting.accessField .putfield ⟨owner, s.name, s.descriptor⟩

/-- The constructor of a class, as it is called by those of its heirs. -/
def constructorOf (owner : String) : MemberRef := ⟨owner, constructorName, plainDescriptor⟩

/-- Writes the constructor. -/
def body (plan : ClassPlan) (super : String) : Drafting Unit := do
  Drafting.setMaxStack plan.maxStack
  Drafting.accessLocal .aload 0
  Drafting.call .invokespecial (constructorOf super)
  plan.stores.forM (store plan.name)
  Drafting.emit .return_

/-- Assembles the class; the answer is that of the constructor. -/
def assemble (plan : ClassPlan) (super : String) : Assembly (Except BuildError Unit) := do
  Assembly.setAccess plan.access
  plan.interfaces.forM Assembly.addInterface
  plan.fields.forM FieldPlan.declare
  let result ← Assembly.draftMethod plan.constructorAccess constructorName plainDescriptor
    (plan.body super)
  plan.laterFields.forM FieldPlan.declare
  return result

/-- The class below a super class. -/
def classFile (plan : ClassPlan) (super : String) : ClassFile :=
  (plan.assemble super (ClassFile.new plan.name super)).2

/-- Whether the constructor is short enough to be added. -/
def result (plan : ClassPlan) (super : String) : Except BuildError Unit :=
  (plan.assemble super (ClassFile.new plan.name super)).1

end ClassPlan

/-! ### What the constructor is -/

namespace Pushed

open Drafting (Writes)

theorem writes (constant : Pushed) : Writes constant.push fun q is =>
    ∃ i, is = [i] ∧ i.pushed? q = some constant.value := by
  cases constant with
  | int value => exact Drafting.writes_iconst value
  | text content => exact Drafting.writes_ldcString content
  | null =>
    refine (Drafting.writes_plain rfl rfl rfl : Writes (Drafting.emit .aconst_null) _).mono ?_
    rintro q _ ⟨⟨offset, _, operands⟩, rfl, rfl⟩
    exact ⟨_, rfl, rfl⟩

end Pushed

namespace ClassPlan

open Drafting (Writes)

variable {plan : ClassPlan} {super : String}

theorem writes_store (owner : String) (s : StorePlan) : Writes (store owner s) fun q is =>
    Instruction.Stores q [(⟨owner, s.name, s.descriptor⟩, s.constant.value)] is := by
  refine (Drafting.writes_aload_zero.seq (s.constant.writes.seq
    (Drafting.writes_accessField .putfield _))).mono ?_
  rintro q is ⟨_, _, rfl, ⟨this, rfl, receiver⟩, _, _, rfl, ⟨push, rfl, pushes⟩, put, rfl, puts,
    names⟩
  exact .cons receiver pushes puts names .nil

theorem writes_stores (owner : String) (stores : List StorePlan) :
    Writes (stores.forM (store owner)) fun q is => Instruction.Stores q
      (stores.map fun s => (⟨owner, s.name, s.descriptor⟩, s.constant.value)) is := by
  induction stores with
  | nil =>
    refine Drafting.writes_none.mono ?_
    rintro q _ rfl
    exact .nil
  | cons s stores ih =>
    refine ((writes_store owner s).seq ih).mono ?_
    rintro q is ⟨first, rest, rfl, stored, more⟩
    exact stored.append more

theorem writes_body (plan : ClassPlan) (super : String) : Writes (plan.body super) fun q is =>
    Instruction.Initializes q (constructorOf super) plan.writes is := by
  have return_ : Writes (Drafting.emit .return_) fun _ is => ∃ i, is = [i] ∧ i.opcode = .return_ :=
    Drafting.writes_plain rfl rfl rfl
  refine ((Drafting.writes_setMaxStack plan.maxStack).seq (Drafting.writes_aload_zero.seq
    ((Drafting.writes_call .invokespecial _).seq
      ((writes_stores plan.name plan.stores).seq return_)))).mono ?_
  rintro q is ⟨_, _, rfl, rfl, _, _, rfl, ⟨this, rfl, receiver⟩, _, _, rfl,
    ⟨call, rfl, calls, names⟩, row, _, rfl, stores, last, rfl, returns⟩
  exact .intro receiver calls names stores returns

end ClassPlan

/-! ### What the class is -/

/-- A class is the one of a plan below a super class. -/
structure ClassFile.Realizes (c : ClassFile) (plan : ClassPlan) (super : String) : Prop where
  entries : c.pool.LinkedIn c.pool
  access : c.access = plan.access
  thisClass : c.pool.NamesClass c.thisClass plan.name
  superClass : c.pool.NamesClass c.superClass super
  interfaces : ∀ i ∈ c.interfaces, ∃ n ∈ plan.interfaces, c.pool.NamesClass i n
  implements : ∀ n ∈ plan.interfaces, ∃ i ∈ c.interfaces, c.pool.NamesClass i n
  fields : c.fields.map (·.signature c.pool) =
    plan.allFields.map fun f => (some f.name, some f.descriptor)
  constructor : ∃ m code is, c.methods = [m] ∧ m.access = plan.constructorAccess ∧
    m.signature c.pool = (some constructorName, some plainDescriptor) ∧
    m.Straight c.pool code is ∧
    Instruction.Initializes c.pool (ClassPlan.constructorOf super) plan.writes is

namespace ClassPlan

open Assembly (Makes makes_pure)

variable {plan : ClassPlan} {super : String}

theorem makes_fields (fields : List FieldPlan) : Makes (fields.forM FieldPlan.declare)
    fun q c _ c' => ∃ ms pool, c' = { c with pool, fields := c.fields ++ ms } ∧
      ms.map (·.signature q) = fields.map fun f => (some f.name, some f.descriptor) := by
  induction fields with
  | nil =>
    refine (makes_pure ()).mono ?_
    rintro q c _ c' ⟨-, rfl⟩
    exact ⟨[], c'.pool, by simp, rfl⟩
  | cons f fields ih =>
    refine ((Assembly.makes_addField f.access f.name f.descriptor).bind fun _ => ih).mono ?_
    rintro q c _ c' ⟨-, _, ⟨m, _, rfl, -, signed⟩, ms, pool, rfl, more⟩
    exact ⟨m :: ms, pool, by simp, by rw [List.map_cons, signed, more, List.map_cons]⟩

theorem makes_interfaces (names : List String) : Makes (names.forM Assembly.addInterface)
    fun q c _ c' => ∃ pool interfaces, c' = { c with pool, interfaces } ∧
      (∀ i ∈ interfaces, i ∈ c.interfaces ∨ ∃ n ∈ names, q.NamesClass i n) ∧
      (∀ i ∈ c.interfaces, i ∈ interfaces) ∧
      ∀ n ∈ names, ∃ i ∈ interfaces, q.NamesClass i n := by
  induction names with
  | nil =>
    refine (makes_pure ()).mono ?_
    rintro q c _ c' ⟨-, rfl⟩
    exact ⟨c'.pool, c'.interfaces, rfl, fun i member => .inl member, fun _ => id, by simp⟩
  | cons name names ih =>
    refine ((Assembly.makes_addInterface name).bind fun _ => ih).mono ?_
    rintro q c _ c' ⟨-, _, ⟨index, _, first, rfl, named, members⟩, pool, interfaces, rfl, known,
      kept, all⟩
    simp only at known kept
    refine ⟨pool, interfaces, rfl, fun i member => ?_, fun i member => ?_, ?_⟩
    · rcases known i member with before | ⟨n, inside, names⟩
      · rcases (members i).mp before with before | rfl
        · exact .inl before
        · exact .inr ⟨name, List.mem_cons_self, named⟩
      · exact .inr ⟨n, List.mem_cons_of_mem _ inside, names⟩
    · exact kept i ((members i).mpr (.inl member))
    · rw [List.forall_mem_cons]
      exact ⟨⟨index, kept index ((members index).mpr (.inr rfl)), named⟩, all⟩

theorem makes_assemble (plan : ClassPlan) (super : String) : Makes (plan.assemble super)
    fun q c result c' => result = .ok () → ∃ pool interfaces ms m code is,
      c' = { c with pool, interfaces, access := plan.access, fields := c.fields ++ ms,
                    methods := c.methods ++ [m] } ∧
      (∀ i ∈ interfaces, i ∈ c.interfaces ∨ ∃ n ∈ plan.interfaces, q.NamesClass i n) ∧
      (∀ n ∈ plan.interfaces, ∃ i ∈ interfaces, q.NamesClass i n) ∧
      (ms.map (·.signature q) = plan.allFields.map fun f => (some f.name, some f.descriptor)) ∧
      m.access = plan.constructorAccess ∧
      m.signature q = (some constructorName, some plainDescriptor) ∧ m.Straight q code is ∧
      Instruction.Initializes q (constructorOf super) plan.writes is := by
  have setAccess : Makes (Assembly.setAccess plan.access)
      fun _ c _ c' => c' = { c with access := plan.access } := Assembly.makes_modify fun _ => rfl
  refine (setAccess.bind fun _ => (makes_interfaces plan.interfaces).bind fun _ =>
    (makes_fields plan.fields).bind fun _ =>
      (Assembly.makes_draftMethod (writes_body plan super)).bind fun result =>
        (makes_fields plan.laterFields).bind fun _ => makes_pure result).mono ?_
  rintro q c result c' ⟨-, _, rfl, -, _, ⟨_, interfaces, rfl, known, -, all⟩, -, _,
    ⟨first, _, rfl, signed⟩, _, c3, drafted, -, _, ⟨later, pool, rfl, signedLater⟩, rfl, rfl⟩ done
  obtain ⟨m, code, is, _, rfl, access, signedM, straight, row⟩ := drafted done
  refine ⟨pool, interfaces, first ++ later, m, code, is, ?_, known, all, ?_, access, signedM,
    straight, row⟩
  · simp
  · rw [List.map_append, signed, signedLater, allFields, List.map_append]

/-- What is assembled is the class of the plan. -/
theorem realizes (done : plan.result super = .ok ())
    (few : (plan.classFile super).pool.slots.size ≤ 65535) :
    (plan.classFile super).Realizes plan super := by
  have names := ClassFile.interns_new plan.name super
  have makes := makes_assemble plan super
  have later := makes.growing (ClassFile.new plan.name super)
  obtain ⟨this, above⟩ := names.tells later few trivial
  have linked := makes.linked (.refl _) few
    (names.linked (p := Pool.empty) later few trivial
      (by simp [Pool.LinkedIn, Pool.entries, Pool.empty]))
  obtain ⟨pool, interfaces, ms, m, code, is, made, known, all, signed, access, signedM, straight,
    row⟩ := makes.turns (.refl _) few done
  have interfacesEq : (plan.classFile super).interfaces = interfaces :=
    congrArg ClassFile.interfaces made
  have fieldsEq : (plan.classFile super).fields = ms := congrArg ClassFile.fields made
  exact {
    entries := linked
    access := congrArg ClassFile.access made
    thisClass := (congrArg ClassFile.thisClass made).symm ▸ this
    superClass := (congrArg ClassFile.superClass made).symm ▸ above
    interfaces := fun i member => (known i (interfacesEq ▸ member)).resolve_left List.not_mem_nil
    implements := interfacesEq.symm ▸ all
    fields := fieldsEq.symm ▸ signed
    constructor := ⟨m, code, is, congrArg ClassFile.methods made, access, signedM, straight, row⟩ }

end ClassPlan

end ClassBench
