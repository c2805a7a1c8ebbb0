import ClassBench.Proofs.Assembly.Mentions
import ClassBench.Proofs.List
import ClassBench.Proofs.Pool.References

/-! What the steps of a script declare, and how the class that they assemble shows it.  A class
keeps indices where names were declared, and two declarations are the same if their indices are; the
pool has one index for a name, which is found again whatever is added to the pool, equal entries
pushed as they are included.  So what holds of the indices holds of the names. -/

namespace ClassBench

/-- A field or a method as it is declared. -/
structure Declaration where
  access : UInt16
  name : String
  descriptor : String
  deriving DecidableEq, Repr

/-- What was declared, in order. -/
@[ext]
structure Declarations where
  interfaces : List String := []
  files : List String := []
  fields : List Declaration := []
  methods : List Declaration := []
  deriving DecidableEq, Repr

namespace Declarations

instance : Append Declarations where
  append first second :=
    { interfaces := first.interfaces ++ second.interfaces
      files := first.files ++ second.files
      fields := first.fields ++ second.fields
      methods := first.methods ++ second.methods }

variable (first second third : Declarations)

@[simp] theorem interfaces_append :
    (first ++ second).interfaces = first.interfaces ++ second.interfaces := rfl

@[simp] theorem files_append : (first ++ second).files = first.files ++ second.files := rfl

@[simp] theorem fields_append : (first ++ second).fields = first.fields ++ second.fields := rfl

@[simp] theorem methods_append : (first ++ second).methods = first.methods ++ second.methods := rfl

theorem append_none : first ++ ({} : Declarations) = first := by
  ext1 <;> simp

theorem append_assoc : first ++ second ++ third = first ++ (second ++ third) := by
  ext1 <;> simp

/-- What all the rows declare. -/
def all (rows : List Declarations) : Declarations := rows.foldr (· ++ ·) {}

end Declarations

/-- What a step declares that gave this answer.  A method that is written step by step is declared
only if it was added. -/
def ClassStep.declares : ClassStep → ClassAnswer → Declarations
  | addInterface name, _ => { interfaces := [name] }
  | setSourceFile file, _ => { files := [file] }
  | addField access name descriptor, _ => { fields := [⟨access, name, descriptor⟩] }
  | addAbstractMethod access name descriptor, _ =>
    { methods := [⟨access ||| Access.isAbstract, name, descriptor⟩] }
  | addMethod access name descriptor _, _ => { methods := [⟨access, name, descriptor⟩] }
  | method access name descriptor _ _, .method _ .added =>
    { methods := [⟨access, name, descriptor⟩] }
  | _, _ => {}

/-- A member as it was declared, if the pool has its name and its descriptor. -/
def Member.declaration? (m : Member) (pool : Pool) : Option Declaration := do
  return ⟨m.access, ← m.name? pool, ← m.descriptor? pool⟩

/-- The file that an attribute names, if it is one for the source file of a class. -/
def Attribute.sourceFile? (a : Attribute) (pool : Pool) : Option String :=
  if pool.utf8? a.name = some "SourceFile" ∧ a.info.length = 2 then
    (a.info.u16At? 0).bind pool.utf8?
  else none

theorem Member.declaration?_eq {m : Member} {q : Pool} {name descriptor : String}
    (signed : m.signature q = (some name, some descriptor)) :
    m.declaration? q = some ⟨m.access, name, descriptor⟩ := by
  obtain ⟨named, described⟩ := Prod.mk.inj signed
  rw [declaration?, named, described]
  rfl

theorem Attribute.sourceFile?_eq {q : Pool} {name value : UInt16} {file : String}
    (named : q.get? name = some (.utf8 "SourceFile")) (found : q.get? value = some (.utf8 file)) :
    (⟨name, Bytes.ofUInt16 value⟩ : Attribute).sourceFile? q = some file := by
  have word : (Bytes.ofUInt16 value).u16At? 0 = some value := Bytes.u16At?_length [] [] value
  rw [sourceFile?, if_pos ⟨Pool.utf8?_eq_some.mpr named, Bytes.length_ofUInt16 value⟩, word]
  exact Pool.utf8?_eq_some.mpr found

/-! ### One step -/

/-- A class shows what was declared, as its indices are read in a later pool.  Interned again in its
own pool, a name that was declared is found where it was found then. -/
structure ClassFile.Declares (q : Pool) (c : ClassFile) (said : Declarations) : Prop where
  interfaces : List.Forall₂ (fun index name => Pool.classRef name c.pool = (index, c.pool) ∧
    q.className? index = some name) c.interfaces said.interfaces.eraseDups
  source : List.Forall₂ (fun a file => Pool.utf8 "SourceFile" c.pool = (a.name, c.pool) ∧
    a.sourceFile? q = some file) c.attributes said.files.getLast?.toList
  fields : c.fields.map (·.declaration? q) = said.fields.map some
  methods : c.methods.map (·.declaration? q) = said.methods.map some

namespace ClassFile.Declares

variable {q pool : Pool} {c c' : ClassFile} {said : Declarations} {name : String} {m : Member}
  {access : UInt16} {descriptor : String}

theorem grow (declares : c.Declares q said) (grows : c.pool.Grows pool) :
    ({ c with pool } : ClassFile).Declares q said where
  interfaces := by
    refine declares.interfaces.imp fun index name ⟨again, named⟩ => ⟨?_, named⟩
    have later : (Pool.classRef name c.pool).2.Grows pool := by rwa [again]
    rw [(Pool.Settles.classRef name).again later, again]
  source := by
    refine declares.source.imp fun a file ⟨again, names⟩ => ⟨?_, names⟩
    have later : (Pool.utf8 "SourceFile" c.pool).2.Grows pool := by rwa [again]
    rw [(Pool.Settles.utf8 "SourceFile").again later, again]
  fields := declares.fields
  methods := declares.methods

/-- A name that was declared before has the index that it had then, and any other name has an index
that no interface has. -/
theorem addInterface (declares : c.Declares q said) (name : String)
    (later : (Assembly.addInterface name c).2.pool.Grows q) (few : q.slots.size ≤ 65535) :
    (Assembly.addInterface name c).2.Declares q (said ++ { interfaces := [name] }) := by
  have grows := (Assembly.accrues_addInterface name).growing c
  obtain ⟨interfaces, made, either⟩ := Assembly.addInterface_eq name c
  rw [made] at later grows ⊢
  have interns : Pool.Interns (fun _ => True) (Pool.classRef name) fun q index =>
      q.NamesClass index name := Pool.Interns.classRef name
  have named : q.className? (Pool.classRef name c.pool).1 = some name :=
    Pool.className?_eq_some.mpr (interns.tells later few trivial)
  have again := (Pool.Settles.classRef name).again (.refl (Pool.classRef name c.pool).2)
  have known : (Pool.classRef name c.pool).1 ∈ c.interfaces ↔ name ∈ said.interfaces := by
    have rows := declares.interfaces
    constructor
    · intro member
      obtain ⟨front, back, split⟩ := List.append_of_mem member
      rw [split] at rows
      obtain ⟨before, other, after, names, -, ⟨-, found⟩, -⟩ := rows.around
      obtain rfl : other = name := Option.some.inj (found.symm.trans named)
      exact List.mem_eraseDups.mp (by simp [names])
    · intro member
      obtain ⟨front, back, split⟩ := List.append_of_mem (List.mem_eraseDups.mpr member)
      rw [split] at rows
      obtain ⟨before, index, after, indices, -, ⟨again, -⟩, -⟩ := rows.flip.around
      simp [indices, again]
  have grown := declares.grow grows
  refine ⟨?_, by simpa using grown.source, by simpa using grown.fields,
    by simpa using grown.methods⟩
  rw [Declarations.interfaces_append, List.eraseDups_concat]
  rcases either with ⟨old, rfl⟩ | ⟨new, rfl⟩
  · rw [if_pos (known.mp old)]
    exact grown.interfaces
  · rw [if_neg (mt known.mpr new)]
    exact List.rel_append grown.interfaces (.cons ⟨again, named⟩ .nil)

/-- The source file that was named before has the same index for its name, so it goes. -/
theorem setSourceFile (declares : c.Declares q said) (file : String)
    (later : (Assembly.setSourceFile file c).2.pool.Grows q) (few : q.slots.size ≤ 65535) :
    (Assembly.setSourceFile file c).2.Declares q (said ++ { files := [file] }) := by
  have grows : c.pool.Grows (Assembly.setSourceFile file c).2.pool :=
    (ClassStep.accrues (.setSourceFile file)).growing c
  let named := Pool.utf8 "SourceFile" c.pool
  let value := Pool.utf8 file named.2
  have grown : named.2.Grows value.2 := Pool.growing_intern _ _
  have gone : c.attributes.filter (fun a => a.name != named.1) = [] := by
    refine List.filter_eq_nil_iff.mpr fun a member => ?_
    have rows := declares.source
    obtain ⟨front, back, split⟩ := List.append_of_mem member
    rw [split] at rows
    obtain ⟨_, _, _, -, -, ⟨again, -⟩, -⟩ := rows.around
    simp [named, again]
  have made : (Assembly.setSourceFile file c).2 = { c with
      pool := value.2
      attributes := c.attributes.filter (fun a => a.name != named.1) ++
        [⟨named.1, Bytes.ofUInt16 value.1⟩] } := rfl
  rw [gone, List.nil_append] at made
  rw [made] at later grows ⊢
  have wide := declares.grow grows
  refine ⟨by simpa using wide.interfaces, ?_, by simpa using wide.fields,
    by simpa using wide.methods⟩
  rw [Declarations.files_append, List.getLast?_concat]
  exact .cons ⟨(Pool.Settles.utf8 "SourceFile").again grown,
    Attribute.sourceFile?_eq (Pool.get?_intern (grown.trans later) few)
      (Pool.get?_intern later few)⟩ .nil

theorem addField (declares : c.Declares q said) (grows : c.pool.Grows c'.pool)
    (made : c' = { c with pool, fields := c.fields ++ [m] }) (accessed : m.access = access)
    (signed : m.signature q = (some name, some descriptor)) :
    c'.Declares q (said ++ { fields := [⟨access, name, descriptor⟩] }) := by
  subst made
  have grown := declares.grow grows
  refine ⟨by simpa using grown.interfaces, by simpa using grown.source, ?_,
    by simpa using grown.methods⟩
  simp [declares.fields, Member.declaration?_eq signed, accessed]

theorem addMethod (declares : c.Declares q said) (grows : c.pool.Grows c'.pool)
    (made : c' = { c with pool, methods := c.methods ++ [m] }) (accessed : m.access = access)
    (signed : m.signature q = (some name, some descriptor)) :
    c'.Declares q (said ++ { methods := [⟨access, name, descriptor⟩] }) := by
  subst made
  have grown := declares.grow grows
  refine ⟨by simpa using grown.interfaces, by simpa using grown.source,
    by simpa using grown.fields, ?_⟩
  simp [declares.methods, Member.declaration?_eq signed, accessed]

/-- A draft that is added declares its method; one that is left out, or not begun, declares
nothing. -/
theorem writeMethod (declares : c.Declares q said) (access : UInt16) (name descriptor : String)
    (body : List MethodStep) (dropped : Bool) :
    let turn := (ClassStep.method access name descriptor body dropped).run c
    turn.2.pool.Grows q → q.slots.size ≤ 65535 → turn.2.Declares q
      (said ++ (ClassStep.method access name descriptor body dropped).declares turn.1) := by
  intro turn later few
  have grows : c.pool.Grows turn.2.pool :=
    (Assembly.accrues_writeMethod access name descriptor body dropped).growing c
  rcases Assembly.writeMethod_turns c access name descriptor body dropped with
    ⟨e, same⟩ | ⟨d, -, answers, final, -, owner, access', name', descriptor', either⟩
  · have same : turn = (.refused e, c) := same
    rw [same]
    exact said.append_none.symm ▸ declares
  · rcases either with ⟨left, same, which⟩ | ⟨-, -, same⟩
    · have same : turn = (.method answers left, final.owner) := same
      rw [same] at grows ⊢
      have none : (ClassStep.method access name descriptor body dropped).declares
          (.method answers left) = {} := by
        rcases which with rfl | rfl <;> rfl
      rw [none, said.append_none, owner]
      rw [owner] at grows
      exact declares.grow grows
    · have same : turn = (.method answers .added, (final.addTo final.owner).2) := same
      rw [same] at later grows ⊢
      obtain ⟨m, pool, -, made, accessed, signed, -⟩ :=
        (Assembly.makes_addTo final).turns later few
      have placed : (final.addTo final.owner).2 =
          { c with pool, methods := c.methods ++ [m] } := by rw [made, owner]
      rw [name', descriptor'] at signed
      exact declares.addMethod grows placed (accessed.trans access') signed

theorem step (declares : c.Declares q said) (step : ClassStep)
    (later : (step.run c).2.pool.Grows q) (few : q.slots.size ≤ 65535) :
    (step.run c).2.Declares q (said ++ step.declares (step.run c).1) := by
  have grows := step.accrues.growing c
  cases step with
  | setAccess | setMajor => exact said.append_none.symm ▸ { declares with }
  | hasMethod | currentName | classRef | pool =>
    exact said.append_none.symm ▸ declares.grow grows
  | addInterface name => exact declares.addInterface name later few
  | setSourceFile file => exact declares.setSourceFile file later few
  | addField access name descriptor =>
    obtain ⟨m, pool, made, accessed, signed⟩ :=
      (Assembly.makes_addField access name descriptor).turns later few
    exact declares.addField grows made accessed signed
  | addAbstractMethod access name descriptor =>
    obtain ⟨m, pool, made, accessed, signed, -⟩ :=
      (Assembly.makes_addAbstractMethod access name descriptor).turns later few
    exact declares.addMethod grows made accessed signed
  | addMethod access name descriptor code =>
    obtain ⟨m, pool, made, accessed, signed, -⟩ :=
      (Assembly.makes_addMethod access name descriptor code).turns later few
    exact declares.addMethod grows made accessed signed
  | method access name descriptor body dropped =>
    exact declares.writeMethod access name descriptor body dropped later few

/-- What a run declares is what its steps declare, one after the other. -/
theorem run (declares : c.Declares q said) (steps : List ClassStep)
    (later : (Assembly.runSteps steps c).2.pool.Grows q) (few : q.slots.size ≤ 65535) :
    (Assembly.runSteps steps c).2.Declares q (said ++
      .all (steps.zipWith ClassStep.declares (Assembly.runSteps steps c).1)) := by
  induction steps generalizing c said with
  | nil => exact said.append_none.symm ▸ declares
  | cons first steps ih =>
    have grows := (Assembly.accrues_runSteps steps).growing (first.run c).2
    rw [Assembly.runSteps_cons] at later ⊢
    have answers : (Assembly.runSteps (first :: steps) c).1 =
        (first.run c).1 :: (Assembly.runSteps steps (first.run c).2).1 := by
      rw [Assembly.runSteps, List.mapM_cons]
      rfl
    have all := ih (declares.step first (grows.trans later) few) later
    rw [Declarations.append_assoc] at all
    rw [answers]
    exact all

end ClassFile.Declares

/-- A method that is not added leaves the class as it was, but for entries that the pool has in
addition. -/
theorem Assembly.writeMethod_frame {c : ClassFile} {access : UInt16} {name descriptor : String}
    {body : List MethodStep} {dropped : Bool} (out : dropped = true ∨ ∀ answers,
      (writeMethod access name descriptor body dropped c).1 ≠ .method answers .added) :
    ∃ pool, c.pool.Grows pool ∧
      (writeMethod access name descriptor body dropped c).2 = { c with pool } := by
  have grows := (accrues_writeMethod access name descriptor body dropped).growing c
  rcases writeMethod_turns c access name descriptor body dropped with
    ⟨e, same⟩ | ⟨d, -, answers, final, -, owner, -, -, -, ⟨left, same, -⟩ | ⟨kept, -, same⟩⟩
  · exact ⟨c.pool, .refl _, congrArg Prod.snd same⟩
  · rw [same] at grows ⊢
    exact ⟨final.pool, grows, owner⟩
  · rcases out with rfl | never
    · cases kept
    · exact absurd (congrArg Prod.fst same) (never answers)

namespace ClassFile

/-- For every script that keeps the pool within the indices that there are, raw entries included:
the interfaces are the names declared, each once and in the order in which they were declared first;
the class has no attribute but the one for its source file, which names the file given last; and its
fields and methods are those declared, in order and as often.  Whatever class a method is written
for, if the method is dropped or refused the class is left as it was, but for entries that are added
to its pool. -/
theorem declarations_stay_consistent (name super : String) (steps : List ClassStep) :
    let c := assembled name super steps
    let answers := (Assembly.runSteps steps (new name super)).1
    let said := Declarations.all (steps.zipWith ClassStep.declares answers)
    (c.pool.slots.size ≤ 65535 →
      c.interfaceNames = said.interfaces.eraseDups ∧
      c.interfaces.length = c.interfaceNames.length ∧
      c.attributes.map (·.sourceFile? c.pool) = said.files.getLast?.toList.map some ∧
      c.fields.map (·.declaration? c.pool) = said.fields.map some ∧
      c.methods.map (·.declaration? c.pool) = said.methods.map some) ∧
    ∀ (before : ClassFile) (access : UInt16) (name descriptor : String) (body : List MethodStep)
      (dropped : Bool),
      let turn := (ClassStep.method access name descriptor body dropped).run before
      dropped = true ∨ (∃ answers e, turn.1 = .method answers (.refused e)) ∨
        (∃ e, turn.1 = .refused e) →
      ∃ pool, before.pool.Grows pool ∧ turn.2 = { before with pool } := by
  intro c answers said
  constructor
  · intro few
    have empty : (new name super).Declares c.pool {} := ⟨.nil, .nil, rfl, rfl⟩
    have declares : c.Declares c.pool said := empty.run steps (.refl _) few
    have resolve := (declares.interfaces.imp fun _ _ => And.right).map_eq
    have names : c.interfaceNames = said.interfaces.eraseDups := by
      have resolved := congrArg (List.filterMap id) resolve
      simpa [interfaceNames, List.filterMap_map] using resolved
    refine ⟨names, ?_, (declares.source.imp fun _ _ => And.right).map_eq, declares.fields,
      declares.methods⟩
    rw [names, declares.interfaces.length_eq]
  · intro before access name descriptor body dropped turn out
    refine Assembly.writeMethod_frame (out.imp_right fun refused answers added => ?_)
    have added : turn.1 = .method answers .added := added
    rcases refused with ⟨_, e, refused⟩ | ⟨e, refused⟩
    all_goals
      rw [added] at refused
      cases refused

/-- Names that stand in the pool twice, and methods of which one is dropped and one refused. -/
theorem declarations_stay_consistent_duplicates :
    let steps : List ClassStep := [.pool (.push (.utf8 "SourceFile")),
      .pool (.push (.utf8 "SourceFile")), .addInterface "app/B", .setSourceFile "Old.java",
      .pool (.push (.utf8 "app/A")), .pool (.push (.utf8 "app/A")), .addInterface "app/A",
      .pool (.push (.long 7)), .pool (.push (.classRef 8)), .addInterface "app/B",
      .method 1 "lost" "()V" [.newObject "app/C"] true, .addField 1 "x" "I",
      .method 1 "bad" "(" [] false, .addAbstractMethod 1 "run" "()V", .setSourceFile "New.java",
      .method 1 "run" "()V" [.emit .return_] false]
    let c := assembled "app/Main" objectName steps
    c.pool.slots.size ≤ 65535 ∧ c.interfaceNames = ["app/B", "app/A"] ∧
      c.attributes.map (·.sourceFile? c.pool) = [some "New.java"] ∧
      c.methods.map (·.declaration? c.pool) = [some ⟨1025, "run", "()V"⟩, some ⟨1, "run", "()V"⟩] ∧
      ∃ pool, c.pool.Grows pool ∧
        ((ClassStep.method 1 "lost" "()V" [.newObject "app/D"] true).run c).2 = { c with pool } := by
  intro steps
  have few : (assembled "app/Main" objectName steps).pool.slots.size ≤ 65535 := by decide +kernel
  obtain ⟨shows, frame⟩ := declarations_stay_consistent "app/Main" objectName steps
  obtain ⟨interfaces, -, source, -, methods⟩ := shows few
  refine ⟨few, interfaces.trans ?_, source.trans ?_, methods.trans ?_,
    frame _ 1 "lost" "()V" [.newObject "app/D"] true (.inl rfl)⟩
  all_goals decide +kernel

end ClassFile

end ClassBench
