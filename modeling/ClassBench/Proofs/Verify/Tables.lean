import ClassBench.Proofs.Verify.ControlFlow

/-! What the verifier leaves unread.  It looks at the pool, at the classes that are named, at the
names and descriptors of members, and in a body at the code and the number of local variables.  No
check visits the exception handlers, and the name of an attribute is looked at only to find the
body, so their references and jumps may lead anywhere. -/

namespace ClassBench

variable {pool : Pool}

/-- What is read of a body. -/
def Code.core (code : Code) : UInt16 × Bytes := (code.maxLocals, code.code)

/-- Two fields that the verifier cannot tell apart. -/
structure Member.AlikeField (m m' : Member) : Prop where
  name : m.name = m'.name
  descriptor : m.descriptor = m'.descriptor

/-- Two methods that the verifier cannot tell apart. -/
structure Member.AlikeMethod (pool : Pool) (m m' : Member) : Prop extends m.AlikeField m' where
  access : m.access = m'.access
  body : (m.code? pool).map (Option.map Code.core) = (m'.code? pool).map (Option.map Code.core)

/-- Two class files that the verifier cannot tell apart: they may differ in their versions and
access flags, in the attributes of the class and of fields, and in methods in everything but the
access, the name, the descriptor and the code with its number of local variables. -/
structure ClassFile.Alike (c d : ClassFile) : Prop where
  pool : c.pool = d.pool
  thisClass : c.thisClass = d.thisClass
  superClass : c.superClass = d.superClass
  interfaces : c.interfaces = d.interfaces
  fields : List.Forall₂ Member.AlikeField c.fields d.fields
  methods : List.Forall₂ (Member.AlikeMethod c.pool) c.methods d.methods

namespace Verify

variable {label : String} {m m' : Member} {ms ms' : List Member} {seen : List (String × String)}
  {valid : String → Bool}

theorem body_congr {code code' : Code} (same : code.core = code'.core) :
    body label pool code = body label pool code' := by
  obtain ⟨maxLocals, bytes⟩ := Prod.mk.inj same
  rw [body, body, maxLocals, bytes]

theorem method_congr (alike : m.AlikeMethod pool m') :
    method label pool m = method label pool m' := by
  have same := alike.body
  unfold method
  rw [alike.access]
  match m.code? pool, m'.code? pool, same with
  | .error error, .error _, rfl => rfl
  | .ok none, .ok none, _ => rfl
  | .ok (some code), .ok (some code'), same =>
    simp only [body_congr (Option.some.inj (Except.ok.inj same))]

theorem signature_congr (alike : m.AlikeField m') :
    signature pool valid seen m = signature pool valid seen m' := by
  rw [signature, signature, alike.name, alike.descriptor]

theorem fields_congr (alike : List.Forall₂ Member.AlikeField ms ms') :
    fields pool seen ms = fields pool seen ms' := by
  induction alike generalizing seen with
  | nil => rfl
  | cons same _ ih => simp only [fields, signature_congr same, ih]

theorem methods_congr (alike : List.Forall₂ (Member.AlikeMethod pool) ms ms') :
    methods pool seen ms = methods pool seen ms' := by
  induction alike generalizing seen with
  | nil => rfl
  | cons same _ ih => simp only [methods, signature_congr same.toAlikeField, method_congr same, ih]

end Verify

namespace Member

/-- An attribute is found by the text that its name is. -/
theorem mem_of_attribute? {m : Member} {name : String} {info : Bytes}
    (found : m.attribute? pool name = some info) :
    ∃ a ∈ m.attributes, pool.get? a.name = some (.utf8 name) ∧ a.info = info := by
  obtain ⟨a, first, same⟩ := Option.map_eq_some_iff.mp found
  have named := List.find?_some first
  exact ⟨a, List.mem_of_find?_eq_some first, Pool.utf8?_eq_some.mp (beq_iff_eq.mp named), same⟩

/-- A method with a body has an attribute that is named for it and can be read. -/
theorem SoundBody.named {m : Member} (sound : m.SoundBody pool) :
    Access.has m.access Access.isAbstract = true ∨ Access.has m.access Access.isNative = true ∨
      ∃ a ∈ m.attributes, pool.get? a.name = some (.utf8 codeName) ∧
        ∃ code, Code.decode a.info = .ok code := by
  rw [← or_assoc]
  cases found : m.attribute? pool codeName with
  | none => exact .inl (sound.present.mpr found)
  | some info =>
    obtain ⟨a, member, named, rfl⟩ := mem_of_attribute? found
    obtain ⟨code, read, -⟩ := sound.sound a.info found
    exact .inr ⟨a, member, named, code, read⟩

end Member

namespace ClassFile

/-- The answer of the verifier, with the fault that it reports, does not depend on the exception
handlers of bodies nor on attributes other than the bodies of methods.  All that is certain of the
attributes of an accepted class is that the methods that need a body have one under its name. -/
theorem verify_ignores_tables {c d : ClassFile} (alike : c.Alike d) :
    c.verify = d.verify ∧
      (c.verify = .ok () → ∀ m ∈ c.methods,
        Access.has m.access Access.isAbstract = true ∨ Access.has m.access Access.isNative = true ∨
          ∃ a ∈ m.attributes, c.pool.get? a.name = some (.utf8 codeName) ∧
            ∃ code, Code.decode a.info = .ok code) := by
  have fields : Verify.fields c.pool [] c.fields = Verify.fields c.pool [] d.fields :=
    Verify.fields_congr alike.fields
  have methods : Verify.methods c.pool [] c.methods = Verify.methods c.pool [] d.methods :=
    Verify.methods_congr alike.methods
  have super (name : String) : c.verifySuper name = d.verifySuper name := by
    rw [verifySuper, verifySuper, alike.superClass, alike.pool]
  refine ⟨?_, fun verified m member => ((sound_of_verify verified).bodies m member).named⟩
  simp only [verify, fields, methods, super]
  rw [alike.pool, alike.thisClass, alike.interfaces]

/-- A body that returns at once, and the same with a handler and attributes that lead nowhere. -/
theorem verify_ignores_tables_return :
    let plain : Code := { maxStack := 0, maxLocals := 0, code := [0xB1] }
    let code : Code := { plain with handlers := [⟨7, 3, 9, 1⟩], attributes := [⟨0, []⟩] }
    let c : ClassFile := { around code with attributes := [⟨99, []⟩] }
    (around plain).Alike c ∧ (around plain).verify = .ok () ∧ c.verify = .ok () ∧
      ∃ a ∈ (onlyMethod plain).attributes,
        (around plain).pool.get? a.name = some (.utf8 codeName) ∧
          ∃ code, Code.decode a.info = .ok code := by
  intro plain code c
  have accepted : (around plain).verify = .ok () := by decide +kernel
  have method : (onlyMethod plain).AlikeMethod c.pool (onlyMethod code) :=
    ⟨⟨rfl, rfl⟩, rfl, by decide +kernel⟩
  have alike : (around plain).Alike c := ⟨rfl, rfl, rfl, rfl, .nil, .cons method .nil⟩
  obtain ⟨same, bodies⟩ := verify_ignores_tables alike
  refine ⟨alike, accepted, same ▸ accepted, ?_⟩
  rcases bodies accepted (onlyMethod plain) (List.mem_singleton_self _) with abstract | native | named
  · exact absurd abstract (by decide)
  · exact absurd native (by decide)
  · exact named

/-- An accepted class with a handler whose range ends before it begins and beyond the code, which
leads to no instruction and catches a text, and with attributes whose names are no entries. -/
theorem tables_lead_anywhere :
    let handler : Handler := { first := 7, last := 3, target := 9, caught := 1 }
    let nameless : Attribute := { name := 0, info := [] }
    let code : Code := {
      maxStack := 0, maxLocals := 0, code := [0xB1], handlers := [handler]
      attributes := [nameless] }
    let c : ClassFile := { around code with attributes := [nameless] }
    c.verify = .ok () ∧ onlyMethod code ∈ c.methods ∧
      (onlyMethod code).code? c.pool = .ok (some code) ∧
      Instruction.split code.code = .ok [⟨0, .return_, []⟩] ∧
      (¬handler.first < handler.last ∧ ¬handler.last.toNat ≤ code.code.length ∧
        handler.target ≠ 0 ∧ c.pool.get? handler.caught = some (.utf8 "A")) ∧
      c.pool.get? nameless.name = none := by
  decide +kernel

end ClassFile

end ClassBench
