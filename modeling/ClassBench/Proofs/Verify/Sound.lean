import ClassBench.Proofs.Except
import ClassBench.Proofs.Verify.Rules

/-! The verifier accepts a class file exactly if it obeys the rules.  Each check is read as the rule
that it decides: the checks of the pool and of the names, those of one instruction, those of a body
and those of the members, whose loops compare each member with the ones before it. -/

namespace ClassBench

variable {pool : Pool} {index : UInt16}

/-! ### Entries of the pool -/

/-- The kinds that play a role. -/
def Role.kinds (role : Role) : List ConstantKind := ConstantKind.all.filter role.accepts

theorem Role.mem_kinds {role : Role} {kind : ConstantKind} :
    kind ∈ role.kinds ↔ role.accepts kind = true := by
  have known : kind ∈ ConstantKind.all := by cases kind <;> decide
  rw [kinds, List.mem_filter, and_iff_right known]

namespace Pool

theorem expect_eq_ok {role : Role} :
    pool.expect role index = .ok () ↔ pool.Holds role.kinds index := by
  simp only [expect, Holds, Role.mem_kinds]
  cases pool.get? index with
  | none => simp
  | some c => cases fits : role.accepts c.kind <;> simp [fits]

theorem linked_iff {c : Constant} :
    (∀ ref ∈ c.references, pool.Holds ref.1.kinds ref.2) ↔ c.Linked pool := by
  cases c <;> simp only [Constant.references, List.forall_mem_cons, List.not_mem_nil, false_imp_iff,
    implies_true, and_true] <;> rfl

theorem verify_eq_ok : pool.verify = .ok () ↔ ∀ c ∈ pool.entries, c.Linked pool := by
  simp only [verify, Except.forM_eq_ok, expect_eq_ok, linked_iff]

theorem utf8?_eq_some {text : String} :
    pool.utf8? index = some text ↔ pool.get? index = some (.utf8 text) := by
  unfold utf8?
  split
  · next found => simp [found]
  · next other =>
    simp only [reduceCtorEq, false_iff]
    exact other text

theorem className?_eq_some {name : String} :
    pool.className? index = some name ↔ pool.NamesClass index name := by
  unfold className? NamesClass
  split
  · next text found => simp [found, utf8?_eq_some]
  · next other =>
    simp only [reduceCtorEq, false_iff]
    exact fun ⟨text, found, _⟩ => other text found

theorem expectUtf8_eq_ok {text : String} :
    pool.expectUtf8 index = .ok text ↔ pool.utf8? index = some text := by
  unfold expectUtf8
  split
  · next found => simp [found]
  · next missing => simp [missing]

theorem expectClass_eq_ok {name : String} :
    pool.expectClass index = .ok name ↔ pool.NamesClass index name := by
  rw [← className?_eq_some]
  unfold expectClass
  split
  · next found => simp [found]
  · next missing => simp [missing]

end Pool

/-! ### Instructions -/

namespace Instruction

variable {i : Instruction}

/-- The local variables of the short forms are those that count up in each row of four opcodes. -/
theorem impliedLocal?_eq (op : Opcode) : impliedLocal? op = op.shortLocal? := by
  cases op <;> rfl

theorem layout_of_shortLocal? {op : Opcode} (short : op.shortLocal? = some index) :
    op.layout = .plain := by
  cases op <;> first | rfl | cases short

theorem kinds_ofOpcode (used : i.poolIndex? = some index) :
    (Role.ofOpcode i.opcode).kinds = i.opcode.operandKinds := by
  obtain ⟨offset, op, operands⟩ := i
  cases op <;> first | rfl | cases used

end Instruction

namespace Verify

variable {method : String} {offsets : List Nat} {maxLocals : UInt16} {i : Instruction}
  {is : List Instruction}

/-- The jumps of an instruction are accepted exactly if they lead to offsets of instructions, those
of a switch only as far as they do not lead before the start of the code. -/
theorem jumps_eq_ok (whole : i.Whole) : jumps method offsets i = .ok () ↔
    ∀ d, i.Leads d → i.opcode.isBranch = true ∨ 0 ≤ i.offset + d →
      ∃ target ∈ offsets, (target : Int) = i.offset + d := by
  simp only [jumps, Except.check_bind_eq_ok, Except.forM_eq_ok, Except.guard_eq_ok,
    Except.demand_eq_ok, List.contains_iff_mem]
  cases branch : i.opcode.isBranch with
  | true =>
    -- The one target is missing exactly if it lies before the start, where no instruction is.
    obtain ⟨d, distance⟩ := whole.distance? branch
    simp only [if_true, Bool.true_and, Instruction.branchTarget?, distance, Option.bind_some,
      Instruction.leads_of_branch branch, Option.some.injEq, forall_eq', true_or, true_imp_iff,
      eq_comm (b := i.offset + d), ← Instruction.at?_eq_some]
    cases i.at? d <;> simp
  | false =>
    simp only [Bool.false_eq_true, if_false, Instruction.mem_switchTargets whole branch,
      Bool.false_and, not_false_eq_true, and_true, false_or]
    constructor
    · intro inside d leads start
      obtain ⟨target, lands⟩ := Int.eq_ofNat_of_zero_le start
      exact ⟨target, inside target ⟨d, leads, lands⟩, lands.symm⟩
    · rintro inside target ⟨d, leads, lands⟩
      obtain ⟨other, member, same⟩ := inside d leads (by omega)
      obtain rfl : other = target := by omega
      exact member

theorem locals_eq_ok : locals method maxLocals i = .ok () ↔
    ∀ index, i.UsesLocal index → index < maxLocals := by
  unfold locals
  rw [Instruction.impliedLocal?_eq]
  constructor
  · intro checked index uses
    cases uses with
    | operand named =>
      simpa [named] using checked
    | implied short =>
      -- The operands come first, but the short forms have none.
      have layout := Instruction.layout_of_shortLocal? short
      have none : i.localIndex? = none := by rw [Instruction.localIndex?, layout]
      simpa [none, short] using checked
  · intro below
    split
    · next index found =>
      rw [if_pos]
      rcases Option.or_eq_some_iff.mp found with named | ⟨_, short⟩
      · exact below index (.operand named)
      · exact below index (.implied short)
    · rfl

theorem operand_eq_ok : operand method pool i = .ok () ↔
    ∀ index, i.poolIndex? = some index → pool.Holds i.opcode.operandKinds index := by
  unfold operand
  cases used : i.poolIndex? with
  | none => simp
  | some index =>
    simp only [Except.demand_eq_ok, Option.any_eq_true, Option.some.injEq, forall_eq', Pool.Holds,
      ← Instruction.kinds_ofOpcode used, Role.mem_kinds]

theorem ending_eq_ok : ending method is = .ok () ↔
    ∀ last, is.getLast? = some last → last.opcode.isTerminator = true := by
  unfold ending
  cases is.getLast? with
  | none => simp
  | some last => simp only [Except.demand_eq_ok, Option.some.injEq, forall_eq']

theorem instructions_eq_ok {code : Bytes} (tiles : Instruction.Tiles 0 code is) :
    instructions method pool maxLocals is = .ok () ↔
      Instruction.SoundRow pool maxLocals is := by
  have jumpsSound : (∀ i ∈ is, jumps method (is.map Instruction.offset) i = .ok ()) ↔
      ∀ i ∈ is, ∀ d, i.Leads d → i.opcode.isBranch = true ∨ 0 ≤ i.offset + d →
        ∃ target ∈ is, (target.offset : Int) = i.offset + d := by
    refine forall₂_congr fun i member => ?_
    simp only [jumps_eq_ok (tiles.whole i member), List.mem_map, exists_exists_and_eq_and]
  simp only [instructions, Except.check_bind_eq_ok, Except.forM_eq_ok, jumpsSound, locals_eq_ok,
    operand_eq_ok, ending_eq_ok]
  exact ⟨fun ⟨jumps, locals, entries, ending⟩ => ⟨jumps, locals, entries, ending⟩,
    fun ⟨jumps, locals, entries, ending⟩ => ⟨jumps, locals, entries, ending⟩⟩

theorem body_eq_ok {code : Code} : body method pool code = .ok () ↔ code.Sound pool := by
  have length : ¬(code.code.isEmpty = true ∨ 65535 < code.code.length) ↔
      1 ≤ code.code.length ∧ code.code.length ≤ 65535 := by
    rw [List.isEmpty_iff_length_eq_zero]
    omega
  simp only [body, Bool.or_eq_true, decide_eq_true_eq, Except.guard_bind_eq_ok, length]
  constructor
  · rintro ⟨fits, checked⟩
    split at checked
    · next is split =>
      have tiles := Instruction.split_eq_ok.mp split
      exact ⟨fits, is, tiles, (instructions_eq_ok tiles).mp checked⟩
    · exact absurd checked Except.throw_ne_ok
  · rintro ⟨fits, is, tiles, sound⟩
    rw [Instruction.split_eq_ok.mpr tiles]
    exact ⟨fits, (instructions_eq_ok tiles).mpr sound⟩

end Verify

/-! ### Methods -/

namespace Member

variable {m : Member}

theorem code?_eq_none : m.code? pool = .ok none ↔ m.attribute? pool codeName = none := by
  unfold code?
  split
  · next info found => cases Code.decode info <;> simp [found, Except.map]
  · next missing => simp [missing]

theorem code?_eq_some {code : Code} : m.code? pool = .ok (some code) ↔
    ∃ info, m.attribute? pool codeName = some info ∧ Code.decode info = .ok code := by
  unfold code?
  split
  · next info found => cases read : Code.decode info <;> simp [found, read, Except.map]
  · next missing => simp [missing]

/-- The rule for the body of a method, by whether the method is to have one. -/
theorem soundBody_iff : m.SoundBody pool ↔
    if Access.has m.access (Access.isAbstract ||| Access.isNative) then m.code? pool = .ok none
    else ∃ code, m.code? pool = .ok (some code) ∧ code.Sound pool := by
  simp only [code?_eq_none, code?_eq_some, Access.has_or, Bool.or_eq_true]
  cases found : m.attribute? pool codeName with
  | none =>
    constructor
    · rintro ⟨present, -⟩
      rw [if_pos (present.mpr found)]
    · intro h
      split at h
      · next bodiless => exact ⟨by simp [bodiless, found], by simp [found]⟩
      · simp at h
  | some info =>
    constructor
    · rintro ⟨present, sound⟩
      obtain ⟨code, read, isSound⟩ := sound info found
      rw [if_neg (by simp [present, found])]
      exact ⟨code, ⟨info, rfl, read⟩, isSound⟩
    · intro h
      split at h
      · simp at h
      · next hasBody =>
        obtain ⟨code, ⟨info', same, read⟩, isSound⟩ := h
        obtain rfl := Option.some.inj same
        refine ⟨by simp [hasBody, found], fun info' same => ?_⟩
        obtain rfl := Option.some.inj (found.symm.trans same)
        exact ⟨code, read, isSound⟩

theorem SoundBody.sound_code {code : Code} (sound : m.SoundBody pool)
    (body : m.code? pool = .ok (some code)) : code.Sound pool := by
  obtain ⟨info, found, read⟩ := code?_eq_some.mp body
  obtain ⟨code', read', isSound⟩ := sound.sound info found
  obtain rfl := Except.ok.inj (read'.symm.trans read)
  exact isSound

end Member

namespace Verify

variable {label : String} {m : Member}

/-- A method is accepted exactly if it has a sound body, or is abstract or native and has none. -/
theorem method_eq_ok : method label pool m = .ok () ↔ m.SoundBody pool := by
  rw [Member.soundBody_iff]
  unfold method
  cases Access.has m.access (Access.isAbstract ||| Access.isNative) <;>
    cases m.code? pool with
    | error e => simp
    | ok code => cases code <;> simp [body_eq_ok]

/-! ### Members -/

variable {ms : List Member} {seen : List (String × String)} {found : String × String}
  {valid : String → Bool}

theorem signature_eq_ok : signature pool valid seen m = .ok found ↔
    m.signature pool = found.map some some ∧ valid found.2 = true ∧ found ∉ seen := by
  simp only [signature, Except.bind_eq_ok, Pool.expectUtf8_eq_ok, Except.guard_bind_eq_ok,
    Except.pure_eq_ok]
  constructor
  · rintro ⟨name, named, descriptor, described, isValid, new, rfl⟩
    exact ⟨Prod.ext named described, by simpa using isValid, by simpa using new⟩
  · rintro ⟨signed, isValid, new⟩
    exact ⟨_, congrArg Prod.fst signed, _, congrArg Prod.snd signed, by simp [isValid],
      by simpa using new, rfl⟩

theorem declares_iff {type : List Char → Prop} : m.Declares pool type ↔
    ∃ found : String × String, m.signature pool = found.map some some ∧ type found.2.toList := by
  simp only [Member.Declares, ← Pool.utf8?_eq_some, Prod.exists]
  refine exists₂_congr fun name descriptor => ?_
  rw [← and_assoc, Member.signature, Prod.map, Prod.mk.injEq]
  rfl

/-- A loop over members accepts them exactly if each declares a type of its kind and is good, and no
two of them, nor one of them and one of those seen before, have one name and descriptor. -/
theorem members_eq_ok (loop : List (String × String) → List Member → Check Unit)
    (check : String × String → Member → Check Unit) {type : List Char → Prop}
    {Good : Member → Prop}
    (nil : ∀ seen, loop seen [] = .ok ())
    (cons : ∀ seen m rest, loop seen (m :: rest) = do
      let found ← signature pool valid seen m
      check found m
      loop (found :: seen) rest)
    (reads : ∀ text, valid text = true ↔ type text.toList)
    (checked : ∀ found m, check found m = .ok () ↔ Good m) :
    loop seen ms = .ok () ↔ (∀ m ∈ ms, m.Declares pool type) ∧
      (∀ m ∈ ms, ∀ found ∈ seen, m.signature pool ≠ found.map some some) ∧
      ms.Pairwise (fun m m' => m.signature pool ≠ m'.signature pool) ∧ ∀ m ∈ ms, Good m := by
  have injective {a b : String × String} (same : a.map some some = b.map some some) : a = b :=
    Prod.ext (Option.some.inj (congrArg Prod.fst same)) (Option.some.inj (congrArg Prod.snd same))
  -- The members that are still to come must differ from those seen, to which each one is added.
  induction ms generalizing seen with
  | nil => simp [nil]
  | cons m rest ih =>
    rw [cons, Except.bind_eq_ok]
    simp only [Except.check_bind_eq_ok, checked, signature_eq_ok, ih, List.forall_mem_cons,
      List.pairwise_cons, reads, declares_iff (m := m)]
    constructor
    · rintro ⟨found, ⟨signed, isType, new⟩, good, declare, fresh, distinct, goods⟩
      refine ⟨⟨⟨found, signed, isType⟩, declare⟩, ⟨fun other member same => new ?_, ?_⟩,
        ⟨fun m' member => ?_, distinct⟩, good, goods⟩
      · rwa [injective (signed.symm.trans same)]
      · exact fun m' member => (fresh m' member).2
      · exact signed ▸ (fresh m' member).1.symm
    · rintro ⟨⟨⟨found, signed, isType⟩, declare⟩, ⟨new, fresh⟩, ⟨other, distinct⟩, good, goods⟩
      refine ⟨found, ⟨signed, isType, fun member => new found member signed⟩, good, declare,
        fun m' member => ⟨?_, fresh m' member⟩, distinct, goods⟩
      exact signed ▸ (other m' member).symm

theorem fields_eq_ok : fields pool [] ms = .ok () ↔
    (∀ m ∈ ms, m.Declares pool Descriptor.FieldType) ∧
      ms.Pairwise fun m m' => m.signature pool ≠ m'.signature pool := by
  rw [members_eq_ok (fields pool) (fun _ _ => pure ()) (fun _ => rfl) (fun _ _ _ => rfl)
    (fun _ => Descriptor.isField_iff) (fun _ _ => iff_of_true rfl trivial)]
  simp

theorem methods_eq_ok : methods pool [] ms = .ok () ↔
    (∀ m ∈ ms, m.Declares pool Descriptor.MethodType) ∧
      (ms.Pairwise fun m m' => m.signature pool ≠ m'.signature pool) ∧
      ∀ m ∈ ms, m.SoundBody pool := by
  rw [members_eq_ok (methods pool) (fun found => method (found.1 ++ found.2) pool) (fun _ => rfl)
    (fun _ _ _ => rfl) (fun _ => Descriptor.isMethod_iff) (fun _ _ => method_eq_ok)]
  simp

end Verify

/-! ### The class -/

namespace Pool

theorem get?_zero : pool.get? 0 = none := by
  obtain ⟨entries, layout⟩ := pool.laidOut
  rw [get?, ← Array.getElem?_toList, layout]
  rfl

theorem NamesClass.eq {name name' : String} (named : pool.NamesClass index name)
    (named' : pool.NamesClass index name') : name = name' := by
  rw [← className?_eq_some] at named named'
  exact Option.some.inj (named.symm.trans named')

end Pool

namespace ClassFile

variable {c : ClassFile}

theorem verifySuper_eq_ok {name : String} (named : c.pool.NamesClass c.thisClass name) :
    c.verifySuper name = .ok () ↔ (∃ super, c.pool.NamesClass c.superClass super) ∨
      c.superClass = 0 ∧ c.pool.NamesClass c.thisClass objectName := by
  unfold verifySuper
  split
  · next none =>
    -- No entry has the index 0, so no class stands there after all.
    have noSuper : ¬∃ super, c.pool.NamesClass c.superClass super := by
      rintro ⟨super, text, found, -⟩
      rw [none, Pool.get?_zero] at found
      cases found
    rw [Except.guard_eq_ok, not_not, or_iff_right noSuper, and_iff_right none]
    exact ⟨fun same => same ▸ named, named.eq⟩
  · next some =>
    simp only [Except.bind_eq_ok, Pool.expectClass_eq_ok, Except.pure_eq_ok, and_true, some,
      false_and, or_false]

/-- The verifier makes its checks one after the other. -/
theorem verify_eq_ok : c.verify = .ok () ↔ c.pool.verify = .ok () ∧
    ∃ name, c.pool.NamesClass c.thisClass name ∧ c.verifySuper name = .ok () ∧
      (∀ index ∈ c.interfaces, ∃ name, c.pool.NamesClass index name) ∧
      Verify.fields c.pool [] c.fields = .ok () ∧ Verify.methods c.pool [] c.methods = .ok () := by
  rw [verify, Except.check_bind_eq_ok, Except.bind_eq_ok]
  simp only [Except.check_bind_eq_ok, Except.forM_eq_ok, Pool.expectClass_eq_ok]
  simp only [Except.bind_eq_ok, Pool.expectClass_eq_ok, Except.pure_eq_ok, and_true]

theorem sound_of_verify (verified : c.verify = .ok ()) : c.Sound := by
  obtain ⟨pool, name, named, super, interfaces, fields, methods⟩ := verify_eq_ok.mp verified
  obtain ⟨fields, distinctFields⟩ := Verify.fields_eq_ok.mp fields
  obtain ⟨methods, distinctMethods, bodies⟩ := Verify.methods_eq_ok.mp methods
  exact {
    interfaces, fields, methods, distinctFields, distinctMethods, bodies
    entries := Pool.verify_eq_ok.mp pool
    thisClass := ⟨name, named⟩
    superClass := (verifySuper_eq_ok named).mp super }

/-- A class file is accepted exactly if it obeys the rules. -/
theorem verify_accepts_exactly_sound (c : ClassFile) : c.verify = .ok () ↔ c.Sound := by
  refine ⟨sound_of_verify, fun sound => ?_⟩
  rw [verify_eq_ok, Pool.verify_eq_ok, Verify.fields_eq_ok, Verify.methods_eq_ok]
  obtain ⟨name, named⟩ := sound.thisClass
  exact ⟨sound.entries, name, named, (verifySuper_eq_ok named).mpr sound.superClass,
    sound.interfaces, ⟨sound.fields, sound.distinctFields⟩, sound.methods,
    sound.distinctMethods, sound.bodies⟩

end ClassFile

end ClassBench
