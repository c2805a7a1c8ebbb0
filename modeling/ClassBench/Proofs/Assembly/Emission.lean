import ClassBench.Proofs.Assembly.Drafting
import ClassBench.Proofs.Constructor.Storing
import ClassBench.Proofs.Pool.Interning

/-! What the steps of a draft write.  Each step puts one whole instruction behind the code so far,
and what the instruction names in the pool is found there by the time the class is finished, when
the pool may have grown further. -/

namespace ClassBench

/-- Operands that neither lead anywhere nor name a local variable. -/
def Layout.isStraight : Layout → Bool
  | localIndex | increment | branch | longBranch | tableSwitch | lookupSwitch | wide => false
  | _ => true

theorem Opcode.shortLocal?_eq_none {op : Opcode} (other : op.layout ≠ .plain) :
    op.shortLocal? = none := by
  cases short : op.shortLocal? with
  | none => rfl
  | some index => exact absurd (Instruction.layout_of_shortLocal? short) other

/-- The number that an opcode pushes. -/
def Opcode.integer? : Opcode → Option Int32
  | iconst_m1 => some (-1)
  | iconst_0 => some 0
  | iconst_1 => some 1
  | iconst_2 => some 2
  | iconst_3 => some 3
  | iconst_4 => some 4
  | iconst_5 => some 5
  | _ => none

namespace Instruction

variable {i : Instruction} {index : UInt16} {distance : Int}

theorem not_leads (straight : i.opcode.layout.isStraight = true) : ¬i.Leads distance := by
  have branch : i.opcode.isBranch = false := by
    unfold Opcode.isBranch
    cases layout : i.opcode.layout <;> simp_all [Layout.isStraight]
  refine leads_of_other branch (Bool.eq_false_iff.mpr fun switch => ?_)
  rcases isSwitch_iff.mp switch with opcode | opcode <;> rw [opcode] at straight <;> cases straight

theorem not_usesLocal (straight : i.opcode.layout.isStraight = true)
    (short : i.opcode.shortLocal? = none) : ¬i.UsesLocal index := by
  rintro (operand | implied)
  · unfold localIndex? at operand
    split at operand <;> simp_all [Layout.isStraight]
  · rw [short] at implied
    cases implied

theorem not_usesLocal_branch (layout : i.opcode.layout = .branch) : ¬i.UsesLocal index := by
  rintro (operand | implied)
  · simp [localIndex?, layout] at operand
  · rw [Opcode.shortLocal?_eq_none (by rw [layout]; decide)] at implied
    cases implied

/-! ### What instructions say -/

/-- The instruction pushes the integer: by its opcode, as the number in its operands, or as an entry
of the pool. -/
inductive PushesInteger (q : Pool) (i : Instruction) (value : Int32) : Prop
  | short (opcode : i.opcode.integer? = some value)
  | immediate (opcode : i.opcode = .bipush ∨ i.opcode = .sipush)
      (operand : i.immediate? = some value.toInt)
  | entry {index : UInt16} (opcode : i.opcode = .ldc ∨ i.opcode = .ldc_w)
      (used : i.poolIndex? = some index) (found : q.get? index = some (.integer value))

/-- The instruction loads or stores the local variable at the index: in a short form, with the
index in a byte, or with the index in a word. -/
inductive IsAccess (i : Instruction) (access : LocalAccess) (index : UInt16) : Prop
  | short (mnemonic : i.opcode.mnemonic = access.opcode.mnemonic ++ "_" ++ toString index.toNat)
      (implied : i.opcode.shortLocal? = some index)
  | named (opcode : i.opcode = access.opcode) (operand : i.localIndex? = some index)
  | wide (opcode : i.opcode = .wide) (modified : i.operands.head? = some access.opcode.byte)
      (operand : i.localIndex? = some index)

namespace IsAccess

variable {access : LocalAccess}

theorem layout_cases (isAccess : i.IsAccess access index) : i.opcode.layout = .plain ∨
    i.opcode.layout = .localIndex ∨ i.opcode.layout = .wide := by
  cases isAccess with
  | short _ implied => exact .inl (layout_of_shortLocal? implied)
  | named opcode => exact .inr (.inl (by rw [opcode]; cases access <;> rfl))
  | wide opcode => exact .inr (.inr (by rw [opcode]; rfl))

theorem not_leads (isAccess : i.IsAccess access index) : ¬i.Leads distance := by
  have layouts := isAccess.layout_cases
  refine leads_of_other ?_ (Bool.eq_false_iff.mpr fun switch => ?_)
  · unfold Opcode.isBranch
    rcases layouts with layout | layout | layout <;> simp [layout]
  · rcases isSwitch_iff.mp switch with opcode | opcode
    · rw [opcode] at layouts
      rcases layouts with layout | layout | layout <;> cases layout
    · rw [opcode] at layouts
      rcases layouts with layout | layout | layout <;> cases layout

theorem poolIndex?_eq_none (isAccess : i.IsAccess access index) : i.poolIndex? = none := by
  unfold poolIndex?
  rcases isAccess.layout_cases with layout | layout | layout <;> rw [layout]

/-- There is no other local variable that the instruction uses. -/
theorem eq_of_usesLocal {other : UInt16} (isAccess : i.IsAccess access index)
    (uses : i.UsesLocal other) : other = index := by
  cases isAccess with
  | short _ implied =>
    rcases uses with operand | implied'
    · simp [localIndex?, layout_of_shortLocal? implied] at operand
    · exact Option.some.inj (implied'.symm.trans implied)
  | named opcode operand | wide opcode _ operand =>
    rcases uses with operand' | implied
    · exact Option.some.inj (operand'.symm.trans operand)
    · have layout := layout_of_shortLocal? implied
      rw [opcode] at layout
      cases access <;> cases layout

end IsAccess

theorem pushed?_of_load {q : Pool} (opcode : i.opcode = .ldc ∨ i.opcode = .ldc_w)
    (used : i.poolIndex? = some index) : i.pushed? q = Value.ofConstant? q index := by
  have pushed : i.pushed? q = i.poolIndex?.bind (Value.ofConstant? q) := by
    unfold pushed?
    rcases opcode with opcode | opcode <;> rw [opcode]
  rw [pushed, used, Option.bind_some]

theorem PushesInteger.pushed? {q : Pool} {value : Int32} (pushes : i.PushesInteger q value) :
    i.pushed? q = some (.int value) := by
  cases pushes with
  | short opcode =>
    unfold Opcode.integer? at opcode
    unfold Instruction.pushed?
    split at opcode <;> simp_all
  | immediate opcode operand =>
    unfold Instruction.pushed?
    rcases opcode with opcode | opcode <;> rw [opcode] <;>
      simp only [operand, Option.map_some, Int32.ofInt_toInt]
  | entry opcode used found =>
    rw [pushed?_of_load opcode used, Value.ofConstant?, found]

end Instruction

/-- From the one draft to the other this whole instruction was written behind the code. -/
structure MethodDraft.Emits (d d' : MethodDraft) (i : Instruction) : Prop where
  start : i.offset = d.code.size
  whole : i.Whole
  code : d'.code.toList = d.code.toList ++ i.bytes

/-- From the one draft to the other whole instructions were written behind the code, none of which
jumps and all of which are sound in the pool. -/
structure MethodDraft.Continues (q : Pool) (d d' : MethodDraft) (is : List Instruction) : Prop where
  code : ∃ bytes, d'.code.toList = d.code.toList ++ bytes ∧
    Instruction.Tiles d.code.size bytes is
  jumps : ∀ i ∈ is, ∀ distance, ¬i.Leads distance
  locals : ∀ i ∈ is, ∀ index, i.UsesLocal index → index < d'.maxLocals
  entries : ∀ i ∈ is, ∀ index, i.poolIndex? = some index → q.Holds i.opcode.operandKinds index
  reserved : d.maxLocals ≤ d'.maxLocals
  linked : d.owner.pool.LinkedIn q → d'.owner.pool.LinkedIn q
  kept : ∃ pool code maxStack maxLocals,
    d' = { d with owner := { d.owner with pool }, code, maxStack, maxLocals }

namespace MethodDraft.Continues

variable {q pool : Pool} {d d' d'' : MethodDraft} {is is' : List Instruction} {i : Instruction}
  {code : Array UInt8}

theorem emits (continues : Continues q d d' [i]) : d.Emits d' i := by
  obtain ⟨bytes, written, tiles⟩ := continues.code
  cases tiles with
  | cons start whole more =>
    cases more
    exact ⟨start, whole, by rw [written, List.append_nil]⟩

theorem nil (depth : UInt16) : Continues q d { d with maxStack := depth } [] where
  code := ⟨[], (List.append_nil _).symm, .nil⟩
  jumps := by simp
  locals := by simp
  entries := by simp
  reserved := UInt16.le_refl _
  linked := id
  kept := ⟨_, _, depth, _, rfl⟩

theorem append (first : Continues q d d' is) (second : Continues q d' d'' is') :
    Continues q d d'' (is ++ is') where
  code := by
    obtain ⟨bytes, written, tiles⟩ := first.code
    obtain ⟨bytes', written', tiles'⟩ := second.code
    have size : d'.code.size = d.code.size + bytes.length := by
      simpa using congrArg List.length written
    rw [size] at tiles'
    exact ⟨bytes ++ bytes', by rw [written', written, List.append_assoc], tiles.append tiles'⟩
  jumps i member := by
    rcases List.mem_append.mp member with earlier | later
    · exact first.jumps i earlier
    · exact second.jumps i later
  locals i member index uses := by
    rcases List.mem_append.mp member with earlier | later
    · exact UInt16.lt_of_lt_of_le (first.locals i earlier index uses) second.reserved
    · exact second.locals i later index uses
  entries i member := by
    rcases List.mem_append.mp member with earlier | later
    · exact first.entries i earlier
    · exact second.entries i later
  reserved := UInt16.le_trans first.reserved second.reserved
  linked := second.linked ∘ first.linked
  kept := by
    obtain ⟨_, _, _, _, rfl⟩ := first.kept
    obtain ⟨_, _, _, _, rfl⟩ := second.kept
    exact ⟨_, _, _, _, rfl⟩

/-- One instruction that leads nowhere. -/
theorem single {maxLocals : UInt16} (start : i.offset = d.code.size)
    (written : code.toList = d.code.toList ++ i.bytes) (whole : i.Whole)
    (jumps : ∀ distance, ¬i.Leads distance)
    (locals : ∀ index, i.UsesLocal index → index < maxLocals) (reserved : d.maxLocals ≤ maxLocals)
    (entries : ∀ index, i.poolIndex? = some index → q.Holds i.opcode.operandKinds index)
    (linked : d.owner.pool.LinkedIn q → pool.LinkedIn q) :
    Continues q d { d with owner := { d.owner with pool }, code, maxLocals } [i] where
  code := ⟨i.bytes, written, .single start whole⟩
  jumps := by simpa using jumps
  locals := by simpa using locals
  entries := by simpa using entries
  reserved := reserved
  linked := linked
  kept := ⟨pool, code, _, maxLocals, rfl⟩

/-- One instruction that neither leads anywhere nor uses a local variable. -/
theorem plain (start : i.offset = d.code.size) (written : code.toList = d.code.toList ++ i.bytes)
    (size : i.opcode.layout.size? = some i.operands.length)
    (straight : i.opcode.layout.isStraight = true) (short : i.opcode.shortLocal? = none)
    (entries : ∀ index, i.poolIndex? = some index → q.Holds i.opcode.operandKinds index)
    (linked : d.owner.pool.LinkedIn q → pool.LinkedIn q) :
    Continues q d { d with owner := { d.owner with pool }, code } [i] :=
  .single start written (.fixed size) (fun _ => Instruction.not_leads straight)
    (fun _ uses => absurd uses (Instruction.not_usesLocal straight short)) (UInt16.le_refl _)
    entries linked

end MethodDraft.Continues

namespace Drafting

open MethodDraft (Continues)

/-- A step writes instructions of which something is true in every pool of allowed size that the
pool grows to. -/
structure Writes (step : Drafting Unit) (good : Pool → List Instruction → Prop) : Prop where
  growing : ∀ d : MethodDraft, d.owner.pool.Grows (step d).2.owner.pool
  continues : ∀ {d q}, (step d).2.owner.pool.Grows q → q.slots.size ≤ 65535 →
    ∃ is, Continues q d (step d).2 is ∧ good q is

variable {step next : Drafting Unit} {good good' : Pool → List Instruction → Prop}

theorem Writes.seq (first : Writes step good) (second : Writes next good') :
    Writes (do step; next) fun q is => ∃ a b, is = a ++ b ∧ good q a ∧ good' q b where
  growing d := (first.growing d).trans (second.growing _)
  continues {d q} later few := by
    obtain ⟨a, before, goodA⟩ := first.continues ((second.growing _).trans later) few
    obtain ⟨b, after, goodB⟩ := second.continues later few
    exact ⟨a ++ b, before.append after, a, b, rfl, goodA, goodB⟩

theorem Writes.mono (writes : Writes step good) (weaker : ∀ q is, good q is → good' q is) :
    Writes step good' where
  growing := writes.growing
  continues later few := by
    obtain ⟨is, continues, holds⟩ := writes.continues later few
    exact ⟨is, continues, weaker _ _ holds⟩

theorem writes_none : Writes (pure ()) fun _ is => is = [] where
  growing d := .refl d.owner.pool
  continues {d _} _ _ := ⟨[], .nil d.maxStack, rfl⟩

theorem writes_setMaxStack (depth : UInt16) :
    Writes (setMaxStack depth) fun _ is => is = [] where
  growing d := .refl d.owner.pool
  continues _ _ := ⟨[], .nil depth, rfl⟩

/-- An instruction whose operands are known without the pool. -/
theorem writes_fixed {op : Opcode} {operands : Bytes}
    (written : ∀ d, ∃ code, (step d).2 = { d with code } ∧
      code.toList = d.code.toList ++ op.byte :: operands)
    (size : op.layout.size? = some operands.length) (straight : op.layout.isStraight = true)
    (short : op.shortLocal? = none)
    (unlinked : ∀ offset, (Instruction.mk offset op operands).poolIndex? = none) :
    Writes step fun _ is => ∃ i, is = [i] ∧ i.opcode = op ∧ i.operands = operands where
  growing d := by
    obtain ⟨code, same, -⟩ := written d
    rw [same]
    exact .refl _
  continues {d q} _ _ := by
    obtain ⟨code, same, written⟩ := written d
    rw [same]
    refine ⟨[⟨d.code.size, op, operands⟩], .plain rfl written size straight short ?_ id, _, rfl,
      rfl, rfl⟩
    simp [unlinked]

/-- An instruction without operands. -/
theorem writes_plain {op : Opcode} {b : UInt8} (byte : b = op.byte) (layout : op.layout = .plain)
    (short : op.shortLocal? = none) :
    Writes (emitU8 b) fun _ is => ∃ i, is = [i] ∧ i.opcode = op := by
  have written (d : MethodDraft) : ∃ code, (emitU8 b d).2 = { d with code } ∧
      code.toList = d.code.toList ++ op.byte :: [] := ⟨_, rfl, by simp [byte]⟩
  refine (writes_fixed written (by rw [layout]; rfl) (by rw [layout]; rfl) short ?_).mono ?_
  · intro offset
    simp only [Instruction.poolIndex?, layout]
  · rintro _ _ ⟨i, rfl, opcode, -⟩
    exact ⟨i, rfl, opcode⟩

/-- An instruction that names a pool entry in two bytes. -/
theorem writes_indexed {op : Opcode} {intern : StateM Pool UInt16} {means : Pool → UInt16 → Prop}
    (interns : Pool.Interns (fun _ => True) intern means) (layout : op.layout = .poolIndex)
    (kinds : ∀ {q index}, means q index → q.Holds op.operandKinds index) :
    Writes (do let index ← onPool intern; emit op; emitU16 index) fun q is =>
      ∃ i index, is = [i] ∧ i.opcode = op ∧ i.poolIndex? = some index ∧ means q index where
  growing d := interns.growing d.owner.pool
  continues {d q} later few := by
    let i : Instruction := ⟨d.code.size, op, Bytes.ofUInt16 (intern d.owner.pool).1⟩
    have index : i.poolIndex? = some (intern d.owner.pool).1 := by
      simp only [Instruction.poolIndex?, i, layout]
      exact Bytes.u16At?_length [] [] _
    have told := interns.tells later few trivial
    refine ⟨[i], .plain rfl ?_ ?_ ?_ ?_ ?_ (interns.linked later few trivial), i, _, rfl, rfl,
      index, told⟩
    · simp [Instruction.bytes, i]
    · rw [layout]
      rfl
    · rw [layout]
      rfl
    · exact Opcode.shortLocal?_eq_none (by rw [layout]; decide)
    · simpa [index] using kinds told

/-- A call of a method of a class. -/
theorem writes_call (kind : Call) (method : MemberRef) :
    Writes (call kind method) fun q is =>
      ∃ i, is = [i] ∧ i.opcode = kind.opcode ∧ i.poolIndex?.bind q.member? = some method := by
  have layout : kind.opcode.layout = .poolIndex := by cases kind <;> rfl
  have role : ConstantKind.methodRef ∈ kind.opcode.operandKinds := by cases kind <;> decide
  refine (writes_indexed (.methodRef method) layout fun ⟨_, _, _, here⟩ => ⟨_, here, role⟩).mono ?_
  rintro q is ⟨i, index, rfl, opcode, used, named, -⟩
  exact ⟨i, rfl, opcode, by rw [used, Option.bind_some, named]⟩

/-- A read or a write of a field. -/
theorem writes_accessField (kind : FieldAccess) (field : MemberRef) :
    Writes (accessField kind field) fun q is =>
      ∃ i, is = [i] ∧ i.opcode = kind.opcode ∧ i.poolIndex?.bind q.member? = some field := by
  have layout : kind.opcode.layout = .poolIndex := by cases kind <;> rfl
  have role : ConstantKind.fieldRef ∈ kind.opcode.operandKinds := by cases kind <;> decide
  refine (writes_indexed (.fieldRef field) layout fun ⟨_, _, _, here⟩ => ⟨_, here, role⟩).mono ?_
  rintro q is ⟨i, index, rfl, opcode, used, named, -⟩
  exact ⟨i, rfl, opcode, by rw [used, Option.bind_some, named]⟩

/-! ### Local variables -/

/-- The short forms of a load or a store count up from that for local variable 0. -/
theorem exists_shortForm (access : LocalAccess) {index : UInt16} (small : index ≤ 3) :
    ∃ op : Opcode, access.shortForm.byte + index.toUInt8 = op.byte ∧
      op.mnemonic = access.opcode.mnemonic ++ "_" ++ toString index.toNat ∧
      op.shortLocal? = some index := by
  have cases : index = 0 ∨ index = 1 ∨ index = 2 ∨ index = 3 := by
    simp only [UInt16.le_iff_toNat_le, ← UInt16.toNat_inj] at small ⊢
    simp at small ⊢
    omega
  cases access with
  | aload =>
    rcases cases with rfl | rfl | rfl | rfl
    · exact ⟨.aload_0, rfl, rfl, rfl⟩
    · exact ⟨.aload_1, rfl, rfl, rfl⟩
    · exact ⟨.aload_2, rfl, rfl, rfl⟩
    · exact ⟨.aload_3, rfl, rfl, rfl⟩
  | astore =>
    rcases cases with rfl | rfl | rfl | rfl
    · exact ⟨.astore_0, rfl, rfl, rfl⟩
    · exact ⟨.astore_1, rfl, rfl, rfl⟩
    · exact ⟨.astore_2, rfl, rfl, rfl⟩
    · exact ⟨.astore_3, rfl, rfl, rfl⟩
  | iload =>
    rcases cases with rfl | rfl | rfl | rfl
    · exact ⟨.iload_0, rfl, rfl, rfl⟩
    · exact ⟨.iload_1, rfl, rfl, rfl⟩
    · exact ⟨.iload_2, rfl, rfl, rfl⟩
    · exact ⟨.iload_3, rfl, rfl, rfl⟩

theorem toUInt16_toUInt8 {index : UInt16} (low : index ≤ 255) : index.toUInt8.toUInt16 = index := by
  rw [UInt16.le_iff_toNat_le] at low
  apply UInt16.toNat_inj.mp
  simp at low ⊢
  omega

/-- An access to a local variable takes a form that is for this variable, and the short one if there
is one. -/
theorem emits_accessLocal (access : LocalAccess) (index : UInt16) (d : MethodDraft) :
    ∃ i, d.Emits (accessLocal access index d).2 i ∧ i.IsAccess access index ∧
      (index ≤ 3 → i.opcode.byte = access.shortForm.byte + index.toUInt8) := by
  unfold accessLocal
  show ∃ i, d.Emits ((if index ≤ 3 then _ else _ : Drafting Unit) _).2 i ∧ _
  split
  · next small =>
    obtain ⟨op, byte, mnemonic, implied⟩ := exists_shortForm access small
    refine ⟨⟨d.code.size, op, []⟩, ⟨rfl, .fixed ?_, ?_⟩, .short mnemonic implied,
      fun _ => byte.symm⟩
    · rw [Instruction.layout_of_shortLocal? implied]
      rfl
    · show (d.code.push _).toList = _
      simp [Instruction.bytes, byte]
  · next large =>
    have layout : access.opcode.layout = .localIndex := by cases access <;> rfl
    split
    · next low =>
      refine ⟨⟨d.code.size, access.opcode, [index.toUInt8]⟩, ⟨rfl, .fixed ?_, ?_⟩,
        .named rfl ?_, fun small => absurd small large⟩
      · rw [layout]
        rfl
      · show ((d.code.push _).push _).toList = _
        simp [Instruction.bytes]
      · simp only [Instruction.localIndex?, layout]
        exact congrArg some (toUInt16_toUInt8 low)
    · refine ⟨⟨d.code.size, .wide, access.opcode.byte :: Bytes.ofUInt16 index⟩,
        ⟨rfl, .wide rfl rfl ?_, ?_⟩, .wide rfl rfl ?_, fun small => absurd small large⟩
      · cases access <;> rfl
      · show (Array.appendList ((d.code.push _).push _) (Bytes.ofUInt16 index)).toList = _
        simp [Instruction.bytes]
      · exact Bytes.u16At?_length [access.opcode.byte] [] index

/-- An access to a local variable other than the last one that there can be reserves it. -/
theorem writes_accessLocal (access : LocalAccess) {index : UInt16} (inside : index ≠ 65535) :
    Writes (accessLocal access index) fun _ is => ∃ i, is = [i] ∧
      (index ≤ 3 → i.opcode.byte = access.shortForm.byte + index.toUInt8) where
  growing d := by
    obtain ⟨code, same⟩ := accessLocal_eq access index d
    rw [same]
    exact .refl _
  continues {d q} _ _ := by
    obtain ⟨code, same⟩ := accessLocal_eq access index d
    obtain ⟨i, emits, isAccess, short⟩ := emits_accessLocal access index d
    rw [same] at emits ⊢
    refine ⟨[i], .single emits.start emits.code emits.whole (fun _ => isAccess.not_leads) ?_ ?_ ?_
      id, i, rfl, short⟩
    · intro other uses
      obtain rfl := isAccess.eq_of_usesLocal uses
      have := other.toNat_lt
      have : other.toNat ≠ 65535 := fun same => inside (UInt16.toNat_inj.mp same)
      have next : (other + 1).toNat = other.toNat + 1 := by
        rw [UInt16.toNat_add]
        simp
        omega
      rw [localsThrough, if_neg inside]
      grind [UInt16.max_def, UInt16.lt_iff_toNat_lt, UInt16.le_iff_toNat_le]
    · grind [UInt16.max_def]
    · simp [isAccess.poolIndex?_eq_none]

/-- The instance. -/
theorem writes_aload_zero :
    Writes (accessLocal .aload 0) fun q is => ∃ i, is = [i] ∧ i.pushed? q = some .this := by
  refine (writes_accessLocal .aload (by decide)).mono ?_
  rintro q _ ⟨⟨offset, op, operands⟩, rfl, short⟩
  have byte : op.byte = Opcode.aload_0.byte := short (by decide)
  have same := congrArg Opcode.ofByte? byte
  rw [Opcode.ofByte?_byte, Opcode.ofByte?_byte, Option.some.injEq] at same
  subst same
  exact ⟨_, rfl, rfl⟩

/-! ### Constants -/

/-- A load of a constant of the pool, whose index takes one byte or two. -/
theorem emits_loadConstant (index : UInt16) (d : MethodDraft) :
    ∃ i, d.Emits (loadConstant index d).2 i ∧ (i.opcode = .ldc ∨ i.opcode = .ldc_w) ∧
      i.poolIndex? = some index := by
  unfold loadConstant
  split
  · next low =>
    refine ⟨⟨d.code.size, .ldc, [index.toUInt8]⟩, ⟨rfl, .fixed rfl, ?_⟩, .inl rfl,
      congrArg some (toUInt16_toUInt8 low)⟩
    show ((d.code.push _).push _).toList = _
    simp [Instruction.bytes]
  · refine ⟨⟨d.code.size, .ldc_w, Bytes.ofUInt16 index⟩, ⟨rfl, .fixed rfl, ?_⟩, .inr rfl,
      Bytes.u16At?_length [] [] _⟩
    show (Array.appendList (d.code.push _) (Bytes.ofUInt16 index)).toList = _
    simp [Instruction.bytes]

theorem writes_loadConstant {intern : StateM Pool UInt16} {means : Pool → UInt16 → Prop}
    (interns : Pool.Interns (fun _ => True) intern means)
    (kinds : ∀ {q index}, means q index → q.Holds Opcode.ldc.operandKinds index) :
    Writes (do let index ← onPool intern; loadConstant index) fun q is =>
      ∃ i index, is = [i] ∧ (i.opcode = .ldc ∨ i.opcode = .ldc_w) ∧ i.poolIndex? = some index ∧
        means q index where
  growing d := by
    show d.owner.pool.Grows (loadConstant (intern d.owner.pool).1 (onPool intern d).2).2.owner.pool
    obtain ⟨code, same⟩ := loadConstant_eq (intern d.owner.pool).1 (onPool intern d).2
    exact same ▸ interns.growing d.owner.pool
  continues {d q} later few := by
    change Pool.Grows (loadConstant (intern d.owner.pool).1 (onPool intern d).2).2.owner.pool q
      at later
    change ∃ is, Continues q d (loadConstant (intern d.owner.pool).1 (onPool intern d).2).2 is ∧ _
    obtain ⟨code, same⟩ := loadConstant_eq (intern d.owner.pool).1 (onPool intern d).2
    obtain ⟨i, emits, form, used⟩ :=
      emits_loadConstant (intern d.owner.pool).1 (onPool intern d).2
    rw [same] at later emits ⊢
    have told := interns.tells later few trivial
    have straight : i.opcode.layout.isStraight = true := by
      rcases form with form | form <;> rw [form] <;> rfl
    have short : i.opcode.shortLocal? = none := by
      rcases form with form | form <;> rw [form] <;> rfl
    have role : i.opcode.operandKinds = Opcode.ldc.operandKinds := by
      rcases form with form | form <;> rw [form]
      rfl
    refine ⟨[i], .single emits.start emits.code emits.whole
      (fun _ => Instruction.not_leads straight)
      (fun _ uses => absurd uses (Instruction.not_usesLocal straight short)) (UInt16.le_refl _) ?_
      (interns.linked later few trivial), i, _, rfl, form, used, told⟩
    simpa [used, role] using kinds told

/-- A string, by way of an entry that leads to its text. -/
theorem writes_loadString (text : String) :
    Writes (ldcString text) fun q is => ∃ i index, is = [i] ∧
      (i.opcode = .ldc ∨ i.opcode = .ldc_w) ∧ i.poolIndex? = some index ∧
      ∃ at', q.get? index = some (.string at') ∧ q.get? at' = some (.utf8 text) := by
  have role : ConstantKind.string ∈ Opcode.ldc.operandKinds := by decide
  exact writes_loadConstant (.string text) fun ⟨_, here, _⟩ => ⟨_, here, role⟩

theorem writes_ldcString (text : String) :
    Writes (ldcString text) fun q is => ∃ i, is = [i] ∧ i.pushed? q = some (.string text) := by
  refine (writes_loadString text).mono ?_
  rintro q _ ⟨i, index, rfl, opcode, used, at', here, found⟩
  refine ⟨i, rfl, ?_⟩
  rw [Instruction.pushed?_of_load opcode used]
  simp only [Value.ofConstant?, here, Pool.utf8?_eq_some.mpr found, Option.map_some]

/-- The opcode that pushes a number from -1 to 5. -/
theorem exists_smallConstant {value : Int32} (range : -1 ≤ value ∧ value ≤ 5) :
    ∃ op : Opcode, Opcode.iconst_0.byte + value.toInt8.toUInt8 = op.byte ∧ op.layout = .plain ∧
      op.shortLocal? = none ∧ op.integer? = some value := by
  have cases : value = -1 ∨ value = 0 ∨ value = 1 ∨ value = 2 ∨ value = 3 ∨ value = 4 ∨
      value = 5 := by
    simp only [Int32.le_iff_toInt_le, ← Int32.toInt_inj] at range ⊢
    simp at range ⊢
    omega
  rcases cases with rfl | rfl | rfl | rfl | rfl | rfl | rfl
  · exact ⟨.iconst_m1, by decide, rfl, rfl, rfl⟩
  · exact ⟨.iconst_0, by decide, rfl, rfl, rfl⟩
  · exact ⟨.iconst_1, by decide, rfl, rfl, rfl⟩
  · exact ⟨.iconst_2, by decide, rfl, rfl, rfl⟩
  · exact ⟨.iconst_3, by decide, rfl, rfl, rfl⟩
  · exact ⟨.iconst_4, by decide, rfl, rfl, rfl⟩
  · exact ⟨.iconst_5, by decide, rfl, rfl, rfl⟩

theorem toInt_toInt8 {value : Int32} (range : -128 ≤ value ∧ value ≤ 127) :
    value.toInt8.toInt = value.toInt := by
  have range : -128 ≤ value.toInt ∧ value.toInt ≤ 127 := by
    simpa [Int32.le_iff_toInt_le] using range
  rw [Int32.toInt_toInt8]
  exact Int.bmod_eq_of_le (by omega) (by omega)

theorem toInt_toInt16 {value : Int32} (range : -32768 ≤ value ∧ value ≤ 32767) :
    value.toInt16.toInt = value.toInt := by
  have range : -32768 ≤ value.toInt ∧ value.toInt ≤ 32767 := by
    simpa [Int32.le_iff_toInt_le] using range
  rw [Int32.toInt_toInt16]
  exact Int.bmod_eq_of_le (by omega) (by omega)

/-- An integer, in the form that is the shortest for it. -/
theorem writes_integer (value : Int32) :
    Writes (iconst value) fun q is => ∃ i, is = [i] ∧ i.PushesInteger q value := by
  unfold iconst
  split
  · next small =>
    obtain ⟨op, byte, layout, short, pushes⟩ := exists_smallConstant small
    refine (writes_plain byte layout short).mono ?_
    rintro q _ ⟨i, rfl, rfl⟩
    exact ⟨i, rfl, .short pushes⟩
  · split
    · next byte =>
      have step : Writes (do emit .bipush; emitU8 value.toInt8.toUInt8) fun _ is =>
          ∃ i, is = [i] ∧ i.opcode = .bipush ∧ i.operands = [value.toInt8.toUInt8] :=
        writes_fixed (fun d => ⟨_, rfl, by simp⟩) rfl rfl rfl fun _ => rfl
      refine step.mono ?_
      rintro q _ ⟨⟨offset, _, _⟩, rfl, rfl, rfl⟩
      refine ⟨_, rfl, .immediate (.inl rfl) ?_⟩
      show some value.toInt8.toUInt8.toInt8.toInt = _
      rw [Int8.toInt8_toUInt8, toInt_toInt8 byte]
    · split
      · next short =>
        have step : Writes (do emit .sipush; emitI16 value.toInt16) fun _ is =>
            ∃ i, is = [i] ∧ i.opcode = .sipush ∧
              i.operands = Bytes.ofUInt16 value.toInt16.toUInt16 :=
          writes_fixed (fun d => ⟨_, rfl, by simp⟩) rfl rfl rfl fun _ => rfl
        refine step.mono ?_
        rintro q _ ⟨⟨offset, _, _⟩, rfl, rfl, rfl⟩
        refine ⟨_, rfl, .immediate (.inr rfl) ?_⟩
        have word : Bytes.u16At? (Bytes.ofUInt16 value.toInt16.toUInt16) 0 =
          some value.toInt16.toUInt16 := Bytes.u16At?_length [] [] _
        simp only [Instruction.immediate?, Opcode.layout, word, Option.map_some,
          Int16.toInt16_toUInt16, toInt_toInt16 short]
      · have role : ConstantKind.integer ∈ Opcode.ldc.operandKinds := by decide
        refine (writes_loadConstant (.integer value) fun here => ⟨_, here, role⟩).mono ?_
        rintro q _ ⟨i, index, rfl, opcode, used, found⟩
        exact ⟨i, rfl, .entry opcode used found⟩

theorem writes_iconst (value : Int32) :
    Writes (iconst value) fun q is => ∃ i, is = [i] ∧ i.pushed? q = some (.int value) := by
  refine (writes_integer value).mono ?_
  rintro q _ ⟨i, rfl, pushes⟩
  exact ⟨i, rfl, pushes.pushed?⟩

end Drafting

end ClassBench
