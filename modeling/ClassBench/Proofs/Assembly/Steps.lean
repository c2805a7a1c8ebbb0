import ClassBench.Proofs.Assembly.Emission
import ClassBench.Proofs.ClassFile.Body

/-! What the steps of assembling a class make of it.  A step adds to the pool and to the class, and
what it has added is told by the names that it was given, as they are found in the pool when the
class is finished. -/

namespace ClassBench

/-- A method has this body, which is these instructions, none of which jumps and all of which are
sound in the pool. -/
structure Member.Straight (q : Pool) (m : Member) (code : Code) (is : List Instruction) :
    Prop where
  body : m.attribute? q codeName = some code.encode
  read : Code.decode code.encode = .ok code
  length : code.code.length ≤ 65535
  tiles : Instruction.Tiles 0 code.code is
  jumps : ∀ i ∈ is, ∀ distance, ¬i.Leads distance
  locals : ∀ i ∈ is, ∀ index, i.UsesLocal index → index < code.maxLocals
  entries : ∀ i ∈ is, ∀ index, i.poolIndex? = some index → q.Holds i.opcode.operandKinds index

namespace Member.Straight

variable {q : Pool} {m : Member} {code : Code} {is : List Instruction}

theorem code?_eq (straight : m.Straight q code is) : m.code? q = .ok (some code) :=
  code?_eq_some.mpr ⟨code.encode, straight.body, straight.read⟩

theorem split_eq (straight : m.Straight q code is) : Instruction.split code.code = .ok is :=
  Instruction.split_eq_ok.mpr straight.tiles

/-- Instructions that end without passing control on are a sound body. -/
theorem sound (straight : m.Straight q code is) {last : Instruction}
    (ends : is.getLast? = some last) (terminates : last.opcode.isTerminator = true) :
    code.Sound q where
  length := by
    refine ⟨straight.tiles.length_pos ?_, straight.length⟩
    rintro rfl
    cases ends
  row := by
    refine ⟨is, straight.tiles, ?_, straight.locals, straight.entries, ?_⟩
    · exact fun i member d leads => absurd leads (straight.jumps i member d)
    · rintro other same
      obtain rfl := Option.some.inj (ends.symm.trans same)
      exact terminates

theorem soundBody (straight : m.Straight q code is) {last : Instruction}
    (ends : is.getLast? = some last) (terminates : last.opcode.isTerminator = true)
    (concrete : Access.has m.access (Access.isAbstract ||| Access.isNative) = false) :
    m.SoundBody q := by
  rw [soundBody_iff, concrete, if_neg Bool.false_ne_true]
  exact ⟨code, straight.code?_eq, straight.sound ends terminates⟩

end Member.Straight

/-- A class begins with entries for its name and for that of its super class. -/
theorem ClassFile.interns_new (name super : String) : Pool.Interns (fun _ => True)
    (do
      let this ← Pool.classRef name
      let above ← Pool.classRef super
      return (this, above))
    fun q r => q.NamesClass r.1 name ∧ q.NamesClass r.2 super :=
  (Pool.Interns.classRef name).bind fun _ => (Pool.Interns.classRef super).bind fun _ =>
    .pure _ fun ⟨⟨_, this⟩, above⟩ => ⟨this, above⟩

namespace Assembly

/-- A step only adds to the pool of the class, and entries only that are linked in every pool of
allowed size that the pool grows to; and in such a pool the class before the step, the answer and
the class after it are related. -/
structure Makes {α : Type} (step : Assembly α) (turns : Pool → ClassFile → α → ClassFile → Prop) :
    Prop where
  growing : ∀ c : ClassFile, c.pool.Grows (step c).2.pool
  linked : ∀ {c : ClassFile} {q : Pool}, (step c).2.pool.Grows q → q.slots.size ≤ 65535 →
    c.pool.LinkedIn q → (step c).2.pool.LinkedIn q
  turns : ∀ {c : ClassFile} {q : Pool}, (step c).2.pool.Grows q → q.slots.size ≤ 65535 →
    turns q c (step c).1 (step c).2

variable {α β : Type} {step : Assembly α} {next : α → Assembly β}
  {turns turns' : Pool → ClassFile → α → ClassFile → Prop}
  {after : α → Pool → ClassFile → β → ClassFile → Prop}

theorem Makes.bind (first : Makes step turns) (second : ∀ a, Makes (next a) (after a)) :
    Makes (step >>= next) fun q c b c'' => ∃ a c', turns q c a c' ∧ after a q c' b c'' where
  growing c := (first.growing c).trans ((second _).growing _)
  linked later few linked :=
    (second _).linked later few (first.linked (((second _).growing _).trans later) few linked)
  turns later few :=
    ⟨_, _, first.turns (((second _).growing _).trans later) few, (second _).turns later few⟩

theorem Makes.mono (makes : Makes step turns)
    (weaker : ∀ q c a c', turns q c a c' → turns' q c a c') : Makes step turns' where
  growing := makes.growing
  linked := makes.linked
  turns later few := weaker _ _ _ _ (makes.turns later few)

theorem makes_pure (a : α) : Makes (pure a) fun _ c a' c' => a' = a ∧ c' = c where
  growing c := .refl c.pool
  linked _ _ linked := linked
  turns _ _ := ⟨rfl, rfl⟩

theorem makes_modify {change : ClassFile → ClassFile} (kept : ∀ c, (change c).pool = c.pool) :
    Makes (modify change) fun _ c _ c' => c' = change c where
  growing c := by
    show c.pool.Grows (change c).pool
    rw [kept]
    exact .refl _
  linked {c q} _ _ linked := by
    show (change c).pool.LinkedIn q
    rw [kept]
    exact linked
  turns _ _ := rfl

theorem makes_onPool {intern : StateM Pool α} {means : Pool → α → Prop}
    (interns : Pool.Interns (fun _ => True) intern means) :
    Makes (onPool intern) fun q c a c' => means q a ∧ ∃ pool, c' = { c with pool } where
  growing c := interns.growing c.pool
  linked later few linked := interns.linked later few trivial linked
  turns later few := ⟨interns.tells later few trivial, _, rfl⟩

/-! ### Members -/

theorem addInterface_eq (name : String) (c : ClassFile) : ∃ interfaces,
    (addInterface name c).2 = { c with pool := (Pool.classRef name c.pool).2, interfaces } ∧
      ((Pool.classRef name c.pool).1 ∈ c.interfaces ∧ interfaces = c.interfaces ∨
        (Pool.classRef name c.pool).1 ∉ c.interfaces ∧
          interfaces = c.interfaces ++ [(Pool.classRef name c.pool).1]) := by
  show ∃ interfaces, (if c.interfaces.contains (Pool.classRef name c.pool).1 then
    { c with pool := (Pool.classRef name c.pool).2 } else _) = _ ∧ _
  split
  · next known => exact ⟨c.interfaces, rfl, .inl ⟨List.contains_iff_mem.mp known, rfl⟩⟩
  · next new => exact ⟨_, rfl, .inr ⟨by simpa using new, rfl⟩⟩

/-- An interface, behind those declared before unless it is one of them. -/
theorem makes_addInterface (name : String) : Makes (addInterface name) fun q c _ c' =>
    ∃ index pool interfaces, c' = { c with pool, interfaces } ∧ q.NamesClass index name ∧
      ∀ i, i ∈ interfaces ↔ i ∈ c.interfaces ∨ i = index := by
  refine ((makes_onPool (.classRef name)).bind fun index => makes_modify fun c => ?_).mono ?_
  · split <;> rfl
  · rintro q c _ c' ⟨index, _, ⟨named, pool, rfl⟩, rfl⟩
    split
    · next known =>
      refine ⟨index, pool, c.interfaces, rfl, named, fun i => ?_⟩
      rw [List.contains_iff_mem] at known
      exact ⟨.inl, fun either => either.elim id fun same => same ▸ known⟩
    · exact ⟨index, pool, c.interfaces ++ [index], rfl, named, by simp⟩

theorem makes_addField (access : UInt16) (name descriptor : String) :
    Makes (addField access name descriptor) fun q c _ c' =>
      ∃ m pool, c' = { c with pool, fields := c.fields ++ [m] } ∧ m.access = access ∧
        m.signature q = (some name, some descriptor) := by
  refine ((makes_onPool (.utf8 name)).bind fun n =>
    (makes_onPool (.utf8 descriptor)).bind fun d => makes_modify fun _ => ?_).mono ?_
  · rfl
  · rintro q c _ c' ⟨n, _, ⟨foundN, _, rfl⟩, d, _, ⟨foundD, pool, rfl⟩, rfl⟩
    exact ⟨⟨access, n, d, []⟩, pool, rfl, rfl,
      Prod.ext (Pool.utf8?_eq_some.mpr foundN) (Pool.utf8?_eq_some.mpr foundD)⟩

theorem makes_addAbstractMethod (access : UInt16) (name descriptor : String) :
    Makes (addAbstractMethod access name descriptor) fun q c _ c' =>
      ∃ m pool, c' = { c with pool, methods := c.methods ++ [m] } ∧
        m.access = access ||| Access.isAbstract ∧
        m.signature q = (some name, some descriptor) ∧ m.attributes = [] := by
  refine ((makes_onPool (.utf8 name)).bind fun n =>
    (makes_onPool (.utf8 descriptor)).bind fun d => makes_modify fun _ => ?_).mono ?_
  · rfl
  · rintro q c _ c' ⟨n, _, ⟨foundN, _, rfl⟩, d, _, ⟨foundD, pool, rfl⟩, rfl⟩
    exact ⟨⟨_, n, d, []⟩, pool, rfl, rfl,
      Prod.ext (Pool.utf8?_eq_some.mpr foundN) (Pool.utf8?_eq_some.mpr foundD), rfl⟩

theorem makes_addMethod (access : UInt16) (name descriptor : String) (code : Code) :
    Makes (addMethod access name descriptor code) fun q c _ c' =>
      ∃ m pool, c' = { c with pool, methods := c.methods ++ [m] } ∧ m.access = access ∧
        m.signature q = (some name, some descriptor) ∧
        m.attribute? q codeName = some code.encode := by
  refine ((makes_onPool (.utf8 name)).bind fun n => (makes_onPool (.utf8 descriptor)).bind fun d =>
    (makes_onPool (.utf8 codeName)).bind fun b => makes_modify fun _ => ?_).mono ?_
  · rfl
  · rintro q c _ c' ⟨n, _, ⟨foundN, _, rfl⟩, d, _, ⟨foundD, _, rfl⟩, b, _, ⟨foundB, pool, rfl⟩, rfl⟩
    refine ⟨⟨access, n, d, [⟨b, code.encode⟩]⟩, pool, rfl, rfl,
      Prod.ext (Pool.utf8?_eq_some.mpr foundN) (Pool.utf8?_eq_some.mpr foundD), ?_⟩
    simp [Member.attribute?, Pool.utf8?_eq_some.mpr foundB]

theorem length_lineTable (d : MethodDraft) : d.lineTable.length = 2 + 4 * d.lines.size := by
  simp [MethodDraft.lineTable, Bytes.counted, List.length_flatMap, List.map_const', Nat.mul_comm]

theorem makes_lineAttributes (d : MethodDraft) : Makes d.lineAttributes fun _ c attributes c' =>
    (2 + 4 * d.lines.size < UInt32.size → Attribute.AllFit attributes) ∧
      ∃ pool, c' = { c with pool } := by
  unfold MethodDraft.lineAttributes
  split
  · refine (makes_pure _).mono ?_
    rintro q c attributes c' ⟨rfl, rfl⟩
    exact ⟨fun _ => ⟨Nat.zero_le _, by simp⟩, _, rfl⟩
  · refine ((makes_onPool (.utf8 "LineNumberTable")).bind fun _ => makes_pure _).mono ?_
    rintro q c attributes c' ⟨name, _, ⟨-, pool, rfl⟩, rfl, rfl⟩
    refine ⟨fun few => ⟨by simp, List.forall_mem_singleton.mpr ?_⟩, pool, rfl⟩
    rwa [Attribute.Fits, length_lineTable]

/-! ### Methods that are drafted -/

theorem makes_addTo (d : MethodDraft) : Makes d.addTo fun q c _ c' =>
    ∃ m pool, ∃ code : Code, c' = { c with pool, methods := c.methods ++ [m] } ∧
      m.access = d.access ∧ m.signature q = (some d.name, some d.descriptor) ∧
      m.attribute? q codeName = some code.encode ∧ code.maxLocals = d.maxLocals ∧
      code.code = d.code.toList ∧
      (d.code.size ≤ 65535 → 2 + 4 * d.lines.size < UInt32.size →
        Code.decode code.encode = .ok code) := by
  refine ((makes_lineAttributes d).bind fun attributes => makes_addMethod _ _ _ _).mono ?_
  rintro q c _ c' ⟨attributes, _, ⟨fit, _, rfl⟩, m, pool, rfl, access, signed, body⟩
  refine ⟨m, pool, _, rfl, access, signed, body, rfl, rfl, fun short few => ?_⟩
  refine Code.decodes_encode ⟨?_, Nat.zero_le _, fit few⟩
  exact Nat.lt_of_le_of_lt (by simpa using short) (by decide)

/-- Writes a method by steps on its draft, and adds it unless it is refused. -/
def draftMethod (access : UInt16) (name descriptor : String) (steps : Drafting Unit) :
    Assembly (Except BuildError Unit) := fun c =>
  match MethodDraft.start c access name descriptor with
  | .ok draft => (steps draft).2.finish
  | .error error => (.error error, c)

theorem start_eq_ok {c : ClassFile} {access : UInt16} {name descriptor : String} {d : MethodDraft}
    (started : MethodDraft.start c access name descriptor = .ok d) :
    ∃ maxLocals, d = { owner := c, access, name, descriptor, maxLocals } := by
  unfold MethodDraft.start at started
  split at started
  · exact ⟨_, (Except.ok.inj started).symm⟩
  · cases started

/-- A method is refused for its descriptor or for its length, or it is added as it was drafted. -/
theorem draftMethod_cases (access : UInt16) (name descriptor : String) (steps : Drafting Unit)
    (c : ClassFile) :
    (∃ e, draftMethod access name descriptor steps c = (.error e, c)) ∨
    ∃ maxLocals, ∃ d, d = (steps { owner := c, access, name, descriptor, maxLocals }).2 ∧
      ((∃ e, draftMethod access name descriptor steps c = (.error e, d.owner)) ∨
        d.code.size ≤ 65535 ∧
          draftMethod access name descriptor steps c = (.ok (), (d.addTo d.owner).2)) := by
  unfold draftMethod
  cases started : MethodDraft.start c access name descriptor with
  | error e => exact .inl ⟨e, rfl⟩
  | ok d =>
    obtain ⟨maxLocals, rfl⟩ := start_eq_ok started
    refine .inr ⟨maxLocals, _, rfl, ?_⟩
    simp only [MethodDraft.finish]
    split
    · exact .inl ⟨_, rfl⟩
    · next short => exact .inr ⟨Nat.le_of_not_lt short, rfl⟩

/-- What is written into the draft is the body of the method. -/
theorem makes_draftMethod {access : UInt16} {name descriptor : String} {steps : Drafting Unit}
    {good : Pool → List Instruction → Prop} (writes : Drafting.Writes steps good) :
    Makes (draftMethod access name descriptor steps) fun q c result c' => result = .ok () →
      ∃ m code is pool, c' = { c with pool, methods := c.methods ++ [m] } ∧ m.access = access ∧
        m.signature q = (some name, some descriptor) ∧ m.Straight q code is ∧ good q is where
  growing c := by
    rcases draftMethod_cases access name descriptor steps c with
      ⟨e, refused⟩ | ⟨maxLocals, d, rfl, ⟨e, refused⟩ | ⟨-, added⟩⟩
    · rw [refused]
      exact .refl _
    · rw [refused]
      exact writes.growing { owner := c, access, name, descriptor, maxLocals }
    · rw [added]
      exact (writes.growing { owner := c, access, name, descriptor, maxLocals }).trans
        ((makes_addTo _).growing _)
  linked {c q} later few linked := by
    rcases draftMethod_cases access name descriptor steps c with
      ⟨e, refused⟩ | ⟨maxLocals, d, rfl, ⟨e, refused⟩ | ⟨-, added⟩⟩
    · rw [refused]
      exact linked
    · rw [refused] at later ⊢
      obtain ⟨is, continues, -⟩ := writes.continues later few
      exact continues.linked linked
    · rw [added] at later ⊢
      obtain ⟨is, continues, -⟩ := writes.continues (((makes_addTo _).growing _).trans later) few
      exact (makes_addTo _).linked later few (continues.linked linked)
  turns {c q} later few := by
    rcases draftMethod_cases access name descriptor steps c with
      ⟨e, refused⟩ | ⟨maxLocals, d, drafted, ⟨e, refused⟩ | ⟨short, added⟩⟩
    · rw [refused]
      rintro ⟨⟩
    · rw [refused]
      rintro ⟨⟩
    · rw [added] at later ⊢
      rintro -
      have grown : d.owner.pool.Grows q := ((makes_addTo d).growing _).trans later
      obtain ⟨is, continues, holds⟩ := writes.continues (drafted ▸ grown) few
      rw [← drafted] at continues
      obtain ⟨m, pool, code, made, hAccess, signed, body, locals, written, read⟩ :=
        (makes_addTo d).turns later few
      -- The draft began empty and without lines, and the steps write code only.
      obtain ⟨bytes, appended, tiles⟩ := continues.code
      obtain ⟨pool', code', maxStack, maxLocals', same⟩ := continues.kept
      have noLines : d.lines = #[] := congrArg MethodDraft.lines same
      rw [List.nil_append, ← written] at appended
      have length : code.code.length ≤ 65535 := by simpa [written] using short
      refine ⟨m, code, is, pool, ?_, ?_, ?_,
        ⟨body, read short (by simp [noLines, UInt32.size]), length, ?_, continues.jumps, ?_,
          continues.entries⟩, holds⟩
      · rw [made, same]
      · rw [hAccess, same]
      · rw [signed, same]
      · exact appended ▸ tiles
      · exact locals ▸ continues.locals

end Assembly

end ClassBench
