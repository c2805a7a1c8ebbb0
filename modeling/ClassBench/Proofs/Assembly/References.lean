import ClassBench.Proofs.Assembly.Mentions
import ClassBench.Proofs.ClassFile.Reencoding
import ClassBench.Proofs.Pool.Scan

/-! What is found in the bytes of a class that was made.  The scan of the bytes finds the classes of
the pool, which for a class that is written stand under the names that they have; and the pool has
the classes that were mentioned while the class was made.  So a made class refers to its own name,
to what it extends and implements, and to what its members name, and to nothing else. -/

namespace ClassBench

/-! ### A class that is written -/

namespace ClassFile

variable {c : ClassFile} {text : String}

theorem poolLayout_encode (fits : c.pool.Fits) : c.PoolLayout c.encode c.pool.count := by
  rw [encode_eq]
  exact poolLayout_of_spells (Pool.spells_encode fits.texts)
    (Pool.runs_count_iff.mpr (Pool.counted_of_few fits.slots))

/-- A text stands in the bytes that are written as it is encoded. -/
theorem rawText?_encode (fits : c.pool.Fits) {slot : UInt16}
    (found : c.pool.get? slot = some (.utf8 text)) :
    c.rawText? c.encode slot = some (ModifiedUtf8.encode text) := by
  have layout := poolLayout_encode fits
  have rows := (RawEntry.flatMap_bytes_eq layout.denote).mp (layout.encode_eq_iff.mp rfl).2
  have both : List.Forall₂ (fun e d => e.Denotes d ∧ e.bytes = d.encode) (c.rawEntries c.encode)
      c.pool.entries := List.Forall₂.mp (fun _ _ => And.intro) layout.denote rows
  have here := rel_rawSlot? both (fun _ _ rel => rel.1) slot
  rw [found] at here
  unfold rawText?
  generalize c.rawSlot? c.encode slot = raw at here
  cases here with
  | some rel => exact rel.1.bytes_eq_iff.mp rel.2 text rfl

/-- The scan of a class that is written finds exactly the classes of its pool. -/
theorem references_encode (fits : c.pool.Fits) (symbol : String) :
    references c.encode symbol = true ↔ c.pool.Mentions c.pool.entries symbol := by
  rw [(poolLayout_encode fits).references_of_few fits.slots, Pool.mentions_entries fits.slots]
  refine exists_congr fun slot => ?_
  constructor
  · rintro ⟨_, -, named, -⟩
    exact named
  · intro named
    obtain ⟨name, isClass, found⟩ := Pool.className?_eq_some.mp named
    exact ⟨name, isClass, named, rawText?_encode fits found⟩

end ClassFile

/-! ### A class that is made -/

namespace Synthesizer

open Pool (Accrues)

variable {raw : List Constant} {names : List String} {α : Type} {populate : Assembly α}

theorem accrues_addConstructor (superName : String) :
    Accrues ClassFile.pool (addConstructor superName) [] [superName] :=
  (Assembly.accrues_onPool (Pool.accrues_methodRef _)).bind fun _ =>
    Assembly.accrues_addMethod _ _ _ _

/-- A class that is made mentions the interface that it implements, if it does, what its members
mention, and its super class. -/
theorem accrues_assemble (super : TypeHandle)
    (accrues : Accrues ClassFile.pool populate raw names) :
    Accrues ClassFile.pool (assemble super populate) raw
      ((if super.type.isInterface then [super.type.name] else []) ++
        (names ++ [superName super])) := by
  have constructed (answer : α) : Accrues ClassFile.pool
      (do
        addConstructor (superName super)
        return answer) [] [superName super] :=
    (accrues_addConstructor _).before fun _ _ => rfl
  have rest := accrues.bind constructed
  rw [List.append_nil] at rest
  refine .after (fun _ => rfl) fun _ => ?_
  split
  · exact (Assembly.accrues_addInterface _).bind fun _ => rest
  · exact rest

theorem mem_mentions_assemble {super : TypeHandle} {name symbol : String} :
    symbol ∈ [name, superName super] ++
        ((if super.type.isInterface then [super.type.name] else []) ++
          (names ++ [superName super])) ↔
      symbol = name ∨ symbol = superName super ∨ symbol = super.type.name ∨ symbol ∈ names := by
  unfold superName
  cases super.type.isInterface <;> simp <;> tauto

/-- For every super type, every place of a request and every script whose steps push no entries as
they are, as long as the pool has at most 65535 slots and its texts fit: the bytes of the class that
is made refer exactly to its own name, to its super class, to the type asked for, and to the names
that the steps mentioned, whether or not the methods in whose bodies they did were finished. -/
theorem references_exactly_mentioned (s : Synthesizer) (super : TypeHandle) (site : CallSite)
    (steps : List ClassStep) (interned : ∀ step ∈ steps, step.raw = []) :
    let made := (synthesize super site (Assembly.runSteps steps) s).1.2
    made.pool.Fits → ∀ symbol, references made.encode symbol = true ↔
      symbol = (fixtureName site s).1 ∨ symbol = superName super ∨ symbol = super.type.name ∨
        ∃ step ∈ steps, symbol ∈ step.mentions := by
  intro made fits symbol
  have few := fits.slots
  have quiet : steps.flatMap ClassStep.raw = [] := List.flatMap_eq_nil_iff.mpr interned
  have assembled := accrues_assemble super (Assembly.accrues_runSteps steps)
  have named : made = (assemble super (Assembly.runSteps steps)
      (ClassFile.new (fixtureName site s).1 (superName super))).2 := rfl
  clear_value made
  subst named
  have begun := ClassFile.gains_new (assembled.growing _) few
  have all := begun.trans (assembled.gains (.refl _) few)
  rw [ClassFile.references_encode fits, all.mentions, mem_mentions_assemble, quiet,
    List.mem_flatMap]
  simp [Pool.mentions_nil, Pool.empty, Pool.entries]

/-- The class named in a method that is dropped counts, and neither the text that it pushes does nor
the owner in a call that is refused. -/
theorem references_exactly_mentioned_dropped :
    let super : TypeHandle := ⟨.extending "app/Base" objectName, ⟨0⟩⟩
    let body : List MethodStep := [.newObject "app/Made", .ldcString "app/Text",
      .callInterface ⟨"app/Lost", "run", "broken"⟩]
    let steps : List ClassStep := [.addInterface "app/Mark", .method 1 "make" "()V" body true]
    let maker : Synthesizer := { owner := "app/Main" }
    let made := (synthesize super ⟨"run", 7⟩ (Assembly.runSteps steps) maker).1.2
    (∀ step ∈ steps, step.raw = []) ∧ made.pool.Fits ∧
      references made.encode "app/Made" = true ∧ references made.encode "app/Mark" = true ∧
      references made.encode "app/Base" = true ∧ references made.encode "app/Text" = false ∧
      references made.encode "app/Lost" = false := by
  intro super body steps maker made
  have interned : ∀ step ∈ steps, step.raw = [] := by decide +kernel
  have fits : made.pool.Fits := by decide +kernel
  have found := references_exactly_mentioned maker super ⟨"run", 7⟩ steps interned fits
  refine ⟨interned, fits, (found _).mpr ?_, (found _).mpr ?_, (found _).mpr ?_,
    Bool.eq_false_iff.mpr fun wrong => absurd ((found _).mp wrong) ?_,
    Bool.eq_false_iff.mpr fun wrong => absurd ((found _).mp wrong) ?_⟩
  all_goals decide +kernel

end Synthesizer

end ClassBench
