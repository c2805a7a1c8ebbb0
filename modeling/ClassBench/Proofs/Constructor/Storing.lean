import ClassBench.Proofs.Constructor.Body

/-! Constructors that store constants.  After the call of the super constructor such a body only
pushes the instance and a constant and stores this in a field, again and again, and then returns.
What it does to the fields of an instance is told by the row of these stores: every field holds the
last value that is stored in it. -/

namespace ClassBench

/-! ### What fields hold -/

namespace Fields

variable {fields : Fields} {name key : String} {value : Value}

theorem lookup_cons_eq (name : String) (value : Value) (fields : Fields) (key : String) :
    List.lookup key ((name, value) :: fields) =
      if key = name then some value else fields.lookup key := by
  rw [List.lookup_cons]
  by_cases asked : key = name
  · rw [if_pos asked, beq_iff_eq.mpr asked]
  · rw [if_neg asked, beq_eq_false_iff_ne.mpr asked]

/-- A store changes what its field holds and nothing else. -/
theorem lookup_store (fields : Fields) (name : String) (value : Value) (key : String) :
    (fields.store name value).lookup key =
      if key = name then some value else fields.lookup key := by
  induction fields with
  | nil => exact lookup_cons_eq name value [] key
  | cons entry rest ih =>
    obtain ⟨here, old⟩ := entry
    rw [store]
    split
    · next same =>
      subst same
      rw [lookup_cons_eq, lookup_cons_eq]
      split <;> rfl
    · next other =>
      split
      · exact lookup_cons_eq name value _ key
      · rw [lookup_cons_eq, lookup_cons_eq, ih]
        by_cases asked : key = here
        · rw [if_pos asked, if_pos asked, if_neg (asked ▸ other)]
        · rw [if_neg asked, if_neg asked]

theorem mem_store {entry : String × Value} (member : entry ∈ fields.store name value) :
    entry = (name, value) ∨ entry ∈ fields := by
  induction fields with
  | nil => exact .inl (List.mem_singleton.mp member)
  | cons first rest ih =>
    rw [store] at member
    split at member
    · rcases List.mem_cons.mp member with rfl | inside
      · exact .inl rfl
      · exact .inr (List.mem_cons_of_mem _ inside)
    · split at member
      · exact List.mem_cons.mp member
      · rcases List.mem_cons.mp member with rfl | inside
        · exact .inr List.mem_cons_self
        · exact (ih inside).imp_right (List.mem_cons_of_mem _)

/-- The fields stand in the order of their names, each once. -/
def Sorted (fields : Fields) : Prop := fields.Pairwise (·.1 < ·.1)

theorem Sorted.store (sorted : fields.Sorted) (name : String) (value : Value) :
    (fields.store name value).Sorted := by
  induction fields with
  | nil => exact List.pairwise_singleton _ _
  | cons first rest ih =>
    obtain ⟨later, sortedRest⟩ := List.pairwise_cons.mp sorted
    rw [Fields.store]
    split
    · next same => exact List.pairwise_cons.mpr ⟨same ▸ later, sortedRest⟩
    · next other =>
      split
      · next before =>
        refine List.pairwise_cons.mpr ⟨fun entry member => ?_, sorted⟩
        rcases List.mem_cons.mp member with rfl | inside
        · exact before
        · exact String.lt_trans before (later entry inside)
      · next notBefore =>
        refine List.pairwise_cons.mpr ⟨fun entry member => ?_, ih sortedRest⟩
        rcases mem_store member with rfl | inside
        · exact Std.lt_of_le_of_ne (String.not_lt.mp notBefore) other
        · exact later entry inside

/-- What is stored in a row leaves in every field the last of its values. -/
theorem lookup_storeAll (fields : Fields) (stores : List (String × Value)) (key : String) :
    (fields.storeAll stores).lookup key = (stores.reverse.lookup key).or (fields.lookup key) := by
  induction stores generalizing fields with
  | nil => rfl
  | cons first rest ih =>
    show (storeAll (fields.store first.1 first.2) rest).lookup key = _
    have last : List.lookup key [first] = if key = first.1 then some first.2 else none :=
      lookup_cons_eq first.1 first.2 [] key
    rw [ih, lookup_store, List.reverse_cons, List.lookup_append, Option.or_assoc, last]
    split <;> rfl

theorem Sorted.storeAll (sorted : fields.Sorted) (stores : List (String × Value)) :
    (fields.storeAll stores).Sorted := by
  induction stores generalizing fields with
  | nil => exact sorted
  | cons first rest ih => exact ih (sorted.store first.1 first.2)

end Fields

namespace Instruction

/-- The value that an instruction pushes, and does nothing else. -/
def pushed? (pool : Pool) (i : Instruction) : Option Value :=
  match i.opcode with
  | .aload_0 => some .this
  | .aconst_null => some .null
  | .iconst_m1 => some (.int (-1))
  | .iconst_0 => some (.int 0)
  | .iconst_1 => some (.int 1)
  | .iconst_2 => some (.int 2)
  | .iconst_3 => some (.int 3)
  | .iconst_4 => some (.int 4)
  | .iconst_5 => some (.int 5)
  | .bipush | .sipush => i.immediate?.map fun value => .int (Int32.ofInt value)
  | .ldc | .ldc_w | .ldc2_w => i.poolIndex?.bind (Value.ofConstant? pool)
  | _ => none

/-- The instructions store values in fields of the instance, in a row. -/
inductive Stores (pool : Pool) : List (MemberRef × Value) → List Instruction → Prop
  | nil : Stores pool [] []
  | cons {field : MemberRef} {value : Value} {writes : List (MemberRef × Value)}
      {this push put : Instruction} {is : List Instruction}
      (receiver : this.pushed? pool = some .this) (pushes : push.pushed? pool = some value)
      (puts : put.opcode = .putfield) (names : put.poolIndex?.bind pool.member? = some field)
      (more : Stores pool writes is) :
      Stores pool ((field, value) :: writes) (this :: push :: put :: is)

theorem Stores.append {pool : Pool} {writes writes' : List (MemberRef × Value)}
    {is is' : List Instruction} (stores : Stores pool writes is) (more : Stores pool writes' is') :
    Stores pool (writes ++ writes') (is ++ is') := by
  induction stores with
  | nil => exact more
  | cons receiver pushes puts names _ ih => exact .cons receiver pushes puts names ih

/-- The instructions call a method of the instance, store values in its fields and return. -/
inductive Initializes (pool : Pool) (method : MemberRef) (writes : List (MemberRef × Value)) :
    List Instruction → Prop
  | intro {this call last : Instruction} {is : List Instruction}
      (receiver : this.pushed? pool = some .this) (calls : call.opcode = .invokespecial)
      (names : call.poolIndex?.bind pool.member? = some method) (stores : Stores pool writes is)
      (returns : last.opcode = .return_) :
      Initializes pool method writes (this :: call :: is ++ [last])

end Instruction

namespace LoadedType

variable {t : LoadedType} {i : Instruction} {callSuper : SuperCall} {rest : List Instruction}
  {stack : List Value} {called : Bool} {fields : Fields} {value : Value}
  {writes : List (MemberRef × Value)} {is : List Instruction}

/-! ### One instruction -/

theorem execute_pushed (pushes : i.pushed? t.classFile.pool = some value) :
    t.execute callSuper i = (do Execution.push value; return false) := by
  unfold Instruction.pushed? at pushes
  cases h : i.opcode <;> rw [h] at pushes
  case aload_0 | aconst_null | iconst_m1 | iconst_0 | iconst_1 | iconst_2 | iconst_3 | iconst_4
      | iconst_5 =>
    obtain rfl := Option.some.inj pushes
    rw [execute, h]
  case bipush | sipush =>
    obtain ⟨n, found, rfl⟩ := Option.map_eq_some_iff.mp pushes
    rw [execute, h]
    simp only [found]
  case ldc | ldc_w | ldc2_w =>
    rw [execute, h]
    simp only [Execution.constant, pushes, pure_bind]
  all_goals cases pushes

theorem fieldsAfter_push (pushes : i.pushed? t.classFile.pool = some value) :
    t.fieldsAfter callSuper (i :: rest) ⟨stack, called, fields⟩ =
      t.fieldsAfter callSuper rest ⟨value :: stack, called, fields⟩ := by
  rw [fieldsAfter_cons, execute_pushed pushes]
  rfl

theorem fieldsAfter_putfield {field : MemberRef} (puts : i.opcode = .putfield)
    (names : i.poolIndex?.bind t.classFile.pool.member? = some field)
    (declared : t.declares field = true) :
    t.fieldsAfter callSuper (i :: rest) ⟨value :: .this :: stack, called, fields⟩ =
      t.fieldsAfter callSuper rest ⟨stack, called, fields.store field.name value⟩ := by
  rw [fieldsAfter_cons, execute, puts]
  simp only [Execution.constant, names, pure_bind, declared]
  rfl

theorem fieldsAfter_invokespecial {method : MemberRef} (calls : i.opcode = .invokespecial)
    (names : i.poolIndex?.bind t.classFile.pool.member? = some method)
    (super : t.isSuperConstructor method = true) :
    t.fieldsAfter callSuper (i :: rest) ⟨.this :: stack, false, fields⟩ =
      callSuper method.owner fields >>= fun fields =>
        t.fieldsAfter callSuper rest ⟨stack, true, fields⟩ := by
  rw [fieldsAfter_cons, execute_invokespecial calls names super]
  cases callSuper method.owner fields <;> rfl

theorem fieldsAfter_return (returns : i.opcode = .return_) :
    t.fieldsAfter callSuper (i :: rest) ⟨stack, true, fields⟩ = .ok fields := by
  rw [fieldsAfter_cons, execute, returns]
  rfl

/-! ### The row of stores -/

/-- What stores in a row leave in the fields. -/
theorem fieldsAfter_stores (stores : Instruction.Stores t.classFile.pool writes is)
    (declared : ∀ write ∈ writes, t.declares write.1 = true) :
    t.fieldsAfter callSuper (is ++ rest) ⟨stack, called, fields⟩ =
      t.fieldsAfter callSuper rest
        ⟨stack, called, fields.storeAll (writes.map fun write => (write.1.name, write.2))⟩ := by
  induction stores generalizing fields with
  | nil => rfl
  | cons receiver pushes puts names more ih =>
    obtain ⟨here, later⟩ := List.forall_mem_cons.mp declared
    simp only [List.cons_append]
    rw [fieldsAfter_push receiver, fieldsAfter_push pushes, fieldsAfter_putfield puts names here,
      ih later]
    rfl

/-- A constructor that stores constants leaves its stores in what the super constructor left. -/
theorem fieldsAfter_initializes {method : MemberRef}
    (row : Instruction.Initializes t.classFile.pool method writes is)
    (super : t.isSuperConstructor method = true)
    (declared : ∀ write ∈ writes, t.declares write.1 = true) :
    t.fieldsAfter callSuper is ⟨[], false, fields⟩ = (callSuper method.owner fields).map
      (Fields.storeAll · (writes.map fun write => (write.1.name, write.2))) := by
  obtain ⟨receiver, calls, names, stores, returns⟩ := row
  rw [List.cons_append, List.cons_append, fieldsAfter_push receiver,
    fieldsAfter_invokespecial calls names super]
  cases callSuper method.owner fields with
  | error e => rfl
  | ok fields =>
    show t.fieldsAfter callSuper (_ ++ [_]) _ = _
    rw [fieldsAfter_stores stores declared, fieldsAfter_return returns]
    rfl

end LoadedType

end ClassBench
