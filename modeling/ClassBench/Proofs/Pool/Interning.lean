import ClassBench.Proofs.Pool.RoundTrip
import ClassBench.Proofs.Verify.Sound

/-! What interning adds to a pool.  A pool only grows, at its end, so an index goes on to mean what
it meant when it was handed out, as long as the pool keeps within the indices that there are.  What
the steps on a pool return and leave behind is told here by a later pool: one that the pool has
grown to when all is done. -/

namespace ClassBench.Pool

variable {p q r : Pool} {c e : Constant} {index : UInt16} {α β : Type}

/-! ### Growth -/

/-- The slots of the one pool begin those of the other. -/
def Grows (p q : Pool) : Prop := p.slots.toList <+: q.slots.toList

theorem Grows.refl (p : Pool) : p.Grows p := List.prefix_refl _

theorem Grows.trans (first : p.Grows q) (second : q.Grows r) : p.Grows r :=
  List.IsPrefix.trans first second

theorem Grows.size_le (grows : p.Grows q) : p.slots.size ≤ q.slots.size := by
  simpa using grows.length_le

theorem get?_eq_some : p.get? index = some c ↔ p.slots.toList[index.toNat]? = some (some c) := by
  rw [get?, Option.join_eq_some_iff, Array.getElem?_toList]

/-- What an index stands for stays. -/
theorem Grows.get? (grows : p.Grows q) (found : p.get? index = some c) :
    q.get? index = some c := by
  rw [get?_eq_some] at found ⊢
  obtain ⟨more, same⟩ := grows
  rw [← same, List.getElem?_append_left (List.getElem?_eq_some_iff.mp found).1, found]

theorem grows_push (c : Constant) (p : Pool) : p.Grows (push c p).2 := by
  rw [Grows, toList_push]
  exact List.prefix_append _ _

theorem intern_eq (c : Constant) (p : Pool) :
    intern c p = match p.indexOf? c with
      | some index => (index, p)
      | none => push c p := by
  show (match p.indexOf? c with
    | some index => pure index
    | none => push c : StateM Pool UInt16) p = _
  cases p.indexOf? c <;> rfl

/-- A step on a pool only adds to it. -/
def Growing (step : StateM Pool α) : Prop := ∀ p : Pool, p.Grows (step p).2

theorem Growing.bind {step : StateM Pool α} {next : α → StateM Pool β} (first : Growing step)
    (second : ∀ a, Growing (next a)) : Growing (step >>= next) :=
  fun p => (first p).trans (second _ _)

theorem growing_intern (c : Constant) : Growing (intern c) := by
  intro p
  rw [intern_eq]
  split
  · exact .refl p
  · exact grows_push c p

/-! ### One entry -/

theorem get?_push (later : (push c p).2.Grows q) (few : q.slots.size ≤ 65535) :
    q.get? (push c p).1 = some c := by
  have inside : p.slots.size < (push c p).2.slots.size := by
    rw [size_push]
    exact Nat.lt_add_of_pos_right c.slots_length_pos
  have size := later.size_le
  have index : (push c p).1.toNat = p.slots.size := by
    show p.count.toNat = _
    rw [count, Nat.toUInt16_eq, UInt16.toNat_ofNat']
    omega
  refine later.get? ?_
  rw [get?_eq_some, toList_push, index, ← Array.length_toList,
    List.getElem?_append_right (Nat.le_refl _)]
  unfold Constant.slots
  split <;> simp

/-- The entry stands in a slot with the index, as far as 16 bits tell. -/
theorem slot_of_indexOf? (found : p.indexOf? c = some index) :
    ∃ i : Nat, p.slots[i]? = some (some c) ∧ i.toUInt16 = index := by
  obtain ⟨i, first, rfl⟩ := Option.map_eq_some_iff.mp found
  obtain ⟨inside, here, -⟩ := Array.findIdx?_eq_some_iff_getElem.mp first
  exact ⟨i, by rw [Array.getElem?_eq_getElem inside, beq_iff_eq.mp here], rfl⟩

theorem get?_indexOf? (found : p.indexOf? c = some index) (few : p.slots.size ≤ 65535) :
    p.get? index = some c := by
  obtain ⟨i, here, rfl⟩ := slot_of_indexOf? found
  obtain ⟨inside, -⟩ := Array.getElem?_eq_some_iff.mp here
  have index : i.toUInt16.toNat = i := by
    rw [Nat.toUInt16_eq, UInt16.toNat_ofNat']
    omega
  rw [get?, index, here]
  rfl

theorem indexOf?_eq (p : Pool) (c : Constant) :
    p.indexOf? c = (p.slots.toList.findIdx? (· == some c)).map Nat.toUInt16 := by
  rw [indexOf?, ← List.findIdx?_toArray]

theorem Grows.indexOf? (grows : p.Grows q) (found : p.indexOf? c = some index) :
    q.indexOf? c = some index := by
  obtain ⟨more, same⟩ := grows
  rw [indexOf?_eq] at found ⊢
  obtain ⟨i, first, rfl⟩ := Option.map_eq_some_iff.mp found
  rw [← same, List.findIdx?_append, first]
  rfl

/-- An interned entry is found from then on where it was found then. -/
theorem indexOf?_intern (c : Constant) (p : Pool) :
    (intern c p).2.indexOf? c = some (intern c p).1 := by
  rw [intern_eq]
  split
  · assumption
  · next new =>
    rw [indexOf?_eq, Option.map_eq_none_iff] at new
    have here : c.slots.findIdx? (· == some c) = some 0 := by
      unfold Constant.slots
      split <;> simp [List.findIdx?_cons]
    rw [indexOf?_eq, toList_push, List.findIdx?_append, new, here]
    show some (0 + p.slots.toList.length).toUInt16 = some p.slots.size.toUInt16
    rw [Nat.zero_add, Array.length_toList]

/-- The index of an interned entry stands for it from then on. -/
theorem get?_intern (later : (intern c p).2.Grows q) (few : q.slots.size ≤ 65535) :
    q.get? (intern c p).1 = some c := by
  rw [intern_eq] at later ⊢
  split at later <;> rename_i found
  · have size := later.size_le
    exact later.get? (get?_indexOf? found (by omega))
  · exact get?_push later few

theorem mem_entries : c ∈ p.entries ↔ some c ∈ p.slots := by
  simp [entries]

theorem entries_push (c : Constant) (p : Pool) : (push c p).2.entries = p.entries ++ [c] := by
  rw [entries, toList_push, List.filterMap_append, Constant.filterMap_slots, entries]

theorem mem_entries_intern : e ∈ (intern c p).2.entries ↔ e ∈ p.entries ∨ e = c := by
  rw [intern_eq]
  split
  · next index found =>
    refine (or_iff_left_of_imp ?_).symm
    rintro rfl
    obtain ⟨i, here, -⟩ := slot_of_indexOf? found
    exact mem_entries.mpr (Array.mem_of_getElem? here)
  · rw [entries_push, List.mem_append, List.mem_singleton]

/-! ### Steps that intern -/

/-- Every entry of the one pool refers to entries of the other that its kind asks for. -/
def LinkedIn (p q : Pool) : Prop := ∀ e ∈ p.entries, e.Linked q

/-- A step on a pool returns what means something in every pool of allowed size that the pool grows
to, as long as what the step builds on holds there; and it adds entries only whose references lead
to what their kinds ask for. -/
structure Interns (given : Pool → Prop) (step : StateM Pool α) (means : Pool → α → Prop) :
    Prop where
  growing : Growing step
  tells : ∀ {p q}, (step p).2.Grows q → q.slots.size ≤ 65535 → given q → means q (step p).1
  linked : ∀ {p q}, (step p).2.Grows q → q.slots.size ≤ 65535 → given q → p.LinkedIn q →
    (step p).2.LinkedIn q

namespace Interns

variable {given : Pool → Prop} {means : Pool → α → Prop} {means' : Pool → β → Prop}

theorem bind {step : StateM Pool α} {next : α → StateM Pool β} (first : Interns given step means)
    (second : ∀ a, Interns (fun q => given q ∧ means q a) (next a) means') :
    Interns given (step >>= next) means' where
  growing := first.growing.bind fun a => (second a).growing
  tells later few holds :=
    (second _).tells later few
      ⟨holds, first.tells (((second _).growing _).trans later) few holds⟩
  linked later few holds linked := by
    have earlier := ((second _).growing _).trans later
    exact (second _).linked later few ⟨holds, first.tells earlier few holds⟩
      (first.linked earlier few holds linked)

protected theorem pure (a : α) (holds : ∀ {q}, given q → means q a) :
    Interns given (pure a) means where
  growing := .refl
  tells _ _ given := holds given
  linked _ _ _ linkedBefore := linkedBefore

protected theorem intern {means : Pool → UInt16 → Prop} (linked : ∀ {q}, given q → c.Linked q)
    (tells : ∀ {q index}, given q → q.get? index = some c → means q index) :
    Interns given (intern c) means where
  growing := growing_intern c
  tells later few holds := tells holds (get?_intern later few)
  linked _ _ holds linkedBefore e member := by
    rcases mem_entries_intern.mp member with before | rfl
    · exact linkedBefore e before
    · exact linked holds

protected theorem utf8 (text : String) :
    Interns given (Pool.utf8 text) fun q index => q.get? index = some (.utf8 text) :=
  .intern (fun _ => trivial) fun _ found => found

theorem holds_single (found : q.get? index = some c) : q.Holds [c.kind] index :=
  ⟨c, found, List.mem_singleton_self _⟩

protected theorem classRef (name : String) :
    Interns given (Pool.classRef name) fun q index => q.NamesClass index name :=
  (Interns.utf8 name).bind fun text => .intern (fun ⟨_, found⟩ => holds_single found)
    fun ⟨_, found⟩ here => ⟨text, here, found⟩

protected theorem string (text : String) : Interns given (Pool.string text) fun q index =>
    ∃ at', q.get? index = some (.string at') ∧ q.get? at' = some (.utf8 text) :=
  (Interns.utf8 text).bind fun at' => .intern (fun ⟨_, found⟩ => holds_single found)
    fun ⟨_, found⟩ here => ⟨at', here, found⟩

protected theorem integer (value : Int32) :
    Interns given (Pool.integer value) fun q index => q.get? index = some (.integer value) :=
  .intern (fun _ => trivial) fun _ found => found

protected theorem nameAndType (name descriptor : String) :
    Interns given (Pool.nameAndType name descriptor) fun q index =>
      q.nameAndType? index = some (name, descriptor) ∧ q.Holds [.nameAndType] index :=
  (Interns.utf8 name).bind fun n => (Interns.utf8 descriptor).bind fun d => .intern
    (fun ⟨⟨_, foundN⟩, foundD⟩ => ⟨holds_single foundN, holds_single foundD⟩)
    fun {q index} ⟨⟨_, foundN⟩, foundD⟩ here => by
      refine ⟨?_, holds_single here⟩
      simp only [nameAndType?, here, utf8?_eq_some.mpr foundN, utf8?_eq_some.mpr foundD]
      rfl

/-- An entry that refers to a class and to a name with a descriptor. -/
protected theorem memberWith {make : UInt16 → UInt16 → Constant} (member : MemberRef)
    (linked : ∀ {q : Pool} {owner signature}, q.Holds [.classRef] owner →
      q.Holds [.nameAndType] signature → (make owner signature).Linked q)
    (reads : ∀ {q : Pool} {index owner signature}, q.get? index = some (make owner signature) →
      q.className? owner = some member.owner →
      q.nameAndType? signature = some (member.name, member.descriptor) →
      q.member? index = some member) :
    Interns given (Pool.memberWith make member) fun q index =>
      q.member? index = some member ∧ ∃ owner signature,
        q.get? index = some (make owner signature) :=
  (Interns.classRef member.owner).bind fun owner =>
    (Interns.nameAndType member.name member.descriptor).bind fun signature => .intern
      (fun ⟨⟨_, _, found, _⟩, _, signed⟩ => linked (holds_single found) signed)
      fun ⟨⟨_, named⟩, signed, _⟩ here =>
        ⟨reads here (className?_eq_some.mpr named) signed, owner, signature, here⟩

protected theorem fieldRef (member : MemberRef) :
    Interns given (Pool.fieldRef member) fun q index =>
    q.member? index = some member ∧ ∃ owner signature,
      q.get? index = some (.fieldRef owner signature) :=
  Interns.memberWith member .intro fun here named signed => by
    simp only [member?, here, named, signed]
    rfl

protected theorem methodRef (member : MemberRef) :
    Interns given (Pool.methodRef member) fun q index =>
      q.member? index = some member ∧ ∃ owner signature,
        q.get? index = some (.methodRef owner signature) :=
  Interns.memberWith member .intro fun here named signed => by
    simp only [member?, here, named, signed]
    rfl

protected theorem interfaceMethodRef (member : MemberRef) :
    Interns given (Pool.interfaceMethodRef member) fun q index =>
      q.member? index = some member ∧ ∃ owner signature,
        q.get? index = some (.interfaceMethodRef owner signature) :=
  Interns.memberWith member .intro fun here named signed => by
    simp only [member?, here, named, signed]
    rfl

end Interns

/-! ### How much interning adds -/

/-- The one pool has at most so many slots more than the other, and its texts fit if those of the
other do. -/
structure Adds (cost : Nat) (p q : Pool) : Prop where
  slots : q.slots.size ≤ p.slots.size + cost
  fits : (∀ e ∈ p.entries, e.Fits) → ∀ e ∈ q.entries, e.Fits

namespace Adds

variable {cost cost' : Nat} {name descriptor : String}

theorem trans (first : Adds cost p q) (second : Adds cost' q r) : Adds (cost + cost') p r where
  slots := by
    have := first.slots
    have := second.slots
    omega
  fits fit := second.fits (first.fits fit)

protected theorem intern (narrow : c.isWide = false) (short : c.Fits) (p : Pool) :
    Adds 1 p (intern c p).2 where
  slots := by
    rw [intern_eq]
    split
    · exact Nat.le_succ _
    · rw [size_push, Constant.slots, narrow]
      exact Nat.le_refl _
  fits fit e member := by
    rcases mem_entries_intern.mp member with before | rfl
    · exact fit e before
    · exact short

protected theorem utf8 (short : (Constant.utf8 name).Fits) (p : Pool) :
    Adds 1 p (Pool.utf8 name p).2 :=
  .intern rfl short p

protected theorem classRef (short : (Constant.utf8 name).Fits) (p : Pool) :
    Adds 2 p (Pool.classRef name p).2 :=
  (Adds.utf8 short p).trans (.intern rfl (by trivial) _)

protected theorem nameAndType (short : (Constant.utf8 name).Fits)
    (short' : (Constant.utf8 descriptor).Fits) (p : Pool) :
    Adds 3 p (Pool.nameAndType name descriptor p).2 :=
  ((Adds.utf8 short p).trans (Adds.utf8 short' _)).trans (.intern rfl (by trivial) _)

protected theorem methodRef (member : MemberRef) (owner : (Constant.utf8 member.owner).Fits)
    (name : (Constant.utf8 member.name).Fits) (descriptor : (Constant.utf8 member.descriptor).Fits)
    (p : Pool) : Adds 6 p (Pool.methodRef member p).2 :=
  ((Adds.classRef owner p).trans (Adds.nameAndType name descriptor _)).trans
    (.intern rfl (by trivial) _)

end Adds

end ClassBench.Pool
