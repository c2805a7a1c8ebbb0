import ClassBench.Assembly.Script
import ClassBench.Proofs.Pool.Interning

/-! Which classes a pool refers to.  A class is one of the pool's if an entry is a class of its
name, and only two kinds of step add such entries: those that intern a class, by itself or as the
owner of a member, and those that push an entry as it is.  So what a step adds is told by the names
that it mentions and by the entries that it pushes, whatever was interned before. -/

namespace ClassBench

namespace Pool

variable {p p' p'' q : Pool} {c : Constant} {name n : String} {raw raw' : List Constant}
  {names names' : List String} {entries more : List Constant} {σ τ α β : Type}

/-- One of the entries is a class of this name, by the texts of a pool. -/
def Mentions (q : Pool) (entries : List Constant) (name : String) : Prop :=
  ∃ text, .classRef text ∈ entries ∧ q.get? text = some (.utf8 name)

theorem mentions_nil : ¬q.Mentions [] n := by
  simp [Mentions]

theorem mentions_append :
    q.Mentions (entries ++ more) n ↔ q.Mentions entries n ∨ q.Mentions more n := by
  simp only [Mentions, List.mem_append, or_and_right, exists_or]

theorem mem_entries_of_get? {slot : UInt16} (found : p.get? slot = some c) : c ∈ p.entries := by
  rw [get?_eq_some] at found
  exact mem_entries.mpr (Array.mem_toList_iff.mp (List.mem_of_getElem? found))

theorem get?_of_mem_entries (few : p.slots.size ≤ 65535) (member : c ∈ p.entries) :
    ∃ slot, p.get? slot = some c := by
  obtain ⟨i, inside, here⟩ := Array.getElem_of_mem (mem_entries.mp member)
  refine ⟨i.toUInt16, get?_eq_some.mpr ?_⟩
  have index : i.toUInt16.toNat = i := by
    rw [Nat.toUInt16_eq, UInt16.toNat_ofNat']
    omega
  rw [index, Array.getElem?_toList, Array.getElem?_eq_getElem inside, here]

/-- A pool refers to the classes that its entries mention. -/
theorem mentions_entries (few : q.slots.size ≤ 65535) :
    q.Mentions q.entries n ↔ ∃ slot, q.className? slot = some n := by
  simp only [className?_eq_some, NamesClass]
  constructor
  · rintro ⟨text, member, found⟩
    obtain ⟨slot, here⟩ := get?_of_mem_entries few member
    exact ⟨slot, text, here, found⟩
  · rintro ⟨slot, text, here, found⟩
    exact ⟨text, mem_entries_of_get? here, found⟩

/-! ### One entry -/

theorem mentions_intern (other : c.kind ≠ .classRef) :
    q.Mentions (intern c p).2.entries n ↔ q.Mentions p.entries n := by
  have same (text : UInt16) : .classRef text ∈ (intern c p).2.entries ↔
      .classRef text ∈ p.entries := by
    rw [mem_entries_intern, or_iff_left]
    rintro rfl
    exact other rfl
  simp only [Mentions, same]

theorem mentions_classRef (later : (classRef name p).2.Grows q) (few : q.slots.size ≤ 65535) :
    q.Mentions (classRef name p).2.entries n ↔ q.Mentions p.entries n ∨ n = name := by
  have text : q.get? (utf8 name p).1 = some (.utf8 name) :=
    get?_intern ((growing_intern _ _).trans later) few
  have before : q.Mentions (utf8 name p).2.entries n ↔ q.Mentions p.entries n :=
    mentions_intern (by nofun)
  rw [← before]
  change q.Mentions (intern (.classRef (utf8 name p).1) (utf8 name p).2).2.entries n ↔ _
  constructor
  · rintro ⟨at', member, found⟩
    rcases mem_entries_intern.mp member with old | new
    · exact .inl ⟨at', old, found⟩
    · obtain rfl := Constant.classRef.inj new
      rw [text] at found
      cases found
      exact .inr rfl
  · rintro (⟨at', old, found⟩ | rfl)
    · exact ⟨at', mem_entries_intern.mpr (.inl old), found⟩
    · exact ⟨_, mem_entries_intern.mpr (.inr rfl), text⟩

theorem mentions_nameAndType (name descriptor : String) :
    q.Mentions (nameAndType name descriptor p).2.entries n ↔ q.Mentions p.entries n :=
  (mentions_intern (by nofun)).trans
    ((mentions_intern (by nofun)).trans (mentions_intern (by nofun)))

theorem mentions_memberWith {make : UInt16 → UInt16 → Constant} {member : MemberRef}
    (other : ∀ owner signature, (make owner signature).kind ≠ .classRef)
    (later : (memberWith make member p).2.Grows q) (few : q.slots.size ≤ 65535) :
    q.Mentions (memberWith make member p).2.entries n ↔
      q.Mentions p.entries n ∨ n = member.owner := by
  have rest : Growing (do
      let signature ← nameAndType member.name member.descriptor
      intern (make (classRef member.owner p).1 signature)) :=
    (Interns.nameAndType _ _ : Interns (fun _ => True) _ _).growing.bind fun _ => growing_intern _
  refine (mentions_intern (other _ _)).trans ((mentions_nameAndType _ _).trans ?_)
  exact mentions_classRef ((rest _).trans later) few

/-! ### What a step adds -/

/-- From one pool to another came entries as they are and classes of these names, as told in a
pool: nothing else is mentioned that was not, and if those entries are linked so is the rest. -/
structure Gains (q p p' : Pool) (raw : List Constant) (names : List String) : Prop where
  linked : (∀ e ∈ raw, e.Linked q) → p.LinkedIn q → p'.LinkedIn q
  mentions : ∀ n, q.Mentions p'.entries n ↔
    q.Mentions p.entries n ∨ q.Mentions raw n ∨ n ∈ names

namespace Gains

theorem refl (q p : Pool) : Gains q p p [] [] where
  linked _ := id
  mentions n := by simp [mentions_nil]

theorem trans (first : Gains q p p' raw names) (second : Gains q p' p'' raw' names') :
    Gains q p p'' (raw ++ raw') (names ++ names') where
  linked holds linked :=
    second.linked (fun e member => holds e (List.mem_append_right _ member))
      (first.linked (fun e member => holds e (List.mem_append_left _ member)) linked)
  mentions n := by
    rw [second.mentions, first.mentions, mentions_append, List.mem_append]
    tauto

end Gains

/-- A step on a state with a pool only adds to the pool, and what it adds are these entries as they
are and classes of these names. -/
structure Accrues (view : σ → Pool) (step : StateM σ α) (raw : List Constant)
    (names : List String) : Prop where
  growing : ∀ s, (view s).Grows (view (step s).2)
  gains : ∀ {s q}, (view (step s).2).Grows q → q.slots.size ≤ 65535 →
    Gains q (view s) (view (step s).2) raw names

namespace Accrues

variable {view : σ → Pool} {step : StateM σ α}

/-- A step that leaves the pool alone. -/
theorem of_same (same : ∀ s, view (step s).2 = view s) : Accrues view step [] [] where
  growing s := by
    rw [same]
    exact .refl _
  gains {s q} _ _ := by
    rw [same]
    exact .refl q _

theorem bind {next : α → StateM σ β} (first : Accrues view step raw names)
    (second : ∀ a, Accrues view (next a) raw' names') :
    Accrues view (step >>= next) (raw ++ raw') (names ++ names') where
  growing s := (first.growing s).trans ((second _).growing _)
  gains later few :=
    (first.gains (((second _).growing _).trans later) few).trans ((second _).gains later few)

theorem before {next : α → StateM σ β} (first : Accrues view step raw names)
    (same : ∀ a s, view (next a s).2 = view s) : Accrues view (step >>= next) raw names := by
  simpa using first.bind fun a => of_same (same a)

theorem after {next : α → StateM σ β} (same : ∀ s, view (step s).2 = view s)
    (second : ∀ a, Accrues view (next a) raw names) : Accrues view (step >>= next) raw names :=
  (of_same same).bind second

/-- A step that does to the pool of a state what a step does to that of another. -/
theorem lift {view' : τ → Pool} {step' : StateM τ β}
    (accrues : Accrues view' step' raw names) (inner : σ → τ)
    (same : ∀ s, view (step s).2 = view' (step' (inner s)).2)
    (start : ∀ s, view s = view' (inner s)) : Accrues view step raw names where
  growing s := by
    rw [same, start]
    exact accrues.growing _
  gains {s q} later few := by
    rw [same] at later ⊢
    rw [start]
    exact accrues.gains later few

theorem mapM {f : β → StateM σ α} {raws : β → List Constant} {mentions : β → List String}
    (each : ∀ b, Accrues view (f b) (raws b) (mentions b)) (bs : List β) :
    Accrues view (bs.mapM f) (bs.flatMap raws) (bs.flatMap mentions) := by
  induction bs with
  | nil => exact of_same fun _ => rfl
  | cons b bs ih =>
    rw [List.mapM_cons, List.flatMap_cons, List.flatMap_cons]
    exact (each b).bind fun _ => ih.before fun _ _ => rfl

end Accrues

/-! ### Steps on pools -/

theorem Interns.accrues {step : StateM Pool α} {means : Pool → α → Prop}
    (interns : Interns (fun _ => True) step means)
    (mentions : ∀ {p q : Pool}, (step p).2.Grows q → q.slots.size ≤ 65535 → ∀ n,
      q.Mentions (step p).2.entries n ↔ q.Mentions p.entries n ∨ n ∈ names) :
    Accrues id step [] names where
  growing := interns.growing
  gains later few :=
    { linked _ := interns.linked later few trivial
      mentions n := by
        rw [id, mentions later few]
        simp [mentions_nil] }

theorem accrues_utf8 (text : String) : Accrues id (utf8 text) [] [] :=
  (Interns.utf8 text).accrues fun _ _ _ => by
    rw [or_iff_left List.not_mem_nil]
    exact mentions_intern nofun

theorem accrues_classRef (name : String) : Accrues id (classRef name) [] [name] :=
  (Interns.classRef name).accrues fun later few n => by
    rw [mentions_classRef later few, List.mem_singleton]

theorem accrues_string (text : String) : Accrues id (string text) [] [] :=
  (Interns.string text).accrues fun _ _ _ => by
    rw [or_iff_left List.not_mem_nil]
    exact (mentions_intern (by nofun)).trans (mentions_intern (by nofun))

theorem accrues_integer (value : Int32) : Accrues id (integer value) [] [] :=
  (Interns.integer value).accrues fun _ _ _ => by
    rw [or_iff_left List.not_mem_nil]
    exact mentions_intern nofun

theorem accrues_nameAndType (name descriptor : String) :
    Accrues id (nameAndType name descriptor) [] [] :=
  (Interns.nameAndType name descriptor).accrues fun _ _ _ => by
    rw [or_iff_left List.not_mem_nil]
    exact mentions_nameAndType name descriptor

theorem accrues_fieldRef (member : MemberRef) : Accrues id (fieldRef member) [] [member.owner] :=
  (Interns.fieldRef member).accrues fun later few n => by
    rw [List.mem_singleton]
    exact mentions_memberWith (fun _ _ => nofun) later few

theorem accrues_methodRef (member : MemberRef) :
    Accrues id (methodRef member) [] [member.owner] :=
  (Interns.methodRef member).accrues fun later few n => by
    rw [List.mem_singleton]
    exact mentions_memberWith (fun _ _ => nofun) later few

theorem accrues_interfaceMethodRef (member : MemberRef) :
    Accrues id (interfaceMethodRef member) [] [member.owner] :=
  (Interns.interfaceMethodRef member).accrues fun later few n => by
    rw [List.mem_singleton]
    exact mentions_memberWith (fun _ _ => nofun) later few

theorem accrues_push (entry : Constant) : Accrues id (push entry) [entry] [] where
  growing := grows_push entry
  gains {p q} _ _ :=
    { linked holds linked e member := by
        rw [id, entries_push, List.mem_append] at member
        exact member.elim (linked e) (holds e)
      mentions n := by
        rw [id, entries_push, mentions_append, or_iff_left List.not_mem_nil]
        rfl }

theorem accrues_pushMany (entry : Constant) (last : Option UInt16) (count : Nat) :
    Accrues id (pushMany entry last count) (List.replicate count entry) [] := by
  induction count generalizing last with
  | zero => exact .of_same fun _ => rfl
  | succ count ih => exact (accrues_push entry).bind fun index => ih (some index)

end Pool

namespace PoolStep

/-- The entries that a step pushes as they are. -/
def raw : PoolStep → List Constant
  | push entry => [entry]
  | pushMany entry count => List.replicate count entry
  | _ => []

/-- The classes that a step names, as such or as the owner of a member. -/
def mentions : PoolStep → List String
  | classRef name => [name]
  | fieldRef member | methodRef member | interfaceMethodRef member => [member.owner]
  | _ => []

/-- A step on a pool adds what it pushes and the classes that it names. -/
theorem accrues (step : PoolStep) : Pool.Accrues id step.run step.raw step.mentions := by
  cases step with
  | push entry => exact (Pool.accrues_push entry).before fun _ _ => rfl
  | pushMany entry count => exact (Pool.accrues_pushMany entry none count).before fun _ _ => rfl
  | utf8 text => exact (Pool.accrues_utf8 text).before fun _ _ => rfl
  | classRef name => exact (Pool.accrues_classRef name).before fun _ _ => rfl
  | string text => exact (Pool.accrues_string text).before fun _ _ => rfl
  | integer value => exact (Pool.accrues_integer value).before fun _ _ => rfl
  | nameAndType name descriptor =>
    exact (Pool.accrues_nameAndType name descriptor).before fun _ _ => rfl
  | fieldRef member => exact (Pool.accrues_fieldRef member).before fun _ _ => rfl
  | methodRef member => exact (Pool.accrues_methodRef member).before fun _ _ => rfl
  | interfaceMethodRef member =>
    exact (Pool.accrues_interfaceMethodRef member).before fun _ _ => rfl
  | entryAt | textAt | classNameAt | nameAndTypeAt | memberAt | slotCount | encoded | listing =>
    exact .of_same fun _ => rfl

end PoolStep

end ClassBench
