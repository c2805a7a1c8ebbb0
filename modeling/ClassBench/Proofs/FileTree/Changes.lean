import ClassBench.Proofs.FileTree.Places

/-! What happens to a tree of files.  Whatever is done for a path touches the place of the path
alone, but for directories that are made on the way where nothing was, and directories stay.  So a
file is read as before unless its place is the one that was touched. -/

namespace ClassBench.FileTree

open ClassBench.Path

variable {t t' t'' : FileTree} {place other : Place} {path part : String} {bytes : Bytes}
  {paths paths' : List String}

/-! ### Look-ups -/

theorem node?_fixed (fixed : place.isFixed = true) : t.node? place = some .directory := by
  rw [node?, if_pos fixed]

theorem isFixed_eq_false (free : t.node? place ≠ some .directory) : place.isFixed = false := by
  rw [Bool.eq_false_iff]
  exact fun fixed => free (node?_fixed fixed)

theorem lookup_filter_ne (apart : other ≠ place) (nodes : List (Place × FileNode)) :
    (nodes.filter (·.1 != place)).lookup other = nodes.lookup other := by
  induction nodes with
  | nil => rfl
  | cons entry nodes ih =>
    obtain ⟨key, node⟩ := entry
    by_cases same : key = place
    · subst same
      rw [List.filter_cons_of_neg (by simp), ih, List.lookup_cons, beq_eq_false_iff_ne.mpr apart]
    · rw [List.filter_cons_of_pos (by simp [same]), List.lookup_cons, List.lookup_cons, ih]

theorem node?_put_self (free : place.isFixed = false) (node : FileNode) :
    (t.put place node).node? place = some node := by
  rw [node?, free, put]
  exact List.lookup_cons_self

theorem node?_put_ne (apart : other ≠ place) (node : FileNode) :
    (t.put place node).node? other = t.node? other := by
  unfold node? put
  rw [List.lookup_cons, beq_eq_false_iff_ne.mpr apart, lookup_filter_ne apart]

/-! ### Changes -/

/-- From one tree to the other the places of some paths may have changed, and nothing else but for
directories that were made on the way to them where nothing was.  Directories stay. -/
structure Touches (paths : List String) (t t' : FileTree) : Prop where
  elsewhere : ∀ place, (∀ path ∈ paths, place ≠ Place.ofPath path) →
    t'.node? place = t.node? place ∨ t.node? place = none ∧ t'.node? place = some .directory ∧
      ∃ path ∈ paths, Place.OnWay path place
  directories : ∀ place, t.node? place = some .directory → t'.node? place = some .directory

theorem Touches.refl (paths : List String) (t : FileTree) : Touches paths t t :=
  ⟨fun _ _ => .inl rfl, fun _ here => here⟩

theorem Touches.mono (touches : Touches paths t t') (more : paths ⊆ paths') :
    Touches paths' t t' := by
  refine ⟨fun place away => ?_, touches.directories⟩
  rcases touches.elsewhere place fun path mem => away path (more mem) with
    same | ⟨vacant, made, path, mem, onWay⟩
  · exact .inl same
  · exact .inr ⟨vacant, made, path, more mem, onWay⟩

theorem Touches.trans (first : Touches paths t t') (second : Touches paths t' t'') :
    Touches paths t t'' := by
  refine ⟨fun place away => ?_, fun place here => second.directories _ (first.directories _ here)⟩
  rcases first.elsewhere place away with same | ⟨vacant, made, onWay⟩
  · rw [← same]
    exact second.elsewhere place away
  · exact .inr ⟨vacant, second.directories place made, onWay⟩

/-! ### Following a path -/

theorem follow_eq_some {next : Place} (followed : t.follow place part = some next) :
    t.node? place = some .directory ∧ next = place.next part := by
  unfold follow at followed
  split at followed
  · contradiction
  · next here =>
    refine ⟨Decidable.not_not.mp here, ?_⟩
    unfold Place.next
    split at followed
    · next dot => rw [if_pos dot, Option.some.inj followed]
    · next notDot =>
      rw [if_neg notDot]
      split at followed
      · next up => rw [if_pos up, Option.some.inj followed]
      · next notUp =>
        rw [if_neg notUp]
        split at followed
        · exact (Option.some.inj followed).symm
        · contradiction

theorem follow_congr (here : t.node? place = some .directory)
    (there : t'.node? place = some .directory) : t'.follow place part = t.follow place part := by
  rw [follow, follow, if_neg (Decidable.not_not.mpr here), if_neg (Decidable.not_not.mpr there)]

theorem foldlM_follow_eq_some {parts : List String} {last : Place}
    (followed : parts.foldlM t.follow place = some last) : last = parts.foldl Place.next place := by
  induction parts generalizing place with
  | nil => exact (Option.some.inj followed).symm
  | cons part parts ih =>
    rw [List.foldlM_cons] at followed
    obtain ⟨next, step, rest⟩ := Option.bind_eq_some_iff.mp followed
    obtain ⟨-, rfl⟩ := follow_eq_some step
    exact ih rest

theorem foldlM_follow_mono (touches : Touches paths t t') {parts : List String} {last : Place}
    (followed : parts.foldlM t.follow place = some last) :
    parts.foldlM t'.follow place = some last := by
  induction parts generalizing place with
  | nil => exact followed
  | cons part parts ih =>
    rw [List.foldlM_cons] at followed ⊢
    obtain ⟨next, step, rest⟩ := Option.bind_eq_some_iff.mp followed
    have here := (follow_eq_some step).1
    rw [follow_congr here (touches.directories _ here), step]
    exact ih rest

theorem locate?_eq_some (located : t.locate? path = some place) : place = Place.ofPath path := by
  unfold locate? at located
  split at located
  · rw [Place.start_eq] at located
    exact foldlM_follow_eq_some located
  · contradiction

theorem Touches.locate? (touches : Touches paths t t') (located : t.locate? path = some place) :
    t'.locate? path = some place := by
  unfold FileTree.locate? at located ⊢
  split at located
  · next usable =>
    rw [if_pos usable]
    exact foldlM_follow_mono touches located
  · contradiction

theorem read?_eq_some : t.read? path = some bytes ↔
    t.locate? path = some (Place.ofPath path) ∧
      t.node? (Place.ofPath path) = some (.file bytes) := by
  unfold read?
  rw [Option.bind_eq_bind, Option.bind_eq_some_iff]
  constructor
  · rintro ⟨place, located, found⟩
    obtain rfl := locate?_eq_some located
    split at found
    · next file => exact ⟨located, file.trans (by rw [Option.some.inj found])⟩
    · contradiction
  · rintro ⟨located, found⟩
    exact ⟨_, located, by rw [found]⟩

/-- A file is read as before unless its place was touched. -/
theorem Touches.read? (touches : Touches paths t t')
    (away : ∀ other ∈ paths, Place.ofPath path ≠ Place.ofPath other)
    (found : t.read? path = some bytes) : t'.read? path = some bytes := by
  rw [read?_eq_some] at found ⊢
  refine ⟨touches.locate? found.1, ?_⟩
  rcases touches.elsewhere _ away with same | ⟨vacant, -⟩
  · rw [same]
    exact found.2
  · rw [found.2] at vacant
    contradiction

/-- A file that was there before some places were touched is read as before, or as a file that was
written to its place. -/
theorem Touches.read?_written {path' : String} {new : Bytes} (touches : Touches paths t t')
    (found : t.read? path = some bytes) (written : t'.read? path' = some new)
    (away : ∀ touched ∈ paths, Place.ofPath path = Place.ofPath touched →
      Place.ofPath path = Place.ofPath path') :
    t'.read? path = some (if Place.ofPath path = Place.ofPath path' then new else bytes) := by
  split
  · next same =>
    rw [read?_eq_some] at found written ⊢
    rw [same] at found ⊢
    exact ⟨touches.locate? found.1, written.2⟩
  · next apart => exact touches.read? (fun touched mem same => apart (away touched mem same)) found

/-! ### Making directories and files -/

/-- From one tree to the other directories were made at some places where nothing was, and nothing
else happened. -/
def Made (way : Place → Prop) (t t' : FileTree) : Prop :=
  ∀ place, t'.node? place = t.node? place ∨
    t.node? place = none ∧ t'.node? place = some .directory ∧ way place

theorem Made.refl (way : Place → Prop) (t : FileTree) : Made way t t := fun _ => .inl rfl

theorem Made.mono {way way' : Place → Prop} (made : Made way t t')
    (more : ∀ place, way place → way' place) : Made way' t t' := fun place =>
  (made place).imp_right fun ⟨vacant, there, onWay⟩ => ⟨vacant, there, more place onWay⟩

theorem Made.trans {way : Place → Prop} (first : Made way t t') (second : Made way t' t'') :
    Made way t t'' := by
  intro place
  rcases first place with same | ⟨vacant, there, onWay⟩
  · rw [← same]
    exact second place
  · refine .inr ⟨vacant, ?_, onWay⟩
    rcases second place with same | ⟨impossible, -⟩
    · exact same.trans there
    · rw [there] at impossible
      contradiction

theorem made_put (vacant : t.node? place = none) :
    Made (· = place) t (t.put place .directory) := by
  intro other
  by_cases here : other = place
  · subst here
    have free : t.node? other ≠ some .directory := by simp [vacant]
    exact .inr ⟨vacant, node?_put_self (isFixed_eq_false free) _, rfl⟩
  · exact .inl (node?_put_ne here _)

theorem made_makeFrom (parts : List String) (place : Place) (t : FileTree) :
    Made (fun other => ∃ front, front <+: parts ∧ other = front.foldl Place.next place) t
      (t.makeFrom place parts).2 := by
  -- along the path, for every place and tree: each part goes on from another place, and perhaps
  -- in a tree with one more directory
  induction parts generalizing place t with
  | nil => exact .refl _ t
  | cons part parts ih =>
    have longer (other : Place)
        (onWay : ∃ front, front <+: parts ∧ other = front.foldl Place.next (place.next part)) :
        ∃ front, front <+: part :: parts ∧ other = front.foldl Place.next place := by
      obtain ⟨front, isFront, rfl⟩ := onWay
      exact ⟨part :: front, (List.prefix_cons_inj part).mpr isFront, rfl⟩
    rw [makeFrom]
    split
    · exact .refl _ t
    · next next followed =>
      obtain ⟨-, rfl⟩ := follow_eq_some followed
      split
      · exact (ih (place.next part) t).mono longer
      · next vacant =>
        have first : Made _ t _ := made_put (Option.not_isSome_iff_eq_none.mp vacant)
        refine (first.mono fun other here => ?_).trans ((ih _ _).mono longer)
        exact longer other ⟨[], List.nil_prefix, here⟩

/-- The directories around a file are made on the way to it. -/
theorem touches_makeDirectories (path : String) (t : FileTree) :
    Touches [path] t (t.makeDirectories (parent path)).2 := by
  unfold makeDirectories
  split
  · rw [Place.start_eq]
    have changes := made_makeFrom (parts (parent path)) (Place.origin (parent path)) t
    refine ⟨fun place _ => ?_, fun place here => ?_⟩
    · rcases changes place with same | ⟨vacant, made, onWay⟩
      · exact .inl same
      · exact .inr ⟨vacant, made, path, by simp, Place.onWay_parent onWay⟩
    · rcases changes place with same | ⟨vacant, -⟩
      · exact same.trans here
      · rw [here] at vacant
        contradiction
  · exact .refl _ t

/-- The file of a path was written, and nothing else but for the directories around it. -/
structure Wrote (path : String) (bytes : Bytes) (t t' : FileTree) : Prop where
  touches : Touches [path] t t'
  read : t'.read? path = some bytes

theorem wrote_put (located : t.locate? path = some place) (free : t.node? place ≠ some .directory)
    (bytes : Bytes) : Wrote path bytes t (t.put place (.file bytes)) := by
  obtain rfl := locate?_eq_some located
  have touches : Touches [path] t (t.put (Place.ofPath path) (.file bytes)) := by
    refine ⟨fun place away => .inl (node?_put_ne (away path (by simp)) _), fun place here => ?_⟩
    have apart : place ≠ Place.ofPath path := by
      rintro rfl
      exact free here
    rw [node?_put_ne apart]
    exact here
  have there := node?_put_self (t := t) (isFixed_eq_false free) (.file bytes)
  exact ⟨touches, read?_eq_some.mpr ⟨touches.locate? located, there⟩⟩

end ClassBench.FileTree
