import ClassBench.Proofs.Config
import ClassBench.Proofs.Debug.Effects
import ClassBench.Proofs.Path.Components

/-! Where a debug run writes.  The names of the classes are joined to the directories as they stand
in the class files, so that what is kept lies within the directories exactly if the names lead
down. -/

namespace ClassBench

open FileTree (Touches)

variable {a : Artifacts} {input : Bytes} {key name : String}

namespace DebugDriver

variable {d : DebugDriver}

/-- The keys under which a run keeps its output side, if it comes to it. -/
def outputKeys (d : DebugDriver) (input : Bytes) : List String :=
  match d.transform d.world d.scope input with
  | .error _ => []
  | .ok output =>
    match identify .invalidOutput output with
    | .error _ => []
    | .ok (_, name) => [name ++ ".out"]

/-- The keys under which a run keeps its sides, as far as it comes. -/
def keys (d : DebugDriver) (input : Bytes) : List String :=
  match identify .decode input with
  | .error _ => []
  | .ok (_, name) => name :: d.outputKeys input

/-- The paths of what is kept under a key. -/
def paths (d : DebugDriver) (key : String) : List String := inputPath d.dir key :: d.sink.paths key

/-- The directories that are given for what is kept. -/
def roots (d : DebugDriver) : List String :=
  match d.sink with
  | .memory => [d.dir]
  | .files dir => [d.dir, dir]

/-- What is there after a run, however it ended. -/
def left : EStateM.Result DebugError Artifacts DebugReport → Artifacts
  | .ok _ a => a
  | .error _ a => a

theorem touches_conclude (d : DebugDriver) (name : String) (input : Bytes) (a : Artifacts) :
    Touches ((d.outputKeys input).flatMap d.paths) a.files
      (left (d.conclude name input a)).files := by
  unfold outputKeys
  cases transformed : d.transform d.world d.scope input with
  | error e =>
    rw [conclude_failed transformed]
    exact .refl ..
  | ok output =>
    dsimp only
    cases identified : identify .invalidOutput output with
    | error e =>
      rw [conclude_unidentified transformed identified]
      exact .refl ..
    | ok side =>
      dsimp only
      have keeping := conclude_cases name transformed identified a
      rw [outputPath_eq] at keeping
      rw [List.flatMap_singleton]
      rcases keeping with ⟨a', keeps, finished⟩ | ⟨fault, a', stopped, touches⟩
      · rw [finished]
        exact keeps.files
      · rw [stopped]
        exact touches

/-- A run touches nothing but what is kept under its keys, however it ends. -/
theorem touches_run (d : DebugDriver) (input : Bytes) (a : Artifacts) :
    Touches ((d.keys input).flatMap d.paths) a.files (left (d.run input a)).files := by
  unfold keys
  cases identified : identify .decode input with
  | error e =>
    rw [run_unidentified identified]
    exact .refl ..
  | ok side =>
    dsimp only
    rw [List.flatMap_cons]
    rcases d.run_cases identified a with ⟨a', keeps, goesOn⟩ | ⟨fault, a', failed, touches⟩
    · rw [show d.run input a = _ from goesOn d.transform]
      exact (keeps.files.mono (List.subset_append_left ..)).trans
        ((touches_conclude d side.2 input a').mono (List.subset_append_right ..))
    · rw [failed]
      exact touches.mono (List.subset_append_left ..)

theorem Sides.keys_eq (s : d.Sides input) :
    d.keys input = [s.inputName, s.outputName ++ ".out"] := by
  rw [keys, identify_named s.decoded s.named, outputKeys, s.transformed]
  dsimp only
  rw [identify_named s.outputDecoded s.outputNamed]

theorem exists_root {path : String} (mem : path ∈ d.paths key) :
    ∃ root ∈ d.roots, ∃ suffix,
      Path.IsExtension suffix ∧ path = Path.join root (key ++ suffix) := by
  unfold paths at mem
  unfold roots
  cases sink : d.sink with
  | memory =>
    rw [sink] at mem
    exact ⟨d.dir, by simp, ".class", isExtension_class, List.mem_singleton.mp mem⟩
  | files dir =>
    rw [sink] at mem
    rcases List.mem_cons.mp mem with rfl | mem
    · exact ⟨d.dir, List.mem_cons_self .., ".class", isExtension_class, rfl⟩
    · exact ⟨dir, by simp, ".txt", isExtension_txt, List.mem_singleton.mp mem⟩

/-- The files that a run reports are within the debug directory, component by component, exactly if
the names of the classes lead down; a name that begins at the top of all files is where it says.  If
all names that a run comes to lead down, then whatever it makes, replaces or removes, however it
ends, is below the directories that are given for it, but for directories made on the way there. -/
theorem artifacts_within_iff (d : DebugDriver) (input : Bytes) (a : Artifacts) :
    (∀ r a', d.run input a = .ok r a' →
      d.keys input = [r.inputName, r.outputName ++ ".out"] ∧
      (Path.IsWithin d.dir r.inputPath ↔
        if Path.isAbsolute r.inputName then Path.IsWithin d.dir (r.inputName ++ ".class")
        else ".." ∉ (Path.parts r.inputName).dropLast) ∧
      (Path.IsWithin d.dir r.outputPath ↔
        if Path.isAbsolute r.outputName then Path.IsWithin d.dir (r.outputName ++ ".out.class")
        else ".." ∉ (Path.parts r.outputName).dropLast)) ∧
    ((∀ key ∈ d.keys input, Path.LeadsDown key) → ∀ place,
      let before := a.files.node? place
      let after := (left (d.run input a)).files.node? place
      after = before ∨ ∃ root ∈ d.roots, Place.ofPath root <+: place ∨
        Place.OnWay root place ∧ before = none ∧ after = some .directory) := by
  constructor
  · intro r a' ran
    obtain ⟨s, -, rfl, -, -⟩ := sides_of_run ran
    exact ⟨s.keys_eq, Path.isWithin_extended_iff isExtension_class,
      Path.isWithin_extended_iff isExtension_outClass⟩
  · intro down place before after
    have touches := touches_run d input a
    -- the place of one of the files, or a directory on the way to one
    by_cases here : ∃ path ∈ (d.keys input).flatMap d.paths, place = Place.ofPath path
    · obtain ⟨path, mem, rfl⟩ := here
      obtain ⟨key, isKey, mem⟩ := List.mem_flatMap.mp mem
      obtain ⟨root, isRoot, suffix, extension, rfl⟩ := exists_root mem
      exact .inr ⟨root, isRoot, .inl (Place.prefix_ofPath_join extension (down key isKey))⟩
    · rcases touches.elsewhere place fun path mem same => here ⟨path, mem, same⟩ with
        same | ⟨vacant, made, path, mem, onWay⟩
      · exact .inl same
      · obtain ⟨key, isKey, mem⟩ := List.mem_flatMap.mp mem
        obtain ⟨root, isRoot, suffix, extension, rfl⟩ := exists_root mem
        refine .inr ⟨root, isRoot, ?_⟩
        rcases Place.prefix_of_onWay_join extension (down key isKey) onWay with toRoot | below
        · exact .inr ⟨toRoot, vacant, made⟩
        · exact .inl below

theorem artifacts_within_iff_nested :
    let d : DebugDriver := { dir := "out", sink := .files "traces", world := {}, scope := ⟨0⟩ }
    let input := (ClassFile.new "p/A" objectName).encode
    ∃ r a', d.run input {} = .ok r a' ∧ Path.IsWithin "out" r.inputPath ∧
      Path.IsWithin "out" r.outputPath ∧ ∀ place, a'.files.node? place = FileTree.node? {} place ∨
        ∃ root ∈ ["out", "traces"], Place.ofPath root <+: place ∨ Place.OnWay root place := by
  intro d input
  have reported : reports (fun r _ => r.inputName = "p/A" ∧ r.outputName = "p/A")
      (d.run input {}) := by decide +kernel
  obtain ⟨r, a', ran, names⟩ := exists_of_reports reported
  obtain ⟨name, name'⟩ := of_decide_eq_true names
  obtain ⟨ofReport, places⟩ := artifacts_within_iff d input {}
  obtain ⟨keys, within, within'⟩ := ofReport r a' ran
  rw [name] at within
  rw [name'] at within'
  have down : ∀ key ∈ d.keys input, Path.LeadsDown key := by
    rw [keys, name, name']
    decide +kernel
  refine ⟨r, a', ran, within.mpr (by decide +kernel), within'.mpr (by decide +kernel), ?_⟩
  intro place
  rcases places down place with same | ⟨root, isRoot, below | ⟨onWay, -⟩⟩
  · rw [ran] at same
    exact .inl same
  · exact .inr ⟨root, isRoot, .inl below⟩
  · exact .inr ⟨root, isRoot, .inr onWay⟩

/-- A class whose name leads up and one whose name begins at the top of all files: the bytes of both
sides are outside of the debug directory. -/
theorem artifacts_leave_directory :
    let d : DebugDriver := { dir := "out", sink := .memory, world := {}, scope := ⟨0⟩ }
    ∀ entry ∈ [("../A", ["A.class"]), ("/A", ["/", "A.class"])],
      let input := (ClassFile.new entry.1 objectName).encode
      ∃ r a', d.run input {} = .ok r a' ∧ ¬Path.IsWithin d.dir r.inputPath ∧
        ¬Path.IsWithin d.dir r.outputPath ∧ a'.files.node? entry.2 = some (.file input) := by
  intro d
  have reported : ∀ entry ∈ [("../A", ["A.class"]), ("/A", ["/", "A.class"])],
      reports (fun r a' => ¬Path.IsWithin d.dir r.inputPath ∧
        ¬Path.IsWithin d.dir r.outputPath ∧
        a'.files.node? entry.2 = some (.file (ClassFile.new entry.1 objectName).encode))
        (d.run (ClassFile.new entry.1 objectName).encode {}) := by decide +kernel
  intro entry mem
  obtain ⟨r, a', ran, found⟩ := exists_of_reports (reported entry mem)
  exact ⟨r, a', ran, of_decide_eq_true found⟩

/-- Names in the internal form make no detours. -/
theorem isPlain_of_isInternalName (internal : isInternalName name) : Path.IsPlain name := by
  obtain ⟨noDot, filled⟩ := isInternalName_iff.mp internal
  intro part mem
  replace mem := List.dropLast_subset _ mem
  have chars := Path.subset_of_mem_parts mem
  refine ⟨?_, ?_, ?_⟩
  · rintro rfl
    exact filled mem
  · rintro rfl
    exact noDot (chars (by decide))
  · rintro rfl
    exact noDot (chars (by decide))

/-- Classes with names in the internal form have their artifacts within the debug directory. -/
theorem internal_names_stay {r : DebugReport} {a' : Artifacts} (ran : d.run input a = .ok r a')
    (internal : isInternalName r.inputName) (internal' : isInternalName r.outputName) :
    Path.IsWithin d.dir r.inputPath ∧ Path.IsWithin d.dir r.outputPath := by
  obtain ⟨s, -, rfl, -, -⟩ := sides_of_run ran
  have down := (isPlain_of_isInternalName internal).leadsDown
  have down' := (isPlain_of_isInternalName internal').leadsDown
  exact ⟨Path.isWithin_of_leadsDown isExtension_class down,
    Path.isWithin_of_leadsDown isExtension_outClass down'⟩

end DebugDriver

end ClassBench
