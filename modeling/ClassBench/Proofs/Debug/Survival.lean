import ClassBench.Proofs.Debug.Effects

/-! What can be read when a debug run is over.  The output side is what was kept last, so that it is
found as it was.  The input side is found as it was unless the output side met it: the file of the
output is named after the output with an ending, and so is its trace, and an input may be named in
this way itself. -/

namespace ClassBench

variable {a a' : Artifacts} {bytes input : Bytes} {c : ClassFile} {key key' : String}

namespace TraceSink

/-- Traces with these keys are kept in the same place. -/
def Meets (sink : TraceSink) (key key' : String) : Prop :=
  match sink with
  | .memory => key = key'
  | .files dir => Place.ofPath (tracePath dir key) = Place.ofPath (tracePath dir key')

instance (sink : TraceSink) (key key' : String) : Decidable (sink.Meets key key') :=
  match sink with
  | .memory => inferInstanceAs (Decidable (key = key'))
  | .files dir => inferInstanceAs
      (Decidable (Place.ofPath (tracePath dir key) = Place.ofPath (tracePath dir key')))

/-- A trace is found as it was when a side was kept, unless the side has its trace in the same
place. -/
theorem Keeps.holds_earlier {sink : TraceSink} {dir name trace : String}
    (keeps : sink.Keeps (inputPath dir name) bytes key' c a a') (held : sink.Holds a key trace) :
    sink.Holds a' key (if sink.Meets key key' then c.trace else trace) := by
  cases sink with
  | memory =>
    have traces : a'.traces = a.traces ++ [(key', c.trace)] := keeps.traces
    show a'.trace? key = some (if key = key' then c.trace else trace)
    rw [Artifacts.trace?, traces, List.reverse_append, List.reverse_singleton,
      List.singleton_append, List.lookup_cons]
    by_cases same : key = key'
    · rw [if_pos same, beq_iff_eq.mpr same]
    · rw [if_neg same, beq_eq_false_iff_ne.mpr same]
      exact held
  | files traces =>
    have read := keeps.files.read?_written held keeps.trace fun touched mem same => by
      rcases List.mem_cons.mp mem with rfl | mem
      · exact absurd same.symm (class_ne_trace dir traces name key)
      · rwa [List.mem_singleton.mp mem] at same
    show a'.files.read? (tracePath traces key) = some (if Place.ofPath (tracePath traces key) =
      Place.ofPath (tracePath traces key') then c.trace else trace).toUTF8.toList
    split
    · next same => rwa [if_pos same] at read
    · next apart => rwa [if_neg apart] at read

/-- Only a key with the ending of outputs is met by one. -/
theorem ends_of_meets {sink : TraceSink} (meets : sink.Meets key (key' ++ ".out")) :
    ∃ rest, key = rest ++ ".out" := by
  cases sink with
  | memory => exact ⟨key', meets⟩
  | files dir =>
    replace meets : Place.ofPath (tracePath dir key) =
      Place.ofPath (tracePath dir (key' ++ ".out")) := meets
    rw [tracePath_eq, tracePath_eq, Path.join_append (by decide)] at meets
    obtain ⟨rest, ends⟩ := Place.ends_of_ofPath_eq isExtension_txt (by decide) meets
    exact Path.ends_of_join (by decide) ends

theorem meets_iff_of_plain {sink : TraceSink} (plain : Path.IsPlain key)
    (plain' : Path.IsPlain key') : sink.Meets key key' ↔ key = key' := by
  cases sink with
  | memory => exact Iff.rfl
  | files dir => exact Place.ofPath_join_inj isExtension_txt plain plain'

end TraceSink

theorem ends_of_artifacts_eq {dir name name' : String}
    (same : Place.ofPath (inputPath dir name) = Place.ofPath (outputPath dir name')) :
    ∃ rest, name = rest ++ ".out" := by
  rw [outputPath_eq, inputPath_eq, inputPath_eq, Path.join_append (by decide)] at same
  obtain ⟨rest, ends⟩ := Place.ends_of_ofPath_eq isExtension_class (by decide) same
  exact Path.ends_of_join (by decide) ends

namespace DebugDriver

/-- When a run is over, its output is read where it was reported, and its trace found under its key.
The input and its trace are too, unless what was kept of the output has come to lie in their place:
this takes an input that is named with the ending of outputs, and between names without detours it
happens exactly if the input is named like the output with the ending. -/
theorem input_survives_unless_met (d : DebugDriver) (input : Bytes) (a a' : Artifacts)
    (r : DebugReport) (ran : d.run input a = .ok r a') :
    ∃ s : d.Sides input, r = s.report ∧
      a'.files.read? r.outputPath = some s.output ∧
      d.sink.Holds a' (r.outputName ++ ".out") s.outputClass.trace ∧
      a'.files.read? r.inputPath = some
        (if Place.ofPath r.inputPath = Place.ofPath r.outputPath then s.output else input) ∧
      d.sink.Holds a' r.inputName
        (if d.sink.Meets r.inputName (r.outputName ++ ".out") then s.outputClass.trace
          else s.inputClass.trace) ∧
      (Place.ofPath r.inputPath = Place.ofPath r.outputPath ∨
          d.sink.Meets r.inputName (r.outputName ++ ".out") →
        ∃ name, r.inputName = name ++ ".out") ∧
      (Path.IsPlain r.inputName → Path.IsPlain r.outputName →
        (Place.ofPath r.inputPath = Place.ofPath r.outputPath ↔
          r.inputName = r.outputName ++ ".out") ∧
        (d.sink.Meets r.inputName (r.outputName ++ ".out") ↔
          r.inputName = r.outputName ++ ".out")) := by
  obtain ⟨s, between, rfl, first, second⟩ := sides_of_run ran
  have output : s.report.outputPath = inputPath d.dir (s.outputName ++ ".out") := outputPath_eq ..
  refine ⟨s, rfl, second.artifact, second.trace, ?_, ?_, ?_, fun plain plain' => ⟨?_, ?_⟩⟩
  · refine second.files.read?_written first.artifact second.artifact fun touched mem same => ?_
    rcases List.mem_cons.mp mem with rfl | mem
    · exact same
    · exact absurd same (class_ne_of_mem_paths d.dir s.inputName mem)
  · rw [output] at second
    exact second.holds_earlier first.trace
  · rintro (same | meets)
    · exact ends_of_artifacts_eq same
    · exact TraceSink.ends_of_meets meets
  · rw [output]
    exact Place.ofPath_join_inj isExtension_class plain (plain'.append (by decide))
  · exact TraceSink.meets_iff_of_plain plain (plain'.append (by decide))

theorem input_survives_unless_met_renamed :
    let d : DebugDriver :=
      { transform := .constant (ClassFile.new "B" objectName).encode
        dir := "out", sink := .files "out", world := {}, scope := ⟨0⟩ }
    let input := (ClassFile.new "A" objectName).encode
    ∃ r a', d.run input {} = .ok r a' ∧ ∃ s : d.Sides input,
      a'.files.read? r.outputPath = some s.output ∧ a'.files.read? r.inputPath = some input ∧
        d.sink.Holds a' r.inputName s.inputClass.trace := by
  intro d input
  have reported : reports (fun r _ => r.inputName = "A") (d.run input {}) := by decide +kernel
  obtain ⟨r, a', ran, name⟩ := exists_of_reports reported
  obtain ⟨s, -, output, -, kept, trace, met, -⟩ := input_survives_unless_met d input {} a' r ran
  have otherwise : ¬∃ name, r.inputName = name ++ ".out" := by
    rintro ⟨front, ends⟩
    have last := congrArg (·.toList.getLast?) ((of_decide_eq_true name).symm.trans ends)
    simp at last
  obtain ⟨apart, unmet⟩ := not_or.mp (mt met otherwise)
  rw [if_neg apart] at kept
  rw [if_neg unmet] at trace
  exact ⟨r, a', ran, s, output, kept, trace⟩

/-- A class named like the artifact of its output: neither its bytes nor its trace are there when
the run is over. -/
theorem output_replaces_input :
    let d : DebugDriver :=
      { transform := .constant (ClassFile.new "A" objectName).encode
        dir := "out", sink := .memory, world := {}, scope := ⟨0⟩ }
    let c := ClassFile.new "A.out" objectName
    ∃ r a', d.run c.encode {} = .ok r a' ∧ a'.files.read? r.inputPath ≠ some c.encode ∧
      a'.trace? r.inputName ≠ some c.trace := by
  intro d c
  have reported : reports (fun r a' => a'.files.read? r.inputPath ≠ some c.encode ∧
      a'.trace? r.inputName ≠ some c.trace) (d.run c.encode {}) := by decide +kernel
  obtain ⟨r, a', ran, lost⟩ := exists_of_reports reported
  exact ⟨r, a', ran, of_decide_eq_true lost⟩

end DebugDriver

end ClassBench
