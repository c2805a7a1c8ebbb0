import ClassBench.Debug
import ClassBench.Proofs.FileTree.Changes
import Mathlib.Tactic.Common

/-! What a debug run leaves behind.  A run keeps two sides, each as a class file and a trace: the
input before the transformation is called, and the output after everything else has gone well.  To
keep a side touches the places of its two files and no other, so that wherever a run stops it has
left a front of these effects and nothing else. -/

namespace ClassBench

open FileTree (Touches Wrote)

variable {a a' : Artifacts} {path key : String} {bytes input : Bytes} {c : ClassFile}

/-! ### Writing a file -/

namespace Debugging

theorem bind_apply {α β : Type} (x : Debugging α) (f : α → Debugging β) (a : Artifacts) :
    (x >>= f) a = match x a with
      | .ok v a' => f v a'
      | .error e a' => .error e a' := by
  show EStateM.bind x f a = _
  unfold EStateM.bind
  cases x a <;> rfl

theorem get_apply (a : Artifacts) : (get : Debugging Artifacts) a = .ok a a := rfl

theorem modify_apply (f : Artifacts → Artifacts) (a : Artifacts) :
    (modify f : Debugging Unit) a = .ok () (f a) := rfl

theorem write_eq (path : String) (bytes : Bytes) (a : Artifacts) : write path bytes a =
    let made := a.files.makeDirectories (Path.parent path)
    if made.1 then
      match made.2.locate? path with
      | none => .error (.io path) { a with files := made.2 }
      | some place =>
        if made.2.node? place = some .directory then .error (.io path) { a with files := made.2 }
        else .ok () { a with files := made.2.put place (.file bytes) }
    else .error (.io (Path.parent path)) { a with files := made.2 } := by
  unfold write
  rw [bind_apply, get_apply]
  dsimp only
  cases made : a.files.makeDirectories (Path.parent path) with
  | mk ok files =>
    dsimp only
    rw [bind_apply, modify_apply]
    cases ok with
    | false => rfl
    | true =>
      rw [if_neg (by simp), if_pos rfl]
      cases located : files.locate? path with
      | none => rfl
      | some place =>
        dsimp only
        split <;> rfl

/-- Writing writes the file or fails on a path, and then has made directories at most. -/
theorem write_cases (path : String) (bytes : Bytes) (a : Artifacts) :
    (∃ files, write path bytes a = .ok () { a with files } ∧ Wrote path bytes a.files files) ∨
      ∃ fault files, write path bytes a = .error (.io fault) { a with files } ∧
        Touches [path] a.files files := by
  have around := FileTree.touches_makeDirectories path a.files
  rw [write_eq]
  dsimp only
  split
  · split
    · exact .inr ⟨_, _, rfl, around⟩
    · next place located =>
      split
      · exact .inr ⟨_, _, rfl, around⟩
      · next free =>
        have wrote := FileTree.wrote_put located free bytes
        exact .inl ⟨_, rfl, around.trans wrote.touches, wrote.read⟩
  · exact .inr ⟨_, _, rfl, around⟩

end Debugging

/-! ### Saving a trace -/

namespace TraceSink

/-- The paths that a trace is written to. -/
def paths (sink : TraceSink) (key : String) : List String :=
  match sink with
  | .memory => []
  | .files dir => [tracePath dir key]

/-- What memory gains by a trace. -/
def gained (sink : TraceSink) (key : String) (c : ClassFile) : List (String × String) :=
  match sink with
  | .memory => [(key, c.trace)]
  | .files _ => []

/-- A trace is found under a key. -/
def Holds (sink : TraceSink) (a : Artifacts) (key trace : String) : Prop :=
  match sink with
  | .memory => a.trace? key = some trace
  | .files dir => a.files.read? (tracePath dir key) = some trace.toUTF8.toList

/-- The trace of a class was saved, and nothing else happened. -/
structure Saved (sink : TraceSink) (key : String) (c : ClassFile) (a a' : Artifacts) : Prop where
  holds : sink.Holds a' key c.trace
  files : Touches (sink.paths key) a.files a'.files
  traces : a'.traces = a.traces ++ sink.gained key c

theorem saveTrace_cases (sink : TraceSink) (key : String) (c : ClassFile) (a : Artifacts) :
    (∃ a', Debugging.saveTrace sink key c a = .ok () a' ∧ sink.Saved key c a a') ∨
      ∃ fault a', Debugging.saveTrace sink key c a = .error (.io fault) a' ∧
        Touches (sink.paths key) a.files a'.files := by
  cases sink with
  | memory =>
    refine .inl ⟨_, rfl, ?_, .refl _ _, rfl⟩
    simp [Holds, Artifacts.trace?]
  | files dir =>
    rcases Debugging.write_cases (tracePath dir key) c.trace.toUTF8.toList a with
      ⟨files, wrote, written⟩ | ⟨fault, files, failed, touches⟩
    · exact .inl ⟨_, wrote, written.read, written.touches, (List.append_nil _).symm⟩
    · exact .inr ⟨fault, _, failed, touches⟩

end TraceSink

/-! ### Keeping a side -/

theorem isExtension_class : Path.IsExtension ".class" := .of_decide (by decide +kernel)

theorem isExtension_outClass : Path.IsExtension ".out.class" := .of_decide (by decide +kernel)

theorem isExtension_txt : Path.IsExtension ".txt" := .of_decide (by decide +kernel)

theorem inputPath_eq (dir name : String) : inputPath dir name = Path.join dir name ++ ".class" :=
  Path.join_append isExtension_class.plain

theorem outputPath_eq (dir name : String) :
    outputPath dir name = inputPath dir (name ++ ".out") := by
  rw [inputPath, String.append_assoc]
  rfl

theorem tracePath_eq (dir key : String) : tracePath dir key = Path.join dir key ++ ".txt" :=
  Path.join_append isExtension_txt.plain

/-- No class file lies where a trace does. -/
theorem class_ne_trace (dir dir' name key : String) :
    Place.ofPath (inputPath dir name) ≠ Place.ofPath (tracePath dir' key) := by
  rw [inputPath_eq, tracePath_eq]
  refine Place.ofPath_ne isExtension_class isExtension_txt fun p q same => ?_
  have ends : (p ++ ".class").toList.getLast? = (q ++ ".txt").toList.getLast? := by rw [same]
  simp at ends

theorem class_ne_of_mem_paths {sink : TraceSink} (dir name : String) (mem : path ∈ sink.paths key) :
    Place.ofPath (inputPath dir name) ≠ Place.ofPath path := by
  cases sink with
  | memory => simp [TraceSink.paths] at mem
  | files traces =>
    obtain rfl : path = tracePath traces key := by simpa [TraceSink.paths] using mem
    exact class_ne_trace dir traces name key

namespace TraceSink

/-- Keeps a side of a run: the bytes of a class, and its trace. -/
def keep (sink : TraceSink) (path : String) (bytes : Bytes) (key : String) (c : ClassFile) :
    Debugging Unit := do
  Debugging.write path bytes
  Debugging.saveTrace sink key c

/-- A side of a run was kept, and nothing else happened. -/
structure Keeps (sink : TraceSink) (path : String) (bytes : Bytes) (key : String) (c : ClassFile)
    (a a' : Artifacts) : Prop where
  artifact : a'.files.read? path = some bytes
  trace : sink.Holds a' key c.trace
  files : Touches (path :: sink.paths key) a.files a'.files
  traces : a'.traces = a.traces ++ sink.gained key c

theorem keep_cases (sink : TraceSink) (dir name : String) (bytes : Bytes) (key : String)
    (c : ClassFile) (a : Artifacts) :
    (∃ a', sink.keep (inputPath dir name) bytes key c a = .ok () a' ∧
        sink.Keeps (inputPath dir name) bytes key c a a') ∨
      ∃ fault a', sink.keep (inputPath dir name) bytes key c a = .error (.io fault) a' ∧
        Touches (inputPath dir name :: sink.paths key) a.files a'.files := by
  have ours : [inputPath dir name] ⊆ inputPath dir name :: sink.paths key := by simp
  have traces : sink.paths key ⊆ inputPath dir name :: sink.paths key := by simp
  rw [keep]
  rcases Debugging.write_cases (inputPath dir name) bytes a with
    ⟨files, wrote, written⟩ | ⟨fault, files, failed, touches⟩
  · have first := written.touches.mono ours
    rcases sink.saveTrace_cases key c { a with files } with
      ⟨a', saved, save⟩ | ⟨fault, a', failed, touches⟩
    · refine .inl ⟨a', ?_, ?_, save.holds, first.trans (save.files.mono traces), save.traces⟩
      · rw [Debugging.bind_apply, wrote]
        exact saved
      -- the trace is in another place than the class file that was written before it
      · exact save.files.read? (fun path mem => class_ne_of_mem_paths dir name mem) written.read
    · refine .inr ⟨fault, a', ?_, first.trans (touches.mono traces)⟩
      rw [Debugging.bind_apply, wrote]
      exact failed
  · refine .inr ⟨fault, { a with files }, ?_, touches.mono ours⟩
    rw [Debugging.bind_apply, failed]

end TraceSink

/-! ### A whole run -/

namespace DebugDriver

variable {d : DebugDriver} {name name' : String} {output : Bytes}

/-- What a run reports that has kept both sides. -/
def report (d : DebugDriver) (inputName outputName : String) (input output : Bytes) :
    DebugReport where
  inputName := inputName
  outputName := outputName
  inputPath := inputPath d.dir inputName
  outputPath := outputPath d.dir outputName
  inputChecksum := Crc32.checksum input
  outputChecksum := Crc32.checksum output

/-- The class that bytes are, and its name. -/
def identify (fault : DecodeError → DebugError) (bytes : Bytes) :
    Except DebugError (ClassFile × String) :=
  match ClassFile.decode bytes with
  | .error e => .error (fault e)
  | .ok c =>
    match c.name? with
    | none => .error .unnamed
    | some name => .ok (c, name)

section

variable {fault : DecodeError → DebugError}

theorem identify_broken {e : DecodeError} (broken : ClassFile.decode bytes = .error e) :
    identify fault bytes = .error (fault e) := by
  rw [identify, broken]

theorem identify_unnamed (decoded : ClassFile.decode bytes = .ok c) (unnamed : c.name? = none) :
    identify fault bytes = .error .unnamed := by
  rw [identify, decoded]
  dsimp only
  rw [unnamed]

theorem identify_named (decoded : ClassFile.decode bytes = .ok c) (named : c.name? = some name) :
    identify fault bytes = .ok (c, name) := by
  rw [identify, decoded]
  dsimp only
  rw [named]

theorem of_identify_ok (identified : identify fault bytes = .ok (c, name)) :
    ClassFile.decode bytes = .ok c ∧ c.name? = some name := by
  cases decoded : ClassFile.decode bytes with
  | error e =>
    rw [identify_broken decoded] at identified
    contradiction
  | ok c' =>
    cases named : c'.name? with
    | none =>
      rw [identify_unnamed decoded named] at identified
      contradiction
    | some name' =>
      rw [identify_named decoded named] at identified
      obtain ⟨rfl, rfl⟩ := Prod.mk.inj (Except.ok.inj identified)
      exact ⟨rfl, named⟩

end

/-- What a run does once the input side is kept. -/
def conclude (d : DebugDriver) (inputName : String) (input : Bytes) : Debugging DebugReport := do
  match d.transform d.world d.scope input with
  | .error e => throw (.transform e)
  | .ok output =>
    match identify .invalidOutput output with
    | .error e => throw e
    | .ok (outputClass, outputName) =>
      d.sink.keep (outputPath d.dir outputName) output (outputName ++ ".out") outputClass
      return d.report inputName outputName input output

theorem run_eq (d : DebugDriver) (input : Bytes) : d.run input =
    match identify .decode input with
    | .error e => throw e
    | .ok (inputClass, inputName) =>
      d.sink.keep (inputPath d.dir inputName) input inputName inputClass >>= fun _ =>
        d.conclude inputName input := by
  unfold run identify
  cases ClassFile.decode input with
  | error e => rfl
  | ok inputClass =>
    dsimp only
    cases inputClass.name? with
    | none => rfl
    | some inputName =>
      -- both sides write the input and its trace first, so that they are compared from there on
      simp only [conclude, TraceSink.keep, bind_assoc]
      refine bind_congr fun _ => bind_congr fun _ => ?_
      cases d.transform d.world d.scope input with
      | error e => rfl
      | ok output =>
        dsimp only [identify]
        cases ClassFile.decode output with
        | error e => rfl
        | ok outputClass =>
          dsimp only
          cases outputClass.name? with
          | none => rfl
          | some outputName => rfl

theorem run_unidentified {e : DebugError} (failed : identify .decode input = .error e) :
    d.run input = throw e := by
  rw [run_eq, failed]

theorem conclude_failed {e : TransformError}
    (failed : d.transform d.world d.scope input = .error e) :
    d.conclude name input = throw (.transform e) := by
  rw [conclude, failed]

theorem conclude_unidentified {e : DebugError}
    (transformed : d.transform d.world d.scope input = .ok output)
    (failed : identify .invalidOutput output = .error e) :
    d.conclude name input = throw e := by
  rw [conclude, transformed]
  dsimp only
  rw [failed]

/-- The last thing a run does is to keep the output side. -/
theorem conclude_cases (name : String)
    (transformed : d.transform d.world d.scope input = .ok output)
    (identified : identify .invalidOutput output = .ok (c, name')) (a : Artifacts) :
    (∃ a', d.sink.Keeps (outputPath d.dir name') output (name' ++ ".out") c a a' ∧
        d.conclude name input a = .ok (d.report name name' input output) a') ∨
      ∃ fault a', d.conclude name input a = .error (.io fault) a' ∧
        Touches (outputPath d.dir name' :: d.sink.paths (name' ++ ".out")) a.files a'.files := by
  have step : d.conclude name input =
      d.sink.keep (outputPath d.dir name') output (name' ++ ".out") c >>= fun _ =>
        pure (d.report name name' input output) := by
    rw [conclude, transformed]
    dsimp only
    rw [identified]
  rw [step, outputPath_eq, Debugging.bind_apply]
  rcases d.sink.keep_cases d.dir (name' ++ ".out") output (name' ++ ".out") c a with
    ⟨a', kept, keeps⟩ | ⟨fault, a', failed, touches⟩
  · refine .inl ⟨a', keeps, ?_⟩
    rw [kept]
    rfl
  · refine .inr ⟨fault, a', ?_, touches⟩
    rw [failed]

/-- Once its input side is kept, which does not depend on the transformation, a run goes on from
what it left. -/
theorem run_cases (identified : identify .decode input = .ok (c, name)) (a : Artifacts) :
    (∃ a', d.sink.Keeps (inputPath d.dir name) input name c a a' ∧ ∀ transform : Transform,
        ({ d with transform } : DebugDriver).run input a =
          ({ d with transform } : DebugDriver).conclude name input a') ∨
      ∃ fault a', d.run input a = .error (.io fault) a' ∧
        Touches (inputPath d.dir name :: d.sink.paths name) a.files a'.files := by
  have start (transform : Transform) :
      ({ d with transform } : DebugDriver).run input =
        d.sink.keep (inputPath d.dir name) input name c >>= fun _ =>
          ({ d with transform } : DebugDriver).conclude name input := by
    rw [run_eq, identified]
  rcases d.sink.keep_cases d.dir name input name c a with
    ⟨a', kept, keeps⟩ | ⟨fault, a', failed, touches⟩
  · refine .inl ⟨a', keeps, fun transform => ?_⟩
    rw [start, Debugging.bind_apply, kept]
  · refine .inr ⟨fault, a', ?_, touches⟩
    rw [show d.run input = _ from start d.transform, Debugging.bind_apply, failed]

/-- No file operation failed. -/
def isUnhindered : EStateM.Result DebugError Artifacts DebugReport → Bool
  | .error (.io _) _ => false
  | _ => true

theorem isUnhindered_io (fault : String) : isUnhindered (.error (.io fault) a) = false := rfl

/-- A run of bytes that are no class with a name leaves everything as it was.  Any other run, unless
a file operation fails, has kept the input side before the transformation is called, whatever that
may be: it leaves just this if the transformation fails or gives no class with a name, and otherwise
has kept the output side too. -/
theorem stopped_run_leaves_front (d : DebugDriver) (input : Bytes) (a : Artifacts) :
    (∀ e, ClassFile.decode input = .error e → d.run input a = .error (.decode e) a) ∧
    (∀ c, ClassFile.decode input = .ok c → c.name? = none → d.run input a = .error .unnamed a) ∧
    ∀ c name, ClassFile.decode input = .ok c → c.name? = some name →
      isUnhindered (d.run input a) →
        ∃ a', d.sink.Keeps (inputPath d.dir name) input name c a a' ∧ ∀ transform : Transform,
          let answer := ({ d with transform } : DebugDriver).run input a
          (∀ e, transform d.world d.scope input = .error e → answer = .error (.transform e) a') ∧
          ∀ output, transform d.world d.scope input = .ok output →
            (∀ e, ClassFile.decode output = .error e → answer = .error (.invalidOutput e) a') ∧
            (∀ c', ClassFile.decode output = .ok c' → c'.name? = none →
              answer = .error .unnamed a') ∧
            ∀ c' name', ClassFile.decode output = .ok c' → c'.name? = some name' →
              isUnhindered answer →
                ∃ a'', d.sink.Keeps (outputPath d.dir name') output (name' ++ ".out") c' a' a'' ∧
                  answer = .ok (d.report name name' input output) a'' := by
  refine ⟨fun e broken => ?_, fun c decoded unnamed => ?_,
    fun c name decoded named unhindered => ?_⟩
  · rw [run_unidentified (identify_broken broken)]
    rfl
  · rw [run_unidentified (identify_unnamed decoded unnamed)]
    rfl
  · rcases d.run_cases (identify_named decoded named) a with
      ⟨a', keeps, goesOn⟩ | ⟨fault, a', failed, -⟩
    · refine ⟨a', keeps, fun transform => ?_⟩
      rw [goesOn transform]
      refine ⟨fun e failed => ?_, fun output transformed => ⟨fun e broken => ?_,
        fun c' decoded' unnamed => ?_, fun c' name' decoded' named' unhindered' => ?_⟩⟩
      · rw [conclude_failed failed]
        rfl
      · rw [conclude_unidentified transformed (identify_broken broken)]
        rfl
      · rw [conclude_unidentified transformed (identify_unnamed decoded' unnamed)]
        rfl
      · rcases conclude_cases (d := { d with transform }) name transformed
          (identify_named decoded' named') a' with kept | ⟨fault, a'', stopped, -⟩
        · exact kept
        · rw [stopped, isUnhindered_io] at unhindered'
          contradiction
    · rw [failed, isUnhindered_io] at unhindered
      contradiction

theorem stopped_run_leaves_front_failing :
    let d : DebugDriver := { dir := "out", sink := .files "traces", world := {}, scope := ⟨0⟩ }
    let c := ClassFile.new "A" objectName
    ∃ a', d.sink.Keeps (inputPath "out" "A") c.encode "A" c {} a' ∧
      ({ d with transform := .failing "no" } : DebugDriver).run c.encode {} =
        .error (.transform (.analysis "no")) a' ∧
      ∃ a'', d.sink.Keeps (outputPath "out" "A") c.encode "A.out" c a' a'' ∧
        d.run c.encode {} = .ok (d.report "A" "A" c.encode c.encode) a'' := by
  intro d c
  have decoded : ClassFile.decode c.encode = .ok c := by decide +kernel
  have named : c.name? = some "A" := by decide +kernel
  have unhindered : isUnhindered (d.run c.encode {}) := by decide +kernel
  obtain ⟨a', keeps, stops⟩ :=
    (stopped_run_leaves_front d c.encode {}).2.2 c "A" decoded named unhindered
  refine ⟨a', keeps, (stops (.failing "no")).1 _ rfl, ?_⟩
  exact ((stops .identity).2 c.encode rfl).2.2 c "A" decoded named unhindered

/-! ### Completed runs -/

/-- The sides of a run in which nothing but a file operation can fail. -/
structure Sides (d : DebugDriver) (input : Bytes) where
  inputClass : ClassFile
  inputName : String
  output : Bytes
  outputClass : ClassFile
  outputName : String
  decoded : ClassFile.decode input = .ok inputClass
  named : inputClass.name? = some inputName
  transformed : d.transform d.world d.scope input = .ok output
  outputDecoded : ClassFile.decode output = .ok outputClass
  outputNamed : outputClass.name? = some outputName

/-- What is reported when both sides are kept. -/
def Sides.report (s : d.Sides input) : DebugReport :=
  d.report s.inputName s.outputName input s.output

theorem of_conclude_ok {r : DebugReport} {a'' : Artifacts}
    (ran : d.conclude name input a' = .ok r a'') :
    ∃ output c' name', d.transform d.world d.scope input = .ok output ∧
      identify .invalidOutput output = .ok (c', name') ∧
      r = d.report name name' input output ∧
      d.sink.Keeps (outputPath d.dir name') output (name' ++ ".out") c' a' a'' := by
  cases transformed : d.transform d.world d.scope input with
  | error e =>
    rw [conclude_failed transformed] at ran
    contradiction
  | ok output =>
    cases identified : identify .invalidOutput output with
    | error e =>
      rw [conclude_unidentified transformed identified] at ran
      contradiction
    | ok side =>
      rcases conclude_cases name transformed identified a' with
        ⟨b, keeps, finished⟩ | ⟨fault, b, stopped, -⟩
      · rw [finished] at ran
        cases ran
        exact ⟨output, side.1, side.2, rfl, identified, rfl, keeps⟩
      · rw [stopped] at ran
        contradiction

/-- A run that reports has kept the one side and then the other. -/
theorem sides_of_run {r : DebugReport} {a'' : Artifacts} (ran : d.run input a = .ok r a'') :
    ∃ (s : d.Sides input) (a' : Artifacts), r = s.report ∧
      d.sink.Keeps r.inputPath input s.inputName s.inputClass a a' ∧
      d.sink.Keeps r.outputPath s.output (s.outputName ++ ".out") s.outputClass a' a'' := by
  cases identified : identify .decode input with
  | error e =>
    rw [run_unidentified identified] at ran
    contradiction
  | ok side =>
    rcases d.run_cases identified a with ⟨a', keeps, goesOn⟩ | ⟨fault, a', failed, -⟩
    · obtain ⟨output, c', name', transformed, identified', rfl, keeps'⟩ :=
        of_conclude_ok ((goesOn d.transform).symm.trans ran)
      obtain ⟨decoded, named⟩ := of_identify_ok identified
      obtain ⟨decoded', named'⟩ := of_identify_ok identified'
      exact ⟨⟨side.1, side.2, output, c', name', decoded, named, transformed, decoded', named'⟩,
        a', rfl, keeps, keeps'⟩
    · rw [failed] at ran
      contradiction

/-- Whether a run reports, and what it reports and leaves passes a check. -/
def reports (check : DebugReport → Artifacts → Bool) :
    EStateM.Result DebugError Artifacts DebugReport → Bool
  | .ok r a' => check r a'
  | .error .. => false

theorem exists_of_reports {check : DebugReport → Artifacts → Bool}
    {answer : EStateM.Result DebugError Artifacts DebugReport} (passed : reports check answer) :
    ∃ r a', answer = .ok r a' ∧ check r a' := by
  cases answer with
  | ok r a' => exact ⟨r, a', rfl, passed⟩
  | error e a' => contradiction

end DebugDriver

end ClassBench
