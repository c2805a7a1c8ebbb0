import ClassBench.Config
import ClassBench.Crc32
import ClassBench.Debug.Error
import ClassBench.FileTree
import ClassBench.Trace

/-! Debug runs.  A run transforms one class and keeps what is needed to compare both sides: the
bytes of the input and of the output, in files named after the classes, and a trace of each.  What
was written before a run stops stays written. -/

namespace ClassBench

/-- The path of a class file among artifacts in a directory. -/
def inputPath (dir name : String) : String := Path.join dir (name ++ ".class")

/-- The path of a transformed class file among artifacts in a directory. -/
def outputPath (dir name : String) : String := Path.join dir (name ++ ".out.class")

/-- The path of a trace among traces in a directory. -/
def tracePath (dir key : String) : String := Path.join dir (key ++ ".txt")

/-- The path of a class below a root, by its name with dots or slashes. -/
def classPathOf (logicalName : String) : String :=
  String.ofList (logicalName.toList.map fun c => if c = '.' then '/' else c) ++ ".class"

/-- Where traces go: into memory, or to files in a directory. -/
inductive TraceSink where
  | memory
  | files (dir : String)
  deriving DecidableEq, Repr

/-- How debug runs are done. -/
structure DebugDriver where
  transform : Transform := Transform.identity
  /-- Where class files are written. -/
  dir : String
  sink : TraceSink
  /-- The roots that are searched for a class of a given name. -/
  classPath : List String := []
  /-- The types that the transformation may look up. -/
  world : World
  scope : ScopeId

/-- The driver that a configuration describes. -/
def DebugDriver.ofConfig (c : Config) (transform : Transform) (world : World) (scope : ScopeId) :
    DebugDriver where
  transform := transform
  dir := c.debugDir
  sink := .files c.effectiveTraceDir
  classPath := c.classPath
  world := world
  scope := scope

/-- What debug runs leave behind: files, and the traces kept in memory in the order in which they
were saved. -/
structure Artifacts where
  files : FileTree := {}
  traces : List (String × String) := []

/-- The latest trace kept in memory under a key. -/
def Artifacts.trace? (a : Artifacts) (key : String) : Option String := a.traces.reverse.lookup key

/-- What a debug run reports. -/
structure DebugReport where
  inputName : String
  outputName : String
  inputPath : String
  outputPath : String
  inputChecksum : UInt32
  outputChecksum : UInt32
  deriving DecidableEq, Repr

/-- Whether the checksums tell the two sides apart. -/
def DebugReport.changed (r : DebugReport) : Bool := r.inputChecksum != r.outputChecksum

/-- A step of a debug run. -/
abbrev Debugging := EStateM DebugError Artifacts

namespace Debugging

/-- Writes a file, in place of an old one, and the directories around it. -/
def write (path : String) (bytes : Bytes) : Debugging Unit := do
  let (made, files) := (← get).files.makeDirectories (Path.parent path)
  modify fun a => { a with files }
  if !made then throw (.io (Path.parent path))
  match files.locate? path with
  | none => throw (.io path)
  | some place =>
    if files.node? place = some .directory then throw (.io path)
    modify fun a => { a with files := files.put place (.file bytes) }

/-- Saves the trace of a class. -/
def saveTrace (sink : TraceSink) (key : String) (c : ClassFile) : Debugging Unit :=
  match sink with
  | .memory => modify fun a => { a with traces := a.traces ++ [(key, c.trace)] }
  | .files dir => write (tracePath dir key) c.trace.toUTF8.toList

end Debugging

namespace DebugDriver

/-- Transforms a class and keeps both sides. -/
def run (d : DebugDriver) (input : Bytes) : Debugging DebugReport := do
  match ClassFile.decode input with
  | .error e => throw (.decode e)
  | .ok inputClass =>
    match inputClass.name? with
    | none => throw .unnamed
    | some inputName =>
      let inputPath := inputPath d.dir inputName
      Debugging.write inputPath input
      Debugging.saveTrace d.sink inputName inputClass
      match d.transform d.world d.scope input with
      | .error e => throw (.transform e)
      | .ok output =>
        match ClassFile.decode output with
        | .error e => throw (.invalidOutput e)
        | .ok outputClass =>
          match outputClass.name? with
          | none => throw .unnamed
          | some outputName =>
            let outputPath := outputPath d.dir outputName
            Debugging.write outputPath output
            Debugging.saveTrace d.sink (outputName ++ ".out") outputClass
            let inputChecksum := Crc32.checksum input
            let outputChecksum := Crc32.checksum output
            return {
              inputName, outputName, inputPath, outputPath, inputChecksum, outputChecksum }

/-- Transforms the class of a name, from the first root that holds it. -/
def runNamed (d : DebugDriver) (logicalName : String) : Debugging DebugReport := do
  let files := (← get).files
  let found := d.classPath.findSome? fun root =>
    files.read? (Path.join root (classPathOf logicalName))
  match found with
  | some bytes => d.run bytes
  | none => throw (.classNotFound logicalName d.classPath.length)

/-- Transforms the class file that a loaded type was defined by. -/
def runLoaded (d : DebugDriver) (t : LoadedType) : Debugging DebugReport := d.run t.bytes

end DebugDriver

end ClassBench
