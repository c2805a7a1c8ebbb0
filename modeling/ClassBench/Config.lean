import ClassBench.Config.Toml
import ClassBench.Pool.Index

/-! The configuration of the bench.  Every setting has a default, so that an empty file is a
configuration; a key that is no setting, or a value of the wrong form, is refused like a syntax
error. -/

namespace ClassBench

/-- The settings. -/
structure Config where
  /-- Where debug runs write class files. -/
  debugDir : String := "target/classes2"
  /-- Where they write traces, if not there too. -/
  traceDir : Option String := none
  /-- The roots that are searched for a class of a given name. -/
  classPath : List String := []
  /-- The type that a transformation should leave no reference to. -/
  marker : String := "com/ea/async/Async"
  /-- The type that fixtures are nested in. -/
  owner : String := "asyncfix/Fixtures"
  deriving DecidableEq, Repr

/-- Why a configuration cannot be used. -/
inductive ConfigError where
  | unreadable
  | syntactic
  /-- A setting that needs a text and has none. -/
  | emptySetting (setting : String)
  /-- A setting that names a type and does not do so in the internal form. -/
  | invalidName (setting name : String)
  deriving DecidableEq, Repr

/-- The name of the cause. -/
def ConfigError.kind : ConfigError → String
  | unreadable => "IoError"
  | syntactic => "ParseError"
  | emptySetting .. | invalidName .. => "ValidationError"

/-- The text of an error. -/
def ConfigError.message : ConfigError → String
  | unreadable => "Failed to read config file"
  | syntactic => "Failed to parse config"
  | emptySetting setting => s!"Invalid config: {setting} cannot be empty"
  | invalidName setting name =>
    s!"Invalid config: Invalid {setting}: {name}. " ++
      "Must be an internal name such as com/example/Type"

/-- Whether a text is a name in the internal form: no dot, and no empty part between slashes. -/
def isInternalName (name : String) : Bool :=
  !name.toList.contains '.' && (name.toList.splitOn '/').all fun part => !part.isEmpty

namespace Config

/-- Where debug runs write traces. -/
def effectiveTraceDir (c : Config) : String := c.traceDir.getD c.debugDir

/-- Finds classes that refer to the marker. -/
def scanner (c : Config) : Scanner := Scanner.new c.marker

/-- Fails unless a setting names a type. -/
def checkName (setting name : String) : Except ConfigError Unit :=
  if name = "" then .error (.emptySetting setting)
  else if isInternalName name then .ok ()
  else .error (.invalidName setting name)

/-- Fails unless the settings make sense. -/
def validate (c : Config) : Except ConfigError Unit := do
  checkName "marker" c.marker
  checkName "owner" c.owner
  if c.debugDir = "" then throw (.emptySetting "debug_dir")

/-- The configuration with one more setting. -/
def set? (c : Config) : String × Toml.Value → Option Config
  | ("debug_dir", .text dir) => some { c with debugDir := dir }
  | ("trace_dir", .text dir) => some { c with traceDir := some dir }
  | ("class_path", .texts roots) => some { c with classPath := roots }
  | ("marker", .text name) => some { c with marker := name }
  | ("owner", .text name) => some { c with owner := name }
  | _ => none

/-- The configuration that a document gives. -/
def parse (document : String) : Except ConfigError Config := do
  match (Toml.parse? document).bind fun entries => entries.foldlM set? {} with
  | none => throw .syntactic
  | some c =>
    c.validate
    return c

/-- The configuration that a file gives, if there is one. -/
def ofFile : Option String → Except ConfigError Config
  | some document => parse document
  | none => .error .unreadable

end Config

end ClassBench
