import ClassBench.Access
import ClassBench.Assembly.Class
import ClassBench.Assembly.Error
import ClassBench.Assembly.Method
import ClassBench.Assembly.Script
import ClassBench.Bytes
import ClassBench.ClassFile
import ClassBench.ClassFile.Codec
import ClassBench.Config
import ClassBench.Config.Toml
import ClassBench.Constant
import ClassBench.Constant.Codec
import ClassBench.Constructor
import ClassBench.Constructor.Error
import ClassBench.Constructor.Value
import ClassBench.Crc32
import ClassBench.Debug
import ClassBench.Debug.Error
import ClassBench.Decimal
import ClassBench.DecodeError
import ClassBench.Deferred.Machine
import ClassBench.Deferred.Program
import ClassBench.Deferred.Script
import ClassBench.Descriptor
import ClassBench.FileTree
import ClassBench.Fixture
import ClassBench.Instruction
import ClassBench.Instruction.Split
import ClassBench.Opcode
import ClassBench.Path
import ClassBench.Pool
import ClassBench.Pool.Codec
import ClassBench.Pool.Index
import ClassBench.Reader
import ClassBench.Reader.Script
import ClassBench.Text.GraphemeExtender
import ClassBench.Text.Hex
import ClassBench.Text.ModifiedUtf8
import ClassBench.Text.Quoted
import ClassBench.Text.Unprintable
import ClassBench.Text.Uppercase
import ClassBench.Text.Utf16
import ClassBench.Trace
import ClassBench.Transform
import ClassBench.TypeDef
import ClassBench.Verify
import ClassBench.Verify.Error
import ClassBench.Verify.Role
import ClassBench.World
import ClassBench.World.Load
import ClassBench.World.LoadError
import ClassBench.World.ScopeError
import ClassBench.World.History
import ClassBench.Proofs.Bytes
import ClassBench.Proofs.Except
import ClassBench.Proofs.List
import ClassBench.Proofs.Path.Parts
import ClassBench.Proofs.Path.Components
import ClassBench.Proofs.Config
import ClassBench.Proofs.FileTree.Places
import ClassBench.Proofs.FileTree.Changes
import ClassBench.Proofs.Reader.Takes
import ClassBench.Proofs.Text.ModifiedUtf8
import ClassBench.Proofs.Pool.RoundTrip
import ClassBench.Proofs.Pool.Raw
import ClassBench.Proofs.Pool.Lookup
import ClassBench.Proofs.Pool.Scan
import ClassBench.Proofs.ClassFile.RoundTrip
import ClassBench.Proofs.ClassFile.Reencoding
import ClassBench.Proofs.Constructor.Body
import ClassBench.Proofs.World.Step
import ClassBench.Proofs.World.Forest
import ClassBench.Proofs.World.Resolution
import ClassBench.Proofs.World.Hierarchy
import ClassBench.Proofs.World.Loaded
import ClassBench.Proofs.World.ConstructorChain
import ClassBench.Proofs.World.Assignability
import ClassBench.Proofs.ClassFile.Delimited
import ClassBench.Proofs.ClassFile.Body
import ClassBench.Proofs.Instruction.Jump
import ClassBench.Proofs.Descriptor.Grammar
import ClassBench.Proofs.Verify.Rules
import ClassBench.Proofs.Verify.Sound
import ClassBench.Proofs.Verify.ControlFlow
import ClassBench.Proofs.Verify.Tables
import ClassBench.Proofs.Verify.Locals
import ClassBench.Proofs.World.Isolation
import ClassBench.Proofs.Assembly.Emission
import ClassBench.Proofs.Assembly.Steps
import ClassBench.Proofs.Assembly.Plan
import ClassBench.Proofs.Constructor.Realized
import ClassBench.Proofs.World.Defining
import ClassBench.Proofs.World.FieldValues
import ClassBench.Proofs.Constructor.Steps
import ClassBench.Proofs.World.Discipline
import ClassBench.Proofs.Assembly.Fixture
import ClassBench.Proofs.World.Creation
import ClassBench.Proofs.World.Atomicity
import ClassBench.Proofs.Pool.Mentions
import ClassBench.Proofs.Assembly.Mentions
import ClassBench.Proofs.Assembly.References
import ClassBench.Proofs.Instruction.Accessors
import ClassBench.Proofs.Assembly.Patching
import ClassBench.Proofs.Assembly.Drafts
import ClassBench.Proofs.Assembly.Accepted
import ClassBench.Proofs.Assembly.Survival
import ClassBench.Proofs.Reader.Fails
import ClassBench.Proofs.Pool.Agreement
import ClassBench.Proofs.Pool.Declared
import ClassBench.Proofs.Pool.Indexed
import ClassBench.Proofs.Pool.Tiling
import ClassBench.Proofs.Verify.Linked
import ClassBench.Proofs.Verify.Listing
import ClassBench.Proofs.Constructor.Failures
import ClassBench.Proofs.World.Failures
import ClassBench.Proofs.Deferred.Steps
import ClassBench.Proofs.Deferred.Termination
import ClassBench.Proofs.Deferred.Draining
import ClassBench.Proofs.Deferred.Record
import ClassBench.Proofs.Deferred.Completion
import ClassBench.Proofs.Deferred.Mapping
import ClassBench.Proofs.Debug.Effects
import ClassBench.Proofs.Debug.Survival
import ClassBench.Proofs.Debug.Confinement
import ClassBench.Proofs.Instruction.Splitting
import ClassBench.Proofs.Descriptor.Slots
import ClassBench.Proofs.Pool.References
import ClassBench.Proofs.Assembly.Disassembly
import ClassBench.Proofs.Assembly.SlotCounts
import ClassBench.Proofs.Fixture.Naming
import ClassBench.Proofs.Assembly.Declarations
import ClassBench.Proofs.Trace.Exposure
import ClassBench.Proofs.Debug.Change
import ClassBench.Proofs.Reader.Strides
import ClassBench.Proofs.Reader.Cursor
