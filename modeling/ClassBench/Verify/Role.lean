import ClassBench.Constant
import ClassBench.Opcode

/-! The roles that pool entries play for whatever refers to them.  Each entry asks for entries in
certain roles, and each opcode with a pool index asks for one; a role accepts certain kinds. -/

namespace ClassBench

/-- What a reference expects to find. -/
inductive Role where
  | utf8 | classRef | nameAndType | member | loadable | wideNumber
  | fieldRef | methodRef | interfaceMethodRef | invokeDynamic
  deriving DecidableEq, Repr

namespace Role

/-- The words for a role. -/
def label : Role → String
  | utf8 => "Utf8"
  | classRef => "Class"
  | nameAndType => "NameAndType"
  | member => "member reference"
  | loadable => "loadable constant"
  | wideNumber => "Long or Double"
  | fieldRef => "Fieldref"
  | methodRef => "Methodref"
  | interfaceMethodRef => "InterfaceMethodref"
  | invokeDynamic => "InvokeDynamic"

/-- Whether entries of a kind can play a role.  The method of a class may be one of an interface. -/
def accepts : Role → ConstantKind → Bool
  | utf8, .utf8 => true
  | classRef, .classRef => true
  | nameAndType, .nameAndType => true
  | member, .fieldRef | member, .methodRef | member, .interfaceMethodRef => true
  | loadable, .integer | loadable, .float | loadable, .string | loadable, .classRef
  | loadable, .methodType | loadable, .methodHandle | loadable, .dynamic => true
  | wideNumber, .long | wideNumber, .double => true
  | fieldRef, .fieldRef => true
  | methodRef, .methodRef | methodRef, .interfaceMethodRef => true
  | interfaceMethodRef, .interfaceMethodRef => true
  | invokeDynamic, .invokeDynamic => true
  | _, _ => false

/-- The role of the pool entry that an instruction with this opcode uses. -/
def ofOpcode : Opcode → Role
  | .ldc | .ldc_w => loadable
  | .ldc2_w => wideNumber
  | .getstatic | .putstatic | .getfield | .putfield => fieldRef
  | .invokevirtual | .invokespecial | .invokestatic => methodRef
  | .invokeinterface => interfaceMethodRef
  | .invokedynamic => invokeDynamic
  | _ => classRef

end Role

/-- The entries that an entry refers to, with their roles, in the order of its fields. -/
def Constant.references : Constant → List (Role × UInt16)
  | classRef name | moduleRef name | packageRef name => [(.utf8, name)]
  | string text => [(.utf8, text)]
  | methodType descriptor => [(.utf8, descriptor)]
  | fieldRef owner signature | methodRef owner signature | interfaceMethodRef owner signature =>
    [(.classRef, owner), (.nameAndType, signature)]
  | nameAndType name descriptor => [(.utf8, name), (.utf8, descriptor)]
  | methodHandle _ member => [(.member, member)]
  | dynamic _ signature | invokeDynamic _ signature => [(.nameAndType, signature)]
  | utf8 _ | integer _ | float _ | long _ | double _ => []

end ClassBench
