import ClassBench.Proofs.List
import ClassBench.Proofs.Verify.ControlFlow
import ClassBench.Proofs.Verify.Linked
import ClassBench.Trace
import Mathlib.Data.List.Basic

/-! Listings of verified classes.  The names that a listing needs are those of the class, of its
members, and of what the entries of the pool stand for, and the verifier has seen to all of them
but one: the class of exceptions that a handler is for.  The bodies can be read as well.  So the
listing is the one that has all these names in their places, and what would stand for things that
are missing makes no difference to it. -/

namespace ClassBench

namespace Trace

/-! ### Listings in which nothing is missing -/

/-- What an entry holds, with the names that it stands for. -/
def detail? (pool : Pool) (index : UInt16) : Constant → Option String
  | .utf8 text => some (quoted text)
  | .integer value => some s!"{value}"
  | .float bits => some (FloatFormat.single.text bits.toNat ++ "f")
  | .long value => some s!"{value}L"
  | .double bits => some (FloatFormat.double.text bits.toNat ++ "d")
  | .classRef text => (pool.className? index).map fun name => s!"#{text} // {name}"
  | .moduleRef text | .packageRef text => (pool.utf8? text).map fun name => s!"#{text} // {name}"
  | .string text => (pool.utf8? text).map fun value => s!"#{text} // {quoted value}"
  | .methodType text => (pool.utf8? text).map fun descriptor => s!"#{text} // {descriptor}"
  | .fieldRef owner signature | .methodRef owner signature | .interfaceMethodRef owner signature =>
    (pool.member? index).map fun m =>
      s!"#{owner}.#{signature} // {m.owner}.{m.name}{m.descriptor}"
  | .nameAndType first second =>
    (pool.nameAndType? index).map fun (name, descriptor) =>
      s!"#{first}:#{second} // {name}:{descriptor}"
  | .methodHandle mode member =>
    (pool.member? member).map fun m => s!"{mode}:#{member} // {m.owner}.{m.name}{m.descriptor}"
  | .dynamic bootstrap signature | .invokeDynamic bootstrap signature =>
    (pool.nameAndType? signature).map fun (name, descriptor) =>
      s!"#{bootstrap}:#{signature} // {name}:{descriptor}"

/-- The line of an entry. -/
def entryLine? (pool : Pool) (index : UInt16) (c : Constant) : Option String :=
  (detail? pool index c).map fun detail => s!"  #{index} = {c.kind.name} {detail}"

/-- What stands behind the index in an instruction. -/
def comment? (pool : Pool) (index : UInt16) : Option String :=
  (pool.get? index).bind fun
    | .classRef _ => (pool.className? index).map fun name => s!" // {name}"
    | .string text => (pool.utf8? text).map fun value => s!" // {quoted value}"
    | .integer value => some s!" // {value}"
    | .invokeDynamic _ signature =>
      (pool.nameAndType? signature).map fun (name, descriptor) => s!" // {name}{descriptor}"
    | .fieldRef .. | .methodRef .. | .interfaceMethodRef .. =>
      (pool.member? index).map fun m => s!" // {m.owner}.{m.name}{m.descriptor}"
    | _ => some ""

/-- An instruction with its offset. -/
def instruction? (pool : Pool) (i : Instruction) : Option String :=
  match i.poolIndex? with
  | some index =>
    (comment? pool index).map fun text => s!"{i.offset}: {i.opcode.mnemonic} #{index}{text}"
  | none => some s!"{i.offset}: {i.opcode.mnemonic}{operands i}"

/-- The lines of a body, if the method has one. -/
def body? (pool : Pool) (m : Member) : Option (List String) :=
  match m.code? pool with
  | .ok (some c) => do
    let is ← (Instruction.split c.code).toOption
    let instructions ← is.mapM (instruction? pool)
    return instructions.map ("    " ++ ·) ++ c.handlers.map (handlerLine {} pool) ++
      [s!"    MAXSTACK = {c.maxStack}", s!"    MAXLOCALS = {c.maxLocals}"]
  | .ok none => some []
  | .error _ => none

/-- The lines of a member, with a text between its name and its descriptor. -/
def member? (pool : Pool) (separator : String) (m : Member) : Option (List String) := do
  let name ← m.name? pool
  let descriptor ← m.descriptor? pool
  let words := Access.keywords m.access ++ [name]
  return ["", "  // access flags " ++ Hex.marked m.access.toNat,
    "  " ++ " ".intercalate words ++ separator ++ descriptor]

/-- The lines of a method with its body. -/
def method? (pool : Pool) (m : Member) : Option (List String) := do
  let head ← member? pool "" m
  let body ← body? pool m
  return head ++ body

/-- The line that declares a class, whose super class and interfaces all have names. -/
def declaration? (c : ClassFile) : Option String := do
  let name ← c.name?
  let super ← if c.superClass = 0 then some "" else c.superName?.map (" extends " ++ ·)
  let names ← c.interfaces.mapM c.pool.className?
  let words := Access.keywords (c.access &&& ~~~Access.isAbstract) ++ [kindWord c]
  let interfaces := if names.isEmpty then "" else " implements " ++ ", ".intercalate names
  return " ".intercalate words ++ " " ++ name ++ super ++ interfaces ++ " \x7b"

/-- The lines of a listing with all the names in their places.  There are none if one is missing, or
a body cannot be read. -/
def lines? (c : ClassFile) : Option (List String) := do
  let declaration ← declaration? c
  let entries ← c.pool.indexed.mapM fun (index, entry) => entryLine? c.pool index entry
  let fields ← c.fields.mapM (member? c.pool " ")
  let methods ← c.methods.mapM (method? c.pool)
  return [s!"// class version {c.major}.{c.minor}",
    "// access flags " ++ Hex.marked c.access.toNat, declaration, "",
    s!"  // constant pool ({c.pool.count} slots)"] ++ entries ++ fields.flatten ++
    methods.flatten ++ ["\x7d"]

/-! ### What a verified class has in it -/

theorem toString_text (text : String) : toString text = text := rfl

variable {pool : Pool} {index : UInt16} {c : Constant} (marks : Placeholders)

section Entries

variable (linked : ∀ e ∈ pool.entries, e.Linked pool)
include linked

theorem detail?_linked (found : pool.get? index = some c) :
    detail? pool index c = some (detail marks pool index c) := by
  have own := linked c (Pool.mem_entries_of_get? found)
  have resolved := Pool.resolves linked found
  cases c with
  | utf8 | integer | float | long | double => rfl
  | classRef text =>
    obtain ⟨name, named⟩ := Option.isSome_iff_exists.mp resolved
    have text : pool.utf8? text = some name := by rwa [Pool.className?, found] at named
    simp [detail?, detail, orUnknown, named, text]
  | moduleRef text | packageRef text | string text | methodType text =>
    obtain ⟨name, named⟩ := Pool.Holds.utf8? own
    simp [detail?, detail, orUnknown, named]
  | nameAndType =>
    obtain ⟨name, named⟩ := own.1.utf8?
    obtain ⟨descriptor, described⟩ := own.2.utf8?
    simp [detail?, detail, orUnknown, Pool.nameAndType?, found, named, described, toString_text]
  | fieldRef | methodRef | interfaceMethodRef | methodHandle =>
    obtain ⟨member, told⟩ := Option.isSome_iff_exists.mp resolved
    simp [detail?, detail, orUnknown, memberText, told, toString_text, String.append_assoc]
  | dynamic bootstrap signature | invokeDynamic bootstrap signature =>
    obtain ⟨signed, told⟩ := Pool.Holds.nameAndType? linked own
    simp [detail?, detail, told]

theorem comment?_linked {kinds : List ConstantKind} (holds : pool.Holds kinds index) :
    comment? pool index = some (comment marks pool index) := by
  obtain ⟨c, found, -⟩ := holds
  have own := linked c (Pool.mem_entries_of_get? found)
  have resolved := Pool.resolves linked found
  simp only [comment?, comment, found, Option.bind_some]
  cases c with
  | classRef text =>
    obtain ⟨name, named⟩ := Option.isSome_iff_exists.mp resolved
    simp [orUnknown, named, toString_text]
  | string text =>
    obtain ⟨name, named⟩ := Pool.Holds.utf8? own
    simp [orUnknown, named, toString_text]
  | invokeDynamic bootstrap signature =>
    obtain ⟨signed, told⟩ := Pool.Holds.nameAndType? linked own
    simp [told]
  | fieldRef | methodRef | interfaceMethodRef =>
    obtain ⟨member, told⟩ := Option.isSome_iff_exists.mp resolved
    simp [memberText, told, toString_text, String.append_assoc]
  | integer => rfl
  | _ => simp [Pool.member?, found]

theorem instruction?_linked {i : Instruction}
    (entries : ∀ index, i.poolIndex? = some index → pool.Holds i.opcode.operandKinds index) :
    instruction? pool i = some (instruction marks pool i) := by
  unfold instruction? instruction
  cases used : i.poolIndex? with
  | none => simp [toString_text]
  | some index =>
    simp [comment?_linked marks linked (entries index used), toString_text, String.append_assoc]

variable (uncaught : marks.uncaught = "?")
include uncaught

theorem body?_sound {m : Member} (sound : m.SoundBody pool) :
    body? pool m = some (body marks pool m) := by
  unfold body? body
  cases read : m.code? pool with
  | error e =>
    rw [Member.soundBody_iff, read] at sound
    split at sound
    · cases sound
    · obtain ⟨code, read', -⟩ := sound
      cases read'
  | ok code =>
    cases code with
    | none => rfl
    | some code =>
      obtain ⟨-, is, tiles, row⟩ := sound.sound_code read
      have split := Instruction.split_eq_ok.mpr tiles
      have handlers : handlerLine marks pool = handlerLine {} pool := by
        funext h
        unfold handlerLine
        rw [uncaught]
      have instructions : is.mapM (instruction? pool) = some (is.map (instruction marks pool)) := by
        rw [List.mapM_eq_some, List.map_map]
        exact List.map_congr_left fun i member =>
          instruction?_linked marks linked (row.entries i member)
      simp [Trace.code, split, handlers, instructions, Except.toOption]

end Entries

theorem member?_declared {type : List Char → Prop} {m : Member} (declares : m.Declares pool type)
    (separator : String) : member? pool separator m = some (member marks pool separator m) := by
  obtain ⟨name, descriptor, named, described, -⟩ := declares
  rw [← Pool.utf8?_eq_some] at named described
  simp [member?, member, Member.name?, Member.descriptor?, orUnknown, named, described]

theorem interfaceNames_sound {c : ClassFile} (sound : c.Sound) :
    c.interfaces.map c.pool.className? = c.interfaceNames.map some := by
  have all : ∀ name ∈ c.interfaces.map c.pool.className?, name.isSome = true := by
    simp only [List.forall_mem_map]
    intro index member
    obtain ⟨name, named⟩ := sound.interfaces index member
    exact Option.isSome_of_eq_some (Pool.className?_eq_some.mpr named)
  rw [ClassFile.interfaceNames, List.map_filterMap_some_eq_filter_map_isSome,
    List.filter_eq_self.mpr all]

theorem declaration?_sound {c : ClassFile} (sound : c.Sound) :
    declaration? c = some (declaration marks c) := by
  obtain ⟨name, named⟩ := sound.thisClass
  have isNamed : c.name? = some name := Pool.className?_eq_some.mpr named
  have interfaces := List.mapM_eq_some.mpr (interfaceNames_sound sound)
  unfold declaration? declaration
  rcases sound.superClass with ⟨super, extended⟩ | ⟨zero, -⟩
  · have isSuper : c.superName? = some super := Pool.className?_eq_some.mpr extended
    have nonzero : c.superClass ≠ 0 := by
      intro zero
      obtain ⟨text, found, -⟩ := extended
      rw [zero, Pool.get?_zero] at found
      cases found
    simp [isNamed, interfaces, isSuper, nonzero, orUnknown]
  · have noSuper : c.superName? = none := by
      rw [ClassFile.superName?, Pool.className?, zero, Pool.get?_zero]
    simp [isNamed, interfaces, noSuper, zero, orUnknown]

/-- The listing of a class that obeys the rules has all the names in their places. -/
theorem lines?_sound {c : ClassFile} (few : c.pool.slots.size ≤ 65535) (sound : c.Sound)
    (uncaught : marks.uncaught = "?") : lines? c = some (lines marks c) := by
  have linked := sound.entries
  have entries : (c.pool.indexed.mapM fun (index, entry) => entryLine? c.pool index entry) =
      some (c.pool.indexed.map fun (index, entry) => entryLine marks c.pool index entry) := by
    rw [List.mapM_eq_some, List.map_map]
    refine List.map_congr_left fun ⟨index, e⟩ listed => ?_
    have found := Pool.get?_of_mem_indexed few listed
    simp [entryLine?, entryLine, detail?_linked marks linked found]
  have fields : c.fields.mapM (member? c.pool " ") =
      some (c.fields.map (member marks c.pool " ")) := by
    rw [List.mapM_eq_some, List.map_map]
    exact List.map_congr_left fun m mem => member?_declared marks (sound.fields m mem) " "
  have methods : c.methods.mapM (method? c.pool) =
      some (c.methods.map fun m => member marks c.pool "" m ++ body marks c.pool m) := by
    rw [List.mapM_eq_some, List.map_map]
    refine List.map_congr_left fun m mem => ?_
    simp [method?, member?_declared marks (sound.methods m mem),
      body?_sound marks linked uncaught (sound.bodies m mem)]
  unfold lines? lines
  rw [declaration?_sound marks sound, entries, fields, methods, List.flatMap_def, List.flatMap_def]
  rfl

end Trace

namespace ClassFile

/-- A class that the verifier accepts resolves completely, if an index can tell the slots of its
pool apart: the class and its interfaces have names, the members have names and descriptors, and
whatever an entry of the pool stands for is found.  So all these names are in their places in the
listing, and it uses none of the placeholders, except for the classes of exceptions that handlers
are for. -/
theorem verified_class_resolves (c : ClassFile) (few : c.pool.slots.size ≤ 65535)
    (verified : c.verify = .ok ()) :
    c.name?.isSome ∧
    c.interfaces.map c.pool.className? = c.interfaceNames.map some ∧
    (∀ m ∈ c.fields ++ c.methods, (m.name? c.pool).isSome ∧ (m.descriptor? c.pool).isSome) ∧
    (∀ index e, c.pool.get? index = some e → c.pool.Resolves index e) ∧
    Trace.lines? c = some (Trace.lines {} c) ∧
    ∀ marks : Trace.Placeholders, marks.uncaught = "?" → c.traceWith marks = c.trace := by
  have sound := sound_of_verify verified
  have named := Trace.lines?_sound {} few sound rfl
  refine ⟨?_, Trace.interfaceNames_sound sound, ?_, fun index e => Pool.resolves sound.entries,
    named, ?_⟩
  · obtain ⟨name, named⟩ := sound.thisClass
    exact Option.isSome_of_eq_some (Pool.className?_eq_some.mpr named)
  · have declared {type : List Char → Prop} {m : Member} (declares : m.Declares c.pool type) :
        (m.name? c.pool).isSome ∧ (m.descriptor? c.pool).isSome := by
      obtain ⟨name, descriptor, named, described, -⟩ := declares
      exact ⟨Option.isSome_of_eq_some (Pool.utf8?_eq_some.mpr named),
        Option.isSome_of_eq_some (Pool.utf8?_eq_some.mpr described)⟩
    intro m member
    rcases List.mem_append.mp member with field | method
    · exact declared (sound.fields m field)
    · exact declared (sound.methods m method)
  · intro marks uncaught
    -- Both listings are the one that has no placeholders.
    have same := (Trace.lines?_sound marks few sound uncaught).symm.trans named
    rw [trace, traceWith, traceWith, Option.some.inj same]

/-- A class with a call of a method of another one, a handle to that method, and a handler that is
for a text instead of a class. -/
def callingClass : ClassFile :=
  let code : Code := {
    maxStack := 0, maxLocals := 0, code := [0xB8, 0, 12, 0xB1], handlers := [⟨0, 3, 3, 1⟩] }
  let pool := ((do
    let _ ← Pool.classRef "A"
    let _ ← Pool.classRef objectName
    let _ ← Pool.utf8 "m"
    let _ ← Pool.utf8 plainDescriptor
    let _ ← Pool.utf8 codeName
    let method ← Pool.methodRef ⟨"B", "n", plainDescriptor⟩
    Pool.push (.methodHandle 6 method) : StateM Pool UInt16) Pool.empty).2
  { pool, thisClass := 2, superClass := 4, interfaces := [9], methods := [onlyMethod code] }

theorem verified_class_resolves_calling :
    callingClass.pool.slots.size ≤ 65535 ∧ callingClass.verify = .ok () ∧
      callingClass.pool.get? 13 = some (.methodHandle 6 12) ∧
      (callingClass.pool.member? 12).isSome ∧
      callingClass.interfaces.map callingClass.pool.className? = ["B"].map some ∧
      "    0: invokestatic #12 // B.n()V" ∈ Trace.lines {} callingClass ∧
      callingClass.traceWith { unknown := "", invalid := "", malformed := fun _ => "" } =
        callingClass.trace := by
  have few : callingClass.pool.slots.size ≤ 65535 := by decide +kernel
  have verified : callingClass.verify = .ok () := by decide +kernel
  have handle : callingClass.pool.get? 13 = some (.methodHandle 6 12) := by decide +kernel
  have named : callingClass.interfaceNames = ["B"] := by decide +kernel
  have call : "    0: invokestatic #12 // B.n()V" ∈ (Trace.lines? callingClass).getD [] := by
    decide +kernel
  obtain ⟨-, interfaces, -, resolves, lines, listing⟩ :=
    verified_class_resolves callingClass few verified
  rw [lines] at call
  exact ⟨few, verified, handle, resolves 13 _ handle, named ▸ interfaces, call, listing _ rfl⟩

end ClassFile

end ClassBench
