import ClassBench.Proofs.Assembly.Mentions
import ClassBench.Proofs.ClassFile.RoundTrip
import Mathlib.Data.List.Nodup
import Mathlib.Data.List.Perm.Subperm

/-! Which of the classes that are assembled come back from their bytes.  Lengths and counts are cut
to the fields that they are written in, and no step refuses a text or a list for being too long, so
a class that has outgrown the format is written as bytes that are not its own.  Some lists cannot
outgrow it: interfaces are kept apart by their indices, a field has no attributes and a method one
at most, and a class has only the one for its source file. -/

namespace ClassBench

/-! ### What stays small -/

/-- The lists that the steps of assembling keep within bounds: the interfaces are distinct and found
in the pool, a method has at most its body, and the class at most its source file. -/
structure ClassFile.Bounded (c : ClassFile) : Prop where
  distinct : c.interfaces.Nodup
  found : ∀ index ∈ c.interfaces, ∃ e, c.pool.indexOf? e = some index
  fields : ∀ m ∈ c.fields, m.attributes = []
  methods : ∀ m ∈ c.methods, m.attributes.length ≤ 1
  source : c.attributes = [] ∨ ∃ a, c.attributes = [a] ∧ a.info.length = 2 ∧
    c.pool.indexOf? (.utf8 "SourceFile") = some a.name

namespace Assembly

theorem addTo_eq (d : MethodDraft) (c : ClassFile) : ∃ pool m,
    (d.addTo c).2 = { c with pool, methods := c.methods ++ [m] } ∧ m.attributes.length = 1 := by
  obtain ⟨pool, lines⟩ : ∃ pool, (d.lineAttributes c).2 = { c with pool } := by
    unfold MethodDraft.lineAttributes
    split <;> exact ⟨_, rfl⟩
  have step (attributes : List Attribute) (c : ClassFile) :
      ∃ pool m, (addMethod d.access d.name d.descriptor
        ⟨d.maxStack, d.maxLocals, d.code.toList, [], attributes⟩ c).2 =
          { c with pool, methods := c.methods ++ [m] } ∧ m.attributes.length = 1 :=
    ⟨_, _, rfl, rfl⟩
  obtain ⟨pool', m, made, one⟩ := step (d.lineAttributes c).1 (d.lineAttributes c).2
  refine ⟨pool', m, made.trans ?_, one⟩
  rw [lines]

end Assembly

namespace ClassFile.Bounded

variable {c : ClassFile} {pool : Pool} {m : Member}

theorem grow (bounded : c.Bounded) (grows : c.pool.Grows pool) :
    ({ c with pool } : ClassFile).Bounded where
  distinct := bounded.distinct
  found index member := (bounded.found index member).imp fun _ found => grows.indexOf? found
  fields := bounded.fields
  methods := bounded.methods
  source := bounded.source.imp_right fun ⟨a, only, size, found⟩ =>
    ⟨a, only, size, grows.indexOf? found⟩

theorem addMethod (bounded : c.Bounded) (few : m.attributes.length ≤ 1)
    (grows : c.pool.Grows pool) :
    ({ c with pool, methods := c.methods ++ [m] } : ClassFile).Bounded :=
  { bounded.grow grows with
    methods := List.forall_mem_append.mpr
      ⟨bounded.methods, List.forall_mem_singleton.mpr few⟩ }

theorem addInterface (bounded : c.Bounded) (name : String) :
    (Assembly.addInterface name c).2.Bounded := by
  have grows := (Assembly.accrues_addInterface name).growing c
  obtain ⟨interfaces, made, either⟩ := Assembly.addInterface_eq name c
  rw [made] at grows ⊢
  rcases either with ⟨-, rfl⟩ | ⟨new, rfl⟩
  · exact bounded.grow grows
  · have grown := bounded.grow grows
    exact { grown with
      distinct := by
        simpa [List.nodup_append] using ⟨bounded.distinct, fun i member same => new (same ▸ member)⟩
      found := List.forall_mem_append.mpr
        ⟨grown.found, List.forall_mem_singleton.mpr ⟨_, Pool.indexOf?_intern _ _⟩⟩ }

theorem setSourceFile (bounded : c.Bounded) (file : String) :
    (Assembly.setSourceFile file c).2.Bounded := by
  have grows : c.pool.Grows (Assembly.setSourceFile file c).2.pool :=
    (ClassStep.accrues (.setSourceFile file)).growing c
  let name := (Pool.utf8 "SourceFile" c.pool).1
  let value := (Pool.utf8 file (Pool.utf8 "SourceFile" c.pool).2).1
  -- The source file that was named before has the same index for its name, so it goes.
  have gone : c.attributes.filter (fun a => a.name != name) = [] := by
    rcases bounded.source with none | ⟨a, only, -, found⟩
    · rw [none, List.filter_nil]
    · have same : name = a.name := by
        show (Pool.intern (.utf8 "SourceFile") c.pool).1 = a.name
        rw [Pool.intern_eq, found]
      simp [only, same]
  refine { bounded.grow grows with source := .inr ⟨⟨name, .ofUInt16 value⟩, ?_, rfl, ?_⟩ }
  · show c.attributes.filter (fun a => a.name != name) ++ [⟨name, .ofUInt16 value⟩] = [_]
    rw [gone, List.nil_append]
  · exact (Pool.growing_intern _ _).indexOf? (Pool.indexOf?_intern _ _)

theorem writeMethod (bounded : c.Bounded) (access : UInt16) (name descriptor : String)
    (steps : List MethodStep) (dropped : Bool) :
    (Assembly.writeMethod access name descriptor steps dropped c).2.Bounded := by
  have grows := (Assembly.accrues_writeMethod access name descriptor steps dropped).growing c
  rcases Assembly.writeMethod_cases c access name descriptor steps dropped with
    same | ⟨d, -, final, -, owner, -, left | ⟨-, -, added⟩⟩
  · rwa [same]
  · rw [left, owner] at grows ⊢
    exact bounded.grow grows
  · obtain ⟨pool, m, made, one⟩ := Assembly.addTo_eq final final.owner
    rw [added, made, owner] at grows ⊢
    exact bounded.addMethod (Nat.le_of_eq one) grows

end ClassFile.Bounded

open ClassFile (Bounded) in
theorem ClassStep.bounded (step : ClassStep) {c : ClassFile} (bounded : c.Bounded) :
    (step.run c).2.Bounded := by
  have grows := step.accrues.growing c
  cases step with
  | setAccess | setMajor => exact { bounded with }
  | hasMethod | currentName => exact bounded
  | addInterface name => exact bounded.addInterface name
  | addField access name descriptor =>
    exact { bounded.grow grows with
      fields := List.forall_mem_append.mpr
        ⟨bounded.fields, List.forall_mem_singleton.mpr rfl⟩ }
  | addAbstractMethod access name descriptor => exact bounded.addMethod (Nat.zero_le _) grows
  | addMethod access name descriptor code => exact bounded.addMethod (Nat.le_refl _) grows
  | setSourceFile file => exact bounded.setSourceFile file
  | classRef | pool => exact bounded.grow grows
  | method access name descriptor steps dropped =>
    exact bounded.writeMethod access name descriptor steps dropped

namespace ClassFile

theorem bounded_assembled (name super : String) (steps : List ClassStep) :
    (assembled name super steps).Bounded := by
  have all : ∀ c : ClassFile, c.Bounded → (Assembly.runSteps steps c).2.Bounded := by
    induction steps with
    | nil => exact fun _ bounded => bounded
    | cons step steps ih =>
      intro c bounded
      rw [Assembly.runSteps_cons]
      exact ih _ (step.bounded bounded)
  exact all _ ⟨List.nodup_nil, nofun, nofun, nofun, .inl rfl⟩

/-- The interfaces of a class whose pool is counted are no more than their count can tell: the last
index that there is was never handed out. -/
theorem Bounded.interfaces_le {c : ClassFile} (bounded : c.Bounded) (counted : c.pool.Counted) :
    c.interfaces.length ≤ 65535 := by
  have last : 65535 ∉ c.interfaces := by
    intro member
    obtain ⟨e, found⟩ := bounded.found _ member
    obtain ⟨i, here, index⟩ := Pool.slot_of_indexOf? found
    have below := counted i e here
    have wrapped := congrArg UInt16.toNat index
    rw [Nat.toUInt16_eq, UInt16.toNat_ofNat'] at wrapped
    simp at wrapped
    omega
  have distinct : (65535 :: c.interfaces).Nodup := List.nodup_cons.mpr ⟨last, bounded.distinct⟩
  have words : ((65535 :: c.interfaces).map UInt16.toNat).Nodup :=
    distinct.map fun _ _ => UInt16.toNat_inj.mp
  have within : (65535 :: c.interfaces).map UInt16.toNat ⊆ List.range 65536 := by
    intro n member
    obtain ⟨w, -, rfl⟩ := List.mem_map.mp member
    exact List.mem_range.mpr w.toNat_lt
  have length := (List.Nodup.subperm words within).length_le
  rw [List.length_map, List.length_cons, List.length_range] at length
  omega

theorem Bounded.tailFits_iff {c : ClassFile} (bounded : c.Bounded) (counted : c.pool.Counted) :
    c.TailFits ↔ c.fields.length ≤ 65535 ∧ c.methods.length ≤ 65535 ∧
      ∀ m ∈ c.methods, ∀ a ∈ m.attributes, a.info.length < UInt32.size := by
  constructor
  · intro fits
    exact ⟨fits.fields.1, fits.methods.1, fun m member => (fits.methods.2 m member).2⟩
  · rintro ⟨fields, methods, bodies⟩
    refine ⟨bounded.interfaces_le counted, ⟨fields, fun m member => ?_⟩,
      ⟨methods, fun m member => ⟨?_, bodies m member⟩⟩, ?_⟩
    · rw [Member.Fits, bounded.fields m member]
      exact ⟨Nat.zero_le _, nofun⟩
    · exact Nat.le_trans (bounded.methods m member) (by decide)
    · rcases bounded.source with none | ⟨a, only, size, -⟩
      · rw [none]
        exact ⟨Nat.zero_le _, nofun⟩
      · rw [only]
        refine ⟨by simp, List.forall_mem_singleton.mpr ?_⟩
        show a.info.length < UInt32.size
        rw [size]
        decide

/-- For every script, whether or not steps of it are refused: the class that is assembled comes back
from its bytes exactly if every text takes at most 65535 bytes, every entry of the pool stands below
the count that is written, there are at most 65535 fields and at most 65535 methods, and the bodies
are shorter than 2^32 bytes. -/
theorem assembled_survives_iff (name super : String) (steps : List ClassStep) :
    let c := assembled name super steps
    decode c.encode = .ok c ↔
      (∀ e ∈ c.pool.entries, e.Fits) ∧ c.pool.Counted ∧ c.fields.length ≤ 65535 ∧
        c.methods.length ≤ 65535 ∧
          ∀ m ∈ c.methods, ∀ a ∈ m.attributes, a.info.length < UInt32.size := by
  intro c
  rw [decode_encode_eq_ok]
  refine and_congr_right fun _ => and_congr_right fun counted => ?_
  exact (bounded_assembled name super steps).tailFits_iff counted

theorem length_encode_replicate (n : Nat) :
    (ModifiedUtf8.encode (String.ofList (List.replicate n 'a'))).length = n := by
  have letter : (Utf16.units 'a').flatMap ModifiedUtf8.unitBytes = [97] := by decide
  rw [ModifiedUtf8.encode, String.toList_ofList, Utf16.encode, List.flatMap_assoc]
  induction n with
  | zero => rfl
  | succ n ih =>
    simp only [List.replicate_succ, List.flatMap_cons, letter, List.length_append, ih]
    exact Nat.add_comm 1 n

/-- No step is refused, and a class whose source file takes too many bytes is lost. -/
theorem long_source_file_lost {file : String} (long : ¬(Constant.utf8 file).Fits) :
    let c := assembled "A" objectName [.setSourceFile file]
    (Assembly.runSteps [.setSourceFile file] (new "A" objectName)).1 = [.nothing] ∧
      decode c.encode ≠ .ok c := by
  refine ⟨rfl, fun survives => long ?_⟩
  exact (decode_encode_eq_ok.mp survives).1 _ (Pool.mem_entries_intern.mpr (.inr rfl))

theorem assembled_long_source_file_lost :
    let file := String.ofList (List.replicate 65536 'a')
    let c := assembled "A" objectName [.setSourceFile file]
    (Assembly.runSteps [.setSourceFile file] (new "A" objectName)).1 = [.nothing] ∧
      decode c.encode ≠ .ok c := by
  refine long_source_file_lost fun fits => ?_
  have short : (ModifiedUtf8.encode _).length ≤ 65535 := fits
  rw [length_encode_replicate] at short
  omega

end ClassFile

end ClassBench
