import ClassBench.Config
import ClassBench.Proofs.Except
import ClassBench.Proofs.Path.Parts

/-! Which configurations are accepted.  The entries of a document have different keys, each of them
is a setting, and what no entry sets keeps its default.  The settings that come of this are accepted
if the marker and the owner are names in the internal form and there is a debug directory; a refusal
tells the setting and its text. -/

namespace ClassBench

/-! ### The entries of a document -/

namespace Toml

variable {read entries : List (String × Value)} {cs : List Char} {document key : String}

theorem lookup_eq_none : entries.lookup key = none ↔ key ∉ entries.map Prod.fst := by
  rw [List.lookup_eq_none_iff, List.mem_map]
  constructor
  · rintro absent ⟨entry, member, rfl⟩
    simpa using absent entry member
  · intro absent entry member
    rw [bne_iff_ne]
    rintro rfl
    exact absent ⟨entry, member, rfl⟩

theorem nodup_readEntries {fuel : Nat} (distinct : (read.map Prod.fst).Nodup)
    (found : readEntries read fuel cs = some entries) : (entries.map Prod.fst).Nodup := by
  induction fuel generalizing read cs with
  | zero => cases found
  | succ fuel ih =>
    rw [readEntries] at found
    split at found
    · cases found
      rw [List.map_reverse]
      exact List.pairwise_reverse.mpr (distinct.imp Ne.symm)
    · obtain ⟨⟨entry, rest⟩, -, found⟩ := Option.bind_eq_some_iff.mp found
      simp only [Option.ite_none_left_eq_some] at found
      obtain ⟨fresh, found⟩ := found
      rw [Bool.not_eq_true, Option.isSome_eq_false_iff, Option.isNone_iff_eq_none,
        lookup_eq_none] at fresh
      have distinct : ((entry :: read).map Prod.fst).Nodup :=
        List.nodup_cons.mpr ⟨fresh, distinct⟩
      exact ih distinct found

theorem nodup_keys (found : parse? document = some entries) : (entries.map Prod.fst).Nodup := by
  have start : (([] : List (String × Value)).map Prod.fst).Nodup := List.nodup_nil
  unfold parse? at found
  split at found <;> exact nodup_readEntries start found

end Toml

/-- A name in the internal form has no dots, and something between its slashes. -/
theorem isInternalName_iff {name : String} :
    isInternalName name = true ↔ '.' ∉ name.toList ∧ "" ∉ Path.parts name := by
  simp [isInternalName, Path.parts, List.forall_mem_ne']

namespace Config

variable {c c' : Config} {document key setting name : String} {value : Toml.Value}
  {entries : List (String × Toml.Value)} {e : ConfigError}

/-! ### Settings -/

/-- The value of a setting as a document has it, unless there is none. -/
def setting? (c : Config) : String → Option Toml.Value
  | "debug_dir" => some (.text c.debugDir)
  | "trace_dir" => c.traceDir.map .text
  | "class_path" => some (.texts c.classPath)
  | "marker" => some (.text c.marker)
  | "owner" => some (.text c.owner)
  | _ => none

theorem setting?_of_set? (set : c.set? (key, value) = some c') (other : String) :
    c'.setting? other = if other = key then some value else c.setting? other := by
  unfold set? at set
  split at set
  case h_6 => cases set
  -- One case for each setting, and in it the other key is any of them.
  all_goals
    next same =>
      cases same
      cases set
      unfold setting?
      split <;> simp_all

/-- Entries with different keys set what they name, and nothing else. -/
theorem setting?_of_foldlM (distinct : (entries.map Prod.fst).Nodup)
    (set : entries.foldlM set? c = some c') (key : String) :
    c'.setting? key = (entries.lookup key).or (c.setting? key) := by
  induction entries generalizing c with
  | nil =>
    cases set
    rfl
  | cons entry entries ih =>
    obtain ⟨first, value⟩ := entry
    obtain ⟨fresh, distinct⟩ := List.nodup_cons.mp distinct
    obtain ⟨c₁, head, rest⟩ := Option.bind_eq_some_iff.mp set
    rw [ih distinct rest, setting?_of_set? head]
    by_cases same : key = first
    · subst same
      simp [Toml.lookup_eq_none.mpr fresh]
    · rw [if_neg same, List.lookup_cons, beq_false_of_ne same]

/-! ### Checks -/

/-- The settings make sense. -/
structure IsValid (c : Config) : Prop where
  marker : isInternalName c.marker = true
  owner : isInternalName c.owner = true
  debugDir : c.debugDir ≠ ""

theorem checkName_eq_ok : checkName setting name = .ok () ↔ isInternalName name = true := by
  unfold checkName
  by_cases empty : name = ""
  · subst empty
    simp [isInternalName]
  · rw [if_neg empty, Except.demand_eq_ok]

theorem checkName_eq_error (refused : checkName setting name = .error e) :
    name = "" ∧ e = .emptySetting setting ∨
      isInternalName name = false ∧ e = .invalidName setting name := by
  unfold checkName at refused
  split at refused
  · next empty => exact .inl ⟨empty, (Except.error.inj refused).symm⟩
  · split at refused
    · cases refused
    · next other => exact .inr ⟨Bool.eq_false_iff.mpr other, (Except.error.inj refused).symm⟩

theorem validate_eq_ok : c.validate = .ok () ↔ c.IsValid := by
  rw [validate, Except.check_bind_eq_ok, Except.check_bind_eq_ok, checkName_eq_ok, checkName_eq_ok,
    Except.guard_eq_ok]
  exact ⟨fun ⟨marker, owner, debugDir⟩ => ⟨marker, owner, debugDir⟩,
    fun valid => ⟨valid.marker, valid.owner, valid.debugDir⟩⟩

theorem isValid_default : ({} : Config).IsValid := validate_eq_ok.mp (by decide +kernel)

/-- A refusal tells a setting, and that it is empty or what stands there instead of a name. -/
theorem validate_eq_error (refused : c.validate = .error e) :
    ∃ setting text, c.setting? setting = some (.text text) ∧
      (text = "" ∧ e = .emptySetting setting ∨
        isInternalName text = false ∧ e = .invalidName setting text) := by
  rw [validate, Except.check_bind_eq_error] at refused
  rcases refused with marker | ⟨-, refused⟩
  · exact ⟨"marker", c.marker, rfl, checkName_eq_error marker⟩
  rw [Except.check_bind_eq_error] at refused
  rcases refused with owner | ⟨-, refused⟩
  · exact ⟨"owner", c.owner, rfl, checkName_eq_error owner⟩
  split at refused
  · next empty =>
    exact ⟨"debug_dir", c.debugDir, rfl, .inl ⟨empty, (Except.error.inj refused).symm⟩⟩
  · cases refused

/-! ### Documents -/

/-- A document is accepted if its entries are settings and make sense together. -/
theorem parse_eq_ok : parse document = .ok c ↔
    ∃ entries, Toml.parse? document = some entries ∧ entries.foldlM set? {} = some c ∧
      c.IsValid := by
  unfold parse
  split
  · next failed =>
    refine iff_of_false Except.throw_ne_ok ?_
    rintro ⟨entries, read, set, -⟩
    rw [read, Option.bind_some, set] at failed
    cases failed
  · next found =>
    obtain ⟨entries, read, set⟩ := Option.bind_eq_some_iff.mp found
    rw [Except.check_bind_eq_ok, validate_eq_ok, Except.pure_eq_ok]
    constructor
    · rintro ⟨valid, rfl⟩
      exact ⟨entries, read, set, valid⟩
    · rintro ⟨entries', read', set', valid⟩
      obtain rfl := Option.some.inj (read.symm.trans read')
      obtain rfl := Option.some.inj (set.symm.trans set')
      exact ⟨valid, rfl⟩

/-- What is accepted makes sense.  It has the settings of the document, and all others have their
defaults. -/
theorem settings_of_parse (accepted : parse document = .ok c) :
    c.validate = .ok () ∧ ∃ entries, Toml.parse? document = some entries ∧
      ∀ key, c.setting? key = (entries.lookup key).or (setting? {} key) := by
  obtain ⟨entries, read, set, valid⟩ := parse_eq_ok.mp accepted
  exact ⟨validate_eq_ok.mpr valid, entries, read,
    setting?_of_foldlM (Toml.nodup_keys read) set⟩

/-- A document without entries gives the defaults, which make sense. -/
theorem parse_of_nil (read : Toml.parse? document = some []) : parse document = .ok {} :=
  parse_eq_ok.mpr ⟨[], read, rfl, isValid_default⟩

example : parse "# nothing is set\n" = .ok {} := by decide +kernel

end Config

end ClassBench
