import ClassBench.Fixture
import ClassBench.Proofs.Constructor.Body
import ClassBench.Proofs.World.Loaded
import Mathlib.Logic.Relation

/-! The chain of constructors that an instantiation runs.  A constructor calls that of the type
loaded in the same scope under the name of the super type, whatever the name stands for when it is
looked up through the ancestors.  For a class that type was loaded earlier, so a chain of classes
ends.  It goes round only through an interface, whose class file may name any super type; and a
class comes to have a loaded interface under the name of its super class only after an ancestor
came to define the name too, as a class.  Then, and only then, an instantiation may not return. -/

namespace ClassBench

section Revisits

variable {α : Type} {r s : α → α → Prop} {a b : α}

/-- What a place leads to leads back to itself. -/
def Revisits (r : α → α → Prop) (a : α) : Prop :=
  ∃ b, Relation.ReflTransGen r a b ∧ Relation.TransGen r b b

theorem Revisits.of_step (step : r a b) (revisits : Revisits r b) : Revisits r a := by
  obtain ⟨c, path, loop⟩ := revisits
  exact ⟨c, path.head step, loop⟩

theorem Revisits.next (revisits : Revisits r a) : ∃ b, r a b ∧ Revisits r b := by
  obtain ⟨c, path, loop⟩ := revisits
  rcases path.cases_head with rfl | ⟨b, step, path⟩
  · obtain ⟨b, step, back⟩ := Relation.TransGen.head'_iff.mp loop
    exact ⟨b, step, a, back, loop⟩
  · exact ⟨b, step, c, path, loop⟩

theorem Revisits.mono (le : ∀ a b, r a b → s a b) (revisits : Revisits r a) : Revisits s a := by
  obtain ⟨b, path, loop⟩ := revisits
  exact ⟨b, Relation.ReflTransGen.mono le _ _ path, Relation.TransGen.mono le _ _ loop⟩

/-- Where every place leads to one other at most, all places after a loop are on it. -/
theorem loop_of_reached (functional : ∀ a b c, r a b → r a c → b = c)
    (path : Relation.ReflTransGen r a b) (loop : Relation.TransGen r a a) :
    Relation.TransGen r b b := by
  induction path with
  | refl => exact loop
  | tail _ step ih =>
    obtain ⟨c, first, back⟩ := Relation.TransGen.head'_iff.mp ih
    rw [functional _ _ _ step first]
    exact Relation.TransGen.tail' back first

end Revisits

/-! ### Results that tell of an endless chain -/

/-- Whether a chain of constructors ran out of the types that it could have. -/
def endless : Except ConstructError Fields → Bool
  | .error e => e.isEndless
  | .ok _ => false

theorem endless_iff {r : Except ConstructError Fields} :
    endless r = true ↔ ∃ name, r = .error (.endlessChain name) := by
  cases r with
  | ok fields => simp [endless]
  | error e => cases e <;> simp [endless, ConstructError.isEndless]

theorem endless_bind {r : Except ConstructError Fields}
    {rest : Except ConstructError (List (String × Value))}
    (own : ∀ e, rest = .error e → e.isEndless = false) :
    endless (r >>= fun fields => rest.map fields.storeAll) = endless r := by
  cases r with
  | error e => rfl
  | ok fields =>
    cases rest with
    | error e => exact own e rfl
    | ok stores => rfl

/-- Whether the constructor comes to the call of the super constructor. -/
def LoadedType.callsSuper (t : LoadedType) : Bool :=
  endless (t.runConstructor (fun owner _ => .error (.endlessChain owner)) [])

/-- The checks that an instantiation makes before it runs the constructor. -/
structure LoadedType.Instantiable (t : LoadedType) : Prop where
  concrete : Access.has t.classFile.access (Access.isInterface ||| Access.isAbstract) = false
  constructor : t.classFile.constructor?.isSome = true

/-- What is instantiated is a class. -/
theorem LoadedType.Instantiable.isClass {t : LoadedType} (instantiable : t.Instantiable)
    (faithful : t.Faithful) : t.type.isInterface = false := by
  have concrete := instantiable.concrete
  rw [Access.has_or, Bool.or_eq_false_iff] at concrete
  rw [faithful.type_eq]
  simp [TypeDef.ofClassFile, TypeDef.isInterface, ClassFile.isInterface, concrete.1]

namespace World

variable {w : World} {id : ScopeId} {t u : LoadedType}

/-! ### The chain -/

/-- The constructor of one type calls, if it comes to its super constructor, that of the other:
the one loaded under the name of the super type. -/
def Follows (w : World) (id : ScopeId) (t u : LoadedType) : Prop :=
  t.classFile.superName?.bind (w.loaded? id) = some u

/-- The constructor of one type does come to call that of the other. -/
def Calls (w : World) (id : ScopeId) (t u : LoadedType) : Prop :=
  t.callsSuper = true ∧ w.Follows id t u

theorem follows_functional (t u v : LoadedType) (hu : w.Follows id t u) (hv : w.Follows id t v) :
    u = v :=
  Option.some.inj (hu.symm.trans hv)

theorem Calls.follows {t u : LoadedType} (calls : w.Calls id t u) : w.Follows id t u := calls.2

theorem Follows.mem (follows : w.Follows id t u) : u ∈ w.loadedOf id := by
  obtain ⟨n, -, loaded⟩ := Option.bind_eq_some_iff.mp follows
  exact (loaded?_eq_some loaded).1

theorem follows_iff {owner : String} (super : t.classFile.superName? = some owner) :
    w.Follows id t u ↔ w.loaded? id owner = some u := by
  rw [Follows, super, Option.bind_some]

/-! ### One constructor of the chain -/

/-- What a constructor runs for its super constructor, in a chain of fewer than `fuel` types. -/
def callSuper (w : World) (id : ScopeId) (fuel : Nat) : LoadedType.SuperCall := fun owner fields =>
  match w.loaded? id owner with
  | some parent => w.runChain id fuel parent fields
  | none =>
    match w.resolve? id owner with
    | some host =>
      if host.type.hasDefaultConstructor then .ok fields
      else .error (.noDefaultConstructor owner)
    | none => .error (.noDefaultConstructor owner)

theorem runChain_succ (fuel : Nat) (fields : Fields) :
    w.runChain id (fuel + 1) t fields = t.runConstructor (w.callSuper id fuel) fields := by
  rw [runChain, LoadedType.runConstructor]
  cases t.constructorBody with
  | error e => rfl
  | ok body =>
    show (t.executeAll (w.callSuper id fuel) body ⟨[], false, fields⟩ >>= _) =
      (t.executeAll (w.callSuper id fuel) body ⟨[], false, fields⟩).map _
    cases t.executeAll (w.callSuper id fuel) body ⟨[], false, fields⟩ <;> rfl

theorem callSuper_loaded {owner : String} (loaded : w.loaded? id owner = some u) (fuel : Nat) :
    w.callSuper id fuel owner = w.runChain id fuel u := by
  funext fields
  rw [callSuper, loaded]

/-- A super type that is not loaded is asked whether it has a constructor, and that is all. -/
theorem callSuper_absent {owner : String} (absent : w.loaded? id owner = none) :
    ∃ ask : Fields → Except ConstructError Fields, (∀ fields, endless (ask fields) = false) ∧
      ∀ fuel, w.callSuper id fuel owner = ask := by
  refine ⟨w.callSuper id 0 owner, fun fields => ?_, fun fuel => ?_⟩
  · rw [callSuper, absent]
    cases w.resolve? id owner with
    | none => rfl
    | some host =>
      show endless (if host.type.hasDefaultConstructor = true then _ else _) = false
      split <;> rfl
  · funext fields
    rw [callSuper, callSuper, absent]

/-- How the chain goes on from a type: its constructor stops the chain, or asks a super type that is
not loaded, or runs the constructor of the type that it calls. -/
inductive Link (w : World) (id : ScopeId) (t : LoadedType) : Prop
  | stops (silent : t.callsSuper = false) (r : Except ConstructError Fields)
      (finite : endless r = false)
      (run : ∀ fuel fields, w.runChain id (fuel + 1) t fields = r)
  | asks (last : ∀ u, ¬w.Follows id t u) (r : Fields → Except ConstructError Fields)
      (finite : ∀ fields, endless (r fields) = false)
      (run : ∀ fuel fields, w.runChain id (fuel + 1) t fields = r fields)
  | calls (u : LoadedType) (calls : w.Calls id t u) (before : List (String × Value))
      (rest : Except ConstructError (List (String × Value)))
      (own : ∀ e, rest = .error e → e.isEndless = false)
      (run : ∀ fuel fields, w.runChain id (fuel + 1) t fields =
        w.runChain id fuel u (fields.storeAll before) >>= fun fields => rest.map fields.storeAll)

theorem link (w : World) (id : ScopeId) (t : LoadedType) : w.Link id t := by
  cases t.discipline with
  | fails e own stops =>
    refine .stops ?_ (.error e) own fun fuel fields => by rw [runChain_succ, stops]
    rw [LoadedType.callsSuper, stops]
    exact own
  | calls owner super before rest own runs =>
    have comes : t.callsSuper = true := by
      rw [LoadedType.callsSuper, runs, endless_bind own]
      rfl
    cases loaded : w.loaded? id owner with
    | some u =>
      refine .calls u ⟨comes, (follows_iff super).mpr loaded⟩ before rest own fun fuel fields => ?_
      rw [runChain_succ, runs, callSuper_loaded loaded]
    | none =>
      obtain ⟨ask, finite, asked⟩ := callSuper_absent loaded
      refine .asks (fun u follows => ?_) (fun fields =>
        ask (fields.storeAll before) >>= fun fields => rest.map fields.storeAll)
        (fun fields => by rw [endless_bind own, finite]) fun fuel fields => ?_
      · rw [follows_iff super, loaded] at follows
        cases follows
      · rw [runChain_succ, runs, asked]

/-! ### Runs of a chain -/

/-- Constructors that come back to one of them run out of any fuel. -/
theorem endless_of_revisits (revisits : Revisits (w.Calls id) t) (fuel : Nat) (fields : Fields) :
    endless (w.runChain id fuel t fields) = true := by
  induction fuel generalizing t fields with
  | zero => rfl
  | succ fuel ih =>
    obtain ⟨v, toNext, again⟩ := revisits.next
    cases w.link id t with
    | stops silent => exact absurd toNext.1 (by rw [silent]; decide)
    | asks last => exact absurd toNext.2 (last v)
    | calls u calls before rest own run =>
      obtain rfl := follows_functional t u v calls.follows toNext.follows
      rw [run, endless_bind own]
      exact ih again _

/-- A chain that has passed distinct types, none of which it comes back to, ends before it has
passed more than there are. -/
theorem not_endless (ht : t ∈ w.loadedOf id) (finite : ¬Revisits (w.Calls id) t)
    (passed : List LoadedType) (distinct : passed.Nodup) (known : passed ⊆ w.loadedOf id)
    (leads : ∀ v ∈ passed, Relation.TransGen (w.Calls id) v t) {fuel : Nat}
    (enough : (w.loadedOf id).length < fuel + passed.length) (fields : Fields) :
    endless (w.runChain id fuel t fields) = false := by
  -- Fuel and types passed make up more than there are types, and distinct ones are no more.
  induction fuel generalizing t passed fields with
  | zero =>
    have few := distinct.length_le_of_subset known
    omega
  | succ fuel ih =>
    cases w.link id t with
    | stops _ r ends run => rw [run, ends]
    | asks _ r ends run => rw [run, ends]
    | calls u calls before rest own run =>
      have new : t ∉ passed := fun inside => finite ⟨t, .refl, leads t inside⟩
      rw [run, endless_bind own]
      refine ih calls.follows.mem (fun again => finite (again.of_step calls)) (t :: passed)
        (List.nodup_cons.mpr ⟨new, distinct⟩) (List.cons_subset.mpr ⟨ht, known⟩) ?_ ?_ _
      · rintro v hv
        rcases List.mem_cons.mp hv with rfl | inside
        · exact .single calls
        · exact (leads v inside).tail calls
      · rw [List.length_cons]
        omega

/-- A chain that ends does not depend on the fuel. -/
theorem runChain_add {fuel : Nat} {fields : Fields}
    (ends : endless (w.runChain id fuel t fields) = false) (more : Nat) :
    w.runChain id (fuel + more) t fields = w.runChain id fuel t fields := by
  induction fuel generalizing t fields with
  | zero => exact absurd ends (by simp [runChain, endless, ConstructError.isEndless])
  | succ fuel ih =>
    rw [Nat.succ_add_eq_add_succ fuel more, Nat.add_succ]
    cases w.link id t with
    | stops _ r _ run => rw [run, run]
    | asks _ r _ run => rw [run, run]
    | calls u calls before rest own run =>
      rw [run, endless_bind own] at ends
      rw [run, run, ih ends]

/-! ### Where a chain goes round -/

theorem Follows.order_lt (follows : w.Follows id t u) (loads : w.Loads id)
    (ht : t ∈ w.loadedOf id) (isClass : t.type.isInterface = false) :
    w.order id u < w.order id t := by
  obtain ⟨n, named, loaded⟩ := Option.bind_eq_some_iff.mp follows
  obtain ⟨hu, rfl⟩ := loaded?_eq_some loaded
  have super := (loads.holds t ht).faithful.superName_eq isClass
  exact loads.order_lt ht hu (super.trans named)

theorem mem_of_reached (ht : t ∈ w.loadedOf id)
    (path : Relation.ReflTransGen (w.Follows id) t u) : u ∈ w.loadedOf id := by
  rcases path.cases_tail with rfl | ⟨v, -, last⟩
  · exact ht
  · exact last.mem

/-- A loop of the chain passes an interface: along classes the places in the table go down. -/
theorem Loads.interface_of_loop (loads : w.Loads id) (ht : t ∈ w.loadedOf id)
    (loop : Relation.TransGen (w.Follows id) t t) :
    ∃ i, Relation.ReflTransGen (w.Follows id) t i ∧ i.type.isInterface = true := by
  -- Without an interface the place in the table goes down on the whole way from `t` to `t`.
  by_contra none
  have isClass (u : LoadedType) (path : Relation.ReflTransGen (w.Follows id) t u) :
      u.type.isInterface = false :=
    Bool.eq_false_iff.mpr fun h => none ⟨u, path, h⟩
  have down {u : LoadedType} (path : Relation.TransGen (w.Follows id) t u) :
      w.order id u < w.order id t := by
    induction path with
    | single step => exact step.order_lt loads ht (isClass t .refl)
    | tail path step ih =>
      have reached := path.to_reflTransGen
      exact Nat.lt_trans (step.order_lt loads (mem_of_reached ht reached) (isClass _ reached)) ih
  exact Nat.lt_irrefl _ (down loop)

/-- The chain goes round exactly if it comes to an interface that it comes back to. -/
theorem Loads.revisits_iff (loads : w.Loads id) (ht : t ∈ w.loadedOf id) :
    Revisits (w.Follows id) t ↔
      ∃ i, Relation.ReflTransGen (w.Follows id) t i ∧ i.type.isInterface = true ∧
        Relation.TransGen (w.Follows id) i i := by
  constructor
  · rintro ⟨u, path, loop⟩
    obtain ⟨i, further, isInterface⟩ := loads.interface_of_loop (mem_of_reached ht path) loop
    exact ⟨i, path.trans further, isInterface, loop_of_reached follows_functional further loop⟩
  · rintro ⟨i, path, -, loop⟩
    exact ⟨i, path, loop⟩

/-- A chain that begins with a class comes to its first interface from a class. -/
theorem class_before_interface (isClass : t.type.isInterface = false)
    (path : Relation.ReflTransGen (w.Follows id) t u) (isInterface : u.type.isInterface = true) :
    ∃ c i, Relation.ReflTransGen (w.Follows id) t c ∧ c.type.isInterface = false ∧
      w.Follows id c i ∧ i.type.isInterface = true := by
  induction path with
  | refl => exact absurd isInterface (by simp [isClass])
  | @tail c i path step ih =>
    cases kind : c.type.isInterface with
    | true => exact ih kind
    | false => exact ⟨c, i, path, kind, step, isInterface⟩

/-- A class that has a loaded interface for its super class had a class of an ancestor for it. -/
theorem Loads.hidden (loads : w.Loads id) {c i : LoadedType} (hc : c ∈ w.loadedOf id)
    (isClass : c.type.isInterface = false) (follows : w.Follows id c i)
    (isInterface : i.type.isInterface = true) :
    ∃ outer ∈ w.ancestors id, ∃ d, w.local? outer i.name = some d ∧ d.isInterface = false := by
  obtain ⟨n, named, loaded⟩ := Option.bind_eq_some_iff.mp follows
  obtain ⟨hi, rfl⟩ := loaded?_eq_some loaded
  have holds := loads.holds c hc
  have super := (holds.faithful.superName_eq isClass).trans named
  obtain ⟨outer, member, d, found, isClass'⟩ := holds.super i.name super
  rw [lineage_eq (has_of_mem_lineage member), List.mem_append, List.mem_singleton] at member
  rcases member with around | rfl
  · exact ⟨outer, around, d, found, isClass'⟩
  · -- The scope itself has the interface under the name.
    have here := (loads.holds i hi).defined
    rw [found, Option.some.injEq] at here
    rw [here, isInterface] at isClass'
    cases isClass'

/-! ### Instantiation -/

theorem construct_eq (w : World) (id : ScopeId) (t : LoadedType) :
    w.construct id t = w.runChain id ((w.loadedOf id).length + 1) t [] := by
  rw [construct, loadedOf]
  cases w.scope? id <;> rfl

theorem instantiate_eq {name : String} (loaded : w.loaded? id name = some t)
    (instantiable : t.Instantiable) :
    w.instantiate id name =
      ((w.construct id t).mapError (.constructor name)).map fun fields => ⟨id, t, fields⟩ := by
  have present : t.classFile.constructor?.isNone = false := by
    rw [← Option.not_isSome, instantiable.constructor]
    rfl
  rw [instantiate, loaded]
  simp only [instantiable.concrete, present]
  cases w.construct id t <;> rfl

/-- An instantiation ends in an endless chain exactly if that of its constructors is endless. -/
theorem instantiate_endless_iff {name : String} (loaded : w.loaded? id name = some t)
    (instantiable : t.Instantiable) :
    (∃ last, w.instantiate id name = .error (.constructor name (.endlessChain last))) ↔
      endless (w.construct id t) = true := by
  rw [instantiate_eq loaded instantiable, endless_iff]
  cases w.construct id t with
  | error e => simp [Except.mapError, Except.map]
  | ok fields => simp [Except.mapError, Except.map]

theorem interface_hidden_later (operations : List Operation) {t : LoadedType}
    (ht : t ∈ (after operations).loadedOf id) (isClass : t.type.isInterface = false)
    (revisits : Revisits ((after operations).Follows id) t) :
    ∃ i, Relation.ReflTransGen ((after operations).Follows id) t i ∧ i.type.isInterface = true ∧
      ∃ outer ∈ (after operations).ancestors id, ∃ d,
        (after operations).local? outer i.name = some d ∧ d.isInterface = false ∧
        ∃ earlier later, operations = earlier ++ later ∧
          (after earlier).Defines id i.name ∧ ¬(after earlier).Defines outer i.name := by
  have loads := loads_after operations id
  obtain ⟨u, path, isInterface, -⟩ := (loads.revisits_iff ht).mp revisits
  obtain ⟨c, i, toClass, classKind, follows, interfaceKind⟩ :=
    class_before_interface isClass path isInterface
  obtain ⟨outer, around, d, found, isClass'⟩ :=
    loads.hidden (mem_of_reached ht toClass) classKind follows interfaceKind
  have hInner := defines_of_eq_some (loads.holds i follows.mem).defined
  exact ⟨i, toClass.tail follows, interfaceKind, outer, around, d, found, isClass',
    inner_definition_older operations around (defines_of_eq_some found) hInner⟩

/-- After every history, for every loaded type that passes the checks of an instantiation: its chain
goes round exactly if it comes to an interface that it comes back to, and then an ancestor has come
to define an interface of the chain as a class, after it was loaded.  The instantiation runs out of
types exactly if the calls that the constructors do come to go round, and then no number of types is
enough; otherwise the chain ends, and passes no more types than are loaded. -/
theorem constructor_chain_ends_iff (operations : List Operation) (id : ScopeId) (name : String)
    (t : LoadedType) (loaded : (after operations).loaded? id name = some t)
    (instantiable : t.Instantiable) :
    let w := after operations
    (Revisits (w.Follows id) t ↔
      ∃ i, Relation.ReflTransGen (w.Follows id) t i ∧ i.type.isInterface = true ∧
        Relation.TransGen (w.Follows id) i i) ∧
    (Revisits (w.Follows id) t →
      ∃ i, Relation.ReflTransGen (w.Follows id) t i ∧ i.type.isInterface = true ∧
        ∃ outer ∈ w.ancestors id, ∃ d, w.local? outer i.name = some d ∧ d.isInterface = false ∧
          ∃ earlier later, operations = earlier ++ later ∧
            (after earlier).Defines id i.name ∧ ¬(after earlier).Defines outer i.name) ∧
    ((∃ last, w.instantiate id name = .error (.constructor name (.endlessChain last))) ↔
      Revisits (w.Calls id) t) ∧
    (Revisits (w.Calls id) t → Revisits (w.Follows id) t ∧
      ∀ fuel fields, endless (w.runChain id fuel t fields) = true) ∧
    (¬Revisits (w.Calls id) t → ∀ fuel fields, (w.loadedOf id).length < fuel →
      endless (w.runChain id fuel t fields) = false ∧
        ∀ more, w.runChain id (fuel + more) t fields = w.runChain id fuel t fields) := by
  intro w
  have loads : w.Loads id := loads_after operations id
  obtain ⟨ht, -⟩ := loaded?_eq_some loaded
  have isClass := instantiable.isClass (loads.holds t ht).faithful
  have ends (finite : ¬Revisits (w.Calls id) t) (fuel : Nat) (fields : Fields)
      (enough : (w.loadedOf id).length < fuel) : endless (w.runChain id fuel t fields) = false :=
    not_endless ht finite [] List.nodup_nil (List.nil_subset _) (by simp) (by simpa) fields
  refine ⟨loads.revisits_iff ht, interface_hidden_later operations ht isClass, ?_, ?_, ?_⟩
  · rw [instantiate_endless_iff loaded instantiable, construct_eq]
    constructor
    · intro runsOut
      by_contra finite
      rw [ends finite _ [] (Nat.lt_succ_self _)] at runsOut
      cases runsOut
    · exact fun revisits => endless_of_revisits revisits _ _
  · exact fun revisits => ⟨revisits.mono fun _ _ calls => calls.follows,
      endless_of_revisits revisits⟩
  · exact fun finite fuel fields enough =>
      ⟨ends finite fuel fields enough, runChain_add (ends finite fuel fields enough)⟩

/-- The bytes of a class file whose constructor only calls that of the super type. -/
def chainClass (name super : String) (access : UInt16) : Bytes :=
  let build : Assembly Unit := do
    Assembly.setAccess access
    Synthesizer.addConstructor super
  (build (ClassFile.new name super)).2.encode

theorem constructor_chain_ends_iff_classes :
    let operations := [.bootstrap, .isolated ⟨0⟩, .define ⟨1⟩ (chainClass "S" objectName 0x0021),
      .define ⟨1⟩ (chainClass "T" "S" 0x0021)]
    let w := after operations
    ∃ t, w.loaded? ⟨1⟩ "T" = some t ∧ t.Instantiable ∧ ¬Revisits (w.Calls ⟨1⟩) t ∧
      ∀ fuel fields, 2 < fuel → endless (w.runChain ⟨1⟩ fuel t fields) = false := by
  intro operations w
  obtain ⟨t, loaded⟩ : ∃ t, w.loaded? ⟨1⟩ "T" = some t :=
    Option.isSome_iff_exists.mp (by decide +kernel)
  have checks : (w.loaded? ⟨1⟩ "T").map (fun t => (Access.has t.classFile.access
      (Access.isInterface ||| Access.isAbstract), t.classFile.constructor?.isSome)) =
      some (false, true) := by decide +kernel
  rw [loaded, Option.map_some, Option.some.injEq, Prod.mk.injEq] at checks
  have instantiable : t.Instantiable := ⟨checks.1, checks.2⟩
  have made : (w.instantiate ⟨1⟩ "T").isOk = true := by decide +kernel
  have two : (w.loadedOf ⟨1⟩).length = 2 := by decide +kernel
  obtain ⟨-, -, runsOut, -, ends⟩ :=
    constructor_chain_ends_iff operations ⟨1⟩ "T" t loaded instantiable
  have finite : ¬Revisits (w.Calls ⟨1⟩) t := by
    rw [← runsOut]
    rintro ⟨last, failed⟩
    rw [failed] at made
    cases made
  exact ⟨t, loaded, instantiable, finite,
    fun fuel fields enough => (ends finite fuel fields (two ▸ enough)).1⟩

/-- An interface that names itself as super type is loaded, then the parent defines a class of its
name, and then a class that extends this class is loaded: its constructor runs that of the
interface, which runs itself. -/
theorem hidden_interface_loops :
    let w := after [.bootstrap, .isolated ⟨0⟩, .define ⟨1⟩ (chainClass "S" "S" 0x0601),
      .register ⟨0⟩ (.extending "S" objectName), .define ⟨1⟩ (chainClass "T" "S" 0x0021)]
    ∃ t, w.loaded? ⟨1⟩ "T" = some t ∧ t.Instantiable ∧ Revisits (w.Follows ⟨1⟩) t ∧
      ∀ fuel fields, endless (w.runChain ⟨1⟩ fuel t fields) = true := by
  intro w
  obtain ⟨t, loadedT⟩ : ∃ t, w.loaded? ⟨1⟩ "T" = some t :=
    Option.isSome_iff_exists.mp (by decide +kernel)
  obtain ⟨s, loadedS⟩ : ∃ s, w.loaded? ⟨1⟩ "S" = some s :=
    Option.isSome_iff_exists.mp (by decide +kernel)
  have factsT : (w.loaded? ⟨1⟩ "T").map (fun t => (Access.has t.classFile.access
      (Access.isInterface ||| Access.isAbstract), t.classFile.constructor?.isSome, t.callsSuper,
      t.classFile.superName?)) = some (false, true, true, some "S") := by decide +kernel
  have factsS : (w.loaded? ⟨1⟩ "S").map (fun s => (s.callsSuper, s.classFile.superName?)) =
      some (true, some "S") := by decide +kernel
  simp only [loadedT, Option.map_some, Option.some.injEq, Prod.mk.injEq] at factsT
  simp only [loadedS, Option.map_some, Option.some.injEq, Prod.mk.injEq] at factsS
  obtain ⟨concrete, constructor, callsT, superT⟩ := factsT
  obtain ⟨callsS, superS⟩ := factsS
  have first : w.Calls ⟨1⟩ t s := ⟨callsT, (follows_iff superT).mpr loadedS⟩
  have loop : w.Calls ⟨1⟩ s s := ⟨callsS, (follows_iff superS).mpr loadedS⟩
  have revisits : Revisits (w.Calls ⟨1⟩) t := ⟨s, .single first, .single loop⟩
  exact ⟨t, loadedT, ⟨concrete, constructor⟩, revisits.mono fun _ _ calls => calls.follows,
    endless_of_revisits revisits⟩

end World

end ClassBench
