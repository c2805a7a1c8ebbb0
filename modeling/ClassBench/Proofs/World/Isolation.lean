import ClassBench.Proofs.World.ConstructorChain

/-! Requests to scopes do not disturb each other.  All that a request looks at is the scope that it
goes to and the scopes around it, and all that it changes is that scope.  So what it does is told
by what the scope sees, and it reaches nothing but the scope and those within it: information goes
down the forest only.  Requests to scopes neither of which is around the other can be served in
either order. -/

namespace ClassBench

/-- What can be asked of a scope that holds types. -/
inductive Request where
  | register (d : TypeDef)
  | define (bytes : Bytes)
  | instantiate (name : String)

/-- The answer to a request. -/
inductive Reply where
  | registered (result : Except ScopeError TypeHandle)
  | defined (result : Except LoadError LoadedType)
  | instantiated (result : Except LoadError Instance)

namespace World

variable {w w' w'' : World} {id other a b : ScopeId} {name : String}

/-- Answers a request to a scope.  One that fails leaves the world as it was. -/
def serve (w : World) (id : ScopeId) : Request → Reply × World
  | .register d =>
    match w.register id d with
    | .ok (handle, w) => (.registered (.ok handle), w)
    | .error e => (.registered (.error e), w)
  | .define bytes =>
    match w.define id bytes with
    | .ok (t, w) => (.defined (.ok t), w)
    | .error e => (.defined (.error e), w)
  | .instantiate name => (.instantiated (w.instantiate id name), w)

/-- Answers requests in a row. -/
def serveAll (w : World) : List (ScopeId × Request) → List Reply × World
  | [] => ([], w)
  | (id, r) :: rest =>
    let (reply, w) := w.serve id r
    let (replies, w) := w.serveAll rest
    (reply :: replies, w)

/-! ### What a scope sees -/

/-- A scope and the scopes around it are the same in both worlds. -/
structure SeesSame (w w' : World) (id : ScopeId) : Prop where
  self : w'.scope? id = w.scope? id
  around : ∀ a ∈ w.ancestors id, w'.scope? a = w.scope? a

namespace SeesSame

theorem refl (w : World) (id : ScopeId) : SeesSame w w id := ⟨rfl, fun _ _ => rfl⟩

theorem ancestors (same : SeesSame w w' id) : w'.ancestors id = w.ancestors id := by
  rw [World.ancestors, same.self, World.ancestors]

theorem trans (first : SeesSame w w' id) (second : SeesSame w' w'' id) : SeesSame w w'' id where
  self := second.self.trans first.self
  around a member := by rw [second.around a (first.ancestors ▸ member), first.around a member]

theorem symm (same : SeesSame w w' id) : SeesSame w' w id where
  self := same.self.symm
  around a member := (same.around a (same.ancestors ▸ member)).symm

theorem lineage (same : SeesSame w w' id) : w'.lineage id = w.lineage id := by
  rw [World.lineage, same.self, World.lineage]

theorem of_mem_lineage (same : SeesSame w w' id) (member : a ∈ w.lineage id) :
    w'.scope? a = w.scope? a := by
  rw [lineage_eq (has_of_mem_lineage member), List.mem_append, List.mem_singleton] at member
  rcases member with around | rfl
  · exact same.around a around
  · exact same.self

theorem resolve? (same : SeesSame w w' id) (name : String) :
    w'.resolve? id name = w.resolve? id name := by
  rw [World.resolve?, World.resolve?, same.lineage]
  refine List.findSome?_congr fun a member => ?_
  rw [local?, local?, same.of_mem_lineage member]

theorem visible (same : SeesSame w w' id) : w'.visible id = w.visible id := by
  rw [World.visible, World.visible, same.lineage]
  exact List.flatMap_congr fun a member => by rw [same.of_mem_lineage member]

theorem reaches (same : SeesSame w w' id) (target : String) (fuel : Nat) :
    w'.reaches id target fuel = w.reaches id target fuel := by
  funext name
  induction fuel generalizing name with
  | zero => rfl
  | succ fuel ih =>
    have below : w'.reaches id target fuel = w.reaches id target fuel := funext ih
    rw [World.reaches, World.reaches, same.resolve?, below]

theorem isAssignable (same : SeesSame w w' id) (name target : String) :
    w'.isAssignable id name target = w.isAssignable id name target := by
  rw [World.isAssignable, World.isAssignable, same.visible, same.reaches]

theorem loaded? (same : SeesSame w w' id) (name : String) :
    w'.loaded? id name = w.loaded? id name := by
  rw [World.loaded?, World.loaded?, same.self]

/-! ### What requests do -/

theorem register (same : SeesSame w w' id) (d : TypeDef) :
    w'.register id d = (w.register id d).map fun r => (r.1, w'.grow id d []) := by
  have super : w'.checkSuper id d = w.checkSuper id d := by
    simp only [checkSuper, require, same.resolve?]
  have interfaces : w'.checkInterfaces id d = w.checkInterfaces id d := by
    simp only [checkInterfaces, require, same.resolve?]
  rw [World.register, World.register, same.resolve?, super, interfaces]
  split
  · rfl
  · cases w.checkSuper id d with
    | error e => rfl
    | ok =>
      cases w.checkInterfaces id d with
      | error e => rfl
      | ok => simp [grow, bind, Except.bind, pure, Except.pure, Except.map]

theorem define (same : SeesSame w w' id) (bytes : Bytes) :
    w'.define id bytes = (w.define id bytes).map fun r => (r.1, w'.grow id r.1.type [r.1]) := by
  simp only [World.define, same.loaded?, same.register, bind, Except.bind]
  cases (ClassFile.decode bytes).mapError LoadError.decode with
  | error e => rfl
  | ok c =>
    cases verified : c.verify.mapError LoadError.verify with
    | error e => simp only [verified]; rfl
    | ok =>
      cases named : c.name? with
      | none => simp only [verified, named]; rfl
      | some name =>
        simp only [verified, named]
        split
        · rfl
        · cases registered : w.register id (TypeDef.ofClassFile name c) with
          | error e => rfl
          | ok r =>
            obtain ⟨handle, grown⟩ := r
            obtain ⟨-, rfl, -⟩ := register_eq_ok.mp registered
            exact congrArg (fun grown => Except.ok (_, grown)) (withLoaded_grow _)

/-- A chain of constructors looks up types of the scope only. -/
theorem runChain (same : SeesSame w w' id) (fuel : Nat) :
    w'.runChain id fuel = w.runChain id fuel := by
  induction fuel with
  | zero => rfl
  | succ fuel ih =>
    have super : w'.callSuper id fuel = w.callSuper id fuel := by
      funext owner fields
      rw [callSuper, callSuper, same.loaded?, same.resolve?, ih]
    funext t fields
    rw [runChain_succ, runChain_succ, super]

theorem instantiate (same : SeesSame w w' id) (name : String) :
    w'.instantiate id name = w.instantiate id name := by
  have construct (t : LoadedType) : w'.construct id t = w.construct id t := by
    rw [World.construct, World.construct, same.self, same.runChain]
  simp only [World.instantiate, same.loaded?, construct]

end SeesSame

/-! ### One request -/

theorem modifyScope_same (w : World) (id : ScopeId) : (w.modifyScope id fun s => s) = w := by
  have same : w.scopes.modify id.index (fun s => s) = w.scopes := by
    apply Array.ext_getElem?
    simp [Array.getElem?_modify]
  rw [modifyScope, same]

/-- What a request is answered and what it changes is told by what the scope sees.  Its place in
the forest is not changed. -/
theorem serve_eq (w : World) (id : ScopeId) (r : Request) :
    ∃ reply change, (∀ s : Scope, (change s).ancestors = s.ancestors) ∧
      ∀ w', SeesSame w w' id → w'.serve id r = (reply, w'.modifyScope id change) := by
  cases r with
  | register d =>
    cases registered : w.register id d with
    | error e =>
      refine ⟨.registered (.error e), fun s => s, fun _ => rfl, fun w' same => ?_⟩
      rw [serve, same.register, registered, modifyScope_same]
      rfl
    | ok r =>
      refine ⟨.registered (.ok r.1), fun s =>
        { s with types := s.types ++ [d], loaded := s.loaded ++ [] }, fun _ => rfl,
        fun w' same => ?_⟩
      rw [serve, same.register, registered]
      rfl
  | define bytes =>
    cases defined : w.define id bytes with
    | error e =>
      refine ⟨.defined (.error e), fun s => s, fun _ => rfl, fun w' same => ?_⟩
      rw [serve, same.define, defined, modifyScope_same]
      rfl
    | ok r =>
      refine ⟨.defined (.ok r.1), fun s =>
        { s with types := s.types ++ [r.1.type], loaded := s.loaded ++ [r.1] }, fun _ => rfl,
        fun w' same => ?_⟩
      rw [serve, same.define, defined]
      rfl
  | instantiate name =>
    refine ⟨.instantiated (w.instantiate id name), fun s => s, fun _ => rfl, fun w' same => ?_⟩
    rw [serve, same.instantiate, modifyScope_same]

/-- A request leaves every other scope as it was. -/
theorem scope?_serve (w : World) (r : Request) (elsewhere : other ≠ id) :
    (w.serve id r).2.scope? other = w.scope? other := by
  obtain ⟨reply, change, -, served⟩ := serve_eq w id r
  rw [served w (.refl w id), scope?_modifyScope, if_neg elsewhere.symm]

theorem scope?_serve_self (w : World) (id : ScopeId) (r : Request) :
    ∃ change : Scope → Scope, (∀ s, (change s).ancestors = s.ancestors) ∧
      (w.serve id r).2.scope? id = (w.scope? id).map change := by
  obtain ⟨reply, change, keeps, served⟩ := serve_eq w id r
  exact ⟨change, keeps, by rw [served w (.refl w id), scope?_modifyScope, if_pos rfl]⟩

theorem has_serve (w : World) (id : ScopeId) (r : Request) :
    (w.serve id r).2.has other = w.has other := by
  by_cases here : other = id
  · obtain ⟨change, -, changed⟩ := scope?_serve_self w id r
    rw [here, has, changed, Option.isSome_map, has]
  · rw [has, scope?_serve w r here, has]

theorem ancestors_serve (w : World) (id : ScopeId) (r : Request) :
    (w.serve id r).2.ancestors other = w.ancestors other := by
  by_cases here : other = id
  · obtain ⟨change, keeps, changed⟩ := scope?_serve_self w id r
    rw [here, ancestors, changed, ancestors]
    cases w.scope? id with
    | none => rfl
    | some s => exact keeps s
  · rw [ancestors, scope?_serve w r here, ancestors]

theorem lineage_serve (w : World) (id : ScopeId) (r : Request) :
    (w.serve id r).2.lineage other = w.lineage other := by
  cases present : w.has other with
  | false => rw [lineage_absent present, lineage_absent ((has_serve w id r).trans present)]
  | true => rw [lineage_eq present, lineage_eq ((has_serve w id r).trans present), ancestors_serve]

theorem not_mem_lineage (elsewhere : other ≠ id) (outside : id ∉ w.ancestors other) :
    id ∉ w.lineage other := by
  intro member
  rw [lineage_eq (has_of_mem_lineage member), List.mem_append, List.mem_singleton] at member
  rcases member with around | same
  · exact outside around
  · exact elsewhere same.symm

/-- A scope sees the same after a request that goes neither to it nor to a scope around it. -/
theorem seesSame_serve (r : Request) (outside : id ∉ w.lineage other) :
    SeesSame w (w.serve id r).2 other := by
  cases present : w.has other with
  | false =>
    -- A scope that was never made sees nothing, and no request makes it.
    have absent : w.scope? other = none := by simpa [has] using present
    have still : (w.serve id r).2.scope? other = none := by
      simpa [has] using (has_serve w id r).trans present
    refine ⟨still.trans absent.symm, fun a around => ?_⟩
    simp [ancestors, absent] at around
  | true =>
    rw [lineage_eq present, List.mem_append, List.mem_singleton, not_or] at outside
    exact ⟨scope?_serve w r (Ne.symm outside.2),
      fun a around => scope?_serve w r fun same => outside.1 (same ▸ around)⟩

/-- Neither of two scopes is the other or around it. -/
structure Unrelated (w : World) (a b : ScopeId) : Prop where
  ne : a ≠ b
  outside : a ∉ w.ancestors b
  outside' : b ∉ w.ancestors a

theorem modifyScope_comm (distinct : a ≠ b) (first second : Scope → Scope) :
    (w.modifyScope a first).modifyScope b second =
      (w.modifyScope b second).modifyScope a first := by
  have places : a.index ≠ b.index := fun same => distinct (congrArg ScopeId.mk same)
  have same : (w.scopes.modify a.index first).modify b.index second =
      (w.scopes.modify b.index second).modify a.index first := by
    apply Array.ext_getElem?
    intro i
    by_cases atA : a.index = i
    · have atB : b.index ≠ i := fun atB => places (atA.trans atB.symm)
      simp [Array.getElem?_modify, atA, atB]
    · simp [Array.getElem?_modify, atA]
  simp only [modifyScope, same]

/-- Requests to unrelated scopes are answered alike in either order, and lead to one world. -/
theorem serve_comm (unrelated : w.Unrelated a b) (r r' : Request) :
    ((w.serve a r).2.serve b r').1 = (w.serve b r').1 ∧
      ((w.serve b r').2.serve a r).1 = (w.serve a r).1 ∧
      ((w.serve a r).2.serve b r').2 = ((w.serve b r').2.serve a r).2 := by
  obtain ⟨reply, change, -, served⟩ := serve_eq w a r
  obtain ⟨reply', change', -, served'⟩ := serve_eq w b r'
  have seenA := seesSame_serve r' (not_mem_lineage unrelated.ne unrelated.outside')
  have seenB := seesSame_serve r (not_mem_lineage unrelated.ne.symm unrelated.outside)
  rw [served' _ seenB, served _ seenA, served w (.refl w a), served' w (.refl w b)]
  exact ⟨rfl, rfl, modifyScope_comm unrelated.ne change change'⟩

/-! ### Requests in a row -/

theorem Nested.serve (nested : w.Nested) (id : ScopeId) (r : Request) :
    (w.serve id r).2.Nested := by
  intro other present
  rw [has_serve] at present
  rw [ancestors_serve]
  rcases nested other present with top | ⟨parent, older, exists_parent, below⟩
  · exact .inl top
  · exact .inr ⟨parent, older, (has_serve w id r).trans exists_parent,
      below.trans (lineage_serve w id r).symm⟩

/-- Where two scopes see the same, so do those around them. -/
theorem SeesSame.of_around (same : SeesSame w w' other) (nested : w.Nested)
    (member : id ∈ w.lineage other) : SeesSame w w' id where
  self := same.of_mem_lineage member
  around a around := by
    obtain ⟨inner, split, -⟩ := nested.lineage_around member
    refine same.of_mem_lineage ?_
    rw [split]
    exact List.mem_append_left _ around

/-- A request to a scope or to one around it keeps what it sees the same in two worlds. -/
theorem SeesSame.serve (same : SeesSame w w' other) (nested : w.Nested)
    (member : id ∈ w.lineage other) (r : Request) :
    SeesSame (w.serve id r).2 (w'.serve id r).2 other := by
  obtain ⟨reply, change, -, served⟩ := serve_eq w id r
  rw [served w (.refl w id), served w' (same.of_around nested member)]
  have agree (a : ScopeId) (seen : w'.scope? a = w.scope? a) :
      (w'.modifyScope id change).scope? a = (w.modifyScope id change).scope? a := by
    rw [scope?_modifyScope, scope?_modifyScope, seen]
  have kept : (w.modifyScope id change).ancestors other = w.ancestors other := by
    have before : (w.serve id r).2.ancestors other = w.ancestors other := ancestors_serve w id r
    rwa [served w (.refl w id)] at before
  exact ⟨agree other same.self, fun a around => agree a (same.around a (kept ▸ around))⟩

/-- What a scope sees after requests in a row is what it sees after those of them that go to it or
to a scope around it. -/
theorem SeesSame.serveAll (same : SeesSame w w' other) (nested : w.Nested)
    (requests : List (ScopeId × Request)) :
    SeesSame (w.serveAll requests).2
      (w'.serveAll (requests.filter fun q => q.1 ∈ w.lineage other)).2 other := by
  -- The second world skips the requests that go elsewhere, and these leave what the scope sees.
  induction requests generalizing w w' with
  | nil => exact same
  | cons q rest ih =>
    obtain ⟨id, r⟩ := q
    have later {w'' : World} (seen : SeesSame (w.serve id r).2 w'' other) :=
      ih seen (nested.serve id r)
    rw [lineage_serve] at later
    by_cases inside : id ∈ w.lineage other
    · rw [List.filter_cons_of_pos (by simpa using inside)]
      exact later (same.serve nested inside r)
    · rw [List.filter_cons_of_neg (by simpa using inside)]
      exact later ((seesSame_serve r inside).symm.trans same)

/-! ### Isolation -/

/-- A request to a scope, whether it fails or succeeds, leaves every other scope as it was, with the
names it defines and the types it holds from class files; and every scope that is not within this
one goes on to resolve all names and to order them as before.  Two requests to scopes of which none
is the other or around it are answered alike in either order, and lead to the same world. -/
theorem requests_are_isolated (w : World) (id : ScopeId) (r : Request) :
    (∀ s, s ≠ id → (w.serve id r).2.scope? s = w.scope? s) ∧
    (∀ s, s ≠ id → id ∉ w.ancestors s →
      (∀ name, (w.serve id r).2.resolve? s name = w.resolve? s name) ∧
      ∀ name target, (w.serve id r).2.isAssignable s name target = w.isAssignable s name target) ∧
    ∀ other r', other ≠ id → id ∉ w.ancestors other → other ∉ w.ancestors id →
      ((w.serve id r).2.serve other r').1 = (w.serve other r').1 ∧
      ((w.serve other r').2.serve id r).1 = (w.serve id r).1 ∧
      ((w.serve id r).2.serve other r').2 = ((w.serve other r').2.serve id r).2 := by
  refine ⟨fun s elsewhere => scope?_serve w r elsewhere, fun s elsewhere outside => ?_,
    fun other r' distinct outside outside' => ?_⟩
  · have same := seesSame_serve r (not_mem_lineage elsewhere outside)
    exact ⟨same.resolve?, same.isAssignable⟩
  · have unrelated : w.Unrelated id other := ⟨distinct.symm, outside, outside'⟩
    exact serve_comm unrelated r r'

/-- The same bytes loaded by two contexts of one scope. -/
theorem requests_are_isolated_twins :
    let w := after [.bootstrap, .isolated ⟨0⟩, .isolated ⟨0⟩]
    let r := Request.define (chainClass "T" objectName 0x0021)
    (⟨2⟩ : ScopeId) ≠ ⟨1⟩ ∧ ⟨1⟩ ∉ w.ancestors ⟨2⟩ ∧ ⟨2⟩ ∉ w.ancestors ⟨1⟩ ∧
      ((w.serve ⟨1⟩ r).2.resolve? ⟨1⟩ "T").isSome ∧
      (w.serve ⟨1⟩ r).2.scope? ⟨2⟩ = w.scope? ⟨2⟩ ∧
      (w.serve ⟨1⟩ r).2.resolve? ⟨2⟩ "T" = w.resolve? ⟨2⟩ "T" ∧
      ((w.serve ⟨1⟩ r).2.serve ⟨2⟩ r).1 = (w.serve ⟨2⟩ r).1 ∧
      ((w.serve ⟨2⟩ r).2.serve ⟨1⟩ r).1 = (w.serve ⟨1⟩ r).1 ∧
      ((w.serve ⟨1⟩ r).2.serve ⟨2⟩ r).2 = ((w.serve ⟨2⟩ r).2.serve ⟨1⟩ r).2 := by
  intro w r
  have distinct : (⟨2⟩ : ScopeId) ≠ ⟨1⟩ := by decide
  have outside : ⟨1⟩ ∉ w.ancestors ⟨2⟩ := by decide +kernel
  have outside' : ⟨2⟩ ∉ w.ancestors ⟨1⟩ := by decide +kernel
  have defined : ((w.serve ⟨1⟩ r).2.resolve? ⟨1⟩ "T").isSome := by decide +kernel
  obtain ⟨kept, sees, commute⟩ := requests_are_isolated w ⟨1⟩ r
  exact ⟨distinct, outside, outside', defined, kept _ distinct,
    (sees _ distinct outside).1 "T", commute _ r distinct outside outside'⟩

/-- After every history and any requests in a row, a scope sees what it would see if only those of
them had been made that go to it or to a scope around it, and it answers every request alike. -/
theorem information_goes_down (operations : List Operation) (id : ScopeId)
    (requests : List (ScopeId × Request)) :
    let w := after operations
    let above := requests.filter fun q => q.1 ∈ w.lineage id
    SeesSame (w.serveAll requests).2 (w.serveAll above).2 id ∧
      ∀ r, ((w.serveAll requests).2.serve id r).1 = ((w.serveAll above).2.serve id r).1 := by
  intro w above
  have same := (SeesSame.refl w id).serveAll (nested_after operations) requests
  refine ⟨same, fun r => ?_⟩
  obtain ⟨reply, change, -, served⟩ := serve_eq (w.serveAll requests).2 id r
  rw [served _ (.refl _ id), served _ same]

end World

end ClassBench
