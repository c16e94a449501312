import Actorplane.Lib.DepthFirst
import Actorplane.Model.PythonComponents

/-!
# The start order of components

Sorting the declarations of a class is a depth-first sort of the graph of their
dependencies, in which a factory is checked when a component is entered and
after a dependency is visited, a dependency is looked up before it is visited,
and the required interfaces are looked for when a component is left.
-/

namespace Actorplane
namespace Python.Components

/-! ## Members -/

theorem put_keys_nodup {α : Type} {d : List (String × α)} (h : (d.map Prod.fst).Nodup)
    (item : String × α) : ((put d item).map Prod.fst).Nodup := by
  unfold put
  split_ifs with hmem
  · have : (d.map fun e => if e.1 = item.1 then item else e).map Prod.fst = d.map Prod.fst := by
      rw [List.map_map]
      apply List.map_congr_left
      intro e _
      by_cases he : e.1 = item.1 <;> simp [he]
    rwa [this]
  · rw [List.map_append, List.nodup_append]
    refine ⟨h, by simp, ?_⟩
    intro k hk k' hk' heq
    apply hmem
    simpa [heq, List.mem_singleton.mp hk'] using hk

theorem members_nodup (cls : Class) : ((members cls).map Prod.fst).Nodup := by
  unfold members
  apply List.foldlRecOn (motive := fun d : List (String × Member) => (d.map Prod.fst).Nodup)
  · simp
  intro d hd base _
  apply List.foldlRecOn (motive := fun d : List (String × Member) => (d.map Prod.fst).Nodup) _ _ hd
  intro d hd item _
  exact put_keys_nodup hd item

/-- The declared names are distinct. -/
theorem found_nodup (cls : Class) : ((found cls).map Prod.fst).Nodup := by
  have : ((found cls).map Prod.fst).Sublist ((members cls).map Prod.fst) := by
    unfold found
    induction members cls with
    | nil => simp
    | cons e rest ih =>
      cases h : e.2.descriptor with
      | none => simpa [h] using ih.cons e.1
      | some d => simpa [h] using ih.cons_cons e.1
  exact this.nodup (members_nodup cls)

theorem lookup_eq_some {found : List (String × ComponentDescriptor)}
    (h : (found.map Prod.fst).Nodup) {name : String} {d : ComponentDescriptor} :
    found.lookup name = some d ↔ (name, d) ∈ found := by
  induction found with
  | nil => simp
  | cons e rest ih =>
    obtain ⟨k, d'⟩ := e
    have hfresh : ∀ d, (k, d) ∉ rest := fun d hd =>
      (List.nodup_cons.mp h).1 (List.mem_map.mpr ⟨_, hd, rfl⟩)
    by_cases hk : name = k
    · subst hk
      simp [hfresh d, eq_comm]
    · have hne : (name == k) = false := by simpa using hk
      simp [List.lookup_cons, hne, hk, ih (List.nodup_cons.mp h).2]

theorem lookup_eq_none {found : List (String × ComponentDescriptor)} {name : String} :
    found.lookup name = none ↔ name ∉ found.map Prod.fst := by
  rw [List.lookup_eq_none_iff]
  constructor
  · intro h hmem
    obtain ⟨e, he, rfl⟩ := List.mem_map.mp hmem
    simpa using h e he
  · intro h e he
    have : name ≠ e.1 := fun heq => h (heq ▸ List.mem_map_of_mem he)
    simpa using this

/-! ## The graph of dependencies -/

section Graph

variable (found : List (String × ComponentDescriptor))

/-- The check of a declared component's factory. -/
def checkFactory (name : String) : Except DeclarationError Unit :=
  match found.lookup name with
  | none => .error (.key name)
  | some d => (interfaces d.factory).map fun _ => ()

/-- The interfaces a declared component makes available. -/
def provided (name : String) : List Interface :=
  ((found.lookup name).map fun d => d.factory.contracts).getD []

def checkDeclared (name : String) : Except DeclarationError Unit :=
  match found.lookup name with
  | none => .error (missingDependency name)
  | some _ => .ok ()

/-- The check of a component's required interfaces against all of its dependencies. -/
def checkRequires (name : String) : Except DeclarationError Unit :=
  match found.lookup name with
  | none => .ok ()
  | some d => checkRequired (d.dependsOn.flatMap (provided found)) d.requires

def graph : DepthFirst String DeclarationError where
  enter := checkFactory found
  edges name := ((found.lookup name).map ComponentDescriptor.dependsOn).getD []
  follow := checkDeclared found
  back := checkFactory found
  leave := checkRequires found
  cyclic := .value "component dependency cycle"
  exhausted := .recursion

/-- The state of the sort that a trace of the graph stands for. -/
def Visit.of (t : DepthFirst.Trace String) : Visit where
  visiting := t.visiting
  done := t.done
  ordered := t.done.filterMap fun name => (found.lookup name).map (name, ·)

variable {found}

theorem interfaces_contracts {f : Factory} {contracts : List Interface}
    (h : interfaces f = .ok contracts) : contracts = f.contracts := by
  unfold interfaces at h
  cases hf : f.implements with
  | none => simp [hf] at h
  | some listed =>
    simp only [hf] at h
    split_ifs at h
    cases hp : portDeclarations f with
    | error e => simp [hp, bind, Except.bind] at h
    | ok ports =>
      cases hc : listed.forM (checkContract ports) with
      | error e => simp [hp, hc, bind, Except.bind] at h
      | ok _ =>
        simp only [hp, hc, bind, Except.bind, pure, Except.pure, Except.ok.injEq] at h
        simp [Factory.contracts, hf, h]

variable (found) in
/-- Following one edge of the graph. -/
def walk (visit : DepthFirst.Trace String → String →
    Except DeclarationError (DepthFirst.Trace String)) (t : DepthFirst.Trace String)
    (name : String) : Except DeclarationError (DepthFirst.Trace String) := do
  checkDeclared found name
  let t ← visit t name
  checkFactory found name
  return t

/-- Resolving one dependency follows one edge. -/
theorem resolve_of {visit : Visit → String → Except DeclarationError Visit}
    {visit' : DepthFirst.Trace String → String →
      Except DeclarationError (DepthFirst.Trace String)}
    (h : ∀ t name, visit (Visit.of found t) name = (visit' t name).map (Visit.of found))
    (t : DepthFirst.Trace String) (available : List Interface) (dependency : String) :
    resolve found visit (Visit.of found t, available) dependency =
      (walk found visit' t dependency).map
        fun t => (Visit.of found t, available ++ provided found dependency) := by
  unfold resolve walk checkDeclared checkFactory provided
  cases hd : found.lookup dependency with
  | none => rfl
  | some target =>
    rw [h]
    cases visit' t dependency with
    | error e => rfl
    | ok t' =>
      cases hi : interfaces target.factory with
      | error e => simp [hi, bind, Except.bind, Except.map]
      | ok contracts =>
        simp [hi, bind, Except.bind, Except.map, pure, Except.pure, interfaces_contracts hi]

theorem resolve_all_of {visit : Visit → String → Except DeclarationError Visit}
    {visit' : DepthFirst.Trace String → String →
      Except DeclarationError (DepthFirst.Trace String)}
    (h : ∀ t name, visit (Visit.of found t) name = (visit' t name).map (Visit.of found))
    (dependsOn : List String) (t : DepthFirst.Trace String) (available : List Interface) :
    dependsOn.foldlM (resolve found visit) (Visit.of found t, available) =
      (dependsOn.foldlM (walk found visit') t).map
        fun t => (Visit.of found t, available ++ dependsOn.flatMap (provided found)) := by
  induction dependsOn generalizing t available with
  | nil => simp [pure, Except.pure, Except.map]
  | cons dependency rest ih =>
    rw [List.foldlM_cons, List.foldlM_cons, resolve_of h]
    cases walk found visit' t dependency with
    | error e => rfl
    | ok t' =>
      simpa [bind, Except.bind, Except.map] using
        ih t' (available ++ provided found dependency)

/-- A visit of the sort is a visit of the graph. -/
theorem visit_of (depth : ℕ) (t : DepthFirst.Trace String) (name : String) :
    visit found depth (Visit.of found t) name =
      ((graph found).visit depth t name).map (Visit.of found) := by
  induction depth generalizing t name with
  | zero => rfl
  | succ depth ih =>
    rw [visit, DepthFirst.visit]
    by_cases hv : name ∈ t.visiting
    · have : name ∈ (Visit.of found t).visiting := hv
      rw [if_pos this, if_pos hv]
      rfl
    by_cases hd : name ∈ t.done
    · have : name ∈ (Visit.of found t).done := hd
      rw [if_neg (show name ∉ (Visit.of found t).visiting from hv), if_pos this, if_neg hv,
        if_pos hd]
      rfl
    rw [if_neg (show name ∉ (Visit.of found t).visiting from hv),
      if_neg (show name ∉ (Visit.of found t).done from hd), if_neg hv, if_neg hd]
    change _ = Except.map _ (do
      let _ ← checkFactory found name
      let t ← (((found.lookup name).map ComponentDescriptor.dependsOn).getD []).foldlM
        (walk found ((graph found).visit depth)) { t with visiting := name :: t.visiting }
      let _ ← checkRequires found name
      return { visiting := t.visiting.erase name, done := t.done ++ [name] } :
        Except DeclarationError (DepthFirst.Trace String))
    unfold checkFactory checkRequires
    cases hfound : found.lookup name with
    | none => rfl
    | some d =>
      have hloop := resolve_all_of ih d.dependsOn { t with visiting := name :: t.visiting } []
      cases hi : interfaces d.factory with
      | error e => simp [hi, bind, Except.bind, Except.map]
      | ok contracts =>
        simp only [Visit.of] at hloop
        cases hw : d.dependsOn.foldlM (walk found ((graph found).visit depth))
            { t with visiting := name :: t.visiting } with
        | error e => simp [hi, hw, hloop, Visit.of, bind, Except.bind, Except.map]
        | ok t' =>
          cases hr : checkRequired (d.dependsOn.flatMap (provided found)) d.requires with
          | error e => simp [hi, hw, hloop, hr, Visit.of, bind, Except.bind, Except.map]
          | ok _ =>
            simp [hi, hw, hloop, hr, hfound, Visit.of, bind, Except.bind, Except.map, pure,
              Except.pure]

/-- The sort of the declared names is the sort of their graph. -/
theorem sort_of (depth : ℕ) (names : List String) (t : DepthFirst.Trace String) :
    names.foldlM (visit found depth) (Visit.of found t) =
      (names.foldlM ((graph found).visit depth) t).map (Visit.of found) := by
  induction names generalizing t with
  | nil => rfl
  | cons name rest ih =>
    rw [List.foldlM_cons, List.foldlM_cons, visit_of]
    cases (graph found).visit depth t name with
    | error e => rfl
    | ok t' => exact ih t'

end Graph

/-! ## What a declaration may be refused for -/

namespace Class

variable (cls : Class)

/-- More than 64 declarations, or one descriptor under two names. -/
def Crowded : Prop :=
  64 < (found cls).length ∨ ¬((found cls).map fun e => e.2.identity).Nodup

/-- Some factory's own interface list is refused. -/
def Miswired : Prop :=
  ∃ name d e, (name, d) ∈ found cls ∧ interfaces d.factory = .error e

def DependsOn (name dependency : String) : Prop :=
  ∃ d, (name, d) ∈ found cls ∧ dependency ∈ d.dependsOn

def Undeclared : Prop :=
  ∃ name dependency, cls.DependsOn name dependency ∧ dependency ∉ (found cls).map Prod.fst

def Cyclic : Prop := ∃ name, Relation.TransGen cls.DependsOn name name

/-- Some required interface is implemented by none of the direct dependencies. -/
def Unmet : Prop :=
  ∃ name d required, (name, d) ∈ found cls ∧ required ∈ d.requires ∧
    ∀ dependency ∈ d.dependsOn, ∀ target, (dependency, target) ∈ found cls →
      required ∉ target.factory.contracts

variable {cls}

theorem edge_iff {name dependency : String} :
    (graph (found cls)).Edge name dependency ↔ cls.DependsOn name dependency := by
  unfold DepthFirst.Edge DependsOn
  simp only [← lookup_eq_some (found_nodup cls), graph]
  cases (found cls).lookup name <;> simp

theorem cyclic_iff : cls.Cyclic ↔ ∃ name ∈ (found cls).map Prod.fst,
    Relation.TransGen (graph (found cls)).Edge name name := by
  have hedge : (graph (found cls)).Edge = cls.DependsOn := by
    funext name dependency
    exact propext edge_iff
  rw [hedge]
  constructor
  · rintro ⟨name, hpath⟩
    obtain ⟨_, ⟨d, hd, _⟩, _⟩ := Relation.TransGen.head'_iff.mp hpath
    exact ⟨name, List.mem_map.mpr ⟨_, hd, rfl⟩, hpath⟩
  · rintro ⟨name, _, hpath⟩
    exact ⟨name, hpath⟩

theorem mem_found_of_declared {name : String}
    (h : checkDeclared (found cls) name = .ok ()) : name ∈ (found cls).map Prod.fst := by
  unfold checkDeclared at h
  by_contra hnot
  rw [lookup_eq_none.mpr hnot] at h
  simp at h

theorem exists_descriptor {name : String} (h : name ∈ (found cls).map Prod.fst) :
    ∃ d, (name, d) ∈ found cls ∧ (found cls).lookup name = some d := by
  obtain ⟨e, he, rfl⟩ := List.mem_map.mp h
  exact ⟨e.2, he, (lookup_eq_some (found_nodup cls)).mpr he⟩

theorem miswired_iff : cls.Miswired ↔ ∃ name ∈ (found cls).map Prod.fst, ∃ e,
    checkFactory (found cls) name = .error e := by
  constructor
  · rintro ⟨name, d, e, hd, he⟩
    refine ⟨name, List.mem_map.mpr ⟨_, hd, rfl⟩, e, ?_⟩
    simp [checkFactory, (lookup_eq_some (found_nodup cls)).mpr hd, he, Except.map]
  · rintro ⟨name, hname, e, he⟩
    obtain ⟨d, hd, hlookup⟩ := exists_descriptor hname
    refine ⟨name, d, e, hd, ?_⟩
    cases hi : interfaces d.factory with
    | error e' => simpa [checkFactory, hlookup, hi, Except.map] using he
    | ok contracts => simp [checkFactory, hlookup, hi, Except.map] at he

theorem undeclared_iff : cls.Undeclared ↔ ∃ name dependency e,
    (graph (found cls)).Edge name dependency ∧
      checkDeclared (found cls) dependency = .error e := by
  unfold Undeclared
  simp only [edge_iff]
  constructor
  · rintro ⟨name, dependency, he, hnot⟩
    refine ⟨name, dependency, missingDependency dependency, he, ?_⟩
    simp [checkDeclared, lookup_eq_none.mpr hnot]
  · rintro ⟨name, dependency, e, he, herr⟩
    refine ⟨name, dependency, he, ?_⟩
    intro hmem
    obtain ⟨d, _, hlookup⟩ := exists_descriptor hmem
    simp [checkDeclared, hlookup] at herr

theorem checkRequired_error {available requires : List Interface} :
    (∃ e, checkRequired available requires = .error e) ↔
      ∃ required ∈ requires, required ∉ available := by
  unfold checkRequired
  cases h : requires.find? (· ∉ available) with
  | none =>
    have := List.find?_eq_none.mp h
    simpa using this
  | some required =>
    have hmem := List.mem_of_find?_eq_some h
    have hnot := List.find?_some h
    simp only [Except.error.injEq, exists_eq', true_iff]
    exact ⟨required, hmem, by simpa using hnot⟩

theorem unmet_iff : cls.Unmet ↔ ∃ name ∈ (found cls).map Prod.fst, ∃ e,
    checkRequires (found cls) name = .error e := by
  have key : ∀ name d, (found cls).lookup name = some d →
      ((∃ e, checkRequires (found cls) name = .error e) ↔
        ∃ required ∈ d.requires, ∀ dependency ∈ d.dependsOn, ∀ target,
          (dependency, target) ∈ found cls → required ∉ target.factory.contracts) := by
    intro name d hlookup
    simp only [checkRequires, hlookup, checkRequired_error, List.mem_flatMap, not_exists, not_and,
      ← lookup_eq_some (found_nodup cls), provided]
    apply exists_congr
    intro required
    apply and_congr_right
    intro _
    apply forall₂_congr
    intro dependency _
    cases (found cls).lookup dependency <;> simp
  constructor
  · rintro ⟨name, d, required, hd, hrequired, hnone⟩
    have hlookup := (lookup_eq_some (found_nodup cls)).mpr hd
    exact ⟨name, List.mem_map.mpr ⟨_, hd, rfl⟩,
      (key name d hlookup).mpr ⟨required, hrequired, hnone⟩⟩
  · rintro ⟨name, hname, herr⟩
    obtain ⟨d, hd, hlookup⟩ := exists_descriptor hname
    obtain ⟨required, hrequired, hnone⟩ := (key name d hlookup).mp herr
    exact ⟨name, d, required, hd, hrequired, hnone⟩

/-- The flaws of the graph are the reasons to refuse the declarations. -/
theorem flaw_iff : (∃ e, (graph (found cls)).Flaw ((found cls).map Prod.fst) e) ↔
    cls.Miswired ∨ cls.Undeclared ∨ cls.Cyclic ∨ cls.Unmet := by
  rw [miswired_iff, undeclared_iff, cyclic_iff, unmet_iff]
  constructor
  · rintro ⟨e, flaw⟩
    cases flaw with
    | enter hn he => exact Or.inl ⟨_, hn, e, he⟩
    | follow hn hm he => exact Or.inr (Or.inl ⟨_, _, e, hm, he⟩)
    | back hn hm hm' he => exact Or.inl ⟨_, hm', e, he⟩
    | leave hn he => exact Or.inr (Or.inr (Or.inr ⟨_, hn, e, he⟩))
    | cyclic hn hp => exact Or.inr (Or.inr (Or.inl ⟨_, hn, hp⟩))
  · rintro (⟨name, hn, e, he⟩ | ⟨name, dependency, e, hm, he⟩ | ⟨name, hn, hp⟩ | ⟨name, hn, e, he⟩)
    · exact ⟨e, .enter hn he⟩
    · obtain ⟨d, hd, _⟩ := edge_iff.mp hm
      exact ⟨e, .follow (List.mem_map.mpr ⟨_, hd, rfl⟩) hm he⟩
    · exact ⟨_, .cyclic hn hp⟩
    · exact ⟨e, .leave hn he⟩

end Class

/-! ## Only a bounded stack is used -/

theorem answers_checkContract (ports : List (String × Direction × ℕ)) (contract : Interface) :
    Answers (fun _ => True) (· ≠ .recursion) (checkContract ports contract) := by
  unfold checkContract
  cases contract.ports.find? (· ∉ ports) with
  | none => trivial
  | some port => exact fun h => nomatch h

theorem answers_checkContracts (ports : List (String × Direction × ℕ))
    (contracts : List Interface) :
    Answers (fun _ => True) (· ≠ .recursion) (contracts.forM (checkContract ports)) := by
  induction contracts with
  | nil => trivial
  | cons contract rest ih =>
    rw [List.forM_eq_forM, List.forM_cons]
    apply (answers_checkContract ports contract).bind
    intro _ _
    exact ih

theorem answers_portDeclarations (f : Factory) :
    Answers (fun _ => True) (· ≠ .recursion) (portDeclarations f) := by
  unfold portDeclarations
  cases f.nativePorts with
  | some ports => trivial
  | none =>
    dsimp only
    split_ifs
    · exact fun h => nomatch h
    · trivial

theorem answers_interfaces (f : Factory) :
    Answers (fun _ => True) (· ≠ .recursion) (interfaces f) := by
  unfold interfaces
  cases f.implements with
  | none => exact fun h => nomatch h
  | some contracts =>
    dsimp only
    by_cases hlength : 16 < contracts.length
    · rw [if_pos hlength]
      exact fun h => nomatch h
    by_cases hnodup : (contracts.map fun i => (i.name, i.version)).Nodup
    · rw [if_neg hlength, if_neg (not_not.mpr hnodup)]
      apply (answers_portDeclarations f).bind
      intro ports _
      apply (answers_checkContracts ports contracts).bind
      intro _ _
      trivial
    · rw [if_neg hlength, if_pos hnodup]
      exact fun h => nomatch h

theorem answers_checkFactory (found : List (String × ComponentDescriptor)) (name : String) :
    Answers (fun _ => True) (· ≠ .recursion) (checkFactory found name) := by
  unfold checkFactory
  cases found.lookup name with
  | none => exact fun h => nomatch h
  | some d =>
    have h := answers_interfaces d.factory
    dsimp only
    revert h
    cases interfaces d.factory with
    | ok _ => exact fun _ => trivial
    | error e => exact id

theorem answers_checkRequired (available requires : List Interface) :
    Answers (fun _ => True) (· ≠ .recursion) (checkRequired available requires) := by
  unfold checkRequired
  cases requires.find? (· ∉ available) with
  | none => trivial
  | some required => exact fun h => nomatch h

theorem flaw_ne_recursion {found : List (String × ComponentDescriptor)} {names : List String}
    {e : DeclarationError} (h : (graph found).Flaw names e) : e ≠ .recursion := by
  have factory : ∀ name e, checkFactory found name = .error e → e ≠ .recursion := by
    intro name e he
    have := answers_checkFactory found name
    rwa [he] at this
  cases h with
  | enter _ he => exact factory _ e he
  | back _ _ _ he => exact factory _ e he
  | @follow _ m _ _ _ he =>
    intro heq
    change checkDeclared found m = .error e at he
    unfold checkDeclared at he
    cases hl : found.lookup m <;> simp [hl, missingDependency, heq] at he
  | @leave n _ _ he =>
    change checkRequires found n = .error e at he
    unfold checkRequires at he
    cases hl : found.lookup n with
    | none => simp [hl] at he
    | some d =>
      have := answers_checkRequired (d.dependsOn.flatMap (provided found)) d.requires
      simp only [hl] at he
      rwa [he] at this
  | cyclic => exact fun h => nomatch h

/-! ## The order -/

theorem entries_of_names {found : List (String × ComponentDescriptor)}
    {names : List String} (h : ∀ name ∈ names, name ∈ found.map Prod.fst) :
    (names.filterMap fun name => (found.lookup name).map (name, ·)).map Prod.fst = names := by
  induction names with
  | nil => rfl
  | cons name rest ih =>
    have hrest := ih fun k hk => h k (List.mem_cons_of_mem _ hk)
    cases hl : found.lookup name with
    | none => exact absurd (h name List.mem_cons_self) (lookup_eq_none.mp hl)
    | some d => simp [hl, hrest]

theorem names_entries {found : List (String × ComponentDescriptor)}
    (h : (found.map Prod.fst).Nodup) :
    ((found.map Prod.fst).filterMap fun name => (found.lookup name).map (name, ·)) = found := by
  rw [List.filterMap_map]
  have : ∀ e ∈ found, ((fun name => (found.lookup name).map (name, ·)) ∘ Prod.fst) e = some e := by
    intro e he
    simp [(lookup_eq_some h).mpr (show (e.1, e.2) ∈ found from he)]
  rw [List.filterMap_congr this, List.filterMap_some]

/-- Every component comes after the components it depends on. -/
def InOrder (ordered : List (String × ComponentDescriptor)) : Prop :=
  ∀ pre name d post, ordered = pre ++ (name, d) :: post →
    ∀ dependency ∈ d.dependsOn, dependency ∈ pre.map Prod.fst

/-- What the sort of the declared names answers. -/
theorem sort_found (cls : Class) {depth : ℕ} (hdepth : (found cls).length < depth) :
    Answers (fun v : Visit => (v.ordered.Perm (found cls) ∧ InOrder v.ordered) ∧
        ∀ e, ¬(graph (found cls)).Flaw ((found cls).map Prod.fst) e)
      ((graph (found cls)).Flaw ((found cls).map Prod.fst))
      (((found cls).map Prod.fst).foldlM (visit (found cls) depth)
        { visiting := [], done := [], ordered := [] }) := by
  have hclosed : ∀ n ∈ (found cls).map Prod.fst, ∀ m, (graph (found cls)).Edge n m →
      (graph (found cls)).follow m = .ok () → m ∈ (found cls).map Prod.fst :=
    fun _ _ _ _ h => Class.mem_found_of_declared h
  have hsort := DepthFirst.sort_answers (found_nodup cls) hclosed (by simpa using hdepth)
  change Answers _ _ (List.foldlM _
    (Visit.of (found cls) { visiting := [], done := [] }) ((found cls).map Prod.fst))
  rw [sort_of]
  unfold DepthFirst.sort at hsort
  revert hsort
  cases ((found cls).map Prod.fst).foldlM ((graph (found cls)).visit depth)
    { visiting := [], done := [] } with
  | error e => exact id
  | ok t =>
    rintro ⟨hperm, hordered⟩
    have hclean : ∀ e, ¬(graph (found cls)).Flaw ((found cls).map Prod.fst) e := fun e flaw =>
      hordered.no_flaw (hperm.nodup_iff.mpr (found_nodup cls)) e (flaw.perm hperm.symm)
    have hnames := entries_of_names fun name hname => hperm.mem_iff.mp hname
    refine ⟨⟨?_, ?_⟩, hclean⟩
    · have := hperm.filterMap fun name => ((found cls).lookup name).map (name, ·)
      rwa [names_entries (found_nodup cls)] at this
    · intro pre name d post heq dependency hdependency
      change t.done.filterMap (fun name => ((found cls).lookup name).map (name, ·)) = _ at heq
      have hdone : t.done = pre.map Prod.fst ++ name :: post.map Prod.fst := by
        rw [← hnames, heq]
        simp
      apply (hordered _ name _ hdone).2 dependency
      rw [Class.edge_iff]
      have hmem : (name, d) ∈ t.done.filterMap fun name =>
          ((found cls).lookup name).map (name, ·) := by
        rw [heq]
        simp
      obtain ⟨name', _, hentry⟩ := List.mem_filterMap.mp hmem
      obtain ⟨d', hlookup, heq'⟩ := Option.map_eq_some_iff.mp hentry
      obtain ⟨rfl, rfl⟩ := Prod.mk.inj heq'
      exact ⟨d', (lookup_eq_some (found_nodup cls)).mp hlookup, hdependency⟩

theorem declarations_crowded {cls : Class} (h : cls.Crowded) (depth : ℕ) :
    declarations depth cls =
      .error (.value "at most 64 distinct component declarations") := if_pos h

theorem declarations_sorted {cls : Class} (h : ¬cls.Crowded) (depth : ℕ) :
    declarations depth cls = (((found cls).map Prod.fst).foldlM (visit (found cls) depth)
      { visiting := [], done := [], ordered := [] }).map Visit.ordered := by
  refine (if_neg h).trans ?_
  cases ((found cls).map Prod.fst).foldlM (visit (found cls) depth)
    { visiting := [], done := [], ordered := [] } <;> rfl

/-- The declarations of a class are refused exactly when they are too many or not distinct, a
factory's interface list is refused, a dependency is not declared, the dependencies have a cycle,
or a required interface is implemented by no direct dependency; otherwise they are returned with
every component after the components it depends on. A stack of 65 calls is enough. -/
theorem declarations_order (cls : Class) {depth : ℕ} (hdepth : 64 < depth) :
    declarations depth cls ≠ .error .recursion ∧
    ((∃ e, declarations depth cls = .error e) ↔
      cls.Crowded ∨ cls.Miswired ∨ cls.Undeclared ∨ cls.Cyclic ∨ cls.Unmet) ∧
    ∀ ordered, declarations depth cls = .ok ordered →
      ordered.Perm (found cls) ∧ InOrder ordered := by
  by_cases hcrowded : cls.Crowded
  · rw [declarations_crowded hcrowded]
    simp [hcrowded]
  have hlength : (found cls).length < depth := by
    unfold Class.Crowded at hcrowded
    omega
  have hsort := sort_found cls hlength
  rw [declarations_sorted hcrowded, ← Class.flaw_iff]
  revert hsort
  cases ((found cls).map Prod.fst).foldlM (visit (found cls) depth)
    { visiting := [], done := [], ordered := [] } with
  | error e =>
    intro flaw
    have hne : e ≠ .recursion := flaw_ne_recursion flaw
    have hiff : (∃ e', Except.map Visit.ordered (.error e) = .error e') ↔ cls.Crowded ∨ ∃ e',
        (graph (found cls)).Flaw ((found cls).map Prod.fst) e' :=
      iff_of_true ⟨e, rfl⟩ (Or.inr ⟨e, flaw⟩)
    exact ⟨fun h => hne (Except.error.inj h), hiff, fun _ h => nomatch h⟩
  | ok v =>
    rintro ⟨hordered, hclean⟩
    refine ⟨(fun h => nomatch h), iff_of_false (fun ⟨_, h⟩ => nomatch h) ?_, ?_⟩
    · rintro (h | ⟨e, flaw⟩)
      · exact hcrowded h
      · exact hclean e flaw
    · intro ordered h
      rw [← Except.ok.inj h]
      exact hordered

/-- Two components that share a dependency, one of which requires an interface of the other. -/
def sampleClass : Class where
  mro :=
    let clock : Interface :=
      { name := "clock", version := 1, inputs := [], outputs := [("tick", 7)] }
    let plain : Factory :=
      { implements := some [], handlers := [], outputs := [], nativePorts := none }
    let timer : Factory := { plain with implements := some [clock], outputs := [("tick", 7)] }
    [[("report", .component { identity := 3, factory := plain, dependsOn := ["window", "source"]
                              requires := [clock] }),
      ("window", .component { identity := 2, factory := timer, dependsOn := ["source"]
                              requires := [] })],
     [("title", .other),
      ("source", .component { identity := 1, factory := plain, dependsOn := [], requires := [] })]]

theorem sampleClass_order : ∃ ordered, declarations 65 sampleClass = .ok ordered ∧
    ordered.map Prod.fst = ["source", "window", "report"] ∧ InOrder ordered := by
  have hsorted : (declarations 65 sampleClass).map (List.map Prod.fst) =
      .ok ["source", "window", "report"] := by decide
  cases h : declarations 65 sampleClass with
  | error e => simp [h, Except.map] at hsorted
  | ok ordered =>
    refine ⟨ordered, rfl, by simpa [h, Except.map] using hsorted, ?_⟩
    exact ((declarations_order sampleClass (by decide : 64 < 65)).2.2 ordered h).2

end Python.Components
end Actorplane
