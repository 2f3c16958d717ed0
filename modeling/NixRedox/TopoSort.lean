import NixRedox.Kahn
import NixRedox.Rebuild

set_option autoImplicit false

/- The order in which activation scripts run: `topo_sort` of `activate.rs`. -/
namespace NixRedox.Activate

open Kahn (Graph)
open Rebuild (ActivationScript)
open Relation (TransGen)

/-- Iteration over a hash map, in an order of its own. -/
structure HashOrder where
  order : List String → List String
  perm : ∀ keys, (order keys).Perm keys

abbrev InDegrees := AList fun _ : String => Nat
abbrev Dependents := AList fun _ : String => List String

/-- `*in_degree.entry(name).or_insert(0) += 1`, and the name pushed for the dependency. -/
def addDep (name : String) (maps : InDegrees × Dependents) (dep : String) :
    InDegrees × Dependents :=
  (maps.1.insert name ((maps.1.lookup name).getD 0 + 1),
    maps.2.insert dep ((maps.2.lookup dep).getD [] ++ [name]))

def addScript (maps : InDegrees × Dependents) (script : ActivationScript) :
    InDegrees × Dependents :=
  let inDegree := maps.1.insert script.name ((maps.1.lookup script.name).getD 0)
  script.deps.foldl (addDep script.name) (inDegree, maps.2)

def buildMaps (scripts : List ActivationScript) : InDegrees × Dependents :=
  scripts.foldl addScript (∅, ∅)

/-- `deg -= 1` on a `usize`. -/
def lower (deg : Nat) : Nat := if deg = 0 then 2 ^ 64 - 1 else deg - 1

/-- One turn of the inner loop; `none` where `unwrap` panics. -/
def settle (state : InDegrees × List String) (dep : String) :
    Option (InDegrees × List String) :=
  (state.1.lookup dep).map fun deg =>
    (state.1.insert dep (lower deg), if lower deg = 0 then state.2 ++ [dep] else state.2)

/-- The main loop. Every turn emits a name, and the fuel bounds the turns. -/
def emitAll (dependents : Dependents) :
    Nat → InDegrees → List String → List String → Option (InDegrees × List String)
  | _, inDegree, [], result => some (inDegree, result)
  | 0, _, _ :: _, _ => none
  | fuel + 1, inDegree, name :: queue, result =>
      match dependents.lookup name with
      | none => emitAll dependents fuel inDegree queue (result ++ [name])
      | some deps =>
          match deps.foldlM settle (inDegree, []) with
          | none => none
          | some (inDegree, next) =>
              emitAll dependents fuel inDegree (queue ++ next.insertionSort (· ≤ ·))
                (result ++ [name])

/-- A dependency that is no script, with the script that has it. -/
def unknownDep (scripts : List ActivationScript) : Option (ActivationScript × String) :=
  scripts.findSome? fun script =>
    (script.deps.find? (· ∉ scripts.map (·.name))).map fun dep => (script, dep)

/-- The names in an order, or why there is none. -/
def topoSort (hash : HashOrder) (scripts : List ActivationScript) :
    Option (Except String (List String)) :=
  if scripts = [] then
    some (.ok [])
  else
    match unknownDep scripts with
    | some (script, dep) => some (.error
        ("script '" ++ script.name ++ "' depends on unknown script '" ++ dep ++ "'"))
    | none =>
        let (inDegree, dependents) := buildMaps scripts
        let zeroDeg := (hash.order inDegree.keys).filter (inDegree.lookup · = some 0)
        match emitAll dependents scripts.length inDegree (zeroDeg.insertionSort (· ≤ ·)) [] with
        | none => none
        | some (inDegree, result) =>
            if result.length ≠ scripts.length then
              let inCycle := (hash.order inDegree.keys).filter
                fun name => 0 < (inDegree.lookup name).getD 0
              some (.error ("dependency cycle among activation scripts: " ++
                String.intercalate ", " inCycle))
            else
              some (.ok result)

/-- The dependencies of the scripts of a name. -/
def depsOf (scripts : List ActivationScript) (name : String) : List String :=
  (scripts.filter (·.name = name)).flatMap (·.deps)

theorem depsOf_cons (script : ActivationScript) (scripts : List ActivationScript)
    (name : String) :
    depsOf (script :: scripts) name =
      (if script.name = name then script.deps else []) ++ depsOf scripts name := by
  unfold depsOf
  rw [List.filter_cons]
  by_cases same : script.name = name
  · simp [same]
  · simp [same]

theorem depsOf_unknown {scripts : List ActivationScript} {name : String}
    (unknown : name ∉ scripts.map (·.name)) : depsOf scripts name = [] := by
  have none_ : scripts.filter (·.name = name) = [] := by
    rw [List.filter_eq_nil_iff]
    intro script member
    rw [decide_eq_true_eq]
    rintro rfl
    exact unknown (List.mem_map_of_mem member)
  rw [depsOf, none_, List.flatMap_nil]

section Maps

variable {maps : InDegrees × Dependents} {name other : String}

theorem foldl_addDep_inDegree (deps : List String) {deg : Nat}
    (present : maps.1.lookup name = some deg) :
    (deps.foldl (addDep name) maps).1.lookup other =
      if other = name then some (deg + deps.length) else maps.1.lookup other := by
  induction deps generalizing maps deg with
  | nil =>
      by_cases same : other = name
      · rw [if_pos same, same]
        exact present
      · rw [if_neg same]
        rfl
  | cons dep rest ih =>
      have grown : (addDep name maps dep).1.lookup name = some (deg + 1) := by
        show (maps.1.insert name _).lookup name = _
        rw [AList.lookup_insert, present, Option.getD_some]
      rw [List.foldl_cons, ih grown]
      by_cases same : other = name
      · rw [if_pos same, if_pos same, List.length_cons]
        congr 1
        omega
      · rw [if_neg same, if_neg same]
        exact AList.lookup_insert_ne same

theorem foldl_addDep_dependents (deps : List String) :
    ((deps.foldl (addDep name) maps).2.lookup other).getD [] =
      (maps.2.lookup other).getD [] ++ List.replicate (deps.count other) name := by
  induction deps generalizing maps with
  | nil => simp
  | cons dep rest ih =>
      rw [List.foldl_cons, ih]
      show ((maps.2.insert dep _).lookup other).getD [] ++ _ = _
      by_cases same : other = dep
      · subst same
        rw [AList.lookup_insert, Option.getD_some, List.append_assoc, List.count_cons_self,
          List.replicate_succ, List.singleton_append]
      · rw [AList.lookup_insert_ne same, List.count_cons_of_ne (Ne.symm same)]

theorem addScript_inDegree (script : ActivationScript) :
    (addScript maps script).1.lookup other =
      if other = script.name then some ((maps.1.lookup other).getD 0 + script.deps.length)
      else maps.1.lookup other := by
  have entered : (maps.1.insert script.name ((maps.1.lookup script.name).getD 0)).lookup
      script.name = some ((maps.1.lookup script.name).getD 0) := AList.lookup_insert _
  unfold addScript
  rw [foldl_addDep_inDegree script.deps entered]
  by_cases same : other = script.name
  · rw [if_pos same, if_pos same, same]
  · rw [if_neg same, if_neg same]
    exact AList.lookup_insert_ne same

/-- The count of a name's dependencies, each time it is listed. -/
theorem foldl_addScript_inDegree (scripts : List ActivationScript) :
    (scripts.foldl addScript maps).1.lookup other =
      if other ∈ scripts.map (·.name) then
        some ((maps.1.lookup other).getD 0 + (depsOf scripts other).length)
      else maps.1.lookup other := by
  induction scripts generalizing maps with
  | nil => rfl
  | cons script rest ih =>
      rw [List.foldl_cons, ih, addScript_inDegree, depsOf_cons, List.map_cons]
      by_cases same : other = script.name
      · subst same
        by_cases again : script.name ∈ rest.map (·.name)
        · simp [again, Nat.add_assoc]
        · simp [again, depsOf_unknown again]
      · have differs : script.name ≠ other := Ne.symm same
        simp [same, differs]

/-- How often a name stands among those that depend on another. -/
theorem foldl_addScript_dependents (scripts : List ActivationScript) :
    (((scripts.foldl addScript maps).2.lookup other).getD []).count name =
      ((maps.2.lookup other).getD []).count name + (depsOf scripts name).count other := by
  induction scripts generalizing maps with
  | nil => simp [depsOf]
  | cons script rest ih =>
      have own : ((addScript maps script).2.lookup other).getD [] =
          (maps.2.lookup other).getD [] ++
            List.replicate (script.deps.count other) script.name :=
        foldl_addDep_dependents script.deps
      rw [List.foldl_cons, ih, own, depsOf_cons, List.count_append, List.count_append,
        List.count_replicate]
      by_cases same : script.name = name
      · simp [same, Nat.add_assoc]
      · simp [same]

end Maps

/-- The inner loop takes off each counter as often as its name is listed, and collects the
names it has brought to zero. -/
theorem foldlM_settle {inDegree : InDegrees} {names : List String} (next : List String)
    (enough : ∀ name ∈ names, ∃ deg, inDegree.lookup name = some deg ∧ names.count name ≤ deg) :
    ∃ after freed, names.foldlM settle (inDegree, next) = some (after, next ++ freed) ∧
      (∀ name, after.lookup name =
        (inDegree.lookup name).map fun deg => deg - names.count name) ∧
      freed.Nodup ∧
      ∀ name, name ∈ freed ↔
        name ∈ names ∧ inDegree.lookup name = some (names.count name) := by
  induction names generalizing inDegree next with
  | nil =>
      refine ⟨inDegree, [], by simp, ?_, List.nodup_nil, by simp⟩
      intro name
      simp
  | cons head rest ih =>
      obtain ⟨deg, present, room⟩ := enough head List.mem_cons_self
      rw [List.count_cons_self] at room
      have lowered : lower deg = deg - 1 := if_neg (by omega)
      have later : ∀ name, (inDegree.insert head (deg - 1)).lookup name =
          if name = head then some (deg - 1) else inDegree.lookup name := by
        intro name
        by_cases same : name = head
        · rw [if_pos same, same, AList.lookup_insert]
        · rw [if_neg same, AList.lookup_insert_ne same]
      have remaining : ∀ name ∈ rest, ∃ deg',
          (inDegree.insert head (deg - 1)).lookup name = some deg' ∧ rest.count name ≤ deg' := by
        intro name member
        rw [later]
        by_cases same : name = head
        · exact ⟨deg - 1, if_pos same, by rw [same]; omega⟩
        · obtain ⟨own, found, fits⟩ := enough name (List.mem_cons_of_mem head member)
          rw [List.count_cons_of_ne (Ne.symm same)] at fits
          exact ⟨own, by rw [if_neg same, found], fits⟩
      obtain ⟨after, freed, ran, counters, distinct, zero⟩ :=
        ih (if deg - 1 = 0 then next ++ [head] else next) remaining
      have turn : (head :: rest).foldlM settle (inDegree, next) = some (after,
          (if deg - 1 = 0 then next ++ [head] else next) ++ freed) := by
        rw [List.foldlM_cons, settle, present]
        simp only [Option.map_some, lowered]
        exact ran
      have headFreed : head ∈ freed ↔ head ∈ rest ∧ deg - 1 = rest.count head := by
        rw [zero, later, if_pos rfl, Option.some.injEq]
      have otherFreed : ∀ name, name ≠ head → (name ∈ freed ↔
          name ∈ head :: rest ∧ inDegree.lookup name = some ((head :: rest).count name)) := by
        intro name differs
        rw [zero, later, if_neg differs, List.count_cons_of_ne (Ne.symm differs)]
        simp [differs]
      have counted : ∀ name, after.lookup name =
          (inDegree.lookup name).map fun deg => deg - (head :: rest).count name := by
        intro name
        rw [counters, later]
        by_cases same : name = head
        · rw [if_pos same, same, present, Option.map_some, Option.map_some, List.count_cons_self,
            Nat.sub_sub, Nat.add_comm]
        · rw [if_neg same, List.count_cons_of_ne (Ne.symm same)]
      by_cases last : deg - 1 = 0
      · -- the head is not listed again, so it is not freed twice
        have gone : head ∉ rest := List.count_eq_zero.mp (by omega)
        have fresh : head ∉ freed := fun member => gone (headFreed.mp member).1
        rw [if_pos last, List.append_assoc] at turn
        refine ⟨after, head :: freed, turn, counted, List.nodup_cons.mpr ⟨fresh, distinct⟩, ?_⟩
        intro name
        by_cases same : name = head
        · subst same
          rw [List.count_cons_self, present]
          simp
          omega
        · rw [List.mem_cons, otherFreed name same]
          simp [same]
      · rw [if_neg last] at turn
        refine ⟨after, freed, turn, counted, distinct, ?_⟩
        intro name
        by_cases same : name = head
        · subst same
          rw [headFreed, List.count_cons_self, present, Option.some.injEq]
          constructor
          · intro ⟨_, equal⟩
            exact ⟨List.mem_cons_self, by omega⟩
          · intro ⟨_, equal⟩
            refine ⟨List.count_pos_iff.mp (by omega), by omega⟩
        · exact otherFreed name same

/-- Every dependency is the name of a script. -/
def Known (scripts : List ActivationScript) : Prop :=
  ∀ script ∈ scripts, ∀ dep ∈ script.deps, dep ∈ scripts.map (·.name)

/-- The scripts as a graph of names. -/
def scriptGraph (scripts : List ActivationScript) (distinct : (scripts.map (·.name)).Nodup)
    (known : Known scripts) : Graph String where
  nodes := scripts.map (·.name)
  deps := depsOf scripts
  distinct := distinct
  closed := by
    intro name _ dep member
    obtain ⟨script, own, listed⟩ := List.mem_flatMap.mp member
    exact known script (List.mem_filter.mp own).1 dep listed

/-- The counters hold what is outstanding of each node. -/
def Counts (graph : Graph String) (inDegree : InDegrees) (emitted : List String) : Prop :=
  ∀ node ∈ graph.nodes, inDegree.lookup node = some (graph.outstanding emitted node)

/-- Each node stands under its dependencies as often as it lists them. -/
def Lists (graph : Graph String) (dependents : Dependents) : Prop :=
  ∀ name node, ((dependents.lookup name).getD []).count node = (graph.deps node).count name

section Run

variable {graph : Graph String} {dependents : Dependents} {inDegree : InDegrees}
  {emitted queue : List String} {name : String}

/-- One turn of the main loop emits a name and queues what it has freed. -/
theorem emit_step (inv : graph.Invariant emitted (name :: queue))
    (counts : Counts graph inDegree emitted) (lists : Lists graph dependents)
    (inside : ∀ node, (graph.deps node) ≠ [] → node ∈ graph.nodes) :
    ∃ after freed,
      ((dependents.lookup name).getD []).foldlM settle (inDegree, []) = some (after, freed) ∧
      Counts graph after (emitted ++ [name]) ∧
      graph.Invariant (emitted ++ [name]) (queue ++ freed.insertionSort (· ≤ ·)) := by
  have fresh : name ∉ emitted := by
    have apart := (List.nodup_append.mp inv.distinct).2.2
    intro member
    exact apart name member name List.mem_cons_self rfl
  have listed : ∀ node, node ∈ (dependents.lookup name).getD [] ↔ name ∈ graph.deps node := by
    intro node
    rw [← List.count_pos_iff, lists, List.count_pos_iff]
  have own : ∀ node, node ∈ (dependents.lookup name).getD [] → node ∈ graph.nodes := by
    intro node member
    exact inside node (List.ne_nil_of_mem ((listed node).mp member))
  have emits : ∀ node, graph.outstanding emitted node =
      graph.outstanding (emitted ++ [name]) node + (graph.deps node).count name :=
    fun _ => Kahn.Graph.outstanding_emit fresh
  have enough : ∀ node ∈ (dependents.lookup name).getD [],
      ∃ deg, inDegree.lookup node = some deg ∧
        ((dependents.lookup name).getD []).count node ≤ deg := by
    intro node member
    refine ⟨_, counts node (own node member), ?_⟩
    rw [lists, emits]
    exact Nat.le_add_left _ _
  obtain ⟨after, freed, ran, counters, distinct, zero⟩ := foldlM_settle [] enough
  refine ⟨after, freed, ran, ?_, inv.step ?_ ?_⟩
  · intro node member
    rw [counters, counts node member, Option.map_some, lists, emits, Nat.add_sub_cancel]
  · exact (List.perm_insertionSort _ freed).nodup_iff.mpr distinct
  · intro node
    rw [List.mem_insertionSort, zero, listed]
    constructor
    · intro ⟨member, found⟩
      have node_ : node ∈ graph.nodes := inside node (List.ne_nil_of_mem member)
      have positive := List.count_pos_iff.mpr member
      rw [counts node node_, Option.some.injEq, lists] at found
      have settled := emits node
      exact ⟨node_, by omega, by omega⟩
    · intro ⟨member, before, settled⟩
      have split := emits node
      rw [settled, Nat.zero_add] at split
      refine ⟨List.count_pos_iff.mp (by omega), ?_⟩
      rw [counts node member, split, lists]

/-- With a turn for every node the queue runs empty. -/
theorem emitAll_spec (lists : Lists graph dependents)
    (inside : ∀ node, (graph.deps node) ≠ [] → node ∈ graph.nodes) (fuel : Nat)
    (inv : graph.Invariant emitted queue) (counts : Counts graph inDegree emitted)
    (enough : graph.nodes.length ≤ fuel + emitted.length) :
    ∃ after result, emitAll dependents fuel inDegree queue emitted = some (after, result) ∧
      graph.Invariant result [] := by
  induction fuel generalizing inDegree emitted queue with
  | zero =>
      cases queue with
      | nil => exact ⟨inDegree, emitted, by rw [emitAll], inv⟩
      | cons name queue =>
          have full := inv.length_le
          rw [List.length_cons] at full
          omega
  | succ fuel ih =>
      cases queue with
      | nil => exact ⟨inDegree, emitted, by rw [emitAll], inv⟩
      | cons name queue =>
          obtain ⟨after, freed, ran, counted, next⟩ := emit_step inv counts lists inside
          have room : graph.nodes.length ≤ fuel + (emitted ++ [name]).length := by
            rw [List.length_append, List.length_singleton]
            omega
          obtain ⟨last, result, rest, done⟩ := ih next counted room
          refine ⟨last, result, ?_, done⟩
          rw [emitAll]
          cases found : dependents.lookup name with
          | none =>
              rw [found] at ran
              cases ran
              rw [List.insertionSort_nil, List.append_nil] at rest
              exact rest
          | some deps =>
              rw [found, Option.getD_some] at ran
              simp only [ran]
              exact rest

end Run

section Scripts

variable {scripts : List ActivationScript}

/-- A script of the first name lists the second as a dependency. -/
def DependsOn (scripts : List ActivationScript) (name dep : String) : Prop :=
  ∃ script ∈ scripts, script.name = name ∧ dep ∈ script.deps

theorem mem_depsOf {name dep : String} : dep ∈ depsOf scripts name ↔ DependsOn scripts name dep := by
  simp [depsOf, DependsOn, and_assoc]

theorem depsOf_inside (name : String) (some_ : depsOf scripts name ≠ []) :
    name ∈ scripts.map (·.name) := by
  by_contra unknown
  exact some_ (depsOf_unknown unknown)

theorem unknownDep_none : unknownDep scripts = none ↔ Known scripts := by
  simp [unknownDep, Known, List.findSome?_eq_none_iff]

theorem buildMaps_inDegree (name : String) :
    (buildMaps scripts).1.lookup name =
      if name ∈ scripts.map (·.name) then some (depsOf scripts name).length else none := by
  rw [buildMaps, foldl_addScript_inDegree]
  simp

theorem buildMaps_dependents (name node : String) :
    (((buildMaps scripts).2.lookup name).getD []).count node =
      (depsOf scripts node).count name := by
  rw [buildMaps, foldl_addScript_dependents]
  simp

/-- The seeds are the scripts without dependencies, whatever the order of the map. -/
theorem seeds_ready (hash : HashOrder) (distinct : (scripts.map (·.name)).Nodup)
    (known : Known scripts) :
    (scriptGraph scripts distinct known).Invariant []
      (((hash.order (buildMaps scripts).1.keys).filter
        ((buildMaps scripts).1.lookup · = some 0)).insertionSort (· ≤ ·)) := by
  have keys := hash.perm (buildMaps scripts).1.keys
  apply Kahn.Graph.Invariant.start
  · apply (List.perm_insertionSort _ _).nodup_iff.mpr
    exact (keys.nodup_iff.mpr (AList.keys_nodup _)).filter _
  · intro name
    rw [List.mem_insertionSort, List.mem_filter, keys.mem_iff, AList.mem_keys.symm,
      ← AList.lookup_isSome, buildMaps_inDegree, Kahn.Graph.outstanding_nil]
    show _ ↔ name ∈ scripts.map (·.name) ∧ (depsOf scripts name).length = 0
    by_cases member : name ∈ scripts.map (·.name)
    · simp [member]
    · simp [member]

/-- Where every dependency is a script, the main loop comes to its end. -/
theorem topoSort_known (hash : HashOrder) (distinct : (scripts.map (·.name)).Nodup)
    (known : Known scripts) :
    ∃ result, (scriptGraph scripts distinct known).Invariant result [] ∧
      ((result.length = scripts.length ∧ topoSort hash scripts = some (.ok result)) ∨
        (result.length ≠ scripts.length ∧
          ∃ reason, topoSort hash scripts = some (.error reason))) := by
  by_cases empty : scripts = []
  · subst empty
    refine ⟨[], Kahn.Graph.Invariant.start List.nodup_nil ?_, .inl ⟨rfl, rfl⟩⟩
    intro name
    simp [scriptGraph]
  · have counts : Counts (scriptGraph scripts distinct known) (buildMaps scripts).1 [] := by
      intro name member
      have own : name ∈ scripts.map (·.name) := member
      rw [buildMaps_inDegree, if_pos own, Kahn.Graph.outstanding_nil]
      rfl
    have enough : (scriptGraph scripts distinct known).nodes.length ≤
        scripts.length + ([] : List String).length := by
      simp [scriptGraph]
    have lists : Lists (scriptGraph scripts distinct known) (buildMaps scripts).2 :=
      buildMaps_dependents
    obtain ⟨after, result, ran, done⟩ := emitAll_spec lists depsOf_inside
      scripts.length (seeds_ready hash distinct known) counts enough
    refine ⟨result, done, ?_⟩
    simp only [topoSort, if_neg empty, unknownDep_none.mpr known, ran]
    by_cases whole : result.length = scripts.length
    · exact .inl ⟨whole, if_neg (not_not.mpr whole)⟩
    · exact .inr ⟨whole, _, if_pos whole⟩

theorem scriptGraph_acyclic (distinct : (scripts.map (·.name)).Nodup) (known : Known scripts) :
    (scriptGraph scripts distinct known).Acyclic ↔
      ∀ name, ¬ TransGen (DependsOn scripts) name name := by
  have same : (scriptGraph scripts distinct known).DependsOn = DependsOn scripts := by
    funext name dep
    exact propext mem_depsOf
  unfold Kahn.Graph.Acyclic
  rw [same]
  constructor
  · intro acyclic name cycle
    obtain ⟨dep, direct, _⟩ := TransGen.head'_iff.mp cycle
    exact acyclic name (depsOf_inside name (List.ne_nil_of_mem (mem_depsOf.mpr direct))) cycle
  · intro acyclic name _
    exact acyclic name

/-- `topo_sort` finds an order exactly if every dependency is a script and none depends on
itself, however indirectly; and then each script comes after its dependencies. -/
theorem topoSort_spec (hash : HashOrder) (distinct : (scripts.map (·.name)).Nodup) :
    (∃ result, topoSort hash scripts = some result) ∧
    ((∃ order, topoSort hash scripts = some (.ok order)) ↔
      Known scripts ∧ ∀ name, ¬ TransGen (DependsOn scripts) name name) ∧
    ∀ order, topoSort hash scripts = some (.ok order) →
      order.Perm (scripts.map (·.name)) ∧
      ∀ script ∈ scripts, ∃ front back, order = front ++ script.name :: back ∧
        ∀ dep ∈ script.deps, dep ∈ front := by
  by_cases known : Known scripts
  · obtain ⟨result, done, ran⟩ := topoSort_known hash distinct known
    have size : (scriptGraph scripts distinct known).nodes.length = scripts.length :=
      List.length_map _
    have found : ∀ order, topoSort hash scripts = some (.ok order) →
        result.length = scripts.length ∧ order = result := by
      intro order sorted
      rcases ran with ⟨whole, own⟩ | ⟨_, reason, stuck⟩
      · rw [own] at sorted
        cases sorted
        exact ⟨whole, rfl⟩
      · rw [stuck] at sorted
        cases sorted
    refine ⟨?_, ⟨?_, ?_⟩, ?_⟩
    · rcases ran with ⟨_, own⟩ | ⟨_, reason, stuck⟩
      · exact ⟨_, own⟩
      · exact ⟨_, stuck⟩
    · intro ⟨order, sorted⟩
      have perm := done.perm ((found order sorted).1.trans size.symm)
      refine ⟨known, (scriptGraph_acyclic distinct known).mp ?_⟩
      apply done.ordered.acyclic (perm.nodup_iff.mpr distinct)
      intro name member
      exact perm.mem_iff.mpr member
    · intro ⟨_, acyclic⟩
      have all := done.whole_of_acyclic ((scriptGraph_acyclic distinct known).mpr acyclic)
      have most := done.length_le
      rw [List.length_nil, Nat.add_zero, size] at most
      have least : scripts.length ≤ result.length := by
        rw [← size]
        exact (List.subperm_of_subset distinct all).length_le
      rcases ran with ⟨_, own⟩ | ⟨short, _⟩
      · exact ⟨result, own⟩
      · exact absurd (Nat.le_antisymm most least) short
    · intro order sorted
      obtain ⟨whole, rfl⟩ := found order sorted
      have perm := done.perm (whole.trans size.symm)
      refine ⟨perm, ?_⟩
      intro script member
      obtain ⟨front, back, split⟩ :=
        List.append_of_mem (perm.mem_iff.mpr (List.mem_map_of_mem member))
      refine ⟨front, back, split, ?_⟩
      intro dep listed
      exact done.ordered front script.name back split dep
        (mem_depsOf.mpr ⟨script, member, rfl, listed⟩)
  · cases unknown : unknownDep scripts with
    | none => exact absurd (unknownDep_none.mp unknown) known
    | some pair =>
        have some_ : scripts ≠ [] := by
          rintro rfl
          cases unknown
        have refused : ∃ reason, topoSort hash scripts = some (.error reason) := by
          simp only [topoSort, if_neg some_, unknown]
          exact ⟨_, rfl⟩
        obtain ⟨reason, ran⟩ := refused
        simp [ran, known]

end Scripts

def keyOrder : HashOrder := ⟨id, fun _ => .rfl⟩

/-- The last script lists one of its dependencies twice. -/
def diamond : List ActivationScript :=
  [⟨"d", ["c", "b", "c"]⟩, ⟨"b", ["a"]⟩, ⟨"c", ["a"]⟩, ⟨"a", []⟩]

theorem diamond_sorted :
    topoSort keyOrder diamond = some (.ok ["a", "b", "c", "d"]) ∧
      ["a", "b", "c", "d"].Perm (diamond.map (·.name)) := by
  have sorted : topoSort keyOrder diamond = some (.ok ["a", "b", "c", "d"]) := by decide +kernel
  have distinct : (diamond.map (·.name)).Nodup := by decide
  exact ⟨sorted, ((topoSort_spec keyOrder distinct).2.2 _ sorted).1⟩

end NixRedox.Activate
