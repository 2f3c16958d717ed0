import NixRedox.BuildClosure
import NixRedox.DepthFirstOrder

set_option autoImplicit false

/- The order in which a call of `build_needed` goes through the derivations, and what has
happened to the inputs of a derivation before its builder runs. -/
namespace NixRedox.LocalBuild

open Relation (TransGen)

/-- One derivation is an input of the other. -/
def Requires (knownPaths : KnownPaths) (drvPath input : StorePath) : Prop :=
  ∃ drv, knownPaths.getDrvByDrvpath drvPath = some drv ∧
    input ∈ drv.inputDerivations.map Prod.fst

/-- No derivation needs itself. -/
def AcyclicInputs (knownPaths : KnownPaths) : Prop :=
  ∀ drvPath, ¬ TransGen (Requires knownPaths) drvPath drvPath

/-- An order in which derivations can be built for a target. -/
structure TopologicalOrder (knownPaths : KnownPaths) (target : StorePath)
    (order : List StorePath) : Prop where
  once : order.Nodup
  needed : ∀ drvPath, drvPath ∈ order ↔ Needed knownPaths target drvPath
  inputsFirst : ∀ front drvPath back, order = front ++ drvPath :: back →
    ∀ input, Requires knownPaths drvPath input → input ∈ front
  targetLast : order.getLast? = some target

section Sorting

variable {knownPaths : KnownPaths} {target : StorePath} {order : List StorePath}

theorem edge_iff {drvPath input : StorePath} :
    DepthFirst.Edge (inputs knownPaths) drvPath input ↔ Requires knownPaths drvPath input := by
  unfold DepthFirst.Edge Requires inputs
  cases knownPaths.getDrvByDrvpath drvPath with
  | none => simp
  | some drv => simp

theorem acyclic_iff : DepthFirst.Acyclic (inputs knownPaths) ↔ AcyclicInputs knownPaths := by
  have same : DepthFirst.Edge (inputs knownPaths) = Requires knownPaths := by
    funext drvPath input
    exact propext edge_iff
  rw [DepthFirst.Acyclic, same]
  rfl

theorem topologicalSort_eq_ok :
    topologicalSort knownPaths target = .ok order ↔ ∃ search,
      DepthFirst.visit (inputs knownPaths) (knownPaths.entries.length + 1) ⟨[], []⟩ target =
        some (.ok search) ∧ search.order = order := by
  unfold topologicalSort
  split
  · rename_i stuck
    simp [stuck]
  · rename_i stopped
    simp [stopped]
  · rename_i search found
    simp [found]

theorem inputs_isSome (drvPath : StorePath) :
    (DepthFirst.edges (inputs knownPaths) drvPath).isSome =
      (knownPaths.getDrvByDrvpath drvPath).isSome := by
  unfold DepthFirst.edges inputs
  cases knownPaths.getDrvByDrvpath drvPath <;> rfl

/-- Sorting succeeds if and only if every derivation that is needed is known. -/
theorem topologicalSort_succeeds_iff :
    (∃ order, topologicalSort knownPaths target = .ok order) ↔
      ∀ drvPath, Needed knownPaths target drvPath →
        (knownPaths.getDrvByDrvpath drvPath).isSome := by
  have whole := DepthFirst.visit_ok_iff (topologicalSort_terminates knownPaths target)
  simp only [topologicalSort_eq_ok, exists_comm (α := List StorePath), exists_eq_right']
  rw [whole]
  constructor
  · intro complete drvPath needed
    rw [← inputs_isSome]
    exact complete drvPath needed
  · intro known drvPath needed
    rw [inputs_isSome]
    exact known drvPath needed

theorem topologicalSort_sorts (acyclic : AcyclicInputs knownPaths)
    (sorted : topologicalSort knownPaths target = .ok order) :
    TopologicalOrder knownPaths target order := by
  obtain ⟨search, found, rfl⟩ := topologicalSort_eq_ok.mp sorted
  have empty : DepthFirst.Sorted (inputs knownPaths) ⟨[], []⟩ :=
    ⟨by simp, List.nodup_nil, by simp [DepthFirst.Ordered]⟩
  obtain ⟨result, _⟩ := DepthFirst.visit_sorted (acyclic_iff.mpr acyclic) _ _ target search found
    empty (by simp [DepthFirst.Waiting])
  refine ⟨result.once, ?_, ?_, DepthFirst.visit_last found⟩
  · intro drvPath
    constructor
    · intro listed
      rcases DepthFirst.visit_lists _ _ target search found drvPath listed with impossible | reached
      · cases impossible
      · exact reached
    · exact DepthFirst.mem_order_of_reach found
  · intro front drvPath back split input requires
    exact result.ordered front drvPath back split input (edge_iff.mpr requires)

end Sorting

section Turns

variable {Content : Type} {hash : StorePathHash}

/-- When it is the turn of a derivation, the others before it in the order have been gone
through, from the world at the start of the call. -/
def TurnOf (tools : Tools Content) (knownPaths : KnownPaths) (call : Call Content)
    (world : World Content hash) (front : List StorePath) (middle : World Content hash) : Prop :=
  ∃ last, buildEach tools knownPaths call.target call.attempts front none
    { world with elsewhere := call.elsewhere } = (middle, .ok last)

/-- At its turn, the outputs of a derivation are found on disk, or its build succeeds. -/
def Settled (tools : Tools Content) (knownPaths : KnownPaths) (call : Call Content)
    (world : World Content hash) (front : List StorePath) (drvPath : StorePath) : Prop :=
  ∃ earlier later middle drv, front = earlier ++ drvPath :: later ∧
    TurnOf tools knownPaths call world earlier middle ∧
    knownPaths.getDrvByDrvpath drvPath = some drv ∧
    (allExist (existsIn tools middle.elsewhere middle.store) drv = true ∨ ∃ after built,
      buildDerivationInner tools knownPaths middle drvPath drv (call.attempts drvPath) =
        (after, .ok built))

/-- A run belongs to the turn of its derivation, and all inputs have been settled before. -/
def InTurn (tools : Tools Content) (knownPaths : KnownPaths) (call : Call Content)
    (world : World Content hash) (order : List StorePath) (run : Run Content) : Prop :=
  ∃ front back middle, order = front ++ run.drvPath :: back ∧
    TurnOf tools knownPaths call world front middle ∧ run.before = middle.store ∧
    knownPaths.getDrvByDrvpath run.drvPath = some run.drv ∧
    ∀ input ∈ run.drv.inputDerivations.map Prod.fst,
      Settled tools knownPaths call world front input

variable {tools : Tools Content} {knownPaths : KnownPaths} {call : Call Content}
  {world after : World Content hash} {target : StorePath} {attempts : StorePath → Attempt Content}

/-- The loop takes one turn and goes on with the rest. -/
theorem buildEach_cons (drvPath : StorePath) (rest : List StorePath) (last : Option BuildResult)
    (world : World Content hash) :
    buildEach tools knownPaths target attempts (drvPath :: rest) last world =
      match buildEach tools knownPaths target attempts [drvPath] last world with
      | (middle, .error reason) => (middle, .error reason)
      | (middle, .ok next) => buildEach tools knownPaths target attempts rest next middle := by
  simp only [buildEach]
  cases knownPaths.getDrvByDrvpath drvPath with
  | none => rfl
  | some drv =>
      dsimp only
      by_cases all : allExist (existsIn tools world.elsewhere world.store) drv = true
      · rw [if_pos all, if_pos all]
        by_cases own : drvPath = target
        · rw [if_pos own, if_pos own]
          rcases buildResultFromExisting tools knownPaths world drvPath drv (attempts drvPath) with
            ⟨middle, reason | result⟩
          · rfl
          · rfl
        · rw [if_neg own, if_neg own]
      · rw [if_neg all, if_neg all]
        rcases buildDerivationInner tools knownPaths world drvPath drv (attempts drvPath) with
          ⟨middle, reason | result⟩
        · rfl
        · rfl

/-- The loop over a list goes on with the rest after its front. -/
theorem buildEach_append (front back : List StorePath) (last : Option BuildResult)
    (world : World Content hash) :
    buildEach tools knownPaths target attempts (front ++ back) last world =
      match buildEach tools knownPaths target attempts front last world with
      | (middle, .error reason) => (middle, .error reason)
      | (middle, .ok next) => buildEach tools knownPaths target attempts back next middle := by
  induction front generalizing last world with
  | nil => rfl
  | cons drvPath rest ih =>
      rw [List.cons_append, buildEach_cons, buildEach_cons drvPath rest]
      rcases buildEach tools knownPaths target attempts [drvPath] last world with
        ⟨middle, reason | next⟩
      · rfl
      · exact ih next middle

/-- A turn that goes on found its outputs on disk, or built them. -/
theorem buildEach_cons_ok {drvPath : StorePath} {rest : List StorePath}
    {last next : Option BuildResult}
    (looped : buildEach tools knownPaths target attempts (drvPath :: rest) last world =
      (after, .ok next)) :
    ∃ drv, knownPaths.getDrvByDrvpath drvPath = some drv ∧
      (allExist (existsIn tools world.elsewhere world.store) drv = true ∨ ∃ middle built,
        buildDerivationInner tools knownPaths world drvPath drv (attempts drvPath) =
          (middle, .ok built)) := by
  unfold buildEach at looped
  split at looped
  · cases looped
  · rename_i drv known
    refine ⟨drv, known, ?_⟩
    split at looped
    · rename_i all
      exact .inl all
    · split at looped
      · cases looped
      · rename_i middle built inner
        exact .inr ⟨middle, built, inner⟩

/-- Everything before a turn has been settled. -/
theorem TurnOf.settled {front : List StorePath} {middle : World Content hash}
    (turn : TurnOf tools knownPaths call world front middle) {drvPath : StorePath}
    (inside : drvPath ∈ front) : Settled tools knownPaths call world front drvPath := by
  obtain ⟨last, looped⟩ := turn
  obtain ⟨earlier, later, rfl⟩ := List.append_of_mem inside
  rw [buildEach_append] at looped
  split at looped
  · cases looped
  · rename_i start next begun
    obtain ⟨drv, known, settled⟩ := buildEach_cons_ok looped
    exact ⟨earlier, later, start, drv, rfl, ⟨next, begun⟩, known, settled⟩

/-- A turn adds at most the run of its derivation. -/
theorem buildEach_turn {drvPath : StorePath} {last : Option BuildResult}
    {ended : Except Stop (Option BuildResult)}
    (looped : buildEach tools knownPaths target attempts [drvPath] last world = (after, ended)) :
    after.history = world.history ∨ ∃ drv, knownPaths.getDrvByDrvpath drvPath = some drv ∧
      after.history = world.history ++
        [{ before := world.store, drvPath, drv, attempt := attempts drvPath }] := by
  unfold buildEach at looped
  split at looped
  · cases looped
    exact .inl rfl
  · rename_i drv known
    split at looped
    · split at looped
      · split at looped
        · rename_i existing
          cases looped
          exact .inl (buildResultFromExisting_same existing).1.history
        · rename_i existing
          cases looped
          exact .inl (buildResultFromExisting_same existing).1.history
      · cases looped
        exact .inl rfl
    · have outcome : ∀ result, buildDerivationInner tools knownPaths world drvPath drv
          (attempts drvPath) = (after, result) → after.history = world.history ∨
          after.history = world.history ++
            [{ before := world.store, drvPath, drv, attempt := attempts drvPath }] := by
        intro result inner
        cases buildDerivationInner_outcome inner with
        | idle same => exact .inl same.history
        | ran run begun store history => exact .inr (begun ▸ history)
      split at looped
      · rename_i inner
        cases looped
        exact (outcome _ inner).imp_right fun history => ⟨drv, known, history⟩
      · rename_i inner
        cases looped
        exact (outcome _ inner).imp_right fun history => ⟨drv, known, history⟩

/-- A run of the loop happens at the turn of its derivation. -/
theorem buildEach_runs {order : List StorePath} {last : Option BuildResult}
    {ended : Except Stop (Option BuildResult)}
    (looped : buildEach tools knownPaths target attempts order last world = (after, ended)) :
    ∃ runs, after.history = world.history ++ runs ∧ ∀ run ∈ runs,
      ∃ front back middle next, order = front ++ run.drvPath :: back ∧
        buildEach tools knownPaths target attempts front last world = (middle, .ok next) ∧
        run.before = middle.store ∧ knownPaths.getDrvByDrvpath run.drvPath = some run.drv := by
  induction order generalizing last world with
  | nil =>
      cases looped
      exact ⟨[], (List.append_nil _).symm, by simp⟩
  | cons drvPath rest ih =>
      rw [buildEach_cons] at looped
      have own : ∀ middle result, buildEach tools knownPaths target attempts [drvPath] last world =
          (middle, result) → ∃ runs, middle.history = world.history ++ runs ∧ ∀ run ∈ runs,
            run.drvPath = drvPath ∧ run.before = world.store ∧
              knownPaths.getDrvByDrvpath run.drvPath = some run.drv := by
        intro middle result turned
        rcases buildEach_turn turned with same | ⟨drv, known, history⟩
        · exact ⟨[], by rw [same, List.append_nil], by simp⟩
        · exact ⟨_, history, by simpa using known⟩
      split at looped
      · rename_i middle reason turned
        cases looped
        obtain ⟨runs, history, single⟩ := own _ _ turned
        refine ⟨runs, history, ?_⟩
        intro run inside
        obtain ⟨same, before, known⟩ := single run inside
        exact ⟨[], rest, world, last, by rw [same, List.nil_append], rfl, before, known⟩
      · rename_i middle next turned
        obtain ⟨runs, history, single⟩ := own _ _ turned
        obtain ⟨more, later, others⟩ := ih looped
        refine ⟨runs ++ more, by rw [later, history, List.append_assoc], ?_⟩
        intro run inside
        rcases List.mem_append.mp inside with early | late
        · obtain ⟨same, before, known⟩ := single run early
          exact ⟨[], rest, world, last, by rw [same, List.nil_append], rfl, before, known⟩
        · obtain ⟨front, back, place, reached, split, begun, before, known⟩ := others run late
          refine ⟨drvPath :: front, back, place, reached, by rw [split]; rfl, ?_, before, known⟩
          rw [buildEach_cons, turned]
          exact begun

/-- Every run of a call is in turn. -/
theorem buildNeeded_runs (acyclic : AcyclicInputs knownPaths) (call : Call Content)
    (world : World Content hash) :
    ∃ runs, (buildNeeded tools knownPaths world call).1.history = world.history ++ runs ∧
      ∀ run ∈ runs, ∃ order, topologicalSort knownPaths call.target = .ok order ∧
        InTurn tools knownPaths call world order run := by
  cases sorted : topologicalSort knownPaths call.target with
  | error reason =>
      refine ⟨[], ?_, by simp⟩
      rw [buildNeeded, sorted, List.append_nil]
  | ok order =>
      rcases looped : buildEach tools knownPaths call.target call.attempts order none
          { world with elsewhere := call.elsewhere } with ⟨after, ended⟩
      have history : (buildNeeded tools knownPaths world call).1.history = after.history := by
        rw [buildNeeded, sorted]
        dsimp only
        rw [looped]
        rcases ended with reason | result | result
        · rfl
        · rfl
        · rfl
      obtain ⟨runs, grown, turns⟩ := buildEach_runs looped
      refine ⟨runs, history.trans grown, ?_⟩
      intro run inside
      obtain ⟨front, back, middle, next, split, begun, before, known⟩ := turns run inside
      have turn : TurnOf tools knownPaths call world front middle := ⟨next, begun⟩
      refine ⟨order, rfl, front, back, middle, split, turn, before, known, ?_⟩
      intro input member
      have first := (topologicalSort_sorts acyclic sorted).inputsFirst front run.drvPath back split
        input ⟨run.drv, known, member⟩
      exact turn.settled first

/-- Without cycles, sorting succeeds exactly when everything that is needed is known, its result
is a topological order, and a builder runs only when all inputs of its derivation have been
settled in the same call. -/
theorem topologicalSort_topological (acyclic : AcyclicInputs knownPaths) (target : StorePath) :
    ((∃ order, topologicalSort knownPaths target = .ok order) ↔
      ∀ drvPath, Needed knownPaths target drvPath →
        (knownPaths.getDrvByDrvpath drvPath).isSome) ∧
    (∀ order, topologicalSort knownPaths target = .ok order →
      TopologicalOrder knownPaths target order) ∧
    ∀ (tools : Tools Content) (elsewhere : Elsewhere Content)
      (attempts : StorePath → Attempt Content) (world : World Content hash),
      ∃ runs, (buildNeeded tools knownPaths world ⟨target, elsewhere, attempts⟩).1.history =
          world.history ++ runs ∧
        ∀ run ∈ runs, ∃ order, topologicalSort knownPaths target = .ok order ∧
          InTurn tools knownPaths ⟨target, elsewhere, attempts⟩ world order run :=
  ⟨topologicalSort_succeeds_iff, fun _ sorted => topologicalSort_sorts acyclic sorted,
    fun _ elsewhere attempts world =>
      buildNeeded_runs acyclic ⟨target, elsewhere, attempts⟩ world⟩

end Turns

theorem wrapperKnown_requires {drvPath input : StorePath}
    (requires : Requires wrapperKnown drvPath input) : drvPath = wrapperDrv ∧ input = helloDrv := by
  obtain ⟨drv, known, member⟩ := requires
  rcases wrapperKnown_cases known with ⟨rfl, rfl⟩ | ⟨rfl, rfl⟩
  · exact ⟨rfl, List.mem_singleton.mp member⟩
  · cases member

theorem wrapperKnown_acyclic : AcyclicInputs wrapperKnown := by
  intro drvPath circle
  obtain ⟨next, first, _⟩ := (Relation.TransGen.head'_iff).mp circle
  obtain ⟨before, _, last⟩ := (Relation.TransGen.tail'_iff).mp circle
  have parent := (wrapperKnown_requires first).1
  have child := (wrapperKnown_requires last).2
  exact absurd (parent.symm.trans child) (by decide)

/-- A derivation with one input comes behind it. -/
theorem wrapperKnown_sorted :
    TopologicalOrder wrapperKnown wrapperDrv [helloDrv, wrapperDrv] := by
  have sorted : topologicalSort wrapperKnown wrapperDrv = .ok [helloDrv, wrapperDrv] := by
    decide
  exact (@topologicalSort_topological (List UInt8) literalHash wrapperKnown wrapperKnown_acyclic
    wrapperDrv).2.1 _ sorted

end NixRedox.LocalBuild
