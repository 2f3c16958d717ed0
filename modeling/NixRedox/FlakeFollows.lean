import NixRedox.TailCalls

set_option autoImplicit false

/- Input references of `flake.lock` and how `resolve_follows` resolves the ones that are
paths themselves. -/
namespace NixRedox.Flake

open TailCalls (Returns Passes Circular)

inductive InputRef where
  | direct (target : String)
  | follows (chain : List String)
  deriving DecidableEq

abbrev Inputs := AList fun _ : String => InputRef

/-- What is used of a node here. -/
structure LockNode where
  inputs : Option Inputs

structure FlakeLock where
  version : UInt32
  root : String
  nodes : AList fun _ : String => LockNode

section Code

variable (lock : FlakeLock)

/-- What `parse_flake_lock` makes of a lock that has been read. -/
def parseFlakeLock : Except String FlakeLock :=
  if lock.version ≠ 7 then
    .error ("unsupported flake.lock version " ++ toString lock.version ++ " (expected 7)")
  else
    .ok lock

/-- The loop of `resolve_follows`: it goes on from node to node, and ends with a node, an
error or another path. -/
def followSteps : String → List String → List String ⊕ Except String String
  | current, [] => .inr (.ok current)
  | current, step :: rest =>
      match lock.nodes.lookup current with
      | none => .inr (.error ("follows: node '" ++ current ++ "' not found"))
      | some node =>
          match node.inputs with
          | none => .inr (.error ("follows: node '" ++ current ++ "' has no inputs"))
          | some inputs =>
              match inputs.lookup step with
              | some (.direct target) => followSteps target rest
              | some (.follows chain) => .inl chain
              | none =>
                  .inr (.error
                    ("follows: input '" ++ step ++ "' not found in node '" ++ current ++ "'"))

/-- One call of `resolve_follows`. -/
def followCall : List String → List String ⊕ Except String String
  | [] => .inr (.error "empty follows chain")
  | first :: steps => followSteps lock first steps

/-- `resolve_follows`, with so many nested calls at most. -/
def resolveFollows : Nat → List String → Option (Except String String) :=
  TailCalls.run (followCall lock)

/-- The loop of `get_root_inputs` over the inputs in some order. -/
def resolveInputs (fuel : Nat) :
    List ((_ : String) × InputRef) → (AList fun _ : String => String) →
      Option (Except String (AList fun _ : String => String))
  | [], resolved => some (.ok resolved)
  | ⟨name, .direct target⟩ :: rest, resolved =>
      resolveInputs fuel rest (resolved.insert name target)
  | ⟨name, .follows chain⟩ :: rest, resolved =>
      match resolveFollows lock fuel chain with
      | none => none
      | some (.error reason) => some (.error reason)
      | some (.ok node) => resolveInputs fuel rest (resolved.insert name node)

/-- `get_root_inputs`. The order in which a `HashMap` is gone through is not specified. -/
def getRootInputs (order : Inputs → List ((_ : String) × InputRef)) (fuel : Nat) :
    Option (Except String (AList fun _ : String => String)) :=
  match lock.nodes.lookup lock.root with
  | none => some (.error "flake.lock: root node not found")
  | some root =>
      match root.inputs with
      | none => some (.ok ∅)
      | some inputs => resolveInputs lock fuel (order inputs) ∅

end Code

section Walks

variable (lock : FlakeLock)

/-- What a node has under the name of an input. -/
def inputOf (node step : String) : Option InputRef :=
  (lock.nodes.lookup node).bind fun found => found.inputs.bind fun inputs => inputs.lookup step

/-- The node has no such input, or an empty path there. -/
def Lacks (node step : String) : Prop :=
  inputOf lock node step = none ∨ inputOf lock node step = some (.follows [])

/-- A walk from a node through inputs, to a node or to a step that is missing. An input that
is a path stands for the node the path leads to. -/
inductive Walks : String → List String → Option String → Prop
  | arrived (node : String) : Walks node [] (some node)
  | missing {node step : String} {rest : List String} (lacks : Lacks lock node step) :
      Walks node (step :: rest) none
  | direct {node step target : String} {rest : List String} {last : Option String}
      (found : inputOf lock node step = some (.direct target)) (later : Walks target rest last) :
      Walks node (step :: rest) last
  | followsMissing {node step first : String} {steps rest : List String}
      (found : inputOf lock node step = some (.follows (first :: steps)))
      (inner : Walks first steps none) : Walks node (step :: rest) none
  | follows {node step first middle : String} {steps rest : List String} {last : Option String}
      (found : inputOf lock node step = some (.follows (first :: steps)))
      (inner : Walks first steps (some middle)) (later : Walks middle rest last) :
      Walks node (step :: rest) last

/-- Every input reference can be resolved, or something is missing on its way. -/
def Founded : Prop := ∀ node step, ∃ last, Walks lock node [step] last

/-- The way of a path where each input that is a path takes its place: to a node, or to a
step that is missing, and the steps that are left over then. -/
inductive Sent : String → List String → Option String → List String → Prop
  | arrived (node : String) : Sent node [] (some node) []
  | missing {node step : String} {rest : List String} (lacks : Lacks lock node step) :
      Sent node (step :: rest) none []
  | direct {node step target : String} {rest dropped : List String} {last : Option String}
      (found : inputOf lock node step = some (.direct target))
      (later : Sent target rest last dropped) : Sent node (step :: rest) last dropped
  | follows {node step first : String} {steps rest dropped : List String} {last : Option String}
      (found : inputOf lock node step = some (.follows (first :: steps)))
      (inner : Sent first steps last dropped) : Sent node (step :: rest) last (dropped ++ rest)

/-- A result is the end of a walk. -/
def Agrees (result : Except String String) : Option String → Prop
  | some node => result = .ok node
  | none => ∃ reason, result = .error reason

variable {lock} {node first : String} {steps rest dropped : List String} {last : Option String}

theorem walks_cons_missing {step : String} (lacks : Lacks lock node step) :
    Walks lock node (step :: rest) last ↔ last = none := by
  constructor
  · intro walk
    cases walk with
    | missing _ => rfl
    | direct found _ => simp [Lacks, found] at lacks
    | followsMissing _ _ => rfl
    | follows found _ _ => simp [Lacks, found] at lacks
  · rintro rfl
    exact .missing lacks

theorem walks_cons_direct {step target : String}
    (found : inputOf lock node step = some (.direct target)) :
    Walks lock node (step :: rest) last ↔ Walks lock target rest last := by
  constructor
  · intro walk
    cases walk with
    | missing lacks => simp [Lacks, found] at lacks
    | direct own later =>
        cases found.symm.trans own
        exact later
    | followsMissing own _ => cases found.symm.trans own
    | follows own _ _ => cases found.symm.trans own
  · exact .direct found

theorem walks_cons_follows {step : String}
    (found : inputOf lock node step = some (.follows (first :: steps))) :
    Walks lock node (step :: rest) last ↔
      (∃ middle, Walks lock first steps (some middle) ∧ Walks lock middle rest last) ∨
        (Walks lock first steps none ∧ last = none) := by
  constructor
  · intro walk
    cases walk with
    | missing lacks => simp [Lacks, found] at lacks
    | direct own _ => cases found.symm.trans own
    | followsMissing own inner =>
        cases found.symm.trans own
        exact .inr ⟨inner, rfl⟩
    | follows own inner later =>
        cases found.symm.trans own
        exact .inl ⟨_, inner, later⟩
  · rintro (⟨middle, inner, later⟩ | ⟨inner, rfl⟩)
    · exact .follows found inner later
    · exact .followsMissing found inner

theorem walks_nil : Walks lock node [] last ↔ last = some node := by
  constructor
  · intro walk
    cases walk
    rfl
  · rintro rfl
    exact .arrived node

theorem Walks.unique {other : Option String} (one : Walks lock node steps last)
    (two : Walks lock node steps other) : last = other := by
  induction one generalizing other with
  | arrived node => exact (walks_nil.mp two).symm
  | missing lacks => exact ((walks_cons_missing lacks).mp two).symm
  | direct found _ ih => exact ih ((walks_cons_direct found).mp two)
  | followsMissing found _ ih =>
      rcases (walks_cons_follows found).mp two with ⟨middle, inner, _⟩ | ⟨_, rfl⟩
      · cases ih inner
      · rfl
  | follows found _ _ ihInner ihLater =>
      rcases (walks_cons_follows found).mp two with ⟨middle, inner, later⟩ | ⟨inner, _⟩
      · cases ihInner inner
        exact ihLater later
      · cases ihInner inner

theorem input_cases (lock : FlakeLock) (node step : String) :
    Lacks lock node step ∨ (∃ target, inputOf lock node step = some (.direct target)) ∨
      ∃ first steps, inputOf lock node step = some (.follows (first :: steps)) := by
  unfold Lacks
  cases inputOf lock node step with
  | none => exact .inl (.inl rfl)
  | some reference =>
      cases reference with
      | direct target => exact .inr (.inl ⟨target, rfl⟩)
      | follows chain =>
          cases chain with
          | nil => exact .inl (.inr rfl)
          | cons first steps => exact .inr (.inr ⟨first, steps, rfl⟩)

/-- A walk over two paths, one after the other. -/
theorem walks_append : Walks lock node (steps ++ rest) last ↔
    (∃ middle, Walks lock node steps (some middle) ∧ Walks lock middle rest last) ∨
      (Walks lock node steps none ∧ last = none) := by
  induction steps generalizing node with
  | nil => simp [walks_nil]
  | cons step steps ih =>
      rw [List.cons_append]
      rcases input_cases lock node step with lacks | ⟨target, found⟩ | ⟨first, inner, found⟩
      · simp [walks_cons_missing lacks]
      · simp only [walks_cons_direct found, ih]
      · simp only [walks_cons_follows found, ih]
        grind

theorem Founded.walks (founded : Founded lock) (node : String) (steps : List String) :
    ∃ last, Walks lock node steps last := by
  induction steps generalizing node with
  | nil => exact ⟨_, .arrived node⟩
  | cons step rest ih =>
      obtain ⟨last, first⟩ := founded node step
      cases last with
      | none => exact ⟨none, walks_append.mpr (.inr ⟨first, rfl⟩)⟩
      | some middle =>
          obtain ⟨last, later⟩ := ih middle
          exact ⟨last, walks_append.mpr (.inl ⟨middle, first, later⟩)⟩

theorem Walks.sent (walk : Walks lock node steps last) :
    ∃ sent dropped, Sent lock node steps sent dropped := by
  induction walk with
  | arrived node => exact ⟨_, _, .arrived node⟩
  | missing lacks => exact ⟨_, _, .missing lacks⟩
  | direct found _ ih =>
      obtain ⟨sent, dropped, later⟩ := ih
      exact ⟨sent, dropped, .direct found later⟩
  | followsMissing found _ ih =>
      obtain ⟨sent, dropped, later⟩ := ih
      exact ⟨sent, _, .follows found later⟩
  | follows found _ _ ih _ =>
      obtain ⟨sent, dropped, later⟩ := ih
      exact ⟨sent, _, .follows found later⟩

/-- Where a walk gets to that goes on with the steps left over. -/
def GoesOn (lock : FlakeLock) (dropped : List String) (last : Option String) :
    Option String → Prop
  | some place => Walks lock place dropped last
  | none => last = none

/-- The walk goes on from where the path is sent, with the steps that are left over. -/
theorem Sent.walks_iff {sent : Option String} (own : Sent lock node steps sent dropped) :
    Walks lock node steps last ↔ GoesOn lock dropped last sent := by
  induction own generalizing last with
  | arrived node => exact Iff.rfl
  | missing lacks => exact walks_cons_missing lacks
  | direct found _ ih => exact (walks_cons_direct found).trans ih
  | @follows node step first steps rest dropped sent found _ ih =>
      rw [walks_cons_follows found]
      simp only [ih]
      cases sent with
      | some place => exact walks_append.symm
      | none => simp [GoesOn]

end Walks

section Results

variable {lock : FlakeLock} {node : String} {steps dropped : List String}

theorem followSteps_input {step : String} {rest : List String} {reference : InputRef}
    (found : inputOf lock node step = some reference) :
    followSteps lock node (step :: rest) =
      match reference with
      | .direct target => followSteps lock target rest
      | .follows chain => .inl chain := by
  obtain ⟨here, listed, inner⟩ := Option.bind_eq_some_iff.mp found
  obtain ⟨inputs, has, own⟩ := Option.bind_eq_some_iff.mp inner
  rw [followSteps]
  simp only [listed, has, own]
  cases reference with
  | direct target => rfl
  | follows chain => rfl

theorem followSteps_missing {step : String} (rest : List String)
    (none : inputOf lock node step = none) :
    ∃ reason, followSteps lock node (step :: rest) = .inr (.error reason) := by
  unfold followSteps
  split
  · exact ⟨_, rfl⟩
  · rename_i here listed
    split
    · exact ⟨_, rfl⟩
    · rename_i inputs has
      split
      · rename_i target own
        simp [inputOf, listed, has, own] at none
      · rename_i chain own
        simp [inputOf, listed, has, own] at none
      · exact ⟨_, rfl⟩

/-- `resolve_follows` gives the place a path is sent to. -/
theorem Sent.returns {sent : Option String} (own : Sent lock node steps sent dropped) :
    ∃ result, Returns (followCall lock) (node :: steps) result ∧ Agrees result sent := by
  induction own with
  | arrived node => exact ⟨.ok node, TailCalls.returns_of_result rfl, rfl⟩
  | @missing node step rest lacks =>
      rcases lacks with none | empty
      · obtain ⟨reason, failed⟩ := followSteps_missing rest none
        exact ⟨.error reason, TailCalls.returns_of_result failed, reason, rfl⟩
      · have passes : Passes (followCall lock) (node :: step :: rest) [] :=
          followSteps_input empty
        exact ⟨_, (TailCalls.returns_iff_of_passes passes).mpr (TailCalls.returns_of_result rfl),
          _, rfl⟩
  | @direct node step target rest dropped last found _ ih =>
      obtain ⟨result, returns, agrees⟩ := ih
      have same : followCall lock (node :: step :: rest) = followCall lock (target :: rest) :=
        followSteps_input found
      exact ⟨result, (TailCalls.returns_congr same).mpr returns, agrees⟩
  | @follows node step first steps rest dropped last found _ ih =>
      obtain ⟨result, returns, agrees⟩ := ih
      have passes : Passes (followCall lock) (node :: step :: rest) (first :: steps) :=
        followSteps_input found
      exact ⟨result, (TailCalls.returns_iff_of_passes passes).mpr returns, agrees⟩

/-- Where references can be resolved, `resolve_follows` returns. -/
theorem resolveFollows_returns (founded : Founded lock) (first : String) (steps : List String) :
    ∃ fuel result, resolveFollows lock fuel (first :: steps) = some result := by
  obtain ⟨last, walk⟩ := founded.walks first steps
  obtain ⟨sent, dropped, own⟩ := walk.sent
  obtain ⟨result, ⟨fuel, ended⟩, -⟩ := own.returns
  exact ⟨fuel, result, ended⟩

/-- `resolve_follows` takes the whole walk if and only if the steps that its chains leave
over, if any, lead back to where the walk has been sent, or it is sent nowhere. -/
theorem resolveFollows_walks_iff (lock : FlakeLock) (first : String) (steps : List String) :
    (∃ fuel result last, resolveFollows lock fuel (first :: steps) = some result ∧
      Walks lock first steps last ∧ Agrees result last) ↔
      ∃ sent dropped, Sent lock first steps sent dropped ∧
        ∀ place, sent = some place → Walks lock place dropped (some place) := by
  constructor
  · rintro ⟨fuel, result, last, ended, walk, agrees⟩
    obtain ⟨sent, dropped, own⟩ := walk.sent
    refine ⟨sent, dropped, own, ?_⟩
    rintro place rfl
    obtain ⟨other, returns, same⟩ := own.returns
    have arrived : result = .ok place :=
      (TailCalls.Returns.unique ⟨fuel, ended⟩ returns).trans same
    have goesOn := own.walks_iff.mp walk
    cases last with
    | none =>
        obtain ⟨reason, failed⟩ := agrees
        cases arrived.symm.trans failed
    | some reached =>
        cases arrived.symm.trans agrees
        exact goesOn
  · rintro ⟨sent, dropped, own, back⟩
    obtain ⟨result, ⟨fuel, ended⟩, agrees⟩ := own.returns
    refine ⟨fuel, result, sent, ended, own.walks_iff.mpr ?_, agrees⟩
    cases sent with
    | none => rfl
    | some place => exact back place rfl

end Results

section Termination

variable {lock : FlakeLock}

/-- The paths that stand for inputs anywhere in the lock. -/
def chains (lock : FlakeLock) : List (List String) :=
  lock.nodes.entries.flatMap fun node => (node.2.inputs.elim [] AList.entries).filterMap
    fun input => match input.2 with
      | .follows chain => some chain
      | .direct _ => none

theorem mem_chains {node step : String} {chain : List String}
    (found : inputOf lock node step = some (.follows chain)) : chain ∈ chains lock := by
  obtain ⟨here, listed, inner⟩ := Option.bind_eq_some_iff.mp found
  obtain ⟨inputs, has, own⟩ := Option.bind_eq_some_iff.mp inner
  have member := AList.mem_lookup_iff.mp (Option.mem_def.mpr listed)
  refine List.mem_flatMap.mpr ⟨_, member, List.mem_filterMap.mpr ?_⟩
  refine ⟨⟨step, .follows chain⟩, ?_, rfl⟩
  rw [has]
  exact AList.mem_lookup_iff.mp (Option.mem_def.mpr own)

theorem followSteps_chains {node : String} {steps chain : List String}
    (sent : followSteps lock node steps = .inl chain) : chain ∈ chains lock := by
  induction steps generalizing node with
  | nil => cases sent
  | cons step rest ih =>
      unfold followSteps at sent
      split at sent
      · cases sent
      · rename_i here listed
        split at sent
        · cases sent
        · rename_i inputs has
          split at sent
          · exact ih sent
          · rename_i own found
            cases sent
            have input : inputOf lock node step = some (.follows chain) := by
              simp [inputOf, listed, has, found]
            exact mem_chains input
          · cases sent

/-- `resolve_follows` returns if and only if the paths it is sent to do not come back. -/
theorem resolveFollows_returns_iff (lock : FlakeLock) (follows : List String) :
    (∃ fuel result, resolveFollows lock fuel follows = some result) ↔
      ¬ Circular (followCall lock) follows := by
  rw [← TailCalls.returns_iff_not_circular (chains lock)]
  · exact exists_comm
  · intro path next passes
    cases path with
    | nil => cases passes
    | cons first steps => exact followSteps_chains passes

theorem resolveInputs_mono {fuel more : Nat} (le : fuel ≤ more)
    {entries : List ((_ : String) × InputRef)} {resolved : AList fun _ : String => String}
    {result : Except String (AList fun _ : String => String)}
    (ended : resolveInputs lock fuel entries resolved = some result) :
    resolveInputs lock more entries resolved = some result := by
  induction entries generalizing resolved with
  | nil => exact ended
  | cons entry rest ih =>
      obtain ⟨name, reference⟩ := entry
      cases reference with
      | direct target => exact ih ended
      | follows chain =>
          unfold resolveInputs at ended ⊢
          split at ended
          · cases ended
          · rename_i reason failed
            rw [resolveFollows, TailCalls.run_mono failed le]
            exact ended
          · rename_i node found
            rw [resolveFollows, TailCalls.run_mono found le]
            exact ih ended

/-- The inputs of the root are resolved where none of their paths runs in a circle. -/
theorem resolveInputs_returns {entries : List ((_ : String) × InputRef)}
    (straight : ∀ name chain, (⟨name, .follows chain⟩ : (_ : String) × InputRef) ∈ entries →
      ¬ Circular (followCall lock) chain) (resolved : AList fun _ : String => String) :
    ∃ fuel result, resolveInputs lock fuel entries resolved = some result := by
  induction entries generalizing resolved with
  | nil => exact ⟨0, _, rfl⟩
  | cons entry rest ih =>
      obtain ⟨name, reference⟩ := entry
      have later := ih fun other chain member =>
        straight other chain (List.mem_cons_of_mem _ member)
      cases reference with
      | direct target => exact later (resolved.insert name target)
      | follows chain =>
          obtain ⟨fuel, result, ended⟩ := (resolveFollows_returns_iff lock chain).mpr
            (straight name chain List.mem_cons_self)
          cases result with
          | error reason =>
              refine ⟨fuel, .error reason, ?_⟩
              simp only [resolveInputs, ended]
          | ok node =>
              obtain ⟨more, last, final⟩ := later (resolved.insert name node)
              refine ⟨max fuel more, last, ?_⟩
              have early : resolveFollows lock (max fuel more) chain = some (.ok node) :=
                TailCalls.run_mono ended (Nat.le_max_left fuel more)
              simp only [resolveInputs, early]
              exact resolveInputs_mono (Nat.le_max_right fuel more) final

/-- A path that runs in a circle is never resolved when its input comes first. -/
theorem resolveInputs_circular {name : String} {chain : List String}
    (circular : Circular (followCall lock) chain) (fuel : Nat)
    (rest : List ((_ : String) × InputRef)) (resolved : AList fun _ : String => String) :
    resolveInputs lock fuel (⟨name, .follows chain⟩ :: rest) resolved = none := by
  have stuck : resolveFollows lock fuel chain = none := by
    by_contra ended
    obtain ⟨result, returns⟩ := Option.ne_none_iff_exists'.mp ended
    exact (resolveFollows_returns_iff lock chain).mp ⟨fuel, result, returns⟩ circular
  simp only [resolveInputs, stuck]

/-- An input can be the first one that is gone through. -/
theorem exists_order_first {inputs : Inputs} {entry : (_ : String) × InputRef}
    (member : entry ∈ inputs.entries) :
    ∃ order : Inputs → List ((_ : String) × InputRef), (∀ other, (order other).Perm other.entries) ∧
      ∃ rest, order inputs = entry :: rest := by
  obtain ⟨front, back, split⟩ := List.append_of_mem member
  refine ⟨fun other => if other = inputs then entry :: (front ++ back) else other.entries, ?_,
    front ++ back, if_pos rfl⟩
  intro other
  dsimp only
  split
  · rename_i same
    rw [same, split]
    exact List.perm_middle.symm
  · exact List.Perm.refl _

/-- `resolve_follows` returns where the path does not run in a circle, and `get_root_inputs`
where no path among the root's inputs does. -/
theorem lockResolution_returns_iff (lock : FlakeLock) :
    (∀ follows, (∃ fuel result, resolveFollows lock fuel follows = some result) ↔
      ¬ Circular (followCall lock) follows) ∧
    ((∀ order, (∀ inputs : Inputs, (order inputs).Perm inputs.entries) →
        ∃ fuel result, getRootInputs lock order fuel = some result) ↔
      ∀ root inputs name chain, lock.nodes.lookup lock.root = some root →
        root.inputs = some inputs → inputs.lookup name = some (.follows chain) →
        ¬ Circular (followCall lock) chain) := by
  refine ⟨resolveFollows_returns_iff lock, ?_, ?_⟩
  · intro returns root inputs name chain listed has found circular
    have member := AList.mem_lookup_iff.mp (Option.mem_def.mpr found)
    obtain ⟨order, enumerates, rest, first⟩ := exists_order_first member
    obtain ⟨fuel, result, ended⟩ := returns order enumerates
    simp only [getRootInputs, listed, has, first, resolveInputs_circular circular] at ended
    cases ended
  · intro straight order enumerates
    unfold getRootInputs
    split
    · exact ⟨0, _, rfl⟩
    · rename_i root listed
      split
      · exact ⟨0, _, rfl⟩
      · rename_i inputs has
        apply resolveInputs_returns
        intro name chain member
        apply straight root inputs name chain listed has
        exact AList.mem_lookup_iff.mpr ((enumerates inputs).mem_iff.mp member)

end Termination

section Locks

def lockWith (nodes : AList fun _ : String => LockNode) : FlakeLock where
  version := 7
  root := "root"
  nodes := nodes

def nodeWith (inputs : Inputs) : LockNode := ⟨some inputs⟩

/-- An input of the root that follows another one, which has an input of its own. -/
def redirectLock : FlakeLock :=
  lockWith (AList.insert "root"
    (nodeWith (AList.insert "pkgs" (.follows ["root", "nixpkgs"])
      (AList.insert "nixpkgs" (.direct "nixpkgs") ∅)))
    (AList.insert "nixpkgs" (nodeWith (AList.insert "lib" (.direct "nixpkgs-lib") ∅)) ∅))

theorem redirectLock_founded : Founded redirectLock := by
  intro node step
  rcases input_cases redirectLock node step with lacks | ⟨target, found⟩ | ⟨first, steps, found⟩
  · exact ⟨none, .missing lacks⟩
  · exact ⟨some target, .direct found (.arrived target)⟩
  · have listed : chains redirectLock = [["root", "nixpkgs"]] := by decide +kernel
    have only := mem_chains found
    rw [listed, List.mem_singleton] at only
    cases only
    have own : inputOf redirectLock "root" "nixpkgs" = some (.direct "nixpkgs") := by
      decide +kernel
    exact ⟨some "nixpkgs", .follows found (.direct own (.arrived _)) (.arrived _)⟩

/-- The step behind an input that follows another one is left out. -/
theorem step_left_out :
    ¬ ∀ lock, Founded lock → ∀ first steps, ∃ fuel result last,
      resolveFollows lock fuel (first :: steps) = some result ∧ Walks lock first steps last ∧
        Agrees result last := by
  intro always
  obtain ⟨fuel, result, last, ended, walk, agrees⟩ :=
    always redirectLock redirectLock_founded "root" ["pkgs", "lib"]
  have two : resolveFollows redirectLock 2 ["root", "pkgs", "lib"] = some (.ok "nixpkgs") := by
    decide +kernel
  obtain rfl : result = .ok "nixpkgs" := TailCalls.Returns.unique ⟨fuel, ended⟩ ⟨2, two⟩
  have pkgs : inputOf redirectLock "root" "pkgs" = some (.follows ["root", "nixpkgs"]) := by
    decide +kernel
  have nixpkgs : inputOf redirectLock "root" "nixpkgs" = some (.direct "nixpkgs") := by
    decide +kernel
  have lib : inputOf redirectLock "nixpkgs" "lib" = some (.direct "nixpkgs-lib") := by
    decide +kernel
  have whole : Walks redirectLock "root" ["pkgs", "lib"] (some "nixpkgs-lib") :=
    .follows pkgs (.direct nixpkgs (.arrived _)) (.direct lib (.arrived _))
  cases walk.unique whole
  exact absurd agrees (by simp [Agrees])

/-- An input that follows itself. -/
def selfLock : FlakeLock :=
  lockWith (AList.insert "root" (nodeWith (AList.insert "a" (.follows ["root", "a"]) ∅)) ∅)

/-- Neither call returns for an input that follows itself. -/
theorem self_follows_never_ends :
    ¬ ∀ lock, parseFlakeLock lock = .ok lock →
      (∀ follows, ∃ fuel result, resolveFollows lock fuel follows = some result) ∧
      ∀ order, (∀ inputs : Inputs, (order inputs).Perm inputs.entries) →
        ∃ fuel result, getRootInputs lock order fuel = some result := by
  intro always
  obtain ⟨returns, -⟩ := always selfLock rfl
  have again : Passes (followCall selfLock) ["root", "a"] ["root", "a"] := by
    unfold Passes
    decide +kernel
  exact (resolveFollows_returns_iff selfLock ["root", "a"]).mp (returns _)
    ⟨_, .refl, .single again⟩

end Locks

end NixRedox.Flake
