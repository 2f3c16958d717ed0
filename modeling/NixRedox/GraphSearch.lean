import Mathlib

set_option autoImplicit false

/- Breadth-first search with a visited set, a queue and an expansion that may
fail. Nothing here knows what a node is. -/
namespace NixRedox.GraphSearch

variable {α β σ ε : Type}

/-- Reachability along the edges of the nodes that can be expanded. The last
node of a path need not have an expansion of its own. -/
inductive Reach (next : α → Option (List α)) (root : α) : α → Prop where
  | refl : Reach next root root
  | step {node child : α} {children : List α} (reached : Reach next root node)
      (expanded : next node = some children) (member : child ∈ children) :
      Reach next root child

/-- Every node reachable from the root can be expanded. -/
def Complete (next : α → Option (List α)) (root : α) : Prop :=
  ∀ node, Reach next root node → (next node).isSome

theorem Reach.trans {next : α → Option (List α)} {first second third : α}
    (front : Reach next first second) (back : Reach next second third) :
    Reach next first third := by
  induction back with
  | refl => exact front
  | step _ expanded member ih => exact .step ih expanded member

/-- A set that holds the root and the children of its members holds everything
that can be reached. -/
theorem Reach.mem_of_closed {next : α → Option (List α)} {root node : α}
    (reached : Reach next root node) (inside : α → Prop) (start : inside root)
    (closed : ∀ parent children, inside parent → next parent = some children →
      ∀ child ∈ children, inside child) : inside node := by
  induction reached with
  | refl => exact start
  | step _ expanded member ih => exact closed _ _ ih expanded _ member

theorem Reach.mono {next wider : α → Option (List α)} {root node : α}
    (reached : Reach next root node)
    (extends_ : ∀ parent children, next parent = some children →
      ∃ more, wider parent = some more ∧ ∀ child ∈ children, child ∈ more) :
    Reach wider root node := by
  induction reached with
  | refl => exact .refl
  | step _ expanded member ih =>
      obtain ⟨more, found, included⟩ := extends_ _ _ expanded
      exact .step ih found (included _ member)

/-- Two graphs that agree on what one of them reaches reach the same. -/
theorem reach_congr {next other : α → Option (List α)} {root : α}
    (same : ∀ node, Reach next root node → other node = next node) (node : α) :
    Reach other root node ↔ Reach next root node := by
  constructor
  · intro reached
    refine reached.mem_of_closed (Reach next root) .refl ?_
    intro parent children before expanded child member
    rw [same parent before] at expanded
    exact .step before expanded member
  · intro reached
    induction reached with
    | refl => exact .refl
    | step before expanded member ih => exact .step ih ((same _ before).trans expanded) member

/-- A path that goes anywhere starts with an edge of its root. -/
theorem Reach.root_expanded {next : α → Option (List α)} {root node : α}
    (reached : Reach next root node) : node = root ∨ (next root).isSome := by
  induction reached with
  | refl => exact .inl rfl
  | step _ expanded _ ih =>
      right
      rcases ih with same | some_
      · rw [← same, expanded]
        rfl
      · exact some_

variable [DecidableEq α]

/-- The worklist loop over a state. Popping a visited node drops it; popping a
fresh one visits it and queues its unvisited children. `none` means that the fuel
ran out before the queue was empty. -/
def walk (visit : σ → α → σ × Except ε (List α)) :
    Nat → List α → List α → σ → Option (σ × Except ε (List α))
  | _, visited, [], state => some (state, .ok visited)
  | 0, _, _ :: _, _ => none
  | fuel + 1, visited, node :: queue, state =>
      if node ∈ visited then
        walk visit fuel visited queue state
      else
        match visit state node with
        | (next, .error reason) => some (next, .error reason)
        | (next, .ok children) =>
            walk visit fuel (node :: visited)
              (queue ++ children.filter (· ∉ node :: visited)) next

/-- The lists and the state of the loop between two iterations. -/
inductive Reached (visit : σ → α → σ × Except ε (List α)) (root : α) (start : σ) :
    List α → List α → σ → Prop where
  | start : Reached visit root start [] [root] start
  | skip {visited queue : List α} {node : α} {state : σ}
      (before : Reached visit root start visited (node :: queue) state)
      (seen : node ∈ visited) : Reached visit root start visited queue state
  | visit {visited queue children : List α} {node : α} {state next : σ}
      (before : Reached visit root start visited (node :: queue) state)
      (fresh : node ∉ visited) (step : visit state node = (next, .ok children)) :
      Reached visit root start (node :: visited)
        (queue ++ children.filter (· ∉ node :: visited)) next

/-- The loop is at a fresh node, and its visit fails. -/
structure FailsAt (visit : σ → α → σ × Except ε (List α)) (root : α) (start : σ)
    (visited queue : List α) (node : α) (state after : σ) (reason : ε) : Prop where
  reached : Reached visit root start visited (node :: queue) state
  fresh : node ∉ visited
  step : visit state node = (after, .error reason)

/-- The loop has emptied its queue or failed at a node. -/
def Ends (visit : σ → α → σ × Except ε (List α)) (root : α) (start after : σ) :
    Except ε (List α) → Prop
  | .ok all => Reached visit root start all [] after
  | .error reason => ∃ visited queue node state,
      FailsAt visit root start visited queue node state after reason

theorem walk_ends {visit : σ → α → σ × Except ε (List α)} {root : α} {start : σ}
    (fuel : Nat) {visited queue : List α} {state after : σ} {result : Except ε (List α)}
    (reached : Reached visit root start visited queue state)
    (finished : walk visit fuel visited queue state = some (after, result)) :
    Ends visit root start after result := by
  induction fuel generalizing visited queue state with
  | zero =>
      cases queue with
      | cons node queue => cases finished
      | nil =>
          cases finished
          exact reached
  | succ fuel ih =>
      cases queue with
      | nil =>
          cases finished
          exact reached
      | cons node queue =>
          rw [walk] at finished
          split at finished
          · rename_i seen
            exact ih (reached.skip seen) finished
          · rename_i fresh
            split at finished
            · rename_i next reason step
              cases finished
              exact ⟨visited, queue, node, state, reached, fresh, step⟩
            · rename_i next children step
              exact ih (reached.visit fresh step) finished

/-- The invariant rule: what every visit keeps, whether it fails or not, the loop keeps. -/
theorem walk_keeps {visit : σ → α → σ × Except ε (List α)} {property : σ → Prop}
    (keeps : ∀ state node next result, property state → visit state node = (next, result) →
      property next)
    (fuel : Nat) {visited queue : List α} {state after : σ} {result : Except ε (List α)}
    (holds : property state)
    (finished : walk visit fuel visited queue state = some (after, result)) :
    property after := by
  induction fuel generalizing visited queue state with
  | zero =>
      cases queue with
      | cons node queue => cases finished
      | nil =>
          cases finished
          exact holds
  | succ fuel ih =>
      cases queue with
      | nil =>
          cases finished
          exact holds
      | cons node queue =>
          rw [walk] at finished
          split at finished
          · exact ih holds finished
          · split at finished
            · rename_i failed
              cases finished
              exact keeps _ _ _ _ holds failed
            · rename_i step
              exact ih (keeps _ _ _ _ holds step) finished

/-- From wherever the loop passes it goes on to the same end. -/
theorem walk_resumes {visit : σ → α → σ × Except ε (List α)} {root : α} {start : σ}
    {fuel : Nat} {outcome : σ × Except ε (List α)}
    (finished : walk visit fuel [] [root] start = some outcome)
    {visited queue : List α} {state : σ}
    (reached : Reached visit root start visited queue state) :
    ∃ left, walk visit left visited queue state = some outcome := by
  induction reached with
  | start => exact ⟨fuel, finished⟩
  | skip before seen ih =>
      obtain ⟨left, resumed⟩ := ih
      cases left with
      | zero => cases resumed
      | succ left =>
          rw [walk, if_pos seen] at resumed
          exact ⟨left, resumed⟩
  | visit before fresh step ih =>
      obtain ⟨left, resumed⟩ := ih
      cases left with
      | zero => cases resumed
      | succ left =>
          rw [walk, if_neg fresh, step] at resumed
          exact ⟨left, resumed⟩

/-- Where a visit fails, the loop ends. -/
theorem walk_of_failsAt {visit : σ → α → σ × Except ε (List α)} {root node : α} {start : σ}
    {fuel : Nat} {outcome : σ × Except ε (List α)} {visited queue : List α} {state after : σ}
    {reason : ε} (finished : walk visit fuel [] [root] start = some outcome)
    (fails : FailsAt visit root start visited queue node state after reason) :
    outcome = (after, .error reason) := by
  obtain ⟨left, resumed⟩ := walk_resumes finished fails.reached
  cases left with
  | zero => cases resumed
  | succ left =>
      rw [walk, if_neg fails.fresh, fails.step] at resumed
      exact (Option.some.inj resumed).symm

/-- A visit that only reads the node and adds what it finds to an accumulator. -/
def collect (expand : α → Except ε (β × List α)) (add : σ → β → σ) (acc : σ) (node : α) :
    σ × Except ε (List α) :=
  match expand node with
  | .error reason => (acc, .error reason)
  | .ok (info, children) => (add acc info, .ok children)

def search (expand : α → Except ε (β × List α)) (add : σ → β → σ) (fuel : Nat)
    (root : α) (acc : σ) : Option (Except ε (List α × σ)) :=
  (walk (collect expand add) fuel [] [root] acc).map fun outcome =>
    outcome.2.map (·, outcome.1)

/-- The edges an expansion gives, forgetting the error. -/
def edges (expand : α → Except ε (β × List α)) (node : α) : Option (List α) :=
  match expand node with
  | .error _ => none
  | .ok (_, children) => some children

omit [DecidableEq α] in
theorem edges_of_ok {expand : α → Except ε (β × List α)} {node : α} {info : β}
    {children : List α} (found : expand node = .ok (info, children)) :
    edges expand node = some children := by
  simp only [edges, found]

omit [DecidableEq α] in
theorem edges_of_error {expand : α → Except ε (β × List α)} {node : α} {reason : ε}
    (failed : expand node = .error reason) : edges expand node = none := by
  simp only [edges, failed]

/-- What holds of the loop's two lists between iterations: everything in them
is reachable, and a child of a visited node is visited or queued. -/
structure SearchInv (next : α → Option (List α)) (root : α) (visited queue : List α) :
    Prop where
  root_seen : root ∈ visited ∨ root ∈ queue
  visited_reach : ∀ node ∈ visited, Reach next root node
  queue_reach : ∀ node ∈ queue, Reach next root node
  expanded : ∀ node ∈ visited, (next node).isSome
  frontier : ∀ node ∈ visited, ∀ children, next node = some children →
    ∀ child ∈ children, child ∈ visited ∨ child ∈ queue

omit [DecidableEq α] in
theorem SearchInv.init (next : α → Option (List α)) (root : α) :
    SearchInv next root [] [root] where
  root_seen := .inr (by simp)
  visited_reach := by simp
  queue_reach := by
    intro node member
    rw [List.mem_singleton.mp member]
    exact .refl
  expanded := by simp
  frontier := by simp

omit [DecidableEq α] in
theorem SearchInv.skip {next : α → Option (List α)} {root node : α}
    {visited queue : List α} (inv : SearchInv next root visited (node :: queue))
    (seen : node ∈ visited) : SearchInv next root visited queue where
  root_seen := by
    rcases inv.root_seen with done | waiting
    · exact .inl done
    · rcases List.mem_cons.mp waiting with same | later
      · exact .inl (same ▸ seen)
      · exact .inr later
  visited_reach := inv.visited_reach
  queue_reach := fun other member => inv.queue_reach other (List.mem_cons_of_mem _ member)
  expanded := inv.expanded
  frontier := by
    intro parent member children found child childMember
    rcases inv.frontier parent member children found child childMember with done | waiting
    · exact .inl done
    · rcases List.mem_cons.mp waiting with same | later
      · exact .inl (same ▸ seen)
      · exact .inr later

/-- After a visit the loop still has all it had, the popped node among the visited
ones, and the children too. -/
theorem mem_after_visit {visited queue children : List α} {node other : α}
    (place : other ∈ visited ∨ other ∈ node :: queue ∨ other ∈ children) :
    other ∈ node :: visited ∨ other ∈ queue ++ children.filter (· ∉ node :: visited) := by
  rcases place with done | waiting | child
  · exact .inl (List.mem_cons_of_mem _ done)
  · rcases List.mem_cons.mp waiting with same | later
    · exact .inl (same ▸ List.mem_cons_self)
    · exact .inr (List.mem_append_left _ later)
  · by_cases seen : other ∈ node :: visited
    · exact .inl seen
    · exact .inr (List.mem_append_right _ (List.mem_filter.mpr ⟨child, by simpa using seen⟩))

theorem SearchInv.visit {next : α → Option (List α)} {root node : α}
    {visited queue children : List α} (inv : SearchInv next root visited (node :: queue))
    (found : next node = some children) :
    SearchInv next root (node :: visited)
      (queue ++ children.filter (· ∉ node :: visited)) := by
  have reached : Reach next root node := inv.queue_reach node (by simp)
  refine ⟨mem_after_visit (inv.root_seen.imp_right .inl), ?_, ?_, ?_, ?_⟩
  · intro other member
    rcases List.mem_cons.mp member with same | old
    · exact same ▸ reached
    · exact inv.visited_reach other old
  · intro other member
    rcases List.mem_append.mp member with old | fresh
    · exact inv.queue_reach other (List.mem_cons_of_mem _ old)
    · exact .step reached found (List.mem_of_mem_filter fresh)
  · intro other member
    rcases List.mem_cons.mp member with same | old
    · rw [same, found]
      rfl
    · exact inv.expanded other old
  · intro parent member grandchildren expanded child childMember
    rcases List.mem_cons.mp member with same | old
    · rw [same, found, Option.some.injEq] at expanded
      subst expanded
      exact mem_after_visit (.inr (.inr childMember))
    · exact mem_after_visit
        ((inv.frontier parent old grandchildren expanded child childMember).imp_right .inl)

omit [DecidableEq α] in
/-- With nothing left to do, the visited nodes are exactly the reachable ones. -/
theorem SearchInv.exhausted {next : α → Option (List α)} {root : α} {visited : List α}
    (inv : SearchInv next root visited []) :
    (∀ node, node ∈ visited ↔ Reach next root node) ∧ Complete next root := by
  have complete : ∀ node, Reach next root node → node ∈ visited := by
    intro node reached
    refine reached.mem_of_closed (· ∈ visited) ?_ ?_
    · simpa using inv.root_seen
    · intro parent children member found child childMember
      simpa using inv.frontier parent member children found child childMember
  exact ⟨fun node => ⟨inv.visited_reach node, complete node⟩,
    fun node reached => inv.expanded node (complete node reached)⟩

/-- What an ended search says about the graph. -/
def Describes (next : α → Option (List α)) (root : α) : Except ε (List α × σ) → Prop
  | .ok (result, _) => (∀ node, node ∈ result ↔ Reach next root node) ∧ Complete next root
  | .error _ => ¬ Complete next root

omit [DecidableEq α] in
theorem edges_of_collect_ok {expand : α → Except ε (β × List α)} {add : σ → β → σ} {node : α}
    {acc next : σ} {children : List α}
    (step : collect expand add acc node = (next, .ok children)) :
    edges expand node = some children := by
  unfold collect at step
  split at step
  · cases step
  · rename_i info listed found
    cases step
    exact edges_of_ok found

omit [DecidableEq α] in
theorem edges_of_collect_error {expand : α → Except ε (β × List α)} {add : σ → β → σ} {node : α}
    {acc next : σ} {reason : ε} (step : collect expand add acc node = (next, .error reason)) :
    edges expand node = none := by
  unfold collect at step
  split at step
  · rename_i reason failed
    exact edges_of_error failed
  · cases step

/-- A search that ends without an error has visited exactly what can be reached,
and one that ends with an error has met a reachable node without an expansion. -/
theorem search_describes {expand : α → Except ε (β × List α)} {add : σ → β → σ} {root : α}
    (fuel : Nat) (acc : σ) (outcome : Except ε (List α × σ))
    (finished : search expand add fuel root acc = some outcome) :
    Describes (edges expand) root outcome := by
  obtain ⟨⟨last, result⟩, walked, same⟩ := Option.map_eq_some_iff.mp finished
  subst same
  have inv : ∀ visited queue state,
      Reached (collect expand add) root acc visited queue state →
      SearchInv (edges expand) root visited queue := by
    intro visited queue state reached
    induction reached with
    | start => exact .init _ root
    | skip before seen ih => exact ih.skip seen
    | visit before fresh step ih => exact ih.visit (edges_of_collect_ok step)
  have ended := walk_ends fuel .start walked
  cases result with
  | ok all => exact (inv all [] last ended).exhausted
  | error reason =>
      obtain ⟨visited, queue, node, state, fails⟩ := ended
      intro complete
      have expanded := complete node ((inv _ _ _ fails.reached).queue_reach node (by simp))
      rw [edges_of_collect_error fails.step] at expanded
      cases expanded

/-- The state is what the visited nodes have added to the accumulator, each of them once. -/
def Accumulated (expand : α → Except ε (β × List α)) (add : σ → β → σ) (acc : σ)
    (visited : List α) (state : σ) : Prop :=
  ∃ infos, List.Forall₂ (fun node info => ∃ children, expand node = .ok (info, children))
    visited infos ∧ state = infos.foldr (fun info total => add total info) acc

theorem reached_accumulated {expand : α → Except ε (β × List α)} {add : σ → β → σ} {root : α}
    {acc state : σ} {visited queue : List α}
    (reached : Reached (collect expand add) root acc visited queue state) :
    visited.Nodup ∧ Accumulated expand add acc visited state := by
  induction reached with
  | start => exact ⟨List.nodup_nil, [], .nil, rfl⟩
  | skip before seen ih => exact ih
  | visit before fresh step ih =>
      obtain ⟨distinct, infos, listed, rfl⟩ := ih
      refine ⟨List.nodup_cons.mpr ⟨fresh, distinct⟩, ?_⟩
      unfold collect at step
      split at step
      · cases step
      · rename_i info grown found
        cases step
        exact ⟨info :: infos, .cons ⟨_, found⟩ listed, rfl⟩

/-- A search that ends without an error has counted every visited node once. -/
theorem search_accumulates {expand : α → Except ε (β × List α)} {add : σ → β → σ} {root : α}
    {fuel : Nat} {acc state : σ} {all : List α}
    (finished : search expand add fuel root acc = some (.ok (all, state))) :
    all.Nodup ∧ Accumulated expand add acc all state := by
  obtain ⟨⟨last, result⟩, walked, same⟩ := Option.map_eq_some_iff.mp finished
  cases result with
  | error reason => cases same
  | ok visited =>
      cases same
      exact reached_accumulated (walk_ends fuel .start walked)

/-- Nodes of a finite graph that the search has not visited yet. -/
def unvisited (nodes : List α) (visited : List α) : Nat :=
  (nodes.filter (· ∉ visited)).length

theorem unvisited_cons_lt {nodes visited : List α} {node : α}
    (inside : node ∈ nodes) (fresh : node ∉ visited) :
    unvisited nodes (node :: visited) < unvisited nodes visited := by
  have narrower : nodes.filter (· ∉ node :: visited) =
      (nodes.filter (· ∉ visited)).filter (· ≠ node) := by
    rw [List.filter_filter]
    apply List.filter_congr
    intro other _
    simp only [List.mem_cons, not_or, decide_not, Bool.decide_and]
  have waiting : node ∈ nodes.filter (· ∉ visited) :=
    List.mem_filter.mpr ⟨inside, by simpa using fresh⟩
  unfold unvisited
  rw [narrower]
  exact List.length_filter_lt_length_iff_exists.mpr ⟨node, waiting, by simp⟩

/-- Each pop lowers this measure by at least one: a visited node leaves the
queue, and a fresh one brings at most `width` children. -/
def searchCost (nodes : List α) (width : Nat) (visited queue : List α) : Nat :=
  queue.length + unvisited nodes visited * width

/-- Enough fuel always ends the loop, with or without an error, when the states it
goes through have only so many children. -/
theorem walk_terminates (visit : σ → α → σ × Except ε (List α)) (Good : σ → Prop)
    (nodes : List α) (width : Nat)
    (kept : ∀ state node next children, Good state →
      visit state node = (next, .ok children) → Good next)
    (inside : ∀ state node next children, Good state →
      visit state node = (next, .ok children) →
      (∀ child ∈ children, child ∈ nodes) ∧ children.length ≤ width)
    (fuel : Nat) (visited queue : List α) (state : σ) (good : Good state)
    (queued : ∀ node ∈ queue, node ∈ nodes)
    (enough : searchCost nodes width visited queue ≤ fuel) :
    (walk visit fuel visited queue state).isSome := by
  induction fuel generalizing visited queue state with
  | zero =>
      cases queue with
      | nil => rfl
      | cons node queue =>
          simp only [searchCost, List.length_cons] at enough
          omega
  | succ fuel ih =>
      cases queue with
      | nil => rfl
      | cons node queue =>
          have rest : ∀ other ∈ queue, other ∈ nodes :=
            fun other member => queued other (List.mem_cons_of_mem _ member)
          rw [walk]
          split
          · apply ih visited queue state good rest
            simp only [searchCost, List.length_cons] at enough ⊢
            omega
          · rename_i fresh
            split
            · rfl
            · rename_i next children step
              obtain ⟨members, narrow⟩ := inside state node next children good step
              apply ih _ _ _ (kept state node next children good step)
              · intro other member
                rcases List.mem_append.mp member with old | new
                · exact rest other old
                · exact members other (List.mem_of_mem_filter new)
              · have fewer := unvisited_cons_lt (queued node (by simp)) fresh
                have shorter := Nat.le_trans
                  (List.length_filter_le (· ∉ node :: visited) children) narrow
                have product : unvisited nodes (node :: visited) * width + width ≤
                    unvisited nodes visited * width := by
                  calc
                    _ = (unvisited nodes (node :: visited) + 1) * width := by
                      rw [Nat.add_mul, Nat.one_mul]
                    _ ≤ _ := Nat.mul_le_mul_right width fewer
                simp only [searchCost, List.length_cons, List.length_append] at enough ⊢
                omega

theorem search_terminates (expand : α → Except ε (β × List α)) (add : σ → β → σ)
    (nodes : List α) (width : Nat) (root : α)
    (inside : ∀ node info children, expand node = .ok (info, children) →
      (∀ child ∈ children, child ∈ nodes) ∧ children.length ≤ width)
    (fuel : Nat) (acc : σ) (start : root ∈ nodes)
    (enough : searchCost nodes width [] [root] ≤ fuel) :
    (search expand add fuel root acc).isSome := by
  rw [search, Option.isSome_map]
  apply walk_terminates _ (fun _ => True) nodes width
  · intro _ _ _ _ _ _
    trivial
  · intro state node next children _ step
    unfold collect at step
    split at step
    · cases step
    · rename_i info listed found
      cases step
      exact inside node info children found
  · trivial
  · intro node member
    rw [List.mem_singleton.mp member]
    exact start
  · exact enough

end NixRedox.GraphSearch
