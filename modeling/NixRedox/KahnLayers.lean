import NixRedox.Kahn

set_option autoImplicit false

/- Kahn's algorithm layer by layer: all nodes that no dependency is outstanding for are
emitted at once. Nothing here knows what a node is. -/
namespace NixRedox.Kahn.Graph

variable {α : Type} {graph : Graph α} {emitted next remaining : List α} {node : α}

section Order

/-- Nodes that depend only on what was emitted may follow in any order. -/
theorem Ordered.append (ordered : graph.Ordered emitted)
    (settled : ∀ node ∈ next, ∀ dep ∈ graph.deps node, dep ∈ emitted) :
    graph.Ordered (emitted ++ next) := by
  induction next generalizing emitted with
  | nil => rwa [List.append_nil]
  | cons node rest ih =>
      have one := ordered.concat (settled node List.mem_cons_self)
      rw [← List.singleton_append, ← List.append_assoc]
      refine ih one fun other later dep listed => ?_
      exact List.mem_append_left _ (settled other (List.mem_cons_of_mem _ later) dep listed)

/-- What has been emitted is in order, and nothing else is missing than what remains. -/
structure Layered (graph : Graph α) (emitted remaining : List α) : Prop where
  whole : (emitted ++ remaining).Perm graph.nodes
  ordered : graph.Ordered emitted

theorem Layered.start : graph.Layered [] graph.nodes where
  whole := .refl _
  ordered := by
    intro front node back same
    exact absurd same.symm (by simp)

theorem Layered.distinct (layered : graph.Layered emitted remaining) :
    (emitted ++ remaining).Nodup :=
  layered.whole.nodup_iff.mpr graph.distinct

theorem Layered.fresh (layered : graph.Layered emitted remaining) (inside : node ∈ remaining) :
    node ∉ emitted := by
  intro early
  exact (List.nodup_append.mp layered.distinct).2.2 node early node inside rfl

theorem Layered.acyclic (layered : graph.Layered emitted []) : graph.Acyclic := by
  have whole := layered.whole
  rw [List.append_nil] at whole
  exact layered.ordered.acyclic (whole.nodup_iff.mpr graph.distinct)
    fun node member => whole.mem_iff.mpr member

end Order

section Layers

variable [DecidableEq α]

/-- What a layer settles is not outstanding any more. -/
theorem outstanding_append (graph : Graph α) (fresh : ∀ node ∈ next, node ∉ emitted) (node : α) :
    graph.outstanding (emitted ++ next) node + (graph.deps node).countP (· ∈ next) =
      graph.outstanding emitted node := by
  unfold outstanding
  induction graph.deps node with
  | nil => rfl
  | cons dep rest ih =>
      simp only [List.countP_cons]
      by_cases late : dep ∈ next
      · have unseen := fresh dep late
        simp only [List.mem_append, late, unseen, or_true, not_true_eq_false, decide_false,
          decide_true, not_false_eq_true, if_true, Bool.false_eq_true, if_false] at ih ⊢
        omega
      · simp only [List.mem_append, late, or_false, decide_false, Bool.false_eq_true, if_false]
          at ih ⊢
        omega

/-- The nodes that remain and have no dependency outstanding. -/
def layer (graph : Graph α) (emitted remaining : List α) : List α :=
  remaining.filter fun node => graph.outstanding emitted node = 0

theorem Layered.step (layered : graph.Layered emitted remaining)
    (ready : next.Perm (graph.layer emitted remaining)) :
    graph.Layered (emitted ++ next) (remaining.filter fun node => node ∉ next) := by
  have others : remaining.filter (fun node => node ∉ next) =
      remaining.filter fun node => !decide (graph.outstanding emitted node = 0) := by
    apply List.filter_congr
    intro node inside
    have same : node ∈ next ↔ graph.outstanding emitted node = 0 := by
      simp [ready.mem_iff, layer, inside]
    simp [same]
  constructor
  · rw [others, List.append_assoc]
    refine List.Perm.trans (.append_left emitted ?_) layered.whole
    exact (ready.append_right _).trans (List.filter_append_perm _ _)
  · apply layered.ordered.append
    intro node inside
    have settled := (List.mem_filter.mp (ready.mem_iff.mp inside)).2
    exact outstanding_eq_zero.mp (of_decide_eq_true settled)

/-- Without a cycle, some node that remains is ready. -/
theorem Layered.progress (layered : graph.Layered emitted remaining) (acyclic : graph.Acyclic)
    (some_ : remaining ≠ []) : graph.layer emitted remaining ≠ [] := by
  obtain ⟨node, inside⟩ := List.exists_mem_of_ne_nil _ some_
  have among : ∀ node, node ∈ emitted ++ remaining ↔ node ∈ graph.nodes :=
    fun node => layered.whole.mem_iff
  obtain ⟨least, remains, minimal⟩ := acyclic.exists_minimal (· ∈ remaining)
    (fun node stuck => (among node).mp (List.mem_append_right _ stuck)) inside
  have settled : graph.outstanding emitted least = 0 := by
    rw [outstanding_eq_zero]
    intro dep listed
    have known := graph.closed least ((among least).mp (List.mem_append_right _ remains)) dep listed
    rcases List.mem_append.mp ((among dep).mpr known) with early | late
    · exact early
    · exact absurd late (minimal dep listed)
  exact List.ne_nil_of_mem (List.mem_filter.mpr ⟨remains, decide_eq_true settled⟩)

end Layers

section Levels

/-- How long the chains of dependencies below a node are, as far as the fuel lasts. -/
def depth (deps : α → List α) : Nat → α → Nat
  | 0, _ => 0
  | fuel + 1, node => ((deps node).map fun dep => depth deps fuel dep + 1).foldr max 0

theorem depth_le {deps : α → List α} {fuel bound : Nat} :
    depth deps (fuel + 1) node ≤ bound ↔ ∀ dep ∈ deps node, depth deps fuel dep < bound := by
  rw [depth]
  induction deps node with
  | nil => simp
  | cons dep rest ih => simp [ih]

/-- The fuel is enough where it is as much as there is before a node. -/
theorem Ordered.depth_stable {order : List α} (ordered : graph.Ordered order) {fuel : Nat}
    {front back : List α} (split : order = front ++ node :: back) (enough : front.length ≤ fuel) :
    depth graph.deps fuel node = depth graph.deps (fuel + 1) node := by
  induction fuel generalizing node front back with
  | zero =>
      have first : front = [] := List.length_eq_zero_iff.mp (Nat.le_zero.mp enough)
      have none_ : graph.deps node = [] := by
        apply List.eq_nil_iff_forall_not_mem.mpr
        intro dep listed
        have early := ordered front node back split dep listed
        rw [first] at early
        cases early
      simp [depth, none_]
  | succ fuel ih =>
      have same : ∀ dep ∈ graph.deps node,
          depth graph.deps fuel dep = depth graph.deps (fuel + 1) dep := by
        intro dep listed
        obtain ⟨before, between, rfl⟩ := List.append_of_mem (ordered front node back split dep listed)
        have splitToo : order = before ++ dep :: (between ++ node :: back) := by simpa using split
        apply ih splitToo
        rw [List.length_append, List.length_cons] at enough
        omega
      rw [depth, depth]
      congr 1
      apply List.map_congr_left
      intro dep listed
      rw [same dep listed]

/-- A node is one level above the highest of its dependencies. -/
def Levels (graph : Graph α) (level : α → Nat) : Prop :=
  ∀ node ∈ graph.nodes, ∀ bound, level node ≤ bound ↔ ∀ dep ∈ graph.deps node, level dep < bound

theorem Layered.levels (layered : graph.Layered emitted []) :
    graph.Levels (depth graph.deps graph.nodes.length) := by
  have whole := layered.whole
  rw [List.append_nil] at whole
  intro node member bound
  obtain ⟨front, back, split⟩ := List.append_of_mem (whole.mem_iff.mpr member)
  have enough : front.length ≤ graph.nodes.length := by
    rw [← whole.length_eq, split, List.length_append]
    omega
  rw [layered.ordered.depth_stable split enough, depth_le]

variable [LinearOrder α] {level : α → Nat} {order : List α}

/-- The order of levels, and of the nodes themselves on a level. -/
def Before (level : α → Nat) (one two : α) : Prop :=
  level one < level two ∨ level one = level two ∧ one < two

instance (level : α → Nat) : DecidableRel (Before level) := fun one two =>
  inferInstanceAs (Decidable (level one < level two ∨ level one = level two ∧ one < two))

theorem Before.asymm {one two : α} (before : Before level one two) : ¬ Before level two one := by
  rintro (less | ⟨same, below⟩)
  · rcases before with other | ⟨same, _⟩ <;> omega
  · rcases before with other | ⟨_, above⟩
    · omega
    · exact lt_asymm below above

/-- What was emitted is sorted, and what remains is on a higher level. -/
def Leveled (level : α → Nat) (emitted remaining : List α) : Prop :=
  ∃ bound, (∀ node ∈ emitted, level node < bound) ∧ (∀ node ∈ remaining, bound ≤ level node) ∧
    emitted.Pairwise (Before level)

theorem Leveled.start (nodes : List α) : Leveled level [] nodes :=
  ⟨0, by simp, fun _ _ => Nat.zero_le _, .nil⟩

theorem Leveled.step (leveled : Leveled level emitted remaining) (levels : graph.Levels level)
    (layered : graph.Layered emitted remaining) :
    Leveled level (emitted ++ (graph.layer emitted remaining).mergeSort (· ≤ ·))
      (remaining.filter fun node =>
        node ∉ (graph.layer emitted remaining).mergeSort (· ≤ ·)) := by
  obtain ⟨bound, low, high, sorted⟩ := leveled
  have among : ∀ node, node ∈ emitted ++ remaining ↔ node ∈ graph.nodes :=
    fun node => layered.whole.mem_iff
  -- a layer is the level that is next
  have ready : ∀ node ∈ graph.layer emitted remaining, level node = bound := by
    intro node inside
    obtain ⟨remains, settled⟩ := List.mem_filter.mp inside
    have early := outstanding_eq_zero.mp (of_decide_eq_true settled)
    have member := (among node).mp (List.mem_append_right _ remains)
    apply Nat.le_antisymm
    · exact (levels node member bound).mpr fun dep listed => low dep (early dep listed)
    · exact high node remains
  have later : ∀ node ∈ remaining, node ∉ graph.layer emitted remaining → bound < level node := by
    intro node remains stays
    have member := (among node).mp (List.mem_append_right _ remains)
    have late : ∃ dep ∈ graph.deps node, dep ∉ emitted := by
      by_contra none_
      push Not at none_
      exact stays (List.mem_filter.mpr
        ⟨remains, decide_eq_true (outstanding_eq_zero.mpr none_)⟩)
    obtain ⟨dep, listed, absent⟩ := late
    have waits : dep ∈ remaining := by
      rcases List.mem_append.mp ((among dep).mpr (graph.closed node member dep listed)) with
        early | late
      · exact absurd early absent
      · exact late
    have above := (levels node member _).mp (Nat.le_refl _) dep listed
    exact Nat.lt_of_le_of_lt (high dep waits) above
  refine ⟨bound + 1, ?_, ?_, List.pairwise_append.mpr ⟨sorted, ?_, ?_⟩⟩
  · intro node inside
    rcases List.mem_append.mp inside with early | now
    · exact Nat.lt_succ_of_lt (low node early)
    · rw [ready node (List.mem_mergeSort.mp now)]
      exact Nat.lt_succ_self _
  · intro node inside
    obtain ⟨remains, stays⟩ := List.mem_filter.mp inside
    rw [decide_eq_true_eq, List.mem_mergeSort] at stays
    exact later node remains stays
  · have ascending := List.pairwise_mergeSort' (· ≤ ·) (graph.layer emitted remaining)
    have distinct : ((graph.layer emitted remaining).mergeSort (· ≤ ·)).Nodup := by
      rw [(List.mergeSort_perm _ _).nodup_iff]
      exact (List.nodup_append.mp layered.distinct).2.1.filter _
    refine (ascending.and distinct).imp_of_mem ?_
    rintro one two first second ⟨below, differ⟩
    have same := ready one (List.mem_mergeSort.mp first)
    have sameToo := ready two (List.mem_mergeSort.mp second)
    exact .inr ⟨same.trans sameToo.symm, lt_of_le_of_ne below differ⟩
  · intro node early other now
    refine .inl ?_
    rw [ready other (List.mem_mergeSort.mp now)]
    exact low node early

/-- In a sorted list, what is before a node is what precedes it. -/
theorem countP_before {front back : List α}
    (sorted : (front ++ node :: back).Pairwise (Before level)) :
    (front ++ node :: back).countP (fun other => Before level other node) = front.length := by
  obtain ⟨_, rest, cross⟩ := List.pairwise_append.mp sorted
  have own : ¬ Before level node node := fun before => before.asymm before
  have ahead : front.countP (fun other => Before level other node) = front.length := by
    apply List.countP_eq_length.mpr
    intro other inside
    exact decide_eq_true (cross other inside node List.mem_cons_self)
  have behind : back.countP (fun other => Before level other node) = 0 := by
    apply List.countP_eq_zero.mpr
    intro other inside before
    exact ((List.pairwise_cons.mp rest).1 other inside).asymm (of_decide_eq_true before)
  rw [List.countP_append, List.countP_cons, ahead, behind]
  simp [own]

end Levels

end NixRedox.Kahn.Graph
