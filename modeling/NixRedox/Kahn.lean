import Mathlib

set_option autoImplicit false

/- Kahn's algorithm on a finite graph given by the dependencies of its nodes: a node is
queued once none of its dependencies is outstanding. Nothing here knows what a node is. -/
namespace NixRedox.Kahn

open Relation (TransGen)

variable {α : Type}

/-- A node may list a dependency more than once. -/
structure Graph (α : Type) where
  nodes : List α
  deps : α → List α
  distinct : nodes.Nodup
  closed : ∀ node ∈ nodes, ∀ dep ∈ deps node, dep ∈ nodes

namespace Graph

def DependsOn (graph : Graph α) (node dep : α) : Prop := dep ∈ graph.deps node

def Acyclic (graph : Graph α) : Prop :=
  ∀ node ∈ graph.nodes, ¬ TransGen graph.DependsOn node node

/-- Every node comes after all of its dependencies. -/
def Ordered (graph : Graph α) (order : List α) : Prop :=
  ∀ front node back, order = front ++ node :: back → ∀ dep ∈ graph.deps node, dep ∈ front

variable {graph : Graph α} {node : α}

theorem Ordered.concat {emitted : List α} (ordered : graph.Ordered emitted)
    (settled : ∀ dep ∈ graph.deps node, dep ∈ emitted) : graph.Ordered (emitted ++ [node]) := by
  intro front last back same dep member
  rcases List.eq_nil_or_concat' back with rfl | ⟨back, final, rfl⟩
  · obtain ⟨rfl, ends⟩ := List.append_inj' same rfl
    rw [← (List.cons.inj ends).1] at member
    exact settled dep member
  · rw [← List.cons_append, ← List.append_assoc] at same
    exact ordered front last back (List.append_inj' same rfl).1 dep member

/-- In an ordered list, whatever a node depends on directly or not comes before it. -/
theorem Ordered.transGen {order front back : List α} (ordered : graph.Ordered order)
    (split : order = front ++ node :: back) {dep : α}
    (depends : TransGen graph.DependsOn node dep) : dep ∈ front := by
  induction depends with
  | single direct => exact ordered front node back split _ direct
  | tail _ direct ih =>
      obtain ⟨before, between, rfl⟩ := List.append_of_mem ih
      have earlier := ordered before _ (between ++ node :: back) (by simpa using split) _ direct
      exact List.mem_append_left _ earlier

theorem Ordered.acyclic {order : List α} (ordered : graph.Ordered order)
    (distinct : order.Nodup) (whole : ∀ node ∈ graph.nodes, node ∈ order) : graph.Acyclic := by
  intro node member cycle
  obtain ⟨front, back, split⟩ := List.append_of_mem (whole node member)
  have before := ordered.transGen split cycle
  rw [split, List.nodup_append] at distinct
  exact distinct.2.2 node before node List.mem_cons_self rfl

/-- Without a cycle, some node of a non-empty set depends on none of the others. -/
theorem Acyclic.exists_minimal (acyclic : graph.Acyclic) (stuck : α → Prop)
    (inside : ∀ node, stuck node → node ∈ graph.nodes) (member : stuck node) :
    ∃ least, stuck least ∧ ∀ dep ∈ graph.deps least, ¬ stuck dep := by
  let before : {node // node ∈ graph.nodes} → {node // node ∈ graph.nodes} → Prop :=
    fun dep node => TransGen graph.DependsOn node.1 dep.1
  have finite : Finite {node // node ∈ graph.nodes} := (List.finite_toSet graph.nodes).to_subtype
  have transitive : IsTrans _ before := ⟨fun _ _ _ first second => second.trans first⟩
  have irreflexive : Std.Irrefl before := ⟨fun node => acyclic node.1 node.2⟩
  have founded : WellFounded before := Finite.wellFounded_of_trans_of_irrefl before
  obtain ⟨⟨least, own⟩, isStuck, minimal⟩ :=
    founded.has_min {node | stuck node.1} ⟨⟨node, inside node member⟩, member⟩
  refine ⟨least, isStuck, ?_⟩
  intro dep listed stuckDep
  exact minimal ⟨dep, inside dep stuckDep⟩ stuckDep (.single listed)

variable [DecidableEq α]

/-- The dependencies not emitted yet, each as often as it is listed. -/
def outstanding (graph : Graph α) (emitted : List α) (node : α) : Nat :=
  (graph.deps node).countP (· ∉ emitted)

variable {emitted queue next : List α} {other : α}

theorem outstanding_nil : graph.outstanding [] node = (graph.deps node).length := by
  simp [outstanding]

theorem outstanding_eq_zero :
    graph.outstanding emitted node = 0 ↔ ∀ dep ∈ graph.deps node, dep ∈ emitted := by
  simp [outstanding, List.countP_eq_zero]

/-- Emitting a node settles it wherever it is listed. -/
theorem outstanding_emit (fresh : node ∉ emitted) :
    graph.outstanding emitted other =
      graph.outstanding (emitted ++ [node]) other + (graph.deps other).count node := by
  unfold outstanding
  induction graph.deps other with
  | nil =>
      rfl
  | cons dep rest ih =>
      rw [List.countP_cons, List.countP_cons, List.count_cons, ih]
      by_cases same : dep = node
      · subst same
        simp only [fresh, not_false_eq_true, decide_true, List.mem_append, List.mem_singleton,
          or_true, not_true_eq_false, decide_false, beq_self_eq_true, ↓reduceIte,
          Bool.false_eq_true]
        omega
      · have elsewhere : (dep == node) = false := by simpa using same
        simp only [List.mem_append, List.mem_singleton, same, or_false, elsewhere,
          Bool.false_eq_true, ↓reduceIte]
        omega

/-- What has been emitted is in order, and what has been emitted or queued are the nodes
that have no dependency outstanding. -/
structure Invariant (graph : Graph α) (emitted queue : List α) : Prop where
  distinct : (emitted ++ queue).Nodup
  ready : ∀ node, node ∈ emitted ++ queue ↔
    node ∈ graph.nodes ∧ graph.outstanding emitted node = 0
  ordered : graph.Ordered emitted

theorem Invariant.start (distinct : queue.Nodup)
    (ready : ∀ node, node ∈ queue ↔ node ∈ graph.nodes ∧ graph.outstanding [] node = 0) :
    graph.Invariant [] queue where
  distinct := distinct
  ready := ready
  ordered := by
    intro front node back same
    exact absurd same.symm (by simp)

/-- Emitting the head of the queue and queueing the nodes it has been the last outstanding
dependency of. -/
theorem Invariant.step (inv : graph.Invariant emitted (node :: queue)) (distinct : next.Nodup)
    (freed : ∀ other, other ∈ next ↔ other ∈ graph.nodes ∧
      graph.outstanding emitted other ≠ 0 ∧ graph.outstanding (emitted ++ [node]) other = 0) :
    graph.Invariant (emitted ++ [node]) (queue ++ next) := by
  have whole : emitted ++ [node] ++ (queue ++ next) = (emitted ++ node :: queue) ++ next := by
    simp
  have fresh : node ∉ emitted := by
    have apart := (List.nodup_append.mp inv.distinct).2.2
    intro member
    exact apart node member node List.mem_cons_self rfl
  have less : ∀ other, graph.outstanding (emitted ++ [node]) other ≤
      graph.outstanding emitted other := by
    intro other
    rw [outstanding_emit fresh]
    exact Nat.le_add_right _ _
  refine ⟨?_, ?_, ?_⟩
  · rw [whole, List.nodup_append]
    refine ⟨inv.distinct, distinct, ?_⟩
    rintro other early _ late rfl
    exact ((freed other).mp late).2.1 ((inv.ready other).mp early).2
  · intro other
    rw [whole, List.mem_append, inv.ready, freed]
    constructor
    · rintro (⟨member, settled⟩ | ⟨member, _, settled⟩)
      · exact ⟨member, Nat.le_zero.mp (settled ▸ less other)⟩
      · exact ⟨member, settled⟩
    · intro ⟨member, settled⟩
      by_cases before : graph.outstanding emitted other = 0
      · exact .inl ⟨member, before⟩
      · exact .inr ⟨member, before, settled⟩
  · apply inv.ordered.concat
    have settled := ((inv.ready node).mp (List.mem_append_right _ List.mem_cons_self)).2
    exact outstanding_eq_zero.mp settled

/-- There is never more emitted and queued than there are nodes. -/
theorem Invariant.length_le (inv : graph.Invariant emitted queue) :
    emitted.length + queue.length ≤ graph.nodes.length := by
  rw [← List.length_append]
  apply List.Subperm.length_le
  apply List.subperm_of_subset inv.distinct
  intro node member
  exact ((inv.ready node).mp member).1

theorem Invariant.perm (inv : graph.Invariant emitted [])
    (whole : emitted.length = graph.nodes.length) : emitted.Perm graph.nodes := by
  have distinct := inv.distinct
  rw [List.append_nil] at distinct
  have inside : emitted ⊆ graph.nodes := by
    intro node member
    exact ((inv.ready node).mp (List.mem_append_left _ member)).1
  exact (List.subperm_of_subset distinct inside).perm_of_length_le (Nat.le_of_eq whole.symm)

/-- If the queue runs empty without a cycle, all nodes have been emitted. -/
theorem Invariant.whole_of_acyclic (inv : graph.Invariant emitted []) (acyclic : graph.Acyclic) :
    ∀ node ∈ graph.nodes, node ∈ emitted := by
  by_contra some_
  push Not at some_
  obtain ⟨node, member, missing⟩ := some_
  obtain ⟨least, ⟨own, absent⟩, settled⟩ :=
    acyclic.exists_minimal (fun node => node ∈ graph.nodes ∧ node ∉ emitted)
      (fun _ stuck => stuck.1) ⟨member, missing⟩
  apply absent
  have ready := (inv.ready least).mpr ⟨own, outstanding_eq_zero.mpr ?_⟩
  · rwa [List.append_nil] at ready
  · intro dep listed
    by_contra late
    exact settled dep listed ⟨graph.closed least own dep listed, late⟩

end Graph

end NixRedox.Kahn
