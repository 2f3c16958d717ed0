import NixRedox.DepthFirst
import Mathlib

set_option autoImplicit false

/- When a depth-first search succeeds, and what its list then is: each reachable node once,
behind its children where no node reaches itself. -/
namespace NixRedox.DepthFirst

open GraphSearch (Complete Reach)
open Relation (TransGen)

variable {α ε : Type}

/-- An edge of the graph that is searched. -/
def Edge (expand : α → Except ε (List α)) (parent child : α) : Prop :=
  ∃ children, expand parent = .ok children ∧ child ∈ children

/-- No node leads back to itself. -/
def Acyclic (expand : α → Except ε (List α)) : Prop := ∀ node, ¬ TransGen (Edge expand) node node

/-- Every node stands behind its children. -/
def Ordered (expand : α → Except ε (List α)) (order : List α) : Prop :=
  ∀ front node back, order = front ++ node :: back → ∀ child, Edge expand node child → child ∈ front

section Graph

variable {expand : α → Except ε (List α)}

theorem edges_eq_some {node : α} {children : List α} :
    edges expand node = some children ↔ expand node = .ok children := by
  unfold edges
  cases expand node with
  | error reason => simp [Except.toOption]
  | ok own => simp [Except.toOption]

theorem Ordered.append {order : List α} {last : α} (ordered : Ordered expand order)
    (below : ∀ child, Edge expand last child → child ∈ order) :
    Ordered expand (order ++ [last]) := by
  intro front node back split child edge
  rcases List.append_eq_append_iff.mp split with ⟨middle, rfl, own⟩ | ⟨middle, rfl, own⟩
  · cases middle with
    | nil =>
        obtain ⟨rfl, _⟩ := List.cons.inj own
        simpa using below child edge
    | cons first rest => simp at own
  · cases middle with
    | nil =>
        obtain ⟨rfl, _⟩ := List.cons.inj own
        simpa using below child edge
    | cons first rest =>
        obtain ⟨rfl, rfl⟩ := List.cons.inj own
        exact ordered front node rest rfl child edge

end Graph

/-- What has been met and is not finished leads to the node that is visited next. -/
def Waiting (expand : α → Except ε (List α)) (search : Search α) (node : α) : Prop :=
  ∀ other ∈ search.visited, other ∈ search.order ∨ TransGen (Edge expand) other node

/-- The finished nodes are among those met, each once, behind their children. -/
structure Sorted (expand : α → Except ε (List α)) (search : Search α) : Prop where
  met : ∀ node ∈ search.order, node ∈ search.visited
  once : search.order.Nodup
  ordered : Ordered expand search.order

/-- A node that is finished later has been met later. -/
def Fresh (search after : Search α) : Prop :=
  ∀ node ∈ after.order, node ∈ search.order ∨ node ∉ search.visited

section Each

variable {expand : α → Except ε (List α)} {visitOne : Search α → α → Option (Except ε (Search α))}

theorem Waiting.extended {search after : Search α} {node : α}
    (waiting : Waiting expand search node) (grown : Extends expand search after) :
    Waiting expand after node := by
  intro other met
  rcases grown.closed other met with early | ⟨listed, _⟩
  · rcases waiting other early with finished | leads
    · exact .inl (grown.listed other finished)
    · exact .inr leads
  · exact .inl listed

/-- Visits one after the other keep what each of them keeps, and finish all nodes. -/
theorem visitEach_sorted
    (extended : ∀ search node after, visitOne search node = some (.ok after) →
      Extends expand search after ∧ node ∈ after.visited)
    (one : ∀ search node after, visitOne search node = some (.ok after) → Sorted expand search →
      Waiting expand search node → Sorted expand after ∧ node ∈ after.order)
    {nodes : List α} {search after : Search α}
    (success : visitEach visitOne search nodes = some (.ok after)) (sorted : Sorted expand search)
    (waiting : ∀ node ∈ nodes, Waiting expand search node) :
    Sorted expand after ∧ ∀ node ∈ nodes, node ∈ after.order := by
  induction nodes generalizing search with
  | nil =>
      cases success
      exact ⟨sorted, by simp⟩
  | cons node rest ih =>
      unfold visitEach at success
      split at success
      · cases success
      · cases success
      · rename_i next visited
        have grown := (extended search node next visited).1
        obtain ⟨nextSorted, finished⟩ :=
          one search node next visited sorted (waiting node List.mem_cons_self)
        obtain ⟨afterSorted, others⟩ := ih success nextSorted
          (fun other behind => (waiting other (List.mem_cons_of_mem _ behind)).extended grown)
        refine ⟨afterSorted, ?_⟩
        intro other inside
        rcases List.mem_cons.mp inside with rfl | behind
        · exact (visitEach_ok extended success).1.listed other finished
        · exact others other behind

theorem visitEach_fresh
    (extended : ∀ search node after, visitOne search node = some (.ok after) →
      Extends expand search after ∧ node ∈ after.visited)
    (one : ∀ search node after, visitOne search node = some (.ok after) → Fresh search after)
    {nodes : List α} {search after : Search α}
    (success : visitEach visitOne search nodes = some (.ok after)) : Fresh search after := by
  induction nodes generalizing search with
  | nil =>
      cases success
      exact fun _ listed => .inl listed
  | cons node rest ih =>
      unfold visitEach at success
      split at success
      · cases success
      · cases success
      · rename_i next visited
        intro other listed
        rcases ih success other listed with early | late
        · exact one search node next visited other early
        · exact .inr (fun met => late ((extended search node next visited).1.kept other met))

/-- A failure is the failure of one of the visits. -/
theorem visitEach_error {failed : ε → Prop} {nodes : List α}
    (one : ∀ node ∈ nodes, ∀ search reason, visitOne search node = some (.error reason) →
      failed reason)
    {search : Search α} {reason : ε}
    (stopped : visitEach visitOne search nodes = some (.error reason)) : failed reason := by
  induction nodes generalizing search with
  | nil => cases stopped
  | cons node rest ih =>
      unfold visitEach at stopped
      split at stopped
      · cases stopped
      · rename_i visited
        cases stopped
        exact one node List.mem_cons_self search reason visited
      · exact ih (fun other behind => one other (List.mem_cons_of_mem _ behind)) stopped

end Each

section Visit

variable [DecidableEq α] {expand : α → Except ε (List α)}

theorem visit_fresh (fuel : Nat) (search : Search α) (node : α) (after : Search α)
    (success : visit expand fuel search node = some (.ok after)) : Fresh search after := by
  induction fuel generalizing search node after with
  | zero => cases success
  | succ fuel ih =>
      unfold visit at success
      split at success
      · cases success
        exact fun _ listed => .inl listed
      · rename_i unmet
        split at success
        · cases success
        · split at success
          · cases success
          · cases success
          · rename_i last visited
            cases success
            have below := visitEach_fresh (visit_ok fuel) ih visited
            intro other listed
            rcases List.mem_append.mp listed with early | own
            · rcases below other early with before | late
              · exact .inl before
              · exact .inr (fun met => late (List.mem_cons_of_mem _ met))
            · exact .inr (List.mem_singleton.mp own ▸ unmet)

/-- In a graph without cycles, a visit keeps the finished nodes sorted and finishes its own. -/
theorem visit_sorted (acyclic : Acyclic expand) (fuel : Nat) (search : Search α) (node : α)
    (after : Search α) (success : visit expand fuel search node = some (.ok after))
    (sorted : Sorted expand search) (waiting : Waiting expand search node) :
    Sorted expand after ∧ node ∈ after.order := by
  induction fuel generalizing search node after with
  | zero => cases success
  | succ fuel ih =>
      unfold visit at success
      split at success
      · rename_i met
        cases success
        refine ⟨sorted, ?_⟩
        rcases waiting node met with finished | circle
        · exact finished
        · exact absurd circle (acyclic node)
      · rename_i unmet
        split at success
        · cases success
        · rename_i children expanded
          split at success
          · cases success
          · cases success
          · rename_i last visited
            cases success
            have start : Sorted expand { search with visited := node :: search.visited } :=
              ⟨fun other listed => List.mem_cons_of_mem _ (sorted.met other listed), sorted.once,
                sorted.ordered⟩
            have below : ∀ child ∈ children,
                Waiting expand { search with visited := node :: search.visited } child := by
              intro child isChild other met
              have edge : Edge expand node child := ⟨children, expanded, isChild⟩
              rcases List.mem_cons.mp met with rfl | early
              · exact .inr (.single edge)
              · rcases waiting other early with finished | leads
                · exact .inl finished
                · exact .inr (leads.tail edge)
            obtain ⟨lastSorted, finished⟩ := visitEach_sorted (visit_ok fuel) ih visited start below
            have own : node ∈ last.visited :=
              (visitEach_ok (visit_ok fuel) visited).1.kept node List.mem_cons_self
            have apart : node ∉ last.order := by
              intro listed
              rcases visitEach_fresh (visit_ok fuel) (visit_fresh fuel) visited node listed with
                early | late
              · exact unmet (sorted.met node early)
              · exact late List.mem_cons_self
            refine ⟨⟨?_, ?_, ?_⟩, by simp⟩
            · intro other listed
              rcases List.mem_append.mp listed with early | same
              · exact lastSorted.met other early
              · exact List.mem_singleton.mp same ▸ own
            · rw [List.nodup_append]
              refine ⟨lastSorted.once, List.nodup_singleton node, ?_⟩
              intro other early _ same
              rw [List.mem_singleton.mp same]
              rintro rfl
              exact apart early
            · refine lastSorted.ordered.append ?_
              rintro child ⟨own, same, isChild⟩
              rw [expanded, Except.ok.injEq] at same
              exact finished child (same ▸ isChild)

/-- A visit fails with the failure of a node that it reaches. -/
theorem visit_error (fuel : Nat) (search : Search α) (node : α) (reason : ε)
    (stopped : visit expand fuel search node = some (.error reason)) :
    ∃ other, Reach (edges expand) node other ∧ expand other = .error reason := by
  cases fuel with
  | zero => cases stopped
  | succ fuel =>
      unfold visit at stopped
      split at stopped
      · cases stopped
      · split at stopped
        · rename_i own failed
          cases stopped
          exact ⟨node, .refl, failed⟩
        · rename_i children expanded
          split at stopped
          · cases stopped
          · rename_i own visited
            cases stopped
            have below : ∀ child ∈ children, ∀ start why,
                visit expand fuel start child = some (.error why) →
                ∃ other, Reach (edges expand) node other ∧ expand other = .error why := by
              intro child isChild start why failed
              obtain ⟨other, reach, stuck⟩ := visit_error fuel start child why failed
              exact ⟨other, .trans (.step .refl (edges_eq_some.mpr expanded) isChild) reach, stuck⟩
            exact visitEach_error below visited
          · cases stopped

/-- A search from nothing that ends succeeds if and only if every reachable node can be
expanded. -/
theorem visit_ok_iff {fuel : Nat} {root : α}
    (ends : (visit expand fuel ⟨[], []⟩ root).isSome) :
    (∃ after, visit expand fuel ⟨[], []⟩ root = some (.ok after)) ↔
      Complete (edges expand) root := by
  constructor
  · rintro ⟨after, success⟩ node reached
    obtain ⟨grown, start⟩ := visit_ok fuel _ root after success
    have whole : ∀ other ∈ after.visited, ∃ children, expand other = .ok children ∧
        ∀ child ∈ children, child ∈ after.visited := by
      intro other met
      rcases grown.closed other met with impossible | ⟨_, known⟩
      · cases impossible
      · exact known
    have met : node ∈ after.visited := by
      refine reached.mem_of_closed (· ∈ after.visited) start ?_
      intro parent children inside expanded child isChild
      obtain ⟨listed, own, below⟩ := whole parent inside
      rw [edges_eq_some, own, Except.ok.injEq] at expanded
      exact below child (expanded ▸ isChild)
    obtain ⟨children, expanded, _⟩ := whole node met
    rw [edges_eq_some.mpr expanded]
    rfl
  · intro complete
    obtain ⟨result, found⟩ := Option.isSome_iff_exists.mp ends
    cases result with
    | ok after => exact ⟨after, found⟩
    | error reason =>
        obtain ⟨other, reached, stuck⟩ := visit_error fuel _ root reason found
        have some_ := complete other reached
        rw [edges, stuck] at some_
        cases some_

/-- The last node of a search from nothing is its root. -/
theorem visit_last {fuel : Nat} {root : α} {after : Search α}
    (success : visit expand fuel ⟨[], []⟩ root = some (.ok after)) :
    after.order.getLast? = some root := by
  cases fuel with
  | zero => cases success
  | succ fuel =>
      unfold visit at success
      split at success
      · rename_i met
        cases met
      · split at success
        · cases success
        · split at success
          · cases success
          · cases success
          · cases success
            exact List.getLast?_concat

end Visit

end NixRedox.DepthFirst
