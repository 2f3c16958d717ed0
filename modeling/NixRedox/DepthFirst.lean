import NixRedox.GraphSearch

set_option autoImplicit false

/- Depth-first search that lists the nodes it reaches, children first, with an
expansion that may fail. Nothing here knows what a node is. -/
namespace NixRedox.DepthFirst

open GraphSearch (Reach unvisited unvisited_cons_lt)

variable {α ε : Type}

/-- The nodes met so far, and the finished ones with the latest at the end. -/
structure Search (α : Type) where
  visited : List α
  order : List α

/-- Visit nodes one after the other, as long as nothing fails. -/
def visitEach (visit : Search α → α → Option (Except ε (Search α))) (search : Search α) :
    List α → Option (Except ε (Search α))
  | [] => some (.ok search)
  | node :: rest =>
      match visit search node with
      | none => none
      | some (.error reason) => some (.error reason)
      | some (.ok next) => visitEach visit next rest

/-- What a visit adds: nothing is lost, and every node that is new has been expanded,
with all its children visited, and is listed. -/
structure Extends (expand : α → Except ε (List α)) (search after : Search α) : Prop where
  kept : ∀ node ∈ search.visited, node ∈ after.visited
  listed : ∀ node ∈ search.order, node ∈ after.order
  closed : ∀ node ∈ after.visited, node ∈ search.visited ∨
    (node ∈ after.order ∧ ∃ children, expand node = .ok children ∧
      ∀ child ∈ children, child ∈ after.visited)

namespace Extends

variable {expand : α → Except ε (List α)} {search middle after : Search α}

theorem refl : Extends expand search search where
  kept := fun _ member => member
  listed := fun _ member => member
  closed := fun _ member => .inl member

theorem trans (first : Extends expand search middle) (second : Extends expand middle after) :
    Extends expand search after where
  kept := fun node member => second.kept node (first.kept node member)
  listed := fun node member => second.listed node (first.listed node member)
  closed := by
    intro node member
    rcases second.closed node member with early | late
    · rcases first.closed node early with start | ⟨ordered, children, expanded, inside⟩
      · exact .inl start
      · refine .inr ⟨second.listed node ordered, children, expanded, ?_⟩
        intro child isChild
        exact second.kept child (inside child isChild)
    · exact .inr late

end Extends

theorem visitEach_ok {expand : α → Except ε (List α)}
    {visitOne : Search α → α → Option (Except ε (Search α))}
    (one : ∀ search node after, visitOne search node = some (.ok after) →
      Extends expand search after ∧ node ∈ after.visited)
    {nodes : List α} {search after : Search α}
    (success : visitEach visitOne search nodes = some (.ok after)) :
    Extends expand search after ∧ ∀ node ∈ nodes, node ∈ after.visited := by
  induction nodes generalizing search with
  | nil =>
      cases success
      exact ⟨.refl, by simp⟩
  | cons node rest ih =>
      unfold visitEach at success
      split at success
      · cases success
      · cases success
      · rename_i next visited
        have head := one search node next visited
        have tail := ih success
        refine ⟨head.1.trans tail.1, ?_⟩
        intro other member
        rcases List.mem_cons.mp member with rfl | later
        · exact tail.1.kept other head.2
        · exact tail.2 other later

/-- What visits list beyond the start satisfies what each of them lists. -/
theorem visitEach_lists {property : α → Prop}
    {visitOne : Search α → α → Option (Except ε (Search α))} {nodes : List α}
    (one : ∀ node ∈ nodes, ∀ search after, visitOne search node = some (.ok after) →
      ∀ other ∈ after.order, other ∈ search.order ∨ property other)
    {search after : Search α}
    (success : visitEach visitOne search nodes = some (.ok after)) :
    ∀ other ∈ after.order, other ∈ search.order ∨ property other := by
  induction nodes generalizing search with
  | nil =>
      cases success
      exact fun _ member => .inl member
  | cons node rest ih =>
      unfold visitEach at success
      split at success
      · cases success
      · cases success
      · rename_i next visited
        intro other member
        have tail := ih (fun node member => one node (List.mem_cons_of_mem _ member)) success
        rcases tail other member with early | late
        · exact one node List.mem_cons_self search next visited other early
        · exact .inr late

theorem visitEach_terminates {visitOne : Search α → α → Option (Except ε (Search α))}
    (cost : Search α → Nat) (bound : Nat)
    (ends : ∀ search node, cost search < bound → (visitOne search node).isSome)
    (cheaper : ∀ search node after, visitOne search node = some (.ok after) →
      cost after ≤ cost search)
    (nodes : List α) (search : Search α) (enough : cost search < bound) :
    (visitEach visitOne search nodes).isSome := by
  induction nodes generalizing search with
  | nil => rfl
  | cons node rest ih =>
      unfold visitEach
      have some_ := ends search node enough
      split
      · rename_i stuck
        rw [stuck] at some_
        cases some_
      · rfl
      · rename_i next visited
        exact ih next (Nat.lt_of_le_of_lt (cheaper search node next visited) enough)

variable [DecidableEq α]

/-- Visit a node and what it leads to. `none` means that the fuel ran out. -/
def visit (expand : α → Except ε (List α)) :
    Nat → Search α → α → Option (Except ε (Search α))
  | 0, _, _ => none
  | fuel + 1, search, node =>
      if node ∈ search.visited then
        some (.ok search)
      else
        match expand node with
        | .error reason => some (.error reason)
        | .ok children =>
            match visitEach (visit expand fuel)
                { search with visited := node :: search.visited } children with
            | none => none
            | some (.error reason) => some (.error reason)
            | some (.ok after) => some (.ok { after with order := after.order ++ [node] })

/-- The edges of a node that can be expanded. -/
def edges (expand : α → Except ε (List α)) (node : α) : Option (List α) :=
  (expand node).toOption

theorem visit_ok {expand : α → Except ε (List α)} (fuel : Nat) (search : Search α) (node : α)
    (after : Search α) (success : visit expand fuel search node = some (.ok after)) :
    Extends expand search after ∧ node ∈ after.visited := by
  induction fuel generalizing search node after with
  | zero => cases success
  | succ fuel ih =>
      unfold visit at success
      split at success
      · rename_i seen
        cases success
        exact ⟨.refl, seen⟩
      · split at success
        · cases success
        · rename_i children expanded
          split at success
          · cases success
          · cases success
          · rename_i last visited
            cases success
            obtain ⟨grown, inside⟩ := visitEach_ok ih visited
            have self : node ∈ last.visited := grown.kept node List.mem_cons_self
            refine ⟨⟨?_, ?_, ?_⟩, self⟩
            · intro other member
              exact grown.kept other (List.mem_cons_of_mem _ member)
            · intro other member
              exact List.mem_append_left _ (grown.listed other member)
            · intro other member
              rcases grown.closed other member with early | ⟨ordered, known⟩
              · rcases List.mem_cons.mp early with rfl | before
                · exact .inr ⟨by simp, children, expanded, inside⟩
                · exact .inl before
              · exact .inr ⟨List.mem_append_left _ ordered, known⟩

/-- A visit lists nothing but what can be reached from its node. -/
theorem visit_lists {expand : α → Except ε (List α)} (fuel : Nat) (search : Search α) (node : α)
    (after : Search α) (success : visit expand fuel search node = some (.ok after)) :
    ∀ other ∈ after.order, other ∈ search.order ∨ Reach (edges expand) node other := by
  induction fuel generalizing search node after with
  | zero => cases success
  | succ fuel ih =>
      unfold visit at success
      split at success
      · cases success
        exact fun _ member => .inl member
      · split at success
        · cases success
        · rename_i children expanded
          have edge : edges expand node = some children := by
            rw [edges, expanded]
            rfl
          split at success
          · cases success
          · cases success
          · rename_i last visited
            cases success
            have one : ∀ child ∈ children, ∀ search after,
                visit expand fuel search child = some (.ok after) → ∀ other ∈ after.order,
                other ∈ search.order ∨ Reach (edges expand) node other := by
              intro child isChild search after found other member
              rcases ih search child after found other member with early | below
              · exact .inl early
              · exact .inr (.trans (.step .refl edge isChild) below)
            intro other member
            rcases List.mem_append.mp member with early | own
            · exact visitEach_lists one visited other early
            · rw [List.mem_singleton.mp own]
              exact .inr .refl

/-- A search from nothing lists everything that can be reached. -/
theorem mem_order_of_reach {expand : α → Except ε (List α)} {fuel : Nat} {root node : α}
    {after : Search α} (success : visit expand fuel ⟨[], []⟩ root = some (.ok after))
    (reached : Reach (edges expand) root node) : node ∈ after.order := by
  obtain ⟨grown, start⟩ := visit_ok fuel _ root after success
  have whole : ∀ other ∈ after.visited, other ∈ after.order ∧ ∃ children,
      expand other = .ok children ∧ ∀ child ∈ children, child ∈ after.visited := by
    intro other member
    rcases grown.closed other member with impossible | known
    · cases impossible
    · exact known
  have visited : node ∈ after.visited := by
    refine reached.mem_of_closed (· ∈ after.visited) start ?_
    intro parent children inside expanded child isChild
    obtain ⟨-, listed, own, below⟩ := whole parent inside
    have same : listed = children := by
      rw [edges, own] at expanded
      exact Option.some.inj expanded
    exact below child (same ▸ isChild)
  exact (whole node visited).1

theorem unvisited_mono (nodes : List α) {fewer more : List α}
    (kept : ∀ node ∈ fewer, node ∈ more) : unvisited nodes more ≤ unvisited nodes fewer := by
  unfold unvisited
  apply List.Sublist.length_le
  apply List.monotone_filter_right
  intro node fresh
  simp only [decide_eq_true_eq] at fresh ⊢
  exact fun seen => fresh (kept node seen)

/-- More fuel than there are nodes to expand ends the search. -/
theorem visit_terminates {expand : α → Except ε (List α)} (nodes : List α)
    (known : ∀ node children, expand node = .ok children → node ∈ nodes)
    (fuel : Nat) (search : Search α) (node : α)
    (enough : unvisited nodes search.visited < fuel) :
    (visit expand fuel search node).isSome := by
  induction fuel generalizing search node with
  | zero => omega
  | succ fuel ih =>
      unfold visit
      split
      · rfl
      · rename_i fresh
        split
        · rfl
        · rename_i children expanded
          have fewer := unvisited_cons_lt (known node children expanded) fresh
          have ended := visitEach_terminates (fun search => unvisited nodes search.visited) fuel ih
            (fun search node after success =>
              unvisited_mono nodes (visit_ok fuel search node after success).1.kept)
            children { search with visited := node :: search.visited } (by
              show unvisited nodes (node :: search.visited) < fuel
              omega)
          split
          · rename_i stuck
            rw [stuck] at ended
            cases ended
          · rfl
          · rfl

end NixRedox.DepthFirst
