import NixRedox.VirtioFsTree

set_option autoImplicit false

/- `resolve_path_hops` of `scheme.rs` with the list of components that it edits in place, and
what it finds on a host that shows a tree. -/
namespace NixRedox.VirtioFs

open Redox (Errno)

section Names

theorem pathNames_append (front back : List Char) :
    pathNames (front ++ '/' :: back) = pathNames front ++ pathNames back := by
  rw [pathNames, List.splitOn_append_cons_self, List.filter_append]
  rfl

@[simp] theorem pathNames_nil : pathNames [] = [] := rfl

theorem pathNames_flat {name : Name} (flat : '/' ∉ name) (named : name ≠ []) :
    pathNames name = [name] := by
  rw [pathNames, List.splitOn_eq_singleton flat, List.filter_cons_of_pos (by simpa using named),
    List.filter_nil]

theorem pathNames_trimStart (path : List Char) : pathNames (Text.trimStart path) = pathNames path := by
  induction path with
  | nil => rfl
  | cons letter rest ih =>
      by_cases slash : letter = '/'
      · have step : pathNames (letter :: rest) = pathNames rest := by
          rw [slash]
          exact pathNames_append [] rest
        rw [step, ← ih, Text.trimStart, List.dropWhile_cons_of_pos (by simpa using slash)]
        rfl
      · rw [Text.trimStart, List.dropWhile_cons_of_neg (by simpa using slash)]

theorem pathNames_trimEnd (path : List Char) : pathNames (Text.trimEnd path) = pathNames path := by
  induction path using List.reverseRecOn with
  | nil => rfl
  | append_singleton rest letter ih =>
      by_cases slash : letter = '/'
      · have step : pathNames (rest ++ [letter]) = pathNames rest := by
          rw [slash, pathNames_append rest [], pathNames_nil, List.append_nil]
        rw [step, ← ih, Text.trimEnd, List.rdropWhile_concat_pos _ _ _ (by simpa using slash)]
        rfl
      · rw [Text.trimEnd, List.rdropWhile_concat_neg _ _ _ (by simpa using slash)]

/-- Slashes around a path name nothing. -/
theorem pathNames_trimMatches (path : List Char) :
    pathNames (Text.trimMatches path) = pathNames path := by
  rw [Text.trimMatches, pathNames_trimEnd, pathNames_trimStart]

/-- A path is its parent and its last name. -/
theorem splitParent_eq (path : List Char) :
    '/' ∉ (splitParent path).2 ∧
      (('/' ∉ path ∧ splitParent path = ([], path)) ∨
        path = (splitParent path).1 ++ '/' :: (splitParent path).2) := by
  unfold splitParent
  split
  · rename_i inside
    have whole : path.rdropWhile (fun letter => decide (letter ≠ '/')) ++
        path.rtakeWhile (fun letter => decide (letter ≠ '/')) = path :=
      List.rdropWhile_append_rtakeWhile
    have nonempty : path.rdropWhile (fun letter => decide (letter ≠ '/')) ≠ [] := by
      intro empty
      have ordinary := List.rdropWhile_eq_nil_iff.mp empty '/' inside
      simp at ordinary
    have last := List.rdropWhile_last_not (fun letter : Char => decide (letter ≠ '/')) path nonempty
    have slash : (path.rdropWhile (fun letter => decide (letter ≠ '/'))).getLast nonempty = '/' := by
      simpa using last
    refine ⟨?_, .inr ?_⟩
    · intro member
      simpa using List.mem_rtakeWhile_imp member
    · have ends := List.dropLast_append_getLast nonempty
      rw [slash] at ends
      calc path = _ := whole.symm
        _ = _ := by rw [← ends, List.append_assoc]; simp
  · rename_i outside
    exact ⟨outside, .inl ⟨outside, rfl⟩⟩

/-- A trimmed path ends in a name. -/
theorem splitParent_named {path : List Char} (trimmed : Text.trimEnd path = path)
    (nonempty : path ≠ []) : (splitParent path).2 ≠ [] := by
  intro none
  rcases (splitParent_eq path).2 with ⟨_, alone⟩ | whole
  · rw [alone] at none
    exact nonempty none
  · rw [none] at whole
    rw [Text.trimEnd, List.rdropWhile_eq_self_iff] at trimmed
    have last := trimmed nonempty
    rw [List.getLast_congr _ (by simp) whole] at last
    simp at last

theorem trimEnd_trimMatches (path : List Char) :
    Text.trimEnd (Text.trimMatches path) = Text.trimMatches path :=
  List.rdropWhile_idempotent _ _

end Names

section InPlace

def ELOOP : Errno := .other 40

structure ResolveState where
  currentNodeid : UInt64
  hopsRemaining : Nat
  components : List (List Char)
  i : Nat

/-- `insert` of one component after the other, from an index on. -/
def insertAll (components : List (List Char)) (i : Nat) : List (List Char) → List (List Char)
  | [] => components
  | component :: rest => insertAll (components.insertIdx i component) (i + 1) rest

/-- The list after a symlink at `i` is replaced by its target, and where to go on in it. -/
def spliceTarget (state : ResolveState) (target : List Char) : ResolveState :=
  let components := state.components.eraseIdx state.i
  let targetComponents := target.splitOn '/'
  if target.head? = some '/' then
    { currentNodeid := 1
      hopsRemaining := state.hopsRemaining - 1
      components := targetComponents ++ components.drop state.i
      i := 0 }
  else
    { state with
      hopsRemaining := state.hopsRemaining - 1
      components := insertAll components state.i targetComponents }

variable (server : FuseServer) (followLast : Bool)

/-- A turn of the loop of `resolve_path_hops`, or what follows the loop. -/
def resolveTurn (state : ResolveState) : Op (ResolveState ⊕ (UInt64 × FuseAttr)) :=
  match state.components[state.i]? with
  | none => do
      let attr ← ask server (.getattr state.currentNodeid)
      return .inr (state.currentNodeid, attr)
  | some component =>
      if component = [] then
        return .inl { state with i := state.i + 1 }
      else do
        let entry ← ask server (.lookup state.currentNodeid component)
        let isLast := state.components.length ≤ state.i + 1
        if entry.attr.isLink then
          if isLast ∧ followLast = false then
            return .inr (entry.nodeid, entry.attr)
          else if state.hopsRemaining = 0 then
            throw ELOOP
          else
            let target ← ask server (.readlink entry.nodeid)
            return .inl (spliceTarget state target)
        else
          return .inl { state with currentNodeid := entry.nodeid, i := state.i + 1 }

def resolveLoop : Nat → ResolveState → Op (UInt64 × FuseAttr)
  | 0, _ => loopForever
  | fuel + 1, state => do
      match ← resolveTurn server followLast state with
      | .inl next => resolveLoop fuel next
      | .inr found => return found

/-- `resolve_path_hops`, as far as it comes in so many turns of its loop. -/
def resolvePathHopsIn (fuel : Nat) (path : List Char) (maxHops : Nat) :
    Op (UInt64 × FuseAttr) := do
  let path := Text.trimMatches path
  if path = [] then
    let attr ← ask server (.getattr 1)
    return (1, attr)
  else
    resolveLoop server followLast fuel ⟨1, maxHops, path.splitOn '/', 0⟩

variable {server followLast} {hops : Nat} {current : UInt64} {scheme : VirtioFsScheme}

theorem insertIdx_between (front back : List (List Char)) (component : List Char) :
    (front ++ back).insertIdx front.length component = front ++ component :: back := by
  induction front with
  | nil => rfl
  | cons first front ih =>
      rw [List.cons_append, List.length_cons, List.insertIdx_succ_cons, ih, List.cons_append]

/-- One after the other, the components stand between what was before and behind the index. -/
theorem insertAll_between (front inserted back : List (List Char)) :
    insertAll (front ++ back) front.length inserted = front ++ inserted ++ back := by
  induction inserted generalizing front with
  | nil => rw [insertAll, List.append_nil]
  | cons component rest ih =>
      have next := ih (front ++ [component])
      rw [List.length_append, List.length_singleton, List.append_assoc, List.singleton_append]
        at next
      rw [insertAll, insertIdx_between, next, List.append_assoc front, List.singleton_append]

/-- What remains after a splice is the components of the target, and those behind the link. -/
theorem spliceTarget_remaining {state : ResolveState} (target : List Char)
    (inside : state.i < state.components.length) :
    (spliceTarget state target).components.drop (spliceTarget state target).i =
      target.splitOn '/' ++ state.components.drop (state.i + 1) := by
  have front : (state.components.take state.i).length = state.i := by
    rw [List.length_take, Nat.min_eq_left inside.le]
  have removed : state.components.eraseIdx state.i =
      state.components.take state.i ++ state.components.drop (state.i + 1) :=
    List.eraseIdx_eq_take_drop_succ _ _
  unfold spliceTarget
  dsimp only
  split
  · rw [List.drop_zero, removed, List.drop_left' front]
  · have inserted := insertAll_between (state.components.take state.i) (target.splitOn '/')
      (state.components.drop (state.i + 1))
    rw [front] at inserted
    dsimp only
    rw [removed, inserted, List.append_assoc, List.drop_left' front]

theorem spliceTarget_start (state : ResolveState) (target : List Char) :
    (spliceTarget state target).currentNodeid = startOf state.currentNodeid target := by
  unfold spliceTarget startOf
  dsimp only
  split <;> rfl

@[simp] theorem spliceTarget_hops (state : ResolveState) (target : List Char) :
    (spliceTarget state target).hopsRemaining = state.hopsRemaining - 1 := by
  unfold spliceTarget
  dsimp only
  split <;> rfl

/-- What `walkHops` does with a symlink that is followed. -/
def followHops (server : FuseServer) (followLast : Bool) :
    Nat → UInt64 → List (List Char) → UInt64 → Op (UInt64 × FuseAttr)
  | 0, _, _, _ => throw ELOOP
  | hops + 1, current, rest, link => do
      let target ← ask server (.readlink link)
      walkHops server followLast hops (startOf current target) (target.splitOn '/' ++ rest)

theorem walkHops_eq : walkHops server followLast hops =
    walk server followLast (followHops server followLast hops) := by
  cases hops <;> rfl

/-- The loop ends in this way, however many more turns it may take. -/
def LoopEnds (server : FuseServer) (followLast : Bool) (state : ResolveState)
    (scheme : VirtioFsScheme) (ending : Option (Except Errno (UInt64 × FuseAttr) × VirtioFsScheme)) :
    Prop :=
  ∃ fuel, ∀ more ≥ fuel, (resolveLoop server followLast more state).perform scheme = ending

variable {state next : ResolveState} {after : VirtioFsScheme}
  {ending : Option (Except Errno (UInt64 × FuseAttr) × VirtioFsScheme)}

theorem perform_resolveLoop_succ (fuel : Nat) (state : ResolveState) (scheme : VirtioFsScheme) :
    (resolveLoop server followLast (fuel + 1) state).perform scheme =
      match (resolveTurn server followLast state).perform scheme with
      | some (.ok (.inl next), after) => (resolveLoop server followLast fuel next).perform after
      | some (.ok (.inr found), after) => some (.ok found, after)
      | some (.error reason, after) => some (.error reason, after)
      | none => none := by
  rw [resolveLoop, perform_bind]
  cases (resolveTurn server followLast state).perform scheme with
  | none => rfl
  | some outcome =>
      obtain ⟨result, after⟩ := outcome
      cases result with
      | error reason => rfl
      | ok turned => cases turned <;> rfl

theorem LoopEnds.of_turn
    (turn : (resolveTurn server followLast state).perform scheme = some (.ok (.inl next), after))
    (ends : LoopEnds server followLast next after ending) :
    LoopEnds server followLast state scheme ending := by
  obtain ⟨fuel, ran⟩ := ends
  refine ⟨fuel + 1, ?_⟩
  intro more enough
  obtain ⟨one, rfl⟩ : ∃ one, more = one + 1 := ⟨more - 1, by omega⟩
  rw [perform_resolveLoop_succ, turn]
  exact ran one (by omega)

theorem LoopEnds.of_found {found : UInt64 × FuseAttr}
    (turn : (resolveTurn server followLast state).perform scheme =
      some (.ok (.inr found), after)) :
    LoopEnds server followLast state scheme (some (.ok found, after)) := by
  refine ⟨1, ?_⟩
  intro more enough
  obtain ⟨one, rfl⟩ : ∃ one, more = one + 1 := ⟨more - 1, by omega⟩
  rw [perform_resolveLoop_succ, turn]

theorem LoopEnds.of_error {reason : Errno}
    (turn : (resolveTurn server followLast state).perform scheme = some (.error reason, after)) :
    LoopEnds server followLast state scheme (some (.error reason, after)) := by
  refine ⟨1, ?_⟩
  intro more enough
  obtain ⟨one, rfl⟩ : ∃ one, more = one + 1 := ⟨more - 1, by omega⟩
  rw [perform_resolveLoop_succ, turn]

/-- The component at the index, and the list behind it. -/
theorem drop_cons {component : List Char} {remaining : List (List Char)}
    (rest : state.components.drop state.i = component :: remaining) :
    state.components[state.i]? = some component ∧
      state.components.drop (state.i + 1) = remaining ∧ state.i < state.components.length := by
  have here : (state.components.drop state.i)[0]? = some component := by rw [rest]; rfl
  rw [List.getElem?_drop, Nat.add_zero] at here
  refine ⟨here, ?_, (List.getElem?_eq_some_iff.mp here).1⟩
  rw [← List.drop_drop, rest, List.drop_one, List.tail_cons]

theorem perform_resolveTurn_end (ended : state.components.drop state.i = []) :
    LoopEnds server followLast state scheme
      ((walkHops server followLast hops state.currentNodeid []).perform scheme) := by
  have outside : state.components[state.i]? = none :=
    List.getElem?_eq_none (List.drop_eq_nil_iff.mp ended)
  rw [walkHops_eq, walk, perform_bind, perform_ask]
  cases replied : server.answer scheme.exchanges (.getattr state.currentNodeid) with
  | error reason =>
      apply LoopEnds.of_error
      simp only [resolveTurn, outside, perform_bind, perform_ask, replied]
      rfl
  | ok attr =>
      apply LoopEnds.of_found
      simp only [resolveTurn, outside, perform_bind, perform_ask, replied]
      rfl

/-- What a turn does with the entry that it looked up. -/
theorem perform_resolveTurn_entry {component : List Char} {entry : FuseEntry}
    (here : state.components[state.i]? = some component) (named : component ≠ [])
    (replied : server.answer scheme.exchanges (.lookup state.currentNodeid component) =
      .ok entry) :
    (resolveTurn server followLast state).perform scheme =
      (if entry.attr.isLink then
        if state.components.length ≤ state.i + 1 ∧ followLast = false then
          return .inr (entry.nodeid, entry.attr)
        else if state.hopsRemaining = 0 then
          throw ELOOP
        else do
          let target ← ask server (.readlink entry.nodeid)
          return .inl (spliceTarget state target)
      else
        return .inl { state with currentNodeid := entry.nodeid, i := state.i + 1 } : Op _).perform
        { scheme with exchanges :=
            ⟨.lookup state.currentNodeid component, .ok entry⟩ :: scheme.exchanges } := by
  simp only [resolveTurn, here, if_neg named, perform_bind, perform_ask, replied]
  rfl

/-- A symlink that is followed is replaced in the list, which is gone on with. -/
theorem loopEnds_follow {asked : VirtioFsScheme} {fewer : Nat} {link : UInt64}
    {remaining : List (List Char)}
    (turn : (resolveTurn server followLast state).perform scheme =
      (do
        let target ← ask server (.readlink link)
        return .inl (spliceTarget state target) : Op (ResolveState ⊕ (UInt64 × FuseAttr))).perform
        asked)
    (replaced : ∀ (target : List Char) (after : VirtioFsScheme),
      LoopEnds server followLast (spliceTarget state target) after
        ((walkHops server followLast fewer (startOf state.currentNodeid target)
          (target.splitOn '/' ++ remaining)).perform after)) :
    LoopEnds server followLast state scheme
      ((followHops server followLast (fewer + 1) state.currentNodeid remaining link).perform
        asked) := by
  rw [perform_bind, perform_ask] at turn
  rw [followHops, perform_bind, perform_ask]
  revert turn
  cases server.answer asked.exchanges (.readlink link) with
  | error reason => exact fun turn => .of_error turn
  | ok target => exact fun turn => .of_turn turn (replaced target _)

/-- The loop does what the walk does, if it does so after a symlink is replaced. By induction on
what remains of the list. -/
theorem resolveLoop_walk
    (replaced : ∀ fewer, hops = fewer + 1 → ∀ remaining state scheme,
      state.hopsRemaining = fewer → state.components.drop state.i = remaining →
      LoopEnds server followLast state scheme
        ((walkHops server followLast fewer state.currentNodeid remaining).perform scheme))
    (remaining : List (List Char)) (state : ResolveState) (scheme : VirtioFsScheme)
    (budget : state.hopsRemaining = hops) (rest : state.components.drop state.i = remaining) :
    LoopEnds server followLast state scheme
      ((walkHops server followLast hops state.currentNodeid remaining).perform scheme) := by
  induction remaining generalizing state scheme with
  | nil => exact perform_resolveTurn_end rest
  | cons component remaining ih =>
      obtain ⟨here, behind, inside⟩ := drop_cons rest
      by_cases blank : component = []
      · subst blank
        have turn : (resolveTurn server followLast state).perform scheme =
            some (.ok (.inl { state with i := state.i + 1 }), scheme) := by
          rw [resolveTurn, here]
          rfl
        rw [walkHops_eq, walk, if_pos rfl, ← walkHops_eq]
        exact .of_turn turn (ih { state with i := state.i + 1 } scheme budget behind)
      · have last : state.components.length ≤ state.i + 1 ↔ remaining = [] := by
          rw [← behind, List.drop_eq_nil_iff]
        rw [walkHops_eq, walk, if_neg blank, perform_bind, perform_ask]
        cases replied : server.answer scheme.exchanges (.lookup state.currentNodeid component) with
        | error reason =>
            apply LoopEnds.of_error
            simp only [resolveTurn, here, if_neg blank, perform_bind, perform_ask, replied]
            rfl
        | ok entry =>
            have turn := @perform_resolveTurn_entry server followLast scheme state _ _ here blank replied
            simp only [Except.mapError]
            by_cases link : entry.attr.isLink = true
            · rw [if_pos link] at turn ⊢
              by_cases kept : remaining = [] ∧ followLast = false
              · rw [if_pos ⟨last.mpr kept.1, kept.2⟩] at turn
                rw [if_pos kept]
                exact .of_found turn
              · have notKept : ¬ (state.components.length ≤ state.i + 1 ∧ followLast = false) :=
                  fun both => kept ⟨last.mp both.1, both.2⟩
                rw [if_neg notKept] at turn
                rw [if_neg kept]
                cases hops with
                | zero =>
                    rw [if_pos budget] at turn
                    exact .of_error turn
                | succ fewer =>
                    rw [if_neg (by omega)] at turn
                    refine loopEnds_follow turn ?_
                    intro target asked
                    rw [← spliceTarget_start, ← behind, ← spliceTarget_remaining target inside]
                    exact replaced fewer rfl _ _ asked (by rw [spliceTarget_hops]; omega) rfl
            · rw [if_neg link] at turn ⊢
              rw [← walkHops_eq]
              exact .of_turn turn (ih { state with currentNodeid := entry.nodeid, i := state.i + 1 }
                _ budget behind)

/-- The loop in place does what the walk over the remaining components does. -/
theorem resolveLoop_walkHops (hops : Nat) (remaining : List (List Char)) (state : ResolveState)
    (scheme : VirtioFsScheme) (budget : state.hopsRemaining = hops)
    (rest : state.components.drop state.i = remaining) :
    LoopEnds server followLast state scheme
      ((walkHops server followLast hops state.currentNodeid remaining).perform scheme) := by
  induction hops generalizing remaining state scheme with
  | zero =>
      refine resolveLoop_walk ?_ remaining state scheme budget rest
      intro fewer none
      cases none
  | succ hops ih =>
      refine resolveLoop_walk ?_ remaining state scheme budget rest
      rintro fewer ⟨⟩
      exact ih

/-- `resolve_path_hops` in place ends, as the walk does. -/
theorem resolvePathHopsIn_ends (path : List Char) (maxHops : Nat) :
    ∃ fuel, ∀ more ≥ fuel,
      (resolvePathHopsIn server followLast more path maxHops).perform scheme =
        (resolvePathHops server path maxHops followLast).perform scheme := by
  by_cases top : Text.trimMatches path = []
  · refine ⟨0, ?_⟩
    intro more _
    simp only [resolvePathHopsIn, resolvePathHops, if_pos top]
  · obtain ⟨fuel, ends⟩ := @resolveLoop_walkHops server followLast maxHops
      ((Text.trimMatches path).splitOn '/')
      ⟨1, maxHops, (Text.trimMatches path).splitOn '/', 0⟩ scheme rfl rfl
    refine ⟨fuel, ?_⟩
    intro more enough
    simp only [resolvePathHopsIn, resolvePathHops, if_neg top]
    exact ends more enough

end InPlace

section Hosts

/-- The requests that ask and change nothing. -/
def FuseRequest.asks : FuseRequest → Bool
  | .lookup .. | .getattr _ | .readlink _ => true
  | _ => false

/-- A host that shows a tree, whatever has been exchanged with it. -/
structure Host (server : FuseServer) where
  tree : List Exchange → HostTree
  asked : ∀ exchanges exchange, exchange.request.asks = true →
    tree (exchange :: exchanges) = tree exchanges
  lookup : ∀ exchanges dir name,
    server exchanges (.lookup dir name) = (tree exchanges).lookup dir name
  getattr : ∀ exchanges id, server exchanges (.getattr id) = (tree exchanges).getattr id
  readlink : ∀ exchanges id, server exchanges (.readlink id) = (tree exchanges).readlink id

/-- Nothing but questions lie between the states. -/
def Asked (before after : VirtioFsScheme) : Prop :=
  ∃ questions : List Exchange, (∀ exchange ∈ questions, exchange.request.asks = true) ∧
    after = { before with exchanges := questions ++ before.exchanges }

theorem Asked.refl (scheme : VirtioFsScheme) : Asked scheme scheme := ⟨[], by simp, rfl⟩

theorem Asked.trans {first second third : VirtioFsScheme} (one : Asked first second)
    (two : Asked second third) : Asked first third := by
  obtain ⟨before, questions, rfl⟩ := one
  obtain ⟨later, more, rfl⟩ := two
  refine ⟨later ++ before, ?_, by rw [List.append_assoc]⟩
  intro exchange member
  rcases List.mem_append.mp member with inside | inside
  · exact more exchange inside
  · exact questions exchange inside

theorem Asked.one {scheme : VirtioFsScheme} {request : FuseRequest} (asks : request.asks = true)
    (reply : Except FuseTransportError request.Answer) :
    Asked scheme { scheme with exchanges := ⟨request, reply⟩ :: scheme.exchanges } := by
  refine ⟨[⟨request, reply⟩], ?_, rfl⟩
  intro exchange member
  rw [List.mem_singleton.mp member]
  exact asks

variable {server : FuseServer} (host : Host server) {scheme after : VirtioFsScheme}

/-- Questions leave the tree as it is. -/
theorem Host.tree_asked (asked : Asked scheme after) :
    host.tree after.exchanges = host.tree scheme.exchanges := by
  obtain ⟨questions, all, rfl⟩ := asked
  induction questions with
  | nil => rfl
  | cons exchange questions ih =>
      have step := host.asked (questions ++ scheme.exchanges) exchange (all exchange (by simp))
      exact step.trans (ih (fun other member => all other (by simp [member])))

/-- What comes of resolving names from a directory on. -/
def Answers (tree : HostTree) (followLast : Bool) (hops : Nat) (dir : UInt64) (names : List Name) :
    Except Errno (UInt64 × FuseAttr) → Prop
  | .ok (node, attr) => attr = tree.attr node ∧ (tree.node node).isSome ∧
      ∃ count ≤ hops, Walks tree followLast dir names count (.ok node)
  | .error reason => (reason = ELOOP ∧ Needs tree followLast dir names (hops + 1)) ∨
      ∃ code count, reason = fuseErrorToRedox code ∧ (code = ENOENT ∨ code = ENOTDIR) ∧
        count ≤ hops ∧ Walks tree followLast dir names count (.error code)

/-- The operation asks the host only, and comes to such an end. -/
def Resolves (tree : HostTree) (followLast : Bool) (hops : Nat) (dir : UInt64) (names : List Name)
    (scheme : VirtioFsScheme) (op : Op (UInt64 × FuseAttr)) : Prop :=
  ∃ outcome after, op.perform scheme = some (outcome, after) ∧ Asked scheme after ∧
    Answers tree followLast hops dir names outcome

variable {tree : HostTree} {followLast : Bool} {hops : Nat} {dir child : UInt64} {name : Name}
  {names : List Name} {outcome : Except Errno (UInt64 × FuseAttr)}

theorem Answers.enter (found : tree.find dir name = .ok child)
    (plain : tree.target child = none)
    (answers : Answers tree followLast hops child names outcome) :
    Answers tree followLast hops dir (name :: names) outcome := by
  cases outcome with
  | ok value =>
      obtain ⟨attr, there, count, few, walks⟩ := answers
      exact ⟨attr, there, count, few, .enter found plain walks⟩
  | error reason =>
      rcases answers with ⟨loops, needs⟩ | ⟨code, count, own, known, few, walks⟩
      · exact .inl ⟨loops, .enter found plain needs⟩
      · exact .inr ⟨code, count, own, known, few, .enter found plain walks⟩

theorem Answers.expand {target : List Char} (found : tree.find dir name = .ok child)
    (link : tree.target child = some target) (followed : names ≠ [] ∨ followLast = true)
    (answers : Answers tree followLast hops (startOf dir target) (pathNames target ++ names)
      outcome) : Answers tree followLast (hops + 1) dir (name :: names) outcome := by
  cases outcome with
  | ok value =>
      obtain ⟨attr, there, count, few, walks⟩ := answers
      exact ⟨attr, there, count + 1, by omega, .expand found link followed walks⟩
  | error reason =>
      rcases answers with ⟨loops, needs⟩ | ⟨code, count, own, known, few, walks⟩
      · exact .inl ⟨loops, .expand found link followed needs⟩
      · exact .inr ⟨code, count + 1, own, known, by omega, .expand found link followed walks⟩

/-- A node is answered if and only if a walk within the hops leads to it. -/
theorem Answers.ok_iff (answers : Answers tree followLast hops dir names outcome) {node : UInt64}
    {attr : FuseAttr} :
    outcome = .ok (node, attr) ↔ attr = tree.attr node ∧
      ∃ count ≤ hops, Walks tree followLast dir names count (.ok node) := by
  constructor
  · rintro rfl
    exact ⟨answers.1, answers.2.2⟩
  · rintro ⟨rfl, count, few, walks⟩
    cases outcome with
    | ok value =>
        obtain ⟨own, _, other, _, also⟩ := answers
        have same : value.1 = node := Except.ok.inj (also.unique walks).2
        rw [← same, ← own]
    | error reason =>
        rcases answers with ⟨_, needs⟩ | ⟨code, other, _, _, _, also⟩
        · have more := walks.needs_le needs
          omega
        · cases (walks.unique also).2

theorem Answers.loop_iff (answers : Answers tree followLast hops dir names outcome) :
    outcome = .error ELOOP ↔ Needs tree followLast dir names (hops + 1) := by
  constructor
  · rintro rfl
    rcases answers with ⟨_, needs⟩ | ⟨code, _, own, rfl | rfl, _⟩
    · exact needs
    · exact absurd own (by decide)
    · exact absurd own (by decide)
  · intro needs
    cases outcome with
    | ok value =>
        obtain ⟨_, _, count, few, walks⟩ := answers
        have more := walks.needs_le needs
        omega
    | error reason =>
        rcases answers with ⟨rfl, _⟩ | ⟨_, count, _, _, few, walks⟩
        · rfl
        · have more := walks.needs_le needs
          omega

theorem Resolves.imp {op : Op (UInt64 × FuseAttr)} {otherHops : Nat} {other : UInt64}
    {otherNames : List Name} (resolves : Resolves tree followLast hops dir names scheme op)
    (implies : ∀ outcome, Answers tree followLast hops dir names outcome →
      Answers tree followLast otherHops other otherNames outcome) :
    Resolves tree followLast otherHops other otherNames scheme op := by
  obtain ⟨outcome, after, ran, asked, answers⟩ := resolves
  exact ⟨outcome, after, ran, asked, implies outcome answers⟩

/-- An answer of the host, and what is done with it. -/
theorem Resolves.of_ok {request : FuseRequest} (asks : request.asks = true)
    {value : request.Answer} {next : request.Answer → Op (UInt64 × FuseAttr)}
    (replied : server.answer scheme.exchanges request = .ok value)
    (further : ∀ after, Asked scheme after →
      Resolves tree followLast hops dir names after (next value)) :
    Resolves tree followLast hops dir names scheme (ask server request >>= next) := by
  obtain ⟨outcome, after, ran, asked, answers⟩ := further _ (Asked.one asks (.ok value))
  refine ⟨outcome, after, ?_, (Asked.one asks _).trans asked, answers⟩
  rw [perform_bind, perform_ask, replied]
  exact ran

theorem Resolves.of_error {request : FuseRequest} (asks : request.asks = true)
    {reason : FuseTransportError} {next : request.Answer → Op (UInt64 × FuseAttr)}
    (replied : server.answer scheme.exchanges request = .error reason)
    (answers : Answers tree followLast hops dir names (.error (fuseErr reason))) :
    Resolves tree followLast hops dir names scheme (ask server request >>= next) := by
  refine ⟨_, _, ?_, Asked.one asks (.error reason), answers⟩
  rw [perform_bind, perform_ask, replied]
  rfl

theorem Host.answer_lookup (exchanges : List Exchange) (dir : UInt64) (name : Name) :
    server.answer exchanges (.lookup dir name) = (host.tree exchanges).lookup dir name := by
  rw [FuseServer.answer, host.lookup]
  cases (host.tree exchanges).lookup dir name <;> rfl

theorem Host.answer_getattr (exchanges : List Exchange) (id : UInt64) :
    server.answer exchanges (.getattr id) = (host.tree exchanges).getattr id := by
  rw [FuseServer.answer, host.getattr]
  cases (host.tree exchanges).getattr id <;> rfl

theorem Host.answer_readlink (exchanges : List Exchange) (id : UInt64) :
    server.answer exchanges (.readlink id) = (host.tree exchanges).readlink id := by
  rw [FuseServer.answer, host.readlink]
  cases (host.tree exchanges).readlink id <;> rfl

/-- The list does not end in an empty component, unless its last link is followed. -/
def EndsNamed (followLast : Bool) (remaining : List (List Char)) : Prop :=
  followLast = false → remaining.getLast? ≠ some []

theorem EndsNamed.tail {component : List Char} {rest : List (List Char)}
    (ends : EndsNamed followLast (component :: rest)) : EndsNamed followLast rest := by
  intro unfollowed last
  refine ends unfollowed ?_
  rw [List.getLast?_cons, last]
  rfl

theorem EndsNamed.named {rest : List (List Char)} (ends : EndsNamed followLast rest)
    (more : ¬ (rest = [] ∧ followLast = false)) :
    rest.filter (· ≠ []) ≠ [] ∨ followLast = true := by
  cases followLast with
  | true => exact .inr rfl
  | false =>
      refine .inl ?_
      intro none
      have some_ : rest ≠ [] := fun empty => more ⟨empty, rfl⟩
      have blank := List.filter_eq_nil_iff.mp none (rest.getLast some_) (List.getLast_mem some_)
      refine ends rfl ?_
      rw [List.getLast?_eq_some_getLast some_]
      simpa using blank

theorem EndsNamed.spliced {rest : List (List Char)} (ends : EndsNamed followLast rest)
    (more : ¬ (rest = [] ∧ followLast = false)) (inserted : List (List Char)) :
    EndsNamed followLast (inserted ++ rest) := by
  intro unfollowed
  have some_ : rest ≠ [] := fun empty => more ⟨empty, unfollowed⟩
  rw [List.getLast?_append_of_ne_nil _ some_]
  exact ends unfollowed

theorem HostTree.fuseErr_neg (code : Int) :
    fuseErr (.fuseError (-code)) = fuseErrorToRedox code := by
  rw [fuseErr, Int.neg_neg]

/-- A symlink that is followed, when the walk on from its target resolves. -/
theorem follow_resolves {target : List Char} {rest : List (List Char)}
    (shown : host.tree scheme.exchanges = tree) (found : tree.find dir name = .ok child)
    (link : tree.target child = some target) (ends : EndsNamed followLast rest)
    (more : ¬ (rest = [] ∧ followLast = false))
    (replaced : ∀ fewer, hops = fewer + 1 → ∀ after, host.tree after.exchanges = tree →
      Resolves tree followLast fewer (startOf dir target) (pathNames target ++ rest.filter (· ≠ []))
        after (walkHops server followLast fewer (startOf dir target)
          (target.splitOn '/' ++ rest))) :
    Resolves tree followLast hops dir (name :: rest.filter (· ≠ [])) scheme
      (followHops server followLast hops dir rest child) := by
  have followed := ends.named more
  cases hops with
  | zero =>
      refine ⟨.error ELOOP, scheme, rfl, .refl scheme, .inl ⟨rfl, ?_⟩⟩
      exact .expand found link followed (.none _ _)
  | succ fewer =>
      have replied : server.answer scheme.exchanges (.readlink child) = .ok target := by
        rw [host.answer_readlink, shown]
        exact HostTree.readlink_of_target link
      refine Resolves.of_ok rfl replied ?_
      intro after asked
      have same := (host.tree_asked asked).trans shown
      exact (replaced fewer rfl after same).imp fun _ => .expand found link followed

/-- The walk resolves the names, if it does so after a symlink is replaced. By induction on what
remains of the list. -/
theorem walk_resolves
    (replaced : ∀ fewer, hops = fewer + 1 → ∀ remaining dir scheme,
      host.tree scheme.exchanges = tree → (tree.node dir).isSome → EndsNamed followLast remaining →
      Resolves tree followLast fewer dir (remaining.filter (· ≠ [])) scheme
        (walkHops server followLast fewer dir remaining))
    (remaining : List (List Char)) (dir : UInt64) (scheme : VirtioFsScheme)
    (shown : host.tree scheme.exchanges = tree) (here : (tree.node dir).isSome)
    (ends : EndsNamed followLast remaining) :
    Resolves tree followLast hops dir (remaining.filter (· ≠ [])) scheme
      (walkHops server followLast hops dir remaining) := by
  induction remaining generalizing dir scheme with
  | nil =>
      have replied : server.answer scheme.exchanges (.getattr dir) = .ok (tree.attr dir) := by
        rw [host.answer_getattr, shown]
        exact HostTree.getattr_of_isSome here
      rw [walkHops_eq, walk]
      refine Resolves.of_ok rfl replied ?_
      intro after _
      exact ⟨_, after, rfl, .refl after, rfl, here, 0, Nat.zero_le _, .here dir⟩
  | cons component remaining ih =>
      by_cases blank : component = []
      · subst blank
        rw [walkHops_eq, walk, if_pos rfl, ← walkHops_eq, List.filter_cons_of_neg (by simp)]
        exact ih dir scheme shown here ends.tail
      · rw [walkHops_eq, walk, if_neg blank, List.filter_cons_of_pos (by simpa using blank)]
        cases found : tree.find dir component with
        | error code =>
            have replied : server.answer scheme.exchanges (.lookup dir component) =
                .error (.fuseError (-code)) := by
              rw [host.answer_lookup, shown]
              exact HostTree.lookup_of_missing found
            refine Resolves.of_error rfl replied (.inr ⟨code, 0, ?_, HostTree.find_error found,
              Nat.zero_le _, .missing found⟩)
            exact HostTree.fuseErr_neg code
        | ok child =>
            have there := HostTree.find_isSome found
            have replied : server.answer scheme.exchanges (.lookup dir component) =
                .ok (FuseEntry.mk child (tree.attr child)) := by
              rw [host.answer_lookup, shown]
              exact HostTree.lookup_of_find found
            refine Resolves.of_ok rfl replied ?_
            intro after asked
            have same := (host.tree_asked asked).trans shown
            by_cases link : (tree.attr child).isLink = true
            · obtain ⟨target, leads⟩ :=
                Option.isSome_iff_exists.mp ((HostTree.isLink_iff there).mp link)
              rw [if_pos link]
              by_cases kept : remaining = [] ∧ followLast = false
              · rw [if_pos kept, kept.1]
                exact ⟨_, after, rfl, .refl after, rfl, there, 0, Nat.zero_le _,
                  .keep found leads kept.2⟩
              · rw [if_neg kept]
                refine follow_resolves host same found leads ends.tail kept ?_
                intro fewer less later still
                have next := replaced fewer less (target.splitOn '/' ++ remaining)
                  (startOf dir target) later still (startOf_isSome here target)
                  (ends.tail.spliced kept _)
                rwa [List.filter_append] at next
            · have plain : tree.target child = none := by
                rw [← Option.not_isSome_iff_eq_none, ← HostTree.isLink_iff there]
                exact link
              rw [if_neg link, ← walkHops_eq]
              exact (ih child after same there ends.tail).imp fun _ => .enter found plain

/-- Walking the components resolves the names among them. -/
theorem walkHops_resolves (hops : Nat) (remaining : List (List Char)) (dir : UInt64)
    (scheme : VirtioFsScheme) (shown : host.tree scheme.exchanges = tree)
    (here : (tree.node dir).isSome) (ends : EndsNamed followLast remaining) :
    Resolves tree followLast hops dir (remaining.filter (· ≠ [])) scheme
      (walkHops server followLast hops dir remaining) := by
  induction hops generalizing remaining dir scheme with
  | zero =>
      refine walk_resolves host ?_ remaining dir scheme shown here ends
      intro fewer none
      cases none
  | succ hops ih =>
      refine walk_resolves host ?_ remaining dir scheme shown here ends
      rintro fewer ⟨⟩
      exact ih

/-- A trimmed path ends in a name. -/
theorem endsNamed_splitOn {path : List Char} (trimmed : Text.trimEnd path = path)
    (nonempty : path ≠ []) : EndsNamed followLast (path.splitOn '/') := by
  intro _ blank
  have named := splitParent_named trimmed nonempty
  obtain ⟨flat, ⟨outside, alone⟩ | whole⟩ := splitParent_eq path
  · rw [List.splitOn_eq_singleton outside, List.getLast?_singleton, Option.some.injEq] at blank
    exact nonempty blank
  · rw [whole, List.splitOn_append_cons_self, List.splitOn_eq_singleton flat,
      List.getLast?_concat, Option.some.injEq] at blank
    exact named blank

theorem resolvePathHops_resolves (path : List Char) (maxHops : Nat) (followLast : Bool)
    (scheme : VirtioFsScheme) :
    Resolves (host.tree scheme.exchanges) followLast maxHops 1 (pathNames path) scheme
      (resolvePathHops server path maxHops followLast) := by
  have root : ((host.tree scheme.exchanges).node 1).isSome := by
    obtain ⟨entries, here⟩ := (host.tree scheme.exchanges).root
    rw [here]
    rfl
  rw [← pathNames_trimMatches, resolvePathHops]
  by_cases top : Text.trimMatches path = []
  · have replied : server.answer scheme.exchanges (.getattr 1) =
        .ok ((host.tree scheme.exchanges).attr 1) := by
      rw [host.answer_getattr]
      exact HostTree.getattr_of_isSome root
    rw [if_pos top, top]
    refine Resolves.of_ok rfl replied ?_
    intro after _
    exact ⟨_, after, rfl, .refl after, rfl, root, 0, Nat.zero_le _, .here 1⟩
  · rw [if_neg top]
    exact walkHops_resolves host maxHops _ 1 scheme rfl root
      (endsNamed_splitOn (trimEnd_trimMatches path) top)

/-- Resolving in place ends. It gives a node if and only if the names lead there with no more than
40 symlinks on the way, and `ELOOP` if and only if more have to be replaced. -/
theorem resolvePathHopsIn_posix (path : List Char) (followLast : Bool) (scheme : VirtioFsScheme) :
    ∃ fuel outcome after,
      (∀ more ≥ fuel, (resolvePathHopsIn server followLast more path 40).perform scheme =
        some (outcome, after)) ∧
      (∀ node attr, outcome = .ok (node, attr) ↔
        attr = (host.tree scheme.exchanges).attr node ∧ ∃ count ≤ 40,
          Walks (host.tree scheme.exchanges) followLast 1 (pathNames path) count (.ok node)) ∧
      (outcome = .error ELOOP ↔
        Needs (host.tree scheme.exchanges) followLast 1 (pathNames path) 41) := by
  obtain ⟨fuel, ends⟩ := @resolvePathHopsIn_ends server followLast scheme path 40
  obtain ⟨outcome, after, ran, _, answers⟩ := resolvePathHops_resolves host path 40 followLast scheme
  refine ⟨fuel, outcome, after, fun more enough => (ends more enough).trans ran, ?_, ?_⟩
  · intro node attr
    exact answers.ok_iff
  · exact answers.loop_iff

end Hosts

end NixRedox.VirtioFs
