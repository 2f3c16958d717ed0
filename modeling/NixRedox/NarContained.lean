import NixRedox.ManifestTree

set_option autoImplicit false

/- `extract_node_with_sink` against a sink that may fail at any call: where its calls go, in
what order, and what its manifest lists. -/
namespace NixRedox.Nar

def SinkCall.path : SinkCall → RelPath
  | .createDirAll path => path
  | .writeFile path _ _ _ => path
  | .createSymlink path _ => path

mutual

/-- The extraction with what the sink answers to the calls so far. `run` is the calls and the
manifest up to here. -/
def extractNodeVia (accepts : List SinkCall → Bool) (run : Plan) (path : RelPath)
    (relPath : List Char) : NarNode → Plan
  | .file executable chunks complete =>
      let calls := run.calls ++ [.writeFile path executable chunks complete]
      if accepts calls && complete then
        { calls
          manifest := run.manifest ++ [⟨relPath, .file, (chunks.map List.length).sum, executable⟩]
          complete := true }
      else
        { calls, manifest := run.manifest, complete := false }
  | .symlink none => { run with complete := false }
  | .symlink (some target) =>
      let calls := run.calls ++ [.createSymlink path target]
      if accepts calls then
        { calls, manifest := run.manifest ++ [⟨relPath, .symlink, 0, false⟩], complete := true }
      else
        { calls, manifest := run.manifest, complete := false }
  | .directory entries =>
      let calls := run.calls ++ [.createDirAll path]
      if accepts calls then
        let listed := if relPath = [] then [] else [⟨relPath, .dir, 0, false⟩]
        extractEntriesVia accepts { calls, manifest := run.manifest ++ listed, complete := true }
          path relPath entries
      else
        { calls, manifest := run.manifest, complete := false }

def extractEntriesVia (accepts : List SinkCall → Bool) (run : Plan) (path : RelPath)
    (relPath : List Char) : NarEntries → Plan
  | .done => run
  | .broken => { run with complete := false }
  | .entry none _ _ => { run with complete := false }
  | .entry (some name) node rest =>
      if invalidName name then
        { run with complete := false }
      else
        let next := extractNodeVia accepts run (child path name) (childRel relPath name) node
        if next.complete then extractEntriesVia accepts next path relPath rest else next

end

/-- How a run goes on from an earlier one: along the plan, to its end if it succeeds. -/
structure Follows (before after plan : Plan) : Prop where
  calls : after.calls <+: before.calls ++ plan.calls
  done : after.complete = true → plan.complete = true ∧
    after.calls = before.calls ++ plan.calls ∧ after.manifest = before.manifest ++ plan.manifest

theorem Follows.stopped {before plan : Plan} :
    Follows before { before with complete := false } plan where
  calls := List.prefix_append _ _
  done := nofun

/-- A call that fails ends the run there. -/
theorem Follows.failed {before plan : Plan} {call : SinkCall} {rest : List SinkCall}
    (first : plan.calls = call :: rest) :
    Follows before ⟨before.calls ++ [call], before.manifest, false⟩ plan where
  calls := by
    rw [first]
    exact ⟨rest, List.append_cons .. |>.symm⟩
  done := nofun

theorem Follows.andThen {before middle after first later : Plan}
    (front : Follows before middle first) (succeeded : middle.complete = true)
    (back : Follows middle after later) : Follows before after (first.andThen later) := by
  obtain ⟨complete, calls, manifest⟩ := front.done succeeded
  have whole : first.andThen later =
      ⟨first.calls ++ later.calls, first.manifest ++ later.manifest, later.complete⟩ :=
    if_pos complete
  rw [whole]
  refine ⟨?_, ?_⟩
  · rw [← List.append_assoc, ← calls]
    exact back.calls
  · intro ended
    obtain ⟨finished, allCalls, allManifest⟩ := back.done ended
    refine ⟨finished, ?_, ?_⟩
    · rw [allCalls, calls, List.append_assoc]
    · rw [allManifest, manifest, List.append_assoc]

theorem Follows.cut {before middle first later : Plan} (front : Follows before middle first)
    (failed : middle.complete = false) : Follows before middle (first.andThen later) := by
  refine ⟨?_, ?_⟩
  · unfold Plan.andThen
    split
    · exact front.calls.trans (List.prefix_append_right_inj _ |>.mpr (List.prefix_append _ _))
    · exact front.calls
  · intro ended
    rw [failed] at ended
    cases ended

mutual

theorem extractNodeVia_follows (accepts : List SinkCall → Bool) (run : Plan) (path : RelPath)
    (relPath : List Char) (node : NarNode) :
    Follows run (extractNodeVia accepts run path relPath node)
      (extractNode path relPath node) := by
  cases node with
  | file executable chunks complete =>
      unfold extractNodeVia
      dsimp only
      split
      · rename_i accepted
        have whole : complete = true := (Bool.and_eq_true _ _ ▸ accepted).2
        subst whole
        exact ⟨List.prefix_rfl, fun _ => ⟨rfl, rfl, rfl⟩⟩
      · exact Follows.failed rfl
  | symlink target =>
      cases target with
      | none => exact Follows.stopped
      | some target =>
          unfold extractNodeVia
          dsimp only
          split
          · exact ⟨List.prefix_rfl, fun _ => ⟨rfl, rfl, rfl⟩⟩
          · exact Follows.failed rfl
  | directory entries =>
      unfold extractNodeVia
      dsimp only
      split
      · have opened : Follows run
            ⟨run.calls ++ [.createDirAll path],
              run.manifest ++ (if relPath = [] then [] else [⟨relPath, .dir, 0, false⟩]), true⟩
            ⟨[.createDirAll path], if relPath = [] then [] else [⟨relPath, .dir, 0, false⟩],
              true⟩ :=
          ⟨List.prefix_rfl, fun _ => ⟨rfl, rfl, rfl⟩⟩
        exact opened.andThen rfl (extractEntriesVia_follows accepts _ path relPath entries)
      · exact Follows.failed rfl

theorem extractEntriesVia_follows (accepts : List SinkCall → Bool) (run : Plan) (path : RelPath)
    (relPath : List Char) (entries : NarEntries) :
    Follows run (extractEntriesVia accepts run path relPath entries)
      (extractEntries path relPath entries) := by
  cases entries with
  | done =>
      refine ⟨List.prefix_append _ _, fun _ => ⟨rfl, ?_, ?_⟩⟩
      · exact (List.append_nil _).symm
      · exact (List.append_nil _).symm
  | broken => exact Follows.stopped
  | entry name node rest =>
      cases name with
      | none => exact Follows.stopped
      | some name =>
          unfold extractEntriesVia extractEntries
          split
          · exact Follows.stopped
          · have front := extractNodeVia_follows accepts run (child path name)
              (childRel relPath name) node
            dsimp only
            split
            · rename_i succeeded
              exact front.andThen succeeded
                (extractEntriesVia_follows accepts _ path relPath rest)
            · rename_i failed
              exact front.cut (Bool.eq_false_iff.mpr failed)

end

section Containment

mutual

/-- The names of all entries of a tree. -/
def NarNode.allNames : NarNode → List Name
  | .directory entries => entries.allNames
  | _ => []

def NarEntries.allNames : NarEntries → List Name
  | .entry (some name) node rest => name :: node.allNames ++ rest.allNames
  | .entry none node rest => node.allNames ++ rest.allNames
  | _ => []

end

/-- The components below a place are names of entries, and none leads elsewhere. -/
def Inside (names : List Name) (place path : RelPath) : Prop :=
  ∃ below, path = place ++ below ∧ ∀ name ∈ below, name ∈ names ∧ invalidName name = false

theorem Inside.own (names : List Name) (place : RelPath) : Inside names place place :=
  ⟨[], (List.append_nil place).symm, fun _ member => nomatch member⟩

theorem Inside.mono {names more : List Name} {place path : RelPath}
    (inside : Inside names place path) (subset : names ⊆ more) : Inside more place path := by
  obtain ⟨below, same, own⟩ := inside
  exact ⟨below, same, fun name member => ⟨subset (own name member).1, (own name member).2⟩⟩

theorem Inside.child {names : List Name} {place path : RelPath} {name : Name}
    (inside : Inside names (child place name) path) (member : name ∈ names)
    (valid : invalidName name = false) : Inside names place path := by
  obtain ⟨below, rfl, own⟩ := inside
  unfold Nar.child
  split
  · exact ⟨below, rfl, own⟩
  · refine ⟨name :: below, by simp, ?_⟩
    intro other listed
    rcases List.mem_cons.mp listed with rfl | listed
    · exact ⟨member, valid⟩
    · exact own other listed

theorem mem_andThen {first later : Plan} {call : SinkCall}
    (member : call ∈ (first.andThen later).calls) : call ∈ first.calls ∨ call ∈ later.calls := by
  unfold Plan.andThen at member
  split at member
  · exact List.mem_append.mp member
  · exact .inl member

mutual

theorem extractNode_inside (place : RelPath) (relPath : List Char) (node : NarNode) :
    ∀ call ∈ (extractNode place relPath node).calls, Inside node.allNames place call.path := by
  intro call member
  cases node with
  | file executable chunks complete =>
      rw [List.mem_singleton.mp member]
      exact Inside.own _ place
  | symlink target =>
      cases target with
      | none => cases member
      | some target =>
          rw [List.mem_singleton.mp member]
          exact Inside.own _ place
  | directory entries =>
      rcases mem_andThen member with own | below
      · rw [List.mem_singleton.mp own]
        exact Inside.own _ place
      · exact extractEntries_inside place relPath entries call below

theorem extractEntries_inside (place : RelPath) (relPath : List Char) (entries : NarEntries) :
    ∀ call ∈ (extractEntries place relPath entries).calls,
      Inside entries.allNames place call.path := by
  intro call member
  cases entries with
  | done => cases member
  | broken => cases member
  | entry name node rest =>
      cases name with
      | none => cases member
      | some name =>
          unfold extractEntries at member
          split at member
          · cases member
          · rename_i valid
            rcases mem_andThen member with first | later
            · have inside := extractNode_inside (child place name) (childRel relPath name) node
                call first
              apply (inside.mono _).child List.mem_cons_self (Bool.eq_false_iff.mpr valid)
              intro other listed
              exact List.mem_cons_of_mem _ (List.mem_append_left _ listed)
            · apply (extractEntries_inside place relPath rest call later).mono
              intro other listed
              exact List.mem_cons_of_mem _ (List.mem_append_right _ listed)

end

end Containment

section Order

/-- The directories that a call is to make. -/
def SinkCall.made : SinkCall → List RelPath
  | .createDirAll path => [path]
  | _ => []

/-- The directories on the way to a path are among those made. -/
def Reachable (made : List RelPath) (path : RelPath) : Prop :=
  ∀ parent, parent <+: path → parent ≠ path → parent ∈ made

/-- Every directory is made before anything in it. -/
def DirsFirst (made : List RelPath) : List SinkCall → Prop
  | [] => True
  | call :: rest => Reachable made call.path ∧ DirsFirst (made ++ call.made) rest

theorem Reachable.mono {made more : List RelPath} {path : RelPath}
    (reachable : Reachable made path) (subset : made ⊆ more) : Reachable more path :=
  fun parent above different => subset (reachable parent above different)

theorem Reachable.child {made : List RelPath} {place : RelPath} (name : Name)
    (reachable : Reachable made place) (own : place ∈ made) :
    Reachable made (child place name) := by
  unfold Nar.child
  split
  · exact reachable
  · intro parent above different
    rcases List.prefix_concat_iff.mp above with same | above
    · exact absurd same different
    · by_cases place_ : parent = place
      · exact place_ ▸ own
      · exact reachable parent above place_

theorem DirsFirst.mono {calls : List SinkCall} {made more : List RelPath}
    (first : DirsFirst made calls) (subset : made ⊆ more) : DirsFirst more calls := by
  induction calls generalizing made more with
  | nil =>
      trivial
  | cons call rest ih =>
      exact ⟨first.1.mono subset, ih first.2 (List.append_subset.mpr
        ⟨List.subset_append_of_subset_left _ subset, List.subset_append_right _ _⟩)⟩

theorem DirsFirst.append {front back : List SinkCall} {made : List RelPath}
    (first : DirsFirst made front) (second : DirsFirst (made ++ front.flatMap SinkCall.made) back) :
    DirsFirst made (front ++ back) := by
  induction front generalizing made with
  | nil =>
      simpa using second
  | cons call rest ih =>
      refine ⟨first.1, ih first.2 ?_⟩
      rwa [List.flatMap_cons, ← List.append_assoc] at second

theorem DirsFirst.andThen {first later : Plan} {made : List RelPath}
    (front : DirsFirst made first.calls) (back : DirsFirst made later.calls) :
    DirsFirst made (first.andThen later).calls := by
  unfold Plan.andThen
  split
  · exact front.append (back.mono (List.subset_append_left _ _))
  · exact front

/-- In a part of such calls, what comes before a call has made the directories above it. -/
theorem DirsFirst.before {calls before after : List SinkCall} {made : List RelPath}
    {call : SinkCall} (first : DirsFirst made calls)
    (split : before ++ call :: after <+: calls) :
    Reachable (made ++ before.flatMap SinkCall.made) call.path := by
  induction before generalizing calls made with
  | nil =>
      obtain ⟨rest, rfl⟩ := split
      simpa using first.1
  | cons earlier before ih =>
      obtain ⟨rest, rfl⟩ := split
      have inner := ih first.2 ⟨rest, rfl⟩
      rwa [List.flatMap_cons, ← List.append_assoc]

mutual

theorem extractNode_dirsFirst {made : List RelPath} {place : RelPath} (relPath : List Char)
    (node : NarNode) (reachable : Reachable made place) :
    DirsFirst made (extractNode place relPath node).calls := by
  cases node with
  | file executable chunks complete => exact ⟨reachable, trivial⟩
  | symlink target =>
      cases target with
      | none => trivial
      | some target => exact ⟨reachable, trivial⟩
  | directory entries =>
      have own : place ∈ made ++ [place] := List.mem_append_right _ List.mem_cons_self
      exact ⟨reachable, extractEntries_dirsFirst relPath entries
        (reachable.mono (List.subset_append_left _ _)) own⟩

theorem extractEntries_dirsFirst {made : List RelPath} {place : RelPath} (relPath : List Char)
    (entries : NarEntries) (reachable : Reachable made place) (own : place ∈ made) :
    DirsFirst made (extractEntries place relPath entries).calls := by
  cases entries with
  | done => trivial
  | broken => trivial
  | entry name node rest =>
      cases name with
      | none => trivial
      | some name =>
          unfold extractEntries
          split
          · trivial
          · exact (extractNode_dirsFirst (childRel relPath name) node
              (reachable.child name own)).andThen
                (extractEntries_dirsFirst relPath rest reachable own)

end

end Order

end NixRedox.Nar
