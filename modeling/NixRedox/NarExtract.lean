import Mathlib

set_option autoImplicit false

/- NAR extraction (`nar.rs`): what the archive reader hands over, the sink calls
`extract_node_with_sink` makes of it, and the tree they leave on disk. -/
namespace NixRedox.Nar

abbrev Name := List Char

/-- A path below the extraction destination; `[]` is the destination itself. -/
abbrev RelPath := List Name

mutual

/-- A node as the reader yields it while the archive is being read. A file comes in
chunks, and `complete` says whether its last byte arrived; a symlink target that is
not UTF-8 is `none`. -/
inductive NarNode where
  | file (executable : Bool) (chunks : List (List UInt8)) (complete : Bool)
  | symlink (target : Option (List Char))
  | directory (entries : NarEntries)

/-- The entries of a directory, up to its end or to where reading it broke. -/
inductive NarEntries where
  | done
  | broken
  | entry (name : Option Name) (node : NarNode) (rest : NarEntries)

end

inductive EntryType where
  | file
  | dir
  | symlink
  | other (name : List Char)
  deriving DecidableEq, Repr

structure ManifestEntry where
  path : List Char
  entryType : EntryType
  size : Nat
  executable : Bool
  deriving DecidableEq, Repr

/-- Calls on the `ExtractSink` trait. -/
inductive SinkCall where
  | createDirAll (path : RelPath)
  | writeFile (path : RelPath) (executable : Bool) (chunks : List (List UInt8)) (complete : Bool)
  | createSymlink (path : RelPath) (target : List Char)

/-- What an extraction does when every sink call succeeds: the calls, the manifest,
and whether it got to the end of the archive. -/
structure Plan where
  calls : List SinkCall
  manifest : List ManifestEntry
  complete : Bool

namespace Plan

def stop : Plan := { calls := [], manifest := [], complete := false }

def finish : Plan := { calls := [], manifest := [], complete := true }

/-- Go on with `later` unless the extraction has already stopped. -/
def andThen (first later : Plan) : Plan :=
  if first.complete then
    { calls := first.calls ++ later.calls
      manifest := first.manifest ++ later.manifest
      complete := later.complete }
  else
    first

end Plan

/-- Names the extraction refuses. -/
def invalidName (name : Name) : Bool :=
  name.contains '/' || name = ['.'] || name = ['.', '.']

/-- `Path::join` with a name: the empty name leads nowhere. -/
def child (path : RelPath) (name : Name) : RelPath := if name = [] then path else path ++ [name]

def childRel (relPath name : List Char) : List Char :=
  if relPath = [] then name else relPath ++ '/' :: name

mutual

def extractNode (path : RelPath) (relPath : List Char) : NarNode → Plan
  | .file executable chunks complete =>
      { calls := [.writeFile path executable chunks complete]
        manifest :=
          if complete then [⟨relPath, .file, (chunks.map List.length).sum, executable⟩] else []
        complete }
  | .symlink none => .stop
  | .symlink (some target) =>
      { calls := [.createSymlink path target]
        manifest := [⟨relPath, .symlink, 0, false⟩]
        complete := true }
  | .directory entries =>
      let opened : Plan :=
        { calls := [.createDirAll path]
          manifest := if relPath = [] then [] else [⟨relPath, .dir, 0, false⟩]
          complete := true }
      opened.andThen (extractEntries path relPath entries)

def extractEntries (path : RelPath) (relPath : List Char) : NarEntries → Plan
  | .done => .finish
  | .broken => .stop
  | .entry none _ _ => .stop
  | .entry (some name) node rest =>
      if invalidName name then
        .stop
      else
        (extractNode (child path name) (childRel relPath name) node).andThen
          (extractEntries path relPath rest)

end

inductive FsNode where
  | dir
  | file (content : List UInt8) (mode : Nat)
  | symlink (target : List Char)
  deriving DecidableEq, Repr

/-- What is on disk at and below the destination. -/
abbrev Fs := RelPath → Option FsNode

def Fs.empty : Fs := fun _ => none

/-- The single filesystem effects of the sink calls, in the order in which another
process can see them. -/
inductive FsAction where
  | mkdir (path : RelPath)
  | create (path : RelPath)
  | append (path : RelPath) (chunk : List UInt8)
  | chmod (path : RelPath) (mode : Nat)
  | symlink (path : RelPath) (target : List Char)
  | retarget (path : RelPath) (target : List Char)

/-- Extraction writes through the standard library or, on Redox, through a root fd. -/
inductive Sink where
  | stdFs
  | rootFd
  deriving DecidableEq, Repr

def fileMode (executable : Bool) : Nat := if executable then 0o555 else 0o444

/-- A symlink written through the root fd is opened first and gets its target after. -/
def Sink.actions (sink : Sink) : SinkCall → List FsAction
  | .createDirAll path => [.mkdir path]
  | .writeFile path executable chunks complete =>
      .create path :: chunks.map (.append path) ++
        if complete then [.chmod path (fileMode executable)] else []
  | .createSymlink path target =>
      match sink with
      | .stdFs => [.symlink path target]
      | .rootFd => [.symlink path [], .retarget path target]

def Plan.actions (sink : Sink) (plan : Plan) : List FsAction :=
  plan.calls.flatMap sink.actions

/-- Nothing is at the path, and the directory it goes into is there. -/
def Vacant (fs : Fs) (path : RelPath) : Prop :=
  fs path = none ∧ ∀ parent name, path = parent ++ [name] → fs parent = some .dir

/-- The action meets what it expects: a free place, or the node it made before. -/
def FsAction.Applicable (fs : Fs) : FsAction → Prop
  | .mkdir path | .create path | .symlink path _ => Vacant fs path
  | .append path _ | .chmod path _ => ∃ content mode, fs path = some (.file content mode)
  | .retarget path _ => ∃ target, fs path = some (.symlink target)

/-- What an applicable action leaves behind. -/
def FsAction.exec (fs : Fs) : FsAction → Fs
  | .mkdir path => Function.update fs path (some .dir)
  | .create path => Function.update fs path (some (.file [] 0o644))
  | .append path chunk =>
      match fs path with
      | some (.file content mode) => Function.update fs path (some (.file (content ++ chunk) mode))
      | _ => fs
  | .chmod path mode =>
      match fs path with
      | some (.file content _) => Function.update fs path (some (.file content mode))
      | _ => fs
  | .symlink path target => Function.update fs path (some (.symlink target))
  | .retarget path target =>
      match fs path with
      | some (.symlink _) => Function.update fs path (some (.symlink target))
      | _ => fs

/-- Every action of the list is applicable when its turn comes. -/
def RunsFresh : List FsAction → Fs → Prop
  | [], _ => True
  | action :: rest, fs => action.Applicable fs ∧ RunsFresh rest (action.exec fs)

def execAll (actions : List FsAction) (fs : Fs) : Fs := actions.foldl FsAction.exec fs

mutual

/-- The tree an archive stands for. -/
def NarNode.tree : NarNode → Fs
  | .file executable chunks _, [] => some (.file chunks.flatten (fileMode executable))
  | .symlink (some target), [] => some (.symlink target)
  | .directory _, [] => some .dir
  | .directory entries, name :: rest => entries.tree name rest
  | _, _ => none

def NarEntries.tree : NarEntries → Name → Fs
  | .entry (some name) node rest, wanted, path =>
      if wanted = name then node.tree path else rest.tree wanted path
  | _, _, _ => none

end

def NarEntries.names : NarEntries → List Name
  | .entry (some name) _ rest => name :: rest.names
  | .entry none _ rest => rest.names
  | _ => []

mutual

/-- The reader rejects empty entry names and directories whose entries are not in
strictly ascending order. -/
def NarNode.WellFormed : NarNode → Prop
  | .directory entries => entries.WellFormed
  | _ => True

def NarEntries.WellFormed : NarEntries → Prop
  | .entry (some name) node rest =>
      name ≠ [] ∧ name ∉ rest.names ∧ node.WellFormed ∧ rest.WellFormed
  | .entry none node rest => node.WellFormed ∧ rest.WellFormed
  | _ => True

end

mutual

/-- The archive was read to its end, and everything in it can be extracted. -/
def NarNode.complete : NarNode → Bool
  | .file _ _ complete => complete
  | .symlink target => target.isSome
  | .directory entries => entries.complete

def NarEntries.complete : NarEntries → Bool
  | .done => true
  | .broken => false
  | .entry none _ _ => false
  | .entry (some name) node rest => !invalidName name && node.complete && rest.complete

end

mutual

theorem complete_extractNode (path : RelPath) (relPath : List Char) (node : NarNode) :
    (extractNode path relPath node).complete = node.complete := by
  cases node with
  | file executable chunks complete => rfl
  | symlink target => cases target <;> rfl
  | directory entries => exact complete_extractEntries path relPath entries

theorem complete_extractEntries (path : RelPath) (relPath : List Char) (entries : NarEntries) :
    (extractEntries path relPath entries).complete = entries.complete := by
  cases entries with
  | done => rfl
  | broken => rfl
  | entry name node rest =>
      cases name with
      | none => rfl
      | some name =>
          have first := complete_extractNode (child path name) (childRel relPath name) node
          have later := complete_extractEntries path relPath rest
          unfold extractEntries NarEntries.complete
          split
          · rename_i invalid
            simp [invalid, Plan.stop]
          · rename_i valid
            unfold Plan.andThen
            split
            · rename_i finished
              simp only [later, ← first, finished, valid, Bool.not_false, Bool.and_self,
                Bool.true_and]
            · rename_i stopped
              simp only [← first, stopped, Bool.and_false, Bool.false_and]

end

theorem execAll_append (front back : List FsAction) (fs : Fs) :
    execAll (front ++ back) fs = execAll back (execAll front fs) :=
  List.foldl_append

theorem runsFresh_append (front back : List FsAction) (fs : Fs) :
    RunsFresh (front ++ back) fs ↔ RunsFresh front fs ∧ RunsFresh back (execAll front fs) := by
  induction front generalizing fs with
  | nil => simp [RunsFresh, execAll]
  | cons action front ih => simp [RunsFresh, execAll, ih, and_assoc]

/-- The chunks of a file arrive one after the other. -/
theorem appendChunks (path : RelPath) (chunks : List (List UInt8)) (content : List UInt8)
    (mode : Nat) (fs : Fs) (open_ : fs path = some (.file content mode)) :
    RunsFresh (chunks.map (.append path)) fs ∧
      execAll (chunks.map (.append path)) fs =
        Function.update fs path (some (.file (content ++ chunks.flatten) mode)) := by
  induction chunks generalizing content fs with
  | nil =>
      refine ⟨trivial, ?_⟩
      simp [execAll, ← open_]
  | cons chunk chunks ih =>
      have written : FsAction.exec fs (.append path chunk) =
          Function.update fs path (some (.file (content ++ chunk) mode)) := by
        simp [FsAction.exec, open_]
      obtain ⟨fresh, final⟩ := ih (content ++ chunk)
        (Function.update fs path (some (.file (content ++ chunk) mode))) (by simp)
      refine ⟨⟨⟨content, mode, open_⟩, ?_⟩, ?_⟩
      · rw [written]
        exact fresh
      · show execAll (chunks.map (.append path)) (FsAction.exec fs (.append path chunk)) = _
        rw [written, final]
        simp

/-- Nothing is at the path or below it. -/
def Free (fs : Fs) (path : RelPath) : Prop := ∀ rest, fs (path ++ rest) = none

/-- Running the actions of a plan from `fs` meets no obstacle, stays below `path`,
and builds `tree` there if the plan reaches its end. -/
structure Builds (sink : Sink) (plan : Plan) (fs : Fs) (path : RelPath) (tree : Fs) : Prop where
  fresh : RunsFresh (plan.actions sink) fs
  frame : ∀ other, ¬ path <+: other → execAll (plan.actions sink) fs other = fs other
  built : plan.complete = true → ∀ rest, execAll (plan.actions sink) fs (path ++ rest) = tree rest

/-- The same for the entries of the directory at `path`. -/
structure BuildsEntries (sink : Sink) (plan : Plan) (fs : Fs) (path : RelPath)
    (entries : NarEntries) : Prop where
  fresh : RunsFresh (plan.actions sink) fs
  frame : ∀ other, (∀ name ∈ entries.names, ¬ (path ++ [name]) <+: other) →
    execAll (plan.actions sink) fs other = fs other
  built : plan.complete = true → ∀ name ∈ entries.names, ∀ rest,
    execAll (plan.actions sink) fs (path ++ name :: rest) = entries.tree name rest

theorem update_frame {fs : Fs} {path other : RelPath} (value : Option FsNode)
    (apart : ¬ path <+: other) : Function.update fs path value other = fs other := by
  apply Function.update_of_ne
  intro same
  exact apart (same ▸ List.prefix_rfl)

theorem update_below {fs : Fs} {path : RelPath} (value : Option FsNode)
    (free : Free fs path) (rest : RelPath) :
    Function.update fs path value (path ++ rest) = if rest = [] then value else none := by
  by_cases empty : rest = []
  · subst empty
    simp
  · have differs : path ++ rest ≠ path := by simpa using empty
    rw [Function.update_of_ne differs, if_neg empty]
    exact free rest

theorem Free.vacant {fs : Fs} {path : RelPath} (free : Free fs path)
    (parent : ∀ front name, path = front ++ [name] → fs front = some .dir) : Vacant fs path := by
  refine ⟨?_, parent⟩
  have here := free []
  rwa [List.append_nil] at here

theorem writeFile_builds (sink : Sink) {fs : Fs} {path : RelPath} (relPath : List Char)
    (executable : Bool) (chunks : List (List UInt8)) (complete : Bool) (free : Free fs path)
    (vacant : Vacant fs path) :
    Builds sink (extractNode path relPath (.file executable chunks complete)) fs path
      (NarNode.tree (.file executable chunks complete)) := by
  have actions : (extractNode path relPath (.file executable chunks complete)).actions sink =
      [.create path] ++ (chunks.map (.append path) ++
        if complete then [.chmod path (fileMode executable)] else []) := by
    simp [extractNode, Plan.actions, Sink.actions]
  have created : execAll [.create path] fs = Function.update fs path (some (.file [] 0o644)) := rfl
  obtain ⟨fresh, written⟩ := appendChunks path chunks [] 0o644
    (Function.update fs path (some (.file [] 0o644))) (by simp)
  rw [Function.update_idem, List.nil_append] at written
  have final : ∃ mode, (complete = true → mode = fileMode executable) ∧
      execAll ((extractNode path relPath (.file executable chunks complete)).actions sink) fs =
        Function.update fs path (some (.file chunks.flatten mode)) := by
    rw [actions, execAll_append, created, execAll_append, written]
    cases complete with
    | false => exact ⟨0o644, nofun, rfl⟩
    | true => exact ⟨fileMode executable, fun _ => rfl, by simp [execAll, FsAction.exec]⟩
  obtain ⟨mode, finished, final⟩ := final
  refine ⟨?_, ?_, ?_⟩
  · rw [actions, runsFresh_append, runsFresh_append, created, written]
    refine ⟨⟨vacant, trivial⟩, fresh, ?_⟩
    cases complete with
    | false => trivial
    | true => exact ⟨⟨chunks.flatten, 0o644, by simp⟩, trivial⟩
  · intro other apart
    rw [final, update_frame _ apart]
  · intro done rest
    rw [final, update_below _ free]
    have ended : complete = true := done
    cases rest with
    | nil => simp [NarNode.tree, finished ended]
    | cons name rest => simp [NarNode.tree]

theorem createSymlink_builds (sink : Sink) {fs : Fs} {path : RelPath} (relPath : List Char)
    (target : List Char) (free : Free fs path) (vacant : Vacant fs path) :
    Builds sink (extractNode path relPath (.symlink (some target))) fs path
      (NarNode.tree (.symlink (some target))) := by
  have final : execAll ((extractNode path relPath (.symlink (some target))).actions sink) fs =
      Function.update fs path (some (.symlink target)) := by
    cases sink with
    | stdFs => rfl
    | rootFd => simp [extractNode, Plan.actions, Sink.actions, execAll, FsAction.exec]
  refine ⟨?_, ?_, ?_⟩
  · cases sink with
    | stdFs => exact ⟨vacant, trivial⟩
    | rootFd => exact ⟨vacant, ⟨[], by simp [FsAction.exec]⟩, trivial⟩
  · intro other apart
    rw [final, update_frame _ apart]
  · intro _ rest
    rw [final, update_below _ free]
    cases rest <;> simp [NarNode.tree]

theorem andThen_actions (sink : Sink) {first : Plan} (later : Plan)
    (finished : first.complete = true) :
    (first.andThen later).actions sink = first.actions sink ++ later.actions sink := by
  simp [Plan.andThen, finished, Plan.actions]

theorem sibling_apart {path : RelPath} {name other : Name} (rest : RelPath)
    (differs : name ≠ other) : ¬ (path ++ [name]) <+: path ++ other :: rest := by
  rw [List.prefix_append_right_inj, List.cons_prefix_cons]
  exact fun both => differs both.1

theorem NarEntries.tree_eq_none {entries : NarEntries} {name : Name}
    (absent : name ∉ entries.names) (rest : RelPath) : entries.tree name rest = none := by
  cases entries with
  | done => rfl
  | broken => rfl
  | entry found node others =>
      cases found with
      | none => rfl
      | some found =>
          have parts : name ≠ found ∧ name ∉ others.names := by
            simpa [NarEntries.names] using absent
          rw [NarEntries.tree, if_neg parts.1]
          exact NarEntries.tree_eq_none parts.2 rest

theorem tree_root {node : NarNode} (complete : node.complete = true) :
    (node.tree []).isSome = true := by
  cases node with
  | file executable chunks complete => rfl
  | directory entries => rfl
  | symlink target =>
      cases target with
      | none => cases complete
      | some text => rfl

/-- The entries of a plan that stopped, or that the archive has no names for, leave
the directory as it is. -/
theorem stop_buildsEntries (sink : Sink) (fs : Fs) (path : RelPath) (entries : NarEntries) :
    BuildsEntries sink .stop fs path entries :=
  ⟨trivial, fun _ _ => rfl, nofun⟩

/-- One entry, then the rest of the directory. -/
theorem entry_builds {sink : Sink} {fs : Fs} {path : RelPath} {name : Name} {node : NarNode}
    {rest : NarEntries} {first later : Plan} (apart : name ∉ rest.names)
    (head : Builds sink first fs (path ++ [name]) node.tree)
    (tail : BuildsEntries sink later (execAll (first.actions sink) fs) path rest) :
    BuildsEntries sink (first.andThen later) fs path (.entry (some name) node rest) := by
  cases finished : first.complete with
  | false =>
      have stopped : first.andThen later = first := by simp [Plan.andThen, finished]
      rw [stopped]
      refine ⟨head.fresh, ?_, ?_⟩
      · intro other outside
        exact head.frame other (outside name (by simp [NarEntries.names]))
      · intro done
        rw [finished] at done
        cases done
  | true =>
      have ending : (first.andThen later).complete = later.complete := by
        simp [Plan.andThen, finished]
      refine ⟨?_, ?_, ?_⟩
      · rw [andThen_actions sink later finished, runsFresh_append]
        exact ⟨head.fresh, tail.fresh⟩
      · intro other outside
        rw [andThen_actions sink later finished, execAll_append,
          tail.frame other fun sibling member => outside sibling (by simp [NarEntries.names, member]),
          head.frame other (outside name (by simp [NarEntries.names]))]
      · intro done wanted member below
        rw [ending] at done
        rw [andThen_actions sink later finished, execAll_append, NarEntries.tree]
        by_cases same : wanted = name
        · subst same
          rw [if_pos rfl, tail.frame (path ++ wanted :: below) fun sibling present =>
            sibling_apart below fun equal => apart (equal ▸ present)]
          have here := head.built finished below
          rwa [List.append_assoc, List.singleton_append] at here
        · have later : wanted ∈ rest.names := by
            simpa [NarEntries.names, same] using member
          rw [if_neg same]
          exact tail.built done wanted later below

mutual

/-- Extraction to a free path builds the archive's tree there and nothing else. -/
theorem extractNode_builds (sink : Sink) (node : NarNode) (wellFormed : node.WellFormed)
    (path : RelPath) (relPath : List Char) (fs : Fs) (free : Free fs path)
    (parent : ∀ front name, path = front ++ [name] → fs front = some .dir) :
    Builds sink (extractNode path relPath node) fs path node.tree := by
  have vacant := free.vacant parent
  cases node with
  | file executable chunks complete =>
      exact writeFile_builds sink relPath executable chunks complete free vacant
  | symlink target =>
      cases target with
      | none => exact ⟨trivial, fun _ _ => rfl, nofun⟩
      | some target => exact createSymlink_builds sink relPath target free vacant
  | directory entries =>
      have made : execAll [.mkdir path] fs = Function.update fs path (some .dir) := rfl
      have inside := extractEntries_builds sink entries wellFormed path relPath
        (Function.update fs path (some .dir)) (by simp) (by
          intro name _ rest
          rw [List.append_assoc, List.singleton_append, update_below _ free]
          simp)
      have actions : (extractNode path relPath (.directory entries)).actions sink =
          [.mkdir path] ++ (extractEntries path relPath entries).actions sink := by
        simp [extractNode, Plan.andThen, Plan.actions, Sink.actions]
      refine ⟨?_, ?_, ?_⟩
      · rw [actions, runsFresh_append, made]
        exact ⟨⟨vacant, trivial⟩, inside.fresh⟩
      · intro other outside
        rw [actions, execAll_append, made, inside.frame other, update_frame _ outside]
        intro name _ below
        exact outside ((List.prefix_append path [name]).trans below)
      · intro done rest
        rw [actions, execAll_append, made]
        cases rest with
        | nil =>
            rw [List.append_nil, inside.frame path fun name _ below => ?_]
            · simp [NarNode.tree]
            · have shorter := below.length_le
              simp only [List.length_append, List.length_singleton] at shorter
              omega
        | cons name rest =>
            rw [NarNode.tree]
            by_cases present : name ∈ entries.names
            · exact inside.built done name present rest
            · rw [NarEntries.tree_eq_none present,
                inside.frame (path ++ name :: rest) fun sibling member =>
                  sibling_apart rest fun same => present (same ▸ member),
                update_below _ free]
              simp

theorem extractEntries_builds (sink : Sink) (entries : NarEntries)
    (wellFormed : entries.WellFormed) (path : RelPath) (relPath : List Char) (fs : Fs)
    (directory : fs path = some .dir) (free : ∀ name ∈ entries.names, Free fs (path ++ [name])) :
    BuildsEntries sink (extractEntries path relPath entries) fs path entries := by
  cases entries with
  | done => exact ⟨trivial, fun _ _ => rfl, fun _ _ member => nomatch member⟩
  | broken => exact stop_buildsEntries sink fs path _
  | entry name node rest =>
      cases name with
      | none => exact stop_buildsEntries sink fs path _
      | some name =>
          obtain ⟨named, apart, nodeFormed, restFormed⟩ := wellFormed
          have here : child path name = path ++ [name] := if_neg named
          unfold extractEntries
          rw [here]
          split
          · exact stop_buildsEntries sink fs path _
          · have head := extractNode_builds sink node nodeFormed (path ++ [name])
              (childRel relPath name) fs (free name (by simp [NarEntries.names])) (by
                intro front last same
                have parts := List.append_inj' same rfl
                rw [← parts.1]
                exact directory)
            apply entry_builds apart head
            refine extractEntries_builds sink rest restFormed path relPath _ ?_ ?_
            · rw [head.frame path, directory]
              intro below
              have shorter := below.length_le
              simp only [List.length_append, List.length_singleton] at shorter
              omega
            · intro sibling member below
              have outside : ¬ (path ++ [name]) <+: path ++ [sibling] ++ below := by
                rw [List.append_assoc, List.singleton_append]
                exact sibling_apart below fun same => apart (same ▸ member)
              rw [head.frame _ outside]
              exact free sibling (by simp [NarEntries.names, member]) below

end

/-- What an extraction to a place where nothing was leaves on disk. -/
theorem extract_builds_tree (sink : Sink) (node : NarNode) (wellFormed : node.WellFormed) :
    RunsFresh ((extractNode [] [] node).actions sink) Fs.empty ∧
      (node.complete = true →
        execAll ((extractNode [] [] node).actions sink) Fs.empty = node.tree) := by
  have builds := extractNode_builds sink node wellFormed [] [] Fs.empty (fun _ => rfl) (by
    intro front name impossible
    simp at impossible)
  refine ⟨builds.fresh, ?_⟩
  intro complete
  funext path
  exact builds.built ((complete_extractNode [] [] node).trans complete) path

def asciiBytes (text : List Char) : List UInt8 := text.map fun c => UInt8.ofNat c.toNat

/-- A string of an archive: its length, its bytes, and zeros up to a multiple of eight. -/
def narString (bytes : List UInt8) : List UInt8 :=
  (List.range 8).map (fun index => UInt8.ofNat (bytes.length / 256 ^ index)) ++ bytes ++
    List.replicate ((8 - bytes.length % 8) % 8) 0

/-- The archive of a regular file. -/
def fileNar (bytes : List UInt8) : List UInt8 :=
  (["nix-archive-1", "(", "type", "regular", "contents"].flatMap fun text =>
    narString (asciiBytes text.toList)) ++ narString bytes ++ narString (asciiBytes [')'])

end NixRedox.Nar
