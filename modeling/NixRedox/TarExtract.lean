import NixRedox.FilePassage

set_option autoImplicit false

/- `extract_tar`: the entries of a tarball below an output directory, and where what they
write is. -/
namespace NixRedox.Fetchers

open FileTree (Calls KeepsDirs)
open UnixPath (PathBuf components joinComponents stripPrefix parent)

inductive EntryType where
  | regular
  | gnuSparse
  | directory
  | symlink
  | link
  | other
  deriving DecidableEq

/-- An entry of a tarball. The contents may break off. -/
structure TarEntry where
  path : List Char
  entryType : EntryType
  linkName : Option (List Char)
  contents : ByteArray
  whole : Bool
  mode : Option Nat

section Destination

/-- `prefix_to_strip` once an entry has been seen. -/
def prefixToStrip (known : Option PathBuf) (entry : TarEntry) : Option PathBuf :=
  known.or ((components entry.path).head?.map fun first => [first])

/-- A path without the prefix, or as it is. -/
def strip (pfx : Option PathBuf) (path : List Char) : PathBuf :=
  match pfx with
  | some pfx => (stripPrefix (components path) pfx).getD (components path)
  | none => components path

/-- Where an entry goes. The top-level directory itself is skipped. -/
def destination (outPath : PathBuf) (pfx : Option PathBuf) (entry : TarEntry) : Option PathBuf :=
  let relative := strip pfx entry.path
  if relative = [] ∨ relative = [.curDir] then none else some (joinComponents outPath relative)

end Destination

section Extraction

/-- `set_permissions` on a file; its failure is ignored. -/
def setPermissions (cwd : Location) (dest : PathBuf) (mode : Option Nat) (tree : FileTree) :
    FileTree :=
  match mode, tree.leads cwd dest with
  | some mode, some location =>
      match tree.nodeAt location with
      | some (.file contents _) => (tree.putFile location contents mode).tree
      | _ => tree
  | _, _ => tree

/-- The mode that a file keeps, or gets when it is created. -/
def modeAt (tree : FileTree) (location : Location) : Nat :=
  match tree.nodeAt location with
  | some (.file _ mode) => mode
  | _ => FileTree.newFileMode

/-- `File::create`, and the contents. -/
def createFile (cwd : Location) (dest : PathBuf) (contents : ByteArray) (tree : FileTree) : Calls :=
  match tree.fileAt cwd dest with
  | none => .failed tree "No such file or directory"
  | some location => tree.putFile location contents (modeAt tree location)

/-- `fs::copy`, which leaves nothing of a file that is copied to itself. -/
def copyFile (cwd : Location) (source dest : PathBuf) (tree : FileTree) : Calls :=
  match tree.leads cwd source with
  | none => .failed tree "No such file or directory"
  | some origin =>
      match tree.nodeAt origin with
      | some (.file contents mode) =>
          match tree.fileAt cwd dest with
          | none => .failed tree "No such file or directory"
          | some location =>
              tree.putFile location (if location = origin then ∅ else contents) mode
      | _ =>
          .failed tree "the source path is neither a regular file nor a symlink to a regular file"

def createParent (cwd : Location) (dest : PathBuf) (tree : FileTree) : Calls :=
  match parent dest with
  | some parent => tree.createDirAllAt cwd parent
  | none => .done tree

/-- What the loop of `extract_tar` does with an entry. -/
def extractEntry (cwd : Location) (outPath : PathBuf) (pfx : Option PathBuf) (entry : TarEntry)
    (tree : FileTree) : Calls :=
  match destination outPath pfx entry with
  | none => .done tree
  | some dest =>
      match entry.entryType with
      | .regular | .gnuSparse =>
          (createParent cwd dest tree).andThen fun tree =>
            (createFile cwd dest entry.contents tree).andThen fun tree =>
              if entry.whole then .done (setPermissions cwd dest entry.mode tree)
              else .failed tree "unexpected end of file"
      | .directory => tree.createDirAllAt cwd dest
      | .symlink =>
          (createParent cwd dest tree).andThen fun tree =>
            match entry.linkName with
            | some target => tree.addNode (.symlink target) cwd dest
            | none => .done tree
      | .link =>
          (createParent cwd dest tree).andThen fun tree =>
            match entry.linkName with
            | some linkTarget =>
                let targetPath := joinComponents outPath (strip pfx linkTarget)
                if (tree.leads cwd targetPath).isSome then copyFile cwd targetPath dest tree
                else .done tree
            | none => .done tree
      | .other => .done tree

/-- The loop, up to the first entry that cannot be read or put down. -/
def extractEntries (cwd : Location) (outPath : PathBuf) :
    Option PathBuf → List (Except String TarEntry) → FileTree → Calls
  | _, [], tree => .done tree
  | _, .error reason :: _, tree => .failed tree reason
  | known, .ok entry :: rest, tree =>
      let pfx := prefixToStrip known entry
      (extractEntry cwd outPath pfx entry tree).andThen (extractEntries cwd outPath pfx rest)

def extractTar (cwd : Location) (out : List Char) (archive : List (Except String TarEntry))
    (tree : FileTree) : Calls :=
  (tree.createDirAllAt cwd (components out)).andThen
    (extractEntries cwd (components out) none archive)

end Extraction

section Contained

variable {tree after : FileTree} {cwd base : Location} {outPath dest : PathBuf}
  {pfx known : Option PathBuf} {entry : TarEntry} {archive : List (Except String TarEntry)}

/-- The directories that have to be there for an entry. -/
def TarEntry.way (entry : TarEntry) (dest : PathBuf) : PathBuf :=
  match entry.entryType with
  | .directory => dest
  | .other => []
  | _ => (parent dest).getD []

def isFileAt (tree : FileTree) (cwd : Location) (path : PathBuf) : Bool :=
  match (tree.leads cwd path).bind tree.nodeAt with
  | some (.file _ _) => true
  | _ => false

/-- The place of the entry itself once the directories are there, unless it fails: through
a symlink for what is opened, a free place for a symlink. -/
def TarEntry.place (entry : TarEntry) (cwd : Location) (outPath : PathBuf) (pfx : Option PathBuf)
    (dest : PathBuf) (tree : FileTree) : Option Location :=
  match entry.entryType with
  | .regular | .gnuSparse => tree.fileAt cwd dest
  | .symlink =>
      if entry.linkName.isSome then
        (tree.placeAt cwd dest).filter fun location => tree.nodeAt location = none
      else
        none
  | .link =>
      if entry.linkName.any fun target =>
          isFileAt tree cwd (joinComponents outPath (strip pfx target)) then
        tree.fileAt cwd dest
      else
        none
  | .directory | .other => none

theorem putFile_touched {location : Location} {contents : ByteArray} {mode : Nat}
    (found : tree.fileAt cwd dest = some location) :
    (tree.putFile location contents mode).touched = [location] := by
  have there := (Option.filter_eq_some_iff.mp found).2
  rw [FileTree.putFile, dif_pos (by simpa using there)]

theorem createFile_touched (contents : ByteArray) :
    (createFile cwd dest contents tree).touched = (tree.fileAt cwd dest).toList := by
  unfold createFile
  split
  · rename_i none_
    rw [none_]
    rfl
  · rename_i location found
    rw [putFile_touched found, found]
    rfl

theorem copyFile_touched (source : PathBuf) :
    (copyFile cwd source dest tree).touched =
      if isFileAt tree cwd source then (tree.fileAt cwd dest).toList else [] := by
  unfold copyFile isFileAt
  split
  · rename_i none_
    rw [none_]
    rfl
  · rename_i origin leads
    rw [leads, Option.bind_some]
    split
    · rename_i contents mode file
      rw [if_pos rfl]
      split
      · rename_i none_
        rw [none_]
        rfl
      · rename_i location found
        rw [putFile_touched found, found]
        rfl
    · rfl

theorem copyThere_touched (source : PathBuf) :
    (if (tree.leads cwd source).isSome then copyFile cwd source dest tree
      else .done tree).touched =
      if isFileAt tree cwd source then (tree.fileAt cwd dest).toList else [] := by
  split
  · exact copyFile_touched source
  · rename_i absent
    have none_ : tree.leads cwd source = none := by simpa using absent
    simp [isFileAt, none_, Calls.done]

theorem addNode_touched (node : Node) :
    (tree.addNode node cwd dest).touched =
      ((tree.placeAt cwd dest).filter fun location => tree.nodeAt location = none).toList := by
  cases placed : tree.placeAt cwd dest with
  | none =>
      obtain ⟨reason, refused⟩ := FileTree.addNode_taken tree node cwd dest (by simp [placed])
      rw [refused]
      rfl
  | some location =>
      by_cases free : tree.nodeAt location = none
      · rw [FileTree.addNode_free placed free]
        simp [Option.filter, free]
      · obtain ⟨reason, refused⟩ := FileTree.addNode_taken tree node cwd dest
          fun other own => by
            rw [placed, Option.some.injEq] at own
            exact own ▸ free
        rw [refused]
        simp [Calls.failed, Option.filter, free]

theorem createParent_passage (working : tree.nodeAt cwd = some .dir) (dest : PathBuf) :
    let way := tree.passage FileTree.maxLinks cwd ((parent dest).getD [])
    (createParent cwd dest tree).tree = way.tree ∧
      (createParent cwd dest tree).touched = way.made ∧
      ((createParent cwd dest tree).result = .ok () ↔ way.last ≠ none) := by
  unfold createParent
  split
  · rename_i above found
    rw [found]
    exact FileTree.createDirAllAt_passage working above
  · rename_i none_
    rw [none_]
    exact ⟨rfl, rfl, iff_of_true rfl nofun⟩

/-- What follows the directories is done in the tree that has them. -/
theorem createParent_andThen (working : tree.nodeAt cwd = some .dir) (dest : PathBuf)
    (next : FileTree → Calls) :
    let way := tree.passage FileTree.maxLinks cwd ((parent dest).getD [])
    ((createParent cwd dest tree).andThen next).touched =
      way.made ++ way.last.elim [] fun _ => (next way.tree).touched := by
  obtain ⟨sameTree, sameMade, succeeds⟩ := createParent_passage working dest
  cases result : (createParent cwd dest tree).result with
  | ok done =>
      obtain ⟨last, ended⟩ := Option.ne_none_iff_exists'.mp (succeeds.mp result)
      rw [Calls.andThen_of_ok result, sameTree, sameMade]
      simp only [ended, Option.elim_some]
  | error reason =>
      have ended : (tree.passage FileTree.maxLinks cwd ((parent dest).getD [])).last = none := by
        by_contra more
        rw [succeeds.mpr more] at result
        cases result
      rw [Calls.andThen_of_error result, sameMade]
      simp only [ended, Option.elim_none, List.append_nil]

/-- Writing the contents touches the file only. -/
theorem createFile_andThen_touched {contents : ByteArray} {next : FileTree → Calls}
    (quiet : ∀ tree, (next tree).touched = []) :
    ((createFile cwd dest contents tree).andThen next).touched =
      (tree.fileAt cwd dest).toList := by
  rw [← createFile_touched contents]
  cases result : (createFile cwd dest contents tree).result with
  | ok done => rw [Calls.andThen_of_ok result, quiet, List.append_nil]
  | error reason => rw [Calls.andThen_of_error result]

/-- What an entry touches: the directories made on its way, and its own place. -/
theorem extractEntry_touched (working : tree.nodeAt cwd = some .dir)
    (goes : destination outPath pfx entry = some dest) :
    let way := tree.passage FileTree.maxLinks cwd (entry.way dest)
    (extractEntry cwd outPath pfx entry tree).touched =
      way.made ++ way.last.elim [] fun _ => (entry.place cwd outPath pfx dest way.tree).toList := by
  have quiet : ∀ tree : FileTree, (if entry.whole then
      Calls.done (setPermissions cwd dest entry.mode tree)
      else .failed tree "unexpected end of file").touched = [] := by
    intro tree
    split
    · rfl
    · rfl
  unfold extractEntry
  simp only [goes]
  cases kind : entry.entryType with
  | regular =>
      simp only [createParent_andThen working, TarEntry.way, TarEntry.place, kind,
        createFile_andThen_touched quiet]
  | gnuSparse =>
      simp only [createParent_andThen working, TarEntry.way, TarEntry.place, kind,
        createFile_andThen_touched quiet]
  | directory =>
      obtain ⟨-, sameMade, -⟩ := FileTree.createDirAllAt_passage working dest
      simp only [TarEntry.way, TarEntry.place, kind, sameMade, Option.toList_none]
      cases (tree.passage FileTree.maxLinks cwd dest).last with
      | none => simp
      | some last => simp
  | symlink =>
      simp only [createParent_andThen working, TarEntry.way, TarEntry.place, kind]
      cases entry.linkName with
      | none => rfl
      | some target => simp only [addNode_touched, Option.isSome_some, if_true]
  | link =>
      simp only [createParent_andThen working, TarEntry.way, TarEntry.place, kind]
      cases entry.linkName with
      | none => rfl
      | some target =>
          simp only [copyThere_touched, Option.any_some]
          split
          · rfl
          · rfl
  | other =>
      simp only [TarEntry.way, TarEntry.place, kind, FileTree.passage]
      rfl

end Contained

section Steps

variable {tree : FileTree} {cwd : Location} {dest : PathBuf} {entry : TarEntry}
  {related : FileTree → FileTree → Prop}

/-- A relation of trees that the calls for an entry keep to. -/
structure KeptBy (entry : TarEntry) (cwd : Location) (related : FileTree → FileTree → Prop) :
    Prop where
  refl : ∀ tree, related tree tree
  trans : ∀ one two three, related one two → related two three → related one three
  dirs : ∀ tree path, tree.nodeAt cwd = some .dir → related tree (tree.createDirAllAt cwd path).tree
  files : ∀ (tree : FileTree) location contents mode,
    (∀ target, tree.nodeAt location ≠ some (.symlink target)) →
    related tree (tree.putFile location contents mode).tree
  symlinks : entry.entryType = .symlink → ∀ tree target path,
    related tree (FileTree.addNode (.symlink target) cwd path tree).tree

theorem KeptBy.setPermissions (kept : KeptBy entry cwd related) (mode : Option Nat) :
    related tree (setPermissions cwd dest mode tree) := by
  unfold Fetchers.setPermissions
  split
  · split
    · rename_i file
      exact kept.files _ _ _ _ (by rw [file]; nofun)
    · exact kept.refl tree
  · exact kept.refl tree

theorem KeptBy.createFile (kept : KeptBy entry cwd related) (working : tree.nodeAt cwd = some .dir)
    (contents : ByteArray) : related tree (createFile cwd dest contents tree).tree := by
  unfold Fetchers.createFile
  split
  · exact kept.refl tree
  · rename_i opened
    exact kept.files _ _ _ _ (FileTree.fileAt_plain working opened)

theorem KeptBy.copyFile (kept : KeptBy entry cwd related) (working : tree.nodeAt cwd = some .dir)
    (source : PathBuf) : related tree (copyFile cwd source dest tree).tree := by
  unfold Fetchers.copyFile
  split
  · exact kept.refl tree
  · split
    · split
      · exact kept.refl tree
      · rename_i opened
        exact kept.files _ _ _ _ (FileTree.fileAt_plain working opened)
    · exact kept.refl tree

theorem KeptBy.createParent (kept : KeptBy entry cwd related)
    (working : tree.nodeAt cwd = some .dir) (dest : PathBuf) :
    related tree (createParent cwd dest tree).tree := by
  unfold Fetchers.createParent
  split
  · exact kept.dirs _ _ working
  · exact kept.refl tree

theorem createParent_working (working : tree.nodeAt cwd = some .dir) (dest : PathBuf) :
    (createParent cwd dest tree).tree.nodeAt cwd = some .dir := by
  unfold createParent
  split
  · exact FileTree.createDirAllAt_keepsDirs working _ cwd working
  · exact working

theorem KeptBy.extractEntry (kept : KeptBy entry cwd related)
    (working : tree.nodeAt cwd = some .dir) (outPath : PathBuf) (pfx : Option PathBuf) :
    related tree (extractEntry cwd outPath pfx entry tree).tree := by
  have opened : ∀ dest, related tree ((Fetchers.createParent cwd dest tree).andThen fun tree =>
      (Fetchers.createFile cwd dest entry.contents tree).andThen fun tree =>
        if entry.whole then .done (Fetchers.setPermissions cwd dest entry.mode tree)
        else .failed tree "unexpected end of file").tree := by
    intro dest
    have above := createParent_working working dest
    apply Calls.andThen_relates kept.trans (kept.createParent working dest)
    apply Calls.andThen_relates kept.trans (kept.createFile above _)
    split
    · exact kept.setPermissions _
    · exact kept.refl _
  unfold Fetchers.extractEntry
  split
  · exact kept.refl tree
  · rename_i dest _
    have above := createParent_working working dest
    split
    · exact opened dest
    · exact opened dest
    · exact kept.dirs _ _ working
    · rename_i kind
      apply Calls.andThen_relates kept.trans (kept.createParent working dest)
      split
      · exact kept.symlinks kind _ _ _
      · exact kept.refl _
    · apply Calls.andThen_relates kept.trans (kept.createParent working dest)
      split
      · dsimp only
        split
        · exact kept.copyFile above _
        · exact kept.refl _
      · exact kept.refl _
    · exact kept.refl tree

/-- An entry takes no directory away. -/
theorem keepsDirs_kept (entry : TarEntry) (cwd : Location) : KeptBy entry cwd KeepsDirs where
  refl := KeepsDirs.refl
  trans := fun _ _ _ => KeepsDirs.trans
  dirs := fun _ path working => FileTree.createDirAllAt_keepsDirs working path
  files := fun tree location contents mode _ =>
    FileTree.putFile_keepsDirs tree location contents mode
  symlinks := fun _ tree target path => FileTree.addNode_keepsDirs tree (.symlink target) cwd path

/-- An entry that is no symlink leaves the symlinks as they are. -/
theorem evolved_kept {entry : TarEntry} (plain : entry.entryType ≠ .symlink) (cwd : Location) :
    KeptBy entry cwd (FileTree.Evolved fun _ => False) where
  refl := FileTree.Evolved.refl _
  trans := fun _ _ _ => FileTree.Evolved.trans
  dirs := by
    intro tree path working
    rw [(FileTree.createDirAllAt_passage working path).1]
    exact FileTree.passage_evolved tree _ cwd path
  files := fun _ _ _ _ before => FileTree.putFile_evolved before
  symlinks := fun kind => absurd kind plain

end Steps

section Runs

/-- An entry that the loop comes to: the prefix known and the tree there is. -/
structure Visit where
  pfx : Option PathBuf
  entry : TarEntry
  tree : FileTree

/-- The entries that the loop comes to. -/
def visits (cwd : Location) (outPath : PathBuf) :
    Option PathBuf → List (Except String TarEntry) → FileTree → List Visit
  | _, [], _ => []
  | _, .error _ :: _, _ => []
  | known, .ok entry :: rest, tree =>
      let pfx := prefixToStrip known entry
      let extracted := extractEntry cwd outPath pfx entry tree
      ⟨pfx, entry, tree⟩ ::
        match extracted.result with
        | .ok () => visits cwd outPath pfx rest extracted.tree
        | .error _ => []

/-- The way of an entry stays below a directory as far as it has to be made, and so does the
place it then has. -/
structure Visit.Stays (visit : Visit) (cwd : Location) (outPath : PathBuf) (base : Location) :
    Prop where
  way : ∀ dest, destination outPath visit.pfx visit.entry = some dest →
    ∀ directory ∈ (visit.tree.passage FileTree.maxLinks cwd (visit.entry.way dest)).made,
      base <+: directory
  own : ∀ dest, destination outPath visit.pfx visit.entry = some dest →
    (visit.tree.passage FileTree.maxLinks cwd (visit.entry.way dest)).last ≠ none →
    ∀ location, visit.entry.place cwd outPath visit.pfx dest
      (visit.tree.passage FileTree.maxLinks cwd (visit.entry.way dest)).tree = some location →
      base <+: location

variable {tree : FileTree} {cwd base : Location} {outPath : PathBuf} {pfx known : Option PathBuf}
  {entry : TarEntry}

theorem stays_iff (outPath : PathBuf) (pfx : Option PathBuf) (entry : TarEntry) (base : Location)
    (working : tree.nodeAt cwd = some .dir) :
    (∀ location ∈ (extractEntry cwd outPath pfx entry tree).touched, base <+: location) ↔
      (Visit.mk pfx entry tree).Stays cwd outPath base := by
  cases goes : destination outPath pfx entry with
  | none =>
      refine iff_of_true ?_ ⟨?_, ?_⟩
      · simp [extractEntry, goes, Calls.done]
      · simp [goes]
      · simp [goes]
  | some dest =>
      rw [extractEntry_touched working goes]
      constructor
      · intro all
        refine ⟨?_, ?_⟩
        · intro other same directory made
          obtain rfl := Option.some.inj (goes.symm.trans same)
          exact all directory (List.mem_append_left _ made)
        · intro other same passes location placed
          obtain rfl := Option.some.inj (goes.symm.trans same)
          obtain ⟨last, ended⟩ := Option.ne_none_iff_exists'.mp passes
          apply all location
          apply List.mem_append_right
          dsimp only at ended placed ⊢
          rw [ended, Option.elim_some, placed]
          exact List.mem_singleton_self _
      · intro stays location member
        rcases List.mem_append.mp member with made | own
        · exact stays.way dest goes location made
        · cases ended : (tree.passage FileTree.maxLinks cwd (entry.way dest)).last with
          | none =>
              rw [ended] at own
              cases own
          | some last =>
              rw [ended, Option.elim_some, Option.mem_toList] at own
              exact stays.own dest goes (by rw [ended]; exact Option.some_ne_none _) location own

/-- What the entries touch is below a directory if and only if each of them stays there. -/
theorem extractEntries_stays_iff (working : tree.nodeAt cwd = some .dir)
    (archive : List (Except String TarEntry)) :
    (∀ location ∈ (extractEntries cwd outPath known archive tree).touched, base <+: location) ↔
      ∀ visit ∈ visits cwd outPath known archive tree, visit.Stays cwd outPath base := by
  induction archive generalizing known tree with
  | nil => simp [extractEntries, visits, Calls.done]
  | cons read rest ih =>
      cases read with
      | error reason => simp [extractEntries, visits, Calls.failed]
      | ok entry =>
          have own := stays_iff outPath (prefixToStrip known entry) entry base working
          have still := (keepsDirs_kept entry cwd).extractEntry working outPath
            (prefixToStrip known entry) _ working
          unfold extractEntries visits
          dsimp only
          rw [List.forall_mem_cons, ← own]
          cases ended : (extractEntry cwd outPath (prefixToStrip known entry) entry
              tree).result with
          | error reason =>
              rw [Calls.andThen_of_error ended]
              simp
          | ok done =>
              rw [Calls.andThen_of_ok ended]
              simp only [List.forall_mem_append, ih still]

/-- A tarball is extracted below the output directory if and only if each of its entries
that the loop comes to stays there. -/
theorem extractTar_stays_iff {start : FileTree} {made : List Location} {out : List Char}
    (working : tree.nodeAt cwd = some .dir)
    (opened : tree.createDirAllAt cwd (components out) = ⟨start, made, .ok ()⟩)
    (archive : List (Except String TarEntry)) :
    ∃ base touched, start.directoryAt cwd (components out) = some base ∧
      (extractTar cwd out archive tree).touched = made ++ touched ∧
      ((∀ location ∈ touched, base <+: location) ↔
        ∀ visit ∈ visits cwd (components out) none archive start,
          visit.Stays cwd (components out) base) := by
  obtain ⟨sameTree, -, succeeds⟩ := FileTree.createDirAllAt_passage working (components out)
  rw [opened] at sameTree succeeds
  obtain ⟨⟨left, base⟩, ended⟩ := Option.ne_none_iff_exists'.mp (succeeds.mp rfl)
  obtain ⟨⟨symlinks, resolved, -⟩, inside⟩ := FileTree.passage_resolve working ended
    (FileTree.Evolved.refl _ _)
  rw [← sameTree] at resolved inside
  have still : start.nodeAt cwd = some .dir := by
    have kept := FileTree.createDirAllAt_keepsDirs working (components out) _ working
    rwa [opened] at kept
  refine ⟨base, _, FileTree.directoryAt_eq_some.mpr ⟨⟨symlinks, resolved⟩, inside⟩, ?_,
    extractEntries_stays_iff still archive⟩
  rw [extractTar, opened]
  rfl

end Runs

section Host

def passwd : Location := ["etc".toList, "passwd".toList]

def hostTree : FileTree :=
  FileTree.ofEntries
    [(["etc".toList], .dir), (passwd, .file ⟨#[1]⟩ 0o644), (["nix".toList], .dir),
      (["nix".toList, "store".toList], .dir)] (by decide +kernel) (by decide +kernel)

def sourceOut : List Char := "/nix/store/src".toList

/-- The store with the empty output directory. -/
def sourceStart : Calls := hostTree.createDirAllAt [] (components sourceOut)

def fileEntry (path : String) : TarEntry where
  path := path.toList
  entryType := .regular
  linkName := none
  contents := ∅
  whole := true
  mode := some 0o644

theorem sourceStart_opened :
    hostTree.createDirAllAt [] (components sourceOut) =
      ⟨sourceStart.tree, sourceStart.touched, .ok ()⟩ := by
  have result : sourceStart.result = .ok () := by decide +kernel
  rw [← result]
  rfl

/-- A tarball as it should be stays in the output directory. -/
theorem source_stays :
    ∃ base, sourceStart.tree.directoryAt [] (components sourceOut) = some base ∧
      ∀ visit ∈ visits [] (components sourceOut) none
        [.ok (fileEntry "p/flake.nix"), .ok (fileEntry "p/pkgs/rg.nix")] sourceStart.tree,
        visit.Stays [] (components sourceOut) base := by
  obtain ⟨base, touched, resolved, all, stays⟩ := extractTar_stays_iff rfl sourceStart_opened
    [.ok (fileEntry "p/flake.nix"), .ok (fileEntry "p/pkgs/rg.nix")]
  refine ⟨base, resolved, stays.mp ?_⟩
  have here : sourceStart.tree.directoryAt [] (components sourceOut) =
      some ["nix".toList, "store".toList, "src".toList] := by
    decide +kernel
  obtain rfl := Option.some.inj (resolved.symm.trans here)
  have below : ∀ location ∈ (extractTar [] sourceOut
      [.ok (fileEntry "p/flake.nix"), .ok (fileEntry "p/pkgs/rg.nix")] hostTree).touched,
      ["nix".toList, "store".toList, "src".toList] <+: location := by
    decide +kernel
  intro location member
  exact below location (all ▸ List.mem_append_right _ member)

/-- An entry goes up from the output directory and overwrites a file of the system. -/
theorem passwd_overwritten :
    ¬ ∀ (cwd : Location) (out : List Char) (archive : List (Except String TarEntry))
      (tree start : FileTree) (made : List Location), tree.nodeAt cwd = some .dir →
      tree.createDirAllAt cwd (components out) = ⟨start, made, .ok ()⟩ →
      ∃ base touched, start.directoryAt cwd (components out) = some base ∧
        (extractTar cwd out archive tree).touched = made ++ touched ∧
        ∀ location ∈ touched, base <+: location := by
  intro always
  obtain ⟨base, touched, resolved, all, below⟩ := always [] sourceOut
    [.ok (fileEntry "p/flake.nix"), .ok (fileEntry "p/../../../etc/passwd")] hostTree
    sourceStart.tree sourceStart.touched rfl sourceStart_opened
  have here : sourceStart.tree.directoryAt [] (components sourceOut) =
      some ["nix".toList, "store".toList, "src".toList] := by
    decide +kernel
  obtain rfl := Option.some.inj (resolved.symm.trans here)
  have whole : (extractTar [] sourceOut
      [.ok (fileEntry "p/flake.nix"), .ok (fileEntry "p/../../../etc/passwd")]
      hostTree).touched = sourceStart.touched ++
        [["nix".toList, "store".toList, "src".toList, "flake.nix".toList], passwd] := by
    decide +kernel
  have same := List.append_cancel_left (whole.symm.trans all)
  have outside := below passwd (by rw [← same]; simp)
  exact absurd outside (by decide +kernel)

end Host

end NixRedox.Fetchers
