import NixRedox.GcRoots
import NixRedox.KeyedMap
import NixRedox.StepRuns

set_option autoImplicit false

/- The profile of installed packages (`install.rs`) without the `profiled` daemon: its
links, its manifest and its GC roots. -/
namespace NixRedox.Install

open StepRuns (EachMeets Throughout eachMeets_isSome runAll throughout_iff_eachMeets
  throughout_of_eachMeets)

/-- A package of a cache index. -/
structure PackageEntry where
  storePath : String
  pname : String
  version : String
  deriving DecidableEq, Repr

structure InstalledPackage where
  name : String
  pname : String
  version : String
  storePath : String
  binaries : List String
  deriving DecidableEq, Repr

/-- The symlinks of the profile's `bin` directory by name, the packages of its manifest, the
GC roots, and the store paths that exist. -/
structure Profile where
  links : AList fun _ : String => String
  packages : AList fun _ : String => InstalledPackage
  roots : GcRoots
  present : Finset String

/-- What a call finds: the index of its cache, whether the `stored` daemon runs, how fetching
ends, the paths a recursive fetch brings in besides the package, and the first failure of
the profile's own files. -/
structure World where
  displayName : String
  index : Except String (AList fun _ : String => PackageEntry)
  storedRunning : Bool
  fetch : Except String Unit
  dependencies : Finset String
  failure : Option String

/-- The names in the `bin` directory of a store path in the order of `read_dir`, if that is a
directory, for the store paths that exist. A symlink is followed. -/
abbrev BinDir := Finset String → String → Option (List String)

variable (hash : StorePathHash) (nameMax : Nat) (binDir : BinDir)

/-- What a package has in its `bin` directory. -/
def provided (present : Finset String) (storePath : String) : List String :=
  (binDir present storePath).getD []

/-- Link every binary, over a link of that name if there is one, and list the names sorted. -/
def linkPackageBinaries (present : Finset String) (storePath : String)
    (links : AList fun _ : String => String) :
    (AList fun _ : String => String) × List String :=
  match binDir present storePath with
  | none => (links, [])
  | some names =>
      (names.foldl (fun links name => links.insert name (storePath ++ "/bin/" ++ name)) links,
        names.insertionSort (· ≤ ·))

def rootName (name : String) : String := "profile-" ++ name

/-- The store after the fetch of `install_with_options`; a lazy install leaves the extraction
to the daemon. -/
def fetchPackage (world : World) (isLazy : Bool) (entry : PackageEntry)
    (present : Finset String) : Except String (Finset String) :=
  if entry.storePath ∈ present then
    .ok present
  else
    match world.fetch with
    | .error reason => .error reason
    | .ok () =>
        if isLazy && world.storedRunning then .ok present
        else .ok (insert entry.storePath present)

/-- The profile with a package added: its root, its links and its entry in the manifest. -/
def addPackage (name : String) (entry : PackageEntry) (profile : Profile)
    (present : Finset String) : Except String Profile :=
  match profile.roots.addRoot hash nameMax (rootName name) entry.storePath with
  | .error reason => .error reason
  | .ok roots =>
      let (links, binaries) := linkPackageBinaries binDir present entry.storePath profile.links
      .ok {
        links
        packages := profile.packages.insert name
          { name, pname := entry.pname, version := entry.version, storePath := entry.storePath,
            binaries }
        roots
        present }

/-- `install_with_options`, if it succeeds. -/
def installWithOptions (name : String) (world : World) (isLazy : Bool) (profile : Profile) :
    Except String Profile :=
  match world.index with
  | .error reason => .error reason
  | .ok index =>
      match index.lookup name with
      | none => .error ("package '" ++ name ++ "' not found in " ++ world.displayName ++
          ". Run `snix search` to list available packages.")
      | some entry =>
          if name ∈ profile.packages then
            .ok profile
          else
            match fetchPackage world isLazy entry profile.present with
            | .error reason => .error reason
            | .ok present =>
                match world.failure with
                | some reason => .error reason
                | none => addPackage hash nameMax binDir name entry profile present

/-- `install_recursive`, if it succeeds. The fetch also runs for a package that is listed. -/
def installRecursive (name : String) (world : World) (profile : Profile) :
    Except String Profile :=
  match world.index with
  | .error reason => .error reason
  | .ok index =>
      match index.lookup name with
      | none => .error ("package '" ++ name ++ "' not found in " ++ world.displayName ++ ".")
      | some entry =>
          match world.fetch with
          | .error reason => .error reason
          | .ok () =>
              let present := insert entry.storePath (world.dependencies ∪ profile.present)
              if name ∈ profile.packages then
                .ok { profile with present }
              else
                match world.failure with
                | some reason => .error reason
                | none => addPackage hash nameMax binDir name entry profile present

/-- `remove`, if it succeeds. Whether the root could be removed is ignored. -/
def remove (name : String) (failure rootFailure : Option String) (profile : Profile) :
    Except String Profile :=
  match profile.packages.lookup name with
  | none => .error ("'" ++ name ++
      "' is not installed. Run `snix profile list` to see installed packages.")
  | some package =>
      match failure with
      | some reason => .error reason
      | none =>
          .ok { profile with
            links := package.binaries.foldl (fun links binary => links.erase binary) profile.links
            packages := profile.packages.erase name
            roots :=
              match rootFailure with
              | some _ => profile.roots
              | none => (profile.roots.removeRoot (rootName name)).toOption.getD profile.roots }

inductive Call where
  | install (name : String) (world : World) (isLazy : Bool)
  | installRecursive (name : String) (world : World)
  | remove (name : String) (failure rootFailure : Option String)

/-- A call that succeeds. -/
def step (profile : Profile) : Call → Option Profile
  | .install name world isLazy =>
      (installWithOptions hash nameMax binDir name world isLazy profile).toOption
  | .installRecursive name world => (installRecursive hash nameMax binDir name world profile).toOption
  | .remove name failure rootFailure => (remove name failure rootFailure profile).toOption

/-- A profile without packages, on a machine with any store and any other roots. -/
def emptyProfile (present : Finset String) (roots : GcRoots) : Profile where
  links := ∅
  packages := ∅
  roots
  present

/-- The links follow the packages: every link points into the store path of a listed package,
every binary of a listed package has a link, and every listed package has its root. -/
structure Follows (profile : Profile) : Prop where
  targets : ∀ name target, profile.links.lookup name = some target →
    ∃ key package, profile.packages.lookup key = some package ∧
      (package.storePath ++ "/").toList <+: target.toList
  linked : ∀ key package, profile.packages.lookup key = some package →
    ∀ binary ∈ provided binDir profile.present package.storePath, binary ∈ profile.links
  rooted : ∀ key package, profile.packages.lookup key = some package →
    profile.roots.links.lookup (rootName key) = some package.storePath

/-- What the listed packages provide in a store is linked already, or is among the names. -/
def Covered (profile : Profile) (present : Finset String) (names : List String) : Prop :=
  ∀ key package, profile.packages.lookup key = some package →
    ∀ binary ∈ provided binDir present package.storePath,
      binary ∈ profile.links ∨ binary ∈ names

/-- No binary of a package that stays is unlinked, and what is fetched gives a listed package
no binary without a link. -/
def Careful (profile : Profile) : Call → Prop
  | .install name world isLazy =>
      ∀ index entry present, world.index = .ok index → index.lookup name = some entry →
        name ∉ profile.packages → fetchPackage world isLazy entry profile.present = .ok present →
          Covered binDir profile present (provided binDir present entry.storePath)
  | .installRecursive name world =>
      ∀ index entry present, world.index = .ok index → index.lookup name = some entry →
        present = insert entry.storePath (world.dependencies ∪ profile.present) →
          Covered binDir profile present
            (if name ∈ profile.packages then [] else provided binDir present entry.storePath)
  | .remove name _ _ =>
      ∀ removed, profile.packages.lookup name = some removed →
        ∀ key package, key ≠ name → profile.packages.lookup key = some package →
          ∀ binary ∈ provided binDir profile.present package.storePath, binary ∉ removed.binaries

section Steps

variable {hash : StorePathHash} {nameMax : Nat} {binDir : BinDir} {profile next : Profile}

/-- Where each link comes from, and the roots. -/
structure Tracked (profile : Profile) : Prop where
  links : ∀ name target, profile.links.lookup name = some target →
    ∃ key package, profile.packages.lookup key = some package ∧ name ∈ package.binaries ∧
      target = package.storePath ++ "/bin/" ++ name
  rooted : ∀ key package, profile.packages.lookup key = some package →
    profile.roots.links.lookup (rootName key) = some package.storePath

/-- What an added package changes. -/
structure Added (binDir : BinDir) (name storePath : String) (present : Finset String)
    (profile next : Profile) : Prop where
  links : ∀ key, next.links.lookup key =
    if key ∈ provided binDir present storePath then some (storePath ++ "/bin/" ++ key)
    else profile.links.lookup key
  package : ∃ package, next.packages = profile.packages.insert name package ∧
    package.storePath = storePath ∧
    ∀ binary, binary ∈ package.binaries ↔ binary ∈ provided binDir present storePath
  roots : next.roots.links = profile.roots.links.insert (rootName name) storePath
  present : next.present = present

theorem addPackage_ok {name : String} {entry : PackageEntry} {present : Finset String}
    (added : addPackage hash nameMax binDir name entry profile present = .ok next) :
    Added binDir name entry.storePath present profile next := by
  unfold addPackage at added
  split at added
  · cases added
  · rename_i roots rooted
    cases added
    unfold GcRoots.addRoot at rooted
    split at rooted
    · cases rooted
    · split at rooted
      · cases rooted
        constructor
        · intro key
          unfold provided
          cases binDir present entry.storePath with
          | none => rfl
          | some names => exact KeyedMap.lookup_foldl_insert _ names profile.links key
        · refine ⟨_, rfl, rfl, ?_⟩
          intro binary
          unfold provided
          cases binDir present entry.storePath with
          | none => simp
          | some names => simp
        · rfl
        · rfl
      · cases rooted

theorem rootName_injective {one two : String} (same : rootName one = rootName two) : one = two := by
  have texts := congrArg String.toList same
  rw [rootName, rootName, String.toList_append, String.toList_append,
    List.append_cancel_left_eq] at texts
  exact String.toList_inj.mp texts

/-- What a removed package changes. -/
structure Removed (name : String) (profile next : Profile) : Prop where
  links : ∃ package, profile.packages.lookup name = some package ∧ ∀ key,
    next.links.lookup key =
      if key ∈ package.binaries then none else profile.links.lookup key
  packages : next.packages = profile.packages.erase name
  roots : ∀ key, key ≠ rootName name → next.roots.links.lookup key = profile.roots.links.lookup key
  present : next.present = profile.present

theorem remove_ok {name : String} {failure rootFailure : Option String}
    (removed : remove name failure rootFailure profile = .ok next) :
    Removed name profile next := by
  unfold remove at removed
  split at removed
  · cases removed
  · rename_i package listed
    split at removed
    · cases removed
    · cases removed
      constructor
      · exact ⟨package, listed, KeyedMap.lookup_foldl_erase _ _⟩
      · rfl
      · intro key other
        cases rootFailure with
        | some reason => rfl
        | none =>
            show ((profile.roots.removeRoot (rootName name)).toOption.getD profile.roots).links.lookup
              key = _
            unfold GcRoots.removeRoot
            split
            · exact AList.lookup_erase_ne other
            · rfl
      · rfl

theorem Added.tracked {name storePath : String} {present : Finset String}
    (added : Added binDir name storePath present profile next) (fresh : name ∉ profile.packages)
    (tracked : Tracked profile) : Tracked next := by
  obtain ⟨package, packages, path, binaries⟩ := added.package
  have kept : ∀ key other, profile.packages.lookup key = some other → key ≠ name ∧
      next.packages.lookup key = some other := by
    intro key other listed
    have apart : key ≠ name := by
      rintro rfl
      rw [← AList.lookup_eq_none, listed] at fresh
      cases fresh
    exact ⟨apart, by rw [packages, AList.lookup_insert_ne apart, listed]⟩
  constructor
  · intro key target link
    rw [added.links] at link
    split at link
    · rename_i own
      cases link
      refine ⟨name, package, ?_, (binaries key).mpr own, by rw [path]⟩
      rw [packages, AList.lookup_insert]
    · obtain ⟨other, found, listed, member, same⟩ := tracked.links key target link
      exact ⟨other, found, (kept other found listed).2, member, same⟩
  · intro key found listed
    rw [added.roots]
    by_cases own : key = name
    · subst own
      rw [packages, AList.lookup_insert] at listed
      cases listed
      rw [AList.lookup_insert, path]
    · rw [packages, AList.lookup_insert_ne own] at listed
      rw [AList.lookup_insert_ne (fun same => own (rootName_injective same))]
      exact tracked.rooted key found listed

/-- Every binary of a listed package has a link. -/
def Linked (binDir : BinDir) (profile : Profile) : Prop :=
  ∀ key package, profile.packages.lookup key = some package →
    ∀ binary ∈ provided binDir profile.present package.storePath, binary ∈ profile.links

theorem Added.linked_iff {name storePath : String} {present : Finset String}
    (added : Added binDir name storePath present profile next) (fresh : name ∉ profile.packages) :
    Linked binDir next ↔ Covered binDir profile present (provided binDir present storePath) := by
  obtain ⟨package, packages, path, -⟩ := added.package
  have links : ∀ binary, binary ∈ next.links ↔
      binary ∈ profile.links ∨ binary ∈ provided binDir present storePath := by
    intro binary
    rw [← AList.lookup_isSome, added.links, ← AList.lookup_isSome]
    split
    · rename_i own
      simp [own]
    · rename_i other
      simp [other]
  unfold Linked Covered
  simp only [added.present, links, packages]
  constructor
  · intro always key other listed
    have apart : key ≠ name := by
      rintro rfl
      rw [← AList.lookup_eq_none, listed] at fresh
      cases fresh
    apply always key other
    rw [AList.lookup_insert_ne apart, listed]
  · intro covered key other listed binary member
    by_cases own : key = name
    · subst own
      rw [AList.lookup_insert] at listed
      cases listed
      rw [path] at member
      exact .inr member
    · rw [AList.lookup_insert_ne own] at listed
      exact covered key other listed binary member

theorem Removed.linked_iff {name : String} (removed : Removed name profile next)
    (linked : Linked binDir profile) :
    Linked binDir next ↔ ∀ package, profile.packages.lookup name = some package →
      ∀ key other, key ≠ name → profile.packages.lookup key = some other →
        ∀ binary ∈ provided binDir profile.present other.storePath, binary ∉ package.binaries := by
  obtain ⟨package, own, links⟩ := removed.links
  have stays : ∀ binary, binary ∈ next.links ↔ binary ∈ profile.links ∧
      binary ∉ package.binaries := by
    intro binary
    rw [← AList.lookup_isSome, links, ← AList.lookup_isSome]
    split
    · rename_i gone
      simp [gone]
    · rename_i kept
      simp [kept]
  unfold Linked
  simp only [removed.present, stays, removed.packages]
  constructor
  · intro always found same key other apart listed binary member
    rw [own] at same
    cases same
    apply (always key other ?_ binary member).2
    rw [AList.lookup_erase_ne apart, listed]
  · intro apart key other listed binary member
    have different : key ≠ name := by
      rintro rfl
      rw [AList.lookup_erase] at listed
      cases listed
    rw [AList.lookup_erase_ne different] at listed
    exact ⟨linked key other listed binary member,
      apart package own key other different listed binary member⟩

theorem Removed.tracked {name : String} (removed : Removed name profile next)
    (tracked : Tracked profile) : Tracked next := by
  obtain ⟨package, own, links⟩ := removed.links
  constructor
  · intro key target link
    rw [links] at link
    split at link
    · cases link
    · rename_i unlisted
      obtain ⟨other, found, listed, member, same⟩ := tracked.links key target link
      have apart : other ≠ name := by
        rintro rfl
        rw [own] at listed
        cases listed
        exact unlisted member
      refine ⟨other, found, ?_, member, same⟩
      rw [removed.packages, AList.lookup_erase_ne apart, listed]
  · intro key found listed
    have apart : key ≠ name := by
      rintro rfl
      rw [removed.packages, AList.lookup_erase] at listed
      cases listed
    rw [removed.packages, AList.lookup_erase_ne apart] at listed
    rw [removed.roots _ (fun same => apart (rootName_injective same))]
    exact tracked.rooted key found listed

end Steps

section Calls

variable {hash : StorePathHash} {nameMax : Nat} {binDir : BinDir} {profile next : Profile}
  {name : String} {world : World}

theorem installWithOptions_ok {isLazy : Bool}
    (installed : installWithOptions hash nameMax binDir name world isLazy profile = .ok next) :
    ∃ index entry, world.index = .ok index ∧ index.lookup name = some entry ∧
      ((name ∈ profile.packages ∧ next = profile) ∨
        ∃ present, name ∉ profile.packages ∧
          fetchPackage world isLazy entry profile.present = .ok present ∧
          Added binDir name entry.storePath present profile next) := by
  unfold installWithOptions at installed
  split at installed
  · cases installed
  · rename_i index read
    split at installed
    · cases installed
    · rename_i entry found
      refine ⟨index, entry, read, found, ?_⟩
      split at installed
      · rename_i listed
        cases installed
        exact .inl ⟨listed, rfl⟩
      · rename_i fresh
        split at installed
        · cases installed
        · rename_i present fetched
          split at installed
          · cases installed
          · exact .inr ⟨present, fresh, fetched, addPackage_ok installed⟩

theorem installRecursive_ok
    (installed : installRecursive hash nameMax binDir name world profile = .ok next) :
    ∃ index entry, world.index = .ok index ∧ index.lookup name = some entry ∧
      ((name ∈ profile.packages ∧ next = { profile with
          present := insert entry.storePath (world.dependencies ∪ profile.present) }) ∨
        name ∉ profile.packages ∧ Added binDir name entry.storePath
          (insert entry.storePath (world.dependencies ∪ profile.present)) profile next) := by
  unfold installRecursive at installed
  split at installed
  · cases installed
  · rename_i index read
    split at installed
    · cases installed
    · rename_i entry found
      refine ⟨index, entry, read, found, ?_⟩
      split at installed
      · cases installed
      · dsimp only at installed
        split at installed
        · rename_i listed
          cases installed
          exact .inl ⟨listed, rfl⟩
        · rename_i fresh
          split at installed
          · cases installed
          · exact .inr ⟨fresh, addPackage_ok installed⟩

theorem toOption_eq_some {α : Type} {result : Except String α} {value : α}
    (found : result.toOption = some value) : result = .ok value := by
  cases result with
  | error reason => cases found
  | ok other =>
      cases found
      rfl

theorem step_tracked {call : Call} (tracked : Tracked profile)
    (stepped : step hash nameMax binDir profile call = some next) : Tracked next := by
  cases call with
  | install name world isLazy =>
      obtain ⟨index, entry, -, -, ⟨-, rfl⟩ | ⟨present, fresh, -, added⟩⟩ :=
        installWithOptions_ok (toOption_eq_some stepped)
      · exact tracked
      · exact added.tracked fresh tracked
  | installRecursive name world =>
      obtain ⟨index, entry, -, -, ⟨-, rfl⟩ | ⟨fresh, added⟩⟩ :=
        installRecursive_ok (toOption_eq_some stepped)
      · exact ⟨tracked.links, tracked.rooted⟩
      · exact added.tracked fresh tracked
  | remove name failure rootFailure =>
      exact (remove_ok (toOption_eq_some stepped)).tracked tracked

/-- A call keeps every binary linked exactly if it is careful. -/
theorem step_linked_iff {call : Call} (linked : Linked binDir profile)
    (stepped : step hash nameMax binDir profile call = some next) :
    Linked binDir next ↔ Careful binDir profile call := by
  cases call with
  | install name world isLazy =>
      obtain ⟨index, entry, read, found, ⟨listed, rfl⟩ | ⟨present, fresh, fetched, added⟩⟩ :=
        installWithOptions_ok (toOption_eq_some stepped)
      · simp [linked, Careful, listed]
      · rw [added.linked_iff fresh]
        constructor
        · intro covered otherIndex otherEntry otherPresent readToo foundToo _ fetchedToo
          rw [read] at readToo
          cases readToo
          rw [found] at foundToo
          cases foundToo
          rw [fetched] at fetchedToo
          cases fetchedToo
          exact covered
        · intro careful
          exact careful index entry present read found fresh fetched
  | installRecursive name world =>
      obtain ⟨index, entry, read, found, rest⟩ := installRecursive_ok (toOption_eq_some stepped)
      have covers : Linked binDir next ↔ Covered binDir profile
          (insert entry.storePath (world.dependencies ∪ profile.present))
          (if name ∈ profile.packages then [] else provided binDir
            (insert entry.storePath (world.dependencies ∪ profile.present)) entry.storePath) := by
        rcases rest with ⟨listed, rfl⟩ | ⟨fresh, added⟩
        · simp [Linked, Covered, listed]
        · rw [if_neg fresh, added.linked_iff fresh]
      rw [covers]
      constructor
      · intro covered otherIndex otherEntry present readToo foundToo same
        rw [read] at readToo
        cases readToo
        rw [found] at foundToo
        cases foundToo
        rw [same]
        exact covered
      · intro careful
        exact careful index entry _ read found rfl
  | remove name failure rootFailure =>
      exact (remove_ok (toOption_eq_some stepped)).linked_iff linked

theorem follows_iff (tracked : Tracked profile) :
    Follows binDir profile ↔ Linked binDir profile := by
  constructor
  · intro follows
    exact follows.linked
  · intro linked
    refine ⟨?_, linked, tracked.rooted⟩
    intro name target link
    obtain ⟨key, package, listed, -, rfl⟩ := tracked.links name target link
    refine ⟨key, package, listed, "bin/".toList ++ name.toList, ?_⟩
    have joined : "/bin/".toList = "/".toList ++ "bin/".toList := rfl
    simp only [String.toList_append, joined, List.append_assoc]

/-- After every call of a sequence of successful calls the links follow the packages, exactly
if each call is careful. -/
theorem links_follow_iff {present : Finset String} {roots : GcRoots} {calls : List Call}
    (succeeds : (runAll (step hash nameMax binDir) (emptyProfile present roots) calls).isSome = true) :
    Throughout (step hash nameMax binDir) (Follows binDir) (emptyProfile present roots) calls ↔
      EachMeets (step hash nameMax binDir) (Careful binDir) (emptyProfile present roots) calls := by
  have start : Tracked (emptyProfile present roots) := by
    constructor
    · intro name target link
      cases link
    · intro key package listed
      cases listed
  have tracked : Throughout (step hash nameMax binDir) Tracked (emptyProfile present roots) calls := by
    have always : EachMeets (step hash nameMax binDir) (fun _ _ => True) (emptyProfile present roots)
        calls := fun _ _ _ _ _ _ => trivial
    refine throughout_of_eachMeets ?_ start always
    intro state call next before _ stepped
    exact step_tracked before stepped
  have exact_ : Throughout (step hash nameMax binDir) (fun profile => Tracked profile ∧
      Linked binDir profile) (emptyProfile present roots) calls ↔
        EachMeets (step hash nameMax binDir) (Careful binDir) (emptyProfile present roots) calls := by
    refine throughout_iff_eachMeets ?_ ?_ ⟨start, ?_⟩ (eachMeets_isSome succeeds)
    · intro state call runs stopped
      rw [stopped] at runs
      cases runs
    · intro state call next before _ stepped
      rw [← step_linked_iff before.2 stepped]
      exact ⟨And.right, fun linked => ⟨step_tracked before.1 stepped, linked⟩⟩
    · intro key package listed
      cases listed
  rw [← exact_]
  constructor
  · intro always done rest reached split run
    have now := tracked done rest reached split run
    exact ⟨now, (follows_iff now).mp (always done rest reached split run)⟩
  · intro always done rest reached split run
    have both := always done rest reached split run
    exact (follows_iff both.1).mpr both.2

end Calls

section SharedNames

def searchPath : String := "/nix/store/22222222222222222222222222222222-ripgrep"

def otherPath : String := "/nix/store/33333333333333333333333333333333-ripgrep-all"

/-- A cache with two packages that both have a binary `rg`. -/
def searchIndex : AList fun _ : String => PackageEntry :=
  (AList.singleton "ripgrep" ⟨searchPath, "ripgrep", "14.1.0"⟩).insert "ripgrep-all"
    ⟨otherPath, "ripgrep-all", "1.0.0"⟩

def searchWorld : World where
  displayName := "local cache"
  index := .ok searchIndex
  storedRunning := false
  fetch := .ok ()
  dependencies := ∅
  failure := none

def searchBin : BinDir := fun present path => if path ∈ present then some ["rg"] else none

/-- The second package takes the name over, and its removal leaves the first one unlinked. -/
def takeOver : List Call :=
  [.install "ripgrep" searchWorld false, .install "ripgrep-all" searchWorld false,
    .remove "ripgrep-all" none none]

theorem takeOver_end :
    ∃ profile, runAll (step literalHash 255 searchBin) (emptyProfile ∅ ⟨∅⟩) takeOver = some profile ∧
      profile.links.lookup "rg" = none ∧ searchPath ∈ profile.present ∧
      profile.packages.lookup "ripgrep" =
        some ⟨"ripgrep", "ripgrep", "14.1.0", searchPath, ["rg"]⟩ := by
  have ends : (runAll (step literalHash 255 searchBin) (emptyProfile ∅ ⟨∅⟩) takeOver).map
      (fun profile => (profile.links.lookup "rg", decide (searchPath ∈ profile.present),
        profile.packages.lookup "ripgrep")) =
      some (none, true, some ⟨"ripgrep", "ripgrep", "14.1.0", searchPath, ["rg"]⟩) := by
    decide +kernel
  obtain ⟨profile, run, same⟩ := Option.map_eq_some_iff.mp ends
  simp only [Prod.mk.injEq, decide_eq_true_eq] at same
  exact ⟨profile, run, same⟩

/-- Links do not always follow the packages. -/
theorem shared_name_unlinked :
    ¬ ∀ (hash : StorePathHash) (nameMax : Nat) (binDir : BinDir) (present : Finset String)
      (roots : GcRoots) (calls : List Call) (profile : Profile),
        runAll (step hash nameMax binDir) (emptyProfile present roots) calls = some profile →
        Follows binDir profile := by
  intro always
  obtain ⟨profile, run, unlinked, present, listed⟩ := takeOver_end
  have follows := always literalHash 255 searchBin ∅ ⟨∅⟩ takeOver profile run
  have member : "rg" ∈ provided searchBin profile.present searchPath := by
    simp [provided, searchBin, present]
  have linked := follows.linked "ripgrep" _ listed "rg" member
  rw [← AList.lookup_isSome, unlinked] at linked
  cases linked

theorem links_follow_search :
    Throughout (step literalHash 255 searchBin) (Follows searchBin) (emptyProfile ∅ ⟨∅⟩)
      [.install "ripgrep" searchWorld false] := by
  apply (links_follow_iff (by decide +kernel)).mpr
  rw [StepRuns.eachMeets_cons]
  refine ⟨?_, fun _ _ => StepRuns.eachMeets_nil⟩
  intro index entry present read found fresh fetched key package listed
  cases listed

end SharedNames

end NixRedox.Install
