import NixRedox.GcRoots
import NixRedox.SystemManifest

set_option autoImplicit false

/- GC roots of system generations (`update_system_gc_roots_with` of `system.rs`). -/
namespace NixRedox.System

/-- A root asked for: its name and the path it is to protect. -/
abbrev RootRequest := String × String

def rootName (id : UInt32) (name : String) : String := "gen-" ++ toString id.toNat ++ "-" ++ name

/-- Ask for roots one after the other. A refused one is only warned about; the
number of the others is returned. -/
def addRoots (hash : StorePathHash) (nameMax : Nat) (roots : GcRoots) (requests : List RootRequest) :
    GcRoots × Nat :=
  requests.foldl (fun state request =>
    match state.1.addRoot hash nameMax request.1 request.2 with
    | .ok roots => (roots, state.2 + 1)
    | .error _ => state) (roots, 0)

def packageRequests (id : UInt32) (packages : List Package) : List RootRequest :=
  (packages.filter (·.storePath ≠ "")).map fun package =>
    (rootName id package.name, package.storePath)

def addGenerationGcRoots (hash : StorePathHash) (nameMax : Nat) (roots : GcRoots) (id : UInt32)
    (packages : List Package) : GcRoots × Nat :=
  addRoots hash nameMax roots (packageRequests id packages)

/-- `/nix/store/abc-kernel/boot/kernel` is in `/nix/store/abc-kernel`. -/
def extractStoreDir (path : String) : String :=
  let store := "/nix/store/".toList
  if store.isPrefixOf path.toList then
    match Text.splitFirstSlash (path.toList.drop store.length) with
    | (directory, some _) => String.ofList (store ++ directory)
    | (_, none) => path
  else
    path

def bootRequests (id : UInt32) : Option BootComponents → List RootRequest
  | none => []
  | some boot =>
      [("boot-kernel", boot.kernel), ("boot-initfs", boot.initfs),
        ("boot-bootloader", boot.bootloader)].filterMap fun component =>
          component.2.map fun path => (rootName id component.1, extractStoreDir path)

def addBootGcRoots (hash : StorePathHash) (nameMax : Nat) (roots : GcRoots) (id : UInt32)
    (boot : Option BootComponents) : GcRoots × Nat :=
  addRoots hash nameMax roots (bootRequests id boot)

def systemRequests (id : UInt32) (manifest : Manifest) : List RootRequest :=
  [("toplevel", manifest.toplevel), ("etc-source", manifest.etcSource)].filterMap fun output =>
    output.2.map fun path => (rootName id output.1, path)

/-- The naming before roots were kept per generation. -/
def isLegacy (name : String) : Bool := "system-".toList.isPrefixOf name.toList

/-- Root the packages of all stored generations, then drop the legacy roots. -/
def migrateGcRootsIfNeeded (hash : StorePathHash) (nameMax : Nat) (roots : GcRoots)
    (scan : Except String (List Generation)) : Except String GcRoots :=
  let oldRoots := roots.listRoots.filter fun root => isLegacy root.name
  if oldRoots = [] then
    .ok roots
  else
    match scan with
    | .error reason => .error reason
    | .ok generations =>
        let rooted := generations.foldl (fun roots generation =>
          (addGenerationGcRoots hash nameMax roots generation.id
            generation.manifest.packages).1) roots
        .ok (oldRoots.foldl (fun roots root =>
          ((roots.removeRoot root.name).toOption).getD roots) rooted)

/-- `scan` is what `scan_generations` answers, should the migration ask. -/
def updateSystemGcRootsWith (hash : StorePathHash) (nameMax : Nat) (roots : GcRoots)
    (manifest : Manifest) (scan : Except String (List Generation)) : Except String GcRoots :=
  match migrateGcRootsIfNeeded hash nameMax roots scan with
  | .error reason => .error reason
  | .ok roots =>
      let id := manifest.generation.id
      let roots := (addGenerationGcRoots hash nameMax roots id manifest.packages).1
      let roots := (addBootGcRoots hash nameMax roots id manifest.boot).1
      .ok (addRoots hash nameMax roots (systemRequests id manifest)).1

/-- The paths a manifest keeps alive. -/
def protectedPaths (manifest : Manifest) : List String :=
  (manifest.packages.map (·.storePath) ++
    (match manifest.boot with
      | none => []
      | some boot => [boot.kernel, boot.initfs, boot.bootloader].filterMap
          (Option.map extractStoreDir)) ++
    manifest.toplevel.toList ++ manifest.etcSource.toList).filter (· ≠ "")

/-- The number in a root name of the form `gen-{K}-…`. -/
def generationOfRoot (name : String) : Option Nat :=
  let tag := "gen-".toList
  if tag.isPrefixOf name.toList then
    let rest := name.toList.drop tag.length
    let digits := rest.takeWhile Char.isDigit
    if (rest.drop digits.length).head? = some '-' then Text.decimalValue digits else none
  else
    none

/-- A path that must have a root after the update: one of the manifest, one rooted
for another generation, or one of a stored generation that had a legacy root. -/
inductive MustKeep (roots : GcRoots) (manifest : Manifest) (stored : List Generation) :
    String → Prop where
  | own {path : String} (member : path ∈ protectedPaths manifest) :
      MustKeep roots manifest stored path
  | other {path name : String} {number : Nat} (found : roots.links.lookup name = some path)
      (generation : generationOfRoot name = some number)
      (differs : number ≠ manifest.generation.id.toNat) : MustKeep roots manifest stored path
  | legacy {path name : String} {generation : Generation}
      (found : roots.links.lookup name = some path) (old : isLegacy name = true)
      (member : generation ∈ stored) (part : path ∈ protectedPaths generation.manifest) :
      MustKeep roots manifest stored path

/-- Everything the update asks for, in order. -/
def allRequests (roots : GcRoots) (manifest : Manifest) (stored : List Generation) :
    List RootRequest :=
  let id := manifest.generation.id
  (if roots.listRoots.any fun root => isLegacy root.name then
      stored.flatMap fun generation =>
        packageRequests generation.id generation.manifest.packages
    else []) ++
  packageRequests id manifest.packages ++ bootRequests id manifest.boot ++
    systemRequests id manifest

section Condition

variable (hash : StorePathHash) (nameMax : Nat)

/-- `add_root` accepts the request: a store path, under a name that a link can have. -/
def accepted (request : RootRequest) : Bool :=
  (hash request.2).isOk && GcRoots.linkable nameMax request.1

/-- No request that is accepted takes the name for another path. -/
def Unclaimed (requests : List RootRequest) (name path : String) : Prop :=
  ∀ request ∈ requests, accepted hash nameMax request = true → request.1 = name →
    request.2 = path

/-- The path is asked for, and no later request takes the name of its root. -/
def Stands (requests : List RootRequest) (path : String) : Prop :=
  ∃ earlier name later, requests = earlier ++ (name, path) :: later ∧
    accepted hash nameMax (name, path) = true ∧ Unclaimed hash nameMax later name path

/-- The path has a root that is not a legacy one and whose name no request takes. -/
def Spared (roots : GcRoots) (requests : List RootRequest) (path : String) : Prop :=
  ∃ name, roots.links.lookup name = some path ∧ isLegacy name = false ∧
    Unclaimed hash nameMax requests name path

/-- The path asked for last, among accepted requests, under a name. -/
def lastAccepted (requests : List RootRequest) (name : String) : Option String :=
  (requests.reverse.find? fun request =>
    accepted hash nameMax request && request.1 = name).map Prod.snd

end Condition

section Lookup

variable {hash : StorePathHash} {nameMax : Nat}

theorem lastAccepted_append (front back : List RootRequest) (name : String) :
    lastAccepted hash nameMax (front ++ back) name =
      (lastAccepted hash nameMax back name).or (lastAccepted hash nameMax front name) := by
  unfold lastAccepted
  rw [List.reverse_append, List.find?_append, Option.map_or]

/-- One request: the link of its name, if it is accepted. -/
theorem addRoot_lookup (roots : GcRoots) (request : RootRequest) (name : String) :
    (((roots.addRoot hash nameMax request.1 request.2).toOption).getD roots).links.lookup name =
      (lastAccepted hash nameMax [request] name).or (roots.links.lookup name) := by
  unfold GcRoots.addRoot lastAccepted accepted
  cases parsed : hash request.2 with
  | error reason => simp [parsed, Except.toOption, Except.isOk, Except.toBool]
  | ok digest =>
      by_cases fits : GcRoots.linkable nameMax request.1 = true
      · by_cases same : request.1 = name
        · subst same
          simp [parsed, fits, Except.toOption, Except.isOk, Except.toBool]
        · have apart : name ≠ request.1 := fun equal => same equal.symm
          simp [parsed, fits, same, Except.toOption, Except.isOk, Except.toBool,
            AList.lookup_insert_ne apart]
      · simp [parsed, fits, Except.toOption, Except.isOk, Except.toBool]

/-- After a series of requests a name has what was last accepted under it. -/
theorem addRoots_lookup (roots : GcRoots) (requests : List RootRequest) (name : String) :
    (addRoots hash nameMax roots requests).1.links.lookup name =
      (lastAccepted hash nameMax requests name).or (roots.links.lookup name) := by
  induction requests using List.reverseRecOn with
  | nil => rfl
  | append_singleton requests request ih =>
      have step : (addRoots hash nameMax roots (requests ++ [request])).1 =
          (((addRoots hash nameMax roots requests).1.addRoot hash nameMax request.1
            request.2).toOption).getD (addRoots hash nameMax roots requests).1 := by
        unfold addRoots
        rw [List.foldl_append, List.foldl_cons, List.foldl_nil]
        split
        · rename_i added result
          rw [result]
          rfl
        · rename_i reason result
          rw [result]
          rfl
      rw [step, addRoot_lookup, ih, lastAccepted_append, Option.or_assoc]

theorem migrated_lookup (generations : List Generation) (roots : GcRoots) (name : String) :
    (generations.foldl (fun roots generation =>
        (addGenerationGcRoots hash nameMax roots generation.id generation.manifest.packages).1)
        roots).links.lookup name =
      (lastAccepted hash nameMax (generations.flatMap fun generation =>
        packageRequests generation.id generation.manifest.packages) name).or
        (roots.links.lookup name) := by
  induction generations generalizing roots with
  | nil => rfl
  | cons generation generations ih =>
      rw [List.foldl_cons, ih, List.flatMap_cons, lastAccepted_append, Option.or_assoc,
        addGenerationGcRoots, addRoots_lookup]

theorem removeRoots_lookup (oldRoots : List GcRoot) (roots : GcRoots) (name : String) :
    (oldRoots.foldl (fun roots root =>
        ((roots.removeRoot root.name).toOption).getD roots) roots).links.lookup name =
      if name ∈ oldRoots.map (·.name) then none else roots.links.lookup name := by
  induction oldRoots generalizing roots with
  | nil => rfl
  | cons root oldRoots ih =>
      have removed : (((roots.removeRoot root.name).toOption).getD roots).links.lookup name =
          if name = root.name then none else roots.links.lookup name := by
        unfold GcRoots.removeRoot
        by_cases same : name = root.name
        · subst same
          split
          · simp [Except.toOption]
          · rename_i absent
            have none := AList.lookup_eq_none.mpr absent
            simpa [Except.toOption] using none
        · split
          · simp [Except.toOption, AList.lookup_erase_ne same]
          · simp [Except.toOption]
      rw [List.foldl_cons, ih, removed]
      simp only [List.map_cons, List.mem_cons]
      by_cases same : name = root.name
      · simp [same]
      · simp [same]

theorem isLegacy_rootName (id : UInt32) (rest : String) : isLegacy (rootName id rest) = false := by
  have first : (rootName id rest).toList = 'g' :: ("en-".toList ++ (toString id.toNat).toList ++
      "-".toList ++ rest.toList) := by
    simp [rootName]
  rw [isLegacy, first]
  rfl

/-- No request is made under a legacy name. -/
theorem lastAccepted_legacy {requests : List RootRequest} {name : String}
    (tagged : ∀ request ∈ requests, ∃ id rest, request.1 = rootName id rest)
    (old : isLegacy name = true) : lastAccepted hash nameMax requests name = none := by
  unfold lastAccepted
  rw [Option.map_eq_none_iff, List.find?_eq_none]
  intro request member used
  obtain ⟨id, rest, named⟩ := tagged request (List.mem_reverse.mp member)
  have same : request.1 = name := by
    simp only [Bool.and_eq_true, decide_eq_true_eq] at used
    exact used.2
  rw [← same, named, isLegacy_rootName] at old
  cases old

theorem packageRequests_tagged {id : UInt32} {packages : List Package} {request : RootRequest}
    (member : request ∈ packageRequests id packages) :
    ∃ id rest, request.1 = rootName id rest := by
  obtain ⟨package, _, rfl⟩ := List.mem_map.mp member
  exact ⟨id, package.name, rfl⟩

theorem mem_oldRoots {roots : GcRoots} {name : String} :
    name ∈ (roots.listRoots.filter fun root => isLegacy root.name).map (·.name) ↔
      isLegacy name = true ∧ ∃ path, roots.links.lookup name = some path := by
  rw [List.mem_map]
  constructor
  · intro ⟨root, member, same⟩
    obtain ⟨listed, old⟩ := List.mem_filter.mp member
    subst same
    exact ⟨old, root.target, GcRoots.mem_listRoots.mp listed⟩
  · intro ⟨old, path, found⟩
    exact ⟨⟨name, path⟩, List.mem_filter.mpr ⟨GcRoots.mem_listRoots.mpr found, old⟩, rfl⟩

/-- Legacy names go, and the stored generations have their packages rooted. -/
theorem migrateGcRootsIfNeeded_lookup {roots after : GcRoots}
    {scan : Except String (List Generation)}
    (migrated : migrateGcRootsIfNeeded hash nameMax roots scan = .ok after) (name : String) :
    after.links.lookup name =
      (lastAccepted hash nameMax
        (if roots.listRoots.any fun root => isLegacy root.name then
          (scan.toOption.getD []).flatMap fun generation =>
            packageRequests generation.id generation.manifest.packages
        else []) name).or
        (if isLegacy name then none else roots.links.lookup name) := by
  unfold migrateGcRootsIfNeeded at migrated
  dsimp only at migrated
  split at migrated
  · rename_i nothing
    cases migrated
    have clean : (roots.listRoots.any fun root => isLegacy root.name) = false := by
      rw [List.any_eq_false]
      exact List.filter_eq_nil_iff.mp nothing
    rw [clean, if_neg (by simp)]
    split
    · rename_i old
      have absent : roots.links.lookup name = none := by
        by_contra present
        obtain ⟨path, found⟩ := Option.ne_none_iff_exists'.mp present
        have listed := mem_oldRoots.mpr ⟨old, path, found⟩
        rw [nothing] at listed
        cases listed
      rw [absent]
      rfl
    · rfl
  · rename_i something
    split at migrated
    · cases migrated
    · rename_i generations
      cases migrated
      have legacy : (roots.listRoots.any fun root => isLegacy root.name) = true := by
        by_contra none
        exact something (List.filter_eq_nil_iff.mpr (List.any_eq_false.mp (by simpa using none)))
      have stored : (Except.ok generations : Except String (List Generation)).toOption.getD [] =
          generations := rfl
      rw [if_pos legacy, stored, removeRoots_lookup, migrated_lookup]
      by_cases old : isLegacy name = true
      · have unasked := @lastAccepted_legacy hash nameMax (generations.flatMap fun generation =>
          packageRequests generation.id generation.manifest.packages) name (by
            intro request member
            obtain ⟨generation, _, asked⟩ := List.mem_flatMap.mp member
            exact packageRequests_tagged asked) old
        rw [unasked, if_pos old]
        split
        · rfl
        · rename_i unlisted
          by_contra present
          obtain ⟨path, found⟩ := Option.ne_none_iff_exists'.mp present
          exact unlisted (mem_oldRoots.mpr ⟨old, path, found⟩)
      · have unlisted : name ∉
            (roots.listRoots.filter fun root => isLegacy root.name).map (·.name) :=
          fun listed => old (mem_oldRoots.mp listed).1
        rw [if_neg unlisted, if_neg old]

/-- The root of a name after the update. -/
theorem updateSystemGcRootsWith_lookup {roots after : GcRoots} {manifest : Manifest}
    {scan : Except String (List Generation)}
    (updated : updateSystemGcRootsWith hash nameMax roots manifest scan = .ok after) (name : String) :
    after.links.lookup name =
      (lastAccepted hash nameMax (allRequests roots manifest (scan.toOption.getD [])) name).or
        (if isLegacy name then none else roots.links.lookup name) := by
  unfold updateSystemGcRootsWith at updated
  split at updated
  · cases updated
  · rename_i between migrated
    cases updated
    rw [addRoots_lookup, addBootGcRoots, addRoots_lookup, addGenerationGcRoots, addRoots_lookup,
      migrateGcRootsIfNeeded_lookup migrated, allRequests, lastAccepted_append,
      lastAccepted_append, lastAccepted_append]
    simp only [Option.or_assoc]

theorem lastAccepted_eq_none {requests : List RootRequest} {name : String} :
    lastAccepted hash nameMax requests name = none ↔
      ∀ request ∈ requests, accepted hash nameMax request = true → request.1 ≠ name := by
  simp [lastAccepted]

theorem lastAccepted_cons (request : RootRequest) (requests : List RootRequest) (name : String) :
    lastAccepted hash nameMax (request :: requests) name =
      (lastAccepted hash nameMax requests name).or
        (if accepted hash nameMax request && request.1 = name then some request.2 else none) := by
  rw [← List.singleton_append, lastAccepted_append]
  congr 1
  unfold lastAccepted
  rw [List.reverse_singleton, List.find?_singleton]
  split <;> simp_all

theorem mem_of_lastAccepted {requests : List RootRequest} {name path : String}
    (last : lastAccepted hash nameMax requests name = some path) :
    (name, path) ∈ requests ∧ accepted hash nameMax (name, path) = true := by
  obtain ⟨⟨own, asked⟩, found, same⟩ := Option.map_eq_some_iff.mp last
  have used := List.find?_some found
  simp only [Bool.and_eq_true, decide_eq_true_eq] at used
  have here : own = name := used.2
  have there : asked = path := same
  subst here there
  exact ⟨List.mem_reverse.mp (List.mem_of_find?_eq_some found), used.1⟩

/-- Where no request takes a name for another path, a path that it is asked for is the last. -/
theorem lastAccepted_of_unclaimed {requests : List RootRequest} {name path : String}
    (unclaimed : Unclaimed hash nameMax requests name path) :
    lastAccepted hash nameMax requests name = none ∨
      lastAccepted hash nameMax requests name = some path := by
  cases last : lastAccepted hash nameMax requests name with
  | none => exact .inl rfl
  | some other =>
      obtain ⟨member, taken⟩ := mem_of_lastAccepted last
      have same : other = path := unclaimed (name, other) member taken rfl
      exact .inr (congrArg some same)

/-- The last request under a name stands. -/
theorem stands_of_lastAccepted {requests : List RootRequest} {name path : String}
    (last : lastAccepted hash nameMax requests name = some path) :
    Stands hash nameMax requests path := by
  induction requests with
  | nil => cases last
  | cons request later ih =>
      rw [lastAccepted_cons] at last
      cases behind : lastAccepted hash nameMax later name with
      | some other =>
          rw [behind, Option.some_or] at last
          obtain ⟨earlier, own, rest, split, taken, unclaimed⟩ := ih (behind.trans last)
          exact ⟨request :: earlier, own, rest, by rw [split, List.cons_append], taken, unclaimed⟩
      | none =>
          rw [behind, Option.none_or] at last
          split at last
          · rename_i used
            simp only [Bool.and_eq_true, decide_eq_true_eq] at used
            cases last
            refine ⟨[], request.1, later, rfl, used.1, ?_⟩
            intro other member taken same
            exact absurd (same.trans used.2) (lastAccepted_eq_none.mp behind other member taken)
          · cases last

/-- What has a root after the update: a path whose request stands, or whose root is spared. -/
theorem targets_iff {roots after : GcRoots} {manifest : Manifest}
    {scan : Except String (List Generation)}
    (updated : updateSystemGcRootsWith hash nameMax roots manifest scan = .ok after)
    (path : String) :
    after.Targets path ↔
      Stands hash nameMax (allRequests roots manifest (scan.toOption.getD [])) path ∨
        Spared hash nameMax roots (allRequests roots manifest (scan.toOption.getD [])) path := by
  generalize requested : allRequests roots manifest (scan.toOption.getD []) = requests
  have look : ∀ name, after.links.lookup name = (lastAccepted hash nameMax requests name).or
      (if isLegacy name then none else roots.links.lookup name) := by
    intro name
    rw [updateSystemGcRootsWith_lookup updated name, requested]
  constructor
  · rintro ⟨name, found⟩
    rw [look] at found
    cases last : lastAccepted hash nameMax requests name with
    | some other =>
        rw [last, Option.some_or] at found
        exact .inl (stands_of_lastAccepted (last.trans found))
    | none =>
        rw [last, Option.none_or] at found
        split at found
        · cases found
        · rename_i kept
          refine .inr ⟨name, found, by simpa using kept, ?_⟩
          intro request member taken same
          exact absurd same (lastAccepted_eq_none.mp last request member taken)
  · rintro (⟨earlier, name, later, split, taken, unclaimed⟩ | ⟨name, found, kept, unclaimed⟩)
    · refine ⟨name, ?_⟩
      have here : lastAccepted hash nameMax ((name, path) :: later) name = some path := by
        rw [lastAccepted_cons]
        rcases lastAccepted_of_unclaimed unclaimed with none_ | same
        · simp [none_, taken]
        · simp [same]
      rw [look, split, lastAccepted_append, here, Option.some_or, Option.some_or]
    · refine ⟨name, ?_⟩
      rw [look, kept]
      rcases lastAccepted_of_unclaimed unclaimed with none_ | same
      · simpa [none_] using found
      · simp [same]

/-- The update leaves a root for every path that must keep one exactly when, for each of
them, a request is accepted whose name no later request takes, or a root is there already
that is not a legacy one and whose name no request takes. -/
theorem updateSystemGcRootsWith_protects_iff (roots after : GcRoots) (manifest : Manifest)
    (scan : Except String (List Generation))
    (updated : updateSystemGcRootsWith hash nameMax roots manifest scan = .ok after) :
    (∀ path, MustKeep roots manifest (scan.toOption.getD []) path → after.Targets path) ↔
      ∀ path, MustKeep roots manifest (scan.toOption.getD []) path →
        Stands hash nameMax (allRequests roots manifest (scan.toOption.getD [])) path ∨
          Spared hash nameMax roots (allRequests roots manifest (scan.toOption.getD [])) path := by
  apply forall_congr'
  intro path
  rw [targets_iff updated path]

end Lookup

/-- A generation with the given packages and nothing else. -/
def packagesOnly (packages : List Package) : Manifest where
  generation := ⟨7, "", "", ""⟩
  boot := none
  packages := packages
  files := ∅
  toplevel := none
  etcSource := none

def hello1 : String := "/nix/store/1b9jydsiygi6jhlz2dxbrxi6b4m1rn4r-hello-1.0"

def hello2 : String := "/nix/store/0c5b8vw40dy178xlpddw65q9gf1h2186-hello-2.0"

/-- One package, from an empty roots directory. -/
theorem updateSystemGcRootsWith_protects_hello :
    ∃ after, updateSystemGcRootsWith literalHash 255 ⟨∅⟩ (packagesOnly [⟨"hello", "1.0", hello1⟩])
        (.ok []) = .ok after ∧
      ∀ path, MustKeep ⟨∅⟩ (packagesOnly [⟨"hello", "1.0", hello1⟩]) [] path →
        after.Targets path := by
  refine ⟨_, rfl, (updateSystemGcRootsWith_protects_iff ⟨∅⟩ _
    (packagesOnly [⟨"hello", "1.0", hello1⟩]) (.ok []) rfl).mpr ?_⟩
  intro path must
  cases must with
  | own member =>
      have same : path ∈ [hello1] := member
      rw [List.mem_singleton] at same
      subst same
      exact .inl ⟨[], "gen-7-hello", [], rfl, by decide +kernel,
        fun _ member => absurd member List.not_mem_nil⟩
  | other found => cases found
  | legacy found => cases found

/-- Two packages of one name share a root, and the first one loses it. -/
theorem updateSystemGcRootsWith_drops_hello :
    ∃ after, updateSystemGcRootsWith literalHash 255 ⟨∅⟩
        (packagesOnly [⟨"hello", "1.0", hello1⟩, ⟨"hello", "2.0", hello2⟩]) (.ok []) = .ok after ∧
      ¬ ∀ path, MustKeep ⟨∅⟩
          (packagesOnly [⟨"hello", "1.0", hello1⟩, ⟨"hello", "2.0", hello2⟩]) [] path →
        after.Targets path := by
  refine ⟨⟨AList.singleton "gen-7-hello" hello2⟩, rfl, ?_⟩
  intro always
  obtain ⟨name, found⟩ := always hello1 (.own (by decide +kernel))
  have entry := List.mem_singleton.mp (AList.mem_lookup_iff.mp found)
  have same : hello1 = hello2 := congrArg Sigma.snd entry
  exact absurd same (by decide)

end NixRedox.System
