import NixRedox.GcRoots
import NixRedox.SystemManifest

set_option autoImplicit false

/- The operations on system generations of `system.rs`: `switch`, `switch_generation`,
`rollback`, `activate_boot` and `delete_generations`. -/
namespace NixRedox.System

/-- What an operation finds on the machine besides the generations: the files of the
root file system, BLAKE3 in hex, how activation ends (`true` for a dry run), the
clock as text and in seconds, and whether the boot default can be written. -/
structure Env where
  rootFile : String → Except String String
  blake3 : String → String
  activate : Manifest → Manifest → Bool → Except String Unit
  timestamp : String
  now : Nat
  epoch : String → Nat
  bootWritable : Bool

structure State where
  generations : GenerationsDir
  manifest : ManifestFile
  /-- The entry of the generations directory that `/nix/system/current` points at. -/
  link : Option String
  bootDefault : Option String

/-- How an operation ends. `created` is the id it has stored a new generation under,
also when it fails after that. -/
structure Outcome where
  state : State
  created : Option UInt32
  result : Except String Unit

def Outcome.failed (state : State) (reason : String) : Outcome := ⟨state, none, .error reason⟩

def Outcome.nothing (state : State) : Outcome := ⟨state, none, .ok ()⟩

def manifestPath : String := "/etc/redox-system/manifest.json"

/-- The name of a generation's directory. -/
def dirName (id : UInt32) : String := toString id.toNat

/-- The highest id among the stored generations that can be read and the current one. -/
def highestId (dir : GenerationsDir) (current : Manifest) : UInt32 :=
  max (((scanGenerations dir).map (·.id)).max?.getD 0) current.generation.id

/-- The addition wraps, as the release build has no overflow checks. -/
def nextGenerationId (dir : GenerationsDir) (current : Manifest) : UInt32 :=
  highestId dir current + 1

def saveGeneration (dir : GenerationsDir) (manifest : Manifest) : GenerationsDir :=
  dir.insert (dirName manifest.generation.id) (.readable manifest)

/-- A file whose contents a generation keeps although its manifest has only the hash. -/
def isSnapshotPath (path : String) : Bool :=
  "usr/lib/init.d/".toList.isPrefixOf path.toList || path = "startup.sh"

def snapshotFiles (env : Env) :
    List String → (AList fun _ : String => FileInfo) → Bool →
      Except String ((AList fun _ : String => FileInfo) × Bool)
  | [], files, changed => .ok (files, changed)
  | path :: rest, files, changed =>
      match files.lookup path with
      | none => snapshotFiles env rest files changed
      | some info =>
          if info.text.isSome || !isSnapshotPath path then
            snapshotFiles env rest files changed
          else
            match env.rootFile path with
            | .error reason => .error reason
            | .ok text =>
                if env.blake3 text ≠ info.blake3 then
                  .error ("cannot snapshot modified generation file: /" ++ path)
                else
                  snapshotFiles env rest (files.insert path { info with text := some text }) true

/-- Fill in the contents of unit files; `true` when any was. -/
def snapshotRootFiles (env : Env) (manifest : Manifest) : Except String (Manifest × Bool) :=
  match snapshotFiles env (manifest.files.keys.insertionSort (· ≤ ·)) manifest.files false with
  | .error reason => .error reason
  | .ok (files, changed) => .ok ({ manifest with files }, changed)

/-- Store a manifest under a new id, activate it and publish it. -/
def publishNew (env : Env) (state : State) (current new : Manifest) : Outcome :=
  let id := new.generation.id
  let stored := { state with generations := saveGeneration state.generations new }
  match env.activate current new false with
  | .error reason => ⟨stored, some id, .error reason⟩
  | .ok () =>
      ⟨{ stored with
          manifest := .readable new
          link := some (dirName id)
          bootDefault := if env.bootWritable then some (dirName id ++ "\n")
            else state.bootDefault }, some id, .ok ()⟩

/-- The manifest a switch stores, under its new id. -/
def renumbered (env : Env) (manifest : Manifest) (id : UInt32) (description : Option String) :
    Manifest :=
  { manifest with
    generation :=
      { manifest.generation with
        id := id
        timestamp := env.timestamp
        description := description.getD manifest.generation.description } }

def switch (env : Env) (newPath : String) (newFile : ManifestFile) (description : Option String)
    (dryRun : Bool) (state : State) : Outcome :=
  match loadManifestFrom manifestPath state.manifest with
  | .error reason => .failed state reason
  | .ok current =>
      match loadManifestFrom newPath newFile with
      | .error reason => .failed state reason
      | .ok loaded =>
          let new := renumbered env loaded (nextGenerationId state.generations current) description
          if dryRun then
            ⟨state, none, env.activate current new true⟩
          else
            match snapshotRootFiles env current with
            | .error reason => .failed state reason
            | .ok (current, enriched) =>
                let saved :=
                  if dirName current.generation.id ∉ state.generations ∨ enriched = true then
                    saveGeneration state.generations current
                  else
                    state.generations
                publishNew env { state with generations := saved } current new

def available (generations : List Generation) : String :=
  String.intercalate ", " (generations.map fun generation => dirName generation.id)

/-- Make a stored generation the current one, by its manifest and the link. -/
def switchGeneration (env : Env) (target : UInt32) (state : State) : Outcome :=
  match loadManifestFrom manifestPath state.manifest with
  | .error reason => .failed state reason
  | .ok current =>
      let generations := scanGenerations state.generations
      match generations.find? (·.id = target) with
      | none => .failed state ("Generation " ++ dirName target ++ " not found. Available: " ++
          available generations)
      | some found =>
          if found.id = current.generation.id then
            .nothing state
          else
            match env.activate current found.manifest false with
            | .error reason => .failed state reason
            | .ok () =>
                .nothing { state with
                  manifest := .readable found.manifest
                  link := some (dirName found.id) }

/-- The generation to roll back to: the one asked for, else the last one before the
current one, else the last one. -/
def rollbackTarget (generations : List Generation) (current : Manifest) :
    Option UInt32 → Except String Generation
  | some id =>
      match generations.find? (·.id = id) with
      | some found => .ok found
      | none => .error ("Generation " ++ dirName id ++ " not found. Available: " ++
          available generations)
  | none =>
      match (generations.reverse.find? (·.id < current.generation.id)).or
          generations.getLast? with
      | some found => .ok found
      | none => .error "No previous generation found to roll back to."

def rollback (env : Env) (target : Option UInt32) (state : State) : Outcome :=
  match loadManifestFrom manifestPath state.manifest with
  | .error reason => .failed state reason
  | .ok current =>
      let generations := scanGenerations state.generations
      if generations = [] then
        .failed state "No previous generations found. Nothing to roll back to."
      else
        match rollbackTarget generations current target with
        | .error reason => .failed state reason
        | .ok found =>
            if found.id = current.generation.id then
              .nothing state
            else
              let saved :=
                if dirName current.generation.id ∉ state.generations then
                  saveGeneration state.generations current
                else
                  state.generations
              let new := renumbered env found.manifest (nextGenerationId saved current)
                (some ("rollback to generation " ++ dirName found.id))
              publishNew env { state with generations := saved } current new

/-- Unlike `switchGeneration`, this leaves the link as it is. -/
def activateBoot (env : Env) (target : UInt32) (state : State) : Outcome :=
  match loadManifestFrom manifestPath state.manifest with
  | .error reason => .failed state reason
  | .ok current =>
      if current.generation.id = target then
        .nothing state
      else
        let generations := scanGenerations state.generations
        match generations.find? (·.id = target) with
        | none => .failed state ("generation " ++ dirName target ++ " not found (available: " ++
            available generations ++ ")")
        | some found =>
            match env.activate current found.manifest false with
            | .error reason => .failed state reason
            | .ok () => .nothing { state with manifest := .readable found.manifest }

/-- Which generations to delete. -/
inductive GenerationSelector where
  | ids (ids : List UInt32)
  | keepLast (count : UInt32)
  | olderThanDays (days : UInt32)
  | old
  deriving DecidableEq

/-- `old`, `+N`, `Nd`, or ids between blanks. -/
def parseGenerationSelector (input : String) : Except String GenerationSelector :=
  let trimmed := Text.trim input.toList
  if trimmed = "old".toList then
    .ok .old
  else if trimmed.head? = some '+' then
    match parseU32 trimmed.tail with
    | none => .error ("invalid keep count: +" ++ String.ofList trimmed.tail)
    | some count =>
        if count = 0 then .error "keep count must be at least 1" else .ok (.keepLast count)
  else if trimmed.getLast? = some 'd' then
    match parseU32 trimmed.dropLast with
    | none => .error ("invalid day count: " ++ String.ofList trimmed.dropLast ++ "d")
    | some days => .ok (.olderThanDays days)
  else
    match (Text.splitWhitespace trimmed).mapM parseU32 with
    | some (id :: ids) => .ok (.ids (id :: ids))
    | _ => .error ("invalid selector: " ++ String.ofList trimmed ++
        ". Use 'old', '+N', 'Nd', or space-separated IDs.")

def readBootDefault (path : String) : Option String → Except String (Option UInt32)
  | none => .ok none
  | some content =>
      let trimmed := Text.trim content.toList
      if trimmed = [] then
        .ok none
      else
        match parseU32 trimmed with
        | some id => .ok (some id)
        | none => .error ("invalid generation ID in " ++ path ++ ": " ++
            parseU32Error 0 (if trimmed.head? = some '+' then trimmed.tail else trimmed))

/-- The current generation and the boot default. -/
def protectedIds (current : Manifest) (bootDefault : Option UInt32) : List UInt32 :=
  current.generation.id :: bootDefault.toList

def selectedIds (env : Env) (guarded : List UInt32) (generations : List Generation) :
    GenerationSelector → List UInt32
  | .ids ids => ids.filter (· ∉ guarded)
  | .keepLast count =>
      let sorted := (generations.map (·.id)).insertionSort (· ≤ ·)
      (sorted.take (sorted.length - count.toNat)).filter (· ∉ guarded)
  | .olderThanDays days =>
      let cutoff := env.now - days.toNat * 86400
      (generations.filter fun generation => generation.id ∉ guarded ∧
        env.epoch generation.manifest.generation.timestamp < cutoff).map (·.id)
  | .old => (generations.map (·.id)).filter (· ∉ guarded)

/-- Remove all roots named `gen-{id}-…`, and count them. -/
def removeGenerationGcRoots (roots : GcRoots) (id : UInt32) : GcRoots × Nat :=
  let tagged := roots.listRoots.filter fun root =>
    ("gen-" ++ dirName id ++ "-").toList.isPrefixOf root.name.toList
  (tagged.foldl (fun roots root => ((roots.removeRoot root.name).toOption).getD roots) roots,
    tagged.length)

structure DeleteGenerationsStats where
  generationsDeleted : Nat
  rootsRemoved : Nat
  deletedIds : List UInt32
  protectedIds : List UInt32
  deriving DecidableEq

/-- Delete the selected generations one after the other, each with its roots. -/
def deleteEach (dryRun : Bool) (ids : List UInt32) (dir : GenerationsDir) (roots : GcRoots)
    (stats : DeleteGenerationsStats) : GenerationsDir × GcRoots × DeleteGenerationsStats :=
  ids.foldl (fun state id =>
    let (dir, roots, stats) := state
    let counted := { stats with
      generationsDeleted := stats.generationsDeleted + 1
      deletedIds := stats.deletedIds ++ [id] }
    if dryRun then
      (dir, roots, counted)
    else
      let (roots, removed) := removeGenerationGcRoots roots id
      (dir.erase (dirName id), roots,
        { counted with rootsRemoved := stats.rootsRemoved + removed })) (dir, roots, stats)

def deleteGenerationsWith (env : Env) (roots : GcRoots) (selector : String) (dryRun : Bool)
    (state : State) : Except String (State × GcRoots × DeleteGenerationsStats) :=
  match loadManifestFrom manifestPath state.manifest with
  | .error reason => .error reason
  | .ok current =>
      match readBootDefault "/etc/redox-system/boot-default" state.bootDefault with
      | .error reason => .error reason
      | .ok bootDefault =>
          match parseGenerationSelector selector with
          | .error reason => .error reason
          | .ok parsed =>
              let guarded := protectedIds current bootDefault
              let refused := match parsed with
                | .ids ids => ids.filter (· ∈ guarded)
                | _ => []
              let (dir, roots, stats) := deleteEach dryRun
                (selectedIds env guarded (scanGenerations state.generations) parsed)
                state.generations roots ⟨0, 0, [], refused⟩
              .ok ({ state with generations := dir }, roots, stats)

/-- An operation with its arguments; for a deletion also the GC roots it finds. -/
inductive Operation where
  | switch (newPath : String) (newFile : ManifestFile) (description : Option String)
      (dryRun : Bool)
  | switchGeneration (target : UInt32)
  | rollback (target : Option UInt32)
  | activateBoot (target : UInt32)
  | deleteGenerations (roots : GcRoots) (selector : String) (dryRun : Bool)

def perform (env : Env) (state : State) : Operation → Outcome
  | .switch newPath newFile description dryRun =>
      switch env newPath newFile description dryRun state
  | .switchGeneration target => switchGeneration env target state
  | .rollback target => rollback env target state
  | .activateBoot target => activateBoot env target state
  | .deleteGenerations roots selector dryRun =>
      match deleteGenerationsWith env roots selector dryRun state with
      | .error reason => .failed state reason
      | .ok (state, _, _) => .nothing state

end NixRedox.System
