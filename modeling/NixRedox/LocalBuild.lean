import NixRedox.DepthFirst
import NixRedox.Derivation
import NixRedox.Hex
import NixRedox.PathInfoDb

set_option autoImplicit false

/- Local builds (`local_build.rs`, with the verification of `fetchers.rs`): a store of
output paths, what builders and downloads leave in it, and the decision to build. -/
namespace NixRedox.LocalBuild

open DepthFirst (Search)
open Hex (HexLower)
open PathInfoDb (WriteFault)

inductive BuildError where
  | buildFailed (drvName : String) (exitCode : Option Int) (stderr : String)
  | missingOutput (output path : String)
  | io (message : String)
  | unknownDerivation (path : String)
  | dependencyFailed (drvPath : String) (cause : BuildError)
  deriving DecidableEq, Repr

/-- Why a build returns no result. A derivation without output paths panics. -/
inductive Stop where
  | failed (error : BuildError)
  | panicked
  deriving DecidableEq, Repr

structure BuildResult where
  outputs : List (List Char × StorePath)
  references : List String
  narHash : String
  narSize : UInt64
  deriving DecidableEq, Repr

/-- What a derivation asks to fetch (`snix_glue::fetchers::Fetch`) and the hash it is
to have. -/
inductive Fetch where
  | url (expHash : Option NixHash)
  | tarball (expNarSha256 : Option (List UInt8))
  | nar (hash : NixHash)
  | executable (hash : NixHash)
  | git
  deriving DecidableEq, Repr

/-- Code outside the repository: hashing, hexadecimal text, what kind of file an output is,
reading it, its archive, the reference scanner, the text of a derivation and the arguments of
a fetch. -/
structure Tools (Content : Type) where
  sha256 : List UInt8 → List UInt8
  hex : HexLower
  symlink : Content → Option (List UInt8)
  read : Content → Except String (List UInt8)
  nar : Content → List UInt8
  scan : Content → List StorePath → List StorePath
  drvNar : Derivation → List UInt8
  fetchurlDerivationToFetch : Derivation → Except String Fetch

/-- An output in the store. The derivation whose run left it there last and whether
that run succeeded are recorded beside it; no function reads them. -/
structure Entry (Content : Type) where
  content : Content
  maker : StorePath
  succeeded : Bool
  deriving DecidableEq

abbrev Store (Content : Type) := StorePath → Option (Entry Content)

/-- The rest of the disk, as far as a symlink in the store leads there: whether there is a
file at the target, and what reading it gives. A target may lead back into the store. -/
abbrev Elsewhere (Content : Type) :=
  (StorePath → Option Content) → List UInt8 → Option (Except String (List UInt8))

/-- How `remove_file` and `remove_dir_all` end, whose errors are not looked at. -/
inductive CleanUp (Content : Type) where
  | gone
  | kept
  | partly (rest : Content)

/-- What the world does when a derivation is built: the faults of the steps around the
run, what the run leaves at the output paths it touches and elsewhere, and how it ends. -/
structure Attempt (Content : Type) where
  drvFault : Option WriteFault
  drvInfoFault : Option WriteFault
  setupFault : Option String
  writes : StorePath → Option Content
  status : Except String (Option Int)
  stdoutBytes : Nat
  stderr : String
  fetchFault : Option String
  elsewhere : Elsewhere Content
  cleanUp : CleanUp Content
  scanFault : Option String
  narFault : StorePath → Option String
  infoFault : StorePath → Option WriteFault

/-- A run of a builder or of a download, and the store before it. -/
structure Run (Content : Type) where
  before : Store Content
  drvPath : StorePath
  drv : Derivation
  attempt : Attempt Content

/-- The store, the rest of the disk, the `.drv` files in the store, the database, and the
runs so far. -/
structure World (Content : Type) (hash : StorePathHash) where
  store : Store Content
  elsewhere : Elsewhere Content
  drvFiles : List StorePath
  db : PathInfoDb hash
  history : List (Run Content)

section Paths

def display (path : StorePath) : String := String.ofList path.toAbsolutePath

/-- The file name of a derivation without its suffix. -/
def drvName (drvPath : StorePath) : String :=
  let text := drvPath.toText
  if ".drv".toList.isSuffixOf text then
    String.ofList (text.take (text.length - 4))
  else
    String.ofList text

def isBuiltin (drv : Derivation) : Bool := "builtin:".toList.isPrefixOf drv.builder

/-- The outputs that have a store path, in the order of their names. -/
def placedOutputs (drv : Derivation) : List (List Char × StorePath) :=
  drv.outputs.sorted.filterMap fun output => output.2.path.map fun place => (output.1, place)

def outputPlaces (drv : Derivation) : List StorePath := (placedOutputs drv).map Prod.snd

/-- All outputs are there, by a test for single paths. -/
def allExist (there : StorePath → Bool) (drv : Derivation) : Bool :=
  drv.outputs.sortedValues.all fun output => output.path.any there

def primaryOut (outputs : List (List Char × StorePath)) : Option StorePath :=
  (outputs.lookup "out".toList).or (outputs.head?.map Prod.snd)

/-- The paths a reference to which is recorded. -/
def candidates (knownPaths : KnownPaths) (drv : Derivation) : List StorePath :=
  outputPlaces drv ++ drv.inputSources ++ knownPaths.inputOutputs drv

end Paths

section Files

variable {Content : Type} (tools : Tools Content)

def contents (store : Store Content) : StorePath → Option Content := fun path =>
  (store path).map Entry.content

/-- `Path::exists` follows symlinks. -/
def existsIn (elsewhere : Elsewhere Content) (store : Store Content) (path : StorePath) : Bool :=
  match store path with
  | none => false
  | some entry =>
      match tools.symlink entry.content with
      | none => true
      | some target => (elsewhere (contents store) target).isSome

end Files

section Hashes

variable {Content : Type} (tools : Tools Content)

/-- Hash and size of an archive. -/
def narHash (nar : List UInt8) : String × UInt64 :=
  ("sha256:" ++ tools.hex.encode (tools.sha256 nar), UInt64.ofNat nar.length)

def narHashPath (store : Store Content) (attempt : Attempt Content) (path : StorePath) :
    Except String (String × UInt64) :=
  match attempt.narFault path with
  | some reason => .error reason
  | none =>
      match store path with
      | none => .error "No such file or directory (os error 2)"
      | some entry => .ok (narHash tools (tools.nar entry.content))

/-- The references found below a path. Without candidates nothing is read. -/
def scanReferences (store : Store Content) (attempt : Attempt Content) (path : StorePath)
    (wanted : List StorePath) : Except String (List String) :=
  if wanted = [] then
    .ok []
  else
    match attempt.scanFault with
    | some reason => .error reason
    | none =>
        match store path with
        | none => .error "No such file or directory (os error 2)"
        | some entry => .ok ((tools.scan entry.content wanted).map display)

/-- `std::fs::read` follows symlinks. -/
def readFile (elsewhere : Elsewhere Content) (store : Store Content) (path : StorePath) :
    Except String (List UInt8) :=
  match store path with
  | none => .error "No such file or directory (os error 2)"
  | some entry =>
      match tools.symlink entry.content with
      | none => tools.read entry.content
      | some target =>
          (elsewhere (contents store) target).getD
            (.error "No such file or directory (os error 2)")

def verifyFlatHash (elsewhere : Elsewhere Content) (store : Store Content) (path : StorePath)
    (expected : NixHash) : Except String Unit :=
  match readFile tools elsewhere store path with
  | .error reason => .error reason
  | .ok bytes =>
      let actual := tools.sha256 bytes
      if expected.algo ≠ .sha256 then
        .error "fetchurl only supports SHA-256 for flat hashes"
      else if actual ≠ expected.digest then
        .error (s!"hash mismatch for {display path}:\n  expected: " ++
          tools.hex.encode expected.digest ++ "\n  got:      " ++ tools.hex.encode actual)
      else
        .ok ()

/-- The digests are compared in hexadecimal. -/
def verifyNarHash (store : Store Content) (attempt : Attempt Content) (path : StorePath)
    (expected : NixHash) : Except String Unit :=
  match narHashPath tools store attempt path with
  | .error reason => .error reason
  | .ok (narHash, _) =>
      if expected.algo ≠ .sha256 then
        .error "fetchurl only supports SHA-256 for NAR hashes"
      else if narHash ≠ "sha256:" ++ tools.hex.encode expected.digest then
        .error (s!"hash mismatch (NAR) for {display path}:\n  expected: " ++
          tools.hex.encode expected.digest ++ s!"\n  got:      {narHash}")
      else
        .ok ()

def verifyFetchHash (store : Store Content) (attempt : Attempt Content) (drv : Derivation)
    (path : StorePath) : Except String Unit :=
  match tools.fetchurlDerivationToFetch drv with
  | .error reason => .error reason
  | .ok (.url (some expected)) => verifyFlatHash tools attempt.elsewhere store path expected
  | .ok (.url none) => .ok ()
  | .ok (.tarball (some expected)) => verifyNarHash tools store attempt path ⟨.sha256, expected⟩
  | .ok (.tarball none) => .ok ()
  | .ok (.nar hash) | .ok (.executable hash) => verifyNarHash tools store attempt path hash
  | .ok .git => .ok ()

end Hashes

section Runs

variable {Content : Type}

/-- The store with what a run leaves at the outputs of its derivation. -/
def leave (store : Store Content) (drvPath : StorePath) (drv : Derivation)
    (attempt : Attempt Content) (succeeded : Bool) : Store Content := fun path =>
  if path ∈ outputPlaces drv then
    match attempt.writes path with
    | some content => some { content, maker := drvPath, succeeded }
    | none => store path
  else
    store path

/-- The store after the clean-up of a path. -/
def cleanedUp (store : Store Content) (drvPath path : StorePath) : CleanUp Content → Store Content
  | .gone => Function.update store path none
  | .kept => store
  | .partly rest =>
      Function.update store path (some { content := rest, maker := drvPath, succeeded := false })

end Runs

section Build

variable {Content : Type} {hash : StorePathHash} (tools : Tools Content)
  (knownPaths : KnownPaths)

/-- `register_derivation_file`. -/
def registerDerivationFile (world : World Content hash) (drvPath : StorePath) (drv : Derivation)
    (attempt : Attempt Content) : World Content hash × Except Stop Unit :=
  let abs := display drvPath
  match (if drvPath ∈ world.drvFiles then none else attempt.drvFault) with
  | some fault =>
      ({ world with
          drvFiles := if fault.torn then drvPath :: world.drvFiles else world.drvFiles },
        .error (.failed (.io s!"writing derivation {abs}: {fault.reason}")))
  | none =>
      let world := { world with drvFiles := drvPath :: world.drvFiles }
      match world.db.get abs with
      | .error reason =>
          (world, .error (.failed (.io s!"reading pathinfo for {abs}: {reason.toText}")))
      | .ok (some _) => (world, .ok ())
      | .ok none =>
          match attempt.narFault drvPath with
          | some reason =>
              (world, .error (.failed (.io s!"computing NAR hash for {abs}: {reason}")))
          | none =>
              let (narHash, narSize) := narHash tools (tools.drvNar drv)
              let references := drv.inputDerivations.map Prod.fst ++ drv.inputSources
              let info : PathInfo :=
                { storePath := abs
                  narHash
                  narSize
                  references := (references.map display).dedup.insertionSort (· ≤ ·)
                  deriver := none
                  signatures := [] }
              match world.db.register info attempt.drvInfoFault with
              | (db, .error reason) =>
                  ({ world with db },
                    .error (.failed (.io s!"registering derivation: {reason.toText}")))
              | (db, .ok ()) => ({ world with db }, .ok ())

/-- The metadata of an output. -/
def outputInfo (drvPath path : StorePath) (references : List String)
    (hashed : String × UInt64) : PathInfo where
  storePath := display path
  narHash := hashed.1
  narSize := hashed.2
  references := references
  deriver := some (display drvPath)
  signatures := []

/-- Register outputs one after the other. Where `strict` is off, an error of the
database is passed over. -/
def registerOutputs (strict : Bool) (hashing : String) (drvPath : StorePath)
    (attempt : Attempt Content) (references : List String) (primary : StorePath)
    (primaryHash : String × UInt64) :
    List (List Char × StorePath) → World Content hash → World Content hash × Except Stop Unit
  | [], world => (world, .ok ())
  | (name, path) :: rest, world =>
      match (if path = primary then .ok primaryHash
          else narHashPath tools world.store attempt path) with
      | .error reason =>
          (world, .error (.failed (.io s!"{hashing} for {String.ofList name}: {reason}")))
      | .ok hashed =>
          match world.db.register (outputInfo drvPath path references hashed)
              (attempt.infoFault path) with
          | (db, .error reason) =>
              if strict then
                ({ world with db },
                  .error (.failed (.io s!"registering {display path}: {reason.toText}")))
              else
                registerOutputs strict hashing drvPath attempt references primary primaryHash rest
                  { world with db }
          | (db, .ok ()) =>
              registerOutputs strict hashing drvPath attempt references primary primaryHash rest
                { world with db }

/-- Scan, hash and register what is in the store, and return it. -/
def finishBuild (strict : Bool) (hashing : String) (world : World Content hash)
    (drvPath : StorePath) (drv : Derivation) (attempt : Attempt Content)
    (outputs : List (List Char × StorePath)) (primary : StorePath) :
    World Content hash × Except Stop BuildResult :=
  match scanReferences tools world.store attempt primary (candidates knownPaths drv) with
  | .error reason => (world, .error (.failed (.io s!"scanning references: {reason}")))
  | .ok found =>
      let references := found.dedup.insertionSort (· ≤ ·)
      match narHashPath tools world.store attempt primary with
      | .error reason => (world, .error (.failed (.io s!"computing NAR hash: {reason}")))
      | .ok hashed =>
          match registerOutputs tools strict hashing drvPath attempt references primary hashed
              outputs world with
          | (world, .error reason) => (world, .error reason)
          | (world, .ok ()) =>
              (world, .ok { outputs, references, narHash := hashed.1, narSize := hashed.2 })

/-- `build_result_from_existing`. -/
def buildResultFromExisting (world : World Content hash) (drvPath : StorePath) (drv : Derivation)
    (attempt : Attempt Content) : World Content hash × Except Stop BuildResult :=
  match registerDerivationFile tools world drvPath drv attempt with
  | (world, .error reason) => (world, .error reason)
  | (world, .ok ()) =>
      let outputs := placedOutputs drv
      match primaryOut outputs with
      | none => (world, .error .panicked)
      | some primary =>
          match world.db.get (display primary) with
          | .ok (some info) =>
              (world, .ok
                { outputs
                  references := info.references.dedup.insertionSort (· ≤ ·)
                  narHash := info.narHash
                  narSize := info.narSize })
          | _ => finishBuild tools knownPaths false "NAR hash" world drvPath drv attempt outputs
              primary

/-- What `fetch_to_store` checks before it downloads anything. -/
def fetchArguments (drv : Derivation) : Except String Unit :=
  match tools.fetchurlDerivationToFetch drv with
  | .error reason => .error reason
  | .ok fetch =>
      if drv.environment.lookup "out".toList = none then
        .error "builtin:fetchurl: 'out' not set in environment"
      else if fetch = .git then
        .error "builtin:fetchurl: git fetches not supported"
      else
        .ok ()

/-- `build_builtin_fetcher`. Only a content that fails its check is cleaned up. -/
def buildBuiltinFetcher (world : World Content hash) (drvPath : StorePath) (drv : Derivation)
    (attempt : Attempt Content) : World Content hash × Except Stop BuildResult :=
  match drv.outputPath "out".toList with
  | none => (world, .error (.failed (.io "builtin fetcher: no output path")))
  | some outPath =>
      if existsIn tools world.elsewhere world.store outPath then
        buildResultFromExisting tools knownPaths world drvPath drv attempt
      else
        match fetchArguments tools drv with
        | .error reason =>
            (world, .error (.failed
              (.buildFailed (drvName drvPath) none s!"fetch failed: {reason}")))
        | .ok () =>
            let fetched := leave world.store drvPath drv attempt false
            let history := world.history ++ [{ before := world.store, drvPath, drv, attempt }]
            let world := { world with elsewhere := attempt.elsewhere, history }
            match attempt.fetchFault with
            | some reason =>
                ({ world with store := fetched }, .error (.failed
                  (.buildFailed (drvName drvPath) none s!"fetch failed: {reason}")))
            | none =>
                if existsIn tools attempt.elsewhere fetched outPath = false then
                  ({ world with store := fetched },
                    .error (.failed (.missingOutput "out" (display outPath))))
                else
                  match verifyFetchHash tools fetched attempt drv outPath with
                  | .error reason =>
                      ({ world with store := cleanedUp fetched drvPath outPath attempt.cleanUp },
                        .error (.failed (.buildFailed (drvName drvPath) none reason)))
                  | .ok () =>
                      finishBuild tools knownPaths true "computing NAR hash"
                        { world with store := leave world.store drvPath drv attempt true }
                        drvPath drv attempt [("out".toList, outPath)] outPath

/-- The first output that a builder has not created. -/
def missingOutput (elsewhere : Elsewhere Content) (store : Store Content) (drv : Derivation) :
    Option (List Char × StorePath) :=
  (placedOutputs drv).find? fun output => existsIn tools elsewhere store output.2 = false

/-- Run a builder and take in its outputs. -/
def runBuilder (world : World Content hash) (drvPath : StorePath) (drv : Derivation)
    (attempt : Attempt Content) : World Content hash × Except Stop BuildResult :=
  let succeeded := decide (attempt.status.toOption = some (some 0))
  let world :=
    { world with
      store := leave world.store drvPath drv attempt succeeded
      elsewhere := attempt.elsewhere
      history := world.history ++ [{ before := world.store, drvPath, drv, attempt }] }
  match attempt.status with
  | .error reason =>
      (world, .error (.failed
        (.io s!"waiting for builder '{String.ofList drv.builder}': {reason}")))
  | .ok code =>
      if code ≠ some 0 then
        (world, .error (.failed (.buildFailed (drvName drvPath) code
          (if attempt.stderr = "" then s!"builder stdout bytes: {attempt.stdoutBytes}"
            else attempt.stderr))))
      else
        match missingOutput tools attempt.elsewhere world.store drv with
        | some (name, path) =>
            (world, .error (.failed (.missingOutput (String.ofList name) (display path))))
        | none =>
            let outputs := placedOutputs drv
            match primaryOut outputs with
            | none => (world, .error .panicked)
            | some primary =>
                finishBuild tools knownPaths true "computing NAR hash" world drvPath drv attempt
                  outputs primary

/-- `build_derivation_inner`. -/
def buildDerivationInner (world : World Content hash) (drvPath : StorePath) (drv : Derivation)
    (attempt : Attempt Content) : World Content hash × Except Stop BuildResult :=
  match registerDerivationFile tools world drvPath drv attempt with
  | (world, .error reason) => (world, .error reason)
  | (world, .ok ()) =>
      if allExist (existsIn tools world.elsewhere world.store) drv then
        buildResultFromExisting tools knownPaths world drvPath drv attempt
      else
        match attempt.setupFault with
        | some reason => (world, .error (.failed (.io reason)))
        | none =>
            if isBuiltin drv then
              buildBuiltinFetcher tools knownPaths world drvPath drv attempt
            else
              runBuilder tools knownPaths world drvPath drv attempt

end Build

section Order

variable (knownPaths : KnownPaths)

/-- The input derivations of a derivation. -/
def inputs (drvPath : StorePath) : Except BuildError (List StorePath) :=
  match knownPaths.getDrvByDrvpath drvPath with
  | none => .error (.unknownDerivation (display drvPath))
  | some drv => .ok (drv.inputDerivations.map Prod.fst)

/-- `topological_sort`, with fuel for its recursion. -/
def topologicalSort (target : StorePath) : Except BuildError (List StorePath) :=
  match DepthFirst.visit (inputs knownPaths) (knownPaths.entries.length + 1) ⟨[], []⟩ target with
  | none => .error (.unknownDerivation (display target))
  | some (.error reason) => .error reason
  | some (.ok search) => .ok search.order

/-- The fuel is enough. -/
theorem topologicalSort_terminates (target : StorePath) :
    (DepthFirst.visit (inputs knownPaths) (knownPaths.entries.length + 1) ⟨[], []⟩
      target).isSome := by
  apply DepthFirst.visit_terminates (knownPaths.entries.map Sigma.fst)
  · intro node children expanded
    unfold inputs at expanded
    split at expanded
    · cases expanded
    · rename_i drv found
      exact AList.mem_keys.mp (AList.lookup_isSome.mp (by
        rw [KnownPaths.getDrvByDrvpath] at found
        rw [found]
        rfl))
  · have few := List.length_filter_le (fun node => decide (node ∉ ([] : List StorePath)))
      (knownPaths.entries.map Sigma.fst)
    rw [List.length_map] at few
    exact Nat.lt_succ_of_le few

end Order

section Needed

variable {Content : Type} {hash : StorePathHash} (tools : Tools Content)
  (knownPaths : KnownPaths)

/-- An error below the target is wrapped. -/
def wrapError (drvPath target : StorePath) : Stop → Stop
  | .failed error =>
      if drvPath ≠ target then .failed (.dependencyFailed (display drvPath) error)
      else .failed error
  | .panicked => .panicked

/-- The loop of `build_needed_with_options` over the build order. -/
def buildEach (target : StorePath) (attempts : StorePath → Attempt Content) :
    List StorePath → Option BuildResult → World Content hash →
      World Content hash × Except Stop (Option BuildResult)
  | [], last, world => (world, .ok last)
  | drvPath :: rest, last, world =>
      match knownPaths.getDrvByDrvpath drvPath with
      | none => (world, .error (.failed (.unknownDerivation (display drvPath))))
      | some drv =>
          if allExist (existsIn tools world.elsewhere world.store) drv then
            if drvPath = target then
              match buildResultFromExisting tools knownPaths world drvPath drv
                  (attempts drvPath) with
              | (world, .error reason) => (world, .error reason)
              | (world, .ok result) => buildEach target attempts rest (some result) world
            else
              buildEach target attempts rest last world
          else
            match buildDerivationInner tools knownPaths world drvPath drv (attempts drvPath) with
            | (world, .error reason) => (world, .error (wrapError drvPath target reason))
            | (world, .ok result) =>
                buildEach target attempts rest (if drvPath = target then some result else last)
                  world

/-- A call of `build_needed`, with the rest of the disk when it begins, and what happens to
the derivations it builds. -/
structure Call (Content : Type) where
  target : StorePath
  elsewhere : Elsewhere Content
  attempts : StorePath → Attempt Content

def buildNeeded (world : World Content hash) (call : Call Content) :
    World Content hash × Except Stop BuildResult :=
  match topologicalSort knownPaths call.target with
  | .error reason => (world, .error (.failed reason))
  | .ok order =>
      match buildEach tools knownPaths call.target call.attempts order none
          { world with elsewhere := call.elsewhere } with
      | (world, .error reason) => (world, .error reason)
      | (world, .ok none) =>
          (world, .error (.failed (.unknownDerivation (display call.target))))
      | (world, .ok (some result)) => (world, .ok result)

/-- The world after a sequence of calls. -/
def afterCalls (start : World Content hash) (calls : List (Call Content)) : World Content hash :=
  calls.foldl (fun world call => (buildNeeded tools knownPaths world call).1) start

end Needed

end NixRedox.LocalBuild
