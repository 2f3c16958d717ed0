import NixRedox.DeclaredServices
import NixRedox.ImageManifest

set_option autoImplicit false

/- The unit files that are made of service declarations (`build/init-scripts.nix`). -/
namespace NixRedox.InitScripts

open AttrSets (ofEntries update)
open Image (baseNameOf)
open Serde (sortedMembers)

section Sorting

variable (declared : ServiceSet)

def serviceNames : List String := (sortedMembers declared).map Prod.fst

/-- `allDeclaredServices.${name}.after`. -/
def after (name : String) : List String :=
  match declared.lookup name with
  | some svc => svc.after
  | none => []

def inDegree (name : String) : Int := (after declared name).length

/-- The nodes without dependencies among those that remain, sorted for determinism. -/
def readyNodes (remaining : List String) (degrees : String → Int) : List String :=
  (remaining.filter fun name => degrees name = 0).mergeSort (· ≤ ·)

/-- The degrees of the dependents of ready nodes; only those of names that remain are looked
at again. -/
def newDegrees (ready : List String) (degrees : String → Int) (name : String) : Int :=
  degrees name - ((after declared name).filter ready.contains).length

def newRemaining (remaining ready : List String) : List String :=
  remaining.filter fun name => !ready.contains name

theorem length_newRemaining_lt {remaining : List String} {degrees : String → Int}
    (some_ : readyNodes remaining degrees ≠ []) :
    (newRemaining remaining (readyNodes remaining degrees)).length < remaining.length := by
  obtain ⟨name, inside⟩ := List.exists_mem_of_ne_nil _ some_
  have remains := (List.mem_filter.mp (List.mem_mergeSort.mp inside)).1
  apply List.length_filter_lt_length_iff_exists.mpr
  exact ⟨name, remains, by simpa using inside⟩

def kahnStep (remaining : List String) (degrees : String → Int) (result : List String) :
    Except String (List String) :=
  if remaining = [] then
    .ok result
  else if readyNodes remaining degrees = [] then
    .error ("Service dependency cycle detected among: " ++ ", ".intercalate remaining)
  else
    let ready := readyNodes remaining degrees
    kahnStep (newRemaining remaining ready) (newDegrees declared ready degrees) (result ++ ready)
termination_by remaining.length
decreasing_by exact length_newRemaining_lt ‹_›

def topoSortServices : Except String (List String) :=
  kahnStep declared (serviceNames declared) (inDegree declared) []

end Sorting

section Numbering

structure Numbered where
  name : String
  num : Int
  numStr : String
  service : Service

/-- The numbers are spread over 15 to 79. -/
def step (count : Nat) : ℚ := if count ≤ 1 then 1 else 64 / ((count - 1 : Nat) : ℚ)

def autoNum (count idx : Nat) : Int := 15 + (idx * step count).floor

def numStr (num : Int) : String := if num < 10 then "0" ++ toString num else toString num

/-- `set.${name}`. -/
def getAttr {α : Type} (set : AList fun _ : String => α) (name : String) : Except String α :=
  match set.lookup name with
  | some value => .ok value
  | none => .error ("attribute '" ++ name ++ "' missing")

/-- A priority other than the default is the number. -/
def numberedService (declared : ServiceSet) (count idx : Nat) (name : String) :
    Except String Numbered := do
  let svc ← getAttr declared name
  let num := if svc.priority ≠ 50 then svc.priority else autoNum count idx
  return { name, num, numStr := numStr num, service := svc }

def autoNumbered (declared : ServiceSet) : Except String (List Numbered) := do
  let sorted ← topoSortServices declared
  sorted.zipIdx.mapM fun entry => numberedService declared sorted.length entry.2 entry.1

def Numbered.fileName (entry : Numbered) : String :=
  entry.numStr ++ "_" ++ entry.name ++ ".service"

def serviceFilenameMap (numbered : List Numbered) : AList fun _ : String => String :=
  ofEntries (numbered.map fun entry => (entry.name, entry.fileName))

end Numbering

section Rendering

/-- The character in a string that `builtins.toJSON` writes. -/
def jsonChar : Char → List Char
  | '"' => ['\\', '"']
  | '\\' => ['\\', '\\']
  | '\x08' => ['\\', 'b']
  | '\x0C' => ['\\', 'f']
  | '\n' => ['\\', 'n']
  | '\r' => ['\\', 'r']
  | '\t' => ['\\', 't']
  | other =>
      if other.toNat < 0x20 then
        ['\\', 'u', '0', '0', Nat.digitChar (other.toNat / 16), Nat.digitChar (other.toNat % 16)]
      else
        [other]

/-- `builtins.toJSON` of a string. -/
def tomlString (value : String) : List Char := '"' :: value.toList.flatMap jsonChar ++ ['"']

/-- `builtins.toJSON` of a list of strings. -/
def jsonStrings (values : List String) : List Char :=
  '[' :: List.intercalate [','] (values.map tomlString) ++ [']']

variable (svc : Service)

def tomlType : List Char :=
  match svc.type with
  | .scheme => "\x7b scheme = ".toList ++ tomlString svc.args ++ " \x7d".toList
  | .daemon => tomlString "notify"
  | .oneshot => tomlString "oneshot"
  | .nowait => tomlString "oneshot_async"

/-- A structured argument vector preserves argument boundaries, legacy args are split at
spaces. -/
def argsList : List String :=
  match svc.argv with
  | some argv => argv
  | none =>
      if svc.type = .scheme then [svc.args]
      else if svc.args = "" then []
      else svc.args.splitOn " "

def cmdName : String :=
  if svc.command.toList.head? = some '/' then svc.command else baseNameOf svc.command

def unitLines (defaultDependencies : Bool) (requiresWeak : List String) : List (List Char) :=
  ["description = ".toList ++ tomlString svc.description] ++
    (if defaultDependencies then [] else ["default_dependencies = false".toList]) ++
    (if requiresWeak = [] then [] else ["requires_weak = ".toList ++ jsonStrings requiresWeak])

def envLine (environment : Environment) : List Char :=
  "envs = \x7b ".toList ++
    List.intercalate ", ".toList ((sortedMembers environment).map fun entry =>
      entry.1.toList ++ " = ".toList ++ tomlString entry.2) ++
    " \x7d".toList

def argsLine : List Char := "args = ".toList ++ jsonStrings (argsList svc)

def serviceLines : List (List Char) :=
  ["cmd = ".toList ++ tomlString (cmdName svc), argsLine svc, "type = ".toList ++ tomlType svc] ++
    (if svc.environment.entries = [] then [] else [envLine svc.environment])

def renderServiceToml (defaultDependencies : Bool) (requiresWeak : List String) : List Char :=
  List.intercalate ['\n'] (["[unit]".toList] ++ unitLines svc defaultDependencies requiresWeak ++
    [[], "[service]".toList] ++ serviceLines svc)

end Rendering

section Units

/-- What the environment of rootfs services is made of; a self-hosting image has library
paths, a number of build jobs and a home for cargo. -/
structure RootfsConfig where
  term : Option String
  path : Option String
  home : String
  user : String
  selfHosting : Option (List String × Int × String)

def rootfsBaseEnv (config : RootfsConfig) : Environment :=
  update
    (ofEntries [("TERM", config.term.getD "xterm-256color"), ("XDG_CONFIG_HOME", "/etc"),
      ("HOME", config.home), ("USER", config.user),
      ("PATH", "/nix/system/profile/bin:" ++ config.path.getD "/bin:/usr/bin")])
    (match config.selfHosting with
    | some (extraLdLibraryPath, buildJobs, cargoHome) =>
        ofEntries [
          ("LD_LIBRARY_PATH", ":".intercalate
            (["/lib", "/usr/lib/rustc", "/nix/system/profile/lib"] ++ extraLdLibraryPath)),
          ("CARGO_BUILD_JOBS", toString buildJobs), ("CARGO_HOME", cargoHome)]
    | none => ∅)

structure Rendered where
  text : List Char
  directory : String

variable (config : RootfsConfig)

/-- Rootfs services have the base environment beside their own. -/
def withEnvironment (svc : Service) : Service :=
  { svc with environment :=
      if svc.wantedBy = .rootfs then update (rootfsBaseEnv config) svc.environment
      else svc.environment }

def renderedService (files : AList fun _ : String => String) (entry : Numbered) :
    Except String (String × Rendered) := do
  let requiresWeak ← entry.service.after.mapM (getAttr files)
  return (entry.fileName,
    { text := renderServiceToml (withEnvironment config entry.service) true requiresWeak
      directory := if entry.service.wantedBy = .rootfs then "usr/lib/init.d" else "etc/init.d" })

def renderedServices (numbered : List Numbered) :
    Except String (AList fun _ : String => Rendered) :=
  (numbered.mapM (renderedService config (serviceFilenameMap numbered))).map ofEntries

/-- What the file evaluates to, as far as it is about declared services. -/
structure Evaluated where
  autoNumbered : List Numbered
  renderedServices : AList fun _ : String => Rendered

def evaluate (sources : Sources) : Except String Evaluated := do
  validateAfterRefs (allDeclaredServices sources)
  let numbered ← autoNumbered (allDeclaredServices sources)
  return ⟨numbered, ← renderedServices config numbered⟩

end Units

end NixRedox.InitScripts
