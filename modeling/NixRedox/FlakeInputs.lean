import NixRedox.Derivation
import NixRedox.Hex
import NixRedox.Text

set_option autoImplicit false

/- Locked inputs of flakes (`flake.rs`, with the downloads of `fetchers.rs`): sources
that are unpacked in place and checked against the hash of the lock. -/
namespace NixRedox.Flake

open Hex (HexLower hexLower)

/-- What is used of an entry of `flake.lock`. -/
structure LockedRef where
  type_ : String
  owner : Option (List Char)
  repo : Option (List Char)
  rev : Option (List Char)
  narHash : Option String
  host : Option (List Char)
  path : Option String
  url : Option (List Char)
  deriving DecidableEq

/-- Code outside the repository: hash texts, store paths of content, SHA-256 of a text and of
the archive of a tree, and hexadecimal text. -/
structure Tools (Tree : Type) where
  parseSri : String → Except String NixHash
  buildCaPath : String → NixHash → Except String String
  sha256 : List Char → List UInt8
  narSha256 : Tree → List UInt8
  hex : HexLower

abbrev Store (Tree : Type) := String → Option Tree

/-- How `fetch_and_unpack` ends. The destination is created before the first entry of
the archive is read. -/
inductive Unpack (Tree : Type) where
  | refused (reason : String)
  | stopped (left : Tree) (reason : String)
  | unpacked (tree : Tree)
  deriving DecidableEq

/-- What the world does during a call. -/
structure Weather (Tree : Type) where
  storeDir : Option String
  unpack : Unpack Tree
  git : Option String
  tmpParent : Option String
  /-- `git clone` is not started, or ends with this text on failure. -/
  clone : Except String (Option String)
  /-- What is left of an earlier bare clone, the bare clone, and what is left of that. -/
  staleBare : Option Tree
  bare : Tree
  bareRemoval : Option Tree
  outDir : Option String
  /-- `git checkout`, in the same way. -/
  checkout : Except String (Option String)
  /-- The output directory when it has been created, and after the checkout. -/
  created : Tree
  checkedOut : Tree
  /-- The store with what unpacking or checking out writes outside the destination. -/
  strays : Store Tree → Store Tree
  serialise : Option String
  /-- What `remove_dir_all` leaves. -/
  removal : Option Tree

section Urls

/-- `resolve_tarball_url`. -/
def resolveTarballUrl (locked : LockedRef) : Option (List Char) := do
  let rev ← locked.rev
  match locked.type_ with
  | "github" =>
      let owner ← locked.owner
      let repo ← locked.repo
      some ("https://github.com/".toList ++ owner ++ '/' :: repo ++ "/archive/".toList ++ rev ++
        ".tar.gz".toList)
  | "gitlab" =>
      let owner ← locked.owner
      let repo ← locked.repo
      let host := locked.host.getD "gitlab.com".toList
      some ("https://".toList ++ host ++ '/' :: owner ++ '/' :: repo ++ "/-/archive/".toList ++
        rev ++ '/' :: repo ++ '-' :: rev ++ ".tar.gz".toList)
  | _ => none

def stripPrefix (front text : List Char) : Option (List Char) :=
  if front.isPrefixOf text then some (text.drop front.length) else none

def stripSuffix (back text : List Char) : Option (List Char) :=
  if back.isSuffixOf text then some (text.take (text.length - back.length)) else none

/-- `git_url_to_forge_tarball`. -/
def gitUrlToForgeTarball (url rev : List Char) : Option (List Char) :=
  let url := (stripSuffix ".git".toList url).getD url
  let github := (stripPrefix "https://github.com/".toList url).bind fun rest =>
    if rest.count '/' = 1 ∧ rest ≠ [] then
      some ("https://github.com/".toList ++ rest ++ "/archive/".toList ++ rev ++
        ".tar.gz".toList)
    else
      none
  let gitlab := if Text.contains "gitlab".toList url then
      (stripPrefix "https://".toList url).bind fun afterScheme =>
        match Text.splitFirstSlash afterScheme with
        | (_, none) => none
        | (host, some ownerRepo) =>
            let repoName := (ownerRepo.splitOn '/').getLast?.getD []
            if repoName ≠ [] then
              some ("https://".toList ++ host ++ '/' :: ownerRepo ++ "/-/archive/".toList ++
                rev ++ '/' :: repoName ++ '-' :: rev ++ ".tar.gz".toList)
            else
              none
    else
      none
  github.or gitlab

end Urls

section Fetching

variable {Tree : Type} (tools : Tools Tree)

/-- `compute_fod_store_path`. -/
def computeFodStorePath (name sri : String) : Except String String :=
  match tools.parseSri sri with
  | .error reason => .error s!"invalid narHash for '{name}': {reason}"
  | .ok found =>
      match tools.buildCaPath "source" found with
      | .error reason => .error s!"computing store path for '{name}': {reason}"
      | .ok path => .ok path

/-- Compare the hash of a tree with the expected one, and remove the tree if it
differs. -/
def checkNarHash (unsupported label : String) (weather : Weather Tree) (store : Store Tree)
    (path sri : String) : Store Tree × Except String Unit :=
  match tools.parseSri sri with
  | .error reason => (store, .error s!"invalid expected hash: {reason}")
  | .ok expected =>
      match weather.serialise, store path with
      | some reason, _ => (store, .error reason)
      | none, none => (store, .error "No such file or directory (os error 2)")
      | none, some tree =>
          if expected.algo ≠ .sha256 then
            (store, .error unsupported)
          else if tools.hex.encode (tools.narSha256 tree) ≠ tools.hex.encode expected.digest then
            (Function.update store path weather.removal,
              .error (s!"{label} {path}:\n  expected: " ++ tools.hex.encode expected.digest ++
                "\n  got:      " ++ tools.hex.encode (tools.narSha256 tree)))
          else
            (store, .ok ())

/-- `verify_nar_hash` of `flake.rs`. -/
def verifyNarHash (weather : Weather Tree) (store : Store Tree) (path sri : String) :
    Store Tree × Except String Unit :=
  checkNarHash tools "only SHA-256 hashes supported" "NAR hash mismatch for" weather store path sri

/-- `verify_nar_hash_sri` of `fetchers.rs`. -/
def verifyNarHashSri (weather : Weather Tree) (store : Store Tree) (path sri : String) :
    Store Tree × Except String Unit :=
  checkNarHash tools "only SHA-256 hashes supported for fetchGit"
    "NAR hash mismatch for fetchGit output" weather store path sri

/-- `fetch_and_extract_to_store`. -/
def fetchAndExtractToStore (weather : Weather Tree) (store : Store Tree) (path : String) :
    Store Tree × Except String Unit :=
  match weather.storeDir with
  | some reason => (store, .error reason)
  | none =>
      match weather.unpack with
      | .refused reason => (store, .error reason)
      | .stopped left reason =>
          (Function.update (weather.strays store) path (some left), .error reason)
      | .unpacked tree => (Function.update (weather.strays store) path (some tree), .ok ())

/-- The tarball of a forge, unless its path is there. -/
def fetchTarball (weather : Weather Tree) (store : Store Tree) (path sri : String) :
    Store Tree × Except String String :=
  if (store path).isSome then
    (store, .ok path)
  else
    match fetchAndExtractToStore weather store path with
    | (store, .error reason) => (store, .error reason)
    | (store, .ok ()) =>
        let (store, checked) := verifyNarHash tools weather store path sri
        (store, checked.map fun _ => path)

/-- Where the bare clone of a git source goes. -/
def tmpBare (out : String) : String := out ++ ".git-bare-tmp"

/-- `fetch_git`. -/
def fetchGit (weather : Weather Tree) (store : Store Tree) (url rev : List Char) (out : String)
    (sri : Option String) : Store Tree × Except String Unit :=
  if (store out).isSome then
    (store, .ok ())
  else
    match weather.git.or weather.tmpParent with
    | some reason => (store, .error reason)
    | none =>
        match weather.clone with
        | .error reason =>
            (Function.update store (tmpBare out) weather.staleBare,
              .error s!"failed to run git clone: {reason}")
        | .ok (some stderr) =>
            (Function.update store (tmpBare out) weather.bareRemoval,
              .error s!"git clone failed for '{String.ofList url}':\n{stderr}")
        | .ok none =>
            let cloned := Function.update store (tmpBare out) (some weather.bare)
            match weather.outDir with
            | some reason => (cloned, .error reason)
            | none =>
                match weather.checkout with
                | .error reason =>
                    (Function.update cloned out (some weather.created),
                      .error s!"failed to run git checkout: {reason}")
                | .ok (some stderr) =>
                    (Function.update (weather.strays (Function.update cloned (tmpBare out)
                        weather.bareRemoval)) out weather.removal,
                      .error s!"git checkout failed for rev '{String.ofList rev}':\n{stderr}")
                | .ok none =>
                    let store := Function.update (weather.strays (Function.update cloned
                      (tmpBare out) weather.bareRemoval)) out (some weather.checkedOut)
                    match sri with
                    | none => (store, .ok ())
                    | some sri => verifyNarHashSri tools weather store out sri

/-- `fetch_locked_input`. -/
def fetchLockedInput (weather : Weather Tree) (store : Store Tree) (name : String)
    (locked : LockedRef) : Store Tree × Except String String :=
  match locked.type_ with
  | "github" | "gitlab" =>
      match resolveTarballUrl locked with
      | none =>
          (store, .error (s!"cannot resolve tarball URL for input '{name}' (type=" ++
            locked.type_ ++ ")"))
      | some _ =>
          match locked.narHash with
          | none => (store, .error s!"input '{name}' has no narHash")
          | some sri =>
              match computeFodStorePath tools name sri with
              | .error reason => (store, .error reason)
              | .ok path => fetchTarball tools weather store path sri
  | "path" =>
      match locked.path with
      | none => (store, .error s!"path input '{name}' has no path field")
      | some path => (store, .ok path)
  | "git" =>
      match locked.url, locked.rev with
      | none, _ => (store, .error s!"git input '{name}' has no url field")
      | some _, none => (store, .error s!"git input '{name}' has no rev field")
      | some url, some rev =>
          match locked.narHash with
          | some sri =>
              match computeFodStorePath tools name sri with
              | .error reason => (store, .error reason)
              | .ok path =>
                  if (gitUrlToForgeTarball url rev).isSome then
                    fetchTarball tools weather store path sri
                  else if (store path).isSome then
                    (store, .ok path)
                  else
                    let (store, fetched) := fetchGit tools weather store url rev path (some sri)
                    (store, fetched.map fun _ => path)
          | none =>
              let digest := (tools.hex.encode
                (tools.sha256 ("git-".toList ++ url ++ '-' :: rev))).toList
              let path := String.ofList ("/nix/store/".toList ++ digest.take 32 ++
                "-source".toList)
              let (store, fetched) := fetchGit tools weather store url rev path none
              (store, fetched.map fun _ => path)
  | other => (store, .error (s!"unsupported input type '" ++ other ++ s!"' for input '{name}'"))

end Fetching

section Calls

variable {Tree : Type} (tools : Tools Tree)

/-- A call of `fetch_locked_input`, or of `fetch_git` with a hash. -/
inductive Call (Tree : Type) where
  | locked (name : String) (lock : LockedRef) (weather : Weather Tree)
  | git (url rev : List Char) (out sri : String) (weather : Weather Tree)

namespace Call

def weather : Call Tree → Weather Tree
  | .locked _ _ weather => weather
  | .git _ _ _ _ weather => weather

def run (store : Store Tree) : Call Tree → Store Tree × Except String String
  | .locked name lock weather => fetchLockedInput tools weather store name lock
  | .git url rev out sri weather =>
      let (store, fetched) := fetchGit tools weather store url rev out (some sri)
      (store, fetched.map fun _ => out)

/-- The hash the result is to have. -/
def narHash : Call Tree → Option String
  | .locked _ lock _ => lock.narHash
  | .git _ _ _ sri _ => some sri

/-- The lock is of a source that is downloaded. -/
def Pinned : Call Tree → Prop
  | .locked _ lock _ =>
      (lock.type_ = "github" ∨ lock.type_ = "gitlab" ∨ lock.type_ = "git") ∧
        lock.narHash.isSome = true
  | .git .. => True

/-- Where the source of a call goes. -/
def target : Call Tree → Except String String
  | .locked name lock _ => computeFodStorePath tools name (lock.narHash.getD "")
  | .git _ _ out _ _ => .ok out

end Call

def afterCalls (start : Store Tree) (calls : List (Call Tree)) : Store Tree :=
  calls.foldl (fun store call => (call.run tools store).1) start

/-- The tree at a path has the hash of the call. -/
def Matches (store : Store Tree) (call : Call Tree) (path : String) : Prop :=
  ∃ tree sri found, store path = some tree ∧ call.narHash = some sri ∧
    tools.parseSri sri = .ok found ∧ tools.narSha256 tree = found.digest

/-- Nothing that is not verified is left at the destination, and nothing is written
elsewhere. -/
structure Clean (weather : Weather Tree) (path : String) : Prop where
  inside : ∀ store other, other ≠ path → weather.strays store other = store other
  unpack : ∀ left reason, weather.unpack ≠ .stopped left reason
  checkout : ∀ reason, weather.checkout ≠ .error reason
  serialise : weather.serialise = none
  removal : weather.removal = none

/-- The hashes of the calls are SHA-256, a path is used with one hash only, and no path is
that of a bare clone. -/
structure Addressed (owner : String → List UInt8) (calls : List (Call Tree)) : Prop where
  sha256 : ∀ sri found, tools.parseSri sri = .ok found → found.algo = .sha256
  owned : ∀ call ∈ calls, ∀ path sri, call.target tools = .ok path → call.narHash = some sri →
    ∃ found, tools.parseSri sri = .ok found ∧ found.digest = owner path
  apart : ∀ call ∈ calls, ∀ other ∈ calls, ∀ path, call.target tools = .ok path →
    other.target tools ≠ .ok (tmpBare path)

end Calls

section Verification

variable {Tree : Type} {tools : Tools Tree} {store after start : Store Tree}
  {weather : Weather Tree} {path sri : String} {owner : String → List UInt8}
  {targets : String → Prop}

/-- What was not at a target path at the start has the hash the path stands for. -/
def Sound (tools : Tools Tree) (owner : String → List UInt8) (targets : String → Prop)
    (start store : Store Tree) : Prop :=
  ∀ path tree, targets path → store path = some tree → start path = some tree ∨
    tools.narSha256 tree = owner path

theorem sound_of_update (sound : Sound tools owner targets start store)
    (clean : Clean weather path) {left : Option Tree}
    (hashed : ∀ tree, left = some tree → tools.narSha256 tree = owner path) :
    Sound tools owner targets start (Function.update (weather.strays store) path left) := by
  intro other tree wanted found
  by_cases same : other = path
  · subst same
    rw [Function.update_self] at found
    exact .inr (hashed tree found)
  · rw [Function.update_of_ne same, clean.inside store other same] at found
    exact sound other tree wanted found

/-- What becomes of a bare clone does not matter. -/
theorem Sound.bare (sound : Sound tools owner targets start store)
    (apart : ¬ targets (tmpBare path)) (left : Option Tree) :
    Sound tools owner targets start (Function.update store (tmpBare path) left) := by
  intro other tree wanted found
  have differs : other ≠ tmpBare path := by
    rintro rfl
    exact apart wanted
  rw [Function.update_of_ne differs] at found
  exact sound other tree wanted found

/-- A check of what has just been put at a path. -/
theorem checkNarHash_sound {found : NixHash} {unsupported label : String} {tree : Tree}
    (sound : Sound tools owner targets start store) (clean : Clean weather path)
    (parsed : tools.parseSri sri = .ok found) (algo : found.algo = .sha256)
    (owned : found.digest = owner path) {result : Except String Unit}
    (checked : checkNarHash tools unsupported label weather
      (Function.update (weather.strays store) path (some tree)) path sri = (after, result)) :
    Sound tools owner targets start after ∧
      (result = .ok () → ∃ tree, after path = some tree ∧
        tools.narSha256 tree = found.digest) := by
  unfold checkNarHash at checked
  rw [parsed] at checked
  dsimp only at checked
  rw [clean.serialise, Function.update_self] at checked
  dsimp only at checked
  rw [if_neg (by simp [algo])] at checked
  split at checked
  · cases checked
    refine ⟨?_, nofun⟩
    rw [Function.update_idem, clean.removal]
    exact sound_of_update sound clean nofun
  · rename_i equal
    cases checked
    have same := tools.hex.encode_injective (not_not.mp equal)
    refine ⟨sound_of_update sound clean ?_, fun _ => ⟨tree, Function.update_self .., same⟩⟩
    intro other is
    cases is
    rw [same, owned]

/-- A source that is there already is the one its path stands for. -/
theorem Sound.cached (sound : Sound tools owner targets start store) (wanted : targets path)
    (fresh : start path = none) (there : (store path).isSome = true) :
    ∃ tree, store path = some tree ∧ tools.narSha256 tree = owner path := by
  obtain ⟨tree, found⟩ := Option.isSome_iff_exists.mp there
  rcases sound path tree wanted found with old | hashed
  · rw [fresh] at old
    cases old
  · exact ⟨tree, found, hashed⟩

theorem fetchTarball_sound {found : NixHash} (sound : Sound tools owner targets start store)
    (clean : Clean weather path) (wanted : targets path) (fresh : start path = none)
    (parsed : tools.parseSri sri = .ok found) (algo : found.algo = .sha256)
    (owned : found.digest = owner path) {result : Except String String}
    (fetched : fetchTarball tools weather store path sri = (after, result)) :
    Sound tools owner targets start after ∧
      ∀ returned, result = .ok returned → returned = path ∧ ∃ tree, after path = some tree ∧
        tools.narSha256 tree = found.digest := by
  unfold fetchTarball at fetched
  split at fetched
  · rename_i there
    cases fetched
    refine ⟨sound, ?_⟩
    intro returned success
    cases success
    rw [owned]
    exact ⟨rfl, sound.cached wanted fresh there⟩
  · unfold fetchAndExtractToStore at fetched
    split at fetched
    · rename_i failed
      split at failed
      · cases failed
        cases fetched
        exact ⟨sound, nofun⟩
      · split at failed
        · cases failed
          cases fetched
          exact ⟨sound, nofun⟩
        · rename_i left text stopped
          exact absurd stopped (clean.unpack left text)
        · cases failed
    · rename_i unpacked
      split at unpacked
      · cases unpacked
      · split at unpacked
        · cases unpacked
        · cases unpacked
        · rename_i tree _
          cases unpacked
          dsimp only at fetched
          cases verified : verifyNarHash tools weather
              (Function.update (weather.strays store) path (some tree)) path sri with
          | mk next checked =>
              rw [verified] at fetched
              cases fetched
              obtain ⟨good, hashed⟩ := checkNarHash_sound sound clean parsed algo owned verified
              refine ⟨good, ?_⟩
              intro returned success
              cases checked with
              | error reason => cases success
              | ok done =>
                  cases success
                  exact ⟨rfl, hashed rfl⟩

theorem fetchGit_sound {found : NixHash} {url rev : List Char}
    (sound : Sound tools owner targets start store) (clean : Clean weather path)
    (wanted : targets path) (apart : ¬ targets (tmpBare path))
    (fresh : start path = none) (parsed : tools.parseSri sri = .ok found)
    (algo : found.algo = .sha256) (owned : found.digest = owner path)
    {result : Except String Unit}
    (fetched : fetchGit tools weather store url rev path (some sri) = (after, result)) :
    Sound tools owner targets start after ∧ (result = .ok () → ∃ tree, after path = some tree ∧
      tools.narSha256 tree = found.digest) := by
  have cleared : Sound tools owner targets start (Function.update (Function.update store
      (tmpBare path) (some weather.bare)) (tmpBare path) weather.bareRemoval) :=
    (sound.bare apart _).bare apart _
  unfold fetchGit at fetched
  split at fetched
  · rename_i there
    cases fetched
    refine ⟨sound, fun _ => ?_⟩
    rw [owned]
    exact sound.cached wanted fresh there
  · split at fetched
    · cases fetched
      exact ⟨sound, nofun⟩
    · split at fetched
      · cases fetched
        exact ⟨sound.bare apart _, nofun⟩
      · cases fetched
        exact ⟨sound.bare apart _, nofun⟩
      · dsimp only at fetched
        split at fetched
        · cases fetched
          exact ⟨sound.bare apart _, nofun⟩
        · split at fetched
          · rename_i reason unstarted
            exact absurd unstarted (clean.checkout reason)
          · cases fetched
            refine ⟨?_, nofun⟩
            rw [clean.removal]
            exact sound_of_update cleared clean nofun
          · exact checkNarHash_sound cleared clean parsed algo owned fetched

/-- A locked source is fetched as a tarball or cloned; both end in a check. -/
theorem fetchLockedInput_sound {name : String} {locked : LockedRef}
    (kind : locked.type_ = "github" ∨ locked.type_ = "gitlab" ∨ locked.type_ = "git")
    (has : locked.narHash = some sri) (sound : Sound tools owner targets start store)
    (clean : ∀ path, computeFodStorePath tools name sri = .ok path → Clean weather path)
    (wanted : ∀ path, computeFodStorePath tools name sri = .ok path →
      targets path ∧ ¬ targets (tmpBare path))
    (fresh : ∀ path, computeFodStorePath tools name sri = .ok path → start path = none)
    (algo : ∀ sri found, tools.parseSri sri = .ok found → found.algo = .sha256)
    (owned : ∀ path, computeFodStorePath tools name sri = .ok path →
      ∃ found, tools.parseSri sri = .ok found ∧ found.digest = owner path)
    {result : Except String String}
    (fetched : fetchLockedInput tools weather store name locked = (after, result)) :
    Sound tools owner targets start after ∧ ∀ path, result = .ok path →
      ∃ tree found, after path = some tree ∧ tools.parseSri sri = .ok found ∧
        tools.narSha256 tree = found.digest := by
  have forge : ∀ path, computeFodStorePath tools name sri = .ok path →
      fetchTarball tools weather store path sri = (after, result) →
      Sound tools owner targets start after ∧ ∀ path, result = .ok path →
        ∃ tree found, after path = some tree ∧ tools.parseSri sri = .ok found ∧
          tools.narSha256 tree = found.digest := by
    intro path computed tarball
    obtain ⟨found, parsed, own⟩ := owned path computed
    obtain ⟨good, hashed⟩ := fetchTarball_sound sound (clean path computed)
      (wanted path computed).1 (fresh path computed) parsed (algo sri found parsed) own tarball
    refine ⟨good, ?_⟩
    intro returned success
    obtain ⟨rfl, tree, there, same⟩ := hashed returned success
    exact ⟨tree, found, there, parsed, same⟩
  unfold fetchLockedInput at fetched
  simp only [has] at fetched
  split at fetched
  · split at fetched
    · cases fetched
      exact ⟨sound, nofun⟩
    · split at fetched
      · cases fetched
        exact ⟨sound, nofun⟩
      · rename_i path computed
        exact forge path computed fetched
  · split at fetched
    · cases fetched
      exact ⟨sound, nofun⟩
    · split at fetched
      · cases fetched
        exact ⟨sound, nofun⟩
      · rename_i path computed
        exact forge path computed fetched
  · rename_i other
    simp [other] at kind
  · split at fetched
    · cases fetched
      exact ⟨sound, nofun⟩
    · cases fetched
      exact ⟨sound, nofun⟩
    · rename_i url rev _ _
      split at fetched
      · cases fetched
        exact ⟨sound, nofun⟩
      · rename_i path computed
        split at fetched
        · exact forge path computed fetched
        · obtain ⟨found, parsed, own⟩ := owned path computed
          split at fetched
          · rename_i there
            cases fetched
            refine ⟨sound, ?_⟩
            intro returned success
            cases success
            obtain ⟨tree, held, same⟩ := sound.cached (wanted path computed).1
              (fresh path computed) there
            exact ⟨tree, found, held, parsed, by rw [same, own]⟩
          · cases cloned : fetchGit tools weather store url rev path (some sri) with
            | mk next outcome =>
                simp only [cloned] at fetched
                cases fetched
                obtain ⟨good, hashed⟩ := fetchGit_sound sound (clean path computed)
                  (wanted path computed).1 (wanted path computed).2 (fresh path computed) parsed
                  (algo sri found parsed) own cloned
                refine ⟨good, ?_⟩
                intro returned success
                cases outcome with
                | error reason => cases success
                | ok done =>
                    cases success
                    obtain ⟨tree, there, same⟩ := hashed rfl
                    exact ⟨tree, found, there, parsed, same⟩
  · rename_i noGithub noGitlab _ noGit
    rcases kind with is | is | is
    · exact absurd is noGithub
    · exact absurd is noGitlab
    · exact absurd is noGit

/-- A path that a call of the list is for. -/
def Target (tools : Tools Tree) (calls : List (Call Tree)) (path : String) : Prop :=
  ∃ call ∈ calls, call.target tools = .ok path

theorem Addressed.wanted {call : Call Tree} {calls : List (Call Tree)}
    (addressed : Addressed tools owner calls) (member : call ∈ calls)
    (computed : call.target tools = .ok path) :
    Target tools calls path ∧ ¬ Target tools calls (tmpBare path) := by
  refine ⟨⟨call, member, computed⟩, ?_⟩
  rintro ⟨other, listed, same⟩
  exact addressed.apart call member other listed path computed same

/-- A clean call of a pinned source leaves nothing unverified and returns nothing else. -/
theorem Call.run_sound {call : Call Tree} {calls : List (Call Tree)} (member : call ∈ calls)
    (addressed : Addressed tools owner calls) (pinned : call.Pinned)
    (fresh : ∀ path, call.target tools = .ok path → start path = none)
    (clean : ∀ path, call.target tools = .ok path → Clean call.weather path)
    (sound : Sound tools owner (Target tools calls) start store) :
    Sound tools owner (Target tools calls) start (call.run tools store).1 ∧
      ∀ path, (call.run tools store).2 = .ok path →
        Matches tools (call.run tools store).1 call path := by
  have owned := addressed.owned call member
  have wanted : ∀ path, call.target tools = .ok path →
      Target tools calls path ∧ ¬ Target tools calls (tmpBare path) :=
    fun _ computed => addressed.wanted member computed
  cases call with
  | locked name lock weather =>
      obtain ⟨kind, hashed⟩ := pinned
      obtain ⟨sri, has⟩ := Option.isSome_iff_exists.mp hashed
      simp only [Call.target, has, Option.getD_some] at owned fresh clean wanted
      obtain ⟨good, same⟩ := fetchLockedInput_sound kind has sound clean wanted fresh
        addressed.sha256
        (fun path computed => owned path sri computed has) rfl
      refine ⟨good, ?_⟩
      intro path success
      obtain ⟨tree, found, there, parsed, equal⟩ := same path success
      exact ⟨tree, sri, found, there, has, parsed, equal⟩
  | git url rev out sri weather =>
      obtain ⟨found, parsed, own⟩ := owned out sri rfl rfl
      obtain ⟨good, same⟩ := fetchGit_sound sound (clean out rfl) (wanted out rfl).1
        (wanted out rfl).2 (fresh out rfl) parsed (addressed.sha256 sri found parsed) own rfl
      refine ⟨good, ?_⟩
      intro path success
      unfold Call.run at success ⊢
      cases outcome : (fetchGit tools weather store url rev out (some sri)).2 with
      | error reason =>
          simp only [outcome] at success
          cases success
      | ok done =>
          simp only [outcome] at success
          cases success
          obtain ⟨tree, there, equal⟩ := same outcome
          exact ⟨tree, sri, found, there, rfl, parsed, equal⟩

theorem afterCalls_sound {calls chosen : List (Call Tree)} (inside : ∀ call ∈ chosen, call ∈ calls)
    (addressed : Addressed tools owner calls) (pinned : ∀ call ∈ calls, call.Pinned)
    (fresh : ∀ call ∈ calls, ∀ path, call.target tools = .ok path → start path = none)
    (clean : ∀ call ∈ calls, ∀ path, call.target tools = .ok path → Clean call.weather path)
    (sound : Sound tools owner (Target tools calls) start store) :
    Sound tools owner (Target tools calls) start (afterCalls tools store chosen) := by
  induction chosen generalizing store with
  | nil => exact sound
  | cons call rest ih =>
      have member := inside call List.mem_cons_self
      exact ih (fun other later => inside other (List.mem_cons_of_mem _ later))
        (Call.run_sound member addressed (pinned call member) (fresh call member)
          (clean call member) sound).1

/-- In a run of clean calls, a pinned source that a call returns has the hash of its
lock. -/
theorem pinned_sources_verified {calls : List (Call Tree)} (addressed : Addressed tools owner calls)
    (pinned : ∀ call ∈ calls, call.Pinned)
    (fresh : ∀ call ∈ calls, ∀ path, call.target tools = .ok path → start path = none)
    (clean : ∀ call ∈ calls, ∀ path, call.target tools = .ok path → Clean call.weather path)
    {earlier later : List (Call Tree)} {call : Call Tree}
    (split : calls = earlier ++ call :: later) {path : String}
    (returned : (call.run tools (afterCalls tools start earlier)).2 = .ok path) :
    Matches tools (call.run tools (afterCalls tools start earlier)).1 call path := by
  have member : call ∈ calls := by
    rw [split]
    simp
  have before : Sound tools owner (Target tools calls) start (afterCalls tools start earlier) := by
    apply afterCalls_sound _ addressed pinned fresh clean
    · exact fun _ _ _ held => .inl held
    · intro other listed
      rw [split]
      exact List.mem_append_left _ listed
  exact (Call.run_sound member addressed (pinned call member) (fresh call member)
    (clean call member) before).2 path returned

end Verification

section Readme

/-- A directory of plain files. -/
abbrev FlatDir := List (String × String)

def readmeSri : String := "sha256-YAarGyof1xNWJy+L2Pw00O/6MycVU8wjySA+V1Rw7OI="

def readmeHash : NixHash where
  algo := .sha256
  digest := [96, 6, 171, 27, 42, 31, 215, 19, 86, 39, 47, 139, 216, 252, 52, 208, 239, 250, 51, 39,
    21, 83, 204, 35, 201, 32, 62, 87, 84, 112, 236, 226]

def readmeSource : String := "/nix/store/y69ni29m3blyirgaxb04spa7h245cbig-source"

/-- Hashes of an empty directory and of one with a single file. -/
def readmeTools : Tools FlatDir where
  parseSri := fun text => if text = readmeSri then .ok readmeHash else .error "invalid hash"
  buildCaPath := fun name found =>
    if name = "source" ∧ found = readmeHash then .ok readmeSource else .error "invalid name"
  sha256 := fun _ => []
  narSha256 := fun tree =>
    if tree = [] then
      [165, 10, 90, 182, 217, 146, 245, 89, 142, 221, 146, 16, 80, 89, 250, 233, 172, 252, 25, 41,
        129, 224, 139, 216, 133, 52, 194, 22, 126, 146, 82, 106]
    else if tree = [("README", "hello")] then
      readmeHash.digest
    else
      []
  hex := hexLower

def readmeLock : LockedRef where
  type_ := "github"
  owner := some "owner".toList
  repo := some "repo".toList
  rev := some "1f0ac8d".toList
  narHash := some readmeSri
  host := none
  path := none
  url := none

def readmeWeather (unpack : Unpack FlatDir) : Weather FlatDir where
  storeDir := none
  unpack := unpack
  git := none
  tmpParent := none
  clone := .ok none
  staleBare := none
  bare := []
  bareRemoval := none
  outDir := none
  checkout := .ok none
  created := []
  checkedOut := []
  strays := id
  serialise := none
  removal := none

def readmeCall (unpack : Unpack FlatDir) : Call FlatDir :=
  .locked "readme" readmeLock (readmeWeather unpack)

theorem readmeTools_sha256 (sri : String) (found : NixHash)
    (parsed : readmeTools.parseSri sri = .ok found) : found.algo = .sha256 := by
  unfold readmeTools at parsed
  dsimp only at parsed
  split at parsed
  · cases parsed
    rfl
  · cases parsed

theorem readmeCalls_addressed {calls : List (Call FlatDir)}
    (all : ∀ call ∈ calls, ∃ unpack, call = readmeCall unpack) :
    Addressed readmeTools (fun _ => readmeHash.digest) calls where
  sha256 := readmeTools_sha256
  owned := by
    intro call member path sri target has
    obtain ⟨unpack, rfl⟩ := all call member
    cases has
    exact ⟨readmeHash, rfl, rfl⟩
  apart := by
    intro call member other listed path target
    obtain ⟨unpack, rfl⟩ := all call member
    obtain ⟨last, rfl⟩ := all other listed
    cases target
    show computeFodStorePath readmeTools "readme" readmeSri ≠ .ok (tmpBare readmeSource)
    decide

theorem readmeCall_pinned (unpack : Unpack FlatDir) : (readmeCall unpack).Pinned := ⟨.inl rfl, rfl⟩

theorem pinned_sources_verified_readme :
    Matches readmeTools ((readmeCall (.unpacked [("README", "hello")])).run readmeTools
      fun _ => none).1 (readmeCall (.unpacked [("README", "hello")])) readmeSource := by
  have all : ∀ call ∈ [readmeCall (.unpacked [("README", "hello")])], ∃ unpack,
      call = readmeCall unpack := by
    intro call member
    exact ⟨_, List.mem_singleton.mp member⟩
  have returned : ((readmeCall (.unpacked [("README", "hello")])).run readmeTools
      (afterCalls readmeTools (fun _ => none) [])).2 = .ok readmeSource := by
    decide +kernel
  apply pinned_sources_verified (readmeCalls_addressed all) _ (fun _ _ _ _ => rfl) _ rfl returned
  · intro call member
    obtain ⟨unpack, rfl⟩ := all call member
    exact readmeCall_pinned unpack
  · intro call member path target
    rw [List.mem_singleton.mp member]
    refine ⟨fun _ _ _ => rfl, ?_, ?_, rfl, rfl⟩
    · intro left reason
      simp [readmeCall, Call.weather, readmeWeather]
    · intro reason
      simp [readmeCall, Call.weather, readmeWeather]

/-- A tarball breaks off after its directory has been created. The next call takes the
empty directory for the source. -/
theorem broken_tarball_used :
    ¬ ∀ (tools : Tools FlatDir) (owner : String → List UInt8) (start : Store FlatDir)
      (calls : List (Call FlatDir)), Addressed tools owner calls →
      (∀ call ∈ calls, call.Pinned) →
      (∀ call ∈ calls, ∀ path, call.target tools = .ok path → start path = none) →
      ∀ earlier call later path, calls = earlier ++ call :: later →
        (call.run tools (afterCalls tools start earlier)).2 = .ok path →
        Matches tools (call.run tools (afterCalls tools start earlier)).1 call path := by
  intro always
  have all : ∀ call ∈ [readmeCall (.stopped [] "unexpected end of file"),
      readmeCall (.unpacked [("README", "hello")])], ∃ unpack, call = readmeCall unpack := by
    intro call member
    rcases List.mem_cons.mp member with rfl | later
    · exact ⟨_, rfl⟩
    · exact ⟨_, List.mem_singleton.mp later⟩
  obtain ⟨tree, sri, found, there, has, parsed, same⟩ := always readmeTools _ (fun _ => none) _
    (readmeCalls_addressed all)
    (fun call member => by
      obtain ⟨unpack, rfl⟩ := all call member
      exact readmeCall_pinned unpack)
    (fun _ _ _ _ => rfl) [readmeCall (.stopped [] "unexpected end of file")]
    (readmeCall (.unpacked [("README", "hello")])) [] readmeSource rfl (by decide +kernel)
  cases has
  cases parsed
  have held : some ([] : FlatDir) = some tree := by
    rw [← there]
    decide +kernel
  cases held
  exact absurd same (by decide)

end Readme

end NixRedox.Flake
