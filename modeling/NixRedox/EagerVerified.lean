import NixRedox.EagerFetch

set_option autoImplicit false

/- Whether the eager fetchers register nothing but verified trees. -/
namespace NixRedox.EagerFetch

open Cache (BinaryCache NarInfo fetchNarinfo fromNarinfo)
open Nar (Fs NarNode execAll extractNode tree_root)
open Stored (ArchiveReader)

variable {hash : StorePathHash}

/-- A recorded hash, with or without its algorithm. -/
def NamesHash (narHash : String) (hex : List Char) : Prop :=
  narHash.toList = hex ∨ narHash.toList = "sha256:".toList ++ hex

/-- The tree is the whole of an archive with this hash. -/
def Verified (reader : ArchiveReader) (narHash : String) (tree : Fs) : Prop :=
  ∃ bytes node, reader.decode bytes = some node ∧ node.complete = true ∧
    NamesHash narHash (reader.sha256Hex bytes) ∧ tree = node.tree

/-- A transfer after which nothing unverified or unregistered is at its destination. -/
structure Clean (reader : ArchiveReader) (hash : StorePathHash) (cache : BinaryCache)
    (transfer : Transfer) (path : String) : Prop where
  /-- A store path that is a symlink leads to something. -/
  leads : transfer.resolves = true
  /-- An extraction that does not come to its end has not begun to write. -/
  whole : ∀ bytes node, transfer.opened = .ok bytes → reader.decode bytes = some node →
    transfer.stops ≠ none ∨ node.complete = false → effects transfer node = []
  /-- An archive with the wrong hash is not a single file, and can be removed. -/
  removed : ∀ digest narinfo bytes node, hash path = .ok digest →
    fetchNarinfo cache transfer.narinfoAgain digest = .ok narinfo →
    transfer.opened = .ok bytes → reader.decode bytes = some node →
    reader.sha256Hex bytes ≠ narinfo.narHash.toList →
    (∀ executable chunks complete, node ≠ .file executable chunks complete) ∧
      ∀ path, transfer.keeps path = false
  /-- Nothing keeps an archive with the right hash from being registered. -/
  registers : ∀ digest narinfo bytes, hash path = .ok digest →
    fetchNarinfo cache transfer.narinfoAgain digest = .ok narinfo →
    transfer.opened = .ok bytes → reader.sha256Hex bytes = narinfo.narHash.toList →
    transfer.dbFault = none ∧ transfer.registration = none

/-- Records are of verified trees, and what is in the store has a record. -/
structure Sound (reader : ArchiveReader) (disk : Disk hash) : Prop where
  verified : ∀ stem info, disk.db.files.lookup stem = some (.info info) →
    Verified reader info.narHash (disk.tree info.storePath)
  present : ∀ path, disk.tree path = Fs.empty ∨
    ((disk.tree path []).isSome = true ∧ disk.db.Recorded path)

theorem sound_emptyDisk (reader : ArchiveReader) (pathinfoDir : String) :
    Sound reader (emptyDisk hash pathinfoDir) where
  verified := by
    intro stem info stored
    cases stored
  present := fun _ => .inl rfl

section Steps

variable {reader : ArchiveReader} {cache : BinaryCache} {transfer : Transfer}
  {disk after : Disk hash} {path : String}

/-- With links that lead somewhere, nothing is where nothing exists. -/
theorem Sound.absent (sound : Sound reader disk) (leads : transfer.resolves = true)
    (missing : disk.pathExists transfer path = false) : disk.tree path = Fs.empty := by
  rcases sound.present path with empty | ⟨there, -⟩
  · exact empty
  · unfold Disk.pathExists at missing
    split at missing
    · rename_i nothing
      rw [nothing] at there
      cases there
    · rw [leads] at missing
      cases missing
    · cases missing

theorem Sound.recorded (sound : Sound reader disk)
    (there : disk.pathExists transfer path = true) : disk.db.Recorded path := by
  rcases sound.present path with empty | ⟨-, recorded⟩
  · unfold Disk.pathExists at there
    rw [empty] at there
    cases there
  · exact recorded

/-- Nothing is recorded of a path at which nothing is. -/
theorem Sound.unnamed (sound : Sound reader disk) (empty : disk.tree path = Fs.empty)
    {stem : String} {info : PathInfo} (stored : disk.db.files.lookup stem = some (.info info)) :
    info.storePath ≠ path := by
  rintro rfl
  obtain ⟨bytes, node, -, complete, -, same⟩ := sound.verified stem info stored
  have root := tree_root complete
  rw [← same, empty] at root
  cases root

theorem put_empty (empty : disk.tree path = Fs.empty) : disk.put path Fs.empty = disk := by
  unfold Disk.put
  rw [← empty, Function.update_eq_self]

/-- The tree of a whole archive, over a record of its hash. -/
theorem Sound.registered (sound : Sound reader disk) (empty : disk.tree path = Fs.empty)
    {bytes : List UInt8} {node : NarNode} (decoded : reader.decode bytes = some node)
    (complete : node.complete = true) {info : PathInfo} (named : info.storePath = path)
    (hashed : NamesHash info.narHash (reader.sha256Hex bytes)) {stem : String}
    (own : hash info.storePath = .ok stem) :
    Sound reader { disk.put path node.tree with db := disk.db.writeFile stem info own } where
  verified := by
    intro other found stored
    by_cases same : other = stem
    · subst same
      have latest := (AList.lookup_insert _).symm.trans stored
      cases latest
      refine ⟨bytes, node, decoded, complete, hashed, ?_⟩
      rw [named]
      exact Function.update_self ..
    · have older : disk.db.files.lookup other = some (.info found) :=
        (AList.lookup_insert_ne same).symm.trans stored
      have apart := sound.unnamed empty older
      have kept := sound.verified other found older
      show Verified reader found.narHash (Function.update disk.tree path node.tree found.storePath)
      rw [Function.update_of_ne apart]
      exact kept
  present := by
    intro other
    by_cases same : other = path
    · subst same
      right
      refine ⟨?_, ?_⟩
      · show ((Function.update disk.tree other node.tree other) []).isSome = true
        rw [Function.update_self]
        exact tree_root complete
      · rw [← named]
        exact PathInfoDb.writeFile_self_recorded own
    · show Function.update disk.tree path node.tree other = Fs.empty ∨
        ((Function.update disk.tree path node.tree other) []).isSome = true ∧ _
      rw [Function.update_of_ne same]
      rcases sound.present other with nothing | ⟨there, recorded⟩
      · exact .inl nothing
      · exact .inr ⟨there, PathInfoDb.writeFile_recorded own recorded⟩

/-- A clean extraction to a place where nothing is: it leaves nothing, or the tree of a
whole archive. -/
theorem extract_clean (clean : Clean reader hash cache transfer path)
    (empty : disk.tree path = Fs.empty) {result : Except String (List UInt8)}
    (extracted : extract reader transfer disk path = (after, result)) :
    (after = disk ∧ ∃ reason, result = .error reason) ∨
    ∃ bytes node, transfer.opened = .ok bytes ∧ reader.decode bytes = some node ∧
      node.complete = true ∧ after = disk.put path node.tree ∧ result = .ok bytes := by
  unfold extract at extracted
  split at extracted
  · cases extracted
    exact .inl ⟨rfl, _, rfl⟩
  · rename_i bytes opened
    split at extracted
    · cases extracted
      exact .inl ⟨rfl, _, rfl⟩
    · rename_i node decoded
      rw [empty] at extracted
      rw [if_neg (by simp [Fs.empty])] at extracted
      cases stops : transfer.stops with
      | some stop =>
          left
          have nothing := clean.whole bytes node opened decoded (.inl (by simp [stops]))
          rw [nothing] at extracted
          cases extracted
          refine ⟨put_empty empty, stop.2, ?_⟩
          rw [ending, stops]
      | none =>
          by_cases complete : node.complete = true
          · right
            refine ⟨bytes, node, opened, decoded, complete, ?_⟩
            have built := (Nar.extract_builds_tree .stdFs node
              (reader.wellFormed bytes node decoded)).2 complete
            rw [effects, stops] at extracted
            dsimp only at extracted
            rw [built] at extracted
            cases extracted
            refine ⟨rfl, ?_⟩
            rw [ending, stops]
            dsimp only
            rw [if_pos complete]
          · left
            have nothing := clean.whole bytes node opened decoded (.inr (by simpa using complete))
            rw [nothing] at extracted
            cases extracted
            refine ⟨put_empty empty, "unexpected end of file", ?_⟩
            rw [ending, stops]
            dsimp only
            rw [if_neg complete]

theorem removeDirAll_tree {node : NarNode} (complete : node.complete = true)
    (plain : ∀ executable chunks complete, node ≠ .file executable chunks complete)
    (keeps : ∀ path, transfer.keeps path = false) :
    removeDirAll transfer node.tree = Fs.empty := by
  have gone : (fun path => if transfer.keeps path then node.tree path else none) = Fs.empty := by
    funext path
    simp [keeps, Fs.empty]
  unfold removeDirAll
  cases node with
  | file executable chunks whole => exact absurd rfl (plain executable chunks whole)
  | directory entries => exact gone
  | symlink target =>
      cases target with
      | none => cases complete
      | some text => exact gone

/-- A clean fetch keeps the store sound, and registers what it does not refuse. -/
theorem fetchInto_sound {record : NarInfo → String → PathInfo}
    (named : ∀ narinfo path, (record narinfo path).storePath = path)
    (hashes : ∀ narinfo path, NamesHash (record narinfo path).narHash narinfo.narHash.toList)
    (clean : Clean reader hash cache transfer path) (sound : Sound reader disk)
    {result : Except String Unit}
    (fetched : fetchInto reader cache record transfer disk path = (after, result)) :
    Sound reader after ∧ (result = .ok () → after.db.Recorded path) := by
  unfold fetchInto at fetched
  split at fetched
  · cases fetched
    exact ⟨sound, nofun⟩
  · rename_i digest hashed
    split at fetched
    · rename_i there
      cases fetched
      exact ⟨sound, fun _ => sound.recorded there⟩
    · rename_i missing
      have empty := sound.absent clean.leads (by simpa using missing)
      split at fetched
      · cases fetched
        exact ⟨sound, nofun⟩
      · split at fetched
        · cases fetched
          exact ⟨sound, nofun⟩
        · rename_i narinfo offered
          split at fetched
          · rename_i middle reason extracted
            cases fetched
            rcases extract_clean clean empty extracted with ⟨rfl, -⟩ | ⟨_, _, -, -, -, -, ok⟩
            · exact ⟨sound, nofun⟩
            · cases ok
          · rename_i middle bytes extracted
            rcases extract_clean clean empty extracted with
              ⟨-, _, failed⟩ | ⟨pulled, node, opened, decoded, complete, rfl, same⟩
            · cases failed
            · cases same
              split at fetched
              · rename_i differs
                obtain ⟨plain, keeps⟩ :=
                  clean.removed digest narinfo bytes node hashed offered opened decoded differs
                have at_ : (disk.put path node.tree).tree path = node.tree :=
                  Function.update_self ..
                rw [at_, removeDirAll_tree complete plain keeps] at fetched
                have back : (disk.put path node.tree).put path Fs.empty = disk := by
                  rw [← put_empty empty]
                  simp [Disk.put]
                rw [back] at fetched
                cases fetched
                exact ⟨sound, nofun⟩
              · rename_i equal
                have matching := not_not.mp equal
                obtain ⟨opens, faultless⟩ :=
                  clean.registers digest narinfo bytes hashed offered opened matching
                rw [opens, faultless] at fetched
                dsimp only at fetched
                have own : hash (record narinfo path).storePath = .ok digest := by
                  rw [named]
                  exact hashed
                have written : (disk.put path node.tree).register (record narinfo path) none =
                    ({ disk.put path node.tree with
                        db := disk.db.writeFile digest (record narinfo path) own }, .ok ()) := by
                  rw [Disk.register, show (disk.put path node.tree).db = disk.db from rfl,
                    PathInfoDb.register_valid disk.db own]
                rw [written] at fetched
                cases fetched
                have names : NamesHash (record narinfo path).narHash (reader.sha256Hex bytes) := by
                  rw [matching]
                  exact hashes narinfo path
                have next := sound.registered empty decoded complete (named narinfo path) names own
                refine ⟨next, fun _ => ?_⟩
                have recorded := @PathInfoDb.writeFile_self_recorded _ disk.db _ _ own
                rw [named] at recorded
                exact recorded

end Steps

section Runs

variable {reader : ArchiveReader} {cache : BinaryCache} {disk after : Disk hash}

theorem plainRecord_hash (narinfo : NarInfo) (path : String) :
    NamesHash (plainRecord narinfo path).narHash narinfo.narHash.toList :=
  .inl rfl

theorem fromNarinfo_hash (narinfo : NarInfo) (path : String) :
    NamesHash (fromNarinfo narinfo path).narHash narinfo.narHash.toList :=
  .inr String.toList_append

theorem fetchInner_sound {transfer : Transfer} {path : String}
    (clean : Clean reader hash cache transfer path) (sound : Sound reader disk)
    {result : Except String Unit}
    (fetched : fetchInner reader cache transfer disk path = (after, result)) :
    Sound reader after := by
  have opened : Clean reader hash cache { transfer with dbFault := none } path :=
    { leads := clean.leads
      whole := clean.whole
      removed := clean.removed
      registers := fun digest narinfo bytes hashed offered pulled same =>
        ⟨rfl, (clean.registers digest narinfo bytes hashed offered pulled same).2⟩ }
  exact (fetchInto_sound (fun _ _ => rfl) fromNarinfo_hash opened sound fetched).1

/-- A visit finds nothing on disk without a record, so it registers nothing unseen. -/
theorem visitPath_sound {wrap : String → String → String}
    {record : NarInfo → String → PathInfo}
    {fetch : Transfer → Disk hash → String → Disk hash × Except String Unit}
    {transfers : String → Transfer}
    (fetches : ∀ disk path after result, Sound reader disk →
      fetch (transfers path) disk path = (after, result) → Sound reader after)
    {path : String} (sound : Sound reader disk) {result : Except String (List String)}
    (visited : visitPath cache wrap record fetch transfers disk path = (after, result)) :
    Sound reader after := by
  unfold visitPath at visited
  dsimp only at visited
  split at visited
  · split at visited
    · cases visited
      exact sound
    · cases visited
      exact sound
    · cases visited
      exact sound
  · rename_i pending
    split at visited
    · cases visited
      exact sound
    · split at visited
      · cases visited
        exact sound
      · split at visited
        · cases visited
          exact fetches disk path _ _ sound rfl
        · rename_i there
          have present := (Bool.not_eq_false _).mp there
          have registered := (sound.recorded present).isRegistered
          exact absurd ⟨present, registered⟩ pending

/-- A clean call keeps the store sound. -/
theorem Call.run_sound {call : Call}
    (clean : ∀ path, Clean reader hash call.cache (call.transfers path) path)
    (sound : Sound reader disk) : Sound reader (call.run reader disk).1 := by
  unfold Call.run
  split
  · unfold fetchRecursive
    split
    · exact sound
    · refine GraphSearch.walk_keeps ?_ _ sound (Option.some_get _).symm
      intro state node next result good step
      refine visitPath_sound ?_ good step
      intro disk path after result before fetched
      exact fetchInner_sound (clean path) before fetched
  · exact (fetchInto_sound (fun _ _ => rfl) plainRecord_hash (clean call.path) sound rfl).1
  · exact (fetchInto_sound (fun _ _ => rfl) plainRecord_hash (clean call.path) sound rfl).1
  · unfold installRecursive
    split
    · exact sound
    · refine GraphSearch.walk_keeps ?_ _ sound (Option.some_get _).symm
      intro state node next result good step
      refine visitPath_sound ?_ good step
      intro disk path after result before fetched
      exact (fetchInto_sound (fun _ _ => rfl) plainRecord_hash (clean path) before fetched).1

theorem Call.run_registers {call : Call}
    (clean : ∀ path, Clean reader hash call.cache (call.transfers path) path)
    (sound : Sound reader disk)
    (single : call.fetcher = .fetchLocal ∨ call.fetcher = .fetchAndExtract)
    (success : (call.run reader disk).2 = .ok ()) :
    (call.run reader disk).1.db.Recorded call.path := by
  unfold Call.run at success ⊢
  rcases single with own | own
  · rw [own] at success ⊢
    exact (fetchInto_sound (fun _ _ => rfl) plainRecord_hash (clean call.path) sound rfl).2 success
  · rw [own] at success ⊢
    exact (fetchInto_sound (fun _ _ => rfl) plainRecord_hash (clean call.path) sound rfl).2 success

theorem afterCalls_sound {calls : List Call}
    (clean : ∀ call ∈ calls, ∀ path, Clean reader hash call.cache (call.transfers path) path)
    (sound : Sound reader disk) : Sound reader (afterCalls reader disk calls) := by
  induction calls generalizing disk with
  | nil => exact sound
  | cons call rest ih =>
      exact ih (fun other member => clean other (List.mem_cons_of_mem _ member))
        (Call.run_sound (clean call List.mem_cons_self) sound)

/-- After clean calls on an empty store, a registered path holds the whole tree of an
archive with the recorded hash, and a path that was fetched is registered. -/
theorem fetches_register_verified (pathinfoDir : String) (calls : List Call)
    (clean : ∀ call ∈ calls, ∀ path, Clean reader hash call.cache (call.transfers path) path) :
    (∀ path info, (afterCalls reader (emptyDisk hash pathinfoDir) calls).db.get path =
        .ok (some info) → info.storePath = path →
      Verified reader info.narHash
        ((afterCalls reader (emptyDisk hash pathinfoDir) calls).tree path)) ∧
    ∀ earlier call later, calls = earlier ++ call :: later →
      call.fetcher = .fetchLocal ∨ call.fetcher = .fetchAndExtract →
      (call.run reader (afterCalls reader (emptyDisk hash pathinfoDir) earlier)).2 = .ok () →
      (call.run reader (afterCalls reader (emptyDisk hash pathinfoDir)
        earlier)).1.db.Recorded call.path := by
  constructor
  · intro path info found named
    obtain ⟨stem, -, stored⟩ := PathInfoDb.get_eq_some.mp found
    rw [← named]
    exact (afterCalls_sound clean (sound_emptyDisk reader pathinfoDir)).verified stem info stored
  · intro earlier call later split single success
    subst split
    have before := afterCalls_sound (fun other member => clean other
      (List.mem_append_left _ member)) (@sound_emptyDisk hash reader pathinfoDir)
    exact Call.run_registers (clean call (by simp)) before single success

end Runs

section Greeting

open Nar (asciiBytes fileNar)

def greeting : List UInt8 := asciiBytes "hello".toList

def greetingHash : String := "0a430879c266f8b57f4092a0f935cf3facd48bbccde5760d4748ca405171e969"

/-- A reader for the archive of one file, whole or cut off inside the contents. -/
def greetingReader : ArchiveReader where
  decode := fun bytes =>
    if bytes = fileNar greeting then some (.file false [greeting] true)
    else if bytes = (fileNar greeting).take 98 then some (.file false [greeting.take 2] false)
    else none
  wellFormed := by
    intro bytes node decoded
    split at decoded
    · cases decoded
      trivial
    · split at decoded
      · cases decoded
        trivial
      · cases decoded
  sha256Hex := fun bytes => if bytes = fileNar greeting then greetingHash.toList else []

def greetingPath : String := "/nix/store/1b9jydsiygi6jhlz2dxbrxi6b4m1rn4r-greeting"

def greetingCache : BinaryCache :=
  AList.singleton "1b9jydsiygi6jhlz2dxbrxi6b4m1rn4r" ⟨greetingHash, 120, [], none, []⟩

/-- A transfer that delivers these bytes. -/
def delivers (bytes : List UInt8) : Transfer where
  resolves := true
  narinfo := none
  storeDir := none
  narinfoAgain := none
  opened := .ok bytes
  stops := none
  through := id
  keeps := fun _ => false
  dbFault := none
  registration := none

def greetingCall (fetcher : Fetcher) (bytes : List UInt8) : Call where
  fetcher := fetcher
  cache := greetingCache
  dbFault := none
  transfers := fun _ => delivers bytes
  path := greetingPath

theorem delivers_clean (path : String) :
    Clean greetingReader literalHash greetingCache (delivers (fileNar greeting)) path where
  leads := rfl
  whole := by
    intro bytes node opened decoded broken
    cases opened
    cases decoded
    rcases broken with stops | incomplete
    · exact absurd rfl stops
    · cases incomplete
  removed := by
    intro digest narinfo bytes node hashed offered opened decoded differs
    cases opened
    have found := Cache.fetchNarinfo_ok offered
    have same : narinfo.narHash = greetingHash := by
      have entry := AList.mem_lookup_iff.mp found
      obtain ⟨-, only⟩ := Sigma.mk.inj (List.mem_singleton.mp entry)
      rw [eq_of_heq only]
    rw [same] at differs
    exact absurd rfl differs
  registers := fun _ _ _ _ _ _ _ => ⟨rfl, rfl⟩

theorem fetches_register_verified_greeting :
    Verified greetingReader greetingHash
      ((afterCalls greetingReader (emptyDisk literalHash "/nix/var/snix/pathinfo")
        [greetingCall .fetchAndExtract (fileNar greeting)]).tree greetingPath) := by
  have clean : ∀ call ∈ [greetingCall .fetchAndExtract (fileNar greeting)],
      ∀ path, Clean greetingReader literalHash call.cache (call.transfers path) path := by
    intro call member path
    rw [List.mem_singleton.mp member]
    exact delivers_clean path
  have found : (afterCalls greetingReader (emptyDisk literalHash "/nix/var/snix/pathinfo")
      [greetingCall .fetchAndExtract (fileNar greeting)]).db.get greetingPath =
      .ok (some ⟨greetingPath, greetingHash, 120, [], none, []⟩) := by
    rfl
  exact (fetches_register_verified "/nix/var/snix/pathinfo" _ clean).1 greetingPath _ found rfl

/-- A download is cut off and leaves half a file. The next call finds it on disk and
registers it. -/
theorem half_file_registered :
    ¬ ∀ (reader : ArchiveReader) (pathinfoDir : String) (calls : List Call),
      (∀ path info, (afterCalls reader (emptyDisk literalHash pathinfoDir) calls).db.get path =
          .ok (some info) → info.storePath = path →
        Verified reader info.narHash
          ((afterCalls reader (emptyDisk literalHash pathinfoDir) calls).tree path)) ∧
      ∀ earlier call later, calls = earlier ++ call :: later →
        call.fetcher = .fetchLocal ∨ call.fetcher = .fetchAndExtract →
        (call.run reader (afterCalls reader (emptyDisk literalHash pathinfoDir) earlier)).2 =
          .ok () →
        (call.run reader (afterCalls reader (emptyDisk literalHash pathinfoDir)
          earlier)).1.db.Recorded call.path := by
  intro always
  have found : (afterCalls greetingReader (emptyDisk literalHash "/nix/var/snix/pathinfo")
      [greetingCall .fetchRecursive ((fileNar greeting).take 98),
        greetingCall .fetchRecursive (fileNar greeting)]).db.get greetingPath =
      .ok (some ⟨greetingPath, "sha256:" ++ greetingHash, 120, [], none, []⟩) := by
    rfl
  have half : (afterCalls greetingReader (emptyDisk literalHash "/nix/var/snix/pathinfo")
      [greetingCall .fetchRecursive ((fileNar greeting).take 98),
        greetingCall .fetchRecursive (fileNar greeting)]).tree greetingPath [] =
      some (.file (greeting.take 2) 0o644) := by
    rfl
  obtain ⟨bytes, node, decoded, complete, -, whole⟩ :=
    (always greetingReader "/nix/var/snix/pathinfo" _).1 greetingPath _ found rfl
  rw [whole] at half
  unfold greetingReader at decoded
  dsimp only at decoded
  split at decoded
  · cases decoded
    exact absurd half (by decide)
  · split at decoded
    · cases decoded
      cases complete
    · cases decoded

end Greeting

end NixRedox.EagerFetch
