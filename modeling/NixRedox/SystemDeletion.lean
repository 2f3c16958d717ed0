import NixRedox.SortedLists
import NixRedox.SystemAgreement
import NixRedox.SystemGcRoots

set_option autoImplicit false

/- What `delete_generations_with` removes, and what it says that it removed. -/
namespace NixRedox.System

/-- The numbers of the directories with a readable manifest. -/
def storedIds (dir : GenerationsDir) : List UInt32 := (scanGenerations dir).map (·.id)

/-- The different stored numbers above an id. -/
def higherIds (dir : GenerationsDir) (id : UInt32) : List UInt32 :=
  ((storedIds dir).filter (id < ·)).dedup

/-- The directory holds the generation of that id and the selector asks for it. Ids that
are typed in select by number, all other selectors among the readable manifests. -/
def Selected (env : Env) (dir : GenerationsDir) : GenerationSelector → String → UInt32 → Prop
  | .ids ids, name, id => id ∈ ids ∧ ∃ file, Numbered dir name file id
  | .keepLast count, name, id =>
      (∃ manifest, Numbered dir name (.readable manifest) id) ∧
        count.toNat ≤ (higherIds dir id).length
  | .olderThanDays days, name, id =>
      ∃ manifest, Numbered dir name (.readable manifest) id ∧
        env.epoch manifest.generation.timestamp < env.now - days.toNat * 86400
  | .old, name, id => ∃ manifest, Numbered dir name (.readable manifest) id

/-- Exactly one directory for each selected id. A typed id is there and typed once. With
`+N` no two directories share a number so that the cut lies between them. -/
def Unambiguous (env : Env) (dir : GenerationsDir) (guarded : List UInt32) :
    GenerationSelector → Prop
  | .ids ids =>
      (ids.filter (· ∉ guarded)).Nodup ∧
        ∀ id ∈ ids, id ∉ guarded → ∃ name file, Numbered dir name file id
  | .keepLast count =>
      (∀ id ∈ storedIds dir, id ∉ guarded → count.toNat < (storedIds dir).countP (id ≤ ·) →
        count.toNat ≤ (higherIds dir id).length) ∧
      ∀ name other id, id ∉ guarded → Selected env dir (.keepLast count) name id →
        Selected env dir (.keepLast count) other id → name = other
  | selector =>
      ∀ name other id, id ∉ guarded → Selected env dir selector name id →
        Selected env dir selector other id → name = other

/-- The list of ids is without repetition what the selector asks for. -/
def Lists (env : Env) (dir : GenerationsDir) (guarded : List UInt32)
    (selector : GenerationSelector) (ids : List UInt32) : Prop :=
  ids.Nodup ∧ ∀ id, id ∈ ids ↔ id ∉ guarded ∧ ∃ name, Selected env dir selector name id

/-- What a deletion may do to the generations and the GC roots, and has to report. -/
structure Upholds (env : Env) (state : State) (roots : GcRoots) (selector : String)
    (guarded : List UInt32) (choice : GenerationSelector) (dryRun : Bool)
    (after : State × GcRoots × DeleteGenerationsStats) : Prop where
  /-- Nothing of a protected generation is removed. -/
  spares : ∀ id ∈ guarded,
    (∀ name file, Numbered state.generations name file id →
      after.1.generations.lookup name = some file) ∧
    ∀ rest, after.2.1.links.lookup (rootName id rest) = roots.links.lookup (rootName id rest)
  keeps : ∀ count, choice = .keepLast count → ∀ name manifest id,
    Numbered state.generations name (.readable manifest) id →
    (higherIds state.generations id).length < count.toNat →
    after.1.generations.lookup name = some (.readable manifest)
  reports : Lists env state.generations guarded choice after.2.2.deletedIds
  removes : dryRun = false → ∀ name,
    (name ∈ state.generations ∧ name ∉ after.1.generations) ↔
      ∃ id, id ∉ guarded ∧ Selected env state.generations choice name id
  otherRoots : ∀ name, (∀ id ∈ after.2.2.deletedIds, ∀ rest, name ≠ rootName id rest) →
    after.2.1.links.lookup name = roots.links.lookup name
  rehearses : ∀ dry real, deleteGenerationsWith env roots selector true state = .ok dry →
    deleteGenerationsWith env roots selector false state = .ok real →
    dry.2.2.deletedIds = real.2.2.deletedIds ∧ dry.1 = state ∧ dry.2.1 = roots

section Roots

theorem rootName_toList (id : UInt32) (rest : String) :
    (rootName id rest).toList = ("gen-" ++ dirName id ++ "-").toList ++ rest.toList := by
  simp [rootName, dirName]

theorem tagged_iff {id : UInt32} {name : String} :
    ("gen-" ++ dirName id ++ "-").toList.isPrefixOf name.toList = true ↔
      ∃ rest, name = rootName id rest := by
  rw [List.isPrefixOf_iff_prefix]
  constructor
  · intro ⟨rest, split⟩
    refine ⟨String.ofList rest, String.toList_inj.mp ?_⟩
    rw [rootName_toList, String.toList_ofList, split]
  · intro ⟨rest, named⟩
    rw [named, rootName_toList]
    exact List.prefix_append _ _

/-- `gen-1-` is no prefix of `gen-11-`. -/
theorem rootName_id {a b : UInt32} {left right : String}
    (same : rootName a left = rootName b right) : a = b := by
  have digits : ∀ (id : UInt32) (rest : String),
      ((rootName id rest).toList.drop 4).takeWhile Char.isDigit = (dirName id).toList := by
    intro id rest
    have split : (rootName id rest).toList.drop 4 = (dirName id).toList ++ '-' :: rest.toList := by
      simp [rootName_toList]
    have numeric : ∀ digit ∈ (dirName id).toList, digit.isDigit = true := by
      intro digit member
      rw [toList_dirName] at member
      exact Nat.isDigit_of_mem_toDigits (by omega) (by omega) member
    rw [split, List.takeWhile_append_of_pos numeric]
    simp [List.takeWhile]
  apply dirName_injective
  apply String.toList_inj.mp
  rw [← digits a left, ← digits b right, same]

theorem removeGenerationGcRoots_lookup {roots : GcRoots} {id : UInt32} {name : String}
    (untagged : ∀ rest, name ≠ rootName id rest) :
    (removeGenerationGcRoots roots id).1.links.lookup name = roots.links.lookup name := by
  have each : ∀ (tagged : List GcRoot) (start : GcRoots),
      (∀ root ∈ tagged, root.name ≠ name) →
      (tagged.foldl (fun roots root => ((roots.removeRoot root.name).toOption).getD roots)
        start).links.lookup name = start.links.lookup name := by
    intro tagged
    induction tagged with
    | nil => intros; rfl
    | cons root rest ih =>
        intro start apart
        rw [List.foldl_cons, ih _ fun other member => apart other (List.mem_cons_of_mem root member)]
        unfold GcRoots.removeRoot
        split
        · exact AList.lookup_erase_ne (apart root List.mem_cons_self).symm
        · rfl
  apply each
  intro root member same
  obtain ⟨rest, named⟩ := tagged_iff.mp (List.mem_filter.mp member).2
  exact untagged rest (same ▸ named)

end Roots

section Each

variable {ids : List UInt32} {dir : GenerationsDir} {roots : GcRoots}
  {stats : DeleteGenerationsStats}

theorem deleteEach_deletedIds (dryRun : Bool) :
    (deleteEach dryRun ids dir roots stats).2.2.deletedIds = stats.deletedIds ++ ids := by
  induction ids generalizing dir roots stats with
  | nil => simp [deleteEach]
  | cons id ids ih =>
      unfold deleteEach at ih ⊢
      rw [List.foldl_cons]
      cases dryRun with
      | true => exact ih.trans (List.append_cons _ _ _).symm
      | false => exact ih.trans (List.append_cons _ _ _).symm

theorem deleteEach_dryRun :
    (deleteEach true ids dir roots stats).1 = dir ∧
      (deleteEach true ids dir roots stats).2.1 = roots := by
  induction ids generalizing dir roots stats with
  | nil => exact ⟨rfl, rfl⟩
  | cons id ids ih =>
      unfold deleteEach at ih ⊢
      rw [List.foldl_cons]
      exact ih

theorem deleteEach_removed {id : UInt32} (member : id ∈ ids) :
    dirName id ∉ (deleteEach false ids dir roots stats).1 := by
  induction ids generalizing dir roots stats with
  | nil => cases member
  | cons first ids ih =>
      by_cases later : id ∈ ids
      · unfold deleteEach at ih ⊢
        rw [List.foldl_cons]
        exact ih later
      · have same : id = first := by
          cases member with
          | head => rfl
          | tail _ inside => exact absurd inside later
        have kept : ∀ other ∈ ids, dirName id ≠ dirName other := by
          intro other inside named
          rw [dirName_injective named] at later
          exact later inside
        have frame := fun dir roots stats =>
          @deleteEach_lookup false ids dir roots stats (dirName id) kept
        unfold deleteEach at frame ⊢
        rw [List.foldl_cons, ← AList.lookup_eq_none, frame, same]
        exact AList.lookup_erase _ _

theorem deleteEach_roots {dryRun : Bool} {name : String}
    (untagged : ∀ id ∈ ids, ∀ rest, name ≠ rootName id rest) :
    (deleteEach dryRun ids dir roots stats).2.1.links.lookup name = roots.links.lookup name := by
  induction ids generalizing dir roots stats with
  | nil => rfl
  | cons id ids ih =>
      have tail : ∀ other ∈ ids, ∀ rest, name ≠ rootName other rest := fun other member =>
        untagged other (List.mem_cons_of_mem id member)
      have head := @removeGenerationGcRoots_lookup roots id name (untagged id List.mem_cons_self)
      unfold deleteEach at ih ⊢
      rw [List.foldl_cons]
      cases dryRun with
      | true => exact ih tail
      | false => exact (ih tail).trans head

end Each

section Selection

variable {env : Env} {dir : GenerationsDir} {guarded : List UInt32}

theorem mem_picked {keep : Generation → Bool} {id : UInt32} :
    id ∈ ((scanGenerations dir).filter keep).map (·.id) ↔
      ∃ name manifest, Numbered dir name (.readable manifest) id ∧ keep ⟨id, manifest⟩ = true := by
  rw [List.mem_map]
  constructor
  · intro ⟨generation, member, same⟩
    subst same
    obtain ⟨scanned, kept⟩ := List.mem_filter.mp member
    obtain ⟨name, found, parsed⟩ := mem_scanGenerations.mp scanned
    exact ⟨name, generation.manifest, ⟨found, parsed⟩, kept⟩
  · intro ⟨name, manifest, ⟨found, parsed⟩, kept⟩
    exact ⟨⟨id, manifest⟩,
      List.mem_filter.mpr ⟨mem_scanGenerations.mpr ⟨name, found, parsed⟩, kept⟩, rfl⟩

theorem count_picked_le_one_iff {keep : Generation → Bool} {id : UInt32} :
    (((scanGenerations dir).filter keep).map (·.id)).count id ≤ 1 ↔
      ∀ name other, (∃ manifest, Numbered dir name (.readable manifest) id ∧
          keep ⟨id, manifest⟩ = true) →
        (∃ manifest, Numbered dir other (.readable manifest) id ∧ keep ⟨id, manifest⟩ = true) →
        name = other := by
  let number : (Σ _ : String, ManifestFile) → Option UInt32 := fun entry =>
    ((generationOfEntry entry.1 entry.2).filter keep).map (·.id)
  have numbered : ∀ entry, number entry = some id ↔ ∃ manifest,
      entry.2 = .readable manifest ∧ parseU32 entry.1.toList = some id ∧
        keep ⟨id, manifest⟩ = true := by
    rintro ⟨name, file⟩
    cases file with
    | missing => simp [number, generationOfEntry]
    | unreadable reason => simp [number, generationOfEntry]
    | readable manifest =>
        cases parsed : parseU32 name.toList with
        | none => simp [number, generationOfEntry, parsed]
        | some other =>
            simp only [number, generationOfEntry, parsed, Option.map_some, Option.filter_some]
            grind
  have sorted : (((scanGenerations dir).filter keep).map (·.id)).count id =
      (dir.entries.filterMap number).count id := by
    have same : dir.entries.filterMap number = ((dir.entries.filterMap fun entry =>
        generationOfEntry entry.1 entry.2).filter keep).map (·.id) := by
      rw [List.filter_filterMap, List.map_filterMap]
    rw [same, scanGenerations]
    exact (((List.perm_insertionSort _ _).filter keep).map _).count_eq id
  rw [sorted, count_filterMap_le_one_iff number dir.nodupKeys.nodup]
  constructor
  · rintro unique name other ⟨manifest, ⟨found, parsed⟩, kept⟩
      ⟨manifest', ⟨found', parsed'⟩, kept'⟩
    have same := unique ⟨name, .readable manifest⟩ (AList.mem_lookup_iff.mp found)
      ⟨other, .readable manifest'⟩ (AList.mem_lookup_iff.mp found')
      ((numbered _).mpr ⟨manifest, rfl, parsed, kept⟩)
      ((numbered _).mpr ⟨manifest', rfl, parsed', kept'⟩)
    cases same
    rfl
  · rintro unique ⟨name, file⟩ member ⟨other, file'⟩ member' picked picked'
    obtain ⟨manifest, rfl, parsed, kept⟩ := (numbered _).mp picked
    obtain ⟨manifest', rfl, parsed', kept'⟩ := (numbered _).mp picked'
    have same := unique name other ⟨manifest, ⟨AList.mem_lookup_iff.mpr member, parsed⟩, kept⟩
      ⟨manifest', ⟨AList.mem_lookup_iff.mpr member', parsed'⟩, kept'⟩
    subst same
    have found := AList.mem_lookup_iff.mpr member
    rw [Option.mem_def, AList.mem_lookup_iff.mpr member'] at found
    cases found
    rfl

theorem nodup_unguarded {ids : List UInt32} :
    (ids.filter (· ∉ guarded)).Nodup ↔ ∀ id, id ∉ guarded → ids.count id ≤ 1 := by
  rw [List.nodup_iff_count_le_one]
  constructor
  · intro single id free
    have kept := single id
    rwa [List.count_filter (by simpa using free)] at kept
  · intro single id
    by_cases free : id ∈ guarded
    · have absent : id ∉ ids.filter (· ∉ guarded) := by
        intro member
        exact absurd free (by simpa using (List.mem_filter.mp member).2)
      rw [List.count_eq_zero_of_not_mem absent]
      omega
    · rw [List.count_filter (by simpa using free)]
      exact single id free

/-- The generations that meet a test, each listed by its id. -/
theorem lists_picked_iff {keep : Generation → Bool} {selector : GenerationSelector}
    (picks : ∀ name id, Selected env dir selector name id ↔
      ∃ manifest, Numbered dir name (.readable manifest) id ∧ keep ⟨id, manifest⟩ = true) :
    Lists env dir guarded selector
        ((((scanGenerations dir).filter keep).map (·.id)).filter (· ∉ guarded)) ↔
      ∀ name other id, id ∉ guarded → Selected env dir selector name id →
        Selected env dir selector other id → name = other := by
  have members : ∀ id, id ∈ (((scanGenerations dir).filter keep).map (·.id)).filter
      (· ∉ guarded) ↔ id ∉ guarded ∧ ∃ name, Selected env dir selector name id := by
    intro id
    simp only [List.mem_filter, mem_picked, picks, decide_eq_true_eq]
    rw [and_comm]
  simp only [Lists, members, nodup_unguarded, count_picked_le_one_iff, implies_true, and_true,
    picks]
  constructor
  · intro unique name other id free
    exact unique id free name other
  · intro unique id free name other
    exact unique name other id free

theorem storedIds_eq : storedIds dir = ((scanGenerations dir).filter fun _ => true).map (·.id) := by
  rw [storedIds, List.filter_true]

theorem mem_storedIds {id : UInt32} :
    id ∈ storedIds dir ↔ ∃ name manifest, Numbered dir name (.readable manifest) id := by
  rw [storedIds_eq, mem_picked]
  simp

/-- Directories numbered above an id and those numbered like it. -/
theorem higherIds_add_count_le (id : UInt32) :
    (higherIds dir id).length + (storedIds dir).count id ≤ (storedIds dir).countP (id ≤ ·) := by
  have split : ∀ ids : List UInt32,
      ids.countP (id ≤ ·) = ids.countP (id < ·) + ids.count id := by
    intro ids
    induction ids with
    | nil => rfl
    | cons first ids ih =>
        simp only [List.countP_cons, List.count_cons, ih]
        grind
  have fewer : (higherIds dir id).length ≤ (storedIds dir).countP (id < ·) := by
    rw [higherIds, List.countP_eq_length_filter]
    exact (List.dedup_sublist _).length_le
  rw [split]
  omega

theorem lists_keepLast_iff {count : UInt32} :
    Lists env dir guarded (.keepLast count)
        (selectedIds env guarded (scanGenerations dir) (.keepLast count)) ↔
      Unambiguous env dir guarded (.keepLast count) := by
  let sorted := (storedIds dir).insertionSort (· ≤ ·)
  let front := sorted.take (sorted.length - count.toNat)
  have copies : ∀ id, front.count id =
      min ((storedIds dir).count id) ((storedIds dir).countP (id ≤ ·) - count.toNat) := by
    intro id
    have order : sorted.Pairwise (· ≤ ·) := List.pairwise_insertionSort _ _
    have same : sorted.Perm (storedIds dir) := List.perm_insertionSort _ _
    have total : (storedIds dir).length =
        (storedIds dir).countP (· < id) + (storedIds dir).countP (id ≤ ·) := by
      have complement : (storedIds dir).countP (id ≤ ·) =
          (storedIds dir).countP (fun other => ¬ (other < id : Bool)) := by
        congr 1
        funext other
        grind
      rw [complement]
      exact List.length_eq_countP_add_countP _
    rw [count_take_of_sorted order, same.count_eq, same.countP_eq, same.length_eq, total]
    congr 1
    omega
  have members : ∀ id, id ∈ front ↔
      id ∈ storedIds dir ∧ count.toNat < (storedIds dir).countP (id ≤ ·) := by
    intro id
    rw [← List.count_pos_iff, copies, ← List.count_pos_iff]
    omega
  have single : ∀ id, (storedIds dir).count id ≤ 1 ↔ ∀ name other,
      (∃ manifest, Numbered dir name (.readable manifest) id) →
      (∃ manifest, Numbered dir other (.readable manifest) id) → name = other := by
    intro id
    rw [storedIds_eq, count_picked_le_one_iff]
    simp
  show (front.filter (· ∉ guarded)).Nodup ∧ (∀ id, id ∈ front.filter (· ∉ guarded) ↔
    id ∉ guarded ∧ ∃ name, Selected env dir (.keepLast count) name id) ↔ _
  rw [nodup_unguarded]
  constructor
  · intro ⟨once, listed⟩
    have cut : ∀ id ∈ storedIds dir, id ∉ guarded →
        count.toNat < (storedIds dir).countP (id ≤ ·) →
        count.toNat ≤ (higherIds dir id).length := by
      intro id stored free below
      have taken : id ∈ front.filter (· ∉ guarded) :=
        List.mem_filter.mpr ⟨(members id).mpr ⟨stored, below⟩, by simpa using free⟩
      obtain ⟨_, name, selected⟩ := (listed id).mp taken
      exact selected.2
    refine ⟨cut, ?_⟩
    intro name other id free selected selected'
    have high := selected.2
    have bound := @higherIds_add_count_le dir id
    have few := once id free
    rw [copies] at few
    exact (single id).mp (by omega) name other selected.1 selected'.1
  · intro ⟨cut, unique⟩
    constructor
    · intro id free
      rw [copies]
      by_cases below : count.toNat < (storedIds dir).countP (id ≤ ·)
      · by_cases stored : id ∈ storedIds dir
        · have high := cut id stored free below
          have few : (storedIds dir).count id ≤ 1 := by
            rw [single]
            intro name other readable readable'
            exact unique name other id free ⟨readable, high⟩ ⟨readable', high⟩
          omega
        · rw [List.count_eq_zero_of_not_mem stored]
          omega
      · omega
    · intro id
      rw [List.mem_filter, members]
      constructor
      · intro ⟨⟨stored, below⟩, free⟩
        have unguarded : id ∉ guarded := by simpa using free
        obtain ⟨name, readable⟩ := mem_storedIds.mp stored
        exact ⟨unguarded, name, readable, cut id stored unguarded below⟩
      · intro ⟨free, name, readable, high⟩
        have stored : id ∈ storedIds dir := mem_storedIds.mpr ⟨name, readable⟩
        have bound := @higherIds_add_count_le dir id
        have positive := List.count_pos_iff.mpr stored
        exact ⟨⟨stored, by omega⟩, by simpa using free⟩

theorem lists_selectedIds_iff (selector : GenerationSelector) :
    Lists env dir guarded selector (selectedIds env guarded (scanGenerations dir) selector) ↔
      Unambiguous env dir guarded selector := by
  cases selector with
  | ids ids =>
      have members : ∀ id, id ∈ ids.filter (· ∉ guarded) ↔ id ∈ ids ∧ id ∉ guarded := by
        intro id
        simp
      simp only [Lists, selectedIds, Unambiguous, Selected, members]
      grind
  | keepLast count => exact lists_keepLast_iff
  | olderThanDays days =>
      have picked := @lists_picked_iff env dir guarded
        (fun generation => env.epoch generation.manifest.generation.timestamp <
          env.now - days.toNat * 86400) (.olderThanDays days) (by simp [Selected])
      rw [Unambiguous, ← picked, selectedIds, List.filter_map, List.filter_filter]
      · simp
      · nofun
      · nofun
  | old =>
      have picked := @lists_picked_iff env dir guarded (fun _ => true) .old (by simp [Selected])
      rw [List.filter_true] at picked
      exact picked

end Selection

section Deletion

variable {env : Env} {state : State} {roots : GcRoots} {selector : String} {current : Manifest}
  {bootDefault : Option UInt32} {choice : GenerationSelector}

/-- Once the files and the selector are read, a deletion is the loop over the ids. -/
theorem deleteGenerationsWith_eq
    (loaded : loadManifestFrom manifestPath state.manifest = .ok current)
    (read : readBootDefault "/etc/redox-system/boot-default" state.bootDefault = .ok bootDefault)
    (parsed : parseGenerationSelector selector = .ok choice) :
    ∃ refused, ∀ dryRun, deleteGenerationsWith env roots selector dryRun state =
      let deleted := deleteEach dryRun (selectedIds env (protectedIds current bootDefault)
        (scanGenerations state.generations) choice) state.generations roots ⟨0, 0, [], refused⟩
      .ok ({ state with generations := deleted.1 }, deleted.2) := by
  cases choice with
  | ids ids =>
      refine ⟨ids.filter (· ∈ protectedIds current bootDefault), ?_⟩
      intro dryRun
      simp only [deleteGenerationsWith, loaded, read, parsed]
  | _ =>
      refine ⟨[], ?_⟩
      intro dryRun
      simp only [deleteGenerationsWith, loaded, read, parsed]

/-- A deletion that succeeds has read the current manifest, the boot default and the
selector. -/
theorem deleteGenerationsWith_reads {dryRun : Bool}
    {after : State × GcRoots × DeleteGenerationsStats}
    (deleted : deleteGenerationsWith env roots selector dryRun state = .ok after) :
    ∃ current bootDefault choice, loadManifestFrom manifestPath state.manifest = .ok current ∧
      readBootDefault "/etc/redox-system/boot-default" state.bootDefault = .ok bootDefault ∧
      parseGenerationSelector selector = .ok choice := by
  unfold deleteGenerationsWith at deleted
  split at deleted
  · cases deleted
  · rename_i current loaded
    split at deleted
    · cases deleted
    · rename_i bootDefault read
      split at deleted
      · cases deleted
      · rename_i choice parsed
        exact ⟨current, bootDefault, choice, loaded, read, parsed⟩

theorem numbered_of_selected {dir : GenerationsDir} {name : String} {id : UInt32}
    (selected : Selected env dir choice name id) : ∃ file, Numbered dir name file id := by
  cases choice with
  | ids ids => exact selected.2
  | keepLast count =>
      obtain ⟨⟨manifest, numbered⟩, _⟩ := selected
      exact ⟨_, numbered⟩
  | olderThanDays days =>
      obtain ⟨manifest, numbered, _⟩ := selected
      exact ⟨_, numbered⟩
  | old =>
      obtain ⟨manifest, numbered⟩ := selected
      exact ⟨_, numbered⟩

theorem eq_of_numbered_dirName {dir : GenerationsDir} {file : ManifestFile} {id other : UInt32}
    (numbered : Numbered dir (dirName other) file id) : id = other := by
  have parsed := numbered.2
  rw [parseU32_dirName] at parsed
  exact (Option.some.inj parsed).symm

/-- Only the directories of the listed ids go. -/
theorem deleteEach_keeps {ids : List UInt32} {dir : GenerationsDir}
    {stats : DeleteGenerationsStats} {dryRun : Bool} {name : String} {file : ManifestFile}
    {id : UInt32} (numbered : Numbered dir name file id) (unlisted : id ∉ ids) :
    (deleteEach dryRun ids dir roots stats).1.lookup name = some file := by
  rw [deleteEach_lookup, numbered.1]
  intro other member same
  subst same
  rw [eq_of_numbered_dirName numbered] at unlisted
  exact unlisted member

/-- A directory is gone after a real run exactly if it has the name of a listed id. -/
theorem deleteEach_gone_iff {ids : List UInt32} {dir : GenerationsDir}
    {stats : DeleteGenerationsStats} {name : String} :
    (name ∈ dir ∧ name ∉ (deleteEach false ids dir roots stats).1) ↔
      name ∈ dir ∧ ∃ id ∈ ids, name = dirName id := by
  constructor
  · intro ⟨present, gone⟩
    refine ⟨present, ?_⟩
    by_contra others
    have kept := @deleteEach_lookup false ids dir roots stats name (by
      intro id member same
      exact others ⟨id, member, same⟩)
    rw [← AList.lookup_eq_none, kept, AList.lookup_eq_none] at gone
    exact gone present
  · intro ⟨present, id, member, same⟩
    subst same
    exact ⟨present, deleteEach_removed member⟩

/-- Where every selected generation has a decimal name, the directories that go are the
selected ones. -/
theorem deleteEach_removes_iff {ids guarded : List UInt32} {dir : GenerationsDir}
    {stats : DeleteGenerationsStats} {name : String} (reports : Lists env dir guarded choice ids)
    (decimal : ∀ name id, id ∉ guarded → Selected env dir choice name id → name = dirName id) :
    (name ∈ dir ∧ name ∉ (deleteEach false ids dir roots stats).1) ↔
      ∃ id, id ∉ guarded ∧ Selected env dir choice name id := by
  rw [deleteEach_gone_iff]
  constructor
  · rintro ⟨present, id, member, same⟩
    obtain ⟨free, other, selected⟩ := (reports.2 id).mp member
    rw [same, ← decimal other id free selected]
    exact ⟨id, free, selected⟩
  · rintro ⟨id, free, selected⟩
    obtain ⟨file, numbered⟩ := numbered_of_selected selected
    have present : name ∈ dir := by
      rw [← AList.lookup_isSome, numbered.1]
      rfl
    exact ⟨present, id, (reports.2 id).mpr ⟨free, name, selected⟩, decimal name id free selected⟩

/-- A deletion keeps its promises exactly if each selected id is that of one directory and,
in a real run, that directory is named by its id. -/
theorem deleteGenerationsWith_upholds_iff {dryRun : Bool}
    {after : State × GcRoots × DeleteGenerationsStats}
    (loaded : loadManifestFrom manifestPath state.manifest = .ok current)
    (read : readBootDefault "/etc/redox-system/boot-default" state.bootDefault = .ok bootDefault)
    (parsed : parseGenerationSelector selector = .ok choice)
    (deleted : deleteGenerationsWith env roots selector dryRun state = .ok after) :
    Upholds env state roots selector (protectedIds current bootDefault) choice dryRun after ↔
      Unambiguous env state.generations (protectedIds current bootDefault) choice ∧
        (dryRun = false → ∀ name id, id ∉ protectedIds current bootDefault →
          Selected env state.generations choice name id → name = dirName id) := by
  obtain ⟨refused, run⟩ := @deleteGenerationsWith_eq env state roots selector current bootDefault
    choice loaded read parsed
  have ran := run dryRun
  rw [deleted, Except.ok.injEq] at ran
  subst ran
  have listing := @lists_selectedIds_iff env state.generations
    (protectedIds current bootDefault) choice
  have unguarded : ∀ id ∈ selectedIds env (protectedIds current bootDefault)
      (scanGenerations state.generations) choice, id ∉ protectedIds current bootDefault := by
    intro id selected
    exact selectedIds_unguarded selected
  generalize selectedIds env (protectedIds current bootDefault)
    (scanGenerations state.generations) choice = ids at run listing unguarded ⊢
  generalize protectedIds current bootDefault = guarded at listing unguarded ⊢
  have reported : ∀ dryRun, (deleteEach dryRun ids state.generations roots
      ⟨0, 0, [], refused⟩).2.2.deletedIds = ids := by
    intro dryRun
    rw [deleteEach_deletedIds, List.nil_append]
  constructor
  · intro upheld
    have reports := upheld.reports
    simp only [reported] at reports
    refine ⟨listing.mp reports, ?_⟩
    intro real name id free selected
    subst real
    have gone := (upheld.removes rfl name).mpr ⟨id, free, selected⟩
    obtain ⟨_, other, _, same⟩ := deleteEach_gone_iff.mp gone
    obtain ⟨file, numbered⟩ := numbered_of_selected selected
    subst same
    rw [eq_of_numbered_dirName numbered]
  · intro ⟨unambiguous, decimal⟩
    have reports := listing.mpr unambiguous
    constructor
    · intro id guards
      have unlisted : id ∉ ids := fun member => unguarded id member guards
      refine ⟨fun name file numbered => deleteEach_keeps numbered unlisted, ?_⟩
      intro rest
      apply deleteEach_roots
      intro other member rest' same
      rw [rootName_id same] at unlisted
      exact unlisted member
    · intro count chosen name manifest id numbered low
      apply deleteEach_keeps numbered
      intro member
      obtain ⟨_, _, selected⟩ := (reports.2 id).mp member
      subst chosen
      have high := selected.2
      omega
    · simp only [reported]
      exact reports
    · intro real name
      subst real
      exact deleteEach_removes_iff reports (decimal rfl)
    · intro name untagged
      simp only [reported] at untagged
      exact deleteEach_roots untagged
    · intro dry real drily really
      rw [run true, Except.ok.injEq] at drily
      rw [run false, Except.ok.injEq] at really
      subst drily
      subst really
      obtain ⟨sameDir, sameRoots⟩ := @deleteEach_dryRun ids state.generations roots
        ⟨0, 0, [], refused⟩
      refine ⟨?_, ?_, sameRoots⟩
      · simp only [reported]
      · simp only [sameDir]

end Deletion

/-- With generation 2 running, `old` deletes generation 1 and says so. -/
theorem old_deletes_one :
    ∃ after, deleteGenerationsWith quietEnv ⟨∅⟩ "old" false twoGenerations = .ok after ∧
      after.2.2.deletedIds = [1] ∧
      Upholds quietEnv twoGenerations ⟨∅⟩ "old" [2] .old false after := by
  refine ⟨_, rfl, by decide +kernel, ?_⟩
  have one : ∀ name id, Selected quietEnv twoGenerations.generations .old name id →
      name = "1" ∧ id = 1 := by
    intro name id ⟨manifest, found, parsed⟩
    have entry := List.mem_singleton.mp (AList.mem_lookup_iff.mp found)
    cases entry
    have same : some 1 = some id := parsed
    cases same
    exact ⟨rfl, rfl⟩
  have upheld := (@deleteGenerationsWith_upholds_iff quietEnv twoGenerations ⟨∅⟩ "old"
    (emptyGeneration 2) none .old false _ rfl rfl rfl rfl).mpr
  apply upheld
  constructor
  · intro name other id _ selected selected'
    rw [(one name id selected).1, (one other id selected').1]
  · intro _ name id _ selected
    rw [(one name id selected).1, (one name id selected).2]
    rfl

/-- An id that is not stored is reported as deleted. -/
theorem missing_reported_deleted :
    ¬ ∀ (env : Env) (state : State) (roots : GcRoots) (selector : String) (current : Manifest)
        (bootDefault : Option UInt32) (choice : GenerationSelector) (dryRun : Bool)
        (after : State × GcRoots × DeleteGenerationsStats),
        loadManifestFrom manifestPath state.manifest = .ok current →
        readBootDefault "/etc/redox-system/boot-default" state.bootDefault = .ok bootDefault →
        parseGenerationSelector selector = .ok choice →
        deleteGenerationsWith env roots selector dryRun state = .ok after →
        Upholds env state roots selector (protectedIds current bootDefault) choice dryRun
          after := by
  intro always
  have upheld := always quietEnv twoGenerations ⟨∅⟩ "99" (emptyGeneration 2) none (.ids [99]) false
    _ rfl rfl rfl rfl
  have listed : (99 : UInt32) ∈ [(99 : UInt32)] := by decide
  obtain ⟨_, name, _, file, found, parsed⟩ := (upheld.reports.2 99).mp listed
  have entry := List.mem_singleton.mp (AList.mem_lookup_iff.mp found)
  cases entry
  have same : some (1 : UInt32) = some 99 := parsed
  exact absurd same (by decide)

end NixRedox.System
