import NixRedox.NarRehash
import NixRedox.Utf8Order

set_option autoImplicit false

/- The archives of a binary cache: `serialize_to_nar` of `build-binary-cache.py`, and the
trees that archives are of. -/
namespace NixRedox.Nar

open Bytes (toLittleEndian utf8 utf8_injective)

section Trees

mutual

/-- Entries are in strictly ascending order of the bytes of their names. -/
def Archive.Sorted : Archive → Prop
  | .file _ _ => True
  | .symlink _ => True
  | .directory entries => entries.Sorted

def ArchiveEntries.Sorted : ArchiveEntries → Prop
  | .done => True
  | .entry name node rest => node.Sorted ∧ (∀ other ∈ rest.names, name < other) ∧ rest.Sorted

end

mutual

/-- The archive is of what is on disk at the path. -/
def Archive.Depicts (fs : Fs) : Archive → RelPath → Prop
  | .file executable contents, path =>
      ∃ mode, fs path = some (.file contents mode) ∧ executable = (mode &&& 0o111 != 0)
  | .symlink bytes, path => ∃ target, fs path = some (.symlink target) ∧ utf8 target = bytes
  | .directory entries, path =>
      fs path = some .dir ∧
        (∀ name, (fs (path ++ [name])).isSome = true ↔ utf8 name ∈ entries.names) ∧
        entries.Depicts fs path

def ArchiveEntries.Depicts (fs : Fs) : ArchiveEntries → RelPath → Prop
  | .done, _ => True
  | .entry bytes node rest, path =>
      (∃ name, utf8 name = bytes ∧ node.Depicts fs (path ++ [name])) ∧ rest.Depicts fs path

end

end Trees

section Serializer

/-- The data of the calls of `write`, in order; `none` is an exception. -/
abbrev Writes := List (List UInt8)

/-- `struct.pack("<Q", size)`. -/
def packSize (size : Nat) : Option (List UInt8) :=
  if size < 2 ^ 64 then some (toLittleEndian 8 size) else none

def padding (size : Nat) : Writes :=
  let pad := (8 - size % 8) % 8
  if pad ≠ 0 then [List.replicate pad 0] else []

/-- `_write_str`. -/
def writeStr (bytes : List UInt8) : Option Writes := do
  return [← packSize bytes.length, bytes] ++ padding bytes.length

def writeToken (text : String) : Option Writes := writeStr (utf8 text.toList)

/-- `fh.read(65536)` until nothing is read. -/
def readChunks (content : List UInt8) : Writes :=
  if content = [] then
    []
  else
    content.take 65536 :: readChunks (content.drop 65536)
termination_by content.length
decreasing_by
  have nonempty := List.length_pos_of_ne_nil ‹_›
  rw [List.length_drop]
  omega

variable (listDir : RelPath → List Name) (executable : RelPath → Bool) (fs : Fs)

def serializeEntries (serialize : RelPath → Option Writes) (path : RelPath) :
    List Name → Option Writes
  | [] => some []
  | name :: rest => do
      let entry ← writeToken "entry"
      let opening ← writeToken "("
      let nameToken ← writeToken "name"
      let nameText ← writeStr (utf8 name)
      let nodeToken ← writeToken "node"
      let node ← serialize (path ++ [name])
      let closing ← writeToken ")"
      let others ← serializeEntries serialize path rest
      return entry ++ opening ++ nameToken ++ nameText ++ nodeToken ++ node ++ closing ++ others

/-- `sorted(os.listdir(path))`: by code points. -/
def sortedNames (path : RelPath) : List Name :=
  (listDir path).insertionSort fun one two => one ≤ two

/-- What stands between the type of an entry and the closing parenthesis. -/
def serializeBody (serialize : RelPath → Option Writes) (path : RelPath) : FsNode → Option Writes
  | .symlink target => do
      let kind ← writeToken "symlink"
      let targetToken ← writeToken "target"
      return kind ++ targetToken ++ (← writeStr (utf8 target))
  | .dir => do
      let kind ← writeToken "directory"
      return kind ++ (← serializeEntries serialize path (sortedNames listDir path))
  | .file content _ => do
      let kind ← writeToken "regular"
      let flag ← writeToken "executable"
      let empty ← writeToken ""
      let contents ← writeToken "contents"
      let size ← packSize content.length
      return kind ++ (if executable path then flag ++ empty else []) ++ contents ++ [size] ++
        readChunks content ++ padding content.length

/-- `_serialize_entry`. The recursion goes down the tree, so `fuel` bounds its depth. -/
def serializeEntry : Nat → RelPath → Option Writes
  | 0, _ => none
  | fuel + 1, path => do
      let opening ← writeToken "("
      let type ← writeToken "type"
      let body ← serializeBody listDir executable (serializeEntry fuel) path (← fs path)
      let closing ← writeToken ")"
      return opening ++ type ++ body ++ closing

/-- `HashingWriter`: what the hasher was fed with, the size, and the file. -/
structure HashingWriter where
  hashed : List UInt8
  size : Nat
  file : List UInt8

def HashingWriter.write (writer : HashingWriter) (data : List UInt8) : HashingWriter :=
  ⟨writer.hashed ++ data, writer.size + data.length, writer.file ++ data⟩

/-- The digest, the size, and the file that is left. -/
def serializeToNar (sha256 : List UInt8 → List UInt8) (fuel : Nat) :
    Option (List UInt8 × Nat × List UInt8) := do
  let magic ← writeToken "nix-archive-1"
  let entry ← serializeEntry listDir executable fs fuel []
  let writer := (magic ++ entry).foldl HashingWriter.write ⟨[], 0, []⟩
  return (sha256 writer.hashed, writer.size, writer.file)

end Serializer

section Strings

theorem toLittleEndian_eq (width value : Nat) :
    toLittleEndian width value =
      (List.range width).map fun index => UInt8.ofNat (value / 256 ^ index) := by
  induction width generalizing value with
  | zero => rfl
  | succ width ih =>
      rw [toLittleEndian, ih, List.range_succ_eq_map, List.map_cons, List.map_map, Nat.pow_zero,
        Nat.div_one]
      congr 1
      apply List.map_congr_left
      intro index _
      rw [Function.comp_apply, Nat.div_div_eq_div_mul, Nat.pow_succ']

theorem flatten_padding (size : Nat) :
    (padding size).flatten = List.replicate ((8 - size % 8) % 8) 0 := by
  unfold padding
  dsimp only
  split
  · exact List.append_nil _
  · rename_i none_
    rw [not_ne_iff.mp none_]
    rfl

theorem flatten_readChunks (content : List UInt8) : (readChunks content).flatten = content := by
  induction size : content.length using Nat.strong_induction_on generalizing content with
  | _ size ih =>
      rw [readChunks]
      split
      · rename_i empty
        rw [empty]
        rfl
      · rename_i some_
        have nonempty := List.length_pos_of_ne_nil some_
        have rest := ih (content.drop 65536).length (by rw [List.length_drop]; omega) _ rfl
        rw [List.flatten_cons, rest, List.take_append_drop]

/-- The calls are made and write these bytes. -/
def Emits (calls : Option Writes) (bytes : List UInt8) : Prop :=
  ∃ writes, calls = some writes ∧ writes.flatten = bytes

theorem emits_writeStr {bytes : List UInt8} (sized : bytes.length < 2 ^ 64) :
    Emits (writeStr bytes) (narString bytes) := by
  refine ⟨[toLittleEndian 8 bytes.length, bytes] ++ padding bytes.length, ?_, ?_⟩
  · rw [writeStr, packSize, if_pos sized]
    rfl
  · rw [List.flatten_append, flatten_padding, toLittleEndian_eq]
    simp [narString]

theorem emits_writeToken {text : String} (plain : utf8 text.toList = asciiBytes text.toList)
    (sized : text.toList.length < 2 ^ 64) : Emits (writeToken text) (narWords [text]) := by
  have own : narWords [text] = narString (utf8 text.toList) := by
    rw [plain]
    exact List.append_nil _
  rw [own]
  apply emits_writeStr
  rw [plain, asciiBytes, List.length_map]
  exact sized

theorem emits_bind {first : Option Writes} {next : Writes → Option Writes}
    {front whole : List UInt8} (own : Emits first front)
    (rest : ∀ writes, writes.flatten = front → Emits (next writes) whole) :
    Emits (first >>= next) whole := by
  obtain ⟨writes, made, flat⟩ := own
  rw [made]
  exact rest writes flat

theorem emits_pure {writes : Writes} {bytes : List UInt8} (flat : writes.flatten = bytes) :
    Emits (pure writes) bytes := ⟨writes, rfl, flat⟩

/-- The words of an archive. -/
theorem emits_word : ∀ text ∈ ["nix-archive-1", "(", ")", "type", "symlink", "target", "directory",
    "entry", "name", "node", "regular", "executable", "", "contents"],
    Emits (writeToken text) (narWords [text]) := by
  simp only [List.forall_mem_cons]
  refine ⟨?_, ?_, ?_, ?_, ?_, ?_, ?_, ?_, ?_, ?_, ?_, ?_, ?_, ?_, by simp⟩
  all_goals
    apply emits_writeToken
    · rfl
    · decide

theorem narWords_cons (word : String) (words : List String) :
    narWords (word :: words) = narWords [word] ++ narWords words := by
  simp [narWords]

end Strings

section Simulation

/-- What holds of trees on disk: sizes and lengths are 64-bit numbers, and files are
executable by everyone or by nobody. -/
structure OnDisk (fs : Fs) : Prop where
  sizes : ∀ path content mode, fs path = some (.file content mode) → content.length < 2 ^ 64
  targets : ∀ path target, fs path = some (.symlink target) → (utf8 target).length < 2 ^ 64
  names : ∀ path name, (fs (path ++ [name])).isSome = true → (utf8 name).length < 2 ^ 64
  modes : ∀ path content mode, fs path = some (.file content mode) →
    mode &&& 0o111 = 0 ∨ mode &&& 0o111 = 0o111

/-- `os.access` of a file says what all or none of its bits say. -/
def Accesses (executable : RelPath → Bool) (fs : Fs) : Prop :=
  ∀ path content mode, fs path = some (.file content mode) →
    (mode &&& 0o111 = 0 → executable path = false) ∧
    (mode &&& 0o111 = 0o111 → executable path = true)

variable {readDir listDir : RelPath → List Name} {executable : RelPath → Bool} {fs : Fs}

theorem serializeEntries_emits {write : RelPath → Option Archive}
    {serialize : RelPath → Option Writes} {path : RelPath} {names : List Name}
    {entries : ArchiveEntries} (written : writeEntries write path names = some entries)
    (each : ∀ name node, write (path ++ [name]) = some node →
      Emits (serialize (path ++ [name])) node.narBytes ∧ (utf8 name).length < 2 ^ 64) :
    Emits (serializeEntries serialize path names) entries.narBytes := by
  induction names generalizing entries with
  | nil =>
      cases written
      exact ⟨[], rfl, rfl⟩
  | cons name rest ih =>
      obtain ⟨node, own, later⟩ := Option.bind_eq_some_iff.mp written
      obtain ⟨others, more, same⟩ := Option.bind_eq_some_iff.mp later
      cases same
      obtain ⟨child, sized⟩ := each name node own
      unfold serializeEntries
      refine emits_bind (emits_word "entry" (by simp)) fun entry entry_ => ?_
      refine emits_bind (emits_word "(" (by simp)) fun opening opening_ => ?_
      refine emits_bind (emits_word "name" (by simp)) fun nameToken nameToken_ => ?_
      refine emits_bind (emits_writeStr sized) fun nameText nameText_ => ?_
      refine emits_bind (emits_word "node" (by simp)) fun nodeToken nodeToken_ => ?_
      refine emits_bind child fun node_ nodeBytes => ?_
      refine emits_bind (emits_word ")" (by simp)) fun closing closing_ => ?_
      refine emits_bind (ih more) fun others_ othersBytes => ?_
      apply emits_pure
      rw [ArchiveEntries.narBytes, narWords_cons "entry", narWords_cons "("]
      simp only [List.flatten_append, entry_, opening_, nameToken_, nameText_, nodeToken_, nodeBytes,
        closing_, othersBytes, List.append_assoc]

/-- Sorted by code points, names are in the order of their bytes. -/
theorem sortedNames_ascending (lists : ListsDirs listDir fs) {path : RelPath}
    (dir : fs path = some .dir) : ((sortedNames listDir path).map utf8).Pairwise (· < ·) := by
  have perm : (sortedNames listDir path).Perm (listDir path) := List.perm_insertionSort _ _
  have sorted : (sortedNames listDir path).Pairwise (· ≤ ·) := List.pairwise_insertionSort _ _
  rw [List.pairwise_map]
  refine (sorted.and (perm.nodup_iff.mpr (lists path dir).1)).imp fun {one two} both => ?_
  exact Utf8Order.utf8_lt_of_lt (lt_of_le_of_ne both.1 both.2)

/-- Sorted by code points or by bytes, a directory has one order. -/
theorem sortedNames_eq (lists : ListsDirs readDir fs) (listed : ListsDirs listDir fs)
    {path : RelPath} (dir : fs path = some .dir) :
    sortedNames listDir path = sortedDir readDir path := by
  obtain ⟨distinct, members⟩ := lists path dir
  have perm : (sortedNames listDir path).Perm (listDir path) := List.perm_insertionSort _ _
  symm
  apply sortedDir_eq distinct
  · intro name
    rw [members, perm.mem_iff, (listed path dir).2]
  · exact sortedNames_ascending listed dir

theorem serializeBody_emits (disk : OnDisk fs) (access : Accesses executable fs)
    (lists : ListsDirs readDir fs) (listed : ListsDirs listDir fs) {fuel : Nat}
    (deeper : ∀ path archive, writePathToNar readDir fs fuel path = some archive →
      Emits (serializeEntry listDir executable fs fuel path) archive.narBytes)
    {path : RelPath} {node : FsNode} (here : fs path = some node) {archive : Archive}
    (written : writePathToNar readDir fs (fuel + 1) path = some archive) :
    ∃ body, Emits (serializeBody listDir executable (serializeEntry listDir executable fs fuel) path
        node) body ∧
      archive.narBytes = narWords ["(", "type"] ++ body ++ narWords [")"] := by
  rw [writePathToNar, here] at written
  cases node with
  | dir =>
      obtain ⟨entries, own, same⟩ := Option.map_eq_some_iff.mp written
      subst same
      refine ⟨narWords ["directory"] ++ entries.narBytes, ?_, ?_⟩
      · rw [← sortedNames_eq lists listed here] at own
        have inside : Emits (serializeEntries (serializeEntry listDir executable fs fuel) path
            (sortedNames listDir path)) entries.narBytes := by
          apply serializeEntries_emits own
          intro name child made
          refine ⟨deeper _ child made, disk.names path name ?_⟩
          cases fuel with
          | zero => cases made
          | succ fuel =>
              rw [writePathToNar] at made
              cases there : fs (path ++ [name]) with
              | none =>
                  rw [there] at made
                  cases made
              | some found => rfl
        refine emits_bind (emits_word "directory" (by simp)) fun kind kind_ => ?_
        refine emits_bind inside fun calls calls_ => ?_
        exact emits_pure (by rw [List.flatten_append, kind_, calls_])
      · rw [Archive.narBytes, narWords_cons "(", narWords_cons "type", narWords_cons "(" ["type"]]
        simp only [List.append_assoc]
  | symlink target =>
      cases written
      refine ⟨narWords ["symlink", "target"] ++ narString (utf8 target), ?_, ?_⟩
      · refine emits_bind (emits_word "symlink" (by simp)) fun kind kind_ => ?_
        refine emits_bind (emits_word "target" (by simp)) fun targetToken targetToken_ => ?_
        refine emits_bind (emits_writeStr (disk.targets path target here)) fun text text_ => ?_
        apply emits_pure
        rw [narWords_cons "symlink", List.flatten_append, List.flatten_append, kind_, targetToken_,
          text_]
      · rw [Archive.narBytes, narWords_cons "(", narWords_cons "type", narWords_cons "(" ["type"]]
        simp only [List.append_assoc]
  | file content mode =>
      cases written
      have flag : executable path = (mode &&& 0o111 != 0) := by
        obtain ⟨none_, all⟩ := access path content mode here
        rcases disk.modes path content mode here with bits | bits
        · rw [none_ bits, bits]
          rfl
        · rw [all bits, bits]
          rfl
      refine ⟨narWords ["regular"] ++
        (if executable path then narWords ["executable", ""] else []) ++ narWords ["contents"] ++
        narString content, ?_, ?_⟩
      · refine emits_bind (emits_word "regular" (by simp)) fun kind kind_ => ?_
        refine emits_bind (emits_word "executable" (by simp)) fun mark mark_ => ?_
        refine emits_bind (emits_word "" (by simp)) fun empty empty_ => ?_
        refine emits_bind (emits_word "contents" (by simp)) fun contents contents_ => ?_
        have sized := disk.sizes path content mode here
        have size : packSize content.length = some (toLittleEndian 8 content.length) :=
          if_pos sized
        rw [size]
        apply emits_pure
        have bytes : narString content = toLittleEndian 8 content.length ++ content ++
            List.replicate ((8 - content.length % 8) % 8) 0 := by
          rw [toLittleEndian_eq]
          rfl
        rw [bytes, narWords_cons "executable"]
        cases executable path <;>
          simp [List.flatten_append, kind_, mark_, empty_, contents_, flatten_readChunks,
            flatten_padding]
      · rw [flag, Archive.narBytes]
        cases (mode &&& 0o111 != 0) <;> simp [narWords]

theorem serializeEntry_emits (disk : OnDisk fs) (access : Accesses executable fs)
    (lists : ListsDirs readDir fs) (listed : ListsDirs listDir fs) (fuel : Nat) :
    ∀ path archive, writePathToNar readDir fs fuel path = some archive →
      Emits (serializeEntry listDir executable fs fuel path) archive.narBytes := by
  induction fuel with
  | zero =>
      intro path archive written
      cases written
  | succ fuel ih =>
      intro path archive written
      obtain ⟨node, here⟩ : ∃ node, fs path = some node := by
        cases here : fs path with
        | none =>
            rw [writePathToNar, here] at written
            cases written
        | some node => exact ⟨node, rfl⟩
      obtain ⟨body, inside, whole⟩ :=
        serializeBody_emits disk access lists listed ih here written
      unfold serializeEntry
      rw [here, whole, narWords_cons "("]
      refine emits_bind (emits_word "(" (by simp)) fun opening opening_ => ?_
      refine emits_bind (emits_word "type" (by simp)) fun type type_ => ?_
      refine emits_bind inside fun calls calls_ => ?_
      refine emits_bind (emits_word ")" (by simp)) fun closing closing_ => ?_
      apply emits_pure
      simp only [List.flatten_append, opening_, type_, calls_, closing_]

end Simulation

section Shapes

variable {readDir : RelPath → List Name} {fs : Fs}

/-- The entries that are written of a directory are those listed. -/
theorem writeEntries_depicts {write : RelPath → Option Archive} {path : RelPath}
    {names : List Name} (ascending : (names.map utf8).Pairwise (· < ·))
    (each : ∀ name ∈ names, ∃ node, write (path ++ [name]) = some node ∧
      node.Depicts fs (path ++ [name]) ∧ node.Sorted) :
    ∃ entries, writeEntries write path names = some entries ∧ entries.names = names.map utf8 ∧
      entries.Depicts fs path ∧ entries.Sorted := by
  induction names with
  | nil => exact ⟨.done, rfl, rfl, trivial, trivial⟩
  | cons name rest ih =>
      rw [List.map_cons, List.pairwise_cons] at ascending
      obtain ⟨node, made, depicts, sorted⟩ := each name List.mem_cons_self
      obtain ⟨others, more, names_, depictsOthers, sortedOthers⟩ :=
        ih ascending.2 fun other later => each other (List.mem_cons_of_mem _ later)
      refine ⟨.entry (utf8 name) node others, ?_, ?_, ⟨⟨name, rfl, depicts⟩, depictsOthers⟩,
        sorted, ?_, sortedOthers⟩
      · rw [writeEntries, made, more]
        rfl
      · rw [ArchiveEntries.names, names_, List.map_cons]
      · rw [names_]
        exact ascending.1

theorem sortedDir_ascending (lists : ListsDirs readDir fs) {path : RelPath}
    (dir : fs path = some .dir) : ((sortedDir readDir path).map utf8).Pairwise (· < ·) := by
  rw [← sortedNames_eq lists lists dir]
  exact sortedNames_ascending lists dir

/-- The recursion gets to the bottom of a tree of bounded depth. -/
theorem writePathToNar_depicts (lists : ListsDirs readDir fs) {depth : Nat}
    (bounded : ∀ path, (fs path).isSome = true → path.length < depth) (fuel : Nat) :
    ∀ path, (fs path).isSome = true → depth ≤ path.length + fuel →
      ∃ archive, writePathToNar readDir fs fuel path = some archive ∧ archive.Depicts fs path ∧
        archive.Sorted := by
  induction fuel with
  | zero =>
      intro path present enough
      have below := bounded path present
      omega
  | succ fuel ih =>
      intro path present enough
      rw [writePathToNar]
      cases here : fs path with
      | none =>
          rw [here] at present
          cases present
      | some node =>
          cases node with
          | file content mode => exact ⟨_, rfl, ⟨mode, here, rfl⟩, trivial⟩
          | symlink target => exact ⟨_, rfl, ⟨target, here, rfl⟩, trivial⟩
          | dir =>
              have members : ∀ name, name ∈ sortedDir readDir path ↔
                  (fs (path ++ [name])).isSome = true := by
                intro name
                rw [← (lists path here).2 name]
                exact (List.perm_insertionSort _ _).mem_iff
              obtain ⟨entries, written, names_, depicts, sorted⟩ :=
                @writeEntries_depicts fs (writePathToNar readDir fs fuel) path _
                  (sortedDir_ascending lists here) fun name inside => by
                    apply ih _ ((members name).mp inside)
                    rw [List.length_append, List.length_singleton]
                    omega
              refine ⟨.directory entries, ?_, ⟨here, ?_, depicts⟩, sorted⟩
              · rw [written, Option.map_some]
              · intro name
                have injective : Function.Injective utf8 := utf8_injective
                rw [names_, List.mem_map_of_injective injective, members]

theorem ArchiveEntries.Depicts.present {entries : ArchiveEntries} {path : RelPath}
    (depicts : entries.Depicts fs path) {bytes : List UInt8} (inside : bytes ∈ entries.names) :
    ∃ name, utf8 name = bytes ∧ (fs (path ++ [name])).isSome = true := by
  cases entries with
  | done => cases inside
  | entry first node rest =>
      obtain ⟨⟨name, same, own⟩, later⟩ := depicts
      rcases List.mem_cons.mp inside with rfl | behind
      · refine ⟨name, same, ?_⟩
        cases node with
        | file executable contents =>
            obtain ⟨mode, there, _⟩ := own
            exact Option.isSome_of_eq_some there
        | symlink target =>
            obtain ⟨text, there, _⟩ := own
            exact Option.isSome_of_eq_some there
        | directory entries => exact Option.isSome_of_eq_some own.1
      · exact ArchiveEntries.Depicts.present later behind

theorem ArchiveEntries.Sorted.ascending {entries : ArchiveEntries} (sorted : entries.Sorted) :
    entries.names.Pairwise (· < ·) := by
  cases entries with
  | done => exact .nil
  | entry bytes node rest =>
      exact .cons sorted.2.1 (ArchiveEntries.Sorted.ascending sorted.2.2)

/-- Strictly ascending lists with the same members are the same. -/
theorem eq_of_ascending {one two : List (List UInt8)} (first : one.Pairwise (· < ·))
    (second : two.Pairwise (· < ·)) (members : ∀ bytes, bytes ∈ one ↔ bytes ∈ two) : one = two := by
  have distinct (names : List (List UInt8)) (ascending : names.Pairwise (· < ·)) : names.Nodup :=
    ascending.imp fun below => Std.ne_of_lt below
  have perm := (List.perm_ext_iff_of_nodup (distinct one first) (distinct two second)).mpr members
  refine List.Perm.eq_of_pairwise ?_ first second perm
  intro left right _ _ below above
  exact absurd above (List.lt_asymm below)

mutual

/-- A path has one sorted archive. -/
theorem Archive.Depicts.unique {one two : Archive} {path : RelPath} (first : one.Depicts fs path)
    (second : two.Depicts fs path) (sorted : one.Sorted) (sorted' : two.Sorted) : one = two := by
  cases one with
  | file executable contents =>
      obtain ⟨mode, here, flag⟩ := first
      cases two with
      | file executable' contents' =>
          obtain ⟨mode', here', flag'⟩ := second
          rw [here] at here'
          cases here'
          rw [flag, flag']
      | symlink target =>
          obtain ⟨text, here', _⟩ := second
          rw [here] at here'
          cases here'
      | directory entries =>
          rw [second.1] at here
          cases here
  | symlink target =>
      obtain ⟨text, here, bytes⟩ := first
      cases two with
      | file executable contents =>
          obtain ⟨mode, here', _⟩ := second
          rw [here] at here'
          cases here'
      | symlink target' =>
          obtain ⟨text', here', bytes'⟩ := second
          rw [here] at here'
          cases here'
          rw [← bytes, ← bytes']
      | directory entries =>
          rw [second.1] at here
          cases here
  | directory entries =>
      obtain ⟨here, listed, inside⟩ := first
      cases two with
      | file executable contents =>
          obtain ⟨mode, here', _⟩ := second
          rw [here] at here'
          cases here'
      | symlink target =>
          obtain ⟨text, here', _⟩ := second
          rw [here] at here'
          cases here'
      | directory entries' =>
          obtain ⟨_, listed', inside'⟩ := second
          have names : entries.names = entries'.names := by
            apply eq_of_ascending sorted.ascending sorted'.ascending
            intro bytes
            constructor
            · intro member
              obtain ⟨name, rfl, present⟩ := inside.present member
              exact (listed' name).mp present
            · intro member
              obtain ⟨name, rfl, present⟩ := inside'.present member
              exact (listed name).mp present
          rw [ArchiveEntries.Depicts.unique inside inside' sorted sorted' names]

theorem ArchiveEntries.Depicts.unique {one two : ArchiveEntries} {path : RelPath}
    (first : one.Depicts fs path) (second : two.Depicts fs path) (sorted : one.Sorted)
    (sorted' : two.Sorted) (names : one.names = two.names) : one = two := by
  cases one with
  | done =>
      cases two with
      | done => rfl
      | entry bytes node rest => cases names
  | entry bytes node rest =>
      cases two with
      | done => cases names
      | entry bytes' node' rest' =>
          obtain ⟨⟨name, same, own⟩, later⟩ := first
          obtain ⟨⟨name', same', own'⟩, later'⟩ := second
          obtain ⟨head, tail⟩ := List.cons.inj names
          subst head
          have alike := utf8_injective (same.trans same'.symm)
          subst alike
          rw [Archive.Depicts.unique own own' sorted.1 sorted'.1,
            ArchiveEntries.Depicts.unique later later' sorted.2.2 sorted'.2.2 tail]

end

end Shapes

section Publishing

variable {readDir listDir : RelPath → List Name} {executable : RelPath → Bool} {fs : Fs}

/-- Everything that is written is hashed and counted. -/
theorem foldl_write (writes : Writes) (writer : HashingWriter) :
    writes.foldl HashingWriter.write writer =
      ⟨writer.hashed ++ writes.flatten, writer.size + writes.flatten.length,
        writer.file ++ writes.flatten⟩ := by
  induction writes generalizing writer with
  | nil => simp
  | cons data rest ih =>
      rw [List.foldl_cons, ih, HashingWriter.write]
      simp [List.append_assoc, Nat.add_assoc]

/-- A finite tree has one sorted archive, whose canonical NAR is what is published, with the
hash and the size of these bytes, and what a local build writes and hashes. -/
theorem serializeToNar_canonical (sha256 : List UInt8 → List UInt8)
    (sha256Hex : List UInt8 → List Char) (write : Archive → List UInt8)
    (emits : ∀ archive, write archive = narFile archive) (disk : OnDisk fs)
    (access : Accesses executable fs) (lists : ListsDirs readDir fs)
    (listed : ListsDirs listDir fs) (fuel : Nat) (root : (fs []).isSome = true)
    (finite : ∀ path, (fs path).isSome = true → path.length < fuel) :
    ∃ archive, archive.Depicts fs [] ∧ archive.Sorted ∧
      (∀ other, other.Depicts fs [] → other.Sorted → other = archive) ∧
      serializeToNar listDir executable fs sha256 fuel =
        some (sha256 (narFile archive), (narFile archive).length, narFile archive) ∧
      writePathToNar readDir fs fuel [] = some archive ∧ write archive = narFile archive ∧
      narHashPath readDir fs write sha256Hex fuel =
        some ("sha256:" ++ String.ofList (sha256Hex (narFile archive)),
          (narFile archive).length) := by
  obtain ⟨archive, written, depicts, sorted⟩ :=
    writePathToNar_depicts lists finite fuel [] root (by simp)
  obtain ⟨entry, made, bytes⟩ :=
    serializeEntry_emits disk access lists listed fuel [] archive written
  obtain ⟨magic, marked, start⟩ := emits_word "nix-archive-1" (by simp)
  refine ⟨archive, depicts, sorted, ?_, ?_, written, emits archive, ?_⟩
  · intro other depicts' sorted'
    exact depicts'.unique depicts sorted' sorted
  · have stream : (magic ++ entry).flatten = narFile archive := by
      rw [List.flatten_append, start, bytes]
      rfl
    rw [serializeToNar, marked, made]
    simp only [Option.bind_eq_bind, Option.bind_some]
    rw [foldl_write, stream]
    simp
  · rw [narHashPath, written, Option.map_some, emits archive]

/-- A directory with an executable file in it. -/
def helloTree : Fs := fun path =>
  if path = [] then some .dir
  else if path = ["hello".toList] then some (.file (asciiBytes "hi".toList) 0o555)
  else none

def helloDir (path : RelPath) : List Name := if path = [] then ["hello".toList] else []

theorem helloTree_cases {path : RelPath} {node : FsNode} (there : helloTree path = some node) :
    (path = [] ∧ node = .dir) ∨
      (path = ["hello".toList] ∧ node = .file (asciiBytes "hi".toList) 0o555) := by
  unfold helloTree at there
  split at there
  · rename_i root
    exact .inl ⟨root, (Option.some.inj there).symm⟩
  · split at there
    · rename_i file
      exact .inr ⟨file, (Option.some.inj there).symm⟩
    · cases there

theorem helloTree_lists : ListsDirs helloDir helloTree := by
  intro path dir
  rcases helloTree_cases dir with ⟨rfl, _⟩ | ⟨_, other⟩
  · refine ⟨by decide, fun name => ?_⟩
    rw [helloDir, if_pos rfl, List.mem_singleton, List.nil_append, helloTree,
      if_neg (List.cons_ne_nil _ _)]
    by_cases same : name = "hello".toList
    · subst same
      simp
    · simp only [same, List.cons.injEq, and_true, if_false]
      simp
  · cases other

theorem helloTree_onDisk : OnDisk helloTree := by
  constructor
  · intro path content mode there
    rcases helloTree_cases there with ⟨_, other⟩ | ⟨_, same⟩
    · cases other
    · cases same
      decide
  · intro path target there
    rcases helloTree_cases there with ⟨_, other⟩ | ⟨_, other⟩ <;> cases other
  · intro path name present
    obtain ⟨node, there⟩ := Option.isSome_iff_exists.mp present
    rcases helloTree_cases there with ⟨empty, _⟩ | ⟨same, _⟩
    · simp at empty
    · cases path with
      | nil =>
          cases same
          decide
      | cons first rest => simp at same
  · intro path content mode there
    rcases helloTree_cases there with ⟨_, other⟩ | ⟨_, same⟩
    · cases other
    · cases same
      exact .inr rfl

theorem helloTree_accesses : Accesses (fun _ => true) helloTree := by
  intro path content mode there
  rcases helloTree_cases there with ⟨_, other⟩ | ⟨_, same⟩
  · cases other
  · cases same
    exact ⟨fun bits => absurd bits (by decide), fun _ => rfl⟩

theorem helloTree_finite (path : RelPath) (present : (helloTree path).isSome = true) :
    path.length < 2 := by
  obtain ⟨node, there⟩ := Option.isSome_iff_exists.mp present
  rcases helloTree_cases there with ⟨rfl, _⟩ | ⟨rfl, _⟩ <;> decide

/-- The published archive of that directory is the one a local build hashes. -/
theorem helloTree_published :
    ∃ archive, Archive.Depicts helloTree archive [] ∧
      serializeToNar helloDir (fun _ => true) helloTree id 2 =
        some (narFile archive, (narFile archive).length, narFile archive) ∧
      writePathToNar helloDir helloTree 2 [] = some archive := by
  obtain ⟨archive, depicts, _, _, published, written, _⟩ :=
    serializeToNar_canonical id (fun _ => []) narFile (fun _ => rfl) helloTree_onDisk
      helloTree_accesses helloTree_lists helloTree_lists 2 rfl helloTree_finite
  exact ⟨archive, depicts, published, written⟩

end Publishing

end NixRedox.Nar
