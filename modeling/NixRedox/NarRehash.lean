import NixRedox.EagerFetch
import NixRedox.NarWrite

set_option autoImplicit false

/- What is extracted from a canonical archive serialises to that archive again. -/
namespace NixRedox.Nar

open Bytes (utf8 utf8_injective)

section Names

/-- The text of a valid name is one that extraction accepts. -/
theorem ValidName.text {text : Name} (valid : ValidName (utf8 text)) :
    invalidName text = false ∧ text ≠ [] := by
  obtain ⟨nonempty, -, -, slash, dot, dots⟩ := valid
  constructor
  · simp only [invalidName, Bool.or_eq_false_iff, decide_eq_false_iff_not]
    refine ⟨⟨?_, ?_⟩, ?_⟩
    · rw [Bool.eq_false_iff]
      intro inside
      apply slash
      rw [List.contains_iff_mem] at inside
      exact List.mem_flatMap.mpr ⟨'/', inside, by decide⟩
    · rintro rfl
      exact dot (by decide)
    · rintro rfl
      exact dots (by decide)
  · rintro rfl
    exact nonempty rfl

theorem NarEntries.Reads.names {entries : NarEntries} {archive : ArchiveEntries}
    (reads : entries.Reads archive) (texts : archive.IsUtf8) :
    entries.names.map utf8 = archive.names := by
  cases entries with
  | done =>
      cases archive with
      | done => rfl
      | entry bytes node rest => exact reads.elim
  | broken => cases archive <;> exact reads.elim
  | entry name node rest =>
      cases archive with
      | done => exact reads.elim
      | entry bytes wanted others =>
          obtain ⟨named, -, later⟩ := reads
          obtain ⟨⟨text, encoded⟩, -, laterTexts⟩ := texts
          rw [(named text).mpr encoded, NarEntries.names, ArchiveEntries.names, List.map_cons,
            encoded, NarEntries.Reads.names later laterTexts]

/-- A name below all the others is not among them. -/
theorem NarEntries.Reads.fresh {rest : NarEntries} {others : ArchiveEntries} {text : Name}
    (later : rest.Reads others) (texts : others.IsUtf8)
    (ascending : ∀ other ∈ others.names, utf8 text < other) : text ∉ rest.names := by
  intro again
  have listed : utf8 text ∈ rest.names.map utf8 := List.mem_map_of_mem again
  rw [later.names texts] at listed
  exact Std.lt_irrefl (ascending (utf8 text) listed)

mutual

/-- An archive read to its end can be extracted. -/
theorem NarNode.Reads.extractable {node : NarNode} {archive : Archive}
    (reads : node.Reads archive) (canonical : archive.Canonical) (texts : archive.IsUtf8) :
    node.complete = true ∧ node.WellFormed := by
  cases node with
  | file executable chunks complete =>
      cases archive with
      | file wanted contents => exact ⟨reads.2.2, trivial⟩
      | symlink bytes => exact reads.elim
      | directory entries => exact reads.elim
  | symlink target =>
      cases archive with
      | file wanted contents => exact reads.elim
      | symlink bytes =>
          obtain ⟨text, encoded⟩ := texts
          rw [(reads text).mpr encoded]
          exact ⟨rfl, trivial⟩
      | directory entries => exact reads.elim
  | directory entries =>
      cases archive with
      | file wanted contents => exact reads.elim
      | symlink bytes => exact reads.elim
      | directory wanted =>
          exact NarEntries.Reads.extractable reads canonical texts

theorem NarEntries.Reads.extractable {entries : NarEntries} {archive : ArchiveEntries}
    (reads : entries.Reads archive) (canonical : archive.Canonical) (texts : archive.IsUtf8) :
    entries.complete = true ∧ entries.WellFormed := by
  cases entries with
  | done => exact ⟨rfl, trivial⟩
  | broken => cases archive <;> exact reads.elim
  | entry name node rest =>
      cases archive with
      | done => exact reads.elim
      | entry bytes wanted others =>
          obtain ⟨named, first, later⟩ := reads
          obtain ⟨valid, firstCanonical, ascending, laterCanonical⟩ := canonical
          obtain ⟨⟨text, encoded⟩, firstTexts, laterTexts⟩ := texts
          rw [(named text).mpr encoded]
          rw [← encoded] at valid ascending
          have node := NarNode.Reads.extractable first firstCanonical firstTexts
          have entries := NarEntries.Reads.extractable later laterCanonical laterTexts
          have fresh := later.fresh laterTexts ascending
          constructor
          · simp [NarEntries.complete, valid.text.1, node.1, entries.1]
          · exact ⟨valid.text.2, fresh, node.2, entries.2⟩

end

/-- The names of a canonical directory ascend. -/
theorem ArchiveEntries.Canonical.ascending {archive : ArchiveEntries}
    (canonical : archive.Canonical) : archive.names.Pairwise (· < ·) := by
  cases archive with
  | done => exact .nil
  | entry bytes wanted others =>
      exact .cons canonical.2.2.1 (ArchiveEntries.Canonical.ascending canonical.2.2.2)

theorem NarEntries.tree_isSome_iff {entries : NarEntries} (complete : entries.complete = true)
    {name : Name} : (entries.tree name []).isSome = true ↔ name ∈ entries.names := by
  cases entries with
  | done => simp [NarEntries.tree, NarEntries.names]
  | broken => cases complete
  | entry found node rest =>
      cases found with
      | none => cases complete
      | some text =>
          simp only [NarEntries.complete, Bool.and_eq_true] at complete
          rw [NarEntries.tree, NarEntries.names, List.mem_cons]
          split
          · rename_i same
            simp [same, tree_root complete.1.2]
          · rename_i other
            rw [NarEntries.tree_isSome_iff complete.2]
            simp [other]

/-- Whatever the order a directory is read in, it is written in the order of the archive. -/
theorem sortedDir_eq {readDir : RelPath → List Name} {path : RelPath} {names : List Name}
    (distinct : (readDir path).Nodup) (listed : ∀ name, name ∈ readDir path ↔ name ∈ names)
    (ascending : (names.map utf8).Pairwise (· < ·)) : sortedDir readDir path = names := by
  have strict : (names.map utf8).Nodup := ascending.imp fun below => Std.ne_of_lt below
  have sorted : names.Pairwise fun one two => utf8 one ≤ utf8 two := by
    rw [List.pairwise_map] at ascending
    exact ascending.imp fun below => Std.le_of_lt below
  have perm : (sortedDir readDir path).Perm names := by
    refine (List.perm_insertionSort _ _).trans ?_
    exact (List.perm_ext_iff_of_nodup distinct (List.Nodup.of_map utf8 strict)).mpr listed
  refine List.Perm.eq_of_pairwise ?_ (List.pairwise_insertionSort _ _) sorted perm
  intro one two inside insideToo below above
  have equal : utf8 one = utf8 two := Std.le_antisymm below above
  exact List.inj_on_of_nodup_map strict (perm.subset inside) insideToo equal

end Names

section Rehash

variable {readDir : RelPath → List Name} {fs : Fs}

mutual

/-- The tree of an archive is written as that archive. -/
theorem NarNode.Reads.written (lists : ListsDirs readDir fs) {node : NarNode} {archive : Archive}
    (reads : node.Reads archive) (canonical : archive.Canonical) (texts : archive.IsUtf8)
    {path : RelPath} (stands : ∀ rest, fs (path ++ rest) = node.tree rest) {fuel : Nat}
    (enough : archive.depth ≤ fuel) : writePathToNar readDir fs fuel path = some archive := by
  have here := stands []
  rw [List.append_nil] at here
  have deep : 0 < archive.depth := by
    cases archive <;> simp [Archive.depth]
  obtain ⟨fuel, rfl⟩ : ∃ below, fuel = below + 1 := ⟨fuel - 1, by omega⟩
  rw [writePathToNar, here]
  cases node with
  | file executable chunks complete =>
      cases archive with
      | file wanted contents =>
          obtain ⟨rfl, rfl, rfl⟩ := reads
          cases executable <;> rfl
      | symlink bytes => exact reads.elim
      | directory entries => exact reads.elim
  | symlink target =>
      cases archive with
      | file wanted contents => exact reads.elim
      | symlink bytes =>
          obtain ⟨text, encoded⟩ := texts
          rw [(reads text).mpr encoded, ← encoded]
          rfl
      | directory entries => exact reads.elim
  | directory entries =>
      cases archive with
      | file wanted contents => exact reads.elim
      | symlink bytes => exact reads.elim
      | directory wanted =>
          have complete := (NarEntries.Reads.extractable reads canonical texts).1
          have ascending : (entries.names.map utf8).Pairwise (· < ·) := by
            rw [NarEntries.Reads.names reads texts]
            exact ArchiveEntries.Canonical.ascending canonical
          obtain ⟨distinct, listed⟩ := lists path here
          have order : sortedDir readDir path = entries.names := by
            apply sortedDir_eq distinct _ ascending
            intro name
            rw [listed name, stands [name]]
            exact NarEntries.tree_isSome_iff complete
          have inside : writeEntries (writePathToNar readDir fs fuel) path entries.names =
              some wanted := by
            apply NarEntries.Reads.written lists reads canonical texts
            · intro name _ rest
              rw [List.append_assoc, stands]
              rfl
            · exact Nat.le_of_succ_le_succ enough
          simp only [NarNode.tree, order, inside, Option.map_some]

theorem NarEntries.Reads.written (lists : ListsDirs readDir fs) {entries : NarEntries}
    {archive : ArchiveEntries} (reads : entries.Reads archive) (canonical : archive.Canonical)
    (texts : archive.IsUtf8) {path : RelPath}
    (stands : ∀ name ∈ entries.names, ∀ rest, fs (path ++ [name] ++ rest) = entries.tree name rest)
    {fuel : Nat} (enough : archive.depth ≤ fuel) :
    writeEntries (writePathToNar readDir fs fuel) path entries.names = some archive := by
  cases entries with
  | done =>
      cases archive with
      | done => rfl
      | entry bytes node rest => exact reads.elim
  | broken => cases archive <;> exact reads.elim
  | entry name node rest =>
      cases archive with
      | done => exact reads.elim
      | entry bytes wanted others =>
          obtain ⟨named, first, later⟩ := reads
          obtain ⟨valid, firstCanonical, ascending, laterCanonical⟩ := canonical
          obtain ⟨⟨text, encoded⟩, firstTexts, laterTexts⟩ := texts
          rw [(named text).mpr encoded] at stands ⊢
          rw [ArchiveEntries.depth] at enough
          rw [← encoded] at ascending
          have fresh : ∀ other ∈ rest.names, other ≠ text := by
            rintro other inside rfl
            exact later.fresh laterTexts ascending inside
          have node : writePathToNar readDir fs fuel (path ++ [text]) = some wanted := by
            apply NarNode.Reads.written lists first firstCanonical firstTexts
            · intro below
              rw [stands text (by simp [NarEntries.names]), NarEntries.tree, if_pos rfl]
            · exact (Nat.le_max_left _ _).trans enough
          have others : writeEntries (writePathToNar readDir fs fuel) path rest.names =
              some others := by
            apply NarEntries.Reads.written lists later laterCanonical laterTexts
            · intro other inside below
              rw [stands other (by simp [NarEntries.names, inside]), NarEntries.tree,
                if_neg (fresh other inside)]
            · exact (Nat.le_max_right _ _).trans enough
          simp only [NarEntries.names, writeEntries, node, others, encoded, Option.bind_eq_bind,
            Option.bind_some]

end

end Rehash

section Archives

variable (reader : Stored.ArchiveReader) (write : Archive → List UInt8)

/-- `extract_with_manifest` to a destination where nothing is: the tree it leaves if it
succeeds. -/
def extractFresh (bytes : List UInt8) : Option Fs :=
  match reader.decode bytes with
  | none => none
  | some node =>
      if (extractNode [] [] node).complete then
        some (execAll ((extractNode [] [] node).actions .stdFs) Fs.empty)
      else
        none

variable {reader write}

theorem tree_rehashed {archive : Archive} {node : NarNode} (reads : node.Reads archive)
    (canonical : archive.Canonical) (texts : archive.IsUtf8) {readDir : RelPath → List Name}
    (lists : ListsDirs readDir node.tree) {fuel : Nat} (enough : archive.depth ≤ fuel) :
    narHashPath readDir node.tree write reader.sha256Hex fuel =
      some ("sha256:" ++ String.ofList (reader.sha256Hex (write archive)),
        (write archive).length) := by
  have written : writePathToNar readDir node.tree fuel [] = some archive := by
    apply reads.written lists canonical texts _ enough
    intro rest
    rfl
  rw [narHashPath, written, Option.map_some]

/-- Where the archive reader inverts the writer on a canonical archive, the hash and the size
of what is extracted from it are its own, and so the hash that an installation has recorded. -/
theorem extracted_rehashed {archive : Archive} (canonical : archive.Canonical)
    (texts : archive.IsUtf8)
    (inverse : ∃ node, reader.decode (write archive) = some node ∧ node.Reads archive) :
    (∃ fs, extractFresh reader (write archive) = some fs ∧
      ∀ readDir, ListsDirs readDir fs → ∀ fuel ≥ archive.depth,
        narHashPath readDir fs write reader.sha256Hex fuel =
          some ("sha256:" ++ String.ofList (reader.sha256Hex (write archive)),
            (write archive).length)) ∧
    ∀ (hash : StorePathHash) (disk after : EagerFetch.Disk hash) (cache : Cache.BinaryCache)
      (transfer : EagerFetch.Transfer) (path : String),
      disk.tree path = Fs.empty → transfer.opened = .ok (write archive) →
      EagerFetch.fetchAndExtract reader cache transfer disk path = (after, .ok ()) →
      ∃ info, after.db.get path = .ok (some info) ∧
        ∀ readDir, ListsDirs readDir (after.tree path) → ∀ fuel ≥ archive.depth,
          narHashPath readDir (after.tree path) write reader.sha256Hex fuel =
            some ("sha256:" ++ info.narHash, (write archive).length) := by
  obtain ⟨node, decoded, reads⟩ := inverse
  obtain ⟨complete, wellFormed⟩ := reads.extractable canonical texts
  have built := (extract_builds_tree .stdFs node wellFormed).2 complete
  constructor
  · refine ⟨node.tree, ?_, ?_⟩
    · rw [extractFresh, decoded, ← built]
      simp [complete_extractNode, complete]
    · intro readDir lists fuel enough
      exact tree_rehashed reads canonical texts lists enough
  · intro hash disk after cache transfer path empty opened fetched
    obtain ⟨narinfo, stem, own, hashed, rfl⟩ :=
      EagerFetch.fetchInto_fresh empty opened decoded complete fetched
    have standing : (disk.put path node.tree).tree path = node.tree := by
      simp [EagerFetch.Disk.put]
    refine ⟨_, PathInfoDb.get_eq_some.mpr ⟨stem, own, AList.lookup_insert _⟩, ?_⟩
    intro readDir lists fuel enough
    have recorded : (EagerFetch.plainRecord narinfo path).narHash =
        String.ofList (reader.sha256Hex (write archive)) := by
      rw [hashed]
      exact (String.ofList_toList).symm
    rw [recorded]
    rw [standing] at lists ⊢
    exact tree_rehashed reads canonical texts lists enough

end Archives

section Greetings

def narWords (words : List String) : List UInt8 :=
  words.flatMap fun text => narString (asciiBytes text.toList)

mutual

/-- The bytes of a node in an archive. -/
def Archive.narBytes : Archive → List UInt8
  | .file executable contents =>
      narWords (["(", "type", "regular"] ++ (if executable then ["executable", ""] else []) ++
        ["contents"]) ++ narString contents ++ narWords [")"]
  | .symlink target =>
      narWords ["(", "type", "symlink", "target"] ++ narString target ++ narWords [")"]
  | .directory entries =>
      narWords ["(", "type", "directory"] ++ entries.narBytes ++ narWords [")"]

def ArchiveEntries.narBytes : ArchiveEntries → List UInt8
  | .done => []
  | .entry name node rest =>
      narWords ["entry", "(", "name"] ++ narString name ++ narWords ["node"] ++ node.narBytes ++
        narWords [")"] ++ rest.narBytes

end

def narFile (archive : Archive) : List UInt8 := narWords ["nix-archive-1"] ++ archive.narBytes

/-- An executable file and a link to it. -/
def greetings : Archive :=
  .directory (.entry (utf8 "hello".toList) (.file true (asciiBytes "hello".toList))
    (.entry (utf8 "hi".toList) (.symlink (utf8 "hello".toList)) .done))

def greetingsNode : NarNode :=
  .directory (.entry (some "hello".toList) (.file true [asciiBytes "hello".toList] true)
    (.entry (some "hi".toList) (.symlink (some "hello".toList)) .done))

def greetingsHash : String := "83fac41a7fea8b0d840b812337945bbdf11d857d1a3cf59352e4d94aef50b44b"

def greetingsReader : Stored.ArchiveReader where
  decode := fun bytes => if bytes = narFile greetings then some greetingsNode else none
  wellFormed := by
    intro bytes node decoded
    split at decoded
    · cases decoded
      simp [greetingsNode, NarNode.WellFormed, NarEntries.WellFormed, NarEntries.names]
    · cases decoded
  sha256Hex := fun bytes => if bytes = narFile greetings then greetingsHash.toList else []

/-- The directory lists the link first. -/
def greetingsDir : RelPath → List Name := fun _ => ["hi".toList, "hello".toList]

theorem greetings_canonical : greetings.Canonical := by
  simp only [greetings, Archive.Canonical, ArchiveEntries.Canonical, ValidName,
    ArchiveEntries.names]
  decide

theorem text_read (own text : List Char) : some own = some text ↔ utf8 text = utf8 own := by
  rw [Option.some.injEq]
  constructor
  · rintro rfl
    rfl
  · intro same
    exact (utf8_injective same).symm

theorem greetingsNode_reads : greetingsNode.Reads greetings := by
  simp only [greetingsNode, greetings, NarNode.Reads, NarEntries.Reads]
  refine ⟨text_read _, ⟨trivial, ?_, trivial⟩, text_read _, text_read _, trivial⟩
  decide

theorem greetings_listed : ListsDirs greetingsDir greetingsNode.tree := by
  intro path directory
  cases path with
  | nil =>
      refine ⟨by decide, ?_⟩
      intro name
      simp only [greetingsDir, greetingsNode, List.nil_append, NarNode.tree]
      rw [NarEntries.tree_isSome_iff (by decide)]
      simp [NarEntries.names, or_comm]
  | cons name rest =>
      rw [greetingsNode, NarNode.tree, NarEntries.tree, NarEntries.tree] at directory
      split at directory
      · cases rest <;> cases directory
      · split at directory
        · cases rest <;> cases directory
        · cases directory

theorem extracted_rehashed_greetings :
    ∃ fs, extractFresh greetingsReader (narFile greetings) = some fs ∧
      narHashPath greetingsDir fs narFile greetingsReader.sha256Hex 2 =
        some ("sha256:" ++ greetingsHash, 512) := by
  have decoded : greetingsReader.decode (narFile greetings) = some greetingsNode := by
    simp only [greetingsReader, if_true]
  have texts : greetings.IsUtf8 := ⟨⟨_, rfl⟩, trivial, ⟨_, rfl⟩, ⟨_, rfl⟩, trivial⟩
  obtain ⟨fs, extracted, rehashed⟩ := (extracted_rehashed greetings_canonical texts
    ⟨greetingsNode, decoded, greetingsNode_reads⟩).1
  have built : fs = greetingsNode.tree := by
    have whole := greetingsNode_reads.extractable greetings_canonical texts
    rw [extractFresh, decoded] at extracted
    simp only [complete_extractNode, whole.1, if_true, Option.some.injEq] at extracted
    rw [← extracted]
    exact (extract_builds_tree .stdFs greetingsNode whole.2).2 whole.1
  refine ⟨fs, extracted, ?_⟩
  rw [rehashed greetingsDir (by rw [built]; exact greetings_listed) 2 (by decide)]
  have hashed : greetingsReader.sha256Hex (narFile greetings) = greetingsHash.toList := by
    simp only [greetingsReader, if_true]
  have length : (narFile greetings).length = 512 := by decide +kernel
  rw [hashed, length, String.ofList_toList]

end Greetings

end NixRedox.Nar
