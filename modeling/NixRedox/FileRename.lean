import NixRedox.FileWays

set_option autoImplicit false

/- Renaming in a file system tree, with all that is below the renamed location, and what
`std::fs` does where no symlink is on the way. -/
namespace NixRedox.FileTree

/-- Where a location is after the move of another one. -/
def relocate (source target location : Location) : Location :=
  if source <+: location then target ++ location.drop source.length else location

section Move

variable {tree : FileTree} {source target location other : Location}

theorem relocate_append (rest : Location) :
    relocate source target (source ++ rest) = target ++ rest := by
  rw [relocate, if_pos (List.prefix_append source rest), List.drop_left]

theorem relocate_other (apart : ¬ source <+: location) :
    relocate source target location = location := if_neg apart

/-- The locations kept by a move are told apart by where they are afterwards. -/
theorem relocate_injective {one two : Location} (first : ¬ target <+: one)
    (second : ¬ target <+: two)
    (same : relocate source target one = relocate source target two) : one = two := by
  by_cases below : source <+: one
  · obtain ⟨rest, rfl⟩ := below
    rw [relocate_append] at same
    by_cases also : source <+: two
    · obtain ⟨more, rfl⟩ := also
      rw [relocate_append] at same
      rw [List.append_cancel_left same]
    · rw [relocate_other also] at same
      exact absurd ⟨rest, same⟩ second
  · rw [relocate_other below] at same
    by_cases also : source <+: two
    · obtain ⟨more, rfl⟩ := also
      rw [relocate_append] at same
      exact absurd ⟨more, same.symm⟩ first
    · rwa [relocate_other also] at same

/-- Two locations of which neither is inside the other, the second in a directory. -/
structure Movable (tree : FileTree) (source target : Location) : Prop where
  named : target ≠ []
  inside : tree.nodeAt target.dropLast = some .dir
  forward : ¬ source <+: target
  backward : ¬ target <+: source

theorem mem_eraseBelow {node : Node} :
    ⟨location, node⟩ ∈ (tree.eraseBelow target).nodes.entries ↔
      ⟨location, node⟩ ∈ tree.nodes.entries ∧ ¬ target <+: location := by
  simp [eraseBelow]

/-- The entries of a tree after the move, told by those before it. -/
def movedEntries (tree : FileTree) (source target : Location) : List ((_ : Location) × Node) :=
  (tree.eraseBelow target).nodes.entries.map fun entry =>
    ⟨relocate source target entry.1, entry.2⟩

theorem movedEntries_nodupKeys (tree : FileTree) (source target : Location) :
    (movedEntries tree source target).NodupKeys := by
  have keys : (movedEntries tree source target).keys =
      (tree.eraseBelow target).nodes.entries.keys.map (relocate source target) := by
    simp [movedEntries, List.keys, Function.comp_def]
  have kept : ∀ location ∈ (tree.eraseBelow target).nodes.entries.keys, ¬ target <+: location := by
    intro location member
    obtain ⟨entry, listed, rfl⟩ := List.mem_map.mp member
    exact (mem_eraseBelow.mp listed).2
  rw [List.NodupKeys, keys]
  apply List.Nodup.map_on ?_ (tree.eraseBelow target).nodes.nodupKeys
  intro one first two second same
  exact relocate_injective (kept one first) (kept two second) same

theorem mem_movedEntries {node : Node} (movable : Movable tree source target) :
    ⟨other, node⟩ ∈ movedEntries tree source target ↔
      (∃ rest, other = target ++ rest ∧ ⟨source ++ rest, node⟩ ∈ tree.nodes.entries) ∨
        (¬ target <+: other ∧ ¬ source <+: other ∧ ⟨other, node⟩ ∈ tree.nodes.entries) := by
  simp only [movedEntries, List.mem_map]
  constructor
  · rintro ⟨⟨location, own⟩, member, same⟩
    obtain ⟨listed, apart⟩ := mem_eraseBelow.mp member
    obtain ⟨rfl, rfl⟩ := Sigma.mk.inj same
    by_cases below : source <+: location
    · obtain ⟨rest, rfl⟩ := below
      exact .inl ⟨rest, relocate_append rest, listed⟩
    · rw [relocate_other below]
      exact .inr ⟨apart, below, listed⟩
  · rintro (⟨rest, rfl, listed⟩ | ⟨apart, below, listed⟩)
    · refine ⟨⟨source ++ rest, node⟩, mem_eraseBelow.mpr ⟨listed, ?_⟩, by rw [relocate_append]⟩
      intro front
      rcases List.prefix_or_prefix_of_prefix front (List.prefix_append source rest) with one | two
      · exact movable.backward one
      · exact movable.forward two
    · exact ⟨⟨other, node⟩, mem_eraseBelow.mpr ⟨listed, apart⟩, by rw [relocate_other below]⟩

/-- Put what is at and below one location in the place of another. -/
def moveTo (tree : FileTree) (source target : Location) (movable : Movable tree source target) :
    FileTree where
  nodes := ⟨movedEntries tree source target, movedEntries_nodupKeys tree source target⟩
  placed := by
    intro location node found
    have moved : ∀ other : Location, ⟨other, .dir⟩ ∈ movedEntries tree source target →
        (⟨movedEntries tree source target, movedEntries_nodupKeys tree source target⟩ :
          AList fun _ : Location => Node).lookup other = some .dir :=
      fun _ member => AList.mem_lookup_iff.mpr member
    rcases (mem_movedEntries movable).mp (AList.mem_lookup_iff.mp found) with
      ⟨rest, rfl, listed⟩ | ⟨apart, below, listed⟩
    · refine ⟨List.append_ne_nil_of_left_ne_nil movable.named rest, ?_⟩
      rcases List.eq_nil_or_concat' rest with rfl | ⟨more, name, rfl⟩
      · rw [List.append_nil]
        rcases nodeAt_eq_some.mp movable.inside with ⟨top, _⟩ | parent
        · exact .inl top
        · refine .inr (moved _ ((mem_movedEntries movable).mpr (.inr ⟨?_, ?_, parent⟩)))
          · intro front
            exact ne_dropLast movable.named
              ((List.dropLast_prefix target).eq_of_length_le front.length_le)
          · intro front
            exact movable.forward (front.trans (List.dropLast_prefix target))
      · have lower := tree.placed (source ++ (more ++ [name])) node (AList.mem_lookup_iff.mpr listed)
        rw [← List.append_assoc, List.dropLast_concat] at lower
        rw [← List.append_assoc, List.dropLast_concat]
        rcases lower.2 with top | parent
        · have root : source = [] := (List.append_eq_nil_iff.mp top).1
          exact absurd (root ▸ List.nil_prefix) movable.forward
        · exact .inr (moved _ ((mem_movedEntries movable).mpr
            (.inl ⟨more, rfl, AList.mem_lookup_iff.mp parent⟩)))
    · obtain ⟨lower, parent⟩ := tree.placed location node (AList.mem_lookup_iff.mpr listed)
      refine ⟨lower, parent.imp_right fun directory => ?_⟩
      refine moved _ ((mem_movedEntries movable).mpr
        (.inr ⟨?_, ?_, AList.mem_lookup_iff.mp directory⟩))
      · intro front
        exact apart (front.trans (List.dropLast_prefix location))
      · intro front
        exact below (front.trans (List.dropLast_prefix location))

theorem Movable.source_ne_nil (movable : Movable tree source target) : source ≠ [] := by
  rintro rfl
  exact movable.forward List.nil_prefix

/-- What is below the old place is below the new one. -/
theorem moveTo_nodeAt_target (movable : Movable tree source target) (rest : Location) :
    (tree.moveTo source target movable).nodeAt (target ++ rest) =
      tree.nodeAt (source ++ rest) := by
  have below : target ++ rest ≠ [] := List.append_ne_nil_of_left_ne_nil movable.named rest
  have old : source ++ rest ≠ [] := List.append_ne_nil_of_left_ne_nil movable.source_ne_nil rest
  apply Option.ext
  intro node
  rw [nodeAt_eq_some, nodeAt_eq_some]
  simp only [below, old, false_and, false_or]
  show _ ∈ movedEntries tree source target ↔ _
  rw [mem_movedEntries movable]
  simp

theorem moveTo_nodeAt_other (movable : Movable tree source target) (apart : ¬ target <+: other) :
    (tree.moveTo source target movable).nodeAt other =
      if source <+: other then none else tree.nodeAt other := by
  by_cases root : other = []
  · subst root
    rw [if_neg (by simpa using movable.source_ne_nil)]
    rfl
  · have elsewhere : ∀ rest, other ≠ target ++ rest := fun rest same => apart ⟨rest, same.symm⟩
    apply Option.ext
    intro node
    rw [nodeAt_eq_some]
    simp only [root, false_and, false_or]
    show _ ∈ movedEntries tree source target ↔ _
    rw [mem_movedEntries movable]
    split
    · rename_i below
      simp [elsewhere, below]
    · rename_i below
      rw [nodeAt_eq_some]
      simp [elsewhere, below, apart, root]

/-- `fs::rename`, with all that is below. A directory replaces only an empty one, and no
other node replaces a directory. -/
def rename (tree : FileTree) (old new : Location) : Except String FileTree :=
  match tree.place old, placed : tree.place new with
  | some source, some target =>
      if tree.nodeAt source = none then
        .error "No such file or directory"
      else if source = target then
        .ok tree
      else if forward : source <+: target then
        .error "Invalid argument"
      else if tree.nodeAt target = some .dir ∧ tree.nodeAt source ≠ some .dir then
        .error "Is a directory"
      else if tree.nodeAt target ≠ none ∧ tree.nodeAt target ≠ some .dir ∧
          tree.nodeAt source = some .dir then
        .error "Not a directory"
      else if backward : target <+: source ∨ tree.children target ≠ [] then
        .error "Directory not empty"
      else
        .ok (tree.moveTo source target
          ⟨(place_inside placed).1, (place_inside placed).2, forward, fun front =>
            backward (.inl front)⟩)
  | _, _ => .error "No such file or directory"

/-- What was at and below one location is at and below another. -/
structure Moved (tree after : FileTree) (source target : Location) : Prop where
  there : tree.nodeAt source ≠ none
  below : ∀ rest, after.nodeAt (target ++ rest) = tree.nodeAt (source ++ rest)
  elsewhere : ∀ other, ¬ target <+: other →
    after.nodeAt other = if source <+: other then none else tree.nodeAt other

variable {after : FileTree} {old new : Location}

theorem rename_moved (placedOld : tree.place old = some source)
    (placedNew : tree.place new = some target) (differ : source ≠ target)
    (renamed : tree.rename old new = .ok after) : Moved tree after source target := by
  unfold rename at renamed
  split at renamed
  · rename_i from_ to_ first second
    rw [placedOld, Option.some.injEq] at first
    have last : target = to_ := Option.some.inj (placedNew.symm.trans second)
    subst first last
    split at renamed
    · cases renamed
    · rename_i there
      split at renamed
      · cases renamed
      · split at renamed
        · cases renamed
        · split at renamed
          · cases renamed
          · split at renamed
            · cases renamed
            · cases renamed
              exact ⟨there, moveTo_nodeAt_target _, fun _ => moveTo_nodeAt_other _⟩
  · cases renamed

/-- Nothing stands in the way of a rename to a free place. -/
theorem rename_free (placedOld : tree.place old = some source)
    (placedNew : tree.place new = some target) (there : tree.nodeAt source ≠ none)
    (free : tree.nodeAt target = none) (forward : ¬ source <+: target) :
    ∃ after, tree.rename old new = .ok after := by
  have differ : source ≠ target := fun same => there (same ▸ free)
  have empty : tree.children target = [] := by
    rw [List.eq_nil_iff_forall_not_mem]
    intro ⟨name, node⟩ child
    have found := mem_children.mp child
    have inside : tree.nodeAt (target ++ [name]) ≠ none := by
      rw [found]
      exact Option.some_ne_none _
    exact nodeAt_of_prefix inside (List.prefix_append target [name]) free
  have backward : ¬ target <+: source := fun front => nodeAt_of_prefix there front free
  unfold rename
  split
  · rename_i from_ to_ first second
    rw [placedOld, Option.some.injEq] at first
    have last : target = to_ := Option.some.inj (placedNew.symm.trans second)
    subst first last
    simp [there, differ, forward, free, backward, empty]
  · rename_i none_
    exact absurd placedNew (none_ source target placedOld)

end Move

section Straight

variable {tree after : FileTree} {directory path : Location}

/-- Without a symlink on the way, a name is in the directory the path names. -/
theorem place_unlinked (unlinked : Unlinked tree [] directory) (name : List Char) :
    tree.place (directory ++ [name]) =
      if tree.nodeAt directory = some .dir then some (directory ++ [name]) else none := by
  rw [place, List.getLast?_concat, List.dropLast_concat, follow_unlinked unlinked]
  by_cases absent : tree.nodeAt directory = none
  · simp [absent]
  · simp [absent]

/-- A rename that works moves what is there, where both directories are named without
symlinks. -/
theorem rename_unlinked {source target : List Char} {above : Location}
    (first : Unlinked tree [] above) (second : Unlinked tree [] directory)
    (differ : above ++ [source] ≠ directory ++ [target])
    (renamed : tree.rename (above ++ [source]) (directory ++ [target]) = .ok after) :
    Moved tree after (above ++ [source]) (directory ++ [target]) := by
  have placedOld := place_unlinked first source
  have placedNew := place_unlinked second target
  by_cases inside : tree.nodeAt above = some .dir
  · by_cases also : tree.nodeAt directory = some .dir
    · rw [if_pos inside] at placedOld
      rw [if_pos also] at placedNew
      exact rename_moved placedOld placedNew differ renamed
    · rw [if_neg also] at placedNew
      unfold rename at renamed
      split at renamed
      · rename_i found
        rw [placedNew] at found
        cases found
      · cases renamed
  · rw [if_neg inside] at placedOld
    unfold rename at renamed
    split at renamed
    · rename_i found _
      rw [placedOld] at found
      cases found
    · cases renamed

theorem symlinkMetadata_unlinked (unlinked : Unlinked tree [] directory) (name : List Char) :
    tree.symlinkMetadata (directory ++ [name]) = tree.nodeAt (directory ++ [name]) := by
  rw [symlinkMetadata, place_unlinked unlinked]
  split
  · rfl
  · rename_i none_
    by_contra there
    exact none_ (nodeAt_append (Ne.symm there) (List.cons_ne_nil _ _))

/-- Nodes that vanish or become directories bring no symlink into the way. -/
theorem Unlinked.of_nodes (unlinked : Unlinked tree [] path)
    (nodes : ∀ front, front <+: path → after.nodeAt front = tree.nodeAt front ∨
      after.nodeAt front = none ∨ after.nodeAt front = some .dir) : Unlinked after [] path := by
  intro front some_ before target found
  rw [List.nil_append] at found
  rcases nodes front before with same | gone | made
  · exact unlinked front some_ before target (same ▸ found)
  · rw [gone] at found
    cases found
  · rw [made] at found
    cases found

theorem Grown.mono {longer : Location} (grown : Grown tree after path)
    (before : path <+: longer) : Grown tree after longer := by
  intro other
  rcases grown other with same | ⟨absent, made, front⟩
  · exact .inl same
  · exact .inr ⟨absent, made, front.trans before⟩

theorem Grown.unlinked (grown : Grown tree after directory) (unlinked : Unlinked tree [] path) :
    Unlinked after [] path := by
  apply unlinked.of_nodes
  intro front _
  rcases grown front with same | ⟨_, made, _⟩
  · exact .inl same
  · exact .inr (.inr made)

/-- `create_dir_all` makes directories on the way to its path, however it ends. -/
theorem createDirAllRev_grown (names : Location) (unlinked : Unlinked tree [] names.reverse) :
    Grown tree (tree.createDirAllRev names).1 names.reverse := by
  induction names with
  | nil => exact .refl tree []
  | cons name above ih =>
      rw [List.reverse_cons] at unlinked ⊢
      have short : Unlinked tree [] above.reverse := fun front some_ before =>
        unlinked front some_ (before.trans (List.prefix_append _ _))
      have grown := ih short
      have longer : Grown tree (tree.createDirAllRev above).1 (above.reverse ++ [name]) :=
        grown.mono (List.prefix_append _ _)
      rw [createDirAllRev, List.reverse_cons]
      split
      · exact .refl tree _
      · split
        · rename_i made reason step
          rw [step] at longer
          exact longer
        · rename_i made step
          rw [step] at grown longer
          split
          · rename_i final last
            obtain ⟨location, placed, free, changed⟩ := mkdir_changed last
            rw [place_unlinked (grown.unlinked short)] at placed
            split at placed
            · cases placed
              intro other
              rw [changed other]
              split
              · rename_i same
                subst same
                rcases longer (above.reverse ++ [name]) with unchanged | ⟨absent, _, _⟩
                · exact .inr ⟨unchanged.symm.trans free, rfl, List.prefix_rfl⟩
                · exact .inr ⟨absent, rfl, List.prefix_rfl⟩
              · exact longer other
            · cases placed
          · exact longer

theorem createDirAll_grown (unlinked : Unlinked tree [] path) :
    Grown tree (tree.createDirAll path).1 path := by
  have reversed := List.reverse_reverse path
  rw [← reversed] at unlinked
  have grown := createDirAllRev_grown path.reverse unlinked
  rwa [reversed] at grown

end Straight

end NixRedox.FileTree
