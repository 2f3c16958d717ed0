import NixRedox.FileWays

set_option autoImplicit false

/- Runs of writes and removals on a file tree, location by location: what each of them
does, and what the last one at a location leaves there. -/
namespace NixRedox

/-- A file is put at a location, with a mode if it sets one, or what is there is taken
away. -/
structure Deed where
  location : Location
  put : Option (ByteArray × Option Nat)
  deriving DecidableEq

namespace FileTree

/-- A deed that went through. Missing directories above a file are made. -/
inductive Done (tree after : FileTree) : Deed → Prop where
  | put {location : Location} {contents : ByteArray} {mode : Nat} {set : Option Nat}
      (fits : ∀ own, set = some own → mode = own)
      (leaf : tree.nodeAt location ≠ some .dir)
      (written : after.nodeAt location = some (.file contents mode))
      (others : ∀ other, other ≠ location → after.nodeAt other = tree.nodeAt other ∨
        (tree.nodeAt other = none ∧ after.nodeAt other = some .dir ∧ other <+: location)) :
      Done tree after ⟨location, some (contents, set)⟩
  | take {location : Location} (leaf : tree.nodeAt location ≠ some .dir)
      (gone : Changed tree after location none) : Done tree after ⟨location, none⟩

/-- Deeds that went through one after the other. -/
inductive Ran : FileTree → List Deed → FileTree → Prop where
  | nil (tree : FileTree) : Ran tree [] tree
  | cons {tree between after : FileTree} {deed : Deed} {rest : List Deed}
      (first : Done tree between deed) (later : Ran between rest after) :
      Ran tree (deed :: rest) after

/-- What the last deed at a location puts there. -/
def lastDeed : List Deed → Location → Option (Option (ByteArray × Option Nat))
  | [], _ => none
  | deed :: rest, location =>
      (lastDeed rest location).or (if deed.location = location then some deed.put else none)

/-- Some deed is at the location. -/
def Touched (deeds : List Deed) (location : Location) : Prop := lastDeed deeds location ≠ none

instance (deeds : List Deed) (location : Location) : Decidable (Touched deeds location) :=
  inferInstanceAs (Decidable (lastDeed deeds location ≠ none))

section Deeds

variable {tree between after : FileTree} {deed : Deed} {deeds front back : List Deed}
  {location : Location} {node : Node}

theorem lastDeed_none_iff :
    lastDeed deeds location = none ↔ ∀ deed ∈ deeds, deed.location ≠ location := by
  induction deeds with
  | nil => simp [lastDeed]
  | cons deed rest ih =>
      rw [lastDeed, Option.or_eq_none_iff, ih, List.forall_mem_cons]
      constructor
      · intro ⟨later, own⟩
        refine ⟨?_, later⟩
        intro same
        rw [if_pos same] at own
        cases own
      · intro ⟨own, later⟩
        exact ⟨later, if_neg own⟩

theorem touched_iff : Touched deeds location ↔ ∃ deed ∈ deeds, deed.location = location := by
  rw [Touched, ne_eq, lastDeed_none_iff]
  push Not
  rfl

theorem untouched_iff : ¬ Touched deeds location ↔ lastDeed deeds location = none :=
  not_ne_iff

theorem lastDeed_mem {last : Option (ByteArray × Option Nat)}
    (found : lastDeed deeds location = some last) : ⟨location, last⟩ ∈ deeds := by
  induction deeds with
  | nil => cases found
  | cons deed rest ih =>
      rw [lastDeed] at found
      rcases Option.or_eq_some_iff.mp found with tail | ⟨_, head⟩
      · exact List.mem_cons_of_mem deed (ih tail)
      · split at head
        · rename_i same
          cases head
          subst same
          exact List.mem_cons_self
        · cases head

theorem touched_append :
    Touched (front ++ back) location ↔ Touched front location ∨ Touched back location := by
  simp only [touched_iff, List.mem_append, or_and_right, exists_or]

theorem Ran.append (first : Ran tree front between) (second : Ran between back after) :
    Ran tree (front ++ back) after := by
  induction first with
  | nil tree => exact second
  | cons step later ih => exact .cons step (ih second)

theorem Done.evolved (step : Done tree after deed) : Evolved (· = deed.location) tree after := by
  cases step with
  | @put own contents mode set fits leaf written others =>
      have unlinked : ∀ target, after.nodeAt own ≠ some (.symlink target) := by
        rw [written]
        nofun
      refine ⟨⟨?_, ?_⟩, ?_⟩
      · intro other found
        have differs : other ≠ own := fun same => leaf (same ▸ found)
        rcases others other differs with kept | ⟨_, made, _⟩
        · exact kept.trans found
        · exact made
      · intro other target differs found
        rcases others other differs with same | ⟨absent, _⟩
        · exact same.trans found
        · rw [absent] at found
          cases found
      · intro other target found
        have differs : other ≠ own := fun same => unlinked target (same ▸ found)
        rcases others other differs with same | ⟨_, made, _⟩
        · exact same.symm.trans found
        · rw [made] at found
          cases found
  | @take own leaf gone => exact gone.evolved rfl leaf (by nofun)

/-- A location that a deed is not at stays, or becomes a directory above a file. -/
theorem Done.elsewhere (step : Done tree after deed) (apart : deed.location ≠ location) :
    after.nodeAt location = tree.nodeAt location ∨
      (tree.nodeAt location = none ∧ after.nodeAt location = some .dir ∧
        deed.put.isSome ∧ location <+: deed.location) := by
  cases step with
  | put fits leaf written others =>
      rcases others location apart.symm with kept | ⟨absent, made, before⟩
      · exact .inl kept
      · exact .inr ⟨absent, made, rfl, before⟩
  | take leaf gone => exact .inl ((gone location).trans (if_neg apart.symm))

theorem Ran.elsewhere (run : Ran tree deeds after) (apart : lastDeed deeds location = none) :
    after.nodeAt location = tree.nodeAt location ∨
      (tree.nodeAt location = none ∧ after.nodeAt location = some .dir ∧
        ∃ deed ∈ deeds, deed.put.isSome ∧ location <+: deed.location ∧
          deed.location ≠ location) := by
  induction run with
  | nil tree => exact .inl rfl
  | @cons tree between after deed rest step later ih =>
      have each := lastDeed_none_iff.mp apart
      have tail := ih (lastDeed_none_iff.mpr fun other member =>
        each other (List.mem_cons_of_mem deed member))
      rcases step.elsewhere (each deed List.mem_cons_self) with kept | ⟨absent, made, puts, before⟩
      · rcases tail with same | ⟨absent, dir, other, member, puts, before⟩
        · exact .inl (same.trans kept)
        · exact .inr ⟨kept ▸ absent, dir, other, List.mem_cons_of_mem _ member, puts, before⟩
      · rcases tail with same | ⟨impossible, _⟩
        · exact .inr ⟨absent, same.trans made, deed, List.mem_cons_self, puts, before,
            each deed List.mem_cons_self⟩
        · rw [made] at impossible
          cases impossible

/-- A location that nothing is done at keeps its node. -/
theorem Ran.keeps (run : Ran tree deeds after) (apart : lastDeed deeds location = none)
    (present : tree.nodeAt location = some node) : after.nodeAt location = some node := by
  rcases run.elsewhere apart with same | ⟨absent, _⟩
  · exact same.trans present
  · rw [present] at absent
    cases absent

/-- Where the last deed puts a file there is its file in the end. -/
theorem Ran.put {contents : ByteArray} {set : Option Nat} (run : Ran tree deeds after)
    (last : lastDeed deeds location = some (some (contents, set))) :
    ∃ mode, (∀ own, set = some own → mode = own) ∧
      after.nodeAt location = some (.file contents mode) := by
  induction run with
  | nil tree => cases last
  | @cons tree between after deed rest step later ih =>
      rw [lastDeed] at last
      rcases Option.or_eq_some_iff.mp last with tail | ⟨none, head⟩
      · exact ih tail
      · split at head
        · rename_i same
          cases step with
          | @put own wrote mode asked fits leaf written others =>
              cases head
              cases same
              exact ⟨mode, fits, later.keeps none written⟩
          | take => cases head
        · cases head

/-- Where the last deed takes away there is nothing in the end, or a directory above a
file that was put later. -/
theorem Ran.taken (run : Ran tree deeds after) (last : lastDeed deeds location = some none) :
    after.nodeAt location = none ∨ (after.nodeAt location = some .dir ∧
      ∃ deed ∈ deeds, deed.put.isSome ∧ location <+: deed.location ∧
        deed.location ≠ location) := by
  induction run with
  | nil tree => cases last
  | @cons tree between after deed rest step later ih =>
      rw [lastDeed] at last
      rcases Option.or_eq_some_iff.mp last with tail | ⟨none, head⟩
      · rcases ih tail with absent | ⟨made, other, member, puts, before⟩
        · exact .inl absent
        · exact .inr ⟨made, other, List.mem_cons_of_mem deed member, puts, before⟩
      · split at head
        · rename_i same
          cases step with
          | put => cases head
          | @take own leaf gone =>
              cases same
              have missing := (gone own).trans (if_pos rfl)
              rcases later.elsewhere none with kept | ⟨_, made, other, member, puts, before⟩
              · exact .inl (kept.trans missing)
              · exact .inr ⟨made, other, List.mem_cons_of_mem _ member, puts, before⟩
        · cases head

theorem Evolved.mono {free wider : Location → Prop} (evolved : Evolved free tree after)
    (more : ∀ location, free location → wider location) : Evolved wider tree after :=
  ⟨⟨evolved.dirs, fun location target outside =>
    evolved.links location target fun own => outside (more location own)⟩, evolved.fresh⟩

/-- A run makes no symlinks, and takes away only those it has a deed at. -/
theorem Ran.evolved (run : Ran tree deeds after) : Evolved (Touched deeds) tree after := by
  induction run with
  | nil tree => exact .refl _ _
  | @cons tree between after deed rest step later ih =>
      refine Evolved.trans (step.evolved.mono ?_) (ih.mono ?_)
      · intro location same
        exact touched_iff.mpr ⟨deed, List.mem_cons_self, same.symm⟩
      · intro location touched
        obtain ⟨other, member, same⟩ := touched_iff.mp touched
        exact touched_iff.mpr ⟨other, List.mem_cons_of_mem deed member, same⟩

/-- There is no symlink in the end where a run has a deed. -/
theorem Ran.unlinked (run : Ran tree deeds after) (touched : Touched deeds location)
    (target : List Char) : after.nodeAt location ≠ some (.symlink target) := by
  obtain ⟨last, found⟩ := Option.ne_none_iff_exists'.mp touched
  cases last with
  | some wrote =>
      obtain ⟨mode, _, there⟩ := run.put found
      rw [there]
      nofun
  | none =>
      rcases run.taken found with absent | ⟨made, _⟩
      · rw [absent]
        nofun
      · rw [made]
        nofun

/-- Above a file that was put there is a directory in the end. -/
theorem Ran.dir_above (run : Ran tree deeds after) (member : deed ∈ deeds)
    (puts : deed.put.isSome) (below : location <+: deed.location)
    (apart : location ≠ deed.location) : after.nodeAt location = some .dir := by
  induction run with
  | nil tree => cases member
  | @cons tree between after first rest step later ih =>
      rcases List.mem_cons.mp member with same | tail
      · subst same
        cases step with
        | @put own contents mode set fits leaf written others =>
            obtain ⟨deeper, split⟩ := below
            have there : between.nodeAt (location ++ deeper) ≠ none := by
              rw [split, written]
              nofun
            apply later.evolved.dirs
            apply nodeAt_append there
            intro nothing
            rw [nothing, List.append_nil] at split
            exact apart split
        | take => cases puts
      · exact ih tail

end Deeds

end FileTree

end NixRedox
