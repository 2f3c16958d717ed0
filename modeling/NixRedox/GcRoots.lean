import NixRedox.PathInfoDb
import NixRedox.Text

set_option autoImplicit false

/- The directory of GC root symlinks (`GcRoots` of `store.rs`). -/
namespace NixRedox

structure GcRoot where
  name : String
  target : String
  deriving DecidableEq, Repr

/-- The symlinks in the roots directory, by name. -/
structure GcRoots where
  links : AList (fun _ : String => String)

namespace GcRoots

/-- The roots in the order of their names. -/
def listRoots (roots : GcRoots) : List GcRoot :=
  (roots.links.entries.map fun link => ⟨link.1, link.2⟩).insertionSort (·.name ≤ ·.name)

theorem mem_listRoots {roots : GcRoots} {root : GcRoot} :
    root ∈ roots.listRoots ↔ roots.links.lookup root.name = some root.target := by
  obtain ⟨name, target⟩ := root
  rw [listRoots, List.mem_insertionSort, List.mem_map, ← Option.mem_def, AList.mem_lookup_iff]
  constructor
  · rintro ⟨link, member, same⟩
    cases same
    exact member
  · intro member
    exact ⟨⟨name, target⟩, member, rfl⟩

/-- A link can be made under the name: it has no NUL byte and is not longer than the file
system allows, and it has no slash, which would lead out of the roots directory. -/
def linkable (nameMax : Nat) (name : String) : Bool :=
  !name.toList.contains '/' && !name.toList.contains '\x00' &&
    Text.byteLength name.toList ≤ nameMax

/-- `add_root`: check the store path, then replace the link of that name. -/
def addRoot (hash : StorePathHash) (nameMax : Nat) (roots : GcRoots) (name storePath : String) :
    Except String GcRoots :=
  match hash storePath with
  | .error reason => .error ("invalid store path: " ++ reason)
  | .ok _ =>
      if linkable nameMax name then
        .ok ⟨roots.links.insert name storePath⟩
      else
        .error "the link cannot be made"

def removeRoot (roots : GcRoots) (name : String) : Except String GcRoots :=
  if name ∈ roots.links then
    .ok ⟨roots.links.erase name⟩
  else
    .error ("GC root not found: " ++ name)

/-- Some root points at the path. -/
def Targets (roots : GcRoots) (path : String) : Prop :=
  ∃ name, roots.links.lookup name = some path

end GcRoots

end NixRedox
