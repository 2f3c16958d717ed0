import NixRedox.UnixPath

set_option autoImplicit false

/- Path-based access control of the build proxy (`build_proxy/allow_list.rs`). -/
namespace NixRedox.BuildProxy

open UnixPath (PathBuf cleanPath)

inductive Permission where
  | denied
  | readOnly
  | readWrite
  deriving DecidableEq, Repr

structure AllowList where
  readOnly : List PathBuf
  readWrite : List PathBuf
  deriving Repr

/-- `path` is, after lexical cleaning, equal to or a child of `entry`. -/
def pathMatchesPrefix (path entry : PathBuf) : Bool :=
  entry.isPrefixOf (cleanPath path)

namespace AllowList

/-- Read-write entries take priority. -/
def check (list : AllowList) (path : PathBuf) : Permission :=
  if list.readWrite.any (pathMatchesPrefix path) then
    .readWrite
  else if list.readOnly.any (pathMatchesPrefix path) then
    .readOnly
  else
    .denied

def canRead (list : AllowList) (path : PathBuf) : Bool := list.check path ≠ .denied

def canWrite (list : AllowList) (path : PathBuf) : Bool := list.check path = .readWrite

def allPrefixes (list : AllowList) : List PathBuf := list.readOnly ++ list.readWrite

theorem check_eq_readWrite (list : AllowList) (path : PathBuf) :
    list.check path = .readWrite ↔ ∃ entry ∈ list.readWrite, entry <+: cleanPath path := by
  have matched : list.readWrite.any (pathMatchesPrefix path) = true ↔
      ∃ entry ∈ list.readWrite, entry <+: cleanPath path := by
    simp only [List.any_eq_true, pathMatchesPrefix, List.isPrefixOf_iff_prefix]
  rw [← matched]
  unfold check
  split
  · simp [*]
  · split <;> simp [*]

theorem canWrite_iff (list : AllowList) (path : PathBuf) :
    list.canWrite path = true ↔ list.check path = .readWrite := by
  simp [canWrite]

/-- Write permission covers everything below that does not climb back out. -/
theorem check_append {list : AllowList} {base rest : PathBuf}
    (writable : list.check base = .readWrite) (stays : UnixPath.climbs 0 rest = false) :
    list.check (base ++ rest) = .readWrite := by
  obtain ⟨entry, member, front⟩ := (list.check_eq_readWrite base).mp writable
  exact (list.check_eq_readWrite _).mpr
    ⟨entry, member, front.trans (UnixPath.cleanPath_append_prefix base rest stays)⟩

end AllowList

end NixRedox.BuildProxy
