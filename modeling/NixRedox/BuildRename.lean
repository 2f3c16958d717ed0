import NixRedox.BuildContainment
import NixRedox.StepRuns

set_option autoImplicit false

/- Renames and the permissions of open handles: when the path a writable handle is
moved to is still writable. -/
namespace NixRedox.BuildProxy.BuildFsHandler

open StepRuns (EachMeets Throughout eachMeets_cons eachMeets_nil throughout_iff_eachMeets)
open UnixPath (PathBuf joinComponents climbs components)

/-- A request together with the replies the worker gives to it. -/
abbrev Exchange := BuildFsIoWorker × Request

/-- The handler after a request; `none` when it is never answered. -/
def advance (handler : BuildFsHandler) (exchange : Exchange) : Option BuildFsHandler :=
  (handler.serve exchange.1 exchange.2).map Outcome.handler

/-- No symlinks, and every rename the worker is asked for is carried out. -/
structure Renaming (worker : BuildFsIoWorker) : Prop where
  symlinkFree : worker.SymlinkFree
  renames : ∀ oldPath newPath, worker.renamePath oldPath newPath = .ok ()

/-- A rename takes no writable handle out of the writable entries. Only a handle
whose path climbs back out of the renamed one with `..` is at risk. -/
def Harmless (handler : BuildFsHandler) : Request → Prop
  | .frename id path =>
      handler.allowList.check (resolvePath path) = .readWrite →
      ∀ source, handler.handles.lookup id = some source →
      ∀ other file rest, handler.handles.lookup other = some (.file file) →
        file.writable = true → file.realPath = source.realPath ++ rest → climbs 0 rest = true →
        handler.allowList.check (joinComponents (resolvePath path) rest) = .readWrite
  | _ => True

section Renames

variable {worker : BuildFsIoWorker} {handler : BuildFsHandler}

/-- Where a rename leaves the path of a handle. -/
theorem renamed_append (oldRoot newRoot rest : PathBuf) :
    renamed oldRoot newRoot (oldRoot ++ rest) =
      if rest = [] then newRoot else joinComponents newRoot rest := by
  have stripped : UnixPath.stripPrefix (oldRoot ++ rest) oldRoot = some rest :=
    UnixPath.stripPrefix_eq_some.mpr rfl
  simp only [renamed, rewritePathPrefix, stripped, Option.map_some, Option.getD_some]

theorem renamed_elsewhere {oldRoot path : PathBuf} (newRoot : PathBuf)
    (apart : ¬ oldRoot <+: path) : renamed oldRoot newRoot path = path := by
  have outside : UnixPath.stripPrefix path oldRoot = none := by
    simp [UnixPath.stripPrefix, apart]
  simp only [renamed, rewritePathPrefix, outside, Option.map_none, Option.getD_none]

/-- The handles after a rename that was carried out. -/
theorem frename_renames (faithful : Renaming worker) {id : Nat} {path : List Char}
    {source : ProxyHandle} (found : handler.handles.lookup id = some source)
    (target : handler.allowList.check (resolvePath path) = .readWrite) :
    (handler.frename worker id path).handler =
      handler.rewriteOpenHandlePaths source.realPath (resolvePath path) source.schemePath
        (components (Text.trimMatches path)) := by
  simp [frename, target, found, faithful.renames]

theorem frename_refused {id : Nat} {path : List Char}
    (refused : handler.allowList.check (resolvePath path) ≠ .readWrite ∨
      handler.handles.lookup id = none) :
    (handler.frename worker id path).handler = handler := by
  unfold frename
  dsimp only
  split
  · rfl
  · rename_i target
    rcases refused with denied | closed
    · exact False.elim (target denied)
    · simp only [closed, fail]

/-- A handle that does not climb out of the renamed path stays writable. -/
theorem renamed_writable {oldRoot newRoot path : PathBuf}
    (target : handler.allowList.check newRoot = .readWrite)
    (before : handler.allowList.check path = .readWrite)
    (carried : ∀ rest, path = oldRoot ++ rest → climbs 0 rest = true →
      handler.allowList.check (joinComponents newRoot rest) = .readWrite) :
    handler.allowList.check (renamed oldRoot newRoot path) = .readWrite := by
  by_cases below : oldRoot <+: path
  · obtain ⟨rest, rfl⟩ := below
    by_cases climbing : climbs 0 rest = true
    · have nonempty : rest ≠ [] := by
        rintro rfl
        cases climbing
      rw [renamed_append]
      simpa only [nonempty, ↓reduceIte] using carried rest rfl climbing
    · have lands : rewritePathPrefix (oldRoot ++ rest) oldRoot newRoot =
          some (renamed oldRoot newRoot (oldRoot ++ rest)) := by
        simp [renamed, rewritePathPrefix, UnixPath.stripPrefix]
      apply rewritePathPrefix_writable target _ lands
      intro tail same
      rw [← List.append_cancel_left same]
      simpa using climbing
  · rw [renamed_elsewhere newRoot below]
    exact before

/-- A rename keeps the writable handles exactly when it is harmless. -/
theorem frename_writableHandles (faithful : Renaming worker) (kept : handler.WritableHandles)
    (id : Nat) (path : List Char) :
    (handler.frename worker id path).handler.WritableHandles ↔
      handler.Harmless (.frename id path) := by
  by_cases target : handler.allowList.check (resolvePath path) = .readWrite
  · cases found : handler.handles.lookup id with
    | none =>
        rw [frename_refused (Or.inr found)]
        exact ⟨fun _ _ source present => by simp [found] at present, fun _ => kept⟩
    | some source =>
        rw [frename_renames faithful found target]
        constructor
        · intro still _ other present reached file rest opened writable placed climbing
          cases found.symm.trans present
          have moved := still reached
            { file with
              realPath := renamed source.realPath (resolvePath path) file.realPath
              schemePath := renamed source.schemePath (components (Text.trimMatches path))
                file.schemePath }
            (by simp [rewriteOpenHandlePaths, lookup_mapValues, opened, rewriteHandle]) writable
          have nonempty : rest ≠ [] := by
            rintro rfl
            cases climbing
          simpa only [rewriteOpenHandlePaths, placed, renamed_append, nonempty, ↓reduceIte] using moved
        · intro harmless other file moved writable
          have before : ∃ old, handler.handles.lookup other = some old ∧
              rewriteHandle source.realPath (resolvePath path) source.schemePath
                (components (Text.trimMatches path)) old = .file file := by
            simpa [rewriteOpenHandlePaths, lookup_mapValues] using moved
          obtain ⟨old, present, rewritten⟩ := before
          cases old with
          | dir directory => cases rewritten
          | file old =>
              cases rewritten
              apply renamed_writable target (kept other old present writable)
              intro rest placed climbing
              exact harmless target source found other old rest present writable placed climbing
  · rw [frename_refused (Or.inl target)]
    exact ⟨fun _ checked => False.elim (target checked), fun _ => kept⟩

/-- Only a rename can change what the invariant says. -/
theorem serve_writableHandles (faithful : Renaming worker) (kept : handler.WritableHandles)
    {request : Request} {outcome : Outcome} (served : handler.serve worker request = some outcome) :
    outcome.handler.WritableHandles ↔ handler.Harmless request := by
  have others : Guarded worker handler request → handler.Harmless request →
      (outcome.handler.WritableHandles ↔ handler.Harmless request) := by
    intro guarded harmless
    have sound := serve_sound faithful.symlinkFree kept guarded served
    exact ⟨fun _ => harmless, fun _ => sound.writable⟩
  cases request with
  | frename id path =>
      cases served
      exact frename_writableHandles faithful kept id path
  | mmapPrep id offset size flags =>
      cases served
      refine ⟨fun _ => trivial, fun _ => ?_⟩
      unfold mmapPrep
      split
      · dsimp only
        split <;> exact kept
      · exact kept
      · exact kept
  | _ => exact others trivial trivial

end Renames

/-- In a run from the empty table every writable handle stays on a writable path,
in every state, exactly when every rename is harmless. -/
theorem throughout_writableHandles (allowList : AllowList) (exchanges : List Exchange)
    (faithful : ∀ exchange ∈ exchanges, Renaming exchange.1) :
    Throughout advance WritableHandles (new allowList) exchanges ↔
      EachMeets advance (fun handler exchange => handler.Harmless exchange.2) (new allowList)
        exchanges := by
  have within : EachMeets advance (fun _ exchange => Renaming exchange.1) (new allowList)
      exchanges := by
    intro done exchange rest before split _
    exact faithful exchange (split ▸ by simp)
  apply throughout_iff_eachMeets _ _ (initial_writableHandles Initial.new).2 within
  · intro handler exchange _ unanswered
    have unserved := Option.map_eq_none_iff.mp unanswered
    cases request : exchange.2 with
    | frename id path =>
        rw [request] at unserved
        cases unserved
    | _ => trivial
  · intro handler exchange next kept faithful advanced
    obtain ⟨outcome, served, rfl⟩ := Option.map_eq_some_iff.mp advanced
    exact serve_writableHandles faithful kept served

theorem plainWorker_renaming : Renaming plainWorker :=
  ⟨plainWorker_symlinkFree, fun _ _ => rfl⟩

/-- A file is created in the output and renamed there. -/
theorem throughout_writableHandles_output :
    Throughout advance WritableHandles (new sandbox)
      [(plainWorker, .openat 0 "out/a".toList (O_RDWR ||| O_CREAT)),
        (plainWorker, .frename 1 "/out/b".toList)] := by
  have created : (new sandbox).serve plainWorker
      (.openat 0 "out/a".toList (O_RDWR ||| O_CREAT)) =
        some ⟨.ok (.opened 1), holding "out/a" true, _⟩ := rfl
  apply (throughout_writableHandles sandbox _ ?_).mpr
  · refine eachMeets_cons.mpr ⟨trivial, ?_⟩
    intro next advanced
    obtain ⟨outcome, served, rfl⟩ := Option.map_eq_some_iff.mp advanced
    cases created.symm.trans served
    refine eachMeets_cons.mpr ⟨?_, fun _ _ => eachMeets_nil⟩
    intro _ source found other file rest present _ placed climbing
    cases holding_only found
    cases holding_only present
    have empty : rest = [] := List.self_eq_append_right.mp placed
    subst empty
    cases climbing
  · intro exchange member
    simp only [List.mem_cons, List.not_mem_nil, or_false] at member
    rcases member with rfl | rfl <;> exact plainWorker_renaming

/-- A file is opened through a directory with `..`; renaming that directory one
level up leaves the handle outside the writable entries. -/
theorem frename_leaves_output :
    Renaming plainWorker ∧ ¬ Throughout advance WritableHandles (new sandbox)
      [(plainWorker, .openat 0 "out/a/b/../../f".toList (O_RDWR ||| O_CREAT)),
        (plainWorker, .openat 0 "out/a/b".toList (O_RDONLY ||| O_DIRECTORY)),
        (plainWorker, .frename 2 "/out/c".toList)] := by
  refine ⟨plainWorker_renaming, ?_⟩
  intro always
  have moved := always _ [] _ (List.append_nil _) rfl 1
    (plainFile "out/c/../../f" true) rfl rfl
  exact absurd moved (by decide +kernel)

end NixRedox.BuildProxy.BuildFsHandler
