import NixRedox.Attempts
import NixRedox.InitScripts
import NixRedox.KahnLayers
import NixRedox.StringSplits

set_option autoImplicit false

/- The order in which services start, and the units their dependencies become. -/
namespace NixRedox.InitScripts

open AttrSets (lookup_ofEntries ofEntries)
open Attempts (bind_eq_ok exists_left exists_right mapM_eq_ok mapM_succeeds map_eq_ok)
open Kahn (Graph)
open KeyedMap (lookup_of_mem mem_of_lookup)
open Relation (TransGen)
open StringSplits (first_segment)

/-- Every entry of a service's `after` is a service. -/
def AfterKnown (declared : ServiceSet) : Prop :=
  ∀ name svc, declared.lookup name = some svc →
    ∀ dep ∈ svc.after, ∃ other, declared.lookup dep = some other

def Cyclic (declared : ServiceSet) : Prop :=
  ∃ name, TransGen (fun name dep => dep ∈ after declared name) name name

section Names

variable {declared : ServiceSet} {name : String} {svc : Service}

theorem mem_serviceNames :
    name ∈ serviceNames declared ↔ ∃ svc, declared.lookup name = some svc := by
  simp [serviceNames, Serde.mem_sortedMembers]

theorem after_of_lookup (present : declared.lookup name = some svc) :
    after declared name = svc.after := by
  simp [after, present]

theorem mem_after {dep : String} (listed : dep ∈ after declared name) :
    ∃ svc, declared.lookup name = some svc ∧ dep ∈ svc.after := by
  unfold after at listed
  split at listed
  · exact ⟨_, ‹_›, listed⟩
  · cases listed

theorem validateAfterRefs_ok :
    validateAfterRefs declared = .ok () ↔ AfterKnown declared := by
  have empty : afterErrors declared = [] ↔ AfterKnown declared := by
    simp [afterErrors, AfterKnown, Serde.mem_sortedMembers, ← ne_eq, Option.ne_none_iff_exists']
  rw [← empty, ← List.isEmpty_iff]
  unfold validateAfterRefs
  split
  · simp [*]
  · simp [*]

/-- The services and what each comes after. -/
def serviceGraph (declared : ServiceSet) (known : AfterKnown declared) : Graph String where
  nodes := serviceNames declared
  deps := after declared
  distinct := Serde.sortedMembers_nodup declared
  closed := by
    intro name _ dep listed
    obtain ⟨svc, present, inside⟩ := mem_after listed
    exact mem_serviceNames.mpr (known name svc present dep inside)

theorem serviceGraph_acyclic (known : AfterKnown declared) :
    (serviceGraph declared known).Acyclic ↔ ¬ Cyclic declared := by
  constructor
  · rintro acyclic ⟨name, cycle⟩
    obtain ⟨dep, listed, _⟩ := TransGen.head'_iff.mp cycle
    obtain ⟨svc, present, _⟩ := mem_after listed
    exact acyclic name (mem_serviceNames.mpr ⟨svc, present⟩) cycle
  · intro none_ name _ cycle
    exact none_ ⟨name, cycle⟩

end Names

section Rounds

variable {declared : ServiceSet} {known : AfterKnown declared}
  {remaining result : List String} {degrees : String → Int}

/-- The degrees count what is still outstanding. -/
def Counted (graph : Graph String) (remaining : List String) (degrees : String → Int)
    (result : List String) : Prop :=
  ∀ name ∈ remaining, degrees name = graph.outstanding result name

theorem readyNodes_eq
    (counted : Counted (serviceGraph declared known) remaining degrees result) :
    readyNodes remaining degrees =
      ((serviceGraph declared known).layer result remaining).mergeSort (· ≤ ·) := by
  unfold readyNodes Graph.layer
  congr 1
  apply List.filter_congr
  intro name inside
  rw [counted name inside]
  simp

theorem newRemaining_eq (remaining ready : List String) :
    newRemaining remaining ready = remaining.filter fun name => name ∉ ready := by
  simp [newRemaining]

theorem Counted.start :
    Counted (serviceGraph declared known) (serviceNames declared) (inDegree declared) [] := by
  intro name _
  rw [Graph.outstanding_nil]
  rfl

theorem Counted.step {ready : List String}
    (counted : Counted (serviceGraph declared known) remaining degrees result)
    (fresh : ∀ name ∈ ready, name ∉ result) :
    Counted (serviceGraph declared known) (newRemaining remaining ready)
      (newDegrees declared ready degrees) (result ++ ready) := by
  intro name inside
  have before := counted name (List.mem_of_mem_filter inside)
  have less := (serviceGraph declared known).outstanding_append fresh name
  have settled : ((after declared name).filter ready.contains).length =
      ((serviceGraph declared known).deps name).countP (· ∈ ready) := by
    rw [← List.countP_eq_length_filter]
    apply List.countP_congr
    simp
  rw [newDegrees, before, settled]
  omega

/-- What every round preserves holds of the whole run; a run fails only at a cycle. -/
theorem kahnStep_run (known : AfterKnown declared) (inv : List String → List String → Prop)
    (step : ∀ result remaining,
      (serviceGraph declared known).Layered result remaining → inv result remaining →
        inv (result ++
            ((serviceGraph declared known).layer result remaining).mergeSort (· ≤ ·))
          (remaining.filter fun name =>
            name ∉ ((serviceGraph declared known).layer result remaining).mergeSort (· ≤ ·)))
    (layered : (serviceGraph declared known).Layered result remaining)
    (counted : Counted (serviceGraph declared known) remaining degrees result)
    (holds : inv result remaining) :
    (∃ order, kahnStep declared remaining degrees result = .ok order ∧
        (serviceGraph declared known).Layered order [] ∧ inv order []) ∨
      ∃ e, kahnStep declared remaining degrees result = .error e ∧
        ¬ (serviceGraph declared known).Acyclic := by
  fun_induction kahnStep declared remaining degrees result with
  | case1 degrees result => exact .inl ⟨result, rfl, layered, holds⟩
  | case2 remaining degrees result some_ stuck =>
      refine .inr ⟨_, rfl, ?_⟩
      intro acyclic
      apply layered.progress acyclic some_
      rw [readyNodes_eq counted] at stuck
      exact List.length_eq_zero_iff.mp (by rw [← List.length_mergeSort, stuck, List.length_nil])
  | case3 remaining degrees result some_ moved ready ih =>
      have same := readyNodes_eq counted
      have perm : ready.Perm ((serviceGraph declared known).layer result remaining) := by
        rw [show ready = _ from same]
        exact List.mergeSort_perm _ _
      have fresh : ∀ name ∈ ready, name ∉ result := by
        intro name inside
        exact layered.fresh (List.mem_of_mem_filter (perm.mem_iff.mp inside))
      have next := step result remaining layered holds
      rw [← same] at next
      apply ih
      · rw [newRemaining_eq]
        exact layered.step perm
      · exact counted.step fresh
      · rwa [newRemaining_eq]

end Rounds

section Numbers

variable {declared : ServiceSet} {numbered : List Numbered} {entry : Numbered}

theorem numberedService_ok {count idx : Nat} {name : String}
    (made : numberedService declared count idx name = .ok entry) :
    entry.name = name ∧ declared.lookup name = some entry.service ∧
      entry.num = (if entry.service.priority ≠ 50 then entry.service.priority
        else autoNum count idx) ∧ entry.numStr = numStr entry.num := by
  obtain ⟨svc, found, same⟩ := bind_eq_ok.mp made
  cases same
  refine ⟨rfl, ?_, rfl, rfl⟩
  unfold getAttr at found
  split at found
  · cases found
    assumption
  · cases found

theorem getAttr_ok {α : Type} {set : AList fun _ : String => α} {name : String} {value : α} :
    getAttr set name = .ok value ↔ set.lookup name = some value := by
  unfold getAttr
  split <;> simp [*]

theorem autoNumbered_ok :
    autoNumbered declared = .ok numbered ↔ ∃ order, topoSortServices declared = .ok order ∧
      List.Forall₂ (fun entry result =>
        numberedService declared order.length entry.2 entry.1 = .ok result)
        order.zipIdx numbered := by
  rw [autoNumbered, bind_eq_ok]
  simp only [mapM_eq_ok]

theorem autoNumbered_names {order : List String}
    (made : List.Forall₂ (fun entry result =>
      numberedService declared order.length entry.2 entry.1 = .ok result) order.zipIdx numbered) :
    numbered.map (·.name) = order := by
  have names : order.zipIdx.map Prod.fst = numbered.map (·.name) := by
    rw [← List.forall₂_eq_eq_eq, List.forall₂_map_left_iff, List.forall₂_map_right_iff]
    exact made.imp fun _ _ own => (numberedService_ok own).1.symm
  rw [← names, List.zipIdx_map_fst]

theorem underscore_notMem_numStr (num : Int) : '_' ∉ (numStr num).toList := by
  have digits : ∀ value : Nat, '_' ∉ (toString value).toList := by
    intro value inside
    rw [Nat.toString_eq_repr, Nat.toList_repr] at inside
    have digit := Nat.isDigit_of_mem_toDigits (by omega) (by omega) inside
    exact absurd digit (by decide)
  have signed : '_' ∉ (toString num).toList := by
    cases num with
    | ofNat value => exact digits value
    | negSucc value =>
        show '_' ∉ ("-" ++ toString (value + 1)).toList
        rw [String.toList_append, List.mem_append, not_or]
        exact ⟨by decide, digits _⟩
  unfold numStr
  split
  · rw [String.toList_append, List.mem_append, not_or]
    exact ⟨by decide, signed⟩
  · exact signed

theorem toList_fileName (entry : Numbered) :
    entry.fileName.toList =
      entry.numStr.toList ++ '_' :: (entry.name.toList ++ ".service".toList) := by
  rw [Numbered.fileName, String.toList_append, String.toList_append, String.toList_append]
  simp

/-- The number has no underscore in it, so a file name tells the service. -/
theorem fileName_injective {other : Numbered} (own : entry.numStr = numStr entry.num)
    (others : other.numStr = numStr other.num) (same : entry.fileName = other.fileName) :
    entry.name = other.name := by
  have texts := congrArg String.toList same
  rw [toList_fileName, toList_fileName, own, others] at texts
  have rests := (first_segment (underscore_notMem_numStr _) (underscore_notMem_numStr _) texts).2
  exact String.toList_injective (List.append_cancel_right rests)

variable (distinct : (numbered.map (·.name)).Nodup)
include distinct

theorem lookup_serviceFilenameMap {name file : String} :
    (serviceFilenameMap numbered).lookup name = some file ↔
      ∃ entry ∈ numbered, entry.name = name ∧ entry.fileName = file := by
  have keys : ((numbered.map fun entry => (entry.name, entry.fileName)).map Prod.fst).Nodup := by
    rwa [List.map_map]
  rw [serviceFilenameMap, lookup_ofEntries]
  constructor
  · intro found
    obtain ⟨entry, inside, same⟩ := List.mem_map.mp (mem_of_lookup found)
    cases same
    exact ⟨entry, inside, rfl, rfl⟩
  · rintro ⟨entry, inside, rfl, rfl⟩
    exact lookup_of_mem keys (List.mem_map.mpr ⟨entry, inside, rfl⟩)

end Numbers

section Units

variable {declared : ServiceSet} {config : RootfsConfig} {numbered : List Numbered}
  {entry : Numbered}

/-- The unit of a service, whose dependencies are other services' units. -/
def IsUnitOf (config : RootfsConfig) (numbered : List Numbered) (entry : Numbered)
    (unit : Rendered) : Prop :=
  ∃ dependencies : List Numbered,
    List.Forall₂ (fun dep other => other ∈ numbered ∧ other.name = dep)
      entry.service.after dependencies ∧
    unit = {
      text := renderServiceToml (withEnvironment config entry.service) true
        (dependencies.map (·.fileName))
      directory :=
        if entry.service.wantedBy = .rootfs then "usr/lib/init.d" else "etc/init.d" }

theorem exists_dependencies {names files : List String}
    (named : List.Forall₂ (fun dep file =>
      ∃ entry ∈ numbered, entry.name = dep ∧ entry.fileName = file) names files) :
    ∃ dependencies : List Numbered,
      List.Forall₂ (fun dep other => other ∈ numbered ∧ other.name = dep) names dependencies ∧
      dependencies.map (·.fileName) = files := by
  induction named with
  | nil => exact ⟨[], .nil, rfl⟩
  | cons own _ ih =>
      obtain ⟨entry, inside, name, rfl⟩ := own
      obtain ⟨dependencies, paired, rfl⟩ := ih
      exact ⟨entry :: dependencies, .cons ⟨inside, name⟩ paired, rfl⟩

theorem renderedService_ok (distinct : (numbered.map (·.name)).Nodup) {file : String}
    {unit : Rendered} :
    renderedService config (serviceFilenameMap numbered) entry = .ok (file, unit) ↔
      file = entry.fileName ∧ IsUnitOf config numbered entry unit := by
  rw [renderedService, bind_eq_ok]
  simp only [mapM_eq_ok, getAttr_ok, lookup_serviceFilenameMap distinct]
  constructor
  · rintro ⟨files, named, same⟩
    cases same
    obtain ⟨dependencies, paired, rfl⟩ := exists_dependencies named
    exact ⟨rfl, dependencies, paired, rfl⟩
  · rintro ⟨rfl, dependencies, paired, rfl⟩
    refine ⟨dependencies.map (·.fileName), ?_, rfl⟩
    rw [List.forall₂_map_right_iff]
    exact paired.imp fun _ other own => ⟨other, own.1, own.2, rfl⟩

theorem renderedServices_ok (distinct : (numbered.map (·.name)).Nodup)
    {rendered : AList fun _ : String => Rendered} :
    renderedServices config numbered = .ok rendered ↔ ∃ units : List (String × Rendered),
      List.Forall₂ (fun entry unit =>
        unit.1 = entry.fileName ∧ IsUnitOf config numbered entry unit.2) numbered units ∧
      ofEntries units = rendered := by
  rw [renderedServices, map_eq_ok]
  simp only [mapM_eq_ok, renderedService_ok distinct]

/-- The units of an evaluation start the services in an order of their dependencies. -/
structure StartsInOrder (declared : ServiceSet) (config : RootfsConfig) (result : Evaluated)
    (order : List String) : Prop where
  sorted : topoSortServices declared = .ok order
  once : order.Nodup
  whole : ∀ name, name ∈ order ↔ ∃ svc, declared.lookup name = some svc
  ordered : ∀ front name back, order = front ++ name :: back →
    ∀ dep ∈ after declared name, dep ∈ front
  names : result.autoNumbered.map (·.name) = order
  services : ∀ entry ∈ result.autoNumbered, declared.lookup entry.name = some entry.service
  rendered : ∀ entry ∈ result.autoNumbered,
    ∃ unit, result.renderedServices.lookup entry.fileName = some unit ∧
      IsUnitOf config result.autoNumbered entry unit
  units : ∀ file unit, result.renderedServices.lookup file = some unit →
    ∃ entry ∈ result.autoNumbered, entry.fileName = file ∧
      IsUnitOf config result.autoNumbered entry unit

end Units

section Evaluation

variable {declared : ServiceSet} {sources : Sources} {config : RootfsConfig} {result : Evaluated}
  {order : List String} {numbered : List Numbered}

theorem topoSortServices_run (known : AfterKnown declared) :
    (∃ order, topoSortServices declared = .ok order ∧
        (serviceGraph declared known).Layered order []) ∨
      ∃ e, topoSortServices declared = .error e ∧ Cyclic declared := by
  have run := kahnStep_run known (fun _ _ => True) (fun _ _ _ _ => trivial)
    .start .start trivial
  rcases run with ⟨order, sorted, layered, _⟩ | ⟨e, failed, cyclic⟩
  · exact .inl ⟨order, sorted, layered⟩
  · rw [serviceGraph_acyclic, not_not] at cyclic
    exact .inr ⟨e, failed, cyclic⟩

theorem topoSortServices_layered (known : AfterKnown declared)
    (sorted : topoSortServices declared = .ok order) :
    (serviceGraph declared known).Layered order [] := by
  rcases topoSortServices_run known with ⟨other, same, layered⟩ | ⟨e, failed, _⟩
  · rw [sorted] at same
    cases same
    exact layered
  · rw [sorted] at failed
    cases failed

theorem mem_order {known : AfterKnown declared} {name : String}
    (layered : (serviceGraph declared known).Layered order []) :
    name ∈ order ↔ ∃ svc, declared.lookup name = some svc := by
  have whole := layered.whole
  rw [List.append_nil] at whole
  rw [whole.mem_iff]
  exact mem_serviceNames

theorem autoNumbered_services (made : autoNumbered declared = .ok numbered) {entry : Numbered}
    (inside : entry ∈ numbered) :
    declared.lookup entry.name = some entry.service ∧ entry.numStr = numStr entry.num := by
  obtain ⟨order, _, paired⟩ := autoNumbered_ok.mp made
  obtain ⟨place, _, own⟩ := exists_left paired inside
  obtain ⟨same, found, _, shown⟩ := numberedService_ok own
  exact ⟨same ▸ found, shown⟩

theorem autoNumbered_succeeds {known : AfterKnown declared}
    (sorted : topoSortServices declared = .ok order)
    (layered : (serviceGraph declared known).Layered order []) :
    ∃ numbered, autoNumbered declared = .ok numbered := by
  rw [autoNumbered, sorted]
  apply mapM_succeeds.mpr
  intro place inside
  obtain ⟨svc, found⟩ := (mem_order layered).mp (List.fst_mem_of_mem_zipIdx inside)
  refine ⟨_, bind_eq_ok.mpr ⟨svc, getAttr_ok.mpr found, rfl⟩⟩

theorem renderedServices_succeeds (config : RootfsConfig) (known : AfterKnown declared)
    (made : autoNumbered declared = .ok numbered)
    (layered : (serviceGraph declared known).Layered order [])
    (names : numbered.map (·.name) = order) :
    ∃ rendered, renderedServices config numbered = .ok rendered := by
  have distinct : (numbered.map (·.name)).Nodup := by
    rw [names, ← List.append_nil order]
    exact layered.distinct
  have all : ∃ units, numbered.mapM (renderedService config (serviceFilenameMap numbered)) =
      .ok units := by
    apply mapM_succeeds.mpr
    intro entry inside
    have files : ∃ files, entry.service.after.mapM (getAttr (serviceFilenameMap numbered)) =
        .ok files := by
      apply mapM_succeeds.mpr
      intro dep listed
      obtain ⟨other, present⟩ :=
        known entry.name entry.service (autoNumbered_services made inside).1 dep listed
      have placed := (mem_order layered).mpr ⟨other, present⟩
      rw [← names] at placed
      obtain ⟨numberedDep, there, same⟩ := List.mem_map.mp placed
      refine ⟨numberedDep.fileName, getAttr_ok.mpr ?_⟩
      exact (lookup_serviceFilenameMap distinct).mpr ⟨numberedDep, there, same, rfl⟩
    obtain ⟨files, named⟩ := files
    exact ⟨_, bind_eq_ok.mpr ⟨files, named, rfl⟩⟩
  obtain ⟨units, each⟩ := all
  exact ⟨_, map_eq_ok.mpr ⟨units, each, rfl⟩⟩

theorem evaluate_ok :
    evaluate config sources = .ok result ↔ AfterKnown (allDeclaredServices sources) ∧
      autoNumbered (allDeclaredServices sources) = .ok result.autoNumbered ∧
      renderedServices config result.autoNumbered = .ok result.renderedServices := by
  rw [evaluate, bind_eq_ok]
  constructor
  · rintro ⟨_, known, rest⟩
    obtain ⟨numbered, made, rest⟩ := bind_eq_ok.mp rest
    obtain ⟨rendered, shown, same⟩ := bind_eq_ok.mp rest
    cases same
    exact ⟨validateAfterRefs_ok.mp known, made, shown⟩
  · rintro ⟨known, made, shown⟩
    refine ⟨(), validateAfterRefs_ok.mpr known, bind_eq_ok.mpr ⟨_, made, ?_⟩⟩
    exact bind_eq_ok.mpr ⟨_, shown, rfl⟩

theorem evaluate_startsInOrder (evaluated : evaluate config sources = .ok result) :
    ∃ order, StartsInOrder (allDeclaredServices sources) config result order := by
  obtain ⟨known, made, shown⟩ := evaluate_ok.mp evaluated
  obtain ⟨order, sorted, paired⟩ := autoNumbered_ok.mp made
  have layered := topoSortServices_layered known sorted
  have names := autoNumbered_names paired
  have once : order.Nodup := List.append_nil order ▸ layered.distinct
  have distinct : (result.autoNumbered.map (·.name)).Nodup := names ▸ once
  obtain ⟨units, rendered, same⟩ := (renderedServices_ok distinct).mp shown
  have keys : (units.map Prod.fst).Nodup := by
    have files : result.autoNumbered.map (·.fileName) = units.map Prod.fst := by
      rw [← List.forall₂_eq_eq_eq, List.forall₂_map_left_iff, List.forall₂_map_right_iff]
      exact rendered.imp fun _ _ own => own.1.symm
    rw [← files]
    apply distinct.of_map.map_on
    intro one first two second file
    apply List.inj_on_of_nodup_map distinct first second
    exact fileName_injective (autoNumbered_services made first).2
      (autoNumbered_services made second).2 file
  refine ⟨order, sorted, once, fun name => mem_order layered, layered.ordered, names,
    fun entry inside => (autoNumbered_services made inside).1, ?_, ?_⟩
  · intro entry inside
    obtain ⟨unit, there, file, own⟩ := exists_right rendered inside
    refine ⟨unit.2, ?_, own⟩
    rw [← same, lookup_ofEntries, ← file]
    exact lookup_of_mem keys there
  · intro file unit found
    rw [← same, lookup_ofEntries] at found
    obtain ⟨entry, inside, here, own⟩ := exists_left rendered (mem_of_lookup found)
    exact ⟨entry, inside, here.symm, own⟩

theorem evaluate_succeeds :
    (∃ result, evaluate config sources = .ok result) ↔
      AfterKnown (allDeclaredServices sources) ∧ ¬ Cyclic (allDeclaredServices sources) := by
  constructor
  · rintro ⟨result, evaluated⟩
    obtain ⟨known, made, _⟩ := evaluate_ok.mp evaluated
    obtain ⟨order, sorted, _⟩ := autoNumbered_ok.mp made
    have layered := topoSortServices_layered known sorted
    exact ⟨known, (serviceGraph_acyclic known).mp layered.acyclic⟩
  · rintro ⟨known, acyclic⟩
    rcases topoSortServices_run known with ⟨order, sorted, layered⟩ | ⟨_, _, cyclic⟩
    · obtain ⟨numbered, made⟩ := autoNumbered_succeeds sorted layered
      obtain ⟨other, same, paired⟩ := autoNumbered_ok.mp made
      rw [sorted] at same
      cases same
      have names := autoNumbered_names paired
      obtain ⟨rendered, shown⟩ :=
        renderedServices_succeeds config known made layered names
      exact ⟨⟨numbered, rendered⟩, evaluate_ok.mpr ⟨known, made, shown⟩⟩
    · exact absurd cyclic acyclic

/-- Evaluation succeeds unless a dependency is unknown or there is a cycle, and then the
services start after what they depend on. -/
theorem evaluate_topological (config : RootfsConfig) (sources : Sources) :
    ((∃ result, evaluate config sources = .ok result) ↔
      AfterKnown (allDeclaredServices sources) ∧ ¬ Cyclic (allDeclaredServices sources)) ∧
    ∀ result, evaluate config sources = .ok result →
      ∃ order, StartsInOrder (allDeclaredServices sources) config result order :=
  ⟨evaluate_succeeds, fun _ => evaluate_startsInOrder⟩

end Evaluation

end NixRedox.InitScripts
