import NixRedox.ServiceOrder
import NixRedox.Utf8Order

set_option autoImplicit false

/- When the names of the units sort every service behind what it comes after. -/
namespace NixRedox.InitScripts

open AttrSets (lookup_ofEntries ofEntries)
open Attempts (exists_left)
open Bytes (utf8)
open Kahn (Graph)
open Kahn.Graph (Before)
open KeyedMap (lookup_of_mem mem_of_lookup)
open Relation (TransGen)

/-- How long the chains of dependencies below a service are. -/
def dependencyDepth (declared : ServiceSet) : String → Nat :=
  Graph.depth (after declared) (serviceNames declared).length

/-- How many services have fewer dependencies below them, or as many and a smaller name. -/
def position (declared : ServiceSet) (name : String) : Nat :=
  (serviceNames declared).countP fun other => Before (dependencyDepth declared) other name

/-- What the position adds to the number. -/
def slot (declared : ServiceSet) (name : String) : Nat :=
  64 * position declared name / ((serviceNames declared).length - 1)

/-- Names of files in the order of their bytes. -/
def SortsBefore (one two : String) : Prop := utf8 one.toList < utf8 two.toList

section Positions

variable {declared : ServiceSet} {known : AfterKnown declared} {order : List String}
  {numbered : List Numbered}

theorem topoSortServices_sorted (known : AfterKnown declared)
    (sorted : topoSortServices declared = .ok order) :
    order.Pairwise (Before (dependencyDepth declared)) := by
  have levels : (serviceGraph declared known).Levels (dependencyDepth declared) :=
    (topoSortServices_layered known sorted).levels
  have run := kahnStep_run known (Graph.Leveled (dependencyDepth declared))
    (fun _ _ layered leveled => leveled.step levels layered)
    .start .start (.start (serviceNames declared))
  change (∃ other, topoSortServices declared = .ok other ∧ _) ∨
    ∃ e, topoSortServices declared = .error e ∧ _ at run
  rw [sorted] at run
  rcases run with ⟨other, same, _, _, _, _, pairwise⟩ | ⟨e, failed, _⟩
  · cases same
    exact pairwise
  · cases failed

theorem position_eq (known : AfterKnown declared) (sorted : topoSortServices declared = .ok order)
    {front back : List String} {name : String} (split : order = front ++ name :: back) :
    position declared name = front.length := by
  have whole : (order ++ []).Perm (serviceNames declared) :=
    (topoSortServices_layered known sorted).whole
  rw [List.append_nil] at whole
  have pairwise := topoSortServices_sorted known sorted
  rw [position, ← whole.countP_eq, split]
  exact Graph.countP_before (split ▸ pairwise)

end Positions

section Numbers

theorem autoNum_eq {count idx : Nat} (below : idx < count) :
    autoNum count idx = 15 + ((64 * idx / (count - 1) : Nat) : Int) := by
  unfold autoNum step
  congr 1
  by_cases single : count ≤ 1
  · have first : idx = 0 := by omega
    rw [if_pos single, first, Nat.mul_zero, Nat.zero_div, Nat.cast_zero, zero_mul]
    rfl
  · rw [if_neg single]
    have spread : (idx : ℚ) * (64 / ((count - 1 : Nat) : ℚ)) =
        ((64 * idx : Nat) : ℤ) / ((count - 1 : Nat) : ℚ) := by
      push_cast
      ring
    rw [spread]
    exact Rat.floor_intCast_div_natCast _ _

theorem slot_le {count idx : Nat} (below : idx < count) : 64 * idx / (count - 1) ≤ 64 := by
  apply Nat.div_le_of_le_mul
  rw [Nat.mul_comm]
  exact Nat.mul_le_mul_right 64 (by omega)

theorem toList_numStr {num : Nat} (lower : 10 ≤ num) (upper : num < 100) :
    (numStr num).toList = [Nat.digitChar (num / 10), Nat.digitChar (num % 10)] := by
  have two : ¬ ((num : Int) < 10) := by omega
  have tens : Nat.toDigits 10 (num / 10) = [Nat.digitChar (num / 10)] :=
    Nat.toDigits_of_lt_base (by omega)
  rw [numStr, if_neg two]
  show (toString num).toList = _
  rw [Nat.toString_eq_repr, Nat.toList_repr, Nat.toDigits_of_base_le (by omega) lower, tens]
  rfl

theorem digitChar_lt : ∀ one < 10, ∀ two < 10,
    Nat.digitChar one < Nat.digitChar two ↔ one < two := by decide

theorem digitChar_inj : ∀ one < 10, ∀ two < 10,
    Nat.digitChar one = Nat.digitChar two ↔ one = two := by decide

theorem digits_lt {one two : Nat} (upper : one < 100) (upperToo : two < 100)
    (rest more : List Char) :
    Nat.digitChar (one / 10) :: Nat.digitChar (one % 10) :: rest <
        Nat.digitChar (two / 10) :: Nat.digitChar (two % 10) :: more ↔
      one < two ∨ one = two ∧ rest < more := by
  rw [List.cons_lt_cons_iff, List.cons_lt_cons_iff,
    digitChar_lt _ (by omega) _ (by omega), digitChar_lt _ (by omega) _ (by omega),
    digitChar_inj _ (by omega) _ (by omega), digitChar_inj _ (by omega) _ (by omega)]
  constructor
  · rintro (less | ⟨same, less | ⟨same', below⟩⟩)
    · exact .inl (by omega)
    · exact .inl (by omega)
    · exact .inr ⟨by omega, below⟩
  · rintro (less | ⟨rfl, below⟩)
    · by_cases same : one / 10 = two / 10
      · exact .inr ⟨same, .inl (by omega)⟩
      · exact .inl (by omega)
    · exact .inr ⟨rfl, .inr ⟨rfl, below⟩⟩

theorem sortsBefore_iff {one two : String} : SortsBefore one two ↔ one.toList < two.toList :=
  Utf8Order.utf8_lt_iff

/-- Names of files are compared by their numbers first, which have two digits. -/
theorem fileName_sortsBefore {one two : Numbered} {low high : Nat}
    (own : one.numStr = numStr low) (others : two.numStr = numStr high)
    (digits : 10 ≤ low ∧ low < 100) (digitsToo : 10 ≤ high ∧ high < 100) :
    SortsBefore one.fileName two.fileName ↔
      low < high ∨ low = high ∧ SortsBefore (one.name ++ ".service") (two.name ++ ".service") := by
  rw [sortsBefore_iff, sortsBefore_iff, toList_fileName, toList_fileName, own, others,
    toList_numStr digits.1 digits.2, toList_numStr digitsToo.1 digitsToo.2,
    String.toList_append, String.toList_append]
  simp only [List.cons_append, List.nil_append]
  rw [digits_lt digits.2 digitsToo.2, List.cons_lt_cons_iff]
  simp

end Numbers

section Names

variable {declared : ServiceSet} {numbered : List Numbered}

theorem position_lt (known : AfterKnown declared) {order : List String}
    (sorted : topoSortServices declared = .ok order) {name dep : String} {svc : Service}
    (present : declared.lookup name = some svc) (listed : dep ∈ svc.after) :
    position declared dep < position declared name := by
  have layered := topoSortServices_layered known sorted
  obtain ⟨front, back, split⟩ := List.append_of_mem ((mem_order layered).mpr ⟨svc, present⟩)
  have early : dep ∈ front := by
    rw [← after_of_lookup present] at listed
    exact layered.ordered front name back split dep listed
  obtain ⟨before, between, rfl⟩ := List.append_of_mem early
  have splitToo : order = before ++ dep :: (between ++ name :: back) := by simpa using split
  rw [position_eq known sorted split, position_eq known sorted splitToo, List.length_append]
  simp

theorem position_lt_length {name : String} {svc : Service}
    (present : declared.lookup name = some svc) :
    position declared name < (serviceNames declared).length := by
  apply List.countP_lt_length_iff.mpr
  refine ⟨name, mem_serviceNames.mpr ⟨svc, present⟩, ?_⟩
  simpa using fun before : Before _ name name => before.asymm before

/-- With the default priority, the number of a service is made of its position. -/
theorem autoNumbered_num (known : AfterKnown declared)
    (made : autoNumbered declared = .ok numbered) {entry : Numbered} (inside : entry ∈ numbered)
    (standard : entry.service.priority = 50) :
    entry.num = ((15 + slot declared entry.name : Nat) : Int) ∧ slot declared entry.name ≤ 64 := by
  obtain ⟨order, sorted, paired⟩ := autoNumbered_ok.mp made
  obtain ⟨⟨name, idx⟩, placed, own⟩ := exists_left paired inside
  obtain ⟨rfl, present, number, _⟩ := numberedService_ok own
  have there : order[idx]? = some entry.name := List.mem_zipIdx_iff_getElem?.mp placed
  obtain ⟨below, here⟩ := List.getElem?_eq_some_iff.mp there
  have split : order = order.take idx ++ entry.name :: order.drop (idx + 1) := by
    conv_lhs => rw [← List.take_append_drop idx order, List.drop_eq_getElem_cons below]
    rw [← here]
  have place : position declared entry.name = idx := by
    rw [position_eq known sorted split, List.length_take, Nat.min_eq_left (Nat.le_of_lt below)]
  have whole : (order ++ []).Perm (serviceNames declared) :=
    (topoSortServices_layered known sorted).whole
  have count : (serviceNames declared).length = order.length := by
    rw [← whole.length_eq, List.append_nil]
  constructor
  · rw [number, if_neg (not_not.mpr standard), autoNum_eq below, slot, place, count]
    rfl
  · rw [slot, place, count]
    exact slot_le below

/-- Numbers are between 15 and 79, and every service is named behind what it comes after. -/
structure NamedInOrder (numbered : List Numbered) : Prop where
  range : ∀ entry ∈ numbered, 15 ≤ entry.num ∧ entry.num ≤ 79
  behind : ∀ entry ∈ numbered, ∀ dep ∈ entry.service.after, ∀ other ∈ numbered,
    other.name = dep → SortsBefore other.fileName entry.fileName

/-- A dependency has a smaller number, or its name is sorted before that of the service. -/
def Spread (declared : ServiceSet) : Prop :=
  ∀ name svc, declared.lookup name = some svc → ∀ dep ∈ svc.after,
    slot declared dep < slot declared name ∨ SortsBefore (dep ++ ".service") (name ++ ".service")

theorem slot_mono (known : AfterKnown declared) {order : List String}
    (sorted : topoSortServices declared = .ok order) {name dep : String} {svc : Service}
    (present : declared.lookup name = some svc) (listed : dep ∈ svc.after) :
    slot declared dep ≤ slot declared name := by
  apply Nat.div_le_div_right
  have less := position_lt known sorted present listed
  omega

theorem namedInOrder_iff (known : AfterKnown declared)
    (standard : ∀ name svc, declared.lookup name = some svc → svc.priority = 50)
    (made : autoNumbered declared = .ok numbered) : NamedInOrder numbered ↔ Spread declared := by
  obtain ⟨order, sorted, paired⟩ := autoNumbered_ok.mp made
  have layered := topoSortServices_layered known sorted
  have names := autoNumbered_names paired
  have numbers : ∀ entry ∈ numbered, entry.num = ((15 + slot declared entry.name : Nat) : Int) ∧
      slot declared entry.name ≤ 64 := by
    intro entry inside
    have present := (autoNumbered_services made inside).1
    exact autoNumbered_num known made inside (standard entry.name entry.service present)
  have compared : ∀ entry ∈ numbered, ∀ other ∈ numbered,
      (SortsBefore other.fileName entry.fileName ↔
        slot declared other.name < slot declared entry.name ∨
          slot declared other.name = slot declared entry.name ∧
            SortsBefore (other.name ++ ".service") (entry.name ++ ".service")) := by
    intro entry inside other there
    obtain ⟨number, bound⟩ := numbers entry inside
    obtain ⟨numberToo, boundToo⟩ := numbers other there
    rw [fileName_sortsBefore (numberToo ▸ (autoNumbered_services made there).2)
      (number ▸ (autoNumbered_services made inside).2) (by omega) (by omega),
      Nat.add_lt_add_iff_left, Nat.add_left_cancel_iff]
  constructor
  · intro ordered name svc present dep listed
    have placed := (mem_order layered).mpr ⟨svc, present⟩
    rw [← names] at placed
    obtain ⟨entry, inside, rfl⟩ := List.mem_map.mp placed
    have own := (autoNumbered_services made inside).1
    rw [present, Option.some.injEq] at own
    subst own
    obtain ⟨depSvc, presentToo⟩ := known entry.name entry.service present dep listed
    have placedToo := (mem_order layered).mpr ⟨depSvc, presentToo⟩
    rw [← names] at placedToo
    obtain ⟨other, there, rfl⟩ := List.mem_map.mp placedToo
    rcases (compared entry inside other there).mp
      (ordered.behind entry inside other.name listed other there rfl) with less | ⟨_, below⟩
    · exact .inl less
    · exact .inr below
  · intro spread
    constructor
    · intro entry inside
      have number := numbers entry inside
      omega
    · rintro entry inside dep listed other there rfl
      have present := (autoNumbered_services made inside).1
      have least := slot_mono known sorted present listed
      apply (compared entry inside other there).mpr
      rcases spread entry.name entry.service present other.name listed with less | below
      · exact .inl less
      · by_cases same : slot declared other.name = slot declared entry.name
        · exact .inr ⟨same, below⟩
        · exact .inl (by omega)

/-- There are enough numbers for 65 services. -/
theorem spread_of_few (known : AfterKnown declared) {order : List String}
    (sorted : topoSortServices declared = .ok order)
    (few : (serviceNames declared).length ≤ 65) : Spread declared := by
  intro name svc present dep listed
  have less := position_lt known sorted present listed
  have below := position_lt_length present
  left
  have some_ : 0 < (serviceNames declared).length - 1 := by omega
  calc slot declared dep
      < 64 * position declared dep / ((serviceNames declared).length - 1) + 1 :=
        Nat.lt_succ_self _
    _ = (64 * position declared dep + ((serviceNames declared).length - 1)) /
          ((serviceNames declared).length - 1) := (Nat.add_div_right _ some_).symm
    _ ≤ slot declared name := Nat.div_le_div_right (by omega)

/-- The names of units are in the order of the dependencies unless services share a number
against the alphabet, for which there must be more than 65. -/
theorem autoNumbered_namedInOrder (declared : ServiceSet) (known : AfterKnown declared)
    (acyclic : ¬ Cyclic declared)
    (standard : ∀ name svc, declared.lookup name = some svc → svc.priority = 50) :
    ∃ numbered, autoNumbered declared = .ok numbered ∧
      (NamedInOrder numbered ↔ Spread declared) ∧
      ((serviceNames declared).length ≤ 65 → Spread declared) := by
  rcases topoSortServices_run known with ⟨order, sorted, layered⟩ | ⟨_, _, cyclic⟩
  · obtain ⟨numbered, made⟩ := autoNumbered_succeeds sorted layered
    exact ⟨numbered, made, namedInOrder_iff known standard made, spread_of_few known sorted⟩
  · exact absurd cyclic acyclic

end Names

section Crowd

def waiting (after : List String) : Service :=
  ⟨"", "/bin/daemon", .daemon, "", none, .rootfs, true, after, ∅, 50⟩

def crowdName (k : Nat) : String := String.ofList (List.replicate (k + 1) 'a')

def crowdEntries : List (String × Service) :=
  ("z", waiting []) :: (List.range 65).map fun k => (crowdName k, waiting ["z"])

/-- One service, and 65 services after it whose names are sorted before its own. -/
def crowded : ServiceSet := ofEntries crowdEntries

theorem crowdName_ne (k : Nat) : crowdName k ≠ "z" := by
  intro same
  have texts := congrArg String.toList same
  rw [crowdName, String.toList_ofList, List.replicate_succ] at texts
  exact absurd (List.cons.inj texts).1 (by decide)

theorem crowdEntries_distinct : (crowdEntries.map Prod.fst).Nodup := by
  rw [crowdEntries, List.map_cons, List.map_map, List.nodup_cons]
  constructor
  · intro inside
    obtain ⟨k, _, same⟩ := List.mem_map.mp inside
    exact crowdName_ne k same
  · apply List.Nodup.map _ List.nodup_range
    intro one two same
    have lengths := congrArg (fun name => name.toList.length) same
    simpa [crowdName] using lengths

theorem mem_crowdEntries {name : String} {svc : Service} :
    (name, svc) ∈ crowdEntries ↔
      (name = "z" ∧ svc = waiting []) ∨ ∃ k < 65, name = crowdName k ∧ svc = waiting ["z"] := by
  simp [crowdEntries, eq_comm]

theorem lookup_crowded {name : String} {svc : Service} :
    crowded.lookup name = some svc ↔
      (name = "z" ∧ svc = waiting []) ∨ ∃ k < 65, name = crowdName k ∧ svc = waiting ["z"] := by
  rw [← mem_crowdEntries, crowded, lookup_ofEntries]
  exact ⟨mem_of_lookup, lookup_of_mem crowdEntries_distinct⟩

theorem crowded_first : crowded.lookup "z" = some (waiting []) :=
  lookup_crowded.mpr (.inl ⟨rfl, rfl⟩)

theorem crowded_other {k : Nat} (below : k < 65) :
    crowded.lookup (crowdName k) = some (waiting ["z"]) :=
  lookup_crowded.mpr (.inr ⟨k, below, rfl, rfl⟩)

theorem crowded_known : AfterKnown crowded := by
  intro name svc present dep listed
  rcases lookup_crowded.mp present with ⟨_, rfl⟩ | ⟨k, _, _, rfl⟩
  · cases listed
  · rw [List.mem_singleton.mp listed]
    exact ⟨_, crowded_first⟩

theorem crowded_standard (name : String) (svc : Service)
    (present : crowded.lookup name = some svc) : svc.priority = 50 := by
  rcases lookup_crowded.mp present with ⟨_, rfl⟩ | ⟨k, _, _, rfl⟩ <;> rfl

theorem crowded_acyclic : ¬ Cyclic crowded := by
  rintro ⟨name, cycle⟩
  obtain ⟨dep, _, last⟩ := TransGen.tail'_iff.mp cycle
  obtain ⟨first, there, _⟩ := TransGen.head'_iff.mp cycle
  obtain ⟨svc, present, listed⟩ := mem_after last
  obtain ⟨own, presentToo, listedToo⟩ := mem_after there
  have early : name = "z" := by
    rcases lookup_crowded.mp present with ⟨_, rfl⟩ | ⟨k, _, _, rfl⟩
    · cases listed
    · exact List.mem_singleton.mp listed
  rw [early, crowded_first, Option.some.injEq] at presentToo
  subst presentToo
  cases listedToo

theorem crowded_count : 66 ≤ (serviceNames crowded).length := by
  have inside : crowdEntries.map Prod.fst ⊆ serviceNames crowded := by
    intro name member
    obtain ⟨entry, there, rfl⟩ := List.mem_map.mp member
    have found := lookup_of_mem crowdEntries_distinct there
    rw [← lookup_ofEntries] at found
    exact mem_serviceNames.mpr ⟨_, found⟩
  have less := (List.subperm_of_subset crowdEntries_distinct inside).length_le
  simpa [crowdEntries] using less

/-- Of the services on the second level, the first name has position 1. -/
theorem crowded_position : position crowded (crowdName 0) ≤ 1 := by
  obtain ⟨fuel, count⟩ := Nat.exists_eq_add_of_le' crowded_count
  have level : ∀ k < 65, dependencyDepth crowded (crowdName k) =
      Graph.depth (after crowded) (fuel + 65) "z" + 1 := by
    intro k below
    rw [dependencyDepth, count, Graph.depth, after_of_lookup (crowded_other below)]
    simp [waiting]
  have only : position crowded (crowdName 0) ≤ (serviceNames crowded).count "z" := by
    apply List.countP_mono_left
    intro other inside before
    obtain ⟨svc, present⟩ := mem_serviceNames.mp inside
    rcases lookup_crowded.mp present with ⟨rfl, _⟩ | ⟨k, below, rfl, _⟩
    · exact beq_self_eq_true _
    · rcases of_decide_eq_true before with less | ⟨_, less⟩
      · rw [level k below, level 0 (by omega)] at less
        exact absurd less (Nat.lt_irrefl _)
      · have chars := String.lt_iff_toList_lt.mp less
        simp [crowdName, List.replicate_succ] at chars
  have distinct : (serviceNames crowded).Nodup := Serde.sortedMembers_nodup crowded
  exact Nat.le_trans only (List.nodup_iff_count_le_one.mp distinct "z")

theorem crowded_notSpread : ¬ Spread crowded := by
  intro spread
  rcases spread _ _ (crowded_other (k := 0) (by omega)) "z" List.mem_cons_self with less | below
  · have count := crowded_count
    have place := crowded_position
    have same : slot crowded (crowdName 0) = 0 := by
      rw [slot, Nat.div_eq_zero_iff_lt (by omega)]
      omega
    omega
  · exact absurd (sortsBefore_iff.mp below) (by decide)

/-- The first of the crowd has the number of the service it comes after, and its name is
sorted before. -/
theorem crowded_notInOrder :
    ¬ ∀ declared, AfterKnown declared → ¬ Cyclic declared →
      (∀ name svc, declared.lookup name = some svc → svc.priority = 50) →
      ∀ numbered, autoNumbered declared = .ok numbered → NamedInOrder numbered := by
  intro always
  rcases topoSortServices_run crowded_known with ⟨order, sorted, layered⟩ | ⟨_, _, cyclic⟩
  · obtain ⟨numbered, made⟩ := autoNumbered_succeeds sorted layered
    have ordered := always crowded crowded_known crowded_acyclic crowded_standard numbered made
    exact crowded_notSpread ((namedInOrder_iff crowded_known crowded_standard made).mp ordered)
  · exact crowded_acyclic cyclic

theorem crowded_namedInOrder :
    ∃ numbered, autoNumbered crowded = .ok numbered ∧
      (NamedInOrder numbered ↔ Spread crowded) ∧
      ((serviceNames crowded).length ≤ 65 → Spread crowded) :=
  autoNumbered_namedInOrder crowded crowded_known crowded_acyclic crowded_standard

end Crowd

end NixRedox.InitScripts
