import NixRedox.StepRuns
import NixRedox.TailCalls

set_option autoImplicit false

/- Ids handed out in a circle from 1 to a limit, without those in use. Nothing here knows what
they are the ids of. -/
namespace NixRedox.CyclicIds

open StepRuns (EachMeets Throughout eachMeets_of_forall throughout_of_eachMeets)
open TailCalls (Numbered Returns)

variable {Handle : Type}

section Search

variable (limit : Nat) (handles : AList fun _ : Nat => Handle)

/-- The id that is tried after another one. -/
def following (id : Nat) : Nat := if limit ≤ id then 1 else id + 1

def Free (id : Nat) : Prop := 1 ≤ id ∧ id ≤ limit ∧ id ∉ handles

instance : DecidablePred (Free limit handles) := fun _ => inferInstanceAs (Decidable (_ ∧ _))

/-- A turn of the search ends it with an id and the one after it, or goes on. -/
def turn (id : Nat) : Nat ⊕ (Nat × Nat) :=
  if Free limit handles id then .inr (id, following limit id) else .inl (following limit id)

/-- The id that so many turns later is tried. -/
def tried (start : Nat) : Nat → Nat
  | 0 => start
  | turns + 1 => following limit (tried start turns)

/-- How the search ends with an id. -/
def found (id : Nat) : Option (Nat × Nat) :=
  if Free limit handles id then some (id, following limit id) else none

variable {limit handles} {start id : Nat}

theorem following_inside (some_ : 1 ≤ limit) (id : Nat) :
    1 ≤ following limit id ∧ following limit id ≤ limit := by
  unfold following
  split <;> omega

theorem numbered (start : Nat) :
    Numbered (turn limit handles) (tried limit start)
      fun turns => found limit handles (tried limit start turns) := by
  intro turns _
  dsimp only
  unfold turn found
  split
  · rfl
  · rfl

/-- The search comes to all ids one after the other. -/
theorem tried_eq (lower : 1 ≤ start) (upper : start ≤ limit) (turns : Nat) :
    tried limit start turns = (start - 1 + turns) % limit + 1 := by
  induction turns with
  | zero =>
      rw [Nat.add_zero, Nat.mod_eq_of_lt (by omega)]
      show start = start - 1 + 1
      omega
  | succ turns ih =>
      have inside := Nat.mod_lt (start - 1 + turns) (by omega : limit > 0)
      rw [tried, ih, following, ← Nat.add_assoc, ← Nat.mod_add_mod (start - 1 + turns) limit 1]
      split
      · rename_i last
        have whole : (start - 1 + turns) % limit + 1 = limit := by omega
        rw [whole, Nat.mod_self]
      · rw [Nat.mod_eq_of_lt (by omega : (start - 1 + turns) % limit + 1 < limit)]

theorem tried_inside (lower : 1 ≤ start) (upper : start ≤ limit) (turns : Nat) :
    1 ≤ tried limit start turns ∧ tried limit start turns ≤ limit := by
  have inside := Nat.mod_lt (start - 1 + turns) (by omega : limit > 0)
  rw [tried_eq lower upper]
  omega

/-- Every id is tried before the first one comes back. -/
theorem exists_tried (lower : 1 ≤ start) (upper : start ≤ limit) (one : 1 ≤ id)
    (inside : id ≤ limit) : ∃ turns < limit, tried limit start turns = id := by
  refine ⟨(id - 1 + (limit - (start - 1))) % limit, Nat.mod_lt _ (by omega), ?_⟩
  have whole : start - 1 + (id - 1 + (limit - (start - 1))) = id - 1 + limit := by omega
  rw [tried_eq lower upper, Nat.add_mod, Nat.mod_mod, ← Nat.add_mod, whole, Nat.add_mod_right,
    Nat.mod_eq_of_lt (by omega)]
  omega

theorem tried_injective (lower : 1 ≤ start) (upper : start ≤ limit) {first second : Nat}
    (one : first < limit) (two : second < limit)
    (same : tried limit start first = tried limit start second) : first = second := by
  rw [tried_eq lower upper, tried_eq lower upper, Nat.add_right_cancel_iff] at same
  have close : first ≡ second [MOD limit] := Nat.ModEq.add_left_cancel' (start - 1) same
  rwa [Nat.ModEq, Nat.mod_eq_of_lt one, Nat.mod_eq_of_lt two] at close

/-- The search returns free ids only. -/
theorem free_of_returns {next : Nat} (returns : Returns (turn limit handles) start (id, next)) :
    Free limit handles id ∧ next = following limit id := by
  obtain ⟨turns, _, ended⟩ := (numbered start).returns_iff.mp returns
  unfold found at ended
  split at ended
  · rename_i free
    cases ended
    exact ⟨free, rfl⟩
  · cases ended

/-- Among as many ids as there are in use and one more, a free one is tried if there is any. -/
theorem exists_tried_free (lower : 1 ≤ start) (upper : start ≤ limit)
    (free : Free limit handles id) :
    ∃ turns ≤ handles.entries.length, Free limit handles (tried limit start turns) := by
  by_contra none_
  have inUse : ∀ turns ≤ handles.entries.length, tried limit start turns ∈ handles := by
    intro turns early
    by_contra unused
    have inside := tried_inside lower upper turns
    exact none_ ⟨turns, early, inside.1, inside.2, unused⟩
  by_cases many : handles.entries.length < limit
  · have distinct : ((List.range (handles.entries.length + 1)).map (tried limit start)).Nodup := by
      refine List.Nodup.map_on ?_ List.nodup_range
      intro first one second two same
      have one := List.mem_range.mp one
      have two := List.mem_range.mp two
      exact tried_injective lower upper (by omega) (by omega) same
    have within : (List.range (handles.entries.length + 1)).map (tried limit start) ⊆
        handles.keys := by
      intro id member
      obtain ⟨turns, early, rfl⟩ := List.mem_map.mp member
      exact AList.mem_keys.mp (inUse turns (by have := List.mem_range.mp early; omega))
    have fewer := (distinct.subperm within).length_le
    rw [List.length_map, List.length_range] at fewer
    have size : handles.keys.length = handles.entries.length := List.length_map _
    omega
  · obtain ⟨turns, early, same⟩ := exists_tried lower upper free.1 free.2.1
    exact free.2.2 (same ▸ inUse turns (by omega))

end Search

section Tables

/-- Open handles and the id to be tried first. -/
structure Table (Handle : Type) where
  nextId : Nat
  handles : AList fun _ : Nat => Handle

variable (limit : Nat)

/-- The search, for two turns more than there are open handles: if it ever returns, it has. -/
def allocate (handles : AList fun _ : Nat => Handle) (start : Nat) : Option (Nat × Nat) :=
  TailCalls.run (turn limit handles) (handles.entries.length + 2) start

def Table.allocId (table : Table Handle) : Option (Nat × Table Handle) :=
  (allocate limit table.handles table.nextId).map fun found =>
    (found.1, { table with nextId := found.2 })

/-- A handle under a new id. -/
def Table.insert (table : Table Handle) (handle : Handle) : Option (Nat × Table Handle) :=
  (table.allocId limit).map fun (id, allocated) =>
    (id, { allocated with handles := allocated.handles.insert id handle })

/-- The handle that is made, if one is, under a new id. -/
def Table.answer (table : Table Handle) : Option Handle → Option (Option Nat × Table Handle)
  | none => some (none, table)
  | some handle => (table.insert limit handle).map fun (id, after) => (some id, after)

def Table.close (table : Table Handle) (id : Nat) : Table Handle :=
  { table with handles := table.handles.erase id }

variable {limit} {handles : AList fun _ : Nat => Handle} {start : Nat}

theorem allocate_returns {result : Nat × Nat} (ended : allocate limit handles start = some result) :
    Returns (turn limit handles) start result := ⟨_, ended⟩

theorem allocate_isSome (lower : 1 ≤ start) (upper : start ≤ limit) {id : Nat}
    (free : Free limit handles id) : (allocate limit handles start).isSome = true := by
  obtain ⟨turns, early, first⟩ := exists_tried_free lower upper free
  have ends : found limit handles (tried limit start turns) ≠ none := by
    rw [found, if_pos first]
    exact Option.some_ne_none _
  have some_ : (TailCalls.run (turn limit handles) (turns + 1) start).isSome = true :=
    (numbered start).run_isSome ends
  obtain ⟨result, done⟩ := Option.isSome_iff_exists.mp some_
  rw [allocate, TailCalls.run_mono done (by omega)]
  rfl

end Tables

section Allocators

/-- A component that opens handles, by the requests it serves. -/
structure Allocator (State Handle Request : Type) where
  nextId : State → Nat
  handles : State → AList fun _ : Nat => Handle
  allocId : State → Option (Nat × State)
  step : State → Request → Option State
  /-- The id that a request is answered with. -/
  opened : State → Request → Option Nat

variable {State Request : Type} (allocator : Allocator State Handle Request) (limit : Nat)

/-- Ids are searched in a circle, and what is opened is put under the id that is found. -/
structure Allocator.Circles : Prop where
  searches : ∀ state, (allocator.allocId state).map (fun (id, after) =>
      (id, allocator.nextId after)) =
    allocate limit (allocator.handles state) (allocator.nextId state)
  allocates : ∀ state id after, allocator.allocId state = some (id, after) →
    allocator.handles after = allocator.handles state
  steps : ∀ state request after, allocator.step state request = some after →
    allocator.nextId after = allocator.nextId state ∨
      ∃ id allocated, allocator.allocId state = some (id, allocated) ∧
        allocator.nextId after = allocator.nextId allocated
  opens : ∀ state request after id, allocator.step state request = some after →
    allocator.opened state request = some id →
      ∃ allocated handle, allocator.allocId state = some (id, allocated) ∧
        allocator.handles after = (allocator.handles state).insert id handle

/-- The search ends if an id is free, with an id that no open handle has, and what is opened
takes no handle away. -/
structure Allocator.Fresh (state : State) : Prop where
  inRange : 1 ≤ allocator.nextId state ∧ allocator.nextId state ≤ limit
  terminates : (∃ id, Free limit (allocator.handles state) id) →
    ∃ id after, allocator.allocId state = some (id, after)
  returned : ∀ id after, allocator.allocId state = some (id, after) →
    Returns (turn limit (allocator.handles state)) (allocator.nextId state)
        (id, allocator.nextId after) ∧
      Free limit (allocator.handles state) id ∧
      1 ≤ allocator.nextId after ∧ allocator.nextId after ≤ limit
  keeps : ∀ request after id, allocator.step state request = some after →
    allocator.opened state request = some id →
      Free limit (allocator.handles state) id ∧
        ∀ other handle, (allocator.handles state).lookup other = some handle →
          (allocator.handles after).lookup other = some handle

variable {allocator limit}

theorem Allocator.Circles.returned (circles : allocator.Circles limit) {state after : State}
    {id : Nat} (allocated : allocator.allocId state = some (id, after)) :
    Returns (turn limit (allocator.handles state)) (allocator.nextId state)
      (id, allocator.nextId after) := by
  have search := circles.searches state
  rw [allocated] at search
  exact allocate_returns search.symm

theorem Allocator.Circles.fresh (circles : allocator.Circles limit) {state : State}
    (lower : 1 ≤ allocator.nextId state) (upper : allocator.nextId state ≤ limit) :
    allocator.Fresh limit state where
  inRange := ⟨lower, upper⟩
  terminates := by
    rintro ⟨free, isFree⟩
    have search := circles.searches state
    obtain ⟨result, ended⟩ := Option.isSome_iff_exists.mp (allocate_isSome lower upper isFree)
    rw [ended] at search
    obtain ⟨⟨id, after⟩, allocated, _⟩ := Option.map_eq_some_iff.mp search
    exact ⟨id, after, allocated⟩
  returned := by
    intro id after allocated
    have returns := circles.returned allocated
    obtain ⟨isFree, next⟩ := free_of_returns returns
    have inside := following_inside (by omega : 1 ≤ limit) id
    rw [← next] at inside
    exact ⟨returns, isFree, inside⟩
  keeps := by
    intro request after id stepped opened
    obtain ⟨allocated, handle, search, handles⟩ := circles.opens state request after id stepped opened
    have isFree := (free_of_returns (circles.returned search)).1
    refine ⟨isFree, ?_⟩
    intro other own there
    have different : other ≠ id := by
      rintro rfl
      exact isFree.2.2 (AList.lookup_isSome.mp (by rw [there]; rfl))
    rw [handles, AList.lookup_insert_ne different]
    exact there

/-- Ids are fresh in every run. -/
theorem Allocator.Circles.throughout (circles : allocator.Circles limit) {start : State}
    (lower : 1 ≤ allocator.nextId start) (upper : allocator.nextId start ≤ limit)
    (requests : List Request) :
    Throughout allocator.step (allocator.Fresh limit) start requests := by
  have meets : EachMeets allocator.step (fun _ _ => True) start requests :=
    eachMeets_of_forall fun _ _ _ => trivial
  refine throughout_of_eachMeets ?_ (circles.fresh lower upper) meets
  intro state request next fresh _ stepped
  rcases circles.steps state request next stepped with same | ⟨id, allocated, search, same⟩
  · exact circles.fresh (same ▸ fresh.inRange.1) (same ▸ fresh.inRange.2)
  · have after := (fresh.returned id allocated search).2.2
    exact circles.fresh (same ▸ after.1) (same ▸ after.2)

end Allocators

end NixRedox.CyclicIds
