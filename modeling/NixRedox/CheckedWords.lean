import Mathlib

set_option autoImplicit false

/- Arithmetic of 64-bit words that stops where it would wrap, as a build with overflow
checks runs it, and the sums of a loop over such additions. -/
namespace NixRedox.CheckedWords

def checkedAdd (first second : UInt64) : Option UInt64 :=
  if first.toNat + second.toNat < 2 ^ 64 then some (first + second) else none

def checkedSub (first second : UInt64) : Option UInt64 :=
  if second.toNat ≤ first.toNat then some (first - second) else none

def checkedMul (first second : UInt64) : Option UInt64 :=
  if first.toNat * second.toNat < 2 ^ 64 then some (first * second) else none

theorem exists_word {value : Nat} (small : value < 2 ^ 64) :
    ∃ word : UInt64, word.toNat = value := by
  refine ⟨UInt64.ofNat value, ?_⟩
  rw [UInt64.toNat_ofNat', Nat.mod_eq_of_lt small]

theorem checkedAdd_eq_some {first second sum : UInt64} :
    checkedAdd first second = some sum ↔ sum.toNat = first.toNat + second.toNat := by
  have bound := sum.toNat_lt
  unfold checkedAdd
  split
  · rename_i small
    rw [Option.some.injEq, ← UInt64.toNat_inj, UInt64.toNat_add, Nat.mod_eq_of_lt small]
    exact eq_comm
  · simp only [reduceCtorEq, false_iff]
    omega

theorem checkedSub_eq_some {first second rest : UInt64} :
    checkedSub first second = some rest ↔ rest.toNat + second.toNat = first.toNat := by
  unfold checkedSub
  split
  · rename_i enough
    rw [Option.some.injEq, ← UInt64.toNat_inj, UInt64.toNat_sub_of_le _ _ enough]
    omega
  · simp only [reduceCtorEq, false_iff]
    omega

theorem checkedMul_eq_some {first second product : UInt64} :
    checkedMul first second = some product ↔ product.toNat = first.toNat * second.toNat := by
  have bound := product.toNat_lt
  unfold checkedMul
  split
  · rename_i small
    rw [Option.some.injEq, ← UInt64.toNat_inj, UInt64.toNat_mul, Nat.mod_eq_of_lt small]
    exact eq_comm
  · simp only [reduceCtorEq, false_iff]
    omega

theorem add_of_checkedAdd {first second sum : UInt64}
    (checked : checkedAdd first second = some sum) : first + second = sum := by
  unfold checkedAdd at checked
  split at checked
  · exact Option.some.inj checked
  · cases checked

theorem sub_of_checkedSub {first second rest : UInt64}
    (checked : checkedSub first second = some rest) : first - second = rest := by
  unfold checkedSub at checked
  split at checked
  · exact Option.some.inj checked
  · cases checked

theorem mul_of_checkedMul {first second product : UInt64}
    (checked : checkedMul first second = some product) : first * second = product := by
  unfold checkedMul at checked
  split at checked
  · exact Option.some.inj checked
  · cases checked

section Loops

variable {α : Type} {step : UInt64 → α → Option UInt64}

/-- A loop whose steps each add a weight, where they are allowed, adds up the weights. -/
theorem foldlM_eq_some {allowed : α → Prop} {weight : α → Nat} {items : List α}
    (adds : ∀ item ∈ items, ∀ total next, step total item = some next ↔
      allowed item ∧ next.toNat = total.toNat + weight item) {total result : UInt64} :
    items.foldlM step total = some result ↔
      (∀ item ∈ items, allowed item) ∧
        result.toNat = total.toNat + (items.map weight).sum := by
  induction items generalizing total with
  | nil =>
      simp [← UInt64.toNat_inj, eq_comm]
  | cons item rest ih =>
      have later : ∀ next : UInt64, rest.foldlM step next = some result ↔
          (∀ other ∈ rest, allowed other) ∧
            result.toNat = next.toNat + (rest.map weight).sum :=
        fun _ => ih fun other member => adds other (List.mem_cons_of_mem item member)
      have first := adds item List.mem_cons_self total
      have bound := result.toNat_lt
      rw [List.foldlM_cons, Option.bind_eq_bind, Option.bind_eq_some_iff, List.map_cons,
        List.sum_cons, List.forall_mem_cons]
      constructor
      · rintro ⟨next, stepped, finished⟩
        obtain ⟨fine, added⟩ := (first next).mp stepped
        obtain ⟨others, reached⟩ := (later next).mp finished
        exact ⟨⟨fine, others⟩, by omega⟩
      · rintro ⟨⟨fine, others⟩, reached⟩
        have small : total.toNat + weight item < 2 ^ 64 := by omega
        obtain ⟨next, added⟩ := exists_word small
        exact ⟨next, (first next).mpr ⟨fine, added⟩, (later next).mpr ⟨others, by omega⟩⟩

/-- Checked steps that all pass give what the wrapping ones give. -/
theorem foldlM_of_checked {plain : UInt64 → α → Option UInt64} {items : List α}
    (agrees : ∀ item ∈ items, ∀ total next, step total item = some next →
      plain total item = some next) {total result : UInt64}
    (checked : items.foldlM step total = some result) :
    items.foldlM plain total = some result := by
  induction items generalizing total with
  | nil =>
      exact checked
  | cons item rest ih =>
      rw [List.foldlM_cons, Option.bind_eq_bind, Option.bind_eq_some_iff] at checked ⊢
      obtain ⟨next, stepped, finished⟩ := checked
      exact ⟨next, agrees item List.mem_cons_self total next stepped,
        ih (fun other member => agrees other (List.mem_cons_of_mem item member)) finished⟩

end Loops

end NixRedox.CheckedWords
