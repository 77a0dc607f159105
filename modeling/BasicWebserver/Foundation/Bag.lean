import Mathlib.Data.Multiset.Filter

/-!
# Bags of pending work

Values that several parties hold at once (open reservations, references, calls in progress) are kept
in a list whose order means nothing. A label names an entry by its position, and `takeAt` takes it
out, so no equality on the entries is needed. Proofs look at the list as a multiset.
-/

namespace Bag

variable {α β : Type*}

/-- The entry at position `j` and the other entries. -/
def takeAt (l : List α) (j : ℕ) : Option (α × List α) := l[j]?.map fun x => (x, l.eraseIdx j)

theorem coe_of_takeAt {l rest : List α} {j : ℕ} {x : α} (h : takeAt l j = some (x, rest)) :
    (l : Multiset α) = x ::ₘ (rest : Multiset α) := by
  unfold takeAt at h
  obtain ⟨y, hy, he⟩ := Option.map_eq_some_iff.mp h
  obtain ⟨hj, rfl⟩ := List.getElem?_eq_some_iff.mp hy
  obtain ⟨rfl, rfl⟩ := Prod.mk.inj he
  rw [Multiset.cons_coe, Multiset.coe_eq_coe]
  exact (List.getElem_cons_eraseIdx_perm hj).symm

theorem mem_of_takeAt {l rest : List α} {j : ℕ} {x : α} (h : takeAt l j = some (x, rest)) :
    x ∈ l := by
  rw [← Multiset.mem_coe, coe_of_takeAt h]
  exact Multiset.mem_cons_self x _

/-- The entries whose key is `i`. -/
def part [DecidableEq β] (f : α → β) (i : β) (l : List α) : Multiset α :=
  (l : Multiset α).filter (f · = i)

section Part

variable [DecidableEq β] {f : α → β} {i : β} {l rest : List α} {j : ℕ} {x : α}

@[simp] theorem part_nil : part f i [] = 0 := rfl

theorem mem_part : x ∈ part f i l ↔ x ∈ l ∧ f x = i := by
  rw [part, Multiset.mem_filter, Multiset.mem_coe]

theorem part_cons_self (h : f x = i) : part f i (x :: l) = x ::ₘ part f i l := by
  rw [part, ← Multiset.cons_coe, Multiset.filter_cons_of_pos (p := (f · = i)) _ h, part]

theorem part_cons_ne (h : i ≠ f x) : part f i (x :: l) = part f i l := by
  rw [part, ← Multiset.cons_coe, Multiset.filter_cons_of_neg (p := (f · = i)) _ (Ne.symm h), part]

theorem part_takeAt_self (h : takeAt l j = some (x, rest)) (hi : f x = i) :
    part f i l = x ::ₘ part f i rest := by
  rw [part, coe_of_takeAt h, Multiset.filter_cons_of_pos (p := (f · = i)) _ hi, part]

theorem part_takeAt_ne (h : takeAt l j = some (x, rest)) (hi : i ≠ f x) :
    part f i rest = part f i l := by
  rw [part, part, coe_of_takeAt h, Multiset.filter_cons_of_neg (p := (f · = i)) _ (Ne.symm hi)]

end Part

theorem mem_of_mem_rest {l rest : List α} {j : ℕ} {x y : α} (h : takeAt l j = some (x, rest))
    (hy : y ∈ rest) : y ∈ l := by
  rw [← Multiset.mem_coe, coe_of_takeAt h]
  exact Multiset.mem_cons_of_mem hy

end Bag
