import Mathlib.Data.List.Nodup
import Mathlib.Data.List.Pairwise
import Mathlib.Logic.ExistsUnique
import Mathlib.Tactic.Common

/-!
# Exclusive ownership

`holds p i` says that the item `i` is at the place `p`. `Partition dom holds` says that exactly the
items in `dom` are somewhere, each at one place only. A step of a system either leaves `holds` as it
is (`Partition.congr`) or moves one item (`Partition.move`), so a conservation proof never looks at
more than two places.
-/

namespace Ownership

variable {κ ι : Type*} {dom : ι → Prop} {holds holds' : κ → ι → Prop}

/-- Every item of `dom`, and no other, is at exactly one place. -/
structure Partition (dom : ι → Prop) (holds : κ → ι → Prop) : Prop where
  exclusive : ∀ {p q : κ} {i : ι}, holds p i → holds q i → p = q
  covers : ∀ i, dom i ↔ ∃ p, holds p i

namespace Partition

theorem existsUnique (h : Partition dom holds) {i : ι} (hi : dom i) : ∃! p, holds p i := by
  obtain ⟨p, hp⟩ := (h.covers i).mp hi
  exact ⟨p, hp, fun q hq => h.exclusive hq hp⟩

theorem dom_of_holds (h : Partition dom holds) {p : κ} {i : ι} (hp : holds p i) : dom i :=
  (h.covers i).mpr ⟨p, hp⟩

theorem congr (h : Partition dom holds) (e : ∀ p i, holds' p i ↔ holds p i) :
    Partition dom holds' where
  exclusive hp hq := h.exclusive ((e _ _).mp hp) ((e _ _).mp hq)
  covers i := by simp only [e, h.covers]

/-- Moving `i` from `p` to `q` keeps the partition. -/
theorem move (h : Partition dom holds) {i : ι} {p q : κ} (hp : holds p i)
    (hsrc : ∀ j, holds' p j ↔ holds p j ∧ j ≠ i) (hdst : ∀ j, holds' q j ↔ holds q j ∨ j = i)
    (hrest : ∀ r, r ≠ p → r ≠ q → ∀ j, holds' r j ↔ holds r j) : Partition dom holds' := by
  have hpq : p ≠ q := by
    rintro rfl
    exact ((hsrc i).mp ((hdst i).mpr (.inr rfl))).2 rfl
  -- away from `i` nothing changes, and `i` itself is at `q` only
  have haway : ∀ r j, j ≠ i → (holds' r j ↔ holds r j) := by
    intro r j hj
    by_cases hrp : r = p
    · subst hrp; rw [hsrc]; exact and_iff_left hj
    by_cases hrq : r = q
    · subst hrq; rw [hdst]; exact or_iff_left hj
    exact hrest r hrp hrq j
  have hat : ∀ r, holds' r i ↔ r = q := by
    intro r
    by_cases hrp : r = p
    · subst hrp; rw [hsrc]; simp [hpq]
    by_cases hrq : r = q
    · subst hrq; rw [hdst]; simp
    rw [hrest r hrp hrq]
    exact ⟨fun hr => absurd (h.exclusive hr hp) hrp, fun e => absurd e hrq⟩
  constructor
  · intro r r' j hr hr'
    by_cases hj : j = i
    · subst hj
      rw [hat] at hr hr'
      rw [hr, hr']
    · exact h.exclusive ((haway r j hj).mp hr) ((haway r' j hj).mp hr')
  · intro j
    by_cases hj : j = i
    · subst hj
      exact ⟨fun _ => ⟨q, (hat q).mpr rfl⟩, fun _ => h.dom_of_holds hp⟩
    · rw [h.covers]
      exact exists_congr fun r => (haway r j hj).symm

end Partition

end Ownership
