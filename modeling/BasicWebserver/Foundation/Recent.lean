import Mathlib.Data.List.Basic
import Mathlib.Data.List.Nodup
import Mathlib.Data.List.Pairwise

/-!
# Bounded lists in most-recent-first order

A cache kept as a list: `take` removes the entry with a given key, `put` adds one in front and drops
what exceeds the capacity at the back. Entries carry the time of their `put`. `WellFormed` says that
no key occurs twice, that the capacity is kept and that later entries come first; it is kept by
`take`, and by `put` of an entry whose key is not in the list.
-/

namespace Recent

variable {α κ : Type*} (key : α → κ) (time : α → ℕ)

/-- The first entry with key `k` and the other entries. -/
def take [DecidableEq κ] (k : κ) (l : List α) : Option (α × List α) :=
  (l.find? fun x => key x = k).map fun x => (x, l.eraseP fun x => key x = k)

/-- The list with `x` in front, cut to the capacity. -/
def put (capacity : ℕ) (x : α) (l : List α) : List α := (x :: l).take capacity

variable {key time} {k : κ} {x : α} {l rest : List α} {capacity now : ℕ}

section Take

variable [DecidableEq κ]

theorem key_of_take (h : take key k l = some (x, rest)) : key x = k := by
  obtain ⟨y, hy, he⟩ := Option.map_eq_some_iff.mp h
  obtain ⟨rfl, -⟩ := Prod.mk.inj he
  simpa using List.find?_some hy

theorem sublist_of_take (h : take key k l = some (x, rest)) : rest.Sublist l := by
  obtain ⟨y, -, he⟩ := Option.map_eq_some_iff.mp h
  obtain ⟨-, rfl⟩ := Prod.mk.inj he
  exact List.eraseP_sublist

theorem notMem_of_take_eq_none (h : take key k l = none) : k ∉ l.map key := by
  rw [take, Option.map_eq_none_iff, List.find?_eq_none] at h
  rintro hk
  obtain ⟨y, hy, rfl⟩ := List.mem_map.mp hk
  exact h y hy (by simp)

theorem notMem_of_take (h : take key k l = some (x, rest)) (hl : (l.map key).Nodup) :
    k ∉ rest.map key := by
  obtain ⟨y, hy, he⟩ := Option.map_eq_some_iff.mp h
  obtain ⟨-, rfl⟩ := Prod.mk.inj he
  clear h he
  induction l with
  | nil => cases hy
  | cons z l ih =>
    rw [List.map_cons, List.nodup_cons] at hl
    by_cases hz : key z = k
    · subst hz
      rw [List.eraseP_cons_of_pos (by simp)]
      exact hl.1
    · rw [List.find?_cons_of_neg (by simpa using hz)] at hy
      rw [List.eraseP_cons_of_neg (by simpa using hz), List.map_cons, List.mem_cons, not_or]
      exact ⟨Ne.symm hz, ih hl.2 hy⟩

end Take

theorem put_sublist : (put capacity x l).Sublist (x :: l) := List.take_sublist _ _

variable (key time) in
/-- A cache at time `now`. -/
structure WellFormed (capacity now : ℕ) (l : List α) : Prop where
  nodup : (l.map key).Nodup
  length_le : l.length ≤ capacity
  recent : l.Pairwise fun x y => time y < time x
  past : ∀ x ∈ l, time x < now

namespace WellFormed

theorem nil : WellFormed key time capacity now [] :=
  ⟨List.nodup_nil, Nat.zero_le _, List.Pairwise.nil, fun _ => nofun⟩

theorem sublist (h : WellFormed key time capacity now l) (hs : rest.Sublist l) :
    WellFormed key time capacity now rest where
  nodup := h.nodup.sublist (hs.map key)
  length_le := Nat.le_trans hs.length_le h.length_le
  recent := h.recent.sublist hs
  past x hx := h.past x (hs.subset hx)

theorem put (h : WellFormed key time capacity now l) (hx : time x = now) (hk : key x ∉ l.map key) :
    WellFormed key time capacity (now + 1) (put capacity x l) where
  nodup := (List.nodup_cons.mpr ⟨hk, h.nodup⟩).sublist (put_sublist.map key)
  length_le := by
    rw [Recent.put, List.length_take]
    exact Nat.min_le_left _ _
  recent := (List.pairwise_cons.mpr ⟨fun y hy => hx ▸ h.past y hy, h.recent⟩).sublist put_sublist
  past y hy := by
    rcases List.mem_cons.mp (put_sublist.subset hy) with rfl | hy
    · omega
    · exact Nat.lt_succ_of_lt (h.past y hy)

end WellFormed

end Recent
