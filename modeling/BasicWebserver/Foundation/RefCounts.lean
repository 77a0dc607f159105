import Mathlib.Data.List.Count
import Mathlib.Data.Int.Notation
import Mathlib.Logic.Function.Basic
import Mathlib.Tactic.Common

/-!
# Reference counts

A table of cells with a count each. `decref` drops one reference: a count of zero marks data that is
never freed, and the reference that takes a count from one to zero frees the cell. A freed cell must
not be touched again.

`Accounted t owners` says that every count is the number of owners. Dropping references that their
owners had leaves the counts accounted for by the owners that are left (`Accounted.decrefAll`), and
by no others (`Accounted.unique`).
-/

namespace RefCounts

variable {α : Type*} [DecidableEq α]

structure Table (α : Type*) where
  count : α → ℤ
  freed : List α

namespace Table

variable (t : Table α)

/-- Drop a reference to a cell; `none` if it was freed before. -/
def decref (a : α) : Option (Table α) :=
  if a ∈ t.freed then none
  else if t.count a = 0 then some t
  else if t.count a = 1 then some ⟨Function.update t.count a (t.count a - 1), a :: t.freed⟩
  else some ⟨Function.update t.count a (t.count a - 1), t.freed⟩

def decrefAll : Table α → List α → Option (Table α)
  | t, [] => some t
  | t, a :: l => (t.decref a).bind fun t => decrefAll t l

/-- The cell is not counted. -/
def Static (a : α) : Prop := t.count a = 0 ∧ a ∉ t.freed

instance (a : α) : Decidable (t.Static a) := inferInstanceAs (Decidable (_ ∧ _))

/-- Every counted cell has as many references as owners, and what has an owner is not freed. -/
structure Accounted (owners : α → ℕ) : Prop where
  count : ∀ a, ¬ t.Static a → t.count a = owners a
  alive : ∀ a, 0 < owners a → a ∉ t.freed

variable {t} {t' : Table α} {owners owners' : α → ℕ} {a b : α} {l : List α}

theorem decrefAll_singleton (t : Table α) (a : α) : t.decrefAll [a] = t.decref a :=
  Option.bind_fun_some _

theorem decrefAll_append (t : Table α) (l l' : List α) :
    t.decrefAll (l ++ l') = (t.decrefAll l).bind fun t => t.decrefAll l' := by
  induction l generalizing t with
  | nil => rfl
  | cons a l ih =>
    rw [List.cons_append, decrefAll, decrefAll, Option.bind_assoc]
    exact congrArg _ (funext fun t => ih t)

theorem decref_counted (hfreed : a ∉ t.freed) (hzero : t.count a ≠ 0) :
    ∃ t', t.decref a = some t' ∧ t'.count a = t.count a - 1 ∧ (∀ b, b ≠ a → t'.count b = t.count b) ∧
      ∀ b, b ∈ t'.freed ↔ b ∈ t.freed ∨ (b = a ∧ t.count a = 1) := by
  unfold decref
  rw [if_neg hfreed, if_neg hzero]
  by_cases hone : t.count a = 1
  · rw [if_pos hone]
    refine ⟨_, rfl, Function.update_self .., fun b hb => Function.update_of_ne hb _ _, fun b => ?_⟩
    rw [List.mem_cons, or_comm, and_iff_left hone]
  · rw [if_neg hone]
    refine ⟨_, rfl, Function.update_self .., fun b hb => Function.update_of_ne hb _ _, fun b => ?_⟩
    rw [or_iff_left fun h => hone h.2]

theorem Accounted.decref (h : t.Accounted owners) (ha : 0 < owners a) :
    ∃ t', t.decref a = some t' ∧ (∀ b, t'.Static b ↔ t.Static b) ∧
      t'.Accounted (Function.update owners a (owners a - 1)) := by
  have hfreed : a ∉ t.freed := h.alive a ha
  have hle : ∀ b, 0 < Function.update owners a (owners a - 1) b → 0 < owners b := by
    intro b hb
    by_cases hba : b = a
    · exact hba ▸ ha
    · rwa [Function.update_of_ne hba] at hb
  by_cases hzero : t.count a = 0
  · -- the cell is not counted, and nothing changes
    refine ⟨t, by rw [Table.decref, if_neg hfreed, if_pos hzero], fun b => Iff.rfl, ?_, ?_⟩
    · intro b hb
      have hba : b ≠ a := fun hba => hb (hba ▸ ⟨hzero, hfreed⟩)
      rw [Function.update_of_ne hba]
      exact h.count b hb
    · exact fun b hb => h.alive b (hle b hb)
  have hcount : t.count a = owners a := h.count a fun hs => hzero hs.1
  obtain ⟨t', ht', hself, hother, hfree⟩ := decref_counted hfreed hzero
  have hstatic : ∀ b, t'.Static b ↔ t.Static b := by
    intro b
    unfold Static
    by_cases hba : b = a
    · subst hba
      refine iff_of_false (fun hs => hs.2 ((hfree b).mpr (.inr ⟨rfl, ?_⟩))) fun hs => hzero hs.1
      omega
    · rw [hother b hba, hfree, or_iff_left fun h => hba h.1]
  refine ⟨t', ht', hstatic, ?_, ?_⟩
  · intro b hb
    by_cases hba : b = a
    · subst hba
      rw [hself, Function.update_self]
      omega
    · rw [hother b hba, Function.update_of_ne hba]
      exact h.count b (mt (hstatic b).mpr hb)
  · intro b hb hmem
    rcases (hfree b).mp hmem with hmem | ⟨rfl, hone⟩
    · exact h.alive b (hle b hb) hmem
    · rw [Function.update_self] at hb
      omega

theorem Accounted.decrefAll (h : t.Accounted owners) (hl : ∀ a, l.count a ≤ owners a) :
    ∃ t', t.decrefAll l = some t' ∧ (∀ b, t'.Static b ↔ t.Static b) ∧
      t'.Accounted fun a => owners a - l.count a := by
  induction l generalizing t owners with
  | nil => exact ⟨t, rfl, fun _ => Iff.rfl, h⟩
  | cons a l ih =>
    have hself := hl a
    rw [List.count_cons_self] at hself
    obtain ⟨t₁, ht₁, hstatic₁, h₁⟩ := h.decref (a := a) (by omega)
    have hrest : ∀ b, l.count b ≤ Function.update owners a (owners a - 1) b := by
      intro b
      by_cases hba : b = a
      · subst hba
        rw [Function.update_self]
        omega
      · rw [Function.update_of_ne hba, ← List.count_cons_of_ne (Ne.symm hba)]
        exact hl b
    obtain ⟨t₂, ht₂, hstatic₂, h₂⟩ := ih h₁ hrest
    refine ⟨t₂, by rw [Table.decrefAll, ht₁, Option.bind_some, ht₂],
      fun b => (hstatic₂ b).trans (hstatic₁ b), ?_⟩
    have howners : (fun b => Function.update owners a (owners a - 1) b - l.count b) =
        fun b => owners b - (a :: l).count b := by
      funext b
      by_cases hba : b = a
      · subst hba
        rw [Function.update_self, List.count_cons_self]
        omega
      · rw [Function.update_of_ne hba, List.count_cons_of_ne (Ne.symm hba)]
    rwa [← howners]

omit [DecidableEq α] in
theorem Accounted.unique (h : t.Accounted owners) (h' : t.Accounted owners') (ha : ¬ t.Static a) :
    owners a = owners' a :=
  Int.ofNat.inj ((h.count a ha).symm.trans (h'.count a ha))

omit [DecidableEq α] in
theorem Accounted.congr (h : t.Accounted owners) (he : ∀ a, ¬ t.Static a → owners' a = owners a) :
    t.Accounted owners' where
  count a ha := (h.count a ha).trans (by rw [he a ha])
  alive a ha hfreed := by
    have hcounted : ¬ t.Static a := fun hs => hs.2 hfreed
    exact h.alive a (he a hcounted ▸ ha) hfreed

end Table

end RefCounts
