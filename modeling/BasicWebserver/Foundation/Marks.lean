import Mathlib.Data.List.Basic
import Mathlib.Data.List.DropRight
import Mathlib.Data.List.TakeWhile

/-!
# Marks in encoded lists

An encoding writes each element of a list as some letters. Some of the elements are marks: they are
one letter each, and that letter stands for nothing else (`Marks`). Whatever is cut out of the
encoded list at the letters of marks is then the encoding of what is cut out of the list at the
marks. The lemmas about the end of a list come from those about its start, for the encoding that
writes the letters in reverse (`Marks.reverse`).
-/

/-- The elements with `p` are marks, and the letters with `q` are theirs. -/
structure Marks {α β : Type*} (e : α → List β) (p : α → Bool) (q : β → Bool) : Prop where
  mark : ∀ a, p a = true → ∃ b, e a = [b] ∧ q b = true
  other : ∀ a, p a = false → e a ≠ [] ∧ ∀ b ∈ e a, q b = false

namespace Marks

variable {α β : Type*} {e : α → List β} {p : α → Bool} {q : β → Bool}

theorem reverse (h : Marks e p q) : Marks (List.reverse ∘ e) p q where
  mark a ha := by
    obtain ⟨b, hb, hq⟩ := h.mark a ha
    exact ⟨b, by rw [Function.comp_apply, hb, List.reverse_singleton], hq⟩
  other a ha := by
    obtain ⟨hne, hq⟩ := h.other a ha
    exact ⟨by simpa using hne, fun b hb => hq b (List.mem_reverse.mp hb)⟩

theorem ne_nil (h : Marks e p q) (a : α) : e a ≠ [] := by
  cases ha : p a with
  | true =>
    obtain ⟨b, hb, -⟩ := h.mark a ha
    rw [hb]
    exact List.cons_ne_nil b []
  | false => exact (h.other a ha).1

theorem mem_flatMap (h : Marks e p q) {l : List α} :
    (∃ b ∈ l.flatMap e, q b = true) ↔ ∃ a ∈ l, p a = true := by
  constructor
  · rintro ⟨b, hb, hq⟩
    obtain ⟨a, ha, hb⟩ := List.mem_flatMap.mp hb
    refine ⟨a, ha, ?_⟩
    by_contra hp
    rw [(h.other a (Bool.not_eq_true _ ▸ hp)).2 b hb] at hq
    cases hq
  · rintro ⟨a, ha, hp⟩
    obtain ⟨b, hb, hq⟩ := h.mark a hp
    exact ⟨b, List.mem_flatMap.mpr ⟨a, ha, by rw [hb]; exact List.mem_singleton_self b⟩, hq⟩

/-! ## The start of a list -/

theorem head?_flatMap (h : Marks e p q) (l : List α) :
    (l.flatMap e).head?.any q = l.head?.any p := by
  cases l with
  | nil => rfl
  | cons a l =>
    rw [List.flatMap_cons]
    cases ha : p a with
    | true =>
      obtain ⟨b, hb, hq⟩ := h.mark a ha
      rw [hb]
      exact hq.trans ha.symm
    | false =>
      obtain ⟨hne, hq⟩ := h.other a ha
      obtain ⟨b, t, hb⟩ := List.exists_cons_of_ne_nil hne
      rw [hb]
      exact (hq b (hb ▸ List.mem_cons_self)).trans ha.symm

theorem drop_one_flatMap (h : Marks e p q) {l : List α} (hl : l.head?.any p = true) :
    (l.flatMap e).drop 1 = (l.drop 1).flatMap e := by
  cases l with
  | nil => rfl
  | cons a l =>
    obtain ⟨b, hb, -⟩ := h.mark a hl
    rw [List.flatMap_cons, hb]
    rfl

theorem takeWhile_flatMap (h : Marks e p q) (l : List α) :
    (l.flatMap e).takeWhile (fun b => !q b) = (l.takeWhile fun a => !p a).flatMap e := by
  induction l with
  | nil => rfl
  | cons a l ih =>
    rw [List.flatMap_cons]
    cases ha : p a with
    | true =>
      obtain ⟨b, hb, hq⟩ := h.mark a ha
      rw [hb, List.takeWhile_cons_of_neg (by simp [ha]), List.singleton_append,
        List.takeWhile_cons_of_neg (by simp [hq])]
      rfl
    | false =>
      obtain ⟨-, hq⟩ := h.other a ha
      rw [List.takeWhile_cons_of_pos (by simp [ha]), List.flatMap_cons,
        List.takeWhile_append_of_pos (fun b hb => by simp [hq b hb]), ih]

theorem dropWhile_flatMap (h : Marks e p q) (l : List α) :
    (l.flatMap e).dropWhile (fun b => !q b) = (l.dropWhile fun a => !p a).flatMap e := by
  have htake := h.takeWhile_flatMap l
  have hl : (l.takeWhile fun a => !p a).flatMap e ++ (l.dropWhile fun a => !p a).flatMap e =
      l.flatMap e := by rw [← List.flatMap_append, List.takeWhile_append_dropWhile]
  rw [← htake] at hl
  exact List.append_cancel_left
    ((List.takeWhile_append_dropWhile (p := fun b => !q b) (l := l.flatMap e)).trans hl.symm)

theorem afterFirst_flatMap (h : Marks e p q) (l : List α) :
    ((l.flatMap e).dropWhile fun b => !q b).drop 1 =
      ((l.dropWhile fun a => !p a).drop 1).flatMap e := by
  rw [h.dropWhile_flatMap]
  cases hl : l.dropWhile fun a => !p a with
  | nil => rfl
  | cons a rest =>
    have ha : p a = true := by
      have := List.head?_dropWhile_not (fun a => !p a) l
      rw [hl] at this
      simpa using this
    exact h.drop_one_flatMap (l := a :: rest) ha

/-! ## The end of a list -/

theorem getLast?_flatMap (h : Marks e p q) (l : List α) :
    (l.flatMap e).getLast?.any q = l.getLast?.any p := by
  rw [← List.head?_reverse, List.reverse_flatMap, h.reverse.head?_flatMap, List.head?_reverse]

theorem dropLast_flatMap (h : Marks e p q) {l : List α} (hl : l.getLast?.any p = true) :
    (l.flatMap e).dropLast = l.dropLast.flatMap e := by
  rw [← List.head?_reverse] at hl
  have := h.reverse.drop_one_flatMap hl
  rw [← List.reverse_flatMap, List.drop_one, List.drop_one, List.tail_reverse, List.tail_reverse,
    ← List.reverse_flatMap] at this
  exact List.reverse_injective this

theorem rtakeWhile_flatMap (h : Marks e p q) (l : List α) :
    (l.flatMap e).rtakeWhile (fun b => !q b) = (l.rtakeWhile fun a => !p a).flatMap e := by
  unfold List.rtakeWhile
  rw [List.reverse_flatMap, h.reverse.takeWhile_flatMap, ← List.reverse_reverse (l.reverse.takeWhile _),
    ← List.reverse_flatMap, List.reverse_reverse, List.reverse_reverse]

end Marks
