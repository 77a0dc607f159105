import Mathlib.Data.List.DropRight
import Mathlib.Data.List.Infix
import Mathlib.Data.List.Basic

/-!
# Splitting at a separator

The parts of a list between the occurrences of a separator, which are taken from the left and do not
overlap. Joining the parts gives the list back, and splitting a join of parts without the
separator's first element gives the parts back.
-/

namespace Splitting

variable {α : Type*} [DecidableEq α]

/-- The list in front of the first part. -/
def prepend (a : List α) : List (List α) → List (List α)
  | [] => [a]
  | part :: parts => (a ++ part) :: parts

/-- The parts after `k` elements that belong to a separator. -/
def splitFrom (sep : List α) : ℕ → List α → List (List α)
  | _, [] => [[]]
  | k + 1, _ :: l => splitFrom sep k l
  | 0, a :: l =>
    if sep <+: a :: l then [] :: splitFrom sep (sep.length - 1) l
    else prepend [a] (splitFrom sep 0 l)

/-- The parts between the occurrences of a separator. -/
def splitOn (sep l : List α) : List (List α) := splitFrom sep 0 l

variable {sep l a b : List α} {c : α} {parts : List (List α)}

omit [DecidableEq α] in
theorem prepend_prepend (h : parts ≠ []) :
    prepend a (prepend b parts) = prepend (a ++ b) parts := by
  cases parts with
  | nil => exact absurd rfl h
  | cons part parts => exact congrArg (· :: parts) (List.append_assoc ..).symm

theorem splitFrom_drop (k : ℕ) (l : List α) : splitFrom sep k l = splitOn sep (l.drop k) := by
  induction l generalizing k with
  | nil => cases k <;> rfl
  | cons x l ih =>
    cases k with
    | zero => rfl
    | succ k => exact ih k

theorem splitOn_ne_nil (sep l : List α) : splitOn sep l ≠ [] := by
  cases l with
  | nil => exact List.cons_ne_nil _ _
  | cons x l =>
    unfold splitOn splitFrom
    split_ifs
    · exact List.cons_ne_nil _ _
    · cases splitFrom sep 0 l <;> exact List.cons_ne_nil _ _

@[simp] theorem splitOn_nil : splitOn sep [] = [[]] := rfl

theorem splitOn_sep (hsep : sep ≠ []) (b : List α) : splitOn sep (sep ++ b) = [] :: splitOn sep b := by
  obtain ⟨x, s, rfl⟩ := List.exists_cons_of_ne_nil hsep
  show splitFrom (x :: s) 0 (x :: (s ++ b)) = _
  unfold splitFrom
  rw [if_pos ⟨b, rfl⟩, splitFrom_drop, List.length_cons, Nat.add_sub_cancel, List.drop_left]

theorem splitOn_cons (h : ¬ sep <+: c :: l) : splitOn sep (c :: l) = prepend [c] (splitOn sep l) :=
  if_neg h

/-- The first part ends at the first occurrence, wherever it begins before the separator ends. -/
theorem splitOn_first (hsep : sep ≠ []) (h : ¬ sep <:+: a ++ sep.dropLast) (b : List α) :
    splitOn sep (a ++ (sep ++ b)) = a :: splitOn sep b := by
  induction a with
  | nil => exact splitOn_sep hsep b
  | cons x a ih =>
    have hstart : ¬ sep <+: x :: (a ++ (sep ++ b)) := by
      intro hstart
      -- an occurrence at `x` ends before the one after `a` does
      refine h (List.IsPrefix.isInfix ?_)
      have hlong : x :: a ++ sep.dropLast <+: x :: (a ++ (sep ++ b)) := by
        rw [← List.cons_append]
        exact (List.prefix_append_right_inj _).mpr
          ((List.dropLast_prefix sep).trans (List.prefix_append sep b))
      refine List.prefix_of_prefix_length_le hstart hlong ?_
      rw [List.length_append, List.length_cons, List.length_dropLast]
      omega
    have hrest : ¬ sep <:+: a ++ sep.dropLast := fun hinner =>
      h (List.infix_cons_iff.mpr (.inr hinner))
    rw [List.cons_append, splitOn_cons hstart, ih hrest]
    rfl

/-! ## A separator whose first element is absent -/

theorem splitOn_append (s : List α) (hc : c ∉ a) (l : List α) :
    splitOn (c :: s) (a ++ l) = prepend a (splitOn (c :: s) l) := by
  induction a with
  | nil =>
    cases hparts : splitOn (c :: s) l with
    | nil => exact absurd hparts (splitOn_ne_nil _ _)
    | cons part parts => exact hparts
  | cons x a ih =>
    obtain ⟨hx, ha⟩ := not_or.mp (mt List.mem_cons.mpr hc)
    have hnot : ¬ c :: s <+: x :: (a ++ l) := fun h => hx (List.cons_prefix_cons.mp h).1
    rw [List.cons_append, splitOn_cons hnot, ih ha, prepend_prepend (splitOn_ne_nil _ _)]
    rfl

theorem splitOn_append_sep (s : List α) (hc : c ∉ a) (b : List α) :
    splitOn (c :: s) (a ++ (c :: s ++ b)) = a :: splitOn (c :: s) b := by
  rw [splitOn_append s hc, splitOn_sep (List.cons_ne_nil _ _)]
  exact congrArg (· :: _) (List.append_nil a)

theorem splitOn_of_notMem (s : List α) (hc : c ∉ l) : splitOn (c :: s) l = [l] := by
  have h := splitOn_append s hc []
  rw [List.append_nil] at h
  rw [h]
  exact congrArg ([·]) (List.append_nil l)

/-- An occurrence of a separator that cannot overlap with itself divides the split. -/
theorem splitOn_append_append {s : List α} (hs : c ∉ s) (a b : List α) :
    splitOn (c :: s) (a ++ (c :: s ++ b)) = splitOn (c :: s) a ++ splitOn (c :: s) b := by
  induction hn : a.length using Nat.strong_induction_on generalizing a with
  | _ n ih =>
    subst hn
    cases a with
    | nil => exact splitOn_sep (List.cons_ne_nil _ _) b
    | cons x a =>
      by_cases hp : c :: s <+: x :: a
      · obtain ⟨a', ha⟩ := hp
        have hlt : a'.length < (x :: a).length := by
          rw [← ha, List.length_append, List.length_cons]
          omega
        rw [← ha, List.append_assoc, splitOn_sep (List.cons_ne_nil _ _),
          splitOn_sep (List.cons_ne_nil _ _), ih _ hlt a' rfl]
        rfl
      · have hnot : ¬ c :: s <+: x :: (a ++ (c :: s ++ b)) := by
          rintro ⟨l, hl⟩
          rcases List.append_eq_append_iff.mp (show c :: s ++ l = x :: a ++ (c :: s ++ b) from hl)
            with ⟨a', ha, -⟩ | ⟨a', ha, hb⟩
          · exact hp ⟨a', ha.symm⟩
          · -- an overlap would put the first element inside the separator
            cases a' with
            | nil => exact hp ⟨[], by rw [List.append_nil]; simpa using ha⟩
            | cons y a' =>
              obtain ⟨-, hs'⟩ := List.cons.inj ha
              obtain ⟨rfl, -⟩ := List.cons.inj hb
              exact hs (hs' ▸ List.mem_append_right _ List.mem_cons_self)
        rw [List.cons_append, splitOn_cons hnot, splitOn_cons hp, ih _ (Nat.lt_succ_self _) a rfl]
        cases hparts : splitOn (c :: s) a with
        | nil => exact absurd hparts (splitOn_ne_nil _ _)
        | cons part parts => rfl

/-! ## Joining -/

omit [DecidableEq α] in
theorem intercalate_prepend (h : parts ≠ []) :
    sep.intercalate (prepend a parts) = a ++ sep.intercalate parts := by
  cases parts with
  | nil => exact absurd rfl h
  | cons part parts =>
    cases parts with
    | nil => simp [prepend, List.intercalate]
    | cons next parts => simp [prepend, List.intercalate]

omit [DecidableEq α] in
theorem intercalate_cons (part : List α) (h : parts ≠ []) :
    sep.intercalate (part :: parts) = part ++ (sep ++ sep.intercalate parts) :=
  (List.intercalate_cons_of_ne_nil h).trans (List.append_assoc ..)

omit [DecidableEq α] in
theorem mem_intercalate {x : α} (h : x ∈ sep.intercalate parts) :
    x ∈ sep ∨ ∃ part ∈ parts, x ∈ part := by
  induction parts with
  | nil => exact absurd h List.not_mem_nil
  | cons part parts ih =>
    by_cases hparts : parts = []
    · subst hparts
      rw [List.intercalate_singleton] at h
      exact .inr ⟨part, List.mem_cons_self, h⟩
    · rw [intercalate_cons part hparts, List.mem_append, List.mem_append] at h
      rcases h with h | h | h
      · exact .inr ⟨part, List.mem_cons_self, h⟩
      · exact .inl h
      · rcases ih h with h | ⟨next, hnext, h⟩
        · exact .inl h
        · exact .inr ⟨next, List.mem_cons_of_mem _ hnext, h⟩

omit [DecidableEq α] in
theorem mem_intercalate_of_mem {part : List α} {x : α} (h : part ∈ parts) (hx : x ∈ part) :
    x ∈ sep.intercalate parts := by
  induction parts with
  | nil => exact absurd h List.not_mem_nil
  | cons first parts ih =>
    by_cases hparts : parts = []
    · subst hparts
      rw [List.intercalate_singleton, ← List.mem_singleton.mp h]
      exact hx
    · rw [intercalate_cons first hparts, List.mem_append, List.mem_append]
      rcases List.mem_cons.mp h with rfl | h
      · exact .inl hx
      · exact .inr (.inr (ih h))

omit [DecidableEq α] in
theorem intercalate_ne_nil (h : ∀ part ∈ parts, part ≠ []) :
    sep.intercalate parts ≠ [] ↔ parts ≠ [] := by
  constructor
  · rintro hjoin rfl
    exact hjoin rfl
  · intro hparts
    obtain ⟨part, rest, rfl⟩ := List.exists_cons_of_ne_nil hparts
    obtain ⟨x, hx⟩ := List.exists_mem_of_ne_nil part (h part List.mem_cons_self)
    exact List.ne_nil_of_mem (mem_intercalate_of_mem List.mem_cons_self hx)

omit [DecidableEq α] in
theorem intercalate_append {parts' : List (List α)} (h : parts ≠ []) (h' : parts' ≠ []) :
    sep.intercalate (parts ++ parts') = sep.intercalate parts ++ (sep ++ sep.intercalate parts') := by
  induction parts with
  | nil => exact absurd rfl h
  | cons part parts ih =>
    by_cases hnil : parts = []
    · subst hnil
      rw [List.singleton_append, intercalate_cons part h', List.intercalate_singleton]
    · rw [List.cons_append, intercalate_cons part (List.append_ne_nil_of_left_ne_nil hnil _), ih hnil,
        intercalate_cons part hnil]
      simp only [List.append_assoc]

theorem intercalate_splitOn (hsep : sep ≠ []) (l : List α) : sep.intercalate (splitOn sep l) = l := by
  -- by the length of the list, as an occurrence is dropped at once
  induction hn : l.length using Nat.strong_induction_on generalizing l with
  | _ n ih =>
    subst hn
    cases l with
    | nil => rfl
    | cons x l =>
      by_cases h : sep <+: x :: l
      · obtain ⟨b, hb⟩ := h
        have hlt : b.length < (x :: l).length := by
          rw [← hb, List.length_append]
          have := List.length_pos_iff.mpr hsep
          omega
        rw [← hb, splitOn_sep hsep, intercalate_cons [] (splitOn_ne_nil _ _), ih _ hlt b rfl]
        rfl
      · rw [splitOn_cons h, intercalate_prepend (splitOn_ne_nil _ _),
          ih l.length (Nat.lt_succ_self _) l rfl]
        rfl

theorem splitOn_intercalate (hparts : parts ≠ []) (hc : ∀ part ∈ parts, c ∉ part) :
    splitOn [c] ([c].intercalate parts) = parts := by
  induction parts with
  | nil => exact absurd rfl hparts
  | cons part parts ih =>
    have hpart := hc part List.mem_cons_self
    by_cases hnil : parts = []
    · subst hnil
      rw [List.intercalate_singleton]
      exact splitOn_of_notMem [] hpart
    · rw [intercalate_cons part hnil, splitOn_append_sep [] hpart,
        ih hnil fun p hp => hc p (List.mem_cons_of_mem _ hp)]

theorem notMem_of_mem_splitOn {part : List α} (h : part ∈ splitOn [c] l) : c ∉ part := by
  induction l generalizing part with
  | nil =>
    obtain rfl := List.mem_singleton.mp h
    exact List.not_mem_nil
  | cons x l ih =>
    by_cases hx : x = c
    · subst hx
      rcases List.mem_cons.mp (splitOn_sep (List.cons_ne_nil x []) l ▸ h) with rfl | h
      · exact List.not_mem_nil
      · exact ih h
    · have hnot : ¬ [c] <+: x :: l := fun h => hx (List.cons_prefix_cons.mp h).1.symm
      rw [splitOn_cons hnot] at h
      cases hparts : splitOn [c] l with
      | nil => exact absurd hparts (splitOn_ne_nil _ _)
      | cons first rest =>
        rw [hparts] at h ih
        rcases List.mem_cons.mp h with rfl | h
        · exact mt List.mem_cons.mp (not_or.mpr ⟨Ne.symm hx, ih List.mem_cons_self⟩)
        · exact ih (List.mem_cons_of_mem _ h)

theorem splitOn_singleton_eq_iff (hparts : parts ≠ []) :
    splitOn [c] l = parts ↔ l = [c].intercalate parts ∧ ∀ part ∈ parts, c ∉ part := by
  constructor
  · rintro rfl
    exact ⟨(intercalate_splitOn (List.cons_ne_nil _ _) l).symm, fun _ => notMem_of_mem_splitOn⟩
  · rintro ⟨rfl, hc⟩
    exact splitOn_intercalate hparts hc

theorem splitOn_eq_singleton (h : ¬ sep <:+: l) : splitOn sep l = [l] := by
  induction l with
  | nil => rfl
  | cons x l ih =>
    have hstart : ¬ sep <+: x :: l := fun hp => h hp.isInfix
    have hrest : ¬ sep <:+: l := fun hp => h (hp.trans (List.suffix_cons x l).isInfix)
    rw [splitOn_cons hstart, ih hrest]
    rfl

theorem exists_splitOn_cons_cons (hsep : sep ≠ []) (h : sep <:+: l) :
    ∃ part next parts, splitOn sep l = part :: next :: parts := by
  induction l with
  | nil => exact absurd (List.infix_nil.mp h) hsep
  | cons x l ih =>
    by_cases hstart : sep <+: x :: l
    · obtain ⟨rest, hrest⟩ := hstart
      obtain ⟨next, parts, hparts⟩ := List.exists_cons_of_ne_nil (splitOn_ne_nil sep rest)
      exact ⟨[], next, parts, by rw [← hrest, splitOn_sep hsep, hparts]⟩
    · obtain ⟨part, next, parts, hl⟩ := ih ((List.infix_cons_iff.mp h).resolve_left hstart)
      exact ⟨[x] ++ part, next, parts, by rw [splitOn_cons hstart, hl]; rfl⟩

/-! ## Replacing a separator -/

theorem replace_nil (new : List α) : new.intercalate (splitOn sep []) = [] := by
  rw [splitOn_nil, List.intercalate_singleton]

theorem replace_sep (new : List α) (hsep : sep ≠ []) (b : List α) :
    new.intercalate (splitOn sep (sep ++ b)) = new ++ new.intercalate (splitOn sep b) := by
  rw [splitOn_sep hsep, intercalate_cons _ (splitOn_ne_nil _ _), List.nil_append]

theorem replace_cons_self (new b : List α) :
    new.intercalate (splitOn [c] (c :: b)) = new ++ new.intercalate (splitOn [c] b) :=
  replace_sep new (List.cons_ne_nil c []) b

theorem replace_cons (new : List α) (h : ¬ sep <+: c :: l) :
    new.intercalate (splitOn sep (c :: l)) = c :: new.intercalate (splitOn sep l) := by
  rw [splitOn_cons h, intercalate_prepend (splitOn_ne_nil _ _), List.singleton_append]

omit [DecidableEq α] in
theorem intercalate_append_sep (h : parts ≠ []) :
    sep.intercalate parts ++ sep = parts.flatMap (· ++ sep) := by
  induction parts with
  | nil => exact absurd rfl h
  | cons part parts ih =>
    by_cases hparts : parts = []
    · subst hparts
      rw [List.intercalate_singleton, List.flatMap_singleton]
    · rw [intercalate_cons part hparts, List.append_assoc, List.append_assoc, ih hparts,
        List.flatMap_cons, List.append_assoc]

theorem getLast?_splitOn (c : α) (l : List α) :
    (splitOn [c] l).getLast? = some (l.rtakeWhile (· ≠ c)) := by
  by_cases hc : c ∈ l
  · obtain ⟨b, a, hl, hb⟩ := List.eq_append_cons_of_mem (List.mem_reverse.mpr hc)
    have hsplit : l = a.reverse ++ ([c] ++ b.reverse) := by
      rw [← List.reverse_reverse l, hl, List.reverse_append, List.reverse_cons, List.append_assoc]
    have hlast : splitOn [c] b.reverse = [b.reverse] := splitOn_of_notMem [] (mt List.mem_reverse.mp hb)
    have hall : ∀ x ∈ b, decide (x ≠ c) = true := fun x hx => decide_eq_true fun hx' => hb (hx' ▸ hx)
    rw [List.rtakeWhile, hl, List.takeWhile_append_of_pos hall, List.takeWhile_cons_of_neg (by simp),
      List.append_nil, hsplit, splitOn_append_append List.not_mem_nil, hlast, List.getLast?_concat]
  · have hall : ∀ x ∈ l, decide (x ≠ c) = true := fun x hx => decide_eq_true fun hx' => hc (hx' ▸ hx)
    rw [splitOn_of_notMem [] hc, List.rtakeWhile_eq_self_iff.mpr hall]
    rfl

end Splitting
