import BasicWebserver.Foundation.Splitting
import Mathlib.Data.Nat.Find

/-!
# Splitting a list at a list

`split_on_list` of `platform/SplitList.roc` marks every place where the separator starts and cuts
the list between the marks. Where no two of these places overlap, the pieces are those of
`Splitting.splitOn`, without an empty one at either end, and a list without the separator has none
at all (`splitOnList_of_apart`). Where two of them overlap, a piece would have a negative length
(`splitOnList_of_overlap`). So the list is split as it should be only if the separator is there and
does not overlap itself (`split_on_list_iff`).
-/

namespace BasicWebserver.Platform.SplitList

open Splitting

variable {α : Type} [DecidableEq α]

inductive Marker
  | stop (index : ℕ)
  | start (index : ℕ)

/-- One turn of `walk_help_find_starts`. -/
def walkHelpFindStarts (input separator : List α) (allMarkers : List Marker) (index : ℕ) :
    List Marker :=
  if input = [] ∨ separator = [] then []
  else if (input.drop index).take separator.length = separator then
    allMarkers ++ [.stop index, .start (index + separator.length)]
  else allMarkers

/-- The loop of `walk_split_help`; `none` is the crash, or a subtraction that overflows. -/
def go (input : List α) : List Marker → List (List α) → Option (List (List α))
  | [], state => some state
  | .stop stop :: rest, state =>
    if stop = 0 then go input rest state else go input rest (state ++ [input.take stop])
  | .start start :: .stop stop :: rest, state =>
    if stop < start then none
    else go input rest (state ++ [(input.drop start).take (stop - start)])
  | [.start start], state =>
    if input.length ≤ start then some state
    else some (state ++ [(input.drop start).take (input.length - start)])
  | .start _ :: .start _ :: _, _ => none

def splitOnList (input separator : List α) : Option (List (List α)) :=
  go input ((List.range input.length).foldl (walkHelpFindStarts input separator) []) []

/-! ## The marks -/

/-- The marks of the pieces of a list, from `base` on. -/
def marks (length : ℕ) : ℕ → List (List α) → List Marker
  | base, piece :: next :: pieces =>
    let stop := base + piece.length
    .stop stop :: .start (stop + length) :: marks length (stop + length) (next :: pieces)
  | _, _ => []

/-- The marks that `walk_help_find_starts` makes in what is left of the list at an index. -/
def marksFrom (separator : List α) : ℕ → List α → List Marker
  | _, [] => []
  | base, x :: l =>
    (if separator <+: x :: l then [.stop base, .start (base + separator.length)] else []) ++
      marksFrom separator (base + 1) l

section

variable {c : α} {s : List α} {input separator : List α}

theorem marksFrom_cons (base : ℕ) (x : α) (l : List α) : marksFrom separator base (x :: l) =
    (if separator <+: x :: l then [.stop base, .start (base + separator.length)] else []) ++
      marksFrom separator (base + 1) l := rfl

omit [DecidableEq α] in
theorem marks_cons (length base : ℕ) (piece next : List α) (pieces : List (List α)) :
    marks length base (piece :: next :: pieces) =
      .stop (base + piece.length) :: .start (base + piece.length + length) ::
        marks length (base + piece.length + length) (next :: pieces) := rfl

theorem foldl_walkHelpFindStarts (hinput : input ≠ []) (hseparator : separator ≠ [])
    {base : ℕ} {l : List α} (hl : input.drop base = l) (out : List Marker) :
    (List.range' base l.length).foldl (walkHelpFindStarts input separator) out =
      out ++ marksFrom separator base l := by
  induction l generalizing base out with
  | nil => exact (List.append_nil out).symm
  | cons x l ih =>
    have hnext : input.drop (base + 1) = l := by
      rw [← List.drop_drop, hl]
      rfl
    rw [List.length_cons, List.range'_succ, List.foldl_cons, ih hnext, marksFrom_cons]
    unfold walkHelpFindStarts
    rw [if_neg (not_or.mpr ⟨hinput, hseparator⟩), hl, ← List.append_assoc]
    by_cases hstart : separator <+: x :: l
    · rw [if_pos (List.prefix_iff_eq_take.mp hstart).symm, if_pos hstart]
    · have htake : (x :: l).take separator.length ≠ separator :=
        fun h => hstart (h ▸ List.take_prefix _ _)
      rw [if_neg htake, if_neg hstart, List.append_nil]

theorem marksFrom_drop {l : List α} {k : ℕ} (h : ∀ i < k, ¬ separator <+: l.drop i) (base : ℕ) :
    marksFrom separator base l = marksFrom separator (base + k) (l.drop k) := by
  induction k generalizing base l with
  | zero => rfl
  | succ k ih =>
    cases l with
    | nil => rfl
    | cons x l =>
      have hstart : ¬ separator <+: x :: l := h 0 (Nat.succ_pos k)
      have hl : ∀ i < k, ¬ separator <+: l.drop i := fun i hi => h (i + 1) (Nat.succ_lt_succ hi)
      rw [marksFrom_cons, if_neg hstart, List.nil_append, ih hl, Nat.add_assoc,
        Nat.add_comm 1]
      rfl

/-- No two separators in the list have an element in common. -/
def Apart (separator l : List α) : Prop :=
  ∀ i j, i < j → separator <+: l.drop i → separator <+: l.drop j → i + separator.length ≤ j

omit [DecidableEq α] in
theorem Apart.drop {l : List α} (h : Apart separator l) (k : ℕ) : Apart separator (l.drop k) := by
  intro i j hij hi hj
  rw [List.drop_drop] at hi hj
  have := h (k + i) (k + j) (by omega) hi hj
  omega

theorem Apart.marksFrom_cons {rest : List α} (h : Apart (c :: s) (c :: s ++ rest)) (base : ℕ) :
    marksFrom (c :: s) base (c :: s ++ rest) =
      [.stop base, .start (base + (c :: s).length)] ++
        marksFrom (c :: s) (base + (c :: s).length) rest := by
  have hinner : ∀ i < s.length, ¬ (c :: s) <+: (s ++ rest).drop i := by
    intro i hi hstart
    have := h 0 (i + 1) (Nat.succ_pos i) (List.prefix_append _ _) hstart
    rw [List.length_cons] at this
    omega
  have hstart : c :: s <+: c :: (s ++ rest) := List.prefix_append (c :: s) rest
  rw [List.cons_append, SplitList.marksFrom_cons, if_pos hstart,
    marksFrom_drop hinner, List.drop_left, List.length_cons, Nat.add_assoc, Nat.add_comm 1]

theorem marksFrom_eq {l : List α} (h : Apart (c :: s) l) (base : ℕ) :
    marksFrom (c :: s) base l = marks (c :: s).length base (splitOn (c :: s) l) := by
  -- by the length of the list, as a separator is passed over at once
  induction hn : l.length using Nat.strong_induction_on generalizing base l with
  | _ n ih =>
    subst hn
    cases l with
    | nil => rfl
    | cons x l =>
      by_cases hstart : (c :: s) <+: x :: l
      · obtain ⟨rest, hrest⟩ := hstart
        have hlen : rest.length < (x :: l).length := by
          rw [← hrest, List.length_append, List.length_cons]
          omega
        have hdrop := h.drop (c :: s).length
        rw [← hrest] at h hdrop ⊢
        rw [List.drop_left] at hdrop
        have hmarks := ih rest.length hlen hdrop (base + (c :: s).length) rfl
        rw [splitOn_sep (List.cons_ne_nil c s), h.marksFrom_cons, hmarks]
        cases hparts : splitOn (c :: s) rest with
        | nil => exact absurd hparts (splitOn_ne_nil _ _)
        | cons part parts => rfl
      · have hdrop : Apart (c :: s) l := h.drop 1
        have hmarks := ih l.length (Nat.lt_succ_self _) hdrop (base + 1) rfl
        rw [splitOn_cons hstart, SplitList.marksFrom_cons, if_neg hstart, List.nil_append, hmarks]
        cases hparts : splitOn (c :: s) l with
        | nil => exact absurd hparts (splitOn_ne_nil _ _)
        | cons part parts =>
          cases parts with
          | nil => rfl
          | cons next parts =>
            have hlen : base + ([x] ++ part).length = base + 1 + part.length := by
              rw [List.length_append, List.length_singleton, Nat.add_assoc]
            unfold prepend
            rw [marks_cons, marks_cons, hlen]

/-! ## The pieces -/

/-- The pieces without an empty one at their end. -/
def dropEmptyLast : List (List α) → List (List α)
  | [] => []
  | [last] => if last = [] then [] else [last]
  | piece :: pieces => piece :: dropEmptyLast pieces

/-- What `split_on_list` keeps of the pieces between separators. -/
def kept : List (List α) → List (List α)
  | piece :: next :: pieces =>
    (if piece = [] then [] else [piece]) ++ dropEmptyLast (next :: pieces)
  | _ => []

omit [DecidableEq α] in
theorem dropEmptyLast_concat (pieces : List (List α)) {last : List α} (h : last ≠ []) :
    dropEmptyLast (pieces ++ [last]) = pieces ++ [last] := by
  induction pieces with
  | nil => exact if_neg h
  | cons piece pieces ih =>
    cases pieces with
    | nil => exact congrArg (piece :: ·) ih
    | cons next pieces => exact congrArg (piece :: ·) ih

omit [DecidableEq α] in
theorem kept_concat {pieces : List (List α)} {last : List α} (hpieces : pieces ≠ [])
    (hfirst : ∀ piece ∈ pieces, piece ≠ []) (hlast : last ≠ []) :
    kept (pieces ++ [last]) = pieces ++ [last] := by
  cases pieces with
  | nil => exact absurd rfl hpieces
  | cons piece pieces =>
    have hrest := dropEmptyLast_concat pieces hlast
    have hne := hfirst piece List.mem_cons_self
    cases pieces with
    | nil =>
      show (if piece = [] then [] else [piece]) ++ dropEmptyLast [last] = _
      rw [if_neg hne, show dropEmptyLast [last] = [last] from hrest]
    | cons next pieces =>
      show (if piece = [] then [] else [piece]) ++ dropEmptyLast (next :: pieces ++ [last]) = _
      rw [if_neg hne, hrest]
      rfl

omit [DecidableEq α] in
theorem go_start (separator : List α) {base : ℕ} {piece : List α} {pieces : List (List α)}
    (hinput : input.drop base = separator.intercalate (piece :: pieces)) (state : List (List α)) :
    go input (.start base :: marks separator.length base (piece :: pieces)) state =
      some (state ++ dropEmptyLast (piece :: pieces)) := by
  induction pieces generalizing base piece state with
  | nil =>
    rw [List.intercalate_singleton] at hinput
    have hlen : input.length - base = piece.length := by rw [← hinput, List.length_drop]
    unfold marks go dropEmptyLast
    rw [hinput, hlen, List.take_length]
    by_cases hnil : piece = []
    · rw [if_pos hnil, if_pos, List.append_nil]
      rw [hnil] at hlen
      exact Nat.sub_eq_zero_iff_le.mp hlen
    · rw [if_neg hnil, if_neg]
      have hpos := List.length_pos_iff.mpr hnil
      omega
  | cons next pieces ih =>
    rw [intercalate_cons _ (List.cons_ne_nil _ _)] at hinput
    have hnext : input.drop (base + piece.length + separator.length) =
        separator.intercalate (next :: pieces) := by
      rw [← List.drop_drop, ← List.drop_drop, hinput, List.drop_left, List.drop_left]
    rw [marks_cons]
    unfold go
    rw [if_neg (by omega), hinput, Nat.add_sub_cancel_left, List.take_left, ih hnext,
      List.append_assoc]
    rfl

/-- **The pieces of a list** whose separators are apart. -/
theorem splitOnList_of_apart {input : List α} (h : Apart (c :: s) input) :
    splitOnList input (c :: s) = some (kept (splitOn (c :: s) input)) := by
  by_cases hinput : input = []
  · subst hinput
    rfl
  have hjoin := intercalate_splitOn (List.cons_ne_nil c s) input
  unfold splitOnList
  rw [List.range_eq_range', foldl_walkHelpFindStarts hinput (List.cons_ne_nil c s)
      (show input.drop 0 = input from rfl),
    List.nil_append, marksFrom_eq h]
  cases hparts : splitOn (c :: s) input with
  | nil => exact absurd hparts (splitOn_ne_nil _ _)
  | cons piece pieces =>
    cases pieces with
    | nil => rfl
    | cons next pieces =>
      rw [hparts, intercalate_cons _ (List.cons_ne_nil _ _)] at hjoin
      have hnext : input.drop (0 + piece.length + (c :: s).length) =
          (c :: s).intercalate (next :: pieces) := by
        rw [← hjoin, Nat.zero_add, ← List.drop_drop, List.drop_left, List.drop_left]
      rw [marks_cons]
      unfold go kept
      dsimp only
      rw [go_start (c :: s) hnext, go_start (c :: s) hnext, Nat.zero_add]
      by_cases hnil : piece = []
      · rw [hnil]
        rfl
      · rw [if_neg (mt List.length_eq_zero_iff.mp hnil), if_neg hnil, ← hjoin, List.take_left]
        rfl

omit [DecidableEq α] in
theorem apart_of_notMem (hs : c ∉ s) (l : List α) : Apart (c :: s) l := by
  rintro i j hij ⟨rest, hi⟩ ⟨rest', hj⟩
  by_contra hlt
  obtain ⟨k, rfl⟩ := Nat.exists_eq_add_of_lt hij
  rw [List.length_cons] at hlt
  have hinner : (s ++ rest).drop k = c :: (s ++ rest') := by
    rw [← List.cons_append, hj, Nat.add_assoc, ← List.drop_drop, ← hi]
    rfl
  have hmem : c ∈ s := by
    have hget : (s ++ rest)[k]? = some c := by
      rw [← Nat.add_zero k, ← List.getElem?_drop, hinner]
      rfl
    rw [List.getElem?_append_left (by omega)] at hget
    exact List.mem_of_getElem? hget
  exact hs hmem

theorem splitOnList_eq (hs : c ∉ s) (input : List α) :
    splitOnList input (c :: s) = some (kept (splitOn (c :: s) input)) :=
  splitOnList_of_apart (apart_of_notMem hs input)

/-! ## Separators that overlap -/

/-- The loop stops at the first separator that starts inside the one before it. -/
theorem go_of_overlap {l : List α} (hsep : separator ≠ []) (h : ¬ Apart separator l) (base : ℕ)
    (state : List (List α)) :
    go input (marksFrom separator base l) state = none ∧
      ∀ start, go input (.start start :: marksFrom separator base l) state = none := by
  induction l generalizing base state with
  | nil =>
    refine absurd (fun i j _ hi _ => ?_) h
    rw [List.drop_nil] at hi
    exact absurd (List.prefix_nil.mp hi) hsep
  | cons x l ih =>
    rw [marksFrom_cons]
    by_cases hstart : separator <+: x :: l
    · rw [if_pos hstart]
      have hnone (state : List (List α)) :
          go input (.start (base + separator.length) :: marksFrom separator (base + 1) l) state =
            none := by
        by_cases hinner : ∃ i, i + 1 < separator.length ∧ separator <+: l.drop i
        · -- the next mark is inside the separator
          obtain ⟨hlt, hi⟩ := Nat.find_spec hinner
          have hfirst : ∀ i < Nat.find hinner, ¬ separator <+: l.drop i := fun i hi' hp =>
            Nat.find_min hinner hi' ⟨by omega, hp⟩
          rw [marksFrom_drop hfirst]
          cases hl : l.drop (Nat.find hinner) with
          | nil =>
            rw [hl] at hi
            exact absurd (List.prefix_nil.mp hi) hsep
          | cons y l' =>
            rw [hl] at hi
            rw [marksFrom_cons, if_pos hi]
            exact if_pos (by omega)
        · refine (ih ?_ (base + 1) state).2 _
          intro hapart
          refine h fun i j hij hi hj => ?_
          obtain ⟨j, rfl⟩ := Nat.exists_eq_add_of_lt hij
          cases i with
          | zero =>
            by_contra hlt
            exact hinner ⟨0 + j, by omega, hj⟩
          | succ i =>
            have := hapart i (i + 1 + j) (by omega) hi (by
              rwa [show i + 1 + j + 1 = (i + 1 + j) + 1 from rfl] at hj)
            omega
      refine ⟨?_, fun start => ?_⟩
      · show go input (.stop base :: .start (base + separator.length) :: _) state = none
        unfold go
        split_ifs
        · exact hnone _
        · exact hnone _
      · show go input (.start start :: .stop base :: .start (base + separator.length) :: _) state = none
        unfold go
        split_ifs
        · rfl
        · exact hnone _
    · rw [if_neg hstart, List.nil_append]
      refine ih (fun hapart => h fun i j hij hi hj => ?_) (base + 1) state
      cases i with
      | zero => exact absurd hi hstart
      | succ i =>
        obtain ⟨j, rfl⟩ := Nat.exists_eq_add_of_lt hij
        have := hapart i (i + 1 + j) (by omega) hi hj
        omega

theorem splitOnList_of_overlap (hsep : separator ≠ []) (h : ¬ Apart separator input) :
    splitOnList input separator = none := by
  have hinput : input ≠ [] := by
    rintro rfl
    refine h fun i j _ hi _ => ?_
    rw [List.drop_nil] at hi
    exact absurd (List.prefix_nil.mp hi) hsep
  unfold splitOnList
  rw [List.range_eq_range', foldl_walkHelpFindStarts hinput hsep (show input.drop 0 = input from rfl),
    List.nil_append]
  exact (go_of_overlap hsep h 0 []).1

omit [DecidableEq α] in
theorem kept_sublist (pieces : List (List α)) : (kept pieces).Sublist pieces := by
  have hlast : ∀ pieces : List (List α), (dropEmptyLast pieces).Sublist pieces := by
    intro pieces
    fun_induction dropEmptyLast pieces with
    | case1 => exact List.Sublist.refl _
    | case2 => exact List.nil_sublist _
    | case3 last hne => exact List.Sublist.refl _
    | case4 piece pieces hne ih => exact ih.cons_cons piece
  match pieces with
  | [] => exact List.Sublist.refl _
  | [piece] => exact List.nil_sublist _
  | piece :: next :: pieces =>
    have hrest := hlast (next :: pieces)
    rw [kept]
    split_ifs
    · exact hrest.cons piece
    · exact hrest.cons_cons piece

/-- The pieces are some of those between separators. -/
theorem sublist_splitOn {pieces : List (List α)} (hsep : separator ≠ [])
    (h : splitOnList input separator = some pieces) : pieces.Sublist (splitOn separator input) := by
  by_cases hapart : Apart separator input
  · obtain ⟨c, s, rfl⟩ := List.exists_cons_of_ne_nil hsep
    rw [splitOnList_of_apart hapart] at h
    rw [← Option.some.inj h]
    exact kept_sublist _
  · rw [splitOnList_of_overlap hsep hapart] at h
    cases h

/-! ## The split that is meant -/

def dropEmptyFirst : List (List α) → List (List α)
  | [] :: pieces => pieces
  | pieces => pieces

/-- The pieces of the leftmost split, without an empty one at either end. -/
def pieces (separator input : List α) : List (List α) :=
  dropEmptyLast (dropEmptyFirst (splitOn separator input))

omit [DecidableEq α] in
theorem kept_eq (piece next : List α) (rest : List (List α)) :
    kept (piece :: next :: rest) = dropEmptyLast (dropEmptyFirst (piece :: next :: rest)) := by
  cases piece <;> rfl

/-- **Splitting a list.** A list is split at a separator as it should be, without a crash or an
overflow, exactly if it is empty, or the separator is in it and no two of its places overlap. -/
theorem split_on_list_iff (hsep : separator ≠ []) (input : List α) :
    splitOnList input separator = some (pieces separator input) ↔
      input = [] ∨ separator <:+: input ∧ Apart separator input := by
  obtain ⟨c, s, rfl⟩ := List.exists_cons_of_ne_nil hsep
  unfold pieces
  by_cases hinput : input = []
  · subst hinput
    exact iff_of_true rfl (.inl rfl)
  by_cases hapart : Apart (c :: s) input
  · rw [splitOnList_of_apart hapart, Option.some_inj]
    by_cases hin : c :: s <:+: input
    · obtain ⟨piece, next, rest, hparts⟩ := exists_splitOn_cons_cons hsep hin
      rw [hparts, kept_eq]
      exact iff_of_true rfl (.inr ⟨hin, hapart⟩)
    · -- there is no mark, and no piece
      have hne : kept [input] ≠ dropEmptyLast (dropEmptyFirst [input]) := by
        obtain ⟨x, l, rfl⟩ := List.exists_cons_of_ne_nil hinput
        exact (List.cons_ne_nil _ _).symm
      rw [splitOn_eq_singleton hin]
      exact iff_of_false hne (by tauto)
  · rw [splitOnList_of_overlap hsep hapart]
    exact iff_of_false (Option.some_ne_none _).symm (by tauto)

theorem split_on_list_sample :
    splitOnList [3, 4, 1, 2, 3, 4, 3, 4, 5] [3, 4] = some (pieces [3, 4] [3, 4, 1, 2, 3, 4, 3, 4, 5]) ∧
      pieces [3, 4] [3, 4, 1, 2, 3, 4, 3, 4, 5] = [[1, 2], [], [5]] :=
  ⟨(split_on_list_iff (List.cons_ne_nil 3 [4]) _).mpr
    (.inr ⟨⟨[], [1, 2, 3, 4, 3, 4, 5], rfl⟩, apart_of_notMem (by decide) _⟩), by decide⟩

/-- The second place of the separator is inside the first one, so that the piece between them has
length `1 - 2`; and a list without the separator is dropped. -/
theorem split_on_list_overlap :
    splitOnList [1, 1, 1] [1, 1] = none ∧ pieces [1, 1] [1, 1, 1] = [[1]] ∧
      splitOnList [1] [2] = some [] ∧ pieces [2] [1] = [[1]] := by decide

end

end BasicWebserver.Platform.SplitList
