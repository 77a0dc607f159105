import BasicWebserver.Platform.Url.Components

/-!
# Normal paths

`normalize_path` in terms of segments: it keeps the segments that are neither empty nor dots, steps
back at double dots, and ends with a slash exactly when the last segment is empty or written as
plain dots (`normalizePath_eq`). Its results are the normal paths, which it leaves as they are.

A dot segment has several spellings, as a dot may be escaped. Validation leaves the spellings that
`normalize_segments` knows (`isSingleDotSegment_of_encodes`, `isDoubleDotSegment_of_encodes`).
-/

namespace BasicWebserver.Platform.Url

open Ascii Splitting Percent

/-- A segment that `normalize_segments` keeps. -/
def isKept (segment : Str) : Bool :=
  segment ≠ [] && !isSingleDotSegment segment && !isDoubleDotSegment segment

theorem isKept_iff {segment : Str} : isKept segment ↔
    segment ≠ [] ∧ ¬ isSingleDotSegment segment ∧ ¬ isDoubleDotSegment segment := by
  unfold isKept
  simp [and_assoc]

/-- The path of some segments, with a slash at its end if asked and possible. -/
def joinPath (segments : List Str) (trailing : Bool) : Str :=
  let joined := 47 :: [47].intercalate segments
  if trailing && segments ≠ [] then joined ++ [47] else joined

def lastSegment (path : Str) : Str := (splitOn [47] path).getLastD []

/-- The last segments after which `normalize_path` leaves a slash. -/
def isTrailing (segment : Str) : Bool := segment = [] || segment = [46] || segment = [46, 46]

theorem isTrailing_of_isKept {segment : Str} (h : isKept segment) : isTrailing segment = false := by
  obtain ⟨hne, hsingle, hdouble⟩ := isKept_iff.mp h
  unfold isTrailing
  simp only [Bool.or_eq_false_iff, decide_eq_false_iff_not]
  refine ⟨⟨hne, ?_⟩, ?_⟩
  · rintro rfl
    exact hsingle rfl
  · rintro rfl
    exact hdouble rfl

/-! ## `normalize_segments` -/

section Segments

variable {segments segments' out : List Str} {segment : Str}

theorem normalizeSegments_append :
    normalizeSegments (segments ++ segments') out =
      normalizeSegments segments' (normalizeSegments segments out) := by
  induction segments generalizing out with
  | nil => rfl
  | cons first rest ih =>
    simp only [List.cons_append, normalizeSegments]
    split_ifs
    · exact ih
    · exact ih
    · exact ih
    · exact ih

theorem normalizeSegments_kept (h : ∀ segment ∈ segments, isKept segment) :
    normalizeSegments segments out = out ++ segments := by
  induction segments generalizing out with
  | nil => exact (List.append_nil out).symm
  | cons first rest ih =>
    obtain ⟨hfirst, hrest⟩ := List.forall_mem_cons.mp h
    obtain ⟨hne, hsingle, hdouble⟩ := isKept_iff.mp hfirst
    unfold normalizeSegments
    rw [if_neg hne, if_neg hsingle, if_neg hdouble, ih hrest, List.append_assoc,
      List.singleton_append]

theorem mem_normalizeSegments (h : segment ∈ normalizeSegments segments out) :
    segment ∈ out ∨ segment ∈ segments ∧ isKept segment := by
  induction segments generalizing out with
  | nil => exact .inl h
  | cons first rest ih =>
    unfold normalizeSegments at h
    split_ifs at h with hne hsingle hdouble
    · exact (ih h).imp_right fun h => ⟨List.mem_cons_of_mem _ h.1, h.2⟩
    · exact (ih h).imp_right fun h => ⟨List.mem_cons_of_mem _ h.1, h.2⟩
    · rcases ih h with h | h
      · exact .inl (List.mem_of_mem_dropLast h)
      · exact .inr ⟨List.mem_cons_of_mem _ h.1, h.2⟩
    · rcases ih h with h | h
      · rcases List.mem_append.mp h with h | h
        · exact .inl h
        · rw [List.mem_singleton.mp h]
          exact .inr ⟨List.mem_cons_self, isKept_iff.mpr ⟨hne, hsingle, hdouble⟩⟩
      · exact .inr ⟨List.mem_cons_of_mem _ h.1, h.2⟩

end Segments

/-! ## `normalize_path` -/

theorem splitOn_slash (path : Str) : splitOn [47] (47 :: path) = [] :: splitOn [47] path :=
  splitOn_sep (List.cons_ne_nil 47 []) path

theorem lastSegment_slash (path : Str) : lastSegment (47 :: path) = lastSegment path := by
  unfold lastSegment
  rw [splitOn_slash]
  cases hparts : splitOn [47] path with
  | nil => exact absurd hparts (splitOn_ne_nil _ _)
  | cons part parts => rfl

theorem splitOn_eq_concat (path : Str) : ∃ parts, splitOn [47] path = parts ++ [lastSegment path] := by
  refine ⟨(splitOn [47] path).dropLast, ?_⟩
  unfold lastSegment
  rw [List.getLastD_eq_getLast?, List.getLast?_eq_some_getLast (splitOn_ne_nil _ _)]
  exact (List.dropLast_append_getLast _).symm

theorem endsWith_slash {segment : Str} (hsegment : (47 : UInt8) ∉ segment) (path : Str) :
    endsWith (47 :: path) (47 :: segment) ↔ lastSegment path = segment := by
  rw [endsWith_iff hsegment (List.cons_ne_nil _ _)]
  constructor
  · rintro ⟨start, hstart⟩
    have hsplit : splitOn [47] (47 :: path) = splitOn [47] start ++ [segment] := by
      rw [← hstart, ← splitOn_of_notMem [] hsegment]
      exact splitOn_append_append List.not_mem_nil start segment
    rw [← lastSegment_slash]
    unfold lastSegment
    rw [hsplit, List.getLastD_concat]
  · rintro rfl
    obtain ⟨parts, hparts⟩ := splitOn_eq_concat path
    have hjoin := intercalate_splitOn (List.cons_ne_nil 47 []) (47 :: path)
    rw [splitOn_slash, hparts, ← List.cons_append, intercalate_append (List.cons_ne_nil _ _)
      (List.cons_ne_nil _ _), List.intercalate_singleton] at hjoin
    exact ⟨_, hjoin⟩

theorem trailing_eq (path : Str) : (endsWith (47 :: path) [47] || endsWith (47 :: path) [47, 46] ||
    endsWith (47 :: path) [47, 46, 46]) = isTrailing (lastSegment path) := by
  rw [Bool.eq_iff_iff]
  unfold isTrailing
  simp only [Bool.or_eq_true, decide_eq_true_eq, endsWith_slash (List.not_mem_nil),
    endsWith_slash (by decide : (47 : UInt8) ∉ [46]),
    endsWith_slash (by decide : (47 : UInt8) ∉ [46, 46])]

/-- **What `normalize_path` does.** It joins the segments it keeps. -/
theorem normalizePath_eq (path : Str) : normalizePath path =
    joinPath (normalizeSegments (splitOn [47] path) []) (isTrailing (lastSegment path)) := by
  have hroot : ∃ rest, (if startsWith path [47] then path else 47 :: path) = 47 :: rest ∧
      normalizeSegments (splitOn [47] (47 :: rest)) [] = normalizeSegments (splitOn [47] path) [] ∧
      lastSegment rest = lastSegment path := by
    split_ifs with hstart
    · obtain ⟨rest, rfl⟩ := (startsWith_iff (List.cons_ne_nil _ _)).mp hstart
      exact ⟨rest, rfl, rfl, (lastSegment_slash rest).symm⟩
    · refine ⟨path, rfl, ?_, rfl⟩
      rw [splitOn_slash]
      rfl
  obtain ⟨rest, hrooted, hsegments, hlast⟩ := hroot
  have hne : ∀ segment ∈ normalizeSegments (splitOn [47] path) [], segment ≠ [] := by
    intro segment hsegment
    rcases mem_normalizeSegments hsegment with h | h
    · exact absurd h List.not_mem_nil
    · exact (isKept_iff.mp h.2).1
  have hjoined : decide ((47 : UInt8) :: [47].intercalate
      (normalizeSegments (splitOn [47] path) []) ≠ [47]) =
      decide (normalizeSegments (splitOn [47] path) [] ≠ []) := by
    rw [decide_eq_decide, ← intercalate_ne_nil hne]
    exact not_congr ⟨fun h => (List.cons.inj h).2, fun h => congrArg (47 :: ·) h⟩
  unfold normalizePath joinPath
  dsimp only
  rw [hrooted, hsegments, trailing_eq, hlast, hjoined]

/-! ## Normal paths -/

/-- A path as `normalize_path` returns it. -/
def IsNormal (path : Str) : Prop := ∃ segments trailing,
  (∀ segment ∈ segments, isKept segment ∧ (47 : UInt8) ∉ segment) ∧ path = joinPath segments trailing

theorem isNormal_normalizePath (path : Str) : IsNormal (normalizePath path) := by
  refine ⟨_, _, fun segment hsegment => ?_, normalizePath_eq path⟩
  rcases mem_normalizeSegments hsegment with h | ⟨h, hkept⟩
  · exact absurd h List.not_mem_nil
  · exact ⟨hkept, notMem_of_mem_splitOn h⟩

section Normal

variable {segments : List Str} {trailing : Bool}

theorem splitOn_joinPath (h : ∀ segment ∈ segments, (47 : UInt8) ∉ segment) :
    splitOn [47] (joinPath segments trailing) =
      [] :: (segments ++ if trailing ∨ segments = [] then [[]] else []) := by
  by_cases hnil : segments = []
  · subst hnil
    unfold joinPath
    simp only [ne_eq, not_true_eq_false, decide_false, Bool.and_false, or_true, ↓reduceIte]
    rfl
  · have hsplit := splitOn_intercalate hnil h
    unfold joinPath
    cases trailing with
    | false =>
      simp only [Bool.false_and, Bool.false_eq_true, hnil, or_self, ↓reduceIte, List.append_nil]
      rw [splitOn_slash, hsplit]
    | true =>
      simp only [Bool.true_and, ne_eq, hnil, not_false_eq_true, decide_true, ↓reduceIte, true_or]
      rw [List.cons_append, splitOn_slash]
      have hend := splitOn_append_append (List.not_mem_nil (a := (47 : UInt8)))
        ([47].intercalate segments) []
      rw [hsplit] at hend
      exact congrArg ([] :: ·) hend

theorem lastSegment_joinPath (h : ∀ segment ∈ segments, (47 : UInt8) ∉ segment) :
    lastSegment (joinPath segments trailing) =
      if trailing ∨ segments = [] then [] else segments.getLastD [] := by
  unfold lastSegment
  rw [splitOn_joinPath h]
  split_ifs with hend
  · rw [← List.cons_append, List.getLastD_concat]
  · obtain ⟨start, final, rfl⟩ := (List.eq_nil_or_concat segments).resolve_left (not_or.mp hend).2
    rw [List.concat_eq_append, List.append_nil, ← List.cons_append, List.getLastD_concat,
      List.getLastD_concat]

theorem joinPath_inj {trailing' : Bool} :
    joinPath segments trailing = joinPath segments trailing' ↔
      trailing = trailing' ∨ segments = [] := by
  by_cases hnil : segments = []
  · simp [joinPath, hnil]
  · cases trailing <;> cases trailing' <;> simp [joinPath, hnil]

theorem joinPath_eq_slash
    (h : ∀ segment ∈ segments, segment ≠ []) : joinPath segments trailing = [47] ↔ segments = [] := by
  have hjoin : ¬ [47].intercalate segments ≠ [] ↔ ¬ segments ≠ [] := (intercalate_ne_nil h).not
  rw [not_not, not_not] at hjoin
  rw [← hjoin]
  unfold joinPath
  dsimp only
  split_ifs with hend
  · refine iff_of_false (by simp) ?_
    rw [hjoin]
    simpa using (Bool.and_eq_true_iff.mp hend).2
  · simp

theorem normalizePath_joinPath
    (h : ∀ segment ∈ segments, isKept segment ∧ (47 : UInt8) ∉ segment) :
    normalizePath (joinPath segments trailing) = joinPath segments trailing := by
  have hsplit := @splitOn_joinPath segments trailing fun segment hs => (h segment hs).2
  have hkept : normalizeSegments (splitOn [47] (joinPath segments trailing)) [] = segments := by
    rw [hsplit, ← List.cons_append, normalizeSegments_append]
    have hsegments : normalizeSegments ([] :: segments) [] = segments :=
      normalizeSegments_kept fun segment hs => (h segment hs).1
    rw [hsegments]
    split_ifs
    · rfl
    · rfl
  have hlast : joinPath segments (isTrailing (lastSegment (joinPath segments trailing))) =
      joinPath segments trailing := by
    rw [joinPath_inj, lastSegment_joinPath fun segment hs => (h segment hs).2]
    split_ifs with hend
    · exact hend.imp_left Eq.symm
    · obtain ⟨htrailing, hne⟩ := not_or.mp hend
      obtain ⟨start, final, rfl⟩ := (List.eq_nil_or_concat segments).resolve_left hne
      rw [List.concat_eq_append] at h ⊢
      have hfinal := (h final (List.mem_append_right _ (List.mem_singleton.mpr rfl))).1
      rw [List.getLastD_concat, isTrailing_of_isKept hfinal, Bool.eq_false_iff.mpr htrailing]
      exact .inl rfl
  rw [normalizePath_eq, hkept, hlast]

theorem IsNormal.normalizePath_eq {path : Str} (h : IsNormal path) : normalizePath path = path := by
  obtain ⟨segments, trailing, hsegments, rfl⟩ := h
  exact normalizePath_joinPath hsegments

end Normal

/-! ## Spellings of dots -/

def dotSpellings : List Str := [[46], ascii "%2e", ascii "%2E"]

theorem escape_dot {hi lo high low : UInt8} (hhi : Percent.hexValue hi = some high)
    (hlo : Percent.hexValue lo = some low) (hdot : high * 16 + low = 46) :
    hi = 50 ∧ (lo = 69 ∨ lo = 101) := by
  have hfacts : ∀ byte, (Percent.hexValue byte).all (fun value => value.toNat < 16) = true ∧
      (Percent.hexValue byte = some 2 → byte = 50) ∧
      (Percent.hexValue byte = some 14 → byte = 69 ∨ byte = 101) :=
    forall_byte (by decide +kernel)
  have hbound : ∀ byte value : UInt8, Percent.hexValue byte = some value → value.toNat < 16 := by
    intro byte value hvalue
    have hall := (hfacts byte).1
    rw [hvalue] at hall
    exact of_decide_eq_true hall
  have hhigh : high = 2 ∧ low = 14 := by
    have h1 := hbound hi high hhi
    have h2 := hbound lo low hlo
    have h3 := congrArg UInt8.toNat hdot
    rw [UInt8.toNat_add, UInt8.toNat_mul] at h3
    have h4 : (high.toNat * 16 % 2 ^ 8 + low.toNat) % 2 ^ 8 = 46 := h3
    exact ⟨UInt8.toNat_inj.mp (by show _ = 2; omega), UInt8.toNat_inj.mp (by show _ = 14; omega)⟩
  obtain ⟨rfl, rfl⟩ := hhigh
  exact ⟨(hfacts hi).2.1 hhi, (hfacts lo).2.2 hlo⟩

theorem encodes_dot_cons {text plain : Str} (h : Encodes text (46 :: plain)) :
    ∃ dot ∈ dotSpellings, ∃ rest, text = dot ++ rest ∧ Encodes rest plain := by
  generalize hdots : 46 :: plain = dots at h
  cases h with
  | nil => cases hdots
  | plain hb h =>
    obtain ⟨rfl, rfl⟩ := List.cons.inj hdots
    exact ⟨[46], by decide, _, rfl, h⟩
  | escaped hhi hlo h =>
    obtain ⟨hdot, rfl⟩ := List.cons.inj hdots
    obtain ⟨rfl, rfl | rfl⟩ := escape_dot hhi hlo hdot.symm
    · exact ⟨ascii "%2E", by decide, _, rfl, h⟩
    · exact ⟨ascii "%2e", by decide, _, rfl, h⟩

theorem encodes_nil {text : Str} (h : Encodes text []) : text = [] := by
  generalize hdots : ([] : Str) = dots at h
  cases h with
  | nil => rfl
  | plain hb h => cases hdots
  | escaped hhi hlo h => cases hdots

/-- A validated dot. -/
def canonicalDots : List Str := [[46], ascii "%2E"]

theorem canonicalizes_dot {dot : Str} (h : dot ∈ dotSpellings) :
    ∃ text ∈ canonicalDots, Canonicalizes .path dot text := by
  have hall : ∀ dot ∈ dotSpellings, ∃ text ∈ canonicalDots, validateComponent dot .path = .ok text := by
    decide
  obtain ⟨text, htext, hdot⟩ := hall dot h
  exact ⟨text, htext, validateComponent_eq_ok.mp hdot⟩

section Dots

variable {raw text : Str}

theorem isSingleDotSegment_of_encodes (h : Canonicalizes .path raw text) (hdot : Encodes raw [46]) :
    isSingleDotSegment text := by
  obtain ⟨dot, hmem, rest, rfl, hrest⟩ := encodes_dot_cons hdot
  obtain rfl := encodes_nil hrest
  rw [List.append_nil] at h
  obtain ⟨text', htext', hcanonical⟩ := canonicalizes_dot hmem
  obtain rfl := h.eq_of hcanonical
  have hall : ∀ text ∈ canonicalDots, isSingleDotSegment text := by decide
  exact hall text htext'

theorem isDoubleDotSegment_of_encodes (h : Canonicalizes .path raw text)
    (hdots : Encodes raw [46, 46]) : isDoubleDotSegment text := by
  obtain ⟨dot, hmem, rest, rfl, hrest⟩ := encodes_dot_cons hdots
  obtain ⟨dot', hmem', rest', rfl, hrest'⟩ := encodes_dot_cons hrest
  obtain rfl := encodes_nil hrest'
  rw [List.append_nil] at h
  obtain ⟨first, hfirst, hcanonical⟩ := canonicalizes_dot hmem
  obtain ⟨second, hsecond, hcanonical'⟩ := canonicalizes_dot hmem'
  obtain rfl := h.eq_of (hcanonical.append hcanonical')
  have hall : ∀ first ∈ canonicalDots, ∀ second ∈ canonicalDots,
      isDoubleDotSegment (first ++ second) := by decide
  exact hall first hfirst second hsecond

end Dots

end BasicWebserver.Platform.Url
