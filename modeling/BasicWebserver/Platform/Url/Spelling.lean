import Mathlib.Data.List.TakeWhile
import BasicWebserver.Platform.Url.Resolution

/-!
# Spellings of dot segments

A dot in a `.` or `..` segment may be written as `%2e` or `%2E`. `normalize_segments` treats the
spellings alike, but the test for a slash at the end of the path knows the plain dots only. So the
spelling of the last segment can change the parsed URL (`parse_replacePath_iff`).
-/

namespace BasicWebserver.Platform.Url

open Ascii Splitting Fallible Percent

/-- The path in the text of a URL: what stands after the authority and before a query or fragment. -/
def pathOf (text : Str) : Str :=
  match splitFirst text (ascii "://") with
  | some (_, after) => (splitSuffix (splitAuthority after).2).path
  | none => []

/-- The text of a URL with another path. -/
def replacePath (text path : Str) : Str :=
  match splitFirst text (ascii "://") with
  | some (before, after) =>
    let (authority, suffix) := splitAuthority after
    before ++ (ascii "://" ++
      (authority ++ referenceStr path (splitSuffix suffix).query (splitSuffix suffix).fragment))
  | none => text

/-- The same segment, or two spellings of the same dots. -/
def Respells (segment segment' : Str) : Prop :=
  segment = segment' ∨ (Encodes segment (ascii ".") ∧ Encodes segment' (ascii ".")) ∨
    (Encodes segment (ascii "..") ∧ Encodes segment' (ascii ".."))

/-! ## The parts of a text -/

theorem cutAt_spec (str : Str) (delimiter : UInt8) : delimiter ∉ (cutAt str delimiter).1 ∧
    str = (cutAt str delimiter).1 ++ (cutAt str delimiter).2.elim [] (delimiter :: ·) := by
  unfold cutAt
  rcases splitFirst_byte str delimiter with ⟨hmem, hsplit⟩ | ⟨before, after, rfl, hmem, hsplit⟩
  · rw [hsplit]
    exact ⟨hmem, (List.append_nil str).symm⟩
  · rw [hsplit]
    exact ⟨hmem, rfl⟩

theorem splitSuffix_spec (suffix : Str) :
    (35 : UInt8) ∉ (splitSuffix suffix).path ∧ (63 : UInt8) ∉ (splitSuffix suffix).path ∧
      (∀ text ∈ (splitSuffix suffix).query, (35 : UInt8) ∉ text) ∧
      suffix = referenceStr (splitSuffix suffix).path (splitSuffix suffix).query
        (splitSuffix suffix).fragment := by
  obtain ⟨hhash, hsuffix⟩ := cutAt_spec suffix 35
  obtain ⟨hquestion, hbefore⟩ := cutAt_spec (cutAt suffix 35).1 63
  have hfragmentStr : ∀ option : Option Str, fragmentStr option = option.elim [] (35 :: ·) := by
    rintro (_ | _) <;> rfl
  have hqueryStr : ∀ option : Option Str, queryStr option = option.elim [] (63 :: ·) := by
    rintro (_ | _) <;> rfl
  refine ⟨?_, hquestion, ?_, ?_⟩
  · intro hmem
    exact hhash (hbefore ▸ List.mem_append_left _ hmem)
  · intro text htext hmem
    refine hhash (hbefore ▸ List.mem_append_right _ ?_)
    rw [show (cutAt (cutAt suffix 35).1 63).2 = some text from htext]
    exact List.mem_cons_of_mem _ hmem
  · unfold referenceStr
    rw [hqueryStr, hfragmentStr]
    refine hsuffix.trans (congrArg (· ++ _) ?_)
    exact hbefore

/-! ## Respelled paths -/

theorem dotSpellings_notMem {dot : Str} (h : dot ∈ dotSpellings) {byte : UInt8}
    (hbyte : byte ∈ dot) : byte ≠ 35 ∧ byte ≠ 63 := by
  have hall : ∀ dot ∈ dotSpellings, ∀ byte ∈ dot, byte ≠ 35 ∧ byte ≠ 63 := by decide +kernel
  exact hall dot h byte hbyte

/-- A segment of dots: one or two of their spellings. -/
theorem eq_of_encodes_dots {segment : Str}
    (h : Encodes segment (ascii ".") ∨ Encodes segment (ascii "..")) :
    ∃ dots : List Str, (∀ dot ∈ dots, dot ∈ dotSpellings) ∧ segment = dots.flatten := by
  rcases h with h | h
  · obtain ⟨dot, hdot, rest, rfl, hrest⟩ := encodes_dot_cons h
    obtain rfl := encodes_nil hrest
    exact ⟨[dot], List.forall_mem_singleton.mpr hdot, by simp⟩
  · obtain ⟨dot, hdot, rest, rfl, hrest⟩ := encodes_dot_cons h
    obtain ⟨dot', hdot', rest', rfl, hrest'⟩ := encodes_dot_cons hrest
    obtain rfl := encodes_nil hrest'
    exact ⟨[dot, dot'], by simp [hdot, hdot'], by simp⟩

theorem canonicalizes_dots {dots : List Str} (h : ∀ dot ∈ dots, dot ∈ dotSpellings) :
    ∃ text, Canonicalizes .path dots.flatten text := by
  induction dots with
  | nil => exact ⟨[], .nil⟩
  | cons dot dots ih =>
    obtain ⟨hdot, hdots⟩ := List.forall_mem_cons.mp h
    obtain ⟨text, -, htext⟩ := canonicalizes_dot hdot
    obtain ⟨rest, hrest⟩ := ih hdots
    exact ⟨text ++ rest, List.flatten_cons ▸ htext.append hrest⟩

section Respelled

variable {segment segment' text : Str} {path path' : Str}

theorem Respells.dots (h : Respells segment segment') : segment = segment' ∨
    Encodes segment' (ascii ".") ∨ Encodes segment' (ascii "..") := by
  rcases h with h | ⟨-, h⟩ | ⟨-, h⟩
  · exact .inl h
  · exact .inr (.inl h)
  · exact .inr (.inr h)

theorem Respells.symm (h : Respells segment segment') : Respells segment' segment :=
  h.imp Eq.symm (Or.imp And.symm And.symm)

theorem Respells.eq_nil_iff (h : Respells segment segment') : segment = [] ↔ segment' = [] := by
  have hne : ∀ {text plain : Str}, Encodes text plain → plain ≠ [] → text ≠ [] := Encodes.ne_nil
  rcases h with rfl | ⟨h, h'⟩ | ⟨h, h'⟩
  · exact Iff.rfl
  · exact iff_of_false (hne h (List.cons_ne_nil _ _)) (hne h' (List.cons_ne_nil _ _))
  · exact iff_of_false (hne h (List.cons_ne_nil _ _)) (hne h' (List.cons_ne_nil _ _))

theorem Respells.notMem (h : Respells segment segment') {byte : UInt8}
    (hbyte : byte = 35 ∨ byte = 63) (hnotMem : byte ∉ segment) : byte ∉ segment' := by
  rcases h.dots with rfl | hdots
  · exact hnotMem
  · intro hmem
    obtain ⟨dots, hspell, rfl⟩ := eq_of_encodes_dots hdots
    obtain ⟨dot, hdot, hmem⟩ := List.mem_flatten.mp hmem
    obtain ⟨h35, h63⟩ := dotSpellings_notMem (hspell dot hdot) hmem
    exact hbyte.elim h35 h63

theorem notMem_iff_segments {byte : UInt8} (hbyte : byte ≠ 47) :
    byte ∉ path ↔ ∀ segment ∈ splitOn [47] path, byte ∉ segment := by
  have hjoin := intercalate_splitOn (List.cons_ne_nil 47 []) path
  constructor
  · intro hnotMem segment hsegment hmem
    exact hnotMem (hjoin ▸ mem_intercalate_of_mem hsegment hmem)
  · intro hnotMem hmem
    rw [← hjoin] at hmem
    rcases mem_intercalate hmem with h47 | ⟨segment, hsegment, hmem⟩
    · exact hbyte (List.mem_singleton.mp h47)
    · exact hnotMem segment hsegment hmem

theorem notMem_respelled (h : List.Forall₂ Respells (splitOn [47] path) (splitOn [47] path'))
    {byte : UInt8} (hbyte : byte = 35 ∨ byte = 63) (hnotMem : byte ∉ path) : byte ∉ path' := by
  have h47 : byte ≠ 47 := by
    rintro rfl
    exact absurd hbyte (by decide)
  rw [notMem_iff_segments h47] at hnotMem ⊢
  generalize splitOn [47] path = segments at h hnotMem
  generalize splitOn [47] path' = segments' at h ⊢
  induction h with
  | nil => exact hnotMem
  | cons hsegment _ ih =>
    obtain ⟨hfirst, hrest⟩ := List.forall_mem_cons.mp hnotMem
    exact List.forall_mem_cons.mpr ⟨hsegment.notMem hbyte hfirst, ih hrest⟩

theorem respelled_start (h : List.Forall₂ Respells (splitOn [47] path) (splitOn [47] path')) :
    (path = [] → path' = []) ∧ ([47] <+: path → [47] <+: path') := by
  have hjoin := intercalate_splitOn (List.cons_ne_nil 47 []) path'
  constructor
  · rintro rfl
    rw [splitOn_nil] at h
    obtain ⟨segment', _, hsegment, hnil, hparts⟩ := List.forall₂_cons_left_iff.mp h
    rw [List.forall₂_nil_left_iff.mp hnil, hsegment.eq_nil_iff.mp rfl] at hparts
    rw [← hjoin, hparts]
    rfl
  · rintro ⟨rest, rfl⟩
    rw [List.singleton_append, splitOn_slash] at h
    obtain ⟨segment', parts, hsegment, hrest, hparts⟩ := List.forall₂_cons_left_iff.mp h
    rw [hsegment.eq_nil_iff.mp rfl] at hparts
    have hne : parts ≠ [] := by
      rintro rfl
      exact splitOn_ne_nil _ _ (List.forall₂_nil_right_iff.mp hrest)
    rw [← hjoin, hparts, intercalate_cons _ hne]
    exact List.prefix_append _ _

/-- What validation makes of two spellings of a segment. -/
def SameSegment (text text' : Str) : Prop :=
  text = text' ∨ (isSingleDotSegment text ∧ isSingleDotSegment text') ∨
    (isDoubleDotSegment text ∧ isDoubleDotSegment text')

theorem Respells.canonicalizes (h : Respells segment segment') (htext : Canonicalizes .path segment text) :
    ∃ text', Canonicalizes .path segment' text' ∧ SameSegment text text' := by
  have hexists : ∃ text', Canonicalizes .path segment' text' := by
    rcases h.dots with rfl | hdots
    · exact ⟨text, htext⟩
    · obtain ⟨dots, hspell, rfl⟩ := eq_of_encodes_dots hdots
      exact canonicalizes_dots hspell
  obtain ⟨text', htext'⟩ := hexists
  refine ⟨text', htext', ?_⟩
  rcases h with rfl | ⟨h, h'⟩ | ⟨h, h'⟩
  · exact .inl (htext.eq_of htext')
  · exact .inr (.inl ⟨isSingleDotSegment_of_encodes htext h, isSingleDotSegment_of_encodes htext' h'⟩)
  · exact .inr (.inr ⟨isDoubleDotSegment_of_encodes htext h, isDoubleDotSegment_of_encodes htext' h'⟩)

theorem normalizeSegments_congr {texts texts' : List Str} (h : List.Forall₂ SameSegment texts texts')
    (out : List Str) : normalizeSegments texts out = normalizeSegments texts' out := by
  have hsingle : ∀ text, isSingleDotSegment text → text ≠ [] := by
    rintro text h rfl
    exact absurd h (by decide)
  have hdouble : ∀ text, isDoubleDotSegment text → text ≠ [] ∧ ¬ isSingleDotSegment text := by
    intro text h
    unfold isDoubleDotSegment at h
    simp only [Bool.or_eq_true, decide_eq_true_eq] at h
    rcases h with ((rfl | rfl) | rfl) | rfl <;> exact ⟨List.cons_ne_nil _ _, by decide⟩
  induction h generalizing out with
  | nil => rfl
  | cons hsegment _ ih =>
    unfold normalizeSegments
    rcases hsegment with rfl | ⟨h, h'⟩ | ⟨h, h'⟩
    · rw [ih, ih, ih]
    · rw [if_neg (hsingle _ h), if_neg (hsingle _ h'), if_pos h, if_pos h', ih]
    · rw [if_neg (hdouble _ h).1, if_neg (hdouble _ h').1, if_neg (hdouble _ h).2,
        if_neg (hdouble _ h').2, if_pos h, if_pos h', ih]

/-- A respelled path is validated to the same segments, up to the spelling of dots. -/
theorem respelled_canonicalizes {texts : List Str} {segments segments' : List Str}
    (h : List.Forall₂ Respells segments segments')
    (htexts : List.Forall₂ (Canonicalizes .path) segments texts) :
    ∃ texts', List.Forall₂ (Canonicalizes .path) segments' texts' ∧
      List.Forall₂ SameSegment texts texts' := by
  induction h generalizing texts with
  | nil =>
    cases htexts
    exact ⟨[], .nil, .nil⟩
  | cons hsegment _ ih =>
    cases htexts with
    | cons htext htexts =>
      obtain ⟨text', htext', hsame⟩ := hsegment.canonicalizes htext
      obtain ⟨texts', htexts', hsames⟩ := ih htexts
      exact ⟨text' :: texts', .cons htext' htexts', .cons hsame hsames⟩

end Respelled

/-! ## The slash at the end -/

section Trailing

variable {raw text : Str}

theorem Canonicalizes.eq_dot (h : Canonicalizes .path raw (46 :: text)) :
    ∃ rest, raw = 46 :: rest ∧ Canonicalizes .path rest text := by
  generalize hdot : 46 :: text = text' at h
  cases h with
  | nil => cases hdot
  | escape => exact absurd (List.cons.inj hdot).1 (by decide)
  | nonAscii => exact absurd (List.cons.inj hdot).1 (by decide)
  | plain _ _ _ h =>
    obtain ⟨rfl, rfl⟩ := List.cons.inj hdot
    exact ⟨_, rfl, h⟩

theorem canonicalizes_plainDot : Canonicalizes .path [46] [46] :=
  canonicalizes_byte (by decide) (by decide) (by decide)

theorem Canonicalizes.isTrailing_eq (h : Canonicalizes .path raw text) :
    isTrailing text = isTrailing raw := by
  have hnil : ∀ {raw : Str}, Canonicalizes .path raw [] → raw = [] := fun h => h.eq_nil_iff.mp rfl
  have hone : text = [46] ↔ raw = [46] := by
    constructor
    · rintro rfl
      obtain ⟨rest, rfl, hrest⟩ := h.eq_dot
      rw [hnil hrest]
    · rintro rfl
      exact h.eq_of canonicalizes_plainDot
  have htwo : text = [46, 46] ↔ raw = [46, 46] := by
    constructor
    · rintro rfl
      obtain ⟨rest, rfl, hrest⟩ := h.eq_dot
      obtain ⟨rest', rfl, hrest'⟩ := hrest.eq_dot
      rw [hnil hrest']
    · rintro rfl
      exact h.eq_of (canonicalizes_plainDot.append canonicalizes_plainDot)
  unfold isTrailing
  simp only [h.eq_nil_iff, hone, htwo]

theorem lastSegment_rel {R : Str → Str → Prop} {path path' : Str}
    (h : List.Forall₂ R (splitOn [47] path) (splitOn [47] path')) :
    R (lastSegment path) (lastSegment path') := by
  obtain ⟨parts, hparts⟩ := splitOn_eq_concat path
  obtain ⟨parts', hparts'⟩ := splitOn_eq_concat path'
  rw [hparts, hparts', ← List.forall₂_reverse_iff, List.reverse_concat, List.reverse_concat] at h
  exact (List.forall₂_cons.mp h).1

end Trailing

/-! ## Parsing a respelled text -/

/-- The path that `parse_suffix` validates. -/
def pathInput (path : Str) : Str := if path.isEmpty then [47] else path

theorem respelled_pathInput {path path' : Str}
    (h : List.Forall₂ Respells (splitOn [47] path) (splitOn [47] path')) :
    List.Forall₂ Respells (splitOn [47] (pathInput path)) (splitOn [47] (pathInput path')) := by
  unfold pathInput
  by_cases hnil : path = []
  · rw [if_pos (List.isEmpty_iff.mpr hnil),
      if_pos (List.isEmpty_iff.mpr ((respelled_start h).1 hnil))]
    exact List.forall₂_same.mpr fun _ _ => .inl rfl
  · have hnil' : path' ≠ [] := by
      rintro rfl
      have hswap := List.Forall₂.flip h
      exact hnil ((respelled_start (hswap.imp fun _ _ => Respells.symm)).1 rfl)
    rwa [if_neg (mt List.isEmpty_iff.mp hnil), if_neg (mt List.isEmpty_iff.mp hnil')]

theorem lastSegment_pathInput (path : Str) : lastSegment (pathInput path) = lastSegment path := by
  unfold pathInput
  split_ifs with hnil
  · rw [List.isEmpty_iff.mp hnil]
    rfl
  · rfl

theorem parseSuffix_respelled {suffix path' : Str} {components : Suffix}
    (h : parseSuffix suffix = .ok components)
    (hpath : List.Forall₂ Respells (splitOn [47] (splitSuffix suffix).path) (splitOn [47] path')) :
    ∃ text', parseSuffix
        (referenceStr path' (splitSuffix suffix).query (splitSuffix suffix).fragment) =
          .ok { components with path := text' } ∧
      normalizeSegments (splitOn [47] components.path) [] = normalizeSegments (splitOn [47] text') [] ∧
      isTrailing (lastSegment components.path) = isTrailing (lastSegment (splitSuffix suffix).path) ∧
      isTrailing (lastSegment text') = isTrailing (lastSegment path') := by
  obtain ⟨hhash, hquestion, hquery, -⟩ := splitSuffix_spec suffix
  obtain ⟨hstart, h⟩ := ite_error_eq_ok.mp h
  obtain ⟨hcanonical, hqueries, hfragments⟩ := validateSuffix_eq_ok.mp h
  have hstart' : [47] <+: pathInput (splitSuffix suffix).path := by
    rw [← startsWith_iff (List.cons_ne_nil _ _)]
    simpa [pathInput] using hstart
  have hrespelled := respelled_pathInput hpath
  obtain ⟨texts', htexts', hsame⟩ := respelled_canonicalizes hrespelled hcanonical.segments
  have htext' : Canonicalizes .path (pathInput path') ([47].intercalate texts') := by
    have hjoin := canonicalizes_intercalate htexts'
    rwa [intercalate_splitOn (List.cons_ne_nil _ _)] at hjoin
  have hunique : Relator.RightUnique (Canonicalizes .path) := fun _ _ _ h h' => h.eq_of h'
  have hsplit' : splitOn [47] ([47].intercalate texts') = texts' :=
    List.right_unique_forall₂' hunique htext'.segments htexts'
  refine ⟨[47].intercalate texts', ?_, ?_, ?_, ?_⟩
  · have hreference : splitSuffix (referenceStr path' (splitSuffix suffix).query
        (splitSuffix suffix).fragment) =
        ⟨path', (splitSuffix suffix).query, (splitSuffix suffix).fragment⟩ :=
      splitSuffix_append (notMem_respelled hpath (.inl rfl) hhash)
        (notMem_respelled hpath (.inr rfl) hquestion) hquery
    have hrooted : startsWith (pathInput path') [47] :=
      (startsWith_iff (List.cons_ne_nil _ _)).mpr ((respelled_start hrespelled).2 hstart')
    unfold parseSuffix
    rw [hreference]
    refine ite_error_eq_ok.mpr ⟨?_, ?_⟩
    · show ¬ (!startsWith (pathInput path') [47])
      rw [hrooted]
      exact Bool.false_ne_true
    · exact validateSuffix_eq_ok.mpr ⟨htext', hqueries, hfragments⟩
  · rw [hsplit']
    exact normalizeSegments_congr hsame []
  · rw [(lastSegment_rel hcanonical.segments).isTrailing_eq]
    exact congrArg isTrailing (lastSegment_pathInput _)
  · rw [(lastSegment_rel htext'.segments).isTrailing_eq, lastSegment_pathInput]

theorem referenceStr_head {path : Str} {query fragment : Option Str} (h : path = [] ∨ [47] <+: path) :
    ∀ byte ∈ (referenceStr path query fragment).head?, isBeforeDelimiter byte = false := by
  intro byte hbyte
  rcases h with rfl | ⟨rest, rfl⟩
  · cases query with
    | some text => exact Option.some.inj hbyte ▸ rfl
    | none =>
      cases fragment with
      | some text => exact Option.some.inj hbyte ▸ rfl
      | none => cases hbyte
  · exact Option.some.inj hbyte ▸ rfl

theorem parseSuffix_start {suffix : Str} {components : Suffix}
    (h : parseSuffix suffix = .ok components) :
    (splitSuffix suffix).path = [] ∨ [47] <+: (splitSuffix suffix).path := by
  obtain ⟨hstart, -⟩ := ite_error_eq_ok.mp h
  by_cases hnil : (splitSuffix suffix).path = []
  · exact .inl hnil
  · rw [if_neg (mt List.isEmpty_iff.mp hnil)] at hstart
    exact .inr ((startsWith_iff (List.cons_ne_nil _ _)).mp (by simpa using hstart))

theorem parseAfterScheme_respelled {scheme : Scheme} {authority suffix path' : Str} {url : Url}
    (h : parseAfterScheme scheme authority suffix = .ok url)
    (hpath : List.Forall₂ Respells (splitOn [47] (splitSuffix suffix).path) (splitOn [47] path')) :
    ∃ url', parseAfterScheme scheme authority
        (referenceStr path' (splitSuffix suffix).query (splitSuffix suffix).fragment) = .ok url' ∧
      (path' = [] ∨ [47] <+: path') ∧ (url' = url ↔
        isTrailing (lastSegment (splitSuffix suffix).path) = isTrailing (lastSegment path') ∨
          url.path = [47]) := by
  obtain ⟨hempty, h⟩ := ite_error_eq_ok.mp h
  obtain ⟨hcredentials, h⟩ := ite_error_eq_ok.mp h
  obtain ⟨parsed, hparsed, h⟩ := bind_eq_ok.mp h
  obtain ⟨components, hcomponents, h⟩ := bind_eq_ok.mp h
  obtain rfl := Except.ok.inj h
  obtain ⟨text', htext', hsegments, hlast, hlast'⟩ := parseSuffix_respelled hcomponents hpath
  refine ⟨_, ite_error_eq_ok.mpr ⟨hempty, ite_error_eq_ok.mpr ⟨hcredentials,
    bind_eq_ok.mpr ⟨parsed, hparsed, bind_eq_ok.mpr ⟨_, htext', rfl⟩⟩⟩⟩,
    (parseSuffix_start hcomponents).imp (respelled_start hpath).1 (respelled_start hpath).2, ?_⟩
  have hkept : ∀ segment ∈ normalizeSegments (splitOn [47] text') [], segment ≠ [] := by
    intro segment hsegment
    rcases mem_normalizeSegments hsegment with hnil | ⟨-, hkept⟩
    · exact absurd hnil List.not_mem_nil
    · exact (isKept_iff.mp hkept).1
  simp only [Url.mk.injEq, true_and, and_true]
  rw [normalizePath_eq, normalizePath_eq, hsegments, hlast, hlast', joinPath_inj,
    joinPath_eq_slash hkept]
  exact or_congr_left ⟨Eq.symm, Eq.symm⟩

theorem colon_notMem_of_parseScheme {before : Str} {scheme : Scheme}
    (h : parseScheme before = .ok scheme) : (58 : UInt8) ∉ before := by
  have hlower : (58 : UInt8) ∉ lower before := by
    unfold parseScheme at h
    dsimp only at h
    split_ifs at h with hhttp hhttps
    · rw [hhttp]
      decide
    · rw [hhttps]
      decide
  exact fun hmem => hlower (List.mem_map.mpr ⟨58, hmem, rfl⟩)

end BasicWebserver.Platform.Url
