import BasicWebserver.Platform.Url.Canonical

/-!
# Relative references

What resolving a reference against a URL is for: `Resolves` states the result component by
component, with the normal form of a path as what is left when the rules for empty and dot segments
(`Reduces`) no longer apply. The code meets it for every reference without `://`
(`resolve_reference_iff`), and it is only `://` that it refuses, wherever it stands.
-/

namespace BasicWebserver.Platform.Url

open Ascii Splitting Fallible Percent

/-! ## Normal forms of paths -/

/-- A segment that names something. -/
def Ordinary (segment : Str) : Prop :=
  segment ≠ [] ∧ ¬ Encodes segment (ascii ".") ∧ ¬ Encodes segment (ascii "..")

/-- The rules for empty and dot segments. -/
inductive Reduces : List Str → List Str → Prop
  | empty (before after : List Str) : Reduces (before ++ [] :: after) (before ++ after)
  | dot {segment : Str} (before after : List Str) (h : Encodes segment (ascii ".")) :
      Reduces (before ++ segment :: after) (before ++ after)
  | parent {segment dots : Str} (before after : List Str) (h : Ordinary segment)
      (hdots : Encodes dots (ascii "..")) :
      Reduces (before ++ segment :: dots :: after) (before ++ after)
  | root {dots : Str} (after : List Str) (h : Encodes dots (ascii "..")) :
      Reduces (dots :: after) after

/-- `path` is the normal form of `raw`; a slash at the end of `raw`, or dots there, leave one. -/
def NormalForm (raw path : Str) : Prop :=
  ∃ segments, Relation.ReflTransGen Reduces (splitOn [47] raw) segments ∧
    (∀ segment ∈ segments, Ordinary segment) ∧
    path = joinPath segments (isTrailing (lastSegment raw))

theorem encodes_of_isSingleDotSegment {segment : Str} (h : isSingleDotSegment segment) :
    Encodes segment (ascii ".") := by
  rcases Bool.or_eq_true_iff.mp h with h | h
  · rw [of_decide_eq_true h]
    exact .plain (by decide) .nil
  · rw [of_decide_eq_true h]
    exact @Encodes.escaped 50 69 2 14 [] [] rfl rfl .nil

theorem encodes_of_isDoubleDotSegment {segment : Str} (h : isDoubleDotSegment segment) :
    Encodes segment (ascii "..") := by
  have hplain : ∀ {text plain : Str}, Encodes text plain → Encodes (46 :: text) (46 :: plain) :=
    fun h => .plain (by decide) h
  have hescaped : ∀ {text plain : Str}, Encodes text plain →
      Encodes (37 :: 50 :: 69 :: text) (46 :: plain) :=
    fun h => @Encodes.escaped 50 69 2 14 _ _ rfl rfl h
  unfold isDoubleDotSegment at h
  simp only [Bool.or_eq_true, decide_eq_true_eq] at h
  rcases h with ((rfl | rfl) | rfl) | rfl
  · exact hplain (hplain .nil)
  · exact hplain (hescaped .nil)
  · exact hescaped (hplain .nil)
  · exact hescaped (hescaped .nil)

theorem ordinary_of_isKept {segment : Str} (htext : Canonicalizes .path segment segment)
    (h : isKept segment) : Ordinary segment := by
  obtain ⟨hne, hsingle, hdouble⟩ := isKept_iff.mp h
  exact ⟨hne, fun henc => hsingle (isSingleDotSegment_of_encodes htext henc),
    fun henc => hdouble (isDoubleDotSegment_of_encodes htext henc)⟩

theorem reduces_normalizeSegments {segments out : List Str}
    (htext : ∀ segment ∈ segments, Canonicalizes .path segment segment)
    (hout : ∀ segment ∈ out, Ordinary segment) :
    Relation.ReflTransGen Reduces (out ++ segments) (normalizeSegments segments out) ∧
      ∀ segment ∈ normalizeSegments segments out, Ordinary segment := by
  induction segments generalizing out with
  | nil =>
    rw [List.append_nil]
    exact ⟨.refl, hout⟩
  | cons first rest ih =>
    obtain ⟨hfirst, hrest⟩ := List.forall_mem_cons.mp htext
    unfold normalizeSegments
    split_ifs with hnil hsingle hdouble
    · obtain ⟨hreduces, hordinary⟩ := ih hrest hout
      exact ⟨.head (hnil ▸ .empty out rest) hreduces, hordinary⟩
    · obtain ⟨hreduces, hordinary⟩ := ih hrest hout
      exact ⟨.head (.dot out rest (encodes_of_isSingleDotSegment hsingle)) hreduces, hordinary⟩
    · have hdots := encodes_of_isDoubleDotSegment hdouble
      obtain ⟨hreduces, hordinary⟩ :=
        ih hrest fun segment hs => hout segment (List.mem_of_mem_dropLast hs)
      refine ⟨.head ?_ hreduces, hordinary⟩
      rcases List.eq_nil_or_concat out with rfl | ⟨start, final, rfl⟩
      · exact .root rest hdots
      · rw [List.concat_eq_append] at hout ⊢
        rw [List.dropLast_concat, List.append_assoc]
        exact .parent start rest (hout final (by simp)) hdots
    · have hkept := isKept_iff.mpr ⟨hnil, hsingle, hdouble⟩
      obtain ⟨hreduces, hordinary⟩ := ih hrest (List.forall_mem_append.mpr
        ⟨hout, List.forall_mem_singleton.mpr (ordinary_of_isKept hfirst hkept)⟩)
      rw [List.append_assoc] at hreduces
      exact ⟨hreduces, hordinary⟩

theorem normalForm_normalizePath {raw : Str} (h : Canonicalizes .path raw raw) :
    NormalForm raw (normalizePath raw) := by
  obtain ⟨hreduces, hordinary⟩ := reduces_normalizeSegments (canonicalizes_self_iff.mp h)
    fun _ hnil => absurd hnil List.not_mem_nil
  exact ⟨_, hreduces, hordinary, normalizePath_eq raw⟩

/-! ## What resolving is for -/

/-- `url` is the reference made of a path, a query and a fragment, resolved against `base`. The
canonical texts of the three are `path'`, `query'` and `fragment'`. -/
structure Resolves (base : Url) (path path' : Str) (query' fragment' : Option Str) (url : Url) :
    Prop where
  scheme : url.scheme = base.scheme
  host : url.host = base.host
  port : url.port = base.port
  fragment : url.fragment = fragment'
  empty : path = [] → url.path = base.path ∧ url.query = query'.or base.query
  rooted : [47] <+: path → NormalForm path' url.path ∧ url.query = query'
  relative : path ≠ [] → ¬ [47] <+: path → url.query = query' ∧
    ∃ directory last, base.path = directory ++ last ∧ [47] <:+ directory ∧ (47 : UInt8) ∉ last ∧
      NormalForm (directory ++ path') url.path

/-- The text of a reference. -/
def referenceStr (path : Str) (query fragment : Option Str) : Str :=
  path ++ queryStr query ++ fragmentStr fragment

section

variable {kind : Component} {raw text path path' : Str} {query query' fragment fragment' : Option Str}

theorem Canonicalizes.eq_nil_iff (h : Canonicalizes kind raw text) : text = [] ↔ raw = [] := by
  cases h with
  | nil => exact Iff.rfl
  | escape => simp
  | nonAscii => simp [percentByte]
  | plain => simp

theorem Canonicalizes.slash_iff (h : Canonicalizes kind raw text) :
    startsWith text [47] ↔ [47] <+: raw := by
  rw [startsWith_iff (List.cons_ne_nil _ _)]
  cases h with
  | nil => exact Iff.rfl
  | escape => simp [List.cons_prefix_cons]
  | nonAscii hbyte =>
    simp only [percentByte, List.cons_append, List.cons_prefix_cons, List.nil_prefix, and_true]
    constructor
    · exact fun h => absurd h (by decide)
    · rintro rfl
      exact absurd hbyte (by decide)
  | plain => simp [List.cons_prefix_cons]

theorem Canonicalizes.notMem_raw (h : Canonicalizes kind raw text) {byte : UInt8}
    (hbyte : isForbidden byte kind) (hascii : ¬ 127 < byte) : byte ∉ raw := by
  have hhex : ∀ {digit : UInt8}, isHex digit → byte ≠ digit := by
    rintro digit hdigit rfl
    exact Bool.false_ne_true ((isForbidden_of_isHex byte hdigit).1.symm.trans hbyte)
  have hpercent : byte ≠ 37 := by
    rintro rfl
    cases kind <;> exact absurd hbyte (by decide)
  induction h with
  | nil => exact List.not_mem_nil
  | escape hhi hlo _ ih => simp [hpercent, hhex hhi, hhex hlo, ih]
  | nonAscii hlarge _ ih =>
    rw [List.mem_cons, not_or]
    refine ⟨?_, ih⟩
    rintro rfl
    exact hascii hlarge
  | plain _ _ hallowed _ ih =>
    rw [List.mem_cons, not_or]
    refine ⟨?_, ih⟩
    rintro rfl
    exact Bool.false_ne_true (hallowed.symm.trans hbyte)

theorem parseRelative_referenceStr (hpath : Canonicalizes .path path path')
    (hquery : Option.Rel (Canonicalizes .query) query query')
    (hfragment : Option.Rel (Canonicalizes .fragment) fragment fragment') :
    parseRelative (referenceStr path query fragment) = .ok ⟨path', query', fragment'⟩ := by
  have hquery' : ∀ text ∈ query, (35 : UInt8) ∉ text := by
    intro text htext
    cases hquery with
    | none => cases htext
    | some h =>
      cases htext
      exact h.notMem_raw (by decide) (by decide)
  unfold parseRelative referenceStr
  rw [splitSuffix_append (hpath.notMem_raw (by decide) (by decide))
    (hpath.notMem_raw (by decide) (by decide)) hquery']
  exact validateSuffix_eq_ok.mpr ⟨hpath, hquery, hfragment⟩

theorem isPrefix_path {start : Str} (h : start <+: referenceStr path query fragment)
    (hquery : (63 : UInt8) ∉ start) (hfragment : (35 : UInt8) ∉ start) : start <+: path := by
  unfold referenceStr at h
  rw [List.append_assoc] at h
  rcases List.prefix_or_prefix_of_prefix h (List.prefix_append path _) with h' | ⟨rest, rfl⟩
  · exact h'
  · rw [List.prefix_append_right_inj] at h
    cases rest with
    | nil => simp
    | cons byte rest =>
      have hmem : byte ∈ path ++ byte :: rest := by simp
      cases query with
      | some text =>
        obtain ⟨rfl, -⟩ := List.cons_prefix_cons.mp h
        exact absurd hmem hquery
      | none =>
        cases fragment with
        | some text =>
          obtain ⟨rfl, -⟩ := List.cons_prefix_cons.mp h
          exact absurd hmem hfragment
        | none => exact absurd h (by simp [queryStr, fragmentStr])

theorem not_startsWith_scheme (scheme : Scheme) (hpath : (58 : UInt8) ∉ (splitOn [47] path).headD []) :
    ¬ startsWith (lower (referenceStr path query fragment)) (schemeStr scheme ++ [58, 47, 47]) := by
  rw [startsWith_iff (by simp)]
  rintro ⟨rest, hrest⟩
  obtain ⟨start, tail, hreference, hstart⟩ : ∃ start tail,
      referenceStr path query fragment = start ++ tail ∧
        lower start = schemeStr scheme ++ [58] := by
    have hsplit : lower (referenceStr path query fragment) =
        (schemeStr scheme ++ [58]) ++ ([47, 47] ++ rest) := by
      rw [← hrest]
      simp
    obtain ⟨start, tail, hreference, hstart, -⟩ := List.map_eq_append_iff.mp hsplit
    exact ⟨start, tail, hreference, hstart⟩
  have hbytes : ∀ byte, toLower byte ∈ schemeStr scheme ++ [58] →
      byte ≠ 47 ∧ byte ≠ 63 ∧ byte ≠ 35 := by
    cases scheme <;> exact forall_byte (by decide +kernel)
  have hnotMem : ∀ byte ∈ start, byte ≠ 47 ∧ byte ≠ 63 ∧ byte ≠ 35 :=
    fun byte hbyte => hbytes byte (hstart ▸ List.mem_map_of_mem hbyte)
  have hcolon : (58 : UInt8) ∈ start := by
    obtain ⟨byte, hbyte, heq⟩ := List.mem_map.mp (hstart ▸ List.mem_append_right _
      (List.mem_singleton.mpr rfl) : (58 : UInt8) ∈ lower start)
    have hcolon : ∀ byte, toLower byte = 58 → byte = 58 := forall_byte (by decide +kernel)
    exact hcolon byte heq ▸ hbyte
  obtain ⟨after, rfl⟩ := isPrefix_path (hreference ▸ List.prefix_append start tail)
    (fun hmem => (hnotMem 63 hmem).2.1 rfl) fun hmem => (hnotMem 35 hmem).2.2 rfl
  rw [splitOn_append [] fun hmem => (hnotMem 47 hmem).1 rfl] at hpath
  cases hparts : splitOn [47] after with
  | nil => exact splitOn_ne_nil _ _ hparts
  | cons part parts =>
    rw [hparts] at hpath
    exact hpath (List.mem_append_left part hcolon)

theorem eq_pathDirectory_append (rest : Str) : ∃ last, 47 :: rest = pathDirectory (47 :: rest) ++ last ∧
    [47] <:+ pathDirectory (47 :: rest) ∧ (47 : UInt8) ∉ last := by
  obtain ⟨parts, hparts⟩ := splitOn_eq_concat rest
  have hsplit : splitOn [47] (47 :: rest) = ([] :: parts) ++ [lastSegment rest] := by
    rw [splitOn_slash, hparts]
    rfl
  have hdirectory : pathDirectory (47 :: rest) = [47].intercalate ([] :: parts) ++ [47] := by
    unfold pathDirectory
    dsimp only
    rw [hsplit, List.dropLast_concat]
    split_ifs with hlen
    · have hnil : parts = [] := by simpa using hlen
      rw [hnil]
      rfl
    · rfl
  refine ⟨lastSegment rest, ?_, hdirectory ▸ List.suffix_append _ _, ?_⟩
  · have hjoin := intercalate_splitOn (List.cons_ne_nil 47 []) (47 :: rest)
    rw [hsplit, intercalate_append (List.cons_ne_nil _ _) (List.cons_ne_nil _ _),
      List.intercalate_singleton, ← List.append_assoc] at hjoin
    rw [hdirectory, hjoin]
  · exact notMem_of_mem_splitOn (hparts ▸ List.mem_append_right _ (List.mem_singleton.mpr rfl))

theorem resolveReference_eq (base : Url) (hcolon : (58 : UInt8) ∉ (splitOn [47] path).headD [])
    (hstart : ¬ [47, 47] <+: path) :
    resolveReference base (referenceStr path query fragment) =
      if contains (referenceStr path query fragment) [58, 47, 47] then .error .missingScheme
      else parseRelative (referenceStr path query fragment) >>= fun relative =>
        .ok (relativeTo base relative) := by
  have hhttp : ¬ startsWith (lower (referenceStr path query fragment)) (ascii "http://") :=
    not_startsWith_scheme .http hcolon
  have hhttps : ¬ startsWith (lower (referenceStr path query fragment)) (ascii "https://") :=
    not_startsWith_scheme .https hcolon
  have hslashes : startsWith (referenceStr path query fragment) [47, 47] = false := by
    rw [Bool.eq_false_iff, ne_eq, startsWith_iff (List.cons_ne_nil _ _)]
    exact fun h => hstart (isPrefix_path h (by decide) (by decide))
  unfold resolveReference
  dsimp only
  rw [if_neg (by
    rw [Bool.or_eq_true, not_or]
    exact ⟨hhttp, hhttps⟩), hslashes, Bool.or_false]

theorem resolves_relativeTo {base : Url} (hbase : Canonical base)
    (hpath : Canonicalizes .path path path') :
    Resolves base path path' query' fragment'
      (relativeTo base ⟨path', query', fragment'⟩) := by
  have hempty : path'.isEmpty ↔ path = [] := List.isEmpty_iff.trans hpath.eq_nil_iff
  obtain ⟨rest, hrest⟩ := hbase.path.eq_cons
  refine ⟨rfl, rfl, rfl, rfl, ?_, ?_, ?_⟩
  · intro hnil
    unfold relativeTo
    dsimp only
    rw [if_pos (hempty.mpr hnil), if_pos (hempty.mpr hnil)]
    exact ⟨rfl, by cases query' <;> rfl⟩
  · intro hrooted
    have hne : ¬ path'.isEmpty := by
      rw [hempty]
      rintro rfl
      exact absurd hrooted (by decide)
    unfold relativeTo
    dsimp only
    rw [if_neg hne, if_pos (hpath.slash_iff.mpr hrooted), if_neg hne]
    exact ⟨normalForm_normalizePath hpath.canonical, by cases query' <;> rfl⟩
  · intro hne hrooted
    obtain ⟨last, hlast, hdirectory, hslash⟩ := eq_pathDirectory_append rest
    rw [← hrest] at hlast hdirectory
    unfold relativeTo
    dsimp only
    rw [if_neg (mt hempty.mp hne), if_neg (mt hpath.slash_iff.mp hrooted), if_neg (mt hempty.mp hne)]
    refine ⟨by cases query' <;> rfl, _, _, hlast, hdirectory, hslash, ?_⟩
    exact normalForm_normalizePath
      ((canonicalizes_pathDirectory hbase.pathText).append hpath.canonical)

end

theorem Canonical.resolve_toStr (base : Url) {url : Url} (h : Canonical url) :
    Url.resolve base (toStr url) = .ok url := by
  have hstart : startsWith (lower (toStr url)) (ascii "http://") ||
      startsWith (lower (toStr url)) (ascii "https://") := by
    have hlower : lower (toStr url) = (lower (schemeStr url.scheme) ++ [58, 47, 47]) ++
        lower (url.host ++ portStr url.port ++
          (url.path ++ queryStr url.query ++ fragmentStr url.fragment)) := by
      rw [toStr_eq]
      unfold lower
      simp only [List.map_append, List.append_assoc]
      rfl
    rw [hlower, Bool.or_eq_true, startsWith_iff (by decide), startsWith_iff (by decide)]
    cases url.scheme with
    | http => exact .inl (List.prefix_append _ _)
    | https => exact .inr (List.prefix_append _ _)
  unfold Url.resolve resolveReference
  dsimp only
  rw [if_pos hstart]
  exact h.parse_toStr

def sampleBase : Url where
  scheme := .http
  host := ascii "h"
  port := none
  path := ascii "/a/b"
  query := some (ascii "x")
  fragment := none

end BasicWebserver.Platform.Url
