import BasicWebserver.Platform.Url.Resolution

/-!
# Appending path segments and query parameters

`append_path_segments` adds one segment for each item, which decodes to the item, unless an item is
a dot or two: `percent_encode` leaves dots as they are, and `normalize_path` then takes them as dot
segments (`append_path_segments_iff`). `append_query_param` adds exactly the pair
(`query_pairs_append`).
-/

namespace BasicWebserver.Platform.Url

open Ascii Splitting Fallible Percent

/-! ## Percent encoding -/

/-- What the encoders write for a byte, and what of it the decoders read. -/
@[mk_iff] structure EncoderByte (byte : UInt8) : Prop where
  hexValue : isHex byte → Percent.hexValue byte = some (hexValue byte)
  unreserved : isUnreserved byte → byte ≠ 37
  unescaped : isFormUnescaped byte → byte ≠ 43 ∧ byte ≠ 37
  slash : (47 : UInt8) ∉ percentEncodeByte byte
  separators : (38 : UInt8) ∉ formEncodeByte byte ∧ (61 : UInt8) ∉ formEncodeByte byte

theorem encoderByte (byte : UInt8) : EncoderByte byte := by
  rw [encoderByte_iff]
  revert byte
  exact forall_byte (by decide +kernel)

theorem hexValue_eq (byte : UInt8) : isHex byte → Percent.hexValue byte = some (hexValue byte) :=
  (encoderByte byte).hexValue

theorem encodes_append {text text' plain plain' : Str} (h : Encodes text plain)
    (h' : Encodes text' plain') : Encodes (text ++ text') (plain ++ plain') := by
  induction h with
  | nil => exact h'
  | plain hb _ ih => exact .plain hb ih
  | escaped hhi hlo _ ih => exact .escaped hhi hlo ih

theorem encodes_percentEncode (input : Str) : Encodes (percentEncode input) input := by
  have hbyte : ∀ byte, Encodes (percentEncodeByte byte) [byte] := by
    intro byte
    have hplain : ∀ byte, isUnreserved byte → byte ≠ 37 := fun byte =>
      (encoderByte byte).unreserved
    unfold percentEncodeByte
    split_ifs with hunreserved
    · exact .plain (hplain byte hunreserved) .nil
    · obtain ⟨hi, lo, hpercent, hhi, hlo, -, -, hvalue⟩ := percentByte_spec byte
      rw [hpercent, ← hvalue]
      exact .escaped (hexValue_eq hi hhi) (hexValue_eq lo hlo) .nil
  rw [percentEncode_eq]
  induction input with
  | nil => exact .nil
  | cons byte input ih => exact encodes_append (hbyte byte) ih

theorem encodes_unique {text plain plain' : Str} (h : Encodes text plain) (h' : Encodes text plain') :
    plain = plain' := by
  induction h generalizing plain' with
  | nil =>
    cases h'
    rfl
  | plain hb _ ih =>
    cases h' with
    | plain _ h' => rw [ih h']
    | escaped => exact absurd rfl hb
  | escaped hhi hlo _ ih =>
    cases h' with
    | plain hb => exact absurd rfl hb
    | escaped hhi' hlo' h' =>
      rw [hhi] at hhi'
      rw [hlo] at hlo'
      cases hhi'
      cases hlo'
      rw [ih h']

theorem isKept_percentEncode {item : Str} (h : item ≠ []) :
    isKept (percentEncode item) ↔ item ≠ ascii "." ∧ item ≠ ascii ".." := by
  have hitem := encodes_percentEncode item
  constructor
  · intro hkept
    constructor
    · rintro rfl
      exact absurd hkept (by decide)
    · rintro rfl
      exact absurd hkept (by decide)
  · rintro ⟨hsingle, hdouble⟩
    refine isKept_iff.mpr ⟨hitem.ne_nil h, fun hdot => hsingle ?_, fun hdots => hdouble ?_⟩
    · exact encodes_unique hitem (encodes_of_isSingleDotSegment hdot)
    · exact encodes_unique hitem (encodes_of_isDoubleDotSegment hdots)

theorem slash_notMem_percentEncode (item : Str) : (47 : UInt8) ∉ percentEncode item := by
  have hbyte : ∀ byte, (47 : UInt8) ∉ percentEncodeByte byte := fun byte =>
    (encoderByte byte).slash
  rw [percentEncode_eq]
  intro hmem
  obtain ⟨byte, -, hmem⟩ := List.mem_flatMap.mp hmem
  exact hbyte byte hmem

/-! ## Path segments -/

def nonEmptySegments (path : Str) : List Str := (splitOn (ascii "/") path).filter (· ≠ [])

section Segments

variable {segments encoded : List Str} {trailing : Bool}

theorem nonEmptySegments_joinPath
    (h : ∀ segment ∈ segments, isKept segment ∧ (47 : UInt8) ∉ segment) :
    nonEmptySegments (joinPath segments trailing) = segments := by
  have hfilter : segments.filter (· ≠ []) = segments :=
    List.filter_eq_self.mpr fun segment hs => decide_eq_true (isKept_iff.mp (h segment hs).1).1
  have hsplit := @splitOn_joinPath segments trailing fun segment hs => (h segment hs).2
  unfold nonEmptySegments
  rw [show ascii "/" = [47] from rfl, hsplit, List.filter_cons_of_neg (by decide),
    List.filter_append, hfilter]
  split_ifs <;> simp

theorem length_normalizeSegments_le (out : List Str) :
    (normalizeSegments segments out).length ≤ out.length + (segments.filter isKept).length := by
  induction segments generalizing out with
  | nil => exact le_rfl
  | cons first rest ih =>
    have hrest : (rest.filter isKept).length ≤ ((first :: rest).filter isKept).length :=
      (List.Sublist.filter _ (List.sublist_cons_self first rest)).length_le
    unfold normalizeSegments
    split_ifs with hnil hsingle hdouble
    · exact (ih out).trans (Nat.add_le_add_left hrest _)
    · exact (ih out).trans (Nat.add_le_add_left hrest _)
    · refine (ih out.dropLast).trans (Nat.add_le_add ?_ hrest)
      exact (List.dropLast_sublist out).length_le
    · rw [List.filter_cons_of_pos (isKept_iff.mpr ⟨hnil, hsingle, hdouble⟩), List.length_cons]
      refine (ih (out ++ [first])).trans (le_of_eq ?_)
      rw [List.length_append, List.length_singleton]
      omega

theorem nextPath_eq (h : ∀ segment ∈ segments, isKept segment ∧ (47 : UInt8) ∉ segment)
    (hencoded : encoded ≠ []) :
    (if joinPath segments trailing = [47] then [47] ++ [47].intercalate encoded
      else if endsWith (joinPath segments trailing) [47] then
        joinPath segments trailing ++ [47].intercalate encoded
      else joinPath segments trailing ++ [47] ++ [47].intercalate encoded) =
      47 :: [47].intercalate (segments ++ encoded) := by
  have hne : ∀ segment ∈ segments, segment ≠ [] := fun segment hs => (isKept_iff.mp (h segment hs).1).1
  by_cases hnil : segments = []
  · subst hnil
    rw [if_pos ((joinPath_eq_slash hne).mpr rfl)]
    rfl
  rw [if_neg (mt (joinPath_eq_slash hne).mp hnil), intercalate_append hnil hencoded]
  obtain ⟨start, final, rfl⟩ := (List.eq_nil_or_concat segments).resolve_left hnil
  rw [List.concat_eq_append] at h hnil hne ⊢
  have hends : endsWith (joinPath (start ++ [final]) trailing) [47] ↔ trailing = true := by
    obtain ⟨rest, hrest⟩ := IsNormal.eq_cons ⟨start ++ [final], trailing, h, rfl⟩
    rw [hrest, endsWith_slash List.not_mem_nil, ← lastSegment_slash, ← hrest,
      lastSegment_joinPath fun segment hs => (h segment hs).2]
    have hfinal := hne final (List.mem_append_right _ (List.mem_singleton.mpr rfl))
    simp [hfinal]
  unfold joinPath at hends ⊢
  cases trailing with
  | true =>
    rw [if_pos (hends.mpr rfl)]
    simp
  | false =>
    rw [if_neg (mt hends.mp Bool.false_ne_true)]
    simp

theorem appendPathSegments_path {url : Url} {items : List Str}
    (h : ∀ segment ∈ segments, isKept segment ∧ (47 : UInt8) ∉ segment)
    (hpath : url.path = joinPath segments trailing) (hitems : ∀ item ∈ items, item ≠ [])
    (hne : items ≠ []) :
    (appendPathSegments url items).path =
      joinPath (normalizeSegments (items.map percentEncode) segments)
        (isTrailing ((items.map percentEncode).getLastD [])) := by
  have hmap : items.map percentEncode ≠ [] := mt List.map_eq_nil_iff.mp hne
  have hnonEmpty : ∀ segment ∈ items.map percentEncode, segment ≠ [] := by
    intro segment hsegment
    obtain ⟨item, hitem, rfl⟩ := List.mem_map.mp hsegment
    exact (encodes_percentEncode item).ne_nil (hitems item hitem)
  have hsuffix : ¬ ([47].intercalate (items.map percentEncode)).isEmpty := by
    rw [List.isEmpty_iff]
    exact (intercalate_ne_nil hnonEmpty).mpr hmap
  have hsplit : splitOn [47] (47 :: [47].intercalate (segments ++ items.map percentEncode)) =
      [] :: (segments ++ items.map percentEncode) := by
    rw [splitOn_slash, splitOn_intercalate (List.append_ne_nil_of_right_ne_nil _ hmap)]
    refine List.forall_mem_append.mpr ⟨fun segment hs => (h segment hs).2, fun segment hs => ?_⟩
    obtain ⟨item, -, rfl⟩ := List.mem_map.mp hs
    exact slash_notMem_percentEncode item
  have hlast : lastSegment (47 :: [47].intercalate (segments ++ items.map percentEncode)) =
      (items.map percentEncode).getLastD [] := by
    unfold lastSegment
    rw [hsplit]
    obtain ⟨start, final, hconcat⟩ := (List.eq_nil_or_concat _).resolve_left hmap
    rw [hconcat, List.concat_eq_append, ← List.append_assoc, ← List.cons_append,
      List.getLastD_concat, List.getLastD_concat]
  unfold appendPathSegments
  dsimp only
  rw [if_neg hsuffix, hpath, nextPath_eq h hmap, normalizePath_eq, hsplit, hlast,
    ← List.cons_append, normalizeSegments_append]
  congr 2
  exact normalizeSegments_kept fun segment hs => (h segment hs).1

end Segments

/-- **Appended segments.** Every item becomes one segment after those that were there, and decodes
to the item, exactly when no item is a dot or two. -/
theorem append_path_segments_iff {text : Str} {operations : List Operation} {url : Url}
    (h : build text operations = .ok url) {items : List Str} (hitems : ∀ item ∈ items, item ≠ []) :
    (∃ encoded, nonEmptySegments (appendPathSegments url items).path =
        nonEmptySegments url.path ++ encoded ∧ List.Forall₂ Encodes encoded items ∧
        (items ≠ [] → splitOn (ascii "/") (appendPathSegments url items).path =
          [] :: (nonEmptySegments url.path ++ encoded))) ↔
      ascii "." ∉ items ∧ ascii ".." ∉ items := by
  obtain ⟨segments, trailing, hsegments, hpath⟩ := (canonical_build h).path
  have hbefore : nonEmptySegments url.path = segments := hpath ▸ nonEmptySegments_joinPath hsegments
  rw [hbefore]
  by_cases hnil : items = []
  · subst hnil
    have hafter : (appendPathSegments url []).path = url.path :=
      (canonical_build h).path.normalizePath_eq
    rw [hafter, hbefore]
    exact iff_of_true ⟨[], (List.append_nil _).symm, .nil, fun hne => absurd rfl hne⟩
      ⟨List.not_mem_nil, List.not_mem_nil⟩
  have hafter := appendPathSegments_path hsegments hpath hitems hnil
  have hkept : ∀ segment ∈ normalizeSegments (items.map percentEncode) segments,
      isKept segment ∧ (47 : UInt8) ∉ segment := by
    intro segment hsegment
    rcases mem_normalizeSegments hsegment with hmem | ⟨hmem, hkept⟩
    · exact hsegments segment hmem
    · obtain ⟨item, -, rfl⟩ := List.mem_map.mp hmem
      exact ⟨hkept, slash_notMem_percentEncode item⟩
  rw [hafter, nonEmptySegments_joinPath hkept]
  constructor
  · rintro ⟨encoded, hencoded, hforall, -⟩
    -- every encoded item is kept, since the segments are counted
    have hle := @length_normalizeSegments_le (items.map percentEncode) segments
    rw [hencoded, List.length_append, hforall.length_eq] at hle
    have hall : ∀ segment ∈ items.map percentEncode, isKept segment := by
      refine List.length_filter_eq_length_iff.mp (le_antisymm (List.length_filter_le _ _) ?_)
      rw [List.length_map]
      omega
    have hitem : ∀ item ∈ items, item ≠ ascii "." ∧ item ≠ ascii ".." := fun item hmem =>
      (isKept_percentEncode (hitems item hmem)).mp (hall _ (List.mem_map_of_mem hmem))
    exact ⟨fun hmem => (hitem _ hmem).1 rfl, fun hmem => (hitem _ hmem).2 rfl⟩
  · rintro ⟨hsingle, hdouble⟩
    have hall : ∀ segment ∈ items.map percentEncode, isKept segment := by
      intro segment hsegment
      obtain ⟨item, hmem, rfl⟩ := List.mem_map.mp hsegment
      refine (isKept_percentEncode (hitems item hmem)).mpr ⟨?_, ?_⟩
      · rintro rfl
        exact hsingle hmem
      · rintro rfl
        exact hdouble hmem
    have happend := @normalizeSegments_kept (items.map percentEncode) segments hall
    refine ⟨items.map percentEncode, happend, ?_, fun _ => ?_⟩
    · rw [List.forall₂_map_left_iff, List.forall₂_same]
      exact fun item _ => encodes_percentEncode item
    · have hmap : items.map percentEncode ≠ [] := mt List.map_eq_nil_iff.mp hnil
      obtain ⟨start, final, hconcat⟩ := (List.eq_nil_or_concat _).resolve_left hmap
      have hfinal : isTrailing ((items.map percentEncode).getLastD []) = false := by
        rw [hconcat, List.concat_eq_append, List.getLastD_concat]
        exact isTrailing_of_isKept (hall final (hconcat ▸ by simp))
      rw [happend] at hkept
      rw [hfinal, happend]
      refine (splitOn_joinPath fun segment hs => (hkept segment hs).2).trans ?_
      rw [if_neg (by simp [hmap]), List.append_nil]

theorem append_path_segments_sample :
    build (ascii "http://h/a/") [] = .ok ⟨.http, ascii "h", none, ascii "/a/", none, none⟩ ∧
      ∃ encoded, nonEmptySegments (appendPathSegments
          ⟨.http, ascii "h", none, ascii "/a/", none, none⟩ [ascii "b/c", ascii "..."]).path =
          nonEmptySegments (ascii "/a/") ++ encoded ∧
        List.Forall₂ Encodes encoded [ascii "b/c", ascii "..."] := by
  have hbuild : build (ascii "http://h/a/") [] =
      .ok ⟨.http, ascii "h", none, ascii "/a/", none, none⟩ := by decide +kernel
  have hitems : ∀ item ∈ [ascii "b/c", ascii "..."], item ≠ [] := by decide
  obtain ⟨encoded, hsegments, hencoded, -⟩ :=
    (append_path_segments_iff hbuild hitems).mpr (by decide +kernel)
  exact ⟨hbuild, encoded, hsegments, hencoded⟩

/-- An item of two dots removes a segment that was there. -/
theorem append_dots_removes :
    build (ascii "http://h/a/b") [] = .ok ⟨.http, ascii "h", none, ascii "/a/b", none, none⟩ ∧
      (appendPathSegments ⟨.http, ascii "h", none, ascii "/a/b", none, none⟩ [ascii ".."]).path =
        ascii "/a/" := by
  decide +kernel

/-! ## Query parameters -/

theorem formDecodeHelp_plain {byte : UInt8} (hplus : byte ≠ 43) (hpercent : byte ≠ 37) (rest out : Str) :
    formDecodeHelp (byte :: rest) out = formDecodeHelp rest (out ++ [byte]) := by
  match rest with
  | [] => simp [formDecodeHelp]
  | [_] => simp [formDecodeHelp]
  | _ :: _ :: _ => simp [formDecodeHelp, hpercent]

theorem formDecodeHelp_percentByte (byte : UInt8) (rest out : Str) :
    formDecodeHelp (percentByte byte ++ rest) out = formDecodeHelp rest (out ++ [byte]) := by
  obtain ⟨hi, lo, hpercent, hhi, hlo, -, -, hvalue⟩ := percentByte_spec byte
  rw [hpercent, ← hvalue]
  simp [formDecodeHelp, hhi, hlo]

theorem formDecodeHelp_formEncode (input out : Str) :
    formDecodeHelp (formEncode input) out = out ++ input := by
  have hplain : ∀ byte, isFormUnescaped byte → byte ≠ 43 ∧ byte ≠ 37 := fun byte =>
    (encoderByte byte).unescaped
  rw [formEncode_eq]
  induction input generalizing out with
  | nil => exact (List.append_nil out).symm
  | cons byte input ih =>
    have hstep : formDecodeHelp (formEncodeByte byte ++ input.flatMap formEncodeByte) out =
        formDecodeHelp (input.flatMap formEncodeByte) (out ++ [byte]) := by
      unfold formEncodeByte
      split_ifs with hspace hbyte
      · subst hspace
        rfl
      · obtain ⟨hplus, hpercent⟩ := hplain byte hbyte
        exact formDecodeHelp_plain hplus hpercent _ _
      · exact formDecodeHelp_percentByte byte _ _
    rw [List.flatMap_cons, hstep, ih, List.append_assoc, List.singleton_append]

theorem notMem_formEncode {byte : UInt8} (h : byte = 38 ∨ byte = 61) (input : Str) :
    byte ∉ formEncode input := by
  have hbyte : ∀ byte, (38 : UInt8) ∉ formEncodeByte byte ∧ (61 : UInt8) ∉ formEncodeByte byte :=
    fun byte => (encoderByte byte).separators
  rw [formEncode_eq]
  intro hmem
  obtain ⟨source, -, hmem⟩ := List.mem_flatMap.mp hmem
  rcases h with rfl | rfl
  · exact (hbyte source).1 hmem
  · exact (hbyte source).2 hmem

section Pairs

variable {fromUtf8Lossy : Str → Str} {key value : Str}

theorem decodePair_formEncode (hlossy : ∀ str, isUtf8 str → fromUtf8Lossy str = str)
    (hkey : isUtf8 key) (hvalue : isUtf8 value) :
    decodePair fromUtf8Lossy (formEncode key ++ [61] ++ formEncode value) = (key, value) := by
  have hdecode : ∀ str, isUtf8 str → formDecode fromUtf8Lossy (formEncode str) = str := by
    intro str hstr
    unfold formDecode
    rw [formDecodeHelp_formEncode, List.nil_append, hlossy str hstr]
  unfold decodePair
  rw [List.append_assoc, splitFirst_append [] (notMem_formEncode (.inr rfl) key)]
  dsimp only
  rw [hdecode key hkey, hdecode value hvalue]

theorem queryPairs_appendQueryParam (hlossy : ∀ str, isUtf8 str → fromUtf8Lossy str = str)
    (hkey : isUtf8 key) (hvalue : isUtf8 value) (url : Url) :
    queryPairs fromUtf8Lossy (appendQueryParam url key value) =
      queryPairs fromUtf8Lossy url ++ [(key, value)] := by
  obtain ⟨pair, hpair⟩ : ∃ pair, pair = formEncode key ++ [61] ++ formEncode value := ⟨_, rfl⟩
  have hdecode : decodePair fromUtf8Lossy pair = (key, value) :=
    hpair ▸ decodePair_formEncode hlossy hkey hvalue
  have hampersand : (38 : UInt8) ∉ pair := by
    rw [hpair]
    simp [notMem_formEncode (.inl rfl)]
  have hsplit : splitOn [38] pair = [pair] := splitOn_of_notMem [] hampersand
  have hpairs : ∀ query : Str, query ≠ [] → queryPairs fromUtf8Lossy { url with query := some query } =
      (splitOn [38] query).map (decodePair fromUtf8Lossy) := by
    intro query hquery
    cases query with
    | nil => exact absurd rfl hquery
    | cons byte query => rfl
  have hne : pair ≠ [] := by simp [hpair]
  unfold appendQueryParam
  dsimp only
  rw [← hpair]
  match hquery : url.query with
  | none =>
    rw [hpairs pair hne, hsplit]
    simp [queryPairs, hquery, hdecode]
  | some [] =>
    rw [hpairs pair hne, hsplit]
    simp [queryPairs, hquery, hdecode]
  | some (byte :: existing) =>
    have happend : splitOn [38] (byte :: existing ++ [38] ++ pair) =
        splitOn [38] (byte :: existing) ++ [pair] := by
      rw [List.append_assoc, ← hsplit]
      exact splitOn_append_append List.not_mem_nil _ _
    refine (hpairs (byte :: existing ++ [38] ++ pair) (by simp)).trans ?_
    rw [happend, List.map_append]
    simp [queryPairs, hquery, hdecode]

/-- **Query parameters.** A pair is appended to those that are there, and nothing else changes; so
decoding a query made of some pairs gives back the pairs. Conversion to a string keeps valid UTF-8. -/
theorem query_pairs_append (hlossy : ∀ str, isUtf8 str → fromUtf8Lossy str = str) (url : Url) :
    (∀ key value, isUtf8 key → isUtf8 value →
      queryPairs fromUtf8Lossy (appendQueryParam url key value) =
          queryPairs fromUtf8Lossy url ++ [(key, value)] ∧
        (appendQueryParam url key value).path = url.path ∧
        (appendQueryParam url key value).fragment = url.fragment ∧
        (appendQueryParam url key value).scheme = url.scheme ∧
        (appendQueryParam url key value).host = url.host ∧
        (appendQueryParam url key value).port = url.port) ∧
    ∀ pairs : List (Str × Str), (∀ pair ∈ pairs, isUtf8 pair.1 ∧ isUtf8 pair.2) → url.query = none →
      queryPairs fromUtf8Lossy (pairs.foldl (fun url pair => appendQueryParam url pair.1 pair.2) url) =
        pairs := by
  refine ⟨fun key value hkey hvalue =>
    ⟨queryPairs_appendQueryParam hlossy hkey hvalue url, rfl, rfl, rfl, rfl, rfl⟩, ?_⟩
  intro pairs hpairs hquery
  have hfold : ∀ url, queryPairs fromUtf8Lossy
      (pairs.foldl (fun url pair => appendQueryParam url pair.1 pair.2) url) =
        queryPairs fromUtf8Lossy url ++ pairs := by
    clear hquery
    induction pairs with
    | nil => exact fun url => (List.append_nil _).symm
    | cons pair pairs ih =>
      intro url
      obtain ⟨⟨hkey, hvalue⟩, hpairs⟩ := List.forall_mem_cons.mp hpairs
      rw [List.foldl_cons, ih hpairs, queryPairs_appendQueryParam hlossy hkey hvalue,
        List.append_assoc, List.singleton_append]
  rw [hfold]
  unfold queryPairs
  rw [hquery]
  rfl

end Pairs

theorem query_pairs_append_sample :
    queryPairs id (appendQueryParam ⟨.http, ascii "h", none, ascii "/", some (ascii "a=1"), none⟩
      (ascii "a&=+%#") []) = [(ascii "a", ascii "1"), (ascii "a&=+%#", [])] := by
  refine ((query_pairs_append (fun _ _ => rfl) _).1 (ascii "a&=+%#") [] (isUtf8_of_all (by decide))
    (isUtf8_of_all rfl)).1.trans ?_
  decide +kernel

end BasicWebserver.Platform.Url
