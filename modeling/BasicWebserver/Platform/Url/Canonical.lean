import BasicWebserver.Platform.Url.Paths

/-!
# The canonical form of a URL

Every URL is parsed or made from one by the operations. All of them keep `Canonical`: the host and
the port are as `parse_authority` returns them, the path is normal, and every component is validated
to itself. A canonical URL is what its text is parsed to (`parse_toStr`).
-/

namespace BasicWebserver.Platform.Url

open Ascii Splitting Fallible Percent

structure Canonical (url : Url) : Prop where
  host : CanonicalHost url.host
  port : url.port ≠ some url.scheme.defaultPort
  path : IsNormal url.path
  pathText : Canonicalizes .path url.path url.path
  query : ∀ text ∈ url.query, Canonicalizes .query text text
  fragment : ∀ text ∈ url.fragment, Canonicalizes .fragment text text

/-! ## Texts that stay canonical -/

theorem validateOptional_eq_ok {option result : Option Str} {kind : Component} :
    validateOptional option kind = .ok result ↔ Option.Rel (Canonicalizes kind) option result := by
  unfold validateOptional
  cases option with
  | none =>
    constructor
    · rintro h
      cases h
      exact .none
    · rintro ⟨⟩
      rfl
  | some raw =>
    dsimp only
    constructor
    · intro h
      split at h
      · rename_i text htext
        cases h
        exact .some (validateComponent_eq_ok.mp htext)
      · cases h
    · rintro ⟨htext⟩
      rw [validateComponent_eq_ok.mpr htext]

theorem canonical_of_optional {option result : Option Str} {kind : Component}
    (h : Option.Rel (Canonicalizes kind) option result) :
    ∀ text ∈ result, Canonicalizes kind text text := by
  intro text htext
  cases h with
  | none => cases htext
  | some h => exact Option.some.inj htext ▸ h.canonical

theorem canonicalizes_self_iff {kind : Component} {path : Str} : Canonicalizes kind path path ↔
    ∀ segment ∈ splitOn [47] path, Canonicalizes kind segment segment := by
  rw [canonicalizes_iff_segments, List.forall₂_same]

theorem canonicalizes_join {kind : Component} {segments : List Str}
    (h : ∀ segment ∈ segments, Canonicalizes kind segment segment) :
    Canonicalizes kind ([47].intercalate segments) ([47].intercalate segments) :=
  canonicalizes_intercalate (List.forall₂_same.mpr h)

theorem canonicalizes_normalizePath {kind : Component} {path : Str}
    (h : Canonicalizes kind path path) :
    Canonicalizes kind (normalizePath path) (normalizePath path) := by
  have hsegments : ∀ segment ∈ normalizeSegments (splitOn [47] path) [],
      Canonicalizes kind segment segment := by
    intro segment hsegment
    rcases mem_normalizeSegments hsegment with hnil | ⟨hmem, -⟩
    · exact absurd hnil List.not_mem_nil
    · exact canonicalizes_self_iff.mp h segment hmem
  have hjoined := canonicalizes_slash.append (canonicalizes_join hsegments)
  rw [normalizePath_eq]
  unfold joinPath
  dsimp only
  split_ifs
  · exact hjoined.append canonicalizes_slash
  · exact hjoined

theorem canonicalizes_pathDirectory {kind : Component} {path : Str}
    (h : Canonicalizes kind path path) :
    Canonicalizes kind (pathDirectory path) (pathDirectory path) := by
  unfold pathDirectory
  dsimp only
  split_ifs
  · exact canonicalizes_slash
  · refine (canonicalizes_join fun segment hsegment => ?_).append canonicalizes_slash
    exact canonicalizes_self_iff.mp h segment (List.mem_of_mem_dropLast hsegment)

theorem canonicalizes_flatMap {kind : Component} {f : UInt8 → Str}
    (h : ∀ byte, Canonicalizes kind (f byte) (f byte)) (input : Str) :
    Canonicalizes kind (input.flatMap f) (input.flatMap f) := by
  induction input with
  | nil => exact .nil
  | cons byte input ih => exact (h byte).append ih

theorem canonicalizes_byte {kind : Component} {byte : UInt8} (hpercent : byte ≠ 37)
    (hbyte : ¬ 127 < byte) (hallowed : isForbidden byte kind = false) :
    Canonicalizes kind [byte] [byte] := .plain hpercent hbyte hallowed .nil

theorem canonicalizes_percentEncode (input : Str) :
    Canonicalizes .path (percentEncode input) (percentEncode input) := by
  have hplain : ∀ byte, isUnreserved byte → byte ≠ 37 ∧ ¬ 127 < byte ∧
      isForbidden byte .path = false := forall_byte (by decide +kernel)
  rw [percentEncode_eq]
  refine canonicalizes_flatMap (fun byte => ?_) input
  unfold percentEncodeByte
  split_ifs with hbyte
  · obtain ⟨h37, h127, hallowed⟩ := hplain byte hbyte
    exact canonicalizes_byte h37 h127 hallowed
  · exact canonicalizes_percentByte byte

theorem canonicalizes_formEncode (input : Str) :
    Canonicalizes .query (formEncode input) (formEncode input) := by
  have hplain : ∀ byte, isFormUnescaped byte → byte ≠ 37 ∧ ¬ 127 < byte ∧
      isForbidden byte .query = false := forall_byte (by decide +kernel)
  rw [formEncode_eq]
  refine canonicalizes_flatMap (fun byte => ?_) input
  unfold formEncodeByte
  split_ifs with hspace hbyte
  · exact canonicalizes_byte (by decide) (by decide) (by decide)
  · obtain ⟨h37, h127, hallowed⟩ := hplain byte hbyte
    exact canonicalizes_byte h37 h127 hallowed
  · exact canonicalizes_percentByte byte

/-! ## The operations keep the canonical form -/

theorem validateSuffix_eq_ok {raw suffix : Suffix} : validateSuffix raw = .ok suffix ↔
    Canonicalizes .path raw.path suffix.path ∧
      Option.Rel (Canonicalizes .query) raw.query suffix.query ∧
      Option.Rel (Canonicalizes .fragment) raw.fragment suffix.fragment := by
  unfold validateSuffix
  constructor
  · intro h
    obtain ⟨path, hpath, h⟩ := bind_eq_ok.mp h
    obtain ⟨query, hquery, h⟩ := bind_eq_ok.mp h
    obtain ⟨fragment, hfragment, h⟩ := bind_eq_ok.mp h
    obtain rfl := Except.ok.inj h
    exact ⟨validateComponent_eq_ok.mp hpath, validateOptional_eq_ok.mp hquery,
      validateOptional_eq_ok.mp hfragment⟩
  · rintro ⟨hpath, hquery, hfragment⟩
    rw [validateComponent_eq_ok.mpr hpath, validateOptional_eq_ok.mpr hquery,
      validateOptional_eq_ok.mpr hfragment]
    rfl

theorem canonical_parseAbsolute {input : Str} {url : Url} (h : parseAbsolute input = .ok url) :
    Canonical url := by
  unfold parseAbsolute at h
  obtain ⟨⟨before, after⟩, -, h⟩ := bind_eq_ok.mp h
  obtain ⟨scheme, -, h⟩ := bind_eq_ok.mp h
  unfold parseAfterScheme at h
  obtain ⟨-, h⟩ := ite_error_eq_ok.mp h
  obtain ⟨-, h⟩ := ite_error_eq_ok.mp h
  obtain ⟨parsed, hparsed, h⟩ := bind_eq_ok.mp h
  obtain ⟨components, hcomponents, h⟩ := bind_eq_ok.mp h
  obtain rfl := Except.ok.inj h
  obtain ⟨hhost, hport⟩ := parseAuthority_ok hparsed
  obtain ⟨-, hcomponents⟩ := ite_error_eq_ok.mp hcomponents
  obtain ⟨hpath, hquery, hfragment⟩ := validateSuffix_eq_ok.mp hcomponents
  exact
    { host := hhost
      port := hport
      path := isNormal_normalizePath _
      pathText := canonicalizes_normalizePath hpath.canonical
      query := canonical_of_optional hquery
      fragment := canonical_of_optional hfragment }

theorem Canonical.resolve {base url : Url} {reference : Str} (hbase : Canonical base)
    (h : resolve base reference = .ok url) : Canonical url := by
  unfold Url.resolve resolveReference at h
  dsimp only at h
  split_ifs at h
  · exact canonical_parseAbsolute h
  · obtain ⟨relative, hrelative, h⟩ := bind_eq_ok.mp h
    obtain ⟨hpath, hquery, hfragment⟩ := validateSuffix_eq_ok.mp hrelative
    obtain rfl := Except.ok.inj h
    refine { host := hbase.host, port := hbase.port, path := ?_, pathText := ?_, query := ?_,
             fragment := canonical_of_optional hfragment }
    · unfold relativeTo
      dsimp only
      split_ifs
      · exact hbase.path
      · exact isNormal_normalizePath _
      · exact isNormal_normalizePath _
    · unfold relativeTo
      dsimp only
      split_ifs
      · exact hbase.pathText
      · exact canonicalizes_normalizePath hpath.canonical
      · exact canonicalizes_normalizePath
          ((canonicalizes_pathDirectory hbase.pathText).append hpath.canonical)
    · unfold relativeTo
      dsimp only
      intro text htext
      split at htext
      · rename_i value hvalue
        exact canonical_of_optional hquery text (hvalue ▸ htext)
      · split_ifs at htext
        · exact hbase.query text htext
        · cases htext

theorem Canonical.appendPathSegments {url : Url} (h : Canonical url) (segments : List Str) :
    Canonical (appendPathSegments url segments) := by
  have hencoded : ∀ segment ∈ segments.map percentEncode, Canonicalizes .path segment segment := by
    intro segment hsegment
    obtain ⟨item, -, rfl⟩ := List.mem_map.mp hsegment
    exact canonicalizes_percentEncode item
  have hsuffix := canonicalizes_join hencoded
  refine { h with path := isNormal_normalizePath _, pathText := canonicalizes_normalizePath ?_ }
  split_ifs
  · exact h.pathText
  · exact canonicalizes_slash.append hsuffix
  · exact h.pathText.append hsuffix
  · exact (h.pathText.append canonicalizes_slash).append hsuffix

theorem Canonical.appendQueryParam {url : Url} (h : Canonical url) (key value : Str) :
    Canonical (appendQueryParam url key value) := by
  have hpair : Canonicalizes .query (formEncode key ++ [61] ++ formEncode value)
      (formEncode key ++ [61] ++ formEncode value) :=
    ((canonicalizes_formEncode key).append
      (canonicalizes_byte (by decide) (by decide) (by decide))).append (canonicalizes_formEncode value)
  refine { h with query := ?_ }
  rintro text htext
  obtain rfl := Option.some.inj htext
  split
  · exact hpair
  · exact hpair
  · rename_i existing hexisting
    exact ((h.query _ hexisting).append
      (canonicalizes_byte (by decide) (by decide) (by decide))).append hpair

theorem Canonical.withQuery {url next : Url} {option : Option Str} (h : Canonical url)
    (hnext : withQuery url option = .ok next) : Canonical next := by
  obtain ⟨query, hquery, hnext⟩ := bind_eq_ok.mp hnext
  obtain rfl := Except.ok.inj hnext
  exact { h with query := canonical_of_optional (validateOptional_eq_ok.mp hquery) }

theorem Canonical.withFragment {url next : Url} {option : Option Str} (h : Canonical url)
    (hnext : withFragment url option = .ok next) : Canonical next := by
  obtain ⟨fragment, hfragment, hnext⟩ := bind_eq_ok.mp hnext
  obtain rfl := Except.ok.inj hnext
  exact { h with fragment := canonical_of_optional (validateOptional_eq_ok.mp hfragment) }

theorem Canonical.withoutFragment {url : Url} (h : Canonical url) : Canonical (withoutFragment url) :=
  { h with fragment := nofun }

/-! ## Sequences of operations -/

inductive Operation
  | resolve (reference : Str)
  | appendPathSegments (segments : List Str)
  | appendQueryParam (key value : Str)
  | withQuery (option : Option Str)
  | withFragment (option : Option Str)
  | withoutFragment

def perform (url : Url) : Operation → Except ParseErr Url
  | .resolve reference => resolve url reference
  | .appendPathSegments segments => .ok (appendPathSegments url segments)
  | .appendQueryParam key value => .ok (appendQueryParam url key value)
  | .withQuery option => withQuery url option
  | .withFragment option => withFragment url option
  | .withoutFragment => .ok (withoutFragment url)

/-- The URL obtained from a text by some operations. -/
def build (text : Str) (operations : List Operation) : Except ParseErr Url := do
  let url ← parse text
  operations.foldlM perform url

theorem Canonical.perform {url next : Url} {operation : Operation} (h : Canonical url)
    (hnext : perform url operation = .ok next) : Canonical next := by
  cases operation with
  | resolve reference => exact h.resolve hnext
  | appendPathSegments segments => exact Except.ok.inj hnext ▸ h.appendPathSegments segments
  | appendQueryParam key value => exact Except.ok.inj hnext ▸ h.appendQueryParam key value
  | withQuery option => exact h.withQuery hnext
  | withFragment option => exact h.withFragment hnext
  | withoutFragment => exact Except.ok.inj hnext ▸ h.withoutFragment

theorem canonical_build {text : Str} {operations : List Operation} {url : Url}
    (h : build text operations = .ok url) : Canonical url := by
  obtain ⟨start, hstart, h⟩ := bind_eq_ok.mp h
  exact foldlM_ok (P := fun _ url => Canonical url) operations h (canonical_parseAbsolute hstart)
    fun _ _ _ _ hurl hnext => hurl.perform hnext

/-! ## Parsing the text of a URL -/

theorem cutAt_queryStr {path : Str} {query : Option Str} (h : (63 : UInt8) ∉ path) :
    cutAt (path ++ queryStr query) 63 = (path, query) := by
  unfold cutAt
  cases query with
  | none => rw [queryStr, List.append_nil, splitFirst_of_notMem [] h]
  | some text => rw [queryStr, ← List.singleton_append, splitFirst_append [] h text]

theorem cutAt_fragmentStr {before : Str} {fragment : Option Str} (h : (35 : UInt8) ∉ before) :
    cutAt (before ++ fragmentStr fragment) 35 = (before, fragment) := by
  unfold cutAt
  cases fragment with
  | none => rw [fragmentStr, List.append_nil, splitFirst_of_notMem [] h]
  | some text => rw [fragmentStr, ← List.singleton_append, splitFirst_append [] h text]

theorem splitSuffix_append {path : Str} {query fragment : Option Str} (hpath : (35 : UInt8) ∉ path)
    (hpath' : (63 : UInt8) ∉ path) (hquery : ∀ text ∈ query, (35 : UInt8) ∉ text) :
    splitSuffix (path ++ queryStr query ++ fragmentStr fragment) = ⟨path, query, fragment⟩ := by
  have hbefore : (35 : UInt8) ∉ path ++ queryStr query := by
    intro hmem
    rcases List.mem_append.mp hmem with hmem | hmem
    · exact hpath hmem
    · cases query with
      | none => exact absurd hmem List.not_mem_nil
      | some text =>
        rcases List.mem_cons.mp hmem with hmem | hmem
        · exact absurd hmem (by decide)
        · exact hquery text rfl hmem
  unfold splitSuffix
  rw [cutAt_fragmentStr hbefore]
  dsimp only
  rw [cutAt_queryStr hpath']

theorem IsNormal.eq_cons {path : Str} (h : IsNormal path) : ∃ rest, path = 47 :: rest := by
  obtain ⟨segments, trailing, -, rfl⟩ := h
  unfold joinPath
  dsimp only
  split_ifs
  · exact ⟨_, rfl⟩
  · exact ⟨_, rfl⟩

theorem optional_self {kind : Component} {option : Option Str}
    (h : ∀ text ∈ option, Canonicalizes kind text text) :
    Option.Rel (Canonicalizes kind) option option := by
  cases option with
  | none => exact .none
  | some text => exact .some (h text rfl)

theorem Canonical.parseSuffix {url : Url} (h : Canonical url) :
    parseSuffix (url.path ++ queryStr url.query ++ fragmentStr url.fragment) =
      .ok ⟨url.path, url.query, url.fragment⟩ := by
  obtain ⟨rest, hrest⟩ := h.path.eq_cons
  have hsplit := @splitSuffix_append url.path url.query url.fragment
    (h.pathText.notMem (by decide : isForbidden 35 .path))
    (h.pathText.notMem (by decide : isForbidden 63 .path))
    fun text htext => (h.query text htext).notMem (by decide : isForbidden 35 .query)
  have hstart : startsWith url.path [47] := hrest ▸ startsWith_cons.mpr rfl
  unfold Url.parseSuffix
  rw [hsplit]
  dsimp only
  have hpath : (if url.path.isEmpty then [47] else url.path) = url.path := by rw [hrest]; rfl
  rw [hpath, hstart, if_neg (by decide)]
  exact validateSuffix_eq_ok.mpr ⟨h.pathText, optional_self h.query, optional_self h.fragment⟩

/-- A byte that `first_delimiter` passes over. -/
def isBeforeDelimiter (byte : UInt8) : Bool := !(byte = 47 || byte = 63 || byte = 35)

theorem firstDelimiter_eq (bytes : Str) (index : ℕ) :
    firstDelimiter bytes index = index + (bytes.takeWhile isBeforeDelimiter).length := by
  induction bytes generalizing index with
  | nil => rfl
  | cons byte rest ih =>
    unfold firstDelimiter
    cases hbyte : (byte = 47 || byte = 63 || byte = 35 : Bool) with
    | true =>
      rw [List.takeWhile_cons_of_neg (by simp [isBeforeDelimiter, hbyte]), if_pos rfl]
      rfl
    | false =>
      rw [List.takeWhile_cons_of_pos (by simp [isBeforeDelimiter, hbyte]), List.length_cons,
        if_neg Bool.false_ne_true, ih]
      omega

theorem splitAuthority_eq (afterScheme : Str) : splitAuthority afterScheme =
    (afterScheme.takeWhile isBeforeDelimiter, afterScheme.dropWhile isBeforeDelimiter) := by
  have hjoin : afterScheme.takeWhile isBeforeDelimiter ++ afterScheme.dropWhile isBeforeDelimiter =
    afterScheme := List.takeWhile_append_dropWhile
  unfold splitAuthority
  dsimp only
  rw [firstDelimiter_eq, Nat.zero_add]
  generalize afterScheme.takeWhile isBeforeDelimiter = authority at hjoin ⊢
  generalize afterScheme.dropWhile isBeforeDelimiter = suffix at hjoin ⊢
  rw [← hjoin, List.take_left, List.drop_left]

theorem splitAuthority_append {authority suffix : Str}
    (hauthority : ∀ byte ∈ authority, isBeforeDelimiter byte)
    (hsuffix : ∀ byte ∈ suffix.head?, isBeforeDelimiter byte = false) :
    splitAuthority (authority ++ suffix) = (authority, suffix) := by
  rw [splitAuthority_eq, List.takeWhile_append_of_pos hauthority,
    List.dropWhile_append_of_pos hauthority]
  cases suffix with
  | nil => rw [List.takeWhile_nil, List.append_nil, List.dropWhile_nil]
  | cons byte rest =>
    have hbyte : ¬ isBeforeDelimiter byte := Bool.eq_false_iff.mp (hsuffix byte rfl)
    rw [List.takeWhile_cons_of_neg hbyte, List.append_nil, List.dropWhile_cons_of_neg hbyte]

theorem parseScheme_schemeStr (scheme : Scheme) : parseScheme (schemeStr scheme) = .ok scheme := by
  cases scheme <;> decide

theorem parse_append {before rest : Str} {scheme : Scheme} (hcolon : (58 : UInt8) ∉ before)
    (hscheme : parseScheme before = .ok scheme) : parse (before ++ ([58, 47, 47] ++ rest)) =
      parseAfterScheme scheme (splitAuthority rest).1 (splitAuthority rest).2 := by
  have hsplit : splitScheme (before ++ ([58, 47, 47] ++ rest)) = .ok (before, rest) := by
    unfold splitScheme
    rw [splitFirst_append [47, 47] hcolon]
  unfold parse parseAbsolute
  rw [hsplit]
  show (parseScheme before >>= _) = _
  rw [hscheme]
  rfl

theorem Canonical.authority {url : Url} (h : Canonical url) :
    ∀ byte ∈ url.host ++ portStr url.port, isAuthorityByte byte :=
  List.forall_mem_append.mpr ⟨h.host.isAuthorityByte, isAuthorityByte_of_mem_portStr⟩

theorem toStr_eq (url : Url) : toStr url = schemeStr url.scheme ++ ([58, 47, 47] ++
    (url.host ++ portStr url.port ++
      (url.path ++ queryStr url.query ++ fragmentStr url.fragment))) := by
  unfold toStr serialize
  rw [if_pos rfl]
  simp only [List.append_assoc]

/-- **Canonical URLs are parsed back.** -/
theorem Canonical.parse_toStr {url : Url} (h : Canonical url) : parse (toStr url) = .ok url := by
  obtain ⟨rest, hrest⟩ := h.path.eq_cons
  have hsplit : splitAuthority (url.host ++ portStr url.port ++
      (url.path ++ queryStr url.query ++ fragmentStr url.fragment)) =
      (url.host ++ portStr url.port, url.path ++ queryStr url.query ++ fragmentStr url.fragment) := by
    have hbytes : ∀ byte, isAuthorityByte byte → isBeforeDelimiter byte :=
      forall_byte (by decide +kernel)
    refine splitAuthority_append (fun byte hbyte => hbytes byte (h.authority byte hbyte)) ?_
    rw [hrest]
    exact fun byte hbyte => Option.some.inj hbyte ▸ rfl
  have hempty : ¬ (url.host ++ portStr url.port).isEmpty := by
    rw [List.isEmpty_iff, List.append_eq_nil_iff]
    exact fun hnil => h.host.ne_nil hnil.1
  have hcredentials : ¬ contains (url.host ++ portStr url.port) [64] := by
    intro hcontains
    obtain ⟨before, after, heq⟩ := of_decide_eq_true hcontains
    have hmem : (64 : UInt8) ∈ url.host ++ portStr url.port := heq ▸ by simp
    exact absurd (h.authority 64 hmem) (by decide)
  have hafter : parseAfterScheme url.scheme (url.host ++ portStr url.port)
      (url.path ++ queryStr url.query ++ fragmentStr url.fragment) = .ok url := by
    unfold parseAfterScheme
    rw [if_neg hempty, if_neg hcredentials, parseAuthority_canonical h.host h.port, h.parseSuffix]
    show Except.ok { url with path := normalizePath url.path } = _
    rw [h.path.normalizePath_eq]
  have hcolon : (58 : UInt8) ∉ schemeStr url.scheme := by cases url.scheme <;> decide
  rw [toStr_eq, parse_append hcolon (parseScheme_schemeStr _), hsplit]
  exact hafter

theorem Canonical.toStr_lt {url : Url} (h : Canonical url) : ∀ byte ∈ toStr url, byte < 128 := by
  have hscheme : ∀ byte ∈ schemeStr url.scheme, byte < 128 := by
    cases url.scheme <;> decide +kernel
  have hauthority : ∀ byte, isAuthorityByte byte → byte < 128 := forall_byte (by decide +kernel)
  have hquery : ∀ byte ∈ queryStr url.query, byte < 128 := by
    cases hq : url.query with
    | none => exact nofun
    | some text =>
      exact List.forall_mem_cons.mpr
        ⟨by decide, fun byte hbyte => ((h.query text hq).allowed byte hbyte).2⟩
  have hfragment : ∀ byte ∈ fragmentStr url.fragment, byte < 128 := by
    cases hf : url.fragment with
    | none => exact nofun
    | some text =>
      exact List.forall_mem_cons.mpr
        ⟨by decide, fun byte hbyte => ((h.fragment text hf).allowed byte hbyte).2⟩
  rw [toStr_eq]
  simp only [List.forall_mem_append]
  refine ⟨hscheme, by decide +kernel, ⟨?_, ?_⟩, ⟨fun byte hbyte => (h.pathText.allowed byte hbyte).2, hquery⟩,
    hfragment⟩
  · exact fun byte hbyte => hauthority byte (h.host.isAuthorityByte byte hbyte)
  · exact fun byte hbyte => hauthority byte (isAuthorityByte_of_mem_portStr byte hbyte)

theorem IsNormal.splitOn_eq {path : Str} (h : IsNormal path) :
    ∃ segments last, splitOn [47] path = [] :: (segments ++ last) ∧ last.length ≤ 1 ∧
      (∀ segment ∈ segments, isKept segment) ∧ ∀ segment ∈ last, segment = [] := by
  obtain ⟨segments, trailing, hsegments, rfl⟩ := h
  refine ⟨_, _, splitOn_joinPath fun segment hs => (hsegments segment hs).2, ?_,
    fun segment hs => (hsegments segment hs).1, ?_⟩
  · split_ifs <;> decide
  · split_ifs
    · exact List.forall_mem_singleton.mpr rfl
    · exact nofun

theorem IsNormal.inner_ne_nil {path : Str} (h : IsNormal path) :
    [] ∉ (splitOn [47] path).tail.dropLast := by
  obtain ⟨segments, last, hsplit, hlen, hkept, -⟩ := h.splitOn_eq
  rw [hsplit, List.tail_cons]
  intro hmem
  have hsegments : [] ∈ segments := by
    cases last with
    | nil => exact List.mem_of_mem_dropLast (List.append_nil segments ▸ hmem)
    | cons final rest =>
      obtain rfl : rest = [] := List.length_eq_zero_iff.mp (by simpa using hlen)
      rwa [List.dropLast_concat] at hmem
  exact (isKept_iff.mp (hkept [] hsegments)).1 rfl

theorem Canonical.not_encodes_dots {url : Url} (h : Canonical url) {segment : Str}
    (hsegment : segment ∈ splitOn [47] url.path) :
    ¬ Encodes segment [46] ∧ ¬ Encodes segment [46, 46] := by
  have htext := canonicalizes_self_iff.mp h.pathText segment hsegment
  obtain ⟨segments, last, hsplit, -, hkept, hlast⟩ := h.path.splitOn_eq
  rw [hsplit] at hsegment
  have hnil : ∀ {plain : Str}, Encodes [] plain → plain = [] := by
    rintro plain ⟨⟩
    rfl
  rcases List.mem_cons.mp hsegment with rfl | hsegment
  · exact ⟨fun henc => absurd (hnil henc) (List.cons_ne_nil _ _),
      fun henc => absurd (hnil henc) (List.cons_ne_nil _ _)⟩
  rcases List.mem_append.mp hsegment with hsegment | hsegment
  · obtain ⟨-, hsingle, hdouble⟩ := isKept_iff.mp (hkept segment hsegment)
    exact ⟨fun henc => hsingle (isSingleDotSegment_of_encodes htext henc),
      fun henc => hdouble (isDoubleDotSegment_of_encodes htext henc)⟩
  · obtain rfl := hlast segment hsegment
    exact ⟨fun henc => absurd (hnil henc) (List.cons_ne_nil _ _),
      fun henc => absurd (hnil henc) (List.cons_ne_nil _ _)⟩

theorem Canonical.isEq_iff {left right : Url} (hleft : Canonical left) (hright : Canonical right) :
    isEq left right ↔ left = right := by
  unfold isEq
  rw [decide_eq_true_eq]
  refine ⟨fun h => ?_, congrArg toStr⟩
  have hparse := hleft.parse_toStr
  rw [h, hright.parse_toStr] at hparse
  exact (Except.ok.inj hparse).symm

/-- **URLs are canonical.** Whatever operations made a URL from a parsed text, its text is ASCII and
is parsed to the same URL, so that URLs are equal when their texts are. The port is not the default
one; the path starts with a slash, and none of its segments is empty inside it or spells dots. -/
theorem url_canonical {text : Str} {operations : List Operation} {url : Url}
    (h : build text operations = .ok url) :
    (∀ byte ∈ toStr url, byte < 128) ∧ parse (toStr url) = .ok url ∧
      (∀ text' operations' url', build text' operations' = .ok url' →
        (isEq url url' ↔ url = url')) ∧
      url.port ≠ some url.scheme.defaultPort ∧ [47] <+: url.path ∧
      [] ∉ (splitOn [47] url.path).tail.dropLast ∧
      ∀ segment ∈ splitOn [47] url.path,
        ¬ Encodes segment (ascii ".") ∧ ¬ Encodes segment (ascii "..") := by
  have hurl := canonical_build h
  obtain ⟨rest, hrest⟩ := hurl.path.eq_cons
  exact ⟨hurl.toStr_lt, hurl.parse_toStr, fun _ _ _ h' => hurl.isEq_iff (canonical_build h'),
    hurl.port, ⟨rest, hrest.symm⟩, hurl.path.inner_ne_nil, fun _ => hurl.not_encodes_dots⟩

/-- A URL made with every operation. -/
def sampleOperations : List Operation :=
  [.resolve (ascii "../b/%2e/c%ff?x=1#top"), .appendPathSegments [ascii "d/e", ascii "f"],
    .appendQueryParam (ascii "k") (ascii "a b&c"), .withFragment (some (ascii "end")),
    .withQuery (some (ascii "q")), .withoutFragment]

def sampleUrl : Url where
  scheme := .https
  host := ascii "example.com"
  port := some 8443
  path := ascii "/b/c%FF/d%2Fe/f"
  query := some (ascii "q")
  fragment := none

theorem url_canonical_sample :
    build (ascii "HTTPS://Example.com:8443/a/x") sampleOperations = .ok sampleUrl ∧
      parse (toStr sampleUrl) = .ok sampleUrl := by
  have hbuild : build (ascii "HTTPS://Example.com:8443/a/x") sampleOperations = .ok sampleUrl := by
    decide +kernel
  exact ⟨hbuild, (url_canonical hbuild).2.1⟩

end BasicWebserver.Platform.Url
