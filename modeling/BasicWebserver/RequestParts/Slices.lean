import Mathlib.Data.List.TakeWhile
import BasicWebserver.RequestParts.Backing

/-!
# Descriptors into a request

Where the descriptors of a converted request point. Each lies in one of the texts that the check of
a response body knows, with one exception: for an absolute target without a path, `resource_path`
is a literal of the HTTP library, and the descriptor carries the request's allocation all the same.
-/

namespace BasicWebserver.RequestParts

open Transition Ascii Http RequestTarget HostResource Fallible

variable {lits : Literals} {ipv6 : Bytes → Bool} {L : Layout} {memory : Memory}
  {s t : System Resource} {as : List (Action Resource)} {r : Reservation} {parts : Parts}
  {m : RequestMetadata} {body : BodyArguments} {allocation : ℕ}

/-! ## Texts -/

/-- The text lies in another one. -/
structure Within (text outer : Text) : Prop where
  start : outer.address ≤ text.address
  stop : text.address + text.length ≤ outer.address + outer.length

theorem Within.refl (text : Text) : Within text text := ⟨Nat.le_refl _, Nat.le_refl _⟩

theorem within_take (n : ℕ) (text : Text) : Within (text.take n) text := by
  refine ⟨Nat.le_refl _, Nat.add_le_add_left ?_ _⟩
  exact List.length_take_le' _ _

theorem within_drop {n : ℕ} {text : Text} (h : n ≤ text.length) : Within (text.drop n) text := by
  refine ⟨Nat.le_add_right _ _, ?_⟩
  show text.address + n + (text.bytes.drop n).length ≤ text.address + text.bytes.length
  have hn : n ≤ text.bytes.length := h
  rw [List.length_drop]
  omega

/-- The texts of a request, with its path and query as given. -/
def textsOf (pathAndQuery : PathAndQuery → Text) (parts : Parts) : List Text :=
  parts.methodText :: (parts.uri.pathAndQuery.map pathAndQuery).toList ++
    parts.uri.authority.toList ++
    parts.headers.toList.flatMap fun field => [parts.nameText field.1, field.2.asBytes]

/-- The texts that the check of a slice knows. -/
def validTexts (lits : Literals) (parts : Parts) : List Text :=
  textsOf (PathAndQuery.asStr lits) parts

/-- The texts in the memory of the request. -/
def storedTexts (parts : Parts) : List Text := textsOf PathAndQuery.data parts

theorem contains_iff {start stop : ℕ} :
    Parts.contains lits parts start stop ↔
      ∃ text ∈ validTexts lits parts, containsRange start stop text := by
  unfold Parts.contains validTexts textsOf
  simp only [Bool.or_eq_true, List.any_eq_true, List.mem_append, List.mem_cons, List.mem_flatMap,
    Option.mem_toList, Option.any_eq_true, List.not_mem_nil, or_false, Option.map_eq_some_iff]
  constructor
  · rintro (((h | ⟨value, hvalue, h⟩) | ⟨authority, hauthority, h⟩) | ⟨field, hfield, h | h⟩)
    · exact ⟨_, .inl (.inl (.inl rfl)), h⟩
    · exact ⟨_, .inl (.inl (.inr ⟨value, hvalue, rfl⟩)), h⟩
    · exact ⟨_, .inl (.inr hauthority), h⟩
    · exact ⟨_, .inr ⟨field, hfield, .inl rfl⟩, h⟩
    · exact ⟨_, .inr ⟨field, hfield, .inr rfl⟩, h⟩
  · rintro ⟨text, ((rfl | ⟨value, hvalue, rfl⟩) | hauthority) | ⟨field, hfield, rfl | rfl⟩, h⟩
    · exact .inl (.inl (.inl h))
    · exact .inl (.inl (.inr ⟨value, hvalue, h⟩))
    · exact .inl (.inr ⟨text, hauthority, h⟩)
    · exact .inr ⟨field, hfield, .inl h⟩
    · exact .inr ⟨field, hfield, .inr h⟩

theorem mem_validTexts_of_field {name : HeaderName} {value : StoredValue}
    (h : (name, value) ∈ parts.headers.toList) :
    parts.nameText name ∈ validTexts lits parts ∧ value.asBytes ∈ validTexts lits parts :=
  ⟨List.mem_append_right _ (List.mem_flatMap.mpr ⟨_, h, List.mem_cons_self⟩),
    List.mem_append_right _ (List.mem_flatMap.mpr
      ⟨_, h, List.mem_cons_of_mem _ (List.mem_singleton_self _)⟩)⟩

/-! ## Where descriptors point -/

theorem within_of_namedAuthority {view : AuthorityView}
    (h : namedAuthority ipv6 parts.uri parts.headers = some view) :
    ∃ outer ∈ validTexts lits parts, Within view.host outer := by
  have htake : ∀ {raw : Text}, authorityOf ipv6 raw = some view → Within view.host raw := by
    intro raw hraw
    unfold authorityOf at hraw
    split at hraw
    · cases hraw
    · cases hraw
      exact within_take _ raw
  unfold namedAuthority at h
  split at h
  · rename_i raw hraw
    refine ⟨raw, ?_, htake h⟩
    exact List.mem_append_left _ (List.mem_append_right _ (Option.mem_toList.mpr hraw))
  · obtain ⟨raw, hraw, h⟩ := Option.bind_eq_some_iff.mp h
    obtain ⟨value, hvalue, htext⟩ := Option.bind_eq_some_iff.mp hraw
    obtain rfl := toStr_eq_asBytes htext
    exact ⟨_, (mem_validTexts_of_field (Multimap.mem_toList_of_get hvalue)).2, htake h⟩

theorem asStr_of_stored {value : PathAndQuery} (h : value.data.bytes ≠ []) :
    value.asStr lits = value.data := if_neg h

theorem asStr_mem {value : PathAndQuery} (h : parts.uri.pathAndQuery = some value) :
    value.asStr lits ∈ validTexts lits parts := by
  refine List.mem_append_left _ (List.mem_append_left _ (List.mem_cons_of_mem _ ?_))
  rw [h]
  exact List.mem_singleton_self _

theorem validTexts_cases {text : Text} (h : text ∈ validTexts lits parts) :
    text ∈ storedTexts parts ∨
      ∃ value, parts.uri.pathAndQuery = some value ∧ value.data.bytes = [] ∧
        text = ⟨lits.asStr, [47]⟩ := by
  unfold validTexts storedTexts textsOf at *
  simp only [List.mem_append, List.mem_cons, Option.mem_toList, Option.map_eq_some_iff] at h ⊢
  rcases h with ((rfl | ⟨value, hvalue, rfl⟩) | h) | h
  · exact .inl (.inl (.inl (.inl rfl)))
  · by_cases hdata : value.data.bytes = []
    · exact .inr ⟨value, hvalue, hdata, if_pos hdata⟩
    · refine .inl (.inl (.inl (.inr ⟨value, hvalue, ?_⟩)))
      exact (asStr_of_stored hdata).symm
  · exact .inl (.inl (.inr h))
  · exact .inl (.inr h)

theorem within_query {query : Text} (h : parts.uri.query = some query) :
    ∃ outer ∈ validTexts lits parts, Within query outer := by
  obtain ⟨value, hvalue, hquery⟩ := Option.bind_eq_some_iff.mp h
  unfold PathAndQuery.query at hquery
  split_ifs at hquery with hmark
  · refine ⟨value.asStr lits, asStr_mem hvalue, ?_⟩
    rw [asStr_of_stored (List.ne_nil_of_mem hmark), ← Option.some.inj hquery]
    refine within_drop ?_
    -- the question mark is after the path
    have hlt : (value.data.bytes.takeWhile (· ≠ 63)).length < value.data.bytes.length := by
      by_contra hge
      have hself := (List.takeWhile_prefix _).eq_of_length_le (Nat.not_lt.mp hge)
      have hall := List.takeWhile_eq_self_iff.mp hself 63 hmark
      exact absurd hall (by decide)
    unfold Text.length
    rw [stored_bytes]
    exact hlt

/-- The path of a resource whose stored path is empty is a literal. -/
def EmptyPath (parts : Parts) (m : RequestMetadata) (value : PathAndQuery) : Prop :=
  m.target = .resource ∧ parts.uri.pathAndQuery = some value ∧ value.stored.bytes = []

theorem within_path {path : Text} {value : PathAndQuery}
    (hvalue : parts.uri.pathAndQuery = some value)
    (h : m.resourcePath lits parts.uri = some path) :
    (value.stored.bytes ≠ [] ∧ ∃ outer ∈ validTexts lits parts, Within path outer) ∨
      (EmptyPath parts m value ∧ path = ⟨lits.path, [47]⟩) := by
  unfold RequestMetadata.resourcePath at h
  split_ifs at h with hkind
  rw [hvalue] at h
  obtain rfl := Option.some.inj h
  show (_ ∧ ∃ outer ∈ _, Within (value.path lits) outer) ∨ (_ ∧ value.path lits = _)
  unfold PathAndQuery.path
  split_ifs with hstored
  · exact .inr ⟨⟨not_not.mp hkind, hvalue, hstored⟩, rfl⟩
  · refine .inl ⟨hstored, value.asStr lits, asStr_mem hvalue, ?_⟩
    have hne : value.data.bytes ≠ [] := by
      intro hnil
      refine hstored ?_
      rw [stored_bytes, hnil]
      rfl
    rw [asStr_of_stored hne]
    exact within_take _ _

theorem requestToRocSeamless_ok {request : ServerRequest RocStr} {n : ℕ}
    (h : requestToRocSeamless lits allocation parts m body = .ok (request, n)) :
    ∃ methodExt headers target authority j k,
      (methodExt = .seamless allocation parts.methodText ∨ methodExt = .empty) ∧
      convertHeaders (.seamless allocation) parts = .ok headers ∧
      seamlessTarget lits allocation parts m = .ok (target, j) ∧
      seamlessAuthority allocation parts m = .ok (authority, k) ∧
      request = serverRequest body (methodToTag parts.method) methodExt headers target
        authority := by
  unfold requestToRocSeamless at h
  obtain ⟨methodExt, references, hpair⟩ : ∃ methodExt references,
      (if methodToTag parts.method = 2 then (RocStr.seamless allocation parts.methodText, 1)
        else (RocStr.empty, 0)) = (methodExt, references) := ⟨_, _, rfl⟩
  dsimp only at h
  rw [hpair] at h
  obtain ⟨headers, hheaders, h⟩ := bind_eq_ok.mp h
  obtain ⟨⟨target, j⟩, htarget, h⟩ := bind_eq_ok.mp h
  obtain ⟨⟨authority, k⟩, hauthority, h⟩ := bind_eq_ok.mp h
  refine ⟨methodExt, headers, target, authority, j, k, ?_, hheaders, htarget, hauthority,
    (Prod.mk.inj (Except.ok.inj h)).1.symm⟩
  split_ifs at hpair
  · exact .inl (Prod.mk.inj hpair).1.symm
  · exact .inr (Prod.mk.inj hpair).1.symm

/-- A text that the check knows, or the literal of an empty path. -/
def Backed (lits : Literals) (parts : Parts) (m : RequestMetadata) (text : Text) : Prop :=
  (∃ outer ∈ validTexts lits parts, Within text outer) ∨
    ∃ value, EmptyPath parts m value ∧ text = ⟨lits.path, [47]⟩

theorem backed_of_target (hvalid : Validated lits ipv6 parts m) {target : TargetFields RocStr}
    {n : ℕ} (h : seamlessTarget lits allocation parts m = .ok (target, n)) {text : Text}
    (hmem : .seamless allocation text ∈ [target.path, target.query, target.authorityHost]) :
    Backed lits parts m text := by
  unfold seamlessTarget at h
  split at h
  · obtain ⟨path, hpath, h⟩ := bind_eq_ok.mp h
    have hpath := elim_eq_ok.mp hpath
    dsimp only at h
    have hstring : ∀ {string : RocStr} {j : ℕ}, (if resourcePathIsBacked parts then
          (RocStr.seamless allocation path, 1) else (RocStr.fromStr path, 0)) = (string, j) →
        .seamless allocation text = string → Backed lits parts m text := by
      intro string j hstring he
      subst he
      split_ifs at hstring with hbacked
      · cases hstring
        obtain ⟨value, hvalue⟩ := Option.isSome_iff_exists.mp hbacked
        rcases within_path hvalue hpath with ⟨-, hwithin⟩ | ⟨hempty, he⟩
        · exact .inl hwithin
        · exact .inr ⟨value, hempty, he⟩
      · cases hstring
    split at h
    · rename_i query hquery
      cases h
      unfold RequestMetadata.resourceQuery at hquery
      split_ifs at hquery
      simp only [List.mem_cons, List.not_mem_nil, or_false] at hmem
      rcases hmem with he | he | he
      · exact hstring rfl he
      · cases he
        exact .inl (within_query hquery)
      · cases he
    · cases h
      simp only [List.mem_cons, List.not_mem_nil, or_false] at hmem
      rcases hmem with he | he | he
      · exact hstring rfl he
      · cases he
      · cases he
  · obtain ⟨view, hview, h⟩ := bind_eq_ok.mp h
    obtain ⟨authority, hauthority, h⟩ := bind_eq_ok.mp h
    obtain rfl := elim_eq_ok.mp hauthority
    cases h
    simp only [List.mem_cons, List.not_mem_nil, or_false] at hmem
    rcases hmem with he | he | he
    · cases he
    · cases he
    · cases he
      rw [hvalid.accepted.targetAuthority] at hview
      split_ifs at hview
      exact .inl (within_of_namedAuthority (Except.ok.inj hview))
  · cases h
    simp only [List.mem_cons, List.not_mem_nil, or_false] at hmem
    rcases hmem with he | he | he <;> cases he

theorem backed_of_authority (hvalid : Validated lits ipv6 parts m)
    {authority : AuthorityFields RocStr} {n : ℕ}
    (h : seamlessAuthority allocation parts m = .ok (authority, n)) {text : Text}
    (he : .seamless allocation text = authority.host) : Backed lits parts m text := by
  obtain ⟨view, hview, h⟩ := bind_eq_ok.mp h
  rw [hvalid.accepted.effective] at hview
  split at h
  · cases h
    cases he
    exact .inl (within_of_namedAuthority (Except.ok.inj hview))
  · cases h
    cases he

theorem backed_of_string (hvalid : Validated lits ipv6 parts m) {request : ServerRequest RocStr}
    {n : ℕ} (h : requestToRocSeamless lits allocation parts m body = .ok (request, n)) {text : Text}
    (hmem : .seamless allocation text ∈ request.strings) : Backed lits parts m text := by
  obtain ⟨methodExt, headers, target, authority, j, k, hext, hheaders, htarget, hauthority, rfl⟩ :=
    requestToRocSeamless_ok h
  rw [convertHeaders_eq hvalid.utf8] at hheaders
  cases hheaders
  rcases List.mem_append.mp hmem with hmem | hmem
  · rcases List.mem_cons.mp hmem with hmethod | hheader
    · rcases hext with rfl | rfl
      · cases hmethod
        exact .inl ⟨_, List.mem_append_left _ (List.mem_append_left _ List.mem_cons_self), .refl _⟩
      · cases hmethod
    · obtain ⟨header, hheader, hstring⟩ := List.mem_flatMap.mp hheader
      obtain ⟨field, hfield, rfl⟩ := List.mem_map.mp hheader
      obtain ⟨hname, hvalue⟩ := @mem_validTexts_of_field lits _ _ _ hfield
      rcases List.mem_cons.mp hstring with he | he
      · cases he
        exact .inl ⟨_, hname, .refl _⟩
      · cases List.mem_singleton.mp he
        exact .inl ⟨_, hvalue, .refl _⟩
  · rcases List.mem_append.mp (show _ ∈ [target.path, target.query, target.authorityHost] ++
        [authority.host] from hmem) with hmem | hmem
    · exact backed_of_target hvalid htarget hmem
    · exact backed_of_authority hvalid hauthority (List.mem_singleton.mp hmem)

theorem mem_strings_of_emptyPath {value : PathAndQuery} {request : ServerRequest RocStr} {n : ℕ}
    (hempty : EmptyPath parts m value)
    (h : requestToRocSeamless lits allocation parts m body = .ok (request, n)) :
    .seamless allocation ⟨lits.path, [47]⟩ ∈ request.strings := by
  obtain ⟨hkind, hvalue, hstored⟩ := hempty
  obtain ⟨methodExt, headers, target, authority, j, k, -, -, htarget, -, rfl⟩ :=
    requestToRocSeamless_ok h
  have hpath : target.path = .seamless allocation ⟨lits.path, [47]⟩ := by
    have hresource : m.resourcePath lits parts.uri = some ⟨lits.path, [47]⟩ := by
      unfold RequestMetadata.resourcePath
      rw [if_neg (not_not.mpr hkind), hvalue]
      exact congrArg some (if_pos hstored)
    have hbacked : resourcePathIsBacked parts := by
      unfold resourcePathIsBacked
      rw [hvalue]
      rfl
    unfold seamlessTarget at htarget
    rw [hkind] at htarget
    obtain ⟨path, hsome, htarget⟩ := bind_eq_ok.mp htarget
    rw [elim_eq_ok.mp hsome] at hresource
    obtain rfl := Option.some.inj hresource
    rw [if_pos hbacked] at htarget
    dsimp only at htarget
    split at htarget
    · exact congrArg TargetFields.path (Prod.mk.inj (Except.ok.inj htarget)).1.symm
    · exact congrArg TargetFields.path (Prod.mk.inj (Except.ok.inj htarget)).1.symm
  refine List.mem_append_right _ ?_
  exact List.mem_cons.mpr (.inl hpath.symm)

/-! ## The check of a response body -/

/-- The memory of a parsed request: its texts do not wrap around, and the literal of an empty path
is in none of them. -/
structure Placed (lits : Literals) (parts : Parts) : Prop where
  fits : ∀ text ∈ validTexts lits parts, text.address + text.length < 2 ^ 64
  outside : ∀ text ∈ storedTexts parts,
    ¬ (text.address ≤ lits.path ∧ lits.path < text.address + text.length)

/-- The literal of an empty path is one of the texts that the check knows only when the whole target
is empty and both literals are one. -/
theorem contains_literal_iff (hplaced : Placed lits parts) {value : PathAndQuery}
    (hvalue : parts.uri.pathAndQuery = some value) :
    Parts.contains lits parts lits.path (lits.path + 1) ↔
      value.data.bytes = [] ∧ lits.asStr = lits.path := by
  rw [contains_iff]
  simp only [containsRange, Bool.and_eq_true, decide_eq_true_eq]
  constructor
  · rintro ⟨text, hmem, ⟨-, hstart⟩, hstop⟩
    rcases validTexts_cases hmem with hstored | ⟨value', hvalue', hdata, rfl⟩
    · exact absurd ⟨hstart, hstop⟩ (hplaced.outside text hstored)
    · obtain rfl := Option.some.inj (hvalue.symm.trans hvalue')
      refine ⟨hdata, Nat.le_antisymm hstart ?_⟩
      exact Nat.le_of_succ_le_succ hstop
  · rintro ⟨hdata, hsame⟩
    have hasStr : value.asStr lits = ⟨lits.asStr, [47]⟩ := if_pos hdata
    have hmem := @asStr_mem lits _ _ hvalue
    have hfits := hplaced.fits _ hmem
    rw [hasStr] at hmem hfits
    exact ⟨_, hmem, ⟨hfits, Nat.le_of_eq hsame⟩, Nat.le_of_eq (congrArg (· + 1) hsame.symm)⟩

theorem contains_of_within (hplaced : Placed lits parts) {text outer : Text} {i length : ℕ}
    (hmem : outer ∈ validTexts lits parts) (hwithin : Within text outer)
    (hslice : i + length ≤ text.length) :
    text.address + i + length < 2 ^ 64 ∧
      Parts.contains lits parts (text.address + i) (text.address + i + length) := by
  have hfits := hplaced.fits outer hmem
  have hstart := hwithin.start
  have hstop := hwithin.stop
  refine ⟨by omega, contains_iff.mpr ⟨outer, hmem, ?_⟩⟩
  simp only [containsRange, Bool.and_eq_true, decide_eq_true_eq]
  omega

/-- **Slices of request strings.** A response body that is a slice of a string of the request passes
its check, whichever string and slice it is, exactly when the target is not an absolute one that
names no path (or names nothing after its authority, and the two literals are one). -/
theorem seamless_slices_valid_iff
    (h : (backings L).exec (System.init maxLiveRequestBackings) as = some s)
    (hin : (r, ⟨parts, m⟩) ∈ s.inserted) (hheld : 0 < s.held r)
    (hvalid : Validated lits ipv6 parts m) (hplaced : Placed lits parts)
    {request : ServerRequest RocStr} {n : ℕ}
    (hrequest : requestToRocSeamless lits (L.handle r.index) parts m body = .ok (request, n)) :
    (∀ text, .seamless (L.handle r.index) text ∈ request.strings →
      ∀ i length, i + length ≤ text.length →
        validateResponseBody lits L s.heap memory
          (.seamless (L.handle r.index) (text.address + i) length) = .ok ()) ↔
      ∀ value, EmptyPath parts m value → value.data.bytes = [] ∧ lits.asStr = lits.path := by
  constructor
  · intro hall value hempty
    have hok := hall _ (mem_strings_of_emptyPath hempty hrequest) 0 1 (Nat.le_refl 1)
    rw [validateResponseBody_eq h hin hheld _ Nat.one_ne_zero] at hok
    exact (contains_literal_iff hplaced hempty.2.1).mp hok.2
  · intro hcond text hmem i length hslice
    by_cases hlength : length = 0
    · subst hlength
      unfold validateResponseBody
      exact if_pos rfl
    rw [validateResponseBody_eq h hin hheld _ hlength]
    rcases backed_of_string hvalid hrequest hmem with
      ⟨outer, houter, hwithin⟩ | ⟨value, hempty, rfl⟩
    · exact contains_of_within hplaced houter hwithin hslice
    · obtain ⟨hdata, hsame⟩ := hcond value hempty
      have hasStr : value.asStr lits = ⟨lits.path, [47]⟩ := by
        rw [← hsame]
        exact if_pos hdata
      exact contains_of_within hplaced (hasStr ▸ asStr_mem hempty.2.1) (.refl _) hslice

theorem exec_adopt_first (L : Layout) (resource : Resource) (n : ℕ) :
    ∃ s, (backings L).exec (System.init maxLiveRequestBackings) (adopt resource n) = some s ∧
      (⟨0, 1⟩, resource) ∈ s.inserted ∧ s.held ⟨0, 1⟩ = n := by
  obtain ⟨heap, hreserve⟩ := @reserve_new Resource maxLiveRequestBackings (by decide)
  obtain ⟨s, hs, hin, -, hheld, -⟩ :=
    exec_adopt (L := L) maxLiveRequestBackings_le (good_init _) hreserve resource n
  exact ⟨s, hs, hin, hheld⟩

/-- `GET` of the target, with `Host: h`. -/
def getRequest (uri : Uri) : Parts where
  method := .get
  methodAddress := 4096
  version := .http11
  uri
  headers := Multimap.empty.append .host ⟨⟨ascii "h", by decide⟩, 8192⟩
  nameAddress _ := 4112

def plainTarget : Uri := ⟨none, none, some ⟨⟨8200, ascii "/a"⟩⟩⟩

/-- `http://h?q`. -/
def pathlessTarget : Uri := ⟨some (ascii "http"), some ⟨8200, ascii "h"⟩, some ⟨⟨8201, ascii "?q"⟩⟩⟩

/-- A box of sixteen bytes for each slot. -/
def smallLayout : Layout := ⟨65536, 16, by decide⟩

/-- The literals, away from the texts of `getRequest`. -/
def apart : Literals := ⟨5000, 5008⟩

theorem validated_plain : Validated apart (fun _ => false) (getRequest plainTarget)
    ⟨.resource, none, some ⟨.host, 1, none⟩⟩ := ⟨by decide, by decide⟩

theorem count_plain {request : ServerRequest RocStr} {n : ℕ}
    (h : requestToRocSeamless apart (smallLayout.handle 0) (getRequest plainTarget)
      ⟨.resource, none, some ⟨.host, 1, none⟩⟩ ⟨0, 0, none⟩ = .ok (request, n)) : n = 4 := by
  have hsnd : (requestToRocSeamless apart (smallLayout.handle 0) (getRequest plainTarget)
      ⟨.resource, none, some ⟨.host, 1, none⟩⟩ ⟨0, 0, none⟩).toOption.map Prod.snd = some 4 := by
    decide +kernel
  rw [h] at hsnd
  exact Option.some.inj hsnd

theorem seamless_slices_valid_plain :
    ∃ s m request, (backings smallLayout).exec (System.init maxLiveRequestBackings)
        (adopt ⟨getRequest plainTarget, m⟩ 4) = some s ∧
      requestToRocSeamless apart (smallLayout.handle 0) (getRequest plainTarget) m ⟨0, 0, none⟩ =
        .ok (request, 4) ∧
      ∀ text, .seamless (smallLayout.handle 0) text ∈ request.strings →
        ∀ i length, i + length ≤ text.length →
        validateResponseBody apart smallLayout s.heap ⟨fun _ => 1, fun _ => .requestBody⟩
          (.seamless (smallLayout.handle 0) (text.address + i) length) = .ok () := by
  have hvalid := validated_plain
  obtain ⟨request, copied, hrequest, -⟩ :=
    conversions_of_validated hvalid (smallLayout.handle 0) ⟨0, 0, none⟩
  rw [count_plain hrequest] at hrequest
  obtain ⟨s, hs, hin, hheld⟩ := exec_adopt_first smallLayout
    ⟨getRequest plainTarget, ⟨.resource, none, some ⟨.host, 1, none⟩⟩⟩ 4
  refine ⟨s, _, request, hs, hrequest, ?_⟩
  refine (seamless_slices_valid_iff hs hin (hheld ▸ by decide) hvalid
    ⟨by decide, by decide⟩ hrequest).mpr ?_
  rintro value ⟨-, hvalue, hempty⟩
  obtain rfl := Option.some.inj hvalue
  exact absurd hempty (by decide)

/-- A handler that returns the path of `http://h?q` as the body of its response aborts the
server. -/
theorem pathless_target_aborts :
    ∃ s m request n, (backings smallLayout).exec (System.init maxLiveRequestBackings)
        (adopt ⟨getRequest pathlessTarget, m⟩ n) = some s ∧
      Validated apart (fun _ => false) (getRequest pathlessTarget) m ∧
      Placed apart (getRequest pathlessTarget) ∧
      requestToRocSeamless apart (smallLayout.handle 0) (getRequest pathlessTarget) m ⟨0, 0, none⟩ =
        .ok (request, n) ∧
      .seamless (smallLayout.handle 0) ⟨5000, [47]⟩ ∈ request.strings ∧
      validateResponseBody apart smallLayout s.heap ⟨fun _ => 1, fun _ => .requestBody⟩
          (.seamless (smallLayout.handle 0) 5000 1) =
        .error "fatal: seamless response slice escapes its request metadata backing" := by
  have hvalid : Validated apart (fun _ => false) (getRequest pathlessTarget)
      ⟨.resource, none, some ⟨.uri, 1, none⟩⟩ := ⟨by decide, by decide⟩
  obtain ⟨request, copied, hrequest, -⟩ :=
    conversions_of_validated hvalid (smallLayout.handle 0) ⟨0, 0, none⟩
  have hmem := mem_strings_of_emptyPath ⟨rfl, rfl, by decide⟩ hrequest
  obtain ⟨s, hs, hin, hheld⟩ := exec_adopt_first smallLayout ⟨getRequest pathlessTarget, _⟩
    (request.strings.countP (RocStr.refersTo (smallLayout.handle 0)))
  have hpos : 0 < request.strings.countP (RocStr.refersTo (smallLayout.handle 0)) :=
    List.countP_pos_iff.mpr ⟨_, hmem, by decide⟩
  refine ⟨s, _, request, _, hs, hvalid, ⟨by decide, by decide⟩, hrequest, hmem, ?_⟩
  refine (validateResponseBody_live hs hin (hheld ▸ hpos) 5000 Nat.one_ne_zero).trans ?_
  have hescapes : ¬ Parts.contains apart (getRequest pathlessTarget) 5000 5001 := by decide
  rw [checkedAdd_eq_ok.mpr ⟨by decide, rfl⟩]
  show (if Parts.contains apart (getRequest pathlessTarget) 5000 5001 then .ok () else _) = _
  exact if_neg hescapes

/-! ## The references of a converted request -/

/-- **Converting without copying.** Both conversions of a validated request succeed with the same
contents. The number that the seamless one returns is the number of its strings that refer to the
request; installed with that number, the request has those references and no other, is kept for as
long as there is one of them, and is dropped when the last is released, or at once when there is
none. -/
theorem conversions_agree_and_release
    (h : (backings L).exec (System.init maxLiveRequestBackings) as = some s)
    (hvalid : Validated lits ipv6 parts m) (body : BodyArguments) :
    (∀ allocation, ∃ request copied,
      requestToRocSeamless lits allocation parts m body =
        .ok (request, request.strings.countP (RocStr.refersTo allocation)) ∧
      requestToRocCopied lits parts m body = .ok copied ∧
      request.map RocStr.contents = copied.map RocStr.contents) ∧
    ∀ r heap request n, reserve s.heap = (heap, .ok r) →
      requestToRocSeamless lits (L.handle r.index) parts m body = .ok (request, n) →
      ∃ t, (backings L).exec s (adopt ⟨parts, m⟩ n) = some t ∧
        n = request.strings.countP (RocStr.refersTo (L.handle r.index)) ∧
        t.references = List.replicate n r ++ s.references ∧ t.held r = n ∧
        (n ≠ 0 → (t.heap.cells r.index).refcount = n) ∧
        (n = 0 → (r, ⟨parts, m⟩) ∈ t.dropped ∧ t.heap.slots r.index = .free) ∧
        ∀ bs u, (backings L).exec t bs = some u →
          (0 < u.held r → (u.heap.cells r.index).refcount = u.held r ∧
            u.heap.get L maxLiveRequestBackings (L.handle r.index) = .ok (some ⟨parts, m⟩) ∧
            ¬ u.Freed r ⟨parts, m⟩) ∧
          (u.held r = 0 → u.Freed r ⟨parts, m⟩) := by
  refine ⟨fun allocation => conversions_of_validated hvalid allocation body, ?_⟩
  intro r heap request n hreserve hrequest
  obtain ⟨life, good⟩ := good_backings h
  obtain ⟨t, ht, hin, hrefs, hheld, hnone⟩ :=
    exec_adopt (L := L) maxLiveRequestBackings_le good hreserve ⟨parts, m⟩ n
  obtain ⟨lifeT, goodT, -⟩ := good_of_exec maxLiveRequestBackings_le good ht
  have hcount : n = request.strings.countP (RocStr.refersTo (L.handle r.index)) := by
    obtain ⟨request', copied, hrequest', -⟩ :=
      conversions_of_validated hvalid (L.handle r.index) body
    obtain ⟨rfl, rfl⟩ := Prod.mk.inj (Except.ok.inj (hrequest'.symm.trans hrequest))
    rfl
  refine ⟨t, ht, hcount, hrefs, hheld, ?_, hnone, ?_⟩
  · intro hn
    obtain ⟨-, hcell, -⟩ := live_of_held goodT hin (hheld ▸ Nat.pos_of_ne_zero hn)
    rw [hcell, hheld]
  · intro bs u hu
    obtain ⟨lifeU, goodU, -⟩ := good_of_exec maxLiveRequestBackings_le goodT hu
    have hinU := mem_inserted_exec hu hin
    refine ⟨fun hpos => ?_, freed_of_not_held goodU hinU⟩
    obtain ⟨-, hcell, hnot⟩ := live_of_held goodU hinU hpos
    refine ⟨by rw [hcell], (get_of_held L maxLiveRequestBackings_le goodU hinU hpos).1, hnot⟩

theorem conversions_agree_plain :
    ∃ request copied t, requestToRocSeamless apart (smallLayout.handle 0) (getRequest plainTarget)
        ⟨.resource, none, some ⟨.host, 1, none⟩⟩ ⟨0, 0, none⟩ = .ok (request, 4) ∧
      requestToRocCopied apart (getRequest plainTarget)
        ⟨.resource, none, some ⟨.host, 1, none⟩⟩ ⟨0, 0, none⟩ = .ok copied ∧
      request.map RocStr.contents = copied.map RocStr.contents ∧
      (backings smallLayout).exec (System.init maxLiveRequestBackings)
        (adopt ⟨getRequest plainTarget, ⟨.resource, none, some ⟨.host, 1, none⟩⟩⟩ 4) = some t ∧
      t.references = List.replicate 4 ⟨0, 1⟩ ∧ (t.heap.cells 0).refcount = 4 := by
  have hstart : (backings smallLayout).exec (System.init maxLiveRequestBackings) [] =
    some (System.init maxLiveRequestBackings) := rfl
  obtain ⟨hagree, hrelease⟩ := conversions_agree_and_release hstart validated_plain ⟨0, 0, none⟩
  obtain ⟨request, copied, hrequest, hcopied, hsame⟩ := hagree (smallLayout.handle 0)
  rw [count_plain hrequest] at hrequest
  obtain ⟨heap, hreserve⟩ := @reserve_new Resource maxLiveRequestBackings (by decide)
  obtain ⟨t, ht, -, hrefs, -, hcount, -⟩ := hrelease _ heap request 4 hreserve hrequest
  exact ⟨request, copied, t, hrequest, hcopied, hsame, ht, hrefs, hcount (by decide)⟩

end BasicWebserver.RequestParts
