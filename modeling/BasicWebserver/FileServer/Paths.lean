import BasicWebserver.Foundation.Fallible
import BasicWebserver.Foundation.Percent
import BasicWebserver.Http.Message

/-!
# File paths

How a relative path becomes the list of components that is opened under a file root
(`src/file_server.rs`). An application's plan gives the components as they are; a mount gives the
rest of the request path, whose components are decoded once. Either way each component passes
`validateDecodedSegment`, so none can leave the root.
-/

namespace BasicWebserver.FileServer

open Ascii Fallible

def maxRelativePathBytes : ℕ := 4 * 1024

inductive PathError
  | emptyOrTooLong
  | invalidUriComponent
  | notUtf8
  | truncatedEscape
  | invalidEscape
  | encodedSeparator
  | unsafeComponent
  deriving DecidableEq

def PathError.text : PathError → String
  | emptyOrTooLong => "relative file path is empty or too long"
  | invalidUriComponent => "invalid URI path component"
  | notUtf8 => "URI path is not valid UTF-8"
  | truncatedEscape => "truncated percent escape"
  | invalidEscape => "invalid percent escape"
  | encodedSeparator => "encoded path separator"
  | unsafeComponent => "unsafe relative file component"

def validateDecodedSegment (segment : Bytes) : Except PathError Bytes :=
  if segment = [] || segment = ascii "." || segment = ascii ".." || segment.head? = some 46
      || segment.any (fun b => b = 0 || b = 92 || b = 58 || b = 47) then
    .error .unsafeComponent
  else .ok segment

def validateRelativePath (relative : Bytes) : Except PathError (List Bytes) :=
  if relative = [] || relative.length > maxRelativePathBytes then .error .emptyOrTooLong
  else (relative.splitOn 47).mapM validateDecodedSegment

def percentDecode : Bytes → Except PathError Bytes
  | [] => .ok []
  | b :: rest =>
    if b ≠ 37 then do
      let output ← percentDecode rest
      .ok (b :: output)
    else match rest with
    | hi :: lo :: rest => do
      let high ← (Percent.hexValue hi).elim (.error .invalidEscape) .ok
      let low ← (Percent.hexValue lo).elim (.error .invalidEscape) .ok
      let byte := high * 16 + low
      if byte = 47 || byte = 92 then .error .encodedSeparator
      else do
        let output ← percentDecode rest
        .ok (byte :: output)
    | [] | [_] => .error .truncatedEscape

def decodeSegment (segment : Bytes) : Except PathError Bytes :=
  if segment = [] || segment.contains 92 then .error .invalidUriComponent
  else do
    let bytes ← percentDecode segment
    if !isUtf8 bytes then .error .notUtf8 else validateDecodedSegment bytes

def decodeUriRelativePath (relative : Bytes) : Except PathError (List Bytes) :=
  if relative = [] || relative.length > maxRelativePathBytes then .error .emptyOrTooLong
  else (relative.splitOn 47).mapM decodeSegment

/-! ## Escapes -/

theorem percentDecode_of_encodes {text plain : Bytes} (h : Percent.Encodes text plain)
    (hplain : ∀ b ∈ plain, b ≠ 47 ∧ b ≠ 92) : percentDecode text = .ok plain := by
  induction h with
  | nil => rfl
  | plain hb _ ih =>
    unfold percentDecode
    rw [if_pos hb, ih fun b hb => hplain b (List.mem_cons_of_mem _ hb)]
    rfl
  | escaped hhi hlo _ ih =>
    obtain ⟨hslash, hbackslash⟩ := hplain _ List.mem_cons_self
    unfold percentDecode
    rw [if_neg (not_not.mpr rfl)]
    dsimp only
    rw [hhi, hlo, ih fun b hb => hplain b (List.mem_cons_of_mem _ hb)]
    simp only [Option.elim_some, bind, Except.bind]
    rw [if_neg (by simpa using ⟨hslash, hbackslash⟩)]

theorem encodes_of_percentDecode {text plain : Bytes} (h : percentDecode text = .ok plain) :
    Percent.Encodes text plain := by
  induction text using percentDecode.induct generalizing plain with
  | case1 =>
    cases h
    exact .nil
  | case2 b rest hb ih =>
    unfold percentDecode at h
    rw [if_pos hb] at h
    obtain ⟨output, houtput, h⟩ := bind_eq_ok.mp h
    cases h
    exact .plain hb (ih houtput)
  | case3 b hb hi lo rest ih =>
    obtain rfl : b = 37 := not_not.mp hb
    unfold percentDecode at h
    rw [if_neg hb] at h
    obtain ⟨high, hhigh, h⟩ := bind_eq_ok.mp h
    obtain ⟨low, hlow, h⟩ := bind_eq_ok.mp h
    obtain ⟨-, h⟩ := ite_error_eq_ok.mp h
    obtain ⟨output, houtput, h⟩ := bind_eq_ok.mp h
    cases h
    exact .escaped (elim_eq_ok.mp hhigh) (elim_eq_ok.mp hlow) (ih houtput)
  | case4 b hb =>
    unfold percentDecode at h
    rw [if_neg hb] at h
    cases h
  | case5 b hb last =>
    unfold percentDecode at h
    rw [if_neg hb] at h
    cases h

/-! ## Safe components -/

/-- A component that names an entry of a directory and nothing else. -/
structure SafeComponent (component : Bytes) : Prop where
  nonempty : component ≠ []
  noDot : component.head? ≠ some 46
  noSeparator : ∀ b ∈ component, b ≠ 47 ∧ b ≠ 92 ∧ b ≠ 58 ∧ b ≠ 0

theorem validateDecodedSegment_ok {segment component : Bytes} :
    validateDecodedSegment segment = .ok component ↔
      SafeComponent segment ∧ segment = component := by
  unfold validateDecodedSegment
  rw [ite_error_eq_ok, Except.ok.injEq]
  refine and_congr_left fun _ => ?_
  simp only [Bool.or_eq_true, decide_eq_true_eq, List.any_eq_true, not_or, not_exists, not_and]
  constructor
  · rintro ⟨⟨⟨⟨hne, -⟩, -⟩, hdot⟩, hbytes⟩
    exact ⟨hne, hdot, fun b hb => by have := hbytes b hb; tauto⟩
  · rintro ⟨hne, hdot, hbytes⟩
    refine ⟨⟨⟨⟨hne, ?_⟩, ?_⟩, hdot⟩, fun b hb => by have := hbytes b hb; tauto⟩
    · rintro rfl
      exact hdot rfl
    · rintro rfl
      exact hdot rfl

theorem decodeSegment_ok {segment component : Bytes} (h : decodeSegment segment = .ok component) :
    SafeComponent component ∧ Percent.Encodes segment component := by
  unfold decodeSegment at h
  obtain ⟨-, h⟩ := ite_error_eq_ok.mp h
  obtain ⟨bytes, hbytes, h⟩ := bind_eq_ok.mp h
  obtain ⟨-, h⟩ := ite_error_eq_ok.mp h
  obtain ⟨hsafe, rfl⟩ := validateDecodedSegment_ok.mp h
  exact ⟨hsafe, encodes_of_percentDecode hbytes⟩

theorem decodeSegment_of_encodes {segment component : Bytes}
    (h : Percent.Encodes segment component) (hsafe : SafeComponent component)
    (hutf8 : isUtf8 component) : decodeSegment segment = .ok component := by
  have hbackslash : (92 : UInt8) ∉ segment := fun hmem =>
    (hsafe.noSeparator 92 (h.mem_of_mem hmem (by decide) (by decide))).2.1 rfl
  unfold decodeSegment
  refine ite_error_eq_ok.mpr ⟨?_, bind_eq_ok.mpr ⟨component, ?_, ite_error_eq_ok.mpr ⟨?_, ?_⟩⟩⟩
  · simpa using ⟨h.ne_nil hsafe.nonempty, hbackslash⟩
  · exact percentDecode_of_encodes h fun b hb =>
      ⟨(hsafe.noSeparator b hb).1, (hsafe.noSeparator b hb).2.1⟩
  · rw [hutf8]
    nofun
  · exact validateDecodedSegment_ok.mpr ⟨hsafe, rfl⟩

/-! ## Relative paths -/

/-- The components of a path; `encodedUriPath` says that it comes from a request. -/
def pathSegments (encodedUriPath : Bool) (relative : Bytes) : Except PathError (List Bytes) :=
  if encodedUriPath then decodeUriRelativePath relative else validateRelativePath relative

/-- Components that lead from a directory to an entry below it. -/
def Confined (components : List Bytes) : Prop :=
  components ≠ [] ∧ ∀ component ∈ components, SafeComponent component

theorem ne_nil_of_forall₂_splitOn {R : Bytes → Bytes → Prop} {relative : Bytes}
    {components : List Bytes} (h : List.Forall₂ R (relative.splitOn 47) components) :
    components ≠ [] := by
  rintro rfl
  have hnil : relative.splitOn 47 = [] := List.forall₂_nil_right_iff.mp h
  rw [List.splitOn_eq_splitOnP] at hnil
  exact List.splitOnP_ne_nil _ _ hnil

theorem validateRelativePath_ok {relative : Bytes} {components : List Bytes}
    (h : validateRelativePath relative = .ok components) :
    Confined components ∧ components = relative.splitOn 47 := by
  unfold validateRelativePath at h
  have hsegments := mapM_eq_ok.mp (ite_error_eq_ok.mp h).2
  have hsafe := hsegments.imp fun _ _ h => validateDecodedSegment_ok.mp h
  rw [List.forall₂_and_left, List.forall₂_eq_eq_eq] at hsafe
  obtain ⟨hsafe, rfl⟩ := hsafe
  exact ⟨⟨ne_nil_of_forall₂_splitOn hsegments, hsafe⟩, rfl⟩

theorem decodeUriRelativePath_ok {relative : Bytes} {components : List Bytes}
    (h : decodeUriRelativePath relative = .ok components) :
    Confined components ∧ List.Forall₂ Percent.Encodes (relative.splitOn 47) components := by
  unfold decodeUriRelativePath at h
  have hsegments := mapM_eq_ok.mp (ite_error_eq_ok.mp h).2
  have hsafe := hsegments.flip.imp fun _ _ h => decodeSegment_ok h
  rw [List.forall₂_and_left] at hsafe
  exact ⟨⟨ne_nil_of_forall₂_splitOn hsegments, hsafe.1⟩, hsafe.2.flip⟩

theorem confined_of_pathSegments {encodedUriPath : Bool} {relative : Bytes}
    {components : List Bytes} (h : pathSegments encodedUriPath relative = .ok components) :
    Confined components := by
  unfold pathSegments at h
  split_ifs at h
  · exact (decodeUriRelativePath_ok h).1
  · exact (validateRelativePath_ok h).1

theorem decodeUriRelativePath_of_encodes {texts components : List Bytes} (hne : components ≠ [])
    (hsafe : ∀ component ∈ components, SafeComponent component ∧ isUtf8 component)
    (htexts : List.Forall₂ Percent.Encodes texts components)
    (hlength : ([47].intercalate texts).length ≤ maxRelativePathBytes) :
    decodeUriRelativePath ([47].intercalate texts) = .ok components := by
  have hboth := ((List.forall₂_and_left _ _).mpr ⟨hsafe, htexts.flip⟩).flip.imp
    fun text component (h : (SafeComponent component ∧ isUtf8 component) ∧
        Percent.Encodes text component) =>
      show text ≠ [] ∧ (47 : UInt8) ∉ text ∧ decodeSegment text = .ok component from
      ⟨h.2.ne_nil h.1.1.nonempty, fun hmem =>
        (h.1.1.noSeparator 47 (h.2.mem_of_mem hmem (by decide) (by decide))).1 rfl,
        decodeSegment_of_encodes h.2 h.1.1 h.1.2⟩
  rw [List.forall₂_and_left, List.forall₂_and_left] at hboth
  obtain ⟨htexts_ne, hslash, hdecode⟩ := hboth
  obtain ⟨text, texts', rfl⟩ : ∃ text texts', texts = text :: texts' := by
    cases texts with
    | nil => exact absurd (List.forall₂_nil_left_iff.mp htexts) hne
    | cons text texts' => exact ⟨text, texts', rfl⟩
  unfold decodeUriRelativePath
  refine ite_error_eq_ok.mpr ⟨?_, ?_⟩
  · have hnonempty : [47].intercalate (text :: texts') ≠ [] := by
      intro hnil
      have hsplit := List.splitOn_intercalate 47 hslash (by nofun)
      rw [hnil, List.splitOn_nil] at hsplit
      exact htexts_ne text List.mem_cons_self (List.cons.inj hsplit).1.symm
    simpa using ⟨hnonempty, hlength⟩
  · rw [List.splitOn_intercalate 47 hslash (by nofun)]
    exact mapM_eq_ok.mpr hdecode

/-! ## Descending from a root -/

/-- The directory entry that a path leads to, with the names that are not entries. -/
def resolve (root : List Bytes) (components : List Bytes) : List Bytes :=
  components.foldl
    (fun directory component =>
      if component = [] || component = ascii "." then directory
      else if component = ascii ".." then directory.dropLast
      else directory ++ [component])
    root

/-- Confined components, joined and followed from any root, lead to an entry below it. -/
theorem Confined.resolve_eq {components : List Bytes} (h : Confined components)
    (root : List Bytes) :
    resolve root (([47].intercalate components).splitOn 47) = root ++ components := by
  have hslash : ∀ component ∈ components, (47 : UInt8) ∉ component := fun component hc hmem =>
    ((h.2 component hc).noSeparator 47 hmem).1 rfl
  rw [List.splitOn_intercalate 47 hslash h.1]
  have hsafe := h.2
  clear h hslash
  unfold resolve
  induction components generalizing root with
  | nil => exact (List.append_nil root).symm
  | cons component components ih =>
    have hc := hsafe component List.mem_cons_self
    have hrest := ih (root ++ [component]) fun c hmem => hsafe c (List.mem_cons_of_mem _ hmem)
    rw [List.foldl_cons, if_neg, if_neg, hrest, List.append_assoc, List.singleton_append]
    · rintro rfl
      exact hc.noDot rfl
    · rw [Bool.or_eq_true, decide_eq_true_eq, decide_eq_true_eq]
      rintro (rfl | rfl)
      · exact hc.nonempty rfl
      · exact hc.noDot rfl

end BasicWebserver.FileServer
