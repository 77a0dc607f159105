import BasicWebserver.FileServer.Preconditions

/-!
# What an entity tag says about a file

`weak_etag` of `src/file_server.rs` writes the length and the modification time in hexadecimal, with a
hyphen between them, and `encoded_etag` of `src/compression.rs` adds a hyphen and the name of the
coding. A hyphen is no digit, so the parts can be read back although `b` of `br` is one.
-/

namespace BasicWebserver.FileServer

open Ascii Http Compression EntityTags Splitting

/-- The parts of a tag, between its hyphens. -/
def servedParts (length : ℕ) (modified : ℤ) (coding : Option ContentCoding) : List Bytes :=
  hex length :: hex modified.toNat :: coding.toList.map ContentCoding.asStr

theorem hyphen_notMem_servedParts {length : ℕ} {modified : ℤ} {coding : Option ContentCoding}
    {part : Bytes} (h : part ∈ servedParts length modified coding) : (45 : UInt8) ∉ part := by
  have hhex : ∀ n, (45 : UInt8) ∉ hex n := fun n hn =>
    absurd (isAlphanumeric_of_mem_hex hn) (by decide)
  simp only [servedParts, List.mem_cons, List.mem_map] at h
  rcases h with rfl | rfl | ⟨coding, -, rfl⟩
  · exact hhex _
  · exact hhex _
  · cases coding <;> decide

theorem servedContent_eq_intercalate (length : ℕ) (modified : ℤ) (coding : Option ContentCoding) :
    servedContent length (some modified) coding = [45].intercalate (servedParts length modified coding) := by
  have hhyphen : ascii "-" = [45] := rfl
  cases coding <;>
    simp [servedContent, servedParts, List.intercalate, hhyphen]

theorem servedParts_eq_iff {length length' : ℕ} {modified modified' : ℤ}
    {coding coding' : Option ContentCoding} (h : 0 ≤ modified) (h' : 0 ≤ modified') :
    servedParts length modified coding = servedParts length' modified' coding' ↔
      length = length' ∧ modified = modified' ∧ coding = coding' := by
  have hasStr : Function.Injective ContentCoding.asStr := by
    intro a b
    cases a <;> cases b <;> decide
  have hnanos : modified.toNat = modified'.toNat ↔ modified = modified' := by omega
  have hcoding : coding.toList = coding'.toList ↔ coding = coding' := by
    cases coding <;> cases coding' <;> simp
  unfold servedParts
  rw [List.cons.injEq, List.cons.injEq, hex_injective.eq_iff, hex_injective.eq_iff,
    (List.map_injective_iff.mpr hasStr).eq_iff, hnanos, hcoding]

theorem servedContent_eq_iff {length length' : ℕ} {modified modified' : ℤ}
    {coding coding' : Option ContentCoding} (h : 0 ≤ modified) (h' : 0 ≤ modified') :
    servedContent length (some modified) coding = servedContent length' (some modified') coding' ↔
      length = length' ∧ modified = modified' ∧ coding = coding' := by
  have hsplit : ∀ {length modified coding}, splitOn [45] (servedContent length (some modified) coding) =
      servedParts length modified coding := by
    intro length modified coding
    rw [servedContent_eq_intercalate]
    exact splitOn_intercalate (List.cons_ne_nil _ _) fun _ => hyphen_notMem_servedParts
  rw [← servedParts_eq_iff h h', ← hsplit, ← hsplit]
  refine ⟨congrArg _, fun hparts => ?_⟩
  rw [hsplit, hsplit] at hparts
  rw [servedContent_eq_intercalate, servedContent_eq_intercalate, hparts]

theorem notMem_servedEtag {b : UInt8} (hb : b ∉ ascii "W/" ++ [34]) (halpha : ¬ isAlphanumeric b)
    (hhyphen : b ≠ 45) (length : ℕ) (modified : Option ℤ) (coding : Option ContentCoding) :
    b ∉ servedEtag length modified coding := by
  intro h
  rw [← servedTag_text] at h
  rcases List.mem_append.mp h with h | h
  · rcases List.mem_append.mp h with h | h
    · exact hb h
    · rcases servedContent_bytes h with h | h
      · exact halpha h
      · exact hhyphen h
  · exact hb (List.mem_append_right _ h)

/-- **Entity tags.** For lengths, modification times from the Unix epoch on and codings, the tags of the
file server are weak entity tags without a comma or a star, and they compare as equal exactly when
length, modification time and coding are the same. -/
theorem served_tags_identify {modified modified' : ℤ} (h : 0 ≤ modified) (h' : 0 ≤ modified')
    (length length' : ℕ) (coding coding' : Option ContentCoding) :
    ∃ tag tag' : EntityTag,
      (tag.text = servedEtag length (some modified) coding ∧ tag.weak = true) ∧
      (tag'.text = servedEtag length' (some modified') coding' ∧ tag'.weak = true) ∧
      (∀ b ∈ ascii ",*", b ∉ servedEtag length (some modified) coding ∧
        b ∉ servedEtag length' (some modified') coding') ∧
      (tag.weakly tag' = true ↔ length = length' ∧ modified = modified' ∧ coding = coding') := by
  refine ⟨servedTag length (some modified) coding, servedTag length' (some modified') coding',
    ⟨servedTag_text _ _ _, rfl⟩, ⟨servedTag_text _ _ _, rfl⟩, fun b hb => ?_, ?_⟩
  · have hother : b ∉ ascii "W/" ++ [34] ∧ ¬ isAlphanumeric b ∧ b ≠ 45 := by
      obtain rfl | rfl : b = 44 ∨ b = 42 := by simpa using (show b ∈ [44, 42] from hb)
      · decide
      · decide
    exact ⟨notMem_servedEtag hother.1 hother.2.1 hother.2.2 _ _ _,
      notMem_servedEtag hother.1 hother.2.1 hother.2.2 _ _ _⟩
  · exact decide_eq_true_iff.trans (servedContent_eq_iff h h')

/-- A file of 11 bytes, plain and in Brotli. -/
theorem served_tags_brotli :
    servedEtag 11 (some 1) (some .brotli) = ascii "W/\"b-1-br\"" ∧
    ∃ tag tag' : EntityTag, tag.text = servedEtag 11 (some 1) none ∧
      tag'.text = servedEtag 11 (some 1) (some .brotli) ∧ ¬ tag.weakly tag' = true := by
  refine ⟨by decide, ?_⟩
  obtain ⟨tag, tag', htag, htag', -, hiff⟩ :=
    served_tags_identify (show (0 : ℤ) ≤ 1 by decide) (show (0 : ℤ) ≤ 1 by decide) 11 11 none
      (some .brotli)
  exact ⟨tag, tag', htag.1, htag'.1, fun h => absurd (hiff.mp h).2.2 (by decide)⟩

end BasicWebserver.FileServer
