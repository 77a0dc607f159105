import BasicWebserver.Platform.Url.Operations

/-!
# Canonical components

`Canonicalizes kind raw text` says what `validate_component` does to each byte: escapes get
upper-case digits, bytes above 127 are escaped and allowed bytes stay. The relation is what
`validate_component` computes (`validateComponent_eq_ok`), its results are fixed by it
(`Canonicalizes.canonical`), and it goes segment by segment (`canonicalizes_iff_segments`).
-/

namespace BasicWebserver.Platform.Url

open Ascii Splitting Fallible

/-- `validate_component` turns `raw` into `text`. -/
inductive Canonicalizes (kind : Component) : Str → Str → Prop
  | nil : Canonicalizes kind [] []
  | escape {hi lo : UInt8} {raw text : Str} (hhi : isHex hi) (hlo : isHex lo)
      (h : Canonicalizes kind raw text) :
      Canonicalizes kind (37 :: hi :: lo :: raw)
        ([37, asciiUpperHex hi, asciiUpperHex lo] ++ text)
  | nonAscii {byte : UInt8} {raw text : Str} (hbyte : 127 < byte)
      (h : Canonicalizes kind raw text) : Canonicalizes kind (byte :: raw) (percentByte byte ++ text)
  | plain {byte : UInt8} {raw text : Str} (hpercent : byte ≠ 37) (hbyte : ¬ 127 < byte)
      (hallowed : isForbidden byte kind = false) (h : Canonicalizes kind raw text) :
      Canonicalizes kind (byte :: raw) ([byte] ++ text)

section

variable {kind : Component} {raw raw' text text' : Str}

theorem validateComponentHelp_eq_ok {index : ℕ} {out result : Str} :
    validateComponentHelp kind raw index out = .ok result ↔
      ∃ text, result = out ++ text ∧ Canonicalizes kind raw text := by
  constructor
  · intro h
    fun_induction validateComponentHelp kind raw index out with
    | case1 index out => exact ⟨[], (Except.ok.inj h ▸ (List.append_nil out).symm), .nil⟩
    | case2 index out hi lo rest hhex ih =>
      obtain ⟨text, rfl, htext⟩ := ih h
      obtain ⟨hhi, hlo⟩ := Bool.and_eq_true_iff.mp hhex
      exact ⟨_, List.append_assoc .., .escape hhi hlo htext⟩
    | case3 => cases h
    | case4 => cases h
    | case5 byte rest index out hpercent hbyte ih =>
      obtain ⟨text, rfl, htext⟩ := ih h
      exact ⟨_, List.append_assoc .., .nonAscii hbyte htext⟩
    | case6 => cases h
    | case7 byte rest index out hpercent hbyte hallowed ih =>
      obtain ⟨text, rfl, htext⟩ := ih h
      exact ⟨_, List.append_assoc .., .plain hpercent hbyte (Bool.eq_false_iff.mpr hallowed) htext⟩
  · rintro ⟨text, rfl, h⟩
    induction h generalizing index out with
    | nil => exact congrArg Except.ok (List.append_nil out).symm
    | escape hhi hlo _ ih =>
      unfold validateComponentHelp
      rw [if_pos rfl]
      dsimp only
      rw [if_pos (Bool.and_eq_true_iff.mpr ⟨hhi, hlo⟩), ih, List.append_assoc]
    | @nonAscii byte _ _ hbyte _ ih =>
      have hpercent : byte ≠ 37 := by
        rintro rfl
        exact absurd hbyte (by decide)
      unfold validateComponentHelp appendPercentByte
      rw [if_neg hpercent, if_pos hbyte, ih, List.append_assoc]
    | plain hpercent hbyte hallowed _ ih =>
      unfold validateComponentHelp
      rw [if_neg hpercent, if_neg hbyte, hallowed, if_neg Bool.false_ne_true, ih, List.append_assoc]

theorem validateComponent_eq_ok :
    validateComponent raw kind = .ok text ↔ Canonicalizes kind raw text := by
  refine validateComponentHelp_eq_ok.trans ⟨?_, fun h => ⟨text, rfl, h⟩⟩
  rintro ⟨text, rfl, h⟩
  exact h

theorem Canonicalizes.eq_of (h : Canonicalizes kind raw text) (h' : Canonicalizes kind raw text') :
    text = text' :=
  Except.ok.inj ((validateComponent_eq_ok.mpr h).symm.trans (validateComponent_eq_ok.mpr h'))

theorem Canonicalizes.append (h : Canonicalizes kind raw text) (h' : Canonicalizes kind raw' text') :
    Canonicalizes kind (raw ++ raw') (text ++ text') := by
  induction h with
  | nil => exact h'
  | escape hhi hlo _ ih => exact List.append_assoc .. ▸ .escape hhi hlo ih
  | nonAscii hbyte _ ih => exact List.append_assoc .. ▸ .nonAscii hbyte ih
  | plain hpercent hbyte hallowed _ ih =>
    exact List.append_assoc .. ▸ .plain hpercent hbyte hallowed ih

/-! ## Canonical text -/

theorem asciiUpperHex_spec (byte : UInt8) (h : isHex byte) :
    isHex (asciiUpperHex byte) ∧ asciiUpperHex (asciiUpperHex byte) = asciiUpperHex byte := by
  revert byte
  exact forall_byte (by decide +kernel)

theorem canonicalizes_percentByte (byte : UInt8) :
    Canonicalizes kind (percentByte byte) (percentByte byte) := by
  obtain ⟨hi, lo, hbyte, hhi, hlo, huphi, huplo, -⟩ := percentByte_spec byte
  have h := @Canonicalizes.escape kind hi lo [] [] hhi hlo .nil
  rw [huphi, huplo] at h
  exact hbyte ▸ h

theorem Canonicalizes.canonical (h : Canonicalizes kind raw text) : Canonicalizes kind text text := by
  induction h with
  | nil => exact .nil
  | @escape hi lo _ _ hhi hlo _ ih =>
    obtain ⟨hhi', hi_eq⟩ := asciiUpperHex_spec hi hhi
    obtain ⟨hlo', lo_eq⟩ := asciiUpperHex_spec lo hlo
    have h := Canonicalizes.escape hhi' hlo' ih
    rw [hi_eq, lo_eq] at h
    exact h
  | nonAscii _ _ ih => exact (canonicalizes_percentByte _).append ih
  | plain hpercent hbyte hallowed _ ih => exact .plain hpercent hbyte hallowed ih

theorem isForbidden_of_isHex (byte : UInt8) (h : isHex byte) :
    isForbidden byte kind = false ∧ byte < 128 := by
  revert byte
  cases kind
  · exact forall_byte (by decide +kernel)
  · exact forall_byte (by decide +kernel)
  · exact forall_byte (by decide +kernel)

theorem Canonicalizes.allowed (h : Canonicalizes kind raw text) :
    ∀ byte ∈ text, isForbidden byte kind = false ∧ byte < 128 := by
  have hpercent : isForbidden 37 kind = false ∧ (37 : UInt8) < 128 := by cases kind <;> decide
  have hhex : ∀ {hi lo : UInt8}, isHex hi → isHex lo → ∀ byte ∈ [37, hi, lo],
      isForbidden byte kind = false ∧ byte < 128 := by
    intro hi lo hhi hlo
    refine List.forall_mem_cons.mpr ⟨hpercent, List.forall_mem_cons.mpr ⟨?_, ?_⟩⟩
    · exact isForbidden_of_isHex hi hhi
    · exact List.forall_mem_singleton.mpr (isForbidden_of_isHex lo hlo)
  induction h with
  | nil => exact nofun
  | escape hhi hlo _ ih =>
    refine List.forall_mem_append.mpr ⟨hhex ?_ ?_, ih⟩
    · exact (asciiUpperHex_spec _ hhi).1
    · exact (asciiUpperHex_spec _ hlo).1
  | @nonAscii byte _ _ _ _ ih =>
    obtain ⟨hi, lo, hbyte, hhi, hlo, -⟩ := percentByte_spec byte
    exact List.forall_mem_append.mpr ⟨hbyte ▸ hhex hhi hlo, ih⟩
  | plain _ hbyte hallowed _ ih =>
    refine List.forall_mem_append.mpr ⟨List.forall_mem_singleton.mpr ⟨hallowed, ?_⟩, ih⟩
    exact UInt8.not_le.mp fun hle => hbyte (UInt8.lt_of_lt_of_le (by decide) hle)

theorem Canonicalizes.notMem (h : Canonicalizes kind raw text) {byte : UInt8}
    (hbyte : isForbidden byte kind) : byte ∉ text :=
  fun hmem => Bool.false_ne_true ((h.allowed byte hmem).1.symm.trans hbyte)

/-! ## Segment by segment -/

theorem canonicalizes_slash : Canonicalizes kind [47] [47] := by
  refine Canonicalizes.plain (by decide) (by decide) ?_ .nil
  cases kind <;> rfl

theorem forall₂_prepend {a b : Str} (h : Canonicalizes kind a b) {parts parts' : List Str}
    (hparts : List.Forall₂ (Canonicalizes kind) parts parts') :
    List.Forall₂ (Canonicalizes kind) (prepend a parts) (prepend b parts') := by
  cases hparts with
  | nil => exact .cons h .nil
  | cons hfirst hrest => exact .cons (h.append hfirst) hrest

theorem Canonicalizes.segments (h : Canonicalizes kind raw text) :
    List.Forall₂ (Canonicalizes kind) (splitOn [47] raw) (splitOn [47] text) := by
  have hhex : ∀ {hi lo : UInt8}, isHex hi → isHex lo → (47 : UInt8) ∉ [37, hi, lo] := by
    rintro hi lo hhi hlo hmem
    simp only [List.mem_cons, List.not_mem_nil, or_false] at hmem
    rcases hmem with h47 | rfl | rfl
    · exact absurd h47 (by decide)
    · exact absurd hhi (by decide)
    · exact absurd hlo (by decide)
  induction h with
  | nil => exact .cons .nil .nil
  | @escape hi lo raw text hhi hlo h ih =>
    have hupper := hhex (asciiUpperHex_spec _ hhi).1 (asciiUpperHex_spec _ hlo).1
    rw [show 37 :: hi :: lo :: raw = [37, hi, lo] ++ raw from rfl, splitOn_append [] (hhex hhi hlo),
      splitOn_append [] hupper]
    exact forall₂_prepend (.escape hhi hlo .nil) ih
  | @nonAscii byte raw text hbyte h ih =>
    obtain ⟨hi, lo, hpercent, hhi, hlo, -⟩ := percentByte_spec byte
    have hslash : (47 : UInt8) ∉ [byte] := by
      intro hmem
      exact absurd (List.mem_singleton.mp hmem ▸ hbyte) (by decide)
    rw [show byte :: raw = [byte] ++ raw from rfl, splitOn_append [] hslash,
      splitOn_append [] (hpercent ▸ hhex hhi hlo)]
    exact forall₂_prepend (List.append_nil (percentByte byte) ▸ .nonAscii hbyte .nil) ih
  | @plain byte raw text hpercent hbyte hallowed h ih =>
    rw [show byte :: raw = [byte] ++ raw from rfl]
    by_cases hslash : byte = 47
    · subst hslash
      rw [splitOn_sep (List.cons_ne_nil _ _), splitOn_sep (List.cons_ne_nil _ _)]
      exact .cons .nil ih
    · have hmem : (47 : UInt8) ∉ [byte] := fun hmem => hslash (List.mem_singleton.mp hmem).symm
      rw [splitOn_append [] hmem, splitOn_append [] hmem]
      exact forall₂_prepend (.plain hpercent hbyte hallowed .nil) ih

theorem canonicalizes_intercalate {parts parts' : List Str}
    (h : List.Forall₂ (Canonicalizes kind) parts parts') :
    Canonicalizes kind ([47].intercalate parts) ([47].intercalate parts') := by
  induction h with
  | nil => exact .nil
  | @cons part part' parts parts' hpart hparts ih =>
    cases hparts with
    | nil => rwa [List.intercalate_singleton, List.intercalate_singleton]
    | cons hnext hrest =>
      rw [intercalate_cons _ (List.cons_ne_nil _ _), intercalate_cons _ (List.cons_ne_nil _ _)]
      exact hpart.append (canonicalizes_slash.append ih)

theorem canonicalizes_iff_segments : Canonicalizes kind raw text ↔
    List.Forall₂ (Canonicalizes kind) (splitOn [47] raw) (splitOn [47] text) := by
  refine ⟨Canonicalizes.segments, fun h => ?_⟩
  have hjoin := canonicalizes_intercalate h
  rwa [intercalate_splitOn (List.cons_ne_nil _ _), intercalate_splitOn (List.cons_ne_nil _ _)] at hjoin

end

end BasicWebserver.Platform.Url
