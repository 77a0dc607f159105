import Mathlib.Data.List.Forall2
import BasicWebserver.Platform.Multipart

/-!
# The contents of a part

`parse_all_headers` drops four bytes after the last header it knows. The header lines it knows hold no
blank line (`afterBlankLine_headers`), so its data are the bytes after the first blank line of a part
exactly if the blank line follows those lines directly: if the part is one that the writer could have
written (`part_contents_iff`).
-/

namespace BasicWebserver.Platform.Multipart

open Ascii Splitting

/-- What follows the first blank line. -/
def afterBlankLine : Bytes → Option Bytes
  | [] => none
  | byte :: rest =>
    if newline ++ newline <+: byte :: rest then some ((byte :: rest).drop 4) else afterBlankLine rest

/-- What stands between the delimiters of a body, and before its end. -/
def between (body boundary : Bytes) : List Bytes :=
  (splitOn (delimiter boundary) (body.drop (doubledash ++ boundary).length)).dropLast

/-! ## Blank lines -/

theorem afterBlankLine_of_prefix {bytes : Bytes} (h : newline ++ newline <+: bytes) :
    afterBlankLine bytes = some (bytes.drop 4) := by
  cases bytes with
  | nil => exact absurd h (by decide)
  | cons byte rest => exact if_pos h

theorem afterBlankLine_length {bytes data : Bytes} (h : afterBlankLine bytes = some data) :
    data.length + 4 ≤ bytes.length := by
  induction bytes with
  | nil => cases h
  | cons byte rest ih =>
    unfold afterBlankLine at h
    split_ifs at h with hblank
    · have hlen : 4 ≤ (byte :: rest).length := hblank.length_le
      rw [← Option.some.inj h, List.length_drop]
      omega
    · rw [List.length_cons]
      exact (ih h).trans (Nat.le_succ _)

theorem afterBlankLine_eq_drop {bytes : Bytes} :
    afterBlankLine bytes = some (bytes.drop 4) ↔ newline ++ newline <+: bytes := by
  refine ⟨fun h => ?_, afterBlankLine_of_prefix⟩
  cases bytes with
  | nil => cases h
  | cons byte rest =>
    by_contra hblank
    unfold afterBlankLine at h
    rw [if_neg hblank] at h
    have hlen := afterBlankLine_length h
    rw [List.length_drop, List.length_cons] at hlen
    omega

theorem afterBlankLine_of_notMem {line : Bytes} (h : (13 : UInt8) ∉ line) (rest : Bytes) :
    afterBlankLine (line ++ rest) = afterBlankLine rest := by
  induction line with
  | nil => rfl
  | cons byte line ih =>
    obtain ⟨hbyte, hline⟩ := not_or.mp (mt List.mem_cons.mpr h)
    have hblank : ¬ newline ++ newline <+: byte :: (line ++ rest) :=
      fun hp => hbyte (List.cons_prefix_cons.mp hp).1
    rw [List.cons_append, afterBlankLine, if_neg hblank, ih hline]

/-! ## The headers of a part -/

/-- A name that the source searches for is on one line and is not empty. -/
def HeaderNames.OneLine (names : HeaderNames) : Prop :=
  (names.upper ≠ [] ∧ (13 : UInt8) ∉ names.upper) ∧ (names.lower ≠ [] ∧ (13 : UInt8) ∉ names.lower) ∧
    names.upper.length = names.lower.length

instance (names : HeaderNames) : Decidable names.OneLine :=
  inferInstanceAs (Decidable (_ ∧ _))

theorem afterBlankLine_line {names : HeaderNames} (h : names.OneLine) (field : Field) (rest : Bytes) :
    afterBlankLine (field.line names ++ rest) = afterBlankLine rest := by
  obtain ⟨name, hname, hne, hcr⟩ : ∃ name, field.line names = 13 :: 10 :: (name ++ field.value) ∧
      name ≠ [] ∧ (13 : UInt8) ∉ name := by
    unfold Field.line
    cases field.lower with
    | false => exact ⟨names.upper, rfl, h.1⟩
    | true => exact ⟨names.lower, rfl, h.2.1⟩
  have hline : (13 : UInt8) ∉ 10 :: (name ++ field.value) := by
    simp [hcr, field.oneLine]
  have hblank : ¬ newline ++ newline <+: 13 :: (10 :: (name ++ field.value) ++ rest) := by
    intro hp
    obtain ⟨byte, name, rfl⟩ := List.exists_cons_of_ne_nil hne
    have htail := (List.cons_prefix_cons.mp (List.cons_prefix_cons.mp hp).2).2
    exact hcr (List.mem_cons.mpr (.inl (List.cons_prefix_cons.mp htail).1))
  rw [hname, List.cons_append, afterBlankLine, if_neg hblank, afterBlankLine_of_notMem hline]

theorem parseContent_eq_some {names : HeaderNames} (h : names.OneLine) {bytes value rest : Bytes}
    (hparse : parseContent names bytes = some (value, rest)) :
    ∃ field : Field, field.value = value ∧ bytes = field.line names ++ rest := by
  obtain ⟨lower, after, hbytes⟩ : ∃ (lower : Bool) (after : Bytes),
      bytes = newline ++ (if lower then names.lower else names.upper) ++ after := by
    unfold parseContent at hparse
    dsimp only at hparse
    split_ifs at hparse with hstart
    rcases hstart with ⟨after, hafter⟩ | ⟨after, hafter⟩
    · exact ⟨false, after, hafter.symm⟩
    · exact ⟨true, after, hafter.symm⟩
  have hdrop : bytes.drop (newline ++ names.upper).length = after := by
    have hname : (newline ++ names.upper).length =
        (newline ++ if lower then names.lower else names.upper).length := by
      cases lower <;> simp [h.2.2]
    rw [hbytes, hname, List.drop_left]
  unfold parseContent at hparse
  dsimp only at hparse
  rw [hdrop] at hparse
  split_ifs at hparse
  cases hfind : after.findIdx? (· = 13) with
  | none =>
    rw [hfind] at hparse
    cases hparse
  | some next =>
    rw [hfind] at hparse
    obtain ⟨hvalue, hrest⟩ := Prod.mk.inj (Option.some.inj hparse)
    have hline : (13 : UInt8) ∉ after.take next := by
      intro hmem
      obtain ⟨i, hi, hget⟩ := List.mem_take_iff_getElem.mp hmem
      obtain ⟨_, -, hbefore⟩ := List.findIdx?_eq_some_iff_getElem.mp hfind
      exact hbefore i (lt_of_lt_of_le hi (Nat.min_le_left _ _)) (decide_eq_true hget)
    refine ⟨⟨lower, after.take next, hline⟩, hvalue, ?_⟩
    rw [hbytes, ← hrest, Field.line, List.append_assoc _ (after.take next), List.take_append_drop]

def Part.headers (part : Part) : Bytes := part.disposition.line contentDisposition ++ part.typeLines

theorem Part.serialize_eq (part : Part) :
    part.serialize = part.headers ++ (newline ++ newline ++ part.data) := by
  unfold Part.serialize Part.headers
  simp only [List.append_assoc]

theorem afterBlankLine_headers (part : Part) (rest : Bytes) :
    afterBlankLine (part.headers ++ rest) = afterBlankLine rest := by
  unfold Part.headers Part.typeLines
  rw [List.append_assoc, afterBlankLine_line (by decide)]
  match part.type with
  | none => rfl
  | some (type, none) => exact afterBlankLine_line (by decide) type rest
  | some (type, some encoding) =>
    dsimp only
    rw [List.append_assoc, afterBlankLine_line (by decide), afterBlankLine_line (by decide)]

/-- What `parse_all_headers` accepts: lines that it knows, then four bytes that it does not look at. -/
theorem parseAllHeaders_eq_some {bytes : Bytes} {form : ParsedFormData}
    (h : parseAllHeaders bytes = some form) :
    ∃ (part : Part) (rest : Bytes), bytes = part.headers ++ rest ∧ part.data = rest.drop 4 ∧
      form.data = rest.drop 4 := by
  unfold parseAllHeaders at h
  dsimp only at h
  cases hdisposition : parseContent contentDisposition bytes with
  | none =>
    rw [hdisposition] at h
    cases h
  | some found =>
    obtain ⟨disposition, first⟩ := found
    obtain ⟨field, -, hbytes⟩ := parseContent_eq_some (by decide) hdisposition
    rw [hdisposition] at h
    dsimp only at h
    cases htype : parseContent contentType first with
    | none =>
      rw [htype] at h
      refine ⟨⟨field, none, _⟩, first, ?_, rfl, congrArg _ (Option.some.inj h).symm⟩
      exact hbytes.trans (congrArg (· ++ first) (List.append_nil _).symm)
    | some found =>
      obtain ⟨type, second⟩ := found
      obtain ⟨typeField, -, hfirst⟩ := parseContent_eq_some (by decide) htype
      rw [htype] at h
      dsimp only at h
      cases hencoding : parseContent contentTransferEncoding second with
      | none =>
        rw [hencoding] at h
        refine ⟨⟨field, some (typeField, none), _⟩, second, ?_, rfl,
          congrArg _ (Option.some.inj h).symm⟩
        rw [hbytes, hfirst, ← List.append_assoc]
        rfl
      | some found =>
        obtain ⟨encoding, rest⟩ := found
        obtain ⟨encodingField, -, hsecond⟩ := parseContent_eq_some (by decide) hencoding
        rw [hencoding] at h
        refine ⟨⟨field, some (typeField, some encodingField), _⟩, rest, ?_, rfl,
          congrArg _ (Option.some.inj h).symm⟩
        rw [hbytes, hfirst, hsecond, ← List.append_assoc, ← List.append_assoc,
          List.append_assoc (field.line _)]
        rfl

theorem parseAllHeaders_data_iff {bytes : Bytes} {form : ParsedFormData}
    (h : parseAllHeaders bytes = some form) :
    afterBlankLine bytes = some form.data ↔ ∃ part : Part, part.serialize = bytes := by
  constructor
  · intro hdata
    obtain ⟨part, rest, hbytes, hpart, hform⟩ := parseAllHeaders_eq_some h
    rw [hbytes, afterBlankLine_headers, hform] at hdata
    obtain ⟨tail, htail⟩ := afterBlankLine_eq_drop.mp hdata
    refine ⟨part, ?_⟩
    rw [part.serialize_eq, hpart, hbytes, ← htail]
    rfl
  · rintro ⟨part, rfl⟩
    rw [parseAllHeaders_serialize] at h
    rw [← Option.some.inj h, part.serialize_eq, afterBlankLine_headers,
      afterBlankLine_of_prefix (List.prefix_append _ _)]
    rfl

/-! ## The parts of a body -/

theorem parseParts_eq_ok {parts : List Bytes} {parsed forms : List ParsedFormData}
    (h : parseParts parts parsed = .ok forms) :
    ∃ added, forms = parsed ++ added ∧
      List.Forall₂ (fun bytes form => parseAllHeaders bytes = some form) parts added := by
  induction parts generalizing parsed with
  | nil => exact ⟨[], (Except.ok.inj h).symm.trans (List.append_nil _).symm, .nil⟩
  | cons first rest ih =>
    unfold parseParts at h
    cases hfirst : parseAllHeaders first with
    | none =>
      rw [hfirst] at h
      cases h
    | some form =>
      rw [hfirst] at h
      obtain ⟨added, hforms, hadded⟩ := ih h
      exact ⟨form :: added, by rw [hforms, List.append_assoc, List.singleton_append],
        .cons hfirst hadded⟩

theorem sublist_dropLast {α : Type} {a b : List α} (h : a.Sublist b) :
    a.dropLast.Sublist b.dropLast := by
  rw [← List.reverse_sublist, ← List.tail_reverse, ← List.tail_reverse]
  exact (List.reverse_sublist.mpr h).tail

/-- **The contents of the parts.** The data of a part are what follows its first blank line exactly if
the part has no other header lines than the writer's, in the writer's order. -/
theorem part_contents_iff {body boundary : Bytes} {forms : List ParsedFormData}
    (h : parseFormData body boundary = some (.ok forms)) :
    ∃ parts, parts.Sublist (between body boundary) ∧
      List.Forall₂ (fun bytes form => parseAllHeaders bytes = some form ∧
        (afterBlankLine bytes = some form.data ↔ ∃ part : Part, part.serialize = bytes))
        parts forms := by
  unfold parseFormData at h
  dsimp only at h
  split_ifs at h with henclosed
  · cases hsplit : SplitList.splitOnList (body.drop (doubledash ++ boundary).length)
        (delimiter boundary) with
    | none =>
      rw [hsplit] at h
      cases h
    | some pieces =>
      rw [hsplit] at h
      obtain ⟨added, hforms, hadded⟩ := parseParts_eq_ok (Option.some.inj h)
      rw [List.nil_append] at hforms
      have hpieces := SplitList.sublist_splitOn (List.cons_ne_nil _ _) hsplit
      refine ⟨pieces.dropLast, sublist_dropLast hpieces, ?_⟩
      rw [hforms]
      exact hadded.imp fun _ _ hparse => ⟨hparse, parseAllHeaders_data_iff hparse⟩
  · cases Option.some.inj h

/-- A body with one part, whose header lines after the first are given. -/
def samplePart (lines : String) : Bytes :=
  ascii "--B\r\nContent-Disposition: a\r\n" ++ ascii lines ++ ascii "\r\nhi\r\n--B--\r\n"

theorem part_contents_sample :
    ∃ parts, parts.Sublist (between (samplePart "content-type: b\r\n") (ascii "B")) ∧
      List.Forall₂ (fun bytes form => parseAllHeaders bytes = some form ∧
        (afterBlankLine bytes = some form.data ↔ ∃ part : Part, part.serialize = bytes))
        parts [⟨ascii " a", ascii " b", [], ascii "hi"⟩] :=
  part_contents_iff (by decide)

/-- A header line that is not known, and one that is known but in other letters, become data. -/
theorem part_contents_unknown_header :
    parseFormData (samplePart "X-A: b\r\n") (ascii "B") =
        some (.ok [⟨ascii " a", [], [], ascii "A: b\r\n\r\nhi"⟩]) ∧
      parseFormData (samplePart "Content-type: b\r\n") (ascii "B") =
        some (.ok [⟨ascii " a", [], [], ascii "ntent-type: b\r\n\r\nhi"⟩]) ∧
      (between (samplePart "X-A: b\r\n") (ascii "B")).map afterBlankLine = [some (ascii "hi")] ∧
      (between (samplePart "Content-type: b\r\n") (ascii "B")).map afterBlankLine =
        [some (ascii "hi")] := by
  decide

end BasicWebserver.Platform.Multipart
