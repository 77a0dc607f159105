import BasicWebserver.Foundation.Ascii
import BasicWebserver.Platform.SplitList

/-!
# Multipart form data

`parse_form_data` of `platform/MultipartFormData.roc` and a writer for the same format: what the
writer makes of some parts is parsed to those parts (`parse_serialize`), whatever their data, as long
as no part holds the delimiter.
-/

namespace BasicWebserver.Platform.Multipart

open Ascii Splitting

abbrev Bytes := List UInt8

def newline : Bytes := [13, 10]

def doubledash : Bytes := [45, 45]

structure ParsedFormData where
  disposition : Bytes
  type : Bytes
  encoding : Bytes
  data : Bytes
  deriving DecidableEq

/-! ## The parser -/

/-- The name of a header as the source spells it, in the two cases it knows. -/
structure HeaderNames where
  upper : Bytes
  lower : Bytes

/-- `parse_content_f`: the value of the header and what follows it. -/
def parseContent (names : HeaderNames) (bytes : Bytes) : Option (Bytes × Bytes) :=
  let toSearchUpper := newline ++ names.upper
  let toSearchLower := newline ++ names.lower
  let afterSearch := bytes.drop toSearchUpper.length
  if toSearchUpper <+: bytes ∨ toSearchLower <+: bytes then
    match afterSearch.findIdx? (· = 13) with
    | some nextLineStart => some (afterSearch.take nextLineStart, afterSearch.drop nextLineStart)
    | none => none
  else none

def contentDisposition : HeaderNames := ⟨ascii "Content-Disposition:", ascii "content-disposition:"⟩

def contentType : HeaderNames := ⟨ascii "Content-Type:", ascii "content-type:"⟩

def contentTransferEncoding : HeaderNames :=
  ⟨ascii "Content-Transfer-Encoding:", ascii "content-transfer-encoding:"⟩

/-- `parse_all_headers`; the error, which names the header that is missing, is not read. -/
def parseAllHeaders (bytes : Bytes) : Option ParsedFormData :=
  let doubleNewlineLength := 4
  match parseContent contentDisposition bytes with
  | none => none
  | some (disposition, first) =>
    match parseContent contentType first with
    | none => some ⟨disposition, [], [], first.drop doubleNewlineLength⟩
    | some (type, second) =>
      match parseContent contentTransferEncoding second with
      | none => some ⟨disposition, type, [], second.drop doubleNewlineLength⟩
      | some (encoding, rest) => some ⟨disposition, type, encoding, rest.drop doubleNewlineLength⟩

inductive FormDataErr
  | expectedEnclosedByBoundary
  | invalidPart
  deriving DecidableEq

def parseParts : List Bytes → List ParsedFormData → Except FormDataErr (List ParsedFormData)
  | [], parsed => .ok parsed
  | first :: rest, parsed =>
    match parseAllHeaders first with
    | some part => parseParts rest (parsed ++ [part])
    | none => .error .invalidPart

/-- What stands between two parts. -/
def delimiter (boundary : Bytes) : Bytes := newline ++ doubledash ++ boundary

/-- `parse_form_data`; `none` is the crash of `split_on_list`. -/
def parseFormData (body boundary : Bytes) : Option (Except FormDataErr (List ParsedFormData)) :=
  let startMarker := doubledash ++ boundary
  let endMarker := newline ++ doubledash ++ boundary ++ doubledash ++ newline
  if startMarker <+: body ∧ endMarker <:+ body then do
    let parts ← SplitList.splitOnList (body.drop startMarker.length) (delimiter boundary)
    some (parseParts parts.dropLast [])
  else some (.error .expectedEnclosedByBoundary)

/-! ## The writer -/

/-- A header of a part: its value, on one line, and the case of its name. -/
structure Field where
  lower : Bool
  value : Bytes
  oneLine : (13 : UInt8) ∉ value

def Field.line (names : HeaderNames) (field : Field) : Bytes :=
  newline ++ (if field.lower then names.lower else names.upper) ++ field.value

/-- A part; only one with a type has an encoding. -/
structure Part where
  disposition : Field
  type : Option (Field × Option Field)
  data : Bytes

/-- The lines after the first: the type and the encoding. -/
def Part.typeLines (part : Part) : Bytes :=
  match part.type with
  | none => []
  | some (type, none) => type.line contentType
  | some (type, some encoding) => type.line contentType ++ encoding.line contentTransferEncoding

def Part.serialize (part : Part) : Bytes :=
  part.disposition.line contentDisposition ++ part.typeLines ++ newline ++ newline ++ part.data

def serialize (boundary : Bytes) (parts : List Part) : Bytes :=
  doubledash ++ boundary ++
    (if parts = [] then delimiter boundary
      else parts.flatMap fun part => part.serialize ++ delimiter boundary) ++ doubledash ++ newline

/-- A part as it is parsed: an absent header has an empty value. -/
def Part.parsed (part : Part) : ParsedFormData where
  disposition := part.disposition.value
  type := part.type.elim [] (·.1.value)
  encoding := (part.type.bind (·.2)).elim [] (·.value)
  data := part.data

/-! ## Headers -/

theorem parseContent_line {names : HeaderNames} (hlen : names.upper.length = names.lower.length)
    (field : Field) {rest : Bytes} (hrest : newline <+: rest) :
    parseContent names (field.line names ++ rest) = some (field.value, rest) := by
  have hstart : newline ++ names.upper <+: field.line names ++ rest ∨
      newline ++ names.lower <+: field.line names ++ rest := by
    unfold Field.line
    cases field.lower with
    | false => exact .inl (by simp)
    | true => exact .inr (by simp)
  have hdrop : (field.line names ++ rest).drop (newline ++ names.upper).length =
      field.value ++ rest := by
    have hname : (newline ++ names.upper).length =
        (newline ++ if field.lower then names.lower else names.upper).length := by
      cases field.lower <;> simp [hlen]
    unfold Field.line
    rw [hname, List.append_assoc _ field.value, List.drop_left]
  have hfind : (field.value ++ rest).findIdx? (· = 13) = some field.value.length := by
    obtain ⟨tail, rfl⟩ := hrest
    rw [List.findIdx?_append, List.findIdx?_eq_none_iff.mpr]
    · simp [newline, List.findIdx?_cons]
    · intro byte hbyte
      simp only [decide_eq_false_iff_not]
      rintro rfl
      exact field.oneLine hbyte
  unfold parseContent
  dsimp only
  rw [if_pos hstart, hdrop, hfind]
  dsimp only
  rw [List.take_left, List.drop_left]

theorem newline_prefix_line (names : HeaderNames) (field : Field) (rest : Bytes) :
    newline <+: field.line names ++ rest := by
  unfold Field.line
  simp

theorem parseContent_newline {names : HeaderNames} {rest : Bytes}
    (hupper : names.upper.head?.isSome ∧ names.upper.head? ≠ some 13)
    (hlower : names.lower.head?.isSome ∧ names.lower.head? ≠ some 13) :
    parseContent names (newline ++ newline ++ rest) = none := by
  have hne : ∀ {name : Bytes}, name.head?.isSome ∧ name.head? ≠ some 13 →
      ¬ newline ++ name <+: newline ++ newline ++ rest := by
    rintro (_ | ⟨byte, name⟩) ⟨hsome, hcr⟩ hstart
    · cases hsome
    · rw [List.append_assoc, List.prefix_append_right_inj, show newline ++ rest = 13 :: 10 :: rest from rfl,
        List.cons_prefix_cons] at hstart
      exact hcr (congrArg some hstart.1)
  unfold parseContent
  dsimp only
  rw [if_neg (not_or.mpr ⟨hne hupper, hne hlower⟩)]

theorem parseAllHeaders_serialize (part : Part) : parseAllHeaders part.serialize = some part.parsed := by
  have hnone : parseContent contentType (newline ++ newline ++ part.data) = none :=
    parseContent_newline (by decide) (by decide)
  have hnone' : parseContent contentTransferEncoding (newline ++ newline ++ part.data) = none :=
    parseContent_newline (by decide) (by decide)
  have hend : newline <+: newline ++ newline ++ part.data := by simp
  have hdata : (newline ++ newline ++ part.data).drop 4 = part.data := rfl
  have hserialize : part.serialize = part.disposition.line contentDisposition ++
      (part.typeLines ++ (newline ++ newline ++ part.data)) := by
    unfold Part.serialize
    simp only [List.append_assoc]
  have hdisposition : ∀ {rest : Bytes}, newline <+: rest → parseContent contentDisposition
      (part.disposition.line contentDisposition ++ rest) = some (part.disposition.value, rest) :=
    fun hrest => parseContent_line (by decide) part.disposition hrest
  rw [hserialize]
  unfold parseAllHeaders Part.typeLines Part.parsed
  cases htype : part.type with
  | none =>
    dsimp only
    rw [List.nil_append, hdisposition hend]
    dsimp only
    rw [hnone]
    rfl
  | some typed =>
    obtain ⟨type, encoding⟩ := typed
    have hparse : ∀ {rest : Bytes}, newline <+: rest →
        parseContent contentType (type.line contentType ++ rest) = some (type.value, rest) :=
      fun hrest => parseContent_line (by decide) type hrest
    cases encoding with
    | none =>
      dsimp only
      rw [hdisposition (newline_prefix_line _ type _)]
      dsimp only
      rw [hparse hend]
      dsimp only
      rw [hnone']
      rfl
    | some encoding =>
      dsimp only
      rw [List.append_assoc (type.line _), hdisposition (newline_prefix_line _ type _)]
      dsimp only
      rw [hparse (newline_prefix_line _ encoding _)]
      dsimp only
      rw [parseContent_line (by decide) encoding hend]
      rfl

theorem parseParts_serialize (parts : List Part) (parsed : List ParsedFormData) :
    parseParts (parts.map Part.serialize) parsed = .ok (parsed ++ parts.map Part.parsed) := by
  induction parts generalizing parsed with
  | nil => exact congrArg Except.ok (List.append_nil parsed).symm
  | cons part parts ih =>
    rw [List.map_cons]
    unfold parseParts
    rw [parseAllHeaders_serialize]
    dsimp only
    rw [ih, List.append_assoc]
    rfl

/-! ## The round trip -/

section

variable {boundary : Bytes} {parts : List Part}

theorem delimiter_eq (boundary : Bytes) : delimiter boundary = 13 :: 10 :: 45 :: 45 :: boundary := rfl

theorem splitOn_parts (hboundary : (13 : UInt8) ∉ boundary)
    (hparts : ∀ part ∈ parts, ¬ delimiter boundary <:+: part.serialize) (rest : Bytes) :
    splitOn (delimiter boundary)
        (parts.flatMap (fun part => part.serialize ++ delimiter boundary) ++ rest) =
      parts.map Part.serialize ++ splitOn (delimiter boundary) rest := by
  have hcr : (13 : UInt8) ∉ 10 :: 45 :: 45 :: boundary := by simp [hboundary]
  induction parts with
  | nil => rfl
  | cons part parts ih =>
    obtain ⟨hpart, hparts⟩ := List.forall_mem_cons.mp hparts
    rw [List.flatMap_cons, List.append_assoc, List.append_assoc, delimiter_eq,
      splitOn_append_append hcr, ← delimiter_eq, splitOn_eq_singleton hpart, ih hparts]
    rfl

theorem Part.serialize_ne_nil (part : Part) : part.serialize ≠ [] := by
  unfold Part.serialize Field.line
  simp [newline]

theorem splitOn_end (boundary : Bytes) :
    splitOn (delimiter boundary) (doubledash ++ newline) = [doubledash ++ newline] := by
  apply splitOn_eq_singleton
  rintro ⟨before, after, heq⟩
  have hlen := congrArg List.length heq
  simp only [delimiter_eq, doubledash, newline, List.length_append, List.length_cons,
    List.length_nil] at hlen
  have hnil : before = [] := List.length_eq_zero_iff.mp (by omega)
  rw [hnil, delimiter_eq] at heq
  exact absurd (List.cons.inj heq).1 (by decide)

/-- The body between its first boundary and its end, which ends with a delimiter. -/
def middle (boundary : Bytes) (parts : List Part) : Bytes :=
  if parts = [] then delimiter boundary
  else parts.flatMap fun part => part.serialize ++ delimiter boundary

theorem delimiter_suffix_middle : delimiter boundary <:+ middle boundary parts := by
  unfold middle
  split_ifs with hnil
  · exact List.suffix_rfl
  · obtain ⟨start, last, rfl⟩ := (List.eq_nil_or_concat parts).resolve_left hnil
    rw [List.concat_eq_append, List.flatMap_append, List.flatMap_singleton, ← List.append_assoc]
    exact List.suffix_append _ _

theorem splitOnList_middle (hboundary : (13 : UInt8) ∉ boundary)
    (hparts : ∀ part ∈ parts, ¬ delimiter boundary <:+: part.serialize) :
    ∃ pieces, SplitList.splitOnList (middle boundary parts ++ (doubledash ++ newline))
        (delimiter boundary) = some pieces ∧ pieces.dropLast = parts.map Part.serialize := by
  have hcr : (13 : UInt8) ∉ 10 :: 45 :: 45 :: boundary := by simp [hboundary]
  refine ⟨_, SplitList.splitOnList_eq hcr _, ?_⟩
  unfold middle
  split_ifs with hnil
  · rw [hnil, delimiter_eq, splitOn_sep (List.cons_ne_nil _ _), ← delimiter_eq, splitOn_end]
    rfl
  · rw [← delimiter_eq, splitOn_parts hboundary hparts, splitOn_end, SplitList.kept_concat,
      List.dropLast_concat]
    · exact mt List.map_eq_nil_iff.mp hnil
    · intro piece hpiece
      obtain ⟨part, -, rfl⟩ := List.mem_map.mp hpiece
      exact part.serialize_ne_nil
    · exact List.cons_ne_nil _ _

/-- **The multipart round trip.** Whatever the parts are, their text is parsed to them when the
boundary is on one line and no part holds the delimiter. -/
theorem parse_serialize (hboundary : (13 : UInt8) ∉ boundary)
    (hparts : ∀ part ∈ parts, ¬ delimiter boundary <:+: part.serialize) :
    parseFormData (serialize boundary parts) boundary = some (.ok (parts.map Part.parsed)) := by
  have hserialize : serialize boundary parts =
      (doubledash ++ boundary) ++ (middle boundary parts ++ (doubledash ++ newline)) := by
    unfold serialize middle
    simp only [List.append_assoc]
  have henclosed : doubledash ++ boundary <+: serialize boundary parts ∧
      newline ++ doubledash ++ boundary ++ doubledash ++ newline <:+ serialize boundary parts := by
    rw [hserialize]
    refine ⟨List.prefix_append _ _, ?_⟩
    obtain ⟨before, hbefore⟩ := @delimiter_suffix_middle boundary parts
    rw [← hbefore]
    exact ⟨doubledash ++ boundary ++ before, by simp [delimiter, List.append_assoc]⟩
  obtain ⟨pieces, hpieces, hlast⟩ := splitOnList_middle hboundary hparts
  unfold parseFormData
  dsimp only
  rw [if_pos henclosed, hserialize, List.drop_left, hpieces]
  show some (parseParts pieces.dropLast []) = _
  rw [hlast, parseParts_serialize]
  rfl

end

/-- Two parts, one with every header and data that looks like the start of a delimiter. -/
def sampleParts : List Part :=
  [⟨⟨false, ascii " form-data; name=a", by decide⟩, none, [13, 10, 45, 45]⟩,
    ⟨⟨true, ascii " form-data; name=b", by decide⟩,
      some (⟨false, ascii " text/plain", by decide⟩,
        some ⟨true, ascii " binary", by decide⟩), [0, 255, 13, 10]⟩]

theorem parse_serialize_sample :
    (∀ part ∈ sampleParts, ¬ delimiter (ascii "B") <:+: part.serialize) ∧
      parseFormData (serialize (ascii "B") sampleParts) (ascii "B") =
        some (.ok (sampleParts.map Part.parsed)) := by
  have hparts : ∀ part ∈ sampleParts, ¬ delimiter (ascii "B") <:+: part.serialize := by
    decide +kernel
  exact ⟨hparts, parse_serialize (by decide) hparts⟩

end BasicWebserver.Platform.Multipart
