import BasicWebserver.Foundation.ContentType
import BasicWebserver.Platform.Multipart

/-!
# The boundary of a multipart body

`decode_multipart_form_data_boundary` of `platform/MultipartFormData.roc` returns what follows the
last equals sign of the `Content-Type` header. That belongs to the last parameter, whatever its name
is, and has the closing quote of a quoted string (`decode_eq`). So it is the boundary exactly if the
end of the last parameter happens to be the boundary's value (`decode_boundary_iff`).
-/

namespace BasicWebserver.Platform.Multipart

open Ascii Splitting ContentType

structure Header where
  name : Bytes
  value : Bytes

inductive BoundaryErr
  | expectedContentTypeHeader
  | invalidContentTypeHeader
  deriving DecidableEq

/-! ## The decoder -/

def splitLastStr (s delim : Bytes) : Option (Bytes × Bytes) :=
  let parts := splitOn delim s
  let n := parts.length
  if n ≤ 1 then none
  else
    let beforeParts := parts.take (n - 1)
    match parts.getLast? with
    | some after => some (delim.intercalate beforeParts, after)
    | none => none

/-- The two spellings of the name that are known. -/
def isContentType (header : Header) : Bool :=
  header.name = ascii "Content-Type" || header.name = ascii "content-type"

def decodeMultipartFormDataBoundary (headers : List Header) : Except BoundaryErr Bytes :=
  let contentType := headers.filter isContentType
  match contentType.head? with
  | none => .error .expectedContentTypeHeader
  | some header =>
    match splitLastStr header.value (ascii "=") with
    | some (_, after) => .ok after
    | none => .error .invalidContentTypeHeader

/-! ## What it returns -/

/-- The end of a spelling: a token, or what follows the last equals sign of a quoted string, with the
quotes that are there. -/
def tail : ParameterValue → Bytes
  | .token t => t.text
  | .quoted bytes => (ParameterValue.quoted bytes).text.rtakeWhile (· ≠ 61)

theorem rtakeWhile_text (value : ParameterValue) :
    value.text.rtakeWhile (· ≠ 61) = tail value := by
  cases value with
  | token t =>
    refine List.rtakeWhile_eq_self_iff.mpr fun b hb => decide_eq_true ?_
    rintro rfl
    exact t.notMem_equals hb
  | quoted bytes => rfl

theorem splitLastStr_append (start rest : Bytes) :
    ∃ before, splitLastStr (start ++ ([61] ++ rest)) [61] =
      some (before, rest.rtakeWhile (· ≠ 61)) := by
  have hparts : splitOn [61] (start ++ ([61] ++ rest)) = splitOn [61] start ++ splitOn [61] rest :=
    splitOn_append_append List.not_mem_nil start rest
  have hlength : ¬(splitOn [61] start ++ splitOn [61] rest).length ≤ 1 := by
    have hstart := List.length_pos_iff.mpr (splitOn_ne_nil [61] start)
    have hrest := List.length_pos_iff.mpr (splitOn_ne_nil [61] rest)
    rw [List.length_append]
    omega
  have hlast : (splitOn [61] start ++ splitOn [61] rest).getLast? = some (rest.rtakeWhile (· ≠ 61)) := by
    rw [List.getLast?_append, getLast?_splitOn, Option.some_or]
  unfold splitLastStr
  dsimp only
  rw [hparts, if_neg hlength, hlast]
  exact ⟨_, rfl⟩

theorem decode_eq {headers : List Header} {header : Header} {media : MediaType}
    {parameters : List Parameter} {last : Parameter}
    (hheader : headers.find? isContentType = some header) (hvalue : header.value = media.text)
    (hlast : media.parameters = parameters ++ [last]) :
    decodeMultipartFormDataBoundary headers = .ok (tail last.value) := by
  obtain ⟨start, htext⟩ := MediaType.text_concat hlast
  obtain ⟨before, hsplit⟩ := splitLastStr_append start last.value.text
  unfold decodeMultipartFormDataBoundary
  dsimp only
  rw [List.head?_filter, hheader]
  dsimp only
  rw [hvalue, htext, show ascii "=" = [61] from rfl, hsplit, rtakeWhile_text]

/-- **The boundary.** It is returned exactly if the end of the last parameter is its value. -/
theorem decode_boundary_iff {headers : List Header} {header : Header} {media : MediaType}
    {boundary : Parameter} (hheader : headers.find? isContentType = some header)
    (hvalue : header.value = media.text)
    (hone : media.parameters.filter (·.isNamed (ascii "boundary")) = [boundary]) :
    decodeMultipartFormDataBoundary headers = .ok boundary.value.value ↔
      ∃ last, media.parameters.getLast? = some last ∧ tail last.value = boundary.value.value := by
  have hne : media.parameters ≠ [] := by
    intro hnil
    rw [hnil] at hone
    cases hone
  obtain ⟨parameters, last, hlast⟩ : ∃ parameters last, media.parameters = parameters ++ [last] :=
    ⟨_, _, (List.dropLast_append_getLast hne).symm⟩
  rw [decode_eq hheader hvalue hlast, Except.ok.injEq, hlast, List.getLast?_concat]
  constructor
  · exact fun heq => ⟨last, rfl, heq⟩
  · rintro ⟨_, hsome, heq⟩
    cases hsome
    exact heq

section Samples

/-- A parameter as in `; boundary=B`. -/
def sampleParameter (name : Token) (value : ParameterValue) : Parameter :=
  ⟨[], [32], by decide +kernel, name, value⟩

def boundaryName : Token := ⟨ascii "Boundary", by decide +kernel, by decide +kernel⟩

def letterB : Token := ⟨ascii "B", by decide +kernel, by decide +kernel⟩

/-- The media type `multipart/B` with some parameters. -/
def sampleMedia (parameters : List Parameter) : MediaType :=
  ⟨⟨ascii "multipart", by decide +kernel, by decide +kernel⟩, letterB, parameters⟩

def sampleHeader (media : MediaType) : Header := ⟨ascii "Content-Type", media.text⟩

theorem decode_boundary_sample :
    decodeMultipartFormDataBoundary [sampleHeader (sampleMedia
      [sampleParameter letterB (.token letterB), sampleParameter boundaryName (.token letterB)])] =
      .ok (ascii "B") := by
  have hone : (sampleMedia [sampleParameter letterB (.token letterB),
      sampleParameter boundaryName (.token letterB)]).parameters.filter
        (·.isNamed (ascii "boundary")) = [sampleParameter boundaryName (.token letterB)] := rfl
  exact (decode_boundary_iff rfl rfl hone).mpr ⟨_, rfl, rfl⟩

/-- `"B=B"`. -/
def quotedB : ParameterValue :=
  .quoted [.plain 66 (by decide), .plain 61 (by decide), .plain 66 (by decide)]

/-- A parameter after the boundary is taken for it, and a quoted boundary is cut at an equals sign and
keeps its quote. -/
theorem decode_boundary_other_parameter :
    (sampleMedia [sampleParameter boundaryName (.token letterB),
        sampleParameter letterB (.token boundaryName)]).text =
      ascii "multipart/B; Boundary=B; B=Boundary" ∧
    decodeMultipartFormDataBoundary [sampleHeader (sampleMedia
        [sampleParameter boundaryName (.token letterB),
          sampleParameter letterB (.token boundaryName)])] = .ok (ascii "Boundary") ∧
    (sampleMedia [sampleParameter boundaryName quotedB]).text =
      ascii "multipart/B; Boundary=\"B=B\"" ∧
    quotedB.value = ascii "B=B" ∧
    decodeMultipartFormDataBoundary [sampleHeader (sampleMedia
        [sampleParameter boundaryName quotedB])] = .ok (ascii "B\"") := by
  decide

end Samples

end BasicWebserver.Platform.Multipart
