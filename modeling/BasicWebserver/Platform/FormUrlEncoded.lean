import BasicWebserver.Foundation.UrlEncoded
import BasicWebserver.Platform.Url.Appending

/-!
# Form bodies in `platform/MultipartFormData.roc`

`parse_form_url_encoded` checks the escapes of a body and then reads it byte by byte. It reads a piece
between ampersands as the field it is (`urlEncodedHelp_piece`). But it takes an empty piece before an
ampersand for a field without a name, and leaves out an equals sign at the end of the body
(`parseFormUrlEncoded_eq`). The fields without a name are the only ones this changes, so the result is
the dictionary of the body exactly if they come to the same (`parse_form_url_encoded_iff`). The bodies
that `form_encode` writes have no such pieces (`parse_form_encode`).
-/

namespace BasicWebserver.Platform.FormUrlEncoded

open Ascii Splitting Fallible UrlEncoded

abbrev Str := List UInt8

inductive FormErr
  | badUtf8
  | invalidPercentEncoding
  deriving DecidableEq

/-- What `url_encoded_help` is in the middle of. -/
inductive FieldState
  | parsingKey
  | parsingValue

/-! ## The parser -/

def isHexDigit (byte : UInt8) : Bool :=
  match byte with
  | 48 | 49 | 50 | 51 | 52 | 53 | 54 | 55 | 56 | 57
  | 65 | 66 | 67 | 68 | 69 | 70
  | 97 | 98 | 99 | 100 | 101 | 102 => true
  | _ => false

def hexToDecUnchecked (byte : UInt8) : UInt8 :=
  match byte with
  | 48 => 0
  | 49 => 1
  | 50 => 2
  | 51 => 3
  | 52 => 4
  | 53 => 5
  | 54 => 6
  | 55 => 7
  | 56 => 8
  | 57 => 9
  | 65 | 97 => 10
  | 66 | 98 => 11
  | 67 | 99 => 12
  | 68 | 100 => 13
  | 69 | 101 => 14
  | 70 | 102 => 15
  | _ => 0

def percentEncodingIsValid : List UInt8 → Bool
  | [] => true
  | byte :: rest =>
    let next := percentEncodingIsValid rest
    if byte = 37 then
      match rest with
      | second :: third :: rest =>
        isHexDigit second && isHexDigit third && percentEncodingIsValid rest
      | _ => false
    else next

def chainUtf8 {β : Type} (bytesList : List UInt8) (tryFun : Str → Except FormErr β) : Except FormErr β :=
  if isUtf8 bytesList then tryFun bytesList else .error .badUtf8

def insertFormField (state : FieldState) (key value : List UInt8) (dict : Dict) :
    Except FormErr Dict :=
  match state with
  | .parsingKey => chainUtf8 value fun keyStr => .ok (dict.insert keyStr [])
  | .parsingValue =>
    chainUtf8 key fun keyStr => chainUtf8 value fun valueStr => .ok (dict.insert keyStr valueStr)

def urlEncodedHelp : List UInt8 → FieldState → List UInt8 → List UInt8 → Dict → Except FormErr Dict
  | [], state, key, chomped, dict =>
    if key.isEmpty && chomped.isEmpty then .ok dict else insertFormField state key chomped dict
  | byte :: tail, state, key, chomped, dict =>
    let other := urlEncodedHelp tail state key (chomped ++ [byte]) dict
    if byte = 61 then
      match state with
      | .parsingKey => urlEncodedHelp tail .parsingValue chomped [] dict
      | .parsingValue => urlEncodedHelp tail state key (chomped ++ [61]) dict
    else if byte = 38 then
      insertFormField state key chomped dict >>= fun nextDict =>
        urlEncodedHelp tail .parsingKey [] [] nextDict
    else if byte = 43 then urlEncodedHelp tail state key (chomped ++ [32]) dict
    else if byte = 37 then
      match tail with
      | secondByte :: thirdByte :: rest =>
        let hex := hexToDecUnchecked secondByte * 16 + hexToDecUnchecked thirdByte
        urlEncodedHelp rest state key (chomped ++ [hex]) dict
      | _ => other
    else other

def parseFormUrlEncodedImpl (bytes : List UInt8) : Except FormErr Dict :=
  if percentEncodingIsValid bytes then urlEncodedHelp bytes .parsingKey [] [] ∅
  else .error .invalidPercentEncoding

def parseFormUrlEncoded (body : List UInt8) : Except FormErr Dict := parseFormUrlEncodedImpl body

/-! ## Escapes -/

theorem hexDigit_eq (byte : UInt8) :
    hexDigit byte = if isHexDigit byte then some (hexToDecUnchecked byte) else none := by
  revert byte
  exact forall_byte (by decide +kernel)

theorem hexDigit_of_isHex (byte : UInt8) :
    Url.isHex byte = true → hexDigit byte = some (Url.hexValue byte) := by
  revert byte
  exact forall_byte (by decide +kernel)

theorem isHexDigit_iff {byte : UInt8} :
    isHexDigit byte = true ↔ hexDigit byte = some (hexToDecUnchecked byte) := by
  rw [hexDigit_eq]
  split_ifs with h
  · exact iff_of_true h rfl
  · exact iff_of_false h nofun

theorem hexToDecUnchecked_eq {byte value : UInt8} (h : hexDigit byte = some value) :
    hexToDecUnchecked byte = value := by
  rw [hexDigit_eq] at h
  split_ifs at h
  exact Option.some.inj h

theorem percentEncodingIsValid_iff (bytes : List UInt8) :
    percentEncodingIsValid bytes = true ↔ WellFormed bytes := by
  constructor
  · fun_induction percentEncodingIsValid bytes with
    | case1 => exact fun _ => .nil
    | case2 second third rest next ih =>
      intro h
      rw [Bool.and_eq_true, Bool.and_eq_true] at h
      exact .escape (isHexDigit_iff.mp h.1.1) (isHexDigit_iff.mp h.1.2) (ih h.2)
    | case3 rest next _ => exact nofun
    | case4 byte rest next hbyte ih => exact fun h => .byte hbyte (ih h)
  · intro h
    induction h with
    | nil => rfl
    | @escape hi lo h l rest hhi hlo _ ih =>
      rw [percentEncodingIsValid.eq_def]
      show (isHexDigit hi && isHexDigit lo && percentEncodingIsValid rest) = true
      rw [ih, isHexDigit_iff.mpr (by rw [hhi, hexToDecUnchecked_eq hhi]),
        isHexDigit_iff.mpr (by rw [hlo, hexToDecUnchecked_eq hlo])]
      rfl
    | @byte b rest hb _ ih =>
      rw [percentEncodingIsValid.eq_def]
      exact (if_neg hb).trans ih

section

variable {state : FieldState} {key chomped : Str} {dict : Dict}

theorem urlEncodedHelp_escape {hi lo h l : UInt8} (hhi : hexDigit hi = some h)
    (hlo : hexDigit lo = some l) (rest : List UInt8) :
    urlEncodedHelp (37 :: hi :: lo :: rest) state key chomped dict =
      urlEncodedHelp rest state key (chomped ++ [h * 16 + l]) dict := by
  rw [urlEncodedHelp.eq_def, ← hexToDecUnchecked_eq hhi, ← hexToDecUnchecked_eq hlo]
  rfl

/-- A body whose escapes are well formed and whose names and values are texts. -/
structure Readable (body : Str) : Prop where
  escapes : WellFormed body
  texts : ∀ field ∈ fields body, isUtf8 field.1 = true ∧ isUtf8 field.2 = true

/-- What the parser needs to know about a piece. -/
structure ReadablePiece (piece : Str) : Prop where
  escapes : WellFormed piece
  ampersand : 38 ∉ piece
  texts : isUtf8 (field piece).1 = true ∧ isUtf8 (field piece).2 = true

/-! ## One piece -/

theorem urlEncodedHelp_byte {byte : UInt8} (hequals : byte ≠ 61) (hamp : byte ≠ 38)
    (hpercent : byte ≠ 37) (rest : List UInt8) :
    urlEncodedHelp (byte :: rest) state key chomped dict =
      urlEncodedHelp rest state key (chomped ++ [plusToSpace byte]) dict := by
  rw [urlEncodedHelp.eq_def]
  dsimp only
  rw [if_neg hequals, if_neg hamp, if_neg hpercent]
  unfold plusToSpace
  split_ifs with hplus
  · rfl
  · rfl

theorem urlEncodedHelp_equals_key (rest : List UInt8) :
    urlEncodedHelp (61 :: rest) .parsingKey key chomped dict =
      urlEncodedHelp rest .parsingValue chomped [] dict := by
  rw [urlEncodedHelp.eq_def]
  rfl

theorem urlEncodedHelp_equals_value (rest : List UInt8) :
    urlEncodedHelp (61 :: rest) .parsingValue key chomped dict =
      urlEncodedHelp rest .parsingValue key (chomped ++ [61]) dict := by
  rw [urlEncodedHelp.eq_def]
  rfl

theorem urlEncodedHelp_ampersand (rest : List UInt8) :
    urlEncodedHelp (38 :: rest) state key chomped dict =
      insertFormField state key chomped dict >>= fun nextDict =>
        urlEncodedHelp rest .parsingKey [] [] nextDict := by
  rw [urlEncodedHelp.eq_def]
  rfl

theorem urlEncodedHelp_value {piece : List UInt8} (h : WellFormed piece) (hamp : 38 ∉ piece)
    (rest : List UInt8) :
    urlEncodedHelp (piece ++ rest) .parsingValue key chomped dict =
      urlEncodedHelp rest .parsingValue key (chomped ++ decode piece) dict := by
  induction h generalizing chomped with
  | nil => rw [show decode [] = [] from rfl, List.append_nil, List.nil_append]
  | escape hhi hlo _ ih =>
    simp only [List.mem_cons, not_or] at hamp
    rw [List.cons_append, List.cons_append, List.cons_append, urlEncodedHelp_escape hhi hlo,
      ih hamp.2.2.2, decode_escape hhi hlo, List.append_assoc, List.singleton_append]
  | @byte b piece hb _ ih =>
    obtain ⟨hamp', hpiece⟩ := not_or.mp (mt List.mem_cons.mpr hamp)
    have hstep : urlEncodedHelp (b :: (piece ++ rest)) .parsingValue key chomped dict =
        urlEncodedHelp (piece ++ rest) .parsingValue key (chomped ++ [plusToSpace b]) dict := by
      by_cases hequals : b = 61
      · subst hequals
        exact urlEncodedHelp_equals_value _
      · exact urlEncodedHelp_byte hequals (Ne.symm hamp') hb _
    rw [List.cons_append, hstep, ih hpiece, decode_byte hb, List.append_assoc, List.singleton_append]

theorem urlEncodedHelp_key {piece : List UInt8} (h : WellFormed piece) (hamp : 38 ∉ piece)
    (hequals : 61 ∉ piece) (rest : List UInt8) :
    urlEncodedHelp (piece ++ rest) .parsingKey key chomped dict =
      urlEncodedHelp rest .parsingKey key (chomped ++ decode piece) dict := by
  induction h generalizing chomped with
  | nil => rw [show decode [] = [] from rfl, List.append_nil, List.nil_append]
  | escape hhi hlo _ ih =>
    simp only [List.mem_cons, not_or] at hamp hequals
    rw [List.cons_append, List.cons_append, List.cons_append, urlEncodedHelp_escape hhi hlo,
      ih hamp.2.2.2 hequals.2.2.2, decode_escape hhi hlo, List.append_assoc, List.singleton_append]
  | @byte b piece hb _ ih =>
    obtain ⟨hamp', hpiece⟩ := not_or.mp (mt List.mem_cons.mpr hamp)
    obtain ⟨hequals', hpiece'⟩ := not_or.mp (mt List.mem_cons.mpr hequals)
    rw [List.cons_append, urlEncodedHelp_byte (Ne.symm hequals') (Ne.symm hamp') hb,
      ih hpiece hpiece', decode_byte hb, List.append_assoc, List.singleton_append]

theorem urlEncodedHelp_piece {piece : List UInt8} (h : WellFormed piece) (hamp : 38 ∉ piece)
    (rest : List UInt8) :
    urlEncodedHelp (piece ++ rest) .parsingKey [] [] dict =
      if 61 ∈ piece then
        urlEncodedHelp rest .parsingValue (decode (rawName piece)) (decode (rawValue piece)) dict
      else urlEncodedHelp rest .parsingKey [] (decode piece) dict := by
  split_ifs with hequals
  · obtain ⟨name, value, rfl, hname⟩ := List.eq_append_cons_of_mem hequals
    obtain ⟨hwfName, hwfValue⟩ := (wellFormed_append_cons (by decide) (by decide)).mp h
    rw [List.mem_append, List.mem_cons, not_or, not_or] at hamp
    obtain ⟨hrawName, hrawValue⟩ := rawName_append hname value
    rw [hrawName, hrawValue, List.append_assoc, urlEncodedHelp_key hwfName hamp.1 hname,
      List.nil_append, List.cons_append, urlEncodedHelp_equals_key,
      urlEncodedHelp_value hwfValue hamp.2.2, List.nil_append]
  · rw [urlEncodedHelp_key h hamp hequals, List.nil_append]

end

/-! ## Whole bodies -/

/-- The fields that the parser inserts for the pieces of a body. -/
def readFields : List Str → List (Str × Str)
  | [] => []
  | [last] => if last = [] ∨ last = [61] then [] else [field last]
  | piece :: next :: pieces => field piece :: readFields (next :: pieces)

theorem readFields_cons (piece : Str) {pieces : List Str} (h : pieces ≠ []) :
    readFields (piece :: pieces) = field piece :: readFields pieces := by
  cases pieces with
  | nil => exact absurd rfl h
  | cons next pieces => rfl

theorem Readable.piece {body piece : Str} (h : Readable body) (hpiece : piece ∈ splitOn [38] body) :
    ReadablePiece piece where
  escapes := h.escapes.of_mem_splitOn (by decide) (by decide) hpiece
  ampersand := notMem_of_mem_splitOn hpiece
  texts := by
    by_cases hnil : piece = []
    · subst hnil
      exact ⟨by decide, by decide⟩
    · exact h.texts _ (List.mem_map_of_mem (List.mem_filter.mpr ⟨hpiece, decide_eq_true hnil⟩))

theorem chainUtf8_eq {β : Type} {bytes : List UInt8} (h : isUtf8 bytes = true)
    (tryFun : Str → Except FormErr β) : chainUtf8 bytes tryFun = tryFun bytes := if_pos h

section

variable {piece : Str} {dict : Dict}

theorem urlEncodedHelp_inner (h : ReadablePiece piece) (rest : List UInt8) :
    urlEncodedHelp (piece ++ 38 :: rest) .parsingKey [] [] dict =
      urlEncodedHelp rest .parsingKey [] [] (dict.insert (field piece).1 (field piece).2) := by
  have htexts : isUtf8 (decode (rawName piece)) = true ∧ isUtf8 (decode (rawValue piece)) = true := h.texts
  rw [urlEncodedHelp_piece h.escapes h.ampersand, field]
  split_ifs with hequals
  · rw [urlEncodedHelp_ampersand, insertFormField, chainUtf8_eq htexts.1, chainUtf8_eq htexts.2, ok_bind]
  · obtain ⟨hname, hvalue⟩ := rawName_of_notMem hequals
    rw [hname] at htexts
    rw [urlEncodedHelp_ampersand, insertFormField, chainUtf8_eq htexts.1, ok_bind, hname, hvalue]
    rfl

theorem urlEncodedHelp_last (h : ReadablePiece piece) :
    urlEncodedHelp piece .parsingKey [] [] dict = .ok (ofFields (readFields [piece]) dict) := by
  have htexts : isUtf8 (decode (rawName piece)) = true ∧ isUtf8 (decode (rawValue piece)) = true := h.texts
  have hend : ∀ state key chomped, urlEncodedHelp [] state key chomped dict =
      if key = [] ∧ chomped = [] then .ok dict else insertFormField state key chomped dict := by
    intro state key chomped
    rw [urlEncodedHelp.eq_def]
    simp only [Bool.and_eq_true, List.isEmpty_iff]
  rw [← List.append_nil piece, urlEncodedHelp_piece h.escapes h.ampersand, List.append_nil, readFields]
  split_ifs with hequals hlast hlast
  · obtain rfl : piece = [61] := hlast.resolve_left (List.ne_nil_of_mem hequals)
    exact hend _ _ _
  · rw [hend, if_neg, insertFormField, chainUtf8_eq htexts.1, chainUtf8_eq htexts.2]
    · rfl
    · -- a piece with an equals sign and nothing else is one of the two
      obtain ⟨name, value, rfl, hname⟩ := List.eq_append_cons_of_mem hequals
      obtain ⟨hrawName, hrawValue⟩ := rawName_append hname value
      rw [decode_eq_nil h.escapes.field.1, decode_eq_nil h.escapes.field.2, hrawName, hrawValue]
      rintro ⟨rfl, rfl⟩
      exact hlast (.inr rfl)
  · obtain rfl : piece = [] := hlast.resolve_right fun h61 => hequals (h61 ▸ List.mem_singleton_self _)
    exact hend _ _ _
  · obtain ⟨hname, hvalue⟩ := rawName_of_notMem hequals
    rw [hname] at htexts
    rw [hend, if_neg, insertFormField, chainUtf8_eq htexts.1, field, hname, hvalue]
    · rfl
    · rw [decode_eq_nil h.escapes]
      exact fun hnil => hlast (.inl hnil.2)

end

theorem urlEncodedHelp_pieces {pieces : List Str} (hne : pieces ≠ [])
    (h : ∀ piece ∈ pieces, ReadablePiece piece) (dict : Dict) :
    urlEncodedHelp ([38].intercalate pieces) .parsingKey [] [] dict =
      .ok (ofFields (readFields pieces) dict) := by
  induction pieces generalizing dict with
  | nil => exact absurd rfl hne
  | cons piece pieces ih =>
    obtain ⟨hpiece, hpieces⟩ := List.forall_mem_cons.mp h
    by_cases hnil : pieces = []
    · subst hnil
      rw [List.intercalate_singleton]
      exact urlEncodedHelp_last hpiece
    · rw [intercalate_cons piece hnil, List.singleton_append,
        urlEncodedHelp_inner hpiece, ih hnil hpieces, readFields_cons piece hnil]
      rfl

/-- **The fields that are read.** Those of the pieces, an empty one before an ampersand included, but
not an empty piece or a lone equals sign at the end. -/
theorem parseFormUrlEncoded_eq {body : Str} (h : Readable body) :
    parseFormUrlEncoded body = .ok (ofFields (readFields (splitOn [38] body)) ∅) := by
  unfold parseFormUrlEncoded parseFormUrlEncodedImpl
  rw [if_pos ((percentEncodingIsValid_iff body).mpr h.escapes)]
  have hpieces := urlEncodedHelp_pieces (splitOn_ne_nil [38] body) (fun _ => h.piece) ∅
  rwa [intercalate_splitOn (List.cons_ne_nil 38 [])] at hpieces

/-! ## Fields without a name -/

/-- The pieces that have no name: those that begin with the equals sign. -/
def nameless (pieces : List Str) : List Str := pieces.filter (·.head? = some 61)

/-- The pieces from which the parser reads a field without a name. -/
def namelessRead : List Str → List Str
  | [] => []
  | [last] => if last.head? = some 61 ∧ last ≠ [61] then [last] else []
  | piece :: next :: pieces =>
    if piece = [] ∨ piece.head? = some 61 then piece :: namelessRead (next :: pieces)
    else namelessRead (next :: pieces)

/-- The value that the last of some pieces without a name gives. -/
def lastValue (pieces : List Str) : Option Str := pieces.getLast?.map fun piece => decode (piece.drop 1)

theorem lookup_nameless {fields : List (Str × Str)} {pieces : List Str}
    (h : fields.filter (·.1 = []) = pieces.map field)
    (hpieces : ∀ piece ∈ pieces, piece = [] ∨ piece.head? = some 61) :
    (ofFields fields ∅).lookup [] = lastValue pieces := by
  rw [lookup_ofFields, h, List.getLast?_map, Option.map_map, lastValue]
  refine Option.map_congr fun piece hpiece => ?_
  exact field_snd_of_nameless (hpieces piece (List.mem_of_getLast? hpiece))

theorem filter_nameless {pieces : List Str} (h : ∀ piece ∈ pieces, WellFormed piece) :
    ((pieces.filter (· ≠ [])).map field).filter (·.1 = []) = (nameless pieces).map field := by
  rw [List.filter_map, List.filter_filter, nameless]
  refine congrArg (List.map field) (List.filter_congr fun piece hpiece => ?_)
  rw [Function.comp_apply, decide_eq_decide.mpr (field_fst_eq_nil (h piece hpiece)), ← Bool.decide_and]
  refine decide_eq_decide.mpr ⟨fun hp => hp.1.resolve_left hp.2, fun hp => ⟨.inr hp, ?_⟩⟩
  rintro rfl
  cases hp

theorem filter_readFields_nameless {pieces : List Str} (h : ∀ piece ∈ pieces, WellFormed piece) :
    (readFields pieces).filter (·.1 = []) = (namelessRead pieces).map field := by
  induction pieces using readFields.induct with
  | case1 => rfl
  | case2 last hlast =>
    have hnot : ¬(last.head? = some 61 ∧ last ≠ [61]) := by
      rintro ⟨hhead, hne⟩
      rcases hlast with rfl | rfl
      · cases hhead
      · exact hne rfl
    rw [readFields, namelessRead, if_pos hlast, if_neg hnot]
    rfl
  | case3 last hlast =>
    obtain ⟨hnil, hequals⟩ := not_or.mp hlast
    have hname := field_fst_eq_nil (h last List.mem_cons_self)
    rw [readFields, namelessRead, if_neg hlast]
    split_ifs with hhead
    · rw [List.filter_cons_of_pos (by rw [decide_eq_true_eq, hname]; exact .inr hhead.1)]
      rfl
    · rw [List.filter_cons_of_neg]
      · rfl
      · rw [decide_eq_true_eq, hname]
        exact fun hp => hhead ⟨hp.resolve_left hnil, hequals⟩
  | case4 piece next pieces ih =>
    obtain ⟨hpiece, hpieces⟩ := List.forall_mem_cons.mp h
    have hname := field_fst_eq_nil hpiece
    rw [readFields, namelessRead]
    split_ifs with hp
    · rw [List.filter_cons_of_pos (by rwa [decide_eq_true_eq, hname]), ih hpieces, List.map_cons]
    · rw [List.filter_cons_of_neg (by rwa [decide_eq_true_eq, hname]), ih hpieces]

theorem namelessRead_spec (pieces : List Str) :
    ∀ piece ∈ namelessRead pieces, piece = [] ∨ piece.head? = some 61 := by
  fun_induction namelessRead pieces with
  | case1 => exact fun _ h => absurd h List.not_mem_nil
  | case2 last h => exact List.forall_mem_singleton.mpr (.inr h.1)
  | case3 last h => exact fun _ h => absurd h List.not_mem_nil
  | case4 piece next pieces h ih => exact List.forall_mem_cons.mpr ⟨h, ih⟩
  | case5 piece next pieces h ih => exact ih

theorem filter_readFields {name : Str} (hname : name ≠ []) (pieces : List Str) :
    (readFields pieces).filter (·.1 = name) =
      ((pieces.filter (· ≠ [])).map field).filter (·.1 = name) := by
  have hblank : ∀ rest, (field [] :: rest).filter (·.1 = name) = rest.filter (·.1 = name) := by
    intro rest
    refine List.filter_cons_of_neg ?_
    rw [decide_eq_true_eq]
    exact Ne.symm hname
  induction pieces using readFields.induct with
  | case1 => rfl
  | case2 last hlast =>
    rw [readFields, if_pos hlast]
    rcases hlast with rfl | rfl
    · rfl
    · exact (hblank []).symm
  | case3 last hlast =>
    have hkeep : [last].filter (· ≠ []) = [last] :=
      List.filter_cons_of_pos (by simpa using (not_or.mp hlast).1)
    rw [readFields, if_neg hlast, hkeep]
    rfl
  | case4 piece next pieces ih =>
    rw [readFields]
    by_cases hpiece : piece = []
    · subst hpiece
      exact (hblank _).trans ih
    · have hkeep : (piece :: next :: pieces).filter (· ≠ []) = piece :: (next :: pieces).filter (· ≠ []) :=
        List.filter_cons_of_pos (by simpa using hpiece)
      rw [hkeep, List.map_cons, List.filter_cons, List.filter_cons, ih]

theorem lookup_readFields_nameless {pieces : List Str} (h : ∀ piece ∈ pieces, WellFormed piece) :
    (ofFields (readFields pieces) ∅).lookup [] = lastValue (namelessRead pieces) :=
  lookup_nameless (filter_readFields_nameless h) (namelessRead_spec pieces)

theorem lookup_parse_nameless {body : Str} (h : ∀ piece ∈ splitOn [38] body, WellFormed piece) :
    (UrlEncoded.parse body).lookup [] = lastValue (nameless (splitOn [38] body)) :=
  lookup_nameless (filter_nameless h) fun _ hpiece => .inr (of_decide_eq_true (List.mem_filter.mp hpiece).2)

/-! ## Two bodies in one -/

theorem Readable.append {x y : Str} (hx : Readable x) (hy : Readable y) : Readable (x ++ 38 :: y) where
  escapes := (wellFormed_append_cons (by decide) (by decide)).mpr ⟨hx.escapes, hy.escapes⟩
  texts := by
    have hfields : fields (x ++ 38 :: y) = fields x ++ fields y := by
      unfold fields
      rw [show x ++ 38 :: y = x ++ ([38] ++ y) from rfl, splitOn_append_append List.not_mem_nil,
        List.filter_append, List.map_append]
    intro field hfield
    rw [hfields] at hfield
    exact (List.mem_append.mp hfield).elim (hx.texts field) (hy.texts field)

theorem readFields_append (a : List Str) {b : List Str} (h : b ≠ []) :
    readFields (a ++ b) = a.map field ++ readFields b := by
  induction a with
  | nil => rfl
  | cons piece a ih =>
    rw [List.cons_append, readFields_cons piece (List.append_ne_nil_of_right_ne_nil a h), ih]
    rfl

/-- The field that is read from the end of a body only if an ampersand follows. -/
def unread (pieces : List Str) : List (Str × Str) :=
  if pieces.getLast? ∈ [some [], some [61]] then [([], [])] else []

theorem map_field_eq {pieces : List Str} (h : pieces ≠ []) :
    pieces.map field = readFields pieces ++ unread pieces := by
  obtain ⟨init, last, rfl⟩ : ∃ init last, pieces = init ++ [last] :=
    ⟨_, _, (List.dropLast_append_getLast h).symm⟩
  rw [readFields_append init (List.cons_ne_nil last []), List.map_append, List.append_assoc, unread,
    List.getLast?_concat, readFields]
  refine congrArg (init.map field ++ ·) ?_
  by_cases hlast : last = [] ∨ last = [61]
  · rw [if_pos hlast, if_pos (by simpa using hlast)]
    rcases hlast with rfl | rfl
    · rfl
    · rfl
  · rw [if_neg hlast, if_neg (by simpa using hlast)]
    rfl

theorem parseFormUrlEncoded_append {x y : Str} (hx : Readable x) (hy : Readable y) :
    parseFormUrlEncoded (x ++ 38 :: y) =
      .ok (ofFields (readFields (splitOn [38] y)) ∅ ∪
        (ofFields (unread (splitOn [38] x)) ∅ ∪ ofFields (readFields (splitOn [38] x)) ∅)) := by
  rw [parseFormUrlEncoded_eq (hx.append hy), show x ++ 38 :: y = x ++ ([38] ++ y) from rfl,
    splitOn_append_append List.not_mem_nil, readFields_append _ (splitOn_ne_nil _ _),
    map_field_eq (splitOn_ne_nil _ _), ofFields_append_empty, ofFields_append_empty]

/-! ## When the result is the dictionary of the body -/

/-- **Form bodies.** The parser gives the dictionary of the body exactly if it reads the same value
for the empty name, and a body overrides one before it exactly if the earlier one does not end in a
piece that only the ampersand makes a field. -/
theorem parse_form_url_encoded_iff {x : Str} (hx : Readable x) :
    (parseFormUrlEncoded x = .ok (UrlEncoded.parse x) ↔
      lastValue (namelessRead (splitOn [38] x)) = lastValue (nameless (splitOn [38] x))) ∧
    ∀ y, Readable y → ∃ dictX dictY,
      parseFormUrlEncoded x = .ok dictX ∧ parseFormUrlEncoded y = .ok dictY ∧
      (parseFormUrlEncoded (x ++ 38 :: y) = .ok (dictY ∪ dictX) ↔
        (namelessRead (splitOn [38] y) = [] → (splitOn [38] x).getLast? ∈ [some [], some [61]] →
          lastValue (namelessRead (splitOn [38] x)) = some [])) := by
  constructor
  · have hpieces : ∀ piece ∈ splitOn [38] x, WellFormed piece := fun _ hp => (hx.piece hp).escapes
    rw [parseFormUrlEncoded_eq hx, Except.ok.injEq, ← lookup_readFields_nameless hpieces,
      ← lookup_parse_nameless hpieces]
    refine ⟨congrArg (Finmap.lookup []), fun hblank => Finmap.ext_lookup fun name => ?_⟩
    by_cases hname : name = []
    · rw [hname, hblank]
    · rw [UrlEncoded.parse, lookup_ofFields, lookup_ofFields, filter_readFields hname]
      rfl
  · intro y hy
    refine ⟨_, _, parseFormUrlEncoded_eq hx, parseFormUrlEncoded_eq hy, ?_⟩
    have hlookupX := lookup_readFields_nameless fun _ hp => (hx.piece hp).escapes
    have hlookupY := lookup_readFields_nameless fun _ hp => (hy.piece hp).escapes
    rw [parseFormUrlEncoded_append hx hy, Except.ok.injEq, unread]
    split_ifs with hlast
    · have hblank : ∀ name : Str, (ofFields [([], [])] ∅).lookup name =
          if name = [] then some ([] : Str) else none := by
        intro name
        rw [lookup_ofFields]
        split_ifs with hname
        · rw [hname]
          rfl
        · rw [List.filter_cons_of_neg (by simpa using Ne.symm hname)]
          rfl
      constructor
      · intro heq hy' _
        have hat := congrArg (Finmap.lookup []) heq
        rw [lookup_union, lookup_union, lookup_union, hlookupX, hlookupY, hy', hblank, if_pos rfl] at hat
        exact hat.symm
      · intro h
        refine Finmap.ext_lookup fun name => ?_
        rw [lookup_union, lookup_union, lookup_union, hblank]
        split_ifs with hname
        · subst hname
          rw [hlookupX, hlookupY]
          by_cases hy' : namelessRead (splitOn [38] y) = []
          · rw [h hy' hlast, hy']
            rfl
          · obtain ⟨last, hlast'⟩ := Option.ne_none_iff_exists'.mp (mt List.getLast?_eq_none_iff.mp hy')
            rw [lastValue, hlast']
            rfl
        · rw [Option.none_or]
    · exact iff_of_true (by rw [show ofFields [] ∅ = ∅ from rfl, Finmap.empty_union])
        fun _ hlast' => absurd hlast' hlast

theorem readable_of_valid {body : Str} (hvalid : percentEncodingIsValid body = true)
    (htexts : ∀ field ∈ fields body, isUtf8 field.1 = true ∧ isUtf8 field.2 = true) : Readable body :=
  ⟨(percentEncodingIsValid_iff body).mp hvalid, htexts⟩

theorem parse_form_url_encoded_sample :
    parseFormUrlEncoded (ascii "a=1&b=%41+c") = .ok (UrlEncoded.parse (ascii "a=1&b=%41+c")) :=
  (parse_form_url_encoded_iff (readable_of_valid (by decide +kernel) (by decide +kernel))).1.mpr
    (by decide +kernel)

/-- An empty piece between two fields becomes a field. -/
theorem parse_form_url_encoded_empty_piece :
    Readable (ascii "a=1&&b=2") ∧
      parseFormUrlEncoded (ascii "a=1&&b=2") ≠ .ok (UrlEncoded.parse (ascii "a=1&&b=2")) := by
  refine ⟨readable_of_valid (by decide +kernel) (by decide +kernel), fun h => ?_⟩
  have hread : (parseFormUrlEncoded (ascii "a=1&&b=2")).toOption.bind (·.lookup []) = some [] := by
    decide +kernel
  have hmeant : (UrlEncoded.parse (ascii "a=1&&b=2")).lookup [] = none := by decide +kernel
  rw [h, Except.toOption, Option.bind_some, hmeant] at hread
  cases hread

/-! ## Bodies that `form_encode` writes -/

theorem decode_formEncode (text : Str) :
    WellFormed (Url.formEncode text) ∧ decode (Url.formEncode text) = text := by
  have hplain : ∀ byte, Url.isFormUnescaped byte → byte ≠ 37 ∧ plusToSpace byte = byte :=
    forall_byte (by decide +kernel)
  rw [Url.formEncode_eq]
  induction text with
  | nil => exact ⟨.nil, rfl⟩
  | cons byte text ih =>
    obtain ⟨hwf, hdecode⟩ := ih
    rw [List.flatMap_cons, Url.formEncodeByte]
    split_ifs with hspace hbyte
    · subst hspace
      refine ⟨.byte (by decide) hwf, ?_⟩
      rw [List.singleton_append, decode_byte (by decide), hdecode]
      rfl
    · obtain ⟨hpercent, hplus⟩ := hplain byte hbyte
      refine ⟨.byte hpercent hwf, ?_⟩
      rw [List.singleton_append, decode_byte hpercent, hdecode, hplus]
    · obtain ⟨hi, lo, hescape, hhi, hlo, -, -, hvalue⟩ := Url.percentByte_spec byte
      have hhi' := hexDigit_of_isHex hi hhi
      have hlo' := hexDigit_of_isHex lo hlo
      rw [hescape]
      refine ⟨.escape hhi' hlo' hwf, ?_⟩
      rw [List.cons_append, List.cons_append, List.cons_append, List.nil_append,
        decode_escape hhi' hlo', hdecode, hvalue]

/-- What stands for a pair in a body. -/
def encodePair (pair : Str × Str) : Str := Url.formEncode pair.1 ++ 61 :: Url.formEncode pair.2

theorem field_encodePair (pair : Str × Str) :
    WellFormed (encodePair pair) ∧ 38 ∉ encodePair pair ∧ field (encodePair pair) = pair := by
  obtain ⟨hwfName, hname⟩ := decode_formEncode pair.1
  obtain ⟨hwfValue, hvalue⟩ := decode_formEncode pair.2
  obtain ⟨hrawName, hrawValue⟩ :=
    rawName_append (Url.notMem_formEncode (.inr rfl) pair.1) (Url.formEncode pair.2)
  refine ⟨(wellFormed_append_cons (by decide) (by decide)).mpr ⟨hwfName, hwfValue⟩, ?_, ?_⟩
  · simp [encodePair, Url.notMem_formEncode (.inl rfl)]
  · rw [field, encodePair, hrawName, hrawValue, hname, hvalue]

theorem readFields_encodePair {pairs : List (Str × Str)} (h : ∀ pair ∈ pairs, pair.1 ≠ []) :
    readFields (pairs.map encodePair) = pairs := by
  have hkeep : ∀ pair : Str × Str, pair.1 ≠ [] → ¬(encodePair pair = [] ∨ encodePair pair = [61]) := by
    intro pair hpair hdrop
    obtain ⟨-, -, hfield⟩ := field_encodePair pair
    apply hpair
    rcases hdrop with hdrop | hdrop
    · rw [← hfield, hdrop]
      rfl
    · rw [← hfield, hdrop]
      rfl
  induction pairs with
  | nil => rfl
  | cons pair pairs ih =>
    obtain ⟨hpair, hpairs⟩ := List.forall_mem_cons.mp h
    obtain ⟨-, -, hfield⟩ := field_encodePair pair
    cases pairs with
    | nil =>
      rw [List.map_singleton, readFields, if_neg (hkeep pair hpair), hfield]
    | cons next pairs =>
      rw [List.map_cons, readFields_cons _ (by simp), ih hpairs, hfield]

theorem lookup_ofFields_of_nodup {pairs : List (Str × Str)} (h : (pairs.map Prod.fst).Nodup)
    (name value : Str) : (ofFields pairs ∅).lookup name = some value ↔ (name, value) ∈ pairs := by
  induction pairs using List.reverseRecOn with
  | nil => exact iff_of_false nofun List.not_mem_nil
  | append_singleton pairs pair ih =>
    rw [List.map_append, List.nodup_append'] at h
    have hfresh : pair.1 ∉ pairs.map Prod.fst := fun hmem => h.2.2 hmem (List.mem_singleton_self _)
    rw [ofFields_append]
    show (Finmap.insert pair.1 pair.2 (ofFields pairs ∅)).lookup name = some value ↔ _
    rw [List.mem_append, List.mem_singleton]
    by_cases hname : name = pair.1
    · subst hname
      rw [Finmap.lookup_insert, Option.some.injEq]
      refine ⟨fun hvalue => .inr (Prod.ext rfl hvalue.symm), fun hmem => ?_⟩
      rcases hmem with hmem | hmem
      · exact absurd (List.mem_map_of_mem (f := Prod.fst) hmem) hfresh
      · exact (congrArg Prod.snd hmem).symm
    · rw [Finmap.lookup_insert_of_ne _ hname, ih h.1]
      refine ⟨.inl, fun hmem => hmem.resolve_right fun heq => hname (congrArg Prod.fst heq)⟩

/-- **Encode, then parse.** The pairs of a body that `form_encode` writes are the dictionary. -/
theorem parse_form_encode {pairs : List (Str × Str)}
    (htexts : ∀ pair ∈ pairs, isUtf8 pair.1 = true ∧ isUtf8 pair.2 = true)
    (hnames : ∀ pair ∈ pairs, pair.1 ≠ []) (hdistinct : (pairs.map Prod.fst).Nodup) :
    ∃ dict, parseFormUrlEncoded ([38].intercalate (pairs.map fun pair =>
        Url.formEncode pair.1 ++ [61] ++ Url.formEncode pair.2)) = .ok dict ∧
      ∀ name value, dict.lookup name = some value ↔ (name, value) ∈ pairs := by
  have hpair : (fun pair : Str × Str => Url.formEncode pair.1 ++ [61] ++ Url.formEncode pair.2) =
      encodePair := by
    funext pair
    rw [encodePair, List.append_assoc, List.singleton_append]
  refine ⟨ofFields pairs ∅, ?_, lookup_ofFields_of_nodup hdistinct⟩
  rw [hpair]
  by_cases hnil : pairs = []
  · subst hnil
    rfl
  · have hreadable : ∀ piece ∈ pairs.map encodePair, ReadablePiece piece := by
      intro piece hpiece
      obtain ⟨pair, hmem, rfl⟩ := List.mem_map.mp hpiece
      obtain ⟨hwf, hamp, hfield⟩ := field_encodePair pair
      exact ⟨hwf, hamp, hfield.symm ▸ htexts pair hmem⟩
    have hne : pairs.map encodePair ≠ [] := by rwa [Ne, List.map_eq_nil_iff]
    have hwf : WellFormed ([38].intercalate (pairs.map encodePair)) :=
      wellFormed_intercalate (by decide) (by decide) fun piece hpiece => (hreadable piece hpiece).escapes
    rw [parseFormUrlEncoded, parseFormUrlEncodedImpl, if_pos ((percentEncodingIsValid_iff _).mpr hwf),
      urlEncodedHelp_pieces hne hreadable, readFields_encodePair hnames]

theorem parse_form_encode_sample :
    ∃ dict, parseFormUrlEncoded ([38].intercalate ([(ascii "a b", ascii "1&2"), (ascii "c", [])].map
        fun pair => Url.formEncode pair.1 ++ [61] ++ Url.formEncode pair.2)) = .ok dict ∧
      ∀ name value, dict.lookup name = some value ↔
        (name, value) ∈ [(ascii "a b", ascii "1&2"), (ascii "c", [])] :=
  parse_form_encode (by decide) (by decide) (by decide)

end BasicWebserver.Platform.FormUrlEncoded
