import BasicWebserver.Foundation.Ascii
import BasicWebserver.Foundation.Percent
import BasicWebserver.Foundation.Splitting

/-!
# Text helpers of the URL module

The string and byte helpers of `platform/Url.roc`, with percent and form encoding. A Roc string is
its UTF-8 bytes. What the source passes through `Str.from_utf8_lossy` is ASCII or a piece of a
string between ASCII bytes, and so is itself; only `form_decode` can make other bytes.
-/

namespace BasicWebserver.Platform.Url

open Ascii Splitting

abbrev Str := List UInt8

/-! ## Bytes -/

def isHex (byte : UInt8) : Bool :=
  isDigit byte || (65 ≤ byte && byte ≤ 70) || (97 ≤ byte && byte ≤ 102)

def hexValue (byte : UInt8) : UInt8 :=
  if byte ≤ 57 then byte - 48 else if byte ≤ 70 then byte - 55 else byte - 87

def hexDigitByte (value : UInt8) : UInt8 := if value < 10 then value + 48 else value + 55

def lowerHexDigitByte (value : UInt8) : UInt8 := if value < 10 then value + 48 else value + 87

def asciiUpperHex (byte : UInt8) : UInt8 := if 97 ≤ byte && byte ≤ 102 then byte - 32 else byte

def isUnreserved (byte : UInt8) : Bool :=
  isAlphanumeric byte || byte = 45 || byte = 46 || byte = 95 || byte = 126

def isFormUnescaped (byte : UInt8) : Bool :=
  isAlphanumeric byte || byte = 42 || byte = 45 || byte = 46 || byte = 95

def percentByte (byte : UInt8) : Str := [37, hexDigitByte (byte / 16), hexDigitByte (byte % 16)]

def appendPercentByte (out : Str) (byte : UInt8) : Str := out ++ percentByte byte

def firstOrZero (l : Str) : UInt8 := l.headD 0

def lastOrZero (l : Str) : UInt8 := l.getLastD 0

/-! ## Strings -/

def splitFirst (str separator : Str) : Option (Str × Str) :=
  match splitOn separator str with
  | before :: next :: rest => some (before, separator.intercalate (next :: rest))
  | _ => none

def splitLast (str separator : Str) : Option (Str × Str) :=
  let parts := splitOn separator str
  if 1 < parts.length then some (separator.intercalate parts.dropLast, parts.getLastD []) else none

def startsWith (str start : Str) : Bool :=
  if start = [] then true
  else
    match splitFirst str start with
    | some (before, _) => before = []
    | none => false

def endsWith (str suffix : Str) : Bool :=
  if suffix = [] then true else ((splitOn suffix str).getLastD []).isEmpty

def dropPrefix (str start : Str) : Str := start.intercalate ((splitOn start str).drop 1)

def contains (str part : Str) : Bool := part <:+: str

/-! ## Percent and form encoding -/

def percentEncode (input : Str) : Str :=
  input.foldl (fun out byte => if isUnreserved byte then out ++ [byte] else appendPercentByte out byte) []

def formEncode (input : Str) : Str :=
  input.foldl (fun out byte =>
    if byte = 32 then out ++ [43]
    else if isFormUnescaped byte then out ++ [byte]
    else appendPercentByte out byte) []

def formDecodeHelp : Str → Str → Str
  | [], out => out
  | 43 :: rest, out => formDecodeHelp rest (out ++ [32])
  | byte :: hi :: lo :: rest, out =>
    if byte = 37 && isHex hi && isHex lo then
      formDecodeHelp rest (out ++ [hexValue hi * 16 + hexValue lo])
    else formDecodeHelp (hi :: lo :: rest) (out ++ [byte])
  | byte :: rest, out => formDecodeHelp rest (out ++ [byte])

/-- `form_decode`, with the lossy conversion to a string. -/
def formDecode (fromUtf8Lossy : Str → Str) (input : Str) : Str :=
  fromUtf8Lossy (formDecodeHelp input [])

/-! ## What the string helpers do -/

section Strings

variable {str start a b sep s : Str} {c : UInt8}

theorem startsWith_iff (hstart : start ≠ []) : startsWith str start ↔ start <+: str := by
  unfold startsWith splitFirst
  rw [if_neg hstart]
  constructor
  · intro h
    have hjoin := intercalate_splitOn hstart str
    split at h
    · rename_i before after hsplit
      split at hsplit
      · rename_i first next rest hparts
        cases hsplit
        rw [hparts, intercalate_cons _ (List.cons_ne_nil _ _), of_decide_eq_true h] at hjoin
        exact ⟨_, hjoin⟩
      · cases hsplit
    · cases h
  · rintro ⟨rest, rfl⟩
    rw [splitOn_sep hstart]
    cases hparts : splitOn start rest with
    | nil => exact absurd hparts (splitOn_ne_nil _ _)
    | cons next parts => exact decide_eq_true rfl

theorem endsWith_iff (hs : c ∉ s) (hstr : str ≠ []) : endsWith str (c :: s) ↔ c :: s <:+ str := by
  have hjoin := intercalate_splitOn (List.cons_ne_nil c s) str
  unfold endsWith
  rw [if_neg (List.cons_ne_nil c s), List.isEmpty_iff]
  constructor
  · intro hlast
    obtain ⟨parts, hparts⟩ : ∃ parts, splitOn (c :: s) str = parts ++ [[]] := by
      refine ⟨(splitOn (c :: s) str).dropLast, ?_⟩
      rw [List.getLastD_eq_getLast?, List.getLast?_eq_some_getLast (splitOn_ne_nil _ _)] at hlast
      conv_lhs => rw [← List.dropLast_append_getLast (splitOn_ne_nil (c :: s) str)]
      rw [show (splitOn (c :: s) str).getLast _ = [] from hlast]
    by_cases hnil : parts = []
    · subst hnil
      rw [hparts] at hjoin
      exact absurd hjoin.symm hstr
    · rw [hparts, intercalate_append hnil (List.cons_ne_nil _ _), List.intercalate_singleton,
        List.append_nil] at hjoin
      exact ⟨_, hjoin⟩
  · rintro ⟨a, rfl⟩
    have happend := splitOn_append_append hs a []
    rw [List.append_nil] at happend
    rw [happend]
    exact List.getLastD_concat

theorem splitFirst_append (s : Str) (hc : c ∉ a) (b : Str) :
    splitFirst (a ++ (c :: s ++ b)) (c :: s) = some (a, b) := by
  have hjoin := intercalate_splitOn (List.cons_ne_nil c s) b
  unfold splitFirst
  rw [splitOn_append_sep s hc]
  cases hparts : splitOn (c :: s) b with
  | nil => exact absurd hparts (splitOn_ne_nil _ _)
  | cons next rest =>
    rw [hparts] at hjoin
    exact congrArg (fun after => some (a, after)) hjoin

theorem splitFirst_of_notMem (s : Str) (hc : c ∉ str) : splitFirst str (c :: s) = none := by
  unfold splitFirst
  rw [splitOn_of_notMem s hc]

theorem splitFirst_byte (str : Str) (c : UInt8) :
    (c ∉ str ∧ splitFirst str [c] = none) ∨
      ∃ a b, str = a ++ c :: b ∧ c ∉ a ∧ splitFirst str [c] = some (a, b) := by
  by_cases hc : c ∈ str
  · obtain ⟨a, b, rfl, ha⟩ := List.eq_append_cons_of_mem hc
    exact .inr ⟨a, b, rfl, ha, splitFirst_append [] ha b⟩
  · exact .inl ⟨hc, splitFirst_of_notMem [] hc⟩

theorem splitLast_of_notMem (hc : c ∉ str) : splitLast str [c] = none := by
  unfold splitLast
  rw [splitOn_of_notMem [] hc]
  rfl

theorem splitLast_append (a : Str) (hc : c ∉ b) : splitLast (a ++ c :: b) [c] = some (a, b) := by
  have happend : splitOn [c] (a ++ c :: b) = splitOn [c] a ++ [b] := by
    rw [← splitOn_of_notMem [] hc]
    exact splitOn_append_append List.not_mem_nil a b
  have hlen : 1 < (splitOn [c] a ++ [b]).length := by
    rw [List.length_append, List.length_singleton]
    have := List.length_pos_iff.mpr (splitOn_ne_nil [c] a)
    omega
  unfold splitLast
  dsimp only
  rw [happend, if_pos hlen, List.dropLast_concat, List.getLastD_concat,
    intercalate_splitOn (List.cons_ne_nil _ _)]

theorem dropPrefix_append (s : Str) (b : Str) : dropPrefix (c :: s ++ b) (c :: s) = b := by
  unfold dropPrefix
  rw [splitOn_sep (List.cons_ne_nil c s)]
  exact intercalate_splitOn (List.cons_ne_nil c s) b

end Strings

/-! ## What the encodings do -/

theorem foldl_append_eq_flatMap {f : UInt8 → Str} (l out : Str) :
    l.foldl (fun out byte => out ++ f byte) out = out ++ l.flatMap f := by
  induction l generalizing out with
  | nil => exact (List.append_nil out).symm
  | cons x l ih => rw [List.foldl_cons, ih, List.flatMap_cons, List.append_assoc]

/-- What `percent_encode` writes for a byte. -/
def percentEncodeByte (byte : UInt8) : Str := if isUnreserved byte then [byte] else percentByte byte

theorem percentEncode_eq (input : Str) : percentEncode input = input.flatMap percentEncodeByte := by
  have hstep : (fun out byte => if isUnreserved byte then out ++ [byte] else appendPercentByte out byte) =
      fun (out : Str) byte => out ++ percentEncodeByte byte := by
    funext out byte
    unfold percentEncodeByte
    split_ifs <;> rfl
  unfold percentEncode
  rw [hstep, foldl_append_eq_flatMap, List.nil_append]

/-- What `form_encode` writes for a byte. -/
def formEncodeByte (byte : UInt8) : Str :=
  if byte = 32 then [43] else if isFormUnescaped byte then [byte] else percentByte byte

theorem formEncode_eq (input : Str) : formEncode input = input.flatMap formEncodeByte := by
  have hstep : (fun out byte =>
      if byte = 32 then out ++ [43]
      else if isFormUnescaped byte then out ++ [byte]
      else appendPercentByte out byte) = fun (out : Str) byte => out ++ formEncodeByte byte := by
    funext out byte
    unfold formEncodeByte
    split_ifs <;> rfl
  unfold formEncode
  rw [hstep, foldl_append_eq_flatMap, List.nil_append]

theorem percentByte_spec (byte : UInt8) : ∃ hi lo, percentByte byte = [37, hi, lo] ∧
    isHex hi ∧ isHex lo ∧ asciiUpperHex hi = hi ∧ asciiUpperHex lo = lo ∧
    hexValue hi * 16 + hexValue lo = byte := by
  refine ⟨_, _, rfl, ?_⟩
  revert byte
  exact forall_byte (by decide +kernel)


end BasicWebserver.Platform.Url
