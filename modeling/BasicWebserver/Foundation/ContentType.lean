import BasicWebserver.Foundation.Ascii

/-!
# Media types

The grammar of a `Content-Type` field: a type, a subtype and parameters, whose values are tokens or
quoted strings. A value is written in its own spelling (`ParameterValue.text`), and means what is left
without the quotes and the backslashes (`ParameterValue.value`).
-/

namespace ContentType

open Ascii

abbrev Bytes := List UInt8

def isTokenByte (b : UInt8) : Bool := isAlphanumeric b || b ∈ ascii "!#$%&'*+-.^_`|~"

structure Token where
  text : Bytes
  nonempty : text ≠ []
  bytes : ∀ b ∈ text, isTokenByte b = true

/-- The bytes that stand for themselves between quotes. -/
def isQuotedText (b : UInt8) : Bool :=
  b = 9 || b = 32 || b = 33 || (35 ≤ b && b ≤ 91) || (93 ≤ b && b ≤ 126) || 128 ≤ b

/-- The bytes that can follow a backslash. -/
def isEscapable (b : UInt8) : Bool := b = 9 || (32 ≤ b && b ≤ 126) || 128 ≤ b

inductive QuotedByte
  | plain (b : UInt8) (h : isQuotedText b = true)
  | escaped (b : UInt8) (h : isEscapable b = true)

def QuotedByte.text : QuotedByte → Bytes
  | .plain b _ => [b]
  | .escaped b _ => [92, b]

def QuotedByte.value : QuotedByte → UInt8
  | .plain b _ => b
  | .escaped b _ => b

inductive ParameterValue
  | token (t : Token)
  | quoted (bytes : List QuotedByte)

def ParameterValue.text : ParameterValue → Bytes
  | .token t => t.text
  | .quoted bytes => [34] ++ bytes.flatMap QuotedByte.text ++ [34]

def ParameterValue.value : ParameterValue → Bytes
  | .token t => t.text
  | .quoted bytes => bytes.map QuotedByte.value

/-- A parameter, with the blanks on both sides of the semicolon in front of it. -/
structure Parameter where
  before : Bytes
  after : Bytes
  blanks : ∀ b ∈ before ++ after, b = 32 ∨ b = 9
  name : Token
  value : ParameterValue

def Parameter.text (parameter : Parameter) : Bytes :=
  parameter.before ++ [59] ++ parameter.after ++ parameter.name.text ++ [61] ++ parameter.value.text

/-- Names of parameters are compared without regard to case. -/
def Parameter.isNamed (name : Bytes) (parameter : Parameter) : Bool :=
  eqIgnoreCase parameter.name.text name

structure MediaType where
  type : Token
  subtype : Token
  parameters : List Parameter

def MediaType.text (media : MediaType) : Bytes :=
  media.type.text ++ [47] ++ media.subtype.text ++ media.parameters.flatMap Parameter.text

theorem Token.notMem_equals (token : Token) : (61 : UInt8) ∉ token.text := fun h =>
  absurd (token.bytes 61 h) (by decide)

theorem MediaType.text_concat {media : MediaType} {parameters : List Parameter} {last : Parameter}
    (h : media.parameters = parameters ++ [last]) :
    ∃ start, media.text = start ++ ([61] ++ last.value.text) := by
  refine ⟨media.type.text ++ [47] ++ media.subtype.text ++ parameters.flatMap Parameter.text ++
    (last.before ++ [59] ++ last.after ++ last.name.text), ?_⟩
  rw [MediaType.text, h, List.flatMap_append, List.flatMap_singleton, Parameter.text]
  simp only [List.append_assoc]

end ContentType
