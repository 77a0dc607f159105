import BasicWebserver.Foundation.Ascii

/-!
# Entity tags

The entity tags of RFC 9110, the fields `If-Match` and `If-None-Match` that list them, and the two
ways to compare them.
-/

namespace EntityTags

open Ascii

abbrev Bytes := List UInt8

/-- The bytes of a tag between its quotes. -/
def isTagByte (b : UInt8) : Bool := b = 33 || (35 ≤ b && b ≠ 127)

structure EntityTag where
  weak : Bool
  content : Bytes
  bytes : ∀ b ∈ content, isTagByte b = true

/-- What stands before the quotes. -/
def EntityTag.mark (tag : EntityTag) : Bytes := if tag.weak then ascii "W/" else []

def EntityTag.text (tag : EntityTag) : Bytes := tag.mark ++ [34] ++ tag.content ++ [34]

/-- Strong comparison: neither tag is weak. -/
def EntityTag.strongly (a b : EntityTag) : Bool := !a.weak && !b.weak && a.content = b.content

def EntityTag.weakly (a b : EntityTag) : Bool := a.content = b.content

/-- An element of a list, with the blanks around it. A recipient accepts empty elements. -/
structure Element where
  before : Bytes
  tag : Option EntityTag
  after : Bytes
  blanks : ∀ b ∈ before ++ after, b = 32 ∨ b = 9

def Element.text (element : Element) : Bytes :=
  element.before ++ element.tag.elim [] EntityTag.text ++ element.after

def lineText (line : List Element) : Bytes := [44].intercalate (line.map Element.text)

/-- A field: a star, or tags on one line or more. -/
inductive TagField
  | any
  | tags (lines : List (List Element)) (nonempty : lines ≠ [])

/-- The lines of a field as they are written. -/
def TagField.texts : TagField → List Bytes
  | .any => [ascii "*"]
  | .tags lines _ => lines.map lineText

/-- A star matches whatever is there. -/
def TagField.matches (compare : EntityTag → Bool) : TagField → Bool
  | .any => true
  | .tags lines _ => lines.any fun line => line.any fun element => element.tag.any compare

theorem EntityTag.mark_spec (tag : EntityTag) :
    (34 : UInt8) ∉ tag.mark ∧ (44 : UInt8) ∉ tag.mark ∧ ∀ b ∈ tag.mark, isWhitespace b = false := by
  unfold EntityTag.mark
  cases tag.weak <;> decide +kernel

theorem EntityTag.content_spec (tag : EntityTag) :
    (34 : UInt8) ∉ tag.content ∧ ∀ b ∈ tag.content, isWhitespace b = false := by
  have hblank : ∀ b : UInt8, isTagByte b = true → isWhitespace b = false := by
    intro b hb
    unfold isTagByte at hb
    unfold isWhitespace
    simp only [Bool.or_eq_true, Bool.and_eq_true, decide_eq_true_eq, Bool.or_eq_false_iff,
      Bool.and_eq_false_iff, decide_eq_false_iff_not, UInt8.le_iff_toNat_le, UInt8.reduceToNat] at hb ⊢
    rcases hb with rfl | ⟨hb, -⟩
    · decide
    · refine ⟨.inr (by omega), ?_⟩
      rintro rfl
      exact absurd hb (by decide)
  exact ⟨fun h => absurd (tag.bytes 34 h) (by decide), fun b hb => hblank b (tag.bytes b hb)⟩

theorem Element.blanks_spec (element : Element) : (44 : UInt8) ∉ element.before ∧
    (44 : UInt8) ∉ element.after ∧ (∀ b ∈ element.before, isWhitespace b = true) ∧
      ∀ b ∈ element.after, isWhitespace b = true := by
  have hblank : ∀ b : UInt8, b = 32 ∨ b = 9 → isWhitespace b = true ∧ b ≠ 44 := by
    rintro b (rfl | rfl) <;> decide
  have hbefore := fun b hb => hblank b (element.blanks b (List.mem_append_left _ hb))
  have hafter := fun b hb => hblank b (element.blanks b (List.mem_append_right _ hb))
  exact ⟨fun h => (hbefore 44 h).2 rfl, fun h => (hafter 44 h).2 rfl, fun b hb => (hbefore b hb).1,
    fun b hb => (hafter b hb).1⟩

end EntityTags
