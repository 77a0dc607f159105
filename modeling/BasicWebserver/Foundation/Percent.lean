import Mathlib.Data.List.Basic

/-!
# Percent encoding

A byte is written as itself or as a percent sign and two hexadecimal digits of either case; the
percent sign itself is always escaped. A text has many encodings, so `Encodes` is a relation.
-/

namespace Percent

def hexValue (b : UInt8) : Option UInt8 :=
  if 48 ≤ b ∧ b ≤ 57 then some (b - 48)
  else if 97 ≤ b ∧ b ≤ 102 then some (b - 97 + 10)
  else if 65 ≤ b ∧ b ≤ 70 then some (b - 65 + 10)
  else none

/-- `Encodes text plain`: decoding `text` once gives `plain`. -/
inductive Encodes : List UInt8 → List UInt8 → Prop
  | nil : Encodes [] []
  | plain {b : UInt8} {text plain : List UInt8} (hb : b ≠ 37) (h : Encodes text plain) :
      Encodes (b :: text) (b :: plain)
  | escaped {hi lo high low : UInt8} {text plain : List UInt8} (hhi : hexValue hi = some high)
      (hlo : hexValue lo = some low) (h : Encodes text plain) :
      Encodes (37 :: hi :: lo :: text) ((high * 16 + low) :: plain)

theorem Encodes.mem_of_mem {text plain : List UInt8} {b : UInt8} (h : Encodes text plain)
    (hb : b ∈ text) (hpercent : b ≠ 37) (hhex : hexValue b = none) : b ∈ plain := by
  induction h with
  | nil => exact hb
  | plain _ _ ih =>
    rcases List.mem_cons.mp hb with rfl | hb
    · exact List.mem_cons_self
    · exact List.mem_cons_of_mem _ (ih hb)
  | escaped hhi hlo _ ih =>
    simp only [List.mem_cons] at hb
    rcases hb with rfl | rfl | rfl | hb
    · exact absurd rfl hpercent
    · rw [hhi] at hhex
      cases hhex
    · rw [hlo] at hhex
      cases hhex
    · exact List.mem_cons_of_mem _ (ih hb)

theorem Encodes.ne_nil {text plain : List UInt8} (h : Encodes text plain) (hne : plain ≠ []) :
    text ≠ [] := by
  rintro rfl
  cases h
  exact hne rfl

end Percent
