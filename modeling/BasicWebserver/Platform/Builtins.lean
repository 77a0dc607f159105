import BasicWebserver.Foundation.Ascii
import BasicWebserver.Foundation.Fallible

/-!
# The builtins of Roc

Fixed-width integers and texts as the standard library of the language has them. `+` and `-` stop the
program when the result does not fit; the operations named `wrap` cut it off. To say that nothing is
ever cut off, they take a switch `trap` that makes them stop instead: with it off they are the
builtins, and a program that gives a result with it on has not wrapped around.

An operation whose result fits is the exact one, whatever the switch (`wrap_of_lt`, `add_of_lt`,
`sub_of_le`).
-/

namespace BasicWebserver.Platform

/-- The ways a Roc program can stop. -/
inductive Fault
  | crash (message : String)
  | overflow
  | wrapped
  deriving DecidableEq

namespace Builtin

open Ascii

/-- The low bits of a value. -/
def wrap (trap : Bool) (width value : ℕ) : Except Fault ℕ :=
  if value < 2 ^ width then .ok value
  else if trap then .error .wrapped
  else .ok (value % 2 ^ width)

/-- `U32.shl_wrap`. -/
def shlWrap (trap : Bool) (value shift : ℕ) : Except Fault ℕ := wrap trap 32 (value <<< shift)

/-- `U32.to_u16_wrap`. -/
def toU16Wrap (trap : Bool) (value : ℕ) : Except Fault UInt16 :=
  (wrap trap 16 value).map UInt16.ofNat

/-- `U32.to_u8_wrap`. -/
def toU8Wrap (trap : Bool) (value : ℕ) : Except Fault UInt8 := (wrap trap 8 value).map UInt8.ofNat

def add (a b : ℕ) : Except Fault ℕ := if a + b < 2 ^ 32 then .ok (a + b) else .error .overflow

def sub (a b : ℕ) : Except Fault ℕ := if b ≤ a then .ok (a - b) else .error .overflow

/-- `Str.from_utf8`; the error is the index of the problem. -/
def fromUtf8 (badIndex : List UInt8 → ℕ) (bytes : List UInt8) : Except ℕ (List UInt8) :=
  if isUtf8 bytes then .ok bytes else .error (badIndex bytes)

variable {trap : Bool} {value shift a b : ℕ}

theorem shlWrap_of_lt (h : value <<< shift < 2 ^ 32) : shlWrap trap value shift = .ok (value <<< shift) :=
  if_pos h

theorem toU16Wrap_of_lt (h : value < 2 ^ 16) : toU16Wrap trap value = .ok (UInt16.ofNat value) := by
  unfold toU16Wrap wrap
  rw [if_pos h]
  rfl

theorem toU8Wrap_of_lt (h : value < 2 ^ 8) : toU8Wrap trap value = .ok (UInt8.ofNat value) := by
  unfold toU8Wrap wrap
  rw [if_pos h]
  rfl

theorem add_of_lt (h : a + b < 2 ^ 32) : add a b = .ok (a + b) := if_pos h

theorem sub_of_le (h : b ≤ a) : sub a b = .ok (a - b) := if_pos h

theorem fromUtf8_of_isUtf8 {badIndex : List UInt8 → ℕ} {bytes : List UInt8} (h : isUtf8 bytes) :
    fromUtf8 badIndex bytes = .ok bytes := if_pos h

end Builtin

end BasicWebserver.Platform
