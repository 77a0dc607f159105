import Mathlib.Algebra.Group.Int.Defs
import Mathlib.Algebra.Group.Nat.Defs
import Mathlib.Tactic.Common
import BasicWebserver.Foundation.Fallible

/-!
# Timestamps

`src/time.rs`, which takes the system clock's times to nanoseconds and back, and the timestamps of
`platform/UnixTime.roc` that are built from them. Arithmetic of 128 bits fails where it would overflow.
The host divides magnitudes and truncates, the platform rounds down; on both sides a time is its
seconds and nanoseconds (`systemTimeFromUnixParts_eq`, `fromNanosSinceEpoch_eq`).
-/

namespace BasicWebserver.Platform.UnixTime

open Fallible

/-! ## Integers -/

inductive Failure
  | invalidInput (message : String)
  | other (message : String)
  | overflow
  deriving DecidableEq

/-- The result of an operation on `i128`. -/
def i128 (value : ℤ) : Except Failure ℤ :=
  if -2 ^ 127 ≤ value ∧ value < 2 ^ 127 then .ok value else .error .overflow

theorem i128_eq {value : ℤ} (h : -2 ^ 127 ≤ value ∧ value < 2 ^ 127) : i128 value = .ok value := if_pos h

/-- A number of nanoseconds that is less than a second. -/
abbrev Nanos := Fin 1000000000

/-! ## The system clock -/

/-- `std::time::Duration`. -/
structure Duration where
  secs : UInt64
  nanos : Nanos
  deriving DecidableEq

def Duration.asNanos (duration : Duration) : ℕ := duration.secs.toNat * 1000000000 + duration.nanos

/-- The duration of so many nanoseconds. -/
def Duration.ofNanos (nanos : ℕ) : Duration :=
  ⟨UInt64.ofNat (nanos / 1000000000), nanos % 1000000000, Nat.mod_lt _ (by decide)⟩

/-- `Duration::new`, which carries whole seconds over. -/
def Duration.new (secs : UInt64) (nanos : UInt32) : Except Failure Duration :=
  let carried := secs.toNat + nanos.toNat / 1000000000
  if carried < 2 ^ 64 then
    .ok ⟨UInt64.ofNat carried, nanos.toNat % 1000000000, Nat.mod_lt _ (by decide)⟩
  else .error .overflow

/-- `std::time::SystemTime`: every pair of seconds and normalised nanoseconds. -/
structure SystemTime where
  seconds : Int64
  nanos : Nanos
  deriving DecidableEq

namespace SystemTime

def unixEpoch : SystemTime := ⟨0, 0⟩

/-- The nanoseconds from the epoch to the time. -/
def value (time : SystemTime) : ℤ := time.seconds.toInt * 1000000000 + (time.nanos.val : ℤ)

/-- The time that is so many nanoseconds after the epoch, if there is one. -/
def ofValue (value : ℤ) : Option SystemTime :=
  if -2 ^ 63 ≤ value / 1000000000 ∧ value / 1000000000 < 2 ^ 63 then
    some ⟨Int64.ofInt (value / 1000000000), (value % 1000000000).toNat, by omega⟩
  else none

/-- Durations are added and subtracted exactly. -/
def checkedAdd (time : SystemTime) (duration : Duration) : Option SystemTime :=
  ofValue (time.value + duration.asNanos)

def checkedSub (time : SystemTime) (duration : Duration) : Option SystemTime :=
  ofValue (time.value - duration.asNanos)

/-- The duration since an earlier time, or the one until a later time. -/
def durationSince (time earlier : SystemTime) : Except Duration Duration :=
  let elapsed := time.value - earlier.value
  if 0 ≤ elapsed then .ok (Duration.ofNanos elapsed.natAbs)
  else .error (Duration.ofNanos elapsed.natAbs)

def Before (time later : SystemTime) : Prop :=
  time.seconds < later.seconds ∨ (time.seconds = later.seconds ∧ time.nanos < later.nanos)

end SystemTime

/-! ## `src/time.rs` -/

/-- A number of nanoseconds as `i128`. -/
def i128TryFrom (nanos : ℕ) : Except Failure ℤ :=
  if nanos < 2 ^ 127 then .ok nanos else .error (.other "timestamp is outside the signed nanosecond range")

def nanosSinceUnixEpoch (time : SystemTime) : Except Failure ℤ :=
  match time.durationSince SystemTime.unixEpoch with
  | .ok duration => i128TryFrom duration.asNanos
  | .error duration => do
    let nanos ← i128TryFrom duration.asNanos
    i128 (-nanos)

def u64TryFrom (value : ℤ) (message : String) : Except Failure UInt64 :=
  if 0 ≤ value ∧ value < 2 ^ 64 then .ok (UInt64.ofNat value.toNat) else .error (.other message)

def u32TryFrom (value : ℤ) (message : String) : Except Failure UInt32 :=
  if 0 ≤ value ∧ value < 2 ^ 32 then .ok (UInt32.ofNat value.toNat) else .error (.other message)

/-- The seconds and nanoseconds of a number of nanoseconds. -/
def durationOf (nanoseconds : ℤ) : Except Failure Duration := do
  let seconds ← u64TryFrom (nanoseconds.tdiv 1000000000) "timestamp seconds are out of range"
  let nanoseconds ← u32TryFrom (nanoseconds.tmod 1000000000) "timestamp nanoseconds are out of range"
  Duration.new seconds nanoseconds

def systemTimeFromUnixParts (seconds nanoseconds : Int64) : Except Failure SystemTime :=
  if ¬ (0 ≤ nanoseconds ∧ nanoseconds < 1000000000) then
    .error (.invalidInput "timestamp fractional nanoseconds are not normalized")
  else do
    let product ← i128 (seconds.toInt * 1000000000)
    let totalNanoseconds ← i128 (product + nanoseconds.toInt)
    if 0 ≤ totalNanoseconds then do
      let duration ← durationOf totalNanoseconds
      (SystemTime.unixEpoch.checkedAdd duration).elim
        (.error (.other "timestamp is outside the system clock range")) .ok
    else do
      let duration ← durationOf totalNanoseconds.natAbs
      (SystemTime.unixEpoch.checkedSub duration).elim
        (.error (.other "timestamp is outside the system clock range")) .ok

/-! ## `platform/UnixTime.roc` -/

structure Timestamp where
  seconds : Int64
  nanosecond : UInt32
  normalized : nanosecond < 1000000000
  deriving DecidableEq

inductive TimestampErr
  | invalidNanosecond
  | outOfRange
  deriving DecidableEq

namespace Timestamp

def fromParts (seconds : Int64) (nanosecond : UInt32) : Except TimestampErr Timestamp :=
  if h : nanosecond < 1000000000 then .ok ⟨seconds, nanosecond, h⟩ else .error .invalidNanosecond

/-- `I128.div_floor_by` and `I128.mod_by` round down; a number of seconds or nanoseconds that does not
fit is out of range. -/
def fromNanosSinceEpoch (nanos : ℤ) : Except TimestampErr Timestamp :=
  let seconds := nanos / 1000000000
  let nanosecond := nanos % 1000000000
  if (-2 ^ 63 ≤ seconds ∧ seconds < 2 ^ 63) ∧ (0 ≤ nanosecond ∧ nanosecond < 2 ^ 32) then
    .ok ⟨Int64.ofInt seconds, UInt32.ofNat nanosecond.toNat, by
      have hlt : nanosecond.toNat < 1000000000 := by omega
      rw [UInt32.lt_iff_toNat_lt, UInt32.toNat_ofNat', Nat.mod_eq_of_lt (by omega)]
      exact hlt⟩
  else .error .outOfRange

def nanosSinceEpoch (timestamp : Timestamp) : Except Failure ℤ := do
  let product ← i128 (timestamp.seconds.toInt * 1000000000)
  i128 (product + timestamp.nanosecond.toNat)

def differenceNanos (earlier later : Timestamp) : Except Failure ℤ := do
  let laterNanos ← later.nanosSinceEpoch
  let earlierNanos ← earlier.nanosSinceEpoch
  i128 (laterNanos - earlierNanos)

def Before (earlier later : Timestamp) : Prop :=
  earlier.seconds < later.seconds ∨
    (earlier.seconds = later.seconds ∧ earlier.nanosecond < later.nanosecond)

/-- The nanoseconds from the epoch to the timestamp. -/
def value (timestamp : Timestamp) : ℤ :=
  timestamp.seconds.toInt * 1000000000 + (timestamp.nanosecond.toNat : ℤ)

end Timestamp

/-! ## Seconds and nanoseconds as one number -/

theorem parts_bounds {s n : ℤ} (hs : -2 ^ 63 ≤ s ∧ s < 2 ^ 63) (hn : 0 ≤ n ∧ n < 1000000000) :
    (-2 ^ 127 ≤ s * 1000000000 ∧ s * 1000000000 < 2 ^ 127) ∧
      (-2 ^ 127 ≤ s * 1000000000 + n ∧ s * 1000000000 + n < 2 ^ 127) := by
  omega

theorem int64_bounds (s : Int64) : -2 ^ 63 ≤ s.toInt ∧ s.toInt < 2 ^ 63 := ⟨s.le_toInt, s.toInt_lt⟩

theorem parts_lt_iff {s n s' n' : ℤ} (hn : 0 ≤ n ∧ n < 1000000000) (hn' : 0 ≤ n' ∧ n' < 1000000000) :
    s * 1000000000 + n < s' * 1000000000 + n' ↔ s < s' ∨ (s = s' ∧ n < n') := by
  omega

namespace SystemTime

theorem nanos_bounds (time : SystemTime) :
    (0 : ℤ) ≤ (time.nanos.val : ℤ) ∧ (time.nanos.val : ℤ) < 1000000000 := by
  have hlt := time.nanos.isLt
  omega

theorem ofValue_value (time : SystemTime) : ofValue time.value = some time := by
  have hs := int64_bounds time.seconds
  have hn := time.nanos_bounds
  have hdiv : time.value / 1000000000 = time.seconds.toInt := by unfold value; omega
  have hmod : (time.value % 1000000000).toNat = time.nanos.val := by unfold value; omega
  unfold ofValue
  rw [if_pos (by omega)]
  simp only [hdiv, hmod, Int64.ofInt_toInt]

theorem before_iff (time later : SystemTime) : time.Before later ↔ time.value < later.value := by
  unfold Before value
  rw [parts_lt_iff time.nanos_bounds later.nanos_bounds, Int64.lt_iff_toInt_lt, Int64.toInt_inj,
    Int.ofNat_lt]
  rfl

end SystemTime

theorem durationSince_unixEpoch (time : SystemTime) : ∃ duration : Duration,
    duration.asNanos = time.value.natAbs ∧ time.durationSince SystemTime.unixEpoch =
      if 0 ≤ time.value then .ok duration else .error duration := by
  have hs := int64_bounds time.seconds
  have hn := time.nanos_bounds
  have hvalue : time.value = time.seconds.toInt * 1000000000 + (time.nanos.val : ℤ) := rfl
  have hepoch : time.value - SystemTime.unixEpoch.value = time.value := Int.sub_zero _
  unfold SystemTime.durationSince
  rw [hepoch]
  refine ⟨_, ?_, rfl⟩
  have hsecs : time.value.natAbs / 1000000000 < 2 ^ 64 := by omega
  unfold Duration.asNanos Duration.ofNanos
  dsimp only
  rw [UInt64.toNat_ofNat', Nat.mod_eq_of_lt hsecs]
  exact Nat.div_add_mod' _ _

theorem nanosSinceUnixEpoch_eq (time : SystemTime) : nanosSinceUnixEpoch time = .ok time.value := by
  have hs := int64_bounds time.seconds
  have hn := time.nanos_bounds
  have hvalue : time.value = time.seconds.toInt * 1000000000 + (time.nanos.val : ℤ) := rfl
  obtain ⟨duration, hnanos, hsince⟩ := durationSince_unixEpoch time
  have hfits : i128TryFrom duration.asNanos = .ok (time.value.natAbs : ℤ) := by
    rw [hnanos, i128TryFrom, if_pos (by omega)]
  unfold nanosSinceUnixEpoch
  rw [hsince]
  by_cases hsign : 0 ≤ time.value
  · rw [if_pos hsign]
    exact hfits.trans (congrArg Except.ok (Int.natAbs_of_nonneg hsign))
  · rw [if_neg hsign]
    dsimp only
    rw [hfits, ok_bind, i128_eq (by omega)]
    exact congrArg Except.ok (by omega)

theorem Duration.new_of_lt {secs : UInt64} {nanos : UInt32} (h : nanos.toNat < 1000000000) :
    Duration.new secs nanos = .ok ⟨secs, nanos.toNat, h⟩ := by
  have hdiv : nanos.toNat / 1000000000 = 0 := Nat.div_eq_of_lt h
  have hmod : nanos.toNat % 1000000000 = nanos.toNat := Nat.mod_eq_of_lt h
  unfold Duration.new
  simp only [hdiv, hmod, Nat.add_zero, UInt64.ofNat_toNat]
  exact if_pos secs.toNat_lt

theorem durationOf_eq {n : ℕ} (h : n / 1000000000 < 2 ^ 64) :
    ∃ duration, durationOf n = .ok duration ∧ duration.asNanos = n := by
  have hdiv : (n : ℤ).tdiv 1000000000 = ((n / 1000000000 : ℕ) : ℤ) := rfl
  have hmod : (n : ℤ).tmod 1000000000 = ((n % 1000000000 : ℕ) : ℤ) := rfl
  have hlt : n % 1000000000 < 1000000000 := Nat.mod_lt n (by decide)
  have hsecs : (UInt64.ofNat (n / 1000000000)).toNat = n / 1000000000 := by
    rw [UInt64.toNat_ofNat', Nat.mod_eq_of_lt h]
  have hnanos : (UInt32.ofNat (n % 1000000000)).toNat = n % 1000000000 := by
    rw [UInt32.toNat_ofNat', Nat.mod_eq_of_lt (by omega)]
  unfold durationOf
  rw [hdiv, hmod, u64TryFrom, if_pos (by omega), ok_bind, u32TryFrom, if_pos (by omega), ok_bind,
    Int.toNat_natCast, Int.toNat_natCast, Duration.new_of_lt (by rw [hnanos]; exact hlt)]
  refine ⟨_, rfl, ?_⟩
  unfold Duration.asNanos
  dsimp only
  rw [hsecs, hnanos]
  exact Nat.div_add_mod' n 1000000000

theorem systemTimeFromUnixParts_eq (time : SystemTime) (nanoseconds : Int64)
    (h : nanoseconds.toInt = time.nanos.val) :
    systemTimeFromUnixParts time.seconds nanoseconds = .ok time := by
  have hs := int64_bounds time.seconds
  have hn := time.nanos_bounds
  have hvalue : time.seconds.toInt * 1000000000 + nanoseconds.toInt = time.value := by rw [h]; rfl
  have hbounds := parts_bounds hs hn
  rw [← h] at hn hbounds
  have hnormal : 0 ≤ nanoseconds ∧ nanoseconds < 1000000000 :=
    ⟨Int64.le_iff_toInt_le.mpr hn.1, Int64.lt_iff_toInt_lt.mpr hn.2⟩
  unfold systemTimeFromUnixParts
  rw [if_neg (not_not.mpr hnormal), i128_eq hbounds.1, ok_bind, i128_eq hbounds.2, ok_bind, hvalue]
  rw [hvalue] at hbounds
  have hepoch : SystemTime.unixEpoch.value = 0 := rfl
  obtain ⟨duration, hduration, hnanos⟩ := durationOf_eq (n := time.value.natAbs) (by omega)
  by_cases hsign : 0 ≤ time.value
  · rw [if_pos hsign, ← Int.natAbs_of_nonneg hsign, hduration, ok_bind, SystemTime.checkedAdd, hepoch,
      hnanos, Int.zero_add, Int.natAbs_of_nonneg hsign, SystemTime.ofValue_value]
    rfl
  · have hneg : (0 : ℤ) - time.value.natAbs = time.value := by omega
    rw [if_neg hsign, hduration, ok_bind, SystemTime.checkedSub, hepoch, hnanos, hneg,
      SystemTime.ofValue_value]
    rfl

namespace Timestamp

theorem nanosecond_bounds (timestamp : Timestamp) :
    (0 : ℤ) ≤ (timestamp.nanosecond.toNat : ℤ) ∧ (timestamp.nanosecond.toNat : ℤ) < 1000000000 := by
  have hlt : timestamp.nanosecond.toNat < 1000000000 := UInt32.lt_iff_toNat_lt.mp timestamp.normalized
  omega

theorem nanosSinceEpoch_eq (timestamp : Timestamp) :
    timestamp.nanosSinceEpoch = .ok timestamp.value := by
  have hbounds := parts_bounds (int64_bounds timestamp.seconds) timestamp.nanosecond_bounds
  unfold nanosSinceEpoch
  rw [i128_eq hbounds.1, ok_bind, i128_eq hbounds.2]
  rfl

theorem value_bounds (timestamp : Timestamp) :
    -2 ^ 63 * 1000000000 ≤ timestamp.value ∧ timestamp.value < 2 ^ 63 * 1000000000 := by
  have hs := int64_bounds timestamp.seconds
  have hn := timestamp.nanosecond_bounds
  unfold value
  omega

theorem differenceNanos_eq (earlier later : Timestamp) :
    differenceNanos earlier later = .ok (later.value - earlier.value) := by
  have hlater := later.value_bounds
  have hearlier := earlier.value_bounds
  unfold differenceNanos
  rw [nanosSinceEpoch_eq, ok_bind, nanosSinceEpoch_eq, ok_bind]
  exact i128_eq (by omega)

theorem fromNanosSinceEpoch_value (timestamp : Timestamp) :
    fromNanosSinceEpoch timestamp.value = .ok timestamp := by
  have hs := int64_bounds timestamp.seconds
  have hn := timestamp.nanosecond_bounds
  have hdiv : timestamp.value / 1000000000 = timestamp.seconds.toInt := by unfold value; omega
  have hmod : timestamp.value % 1000000000 = (timestamp.nanosecond.toNat : ℤ) := by unfold value; omega
  unfold fromNanosSinceEpoch
  dsimp only
  rw [if_pos (by omega)]
  simp only [hdiv, hmod, Int64.ofInt_toInt, Int.toNat_natCast, UInt32.ofNat_toNat]

theorem value_of_fromNanosSinceEpoch {nanos : ℤ} {timestamp : Timestamp}
    (h : fromNanosSinceEpoch nanos = .ok timestamp) : timestamp.value = nanos := by
  unfold fromNanosSinceEpoch at h
  dsimp only at h
  split_ifs at h with hfits
  cases h
  have hmod : (nanos % 1000000000).toNat < 2 ^ 32 := by omega
  unfold value
  dsimp only
  rw [Int64.toInt_ofInt_of_le hfits.1.1 hfits.1.2, UInt32.toNat_ofNat', Nat.mod_eq_of_lt hmod]
  omega

theorem fromNanosSinceEpoch_isOk_iff (nanos : ℤ) :
    (∃ timestamp, fromNanosSinceEpoch nanos = .ok timestamp) ↔
      -2 ^ 63 ≤ nanos / 1000000000 ∧ nanos / 1000000000 < 2 ^ 63 := by
  unfold fromNanosSinceEpoch
  dsimp only
  split_ifs with hfits
  · exact iff_of_true ⟨_, rfl⟩ hfits.1
  · exact iff_of_false (fun ⟨_, h⟩ => nomatch h) fun h => hfits ⟨h, by omega⟩

theorem before_iff (earlier later : Timestamp) : earlier.Before later ↔ earlier.value < later.value := by
  unfold Before value
  rw [parts_lt_iff earlier.nanosecond_bounds later.nanosecond_bounds, Int64.lt_iff_toInt_lt,
    Int64.toInt_inj, Int.ofNat_lt, UInt32.lt_iff_toNat_lt]

end Timestamp

/-- **Timestamps survive the host boundary.** Normalised parts become a time, its nanoseconds and a
timestamp with the same parts; nanoseconds are a timestamp exactly if their seconds fit, and the same
nanoseconds again; the order stays, and nothing overflows. -/
theorem timestamps_survive (s n : Int64) (nanos : ℤ) (earlier later : Timestamp)
    (time time' : SystemTime) :
    (0 ≤ n.toInt ∧ n.toInt < 10 ^ 9 → ∃ made timestamp, systemTimeFromUnixParts s n = .ok made ∧
      nanosSinceUnixEpoch made = .ok (s.toInt * 10 ^ 9 + n.toInt) ∧
      Timestamp.fromNanosSinceEpoch (s.toInt * 10 ^ 9 + n.toInt) = .ok timestamp ∧
      timestamp.seconds = s ∧ (timestamp.nanosecond.toNat : ℤ) = n.toInt) ∧
    (¬ (0 ≤ n.toInt ∧ n.toInt < 10 ^ 9) → ∃ message,
      systemTimeFromUnixParts s n = .error (.invalidInput message)) ∧
    ((∃ timestamp, Timestamp.fromNanosSinceEpoch nanos = .ok timestamp) ↔
      -2 ^ 63 ≤ nanos / 10 ^ 9 ∧ nanos / 10 ^ 9 < 2 ^ 63) ∧
    (∀ timestamp, Timestamp.fromNanosSinceEpoch nanos = .ok timestamp →
      timestamp.nanosSinceEpoch = .ok nanos) ∧
    (∃ value, earlier.nanosSinceEpoch = .ok value ∧ Timestamp.fromNanosSinceEpoch value = .ok earlier) ∧
    (∃ a b, earlier.nanosSinceEpoch = .ok a ∧ later.nanosSinceEpoch = .ok b ∧
      (earlier.Before later ↔ a < b) ∧ Timestamp.differenceNanos earlier later = .ok (b - a)) ∧
    (∃ a b, nanosSinceUnixEpoch time = .ok a ∧ nanosSinceUnixEpoch time' = .ok b ∧
      (time.Before time' ↔ a < b)) := by
  refine ⟨fun hn => ?_, fun hn => ?_, Timestamp.fromNanosSinceEpoch_isOk_iff nanos, fun timestamp h => ?_,
    ⟨_, earlier.nanosSinceEpoch_eq, earlier.fromNanosSinceEpoch_value⟩,
    ⟨_, _, earlier.nanosSinceEpoch_eq, later.nanosSinceEpoch_eq, earlier.before_iff later,
      Timestamp.differenceNanos_eq earlier later⟩,
    ⟨_, _, nanosSinceUnixEpoch_eq time, nanosSinceUnixEpoch_eq time', time.before_iff time'⟩⟩
  · obtain ⟨k, hk⟩ := Int.eq_ofNat_of_zero_le hn.1
    have hlt : k < 1000000000 := by omega
    have hnanos : (UInt32.ofNat k).toNat = k := by
      rw [UInt32.toNat_ofNat', Nat.mod_eq_of_lt (by omega)]
    have hmade := systemTimeFromUnixParts_eq ⟨s, k, hlt⟩ n hk
    let timestamp : Timestamp :=
      ⟨s, UInt32.ofNat k, UInt32.lt_iff_toNat_lt.mpr (by rw [hnanos]; exact hlt)⟩
    have hvalue : timestamp.value = s.toInt * 10 ^ 9 + n.toInt := by
      show s.toInt * 1000000000 + ((UInt32.ofNat k).toNat : ℤ) = _
      rw [hnanos, hk]
      rfl
    refine ⟨_, timestamp, hmade, ?_, ?_, rfl, ?_⟩
    · rw [nanosSinceUnixEpoch_eq, hk]
      rfl
    · rw [← hvalue]
      exact timestamp.fromNanosSinceEpoch_value
    · show ((UInt32.ofNat k).toNat : ℤ) = _
      rw [hnanos, hk]
  · refine ⟨_, if_pos fun hnormal => hn ⟨?_, ?_⟩⟩
    · exact Int64.le_iff_toInt_le.mp hnormal.1
    · exact Int64.lt_iff_toInt_lt.mp hnormal.2
  · rw [timestamp.nanosSinceEpoch_eq, Timestamp.value_of_fromNanosSinceEpoch h]

end BasicWebserver.Platform.UnixTime
