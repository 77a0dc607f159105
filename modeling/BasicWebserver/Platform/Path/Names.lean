import BasicWebserver.Platform.Path.Conversion

/-!
# File names and extensions

`filename`, `ext` and `join` of `platform/Path.roc`. A path is a text, bytes or UTF-16 units, and each
operation is written once for each of them. What they compute is one function of a list of letters
and of its separators and dots (`fileNameOf`, `extOf`). The letters of separators and dots are marks in
both encodings, so the function of the encoded letters is the encoding of the function of the
characters (`fileNameOf_flatMap`, `extOf_flatMap`). That is why the representation does not matter
(`names_independent`).
-/

namespace BasicWebserver.Platform

/-- A path, with the tags of its raw form. -/
inductive Path
  | utf8 (str : List UInt8)
  | unixBytes (bytes : List UInt8)
  | windowsU16s (u16s : List UInt16)

namespace Path

open Ascii Builtin Fallible

inductive FilenameErr
  | isDirPath
  | endsInDots
  deriving DecidableEq

/-! ## The operations -/

def unix (str : Str) : Path := .unixBytes str

def windows (trap : Bool) (str : Str) : Except Fault Path := (strToUtf16 trap str).map .windowsU16s

def toStr (trap : Bool) (badIndex : List UInt8 → ℕ) (path : Path) : Except Fault (Except ℕ Str) :=
  match path with
  | .utf8 str => .ok (.ok str)
  | .unixBytes bytes => .ok (fromUtf8 badIndex bytes)
  | .windowsU16s u16s => utf16ToStr trap badIndex u16s

def strFromValidUtf8 (bytes : List UInt8) : Except Fault Str :=
  if isUtf8 bytes then .ok bytes
  else .error (.crash "A valid UTF-8 path contained invalid UTF-8 after ASCII path slicing.")

section

variable {α : Type*} [DecidableEq α]

def endsWith (list : List α) (last : α) : Bool := list.getLast?.any (· = last)

def endsWithTwo (list : List α) (first second : α) : Bool :=
  match list.reverse with
  | last :: beforeLast :: _ => beforeLast = first && last = second
  | _ => false

/-- `List.find_last_index`. -/
def findLastIndex (p : α → Bool) (list : List α) : Option ℕ :=
  (list.reverse.findIdx? p).map (list.length - 1 - ·)

def afterIndex (list : List α) (index : ℕ) : List α :=
  let start := index + 1
  (list.drop start).take (list.length - start)

def extUnits (dot : α) (units : List α) : List α :=
  match units.findIdx? (· = dot) with
  | none => []
  | some 0 =>
    let rest := units.drop 1
    match rest.findIdx? (· = dot) with
    | none => []
    | some dotIndex => afterIndex rest dotIndex
  | some dotIndex => afterIndex units dotIndex

end

def endsWithU8 : List UInt8 → UInt8 → Bool := endsWith

def endsWithU16 : List UInt16 → UInt16 → Bool := endsWith

def endsWithTwoU8 : List UInt8 → UInt8 → UInt8 → Bool := endsWithTwo

def endsWithTwoU16 : List UInt16 → UInt16 → UInt16 → Bool := endsWithTwo

def afterIndexU8 : List UInt8 → ℕ → List UInt8 := afterIndex

def afterIndexU16 : List UInt16 → ℕ → List UInt16 := afterIndex

def extUnitsU8 : List UInt8 → List UInt8 := extUnits 46

def extUnitsU16 : List UInt16 → List UInt16 := extUnits 46

def filename (path : Path) : Except Fault (Except FilenameErr Path) :=
  match path with
  | .utf8 bytes =>
    if endsWithU8 bytes 47 then .ok (.error .isDirPath)
    else if endsWithTwoU8 bytes 46 46 then .ok (.error .endsInDots)
    else match findLastIndex (· = 47) bytes with
      | some lastSepIndex =>
        (strFromValidUtf8 (afterIndexU8 bytes lastSepIndex)).map fun str => .ok (.utf8 str)
      | none => .ok (.ok path)
  | .unixBytes bytes =>
    if endsWithU8 bytes 47 then .ok (.error .isDirPath)
    else if endsWithTwoU8 bytes 46 46 then .ok (.error .endsInDots)
    else match findLastIndex (· = 47) bytes with
      | some lastSepIndex => .ok (.ok (.unixBytes (afterIndexU8 bytes lastSepIndex)))
      | none => .ok (.ok path)
  | .windowsU16s u16s =>
    if endsWithU16 u16s 47 || endsWithU16 u16s 92 then .ok (.error .isDirPath)
    else if endsWithTwoU16 u16s 46 46 then .ok (.error .endsInDots)
    else match findLastIndex (fun u16 => u16 = 47 || u16 = 92) u16s with
      | some lastSepIndex => .ok (.ok (.windowsU16s (afterIndexU16 u16s lastSepIndex)))
      | none => .ok (.ok path)

def ext (path : Path) : Except Fault (Except FilenameErr Path) :=
  filename path >>= fun result =>
    match result with
    | .error err => .ok (.error err)
    | .ok (.utf8 str) => (strFromValidUtf8 (extUnitsU8 str)).map fun str => .ok (.utf8 str)
    | .ok (.unixBytes bytes) => .ok (.ok (.unixBytes (extUnitsU8 bytes)))
    | .ok (.windowsU16s u16s) => .ok (.ok (.windowsU16s (extUnitsU16 u16s)))

def join (trap : Bool) (path : Path) (str : Str) : Except Fault Path :=
  match path with
  | .utf8 pathStr => .ok (.utf8 (pathStr ++ ascii "/" ++ str))
  | .unixBytes bytes => .ok (.unixBytes (bytes ++ [47] ++ str))
  | .windowsU16s u16s => (strToUtf16 trap str).map fun units => .windowsU16s (u16s ++ [92] ++ units)

/-! ## One function of letters -/

section

variable {α β : Type*}

def endsInDots (isDot : α → Bool) (list : List α) : Bool :=
  list.getLast?.any isDot && list.dropLast.getLast?.any isDot

/-- What is after the last separator, of letters that do not end in one or in two dots. -/
def fileNameOf (isSep isDot : α → Bool) (list : List α) : Except FilenameErr (List α) :=
  if list.getLast?.any isSep then .error .isDirPath
  else if endsInDots isDot list then .error .endsInDots
  else .ok (list.rtakeWhile fun a => !isSep a)

/-- What is after the first dot that is not the first letter. -/
def extOf (isDot : α → Bool) (list : List α) : List α :=
  let rest := if list.head?.any isDot then list.drop 1 else list
  (rest.dropWhile fun a => !isDot a).drop 1

theorem endsWithTwo_eq [DecidableEq α] (list : List α) (x : α) :
    endsWithTwo list x x = endsInDots (· = x) list := by
  unfold endsWithTwo endsInDots
  rw [← List.head?_reverse, ← List.head?_reverse, ← List.tail_reverse]
  split
  · rename_i last beforeLast rest h
    rw [h, Bool.and_comm]
    rfl
  · rename_i h
    cases hrev : list.reverse with
    | nil => rfl
    | cons last rest =>
      cases rest with
      | nil => simp
      | cons beforeLast rest => exact absurd hrev (h last beforeLast rest)

theorem suffix_of_endsInDots [DecidableEq α] {list : List α} {x : α}
    (h : endsInDots (· = x) list = true) : [x, x] <:+ list := by
  unfold endsInDots at h
  rw [Bool.and_eq_true] at h
  rcases List.eq_nil_or_concat list with rfl | ⟨init, last, rfl⟩
  · simp at h
  · rw [List.concat_eq_append, List.getLast?_concat, List.dropLast_concat] at h
    rcases List.eq_nil_or_concat init with rfl | ⟨init, beforeLast, rfl⟩
    · simp at h
    · rw [List.concat_eq_append, List.getLast?_concat] at h
      obtain ⟨hlast, hbefore⟩ := h
      obtain rfl : last = x := of_decide_eq_true hlast
      obtain rfl : beforeLast = last := of_decide_eq_true hbefore
      exact ⟨init, by simp⟩

theorem afterIndex_eq [DecidableEq α] (list : List α) (index : ℕ) :
    afterIndex list index = list.drop (index + 1) := by
  unfold afterIndex
  exact List.take_of_length_le (by rw [List.length_drop])

theorem afterFirst_eq [DecidableEq α] (p : α → Bool) (list : List α) :
    (match list.findIdx? p with
      | none => []
      | some index => afterIndex list index) = (list.dropWhile fun a => !p a).drop 1 := by
  rw [List.dropWhile_eq_drop_findIdx_not, List.drop_drop]
  simp only [Bool.not_not]
  cases h : list.findIdx? p with
  | none =>
    rw [List.findIdx?_eq_none_iff_findIdx_eq] at h
    exact (List.drop_eq_nil_of_le (by rw [h]; omega)).symm
  | some index =>
    rw [List.findIdx?_eq_some_iff_findIdx_eq] at h
    dsimp only
    rw [afterIndex_eq, h.2]

theorem afterLast_eq [DecidableEq α] (p : α → Bool) (list : List α) :
    (match findLastIndex p list with
      | some index => afterIndex list index
      | none => list) = list.rtakeWhile fun a => !p a := by
  unfold findLastIndex List.rtakeWhile
  rw [List.takeWhile_eq_take_findIdx_not]
  simp only [Bool.not_not]
  cases h : list.reverse.findIdx? p with
  | none =>
    rw [List.findIdx?_eq_none_iff_findIdx_eq] at h
    rw [h, List.take_length, List.reverse_reverse]
    rfl
  | some index =>
    rw [List.findIdx?_eq_some_iff_findIdx_eq, List.length_reverse] at h
    rw [h.2, List.take_reverse, List.reverse_reverse]
    show afterIndex list (list.length - 1 - index) = _
    rw [afterIndex_eq, show list.length - 1 - index + 1 = list.length - index by omega]

theorem extUnits_eq [DecidableEq α] (dot : α) (units : List α) :
    extUnits dot units = extOf (· = dot) units := by
  have hfirst := afterFirst_eq (· = dot) units
  unfold extUnits extOf
  cases units with
  | nil => rfl
  | cons unit rest =>
    by_cases hunit : unit = dot
    · -- the dot at the start is skipped
      rw [List.findIdx?_cons, if_pos (by simpa using hunit), if_pos (by simpa using hunit)]
      exact afterFirst_eq (· = dot) rest
    · rw [if_neg (by simpa using hunit), ← hfirst, List.findIdx?_cons,
        if_neg (by simpa using hunit)]
      cases rest.findIdx? (· = dot) <;> rfl

variable {e : α → List β} {p p' : α → Bool} {q q' : β → Bool}

theorem endsInDots_flatMap (hdot : Marks e p q) (list : List α) :
    endsInDots q (list.flatMap e) = endsInDots p list := by
  unfold endsInDots
  rw [hdot.getLast?_flatMap]
  cases hlast : list.getLast?.any p with
  | false => rfl
  | true => rw [hdot.dropLast_flatMap hlast, hdot.getLast?_flatMap]

theorem fileNameOf_flatMap (hsep : Marks e p q) (hdot : Marks e p' q') (list : List α) :
    fileNameOf q q' (list.flatMap e) = (fileNameOf p p' list).map (·.flatMap e) := by
  unfold fileNameOf
  rw [endsInDots_flatMap hdot, hsep.getLast?_flatMap, hsep.rtakeWhile_flatMap]
  split_ifs <;> rfl

theorem extOf_flatMap (hdot : Marks e p q) (list : List α) :
    extOf q (list.flatMap e) = (extOf p list).flatMap e := by
  unfold extOf
  rw [hdot.head?_flatMap]
  split_ifs with h
  · rw [hdot.drop_one_flatMap h]
    exact hdot.afterFirst_flatMap _
  · exact hdot.afterFirst_flatMap _

theorem fileNameOf_congr {list : List α} (h : ∀ a ∈ list, p a = p' a) (isDot : α → Bool) :
    fileNameOf p isDot list = fileNameOf p' isDot list := by
  have hlast : list.getLast?.any p = list.getLast?.any p' := by
    cases hl : list.getLast? with
    | none => rfl
    | some a => exact h a (List.mem_of_getLast? hl)
  have htake (l : List α) (hl : ∀ a ∈ l, p a = p' a) :
      l.takeWhile (fun a => !p a) = l.takeWhile fun a => !p' a := by
    induction l with
    | nil => rfl
    | cons a l ih =>
      rw [List.takeWhile_cons, List.takeWhile_cons, hl a List.mem_cons_self,
        ih fun a ha => hl a (List.mem_cons_of_mem _ ha)]
  unfold fileNameOf List.rtakeWhile
  rw [hlast, htake _ fun a ha => h a (List.mem_reverse.mp ha)]

theorem fileNameOf_append {isSep isDot : α → Bool} (list : List α) {sep : α} {name : List α}
    (hsep : isSep sep = true) (hsepDot : isDot sep = false) (hne : name ≠ [])
    (hname : ∀ a ∈ name, isSep a = false) (hdots : endsInDots isDot name = false) :
    fileNameOf isSep isDot (list ++ [sep] ++ name) = .ok name := by
  have htake : (list ++ [sep] ++ name).rtakeWhile (fun a => !isSep a) = name := by
    unfold List.rtakeWhile
    rw [List.reverse_append, List.takeWhile_append_of_pos, List.reverse_concat,
      List.takeWhile_cons_of_neg (by simp [hsep]), List.append_nil, List.reverse_reverse]
    intro a ha
    rw [hname a (List.mem_reverse.mp ha)]
    rfl
  unfold fileNameOf
  rw [htake]
  obtain ⟨init, last, rfl⟩ : ∃ init last, name = init ++ [last] :=
    ⟨_, _, (List.dropLast_append_getLast hne).symm⟩
  have hlast : isSep last = false := hname last (by simp)
  have hdots' : endsInDots isDot (list ++ [sep] ++ (init ++ [last])) = false := by
    unfold endsInDots at hdots ⊢
    rw [← List.append_assoc, List.getLast?_concat, List.dropLast_concat]
    rw [List.getLast?_concat, List.dropLast_concat] at hdots
    rcases List.eq_nil_or_concat init with rfl | ⟨init, beforeLast, rfl⟩
    · rw [List.append_nil, List.getLast?_concat]
      simp [hsepDot]
    · rw [List.concat_eq_append] at hdots ⊢
      rw [← List.append_assoc, List.getLast?_concat]
      rwa [List.getLast?_concat] at hdots
  rw [hdots', ← List.append_assoc, List.getLast?_concat]
  simp [hlast]

end

/-! ## The operations are that function -/

theorem filename_unixBytes (bytes : List UInt8) :
    filename (.unixBytes bytes) =
      .ok ((fileNameOf (· = 47) (· = 46) bytes).map .unixBytes) := by
  have hlast := afterLast_eq (· = 47) bytes
  have hdots : endsWithTwoU8 bytes 46 46 = _ := endsWithTwo_eq bytes 46
  unfold filename fileNameOf
  rw [← hlast, ← hdots]
  dsimp only
  show (if endsWithU8 bytes 47 then _ else _) =
    Except.ok (Except.map _ (if endsWithU8 bytes 47 then _ else _))
  split_ifs
  · rfl
  · rfl
  · cases findLastIndex (· = 47) bytes <;> rfl

theorem filename_windowsU16s (u16s : List UInt16) :
    filename (.windowsU16s u16s) =
      .ok ((fileNameOf (fun u16 => u16 = 47 || u16 = 92) (· = 46) u16s).map .windowsU16s) := by
  have hlast := afterLast_eq (fun u16 => u16 = 47 || u16 = 92) u16s
  have hdots : endsWithTwoU16 u16s 46 46 = _ := endsWithTwo_eq u16s 46
  have hends : (endsWithU16 u16s 47 || endsWithU16 u16s 92) =
      u16s.getLast?.any fun u16 => u16 = 47 || u16 = 92 := by
    unfold endsWithU16 endsWith
    cases u16s.getLast? <;> rfl
  unfold filename fileNameOf
  rw [← hlast, ← hdots, ← hends]
  dsimp only
  split_ifs
  · rfl
  · rfl
  · cases findLastIndex (fun u16 => u16 = 47 || u16 = 92) u16s <;> rfl

theorem filename_utf8 {bytes : List UInt8}
    (h : ∀ name, fileNameOf (· = 47) (· = 46) bytes = .ok name → isUtf8 name) :
    filename (.utf8 bytes) = .ok ((fileNameOf (· = 47) (· = 46) bytes).map .utf8) := by
  have hlast := afterLast_eq (· = 47) bytes
  have hdots : endsWithTwoU8 bytes 46 46 = _ := endsWithTwo_eq bytes 46
  unfold fileNameOf at h ⊢
  unfold filename
  rw [← hlast, ← hdots] at h ⊢
  dsimp only
  change ∀ name, (if endsWithU8 bytes 47 then _ else _) = _ → _ at h
  show (if endsWithU8 bytes 47 then _ else _) =
    Except.ok (Except.map _ (if endsWithU8 bytes 47 then _ else _))
  split_ifs at h ⊢
  · rfl
  · rfl
  · cases hindex : findLastIndex (· = 47) bytes with
    | none => rfl
    | some index =>
      rw [hindex] at h
      have hutf8 := h _ rfl
      show Except.map _ (if isUtf8 (afterIndex bytes index) then _ else _) = _
      rw [if_pos hutf8]
      rfl

/-! ## Separators and dots in the encodings -/

private theorem decide_byte (byte : UInt8) (b : UInt8) :
    decide (byte = b) = decide (byte.toNat = b.toNat) :=
  decide_eq_decide.mpr UInt8.toNat_inj.symm

private theorem decide_unit (unit : UInt16) (b : UInt16) :
    decide (unit = b) = decide (unit.toNat = b.toNat) :=
  decide_eq_decide.mpr UInt16.toNat_inj.symm

theorem marks_byte {b : UInt8} (hb : b.toNat < 128) :
    Marks String.utf8EncodeChar (fun c => decide (c.toNat = b.toNat)) fun byte => byte = b := by
  simp only [decide_byte]
  exact Utf8.marks (p := fun n => n = b.toNat) fun n hn => of_decide_eq_true hn ▸ hb

theorem marks_dot : Marks Utf16.encodeChar (fun c => decide (c.toNat = 46)) fun unit => unit = 46 := by
  simp only [decide_unit]
  exact Utf16.marks (p := fun n => n = 46) fun n hn => of_decide_eq_true hn ▸ by decide

theorem marks_separators : Marks Utf16.encodeChar
    (fun c => decide (c.toNat = 47) || decide (c.toNat = 92)) fun unit => unit = 47 || unit = 92 := by
  simp only [decide_unit]
  refine Utf16.marks (p := fun n => n = 47 || n = 92) fun n hn => ?_
  simp only [Bool.or_eq_true, decide_eq_true_eq] at hn
  omega

/-- The file name of a text of characters, whose only separator is the slash. -/
def charName (chars : List Char) : Except FilenameErr (List Char) :=
  fileNameOf (·.toNat = 47) (·.toNat = 46) chars

def charExt (chars : List Char) : List Char := extOf (·.toNat = 46) chars

theorem fileNameOf_bytes (chars : List Char) :
    fileNameOf (· = 47) (· = 46) (Utf8.encode chars) = (charName chars).map Utf8.encode :=
  fileNameOf_flatMap (marks_byte (b := 47) (by decide)) (marks_byte (b := 46) (by decide)) chars

theorem extOf_bytes (chars : List Char) :
    extOf (· = 46) (Utf8.encode chars) = Utf8.encode (charExt chars) :=
  extOf_flatMap (marks_byte (b := 46) (by decide)) chars

theorem extOf_units (chars : List Char) :
    extOf (· = 46) (Utf16.encode chars) = Utf16.encode (charExt chars) :=
  extOf_flatMap marks_dot chars

theorem fileNameOf_units {chars : List Char} (h : ∀ c ∈ chars, c.toNat ≠ 92) :
    fileNameOf (fun unit : UInt16 => unit = 47 || unit = 92) (· = 46) (Utf16.encode chars) =
      (charName chars).map Utf16.encode := by
  have hsep : fileNameOf (fun c : Char => decide (c.toNat = 47) || decide (c.toNat = 92))
      (·.toNat = 46) chars = charName chars :=
    fileNameOf_congr (fun c hc => by simp [h c hc]) _
  rw [← hsep]
  exact fileNameOf_flatMap marks_separators marks_dot chars

theorem toNat_ne_of_notMem {b : UInt8} (hb : b.toNat < 128) {chars : List Char}
    (h : b ∉ Utf8.encode chars) : ∀ c ∈ chars, c.toNat ≠ b.toNat := by
  intro c hc hcb
  obtain ⟨byte, hbyte, heq⟩ :=
    (marks_byte hb).mem_flatMap.mpr ⟨c, hc, decide_eq_true hcb⟩
  exact h (of_decide_eq_true heq ▸ hbyte)

/-! ## The operations on texts -/

theorem filename_utf8_encode (chars : List Char) :
    filename (.utf8 (Utf8.encode chars)) =
      .ok ((charName chars).map fun name => .utf8 (Utf8.encode name)) := by
  rw [filename_utf8, fileNameOf_bytes]
  · cases charName chars <;> rfl
  · intro name hname
    rw [fileNameOf_bytes] at hname
    cases hchars : charName chars with
    | error err => rw [hchars] at hname; cases hname
    | ok part =>
      rw [hchars] at hname
      obtain rfl := Except.ok.inj hname
      exact Utf8.isUtf8_encode part

theorem filename_unix_encode (chars : List Char) :
    filename (.unixBytes (Utf8.encode chars)) =
      .ok ((charName chars).map fun name => .unixBytes (Utf8.encode name)) := by
  rw [filename_unixBytes, fileNameOf_bytes]
  cases charName chars <;> rfl

theorem filename_windows_encode {chars : List Char} (h : ∀ c ∈ chars, c.toNat ≠ 92) :
    filename (.windowsU16s (Utf16.encode chars)) =
      .ok ((charName chars).map fun name => .windowsU16s (Utf16.encode name)) := by
  rw [filename_windowsU16s, fileNameOf_units h]
  cases charName chars <;> rfl

theorem ext_utf8_encode (chars : List Char) :
    ext (.utf8 (Utf8.encode chars)) =
      .ok ((charName chars).map fun name => .utf8 (Utf8.encode (charExt name))) := by
  unfold ext
  rw [filename_utf8_encode, ok_bind]
  cases charName chars with
  | error err => rfl
  | ok name =>
    have hext : extUnitsU8 (Utf8.encode name) = Utf8.encode (charExt name) :=
      (extUnits_eq 46 _).trans (extOf_bytes name)
    show Except.map _ (strFromValidUtf8 (extUnitsU8 (Utf8.encode name))) = _
    unfold strFromValidUtf8
    rw [hext, if_pos (Utf8.isUtf8_encode _)]
    rfl

theorem ext_unix_encode (chars : List Char) :
    ext (.unixBytes (Utf8.encode chars)) =
      .ok ((charName chars).map fun name => .unixBytes (Utf8.encode (charExt name))) := by
  unfold ext
  rw [filename_unix_encode, ok_bind]
  cases charName chars with
  | error err => rfl
  | ok name =>
    have hext : extUnitsU8 (Utf8.encode name) = Utf8.encode (charExt name) :=
      (extUnits_eq 46 _).trans (extOf_bytes name)
    show Except.ok (Except.ok (Path.unixBytes (extUnitsU8 (Utf8.encode name)))) = _
    rw [hext]
    rfl

theorem ext_windows_encode {chars : List Char} (h : ∀ c ∈ chars, c.toNat ≠ 92) :
    ext (.windowsU16s (Utf16.encode chars)) =
      .ok ((charName chars).map fun name => .windowsU16s (Utf16.encode (charExt name))) := by
  unfold ext
  rw [filename_windows_encode h, ok_bind]
  cases charName chars with
  | error err => rfl
  | ok name =>
    have hext : extUnitsU16 (Utf16.encode name) = Utf16.encode (charExt name) :=
      (extUnits_eq 46 _).trans (extOf_units name)
    show Except.ok (Except.ok (Path.windowsU16s (extUnitsU16 (Utf16.encode name)))) = _
    rw [hext]
    rfl

/-! ## The representations -/

def SameRepresentation : Path → Path → Prop
  | .utf8 _, .utf8 _ => True
  | .unixBytes _, .unixBytes _ => True
  | .windowsU16s _, .windowsU16s _ => True
  | _, _ => False

/-- The same error three times, or three paths with the same text. -/
def SameOutcome (trap : Bool) (badIndex : List UInt8 → ℕ)
    (a b c : Except Fault (Except FilenameErr Path)) : Prop :=
  (∃ err, a = .ok (.error err) ∧ b = .ok (.error err) ∧ c = .ok (.error err)) ∨
    ∃ pa pb pc str, a = .ok (.ok pa) ∧ b = .ok (.ok pb) ∧ c = .ok (.ok pc) ∧
      toStr trap badIndex pa = .ok (.ok str) ∧ toStr trap badIndex pb = .ok (.ok str) ∧
      toStr trap badIndex pc = .ok (.ok str)

theorem sameOutcome_map (trap : Bool) (badIndex : List UInt8 → ℕ)
    (name : Except FilenameErr (List Char)) (part : List Char → List Char) :
    SameOutcome trap badIndex (.ok (name.map fun chars => .utf8 (Utf8.encode (part chars))))
      (.ok (name.map fun chars => .unixBytes (Utf8.encode (part chars))))
      (.ok (name.map fun chars => .windowsU16s (Utf16.encode (part chars)))) := by
  cases name with
  | error err => exact .inl ⟨err, rfl, rfl, rfl⟩
  | ok chars =>
    refine .inr ⟨_, _, _, Utf8.encode (part chars), rfl, rfl, rfl, rfl, ?_, ?_⟩
    · exact congrArg Except.ok (fromUtf8_of_isUtf8 (Utf8.isUtf8_encode _))
    · exact utf16ToStr_encode badIndex _

theorem filename_join (trap : Bool) (badIndex : List UInt8 → ℕ) (path : Path) {name : Str}
    (hutf8 : isUtf8 name) (hne : name ≠ []) (hslash : 47 ∉ name) (hbackslash : 92 ∉ name)
    (hdots : ¬[46, 46] <:+ name) :
    ∃ joined result, join trap path name = .ok joined ∧ filename joined = .ok (.ok result) ∧
      SameRepresentation result path ∧ toStr trap badIndex result = .ok (.ok name) := by
  have hdotsBytes : endsInDots (· = 46) name = false := by
    rw [← Bool.not_eq_true]
    exact fun h => hdots (suffix_of_endsInDots h)
  have hbytes (bytes : List UInt8) :
      fileNameOf (· = 47) (· = 46) (bytes ++ [47] ++ name) = .ok name := by
    refine fileNameOf_append bytes (by decide) (by decide) hne (fun b hb => ?_) hdotsBytes
    exact decide_eq_false fun h => hslash (h ▸ hb)
  cases path with
  | utf8 str =>
    refine ⟨.utf8 (str ++ ascii "/" ++ name), .utf8 name, rfl, ?_, trivial, rfl⟩
    show filename (.utf8 (str ++ [47] ++ name)) = _
    rw [filename_utf8, hbytes]
    · rfl
    · intro part hpart
      rw [hbytes] at hpart
      exact Except.ok.inj hpart ▸ hutf8
  | unixBytes bytes =>
    refine ⟨.unixBytes (bytes ++ [47] ++ name), .unixBytes name, rfl, ?_, trivial, ?_⟩
    · rw [filename_unixBytes, hbytes]
      rfl
    · exact congrArg Except.ok (fromUtf8_of_isUtf8 hutf8)
  | windowsU16s u16s =>
    obtain ⟨chars, rfl⟩ := Utf8.isUtf8_iff.mp hutf8
    have hunits : fileNameOf (fun unit : UInt16 => unit = 47 || unit = 92) (· = 46)
        (u16s ++ [92] ++ Utf16.encode chars) = .ok (Utf16.encode chars) := by
      refine fileNameOf_append u16s (by decide) (by decide) ?_ (fun unit hunit => ?_) ?_
      · rintro hnil
        cases chars with
        | nil => exact hne rfl
        | cons c chars => exact marks_dot.ne_nil c (List.append_eq_nil_iff.mp hnil).1
      · rw [← Bool.not_eq_true]
        intro hsep
        obtain ⟨c, hc, hchar⟩ := marks_separators.mem_flatMap.mp ⟨unit, hunit, hsep⟩
        rw [Bool.or_eq_true, decide_eq_true_eq, decide_eq_true_eq] at hchar
        rcases hchar with h | h
        · exact toNat_ne_of_notMem (b := 47) (by decide) hslash c hc h
        · exact toNat_ne_of_notMem (b := 92) (by decide) hbackslash c hc h
      · have hchars := endsInDots_flatMap (marks_byte (b := 46) (by decide)) chars
        exact (endsInDots_flatMap marks_dot chars).trans (hchars.symm.trans hdotsBytes)
    refine ⟨.windowsU16s (u16s ++ [92] ++ Utf16.encode chars), .windowsU16s (Utf16.encode chars),
      ?_, ?_, trivial, utf16ToStr_encode badIndex chars⟩
    · unfold join
      dsimp only
      rw [strToUtf16_encode]
      rfl
    · rw [filename_windowsU16s, hunits]
      rfl

/-- **Names do not depend on the representation.** The file name and the extension of a text without
backslashes are the same texts, or the same error, for the paths in all three representations. A name
without separators that does not end in two dots is the file name of any path it is joined to, in the
path's own representation. And no text is cut inside a character, so that none of this stops. -/
theorem names_independent (trap : Bool) (badIndex : List UInt8 → ℕ) :
    (∀ s, isUtf8 s → 92 ∉ s → ∃ w, windows trap s = .ok w ∧
      SameOutcome trap badIndex (filename (.utf8 s)) (filename (unix s)) (filename w) ∧
      SameOutcome trap badIndex (ext (.utf8 s)) (ext (unix s)) (ext w)) ∧
    (∀ path name, isUtf8 name → name ≠ [] → 47 ∉ name → 92 ∉ name → ¬[46, 46] <:+ name →
      ∃ joined result, join trap path name = .ok joined ∧ filename joined = .ok (.ok result) ∧
        SameRepresentation result path ∧ toStr trap badIndex result = .ok (.ok name)) ∧
    ∀ s, isUtf8 s →
      (∃ result, filename (.utf8 s) = .ok result) ∧ ∃ result, ext (.utf8 s) = .ok result := by
  refine ⟨fun s hs hbackslash => ?_, fun path name hutf8 hne hslash hbackslash hdots =>
    filename_join trap badIndex path hutf8 hne hslash hbackslash hdots, fun s hs => ?_⟩
  · obtain ⟨chars, rfl⟩ := Utf8.isUtf8_iff.mp hs
    have hchars := toNat_ne_of_notMem (b := 92) (by decide) hbackslash
    refine ⟨.windowsU16s (Utf16.encode chars), ?_, ?_, ?_⟩
    · unfold windows
      rw [strToUtf16_encode]
      rfl
    · unfold unix
      rw [filename_utf8_encode, filename_unix_encode, filename_windows_encode hchars]
      exact sameOutcome_map trap badIndex (charName chars) id
    · unfold unix
      rw [ext_utf8_encode, ext_unix_encode, ext_windows_encode hchars]
      exact sameOutcome_map trap badIndex (charName chars) charExt
  · obtain ⟨chars, rfl⟩ := Utf8.isUtf8_iff.mp hs
    exact ⟨⟨_, filename_utf8_encode chars⟩, _, ext_utf8_encode chars⟩

end Path

end BasicWebserver.Platform
