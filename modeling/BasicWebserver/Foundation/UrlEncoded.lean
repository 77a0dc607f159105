import Mathlib.Data.Finmap
import Mathlib.Data.List.TakeWhile
import BasicWebserver.Foundation.Splitting

/-!
# Form bodies

The `application/x-www-form-urlencoded` parser of the URL standard: a body is split at ampersands,
empty pieces are ignored, a piece is split at its first equals sign, a plus sign is a space and
escapes are decoded once. A body whose escapes are well formed can be decoded piece by piece
(`wellFormed_append_cons`), and its dictionary has the last value of each name (`lookup_ofFields`).
-/

namespace UrlEncoded

open Splitting

abbrev Bytes := List UInt8

/-! ## Escapes -/

def hexDigit (b : UInt8) : Option UInt8 :=
  if 48 ≤ b ∧ b ≤ 57 then some (b - 48)
  else if 65 ≤ b ∧ b ≤ 70 then some (b - 55)
  else if 97 ≤ b ∧ b ≤ 102 then some (b - 87)
  else none

def percentDecode : Bytes → Bytes
  | [] => []
  | b :: rest =>
    let asItIs := b :: percentDecode rest
    if b = 37 then
      match rest with
      | hi :: lo :: rest =>
        match hexDigit hi, hexDigit lo with
        | some h, some l => (h * 16 + l) :: percentDecode rest
        | _, _ => asItIs
      | _ => asItIs
    else asItIs

def plusToSpace (b : UInt8) : UInt8 := if b = 43 then 32 else b

def decode (component : Bytes) : Bytes := percentDecode (component.map plusToSpace)

/-- Every percent sign is followed by two hexadecimal digits. -/
inductive WellFormed : Bytes → Prop
  | nil : WellFormed []
  | escape {hi lo h l : UInt8} {rest : Bytes} (hhi : hexDigit hi = some h) (hlo : hexDigit lo = some l)
      (hrest : WellFormed rest) : WellFormed (37 :: hi :: lo :: rest)
  | byte {b : UInt8} {rest : Bytes} (hb : b ≠ 37) (hrest : WellFormed rest) : WellFormed (b :: rest)

theorem plusToSpace_of_hexDigit {b h : UInt8} (hb : hexDigit b = some h) : plusToSpace b = b := by
  refine if_neg ?_
  rintro rfl
  cases hb

theorem decode_escape {hi lo h l : UInt8} (hhi : hexDigit hi = some h) (hlo : hexDigit lo = some l)
    (rest : Bytes) : decode (37 :: hi :: lo :: rest) = (h * 16 + l) :: decode rest := by
  unfold decode
  rw [List.map_cons, List.map_cons, List.map_cons, plusToSpace_of_hexDigit hhi,
    plusToSpace_of_hexDigit hlo, show plusToSpace 37 = 37 from rfl, percentDecode.eq_def]
  simp [hhi, hlo]

theorem decode_byte {b : UInt8} (hb : b ≠ 37) (rest : Bytes) :
    decode (b :: rest) = plusToSpace b :: decode rest := by
  have hplus : plusToSpace b ≠ 37 := by
    unfold plusToSpace
    split_ifs
    · decide
    · exact hb
  unfold decode
  rw [List.map_cons, percentDecode.eq_def]
  exact if_neg hplus

theorem decode_eq_nil {l : Bytes} (h : WellFormed l) : decode l = [] ↔ l = [] := by
  cases h with
  | nil => exact iff_of_true rfl rfl
  | escape hhi hlo _ =>
    rw [decode_escape hhi hlo]
    exact iff_of_false (List.cons_ne_nil _ _) (List.cons_ne_nil _ _)
  | byte hb _ =>
    rw [decode_byte hb]
    exact iff_of_false (List.cons_ne_nil _ _) (List.cons_ne_nil _ _)

theorem wellFormed_append_cons {a b : Bytes} {c : UInt8} (hc : hexDigit c = none) (hne : c ≠ 37) :
    WellFormed (a ++ c :: b) ↔ WellFormed a ∧ WellFormed b := by
  constructor
  · intro h
    generalize hl : a ++ c :: b = l at h
    induction h generalizing a with
    | nil => exact absurd hl (by simp)
    | @escape hi lo h l rest hhi hlo hrest ih =>
      match a with
      | [] => exact absurd (List.cons.inj hl).1 hne
      | [x] =>
        obtain ⟨-, hl⟩ := List.cons.inj hl
        obtain ⟨rfl, -⟩ := List.cons.inj hl
        rw [hc] at hhi
        cases hhi
      | [x, y] =>
        obtain ⟨-, hl⟩ := List.cons.inj hl
        obtain ⟨-, hl⟩ := List.cons.inj hl
        obtain ⟨rfl, -⟩ := List.cons.inj hl
        rw [hc] at hlo
        cases hlo
      | x :: y :: z :: a =>
        obtain ⟨hx, hl⟩ := List.cons.inj hl
        obtain ⟨hy, hl⟩ := List.cons.inj hl
        obtain ⟨hz, hl⟩ := List.cons.inj hl
        obtain ⟨ha, hb⟩ := ih hl
        rw [hx, hy, hz]
        exact ⟨.escape hhi hlo ha, hb⟩
    | @byte x rest hx hrest ih =>
      match a with
      | [] =>
        obtain ⟨rfl, rfl⟩ := List.cons.inj hl
        exact ⟨.nil, hrest⟩
      | y :: a =>
        obtain ⟨hy, hl⟩ := List.cons.inj hl
        obtain ⟨ha, hb⟩ := ih hl
        rw [hy]
        exact ⟨.byte hx ha, hb⟩
  · rintro ⟨ha, hb⟩
    induction ha with
    | nil => exact .byte hne hb
    | escape hhi hlo _ ih => exact .escape hhi hlo ih
    | byte hx _ ih => exact .byte hx ih

theorem WellFormed.of_mem_splitOn {l part : Bytes} {c : UInt8} (hc : hexDigit c = none)
    (hne : c ≠ 37) (h : WellFormed l) (hpart : part ∈ splitOn [c] l) : WellFormed part := by
  have hall : ∀ parts : List Bytes, WellFormed ([c].intercalate parts) →
      ∀ part ∈ parts, WellFormed part := by
    intro parts
    induction parts with
    | nil => exact fun _ _ hp => absurd hp List.not_mem_nil
    | cons first parts ih =>
      intro hparts
      by_cases hnil : parts = []
      · rw [hnil, List.intercalate_singleton] at hparts
        rw [hnil]
        exact List.forall_mem_singleton.mpr hparts
      · rw [intercalate_cons first hnil] at hparts
        obtain ⟨hfirst, hrest⟩ := (wellFormed_append_cons hc hne).mp hparts
        exact List.forall_mem_cons.mpr ⟨hfirst, ih hrest⟩
  refine hall _ ?_ part hpart
  rwa [intercalate_splitOn (List.cons_ne_nil c [])]

theorem wellFormed_intercalate {parts : List Bytes} {c : UInt8} (hc : hexDigit c = none) (hne : c ≠ 37)
    (h : ∀ part ∈ parts, WellFormed part) : WellFormed ([c].intercalate parts) := by
  induction parts with
  | nil => exact .nil
  | cons first parts ih =>
    obtain ⟨hfirst, hparts⟩ := List.forall_mem_cons.mp h
    by_cases hnil : parts = []
    · rwa [hnil, List.intercalate_singleton]
    · rw [intercalate_cons first hnil]
      exact (wellFormed_append_cons hc hne).mpr ⟨hfirst, ih hparts⟩

/-! ## Fields -/

/-- What is before the first equals sign of a piece, and what is after it. -/
def rawName (piece : Bytes) : Bytes := piece.takeWhile (· ≠ 61)

def rawValue (piece : Bytes) : Bytes := (piece.dropWhile (· ≠ 61)).drop 1

def field (piece : Bytes) : Bytes × Bytes := (decode (rawName piece), decode (rawValue piece))

def fields (body : Bytes) : List (Bytes × Bytes) :=
  ((splitOn [38] body).filter (· ≠ [])).map field

/-- A dictionary of texts. -/
abbrev Dict := Finmap fun _ : Bytes => Bytes

/-- The dictionary of a list of fields, in which later ones replace earlier ones. -/
def ofFields (fields : List (Bytes × Bytes)) (dict : Dict) : Dict :=
  fields.foldl (fun dict field => dict.insert field.1 field.2) dict

def parse (body : Bytes) : Dict := ofFields (fields body) ∅

theorem ofFields_append (a b : List (Bytes × Bytes)) (dict : Dict) :
    ofFields (a ++ b) dict = ofFields b (ofFields a dict) := List.foldl_append

theorem lookup_ofFields (fields : List (Bytes × Bytes)) (name : Bytes) :
    (ofFields fields ∅).lookup name =
      ((fields.filter (·.1 = name)).getLast?).map Prod.snd := by
  induction fields using List.reverseRecOn with
  | nil => exact Finmap.lookup_empty name
  | append_singleton fields field ih =>
    rw [ofFields_append, List.filter_append]
    show Finmap.lookup name (Finmap.insert field.1 field.2 (ofFields fields ∅)) = _
    by_cases hname : field.1 = name
    · subst hname
      rw [Finmap.lookup_insert, List.filter_cons_of_pos (by simp), List.filter_nil,
        List.getLast?_concat]
      rfl
    · rw [Finmap.lookup_insert_of_ne _ (Ne.symm hname), ih,
        List.filter_cons_of_neg (by simpa using hname), List.filter_nil, List.append_nil]

theorem rawName_of_notMem {piece : Bytes} (h : 61 ∉ piece) :
    rawName piece = piece ∧ rawValue piece = [] := by
  have hall : ∀ b ∈ piece, decide (b ≠ 61) = true := fun b hb =>
    decide_eq_true fun hb' => h (hb' ▸ hb)
  unfold rawName rawValue
  rw [List.takeWhile_eq_self_iff.mpr hall, List.dropWhile_eq_nil_iff.mpr hall]
  exact ⟨rfl, rfl⟩

theorem rawName_append {name : Bytes} (h : 61 ∉ name) (value : Bytes) :
    rawName (name ++ 61 :: value) = name ∧ rawValue (name ++ 61 :: value) = value := by
  have hall : ∀ b ∈ name, decide (b ≠ 61) = true := fun b hb =>
    decide_eq_true fun hb' => h (hb' ▸ hb)
  unfold rawName rawValue
  rw [List.takeWhile_append_of_pos hall, List.dropWhile_append_of_pos hall]
  simp

theorem WellFormed.field {piece : Bytes} (h : WellFormed piece) :
    WellFormed (rawName piece) ∧ WellFormed (rawValue piece) := by
  by_cases hequals : 61 ∈ piece
  · obtain ⟨name, value, rfl, hname⟩ := List.eq_append_cons_of_mem hequals
    obtain ⟨hrawName, hrawValue⟩ := rawName_append hname value
    rw [hrawName, hrawValue]
    exact (wellFormed_append_cons (by decide) (by decide)).mp h
  · obtain ⟨hrawName, hrawValue⟩ := rawName_of_notMem hequals
    rw [hrawName, hrawValue]
    exact ⟨h, .nil⟩

theorem field_fst_eq_nil {piece : Bytes} (h : WellFormed piece) :
    (field piece).1 = [] ↔ piece = [] ∨ piece.head? = some 61 := by
  show decode (rawName piece) = [] ↔ _
  rw [decode_eq_nil h.field.1]
  cases piece with
  | nil => exact iff_of_true rfl (.inl rfl)
  | cons b piece =>
    by_cases hb : b = 61
    · subst hb
      exact iff_of_true rfl (.inr rfl)
    · refine iff_of_false ?_ ?_
      · unfold rawName
        rw [List.takeWhile_cons_of_pos (by simpa using hb)]
        exact List.cons_ne_nil _ _
      · rintro (hnil | hhead)
        · cases hnil
        · exact hb (Option.some.inj hhead)

theorem field_snd_of_nameless {piece : Bytes} (h : piece = [] ∨ piece.head? = some 61) :
    (field piece).2 = decode (piece.drop 1) := by
  rcases h with rfl | hhead
  · rfl
  · cases piece with
    | nil => cases hhead
    | cons b piece =>
      cases Option.some.inj hhead
      rfl

/-! ## Overriding -/

theorem lookup_union (a b : Dict) (name : Bytes) :
    (a ∪ b).lookup name = (a.lookup name).or (b.lookup name) := by
  by_cases hname : name ∈ a
  · obtain ⟨value, hvalue⟩ := Finmap.mem_iff.mp hname
    rw [Finmap.lookup_union_left hname, hvalue, Option.some_or]
  · rw [Finmap.lookup_union_right hname, Finmap.lookup_eq_none.mpr hname, Option.none_or]

theorem ofFields_append_empty (a b : List (Bytes × Bytes)) :
    ofFields (a ++ b) ∅ = ofFields b ∅ ∪ ofFields a ∅ := by
  refine Finmap.ext_lookup fun name => ?_
  rw [lookup_union, lookup_ofFields, lookup_ofFields, lookup_ofFields, List.filter_append,
    List.getLast?_append, Option.map_or]

end UrlEncoded
