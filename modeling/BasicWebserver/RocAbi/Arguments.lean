import BasicWebserver.Foundation.RefCounts

/-!
# The arguments of an outbound request

How `hosted_http_send_request` of `src/http.rs` releases the values it was given, with the reference
counts of `src/roc_platform_abi.rs`. A list allocation owns one reference to each string of its
elements until the last reference to it is dropped. The call drops the strings of the headers that it
was passed whether or not it drops the last reference, and only those: the counts come out right
exactly if that makes no difference (`release_arguments_iff`).
-/

namespace BasicWebserver.RocAbi

open RefCounts

/-! ## Values and their release -/

/-- An address; strings, lists of headers and lists of bytes are counted in tables of their own. -/
abbrev Address := ℕ

/-- Where the bytes of a string are: in the value itself, in an allocation of its own, or in one that
it is a slice of. -/
inductive RocStr
  | small
  | whole (bytes : Option Address)
  | seamlessSlice (allocation : Option Address)
  deriving DecidableEq

def RocStr.getAllocationPtr : RocStr → Option Address
  | .small => none
  | .whole bytes => bytes
  | .seamlessSlice allocation => allocation

def RocStr.decref (value : RocStr) (strings : Table Address) : Option (Table Address) :=
  match value.getAllocationPtr with
  | none => some strings
  | some address => strings.decref address

structure HttpHeader where
  name : RocStr
  value : RocStr
  deriving DecidableEq

def HttpHeader.decref (header : HttpHeader) (strings : Table Address) : Option (Table Address) := do
  let strings ← header.name.decref strings
  header.value.decref strings

/-- A list without elements, a list that is its allocation, or a slice of one. -/
inductive RocList
  | null
  | whole (allocation : Address)
  | seamlessSlice (allocation : Address) (start length : ℕ)
  deriving DecidableEq

def RocList.getAllocationPtr : RocList → Option Address
  | .null => none
  | .whole allocation => some allocation
  | .seamlessSlice allocation _ _ => some allocation

/-- Drops the reference to the allocation and does not touch the elements. -/
def RocList.decref (list : RocList) (lists : Table Address) : Option (Table Address) :=
  match list.getAllocationPtr with
  | none => some lists
  | some address => lists.decref address

structure Heap where
  strings : Table Address
  headerLists : Table Address
  byteLists : Table Address
  /-- The elements of an allocation. -/
  headers : Address → List HttpHeader

/-- The elements that a list shows, in those of its allocation: before, in and after the slice. -/
def RocList.parts (list : RocList) (elements : Address → List HttpHeader) :
    List HttpHeader × List HttpHeader × List HttpHeader :=
  match list with
  | .null => ([], [], [])
  | .whole allocation => ([], elements allocation, [])
  | .seamlessSlice allocation start length =>
    ((elements allocation).take start, ((elements allocation).drop start).take length,
      ((elements allocation).drop start).drop length)

def RocList.asSlice (list : RocList) (elements : Address → List HttpHeader) : List HttpHeader :=
  (list.parts elements).2.1

/-- The fields of `HostHttpSendRequestArgs` that are counted. -/
structure HostHttpSendRequestArgs where
  body : RocList
  headers : RocList
  methodExt : RocStr
  uri : RocStr

/-- How `hosted_http_send_request` releases its arguments, after the request was built. -/
def releaseArguments (args : HostHttpSendRequestArgs) (heap : Heap) : Option Heap := do
  let byteLists ← args.body.decref heap.byteLists
  let strings ← (args.headers.asSlice heap.headers).foldlM (fun strings header => header.decref strings)
    heap.strings
  let headerLists ← args.headers.decref heap.headerLists
  let strings ← args.methodExt.decref strings
  let strings ← args.uri.decref strings
  some { heap with strings := strings, headerLists := headerLists, byteLists := byteLists }

/-! ## References -/

def RocStr.references (value : RocStr) : List Address := value.getAllocationPtr.toList

def HttpHeader.references (header : HttpHeader) : List Address :=
  header.name.references ++ header.value.references

def RocList.references (list : RocList) : List Address := list.getAllocationPtr.toList

def references (headers : List HttpHeader) : List Address := headers.flatMap HttpHeader.references

theorem RocStr.decref_eq (value : RocStr) (strings : Table Address) :
    value.decref strings = strings.decrefAll value.references := by
  unfold RocStr.decref RocStr.references
  cases value.getAllocationPtr with
  | none => rfl
  | some address => exact (Table.decrefAll_singleton _ _).symm

theorem RocList.decref_eq (list : RocList) (lists : Table Address) :
    list.decref lists = lists.decrefAll list.references := by
  unfold RocList.decref RocList.references
  cases list.getAllocationPtr with
  | none => rfl
  | some address => exact (Table.decrefAll_singleton _ _).symm

theorem HttpHeader.decref_eq (header : HttpHeader) (strings : Table Address) :
    header.decref strings = strings.decrefAll header.references := by
  unfold HttpHeader.decref HttpHeader.references
  rw [Table.decrefAll_append, RocStr.decref_eq]
  exact congrArg _ (funext fun t => RocStr.decref_eq _ t)

theorem foldlM_decref (headers : List HttpHeader) (strings : Table Address) :
    headers.foldlM (fun strings header => header.decref strings) strings =
      strings.decrefAll (references headers) := by
  induction headers generalizing strings with
  | nil => rfl
  | cons header headers ih =>
    rw [List.foldlM_cons, references, List.flatMap_cons, Table.decrefAll_append, HttpHeader.decref_eq]
    exact congrArg _ (funext fun t => ih t)

theorem count_references_append (headers headers' : List HttpHeader) (a : Address) :
    (references (headers ++ headers')).count a =
      (references headers).count a + (references headers').count a := by
  rw [references, List.flatMap_append, List.count_append]
  rfl

theorem count_parts (list : RocList) (elements : Address → List HttpHeader) {allocation : Address}
    (h : list.getAllocationPtr = some allocation) (a : Address) :
    (references (elements allocation)).count a =
      (references (list.parts elements).1).count a + (references (list.asSlice elements)).count a +
        (references (list.parts elements).2.2).count a := by
  cases list with
  | null => cases h
  | whole _ =>
    cases h
    exact ((Nat.add_zero _).trans (Nat.zero_add _)).symm
  | seamlessSlice _ start length =>
    cases h
    show _ = (references (List.take start _)).count a +
      (references (List.take length (List.drop start _))).count a +
      (references (List.drop length (List.drop start _))).count a
    rw [Nat.add_assoc, ← count_references_append, List.take_append_drop, ← count_references_append,
      List.take_append_drop]

/-! ## Ownership -/

/-- The references that others have: to strings, to the allocations of headers, to those of bytes. -/
structure Holders where
  strings : Address → ℕ
  headerLists : Address → ℕ
  byteLists : Address → ℕ

/-- The headers whose strings are owned by the allocation that a list is in. -/
def RocList.owned (list : RocList) (elements : Address → List HttpHeader) : List HttpHeader :=
  list.getAllocationPtr.elim [] elements

/-- Every count is the number of owners: the arguments, the elements of the allocation that the headers
are in, and the others. -/
structure Owned (heap : Heap) (args : HostHttpSendRequestArgs) (others : Holders) : Prop where
  strings : heap.strings.Accounted fun a =>
    (references (args.headers.owned heap.headers)).count a + args.methodExt.references.count a +
      args.uri.references.count a + others.strings a
  headerLists : heap.headerLists.Accounted fun a => args.headers.references.count a + others.headerLists a
  byteLists : heap.byteLists.Accounted fun a => args.body.references.count a + others.byteLists a

/-- The allocation of the headers stays: others hold it, or it is never freed. -/
def stays (heap : Heap) (args : HostHttpSendRequestArgs) (others : Holders) : Bool :=
  args.headers.getAllocationPtr.any fun allocation =>
    heap.headerLists.Static allocation || 0 < others.headerLists allocation

/-- How many owners a string has once the arguments are released. -/
def ownersLeft (heap : Heap) (args : HostHttpSendRequestArgs) (others : Holders) (a : Address) : ℕ :=
  (if stays heap args others then (references (args.headers.owned heap.headers)).count a else 0) +
    others.strings a

/-- None of the headers has a string that is counted. -/
def Uncounted (heap : Heap) (headers : List HttpHeader) : Prop :=
  ∀ a ∈ references headers, heap.strings.Static a

/-- It makes no difference which headers the call releases: if the allocation stays, those that the
call was passed have no counted strings, and otherwise those that it was not passed have none. -/
def Indifferent (heap : Heap) (args : HostHttpSendRequestArgs) (others : Holders) : Prop :=
  if stays heap args others then Uncounted heap (args.headers.asSlice heap.headers)
  else Uncounted heap
    ((args.headers.parts heap.headers).1 ++ (args.headers.parts heap.headers).2.2)

variable {heap : Heap} {args : HostHttpSendRequestArgs} {others : Holders}

theorem count_owned (list : RocList) (elements : Address → List HttpHeader) (a : Address) :
    (references (list.owned elements)).count a =
      (references (list.parts elements).1).count a + (references (list.asSlice elements)).count a +
        (references (list.parts elements).2.2).count a := by
  cases h : list.getAllocationPtr with
  | none =>
    cases list with
    | null => rfl
    | whole _ => cases h
    | seamlessSlice _ _ _ => cases h
  | some allocation =>
    rw [RocList.owned, h]
    exact count_parts list elements h a

/-- The call runs to its end, and every count is then its former owners without the references that
were dropped. -/
theorem releaseArguments_spec (h : Owned heap args others) :
    ∃ heap', releaseArguments args heap = some heap' ∧
      (∀ a, heap'.strings.Static a ↔ heap.strings.Static a) ∧
      (heap'.strings.Accounted fun a => (references (args.headers.owned heap.headers)).count a -
        (references (args.headers.asSlice heap.headers)).count a + others.strings a) ∧
      heap'.headerLists.Accounted others.headerLists ∧ heap'.byteLists.Accounted others.byteLists := by
  obtain ⟨byteLists, hbytes, -, hbyteLists⟩ := h.byteLists.decrefAll fun a => Nat.le_add_right _ _
  obtain ⟨headerLists, hheaders, -, hheaderLists⟩ :=
    h.headerLists.decrefAll fun a => Nat.le_add_right _ _
  have hle : ∀ a, (references (args.headers.asSlice heap.headers)).count a ≤
      (references (args.headers.owned heap.headers)).count a := by
    intro a
    rw [count_owned]
    omega
  obtain ⟨strings, hstrings, hstatic, haccounted⟩ := h.strings.decrefAll
    (l := references (args.headers.asSlice heap.headers) ++ (args.methodExt.references ++
      args.uri.references)) fun a => by
        have hlea := hle a
        rw [List.count_append, List.count_append]
        omega
  rw [Table.decrefAll_append] at hstrings
  obtain ⟨strings₁, hstrings₁, hstrings⟩ := Option.bind_eq_some_iff.mp hstrings
  rw [Table.decrefAll_append] at hstrings
  obtain ⟨strings₂, hstrings₂, hstrings₃⟩ := Option.bind_eq_some_iff.mp hstrings
  refine ⟨⟨strings, headerLists, byteLists, heap.headers⟩, ?_, hstatic, ?_, ?_, ?_⟩
  · unfold releaseArguments
    rw [RocList.decref_eq, hbytes, foldlM_decref, hstrings₁, RocList.decref_eq, hheaders]
    simp only [Option.bind_eq_bind, Option.bind_some]
    rw [RocStr.decref_eq, hstrings₂, Option.bind_some, RocStr.decref_eq, hstrings₃, Option.bind_some]
  · refine haccounted.congr fun a _ => ?_
    have hlea := hle a
    rw [List.count_append, List.count_append]
    omega
  · exact hheaderLists.congr fun a _ => (Nat.add_sub_cancel_left ..).symm
  · exact hbyteLists.congr fun a _ => (Nat.add_sub_cancel_left ..).symm

theorem uncounted_iff {headers : List HttpHeader} :
    Uncounted heap headers ↔ ∀ a, ¬ heap.strings.Static a → (references headers).count a = 0 := by
  unfold Uncounted
  refine forall_congr' fun a => ?_
  rw [List.count_eq_zero]
  tauto

/-- **Header arguments.** The call leaves every count of a string equal to the number of owners that
remain exactly if it makes no difference which headers it releases. -/
theorem release_arguments_iff (h : Owned heap args others) :
    ∃ heap', releaseArguments args heap = some heap' ∧
      (heap'.strings.Accounted (ownersLeft heap args others) ↔ Indifferent heap args others) ∧
      heap'.headerLists.Accounted others.headerLists ∧ heap'.byteLists.Accounted others.byteLists := by
  obtain ⟨heap', hrelease, hstatic, hstrings, hlists⟩ := releaseArguments_spec h
  refine ⟨heap', hrelease, ?_, hlists⟩
  have hiff : heap'.strings.Accounted (ownersLeft heap args others) ↔
      ∀ a, ¬ heap.strings.Static a → ownersLeft heap args others a =
        (references (args.headers.owned heap.headers)).count a -
          (references (args.headers.asSlice heap.headers)).count a + others.strings a :=
    ⟨fun hleft a ha => hleft.unique hstrings (mt (hstatic a).mp ha),
      fun hleft => hstrings.congr fun a ha => hleft a (mt (hstatic a).mpr ha)⟩
  rw [hiff]
  unfold Indifferent ownersLeft
  split_ifs with hstays
  · rw [uncounted_iff]
    refine forall_congr' fun a => imp_congr_right fun _ => ?_
    rw [count_owned]
    omega
  · rw [uncounted_iff]
    refine forall_congr' fun a => imp_congr_right fun _ => ?_
    rw [count_owned, count_references_append]
    omega

/-! ## A list with one header -/

/-- A heap with a header whose value is at address 0, in an allocation with the given count. -/
def oneHeader (count : ℤ) : Heap where
  strings := ⟨fun a => if a = 0 then 1 else 0, []⟩
  headerLists := ⟨fun a => if a = 0 then count else 0, []⟩
  byteLists := ⟨fun _ => 0, []⟩
  headers := fun a => if a = 0 then [⟨.small, .whole (some 0)⟩] else []

def oneHeaderArgs : HostHttpSendRequestArgs where
  body := .null
  headers := .whole 0
  methodExt := .small
  uri := .small

theorem oneHeader_owned (n : ℕ) :
    Owned (oneHeader (1 + n)) oneHeaderArgs ⟨fun _ => 0, fun a => if a = 0 then n else 0, fun _ => 0⟩ where
  strings := by
    refine ⟨fun a _ => ?_, fun a _ => List.not_mem_nil⟩
    by_cases ha : a = 0
    · subst ha
      rfl
    · simp [oneHeader, oneHeaderArgs, RocList.owned, RocList.getAllocationPtr, references,
        HttpHeader.references, RocStr.references, RocStr.getAllocationPtr, ha, Ne.symm ha]
  headerLists := by
    refine ⟨fun a _ => ?_, fun a _ => List.not_mem_nil⟩
    by_cases ha : a = 0
    · subst ha
      simp [oneHeader, oneHeaderArgs, RocList.references, RocList.getAllocationPtr]
    · simp [oneHeader, oneHeaderArgs, RocList.references, RocList.getAllocationPtr, ha, Ne.symm ha]
  byteLists := ⟨fun _ _ => rfl, fun _ _ => List.not_mem_nil⟩

/-- The last reference to a list: its string is freed with it. -/
theorem release_arguments_last :
    ∃ heap', releaseArguments oneHeaderArgs (oneHeader 1) = some heap' ∧
      heap'.strings.Accounted fun _ => 0 := by
  obtain ⟨heap', hrelease, hiff, -⟩ := release_arguments_iff (oneHeader_owned 0)
  refine ⟨heap', hrelease, hiff.mpr ?_⟩
  exact fun a ha => absurd ha List.not_mem_nil

/-- A list that the caller still holds: its string is freed all the same. -/
theorem release_arguments_shared :
    ∃ others, Owned (oneHeader 2) oneHeaderArgs others ∧
      ownersLeft (oneHeader 2) oneHeaderArgs others 0 = 1 ∧
      ((releaseArguments oneHeaderArgs (oneHeader 2)).map fun heap =>
        (heap.strings.freed, heap.headerLists.count 0)) = some ([0], 1) :=
  ⟨_, oneHeader_owned 1, by decide, by decide⟩

end BasicWebserver.RocAbi
