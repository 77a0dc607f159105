import Mathlib.Algebra.Group.Int.Defs
import Mathlib.Algebra.Group.Nat.Defs
import Mathlib.Data.Int.Notation
import Mathlib.Logic.Function.Basic
import Mathlib.Tactic.Common

/-!
# The host resource heap

`src/host_resource.rs`: a fixed number of slots whose prefix looks to Roc like a `Box(U64)`. A slot
is reserved, filled by `commit`, looked up with `get` through the box pointer while Roc holds
references to it, and torn down by `route_dealloc` when Roc's last reference is released.

Each definition is one critical section of the `state` mutex or one access to a slot's cell outside
of it. `none` from `commit` or `finishDealloc` is a failed assertion. `free` has its top first.
Addresses are numbers: `Layout` is where the slot array starts and how large a slot is.
-/

namespace BasicWebserver.HostResource

def tokenIndexBits : ℕ := 16

def tokenIndexMask : ℕ := 2 ^ tokenIndexBits - 1

/-- `u64::MAX >> TOKEN_INDEX_BITS`. -/
def maxGeneration : ℕ := (2 ^ 64 - 1) >>> tokenIndexBits

inductive ReserveError
  | capacity
  deriving DecidableEq

inductive LookupError
  | invalid
  | stale
  deriving DecidableEq

inductive DeallocRoute
  | notOwned
  | deallocated
  | corrupt
  deriving DecidableEq

inductive SlotState
  | free
  | reserved
  | live
  | closing
  | retired
  deriving DecidableEq

/-- A slot's cell; `resource` is `none` while its memory is not initialised. -/
structure ResourceSlot (τ : Type*) where
  refcount : ℤ
  token : ℕ
  resource : Option τ

structure Heap (τ : Type*) where
  free : List ℕ
  generations : ℕ → ℕ
  slots : ℕ → SlotState
  active : ℕ
  highWater : ℕ
  cells : ℕ → ResourceSlot τ

/-- The index and generation a `ResourceReservation` carries. They also name the handle inserted
under it. -/
structure Reservation where
  index : ℕ
  generation : ℕ
  deriving DecidableEq

variable {τ : Type*}

/-- `HostResourceHeap::new`. -/
def Heap.new (capacity : ℕ) : Heap τ where
  free := List.range capacity
  generations _ := 0
  slots _ := .free
  active := 0
  highWater := 0
  cells _ := ⟨0, 0, none⟩

/-! ## Tokens -/

def encodeToken (index generation : ℕ) : ℕ :=
  (generation <<< tokenIndexBits) % 2 ^ 64 ||| (index + 1)

def decodeToken (token : ℕ) : Option (ℕ × ℕ) :=
  let encodedIndex := token &&& tokenIndexMask
  let generation := token >>> tokenIndexBits
  if encodedIndex = 0 ∨ generation = 0 then none else some (encodedIndex - 1, generation)

theorem maxGeneration_eq : maxGeneration = 2 ^ 48 - 1 := by decide

theorem maxGeneration_pos : 0 < maxGeneration := by rw [maxGeneration_eq]; decide

theorem decodeToken_encodeToken {index generation : ℕ} (hi : index < tokenIndexMask)
    (hg : 0 < generation) (hmax : generation ≤ maxGeneration) :
    decodeToken (encodeToken index generation) = some (index, generation) := by
  rw [maxGeneration_eq] at hmax
  have hmask : tokenIndexMask = 2 ^ 16 - 1 := rfl
  have hlt : index + 1 < 2 ^ 16 := by omega
  have htoken : encodeToken index generation = generation * 2 ^ 16 + (index + 1) := by
    unfold encodeToken tokenIndexBits
    rw [Nat.shiftLeft_eq, Nat.mod_eq_of_lt (by omega), ← Nat.shiftLeft_eq,
      ← Nat.shiftLeft_add_eq_or_of_lt hlt, Nat.shiftLeft_eq]
  have hlow : encodeToken index generation &&& tokenIndexMask = index + 1 := by
    rw [hmask, Nat.and_two_pow_sub_one_eq_mod, htoken]
    omega
  have hhigh : encodeToken index generation >>> tokenIndexBits = generation := by
    rw [htoken, tokenIndexBits, Nat.shiftRight_eq_div_pow]
    omega
  unfold decodeToken
  rw [hlow, hhigh, if_neg (by omega)]
  rfl

/-! ## Addresses -/

/-- The slot array: a slot is its refcount word, its token word and the resource. -/
structure Layout where
  start : ℕ
  stride : ℕ
  token_fits : 16 ≤ stride

/-- `offset_of!(ResourceSlot<T>, token)`. -/
def tokenOffset : ℕ := 8

def Layout.basePtr (L : Layout) (index : ℕ) : ℕ := L.start + index * L.stride

/-- The box pointer Roc holds: `slot.token.get()`. -/
def Layout.handle (L : Layout) (index : ℕ) : ℕ := L.basePtr index + tokenOffset

def indexForBase (L : Layout) (capacity address : ℕ) : Option ℕ :=
  if address < L.start then none
  else
    let offset := address - L.start
    if offset % L.stride ≠ 0 then none
    else
      let index := offset / L.stride
      if index < capacity then some index else none

def payloadIndex (L : Layout) (capacity handle : ℕ) : Option ℕ :=
  if handle = 0 then none
  else if handle < tokenOffset then none
  else (indexForBase L capacity (handle - tokenOffset)).filter fun index => L.handle index = handle

def containsAddress (L : Layout) (capacity address : ℕ) : Bool :=
  L.start ≤ address && address < L.start + capacity * L.stride

theorem indexForBase_basePtr (L : Layout) {capacity index : ℕ} (h : index < capacity) :
    indexForBase L capacity (L.basePtr index) = some index := by
  have hpos : 0 < L.stride := by have := L.token_fits; omega
  unfold indexForBase Layout.basePtr
  rw [if_neg (by omega), Nat.add_sub_cancel_left]
  dsimp only
  rw [Nat.mul_mod_left, if_neg (by simp), Nat.mul_div_cancel _ hpos, if_pos h]

theorem payloadIndex_handle (L : Layout) {capacity index : ℕ} (h : index < capacity) :
    payloadIndex L capacity (L.handle index) = some index := by
  unfold payloadIndex
  rw [if_neg (by unfold Layout.handle tokenOffset; omega), if_neg (by unfold Layout.handle; omega),
    show L.handle index - tokenOffset = L.basePtr index from Nat.add_sub_cancel ..,
    indexForBase_basePtr L h]
  simp

/-! ## Operations -/

def saturatingAdd (a b : ℕ) : ℕ := min (a + b) (2 ^ 64 - 1)

/-- The loop of `reserve` over the entries it pops. -/
def reserveLoop (h : Heap τ) : List ℕ → Heap τ × Except ReserveError Reservation
  | [] => ({ h with free := [] }, .error .capacity)
  | index :: free =>
    let generation := saturatingAdd (h.generations index) 1
    if generation = 0 ∨ generation > maxGeneration then
      reserveLoop { h with free, slots := Function.update h.slots index .retired } free
    else
      ({ h with
          free
          generations := Function.update h.generations index generation
          slots := Function.update h.slots index .reserved
          active := h.active + 1
          highWater := max h.highWater (h.active + 1) },
        .ok ⟨index, generation⟩)

def reserve (h : Heap τ) : Heap τ × Except ReserveError Reservation := reserveLoop h h.free

def commit (h : Heap τ) (index generation : ℕ) (resource : τ) : Option (Heap τ) :=
  if h.slots index = .reserved ∧ h.generations index = generation then
    some { h with
      slots := Function.update h.slots index .live
      cells := Function.update h.cells index ⟨1, encodeToken index generation, some resource⟩ }
  else none

def cancelReservation (h : Heap τ) (index generation : ℕ) : Heap τ :=
  if h.slots index = .reserved ∧ h.generations index = generation then
    { h with
      slots := Function.update h.slots index .free
      active := h.active - 1
      free := index :: h.free }
  else h

/-- `get` up to the load of the refcount: the slot the handle points at. -/
def getIndex (L : Layout) (capacity : ℕ) (h : Heap τ) (handle : ℕ) : Except LookupError ℕ :=
  match payloadIndex L capacity handle with
  | none => .error .invalid
  | some index => if (h.cells index).refcount ≤ 0 then .error .stale else .ok index

/-- The read of the token. -/
def getToken (h : Heap τ) (index : ℕ) : Except LookupError (ℕ × ℕ) :=
  match decodeToken (h.cells index).token with
  | none => .error .stale
  | some decoded => .ok decoded

/-- The critical section of `get`; an accepted lookup returns the cell's memory. -/
def getLocked (h : Heap τ) (index : ℕ) (decoded : ℕ × ℕ) : Except LookupError (Option τ) :=
  if decoded.1 ≠ index ∨ h.slots index ≠ .live ∨ h.generations index ≠ decoded.2 then .error .stale
  else .ok (h.cells index).resource

/-- `0xdead_beef_dead_beef_u64 as isize`. -/
def rocDebugRefcountPoison : ℤ := 0xdeadbeefdeadbeef - 2 ^ 64

def isFinalizedRocRefcount (value : ℤ) : Bool := value == 0 || value == rocDebugRefcountPoison

/-- The first critical section of `route_dealloc`. It either ends the call or moves the resource out
of the slot, which stays active while the resource is dropped. -/
def beginDealloc (L : Layout) (capacity : ℕ) (h : Heap τ) (ptr : ℕ) :
    Heap τ × (DeallocRoute ⊕ Reservation × Option τ) :=
  match indexForBase L capacity ptr with
  | none => (h, .inl (if containsAddress L capacity ptr then .corrupt else .notOwned))
  | some index =>
    if h.slots index ≠ .live ∨ ¬ isFinalizedRocRefcount (h.cells index).refcount then
      (h, .inl .corrupt)
    else
      match decodeToken (h.cells index).token with
      | none => (h, .inl .corrupt)
      | some (tokenIndex, generation) =>
        if tokenIndex ≠ index ∨ h.generations index ≠ generation then (h, .inl .corrupt)
        else
          ({ h with
              slots := Function.update h.slots index .closing
              cells := Function.update h.cells index { h.cells index with resource := none } },
            .inr (⟨index, generation⟩, (h.cells index).resource))

/-- The second critical section of `route_dealloc`. -/
def finishDealloc (h : Heap τ) (index generation : ℕ) : Option (Heap τ) :=
  if h.slots index = .closing ∧ h.generations index = generation then
    some { h with
      slots := Function.update h.slots index .free
      active := h.active - 1
      free := index :: h.free }
  else none

end BasicWebserver.HostResource
