import BasicWebserver.Foundation.Bag
import BasicWebserver.Foundation.Fallible
import BasicWebserver.Foundation.Machine
import Mathlib.Algebra.BigOperators.Group.List.Basic
import Mathlib.Algebra.Order.Group.Multiset
import Mathlib.Data.List.ReduceOption
import Mathlib.Tactic.Abel

/-!
# The memory recycler of the Brotli encoder

`RecyclingAlloc` of `src/compression.rs` keeps freed blocks in a fixed number of slots, with their
element types erased, and hands a block out again for a request of the same type and length. Element
types are an index `ι` with a size for each; what a pointer leads to is a typed slice in `heap`, so a
block that was taken back with another type could be seen there. Pointers number the blocks in the
order in which they were created.

`RecyclingAlloc` is one party and its client the other: the client calls, writes to what it holds, or
drops it, in any order. A panic inside a call is logged, and `recycler_sound` says that only a request
that no allocation could serve makes one. Where the system has no memory left the process is aborted
and the run ends.
-/

namespace BasicWebserver.Compression

open Transition Bag Fallible

def brotliRecyclerSlots : ℕ := 32

abbrev Panic := String

variable {ι : Type} {Elem : ι → Type}

/-- `Box<[T]>` with elements of type `elementType`. -/
structure Boxed (ι : Type) where
  elementType : ι
  pointer : ℕ
  len : ℕ
  deriving DecidableEq

def Boxed.bytes (sizeOf : ι → ℕ) (data : Boxed ι) : ℕ := data.len * sizeOf data.elementType

/-- `drop_block` is the instance of `drop_cached_block` for an element type. -/
structure CachedBlock (ι : Type) where
  typeId : ι
  pointer : ℕ
  len : ℕ
  bytes : ℕ
  dropBlock : ι

structure RecyclerStats where
  allocationRequests : ℕ := 0
  cacheHits : ℕ := 0
  systemAllocations : ℕ := 0
  frees : ℕ := 0
  uncachedFrees : ℕ := 0
  cachedBlocks : ℕ := 0
  cachedBytes : ℕ := 0
  peakCachedBytes : ℕ := 0

structure RecyclingAlloc (ι : Type) where
  blocks : List (Option (CachedBlock ι)) := List.replicate brotliRecyclerSlots none
  maxCachedBytes : ℕ
  stats : RecyclerStats := {}

/-- `-=` on a word. -/
def subUsize (a b : ℕ) : Except Panic ℕ :=
  if b ≤ a then .ok (a - b) else .error "attempt to subtract with overflow"

/-- `+=` on a word. -/
def addUsize (a b : ℕ) : Except Panic ℕ :=
  if a + b < 2 ^ 64 then .ok (a + b) else .error "attempt to add with overflow"

theorem subUsize_of_le {a b : ℕ} (h : b ≤ a) : subUsize a b = .ok (a - b) := if_pos h

theorem addUsize_of_lt {a b : ℕ} (h : a + b < 2 ^ 64) : addUsize a b = .ok (a + b) := if_pos h

namespace CachedBlock

def fromBox (sizeOf : ι → ℕ) (data : Boxed ι) : Except Panic (CachedBlock ι) :=
  if data.len = 0 then .error "assertion failed: !data.is_empty()"
  else if 2 ^ 64 ≤ data.bytes sizeOf then .error "allocated Brotli block size fits usize"
  else .ok ⟨data.elementType, data.pointer, data.len, data.bytes sizeOf, data.elementType⟩

/-- What `drop_block` makes of the block before it drops it. -/
def toDrop (block : CachedBlock ι) : Boxed ι := ⟨block.dropBlock, block.pointer, block.len⟩

variable [DecidableEq ι]

def isFor (block : CachedBlock ι) (t : ι) (len : ℕ) : Bool := block.typeId = t && block.len = len

def intoBox (block : CachedBlock ι) (t : ι) : Except Panic (Boxed ι) :=
  if block.isFor t block.len then .ok ⟨t, block.pointer, block.len⟩
  else .error "assertion failed: self.matches::<T>(self.len)"

end CachedBlock

namespace RecyclingAlloc

/-- The blocks in the slots, as they would be dropped. -/
def cached (a : RecyclingAlloc ι) : List (Boxed ι) := a.blocks.reduceOption.map CachedBlock.toDrop

/-- The slot for a block of that size, if the limit leaves room for it. -/
def freeSlot (a : RecyclingAlloc ι) (bytes : ℕ) : Option ℕ :=
  let bytes := a.stats.cachedBytes + bytes
  let withinByteLimit : Bool := bytes < 2 ^ 64 && bytes ≤ a.maxCachedBytes
  if withinByteLimit then a.blocks.findIdx? Option.isNone else none

/-- The part of `free_cell` for a memory with a box; what is left over is dropped. -/
def cache (sizeOf : ι → ℕ) (a : RecyclingAlloc ι) (data : Boxed ι) :
    Except Panic (List (Boxed ι) × RecyclingAlloc ι) := do
  let block ← CachedBlock.fromBox sizeOf data
  match a.freeSlot block.bytes with
  | some slot =>
    let cachedBlocks ← addUsize a.stats.cachedBlocks 1
    let cachedBytes ← addUsize a.stats.cachedBytes block.bytes
    return ([], { a with
      blocks := a.blocks.set slot (some block)
      stats := { a.stats with
        cachedBlocks, cachedBytes, peakCachedBytes := max a.stats.peakCachedBytes cachedBytes } })
  | none =>
    return ([block.toDrop], { a with
      stats := { a.stats with uncachedFrees := a.stats.uncachedFrees + 1 } })

def freeCell (sizeOf : ι → ℕ) (a : RecyclingAlloc ι) (data : Option (Boxed ι)) :
    Except Panic (List (Boxed ι) × RecyclingAlloc ι) :=
  let a := { a with stats := { a.stats with frees := a.stats.frees + 1 } }
  match data with
  | none => .ok ([], a)
  | some data => if data.len = 0 then .ok ([data], a) else a.cache sizeOf data

variable [DecidableEq ι]

/-- The part of `alloc_cell` that takes a block out of its slot. -/
def reuse (a : RecyclingAlloc ι) (t : ι) (len : ℕ) :
    Except Panic (Option (Boxed ι × RecyclingAlloc ι)) :=
  match a.blocks.findIdx? fun block => block.any (·.isFor t len) with
  | none => .ok none
  | some index => do
    let block ← (a.blocks[index]?.join).elim (.error "matching cache entry exists") .ok
    let cachedBlocks ← subUsize a.stats.cachedBlocks 1
    let cachedBytes ← subUsize a.stats.cachedBytes block.bytes
    let data ← block.intoBox t
    return some (data, { a with
      blocks := a.blocks.set index none
      stats := { a.stats with cacheHits := a.stats.cacheHits + 1, cachedBlocks, cachedBytes } })

/-- Where the memory for a request comes from. -/
inductive Source (ι : Type)
  | empty
  | recycled (data : Boxed ι)
  | system

def allocCell (a : RecyclingAlloc ι) (t : ι) (len : ℕ) :
    Except Panic (Source ι × RecyclingAlloc ι) := do
  let a := { a with stats := { a.stats with allocationRequests := a.stats.allocationRequests + 1 } }
  if len = 0 then return (.empty, a)
  match ← a.reuse t len with
  | some (data, a) => return (.recycled data, a)
  | none =>
    return (.system, { a with
      stats := { a.stats with systemAllocations := a.stats.systemAllocations + 1 } })

end RecyclingAlloc

/-! ## The accounts of the allocator -/

section Slots

variable {α : Type} {x : α}

theorem reduceOption_set_none {l : List (Option α)} {i : ℕ} (h : l[i]? = some (some x)) :
    l.reduceOption.Perm (x :: (l.set i none).reduceOption) := by
  induction l generalizing i with
  | nil => cases h
  | cons o l ih =>
    cases i with
    | zero =>
      obtain rfl := Option.some.inj h
      exact .refl _
    | succ i =>
      cases o with
      | none => exact ih h
      | some y => exact ((ih h).cons y).trans (.swap x y _)

theorem reduceOption_set_some {l : List (Option α)} {i : ℕ} (h : l[i]? = some none) :
    (l.set i (some x)).reduceOption.Perm (x :: l.reduceOption) := by
  obtain ⟨hi, hnone⟩ := List.getElem?_eq_some_iff.mp h
  have hset := reduceOption_set_none (l := l.set i (some x)) (x := x) (List.getElem?_set_self hi)
  rwa [List.set_set, ← hnone, List.set_getElem_self] at hset

theorem getElem?_of_findIdx? {l : List α} {p : α → Bool} {i : ℕ} (h : l.findIdx? p = some i) :
    ∃ y, l[i]? = some y ∧ p y = true := by
  obtain ⟨hi, hp, -⟩ := List.findIdx?_eq_some_iff_getElem.mp h
  exact ⟨l[i], List.getElem?_eq_getElem hi, hp⟩

end Slots

namespace RecyclingAlloc

variable {sizeOf : ι → ℕ} {limit : ℕ} {a a' : RecyclingAlloc ι} {t : ι} {len : ℕ} {data : Boxed ι}

/-- The counters are about the blocks in the slots, and each block remembers its own type. -/
structure Accounted (sizeOf : ι → ℕ) (limit : ℕ) (a : RecyclingAlloc ι) : Prop where
  maximum : a.maxCachedBytes = limit
  slots : a.blocks.length = brotliRecyclerSlots
  typed : ∀ block ∈ a.blocks.reduceOption,
    block.typeId = block.dropBlock ∧ block.bytes = block.toDrop.bytes sizeOf
  blocks : a.stats.cachedBlocks = a.cached.length
  bytes : a.stats.cachedBytes = (a.cached.map (Boxed.bytes sizeOf)).sum
  within : a.stats.cachedBytes ≤ limit

theorem Accounted.of_stats (h : Accounted sizeOf limit a) (hblocks : a'.blocks = a.blocks)
    (hmax : a'.maxCachedBytes = a.maxCachedBytes)
    (hcachedBlocks : a'.stats.cachedBlocks = a.stats.cachedBlocks)
    (hcachedBytes : a'.stats.cachedBytes = a.stats.cachedBytes) : Accounted sizeOf limit a' := by
  have hcached : a'.cached = a.cached := by rw [cached, hblocks, cached]
  exact ⟨hmax.trans h.maximum, hblocks ▸ h.slots, hblocks ▸ h.typed,
    by rw [hcachedBlocks, hcached, h.blocks], by rw [hcachedBytes, hcached, h.bytes],
    hcachedBytes ▸ h.within⟩

theorem accounts_of_perm (sizeOf : ι → ℕ) {l l' : List (Boxed ι)} (hperm : l.Perm (data :: l')) :
    l.length = l'.length + 1 ∧ (l.map (Boxed.bytes sizeOf)).sum =
      data.bytes sizeOf + (l'.map (Boxed.bytes sizeOf)).sum := by
  constructor
  · rw [hperm.length_eq, List.length_cons]
  · rw [(hperm.map _).sum_nat, List.map_cons, List.sum_cons]

/-- What `free_cell` makes of a box: it is in a slot, or dropped as what it was created as. -/
theorem cache_spec (h : Accounted sizeOf limit a) (hlen : data.len ≠ 0)
    (hbytes : data.bytes sizeOf ≤ 2 ^ 63) : ∃ dropped a', a.cache sizeOf data = .ok (dropped, a') ∧
      Accounted sizeOf limit a' ∧ (data :: a.cached).Perm (dropped ++ a'.cached) := by
  have hword : ¬ 2 ^ 64 ≤ data.bytes sizeOf := by omega
  unfold cache CachedBlock.fromBox
  rw [if_neg hlen, if_neg hword, ok_bind]
  dsimp only
  cases hslot : a.freeSlot (data.bytes sizeOf) with
  | none => exact ⟨_, _, rfl, h.of_stats rfl rfl rfl rfl, .refl _⟩
  | some slot =>
    obtain ⟨hwithin, hslot⟩ := Option.ite_none_right_eq_some.mp hslot
    obtain ⟨hadd, hlimit⟩ : a.stats.cachedBytes + data.bytes sizeOf < 2 ^ 64 ∧
        a.stats.cachedBytes + data.bytes sizeOf ≤ a.maxCachedBytes := by simpa using hwithin
    obtain ⟨o, ho, hnone⟩ := getElem?_of_findIdx? hslot
    rw [Option.isNone_iff_eq_none.mp hnone] at ho
    have hcount : a.stats.cachedBlocks + 1 < 2 ^ 64 := by
      have hle := List.reduceOption_length_le a.blocks
      rw [h.blocks, cached, List.length_map]
      have := h.slots
      unfold brotliRecyclerSlots at this
      omega
    dsimp only
    rw [addUsize_of_lt hcount, ok_bind, addUsize_of_lt hadd]
    obtain ⟨block, hblock⟩ : ∃ block : CachedBlock ι,
        block = ⟨data.elementType, data.pointer, data.len, data.bytes sizeOf, data.elementType⟩ :=
      ⟨_, rfl⟩
    rw [← hblock]
    have hdrop : block.toDrop = data := by rw [hblock]; rfl
    have hset := reduceOption_set_some (x := block) ho
    have hperm : ((a.blocks.set slot (some block)).reduceOption.map CachedBlock.toDrop).Perm
        (data :: a.cached) := hdrop ▸ hset.map _
    obtain ⟨hlength, hsum⟩ := accounts_of_perm sizeOf hperm
    refine ⟨_, _, rfl, ⟨h.maximum, ?_, ?_, ?_, ?_, h.maximum ▸ hlimit⟩, hperm.symm⟩
    · rw [List.length_set, h.slots]
    · intro b hb
      rcases List.mem_cons.mp (hset.subset hb) with rfl | hb
      · rw [hdrop, hblock]
        exact ⟨rfl, rfl⟩
      · exact h.typed b hb
    · exact (congrArg (· + 1) h.blocks).trans hlength.symm
    · exact (congrArg (· + data.bytes sizeOf) h.bytes).trans ((Nat.add_comm _ _).trans hsum.symm)

/-- The allocator without the block in a slot. -/
def without (a : RecyclingAlloc ι) (index : ℕ) (block : CachedBlock ι) : RecyclingAlloc ι :=
  { a with
    blocks := a.blocks.set index none
    stats := { a.stats with
      cacheHits := a.stats.cacheHits + 1
      cachedBlocks := a.stats.cachedBlocks - 1
      cachedBytes := a.stats.cachedBytes - block.bytes } }

variable [DecidableEq ι]

/-- What `alloc_cell` finds: nothing, or a block of the type and length of the request. -/
theorem reuse_spec (h : Accounted sizeOf limit a) (t : ι) (len : ℕ) :
    a.reuse t len = .ok none ∨ ∃ pointer a', a.reuse t len = .ok (some (⟨t, pointer, len⟩, a')) ∧
      Accounted sizeOf limit a' ∧ a.cached.Perm (⟨t, pointer, len⟩ :: a'.cached) ∧
      a'.stats.allocationRequests = a.stats.allocationRequests ∧
      a'.stats.cacheHits = a.stats.cacheHits + 1 ∧
      a'.stats.systemAllocations = a.stats.systemAllocations := by
  unfold reuse
  cases hfind : a.blocks.findIdx? fun block => block.any (·.isFor t len) with
  | none => exact .inl rfl
  | some index =>
    obtain ⟨o, ho, hmatch⟩ := getElem?_of_findIdx? hfind
    obtain ⟨block, rfl, hfor⟩ := (Option.any_eq_true _ _).mp hmatch
    obtain ⟨htype, hlen⟩ : block.typeId = t ∧ block.len = len := by
      simpa [CachedBlock.isFor] using hfor
    have hset := reduceOption_set_none ho
    obtain ⟨hdrop, hblockBytes⟩ := h.typed block (hset.symm.subset List.mem_cons_self)
    have hdata : block.toDrop = ⟨t, block.pointer, len⟩ := by
      rw [CachedBlock.toDrop, ← hdrop, htype, hlen]
    have hperm : a.cached.Perm (⟨t, block.pointer, len⟩ ::
        (a.blocks.set index none).reduceOption.map CachedBlock.toDrop) := hdata ▸ hset.map _
    obtain ⟨hlength, hsum⟩ := accounts_of_perm sizeOf hperm
    rw [hdata] at hblockBytes
    have hblocks : a.stats.cachedBlocks = _ + 1 := h.blocks.trans hlength
    have hbytes : a.stats.cachedBytes = _ + _ := h.bytes.trans hsum
    refine .inr ⟨block.pointer, a.without index block, ?_, ⟨h.maximum, ?_, ?_, ?_, ?_, ?_⟩, hperm, rfl, rfl, rfl⟩
    · dsimp only
      rw [ho, Option.join_some, Option.elim_some, ok_bind, subUsize_of_le (by omega), ok_bind,
        subUsize_of_le (by omega), ok_bind, CachedBlock.intoBox, if_pos (by simp [CachedBlock.isFor, htype]),
        ok_bind, hlen]
      rfl
    · exact List.length_set.trans h.slots
    · exact fun b hb => h.typed b (hset.symm.subset (List.mem_cons_of_mem _ hb))
    · show a.stats.cachedBlocks - 1 = _
      rw [hblocks, Nat.add_sub_cancel]
      rfl
    · show a.stats.cachedBytes - block.bytes = _
      rw [hbytes, hblockBytes, Nat.add_sub_cancel_left]
      rfl
    · exact Nat.le_trans (Nat.sub_le _ _) h.within

/-- A request is counted once, and one for more than nothing is a hit or an allocation. -/
def CountedOnce (len : ℕ) (before after : RecyclerStats) : Prop :=
  after.allocationRequests = before.allocationRequests + 1 ∧
  if len = 0 then
    after.cacheHits = before.cacheHits ∧ after.systemAllocations = before.systemAllocations
  else
    (after.cacheHits = before.cacheHits + 1 ∧ after.systemAllocations = before.systemAllocations) ∨
    (after.cacheHits = before.cacheHits ∧ after.systemAllocations = before.systemAllocations + 1)

/-- Where the memory of a request comes from, and what that leaves in the slots. -/
inductive Serves (a a' : RecyclingAlloc ι) (t : ι) (len : ℕ) : Source ι → Prop
  | empty (hlen : len = 0) (hcached : a'.cached = a.cached) : Serves a a' t len .empty
  | recycled (pointer : ℕ) (hlen : len ≠ 0) (hcached : a.cached.Perm (⟨t, pointer, len⟩ :: a'.cached)) :
    Serves a a' t len (.recycled ⟨t, pointer, len⟩)
  | system (hlen : len ≠ 0) (hcached : a'.cached = a.cached) : Serves a a' t len .system

theorem allocCell_spec (h : Accounted sizeOf limit a) (t : ι) (len : ℕ) : ∃ source a',
    a.allocCell t len = .ok (source, a') ∧ Accounted sizeOf limit a' ∧ CountedOnce len a.stats a'.stats ∧
      Serves a a' t len source := by
  unfold allocCell
  dsimp only
  by_cases hlen : len = 0
  · rw [if_pos hlen]
    exact ⟨_, _, rfl, h.of_stats rfl rfl rfl rfl, ⟨rfl, by rw [if_pos hlen]; exact ⟨rfl, rfl⟩⟩,
      .empty hlen rfl⟩
  · rw [if_neg hlen]
    have hstats : Accounted sizeOf limit { a with
        stats := { a.stats with allocationRequests := a.stats.allocationRequests + 1 } } :=
      h.of_stats rfl rfl rfl rfl
    obtain hnone | ⟨pointer, a', hreuse, ha', hcached, hrequests, hhits, hsystem⟩ :=
      reuse_spec hstats t len
    · rw [hnone]
      exact ⟨_, _, rfl, h.of_stats rfl rfl rfl rfl,
        ⟨rfl, by rw [if_neg hlen]; exact .inr ⟨rfl, rfl⟩⟩, .system hlen rfl⟩
    · rw [hreuse]
      exact ⟨_, _, rfl, ha', ⟨hrequests, by rw [if_neg hlen]; exact .inl ⟨hhits, hsystem⟩⟩,
        .recycled pointer hlen hcached⟩

end RecyclingAlloc

/-! ## The allocator and its client -/

def isizeMax : ℕ := 2 ^ 63 - 1

/-- `held` are the boxes in the memories of the client. -/
structure Recycling (ι : Type) (Elem : ι → Type) where
  alloc : Option (RecyclingAlloc ι)
  heap : ℕ → Option (Σ t : ι, List (Elem t)) := fun _ => none
  held : List (Boxed ι) := []
  created : List (Boxed ι) := []
  destroyed : List (Boxed ι) := []
  panics : List Panic := []

namespace Recycling

inductive Action (ι : Type) (Elem : ι → Type)
  | allocCell (t : ι) (len : ℕ)
  /-- A memory of the client is freed: one with a box, or an empty one. -/
  | freeCell (k : Option ℕ)
  /-- The client drops a memory itself. -/
  | dropMemory (k : ℕ)
  | write (k : ℕ) (contents : Σ t : ι, List (Elem t))
  /-- The allocator is dropped. -/
  | drop

/-- The memory of a request, with every element set to the default. -/
def handOut [∀ t, Inhabited (Elem t)] (s : Recycling ι Elem) (data : Boxed ι) : Recycling ι Elem :=
  { s with
    heap := Function.update s.heap data.pointer
      (some ⟨data.elementType, List.replicate data.len default⟩)
    held := data :: s.held }

/-- `vec![T::default(); len].into_boxed_slice()`. -/
def allocate [∀ t, Inhabited (Elem t)] (sizeOf : ι → ℕ) (s : Recycling ι Elem) (t : ι) (len : ℕ) :
    Recycling ι Elem :=
  if isizeMax < len * sizeOf t then { s with panics := s.panics ++ ["capacity overflow"] }
  else
    let data : Boxed ι := ⟨t, s.created.length, len⟩
    { s with created := s.created ++ [data] }.handOut data

/-- A call ends with the allocator as it left it, or panics. -/
def finish (s : Recycling ι Elem) {α : Type} (call : Except Panic (α × RecyclingAlloc ι))
    (next : α → Recycling ι Elem → Recycling ι Elem) : Recycling ι Elem :=
  match call with
  | .ok (answer, a) => next answer { s with alloc := some a }
  | .error message => { s with panics := s.panics ++ [message] }

variable [DecidableEq ι] [∀ t, Inhabited (Elem t)]

def step (sizeOf : ι → ℕ) (s : Recycling ι Elem) : Action ι Elem → Option (Recycling ι Elem)
  | .allocCell t len => do
    let a ← s.alloc
    return s.finish (a.allocCell t len) fun source s =>
      match source with
      | .empty => s
      | .recycled data => s.handOut data
      | .system => s.allocate sizeOf t len
  | .freeCell none => do
    let a ← s.alloc
    return s.finish (a.freeCell sizeOf none) fun _ s => s
  | .freeCell (some k) => do
    let a ← s.alloc
    let (data, held) ← takeAt s.held k
    return s.finish (a.freeCell sizeOf (some data)) fun dropped s =>
      { s with held, destroyed := s.destroyed ++ dropped }
  | .dropMemory k => do
    let (data, held) ← takeAt s.held k
    return { s with held, destroyed := s.destroyed ++ [data] }
  | .write k contents => do
    let data ← s.held[k]?
    if contents.1 = data.elementType ∧ contents.2.length = data.len then
      some { s with heap := Function.update s.heap data.pointer (some contents) }
    else none
  | .drop => do
    let a ← s.alloc
    return { s with alloc := none, destroyed := s.destroyed ++ a.cached }

variable (Elem) in
def machine (sizeOf : ι → ℕ) (maxCachedBytes : ℕ) : Machine (Recycling ι Elem) (Action ι Elem) :=
  ⟨{ alloc := some { maxCachedBytes } }, step sizeOf⟩

variable {sizeOf : ι → ℕ} {limit : ℕ} {s s' : Recycling ι Elem} {data : Boxed ι}

/-- The blocks in the slots of the allocator, while there is one. -/
def cached (s : Recycling ι Elem) : List (Boxed ι) := s.alloc.elim [] RecyclingAlloc.cached

/-- What a box leads to is a slice of its type and length. -/
def Typed (s : Recycling ι Elem) (data : Boxed ι) : Prop :=
  ∃ items, s.heap data.pointer = some ⟨data.elementType, items⟩ ∧ items.length = data.len

/-- What holds between the calls. -/
structure Sound (sizeOf : ι → ℕ) (limit : ℕ) (s : Recycling ι Elem) : Prop where
  accounted : ∀ a ∈ s.alloc, a.Accounted sizeOf limit
  owned : (s.created : Multiset (Boxed ι)) = s.held + s.cached + s.destroyed
  pointers : s.created.map Boxed.pointer = List.range s.created.length
  sizes : ∀ data ∈ s.created, data.len ≠ 0 ∧ data.bytes sizeOf ≤ isizeMax
  typed : ∀ data ∈ s.created, s.Typed data
  panics : ∀ message ∈ s.panics, message = "capacity overflow"

namespace Sound

omit [DecidableEq ι] [∀ t, Inhabited (Elem t)]

theorem pointer_injective (h : Sound sizeOf limit s) {data data' : Boxed ι} (hdata : data ∈ s.created)
    (hdata' : data' ∈ s.created) (he : data.pointer = data'.pointer) : data = data' := by
  have hnodup : (s.created.map Boxed.pointer).Nodup := h.pointers ▸ List.nodup_range
  exact List.inj_on_of_nodup_map hnodup hdata hdata' he

theorem mem_created (h : Sound sizeOf limit s)
    (hmem : data ∈ (s.held + s.cached + s.destroyed : Multiset (Boxed ι))) : data ∈ s.created := by
  rw [← h.owned] at hmem
  exact hmem

theorem move (h : Sound sizeOf limit s) {alloc : Option (RecyclingAlloc ι)} {held destroyed : List (Boxed ι)}
    (haccounted : ∀ a ∈ alloc, a.Accounted sizeOf limit)
    (howned : (held + alloc.elim [] RecyclingAlloc.cached + destroyed : Multiset (Boxed ι)) =
      s.held + s.cached + s.destroyed) :
    Sound sizeOf limit { s with alloc, held, destroyed } :=
  { h with accounted := haccounted, owned := h.owned.trans howned.symm }

theorem fill (h : Sound sizeOf limit s) (hdata : data ∈ s.created) {items : List (Elem data.elementType)}
    (hitems : items.length = data.len) :
    Sound sizeOf limit { s with
      heap := Function.update s.heap data.pointer (some ⟨data.elementType, items⟩) } := by
  refine { h with typed := fun data' hdata' => ?_ }
  by_cases he : data'.pointer = data.pointer
  · obtain rfl := h.pointer_injective hdata' hdata he
    exact ⟨items, Function.update_self _ _ _, hitems⟩
  · obtain ⟨items', hheap, hlen⟩ := h.typed data' hdata'
    exact ⟨items', (Function.update_of_ne he _ _).trans hheap, hlen⟩

end Sound

/-- What a request leaves with the client: nothing, memory of that type and length with the default in
every element, or a panic for a length that no allocation has. -/
inductive Answered (sizeOf : ι → ℕ) (s s' : Recycling ι Elem) (t : ι) (len : ℕ) : Prop
  | empty (hlen : len = 0) (hheld : s'.held = s.held)
  | memory (pointer : ℕ) (hlen : len ≠ 0) (hheld : s'.held = ⟨t, pointer, len⟩ :: s.held)
    (hheap : s'.heap pointer = some ⟨t, List.replicate len default⟩)
  | tooLarge (hlen : isizeMax < len * sizeOf t) (hheld : s'.held = s.held)
    (hpanics : s'.panics = s.panics ++ ["capacity overflow"])

omit [DecidableEq ι] in
theorem sound_recycled (h : Sound sizeOf limit s) {a a' : RecyclingAlloc ι} (ha : s.alloc = some a)
    (ha' : a'.Accounted sizeOf limit) (hcached : a.cached.Perm (data :: a'.cached)) :
    Sound sizeOf limit (handOut { s with alloc := some a' } data) := by
  have hs : (s.cached : Multiset (Boxed ι)) = data ::ₘ (a'.cached : Multiset (Boxed ι)) := by
    rw [cached, ha]
    exact Multiset.coe_eq_coe.mpr hcached
  have hdata : data ∈ s.created := by
    refine h.mem_created (Multiset.mem_add.mpr (.inl (Multiset.mem_add.mpr (.inr ?_))))
    rw [hs]
    exact Multiset.mem_cons_self _ _
  have hmoved : Sound sizeOf limit { s with alloc := some a', held := data :: s.held } := by
    refine h.move (by rintro _ ⟨⟩; exact ha') ?_
    rw [hs, ← Multiset.cons_coe, Multiset.cons_add, Multiset.add_cons]
    rfl
  exact hmoved.fill hdata List.length_replicate

omit [DecidableEq ι] in
theorem sound_allocate (h : Sound sizeOf limit s) (t : ι) {len : ℕ} (hlen : len ≠ 0) :
    Sound sizeOf limit (s.allocate sizeOf t len) := by
  unfold allocate
  split_ifs with hsize
  · refine { h with panics := fun message hmessage => ?_ }
    rcases List.mem_append.mp hmessage with hmessage | hmessage
    · exact h.panics message hmessage
    · exact List.mem_singleton.mp hmessage
  · have hfresh : ∀ data ∈ s.created, data.pointer ≠ s.created.length := by
      intro data hdata
      have hmem := List.mem_map_of_mem (f := Boxed.pointer) hdata
      rw [h.pointers, List.mem_range] at hmem
      exact Nat.ne_of_lt hmem
    refine ⟨h.accounted, ?_, ?_, fun data hdata => ?_, fun data hdata => ?_, h.panics⟩
    · obtain ⟨data, hdata⟩ : ∃ data : Boxed ι, data = ⟨t, s.created.length, len⟩ := ⟨_, rfl⟩
      have hcons : ((data :: s.held : List (Boxed ι)) + s.cached + s.destroyed : Multiset (Boxed ι)) =
          s.created + {data} := by
        rw [h.owned, ← Multiset.cons_coe, ← Multiset.singleton_add]
        abel
      rw [hdata] at hcons
      exact hcons.symm
    · show (s.created ++ [_]).map Boxed.pointer = List.range (s.created ++ [_]).length
      rw [List.map_append, h.pointers, List.length_append, List.length_singleton, List.range_succ]
      rfl
    · rcases List.mem_append.mp hdata with hdata | hdata
      · exact h.sizes data hdata
      · rw [List.mem_singleton.mp hdata]
        exact ⟨hlen, Nat.le_of_not_lt hsize⟩
    · rcases List.mem_append.mp hdata with hdata | hdata
      · obtain ⟨items, hheap, hitems⟩ := h.typed data hdata
        exact ⟨items, (Function.update_of_ne (hfresh data hdata) _ _).trans hheap, hitems⟩
      · rw [List.mem_singleton.mp hdata]
        exact ⟨_, Function.update_self _ _ _, List.length_replicate⟩

theorem step_allocCell (h : Sound sizeOf limit s) {t : ι} {len : ℕ}
    (hstep : step sizeOf s (.allocCell t len) = some s') :
    Sound sizeOf limit s' ∧ Answered sizeOf s s' t len ∧ ∃ a ∈ s.alloc, ∃ a' ∈ s'.alloc,
      RecyclingAlloc.CountedOnce len a.stats a'.stats := by
  obtain ⟨a, ha, hstep⟩ := Option.bind_eq_some_iff.mp hstep
  obtain rfl := Option.some.inj hstep
  obtain ⟨source, a', hcall, ha', hcounted, hserves⟩ :=
    RecyclingAlloc.allocCell_spec (h.accounted a ha) t len
  have hsame : a'.cached = a.cached → Sound sizeOf limit { s with alloc := some a' } := fun hcached =>
    h.move (by rintro _ ⟨⟩; exact ha') (by rw [cached, ha]; exact congrArg (_ + · + _) (congrArg _ hcached))
  unfold finish
  rw [hcall]
  cases hserves with
  | empty hlen hcached => exact ⟨hsame hcached, .empty hlen rfl, a, ha, a', rfl, hcounted⟩
  | recycled pointer hlen hcached =>
    exact ⟨sound_recycled h ha ha' hcached, .memory pointer hlen rfl (Function.update_self _ _ _), a, ha,
      a', rfl, hcounted⟩
  | system hlen hcached =>
    refine ⟨sound_allocate (hsame hcached) t hlen, ?_, a, ha, a', ?_, hcounted⟩
    · dsimp only
      unfold allocate
      split_ifs with hsize
      · exact .tooLarge hsize rfl rfl
      · exact .memory _ hlen rfl (Function.update_self _ _ _)
    · dsimp only
      unfold allocate
      split_ifs <;> rfl

theorem sound_freeCell (h : Sound sizeOf limit s) {k : Option ℕ}
    (hstep : step sizeOf s (.freeCell k) = some s') : Sound sizeOf limit s' := by
  cases k with
  | none =>
    obtain ⟨a, ha, hstep⟩ := Option.bind_eq_some_iff.mp hstep
    obtain rfl := Option.some.inj hstep
    refine h.move ?_ (by rw [cached, ha]; rfl)
    rintro _ ⟨⟩
    exact (h.accounted a ha).of_stats rfl rfl rfl rfl
  | some k =>
    obtain ⟨a, ha, hstep⟩ := Option.bind_eq_some_iff.mp hstep
    obtain ⟨⟨data, held⟩, htake, hstep⟩ := Option.bind_eq_some_iff.mp hstep
    obtain rfl := Option.some.inj hstep
    have hdata : data ∈ s.created := h.mem_created (Multiset.mem_add.mpr
      (.inl (Multiset.mem_add.mpr (.inl (mem_of_takeAt htake)))))
    obtain ⟨hlen, hbytes⟩ := h.sizes data hdata
    obtain ⟨dropped, a', hcache, ha', hperm⟩ := RecyclingAlloc.cache_spec
      (a := { a with stats := { a.stats with frees := a.stats.frees + 1 } })
      ((h.accounted a ha).of_stats rfl rfl rfl rfl) hlen (Nat.le_trans hbytes (by decide))
    have hcall : a.freeCell sizeOf (some data) = .ok (dropped, a') := by
      unfold RecyclingAlloc.freeCell
      dsimp only
      rw [if_neg hlen, hcache]
    unfold finish
    rw [hcall]
    refine h.move (by rintro _ ⟨⟩; exact ha') ?_
    have hmoved : (data ::ₘ (a.cached : Multiset (Boxed ι))) = dropped + a'.cached :=
      Multiset.coe_eq_coe.mpr hperm
    rw [cached, ha, coe_of_takeAt htake, Option.elim_some, Option.elim_some, ← Multiset.coe_add,
      Multiset.cons_add, ← Multiset.add_cons, hmoved]
    abel

theorem sound_step (h : Sound sizeOf limit s) {a : Action ι Elem} (hstep : step sizeOf s a = some s') :
    Sound sizeOf limit s' := by
  cases a with
  | allocCell t len => exact (step_allocCell h hstep).1
  | freeCell k => exact sound_freeCell h hstep
  | dropMemory k =>
    obtain ⟨⟨data, held⟩, htake, hstep⟩ := Option.bind_eq_some_iff.mp hstep
    obtain rfl := Option.some.inj hstep
    refine h.move h.accounted ?_
    rw [coe_of_takeAt htake, ← Multiset.coe_add, Multiset.coe_singleton, ← Multiset.singleton_add]
    show _ + (s.cached : Multiset (Boxed ι)) + _ = _
    abel
  | write k contents =>
    obtain ⟨data, hdata, hstep⟩ := Option.bind_eq_some_iff.mp hstep
    obtain ⟨⟨htype, hlen⟩, hstep⟩ := Option.ite_none_right_eq_some.mp hstep
    obtain rfl := Option.some.inj hstep
    obtain ⟨t, items⟩ := contents
    obtain rfl := htype
    exact h.fill (h.mem_created (Multiset.mem_add.mpr (.inl (Multiset.mem_add.mpr
      (.inl (List.mem_of_getElem? hdata)))))) hlen
  | drop =>
    obtain ⟨a, ha, hstep⟩ := Option.bind_eq_some_iff.mp hstep
    obtain rfl := Option.some.inj hstep
    refine h.move (by rintro _ ⟨⟩) ?_
    rw [cached, ha, Option.elim_none, Option.elim_some, ← Multiset.coe_add, Multiset.coe_nil]
    abel

theorem sound_init (sizeOf : ι → ℕ) (limit : ℕ) :
    Sound sizeOf limit (machine Elem sizeOf limit).init where
  accounted := by
    rintro _ ⟨⟩
    exact ⟨rfl, rfl, fun _ hblock => absurd hblock (List.not_mem_nil), rfl, rfl, Nat.zero_le _⟩
  owned := rfl
  pointers := rfl
  sizes := by simp [machine]
  typed := by simp [machine]
  panics := by simp [machine]

/-- **The Brotli recycler.** In every state that calls of any element types and lengths lead to, with
any limit: the counters count the blocks in the slots and their bytes, which are within the limit; the
only panic was for a length that no allocation has; each block created is in one place only, with the
client, in a slot or destroyed, with the type and length that it was created with, so that all of them
are destroyed once when the allocator and the client are gone; and a request is counted once, as a hit
or an allocation unless it is empty, and gets memory of its type and length that is all default. -/
theorem recycler_sound (sizeOf : ι → ℕ) (maxCachedBytes : ℕ)
    (h : (machine Elem sizeOf maxCachedBytes).Reachable s) :
    (∀ a ∈ s.alloc, a.stats.cachedBlocks = a.blocks.reduceOption.length ∧
      a.stats.cachedBytes = (a.blocks.reduceOption.map CachedBlock.bytes).sum ∧
      a.stats.cachedBytes ≤ maxCachedBytes) ∧
    (∀ message ∈ s.panics, message = "capacity overflow") ∧
    (s.created.Perm (s.held ++ s.cached ++ s.destroyed) ∧
      ((s.held ++ s.cached ++ s.destroyed).map Boxed.pointer).Nodup ∧
      (∀ data ∈ s.held, s.Typed data) ∧
      (s.alloc = none → s.held = [] → s.created.Perm s.destroyed)) ∧
    ∀ t len s', step sizeOf s (.allocCell t len) = some s' → Answered sizeOf s s' t len ∧
      ∃ a ∈ s.alloc, ∃ a' ∈ s'.alloc, RecyclingAlloc.CountedOnce len a.stats a'.stats := by
  have hsound : Sound sizeOf maxCachedBytes s :=
    (machine Elem sizeOf maxCachedBytes).invariant (sound_init sizeOf maxCachedBytes)
      (fun _ _ _ hs hstep => sound_step hs hstep) h
  have howned : s.created.Perm (s.held ++ s.cached ++ s.destroyed) := by
    rw [← Multiset.coe_eq_coe, ← Multiset.coe_add, ← Multiset.coe_add]
    exact hsound.owned
  refine ⟨fun a ha => ?_, hsound.panics, ⟨howned, ?_, fun data hdata => ?_, fun halloc hheld => ?_⟩,
    fun t len s' hstep => (step_allocCell hsound hstep).2⟩
  · have haccounted := hsound.accounted a ha
    refine ⟨haccounted.blocks.trans (List.length_map _), haccounted.bytes.trans ?_, haccounted.within⟩
    rw [RecyclingAlloc.cached, List.map_map]
    exact congrArg List.sum (List.map_congr_left fun block hblock =>
      (haccounted.typed block hblock).2.symm)
  · rw [← (howned.map Boxed.pointer).nodup_iff, hsound.pointers]
    exact List.nodup_range
  · exact hsound.typed data (howned.symm.subset
      (List.mem_append_left _ (List.mem_append_left _ hdata)))
  · rwa [hheld, cached, halloc] at howned

/-- Bytes and words; a block of four bytes is freed and comes back clean. -/
def reusingRun : List (Action Bool fun _ => ℕ) :=
  [.allocCell false 4, .write 0 ⟨false, [1, 2, 3, 4]⟩, .freeCell (some 0), .allocCell true 4,
    .allocCell false 4]

theorem recycler_of_reusingRun : ∃ s, (machine (fun _ : Bool => ℕ) (cond · 8 1) 64).exec
    (machine (fun _ : Bool => ℕ) (cond · 8 1) 64).init reusingRun = some s ∧
      s.held = [⟨false, 0, 4⟩, ⟨true, 1, 4⟩] ∧ s.heap 0 = some ⟨false, [0, 0, 0, 0]⟩ ∧
      s.created.Perm (s.held ++ s.cached ++ s.destroyed) := by
  have hrun : ((machine (fun _ : Bool => ℕ) (cond · 8 1) 64).exec
      (machine (fun _ : Bool => ℕ) (cond · 8 1) 64).init reusingRun).map
      (fun s => (s.held, s.heap 0)) =
      some ([⟨false, 0, 4⟩, ⟨true, 1, 4⟩], some ⟨false, [0, 0, 0, 0]⟩) := rfl
  obtain ⟨s, hs, hparts⟩ := Option.map_eq_some_iff.mp hrun
  obtain ⟨hheld, hheap⟩ := Prod.mk.inj hparts
  exact ⟨s, hs, hheld, hheap, (recycler_sound _ _ ⟨reusingRun, hs⟩).2.2.1.1⟩

end Recycling

end BasicWebserver.Compression
