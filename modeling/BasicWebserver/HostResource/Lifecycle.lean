import Mathlib.Data.Finset.Card
import BasicWebserver.HostResource.System

/-!
# The life of a slot

`Life` is what a slot of the heap goes through, with the resource it carries and the references to
it. `Represents` reads the lives off a system: which bag entries and which cell contents belong to a
slot in each phase of its life, so that a slot is never in two phases and no entry belongs to none.
Every step of `machine` moves the life of one slot along `Life.Step`, or only retires slots.
-/

namespace BasicWebserver.HostResource

open Bag

variable {τ : Type*}

/-- The phase of a slot. `g` is its generation; a live slot has `n + 1` references. -/
inductive Life (τ : Type*)
  | free (g : ℕ)
  | reserved (g : ℕ)
  | live (g : ℕ) (x : τ) (n : ℕ)
  | finalized (g : ℕ) (x : τ)
  | closing (g : ℕ) (x : τ)
  | closed (g : ℕ)
  | retired (g : ℕ)

namespace Life

def generation : Life τ → ℕ
  | .free g => g
  | .reserved g => g
  | .live g _ _ => g
  | .finalized g _ => g
  | .closing g _ => g
  | .closed g => g
  | .retired g => g

/-- The resource a slot owns, or that its deallocation has moved out and not yet dropped. -/
def resource : Life τ → Option τ
  | .live _ x _ => some x
  | .finalized _ x => some x
  | .closing _ x => some x
  | _ => none

/-- The last generation that is past its reservation. -/
def settled : Life τ → ℕ
  | .reserved g => g - 1
  | l => l.generation

def state : Life τ → SlotState
  | .free _ => .free
  | .reserved _ => .reserved
  | .live _ _ _ => .live
  | .finalized _ _ => .live
  | .closing _ _ => .closing
  | .closed _ => .closing
  | .retired _ => .retired

inductive Step : Life τ → Life τ → Prop
  | reserve (g : ℕ) (h : g < maxGeneration) : Step (.free g) (.reserved (g + 1))
  | retire (g : ℕ) (h : g = maxGeneration) : Step (.free g) (.retired g)
  | cancel (g : ℕ) : Step (.reserved g) (.free g)
  | insert (g : ℕ) (x : τ) : Step (.reserved g) (.live g x 0)
  | incref (g : ℕ) (x : τ) (n : ℕ) : Step (.live g x n) (.live g x (n + 1))
  | decref (g : ℕ) (x : τ) (n : ℕ) : Step (.live g x (n + 1)) (.live g x n)
  | finalize (g : ℕ) (x : τ) : Step (.live g x 0) (.finalized g x)
  | beginDealloc (g : ℕ) (x : τ) : Step (.finalized g x) (.closing g x)
  | drop (g : ℕ) (x : τ) : Step (.closing g x) (.closed g)
  | finishDealloc (g : ℕ) : Step (.closed g) (.free g)

end Life

/-- `Reserved`, `Live` and `Closing` slots count as active. -/
def SlotState.isActive : SlotState → Bool
  | .free => false
  | .reserved => true
  | .live => true
  | .closing => true
  | .retired => false

/-! ## The bag entries of a slot -/

/-- The bag entries that name slot `i`. -/
@[ext]
structure Footprint (τ : Type*) where
  reservations : Multiset Reservation
  references : Multiset Reservation
  finalized : Multiset Reservation
  closing : Multiset (Reservation × Option τ)
  closed : Multiset Reservation

/-- The slot a call in progress is about. -/
def callSlot {β : Type*} (call : Reservation × β) : ℕ := call.1.index

def System.footprint (s : System τ) (i : ℕ) : Footprint τ where
  reservations := part Reservation.index i s.reservations
  references := part Reservation.index i s.references +
    (part callSlot i s.gets).map Prod.fst
  finalized := part Reservation.index i s.finalized
  closing := part callSlot i s.closing
  closed := part Reservation.index i s.closed

def Life.footprint (i : ℕ) : Life τ → Footprint τ
  | .free _ => ⟨0, 0, 0, 0, 0⟩
  | .reserved g => ⟨{⟨i, g⟩}, 0, 0, 0, 0⟩
  | .live g _ n => ⟨0, Multiset.replicate (n + 1) ⟨i, g⟩, 0, 0, 0⟩
  | .finalized g _ => ⟨0, 0, {⟨i, g⟩}, 0, 0⟩
  | .closing g x => ⟨0, 0, 0, {(⟨i, g⟩, some x)}, 0⟩
  | .closed g => ⟨0, 0, 0, 0, {⟨i, g⟩}⟩
  | .retired _ => ⟨0, 0, 0, 0, 0⟩

/-- What the cell of slot `i` holds while the slot is live. -/
def Life.Cell (i : ℕ) (c : ResourceSlot τ) : Life τ → Prop
  | .live g x n => c = ⟨n + 1, encodeToken i g, some x⟩
  | .finalized g x =>
    isFinalizedRocRefcount c.refcount ∧ c.token = encodeToken i g ∧ c.resource = some x
  | _ => True

/-- A lookup made with `r` has read what belongs to `r`. -/
def GetPc.Reads (r : Reservation) : GetPc → Prop
  | .readToken index => index = r.index
  | .lockState index decoded => index = r.index ∧ decoded = (r.index, r.generation)

/-- The system is in the phase `life i` at every slot `i`. -/
structure Represents (s : System τ) (life : ℕ → Life τ) : Prop where
  state : ∀ i, s.heap.slots i = (life i).state
  generation : ∀ i, s.heap.generations i = (life i).generation
  footprint : ∀ i, s.footprint i = (life i).footprint i
  cell : ∀ i, (life i).Cell i (s.heap.cells i)
  reads : ∀ call ∈ s.gets, call.2.Reads call.1

namespace Represents

variable {s t : System τ} {life : ℕ → Life τ} {r : Reservation}

theorem reserved_of_mem (h : Represents s life) (hr : r ∈ s.reservations) :
    life r.index = .reserved r.generation := by
  have hm : r ∈ (s.footprint r.index).reservations := mem_part.mpr ⟨hr, rfl⟩
  rw [h.footprint] at hm
  cases hl : life r.index <;> simp [hl, Life.footprint] at hm
  rw [hm]

theorem live_of_mem_footprint (h : Represents s life)
    (hm : r ∈ (s.footprint r.index).references) : ∃ x n, life r.index = .live r.generation x n := by
  rw [h.footprint] at hm
  cases hl : life r.index with
  | live g x n =>
    rw [hl] at hm
    have he := Multiset.eq_of_mem_replicate hm
    exact ⟨x, n, by rw [he]⟩
  | _ => simp [hl, Life.footprint] at hm

theorem live_of_mem (h : Represents s life) (hr : r ∈ s.references) :
    ∃ x n, life r.index = .live r.generation x n :=
  h.live_of_mem_footprint (Multiset.mem_add.mpr (.inl (mem_part.mpr ⟨hr, rfl⟩)))

theorem live_of_mem_gets (h : Represents s life) {pc : GetPc} (hr : (r, pc) ∈ s.gets) :
    ∃ x n, life r.index = .live r.generation x n :=
  h.live_of_mem_footprint (Multiset.mem_add.mpr (.inr
    (Multiset.mem_map_of_mem Prod.fst (mem_part.mpr ⟨hr, rfl⟩))))

theorem finalized_of_mem (h : Represents s life) (hr : r ∈ s.finalized) :
    ∃ x, life r.index = .finalized r.generation x := by
  have hm : r ∈ (s.footprint r.index).finalized := mem_part.mpr ⟨hr, rfl⟩
  rw [h.footprint] at hm
  cases hl : life r.index <;> simp [hl, Life.footprint] at hm
  rw [hm]
  exact ⟨_, rfl⟩

theorem closing_of_mem (h : Represents s life) {o : Option τ} (hr : (r, o) ∈ s.closing) :
    ∃ x, o = some x ∧ life r.index = .closing r.generation x := by
  have hm : (r, o) ∈ (s.footprint r.index).closing := mem_part.mpr ⟨hr, rfl⟩
  rw [h.footprint] at hm
  cases hl : life r.index <;> simp [hl, Life.footprint] at hm
  refine ⟨_, hm.2, ?_⟩
  rw [hm.1]

theorem closed_of_mem (h : Represents s life) (hr : r ∈ s.closed) :
    life r.index = .closed r.generation := by
  have hm : r ∈ (s.footprint r.index).closed := mem_part.mpr ⟨hr, rfl⟩
  rw [h.footprint] at hm
  cases hl : life r.index <;> simp [hl, Life.footprint] at hm
  rw [hm]

theorem update (h : Represents s life) {i : ℕ} {l : Life τ}
    (hstate : t.heap.slots = Function.update s.heap.slots i l.state)
    (hgen : t.heap.generations = Function.update s.heap.generations i l.generation)
    (hcell : ∀ j, j ≠ i → t.heap.cells j = s.heap.cells j) (hcell' : l.Cell i (t.heap.cells i))
    (hfoot : ∀ j, j ≠ i → t.footprint j = s.footprint j) (hfoot' : t.footprint i = l.footprint i)
    (hreads : ∀ call ∈ t.gets, call.2.Reads call.1) :
    Represents t (Function.update life i l) := by
  refine ⟨?_, ?_, ?_, ?_, hreads⟩ <;> intro j <;> by_cases hj : j = i
  · subst hj; simp [hstate]
  · simp [hstate, hj, h.state]
  · subst hj; simp [hgen]
  · simp [hgen, hj, h.generation]
  · subst hj; simpa using hfoot'
  · simpa [hj, hfoot j hj] using h.footprint j
  · subst hj; simpa using hcell'
  · simpa [hj, hcell j hj] using h.cell j

theorem keep (h : Represents s life) {i : ℕ} {l : Life τ}
    (hl : l.generation = (life i).generation)
    (hstate : t.heap.slots = Function.update s.heap.slots i l.state)
    (hgen : t.heap.generations = s.heap.generations)
    (hcell : ∀ j, j ≠ i → t.heap.cells j = s.heap.cells j) (hcell' : l.Cell i (t.heap.cells i))
    (hfoot : ∀ j, j ≠ i → t.footprint j = s.footprint j) (hfoot' : t.footprint i = l.footprint i)
    (hreads : ∀ call ∈ t.gets, call.2.Reads call.1) :
    Represents t (Function.update life i l) := by
  refine h.update hstate ?_ hcell hcell' hfoot hfoot' hreads
  rw [hgen, hl, ← h.generation, Function.update_eq_self]

end Represents

/-! ## Free list and counters -/

/-- The heap's lists and counters agree with the phases. -/
structure HeapOk (capacity : ℕ) (h : Heap τ) (life : ℕ → Life τ) : Prop where
  outside : ∀ i, capacity ≤ i → life i = .free 0
  bound : ∀ i, (life i).generation ≤ maxGeneration
  positive : ∀ i, (life i).state ≠ .free → 0 < (life i).generation
  retired : ∀ i g, life i = .retired g → g = maxGeneration
  free_nodup : h.free.Nodup
  mem_free : ∀ i, i ∈ h.free ↔ i < capacity ∧ (life i).state = .free
  active : h.active = ((Finset.range capacity).filter fun i => (life i).state.isActive).card
  highWater : h.active ≤ h.highWater

namespace HeapOk

variable {capacity i : ℕ} {h h' : Heap τ} {life : ℕ → Life τ} {l : Life τ}

theorem lt_capacity (ok : HeapOk capacity h life) (hl : (life i).state ≠ .free) : i < capacity := by
  by_contra hi
  rw [ok.outside i (Nat.le_of_not_lt hi)] at hl
  exact hl rfl

theorem filter_update (hi : i < capacity) :
    ((Finset.range capacity).filter fun j => (Function.update life i l j).state.isActive) =
      if l.state.isActive then
        insert i ((Finset.range capacity).filter fun j => (life j).state.isActive)
      else ((Finset.range capacity).filter fun j => (life j).state.isActive).erase i := by
  ext j
  split_ifs with hl <;> by_cases hj : j = i
  · subst hj; simp [hi, hl]
  · simp [hj]
  · subst hj; simp [hl]
  · simp [hj]

theorem notMem_active {g : ℕ} (hl : life i = .free g) :
    i ∉ (Finset.range capacity).filter fun j => (life j).state.isActive := by
  rw [Finset.mem_filter, hl]
  exact fun hm => Bool.false_ne_true hm.2

theorem bounds_update (ok : HeapOk capacity h life) (hi : i < capacity)
    (hgen : l.generation ≤ maxGeneration) (hpos : l.state ≠ .free → 0 < l.generation)
    (hret : ∀ g, l = .retired g → g = maxGeneration) :
    (∀ j, capacity ≤ j → Function.update life i l j = .free 0) ∧
    (∀ j, (Function.update life i l j).generation ≤ maxGeneration) ∧
    (∀ j, (Function.update life i l j).state ≠ .free →
      0 < (Function.update life i l j).generation) ∧
    ∀ j g, Function.update life i l j = .retired g → g = maxGeneration := by
  refine ⟨fun j hj => ?_, fun j => ?_, fun j => ?_, fun j => ?_⟩
  · have hne : j ≠ i := by omega
    simpa [hne] using ok.outside j hj
  all_goals by_cases hj : j = i
  · subst hj; simpa using hgen
  · simpa [hj] using ok.bound j
  · subst hj; simpa using hpos
  · simpa [hj] using ok.positive j
  · subst hj; simpa using hret
  · simpa [hj] using ok.retired j

theorem stay (ok : HeapOk capacity h life) (hl : (life i).state.isActive)
    (hl' : l.state.isActive) (hgen : l.generation = (life i).generation)
    (hfree : h'.free = h.free) (hactive : h'.active = h.active)
    (hhigh : h'.highWater = h.highWater) : HeapOk capacity h' (Function.update life i l) := by
  have hne : ∀ {x : Life τ}, x.state.isActive → x.state ≠ .free := by
    intro x hx he
    rw [he] at hx
    cases hx
  have hi := ok.lt_capacity (hne hl)
  obtain ⟨h₁, h₂, h₃, h₄⟩ := ok.bounds_update (l := l) hi (hgen ▸ ok.bound i)
    (fun _ => hgen ▸ ok.positive i (hne hl)) (by rintro g rfl; cases hl')
  refine ⟨h₁, h₂, h₃, h₄, hfree ▸ ok.free_nodup, ?_, ?_, by rw [hactive, hhigh]; exact ok.highWater⟩
  · intro j
    rw [hfree, ok.mem_free]
    by_cases hj : j = i
    · subst hj; simp [hne hl, hne hl']
    · simp [hj]
  · rw [hactive, ok.active, filter_update hi, if_pos hl', Finset.insert_eq_of_mem]
    simp [hi, hl]

theorem reserve (ok : HeapOk capacity h life) {free : List ℕ} (hfree : h.free = i :: free) {g : ℕ}
    (hl : life i = .free g) (hg : g < maxGeneration) (hfree' : h'.free = free)
    (hactive : h'.active = h.active + 1)
    (hhigh : h'.highWater = max h.highWater (h.active + 1)) :
    HeapOk capacity h' (Function.update life i (.reserved (g + 1))) := by
  have hnodup := ok.free_nodup
  rw [hfree, List.nodup_cons] at hnodup
  have hi : i < capacity := ((ok.mem_free i).mp (by simp [hfree])).1
  obtain ⟨h₁, h₂, h₃, h₄⟩ := ok.bounds_update (l := .reserved (g + 1)) hi hg
    (fun _ => Nat.succ_pos g) (by simp)
  refine ⟨h₁, h₂, h₃, h₄, hfree' ▸ hnodup.2, ?_, ?_, by omega⟩
  · intro j
    rw [hfree']
    have hmem := ok.mem_free j
    rw [hfree, List.mem_cons] at hmem
    by_cases hj : j = i
    · subst hj; simp [hnodup.1, Life.state]
    · simpa [hj] using hmem
  · have hact : (Life.reserved (g + 1) : Life τ).state.isActive = true := rfl
    rw [hactive, ok.active, filter_update hi, if_pos hact,
      Finset.card_insert_of_notMem (notMem_active hl)]

theorem retire (ok : HeapOk capacity h life) {free : List ℕ} (hfree : h.free = i :: free) {g : ℕ}
    (hl : life i = .free g) (hg : g = maxGeneration) (hfree' : h'.free = free)
    (hactive : h'.active = h.active) (hhigh : h'.highWater = h.highWater) :
    HeapOk capacity h' (Function.update life i (.retired g)) := by
  have hnodup := ok.free_nodup
  rw [hfree, List.nodup_cons] at hnodup
  have hi : i < capacity := ((ok.mem_free i).mp (by simp [hfree])).1
  have hpos : 0 < g := hg ▸ maxGeneration_pos
  obtain ⟨h₁, h₂, h₃, h₄⟩ := ok.bounds_update (l := .retired g) hi (Nat.le_of_eq hg)
    (fun _ => hpos) (by rintro g' ⟨⟩; exact hg)
  refine ⟨h₁, h₂, h₃, h₄, hfree' ▸ hnodup.2, ?_, ?_, by rw [hactive, hhigh]; exact ok.highWater⟩
  · intro j
    rw [hfree']
    have hmem := ok.mem_free j
    rw [hfree, List.mem_cons] at hmem
    by_cases hj : j = i
    · subst hj; simp [hnodup.1, Life.state]
    · simpa [hj] using hmem
  · have hact : (Life.retired g : Life τ).state.isActive ≠ true := Bool.false_ne_true
    rw [hactive, ok.active, filter_update hi, if_neg hact,
      Finset.erase_eq_of_notMem (notMem_active hl)]

theorem release (ok : HeapOk capacity h life) (hl : (life i).state.isActive) {g : ℕ}
    (hg : g = (life i).generation) (hfree : h'.free = i :: h.free)
    (hactive : h'.active = h.active - 1) (hhigh : h'.highWater = h.highWater) :
    HeapOk capacity h' (Function.update life i (.free g)) := by
  have hne : (life i).state ≠ .free := by
    intro he
    rw [he] at hl
    cases hl
  have hi := ok.lt_capacity hne
  obtain ⟨h₁, h₂, h₃, h₄⟩ := ok.bounds_update (l := .free g) hi (hg ▸ ok.bound i)
    (fun he => absurd rfl he) (by simp)
  have hhw := ok.highWater
  refine ⟨h₁, h₂, h₃, h₄, ?_, ?_, ?_, by omega⟩
  · rw [hfree, List.nodup_cons, ok.mem_free]
    exact ⟨fun hm => hne hm.2, ok.free_nodup⟩
  · intro j
    rw [hfree, List.mem_cons, ok.mem_free]
    by_cases hj : j = i
    · subst hj; simp [hi, Life.state]
    · simp [hj]
  · have hact : (Life.free g : Life τ).state.isActive ≠ true := Bool.false_ne_true
    rw [hactive, ok.active, filter_update hi, if_neg hact,
      Finset.card_erase_of_mem (by simp [hi, hl])]

end HeapOk

/-! ## Logs -/

/-- Every generation up to the current one was handed out once; what was inserted is dropped or
still carried by its slot, never both; no lookup, deallocation or assertion failed. -/
structure LogsOk (s : System τ) (life : ℕ → Life τ) : Prop where
  handedOut_nodup : s.handedOut.Nodup
  mem_handedOut : ∀ r, r ∈ s.handedOut ↔
    0 < r.generation ∧ r.generation ≤ (life r.index).generation
  inserted_nodup : (s.inserted.map Prod.fst).Nodup
  settled : ∀ r x, (r, x) ∈ s.inserted → r.generation ≤ (life r.index).settled
  mem_inserted : ∀ r x, (r, x) ∈ s.inserted ↔ (r, x) ∈ s.dropped ∨
    r.generation = (life r.index).generation ∧ (life r.index).resource = some x
  dropped_nodup : (s.dropped.map Prod.fst).Nodup
  dropped : ∀ r x, (r, x) ∈ s.dropped → r.generation = (life r.index).generation →
    (life r.index).resource = none
  results : ∀ call ∈ s.results, ∃ x, call.2 = .ok (some x) ∧ (call.1, x) ∈ s.inserted
  routes : ∀ route ∈ s.routes, route = .deallocated
  panicked : s.panicked = false

namespace LogsOk

variable {s t : System τ} {life : ℕ → Life τ} {i : ℕ} {l : Life τ}

theorem keep (ok : LogsOk s life) (hgen : l.generation = (life i).generation)
    (hres : l.resource = (life i).resource) (hset : (life i).settled ≤ l.settled)
    (hout : t.handedOut = s.handedOut) (hins : t.inserted = s.inserted)
    (hdrop : t.dropped = s.dropped)
    (hresults : ∀ call ∈ t.results, ∃ x, call.2 = .ok (some x) ∧ (call.1, x) ∈ s.inserted)
    (hroutes : ∀ route ∈ t.routes, route = .deallocated) (hpan : t.panicked = false) :
    LogsOk t (Function.update life i l) := by
  have hg : ∀ j, (Function.update life i l j).generation = (life j).generation := by
    intro j
    by_cases hj : j = i
    · subst hj; simpa using hgen
    · simp [hj]
  have hr : ∀ j, (Function.update life i l j).resource = (life j).resource := by
    intro j
    by_cases hj : j = i
    · subst hj; simpa using hres
    · simp [hj]
  have hs : ∀ j, (life j).settled ≤ (Function.update life i l j).settled := by
    intro j
    by_cases hj : j = i
    · subst hj; simpa using hset
    · simp [hj]
  refine ⟨hout ▸ ok.handedOut_nodup, ?_, hins ▸ ok.inserted_nodup, ?_, ?_,
    hdrop ▸ ok.dropped_nodup, ?_, hins ▸ hresults, hroutes, hpan⟩
  · intro r
    rw [hout, hg]
    exact ok.mem_handedOut r
  · intro r x hm
    rw [hins] at hm
    exact Nat.le_trans (ok.settled r x hm) (hs _)
  · intro r x
    rw [hins, hdrop, hg, hr]
    exact ok.mem_inserted r x
  · intro r x hm
    rw [hdrop] at hm
    rw [hg, hr]
    exact ok.dropped r x hm

theorem reserve (ok : LogsOk s life) {g : ℕ} (hl : life i = .free g)
    (hout : t.handedOut = s.handedOut ++ [⟨i, g + 1⟩]) (hins : t.inserted = s.inserted)
    (hdrop : t.dropped = s.dropped) (hresults : t.results = s.results)
    (hroutes : t.routes = s.routes) (hpan : t.panicked = s.panicked) :
    LogsOk t (Function.update life i (.reserved (g + 1))) := by
  refine ⟨?_, ?_, hins ▸ ok.inserted_nodup, ?_, ?_, hdrop ▸ ok.dropped_nodup, ?_,
    by rw [hins, hresults]; exact ok.results, hroutes ▸ ok.routes, hpan ▸ ok.panicked⟩
  · rw [hout, List.nodup_append]
    refine ⟨ok.handedOut_nodup, List.nodup_singleton _, ?_⟩
    rintro r hr r' hr' rfl
    obtain rfl := List.mem_singleton.mp hr'
    have hle := ((ok.mem_handedOut _).mp hr).2
    simp only [hl, Life.generation] at hle
    omega
  · intro r
    rw [hout, List.mem_append, List.mem_singleton, ok.mem_handedOut]
    by_cases hr : r.index = i
    · obtain ⟨j, g'⟩ := r
      subst hr
      simp only [hl, Life.generation, Function.update_self, Reservation.mk.injEq, true_and]
      omega
    · have hne : r ≠ ⟨i, g + 1⟩ := fun e => hr (by rw [e])
      simp [hr, hne]
  · intro r x hm
    rw [hins] at hm
    have hle := ok.settled r x hm
    by_cases hr : r.index = i
    · rw [hr, hl] at hle
      rw [hr, Function.update_self]
      exact hle
    · simpa [hr] using hle
  · intro r x
    rw [hins, hdrop, ok.mem_inserted]
    by_cases hr : r.index = i
    · rw [hr, hl, Function.update_self]
      simp [Life.resource]
    · simp [hr]
  · intro r x hm
    rw [hdrop] at hm
    by_cases hr : r.index = i
    · rw [hr, Function.update_self]
      exact fun _ => rfl
    · simpa [hr] using ok.dropped r x hm

theorem insert (ok : LogsOk s life) {g : ℕ} {y : τ} (hl : life i = .reserved g) (hg : 0 < g)
    (hout : t.handedOut = s.handedOut) (hins : t.inserted = s.inserted ++ [(⟨i, g⟩, y)])
    (hdrop : t.dropped = s.dropped) (hresults : t.results = s.results)
    (hroutes : t.routes = s.routes) (hpan : t.panicked = s.panicked) :
    LogsOk t (Function.update life i (.live g y 0)) := by
  -- this generation of the slot was neither inserted nor dropped before
  have hfresh : ∀ x, (⟨i, g⟩, x) ∉ s.inserted := by
    intro x hm
    have hle := ok.settled _ x hm
    simp only [hl, Life.settled] at hle
    omega
  have hdropped : ∀ x, (⟨i, g⟩, x) ∉ s.dropped := fun x hm =>
    hfresh x ((ok.mem_inserted _ x).mpr (.inl hm))
  refine ⟨hout ▸ ok.handedOut_nodup, ?_, ?_, ?_, ?_, hdrop ▸ ok.dropped_nodup, ?_, ?_,
    hroutes ▸ ok.routes, hpan ▸ ok.panicked⟩
  · intro r
    rw [hout, ok.mem_handedOut]
    by_cases hr : r.index = i
    · rw [hr, hl, Function.update_self]; rfl
    · simp [hr]
  · rw [hins, List.map_append, List.nodup_append]
    refine ⟨ok.inserted_nodup, List.nodup_singleton _, ?_⟩
    rintro r hr r' hr' rfl
    obtain ⟨⟨r, x⟩, hm, rfl⟩ := List.mem_map.mp hr
    have he : r = ⟨i, g⟩ := List.mem_singleton.mp hr'
    exact hfresh x (he ▸ hm)
  · intro r x hm
    rw [hins, List.mem_append, List.mem_singleton] at hm
    rcases hm with hm | hm
    · have hle := ok.settled r x hm
      by_cases hr : r.index = i
      · rw [hr, hl] at hle
        rw [hr, Function.update_self]
        exact Nat.le_trans hle (Nat.sub_le g 1)
      · simpa [hr] using hle
    · obtain ⟨rfl, rfl⟩ := Prod.mk.inj hm
      rw [Function.update_self]
      exact Nat.le_refl g
  · intro r x
    rw [hins, hdrop, List.mem_append, List.mem_singleton, ok.mem_inserted, Prod.mk.injEq]
    by_cases hr : r.index = i
    · obtain ⟨j, g'⟩ := r
      subst hr
      simp [hl, Life.resource, Life.generation, eq_comm]
    · have hne : r ≠ ⟨i, g⟩ := fun e => hr (by rw [e])
      simp [hr, hne]
  · intro r x hm he
    rw [hdrop] at hm
    by_cases hr : r.index = i
    · rw [hr, Function.update_self] at he
      obtain ⟨j, g'⟩ := r
      obtain rfl : j = i := hr
      obtain rfl : g' = g := he
      exact absurd hm (hdropped x)
    · simp only [hr, ne_eq, not_false_eq_true, Function.update_of_ne] at he ⊢
      exact ok.dropped r x hm he
  · intro call hcall
    rw [hresults] at hcall
    obtain ⟨x, hx, hm⟩ := ok.results call hcall
    exact ⟨x, hx, by rw [hins]; exact List.mem_append_left _ hm⟩

theorem drop (ok : LogsOk s life) {g : ℕ} {y : τ} (hl : life i = .closing g y)
    (hout : t.handedOut = s.handedOut) (hins : t.inserted = s.inserted)
    (hdrop : t.dropped = s.dropped ++ [(⟨i, g⟩, y)]) (hresults : t.results = s.results)
    (hroutes : t.routes = s.routes) (hpan : t.panicked = s.panicked) :
    LogsOk t (Function.update life i (.closed g)) := by
  have hfresh : ∀ x, (⟨i, g⟩, x) ∉ s.dropped := by
    intro x hm
    have hnone := ok.dropped _ x hm (by rw [hl]; rfl)
    rw [hl] at hnone
    cases hnone
  refine ⟨hout ▸ ok.handedOut_nodup, ?_, hins ▸ ok.inserted_nodup, ?_, ?_, ?_, ?_,
    by rw [hins, hresults]; exact ok.results, hroutes ▸ ok.routes, hpan ▸ ok.panicked⟩
  · intro r
    rw [hout, ok.mem_handedOut]
    by_cases hr : r.index = i
    · rw [hr, hl, Function.update_self]; rfl
    · simp [hr]
  · intro r x hm
    rw [hins] at hm
    have hle := ok.settled r x hm
    by_cases hr : r.index = i
    · rw [hr, hl] at hle
      rw [hr, Function.update_self]
      exact hle
    · simpa [hr] using hle
  · intro r x
    rw [hins, hdrop, List.mem_append, List.mem_singleton, ok.mem_inserted, Prod.mk.injEq]
    by_cases hr : r.index = i
    · obtain ⟨j, g'⟩ := r
      subst hr
      simp [hl, Life.resource, Life.generation, eq_comm]
    · have hne : r ≠ ⟨i, g⟩ := fun e => hr (by rw [e])
      simp [hr, hne]
  · rw [hdrop, List.map_append, List.nodup_append]
    refine ⟨ok.dropped_nodup, List.nodup_singleton _, ?_⟩
    rintro r hr r' hr' rfl
    obtain ⟨⟨r, x⟩, hm, rfl⟩ := List.mem_map.mp hr
    have he : r = ⟨i, g⟩ := List.mem_singleton.mp hr'
    exact hfresh x (he ▸ hm)
  · intro r x hm he
    by_cases hr : r.index = i
    · rw [hr, Function.update_self]; rfl
    · have hne : r ≠ ⟨i, g⟩ := fun e => hr (by rw [e])
      simp only [hdrop, List.mem_append, List.mem_singleton, Prod.mk.injEq, hne, false_and,
        or_false] at hm
      simp only [hr, ne_eq, not_false_eq_true, Function.update_of_ne] at he ⊢
      exact ok.dropped r x hm he

end LogsOk

end BasicWebserver.HostResource
