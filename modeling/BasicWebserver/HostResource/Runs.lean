import BasicWebserver.HostResource.Invariant

/-!
# What holds over whole runs of the heap

`heap_lifecycle` reads the invariant off at the end of a run: the free list and the counters, the
generations handed out, where every inserted resource is, and what lookups and deallocations
returned.
-/

namespace BasicWebserver.HostResource

open Transition

variable {τ : Type*}

/-! ## The high-water mark -/

theorem highWater_reserveLoop (free : List ℕ) :
    ∀ h : Heap τ, h.active ≤ h.highWater →
      (reserveLoop h free).1.highWater = max h.highWater (reserveLoop h free).1.active := by
  induction free with
  | nil =>
    intro h hle
    exact (Nat.max_eq_left hle).symm
  | cons i free ih =>
    intro h hle
    unfold reserveLoop
    dsimp only
    split_ifs with hg
    · exact ih _ hle
    · rfl

/-- The operation leaves the mark alone and does not raise `active`. -/
def Lowers (h h' : Heap τ) : Prop := h'.highWater = h.highWater ∧ h'.active ≤ h.active

theorem lowers_refl (h : Heap τ) : Lowers h h := ⟨rfl, Nat.le_refl _⟩

section Marks

variable {L : Layout} {capacity : ℕ} {h h' : Heap τ} {s t : System τ} {a : Action τ}

theorem lowers_commit {index generation : ℕ} {x : τ} (hc : commit h index generation x = some h') :
    Lowers h h' := by
  unfold commit at hc
  split_ifs at hc
  exact Option.some.inj hc ▸ lowers_refl h

theorem lowers_cancelReservation (index generation : ℕ) :
    Lowers h (cancelReservation h index generation) := by
  unfold cancelReservation
  split_ifs
  · exact ⟨rfl, Nat.sub_le _ 1⟩
  · exact lowers_refl h

theorem lowers_incref (index : ℕ) : Lowers h (incref h index) := by
  unfold incref
  dsimp only
  split_ifs
  · exact lowers_refl h
  · exact ⟨rfl, Nat.le_refl _⟩

theorem lowers_decref (index : ℕ) (poison : Bool) : Lowers h (decref h index poison).1 := by
  unfold decref
  dsimp only
  split_ifs
  · exact lowers_refl h
  all_goals exact ⟨rfl, Nat.le_refl _⟩

theorem lowers_beginDealloc (L : Layout) (capacity : ℕ) (h : Heap τ) (ptr : ℕ) :
    Lowers h (beginDealloc L capacity h ptr).1 := by
  unfold beginDealloc
  split
  · exact lowers_refl h
  · split_ifs
    · exact lowers_refl h
    · split
      · exact lowers_refl h
      · split_ifs
        · exact lowers_refl h
        · exact ⟨rfl, Nat.le_refl _⟩

theorem lowers_finishDealloc {index generation : ℕ}
    (hf : finishDealloc h index generation = some h') : Lowers h h' := by
  unfold finishDealloc at hf
  split_ifs at hf
  exact Option.some.inj hf ▸ ⟨rfl, Nat.sub_le _ 1⟩

theorem highWater_step (hle : s.heap.active ≤ s.heap.highWater)
    (h : step L capacity s a = some t) :
    t.heap.highWater = max s.heap.highWater t.heap.active := by
  have lowers : ∀ {t : System τ}, Lowers s.heap t.heap →
      t.heap.highWater = max s.heap.highWater t.heap.active := by
    rintro t ⟨hhigh, hactive⟩
    omega
  cases a with
  | reserve =>
    obtain rfl := Option.some.inj h
    have hloop := highWater_reserveLoop s.heap.free s.heap hle
    unfold System.stepReserve reserve
    split <;> next heq => rw [heq] at hloop; exact hloop
  | insert j x =>
    obtain ⟨⟨r, rest⟩, -, rfl⟩ := Option.map_eq_some_iff.mp h
    apply lowers
    dsimp only
    unfold System.stepInsert
    split
    · next heq => exact lowers_commit heq
    · exact lowers_refl _
  | dropReservation j =>
    obtain ⟨⟨r, rest⟩, -, rfl⟩ := Option.map_eq_some_iff.mp h
    exact lowers (lowers_cancelReservation ..)
  | incref j =>
    obtain ⟨⟨r, rest⟩, -, rfl⟩ := Option.map_eq_some_iff.mp h
    exact lowers (lowers_incref ..)
  | decref j poison =>
    obtain ⟨⟨r, rest⟩, -, rfl⟩ := Option.map_eq_some_iff.mp h
    have hlow := lowers_decref (h := s.heap) r.index poison
    apply lowers
    dsimp only
    unfold System.stepDecref
    split <;> next heq => rw [heq] at hlow; exact hlow
  | beginDealloc j =>
    obtain ⟨⟨r, rest⟩, -, rfl⟩ := Option.map_eq_some_iff.mp h
    have hlow := lowers_beginDealloc L capacity s.heap (L.basePtr r.index)
    apply lowers
    dsimp only
    unfold System.stepBeginDealloc
    split <;> next heq => rw [heq] at hlow; exact hlow
  | dropResource j =>
    obtain ⟨⟨r, rest⟩, -, rfl⟩ := Option.map_eq_some_iff.mp h
    exact lowers (lowers_refl _)
  | finishDealloc j =>
    obtain ⟨⟨r, rest⟩, -, rfl⟩ := Option.map_eq_some_iff.mp h
    apply lowers
    dsimp only
    unfold System.stepFinishDealloc
    split
    · next heq => exact lowers_finishDealloc heq
    · exact lowers_refl _
  | get j =>
    obtain ⟨⟨r, rest⟩, -, rfl⟩ := Option.map_eq_some_iff.mp h
    apply lowers
    dsimp only
    unfold System.stepGet
    split <;> exact lowers_refl _
  | getNext j =>
    obtain ⟨⟨⟨r, pc⟩, rest⟩, -, rfl⟩ := Option.map_eq_some_iff.mp h
    apply lowers
    dsimp only
    unfold System.stepGetNext
    split
    · split <;> exact lowers_refl _
    · exact lowers_refl _

end Marks

/-! ## Runs -/

section Runs

variable {L : Layout} {capacity : ℕ} {s t : System τ} {as : List (Action τ)}

theorem good_of_exec (hcap : capacity ≤ tokenIndexMask) {life : ℕ → Life τ}
    (good : Good capacity s life) (h : (machine τ L capacity).exec s as = some t) :
    Advances capacity life t := by
  refine (machine τ L capacity).invariant_exec (P := Advances capacity life) ?_
    ⟨life, good, fun _ => .refl⟩ h
  rintro u a u' ⟨life', good', hfollows⟩ hstep
  obtain ⟨life'', good'', hfollows'⟩ := advances_step hcap good' hstep
  exact ⟨life'', good'', fun i => (hfollows i).trans (hfollows' i)⟩

theorem retired_of_reflTransGen {g : ℕ} {l : Life τ}
    (h : Relation.ReflTransGen Life.Step (.retired g) l) : l = .retired g := by
  induction h with
  | refl => rfl
  | tail _ hstep ih =>
    subst ih
    cases hstep

theorem life_eq_retired {life : ℕ → Life τ} {i : ℕ} (hrep : Represents s life)
    (hi : s.heap.slots i = .retired) : ∃ g, life i = .retired g := by
  rw [hrep.state] at hi
  cases hl : life i <;> rw [hl] at hi <;> first | exact ⟨_, rfl⟩ | cases hi

theorem resource_eq_none_of_quiet {life : ℕ → Life τ} (hrep : Represents s life)
    (hrefs : s.references = []) (hgets : s.gets = []) (hfin : s.finalized = [])
    (hclosing : s.closing = []) (i : ℕ) : (life i).resource = none := by
  have hfoot := hrep.footprint i
  cases hl : life i <;> rw [hl] at hfoot <;>
    simp [System.footprint, Life.footprint, hrefs, hgets, hfin, hclosing] at hfoot <;> rfl

theorem resource_eq_some_iff {life : ℕ → Life τ} (hrep : Represents s life) (r : Reservation)
    (x : τ) :
    (r.generation = (life r.index).generation ∧ (life r.index).resource = some x) ↔
      (s.heap.slots r.index = .live ∧ s.heap.generations r.index = r.generation ∧
        (s.heap.cells r.index).resource = some x) ∨ (r, some x) ∈ s.closing := by
  have hclosing : (r, some x) ∈ s.closing ↔ life r.index = .closing r.generation x := by
    constructor
    · intro hm
      obtain ⟨y, hy, hl⟩ := hrep.closing_of_mem hm
      rw [hl, Option.some.inj hy]
    · intro hl
      have hfoot := congrArg Footprint.closing (hrep.footprint r.index)
      rw [hl] at hfoot
      have hm : (r, some x) ∈ (s.footprint r.index).closing := by
        rw [hfoot]; exact Multiset.mem_singleton_self _
      exact (Bag.mem_part.mp hm).1
  have hcell := hrep.cell r.index
  rw [hrep.state, hrep.generation, hclosing]
  cases hl : life r.index with
  | live g y n =>
    rw [hl] at hcell
    simp only [Life.Cell] at hcell
    simp [Life.generation, Life.resource, Life.state, hcell, eq_comm]
  | finalized g y =>
    rw [hl] at hcell
    simp only [Life.Cell] at hcell
    simp [Life.generation, Life.resource, Life.state, hcell.2.2, eq_comm]
  | closing g y => simp [Life.generation, Life.resource, Life.state, eq_comm]
  | _ => simp [Life.resource, Life.state]

theorem mem_inserted_iff {life : ℕ → Life τ} (good : Good capacity s life) (r : Reservation)
    (x : τ) : (r, x) ∈ s.inserted ↔ (r, x) ∈ s.dropped ∨
      (s.heap.slots r.index = .live ∧ s.heap.generations r.index = r.generation ∧
        (s.heap.cells r.index).resource = some x) ∨ (r, some x) ∈ s.closing := by
  rw [good.logs.mem_inserted, resource_eq_some_iff good.represents]

theorem notMem_of_dropped {life : ℕ → Life τ} (good : Good capacity s life) (r : Reservation)
    (x : τ) (hm : (r, x) ∈ s.dropped) : (r, some x) ∉ s.closing ∧
      ¬ (s.heap.slots r.index = .live ∧ s.heap.generations r.index = r.generation) := by
  have hrep := good.represents
  refine ⟨fun hc => ?_, fun hlive => ?_⟩
  · obtain ⟨hg, hres⟩ := (resource_eq_some_iff hrep r x).mpr (.inr hc)
    rw [good.logs.dropped r x hm hg] at hres
    cases hres
  · rw [hrep.state, hrep.generation] at hlive
    have hnone := good.logs.dropped r x hm hlive.2.symm
    cases hl : life r.index with
    | live g y n => rw [hl] at hnone; cases hnone
    | finalized g y => rw [hl] at hnone; cases hnone
    | _ => rw [hl] at hlive; cases hlive.1

/-- **Heap lifecycle.** After any run of a heap of at most 65535 slots: the free list has no duplicate
and holds exactly the free slots; `active` counts the reserved, live and closing slots and
`highWater` is its maximum over the run; no index is handed out twice under one generation, and a
slot out of generations stays retired; every inserted resource is in its slot, with the deallocation
that moved it out, or dropped once, and all are dropped when no reference and no deallocation is
left; every lookup returned the resource inserted under the handle's own reservation; and no
assertion failed and no deallocation was refused. -/
theorem heap_lifecycle (hcap : capacity ≤ 65535)
    (h : (machine τ L capacity).exec (System.init capacity) as = some s) :
    (s.heap.free.Nodup ∧ ∀ i, i ∈ s.heap.free ↔ i < capacity ∧ s.heap.slots i = .free) ∧
    s.heap.active = ((Finset.range capacity).filter fun i => (s.heap.slots i).isActive).card ∧
    ((∀ bs cs t, as = bs ++ cs → (machine τ L capacity).exec (System.init capacity) bs = some t →
        t.heap.active ≤ s.heap.highWater) ∧
      ∃ bs cs t, as = bs ++ cs ∧ (machine τ L capacity).exec (System.init capacity) bs = some t ∧
        t.heap.active = s.heap.highWater) ∧
    (s.handedOut.Nodup ∧ ∀ r ∈ s.handedOut, r.index < capacity ∧ r.generation ≤ 2 ^ 48 - 1) ∧
    (∀ i, s.heap.slots i = .retired → s.heap.generations i = 2 ^ 48 - 1 ∧
      ∀ bs t, (machine τ L capacity).exec s bs = some t → t.heap.slots i = .retired) ∧
    ((s.inserted.map Prod.fst).Nodup ∧ (s.dropped.map Prod.fst).Nodup ∧
      (∀ r x, (r, x) ∈ s.inserted ↔ (r, x) ∈ s.dropped ∨
        (s.heap.slots r.index = .live ∧ s.heap.generations r.index = r.generation ∧
          (s.heap.cells r.index).resource = some x) ∨ (r, some x) ∈ s.closing) ∧
      (∀ r x, (r, x) ∈ s.dropped → (r, some x) ∉ s.closing ∧
        ¬ (s.heap.slots r.index = .live ∧ s.heap.generations r.index = r.generation)) ∧
      (s.references = [] → s.gets = [] → s.finalized = [] → s.closing = [] →
        s.dropped.Perm s.inserted)) ∧
    (∀ call ∈ s.results, ∃ x, call.2 = .ok (some x) ∧ (call.1, x) ∈ s.inserted) ∧
    s.panicked = false ∧ ∀ route ∈ s.routes, route = .deallocated := by
  have hmask : capacity ≤ tokenIndexMask := hcap
  obtain ⟨life, good, -⟩ := good_of_exec hmask (good_init capacity) h
  have hrep := good.represents
  refine ⟨⟨good.heap.free_nodup, ?_⟩, ?_, ?_, ⟨good.logs.handedOut_nodup, ?_⟩, ?_,
    ⟨good.logs.inserted_nodup, good.logs.dropped_nodup, mem_inserted_iff good,
      notMem_of_dropped good, ?_⟩, good.logs.results, good.logs.panicked, good.logs.routes⟩
  · intro i
    rw [hrep.state]
    exact good.heap.mem_free i
  · simp only [hrep.state]
    exact good.heap.active
  · refine (machine τ L capacity).max_of_run (g := fun s => s.heap.active)
      (w := fun s => s.heap.highWater) rfl (fun bs u a u' hu ha => ?_) h
    obtain ⟨life', good', -⟩ := good_of_exec hmask (good_init capacity) hu
    exact highWater_step good'.heap.highWater ha
  · intro r hr
    obtain ⟨hgen, hle⟩ := (good.logs.mem_handedOut r).mp hr
    have hbound := good.heap.bound r.index
    rw [maxGeneration_eq] at hbound
    refine ⟨?_, Nat.le_trans hle hbound⟩
    by_contra hi
    rw [good.heap.outside r.index (Nat.le_of_not_lt hi)] at hle
    exact Nat.not_lt_of_le hle hgen
  · intro i hi
    obtain ⟨g, hl⟩ := life_eq_retired hrep hi
    refine ⟨?_, fun bs t ht => ?_⟩
    · rw [hrep.generation, hl, ← maxGeneration_eq]
      exact good.heap.retired i g hl
    · obtain ⟨life', good', hfollows⟩ := good_of_exec hmask good ht
      have hret := hfollows i
      rw [hl] at hret
      rw [good'.represents.state, retired_of_reflTransGen hret]
      rfl
  · intro hrefs hgets hfin hclosing
    have hnone := resource_eq_none_of_quiet hrep hrefs hgets hfin hclosing
    refine (List.perm_ext_iff_of_nodup (.of_map _ good.logs.dropped_nodup)
      (.of_map _ good.logs.inserted_nodup)).mpr ?_
    rintro ⟨r, x⟩
    rw [good.logs.mem_inserted, hnone]
    simp

end Runs

/-- One slot is reserved, filled, looked up, shared, released and reserved again. -/
def lookupAndRelease : List (Action ℕ) :=
  [.reserve, .insert 0 7, .get 0, .getNext 0, .getNext 0, .incref 0, .decref 0 false,
    .decref 0 true, .beginDealloc 0, .dropResource 0, .finishDealloc 0, .reserve]

theorem lookupAndRelease_isSome :
    ((machine ℕ ⟨4096, 24, by decide⟩ 1).exec (System.init 1) lookupAndRelease).isSome := by
  decide +kernel

theorem heap_lifecycle_lookupAndRelease :
    ∃ s, (machine ℕ ⟨4096, 24, by decide⟩ 1).exec (System.init 1) lookupAndRelease = some s ∧
      s.handedOut = [⟨0, 1⟩, ⟨0, 2⟩] ∧ s.inserted = [(⟨0, 1⟩, 7)] ∧ s.dropped.Perm s.inserted := by
  refine ⟨_, (Option.some_get lookupAndRelease_isSome).symm, by decide +kernel,
    by decide +kernel, ?_⟩
  exact (heap_lifecycle (by decide) (Option.some_get lookupAndRelease_isSome).symm).2.2.2.2.2.1.2.2.2.2
    (by decide +kernel) (by decide +kernel) (by decide +kernel) (by decide +kernel)

end BasicWebserver.HostResource
