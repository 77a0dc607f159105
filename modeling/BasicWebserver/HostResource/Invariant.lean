import Mathlib.Logic.Relation
import BasicWebserver.HostResource.Lifecycle

/-!
# The heap keeps its invariant

One lemma for each label of `machine`: the slot it names goes one step along its life and all other
slots keep theirs. `reserve` may retire slots before it reserves one.
-/

namespace BasicWebserver.HostResource

open Bag

variable {τ : Type*}

/-- The joint invariant, with the phase of every slot. -/
structure Good (capacity : ℕ) (s : System τ) (life : ℕ → Life τ) : Prop where
  represents : Represents s life
  heap : HeapOk capacity s.heap life
  logs : LogsOk s life

/-- Every slot goes along its life. -/
def Follows (life life' : ℕ → Life τ) : Prop :=
  ∀ i, Relation.ReflTransGen Life.Step (life i) (life' i)

theorem follows_update {life : ℕ → Life τ} {i : ℕ} {l : Life τ} (h : Life.Step (life i) l) :
    Follows life (Function.update life i l) := by
  intro k
  by_cases hk : k = i
  · subst hk
    rw [Function.update_self]
    exact .single h
  · rw [Function.update_of_ne hk]

/-- `t` keeps the invariant and its slots have gone on from `life`. -/
def Advances (capacity : ℕ) (life : ℕ → Life τ) (t : System τ) : Prop :=
  ∃ life', Good capacity t life' ∧ Follows life life'

theorem advances_update {capacity : ℕ} {life : ℕ → Life τ} {t : System τ} {i : ℕ} {l l' : Life τ}
    (hl : life i = l) (hstep : Life.Step l l') (good : Good capacity t (Function.update life i l')) :
    Advances capacity life t :=
  ⟨_, good, follows_update (hl ▸ hstep)⟩

section Steps

variable {capacity : ℕ} {s : System τ} {life : ℕ → Life τ} {r : Reservation} {j : ℕ}

/-! ## reserve -/

theorem saturatingAdd_one {g : ℕ} (hg : g ≤ maxGeneration) : saturatingAdd g 1 = g + 1 := by
  rw [maxGeneration_eq] at hg
  unfold saturatingAdd
  omega

theorem good_retire {h : Heap τ} {i g : ℕ} {free : List ℕ}
    (good : Good capacity { s with heap := h } life) (hfree : h.free = i :: free)
    (hl : life i = .free g) (hg : g = maxGeneration) :
    Good capacity
      { s with heap := { h with free := free, slots := Function.update h.slots i .retired } }
      (Function.update life i (.retired g)) := by
  have hrep := good.represents
  refine ⟨hrep.keep (by rw [hl]; rfl) rfl rfl (fun _ _ => rfl) trivial (fun _ _ => rfl) ?_
      hrep.reads, good.heap.retire hfree hl hg rfl rfl rfl, ?_⟩
  · have hfoot := hrep.footprint i
    rw [hl] at hfoot
    exact hfoot
  · exact good.logs.keep (by rw [hl]; rfl) (by rw [hl]; rfl) (by rw [hl]; exact Nat.le_refl g)
      rfl rfl rfl good.logs.results good.logs.routes good.logs.panicked

theorem good_reserved {h : Heap τ} {i g : ℕ} {free : List ℕ}
    (good : Good capacity { s with heap := h } life) (hfree : h.free = i :: free)
    (hl : life i = .free g) (hg : g < maxGeneration) :
    Good capacity
      { s with
        heap := { h with
          free := free
          generations := Function.update h.generations i (g + 1)
          slots := Function.update h.slots i .reserved
          active := h.active + 1
          highWater := max h.highWater (h.active + 1) }
        reservations := ⟨i, g + 1⟩ :: s.reservations
        handedOut := s.handedOut ++ [⟨i, g + 1⟩] }
      (Function.update life i (.reserved (g + 1))) := by
  have hrep := good.represents
  refine ⟨hrep.update rfl rfl (fun _ _ => rfl) trivial ?_ ?_ hrep.reads,
    good.heap.reserve hfree hl hg rfl rfl rfl, good.logs.reserve hl rfl rfl rfl rfl rfl rfl⟩
  · intro k hk
    simp only [System.footprint, Footprint.mk.injEq, and_true]
    exact part_cons_ne hk
  · have hfoot := hrep.footprint i
    rw [hl] at hfoot
    simp only [System.footprint, Life.footprint, Footprint.mk.injEq] at hfoot ⊢
    refine ⟨?_, hfoot.2⟩
    rw [part_cons_self (by rfl), hfoot.1]
    rfl

/-- The loop of `reserve`, by induction on the free list. -/
theorem advances_reserveLoop (free : List ℕ) :
    ∀ (h : Heap τ) (life : ℕ → Life τ), h.free = free →
      Good capacity { s with heap := h } life →
      Advances capacity life
        (match reserveLoop h free with
          | (heap, .ok r) =>
            { s with heap, reservations := r :: s.reservations, handedOut := s.handedOut ++ [r] }
          | (heap, .error _) => { s with heap }) := by
  induction free with
  | nil =>
    intro h life hfree good
    have heq : { h with free := [] } = h := by rw [← hfree]
    simp only [reserveLoop, heq]
    exact ⟨life, good, fun _ => .refl⟩
  | cons i free ih =>
    intro h life hfree good
    have hstate := ((good.heap.mem_free i).mp (by rw [hfree]; exact List.mem_cons_self)).2
    obtain ⟨g, hl⟩ : ∃ g, life i = .free g := by
      cases hl : life i <;> rw [hl] at hstate <;> first | exact ⟨_, rfl⟩ | cases hstate
    have hgen : h.generations i = g := by
      have := good.represents.generation i
      rwa [hl] at this
    have hbound : g ≤ maxGeneration := by
      have := good.heap.bound i
      rwa [hl] at this
    have hsat : saturatingAdd (h.generations i) 1 = g + 1 := by
      rw [hgen]; exact saturatingAdd_one hbound
    simp only [reserveLoop, hsat]
    by_cases hg : g = maxGeneration
    · rw [if_pos (.inr (by omega))]
      obtain ⟨life', good', hfollows⟩ := ih _ _ rfl (good_retire good hfree hl hg)
      have hstep : Life.Step (life i) (.retired g) := hl ▸ .retire g hg
      have hretire := follows_update hstep
      exact ⟨life', good', fun k => (hretire k).trans (hfollows k)⟩
    · rw [if_neg (by omega)]
      exact advances_update hl (.reserve g (by omega)) (good_reserved good hfree hl (by omega))

theorem advances_reserve (good : Good capacity s life) : Advances capacity life s.stepReserve :=
  advances_reserveLoop s.heap.free s.heap life rfl good

/-! ## Reservations -/

theorem advances_insert (good : Good capacity s life) {rest : List Reservation}
    (htake : takeAt s.reservations j = some (r, rest)) (x : τ) :
    Advances capacity life ({ s with reservations := rest }.stepInsert r x) := by
  have hrep := good.represents
  have hl := hrep.reserved_of_mem (mem_of_takeAt htake)
  have hstate : s.heap.slots r.index = .reserved := by rw [hrep.state, hl]; rfl
  have hgen : s.heap.generations r.index = r.generation := by rw [hrep.generation, hl]; rfl
  have hpos : 0 < r.generation := by
    have := good.heap.positive r.index (by rw [hl]; simp [Life.state])
    rwa [hl] at this
  refine advances_update hl (.insert r.generation x) ?_
  unfold System.stepInsert commit
  rw [if_pos ⟨hstate, hgen⟩]
  refine ⟨hrep.keep (by rw [hl]; rfl) rfl rfl (fun k hk => Function.update_of_ne hk ..)
      (Function.update_self ..) ?_ ?_ hrep.reads,
    good.heap.stay (by rw [hl]; rfl) rfl (by rw [hl]; rfl) rfl rfl rfl,
    good.logs.insert hl hpos rfl rfl rfl rfl rfl rfl⟩
  · intro k hk
    simp only [System.footprint, Footprint.mk.injEq, and_true]
    exact ⟨part_takeAt_ne htake hk, by rw [part_cons_ne hk]⟩
  · have hfoot := hrep.footprint r.index
    rw [hl] at hfoot
    simp only [System.footprint, Life.footprint, Footprint.mk.injEq] at hfoot ⊢
    refine ⟨?_, ?_, hfoot.2.2⟩
    · rw [part_takeAt_self htake (by rfl)] at hfoot
      exact (Multiset.cons_inj_right r).mp hfoot.1
    · rw [part_cons_self (by rfl), Multiset.cons_add, hfoot.2.1]
      rfl

theorem advances_dropReservation (good : Good capacity s life) {rest : List Reservation}
    (htake : takeAt s.reservations j = some (r, rest)) :
    Advances capacity life
      { s with
        reservations := rest
        heap := cancelReservation s.heap r.index r.generation } := by
  have hrep := good.represents
  have hl := hrep.reserved_of_mem (mem_of_takeAt htake)
  have hstate : s.heap.slots r.index = .reserved := by rw [hrep.state, hl]; rfl
  have hgen : s.heap.generations r.index = r.generation := by rw [hrep.generation, hl]; rfl
  refine advances_update hl (.cancel r.generation) ?_
  unfold cancelReservation
  rw [if_pos ⟨hstate, hgen⟩]
  refine ⟨hrep.keep (by rw [hl]; rfl) rfl rfl (fun _ _ => rfl) trivial ?_ ?_ hrep.reads,
    good.heap.release (by rw [hl]; rfl) (by rw [hl]; rfl) rfl rfl rfl, ?_⟩
  · intro k hk
    simp only [System.footprint, Footprint.mk.injEq, and_true]
    exact part_takeAt_ne htake hk
  · have hfoot := hrep.footprint r.index
    rw [hl] at hfoot
    simp only [System.footprint, Life.footprint, Footprint.mk.injEq] at hfoot ⊢
    refine ⟨?_, hfoot.2⟩
    rw [part_takeAt_self htake (by rfl)] at hfoot
    exact (Multiset.cons_inj_right r).mp hfoot.1
  · refine good.logs.keep (by rw [hl]; rfl) (by rw [hl]; rfl) ?_ rfl rfl rfl good.logs.results
      good.logs.routes good.logs.panicked
    rw [hl]
    exact Nat.sub_le _ 1

/-! ## References -/

theorem advances_incref (good : Good capacity s life) (hr : r ∈ s.references) :
    Advances capacity life
      { s with references := r :: s.references, heap := incref s.heap r.index } := by
  have hrep := good.represents
  obtain ⟨x, n, hl⟩ := hrep.live_of_mem hr
  have hcell : s.heap.cells r.index = ⟨n + 1, encodeToken r.index r.generation, some x⟩ := by
    have := hrep.cell r.index
    rwa [hl] at this
  refine advances_update hl (.incref r.generation x n) ?_
  rw [incref_live (n := n) (by rw [hcell])]
  refine ⟨hrep.keep (by rw [hl]; rfl) ?_ rfl (fun k hk => Heap.setRefcount_other _ _ hk) ?_ ?_ ?_
      hrep.reads, good.heap.stay (by rw [hl]; rfl) rfl (by rw [hl]; rfl) rfl rfl rfl,
    good.logs.keep (by rw [hl]; rfl) (by rw [hl]; rfl) (by rw [hl]; exact Nat.le_refl _) rfl rfl rfl
      good.logs.results good.logs.routes good.logs.panicked⟩
  · have hstate : s.heap.slots r.index = .live := by rw [hrep.state, hl]; rfl
    exact (Function.update_eq_self_iff.mpr hstate.symm).symm
  · exact (Heap.setRefcount_self ..).trans (by rw [hcell])
  · intro k hk
    simp only [System.footprint, Footprint.mk.injEq, and_true, true_and]
    rw [part_cons_ne hk]
  · have hfoot := hrep.footprint r.index
    rw [hl] at hfoot
    simp only [System.footprint, Life.footprint, Footprint.mk.injEq] at hfoot ⊢
    refine ⟨hfoot.1, ?_, hfoot.2.2⟩
    rw [part_cons_self (by rfl), Multiset.cons_add, hfoot.2.1]
    rfl

theorem advances_decref (good : Good capacity s life) {rest : List Reservation}
    (htake : takeAt s.references j = some (r, rest)) (poison : Bool) :
    Advances capacity life ({ s with references := rest }.stepDecref r poison) := by
  have hrep := good.represents
  obtain ⟨x, n, hl⟩ := hrep.live_of_mem (mem_of_takeAt htake)
  have hcell : s.heap.cells r.index = ⟨n + 1, encodeToken r.index r.generation, some x⟩ := by
    have := hrep.cell r.index
    rwa [hl] at this
  have hstate : s.heap.slots r.index = .live := by rw [hrep.state, hl]; rfl
  have hslots : s.heap.slots = Function.update s.heap.slots r.index .live :=
    (Function.update_eq_self_iff.mpr hstate.symm).symm
  -- the remaining references of the box
  have hfoot := hrep.footprint r.index
  rw [hl] at hfoot
  simp only [System.footprint, Life.footprint, Footprint.mk.injEq] at hfoot
  rw [part_takeAt_self htake (by rfl), Multiset.cons_add, Multiset.replicate_succ] at hfoot
  obtain ⟨hres, hrefs, hfin, hclosing, hclosed⟩ := hfoot
  have hrest := (Multiset.cons_inj_right r).mp hrefs
  have hother : ∀ k, k ≠ r.index →
      part Reservation.index k rest = part Reservation.index k s.references :=
    fun k hk => part_takeAt_ne htake hk
  unfold System.stepDecref
  dsimp only
  cases n with
  | zero =>
    refine advances_update hl (.finalize r.generation x) ?_
    rw [decref_last poison (by rw [hcell]; rfl)]
    refine ⟨hrep.keep (by rw [hl]; rfl) hslots rfl (fun k hk => Heap.setRefcount_other _ _ hk) ?_ ?_ ?_
        hrep.reads, good.heap.stay (by rw [hl]; rfl) rfl (by rw [hl]; rfl) rfl rfl rfl,
      good.logs.keep (by rw [hl]; rfl) (by rw [hl]; rfl) (by rw [hl]; exact Nat.le_refl _) rfl rfl
        rfl good.logs.results good.logs.routes good.logs.panicked⟩
    · have hcell' := Heap.setRefcount_self s.heap r.index
        (if poison then rocDebugRefcountPoison else 0)
      rw [hcell] at hcell'
      simp only [Life.Cell, hcell', and_true]
      cases poison <;> decide
    · intro k hk
      simp only [System.footprint, Footprint.mk.injEq, and_true, true_and]
      rw [hother k hk, part_cons_ne hk]
      exact ⟨rfl, rfl⟩
    · simp only [System.footprint, Life.footprint, Footprint.mk.injEq]
      refine ⟨hres, hrest, ?_, hclosing, hclosed⟩
      rw [part_cons_self (by rfl), hfin]
      rfl
  | succ n =>
    refine advances_update hl (.decref r.generation x n) ?_
    rw [decref_live (n := n) poison (by rw [hcell])]
    refine ⟨hrep.keep (by rw [hl]; rfl) hslots rfl (fun k hk => Heap.setRefcount_other _ _ hk) ?_ ?_ ?_
        hrep.reads, good.heap.stay (by rw [hl]; rfl) rfl (by rw [hl]; rfl) rfl rfl rfl,
      good.logs.keep (by rw [hl]; rfl) (by rw [hl]; rfl) (by rw [hl]; exact Nat.le_refl _) rfl rfl
        rfl good.logs.results good.logs.routes good.logs.panicked⟩
    · exact (Heap.setRefcount_self ..).trans (by rw [hcell])
    · intro k hk
      simp only [System.footprint, Footprint.mk.injEq, and_true, true_and]
      rw [hother k hk]
    · simp only [System.footprint, Life.footprint, Footprint.mk.injEq]
      exact ⟨hres, hrest, hfin, hclosing, hclosed⟩

/-! ## Deallocation -/

theorem beginDealloc_finalized (L : Layout) {h : Heap τ} {i g : ℕ} (hi : i < capacity)
    (hstate : h.slots i = .live) (hgen : h.generations i = g)
    (hcount : isFinalizedRocRefcount (h.cells i).refcount)
    (htoken : decodeToken (h.cells i).token = some (i, g)) :
    beginDealloc L capacity h (L.basePtr i) =
      ({ h with
          slots := Function.update h.slots i .closing
          cells := Function.update h.cells i { h.cells i with resource := none } },
        .inr (⟨i, g⟩, (h.cells i).resource)) := by
  unfold beginDealloc
  rw [indexForBase_basePtr L hi]
  simp [hstate, hcount, htoken, hgen]

theorem decodeToken_of_good (good : Good capacity s life) (hcap : capacity ≤ tokenIndexMask) {i : ℕ}
    (hne : (life i).state ≠ .free) :
    decodeToken (encodeToken i (life i).generation) = some (i, (life i).generation) :=
  decodeToken_encodeToken (Nat.lt_of_lt_of_le (good.heap.lt_capacity hne) hcap)
    (good.heap.positive i hne) (good.heap.bound i)

theorem advances_beginDealloc (L : Layout) (hcap : capacity ≤ tokenIndexMask)
    (good : Good capacity s life) {rest : List Reservation}
    (htake : takeAt s.finalized j = some (r, rest)) :
    Advances capacity life ({ s with finalized := rest }.stepBeginDealloc L capacity r) := by
  have hrep := good.represents
  obtain ⟨x, hl⟩ := hrep.finalized_of_mem (mem_of_takeAt htake)
  have hne : (life r.index).state ≠ .free := by rw [hl]; simp [Life.state]
  have hstate : s.heap.slots r.index = .live := by rw [hrep.state, hl]; rfl
  have hgen : s.heap.generations r.index = r.generation := by rw [hrep.generation, hl]; rfl
  have hcell := hrep.cell r.index
  have hdecode := decodeToken_of_good good hcap hne
  rw [hl] at hcell hdecode
  obtain ⟨hcount, htoken, hresource⟩ := hcell
  refine advances_update hl (.beginDealloc r.generation x) ?_
  unfold System.stepBeginDealloc
  rw [beginDealloc_finalized L (good.heap.lt_capacity hne) hstate hgen hcount
    (by rw [htoken]; exact hdecode), hresource]
  refine ⟨hrep.keep (by rw [hl]; rfl) rfl rfl (fun k hk => Function.update_of_ne hk ..) trivial ?_
      ?_ hrep.reads, good.heap.stay (by rw [hl]; rfl) rfl (by rw [hl]; rfl) rfl rfl rfl,
    good.logs.keep (by rw [hl]; rfl) (by rw [hl]; rfl) (by rw [hl]; exact Nat.le_refl _) rfl rfl rfl
      good.logs.results good.logs.routes good.logs.panicked⟩
  · intro k hk
    simp only [System.footprint, Footprint.mk.injEq, and_true, true_and]
    exact ⟨part_takeAt_ne htake hk, part_cons_ne hk⟩
  · have hfoot := hrep.footprint r.index
    rw [hl] at hfoot
    simp only [System.footprint, Life.footprint, Footprint.mk.injEq] at hfoot ⊢
    obtain ⟨hres, hrefs, hfin, hclosing, hclosed⟩ := hfoot
    refine ⟨hres, hrefs, ?_, ?_, hclosed⟩
    · rw [part_takeAt_self htake (by rfl)] at hfin
      exact (Multiset.cons_inj_right r).mp hfin
    · rw [part_cons_self (by rfl), hclosing]
      rfl

theorem advances_dropResource (good : Good capacity s life) {call : Reservation × Option τ}
    {rest : List (Reservation × Option τ)} (htake : takeAt s.closing j = some (call, rest)) :
    Advances capacity life ({ s with closing := rest }.stepDropResource call.1 call.2) := by
  obtain ⟨r, o⟩ := call
  have hrep := good.represents
  obtain ⟨x, rfl, hl⟩ := hrep.closing_of_mem (mem_of_takeAt htake)
  have hstate : s.heap.slots r.index = .closing := by rw [hrep.state, hl]; rfl
  refine advances_update hl (.drop r.generation x) ?_
  refine ⟨hrep.keep (by rw [hl]; rfl) (Function.update_eq_self_iff.mpr hstate.symm).symm rfl
      (fun _ _ => rfl) trivial ?_ ?_ hrep.reads,
    good.heap.stay (by rw [hl]; rfl) rfl (by rw [hl]; rfl) rfl rfl rfl,
    good.logs.drop hl rfl rfl rfl rfl rfl rfl⟩
  · intro k hk
    simp only [System.stepDropResource, System.footprint, Footprint.mk.injEq, true_and]
    exact ⟨part_takeAt_ne (f := callSlot) htake hk, part_cons_ne hk⟩
  · have hfoot := hrep.footprint r.index
    rw [hl] at hfoot
    simp only [System.stepDropResource, System.footprint, Life.footprint, Footprint.mk.injEq]
      at hfoot ⊢
    obtain ⟨hres, hrefs, hfin, hclosing, hclosed⟩ := hfoot
    refine ⟨hres, hrefs, hfin, ?_, ?_⟩
    · rw [part_takeAt_self htake (by rfl)] at hclosing
      exact (Multiset.cons_inj_right _).mp hclosing
    · rw [part_cons_self (by rfl), hclosed]
      rfl

theorem advances_finishDealloc (good : Good capacity s life) {rest : List Reservation}
    (htake : takeAt s.closed j = some (r, rest)) :
    Advances capacity life ({ s with closed := rest }.stepFinishDealloc r) := by
  have hrep := good.represents
  have hl := hrep.closed_of_mem (mem_of_takeAt htake)
  have hstate : s.heap.slots r.index = .closing := by rw [hrep.state, hl]; rfl
  have hgen : s.heap.generations r.index = r.generation := by rw [hrep.generation, hl]; rfl
  refine advances_update hl (.finishDealloc r.generation) ?_
  unfold System.stepFinishDealloc finishDealloc
  rw [if_pos ⟨hstate, hgen⟩]
  refine ⟨hrep.keep (by rw [hl]; rfl) rfl rfl (fun _ _ => rfl) trivial ?_ ?_ hrep.reads,
    good.heap.release (by rw [hl]; rfl) (by rw [hl]; rfl) rfl rfl rfl,
    good.logs.keep (by rw [hl]; rfl) (by rw [hl]; rfl) (by rw [hl]; exact Nat.le_refl _) rfl rfl rfl
      good.logs.results ?_ good.logs.panicked⟩
  · intro k hk
    simp only [System.footprint, Footprint.mk.injEq, true_and]
    exact part_takeAt_ne htake hk
  · have hfoot := hrep.footprint r.index
    rw [hl] at hfoot
    simp only [System.footprint, Life.footprint, Footprint.mk.injEq] at hfoot ⊢
    obtain ⟨hres, hrefs, hfin, hclosing, hclosed⟩ := hfoot
    refine ⟨hres, hrefs, hfin, hclosing, ?_⟩
    rw [part_takeAt_self htake (by rfl)] at hclosed
    exact (Multiset.cons_inj_right r).mp hclosed
  · intro route hroute
    rcases List.mem_append.mp hroute with hroute | hroute
    · exact good.logs.routes route hroute
    · exact List.mem_singleton.mp hroute

/-! ## Lookups -/

theorem Represents.references (hrep : Represents s life) {t : System τ} (hheap : t.heap = s.heap)
    (hfoot : ∀ k, t.footprint k = s.footprint k) (hreads : ∀ call ∈ t.gets, call.2.Reads call.1) :
    Represents t life :=
  ⟨fun k => hheap ▸ hrep.state k, fun k => hheap ▸ hrep.generation k,
    fun k => (hfoot k).trans (hrep.footprint k), fun k => hheap ▸ hrep.cell k, hreads⟩

theorem getIndex_live (L : Layout) {h : Heap τ} {i n : ℕ} (hi : i < capacity)
    (hcount : (h.cells i).refcount = n + 1) : getIndex L capacity h (L.handle i) = .ok i := by
  have hpos : ¬ ((n : ℤ) + 1 ≤ 0) := by omega
  unfold getIndex
  rw [payloadIndex_handle L hi]
  dsimp only
  rw [hcount, if_neg hpos]

theorem footprint_get {rest : List Reservation} (htake : takeAt s.references j = some (r, rest))
    (pc : GetPc) (k : ℕ) :
    System.footprint { s with references := rest, gets := (r, pc) :: s.gets } k = s.footprint k := by
  simp only [System.footprint, Footprint.mk.injEq, and_true, true_and]
  by_cases hk : k = r.index
  · subst hk
    rw [part_cons_self (f := callSlot) (by rfl), Multiset.map_cons, part_takeAt_self htake (by rfl),
      Multiset.cons_add, Multiset.add_cons]
  · rw [part_cons_ne (f := callSlot) hk, part_takeAt_ne htake hk]

theorem footprint_getNext {pc : GetPc} {rest : List (Reservation × GetPc)}
    (htake : takeAt s.gets j = some ((r, pc), rest)) (pc' : GetPc) (k : ℕ) :
    System.footprint { s with gets := (r, pc') :: rest } k = s.footprint k := by
  simp only [System.footprint, Footprint.mk.injEq, and_true, true_and]
  by_cases hk : k = r.index
  · subst hk
    rw [part_cons_self (f := callSlot) (by rfl), part_takeAt_self (f := callSlot) htake (by rfl),
      Multiset.map_cons, Multiset.map_cons]
  · rw [part_cons_ne (f := callSlot) hk, part_takeAt_ne (f := callSlot) htake hk]

theorem footprint_finishGet {pc : GetPc} {rest : List (Reservation × GetPc)}
    (htake : takeAt s.gets j = some ((r, pc), rest)) (result : Except LookupError (Option τ))
    (k : ℕ) : (System.finishGet { s with gets := rest } r result).footprint k = s.footprint k := by
  simp only [System.finishGet, System.footprint, Footprint.mk.injEq, and_true, true_and]
  by_cases hk : k = r.index
  · subst hk
    rw [part_cons_self (by rfl), part_takeAt_self (f := callSlot) htake (by rfl), Multiset.map_cons,
      Multiset.cons_add, Multiset.add_cons]
  · rw [part_cons_ne hk, part_takeAt_ne (f := callSlot) htake hk]

theorem advances_get (L : Layout) (good : Good capacity s life) {rest : List Reservation}
    (htake : takeAt s.references j = some (r, rest)) :
    Advances capacity life ({ s with references := rest }.stepGet L capacity r) := by
  have hrep := good.represents
  obtain ⟨x, n, hl⟩ := hrep.live_of_mem (mem_of_takeAt htake)
  have hcell := hrep.cell r.index
  rw [hl] at hcell
  have hi := good.heap.lt_capacity (i := r.index) (by rw [hl]; simp [Life.state])
  unfold System.stepGet
  rw [getIndex_live L hi (by rw [hcell])]
  refine ⟨life, ⟨hrep.references rfl (footprint_get htake _) ?_, good.heap, ?_⟩, fun _ => .refl⟩
  · intro call hcall
    rcases List.mem_cons.mp hcall with rfl | hcall
    · rfl
    · exact hrep.reads call hcall
  · exact { good.logs with }

theorem advances_getNext (hcap : capacity ≤ tokenIndexMask) (good : Good capacity s life)
    {call : Reservation × GetPc} {rest : List (Reservation × GetPc)}
    (htake : takeAt s.gets j = some (call, rest)) :
    Advances capacity life ({ s with gets := rest }.stepGetNext call.1 call.2) := by
  obtain ⟨r, pc⟩ := call
  have hrep := good.represents
  have hmem := mem_of_takeAt htake
  obtain ⟨x, n, hl⟩ := hrep.live_of_mem_gets hmem
  have hne : (life r.index).state ≠ .free := by rw [hl]; simp [Life.state]
  have hcell := hrep.cell r.index
  have hdecode := decodeToken_of_good good hcap hne
  have hstate : s.heap.slots r.index = .live := by rw [hrep.state, hl]; rfl
  have hgen : s.heap.generations r.index = r.generation := by rw [hrep.generation, hl]; rfl
  rw [hl] at hcell hdecode
  simp only [Life.Cell, Life.generation] at hcell hdecode
  have hreads : pc.Reads r := hrep.reads _ hmem
  have hrest : ∀ c ∈ rest, c.2.Reads c.1 := fun c hc => hrep.reads c (mem_of_mem_rest htake hc)
  cases pc with
  | readToken index =>
    obtain rfl : index = r.index := hreads
    have htoken : getToken s.heap r.index = .ok (r.index, r.generation) := by
      unfold getToken
      rw [hcell]
      dsimp only
      rw [hdecode]
    unfold System.stepGetNext
    dsimp only
    rw [htoken]
    refine ⟨life, ⟨hrep.references rfl (footprint_getNext htake _) ?_, good.heap,
      { good.logs with }⟩, fun _ => .refl⟩
    intro c hc
    rcases List.mem_cons.mp hc with rfl | hc
    · exact ⟨rfl, rfl⟩
    · exact hrest c hc
  | lockState index decoded =>
    obtain ⟨rfl, rfl⟩ := hreads
    have hlocked : getLocked s.heap r.index (r.index, r.generation) = .ok (some x) := by
      unfold getLocked
      rw [if_neg (by simp [hstate, hgen]), hcell]
    unfold System.stepGetNext
    dsimp only
    rw [hlocked]
    refine ⟨life, ⟨hrep.references rfl (footprint_finishGet htake _) hrest, good.heap,
      { good.logs with results := ?_ }⟩, fun _ => .refl⟩
    intro c hc
    rcases List.mem_append.mp hc with hc | hc
    · exact good.logs.results c hc
    · obtain rfl := List.mem_singleton.mp hc
      exact ⟨x, rfl, (good.logs.mem_inserted r x).mpr (.inr (by rw [hl]; exact ⟨rfl, rfl⟩))⟩

end Steps

/-! ## Runs -/

theorem good_init (capacity : ℕ) : Good capacity (System.init capacity : System τ) fun _ => .free 0 where
  represents := ⟨fun _ => rfl, fun _ => rfl, fun _ => rfl, fun _ => trivial, by simp [System.init]⟩
  heap := by
    refine ⟨fun _ _ => rfl, fun _ => Nat.zero_le _, fun _ h => absurd rfl h, by simp,
      List.nodup_range, ?_, ?_, Nat.le_refl 0⟩
    · intro i
      simp [System.init, Heap.new, Life.state]
    · simp [System.init, Heap.new, Life.state, SlotState.isActive]
  logs := by
    refine ⟨List.nodup_nil, ?_, List.nodup_nil, by simp [System.init], ?_, List.nodup_nil,
      by simp [System.init], by simp [System.init], by simp [System.init], rfl⟩
    · intro r
      simp only [System.init, List.not_mem_nil, Life.generation, false_iff]
      omega
    · simp [System.init, Life.resource]

/-- **One step.** The invariant holds again and every slot has gone along its life. -/
theorem advances_step {L : Layout} {capacity : ℕ} (hcap : capacity ≤ tokenIndexMask)
    {s t : System τ} {life : ℕ → Life τ} {a : Action τ} (good : Good capacity s life)
    (h : step L capacity s a = some t) : Advances capacity life t := by
  cases a with
  | reserve => exact Option.some.inj h ▸ advances_reserve good
  | insert j x =>
    obtain ⟨⟨r, rest⟩, htake, rfl⟩ := Option.map_eq_some_iff.mp h
    exact advances_insert good htake x
  | dropReservation j =>
    obtain ⟨⟨r, rest⟩, htake, rfl⟩ := Option.map_eq_some_iff.mp h
    exact advances_dropReservation good htake
  | incref j =>
    obtain ⟨⟨r, rest⟩, htake, rfl⟩ := Option.map_eq_some_iff.mp h
    exact advances_incref good (mem_of_takeAt htake)
  | decref j poison =>
    obtain ⟨⟨r, rest⟩, htake, rfl⟩ := Option.map_eq_some_iff.mp h
    exact advances_decref good htake poison
  | beginDealloc j =>
    obtain ⟨⟨r, rest⟩, htake, rfl⟩ := Option.map_eq_some_iff.mp h
    exact advances_beginDealloc L hcap good htake
  | dropResource j =>
    obtain ⟨⟨call, rest⟩, htake, rfl⟩ := Option.map_eq_some_iff.mp h
    exact advances_dropResource good htake
  | finishDealloc j =>
    obtain ⟨⟨r, rest⟩, htake, rfl⟩ := Option.map_eq_some_iff.mp h
    exact advances_finishDealloc good htake
  | get j =>
    obtain ⟨⟨r, rest⟩, htake, rfl⟩ := Option.map_eq_some_iff.mp h
    exact advances_get L good htake
  | getNext j =>
    obtain ⟨⟨call, rest⟩, htake, rfl⟩ := Option.map_eq_some_iff.mp h
    exact advances_getNext hcap good htake

end BasicWebserver.HostResource
