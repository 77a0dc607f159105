import BasicWebserver.HostResource.Runs

/-!
# The references to a box

What a resource's references say about it: while there are any, the box is live and its count is
their number; when the last one is gone, its deallocation has begun. `adopt` is how the host gives a
new resource to Roc with a given number of references.
-/

namespace BasicWebserver.HostResource

open Transition Bag

variable {τ : Type*}

namespace System

/-- The references to a box, those of lookups in progress included. -/
def held (s : System τ) (r : Reservation) : ℕ :=
  s.references.count r + (s.gets.map Prod.fst).count r

/-- The deallocation of the box has begun. -/
def Freed (s : System τ) (r : Reservation) (x : τ) : Prop :=
  r ∈ s.finalized ∨ (r, some x) ∈ s.closing ∨ (r, x) ∈ s.dropped

end System

section Held

variable {capacity : ℕ} {s : System τ} {life : ℕ → Life τ} {r : Reservation} {x : τ}

theorem count_part (l : List Reservation) : (part Reservation.index r.index l).count r = l.count r := by
  rw [part, Multiset.count_filter, if_pos rfl, Multiset.coe_count]

theorem held_eq (s : System τ) (r : Reservation) :
    s.held r = (s.footprint r.index).references.count r := by
  unfold System.held System.footprint
  rw [Multiset.count_add, count_part]
  congr 1
  rw [part, Multiset.filter_coe, Multiset.map_coe, Multiset.coe_count]
  induction s.gets with
  | nil => rfl
  | cons call gets ih =>
    rw [List.map_cons, List.filter_cons]
    split_ifs with h
    · rw [List.map_cons, List.count_cons, List.count_cons, ih]
    · have hne : call.1 ≠ r := fun he => h (decide_eq_true (congrArg Reservation.index he))
      rw [List.count_cons_of_ne hne, ih]

theorem held_pos_iff_live (hrep : Represents s life) :
    0 < s.held r ↔ ∃ x n, life r.index = .live r.generation x n := by
  rw [held_eq, Multiset.count_pos]
  refine ⟨hrep.live_of_mem_footprint, ?_⟩
  rintro ⟨x, n, hl⟩
  rw [hrep.footprint, hl]
  exact Multiset.mem_replicate.mpr ⟨Nat.succ_ne_zero n, rfl⟩

theorem live_of_held (good : Good capacity s life) (hin : (r, x) ∈ s.inserted)
    (hheld : 0 < s.held r) :
    s.heap.slots r.index = .live ∧
      s.heap.cells r.index = ⟨s.held r, encodeToken r.index r.generation, some x⟩ ∧
      ¬ s.Freed r x := by
  have hrep := good.represents
  obtain ⟨y, n, hl⟩ := (held_pos_iff_live hrep).mp hheld
  have hnot : (r, x) ∉ s.dropped := fun hd => by
    have hnone := good.logs.dropped r x hd (by rw [hl]; rfl)
    rw [hl] at hnone
    cases hnone
  have hres := ((good.logs.mem_inserted r x).mp hin).resolve_left hnot
  rw [hl] at hres
  obtain rfl := Option.some.inj hres.2
  have hn : s.held r = n + 1 := by
    rw [held_eq, hrep.footprint, hl]
    exact Multiset.count_replicate_self _ _
  have hcell := hrep.cell r.index
  rw [hl] at hcell
  refine ⟨by rw [hrep.state, hl]; rfl, by rw [hcell, hn]; rfl, ?_⟩
  rintro (hfin | hclosing | hdropped)
  · obtain ⟨z, hz⟩ := hrep.finalized_of_mem hfin
    rw [hl] at hz
    cases hz
  · obtain ⟨z, -, hz⟩ := hrep.closing_of_mem hclosing
    rw [hl] at hz
    cases hz
  · exact hnot hdropped

theorem freed_of_not_held (good : Good capacity s life) (hin : (r, x) ∈ s.inserted)
    (hheld : s.held r = 0) : s.Freed r x := by
  have hrep := good.represents
  rcases (good.logs.mem_inserted r x).mp hin with hdropped | ⟨hgen, hres⟩
  · exact .inr (.inr hdropped)
  · have hfoot := hrep.footprint r.index
    have hr : ∀ g, g = r.generation → (⟨r.index, g⟩ : Reservation) = r := fun g hg => by rw [hg]
    cases hl : life r.index with
    | live g y n =>
      rw [hl] at hgen
      have hpos := (held_pos_iff_live hrep).mpr ⟨y, n, by rw [hl, hgen]; rfl⟩
      exact absurd hheld (Nat.ne_of_gt hpos)
    | finalized g y =>
      rw [hl] at hgen hfoot
      have hm : r ∈ (s.footprint r.index).finalized := by
        rw [hfoot, ← hr g hgen.symm]
        exact Multiset.mem_singleton_self _
      exact .inl (mem_part.mp hm).1
    | closing g y =>
      rw [hl] at hgen hfoot hres
      obtain rfl := Option.some.inj hres
      have hm : (r, some y) ∈ (s.footprint r.index).closing := by
        rw [hfoot, ← hr g hgen.symm]
        exact Multiset.mem_singleton_self _
      exact .inr (.inl (mem_part.mp hm).1)
    | _ =>
      rw [hl] at hres
      cases hres

/-- `get` without interruption. -/
def Heap.get (L : Layout) (capacity : ℕ) (h : Heap τ) (handle : ℕ) :
    Except LookupError (Option τ) :=
  match getIndex L capacity h handle with
  | .error e => .error e
  | .ok index =>
    match getToken h index with
    | .error e => .error e
    | .ok decoded => getLocked h index decoded

theorem get_of_held (L : Layout) (hcap : capacity ≤ tokenIndexMask) (good : Good capacity s life)
    (hin : (r, x) ∈ s.inserted) (hheld : 0 < s.held r) :
    s.heap.get L capacity (L.handle r.index) = .ok (some x) ∧ r.index < capacity := by
  have hrep := good.represents
  obtain ⟨hslot, hcell, -⟩ := live_of_held good hin hheld
  obtain ⟨y, n, hl⟩ := (held_pos_iff_live hrep).mp hheld
  have hi : r.index < capacity := good.heap.lt_capacity (by rw [hl]; nofun)
  have hindex : getIndex L capacity s.heap (L.handle r.index) = .ok r.index :=
    getIndex_live L hi (n := s.held r - 1) (by
      rw [hcell]
      show (s.held r : ℤ) = _
      omega)
  have htoken : getToken s.heap r.index = .ok (r.index, r.generation) := by
    have hdecode := decodeToken_of_good good hcap (i := r.index) (by rw [hl]; nofun)
    rw [hl] at hdecode
    unfold getToken
    rw [hcell]
    dsimp only
    rw [show decodeToken (encodeToken r.index r.generation) = some (r.index, r.generation) from hdecode]
  have hlocked : getLocked s.heap r.index (r.index, r.generation) = .ok (some x) := by
    have hgen : s.heap.generations r.index = r.generation := by rw [hrep.generation, hl]; rfl
    unfold getLocked
    rw [if_neg (by simp [hslot, hgen]), hcell]
  unfold Heap.get
  rw [hindex]
  dsimp only
  rw [htoken]
  exact ⟨hlocked, hi⟩

end Held

/-! ## Giving a resource to Roc -/

def lookup : List (Action τ) := [.get 0, .getNext 0, .getNext 0]

/-- The release of a reference that is the last one. -/
def releaseLast : List (Action τ) :=
  [.decref 0 false, .beginDealloc 0, .dropResource 0, .finishDealloc 0]

/-- The resource is inserted and looked up, and its first reference made into `n`; none is the
release of the first one. -/
def adopt (x : τ) (n : ℕ) : List (Action τ) :=
  [.reserve, .insert 0 x] ++ lookup ++
    if n = 0 then releaseLast else List.replicate (n - 1) (.incref 0)

theorem reserve_new {capacity : ℕ} (h : 0 < capacity) :
    ∃ heap, reserve (Heap.new capacity : Heap τ) = (heap, .ok ⟨0, 1⟩) := by
  obtain ⟨k, rfl⟩ := Nat.exists_eq_succ_of_ne_zero (Nat.ne_of_gt h)
  unfold reserve Heap.new
  rw [List.range_succ_eq_map]
  exact ⟨_, rfl⟩

theorem mem_inserted_step {L : Layout} {capacity : ℕ} {s t : System τ} {a : Action τ}
    (h : step L capacity s a = some t) : s.inserted ⊆ t.inserted := by
  cases a with
  | reserve =>
    obtain rfl := Option.some.inj h
    unfold System.stepReserve
    split <;> exact List.Subset.refl _
  | insert j x =>
    obtain ⟨⟨r, rest⟩, -, rfl⟩ := Option.map_eq_some_iff.mp h
    dsimp only
    unfold System.stepInsert
    split
    · exact List.subset_append_left _ _
    · exact List.Subset.refl _
  | decref j poison =>
    obtain ⟨⟨r, rest⟩, -, rfl⟩ := Option.map_eq_some_iff.mp h
    dsimp only
    unfold System.stepDecref
    split <;> exact List.Subset.refl _
  | beginDealloc j =>
    obtain ⟨⟨r, rest⟩, -, rfl⟩ := Option.map_eq_some_iff.mp h
    dsimp only
    unfold System.stepBeginDealloc
    split <;> exact List.Subset.refl _
  | finishDealloc j =>
    obtain ⟨⟨r, rest⟩, -, rfl⟩ := Option.map_eq_some_iff.mp h
    dsimp only
    unfold System.stepFinishDealloc
    split <;> exact List.Subset.refl _
  | get j =>
    obtain ⟨⟨r, rest⟩, -, rfl⟩ := Option.map_eq_some_iff.mp h
    dsimp only
    unfold System.stepGet
    split <;> exact List.Subset.refl _
  | getNext j =>
    obtain ⟨⟨⟨r, pc⟩, rest⟩, -, rfl⟩ := Option.map_eq_some_iff.mp h
    cases pc with
    | readToken index =>
      dsimp only [System.stepGetNext]
      split <;> exact List.Subset.refl _
    | lockState index decoded => exact List.Subset.refl _
  | _ =>
    obtain ⟨⟨r, rest⟩, -, rfl⟩ := Option.map_eq_some_iff.mp h
    exact List.Subset.refl _

theorem mem_inserted_exec {L : Layout} {capacity : ℕ} {s t : System τ} {as : List (Action τ)}
    {r : Reservation} {x : τ} (h : (machine τ L capacity).exec s as = some t)
    (hin : (r, x) ∈ s.inserted) : (r, x) ∈ t.inserted :=
  (machine τ L capacity).invariant_exec (P := fun u => (r, x) ∈ u.inserted)
    (fun _ _ _ hu hstep => mem_inserted_step hstep hu) hin h

section Adopt

variable {L : Layout} {capacity : ℕ} {s : System τ} {life : ℕ → Life τ} {r : Reservation} {x : τ}
  {rest : List Reservation}

theorem exec_insert (hcap : capacity ≤ tokenIndexMask) (good : Good capacity s life)
    {heap : Heap τ} (hreserve : reserve s.heap = (heap, .ok r)) (x : τ) :
    ∃ t, (machine τ L capacity).exec s [.reserve, .insert 0 x] = some t ∧
      t.references = r :: s.references ∧ t.gets = s.gets ∧ (r, x) ∈ t.inserted ∧ s.held r = 0 := by
  obtain ⟨s₁, hs₁, hreservations, hrefs, hgets⟩ : ∃ s₁, step L capacity s .reserve = some s₁ ∧
      s₁.reservations = r :: s.reservations ∧ s₁.references = s.references ∧ s₁.gets = s.gets := by
    refine ⟨_, rfl, ?_⟩
    unfold System.stepReserve
    rw [hreserve]
    exact ⟨rfl, rfl, rfl⟩
  obtain ⟨life₁, good₁, -⟩ := advances_step hcap good hs₁
  have htake : takeAt s₁.reservations 0 = some (r, s.reservations) := by
    rw [hreservations]
    rfl
  have hstep : step L capacity s₁ (.insert 0 x) =
      some ({ s₁ with reservations := s.reservations }.stepInsert r x) := by
    show (takeAt s₁.reservations 0).map _ = _
    rw [htake]
    rfl
  obtain ⟨life₂, good₂, -⟩ := advances_step hcap good₁ hstep
  refine ⟨_, (machine τ L capacity).exec_cons_eq_some.mpr ⟨s₁, hs₁,
    (machine τ L capacity).exec_singleton.mpr hstep⟩, ?_⟩
  have hnew : s.held r = 0 := by
    have hl := good₁.represents.reserved_of_mem (mem_of_takeAt htake)
    by_contra hne
    have hsame : s₁.held r = s.held r := by
      unfold System.held
      rw [hrefs, hgets]
    obtain ⟨y, n, hlive⟩ := (held_pos_iff_live good₁.represents).mp
      (hsame ▸ Nat.pos_of_ne_zero hne)
    rw [hl] at hlive
    cases hlive
  have hpanicked := good₂.logs.panicked
  unfold System.stepInsert at hpanicked ⊢
  split at hpanicked
  · exact ⟨congrArg (r :: ·) hrefs, hgets, List.mem_append_right _ (List.mem_singleton_self _), hnew⟩
  · cases hpanicked

theorem exec_lookup (hcap : capacity ≤ tokenIndexMask) (good : Good capacity s life)
    (hrefs : s.references = r :: rest) :
    ∃ t, (machine τ L capacity).exec s lookup = some t ∧
      t.references = r :: rest ∧ t.gets = s.gets ∧ t.inserted = s.inserted := by
  have hfinish : ∀ {u : System τ} {life' : ℕ → Life τ} {e : LookupError},
      ¬ Good capacity (u.finishGet r (.error e)) life' := fun hgood => by
    obtain ⟨x, hx, -⟩ := hgood.logs.results _ (List.mem_append_right _ (List.mem_singleton_self _))
    cases hx
  have hget : step L capacity s (.get 0) =
      some ({ s with references := rest }.stepGet L capacity r) := by
    show (takeAt s.references 0).map _ = _
    rw [hrefs]
    rfl
  obtain ⟨life₁, good₁, -⟩ := advances_step hcap good hget
  unfold System.stepGet at hget good₁
  split at good₁
  · rename_i index hindex
    rw [hindex] at hget
    have htoken : step L capacity
        { s with references := rest, gets := (r, .readToken index) :: s.gets } (.getNext 0) =
          some ({ s with references := rest }.stepGetNext r (.readToken index)) := rfl
    obtain ⟨life₂, good₂, -⟩ := advances_step hcap good₁ htoken
    unfold System.stepGetNext at htoken good₂
    dsimp only at htoken good₂
    split at good₂
    · rename_i decoded hdecoded
      rw [hdecoded] at htoken
      refine ⟨_, (machine τ L capacity).exec_cons_eq_some.mpr ⟨_, hget,
        (machine τ L capacity).exec_cons_eq_some.mpr ⟨_, htoken,
          (machine τ L capacity).exec_singleton.mpr rfl⟩⟩, rfl, rfl, rfl⟩
    · exact absurd good₂ hfinish
  · exact absurd good₁ hfinish

theorem exec_increfs (hrefs : s.references = r :: rest) (k : ℕ) :
    ∃ t, (machine τ L capacity).exec s (List.replicate k (.incref 0)) = some t ∧
      t.references = List.replicate (k + 1) r ++ rest ∧ t.gets = s.gets ∧
      t.inserted = s.inserted := by
  induction k generalizing s rest with
  | zero => exact ⟨s, rfl, hrefs, rfl, rfl⟩
  | succ k ih =>
    obtain ⟨s₁, hs₁, hrefs₁, hgets₁, hinserted₁⟩ : ∃ s₁, step L capacity s (.incref 0) = some s₁ ∧
        s₁.references = r :: r :: rest ∧ s₁.gets = s.gets ∧ s₁.inserted = s.inserted := by
      refine ⟨{ s with references := r :: s.references, heap := incref s.heap r.index }, ?_,
        congrArg (r :: ·) hrefs, rfl, rfl⟩
      show (takeAt s.references 0).map _ = _
      rw [hrefs]
      rfl
    obtain ⟨t, ht, htrefs, htgets, htinserted⟩ := ih hrefs₁
    refine ⟨t, (machine τ L capacity).exec_cons_eq_some.mpr ⟨s₁, hs₁, ht⟩, ?_,
      htgets.trans hgets₁, htinserted.trans hinserted₁⟩
    have hreplicate : List.replicate (k + 1 + 1) r = List.replicate (k + 1) r ++ [r] :=
      List.replicate_succ'
    rw [htrefs, hreplicate, List.append_assoc]
    rfl

theorem exec_releaseLast (hcap : capacity ≤ tokenIndexMask) (good : Good capacity s life)
    (hrefs : s.references = r :: rest) (hin : (r, x) ∈ s.inserted) (hheld : s.held r = 1) :
    ∃ t, (machine τ L capacity).exec s releaseLast = some t ∧ (r, x) ∈ t.dropped ∧
      t.heap.slots r.index = .free ∧ t.references = rest ∧ t.gets = s.gets ∧
      t.inserted = s.inserted := by
  have hnot := (live_of_held good hin (by rw [hheld]; exact Nat.one_pos)).2.2
  have hrest : rest.count r = 0 ∧ (s.gets.map Prod.fst).count r = 0 := by
    unfold System.held at hheld
    rw [hrefs, List.count_cons_self] at hheld
    omega
  have hdecref : step L capacity s (.decref 0 false) =
      some ({ s with references := rest }.stepDecref r false) := by
    show (takeAt s.references 0).map _ = _
    rw [hrefs]
    rfl
  obtain ⟨life₁, good₁, -⟩ := advances_step hcap good hdecref
  unfold System.stepDecref at hdecref good₁
  dsimp only at hdecref good₁
  split at good₁
  · rename_i heap₁ hheap₁
    rw [hheap₁] at hdecref
    have hbegin : step L capacity
        { s with references := rest, heap := heap₁, finalized := r :: s.finalized }
        (.beginDealloc 0) =
          some ({ s with references := rest, heap := heap₁ }.stepBeginDealloc L capacity r) := rfl
    obtain ⟨life₂, good₂, -⟩ := advances_step hcap good₁ hbegin
    unfold System.stepBeginDealloc at hbegin good₂
    dsimp only at hbegin good₂
    split at good₂
    · -- a refused call would leave the box nowhere
      have hfreed := freed_of_not_held good₂ hin (by
        unfold System.held
        rw [hrest.1, hrest.2])
      exact absurd hfreed hnot
    · rename_i heap₂ call hheap₂
      rw [hheap₂] at hbegin
      have hcall : call = (r, some x) := by
        have hfreed := freed_of_not_held good₂ hin (by
          unfold System.held
          rw [hrest.1, hrest.2])
        rcases hfreed with hfin | hclosing | hdropped
        · exact absurd (.inl hfin) hnot
        · rcases List.mem_cons.mp hclosing with he | hclosing
          · exact he.symm
          · exact absurd (.inr (.inl hclosing)) hnot
        · exact absurd (.inr (.inr hdropped)) hnot
      subst hcall
      have hdrop : step L capacity
          { s with references := rest, heap := heap₂, closing := (r, some x) :: s.closing }
          (.dropResource 0) =
            some ({ s with references := rest, heap := heap₂ }.stepDropResource r (some x)) := rfl
      obtain ⟨life₃, good₃, -⟩ := advances_step hcap good₂ hdrop
      unfold System.stepDropResource at hdrop good₃
      have hfinish : step L capacity
          { s with references := rest, heap := heap₂, closed := r :: s.closed,
                   dropped := s.dropped ++ [(r, x)] } (.finishDealloc 0) =
            some ({ s with references := rest, heap := heap₂,
                           dropped := s.dropped ++ [(r, x)] }.stepFinishDealloc r) := rfl
      obtain ⟨life₄, good₄, -⟩ := advances_step hcap good₃ hfinish
      refine ⟨_, (machine τ L capacity).exec_cons_eq_some.mpr ⟨_, hdecref,
        (machine τ L capacity).exec_cons_eq_some.mpr ⟨_, hbegin,
          (machine τ L capacity).exec_cons_eq_some.mpr ⟨_, hdrop,
            (machine τ L capacity).exec_singleton.mpr hfinish⟩⟩⟩, ?_⟩
      have hpanicked := good₄.logs.panicked
      unfold System.stepFinishDealloc at hpanicked ⊢
      split at hpanicked
      · rename_i heap₄ hheap₄
        refine ⟨List.mem_append_right _ (List.mem_singleton_self _), ?_, rfl, rfl, rfl⟩
        unfold finishDealloc at hheap₄
        split at hheap₄
        · obtain rfl := Option.some.inj hheap₄
          exact Function.update_self _ _ _
        · cases hheap₄
      · cases hpanicked
  · -- the count was one
    have hfreed := freed_of_not_held good₁ hin (by
      unfold System.held
      rw [hrest.1, hrest.2])
    exact absurd hfreed hnot

/-- **Adoption.** A resource given to Roc with `n` references has exactly those; with none it is
dropped at once. -/
theorem exec_adopt (hcap : capacity ≤ tokenIndexMask) (good : Good capacity s life)
    {heap : Heap τ} (hreserve : reserve s.heap = (heap, .ok r)) (x : τ) (n : ℕ) :
    ∃ t, (machine τ L capacity).exec s (adopt x n) = some t ∧ (r, x) ∈ t.inserted ∧
      t.references = List.replicate n r ++ s.references ∧ t.held r = n ∧
      (n = 0 → (r, x) ∈ t.dropped ∧ t.heap.slots r.index = .free) := by
  obtain ⟨s₁, hs₁, hrefs₁, hgets₁, hin₁, hnew⟩ := exec_insert (L := L) hcap good hreserve x
  obtain ⟨life₁, good₁, -⟩ := good_of_exec hcap good hs₁
  obtain ⟨s₂, hs₂, hrefs₂, hgets₂, hin₂⟩ := exec_lookup (L := L) hcap good₁ hrefs₁
  obtain ⟨life₂, good₂, -⟩ := good_of_exec hcap good₁ hs₂
  have hstart := (machine τ L capacity).exec_append.mpr ⟨s₁, hs₁, hs₂⟩
  obtain ⟨hnewRefs, hnewGets⟩ := Nat.add_eq_zero_iff.mp hnew
  unfold adopt
  split_ifs with hn
  · subst hn
    obtain ⟨t, ht, hdropped, hfree, htrefs, htgets, htin⟩ := exec_releaseLast (L := L) hcap good₂
      hrefs₂ (hin₂ ▸ hin₁) (by
        unfold System.held
        rw [hrefs₂, hgets₂, hgets₁, List.count_cons_self, hnewRefs, hnewGets])
    refine ⟨t, (machine τ L capacity).exec_append.mpr ⟨s₂, hstart, ht⟩, htin ▸ hin₂ ▸ hin₁, htrefs,
      ?_, fun _ => ⟨hdropped, hfree⟩⟩
    unfold System.held
    rw [htrefs, htgets, hgets₂, hgets₁, hnewRefs, hnewGets]
  · obtain ⟨k, rfl⟩ := Nat.exists_eq_succ_of_ne_zero hn
    obtain ⟨t, ht, htrefs, htgets, htin⟩ := @exec_increfs τ L capacity _ _ _ hrefs₂ k
    refine ⟨t, (machine τ L capacity).exec_append.mpr ⟨s₂, hstart, ht⟩, htin ▸ hin₂ ▸ hin₁, htrefs,
      ?_, fun h => absurd h (Nat.succ_ne_zero k)⟩
    unfold System.held
    rw [htrefs, htgets, hgets₂, hgets₁, List.count_append, List.count_replicate_self, hnewRefs,
      hnewGets]

end Adopt

end BasicWebserver.HostResource
