import Mathlib.Data.Multiset.Range

/-!
# Lending numbered resources

A stock of resources, each idle or lent to one borrower. A lease may be without a resource for a
while, when its resource was closed and the replacement is not there yet; it ends with the
replacement coming back to the stock, or with the place in the stock being lost. Resources are
numbered in the order in which they were opened.

`Conserved` is what every sequence of such moves keeps: each resource ever opened is idle, in
exactly one lease, or closed, and no place in the stock appears or disappears unless it is lost.
-/

/-- Who has what. -/
structure Lending where
  idle : Multiset ℕ
  /-- One entry for each lease, with its resource if it has one. -/
  leases : Multiset (Option ℕ)
  closed : Multiset ℕ
  opened : ℕ
  lost : ℕ

namespace Lending

/-- The resources in leases. -/
def lent (l : Lending) : Multiset ℕ := l.leases.filterMap id

inductive Step : Lending → Lending → Prop
  | stay (l : Lending) : Step l l
  | lend (r : ℕ) (idle : Multiset ℕ) (leases : Multiset (Option ℕ)) (closed : Multiset ℕ)
      (opened lost : ℕ) :
      Step ⟨r ::ₘ idle, leases, closed, opened, lost⟩ ⟨idle, some r ::ₘ leases, closed, opened, lost⟩
  | giveBack (r : ℕ) (idle : Multiset ℕ) (leases : Multiset (Option ℕ)) (closed : Multiset ℕ)
      (opened lost : ℕ) :
      Step ⟨idle, some r ::ₘ leases, closed, opened, lost⟩ ⟨r ::ₘ idle, leases, closed, opened, lost⟩
  | close (r : ℕ) (idle : Multiset ℕ) (leases : Multiset (Option ℕ)) (closed : Multiset ℕ)
      (opened lost : ℕ) :
      Step ⟨idle, some r ::ₘ leases, closed, opened, lost⟩
        ⟨idle, none ::ₘ leases, r ::ₘ closed, opened, lost⟩
  | replace (idle : Multiset ℕ) (leases : Multiset (Option ℕ)) (closed : Multiset ℕ)
      (opened lost : ℕ) :
      Step ⟨idle, none ::ₘ leases, closed, opened, lost⟩
        ⟨idle, some opened ::ₘ leases, closed, opened + 1, lost⟩
  | lose (idle : Multiset ℕ) (leases : Multiset (Option ℕ)) (closed : Multiset ℕ)
      (opened lost : ℕ) :
      Step ⟨idle, none ::ₘ leases, closed, opened, lost⟩ ⟨idle, leases, closed, opened, lost + 1⟩

/-- Each resource is in one place, and the places in the stock add up to `size`. -/
structure Conserved (size : ℕ) (l : Lending) : Prop where
  resources : l.idle + l.lent + l.closed = Multiset.range l.opened
  places : l.idle.card + l.leases.card + l.lost = size

@[simp] theorem lent_cons_some (r : ℕ) (idle closed : Multiset ℕ) (leases : Multiset (Option ℕ))
    (opened lost : ℕ) :
    lent ⟨idle, some r ::ₘ leases, closed, opened, lost⟩ = r ::ₘ leases.filterMap id :=
  Multiset.filterMap_cons_some _ _ _ rfl

@[simp] theorem lent_cons_none (idle closed : Multiset ℕ) (leases : Multiset (Option ℕ))
    (opened lost : ℕ) :
    lent ⟨idle, none ::ₘ leases, closed, opened, lost⟩ = leases.filterMap id :=
  Multiset.filterMap_cons_none _ _ rfl

theorem conserved_full (size : ℕ) : Conserved size ⟨Multiset.range size, 0, 0, size, 0⟩ where
  resources := by
    show Multiset.range size + Multiset.filterMap id 0 + 0 = Multiset.range size
    rw [Multiset.filterMap_zero, Multiset.add_zero, Multiset.add_zero]
  places := Multiset.card_range size

theorem Conserved.step {size : ℕ} {l l' : Lending} (h : Conserved size l) (hstep : Step l l') :
    Conserved size l' := by
  obtain ⟨hr, hp⟩ := h
  cases hstep with
  | stay => exact ⟨hr, hp⟩
  | lend r idle leases closed opened lost =>
    refine ⟨?_, ?_⟩
    · rw [lent_cons_some, Multiset.add_cons, Multiset.cons_add, ← hr, Multiset.cons_add,
        Multiset.cons_add]
      rfl
    · simp only [Multiset.card_cons] at hp ⊢
      omega
  | giveBack r idle leases closed opened lost =>
    refine ⟨?_, ?_⟩
    · rw [lent_cons_some, Multiset.add_cons, Multiset.cons_add] at hr
      rw [Multiset.cons_add, Multiset.cons_add]
      exact hr
    · simp only [Multiset.card_cons] at hp ⊢
      omega
  | close r idle leases closed opened lost =>
    refine ⟨?_, ?_⟩
    · rw [lent_cons_some, Multiset.add_cons, Multiset.cons_add] at hr
      rw [lent_cons_none, Multiset.add_cons]
      exact hr
    · simp only [Multiset.card_cons] at hp ⊢
      omega
  | replace idle leases closed opened lost =>
    refine ⟨?_, ?_⟩
    · rw [lent_cons_none] at hr
      rw [lent_cons_some, Multiset.add_cons, Multiset.cons_add, hr, Multiset.range_succ]
    · simp only [Multiset.card_cons] at hp ⊢
      omega
  | lose idle leases closed opened lost =>
    refine ⟨?_, ?_⟩
    · rw [lent_cons_none] at hr
      exact hr
    · simp only [Multiset.card_cons] at hp ⊢
      omega

theorem count_lent (l : Lending) (r : ℕ) : l.lent.count r = l.leases.count (some r) := by
  unfold lent
  induction l.leases using Multiset.induction_on with
  | empty => rfl
  | cons lease leases ih =>
    cases lease with
    | none =>
      rw [Multiset.filterMap_cons_none _ _ rfl, ih, Multiset.count_cons_of_ne (Option.some_ne_none r)]
    | some x =>
      rw [Multiset.filterMap_cons_some id (some x) leases rfl, Multiset.count_cons,
        Multiset.count_cons, ih]
      simp only [Option.some.injEq]

theorem Conserved.count {size : ℕ} {l : Lending} (h : Conserved size l) (r : ℕ) :
    l.idle.count r + l.leases.count (some r) + l.closed.count r = if r < l.opened then 1 else 0 := by
  rw [← count_lent, ← Multiset.count_add, ← Multiset.count_add, h.resources]
  split_ifs with hr
  · exact Multiset.count_eq_one_of_mem (Multiset.nodup_range _) (Multiset.mem_range.mpr hr)
  · exact Multiset.count_eq_zero_of_notMem fun hmem => hr (Multiset.mem_range.mp hmem)

end Lending
