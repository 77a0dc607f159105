import Mathlib.Data.List.Basic
import Mathlib.Data.List.Induction

/-!
# Machines with explicit choices

A `Machine` is a step function whose nondeterminism sits in the labels: a label names the party
that moves and everything the environment decides in that move, and `step s a = none` says that
`a` cannot happen in `s`. An interleaving is then a list of labels and `exec` replays it.

`invariant` and `invariant_of_always` are the two induction rules every safety proof goes through:
the first for all interleavings, the second for those whose steps all meet a condition `C` on the
state before the step. `always_iff` is their exact form: when a step outside `C` does damage that
no later step repairs, a run is undamaged exactly when its steps all meet `C`. When the damage can
be seen right after the step, `always_iff_prefixes` says the same of all states of the run.
-/

namespace Transition

/-- A step function with an initial state. -/
structure Machine (σ α : Type*) where
  init : σ
  step : σ → α → Option σ

namespace Machine

variable {σ α : Type*} (m : Machine σ α)

/-- The state after the labels `as`, taken in order from `s`. -/
def exec (s : σ) : List α → Option σ
  | [] => some s
  | a :: as => (m.step s a).bind fun s' => exec s' as

/-- Every step of the run meets `C`, which sees the state before the step and its label. -/
def Always (C : σ → α → Prop) (s : σ) : List α → Prop
  | [] => True
  | a :: as => C s a ∧ ∀ s', m.step s a = some s' → Always C s' as

instance instDecidableAlways {C : σ → α → Prop} [∀ s a, Decidable (C s a)] :
    ∀ (s : σ) (as : List α), Decidable (m.Always C s as)
  | _, [] => .isTrue trivial
  | s, a :: as =>
    have : ∀ s', Decidable (m.Always C s' as) := fun s' => instDecidableAlways s' as
    inferInstanceAs (Decidable (C s a ∧ ∀ s' ∈ m.step s a, m.Always C s' as))

/-- The states of the finite runs. -/
def Reachable (s : σ) : Prop := ∃ as, m.exec m.init as = some s

@[simp] theorem exec_nil (s : σ) : m.exec s [] = some s := rfl

theorem exec_cons (s : σ) (a : α) (as : List α) :
    m.exec s (a :: as) = (m.step s a).bind fun s' => m.exec s' as := rfl

theorem exec_cons_eq_some {s t : σ} {a : α} {as : List α} :
    m.exec s (a :: as) = some t ↔ ∃ s', m.step s a = some s' ∧ m.exec s' as = some t := by
  rw [exec_cons, Option.bind_eq_some_iff]

theorem exec_append {s t : σ} {as bs : List α} :
    m.exec s (as ++ bs) = some t ↔ ∃ u, m.exec s as = some u ∧ m.exec u bs = some t := by
  induction as generalizing s with
  | nil => simp
  | cons a as ih =>
    rw [List.cons_append, exec_cons_eq_some]
    constructor
    · rintro ⟨s', hs, h⟩
      obtain ⟨u, hu, ht⟩ := ih.mp h
      exact ⟨u, m.exec_cons_eq_some.mpr ⟨s', hs, hu⟩, ht⟩
    · rintro ⟨u, hu, ht⟩
      obtain ⟨s', hs, hu⟩ := m.exec_cons_eq_some.mp hu
      exact ⟨s', hs, ih.mpr ⟨u, hu, ht⟩⟩

theorem exec_singleton {s t : σ} {a : α} : m.exec s [a] = some t ↔ m.step s a = some t := by
  rw [exec_cons_eq_some]; simp

/-! ## Induction rules -/

/-- What holds at `s` and is kept by every step meeting `C` holds after every run whose steps
all meet `C`. -/
theorem invariant_of_always {C : σ → α → Prop} {P : σ → Prop}
    (hstep : ∀ s a s', P s → C s a → m.step s a = some s' → P s') {s t : σ} {as : List α}
    (hs : P s) (hC : m.Always C s as) (h : m.exec s as = some t) : P t := by
  induction as generalizing s with
  | nil =>
    rw [exec_nil, Option.some.injEq] at h
    exact h ▸ hs
  | cons a as ih =>
    obtain ⟨s', hs', h⟩ := m.exec_cons_eq_some.mp h
    exact ih (hstep s a s' hs hC.1 hs') (hC.2 s' hs') h

theorem always_of_forall {C : σ → α → Prop} (hC : ∀ s a, C s a) {s : σ} {as : List α} :
    m.Always C s as := by
  induction as generalizing s with
  | nil => trivial
  | cons a as ih => exact ⟨hC s a, fun s' _ => ih⟩

theorem always_and {C D : σ → α → Prop} {s : σ} {as : List α} (hC : m.Always C s as)
    (hD : m.Always D s as) : m.Always (fun s a => C s a ∧ D s a) s as := by
  induction as generalizing s with
  | nil => trivial
  | cons a as ih => exact ⟨⟨hC.1, hD.1⟩, fun s' hs' => ih (hC.2 s' hs') (hD.2 s' hs')⟩

/-- What holds at `s` and is kept by every step holds after every run. -/
theorem invariant_exec {P : σ → Prop} (hstep : ∀ s a s', P s → m.step s a = some s' → P s')
    {s t : σ} {as : List α} (hs : P s) (h : m.exec s as = some t) : P t :=
  m.invariant_of_always (C := fun _ _ => True) (fun s a s' hP _ => hstep s a s' hP) hs
    (m.always_of_forall fun _ _ => trivial) h

/-- What holds initially and is kept by every step holds in every reachable state. -/
theorem invariant {P : σ → Prop} (hinit : P m.init)
    (hstep : ∀ s a s', P s → m.step s a = some s' → P s') {s : σ} (h : m.Reachable s) : P s := by
  obtain ⟨as, h⟩ := h
  exact m.invariant_exec hstep hinit h

/-- What holds of the empty run and is kept by one more step, in terms of the run so far. -/
theorem run_induction {P : List α → σ → Prop} (hnil : P [] m.init)
    (hsnoc : ∀ as a s s', m.exec m.init as = some s → P as s → m.step s a = some s' →
      P (as ++ [a]) s')
    {as : List α} {s : σ} (h : m.exec m.init as = some s) : P as s := by
  induction as using List.reverseRecOn generalizing s with
  | nil =>
    rw [exec_nil, Option.some.injEq] at h
    exact h ▸ hnil
  | append_singleton as a ih =>
    obtain ⟨u, hu, hs⟩ := m.exec_append.mp h
    exact hsnoc as a u s hu (ih hu) (m.exec_singleton.mp hs)

/-- A gauge `g` whose recorded maximum `w` is refreshed by every step is at its maximum over the
run: `w` bounds `g` in every state passed through and is reached in one of them. -/
theorem max_of_run {g w : σ → ℕ} (hinit : w m.init = g m.init)
    (hstep : ∀ as s a s', m.exec m.init as = some s → m.step s a = some s' →
      w s' = max (w s) (g s'))
    {as : List α} {s : σ} (h : m.exec m.init as = some s) :
    (∀ bs cs t, as = bs ++ cs → m.exec m.init bs = some t → g t ≤ w s) ∧
    ∃ bs cs t, as = bs ++ cs ∧ m.exec m.init bs = some t ∧ g t = w s := by
  refine m.run_induction (P := fun as s =>
    (∀ bs cs t, as = bs ++ cs → m.exec m.init bs = some t → g t ≤ w s) ∧
    ∃ bs cs t, as = bs ++ cs ∧ m.exec m.init bs = some t ∧ g t = w s) ?_ ?_ h
  · refine ⟨fun bs cs t he ht => ?_, ⟨[], [], m.init, rfl, rfl, hinit.symm⟩⟩
    obtain ⟨rfl, -⟩ := List.append_eq_nil_iff.mp he.symm
    rw [exec_nil, Option.some.injEq] at ht
    exact Nat.le_of_eq (by rw [← ht, hinit])
  · rintro as a s s' hs ⟨hle, bs, cs, t, he, ht, hmax⟩ ha
    have hw := hstep as s a s' hs ha
    refine ⟨fun bs' cs' t' he' ht' => ?_, ?_⟩
    · rcases List.eq_nil_or_concat cs' with rfl | ⟨cs'', c, rfl⟩
      · -- the whole run
        rw [List.append_nil] at he'
        have hs' : m.exec m.init bs' = some s' :=
          he' ▸ m.exec_append.mpr ⟨s, hs, m.exec_singleton.mpr ha⟩
        obtain rfl : s' = t' := Option.some.inj (hs'.symm.trans ht')
        omega
      · rw [List.concat_eq_append, ← List.append_assoc] at he'
        have hle' := hle bs' cs'' t' (List.append_inj_left' he' rfl) ht'
        omega
    · rcases Nat.le_total (w s) (g s') with hg | hg
      · exact ⟨as ++ [a], [], s', by simp, m.exec_append.mpr ⟨s, hs, m.exec_singleton.mpr ha⟩,
          by omega⟩
      · exact ⟨bs, cs ++ [a], t, by rw [he, List.append_assoc], ht, by omega⟩

/-- Let `P` be kept by the steps meeting `C`, let a step outside `C` from a state in `P` lead to
`B`, and let `B` last, all for steps meeting `E`. Then a run whose steps meet `E` ends outside `B`
exactly when its steps all meet `C`. -/
theorem always_iff_under {E C : σ → α → Prop} {P B : σ → Prop} (hP : ∀ s, P s → ¬ B s)
    (hstep : ∀ s a s', P s → E s a → C s a → m.step s a = some s' → P s')
    (hbad : ∀ s a s', P s → E s a → ¬ C s a → m.step s a = some s' → B s')
    (hlast : ∀ s a s', B s → m.step s a = some s' → B s')
    {s t : σ} {as : List α} (hs : P s) (hE : m.Always E s as) (h : m.exec s as = some t) :
    ¬ B t ↔ m.Always C s as := by
  induction as generalizing s with
  | nil =>
    rw [exec_nil, Option.some.injEq] at h
    exact ⟨fun _ => trivial, fun _ => h ▸ hP s hs⟩
  | cons a as ih =>
    obtain ⟨s', hs', h⟩ := m.exec_cons_eq_some.mp h
    by_cases hC : C s a
    · rw [ih (hstep s a s' hs hE.1 hC hs') (hE.2 s' hs') h]
      refine ⟨fun hrest => ⟨hC, fun s'' hs'' => ?_⟩, fun hall => hall.2 s' hs'⟩
      exact Option.some.inj (hs'.symm.trans hs'') ▸ hrest
    · -- the damage done here survives to the end of the run
      have ht := m.invariant_exec hlast (hbad s a s' hs hE.1 hC hs') h
      exact ⟨fun hB => absurd ht hB, fun hall => absurd hall.1 hC⟩

/-- Let `P` be kept by the steps meeting `C`, let a step outside `C` from a state in `P` lead to
`B`, and let `B` last. Then a run ends outside `B` exactly when its steps all meet `C`. -/
theorem always_iff {C : σ → α → Prop} {P B : σ → Prop} (hP : ∀ s, P s → ¬ B s)
    (hstep : ∀ s a s', P s → C s a → m.step s a = some s' → P s')
    (hbad : ∀ s a s', P s → ¬ C s a → m.step s a = some s' → B s')
    (hlast : ∀ s a s', B s → m.step s a = some s' → B s')
    {s t : σ} {as : List α} (hs : P s) (h : m.exec s as = some t) :
    ¬ B t ↔ m.Always C s as :=
  m.always_iff_under (E := fun _ _ => True) hP (fun s a s' hs _ => hstep s a s' hs)
    (fun s a s' hs _ => hbad s a s' hs) hlast hs (m.always_of_forall fun _ _ => trivial) h

/-- Let `P` be kept by the steps meeting `C` and imply `Q`, and let a step outside `C` from a state
in `P` break `Q`. Then `Q` holds in every state of a run exactly when its steps all meet `C`. -/
theorem always_iff_prefixes {C : σ → α → Prop} {P Q : σ → Prop} (hP : ∀ s, P s → Q s)
    (hstep : ∀ s a s', P s → C s a → m.step s a = some s' → P s')
    (hbad : ∀ s a s', P s → ¬ C s a → m.step s a = some s' → ¬ Q s')
    {s t : σ} {as : List α} (hs : P s) (h : m.exec s as = some t) :
    (∀ bs cs u, as = bs ++ cs → m.exec s bs = some u → Q u) ↔ m.Always C s as := by
  induction as generalizing s with
  | nil =>
    refine ⟨fun _ => trivial, fun _ bs cs u he hu => ?_⟩
    obtain ⟨rfl, -⟩ := List.append_eq_nil_iff.mp he.symm
    rw [exec_nil, Option.some.injEq] at hu
    exact hu ▸ hP s hs
  | cons a as ih =>
    obtain ⟨s', hs', h⟩ := m.exec_cons_eq_some.mp h
    constructor
    · intro hQ
      have hC : C s a := by
        by_contra hC
        exact hbad s a s' hs hC hs' (hQ [a] as s' rfl (m.exec_singleton.mpr hs'))
      refine ⟨hC, fun s'' hs'' => ?_⟩
      obtain rfl : s' = s'' := Option.some.inj (hs'.symm.trans hs'')
      refine (ih (hstep s a s' hs hC hs') h).mp fun bs cs u he hu => ?_
      exact hQ (a :: bs) cs u (by rw [he]; rfl) (m.exec_cons_eq_some.mpr ⟨s', hs', hu⟩)
    · rintro ⟨hC, hrest⟩ bs cs u he hu
      have hs'P := hstep s a s' hs hC hs'
      cases bs with
      | nil =>
        rw [exec_nil, Option.some.injEq] at hu
        exact hu ▸ hP s hs
      | cons b bs =>
        obtain ⟨rfl, htail⟩ := List.cons.inj he
        obtain ⟨s'', hs'', hu⟩ := m.exec_cons_eq_some.mp hu
        obtain rfl : s' = s'' := Option.some.inj (hs'.symm.trans hs'')
        exact (ih hs'P h).mpr (hrest s' hs') bs cs u htail hu

end Machine

end Transition
