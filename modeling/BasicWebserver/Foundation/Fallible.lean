import Mathlib.Data.List.Forall2

/-!
# Fallible computations

What a computation in `Except` did when it succeeded: a sequence of steps, a step for each element
of a list, and a loop that carries a state.
-/

namespace Fallible

universe u v

variable {ε : Type u} {α β σ : Type v}

theorem ok_bind (a : α) (f : α → Except ε β) : (Except.ok a >>= f) = f a := rfl

theorem bind_eq_ok {x : Except ε α} {f : α → Except ε β} {b : β} :
    (x >>= f) = .ok b ↔ ∃ a, x = .ok a ∧ f a = .ok b := by
  constructor
  · intro h
    cases x with
    | error e => cases h
    | ok a => exact ⟨a, rfl, h⟩
  · rintro ⟨a, rfl, h⟩
    exact h

theorem elim_eq_ok {o : Option α} {e : ε} {a : α} :
    o.elim (Except.error e) Except.ok = .ok a ↔ o = some a := by
  cases o with
  | none => exact ⟨nofun, nofun⟩
  | some a' =>
    exact ⟨fun h => congrArg some (Except.ok.inj h), fun h => congrArg Except.ok (Option.some.inj h)⟩

theorem ite_error_eq_ok {p : Prop} [Decidable p] {e : ε} {x : Except ε α} {a : α} :
    (if p then .error e else x) = Except.ok a ↔ ¬ p ∧ x = .ok a := by
  split_ifs with hp
  · exact ⟨nofun, fun h => absurd hp h.1⟩
  · exact ⟨fun h => ⟨hp, h⟩, And.right⟩

theorem mapM_eq_ok {f : α → Except ε β} {l : List α} {l' : List β} :
    l.mapM f = .ok l' ↔ List.Forall₂ (fun a b => f a = .ok b) l l' := by
  induction l generalizing l' with
  | nil =>
    rw [List.mapM_nil, List.forall₂_nil_left_iff]
    exact ⟨fun h => (Except.ok.inj h).symm, fun h => congrArg Except.ok h.symm⟩
  | cons a l ih =>
    rw [List.mapM_cons, bind_eq_ok, List.forall₂_cons_left_iff]
    constructor
    · rintro ⟨b, hb, hrest⟩
      obtain ⟨bs, hbs, hl'⟩ := bind_eq_ok.mp hrest
      exact ⟨b, bs, hb, ih.mp hbs, (Except.ok.inj hl').symm⟩
    · rintro ⟨b, bs, hb, hbs, rfl⟩
      exact ⟨b, hb, bind_eq_ok.mpr ⟨bs, ih.mpr hbs, rfl⟩⟩

/-- What each turn of a loop keeps, for the elements gone through so far, the whole loop keeps. -/
theorem foldlM_ok {f : σ → α → Except ε σ} {P : List α → σ → Prop} {s s' : σ} (l : List α)
    (h : l.foldlM f s = .ok s') (start : P [] s)
    (turn : ∀ seen s a s', P seen s → f s a = .ok s' → P (seen ++ [a]) s') : P l s' := by
  have hgen : ∀ l seen s, P seen s → l.foldlM f s = .ok s' → P (seen ++ l) s' := by
    intro l
    induction l with
    | nil =>
      intro seen s hP hs
      rw [List.append_nil]
      exact Except.ok.inj hs ▸ hP
    | cons a l ih =>
      intro seen s hP hs
      rw [List.foldlM_cons] at hs
      obtain ⟨t, ht, hrest⟩ := bind_eq_ok.mp hs
      rw [List.append_cons]
      exact ih (seen ++ [a]) t (turn seen s a t hP ht) hrest
  exact hgen l [] s start h

end Fallible
