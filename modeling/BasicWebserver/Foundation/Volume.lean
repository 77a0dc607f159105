import Mathlib.Data.Nat.Notation
import Mathlib.Logic.Function.Basic

/-!
# Entries of a volume and who created them

A volume maps places to files, and files to their contents. Two entries are for one file when one is
a link to the other. Each entry carries who created it. The operations are those of a file system
that work on single entries: creating one for a new file, appending to a file, linking and removing;
creating and linking fail where there is an entry already.

`Spares` says that someone changed nothing but entries of their own. When entries for one file have
one creator (`Sound`), every operation on one's own entries spares those of others, and so keeps
the list of what another one holds (`Held`).
-/

structure Volume.Entry (ω : Type*) where
  file : ℕ
  creator : ω

/-- Places with entries, files with contents, and the number of files ever created. -/
structure Volume (π ω α : Type*) where
  entries : π → Option (Volume.Entry ω)
  contents : ℕ → List α
  next : ℕ

namespace Volume

variable {π ω α : Type*} [DecidableEq π]

/-- A new file, empty, at a place without an entry. -/
def create (p : π) (w : ω) (v : Volume π ω α) : Option (Volume π ω α) :=
  match v.entries p with
  | some _ => none
  | none =>
    some {
      entries := Function.update v.entries p (some ⟨v.next, w⟩)
      contents := Function.update v.contents v.next []
      next := v.next + 1 }

def append (file : ℕ) (data : List α) (v : Volume π ω α) : Volume π ω α :=
  { v with contents := Function.update v.contents file (v.contents file ++ data) }

/-- A second entry for the file at `p`. -/
def link (p q : π) (w : ω) (v : Volume π ω α) : Option (Volume π ω α) :=
  match v.entries p, v.entries q with
  | some e, none => some { v with entries := Function.update v.entries q (some ⟨e.file, w⟩) }
  | _, _ => none

def remove (p : π) (v : Volume π ω α) : Option (Volume π ω α) :=
  match v.entries p with
  | none => none
  | some _ => some { v with entries := Function.update v.entries p none }

structure Sound (v : Volume π ω α) : Prop where
  fresh : ∀ p e, v.entries p = some e → e.file < v.next
  agree : ∀ p q e f, v.entries p = some e → v.entries q = some f → e.file = f.file →
    e.creator = f.creator

/-- `w` has changed nothing but entries of their own. -/
structure Spares (w : ω) (v v' : Volume π ω α) : Prop where
  entries : ∀ p e, e.creator ≠ w → (v'.entries p = some e ↔ v.entries p = some e)
  contents : ∀ p e, e.creator ≠ w → v.entries p = some e → v'.contents e.file = v.contents e.file

/-- The entries of `w` are those listed, with their files. -/
def Held (w : ω) (l : List (π × ℕ)) (v : Volume π ω α) : Prop :=
  ∀ p f, v.entries p = some ⟨f, w⟩ ↔ (p, f) ∈ l

variable {v v' : Volume π ω α} {p q : π} {w w' : ω} {e : Entry ω} {data : List α}

omit [DecidableEq π] in
theorem Spares.refl (w : ω) (v : Volume π ω α) : Spares w v v :=
  ⟨fun _ _ _ => Iff.rfl, fun _ _ _ _ => rfl⟩

theorem create_eq_some (h : v.create p w = some v') :
    v.entries p = none ∧
      v' = {
        entries := Function.update v.entries p (some ⟨v.next, w⟩)
        contents := Function.update v.contents v.next []
        next := v.next + 1 } := by
  unfold create at h
  split at h
  · cases h
  · exact ⟨‹_›, (Option.some.inj h).symm⟩

theorem link_eq_some (h : v.link p q w = some v') (hp : v.entries p = some e) :
    v.entries q = none ∧
      v' = { v with entries := Function.update v.entries q (some ⟨e.file, w⟩) } := by
  unfold link at h
  rw [hp] at h
  split at h
  · rename_i f he hq
    cases he
    exact ⟨hq, (Option.some.inj h).symm⟩
  · cases h

theorem remove_eq_some (h : v.remove p = some v') :
    v' = { v with entries := Function.update v.entries p none } := by
  unfold remove at h
  split at h
  · cases h
  · exact (Option.some.inj h).symm

/-! ## Changes of one entry -/

theorem spares_update (hp : ∀ e, v.entries p = some e → e.creator = w) {new : Option (Entry ω)}
    (hnew : ∀ e, new = some e → e.creator = w) :
    Spares w v { v with entries := Function.update v.entries p new } := by
  refine ⟨fun q e he => ?_, fun _ _ _ _ => rfl⟩
  rcases eq_or_ne q p with rfl | hne
  · show Function.update v.entries q new q = some e ↔ v.entries q = some e
    rw [Function.update_self]
    exact ⟨fun h => absurd (hnew e h) he, fun h => absurd (hp e h) he⟩
  · show Function.update v.entries p new q = some e ↔ v.entries q = some e
    rw [Function.update_of_ne hne]

theorem Sound.create (h : v.Sound) (hcreate : v.create p w = some v') :
    v'.Sound ∧ Spares w v v' := by
  obtain ⟨hp, rfl⟩ := create_eq_some hcreate
  have hold : ∀ q e, Function.update v.entries p (some ⟨v.next, w⟩) q = some e →
      e = ⟨v.next, w⟩ ∨ v.entries q = some e := by
    intro q e he
    rcases eq_or_ne q p with rfl | hne
    · rw [Function.update_self] at he
      exact .inl (Option.some.inj he).symm
    · rw [Function.update_of_ne hne] at he
      exact .inr he
  refine ⟨⟨fun q e he => ?_, fun q r e f he hf hfile => ?_⟩, ⟨?_, fun q e he hq => ?_⟩⟩
  · rcases hold q e he with rfl | he
    · exact Nat.lt_succ_self _
    · exact Nat.lt_succ_of_lt (h.fresh q e he)
  · rcases hold q e he with rfl | he <;> rcases hold r f hf with rfl | hf
    · rfl
    · exact absurd (hfile ▸ h.fresh r f hf) (Nat.lt_irrefl _)
    · exact absurd (hfile ▸ h.fresh q e he) (Nat.lt_irrefl _)
    · exact h.agree q r e f he hf hfile
  · refine (spares_update (v := v) (fun e he => ?_) fun e he => ?_).entries
    · rw [hp] at he
      cases he
    · rw [← Option.some.inj he]
  · show Function.update v.contents v.next [] e.file = v.contents e.file
    rw [Function.update_of_ne (Nat.ne_of_lt (h.fresh q e hq))]

omit [DecidableEq π] in
theorem Sound.append (h : v.Sound) (hp : v.entries p = some e) :
    (v.append e.file data).Sound ∧ Spares e.creator v (v.append e.file data) := by
  refine ⟨⟨h.fresh, h.agree⟩, ⟨fun _ _ _ => Iff.rfl, fun q f hf hq => ?_⟩⟩
  show Function.update v.contents e.file _ f.file = v.contents f.file
  rw [Function.update_of_ne]
  exact fun hfile => hf (h.agree q p f e hq hp hfile)

theorem Sound.link (h : v.Sound) (hp : v.entries p = some e)
    (hlink : v.link p q e.creator = some v') : v'.Sound ∧ Spares e.creator v v' := by
  obtain ⟨hq, rfl⟩ := link_eq_some hlink hp
  have hold : ∀ r f, Function.update v.entries q (some ⟨e.file, e.creator⟩) r = some f →
      ∃ r', v.entries r' = some f := by
    intro r f hf
    rcases eq_or_ne r q with rfl | hne
    · rw [Function.update_self] at hf
      exact ⟨p, hp.trans hf⟩
    · rw [Function.update_of_ne hne] at hf
      exact ⟨r, hf⟩
  refine ⟨⟨fun r f hf => ?_, fun r r' f f' hf hf' hfile => ?_⟩, spares_update ?_ ?_⟩
  · obtain ⟨r', hr'⟩ := hold r f hf
    exact h.fresh r' f hr'
  · obtain ⟨t, ht⟩ := hold r f hf
    obtain ⟨t', ht'⟩ := hold r' f' hf'
    exact h.agree t t' f f' ht ht' hfile
  · intro f hf
    rw [hq] at hf
    cases hf
  · intro f hf
    rw [← Option.some.inj hf]

theorem Sound.remove (h : v.Sound) (hp : v.entries p = some e) (hremove : v.remove p = some v') :
    v'.Sound ∧ Spares e.creator v v' := by
  obtain rfl := remove_eq_some hremove
  have hold : ∀ q f, Function.update v.entries p none q = some f → v.entries q = some f := by
    intro q f hf
    rcases eq_or_ne q p with rfl | hne
    · rw [Function.update_self] at hf
      cases hf
    · rwa [Function.update_of_ne hne] at hf
  refine ⟨⟨fun q f hf => h.fresh q f (hold q f hf), fun q r f g hf hg =>
    h.agree q r f g (hold q f hf) (hold r g hg)⟩, spares_update ?_ nofun⟩
  intro f hf
  rw [← Option.some.inj (hp.symm.trans hf)]

/-! ## What one holds -/

section Held

variable {l : List (π × ℕ)} {f : ℕ}

omit [DecidableEq π] in
theorem Held.spares (h : v.Held w l) (hspares : Spares w' v v') (hne : w ≠ w') : v'.Held w l :=
  fun p f => (hspares.entries p ⟨f, w⟩ hne).trans (h p f)

omit [DecidableEq π] in
theorem Held.contents (h : v.Held w l) (hspares : Spares w' v v') (hne : w ≠ w')
    (hmem : (p, f) ∈ l) : v'.contents f = v.contents f :=
  hspares.contents p ⟨f, w⟩ hne ((h p f).mpr hmem)

theorem Held.update (h : v.Held w l) (hp : v.entries p = none) :
    ∀ q g, Function.update v.entries p (some ⟨f, w⟩) q = some ⟨g, w⟩ ↔ (q, g) ∈ (p, f) :: l := by
  intro q g
  rw [List.mem_cons, Prod.mk.injEq]
  rcases eq_or_ne q p with rfl | hne
  · have hnot : (q, g) ∉ l := fun hmem => by
      have he := (h q g).mpr hmem
      rw [hp] at he
      cases he
    rw [Function.update_self, Option.some.injEq, Entry.mk.injEq]
    exact ⟨fun he => .inl ⟨rfl, he.1.symm⟩, fun he => he.elim
      (fun he => ⟨he.2.symm, rfl⟩) fun hmem => absurd hmem hnot⟩
  · rw [Function.update_of_ne hne, h q g]
    exact ⟨.inr, fun he => he.resolve_left fun he => hne he.1⟩

theorem Held.create (h : v.Held w l) (hcreate : v.create p w = some v') :
    v'.Held w ((p, v.next) :: l) := by
  obtain ⟨hp, rfl⟩ := create_eq_some hcreate
  exact h.update hp

theorem Held.link (h : v.Held w l) (hmem : (p, f) ∈ l) (hlink : v.link p q w = some v') :
    v'.Held w ((q, f) :: l) := by
  obtain ⟨hq, rfl⟩ := link_eq_some hlink ((h p f).mpr hmem)
  exact h.update hq

theorem Held.remove (h : v.Held w ((p, f) :: l)) (hp : ∀ g, (p, g) ∉ l)
    (hremove : v.remove p = some v') : v'.Held w l := by
  obtain rfl := remove_eq_some hremove
  intro q g
  show Function.update v.entries p none q = some ⟨g, w⟩ ↔ (q, g) ∈ l
  rcases eq_or_ne q p with rfl | hne
  · rw [Function.update_self]
    exact ⟨nofun, fun hmem => absurd hmem (hp g)⟩
  · rw [Function.update_of_ne hne, h q g, List.mem_cons, Prod.mk.injEq]
    exact ⟨fun he => he.resolve_left fun he => hne he.1, .inr⟩

end Held

end Volume
