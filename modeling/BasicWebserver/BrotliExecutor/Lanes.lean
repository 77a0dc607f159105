import Mathlib.Data.List.Nodup
import BasicWebserver.Foundation.Ownership
import BasicWebserver.BrotliExecutor.State

/-!
# The life of a lane

`Lanes` keeps of the executor only who holds which lane: the pool, the channel, the result slots,
the cancelled flags, and for every stream and worker whether it holds a lane, a job or a work item.
`Lanes.Step` lists the moves of lanes between them; everything else a thread does changes nothing
here. A step is labelled with the origin of a job when it is the last critical section of that job's
drop.

`Owned` holds along all steps: every lane is at exactly one place.
-/

namespace BasicWebserver.BrotliExecutor

open Ownership

/-- What a stream holds: a lane (bare or inside a completion), with `cleared` from the store of
`submit` to `cancelled` until its `try_send`; a live job; or a job whose drop has stored
`cancelled`. -/
inductive Holding
  | nothing
  | lane (l : ℕ) (cleared : Bool)
  | live (o : Origin)
  | dropping (o : Origin)
  deriving DecidableEq

/-- What a worker holds: a work item it may still publish, or a lane it is about to release. -/
inductive Task
  | nothing
  | live (o : Origin)
  | lane (l : ℕ)
  deriving DecidableEq

def Holding.lane? : Holding → Option ℕ
  | .nothing => none
  | .lane l _ => some l
  | .live _ => none
  | .dropping _ => none

def Task.lane? : Task → Option ℕ
  | .nothing => none
  | .live o => some o.lane
  | .lane l => some l

@[simp] theorem Holding.lane?_nothing : Holding.nothing.lane? = none := rfl
@[simp] theorem Holding.lane?_lane (l : ℕ) (x : Bool) : (Holding.lane l x).lane? = some l := rfl
@[simp] theorem Holding.lane?_live (o : Origin) : (Holding.live o).lane? = none := rfl
@[simp] theorem Holding.lane?_dropping (o : Origin) : (Holding.dropping o).lane? = none := rfl
@[simp] theorem Task.lane?_nothing : Task.nothing.lane? = none := rfl
@[simp] theorem Task.lane?_live (o : Origin) : (Task.live o).lane? = some o.lane := rfl
@[simp] theorem Task.lane?_lane (l : ℕ) : (Task.lane l).lane? = some l := rfl

structure Lanes where
  available : List ℕ
  channel : List Origin
  result : ℕ → Option Origin
  cancelled : ℕ → Bool
  stream : ℕ → Holding
  worker : ℕ → Task
  lease : ℕ → ℕ
  submissions : ℕ
  taken : List (ℕ × ℕ)

inductive Place
  | available
  | stream (k : ℕ)
  | channel
  | worker (i : ℕ)
  | slot
  deriving DecidableEq

namespace Lanes

def Holds (a : Lanes) : Place → ℕ → Prop
  | .available, l => l ∈ a.available
  | .stream k, l => (a.stream k).lane? = some l
  | .channel, l => l ∈ a.channel.map Origin.lane
  | .worker i, l => (a.worker i).lane? = some l
  | .slot, l => (a.result l).isSome = true

/-- A work item that is queued, held by a worker that may publish it, or stored in its slot. -/
inductive InFlight (a : Lanes) (o : Origin) : Prop
  | channel (h : o ∈ a.channel)
  | worker (i : ℕ) (h : a.worker i = .live o)
  | slot (h : a.result o.lane = some o)

inductive Step (a : Lanes) : Option Origin → Lanes → Prop
  | lease (k l : ℕ) (rest : List ℕ) (idle : a.stream k = .nothing)
      (top : a.available = l :: rest) :
      Step a none { a with
        available := rest
        stream := Function.update a.stream k (.lane l false)
        lease := Function.update a.lease l (a.lease l + 1) }
  | clear (k l : ℕ) (x y : Bool) (held : a.stream k = .lane l x) :
      Step a none { a with
        cancelled := Function.update a.cancelled l false
        stream := Function.update a.stream k (.lane l y) }
  | refuse (k l : ℕ) (held : a.stream k = .lane l true) :
      Step a none { a with stream := Function.update a.stream k (.lane l false) }
  | submit (k l : ℕ) (held : a.stream k = .lane l true) :
      Step a none { a with
        channel := a.channel ++ [⟨l, a.lease l, a.submissions⟩]
        stream := Function.update a.stream k (.live ⟨l, a.lease l, a.submissions⟩)
        submissions := a.submissions + 1 }
  | poll (k : ℕ) (o c : Origin) (live : a.stream k = .live o) (ready : a.result o.lane = some c) :
      Step a none { a with
        result := Function.update a.result o.lane none
        stream := Function.update a.stream k (.lane c.lane false)
        taken := a.taken ++ [(o.submission, c.submission)] }
  | cancel (k : ℕ) (o : Origin) (live : a.stream k = .live o) :
      Step a none { a with
        cancelled := Function.update a.cancelled o.lane true
        stream := Function.update a.stream k (.dropping o) }
  | dropTake (k : ℕ) (o c : Origin) (dropping : a.stream k = .dropping o)
      (ready : a.result o.lane = some c) :
      Step a (some o) { a with
        result := Function.update a.result o.lane none
        stream := Function.update a.stream k (.lane c.lane false)
        taken := a.taken ++ [(o.submission, c.submission)] }
  | dropEmpty (k : ℕ) (o : Origin) (dropping : a.stream k = .dropping o)
      (empty : a.result o.lane = none) :
      Step a (some o) { a with stream := Function.update a.stream k .nothing }
  | receive (i : ℕ) (o : Origin) (rest : List Origin) (idle : a.worker i = .nothing)
      (front : a.channel = o :: rest) :
      Step a none { a with
        channel := rest
        worker := Function.update a.worker i (.live o) }
  | demote (i : ℕ) (o : Origin) (live : a.worker i = .live o)
      (cancelled : a.cancelled o.lane = true) :
      Step a none { a with worker := Function.update a.worker i (.lane o.lane) }
  | publish (i : ℕ) (o : Origin) (live : a.worker i = .live o)
      (cancelled : a.cancelled o.lane = false) :
      Step a none { a with
        result := Function.update a.result o.lane (some o)
        worker := Function.update a.worker i .nothing }
  | releaseStream (k l : ℕ) (held : a.stream k = .lane l false) :
      Step a none { a with
        available := l :: a.available
        stream := Function.update a.stream k .nothing }
  | releaseWorker (i l : ℕ) (held : a.worker i = .lane l) :
      Step a none { a with
        available := l :: a.available
        worker := Function.update a.worker i .nothing }

/-! ## Ownership -/

/-- Every lane is at exactly one place, and at most once there. -/
structure Owned (n : ℕ) (a : Lanes) : Prop where
  partition : Partition (· < n) a.Holds
  available_nodup : a.available.Nodup
  channel_nodup : (a.channel.map Origin.lane).Nodup
  slot_lane : ∀ l c, a.result l = some c → c.lane = l

namespace Owned

variable {n : ℕ} {a b : Lanes}

theorem exclusive (h : Owned n a) {p q : Place} {l : ℕ} (hp : a.Holds p l) (hq : a.Holds q l) :
    p = q :=
  h.partition.exclusive hp hq

theorem lease (h : Owned n a) {k l : ℕ} {rest : List ℕ} (idle : a.stream k = .nothing)
    (top : a.available = l :: rest) :
    Owned n { a with
      available := rest
      stream := Function.update a.stream k (.lane l false)
      lease := Function.update a.lease l (a.lease l + 1) } := by
  have hnodup := h.available_nodup
  rw [top, List.nodup_cons] at hnodup
  refine ⟨h.partition.move (p := .available) (q := .stream k) (i := l) ?_ ?_ ?_ ?_, hnodup.2,
    h.channel_nodup, h.slot_lane⟩
  · simp [Holds, top]
  · intro j
    simp only [Holds, top, List.mem_cons]
    constructor
    · intro hj
      exact ⟨.inr hj, fun e => hnodup.1 (e ▸ hj)⟩
    · rintro ⟨rfl | hj, hne⟩
      · exact absurd rfl hne
      · exact hj
  · intro j
    simp [Holds, idle, eq_comm]
  · intro r hr hr' j
    cases r with
    | stream k' =>
      have : k' ≠ k := fun e => hr' (e ▸ rfl)
      simp [Holds, this]
    | available => exact absurd rfl hr
    | _ => rfl

theorem submit (h : Owned n a) {k l : ℕ} (held : (a.stream k).lane? = some l) {o : Origin}
    (ho : o.lane = l) {m : ℕ} :
    Owned n { a with
      channel := a.channel ++ [o]
      stream := Function.update a.stream k (.live o)
      submissions := m } := by
  have hnew : l ∉ a.channel.map Origin.lane := fun hm =>
    nomatch h.exclusive (p := .channel) (q := .stream k) (l := l) hm held
  refine ⟨h.partition.move (p := .stream k) (q := .channel) (i := l) held ?_ ?_ ?_,
    h.available_nodup, ?_, h.slot_lane⟩
  · intro j
    simp [Holds, held, eq_comm]
  · intro j
    simp [Holds, ho]
  · intro r hr hr' j
    cases r with
    | stream k' =>
      have : k' ≠ k := fun e => hr (e ▸ rfl)
      simp [Holds, this]
    | channel => exact absurd rfl hr'
    | _ => rfl
  · rw [List.map_append, List.map_singleton, List.nodup_append]
    refine ⟨h.channel_nodup, List.nodup_singleton _, ?_⟩
    intro i hi j hj
    rw [List.mem_singleton, ho] at hj
    rintro rfl
    exact hnew (hj ▸ hi)

theorem take (h : Owned n a) {k l : ℕ} {c : Origin} (free : (a.stream k).lane? = none)
    (ready : a.result l = some c) {m : List (ℕ × ℕ)} :
    Owned n { a with
      result := Function.update a.result l none
      stream := Function.update a.stream k (.lane c.lane false)
      taken := m } := by
  have hc := h.slot_lane l c ready
  refine ⟨h.partition.move (p := .slot) (q := .stream k) (i := l) (by simp [Holds, ready]) ?_ ?_ ?_,
    h.available_nodup, h.channel_nodup, ?_⟩
  · intro j
    by_cases hj : j = l
    · subst hj; simp [Holds]
    · simp [Holds, hj]
  · intro j
    simp [Holds, hc, free, eq_comm]
  · intro r hr hr' j
    cases r with
    | stream k' =>
      have : k' ≠ k := fun e => hr' (e ▸ rfl)
      simp [Holds, this]
    | slot => exact absurd rfl hr
    | _ => rfl
  · intro j d hd
    by_cases hj : j = l
    · subst hj; simp at hd
    · exact h.slot_lane j d (by simpa [hj] using hd)

/-- A stream that keeps its lane, or holds none before and after, moves nothing. -/
theorem restream (h : Owned n a) {k : ℕ} {x : Holding} (same : x.lane? = (a.stream k).lane?)
    {f : ℕ → Bool} :
    Owned n { a with cancelled := f, stream := Function.update a.stream k x } := by
  refine ⟨h.partition.congr fun r j => ?_, h.available_nodup, h.channel_nodup, h.slot_lane⟩
  cases r with
  | stream k' =>
    by_cases hk : k' = k
    · subst hk; simp [Holds, same]
    · simp [Holds, hk]
  | _ => rfl

theorem receive (h : Owned n a) {i : ℕ} {o : Origin} {rest : List Origin}
    (idle : a.worker i = .nothing) (front : a.channel = o :: rest) :
    Owned n { a with
      channel := rest
      worker := Function.update a.worker i (.live o) } := by
  have hnodup := h.channel_nodup
  rw [front, List.map_cons, List.nodup_cons] at hnodup
  refine ⟨h.partition.move (p := .channel) (q := .worker i) (i := o.lane) ?_ ?_ ?_ ?_,
    h.available_nodup, hnodup.2, h.slot_lane⟩
  · simp [Holds, front]
  · intro j
    simp only [Holds, front, List.map_cons, List.mem_cons]
    constructor
    · intro hj
      exact ⟨.inr hj, fun e => hnodup.1 (e ▸ hj)⟩
    · rintro ⟨rfl | hj, hne⟩
      · exact absurd rfl hne
      · exact hj
  · intro j
    simp [Holds, idle, eq_comm]
  · intro r hr hr' j
    cases r with
    | worker i' =>
      have : i' ≠ i := fun e => hr' (e ▸ rfl)
      simp [Holds, this]
    | channel => exact absurd rfl hr
    | _ => rfl

/-- A worker that keeps its lane moves nothing. -/
theorem retask (h : Owned n a) {i : ℕ} {x : Task} (same : x.lane? = (a.worker i).lane?) :
    Owned n { a with worker := Function.update a.worker i x } := by
  refine ⟨h.partition.congr fun r j => ?_, h.available_nodup, h.channel_nodup, h.slot_lane⟩
  cases r with
  | worker i' =>
    by_cases hi : i' = i
    · subst hi; simp [Holds, same]
    · simp [Holds, hi]
  | _ => rfl

theorem publish (h : Owned n a) {i : ℕ} {o : Origin} (live : a.worker i = .live o) :
    Owned n { a with
      result := Function.update a.result o.lane (some o)
      worker := Function.update a.worker i .nothing } := by
  refine ⟨h.partition.move (p := .worker i) (q := .slot) (i := o.lane) ?_ ?_ ?_ ?_,
    h.available_nodup, h.channel_nodup, ?_⟩
  · simp [Holds, live]
  · intro j
    simp [Holds, live, eq_comm]
  · intro j
    by_cases hj : j = o.lane
    · subst hj; simp [Holds]
    · simp [Holds, hj]
  · intro r hr hr' j
    cases r with
    | worker i' =>
      have : i' ≠ i := fun e => hr (e ▸ rfl)
      simp [Holds, this]
    | slot => exact absurd rfl hr'
    | _ => rfl
  · intro j d hd
    by_cases hj : j = o.lane
    · subst hj
      obtain rfl : o = d := by simpa using hd
      rfl
    · exact h.slot_lane j d (by simpa [hj] using hd)

theorem push (h : Owned n a) {p : Place} {l : ℕ} (hp : a.Holds p l) {b : Lanes}
    (havail : b.available = l :: a.available) (hchannel : b.channel = a.channel)
    (hresult : b.result = a.result) (hne : p ≠ .available)
    (hsrc : ∀ j, b.Holds p j ↔ a.Holds p j ∧ j ≠ l)
    (hrest : ∀ r, r ≠ p → r ≠ .available → ∀ j, b.Holds r j ↔ a.Holds r j) : Owned n b := by
  refine ⟨h.partition.move (q := .available) hp hsrc ?_ hrest, ?_, ?_, ?_⟩
  · intro j
    simp [Holds, havail, or_comm]
  · rw [havail, List.nodup_cons]
    exact ⟨fun hm => hne (h.exclusive hp (q := .available) hm), h.available_nodup⟩
  · rw [hchannel]; exact h.channel_nodup
  · rw [hresult]; exact h.slot_lane

theorem releaseStream (h : Owned n a) {k l : ℕ} (held : (a.stream k).lane? = some l) :
    Owned n { a with
      available := l :: a.available
      stream := Function.update a.stream k .nothing } := by
  refine h.push (p := .stream k) held rfl rfl rfl (by simp) ?_ ?_
  · intro j
    simp [Holds, held, eq_comm]
  · intro r hr hr' j
    cases r with
    | stream k' =>
      have : k' ≠ k := fun e => hr (e ▸ rfl)
      simp [Holds, this]
    | available => exact absurd rfl hr'
    | _ => rfl

theorem releaseWorker (h : Owned n a) {i l : ℕ} (held : a.worker i = .lane l) :
    Owned n { a with
      available := l :: a.available
      worker := Function.update a.worker i .nothing } := by
  refine h.push (p := .worker i) (by simp [Holds, held]) rfl rfl rfl (by simp) ?_ ?_
  · intro j
    simp [Holds, held, eq_comm]
  · intro r hr hr' j
    cases r with
    | worker i' =>
      have : i' ≠ i := fun e => hr (e ▸ rfl)
      simp [Holds, this]
    | available => exact absurd rfl hr'
    | _ => rfl

theorem step (h : Owned n a) {x : Option Origin} (hs : Step a x b) : Owned n b := by
  cases hs with
  | lease k l rest idle top => exact h.lease idle top
  | clear k l x y held => exact h.restream (by simp [held])
  | refuse k l held => exact h.restream (by simp [held])
  | submit k l held => exact h.submit (by simp [held]) rfl
  | poll k o c live ready => exact h.take (by simp [live]) ready
  | cancel k o live => exact h.restream (by simp [live])
  | dropTake k o c dropping ready => exact h.take (by simp [dropping]) ready
  | dropEmpty k o dropping empty => exact h.restream (by simp [dropping])
  | receive i o rest idle front => exact h.receive idle front
  | demote i o live cancelled => exact h.retask (by simp [live])
  | publish i o live cancelled => exact h.publish live
  | releaseStream k l held => exact h.releaseStream (by simp [held])
  | releaseWorker i l held => exact h.releaseWorker held

/-- In an owned state a lane has at most one work item in flight. -/
theorem inFlight_eq (h : Owned n a) {c d : Origin} (hc : a.InFlight c) (hd : a.InFlight d)
    (hl : c.lane = d.lane) : c = d := by
  have hplace : ∀ e : Origin, a.InFlight e →
      (e ∈ a.channel ∧ a.Holds .channel e.lane) ∨
      (∃ i, a.worker i = .live e ∧ a.Holds (.worker i) e.lane) ∨
      (a.result e.lane = some e ∧ a.Holds .slot e.lane) := by
    rintro e (hm | ⟨i, hi⟩ | hs)
    · exact .inl ⟨hm, List.mem_map_of_mem hm⟩
    · exact .inr (.inl ⟨i, hi, by simp [Holds, hi]⟩)
    · exact .inr (.inr ⟨hs, by simp [Holds, hs]⟩)
  -- both items are at the one place of their common lane
  rcases hplace c hc with ⟨hm, hp⟩ | ⟨i, hi, hp⟩ | ⟨hs, hp⟩ <;>
    rcases hplace d hd with ⟨hm', hp'⟩ | ⟨i', hi', hp'⟩ | ⟨hs', hp'⟩ <;>
    rw [← hl] at hp' <;> have he := h.exclusive hp hp'
  · exact List.inj_on_of_nodup_map h.channel_nodup hm hm' hl
  all_goals cases he
  · rw [hi] at hi'
    exact Task.live.inj hi'
  · rw [← hl, hs] at hs'
    exact Option.some.inj hs'

theorem InFlight.place {c : Origin} (hc : a.InFlight c) :
    ∃ p, a.Holds p c.lane ∧ p ≠ .available ∧ ∀ k, p ≠ .stream k := by
  rcases hc with hm | ⟨i, hi⟩ | hs
  · exact ⟨.channel, List.mem_map_of_mem hm, by simp⟩
  · exact ⟨.worker i, by simp [Holds, hi], by simp⟩
  · exact ⟨.slot, by simp [Holds, hs], by simp⟩

theorem not_mem_available (h : Owned n a) {c : Origin} (hc : a.InFlight c) :
    c.lane ∉ a.available := by
  intro hm
  obtain ⟨p, hp, hne, -⟩ := InFlight.place hc
  exact hne (h.exclusive hp (q := .available) hm)

theorem stream_ne_lane (h : Owned n a) {c : Origin} (hc : a.InFlight c) {k l : ℕ} {x : Bool}
    (held : a.stream k = .lane l x) : c.lane ≠ l := by
  rintro rfl
  obtain ⟨p, hp, -, hne⟩ := InFlight.place hc
  exact hne k (h.exclusive hp (q := .stream k) (by simp [Holds, held]))

theorem inFlight_of_result (h : Owned n a) {l : ℕ} {c : Origin} (ready : a.result l = some c) :
    a.InFlight c :=
  .slot ((h.slot_lane l c ready).symm ▸ ready)

end Owned

end Lanes

end BasicWebserver.BrotliExecutor
