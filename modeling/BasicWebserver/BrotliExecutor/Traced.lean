import BasicWebserver.BrotliExecutor.Lanes

/-!
# Which completion a job finds

`Traced` ties a job to its submission: the work item of a live job is in flight, so by `Owned` no
other completion can be stored in its slot. A job whose drop has begun loses this when its lane is
leased again before the drop looks into the slot, because the worker may have released the lane
after reading `cancelled`. `Traced.step` therefore asks that such a job finds its slot empty or its
lane under the old lease, which the code does not ensure; `Traced.foreign` is the other case.
-/

namespace BasicWebserver.BrotliExecutor

namespace Lanes

/-- Stream `k` holds a job, live or being dropped. -/
def Job (a : Lanes) (k : ℕ) (o : Origin) : Prop := a.stream k = .live o ∨ a.stream k = .dropping o

/-- Submission numbers are used once. -/
structure Numbered (a : Lanes) : Prop where
  inFlight_fresh : ∀ c, a.InFlight c → c.submission < a.submissions
  job_fresh : ∀ k o, a.Job k o → o.submission < a.submissions
  job_unique : ∀ k k' o o', a.Job k o → a.Job k' o' → o.submission = o'.submission → k = k'
  job_origin : ∀ k o c, a.Job k o → a.InFlight c → c.submission = o.submission → c = o

/-- A live job's work item is in flight, and nothing but its own work item can be stored in its
slot. A job being dropped keeps this as long as its lane is not leased again. -/
structure Traced (a : Lanes) : Prop extends Numbered a where
  inFlight_lease : ∀ c, a.InFlight c → c.lease = a.lease c.lane
  job_lease : ∀ k o, a.Job k o → o.lease ≤ a.lease o.lane
  cleared : ∀ k l, a.stream k = .lane l true → a.cancelled l = false
  live : ∀ k o, a.stream k = .live o → a.InFlight o ∧ a.cancelled o.lane = false
  dropping : ∀ k o, a.stream k = .dropping o → o.lease = a.lease o.lane →
    (∀ c, a.InFlight c → c.lane = o.lane → c = o) ∧ ∀ k' x, a.stream k' ≠ .lane o.lane x
  taken : ∀ p ∈ a.taken, p.1 = p.2

theorem Numbered.mono {a b : Lanes} (h : Numbered a) (hin : ∀ c, b.InFlight c → a.InFlight c)
    (hjob : ∀ k o, b.Job k o → a.Job k o) (hsub : b.submissions = a.submissions) : Numbered b where
  inFlight_fresh c hc := hsub ▸ h.inFlight_fresh c (hin c hc)
  job_fresh k o hj := hsub ▸ h.job_fresh k o (hjob k o hj)
  job_unique k k' o o' hj hj' := h.job_unique k k' o o' (hjob k o hj) (hjob k' o' hj')
  job_origin k o c hj hc := h.job_origin k o c (hjob k o hj) (hin c hc)

theorem inFlight_congr {a b : Lanes} (hchannel : b.channel = a.channel)
    (hworker : b.worker = a.worker) (hresult : b.result = a.result) (c : Origin) :
    b.InFlight c ↔ a.InFlight c := by
  constructor <;> rintro (hm | ⟨i, hi⟩ | hs)
  · exact .channel (hchannel ▸ hm)
  · exact .worker i (hworker ▸ hi)
  · exact .slot (hresult ▸ hs)
  · exact .channel (hchannel ▸ hm)
  · exact .worker i (hworker ▸ hi)
  · exact .slot (hresult ▸ hs)

namespace Traced

variable {n : ℕ} {a b : Lanes}

/-- Steps that end no work item of a live job and add no work item, job or lane holder. -/
theorem frame (h : Traced a) (hin : ∀ c, b.InFlight c → a.InFlight c)
    (hlive : ∀ k o, b.stream k = .live o →
      a.stream k = .live o ∧ b.InFlight o ∧ b.cancelled o.lane = false)
    (hdrop : ∀ k o, b.stream k = .dropping o → a.stream k = .dropping o)
    (hlane : ∀ k l x, b.stream k = .lane l x → ∃ y, a.stream k = .lane l y)
    (hcleared : ∀ k l, b.stream k = .lane l true → b.cancelled l = false)
    (hlease : b.lease = a.lease) (hsub : b.submissions = a.submissions)
    (htaken : b.taken = a.taken) : Traced b := by
  have hjob : ∀ k o, b.Job k o → a.Job k o := fun k o hj =>
    hj.imp (fun hl => (hlive k o hl).1) (hdrop k o)
  refine ⟨h.toNumbered.mono hin hjob hsub, ?_, ?_, hcleared, fun k o hl => (hlive k o hl).2, ?_, ?_⟩
  · intro c hc
    exact hlease ▸ h.inFlight_lease c (hin c hc)
  · intro k o hj
    exact hlease ▸ h.job_lease k o (hjob k o hj)
  · intro k o hd he
    obtain ⟨hown, hfree⟩ := h.dropping k o (hdrop k o hd) (hlease ▸ he)
    refine ⟨fun c hc => hown c (hin c hc), fun k' x hk' => ?_⟩
    obtain ⟨y, hy⟩ := hlane k' _ x hk'
    exact hfree k' y hy
  · rw [htaken]; exact h.taken

theorem stream_of_update {f : ℕ → Holding} {k k' : ℕ} {x y : Holding}
    (h : Function.update f k x k' = y) (hne : x ≠ y) : k' ≠ k ∧ f k' = y := by
  by_cases hk : k' = k
  · subst hk
    exact absurd (by simpa using h) hne
  · exact ⟨hk, by simpa [hk] using h⟩

theorem lease (h : Traced a) (ho : Owned n a) {k l : ℕ} {rest : List ℕ}
    (top : a.available = l :: rest) :
    Traced { a with
      available := rest
      stream := Function.update a.stream k (.lane l false)
      lease := Function.update a.lease l (a.lease l + 1) } := by
  set b : Lanes := { a with
    available := rest
    stream := Function.update a.stream k (.lane l false)
    lease := Function.update a.lease l (a.lease l + 1) } with hb
  have hin : ∀ c, b.InFlight c ↔ a.InFlight c := inFlight_congr rfl rfl rfl
  have hjob : ∀ k' o, b.Job k' o → a.Job k' o := fun k' o hj =>
    hj.imp (fun hl => (stream_of_update hl (by simp)).2)
      (fun hd => (stream_of_update hd (by simp)).2)
  have hlease : ∀ j, j ≠ l → b.lease j = a.lease j := fun j hj => by simp [hb, hj]
  have hlease' : b.lease l = a.lease l + 1 := by simp [hb]
  refine ⟨h.toNumbered.mono (fun c => (hin c).mp) hjob rfl, ?_, ?_, ?_, ?_, ?_, h.taken⟩
  · intro c hc
    rw [hin] at hc
    -- the leased lane was in the pool, so no work item in flight is on it
    have hne : c.lane ≠ l := fun e => ho.not_mem_available hc (by simp [top, e])
    rw [hlease _ hne]
    exact h.inFlight_lease c hc
  · intro k' o hj
    have hle := h.job_lease k' o (hjob k' o hj)
    by_cases hl : o.lane = l
    · rw [hl] at hle ⊢
      omega
    · rw [hlease _ hl]
      exact hle
  · intro k' j hk'
    exact h.cleared k' j (stream_of_update hk' (by simp)).2
  · intro k' o hk'
    obtain ⟨hf, hcan⟩ := h.live k' o (stream_of_update hk' (by simp)).2
    exact ⟨(hin o).mpr hf, hcan⟩
  · intro k' o hk' he
    have hd := (stream_of_update hk' (by simp)).2
    have hjl := h.job_lease k' o (.inr hd)
    have hne : o.lane ≠ l := by
      intro hl
      rw [hl] at hjl he
      omega
    rw [hlease _ hne] at he
    obtain ⟨hown, hfree⟩ := h.dropping k' o hd he
    refine ⟨fun c hc => hown c ((hin c).mp hc), fun k'' x hk'' => ?_⟩
    refine hfree k'' x (stream_of_update hk'' fun e => ?_).2
    injection e with e
    exact hne e.symm

theorem submit (h : Traced a) {k l : ℕ} (held : a.stream k = .lane l true)
    {o : Origin} (hl : o.lane = l) (hle : o.lease = a.lease l) (hs : o.submission = a.submissions) :
    Traced { a with
      channel := a.channel ++ [o]
      stream := Function.update a.stream k (.live o)
      submissions := a.submissions + 1 } := by
  set b : Lanes := { a with
    channel := a.channel ++ [o]
    stream := Function.update a.stream k (.live o)
    submissions := a.submissions + 1 } with hb
  have hin : ∀ c, b.InFlight c ↔ a.InFlight c ∨ c = o := by
    intro c
    constructor
    · rintro (hm | ⟨i, hi⟩ | hs)
      · rcases List.mem_append.mp hm with hm | hm
        · exact .inl (.channel hm)
        · exact .inr (by simpa using hm)
      · exact .inl (.worker i hi)
      · exact .inl (.slot hs)
    · rintro ((hm | ⟨i, hi⟩ | hs) | rfl)
      · exact .channel (List.mem_append_left _ hm)
      · exact .worker i hi
      · exact .slot hs
      · exact .channel (by simp [hb])
  have hjob : ∀ k' o', b.Job k' o' → (k' ≠ k ∧ a.Job k' o') ∨ (k' = k ∧ o' = o) := by
    intro k' o' hj
    by_cases hk : k' = k
    · subst hk
      refine .inr ⟨rfl, ?_⟩
      rcases hj with hj | hj
      · simpa [hb, eq_comm] using hj
      · simp [hb] at hj
    · exact .inl ⟨hk, by simpa [Job, hb, hk] using hj⟩
  -- the new submission number is not in use
  have hnum : Numbered b := by
    refine ⟨?_, ?_, ?_, ?_⟩
    · intro c hc
      rcases (hin c).mp hc with hc | rfl
      · exact Nat.lt_succ_of_lt (h.inFlight_fresh c hc)
      · exact hs ▸ Nat.lt_succ_self _
    · intro k' o' hj
      rcases hjob k' o' hj with ⟨-, hj⟩ | ⟨-, rfl⟩
      · exact Nat.lt_succ_of_lt (h.job_fresh k' o' hj)
      · exact hs ▸ Nat.lt_succ_self _
    · intro k₁ k₂ o₁ o₂ hj₁ hj₂ he
      rcases hjob k₁ o₁ hj₁ with ⟨-, h₁⟩ | ⟨h₁, ho₁⟩ <;>
        rcases hjob k₂ o₂ hj₂ with ⟨-, h₂⟩ | ⟨h₂, ho₂⟩
      · exact h.job_unique k₁ k₂ o₁ o₂ h₁ h₂ he
      · have := h.job_fresh k₁ o₁ h₁
        rw [ho₂] at he
        omega
      · have := h.job_fresh k₂ o₂ h₂
        rw [ho₁] at he
        omega
      · rw [h₁, h₂]
    · intro k' o' c hj hc he
      rcases hjob k' o' hj with ⟨-, hj'⟩ | ⟨-, ho'⟩ <;> rcases (hin c).mp hc with hc' | hc'
      · exact h.job_origin k' o' c hj' hc' he
      · have := h.job_fresh k' o' hj'
        rw [hc'] at he
        omega
      · have := h.inFlight_fresh c hc'
        rw [ho'] at he
        omega
      · rw [hc', ho']
  refine ⟨hnum, ?_, ?_, ?_, ?_, ?_, h.taken⟩
  · intro c hc
    rcases (hin c).mp hc with hc | rfl
    · exact h.inFlight_lease c hc
    · rw [hle, ← hl]
  · intro k' o' hj
    rcases hjob k' o' hj with ⟨-, hj⟩ | ⟨-, rfl⟩
    · exact h.job_lease k' o' hj
    · exact Nat.le_of_eq (hle.trans (congrArg a.lease hl.symm))
  · intro k' j hk'
    exact h.cleared k' j (stream_of_update hk' (by simp)).2
  · intro k' o' hk'
    rcases hjob k' o' (.inl hk') with ⟨hk, -⟩ | ⟨-, rfl⟩
    · obtain ⟨hf, hcan⟩ := h.live k' o' (by simpa [hb, hk] using hk')
      exact ⟨(hin o').mpr (.inl hf), hcan⟩
    · exact ⟨(hin o').mpr (.inr rfl), hl ▸ h.cleared k l held⟩
  · intro k' o' hk' he
    obtain ⟨hown, hlane⟩ := h.dropping k' o' (stream_of_update hk' (by simp)).2 he
    refine ⟨fun c hc hcl => ?_, fun k'' x hk'' => hlane k'' x (stream_of_update hk'' (by simp)).2⟩
    rcases (hin c).mp hc with hc | rfl
    · exact hown c hc hcl
    · rw [← hl, hcl] at held
      exact absurd held (hlane k true)

theorem take (h : Traced a) (ho : Owned n a) {k : ℕ} {o : Origin} (hj : a.Job k o)
    (ready : a.result o.lane = some o) :
    Traced { a with
      result := Function.update a.result o.lane none
      stream := Function.update a.stream k (.lane o.lane false)
      taken := a.taken ++ [(o.submission, o.submission)] } := by
  set b : Lanes := { a with
    result := Function.update a.result o.lane none
    stream := Function.update a.stream k (.lane o.lane false)
    taken := a.taken ++ [(o.submission, o.submission)] } with hb
  have hfo : a.InFlight o := .slot ready
  have hin : ∀ c, b.InFlight c → a.InFlight c := by
    rintro c (hm | ⟨i, hi⟩ | hs)
    · exact .channel hm
    · exact .worker i hi
    · by_cases hc : c.lane = o.lane
      · simp [hb, hc] at hs
      · exact .slot (by simpa [hb, hc] using hs)
  have hout : ∀ c, a.InFlight c → c.lane ≠ o.lane → b.InFlight c := by
    rintro c (hm | ⟨i, hi⟩ | hs) hc
    · exact .channel hm
    · exact .worker i hi
    · exact .slot (by simpa [hb, hc] using hs)
  have hjob : ∀ k' o', b.Job k' o' → a.Job k' o' := fun k' o' hj =>
    hj.imp (fun hl => (stream_of_update hl (by simp)).2)
      (fun hd => (stream_of_update hd (by simp)).2)
  refine ⟨h.toNumbered.mono hin hjob rfl, fun c hc => h.inFlight_lease c (hin c hc),
    fun k' o' hj' => h.job_lease k' o' (hjob k' o' hj'), ?_, ?_, ?_, ?_⟩
  · intro k' j hk'
    exact h.cleared k' j (stream_of_update hk' (by simp)).2
  · intro k' o' hk'
    obtain ⟨hk, hl⟩ := stream_of_update hk' (by simp)
    obtain ⟨hf, hcan⟩ := h.live k' o' hl
    refine ⟨hout o' hf fun he => hk ?_, hcan⟩
    obtain rfl := ho.inFlight_eq hf hfo he
    exact h.job_unique k' k _ _ (.inl hl) hj rfl
  · intro k' o' hk' he
    obtain ⟨hk, hd⟩ := stream_of_update hk' (by simp)
    obtain ⟨hown, hlane⟩ := h.dropping k' o' hd he
    refine ⟨fun c hc => hown c (hin c hc), fun k'' x hk'' => ?_⟩
    refine hlane k'' x (stream_of_update hk'' ?_).2
    -- otherwise the completion taken was that of the other job
    intro e
    injection e with e
    obtain rfl := hown o hfo e
    exact hk (h.job_unique k' k _ _ (.inr hd) hj rfl)
  · intro p hp
    rcases List.mem_append.mp hp with hp | hp
    · exact h.taken p hp
    · rw [List.mem_singleton.mp hp]

/-- The first store of a drop: the job is in flight, so its lane is with no stream and its slot can
get no other completion. -/
theorem cancel (h : Traced a) (ho : Owned n a) {k : ℕ} {o : Origin} (live : a.stream k = .live o) :
    Traced { a with
      cancelled := Function.update a.cancelled o.lane true
      stream := Function.update a.stream k (.dropping o) } := by
  set b : Lanes := { a with
    cancelled := Function.update a.cancelled o.lane true
    stream := Function.update a.stream k (.dropping o) } with hb
  have hfo := (h.live k o live).1
  have hin : ∀ c, b.InFlight c ↔ a.InFlight c := inFlight_congr rfl rfl rfl
  have hjob : ∀ k' o', b.Job k' o' → a.Job k' o' := by
    intro k' o' hj
    by_cases hk : k' = k
    · subst hk
      rcases hj with hj | hj
      · simp [hb] at hj
      · obtain rfl : o = o' := by simpa [hb] using hj
        exact .inl live
    · simpa [Job, hb, hk] using hj
  refine ⟨h.toNumbered.mono (fun c => (hin c).mp) hjob rfl,
    fun c hc => h.inFlight_lease c ((hin c).mp hc),
    fun k' o' hj => h.job_lease k' o' (hjob k' o' hj), ?_, ?_, ?_, h.taken⟩
  · intro k' j hk'
    have hl := (stream_of_update hk' (by simp)).2
    have hne : j ≠ o.lane := (ho.stream_ne_lane hfo hl).symm
    simpa [hb, hne] using h.cleared k' j hl
  · intro k' o' hk'
    obtain ⟨hk, hl⟩ := stream_of_update hk' (by simp)
    obtain ⟨hf, hcan⟩ := h.live k' o' hl
    have hne : o'.lane ≠ o.lane := by
      intro he
      obtain rfl := ho.inFlight_eq hf hfo he
      exact hk (h.job_unique k' k _ _ (.inl hl) (.inl live) rfl)
    exact ⟨(hin o').mpr hf, by simpa [hb, hne] using hcan⟩
  · intro k' o' hk' he
    by_cases hk : k' = k
    · subst hk
      obtain rfl : o = o' := by simpa [hb] using hk'
      refine ⟨fun c hc hl => ho.inFlight_eq ((hin c).mp hc) hfo hl, fun k'' x hk'' => ?_⟩
      exact ho.stream_ne_lane hfo (stream_of_update hk'' (by simp)).2 rfl
    · obtain ⟨hown, hlane⟩ := h.dropping k' o' (by simpa [hb, hk] using hk') he
      exact ⟨fun c hc => hown c ((hin c).mp hc),
        fun k'' x hk'' => hlane k'' x (stream_of_update hk'' (by simp)).2⟩

theorem clear (h : Traced a) {k l : ℕ} {x y : Bool} (held : a.stream k = .lane l x) :
    Traced { a with
      cancelled := Function.update a.cancelled l false
      stream := Function.update a.stream k (.lane l y) } := by
  have hcan : ∀ j, a.cancelled j = false → Function.update a.cancelled l false j = false := by
    intro j hj
    by_cases hl : j = l
    · subst hl; simp
    · simpa [hl] using hj
  refine h.frame (fun c hc => (inFlight_congr (by rfl) (by rfl) (by rfl) c).mp hc) ?_ ?_ ?_ ?_
    rfl rfl rfl
  · intro k' o hk'
    have hl := (stream_of_update hk' (by simp)).2
    obtain ⟨hf, hc⟩ := h.live k' o hl
    exact ⟨hl, (inFlight_congr (by rfl) (by rfl) (by rfl) o).mpr hf, hcan _ hc⟩
  · intro k' o hk'
    exact (stream_of_update hk' (by simp)).2
  · intro k' j z hk'
    by_cases hk : k' = k
    · subst hk
      simp only [Function.update_self, Holding.lane.injEq] at hk'
      exact ⟨x, hk'.1 ▸ held⟩
    · exact ⟨z, by simpa [hk] using hk'⟩
  · intro k' j hk'
    by_cases hk : k' = k
    · subst hk
      simp only [Function.update_self, Holding.lane.injEq] at hk'
      simp [hk'.1]
    · exact hcan j (h.cleared k' j (by simpa [hk] using hk'))

theorem restream (h : Traced a) {k : ℕ} {x : Holding} {available : List ℕ}
    (hx : x = .nothing ∨ ∃ l y, x = .lane l false ∧ a.stream k = .lane l y) :
    Traced { a with
      available := available
      stream := Function.update a.stream k x } := by
  have hlive : ∀ o, x ≠ .live o := by rintro o rfl; simp at hx
  have hdrop : ∀ o, x ≠ .dropping o := by rintro o rfl; simp at hx
  have hclear : ∀ l, x ≠ .lane l true := by rintro l rfl; simp at hx
  refine h.frame (fun c hc => (inFlight_congr (by rfl) (by rfl) (by rfl) c).mp hc) ?_ ?_ ?_ ?_
    rfl rfl rfl
  · intro k' o hk'
    have hl := (stream_of_update hk' (hlive o)).2
    obtain ⟨hf, hc⟩ := h.live k' o hl
    exact ⟨hl, (inFlight_congr (by rfl) (by rfl) (by rfl) o).mpr hf, hc⟩
  · intro k' o hk'
    exact (stream_of_update hk' (hdrop o)).2
  · intro k' j z hk'
    by_cases hk : k' = k
    · subst hk
      simp only [Function.update_self] at hk'
      subst hk'
      rcases hx with hx | ⟨l, y, hx, hk⟩
      · simp at hx
      · injection hx with hl
        exact ⟨y, hl ▸ hk⟩
    · exact ⟨z, by simpa [hk] using hk'⟩
  · intro k' j hk'
    exact h.cleared k' j (stream_of_update hk' (hclear j)).2

/-- Steps of a worker: they move work items between the channel, the workers and the slots, and
drop only those whose lane is cancelled. -/
theorem ofWorker (h : Traced a) {available : List ℕ} {channel : List Origin}
    {result : ℕ → Option Origin} {worker : ℕ → Task}
    (hin : ∀ c, Lanes.InFlight { a with available, channel, result, worker } c → a.InFlight c)
    (hout : ∀ c, a.InFlight c → a.cancelled c.lane = false →
      Lanes.InFlight { a with available, channel, result, worker } c) :
    Traced { a with available, channel, result, worker } := by
  refine h.frame hin ?_ (fun _ _ hk => hk) (fun k l x hk => ⟨x, hk⟩) h.cleared rfl rfl rfl
  intro k o hk
  obtain ⟨hf, hc⟩ := h.live k o hk
  exact ⟨hk, hout o hf hc, hc⟩

theorem receive (h : Traced a) {i : ℕ} {o : Origin} {rest : List Origin}
    (idle : a.worker i = .nothing) (front : a.channel = o :: rest) :
    Traced { a with channel := rest, worker := Function.update a.worker i (.live o) } := by
  refine h.ofWorker ?_ ?_
  · rintro c (hm | ⟨i', hi'⟩ | hs)
    · exact .channel (by rw [front]; exact List.mem_cons_of_mem _ hm)
    · by_cases hi : i' = i
      · subst hi
        obtain rfl : o = c := by simpa using hi'
        exact .channel (by simp [front])
      · exact .worker i' (by simpa [hi] using hi')
    · exact .slot hs
  · rintro c (hm | ⟨i', hi'⟩ | hs) -
    · rw [front] at hm
      rcases List.mem_cons.mp hm with rfl | hm
      · exact .worker i (by simp)
      · exact .channel hm
    · have hi : i' ≠ i := by
        rintro rfl
        simp [idle] at hi'
      exact .worker i' (by simpa [hi] using hi')
    · exact .slot hs

theorem retask (h : Traced a) {i : ℕ} {x : Task} {available : List ℕ} (hx : ∀ c, x ≠ .live c)
    (hcan : ∀ c, a.worker i = .live c → a.cancelled c.lane = true) :
    Traced { a with available, worker := Function.update a.worker i x } := by
  refine h.ofWorker ?_ ?_
  · rintro c (hm | ⟨i', hi'⟩ | hs)
    · exact .channel hm
    · by_cases hi : i' = i
      · subst hi
        exact absurd (by simpa using hi') (hx c)
      · exact .worker i' (by simpa [hi] using hi')
    · exact .slot hs
  · rintro c (hm | ⟨i', hi'⟩ | hs) hc
    · exact .channel hm
    · have hi : i' ≠ i := by
        rintro rfl
        simp [hcan c hi'] at hc
      exact .worker i' (by simpa [hi] using hi')
    · exact .slot hs

theorem publish (h : Traced a) (ho : Owned n a) {i : ℕ} {o : Origin}
    (live : a.worker i = .live o) :
    Traced { a with
      result := Function.update a.result o.lane (some o)
      worker := Function.update a.worker i .nothing } := by
  refine h.ofWorker ?_ ?_
  · rintro c (hm | ⟨i', hi'⟩ | hs)
    · exact .channel hm
    · by_cases hi : i' = i
      · subst hi
        simp at hi'
      · exact .worker i' (by simpa [hi] using hi')
    · by_cases hl : c.lane = o.lane
      · obtain rfl : o = c := by simpa [hl] using hs
        exact .worker i live
      · exact .slot (by simpa [hl] using hs)
  · intro c hc _
    by_cases hl : c.lane = o.lane
    · obtain rfl := ho.inFlight_eq hc (.worker i live) hl
      exact .slot (by simp)
    · rcases hc with hm | ⟨i', hi'⟩ | hs
      · exact .channel hm
      · have hi : i' ≠ i := by
          rintro rfl
          rw [live] at hi'
          exact hl (by rw [Task.live.inj hi'])
        exact .worker i' (by simpa [hi] using hi')
      · exact .slot (by simpa [hl] using hs)

/-- The condition under which `Traced` is kept: a job being dropped finds its slot empty or its lane
not leased again. -/
theorem step (h : Traced a) (ho : Owned n a) {x : Option Origin} (hs : Step a x b)
    (hx : ∀ o, x = some o → a.result o.lane = none ∨ a.lease o.lane = o.lease) : Traced b := by
  cases hs with
  | lease k l rest idle top => exact h.lease ho top
  | clear k l x y held => exact h.clear held
  | refuse k l held => exact h.restream (.inr ⟨l, true, rfl, held⟩)
  | submit k l held => exact h.submit held rfl rfl rfl
  | poll k o c live ready =>
    obtain rfl := ho.inFlight_eq (ho.inFlight_of_result ready) (h.live k o live).1
      (ho.slot_lane _ _ ready)
    exact h.take ho (.inl live) ready
  | cancel k o live => exact h.cancel ho live
  | dropTake k o c dropping ready =>
    have hlease := (hx o rfl).resolve_left (by simp [ready])
    obtain rfl := (h.dropping k o dropping hlease.symm).1 c (ho.inFlight_of_result ready)
      (ho.slot_lane _ _ ready)
    exact h.take ho (.inr dropping) ready
  | dropEmpty k o dropping empty => exact h.restream (.inl rfl)
  | receive i o rest idle front => exact h.receive idle front
  | demote i o live cancelled =>
    refine h.retask (by simp) fun c hc => ?_
    rw [live] at hc
    exact Task.live.inj hc ▸ cancelled
  | publish i o live cancelled => exact h.publish ho live
  | releaseStream k l held => exact h.restream (.inl rfl)
  | releaseWorker i l held => exact h.retask (by simp) (by simp [held])

/-- Outside that condition the job takes the completion of another submission. -/
theorem foreign (h : Traced a) (ho : Owned n a) {o : Origin} (hs : Step a (some o) b)
    (hready : a.result o.lane ≠ none) (hlease : a.lease o.lane ≠ o.lease) :
    ∃ p ∈ b.taken, p.1 ≠ p.2 := by
  cases hs with
  | dropTake k _ c dropping ready =>
    refine ⟨(o.submission, c.submission), by simp, fun he => hlease ?_⟩
    have hc := ho.inFlight_of_result ready
    obtain rfl := h.job_origin k o c (.inr dropping) hc he.symm
    exact (h.inFlight_lease c hc).symm
  | dropEmpty k _ dropping empty => exact absurd empty hready

end Traced

theorem Step.taken_mono {a b : Lanes} {x : Option Origin} (hs : Step a x b) :
    ∀ p ∈ a.taken, p ∈ b.taken := by
  intro p hp
  cases hs with
  | poll k o c live ready => exact List.mem_append_left _ hp
  | dropTake k o c dropping ready => exact List.mem_append_left _ hp
  | _ => exact hp

end Lanes

end BasicWebserver.BrotliExecutor
