import BasicWebserver.RocAlloc.Replacement

/-!
# Runs of the allocator

Over any sequence of calls by a client that passes its own pointers with their alignments: the
blocks stay apart with their headers intact, so that no check of a header fails, and the counters
and finalizers are those of the host-owned allocations. The one gap is a reallocation, which hands
its size to the system allocator without the check that an allocation makes.
-/

namespace BasicWebserver.RocAlloc

open ByteMemory Transition Bag

variable {debug : Bool} {s t : System} {l l' : Live} {live rest : List Live} {p q : Process}

/-! ## Allocations next to each other -/

/-- The live allocations are in blocks of their own, as the calls left them. -/
structure Laid (debug : Bool) (s : System) (live : List Live) : Prop where
  blocks : s.blocks.Perm (live.map (Live.block debug))
  apart : (live.map (Live.block debug)).Pairwise Block.Apart
  shaped : ∀ l ∈ live, l.Shaped debug
  stored : ∀ l ∈ live, l.Stored debug s
  entries : debug → ∀ ptr, s.debugAllocations ptr ≠ none → ∃ l ∈ live, ptr = l.ptr
  active : ∀ kind, s.active kind = (live.map fun l => tally l.kind kind).sum

theorem Live.Shaped.ptr_ne (h : l.Shaped debug) (h' : l'.Shaped debug)
    (hapart : (l.block debug).Apart (l'.block debug)) : l.ptr ≠ l'.ptr := by
  -- both blocks have the byte before the pointer
  obtain ⟨hlow, hheader, htail⟩ := h.parts
  obtain ⟨hlow', hheader', htail'⟩ := h'.parts
  unfold Block.Apart Live.block at hapart
  dsimp only at hapart
  unfold headerSize at *
  omega

theorem Live.Stored.of_kept (hl : l.Shaped debug) (h : l.Stored debug s)
    (hkept : ∀ a, (l.block debug).Contains a → t.memory a = s.memory a)
    (hentry : debug → t.debugAllocations l.ptr = s.debugAllocations l.ptr) : l.Stored debug t := by
  obtain ⟨hlow, hheader, htail⟩ := hl.parts
  refine ⟨?_, fun hdebug => ?_, fun hdebug => (hentry hdebug).trans (h.recorded hdebug)⟩
  · rw [← h.header]
    refine AllocationHeader.read_of_bytes fun i hi => hkept _ ⟨?_, ?_⟩
    · show l.base ≤ _
      omega
    · show _ < l.base + l.total debug
      omega
  · subst hdebug
    have htailBytes : tailBytes true = 8 := rfl
    rw [← h.tail rfl]
    refine read_of_bytes fun i hi => hkept _ ⟨?_, ?_⟩
    · show l.base ≤ _
      omega
    · show _ < l.base + l.total true
      omega

namespace Laid

theorem apart_of_perm (h : Laid debug s live) (hperm : live.Perm (l :: rest)) :
    (∀ b ∈ rest.map (Live.block debug), (l.block debug).Apart b) ∧
      (rest.map (Live.block debug)).Pairwise Block.Apart := by
  have hpairwise := ((hperm.map (Live.block debug)).pairwise_iff Block.Apart.symm).mp h.apart
  exact List.pairwise_cons.mp hpairwise

theorem erase_perm (h : Laid debug s live) (hperm : live.Perm (l :: rest)) :
    (s.blocks.erase (l.block debug)).Perm (rest.map (Live.block debug)) := by
  have hblocks := (h.blocks.trans (hperm.map (Live.block debug))).erase (l.block debug)
  rwa [List.map_cons, List.erase_cons_head] at hblocks

theorem replace {old new : Option Live} {others : List Block} (h : Laid debug s live)
    (hperm : live.Perm (old.toList ++ rest)) (hothers : others.Perm (rest.map (Live.block debug)))
    (hr : Replaces debug old new others s t) : Laid debug t (new.toList ++ rest) := by
  have hmem : ∀ {l}, l ∈ rest → l ∈ live := fun hl => hperm.symm.subset (List.mem_append_right _ hl)
  have hother : ∀ {l}, l ∈ rest → l.block debug ∈ others := fun hl =>
    hothers.symm.subset (List.mem_map_of_mem hl)
  have happend := ((hperm.map (Live.block debug)).pairwise_iff Block.Apart.symm).mp h.apart
  rw [List.map_append, List.pairwise_append] at happend
  obtain ⟨-, hrest, hold⟩ := happend
  have hne : ∀ {l}, l ∈ rest → (∀ o ∈ old, l.ptr ≠ o.ptr) ∧ ∀ n ∈ new, l.ptr ≠ n.ptr := by
    intro l hl
    refine ⟨fun o ho => ?_, fun n hn => ?_⟩
    · have ho' : o ∈ old.toList := Option.mem_toList.mpr ho
      have holive : o ∈ live := hperm.symm.subset (List.mem_append_left _ ho')
      exact ((h.shaped o holive).ptr_ne (h.shaped l (hmem hl))
        (hold _ (List.mem_map_of_mem ho') _ (List.mem_map_of_mem hl))).symm
    · exact ((hr.shaped n hn).ptr_ne (h.shaped l (hmem hl)) (hr.apart n hn _ (hother hl))).symm
  refine ⟨?_, ?_, ?_, ?_, ?_, ?_⟩
  · rw [List.map_append]
    exact hr.after.trans (hothers.append_left _)
  · rw [List.map_append, List.pairwise_append]
    refine ⟨?_, hrest, ?_⟩
    · cases new with
      | none => exact .nil
      | some n => exact List.pairwise_singleton _ _
    · intro b hb c hc
      obtain ⟨n, hn, rfl⟩ := List.mem_map.mp hb
      exact hr.apart n (Option.mem_toList.mp hn) c (hothers.symm.subset hc)
  · intro l hl
    rcases List.mem_append.mp hl with hl | hl
    · exact hr.shaped l (Option.mem_toList.mp hl)
    · exact h.shaped l (hmem hl)
  · intro l hl
    rcases List.mem_append.mp hl with hl | hl
    · exact hr.stored l (Option.mem_toList.mp hl)
    · refine (h.stored l (hmem hl)).of_kept (h.shaped l (hmem hl)) (hr.kept _ (hother hl)) ?_
      intro hdebug
      rw [hr.entries hdebug l.ptr (hne hl).2, if_neg]
      rintro ⟨o, ho, he⟩
      exact (hne hl).1 o ho he
  · intro hdebug ptr hptr
    by_cases hn : ∃ n ∈ new, ptr = n.ptr
    · obtain ⟨n, hn, he⟩ := hn
      exact ⟨n, List.mem_append_left _ (Option.mem_toList.mpr hn), he⟩
    · rw [hr.entries hdebug ptr fun n hmem he => hn ⟨n, hmem, he⟩] at hptr
      split_ifs at hptr with ho
      · exact absurd rfl hptr
      · obtain ⟨l, hl, he⟩ := h.entries hdebug ptr hptr
        rcases List.mem_append.mp (hperm.subset hl) with hl | hl
        · exact absurd ⟨l, Option.mem_toList.mp hl, he⟩ ho
        · exact ⟨l, List.mem_append_right _ hl, he⟩
  · intro kind
    have hsum := hr.active kind
    have hlive := h.active kind
    rw [(hperm.map fun l => tally l.kind kind).sum_nat, List.map_append, List.sum_append] at hlive
    have htoList : ∀ o : Option Live, (o.toList.map fun l => tally l.kind kind).sum =
        o.elim 0 fun l => tally l.kind kind := fun o => by cases o <;> rfl
    rw [htoList] at hlive
    rw [List.map_append, List.sum_append, htoList]
    omega

theorem registrable (h : Laid debug s live) : Registrable debug s.blocks s.debugAllocations := by
  intro hdebug n hn hapart
  by_contra hsome
  obtain ⟨l, hl, he⟩ := h.entries hdebug n.ptr hsome
  refine hn.ptr_ne (h.shaped l hl) (hapart _ ?_) he
  exact h.blocks.symm.subset (List.mem_map_of_mem hl)

theorem registrable_removed (h : Laid debug s live) (hperm : live.Perm (l :: rest)) :
    Registrable debug (s.blocks.erase (l.block debug)) (removed debug s l.ptr).debugAllocations := by
  intro hdebug n hn hapart
  rw [removed_entries hdebug l]
  split_ifs with hold
  · rfl
  · by_contra hsome
    obtain ⟨l', hl', he⟩ := h.entries hdebug n.ptr hsome
    rcases List.mem_cons.mp (hperm.subset hl') with rfl | hrest
    · exact hold ⟨l', rfl, he⟩
    · refine hn.ptr_ne (h.shaped l' hl') (hapart _ ?_) he
      exact (h.erase_perm hperm).symm.subset (List.mem_map_of_mem hrest)

theorem active_ne_zero (h : Laid debug s live) (hperm : live.Perm (l :: rest))
    (hkind : l.kind ≠ .ordinary) : s.active l.kind ≠ 0 := by
  have hone : tally l.kind l.kind = 1 := if_pos ⟨rfl, hkind⟩
  rw [h.active l.kind, (hperm.map fun l' => tally l'.kind l.kind).sum_nat, List.map_cons,
    List.sum_cons, hone]
  omega

theorem write (h : Laid debug s live) (hperm : live.Perm (l :: rest)) {offset : ℕ}
    (hoffset : offset < l.length) (byte : UInt8) :
    Laid debug { s with memory := Function.update s.memory (l.ptr + offset) byte } live := by
  have hl := hperm.symm.subset List.mem_cons_self
  obtain ⟨hlow, hheader, htail⟩ := (h.shaped l hl).parts
  refine ⟨h.blocks, h.apart, h.shaped, fun l' hl' => ?_, h.entries, fun kind => ?_⟩
  · have hstored := h.stored l' hl'
    rcases List.mem_cons.mp (hperm.subset hl') with rfl | hrest
    · refine ⟨?_, fun hdebug => ?_, hstored.recorded⟩
      · rw [← hstored.header]
        exact AllocationHeader.read_of_bytes fun i hi => Function.update_of_ne (by omega) _ _
      · rw [← hstored.tail hdebug]
        exact read_of_bytes fun i hi => Function.update_of_ne (by omega) _ _
    · refine hstored.of_kept (h.shaped l' hl') (fun a ha => ?_) fun _ => rfl
      have hout : a < l.base ∨ l.base + l.total debug ≤ a :=
        ((h.apart_of_perm hperm).1 _ (List.mem_map_of_mem hrest)).outside ha
      exact Function.update_of_ne (by omega) _ _
  · rw [← h.active kind]
    exact congrFun (active_congr rfl rfl) kind

end Laid

/-! ## Processes -/

/-- What holds between the calls of a running process. -/
structure Sound (debug : Bool) (p : Process) : Prop where
  laid : Laid debug p.system p.live
  sizes : ∀ call ∈ p.system.sizes, LayoutFits call.1 call.2
  finalized : p.system.finalized = p.released.filterMap Live.finalizerCall
  made : p.made.Perm (p.live.filter (·.kind ≠ .ordinary) ++ p.released)

theorem perm_of_takeAt {j : ℕ} (h : takeAt live j = some (l, rest)) : live.Perm (l :: rest) :=
  Multiset.coe_eq_coe.mp (coe_of_takeAt h)

/-- A reallocation is of an allocation of Roc's own, and its size overflows or fits. -/
def ReallocFits (debug : Bool) (p : Process) (a : Action) : Prop :=
  ∀ j length answer l rest, a = .realloc j length answer → takeAt p.live j = some (l, rest) →
    l.kind = .ordinary ∧ ((l.resized length).total debug < 2 ^ 64 →
      LayoutFits ((l.resized length).total debug) (blockAlign l.alignment))

/-- The size of the call is too large: for a reallocation, larger than a word. -/
def TooLarge (debug : Bool) (p : Process) : Action → Prop
  | .alloc length alignment _ | .allocHostOwned length alignment _ _ _ =>
    ¬ LayoutFits (totalBytes debug length alignment) (blockAlign alignment)
  | .realloc j length _ => ∃ l rest, takeAt p.live j = some (l, rest) ∧
    ¬ (l.resized length).total debug < 2 ^ 64
  | _ => False

/-- The system allocator had no memory for the call. -/
def Action.Exhausted : Action → Prop
  | .alloc _ _ answer | .allocHostOwned _ _ _ _ answer | .realloc _ _ answer => answer.base = none
  | _ => False

/-- Why a call may abort. -/
inductive Cause (debug : Bool) (p : Process) (a : Action) (message : String) : Prop
  | size (hmessage : message ∈ sizeMessages) (hsize : TooLarge debug p a)
  | memory (hmessage : message = outOfMemory) (hnull : a.Exhausted)

theorem Cause.mem {a : Action} {message : String} (h : Cause debug p a message) :
    message ∈ outOfMemory :: sizeMessages := by
  cases h with
  | size hmessage => exact List.mem_cons_of_mem _ hmessage
  | memory hmessage => exact hmessage ▸ List.mem_cons_self

/-- Where a call leads from a sound process. -/
inductive Leads (debug : Bool) (p : Process) (a : Action) : Process → Prop
  | running (q : Process) (hfits : ReallocFits debug p a) (hsound : Sound debug q)
      (hstatus : q.status = p.status) : Leads debug p a q
  | aborted (q : Process) (hfits : ReallocFits debug p a) (message : String)
      (hcause : Cause debug p a message) (hstatus : q.status = .aborted message)
      (hsizes : ∀ call ∈ q.system.sizes, LayoutFits call.1 call.2) : Leads debug p a q
  | immutable (q : Process) (hfits : ¬ ReallocFits debug p a)
      (hstatus : q.status = .aborted immutableBacking) : Leads debug p a q
  | undefined (q : Process) (hfits : ¬ ReallocFits debug p a) (hstatus : q.status = .undefined)
      (hsizes : ∃ call ∈ q.system.sizes, ¬ LayoutFits call.1 call.2) : Leads debug p a q

theorem fits_append {sizes : List (ℕ × ℕ)} {size align : ℕ}
    (h : ∀ call ∈ sizes, LayoutFits call.1 call.2) (hfits : LayoutFits size align) :
    ∀ call ∈ sizes ++ [(size, align)], LayoutFits call.1 call.2 := by
  intro call hcall
  rcases List.mem_append.mp hcall with hcall | hcall
  · exact h call hcall
  · obtain rfl := List.mem_singleton.mp hcall
    exact hfits

/-- The process with one more allocation. -/
def Process.holding (p : Process) (l : Live) (system : System) : Process :=
  { p with
    system
    live := l :: p.live
    made := if l.kind = .ordinary then p.made else l :: p.made }

theorem leads_allocate {a : Action} {answer : Answer} (h : Sound debug p)
    (hfits : ReallocFits debug p a)
    (hlarge : ¬ LayoutFits (l.total debug) (blockAlign l.alignment) → TooLarge debug p a)
    (hnull : answer.base = none → a.Exhausted) (hask : Askable l.length l.alignment)
    (hkind : l.kind = .ordinary ↔ l.dropFn = none)
    (hdrop : ∀ f, l.dropFn = some f → f ≠ 0 ∧ f < 2 ^ 64)
    (hq : p.after ((allocate debug l.length l.alignment l.kind l.dropFn answer).run p.system)
      (fun ptr t => p.holding { l with ptr } t) = some q) : Leads debug p a q := by
  have houtcome := @allocate_outcome debug p.system l answer hask hkind hdrop h.laid.registrable
  generalize hrun : (allocate debug l.length l.alignment l.kind l.dropFn answer).run p.system = o at *
  cases houtcome with
  | size message hmessage hsize =>
    obtain rfl := Option.some.inj hq
    exact .aborted _ hfits message (.size hmessage (hlarge hsize)) rfl h.sizes
  | exhausted hlayout hbase =>
    obtain rfl := Option.some.inj hq
    exact .aborted _ hfits outOfMemory (.memory rfl (hnull hbase)) rfl (fits_append h.sizes hlayout)
  | refused => cases hq
  | returns ptr t hreplaces hsizes hfinalized =>
    obtain rfl := Option.some.inj hq
    refine .running _ hfits ⟨?_, ?_, ?_, ?_⟩ rfl
    · exact h.laid.replace (show p.live.Perm ((none : Option Live).toList ++ p.live) from .refl _)
        h.laid.blocks hreplaces
    · show ∀ call ∈ t.sizes, _
      rw [hsizes]
      exact fits_append h.sizes (hreplaces.shaped _ rfl).fits
    · exact hfinalized.trans h.finalized
    · show (if l.kind = .ordinary then p.made else { l with ptr } :: p.made).Perm
        (({ l with ptr } :: p.live).filter _ ++ p.released)
      rw [List.filter_cons]
      by_cases hordinary : l.kind = .ordinary
      · rw [if_pos hordinary, if_neg (by simpa using hordinary)]
        exact h.made
      · rw [if_neg hordinary, if_pos (by simpa using hordinary)]
        exact h.made.cons _

theorem leads_realloc {j length : ℕ} {answer : Answer} (h : Sound debug p)
    (htake : takeAt p.live j = some (l, rest)) (hlength : length < 2 ^ 64)
    (hq : p.after ((rocRealloc debug l.ptr length l.alignment answer).run p.system)
      (fun ptr system => { p with system, live := { l with ptr, length } :: rest }) = some q) :
    Leads debug p (.realloc j length answer) q := by
  have hperm := perm_of_takeAt htake
  have hl : l ∈ p.live := mem_of_takeAt htake
  have hblock := h.laid.blocks.symm.subset (List.mem_map_of_mem (f := Live.block debug) hl)
  have houtcome := @realloc_outcome debug p.system l length answer (h.laid.shaped l hl)
    (h.laid.stored l hl) hblock hlength (h.laid.registrable_removed hperm)
  have hfits : l.kind = .ordinary → ((l.resized length).total debug < 2 ^ 64 →
      LayoutFits ((l.resized length).total debug) (blockAlign l.alignment)) →
      ReallocFits debug p (.realloc j length answer) := by
    rintro hkind hlayout _ _ _ l' rest' ⟨⟩ htake'
    obtain ⟨rfl, rfl⟩ := Prod.mk.inj (Option.some.inj (htake.symm.trans htake'))
    exact ⟨hkind, hlayout⟩
  generalize (rocRealloc debug l.ptr length l.alignment answer).run p.system = o at *
  cases houtcome with
  | hostOwned hkind =>
    obtain rfl := Option.some.inj hq
    exact .immutable _ (fun hC => hkind (hC _ _ _ _ _ rfl htake).1) rfl
  | size hkind message hmessage t hsize hsizes =>
    obtain rfl := Option.some.inj hq
    refine .aborted _ (hfits hkind fun hword => absurd hword hsize) message
      (.size hmessage ⟨l, rest, htake, hsize⟩) rfl ?_
    show ∀ call ∈ t.sizes, _
    rw [hsizes]
    exact h.sizes
  | undefined hkind t hword hsize hsizes =>
    obtain rfl := Option.some.inj hq
    refine .undefined _ (fun hC => hsize ((hC _ _ _ _ _ rfl htake).2 hword)) rfl ?_
    refine ⟨((l.resized length).total debug, blockAlign l.alignment), ?_, hsize⟩
    show _ ∈ t.sizes
    rw [hsizes]
    exact List.mem_append_right _ (List.mem_singleton_self _)
  | exhausted hkind t hlayout hnull hsizes =>
    obtain rfl := Option.some.inj hq
    refine .aborted _ (hfits hkind fun _ => hlayout) outOfMemory (.memory rfl hnull) rfl ?_
    show ∀ call ∈ t.sizes, _
    rw [hsizes]
    exact fits_append h.sizes hlayout
  | refused => cases hq
  | returns hkind ptr t hreplaces hsizes hfinalized hbytes =>
    obtain rfl := Option.some.inj hq
    have hlayout := (hreplaces.shaped _ rfl).fits
    refine .running _ (hfits hkind fun _ => hlayout) ⟨?_, ?_, ?_, ?_⟩ rfl
    · have hlive : p.live.Perm ((some l).toList ++ rest) := hperm
      exact h.laid.replace hlive (h.laid.erase_perm hperm) hreplaces
    · show ∀ call ∈ t.sizes, _
      rw [hsizes]
      exact fits_append h.sizes hlayout
    · exact hfinalized.trans h.finalized
    · -- an ordinary allocation is not in the log
      have hfilter := hperm.filter (·.kind ≠ .ordinary)
      have hnot : ¬ decide (l.kind ≠ .ordinary) := by simpa using hkind
      rw [List.filter_cons, if_neg hnot] at hfilter
      have hgoal : (({ l with ptr, length } : Live) :: rest).filter (·.kind ≠ .ordinary) =
          rest.filter (·.kind ≠ .ordinary) := by
        rw [List.filter_cons, if_neg hnot]
      show p.made.Perm ((({ l with ptr, length } : Live) :: rest).filter _ ++ p.released)
      rw [hgoal]
      exact h.made.trans (hfilter.append_right _)

theorem leads_dealloc {j : ℕ} {junk : Memory} (h : Sound debug p)
    (htake : takeAt p.live j = some (l, rest))
    (hq : p.after ((rocDealloc debug l.ptr l.alignment junk).run p.system)
      (fun _ system => { p with
        system
        live := rest
        released := if l.kind = .ordinary then p.released else p.released ++ [l] }) = some q) :
    Leads debug p (.dealloc j junk) q := by
  have hperm := perm_of_takeAt htake
  have hl : l ∈ p.live := mem_of_takeAt htake
  have hblock := h.laid.blocks.symm.subset (List.mem_map_of_mem (f := Live.block debug) hl)
  have herase := h.laid.erase_perm hperm
  obtain ⟨t, ht, hreplaces, hsizes, hfinalized⟩ := rocDealloc_run (h.laid.shaped l hl)
    (h.laid.stored l hl) hblock
    (fun b hb => (h.laid.apart_of_perm hperm).1 b (herase.subset hb)) (h.laid.active_ne_zero hperm) junk
  rw [ht] at hq
  obtain rfl := Option.some.inj hq
  have hfilter := hperm.filter (·.kind ≠ .ordinary)
  rw [List.filter_cons] at hfilter
  refine .running _ nofun ⟨?_, ?_, ?_, ?_⟩ rfl
  · have hlive : p.live.Perm ((some l).toList ++ rest) := hperm
    exact h.laid.replace hlive herase hreplaces
  · show ∀ call ∈ t.sizes, _
    rw [hsizes]
    exact h.sizes
  · show t.finalized = (if l.kind = .ordinary then p.released else p.released ++ [l]).filterMap _
    rw [hfinalized, h.finalized]
    have hnone := (h.laid.shaped l hl).finalizer
    unfold Live.finalizerCall
    split_ifs with hkind
    · rw [hnone.mp hkind]
      exact List.append_nil _
    · rw [List.filterMap_append]
      cases hdrop : l.dropFn with
      | none => exact absurd (hnone.mpr hdrop) hkind
      | some f => simp [hdrop]
  · show p.made.Perm (rest.filter _ ++ if l.kind = .ordinary then p.released else p.released ++ [l])
    refine h.made.trans ((hfilter.append_right _).trans ?_)
    by_cases hkind : l.kind = .ordinary
    · rw [if_pos hkind, if_neg (by simpa using hkind)]
    · rw [if_neg hkind, if_pos (by simpa using hkind), ← List.append_assoc]
      exact (List.perm_append_singleton _ _).symm

theorem leads_of_call {a : Action} (h : Sound debug p) (hq : call debug p a = some q) :
    Leads debug p a q := by
  cases a with
  | alloc length alignment answer =>
    obtain ⟨hask, hq⟩ := Option.ite_none_right_eq_some.mp hq
    exact leads_allocate (l := ⟨0, length, alignment, .ordinary, none⟩) h nofun id id hask
      (iff_of_true rfl rfl) nofun hq
  | allocHostOwned length alignment kind dropFn answer =>
    obtain ⟨⟨hask, hkind, hdrop⟩, hq⟩ := Option.ite_none_right_eq_some.mp hq
    have hrun : (allocateHostOwned debug length alignment kind dropFn answer).run p.system =
        (allocate debug length alignment kind (some dropFn) answer).run p.system :=
      bind_returns (fatalIf_of_not hkind)
    rw [hrun] at hq
    have hholding : ∀ ptr t, p.holding ⟨ptr, length, alignment, kind, some dropFn⟩ t =
        { p with
          system := t
          live := ⟨ptr, length, alignment, kind, some dropFn⟩ :: p.live
          made := ⟨ptr, length, alignment, kind, some dropFn⟩ :: p.made } := fun ptr t => by
      unfold Process.holding
      rw [if_neg hkind]
    simp only [← hholding] at hq
    exact leads_allocate (l := ⟨0, length, alignment, kind, some dropFn⟩) h nofun id id hask
      (iff_of_false hkind nofun) (fun f hf => Option.some.inj hf ▸ hdrop) hq
  | realloc j length answer =>
    obtain ⟨⟨l, rest⟩, htake, hq⟩ := Option.bind_eq_some_iff.mp hq
    dsimp only at hq
    split_ifs at hq with hlength
    exact leads_realloc h htake hlength hq
  | dealloc j junk =>
    obtain ⟨⟨l, rest⟩, htake, hq⟩ := Option.bind_eq_some_iff.mp hq
    exact leads_dealloc h htake hq
  | write j offset byte =>
    obtain ⟨⟨l, rest⟩, htake, hq⟩ := Option.bind_eq_some_iff.mp hq
    dsimp only at hq
    split_ifs at hq with hoffset
    obtain rfl := Option.some.inj hq
    exact .running _ nofun ⟨h.laid.write (perm_of_takeAt htake) hoffset byte, h.sizes, h.finalized,
      h.made⟩ rfl

/-! ## The claim about every run -/

namespace Live

/-- An address of the bytes of the client. -/
def Owns (l : Live) (a : ℕ) : Prop := l.ptr ≤ a ∧ a < l.ptr + l.length

def InHeader (l : Live) (a : ℕ) : Prop := l.ptr - headerSize ≤ a ∧ a < l.ptr

/-- The bytes of neither allocation are bytes or header of the other. -/
def Disjoint (l l' : Live) : Prop :=
  (∀ a, l.Owns a → ¬ l'.Owns a ∧ ¬ l'.InHeader a) ∧ ∀ a, l'.Owns a → ¬ l.InHeader a

theorem Shaped.disjoint (h : l.Shaped debug) (h' : l'.Shaped debug)
    (hapart : (l.block debug).Apart (l'.block debug)) : l.Disjoint l' := by
  obtain ⟨hlow, hheader, htail⟩ := h.parts
  obtain ⟨hlow', hheader', htail'⟩ := h'.parts
  unfold Block.Apart Live.block at hapart
  dsimp only at hapart
  unfold Live.Disjoint Owns InHeader
  constructor
  · intro a ha
    omega
  · intro a ha
    omega

end Live

/-- A state of a run as the allocator should keep it. -/
structure Correct (p : Process) : Prop where
  aborts : ∀ message, p.status = .aborted message → message ∈ outOfMemory :: sizeMessages
  sizes : ∀ call ∈ p.system.sizes, LayoutFits call.1 call.2
  aligned : p.status = .running → ∀ l ∈ p.live, l.alignment ∣ l.ptr
  disjoint : p.status = .running → p.live.Pairwise Live.Disjoint
  finalizers : p.status = .running →
    p.system.finalized = p.released.filterMap Live.finalizerCall ∧
    p.made.Perm (p.live.filter (·.kind ≠ .ordinary) ++ p.released)
  counters : p.status = .running →
    p.system.activeRequestBodies = p.live.countP (·.kind = .requestBody) ∧
    p.system.activeSeamlessBackings = p.live.countP (·.kind = .seamlessBytes)

theorem sum_tally {kind : AllocationKind} (hkind : kind ≠ .ordinary) (live : List Live) :
    (live.map fun l => tally l.kind kind).sum = live.countP (·.kind = kind) := by
  induction live with
  | nil => rfl
  | cons l live ih =>
    rw [List.map_cons, List.sum_cons, ih, List.countP_cons, Nat.add_comm]
    congr 1
    unfold tally
    by_cases h : l.kind = kind
    · rw [if_pos ⟨h, h ▸ hkind⟩, if_pos (by simpa using h)]
    · rw [if_neg fun hand => h hand.1, if_neg (by simpa using h)]

/-- A process that is sound while it runs. -/
structure Fine (debug : Bool) (p : Process) : Prop where
  running : p.status = .running → Sound debug p
  aborts : ∀ message, p.status = .aborted message → message ∈ outOfMemory :: sizeMessages
  sizes : ∀ call ∈ p.system.sizes, LayoutFits call.1 call.2

theorem Fine.correct (h : Fine debug p) : Correct p where
  aborts := h.aborts
  sizes := h.sizes
  aligned hrunning l hl := by
    have hshaped := (h.running hrunning).laid.shaped l hl
    exact Nat.dvd_trans (dvd_blockAlign hshaped.askable.2.2) (Nat.dvd_of_mod_eq_zero hshaped.ptr_mod)
  disjoint hrunning := by
    have hlaid := (h.running hrunning).laid
    refine (List.pairwise_map.mp hlaid.apart).imp_of_mem fun hl hl' hapart => ?_
    exact (hlaid.shaped _ hl).disjoint (hlaid.shaped _ hl') hapart
  finalizers hrunning := ⟨(h.running hrunning).finalized, (h.running hrunning).made⟩
  counters hrunning := by
    have hactive := (h.running hrunning).laid.active
    exact ⟨(hactive .requestBody).trans (sum_tally (by decide) _),
      (hactive .seamlessBytes).trans (sum_tally (by decide) _)⟩

theorem running_of_step {a : Action} (h : step debug p a = some q) :
    p.status = .running ∧ call debug p a = some q := by
  unfold step at h
  split at h
  · exact ⟨by assumption, h⟩
  · cases h

theorem fine_step {a : Action} (h : Fine debug p) (hfits : ReallocFits debug p a)
    (hstep : step debug p a = some q) : Fine debug q := by
  obtain ⟨hrunning, hcall⟩ := running_of_step hstep
  cases leads_of_call (h.running hrunning) hcall with
  | running _ hsound hstatus =>
    refine ⟨fun _ => hsound, fun message hmessage => ?_, hsound.sizes⟩
    rw [hstatus, hrunning] at hmessage
    cases hmessage
  | aborted _ message hcause hstatus hsizes =>
    refine ⟨fun hrun => ?_, fun message' hmessage' => ?_, hsizes⟩
    · rw [hstatus] at hrun
      cases hrun
    · rw [hstatus] at hmessage'
      cases hmessage'
      exact hcause.mem
  | immutable hnot => exact absurd hfits hnot
  | undefined hnot => exact absurd hfits hnot

theorem not_correct_of_step {a : Action} (h : Fine debug p) (hfits : ¬ ReallocFits debug p a)
    (hstep : step debug p a = some q) : ¬ Correct q := by
  obtain ⟨hrunning, hcall⟩ := running_of_step hstep
  intro hcorrect
  cases leads_of_call (h.running hrunning) hcall with
  | running hyes => exact hfits hyes
  | aborted hyes => exact hfits hyes
  | immutable _ hstatus => exact absurd (hcorrect.aborts _ hstatus) (by decide)
  | undefined _ _ hsizes =>
    obtain ⟨call, hcall, hnot⟩ := hsizes
    exact hnot (hcorrect.sizes call hcall)

theorem fine_init (memory : Memory) : Fine debug (Process.init memory) where
  running _ := ⟨⟨.nil, .nil, nofun, nofun, fun _ _ h => absurd rfl h, fun kind => by cases kind <;> rfl⟩,
    nofun, rfl, .nil⟩
  aborts := nofun
  sizes := nofun

theorem sound_of_exec {memory : Memory} {as : List Action}
    (h : (machine debug memory).exec (Process.init memory) as = some p)
    (hrunning : p.status = .running) : Sound debug p := by
  refine (machine debug memory).invariant_exec (P := fun q => q.status = .running → Sound debug q)
    ?_ (fine_init memory).running h hrunning
  intro q a t hq hstep hstatus
  obtain ⟨hqrunning, hcall⟩ := running_of_step hstep
  cases leads_of_call (hq hqrunning) hcall with
  | running _ hsound => exact hsound
  | aborted _ _ _ habort => cases hstatus.symm.trans habort
  | immutable _ habort => cases hstatus.symm.trans habort
  | undefined _ hundefined => cases hstatus.symm.trans hundefined

theorem bytes_of_realloc {j length : ℕ} {answer : Answer} (h : Sound debug p)
    (htake : takeAt p.live j = some (l, rest))
    (hq : call debug p (.realloc j length answer) = some q) (hstatus : q.status = .running) :
    ∃ ptr, q.live = { l with ptr, length } :: rest ∧
      ∀ i < min l.length length, q.system.memory (ptr + i) = p.system.memory (l.ptr + i) := by
  have hl : l ∈ p.live := mem_of_takeAt htake
  obtain ⟨⟨l', rest'⟩, htake', hq⟩ := Option.bind_eq_some_iff.mp hq
  obtain ⟨rfl, rfl⟩ := Prod.mk.inj (Option.some.inj (htake.symm.trans htake'))
  dsimp only at hq
  split_ifs at hq with hlength
  have houtcome := @realloc_outcome debug p.system l length answer (h.laid.shaped l hl)
    (h.laid.stored l hl) (h.laid.blocks.symm.subset (List.mem_map_of_mem hl)) hlength
    (h.laid.registrable_removed (perm_of_takeAt htake))
  generalize (rocRealloc debug l.ptr length l.alignment answer).run p.system = o at *
  cases houtcome with
  | returns hkind ptr t hreplaces hsizes hfinalized hbytes =>
    obtain rfl := Option.some.inj hq
    exact ⟨ptr, rfl, hbytes⟩
  | refused => cases hq
  | _ =>
    obtain rfl := Option.some.inj hq
    cases hstatus

/-- **The Roc allocator.** Every state of a run is correct exactly when each reallocation in it is of
an ordinary allocation, with a size that overflows a word or has a layout: only aborts for size or
memory, only sizes that the system allocator accepts, aligned and disjoint allocations, each
finalizer once, and counters that count. In any run a call that aborts has its cause, and a
reallocation keeps the bytes. -/
theorem allocator_correct_iff (memory : Memory) {as : List Action}
    (h : (machine debug memory).exec (Process.init memory) as = some p) :
    ((∀ bs cs q, as = bs ++ cs → (machine debug memory).exec (Process.init memory) bs = some q →
        Correct q) ↔ (machine debug memory).Always (ReallocFits debug) (Process.init memory) as) ∧
    ∀ bs a cs q t, as = bs ++ a :: cs →
      (machine debug memory).exec (Process.init memory) bs = some q → step debug q a = some t →
      (∀ message, t.status = .aborted message →
        Cause debug q a message ∨ message = immutableBacking) ∧
      ∀ j length answer l rest, a = .realloc j length answer → takeAt q.live j = some (l, rest) →
        t.status = .running → ∃ ptr, t.live = { l with ptr, length } :: rest ∧
          ∀ i < min l.length length, t.system.memory (ptr + i) = q.system.memory (l.ptr + i) := by
  refine ⟨(machine debug memory).always_iff_prefixes (P := Fine debug) (fun _ hq => hq.correct)
    (fun _ _ _ hq => fine_step hq) (fun _ _ _ hq => not_correct_of_step hq) (fine_init memory) h, ?_⟩
  intro bs a cs q t _ hq hstep
  obtain ⟨hrunning, hcall⟩ := running_of_step hstep
  have hsound := sound_of_exec hq hrunning
  constructor
  · intro message hmessage
    cases leads_of_call hsound hcall with
    | running _ _ hstatus =>
      rw [hstatus, hrunning] at hmessage
      cases hmessage
    | aborted _ message' hcause hstatus =>
      cases hstatus.symm.trans hmessage
      exact .inl hcause
    | immutable _ hstatus =>
      cases hstatus.symm.trans hmessage
      exact .inr rfl
    | undefined _ hstatus => cases hstatus.symm.trans hmessage
  · rintro j length answer l rest rfl htake hstatus
    exact bytes_of_realloc hsound htake hcall hstatus

/-- A host-owned word at 4160, and its release. -/
def ownedRun : List Action :=
  [.allocHostOwned 8 8 .requestBody 7 ⟨some 4096, fun _ => 0⟩, .dealloc 0 fun _ => 0]

theorem allocator_correct_ownedRun :
    ∃ p, (machine true fun _ => 0).exec (Process.init fun _ => 0) ownedRun = some p ∧ Correct p ∧
      p.system.finalized = [(7, 4160)] := by
  have hrun : ((machine true fun _ => 0).exec (Process.init fun _ => 0) ownedRun).map
      (fun p => p.system.finalized) = some [(7, 4160)] := by decide +kernel
  obtain ⟨p, hp, hfinalized⟩ := Option.map_eq_some_iff.mp hrun
  refine ⟨p, hp, ?_, hfinalized⟩
  refine (allocator_correct_iff _ hp).1.mpr ?_ ownedRun [] p rfl hp
  exact ⟨nofun, fun _ _ => ⟨nofun, fun _ _ => trivial⟩⟩

/-- One byte at 4160, then room for 2 ^ 63 bytes there. -/
def hugeRealloc : List Action :=
  [.alloc 1 8 ⟨some 4096, fun _ => 0⟩, .realloc 0 (2 ^ 63) ⟨none, fun _ => 0⟩]

theorem realloc_without_layout :
    ∃ p, (machine false fun _ => 0).exec (Process.init fun _ => 0) hugeRealloc = some p ∧
      (2 ^ 63 + 64, 8) ∈ p.system.sizes ∧ ¬ LayoutFits (2 ^ 63 + 64) 8 := by
  have hrun : ((machine false fun _ => 0).exec (Process.init fun _ => 0) hugeRealloc).map
      (fun p => p.system.sizes) = some [(65, 8), (2 ^ 63 + 64, 8)] := by decide +kernel
  obtain ⟨p, hp, hsizes⟩ := Option.map_eq_some_iff.mp hrun
  refine ⟨p, hp, ?_, by decide +kernel⟩
  rw [hsizes]
  decide +kernel

end BasicWebserver.RocAlloc
