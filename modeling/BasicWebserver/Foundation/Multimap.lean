import Mathlib.Data.List.Nodup
import Mathlib.Data.List.Perm.Basic

/-!
# Insertion-ordered multimaps

A map from keys to non-empty lists of values. Each key has one entry; a new key goes to the end,
and removing an entry moves the last one into its place. What a user sees of a key are its values
(`getAll`), and each operation changes those of one key only.
-/

/-- Each entry has a key, its first value and its other values. -/
structure Multimap (κ ν : Type*) where
  entries : List (κ × ν × List ν)
  nodup : (entries.map Prod.fst).Nodup

namespace Multimap

variable {κ ν : Type*}

/-! ## Removing by swapping -/

/-- The list without its `i`-th entry, in whose place the last one is put. -/
def swapRemove {α : Type*} (l : List α) (i : ℕ) : List α :=
  match l.getLast? with
  | none => []
  | some last => (l.set i last).dropLast

theorem perm_swapRemove {α : Type*} {l : List α} {i : ℕ} (hi : i < l.length) :
    l.Perm (l[i] :: swapRemove l i) := by
  have hne : l ≠ [] := List.ne_nil_of_length_pos (Nat.zero_lt_of_lt hi)
  obtain ⟨front, last, rfl⟩ := (List.eq_nil_or_concat' l).resolve_left hne
  have hswap : swapRemove (front ++ [last]) i = ((front ++ [last]).set i last).dropLast := by
    unfold swapRemove
    rw [List.getLast?_concat]
  rw [hswap]
  rcases Nat.lt_or_ge i front.length with hlt | hge
  · have hset : ((front ++ [last]).set i last).dropLast = front.set i last := by
      rw [List.set_append_left _ _ hlt, List.dropLast_concat]
    have hget : (front ++ [last])[i] = front[i] := List.getElem_append_left hlt
    rw [hset, hget]
    refine (List.perm_append_singleton last front).trans ?_
    refine ((List.getElem_cons_eraseIdx_perm hlt).symm.cons last).trans ?_
    refine (List.Perm.swap _ _ _).trans ((List.Perm.cons _ ?_))
    exact (List.set_perm_cons_eraseIdx hlt last).symm
  · obtain rfl : i = front.length := by
      rw [List.length_append, List.length_singleton] at hi
      omega
    have hset : ((front ++ [last]).set front.length last).dropLast = front := by
      rw [List.set_append_right _ _ (Nat.le_refl _), Nat.sub_self, List.set_cons_zero,
        List.dropLast_concat]
    have hget : (front ++ [last])[front.length] = last := List.getElem_concat_length rfl _
    rw [hset, hget]
    exact List.perm_append_singleton last front

theorem nodup_swapRemove {entries : List (κ × ν × List ν)} (h : (entries.map Prod.fst).Nodup)
    {i : ℕ} (hi : i < entries.length) : ((swapRemove entries i).map Prod.fst).Nodup := by
  have hperm := (perm_swapRemove hi).map Prod.fst
  exact (List.nodup_cons.mp (hperm.nodup_iff.mp h)).2

/-! ## Operations -/

section Operations

variable [DecidableEq κ]

def empty : Multimap κ ν := ⟨[], List.nodup_nil⟩

def keys (m : Multimap κ ν) : List κ := m.entries.map Prod.fst

def getAll (m : Multimap κ ν) (k : κ) : List ν :=
  match m.entries.find? fun entry => entry.1 = k with
  | none => []
  | some (_, v, vs) => v :: vs

def get (m : Multimap κ ν) (k : κ) : Option ν := (m.getAll k).head?

def contains (m : Multimap κ ν) (k : κ) : Bool := m.entries.any fun entry => entry.1 = k

theorem keys_modify (f : ν × List ν → ν × List ν) (k : κ) (entries : List (κ × ν × List ν)) :
    (entries.map fun entry => if entry.1 = k then (entry.1, f entry.2) else entry).map Prod.fst =
      entries.map Prod.fst := by
  rw [List.map_map]
  refine List.map_congr_left fun entry _ => ?_
  show (if entry.1 = k then (entry.1, f entry.2) else entry).1 = entry.1
  split_ifs <;> rfl

/-- The keys with their values, in order. -/
def toList (m : Multimap κ ν) : List (κ × ν) :=
  m.entries.flatMap fun entry => (entry.1, entry.2.1) :: entry.2.2.map fun v => (entry.1, v)

def modify (m : Multimap κ ν) (f : ν × List ν → ν × List ν) (k : κ) : Multimap κ ν where
  entries := m.entries.map fun entry => if entry.1 = k then (entry.1, f entry.2) else entry
  nodup := by
    rw [keys_modify]
    exact m.nodup

theorem notMem_of_not_contains {m : Multimap κ ν} {k : κ} (h : ¬ m.contains k) :
    k ∉ m.entries.map Prod.fst := by
  intro hk
  obtain ⟨entry, hentry, rfl⟩ := List.mem_map.mp hk
  exact h (List.any_eq_true.mpr ⟨entry, hentry, decide_eq_true rfl⟩)

/-- Put a new key at the end. -/
def push (m : Multimap κ ν) (k : κ) (v : ν) (h : ¬ m.contains k) : Multimap κ ν where
  entries := m.entries ++ [(k, v, [])]
  nodup := by
    rw [List.map_append, List.map_singleton, ← List.concat_eq_append]
    exact List.Nodup.concat (notMem_of_not_contains h) m.nodup

def append (m : Multimap κ ν) (k : κ) (v : ν) : Multimap κ ν :=
  if h : m.contains k then m.modify (fun vs => (vs.1, vs.2 ++ [v])) k else m.push k v h

/-- Replace the values of a key by one. -/
def insert (m : Multimap κ ν) (k : κ) (v : ν) : Multimap κ ν :=
  if h : m.contains k then m.modify (fun _ => (v, [])) k else m.push k v h

def remove (m : Multimap κ ν) (k : κ) : Multimap κ ν :=
  let i := m.entries.findIdx fun entry => entry.1 = k
  if h : i < m.entries.length then ⟨swapRemove m.entries i, nodup_swapRemove m.nodup h⟩ else m

end Operations

/-! ## The values of a key -/

section Values

variable [DecidableEq κ] {m m' : Multimap κ ν} {k k' : κ} {v : ν} {vs : List ν}

theorem getAll_of_mem (h : (k, v, vs) ∈ m.entries) : m.getAll k = v :: vs := by
  unfold getAll
  have hfind : m.entries.find? (fun entry => entry.1 = k) = some (k, v, vs) := by
    cases hfound : m.entries.find? fun entry => entry.1 = k with
    | none =>
      have := List.find?_eq_none.mp hfound _ h
      simp at this
    | some entry =>
      have hkey : entry.1 = k := by simpa using List.find?_some hfound
      exact congrArg some
        (List.inj_on_of_nodup_map m.nodup (List.mem_of_find?_eq_some hfound) h hkey)
  rw [hfind]

theorem mem_of_getAll (h : m.getAll k = v :: vs) : (k, v, vs) ∈ m.entries := by
  unfold getAll at h
  split at h
  · cases h
  · rename_i key first others hfound
    obtain rfl : key = k := by simpa using List.find?_some hfound
    cases h
    exact List.mem_of_find?_eq_some hfound

theorem mem_keys : k ∈ m.keys ↔ m.getAll k ≠ [] := by
  constructor
  · intro hk
    obtain ⟨⟨key, v, vs⟩, hentry, rfl⟩ := List.mem_map.mp hk
    rw [getAll_of_mem hentry]
    nofun
  · intro hne
    obtain ⟨v, vs, hvs⟩ := List.exists_cons_of_ne_nil hne
    exact List.mem_map.mpr ⟨_, mem_of_getAll hvs, rfl⟩

theorem contains_iff : m.contains k ↔ m.getAll k ≠ [] := by
  rw [← mem_keys, keys, List.mem_map, contains, List.any_eq_true]
  simp only [decide_eq_true_eq]

theorem getAll_eq_nil (h : ¬ m.contains k) : m.getAll k = [] := by
  rwa [contains_iff, not_not] at h

theorem getAll_congr (h : ∀ v vs, (k, v, vs) ∈ m.entries ↔ (k, v, vs) ∈ m'.entries) :
    m.getAll k = m'.getAll k := by
  cases hvs : m.getAll k with
  | cons v vs => exact (getAll_of_mem ((h v vs).mp (mem_of_getAll hvs))).symm
  | nil =>
    cases hvs' : m'.getAll k with
    | nil => rfl
    | cons v vs =>
      rw [getAll_of_mem ((h v vs).mpr (mem_of_getAll hvs'))] at hvs
      cases hvs

theorem mem_toList_of_get (h : m.get k = some v) : (k, v) ∈ m.toList := by
  obtain ⟨vs, hall⟩ := List.head?_eq_some_iff.mp h
  exact List.mem_flatMap.mpr ⟨(k, v, vs), mem_of_getAll hall, List.mem_cons_self⟩

@[simp] theorem getAll_empty : (empty : Multimap κ ν).getAll k = [] := rfl

theorem getAll_modify_self (f : ν × List ν → ν × List ν) (h : m.getAll k = v :: vs) :
    (m.modify f k).getAll k = (f (v, vs)).1 :: (f (v, vs)).2 :=
  getAll_of_mem (List.mem_map.mpr ⟨_, mem_of_getAll h, if_pos rfl⟩)

theorem getAll_modify_ne (f : ν × List ν → ν × List ν) (hne : k' ≠ k) :
    (m.modify f k).getAll k' = m.getAll k' := by
  refine getAll_congr fun v vs => List.mem_map.trans ⟨?_, fun hentry => ⟨_, hentry, if_neg hne⟩⟩
  rintro ⟨entry, hentry, heq⟩
  split_ifs at heq with hk
  · exact absurd ((congrArg Prod.fst heq).symm.trans hk) hne
  · exact heq ▸ hentry

theorem getAll_push_self (h : ¬ m.contains k) : (m.push k v h).getAll k = [v] :=
  getAll_of_mem (List.mem_append_right _ List.mem_cons_self)

theorem getAll_push_ne (h : ¬ m.contains k) (hne : k' ≠ k) :
    (m.push k v h).getAll k' = m.getAll k' := by
  refine getAll_congr fun w ws => List.mem_append.trans (or_iff_left fun hentry => hne ?_)
  exact congrArg Prod.fst (List.mem_singleton.mp hentry)

theorem getAll_append_self : (m.append k v).getAll k = m.getAll k ++ [v] := by
  unfold append
  split_ifs with h
  · obtain ⟨first, others, hvs⟩ := List.exists_cons_of_ne_nil (contains_iff.mp h)
    rw [getAll_modify_self _ hvs, hvs, List.cons_append]
  · rw [getAll_push_self, getAll_eq_nil h, List.nil_append]

theorem getAll_append_ne (hne : k' ≠ k) : (m.append k v).getAll k' = m.getAll k' := by
  unfold append
  split_ifs with h
  · exact getAll_modify_ne _ hne
  · exact getAll_push_ne h hne

theorem getAll_insert_self : (m.insert k v).getAll k = [v] := by
  unfold insert
  split_ifs with h
  · obtain ⟨first, others, hvs⟩ := List.exists_cons_of_ne_nil (contains_iff.mp h)
    exact getAll_modify_self _ hvs
  · exact getAll_push_self h

theorem getAll_insert_ne (hne : k' ≠ k) : (m.insert k v).getAll k' = m.getAll k' := by
  unfold insert
  split_ifs with h
  · exact getAll_modify_ne _ hne
  · exact getAll_push_ne h hne

theorem remove_cases (m : Multimap κ ν) (k : κ) :
    (∃ v vs, m.entries.Perm ((k, v, vs) :: (m.remove k).entries)) ∨
      m.getAll k = [] ∧ m.remove k = m := by
  unfold remove
  dsimp only
  split_ifs with hi
  · left
    have hperm := perm_swapRemove hi
    have hkey : (m.entries[m.entries.findIdx fun entry => entry.1 = k]).1 = k := by
      simpa using List.findIdx_getElem (w := hi)
    generalize m.entries[m.entries.findIdx fun entry => entry.1 = k] = entry at hperm hkey
    obtain ⟨key, v, vs⟩ := entry
    obtain rfl : key = k := hkey
    exact ⟨v, vs, hperm⟩
  · refine .inr ⟨getAll_eq_nil fun hc => hi ?_, rfl⟩
    obtain ⟨entry, hentry, hk⟩ := List.any_eq_true.mp hc
    exact List.findIdx_lt_length_of_exists ⟨entry, hentry, hk⟩

theorem getAll_remove_self : (m.remove k).getAll k = [] := by
  obtain ⟨v, vs, hperm⟩ | ⟨hnil, hsame⟩ := m.remove_cases k
  · by_contra hne
    have hnodup := (hperm.map Prod.fst).nodup_iff.mp m.nodup
    exact (List.nodup_cons.mp hnodup).1 (mem_keys.mpr hne)
  · rw [hsame, hnil]

theorem getAll_remove_ne (hne : k' ≠ k) : (m.remove k).getAll k' = m.getAll k' := by
  obtain ⟨v, vs, hperm⟩ | ⟨-, hsame⟩ := m.remove_cases k
  · refine getAll_congr fun w ws => ?_
    rw [hperm.mem_iff, List.mem_cons]
    exact (or_iff_right fun heq => hne (congrArg Prod.fst heq)).symm
  · rw [hsame]

end Values

end Multimap
