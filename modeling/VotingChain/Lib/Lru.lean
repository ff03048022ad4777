/-
# `VotingChain.Lib.Lru` — maps that hold a bounded number of entries

`BoundedMap` says what a program relies on when it keeps a cache in a map of bounded size:
what is under a key after each operation, and how many entries there are.  Which entry makes
room for a new one is left open; that one does only when the map is full is not.

`LruMap` is the map that drops the least recently used entry, a list of entries with the most
recent one in front.  `lru` shows that it is a bounded map.
-/
import Mathlib.Data.List.Basic
import Mathlib.Data.List.Nodup

/-- How many entries there may be: at least one. -/
abbrev Capacity := { n : Nat // 0 < n }

/-- A map with at most so many entries, and what is known of its operations. -/
structure BoundedMap (α β : Type) where
  Map : Type
  new : Capacity → Map
  /-- The value under a key. -/
  peek : Map → α → Option β
  len : Map → Nat
  cap : Map → Nat
  put : Map → α → β → Map
  /-- The value under a key, which is now the most recently used. -/
  get : Map → α → Option β × Map
  pop : Map → α → Map
  clear : Map → Map
  resize : Map → Capacity → Map
  peek_new : ∀ c k, peek (new c) k = none
  peek_put_self : ∀ m k v, peek (put m k v) k = some v
  /-- Another entry stays, or makes room in a full map. -/
  peek_put_of_ne : ∀ {k k'} m v, k' ≠ k → peek (put m k v) k' = peek m k' ∨
    (peek (put m k v) k' = none ∧ peek m k = none ∧ len m = cap m)
  get_fst : ∀ m k, (get m k).1 = peek m k
  peek_get : ∀ m k k', peek (get m k).2 k' = peek m k'
  peek_pop_self : ∀ m k, peek (pop m k) k = none
  peek_pop_of_ne : ∀ {k k'} m, k' ≠ k → peek (pop m k) k' = peek m k'
  peek_clear : ∀ m k, peek (clear m) k = none
  /-- An entry stays, or does not fit any more. -/
  peek_resize : ∀ m c k, peek (resize m c) k = peek m k ∨
    (peek (resize m c) k = none ∧ c.val < len m)
  len_new : ∀ c, len (new c) = 0
  len_put : ∀ m k v,
    len (put m k v) = if (peek m k).isSome ∨ len m = cap m then len m else len m + 1
  len_get : ∀ m k, len (get m k).2 = len m
  len_pop_le : ∀ m k, len (pop m k) ≤ len m
  len_clear : ∀ m, len (clear m) = 0
  len_resize_le : ∀ m c, len (resize m c) ≤ c.val
  cap_new : ∀ c, cap (new c) = c.val
  cap_put : ∀ m k v, cap (put m k v) = cap m
  cap_get : ∀ m k, cap (get m k).2 = cap m
  cap_pop : ∀ m k, cap (pop m k) = cap m
  cap_clear : ∀ m, cap (clear m) = cap m
  cap_resize : ∀ m c, cap (resize m c) = c.val

namespace BoundedMap
variable {α β : Type} (B : BoundedMap α β)

/-- Not more entries than there may be. -/
def Within (m : B.Map) : Prop := B.len m ≤ B.cap m

variable {B}

theorem within_new (c : Capacity) : B.Within (B.new c) := by
  rw [Within, B.len_new]
  exact Nat.zero_le _

theorem within_put {m : B.Map} (h : B.Within m) (k : α) (v : β) : B.Within (B.put m k v) := by
  rw [Within, B.len_put, B.cap_put]
  split
  · exact h
  · next hroom =>
      have hne : B.len m ≠ B.cap m := fun heq => hroom (Or.inr heq)
      exact Nat.lt_of_le_of_ne h hne

theorem within_get {m : B.Map} (h : B.Within m) (k : α) : B.Within (B.get m k).2 := by
  rw [Within, B.len_get, B.cap_get]
  exact h

theorem within_pop {m : B.Map} (h : B.Within m) (k : α) : B.Within (B.pop m k) := by
  rw [Within, B.cap_pop]
  exact Nat.le_trans (B.len_pop_le m k) h

theorem within_clear (m : B.Map) : B.Within (B.clear m) := by
  rw [Within, B.len_clear]
  exact Nat.zero_le _

theorem within_resize (m : B.Map) (c : Capacity) : B.Within (B.resize m c) := by
  rw [Within, B.cap_resize]
  exact B.len_resize_le m c

theorem of_peek_put [DecidableEq α] {m : B.Map} {k k' : α} {v v' : β}
    (h : B.peek (B.put m k v) k' = some v') : k' = k ∧ v' = v ∨ k' ≠ k ∧ B.peek m k' = some v' := by
  by_cases hk : k' = k
  · subst hk
    rw [B.peek_put_self] at h
    exact Or.inl ⟨rfl, (Option.some.inj h).symm⟩
  · rcases B.peek_put_of_ne m v hk with hkept | ⟨hgone, -⟩
    · rw [hkept] at h
      exact Or.inr ⟨hk, h⟩
    · rw [hgone] at h
      cases h

theorem of_peek_pop {m : B.Map} {k k' : α} {v : β} (h : B.peek (B.pop m k) k' = some v) :
    k' ≠ k ∧ B.peek m k' = some v := by
  have hk : k' ≠ k := by
    rintro rfl
    rw [B.peek_pop_self] at h
    cases h
  rw [B.peek_pop_of_ne m hk] at h
  exact ⟨hk, h⟩

theorem of_peek_resize {m : B.Map} {c : Capacity} {k : α} {v : β}
    (h : B.peek (B.resize m c) k = some v) : B.peek m k = some v := by
  rcases B.peek_resize m c k with hkept | ⟨hgone, -⟩
  · rwa [hkept] at h
  · rw [hgone] at h
    cases h

end BoundedMap

/-! ## The least recently used entry goes -/

/-- The entries of the map, the most recently used one first. -/
structure LruMap (α β : Type) where
  capacity : Capacity
  entries : List (α × β)
  nodup : (entries.map Prod.fst).Nodup
  bounded : entries.length ≤ capacity.val

namespace LruMap
variable {α β : Type} [DecidableEq α]

/-- The value under a key of a list of entries. -/
def find (k : α) : List (α × β) → Option β
  | [] => none
  | entry :: entries => if entry.1 = k then some entry.2 else find k entries

/-- The entries with another key. -/
def without (k : α) (entries : List (α × β)) : List (α × β) :=
  entries.filter fun entry => decide (entry.1 ≠ k)

theorem find_append (k : α) (xs ys : List (α × β)) :
    find k (xs ++ ys) = (find k xs).or (find k ys) := by
  induction xs with
  | nil => rfl
  | cons x xs ih =>
      rw [List.cons_append, find, find]
      split
      · rfl
      · exact ih

theorem find_eq_none {k : α} {entries : List (α × β)} :
    find k entries = none ↔ k ∉ entries.map Prod.fst := by
  induction entries with
  | nil => simp [find]
  | cons entry entries ih =>
      rw [find, List.map_cons, List.mem_cons, not_or]
      split
      · next hk => simp [hk]
      · next hk => rw [ih]; exact ⟨fun h => ⟨fun heq => hk heq.symm, h⟩, fun h => h.2⟩

theorem find_without_self (k : α) (entries : List (α × β)) : find k (without k entries) = none := by
  rw [find_eq_none, without]
  intro hmem
  obtain ⟨entry, hentry, hk⟩ := List.mem_map.mp hmem
  exact of_decide_eq_true (List.mem_filter.mp hentry).2 hk

theorem find_without_of_ne {k k' : α} (hk : k' ≠ k) (entries : List (α × β)) :
    find k' (without k entries) = find k' entries := by
  induction entries with
  | nil => rfl
  | cons entry entries ih =>
      rw [without, List.filter_cons]
      split
      · rw [find, find]
        split
        · rfl
        · exact ih
      · next hsame =>
          have hkey : entry.1 = k := by simpa using hsame
          rw [find, if_neg (fun h => hk (h.symm.trans hkey))]
          exact ih

theorem without_of_not_mem {k : α} {entries : List (α × β)} (h : k ∉ entries.map Prod.fst) :
    without k entries = entries := by
  refine List.filter_eq_self.mpr ?_
  intro entry hentry
  refine decide_eq_true ?_
  rintro rfl
  exact h (List.mem_map_of_mem hentry)

theorem length_without {k : α} {entries : List (α × β)} (hnodup : (entries.map Prod.fst).Nodup)
    (hmem : k ∈ entries.map Prod.fst) : (without k entries).length + 1 = entries.length := by
  induction entries with
  | nil => exact absurd hmem List.not_mem_nil
  | cons entry entries ih =>
      rw [List.map_cons, List.nodup_cons] at hnodup
      rw [List.map_cons, List.mem_cons] at hmem
      rw [without, List.filter_cons]
      split
      · next hother =>
          have hne : k ≠ entry.1 := fun h => of_decide_eq_true hother h.symm
          have hrest := hmem.resolve_left hne
          rw [List.length_cons, List.length_cons]
          exact congrArg Nat.succ (ih hnodup.2 hrest)
      · next hsame =>
          have hkey : entry.1 = k := by simpa using hsame
          have hgone : k ∉ entries.map Prod.fst := hkey ▸ hnodup.1
          rw [← without, without_of_not_mem hgone]
          rfl

theorem nodup_without {entries : List (α × β)} (k : α) (h : (entries.map Prod.fst).Nodup) :
    ((without k entries).map Prod.fst).Nodup :=
  h.sublist (List.filter_sublist.map Prod.fst)

theorem nodup_cons_without {entries : List (α × β)} (k : α) (v : β)
    (h : (entries.map Prod.fst).Nodup) : (((k, v) :: without k entries).map Prod.fst).Nodup := by
  rw [List.map_cons, List.nodup_cons]
  exact ⟨find_eq_none.mp (find_without_self k entries), nodup_without k h⟩

/-- The entries when a value is put: an entry with its key moves to the front, and else there
is a new one, for which the last one makes room in a full map. -/
def putEntries (capacity : Nat) (entries : List (α × β)) (k : α) (v : β) : List (α × β) :=
  if (find k entries).isSome then (k, v) :: without k entries
  else if entries.length = capacity then (k, v) :: entries.dropLast
  else (k, v) :: entries

theorem not_mem_of_find {k : α} {entries : List (α × β)} (h : ¬(find k entries).isSome) :
    k ∉ entries.map Prod.fst := by
  rw [← find_eq_none]
  exact Option.not_isSome_iff_eq_none.mp h

theorem mem_of_find {k : α} {entries : List (α × β)} (h : (find k entries).isSome) :
    k ∈ entries.map Prod.fst := by
  by_contra hnot
  rw [find_eq_none.mpr hnot] at h
  cases h

theorem nodup_putEntries {capacity : Nat} {entries : List (α × β)} (k : α) (v : β)
    (h : (entries.map Prod.fst).Nodup) :
    ((putEntries capacity entries k v).map Prod.fst).Nodup := by
  rw [putEntries]
  split
  · exact nodup_cons_without k v h
  · next hnew =>
      have hfresh := not_mem_of_find hnew
      have hsub : (entries.dropLast.map Prod.fst).Sublist (entries.map Prod.fst) :=
        (List.dropLast_sublist entries).map Prod.fst
      split
      · rw [List.map_cons, List.nodup_cons]
        exact ⟨fun hmem => hfresh (hsub.subset hmem), h.sublist hsub⟩
      · rw [List.map_cons, List.nodup_cons]
        exact ⟨hfresh, h⟩

theorem length_putEntries {capacity : Nat} (hpos : 0 < capacity) {entries : List (α × β)} (k : α)
    (v : β) (h : (entries.map Prod.fst).Nodup) :
    (putEntries capacity entries k v).length =
      if (find k entries).isSome ∨ entries.length = capacity then entries.length
      else entries.length + 1 := by
  rw [putEntries]
  split
  · next hold =>
      rw [if_pos (Or.inl hold), List.length_cons]
      exact length_without h (mem_of_find hold)
  · next hnew =>
      split
      · next hfull =>
          rw [if_pos (Or.inr hfull), List.length_cons, List.length_dropLast]
          omega
      · next hroom =>
          rw [if_neg (fun hor => hor.elim hnew hroom), List.length_cons]

theorem find_putEntries_self (capacity : Nat) (entries : List (α × β)) (k : α) (v : β) :
    find k (putEntries capacity entries k v) = some v := by
  rw [putEntries]
  split
  · exact if_pos rfl
  · split
    · exact if_pos rfl
    · exact if_pos rfl

/-- Of the first entries of a map: what is under a key is there, or further back. -/
theorem find_prefix {front entries : List (α × β)} (h : front <+: entries) (k : α) :
    find k front = find k entries ∨ (find k front = none ∧ front.length < entries.length) := by
  obtain ⟨back, rfl⟩ := h
  rw [find_append]
  cases hfront : find k front with
  | some v => exact Or.inl rfl
  | none =>
      cases back with
      | nil => exact Or.inl rfl
      | cons entry back =>
          refine Or.inr ⟨rfl, ?_⟩
          rw [List.length_append, List.length_cons]
          omega

theorem find_putEntries_of_ne {capacity : Nat} {entries : List (α × β)} {k k' : α} (v : β)
    (hk : k' ≠ k) :
    find k' (putEntries capacity entries k v) = find k' entries ∨
    (find k' (putEntries capacity entries k v) = none ∧ find k entries = none ∧
      entries.length = capacity) := by
  have hcons : ∀ rest : List (α × β), find k' ((k, v) :: rest) = find k' rest :=
    fun rest => if_neg (fun h => hk h.symm)
  rw [putEntries]
  split
  · rw [hcons]
    exact Or.inl (find_without_of_ne hk entries)
  · next hnew =>
      split
      · next hfull =>
          rw [hcons]
          rcases find_prefix (List.dropLast_prefix entries) k' with hkept | ⟨hgone, -⟩
          · exact Or.inl hkept
          · exact Or.inr ⟨hgone, Option.not_isSome_iff_eq_none.mp hnew, hfull⟩
      · exact Or.inl (hcons entries)

/-- `LruCache::put`. -/
def put (m : LruMap α β) (k : α) (v : β) : LruMap α β where
  capacity := m.capacity
  entries := putEntries m.capacity.val m.entries k v
  nodup := nodup_putEntries k v m.nodup
  bounded := by
    rw [length_putEntries m.capacity.property k v m.nodup]
    have hle := m.bounded
    split
    · exact hle
    · next hroom =>
        have hne : m.entries.length ≠ m.capacity.val := fun heq => hroom (Or.inr heq)
        exact Nat.lt_of_le_of_ne hle hne

def pop (m : LruMap α β) (k : α) : LruMap α β where
  capacity := m.capacity
  entries := without k m.entries
  nodup := nodup_without k m.nodup
  bounded := Nat.le_trans (List.length_filter_le _ _) m.bounded

/-- The value, and the map with the entry in front. -/
def get (m : LruMap α β) (k : α) : Option β × LruMap α β :=
  match find k m.entries with
  | some v => (some v, put m k v)
  | none => (none, m)

/-- As many of the most recently used entries as there may be now. -/
def resize (m : LruMap α β) (c : Capacity) : LruMap α β where
  capacity := c
  entries := m.entries.take c.val
  nodup := m.nodup.sublist ((List.take_sublist _ _).map Prod.fst)
  bounded := List.length_take_le _ _

end LruMap

/-- A map that drops the least recently used entry is a bounded map. -/
def lru (α β : Type) [DecidableEq α] : BoundedMap α β where
  Map := LruMap α β
  new c := ⟨c, [], List.nodup_nil, Nat.zero_le _⟩
  peek m k := LruMap.find k m.entries
  len m := m.entries.length
  cap m := m.capacity.val
  put := LruMap.put
  get := LruMap.get
  pop := LruMap.pop
  clear m := ⟨m.capacity, [], List.nodup_nil, Nat.zero_le _⟩
  resize := LruMap.resize
  peek_new _ _ := rfl
  peek_put_self m k v := LruMap.find_putEntries_self _ _ k v
  peek_put_of_ne m v hk := LruMap.find_putEntries_of_ne v hk
  get_fst m k := by
    rw [LruMap.get]
    cases hfind : LruMap.find k m.entries <;> rfl
  peek_get m k k' := by
    rw [LruMap.get]
    cases hfind : LruMap.find k m.entries with
    | none => rfl
    | some v =>
        show LruMap.find k' (LruMap.putEntries _ m.entries k v) = _
        rw [LruMap.putEntries, hfind, Option.isSome_some, if_pos rfl, LruMap.find]
        split
        · next hk => exact hfind.symm.trans (congrArg (LruMap.find · m.entries) hk)
        · next hk => exact LruMap.find_without_of_ne (fun h => hk h.symm) _
  peek_pop_self m k := LruMap.find_without_self k m.entries
  peek_pop_of_ne m hk := LruMap.find_without_of_ne hk m.entries
  peek_clear _ _ := rfl
  peek_resize m c k := by
    rcases LruMap.find_prefix (List.take_prefix c.val m.entries) k with hkept | ⟨hgone, hlt⟩
    · exact Or.inl hkept
    · refine Or.inr ⟨hgone, ?_⟩
      rw [List.length_take] at hlt
      omega
  len_new _ := rfl
  len_put m k v := LruMap.length_putEntries m.capacity.property k v m.nodup
  len_get m k := by
    rw [LruMap.get]
    cases hfind : LruMap.find k m.entries with
    | none => rfl
    | some v =>
        show (LruMap.putEntries _ m.entries k v).length = _
        rw [LruMap.length_putEntries m.capacity.property k v m.nodup, hfind, Option.isSome_some,
          if_pos (Or.inl rfl)]
  len_pop_le m k := List.length_filter_le _ _
  len_clear _ := rfl
  len_resize_le m c := List.length_take_le _ _
  cap_new _ := rfl
  cap_put _ _ _ := rfl
  cap_get m k := by
    rw [LruMap.get]
    cases hfind : LruMap.find k m.entries <;> rfl
  cap_pop _ _ := rfl
  cap_clear _ := rfl
  cap_resize _ _ := rfl
