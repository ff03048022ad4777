/-
# `VotingChain.Lib.Indexed` — a vector with an index of its keys

Entries are kept in a vector, each with a key, and a map from keys to positions finds
them.  `Indexes` says that the map is right: it has the keys of the entries, each at its
position, and nothing else.  Then the keys are different, and looking up a key finds the one
entry with that key.

The two ways to change the entries keep the map right: a new entry at the end, whose key
is put down with the old length (`Indexes.push`), and another entry with the same key in
place of one (`Indexes.set`).  The latter changes the entry with that key and no other
(`Indexes.set_eq_map`).
-/
import Mathlib.Data.Finmap
import Mathlib.Data.List.Nodup

namespace Indexed
variable {κ α : Type} [DecidableEq κ] (key : α → κ)

/-- The index maps the keys of the entries to their positions. -/
def Indexes (entries : List α) (index : Finmap fun _ : κ => Nat) : Prop :=
  ∀ k i, index.lookup k = some i ↔ ∃ x, entries[i]? = some x ∧ key x = k

/-- The entry that the index leads to. -/
def find (entries : List α) (index : Finmap fun _ : κ => Nat) (k : κ) : Option α :=
  (index.lookup k).bind fun i => entries[i]?

theorem getElem?_concat_eq_some_iff {entries : List α} {x y : α} {i : Nat} :
    (entries ++ [x])[i]? = some y ↔ entries[i]? = some y ∨ i = entries.length ∧ x = y := by
  rcases Nat.lt_trichotomy i entries.length with hlt | rfl | hgt
  · rw [List.getElem?_append_left hlt]
    exact (or_iff_left fun h => hlt.ne h.1).symm
  · rw [List.getElem?_concat_length, List.getElem?_eq_none (Nat.le_refl _), Option.some.injEq]
    simp
  · rw [List.getElem?_eq_none (by rw [List.length_append, List.length_singleton]; exact hgt),
      List.getElem?_eq_none hgt.le]
    refine iff_of_false nofun ?_
    rintro (h | ⟨rfl, -⟩)
    · cases h
    · exact hgt.ne rfl

variable {key} {entries : List α} {index : Finmap fun _ : κ => Nat}

theorem indexes_nil : Indexes key [] ∅ := by
  intro k i
  rw [Finmap.lookup_empty, List.getElem?_nil]
  exact iff_of_false nofun nofun

namespace Indexes

theorem lookup_key (h : Indexes key entries index) {i : Nat} {x : α} (hx : entries[i]? = some x) :
    index.lookup (key x) = some i :=
  (h (key x) i).mpr ⟨x, hx, rfl⟩

/-- The keys are different: there is one position for each of them. -/
theorem nodup_keys (h : Indexes key entries index) : (entries.map key).Nodup := by
  rw [List.nodup_iff_getElem?_ne_getElem?]
  intro i j hij hj heq
  rw [List.length_map] at hj
  rw [List.getElem?_map, List.getElem?_map, List.getElem?_eq_getElem (hij.trans hj),
    List.getElem?_eq_getElem hj, Option.map_some, Option.map_some, Option.some.injEq] at heq
  have hi := h.lookup_key (List.getElem?_eq_getElem (hij.trans hj))
  rw [heq, h.lookup_key (List.getElem?_eq_getElem hj), Option.some.injEq] at hi
  omega

theorem find_eq_some_iff (h : Indexes key entries index) {k : κ} {x : α} :
    find entries index k = some x ↔ x ∈ entries ∧ key x = k := by
  rw [find, Option.bind_eq_some_iff]
  constructor
  · rintro ⟨i, hi, hx⟩
    obtain ⟨y, hy, hkey⟩ := (h k i).mp hi
    obtain rfl := Option.some.inj (hx.symm.trans hy)
    exact ⟨List.mem_of_getElem? hx, hkey⟩
  · rintro ⟨hmem, rfl⟩
    obtain ⟨i, hi⟩ := List.mem_iff_getElem?.mp hmem
    exact ⟨i, h.lookup_key hi, hi⟩

theorem mem_iff (h : Indexes key entries index) {k : κ} :
    k ∈ index ↔ k ∈ entries.map key := by
  rw [List.mem_map, ← Finmap.lookup_isSome, Option.isSome_iff_exists]
  constructor
  · rintro ⟨i, hi⟩
    obtain ⟨x, hx, hkey⟩ := (h k i).mp hi
    exact ⟨x, List.mem_of_getElem? hx, hkey⟩
  · rintro ⟨x, hmem, rfl⟩
    obtain ⟨i, hi⟩ := List.mem_iff_getElem?.mp hmem
    exact ⟨i, h.lookup_key hi⟩

theorem push (h : Indexes key entries index) {x : α} (hx : key x ∉ index) :
    Indexes key (entries ++ [x]) (index.insert (key x) entries.length) := by
  intro k i
  have hentries : (∃ y, (entries ++ [x])[i]? = some y ∧ key y = k) ↔
      index.lookup k = some i ∨ i = entries.length ∧ key x = k := by
    simp only [getElem?_concat_eq_some_iff, h k i, or_and_right, exists_or, and_assoc,
      exists_and_left, exists_eq_left']
  rw [hentries]
  by_cases hk : k = key x
  · subst hk
    rw [Finmap.lookup_insert, Finmap.lookup_eq_none.mpr hx, Option.some.injEq]
    constructor
    · rintro rfl
      exact Or.inr ⟨rfl, rfl⟩
    · rintro (hnone | ⟨rfl, -⟩)
      · cases hnone
      · rfl
  · rw [Finmap.lookup_insert_of_ne _ hk]
    constructor
    · exact Or.inl
    · rintro (hold | ⟨-, hkey⟩)
      · exact hold
      · exact absurd hkey.symm hk

theorem set (h : Indexes key entries index) {i : Nat} {x y : α} (hx : entries[i]? = some x)
    (hkey : key y = key x) : Indexes key (entries.set i y) index := by
  intro k j
  rw [h k j]
  rcases eq_or_ne i j with rfl | hne
  · rw [List.getElem?_set_self (List.getElem?_eq_some_iff.mp hx).1, hx]
    simp only [Option.some.injEq, exists_eq_left', hkey]
  · rw [List.getElem?_set_ne hne]

/-- The entry at the position of a key is the one with the key, so changing the one is
changing the other. -/
theorem set_eq_map (h : Indexes key entries index) {k : κ} {i : Nat} {x : α}
    (hi : index.lookup k = some i) (hx : entries[i]? = some x) (f : α → α) :
    entries.set i (f x) = entries.map fun y => if key y = k then f y else y := by
  refine List.ext_getElem? ?_
  intro j
  rw [List.getElem?_map]
  rcases eq_or_ne i j with rfl | hne
  · obtain ⟨y, hy, hkey⟩ := (h k i).mp hi
    obtain rfl := Option.some.inj (hx.symm.trans hy)
    rw [List.getElem?_set_self (List.getElem?_eq_some_iff.mp hx).1, hx, Option.map_some,
      if_pos hkey]
  · rw [List.getElem?_set_ne hne]
    cases hy : entries[j]? with
    | none => rfl
    | some y =>
        have hother : key y ≠ k := by
          intro hkey
          have hj := h.lookup_key hy
          rw [hkey, hi, Option.some.injEq] at hj
          exact hne hj
        rw [Option.map_some, if_neg hother]

end Indexes

end Indexed
