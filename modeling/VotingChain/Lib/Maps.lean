/-
# `VotingChain.Lib.Maps` — finite maps: loops, listings, inverses

Three things that programs do with maps, seen through `lookup`.

A loop inserts one value under every key of a list, or erases every key of a list.  The keys
are `f x` for the elements `x` of a list, since loops run over records and not over their keys.
`retain` erases all entries that do not pass a test, and `card_filter_keys` counts those that
do.

A hash map lists its entries in an order that is nobody's business; a sorted store lists them
by their keys.  What can be relied on is that each entry is listed once.  A `MapOrder` is such
a listing, and what is said of its keys and values holds of all of them.

One map gives a value to each key, another leads from the values to records, each with the key
it belongs to.  `Bimap.Inverse` says that the two say the same.  Then different keys have
different values (`Inverse.injective`), and that stays so as long as a new key gets a value
nobody has (`Inverse.insert`).
-/
import Mathlib.Data.Finmap

/-! ## Loops -/

namespace Finmap

variable {α γ β : Type} [DecidableEq α]

theorem lookup_foldl {op : Finmap (fun _ : α => β) → γ → Finmap fun _ : α => β} {f : γ → α} {k : α}
    {w : Option β} (hop : ∀ m x, (op m x).lookup k = if k = f x then w else m.lookup k)
    (xs : List γ) (m : Finmap fun _ : α => β) :
    (xs.foldl op m).lookup k = if k ∈ xs.map f then w else m.lookup k := by
  induction xs generalizing m with
  | nil => simp
  | cons x xs ih =>
      rw [List.foldl_cons, List.map_cons, ih, hop]
      by_cases hxs : k ∈ xs.map f
      · rw [if_pos hxs, if_pos (List.mem_cons_of_mem _ hxs)]
      · rw [if_neg hxs]
        simp only [List.mem_cons, hxs, or_false]

theorem forall_lookup_insert {P : α → β → Prop} {m : Finmap fun _ : α => β} {k : α} {v : β}
    (hm : ∀ k' v', m.lookup k' = some v' → P k' v') (hv : P k v) :
    ∀ k' v', (m.insert k v).lookup k' = some v' → P k' v' := by
  intro k' v' h
  by_cases hk : k' = k
  · subst hk
    rw [lookup_insert, Option.some.injEq] at h
    subst h
    exact hv
  · rw [lookup_insert_of_ne _ hk] at h
    exact hm k' v' h

/-- After inserting `v` under every `f x`, those keys hold `v` and the others
what they held. -/
theorem lookup_foldl_insert (f : γ → α) (v : β) (k : α) (xs : List γ)
    (m : Finmap fun _ : α => β) :
    (xs.foldl (fun m x => m.insert (f x) v) m).lookup k =
      if k ∈ xs.map f then some v else m.lookup k := by
  refine lookup_foldl (fun m x => ?_) xs m
  split
  · next hx =>
      subst hx
      exact lookup_insert m
  · next hx => exact lookup_insert_of_ne m hx

/-- After erasing every `f x`, those keys are gone and the others hold what they
held. -/
theorem lookup_foldl_erase (f : γ → α) (k : α) (xs : List γ) (m : Finmap fun _ : α => β) :
    (xs.foldl (fun m x => m.erase (f x)) m).lookup k =
      if k ∈ xs.map f then none else m.lookup k := by
  refine lookup_foldl (fun m x => ?_) xs m
  split
  · next hx =>
      subst hx
      exact lookup_erase _ m
  · next hx => exact lookup_erase_ne hx

/-- The entries that pass the test. -/
def retain (p : α → β → Bool) (m : Finmap fun _ : α => β) : Finmap fun _ : α => β where
  entries := m.entries.filter fun entry => p entry.1 entry.2
  nodupKeys := Multiset.nodup_keys.mp (Multiset.nodup_of_le
    (Multiset.map_le_map (Multiset.filter_le _ _)) (Multiset.nodup_keys.mpr m.nodupKeys))

theorem lookup_retain_eq_some {p : α → β → Bool} {m : Finmap fun _ : α => β} {k : α} {v : β} :
    (m.retain p).lookup k = some v ↔ m.lookup k = some v ∧ p k v = true := by
  rw [lookup_eq_some_iff, lookup_eq_some_iff]
  exact Multiset.mem_filter

theorem card_filter_keys (p : β → Bool) (m : Finmap fun _ : α => β) :
    (m.keys.filter fun k => (m.lookup k).any p = true).card =
      m.entries.countP fun entry => p entry.2 = true := by
  rw [Finset.card_def, Finset.filter_val, ← Multiset.countP_eq_card_filter]
  show (m.entries.map Sigma.fst).countP _ = _
  rw [Multiset.countP_map, ← Multiset.countP_eq_card_filter]
  refine Multiset.countP_congr rfl ?_
  rintro ⟨k, v⟩ hmem
  rw [mem_lookup_iff.mpr hmem, Option.any_some]

end Finmap

/-! ## Listings -/

/-- A way to list the entries of maps: any order, each entry once. -/
structure MapOrder (κ β : Type) where
  list : Finmap (fun _ : κ => β) → List (Σ _ : κ, β)
  perm : ∀ m, (list m : Multiset (Σ _ : κ, β)) = m.entries

namespace MapOrder
variable {κ β : Type} (order : MapOrder κ β)

/-- There is always some order. -/
noncomputable instance : Inhabited (MapOrder κ β) :=
  ⟨⟨fun m => m.entries.toList, fun m => m.entries.coe_toList⟩⟩

def keys (m : Finmap fun _ : κ => β) : List κ := (order.list m).map Sigma.fst

def values (m : Finmap fun _ : κ => β) : List β := (order.list m).map Sigma.snd

theorem coe_values (m : Finmap fun _ : κ => β) :
    (order.values m : Multiset β) = m.entries.map Sigma.snd := by
  rw [values, ← order.perm m, Multiset.map_coe]

theorem mem_keys {m : Finmap fun _ : κ => β} {k : κ} : k ∈ order.keys m ↔ k ∈ m := by
  rw [Finmap.mem_def, ← order.perm m]
  exact Iff.rfl

theorem nodup_keys (m : Finmap fun _ : κ => β) : (order.keys m).Nodup := by
  rw [keys, ← Multiset.coe_nodup, ← Multiset.map_coe, order.perm]
  exact m.nodupKeys.nodup_keys

theorem mem_values [DecidableEq κ] {m : Finmap fun _ : κ => β} {b : β} :
    b ∈ order.values m ↔ ∃ k, m.lookup k = some b := by
  rw [← Multiset.mem_coe, coe_values, Multiset.mem_map]
  constructor
  · rintro ⟨⟨k, b⟩, hmem, rfl⟩
    exact ⟨k, Finmap.mem_lookup_iff.mpr hmem⟩
  · rintro ⟨k, hk⟩
    exact ⟨⟨k, b⟩, Finmap.mem_lookup_iff.mp hk, rfl⟩

theorem length_values (m : Finmap fun _ : κ => β) :
    (order.values m).length = m.entries.card := by
  rw [← Multiset.coe_card, coe_values, Multiset.card_map]

end MapOrder

/-! ## Inverses -/

namespace Bimap
variable {κ ι β : Type} [DecidableEq κ] [DecidableEq ι] (owner : β → κ)

/-- The value of a key leads to a record that belongs to the key, and to no other. -/
def Inverse (forward : Finmap fun _ : κ => ι) (backward : Finmap fun _ : ι => β) : Prop :=
  ∀ k i, forward.lookup k = some i ↔ ∃ b, backward.lookup i = some b ∧ owner b = k

variable {owner} {forward : Finmap fun _ : κ => ι} {backward : Finmap fun _ : ι => β}

theorem inverse_empty :
    Inverse owner (∅ : Finmap fun _ : κ => ι) (∅ : Finmap fun _ : ι => β) := by
  intro k i
  rw [Finmap.lookup_empty, Finmap.lookup_empty]
  refine iff_of_false nofun ?_
  rintro ⟨b, hb, -⟩
  cases hb

namespace Inverse

theorem injective (h : Inverse owner forward backward) {k k' : κ} {i : ι}
    (hk : forward.lookup k = some i) (hk' : forward.lookup k' = some i) : k = k' := by
  obtain ⟨b, hb, rfl⟩ := (h k i).mp hk
  obtain ⟨b', hb', rfl⟩ := (h k' i).mp hk'
  rw [Option.some.inj (hb.symm.trans hb')]

theorem insert (h : Inverse owner forward backward) {k : κ} {i : ι} {b : β} (hk : k ∉ forward)
    (hi : ∀ k', forward.lookup k' ≠ some i) (hb : owner b = k) :
    Inverse owner (forward.insert k i) (backward.insert i b) := by
  have hback : backward.lookup i = none := by
    rw [Option.eq_none_iff_forall_ne_some]
    intro b' hb'
    exact hi (owner b') ((h _ i).mpr ⟨b', hb', rfl⟩)
  intro k' i'
  by_cases hsame : i' = i
  · subst hsame
    rw [Finmap.lookup_insert]
    simp only [Option.some.injEq, exists_eq_left', hb]
    by_cases hkey : k' = k
    · subst hkey
      rw [Finmap.lookup_insert]
      exact iff_of_true rfl rfl
    · rw [Finmap.lookup_insert_of_ne _ hkey]
      exact iff_of_false (hi k') (Ne.symm hkey)
  · rw [Finmap.lookup_insert_of_ne _ hsame, ← h k' i']
    by_cases hkey : k' = k
    · subst hkey
      rw [Finmap.lookup_insert, Finmap.lookup_eq_none.mpr hk]
      refine iff_of_false ?_ nofun
      intro hother
      exact hsame (Option.some.inj hother).symm
    · rw [Finmap.lookup_insert_of_ne _ hkey]

end Inverse

end Bimap
