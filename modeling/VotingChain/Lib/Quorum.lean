/-
# `VotingChain.Lib.Quorum` — collecting votes, and quorums that meet

Votes arrive as a sequence of ballots.  A ballot is for a key (what is voted on) and
brings a set of voters; the voters of a key are collected over all its ballots
(`voters`).  Who has been collected depends on the set of ballots only, not on their
order or on repetitions (`voters_congr`), and can only grow (`voters_mono`).

Two sets of voters with together more members than there are voters have one in
common (`card_add_card_le`).  So if nobody votes for two keys of the same slot, two
keys of a slot do not both collect a majority (`not_both_quorate`).

The last section is about counting a list of names where a set was meant: the length
of the list exceeds the number of members named by the entries that repeat a later
one or name nobody of the set (`wasted`).
-/
import Mathlib.Data.Finset.Card

namespace Quorum

section Voters
variable {ι κ α : Type} [DecidableEq κ] [DecidableEq α] (key : ι → κ) (ballot : ι → Finset α)

/-- Who has voted for `k` in a sequence of ballots. -/
def voters (ballots : List ι) (k : κ) : Finset α :=
  ballots.foldl (fun s b => if key b = k then s ∪ ballot b else s) ∅

variable {key ballot}

@[simp] theorem voters_nil (k : κ) : voters key ballot [] k = ∅ := rfl

theorem voters_concat (ballots : List ι) (b : ι) (k : κ) :
    voters key ballot (ballots ++ [b]) k =
      if key b = k then voters key ballot ballots k ∪ ballot b
      else voters key ballot ballots k := by
  rw [voters, List.foldl_append, List.foldl_cons, List.foldl_nil, voters]

theorem mem_voters {ballots : List ι} {k : κ} {a : α} :
    a ∈ voters key ballot ballots k ↔ ∃ b ∈ ballots, key b = k ∧ a ∈ ballot b := by
  induction ballots using List.reverseRecOn with
  | nil => simp
  | append_singleton ballots b ih =>
      rw [voters_concat]
      by_cases hb : key b = k
      · rw [if_pos hb, Finset.mem_union, ih]
        simp [or_and_right, exists_or, hb]
      · rw [if_neg hb, ih]
        simp [or_and_right, exists_or, hb]

theorem voters_map {γ : Type} (f : γ → ι) (ballots : List γ) (k : κ) :
    voters key ballot (ballots.map f) k =
      voters (fun b => key (f b)) (fun b => ballot (f b)) ballots k := by
  rw [voters, List.foldl_map, voters]

theorem voters_congr {ballots ballots' : List ι} (h : ∀ b, b ∈ ballots ↔ b ∈ ballots') (k : κ) :
    voters key ballot ballots k = voters key ballot ballots' k := by
  ext a
  simp only [mem_voters, h]

theorem voters_mono {ballots ballots' : List ι} (h : ∀ b ∈ ballots, b ∈ ballots') (k : κ) :
    voters key ballot ballots k ⊆ voters key ballot ballots' k := by
  intro a ha
  obtain ⟨b, hb, hrest⟩ := mem_voters.mp ha
  exact mem_voters.mpr ⟨b, h b hb, hrest⟩

theorem voters_subset {ballots : List ι} {V : Finset α} (h : ∀ b ∈ ballots, ballot b ⊆ V) (k : κ) :
    voters key ballot ballots k ⊆ V := by
  intro a ha
  obtain ⟨b, hb, -, hmem⟩ := mem_voters.mp ha
  exact h b hb hmem

end Voters

/-! ## Quorums meet -/

section Intersection
variable {α : Type} [DecidableEq α] {V s t : Finset α}

theorem card_add_card_le (hs : s ⊆ V) (ht : t ⊆ V) :
    s.card + t.card ≤ V.card + (s ∩ t).card := by
  rw [← Finset.card_union_add_card_inter]
  have := Finset.card_le_card (Finset.union_subset hs ht)
  omega

theorem exists_mem_inter {q : Nat} (hq : V.card < 2 * q) (hs : s ⊆ V) (ht : t ⊆ V)
    (hqs : q ≤ s.card) (hqt : q ≤ t.card) : ∃ a, a ∈ s ∧ a ∈ t := by
  have hmeet := card_add_card_le hs ht
  obtain ⟨a, ha⟩ := Finset.card_pos.mp (show 0 < (s ∩ t).card by omega)
  exact ⟨a, Finset.mem_inter.mp ha⟩

variable {ι κ ν : Type} [DecidableEq κ] {key : ι → κ} {ballot : ι → Finset α}

/-- **Agreement.**  Ballots for one key are for one slot, and nobody is on two ballots
of a slot for different keys.  Then two keys of a slot do not both have a majority. -/
theorem not_both_quorate (slot : ι → ν) {q : Nat} {ballots : List ι} (hq : V.card < 2 * q)
    (hmem : ∀ b ∈ ballots, ballot b ⊆ V)
    (hslot : ∀ b ∈ ballots, ∀ b' ∈ ballots, key b = key b' → slot b = slot b')
    (honce : ∀ b ∈ ballots, ∀ b' ∈ ballots, key b ≠ key b' → slot b = slot b' →
      ∀ a ∈ ballot b, a ∉ ballot b')
    {b b' : ι} (hb : b ∈ ballots) (hb' : b' ∈ ballots) (hkey : key b ≠ key b')
    (hsame : slot b = slot b') (hquorate : q ≤ (voters key ballot ballots (key b)).card) :
    ¬ q ≤ (voters key ballot ballots (key b')).card := by
  intro hquorate'
  obtain ⟨a, ha, ha'⟩ := exists_mem_inter hq (voters_subset hmem (key b))
    (voters_subset hmem (key b')) hquorate hquorate'
  -- the common voter is on one ballot for each of the two keys
  obtain ⟨c, hc, hckey, hac⟩ := mem_voters.mp ha
  obtain ⟨c', hc', hckey', hac'⟩ := mem_voters.mp ha'
  refine honce c hc c' hc' ?_ ?_ a hac hac'
  · rwa [hckey, hckey']
  · rw [hslot c hc b hb hckey, hsame, hslot c' hc' b' hb' hckey']

end Intersection

/-! ## Lists of names -/

section Names
variable {α : Type} [DecidableEq α] (V : Finset α)

/-- The members named by a list. -/
def members (names : List α) : Finset α := names.toFinset ∩ V

/-- The entries of a list that repeat a later one or name nobody of the set. -/
def wasted : List α → Nat
  | [] => 0
  | a :: names => (if a ∈ V ∧ a ∉ names then 0 else 1) + wasted names

theorem length_eq_card_add_wasted (names : List α) :
    names.length = (members V names).card + wasted V names := by
  induction names with
  | nil => simp [members, wasted]
  | cons a names ih =>
      simp only [List.length_cons, ih, wasted, members, List.toFinset_cons]
      by_cases ha : a ∈ V ∧ a ∉ names
      · have hnew : a ∉ names.toFinset ∩ V :=
          fun h => ha.2 (List.mem_toFinset.mp (Finset.mem_inter.mp h).1)
        rw [if_pos ha, Finset.insert_inter_of_mem ha.1, Finset.card_insert_of_notMem hnew]
        omega
      · have hsame : insert a names.toFinset ∩ V = names.toFinset ∩ V := by
          ext x
          simp only [Finset.mem_inter, Finset.mem_insert, List.mem_toFinset]
          constructor
          · rintro ⟨rfl | hx, hV⟩
            · exact ⟨not_not.mp fun h => ha ⟨hV, h⟩, hV⟩
            · exact ⟨hx, hV⟩
          · rintro ⟨hx, hV⟩
            exact ⟨Or.inr hx, hV⟩
        rw [if_neg ha, hsame]
        omega

theorem card_toFinset_eq (names : List α) :
    names.toFinset.card = (members V names).card + (names.toFinset \ V).card := by
  rw [members, Finset.card_inter_add_card_sdiff]

end Names

end Quorum
