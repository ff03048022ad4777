/-
# `VotingChain.MerkleRoots` — which lists have the same Merkle root

The root does not determine the list.  A node without a neighbour is hashed with itself, so it
might as well be there twice; and a hash of two nodes is not marked as one, so it might as well
be a leaf.  These are the only reasons: `root_eq_iff` says which lists have the same root.
-/
import VotingChain.Reference

namespace VotingChain.MerkleTree
variable {P : Primitives}

/-- The strings that are hashed for the one tree and for the other. -/
def bothInputs (P : Primitives) (hashes hashes' : List BlockHash) : Set Bytes :=
  {x | x ∈ treeInputs P hashes ∨ x ∈ treeInputs P hashes'}

/-- The height of the lower one of two trees. -/
def lowerHeight (hashes hashes' : List BlockHash) : Nat :=
  if PairTree.height hashes ≤ PairTree.height hashes' then PairTree.height hashes
  else PairTree.height hashes'

/-- The level of the tree that is so many levels below the root, completed by the nodes that
are hashed with themselves. -/
def completedBelowRoot (P : Primitives) (hashes : List BlockHash) (depth : Nat) : List BlockHash :=
  PairTree.complete depth
    (PairTree.level (hashPair P) hashes (PairTree.height hashes - depth))

theorem lowerHeight_le (hashes hashes' : List BlockHash) :
    lowerHeight hashes hashes' ≤ PairTree.height hashes ∧
      lowerHeight hashes hashes' ≤ PairTree.height hashes' := by
  rw [lowerHeight]
  split
  · rename_i hle
    exact ⟨Nat.le_refl _, hle⟩
  · rename_i hlt
    exact ⟨Nat.le_of_not_le hlt, Nat.le_refl _⟩

theorem root_ne_zero {hashes : List BlockHash} (hne : hashes ≠ [])
    (hleaf : BlockHash.zero ∉ hashes)
    (hhash : ∀ x ∈ treeInputs P hashes, (⟨P.blake2b256 x⟩ : BlockHash) ≠ BlockHash.zero) :
    (new P hashes).root ≠ BlockHash.zero := by
  obtain ⟨htop, hpairs⟩ := new_root P hne
  intro hzero
  have hmem : BlockHash.zero ∈ PairTree.level (hashPair P) hashes (PairTree.height hashes) := by
    rw [htop, hzero]
    exact List.mem_singleton_self _
  cases hheight : PairTree.height hashes with
  | zero =>
      rw [hheight] at hmem
      exact hleaf hmem
  | succ k =>
      rw [hheight, PairTree.level_succ, PairTree.nextLevel] at hmem
      obtain ⟨p, hp, hjoin⟩ := List.mem_map.mp hmem
      refine hhash _ (hpairs k (by omega) p hp) ?_
      rw [← join_hashPair]
      exact hjoin

theorem level_level (hashes : List BlockHash) (j k : Nat) :
    PairTree.level (hashPair P) (PairTree.level (hashPair P) hashes j) k =
      PairTree.level (hashPair P) hashes (k + j) :=
  (Function.iterate_add_apply _ k j hashes).symm

theorem level_belowRoot {hashes : List BlockHash} (hne : hashes ≠ []) {depth : Nat}
    (hdepth : depth ≤ PairTree.height hashes) :
    PairTree.level (hashPair P)
      (PairTree.level (hashPair P) hashes (PairTree.height hashes - depth)) depth =
      [(new P hashes).root] := by
  rw [level_level, Nat.add_sub_cancel' hdepth, (new_root P hne).1]

theorem pairs_belowRoot {hashes : List BlockHash} (hne : hashes ≠ []) {depth : Nat}
    (hdepth : depth ≤ PairTree.height hashes) :
    ∀ j < depth, ∀ p ∈ PairTree.pairUp (PairTree.level (hashPair P)
      (PairTree.level (hashPair P) hashes (PairTree.height hashes - depth)) j),
      pairInput p ∈ treeInputs P hashes := by
  intro j hj p hp
  rw [level_level] at hp
  exact (new_root P hne).2 _ (by omega) p hp

/-- Trees that are not empty have the same root if they agree on the level that is the lowest
one of the lower tree, completed. -/
theorem root_eq_iff_of_ne_nil {hashes hashes' : List BlockHash} (hne : hashes ≠ [])
    (hne' : hashes' ≠ []) (hinj : Set.InjOn P.blake2b256 (bothInputs P hashes hashes')) :
    (new P hashes).root = (new P hashes').root ↔
      completedBelowRoot P hashes (lowerHeight hashes hashes') =
        completedBelowRoot P hashes' (lowerHeight hashes hashes') := by
  obtain ⟨hle, hle'⟩ := lowerHeight_le hashes hashes'
  have hlevel := PairTree.level_eq_iff (hashPair_injOn hinj) (lowerHeight hashes hashes')
    (fun j hj p hp => Or.inl (pairs_belowRoot hne hle j hj p hp))
    (fun j hj p hp => Or.inr (pairs_belowRoot hne' hle' j hj p hp))
  rw [level_belowRoot hne hle, level_belowRoot hne' hle', List.singleton_inj] at hlevel
  exact hlevel

/-- **Which lists have the same root.**  The hash function tells the strings apart that are
hashed for the two trees, and neither a hash nor a leaf is zero.  The roots are the same if and
only if both lists are empty or neither is, and the list of the lower tree, completed, is the
completed level of the other tree that is as far below the root.  Lists of one length with the
same root are the same. -/
theorem root_eq_iff (hashes hashes' : List BlockHash)
    (hinj : Set.InjOn P.blake2b256 (bothInputs P hashes hashes'))
    (hzero : ∀ x ∈ bothInputs P hashes hashes', (⟨P.blake2b256 x⟩ : BlockHash) ≠ BlockHash.zero)
    (hleaf : BlockHash.zero ∉ hashes) (hleaf' : BlockHash.zero ∉ hashes') :
    ((new P hashes).root = (new P hashes').root ↔
      (hashes = [] ↔ hashes' = []) ∧
      completedBelowRoot P hashes (lowerHeight hashes hashes') =
        completedBelowRoot P hashes' (lowerHeight hashes hashes')) ∧
    ((new P hashes).root = (new P hashes').root → hashes.length = hashes'.length →
      hashes = hashes') := by
  constructor
  · by_cases hne : hashes = []
    · subst hne
      by_cases hne' : hashes' = []
      · subst hne'
        exact iff_of_true rfl ⟨Iff.rfl, rfl⟩
      · refine iff_of_false ?_ fun h => hne' (h.1.mp rfl)
        exact fun hroot => root_ne_zero hne' hleaf' (fun x hx => hzero x (Or.inr hx)) hroot.symm
    · by_cases hne' : hashes' = []
      · subst hne'
        refine iff_of_false ?_ fun h => hne (h.1.mpr rfl)
        exact root_ne_zero hne hleaf fun x hx => hzero x (Or.inl hx)
      · rw [root_eq_iff_of_ne_nil hne hne' hinj, and_iff_right (iff_of_false hne hne')]
  · intro hroot hlen
    by_cases hne : hashes = []
    · subst hne
      exact (List.eq_nil_of_length_eq_zero hlen.symm).symm
    · exact leaves_eq_of_root_eq hinj hne hlen (fun x hx => Or.inl hx) (fun x hx => Or.inr hx) hroot

/-! ## Different lists with the same root -/

/-- The last of three leaves is hashed with itself, so it might be there twice. -/
theorem root_three (x y z : BlockHash) : (new P [x, y, z]).root = (new P [x, y, z, z]).root := rfl

/-- The hash of two leaves might be a leaf. -/
theorem root_hashPair (x y : BlockHash) : (new P [x, y]).root = (new P [hashPair P x y]).root := rfl

/-- A leaf, and the hash of two of them. -/
def leaf : BlockHash := ⟨Reference.key.bytes⟩

def twoLeaves : BlockHash := hashPair Reference.primitives leaf leaf

def fourLeaves : BlockHash := hashPair Reference.primitives twoLeaves twoLeaves

theorem leaf_ne_zero : leaf ≠ BlockHash.zero := by decide

theorem twoLeaves_ne_zero : twoLeaves ≠ BlockHash.zero := by decide +kernel

theorem fourLeaves_ne_zero : fourLeaves ≠ BlockHash.zero := by decide +kernel

theorem twoLeaves_ne_fourLeaves : twoLeaves ≠ fourLeaves := by decide +kernel

/-- Three leaves and four: two strings are hashed. -/
theorem mem_bothInputs_three {x : Bytes}
    (hx : x ∈ bothInputs Reference.primitives [leaf, leaf, leaf] [leaf, leaf, leaf, leaf]) :
    x = pairInput (leaf, leaf) ∨ x = pairInput (twoLeaves, twoLeaves) := by
  have hthree : treeInputs Reference.primitives [leaf, leaf, leaf] =
      [pairInput (leaf, leaf), pairInput (leaf, leaf), pairInput (twoLeaves, twoLeaves)] := rfl
  have hfour : treeInputs Reference.primitives [leaf, leaf, leaf, leaf] =
      [pairInput (leaf, leaf), pairInput (leaf, leaf), pairInput (twoLeaves, twoLeaves)] := rfl
  have hmem : ∀ {y z : Bytes}, x ∈ [y, y, z] → x = y ∨ x = z := by
    intro y z h
    rcases List.mem_cons.mp h with h | h
    · exact Or.inl h
    · rcases List.mem_cons.mp h with h | h
      · exact Or.inl h
      · exact Or.inr (List.mem_singleton.mp h)
  rcases hx with hx | hx
  · rw [hthree] at hx
    exact hmem hx
  · rw [hfour] at hx
    exact hmem hx

theorem hash_pairInput (l r : BlockHash) :
    (⟨Reference.primitives.blake2b256 (pairInput (l, r))⟩ : BlockHash) =
      hashPair Reference.primitives l r :=
  (join_hashPair Reference.primitives (l, r)).symm

theorem injOn_three : Set.InjOn Reference.primitives.blake2b256
    (bothInputs Reference.primitives [leaf, leaf, leaf] [leaf, leaf, leaf, leaf]) := by
  have hne : Reference.primitives.blake2b256 (pairInput (leaf, leaf)) ≠
      Reference.primitives.blake2b256 (pairInput (twoLeaves, twoLeaves)) := by
    intro h
    have hhash := congrArg BlockHash.mk h
    rw [hash_pairInput, hash_pairInput] at hhash
    exact twoLeaves_ne_fourLeaves hhash
  intro x hx y hy hxy
  rcases mem_bothInputs_three hx with rfl | rfl
  · rcases mem_bothInputs_three hy with rfl | rfl
    · rfl
    · exact absurd hxy hne
  · rcases mem_bothInputs_three hy with rfl | rfl
    · exact absurd hxy.symm hne
    · rfl

theorem nonzero_three {x : Bytes}
    (hx : x ∈ bothInputs Reference.primitives [leaf, leaf, leaf] [leaf, leaf, leaf, leaf]) :
    (⟨Reference.primitives.blake2b256 x⟩ : BlockHash) ≠ BlockHash.zero := by
  rcases mem_bothInputs_three hx with rfl | rfl
  · rw [hash_pairInput]
    exact twoLeaves_ne_zero
  · rw [hash_pairInput]
    exact fourLeaves_ne_zero

theorem zero_not_mem_replicate (n : Nat) : BlockHash.zero ∉ List.replicate n leaf :=
  fun h => leaf_ne_zero (List.eq_of_mem_replicate h).symm

/-- Three leaves, completed, are four. -/
theorem root_eq_iff_three :
    (new Reference.primitives [leaf, leaf, leaf]).root =
      (new Reference.primitives [leaf, leaf, leaf, leaf]).root := by
  refine (root_eq_iff [leaf, leaf, leaf] [leaf, leaf, leaf, leaf] injOn_three
    (fun _ => nonzero_three) (zero_not_mem_replicate 3) (zero_not_mem_replicate 4)).1.mpr ⟨?_, ?_⟩
  · exact iff_of_false (List.cons_ne_nil _ _) (List.cons_ne_nil _ _)
  · rfl

/-- Three leaves have the root of four, and two leaves that of their hash alone. -/
theorem not_root_injective :
    (Set.InjOn Reference.primitives.blake2b256
        (bothInputs Reference.primitives [leaf, leaf, leaf] [leaf, leaf, leaf, leaf]) ∧
      (∀ x ∈ bothInputs Reference.primitives [leaf, leaf, leaf] [leaf, leaf, leaf, leaf],
        (⟨Reference.primitives.blake2b256 x⟩ : BlockHash) ≠ BlockHash.zero) ∧
      BlockHash.zero ∉ [leaf, leaf, leaf] ∧ BlockHash.zero ∉ [leaf, leaf, leaf, leaf] ∧
      (new Reference.primitives [leaf, leaf, leaf]).root =
        (new Reference.primitives [leaf, leaf, leaf, leaf]).root ∧
      [leaf, leaf, leaf] ≠ [leaf, leaf, leaf, leaf]) ∧
    (Set.InjOn Reference.primitives.blake2b256
        (bothInputs Reference.primitives [leaf, leaf] [twoLeaves]) ∧
      (∀ x ∈ bothInputs Reference.primitives [leaf, leaf] [twoLeaves],
        (⟨Reference.primitives.blake2b256 x⟩ : BlockHash) ≠ BlockHash.zero) ∧
      BlockHash.zero ∉ [leaf, leaf] ∧ BlockHash.zero ∉ [twoLeaves] ∧
      (new Reference.primitives [leaf, leaf]).root = (new Reference.primitives [twoLeaves]).root ∧
      [leaf, leaf] ≠ [twoLeaves]) := by
  have hone : ∀ x ∈ bothInputs Reference.primitives [leaf, leaf] [twoLeaves],
      x = pairInput (leaf, leaf) := by
    rintro x (hx | hx)
    · exact List.mem_singleton.mp hx
    · exact absurd hx List.not_mem_nil
  constructor
  · refine ⟨injOn_three, fun _ => nonzero_three, zero_not_mem_replicate 3,
      zero_not_mem_replicate 4, root_three leaf leaf leaf, ?_⟩
    intro heq
    cases congrArg List.length heq
  · refine ⟨?_, ?_, zero_not_mem_replicate 2, ?_, root_hashPair leaf leaf, ?_⟩
    · intro x hx y hy _
      rw [hone x hx, hone y hy]
    · intro x hx
      rw [hone x hx, hash_pairInput]
      exact twoLeaves_ne_zero
    · exact fun h => twoLeaves_ne_zero (List.mem_singleton.mp h).symm
    · intro heq
      have hlen : [leaf, leaf].length = [twoLeaves].length := congrArg List.length heq
      rw [List.length_cons, List.length_cons, List.length_cons] at hlen
      omega

end VotingChain.MerkleTree
