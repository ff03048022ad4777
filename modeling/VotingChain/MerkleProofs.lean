/-
# `VotingChain.MerkleProofs` — which proofs there are and what they show

A tree gives a proof for each of its leaves, and the proof verifies
(`generateProof_complete`).

The converse fails.  `verify_proof` climbs from the leaf hash along the siblings and
compares what it arrives at with the root.  It looks neither at `leaf_index` nor at the
number of steps, so a proof may claim any position, and it may begin at an inner node
or below a leaf.  Where it begins is what its directions say, read from the root down; it
shows what it claims exactly if that is the leaf at the claimed index
(`verifyProof_sound_iff`), for instance if the path has as many steps as the tree is high
and takes the turns of that index (`leadsTo_of_turns`).
-/
import Mathlib.Order.Bounds.Basic
import VotingChain.Reference

namespace VotingChain

namespace MerkleTree
variable {P : Primitives}

/-! ## Proofs of leaves -/

theorem collectProof_of_pathOf : ∀ {levels : List (List BlockHash)} {i : Nat}
    {path : List (PairTree.Step BlockHash)}, PairTree.pathOf levels i = some path →
    ∃ proof, collectProof levels i = .ok proof ∧ proofSteps proof = path
  | [], i, path, h => by
      cases h
      exact ⟨[], rfl, rfl⟩
  | level :: rest, i, path, h => by
      simp only [PairTree.pathOf, Option.bind_eq_some_iff, Option.map_eq_some_iff] at h
      obtain ⟨y, hy, path, hrest, rfl⟩ := h
      obtain ⟨proof, hproof, rfl⟩ := collectProof_of_pathOf hrest
      refine ⟨⟨y, decide (i % 2 = 1)⟩ :: proof, ?_, rfl⟩
      rw [PairTree.sibling, PairTree.siblingIndex] at hy
      rw [collectProof, hproof]
      generalize (if i % 2 = 0 then i + 1 else i - 1) = j at hy ⊢
      by_cases hj : j < level.length
      · rw [List.getElem?_eq_getElem hj, Option.some_or, Option.some.injEq] at hy
        simp only [if_pos hj, indexVec, List.getElem?_eq_getElem hj, hy]
        rfl
      · rw [List.getElem?_eq_none (Nat.le_of_not_lt hj), Option.none_or] at hy
        simp only [if_neg hj, indexVec, hy]
        rfl

theorem leaves_new (hashes : List BlockHash) : (new P hashes).leaves = hashes := by
  rw [new]
  split
  · next h => exact (List.isEmpty_iff.mp h).symm
  · rfl

theorem levels_new {hashes : List BlockHash} (hne : hashes ≠ []) :
    (new P hashes).levels = PairTree.levels (hashPair P) hashes.length hashes := by
  rw [new, if_neg (by simpa using hne), ← buildTree_eq]

theorem root_new {hashes : List BlockHash} (hne : hashes ≠ []) {top : BlockHash}
    (htop : (PairTree.levels (hashPair P) hashes.length hashes).getLast? = some [top]) :
    (new P hashes).root = top := by
  simp [new, hne, buildTree_eq, htop]

theorem verifyProof_iff {proof : MerkleProof} : verifyProof P proof = true ↔
    PairTree.climb (hashPair P) proof.leafHash (proofSteps proof.proof) = proof.root := by
  rw [verifyProof, decide_eq_true_eq, foldl_climbNode_eq]

theorem exists_generateProof {hashes : List BlockHash} {i : Nat} {leaf : BlockHash}
    (hleaf : hashes[i]? = some leaf) :
    ∃ proof, (new P hashes).generateProof i = .ok (some proof) ∧ proof.leafHash = leaf ∧
      proof.leafIndex = i ∧ proof.root = (new P hashes).root ∧
      verifyProof P proof = true ∧ proof.size = PairTree.height hashes := by
  have hlt := (List.getElem?_eq_some_iff.mp hleaf).1
  have hne : hashes ≠ [] := List.ne_nil_of_length_pos (by omega)
  obtain ⟨path, hpath, hlast, hheight⟩ :=
    PairTree.climb_pathOf (hashPair P) hashes.length hashes le_rfl hleaf
  obtain ⟨nodes, hnodes, rfl⟩ := collectProof_of_pathOf hpath
  have hgen : (new P hashes).generateProof i =
      .ok (some ⟨leaf, i, nodes, (new P hashes).root⟩) := by
    rw [generateProof, leaves_new, if_neg (by omega), levels_new hne, hnodes]
    simp only [indexVec, hleaf]
    rfl
  refine ⟨⟨leaf, i, nodes, (new P hashes).root⟩, hgen, rfl, rfl, rfl, ?_, ?_⟩
  · exact verifyProof_iff.mpr (root_new hne hlast).symm
  · rw [← hheight, MerkleProof.size, proofSteps, List.length_map]

/-- **Every leaf has a proof.**  It is for that leaf, against the root of the tree, it
verifies, and it has as many hashes as it takes doublings to get from one leaf to all;
there is none for an index outside the tree. -/
theorem generateProof_complete (hashes : List BlockHash) :
    (∀ i, (hi : i < hashes.length) →
      ∃ proof, (new P hashes).generateProof i = .ok (some proof) ∧
        proof.leafHash = hashes[i] ∧ proof.root = (new P hashes).root ∧
        verifyProof P proof = true ∧ IsLeast {k | hashes.length ≤ 2 ^ k} proof.size) ∧
    ∀ i, hashes.length ≤ i → (new P hashes).generateProof i = .ok none := by
  constructor
  · intro i hi
    obtain ⟨proof, hgen, hleaf, -, hroot, hverify, hsize⟩ :=
      exists_generateProof (P := P) (List.getElem?_eq_getElem hi)
    refine ⟨proof, hgen, hleaf, hroot, hverify, ?_⟩
    rw [hsize, PairTree.height]
    constructor
    · exact Nat.le_pow_clog Nat.one_lt_two _
    · intro k hk
      exact Nat.clog_le_of_le_pow hk
  · intro i hi
    rw [generateProof, leaves_new, if_pos hi]

/-- The last of three leaves, which is its own sibling. -/
theorem generateProof_complete_three :
    ∃ proof, generateProof
        (new Reference.primitives [BlockHash.zero, ⟨Reference.key.bytes⟩, BlockHash.zero]) 2 =
          .ok (some proof) ∧
      proof.leafHash = BlockHash.zero ∧ verifyProof Reference.primitives proof = true ∧
      proof.size = 2 := by
  obtain ⟨proof, hgen, hleaf, -, hverify, hleast⟩ :=
    (generateProof_complete (P := Reference.primitives)
      [BlockHash.zero, ⟨Reference.key.bytes⟩, BlockHash.zero]).1 2 (by decide)
  refine ⟨proof, hgen, hleaf, hverify, ?_⟩
  have htwo : IsLeast {k | 3 ≤ 2 ^ k} 2 := by
    refine ⟨by decide, ?_⟩
    intro k hk
    rcases k with _ | _ | k
    · exact absurd hk (by decide)
    · exact absurd hk (by decide)
    · exact Nat.le_add_left 2 k
  exact hleast.unique htwo

/-! ## What a proof shows -/

/-- The steps of a path that are inside the tree: the last ones, and not more than the tree
is high. -/
def stepsInside (hashes : List BlockHash) (nodes : List ProofNode) : List ProofNode :=
  nodes.drop (nodes.length - PairTree.height hashes)

/-- The steps of a path that are left over: those it takes below a leaf. -/
def stepsBelow (hashes : List BlockHash) (nodes : List ProofNode) : List ProofNode :=
  nodes.take (nodes.length - PairTree.height hashes)

/-- The node of the tree that the directions of a path lead down to from the root. -/
def nodeBelowRoot (P : Primitives) (hashes : List BlockHash) (nodes : List ProofNode) :
    Option BlockHash :=
  (PairTree.level (hashPair P) hashes
    (PairTree.height hashes - (stepsInside hashes nodes).length))[
      PairTree.start (hashPair P) hashes (PairTree.height hashes)
        ((stepsInside hashes nodes).map ProofNode.isLeft)]?

/-- The directions of a path lead down from the root to the leaf at position `i`.  If the
path has more steps than the tree is high, they lead down to a leaf, and the steps that are
left over lead from the leaf at position `i` to that one. -/
def LeadsTo (P : Primitives) (hashes : List BlockHash) (nodes : List ProofNode) (i : Nat) : Prop :=
  ∃ leaf, hashes[i]? = some leaf ∧
    nodeBelowRoot P hashes nodes =
      some (PairTree.climb (hashPair P) leaf (proofSteps (stepsBelow hashes nodes)))

theorem map_isLeft_proofSteps (nodes : List ProofNode) :
    (proofSteps nodes).map PairTree.Step.isLeft = nodes.map ProofNode.isLeft := by
  rw [proofSteps, List.map_map]
  rfl

theorem leadsTo_of_turns {hashes : List BlockHash} {nodes : List ProofNode} {i : Nat}
    (hi : i < hashes.length)
    (hturns : nodes.map ProofNode.isLeft = PairTree.turns (PairTree.height hashes) i) :
    LeadsTo P hashes nodes i := by
  have hlen : nodes.length = PairTree.height hashes := by
    have hlens := congrArg List.length hturns
    rwa [List.length_map, PairTree.turns, List.length_map, List.length_range] at hlens
  have hinside : stepsInside hashes nodes = nodes := by
    rw [stepsInside, hlen, Nat.sub_self, List.drop_zero]
  have hbelow : stepsBelow hashes nodes = [] := by
    rw [stepsBelow, hlen, Nat.sub_self, List.take_zero]
  have htop : (PairTree.level (hashPair P) hashes (PairTree.height hashes)).length = 1 := by
    rw [(new_root P (List.ne_nil_of_length_pos (Nat.zero_lt_of_lt hi))).1, List.length_singleton]
  refine ⟨hashes[i], List.getElem?_eq_getElem hi, ?_⟩
  rw [nodeBelowRoot, hinside, hbelow, hturns, PairTree.start_turns _ hi htop, hlen, Nat.sub_self]
  exact List.getElem?_eq_getElem hi

/-- The strings that decide what a proof shows: those hashed for the tree, those hashed
along the path, and those hashed along it from the leaf that the index names. -/
def soundnessInputs (P : Primitives) (hashes : List BlockHash) (proof : MerkleProof) : Set Bytes :=
  {x | x ∈ treeInputs P hashes ∨ x ∈ proofInputs P proof ∨
    ∃ leaf, hashes[proof.leafIndex]? = some leaf ∧
      x ∈ proofInputs P { proof with leafHash := leaf }}

theorem pairInput_mem_of_below {hashes : List BlockHash} (proof : MerkleProof)
    {p : BlockHash × BlockHash}
    (h : p ∈ PairTree.pathPairs (hashPair P) proof.leafHash
      (proofSteps (stepsBelow hashes proof.proof))) : pairInput p ∈ proofInputs P proof := by
  refine List.mem_map_of_mem ?_
  rw [← List.take_append_drop (proof.proof.length - PairTree.height hashes) proof.proof,
    proofSteps, List.map_append, PairTree.pathPairs_append]
  exact List.mem_append_left _ h

/-- **Where a proof that verifies begins.**  The steps that are left over lead from its
leaf to the node that its directions lead down to. -/
theorem nodeBelowRoot_of_verifyProof {hashes : List BlockHash} {proof : MerkleProof}
    {S : Set Bytes} (hinj : Set.InjOn P.blake2b256 S) (htree : ∀ x ∈ treeInputs P hashes, x ∈ S)
    (hpath : ∀ x ∈ proofInputs P proof, x ∈ S) (hne : hashes ≠ [])
    (hroot : proof.root = (new P hashes).root) (hverify : verifyProof P proof = true) :
    nodeBelowRoot P hashes proof.proof =
      some (PairTree.climb (hashPair P) proof.leafHash
        (proofSteps (stepsBelow hashes proof.proof))) := by
  obtain ⟨htop, hpairs⟩ := new_root P hne
  have hsplit : proofSteps proof.proof =
      proofSteps (stepsBelow hashes proof.proof) ++
        proofSteps (stepsInside hashes proof.proof) := by
    rw [stepsBelow, stepsInside, proofSteps, proofSteps, proofSteps, ← List.map_append,
      List.take_append_drop]
  have hlen : (proofSteps (stepsInside hashes proof.proof)).length ≤ PairTree.height hashes := by
    rw [proofSteps, List.length_map, stepsInside, List.length_drop]
    omega
  have hclimb := verifyProof_iff.mp hverify
  rw [hsplit, PairTree.climb_append, hroot] at hclimb
  have hstart := PairTree.climb_start (hashPair_injOn hinj)
    (fun k hk p hp => htree _ (hpairs k hk p hp)) (proofSteps (stepsInside hashes proof.proof))
    hlen ?_ (by rw [htop, hclimb, List.getElem?_cons_zero])
  · rwa [map_isLeft_proofSteps, proofSteps, List.length_map] at hstart
  · intro p hp
    refine hpath _ (List.mem_map_of_mem ?_)
    rw [hsplit, PairTree.pathPairs_append]
    exact List.mem_append_right _ hp

/-- **What a proof that verifies shows.**  It is a proof of the leaf it names exactly if
its directions lead down from the root to the leaf at the index it names. -/
theorem verifyProof_sound_iff {hashes : List BlockHash} (hne : hashes ≠ []) {proof : MerkleProof}
    (hinj : Set.InjOn P.blake2b256 (soundnessInputs P hashes proof))
    (hroot : proof.root = (new P hashes).root) (hverify : verifyProof P proof = true) :
    (∃ hi : proof.leafIndex < hashes.length, hashes[proof.leafIndex] = proof.leafHash) ↔
      LeadsTo P hashes proof.proof proof.leafIndex := by
  have hnode := nodeBelowRoot_of_verifyProof hinj (fun x hx => Or.inl hx)
    (fun x hx => Or.inr (Or.inl hx)) hne hroot hverify
  constructor
  · rintro ⟨hi, hleaf⟩
    exact ⟨proof.leafHash, List.getElem?_eq_some_iff.mpr ⟨hi, hleaf⟩, hnode⟩
  · rintro ⟨leaf, hleaf, hleads⟩
    -- the steps that are left over lead from different nodes to different nodes
    have heq : leaf = proof.leafHash := by
      refine PairTree.climb_inj (hashPair_injOn hinj)
        (proofSteps (stepsBelow hashes proof.proof)) ?_ ?_
        (Option.some.inj (hleads.symm.trans hnode))
      · intro p hp
        exact Or.inr (Or.inr ⟨leaf, hleaf,
          pairInput_mem_of_below { proof with leafHash := leaf } hp⟩)
      · intro p hp
        exact Or.inr (Or.inl (pairInput_mem_of_below proof hp))
    rw [← heq]
    exact List.getElem?_eq_some_iff.mp hleaf

/-! ### The two leaves of a tree -/

/-- A proof in the tree over two leaves, of the first one, under some index. -/
def firstOfTwo (P : Primitives) (a b : BlockHash) (leafIndex : Nat) : MerkleProof where
  leafHash := a
  leafIndex := leafIndex
  proof := [⟨b, false⟩]
  root := hashPair P a b

theorem root_two (a b : BlockHash) : (new P [a, b]).root = hashPair P a b := rfl

/-- The root is all that is recomputed, so the index may be any. -/
theorem verifyProof_firstOfTwo (a b : BlockHash) (leafIndex : Nat) :
    verifyProof P (firstOfTwo P a b leafIndex) = true :=
  verifyProof_iff.mpr rfl

theorem injOn_firstOfTwo {a b : BlockHash} {i : Nat}
    (h : ∀ leaf, [a, b][i]? = some leaf → leaf = a) :
    Set.InjOn P.blake2b256 (soundnessInputs P [a, b] (firstOfTwo P a b i)) := by
  have hone : ∀ x ∈ soundnessInputs P [a, b] (firstOfTwo P a b i), x = pairInput (a, b) := by
    rintro x (hx | hx | ⟨leaf, hleaf, hx⟩)
    · exact List.mem_singleton.mp hx
    · exact List.mem_singleton.mp hx
    · rw [h leaf hleaf] at hx
      exact List.mem_singleton.mp hx
  intro x hx y hy _
  rw [hone x hx, hone y hy]

/-- To the left from the root of two leaves is the first one. -/
theorem verifyProof_sound_iff_first :
    ∃ hi : 0 < [BlockHash.zero, ⟨Reference.key.bytes⟩].length,
      [BlockHash.zero, ⟨Reference.key.bytes⟩][0] = BlockHash.zero := by
  have hinj := injOn_firstOfTwo (P := Reference.primitives) (a := BlockHash.zero)
    (b := ⟨Reference.key.bytes⟩) (i := 0) fun _ h => (Option.some.inj h).symm
  exact (verifyProof_sound_iff (List.cons_ne_nil _ _) hinj (root_two _ _).symm
    (verifyProof_firstOfTwo _ _ 0)).mpr (leadsTo_of_turns (by decide) rfl)

/-- The proof of the first of two leaves still verifies when it says it is of the
eighth. -/
theorem verifyProof_wrong_index :
    Set.InjOn Reference.primitives.blake2b256
      (soundnessInputs Reference.primitives [BlockHash.zero, ⟨Reference.key.bytes⟩]
        (firstOfTwo Reference.primitives BlockHash.zero ⟨Reference.key.bytes⟩ 7)) ∧
    (firstOfTwo Reference.primitives BlockHash.zero ⟨Reference.key.bytes⟩ 7).root =
      (new Reference.primitives [BlockHash.zero, ⟨Reference.key.bytes⟩]).root ∧
    verifyProof Reference.primitives
      (firstOfTwo Reference.primitives BlockHash.zero ⟨Reference.key.bytes⟩ 7) = true ∧
    ¬∃ hi : 7 < [BlockHash.zero, ⟨Reference.key.bytes⟩].length,
      [BlockHash.zero, ⟨Reference.key.bytes⟩][7] = BlockHash.zero := by
  refine ⟨injOn_firstOfTwo ?_, rfl, verifyProof_firstOfTwo _ _ _, ?_⟩
  · intro leaf h
    cases h
  · rintro ⟨hi, -⟩
    exact absurd hi (by decide)

end MerkleTree

end VotingChain
