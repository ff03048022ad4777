/-
# `VotingChain.Merkle` — the Merkle tree over transaction ids

The model of `blockchain-core/src/merkle.rs`: the tree is built level by level
over neighbouring pairs, an odd node is paired with itself, and a proof is a
list of siblings with their sides.  The construction is `PairTree` with
`hashPair` for the combining function (`buildTree_eq`); injectivity and path
soundness come from there.

What has to be added here is where the injectivity of `hashPair` comes from:
it hashes a 64-byte string, two digests of 32 bytes one after the other, so it
is injective on the pairs whose strings the hash function does not confuse
(`hashPair_injOn`).  The strings are listed: `treeInputs` are those hashed while
a tree is built, `proofInputs` those hashed while a proof is checked.
-/
import VotingChain.Transaction
import VotingChain.Lib.PairTree

namespace VotingChain

/-- A node in the Merkle proof path. -/
structure ProofNode where
  hash : BlockHash
  isLeft : Bool
  deriving DecidableEq

/-- A Merkle proof for a single leaf. -/
structure MerkleProof where
  leafHash : BlockHash
  leafIndex : Nat
  proof : List ProofNode
  root : BlockHash
  deriving DecidableEq

structure MerkleTree where
  root : BlockHash
  leaves : List BlockHash
  levels : List (List BlockHash)
  deriving DecidableEq

namespace MerkleTree
variable (P : Primitives)

/-- Hash two nodes together. -/
def hashPair (left right : BlockHash) : BlockHash :=
  ⟨hashMultiple P [left.asBytes, right.asBytes]⟩

/-- Build the next level of the tree by hashing pairs. -/
def buildNextLevel : List BlockHash → List BlockHash
  | [] => []
  | [x] => [hashPair P x x]
  | x :: y :: rest => hashPair P x y :: buildNextLevel rest

/-- The levels from `currentLevel` up, while there is more than one node.  `fuel`
bounds the rounds of the loop; the length of the level is enough. -/
def buildTreeLoop : Nat → List BlockHash → List (List BlockHash)
  | 0, currentLevel => [currentLevel]
  | fuel + 1, currentLevel =>
      if 1 < currentLevel.length then
        currentLevel :: buildTreeLoop fuel (buildNextLevel P currentLevel)
      else [currentLevel]

/-- Build the Merkle tree levels bottom-up. -/
def buildTree (hashes : List BlockHash) : List (List BlockHash) :=
  buildTreeLoop P hashes.length hashes

/-- Create a new Merkle tree from a list of hashes.  The last level of a
non-empty tree has one node (`new_root`), so the fallback for the root is not
taken there. -/
def new (hashes : List BlockHash) : MerkleTree :=
  if hashes.isEmpty then ⟨BlockHash.zero, [], []⟩
  else
    let levels := buildTree P hashes
    let root := match levels.getLast? with
      | some (top :: _) => top
      | _ => BlockHash.zero
    ⟨root, hashes, levels⟩

/-- The siblings on the way up from `currentIndex`, one for each of the given levels. -/
def collectProof : List (List BlockHash) → Nat → Result (List ProofNode)
  | [], _ => .ok []
  | level :: rest, currentIndex => do
      let siblingIndex := if currentIndex % 2 = 0 then currentIndex + 1 else currentIndex - 1
      let siblingHash ←
        if siblingIndex < level.length then indexVec level siblingIndex
        else indexVec level currentIndex
      let proofHashes ← collectProof rest (currentIndex / 2)
      return { hash := siblingHash, isLeft := decide (currentIndex % 2 = 1) } :: proofHashes

/-- Generate a Merkle proof for a specific leaf: the way up through all levels but the
last.  A tree with a leaf has a level. -/
def generateProof (tree : MerkleTree) (leafIndex : Nat) : Result (Option MerkleProof) :=
  if tree.leaves.length ≤ leafIndex then .ok none
  else do
    let proof ← collectProof tree.levels.dropLast leafIndex
    let leafHash ← indexVec tree.leaves leafIndex
    return some { leafHash, leafIndex, proof, root := tree.root }

/-- The hash one step further up a proof path. -/
def climbNode (current : BlockHash) (node : ProofNode) : BlockHash :=
  if node.isLeft then hashPair P node.hash current else hashPair P current node.hash

/-- Verify that a leaf exists in the tree using a proof. -/
def verifyProof (proof : MerkleProof) : Bool :=
  decide (proof.proof.foldl (climbNode P) proof.leafHash = proof.root)

/-! ## The tree is a `PairTree` -/

theorem buildNextLevel_eq : ∀ level : List BlockHash,
    buildNextLevel P level = PairTree.nextLevel (hashPair P) level
  | [] => rfl
  | [_] => rfl
  | _ :: _ :: rest => by
      rw [buildNextLevel, buildNextLevel_eq rest]
      rfl

theorem buildTree_eq (hashes : List BlockHash) :
    buildTree P hashes = PairTree.levels (hashPair P) hashes.length hashes := by
  have hloop : ∀ (fuel : Nat) (level : List BlockHash),
      buildTreeLoop P fuel level = PairTree.levels (hashPair P) fuel level := by
    intro fuel
    induction fuel with
    | zero => intro level; rfl
    | succ fuel ih =>
        intro level
        rw [buildTreeLoop, PairTree.levels, buildNextLevel_eq, ih]
  exact hloop _ _

/-- The steps of a proof path. -/
def proofSteps (proof : List ProofNode) : List (PairTree.Step BlockHash) :=
  proof.map fun node => ⟨node.hash, node.isLeft⟩

theorem foldl_climbNode_eq (leaf : BlockHash) (proof : List ProofNode) :
    proof.foldl (climbNode P) leaf = PairTree.climb (hashPair P) leaf (proofSteps proof) := by
  rw [PairTree.climb, proofSteps, List.foldl_map]
  congr 1
  funext current node
  unfold climbNode PairTree.join PairTree.stepPair
  split <;> rfl

/-! ## The strings that are hashed -/

/-- The 64 bytes hashed for a pair. -/
def pairInput (p : BlockHash × BlockHash) : Bytes := p.1.asBytes ++ p.2.asBytes

/-- The strings hashed while the tree over `hashes` is built. -/
def treeInputs (hashes : List BlockHash) : List Bytes :=
  (PairTree.pairs (hashPair P) hashes.length hashes).map pairInput

/-- The strings hashed while a proof is checked. -/
def proofInputs (proof : MerkleProof) : List Bytes :=
  (PairTree.pathPairs (hashPair P) proof.leafHash (proofSteps proof.proof)).map pairInput

theorem length_pairInput (p : BlockHash × BlockHash) : (pairInput p).length = 64 := by
  simp [pairInput, length_blockHash_asBytes]

theorem pairInput_injective : Function.Injective pairInput :=
  (selfDelimiting_blockHash.prod selfDelimiting_blockHash).injective

theorem join_hashPair (p : BlockHash × BlockHash) :
    PairTree.join (hashPair P) p = ⟨P.blake2b256 (pairInput p)⟩ := by
  simp [PairTree.join, hashPair, hashMultiple, pairInput]

variable {P}

theorem hashPair_injOn {S : Set Bytes} (hhash : Set.InjOn P.blake2b256 S) :
    Set.InjOn (PairTree.join (hashPair P)) {p | pairInput p ∈ S} := by
  intro p hp q hq h
  rw [join_hashPair, join_hashPair, BlockHash.mk.injEq] at h
  exact pairInput_injective (hhash hp hq h)

/-! ## The root -/

variable (P) in
/-- The root of a non-empty tree is its single top node, as many levels above the
leaves as the tree is high, and only strings of `treeInputs` are hashed below it. -/
theorem new_root {hashes : List BlockHash} (h : hashes ≠ []) :
    PairTree.level (hashPair P) hashes (PairTree.height hashes) = [(new P hashes).root] ∧
      ∀ k < PairTree.height hashes,
        ∀ p ∈ PairTree.pairUp (PairTree.level (hashPair P) hashes k),
          pairInput p ∈ treeInputs P hashes := by
  obtain ⟨top, htop, hlast, hpairs⟩ :=
    PairTree.levels_top (hashPair P) hashes.length hashes h le_rfl
  refine ⟨?_, fun k hk p hp => List.mem_map_of_mem (hpairs k hk p hp)⟩
  rw [htop]
  simp [new, h, buildTree_eq, hlast]

/-- **The root determines the leaves**, between lists of the same length. -/
theorem leaves_eq_of_root_eq {S : Set Bytes} (hhash : Set.InjOn P.blake2b256 S)
    {hashes hashes' : List BlockHash} (hne : hashes ≠ []) (hlen : hashes.length = hashes'.length)
    (hS : ∀ x ∈ treeInputs P hashes, x ∈ S) (hS' : ∀ x ∈ treeInputs P hashes', x ∈ S)
    (hroot : (new P hashes).root = (new P hashes').root) : hashes = hashes' := by
  have hne' : hashes' ≠ [] := by
    intro h
    rw [h, List.length_nil] at hlen
    exact hne (List.eq_nil_of_length_eq_zero hlen)
  obtain ⟨top, -, hlast, -⟩ := PairTree.levels_top (hashPair P) hashes.length hashes hne le_rfl
  obtain ⟨top', -, hlast', -⟩ :=
    PairTree.levels_top (hashPair P) hashes'.length hashes' hne' le_rfl
  have htops : top = top' := by
    simpa [new, hne, hne', buildTree_eq, hlast, hlast'] using hroot
  refine PairTree.root_inj (hashPair_injOn hhash) le_rfl hlen
    (fun p hp => hS _ (List.mem_map_of_mem hp)) (fun p hp => hS' _ (List.mem_map_of_mem ?_)) ?_
  · rw [← hlen]; exact hp
  · rw [hlast, hlen, hlast', htops]

/-! ## Proofs -/

/-- **What a proof that checks out against a tree's root shows.**  Its leaf is
one of the tree's leaves, or it is an inner node (the path is too short), or
one of the tree's leaves is a node of the path (the path is too long).  In the
two latter cases a hash of 64 bytes stands where a leaf does. -/
theorem leaf_of_verifyProof {S : Set Bytes} (hhash : Set.InjOn P.blake2b256 S)
    {hashes : List BlockHash} (hne : hashes ≠ []) {proof : MerkleProof}
    (hS : ∀ x ∈ treeInputs P hashes, x ∈ S) (hS' : ∀ x ∈ proofInputs P proof, x ∈ S)
    (hverify : verifyProof P proof = true) (hroot : proof.root = (new P hashes).root) :
    proof.leafHash ∈ hashes ∨
      (∃ x ∈ treeInputs P hashes, proof.leafHash = ⟨P.blake2b256 x⟩) ∨
      ∃ x ∈ proofInputs P proof, (⟨P.blake2b256 x⟩ : BlockHash) ∈ hashes := by
  obtain ⟨htop, hpairs⟩ := new_root P hne
  have hclimb : PairTree.climb (hashPair P) proof.leafHash (proofSteps proof.proof)
      ∈ PairTree.level (hashPair P) hashes (PairTree.height hashes) := by
    rw [htop, List.mem_singleton, ← hroot, ← foldl_climbNode_eq]
    simpa [verifyProof] using hverify
  rcases PairTree.climb_level (hashPair_injOn hhash) (fun k hk p hp => hS _ (hpairs k hk p hp))
      proof.leafHash _ (PairTree.height hashes) le_rfl
      (fun p hp => hS' _ (List.mem_map_of_mem hp)) hclimb with
    ⟨hle, hmem⟩ | ⟨p, hp, hmem⟩
  · -- the path starts that many levels below the root: at the leaves if that is the height
    cases hk : PairTree.height hashes - (proofSteps proof.proof).length with
    | zero => rw [hk] at hmem; exact Or.inl hmem
    | succ k =>
        rw [hk, PairTree.level_succ, PairTree.nextLevel, List.mem_map] at hmem
        obtain ⟨q, hq, hleaf⟩ := hmem
        refine Or.inr (Or.inl ⟨pairInput q, hpairs k (by omega) q hq, ?_⟩)
        rw [← join_hashPair]
        exact hleaf.symm
  · refine Or.inr (Or.inr ⟨pairInput p, List.mem_map_of_mem hp, ?_⟩)
    rw [← join_hashPair]
    exact hmem

end MerkleTree

/-- Verify this proof. -/
def MerkleProof.verify (P : Primitives) (proof : MerkleProof) : Bool :=
  MerkleTree.verifyProof P proof

/-- Get the size of the proof (number of hashes). -/
def MerkleProof.size (proof : MerkleProof) : Nat := proof.proof.length

end VotingChain
