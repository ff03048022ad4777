/-
# `VotingChain.Reference` — the primitives the crate is linked with

`Primitives` leaves the hash function and the serialiser open.  This is the
instance the program is built with: Blake2b with a 32-byte digest, and
`bincode` with its default options — little-endian integers of fixed width, a
`u32` for the variant of an enumeration, a `u64` in front of everything whose
length varies, a byte in front of an option, arrays bare.  A `Signature`
serialises itself as a byte string and not as an array, so it has its length in
front.

No theorem about the chain is about this instance; it is where hypotheses on
the primitives are discharged on concrete inputs.
-/
import VotingChain.Lib.Blake2
import VotingChain.Chain

namespace VotingChain.Reference

/-! ## `bincode` -/

def encodeU64 (n : UInt64) : Bytes := Codec.leBytes 8 n.toNat

/-- A sequence, behind its length. -/
def encodeSeq {α : Type} (encode : α → Bytes) (xs : List α) : Bytes :=
  Codec.leBytes 8 xs.length ++ xs.flatMap encode

/-- `Vec<u8>`, and what `serialize_bytes` writes. -/
def encodeBytes (data : Bytes) : Bytes := encodeSeq (fun b => [b]) data

/-- A string: the length of its UTF-8 form, and that form. -/
def encodeString (s : String) : Bytes := encodeBytes s.toByteArray.data.toList

def encodeOption {α : Type} (encode : α → Bytes) : Option α → Bytes
  | none => [0]
  | some x => 1 :: encode x

def encodeSignature (s : Signature) : Bytes := encodeBytes s.bytes.toList

def encodeVote (vote : VoteTransaction) : Bytes :=
  vote.electionId.bytes.toList ++ encodeBytes vote.encryptedVote ++
    encodeOption encodeBytes vote.validityProof ++ encodeSignature vote.voterSignature

def encodeMetadata (m : ValidatorMetadata) : Bytes :=
  encodeString m.name ++ encodeOption encodeString m.organization ++
    encodeOption encodeString m.contact

def encodeRegistration (reg : ValidatorRegistration) : Bytes :=
  reg.validatorKey.asBytes ++ encodeMetadata reg.metadata ++
    encodeSignature reg.authorizingSignature

def encodeRemoval (removal : ValidatorRemoval) : Bytes :=
  removal.validatorKey.asBytes ++ encodeString removal.reason ++
    encodeSignature removal.authorizingSignature

def encodeCandidate (candidate : Candidate) : Bytes :=
  encodeString candidate.id ++ encodeString candidate.name ++
    encodeOption encodeString candidate.party ++ encodeOption encodeString candidate.metadata

def encodeCreation (creation : ElectionCreation) : Bytes :=
  creation.electionId.bytes.toList ++ encodeString creation.name ++
    encodeString creation.description ++ encodeSeq encodeCandidate creation.candidates ++
    encodeU64 creation.startTime ++ encodeU64 creation.endTime ++
    encodeSignature creation.authoritySignature

def encodeClosure (closure : ElectionClosure) : Bytes :=
  closure.electionId.bytes.toList ++ encodeBytes closure.results ++
    encodeSignature closure.authoritySignature

/-- `bincode::serialize` of a transaction type. -/
def bincode : TransactionType → Bytes
  | .vote vote => Codec.leBytes 4 0 ++ encodeVote vote
  | .validatorRegistration reg => Codec.leBytes 4 1 ++ encodeRegistration reg
  | .validatorRemoval removal => Codec.leBytes 4 2 ++ encodeRemoval removal
  | .electionCreation creation => Codec.leBytes 4 3 ++ encodeCreation creation
  | .electionClosure closure => Codec.leBytes 4 4 ++ encodeClosure closure

def encodeTransaction (tx : Transaction) : Bytes :=
  tx.id.asBytes ++ bincode tx.txType ++ encodeU64 tx.timestamp ++ encodeU64 tx.nonce

def encodeHeader (h : BlockHeader) : Bytes :=
  encodeU64 h.height ++ (encodeU64 h.timestamp ++ h.previousHash.asBytes ++
    h.transactionsRoot.asBytes ++ h.hash.asBytes ++ h.validator.asBytes ++
    Codec.leBytes 4 h.transactionCount.toNat)

/-- `bincode::serialize` of a block. -/
def encodeBlock (b : Block) : Bytes :=
  encodeHeader b.header ++ (encodeSeq encodeTransaction b.transactions ++
    encodeSeq (fun s : ValidatorSignature => s.validator.asBytes ++ encodeSignature s.signature)
      b.signatures)

/-- The primitives of the program. -/
def primitives : Primitives where
  blake2b256 := Blake2b.hash256
  bincode := bincode

/-! ## Every encoding is longer than a digest and a half -/

theorem length_encodeSignature (s : Signature) : (encodeSignature s).length = 72 := by
  simp [encodeSignature, encodeBytes, encodeSeq, Codec.length_leBytes]

/-- Every transaction type ends in a signature, which alone takes 72 bytes. -/
theorem length_bincode (t : TransactionType) : 72 ≤ (bincode t).length := by
  cases t with
  | vote vote =>
      simp only [bincode, encodeVote, List.length_append, length_encodeSignature]
      omega
  | validatorRegistration reg =>
      simp only [bincode, encodeRegistration, List.length_append, length_encodeSignature]
      omega
  | validatorRemoval removal =>
      simp only [bincode, encodeRemoval, List.length_append, length_encodeSignature]
      omega
  | electionCreation creation =>
      simp only [bincode, encodeCreation, List.length_append, length_encodeSignature]
      omega
  | electionClosure closure =>
      simp only [bincode, encodeClosure, List.length_append, length_encodeSignature]
      omega

/-! ## Inputs to try things on -/

/-- The Ed25519 public key of the seed `01…01`. -/
def key : PublicKey :=
  ⟨⟨[138, 136, 227, 221, 116, 9, 241, 149, 253, 82, 219, 45, 60, 186, 93, 114, 202, 103, 9, 191,
    29, 148, 18, 27, 243, 116, 136, 1, 180, 15, 111, 92], rfl⟩⟩

/-- The key pair of `key`. -/
def keyPair : KeyPair := ⟨List.Vector.replicate 32 1, key⟩

/-- The genesis configuration of `key` alone. -/
def genesis : GenesisBlock := GenesisBlock.new [key] 1000 (by decide)

/-- A one-byte vote; its id changes with the nonce. -/
def vote (nonce : UInt64) : Transaction :=
  Transaction.newWithParams primitives
    (.vote
      { electionId := ⟨List.Vector.replicate 16 0⟩
        encryptedVote := [1]
        validityProof := none
        voterSignature := ⟨List.Vector.replicate 64 0⟩ })
    1000 nonce

/-- The genesis block of `key`. -/
def genesisBlock : Block := genesis.blockOf primitives key

/-- The chain of that genesis block. -/
def chain : Blockchain := Blockchain.ofGenesis genesisBlock

theorem createBlock_genesis (now : Timestamp) :
    genesis.createBlock primitives now = .ok genesisBlock :=
  GenesisBlock.createBlock_eq_ok.mpr ⟨key, rfl, rfl⟩

theorem new_genesis (now : Timestamp) : Blockchain.new primitives now genesis = .ok chain :=
  Blockchain.new_eq_ok.mpr ⟨genesisBlock, createBlock_genesis now, rfl⟩

theorem validate_vote (nonce : UInt64) : (vote nonce).validate primitives = .ok () := by
  rw [vote, Transaction.validate_newWithParams]
  decide

theorem fresh_of_ne {tx : Transaction} (h : tx.id ≠ (genesis.registration primitives key 0).id) :
    tx.id ∉ chain.txToBlock := by
  rw [← Finmap.lookup_eq_none, chain, Blockchain.ofGenesis, TxIndex.lookup_insertAll, if_neg]
  · exact Finmap.lookup_empty _
  · show tx.id ∉ [(genesis.registration primitives key 0).id]
    rwa [List.mem_singleton]

theorem vote_fresh : (vote 0).id ∉ chain.txToBlock := fresh_of_ne (by decide +kernel)

theorem admits_votes (txs : List Transaction) (h : ∀ tx ∈ txs, tx = vote 0) :
    Blockchain.Admits primitives chain (chain.nextBlock primitives txs key) := by
  refine Blockchain.admits_nextBlock key ?_ ?_ ?_
  · intro tx htx
    rw [h tx htx]
    exact validate_vote 0
  · intro tx htx
    rw [h tx htx]
    exact vote_fresh
  · show 1 < 2 ^ 63 - 1
    omega

/-- A block of its own with one vote in it. -/
def voteBlock : Block := Block.new primitives 1000 1 BlockHash.zero [vote 0] key

theorem valid_voteBlock : voteBlock.Valid primitives := by
  refine Block.valid_new primitives ?_
  intro tx htx
  rw [List.mem_singleton.mp htx]
  exact validate_vote 0

/-- The two strings hashed when that block is validated, its header and its vote,
have different hashes. -/
theorem injOn_voteBlock :
    Set.InjOn primitives.blake2b256 {x | x ∈ voteBlock.hashInputs primitives} := by
  have hne : primitives.blake2b256 voteBlock.header.hashInput ≠
      primitives.blake2b256 ((vote 0).serializeForHashing primitives) := by decide +kernel
  have hnodup : ((voteBlock.hashInputs primitives).map primitives.blake2b256).Nodup :=
    List.nodup_cons.mpr ⟨fun h => hne (List.mem_singleton.mp h), List.nodup_singleton _⟩
  exact injOn_of_nodup_map hnodup fun x hx => hx

end VotingChain.Reference
