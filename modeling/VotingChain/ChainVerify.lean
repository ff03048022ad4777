/-
# `VotingChain.ChainVerify` — what `verify` is worth

`Blockchain::verify` reads the vector of blocks and nothing else: not the indexes, not the
height counter, no signature.  What that gives is said here of every vector, not only of
those `add_block` builds, since a chain that comes out of a database or a file is checked
by `verify` alone.

* `history_eq` — the hash of the latest block fixes the whole chain, signatures apart;
* `verify_iff_addBlocks` — `verify` accepts what `add_block` rebuilds block by block; the one
  thing it does not look for is a transaction in two blocks;
* `verify_prune_iff` — a pruned chain no longer verifies, unless pruning took nothing above
  the genesis block, or everything.
-/
import VotingChain.HashBinding
import VotingChain.Lib.Digest
import VotingChain.Pruning

namespace VotingChain

attribute [ext] BlockHeader

namespace Block
variable {P : Primitives}

theorem Valid.header_eq {b b' : Block} (h : b.Valid P) (h' : b'.Valid P) {S : Set Bytes}
    (hhash : Set.InjOn P.blake2b256 S) (hb : b.header.hashInput ∈ S)
    (hb' : b'.header.hashInput ∈ S) (heq : b.hash = b'.hash) : b.header = b'.header := by
  have hdigest : P.blake2b256 b.header.hashInput = P.blake2b256 b'.header.hashInput :=
    congrArg BlockHash.bytes ((h.hash.symm.trans heq).trans h'.hash)
  obtain ⟨hheight, htime, hprev, hroot, hval, hcount⟩ :=
    BlockHeader.hashInput_inj (hhash hb hb' hdigest)
  exact BlockHeader.ext hheight htime hprev hroot heq hval hcount

theorem Valid.transactions_eq {b b' : Block} (h : b.Valid P) (h' : b'.Valid P) {S : Set Bytes}
    (hhash : Set.InjOn P.blake2b256 S) (hb : ∀ x ∈ b.hashInputs P, x ∈ S)
    (hb' : ∀ x ∈ b'.hashInputs P, x ∈ S) {T : Set TransactionType} (hcode : Set.InjOn P.bincode T)
    (ht : ∀ tx ∈ b.transactions, tx.txType ∈ T) (ht' : ∀ tx ∈ b'.transactions, tx.txType ∈ T)
    (hlen : b.transactions.length < 2 ^ 32) (hlen' : b'.transactions.length < 2 ^ 32)
    (heq : b.header = b'.header) : b.transactions = b'.transactions := by
  have hnumber : b.transactions.length = b'.transactions.length := by
    rw [← h.count_toNat hlen, ← h'.count_toNat hlen', heq]
  have hids : txHashes b.transactions = txHashes b'.transactions := by
    refine txHashes_eq_of_root_eq hhash hnumber ?_ ?_ ?_
    · exact fun x hx => hb x (tree_mem_hashInputs P hx)
    · exact fun x hx => hb' x (tree_mem_hashInputs P hx)
    · rw [← h.root, ← h'.root, heq]
  refine transactions_eq_of_txHashes_eq hhash hcode ?_ ?_ hids
  · intro tx htx
    exact ⟨Transaction.id_of_validate (h.transactions tx htx), hb _ (tx_mem_hashInputs P htx),
      ht tx htx⟩
  · intro tx htx
    exact ⟨Transaction.id_of_validate (h'.transactions tx htx), hb' _ (tx_mem_hashInputs P htx),
      ht' tx htx⟩

/-- What the hash of a block covers: everything but the signatures. -/
def signedPart (b : Block) : BlockHeader × List Transaction := (b.header, b.transactions)

end Block

namespace Blockchain
variable {P : Primitives}

theorem blocks_extend (c : Blockchain) (b : Block) : (c.extend b).blocks = c.blocks ++ [b] := rfl

/-! ## What `verify` accepts -/

variable (P) in
/-- A vector of blocks that `verify` accepts. -/
structure Verified (bs : List Block) : Prop where
  height : ∀ b, bs[0]? = some b → b.header.height = 0
  previousHash : ∀ b, bs[0]? = some b → b.header.previousHash = BlockHash.zero
  valid : ∀ b ∈ bs, b.Valid P
  links : bs.IsChain Block.Follows

theorem verify_eq_ok [Hex] {c : Blockchain} : c.verify P = .ok () ↔ Verified P c.blocks := by
  obtain ⟨g, bs, hbs⟩ := List.exists_cons_of_ne_nil c.blocks_ne
  have hfirst : c.blocks[0]? = some g := by simp [hbs]
  have hempty : (!c.blocks.isEmpty) = true := by simp [hbs]
  simp only [verify, bind_eq_ok, ensure_eq_ok, indexVec, hfirst, hempty, decide_eq_true_eq,
    verifyLinks_eq_ok, Block.validate_eq_ok]
  constructor
  · rintro ⟨-, -, b, hb, -, hheight, -, hprev, -, hvalid, hlinks⟩
    cases hb
    refine ⟨?_, ?_, ?_, hlinks.imp fun _ _ h => h.2⟩
    · intro b hb
      rwa [← Option.some.inj (hfirst.symm.trans hb)]
    · intro b hb
      rwa [← Option.some.inj (hfirst.symm.trans hb)]
    · -- the blocks after the first are valid as the second of a link
      rw [hbs] at hlinks ⊢
      refine List.forall_mem_cons.mpr ⟨hvalid, fun b hb => ?_⟩
      obtain ⟨i, hi⟩ := List.mem_iff_getElem?.mp hb
      obtain ⟨hlt, rfl⟩ := List.getElem?_eq_some_iff.mp hi
      exact (List.isChain_iff_getElem.mp hlinks i (Nat.succ_lt_succ hlt)).1
  · intro h
    refine ⟨(), trivial, g, rfl, (), h.height g hfirst, (), h.previousHash g hfirst, (), ?_, ?_⟩
    · exact h.valid g (List.mem_of_getElem? hfirst)
    · exact h.links.imp_of_mem_imp fun p x _ hx hf => ⟨h.valid x hx, hf⟩

namespace Verified
variable {bs : List Block}

theorem heights (h : Verified P bs) (hlen : bs.length ≤ maxVecLength) :
    ∀ (i : Nat) (b : Block), bs[i]? = some b → b.header.height.toNat = i := by
  intro i
  induction i with
  | zero =>
      intro b hb
      rw [h.height b hb]
      rfl
  | succ i ih =>
      intro b hb
      obtain ⟨hlt, rfl⟩ := List.getElem?_eq_some_iff.mp hb
      have hprev := ih bs[i] (List.getElem?_eq_getElem (Nat.lt_of_succ_lt hlt))
      have hfollows := (List.isChain_iff_getElem.mp h.links i hlt).height
      have hle : bs.length ≤ 2 ^ 63 - 1 := hlen
      rw [hfollows, UInt64.toNat_add, UInt64.toNat_one, hprev]
      exact Nat.mod_eq_of_lt (by omega)

theorem linked (h : Verified P bs) : HashChain.Linked Block.hash Block.previousHash bs :=
  h.links.imp fun _ _ hf => hf.previousHash

theorem of_append {l r : List Block} (h : Verified P (l ++ r)) (hl : l ≠ []) : Verified P l := by
  have hfirst : ∀ b, l[0]? = some b → (l ++ r)[0]? = some b := by
    intro b hb
    rwa [List.getElem?_append_left (List.length_pos_of_ne_nil hl)]
  exact ⟨fun b hb => h.height b (hfirst b hb), fun b hb => h.previousHash b (hfirst b hb),
    fun b hb => h.valid b (List.mem_append_left _ hb), (List.isChain_append.mp h.links).1⟩

end Verified

theorem Shape.verified [Hex] {c : Blockchain} (h : Shape P c) : Verified P c.blocks :=
  verify_eq_ok.mp h.verify

/-! ## The latest hash fixes the chain -/

variable (P) in
/-- The strings that are hashed when two chains are verified. -/
def hashInputs (c d : Blockchain) : Set Bytes :=
  {x | ∃ b, (b ∈ c.blocks ∨ b ∈ d.blocks) ∧ x ∈ b.hashInputs P}

/-- The transaction types of two chains. -/
def txTypes (c d : Blockchain) : Set TransactionType :=
  {t | ∃ b, (b ∈ c.blocks ∨ b ∈ d.blocks) ∧ ∃ tx ∈ b.transactions, t = tx.txType}

/-- **The latest hash fixes the history.**  Two chains, wherever they come from, that both pass
`verify` and whose latest blocks have one hash, hold the same blocks at all heights, headers and
transactions, if the hash function and the serialiser confuse nothing that verifying them
encodes.  Only the signatures may differ: `verify` does not look at them. -/
theorem history_eq [Hex] {c d : Blockchain} (hc : c.verify P = .ok ()) (hd : d.verify P = .ok ())
    (hclen : c.blocks.length ≤ maxVecLength) (hdlen : d.blocks.length ≤ maxVecLength)
    (htxs : ∀ b, b ∈ c.blocks ∨ b ∈ d.blocks → b.transactions.length < 2 ^ 32)
    (hhash : Set.InjOn P.blake2b256 (hashInputs P c d)) (hcode : Set.InjOn P.bincode (txTypes c d))
    (heq : c.latestBlock.hash = d.latestBlock.hash) :
    c.blocks.map Block.signedPart = d.blocks.map Block.signedPart := by
  have hvc := verify_eq_ok.mp hc
  have hvd := verify_eq_ok.mp hd
  have hvalid : ∀ b, b ∈ c.blocks ∨ b ∈ d.blocks → b.Valid P := by
    rintro b (hb | hb)
    · exact hvc.valid b hb
    · exact hvd.valid b hb
  have hheader : ∀ b, b ∈ c.blocks ∨ b ∈ d.blocks → ∀ b', b' ∈ c.blocks ∨ b' ∈ d.blocks →
      b.hash = b'.hash → b.header = b'.header := fun b hb b' hb' hbb =>
    (hvalid b hb).header_eq (hvalid b' hb') hhash ⟨b, hb, Block.header_mem_hashInputs P b⟩
      ⟨b', hb', Block.header_mem_hashInputs P b'⟩ hbb
  have hbind : HashChain.Binding Block.hash Block.previousHash Block.signedPart
      {b | b ∈ c.blocks ∨ b ∈ d.blocks} := by
    intro b hb b' hb' hbb
    have hhead := hheader b hb b' hb' hbb
    have htx : b.transactions = b'.transactions :=
      (hvalid b hb).transactions_eq (hvalid b' hb') hhash (fun x hx => ⟨b, hb, hx⟩)
        (fun x hx => ⟨b', hb', hx⟩) hcode (fun tx htx => ⟨b, hb, tx, htx, rfl⟩)
        (fun tx htx => ⟨b', hb', tx, htx, rfl⟩) (htxs b hb) (htxs b' hb') hhead
    exact ⟨Prod.ext hhead htx, congrArg BlockHeader.previousHash hhead⟩
  -- the heights say how long the chains are
  have hlast : c.latestBlock.header = d.latestBlock.header :=
    hheader _ (Or.inl (List.getLast_mem _)) _ (Or.inr (List.getLast_mem _)) heq
  have hplace := hvc.heights hclen _ _ c.getElem?_latestBlock
  have hplace' := hvd.heights hdlen _ _ d.getElem?_latestBlock
  have hlen : c.blocks.dropLast.length = d.blocks.dropLast.length := by
    rw [List.length_dropLast, List.length_dropLast, ← hplace, ← hplace', hlast]
  have hsplit : c.blocks.dropLast ++ [c.latestBlock] = c.blocks :=
    List.dropLast_append_getLast c.blocks_ne
  have hsplit' : d.blocks.dropLast ++ [d.latestBlock] = d.blocks :=
    List.dropLast_append_getLast d.blocks_ne
  rw [← hsplit, ← hsplit']
  refine HashChain.map_view_eq hbind ?_ ?_ ?_ ?_ hlen heq
  · rw [hsplit]
    exact hvc.linked
  · rw [hsplit']
    exact hvd.linked
  · rw [hsplit]
    exact fun b hb => Or.inl hb
  · rw [hsplit']
    exact fun b hb => Or.inr hb

/-- The chain of `Reference`, a vote on top of it in a block with these signatures. -/
def voted (sigs : List ValidatorSignature) : Blockchain :=
  Reference.chain.extend { Reference.chain.nextBlock Reference.primitives [Reference.vote 0]
    Reference.key with signatures := sigs }

theorem shape_voted (sigs : List ValidatorSignature) :
    Shape Reference.primitives (voted sigs) := by
  have hadm := Reference.admits_votes [Reference.vote 0] (by simp)
  refine (shape_of_new (Reference.new_genesis 0)).extend ⟨?_, ?_, hadm.fresh, hadm.room⟩
  · exact (Block.valid_signatures _ _).mpr hadm.valid
  · exact ⟨hadm.follows.height, hadm.follows.previousHash, hadm.follows.timestamp⟩

theorem mem_flatMap_voted {β : Type} {f : Block → List β}
    (hf : ∀ b s, f { b with signatures := s } = f b) {sigs : List ValidatorSignature} {x : β}
    (hx : ∃ b, (b ∈ (voted sigs).blocks ∨ b ∈ (voted []).blocks) ∧ x ∈ f b) :
    x ∈ (voted []).blocks.flatMap f := by
  rw [List.mem_flatMap]
  obtain ⟨b, hb | hb, hx⟩ := hx
  · rcases mem_extend.mp hb with hb | rfl
    · exact ⟨b, mem_extend.mpr (Or.inl hb), hx⟩
    · exact ⟨_, mem_extend.mpr (Or.inr rfl), (hf _ _).symm ▸ (hf _ _ ▸ hx)⟩
  · exact ⟨b, hb, hx⟩

/-- Signed or not, it is the same chain. -/
theorem history_eq_voted :
    (voted [⟨Reference.key, ⟨List.Vector.replicate 64 0⟩⟩]).blocks.map Block.signedPart =
      (voted []).blocks.map Block.signedPart := by
  refine history_eq (shape_voted _).verify (shape_voted []).verify (shape_voted _).length_le
    (shape_voted []).length_le ?_ ?_ ?_ rfl
  · rintro b (hb | hb)
    · rcases List.mem_pair.mp hb with rfl | rfl <;> decide
    · rcases List.mem_pair.mp hb with rfl | rfl <;> decide
  · have hnodup : (((voted []).blocks.flatMap (Block.hashInputs Reference.primitives)).map
        Reference.primitives.blake2b256).Nodup := by decide +kernel
    exact injOn_of_nodup_map hnodup fun x => mem_flatMap_voted fun _ _ => rfl
  · have hnodup : (((voted []).blocks.flatMap fun b => b.transactions.map Transaction.txType).map
        Reference.primitives.bincode).Nodup := by decide +kernel
    refine injOn_of_nodup_map hnodup fun t ht => ?_
    obtain ⟨b, hb, tx, htx, rfl⟩ := ht
    exact mem_flatMap_voted (fun _ _ => rfl) ⟨b, hb, List.mem_map_of_mem htx⟩

/-! ## Against `add_block` -/

/-- No transaction is in two blocks. -/
def NoTwoBlocks (bs : List Block) : Prop := bs.Pairwise fun b b' => b.ids.Disjoint b'.ids

theorem NoTwoBlocks.concat_iff {bs : List Block} {b : Block} :
    NoTwoBlocks (bs ++ [b]) ↔ NoTwoBlocks bs ∧ ∀ x ∈ bs, x.ids.Disjoint b.ids := by
  simp only [NoTwoBlocks, List.pairwise_append, List.pairwise_singleton, List.mem_singleton,
    forall_eq, true_and]

theorem Indexed.noTwoBlocks_extend {c : Blockchain} (hindex : Indexed c)
    (h : NoTwoBlocks c.blocks) {b : Block} (hadm : Admits P c b) :
    NoTwoBlocks (c.extend b).blocks :=
  NoTwoBlocks.concat_iff.mpr ⟨h, fun _ hx _ ht htb => hindex.fresh hadm hx ht htb⟩

theorem addBlocks_of_verified [Hex] {g : Block} {bs : List Block} (h : Verified P (g :: bs))
    (hlen : (g :: bs).length ≤ maxVecLength) (hnone : NoTwoBlocks (g :: bs)) :
    ((ofGenesis g).addBlocks P bs).blocks = g :: bs := by
  have hshape := shape_ofGenesis (h.height g rfl) (h.previousHash g rfl) (h.valid g (by simp))
  have hindex : Indexed (ofGenesis g) := indexed_ofGenesis (h.height g rfl)
  -- block by block, from the first on
  induction bs using List.reverseRecOn with
  | nil => rfl
  | append_singleton bs b ih =>
      rw [← List.cons_append] at h hlen hnone ⊢
      obtain ⟨hnone, hdisj⟩ := NoTwoBlocks.concat_iff.mp hnone
      have hlen' : (g :: bs).length < maxVecLength := by
        rw [List.length_append, List.length_singleton] at hlen
        omega
      have hblocks := ih (h.of_append (List.cons_ne_nil _ _)) hlen'.le hnone
      obtain ⟨hshape', hindex'⟩ : Shape P ((ofGenesis g).addBlocks P bs) ∧
          Indexed ((ofGenesis g).addBlocks P bs) :=
        addBlocks_invariant (I := fun c => Shape P c ∧ Indexed c)
          (fun c x hc hadm => ⟨hc.1.extend hadm, hc.2.extend hadm⟩) ⟨hshape, hindex⟩ bs
      have hadm : Admits P ((ofGenesis g).addBlocks P bs) b := by
        refine ⟨h.valid b (by simp), ?_, ?_, hblocks ▸ hlen'⟩
        · refine (List.isChain_append.mp h.links).2.2 _ ?_ b rfl
          rw [← hblocks, List.getLast?_eq_some_getLast (blocks_ne _)]
          rfl
        · intro tx htx hmem
          obtain ⟨x, hx, ht⟩ := hindex'.mem_txToBlock.mp hmem
          exact hdisj x (hblocks ▸ hx) ht (List.mem_map_of_mem htx)
      rw [addBlocks_concat, addStep, next_addBlock_of_admits hadm, blocks_extend, hblocks]

/-- **`verify` and `add_block` accept the same chains**, but for one thing: `verify` does not look
for a transaction in two blocks.  A vector of blocks passes `verify` and has no such transaction
exactly if its first block is a valid block of height 0 without a predecessor, and the others,
given to `add_block` one after the other, are all taken in. -/
theorem verify_iff_addBlocks [Hex] {c : Blockchain} {g : Block} {bs : List Block}
    (hc : c.blocks = g :: bs) (hlen : c.blocks.length ≤ maxVecLength) :
    (c.verify P = .ok () ∧ NoTwoBlocks c.blocks) ↔
      (g.height = 0 ∧ g.previousHash = BlockHash.zero ∧ g.validate P = .ok ()) ∧
        ((ofGenesis g).addBlocks P bs).blocks = c.blocks := by
  rw [verify_eq_ok, hc, Block.validate_eq_ok]
  constructor
  · rintro ⟨h, hnone⟩
    exact ⟨⟨h.height g rfl, h.previousHash g rfl, h.valid g (by simp)⟩,
      addBlocks_of_verified h (hc ▸ hlen) hnone⟩
  · rintro ⟨⟨hheight, hprev, hvalid⟩, hblocks⟩
    obtain ⟨hshape, -, hnone⟩ : Shape P ((ofGenesis g).addBlocks P bs) ∧
        Indexed ((ofGenesis g).addBlocks P bs) ∧
        NoTwoBlocks ((ofGenesis g).addBlocks P bs).blocks := by
      refine addBlocks_invariant (I := fun c => Shape P c ∧ Indexed c ∧ NoTwoBlocks c.blocks)
        (fun c x h hadm => ?_) ⟨?_, ?_, ?_⟩ bs
      · exact ⟨h.1.extend hadm, h.2.1.extend hadm, h.2.1.noTwoBlocks_extend h.2.2 hadm⟩
      · exact shape_ofGenesis hheight hprev hvalid
      · exact indexed_ofGenesis hheight
      · exact List.pairwise_singleton _ _
    rw [hblocks] at hnone
    exact ⟨hblocks ▸ hshape.verified, hnone⟩

/-- The vote is taken in once more. -/
theorem verify_iff_addBlocks_voted :
    ((ofGenesis Reference.genesisBlock).addBlocks Reference.primitives
      (voted []).blocks.tail).blocks = (voted []).blocks := by
  refine ((verify_iff_addBlocks (P := Reference.primitives) (c := voted []) rfl
    (shape_voted []).length_le).mp ⟨(shape_voted []).verify, ?_⟩).2
  have hadm := Reference.admits_votes [Reference.vote 0] (by simp)
  exact (indexed_of_new (Reference.new_genesis 0)).noTwoBlocks_extend
    (List.pairwise_singleton _ _) hadm

/-! ## After pruning -/

theorem timestamp_le {x : Block} {bs : List Block} (h : (x :: bs).IsChain Block.Follows) :
    ∀ y ∈ bs, x.timestamp ≤ y.timestamp := by
  induction bs generalizing x with
  | nil => simp
  | cons b bs ih =>
      rw [List.isChain_cons_cons] at h
      refine List.forall_mem_cons.mpr ⟨h.1.timestamp, fun y hy => ?_⟩
      exact UInt64.le_trans h.1.timestamp (ih h.2 y hy)

theorem height_lt {x : Block} {bs : List Block} (h : (x :: bs).IsChain Block.Follows) {n : Nat}
    (hn : n < 2 ^ 64 - 1) (hle : ∀ b ∈ x :: bs, b.header.height.toNat ≤ n) :
    ∀ y ∈ bs, x.header.height.toNat < y.header.height.toNat := by
  induction bs generalizing x with
  | nil => simp
  | cons b bs ih =>
      rw [List.isChain_cons_cons] at h
      have hb : b.header.height.toNat = x.header.height.toNat + 1 := by
        have hx := hle x (by simp)
        rw [h.1.height, UInt64.toNat_add, UInt64.toNat_one]
        exact Nat.mod_eq_of_lt (by omega)
      refine List.forall_mem_cons.mpr ⟨by omega, fun y hy => ?_⟩
      have hlt := ih h.2 (fun z hz => hle z (List.mem_cons_of_mem _ hz)) y hy
      omega

theorem filter_suffix {bs : List Block} (h : bs.IsChain Block.Follows) (before : Timestamp) :
    bs.filter (fun b => decide (before ≤ b.timestamp)) <:+ bs := by
  induction bs with
  | nil => simp
  | cons b bs ih =>
      by_cases hb : before ≤ b.timestamp
      · have hall : ∀ x ∈ b :: bs, decide (before ≤ x.timestamp) = true := by
          refine List.forall_mem_cons.mpr ⟨by simpa using hb, fun x hx => ?_⟩
          exact decide_eq_true (UInt64.le_trans hb (timestamp_le h x hx))
        rw [List.filter_eq_self.mpr hall]
      · rw [List.filter_cons_of_neg (by simpa using hb)]
        exact (ih h.tail).trans (List.suffix_cons b bs)

variable (P) in
/-- A genesis block `g` and, above it, blocks `bs` of which the older may be missing.  No height is
above `n`. -/
structure Gapped (n : Nat) (g : Block) (bs : List Block) : Prop where
  height : g.header.height = 0
  previousHash : g.header.previousHash = BlockHash.zero
  valid : ∀ b ∈ g :: bs, b.Valid P
  links : bs.IsChain Block.Follows
  first : ∀ b ∈ bs.head?, Block.Follows g b ∨ 2 ≤ b.header.height.toNat
  le : ∀ b ∈ bs, b.header.height.toNat ≤ n

namespace Gapped
variable {n : Nat} {g : Block} {bs : List Block}

theorem verified_iff (h : Gapped P n g bs) :
    Verified P (g :: bs) ↔ ∀ b ∈ bs.head?, b.header.height = 1 := by
  constructor
  · intro hv b hb
    have hfollows := (List.isChain_cons.mp hv.links).1 b hb
    rw [hfollows.height, h.height]
    rfl
  · intro hfirst
    refine ⟨?_, ?_, h.valid, List.isChain_cons.mpr ⟨fun b hb => ?_, h.links⟩⟩
    · rintro b ⟨⟩
      exact h.height
    · rintro b ⟨⟩
      exact h.previousHash
    · rcases h.first b hb with hfollows | hge
      · exact hfollows
      · rw [hfirst b hb] at hge
        exact absurd hge (by decide)

theorem mono {m : Nat} (h : Gapped P n g bs) (hle : n ≤ m) : Gapped P m g bs :=
  { h with le := fun b hb => (h.le b hb).trans hle }

theorem concat (h : Gapped P n g bs) {latest b : Block} (hlatest : (g :: bs).getLast? = some latest)
    (hvalid : b.Valid P) (hfollows : Block.Follows latest b) : Gapped P (n + 1) g (bs ++ [b]) := by
  have hle : latest.header.height.toNat ≤ n := by
    rcases List.mem_cons.mp (List.mem_of_getLast? hlatest) with rfl | hmem
    · rw [h.height]
      exact Nat.zero_le n
    · exact h.le latest hmem
  have hb : b.header.height.toNat ≤ n + 1 := by
    rw [hfollows.height, UInt64.toNat_add, UInt64.toNat_one]
    exact (Nat.mod_le _ _).trans (Nat.succ_le_succ hle)
  refine ⟨h.height, h.previousHash, ?_, ?_, ?_, ?_⟩
  · rw [← List.cons_append]
    exact List.forall_mem_append.mpr ⟨h.valid, by simpa using hvalid⟩
  · refine List.isChain_append.mpr ⟨h.links, List.isChain_singleton b, ?_⟩
    rintro x hx y ⟨⟩
    rw [List.getLast?_cons_of_ne_nil (List.ne_nil_of_mem (List.mem_of_getLast? hx)), hx] at hlatest
    cases hlatest
    exact hfollows
  · cases bs with
    | nil =>
        cases hlatest
        rintro x ⟨⟩
        exact Or.inl hfollows
    | cons x bs => exact h.first
  · refine List.forall_mem_append.mpr ⟨fun x hx => ?_, by simpa using hb⟩
    exact (h.le x hx).trans (Nat.le_succ n)

theorem of_suffix (h : Gapped P n g bs) (hn : n < 2 ^ 64 - 1) {bs' : List Block} (hs : bs' <:+ bs) :
    Gapped P n g bs' := by
  refine ⟨h.height, h.previousHash, ?_, h.links.suffix hs, ?_, fun b hb => h.le b (hs.mem hb)⟩
  · refine List.forall_mem_cons.mpr ⟨h.valid g (by simp), fun b hb => ?_⟩
    exact h.valid b (List.mem_cons_of_mem g (hs.mem hb))
  · intro b hb
    cases bs with
    | nil =>
        rw [List.suffix_nil.mp hs] at hb
        cases hb
    | cons x bs =>
        rcases List.suffix_cons_iff.mp hs with rfl | hs
        · exact h.first b hb
        · -- a block above the first one that was there
          have hlt := height_lt h.links hn h.le b (hs.mem (List.mem_of_mem_head? hb))
          rcases h.first x rfl with hfollows | hge
          · have hx : x.header.height.toNat = 1 := by
              rw [hfollows.height, h.height]
              rfl
            omega
          · omega

end Gapped

theorem gapped_run [Hex] {now : Timestamp} {g : GenesisBlock} {c₀ : Blockchain}
    (hnew : new P now g = .ok c₀) {ops : List ChainOp} (hops : ops.length < 2 ^ 64 - 1) :
    ∃ b bs, (Runs.run (opStep P) c₀ ops).blocks = b :: bs ∧ Gapped P ops.length b bs := by
  induction ops using List.reverseRecOn with
  | nil =>
      obtain ⟨b, hb, rfl⟩ := new_eq_ok.mp hnew
      have hb := GenesisBlock.isGenesis_of_createBlock hb
      refine ⟨b, [], rfl, hb.height, hb.previousHash, ?_, List.isChain_nil, ?_, ?_⟩
      · simpa using hb.valid
      · rintro x ⟨⟩
      · simp
  | append_singleton ops op ih =>
      rw [List.length_append, List.length_singleton] at hops ⊢
      obtain ⟨b, bs, hblocks, h⟩ := ih (by omega)
      rw [Runs.run_concat]
      generalize Runs.run (opStep P) c₀ ops = c at hblocks
      cases op with
      | addBlock x =>
          by_cases hadm : Admits P c x
          · refine ⟨b, bs ++ [x], ?_, h.concat ?_ hadm.valid hadm.follows⟩
            · rw [opStep, next_addBlock_of_admits hadm, blocks_extend, hblocks,
                List.cons_append]
            · rw [← hblocks]
              exact List.getLast?_eq_some_getLast c.blocks_ne
          · refine ⟨b, bs, ?_, h.mono (Nat.le_succ _)⟩
            rw [opStep, next_addBlock_of_not_admits hadm, hblocks]
      | pruneOldBlocks before =>
          have hkept : c.kept before <:+ bs := by
            rw [kept, hblocks]
            exact filter_suffix h.links before
          refine ⟨b, c.kept before, ?_, (h.of_suffix (by omega) hkept).mono (Nat.le_succ _)⟩
          rw [opStep, next_pruneOldBlocks, prune]
          simp [hblocks]

/-- **A pruned chain no longer verifies**, unless pruning took nothing or left nothing.  In every
state of every run of `add_block` and `prune_old_blocks`, the chain passes `verify` after another
`prune_old_blocks` exactly if that call drops no block and the chain passed before, or it drops
all blocks above the genesis block. -/
theorem verify_prune_iff [Hex] {now : Timestamp} {g : GenesisBlock} {c₀ c : Blockchain}
    (hnew : new P now g = .ok c₀) {ops : List ChainOp} (hops : ops.length < 2 ^ 64 - 1)
    (hc : c = Runs.run (opStep P) c₀ ops) (before : Timestamp) :
    ((pruneOldBlocks before).next c).verify P = .ok () ↔
      (c.verify P = .ok () ∧ c.dropped before = []) ∨ c.kept before = [] := by
  subst hc
  obtain ⟨b, bs, hblocks, h⟩ := gapped_run hnew hops
  generalize Runs.run (opStep P) c₀ ops = c at hblocks
  have hprune : (c.prune before).blocks = b :: c.kept before := by simp [prune, hblocks]
  have hkept : c.kept before <:+ bs := by
    rw [kept, hblocks]
    exact filter_suffix h.links before
  have hgapped := h.of_suffix hops hkept
  rw [next_pruneOldBlocks, verify_eq_ok, verify_eq_ok, hprune, hblocks, hgapped.verified_iff,
    h.verified_iff]
  constructor
  · intro hfirst
    cases bs with
    | nil => exact Or.inr (List.suffix_nil.mp hkept)
    | cons x bs =>
        rcases List.suffix_cons_iff.mp hkept with heq | hkept
        · refine Or.inl ⟨heq ▸ hfirst, ?_⟩
          have hall : ∀ y ∈ c.blocks.tail, decide (before ≤ y.timestamp) = true := by
            refine List.filter_eq_self.mp ?_
            rw [hblocks]
            simpa [kept, hblocks] using heq
          refine List.filter_eq_nil_iff.mpr fun y hy => ?_
          simpa using hall y hy
        · -- a block above the first one that was there cannot have height 1
          cases hk : c.kept before with
          | nil => exact Or.inr rfl
          | cons y ys =>
              rw [hk] at hfirst hkept
              have hlt := height_lt h.links hops h.le y (hkept.mem (by simp))
              rw [hfirst y rfl] at hlt
              have hone : (1 : UInt64).toNat = 1 := rfl
              have hx : x.header.height.toNat ≠ 0 := by
                rcases h.first x rfl with hfollows | hge
                · rw [hfollows.height, h.height]
                  decide
                · omega
              omega
  · rintro (⟨hfirst, hdropped⟩ | hnil)
    · have hall : c.kept before = bs := by
        have htail : c.blocks.tail = bs := by simp [hblocks]
        rw [kept, htail]
        refine List.filter_eq_self.mpr fun y hy => ?_
        rw [dropped, htail, List.filter_eq_nil_iff] at hdropped
        simpa using hdropped y hy
      rw [hall]
      exact hfirst
    · rw [hnil]
      rintro y ⟨⟩

/-- A block on the chain of `Reference`, and a later one on that. -/
def twoBlocks : List Block :=
  let first := Reference.chain.nextBlock Reference.primitives [Reference.vote 0] Reference.key
  [first, Block.new Reference.primitives 2000 2 first.hash [] Reference.key]

/-- The two blocks are taken in, and the first of them is then too old. -/
theorem verify_prune_iff_twoBlocks :
    ((pruneOldBlocks 2000).next (Runs.run (opStep Reference.primitives) Reference.chain
      (twoBlocks.map ChainOp.addBlock))).verify Reference.primitives ≠ .ok () := by
  have hrun : (Runs.run (opStep Reference.primitives) Reference.chain
      (twoBlocks.map ChainOp.addBlock)).blocks = Reference.genesisBlock :: twoBlocks := by
    have hadm := Reference.admits_votes [Reference.vote 0] (by simp)
    have hadm' : Admits Reference.primitives (Reference.chain.extend (Reference.chain.nextBlock
        Reference.primitives [Reference.vote 0] Reference.key))
        (Block.new Reference.primitives 2000 2 (Reference.chain.nextBlock
          Reference.primitives [Reference.vote 0] Reference.key).hash [] Reference.key) := by
      refine ⟨Block.valid_new _ (by simp), ⟨rfl, rfl, by decide⟩, by simp [Block.new], ?_⟩
      show 2 < maxVecLength
      decide
    simp only [twoBlocks, List.map_cons, List.map_nil, Runs.run_cons, Runs.run_nil, opStep,
      next_addBlock_of_admits hadm, next_addBlock_of_admits hadm']
    rfl
  rw [Ne, verify_prune_iff (Reference.new_genesis 0) (by decide) rfl, dropped, kept, hrun]
  rintro (⟨-, hdropped⟩ | hkept)
  · exact List.filter_eq_nil_iff.mp hdropped _ List.mem_cons_self (by decide)
  · exact List.filter_eq_nil_iff.mp hkept _ (List.mem_cons_of_mem _ List.mem_cons_self) (by decide)

end Blockchain

end VotingChain
