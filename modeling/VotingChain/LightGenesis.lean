/-
# `VotingChain.LightGenesis` — the genesis block, built twice

A full node takes its genesis block from `GenesisBlock::create_block`; a light node
builds one of its own.  The two differ in what is under the hash:

                     create_block              LightNode::initialize
    timestamp        the configured one        what the clock says
    transactions     one for each validator    none

so the light node's first header has another hash, and the header of every first
block that a full node accepts fails against it.  From there on headers follow each
other (`validateHeaders_of_shape`); it is the start that is wrong
(`light_genesis_iff`).
-/
import VotingChain.ChainInv
import VotingChain.LightNode

namespace VotingChain

namespace LightHeader

theorem validate_eq_ok [Hex] {header prev : LightHeader} {u : Unit} :
    header.validate (some prev) = .ok u ↔
      header.height = prev.height + 1 ∧ header.previousHash = prev.hash := by
  simp only [validate, bind_eq_ok, ensure_eq_ok, decide_eq_true_eq]
  constructor
  · rintro ⟨_, hheight, hprev⟩
    exact ⟨hheight, hprev⟩
  · rintro ⟨hheight, hprev⟩
    exact ⟨(), hheight, hprev⟩

/-- Headers checked in turn, each against the one before it. -/
def validateHeaders [Hex] (previous : LightHeader) : List LightHeader → Result Unit
  | [] => .ok ()
  | header :: headers => do
      header.validate (some previous)
      validateHeaders header headers

theorem validateHeaders_cons [Hex] {previous header : LightHeader} {headers : List LightHeader} :
    validateHeaders previous (header :: headers) = .ok () ↔
      header.validate (some previous) = .ok () ∧ validateHeaders header headers = .ok () := by
  rw [validateHeaders, bind_eq_ok]
  constructor
  · rintro ⟨_, hheader, hrest⟩
    exact ⟨hheader, hrest⟩
  · rintro ⟨hheader, hrest⟩
    exact ⟨(), hheader, hrest⟩

theorem validateHeaders_of_isChain [Hex] {b : Block} {bs : List Block}
    (h : (b :: bs).IsChain Block.Follows) :
    validateHeaders (fromBlock b) (bs.map fromBlock) = .ok () := by
  induction bs generalizing b with
  | nil => rfl
  | cons b' bs ih =>
      obtain ⟨hlink, hrest⟩ := List.isChain_cons_cons.mp h
      rw [List.map_cons, validateHeaders_cons, validate_eq_ok]
      exact ⟨⟨hlink.height, hlink.previousHash⟩, ih hrest⟩

end LightHeader

section
variable {P : Primitives}

theorem validateHeaders_of_shape [Hex] {c : Blockchain} (h : Blockchain.Shape P c) {b : Block}
    (hb : c.blocks.head? = some b) :
    LightHeader.validateHeaders (LightHeader.fromBlock b)
      (c.blocks.tail.map LightHeader.fromBlock) = .ok () := by
  refine LightHeader.validateHeaders_of_isChain ?_
  rw [List.cons_head?_tail hb]
  exact h.links

theorem head?_addBlocks [Hex] {c : Blockchain} {b : Block} (hb : c.blocks.head? = some b)
    (bs : List Block) : (c.addBlocks P bs).blocks.head? = some b := by
  refine Blockchain.addBlocks_invariant (I := fun c' => c'.blocks.head? = some b) ?_ hb bs
  intro c' x hc' _
  rw [Blockchain.extend, List.head?_append, hc']
  rfl

theorem LightNode.initializeNode_eq {now : Timestamp} {g : GenesisBlock}
    (hvalid : g.validate = .ok ()) (node : LightNode) :
    (initializeNode P now (some g)).exec node = (.ok (),
      { node with
        trustedValidators := node.trustedValidators ++ g.validators
        blockHeaders :=
          node.blockHeaders.insert 0 (LightHeader.fromBlock (genesisBlockAt P now g)) }) := by
  rw [initializeNode, Exec.exec_lift_bind, hvalid]
  rfl

/-- The two genesis blocks have the same header exactly if the clock shows the
configured time and the registrations leave no trace: their root is the zero hash and
their number, which is a `u32` under the hash, is zero. -/
theorem fromBlock_genesisBlockAt_eq_iff {now clock : Timestamp} {g : GenesisBlock} {b : Block}
    (hb : g.createBlock P clock = .ok b)
    (hhash : Set.InjOn P.blake2b256 {x | x = (LightNode.genesisBlockAt P now g).header.hashInput ∨
      x = b.header.hashInput}) :
    LightHeader.fromBlock (LightNode.genesisBlockAt P now g) = LightHeader.fromBlock b ↔
      now = g.timestamp ∧ g.validators.length % 2 ^ 32 = 0 ∧
        Block.calculateTransactionsRoot P (g.registrations P) = BlockHash.zero := by
  obtain ⟨key, hkey, rfl⟩ := GenesisBlock.createBlock_eq_ok.mp hb
  have hfirst : g.validators.head?.getD ⟨List.Vector.replicate 32 0⟩ = key := by
    rw [List.head?_eq_getElem?, hkey]
    rfl
  have hcount : UInt32.ofNat (g.registrations P).length = 0 ↔
      g.validators.length % 2 ^ 32 = 0 := by
    rw [GenesisBlock.registrations, List.length_map, List.length_zipIdx, ← UInt32.toNat_inj,
      UInt32.toNat_ofNat']
    rfl
  constructor
  · intro heq
    have hroot := congrArg LightHeader.transactionsRoot heq
    have htime := congrArg LightHeader.timestamp heq
    have hinput := hhash (Or.inl rfl) (Or.inr rfl)
      (congrArg BlockHash.bytes (congrArg LightHeader.hash heq))
    obtain ⟨-, -, -, -, -, hzero⟩ := BlockHeader.hashInput_inj hinput
    exact ⟨htime, hcount.mp hzero.symm, hroot.symm⟩
  · rintro ⟨htime, hmod, hroot⟩
    have hheader : (LightNode.genesisBlockAt P now g).header = (g.blockOf P key).header := by
      simp only [LightNode.genesisBlockAt, GenesisBlock.blockOf, Block.new, hfirst, htime, hroot,
        hcount.mpr hmod]
      rfl
    simp only [LightHeader.fromBlock, hheader]

theorem hash_ne_of_valid {b b' : Block} (hb : b.Valid P) (hb' : b'.Valid P)
    (hne : P.blake2b256 b.header.hashInput ≠ P.blake2b256 b'.header.hashInput) :
    b.header.hash ≠ b'.header.hash := by
  rw [hb.hash, hb'.hash]
  exact fun h => hne (congrArg BlockHash.bytes h)

/-- **Light and full nodes do not share the genesis.**  A light node set up at time
`now` from an acceptable configuration stores the header of the genesis block, and
the headers of every chain built on that block pass its check in turn, exactly if
`now` is the configured time, the number of validators is a multiple of 2³² and the
root over their registrations is the zero hash. -/
theorem light_genesis_iff [Hex] {now clock : Timestamp} {g : GenesisBlock}
    (hvalid : g.validate = .ok ()) {node : LightNode}
    (hinit : (LightNode.initializeNode P now (some g)).exec LightNode.new = (.ok (), node))
    {b : Block} (hb : g.createBlock P clock = .ok b) {c : Blockchain}
    (hnew : Blockchain.new P clock g = .ok c)
    (hhash : Set.InjOn P.blake2b256 {x | x = (LightNode.genesisBlockAt P now g).header.hashInput ∨
      x = b.header.hashInput}) :
    (∃ header, node.getHeader 0 = some header ∧ header = LightHeader.fromBlock b ∧
      ∀ bs, LightHeader.validateHeaders header
        ((c.addBlocks P bs).blocks.tail.map LightHeader.fromBlock) = .ok ()) ↔
    now = g.timestamp ∧ g.validators.length % 2 ^ 32 = 0 ∧
      Block.calculateTransactionsRoot P (g.registrations P) = BlockHash.zero := by
  rw [LightNode.initializeNode_eq hvalid] at hinit
  obtain rfl := (Prod.mk.inj hinit).2
  have hstored : LightNode.getHeader { LightNode.new with
      trustedValidators := LightNode.new.trustedValidators ++ g.validators
      blockHeaders := LightNode.new.blockHeaders.insert 0
        (LightHeader.fromBlock (LightNode.genesisBlockAt P now g)) } 0 =
      some (LightHeader.fromBlock (LightNode.genesisBlockAt P now g)) :=
    Finmap.lookup_insert _
  rw [← fromBlock_genesisBlockAt_eq_iff hb hhash, hstored]
  have hhead : c.blocks.head? = some b := by
    obtain ⟨b', hb', rfl⟩ := Blockchain.new_eq_ok.mp hnew
    rw [hb] at hb'
    cases hb'
    rfl
  constructor
  · rintro ⟨header, hheader, heq, -⟩
    rw [Option.some.inj hheader, heq]
  · intro heq
    refine ⟨_, rfl, heq, fun bs => ?_⟩
    rw [heq]
    exact validateHeaders_of_shape (Blockchain.shape_addBlocks hnew bs) (head?_addBlocks hhead bs)

end

namespace Reference

/-- The light node of `genesis`, set up at the configured time. -/
def lightAtGenesis : LightNode where
  blockHeaders := Finmap.insert 0
    (LightHeader.fromBlock (LightNode.genesisBlockAt primitives 1000 genesis)) ∅
  verifiedTransactions := ∅
  trustedValidators := [key]
  transactionsProcessed := 0

theorem initializeNode_lightAtGenesis :
    (LightNode.initializeNode primitives 1000 (some genesis)).exec LightNode.new =
      (.ok (), lightAtGenesis) :=
  LightNode.initializeNode_eq (GenesisBlock.validate_new (List.cons_ne_nil _ _) _ _) _

theorem getHeader_lightAtGenesis : lightAtGenesis.getHeader 0 =
    some (LightHeader.fromBlock (LightNode.genesisBlockAt primitives 1000 genesis)) :=
  Finmap.lookup_insert _

theorem hash_genesisBlockAt_ne :
    primitives.blake2b256 (LightNode.genesisBlockAt primitives 1000 genesis).header.hashInput ≠
      primitives.blake2b256 genesisBlock.header.hashInput := by
  decide +kernel

end Reference

/-- One validator, and a light node set up at the configured time: the two do not
share the genesis, since one validator is not a multiple of 2³². -/
theorem light_genesis_iff_sample :
    ¬ ∃ header, Reference.lightAtGenesis.getHeader 0 = some header ∧
      header = LightHeader.fromBlock Reference.genesisBlock ∧
      ∀ bs, LightHeader.validateHeaders header
        ((Reference.chain.addBlocks Reference.primitives bs).blocks.tail.map
          LightHeader.fromBlock) = .ok () := by
  rw [light_genesis_iff (P := Reference.primitives) (g := Reference.genesis)
    (GenesisBlock.validate_new (List.cons_ne_nil _ _) _ _) Reference.initializeNode_lightAtGenesis
    (Reference.createBlock_genesis 0) (Reference.new_genesis 0) ?_]
  · rintro ⟨-, hcount, -⟩
    exact absurd hcount (by decide)
  · rintro x (rfl | rfl) y (rfl | rfl) heq
    · rfl
    · exact absurd heq Reference.hash_genesisBlockAt_ne
    · exact absurd heq.symm Reference.hash_genesisBlockAt_ne
    · rfl

/-- The light node's genesis header is not that of the genesis block, and the first
block of the chain fails against it. -/
theorem light_genesis_differs :
    Reference.genesis.validate = .ok () ∧
    (LightNode.initializeNode Reference.primitives 1000 (some Reference.genesis)).exec
      LightNode.new = (.ok (), Reference.lightAtGenesis) ∧
    Reference.genesis.createBlock Reference.primitives 0 = .ok Reference.genesisBlock ∧
    Blockchain.Admits Reference.primitives Reference.chain
      (Reference.chain.nextBlock Reference.primitives [] Reference.key) ∧
    ∃ header, Reference.lightAtGenesis.getHeader 0 = some header ∧
      header ≠ LightHeader.fromBlock Reference.genesisBlock ∧
      (LightHeader.fromBlock (Reference.chain.nextBlock Reference.primitives []
        Reference.key)).validate (some header) ≠ .ok () := by
  have hne : (LightHeader.fromBlock (LightNode.genesisBlockAt Reference.primitives 1000
      Reference.genesis)).hash ≠ (LightHeader.fromBlock Reference.genesisBlock).hash :=
    hash_ne_of_valid (Block.valid_new _ nofun)
      (GenesisBlock.isGenesis_of_createBlock (Reference.createBlock_genesis 0)).valid
      Reference.hash_genesisBlockAt_ne
  refine ⟨GenesisBlock.validate_new (List.cons_ne_nil _ _) _ _,
    Reference.initializeNode_lightAtGenesis, Reference.createBlock_genesis 0,
    Reference.admits_votes [] (by simp), _, Reference.getHeader_lightAtGenesis, ?_, ?_⟩
  · intro heq
    exact hne (congrArg LightHeader.hash heq)
  · rw [Ne, LightHeader.validate_eq_ok]
    rintro ⟨-, hprev⟩
    exact hne hprev.symm

end VotingChain
