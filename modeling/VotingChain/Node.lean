/-
# `VotingChain.Node` — validator nodes and full nodes

The model of `node/src/validator.rs` and `node/src/full_node.rs`: the two paths
by which a block gets into a node's chain.

    ValidatorNode   handle_new_block   consensus check, then `add_block`
                    produce_block      builds and signs a block, checks it, adds it, broadcasts it
    FullNode        process_block      `add_block`

`produce_block` lets go of the chain between reading it and adding to it, so it is
two steps, `prepareBlock` and `commitBlock`.  The network component is the list of
blocks handed to `broadcast`; what becomes of them is up to `Network`.  Signing and
verifying are fields of `Ed25519`.

Neither path looks at the signatures of a block, whatever the comment in
`handle_new_block` says (`authentic_iff_not_ready`), and a full node does not ask
whose turn it was (`processBlock_iff_handleNewBlock`).
-/
import VotingChain.ChainInv
import VotingChain.Consensus

namespace VotingChain

open Blockchain (Admits addBlock addStep)

/-! ## Nodes -/

/-- Ed25519, as the `crypto` crate calls it. -/
structure Ed25519 where
  signMessage : KeyPair → Bytes → Result Signature
  verify : PublicKey → Bytes → Signature → Bool

/-- The counters the modelled functions write. -/
structure NodeStats where
  blocksProcessed : UInt64
  transactionsProcessed : UInt64
  blocksProduced : UInt64
  blocksValidated : UInt64
  deriving DecidableEq

def NodeStats.default : NodeStats := ⟨0, 0, 0, 0⟩

/-- The chain of a node, and the blocks it has handed to the network. -/
structure NodeComponents where
  blockchain : Blockchain
  broadcasts : List Block

/-- Validator node - produces and validates blocks. -/
structure ValidatorNode where
  validatorKey : KeyPair
  components : Option NodeComponents
  consensus : Option ProofOfAuthority
  stats : NodeStats

/-- Full node - maintains complete blockchain and validates all blocks. -/
structure FullNode where
  components : Option NodeComponents
  pendingTransactions : Finset TxId
  stats : NodeStats

namespace ValidatorNode
variable (E : Ed25519) (P : Primitives)

/-- A node that has not been started. -/
def new (validatorKey : KeyPair) : ValidatorNode := ⟨validatorKey, none, none, NodeStats.default⟩

/-- `initialize`: set the node up from the genesis configuration of its genesis
file; `now` is what the clock says. -/
def initializeNode (now : Timestamp) (genesis : GenesisBlock) : Exec ValidatorNode Unit := do
  Exec.lift genesis.validate
  let blockchain ← Exec.lift (Blockchain.new P now genesis)
  let consensus := ProofOfAuthority.new (ValidatorSet.new now genesis.validators)
  let ourPubkey := (← get).validatorKey.publicKey
  Exec.lift (ensure (consensus.isValidator ourPubkey) (.invalidValidator "Unauthorized validator"))
  -- the first ten turns are logged
  Exec.lift (forEach (fun height => (consensus.getBlockProducer height).map fun _ => ())
    [1, 2, 3, 4, 5, 6, 7, 8, 9, 10])
  modify fun node => { node with components := some ⟨blockchain, []⟩ }
  modify fun node => { node with consensus := some consensus }

/-- Put the chain back into the node. -/
def putBlockchain (components : NodeComponents) (blockchain : Blockchain) (node : ValidatorNode) :
    ValidatorNode :=
  { node with components := some { components with blockchain } }

/-- `produce_block` up to where it takes the chain for writing: nothing if it is
not our turn, else the signed block. -/
def prepareBlock [Hex] (now : Timestamp) (node : ValidatorNode) : Result (Option Block) :=
  match node.components with
  | none => fail .nodeNotInitialized
  | some components =>
    match node.consensus with
    | none => fail .nodeNotInitialized
    | some consensus => do
      let ourPubkey := node.validatorKey.publicKey
      ensure (consensus.isValidator ourPubkey) (.invalidValidator "Unauthorized validator")
      let nextHeight := components.blockchain.height + 1
      let previousHash := (← components.blockchain.getBestBlock).header.hash
      let expectedProducer ← consensus.getBlockProducer nextHeight
      if expectedProducer ≠ ourPubkey then return none
      let block := Block.new P now nextHeight previousHash [] ourPubkey
      let signature ← E.signMessage node.validatorKey block.hash.asBytes
      let block := block.addSignature ourPubkey signature
      consensus.validateBlock block
      return some block

/-- `produce_block` from there on.  `broadcast` is what the network returns; the
block is in its hands either way. -/
def commitBlock [Hex] (broadcast : Block → Result Unit) (block : Block) :
    Exec ValidatorNode Unit := do
  match (← get).components with
  | none => Exec.lift (fail .nodeNotInitialized)
  | some components =>
    Exec.on components.blockchain (putBlockchain components) (addBlock P block)
    modify fun node =>
      { node with components := node.components.map fun components =>
          { components with broadcasts := components.broadcasts ++ [block] } }
    Exec.lift (broadcast block)
    modify fun node => { node with stats := { node.stats with
      blocksProduced := node.stats.blocksProduced + 1
      blocksValidated := node.stats.blocksValidated + 1 } }

/-- `produce_block` with nothing in between. -/
def produceBlock [Hex] (now : Timestamp) (broadcast : Block → Result Unit) :
    Exec ValidatorNode Unit := do
  match ← Exec.lift (prepareBlock E P now (← get)) with
  | none => return ()
  | some block => commitBlock P broadcast block

/-- Take in a block from the network. -/
def handleNewBlock [Hex] (block : Block) : Exec ValidatorNode Unit := do
  let node ← get
  match node.components with
  | none => Exec.lift (fail .nodeNotInitialized)
  | some components =>
    match node.consensus with
    | none => Exec.lift (fail .nodeNotInitialized)
    | some consensus =>
      Exec.lift (ensure (consensus.isValidator block.header.validator)
        (.invalidValidator "Unauthorized validator"))
      Exec.lift (consensus.validateBlock block)
      Exec.on components.blockchain (putBlockchain components) (addBlock P block)
      modify fun node => { node with stats := { node.stats with
        blocksValidated := node.stats.blocksValidated + 1 } }

end ValidatorNode

namespace FullNode
variable (P : Primitives)

/-- Put the chain back into the node. -/
def putBlockchain (components : NodeComponents) (blockchain : Blockchain) (node : FullNode) :
    FullNode :=
  { node with components := some { components with blockchain } }

/-- Take in a block from the network. -/
def processBlock [Hex] (block : Block) : Exec FullNode Unit := do
  match (← get).components with
  | none => Exec.lift (fail .nodeNotInitialized)
  | some components =>
    Exec.on components.blockchain (putBlockchain components) (addBlock P block)
    modify fun node => { node with
      pendingTransactions :=
        block.transactions.foldl (fun pending tx => pending.erase tx.id) node.pendingTransactions }
    modify fun node => { node with stats := { node.stats with
      blocksProcessed := node.stats.blocksProcessed + 1
      transactionsProcessed :=
        node.stats.transactionsProcessed + UInt64.ofNat block.transactions.length } }

end FullNode

/-! ## What the calls do -/

namespace ValidatorNode
variable {E : Ed25519} {P : Primitives}

/-- The node once it has been set up. -/
def setUp (node : ValidatorNode) (now : Timestamp) (g : GenesisBlock) (c : Blockchain) :
    ValidatorNode :=
  { node with
    components := some ⟨c, []⟩
    consensus := some (ProofOfAuthority.new (ValidatorSet.new now g.validators)) }

/-- **What a successful call of `initialize` does.** -/
theorem initializeNode_eq_ok {now : Timestamp} {g : GenesisBlock} {node node' : ValidatorNode} :
    (initializeNode P now g).exec node = (.ok (), node') ↔
      g.validate = .ok () ∧ ∃ c, Blockchain.new P now g = .ok c ∧
        node.validatorKey.publicKey ∈ g.validators ∧ node' = node.setUp now g c := by
  simp only [initializeNode, Exec.exec_lift_bind]
  cases hvalid : g.validate with
  | error e => simp
  | ok _ =>
    cases hnew : Blockchain.new P now g with
    | error e => simp
    | ok c =>
      have hauth := ValidatorSet.isValidator_new now g.validators node.validatorKey.publicKey
      simp only [Exec.exec_get_bind, Exec.exec_lift_bind, ProofOfAuthority.isValidator,
        ProofOfAuthority.new]
      by_cases hmem : node.validatorKey.publicKey ∈ g.validators
      · have hturns : forEach (fun height => ((ProofOfAuthority.new
            (ValidatorSet.new now g.validators)).getBlockProducer height).map fun _ => ())
            [1, 2, 3, 4, 5, 6, 7, 8, 9, 10] = .ok () := by
          rw [forEach_eq_ok]
          intro height _
          obtain ⟨v, -, hv⟩ := ProofOfAuthority.exists_getBlockProducer
            (ProofOfAuthority.new (ValidatorSet.new now g.validators))
            (List.ne_nil_of_mem hmem) height
          rw [hv]
          rfl
        rw [ProofOfAuthority.new] at hturns
        simp [hauth.mpr hmem, ensure, hturns, hmem, setUp, ProofOfAuthority.new, eq_comm]
      · have hnot : (ValidatorSet.new now g.validators).isValidator
            node.validatorKey.publicKey = false :=
          Bool.eq_false_iff.mpr fun h => hmem (hauth.mp h)
        simp [hnot, ensure, fail, hmem]

variable (P) in
/-- `b` passes the checks of `handleNewBlock`: those of the consensus and those of
the chain. -/
def Accepts (node : ValidatorNode) (b : Block) : Prop :=
  ∃ components consensus, node.components = some components ∧ node.consensus = some consensus ∧
    consensus.Approves b ∧ Admits P components.blockchain b

/-- The node after it has taken in `b`. -/
def takeIn (node : ValidatorNode) (b : Block) : ValidatorNode :=
  { node with
    components := node.components.map fun components =>
      { components with blockchain := components.blockchain.extend b }
    stats := { node.stats with blocksValidated := node.stats.blocksValidated + 1 } }

theorem takeIn_components {node : ValidatorNode} {components : NodeComponents}
    (hcomp : node.components = some components) (b : Block) :
    (node.takeIn b).components =
      some { components with blockchain := components.blockchain.extend b } := by
  rw [takeIn, hcomp, Option.map_some]

theorem accepts_iff {node : ValidatorNode} {components : NodeComponents}
    {consensus : ProofOfAuthority} (hcomp : node.components = some components)
    (hcons : node.consensus = some consensus) {b : Block} :
    Accepts P node b ↔ consensus.Approves b ∧ Admits P components.blockchain b := by
  constructor
  · rintro ⟨components', consensus', hcomp', hcons', h⟩
    rw [hcomp] at hcomp'
    rw [hcons] at hcons'
    cases hcomp'
    cases hcons'
    exact h
  · intro h
    exact ⟨components, consensus, hcomp, hcons, h⟩

theorem putBlockchain_self {node : ValidatorNode} {components : NodeComponents}
    (hcomp : node.components = some components) :
    putBlockchain components components.blockchain node = node := by
  cases node
  cases hcomp
  rfl

/-- **What a call of `handleNewBlock` does.** -/
theorem handleNewBlock_cases [Hex] (node : ValidatorNode) (b : Block) :
    (Accepts P node b ∧ (handleNewBlock P b).exec node = (.ok (), node.takeIn b)) ∨
    (¬ Accepts P node b ∧ (∃ e, ((handleNewBlock P b).exec node).1 = .error e) ∧
      (handleNewBlock P b).next node = node) := by
  have hrefuse : ∀ e, (handleNewBlock P b).exec node = (.error e, node) →
      (∃ e, ((handleNewBlock P b).exec node).1 = .error e) ∧
        (handleNewBlock P b).next node = node :=
    fun e h => ⟨⟨e, by rw [h]⟩, Exec.next_of_error h⟩
  cases hcomp : node.components with
  | none =>
      refine Or.inr ⟨?_, hrefuse (.err .nodeNotInitialized) ?_⟩
      · rintro ⟨_, _, h, -⟩
        rw [hcomp] at h
        cases h
      · simp [handleNewBlock, hcomp, fail]
  | some components =>
    cases hcons : node.consensus with
    | none =>
        refine Or.inr ⟨?_, hrefuse (.err .nodeNotInitialized) ?_⟩
        · rintro ⟨_, _, _, h, -⟩
          rw [hcons] at h
          cases h
        · simp [handleNewBlock, hcomp, hcons, fail]
    | some consensus =>
      rw [accepts_iff hcomp hcons]
      by_cases happ : consensus.Approves b
      · have hval := (ProofOfAuthority.validateBlock_eq_ok (u := ())).mpr happ
        have hcalls : (handleNewBlock P b).exec node =
            (Exec.on components.blockchain (putBlockchain components) (addBlock P b) >>=
              fun _ => modify fun node => { node with stats := { node.stats with
                blocksValidated := node.stats.blocksValidated + 1 } } :
              Exec ValidatorNode Unit).exec node := by
          simp only [handleNewBlock, Exec.exec_get_bind, hcomp, hcons, Exec.exec_lift_bind,
            happ.authorized, hval, ensure, if_true]
        rw [hcalls] at hrefuse ⊢
        rcases Blockchain.on_addBlock_cases (P := P) (putBlockchain_self hcomp) b _ with
          ⟨hadm, hadd⟩ | ⟨hadm, e, hadd⟩ | ⟨hadm, hadd⟩
        · refine Or.inl ⟨⟨happ, hadm⟩, ?_⟩
          rw [hadd, takeIn, hcomp]
          rfl
        · exact Or.inr ⟨fun h => hadm h.2, hrefuse e hadd⟩
        · exact Or.inr ⟨fun h => hadm h.2, ⟨_, hadd⟩, Exec.next_of_panicked (hcalls ▸ hadd)⟩
      · refine Or.inr ⟨fun h => happ h.1, ?_⟩
        by_cases hauth : consensus.isValidator b.header.validator = true
        · cases hval : consensus.validateBlock b with
          | ok _ => exact absurd (ProofOfAuthority.validateBlock_eq_ok.mp hval) happ
          | error e =>
              refine hrefuse e ?_
              simp [handleNewBlock, hcomp, hcons, hauth, hval, ensure]
        · refine hrefuse (.err (.invalidValidator "Unauthorized validator")) ?_
          simp [handleNewBlock, hcomp, hcons, hauth, ensure, fail]

/-- A block that `produce_block` built for this node: its own, in its turn. -/
theorem approves_of_prepareBlock [Hex] {now : Timestamp} {node : ValidatorNode} {b : Block}
    (h : prepareBlock E P now node = .ok (some b)) :
    b.header.validator = node.validatorKey.publicKey ∧
      ∃ consensus, node.consensus = some consensus ∧ consensus.Approves b := by
  rw [prepareBlock] at h
  cases hcomp : node.components with
  | none => simp [hcomp, fail] at h
  | some components =>
    cases hcons : node.consensus with
    | none => simp [hcomp, hcons, fail] at h
    | some consensus =>
      simp only [hcomp, hcons, bind_eq_ok] at h
      obtain ⟨-, -, best, -, producer, -, h⟩ := h
      split at h
      · cases h
      · simp only [bind_eq_ok] at h
        obtain ⟨signature, -, _, hval, hb⟩ := h
        cases hb
        exact ⟨rfl, consensus, rfl, ProofOfAuthority.validateBlock_eq_ok.mp hval⟩

theorem prepareBlock_of_turn [Hex] {now : Timestamp} {node : ValidatorNode}
    {components : NodeComponents}
    {consensus : ProofOfAuthority} (hcomp : node.components = some components)
    (hcons : node.consensus = some consensus) {b : Block}
    (hb : b = Block.new P now (components.blockchain.height + 1)
      components.blockchain.latestBlock.header.hash [] node.validatorKey.publicKey)
    (happ : consensus.Approves b) {signature : Signature}
    (hsign : E.signMessage node.validatorKey b.hash.asBytes = .ok signature) :
    prepareBlock E P now node =
      .ok (some (b.addSignature node.validatorKey.publicKey signature)) := by
  have hbest : components.blockchain.getBestBlock = .ok components.blockchain.latestBlock := by
    rw [Blockchain.getBestBlock, List.getLast?_eq_some_getLast components.blockchain.blocks_ne]
    rfl
  have hval : consensus.validateBlock
      (b.addSignature node.validatorKey.publicKey signature) = .ok () :=
    ProofOfAuthority.validateBlock_eq_ok.mpr (happ.addSignature _ _)
  subst hb
  have hauth : consensus.isValidator node.validatorKey.publicKey = true := happ.authorized
  have hturn : consensus.getBlockProducer (components.blockchain.height + 1) =
      .ok node.validatorKey.publicKey := happ.turn
  simp [prepareBlock, hcomp, hcons, hbest, hauth, hturn, hsign, hval, ensure, bind, Except.bind,
    pure, Except.pure]

/-- The node once it has added `b` and handed it to the network. -/
def published (node : ValidatorNode) (components : NodeComponents) (b : Block) : ValidatorNode :=
  { node with
    components := some ⟨components.blockchain.extend b, components.broadcasts ++ [b]⟩ }

/-- **What a call of `commitBlock` does**: it stops where it was, or the block is
added and handed to the network, whose answer decides what is counted. -/
theorem commitBlock_cases [Hex] {node : ValidatorNode} {components : NodeComponents}
    (hcomp : node.components = some components) (broadcast : Block → Result Unit) (b : Block) :
    (Admits P components.blockchain b ∧ (commitBlock P broadcast b).exec node =
      match broadcast b with
      | .ok _ => (.ok (), { node.published components b with
          stats := { node.stats with
            blocksProduced := node.stats.blocksProduced + 1
            blocksValidated := node.stats.blocksValidated + 1 } })
      | .error e => (.error e, node.published components b)) ∨
    (¬ Admits P components.blockchain b ∧ (commitBlock P broadcast b).next node = node) := by
  have hcalls : (commitBlock P broadcast b).exec node =
      (Exec.on components.blockchain (putBlockchain components) (addBlock P b) >>= fun _ => do
        modify fun node =>
          { node with components := node.components.map fun components =>
              { components with broadcasts := components.broadcasts ++ [b] } }
        Exec.lift (broadcast b)
        modify fun node => { node with stats := { node.stats with
          blocksProduced := node.stats.blocksProduced + 1
          blocksValidated := node.stats.blocksValidated + 1 } } :
        Exec ValidatorNode Unit).exec node := by
    simp only [commitBlock, Exec.exec_get_bind, hcomp]
  rcases Blockchain.on_addBlock_cases (P := P) (putBlockchain_self hcomp) b _ with
    ⟨hadm, hadd⟩ | ⟨hadm, e, hadd⟩ | ⟨hadm, hadd⟩
  · refine Or.inl ⟨hadm, ?_⟩
    rw [hcalls, hadd, Exec.exec_modify_bind, Exec.exec_lift_bind]
    cases broadcast b <;> rfl
  · rw [← hcalls] at hadd
    exact Or.inr ⟨hadm, Exec.next_of_error hadd⟩
  · rw [← hcalls] at hadd
    exact Or.inr ⟨hadm, Exec.next_of_panicked hadd⟩

theorem next_commitBlock_cases [Hex] {node : ValidatorNode} {components : NodeComponents}
    (hcomp : node.components = some components) (broadcast : Block → Result Unit) (b : Block) :
    (Admits P components.blockchain b ∧ ∃ stats,
      (commitBlock P broadcast b).next node = { node.published components b with stats := stats }) ∨
    (commitBlock P broadcast b).next node = node := by
  rcases commitBlock_cases (P := P) hcomp broadcast b with ⟨hadm, hexec⟩ | ⟨-, hnext⟩
  · cases hout : broadcast b with
    | ok _ =>
        rw [hout] at hexec
        exact Or.inl ⟨hadm, _, Exec.next_of_ok hexec⟩
    | error e =>
        rw [hout] at hexec
        cases e with
        | err e =>
            refine Or.inl ⟨hadm, node.stats, ?_⟩
            rw [Exec.next, hexec]
            rfl
        | panicked => exact Or.inr (Exec.next_of_panicked (by rw [hexec]))
  · exact Or.inr hnext

theorem handleNewBlock_eq_ok [Hex] {node : ValidatorNode} {b : Block} :
    ((handleNewBlock P b).exec node).1 = .ok () ↔ Accepts P node b := by
  rcases handleNewBlock_cases (P := P) node b with ⟨h, hexec⟩ | ⟨h, ⟨e, hexec⟩, -⟩
  · simp [h, hexec]
  · simp [h, hexec]

theorem next_handleNewBlock_of_accepts [Hex] {node : ValidatorNode} {b : Block}
    (h : Accepts P node b) :
    (handleNewBlock P b).next node = node.takeIn b := by
  rcases handleNewBlock_cases (P := P) node b with ⟨-, hexec⟩ | ⟨hnot, -⟩
  · exact Exec.next_of_ok hexec
  · exact absurd h hnot

theorem next_handleNewBlock_of_not_accepts [Hex] {node : ValidatorNode} {b : Block}
    (h : ¬ Accepts P node b) : (handleNewBlock P b).next node = node := by
  rcases handleNewBlock_cases (P := P) node b with ⟨hacc, -⟩ | ⟨-, -, hnext⟩
  · exact absurd hacc h
  · exact hnext

end ValidatorNode

namespace FullNode
variable {P : Primitives}

/-- The node after it has taken in `b`. -/
def takeIn (node : FullNode) (b : Block) : FullNode where
  components := node.components.map fun components =>
    { components with blockchain := components.blockchain.extend b }
  pendingTransactions :=
    b.transactions.foldl (fun pending tx => pending.erase tx.id) node.pendingTransactions
  stats := { node.stats with
    blocksProcessed := node.stats.blocksProcessed + 1
    transactionsProcessed :=
      node.stats.transactionsProcessed + UInt64.ofNat b.transactions.length }

theorem takeIn_components {node : FullNode} {components : NodeComponents}
    (hcomp : node.components = some components) (b : Block) :
    (node.takeIn b).components =
      some { components with blockchain := components.blockchain.extend b } := by
  rw [takeIn, hcomp, Option.map_some]

theorem putBlockchain_self {node : FullNode} {components : NodeComponents}
    (hcomp : node.components = some components) :
    putBlockchain components components.blockchain node = node := by
  cases node
  cases hcomp
  rfl

/-- **What a call of `processBlock` does** to a node that has been set up. -/
theorem processBlock_cases [Hex] {node : FullNode} {components : NodeComponents}
    (hcomp : node.components = some components) (b : Block) :
    (Admits P components.blockchain b ∧
      (processBlock P b).exec node = (.ok (), node.takeIn b)) ∨
    (¬ Admits P components.blockchain b ∧ (∃ e, ((processBlock P b).exec node).1 = .error e) ∧
      (processBlock P b).next node = node) := by
  have hcalls : (processBlock P b).exec node =
      (Exec.on components.blockchain (putBlockchain components) (addBlock P b) >>= fun _ => do
        modify fun node => { node with
          pendingTransactions :=
            b.transactions.foldl (fun pending tx => pending.erase tx.id) node.pendingTransactions }
        modify fun node => { node with stats := { node.stats with
          blocksProcessed := node.stats.blocksProcessed + 1
          transactionsProcessed :=
            node.stats.transactionsProcessed + UInt64.ofNat b.transactions.length } } :
        Exec FullNode Unit).exec node := by
    simp only [processBlock, Exec.exec_get_bind, hcomp]
  rcases Blockchain.on_addBlock_cases (P := P) (putBlockchain_self hcomp) b _ with
    ⟨hadm, hadd⟩ | ⟨hadm, e, hadd⟩ | ⟨hadm, hadd⟩
  · refine Or.inl ⟨hadm, ?_⟩
    rw [hcalls, hadd, takeIn, hcomp]
    rfl
  · rw [← hcalls] at hadd
    exact Or.inr ⟨hadm, ⟨e, by rw [hadd]⟩, Exec.next_of_error hadd⟩
  · rw [← hcalls] at hadd
    exact Or.inr ⟨hadm, ⟨_, hadd⟩, Exec.next_of_panicked hadd⟩

theorem processBlock_eq_ok [Hex] {node : FullNode} {components : NodeComponents}
    (hcomp : node.components = some components) {b : Block} :
    ((processBlock P b).exec node).1 = .ok () ↔ Admits P components.blockchain b := by
  rcases processBlock_cases (P := P) hcomp b with ⟨h, hexec⟩ | ⟨h, ⟨e, hexec⟩, -⟩
  · simp [h, hexec]
  · simp [h, hexec]

end FullNode

namespace Reference

/-- The validator node of `key`, set up. -/
def validatorNode : ValidatorNode := (ValidatorNode.new keyPair).setUp 0 genesis chain

/-- A full node, set up. -/
def fullNode : FullNode := ⟨some ⟨chain, []⟩, ∅, NodeStats.default⟩

theorem initializeNode_validatorNode :
    (ValidatorNode.initializeNode primitives 0 genesis).exec (ValidatorNode.new keyPair) =
      (.ok (), validatorNode) :=
  ValidatorNode.initializeNode_eq_ok.mpr
    ⟨GenesisBlock.validate_new (List.cons_ne_nil _ _) _ _, chain, new_genesis 0,
      List.mem_singleton_self key, rfl⟩

theorem approves_nextBlock :
    (ProofOfAuthority.new (ValidatorSet.new 0 [key])).Approves
      (chain.nextBlock primitives [] key) :=
  ⟨by decide, by decide, by decide⟩

end Reference

/-! ## Signatures -/

/-- The block carries a signature by its producer that verifies over its hash, and
every other signature on it verifies and is by a validator. -/
def Authentic (E : Ed25519) (consensus : ProofOfAuthority) (b : Block) : Prop :=
  ∃ s ∈ b.signatures, s.validator = b.header.validator ∧
    E.verify s.validator b.hash.asBytes s.signature = true ∧
    ∀ s' ∈ b.signatures, s' ≠ s → consensus.isValidator s'.validator = true ∧
      E.verify s'.validator b.hash.asBytes s'.signature = true

namespace ValidatorNode
variable {P : Primitives}

/-- The node can still grow: it has been set up, its vector has room, the validator
whose turn is next is authorized, and some timestamp that is not before the latest
block's lies in its own time slot. -/
def Ready (node : ValidatorNode) : Prop :=
  ∃ components consensus producer timestamp,
    node.components = some components ∧ node.consensus = some consensus ∧
    components.blockchain.blocks.length < maxVecLength ∧
    consensus.getBlockProducer (components.blockchain.latestBlock.header.height + 1) = .ok producer ∧
    consensus.isValidator producer = true ∧
    components.blockchain.latestBlock.header.timestamp ≤ timestamp ∧
    consensus.validateTimestamp timestamp = .ok ()

theorem Accepts.ready {node : ValidatorNode} {b : Block} (h : Accepts P node b) : node.Ready := by
  obtain ⟨components, consensus, hcomp, hcons, happ, hadm⟩ := h
  refine ⟨components, consensus, b.header.validator, b.header.timestamp, hcomp, hcons, hadm.room,
    ?_, happ.authorized, hadm.follows.timestamp, happ.timing⟩
  rw [← hadm.follows.height]
  exact happ.turn

variable (P) in
/-- A node that can grow accepts a block without a single signature. -/
theorem Ready.exists_unsigned {node : ValidatorNode} (h : node.Ready) :
    ∃ b, Accepts P node b ∧ b.signatures = [] := by
  obtain ⟨components, consensus, producer, timestamp, hcomp, hcons, hroom, hturn, hauth, htime,
    htiming⟩ := h
  refine ⟨Block.new P timestamp (components.blockchain.latestBlock.header.height + 1)
    components.blockchain.latestBlock.header.hash [] producer,
    ⟨components, consensus, hcomp, hcons, ⟨hauth, hturn, htiming⟩, ?_⟩, rfl⟩
  exact ⟨Block.valid_new P nofun, ⟨rfl, rfl, htime⟩, nofun, hroom⟩

/-- **Blocks are not authenticated.**  Every block a validator node takes in is
authentic exactly if the node can take in no block at all. -/
theorem authentic_iff_not_ready [Hex] (E : Ed25519) (P : Primitives) (node : ValidatorNode) :
    (∀ b, ((handleNewBlock P b).exec node).1 = .ok () →
      ∃ consensus, node.consensus = some consensus ∧ Authentic E consensus b) ↔
    ¬ node.Ready := by
  constructor
  · intro hauth hready
    obtain ⟨b, hacc, hnone⟩ := hready.exists_unsigned P
    obtain ⟨_, -, s, hs, -⟩ := hauth b (handleNewBlock_eq_ok.mpr hacc)
    rw [hnone] at hs
    cases hs
  · intro hready b hb
    exact absurd (handleNewBlock_eq_ok.mp hb).ready hready

end ValidatorNode

namespace ValidatorNode

/-- A validator node that was just set up takes in a block without signatures,
whatever the signature scheme. -/
theorem unsigned_block_taken_in :
    (initializeNode Reference.primitives 0 Reference.genesis).exec (new Reference.keyPair) =
      (.ok (), Reference.validatorNode) ∧
    ((handleNewBlock Reference.primitives
      (Reference.chain.nextBlock Reference.primitives [] Reference.key)).exec
        Reference.validatorNode).1 = .ok () ∧
    ∀ E consensus, ¬ Authentic E consensus
      (Reference.chain.nextBlock Reference.primitives [] Reference.key) := by
  refine ⟨Reference.initializeNode_validatorNode, handleNewBlock_eq_ok.mpr ?_, ?_⟩
  · exact (accepts_iff rfl rfl).mpr
      ⟨Reference.approves_nextBlock, Reference.admits_votes [] (by simp)⟩
  · rintro E consensus ⟨s, hs, -⟩
    cases hs

end ValidatorNode

/-! ## Full nodes and validator nodes -/

/-- What a validator node does with a block, seen on its chain alone. -/
def approvedStep [Hex] (P : Primitives) (consensus : ProofOfAuthority) (c : Blockchain)
    (b : Block) : Blockchain :=
  match consensus.validateBlock b with
  | .ok _ => addStep P c b
  | .error _ => c

section
variable {P : Primitives} {consensus : ProofOfAuthority}

theorem approvedStep_of_approves [Hex] {c : Blockchain} {b : Block} (h : consensus.Approves b) :
    approvedStep P consensus c b = addStep P c b := by
  rw [approvedStep, (ProofOfAuthority.validateBlock_eq_ok (u := ())).mpr h]

theorem approvedStep_of_not_approves [Hex] {c : Blockchain} {b : Block}
    (h : ¬ consensus.Approves b) :
    approvedStep P consensus c b = c := by
  rw [approvedStep]
  cases hval : consensus.validateBlock b with
  | ok _ => exact absurd (ProofOfAuthority.validateBlock_eq_ok.mp hval) h
  | error e => rfl

theorem getElem?_addBlocks [Hex] {c : Blockchain} {n : Nat} {b : Block} (h : c.blocks[n]? = some b)
    (bs : List Block) : (c.addBlocks P bs).blocks[n]? = some b :=
  Blockchain.addBlocks_invariant (I := fun c' => c'.blocks[n]? = some b)
    (fun _ _ hc _ => Blockchain.getElem?_extend.mpr (Or.inl hc)) h bs

/-- A validator node has no block in its chain that the consensus refuses, past the
blocks it started with. -/
theorem getElem?_approvedRun [Hex] {c : Blockchain} {b : Block} (hb : ¬ consensus.Approves b)
    (bs : List Block) :
    (Runs.run (approvedStep P consensus) c bs).blocks[c.blocks.length]? ≠ some b := by
  -- slot `c.blocks.length` is filled once, by an approved block
  refine (Runs.run_preserves (I := fun c' : Blockchain => c.blocks.length ≤ c'.blocks.length ∧
    c'.blocks[c.blocks.length]? ≠ some b) ?_ ⟨le_rfl, by simp⟩ bs).2
  intro c' x hc'
  by_cases hx : consensus.Approves x
  · rw [approvedStep_of_approves hx, addStep]
    refine Blockchain.next_addBlock_preserves (I := fun c' : Blockchain =>
      c.blocks.length ≤ c'.blocks.length ∧ c'.blocks[c.blocks.length]? ≠ some b) hc' ?_
    intro _
    constructor
    · exact hc'.1.trans (by simp [Blockchain.extend])
    · intro hat
      rcases Blockchain.getElem?_extend.mp hat with hold | ⟨-, rfl⟩
      · exact hc'.2 hold
      · exact hb hx
  · rwa [approvedStep_of_not_approves hx]

/-- The two ways to take in blocks end with the same chain exactly if no block that
the chain admitted was one the consensus refuses.  Once they differ they differ
for good: the first such block stays in one chain and never enters the other. -/
theorem approvedRun_eq_iff [Hex] (c : Blockchain) (bs : List Block) :
    c.addBlocks P bs = Runs.run (approvedStep P consensus) c bs ↔
      Runs.Along (addStep P) (fun c b => Admits P c b → consensus.Approves b) c bs := by
  induction bs generalizing c with
  | nil => exact iff_of_true rfl trivial
  | cons b bs ih =>
      rw [Blockchain.addBlocks, Runs.run_cons, ← Blockchain.addBlocks, Runs.run_cons, Runs.Along]
      by_cases happ : consensus.Approves b
      · rw [approvedStep_of_approves happ, ih]
        exact (and_iff_right fun _ => happ).symm
      · rw [approvedStep_of_not_approves happ]
        by_cases hadm : Admits P c b
        · refine iff_of_false ?_ fun h => happ (h.1 hadm)
          intro heq
          refine getElem?_approvedRun happ bs (heq ▸ getElem?_addBlocks ?_ bs)
          rw [addStep, Blockchain.next_addBlock_of_admits hadm]
          exact Blockchain.getElem?_extend.mpr (Or.inr ⟨rfl, rfl⟩)
        · rw [addStep, Blockchain.next_addBlock_of_not_admits hadm, ih]
          exact (and_iff_right fun h => absurd h hadm).symm

end

/-- A full node fed with blocks. -/
def FullNode.feed [Hex] (P : Primitives) (node : FullNode) (bs : List Block) : FullNode :=
  Runs.run (fun node b => (processBlock P b).next node) node bs

/-- A validator node fed with blocks. -/
def ValidatorNode.feed [Hex] (P : Primitives) (node : ValidatorNode) (bs : List Block) :
    ValidatorNode :=
  Runs.run (fun node b => (handleNewBlock P b).next node) node bs

section
variable {P : Primitives}

theorem FullNode.feed_blockchain [Hex] {node : FullNode} {components : NodeComponents}
    (hcomp : node.components = some components) (bs : List Block) :
    (node.feed P bs).components =
      some { components with blockchain := components.blockchain.addBlocks P bs } := by
  induction bs generalizing node components with
  | nil => exact hcomp
  | cons b bs ih =>
      rw [feed, Runs.run_cons, ← feed, Blockchain.addBlocks, Runs.run_cons, ← Blockchain.addBlocks,
        addStep]
      rcases processBlock_cases (P := P) hcomp b with ⟨hadm, hexec⟩ | ⟨hadm, -, hnext⟩
      · rw [Exec.next_of_ok hexec, Blockchain.next_addBlock_of_admits hadm]
        exact ih (takeIn_components hcomp b)
      · rw [hnext, Blockchain.next_addBlock_of_not_admits hadm]
        exact ih hcomp

theorem ValidatorNode.feed_blockchain [Hex] {node : ValidatorNode} {components : NodeComponents}
    {consensus : ProofOfAuthority} (hcomp : node.components = some components)
    (hcons : node.consensus = some consensus) (bs : List Block) :
    (node.feed P bs).components = some { components with
      blockchain := Runs.run (approvedStep P consensus) components.blockchain bs } := by
  induction bs generalizing node components with
  | nil => exact hcomp
  | cons b bs ih =>
      rw [feed, Runs.run_cons, ← feed, Runs.run_cons]
      by_cases hacc : Accepts P node b
      · obtain ⟨happ, hadm⟩ := (accepts_iff hcomp hcons).mp hacc
        rw [next_handleNewBlock_of_accepts hacc, approvedStep_of_approves happ, addStep,
          Blockchain.next_addBlock_of_admits hadm]
        exact ih (takeIn_components hcomp b) hcons
      · have hstay : approvedStep P consensus components.blockchain b = components.blockchain := by
          by_cases happ : consensus.Approves b
          · have hadm : ¬ Admits P components.blockchain b :=
              fun hadm => hacc ((accepts_iff hcomp hcons).mpr ⟨happ, hadm⟩)
            rw [approvedStep_of_approves happ, addStep, Blockchain.next_addBlock_of_not_admits hadm]
          · exact approvedStep_of_not_approves happ
        rw [next_handleNewBlock_of_not_accepts hacc, hstay]
        exact ih hcomp hcons

/-- **Full nodes follow other rules.**  A full node and a validator node with the
same chain both take in or both refuse a block exactly if the chain refuses it or
the consensus approves it; and fed with the same blocks they end with the same
chain exactly if every block that the full node's chain admits on the way is one
the consensus approves. -/
theorem processBlock_iff_handleNewBlock [Hex] {full : FullNode} {validator : ValidatorNode}
    {components components' : NodeComponents} {consensus : ProofOfAuthority}
    (hfull : full.components = some components) (hval : validator.components = some components')
    (hcons : validator.consensus = some consensus)
    (hchain : components.blockchain = components'.blockchain) :
    (∀ b, (((FullNode.processBlock P b).exec full).1 = .ok () ↔
        ((ValidatorNode.handleNewBlock P b).exec validator).1 = .ok ()) ↔
      (Admits P components.blockchain b → consensus.Approves b)) ∧
    ∀ bs, (full.feed P bs).components.map NodeComponents.blockchain =
        (validator.feed P bs).components.map NodeComponents.blockchain ↔
      Runs.Along (addStep P) (fun c b => Admits P c b → consensus.Approves b)
        components.blockchain bs := by
  constructor
  · intro b
    rw [FullNode.processBlock_eq_ok hfull, ValidatorNode.handleNewBlock_eq_ok,
      ValidatorNode.accepts_iff hval hcons, ← hchain]
    exact ⟨fun h hadm => (h.mp hadm).1, fun h => ⟨fun hadm => ⟨h hadm, hadm⟩, And.right⟩⟩
  · intro bs
    rw [FullNode.feed_blockchain hfull, ValidatorNode.feed_blockchain hval hcons, ← hchain,
      Option.map_some, Option.map_some, Option.some.injEq]
    exact approvedRun_eq_iff components.blockchain bs

/-- A full node and a validator node with the same genesis chain both take in a
block of the validator whose turn it is. -/
theorem processBlock_iff_handleNewBlock_sample :
    ((FullNode.processBlock Reference.primitives
        (Reference.chain.nextBlock Reference.primitives [] Reference.key)).exec
          Reference.fullNode).1 = .ok () ↔
      ((ValidatorNode.handleNewBlock Reference.primitives
        (Reference.chain.nextBlock Reference.primitives [] Reference.key)).exec
          Reference.validatorNode).1 = .ok () :=
  ((processBlock_iff_handleNewBlock rfl rfl rfl rfl).1 _).mpr
    fun _ => Reference.approves_nextBlock

/-- A full node takes in a block of a key that is no validator's; a validator node
refuses it. -/
theorem foreign_block_taken_in :
    ((FullNode.processBlock Reference.primitives (Reference.chain.nextBlock Reference.primitives []
      ⟨List.Vector.replicate 32 2⟩)).exec Reference.fullNode).1 = .ok () ∧
    ¬ ((ValidatorNode.handleNewBlock Reference.primitives (Reference.chain.nextBlock
      Reference.primitives [] ⟨List.Vector.replicate 32 2⟩)).exec
        Reference.validatorNode).1 = .ok () := by
  have hroom : Reference.chain.blocks.length < maxVecLength :=
    (Reference.admits_votes [] (by simp)).room
  refine ⟨(FullNode.processBlock_eq_ok rfl).mpr ?_, ?_⟩
  · exact Blockchain.admits_nextBlock _ nofun nofun hroom
  · rw [ValidatorNode.handleNewBlock_eq_ok]
    intro hacc
    have happ := ((ValidatorNode.accepts_iff rfl rfl).mp hacc).1
    exact absurd happ.authorized (by decide)

end

end VotingChain
