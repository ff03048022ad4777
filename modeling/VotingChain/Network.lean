/-
# `VotingChain.Network` — any number of validator nodes

A network of validator nodes that were set up from the same genesis file and
share no key.  Its steps are the two halves of `produce_block` and the delivery of
a block to `handle_new_block`:

    prepare    a node builds and signs a block on its chain, at any time, whatever its clock says
    commit     it adds such a block to its chain, if that still fits, and broadcasts it
    deliver    any node takes in any block that any node has broadcast

Nothing says when a block is delivered, or in which order, or how often, or
whether at all; and between `prepare` and `commit` a node may take in blocks and
prepare others.  A call of `produce_block` that nothing interrupts is the two steps
in a row (`exists_produced`).

The network is a `SlotLog` (`simulate`): a block's slot is its height, and the
owner of a slot is the node whose turn it is.  A node commits only a block of its
own turn at the end of its own chain, so it writes a slot at most once; it copies
only what was broadcast.  Neither collisions nor repeated validators in the
genesis file matter for that.
-/
import VotingChain.Lib.SlotLog
import VotingChain.Node

namespace VotingChain.Network

open Blockchain (Shape)

/-- The nodes, and the blocks each has prepared and not committed yet. -/
structure Net (ι : Type) where
  node : ι → ValidatorNode
  prepared : ι → List Block

/-- The blocks a node has handed to the network. -/
def broadcasts (node : ValidatorNode) : List Block :=
  match node.components with
  | some components => components.broadcasts
  | none => []

section
variable {ι : Type} (E : Ed25519) (P : Primitives) (g : GenesisBlock)
  (keyPair : ι → KeyPair)

/-- Every node has been set up from `g`, each by its own clock. -/
def Init (s : Net ι) : Prop :=
  ∀ i, (∃ now, (ValidatorNode.initializeNode P now g).exec (ValidatorNode.new (keyPair i)) =
    (.ok (), s.node i)) ∧ s.prepared i = []

inductive Step [Hex] [DecidableEq ι] : Net ι → Net ι → Prop
  | prepare {s : Net ι} (i : ι) (now : Timestamp) (b : Block) :
      ValidatorNode.prepareBlock E P now (s.node i) = .ok (some b) →
      Step s { s with prepared := Function.update s.prepared i (b :: s.prepared i) }
  | commit {s : Net ι} (i : ι) (b : Block) (broadcast : Block → Result Unit) :
      b ∈ s.prepared i →
      Step s
        { node := Function.update s.node i
            ((ValidatorNode.commitBlock P broadcast b).next (s.node i))
          prepared := Function.update s.prepared i ((s.prepared i).erase b) }
  | deliver {s : Net ι} (i j : ι) (b : Block) :
      b ∈ broadcasts (s.node j) →
      Step s
        { s with
          node := Function.update s.node i ((ValidatorNode.handleNewBlock P b).next (s.node i)) }

/-! ## Turns -/

/-- The turn order of the genesis configuration. -/
def producer (height : BlockHeight) : Result PublicKey :=
  (ProofOfAuthority.new (ValidatorSet.new 0 g.validators)).getBlockProducer height

/-- The slot of a block. -/
def slot (b : Block) : Nat := b.header.height.toNat

/-- The node whose turn it is at a height. -/
def owner (n : Nat) (i : ι) : Prop := producer g (UInt64.ofNat n) = .ok (keyPair i).publicKey

/-- What is true of one node: its key is its own, it goes by the turn order of `g`,
and its chain has the right shape and was written in turn. -/
structure NodeOk (i : ι) (node : ValidatorNode) (c : Blockchain) (sent : List Block) : Prop where
  key : node.validatorKey = keyPair i
  components : node.components = some ⟨c, sent⟩
  consensus : ∃ now,
    node.consensus = some (ProofOfAuthority.new (ValidatorSet.new now g.validators))
  shape : Shape P c
  turns : ∀ (n : Nat) (b : Block), 1 ≤ n → c.blocks[n]? = some b →
    producer g b.header.height = .ok b.header.validator

/-- The network and the replicated log it implements. -/
structure Related (s : Net ι) (t : SlotLog.State ι Block) : Prop where
  nodes : ∀ i, ∃ c sent, NodeOk P g keyPair i (s.node i) c sent ∧ t.log i = c.blocks ∧
    ∀ b ∈ sent, b ∈ t.sent
  prepared : ∀ i, ∀ b ∈ s.prepared i, b.header.validator = (keyPair i).publicKey ∧
    producer g b.header.height = .ok b.header.validator

variable {E P g keyPair}

theorem producer_eq (now : Timestamp) (height : BlockHeight) :
    (ProofOfAuthority.new (ValidatorSet.new now g.validators)).getBlockProducer height =
      producer g height :=
  ProofOfAuthority.getBlockProducer_congr rfl height

theorem owner_unique (hkeys : Function.Injective fun i => (keyPair i).publicKey) (n : Nat)
    (i j : ι) (hi : owner g keyPair n i) (hj : owner g keyPair n j) : i = j :=
  hkeys (Except.ok.inj (hi.symm.trans hj))

theorem NodeOk.extend {i : ι} {node node' : ValidatorNode} {c : Blockchain}
    {sent sent' : List Block}
    (h : NodeOk P g keyPair i node c sent) {b : Block} (hadm : Blockchain.Admits P c b)
    (hturn : producer g b.header.height = .ok b.header.validator)
    (hkey : node'.validatorKey = node.validatorKey) (hcons : node'.consensus = node.consensus)
    (hcomp : node'.components = some ⟨c.extend b, sent'⟩) :
    NodeOk P g keyPair i node' (c.extend b) sent' where
  key := hkey.trans h.key
  components := hcomp
  consensus := by
    obtain ⟨now, hnow⟩ := h.consensus
    exact ⟨now, hcons.trans hnow⟩
  shape := h.shape.extend hadm
  turns n x hn hx := by
    rcases Blockchain.getElem?_extend.mp hx with hx | ⟨-, rfl⟩
    · exact h.turns n x hn hx
    · exact hturn

theorem slot_eq_length {c : Blockchain} (hshape : Shape P c) {b : Block}
    (hadm : Blockchain.Admits P c b) : slot b = c.blocks.length := by
  rw [slot, hadm.follows.height, hshape.height_latestBlock, hshape.toNat_succ_height]

/-! ## The simulation -/

variable [DecidableEq ι]

/-- One node takes in a block, the others stay as they are: the abstract step
appends the block to that node's log. -/
theorem Related.append {s : Net ι} {t : SlotLog.State ι Block} (hR : Related P g keyPair s t)
    {i : ι} {node' : ValidatorNode} {c : Blockchain} {sent' : List Block} {b : Block}
    (hlog : t.log i = c.blocks) (hnode : NodeOk P g keyPair i node' (c.extend b) sent')
    {sentSet : Set Block} (hkeep : ∀ x ∈ t.sent, x ∈ sentSet) (hnew : ∀ x ∈ sent', x ∈ sentSet)
    {prepared' : ι → List Block} (hprep : ∀ j, ∀ x ∈ prepared' j, x ∈ s.prepared j) :
    Related P g keyPair { node := Function.update s.node i node', prepared := prepared' }
      ⟨t.append i b, sentSet⟩ where
  nodes j := by
    by_cases hj : j = i
    · subst hj
      refine ⟨c.extend b, sent', ?_, ?_, hnew⟩
      · simpa using hnode
      · simp [SlotLog.State.append, hlog, Blockchain.extend]
    · obtain ⟨c', out, hok, hlog', hout⟩ := hR.nodes j
      refine ⟨c', out, ?_, ?_, fun x hx => hkeep x (hout x hx)⟩
      · simpa [hj] using hok
      · simpa [SlotLog.State.append, hj] using hlog'
  prepared j x hx := hR.prepared j x (hprep j x hx)

theorem Related.stay {s : Net ι} {t : SlotLog.State ι Block} (hR : Related P g keyPair s t)
    {i : ι} {node' : ValidatorNode} (hnode : node' = s.node i)
    {prepared' : ι → List Block} (hprep : ∀ j, ∀ x ∈ prepared' j, x ∈ s.prepared j) :
    Related P g keyPair { node := Function.update s.node i node', prepared := prepared' } t where
  nodes j := by
    rw [hnode, Function.update_eq_self]
    exact hR.nodes j
  prepared j x hx := hR.prepared j x (hprep j x hx)

theorem mem_update_erase {s : Net ι} {i : ι} {b : Block} {j : ι} {x : Block}
    (h : x ∈ Function.update s.prepared i ((s.prepared i).erase b) j) : x ∈ s.prepared j := by
  by_cases hj : j = i
  · subst hj
    rw [Function.update_self] at h
    exact List.mem_of_mem_erase h
  · rwa [Function.update_of_ne hj] at h

theorem mem_update_cons {s : Net ι} {i : ι} {b : Block} {j : ι} {x : Block}
    (h : x ∈ Function.update s.prepared i (b :: s.prepared i) j) :
    (j = i ∧ x = b) ∨ x ∈ s.prepared j := by
  by_cases hj : j = i
  · subst hj
    rw [Function.update_self, List.mem_cons] at h
    exact h.imp_left fun hx => ⟨rfl, hx⟩
  · rw [Function.update_of_ne hj] at h
    exact Or.inr h

omit [DecidableEq ι] in
theorem related_init {s : Net ι} {c₀ : Blockchain} (hnew : ∀ now, Blockchain.new P now g = .ok c₀)
    (h : Init P g keyPair s) : Related P g keyPair s ⟨fun _ => c₀.blocks, ∅⟩ where
  nodes i := by
    obtain ⟨⟨now, hinit⟩, -⟩ := h i
    obtain ⟨-, c, hc, -, hnode⟩ := ValidatorNode.initializeNode_eq_ok.mp hinit
    obtain rfl : c = c₀ := Except.ok.inj (hc.symm.trans (hnew now))
    refine ⟨c, [], ⟨?_, ?_, ⟨now, ?_⟩, Blockchain.shape_of_new hc, ?_⟩, rfl, nofun⟩
    · rw [hnode]; rfl
    · rw [hnode]; rfl
    · rw [hnode]; rfl
    · obtain ⟨b₀, -, rfl⟩ := Blockchain.new_eq_ok.mp hc
      intro n b hn hb
      rw [Blockchain.ofGenesis, List.getElem?_singleton, if_neg (by omega)] at hb
      cases hb
  prepared i b hb := by
    rw [(h i).2] at hb
    cases hb

/-- **Every step of the network is a step of the replicated log**, or changes no
chain. -/
theorem simulate [Hex] {s s' : Net ι} {t : SlotLog.State ι Block} (hstep : Step E P s s')
    (hR : Related P g keyPair s t) :
    ∃ t', (t' = t ∨ SlotLog.Next slot (owner g keyPair) t t') ∧ Related P g keyPair s' t' := by
  cases hstep with
  | prepare i now b hb =>
      refine ⟨t, Or.inl rfl, hR.nodes, ?_⟩
      intro j x hx
      rcases mem_update_cons hx with ⟨rfl, rfl⟩ | hx
      · obtain ⟨c, sent, hok, -⟩ := hR.nodes j
        obtain ⟨now', hcons⟩ := hok.consensus
        obtain ⟨hkey, consensus, hcons', happ⟩ := ValidatorNode.approves_of_prepareBlock hb
        rw [hcons, Option.some.injEq] at hcons'
        subst hcons'
        exact ⟨by rw [hkey, hok.key], (producer_eq now' _).symm.trans happ.turn⟩
      · exact hR.prepared j x hx
  | commit i b broadcast hb =>
      obtain ⟨c, sent, hok, hlog, hsent⟩ := hR.nodes i
      obtain ⟨hval, hturn⟩ := hR.prepared i b hb
      rcases ValidatorNode.next_commitBlock_cases (P := P) hok.components broadcast b with
        ⟨hadm, stats, hnext⟩ | hstay
      · have hslot := slot_eq_length hok.shape hadm
        refine ⟨⟨t.append i b, insert b t.sent⟩, Or.inr (.write i b _ ?_ ?_ (subset_refl _)), ?_⟩
        · rw [owner, slot, UInt64.ofNat_toNat, hturn, hval]
        · rw [hlog, hslot]
        · have hnode : NodeOk P g keyPair i
              ((ValidatorNode.commitBlock P broadcast b).next (s.node i)) (c.extend b)
              (sent ++ [b]) := by
            rw [hnext]
            exact hok.extend hadm hturn rfl rfl rfl
          refine hR.append hlog hnode (fun x hx => Set.mem_insert_of_mem b hx) ?_
            (fun j x => mem_update_erase)
          intro x hx
          rcases List.mem_append.mp hx with hx | hx
          · exact Set.mem_insert_of_mem b (hsent x hx)
          · rw [List.mem_singleton.mp hx]
            exact Set.mem_insert b t.sent
      · exact ⟨t, Or.inl rfl, hR.stay hstay fun j x => mem_update_erase⟩
  | deliver i j b hb =>
      obtain ⟨c, sent, hok, hlog, hsent⟩ := hR.nodes i
      obtain ⟨c', sent', hok', -, hsent'⟩ := hR.nodes j
      have hmem : b ∈ t.sent := by
        rw [broadcasts, hok'.components] at hb
        exact hsent' b hb
      by_cases hacc : ValidatorNode.Accepts P (s.node i) b
      · obtain ⟨now, hcons⟩ := hok.consensus
        obtain ⟨happ, hadm⟩ := (ValidatorNode.accepts_iff hok.components hcons).mp hacc
        have hturn : producer g b.header.height = .ok b.header.validator :=
          (producer_eq now _).symm.trans happ.turn
        refine ⟨⟨t.append i b, t.sent⟩, Or.inr (.copy i b hmem ?_), ?_⟩
        · rw [hlog, slot_eq_length hok.shape hadm]
        · refine hR.append hlog (hok.extend hadm hturn ?_ ?_ ?_) (fun x hx => hx) hsent
            (fun j x hx => hx)
          · rw [ValidatorNode.next_handleNewBlock_of_accepts hacc]; rfl
          · rw [ValidatorNode.next_handleNewBlock_of_accepts hacc]; rfl
          · rw [ValidatorNode.next_handleNewBlock_of_accepts hacc,
              ValidatorNode.takeIn_components hok.components]
      · exact ⟨t, Or.inl rfl,
          hR.stay (ValidatorNode.next_handleNewBlock_of_not_accepts hacc) fun j x hx => hx⟩

/-! ## Agreement -/

theorem exists_related [Hex] {s : Net ι} (hs : Runs.Reach (Init P g keyPair) (Step E P) s) (i : ι) :
    ∃ base t, SlotLog.Inv slot (owner g keyPair) base t ∧ Related P g keyPair s t := by
  obtain ⟨s₀, hs₀⟩ := hs.exists_init
  obtain ⟨⟨now, hinit⟩, -⟩ := hs₀ i
  obtain ⟨-, c₀, hnew, -⟩ := ValidatorNode.initializeNode_eq_ok.mp hinit
  have hsim : ∃ t, Runs.Reach (SlotLog.Init c₀.blocks) (SlotLog.Next slot (owner g keyPair)) t ∧
      Related P g keyPair s t := by
    refine hs.simulate ?_ (fun s s' t hstep hR => simulate hstep hR)
    intro s hs
    exact ⟨_, ⟨fun _ => rfl, rfl⟩, related_init (Blockchain.new_clock hnew) hs⟩
  obtain ⟨t, ht, hR⟩ := hsim
  exact ⟨c₀.blocks, t, SlotLog.inv_reach ht, hR⟩

/-- **Agreement.**  In every reachable state of a network of validator nodes that
share no key, all nodes whose chain reaches a height above genesis hold the same
block there, that block is by the validator whose turn the height is, and of two
chains the shorter is a prefix of the longer. -/
theorem agreement [Hex] (hkeys : Function.Injective fun i => (keyPair i).publicKey) {s : Net ι}
    (hs : Runs.Reach (Init P g keyPair) (Step E P) s) :
    ∃ chain : ι → Blockchain, (∀ i, ∃ sent, (s.node i).components = some ⟨chain i, sent⟩) ∧
      (∀ h : BlockHeight, 1 ≤ h → ∀ i j, h ≤ (chain i).height → h ≤ (chain j).height →
        ∃ b, (chain i).getBlockByHeight h = .ok (some b) ∧
          (chain j).getBlockByHeight h = .ok (some b) ∧
          ∀ consensus, (s.node i).consensus = some consensus →
            consensus.getBlockProducer h = .ok b.header.validator) ∧
      ∀ i j, (chain i).height ≤ (chain j).height → (chain i).blocks <+: (chain j).blocks := by
  rcases isEmpty_or_nonempty ι with hempty | ⟨⟨i₀⟩⟩
  · exact ⟨isEmptyElim, isEmptyElim, fun _ _ => isEmptyElim, isEmptyElim⟩
  obtain ⟨base, t, hinv, hR⟩ := exists_related hs i₀
  choose chain sent hok hlog _ using hR.nodes
  have hreach : ∀ i (h : BlockHeight), h ≤ (chain i).height →
      ∃ b, (chain i).blocks[h.toNat]? = some b := by
    intro i h hle
    have hlt : h.toNat < (chain i).blocks.length := by
      have := (hok i).shape.height
      have := UInt64.le_iff_toNat_le.mp hle
      omega
    exact ⟨_, List.getElem?_eq_getElem hlt⟩
  refine ⟨chain, fun i => ⟨sent i, (hok i).components⟩, ?_, ?_⟩
  · intro h hone i j hi hj
    obtain ⟨b, hb⟩ := hreach i h hi
    obtain ⟨b', hb'⟩ := hreach j h hj
    have heq : b = b' :=
      hinv.entry_unique (owner_unique hkeys) (by rw [hlog]; exact hb) (by rw [hlog]; exact hb')
    subst heq
    refine ⟨b, ?_, ?_, ?_⟩
    · rw [(hok i).shape.getBlockByHeight_eq, hb]
    · rw [(hok j).shape.getBlockByHeight_eq, hb']
    · intro consensus hcons
      obtain ⟨now, hnow⟩ := (hok i).consensus
      obtain rfl := Option.some.inj (hnow.symm.trans hcons)
      have hheight : b.header.height = h :=
        UInt64.toNat_inj.mp ((hok i).shape.heights _ b hb)
      rw [producer_eq, ← hheight]
      exact (hok i).turns _ b (UInt64.le_iff_toNat_le.mp hone) hb
  · intro i j hle
    rw [← hlog, ← hlog]
    refine hinv.prefix_of_length_le (owner_unique hkeys) ?_
    have := (hok i).shape.height
    have := (hok j).shape.height
    have := UInt64.le_iff_toNat_le.mp hle
    rw [hlog, hlog]
    omega

/-! ## Runs that happen -/

theorem exists_produced [Hex] {s : Net ι} (hs : Runs.Reach (Init P g keyPair) (Step E P) s) (i : ι)
    (now : Timestamp) (broadcast : Block → Result Unit) :
    ∃ s', Runs.Reach (Init P g keyPair) (Step E P) s' ∧ s'.node =
      Function.update s.node i ((ValidatorNode.produceBlock E P now broadcast).next (s.node i)) := by
  have hidle : ∀ r, (ValidatorNode.produceBlock E P now broadcast).exec (s.node i) =
      (r, s.node i) → (ValidatorNode.produceBlock E P now broadcast).next (s.node i) = s.node i := by
    intro r hr
    cases r with
    | ok _ => exact Exec.next_of_ok hr
    | error e => exact Exec.next_of_error hr
  cases hprep : ValidatorNode.prepareBlock E P now (s.node i) with
  | error e =>
      refine ⟨s, hs, ?_⟩
      rw [hidle (.error e) (by simp [ValidatorNode.produceBlock, hprep]), Function.update_eq_self]
  | ok produced =>
    cases produced with
    | none =>
        refine ⟨s, hs, ?_⟩
        rw [hidle (.ok ()) (by simp [ValidatorNode.produceBlock, hprep]), Function.update_eq_self]
    | some b =>
        have hprepared := hs.step (Step.prepare i now b hprep)
        refine ⟨_, hprepared.step (Step.commit i b broadcast (by simp)), ?_⟩
        have hcalls : (ValidatorNode.produceBlock E P now broadcast).next (s.node i) =
            (ValidatorNode.commitBlock P broadcast b).next (s.node i) := by
          simp only [Exec.next, ValidatorNode.produceBlock, Exec.exec_get_bind,
            Exec.exec_lift_bind, hprep]
        rw [hcalls]

/-- A block that a node has prepared in its turn can reach another node with the
same chain. -/
theorem exists_delivered [Hex] {s : Net ι} (hs : Runs.Reach (Init P g keyPair) (Step E P) s)
    {i j : ι} (hij : j ≠ i) {c : Blockchain} (hi : (s.node i).components = some ⟨c, []⟩)
    (hj : (s.node j).components = some ⟨c, []⟩) {consensus : ProofOfAuthority}
    (hcons : (s.node j).consensus = some consensus) {now : Timestamp} {b : Block}
    (hprep : ValidatorNode.prepareBlock E P now (s.node i) = .ok (some b))
    (happ : consensus.Approves b) (hadm : Blockchain.Admits P c b) :
    ∃ s', Runs.Reach (Init P g keyPair) (Step E P) s' ∧
      (s'.node i).components = some ⟨c.extend b, [b]⟩ ∧
      (s'.node j).components = some ⟨c.extend b, []⟩ := by
  have hcommit : ((ValidatorNode.commitBlock P (fun _ => .ok ()) b).next (s.node i)).components =
      some ⟨c.extend b, [b]⟩ := by
    rcases ValidatorNode.commitBlock_cases (P := P) hi (fun _ => .ok ()) b with
      ⟨-, hexec⟩ | ⟨hnot, -⟩
    · rw [Exec.next_of_ok hexec]
      rfl
    · exact absurd hadm hnot
  have hdeliver : ((ValidatorNode.handleNewBlock P b).next (s.node j)).components =
      some ⟨c.extend b, []⟩ := by
    have hacc := (ValidatorNode.accepts_iff hj hcons).mpr ⟨happ, hadm⟩
    rw [ValidatorNode.next_handleNewBlock_of_accepts hacc, ValidatorNode.takeIn_components hj]
  have hprepared := hs.step (Step.prepare i now b hprep)
  have hcommitted := hprepared.step (Step.commit i b (fun _ => .ok ()) (by simp))
  have hsent := hcommitted.step (Step.deliver j i b (by simp [broadcasts, hcommit]))
  refine ⟨_, hsent, ?_, ?_⟩
  · simp only [Function.update_of_ne hij.symm, Function.update_self, hcommit]
  · simp only [Function.update_of_ne hij, Function.update_self, hdeliver]

end

/-! ## Two nodes -/

namespace Two
open Reference (primitives)

/-- The Ed25519 key pairs of the seeds `02…02` and `01…01`. -/
def keyPair : Bool → KeyPair
  | false =>
    { privateKey := List.Vector.replicate 32 2
      publicKey := ⟨⟨[129, 57, 119, 14, 168, 125, 23, 95, 86, 163, 84, 102, 195, 76, 126, 204,
        203, 141, 138, 145, 180, 238, 55, 162, 93, 246, 15, 91, 143, 201, 179, 148], rfl⟩⟩ }
  | true => Reference.keyPair

def genesis : GenesisBlock :=
  GenesisBlock.new [(keyPair false).publicKey, (keyPair true).publicKey] 1000 (by decide)

def chain : Blockchain :=
  Blockchain.ofGenesis (genesis.blockOf primitives (keyPair false).publicKey)

/-- Both nodes set up. -/
def start : Net Bool where
  node i := (ValidatorNode.new (keyPair i)).setUp 0 genesis chain
  prepared _ := []

theorem init_start : Init primitives genesis keyPair start := by
  have hnew : Blockchain.new primitives 0 genesis = .ok chain :=
    Blockchain.new_eq_ok.mpr ⟨_, GenesisBlock.createBlock_eq_ok.mpr ⟨_, rfl, rfl⟩, rfl⟩
  have hvalid : genesis.validate = .ok () := GenesisBlock.validate_new (List.cons_ne_nil _ _) _ _
  intro i
  refine ⟨⟨0, ValidatorNode.initializeNode_eq_ok.mpr ⟨hvalid, chain, hnew, ?_, rfl⟩⟩, rfl⟩
  cases i with
  | false => exact List.mem_cons_self
  | true => exact List.mem_cons_of_mem _ List.mem_cons_self

theorem keyPair_injective : Function.Injective fun i => (keyPair i).publicKey := by
  intro i j h
  cases i <;> cases j <;> first | rfl | exact absurd h (by decide)

/-- The first block is the second validator's. -/
def block : Block := chain.nextBlock primitives [] (keyPair true).publicKey

/-- The hash of that block, and its signature by the second validator. -/
def blockHash : Bytes :=
  [185, 23, 2, 128, 37, 183, 172, 12, 130, 132, 196, 107, 155, 197, 136, 192, 130, 105, 74, 142,
    195, 115, 246, 2, 94, 110, 197, 168, 27, 48, 51, 44]

def signature : Signature :=
  ⟨⟨[42, 162, 175, 210, 114, 214, 182, 88, 250, 24, 189, 245, 142, 84, 94, 182, 227, 243, 144, 229,
    38, 29, 195, 3, 54, 230, 8, 222, 211, 46, 183, 228, 163, 59, 10, 112, 159, 145, 157, 0, 89,
    148, 215, 49, 173, 67, 248, 23, 16, 90, 76, 252, 43, 180, 101, 253, 122, 23, 200, 8, 246, 227,
    27, 3], rfl⟩⟩

/-- Ed25519, as far as this run goes: one message, signed by one key. -/
def ed25519 : Ed25519 where
  signMessage signer message :=
    if signer = keyPair true ∧ message = blockHash then .ok signature else .error .panicked
  verify signer message s :=
    signer = (keyPair true).publicKey ∧ message = blockHash ∧ s = signature

theorem block_hash : block.hash.asBytes = blockHash := by decide +kernel

theorem signMessage_block : ed25519.signMessage (keyPair true) block.hash.asBytes =
    .ok signature := by
  rw [block_hash]
  simp only [ed25519, and_self, if_true]

theorem approves_block : (ProofOfAuthority.new (ValidatorSet.new 0 genesis.validators)).Approves
    block :=
  ⟨by decide, by decide, by decide⟩

theorem admits_block : Blockchain.Admits primitives chain block :=
  Blockchain.admits_nextBlock _ nofun nofun (by simp [chain, Blockchain.ofGenesis, maxVecLength])

end Two

/-- Two nodes: the second validator produces the first block, and the first
validator takes it in. -/
theorem agreement_two :
    ∃ s, Runs.Reach (Init Reference.primitives Two.genesis Two.keyPair)
        (Step Two.ed25519 Reference.primitives) s ∧
      ∃ c c' sent sent', (s.node false).components = some ⟨c, sent⟩ ∧
        (s.node true).components = some ⟨c', sent'⟩ ∧ c.height = 1 ∧ c.blocks <+: c'.blocks := by
  have happ := Two.approves_block
  have hadm := Two.admits_block.addSignature (Two.keyPair true).publicKey Two.signature
  have hprep : ValidatorNode.prepareBlock Two.ed25519 Reference.primitives 1000
      (Two.start.node true) =
      .ok (some (Two.block.addSignature (Two.keyPair true).publicKey Two.signature)) :=
    ValidatorNode.prepareBlock_of_turn (b := Two.block) rfl rfl rfl happ Two.signMessage_block
  obtain ⟨s, hs, htrue, hfalse⟩ := exists_delivered (Runs.Reach.start Two.init_start)
    Bool.false_ne_true rfl rfl rfl hprep (happ.addSignature _ _) hadm
  obtain ⟨chain, hcomps, -, hprefix⟩ := agreement Two.keyPair_injective hs
  obtain ⟨sent, hfalse'⟩ := hcomps false
  obtain ⟨sent', htrue'⟩ := hcomps true
  have hc : Two.chain.extend _ = chain false :=
    congrArg NodeComponents.blockchain (Option.some.inj (hfalse.symm.trans hfalse'))
  have hc' : Two.chain.extend _ = chain true :=
    congrArg NodeComponents.blockchain (Option.some.inj (htrue.symm.trans htrue'))
  refine ⟨s, hs, chain false, chain true, sent, sent', hfalse', htrue', ?_, hprefix _ _ ?_⟩
  · rw [← hc]
    exact hadm.follows.height
  · rw [← hc, ← hc']
    exact UInt64.le_refl _

end VotingChain.Network
