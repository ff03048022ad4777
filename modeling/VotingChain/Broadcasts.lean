/-
# `VotingChain.Broadcasts` — what the validator nodes send each other

Over the network of `Network`: what a node hands to the network, and whether the
network can come to a standstill.

    handed out in order   a node broadcasts blocks of its own turn, each one higher than the last,
                          each in its own chain and under its own signature
    taken from there      a block above genesis in any chain is one its producer broadcast

`handle_new_block` looks at no signature, but a network whose nodes all run this
code never has to: what its chains hold is signed (`chains_signed`).  One validator
that broadcasts two blocks of one height would have two nodes disagree; no run of
`produce_block` and `handle_new_block` makes one do that (`no_equivocation`).

Nothing that happens keeps the network from going on: from every reachable state
there is a way on in which all nodes come to one chain, a block longer than any
before (`exists_grown`).
-/
import Mathlib.Data.Fintype.EquivFin
import Mathlib.Data.Fintype.Lattice
import VotingChain.Lib.Outbox
import VotingChain.Network
import VotingChain.Turns

namespace VotingChain

namespace ProofOfAuthority

/-- The check does not depend on when the validator set was made. -/
theorem approves_clock {validators : List PublicKey} {now : Timestamp} (now' : Timestamp)
    {b : Block} (h : (new (ValidatorSet.new now validators)).Approves b) :
    (new (ValidatorSet.new now' validators)).Approves b where
  authorized := by
    have hmem := (ValidatorSet.isValidator_new now validators b.header.validator).mp h.authorized
    exact (ValidatorSet.isValidator_new now' validators b.header.validator).mpr hmem
  turn := (getBlockProducer_congr rfl b.header.height).trans h.turn
  timing := h.timing

end ProofOfAuthority

namespace ValidatorNode
variable {E : Ed25519} {P : Primitives}

/-- A block that `produce_block` builds is empty and carries one signature, by the key of the
node. -/
theorem signed_of_prepareBlock [Hex] {now : Timestamp} {node : ValidatorNode} {b : Block}
    (h : prepareBlock E P now node = .ok (some b)) :
    b.transactions = [] ∧ ∃ signature,
      E.signMessage node.validatorKey b.hash.asBytes = .ok signature ∧
      b.signatures = [⟨node.validatorKey.publicKey, signature⟩] := by
  rw [prepareBlock] at h
  cases hcomp : node.components with
  | none => simp [hcomp, fail] at h
  | some components =>
    cases hcons : node.consensus with
    | none => simp [hcomp, hcons, fail] at h
    | some consensus =>
      simp only [hcomp, hcons, bind_eq_ok] at h
      obtain ⟨-, -, best, -, producer, -, h⟩ := h
      split at h
      · cases h
      · simp only [bind_eq_ok] at h
        obtain ⟨signature, hsign, _, -, hb⟩ := h
        cases hb
        exact ⟨rfl, signature, hsign, rfl⟩

end ValidatorNode

namespace Blockchain

/-- The next block of a chain can be added to any beginning of it, if it has no transactions. -/
theorem admits_of_prefix {P : Primitives} {c d : Blockchain} (hc : Shape P c)
    (hd : d.blocks <+: c.blocks) {b : Block} (hb : c.blocks[d.blocks.length]? = some b)
    (htxs : b.transactions = []) :
    Admits P d b where
  valid := hc.valid b (List.mem_of_getElem? hb)
  follows := by
    have hlast := SlotLog.getElem?_of_prefix hd d.getElem?_latestBlock
    have hpos : d.blocks.length - 1 + 1 = d.blocks.length :=
      Nat.sub_add_cancel (List.length_pos_of_ne_nil d.blocks_ne)
    exact hc.follows_of_getElem? hlast (hpos ▸ hb)
  fresh := by simp [htxs]
  room := (List.getElem?_eq_some_iff.mp hb).1.trans_le hc.length_le

end Blockchain

namespace Network

open Blockchain (Admits)

namespace Two
open Reference (primitives)

/-- The first block, as the second node signs it. -/
def signedBlock : Block := block.addSignature (keyPair true).publicKey signature

theorem verify_of_signMessage (i : Bool) (m : Bytes) (s : Signature)
    (h : ed25519.signMessage (keyPair i) m = .ok s) :
    ed25519.verify (keyPair i).publicKey m s = true := by
  simp only [ed25519] at h ⊢
  split at h
  · next hcond =>
      cases h
      simp [hcond.1, hcond.2]
  · cases h

theorem exists_sent :
    ∃ s, Runs.Reach (Init primitives genesis keyPair) (Step ed25519 primitives) s ∧
      (s.node true).components = some ⟨chain.extend signedBlock, [signedBlock]⟩ ∧
      (s.node false).components = some ⟨chain.extend signedBlock, []⟩ := by
  have hprep : ValidatorNode.prepareBlock ed25519 primitives 1000 (start.node true) =
      .ok (some signedBlock) :=
    ValidatorNode.prepareBlock_of_turn (b := block) rfl rfl rfl approves_block signMessage_block
  exact exists_delivered (Runs.Reach.start init_start) Bool.false_ne_true rfl rfl rfl hprep
    (approves_block.addSignature _ _) (admits_block.addSignature _ _)

/-- Ed25519 as above, and some signature for every other message. -/
def signer : Ed25519 where
  signMessage signer message :=
    if signer = keyPair true ∧ message = blockHash then .ok signature
    else .ok ⟨List.Vector.replicate 64 0⟩
  verify := ed25519.verify

end Two

section
variable {ι : Type} (E : Ed25519) (P : Primitives) (g : GenesisBlock) (keyPair : ι → KeyPair)

/-! ## One step -/

/-- A block that node `i` may broadcast: approved by the consensus of `g`, empty, by the key of
the node and signed with it. -/
structure Made (i : ι) (b : Block) : Prop where
  approved : (ProofOfAuthority.new (ValidatorSet.new 0 g.validators)).Approves b
  validator : b.header.validator = (keyPair i).publicKey
  transactions : b.transactions = []
  signed : ∃ signature, E.signMessage (keyPair i) b.hash.asBytes = .ok signature ∧
    b.signatures = [⟨(keyPair i).publicKey, signature⟩]

/-- The network, and the logs and outboxes of its nodes. -/
structure Kept (s : Net ι) (t : Outbox.State ι Block) : Prop where
  nodes : ∀ i, ∃ c, NodeOk P g keyPair i (s.node i) c (t.out i) ∧ t.log i = c.blocks
  prepared : ∀ i, ∀ b ∈ s.prepared i, Made E g keyPair i b

variable {E P g keyPair}

theorem made_of_prepareBlock [Hex] {i : ι} {node : ValidatorNode} {c : Blockchain}
    {sent : List Block} (hok : NodeOk P g keyPair i node c sent) {now : Timestamp} {b : Block}
    (hprep : ValidatorNode.prepareBlock E P now node = .ok (some b)) : Made E g keyPair i b := by
  obtain ⟨hval, consensus, hcons, happ⟩ := ValidatorNode.approves_of_prepareBlock hprep
  obtain ⟨htxs, signature, hsign, hsigs⟩ := ValidatorNode.signed_of_prepareBlock hprep
  obtain ⟨now', hnow⟩ := hok.consensus
  rw [hcons, Option.some.injEq] at hnow
  subst hnow
  rw [hok.key] at hval hsign hsigs
  exact ⟨ProofOfAuthority.approves_clock 0 happ, hval, htxs, signature, hsign, hsigs⟩

theorem made_unique (hkeys : Function.Injective fun i => (keyPair i).publicKey) {i j : ι}
    {b c : Block} (hb : Made E g keyPair i b) (hc : Made E g keyPair j c)
    (heq : slot b = slot c) : i = j := by
  have hturn := hb.approved.turn
  rw [UInt64.toNat_inj.mp heq, hc.approved.turn] at hturn
  have hval : c.header.validator = b.header.validator := Except.ok.inj hturn
  exact hkeys (hb.validator.symm.trans (hval.symm.trans hc.validator))

theorem NodeOk.approves {i : ι} {node : ValidatorNode} {c : Blockchain} {sent : List Block}
    (hok : NodeOk P g keyPair i node c sent) {j : ι} {b : Block} (hb : Made E g keyPair j b) :
    ∃ consensus, node.consensus = some consensus ∧ consensus.Approves b := by
  obtain ⟨now, hcons⟩ := hok.consensus
  exact ⟨_, hcons, ProofOfAuthority.approves_clock now hb.approved⟩

variable [DecidableEq ι]

theorem Kept.push {s : Net ι} {t : Outbox.State ι Block} (hR : Kept E P g keyPair s t) {i : ι}
    {node : ValidatorNode} {c : Blockchain} {b : Block} {out : ι → List Block}
    (hlog : t.log i = c.blocks) (hnode : NodeOk P g keyPair i node (c.extend b) (out i))
    (hout : ∀ j, j ≠ i → out j = t.out j) {prepared : ι → List Block}
    (hprep : ∀ j, ∀ x ∈ prepared j, x ∈ s.prepared j) :
    Kept E P g keyPair ⟨Function.update s.node i node, prepared⟩ ⟨Outbox.push t.log i b, out⟩ where
  nodes j := by
    by_cases hj : j = i
    · subst hj
      refine ⟨c.extend b, ?_, ?_⟩
      · simpa using hnode
      · simp [Outbox.push_self, hlog, Blockchain.extend]
    · obtain ⟨c', hok, hlog'⟩ := hR.nodes j
      refine ⟨c', ?_, ?_⟩
      · simpa [hj, hout j hj] using hok
      · simpa [Outbox.push_of_ne t.log hj] using hlog'
  prepared j x hx := hR.prepared j x (hprep j x hx)

theorem Kept.stay {s : Net ι} {t : Outbox.State ι Block} (hR : Kept E P g keyPair s t) {i : ι}
    {node : ValidatorNode} (hnode : node = s.node i) {prepared : ι → List Block}
    (hprep : ∀ j, ∀ x ∈ prepared j, x ∈ s.prepared j) :
    Kept E P g keyPair ⟨Function.update s.node i node, prepared⟩ t where
  nodes j := by
    rw [hnode, Function.update_eq_self]
    exact hR.nodes j
  prepared j x hx := hR.prepared j x (hprep j x hx)

omit [DecidableEq ι] in
theorem kept_init {s : Net ι} {c₀ : Blockchain} (hnew : ∀ now, Blockchain.new P now g = .ok c₀)
    (h : Init P g keyPair s) : Kept E P g keyPair s ⟨fun _ => c₀.blocks, fun _ => []⟩ where
  nodes i := by
    obtain ⟨c, sent, hok, hlog, -⟩ := (related_init hnew h).nodes i
    obtain ⟨⟨now, hinit⟩, -⟩ := h i
    obtain ⟨-, c', -, -, hnode⟩ := ValidatorNode.initializeNode_eq_ok.mp hinit
    have hcomp := hok.components
    rw [hnode, ValidatorNode.setUp, Option.some.injEq, NodeComponents.mk.injEq] at hcomp
    obtain ⟨-, rfl⟩ := hcomp
    exact ⟨c, hok, hlog⟩
  prepared i b hb := by
    rw [(h i).2] at hb
    cases hb

/-- **Every step of the network is one of the logs and outboxes**, or changes neither. -/
theorem simulate_outbox [Hex] {s s' : Net ι} {t : Outbox.State ι Block} (hstep : Step E P s s')
    (hR : Kept E P g keyPair s t) :
    ∃ t', (t' = t ∨ Outbox.Next slot (Made E g keyPair) t t') ∧ Kept E P g keyPair s' t' := by
  cases hstep with
  | prepare i now b hb =>
      refine ⟨t, Or.inl rfl, hR.nodes, ?_⟩
      intro j x hx
      rcases mem_update_cons hx with ⟨rfl, rfl⟩ | hx
      · obtain ⟨c, hok, -⟩ := hR.nodes j
        exact made_of_prepareBlock hok hb
      · exact hR.prepared j x hx
  | commit i b broadcast hb =>
      obtain ⟨c, hok, hlog⟩ := hR.nodes i
      have hmade := hR.prepared i b hb
      rcases ValidatorNode.next_commitBlock_cases (P := P) hok.components broadcast b with
        ⟨hadm, stats, hnext⟩ | hstay
      · refine ⟨⟨Outbox.push t.log i b, Outbox.push t.out i b⟩, Or.inr (.write i b hmade ?_), ?_⟩
        · rw [hlog, slot_eq_length hok.shape hadm]
        · refine hR.push hlog ?_ (fun j hj => Outbox.push_of_ne t.out hj b)
            (fun j x => mem_update_erase)
          rw [hnext, Outbox.push_self]
          obtain ⟨now, hcons⟩ := hok.consensus
          have hturn := (producer_eq now b.header.height).symm.trans
            (ProofOfAuthority.approves_clock now hmade.approved).turn
          exact hok.extend hadm hturn rfl rfl rfl
      · exact ⟨t, Or.inl rfl, hR.stay hstay fun j x => mem_update_erase⟩
  | deliver i j b hb =>
      obtain ⟨c, hok, hlog⟩ := hR.nodes i
      obtain ⟨c', hok', -⟩ := hR.nodes j
      rw [broadcasts, hok'.components] at hb
      by_cases hacc : ValidatorNode.Accepts P (s.node i) b
      · obtain ⟨now, hcons⟩ := hok.consensus
        obtain ⟨happ, hadm⟩ := (ValidatorNode.accepts_iff hok.components hcons).mp hacc
        have hturn : producer g b.header.height = .ok b.header.validator :=
          (producer_eq now _).symm.trans happ.turn
        refine ⟨⟨Outbox.push t.log i b, t.out⟩, Or.inr (.copy i j b hb ?_), ?_⟩
        · rw [hlog, slot_eq_length hok.shape hadm]
        · refine hR.push hlog (hok.extend hadm hturn ?_ ?_ ?_) (fun _ _ => rfl) (fun j x hx => hx)
          · rw [ValidatorNode.next_handleNewBlock_of_accepts hacc]; rfl
          · rw [ValidatorNode.next_handleNewBlock_of_accepts hacc]; rfl
          · rw [ValidatorNode.next_handleNewBlock_of_accepts hacc,
              ValidatorNode.takeIn_components hok.components]
      · exact ⟨t, Or.inl rfl,
          hR.stay (ValidatorNode.next_handleNewBlock_of_not_accepts hacc) fun j x hx => hx⟩

theorem exists_kept [Hex] {s : Net ι} (hs : Runs.Reach (Init P g keyPair) (Step E P) s) (i : ι) :
    ∃ (b₀ : Block) (t : Outbox.State ι Block), b₀.header.timestamp = g.timestamp ∧
      Outbox.Inv slot (Made E g keyPair) [b₀] t ∧ Kept E P g keyPair s t := by
  obtain ⟨s₀, hs₀⟩ := hs.exists_init
  obtain ⟨⟨now, hinit⟩, -⟩ := hs₀ i
  obtain ⟨-, c₀, hnew, -⟩ := ValidatorNode.initializeNode_eq_ok.mp hinit
  obtain ⟨b₀, hcreate, hc₀⟩ := Blockchain.new_eq_ok.mp hnew
  have hblocks : c₀.blocks = [b₀] := by
    rw [hc₀]
    rfl
  have hsim : ∃ t, Runs.Reach (Outbox.Init [b₀]) (Outbox.Next slot (Made E g keyPair)) t ∧
      Kept E P g keyPair s t := by
    refine hs.simulate ?_ (fun s s' t hstep hR => simulate_outbox hstep hR)
    intro s hs
    exact ⟨_, ⟨fun _ => hblocks, fun _ => rfl⟩, kept_init (Blockchain.new_clock hnew) hs⟩
  obtain ⟨t, ht, hR⟩ := hsim
  exact ⟨b₀, t, (GenesisBlock.isGenesis_of_createBlock hcreate).timestamp, Outbox.inv_reach ht, hR⟩

omit [DecidableEq ι] in
theorem Kept.broadcasts_eq {s : Net ι} {t : Outbox.State ι Block} (hR : Kept E P g keyPair s t)
    (i : ι) : broadcasts (s.node i) = t.out i := by
  obtain ⟨c, hok, -⟩ := hR.nodes i
  rw [broadcasts, hok.components]

/-! ## What is broadcast -/

/-- **No equivocation.**  In every reachable state of a network of validator nodes that share no
key, each node has broadcast its blocks in order of their heights, each of them stands in its
own chain, and no height is that of two blocks that were broadcast, by one node or by two. -/
theorem no_equivocation [Hex] (hkeys : Function.Injective fun i => (keyPair i).publicKey)
    {s : Net ι} (hs : Runs.Reach (Init P g keyPair) (Step E P) s) (i : ι) :
    (broadcasts (s.node i)).Pairwise (fun b c => b.header.height < c.header.height) ∧
      ∀ b ∈ broadcasts (s.node i),
        (∃ c sent, (s.node i).components = some ⟨c, sent⟩ ∧
          c.getBlockByHeight b.header.height = .ok (some b)) ∧
        ∀ j, ∀ b' ∈ broadcasts (s.node j), b.header.height = b'.header.height → i = j ∧ b = b' := by
  obtain ⟨b₀, t, -, hinv, hR⟩ := exists_kept hs i
  rw [hR.broadcasts_eq i]
  constructor
  · refine (hinv.ordered i).imp ?_
    intro b c hlt
    exact UInt64.lt_iff_toNat_lt.mpr hlt
  · intro b hb
    constructor
    · obtain ⟨c, hok, hlog⟩ := hR.nodes i
      refine ⟨c, t.out i, hok.components, ?_⟩
      have hplace := (hinv.placed i b hb).2
      rw [hok.shape.getBlockByHeight_eq, ← hlog]
      exact congrArg Except.ok hplace
    · intro j b' hb' heq
      rw [hR.broadcasts_eq j] at hb'
      exact hinv.out_unique (fun _ _ _ _ => made_unique hkeys) hb hb' (congrArg UInt64.toNat heq)

/-- The block of the second node is the only one of its height that is broadcast. -/
theorem no_equivocation_two :
    ∃ s, Runs.Reach (Init Reference.primitives Two.genesis Two.keyPair)
        (Step Two.ed25519 Reference.primitives) s ∧
      broadcasts (s.node true) = [Two.signedBlock] ∧
      ∀ j, ∀ b' ∈ broadcasts (s.node j), Two.signedBlock.header.height = b'.header.height →
        true = j ∧ Two.signedBlock = b' := by
  obtain ⟨s, hs, htrue, -⟩ := Two.exists_sent
  have hsent : broadcasts (s.node true) = [Two.signedBlock] := by rw [broadcasts, htrue]
  refine ⟨s, hs, hsent, ?_⟩
  refine ((no_equivocation Two.keyPair_injective hs true).2 Two.signedBlock ?_).2
  rw [hsent]
  exact List.mem_singleton_self _

omit [DecidableEq ι] in
theorem Made.authentic {i : ι} (hverify : ∀ (m : Bytes) (signature : Signature),
      E.signMessage (keyPair i) m = .ok signature →
      E.verify (keyPair i).publicKey m signature = true)
    {b : Block} (h : Made E g keyPair i b) (consensus : ProofOfAuthority) :
    Authentic E consensus b := by
  obtain ⟨signature, hsign, hsigs⟩ := h.signed
  refine ⟨⟨(keyPair i).publicKey, signature⟩, ?_, h.validator.symm, hverify _ _ hsign, ?_⟩
  · rw [hsigs]
    exact List.mem_singleton_self _
  · intro sig hsig hne
    rw [hsigs] at hsig
    exact absurd (List.mem_singleton.mp hsig) hne

/-- **Chains hold what was signed.**  In every reachable state of a network of validator nodes,
each block above genesis in any chain was broadcast by the node whose key it names, whose turn
its height is, and carries that node's signature; so it is authentic, although no node checks
that it is. -/
theorem chains_signed [Hex] (hverify : ∀ (j : ι) (m : Bytes) (signature : Signature),
      E.signMessage (keyPair j) m = .ok signature →
      E.verify (keyPair j).publicKey m signature = true) {s : Net ι}
    (hs : Runs.Reach (Init P g keyPair) (Step E P) s) {i : ι} {c : Blockchain} {sent : List Block}
    (hcomp : (s.node i).components = some ⟨c, sent⟩) {consensus : ProofOfAuthority}
    (hcons : (s.node i).consensus = some consensus) {h : BlockHeight} (hpos : 1 ≤ h) {b : Block}
    (hb : c.getBlockByHeight h = .ok (some b)) :
    Authentic E consensus b ∧
      ∃ j, b ∈ broadcasts (s.node j) ∧ (s.node j).validatorKey.publicKey = b.header.validator ∧
        consensus.getBlockProducer h = .ok (s.node j).validatorKey.publicKey := by
  obtain ⟨b₀, t, -, hinv, hR⟩ := exists_kept hs i
  obtain ⟨c', hok, hlog⟩ := hR.nodes i
  have hc : c' = c := by
    have hcomp' := hok.components
    rw [hcomp, Option.some.injEq, NodeComponents.mk.injEq] at hcomp'
    exact hcomp'.1.symm
  subst hc
  rw [hok.shape.getBlockByHeight_eq, Except.ok.injEq, ← hlog] at hb
  have hbase : [b₀].length ≤ h.toNat := UInt64.le_iff_toNat_le.mp hpos
  obtain ⟨hslot, j, hj⟩ := hinv.origin i h.toNat b hbase hb
  have hmade := hinv.may_write j b hj
  obtain ⟨d, hok', -⟩ := hR.nodes j
  refine ⟨hmade.authentic (hverify j) consensus, j, ?_, ?_, ?_⟩
  · rw [hR.broadcasts_eq j]
    exact hj
  · rw [hok'.key]
    exact hmade.validator.symm
  · obtain ⟨consensus', hcons', happ⟩ := hok.approves hmade
    rw [hcons, Option.some.injEq] at hcons'
    subst hcons'
    rw [hok'.key, ← hmade.validator, ← UInt64.toNat_inj.mp hslot]
    exact happ.turn

/-- The block in the chain of the first node is authentic. -/
theorem chains_signed_two :
    ∃ s, Runs.Reach (Init Reference.primitives Two.genesis Two.keyPair)
        (Step Two.ed25519 Reference.primitives) s ∧
      (s.node false).components = some ⟨Two.chain.extend Two.signedBlock, []⟩ ∧
      ∀ consensus, (s.node false).consensus = some consensus →
        Authentic Two.ed25519 consensus Two.signedBlock := by
  obtain ⟨s, hs, -, hfalse⟩ := Two.exists_sent
  refine ⟨s, hs, hfalse, fun consensus hcons => ?_⟩
  have hblock : (Two.chain.extend Two.signedBlock).getBlockByHeight 1 =
      .ok (some Two.signedBlock) := rfl
  exact (chains_signed Two.verify_of_signMessage hs hfalse hcons (UInt64.le_refl 1) hblock).1

/-! ## The way on -/

/-- The blocks of the chain of a node. -/
def blocks (node : ValidatorNode) : List Block :=
  match node.components with
  | some components => components.blockchain.blocks
  | none => []

omit [DecidableEq ι] in
theorem NodeOk.blocks_eq {i : ι} {node : ValidatorNode} {c : Blockchain} {sent : List Block}
    (hok : NodeOk P g keyPair i node c sent) : blocks node = c.blocks := by
  rw [blocks, hok.components]

omit [DecidableEq ι] in
theorem Kept.blocks_eq {s : Net ι} {t : Outbox.State ι Block} (hR : Kept E P g keyPair s t)
    (i : ι) : blocks (s.node i) = t.log i := by
  obtain ⟨c, hok, hlog⟩ := hR.nodes i
  rw [hok.blocks_eq, hlog]

theorem exists_taken [Hex] {s : Net ι} (hs : Runs.Reach (Init P g keyPair) (Step E P) s) {i j : ι}
    (hshorter : blocks (s.node j) <+: blocks (s.node i))
    (hlt : (blocks (s.node j)).length < (blocks (s.node i)).length) :
    ∃ s', Step E P s s' ∧ (∃ b, blocks (s'.node j) = blocks (s.node j) ++ [b]) ∧
      blocks (s'.node j) <+: blocks (s.node i) ∧ ∀ k, k ≠ j → s'.node k = s.node k := by
  obtain ⟨b₀, t, -, hinv, hR⟩ := exists_kept hs i
  obtain ⟨c, hok, hlog⟩ := hR.nodes i
  obtain ⟨d, hok', hlog'⟩ := hR.nodes j
  rw [hok'.blocks_eq, hok.blocks_eq] at hshorter hlt
  obtain ⟨b, hb⟩ : ∃ b, c.blocks[d.blocks.length]? = some b := ⟨_, List.getElem?_eq_getElem hlt⟩
  have hlong : [b₀].length ≤ d.blocks.length := hlog' ▸ hinv.length_le j
  obtain ⟨-, k, hk⟩ := hinv.origin i _ b hlong (hlog ▸ hb)
  obtain ⟨consensus, hcons, happ⟩ := hok'.approves (hinv.may_write k b hk)
  have hadm : Admits P d b :=
    Blockchain.admits_of_prefix hok.shape hshorter hb (hinv.may_write k b hk).transactions
  have hacc : ValidatorNode.Accepts P (s.node j) b :=
    (ValidatorNode.accepts_iff hok'.components hcons).mpr ⟨happ, hadm⟩
  have hblocks : blocks ((ValidatorNode.handleNewBlock P b).next (s.node j)) = d.blocks ++ [b] := by
    rw [ValidatorNode.next_handleNewBlock_of_accepts hacc, blocks,
      ValidatorNode.takeIn_components hok'.components]
    rfl
  have hsent : b ∈ broadcasts (s.node k) := by
    rw [hR.broadcasts_eq k]
    exact hk
  refine ⟨_, Step.deliver j k b hsent, ⟨b, ?_⟩, ?_, fun l hl => ?_⟩
  · simp only [Function.update_self]
    rw [hblocks, hok'.blocks_eq]
  · simp only [Function.update_self]
    rw [hblocks, hok.blocks_eq]
    obtain ⟨rest, hrest⟩ := hshorter
    rw [← hrest, List.getElem?_append_right (Nat.le_refl _), Nat.sub_self] at hb
    cases rest with
    | nil => cases hb
    | cons x rest =>
        rw [List.getElem?_cons_zero, Option.some.injEq] at hb
        exact ⟨rest, by rw [← hrest, hb, List.append_assoc, List.singleton_append]⟩
  · exact Function.update_of_ne hl _ _

theorem exists_caught_up [Hex] {s : Net ι} (hs : Runs.Reach (Init P g keyPair) (Step E P) s)
    {i j : ι} (hshorter : blocks (s.node j) <+: blocks (s.node i)) :
    ∃ s', Relation.ReflTransGen (Step E P) s s' ∧ blocks (s'.node j) = blocks (s.node i) ∧
      ∀ k, k ≠ j → s'.node k = s.node k := by
  -- by the number of blocks that are missing
  generalize hn : (blocks (s.node i)).length - (blocks (s.node j)).length = n
  induction n generalizing s with
  | zero =>
      refine ⟨s, .refl, hshorter.eq_of_length_le ?_, fun k _ => rfl⟩
      omega
  | succ n ih =>
      have hlt : (blocks (s.node j)).length < (blocks (s.node i)).length := by omega
      have hij : i ≠ j := by
        rintro rfl
        exact Nat.lt_irrefl _ hlt
      obtain ⟨s', hstep, ⟨b, hb⟩, hshorter', hsame⟩ := exists_taken hs hshorter hlt
      have hi : blocks (s'.node i) = blocks (s.node i) := by rw [hsame i hij]
      have hlen : (blocks (s'.node j)).length = (blocks (s.node j)).length + 1 := by
        rw [hb, List.length_append, List.length_singleton]
      obtain ⟨s'', hsteps, hdone, hsame'⟩ :=
        ih (hs.step hstep) (hi ▸ hshorter') (by rw [hi, hlen]; omega)
      refine ⟨s'', .head hstep hsteps, hdone.trans hi, fun k hk => ?_⟩
      rw [hsame' k hk, hsame k hk]

theorem prefix_of_length_le [Hex] (hkeys : Function.Injective fun i => (keyPair i).publicKey)
    {s : Net ι} (hs : Runs.Reach (Init P g keyPair) (Step E P) s) {i j : ι}
    (hle : (blocks (s.node j)).length ≤ (blocks (s.node i)).length) :
    blocks (s.node j) <+: blocks (s.node i) := by
  obtain ⟨base, t, hinv, hR⟩ := exists_related hs i
  obtain ⟨c, sent, hok, hlog, -⟩ := hR.nodes i
  obtain ⟨d, sent', hok', hlog', -⟩ := hR.nodes j
  rw [hok.blocks_eq, hok'.blocks_eq, ← hlog, ← hlog'] at hle ⊢
  exact hinv.prefix_of_length_le (owner_unique hkeys) hle

theorem exists_all_caught_up [Hex] (hkeys : Function.Injective fun i => (keyPair i).publicKey)
    {s : Net ι} (hs : Runs.Reach (Init P g keyPair) (Step E P) s) {i : ι}
    (hlongest : ∀ j, (blocks (s.node j)).length ≤ (blocks (s.node i)).length) (js : List ι) :
    ∃ s', Relation.ReflTransGen (Step E P) s s' ∧
      (∀ j ∈ js, blocks (s'.node j) = blocks (s.node i)) ∧
      ∀ k, s'.node k = s.node k ∨ blocks (s'.node k) = blocks (s.node i) := by
  induction js with
  | nil => exact ⟨s, .refl, fun _ h => absurd h List.not_mem_nil, fun k => Or.inl rfl⟩
  | cons j js ih =>
      obtain ⟨s', hsteps, hdone, hkept⟩ := ih
      have hs' := hs.of_steps hsteps
      have hi : blocks (s'.node i) = blocks (s.node i) := by
        rcases hkept i with h | h
        · rw [h]
        · exact h
      have hle : (blocks (s'.node j)).length ≤ (blocks (s'.node i)).length := by
        rw [hi]
        rcases hkept j with h | h
        · rw [h]
          exact hlongest j
        · rw [h]
      obtain ⟨s'', hsteps', hj, hsame⟩ :=
        exists_caught_up hs' (prefix_of_length_le hkeys hs' hle)
      rw [hi] at hj
      have hor : ∀ k, s''.node k = s'.node k ∨ blocks (s''.node k) = blocks (s.node i) := by
        intro k
        by_cases hk : k = j
        · exact Or.inr (hk ▸ hj)
        · exact Or.inl (hsame k hk)
      refine ⟨s'', hsteps.trans hsteps', ?_, fun k => ?_⟩
      · rw [List.forall_mem_cons]
        refine ⟨hj, fun k hk => ?_⟩
        rcases hor k with h | h
        · rw [h]
          exact hdone k hk
        · exact h
      · rcases hor k with h | h
        · rw [h]
          exact hkept k
        · exact Or.inr h

/-- The timestamp of the latest block of a node lies in its own time slot, if that of the genesis
configuration does. -/
theorem timing_latestBlock [Hex] (htime : g.timestamp.toNat + 5 < 2 ^ 64) {s : Net ι}
    (hs : Runs.Reach (Init P g keyPair) (Step E P) s) {i : ι} {c : Blockchain} {sent : List Block}
    (hok : NodeOk P g keyPair i (s.node i) c sent) :
    (ProofOfAuthority.new (ValidatorSet.new 0 g.validators)).validateTimestamp
      c.latestBlock.timestamp = .ok () := by
  obtain ⟨b₀, t, hb₀, hinv, hR⟩ := exists_kept hs i
  have hlog : t.log i = c.blocks := by rw [← hR.blocks_eq, hok.blocks_eq]
  have hlast : (t.log i)[c.blocks.length - 1]? = some c.latestBlock := by
    rw [hlog]
    exact c.getElem?_latestBlock
  rcases Nat.eq_zero_or_pos (c.blocks.length - 1) with hzero | hpos
  · have hfirst : (t.log i)[0]? = some b₀ := SlotLog.getElem?_of_prefix (hinv.extends_base i) rfl
    rw [hzero, hfirst, Option.some.injEq] at hlast
    rw [← hlast, Block.timestamp, hb₀]
    exact ProofOfAuthority.validateTimestamp_of_lt (show (5 : UInt64) ≠ 0 by decide) htime
  · obtain ⟨-, j, hj⟩ := hinv.origin i _ c.latestBlock hpos hlast
    exact (hinv.may_write j _ hj).approved.timing

theorem validators_ne_nil [Hex] {s : Net ι}
    (hs : Runs.Reach (Init P g keyPair) (Step E P) s) (i : ι) : g.validators ≠ [] := by
  obtain ⟨s₀, hs₀⟩ := hs.exists_init
  obtain ⟨⟨now, hinit⟩, -⟩ := hs₀ i
  obtain ⟨-, -, -, hmem, -⟩ := ValidatorNode.initializeNode_eq_ok.mp hinit
  exact List.ne_nil_of_mem hmem

theorem exists_written [Hex] (hsign : ∀ (i : ι) (m : Bytes), ∃ signature,
      E.signMessage (keyPair i) m = .ok signature) (htime : g.timestamp.toNat + 5 < 2 ^ 64)
    {s : Net ι} (hs : Runs.Reach (Init P g keyPair) (Step E P) s) {i : ι}
    (hroom : (blocks (s.node i)).length < maxVecLength)
    (hturn : owner g keyPair (blocks (s.node i)).length i)
    (hmem : (keyPair i).publicKey ∈ g.validators) :
    ∃ s', Relation.ReflTransGen (Step E P) s s' ∧
      (∃ b, blocks (s'.node i) = blocks (s.node i) ++ [b]) ∧ ∀ k, k ≠ i → s'.node k = s.node k := by
  obtain ⟨b₀, t, -, -, hR⟩ := exists_kept hs i
  obtain ⟨c, hok, hlog⟩ := hR.nodes i
  rw [hok.blocks_eq] at hroom hturn
  obtain ⟨now, hcons⟩ := hok.consensus
  have hheight : (c.height + 1).toNat = c.blocks.length := hok.shape.toNat_succ_height
  rw [owner, ← hheight, UInt64.ofNat_toNat, ← hok.key] at hturn
  rw [← hok.key] at hmem
  -- the clock says what it said when the latest block was built
  let b := Block.new P c.latestBlock.timestamp (c.height + 1) c.latestBlock.header.hash []
    (s.node i).validatorKey.publicKey
  have happ : (ProofOfAuthority.new (ValidatorSet.new now g.validators)).Approves b := by
    refine ⟨?_, ?_, timing_latestBlock htime hs hok⟩
    · exact (ValidatorSet.isValidator_new now g.validators _).mpr hmem
    · exact (producer_eq now _).trans hturn
  obtain ⟨signature, hsigned⟩ := hsign i b.hash.asBytes
  rw [← hok.key] at hsigned
  have hprep := ValidatorNode.prepareBlock_of_turn (E := E) (P := P) hok.components hcons
    (b := b) rfl happ hsigned
  have hadm : Admits P c (b.addSignature (s.node i).validatorKey.publicKey signature) := by
    refine Admits.addSignature ⟨Block.valid_new P ?_, ⟨?_, rfl, UInt64.le_refl _⟩, ?_, hroom⟩ _ _
    · exact fun _ h => absurd h List.not_mem_nil
    · show c.height + 1 = c.latestBlock.header.height + 1
      rw [hok.shape.height_latestBlock]
    · exact fun _ h => absurd h List.not_mem_nil
  have hnext : blocks ((ValidatorNode.commitBlock P (fun _ => .ok ())
      (b.addSignature (s.node i).validatorKey.publicKey signature)).next (s.node i)) =
      c.blocks ++ [b.addSignature (s.node i).validatorKey.publicKey signature] := by
    rcases ValidatorNode.commitBlock_cases (P := P) hok.components (fun _ => .ok ())
      (b.addSignature (s.node i).validatorKey.publicKey signature) with ⟨-, hexec⟩ | ⟨hnot, -⟩
    · rw [Exec.next_of_ok hexec]
      rfl
    · exact absurd hadm hnot
  have hprepared := Relation.ReflTransGen.single (Step.prepare i c.latestBlock.timestamp _ hprep)
  refine ⟨_, hprepared.tail (Step.commit i (b.addSignature (s.node i).validatorKey.publicKey
    signature) (fun _ => .ok ()) ?_), ?_, fun k hk => Function.update_of_ne hk _ _⟩
  · simp
  · simp only [Function.update_self]
    exact ⟨_, by rw [hnext, hok.blocks_eq]⟩

/-- **The network never comes to a standstill.**  Let the nodes be those of the validators of the
genesis configuration, each with its own key, let signing not fail, and let no clock be at its
end.  Then from every reachable state in which the chains have room there is a way on in which
all nodes come to one chain, which extends every chain there was by at least a block. -/
theorem exists_grown [Hex] [Finite ι] [Nonempty ι]
    (hkeys : Function.Injective fun i => (keyPair i).publicKey)
    (hall : ∀ v ∈ g.validators, ∃ i, (keyPair i).publicKey = v)
    (hsign : ∀ (i : ι) (m : Bytes), ∃ signature, E.signMessage (keyPair i) m = .ok signature)
    (htime : g.timestamp.toNat + 5 < 2 ^ 64) {s : Net ι}
    (hs : Runs.Reach (Init P g keyPair) (Step E P) s)
    (hroom : ∀ i, (blocks (s.node i)).length < maxVecLength) :
    ∃ s' bs, Relation.ReflTransGen (Step E P) s s' ∧ (∀ i, blocks (s'.node i) = bs) ∧
      ∀ i, ∃ b rest, bs = blocks (s.node i) ++ b :: rest := by
  cases nonempty_fintype ι
  obtain ⟨i, hlongest⟩ := Finite.exists_max fun i => (blocks (s.node i)).length
  -- everyone catches up with the longest chain
  obtain ⟨s₁, hsteps₁, hdone₁, -⟩ :=
    exists_all_caught_up hkeys hs hlongest (Finset.univ : Finset ι).toList
  have heq₁ : ∀ j, blocks (s₁.node j) = blocks (s.node i) :=
    fun j => hdone₁ j (Finset.mem_toList.mpr (Finset.mem_univ j))
  have hs₁ := hs.of_steps hsteps₁
  -- the node whose turn is next adds a block
  obtain ⟨v, hv, hturn⟩ := ProofOfAuthority.exists_getBlockProducer
    (ProofOfAuthority.new (ValidatorSet.new 0 g.validators)) (validators_ne_nil hs i)
    (UInt64.ofNat (blocks (s.node i)).length)
  obtain ⟨p, rfl⟩ := hall v hv
  obtain ⟨s₂, hsteps₂, ⟨b, hb⟩, hsame₂⟩ := exists_written hsign htime hs₁ (i := p)
    (by rw [heq₁ p]; exact hroom i) (by rw [heq₁ p]; exact hturn) hv
  rw [heq₁ p] at hb
  have hs₂ := hs₁.of_steps hsteps₂
  -- and everyone takes it in
  have hlongest₂ : ∀ j, (blocks (s₂.node j)).length ≤ (blocks (s₂.node p)).length := by
    intro j
    by_cases hj : j = p
    · rw [hj]
    · rw [hsame₂ j hj, heq₁ j, hb, List.length_append]
      exact Nat.le_add_right _ _
  obtain ⟨s₃, hsteps₃, hdone₃, -⟩ :=
    exists_all_caught_up hkeys hs₂ hlongest₂ (Finset.univ : Finset ι).toList
  refine ⟨s₃, blocks (s₂.node p), (hsteps₁.trans hsteps₂).trans hsteps₃,
    fun j => hdone₃ j (Finset.mem_toList.mpr (Finset.mem_univ j)), fun j => ?_⟩
  obtain ⟨rest, hrest⟩ := prefix_of_length_le hkeys hs (hlongest j)
  rw [hb, ← hrest]
  cases rest with
  | nil => exact ⟨b, [], by rw [List.append_nil]⟩
  | cons x rest => exact ⟨x, rest ++ [b], by rw [List.append_assoc, List.cons_append]⟩

/-- Two nodes that were just set up. -/
theorem exists_grown_two :
    ∃ s' bs, Relation.ReflTransGen (Step Two.signer Reference.primitives) Two.start s' ∧
      (∀ i, blocks (s'.node i) = bs) ∧
      ∀ i, ∃ b rest, bs = blocks (Two.start.node i) ++ b :: rest := by
  refine exists_grown (g := Two.genesis) Two.keyPair_injective ?_ ?_ (by decide)
    (Runs.Reach.start Two.init_start) ?_
  · intro v hv
    rcases List.mem_cons.mp hv with rfl | hv
    · exact ⟨false, rfl⟩
    · rw [List.mem_singleton.mp hv]
      exact ⟨true, rfl⟩
  · intro i m
    rw [Two.signer]
    dsimp only
    split
    · exact ⟨_, rfl⟩
    · exact ⟨_, rfl⟩
  · intro i
    show 1 < maxVecLength
    decide

end

end Network

end VotingChain
