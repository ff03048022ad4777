/-
# `VotingChain.Pruning` — runs with `prune_old_blocks` in them

`prune_old_blocks` takes blocks out of the vector and their entries out of the
two indexes, and leaves the height counter alone.  So the vector is no longer
indexed by height, and the transaction index, which is all there is to refuse a
transaction a second time, forgets.

Both are stated as exact conditions on a run:

* lookups by height work in every state of the run exactly if no call of
  `prune_old_blocks` found a block to drop (`lookups_iff_dropsNothing`);
* no transaction can be included twice exactly if no call dropped a block with
  transactions in it (`noReplay_iff_dropsNoTransactions`).
-/
import VotingChain.ChainInv

namespace VotingChain.Blockchain

/-! ## What a call of `pruneOldBlocks` does -/

/-- The blocks a cutoff keeps, the genesis block apart. -/
def kept (c : Blockchain) (before : Timestamp) : List Block :=
  c.blocks.tail.filter fun b => decide (before ≤ b.timestamp)

/-- The blocks a cutoff drops. -/
def dropped (c : Blockchain) (before : Timestamp) : List Block :=
  c.blocks.tail.filter fun b => !decide (before ≤ b.timestamp)

/-- The chain without its dropped blocks. -/
def prune (c : Blockchain) (before : Timestamp) : Blockchain where
  blocks := c.blocks.head c.blocks_ne :: c.kept before
  hashToHeight := (c.dropped before).foldl (fun m b => m.erase b.hash) c.hashToHeight
  txToBlock := c.txToBlock.eraseAll ((c.dropped before).flatMap Block.transactions)
  height := c.height
  genesisHash := c.genesisHash
  blocks_ne := List.cons_ne_nil _ _

theorem foldl_pruneStep (before : Timestamp) : ∀ (bs : List Block) (s : PruneState),
    bs.foldl (pruneStep before) s =
      { kept := s.kept ++ bs.filter fun b => decide (before ≤ b.timestamp)
        hashToHeight := (bs.filter fun b => !decide (before ≤ b.timestamp)).foldl
          (fun m b => m.erase b.hash) s.hashToHeight
        txToBlock := s.txToBlock.eraseAll
          ((bs.filter fun b => !decide (before ≤ b.timestamp)).flatMap Block.transactions)
        prunedCount := s.prunedCount + (bs.filter fun b => !decide (before ≤ b.timestamp)).length }
  | [], s => by simp [TxIndex.eraseAll]
  | b :: bs, s => by
      rw [List.foldl_cons, foldl_pruneStep before bs]
      by_cases hb : before ≤ b.timestamp
      · simp [pruneStep, hb]
      · simp [pruneStep, hb, TxIndex.eraseAll, List.foldl_append, Nat.add_assoc, Nat.add_comm 1]

/-- **What a call of `pruneOldBlocks` does.**  It never fails. -/
theorem pruneOldBlocks_exec (before : Timestamp) (c : Blockchain) :
    (pruneOldBlocks before).exec c = (.ok (c.dropped before).length, c.prune before) := by
  obtain ⟨b, bs, hbs⟩ := List.exists_cons_of_ne_nil c.blocks_ne
  simp only [pruneOldBlocks, Exec.exec_get_bind, Exec.exec_lift_bind, hbs, indexVec,
    List.getElem?_cons_zero, Exec.exec_modify_bind, Exec.exec_pure, foldl_pruneStep]
  simp [prune, kept, dropped, hbs]

theorem next_pruneOldBlocks (before : Timestamp) (c : Blockchain) :
    (pruneOldBlocks before).next c = c.prune before :=
  Exec.next_of_ok (pruneOldBlocks_exec before c)

theorem mem_dropped {c : Blockchain} {before : Timestamp} {b : Block} :
    b ∈ c.dropped before ↔ b ∈ c.blocks.tail ∧ ¬ before ≤ b.timestamp := by
  simp [dropped]

theorem prune_eq_self {c : Blockchain} {before : Timestamp}
    (h : ∀ b ∈ c.blocks.tail, before ≤ b.timestamp) : c.prune before = c := by
  have hkept : c.kept before = c.blocks.tail := List.filter_eq_self.mpr (by simpa using h)
  have hdropped : c.dropped before = [] := List.filter_eq_nil_iff.mpr (by simpa using h)
  cases c
  simp only [prune, hkept, hdropped, List.cons_head_tail, List.foldl_nil, List.flatMap_nil,
    TxIndex.eraseAll]

theorem length_prune_lt {c : Blockchain} {before : Timestamp} {b : Block}
    (hb : b ∈ c.dropped before) : (c.prune before).blocks.length < c.blocks.length := by
  obtain ⟨hmem, hold⟩ := mem_dropped.mp hb
  have hlt : (c.kept before).length < c.blocks.tail.length :=
    List.length_filter_lt_length_iff_exists.mpr ⟨b, hmem, by simpa using hold⟩
  have hpos := List.length_pos_of_ne_nil c.blocks_ne
  simp only [prune, List.length_cons, List.length_tail] at hlt ⊢
  omega

theorem length_prune_le (c : Blockchain) (before : Timestamp) :
    (c.prune before).blocks.length ≤ c.blocks.length := by
  have hle : (c.kept before).length ≤ c.blocks.tail.length := List.length_filter_le _ _
  have hpos := List.length_pos_of_ne_nil c.blocks_ne
  simp only [prune, List.length_cons, List.length_tail] at hle ⊢
  omega

theorem mem_tx_prune {c : Blockchain} {before : Timestamp} {t : TxId} :
    t ∈ (c.prune before).txToBlock ↔
      t ∈ c.txToBlock ∧ ∀ d ∈ c.dropped before, t ∉ d.ids := by
  have hids : ((c.dropped before).flatMap Block.transactions).map Transaction.id =
      (c.dropped before).flatMap Block.ids := List.map_flatMap
  rw [← Finmap.lookup_isSome, prune, TxIndex.lookup_eraseAll, hids, ← Finmap.lookup_isSome]
  split
  · next hmem =>
      obtain ⟨d, hd, ht⟩ := List.mem_flatMap.mp hmem
      exact iff_of_false nofun fun h => h.2 d hd ht
  · next hnot =>
      refine (and_iff_left fun d hd ht => hnot ?_).symm
      exact List.mem_flatMap.mpr ⟨d, hd, ht⟩

/-! ## Runs -/

/-- The calls that change a chain. -/
inductive ChainOp where
  | addBlock (block : Block)
  | pruneOldBlocks (beforeTimestamp : Timestamp)

variable (P : Primitives)

/-- One call in a run. -/
def opStep [Hex] (c : Blockchain) : ChainOp → Blockchain
  | .addBlock block => (addBlock P block).next c
  | .pruneOldBlocks before => (pruneOldBlocks before).next c

/-! ## Lookups by height -/

/-- The lookups by height do not panic, return blocks of the height asked for, and
agree with the search through the vector. -/
structure LookupsOk (c : Blockchain) : Prop where
  byHeight_total : ∀ h, c.getBlockByHeight h ≠ .error .panicked
  range_total : ∀ first last, c.getBlocksRange first last ≠ .error .panicked
  byHeight_height : ∀ h b, c.getBlockByHeight h = .ok (some b) → b.header.height = h
  agree : ∀ h b, c.getBlockByHeight h = .ok (some b) ↔ c.getBlockAtHeight h = .ok b

/-- A call that finds no block to drop. -/
def DropsNothing (c : Blockchain) : ChainOp → Prop
  | .addBlock _ => True
  | .pruneOldBlocks before => ∀ b ∈ c.blocks.tail, before ≤ b.timestamp

variable {P}

theorem Shape.getBlockAtHeight_eq_ok {c : Blockchain} (hshape : Shape P c) (h : BlockHeight)
    (b : Block) : c.getBlockAtHeight h = .ok b ↔ b ∈ c.blocks ∧ b.header.height = h := by
  rw [getBlockAtHeight]
  cases hfind : c.blocks.find? fun b => b.header.height = h with
  | none =>
      refine iff_of_false nofun ?_
      rintro ⟨hb, rfl⟩
      simpa using List.find?_eq_none.mp hfind b hb
  | some b' =>
      have hmem := List.mem_of_find?_eq_some hfind
      have hheight : b'.header.height = h := by simpa using List.find?_some hfind
      constructor
      · rintro ⟨⟩
        exact ⟨hmem, hheight⟩
      · rintro ⟨hb, hbh⟩
        rw [hshape.eq_of_height_eq hmem hb (hheight.trans hbh.symm)]

theorem Shape.getBlocksRange_total {c : Blockchain} (hshape : Shape P c)
    (first last : BlockHeight) : c.getBlocksRange first last ≠ .error .panicked := by
  rw [getBlocksRange]
  split
  · exact nofun
  · next hrange =>
      simp only [not_or, UInt64.not_lt, UInt64.le_iff_toNat_le] at hrange
      have hheight := hshape.height
      have hle : c.blocks.length ≤ 2 ^ 63 - 1 := hshape.length_le
      rw [sliceInclusive, if_pos ⟨by omega, by omega, by omega⟩]
      exact nofun

theorem Shape.lookupsOk {c : Blockchain} (hshape : Shape P c) : LookupsOk c := by
  have hfound : ∀ h b, c.getBlockByHeight h = .ok (some b) → b ∈ c.blocks ∧ b.header.height = h := by
    intro h b hb
    rw [hshape.getBlockByHeight_eq, Except.ok.injEq] at hb
    exact ⟨List.mem_of_getElem? hb, UInt64.toNat_inj.mp (hshape.heights _ b hb)⟩
  refine ⟨?_, hshape.getBlocksRange_total, fun h b hb => (hfound h b hb).2, ?_⟩
  · intro h
    rw [hshape.getBlockByHeight_eq]
    exact nofun
  · intro h b
    rw [hshape.getBlockAtHeight_eq_ok]
    constructor
    · exact hfound h b
    · rintro ⟨hb, rfl⟩
      exact hshape.getBlockByHeight_of_mem hb

/-- In a chain of the right shape a call that drops a block breaks the lookup of
the current height. -/
theorem Shape.getBlockByHeight_prune {c : Blockchain} (hshape : Shape P c) {before : Timestamp}
    {b : Block} (hb : b ∈ c.dropped before) :
    (c.prune before).getBlockByHeight c.height = .error .panicked := by
  have hlt := length_prune_lt hb
  have hheight := hshape.height
  have hnone : (c.prune before).blocks[c.height.toNat]? = none :=
    List.getElem?_eq_none (by omega)
  have hcounter : c.height ≤ (c.prune before).height := UInt64.le_refl _
  rw [getBlockByHeight, if_pos hcounter, indexVec, hnone]
  rfl

theorem Shape.opStep [Hex] {c : Blockchain} (hshape : Shape P c) {op : ChainOp}
    (hop : DropsNothing c op) : Shape P (opStep P c op) := by
  cases op with
  | addBlock b => exact next_addBlock_preserves hshape hshape.extend
  | pruneOldBlocks before =>
      rw [Blockchain.opStep, next_pruneOldBlocks, prune_eq_self hop]
      exact hshape

/-- **When lookups by height work.**  In every state of a run the lookups by height
neither panic nor return a block of another height, and agree with the search
through the vector, exactly if no call of `prune_old_blocks` in the run finds a
block that is old enough to drop. -/
theorem lookups_iff_dropsNothing [Hex] {now : Timestamp} {g : GenesisBlock} {c₀ : Blockchain}
    (hnew : new P now g = .ok c₀) (ops : List ChainOp) :
    Runs.Visits (opStep P) LookupsOk c₀ ops ↔ Runs.Along (opStep P) DropsNothing c₀ ops := by
  refine Runs.visits_iff_along (fun c (hc : Shape P c) => hc.lookupsOk)
    (fun c op hc hop => hc.opStep hop) ?_ (shape_of_new hnew)
  intro c op hc hgood
  cases op with
  | addBlock b => trivial
  | pruneOldBlocks before =>
      rw [opStep, next_pruneOldBlocks] at hgood
      intro b hb
      by_contra hold
      exact hgood.byHeight_total c.height (hc.getBlockByHeight_prune (mem_dropped.mpr ⟨hb, hold⟩))

/-- A block is added, and a cutoff before its timestamp drops nothing. -/
theorem lookups_iff_dropsNothing_sample : LookupsOk (Runs.run (opStep Reference.primitives)
    Reference.chain
    [.addBlock (Reference.chain.nextBlock Reference.primitives [] Reference.key),
      .pruneOldBlocks 1000]) := by
  refine Runs.Visits.last
    ((lookups_iff_dropsNothing (Reference.new_genesis 0) _).mpr ⟨trivial, ?_, trivial⟩)
  have hadm := Reference.admits_votes [] (by simp)
  intro b hb
  rw [opStep, next_addBlock_of_admits hadm] at hb
  rw [List.mem_singleton.mp hb]
  decide

/-- A block is added and dropped again: the height is still `1`, and looking it up
panics. -/
theorem getBlockByHeight_after_prune :
    new Reference.primitives 0 Reference.genesis = .ok Reference.chain ∧
    (Runs.run (opStep Reference.primitives) Reference.chain
      [.addBlock (Reference.chain.nextBlock Reference.primitives [] Reference.key),
        .pruneOldBlocks 1001]).getBlockByHeight 1 = .error .panicked := by
  have hadm := Reference.admits_votes [] (by simp)
  have hshape := (shape_of_new (Reference.new_genesis 0)).extend hadm
  refine ⟨Reference.new_genesis 0, ?_⟩
  rw [Runs.run_cons, Runs.run_cons, Runs.run_nil, opStep, opStep, next_addBlock_of_admits hadm,
    next_pruneOldBlocks]
  refine hshape.getBlockByHeight_prune (mem_dropped.mpr ⟨List.mem_singleton_self _, ?_⟩)
  decide

/-! ## Replay -/

section Replay
variable (P)

/-- The block a call of `add_block` puts into the chain, if it accepts it. -/
def acceptedBy [Hex] (c : Blockchain) : ChainOp → List Block
  | .addBlock block =>
      match ((addBlock P block).exec c).1 with
      | .ok _ => [block]
      | .error _ => []
  | .pruneOldBlocks _ => []

/-- The blocks that the calls of a run put into the chain, in order. -/
def accepted [Hex] (c : Blockchain) (ops : List ChainOp) : List Block :=
  Runs.trace (opStep P) (acceptedBy P) c ops

/-- No id of an accepted block is in a block accepted later. -/
def NoReplay [Hex] (c : Blockchain) (ops : List ChainOp) : Prop :=
  (accepted P c ops).Pairwise fun b b' => b.ids.Disjoint b'.ids

/-- A call that drops no block with transactions in it. -/
def DropsNoTransactions (c : Blockchain) : ChainOp → Prop
  | .addBlock _ => True
  | .pruneOldBlocks before => ∀ b ∈ c.blocks.tail, before ≤ b.timestamp ∨ b.transactions = []

variable {P}

theorem acceptedBy_of_admits [Hex] {c : Blockchain} {b : Block} (h : Admits P c b) :
    acceptedBy P c (.addBlock b) = [b] := by
  rw [acceptedBy, addBlock_eq_ok.mpr h]

/-- What a call of `add_block` does to the chain and to the list of accepted
blocks. -/
theorem addBlock_op_cases [Hex] (c : Blockchain) (b : Block) :
    (Admits P c b ∧ opStep P c (.addBlock b) = c.extend b ∧ acceptedBy P c (.addBlock b) = [b]) ∨
    (opStep P c (.addBlock b) = c ∧ acceptedBy P c (.addBlock b) = []) := by
  by_cases hadm : Admits P c b
  · exact Or.inl ⟨hadm, next_addBlock_of_admits hadm, acceptedBy_of_admits hadm⟩
  · refine Or.inr ⟨next_addBlock_of_not_admits hadm, ?_⟩
    rw [acceptedBy]
    cases hr : ((addBlock P b).exec c).1 with
    | ok u => exact absurd (addBlock_eq_ok.mp hr) hadm
    | error e => rfl

theorem accepted_concat [Hex] (c : Blockchain) (ops : List ChainOp) (op : ChainOp) :
    accepted P c (ops ++ [op]) =
      accepted P c ops ++ acceptedBy P (Runs.run (opStep P) c ops) op :=
  Runs.trace_concat (acceptedBy P) c ops op

/-- While no transactions are dropped, the index remembers every id that was
included. -/
theorem mem_txToBlock_of_accepted [Hex] {c₀ : Blockchain} {ops : List ChainOp}
    (hops : Runs.Along (opStep P) DropsNoTransactions c₀ ops) :
    ∀ b ∈ accepted P c₀ ops, ∀ t ∈ b.ids, t ∈ (Runs.run (opStep P) c₀ ops).txToBlock := by
  induction ops using List.reverseRecOn with
  | nil => exact nofun
  | append_singleton ops op ih =>
      obtain ⟨hpre, hop⟩ := Runs.along_concat.mp hops
      intro b hb t ht
      rw [accepted_concat, List.mem_append] at hb
      rw [Runs.run_concat]
      cases op with
      | addBlock block =>
          rcases addBlock_op_cases (P := P) (Runs.run (opStep P) c₀ ops) block with
            ⟨-, hstep, hout⟩ | ⟨hstep, hout⟩
          · rw [hstep, mem_tx_extend]
            rw [hout, List.mem_singleton] at hb
            rcases hb with hb | rfl
            · exact Or.inr (ih hpre b hb t ht)
            · exact Or.inl ht
          · rw [hstep]
            rw [hout] at hb
            exact ih hpre b (by simpa using hb) t ht
      | pruneOldBlocks before =>
          rw [opStep, next_pruneOldBlocks, mem_tx_prune]
          refine ⟨ih hpre b (by simpa [acceptedBy] using hb) t ht, ?_⟩
          intro d hd htd
          obtain ⟨hmem, hold⟩ := mem_dropped.mp hd
          rw [Block.ids, (hop d hmem).resolve_left hold] at htd
          cases htd

theorem noReplay_of_dropsNoTransactions [Hex] {c₀ : Blockchain} {ops : List ChainOp}
    (hops : Runs.Along (opStep P) DropsNoTransactions c₀ ops) : NoReplay P c₀ ops := by
  induction ops using List.reverseRecOn with
  | nil => exact List.Pairwise.nil
  | append_singleton ops op ih =>
      obtain ⟨hpre, -⟩ := Runs.along_concat.mp hops
      rw [NoReplay, accepted_concat]
      cases op with
      | addBlock block =>
          rcases addBlock_op_cases (P := P) (Runs.run (opStep P) c₀ ops) block with
            ⟨hadm, -, hout⟩ | ⟨-, hout⟩
          · rw [hout]
            refine List.pairwise_append.mpr ⟨ih hpre, List.pairwise_singleton _ _, ?_⟩
            intro b hb b' hb' t ht ht'
            rw [List.mem_singleton.mp hb'] at ht'
            obtain ⟨tx, htx, rfl⟩ := List.mem_map.mp ht'
            exact hadm.fresh tx htx (mem_txToBlock_of_accepted hpre b hb _ ht)
          · rw [hout, List.append_nil]
            exact ih hpre
      | pruneOldBlocks before =>
          rw [acceptedBy, List.append_nil]
          exact ih hpre

theorem accepted_of_mem_tail [Hex] {c₀ : Blockchain} (hone : c₀.blocks.tail = [])
    (ops : List ChainOp) :
    ∀ b ∈ (Runs.run (opStep P) c₀ ops).blocks.tail, b ∈ accepted P c₀ ops ∧ b.Valid P := by
  induction ops using List.reverseRecOn with
  | nil =>
      rw [Runs.run_nil, hone]
      exact nofun
  | append_singleton ops op ih =>
      intro b hb
      rw [accepted_concat, List.mem_append]
      rw [Runs.run_concat] at hb
      cases op with
      | addBlock block =>
          rcases addBlock_op_cases (P := P) (Runs.run (opStep P) c₀ ops) block with
            ⟨hadm, hstep, hout⟩ | ⟨hstep, hout⟩
          · rw [hstep, tail_extend, List.mem_append, List.mem_singleton] at hb
            rcases hb with hb | rfl
            · exact ⟨Or.inl (ih b hb).1, (ih b hb).2⟩
            · rw [hout]
              exact ⟨Or.inr (List.mem_singleton_self _), hadm.valid⟩
          · rw [hstep] at hb
            exact ⟨Or.inl (ih b hb).1, (ih b hb).2⟩
      | pruneOldBlocks before =>
          rw [opStep, next_pruneOldBlocks] at hb
          have hkept : b ∈ (Runs.run (opStep P) c₀ ops).blocks.tail := List.mem_of_mem_filter hb
          exact ⟨Or.inl (ih b hkept).1, (ih b hkept).2⟩

theorem length_blocks_le [Hex] {c₀ : Blockchain} (h : c₀.blocks.length ≤ maxVecLength)
    (ops : List ChainOp) : (Runs.run (opStep P) c₀ ops).blocks.length ≤ maxVecLength := by
  refine Runs.run_preserves (I := fun c : Blockchain => c.blocks.length ≤ maxVecLength) ?_ h ops
  intro c op hc
  cases op with
  | addBlock b =>
      rcases addBlock_op_cases (P := P) c b with ⟨hadm, hstep, -⟩ | ⟨hstep, -⟩
      · rw [hstep, extend, List.length_append, List.length_singleton]
        exact hadm.room
      · rwa [hstep]
  | pruneOldBlocks before =>
      rw [opStep, next_pruneOldBlocks]
      exact (length_prune_le _ before).trans hc

/-- A dropped transaction can be included again at once. -/
theorem replay_of_dropped [Hex] {c₀ : Blockchain} (hone : c₀.blocks.length = 1) (ops : List ChainOp)
    (before : Timestamp) {d : Block} (hd : d ∈ (Runs.run (opStep P) c₀ ops).dropped before)
    {tx : Transaction} (htx : tx ∈ d.transactions) (validator : PublicKey) :
    ¬ NoReplay P c₀ ((ops ++ [.pruneOldBlocks before]) ++
      [.addBlock (((Runs.run (opStep P) c₀ ops).prune before).nextBlock P [tx] validator)]) := by
  have htail : c₀.blocks.tail = [] := List.eq_nil_of_length_eq_zero (by simp [hone])
  have hlen : (Runs.run (opStep P) c₀ ops).blocks.length ≤ maxVecLength :=
    length_blocks_le (by simp [hone, maxVecLength]) ops
  obtain ⟨hacc, hvalid⟩ := accepted_of_mem_tail htail ops d (mem_dropped.mp hd).1
  have hadm : Admits P ((Runs.run (opStep P) c₀ ops).prune before)
      (((Runs.run (opStep P) c₀ ops).prune before).nextBlock P [tx] validator) := by
    refine admits_nextBlock _ ?_ ?_ ?_
    · intro x hx
      rw [List.mem_singleton.mp hx]
      exact hvalid.transactions tx htx
    · intro x hx hin
      rw [List.mem_singleton.mp hx, mem_tx_prune] at hin
      exact hin.2 d hd (List.mem_map_of_mem htx)
    · exact (length_prune_lt hd).trans_le hlen
  intro hno
  rw [NoReplay, accepted_concat, accepted_concat, Runs.run_concat, opStep, next_pruneOldBlocks,
    acceptedBy_of_admits hadm, acceptedBy, List.append_nil] at hno
  have hdisjoint := (List.pairwise_append.mp hno).2.2 d hacc _ (List.mem_singleton_self _)
  exact hdisjoint (List.mem_map_of_mem htx) (List.mem_singleton_self _)

/-- **When nothing can be replayed.**  No transaction id is included by two accepted
calls of `add_block`, in the run or in any run that goes on with one more block
after some of its calls, exactly if no call of `prune_old_blocks` in the run drops
a block with transactions in it. -/
theorem noReplay_iff_dropsNoTransactions [Hex] {now : Timestamp} {g : GenesisBlock}
    {c₀ : Blockchain} (hnew : new P now g = .ok c₀) (ops : List ChainOp) :
    (NoReplay P c₀ ops ∧ ∀ pre b, pre <+: ops → NoReplay P c₀ (pre ++ [.addBlock b])) ↔
      Runs.Along (opStep P) DropsNoTransactions c₀ ops := by
  constructor
  · rintro ⟨-, hreplay⟩
    obtain ⟨g₀, -, rfl⟩ := new_eq_ok.mp hnew
    induction ops using List.reverseRecOn with
    | nil => trivial
    | append_singleton ops op ih =>
        refine Runs.along_concat.mpr
          ⟨ih fun pre b hpre => hreplay pre b (hpre.trans (List.prefix_append _ _)), ?_⟩
        cases op with
        | addBlock b => trivial
        | pruneOldBlocks before =>
            intro d hd
            refine or_iff_not_imp_left.mpr fun hold => List.eq_nil_iff_forall_not_mem.mpr ?_
            intro tx htx
            have hdrop := mem_dropped.mpr ⟨hd, hold⟩
            exact replay_of_dropped rfl ops before hdrop htx d.header.validator
              (hreplay _ _ (List.prefix_refl _))
  · intro hops
    refine ⟨noReplay_of_dropsNoTransactions hops, ?_⟩
    intro pre b hpre
    obtain ⟨rest, rfl⟩ := hpre
    have hpre := (Runs.along_append.mp hops).1
    exact noReplay_of_dropsNoTransactions (Runs.along_concat.mpr ⟨hpre, trivial⟩)

/-- A vote is included, and a cutoff drops nothing. -/
theorem noReplay_iff_dropsNoTransactions_sample : NoReplay Reference.primitives Reference.chain
    [.addBlock (Reference.chain.nextBlock Reference.primitives [Reference.vote 0] Reference.key),
      .pruneOldBlocks 1000] := by
  have hadm := Reference.admits_votes [Reference.vote 0] (by simp)
  refine And.left ((noReplay_iff_dropsNoTransactions (Reference.new_genesis 0) _).mpr ?_)
  refine ⟨trivial, ?_, trivial⟩
  intro b hb
  rw [opStep, next_addBlock_of_admits hadm] at hb
  rw [List.mem_singleton.mp hb]
  exact Or.inl (by decide)

/-- A vote is included, its block is pruned, and the vote is included again. -/
theorem vote_replayed_after_prune :
    new Reference.primitives 0 Reference.genesis = .ok Reference.chain ∧
    ¬ NoReplay Reference.primitives Reference.chain
      [.addBlock (Reference.chain.nextBlock Reference.primitives [Reference.vote 0] Reference.key),
        .pruneOldBlocks 1001,
        .addBlock (((Reference.chain.extend (Reference.chain.nextBlock Reference.primitives
          [Reference.vote 0] Reference.key)).prune 1001).nextBlock Reference.primitives
            [Reference.vote 0] Reference.key)] := by
  have hadm := Reference.admits_votes [Reference.vote 0] (by simp)
  have hone : Reference.chain.blocks.length = 1 := rfl
  have h := replay_of_dropped (P := Reference.primitives) (d := Reference.chain.nextBlock
    Reference.primitives [Reference.vote 0] Reference.key) hone
    [.addBlock (Reference.chain.nextBlock Reference.primitives [Reference.vote 0] Reference.key)]
    1001
  rw [Runs.run_cons, Runs.run_nil, opStep, next_addBlock_of_admits hadm] at h
  refine ⟨Reference.new_genesis 0, h ?_ (List.mem_singleton_self _) Reference.key⟩
  exact mem_dropped.mpr ⟨List.mem_singleton_self _, by decide⟩

end Replay

end VotingChain.Blockchain
