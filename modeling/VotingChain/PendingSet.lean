/-
# `VotingChain.PendingSet` — the pending transactions of a full node

The model of `submit_transaction` in `node/src/full_node.rs`.  A transaction that is valid
goes into the pending set and then to the network; a block that is taken in takes its
transactions out again.

    submit_transaction      validate, insert the id, build the message, broadcast
    process_block           add to the chain, erase the ids

The id is inserted without a look at the chain, so that a transaction that is in the chain
already waits there for good, since its block does not come a second time; and it is
inserted before the broadcast, so that it stays where the caller is told of a failure.  In a
run without these two the set holds the transactions that were accepted and are not in the
chain, and nothing else (`pending_exact_iff`).
-/
import VotingChain.Node

namespace VotingChain

open Blockchain (Admits)

namespace FullNode
variable (P : Primitives)

/-- Submit a transaction.  `broadcast` is what building the message and the network return;
neither touches the node. -/
def submitTransaction (broadcast : Transaction → Result Unit) (tx : Transaction) :
    Exec FullNode Unit := do
  match (← get).components with
  | none => Exec.lift (fail .nodeNotInitialized)
  | some _ =>
    Exec.lift (tx.validate P)
    modify fun node =>
      { node with pendingTransactions := insert tx.id node.pendingTransactions }
    Exec.lift (broadcast tx)

/-- The node once it has noted down an id. -/
def note (node : FullNode) (id : TxId) : FullNode :=
  { node with pendingTransactions := insert id node.pendingTransactions }

variable {P}

/-- **What a call of `submitTransaction` does** to a node that has been set up: nothing, if
the transaction is not valid; else its id is noted down, whatever the network returns. -/
theorem submitTransaction_exec {node : FullNode} {components : NodeComponents}
    (hcomp : node.components = some components) (broadcast : Transaction → Result Unit)
    (tx : Transaction) :
    (submitTransaction P broadcast tx).exec node =
      match tx.validate P with
      | .ok () => (broadcast tx, node.note tx.id)
      | .error e => (.error e, node) := by
  rw [submitTransaction, Exec.exec_get_bind, hcomp]
  cases hvalid : tx.validate P with
  | ok _ => rfl
  | error e => rfl

end FullNode

/-- A call of a full node, with what the network returns. -/
inductive FullNodeCall
  | submitTransaction (tx : Transaction) (broadcast : Transaction → Result Unit)
  | processBlock (block : Block)

/-- A full node, and the ids of the transactions that it has accepted so far. -/
structure Submissions where
  node : FullNode
  accepted : Finset TxId

namespace Submissions
variable (P : Primitives)

/-- A node that has just been set up. -/
def start (components : NodeComponents) : Submissions :=
  ⟨⟨some components, ∅, NodeStats.default⟩, ∅⟩

def step [Hex] (s : Submissions) : FullNodeCall → Submissions
  | .submitTransaction tx broadcast =>
    { node := (FullNode.submitTransaction P broadcast tx).next s.node
      accepted :=
        match ((FullNode.submitTransaction P broadcast tx).exec s.node).1 with
        | .ok () => insert tx.id s.accepted
        | .error _ => s.accepted }
  | .processBlock block => { s with node := (FullNode.processBlock P block).next s.node }

/-- The id belongs to a transaction in the chain of the node. -/
def InChain (s : Submissions) (id : TxId) : Prop :=
  ∃ components, s.node.components = some components ∧ id ∈ components.blockchain.ids

/-- The node is set up. -/
def Initialized (s : Submissions) : Prop := ∃ components, s.node.components = some components

/-- What is pending is what was accepted and is not in the chain. -/
def Exact (s : Submissions) : Prop :=
  ∀ id, id ∈ s.node.pendingTransactions ↔ id ∈ s.accepted ∧ ¬s.InChain id

/-- A valid transaction that goes out is not in the chain yet, and one that does not go out
is pending already. -/
def Timely (s : Submissions) : FullNodeCall → Prop
  | .submitTransaction tx broadcast =>
    tx.validate P = .ok () →
      (broadcast tx = .ok () → ¬s.InChain tx.id) ∧
      ∀ e, broadcast tx = .error (.err e) → tx.id ∈ s.node.pendingTransactions
  | .processBlock _ => True

/-! ## One call -/

theorem mem_foldl_erase (txs : List Transaction) (pending : Finset TxId) (id : TxId) :
    id ∈ txs.foldl (fun pending tx => pending.erase tx.id) pending ↔
      id ∈ pending ∧ id ∉ txs.map Transaction.id := by
  induction txs generalizing pending with
  | nil => simp
  | cons tx txs ih =>
      rw [List.foldl_cons, ih, Finset.mem_erase, List.map_cons, List.mem_cons, not_or]
      tauto

variable {P}

/-- **What a call does.**  A transaction may be noted down and accepted, or only noted down
where its broadcast fails, or nothing happens; a block is taken in, or nothing happens. -/
theorem step_cases [Hex] {s : Submissions} {components : NodeComponents}
    (hcomp : s.node.components = some components) (call : FullNodeCall) :
    (∃ tx broadcast, call = .submitTransaction tx broadcast ∧ tx.validate P = .ok () ∧
      broadcast tx = .ok () ∧ s.step P call = ⟨s.node.note tx.id, insert tx.id s.accepted⟩) ∨
    (∃ tx broadcast e, call = .submitTransaction tx broadcast ∧ tx.validate P = .ok () ∧
      broadcast tx = .error (.err e) ∧ s.step P call = ⟨s.node.note tx.id, s.accepted⟩) ∨
    (∃ block, call = .processBlock block ∧ Admits P components.blockchain block ∧
      s.step P call = ⟨s.node.takeIn block, s.accepted⟩) ∨
    (s.step P call = s ∧ Timely P s call) := by
  cases call with
  | submitTransaction tx broadcast =>
      have hexec := FullNode.submitTransaction_exec (P := P) hcomp broadcast tx
      cases hvalid : tx.validate P with
      | error e =>
          rw [hvalid] at hexec
          refine Or.inr (Or.inr (Or.inr ⟨?_, ?_⟩))
          · rw [step, Exec.next_of_error hexec, hexec]
          · intro hok
            rw [hvalid] at hok
            cases hok
      | ok _ =>
          rw [hvalid] at hexec
          cases hsend : broadcast tx with
          | ok _ =>
              rw [hsend] at hexec
              refine Or.inl ⟨tx, broadcast, rfl, hvalid, hsend, ?_⟩
              rw [step, Exec.next_of_ok hexec, hexec]
          | error e =>
              rw [hsend] at hexec
              cases e with
              | err e =>
                  refine Or.inr (Or.inl ⟨tx, broadcast, e, rfl, hvalid, hsend, ?_⟩)
                  rw [step, Exec.next, hexec]
              | panicked =>
                  refine Or.inr (Or.inr (Or.inr ⟨?_, fun _ => ⟨?_, ?_⟩⟩))
                  · rw [step, Exec.next, hexec]
                  · intro hok
                    rw [hsend] at hok
                    cases hok
                  · intro e he
                    rw [hsend] at he
                    cases he
  | processBlock block =>
      rcases FullNode.processBlock_cases (P := P) hcomp block with ⟨hadm, hexec⟩ | ⟨-, -, hnext⟩
      · refine Or.inr (Or.inr (Or.inl ⟨block, rfl, hadm, ?_⟩))
        rw [step, Exec.next_of_ok hexec]
      · refine Or.inr (Or.inr (Or.inr ⟨?_, trivial⟩))
        rw [step, hnext]

theorem inChain_iff {s : Submissions} {components : NodeComponents}
    (hcomp : s.node.components = some components) (id : TxId) :
    s.InChain id ↔ id ∈ components.blockchain.ids := by
  constructor
  · rintro ⟨components', hcomp', hid⟩
    obtain rfl : components = components' := Option.some.inj (hcomp.symm.trans hcomp')
    exact hid
  · intro hid
    exact ⟨components, hcomp, hid⟩

theorem initialized_step [Hex] {s : Submissions} (h : s.Initialized) (call : FullNodeCall) :
    (s.step P call).Initialized := by
  obtain ⟨components, hcomp⟩ := h
  rcases step_cases (P := P) hcomp call with ⟨tx, -, -, -, -, hstep⟩ | ⟨tx, -, -, -, -, -, hstep⟩ |
    ⟨block, -, -, hstep⟩ | ⟨hstep, -⟩
  · rw [hstep]
    exact ⟨components, hcomp⟩
  · rw [hstep]
    exact ⟨components, hcomp⟩
  · rw [hstep]
    exact ⟨_, FullNode.takeIn_components hcomp block⟩
  · rw [hstep]
    exact ⟨components, hcomp⟩

theorem timely_iff_of_sent {s : Submissions} {tx : Transaction}
    {broadcast : Transaction → Result Unit} (hvalid : tx.validate P = .ok ())
    (hsend : broadcast tx = .ok ()) :
    Timely P s (.submitTransaction tx broadcast) ↔ ¬s.InChain tx.id := by
  constructor
  · intro h
    exact (h hvalid).1 hsend
  · intro h _
    refine ⟨fun _ => h, ?_⟩
    intro e he
    rw [hsend] at he
    cases he

theorem timely_iff_of_unsent {s : Submissions} {tx : Transaction}
    {broadcast : Transaction → Result Unit} {e : VotingError} (hvalid : tx.validate P = .ok ())
    (hsend : broadcast tx = .error (.err e)) :
    Timely P s (.submitTransaction tx broadcast) ↔ tx.id ∈ s.node.pendingTransactions := by
  constructor
  · intro h
    exact (h hvalid).2 e hsend
  · intro h _
    refine ⟨?_, fun _ _ => h⟩
    intro hok
    rw [hsend] at hok
    cases hok

theorem exact_sent_iff {s : Submissions} (h : s.Exact) (id : TxId) :
    Exact ⟨s.node.note id, insert id s.accepted⟩ ↔ ¬s.InChain id := by
  constructor
  · intro hnext
    exact ((hnext id).mp (Finset.mem_insert_self _ _)).2
  · intro hnot id'
    show id' ∈ insert id s.node.pendingTransactions ↔ id' ∈ insert id s.accepted ∧ ¬s.InChain id'
    rw [Finset.mem_insert, Finset.mem_insert, h id']
    constructor
    · rintro (rfl | ⟨hacc, hchain⟩)
      · exact ⟨Or.inl rfl, hnot⟩
      · exact ⟨Or.inr hacc, hchain⟩
    · rintro ⟨rfl | hacc, hchain⟩
      · exact Or.inl rfl
      · exact Or.inr ⟨hacc, hchain⟩

theorem exact_unsent_iff {s : Submissions} (h : s.Exact) (id : TxId) :
    Exact ⟨s.node.note id, s.accepted⟩ ↔ id ∈ s.node.pendingTransactions := by
  constructor
  · intro hnext
    exact (h id).mpr ((hnext id).mp (Finset.mem_insert_self _ _))
  · intro hmem id'
    show id' ∈ insert id s.node.pendingTransactions ↔ id' ∈ s.accepted ∧ ¬s.InChain id'
    rw [Finset.insert_eq_of_mem hmem]
    exact h id'

theorem exact_takeIn {s : Submissions} {components : NodeComponents}
    (hcomp : s.node.components = some components) (h : s.Exact) (block : Block) :
    Exact ⟨s.node.takeIn block, s.accepted⟩ := by
  intro id
  have hchain : Submissions.InChain ⟨s.node.takeIn block, s.accepted⟩ id ↔
      s.InChain id ∨ id ∈ block.ids := by
    rw [inChain_iff (s := ⟨s.node.takeIn block, s.accepted⟩)
      (FullNode.takeIn_components hcomp block), inChain_iff hcomp, Blockchain.ids_extend,
      List.mem_append]
  rw [hchain, not_or, ← and_assoc, ← h id]
  exact mem_foldl_erase block.transactions s.node.pendingTransactions id

theorem exact_step_iff [Hex] {s : Submissions} (hinit : s.Initialized) (hexact : s.Exact)
    (call : FullNodeCall) : (s.step P call).Exact ↔ Timely P s call := by
  obtain ⟨components, hcomp⟩ := hinit
  rcases step_cases (P := P) hcomp call with ⟨tx, broadcast, rfl, hvalid, hsend, hstep⟩ |
    ⟨tx, broadcast, e, rfl, hvalid, hsend, hstep⟩ | ⟨block, rfl, hadm, hstep⟩ | ⟨hstep, htimely⟩
  · rw [hstep, timely_iff_of_sent hvalid hsend]
    exact exact_sent_iff hexact tx.id
  · rw [hstep, timely_iff_of_unsent hvalid hsend]
    exact exact_unsent_iff hexact tx.id
  · rw [hstep]
    exact iff_of_true (exact_takeIn hcomp hexact block) trivial
  · rw [hstep]
    exact iff_of_true hexact htimely

/-! ## Runs -/

/-- **The pending set.**  In a run of submissions and blocks the pending ids are, in every
state, those that were accepted and are not in the chain, if and only if each valid
transaction that goes out is not in the chain when it is submitted, and each one whose
broadcast fails is pending already. -/
theorem pending_exact_iff [Hex] (P : Primitives) (components : NodeComponents)
    (calls : List FullNodeCall) :
    Runs.Visits (step P) Exact (start components) calls ↔
      Runs.Along (step P) (Timely P) (start components) calls := by
  refine Runs.visits_iff_along (I := fun s => s.Initialized ∧ s.Exact) ?_ ?_ ?_ ⟨?_, ?_⟩
  · rintro s ⟨-, hexact⟩
    exact hexact
  · rintro s call ⟨hinit, hexact⟩ htimely
    exact ⟨initialized_step hinit call, (exact_step_iff hinit hexact call).mpr htimely⟩
  · rintro s call ⟨hinit, hexact⟩ h
    exact (exact_step_iff hinit hexact call).mp h
  · exact ⟨components, rfl⟩
  · intro id
    refine iff_of_false (Finset.notMem_empty id) ?_
    rintro ⟨hmem, -⟩
    exact Finset.notMem_empty id hmem

section
open Reference (primitives chain key vote)

/-- A vote is in a block of the chain when it is submitted.  It is accepted, and is pending
for good. -/
theorem vote_pending_in_chain :
    ¬Runs.Visits (step primitives) Exact (start ⟨chain, []⟩)
      [.processBlock (chain.nextBlock primitives [vote 0] key),
        .submitTransaction (vote 0) fun _ => .ok ()] := by
  have hadm := Reference.admits_votes [vote 0] fun tx htx => List.mem_singleton.mp htx
  rintro ⟨-, hexact, hlast⟩
  have hblock : (start ⟨chain, []⟩).step primitives
      (.processBlock (chain.nextBlock primitives [vote 0] key)) =
      ⟨(start ⟨chain, []⟩).node.takeIn (chain.nextBlock primitives [vote 0] key), ∅⟩ := by
    rcases FullNode.processBlock_cases (P := primitives)
      (show (start ⟨chain, []⟩).node.components = some ⟨chain, []⟩ from rfl)
      (chain.nextBlock primitives [vote 0] key) with ⟨-, hexec⟩ | ⟨hnot, -⟩
    · rw [step, Exec.next_of_ok hexec]
      rfl
    · exact absurd hadm hnot
  have hinit : (start ⟨chain, []⟩).Initialized := ⟨_, rfl⟩
  have htimely := (exact_step_iff (initialized_step hinit _) hexact _).mp hlast
  refine (htimely (Reference.validate_vote 0)).1 rfl ?_
  rw [hblock]
  refine ⟨_, @FullNode.takeIn_components _ ⟨chain, []⟩ rfl _, ?_⟩
  rw [Blockchain.ids_extend, List.mem_append]
  exact Or.inr List.mem_cons_self

end

end Submissions

end VotingChain
