/-
# `VotingChain.ElectionResults` — the results of an election, read from the chain

The model of `get_election_results` of `rpc/src/methods/validation.rs`.  The record of the
election comes from the state store and says which blocks to look at; the votes come from
the chain, and the total that the store has counted is not looked at.

    record   candidates, created_at_height ..= closed_at_height, is_finalized
    chain    every vote in these blocks that is for the election, decrypted
    answer   the votes of each candidate, and the sum over everybody who got one

`decrypt_vote` is a placeholder in the source: every vote is for `candidate_1`.  What is proved
first is about any decryption (`resultsWith_eq`); with the placeholder, `candidate_1` has all
votes and everybody else has none (`results_counted`).

A closed election is finalized, and its last block is fixed.  From then on the chain may grow
and the store may be called and opened again as it likes (`results_final`).
-/
import Mathlib.Algebra.BigOperators.Group.Finset.Basic
import VotingChain.LedgerReads
import VotingChain.StateElections

namespace VotingChain

open QueryResult (lift okOr)

/-- Validation query service. -/
structure ValidationMethods where
  chain : Blockchain
  stateStore : StateStore

/-! ## Counting -/

/-- `HashMap<String, u64>`. -/
abbrev VoteCounts := Finmap fun _ : String => UInt64

namespace VoteCounts

/-- `*vote_counts.entry(candidate_id).or_insert(0) += 1`. -/
def countOne (counts : VoteCounts) (candidateId : String) : VoteCounts :=
  counts.insert candidateId ((counts.lookup candidateId).getD 0 + 1)

/-- `vote_counts.get(&id).copied().unwrap_or(0)`. -/
def votesOf (counts : VoteCounts) (candidateId : String) : UInt64 :=
  (counts.lookup candidateId).getD 0

/-- `vote_counts.values().sum()`: a sum of words, in any order. -/
def total (counts : VoteCounts) : UInt64 :=
  UInt64.ofNat (counts.keys.sum fun candidateId => (counts.votesOf candidateId).toNat)

end VoteCounts

namespace ValidationMethods

/-- Placeholder - actual implementation would decrypt the vote. -/
def decryptVote (_encryptedVote : Bytes) : Result String := .ok "candidate_1"

/-- A candidate, without the percentage, which is a floating-point number. -/
structure CandidateResult where
  candidateId : Str
  candidateName : Str
  votes : UInt64
  deriving DecidableEq

/-- Election results response. -/
structure ElectionResultsResponse where
  electionId : String
  totalVotes : UInt64
  results : List CandidateResult
  finalized : Bool
  verificationProof : Option String
  deriving DecidableEq

section
variable (decrypt : Bytes → Result String)

/-- What is done with a transaction. -/
def countVote (id : ElectionId) (counts : VoteCounts) (tx : Transaction) : Result VoteCounts :=
  match tx.txType with
  | .vote voteTx =>
    if voteTx.electionId = id then do
      let candidateId ← decrypt voteTx.encryptedVote
      return counts.countOne candidateId
    else .ok counts
  | _ => .ok counts

/-- The body of `get_election_results`, for a way to decrypt a vote. -/
def resultsWith [Hex] (C : StateCodec) (methods : ValidationMethods) (electionId : String) :
    QueryResult ElectionResultsResponse := do
  let id ← okOr (ElectionId.fromHex electionId)
    (.fault (.err (.invalidTransaction "Invalid election ID")))
  let election ← okOr (← lift (methods.stateStore.getElection C id)) (.electionNotFound electionId)
  lift (ensure election.isFinalized (.invalidTransaction "Election is not finalized yet"))
  let voteCounts ← lift (methods.chain.visitBlocks election.createdAtHeight
    (election.closedAtHeight.getD methods.chain.height)
    (fun counts block => block.transactions.foldlM (countVote decrypt id) counts) ∅)
  return {
    electionId := id.toHex
    totalVotes := voteCounts.total
    results := election.candidates.val.map fun c => ⟨c.id, c.name, voteCounts.votesOf c.id.val⟩
    finalized := election.isFinalized
    verificationProof := none }

end

def getElectionResults [Hex] (C : StateCodec) (methods : ValidationMethods) (electionId : String) :
    QueryResult ElectionResultsResponse :=
  resultsWith decryptVote C methods electionId

end ValidationMethods

/-! ## What is counted -/

/-- The vote in a transaction, if it is one for the election. -/
def Transaction.voteFor (id : ElectionId) (tx : Transaction) : Option VoteTransaction :=
  match tx.txType with
  | .vote voteTx => if voteTx.electionId = id then some voteTx else none
  | _ => none

/-- The votes for an election in the blocks between two heights, in order. -/
def Blockchain.votesFor (c : Blockchain) (id : ElectionId) (first last : BlockHeight) :
    List VoteTransaction :=
  ((BlockchainMethods.blocksBetween c first last).flatMap Block.transactions).filterMap
    (Transaction.voteFor id)

namespace VoteCounts

/-- The counts after these names, one after the other. -/
def ofNames (names : List String) : VoteCounts := names.foldl countOne ∅

theorem ofNames_concat (names : List String) (x : String) :
    ofNames (names ++ [x]) = (ofNames names).countOne x := by
  rw [ofNames, List.foldl_concat]
  rfl

theorem votesOf_countOne (counts : VoteCounts) (x y : String) :
    (counts.countOne x).votesOf y =
      if y = x then counts.votesOf x + 1 else counts.votesOf y := by
  rw [votesOf, countOne]
  split
  · next h => rw [h, Finmap.lookup_insert, Option.getD_some, votesOf]
  · next h => rw [Finmap.lookup_insert_of_ne _ h, votesOf]

theorem votesOf_ofNames (names : List String) (x : String) :
    (ofNames names).votesOf x = UInt64.ofNat (names.count x) := by
  induction names using List.reverseRecOn with
  | nil => rfl
  | append_singleton names y ih =>
      rw [ofNames_concat, votesOf_countOne, List.count_append, List.count_singleton]
      by_cases hxy : x = y
      · rw [if_pos hxy, ← hxy, ih, beq_self_eq_true, if_pos rfl]
        exact (UInt64.ofNat_add _ 1).symm
      · have hbeq : (y == x) = false := beq_eq_false_iff_ne.mpr fun h => hxy h.symm
        rw [if_neg hxy, ih, hbeq, if_neg Bool.false_ne_true, Nat.add_zero]

theorem keys_ofNames (names : List String) : (ofNames names).keys = names.toFinset := by
  induction names using List.reverseRecOn with
  | nil => rfl
  | append_singleton names y ih =>
      ext x
      rw [ofNames_concat, countOne, Finmap.mem_keys, Finmap.mem_insert, ← Finmap.mem_keys, ih,
        List.mem_toFinset, List.mem_toFinset, List.mem_append, List.mem_singleton, or_comm]

theorem total_ofNames (names : List String) :
    (ofNames names).total = UInt64.ofNat names.length := by
  have hsum : ∀ x, ((ofNames names).votesOf x).toNat = names.count x % UInt64.size := by
    intro x
    rw [votesOf_ofNames, UInt64.toNat_ofNat']
  rw [total, keys_ofNames, ← List.sum_toFinset_count_eq_length names]
  apply UInt64.toNat_inj.mp
  rw [UInt64.toNat_ofNat', UInt64.toNat_ofNat']
  simp only [hsum]
  exact (Finset.sum_nat_mod names.toFinset UInt64.size fun x => names.count x).symm

end VoteCounts

namespace ValidationMethods

open Blockchain (Shape)

/-- A vote, as the name that is counted. -/
def nameOf (name : Bytes → String) (voteTx : VoteTransaction) : String :=
  name voteTx.encryptedVote

section
variable {decrypt : Bytes → Result String} {id : ElectionId} {name : Bytes → String}

theorem countVote_of_none {tx : Transaction} (h : tx.voteFor id = none) (counts : VoteCounts) :
    countVote decrypt id counts tx = .ok counts := by
  rw [Transaction.voteFor] at h
  rw [countVote]
  cases htype : tx.txType with
  | vote voteTx =>
      simp only [htype] at h ⊢
      split at h
      · cases h
      · next hid => rw [if_neg hid]
  | validatorRegistration reg => rfl
  | validatorRemoval removal => rfl
  | electionCreation creation => rfl
  | electionClosure closure => rfl

theorem countVote_of_some {tx : Transaction} {voteTx : VoteTransaction}
    (h : tx.voteFor id = some voteTx)
    (hname : decrypt voteTx.encryptedVote = .ok (nameOf name voteTx)) (counts : VoteCounts) :
    countVote decrypt id counts tx = .ok (counts.countOne (nameOf name voteTx)) := by
  rw [Transaction.voteFor] at h
  rw [countVote]
  cases htype : tx.txType with
  | vote vote =>
      simp only [htype] at h ⊢
      split at h
      · next hid =>
          obtain rfl := Option.some.inj h
          rw [if_pos hid, hname]
          rfl
      · cases h
  | validatorRegistration reg =>
      simp only [htype] at h
      cases h
  | validatorRemoval removal =>
      simp only [htype] at h
      cases h
  | electionCreation creation =>
      simp only [htype] at h
      cases h
  | electionClosure closure =>
      simp only [htype] at h
      cases h

theorem foldlM_countVote (txs : List Transaction)
    (hname : ∀ voteTx ∈ txs.filterMap (Transaction.voteFor id),
      decrypt voteTx.encryptedVote = .ok (nameOf name voteTx)) (names : List String) :
    txs.foldlM (countVote decrypt id) (VoteCounts.ofNames names) =
      .ok (VoteCounts.ofNames
        (names ++ (txs.filterMap (Transaction.voteFor id)).map (nameOf name))) := by
  induction txs generalizing names with
  | nil =>
      rw [List.filterMap_nil, List.map_nil, List.append_nil]
      rfl
  | cons tx txs ih =>
      rw [List.foldlM_cons]
      cases hvote : tx.voteFor id with
      | none =>
          rw [List.filterMap_cons_none hvote] at hname ⊢
          rw [countVote_of_none hvote]
          exact ih hname names
      | some voteTx =>
          rw [List.filterMap_cons_some hvote] at hname ⊢
          obtain ⟨hfirst, hrest⟩ := List.forall_mem_cons.mp hname
          rw [countVote_of_some hvote hfirst, ← VoteCounts.ofNames_concat, List.map_cons,
            List.append_cons names (nameOf name voteTx) (List.map _ _)]
          exact ih hrest _

theorem foldlM_countBlocks (blocks : List Block)
    (hname : ∀ voteTx ∈ (blocks.flatMap Block.transactions).filterMap (Transaction.voteFor id),
      decrypt voteTx.encryptedVote = .ok (nameOf name voteTx)) (names : List String) :
    blocks.foldlM (fun counts block => block.transactions.foldlM (countVote decrypt id) counts)
        (VoteCounts.ofNames names) =
      .ok (VoteCounts.ofNames (names ++
        ((blocks.flatMap Block.transactions).filterMap (Transaction.voteFor id)).map
          (nameOf name))) := by
  induction blocks generalizing names with
  | nil =>
      rw [List.flatMap_nil, List.filterMap_nil, List.map_nil, List.append_nil]
      rfl
  | cons block blocks ih =>
      rw [List.flatMap_cons, List.filterMap_append] at hname ⊢
      have hfirst := fun voteTx hmem => hname voteTx (List.mem_append_left _ hmem)
      have hrest := fun voteTx hmem => hname voteTx (List.mem_append_right _ hmem)
      rw [List.foldlM_cons, foldlM_countVote block.transactions hfirst, List.map_append,
        ← List.append_assoc]
      exact ih hrest _

end

/-- The response that says how often these names were counted. -/
def responseOf [Hex] (id : ElectionId) (election : ElectionState) (names : List String) :
    ElectionResultsResponse where
  electionId := id.toHex
  totalVotes := UInt64.ofNat names.length
  results := election.candidates.val.map fun c =>
    ⟨c.id, c.name, UInt64.ofNat (names.count c.id.val)⟩
  finalized := true
  verificationProof := none

/-- The votes that an election is decided by. -/
def decidingVotes (methods : ValidationMethods) (election : ElectionState) (id : ElectionId) :
    List VoteTransaction :=
  methods.chain.votesFor id election.createdAtHeight
    (election.closedAtHeight.getD methods.chain.height)

/-- **The results, for any decryption** that gives every one of the votes a name. -/
theorem resultsWith_eq [Hex] {P : Primitives} {C : StateCodec} {methods : ValidationMethods}
    (hshape : Shape P methods.chain) {electionId : String} {id : ElectionId}
    (hid : ElectionId.fromHex electionId = some id) {election : ElectionState}
    (helection : methods.stateStore.getElection C id = .ok (some election))
    (hfinal : election.isFinalized = true) {decrypt : Bytes → Result String}
    {name : Bytes → String}
    (hname : ∀ voteTx ∈ methods.decidingVotes election id,
      decrypt voteTx.encryptedVote = .ok (nameOf name voteTx)) :
    resultsWith decrypt C methods electionId =
      .ok (responseOf id election ((methods.decidingVotes election id).map (nameOf name))) := by
  have hcounts := foldlM_countBlocks _ hname []
  rw [List.nil_append] at hcounts
  have hempty : VoteCounts.ofNames [] = ∅ := rfl
  rw [hempty] at hcounts
  simp only [resultsWith, hid, helection, hfinal, QueryResult.okOr_some, QueryResult.lift_ok,
    QueryResult.ok_bind, ensure, Blockchain.visitBlocks_eq hshape, if_true, hcounts,
    VoteCounts.total_ofNames, VoteCounts.votesOf_ofNames]
  rfl

/-! ## With the placeholder -/

/-- **All votes are for `candidate_1`.**  In every chain that is built by `add_block`, the
results of a finalized election are the votes for it in the blocks from the one of its creation
to the one of its closing, or to the last one: as the total, and as the count of every candidate
with that id; every other candidate has none. -/
theorem results_counted [Hex] {P : Primitives} {C : StateCodec} {now : Timestamp}
    {genesis : GenesisBlock} {c₀ : Blockchain} (hnew : Blockchain.new P now genesis = .ok c₀)
    (bs : List Block) {methods : ValidationMethods}
    (hchain : methods.chain = c₀.addBlocks P bs) {electionId : String} {id : ElectionId}
    (hid : ElectionId.fromHex electionId = some id) {election : ElectionState}
    (helection : methods.stateStore.getElection C id = .ok (some election))
    (hfinal : election.isFinalized = true) :
    ∃ response, getElectionResults C methods electionId = .ok response ∧
      response.totalVotes = UInt64.ofNat (methods.decidingVotes election id).length ∧
      response.results.map (fun r => (r.candidateId, r.candidateName)) =
        election.candidates.val.map (fun c => (c.id, c.name)) ∧
      ∀ r ∈ response.results,
        r.votes = if r.candidateId.val = "candidate_1" then response.totalVotes else 0 := by
  have hshape := Blockchain.shape_addBlocks hnew bs
  rw [← hchain] at hshape
  have hname : ∀ voteTx ∈ methods.decidingVotes election id,
      decryptVote voteTx.encryptedVote = .ok (nameOf (fun _ => "candidate_1") voteTx) :=
    fun voteTx _ => rfl
  have hresults := resultsWith_eq hshape hid helection hfinal hname
  have hnames : (methods.decidingVotes election id).map (nameOf fun _ => "candidate_1") =
      List.replicate (methods.decidingVotes election id).length "candidate_1" :=
    List.map_const' ..
  rw [hnames] at hresults
  refine ⟨_, hresults, ?_, ?_, ?_⟩
  · rw [responseOf, List.length_replicate]
  · rw [responseOf, List.map_map]
    rfl
  · intro r hr
    obtain ⟨c, -, rfl⟩ := List.mem_map.mp hr
    show UInt64.ofNat _ = _
    rw [List.count_replicate]
    by_cases hc : c.id.val = "candidate_1"
    · have hbeq : ("candidate_1" == c.id.val) = true := beq_iff_eq.mpr hc.symm
      rw [if_pos hbeq, if_pos hc, responseOf, List.length_replicate]
    · have hbeq : ("candidate_1" == c.id.val) = false :=
        beq_eq_false_iff_ne.mpr fun h => hc h.symm
      rw [hbeq, if_neg Bool.false_ne_true, if_neg hc]
      rfl

end ValidationMethods

/-! ### An election to count -/

namespace Reference

/-- The election that the first vote is for. -/
def votedElection : ElectionState :=
  { openElection with
    id := ⟨List.Vector.replicate 16 0⟩
    candidates := ⟨[⟨⟨"candidate_1", by decide⟩, ⟨"One", by decide⟩, none, none⟩,
      ⟨⟨"candidate_2", by decide⟩, ⟨"Two", by decide⟩, none, none⟩], by decide⟩
    createdAtHeight := 0 }

/-- A node with one vote, and its election. -/
def opened : ValidationMethods where
  chain := chain.addBlocks primitives [votedBlock]
  stateStore := StateStore.fresh.step stateCodec (.election (.create votedElection))

theorem chain_opened : opened.chain = chain.addBlocks primitives [votedBlock] := by
  rw [opened]

theorem entry_opened :
    opened.stateStore.entry stateCodec votedElection.id =
      ⟨some votedElection, some (.ok votedElection)⟩ :=
  StateStore.entry_electionStep_self exact_stateCodec StateStore.fresh (.create votedElection)

theorem getElection_opened :
    opened.stateStore.getElection stateCodec votedElection.id = .ok (some votedElection) := by
  rw [StateStore.getElection_eq, entry_opened]
  rfl

/-- And the election closed. -/
def counted : ValidationMethods :=
  { opened with
    stateStore := opened.stateStore.step stateCodec (.election (.close votedElection.id 1)) }

theorem getElection_counted :
    counted.stateStore.getElection stateCodec votedElection.id =
      .ok (some (votedElection.close 1)) := by
  have hentry := StateStore.entry_electionStep_self exact_stateCodec opened.stateStore
    (.close votedElection.id 1)
  have hid : ElectionCall.electionId (.close votedElection.id 1) = votedElection.id := rfl
  rw [hid, entry_opened] at hentry
  rw [StateStore.getElection_eq]
  exact congrArg Entry.reported hentry

theorem length_votesFor_voted :
    ((chain.addBlocks primitives [votedBlock]).votesFor votedElection.id 0 1).length = 1 := by
  have hgenesis : (0 ≤ genesisBlock.height && genesisBlock.height ≤ 1) = true := rfl
  have hvoted : (0 ≤ votedBlock.height && votedBlock.height ≤ 1) = true := rfl
  have hblocks : (chain.extend votedBlock).blocks = [genesisBlock, votedBlock] := rfl
  have hregistration : genesisBlock.transactions.filterMap
      (Transaction.voteFor votedElection.id) = [] := rfl
  have hvote : votedBlock.transactions.filterMap (Transaction.voteFor votedElection.id) =
      [⟨votedElection.id, [1], none, ⟨List.Vector.replicate 64 0⟩⟩] := rfl
  rw [addBlocks_votedBlock, Blockchain.votesFor, BlockchainMethods.blocksBetween, hblocks,
    List.filter_cons, if_pos hgenesis, List.filter_cons, if_pos hvoted, List.filter_nil,
    List.flatMap_cons, List.flatMap_cons, List.flatMap_nil, List.append_nil,
    List.filterMap_append, hregistration, hvote]
  rfl

end Reference

namespace ValidationMethods

/-- One vote. -/
theorem results_counted_vote : ∃ response,
    getElectionResults Reference.stateCodec Reference.counted Reference.votedElection.id.toHex =
      .ok response ∧ response.totalVotes = 1 := by
  have hchain : Reference.counted.chain =
      Reference.chain.addBlocks Reference.primitives [Reference.votedBlock] := by
    rw [Reference.counted, Reference.chain_opened]
  obtain ⟨response, hresponse, htotal, -⟩ := results_counted (Reference.new_genesis 0)
    [Reference.votedBlock] hchain (ElectionId.fromHex_toHex Reference.votedElection.id)
    Reference.getElection_counted rfl
  refine ⟨response, hresponse, ?_⟩
  rw [htotal, decidingVotes, hchain,
    show (Reference.votedElection.close 1).createdAtHeight = 0 from rfl,
    show (Reference.votedElection.close 1).closedAtHeight = some 1 from rfl, Option.getD_some,
    Reference.length_votesFor_voted]
  rfl

/-! ## After the closing -/

end ValidationMethods

/-- The records say the same to whoever counts. -/
structure ElectionState.CountsAs (election other : ElectionState) : Prop where
  candidates : other.candidates = election.candidates
  isFinalized : other.isFinalized = election.isFinalized
  createdAtHeight : other.createdAtHeight = election.createdAtHeight
  closedAtHeight : other.closedAtHeight = election.closedAtHeight

namespace Entry

/-- Every record of the election counts as this one, and there is a stored one. -/
structure CountsAs (election : ElectionState) (entry : Entry) : Prop where
  cached : ∀ e, entry.cached = some e → election.CountsAs e
  stored : ∃ e, entry.stored = some (.ok e) ∧ election.CountsAs e

theorem CountsAs.reported {election : ElectionState} {entry : Entry}
    (h : entry.CountsAs election) :
    ∃ e, entry.reported = .ok (some e) ∧ election.CountsAs e := by
  obtain ⟨stored, hstored, hcounts⟩ := h.stored
  rw [Entry.reported, hstored]
  cases hcached : entry.cached with
  | some e => exact ⟨e, rfl, h.cached e hcached⟩
  | none => exact ⟨stored, rfl, hcounts⟩

theorem CountsAs.change {election : ElectionState} {entry : Entry} (h : entry.CountsAs election)
    {f : ElectionState → ElectionState}
    (hf : ∀ e, election.CountsAs e → election.CountsAs (f e)) :
    (entry.change f).CountsAs election := by
  obtain ⟨stored, hstored, hcounts⟩ := h.stored
  cases hcached : entry.cached with
  | some e =>
      have he := h.cached e hcached
      rw [Entry.change, hcached]
      refine ⟨?_, f (f e), rfl, hf _ (hf _ he)⟩
      intro x hx
      obtain rfl := Option.some.inj hx
      exact hf _ he
  | none =>
      rw [Entry.change, hcached, hstored]
      refine ⟨?_, f stored, rfl, hf _ hcounts⟩
      intro x hx
      cases hx

theorem countsAs_close {entry : Entry} {election : ElectionState}
    (h : entry.reported = .ok (some election)) (height : BlockHeight) :
    (entry.change (ElectionState.close height)).CountsAs (election.close height) := by
  rcases entry with ⟨cached, stored⟩
  cases cached with
  | some x =>
      obtain rfl : x = election := Option.some.inj (Except.ok.inj h)
      refine ⟨?_, _, rfl, ⟨rfl, rfl, rfl, rfl⟩⟩
      intro e he
      obtain rfl := Option.some.inj he
      exact ⟨rfl, rfl, rfl, rfl⟩
  | none =>
      cases stored with
      | none => cases h
      | some r =>
          cases r with
          | error e => cases h
          | ok x =>
              obtain rfl : x = election := Option.some.inj (Except.ok.inj h)
              refine ⟨?_, _, rfl, ⟨rfl, rfl, rfl, rfl⟩⟩
              intro e he
              cases he

end Entry

namespace StateStore
variable {C : StateCodec}

theorem stored_of_loadElections {db : Database} {Q : ElectionId → ElectionState → Prop} :
    ∀ {keys : List Bytes} {elections loaded : Finmap fun _ : ElectionId => ElectionState},
      (∀ k ∈ keys, ∀ data e, db.lookup k = some data → C.deserialize data = .ok e → Q e.id e) →
      loadElections C db keys elections = .ok loaded →
      (∀ x e, elections.lookup x = some e → Q x e) → ∀ x e, loaded.lookup x = some e → Q x e
  | [], elections, loaded, _, h, hinit => by
      cases h
      exact hinit
  | key :: keys, elections, loaded, hstored, h, hinit => by
      have hrest := fun k hk => hstored k (List.mem_cons_of_mem key hk)
      rw [loadElections] at h
      cases hfound : db.lookup key with
      | none =>
          rw [hfound] at h
          exact stored_of_loadElections hrest h hinit
      | some value =>
          rw [hfound] at h
          simp only [bind_eq_ok] at h
          obtain ⟨election, helection, h⟩ := h
          have hread := ofBincode_eq_ok.mp helection
          refine stored_of_loadElections hrest h ?_
          split
          · have hQ := hstored key List.mem_cons_self value election hfound hread
            exact Finmap.forall_lookup_insert hinit hQ
          · exact hinit

/-- Opening the store again keeps the stored record of an election, and what is cached then, if
anything, is that record. -/
theorem WellKept.entry_new [Hex] {store store' : StateStore} (h : WellKept C store)
    {order : MapOrder Bytes Bytes} (hnew : StateStore.new C order store.db = .ok store')
    (x : ElectionId) :
    (store'.entry C x).stored = (store.entry C x).stored ∧
      ∀ e, (store'.entry C x).cached = some e → (store.entry C x).stored = some (.ok e) := by
  obtain ⟨-, elections, hload, rfl⟩ := new_eq_ok.mp hnew
  have hkeys : ∀ k ∈ store.db.keysWithPrefix order electionPrefix, ∀ data e,
      store.db.lookup k = some data → C.deserialize data = .ok e →
      (store.entry C e.id).stored = some (.ok e) := by
    intro k hk data e hdata hread
    obtain ⟨-, hprefix⟩ := Database.mem_keysWithPrefix.mp hk
    obtain ⟨e', hread', rfl⟩ := h.loadable_elections k data hprefix hdata
    obtain rfl := Except.ok.inj (hread.symm.trans hread')
    rw [entry, hdata, Option.map_some, hread]
  have hempty : ∀ x e, (∅ : Finmap fun _ : ElectionId => ElectionState).lookup x = some e →
      (store.entry C x).stored = some (.ok e) := by
    intro x e he
    cases he
  exact ⟨rfl, stored_of_loadElections hkeys hload hempty x⟩

variable (C) in
/-- The call does not create the election anew, and does not close it at another height. -/
def Leaves (electionId : ElectionId) (height : BlockHeight) : StateCall → Prop
  | .election (.create election) => election.id ≠ electionId
  | .election (.close x closedAtHeight) => x = electionId → closedAtHeight = height
  | _ => True

theorem countsAs_step [Hex] (hcodec : C.Exact) {store : StateStore} (hkept : WellKept C store)
    {electionId : ElectionId} {height : BlockHeight} {election : ElectionState}
    (h : (store.entry C electionId).CountsAs (election.close height)) {call : StateCall}
    (hcall : Leaves electionId height call) :
    ((store.step C call).entry C electionId).CountsAs (election.close height) := by
  cases call with
  | election call =>
      rw [StateStore.step, entry_electionStep hcodec]
      split
      · next heq =>
          cases call with
          | create e => exact absurd heq hcall
          | increment x => exact h.change fun e he => ⟨he.1, he.2, he.3, he.4⟩
          | close x closedAtHeight =>
              obtain rfl : closedAtHeight = height := hcall heq
              exact h.change fun e he => ⟨he.1, rfl, he.3, rfl⟩
      · exact h
  | chain call =>
      rw [StateStore.step, entry_chainStep]
      exact h
  | record x voterId =>
      obtain ⟨hdb, hcache⟩ := next_record x voterId store
      rw [StateStore.step, entry, hdb, hcache]
      exact h
  | addPending tx => exact h
  | removePending txId => exact h
  | prunePending cutoffTime => exact h
  | reopen order =>
      rw [StateStore.step]
      cases hnew : StateStore.new C order store.db with
      | error e => exact h
      | ok store' =>
          obtain ⟨hstored, hcached⟩ := hkept.entry_new hnew electionId
          obtain ⟨e, he, hcounts⟩ := h.stored
          refine ⟨?_, e, hstored.trans he, hcounts⟩
          intro e' he'
          obtain rfl := Except.ok.inj (Option.some.inj (he.symm.trans (hcached e' he')))
          exact hcounts

end StateStore

/-! ## A run of both -/

theorem Blockchain.blocksBetween_extend {P : Primitives} {c : Blockchain} (hshape : Shape P c)
    {b : Block} (hadm : Admits P c b) (first : BlockHeight) {last : BlockHeight}
    (hlast : last ≤ c.height) :
    BlockchainMethods.blocksBetween (c.extend b) first last =
      BlockchainMethods.blocksBetween c first last := by
  have hheight : b.height = c.height + 1 := by
    rw [Block.height, hadm.follows.height, hshape.height_latestBlock]
  have hlarge : ¬b.height ≤ last := by
    have hsucc := hshape.toNat_succ_height
    have hlength := hshape.height
    rw [UInt64.le_iff_toNat_le] at hlast
    rw [UInt64.le_iff_toNat_le, hheight]
    omega
  rw [BlockchainMethods.blocksBetween, extend, List.filter_append, List.filter_singleton]
  simp only [hlarge, decide_false, Bool.and_false, cond_false, List.append_nil]
  rfl

/-- A call of the node: a block for its chain, or a call of its state store. -/
inductive NodeCall
  | addBlock (block : Block)
  | state (call : StateCall)

namespace ValidationMethods
variable (P : Primitives) (C : StateCodec)

def step [Hex] (methods : ValidationMethods) : NodeCall → ValidationMethods
  | .addBlock block => { methods with chain := Blockchain.addStep P methods.chain block }
  | .state call => { methods with stateStore := methods.stateStore.step C call }

theorem step_addBlock [Hex] (chain : Blockchain) (stateStore : StateStore) (block : Block) :
    step P C ⟨chain, stateStore⟩ (.addBlock block) =
      ⟨chain.addBlocks P [block], stateStore⟩ := rfl

theorem step_state [Hex] (chain : Blockchain) (stateStore : StateStore) (call : StateCall) :
    step P C ⟨chain, stateStore⟩ (.state call) = ⟨chain, stateStore.step C call⟩ := rfl

/-- The call leaves the closed election alone. -/
def Leaves (electionId : ElectionId) (height : BlockHeight) : NodeCall → Prop
  | .addBlock _ => True
  | .state call => StateStore.Leaves electionId height call

/-- What holds once an election is closed: the votes that decide it are fixed. -/
structure Decided [Hex] (electionId : ElectionId) (height : BlockHeight) (election : ElectionState)
    (votes : List VoteTransaction) (methods : ValidationMethods) : Prop where
  shape : Blockchain.Shape P methods.chain
  reached : height ≤ methods.chain.height
  kept : StateStore.WellKept C methods.stateStore
  counts : (methods.stateStore.entry C electionId).CountsAs (election.close height)
  votes : methods.chain.votesFor electionId election.createdAtHeight height = votes

variable {P C}

theorem Decided.step [Hex] (hcodec : C.Exact) {electionId : ElectionId} {height : BlockHeight}
    {election : ElectionState} {votes : List VoteTransaction} {methods : ValidationMethods}
    (h : methods.Decided P C electionId height election votes) {call : NodeCall}
    (hcall : Leaves electionId height call) :
    (methods.step P C call).Decided P C electionId height election votes := by
  cases call with
  | addBlock block =>
      by_cases hadm : Blockchain.Admits P methods.chain block
      · have hextend : methods.step P C (.addBlock block) =
            { methods with chain := methods.chain.extend block } := by
          rw [ValidationMethods.step, Blockchain.addStep,
            Blockchain.next_addBlock_of_admits hadm]
        have hshape := h.shape.extend hadm
        rw [hextend]
        refine ⟨hshape, ?_, h.kept, h.counts, ?_⟩
        · have hheight := h.shape.height
          have hheight' : (methods.chain.extend block).height.toNat + 1 =
              methods.chain.blocks.length + 1 := by
            rw [hshape.height]
            exact List.length_append
          have hreached := UInt64.le_iff_toNat_le.mp h.reached
          show height ≤ (methods.chain.extend block).height
          rw [UInt64.le_iff_toNat_le]
          omega
        · rw [← h.votes, Blockchain.votesFor, Blockchain.votesFor,
            Blockchain.blocksBetween_extend h.shape hadm _ h.reached]
      · have hsame : methods.step P C (.addBlock block) = methods := by
          rw [ValidationMethods.step, Blockchain.addStep,
            Blockchain.next_addBlock_of_not_admits hadm]
        rw [hsame]
        exact h
  | state call =>
      exact ⟨h.shape, h.reached, h.kept.step hcodec call,
        StateStore.countsAs_step hcodec h.kept h.counts hcall, h.votes⟩

theorem Decided.results [Hex] {electionId : ElectionId} {height : BlockHeight}
    {election : ElectionState} {votes : List VoteTransaction} {methods : ValidationMethods}
    (h : methods.Decided P C electionId height election votes) :
    getElectionResults C methods electionId.toHex =
      .ok (responseOf electionId election (votes.map (nameOf fun _ => "candidate_1"))) := by
  obtain ⟨e, hreported, hcounts⟩ := h.counts.reported
  rw [← StateStore.getElection_eq] at hreported
  have hname : ∀ voteTx ∈ methods.decidingVotes e electionId,
      decryptVote voteTx.encryptedVote = .ok (nameOf (fun _ => "candidate_1") voteTx) :=
    fun voteTx _ => rfl
  have hvotes : methods.decidingVotes e electionId = votes := by
    rw [decidingVotes, hcounts.createdAtHeight, hcounts.closedAtHeight]
    exact h.votes
  rw [getElectionResults, resultsWith_eq h.shape (ElectionId.fromHex_toHex _) hreported
    hcounts.isFinalized hname, hvotes, responseOf, hcounts.candidates]
  rfl

theorem run_sound [Hex] (hcodec : C.Exact) {now : Timestamp} {genesis : GenesisBlock}
    {c₀ : Blockchain} (hnew : Blockchain.new P now genesis = .ok c₀) (calls : List NodeCall) :
    Blockchain.Shape P (Runs.run (step P C) ⟨c₀, StateStore.fresh⟩ calls).chain ∧
      StateStore.WellKept C (Runs.run (step P C) ⟨c₀, StateStore.fresh⟩ calls).stateStore := by
  refine Runs.run_preserves (I := fun methods : ValidationMethods =>
    Blockchain.Shape P methods.chain ∧ StateStore.WellKept C methods.stateStore) ?_
    ⟨Blockchain.shape_of_new hnew, StateStore.wellKept_fresh⟩ calls
  rintro methods call ⟨hshape, hkept⟩
  cases call with
  | addBlock block =>
      exact ⟨Blockchain.next_addBlock_preserves hshape fun hadm => hshape.extend hadm, hkept⟩
  | state call => exact ⟨hshape, hkept.step hcodec call⟩

/-- **The results of a closed election are final.**  A node is set up from a genesis block and an
empty database, blocks are added and calls are made, in any order, and then an election that is
there is closed, at a height that the chain has reached.  Whatever comes after that, blocks,
votes that are counted, closings at the same height and new starts of the store included, only
no new election with the same id and no closing at another height: the results stay what they
are, and their total is the number of the votes for the election up to that height. -/
theorem results_final [Hex] (hcodec : C.Exact) {now : Timestamp} {genesis : GenesisBlock}
    {c₀ : Blockchain} (hnew : Blockchain.new P now genesis = .ok c₀) (before : List NodeCall)
    {electionId : ElectionId} {election : ElectionState} {height : BlockHeight}
    (hexists : (Runs.run (step P C) ⟨c₀, StateStore.fresh⟩ before).stateStore.getElection C
      electionId = .ok (some election))
    (hreached : height ≤ (Runs.run (step P C) ⟨c₀, StateStore.fresh⟩ before).chain.height)
    (after : List NodeCall) (hafter : ∀ call ∈ after, Leaves electionId height call) :
    ∃ response,
      getElectionResults C ((Runs.run (step P C) ⟨c₀, StateStore.fresh⟩ before).step P C
        (.state (.election (.close electionId height)))) electionId.toHex = .ok response ∧
      getElectionResults C (Runs.run (step P C) ⟨c₀, StateStore.fresh⟩
        (before ++ .state (.election (.close electionId height)) :: after)) electionId.toHex =
          .ok response ∧
      response.totalVotes = UInt64.ofNat
        ((Runs.run (step P C) ⟨c₀, StateStore.fresh⟩ before).chain.votesFor electionId
          election.createdAtHeight height).length := by
  obtain ⟨hshape, hkept⟩ := run_sound hcodec hnew before
  rw [Runs.run_append, Runs.run_cons]
  generalize Runs.run (step P C) ⟨c₀, StateStore.fresh⟩ before = methods at *
  have hclosed : (methods.step P C (.state (.election (.close electionId height)))).Decided P C
      electionId height election
      (methods.chain.votesFor electionId election.createdAtHeight height) := by
    have hentry : (methods.stateStore.electionStep C (.close electionId height)).entry C
        electionId = (methods.stateStore.entry C electionId).change (.close height) :=
      StateStore.entry_electionStep_self hcodec methods.stateStore (.close electionId height)
    rw [StateStore.getElection_eq] at hexists
    refine ⟨hshape, hreached, hkept.electionStep hcodec (.close electionId height), ?_, rfl⟩
    show ((methods.stateStore.electionStep C (.close electionId height)).entry C
      electionId).CountsAs _
    rw [hentry]
    exact Entry.countsAs_close hexists height
  have hlater := Runs.run_preserves_of_forall
    (I := Decided P C electionId height election
      (methods.chain.votesFor electionId election.createdAtHeight height))
    (Q := Leaves electionId height) (fun _ _ hcall hm => hm.step hcodec hcall) hclosed hafter
  refine ⟨_, hclosed.results, hlater.results, ?_⟩
  rw [responseOf, List.length_map]

end ValidationMethods

namespace Reference

/-- How the node with one vote comes about. -/
def openingCalls : List NodeCall :=
  [.addBlock votedBlock, .state (.election (.create votedElection))]

/-- A second block, with another vote in the election, which is counted too. -/
def lateCalls : List NodeCall :=
  [.addBlock laterBlock, .state (.election (.increment votedElection.id))]

theorem run_openingCalls :
    Runs.run (ValidationMethods.step primitives stateCodec) ⟨chain, StateStore.fresh⟩
      openingCalls = opened := by
  rw [openingCalls, Runs.run_cons, ValidationMethods.step_addBlock, Runs.run_cons,
    ValidationMethods.step_state, Runs.run_nil, opened]

theorem reached_opened : (1 : BlockHeight) ≤ opened.chain.height := by
  rw [chain_opened, addBlocks_votedBlock]
  decide

end Reference

namespace ValidationMethods

/-- The block is accepted, and the results do not change. -/
theorem results_final_vote :
    (Runs.run (step Reference.primitives Reference.stateCodec) ⟨Reference.chain, StateStore.fresh⟩
      (Reference.openingCalls ++
        .state (.election (.close Reference.votedElection.id 1)) :: Reference.lateCalls)).chain =
      (Reference.chain.extend Reference.votedBlock).extend Reference.laterBlock ∧
    ∃ response, getElectionResults Reference.stateCodec
      (Runs.run (step Reference.primitives Reference.stateCodec)
        ⟨Reference.chain, StateStore.fresh⟩
        (Reference.openingCalls ++
          .state (.election (.close Reference.votedElection.id 1)) :: Reference.lateCalls))
      Reference.votedElection.id.toHex = .ok response ∧ response.totalVotes = 1 := by
  have hexists := Reference.getElection_opened
  have hreached := Reference.reached_opened
  rw [← Reference.run_openingCalls] at hexists hreached
  have hlate : ∀ call ∈ Reference.lateCalls, Leaves Reference.votedElection.id 1 call := by
    simp [Reference.lateCalls, Leaves, StateStore.Leaves]
  obtain ⟨response, -, hresponse, htotal⟩ := results_final Reference.exact_stateCodec
    (Reference.new_genesis 0) Reference.openingCalls hexists hreached Reference.lateCalls hlate
  have hchain : (Runs.run (step Reference.primitives Reference.stateCodec)
      ⟨Reference.chain, StateStore.fresh⟩ (Reference.openingCalls ++
        .state (.election (.close Reference.votedElection.id 1)) :: Reference.lateCalls)).chain =
      Reference.chain.addBlocks Reference.primitives
        ([Reference.votedBlock] ++ [Reference.laterBlock]) := by
    rw [Runs.run_append, Reference.run_openingCalls, Reference.opened, Runs.run_cons, step_state,
      Reference.lateCalls, Runs.run_cons, step_addBlock, Runs.run_cons, step_state, Runs.run_nil,
      Blockchain.addBlocks_append]
  refine ⟨by rw [hchain, Reference.addBlocks_laterBlock], response, hresponse, ?_⟩
  rw [htotal, Reference.run_openingCalls, Reference.chain_opened,
    show Reference.votedElection.createdAtHeight = 0 from rfl, Reference.length_votesFor_voted]
  rfl

end ValidationMethods

end VotingChain
