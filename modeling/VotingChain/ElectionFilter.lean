/-
# `VotingChain.ElectionFilter` — the transactions of one election

`search_transactions` with nothing but an election in its query.  The filter and
`Transaction::get_election_id` tell by hand, each for itself, what kinds of transactions belong
to an election, and they do not agree: the accessor knows of votes, creations and closures, and
the filter of votes and creations.

So the search returns all of an election exactly as long as it is not closed on the chain and
a page has room for it (`electionReturned_iff`).
-/
import VotingChain.BlockchainMethods

namespace VotingChain

/-- Get the election ID. -/
def Transaction.getElectionId (tx : Transaction) : Option ElectionId :=
  match tx.txType with
  | .vote vote => some vote.electionId
  | .electionCreation creation => some creation.electionId
  | .electionClosure closure => some closure.electionId
  | _ => none

namespace BlockchainMethods

/-! ## What is asked for, and what there is -/

/-- The query with only the election set. -/
def electionQuery (electionId : String) : TransactionQuery where
  txType := none
  startHeight := none
  endHeight := none
  electionId := some electionId
  minTimestamp := none
  maxTimestamp := none
  limit := none
  offset := none

/-- The transactions of the election in these blocks, each with its block. -/
def ofElection (blocks : List Block) (e : ElectionId) : List (Transaction × Block) :=
  matchesIn blocks (fun block => block.transactions.map fun tx => (tx, block))
    fun item => item.1.getElectionId = some e

/-- The transactions in these blocks that the query asks for. -/
def matchingElection [Hex] (blocks : List Block) (e : ElectionId) : List (Transaction × Block) :=
  matchesIn blocks (fun block => block.transactions.map fun tx => (tx, block))
    fun item => transactionMatchesQuery (electionQuery e.toHex) item.1

/-- The response counts the transactions of the election, and has the first page of them. -/
def ElectionFound [Hex] {ι : Type} (toValue : Transaction → Except String ι)
    (value : Transaction → ι) (c : Blockchain) (e : ElectionId) : Prop :=
  ∃ response, searchTransactions toValue c (electionQuery e.toHex) = .ok response ∧
    response.total = (ofElection c.blocks e).length ∧
    response.transactions = ((ofElection c.blocks e).take (pageLimit none).toNat).map
      fun item => responseWith (value item.1) item.1 item.2

/-- The response counts the transactions of the election, and has all of them. -/
def ElectionReturned [Hex] {ι : Type} (toValue : Transaction → Except String ι)
    (value : Transaction → ι) (c : Blockchain) (e : ElectionId) : Prop :=
  ∃ response, searchTransactions toValue c (electionQuery e.toHex) = .ok response ∧
    response.total = (ofElection c.blocks e).length ∧
    response.transactions = (ofElection c.blocks e).map
      fun item => responseWith (value item.1) item.1 item.2

/-- No transaction of the chain closes the election. -/
def NotClosed (c : Blockchain) (e : ElectionId) : Prop :=
  ∀ block ∈ c.blocks, ∀ tx ∈ block.transactions, ∀ closure,
    tx.txType = .electionClosure closure → closure.electionId ≠ e

/-- There is a block for each height up to that of the chain, and nothing of the election in a
block after them. -/
structure InReach (c : Blockchain) (e : ElectionId) : Prop where
  height_lt : c.height.toNat < c.blocks.length
  beyond : ∀ block ∈ c.blocks.drop (c.height.toNat + 1), ∀ tx ∈ block.transactions,
    tx.getElectionId ≠ some e

/-! ## One transaction -/

theorem toHex_electionId_inj [Hex] {e e' : ElectionId} : e.toHex = e'.toHex ↔ e = e' := by
  constructor
  · exact fun h => selfDelimiting_electionId.injective (Hex.encode_injective h)
  · exact congrArg ElectionId.toHex

theorem getElectionId_of_closure {tx : Transaction} {closure : ElectionClosure}
    (h : tx.txType = .electionClosure closure) : tx.getElectionId = some closure.electionId := by
  rw [Transaction.getElectionId, h]

theorem transactionMatchesQuery_electionQuery [Hex] {e : ElectionId} {tx : Transaction} :
    transactionMatchesQuery (electionQuery e.toHex) tx = true ↔
      tx.getElectionId = some e ∧ ∀ closure, tx.txType ≠ .electionClosure closure := by
  have hquery :
      transactionMatchesQuery (electionQuery e.toHex) tx = matchesElection e.toHex tx := by
    simp [transactionMatchesQuery, electionQuery]
  rw [hquery, matchesElection, Transaction.getElectionId]
  cases tx.txType with
  | vote vote => simp [toHex_electionId_inj]
  | electionCreation creation => simp [toHex_electionId_inj]
  | electionClosure closure => simp
  | validatorRegistration reg => simp
  | validatorRemoval removal => simp

/-! ## The blocks of a chain -/

theorem mem_ofElection {blocks : List Block} {e : ElectionId} {item : Transaction × Block} :
    item ∈ ofElection blocks e ↔
      (item.2 ∈ blocks ∧ item.1 ∈ item.2.transactions) ∧ item.1.getElectionId = some e := by
  obtain ⟨tx, block⟩ := item
  simp [ofElection, matchesIn]

theorem ofElection_append (blocks blocks' : List Block) (e : ElectionId) :
    ofElection (blocks ++ blocks') e = ofElection blocks e ++ ofElection blocks' e := by
  rw [ofElection, matchesIn, List.flatMap_append, List.filter_append]
  rfl

theorem ofElection_eq_nil_iff {blocks : List Block} {e : ElectionId} :
    ofElection blocks e = [] ↔
      ∀ block ∈ blocks, ∀ tx ∈ block.transactions, tx.getElectionId ≠ some e := by
  rw [List.eq_nil_iff_forall_not_mem]
  constructor
  · intro h block hblock tx htx hid
    exact h (tx, block) (mem_ofElection.mpr ⟨⟨hblock, htx⟩, hid⟩)
  · intro h item hitem
    obtain ⟨⟨hblock, htx⟩, hid⟩ := mem_ofElection.mp hitem
    exact h item.2 hblock item.1 htx hid

theorem matchingElection_eq_filter [Hex] (blocks : List Block) (e : ElectionId) :
    matchingElection blocks e = (ofElection blocks e).filter
      fun item => transactionMatchesQuery (electionQuery e.toHex) item.1 := by
  rw [ofElection, matchesIn, List.filter_filter]
  refine List.filter_congr fun item _ => ?_
  rw [Bool.eq_iff_iff, Bool.and_eq_true, decide_eq_true_iff]
  constructor
  · exact fun h => ⟨h, (transactionMatchesQuery_electionQuery.mp h).1⟩
  · exact And.left

theorem matchingElection_eq_iff [Hex] {blocks : List Block} {e : ElectionId} :
    matchingElection blocks e = ofElection blocks e ↔
      ∀ block ∈ blocks, ∀ tx ∈ block.transactions, ∀ closure,
        tx.txType = .electionClosure closure → closure.electionId ≠ e := by
  rw [matchingElection_eq_filter, List.filter_eq_self]
  constructor
  · rintro h block hblock tx htx closure hclosure rfl
    have hmem : (tx, block) ∈ ofElection blocks closure.electionId :=
      mem_ofElection.mpr ⟨⟨hblock, htx⟩, getElectionId_of_closure hclosure⟩
    exact (transactionMatchesQuery_electionQuery.mp (h _ hmem)).2 closure hclosure
  · intro h item hitem
    obtain ⟨⟨hblock, htx⟩, hid⟩ := mem_ofElection.mp hitem
    refine transactionMatchesQuery_electionQuery.mpr ⟨hid, fun closure hclosure => ?_⟩
    rw [getElectionId_of_closure hclosure] at hid
    exact h item.2 hblock item.1 htx closure hclosure (Option.some.inj hid)

theorem matchingElection_sublist [Hex] (blocks : List Block) (e : ElectionId) :
    (matchingElection blocks e).Sublist (ofElection blocks e) := by
  rw [matchingElection_eq_filter]
  exact List.filter_sublist

theorem matchingElection_take_sublist [Hex] (blocks : List Block) (n : Nat) (e : ElectionId) :
    (matchingElection (blocks.take n) e).Sublist (ofElection blocks e) := by
  have hsplit := ofElection_append (blocks.take n) (blocks.drop n) e
  rw [List.take_append_drop] at hsplit
  rw [hsplit]
  exact (matchingElection_sublist _ e).trans (List.sublist_append_left _ _)

theorem matchingElection_take_eq_iff [Hex] {c : Blockchain} {n : Nat} {e : ElectionId} :
    matchingElection (c.blocks.take n) e = ofElection c.blocks e ↔
      NotClosed c e ∧ ∀ block ∈ c.blocks.drop n, ∀ tx ∈ block.transactions,
        tx.getElectionId ≠ some e := by
  have hsplit := ofElection_append (c.blocks.take n) (c.blocks.drop n) e
  rw [List.take_append_drop] at hsplit
  rw [← ofElection_eq_nil_iff, hsplit]
  constructor
  · intro heq
    have hle := (matchingElection_sublist (c.blocks.take n) e).length_le
    have hlen := congrArg List.length heq
    rw [List.length_append] at hlen
    have hnil : ofElection (c.blocks.drop n) e = [] :=
      List.length_eq_zero_iff.mp (by omega)
    rw [hnil, List.append_nil] at heq
    refine ⟨?_, hnil⟩
    intro block hblock tx htx closure hclosure hid
    rw [← List.take_append_drop n c.blocks] at hblock
    rcases List.mem_append.mp hblock with hblock | hblock
    · exact matchingElection_eq_iff.mp heq block hblock tx htx closure hclosure hid
    · refine ofElection_eq_nil_iff.mp hnil block hblock tx htx ?_
      rw [getElectionId_of_closure hclosure, hid]
  · rintro ⟨hopen, hnil⟩
    rw [hnil, List.append_nil]
    exact matchingElection_eq_iff.mpr fun block hblock => hopen block (List.mem_of_mem_take hblock)

/-! ## The search -/

section Search
variable {ι : Type} {toValue : Transaction → Except String ι} {value : Transaction → ι}

theorem getBlockByHeight_of_foldlM {α ρ : Type} {c : Blockchain} {itemsOf : Block → List α}
    {visit : Paging.Found ρ → α → Result (Paging.Found ρ)} {heights : List BlockHeight}
    {acc found : Paging.Found ρ}
    (h : heights.foldlM (visitHeight c itemsOf visit) acc = .ok found) :
    ∀ height ∈ heights, ∃ block, c.getBlockByHeight height = .ok block := by
  induction heights generalizing acc with
  | nil => simp
  | cons first heights ih =>
      rw [List.foldlM_cons] at h
      obtain ⟨acc', hvisit, hrest⟩ := bind_eq_ok.mp h
      obtain ⟨block, hblock, -⟩ := bind_eq_ok.mp hvisit
      exact List.forall_mem_cons.mpr ⟨⟨block, hblock⟩, ih hrest⟩

theorem searchTransactions_electionQuery [Hex] (hvalue : ∀ tx, toValue tx = .ok (value tx))
    {c : Blockchain} (hlt : c.height.toNat < c.blocks.length) (e : ElectionId) :
    let matched := matchingElection (c.blocks.take (c.height.toNat + 1)) e
    searchTransactions toValue c (electionQuery e.toHex) = .ok
      { total := matched.length
        transactions := (matched.take (pageLimit none).toNat).map
          fun item => responseWith (value item.1) item.1 item.2
        hasMore := decide ((pageLimit none).toNat < matched.length) } := by
  have hget : ∀ height ∈ heightsInclusive 0 c.height,
      c.getBlockByHeight height = .ok c.blocks[height.toNat]? := by
    intro height hheight
    have hle := (mem_heightsInclusive.mp hheight).2
    have hplace : height.toNat < c.blocks.length :=
      Nat.lt_of_le_of_lt (UInt64.le_iff_toNat_le.mp hle) hlt
    rw [Blockchain.getBlockByHeight, if_pos hle, indexVec, List.getElem?_eq_getElem hplace]
    rfl
  have hblocks : (heightsInclusive 0 c.height).filterMap (fun height => c.blocks[height.toNat]?) =
      c.blocks.take (c.height.toNat + 1) := by
    rw [filterMap_heightsInclusive (fun i => c.blocks[i]?)]
    simpa using filterMap_getElem? c.blocks (c.height.toNat + 1)
  let query := electionQuery e.toHex
  rw [searchTransactions, search_of_get (transactionToResponse_of_value hvalue) query.startHeight
    query.endHeight query.limit query.offset hget hblocks]
  rfl

theorem height_lt_of_searchTransactions [Hex] {c : Blockchain} {e : ElectionId}
    {response : TransactionSearchResponse ι}
    (h : searchTransactions toValue c (electionQuery e.toHex) = .ok response) :
    c.height.toNat < c.blocks.length := by
  obtain ⟨⟨found, hasMore⟩, hsearch, -⟩ := bind_eq_ok.mp h
  obtain ⟨found', hfold, -⟩ := bind_eq_ok.mp hsearch
  obtain ⟨block, hblock⟩ := getBlockByHeight_of_foldlM hfold c.height
    (mem_heightsInclusive.mpr ⟨UInt64.zero_le, UInt64.le_refl _⟩)
  rw [Blockchain.getBlockByHeight, if_pos (UInt64.le_refl _), indexVec] at hblock
  split at hblock
  · next hplace => exact (List.getElem?_eq_some_iff.mp hplace).1
  · cases hblock

theorem electionFound_iff_inReach [Hex] (hvalue : ∀ tx, toValue tx = .ok (value tx))
    {c : Blockchain} {e : ElectionId} :
    ElectionFound toValue value c e ↔ InReach c e ∧ NotClosed c e := by
  constructor
  · rintro ⟨response, hsearch, htotal, -⟩
    have hlt := height_lt_of_searchTransactions hsearch
    rw [searchTransactions_electionQuery hvalue hlt e] at hsearch
    cases hsearch
    have hall := (matchingElection_take_sublist c.blocks _ e).eq_of_length htotal
    obtain ⟨hopen, hbeyond⟩ := matchingElection_take_eq_iff.mp hall
    exact ⟨⟨hlt, hbeyond⟩, hopen⟩
  · rintro ⟨hreach, hopen⟩
    have hall := matchingElection_take_eq_iff.mpr ⟨hopen, hreach.beyond⟩
    refine ⟨_, searchTransactions_electionQuery hvalue hreach.height_lt e, ?_, ?_⟩
    · rw [hall]
    · rw [hall]

theorem electionReturned_iff_found [Hex] {c : Blockchain} {e : ElectionId}
    (hvalue : ∀ tx, toValue tx = .ok (value tx)) :
    ElectionReturned toValue value c e ↔ ElectionFound toValue value c e ∧
      (ofElection c.blocks e).length ≤ (pageLimit none).toNat := by
  constructor
  · rintro ⟨response, hsearch, htotal, hitems⟩
    have hlt := height_lt_of_searchTransactions hsearch
    have hfull : (ofElection c.blocks e).length ≤ (pageLimit none).toNat := by
      rw [searchTransactions_electionQuery hvalue hlt e] at hsearch
      cases hsearch
      have hlen := congrArg List.length hitems
      rw [List.length_map, List.length_map, List.length_take] at hlen
      omega
    refine ⟨⟨response, hsearch, htotal, ?_⟩, hfull⟩
    rw [hitems, List.take_of_length_le hfull]
  · rintro ⟨⟨response, hsearch, htotal, hitems⟩, hfull⟩
    refine ⟨response, hsearch, htotal, ?_⟩
    rw [hitems, List.take_of_length_le hfull]

end Search

/-! ## Chains -/

theorem inReach_of_shape {P : Primitives} {c : Blockchain} (hshape : Blockchain.Shape P c)
    (e : ElectionId) : InReach c e where
  height_lt := by
    have hheight := hshape.height
    omega
  beyond block hblock := by
    rw [hshape.height, List.drop_length] at hblock
    cases hblock

/-- **The transactions of an election.**  The search for an election counts its transactions and
returns all of them if and only if there is a block for each height, no later block has
anything of the election, the election is not closed and has no more than a page of
transactions.  On the chains that `add_block` builds from a genesis block, that is to say that
it is not closed and has no more than a page.  That its transactions are counted and the first
page of them is returned does not depend on how many there are. -/
theorem electionReturned_iff [Hex] {ι : Type} (toValue : Transaction → Except String ι)
    (value : Transaction → ι) (hvalue : ∀ tx, toValue tx = .ok (value tx)) :
    (∀ c e, ElectionReturned toValue value c e ↔
      InReach c e ∧ NotClosed c e ∧ (ofElection c.blocks e).length ≤ 20) ∧
    (∀ P now genesis start, Blockchain.new P now genesis = .ok start → ∀ bs e,
      ElectionReturned toValue value (start.addBlocks P bs) e ↔
        NotClosed (start.addBlocks P bs) e ∧
          (ofElection (start.addBlocks P bs).blocks e).length ≤ 20) ∧
    ∀ c e, ElectionFound toValue value c e ↔ InReach c e ∧ NotClosed c e := by
  have hreturned : ∀ c e, ElectionReturned toValue value c e ↔
      InReach c e ∧ NotClosed c e ∧ (ofElection c.blocks e).length ≤ 20 := by
    intro c e
    have hpage : (pageLimit none).toNat = 20 := rfl
    rw [electionReturned_iff_found hvalue, electionFound_iff_inReach hvalue, hpage, and_assoc]
  refine ⟨hreturned, ?_, fun c e => electionFound_iff_inReach hvalue⟩
  intro P now genesis start hnew bs e
  rw [hreturned]
  exact and_iff_right (inReach_of_shape (Blockchain.shape_addBlocks hnew bs) e)

/-! ## Two chains to try it on -/

def election : ElectionId := ⟨List.Vector.replicate 16 0⟩

/-- The block after the genesis block, with this transaction. -/
def nextWith (tx : Transaction) : Block :=
  Reference.chain.nextBlock Reference.primitives [tx] Reference.key

theorem admits_vote : Blockchain.Admits Reference.primitives Reference.chain
    (nextWith (Reference.vote 0)) :=
  Reference.admits_votes _ fun _ htx => List.mem_singleton.mp htx

theorem notClosed_vote : NotClosed
    (Reference.chain.addBlocks Reference.primitives [nextWith (Reference.vote 0)]) election := by
  rw [Blockchain.addBlocks_of_admits admits_vote]
  intro block hblock tx htx closure hclosure
  rcases List.mem_cons.mp hblock with rfl | hblock
  · obtain rfl := List.mem_singleton.mp htx
    cases hclosure
  · obtain rfl := List.mem_singleton.mp hblock
    obtain rfl := List.mem_singleton.mp htx
    cases hclosure

/-- Its one vote is returned; the JSON value of a transaction has what the transaction has. -/
theorem electionReturned_iff_vote :
    ElectionReturned (fun tx => .ok tx) id
      (Reference.chain.addBlocks Reference.primitives [nextWith (Reference.vote 0)]) election := by
  have hreturned := (electionReturned_iff (fun tx => .ok tx) id fun _ => rfl).2.1 _ 0 _ _
    (Reference.new_genesis 0) [nextWith (Reference.vote 0)] election
  refine hreturned.mpr ⟨notClosed_vote, ?_⟩
  have hcount : (ofElection (Reference.chain.addBlocks Reference.primitives
      [nextWith (Reference.vote 0)]).blocks election).length = 1 := by
    rw [Blockchain.addBlocks_of_admits admits_vote]
    decide +kernel
  omega

/-- The election is closed, with one byte of results. -/
def closing : Transaction :=
  Transaction.newWithParams Reference.primitives
    (.electionClosure
      { electionId := election
        results := [1]
        authoritySignature := ⟨List.Vector.replicate 64 0⟩ })
    1000 0

theorem admits_closing :
    Blockchain.Admits Reference.primitives Reference.chain (nextWith closing) := by
  refine Blockchain.admits_nextBlock Reference.key ?_ ?_ ?_
  · intro tx htx
    rw [List.mem_singleton.mp htx, closing, Transaction.validate_newWithParams]
    decide
  · intro tx htx
    rw [List.mem_singleton.mp htx]
    exact Reference.fresh_of_ne (by decide +kernel)
  · show 1 < 2 ^ 63 - 1
    omega

/-- The closure is on the chain, and the search for the election finds nothing. -/
theorem closing_not_found :
    Blockchain.new Reference.primitives 0 Reference.genesis = .ok Reference.chain ∧
    (Reference.chain.addBlocks Reference.primitives [nextWith closing]).blocks =
      [Reference.genesisBlock, nextWith closing] ∧
    (nextWith closing).transactions = [closing] ∧ closing.getElectionId = some election ∧
    searchTransactions (fun tx => .ok tx)
      (Reference.chain.addBlocks Reference.primitives [nextWith closing])
      (electionQuery election.toHex) = .ok ⟨0, [], false⟩ ∧
    ¬ElectionReturned (fun tx => .ok tx) id
      (Reference.chain.addBlocks Reference.primitives [nextWith closing]) election := by
  have hshape := Blockchain.shape_addBlocks (Reference.new_genesis 0) [nextWith closing]
  rw [Blockchain.addBlocks_of_admits admits_closing] at hshape ⊢
  have hvalue : ∀ tx, (Except.ok tx : Except String Transaction) = .ok (id tx) := fun _ => rfl
  refine ⟨Reference.new_genesis 0, rfl, rfl, rfl, ?_, ?_⟩
  · exact searchTransactions_electionQuery hvalue
      (inReach_of_shape hshape election).height_lt election
  · rw [electionReturned_iff_found hvalue, electionFound_iff_inReach hvalue]
    rintro ⟨⟨-, hopen⟩, -⟩
    have hblock : nextWith closing ∈ (Reference.chain.extend (nextWith closing)).blocks :=
      List.mem_append_right _ List.mem_cons_self
    exact hopen _ hblock closing List.mem_cons_self _ rfl rfl

end BlockchainMethods

end VotingChain
