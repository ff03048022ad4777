/-
# `VotingChain.BlockchainMethods` — searching the chain, page by page

The model of `search_blocks` and `search_transactions` of `rpc/src/methods/blockchain.rs`.  Both
walk through the heights from the first to the last, count what matches the query and collect
one page of it; they differ in what is looked for in a block.

A counter counts blocks or transactions in memory, of which there are never 2^64.  The sum of
the offset and the limit is another matter: it is compared with the count to tell whether
there is more, and the offset is the caller's (`search_paged_iff`).
-/
import VotingChain.Lib.Paging
import VotingChain.ChainInv

namespace VotingChain

/-- Get transaction type name. -/
def Transaction.transactionTypeName (tx : Transaction) : String :=
  match tx.txType with
  | .vote _ => "Vote"
  | .validatorRegistration _ => "ValidatorRegistration"
  | .validatorRemoval _ => "ValidatorRemoval"
  | .electionCreation _ => "ElectionCreation"
  | .electionClosure _ => "ElectionClosure"

namespace BlockchainMethods

/-- Maximum number of items to return in a single query. -/
def maxQueryLimit : UInt64 := 100

/-- Default query limit if none specified. -/
def defaultQueryLimit : UInt64 := 20

/-! ## Queries and responses -/

/-- Block query parameters. -/
structure BlockQuery where
  startHeight : Option UInt64
  endHeight : Option UInt64
  validator : Option String
  minTimestamp : Option Timestamp
  maxTimestamp : Option Timestamp
  /-- Maximum number of results. -/
  limit : Option UInt64
  /-- Offset for pagination. -/
  offset : Option UInt64

/-- Transaction query parameters. -/
structure TransactionQuery where
  txType : Option String
  startHeight : Option UInt64
  endHeight : Option UInt64
  electionId : Option String
  minTimestamp : Option Timestamp
  maxTimestamp : Option Timestamp
  limit : Option UInt64
  offset : Option UInt64

/-- Transaction summary (lightweight). -/
structure TransactionSummary where
  id : String
  txType : String
  blockHeight : UInt64
  timestamp : Timestamp
  deriving DecidableEq

structure BlockResponse where
  height : UInt64
  hash : String
  previousHash : String
  timestamp : Timestamp
  validator : String
  transactionsRoot : String
  transactionCount : UInt32
  transactions : List TransactionSummary
  signature : String
  deriving DecidableEq

/-- Full transaction response.  The type of JSON values is `ι`. -/
structure TransactionResponse (ι : Type) where
  id : String
  txType : String
  blockHeight : UInt64
  blockHash : String
  timestamp : Timestamp
  data : ι
  signature : String
  deriving DecidableEq

structure BlockSearchResponse where
  /-- Total number of matching blocks. -/
  total : Nat
  blocks : List BlockResponse
  hasMore : Bool
  deriving DecidableEq

structure TransactionSearchResponse (ι : Type) where
  /-- Total number of matching transactions. -/
  total : Nat
  transactions : List (TransactionResponse ι)
  hasMore : Bool
  deriving DecidableEq

def blockToResponse [Hex] (block : Block) : BlockResponse where
  height := block.height
  hash := block.hash.toHex
  previousHash := block.previousHash.toHex
  timestamp := block.header.timestamp
  validator := block.header.validator.toHex
  transactionsRoot := block.header.transactionsRoot.toHex
  transactionCount := block.header.transactionCount
  transactions := block.transactions.map fun tx =>
    { id := tx.id.toHex
      txType := tx.transactionTypeName
      blockHeight := block.height
      timestamp := tx.timestamp }
  signature := (block.signatures.head?.map fun s => s.signature.toHex).getD ""

/-- The response with this value as its data. -/
def responseWith [Hex] {ι : Type} (data : ι) (tx : Transaction) (block : Block) :
    TransactionResponse ι where
  id := tx.id.toHex
  txType := tx.transactionTypeName
  blockHeight := block.height
  blockHash := block.hash.toHex
  timestamp := tx.timestamp
  data := data
  signature := ""

/-- `serde_json::to_value` is `toValue`. -/
def transactionToResponse [Hex] {ι : Type} (toValue : Transaction → Except String ι)
    (tx : Transaction) (block : Block) : Result (TransactionResponse ι) :=
  match toValue tx with
  | .ok data => .ok (responseWith data tx block)
  | .error e => fail (.serializationError ("Failed to serialize transaction: " ++ e))

theorem transactionToResponse_of_value [Hex] {ι : Type} {toValue : Transaction → Except String ι}
    {value : Transaction → ι} (hvalue : ∀ tx, toValue tx = .ok (value tx))
    (item : Transaction × Block) : transactionToResponse toValue item.1 item.2 =
      .ok (responseWith (value item.1) item.1 item.2) := by
  rw [transactionToResponse, hvalue]

/-! ## What matches -/

def blockMatchesQuery [Hex] (query : BlockQuery) (block : Block) : Bool :=
  (query.validator.all fun validatorStr => block.header.validator.toHex = validatorStr) &&
  (query.minTimestamp.all fun minTs => !decide (block.header.timestamp < minTs)) &&
  query.maxTimestamp.all fun maxTs => !decide (maxTs < block.header.timestamp)

/-- Of the transactions of elections, those of their closure match no election. -/
def matchesElection [Hex] (electionId : String) (tx : Transaction) : Bool :=
  match tx.txType with
  | .vote vote => vote.electionId.toHex = electionId
  | .electionCreation creation => creation.electionId.toHex = electionId
  | _ => false

def transactionMatchesQuery [Hex] (query : TransactionQuery) (tx : Transaction) : Bool :=
  (query.txType.all fun txType => tx.transactionTypeName = txType) &&
  (query.electionId.all fun electionId => matchesElection electionId tx) &&
  (query.minTimestamp.all fun minTs => !decide (tx.timestamp < minTs)) &&
  query.maxTimestamp.all fun maxTs => !decide (maxTs < tx.timestamp)

/-! ## The search -/

/-- `first..=last`. -/
def heightsInclusive (first last : BlockHeight) : List BlockHeight :=
  (List.range (last.toNat + 1 - first.toNat)).map fun i => first + UInt64.ofNat i

/-- The limit that is asked for, or the default, but not more than the maximum. -/
def pageLimit (limit : Option UInt64) : UInt64 :=
  if limit.getD defaultQueryLimit ≤ maxQueryLimit then limit.getD defaultQueryLimit
  else maxQueryLimit

section Search
variable {α ρ : Type}

/-- What is done at one height. -/
def visitHeight (c : Blockchain) (itemsOf : Block → List α)
    (visit : Paging.Found ρ → α → Result (Paging.Found ρ)) (acc : Paging.Found ρ)
    (height : BlockHeight) : Result (Paging.Found ρ) := do
  match ← c.getBlockByHeight height with
  | some block => (itemsOf block).foldlM visit acc
  | none => return acc

/-- The body of both searches: what was found, and whether there is more. -/
def search (c : Blockchain) (startHeight endHeight limit offset : Option UInt64)
    (itemsOf : Block → List α) (isMatch : α → Bool) (toResponse : α → Result ρ) :
    Result (Paging.Found ρ × Bool) := do
  let visit := Paging.visit (offset.getD 0).toNat (pageLimit limit).toNat isMatch toResponse
  let found ← (heightsInclusive (startHeight.getD 0) (endHeight.getD c.height)).foldlM
    (visitHeight c itemsOf visit) ⟨0, []⟩
  return (found, decide ((offset.getD 0 + pageLimit limit).toNat < found.total))

end Search

/-- Search blocks by criteria. -/
def searchBlocks [Hex] (c : Blockchain) (query : BlockQuery) : Result BlockSearchResponse := do
  let (found, hasMore) ← search c query.startHeight query.endHeight query.limit query.offset
    (fun block => [block]) (blockMatchesQuery query) (fun block => .ok (blockToResponse block))
  return ⟨found.total, found.items, hasMore⟩

/-- Search transactions by criteria. -/
def searchTransactions [Hex] {ι : Type} (toValue : Transaction → Except String ι) (c : Blockchain)
    (query : TransactionQuery) : Result (TransactionSearchResponse ι) := do
  let (found, hasMore) ← search c query.startHeight query.endHeight query.limit query.offset
    (fun block => block.transactions.map fun tx => (tx, block))
    (fun item => transactionMatchesQuery query item.1)
    (fun item => transactionToResponse toValue item.1 item.2)
  return ⟨found.total, found.items, hasMore⟩

/-! ## The blocks that are visited -/

/-- The blocks of the chain between two heights, in order. -/
def blocksBetween (c : Blockchain) (first last : BlockHeight) : List Block :=
  c.blocks.filter fun block => first ≤ block.height && block.height ≤ last

theorem filterMap_getElem? {α : Type} (xs : List α) (n : Nat) :
    (List.range n).filterMap (fun i => xs[i]?) = xs.take n := by
  induction n with
  | zero => rfl
  | succ n ih =>
      rw [List.range_succ, List.filterMap_append, ih, List.take_add_one]
      cases hn : xs[n]? with
      | none => rw [List.filterMap_cons_none hn]; rfl
      | some x => rw [List.filterMap_cons_some hn]; rfl

theorem filterMap_heightsInclusive {α : Type} (f : Nat → Option α) (first last : BlockHeight) :
    (heightsInclusive first last).filterMap (fun height => f height.toNat) =
      (List.range (last.toNat + 1 - first.toNat)).filterMap fun i => f (first.toNat + i) := by
  rw [heightsInclusive, List.filterMap_map]
  refine List.filterMap_congr fun i hi => ?_
  have hlast := last.toNat_lt
  have hi := List.mem_range.mp hi
  have hsum : (first + UInt64.ofNat i).toNat = first.toNat + i := by
    rw [UInt64.toNat_add, UInt64.toNat_ofNat']
    omega
  exact congrArg f hsum

theorem mem_heightsInclusive {first last height : BlockHeight} :
    height ∈ heightsInclusive first last ↔ first ≤ height ∧ height ≤ last := by
  have hlast := last.toNat_lt
  rw [heightsInclusive, List.mem_map, UInt64.le_iff_toNat_le, UInt64.le_iff_toNat_le]
  constructor
  · rintro ⟨i, hi, rfl⟩
    have hi := List.mem_range.mp hi
    rw [UInt64.toNat_add, UInt64.toNat_ofNat']
    omega
  · rintro ⟨hfirst, hlast⟩
    refine ⟨height.toNat - first.toNat, List.mem_range.mpr (by omega), ?_⟩
    apply UInt64.toNat_inj.mp
    rw [UInt64.toNat_add, UInt64.toNat_ofNat']
    omega

variable {P : Primitives}

theorem between_iff {c : Blockchain} (hshape : Blockchain.Shape P c) {i : Nat} {block : Block}
    (hi : c.blocks[i]? = some block) (first last : BlockHeight) :
    (first ≤ block.height && block.height ≤ last) = true ↔
      first.toNat ≤ i ∧ i ≤ last.toNat := by
  have hheight : block.height.toNat = i := hshape.heights i block hi
  rw [Bool.and_eq_true, decide_eq_true_eq, decide_eq_true_eq, UInt64.le_iff_toNat_le,
    UInt64.le_iff_toNat_le, hheight]

theorem filterMap_blocks {c : Blockchain} (hshape : Blockchain.Shape P c)
    (first last : BlockHeight) :
    (heightsInclusive first last).filterMap (fun height => c.blocks[height.toNat]?) =
      blocksBetween c first last := by
  have hrange : (heightsInclusive first last).filterMap (fun height => c.blocks[height.toNat]?) =
      (c.blocks.drop first.toNat).take (last.toNat + 1 - first.toNat) := by
    rw [filterMap_heightsInclusive (fun i => c.blocks[i]?), ← filterMap_getElem?]
    simp only [List.getElem?_drop]
  have hbefore : (c.blocks.take first.toNat).filter
      (fun block => first ≤ block.height && block.height ≤ last) = [] := by
    refine List.filter_eq_nil_iff.mpr fun block hmem => ?_
    obtain ⟨i, hi⟩ := List.mem_iff_getElem?.mp hmem
    rw [List.getElem?_take] at hi
    split at hi
    · rw [between_iff hshape hi]
      omega
    · cases hi
  have hbetween : ((c.blocks.drop first.toNat).take (last.toNat + 1 - first.toNat)).filter
      (fun block => first ≤ block.height && block.height ≤ last) =
      (c.blocks.drop first.toNat).take (last.toNat + 1 - first.toNat) := by
    refine List.filter_eq_self.mpr fun block hmem => ?_
    obtain ⟨i, hi⟩ := List.mem_iff_getElem?.mp hmem
    rw [List.getElem?_take] at hi
    split at hi
    · rw [List.getElem?_drop] at hi
      rw [between_iff hshape hi]
      omega
    · cases hi
  have hafter : ((c.blocks.drop first.toNat).drop (last.toNat + 1 - first.toNat)).filter
      (fun block => first ≤ block.height && block.height ≤ last) = [] := by
    refine List.filter_eq_nil_iff.mpr fun block hmem => ?_
    obtain ⟨i, hi⟩ := List.mem_iff_getElem?.mp hmem
    rw [List.getElem?_drop, List.getElem?_drop] at hi
    rw [between_iff hshape hi]
    omega
  have hsplit : c.blocks = c.blocks.take first.toNat ++
      ((c.blocks.drop first.toNat).take (last.toNat + 1 - first.toNat) ++
        (c.blocks.drop first.toNat).drop (last.toNat + 1 - first.toNat)) := by
    rw [List.take_append_drop, List.take_append_drop]
  have hfilter := congrArg
    (List.filter fun block => first ≤ block.height && block.height ≤ last) hsplit
  rw [List.filter_append, List.filter_append, hbefore, hbetween, hafter, List.nil_append,
    List.append_nil] at hfilter
  rw [hrange, blocksBetween, hfilter]

/-! ## What is found -/

/-- What matches of what is in these blocks, in the order of the heights. -/
def matchesIn {α : Type} (blocks : List Block) (itemsOf : Block → List α) (isMatch : α → Bool) :
    List α := (blocks.flatMap itemsOf).filter isMatch

section Search
variable {α ρ : Type}

theorem foldlM_visitHeight {c : Blockchain}
    {itemsOf : Block → List α} {isMatch : α → Bool} {toResponse : α → Result ρ} {shown : α → ρ}
    (hshow : ∀ x, toResponse x = .ok (shown x)) (offset limit : Nat) (heights : List BlockHeight)
    (hget : ∀ height ∈ heights, c.getBlockByHeight height = .ok c.blocks[height.toNat]?)
    (matched : List α) :
    heights.foldlM (visitHeight c itemsOf (Paging.visit offset limit isMatch toResponse))
        (Paging.found offset limit shown matched) =
      .ok (Paging.found offset limit shown (matched ++
        matchesIn (heights.filterMap fun height => c.blocks[height.toNat]?) itemsOf isMatch)) := by
  induction heights generalizing matched with
  | nil =>
      rw [List.filterMap_nil, matchesIn, List.flatMap_nil, List.filter_nil, List.append_nil,
        List.foldlM_nil]
      rfl
  | cons height heights ih =>
      obtain ⟨hfirst, hrest⟩ := List.forall_mem_cons.mp hget
      rw [List.foldlM_cons, visitHeight, hfirst]
      cases hblock : c.blocks[height.toNat]? with
      | none =>
          rw [List.filterMap_cons_none (f := fun h : BlockHeight => c.blocks[h.toNat]?) hblock]
          exact ih hrest matched
      | some block =>
          rw [List.filterMap_cons_some (f := fun h : BlockHeight => c.blocks[h.toNat]?) hblock]
          show ((itemsOf block).foldlM _ _ >>= _) = _
          rw [Paging.foldlM_visit hshow]
          show heights.foldlM _ _ = _
          rw [ih hrest, matchesIn, matchesIn, List.flatMap_cons, List.filter_append,
            List.append_assoc]

/-- A search that never leaves the vector finds what matches of what it visits, and says that
there is more if there is more than a sum that may have wrapped around. -/
theorem search_of_get {c : Blockchain} {itemsOf : Block → List α} {isMatch : α → Bool}
    {toResponse : α → Result ρ} {shown : α → ρ} (hshow : ∀ x, toResponse x = .ok (shown x))
    (startHeight endHeight limit offset : Option UInt64)
    (hget : ∀ height ∈ heightsInclusive (startHeight.getD 0) (endHeight.getD c.height),
      c.getBlockByHeight height = .ok c.blocks[height.toNat]?) {blocks : List Block}
    (hblocks : (heightsInclusive (startHeight.getD 0) (endHeight.getD c.height)).filterMap
      (fun height => c.blocks[height.toNat]?) = blocks) :
    search c startHeight endHeight limit offset itemsOf isMatch toResponse =
      .ok (Paging.found (offset.getD 0).toNat (pageLimit limit).toNat shown
          (matchesIn blocks itemsOf isMatch),
        decide ((offset.getD 0 + pageLimit limit).toNat <
          (matchesIn blocks itemsOf isMatch).length)) := by
  rw [search, ← hblocks, ← Paging.found_nil, foldlM_visitHeight hshow _ _ _ hget,
    List.nil_append]
  rfl

theorem search_eq {c : Blockchain} (hshape : Blockchain.Shape P c) {itemsOf : Block → List α}
    {isMatch : α → Bool} {toResponse : α → Result ρ} {shown : α → ρ}
    (hshow : ∀ x, toResponse x = .ok (shown x))
    (startHeight endHeight limit offset : Option UInt64) :
    search c startHeight endHeight limit offset itemsOf isMatch toResponse =
      .ok (Paging.found (offset.getD 0).toNat (pageLimit limit).toNat shown
          (matchesIn (blocksBetween c (startHeight.getD 0) (endHeight.getD c.height)) itemsOf
            isMatch),
        decide ((offset.getD 0 + pageLimit limit).toNat <
          (matchesIn (blocksBetween c (startHeight.getD 0) (endHeight.getD c.height)) itemsOf
            isMatch).length)) :=
  search_of_get hshow startHeight endHeight limit offset
    (fun height _ => hshape.getBlockByHeight_eq height) (filterMap_blocks hshape _ _)

end Search

/-! ## Pages of blocks and of transactions -/

/-- The blocks that match a query, by their heights. -/
def matchingBlocks [Hex] (c : Blockchain) (query : BlockQuery) : List Block :=
  (blocksBetween c (query.startHeight.getD 0) (query.endHeight.getD c.height)).filter
    (blockMatchesQuery query)

/-- The transactions that match a query, by the heights of their blocks, and by their places
there. -/
def matchingTransactions [Hex] (c : Blockchain) (query : TransactionQuery) :
    List (Transaction × Block) :=
  (blocksBetween c (query.startHeight.getD 0) (query.endHeight.getD c.height)).flatMap fun block =>
    (block.transactions.filter (transactionMatchesQuery query)).map fun tx => (tx, block)

/-- A response has one page of the whole, counts the whole, and says whether anything comes
after the page. -/
structure Paged {ρ : Type} (whole : List ρ) (offset limit total : Nat) (items : List ρ)
    (hasMore : Bool) : Prop where
  items_eq : items = (whole.drop offset).take limit
  total_eq : total = whole.length
  hasMore_iff : hasMore = true ↔ offset + limit < whole.length

def BlocksPaged [Hex] (c : Blockchain) (query : BlockQuery) : Prop :=
  ∃ response, searchBlocks c query = .ok response ∧
    Paged ((matchingBlocks c query).map blockToResponse) (query.offset.getD 0).toNat
      (pageLimit query.limit).toNat response.total response.blocks response.hasMore

def TransactionsPaged [Hex] {ι : Type} (toValue : Transaction → Except String ι)
    (value : Transaction → ι) (c : Blockchain) (query : TransactionQuery) : Prop :=
  ∃ response, searchTransactions toValue c query = .ok response ∧
    Paged ((matchingTransactions c query).map fun item => responseWith (value item.1) item.1 item.2)
      (query.offset.getD 0).toNat (pageLimit query.limit).toNat
      response.total response.transactions response.hasMore

/-- The sum of the offset and the limit fits into a word; or else what is left of it is no
less than the count, or the sum itself is less. -/
def SumTells (offset limit : UInt64) (count : Nat) : Prop :=
  offset.toNat + limit.toNat < 2 ^ 64 ∨ count + 2 ^ 64 ≤ offset.toNat + limit.toNat ∨
    offset.toNat + limit.toNat < count

theorem sumTells_iff (offset limit : UInt64) (count : Nat) :
    (decide ((offset + limit).toNat < count) = true ↔ offset.toNat + limit.toNat < count) ↔
      SumTells offset limit count := by
  have hoffset := offset.toNat_lt
  have hlimit := limit.toNat_lt
  rw [decide_eq_true_eq, UInt64.toNat_add, SumTells]
  omega

theorem paged_iff {α ρ : Type} (matched : List α) (shown : α → ρ) (offset limit : UInt64) :
    Paged (matched.map shown) offset.toNat limit.toNat matched.length
        ((Paging.page offset.toNat limit.toNat matched).map shown)
        (decide ((offset + limit).toNat < matched.length)) ↔
      SumTells offset limit matched.length := by
  rw [← sumTells_iff]
  constructor
  · intro hpaged
    have hmore := hpaged.hasMore_iff
    rwa [List.length_map] at hmore
  · intro hmore
    constructor
    · rw [Paging.page, List.map_take, List.map_drop]
    · rw [List.length_map]
    · rwa [List.length_map]

theorem searchBlocks_eq [Hex] {c : Blockchain} (hshape : Blockchain.Shape P c)
    (query : BlockQuery) :
    searchBlocks c query = .ok
      { total := (matchingBlocks c query).length
        blocks := (Paging.page (query.offset.getD 0).toNat (pageLimit query.limit).toNat
          (matchingBlocks c query)).map blockToResponse
        hasMore := decide ((query.offset.getD 0 + pageLimit query.limit).toNat <
          (matchingBlocks c query).length) } := by
  have hmatch : matchesIn (blocksBetween c (query.startHeight.getD 0)
      (query.endHeight.getD c.height)) (fun block => [block]) (blockMatchesQuery query) =
      matchingBlocks c query := by
    rw [matchesIn, List.flatMap_singleton', matchingBlocks]
  rw [searchBlocks, search_eq hshape fun _ => rfl, hmatch]
  rfl

theorem searchTransactions_eq [Hex] {ι : Type} {toValue : Transaction → Except String ι}
    {value : Transaction → ι} (hvalue : ∀ tx, toValue tx = .ok (value tx)) {c : Blockchain}
    (hshape : Blockchain.Shape P c) (query : TransactionQuery) :
    searchTransactions toValue c query = .ok
      { total := (matchingTransactions c query).length
        transactions := (Paging.page (query.offset.getD 0).toNat (pageLimit query.limit).toNat
          (matchingTransactions c query)).map fun item => responseWith (value item.1) item.1 item.2
        hasMore := decide ((query.offset.getD 0 + pageLimit query.limit).toNat <
          (matchingTransactions c query).length) } := by
  have hmatch : matchesIn (blocksBetween c (query.startHeight.getD 0)
      (query.endHeight.getD c.height)) (fun block => block.transactions.map fun tx => (tx, block))
      (fun item => transactionMatchesQuery query item.1) = matchingTransactions c query := by
    rw [matchesIn, List.filter_flatMap, matchingTransactions]
    simp only [List.filter_map]
    rfl
  rw [searchTransactions, search_eq hshape (transactionToResponse_of_value hvalue), hmatch]
  rfl

theorem blocksPaged_iff [Hex] {c : Blockchain} (hshape : Blockchain.Shape P c)
    (query : BlockQuery) :
    BlocksPaged c query ↔ SumTells (query.offset.getD 0) (pageLimit query.limit)
      (matchingBlocks c query).length := by
  constructor
  · rintro ⟨response, hsearch, hpaged⟩
    rw [searchBlocks_eq hshape] at hsearch
    cases hsearch
    exact (paged_iff _ _ _ _).mp hpaged
  · intro htells
    exact ⟨_, searchBlocks_eq hshape query, (paged_iff _ _ _ _).mpr htells⟩

theorem transactionsPaged_iff [Hex] {ι : Type} {toValue : Transaction → Except String ι}
    {value : Transaction → ι} (hvalue : ∀ tx, toValue tx = .ok (value tx)) {c : Blockchain}
    (hshape : Blockchain.Shape P c) (query : TransactionQuery) :
    TransactionsPaged toValue value c query ↔
      SumTells (query.offset.getD 0) (pageLimit query.limit)
        (matchingTransactions c query).length := by
  constructor
  · rintro ⟨response, hsearch, hpaged⟩
    rw [searchTransactions_eq hvalue hshape] at hsearch
    cases hsearch
    exact (paged_iff _ _ _ _).mp hpaged
  · intro htells
    exact ⟨_, searchTransactions_eq hvalue hshape query, (paged_iff _ _ _ _).mpr htells⟩

/-! ## One page after the other -/

/-- The query for a page. -/
def BlockQuery.atPage (query : BlockQuery) (i : Nat) : BlockQuery :=
  { query with offset := some (UInt64.ofNat (i * (pageLimit query.limit).toNat)) }

def TransactionQuery.atPage (query : TransactionQuery) (i : Nat) : TransactionQuery :=
  { query with offset := some (UInt64.ofNat (i * (pageLimit query.limit).toNat)) }

theorem mapM_eq_ok {α β : Type} {f : α → Result β} {g : α → β} {xs : List α}
    (h : ∀ x ∈ xs, f x = .ok (g x)) : xs.mapM f = .ok (xs.map g) := by
  induction xs with
  | nil => rfl
  | cons x xs ih =>
      obtain ⟨hx, hxs⟩ := List.forall_mem_cons.mp h
      rw [List.mapM_cons, hx, ih hxs]
      rfl

theorem toNat_offset {pages i limit : Nat} (hfits : pages * limit ≤ 2 ^ 64) (hi : i < pages) :
    (UInt64.ofNat (i * limit)).toNat = i * limit := by
  rw [UInt64.toNat_ofNat']
  refine Nat.mod_eq_of_lt ?_
  cases limit with
  | zero => exact Nat.pow_pos (by decide)
  | succ limit =>
      have hlt : i * (limit + 1) < pages * (limit + 1) := Nat.mul_lt_mul_of_pos_right hi (by omega)
      omega

theorem flatMap_pages {α ρ : Type} {matched : List α} (shown : α → ρ) {pages limit : Nat}
    (hfits : pages * limit ≤ 2 ^ 64) (hall : matched.length ≤ pages * limit) :
    (List.range pages).flatMap (fun i =>
      (Paging.page (UInt64.ofNat (i * limit)).toNat limit matched).map shown) =
      matched.map shown := by
  have hpages := Paging.flatMap_page limit pages matched
  rw [List.take_of_length_le hall] at hpages
  conv_rhs => rw [← hpages, List.map_flatMap]
  refine List.flatMap_congr fun i hi => ?_
  rw [toNat_offset hfits (List.mem_range.mp hi)]

theorem pagesOfBlocks [Hex] {c : Blockchain} (hshape : Blockchain.Shape P c) (query : BlockQuery)
    {pages : Nat} (hfits : pages * (pageLimit query.limit).toNat ≤ 2 ^ 64)
    (hall : (matchingBlocks c query).length ≤ pages * (pageLimit query.limit).toNat) :
    ∃ responses,
      (List.range pages).mapM (fun i => searchBlocks c (query.atPage i)) = .ok responses ∧
      responses.flatMap (·.blocks) = (matchingBlocks c query).map blockToResponse := by
  refine ⟨_, mapM_eq_ok fun i _ => searchBlocks_eq hshape (query.atPage i), ?_⟩
  rw [List.flatMap_map]
  exact flatMap_pages blockToResponse hfits hall

theorem pagesOfTransactions [Hex] {ι : Type} {toValue : Transaction → Except String ι}
    {value : Transaction → ι} (hvalue : ∀ tx, toValue tx = .ok (value tx)) {c : Blockchain}
    (hshape : Blockchain.Shape P c) (query : TransactionQuery) {pages : Nat}
    (hfits : pages * (pageLimit query.limit).toNat ≤ 2 ^ 64)
    (hall : (matchingTransactions c query).length ≤ pages * (pageLimit query.limit).toNat) :
    ∃ responses,
      (List.range pages).mapM (fun i => searchTransactions toValue c (query.atPage i)) =
        .ok responses ∧
      responses.flatMap (·.transactions) = (matchingTransactions c query).map
        fun item => responseWith (value item.1) item.1 item.2 := by
  refine ⟨_, mapM_eq_ok fun i _ => searchTransactions_eq hvalue hshape (query.atPage i), ?_⟩
  rw [List.flatMap_map]
  exact flatMap_pages _ hfits hall

/-- **Searching in pages.**  On a chain that `add_block` built from a genesis block, both
searches give the page of what matches, and its count.  They are right about whether there is
more if and only if the sum of the offset and the limit tells it.  The pages at the multiples
of the limit are, one after the other, all that matches. -/
theorem search_paged_iff [Hex] {ι : Type} {now : Timestamp} {genesis : GenesisBlock}
    {start : Blockchain} (hnew : Blockchain.new P now genesis = .ok start) (bs : List Block)
    (toValue : Transaction → Except String ι) (value : Transaction → ι)
    (hvalue : ∀ tx, toValue tx = .ok (value tx)) :
    (∀ query, BlocksPaged (start.addBlocks P bs) query ↔
      SumTells (query.offset.getD 0) (pageLimit query.limit)
        (matchingBlocks (start.addBlocks P bs) query).length) ∧
    (∀ query, TransactionsPaged toValue value (start.addBlocks P bs) query ↔
      SumTells (query.offset.getD 0) (pageLimit query.limit)
        (matchingTransactions (start.addBlocks P bs) query).length) ∧
    (∀ query : BlockQuery, ∀ pages, pages * (pageLimit query.limit).toNat ≤ 2 ^ 64 →
      (matchingBlocks (start.addBlocks P bs) query).length ≤
        pages * (pageLimit query.limit).toNat →
      ∃ responses,
        (List.range pages).mapM (fun i => searchBlocks (start.addBlocks P bs) (query.atPage i)) =
          .ok responses ∧
        responses.flatMap (·.blocks) =
          (matchingBlocks (start.addBlocks P bs) query).map blockToResponse) ∧
    (∀ query : TransactionQuery, ∀ pages, pages * (pageLimit query.limit).toNat ≤ 2 ^ 64 →
      (matchingTransactions (start.addBlocks P bs) query).length ≤
        pages * (pageLimit query.limit).toNat →
      ∃ responses,
        (List.range pages).mapM
          (fun i => searchTransactions toValue (start.addBlocks P bs) (query.atPage i)) =
          .ok responses ∧
        responses.flatMap (·.transactions) =
          (matchingTransactions (start.addBlocks P bs) query).map
            fun item => responseWith (value item.1) item.1 item.2) := by
  have hshape := Blockchain.shape_addBlocks hnew bs
  refine ⟨?_, ?_, ?_, ?_⟩
  · exact blocksPaged_iff hshape
  · exact transactionsPaged_iff hvalue hshape
  · exact fun query pages => pagesOfBlocks hshape query
  · exact fun query pages => pagesOfTransactions hvalue hshape query

/-! ## An offset at the end of the numbers -/

/-- All blocks, one by one, from the last of all offsets on. -/
def lastOffset : BlockQuery where
  startHeight := none
  endHeight := none
  validator := none
  minTimestamp := none
  maxTimestamp := none
  limit := some 1
  offset := some 18446744073709551615

theorem matchingBlocks_lastOffset :
    matchingBlocks Reference.chain lastOffset = [Reference.genesisBlock] := by
  have hfirst : blocksBetween Reference.chain 0 0 = [Reference.genesisBlock] :=
    List.filter_eq_self.mpr fun block hmem => by
      rw [List.mem_singleton.mp hmem]
      rfl
  exact (congrArg (List.filter (blockMatchesQuery lastOffset)) hfirst).trans rfl

/-- The sum wraps around to 0, and the count is more than that. -/
theorem searchBlocks_lastOffset :
    searchBlocks Reference.chain lastOffset = .ok ⟨1, [], true⟩ := by
  rw [searchBlocks_eq (Blockchain.shape_of_new (Reference.new_genesis 0)),
    matchingBlocks_lastOffset]
  rfl

/-- The block after the genesis block, with two votes. -/
def votesBlock : Block :=
  Reference.chain.nextBlock Reference.primitives [Reference.vote 0, Reference.vote 0] Reference.key

theorem addBlocks_votesBlock : Reference.chain.addBlocks Reference.primitives [votesBlock] =
    Reference.chain.extend votesBlock :=
  Blockchain.addBlocks_of_admits (Reference.admits_votes _ (by simp))

/-- All transactions, two by two. -/
def inTwos : TransactionQuery where
  txType := none
  startHeight := none
  endHeight := none
  electionId := none
  minTimestamp := none
  maxTimestamp := none
  limit := some 2
  offset := none

/-- Two blocks, one to a page, and their three transactions, two to a page; the JSON value of a
transaction has what the transaction has. -/
theorem search_paged_iff_votes :
    BlocksPaged (Reference.chain.addBlocks Reference.primitives [votesBlock])
      { lastOffset with offset := none } ∧
    (matchingTransactions (Reference.chain.addBlocks Reference.primitives [votesBlock])
      inTwos).length = 3 ∧
    ∃ responses, (List.range 2).mapM (fun i => searchTransactions (fun tx => .ok tx)
        (Reference.chain.addBlocks Reference.primitives [votesBlock]) (inTwos.atPage i)) =
        .ok responses ∧
      responses.flatMap (·.transactions) =
        (matchingTransactions (Reference.chain.addBlocks Reference.primitives [votesBlock])
          inTwos).map fun item => responseWith item.1 item.1 item.2 := by
  have hcount : (matchingTransactions (Reference.chain.addBlocks Reference.primitives
      [votesBlock]) inTwos).length = 3 := by
    rw [addBlocks_votesBlock]
    decide +kernel
  obtain ⟨hblocks, -, -, hpages⟩ := search_paged_iff (Reference.new_genesis 0) [votesBlock]
    (fun tx => .ok tx) id fun _ => rfl
  have hlimit : (pageLimit inTwos.limit).toNat = 2 := rfl
  refine ⟨(hblocks _).mpr (.inl (by decide)), hcount, hpages inTwos 2 ?_ ?_⟩
  · rw [hlimit]
    norm_num
  · rw [hlimit, hcount]
    norm_num

/-- After the last of all offsets there is nothing, and the response says that there is more. -/
theorem not_blocksPaged_lastOffset :
    Blockchain.new Reference.primitives 0 Reference.genesis = .ok Reference.chain ∧
    searchBlocks Reference.chain lastOffset = .ok ⟨1, [], true⟩ ∧
    ¬BlocksPaged Reference.chain lastOffset := by
  refine ⟨Reference.new_genesis 0, searchBlocks_lastOffset, ?_⟩
  rintro ⟨response, hsearch, hpaged⟩
  rw [searchBlocks_lastOffset] at hsearch
  cases hsearch
  have hmore := hpaged.hasMore_iff.mp rfl
  rw [matchingBlocks_lastOffset] at hmore
  revert hmore
  decide

end BlockchainMethods

end VotingChain
