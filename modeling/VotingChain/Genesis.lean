/-
# `VotingChain.Genesis` — the genesis configuration and its block

The model of `blockchain-core/src/genesis.rs`.  The genesis block is built like
any other block and then patched: its timestamp is replaced by the configured
one and its hash is calculated again.  After the patch nothing of the clock is
left in it, and it passes `Block.validate` (`isGenesis_of_createBlock`).

A `Vec` has a length that fits a machine word, so the enumeration of the
validators never wraps when it is cast to a nonce; `GenesisBlock` carries that
bound as a field.
-/
import Mathlib.Tactic.NormNum
import VotingChain.Block

namespace VotingChain

/-- Additional genesis configuration.  The threshold is an exact rational. -/
structure GenesisConfig where
  blockTime : UInt64
  consensusThreshold : Rat
  maxBlockSize : Nat
  maxTransactionsPerBlock : UInt32

/-- Genesis block configuration. -/
structure GenesisBlock where
  validators : List PublicKey
  timestamp : Timestamp
  chainId : String
  networkName : String
  config : GenesisConfig
  validators_lt : validators.length < 2 ^ 64

/-- The defaults of `GenesisConfig`. -/
def GenesisConfig.default : GenesisConfig where
  blockTime := 5
  consensusThreshold := 67 / 100
  maxBlockSize := 1024 * 1024
  maxTransactionsPerBlock := 1000

namespace GenesisBlock
variable (P : Primitives)

/-- A genesis configuration with the default names and settings. -/
def new (validators : List PublicKey) (timestamp : Timestamp)
    (h : validators.length < 2 ^ 64) : GenesisBlock where
  validators := validators
  timestamp := timestamp
  chainId := "voting-chain-1"
  networkName := "Voting Network Mainnet"
  config := GenesisConfig.default
  validators_lt := h

/-- The registration of the `i`-th genesis validator.  Genesis signatures are zero. -/
def registration (g : GenesisBlock) (validatorKey : PublicKey) (i : Nat) : Transaction :=
  Transaction.newWithParams P
    (.validatorRegistration
      { validatorKey
        metadata :=
          { name := "Genesis Validator " ++ toString (i + 1)
            organization := some "Genesis"
            contact := none }
        authorizingSignature := ⟨List.Vector.replicate 64 0⟩ })
    g.timestamp (UInt64.ofNat i)

/-- The registrations of all genesis validators, in order. -/
def registrations (g : GenesisBlock) : List Transaction :=
  g.validators.zipIdx.map fun entry => g.registration P entry.1 entry.2

/-- Create the genesis block. -/
def createBlock (now : Timestamp) (g : GenesisBlock) : Result Block := do
  ensure (!g.validators.isEmpty) (.genesisError "Genesis must have at least one validator")
  let genesisValidator ← indexVec g.validators 0
  let block := Block.new P now 0 BlockHash.zero (g.registrations P) genesisValidator
  let header := { block.header with timestamp := g.timestamp }
  return { block with header := { header with hash := header.calculateHash P } }

/-- Validate genesis configuration. -/
def validate (g : GenesisBlock) : Result Unit := do
  ensure (!g.validators.isEmpty) (.genesisError "Must have at least one validator")
  ensure (!g.chainId.isEmpty) (.genesisError "Chain ID cannot be empty")
  ensure (!g.networkName.isEmpty) (.genesisError "Network name cannot be empty")
  ensure (decide (g.config.blockTime ≠ 0)) (.genesisError "Block time must be greater than 0")
  ensure (decide (0 < g.config.consensusThreshold ∧ g.config.consensusThreshold ≤ 1))
    (.genesisError "Consensus threshold must be between 0 and 1")
  ensure (decide (g.config.maxBlockSize ≠ 0))
    (.genesisError "Max block size must be greater than 0")
  ensure (decide (g.config.maxTransactionsPerBlock ≠ 0))
    (.genesisError "Max transactions per block must be greater than 0")

theorem validate_new {validators : List PublicKey} (hne : validators ≠ []) (timestamp : Timestamp)
    (h : validators.length < 2 ^ 64) : (new validators timestamp h).validate = .ok () := by
  have hthreshold : (0 : Rat) < 67 / 100 ∧ (67 / 100 : Rat) ≤ 1 := by norm_num
  simp [validate, new, GenesisConfig.default, ensure, hne, hthreshold, bind, Except.bind]

/-! ## What the genesis block is -/

theorem registration_validate (g : GenesisBlock) (key : PublicKey) (i : Nat) :
    (g.registration P key i).validate P = .ok () := by
  rw [registration, Transaction.validate_newWithParams]
  simp [Transaction.validateType, Transaction.validateValidatorRegistration]

theorem mem_registrations {g : GenesisBlock} {tx : Transaction} (h : tx ∈ g.registrations P) :
    ∃ key i, tx = g.registration P key i := by
  obtain ⟨entry, -, rfl⟩ := List.mem_map.mp h
  exact ⟨entry.1, entry.2, rfl⟩

/-- What `createBlock` returns: nothing of the clock is left in it. -/
structure IsGenesis (g : GenesisBlock) (b : Block) : Prop where
  height : b.header.height = 0
  previousHash : b.header.previousHash = BlockHash.zero
  timestamp : b.header.timestamp = g.timestamp
  transactions : b.transactions = g.registrations P
  valid : b.Valid P

/-- The genesis block, once its first validator is known. -/
def blockOf (g : GenesisBlock) (genesisValidator : PublicKey) : Block :=
  let block := Block.new P 0 0 BlockHash.zero (g.registrations P) genesisValidator
  let header := { block.header with timestamp := g.timestamp }
  { block with header := { header with hash := header.calculateHash P } }

variable {P}

theorem createBlock_eq_ok {now : Timestamp} {g : GenesisBlock} {b : Block} :
    g.createBlock P now = .ok b ↔ ∃ key, g.validators[0]? = some key ∧ b = g.blockOf P key := by
  cases hv : g.validators with
  | nil => simp [createBlock, hv, ensure, fail, bind, Except.bind]
  | cons key keys =>
      simp only [createBlock, hv, ensure, indexVec, List.isEmpty_cons, Bool.not_false, if_true,
        List.getElem?_cons_zero, Option.some.injEq, exists_eq_left']
      exact ⟨fun h => (Except.ok.inj h).symm, fun h => congrArg Except.ok h.symm⟩

theorem isGenesis_of_createBlock {now : Timestamp} {g : GenesisBlock} {b : Block}
    (h : g.createBlock P now = .ok b) : IsGenesis P g b := by
  obtain ⟨key, -, rfl⟩ := createBlock_eq_ok.mp h
  refine ⟨rfl, rfl, rfl, rfl, rfl, rfl, rfl, ?_⟩
  intro tx htx
  obtain ⟨k, i, rfl⟩ := mem_registrations P htx
  exact registration_validate P g k i

variable (P) in
/-- The genesis block exists when there is a validator, and does not depend on
the clock. -/
theorem exists_createBlock {g : GenesisBlock} (h : g.validators ≠ []) :
    ∃ b, ∀ now, g.createBlock P now = .ok b := by
  obtain ⟨key, keys, hv⟩ := List.exists_cons_of_ne_nil h
  exact ⟨g.blockOf P key, fun now => createBlock_eq_ok.mpr ⟨key, by simp [hv], rfl⟩⟩

/-- The registrations have pairwise different ids: their nonces differ, and the
hash function does not confuse what is hashed for them. -/
theorem nodup_registrations {g : GenesisBlock}
    (hhash : Set.InjOn P.blake2b256
      {x | ∃ tx ∈ g.registrations P, x = tx.serializeForHashing P}) :
    ((g.registrations P).map Transaction.id).Nodup := by
  have hentries : g.validators.zipIdx.Nodup := by
    refine List.Nodup.of_map Prod.snd ?_
    rw [List.zipIdx_map_snd]
    exact List.nodup_range'
  rw [registrations, List.map_map]
  refine List.Nodup.map_on ?_ hentries
  rintro ⟨key, i⟩ hi ⟨key', j⟩ hj heq
  have hget := List.mem_zipIdx_iff_getElem?.mp hi
  have hget' := List.mem_zipIdx_iff_getElem?.mp hj
  have hpre := hhash ⟨_, List.mem_map_of_mem hi, rfl⟩ ⟨_, List.mem_map_of_mem hj, rfl⟩
    (congrArg TxId.bytes heq)
  have hnonce : UInt64.ofNat i = UInt64.ofNat j := (Transaction.serializeForHashing_inj hpre).2.1
  have hij : i = j := by
    have hi' := (List.getElem?_eq_some_iff.mp hget).1
    have hj' := (List.getElem?_eq_some_iff.mp hget').1
    have hlt : g.validators.length < UInt64.size := g.validators_lt
    have := congrArg UInt64.toNat hnonce
    rwa [UInt64.toNat_ofNat_of_lt' (hi'.trans hlt), UInt64.toNat_ofNat_of_lt' (hj'.trans hlt)]
      at this
  subst hij
  exact congrArg (·, i) (Option.some.inj (hget.symm.trans hget'))

end GenesisBlock

end VotingChain
