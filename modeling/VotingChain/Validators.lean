/-
# `VotingChain.Validators` — the three containers of the validator set

The rest of `consensus/validator_set.rs`: what is counted for each validator, and the
statistics.  The set keeps its validators in a list, in a map and in a hash set.

    turns, quorum           the list
    statistics              the list and the map
    membership              the hash set

`add_validator` refuses a key that is there.  `ValidatorSet::new` takes the list as it is,
so that a key that is listed twice is in the list twice and in the other two once.  This
is the only way in which the three can come apart (`represented_iff_nodup`).
-/
import VotingChain.Lib.Maps
import VotingChain.Lib.Runs
import VotingChain.Reference
import VotingChain.Consensus

namespace VotingChain

/-- Statistics about the validator set. -/
structure ValidatorSetStats where
  totalValidators : Nat
  activeValidators : Nat
  inactiveValidators : Nat
  totalBlocksProduced : UInt64
  totalBlocksValidated : UInt64
  deriving DecidableEq

/-- `a - b` on `usize`. -/
def wrappingSub (a b : Nat) : Nat := if b ≤ a then a - b else 2 ^ 64 + a - b

namespace ValidatorSet

/-! ## What is recorded of a validator -/

/-- Get validator info. -/
def getValidatorInfo (s : ValidatorSet) (validator : PublicKey) : Option ValidatorInfo :=
  s.validatorMap.lookup validator

/-- The set with other information on a validator. -/
def putInfo (s : ValidatorSet) (validator : PublicKey) (info : ValidatorInfo) : ValidatorSet :=
  { s with validatorMap := s.validatorMap.insert validator info }

/-- A write to what `get_validator_info_mut` returns. -/
def updateInfo [Hex] (validator : PublicKey) (f : ValidatorInfo → ValidatorInfo) :
    Exec ValidatorSet Unit := do
  let s ← get
  match s.getValidatorInfo validator with
  | none =>
    Exec.lift (fail (.invalidValidator ("Validator " ++ validator.toHex ++ " not found")))
  | some info => modify fun s => s.putInfo validator (f info)

/-- Increment blocks produced for a validator. -/
def recordBlockProduced [Hex] (validator : PublicKey) : Exec ValidatorSet Unit :=
  updateInfo validator fun info => { info with blocksProduced := info.blocksProduced + 1 }

/-- Increment blocks validated for a validator. -/
def recordBlockValidated [Hex] (validator : PublicKey) : Exec ValidatorSet Unit :=
  updateInfo validator fun info => { info with blocksValidated := info.blocksValidated + 1 }

/-- Set validator active status. -/
def setValidatorActive [Hex] (validator : PublicKey) (active : Bool) : Exec ValidatorSet Unit :=
  updateInfo validator fun info => { info with isActive := active }

/-- Get all active validators. -/
def activeValidators (s : ValidatorSet) : List PublicKey :=
  s.validators.filter fun v => ((s.validatorMap.lookup v).map fun info => info.isActive).getD false

/-- Get active validator count. -/
def activeValidatorCount (s : ValidatorSet) : Nat := s.activeValidators.length

/-- The sum of a counter over all validators, which wraps around. -/
def totalOf (s : ValidatorSet) (counter : ValidatorInfo → UInt64) : UInt64 :=
  UInt64.ofNat (s.validatorMap.entries.map fun entry => (counter entry.2).toNat).sum

/-- Calculate total blocks produced by all validators. -/
def totalBlocksProduced (s : ValidatorSet) : UInt64 := s.totalOf fun info => info.blocksProduced

/-- Calculate total blocks validated by all validators. -/
def totalBlocksValidated (s : ValidatorSet) : UInt64 := s.totalOf fun info => info.blocksValidated

/-- Get validator statistics. -/
def getStats (s : ValidatorSet) : ValidatorSetStats where
  totalValidators := s.validatorCount
  activeValidators := s.activeValidatorCount
  inactiveValidators := wrappingSub s.validatorCount s.activeValidatorCount
  totalBlocksProduced := s.totalBlocksProduced
  totalBlocksValidated := s.totalBlocksValidated

/-- How a validator set is made. -/
inductive Origin
  | new (now : Timestamp) (validators : List PublicKey)
  | empty

/-- The set that is made. -/
def Origin.set : Origin → ValidatorSet
  | .new now validators => ValidatorSet.new now validators
  | .empty => ValidatorSet.empty

/-- The list it is made from. -/
def Origin.listed : Origin → List PublicKey
  | .new _ validators => validators
  | .empty => []

/-- A call that changes the set. -/
inductive Call
  | addValidator (now : Timestamp) (validator : PublicKey)
  | removeValidator (validator : PublicKey)
  | recordBlockProduced (validator : PublicKey)
  | recordBlockValidated (validator : PublicKey)
  | setValidatorActive (validator : PublicKey) (active : Bool)

def Call.method [Hex] : Call → Exec ValidatorSet Unit
  | .addValidator now validator => ValidatorSet.addValidator now validator
  | .removeValidator validator => ValidatorSet.removeValidator validator
  | .recordBlockProduced validator => ValidatorSet.recordBlockProduced validator
  | .recordBlockValidated validator => ValidatorSet.recordBlockValidated validator
  | .setValidatorActive validator active => ValidatorSet.setValidatorActive validator active

/-- The set after a call. -/
def apply [Hex] (s : ValidatorSet) (call : Call) : ValidatorSet := call.method.next s

/-! ## What a call does -/

/-- A write to the information on a validator changes nothing else, and fails if there is
none. -/
theorem updateInfo_cases [Hex] (v : PublicKey) (f : ValidatorInfo → ValidatorInfo)
    (s : ValidatorSet) :
    (∃ info, s.validatorMap.lookup v = some info ∧
      (updateInfo v f).exec s = (.ok (), s.putInfo v (f info))) ∨
    ∃ e, (updateInfo v f).exec s = (.error e, s) := by
  rw [updateInfo, Exec.exec_get_bind]
  cases hinfo : s.getValidatorInfo v with
  | none => exact Or.inr ⟨_, rfl⟩
  | some info => exact Or.inl ⟨info, hinfo, rfl⟩

/-- **What a call does**: a new key in all three containers, a key of the set out of all
three, or other information under its own key; or nothing, and then it fails. -/
theorem method_cases [Hex] (call : Call) (s : ValidatorSet) :
    (∃ now v, s.isValidator v = false ∧ call.method.exec s = (.ok (), s.insertKey now v)) ∨
    (∃ v, s.isValidator v = true ∧ call.method.exec s = (.ok (), s.eraseKey v)) ∨
    (∃ v info info', s.validatorMap.lookup v = some info ∧ info'.publicKey = info.publicKey ∧
      call.method.exec s = (.ok (), s.putInfo v info')) ∨
    ∃ e, call.method.exec s = (.error e, s) := by
  have hupdate : ∀ v (f : ValidatorInfo → ValidatorInfo),
      (∀ info, (f info).publicKey = info.publicKey) →
      (∃ w info info', s.validatorMap.lookup w = some info ∧ info'.publicKey = info.publicKey ∧
        (updateInfo v f).exec s = (.ok (), s.putInfo w info')) ∨
      ∃ e, (updateInfo v f).exec s = (.error e, s) := by
    intro v f hkey
    rcases updateInfo_cases v f s with ⟨info, hinfo, hexec⟩ | ⟨e, hexec⟩
    · exact Or.inl ⟨v, info, f info, hinfo, hkey info, hexec⟩
    · exact Or.inr ⟨e, hexec⟩
  cases call with
  | addValidator now v =>
      rcases addValidator_cases now v s with ⟨hnew, -, hexec⟩ | ⟨e, hexec⟩
      · exact Or.inl ⟨now, v, hnew, hexec⟩
      · exact Or.inr (Or.inr (Or.inr ⟨e, hexec⟩))
  | removeValidator v =>
      rcases removeValidator_cases v s with ⟨hold, hexec⟩ | ⟨e, hexec⟩
      · exact Or.inr (Or.inl ⟨v, hold, hexec⟩)
      · exact Or.inr (Or.inr (Or.inr ⟨e, hexec⟩))
  | recordBlockProduced v => exact Or.inr (Or.inr (hupdate v _ fun _ => rfl))
  | recordBlockValidated v => exact Or.inr (Or.inr (hupdate v _ fun _ => rfl))
  | setValidatorActive v active => exact Or.inr (Or.inr (hupdate v _ fun _ => rfl))

/-- A call that fails changes nothing. -/
def FailsCleanly [Hex] (s : ValidatorSet) (call : Call) : Prop :=
  ∀ e, (call.method.exec s).1 = .error e → (call.method.exec s).2 = s

theorem failsCleanly [Hex] (s : ValidatorSet) (call : Call) : s.FailsCleanly call := by
  intro e he
  rcases method_cases call s with ⟨now, v, -, hexec⟩ | ⟨v, -, hexec⟩ | ⟨v, _, _, -, -, hexec⟩ |
    ⟨e', hexec⟩
  · rw [hexec] at he
    cases he
  · rw [hexec] at he
    cases he
  · rw [hexec] at he
    cases he
  · rw [hexec]

/-! ## The containers -/

/-- The keys of the map and the members of the set are those that are listed, and each
entry is under its own key. -/
structure Keyed (s : ValidatorSet) : Prop where
  mem_map : ∀ v, v ∈ s.validatorMap ↔ v ∈ s.validators
  mem_set : ∀ v, v ∈ s.validatorSet ↔ v ∈ s.validators
  key : ∀ v info, s.validatorMap.lookup v = some info → info.publicKey = v

/-- Moreover no key is listed twice, and the statistics add up. -/
structure Represented (s : ValidatorSet) : Prop extends Keyed s where
  nodup : s.validators.Nodup
  active_le : s.activeValidatorCount ≤ s.validatorCount
  stats : s.getStats.activeValidators + s.getStats.inactiveValidators = s.getStats.totalValidators

theorem activeValidatorCount_le (s : ValidatorSet) : s.activeValidatorCount ≤ s.validatorCount :=
  List.length_filter_le _ _

/-- There are not more active validators than validators, so that the difference does not
wrap around, even where a key is listed twice. -/
theorem getStats_add (s : ValidatorSet) :
    s.getStats.activeValidators + s.getStats.inactiveValidators = s.getStats.totalValidators := by
  show s.activeValidatorCount + wrappingSub s.validatorCount s.activeValidatorCount =
    s.validatorCount
  rw [wrappingSub, if_pos s.activeValidatorCount_le]
  exact Nat.add_sub_cancel' s.activeValidatorCount_le

theorem lookup_new (now : Timestamp) (validators : List PublicKey) (v : PublicKey) :
    (new now validators).validatorMap.lookup v =
      if v ∈ validators then some (freshInfo now v) else none := by
  have hfold : ∀ (vs : List PublicKey) (m : Finmap fun _ : PublicKey => ValidatorInfo),
      (vs.foldl (fun m w => m.insert w (freshInfo now w)) m).lookup v =
        if v ∈ vs.map id then some (freshInfo now v) else m.lookup v := by
    intro vs m
    refine Finmap.lookup_foldl (f := id) (fun m w => ?_) vs m
    split
    · next hv =>
        rw [hv]
        exact Finmap.lookup_insert m
    · next hv => exact Finmap.lookup_insert_of_ne m hv
  rw [new, hfold, List.map_id, Finmap.lookup_empty]

theorem keyed_new (now : Timestamp) (validators : List PublicKey) :
    (new now validators).Keyed := by
  refine ⟨?_, ?_, ?_⟩
  · intro v
    rw [← Finmap.lookup_isSome, lookup_new]
    show _ ↔ v ∈ validators
    split
    · next hv => exact iff_of_true rfl hv
    · next hv => exact iff_of_false Bool.false_ne_true hv
  · intro v
    rw [← decide_eq_true_iff (p := v ∈ (new now validators).validatorSet)]
    exact isValidator_new now validators v
  · intro v info hinfo
    rw [lookup_new] at hinfo
    split at hinfo
    · cases hinfo
      rfl
    · cases hinfo

theorem keyed_empty : empty.Keyed := by
  refine ⟨?_, ?_, ?_⟩
  · intro v
    exact iff_of_false Finmap.notMem_empty List.not_mem_nil
  · intro v
    exact iff_of_false (Finset.notMem_empty v) List.not_mem_nil
  · intro v info hinfo
    rw [empty, Finmap.lookup_empty] at hinfo
    cases hinfo

namespace Keyed
variable {s : ValidatorSet}

theorem isValidator_iff (h : s.Keyed) (v : PublicKey) :
    s.isValidator v = true ↔ v ∈ s.validators := by
  rw [isValidator, decide_eq_true_iff]
  exact h.mem_set v

theorem wellFormed (h : s.Keyed) (hnodup : s.validators.Nodup) : s.WellFormed :=
  ⟨hnodup, h.isValidator_iff⟩

theorem insertKey (h : s.Keyed) (now : Timestamp) (v : PublicKey) : (s.insertKey now v).Keyed := by
  refine ⟨?_, ?_, ?_⟩
  · intro w
    show w ∈ s.validatorMap.insert v (freshInfo now v) ↔ w ∈ s.validators ++ [v]
    rw [Finmap.mem_insert, h.mem_map, List.mem_append, List.mem_singleton, or_comm]
  · intro w
    show w ∈ insert v s.validatorSet ↔ w ∈ s.validators ++ [v]
    rw [Finset.mem_insert, h.mem_set, List.mem_append, List.mem_singleton, or_comm]
  · exact Finmap.forall_lookup_insert h.key rfl

theorem eraseKey (h : s.Keyed) (v : PublicKey) : (s.eraseKey v).Keyed := by
  refine ⟨?_, ?_, ?_⟩
  · intro w
    show w ∈ s.validatorMap.erase v ↔ w ∈ s.validators.filter fun w => decide (w ≠ v)
    rw [Finmap.mem_erase, h.mem_map, List.mem_filter, decide_eq_true_iff, and_comm]
  · intro w
    show w ∈ s.validatorSet.erase v ↔ w ∈ s.validators.filter fun w => decide (w ≠ v)
    rw [Finset.mem_erase, h.mem_set, List.mem_filter, decide_eq_true_iff, and_comm]
  · intro w info hinfo
    rw [ValidatorSet.eraseKey] at hinfo
    by_cases hw : w = v
    · rw [hw, Finmap.lookup_erase] at hinfo
      cases hinfo
    · rw [Finmap.lookup_erase_ne hw] at hinfo
      exact h.key w info hinfo

theorem putInfo (h : s.Keyed) {v : PublicKey} {info info' : ValidatorInfo}
    (hinfo : s.validatorMap.lookup v = some info) (hkey : info'.publicKey = info.publicKey) :
    (s.putInfo v info').Keyed := by
  refine ⟨?_, h.mem_set, ?_⟩
  · intro w
    show w ∈ s.validatorMap.insert v info' ↔ w ∈ s.validators
    rw [Finmap.mem_insert, h.mem_map]
    refine or_iff_right_of_imp ?_
    rintro rfl
    exact (h.mem_map w).mp (Finmap.mem_of_lookup_eq_some hinfo)
  · exact Finmap.forall_lookup_insert h.key (hkey.trans (h.key v info hinfo))

end Keyed

theorem keyed_apply [Hex] {s : ValidatorSet} (h : s.Keyed) (call : Call) :
    (s.apply call).Keyed ∧ (s.validators.Nodup → (s.apply call).validators.Nodup) := by
  rcases method_cases call s with ⟨now, v, hnew, hexec⟩ | ⟨v, -, hexec⟩ |
    ⟨v, info, info', hinfo, hkey, hexec⟩ | ⟨e, hexec⟩
  · rw [apply, Exec.next_of_ok hexec]
    exact ⟨h.insertKey now v, fun hnodup => ((h.wellFormed hnodup).insertKey now hnew).nodup⟩
  · rw [apply, Exec.next_of_ok hexec]
    exact ⟨h.eraseKey v, fun hnodup => ((h.wellFormed hnodup).eraseKey v).nodup⟩
  · rw [apply, Exec.next_of_ok hexec]
    exact ⟨h.putInfo hinfo hkey, fun hnodup => hnodup⟩
  · rw [apply, Exec.next_of_error hexec]
    exact ⟨h, fun hnodup => hnodup⟩

theorem Origin.keyed : ∀ origin : Origin, origin.set.Keyed
  | .new now validators => keyed_new now validators
  | .empty => keyed_empty

theorem Origin.validators_set : ∀ origin : Origin, origin.set.validators = origin.listed
  | .new _ _ => rfl
  | .empty => rfl

/-- In every run the keys of the map, the members of the set and the listed keys are the
same, whatever was listed. -/
theorem keyed_run [Hex] (origin : Origin) (calls : List Call) :
    (Runs.run apply origin.set calls).Keyed :=
  Runs.run_preserves (I := Keyed) (fun _ call h => (keyed_apply h call).1) origin.keyed calls

/-- **What the set represents.**  In every state of a run no key is listed twice, the list,
the map and the hash set have the same keys, each entry is under its own and the statistics
add up, and no call that fails changes anything, if and only if the set was made from a list
without repeated keys. -/
theorem represented_iff_nodup [Hex] (origin : Origin) (calls : List Call) :
    (Runs.Visits apply Represented origin.set calls ∧
      Runs.Along apply FailsCleanly origin.set calls) ↔ origin.listed.Nodup := by
  rw [and_iff_left (Runs.along_of_forall failsCleanly origin.set calls)]
  constructor
  · intro hvisits
    rw [← origin.validators_set]
    exact hvisits.first.nodup
  · intro hnodup
    rw [← origin.validators_set] at hnodup
    refine Runs.visits_of_invariant (I := fun s => s.Keyed ∧ s.validators.Nodup) ?_ ?_
      ⟨origin.keyed, hnodup⟩ calls
    · rintro s ⟨hkeyed, hnodup⟩
      exact ⟨hkeyed, hnodup, s.activeValidatorCount_le, s.getStats_add⟩
    · rintro s call ⟨hkeyed, hnodup⟩
      obtain ⟨hkeyed', hnodup'⟩ := keyed_apply hkeyed call
      exact ⟨hkeyed', hnodup' hnodup⟩

/-- A key that `add_validator` refuses, being there already, is listed twice by `new`. -/
theorem repeated_key_listed :
    ((addValidator 0 Reference.key).exec (new 0 [Reference.key])).1 =
        fail (.consensusError ("Validator " ++ Reference.key.toHex ++ " already exists")) ∧
    ¬(Runs.Visits apply Represented (Origin.new 0 [Reference.key, Reference.key]).set [] ∧
      Runs.Along apply FailsCleanly (Origin.new 0 [Reference.key, Reference.key]).set []) := by
  refine ⟨rfl, ?_⟩
  rintro ⟨hvisits, -⟩
  exact (List.nodup_cons.mp hvisits.first.nodup).1 List.mem_cons_self

end ValidatorSet

end VotingChain
