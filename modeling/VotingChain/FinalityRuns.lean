/-
# `VotingChain.FinalityRuns` — a tracker that forgets

The model of the rest of `consensus/finality.rs`: `prune_below_height` drops the entries of
low blocks, `clear` drops all, and the counters of `get_stats` count what is left.

A run of these with `check_finality` is described by the calls that are still remembered
(`remembered`): a call is remembered until the tracker is cleared or pruned above the height
of its block.  The tracker is then, but for the highest finalized block, one that has been
shown the remembered calls and nothing else (`run_eq_track`); so a block that was pruned and
is shown again starts from nothing.

    check c      … remembered, then c
    prune m      those of height m and above
    clear        none

The highest finalized block is not forgotten with its entry: the height is the greatest that
was finalized since the tracker was last cleared, and as long as nothing above it is pruned,
the block is finalized (`highest_run`).
-/
import VotingChain.Finality
import VotingChain.Lib.Maps

namespace VotingChain

/-- Finality statistics. -/
structure FinalityStats (F : Type) where
  totalBlocks : Nat
  finalizedBlocks : Nat
  pendingBlocks : Nat
  highestFinalizedHeight : BlockHeight
  highestFinalizedHash : BlockHash
  threshold : F

namespace FinalityTracker

section
variable {F : Type} (order : MapOrder BlockHash FinalityInfo)

/-- Get all finalized blocks. -/
def getFinalizedBlocks (tracker : FinalityTracker F) : List FinalityInfo :=
  (order.values tracker.finalityMap).filter fun info => info.isFinalized

/-- Get pending (not finalized) blocks. -/
def getPendingBlocks (tracker : FinalityTracker F) : List FinalityInfo :=
  (order.values tracker.finalityMap).filter fun info => !info.isFinalized

/-- Count finalized blocks. -/
def finalizedCount (tracker : FinalityTracker F) : Nat := (tracker.getFinalizedBlocks order).length

/-- Count pending blocks. -/
def pendingCount (tracker : FinalityTracker F) : Nat := (tracker.getPendingBlocks order).length

/-- Prune old finality data (remove blocks below certain height). -/
def pruneBelowHeight (minHeight : BlockHeight) (tracker : FinalityTracker F) : FinalityTracker F :=
  { tracker with
    finalityMap := tracker.finalityMap.retain fun _ info => decide (minHeight ≤ info.height) }

/-- Clear all finality data. -/
def clear (tracker : FinalityTracker F) : FinalityTracker F :=
  { tracker with
    finalityMap := ∅
    highestFinalizedHeight := 0
    highestFinalizedHash := BlockHash.zero }

/-- Get finality statistics. -/
def getStats (tracker : FinalityTracker F) : FinalityStats F where
  totalBlocks := (order.list tracker.finalityMap).length
  finalizedBlocks := tracker.finalizedCount order
  pendingBlocks := tracker.pendingCount order
  highestFinalizedHeight := tracker.highestFinalizedHeight
  highestFinalizedHash := tracker.highestFinalizedHash
  threshold := tracker.threshold

end

/-! ## Runs -/

/-- What is done with a tracker. -/
inductive Op
  | check (call : Call)
  | prune (minHeight : BlockHeight)
  | clear
  deriving DecidableEq

section
variable {F : Type} [Threshold F]

def step (n : Nat) (tracker : FinalityTracker F) : Op → FinalityTracker F
  | .check call => check n tracker call
  | .prune minHeight => tracker.pruneBelowHeight minHeight
  | .clear => tracker.clear

/-- A new tracker after a run. -/
def runOps (threshold : F) (n : Nat) (ops : List Op) : FinalityTracker F :=
  Runs.run (step n) (new threshold) ops

end

/-- What is remembered after one more step. -/
def remember (calls : List Call) : Op → List Call
  | .check call => calls ++ [call]
  | .prune minHeight => calls.filter fun call => decide (minHeight ≤ call.2.height)
  | .clear => []

/-- The calls that are remembered. -/
def remembered (ops : List Op) : List Call := Runs.run remember [] ops

def Op.shown : Op → Option Call
  | .check call => some call
  | .prune _ => none
  | .clear => none

/-- The calls of a run. -/
def checks (ops : List Op) : List Call := ops.filterMap Op.shown

@[simp] theorem remembered_concat (ops : List Op) (op : Op) :
    remembered (ops ++ [op]) = remember (remembered ops) op :=
  Runs.run_concat _ _ _ _

theorem mem_checks {ops : List Op} {call : Call} : call ∈ checks ops ↔ .check call ∈ ops := by
  rw [checks, List.mem_filterMap]
  constructor
  · rintro ⟨op, hop, heq⟩
    cases op with
    | check c =>
        cases heq
        exact hop
    | prune minHeight => cases heq
    | clear => cases heq
  · intro h
    exact ⟨.check call, h, rfl⟩

theorem mem_checks_of_remembered {ops : List Op} {call : Call} (h : call ∈ remembered ops) :
    call ∈ checks ops := by
  rw [mem_checks]
  induction ops using List.reverseRecOn with
  | nil => cases h
  | append_singleton ops op ih =>
      rw [remembered_concat] at h
      cases op with
      | check c =>
          rcases List.mem_append.mp h with h | h
          · exact List.mem_append_left _ (ih h)
          · rw [List.mem_singleton.mp h]
            simp
      | prune minHeight => exact List.mem_append_left _ (ih (List.mem_of_mem_filter h))
      | clear => cases h

theorem HashDeterminesHeight.remembered {ops : List Op} (h : HashDeterminesHeight (checks ops)) :
    HashDeterminesHeight (remembered ops) := by
  intro call hcall call' hcall'
  exact h call (mem_checks_of_remembered hcall) call' (mem_checks_of_remembered hcall')

theorem HashDeterminesHeight.of_concat {ops : List Op} {op : Op}
    (h : HashDeterminesHeight (checks (ops ++ [op]))) : HashDeterminesHeight (checks ops) := by
  have hmem : ∀ call ∈ checks ops, call ∈ checks (ops ++ [op]) := by
    intro call hcall
    rw [mem_checks] at hcall ⊢
    exact List.mem_append_left _ hcall
  intro call hcall call' hcall'
  exact h call (hmem call hcall) call' (hmem call' hcall')

theorem signersOf_prune {calls : List Call} (hdet : HashDeterminesHeight calls)
    {minHeight : BlockHeight} {call : Call} (hcall : call ∈ calls)
    (hheight : minHeight ≤ call.2.height) :
    signersOf (remember calls (.prune minHeight)) call.2.hash = signersOf calls call.2.hash := by
  ext v
  rw [signersOf, signersOf, Quorum.mem_voters, Quorum.mem_voters]
  constructor
  · rintro ⟨c, hc, hrest⟩
    exact ⟨c, List.mem_of_mem_filter hc, hrest⟩
  · rintro ⟨c, hc, hhash, hv⟩
    refine ⟨c, List.mem_filter.mpr ⟨hc, ?_⟩, hhash, hv⟩
    rw [hdet c hc call hcall hhash]
    exact decide_eq_true hheight

/-! ## What is remembered -/

section
variable {F : Type} [Threshold F] {threshold : F} {n : Nat} {calls : List Call}
  {tracker : FinalityTracker F}

variable (threshold n calls tracker) in
/-- The entries say what is remembered, with the heights of the blocks. -/
structure Remembers : Prop where
  records : Records threshold n calls tracker
  height : ∀ h info, tracker.finalityMap.lookup h = some info →
    ∃ call ∈ calls, call.2.hash = h ∧ call.2.height = info.height

namespace Remembers

theorem check (hrem : Remembers threshold n calls tracker) (hn : 1 ≤ n) (call : Call) :
    Remembers threshold n (remember calls (.check call)) (step n tracker (.check call)) := by
  refine ⟨hrem.records.step hn call, fun h info hsome => ?_⟩
  rw [step, Records.finalityMap_check] at hsome
  by_cases hsame : h = call.2.hash
  · subst hsame
    rw [Finmap.lookup_insert, Option.some.injEq] at hsome
    have hheight : info.height =
        ((tracker.finalityMap.lookup call.2.hash).getD (freshInfo call.2 n)).height := by
      rw [← hsome, nextInfo]
      split <;> rfl
    cases hold : tracker.finalityMap.lookup call.2.hash with
    | none =>
        rw [hold] at hheight
        exact ⟨call, by simp [remember], rfl, hheight.symm⟩
    | some old =>
        rw [hold] at hheight
        obtain ⟨c, hc, hhash, hc'⟩ := hrem.height _ old hold
        exact ⟨c, List.mem_append_left _ hc, hhash, hc'.trans hheight.symm⟩
  · rw [Finmap.lookup_insert_of_ne _ hsame] at hsome
    obtain ⟨c, hc, hrest⟩ := hrem.height h info hsome
    exact ⟨c, List.mem_append_left _ hc, hrest⟩

theorem prune (hrem : Remembers threshold n calls tracker) (hdet : HashDeterminesHeight calls)
    (minHeight : BlockHeight) :
    Remembers threshold n (remember calls (.prune minHeight))
      (step n tracker (.prune minHeight)) := by
  refine ⟨⟨hrem.records.threshold_eq, ?_, ?_⟩, ?_⟩
  · intro h hnone call hcall hhash
    obtain ⟨hcall, hheight⟩ := List.mem_filter.mp hcall
    cases hold : tracker.finalityMap.lookup h with
    | none => exact hrem.records.unseen h hold call hcall hhash
    | some info =>
        -- the entry of `h` has the height of `call`, so it was not dropped
        obtain ⟨c, hc, hchash, hcheight⟩ := hrem.height h info hold
        have hkept : (step n tracker (.prune minHeight)).finalityMap.lookup h = some info := by
          refine Finmap.lookup_retain_eq_some.mpr ⟨hold, ?_⟩
          rw [← hcheight, hdet c hc call hcall (hchash.trans hhash.symm)]
          exact hheight
        rw [hkept] at hnone
        cases hnone
  · intro h info hsome
    obtain ⟨hold, hheight⟩ := Finmap.lookup_retain_eq_some.mp hsome
    obtain ⟨c, hc, hchash, hcheight⟩ := hrem.height h info hold
    rw [← hcheight, decide_eq_true_iff] at hheight
    have hsigners := signersOf_prune hdet hc hheight
    rw [hchash] at hsigners
    rw [Quorate, hsigners]
    exact hrem.records.seen h info hold
  · intro h info hsome
    obtain ⟨hold, hheight⟩ := Finmap.lookup_retain_eq_some.mp hsome
    obtain ⟨c, hc, hchash, hcheight⟩ := hrem.height h info hold
    refine ⟨c, List.mem_filter.mpr ⟨hc, ?_⟩, hchash, hcheight⟩
    rwa [hcheight]

theorem clear (hrem : Remembers threshold n calls tracker) :
    Remembers threshold n (remember calls .clear) (step n tracker .clear) := by
  have hnone : ∀ h, (step n tracker .clear).finalityMap.lookup h = none :=
    fun h => Finmap.lookup_empty h
  refine ⟨⟨hrem.records.threshold_eq, ?_, ?_⟩, ?_⟩
  · intro h _ call hcall
    cases hcall
  · intro h info hsome
    rw [hnone] at hsome
    cases hsome
  · intro h info hsome
    rw [hnone] at hsome
    cases hsome

theorem keys_eq (hrem : Remembers threshold n calls tracker) :
    tracker.finalityMap.keys = (calls.map fun call => call.2.hash).toFinset := by
  ext h
  rw [Finmap.mem_keys, List.mem_toFinset, List.mem_map]
  constructor
  · intro hmem
    obtain ⟨info, hsome⟩ := Finmap.mem_iff.mp hmem
    obtain ⟨call, hcall, hhash, -⟩ := hrem.height h info hsome
    exact ⟨call, hcall, hhash⟩
  · rintro ⟨call, hcall, hhash⟩
    by_contra hmem
    exact hrem.records.unseen h (Finmap.lookup_eq_none.mpr hmem) call hcall hhash

end Remembers

theorem remembers_runOps (hn : 1 ≤ n) (threshold : F) {ops : List Op}
    (hdet : HashDeterminesHeight (checks ops)) :
    Remembers threshold n (remembered ops) (runOps threshold n ops) := by
  induction ops using List.reverseRecOn with
  | nil =>
      have hnone : ∀ h, (new threshold).finalityMap.lookup h = none := new_unseen threshold
      refine ⟨records_track hn threshold [], fun h info hsome => ?_⟩
      rw [runOps, Runs.run_nil, hnone] at hsome
      cases hsome
  | append_singleton ops op ih =>
      have hrem := ih hdet.of_concat
      rw [remembered_concat, runOps, Runs.run_concat]
      cases op with
      | check call => exact hrem.check hn call
      | prune minHeight => exact hrem.prune hdet.of_concat.remembered minHeight
      | clear => exact hrem.clear

theorem Records.checkFinality_congr {tracker' : FinalityTracker F}
    (hr : Records threshold n calls tracker) (hr' : Records threshold n calls tracker')
    (hn : 1 ≤ n) (now : Timestamp) (block : Block) :
    (checkFinality now block n tracker).1 = (checkFinality now block n tracker').1 := by
  obtain ⟨hsig, hfin⟩ := hr.nextInfo_spec hn (now, block)
  obtain ⟨hsig', hfin'⟩ := hr'.nextInfo_spec hn (now, block)
  have hsame : (tracker.nextInfo now block n).isFinalized =
      (tracker'.nextInfo now block n).isFinalized :=
    Bool.eq_iff_iff.mpr (hfin.trans hfin'.symm)
  simp only [checkFinality_eq, hsig, hsig', hsame, hr.calculateRequiredSignatures_eq,
    hr'.calculateRequiredSignatures_eq]

omit [Threshold F] in
theorem isFinalized_eq_any (h : BlockHash) :
    tracker.isFinalized h = (tracker.finalityMap.lookup h).any FinalityInfo.isFinalized := by
  rw [isFinalized]
  cases tracker.finalityMap.lookup h <;> rfl

omit [Threshold F] in
theorem length_filter_values (order : MapOrder BlockHash FinalityInfo) (p : FinalityInfo → Bool) :
    ((order.values tracker.finalityMap).filter p).length =
      (tracker.finalityMap.keys.filter fun h => (tracker.finalityMap.lookup h).any p = true).card := by
  have hcount : (order.values tracker.finalityMap).countP p =
      (order.values tracker.finalityMap : Multiset FinalityInfo).countP fun info => p info = true := by
    simp
  rw [Finmap.card_filter_keys, ← List.countP_eq_length_filter, hcount, order.coe_values,
    Multiset.countP_map, ← Multiset.countP_eq_card_filter]

/-- **A tracker that forgets.**  After any run, who has signed, what is finalized, the answer
to the next call and the counts are those of a tracker that has been shown what is remembered
and nothing else. -/
theorem run_eq_track (hn : 1 ≤ n) (threshold : F) {ops : List Op}
    (hdet : HashDeterminesHeight (checks ops)) (order : MapOrder BlockHash FinalityInfo) :
    (∀ h, ((runOps threshold n ops).getFinalityInfo h).elim ∅ FinalityInfo.signatures =
      signersOf (remembered ops) h) ∧
    (∀ h, (runOps threshold n ops).isFinalized h =
      (track threshold n (remembered ops)).isFinalized h) ∧
    (∀ now block, (checkFinality now block n (runOps threshold n ops)).1 =
      (checkFinality now block n (track threshold n (remembered ops))).1) ∧
    ((runOps threshold n ops).getStats order).finalizedBlocks =
      (((remembered ops).map fun call => call.2.hash).toFinset.filter fun h =>
        (track threshold n (remembered ops)).isFinalized h = true).card ∧
    ((runOps threshold n ops).getStats order).pendingBlocks =
      (((remembered ops).map fun call => call.2.hash).toFinset.filter fun h =>
        (track threshold n (remembered ops)).isFinalized h = false).card ∧
    ((runOps threshold n ops).getStats order).totalBlocks =
      ((runOps threshold n ops).getStats order).finalizedBlocks +
        ((runOps threshold n ops).getStats order).pendingBlocks := by
  have hrem := remembers_runOps hn threshold hdet
  have hr := hrem.records
  have htrack := records_track hn threshold (remembered ops)
  have hfin : ∀ h, (runOps threshold n ops).isFinalized h =
      (track threshold n (remembered ops)).isFinalized h := fun h =>
    Bool.eq_iff_iff.mpr ((hr.isFinalized_iff hn h).trans (htrack.isFinalized_iff hn h).symm)
  refine ⟨hr.signatures_eq, hfin, hr.checkFinality_congr htrack hn, ?_, ?_, ?_⟩
  · show ((order.values _).filter _).length = _
    rw [length_filter_values, hrem.keys_eq]
    simp only [← hfin, isFinalized_eq_any]
  · show ((order.values _).filter _).length = _
    rw [length_filter_values, ← hrem.keys_eq]
    refine congrArg Finset.card (Finset.filter_congr fun h hkey => ?_)
    obtain ⟨info, hsome⟩ := Finmap.mem_iff.mp (Finmap.mem_keys.mp hkey)
    rw [← hfin, isFinalized, hsome]
    simp
  · show (order.list _).length = ((order.values _).filter _).length +
      ((order.values _).filter _).length
    rw [← List.length_eq_length_filter_add, MapOrder.values, List.length_map]

end

section
open Reference (signedNext)

/-- One call, for a block of height 1, which is then pruned. -/
theorem run_eq_track_pruned :
    (runOps (67 / 100 : Rat) 1 [.check (2000, signedNext), .prune 2]).isFinalized signedNext.hash =
      (track (67 / 100 : Rat) 1 []).isFinalized signedNext.hash := by
  have hdet : HashDeterminesHeight (checks [.check (2000, signedNext), .prune 2]) :=
    hashDeterminesHeight_singleton _
  exact (run_eq_track le_rfl _ hdet default).2.1 _

end

section
variable {F : Type} [Threshold F] {threshold : F} {n : Nat} {calls : List Call}
  {tracker : FinalityTracker F}

/-! ## The highest finalized block -/

variable (threshold n) in
/-- The heights that were finalized since the tracker was last cleared. -/
def FinalizedHeights (ops : List Op) : Set BlockHeight :=
  {height | ∃ before after, ops = before ++ after ∧ Op.clear ∉ after ∧
    ∃ call ∈ remembered before, Quorate threshold n (remembered before) call.2.hash ∧
      call.2.height = height}

theorem mem_finalizedHeights_concat {ops : List Op} {op : Op} {height : BlockHeight} :
    height ∈ FinalizedHeights threshold n (ops ++ [op]) ↔
      (op ≠ .clear ∧ height ∈ FinalizedHeights threshold n ops) ∨
      ∃ call ∈ remembered (ops ++ [op]),
        Quorate threshold n (remembered (ops ++ [op])) call.2.hash ∧ call.2.height = height := by
  constructor
  · rintro ⟨before, after, hops, hclear, hcall⟩
    induction after using List.reverseRecOn with
    | nil =>
        rw [List.append_nil] at hops
        rw [← hops] at hcall
        exact Or.inr hcall
    | append_singleton after last _ =>
        rw [← List.append_assoc] at hops
        obtain ⟨hbefore, hlast⟩ := List.append_inj' hops rfl
        cases hlast
        refine Or.inl ⟨fun h => hclear ?_, before, after, hbefore, fun h => hclear ?_, hcall⟩
        · rw [h]
          exact List.mem_append_right _ (List.mem_singleton_self _)
        · exact List.mem_append_left _ h
  · rintro (⟨hop, before, after, hops, hclear, hcall⟩ | hcall)
    · refine ⟨before, after ++ [op], by rw [hops, List.append_assoc], fun h => ?_, hcall⟩
      rcases List.mem_append.mp h with h | h
      · exact hclear h
      · exact hop (List.mem_singleton.mp h).symm
    · exact ⟨ops ++ [op], [], by rw [List.append_nil], by simp, hcall⟩

theorem mem_finalizedHeights_of_quorate {ops : List Op} {call : Call}
    (hcall : call ∈ remembered ops) (hq : Quorate threshold n (remembered ops) call.2.hash) :
    call.2.height ∈ FinalizedHeights threshold n ops :=
  ⟨ops, [], (List.append_nil ops).symm, by simp, call, hcall, hq, rfl⟩

/-- What a call finalizes: what was finalized before, or its own block. -/
theorem quorate_check_cases {calls : List Call} (hn : 1 ≤ n) {call c : Call}
    (hdet : HashDeterminesHeight (calls ++ [call])) (hc : c ∈ calls ++ [call])
    (hq : Quorate threshold n (calls ++ [call]) c.2.hash) :
    (∃ c' ∈ calls, Quorate threshold n calls c'.2.hash ∧ c'.2.height = c.2.height) ∨
      (c.2.hash = call.2.hash ∧ c.2.height = call.2.height) := by
  by_cases hsame : c.2.hash = call.2.hash
  · refine Or.inr ⟨hsame, hdet c hc call ?_ hsame⟩
    exact List.mem_append_right _ (List.mem_singleton_self _)
  · rw [Quorate, signersOf_concat, if_neg (Ne.symm hsame)] at hq
    obtain ⟨c', hc', hhash⟩ := Quorate.exists_call hn hq
    refine Or.inl ⟨c', hc', by rwa [hhash], ?_⟩
    exact hdet c' (List.mem_append_left _ hc') c hc hhash

theorem isGreatest_check (hn : 1 ≤ n) {ops : List Op} {call : Call}
    (hdet : HashDeterminesHeight (checks (ops ++ [.check call])))
    (hrem : Remembers threshold n (remembered ops) tracker)
    (h : IsGreatest (insert 0 (FinalizedHeights threshold n ops)) tracker.highestFinalizedHeight) :
    IsGreatest (insert 0 (FinalizedHeights threshold n (ops ++ [.check call])))
      (step n tracker (.check call)).highestFinalizedHeight := by
  have hcalls : remembered (ops ++ [.check call]) = remembered ops ++ [call] :=
    remembered_concat ops (.check call)
  have hdet' := hdet.remembered
  rw [hcalls] at hdet'
  have hkeep : ∀ height, height ∈ insert 0 (FinalizedHeights threshold n ops) →
      height ∈ insert 0 (FinalizedHeights threshold n (ops ++ [.check call])) := by
    rintro height (hzero | hheight)
    · exact Or.inl hzero
    · exact Or.inr (mem_finalizedHeights_concat.mpr (Or.inl ⟨by simp, hheight⟩))
  -- the heights of the run with the call are the old ones, and perhaps that of the call
  have hcases : ∀ height, height ∈ insert 0 (FinalizedHeights threshold n (ops ++ [.check call])) →
      height ≤ tracker.highestFinalizedHeight ∨
        (height = call.2.height ∧ Quorate threshold n (remembered ops ++ [call]) call.2.hash) := by
    rintro height (hzero | hheight)
    · exact Or.inl (h.2 (Or.inl hzero))
    · rcases mem_finalizedHeights_concat.mp hheight with ⟨-, hold⟩ | ⟨c, hc, hq, rfl⟩
      · exact Or.inl (h.2 (Or.inr hold))
      · rw [hcalls] at hc hq
        rcases quorate_check_cases hn hdet' hc hq with ⟨c', hc', hq', hheight'⟩ | ⟨hhash, hheight'⟩
        · rw [← hheight']
          exact Or.inl (h.2 (Or.inr (mem_finalizedHeights_of_quorate hc' hq')))
        · exact Or.inr ⟨hheight', hhash ▸ hq⟩
  rcases Highest.check_cases hrem.records hn call with ⟨hq, hlt, hheight, -⟩ | ⟨hstay, hheight, -⟩
  · rw [step, hheight]
    constructor
    · refine Or.inr (mem_finalizedHeights_of_quorate ?_ ?_)
      · rw [hcalls]
        exact List.mem_append_right _ (List.mem_singleton_self _)
      · rwa [hcalls]
    · intro height hmem
      rcases hcases height hmem with hle | ⟨rfl, -⟩
      · exact UInt64.le_of_lt (UInt64.lt_of_le_of_lt hle hlt)
      · exact UInt64.le_refl _
  · rw [step, hheight]
    refine ⟨hkeep _ h.1, fun height hmem => ?_⟩
    rcases hcases height hmem with hle | ⟨rfl, hq⟩
    · exact hle
    · rcases hstay hq with hold | hle
      · obtain ⟨c, hc, hhash⟩ := Quorate.exists_call hn hold
        have hsame : c.2.height = call.2.height :=
          hdet' c (List.mem_append_left _ hc) call
            (List.mem_append_right _ (List.mem_singleton_self _)) hhash
        rw [← hsame]
        exact h.2 (Or.inr (mem_finalizedHeights_of_quorate hc (by rwa [hhash])))
      · exact hle

theorem isGreatest_prune {ops : List Op} {minHeight : BlockHeight}
    (h : IsGreatest (insert 0 (FinalizedHeights threshold n ops)) tracker.highestFinalizedHeight) :
    IsGreatest (insert 0 (FinalizedHeights threshold n (ops ++ [.prune minHeight])))
      (step n tracker (.prune minHeight)).highestFinalizedHeight := by
  have hsame : FinalizedHeights threshold n (ops ++ [.prune minHeight]) =
      FinalizedHeights threshold n ops := by
    ext height
    rw [mem_finalizedHeights_concat]
    constructor
    · rintro (⟨-, hold⟩ | ⟨call, hcall, hq, rfl⟩)
      · exact hold
      · rw [remembered_concat] at hcall hq
        exact mem_finalizedHeights_of_quorate (List.mem_of_mem_filter hcall)
          (hq.mono fun c hc => List.mem_of_mem_filter hc)
    · intro hold
      exact Or.inl ⟨by simp, hold⟩
  rwa [hsame]

theorem isGreatest_clear {ops : List Op} :
    IsGreatest (insert 0 (FinalizedHeights threshold n (ops ++ [.clear])))
      (step n tracker .clear).highestFinalizedHeight := by
  refine ⟨Or.inl rfl, ?_⟩
  rintro height (hzero | hheight)
  · rw [hzero]
    exact UInt64.le_refl _
  · rcases mem_finalizedHeights_concat.mp hheight with ⟨hop, -⟩ | ⟨call, hcall, -⟩
    · exact absurd rfl hop
    · rw [remembered_concat] at hcall
      cases hcall

theorem isGreatest_runOps (hn : 1 ≤ n) (threshold : F) {ops : List Op}
    (hdet : HashDeterminesHeight (checks ops)) :
    IsGreatest (insert 0 (FinalizedHeights threshold n ops))
      (runOps threshold n ops).highestFinalizedHeight := by
  induction ops using List.reverseRecOn with
  | nil =>
      refine ⟨Or.inl rfl, ?_⟩
      rintro height (hzero | ⟨before, after, hops, -, call, hcall, -⟩)
      · rw [hzero]
        exact UInt64.le_refl _
      · rw [(List.append_eq_nil_iff.mp hops.symm).1] at hcall
        cases hcall
  | append_singleton ops op ih =>
      have h := ih hdet.of_concat
      rw [runOps, Runs.run_concat]
      cases op with
      | check call => exact isGreatest_check hn hdet (remembers_runOps hn threshold hdet.of_concat) h
      | prune minHeight => exact isGreatest_prune h
      | clear => exact isGreatest_clear

/-- Nothing above the highest finalized block is pruned. -/
def NotAbove (tracker : FinalityTracker F) (op : Op) : Prop :=
  ∀ minHeight, op = .prune minHeight → minHeight ≤ tracker.highestFinalizedHeight

variable (threshold n calls tracker) in
/-- The highest finalized block is among the remembered ones. -/
def HighestKept : Prop :=
  0 < tracker.highestFinalizedHeight → ∃ call ∈ calls, Quorate threshold n calls call.2.hash ∧
    call.2.height = tracker.highestFinalizedHeight ∧ call.2.hash = tracker.highestFinalizedHash

theorem HighestKept.step (hn : 1 ≤ n) (hr : Records threshold n calls tracker)
    (hdet : HashDeterminesHeight calls) {op : Op} (habove : NotAbove tracker op)
    (h : HighestKept threshold n calls tracker) :
    HighestKept threshold n (remember calls op) (step n tracker op) := by
  cases op with
  | check call =>
      intro hpos
      rcases Highest.check_cases hr hn call with ⟨hq, -, hheight, hhash⟩ | ⟨-, hheight, hhash⟩
      · exact ⟨call, by simp [remember], hq, hheight.symm, hhash.symm⟩
      · rw [FinalityTracker.step, hheight] at hpos
        obtain ⟨c, hc, hq, hcheight, hchash⟩ := h hpos
        refine ⟨c, List.mem_append_left _ hc, ?_, hcheight.trans hheight.symm,
          hchash.trans hhash.symm⟩
        exact hq.mono fun c hc => List.mem_append_left _ hc
  | prune minHeight =>
      intro hpos
      obtain ⟨c, hc, hq, hcheight, hchash⟩ := h hpos
      have hkept : minHeight ≤ c.2.height := by
        rw [hcheight]
        exact habove minHeight rfl
      refine ⟨c, List.mem_filter.mpr ⟨hc, decide_eq_true hkept⟩, ?_, hcheight, hchash⟩
      rwa [Quorate, signersOf_prune hdet hc hkept]
  | clear => exact fun hpos => absurd hpos (UInt64.lt_irrefl 0)

theorem highestKept_runOps (hn : 1 ≤ n) (threshold : F) {ops : List Op}
    (hdet : HashDeterminesHeight (checks ops))
    (habove : Runs.Along (step n) NotAbove (new threshold) ops) :
    HighestKept threshold n (remembered ops) (runOps threshold n ops) := by
  induction ops using List.reverseRecOn with
  | nil => exact fun hpos => absurd hpos (UInt64.lt_irrefl 0)
  | append_singleton ops op ih =>
      rw [Runs.along_concat] at habove
      rw [remembered_concat, runOps, Runs.run_concat]
      exact (ih hdet.of_concat habove.1).step hn
        (remembers_runOps hn threshold hdet.of_concat).records hdet.of_concat.remembered habove.2

/-- **The highest finalized block.**  After any run its height is the greatest that was
finalized since the tracker was last cleared, pruned or not; and if nothing above it was ever
pruned, it is known and finalized. -/
theorem highest_run (hn : 1 ≤ n) (threshold : F) {ops : List Op}
    (hdet : HashDeterminesHeight (checks ops)) :
    IsGreatest (insert 0 (FinalizedHeights threshold n ops))
      (runOps threshold n ops).highestFinalizedHeight ∧
    (Runs.Along (step n) NotAbove (new threshold) ops →
      0 < (runOps threshold n ops).highestFinalizedHeight →
      ∃ info, (runOps threshold n ops).getFinalityInfo
          (runOps threshold n ops).highestFinalizedHash = some info ∧
        info.isFinalized = true ∧
        info.height = (runOps threshold n ops).highestFinalizedHeight) := by
  refine ⟨isGreatest_runOps hn threshold hdet, fun habove hpos => ?_⟩
  have hrem := remembers_runOps hn threshold hdet
  obtain ⟨call, hcall, hq, hheight, hhash⟩ := highestKept_runOps hn threshold hdet habove hpos
  rw [getFinalityInfo, ← hhash]
  cases hsome : (runOps threshold n ops).finalityMap.lookup call.2.hash with
  | none => exact absurd rfl (hrem.records.unseen _ hsome call hcall)
  | some info =>
      obtain ⟨c, hc, hchash, hcheight⟩ := hrem.height _ info hsome
      refine ⟨info, rfl, ((hrem.records.seen _ info hsome).2).mpr hq, ?_⟩
      rw [← hcheight, ← hheight]
      exact hdet.remembered c hc call hcall hchash

end

section
open Reference (signedNext)

theorem highest_signedNext :
    (check 1 (new (67 / 100 : Rat)) (2000, signedNext)).highestFinalizedHeight = 1 := by
  decide +kernel

/-- The same, but the block is not pruned. -/
theorem highest_run_kept :
    ∃ info, (runOps (67 / 100 : Rat) 1 [.check (2000, signedNext), .prune 1]).getFinalityInfo
        (runOps (67 / 100 : Rat) 1 [.check (2000, signedNext), .prune 1]).highestFinalizedHash =
          some info ∧
      info.isFinalized = true ∧
      info.height =
        (runOps (67 / 100 : Rat) 1 [.check (2000, signedNext), .prune 1]).highestFinalizedHeight := by
  have habove : Runs.Along (step 1) NotAbove (new (67 / 100 : Rat))
      [.check (2000, signedNext), .prune 1] := by
    refine ⟨?_, ?_, trivial⟩
    · intro minHeight h
      cases h
    · intro minHeight h
      cases h
      exact UInt64.le_of_eq highest_signedNext.symm
  have hdet : HashDeterminesHeight (checks [.check (2000, signedNext), .prune 1]) :=
    hashDeterminesHeight_singleton _
  refine (highest_run le_rfl _ hdet).2 habove ?_
  show 0 < (check 1 (new (67 / 100 : Rat)) (2000, signedNext)).highestFinalizedHeight
  rw [highest_signedNext]
  decide

end

end FinalityTracker

end VotingChain
