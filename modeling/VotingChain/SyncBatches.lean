/-
# `VotingChain.SyncBatches` — the loop that asks for a range in batches

`request_blocks` goes from the start of the range to its end in steps of the batch size, which
is whatever the configuration says.

    batch_end := min(current + batch_size, end)      on u64, the sum wraps around
    request_block_batch(current, batch_end)          a failure is only logged
    current := batch_end

With a batch size of zero it does not get off the first height and asks for the same empty
range without end.  With any other, the batches cut the range as they should as long as no sum
wraps around, and the largest sum is the end of the last batch at its full size
(`Batches.lastEnd`).
-/
import VotingChain.Lib.Batches
import VotingChain.Lib.Runs
import VotingChain.Sync

namespace VotingChain

namespace SyncNet

/-- The request for one batch, whatever comes of it. -/
def request (C : BlockRequest → Except String Bytes) (peers : List PeerRef) (s : SyncNet)
    (batch : BlockHeight × BlockHeight) : SyncNet :=
  (BlockSync.requestBlockBatch C batch.1 batch.2 peers).next s

end SyncNet

namespace BlockSync
open SyncNet (request)

/-- The two ends of a batch, as numbers. -/
def numbers (batch : BlockHeight × BlockHeight) : Nat × Nat := (batch.1.toNat, batch.2.toNat)

/-- The call comes to an end, and what it has done is to ask for these ranges, which the loop
came to. -/
structure AsksFor (C : BlockRequest → Except String Bytes) (startHeight endHeight : BlockHeight)
    (peers : List PeerRef) (s : SyncNet) (ranges : List (BlockHeight × BlockHeight)) : Prop where
  ends : (requestBlocks C startHeight endHeight peers).exec s =
    (.ok (some ()), Runs.run (request C peers) (s.started startHeight endHeight) ranges)
  batches : batches s.sync.batchSize endHeight (2 ^ 64 + 1) startHeight = some ranges

/-- The ranges cut `[start, end)` into batches, and no sum has wrapped around. -/
structure CutUp (batchSize : UInt64) (startHeight endHeight : BlockHeight)
    (ranges : List (BlockHeight × BlockHeight)) : Prop where
  cuts : Batches.Cuts batchSize.toNat startHeight.toNat endHeight.toNat (ranges.map numbers)
  covers : ∀ height, (∃ r ∈ ranges, r.1 ≤ height ∧ height < r.2) ↔
    startHeight ≤ height ∧ height < endHeight
  disjoint : ranges.Pairwise fun r r' => r.2 ≤ r'.1
  fits : ∀ r ∈ ranges, r.1.toNat + batchSize.toNat < 2 ^ 64

/-! ## The batches -/

section
variable {batchSize : UInt64} {endHeight : BlockHeight}

theorem min_eq_ite (m n : UInt64) : min m n = if m ≤ n then m else n := rfl

theorem batches_zero {current : BlockHeight} (h : current < endHeight) (fuel : Nat) :
    batches 0 endHeight fuel current = none := by
  have hstay : min (current + 0) endHeight = current := by
    rw [UInt64.add_zero, min_eq_ite, if_pos (UInt64.le_of_lt h)]
  induction fuel with
  | zero => rfl
  | succ fuel ih =>
      rw [batches, if_pos h, hstay]
      simp only [ih, Option.map_none]

theorem toNat_batchEnd (endHeight : BlockHeight) {current : BlockHeight}
    (h : current.toNat + batchSize.toNat < 2 ^ 64) :
    (min (current + batchSize) endHeight).toNat = current.toNat + batchSize.toNat ∧
        current.toNat + batchSize.toNat ≤ endHeight.toNat ∨
      (min (current + batchSize) endHeight).toNat = endHeight.toNat ∧
        endHeight.toNat < current.toNat + batchSize.toNat := by
  have hsum : (current + batchSize).toNat = current.toNat + batchSize.toNat := by
    rw [UInt64.toNat_add, Nat.mod_eq_of_lt h]
  rcases Nat.lt_or_ge endHeight.toNat (current.toNat + batchSize.toNat) with hlt | hge
  · refine Or.inr ⟨?_, hlt⟩
    rw [min_eq_ite, if_neg]
    rw [UInt64.le_iff_toNat_le, hsum]
    exact Nat.not_le.mpr hlt
  · refine Or.inl ⟨?_, hge⟩
    rw [min_eq_ite, if_pos, hsum]
    rw [UInt64.le_iff_toNat_le, hsum]
    exact hge

/-- What is left after a batch ends no later than the whole, and with it where the batch is
cut short. -/
theorem lastEnd_batchEnd {current : BlockHeight} (hsize : 0 < batchSize.toNat)
    (hlt : current.toNat < endHeight.toNat) (h : current.toNat + batchSize.toNat < 2 ^ 64) :
    Batches.lastEnd batchSize.toNat current.toNat endHeight.toNat < 2 ^ 64 ↔
      Batches.lastEnd batchSize.toNat (min (current + batchSize) endHeight).toNat
        endHeight.toNat < 2 ^ 64 := by
  rcases toNat_batchEnd endHeight h with ⟨hend, hle⟩ | ⟨hend, hshort⟩
  · rw [hend, Batches.lastEnd_add hsize hle]
  · rw [hend, Batches.lastEnd_self hsize, Batches.lastEnd_of_le hlt (Nat.le_of_lt hshort)]
    exact iff_of_true h endHeight.toNat_lt

theorem fits_of_lastEnd {current : BlockHeight}
    (hlt : current.toNat < endHeight.toNat)
    (h : Batches.lastEnd batchSize.toNat current.toNat endHeight.toNat < 2 ^ 64) :
    current.toNat + batchSize.toNat < 2 ^ 64 := by
  rcases Nat.lt_or_ge endHeight.toNat (current.toNat + batchSize.toNat) with hshort | hle
  · rw [Batches.lastEnd_of_le hlt (Nat.le_of_lt hshort)] at h
    exact h
  · exact Nat.lt_of_le_of_lt hle endHeight.toNat_lt

/-- If the last sum fits, the loop cuts the range, one round for each batch and there are no
more of these than heights. -/
theorem exists_batches (hsize : 0 < batchSize.toNat) {fuel : Nat} {current : BlockHeight}
    (hle : current.toNat ≤ endHeight.toNat) (hfuel : endHeight.toNat - current.toNat < fuel)
    (hlast : Batches.lastEnd batchSize.toNat current.toNat endHeight.toNat < 2 ^ 64) :
    ∃ ranges, batches batchSize endHeight fuel current = some ranges ∧
      Batches.Cuts batchSize.toNat current.toNat endHeight.toNat (ranges.map numbers) ∧
      ∀ r ∈ ranges, r.1.toNat + batchSize.toNat < 2 ^ 64 := by
  induction fuel generalizing current with
  | zero => exact absurd hfuel (Nat.not_lt_zero _)
  | succ fuel ih =>
      rw [batches]
      split
      · next hlt =>
          rw [UInt64.lt_iff_toNat_lt] at hlt
          have hfits := fits_of_lastEnd hlt hlast
          have hend := toNat_batchEnd endHeight hfits
          obtain ⟨rest, hrest, hcuts, hfitsRest⟩ := ih (by omega) (by omega)
            ((lastEnd_batchEnd hsize hlt hfits).mp hlast)
          have hfirst : current.toNat < (min (current + batchSize) endHeight).toNat := by omega
          have hsecond : (min (current + batchSize) endHeight).toNat ≤
              current.toNat + batchSize.toNat := by omega
          refine ⟨(current, min (current + batchSize) endHeight) :: rest, ?_, ?_, ?_⟩
          · simp only [hrest, Option.map_some]
          · exact Batches.Cuts.piece hfirst hsecond hcuts
          · exact List.forall_mem_cons.mpr ⟨hfits, hfitsRest⟩
      · next hge =>
          rw [UInt64.lt_iff_toNat_lt] at hge
          have hsame : current.toNat = endHeight.toNat := by omega
          refine ⟨[], rfl, ?_, List.forall_mem_nil _⟩
          rw [hsame]
          exact Batches.Cuts.done endHeight.toNat

theorem lastEnd_of_batches (hsize : 0 < batchSize.toNat) {fuel : Nat} {current : BlockHeight}
    {ranges : List (BlockHeight × BlockHeight)} (hle : current.toNat ≤ endHeight.toNat)
    (h : batches batchSize endHeight fuel current = some ranges)
    (hfits : ∀ r ∈ ranges, r.1.toNat + batchSize.toNat < 2 ^ 64) :
    Batches.lastEnd batchSize.toNat current.toNat endHeight.toNat < 2 ^ 64 := by
  induction fuel generalizing current ranges with
  | zero => cases h
  | succ fuel ih =>
      rw [batches] at h
      split at h
      · next hlt =>
          rw [UInt64.lt_iff_toNat_lt] at hlt
          obtain ⟨rest, hrest, rfl⟩ := Option.map_eq_some_iff.mp h
          have hfirst : current.toNat + batchSize.toNat < 2 ^ 64 :=
            hfits (current, _) List.mem_cons_self
          have hfitsRest : ∀ r ∈ rest, r.1.toNat + batchSize.toNat < 2 ^ 64 :=
            fun r hr => hfits r (List.mem_cons_of_mem _ hr)
          have hend := toNat_batchEnd endHeight hfirst
          rw [lastEnd_batchEnd hsize hlt hfirst]
          exact ih (by omega) hrest hfitsRest
      · next hge =>
          rw [UInt64.lt_iff_toNat_lt] at hge
          have hsame : current.toNat = endHeight.toNat := by omega
          rw [hsame, Batches.lastEnd_self hsize]
          exact endHeight.toNat_lt

theorem cutUp_of_cuts {startHeight : BlockHeight} {ranges : List (BlockHeight × BlockHeight)}
    (hcuts : Batches.Cuts batchSize.toNat startHeight.toNat endHeight.toNat (ranges.map numbers))
    (hfits : ∀ r ∈ ranges, r.1.toNat + batchSize.toNat < 2 ^ 64) :
    CutUp batchSize startHeight endHeight ranges where
  cuts := hcuts
  covers := by
    intro height
    have hmem := hcuts.mem_iff height.toNat
    simp only [List.mem_map, exists_exists_and_eq_and, numbers] at hmem
    simp only [UInt64.le_iff_toNat_le, UInt64.lt_iff_toNat_lt]
    exact hmem
  disjoint := by
    have hpairwise := List.pairwise_map.mp hcuts.pairwise
    refine hpairwise.imp ?_
    intro r r' hle
    exact UInt64.le_iff_toNat_le.mpr hle
  fits := hfits

end

/-! ## The loop -/

section
variable {C : BlockRequest → Except String Bytes} {peers : List PeerRef}

theorem exec_request (peers : List PeerRef) (first last : BlockHeight) (s : SyncNet) :
    ∃ ok, (requestBlockBatch C first last peers).isOk.exec s =
        (.ok ok, request C peers s (first, last)) ∧
      (request C peers s (first, last)).sync.batchSize = s.sync.batchSize := by
  obtain ⟨ok, s', hexec, hrequests⟩ := exec_requestBlockBatch (C := C) first last peers s
  have hnext : request C peers s (first, last) = s' := by
    rw [Exec.exec_isOk] at hexec
    rcases hbatch : (requestBlockBatch C first last peers).exec s with ⟨r, s₁⟩
    rw [hbatch] at hexec
    rcases r with (e | _) | u
    · rw [request, Exec.next, hbatch]
      exact (Prod.mk.inj hexec).2
    · cases hexec
    · rw [request, Exec.next, hbatch]
      exact (Prod.mk.inj hexec).2
  rw [hnext]
  exact ⟨ok, hexec, hrequests.progress.batchSize⟩

theorem exec_requestLoop_of_batches {endHeight : BlockHeight} {fuel : Nat}
    {current : BlockHeight} {s : SyncNet} {ranges : List (BlockHeight × BlockHeight)}
    (h : batches s.sync.batchSize endHeight fuel current = some ranges) :
    (requestLoop C endHeight peers fuel current).exec s =
      (.ok (some ()), Runs.run (request C peers) s ranges) := by
  induction fuel generalizing current s ranges with
  | zero => cases h
  | succ fuel ih =>
      rw [batches] at h
      rw [requestLoop]
      split at h
      · next hlt =>
          obtain ⟨rest, hrest, rfl⟩ := Option.map_eq_some_iff.mp h
          obtain ⟨ok, hexec, hsize⟩ := exec_request (C := C) peers current
            (min (current + s.sync.batchSize) endHeight) s
          rw [if_pos hlt, Exec.exec_get_bind, Exec.exec_bind, hexec, Runs.run_cons]
          refine ih ?_
          rw [hsize]
          exact hrest
      · next hge =>
          obtain rfl := Option.some.inj h
          rw [if_neg hge]
          rfl

end

/-- **When the loop covers the range.**  It comes to an end with batches that cut the range, and
without a sum that wraps around, exactly if there is a batch size and the last batch at its full
size would still end below `2 ^ 64`. -/
theorem covers_iff (C : BlockRequest → Except String Bytes) {startHeight endHeight : BlockHeight}
    (h : startHeight < endHeight) (peers : List PeerRef) (s : SyncNet) :
    (∃ ranges, AsksFor C startHeight endHeight peers s ranges ∧
        CutUp s.sync.batchSize startHeight endHeight ranges) ↔
      s.sync.batchSize ≠ 0 ∧
        Batches.lastEnd s.sync.batchSize.toNat startHeight.toNat endHeight.toNat < 2 ^ 64 := by
  have hle : startHeight.toNat ≤ endHeight.toNat := Nat.le_of_lt (UInt64.lt_iff_toNat_lt.mp h)
  constructor
  · rintro ⟨ranges, hasks, hcut⟩
    have hne : s.sync.batchSize ≠ 0 := by
      intro hzero
      have hnone := hasks.batches
      rw [hzero, batches_zero h] at hnone
      cases hnone
    exact ⟨hne, lastEnd_of_batches (UInt64.pos_iff_ne_zero.mpr hne) hle hasks.batches hcut.fits⟩
  · rintro ⟨hne, hlast⟩
    have hfuel : endHeight.toNat - startHeight.toNat < 2 ^ 64 + 1 := by
      have hlt := endHeight.toNat_lt
      omega
    obtain ⟨ranges, hranges, hcuts, hfits⟩ :=
      exists_batches (UInt64.pos_iff_ne_zero.mpr hne) hle hfuel hlast
    refine ⟨ranges, ⟨?_, hranges⟩, cutUp_of_cuts hcuts hfits⟩
    rw [requestBlocks, Exec.exec_ensure_bind (decide_eq_true h)]
    exact exec_requestLoop_of_batches (s := s.started startHeight endHeight) hranges

section
open Reference (encodeBlockRequest syncNet)

theorem covers_iff_two :
    ∃ ranges, AsksFor encodeBlockRequest 0 2 [0] syncNet ranges ∧ CutUp 1 0 2 ranges :=
  (covers_iff encodeBlockRequest (by decide) [0] syncNet).mpr ⟨by decide, by decide⟩

/-- A node that was given a batch size of zero asks for one block and is never done; near the
end of the heights a size of three is too large. -/
theorem uncovered_without_size_and_near_the_end :
    (((requestBlocks encodeBlockRequest 0 1 [0]).exec { syncNet with sync := BlockSync.new 0 }).1 =
        .ok none ∧
      ∀ fuel, batches 0 1 fuel 0 = none) ∧
    (0 : BlockHeight) < 1 ∧
    ¬(∃ ranges,
      AsksFor encodeBlockRequest 0 1 [0] { syncNet with sync := BlockSync.new 0 } ranges ∧
        CutUp 0 0 1 ranges) ∧
    (18446744073709551613 : BlockHeight) < 18446744073709551615 ∧
    ¬(∃ ranges,
      AsksFor encodeBlockRequest 18446744073709551613 18446744073709551615 [0]
          { syncNet with sync := BlockSync.new 3 } ranges ∧
        CutUp 3 18446744073709551613 18446744073709551615 ranges) := by
  have hlt : (0 : BlockHeight) < 1 := by decide
  refine ⟨⟨?_, batches_zero hlt⟩, hlt, ?_, by decide, ?_⟩
  · obtain ⟨s', hexec, -⟩ := exec_requestBlocks (C := encodeBlockRequest) hlt [0]
      { syncNet with sync := BlockSync.new 0 }
    rw [hexec]
    show Except.ok ((batches 0 1 (2 ^ 64 + 1) 0).map fun _ => ()) = _
    rw [batches_zero hlt]
    rfl
  · rintro ⟨ranges, hasks, -⟩
    have hnone := hasks.batches
    rw [show BlockSync.batchSize _ = 0 from rfl, batches_zero hlt] at hnone
    cases hnone
  · rintro ⟨ranges, hasks, hcut⟩
    have hlast := lastEnd_of_batches (by decide) (by decide) hasks.batches hcut.fits
    exact absurd hlast (by decide)

end

end BlockSync

end VotingChain
