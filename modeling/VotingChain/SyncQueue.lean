/-
# `VotingChain.SyncQueue` — the blocks that came and the blocks that were counted

The queue of a node between `handle_block_response`, which appends to it, and
`get_next_block`, which takes from its front; and the number that `status` shows.

    queue          returned ++ queue = received, whatever the calls
    synced_blocks  += length of the queue, at every response

So a response is counted right only where nothing was left of those before it.  A node that is
slower to take its blocks than its peers are to send them counts the same blocks again and
again (`counted_iff`).
-/
import VotingChain.Sync

namespace VotingChain

/-- What `status` shows, without its two estimates in floating point: the speed and the time
when the sync will be complete. -/
structure SyncStatus where
  state : SyncState
  currentHeight : BlockHeight
  targetHeight : BlockHeight
  startHeight : BlockHeight
  syncedBlocks : UInt64
  pendingRequests : Nat
  activePeers : Nat
  startedAt : Option Timestamp

namespace BlockSync

def pendingBlockCount (sync : BlockSync) : Nat := sync.receivedBlocks.length

def status (sync : BlockSync) : SyncStatus where
  state := sync.state
  currentHeight := sync.currentHeight
  targetHeight := sync.targetHeight
  startHeight := sync.startHeight
  syncedBlocks := sync.syncedBlocks
  pendingRequests := sync.pendingRequests.keys.card
  activePeers := 0
  startedAt := sync.syncStartTime

end BlockSync

/-- A call on the queue. -/
inductive QueueCall
  | handleBlockResponse (response : BlockResponse)
  | getNextBlock

/-- The protocol, with the blocks it has handed out and all blocks that have come. -/
structure QueueHistory where
  sync : BlockSync
  returned : List Block
  received : List Block

namespace QueueHistory

def start (batchSize timeout : UInt64) : QueueHistory :=
  ⟨(BlockSync.new batchSize).withTimeout timeout, [], []⟩

def step (s : QueueHistory) : QueueCall → QueueHistory
  | .handleBlockResponse response =>
      { s with
        sync := (BlockSync.handleBlockResponse response).next s.sync
        received := s.received ++ response.blocks }
  | .getNextBlock =>
      match BlockSync.getNextBlock.exec s.sync with
      | (.ok block, sync) => { s with sync, returned := s.returned ++ block.toList }
      | (.error _, _) => s

/-- What was handed out and what is still there is what has come, in the same order. -/
def Ordered (s : QueueHistory) : Prop := s.returned ++ s.sync.receivedBlocks = s.received

/-- The number that `status` shows is how many blocks have come. -/
def Counted (s : QueueHistory) : Prop := s.sync.status.syncedBlocks.toNat = s.received.length

/-- The response finds nothing in the queue, and the count stays below `2 ^ 64`. -/
def FindsEmpty (s : QueueHistory) : QueueCall → Prop
  | .handleBlockResponse response =>
      s.sync.receivedBlocks = [] ∧ s.received.length + response.blocks.length < 2 ^ 64
  | .getNextBlock => True

/-! ## One call -/

theorem step_handleBlockResponse (s : QueueHistory) (response : BlockResponse) :
    (s.step (.handleBlockResponse response)).returned = s.returned ∧
      (s.step (.handleBlockResponse response)).received = s.received ++ response.blocks ∧
      (s.step (.handleBlockResponse response)).sync.receivedBlocks =
        s.sync.receivedBlocks ++ response.blocks ∧
      (s.step (.handleBlockResponse response)).sync.syncedBlocks = s.sync.syncedBlocks +
        UInt64.ofNat (s.sync.receivedBlocks ++ response.blocks).length := by
  have hsync : (s.step (.handleBlockResponse response)).sync = s.sync.respond response := rfl
  rw [hsync, BlockSync.respond_eq]
  exact ⟨rfl, rfl, rfl, rfl⟩

theorem step_getNextBlock (s : QueueHistory) :
    s.step .getNextBlock =
      { s with
        sync := { s.sync with receivedBlocks := s.sync.receivedBlocks.tail }
        returned := s.returned ++ s.sync.receivedBlocks.head?.toList } := rfl

theorem toList_head?_append_tail {α : Type} (xs : List α) : xs.head?.toList ++ xs.tail = xs := by
  cases xs with
  | nil => rfl
  | cons x xs => rfl

theorem ordered_step {s : QueueHistory} (h : s.Ordered) (call : QueueCall) :
    (s.step call).Ordered := by
  rw [Ordered] at h ⊢
  cases call with
  | handleBlockResponse response =>
      obtain ⟨hreturned, hreceived, hqueue, -⟩ := step_handleBlockResponse s response
      rw [hreturned, hreceived, hqueue, ← List.append_assoc, h]
  | getNextBlock =>
      rw [step_getNextBlock, List.append_assoc, toList_head?_append_tail, h]

theorem pendingBlockCount_of_ordered {s : QueueHistory} (h : s.Ordered) :
    s.returned.length + s.sync.pendingBlockCount = s.received.length := by
  rw [← show _ = s.received from h, List.length_append]
  rfl

/-- A counter that was right is right after a response exactly if there was nothing else to
count. -/
theorem counted_handleBlockResponse_iff {s : QueueHistory} (hordered : s.Ordered)
    (hcounted : s.Counted) (response : BlockResponse) :
    (s.step (.handleBlockResponse response)).Counted ↔
      s.FindsEmpty (.handleBlockResponse response) := by
  obtain ⟨-, hreceived, -, hsynced⟩ := step_handleBlockResponse s response
  have hbefore : s.sync.syncedBlocks.toNat = s.received.length := hcounted
  have hqueue := pendingBlockCount_of_ordered hordered
  rw [BlockSync.pendingBlockCount] at hqueue
  have hlt := s.sync.syncedBlocks.toNat_lt
  have hsum : (s.step (.handleBlockResponse response)).sync.status.syncedBlocks.toNat =
      (s.received.length + (s.sync.receivedBlocks.length + response.blocks.length)) %
        2 ^ 64 := by
    rw [BlockSync.status, hsynced, UInt64.toNat_add, UInt64.toNat_ofNat', hbefore,
      List.length_append, Nat.add_mod_mod]
  rw [Counted, hsum, hreceived, List.length_append, FindsEmpty, ← List.length_eq_zero_iff]
  constructor
  · intro heq
    have hfits := Nat.mod_lt (s.received.length +
      (s.sync.receivedBlocks.length + response.blocks.length)) (Nat.two_pow_pos 64)
    omega
  · rintro ⟨hnil, hfits⟩
    rw [hnil, Nat.zero_add, Nat.mod_eq_of_lt hfits]

theorem counted_step_iff {s : QueueHistory} (hordered : s.Ordered) (hcounted : s.Counted)
    (call : QueueCall) : (s.step call).Counted ↔ s.FindsEmpty call := by
  cases call with
  | handleBlockResponse response =>
      exact counted_handleBlockResponse_iff hordered hcounted response
  | getNextBlock => exact iff_of_true hcounted trivial

/-! ## Runs -/

theorem ordered_start (batchSize timeout : UInt64) : (start batchSize timeout).Ordered := rfl

theorem counted_start (batchSize timeout : UInt64) : (start batchSize timeout).Counted := rfl

/-- **No block is lost and none comes twice**, in any run; **and they are counted** in exactly
the runs in which every response finds the queue empty. -/
theorem counted_iff (batchSize timeout : UInt64) (calls : List QueueCall) :
    Runs.Visits step Ordered (start batchSize timeout) calls ∧
      (Runs.Visits step (fun s => s.Ordered ∧ s.Counted) (start batchSize timeout) calls ↔
        Runs.Along step FindsEmpty (start batchSize timeout) calls) := by
  constructor
  · exact Runs.visits_of_invariant (I := Ordered) (fun _ h => h) (fun _ call h => ordered_step h call)
      (ordered_start batchSize timeout) calls
  · refine Runs.visits_iff_along (fun _ h => h) ?_ ?_
      ⟨ordered_start batchSize timeout, counted_start batchSize timeout⟩
    · intro s call h hempty
      exact ⟨ordered_step h.1 call, (counted_step_iff h.1 h.2 call).mpr hempty⟩
    · intro s call h hnext
      exact (counted_step_iff h.1 h.2 call).mp hnext.2

section
open Reference (blockOfHeight)

/-- Two responses with a block each, and none taken: three blocks are counted. -/
theorem counted_again :
    ¬Runs.Visits step (fun s => s.Ordered ∧ s.Counted) (start 100 30)
      [.handleBlockResponse ⟨[blockOfHeight 1], 1, 2⟩,
        .handleBlockResponse ⟨[blockOfHeight 2], 2, 3⟩] ∧
    ((Runs.run step (start 100 30)
      [.handleBlockResponse ⟨[blockOfHeight 1], 1, 2⟩,
        .handleBlockResponse ⟨[blockOfHeight 2], 2, 3⟩]).sync.status.syncedBlocks = 3) := by
  constructor
  · rintro ⟨-, -, -, h⟩
    have hthree : (3 : UInt64).toNat = 2 := h
    exact absurd hthree (by decide)
  · rfl

end

end QueueHistory

end VotingChain
