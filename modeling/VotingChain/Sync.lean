/-
# `VotingChain.Sync` — fetching blocks from peers

The model of `network/src/sync.rs`.  Blocks that are missing are asked for in batches, each
from some connected peer; what the peers answer goes into a queue; and a counter says how far
the node has come.

    request_blocks(s, e)      current := s, target := e; one request for each batch of [s, e)
    handle_block_response     append to the queue; current := height of its last block
    process_syncing           done if current ≥ target
    check_timeouts            drop the requests that are too old

The batches are half-open, and `current` is the height of a block that is there.  So the
answers to all requests leave it at `e - 1`, one short of the target, and a block of height
`e` ends the sync whatever is missing (`synced_iff_received_iff`).

**The loop** of `request_blocks` goes on until `current` is `end_height`, and with a batch
size of zero, or where the end of a batch wraps around, it may go on for ever.  If it comes to
an end, it does so in fewer than `2 ^ 64` rounds (`batches_of_some`), and it is given up after
that many.
-/
import VotingChain.Lib.Maps
import VotingChain.Protocol

namespace VotingChain

/-- Blockchain synchronization state. -/
inductive SyncState
  | idle
  | syncing
  | catching
  | synced
  | failed
  deriving DecidableEq

/-- Block sync request tracking. -/
structure SyncRequest where
  requestId : UInt64
  peerId : PeerId
  startHeight : BlockHeight
  endHeight : BlockHeight
  requestedAt : Timestamp
  timeout : UInt64
  deriving DecidableEq

/-- The age of the request is cut off at zero; `now` is what the clock says. -/
def SyncRequest.isTimedOut (now : Timestamp) (request : SyncRequest) : Bool :=
  decide (request.timeout.toNat < now.toNat - request.requestedAt.toNat)

/-- Block synchronization protocol. -/
structure BlockSync where
  batchSize : UInt64
  state : SyncState
  currentHeight : BlockHeight
  targetHeight : BlockHeight
  startHeight : BlockHeight
  pendingRequests : Finmap fun _ : UInt64 => SyncRequest
  receivedBlocks : List Block
  nextRequestId : UInt64
  requestTimeout : UInt64
  syncStartTime : Option Timestamp
  syncedBlocks : UInt64

namespace BlockSync

def new (batchSize : UInt64) : BlockSync where
  batchSize := batchSize
  state := .idle
  currentHeight := 0
  targetHeight := 0
  startHeight := 0
  pendingRequests := ∅
  receivedBlocks := []
  nextRequestId := 0
  requestTimeout := 30
  syncStartTime := none
  syncedBlocks := 0

def withTimeout (sync : BlockSync) (timeout : UInt64) : BlockSync :=
  { sync with requestTimeout := timeout }

def completeSync : Exec BlockSync Unit :=
  modify fun sync => { sync with state := .synced }

def processSyncing : Exec BlockSync Unit := do
  let sync ← get
  if sync.targetHeight ≤ sync.currentHeight then
    completeSync
  else
    pure ()

/-- The counter grows by the length of the whole queue. -/
def handleBlockResponse (response : BlockResponse) : Exec BlockSync Unit := do
  modify fun sync => { sync with receivedBlocks := sync.receivedBlocks ++ response.blocks }
  modify fun sync =>
    { sync with syncedBlocks := sync.syncedBlocks + UInt64.ofNat sync.receivedBlocks.length }
  match (← get).receivedBlocks.getLast? with
  | some lastBlock => modify fun sync => { sync with currentHeight := lastBlock.height }
  | none => pure ()

def getNextBlock : Exec BlockSync (Option Block) := do
  let sync ← get
  modify fun sync => { sync with receivedBlocks := sync.receivedBlocks.tail }
  pure sync.receivedBlocks.head?

/-- The clock is read once for each request; `now` is what it says then. -/
def checkTimeouts (now : UInt64 → Timestamp) : Exec BlockSync Unit :=
  modify fun sync =>
    { sync with
      pendingRequests := sync.pendingRequests.retain fun id request =>
        !request.isTimedOut (now id) }

end BlockSync

/-! ## Requests -/

/-- The protocol, the peers with the environment, and what is still to come from the random
choices: element `n mod k` of `k` is chosen. -/
structure SyncNet where
  sync : BlockSync
  net : GossipNet
  choices : Stream' Nat

namespace SyncNet

/-- A computation on the peers and the environment. -/
def onNet {α : Type} (m : Exec GossipNet α) : Exec SyncNet α := do
  Exec.on (← get).net (fun net s => { s with net }) m

/-- A change of the protocol's own state. -/
def modifySync (f : BlockSync → BlockSync) : Exec SyncNet Unit :=
  modify fun s => { s with sync := f s.sync }

end SyncNet

namespace BlockSync
open SyncNet (onNet modifySync)

def selectSyncPeer (peers : List PeerRef) : Exec SyncNet PeerRef := do
  let s ← get
  let connectedPeers := s.net.connectedPeers peers
  Exec.lift (ensure (!connectedPeers.isEmpty) (.networkError "No peers available"))
  modify fun s => { s with choices := s.choices.tail }
  match connectedPeers[s.choices.head % connectedPeers.length]? with
  | some peer => pure peer
  | none => Exec.lift (fail (.networkError "Failed to select peer"))

def drawRequestId : Exec SyncNet UInt64 := do
  let s ← get
  modifySync fun sync => { sync with nextRequestId := sync.nextRequestId + 1 }
  pure s.sync.nextRequestId

variable (C : BlockRequest → Except String Bytes)

/-- `C` is `bincode::serialize` on requests. -/
def requestBlockBatch (first last : BlockHeight) (peers : List PeerRef) : Exec SyncNet Unit := do
  let peer ← selectSyncPeer peers
  let requestId ← drawRequestId
  let request : BlockRequest := ⟨first, last, (← get).sync.batchSize⟩
  let payload ← Exec.lift (ofBincode (C request))
  let message ← onNet (Message.new .getBlocks payload)
  onNet (Peer.send peer message)
  let requestedAt ← onNet GossipNet.currentTimestamp
  let s ← get
  let syncRequest : SyncRequest :=
    ⟨requestId, (s.net.peer peer).id, first, last, requestedAt, s.sync.requestTimeout⟩
  modifySync fun sync =>
    { sync with pendingRequests := sync.pendingRequests.insert requestId syncRequest }

/-- The loop of `request_blocks`, for so many rounds; a request that fails is only logged. -/
def requestLoop (endHeight : BlockHeight) (peers : List PeerRef) :
    Nat → BlockHeight → Exec SyncNet (Option Unit)
  | 0, _ => pure none
  | fuel + 1, current => do
      if current < endHeight then
        let s ← get
        let batchEnd := min (current + s.sync.batchSize) endHeight
        let _ ← (requestBlockBatch C current batchEnd peers).isOk
        requestLoop endHeight peers fuel batchEnd
      else
        pure (some ())

/-- `none`: the call does not come to an end. -/
def requestBlocks (startHeight endHeight : BlockHeight) (peers : List PeerRef) :
    Exec SyncNet (Option Unit) := do
  Exec.lift (ensure (decide (startHeight < endHeight)) (.networkError "Invalid block range"))
  let now ← onNet GossipNet.currentTimestamp
  modifySync fun sync =>
    { sync with
      state := .syncing
      currentHeight := startHeight
      targetHeight := endHeight
      startHeight := startHeight
      syncStartTime := some now }
  requestLoop C endHeight peers (2 ^ 64 + 1) startHeight

/-! ## What the requests do -/

/-- What no request touches. -/
structure SameProgress (sync sync' : BlockSync) : Prop where
  batchSize : sync'.batchSize = sync.batchSize
  state : sync'.state = sync.state
  currentHeight : sync'.currentHeight = sync.currentHeight
  targetHeight : sync'.targetHeight = sync.targetHeight
  startHeight : sync'.startHeight = sync.startHeight
  receivedBlocks : sync'.receivedBlocks = sync.receivedBlocks

theorem SameProgress.refl (sync : BlockSync) : SameProgress sync sync :=
  ⟨rfl, rfl, rfl, rfl, rfl, rfl⟩

theorem SameProgress.trans {sync₁ sync₂ sync₃ : BlockSync} (h : SameProgress sync₁ sync₂)
    (h' : SameProgress sync₂ sync₃) : SameProgress sync₁ sync₃ :=
  ⟨h'.batchSize.trans h.batchSize, h'.state.trans h.state,
    h'.currentHeight.trans h.currentHeight, h'.targetHeight.trans h.targetHeight,
    h'.startHeight.trans h.startHeight, h'.receivedBlocks.trans h.receivedBlocks⟩

/-- The ranges that the loop comes to, if it comes to an end in so many rounds. -/
def batches (batchSize : UInt64) (endHeight : BlockHeight) :
    Nat → BlockHeight → Option (List (BlockHeight × BlockHeight))
  | 0, _ => none
  | fuel + 1, current =>
      if current < endHeight then
        let batchEnd := min (current + batchSize) endHeight
        (batches batchSize endHeight fuel batchEnd).map fun rest => (current, batchEnd) :: rest
      else
        some []

section
variable {batchSize : UInt64} {endHeight : BlockHeight}

theorem isSome_batches {fuel : Nat} {current : BlockHeight} :
    (batches batchSize endHeight fuel current).isSome = true ↔
      ∃ k < fuel, ¬(fun height => min (height + batchSize) endHeight)^[k] current < endHeight := by
  induction fuel generalizing current with
  | zero =>
      refine iff_of_false nofun ?_
      rintro ⟨k, hk, -⟩
      exact Nat.not_lt_zero k hk
  | succ fuel ih =>
      rw [batches]
      split
      · next hlt =>
          rw [Option.isSome_map, ih]
          constructor
          · rintro ⟨k, hk, hend⟩
            exact ⟨k + 1, Nat.succ_lt_succ hk, hend⟩
          · rintro ⟨k, hk, hend⟩
            cases k with
            | zero => exact absurd hlt hend
            | succ k => exact ⟨k, Nat.lt_of_succ_lt_succ hk, hend⟩
      · next hge => exact iff_of_true rfl ⟨0, Nat.succ_pos fuel, hge⟩

theorem batches_of_le {fuel fuel' : Nat} {current : BlockHeight}
    {ranges : List (BlockHeight × BlockHeight)} (hle : fuel ≤ fuel')
    (h : batches batchSize endHeight fuel current = some ranges) :
    batches batchSize endHeight fuel' current = some ranges := by
  induction fuel generalizing fuel' current ranges with
  | zero => cases h
  | succ fuel ih =>
      cases fuel' with
      | zero => exact absurd hle (Nat.not_succ_le_zero fuel)
      | succ fuel' =>
          rw [batches] at h ⊢
          split
          · next hlt =>
              rw [if_pos hlt] at h
              obtain ⟨rest, hrest, rfl⟩ := Option.map_eq_some_iff.mp h
              exact congrArg (Option.map _) (ih (Nat.le_of_succ_le_succ hle) hrest)
          · next hge =>
              rw [if_neg hge] at h
              exact h

/-- Giving up after `2 ^ 64` rounds loses nothing: a loop that comes to an end has come to it
by then. -/
theorem batches_of_some {fuel : Nat} {current : BlockHeight}
    {ranges : List (BlockHeight × BlockHeight)}
    (h : batches batchSize endHeight fuel current = some ranges) :
    batches batchSize endHeight (2 ^ 64 + 1) current = some ranges := by
  obtain ⟨k, -, hend⟩ := isSome_batches.mp (Option.isSome_of_eq_some h)
  obtain ⟨j, hj, hend'⟩ := Runs.exists_iterate_lt
    (P := fun height => ¬height < endHeight)
    (fun _ _ => UInt64.toNat_inj.mp) UInt64.toNat_lt hend
  have hsome : (batches batchSize endHeight (2 ^ 64 + 1) current).isSome = true :=
    isSome_batches.mpr ⟨j, Nat.lt_succ_of_lt hj, hend'⟩
  obtain ⟨ranges', hranges'⟩ := Option.isSome_iff_exists.mp hsome
  rcases Nat.le_total fuel (2 ^ 64 + 1) with hle | hle
  · exact batches_of_le hle h
  · rw [batches_of_le hle hranges'] at h
    rw [hranges']
    exact h

end

end BlockSync

namespace SyncNet
open BlockSync (SameProgress)
variable (C : BlockRequest → Except String Bytes) (peers : List PeerRef)

/-- The request for a range gets into a channel, if `n` choices are made before its own. -/
def delivers (s : SyncNet) (n : Nat) (batch : BlockHeight × BlockHeight) : Bool :=
  (C ⟨batch.1, batch.2, s.sync.batchSize⟩).isOk &&
    let connectedPeers := s.net.connectedPeers peers
    connectedPeers[s.choices.get n % connectedPeers.length]?.any fun peer =>
      !(s.net.peer peer).receiverClosed

/-- A request was made for each of these ranges, in this order.  Those that were delivered are
pending, under ids that follow one another, and the other entries are what they were. -/
structure Requests (ranges : List (BlockHeight × BlockHeight)) (s s' : SyncNet) : Prop where
  progress : SameProgress s.sync s'.sync
  kept : ∀ id, (∀ n batch, ranges[n]? = some batch → s.delivers C peers n batch = true →
      id ≠ s.sync.nextRequestId + UInt64.ofNat n) →
    s'.sync.pendingRequests.lookup id = s.sync.pendingRequests.lookup id
  entered : ∀ n batch, ranges[n]? = some batch → s.delivers C peers n batch = true →
    ∃ request, s'.sync.pendingRequests.lookup (s.sync.nextRequestId + UInt64.ofNat n) =
        some request ∧
      request.startHeight = batch.1 ∧ request.endHeight = batch.2
  delivers : ∀ n batch, s'.delivers C peers n batch = s.delivers C peers (ranges.length + n) batch
  connectedPeers : s'.net.connectedPeers peers = s.net.connectedPeers peers
  nextRequestId : s.net.connectedPeers peers ≠ [] →
    s'.sync.nextRequestId = s.sync.nextRequestId + UInt64.ofNat ranges.length

variable {C peers}

theorem connected_of_delivers {s : SyncNet} {n : Nat} {batch : BlockHeight × BlockHeight}
    (h : s.delivers C peers n batch = true) : s.net.connectedPeers peers ≠ [] := by
  intro hnil
  rw [delivers, hnil] at h
  simp at h

/-- Ids that follow one another are different, as long as there are no more than there are
words. -/
theorem eq_of_add_ofNat_eq {id : UInt64} {m n : Nat} (hm : m < 2 ^ 64) (hn : n < 2 ^ 64)
    (h : id + UInt64.ofNat m = id + UInt64.ofNat n) : m = n := by
  have hnat := congrArg UInt64.toNat ((UInt64.add_right_inj id).mp h)
  rw [UInt64.toNat_ofNat', UInt64.toNat_ofNat', Nat.mod_eq_of_lt hm, Nat.mod_eq_of_lt hn] at hnat
  exact hnat

namespace Requests

theorem nil (s : SyncNet) : Requests C peers [] s s where
  progress := SameProgress.refl s.sync
  kept := fun _ _ => rfl
  entered := by
    intro n batch h
    cases h
  delivers := by
    intro n batch
    rw [List.length_nil, Nat.zero_add]
  connectedPeers := rfl
  nextRequestId := by
    intro _
    simp

theorem of_unconnected {s : SyncNet} (h : s.net.connectedPeers peers = [])
    (batch : BlockHeight × BlockHeight) : Requests C peers [batch] s s where
  progress := SameProgress.refl s.sync
  kept := fun _ _ => rfl
  entered := by
    intro n b _ hdelivers
    exact absurd h (connected_of_delivers hdelivers)
  delivers := by
    intro n b
    rw [SyncNet.delivers, SyncNet.delivers, h]
    rfl
  connectedPeers := rfl
  nextRequestId := fun hconnected => absurd h hconnected

theorem singleton {batch : BlockHeight × BlockHeight} {s s' : SyncNet}
    (hprogress : SameProgress s.sync s'.sync)
    (hnext : s'.sync.nextRequestId = s.sync.nextRequestId + 1)
    (hchoices : s'.choices = s.choices.tail)
    (hstatus : ∀ r, (s'.net.peer r).status = (s.net.peer r).status)
    (hreceiver : ∀ r, (s'.net.peer r).receiverClosed = (s.net.peer r).receiverClosed)
    (hundelivered : s.delivers C peers 0 batch = false →
      s'.sync.pendingRequests = s.sync.pendingRequests)
    (hdelivered : s.delivers C peers 0 batch = true →
      ∃ request, s'.sync.pendingRequests =
          s.sync.pendingRequests.insert s.sync.nextRequestId request ∧
        request.startHeight = batch.1 ∧ request.endHeight = batch.2) :
    Requests C peers [batch] s s' := by
  have hconnected : s'.net.connectedPeers peers = s.net.connectedPeers peers := by
    refine List.filter_congr ?_
    intro r _
    rw [Peer.isConnected, Peer.isConnected, hstatus]
  have hzero : s.sync.nextRequestId + UInt64.ofNat 0 = s.sync.nextRequestId :=
    UInt64.add_zero s.sync.nextRequestId
  refine ⟨hprogress, ?_, ?_, ?_, hconnected, fun _ => hnext⟩
  · intro id hid
    cases hdelivers : s.delivers C peers 0 batch with
    | false => rw [hundelivered hdelivers]
    | true =>
        obtain ⟨request, hinsert, -⟩ := hdelivered hdelivers
        have hne : id ≠ s.sync.nextRequestId := hzero ▸ hid 0 batch rfl hdelivers
        rw [hinsert, Finmap.lookup_insert_of_ne _ hne]
  · intro n b hb hdelivers
    cases n with
    | zero =>
        obtain rfl : batch = b := Option.some.inj hb
        obtain ⟨request, hinsert, hrequest⟩ := hdelivered hdelivers
        refine ⟨request, ?_, hrequest⟩
        rw [hzero, hinsert, Finmap.lookup_insert]
    | succ n => cases hb
  · intro n b
    rw [SyncNet.delivers, SyncNet.delivers, hconnected, hchoices, hprogress.batchSize,
      List.length_singleton, Nat.add_comm 1 n]
    simp only [hreceiver]
    rfl

theorem of_undelivered {batch : BlockHeight × BlockHeight} {s s' : SyncNet}
    (h : s.delivers C peers 0 batch = false) (hprogress : SameProgress s.sync s'.sync)
    (hnext : s'.sync.nextRequestId = s.sync.nextRequestId + 1)
    (hchoices : s'.choices = s.choices.tail) (hpeer : s'.net.peer = s.net.peer)
    (hpending : s'.sync.pendingRequests = s.sync.pendingRequests) :
    Requests C peers [batch] s s' := by
  refine singleton hprogress hnext hchoices ?_ ?_ (fun _ => hpending) ?_
  · intro r
    rw [hpeer]
  · intro r
    rw [hpeer]
  · intro hdelivered
    rw [h] at hdelivered
    cases hdelivered

/-- A request, and then those that follow; there are not so many that the ids come round. -/
theorem cons {batch : BlockHeight × BlockHeight} {ranges : List (BlockHeight × BlockHeight)}
    {s s₁ s' : SyncNet} (h : Requests C peers [batch] s s₁) (hrest : Requests C peers ranges s₁ s')
    (hlength : ranges.length < 2 ^ 64) : Requests C peers (batch :: ranges) s s' := by
  have hshift : ∀ n b, s₁.delivers C peers n b = s.delivers C peers (n + 1) b := by
    intro n b
    rw [h.delivers n b, List.length_singleton, Nat.add_comm]
  -- the request after `n` others is the one after `n + 1` in the whole list
  have hid : ∀ n b, s.delivers C peers (n + 1) b = true →
      s₁.sync.nextRequestId + UInt64.ofNat n = s.sync.nextRequestId + UInt64.ofNat (n + 1) := by
    intro n b hdelivers
    rw [h.nextRequestId (connected_of_delivers hdelivers), List.length_singleton,
      UInt64.add_assoc, ← UInt64.ofNat_add, Nat.add_comm 1 n]
  refine ⟨h.progress.trans hrest.progress, ?_, ?_, ?_,
    hrest.connectedPeers.trans h.connectedPeers, ?_⟩
  · intro id hid'
    have hlater := hrest.kept id (by
      intro n b hb hdelivers
      rw [hshift] at hdelivers
      rw [hid n b hdelivers]
      exact hid' (n + 1) b hb hdelivers)
    refine hlater.trans (h.kept id ?_)
    intro n b hb hdelivers
    cases n with
    | zero => exact hid' 0 b hb hdelivers
    | succ n => cases hb
  · intro n b hb hdelivers
    cases n with
    | zero =>
        obtain ⟨request, hlookup, hrequest⟩ := h.entered 0 b hb hdelivers
        refine ⟨request, ?_, hrequest⟩
        rw [← hlookup]
        refine hrest.kept _ ?_
        intro n b' hb' hdelivers'
        rw [hshift] at hdelivers'
        rw [hid n b' hdelivers']
        obtain ⟨hn, -⟩ := List.getElem?_eq_some_iff.mp hb'
        intro heq
        exact absurd (eq_of_add_ofNat_eq (by omega) (by omega) heq) (Nat.succ_ne_zero n).symm
    | succ n =>
        rw [← hid n b hdelivers]
        rw [← hshift] at hdelivers
        exact hrest.entered n b hb hdelivers
  · intro n b
    rw [hrest.delivers, hshift, List.length_cons]
    congr 1
    omega
  · intro hconnected
    rw [hrest.nextRequestId (h.connectedPeers ▸ hconnected), h.nextRequestId hconnected,
      List.length_singleton, List.length_cons, UInt64.add_assoc, ← UInt64.ofNat_add,
      Nat.add_comm 1]

end Requests

end SyncNet

theorem Peer.update_afterSend (peers : PeerRef → Peer) (peer : PeerRef) (m : Message)
    (now : Timestamp) (r : PeerRef) :
    (Function.update peers peer ((peers peer).afterSend m now) r).status = (peers r).status ∧
      (Function.update peers peer ((peers peer).afterSend m now) r).receiverClosed =
        (peers r).receiverClosed := by
  rcases eq_or_ne r peer with rfl | hr
  · rw [Function.update_self]
    exact ⟨rfl, rfl⟩
  · rw [Function.update_of_ne hr]
    exact ⟨rfl, rfl⟩

namespace BlockSync
open SyncNet (onNet modifySync Requests)
variable {C : BlockRequest → Except String Bytes}

theorem exec_onNet {α : Type} (m : Exec GossipNet α) (s : SyncNet) :
    (onNet m).exec s = ((m.exec s.net).1, { s with net := (m.exec s.net).2 }) := rfl

/-- The peer that `select_sync_peer` chooses, if it is called now. -/
def chosenPeer (peers : List PeerRef) (s : SyncNet) : Option PeerRef :=
  (s.net.connectedPeers peers)[s.choices.head % (s.net.connectedPeers peers).length]?

theorem exists_chosenPeer {peers : List PeerRef} {s : SyncNet}
    (h : s.net.connectedPeers peers ≠ []) : ∃ peer, chosenPeer peers s = some peer :=
  ⟨_, List.getElem?_eq_getElem (Nat.mod_lt _ (List.length_pos_iff.mpr h))⟩

theorem delivers_of_chosenPeer {peers : List PeerRef} {s : SyncNet} {peer : PeerRef}
    (h : chosenPeer peers s = some peer) (batch : BlockHeight × BlockHeight) :
    s.delivers C peers 0 batch =
      ((C ⟨batch.1, batch.2, s.sync.batchSize⟩).isOk && !(s.net.peer peer).receiverClosed) := by
  show (_ && Option.any _ (chosenPeer peers s)) = _
  rw [h]
  rfl

theorem exec_selectSyncPeer {peers : List PeerRef} {s : SyncNet} {peer : PeerRef}
    (h : chosenPeer peers s = some peer) :
    (selectSyncPeer peers).exec s = (.ok peer, { s with choices := s.choices.tail }) := by
  have hne : (!(s.net.connectedPeers peers).isEmpty) = true := by
    cases hconnected : s.net.connectedPeers peers with
    | nil =>
        rw [chosenPeer, hconnected] at h
        cases h
    | cons r rest => rfl
  rw [chosenPeer] at h
  rw [selectSyncPeer, Exec.exec_get_bind]
  simp only [Exec.exec_ensure_bind hne, Exec.exec_modify_bind]
  simp only [h]
  rfl

theorem exec_requestBlockBatch_of_unconnected {peers : List PeerRef} {s : SyncNet}
    (h : s.net.connectedPeers peers = []) (first last : BlockHeight) :
    (requestBlockBatch C first last peers).exec s =
      (fail (.networkError "No peers available"), s) := by
  have hselect : (selectSyncPeer peers).exec s =
      (fail (.networkError "No peers available"), s) := by
    rw [selectSyncPeer, Exec.exec_get_bind]
    simp only [h]
    rfl
  rw [requestBlockBatch, Exec.exec_bind, hselect]
  rfl

theorem exec_requestBlockBatch_of_chosen {first last : BlockHeight} {peers : List PeerRef}
    {s : SyncNet} {peer : PeerRef} (h : chosenPeer peers s = some peer) :
    (requestBlockBatch C first last peers).exec s =
      Exec.exec (do
        let payload ← Exec.lift (ofBincode (C ⟨first, last, s.sync.batchSize⟩))
        let message ← onNet (Message.new .getBlocks payload)
        onNet (Peer.send peer message)
        let requestedAt ← onNet GossipNet.currentTimestamp
        let s' ← get
        let syncRequest : SyncRequest :=
          ⟨s.sync.nextRequestId, (s'.net.peer peer).id, first, last, requestedAt,
            s'.sync.requestTimeout⟩
        modifySync fun sync =>
          { sync with
            pendingRequests := sync.pendingRequests.insert s.sync.nextRequestId syncRequest })
        { s with
          choices := s.choices.tail
          sync := { s.sync with nextRequestId := s.sync.nextRequestId + 1 } } := by
  rw [requestBlockBatch, Exec.exec_bind, exec_selectSyncPeer h]
  rfl

theorem requests_of_chosen {first last : BlockHeight} {peers : List PeerRef} {s : SyncNet}
    {peer : PeerRef} (h : chosenPeer peers s = some peer) :
    ∃ ok s', (requestBlockBatch C first last peers).isOk.exec s = (.ok ok, s') ∧
      Requests C peers [(first, last)] s s' := by
  have hdelivers := delivers_of_chosenPeer (C := C) h (first, last)
  rw [Exec.exec_isOk, exec_requestBlockBatch_of_chosen h]
  cases hpayload : C ⟨first, last, s.sync.batchSize⟩ with
  | error e =>
      rw [hpayload] at hdelivers
      exact ⟨false, _, rfl, Requests.of_undelivered hdelivers ⟨rfl, rfl, rfl, rfl, rfl, rfl⟩ rfl
        rfl rfl rfl⟩
  | ok payload =>
      rw [hpayload] at hdelivers
      rw [show ofBincode (Except.ok payload) = .ok payload from rfl, Exec.exec_lift_ok_bind,
        Exec.exec_bind, exec_onNet]
      -- the message, and the net after the clock and a nonce were read for it
      let message : Message := ⟨.getBlocks, payload, s.net.env.clock.head, s.net.env.nonces.head⟩
      let net : GossipNet :=
        { s.net with
          env := { s.net.env with
            clock := s.net.env.clock.tail
            nonces := s.net.env.nonces.tail } }
      have hnew : (Message.new .getBlocks payload).exec s.net = (.ok message, net) := rfl
      simp only [hnew, Exec.exec_bind, exec_onNet]
      cases hclosed : (s.net.peer peer).receiverClosed with
      | true =>
          rw [hclosed] at hdelivers
          have hsend := GossipProtocol.exec_send_of_closed (s := net) message hclosed
          simp only [hsend]
          exact ⟨false, _, rfl, Requests.of_undelivered hdelivers ⟨rfl, rfl, rfl, rfl, rfl, rfl⟩
            rfl rfl rfl rfl⟩
      | false =>
          rw [hclosed] at hdelivers
          have hsend := GossipProtocol.exec_send_of_open (s := net) message hclosed
          simp only [hsend]
          refine ⟨true, _, rfl, Requests.singleton ⟨rfl, rfl, rfl, rfl, rfl, rfl⟩ rfl rfl
            ?_ ?_ ?_ (fun _ => ⟨_, rfl, rfl, rfl⟩)⟩
          · intro r
            exact (Peer.update_afterSend net.peer peer message net.env.clock.head r).1
          · intro r
            exact (Peer.update_afterSend net.peer peer message net.env.clock.head r).2
          · intro hundelivered
            rw [hdelivers] at hundelivered
            cases hundelivered

/-- A request for a batch is made, or it fails; it does not panic. -/
theorem exec_requestBlockBatch (first last : BlockHeight) (peers : List PeerRef) (s : SyncNet) :
    ∃ ok s', (requestBlockBatch C first last peers).isOk.exec s = (.ok ok, s') ∧
      Requests C peers [(first, last)] s s' := by
  by_cases hconnected : s.net.connectedPeers peers = []
  · refine ⟨false, s, ?_, Requests.of_unconnected hconnected (first, last)⟩
    rw [Exec.exec_isOk, exec_requestBlockBatch_of_unconnected hconnected]
    rfl
  · obtain ⟨peer, hpeer⟩ := exists_chosenPeer hconnected
    exact requests_of_chosen hpeer

theorem exec_requestLoop (endHeight : BlockHeight) (peers : List PeerRef) {fuel : Nat}
    (hfuel : fuel ≤ 2 ^ 64 + 1) (current : BlockHeight) (s : SyncNet) :
    ∃ s', (requestLoop C endHeight peers fuel current).exec s =
        (.ok ((batches s.sync.batchSize endHeight fuel current).map fun _ => ()), s') ∧
      ∀ ranges, batches s.sync.batchSize endHeight fuel current = some ranges →
        ranges.length < fuel ∧ Requests C peers ranges s s' := by
  induction fuel generalizing current s with
  | zero =>
      refine ⟨s, rfl, ?_⟩
      intro ranges h
      cases h
  | succ fuel ih =>
      by_cases hlt : current < endHeight
      · obtain ⟨ok, s₁, hexec, hrequest⟩ := exec_requestBlockBatch (C := C) current
          (min (current + s.sync.batchSize) endHeight) peers s
        obtain ⟨s', hloop, hrest⟩ := ih (Nat.le_of_succ_le hfuel)
          (min (current + s.sync.batchSize) endHeight) s₁
        rw [hrequest.progress.batchSize] at hloop hrest
        refine ⟨s', ?_, ?_⟩
        · rw [requestLoop, if_pos hlt, Exec.exec_get_bind]
          simp only [Exec.exec_bind, hexec, hloop]
          rw [batches, if_pos hlt]
          simp only [Option.map_map]
        · intro ranges h
          rw [batches, if_pos hlt] at h
          obtain ⟨rest, hbatches, rfl⟩ := Option.map_eq_some_iff.mp h
          obtain ⟨hlength, hrequests⟩ := hrest rest hbatches
          refine ⟨Nat.succ_lt_succ hlength, hrequest.cons hrequests ?_⟩
          omega
      · refine ⟨s, ?_, ?_⟩
        · rw [requestLoop, if_neg hlt, batches, if_neg hlt]
          rfl
        · intro ranges h
          rw [batches, if_neg hlt] at h
          obtain rfl := Option.some.inj h
          exact ⟨Nat.succ_pos fuel, Requests.nil s⟩

theorem exec_requestBlocks_of_not_lt {startHeight endHeight : BlockHeight}
    (h : ¬startHeight < endHeight) (peers : List PeerRef) (s : SyncNet) :
    (requestBlocks C startHeight endHeight peers).exec s =
      (fail (.networkError "Invalid block range"), s) := by
  rw [requestBlocks, decide_eq_false h]
  rfl

end BlockSync

/-- The state in which the loop of `request_blocks` begins. -/
def SyncNet.started (startHeight endHeight : BlockHeight) (s : SyncNet) : SyncNet :=
  { s with
    net := { s.net with env := { s.net.env with clock := s.net.env.clock.tail } }
    sync := { s.sync with
      state := .syncing
      currentHeight := startHeight
      targetHeight := endHeight
      startHeight := startHeight
      syncStartTime := some s.net.env.clock.head } }

namespace BlockSync
open SyncNet (Requests)
variable {C : BlockRequest → Except String Bytes} {startHeight endHeight : BlockHeight}

theorem exec_requestBlocks (h : startHeight < endHeight) (peers : List PeerRef) (s : SyncNet) :
    ∃ s', (requestBlocks C startHeight endHeight peers).exec s =
        (.ok ((batches s.sync.batchSize endHeight (2 ^ 64 + 1) startHeight).map fun _ => ()),
          s') ∧
      ∀ ranges, batches s.sync.batchSize endHeight (2 ^ 64 + 1) startHeight = some ranges →
        ranges.length < 2 ^ 64 + 1 ∧
          Requests C peers ranges (s.started startHeight endHeight) s' := by
  obtain ⟨s', hexec, hrequests⟩ := exec_requestLoop (C := C) endHeight peers le_rfl startHeight
    (s.started startHeight endHeight)
  refine ⟨s', ?_, hrequests⟩
  rw [requestBlocks, Exec.exec_ensure_bind (decide_eq_true h)]
  exact hexec

theorem started_of_requestBlocks {peers : List PeerRef} {s s' : SyncNet}
    (h : (requestBlocks C startHeight endHeight peers).exec s = (.ok (some ()), s')) :
    startHeight < endHeight ∧
      SameProgress (s.started startHeight endHeight).sync s'.sync := by
  by_cases hlt : startHeight < endHeight
  · obtain ⟨s₁, hexec, hrequests⟩ := exec_requestBlocks (C := C) hlt peers s
    rw [h] at hexec
    obtain ⟨hsome, rfl⟩ := Prod.mk.inj hexec
    obtain ⟨ranges, hranges, -⟩ := Option.map_eq_some_iff.mp (Except.ok.inj hsome).symm
    exact ⟨hlt, (hrequests ranges hranges).2.progress⟩
  · rw [exec_requestBlocks_of_not_lt hlt] at h
    cases h

/-! ## Responses -/

/-- A response, once it was handled. -/
def respond (sync : BlockSync) (response : BlockResponse) : BlockSync :=
  (handleBlockResponse response).next sync

/-- The protocol after these responses, when it looks whether it is done. -/
def answered (sync : BlockSync) (responses : List BlockResponse) : BlockSync :=
  processSyncing.next (Runs.run respond sync responses)

/-- The blocks of the responses. -/
def received (responses : List BlockResponse) : List Block :=
  responses.flatMap fun response => response.blocks

/-- A block came for every height of the range. -/
def AllReceived (startHeight endHeight : BlockHeight) (responses : List BlockResponse) : Prop :=
  ∀ height, startHeight ≤ height → height < endHeight →
    ∃ block ∈ received responses, block.height = height

/-- When the last response has come, the block that came last has come from the end of the
range or from beyond it. -/
def ReachesEnd (endHeight : BlockHeight) (queue : List Block) (responses : List BlockResponse) :
    Prop :=
  responses ≠ [] ∧ ∃ block ∈ (queue ++ received responses).getLast?, endHeight ≤ block.height

theorem respond_eq (sync : BlockSync) (response : BlockResponse) :
    respond sync response =
      { sync with
        receivedBlocks := sync.receivedBlocks ++ response.blocks
        syncedBlocks := sync.syncedBlocks +
          UInt64.ofNat (sync.receivedBlocks ++ response.blocks).length
        currentHeight := ((sync.receivedBlocks ++ response.blocks).getLast?.map
          Block.height).getD sync.currentHeight } := by
  refine Exec.next_of_ok (a := ()) ?_
  simp only [handleBlockResponse, Exec.exec_modify_bind, Exec.exec_get_bind]
  cases hlast : (sync.receivedBlocks ++ response.blocks).getLast? with
  | none => rfl
  | some lastBlock => rfl

theorem receivedBlocks_respond (sync : BlockSync) (response : BlockResponse) :
    (respond sync response).receivedBlocks = sync.receivedBlocks ++ response.blocks := by
  rw [respond_eq]

theorem received_cons (response : BlockResponse) (responses : List BlockResponse) :
    received (response :: responses) = response.blocks ++ received responses :=
  List.flatMap_cons

theorem received_concat (responses : List BlockResponse) (response : BlockResponse) :
    received (responses ++ [response]) = received responses ++ response.blocks := by
  rw [received, List.flatMap_append, List.flatMap_singleton]
  rfl

theorem run_respond (sync : BlockSync) (responses : List BlockResponse) :
    (Runs.run respond sync responses).state = sync.state ∧
      (Runs.run respond sync responses).targetHeight = sync.targetHeight ∧
      (Runs.run respond sync responses).receivedBlocks =
        sync.receivedBlocks ++ received responses := by
  induction responses generalizing sync with
  | nil => exact ⟨rfl, rfl, (List.append_nil sync.receivedBlocks).symm⟩
  | cons response responses ih =>
      rw [Runs.run_cons]
      obtain ⟨hstate, htarget, hqueue⟩ := ih (respond sync response)
      rw [hstate, htarget, hqueue, receivedBlocks_respond, received_cons, List.append_assoc,
        respond_eq]
      exact ⟨rfl, rfl, rfl⟩

theorem currentHeight_run_of_nil {sync : BlockSync} {responses : List BlockResponse}
    (h : sync.receivedBlocks ++ received responses = []) :
    (Runs.run respond sync responses).currentHeight = sync.currentHeight := by
  induction responses generalizing sync with
  | nil => rfl
  | cons response responses ih =>
      rw [received_cons, ← List.append_assoc] at h
      rw [← receivedBlocks_respond] at h
      rw [Runs.run_cons, ih h]
      rw [receivedBlocks_respond] at h
      rw [respond_eq, (List.append_eq_nil_iff.mp h).1]
      rfl

theorem currentHeight_run_concat (sync : BlockSync) (responses : List BlockResponse)
    (response : BlockResponse) :
    (Runs.run respond sync (responses ++ [response])).currentHeight =
      ((sync.receivedBlocks ++ received (responses ++ [response])).getLast?.map
        Block.height).getD sync.currentHeight := by
  rw [Runs.run_concat, respond_eq, (run_respond sync responses).2.2, received_concat,
    ← List.append_assoc]
  cases hlast : (sync.receivedBlocks ++ received responses ++ response.blocks).getLast? with
  | none =>
      have hnil := (List.append_eq_nil_iff.mp (List.getLast?_eq_none_iff.mp hlast)).1
      exact currentHeight_run_of_nil hnil
  | some lastBlock => rfl

theorem state_answered (sync : BlockSync) (responses : List BlockResponse) :
    (answered sync responses).state =
      if sync.targetHeight ≤ (Runs.run respond sync responses).currentHeight then .synced
      else sync.state := by
  obtain ⟨hstate, htarget, -⟩ := run_respond sync responses
  rw [← htarget, ← hstate, answered]
  generalize Runs.run respond sync responses = sync'
  split
  · next hle =>
      have hexec : processSyncing.exec sync' = (.ok (), { sync' with state := .synced }) := by
        rw [processSyncing, Exec.exec_get_bind, if_pos hle]
        rfl
      rw [Exec.next_of_ok hexec]
  · next hlt =>
      have hexec : processSyncing.exec sync' = (.ok (), sync') := by
        rw [processSyncing, Exec.exec_get_bind, if_neg hlt]
        rfl
      rw [Exec.next_of_ok hexec]

theorem synced_iff_reachesEnd {sync : BlockSync} (hstate : sync.state = .syncing)
    (hcurrent : sync.currentHeight < sync.targetHeight) (responses : List BlockResponse) :
    (answered sync responses).state = .synced ↔
      ReachesEnd sync.targetHeight sync.receivedBlocks responses := by
  have hsynced : (answered sync responses).state = .synced ↔
      sync.targetHeight ≤ (Runs.run respond sync responses).currentHeight := by
    rw [state_answered, hstate]
    split
    · next hle => exact iff_of_true rfl hle
    · next hlt => exact iff_of_false nofun hlt
  rw [hsynced]
  cases responses using List.reverseRecOn with
  | nil => exact iff_of_false (UInt64.not_le.mpr hcurrent) fun h => h.1 rfl
  | append_singleton responses response =>
      rw [currentHeight_run_concat, ReachesEnd]
      cases hlast : (sync.receivedBlocks ++ received (responses ++ [response])).getLast? with
      | none =>
          refine iff_of_false (UInt64.not_le.mpr hcurrent) ?_
          rintro ⟨-, block, hblock, -⟩
          cases hblock
      | some lastBlock =>
          constructor
          · intro hle
            exact ⟨List.append_ne_nil_of_right_ne_nil _ (List.cons_ne_nil _ _), lastBlock, rfl, hle⟩
          · rintro ⟨-, block, hblock, hle⟩
            obtain rfl := Option.some.inj hblock
            exact hle

theorem synced_iff_of_requestBlocks {peers : List PeerRef} {s s' : SyncNet}
    (h : (requestBlocks C startHeight endHeight peers).exec s = (.ok (some ()), s'))
    (responses : List BlockResponse) :
    (answered s'.sync responses).state = .synced ↔
      ReachesEnd endHeight s.sync.receivedBlocks responses := by
  obtain ⟨hlt, hprogress⟩ := started_of_requestBlocks h
  have htarget : s'.sync.targetHeight = endHeight := hprogress.targetHeight
  have hqueue : s'.sync.receivedBlocks = s.sync.receivedBlocks := hprogress.receivedBlocks
  have hcurrent : s'.sync.currentHeight < s'.sync.targetHeight := by
    rw [htarget, hprogress.currentHeight]
    exact hlt
  rw [synced_iff_reachesEnd hprogress.state hcurrent, htarget, hqueue]

theorem not_synced_of_range {peers : List PeerRef} {s s' : SyncNet}
    (h : (requestBlocks C startHeight endHeight peers).exec s = (.ok (some ()), s'))
    {responses : List BlockResponse}
    (hrange : ∀ block ∈ s.sync.receivedBlocks ++ received responses, block.height < endHeight) :
    (answered s'.sync responses).state ≠ .synced := by
  rw [Ne, synced_iff_of_requestBlocks h]
  rintro ⟨-, block, hblock, hle⟩
  exact UInt64.not_lt.mpr hle (hrange block (List.mem_of_getLast? hblock))

/-- **When a sync that is done is complete, and the other way round.**  It is done when the
last block that came is from the end of the range or from beyond it, and that is a block that
no request asks for. -/
theorem synced_iff_received_iff {peers : List PeerRef} {s s' : SyncNet}
    (h : (requestBlocks C startHeight endHeight peers).exec s = (.ok (some ()), s'))
    (responses : List BlockResponse) :
    ((answered s'.sync responses).state = .synced ↔
      AllReceived startHeight endHeight responses) ↔
    AllReceived startHeight endHeight responses ∧
        ReachesEnd endHeight s.sync.receivedBlocks responses ∨
      ¬AllReceived startHeight endHeight responses ∧
        ¬ReachesEnd endHeight s.sync.receivedBlocks responses := by
  rw [synced_iff_of_requestBlocks h]
  exact Iff.comm.trans iff_iff_and_or_not_and_not

end BlockSync

/-! ## A range of two blocks -/

namespace Reference

def encodeBlockRequest (request : BlockRequest) : Except String Bytes :=
  .ok (encodeU64 request.startHeight ++ encodeU64 request.endHeight ++ encodeU64 request.maxBlocks)

/-- A block that is there for its height only. -/
def blockOfHeight (height : BlockHeight) : Block :=
  Block.new primitives 1000 height BlockHash.zero [] key

/-- A node that knows one peer and asks for one block at a time. -/
def syncNet : SyncNet where
  sync := BlockSync.new 1
  net := gossipNet
  choices := Stream'.const 0

end Reference

namespace BlockSync
open Reference (encodeBlockRequest blockOfHeight syncNet)

theorem requestBlocks_two :
    ∃ s, (requestBlocks encodeBlockRequest 0 2 [0]).exec syncNet = (.ok (some ()), s) := by
  have hlt : (0 : BlockHeight) < 2 := by decide
  obtain ⟨s, hexec, -⟩ := exec_requestBlocks (C := encodeBlockRequest) hlt [0] syncNet
  refine ⟨s, ?_⟩
  have hbatches : batches syncNet.sync.batchSize 2 (2 ^ 64 + 1) 0 = some [(0, 1), (1, 2)] := rfl
  rw [hexec, hbatches]
  rfl

/-- Both blocks asked for, and the first of them answered: the sync is not done, as it should
not be. -/
theorem synced_iff_received_iff_half :
    ∃ s, (requestBlocks encodeBlockRequest 0 2 [0]).exec syncNet = (.ok (some ()), s) ∧
      ((answered s.sync [⟨[blockOfHeight 0], 0, 1⟩]).state = .synced ↔
        AllReceived 0 2 [⟨[blockOfHeight 0], 0, 1⟩]) := by
  obtain ⟨s, hexec⟩ := requestBlocks_two
  refine ⟨s, hexec, (synced_iff_received_iff hexec [⟨[blockOfHeight 0], 0, 1⟩]).mpr ?_⟩
  refine Or.inr ⟨fun hall => ?_, ?_⟩
  · obtain ⟨block, hmem, hheight⟩ := hall 1 (by decide) (by decide)
    rw [List.mem_singleton.mp hmem] at hheight
    revert hheight
    decide
  · rintro ⟨-, block, hmem, hle⟩
    cases hmem
    revert hle
    decide

/-- Both requests answered, in order and in full, and the sync is not done; one block from
beyond the range, and it is. -/
theorem synced_without_blocks :
    ∃ s, (requestBlocks encodeBlockRequest 0 2 [0]).exec syncNet = (.ok (some ()), s) ∧
      (AllReceived 0 2 [⟨[blockOfHeight 0], 0, 1⟩, ⟨[blockOfHeight 1], 1, 2⟩] ∧
        (answered s.sync [⟨[blockOfHeight 0], 0, 1⟩, ⟨[blockOfHeight 1], 1, 2⟩]).state ≠ .synced) ∧
      (¬AllReceived 0 2 [⟨[blockOfHeight 2], 2, 3⟩] ∧
        (answered s.sync [⟨[blockOfHeight 2], 2, 3⟩]).state = .synced) := by
  obtain ⟨s, hexec⟩ := requestBlocks_two
  refine ⟨s, hexec, ⟨?_, ?_⟩, ?_, ?_⟩
  · intro height _ hlt
    have hcases : height = 0 ∨ height = 1 := by
      have hnat := UInt64.lt_iff_toNat_lt.mp hlt
      rw [← UInt64.toNat_inj, ← UInt64.toNat_inj]
      change height.toNat < 2 at hnat
      show height.toNat = 0 ∨ height.toNat = 1
      omega
    rcases hcases with rfl | rfl
    · exact ⟨blockOfHeight 0, List.mem_cons_self, rfl⟩
    · exact ⟨blockOfHeight 1, List.mem_cons_of_mem _ List.mem_cons_self, rfl⟩
  · refine not_synced_of_range hexec ?_
    intro block hblock
    rcases List.mem_cons.mp hblock with rfl | hblock
    · show (0 : UInt64) < 2
      decide
    · obtain rfl := List.mem_singleton.mp hblock
      show (1 : UInt64) < 2
      decide
  · intro hall
    obtain ⟨block, hblock, hheight⟩ := hall 0 (UInt64.le_refl 0) (by decide)
    obtain rfl := List.mem_singleton.mp hblock
    have htwo : (2 : UInt64) = 0 := hheight
    exact absurd htwo (by decide)
  · refine (synced_iff_of_requestBlocks hexec _).mpr
      ⟨List.cons_ne_nil _ _, blockOfHeight 2, rfl, UInt64.le_refl 2⟩

end BlockSync

end VotingChain
