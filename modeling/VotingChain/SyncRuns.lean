/-
# `VotingChain.SyncRuns` — what becomes of the heights that are asked for

A height of the range under way is either asked for by a pending request or it has come with
some response, and a request is pending as long as something of it has not come: `Accounted`.
Three calls can break this.

    request_blocks           a request that fails is only logged, and its batch forgotten
    check_timeouts           a request that is too old is dropped, and its batch forgotten
    handle_block_response    the requests are not looked at, answered or not

`Keeps` says when a call does not, and a run keeps account exactly if all of its calls do
(`accounted_iff`).

A response that comes while requests are being made touches none of the fields that these
write, apart from the counter, and is taken to come after them.
-/
import VotingChain.Sync

namespace VotingChain
open BlockSync (batches)

/-- The request asks for the height. -/
def SyncRequest.Covers (request : SyncRequest) (height : BlockHeight) : Prop :=
  request.startHeight ≤ height ∧ height < request.endHeight

/-- A call.  With a request come the peers and the random choices of that time. -/
inductive SyncCall
  | requestBlocks (startHeight endHeight : BlockHeight) (peers : List PeerRef) (net : GossipNet)
      (choices : Stream' Nat)
  | handleBlockResponse (response : BlockResponse)
  | checkTimeouts (now : UInt64 → Timestamp)

/-- The protocol, with all blocks that have come. -/
structure SyncHistory where
  sync : BlockSync
  received : List Block

namespace SyncHistory

def start (batchSize timeout : UInt64) : SyncHistory :=
  ⟨(BlockSync.new batchSize).withTimeout timeout, []⟩

variable (C : BlockRequest → Except String Bytes)

/-- A request that does not come to an end leaves nothing to go on from. -/
def step (s : SyncHistory) : SyncCall → SyncHistory
  | .requestBlocks startHeight endHeight peers net choices =>
      match (BlockSync.requestBlocks C startHeight endHeight peers).exec
        ⟨s.sync, net, choices⟩ with
      | (.ok none, _) => s
      | (_, s') => { s with sync := s'.sync }
  | .handleBlockResponse response =>
      ⟨s.sync.respond response, s.received ++ response.blocks⟩
  | .checkTimeouts now => { s with sync := (BlockSync.checkTimeouts now).next s.sync }

/-- A block has come for the height. -/
def Received (s : SyncHistory) (height : BlockHeight) : Prop :=
  ∃ block ∈ s.received, block.height = height

/-- No height is forgotten, and no request that is answered in full is still pending. -/
structure Accounted (s : SyncHistory) : Prop where
  awaited : s.sync.state = .syncing →
    ∀ height, s.sync.startHeight ≤ height → height < s.sync.targetHeight →
      s.Received height ∨
      ∃ id request, s.sync.pendingRequests.lookup id = some request ∧ request.Covers height
  unanswered : ∀ id request, s.sync.pendingRequests.lookup id = some request →
    ∃ height, request.Covers height ∧ ¬s.Received height

/-- The range is the `n`th of these, and the request for it is delivered. -/
def Delivered (s : SyncNet) (peers : List PeerRef) (ranges : List (BlockHeight × BlockHeight))
    (n : Nat) (batch : BlockHeight × BlockHeight) : Prop :=
  ranges[n]? = some batch ∧ s.delivers C peers n batch = true

/-- The call forgets no height, and it does not leave a request pending that is answered in
full. -/
def Keeps (s : SyncHistory) : SyncCall → Prop
  | .requestBlocks startHeight endHeight peers net choices =>
      startHeight < endHeight →
      ∀ ranges, batches s.sync.batchSize endHeight (2 ^ 64 + 1) startHeight = some ranges →
        (∀ height, startHeight ≤ height → height < endHeight →
          s.Received height ∨
          (∃ n batch, Delivered C ⟨s.sync, net, choices⟩ peers ranges n batch ∧
            batch.1 ≤ height ∧ height < batch.2) ∨
          ∃ id request, s.sync.pendingRequests.lookup id = some request ∧
            request.Covers height ∧
            ∀ n batch, Delivered C ⟨s.sync, net, choices⟩ peers ranges n batch →
              id ≠ s.sync.nextRequestId + UInt64.ofNat n) ∧
        ∀ n batch, Delivered C ⟨s.sync, net, choices⟩ peers ranges n batch →
          ∃ height, (batch.1 ≤ height ∧ height < batch.2) ∧ ¬s.Received height
  | .handleBlockResponse response =>
      ∀ id request, s.sync.pendingRequests.lookup id = some request →
        ∃ height, request.Covers height ∧ ¬s.Received height ∧
          ∀ block ∈ response.blocks, block.height ≠ height
  | .checkTimeouts now =>
      s.sync.state = .syncing →
      ∀ height, s.sync.startHeight ≤ height → height < s.sync.targetHeight →
        s.Received height ∨
        ∃ id request, s.sync.pendingRequests.lookup id = some request ∧
          request.isTimedOut (now id) = false ∧ request.Covers height

variable {C}

/-! ## Requests -/

theorem step_requestBlocks_cases (s : SyncHistory) (startHeight endHeight : BlockHeight)
    (peers : List PeerRef) (net : GossipNet) (choices : Stream' Nat) :
    (s.step C (.requestBlocks startHeight endHeight peers net choices) = s ∧
      (startHeight < endHeight →
        batches s.sync.batchSize endHeight (2 ^ 64 + 1) startHeight = none)) ∨
    ∃ ranges s', startHeight < endHeight ∧
      batches s.sync.batchSize endHeight (2 ^ 64 + 1) startHeight = some ranges ∧
      SyncNet.Requests C peers ranges
        (SyncNet.started startHeight endHeight ⟨s.sync, net, choices⟩) s' ∧
      s.step C (.requestBlocks startHeight endHeight peers net choices) =
        { s with sync := s'.sync } := by
  by_cases hlt : startHeight < endHeight
  · obtain ⟨s', hexec, hrequests⟩ := BlockSync.exec_requestBlocks (C := C) hlt peers
      ⟨s.sync, net, choices⟩
    cases hbatches : batches s.sync.batchSize endHeight (2 ^ 64 + 1) startHeight with
    | none =>
        refine Or.inl ⟨?_, fun _ => rfl⟩
        rw [hbatches] at hexec
        rw [step, hexec]
        rfl
    | some ranges =>
        refine Or.inr ⟨ranges, s', hlt, rfl, (hrequests ranges hbatches).2, ?_⟩
        rw [hbatches] at hexec
        rw [step, hexec]
        rfl
  · refine Or.inl ⟨?_, fun h => absurd h hlt⟩
    rw [step, BlockSync.exec_requestBlocks_of_not_lt hlt]
    rfl

/-- After requests the pending ones are those that were delivered, and those before with other
ids. -/
theorem exists_pending_iff {peers : List PeerRef} {ranges : List (BlockHeight × BlockHeight)}
    {s s' : SyncNet} (h : SyncNet.Requests C peers ranges s s')
    (P : BlockHeight → BlockHeight → Prop) :
    (∃ id request, s'.sync.pendingRequests.lookup id = some request ∧
      P request.startHeight request.endHeight) ↔
    (∃ n batch, Delivered C s peers ranges n batch ∧ P batch.1 batch.2) ∨
      ∃ id request, s.sync.pendingRequests.lookup id = some request ∧
        P request.startHeight request.endHeight ∧
        ∀ n batch, Delivered C s peers ranges n batch →
          id ≠ s.sync.nextRequestId + UInt64.ofNat n := by
  constructor
  · rintro ⟨id, request, hlookup, hP⟩
    by_cases hdrawn : ∃ n batch, Delivered C s peers ranges n batch ∧
        id = s.sync.nextRequestId + UInt64.ofNat n
    · obtain ⟨n, batch, hdelivered, rfl⟩ := hdrawn
      obtain ⟨request', hlookup', hfirst, hlast⟩ := h.entered n batch hdelivered.1 hdelivered.2
      obtain rfl := Option.some.inj (hlookup.symm.trans hlookup')
      refine Or.inl ⟨n, batch, hdelivered, ?_⟩
      rw [← hfirst, ← hlast]
      exact hP
    · have hother : ∀ n batch, Delivered C s peers ranges n batch →
          id ≠ s.sync.nextRequestId + UInt64.ofNat n := by
        intro n batch hdelivered hid
        exact hdrawn ⟨n, batch, hdelivered, hid⟩
      rw [h.kept id fun n batch hbatch hdelivers => hother n batch ⟨hbatch, hdelivers⟩] at hlookup
      exact Or.inr ⟨id, request, hlookup, hP, hother⟩
  · rintro (⟨n, batch, hdelivered, hP⟩ | ⟨id, request, hlookup, hP, hother⟩)
    · obtain ⟨request, hlookup, hfirst, hlast⟩ := h.entered n batch hdelivered.1 hdelivered.2
      refine ⟨_, request, hlookup, ?_⟩
      rw [hfirst, hlast]
      exact hP
    · rw [← h.kept id fun n batch hbatch hdelivers => hother n batch ⟨hbatch, hdelivers⟩] at hlookup
      exact ⟨id, request, hlookup, hP⟩

theorem accounted_requestBlocks_iff {s : SyncHistory} (h : s.Accounted)
    (startHeight endHeight : BlockHeight) (peers : List PeerRef) (net : GossipNet)
    (choices : Stream' Nat) :
    (s.step C (.requestBlocks startHeight endHeight peers net choices)).Accounted ↔
      s.Keeps C (.requestBlocks startHeight endHeight peers net choices) := by
  rcases step_requestBlocks_cases (C := C) s startHeight endHeight peers net choices with
    ⟨hstep, hnone⟩ | ⟨ranges, s', hlt, hranges, hrequests, hstep⟩
  · rw [hstep]
    refine iff_of_true h ?_
    intro hlt ranges hranges
    rw [hnone hlt] at hranges
    cases hranges
  rw [hstep]
  -- what is pending afterwards, in terms of what was pending before
  have hpending := exists_pending_iff hrequests
  have hstart : s'.sync.startHeight = startHeight := hrequests.progress.startHeight
  have htarget : s'.sync.targetHeight = endHeight := hrequests.progress.targetHeight
  have hstate : s'.sync.state = .syncing := hrequests.progress.state
  constructor
  · intro hnext _ ranges' hranges'
    obtain rfl := Option.some.inj (hranges.symm.trans hranges')
    constructor
    · intro height hge hle
      rcases hnext.awaited hstate height (hstart ▸ hge) (htarget ▸ hle) with hreceived | hawaited
      · exact Or.inl hreceived
      · rcases (hpending fun first last => first ≤ height ∧ height < last).mp hawaited with
          hdelivered | ⟨id, request, hlookup, hcovers, hother⟩
        · exact Or.inr (Or.inl hdelivered)
        · exact Or.inr (Or.inr ⟨id, request, hlookup, hcovers, hother⟩)
    · intro n batch hdelivered
      obtain ⟨request, hlookup, hfirst, hlast⟩ :=
        hrequests.entered n batch hdelivered.1 hdelivered.2
      obtain ⟨height, hcovers, hmissing⟩ := hnext.unanswered _ request hlookup
      rw [SyncRequest.Covers, hfirst, hlast] at hcovers
      exact ⟨height, hcovers, hmissing⟩
  · intro hkeeps
    obtain ⟨hawaited, hunanswered⟩ := hkeeps hlt ranges hranges
    constructor
    · intro _ height hge hle
      rcases hawaited height (hstart ▸ hge) (htarget ▸ hle) with
        hreceived | hdelivered | ⟨id, request, hlookup, hcovers, hother⟩
      · exact Or.inl hreceived
      · exact Or.inr ((hpending fun first last => first ≤ height ∧ height < last).mpr
          (Or.inl hdelivered))
      · exact Or.inr ((hpending fun first last => first ≤ height ∧ height < last).mpr
          (Or.inr ⟨id, request, hlookup, hcovers, hother⟩))
    · intro id request hlookup
      by_contra hfull
      rcases (hpending fun first last => ¬∃ height, (first ≤ height ∧ height < last) ∧
          ¬s.Received height).mp ⟨id, request, hlookup, hfull⟩ with
        ⟨n, batch, hdelivered, hnone⟩ | ⟨id', request', hlookup', hnone, -⟩
      · exact hnone (hunanswered n batch hdelivered)
      · exact hnone (h.unanswered id' request' hlookup')

/-! ## Responses and timeouts -/

theorem received_respond {s : SyncHistory} {response : BlockResponse} {height : BlockHeight} :
    (s.step C (.handleBlockResponse response)).Received height ↔
      s.Received height ∨ ∃ block ∈ response.blocks, block.height = height := by
  show (∃ block ∈ s.received ++ response.blocks, block.height = height) ↔ _
  simp only [List.mem_append, or_and_right, exists_or]
  rfl

theorem accounted_handleBlockResponse_iff {s : SyncHistory} (h : s.Accounted)
    (response : BlockResponse) :
    (s.step C (.handleBlockResponse response)).Accounted ↔
      s.Keeps C (.handleBlockResponse response) := by
  have hpending : (s.step C (.handleBlockResponse response)).sync.pendingRequests =
      s.sync.pendingRequests := by
    rw [step, BlockSync.respond_eq]
  constructor
  · intro hnext id request hlookup
    obtain ⟨height, hcovers, hmissing⟩ := hnext.unanswered id request (by rw [hpending, hlookup])
    rw [received_respond, not_or] at hmissing
    refine ⟨height, hcovers, hmissing.1, ?_⟩
    intro block hblock hheight
    exact hmissing.2 ⟨block, hblock, hheight⟩
  · intro hkeeps
    constructor
    · intro hstate height hge hlt
      rw [step, BlockSync.respond_eq] at hstate hge hlt
      rcases h.awaited hstate height hge hlt with hreceived | hawaited
      · exact Or.inl (received_respond.mpr (Or.inl hreceived))
      · rw [hpending]
        exact Or.inr hawaited
    · intro id request hlookup
      rw [hpending] at hlookup
      obtain ⟨height, hcovers, hbefore, hnow⟩ := hkeeps id request hlookup
      refine ⟨height, hcovers, ?_⟩
      rw [received_respond]
      rintro (hreceived | ⟨block, hblock, hheight⟩)
      · exact hbefore hreceived
      · exact hnow block hblock hheight

theorem lookup_checkTimeouts (now : UInt64 → Timestamp) (sync : BlockSync) (id : UInt64)
    (request : SyncRequest) :
    ((BlockSync.checkTimeouts now).next sync).pendingRequests.lookup id = some request ↔
      sync.pendingRequests.lookup id = some request ∧ request.isTimedOut (now id) = false := by
  show (sync.pendingRequests.retain fun id request =>
    !request.isTimedOut (now id)).lookup id = some request ↔ _
  rw [Finmap.lookup_retain_eq_some, Bool.not_eq_true']

theorem accounted_checkTimeouts_iff {s : SyncHistory} (h : s.Accounted)
    (now : UInt64 → Timestamp) :
    (s.step C (.checkTimeouts now)).Accounted ↔ s.Keeps C (.checkTimeouts now) := by
  constructor
  · intro hnext hstate height hge hlt
    rcases hnext.awaited hstate height hge hlt with hreceived | ⟨id, request, hlookup, hcovers⟩
    · exact Or.inl hreceived
    · obtain ⟨hbefore, hyoung⟩ := (lookup_checkTimeouts now s.sync id request).mp hlookup
      exact Or.inr ⟨id, request, hbefore, hyoung, hcovers⟩
  · intro hkeeps
    constructor
    · intro hstate height hge hlt
      rcases hkeeps hstate height hge hlt with hreceived | ⟨id, request, hlookup, hyoung, hcovers⟩
      · exact Or.inl hreceived
      · exact Or.inr ⟨id, request, (lookup_checkTimeouts now s.sync id request).mpr
          ⟨hlookup, hyoung⟩, hcovers⟩
    · intro id request hlookup
      exact h.unanswered id request ((lookup_checkTimeouts now s.sync id request).mp hlookup).1

/-! ## Runs -/

theorem accounted_step_iff {s : SyncHistory} (h : s.Accounted) (call : SyncCall) :
    (s.step C call).Accounted ↔ s.Keeps C call := by
  cases call with
  | requestBlocks startHeight endHeight peers net choices =>
      exact accounted_requestBlocks_iff h startHeight endHeight peers net choices
  | handleBlockResponse response => exact accounted_handleBlockResponse_iff h response
  | checkTimeouts now => exact accounted_checkTimeouts_iff h now

theorem accounted_start (batchSize timeout : UInt64) : (start batchSize timeout).Accounted := by
  constructor
  · intro hstate
    cases hstate
  · intro id request hlookup
    cases hlookup

/-- **No height is forgotten, and no request is left over**, exactly as long as every call
keeps account. -/
theorem accounted_iff (C : BlockRequest → Except String Bytes) (batchSize timeout : UInt64)
    (calls : List SyncCall) :
    Runs.Visits (step C) Accounted (start batchSize timeout) calls ↔
      Runs.Along (step C) (Keeps C) (start batchSize timeout) calls :=
  Runs.visits_iff_along (fun _ h => h) (fun _ call h => (accounted_step_iff h call).mpr)
    (fun _ call h => (accounted_step_iff h call).mp) (accounted_start batchSize timeout)

section
open Reference (encodeBlockRequest blockOfHeight gossipNet)

/-- Without peers the heights are forgotten at once; with a peer that answers in full, the
request is still pending. -/
theorem unsent_forgotten_and_answered_pending :
    ¬Runs.Visits (step encodeBlockRequest) Accounted (start 1 30)
      [.requestBlocks 0 1 [] gossipNet (Stream'.const 0)] ∧
    ¬Runs.Visits (step encodeBlockRequest) Accounted (start 1 30)
      [.requestBlocks 0 1 [0] gossipNet (Stream'.const 0),
        .handleBlockResponse ⟨[blockOfHeight 0], 0, 1⟩] := by
  have hbatches : batches (start 1 30).sync.batchSize 1 (2 ^ 64 + 1) 0 = some [(0, 1)] := rfl
  constructor
  · rintro ⟨h, hnext⟩
    have hkeeps := (accounted_requestBlocks_iff h 0 1 [] gossipNet (Stream'.const 0)).mp hnext
    obtain ⟨hawaited, -⟩ := hkeeps (by decide) [(0, 1)] hbatches
    rcases hawaited 0 (UInt64.le_refl 0) (by decide) with
      ⟨block, hblock, -⟩ | ⟨n, batch, hdelivered, -⟩ | ⟨id, request, hlookup, -⟩
    · cases hblock
    · exact SyncNet.connected_of_delivers hdelivered.2 rfl
    · cases hlookup
  · rintro ⟨h, hfirst, hlast⟩
    rcases step_requestBlocks_cases (C := encodeBlockRequest) (start 1 30) 0 1 [0] gossipNet
      (Stream'.const 0) with ⟨-, hnone⟩ | ⟨ranges, s', -, hranges, hrequests, hstep⟩
    · have hsome := hnone (by decide)
      rw [hbatches] at hsome
      cases hsome
    rw [hstep] at hfirst hlast
    obtain rfl := Option.some.inj (hbatches.symm.trans hranges)
    obtain ⟨request, hlookup, hstart, hend⟩ := hrequests.entered 0 (0, 1) rfl rfl
    obtain ⟨height, hcovers, -, hother⟩ :=
      (accounted_handleBlockResponse_iff hfirst ⟨[blockOfHeight 0], 0, 1⟩).mp hlast _ request
        hlookup
    rw [SyncRequest.Covers, hstart, hend] at hcovers
    have hzero : height = 0 := by
      have hlt := UInt64.lt_iff_toNat_lt.mp hcovers.2
      rw [← UInt64.toNat_inj]
      exact Nat.lt_one_iff.mp hlt
    exact hother (blockOfHeight 0) List.mem_cons_self hzero.symm

end

end SyncHistory

end VotingChain
