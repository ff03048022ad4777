/-
# `VotingChain.GossipWindow` — a table of messages seen that is cleaned

The model of `cleanup_stale_entries`, `is_stale` and `clear` of `network/src/gossip.rs`,
among the calls of the protocol.  What was first seen more than `message_ttl` before is
forgotten, and then the message may go out again.

For each id the table is a timer (`firstSeen_step`): it is started by the first call with the
id, and stopped by a cleanup that finds it run out, or when the table is cleared.

    timer runs       nothing is sent under the id
    timer is off     the next `gossip` goes out               (`gossip_reaches_iff`)

So in any stretch of a run that is no longer than `message_ttl`, nobody gets a message twice,
wherever the stretch begins (`stretch_once`).
-/
import VotingChain.GossipRuns
import VotingChain.Lib.Maps

namespace VotingChain

open GossipProtocol (getMessageId gossip noted propagated handleReceivedMessage markSeen)

/-- What is subtracted is no more than there is. -/
def GossipEntry.isStale (ttl : UInt64) (now : Timestamp) (entry : GossipEntry) : Bool :=
  decide (ttl.toNat < now.toNat - entry.firstSeen.toNat)

namespace GossipProtocol

/-- The ids of the entries that are stale; the clock is read for each entry. -/
def staleIds (ttl : UInt64) (order : MapOrder GossipId GossipEntry) (now : GossipId → Timestamp)
    (protocol : GossipProtocol) : List GossipId :=
  ((order.list protocol.seenMessages).filter fun entry =>
    entry.2.isStale ttl (now entry.1)).map fun entry => entry.1

/-- The number of entries that were removed, and what is left. -/
def cleanupStaleEntries (ttl : UInt64) (order : MapOrder GossipId GossipEntry)
    (now : GossipId → Timestamp) (protocol : GossipProtocol) : Nat × GossipProtocol :=
  ((protocol.staleIds ttl order now).length,
    { protocol with
      seenMessages := (protocol.staleIds ttl order now).foldl (fun seen id => seen.erase id)
        protocol.seenMessages })

def clear (protocol : GossipProtocol) : GossipProtocol := { protocol with seenMessages := ∅ }

end GossipProtocol

/-- A call of the protocol and what the environment gives it, a round of the cleanup loop, or
`clear`. -/
inductive GossipEvent
  | round (env : Env) (round : GossipRound)
  | cleanup (order : MapOrder GossipId GossipEntry) (now : GossipId → Timestamp)
  | clear

namespace GossipNet
variable (C : WireCodec) (ttl : UInt64)

def event (s : GossipNet) : GossipEvent → GossipNet
  | .round env round => GossipNet.round C { s with env := env } round
  | .cleanup order now =>
      { s with protocol := (s.protocol.cleanupStaleEntries ttl order now).2 }
  | .clear => { s with protocol := s.protocol.clear }

/-- The peers that are sent something under this id. -/
def sentIn (id : GossipId) (s : GossipNet) : GossipEvent → List PeerId
  | .round env round => sentTo C id { s with env := env } round
  | .cleanup _ _ => []
  | .clear => []

/-- When the message with this id was first seen, as far as is known. -/
def firstSeen (id : GossipId) (s : GossipNet) : Option Timestamp :=
  (s.protocol.seenMessages.lookup id).map GossipEntry.firstSeen

end GossipNet

/-- A timer: started by a call with the id, stopped by a cleanup more than `ttl` later. -/
def timerStep (ttl : UInt64) (id : GossipId) (timer : Option Timestamp) :
    GossipEvent → Option Timestamp
  | .round env round =>
      if round.id = id then some (timer.getD env.clock.head) else timer
  | .cleanup _ now => timer.filter fun since => decide ((now id).toNat - since.toNat ≤ ttl.toNat)
  | .clear => none

/-- The timer of an id after a run on a new protocol. -/
def timer (ttl : UInt64) (id : GossipId) (events : List GossipEvent) : Option Timestamp :=
  Runs.run (timerStep ttl id) none events

/-! ## The table is a timer -/

namespace GossipProtocol
variable {C : WireCodec}

theorem mem_staleIds {ttl : UInt64} {order : MapOrder GossipId GossipEntry}
    {now : GossipId → Timestamp} {protocol : GossipProtocol} {id : GossipId} :
    id ∈ protocol.staleIds ttl order now ↔
      ∃ entry, protocol.seenMessages.lookup id = some entry ∧
        entry.isStale ttl (now id) = true := by
  rw [staleIds, List.mem_map]
  constructor
  · rintro ⟨⟨id', entry⟩, hmem, rfl⟩
    rw [List.mem_filter, ← Multiset.mem_coe, order.perm] at hmem
    exact ⟨entry, Finmap.mem_lookup_iff.mpr hmem.1, hmem.2⟩
  · rintro ⟨entry, hentry, hstale⟩
    refine ⟨⟨id, entry⟩, ?_, rfl⟩
    rw [List.mem_filter, ← Multiset.mem_coe, order.perm]
    exact ⟨Finmap.mem_lookup_iff.mp hentry, hstale⟩

theorem lookup_cleanupStaleEntries (ttl : UInt64) (order : MapOrder GossipId GossipEntry)
    (now : GossipId → Timestamp) (protocol : GossipProtocol) (id : GossipId) :
    (protocol.cleanupStaleEntries ttl order now).2.seenMessages.lookup id =
      (protocol.seenMessages.lookup id).filter fun entry => !entry.isStale ttl (now id) := by
  have herase := Finmap.lookup_foldl_erase (fun id : GossipId => id) id
    (protocol.staleIds ttl order now) protocol.seenMessages
  rw [List.map_id'] at herase
  refine herase.trans ?_
  cases hentry : protocol.seenMessages.lookup id with
  | none => simp
  | some entry =>
      have hmem : id ∈ protocol.staleIds ttl order now ↔ entry.isStale ttl (now id) = true := by
        rw [mem_staleIds, hentry]
        simp
      cases hstale : entry.isStale ttl (now id) with
      | true => rw [if_pos (hmem.mpr hstale), Option.filter_some, hstale]; rfl
      | false =>
          rw [hstale] at hmem
          rw [if_neg (hmem.not.mpr Bool.false_ne_true), Option.filter_some, hstale]
          rfl

theorem firstSeen_propagated (id id' : GossipId) (protocol : GossipProtocol) (peerId : PeerId) :
    ((propagated id protocol peerId).seenMessages.lookup id').map GossipEntry.firstSeen =
      (protocol.seenMessages.lookup id').map GossipEntry.firstSeen := by
  rw [propagated]
  cases hentry : protocol.seenMessages.lookup id with
  | none => rfl
  | some entry =>
      show ((protocol.seenMessages.insert id (entry.addPeer peerId)).lookup id').map _ = _
      by_cases hid : id' = id
      · subst hid
        rw [Finmap.lookup_insert, hentry]
        rfl
      · rw [Finmap.lookup_insert_of_ne _ hid]

theorem firstSeen_foldl_propagated (id id' : GossipId) (protocol : GossipProtocol)
    (peerIds : List PeerId) :
    ((peerIds.foldl (propagated id) protocol).seenMessages.lookup id').map GossipEntry.firstSeen =
      (protocol.seenMessages.lookup id').map GossipEntry.firstSeen := by
  induction peerIds generalizing protocol with
  | nil => rfl
  | cons peerId peerIds ih => rw [List.foldl_cons, ih, firstSeen_propagated]

theorem firstSeen_noted (protocol : GossipProtocol) (now : Timestamp) (id id' : GossipId) :
    ((protocol.noted now id).seenMessages.lookup id').map GossipEntry.firstSeen =
      if id' = id then some now
      else (protocol.seenMessages.lookup id').map GossipEntry.firstSeen := by
  show ((protocol.seenMessages.insert id _).lookup id').map _ = _
  by_cases hid : id' = id
  · subst hid
    rw [Finmap.lookup_insert, if_pos rfl]
    rfl
  · rw [Finmap.lookup_insert_of_ne _ hid, if_neg hid]

theorem protocol_handleReceivedMessage (message : GossipMessage) (fromPeer : PeerId)
    (peers : List PeerRef) (s : GossipNet) :
    ((handleReceivedMessage C message fromPeer peers).next s).protocol =
      propagated (getMessageId message)
        (if getMessageId message ∈ s.protocol.seenMessages then s.protocol
          else s.protocol.noted s.env.clock.head (getMessageId message)) fromPeer := by
  by_cases h : getMessageId message ∈ s.protocol.seenMessages
  · have hexec : (handleReceivedMessage C message fromPeer peers).exec s =
        (.ok (), { s with protocol := propagated (getMessageId message) s.protocol fromPeer }) := by
      rw [handleReceivedMessage, Exec.exec_bind, exec_hasSeen, decide_eq_true h]
      exact exec_markPropagatedTo _ fromPeer s
    rw [Exec.next_of_ok hexec, if_pos h]
  · let s₁ : GossipNet :=
      { s with
        protocol := s.protocol.noted s.env.clock.head (getMessageId message)
        env := { s.env with clock := s.env.clock.tail } }
    have hmark : (markSeen (getMessageId message)).exec s = (.ok (), s₁) := exec_markSeen h
    have hgossip : (gossip C message peers).exec s₁ = (.ok 0, s₁) :=
      exec_gossip_of_seen (Finmap.mem_insert.mpr (Or.inl rfl)) peers
    have hexec : (handleReceivedMessage C message fromPeer peers).exec s =
        (.ok (), { s₁ with
          protocol := propagated (getMessageId message) s₁.protocol fromPeer }) := by
      rw [handleReceivedMessage, Exec.exec_bind, exec_hasSeen, decide_eq_false h]
      simp only [Bool.not_false, if_true]
      rw [Exec.exec_bind, hmark]
      simp only []
      rw [Exec.exec_bind, hgossip]
      exact exec_markPropagatedTo _ fromPeer s₁
    rw [Exec.next_of_ok hexec, if_neg h]

end GossipProtocol

namespace GossipNet
variable {C : WireCodec} {ttl : UInt64}

theorem firstSeen_eq_none {s : GossipNet} {id : GossipId} :
    s.firstSeen id = none ↔ id ∉ s.protocol.seenMessages := by
  rw [firstSeen, Option.map_eq_none_iff, Finmap.lookup_eq_none]

theorem firstSeen_round (s : GossipNet) (round : GossipRound) (id : GossipId) :
    (s.round C round).firstSeen id =
      if round.id = id then some ((s.firstSeen id).getD s.env.clock.head) else s.firstSeen id := by
  obtain ⟨peer, call⟩ := round
  let s₀ : GossipNet := { s with peer := peer }
  cases call with
  | gossip message peers =>
      show ((gossip C message peers).next s₀).firstSeen id =
        if getMessageId message = id then some ((s₀.firstSeen id).getD s.env.clock.head)
        else s₀.firstSeen id
      by_cases hseen : getMessageId message ∈ s₀.protocol.seenMessages
      · rw [Exec.next_of_ok (GossipProtocol.exec_gossip_of_seen hseen peers)]
        split
        · next hid =>
            subst hid
            obtain ⟨entry, hentry⟩ := Finmap.mem_iff.mp hseen
            rw [firstSeen, hentry, Option.map_some, Option.getD_some]
        · rfl
      · obtain ⟨s', hexec, -, hprotocol⟩ := GossipProtocol.exec_gossip_of_new (C := C) hseen peers
        rw [Exec.next_of_ok hexec, firstSeen, hprotocol,
          GossipProtocol.firstSeen_foldl_propagated, GossipProtocol.firstSeen_noted]
        by_cases hid : getMessageId message = id
        · subst hid
          rw [if_pos rfl, if_pos rfl, firstSeen_eq_none.mpr hseen, Option.getD_none]
        · rw [if_neg (Ne.symm hid), if_neg hid]
          rfl
  | received message fromPeer peers =>
      show ((handleReceivedMessage C message fromPeer peers).next s₀).firstSeen id =
        if getMessageId message = id then some ((s₀.firstSeen id).getD s.env.clock.head)
        else s₀.firstSeen id
      rw [firstSeen, GossipProtocol.protocol_handleReceivedMessage,
        GossipProtocol.firstSeen_propagated]
      by_cases hseen : getMessageId message ∈ s₀.protocol.seenMessages
      · rw [if_pos hseen]
        split
        · next hid =>
            subst hid
            obtain ⟨entry, hentry⟩ := Finmap.mem_iff.mp hseen
            rw [firstSeen, hentry, Option.map_some, Option.getD_some]
        · rfl
      · rw [if_neg hseen, GossipProtocol.firstSeen_noted]
        by_cases hid : getMessageId message = id
        · subst hid
          rw [if_pos rfl, if_pos rfl, firstSeen_eq_none.mpr hseen, Option.getD_none]
        · rw [if_neg (Ne.symm hid), if_neg hid]
          rfl

theorem firstSeen_step (s : GossipNet) (event : GossipEvent) (id : GossipId) :
    (s.event C ttl event).firstSeen id = timerStep ttl id (s.firstSeen id) event := by
  cases event with
  | round env round => exact firstSeen_round { s with env := env } round id
  | cleanup order now =>
      rw [timerStep, GossipNet.event, firstSeen, firstSeen,
        GossipProtocol.lookup_cleanupStaleEntries]
      cases s.protocol.seenMessages.lookup id with
      | none => rfl
      | some entry =>
          rw [Option.map_some, Option.filter_some, Option.filter_some, GossipEntry.isStale]
          by_cases hstale : ttl.toNat < (now id).toNat - entry.firstSeen.toNat
          · rw [decide_eq_true hstale, decide_eq_false (Nat.not_le_of_lt hstale)]
            rfl
          · rw [decide_eq_false hstale, decide_eq_true (Nat.le_of_not_lt hstale)]
            rfl
  | clear => simp [GossipNet.event, firstSeen, timerStep, GossipProtocol.clear]

theorem firstSeen_run (s : GossipNet) (events : List GossipEvent) (id : GossipId) :
    (Runs.run (GossipNet.event C ttl) s events).firstSeen id =
      Runs.run (timerStep ttl id) (s.firstSeen id) events := by
  induction events generalizing s with
  | nil => rfl
  | cons event events ih => rw [Runs.run_cons, Runs.run_cons, ih, firstSeen_step]

/-! ## A stretch of a run -/

theorem sentIn_of_firstSeen {s : GossipNet} {id : GossipId} (h : s.firstSeen id ≠ none)
    (event : GossipEvent) : sentIn C id s event = [] := by
  cases event with
  | round env round =>
      refine sentTo_of_seen ?_ round
      by_contra hseen
      exact h (firstSeen_eq_none.mpr hseen)
  | cleanup order now => rfl
  | clear => rfl

/-- The call is no earlier than `since`, on distinct peers; a cleanup no later than `ttl`
after. -/
def Within (ttl : UInt64) (since : Timestamp) : GossipEvent → Prop
  | .round env round => since.toNat ≤ env.clock.head.toNat ∧ round.Distinct
  | .cleanup _ now => ∀ id, (now id).toNat ≤ since.toNat + ttl.toNat
  | .clear => False

theorem timerStep_within {since started : Timestamp} {id : GossipId} {event : GossipEvent}
    (hwithin : Within ttl since event) (hstarted : since.toNat ≤ started.toNat) :
    timerStep ttl id (some started) event = some started := by
  cases event with
  | round env round =>
      rw [timerStep, Option.getD_some]
      split <;> rfl
  | cleanup order now =>
      have hnow : (now id).toNat - started.toNat ≤ ttl.toNat := by
        have := hwithin id
        omega
      rw [timerStep, Option.filter_some, decide_eq_true hnow]
      rfl
  | clear => exact absurd hwithin not_false

theorem fanout_event (s : GossipNet) (event : GossipEvent) :
    (s.event C ttl event).protocol.fanout = s.protocol.fanout := by
  cases event with
  | round env round => exact (noted_round { s with env := env } round).fanout
  | cleanup order now => rfl
  | clear => rfl

/-- What a call sends, it sends to different peers, no more than the fanout, and it starts the
timer. -/
theorem sentIn_within {since : Timestamp} {event : GossipEvent} (hwithin : Within ttl since event)
    (id : GossipId) (s : GossipNet) :
    (sentIn C id s event).Nodup ∧ (sentIn C id s event).length ≤ s.protocol.fanout.toNat ∧
    (sentIn C id s event ≠ [] →
      ∃ started, (s.event C ttl event).firstSeen id = some started ∧
        since.toNat ≤ started.toNat) := by
  cases event with
  | round env round =>
      obtain ⟨hnodup, hlength⟩ := nodup_sentTo (C := C) id { s with env := env } hwithin.2
      refine ⟨hnodup, hlength, fun hsent => ⟨env.clock.head, ?_, hwithin.1⟩⟩
      have hid : round.id = id := by
        by_contra hne
        exact hsent (if_neg hne)
      have hnew : s.firstSeen id = none := by
        by_contra hseen
        exact hsent (sentIn_of_firstSeen hseen (.round env round))
      rw [firstSeen_step, timerStep, if_pos hid, hnew, Option.getD_none]
  | cleanup order now => exact ⟨List.nodup_nil, Nat.zero_le _, fun hsent => absurd rfl hsent⟩
  | clear => exact ⟨List.nodup_nil, Nat.zero_le _, fun hsent => absurd rfl hsent⟩

/-- **Nobody gets a message twice in `message_ttl`.**  Take any stretch of a run, from any
table on, whose calls are no earlier than some time and whose cleanups are no later than
`message_ttl` after it.  Under each id no peer is sent a message twice in it, and no more than
`fanout` are sent one. -/
theorem stretch_once (C : WireCodec) (ttl : UInt64) (s : GossipNet) {since : Timestamp}
    {events : List GossipEvent} (hwithin : ∀ event ∈ events, Within ttl since event)
    (id : GossipId) :
    (Runs.trace (GossipNet.event C ttl) (sentIn C id) s events).Nodup ∧
    (Runs.trace (GossipNet.event C ttl) (sentIn C id) s events).length ≤
      s.protocol.fanout.toNat := by
  -- marked: the timer was started in the stretch
  let Marked (s' : GossipNet) : Prop :=
    ∃ started, s'.firstSeen id = some started ∧ since.toNat ≤ started.toNat
  have hkeep : ∀ s' event, Within ttl since event → Marked s' →
      Marked (s'.event C ttl event) := by
    rintro s' event hevent ⟨started, hseen, hstarted⟩
    refine ⟨started, ?_, hstarted⟩
    rw [firstSeen_step, hseen, timerStep_within hevent hstarted]
  have hquiet : ∀ s' event, Marked s' → sentIn C id s' event = [] := by
    rintro s' event ⟨started, hseen, -⟩
    refine sentIn_of_firstSeen ?_ event
    rw [hseen]
    exact Option.some_ne_none started
  have hmark : ∀ s' event, Within ttl since event → sentIn C id s' event ≠ [] →
      Marked (s'.event C ttl event) :=
    fun s' event hevent hsent => (sentIn_within hevent id s').2.2 hsent
  rcases Runs.trace_once_of_forall hkeep hquiet hmark s hwithin with
    hnone | ⟨before, event, after, hevents, htrace⟩
  · rw [hnone]
    exact ⟨List.nodup_nil, Nat.zero_le _⟩
  · have hmem : event ∈ events := by
      rw [hevents]
      exact List.mem_append_right _ List.mem_cons_self
    have hfanout : (Runs.run (GossipNet.event C ttl) s before).protocol.fanout =
        s.protocol.fanout :=
      Runs.run_preserves (I := fun s' => s'.protocol.fanout = s.protocol.fanout)
        (fun s' event h => (fanout_event s' event).trans h) rfl before
    obtain ⟨hnodup, hlength, -⟩ := sentIn_within (C := C) (hwithin event hmem) id
      (Runs.run (GossipNet.event C ttl) s before)
    rw [htrace, ← hfanout]
    exact ⟨hnodup, hlength⟩

/-! ## When a message goes out again -/

/-- **When a message goes out.**  A message that can be written is gossiped, after any run on
a new protocol, to a list with a connected peer that takes it.  In whatever order the peers are
shuffled, it is sent to one of them at least, if and only if the timer of its id is off, and
fewer than `fanout` connected peers refuse it. -/
theorem gossip_reaches_iff (C : WireCodec) (ttl fanout : UInt64) (peer₀ : PeerRef → Peer)
    (env₀ : Env) (before : List GossipEvent) (message : GossipMessage)
    (hpayload : (C.payload message).isOk = true) (peer : PeerRef → Peer) (peers : List PeerRef)
    (hsome : ∃ r ∈ peers, (peer r).isConnected = true ∧ (peer r).receiverClosed = false) :
    let s := Runs.run (GossipNet.event C ttl) ⟨GossipProtocol.new fanout, peer₀, env₀⟩ before
    (∀ env, Reaches C ⟨s.protocol, peer, env⟩ message peers) ↔
      timer ttl (getMessageId message) before = none ∧
        (refusing peer peers).length < fanout.toNat := by
  intro s
  have hfanout : s.protocol.fanout = fanout :=
    Runs.run_preserves (I := fun s' => s'.protocol.fanout = fanout)
      (fun s' event h => (fanout_event s' event).trans h) rfl before
  have hnew : (GossipNet.mk (GossipProtocol.new fanout) peer₀ env₀).firstSeen
      (getMessageId message) = none := by
    simp [firstSeen, GossipProtocol.new]
  have htimer : s.firstSeen (getMessageId message) = timer ttl (getMessageId message) before := by
    rw [timer, ← hnew]
    exact firstSeen_run _ before _
  rw [← htimer, firstSeen_eq_none]
  by_cases hseen : getMessageId message ∈ s.protocol.seenMessages
  · refine iff_of_false ?_ fun h => h.1 hseen
    intro hall
    exact not_reaches_of_seen (s := ⟨s.protocol, peer, env₀⟩) hseen peers (hall env₀)
  · rw [and_iff_right hseen, ← hfanout]
    constructor
    · intro hall
      by_contra hge
      obtain ⟨env, hnone⟩ := exists_env_of_le (C := C) (Nat.le_of_not_lt hge)
      exact hnone ((reaches_iff_of_new (s := ⟨s.protocol, peer, env⟩) hseen peers).mp (hall env))
    · intro hlt env
      refine (reaches_iff_of_new (s := ⟨s.protocol, peer, env⟩) hseen peers).mpr ?_
      refine exists_target_of_lt hpayload ?_ hlt
      obtain ⟨r, hr, hconnected, hopen⟩ := hsome
      exact ⟨r, List.mem_filter.mpr ⟨hr, hconnected⟩, hopen⟩

end GossipNet

namespace GossipNet
open Reference (wireCodec gossipNet listener zeroBlock announcing)

/-- Announced, cleaned and announced again within five minutes. -/
theorem stretch_once_sample :
    (Runs.trace (GossipNet.event wireCodec 300) (sentIn wireCodec announcing.id) gossipNet
      [.round gossipNet.env announcing, .cleanup default fun _ => 1300,
        .round gossipNet.env announcing]).length ≤ 4 := by
  have hround : Within 300 1000 (.round gossipNet.env announcing) :=
    ⟨le_rfl, List.nodup_singleton _⟩
  have hcleanup : Within 300 1000 (.cleanup default fun _ => 1300) := by
    intro id
    exact le_rfl
  have hwithin : ∀ event ∈ [.round gossipNet.env announcing, .cleanup default fun _ => 1300,
      .round gossipNet.env announcing], Within 300 1000 event := by
    simp only [List.forall_mem_cons]
    exact ⟨hround, hcleanup, hround, fun event hevent => absurd hevent List.not_mem_nil⟩
  exact (stretch_once wireCodec 300 gossipNet hwithin announcing.id).2

/-- Announced, cleaned too late, and gossiped. -/
theorem gossip_reaches_sample :
    Reaches wireCodec
      ⟨(Runs.run (GossipNet.event wireCodec 300)
        ⟨GossipProtocol.new 4, fun _ => listener, gossipNet.env⟩
        [.round gossipNet.env announcing, .cleanup default fun _ => 1301]).protocol,
        fun _ => listener, gossipNet.env⟩ (.newBlock zeroBlock) [0] := by
  refine (gossip_reaches_iff wireCodec 300 4 (fun _ => listener) gossipNet.env
    [.round gossipNet.env announcing, .cleanup default fun _ => 1301]
    (.newBlock zeroBlock) rfl (fun _ => listener) [0] ⟨0, List.mem_cons_self, rfl, rfl⟩).mpr
    ⟨?_, by decide⟩ gossipNet.env
  have hround : timerStep 300 (getMessageId (.newBlock zeroBlock)) none
      (.round gossipNet.env announcing) = some 1000 := by
    rw [timerStep, if_pos (by decide)]
    rfl
  rw [timer, Runs.run_cons, hround]
  rfl

end GossipNet

end VotingChain
