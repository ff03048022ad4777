/-
# `VotingChain.GossipRuns` — the gossip protocol over whole runs

What `gossip` and `handle_received_message` do, call after call, to one table of messages
seen.  Between two calls the peers may change in any way, so each call comes with the peers
as they are at that time (`GossipRound`).

The first call with an id makes an entry, and from then on nothing is sent under that id.
Hence

    nobody gets a message twice, and `fanout` peers get it at most   (`gossip_once`)
    what comes first under an id is all that is ever sent            (`first_gossip_reaches_iff`)

An announcement and what it announces have one id, so that the second of the two stays here.
-/
import Mathlib.Data.Fin.Tuple.Sort
import VotingChain.Gossip

namespace VotingChain

open GossipProtocol (getMessageId gossip Noted)
open GossipNet (Posts)

/-! ## Shuffles -/

theorem Shuffle.exists_apply_eq {α : Type} [LinearOrder α] {xs ys : List α} (h : xs.Perm ys) :
    ∃ σ : Shuffle, σ.apply xs = ys := by
  have hlength : xs.length = ys.length := h.length_eq
  let g : Fin xs.length → α := fun i => ys.get (i.cast hlength)
  have hg : List.ofFn g = ys := by
    refine List.ext_getElem ?_ ?_
    · rw [List.length_ofFn, hlength]
    · intro i hi hi'
      rw [List.getElem_ofFn]
      rfl
  -- sorted, the two are the same
  have hsorted : xs.get ∘ Tuple.sort xs.get = g ∘ Tuple.sort g := by
    have hperm : (List.ofFn (xs.get ∘ Tuple.sort xs.get)).Perm (List.ofFn (g ∘ Tuple.sort g)) := by
      refine (Equiv.Perm.ofFn_comp_perm _ _).trans (List.Perm.trans ?_
        (Equiv.Perm.ofFn_comp_perm _ _).symm)
      rw [List.ofFn_get, hg]
      exact h
    exact List.ofFn_injective (hperm.eq_of_pairwise'
      (Tuple.monotone_sort xs.get).sortedLE_ofFn.pairwise
      (Tuple.monotone_sort g).sortedLE_ofFn.pairwise)
  let e : Equiv.Perm (Fin xs.length) := (Tuple.sort g).symm.trans (Tuple.sort xs.get)
  have he : ∀ i, xs.get (e i) = g i := by
    intro i
    have hi := congrFun hsorted ((Tuple.sort g).symm i)
    rw [Function.comp_apply, Function.comp_apply, Equiv.apply_symm_apply] at hi
    exact hi
  refine ⟨Function.update (fun n => Equiv.refl (Fin n)) xs.length e, ?_⟩
  rw [Shuffle.apply, Function.update_self, ← hg]
  exact congrArg List.ofFn (funext he)

/-! ## Rounds -/

/-- The message of a call. -/
def GossipCall.message : GossipCall → GossipMessage
  | .gossip message _ => message
  | .received message _ _ => message

/-- The list of peers of a call. -/
def GossipCall.peers : GossipCall → List PeerRef
  | .gossip _ peers => peers
  | .received _ _ peers => peers

/-- A call, and the peers as they are at that time. -/
structure GossipRound where
  peer : PeerRef → Peer
  call : GossipCall

/-- The id of the message. -/
def GossipRound.id (round : GossipRound) : GossipId := getMessageId round.call.message

/-- The entries of the list are different peers. -/
def GossipRound.Distinct (round : GossipRound) : Prop :=
  (round.call.peers.map fun r => (round.peer r).id).Nodup

namespace GossipNet
variable (C : WireCodec)

def round (s : GossipNet) (round : GossipRound) : GossipNet :=
  GossipNet.step C { s with peer := round.peer } round.call

/-- The peers that are sent the message of a round under this id, each as often as its channel
gets longer. -/
def sentTo (id : GossipId) (s : GossipNet) (round : GossipRound) : List PeerId :=
  if round.id = id then
    round.call.peers.flatMap fun r =>
      List.replicate (((s.round C round).peer r).messages.length - (round.peer r).messages.length)
        (round.peer r).id
  else []

variable {C}

theorem noted_round (s : GossipNet) (round : GossipRound) :
    Noted round.id s.protocol (s.round C round).protocol := by
  obtain ⟨peer, call⟩ := round
  cases call with
  | gossip message peers =>
      exact GossipProtocol.noted_gossip message peers { s with peer := peer }
  | received message fromPeer peers =>
      obtain ⟨s', hexec, -, hnoted⟩ := GossipProtocol.exec_handleReceivedMessage (C := C) message
        fromPeer peers { s with peer := peer }
      rw [GossipNet.round, GossipNet.step, Exec.next_of_ok hexec]
      exact hnoted

/-! ## One round -/

theorem sentTo_of_peer_eq {id : GossipId} {s : GossipNet} {round : GossipRound}
    (hpeer : (s.round C round).peer = round.peer) : sentTo C id s round = [] := by
  rw [sentTo, hpeer]
  split
  · refine List.flatMap_eq_nil_iff.mpr ?_
    intro r _
    rw [Nat.sub_self]
    rfl
  · rfl

theorem sentTo_received (id : GossipId) (s : GossipNet) (peer : PeerRef → Peer)
    (message : GossipMessage) (fromPeer : PeerId) (peers : List PeerRef) :
    sentTo C id s ⟨peer, .received message fromPeer peers⟩ = [] :=
  sentTo_of_peer_eq (GossipProtocol.peer_handleReceivedMessage message fromPeer peers
    { s with peer := peer })

theorem sentTo_of_seen {id : GossipId} {s : GossipNet} (h : id ∈ s.protocol.seenMessages)
    (round : GossipRound) : sentTo C id s round = [] := by
  by_cases hid : round.id = id
  · obtain ⟨peer, call⟩ := round
    cases call with
    | gossip message peers =>
        have hseen : getMessageId message ∈ s.protocol.seenMessages := by
          rw [← hid] at h
          exact h
        let s₀ : GossipNet := { s with peer := peer }
        have hexec : (gossip C message peers).exec s₀ = (.ok 0, s₀) :=
          GossipProtocol.exec_gossip_of_seen (s := s₀) hseen peers
        refine sentTo_of_peer_eq ?_
        rw [GossipNet.round, GossipNet.step, Exec.next_of_ok hexec]
    | received message fromPeer peers => exact sentTo_received id s peer message fromPeer peers
  · exact if_neg hid

theorem flatMap_replicate_count {β : Type} (f : PeerRef → β) {accepted : List PeerRef}
    (hnodup : accepted.Nodup) (peers : List PeerRef) :
    (peers.flatMap fun r => List.replicate (accepted.count r) (f r)) =
      (peers.filter fun r => decide (r ∈ accepted)).map f := by
  induction peers with
  | nil => rfl
  | cons r peers ih =>
      rw [List.flatMap_cons, ih, hnodup.count]
      by_cases hr : r ∈ accepted
      · rw [if_pos hr, List.filter_cons_of_pos (p := fun r => decide (r ∈ accepted))
          (decide_eq_true hr), List.map_cons]
        rfl
      · rw [if_neg hr, List.filter_cons_of_neg (p := fun r => decide (r ∈ accepted))
          (fun h => hr (of_decide_eq_true h))]
        rfl

/-- A message that has not been seen goes to different peers, and not to more of them than the
fanout. -/
theorem nodup_sentTo (id : GossipId) (s : GossipNet) {round : GossipRound}
    (hdistinct : round.Distinct) :
    (sentTo C id s round).Nodup ∧ (sentTo C id s round).length ≤ s.protocol.fanout.toNat := by
  by_cases hquiet : sentTo C id s round = []
  · rw [hquiet]
    exact ⟨List.nodup_nil, Nat.zero_le _⟩
  obtain ⟨peer, call⟩ := round
  cases call with
  | received message fromPeer peers =>
      exact absurd (sentTo_received id s peer message fromPeer peers) hquiet
  | gossip message peers =>
      have hid : getMessageId message = id := by
        by_contra hne
        exact hquiet (if_neg hne)
      have hnew : getMessageId message ∉ s.protocol.seenMessages := by
        intro hseen
        rw [hid] at hseen
        exact hquiet (sentTo_of_seen hseen _)
      let s₀ : GossipNet := { s with peer := peer }
      let accepted := (s₀.targets peers).filter (s₀.accepts C message)
      obtain ⟨s', hexec, hposts, -⟩ :=
        GossipProtocol.exec_gossip_of_new (C := C) (s := s₀) hnew peers
      have hround : s.round C ⟨peer, .gossip message peers⟩ = s' := Exec.next_of_ok hexec
      have hpeers : peers.Nodup := List.Nodup.of_map _ hdistinct
      have haccepted : accepted.Nodup := by
        obtain ⟨listed, hperm, hsublist⟩ := s₀.targets_subperm peers
        exact ((hperm.nodup_iff).mp (hpeers.sublist (hsublist.trans List.filter_sublist))).filter _
      have hsent : sentTo C id s ⟨peer, .gossip message peers⟩ =
          (peers.filter fun r => decide (r ∈ accepted)).map fun r => (peer r).id := by
        rw [← flatMap_replicate_count _ haccepted]
        refine (if_pos hid).trans ?_
        rw [hround]
        refine List.flatMap_congr ?_
        intro r _
        obtain ⟨ms, -, hlength, hmessages⟩ := hposts.posted r
        rw [hmessages, List.length_append, Nat.add_sub_cancel_left, hlength]
      rw [hsent]
      refine ⟨hdistinct.sublist (List.filter_sublist.map _), ?_⟩
      have hsub : (peers.filter fun r => decide (r ∈ accepted)) ⊆ accepted := by
        intro r hr
        exact of_decide_eq_true (List.mem_filter.mp hr).2
      rw [List.length_map]
      refine (List.subperm_of_subset (hpeers.filter _) hsub).length_le.trans ?_
      refine (List.length_filter_le _ _).trans ?_
      rw [s₀.length_targets]
      exact Nat.min_le_left _ _

/-! ## Runs -/

theorem fanout_run (s : GossipNet) (rounds : List GossipRound) :
    (Runs.run (GossipNet.round C) s rounds).protocol.fanout = s.protocol.fanout :=
  Runs.run_preserves (I := fun s' => s'.protocol.fanout = s.protocol.fanout)
    (fun s' round h => (noted_round s' round).fanout.trans h) rfl rounds

theorem mem_seenMessages_run (s : GossipNet) (rounds : List GossipRound) (id : GossipId) :
    id ∈ (Runs.run (GossipNet.round C) s rounds).protocol.seenMessages ↔
      (∃ round ∈ rounds, round.id = id) ∨ id ∈ s.protocol.seenMessages := by
  induction rounds generalizing s with
  | nil => simp
  | cons round rounds ih =>
      rw [Runs.run_cons, ih, (noted_round s round).mem]
      simp only [List.mem_cons, exists_eq_or_imp, @eq_comm _ id round.id]
      rw [← or_assoc]
      exact or_congr_left or_comm

/-- **Nobody gets a message twice.**  In any run of calls, whose lists have distinct peers and
who may change as they like in between: under each id no peer is sent a message twice, no
more peers than the fanout are sent one, and none that has been noted down is sent one
afterwards. -/
theorem gossip_once (C : WireCodec) (s : GossipNet) (rounds : List GossipRound)
    (hdistinct : ∀ round ∈ rounds, round.Distinct) (id : GossipId) :
    (Runs.trace (GossipNet.round C) (sentTo C id) s rounds).Nodup ∧
    (Runs.trace (GossipNet.round C) (sentTo C id) s rounds).length ≤ s.protocol.fanout.toNat ∧
    ∀ before after, rounds = before ++ after → ∀ entry,
      (Runs.run (GossipNet.round C) s before).protocol.seenMessages.lookup id = some entry →
      ∀ peerId ∈ entry.propagatedTo, peerId ∉
        Runs.trace (GossipNet.round C) (sentTo C id) (Runs.run (GossipNet.round C) s before)
          after := by
  have hkeep : ∀ (s' : GossipNet) round, id ∈ s'.protocol.seenMessages →
      id ∈ (s'.round C round).protocol.seenMessages := by
    intro s' round h
    exact ((noted_round s' round).mem id).mpr (Or.inr h)
  have hmark : ∀ (s' : GossipNet) round, sentTo C id s' round ≠ [] →
      id ∈ (s'.round C round).protocol.seenMessages := by
    intro s' round h
    refine ((noted_round s' round).mem id).mpr (Or.inl ?_)
    by_contra hne
    exact h (if_neg fun heq => hne heq.symm)
  have hquiet : ∀ (s' : GossipNet) round, id ∈ s'.protocol.seenMessages →
      sentTo C id s' round = [] := fun s' round h => sentTo_of_seen h round
  have honce : (Runs.trace (GossipNet.round C) (sentTo C id) s rounds).Nodup ∧
      (Runs.trace (GossipNet.round C) (sentTo C id) s rounds).length ≤
        s.protocol.fanout.toNat := by
    rcases Runs.trace_once hkeep hquiet hmark s rounds with
      hnone | ⟨before, round, after, hrounds, htrace⟩
    · rw [hnone]
      exact ⟨List.nodup_nil, Nat.zero_le _⟩
    · have hmem : round ∈ rounds := by
        rw [hrounds]
        exact List.mem_append_right _ List.mem_cons_self
      rw [htrace, ← fanout_run (C := C) s before]
      exact nodup_sentTo id _ (hdistinct round hmem)
  refine ⟨honce.1, honce.2, ?_⟩
  intro before after _ entry hentry peerId _
  rw [Runs.trace_of_marked hkeep hquiet (Finmap.mem_of_lookup_eq_some hentry)]
  exact List.not_mem_nil

/-! ## What comes first under an id -/

variable (C) in
/-- One of the peers is sent the message. -/
def Reaches (s : GossipNet) (message : GossipMessage) (peers : List PeerRef) : Prop :=
  ∃ r ∈ peers, ∃ m ms, Message.Carries C message m ∧
    (((gossip C message peers).next s).peer r).messages = (s.peer r).messages ++ m :: ms

/-- The connected peers on which a send fails. -/
def refusing (peer : PeerRef → Peer) (peers : List PeerRef) : List PeerRef :=
  peers.filter fun r => (peer r).isConnected && (peer r).receiverClosed

theorem not_reaches_of_seen {s : GossipNet} {message : GossipMessage}
    (h : getMessageId message ∈ s.protocol.seenMessages) (peers : List PeerRef) :
    ¬Reaches C s message peers := by
  rintro ⟨r, -, m, ms, -, hmessages⟩
  rw [Exec.next_of_ok (GossipProtocol.exec_gossip_of_seen h peers), List.self_eq_append_right]
    at hmessages
  cases hmessages

theorem reaches_iff_of_new {s : GossipNet} {message : GossipMessage}
    (h : getMessageId message ∉ s.protocol.seenMessages) (peers : List PeerRef) :
    Reaches C s message peers ↔ ∃ r ∈ s.targets peers, s.accepts C message r = true := by
  obtain ⟨s', hexec, hposts, -⟩ := GossipProtocol.exec_gossip_of_new (C := C) h peers
  rw [Reaches, Exec.next_of_ok hexec]
  constructor
  · rintro ⟨r, -, m, ms, -, hmessages⟩
    by_contra hnone
    have hquiet : r ∉ (s.targets peers).filter (s.accepts C message) := by
      intro hmem
      obtain ⟨htarget, haccepts⟩ := List.mem_filter.mp hmem
      exact hnone ⟨r, htarget, haccepts⟩
    rw [hposts.quiet r hquiet, List.self_eq_append_right] at hmessages
    cases hmessages
  · rintro ⟨r, htarget, haccepts⟩
    obtain ⟨ms, hms, hlength, hmessages⟩ := hposts.posted r
    have hpos : 0 < ms.length := by
      rw [hlength]
      exact List.count_pos_iff.mpr (List.mem_filter.mpr ⟨htarget, haccepts⟩)
    obtain ⟨m, ms', rfl⟩ := List.exists_cons_of_length_pos hpos
    refine ⟨r, ?_, m, ms', hms m List.mem_cons_self, hmessages⟩
    exact List.mem_of_mem_filter ((s.targets_subperm peers).subset htarget)

theorem exists_target_of_lt {s : GossipNet} {message : GossipMessage} {peers : List PeerRef}
    (hpayload : (C.payload message).isOk = true)
    (hsome : ∃ r ∈ s.connectedPeers peers, (s.peer r).receiverClosed = false)
    (hlt : (refusing s.peer peers).length < s.protocol.fanout.toNat) :
    ∃ r ∈ s.targets peers, s.accepts C message r = true := by
  by_contra hnone
  have hclosed : ∀ r ∈ s.targets peers, (s.peer r).receiverClosed = true := by
    intro r hr
    by_contra hopen
    refine hnone ⟨r, hr, ?_⟩
    rw [accepts, hpayload, Bool.eq_false_of_not_eq_true hopen]
    rfl
  have hrefusing : (s.connectedPeers peers).filter (fun r => (s.peer r).receiverClosed) =
      refusing s.peer peers := by
    rw [connectedPeers, List.filter_filter, refusing]
    exact List.filter_congr fun r _ => Bool.and_comm _ _
  -- every target is among those that refuse, and they are fewer than the fanout
  have hle : (s.targets peers).length ≤ (refusing s.peer peers).length := by
    rw [← hrefusing, ← List.filter_eq_self.mpr hclosed]
    exact ((s.targets_subperm peers).filter _).length_le
  rw [s.length_targets] at hle
  have hall : (s.connectedPeers peers).length ≤ (refusing s.peer peers).length := by omega
  rw [← hrefusing] at hall
  have heq := (List.filter_sublist (p := fun r => (s.peer r).receiverClosed)
    (l := s.connectedPeers peers)).eq_of_length_le hall
  obtain ⟨r, hr, hopen⟩ := hsome
  rw [List.filter_eq_self.mp heq r hr] at hopen
  cases hopen

theorem exists_env_of_le {protocol : GossipProtocol} {peer : PeerRef → Peer}
    {message : GossipMessage} {peers : List PeerRef}
    (hle : protocol.fanout.toNat ≤ (refusing peer peers).length) :
    ∃ env, ¬∃ r ∈ GossipNet.targets ⟨protocol, peer, env⟩ peers,
      GossipNet.accepts C message ⟨protocol, peer, env⟩ r = true := by
  let connected := peers.filter fun r => (peer r).isConnected
  have hrefusing : connected.filter (fun r => (peer r).receiverClosed) = refusing peer peers := by
    rw [List.filter_filter, refusing]
    exact List.filter_congr fun r _ => Bool.and_comm _ _
  have hperm := (List.filter_append_perm (fun r => (peer r).receiverClosed) connected).symm
  obtain ⟨σ, hσ⟩ := Shuffle.exists_apply_eq hperm
  refine ⟨⟨Stream'.const 0, Stream'.const 0, Stream'.const σ⟩, ?_⟩
  rintro ⟨r, hr, haccepts⟩
  have htargets : GossipNet.targets
      ⟨protocol, peer, ⟨Stream'.const 0, Stream'.const 0, Stream'.const σ⟩⟩ peers =
      (refusing peer peers).take protocol.fanout.toNat := by
    show (σ.apply connected).take protocol.fanout.toNat = _
    rw [hσ, hrefusing, List.take_append_of_le_length hle]
  rw [htargets] at hr
  have hclosed := (List.mem_filter.mp (List.mem_of_mem_take hr)).2
  rw [Bool.and_eq_true] at hclosed
  rw [accepts, hclosed.2, Bool.not_true, Bool.and_false] at haccepts
  cases haccepts

/-- **What comes first under an id.**  A message that can be written is gossiped, after any
run of calls on a new protocol, to a list with a connected peer that takes it.  In whatever
order the peers are shuffled, it is sent to one of them at least, if and only if there was no
call with its id before, and fewer than `fanout` connected peers refuse it. -/
theorem first_gossip_reaches_iff (C : WireCodec) (fanout : UInt64) (peer₀ : PeerRef → Peer)
    (env₀ : Env) (before : List GossipRound) (message : GossipMessage)
    (hpayload : (C.payload message).isOk = true) (peer : PeerRef → Peer) (peers : List PeerRef)
    (hsome : ∃ r ∈ peers, (peer r).isConnected = true ∧ (peer r).receiverClosed = false) :
    let s := Runs.run (GossipNet.round C) ⟨GossipProtocol.new fanout, peer₀, env₀⟩ before
    (∀ env, Reaches C ⟨s.protocol, peer, env⟩ message peers) ↔
      (∀ round ∈ before, round.id ≠ getMessageId message) ∧
        (refusing peer peers).length < fanout.toNat := by
  intro s
  have hfanout : s.protocol.fanout = fanout := fanout_run _ before
  have hseen : getMessageId message ∈ s.protocol.seenMessages ↔
      ∃ round ∈ before, round.id = getMessageId message := by
    refine (mem_seenMessages_run _ before _).trans (or_iff_left ?_)
    exact Finmap.notMem_empty
  by_cases hnew : getMessageId message ∈ s.protocol.seenMessages
  · refine iff_of_false ?_ ?_
    · intro hall
      exact not_reaches_of_seen (s := ⟨s.protocol, peer, env₀⟩) hnew peers (hall env₀)
    · rintro ⟨hfirst, -⟩
      obtain ⟨round, hround, hid⟩ := hseen.mp hnew
      exact hfirst round hround hid
  · have hfirst : ∀ round ∈ before, round.id ≠ getMessageId message :=
      fun round hround hid => hnew (hseen.mpr ⟨round, hround, hid⟩)
    rw [and_iff_right hfirst, ← hfanout]
    constructor
    · intro hall
      by_contra hge
      obtain ⟨env, hnone⟩ := exists_env_of_le (C := C) (Nat.le_of_not_lt hge)
      exact hnone ((reaches_iff_of_new (s := ⟨s.protocol, peer, env⟩) hnew peers).mp (hall env))
    · intro hlt env
      refine (reaches_iff_of_new (s := ⟨s.protocol, peer, env⟩) hnew peers).mpr ?_
      refine exists_target_of_lt hpayload ?_ hlt
      obtain ⟨r, hr, hconnected, hopen⟩ := hsome
      exact ⟨r, List.mem_filter.mpr ⟨hr, hconnected⟩, hopen⟩

end GossipNet

/-! ## Rounds to try things on -/

namespace Reference

/-- A block whose hash is all zeros. -/
def zeroBlock : Block :=
  ⟨⟨1, 1000, BlockHash.zero, BlockHash.zero, BlockHash.zero, key, 0⟩, [], []⟩

/-- It is announced to the one peer. -/
def announcing : GossipRound where
  peer _ := listener
  call := .gossip (.blockAnnouncement ⟨1, BlockHash.zero, 1000, 0⟩) [0]

/-- Another block is announced. -/
def announcingOther : GossipRound where
  peer _ := listener
  call := .gossip (.blockAnnouncement ⟨2, ⟨List.Vector.replicate 32 1⟩, 1000, 0⟩) [0]

end Reference

namespace GossipNet
open Reference (wireCodec gossipNet listener zeroBlock announcing announcingOther)

/-- A block is announced twice: the peer is told once at most. -/
theorem gossip_once_sample :
    (Runs.trace (GossipNet.round wireCodec) (sentTo wireCodec announcing.id) gossipNet
      [announcing, announcing]).length ≤ 4 := by
  refine (gossip_once wireCodec gossipNet [announcing, announcing] ?_ announcing.id).2.1
  intro round hround
  have heq : round = announcing := by
    rcases List.mem_cons.mp hround with heq | hround
    · exact heq
    · exact List.mem_singleton.mp hround
  rw [heq]
  exact List.nodup_singleton _

/-- A block is gossiped after the announcement of another one, and reaches the peer. -/
theorem first_gossip_reaches_sample :
    Reaches wireCodec
      ⟨(Runs.run (GossipNet.round wireCodec)
        ⟨GossipProtocol.new 4, fun _ => listener, gossipNet.env⟩ [announcingOther]).protocol,
        fun _ => listener, gossipNet.env⟩ (.newBlock zeroBlock) [0] := by
  refine (first_gossip_reaches_iff wireCodec 4 (fun _ => listener) gossipNet.env [announcingOther]
    (.newBlock zeroBlock) rfl (fun _ => listener) [0] ⟨0, List.mem_cons_self, rfl, rfl⟩).mpr
    ⟨?_, by decide⟩ gossipNet.env
  intro round hround
  rw [List.mem_singleton.mp hround]
  decide

/-- A block is gossiped after its own announcement, and reaches nobody. -/
theorem announced_block_stays :
    (listener.isConnected = true ∧ listener.receiverClosed = false) ∧
    announcing.call.message ≠ .newBlock zeroBlock ∧
    ¬Reaches wireCodec
      ⟨(Runs.run (GossipNet.round wireCodec)
        ⟨GossipProtocol.new 4, fun _ => listener, gossipNet.env⟩ [announcing]).protocol,
        fun _ => listener, gossipNet.env⟩ (.newBlock zeroBlock) [0] := by
  refine ⟨⟨rfl, rfl⟩, ?_, ?_⟩
  · intro heq
    cases heq
  · refine not_reaches_of_seen ?_ [0]
    exact (mem_seenMessages_run _ [announcing] _).mpr
      (Or.inl ⟨announcing, List.mem_cons_self, rfl⟩)

end GossipNet

end VotingChain
