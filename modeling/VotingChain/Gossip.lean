/-
# `VotingChain.Gossip` — how messages are passed on

The model of `network/src/gossip.rs`, and of what it uses of `peer.rs` and `protocol.rs`.

A message that has not been seen before is sent to some of the peers, `fanout` of them at
most, and the table of messages seen says which.  A message that comes from a peer is to be
passed on in the same way.  `handle_received_message` enters it in the table first, and for
`gossip` it is then a message that has been seen: nothing is passed on (`relayed_iff`).

**Peers** are handles.  A clone of a `Peer` shares its state with the original, so the state
is kept apart, under a reference, and lists of peers are lists of references.

**The environment.**  The clock, the nonces and the order of the shuffled peers are what the
environment gives, one after the other, whatever it is.
-/
import Mathlib.Data.Finmap
import Mathlib.Data.List.FinRange
import Mathlib.Data.Stream.Defs
import VotingChain.Lib.Runs
import VotingChain.Reference

namespace VotingChain

/-! ## Messages and peers -/

/-- Unique peer identifier. -/
structure PeerId where
  bytes : ByteArr 32
  deriving DecidableEq

/-- Peer connection status. -/
inductive PeerStatus
  | connecting
  | connected
  | disconnected
  | banned
  deriving DecidableEq

/-- Protocol message types. -/
inductive MessageType
  | handshake
  | ping
  | pong
  | getPeers
  | peers
  | getBlocks
  | blocks
  | newBlock
  | getTransactions
  | transactions
  | newTransaction
  | getStatus
  | status
  | disconnect
  deriving DecidableEq

/-- Network protocol message. -/
structure Message where
  msgType : MessageType
  payload : Bytes
  timestamp : Timestamp
  nonce : UInt64
  deriving DecidableEq

/-- The state of a peer connection.  `messages` are those in its channel, which can be sent
to as long as the receiver is not closed. -/
structure Peer where
  id : PeerId
  status : PeerStatus
  lastSeen : Timestamp
  messagesSent : UInt64
  messages : List Message
  receiverClosed : Bool
  deriving DecidableEq

/-- Where the state of a peer is kept. -/
abbrev PeerRef := Nat

/-- Block announcement (lightweight version). -/
structure BlockAnnouncement where
  height : UInt64
  hash : BlockHash
  timestamp : Timestamp
  transactionCount : UInt32
  deriving DecidableEq

/-- Transaction announcement (lightweight version). -/
structure TransactionAnnouncement where
  txId : TxId
  timestamp : Timestamp
  size : UInt64
  deriving DecidableEq

/-- Gossip message types. -/
inductive GossipMessage
  | newBlock (block : Block)
  | newTransaction (tx : Transaction)
  | blockAnnouncement (ann : BlockAnnouncement)
  | transactionAnnouncement (ann : TransactionAnnouncement)
  deriving DecidableEq

/-- Gossip message identifier. -/
structure GossipId where
  bytes : ByteArr 32
  deriving DecidableEq

def GossipId.fromBlockHash (hash : BlockHash) : GossipId := ⟨hash.bytes⟩

def GossipId.fromTxId (txId : TxId) : GossipId := ⟨txId.bytes⟩

/-- Gossip tracking entry. -/
structure GossipEntry where
  id : GossipId
  firstSeen : Timestamp
  propagatedTo : Finset PeerId
  deriving DecidableEq

namespace GossipEntry

def new (now : Timestamp) (id : GossipId) : GossipEntry := ⟨id, now, ∅⟩

def addPeer (peerId : PeerId) (entry : GossipEntry) : GossipEntry :=
  { entry with propagatedTo := insert peerId entry.propagatedTo }

def hasPeer (entry : GossipEntry) (peerId : PeerId) : Bool := decide (peerId ∈ entry.propagatedTo)

end GossipEntry

/-- Gossip protocol implementation. -/
structure GossipProtocol where
  fanout : UInt64
  seenMessages : Finmap fun _ : GossipId => GossipEntry

def GossipProtocol.new (fanout : UInt64) : GossipProtocol := ⟨fanout, ∅⟩

/-- `bincode::serialize` on what is sent.  It may fail, with a text. -/
structure WireCodec where
  block : Block → Except String Bytes
  transaction : Transaction → Except String Bytes
  blockAnnouncement : BlockAnnouncement → Except String Bytes
  transactionAnnouncement : TransactionAnnouncement → Except String Bytes

/-! ## The environment -/

/-- How a slice of each length is shuffled. -/
abbrev Shuffle := ∀ n, Equiv.Perm (Fin n)

namespace Shuffle
variable {α : Type}

/-- `SliceRandom::shuffle`. -/
def apply (σ : Shuffle) (xs : List α) : List α := List.ofFn fun i => xs.get (σ xs.length i)

theorem perm_apply (σ : Shuffle) (xs : List α) : (σ.apply xs).Perm xs := by
  have h := Equiv.Perm.ofFn_comp_perm (σ xs.length) xs.get
  rw [List.ofFn_get] at h
  exact h

end Shuffle

/-- What is still to come from the clock and from the random number generator. -/
structure Env where
  clock : Stream' Timestamp
  nonces : Stream' UInt64
  shuffles : Stream' Shuffle

/-- The protocol, with the peers and the environment. -/
structure GossipNet where
  protocol : GossipProtocol
  peer : PeerRef → Peer
  env : Env

namespace GossipNet

def currentTimestamp : Exec GossipNet Timestamp := do
  let s ← get
  modify fun s => { s with env := { s.env with clock := s.env.clock.tail } }
  pure s.env.clock.head

/-- `rand::random`. -/
def randomU64 : Exec GossipNet UInt64 := do
  let s ← get
  modify fun s => { s with env := { s.env with nonces := s.env.nonces.tail } }
  pure s.env.nonces.head

def shuffle (xs : List PeerRef) : Exec GossipNet (List PeerRef) := do
  let s ← get
  modify fun s => { s with env := { s.env with shuffles := s.env.shuffles.tail } }
  pure (s.env.shuffles.head.apply xs)

end GossipNet

/-! ## Sending to a peer -/

namespace Message

def new (msgType : MessageType) (payload : Bytes) : Exec GossipNet Message := do
  let timestamp ← GossipNet.currentTimestamp
  let nonce ← GossipNet.randomU64
  pure ⟨msgType, payload, timestamp, nonce⟩

def newBlock (C : WireCodec) (block : Block) : Exec GossipNet Message := do
  let payload ← Exec.lift (ofBincode (C.block block))
  new .newBlock payload

def newTransaction (C : WireCodec) (tx : Transaction) : Exec GossipNet Message := do
  let payload ← Exec.lift (ofBincode (C.transaction tx))
  new .newTransaction payload

end Message

namespace Peer

def isConnected (peer : Peer) : Bool := decide (peer.status = .connected)

/-- A write to the state of a peer. -/
def update (peer : PeerRef) (f : Peer → Peer) : Exec GossipNet Unit :=
  modify fun s => { s with peer := Function.update s.peer peer (f (s.peer peer)) }

def updateLastSeen (peer : PeerRef) : Exec GossipNet Unit := do
  let now ← GossipNet.currentTimestamp
  update peer fun p => { p with lastSeen := now }

/-- Send a message to the peer. -/
def send (peer : PeerRef) (message : Message) : Exec GossipNet Unit := do
  let s ← get
  if (s.peer peer).receiverClosed then
    Exec.lift (fail (.networkError "Failed to send message: channel closed"))
  update peer fun p => { p with messages := p.messages ++ [message] }
  update peer fun p => { p with messagesSent := p.messagesSent + 1 }
  updateLastSeen peer

end Peer

/-! ## The protocol -/

namespace GossipProtocol
variable (C : WireCodec)

def encodeGossipMessage : GossipMessage → Exec GossipNet Message
  | .newBlock block => Message.newBlock C block
  | .newTransaction tx => Message.newTransaction C tx
  | .blockAnnouncement ann => do
      let payload ← Exec.lift (ofBincode (C.blockAnnouncement ann))
      Message.new .newBlock payload
  | .transactionAnnouncement ann => do
      let payload ← Exec.lift (ofBincode (C.transactionAnnouncement ann))
      Message.new .newTransaction payload

def getMessageId : GossipMessage → GossipId
  | .newBlock block => GossipId.fromBlockHash block.hash
  | .newTransaction tx => GossipId.fromTxId tx.id
  | .blockAnnouncement ann => GossipId.fromBlockHash ann.hash
  | .transactionAnnouncement ann => GossipId.fromTxId ann.txId

def hasSeen (id : GossipId) : Exec GossipNet Bool := do
  let s ← get
  pure (decide (id ∈ s.protocol.seenMessages))

/-- The entry is made, and the clock read, only if there is none. -/
def markSeen (id : GossipId) : Exec GossipNet Unit := do
  let s ← get
  if id ∉ s.protocol.seenMessages then
    let now ← GossipNet.currentTimestamp
    modify fun s =>
      { s with
        protocol := { s.protocol with
          seenMessages := s.protocol.seenMessages.insert id (GossipEntry.new now id) } }

def markPropagatedTo (id : GossipId) (peerId : PeerId) : Exec GossipNet Unit := do
  let s ← get
  match s.protocol.seenMessages.lookup id with
  | some entry =>
    modify fun s =>
      { s with
        protocol := { s.protocol with
          seenMessages := s.protocol.seenMessages.insert id (entry.addPeer peerId) } }
  | none => pure ()

def selectGossipTargets (peers : List PeerRef) (gossipId : GossipId) :
    Exec GossipNet (List PeerRef) := do
  let s ← get
  let candidates := peers.filter fun peer =>
    (s.peer peer).isConnected &&
      !((s.protocol.seenMessages.lookup gossipId).map
        fun entry => entry.hasPeer (s.peer peer).id).getD false
  let candidates ← GossipNet.shuffle candidates
  pure (candidates.take s.protocol.fanout.toNat)

def sendToPeer (peer : PeerRef) (message : GossipMessage) : Exec GossipNet Unit := do
  let protocolMessage ← encodeGossipMessage C message
  Peer.send peer protocolMessage

/-- The loop of `gossip`.  It counts the elements of a vector, so that the counter does not
wrap around. -/
def sendToTargets (message : GossipMessage) (gossipId : GossipId) (sentCount : Nat) :
    List PeerRef → Exec GossipNet Nat
  | [] => pure sentCount
  | peer :: targetPeers => do
      if ← (sendToPeer C peer message).isOk then
        let s ← get
        markPropagatedTo gossipId (s.peer peer).id
        sendToTargets message gossipId (sentCount + 1) targetPeers
      else
        sendToTargets message gossipId sentCount targetPeers

def gossip (message : GossipMessage) (peers : List PeerRef) : Exec GossipNet Nat := do
  let gossipId := getMessageId message
  if ← hasSeen gossipId then
    return 0
  markSeen gossipId
  let targetPeers ← selectGossipTargets peers gossipId
  sendToTargets C message gossipId 0 targetPeers

def handleReceivedMessage (message : GossipMessage) (fromPeer : PeerId) (peers : List PeerRef) :
    Exec GossipNet Unit := do
  let gossipId := getMessageId message
  if !(← hasSeen gossipId) then
    markSeen gossipId
    let _ ← gossip C message peers
  markPropagatedTo gossipId fromPeer

end GossipProtocol

/-- A message of this node's own, or one that it is told by a peer, with the list of peers at
that time. -/
inductive GossipCall
  | gossip (message : GossipMessage) (peers : List PeerRef)
  | received (message : GossipMessage) (fromPeer : PeerId) (peers : List PeerRef)

def GossipNet.step (C : WireCodec) (s : GossipNet) : GossipCall → GossipNet
  | .gossip message peers => (GossipProtocol.gossip C message peers).next s
  | .received message fromPeer peers =>
    (GossipProtocol.handleReceivedMessage C message fromPeer peers).next s

/-! ## A node to try things on -/

namespace Reference

/-- How `bincode` writes what is sent. -/
def wireCodec : WireCodec where
  block b := .ok (encodeBlock b)
  transaction tx := .ok (encodeTransaction tx)
  blockAnnouncement ann :=
    .ok (encodeU64 ann.height ++ ann.hash.asBytes ++ encodeU64 ann.timestamp ++
      Codec.leBytes 4 ann.transactionCount.toNat)
  transactionAnnouncement ann :=
    .ok (ann.txId.asBytes ++ encodeU64 ann.timestamp ++ encodeU64 ann.size)

def sender : PeerId := ⟨List.Vector.replicate 32 1⟩

/-- A peer that is connected, and to which nothing has been sent yet. -/
def listener : Peer := ⟨⟨List.Vector.replicate 32 2⟩, .connected, 1000, 0, [], false⟩

/-- A node that has just been started and knows that one peer. -/
def gossipNet : GossipNet where
  protocol := GossipProtocol.new 4
  peer _ := listener
  env := ⟨Stream'.const 1000, Stream'.const 0, Stream'.const fun _ => Equiv.refl _⟩

end Reference

/-! ## What is sent -/

/-- The type under which a message is sent. -/
def GossipMessage.msgType : GossipMessage → MessageType
  | .newBlock _ => .newBlock
  | .newTransaction _ => .newTransaction
  | .blockAnnouncement _ => .newBlock
  | .transactionAnnouncement _ => .newTransaction

/-- The bytes of a message. -/
def WireCodec.payload (C : WireCodec) : GossipMessage → Except String Bytes
  | .newBlock block => C.block block
  | .newTransaction tx => C.transaction tx
  | .blockAnnouncement ann => C.blockAnnouncement ann
  | .transactionAnnouncement ann => C.transactionAnnouncement ann

/-- What was sent is the message. -/
structure Message.Carries (C : WireCodec) (message : GossipMessage) (m : Message) : Prop where
  msgType : m.msgType = message.msgType
  payload : C.payload message = .ok m.payload

/-- The state of a peer after a message was sent to it. -/
def Peer.afterSend (peer : Peer) (m : Message) (now : Timestamp) : Peer :=
  { peer with
    messages := peer.messages ++ [m]
    messagesSent := peer.messagesSent + 1
    lastSeen := now }

namespace GossipNet
variable (C : WireCodec) (message : GossipMessage)

/-- Sending the message to the peer succeeds. -/
def accepts (s : GossipNet) (r : PeerRef) : Bool :=
  (C.payload message).isOk && !(s.peer r).receiverClosed

/-- The message went to each of these peers, once, and to nobody else. -/
structure Sends (targets : List PeerRef) (s s' : GossipNet) : Prop where
  sent : ∀ r ∈ targets, ∃ m, Message.Carries C message m ∧
    (s'.peer r).messages = (s.peer r).messages ++ [m]
  quiet : ∀ r ∉ targets, s'.peer r = s.peer r
  id : ∀ r, (s'.peer r).id = (s.peer r).id
  receiver : ∀ r, (s'.peer r).receiverClosed = (s.peer r).receiverClosed

/-- The message went to each of these peers, as often as it is listed, and to nobody else. -/
structure Posts (targets : List PeerRef) (s s' : GossipNet) : Prop where
  posted : ∀ r, ∃ ms : List Message, (∀ m ∈ ms, Message.Carries C message m) ∧
    ms.length = targets.count r ∧ (s'.peer r).messages = (s.peer r).messages ++ ms
  quiet : ∀ r ∉ targets, s'.peer r = s.peer r
  id : ∀ r, (s'.peer r).id = (s.peer r).id
  receiver : ∀ r, (s'.peer r).receiverClosed = (s.peer r).receiverClosed

/-- The message went to as many of these peers as the fanout allows, all of them different. -/
def Spreads (among : List PeerRef) (s s' : GossipNet) : Prop :=
  ∃ targets : List PeerRef, targets ⊆ among ∧ (targets.map fun r => (s.peer r).id).Nodup ∧
    targets.length = min s.protocol.fanout.toNat among.length ∧ Sends C message targets s s'

def connectedPeers (s : GossipNet) (peers : List PeerRef) : List PeerRef :=
  peers.filter fun r => (s.peer r).isConnected

/-- The connected peers other than the sender. -/
def connectedOthers (s : GossipNet) (fromPeer : PeerId) (peers : List PeerRef) : List PeerRef :=
  (s.connectedPeers peers).filter fun r => decide ((s.peer r).id ≠ fromPeer)

variable {C message}

theorem posts_nil {s s' : GossipNet} (h : s'.peer = s.peer) : Posts C message [] s s' := by
  refine ⟨?_, ?_, ?_, ?_⟩
  · intro r
    refine ⟨[], fun m hm => absurd hm List.not_mem_nil, rfl, ?_⟩
    rw [h, List.append_nil]
  · intro r _
    rw [h]
  · intro r
    rw [h]
  · intro r
    rw [h]

theorem posts_singleton {s s' : GossipNet} {r : PeerRef} {m : Message} {now : Timestamp}
    (hm : Message.Carries C message m)
    (h : s'.peer = Function.update s.peer r ((s.peer r).afterSend m now)) :
    Posts C message [r] s s' := by
  have hsame : ∀ r', r' ≠ r → s'.peer r' = s.peer r' := by
    intro r' hr'
    rw [h, Function.update_of_ne hr']
  have hpeer : s'.peer r = (s.peer r).afterSend m now := by
    rw [h, Function.update_self]
  refine ⟨?_, ?_, ?_, ?_⟩
  · intro r'
    by_cases hr' : r' = r
    · rw [hr', hpeer]
      refine ⟨[m], ?_, List.count_singleton_self.symm, rfl⟩
      intro m' hm'
      rw [List.mem_singleton.mp hm']
      exact hm
    · refine ⟨[], fun m' hm' => absurd hm' List.not_mem_nil, ?_, ?_⟩
      · exact (List.count_eq_zero.mpr fun hmem => hr' (List.mem_singleton.mp hmem)).symm
      · rw [hsame r' hr', List.append_nil]
  · intro r' hr'
    exact hsame r' fun heq => hr' (List.mem_singleton.mpr heq)
  · intro r'
    by_cases hr' : r' = r
    · rw [hr', hpeer, Peer.afterSend]
    · rw [hsame r' hr']
  · intro r'
    by_cases hr' : r' = r
    · rw [hr', hpeer, Peer.afterSend]
    · rw [hsame r' hr']

namespace Posts
variable {targets : List PeerRef} {s s₁ s' : GossipNet}

theorem of_peer_eq (h : Posts C message targets s₁ s') (hpeer : s₁.peer = s.peer) :
    Posts C message targets s s' := by
  obtain ⟨hposted, hquiet, hid, hreceiver⟩ := h
  rw [hpeer] at hposted hquiet hid hreceiver
  exact ⟨hposted, hquiet, hid, hreceiver⟩

theorem cons {r : PeerRef} {rest : List PeerRef} (h : Posts C message [r] s s₁)
    (hrest : Posts C message rest s₁ s') : Posts C message (r :: rest) s s' := by
  refine ⟨?_, ?_, ?_, ?_⟩
  · intro r'
    obtain ⟨ms, hms, hlength, hmessages⟩ := h.posted r'
    obtain ⟨ms', hms', hlength', hmessages'⟩ := hrest.posted r'
    refine ⟨ms ++ ms', ?_, ?_, ?_⟩
    · intro m hm
      rcases List.mem_append.mp hm with hm | hm
      · exact hms m hm
      · exact hms' m hm
    · rw [List.length_append, hlength, hlength', ← List.count_append, List.singleton_append]
    · rw [hmessages', hmessages, List.append_assoc]
  · intro r' hr'
    rw [List.mem_cons, not_or] at hr'
    rw [hrest.quiet r' hr'.2, h.quiet r' (by rw [List.mem_singleton]; exact hr'.1)]
  · intro r'
    rw [hrest.id, h.id]
  · intro r'
    rw [hrest.receiver, h.receiver]

theorem accepts (h : Posts C message targets s s') :
    s'.accepts C message = s.accepts C message := by
  funext r
  rw [GossipNet.accepts, GossipNet.accepts, h.receiver]

theorem sends (h : Posts C message targets s s') (hnodup : targets.Nodup) :
    Sends C message targets s s' := by
  refine ⟨?_, h.quiet, h.id, h.receiver⟩
  intro r hr
  obtain ⟨ms, hms, hlength, hmessages⟩ := h.posted r
  rw [List.count_eq_one_of_mem hnodup hr, List.length_eq_one_iff] at hlength
  obtain ⟨m, rfl⟩ := hlength
  exact ⟨m, hms m (List.mem_singleton_self m), hmessages⟩

end Posts

theorem Sends.eq_nil {targets : List PeerRef} {s s' : GossipNet}
    (h : Sends C message targets s s') (hpeer : s'.peer = s.peer) : targets = [] := by
  cases targets with
  | nil => rfl
  | cons r rest =>
      obtain ⟨m, -, hm⟩ := h.sent r List.mem_cons_self
      rw [hpeer, List.self_eq_append_right] at hm
      cases hm

theorem sends_nil {s s' : GossipNet} (h : s'.peer = s.peer) : Sends C message [] s s' :=
  (posts_nil h).sends List.nodup_nil

end GossipNet

namespace GossipProtocol
open GossipNet (Sends Spreads Posts)
variable {C : WireCodec} {message : GossipMessage}

theorem encodeGossipMessage_eq :
    encodeGossipMessage C message =
      (do let payload ← Exec.lift (ofBincode (C.payload message))
          Message.new message.msgType payload) := by
  cases message with
  | newBlock block => rfl
  | newTransaction tx => rfl
  | blockAnnouncement ann => rfl
  | transactionAnnouncement ann => rfl

theorem exec_send_of_open {s : GossipNet} {r : PeerRef} (m : Message)
    (h : (s.peer r).receiverClosed = false) :
    (Peer.send r m).exec s =
      (.ok (),
        { s with
          peer := Function.update s.peer r ((s.peer r).afterSend m s.env.clock.head)
          env := { s.env with clock := s.env.clock.tail } }) := by
  rw [Peer.send, Exec.exec_get_bind]
  simp only [h]
  show (Exec.exec (do
      Peer.update r fun p => { p with messages := p.messages ++ [m] }
      Peer.update r fun p => { p with messagesSent := p.messagesSent + 1 }
      Peer.updateLastSeen r) s : Result Unit × GossipNet) = _
  rw [Peer.update, Exec.exec_modify_bind, Peer.update, Exec.exec_modify_bind]
  show (Except.ok (), _) = _
  simp only [Function.update_self, Function.update_idem]
  rfl

theorem exec_send_of_closed {s : GossipNet} {r : PeerRef} (m : Message)
    (h : (s.peer r).receiverClosed = true) :
    (Peer.send r m).exec s =
      (fail (.networkError "Failed to send message: channel closed"), s) := by
  rw [Peer.send, Exec.exec_get_bind]
  simp only [h]
  rfl

theorem exec_sendToPeer {data : Bytes} (hdata : C.payload message = .ok data) (s : GossipNet)
    (r : PeerRef) :
    ∃ m s₁, Message.Carries C message m ∧ s₁.protocol = s.protocol ∧ s₁.peer = s.peer ∧
      (sendToPeer C r message).exec s = (Peer.send r m).exec s₁ := by
  refine ⟨⟨message.msgType, data, s.env.clock.head, s.env.nonces.head⟩,
    { s with env := { s.env with clock := s.env.clock.tail, nonces := s.env.nonces.tail } },
    ⟨rfl, hdata⟩, rfl, rfl, ?_⟩
  rw [sendToPeer, encodeGossipMessage_eq, hdata, Exec.exec_bind, Exec.exec_lift_bind]
  rfl

theorem exec_sendToPeer_of_accepts {s : GossipNet} {r : PeerRef}
    (h : s.accepts C message r = true) :
    ∃ s', (sendToPeer C r message).exec s = (.ok (), s') ∧ s'.protocol = s.protocol ∧
      Posts C message [r] s s' := by
  rw [GossipNet.accepts, Bool.and_eq_true, Bool.not_eq_true'] at h
  obtain ⟨hpayload, hopen⟩ := h
  cases hdata : C.payload message with
  | error e =>
      rw [hdata] at hpayload
      cases hpayload
  | ok data =>
      obtain ⟨m, s₁, hm, hprotocol, hpeer, hexec⟩ := exec_sendToPeer hdata s r
      rw [← hpeer] at hopen
      refine ⟨_, hexec.trans (exec_send_of_open m hopen), hprotocol, ?_⟩
      exact GossipNet.posts_singleton hm (by rw [hpeer])

theorem exec_sendToPeer_of_not_accepts {s : GossipNet} {r : PeerRef}
    (h : s.accepts C message r = false) :
    ∃ e s', (sendToPeer C r message).exec s = (.error (.err e), s') ∧
      s'.protocol = s.protocol ∧ s'.peer = s.peer := by
  cases hdata : C.payload message with
  | error e =>
      refine ⟨.serializationError e, s, ?_, rfl, rfl⟩
      rw [sendToPeer, encodeGossipMessage_eq, hdata]
      rfl
  | ok data =>
      obtain ⟨m, s₁, -, hprotocol, hpeer, hexec⟩ := exec_sendToPeer hdata s r
      have hclosed : (s₁.peer r).receiverClosed = true := by
        rw [GossipNet.accepts, hdata] at h
        rw [hpeer]
        simpa [Except.isOk, Except.toBool] using h
      exact ⟨_, s₁, hexec.trans (exec_send_of_closed m hclosed), hprotocol, hpeer⟩

/-- What `mark_propagated_to` does to the protocol. -/
def propagated (id : GossipId) (protocol : GossipProtocol) (peerId : PeerId) : GossipProtocol :=
  match protocol.seenMessages.lookup id with
  | some entry =>
    { protocol with seenMessages := protocol.seenMessages.insert id (entry.addPeer peerId) }
  | none => protocol

theorem exec_markPropagatedTo (id : GossipId) (peerId : PeerId) (s : GossipNet) :
    (markPropagatedTo id peerId).exec s =
      (.ok (), { s with protocol := propagated id s.protocol peerId }) := by
  rw [markPropagatedTo, Exec.exec_get_bind, propagated]
  cases s.protocol.seenMessages.lookup id with
  | some entry => rfl
  | none => rfl

theorem exec_sendToTargets (gossipId : GossipId) (targets : List PeerRef) (sentCount : Nat)
    (s : GossipNet) :
    ∃ s', (sendToTargets C message gossipId sentCount targets).exec s =
        (.ok (sentCount + (targets.filter (s.accepts C message)).length), s') ∧
      Posts C message (targets.filter (s.accepts C message)) s s' ∧
      s'.protocol = ((targets.filter (s.accepts C message)).map fun r => (s.peer r).id).foldl
        (propagated gossipId) s.protocol := by
  induction targets generalizing sentCount s with
  | nil => exact ⟨s, rfl, GossipNet.posts_nil rfl, rfl⟩
  | cons r targets ih =>
      cases haccepts : s.accepts C message r with
      | true =>
          obtain ⟨s₁, hexec, hprotocol, hposts⟩ := exec_sendToPeer_of_accepts haccepts
          let s₂ : GossipNet := { s₁ with protocol := propagated gossipId s.protocol (s.peer r).id }
          have hposts₂ : Posts C message [r] s s₂ :=
            ⟨hposts.posted, hposts.quiet, hposts.id, hposts.receiver⟩
          have hstep : (sendToTargets C message gossipId sentCount (r :: targets)).exec s =
              (sendToTargets C message gossipId (sentCount + 1) targets).exec s₂ := by
            rw [sendToTargets, Exec.exec_bind, Exec.exec_isOk, hexec]
            simp only [if_true]
            rw [Exec.exec_get_bind, Exec.exec_bind, exec_markPropagatedTo, hposts.id, hprotocol]
          obtain ⟨s', hloop, hrest, hprotocol'⟩ := ih (sentCount + 1) s₂
          rw [hposts₂.accepts] at hloop hrest hprotocol'
          rw [List.filter_cons_of_pos haccepts, hstep, hloop, List.length_cons]
          refine ⟨s', ?_, hposts₂.cons hrest, ?_⟩
          · rw [Nat.add_right_comm, Nat.add_assoc]
          · rw [hprotocol', List.map_cons, List.foldl_cons]
            congr 1
            exact List.map_congr_left fun r' _ => hposts₂.id r'
      | false =>
          obtain ⟨e, s₁, hexec, hprotocol, hpeer⟩ := exec_sendToPeer_of_not_accepts haccepts
          have hstep : (sendToTargets C message gossipId sentCount (r :: targets)).exec s =
              (sendToTargets C message gossipId sentCount targets).exec s₁ := by
            rw [sendToTargets, Exec.exec_bind, Exec.exec_isOk, hexec]
            rfl
          obtain ⟨s', hloop, hrest, hprotocol'⟩ := ih sentCount s₁
          have hsame : s₁.accepts C message = s.accepts C message :=
            (GossipNet.posts_nil hpeer).accepts
          rw [hsame] at hloop hrest hprotocol'
          rw [List.filter_cons_of_neg (by rw [haccepts]; exact Bool.false_ne_true), hstep]
          refine ⟨s', hloop, ?_, ?_⟩
          · exact hrest.of_peer_eq hpeer
          · rw [hprotocol', hprotocol, hpeer]

/-! ## What is passed on -/

theorem exec_hasSeen (id : GossipId) (s : GossipNet) :
    (hasSeen id).exec s = (.ok (decide (id ∈ s.protocol.seenMessages)), s) := rfl

theorem exec_markSeen {id : GossipId} {s : GossipNet} (h : id ∉ s.protocol.seenMessages) :
    (markSeen id).exec s =
      (.ok (),
        { s with
          protocol := { s.protocol with
            seenMessages :=
              s.protocol.seenMessages.insert id (GossipEntry.new s.env.clock.head id) }
          env := { s.env with clock := s.env.clock.tail } }) := by
  rw [markSeen, Exec.exec_get_bind, if_pos h]
  rfl

/-- The targets of a message of which nobody knows are connected peers, as they are
shuffled. -/
theorem exec_selectGossipTargets {gossipId : GossipId} {s : GossipNet} {entry : GossipEntry}
    (hentry : s.protocol.seenMessages.lookup gossipId = some entry)
    (hnobody : entry.propagatedTo = ∅) (peers : List PeerRef) :
    (selectGossipTargets peers gossipId).exec s =
      (.ok ((s.env.shuffles.head.apply (s.connectedPeers peers)).take s.protocol.fanout.toNat),
        { s with env := { s.env with shuffles := s.env.shuffles.tail } }) := by
  have hcandidates : (peers.filter fun r => (s.peer r).isConnected &&
      !((s.protocol.seenMessages.lookup gossipId).map
        fun entry => entry.hasPeer (s.peer r).id).getD false) = s.connectedPeers peers := by
    refine List.filter_congr ?_
    intro r _
    rw [hentry, Option.map_some, Option.getD_some, GossipEntry.hasPeer, hnobody]
    simp only [Finset.notMem_empty, decide_false, Bool.not_false, Bool.and_true]
  rw [selectGossipTargets, Exec.exec_get_bind, hcandidates]
  rfl

theorem exec_gossip_of_seen {s : GossipNet} (h : getMessageId message ∈ s.protocol.seenMessages)
    (peers : List PeerRef) : (gossip C message peers).exec s = (.ok 0, s) := by
  rw [gossip, Exec.exec_bind, exec_hasSeen, decide_eq_true h]
  rfl

end GossipProtocol

/-- The peers that a message is for if nobody knows of it: connected ones, as they are
shuffled, and as many as the fanout allows. -/
def GossipNet.targets (s : GossipNet) (peers : List PeerRef) : List PeerRef :=
  (s.env.shuffles.head.apply (s.connectedPeers peers)).take s.protocol.fanout.toNat

theorem GossipNet.targets_subperm (s : GossipNet) (peers : List PeerRef) :
    (s.targets peers).Subperm (s.connectedPeers peers) :=
  (List.take_sublist _ _).subperm.trans
    (Shuffle.perm_apply s.env.shuffles.head (s.connectedPeers peers)).subperm

theorem GossipNet.length_targets (s : GossipNet) (peers : List PeerRef) :
    (s.targets peers).length =
      min s.protocol.fanout.toNat (s.connectedPeers peers).length := by
  rw [targets, List.length_take,
    (Shuffle.perm_apply s.env.shuffles.head (s.connectedPeers peers)).length_eq]

namespace GossipProtocol
open GossipNet (Sends Spreads Posts)
variable {C : WireCodec} {message : GossipMessage}

/-- The table with an entry for a message that is new. -/
def noted (protocol : GossipProtocol) (now : Timestamp) (id : GossipId) : GossipProtocol :=
  { protocol with seenMessages := protocol.seenMessages.insert id (GossipEntry.new now id) }

/-- **What a call of `gossip` does** with a message that has not been seen: it goes to those
of the targets that accept it, and they are noted down. -/
theorem exec_gossip_of_new {s : GossipNet} (h : getMessageId message ∉ s.protocol.seenMessages)
    (peers : List PeerRef) :
    ∃ s', (gossip C message peers).exec s =
        (.ok ((s.targets peers).filter (s.accepts C message)).length, s') ∧
      Posts C message ((s.targets peers).filter (s.accepts C message)) s s' ∧
      s'.protocol =
        (((s.targets peers).filter (s.accepts C message)).map fun r => (s.peer r).id).foldl
          (propagated (getMessageId message))
          (s.protocol.noted s.env.clock.head (getMessageId message)) := by
  let s₁ : GossipNet :=
    { s with
      protocol := s.protocol.noted s.env.clock.head (getMessageId message)
      env := { s.env with clock := s.env.clock.tail } }
  let s₂ : GossipNet := { s₁ with env := { s₁.env with shuffles := s₁.env.shuffles.tail } }
  have hmark : (markSeen (getMessageId message)).exec s = (.ok (), s₁) := exec_markSeen h
  have hselect : (selectGossipTargets peers (getMessageId message)).exec s₁ =
      (.ok (s.targets peers), s₂) :=
    exec_selectGossipTargets (s := s₁) (Finmap.lookup_insert _) rfl peers
  obtain ⟨s', hloop, hposts, hprotocol⟩ :=
    @exec_sendToTargets C message (getMessageId message) (s.targets peers) 0 s₂
  rw [Nat.zero_add] at hloop
  refine ⟨s', ?_, hposts.of_peer_eq rfl, hprotocol⟩
  rw [gossip, Exec.exec_bind, exec_hasSeen, decide_eq_false h]
  simp only [Bool.false_eq_true, if_false]
  rw [Exec.exec_bind, hmark]
  simp only []
  rw [Exec.exec_bind, hselect]
  exact hloop

/-- A message that has not been seen goes to as many connected peers as the fanout allows, if
they accept it. -/
theorem gossip_spreads {s : GossipNet} (h : getMessageId message ∉ s.protocol.seenMessages)
    {peers : List PeerRef} (hdistinct : (peers.map fun r => (s.peer r).id).Nodup)
    (haccepts : ∀ r ∈ peers, s.accepts C message r = true) :
    (gossip C message peers).exec s =
      (.ok (min s.protocol.fanout.toNat (s.connectedPeers peers).length),
        (gossip C message peers).next s) ∧
      Spreads C message (s.connectedPeers peers) s ((gossip C message peers).next s) := by
  obtain ⟨s', hexec, hposts, -⟩ := exec_gossip_of_new (C := C) h peers
  have hsubperm := s.targets_subperm peers
  -- the targets are among the peers, so that their ids are different
  have hids : ((s.targets peers).map fun r => (s.peer r).id).Nodup := by
    obtain ⟨listed, hperm, hsublist⟩ := hsubperm
    refine ((hperm.map _).nodup_iff).mp (hdistinct.sublist ?_)
    exact (hsublist.trans List.filter_sublist).map _
  have hall : (s.targets peers).filter (s.accepts C message) = s.targets peers := by
    rw [List.filter_eq_self]
    intro r hr
    exact haccepts r (List.mem_of_mem_filter (hsubperm.subset hr))
  rw [hall] at hexec hposts
  rw [Exec.next_of_ok hexec, hexec, s.length_targets]
  exact ⟨rfl, s.targets peers, hsubperm.subset, hids, s.length_targets peers,
    hposts.sends hids.of_map⟩

theorem propagated_fanout (id : GossipId) (protocol : GossipProtocol) (peerId : PeerId) :
    (propagated id protocol peerId).fanout = protocol.fanout := by
  rw [propagated]
  cases protocol.seenMessages.lookup id with
  | some entry => rfl
  | none => rfl

theorem mem_propagated (id id' : GossipId) (protocol : GossipProtocol) (peerId : PeerId) :
    id' ∈ (propagated id protocol peerId).seenMessages ↔ id' ∈ protocol.seenMessages := by
  rw [propagated]
  cases hentry : protocol.seenMessages.lookup id with
  | some entry =>
      show id' ∈ protocol.seenMessages.insert id (entry.addPeer peerId) ↔ _
      rw [Finmap.mem_insert]
      refine or_iff_right_of_imp ?_
      rintro rfl
      exact Finmap.mem_of_lookup_eq_some hentry
  | none => exact Iff.rfl

/-- What a call does to the protocol: the message has been seen. -/
structure Noted (id : GossipId) (protocol protocol' : GossipProtocol) : Prop where
  fanout : protocol'.fanout = protocol.fanout
  mem : ∀ id', id' ∈ protocol'.seenMessages ↔ id' = id ∨ id' ∈ protocol.seenMessages

theorem noted_of_mem {id : GossipId} {protocol : GossipProtocol}
    (h : id ∈ protocol.seenMessages) : Noted id protocol protocol := by
  refine ⟨rfl, ?_⟩
  intro id'
  refine (or_iff_right_of_imp ?_).symm
  rintro rfl
  exact h

theorem noted_noted (protocol : GossipProtocol) (now : Timestamp) (id : GossipId) :
    Noted id protocol (protocol.noted now id) :=
  ⟨rfl, fun _ => Finmap.mem_insert⟩

theorem Noted.propagated {id : GossipId} {protocol protocol' : GossipProtocol}
    (h : Noted id protocol protocol') (id' : GossipId) (peerId : PeerId) :
    Noted id protocol (propagated id' protocol' peerId) := by
  refine ⟨?_, ?_⟩
  · rw [propagated_fanout, h.fanout]
  · intro id''
    rw [mem_propagated, h.mem]

theorem Noted.foldl_propagated {id : GossipId} {protocol protocol' : GossipProtocol}
    (h : Noted id protocol protocol') (id' : GossipId) (peerIds : List PeerId) :
    Noted id protocol (peerIds.foldl (GossipProtocol.propagated id') protocol') := by
  induction peerIds generalizing protocol' with
  | nil => exact h
  | cons peerId peerIds ih => exact ih (h.propagated id' peerId)

theorem noted_gossip (message : GossipMessage) (peers : List PeerRef) (s : GossipNet) :
    Noted (getMessageId message) s.protocol ((gossip C message peers).next s).protocol := by
  by_cases h : getMessageId message ∈ s.protocol.seenMessages
  · rw [Exec.next_of_ok (exec_gossip_of_seen h peers)]
    exact noted_of_mem h
  · obtain ⟨s', hexec, -, hprotocol⟩ := exec_gossip_of_new (C := C) h peers
    rw [Exec.next_of_ok hexec, hprotocol]
    exact (noted_noted s.protocol _ _).foldl_propagated _ _

theorem exec_handleReceivedMessage (message : GossipMessage) (fromPeer : PeerId)
    (peers : List PeerRef) (s : GossipNet) :
    ∃ s', (handleReceivedMessage C message fromPeer peers).exec s = (.ok (), s') ∧
      s'.peer = s.peer ∧ Noted (getMessageId message) s.protocol s'.protocol := by
  rw [handleReceivedMessage, Exec.exec_bind, exec_hasSeen]
  by_cases h : getMessageId message ∈ s.protocol.seenMessages
  · rw [decide_eq_true h]
    exact ⟨_, exec_markPropagatedTo _ fromPeer s, rfl, (noted_of_mem h).propagated _ fromPeer⟩
  · rw [decide_eq_false h]
    let s₁ : GossipNet :=
      { s with
        protocol := s.protocol.noted s.env.clock.head (getMessageId message)
        env := { s.env with clock := s.env.clock.tail } }
    have hmark : (markSeen (getMessageId message)).exec s = (.ok (), s₁) := exec_markSeen h
    -- for `gossip`, the message has been seen by now
    have hgossip : (gossip C message peers).exec s₁ = (.ok 0, s₁) :=
      exec_gossip_of_seen (Finmap.mem_insert.mpr (Or.inl rfl)) peers
    refine ⟨{ s₁ with protocol := propagated (getMessageId message) s₁.protocol fromPeer }, ?_,
      rfl, (noted_noted s.protocol _ _).propagated _ fromPeer⟩
    simp only [Bool.not_false, if_true]
    rw [Exec.exec_bind, hmark]
    simp only []
    rw [Exec.exec_bind, hgossip]
    exact exec_markPropagatedTo _ fromPeer s₁

theorem peer_handleReceivedMessage (message : GossipMessage) (fromPeer : PeerId)
    (peers : List PeerRef) (s : GossipNet) :
    ((handleReceivedMessage C message fromPeer peers).next s).peer = s.peer := by
  obtain ⟨s', hexec, hpeer, -⟩ := exec_handleReceivedMessage (C := C) message fromPeer peers s
  rw [Exec.next_of_ok hexec, hpeer]

/-- **When a message that is received is passed on.**  It goes to as many of the connected
peers other than the sender as the fanout allows exactly if these are none at all: the
fanout is zero, or nobody else is connected. -/
theorem relayed_iff (C : WireCodec) (message : GossipMessage) (fromPeer : PeerId)
    (peers : List PeerRef) (s : GossipNet) :
    Spreads C message (s.connectedOthers fromPeer peers) s
        ((handleReceivedMessage C message fromPeer peers).next s) ↔
      s.protocol.fanout = 0 ∨
        ∀ r ∈ peers, (s.peer r).isConnected = true → (s.peer r).id = fromPeer := by
  have hnone : (∀ r ∈ peers, (s.peer r).isConnected = true → (s.peer r).id = fromPeer) ↔
      (s.connectedOthers fromPeer peers).length = 0 := by
    rw [List.length_eq_zero_iff, GossipNet.connectedOthers, List.filter_eq_nil_iff]
    simp only [GossipNet.connectedPeers, List.mem_filter, decide_eq_true_eq, not_not, and_imp]
  have hzero : s.protocol.fanout = 0 ↔ s.protocol.fanout.toNat = 0 := by
    rw [← UInt64.toNat_inj]
    rfl
  rw [hnone, hzero, ← Nat.min_eq_zero_iff]
  constructor
  · rintro ⟨targets, -, -, hlength, hsends⟩
    rw [← hlength, hsends.eq_nil (peer_handleReceivedMessage message fromPeer peers s)]
    rfl
  · intro hmin
    exact ⟨[], List.nil_subset _, List.nodup_nil, hmin.symm,
      GossipNet.sends_nil (peer_handleReceivedMessage message fromPeer peers s)⟩

section
open Reference (wireCodec sender gossipNet vote)

/-- A vote that is received is not passed on, although there is a peer that would accept
it. -/
theorem vote_not_relayed :
    getMessageId (.newTransaction (vote 0)) ∉ gossipNet.protocol.seenMessages ∧
    ([0].map fun r => (gossipNet.peer r).id).Nodup ∧
    (∀ r ∈ [0], gossipNet.accepts wireCodec (.newTransaction (vote 0)) r = true) ∧
    min gossipNet.protocol.fanout.toNat (gossipNet.connectedOthers sender [0]).length = 1 ∧
    ¬GossipNet.Spreads wireCodec (.newTransaction (vote 0)) (gossipNet.connectedOthers sender [0])
      gossipNet
      ((handleReceivedMessage wireCodec (.newTransaction (vote 0)) sender [0]).next gossipNet) := by
  have hone : min gossipNet.protocol.fanout.toNat
      (gossipNet.connectedOthers sender [0]).length = 1 := by decide
  refine ⟨Finmap.notMem_empty, List.nodup_singleton _, fun _ _ => rfl, hone, ?_⟩
  rintro ⟨targets, -, -, hlength, hsends⟩
  rw [hone, hsends.eq_nil (peer_handleReceivedMessage _ sender [0] gossipNet)] at hlength
  cases hlength

end

end GossipProtocol

end VotingChain
