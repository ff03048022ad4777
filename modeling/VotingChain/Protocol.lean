/-
# `VotingChain.Protocol` — what is done with a message

The model of `ProtocolHandler` in `network/src/protocol.rs`.  There is a handler for each
type of message; most of them read the payload and log what is in it.  The type of what is
read depends on the type of the message alone.

    sent                       type               read as
    NewBlock(b)                NewBlock           Block
    BlockAnnouncement(a)       NewBlock           Block
    NewTransaction(t)          NewTransaction     Transaction
    TransactionAnnouncement(a) NewTransaction     Transaction

So gossip that is an announcement is taken for something else, or refused
(`handled_as_sent_iff`).  The peer that a message comes from is only named in the log.
-/
import VotingChain.Gossip

namespace VotingChain

/-! ## Payloads -/

/-- Handshake information. -/
structure HandshakeInfo where
  protocolVersion : UInt32
  networkId : String
  userAgent : String
  bestHeight : BlockHeight
  bestHash : BlockHash
  genesisHash : BlockHash
  timestamp : Timestamp

/-- Peer address information. -/
structure PeerAddr where
  addr : String
  lastSeen : Timestamp

/-- Peer list message. -/
structure PeerList where
  peers : List PeerAddr

/-- Block request. -/
structure BlockRequest where
  startHeight : BlockHeight
  endHeight : BlockHeight
  maxBlocks : UInt64
  deriving DecidableEq

/-- Block response. -/
structure BlockResponse where
  blocks : List Block
  startHeight : BlockHeight
  endHeight : BlockHeight

/-- Transaction request. -/
structure TransactionRequest where
  txIds : List Hash

/-- Transaction response. -/
structure TransactionResponse where
  transactions : List Transaction

/-- Node status information. -/
structure StatusInfo where
  bestHeight : BlockHeight
  bestHash : BlockHash
  peerCount : UInt64
  syncing : Bool
  timestamp : Timestamp

/-- Disconnect reason. -/
inductive DisconnectReason
  | shuttingDown
  | protocolViolation
  | incompatibleProtocol
  | tooManyPeers
  | banned
  | timeout
  | error (text : String)

/-- `bincode::deserialize` at the types of the payloads. -/
structure PayloadReader where
  handshakeInfo : Bytes → Except String HandshakeInfo
  peerList : Bytes → Except String PeerList
  blockRequest : Bytes → Except String BlockRequest
  blockResponse : Bytes → Except String BlockResponse
  block : Bytes → Except String Block
  transactionRequest : Bytes → Except String TransactionRequest
  transactionResponse : Bytes → Except String TransactionResponse
  transaction : Bytes → Except String Transaction
  statusInfo : Bytes → Except String StatusInfo
  disconnectReason : Bytes → Except String DisconnectReason

/-- A block or a transaction that was written is read again. -/
structure PayloadReader.Reads (R : PayloadReader) (C : WireCodec) : Prop where
  block : ∀ block data, C.block block = .ok data → R.block data = .ok block
  transaction : ∀ tx data, C.transaction tx = .ok data → R.transaction data = .ok tx

def Message.decodePayload {α : Type} (read : Bytes → Except String α) (message : Message) :
    Result α :=
  ofBincodeRead (read message.payload)

theorem Message.map_decodePayload_eq_ok {α β : Type} (read : Bytes → Except String α)
    (message : Message) (f : α → β) :
    (∃ b, some ((message.decodePayload read).map f) = some (.ok b)) ↔
      ∃ a, read message.payload = .ok a := by
  rw [Message.decodePayload]
  cases read message.payload with
  | ok a => exact iff_of_true ⟨f a, rfl⟩ ⟨a, rfl⟩
  | error e =>
      refine iff_of_false ?_ ?_
      · rintro ⟨b, hb⟩
        cases hb
      · rintro ⟨a, ha⟩
        cases ha

/-! ## The handlers -/

/-- Protocol handler for processing messages. -/
structure ProtocolHandler where
  networkId : String
  protocolVersion : UInt32

namespace ProtocolHandler
variable (R : PayloadReader) (handler : ProtocolHandler)

def handleHandshake (message : Message) : Result Unit := do
  let handshake ← message.decodePayload R.handshakeInfo
  ensure (decide (handshake.networkId = handler.networkId)) (.networkError "Network ID mismatch")
  ensure (decide (handshake.protocolVersion = handler.protocolVersion))
    (.networkError "Protocol version mismatch")

/-- A handler that does not look at the message. -/
def handleAny (_message : Message) : Result Unit := .ok ()

def handlePing : Message → Result Unit := handleAny
def handlePong : Message → Result Unit := handleAny
def handleGetPeers : Message → Result Unit := handleAny
def handleGetStatus : Message → Result Unit := handleAny

/-- A handler that reads the payload. -/
def handlePayload {α : Type} (read : Bytes → Except String α) (message : Message) :
    Result Unit := do
  let _ ← message.decodePayload read
  return ()

def handlePeers : Message → Result Unit := handlePayload R.peerList
def handleGetBlocks : Message → Result Unit := handlePayload R.blockRequest
def handleBlocks : Message → Result Unit := handlePayload R.blockResponse
def handleNewBlock : Message → Result Unit := handlePayload R.block
def handleGetTransactions : Message → Result Unit := handlePayload R.transactionRequest
def handleTransactions : Message → Result Unit := handlePayload R.transactionResponse
def handleNewTransaction : Message → Result Unit := handlePayload R.transaction
def handleStatus : Message → Result Unit := handlePayload R.statusInfo
def handleDisconnect : Message → Result Unit := handlePayload R.disconnectReason

def handle (message : Message) : Result Unit :=
  match message.msgType with
  | .handshake => handleHandshake R handler message
  | .ping => handlePing message
  | .pong => handlePong message
  | .getPeers => handleGetPeers message
  | .peers => handlePeers R message
  | .getBlocks => handleGetBlocks R message
  | .blocks => handleBlocks R message
  | .newBlock => handleNewBlock R message
  | .getTransactions => handleGetTransactions R message
  | .transactions => handleTransactions R message
  | .newTransaction => handleNewTransaction R message
  | .getStatus => handleGetStatus message
  | .status => handleStatus R message
  | .disconnect => handleDisconnect R message

/-- What the handlers of gossip read from the payload. -/
def gossipContent (message : Message) : Option (Result GossipMessage) :=
  match message.msgType with
  | .newBlock => some ((message.decodePayload R.block).map .newBlock)
  | .newTransaction => some ((message.decodePayload R.transaction).map .newTransaction)
  | _ => none

variable {R handler}

theorem handlePayload_eq_ok {α : Type} {read : Bytes → Except String α} {message : Message}
    {u : Unit} : handlePayload read message = .ok u ↔ ∃ a, read message.payload = .ok a := by
  simp only [handlePayload, bind_eq_ok, Message.decodePayload, ofBincodeRead_eq_ok]
  constructor
  · rintro ⟨a, ha, -⟩
    exact ⟨a, ha⟩
  · rintro ⟨a, ha⟩
    exact ⟨a, ha, rfl⟩

end ProtocolHandler

/-! ## What is read from gossip -/

/-- The message is a block or a transaction, and not the announcement of one. -/
def GossipMessage.isContent : GossipMessage → Bool
  | .newBlock _ => true
  | .newTransaction _ => true
  | .blockAnnouncement _ => false
  | .transactionAnnouncement _ => false

namespace GossipProtocol
open ProtocolHandler (handle gossipContent handlePayload handlePayload_eq_ok)
variable {C : WireCodec} {R : PayloadReader}

theorem exec_encodeGossipMessage {message : GossipMessage} {data : Bytes}
    (hdata : C.payload message = .ok data) (s : GossipNet) :
    (encodeGossipMessage C message).exec s =
      (.ok ⟨message.msgType, data, s.env.clock.head, s.env.nonces.head⟩,
        { s with
          env := { s.env with
            clock := s.env.clock.tail
            nonces := s.env.nonces.tail } }) := by
  rw [encodeGossipMessage_eq, hdata, ofBincode, Exec.exec_lift_ok_bind]
  rfl

theorem carries_of_encode {message : GossipMessage} {m : Message} {s s' : GossipNet}
    (hencode : (encodeGossipMessage C message).exec s = (.ok m, s')) :
    Message.Carries C message m := by
  cases hdata : C.payload message with
  | error e =>
      rw [encodeGossipMessage_eq, hdata] at hencode
      cases hencode
  | ok data =>
      rw [exec_encodeGossipMessage hdata] at hencode
      cases hencode
      exact ⟨rfl, hdata⟩

/-- The handler of a message that carries gossip succeeds if it reads a block, or a
transaction. -/
theorem handle_eq_ok_iff {handler : ProtocolHandler} {message : GossipMessage} {m : Message}
    (hm : Message.Carries C message m) :
    handle R handler m = .ok () ↔ ∃ content, gossipContent R m = some (.ok content) := by
  have htype : m.msgType = .newBlock ∨ m.msgType = .newTransaction := by
    rw [hm.msgType]
    cases message with
    | newBlock block => exact Or.inl rfl
    | newTransaction tx => exact Or.inr rfl
    | blockAnnouncement ann => exact Or.inl rfl
    | transactionAnnouncement ann => exact Or.inr rfl
  rcases htype with htype | htype
  · rw [handle, gossipContent, htype]
    exact handlePayload_eq_ok.trans
      (Message.map_decodePayload_eq_ok R.block m GossipMessage.newBlock).symm
  · rw [handle, gossipContent, htype]
    exact handlePayload_eq_ok.trans
      (Message.map_decodePayload_eq_ok R.transaction m GossipMessage.newTransaction).symm

theorem isContent_of_gossipContent {m : Message} {content : GossipMessage}
    (h : gossipContent R m = some (.ok content)) : content.isContent = true := by
  rw [gossipContent] at h
  split at h
  · cases hblock : m.decodePayload R.block with
    | ok block =>
        rw [hblock] at h
        cases h
        rfl
    | error e =>
        rw [hblock] at h
        cases h
  · cases htx : m.decodePayload R.transaction with
    | ok tx =>
        rw [htx] at h
        cases h
        rfl
    | error e =>
        rw [htx] at h
        cases h
  · cases h

theorem gossipContent_of_isContent (hreads : R.Reads C) {message : GossipMessage} {m : Message}
    (hm : Message.Carries C message m) (hcontent : message.isContent = true) :
    gossipContent R m = some (.ok message) := by
  rw [gossipContent, hm.msgType]
  cases message with
  | newBlock block =>
      show some ((m.decodePayload R.block).map GossipMessage.newBlock) = _
      rw [Message.decodePayload, hreads.block block m.payload hm.payload]
      rfl
  | newTransaction tx =>
      show some ((m.decodePayload R.transaction).map GossipMessage.newTransaction) = _
      rw [Message.decodePayload, hreads.transaction tx m.payload hm.payload]
      rfl
  | blockAnnouncement ann => cases hcontent
  | transactionAnnouncement ann => cases hcontent

/-- **Gossip and its handlers.**  The handler of what a gossip message is sent as succeeds
and reads that message if and only if it is a block or a transaction itself. -/
theorem handled_as_sent_iff (C : WireCodec) (R : PayloadReader) (hreads : R.Reads C)
    (handler : ProtocolHandler) (message : GossipMessage) {m : Message} {s s' : GossipNet}
    (hencode : (encodeGossipMessage C message).exec s = (.ok m, s')) :
    (handle R handler m = .ok () ∧ gossipContent R m = some (.ok message)) ↔
      message.isContent = true := by
  have hm := carries_of_encode hencode
  constructor
  · rintro ⟨-, hread⟩
    exact isContent_of_gossipContent hread
  · intro hcontent
    have hread := gossipContent_of_isContent hreads hm hcontent
    exact ⟨(handle_eq_ok_iff hm).mpr ⟨message, hread⟩, hread⟩

end GossipProtocol

/-! ## A reader to try things on -/

namespace Reference

/-- The fixed fields of a block, before its transactions. -/
def headerLength : Nat := 148

/-- `bincode` for one block and one transaction: it reads them, and runs out of bytes where
there are fewer than a header takes. -/
def payloadReader (block : Block) (tx : Transaction) : PayloadReader where
  handshakeInfo _ := .error "io error: unexpected end of file"
  peerList _ := .error "io error: unexpected end of file"
  blockRequest _ := .error "io error: unexpected end of file"
  blockResponse _ := .error "io error: unexpected end of file"
  block data :=
    if data.length < headerLength then .error "io error: unexpected end of file"
    else if data = encodeBlock block then .ok block
    else .error "invalid data"
  transactionRequest _ := .error "io error: unexpected end of file"
  transactionResponse _ := .error "io error: unexpected end of file"
  transaction data :=
    if data = encodeTransaction tx then .ok tx else .error "invalid data"
  statusInfo _ := .error "io error: unexpected end of file"
  disconnectReason _ := .error "io error: unexpected end of file"

/-- How that transaction is written, and announcements. -/
def oneCodec (tx : Transaction) : WireCodec where
  block _ := .error "the size limit has been reached"
  transaction tx' :=
    if tx' = tx then .ok (encodeTransaction tx) else .error "the size limit has been reached"
  blockAnnouncement := wireCodec.blockAnnouncement
  transactionAnnouncement := wireCodec.transactionAnnouncement

theorem payload_oneCodec (tx : Transaction) :
    (oneCodec tx).payload (.newTransaction tx) = .ok (encodeTransaction tx) := if_pos rfl

theorem reads_oneCodec (block : Block) (tx : Transaction) :
    (payloadReader block tx).Reads (oneCodec tx) := by
  refine ⟨?_, ?_⟩
  · intro block data hdata
    cases hdata
  · intro tx' data hdata
    simp only [oneCodec] at hdata
    split at hdata
    · next htx =>
        cases hdata
        rw [htx]
        exact if_pos rfl
    · cases hdata

/-- The announcement of a block. -/
def announcement : BlockAnnouncement := ⟨1, BlockHash.zero, 1000, 0⟩

end Reference

namespace GossipProtocol
open ProtocolHandler (handle gossipContent handlePayload)
open Reference (payloadReader oneCodec payload_oneCodec reads_oneCodec gossipNet announcement vote
  voteBlock)

/-- A vote is read as what it is. -/
theorem handled_as_sent_vote : ∃ m s',
    (encodeGossipMessage (oneCodec (vote 0)) (.newTransaction (vote 0))).exec gossipNet =
      (.ok m, s') ∧
    handle (payloadReader voteBlock (vote 0)) ⟨"voting-mainnet", 1⟩ m = .ok () ∧
    gossipContent (payloadReader voteBlock (vote 0)) m = some (.ok (.newTransaction (vote 0))) := by
  have hencode := exec_encodeGossipMessage (payload_oneCodec (vote 0)) gossipNet
  exact ⟨_, _, hencode, (handled_as_sent_iff (oneCodec (vote 0)) (payloadReader voteBlock (vote 0))
    (reads_oneCodec voteBlock (vote 0)) ⟨"voting-mainnet", 1⟩ (.newTransaction (vote 0))
    hencode).mpr rfl⟩

/-- The announcement of a block is sent for the handler of blocks, which refuses it. -/
theorem announcement_refused :
    (payloadReader voteBlock (vote 0)).Reads (oneCodec (vote 0)) ∧ ∃ m s',
    (encodeGossipMessage (oneCodec (vote 0)) (.blockAnnouncement announcement)).exec gossipNet =
      (.ok m, s') ∧
    handle (payloadReader voteBlock (vote 0)) ⟨"voting-mainnet", 1⟩ m =
      fail (.deserializationError "io error: unexpected end of file") := by
  refine ⟨reads_oneCodec _ _, _, _, exec_encodeGossipMessage rfl gossipNet, ?_⟩
  generalize voteBlock = block
  generalize vote 0 = tx
  have hshort : (Reference.encodeU64 announcement.height ++ announcement.hash.asBytes ++
      Reference.encodeU64 announcement.timestamp ++
      Codec.leBytes 4 announcement.transactionCount.toNat).length < Reference.headerLength := by
    simp [Reference.encodeU64, length_blockHash_asBytes, Reference.headerLength]
  have hread : (payloadReader block tx).block _ = _ := if_pos hshort
  show handlePayload (payloadReader block tx).block _ = _
  rw [handlePayload, Message.decodePayload, hread]
  rfl

end GossipProtocol

end VotingChain
