/-
# `VotingChain.Transport` — messages on a connection

The model of `Connection` in `network/src/transport.rs`.  A message goes over a connection
as the bytes of its encoding, behind their number:

    length ‖ encoding
      4        length        most significant byte first

Both sides refuse what is longer than `max_message_size`, the sender before it writes
anything.  As long as that limit fits into the four bytes, what is sent is what is received
(`receiveMany_sendAll`).

**The stream** takes what is written to it and hands over the bytes of the other side in
order.  A read for which there are not enough of them takes those that there are, and fails:
at once if the other side has shut the stream down, else when the time is over.
-/
import VotingChain.Lib.Format
import VotingChain.Gossip

namespace VotingChain

/-- `bincode` on messages. -/
structure MessageCodec where
  serialize : Message → Except String Bytes
  deserialize : Bytes → Except String Message

/-- What is written can be read. -/
def MessageCodec.RoundTrips (C : MessageCodec) : Prop :=
  ∀ message data, C.serialize message = .ok data → C.deserialize data = .ok message

/-- Individual peer connection: the bytes written to the stream, those still to be read from
it, and whether the other side has shut it down. -/
structure Connection where
  maxMessageSize : Nat
  written : Bytes
  incoming : Bytes
  shutDown : Bool
  deriving DecidableEq

namespace Connection

def writeAll (data : Bytes) : Exec Connection Unit :=
  modify fun c => { c with written := c.written ++ data }

/-- `read_exact` of so many bytes, within the time allowed; `what` is being read. -/
def readExact (n : Nat) (what : String) : Exec Connection Bytes := do
  let c ← get
  if n ≤ c.incoming.length then
    modify fun c => { c with incoming := c.incoming.drop n }
    pure (c.incoming.take n)
  else
    modify fun c => { c with incoming := [] }
    if c.shutDown then
      Exec.lift (fail (.networkError ("Failed to read " ++ what ++ ": early eof")))
    else
      Exec.lift (fail (.networkError "Read timeout"))

variable (C : MessageCodec)

def encodeMessage (message : Message) : Result Bytes := ofBincode (C.serialize message)

def decodeMessage (data : Bytes) : Result Message := ofBincodeRead (C.deserialize data)

def sendMessage (message : Message) : Exec Connection Unit := do
  let data ← Exec.lift (encodeMessage C message)
  let c ← get
  Exec.lift (ensure (decide (data.length ≤ c.maxMessageSize))
    (.networkError "Message exceeds maximum size"))
  writeAll (Codec.beBytes 4 (UInt32.ofNat data.length).toNat)
  writeAll data

def receiveMessage : Exec Connection Message := do
  let lenBytes ← readExact 4 "length"
  let len := Codec.ofBeBytes lenBytes
  let c ← get
  Exec.lift (ensure (decide (len ≤ c.maxMessageSize))
    (.networkError "Message exceeds maximum size"))
  let data ← readExact len "message"
  Exec.lift (decodeMessage C data)

/-- The messages of so many successive calls of `receive_message`, if all of them return
one. -/
def receiveMany : Nat → Exec Connection (List Message)
  | 0 => pure []
  | n + 1 => do
      let message ← receiveMessage C
      let messages ← receiveMany n
      pure (message :: messages)

/-- The connection after `send_message` was called with each of the messages. -/
def sendAll (c : Connection) (messages : List Message) : Connection :=
  Runs.run (fun c message => (sendMessage C message).next c) c messages

/-- The encoding of the message is not longer than that. -/
def fits (maxMessageSize : Nat) (message : Message) : Bool :=
  match C.serialize message with
  | .ok data => decide (data.length ≤ maxMessageSize)
  | .error _ => false

/-- The bytes of the message on the stream. -/
def frame (data : Bytes) : Bytes := Codec.beBytes 4 data.length ++ data

/-- A call of `send_message` with such a message fails, and writes nothing. -/
def Refused (c : Connection) (message : Message) : Prop :=
  fits C c.maxMessageSize message = false →
    ∃ e, (sendMessage C message).exec c = (.error (.err e), c)

/-! ## One message -/

variable {C}

theorem fits_iff {maxMessageSize : Nat} {message : Message} :
    fits C maxMessageSize message = true ↔
      ∃ data, C.serialize message = .ok data ∧ data.length ≤ maxMessageSize := by
  rw [fits]
  cases C.serialize message with
  | ok data => simp
  | error e => simp

theorem exec_sendMessage {c : Connection} {message : Message} {data : Bytes}
    (hdata : C.serialize message = .ok data) (hfits : data.length ≤ c.maxMessageSize)
    (hlen : data.length < 2 ^ 32) :
    (sendMessage C message).exec c = (.ok (), { c with written := c.written ++ frame data }) := by
  have hword : (UInt32.ofNat data.length).toNat = data.length :=
    UInt32.toNat_ofNat_of_lt' hlen
  rw [sendMessage, encodeMessage, hdata, ofBincode, Exec.exec_lift_ok_bind, Exec.exec_get_bind,
    Exec.exec_ensure_bind (decide_eq_true hfits), hword, frame, ← List.append_assoc]
  rfl

theorem refused (c : Connection) (message : Message) : Refused C c message := by
  intro hfits
  rw [fits] at hfits
  rw [sendMessage, encodeMessage]
  cases hdata : C.serialize message with
  | error e => exact ⟨_, rfl⟩
  | ok data =>
      rw [hdata] at hfits
      have hlong : decide (data.length ≤ c.maxMessageSize) = false := hfits
      rw [ofBincode, Exec.exec_lift_ok_bind, Exec.exec_get_bind, hlong]
      exact ⟨_, rfl⟩

theorem exec_readExact_append {c : Connection} {data rest : Bytes} (what : String)
    (hincoming : c.incoming = data ++ rest) :
    (readExact data.length what).exec c = (.ok data, { c with incoming := rest }) := by
  have hle : data.length ≤ c.incoming.length := by
    rw [hincoming, List.length_append]
    exact Nat.le_add_right _ _
  rw [readExact, Exec.exec_get_bind, if_pos hle, Exec.exec_modify_bind, Exec.exec_pure, hincoming,
    List.take_left, List.drop_left]

theorem exec_receiveMessage {c : Connection} {message : Message} {data rest : Bytes}
    (hdata : C.deserialize data = .ok message) (hfits : data.length ≤ c.maxMessageSize)
    (hlen : data.length < 2 ^ 32) (hincoming : c.incoming = frame data ++ rest) :
    (receiveMessage C).exec c = (.ok message, { c with incoming := rest }) := by
  rw [frame, List.append_assoc] at hincoming
  have hfour := exec_readExact_append "length" hincoming
  rw [Codec.length_beBytes] at hfour
  have hbody := @exec_readExact_append { c with incoming := data ++ rest } data rest "message" rfl
  rw [receiveMessage, Exec.exec_bind, hfour]
  simp only [Codec.ofBeBytes_beBytes (w := 4) hlen]
  rw [Exec.exec_get_bind, Exec.exec_ensure_bind (decide_eq_true hfits), Exec.exec_bind, hbody]
  simp only [decodeMessage, hdata, ofBincodeRead, Exec.exec_lift]

theorem exec_receiveMessage_of_empty {c : Connection} (hincoming : c.incoming = []) :
    ∃ e, (receiveMessage C).exec c = (.error (.err e), c) := by
  obtain ⟨maxMessageSize, written, incoming, shutDown⟩ := c
  cases hincoming
  cases shutDown with
  | true => exact ⟨_, rfl⟩
  | false => exact ⟨_, rfl⟩

/-! ## A sequence of messages -/

/-- The frames of the messages that fit. -/
def frames (C : MessageCodec) (maxMessageSize : Nat) (messages : List Message) : Bytes :=
  (messages.filter (fits C maxMessageSize)).flatMap fun message =>
    match C.serialize message with
    | .ok data => frame data
    | .error _ => []

theorem frames_cons_of_fits {maxMessageSize : Nat} {message : Message} {data : Bytes}
    (hdata : C.serialize message = .ok data) (hfits : data.length ≤ maxMessageSize)
    (messages : List Message) :
    frames C maxMessageSize (message :: messages) =
      frame data ++ frames C maxMessageSize messages := by
  rw [frames, List.filter_cons_of_pos (fits_iff.mpr ⟨data, hdata, hfits⟩), List.flatMap_cons, hdata]
  rfl

theorem frames_cons_of_not_fits {maxMessageSize : Nat} {message : Message}
    (hfits : fits C maxMessageSize message = false) (messages : List Message) :
    frames C maxMessageSize (message :: messages) = frames C maxMessageSize messages := by
  rw [frames, List.filter_cons_of_neg (by rw [hfits]; exact Bool.false_ne_true)]
  rfl

theorem sendAll_eq {c : Connection} (hmax : c.maxMessageSize ≤ 2 ^ 32 - 1)
    (messages : List Message) :
    c.sendAll C messages =
      { c with written := c.written ++ frames C c.maxMessageSize messages } := by
  induction messages generalizing c with
  | nil =>
      show c = { c with written := c.written ++ [] }
      rw [List.append_nil]
  | cons message messages ih =>
      rw [sendAll, Runs.run_cons, ← sendAll]
      cases hfits : fits C c.maxMessageSize message with
      | true =>
          obtain ⟨data, hdata, hle⟩ := fits_iff.mp hfits
          have hrest := @ih { c with written := c.written ++ frame data } hmax
          rw [Exec.next_of_ok (exec_sendMessage hdata hle (by omega)), hrest,
            frames_cons_of_fits hdata hle, ← List.append_assoc]
      | false =>
          obtain ⟨e, hexec⟩ := refused c message hfits
          rw [Exec.next_of_error hexec, ih hmax, frames_cons_of_not_fits hfits]

theorem exec_receiveMany (hround : C.RoundTrips) {c : Connection}
    (hmax : c.maxMessageSize ≤ 2 ^ 32 - 1) (messages : List Message) {rest : Bytes}
    (hincoming : c.incoming = frames C c.maxMessageSize messages ++ rest) :
    (receiveMany C (messages.filter (fits C c.maxMessageSize)).length).exec c =
      (.ok (messages.filter (fits C c.maxMessageSize)), { c with incoming := rest }) := by
  induction messages generalizing c with
  | nil =>
      obtain rfl : c.incoming = rest := hincoming
      rfl
  | cons message messages ih =>
      cases hfits : fits C c.maxMessageSize message with
      | true =>
          obtain ⟨data, hdata, hle⟩ := fits_iff.mp hfits
          rw [frames_cons_of_fits hdata hle, List.append_assoc] at hincoming
          have hone := exec_receiveMessage (hround message data hdata) hle (by omega) hincoming
          have hmany :=
            @ih { c with incoming := frames C c.maxMessageSize messages ++ rest } hmax rfl
          rw [List.filter_cons_of_pos hfits, List.length_cons, receiveMany, Exec.exec_bind, hone]
          simp only []
          rw [Exec.exec_bind, hmany]
          rfl
      | false =>
          rw [frames_cons_of_not_fits hfits] at hincoming
          rw [List.filter_cons_of_neg (by rw [hfits]; exact Bool.false_ne_true)]
          exact ih hmax hincoming

/-- **Framing.**  Send any messages over a connection, and let the other side, with the same
limit, read what was written.  It receives, in order, the messages whose encoding is not
longer than the limit, and then nothing; the others were refused, and nothing of them was
written. -/
theorem receiveMany_sendAll (C : MessageCodec) (hround : C.RoundTrips) {maxMessageSize : Nat}
    (hmax : maxMessageSize ≤ 2 ^ 32 - 1) (messages : List Message) (shutDown : Bool) :
    let sender : Connection := ⟨maxMessageSize, [], [], shutDown⟩
    let receiver : Connection := ⟨maxMessageSize, [], (sender.sendAll C messages).written, shutDown⟩
    (receiveMany C (messages.filter (fits C maxMessageSize)).length).exec receiver =
        (.ok (messages.filter (fits C maxMessageSize)), { receiver with incoming := [] }) ∧
      (∃ e, (receiveMessage C).exec { receiver with incoming := [] } =
        (.error (.err e), { receiver with incoming := [] })) ∧
      Runs.Along (fun c message => (sendMessage C message).next c) (Refused C) sender messages := by
  intro sender receiver
  refine ⟨?_, exec_receiveMessage_of_empty rfl, Runs.along_of_forall refused sender messages⟩
  refine exec_receiveMany hround hmax messages (c := receiver) ?_
  show (sender.sendAll C messages).written = _
  rw [sendAll_eq hmax, List.append_nil]
  rfl

end Connection

/-! ## A codec to try things on -/

namespace Reference

/-- The types of messages, in the order of the enumeration. -/
def messageTypes : List MessageType :=
  [.handshake, .ping, .pong, .getPeers, .peers, .getBlocks, .blocks, .newBlock, .getTransactions,
    .transactions, .newTransaction, .getStatus, .status, .disconnect]

/-- A type is written as the number of its variant. -/
def messageTypeFormat : Format MessageType :=
  (Format.word 4).comap
    (fun t => ⟨messageTypes.idxOf t,
      (List.idxOf_le_length).trans_lt (show messageTypes.length < 256 ^ 4 by decide)⟩)
    (fun n => messageTypes[n.val]?) (fun t => by cases t <;> rfl)

/-- A message whose payload fits into memory. -/
def messageFormat : Format { message : Message // message.payload.length ≤ 2 ^ 63 - 1 } :=
  (messageTypeFormat.pair ((Format.vec Format.byte (show 2 ^ 63 - 1 < 256 ^ 8 by decide)).pair
    (Format.u64.pair Format.u64))).comap
    (fun m => (m.val.msgType, ⟨m.val.payload, m.property⟩, m.val.timestamp, m.val.nonce))
    (fun t => some ⟨⟨t.1, t.2.1.val, t.2.2.1, t.2.2.2⟩, t.2.1.property⟩) (fun _ => rfl)

/-- How `bincode` writes and reads messages. -/
def messageCodec : MessageCodec where
  serialize message :=
    if h : message.payload.length ≤ 2 ^ 63 - 1 then .ok (messageFormat.write ⟨message, h⟩)
    else .error "the size limit has been reached"
  deserialize data := (messageFormat.decode data).map Subtype.val

theorem roundTrips_messageCodec : messageCodec.RoundTrips := by
  intro message data hdata
  simp only [messageCodec] at hdata ⊢
  split at hdata
  · next h =>
      cases hdata
      rw [messageFormat.decode_write]
      rfl
  · cases hdata

/-- A ping, and a message with a payload of forty bytes. -/
def ping : Message := ⟨.ping, [], 1000, 0⟩

def longMessage : Message := ⟨.newBlock, List.replicate 40 7, 1000, 0⟩

end Reference

namespace Connection
open Reference (messageCodec roundTrips_messageCodec ping longMessage)

/-- A message of sixty-eight bytes between two of twenty-eight, with a limit of thirty. -/
theorem receiveMany_sendAll_sample :
    (receiveMany messageCodec 2).exec
        ⟨30, [], ((⟨30, [], [], false⟩ : Connection).sendAll messageCodec
          [ping, longMessage, ping]).written, false⟩ =
      (.ok [ping, ping], ⟨30, [], [], false⟩) := by
  have hfits : [ping, longMessage, ping].filter (fits messageCodec 30) = [ping, ping] := by decide
  have hreceived := (receiveMany_sendAll messageCodec roundTrips_messageCodec
    (show 30 ≤ 2 ^ 32 - 1 by decide) [ping, longMessage, ping] false).1
  rw [hfits] at hreceived
  exact hreceived

end Connection

end VotingChain
