/-
# `VotingChain.MessageFrame` — frames with a header

`MessageFrame` of `network/src/transport.rs`: another way to put a message on the wire, behind
a header, which the connections do not use.

    version ‖ flags ‖ length ‖ payload
       1        1        4               most significant byte first

The reader takes bytes out of the middle of what it is given, so it has to look at the length
before.  That it does, for the header and for the payload, is that it does not panic.
-/
import VotingChain.Lib.Format
import VotingChain.Common

namespace VotingChain

/-- Message framing for wire protocol. -/
structure MessageFrame where
  version : UInt8
  flags : UInt8
  payloadLength : UInt32
  payload : Bytes
  deriving DecidableEq

namespace MessageFrame

/-- `Self::VERSION`. -/
def currentVersion : UInt8 := 1

def new (payload : Bytes) : MessageFrame where
  version := currentVersion
  flags := 0
  payloadLength := UInt32.ofNat payload.length
  payload := payload

def encode (frame : MessageFrame) : Bytes :=
  frame.version :: frame.flags ::
    (Codec.beBytes 4 frame.payloadLength.toNat ++ frame.payload)

def decode (data : Bytes) : Result MessageFrame := do
  ensure (decide (6 ≤ data.length)) (.networkError "Frame too short")
  let version ← indexVec data 0
  ensure (decide (version = currentVersion)) (.networkError "Unsupported protocol version")
  let flags ← indexVec data 1
  let byte₂ ← indexVec data 2
  let byte₃ ← indexVec data 3
  let byte₄ ← indexVec data 4
  let byte₅ ← indexVec data 5
  let payloadLength := UInt32.ofNat (Codec.ofBeBytes [byte₂, byte₃, byte₄, byte₅])
  ensure (decide (6 + payloadLength.toNat ≤ data.length)) (.networkError "Incomplete frame")
  let payload ← sliceVec data 6 (6 + payloadLength.toNat)
  pure ⟨version, flags, payloadLength, payload⟩

/-! ## What the reader does -/

theorem exists_header {data : Bytes} (h : 6 ≤ data.length) :
    ∃ version flags length rest, length.length = 4 ∧
      data = version :: flags :: (length ++ rest) := by
  match data, h with
  | version :: flags :: byte₂ :: byte₃ :: byte₄ :: byte₅ :: rest, _ =>
      exact ⟨version, flags, [byte₂, byte₃, byte₄, byte₅], rest, rfl, rfl⟩

theorem decode_of_short {data : Bytes} (h : ¬6 ≤ data.length) :
    decode data = fail (.networkError "Frame too short") := by
  rw [decode, decide_eq_false h]
  rfl

theorem toNat_payloadLength {length : Bytes} (h : length.length = 4) :
    (UInt32.ofNat (Codec.ofBeBytes length)).toNat = Codec.ofBeBytes length := by
  have hlt := Codec.ofBeBytes_lt length
  rw [h] at hlt
  exact UInt32.toNat_ofNat_of_lt' hlt

/-- Behind a whole header the reader looks at the version and then at the length, and the bytes
it takes are there. -/
theorem decode_header (version flags : UInt8) {length : Bytes} (h : length.length = 4)
    (rest : Bytes) :
    decode (version :: flags :: (length ++ rest)) =
      if version = currentVersion then
        if Codec.ofBeBytes length ≤ rest.length then
          .ok ⟨version, flags, UInt32.ofNat (Codec.ofBeBytes length),
            rest.take (Codec.ofBeBytes length)⟩
        else fail (.networkError "Incomplete frame")
      else fail (.networkError "Unsupported protocol version") := by
  have hlong : 6 ≤ (version :: flags :: (length ++ rest)).length := by
    simp only [List.length_cons, List.length_append, h]
    omega
  have hfits : 6 + Codec.ofBeBytes length ≤ (version :: flags :: (length ++ rest)).length ↔
      Codec.ofBeBytes length ≤ rest.length := by
    simp only [List.length_cons, List.length_append, h]
    omega
  have hslice : (version :: flags :: (length ++ rest)).drop 6 = rest := by
    show (length ++ rest).drop 4 = rest
    rw [← h, List.drop_left]
  -- what is left to do once the header was read
  have hheader : decode (version :: flags :: (length ++ rest)) = (do
      ensure (decide (version = currentVersion)) (.networkError "Unsupported protocol version")
      let payloadLength := UInt32.ofNat (Codec.ofBeBytes length)
      ensure (decide (6 + payloadLength.toNat ≤ (version :: flags :: (length ++ rest)).length))
        (.networkError "Incomplete frame")
      let payload ← sliceVec (version :: flags :: (length ++ rest)) 6 (6 + payloadLength.toNat)
      pure ⟨version, flags, payloadLength, payload⟩) := by
    rw [decode, decide_eq_true hlong]
    match length, h with
    | [_, _, _, _], _ => rfl
  simp only [hheader, toNat_payloadLength h]
  by_cases hversion : version = currentVersion
  · rw [if_pos hversion, decide_eq_true hversion]
    by_cases hpayload : Codec.ofBeBytes length ≤ rest.length
    · rw [if_pos hpayload, decide_eq_true (hfits.mpr hpayload), sliceVec,
        if_pos ⟨Nat.le_add_right 6 _, hfits.mpr hpayload⟩, List.drop_take, hslice,
        Nat.add_sub_cancel_left]
      rfl
    · rw [if_neg hpayload, decide_eq_false (mt hfits.mp hpayload)]
      rfl
  · rw [if_neg hversion, decide_eq_false hversion]
    rfl

theorem decode_eq_ok {data : Bytes} {frame : MessageFrame} (h : decode data = .ok frame) :
    ∃ length rest, length.length = 4 ∧
      data = frame.version :: frame.flags :: (length ++ (frame.payload ++ rest)) ∧
      frame.payload.length = Codec.ofBeBytes length ∧
      frame.payloadLength = UInt32.ofNat (Codec.ofBeBytes length) := by
  by_cases hlong : 6 ≤ data.length
  · obtain ⟨version, flags, length, rest, hlength, rfl⟩ := exists_header hlong
    rw [decode_header version flags hlength] at h
    split at h
    · split at h
      · next hfits =>
          obtain rfl := Except.ok.inj h
          refine ⟨length, rest.drop (Codec.ofBeBytes length), hlength, ?_, ?_, rfl⟩
          · rw [List.take_append_drop]
          · rw [List.length_take, Nat.min_eq_left hfits]
      · cases h
    · cases h
  · rw [decode_of_short hlong] at h
    cases h

theorem decode_ne_panicked (data : Bytes) : decode data ≠ .error .panicked := by
  by_cases hlong : 6 ≤ data.length
  · obtain ⟨version, flags, length, rest, hlength, rfl⟩ := exists_header hlong
    rw [decode_header version flags hlength]
    split
    · split
      · nofun
      · nofun
    · nofun
  · rw [decode_of_short hlong]
    nofun

/-! ## Both ways -/

theorem length_encode (frame : MessageFrame) :
    (encode frame).length = 6 + frame.payload.length := by
  simp only [encode, List.length_cons, List.length_append, Codec.length_beBytes]
  omega

theorem decode_encode_append {payload : Bytes} (h : payload.length < 2 ^ 32) (rest : Bytes) :
    decode (encode (new payload) ++ rest) = .ok (new payload) := by
  have hlength : (UInt32.ofNat payload.length).toNat = payload.length :=
    UInt32.toNat_ofNat_of_lt' h
  have hbytes : Codec.ofBeBytes (Codec.beBytes 4 payload.length) = payload.length :=
    Codec.ofBeBytes_beBytes h
  have hencode : encode (new payload) ++ rest =
      currentVersion :: 0 :: (Codec.beBytes 4 payload.length ++ (payload ++ rest)) := by
    show currentVersion :: 0 ::
      ((Codec.beBytes 4 (UInt32.ofNat payload.length).toNat ++ payload) ++ rest) = _
    rw [hlength, List.append_assoc]
  have hfits : payload.length ≤ (payload ++ rest).length := by
    rw [List.length_append]
    exact Nat.le_add_right _ _
  rw [hencode, decode_header currentVersion 0 (Codec.length_beBytes 4 _), hbytes, if_pos rfl,
    if_pos hfits, List.take_left]
  rfl

theorem encode_of_decode {data : Bytes} {frame : MessageFrame} (h : decode data = .ok frame) :
    frame.payload.length = frame.payloadLength.toNat ∧
      encode frame = data.take (6 + frame.payloadLength.toNat) := by
  obtain ⟨length, rest, hlength, hdata, hpayload, hnumber⟩ := decode_eq_ok h
  have hword : frame.payload.length = frame.payloadLength.toNat := by
    rw [hnumber, toNat_payloadLength hlength, hpayload]
  have hbytes : Codec.beBytes 4 frame.payloadLength.toNat = length := by
    rw [← hword, hpayload, ← hlength, Codec.beBytes_ofBeBytes]
  refine ⟨hword, ?_⟩
  have hsplit : data = encode frame ++ rest := by
    rw [encode, hbytes, hdata]
    simp only [List.cons_append, List.append_assoc]
  rw [← hword, ← length_encode, hsplit, List.take_left]

/-- **The round trip.**  A payload that has a length is read back from its frame, whatever
follows; a frame that is read is what stands at the front of the data; and no data makes the
reader go beyond its end. -/
theorem roundTrip :
    (∀ (payload rest : Bytes), payload.length < 2 ^ 32 →
      ∃ frame, decode (encode (new payload) ++ rest) = .ok frame ∧
        frame.payload = payload ∧ frame.flags = 0) ∧
    (∀ (data : Bytes) (frame : MessageFrame), decode data = .ok frame →
      frame.payload.length = frame.payloadLength.toNat ∧
        encode frame = data.take (6 + frame.payloadLength.toNat)) ∧
    ∀ data : Bytes, decode data ≠ .error .panicked := by
  refine ⟨?_, ?_, decode_ne_panicked⟩
  · intro payload rest h
    exact ⟨new payload, decode_encode_append h rest, rfl, rfl⟩
  · intro data frame h
    exact encode_of_decode h

theorem roundTrip_five :
    (∃ frame, decode (encode (new [1, 2, 3, 4, 5]) ++ [6]) = .ok frame ∧
      frame.payload = [1, 2, 3, 4, 5] ∧ frame.flags = 0) ∧
    (⟨1, 7, 2, [8, 9]⟩ : MessageFrame).payload.length = 2 ∧
      encode ⟨1, 7, 2, [8, 9]⟩ = [1, 7, 0, 0, 0, 2, 8, 9, 10].take 8 :=
  ⟨roundTrip.1 [1, 2, 3, 4, 5] [6] (by decide),
    roundTrip.2.1 [1, 7, 0, 0, 0, 2, 8, 9, 10] ⟨1, 7, 2, [8, 9]⟩ rfl⟩

end MessageFrame

end VotingChain
