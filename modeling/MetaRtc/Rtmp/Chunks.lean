import MetaRtc.Rtmp.ReadPacket
import MetaRtc.Lib.Run

/-! # Messages in chunks

The sender's side: messages are cut into chunks of the current size, and the chunks of different
channels come in any order. -/
namespace MetaRtc

open Bytes Function Run

structure RtmpMessage.Valid (message : RtmpMessage) : Prop where
  nChannel : 2 ≤ message.nChannel ∧ message.nChannel < 65600
  nTimeStamp : message.nTimeStamp < 2 ^ 32
  packetType : message.packetType < 256
  nInfoField2 : message.nInfoField2 < 2 ^ 32
  body : message.body.length < 2 ^ 24
  chunkSize : message.packetType = rtmpPacketTypeChunkSize →
    message.body.length = 4 ∧ 0 < beNat message.body ∧ beNat message.body < 2 ^ 31

/-- The last message begun on a channel, with what its header had for a timestamp, and how much
of its body has been sent. -/
structure RtmpChannel where
  message : RtmpMessage
  field : Nat
  sent : Nat

def RtmpChannel.Complete (channel : RtmpChannel) : Prop :=
  channel.sent = channel.message.body.length

instance (channel : RtmpChannel) : Decidable channel.Complete := inferInstanceAs (Decidable (_ = _))

structure RtmpSender where
  chunkSize : Nat := rtmpDefaultChunkSize
  channels : Nat → Option RtmpChannel := fun _ => none
  completed : List RtmpMessage := []

/-- The forms of the bytes that say a header's type and its channel. -/
inductive BasicHeader (fmt nChannel : Nat) : List UInt8 → Prop where
  | one : 2 ≤ nChannel → nChannel < 64 → BasicHeader fmt nChannel (beBytes 1 (fmt * 64 + nChannel))
  | two : 64 ≤ nChannel → nChannel < 320 →
      BasicHeader fmt nChannel (beBytes 1 (fmt * 64) ++ beBytes 1 (nChannel - 64))
  | three : 64 ≤ nChannel → nChannel < 65600 →
      BasicHeader fmt nChannel (beBytes 1 (fmt * 64 + 1) ++ (beBytes 2 (nChannel - 64)).reverse)

/-- Which types of header a message may have: what a header leaves out is as in the message
before on the channel, whose time the field is added to. -/
inductive HeaderType (message : RtmpMessage) (field : Nat) : Option RtmpChannel → Nat → Prop where
  | large {before : Option RtmpChannel} : field = message.nTimeStamp → HeaderType message field before 0
  | medium {before : RtmpChannel} : field < 2 ^ 32 →
      message.nTimeStamp = (field + before.message.nTimeStamp) % 2 ^ 32 →
      message.nInfoField2 = before.message.nInfoField2 → HeaderType message field (some before) 1
  | small {before : RtmpChannel} : field < 2 ^ 32 →
      message.nTimeStamp = (field + before.message.nTimeStamp) % 2 ^ 32 →
      message.nInfoField2 = before.message.nInfoField2 →
      message.packetType = before.message.packetType →
      message.body.length = before.message.body.length → HeaderType message field (some before) 2
  | minimum {before : RtmpChannel} : field = before.field → field < 2 ^ 32 →
      message.nTimeStamp = (field + before.message.nTimeStamp) % 2 ^ 32 →
      message.nInfoField2 = before.message.nInfoField2 →
      message.packetType = before.message.packetType →
      message.body.length = before.message.body.length → HeaderType message field (some before) 3

def messageHeader (fmt field : Nat) (message : RtmpMessage) : List UInt8 :=
  let time := beBytes 3 (min field 0xffffff)
  let size := beBytes 3 message.body.length ++ beBytes 1 message.packetType
  match fmt with
  | 0 => time ++ (size ++ (beBytes 4 message.nInfoField2).reverse)
  | 1 => time ++ size
  | 2 => time
  | _ => []

/-- The four bytes of a time that does not fit three. -/
def timeExtension (field : Nat) : List UInt8 := if 0xffffff ≤ field then beBytes 4 field else []

/-- A chunk of some message. -/
structure RtmpChunk where
  message : RtmpMessage
  bytes : List UInt8

/-- The sender after a chunk. A message that changes the chunk size does so when it is complete. -/
def RtmpSender.after (sender : RtmpSender) (channel : RtmpChannel) : RtmpSender where
  channels := update sender.channels channel.message.nChannel (some channel)
  completed := if channel.Complete then sender.completed ++ [channel.message] else sender.completed
  chunkSize :=
    if channel.Complete ∧ channel.message.packetType = rtmpPacketTypeChunkSize then
      beNat channel.message.body
    else sender.chunkSize

/-- The bytes of the next chunk of a message, and what has been sent after it. -/
def RtmpSender.next (sender : RtmpSender) (channel : RtmpChannel) : List UInt8 :=
  (channel.message.body.drop channel.sent).take sender.chunkSize

def RtmpSender.advance (sender : RtmpSender) (channel : RtmpChannel) : RtmpSender :=
  sender.after { channel with
    sent := min (channel.sent + sender.chunkSize) channel.message.body.length }

inductive RtmpSender.Sends : RtmpSender → RtmpChunk → RtmpSender → Prop where
  | begins {sender : RtmpSender} {message : RtmpMessage} {field fmt : Nat} {basic : List UInt8} :
      message.Valid →
      (∀ before, sender.channels message.nChannel = some before → before.Complete) →
      HeaderType message field (sender.channels message.nChannel) fmt →
      BasicHeader fmt message.nChannel basic →
      Sends sender ⟨message, basic ++ (messageHeader fmt field message ++ (timeExtension field ++
        sender.next ⟨message, field, 0⟩))⟩ (sender.advance ⟨message, field, 0⟩)
  | continues {sender : RtmpSender} {nChannel : Nat} {channel : RtmpChannel} {basic : List UInt8} :
      sender.channels nChannel = some channel → ¬ channel.Complete →
      BasicHeader 3 nChannel basic →
      Sends sender ⟨channel.message, basic ++ (timeExtension channel.field ++
        sender.next channel)⟩ (sender.advance channel)

/-- Where the chunks come, each is read by one call. -/
def receiveChunks (s : YangStreamRtmp) : List RtmpChunk → Option YangStreamRtmp
  | [] => some s
  | chunk :: chunks => do
    let s ← receiveData { s with r := { s.r with input := s.r.input ++ chunk.bytes } }
    receiveChunks s chunks

def refuses (message : RtmpMessage) : Bool := decide (256000 < message.body.length)

/-- All messages but those too large have been delivered, and the next chunk is read from where it
begins. -/
def Reassembles (sender : RtmpSender) (s : YangStreamRtmp) : Prop :=
  s.delivered = sender.completed.filter (!refuses ·) ∧ s.r.input = []

/-- A chunk that comes when no other message is incomplete, of a message that is not refused. -/
def RtmpSender.Alone (sender : RtmpSender) (chunk : RtmpChunk) : Prop :=
  (∀ nChannel channel, sender.channels nChannel = some channel →
    nChannel ≠ chunk.message.nChannel → channel.Complete) ∧ ¬ refuses chunk.message

section Headers

variable {r : Rtmp} {fmt nChannel field : Nat} {bytes rest : List UInt8} {message : RtmpMessage}

theorem readN_append (h : r.input = bytes ++ rest) {n : Nat} (hn : bytes.length = n) :
    readN r n = some (bytes, { r with input := rest }) := by
  subst hn
  rw [readN, h, if_pos (by rw [List.length_append]; omega), List.take_left, List.drop_left]

theorem readChannel_basic (hfmt : fmt < 4) (hbasic : BasicHeader fmt nChannel bytes)
    (h : r.input = bytes ++ rest) :
    readChannel r = some ((fmt, nChannel), { r with input := rest }) := by
  cases hbasic with
  | one hlow hhigh =>
    rw [readChannel, readN_append h (beBytes_length 1 _)]
    simp only [Option.bind_eq_bind, Option.bind_some, beNat_beBytes]
    rw [if_neg (by omega), if_neg (by omega), show (fmt * 64 + nChannel) % 256 ^ 1 / 64 = fmt by omega,
      show (fmt * 64 + nChannel) % 256 ^ 1 % 64 = nChannel by omega]
    rfl
  | two hlow hhigh =>
    rw [List.append_assoc] at h
    rw [readChannel, readN_append h (beBytes_length 1 _)]
    simp only [Option.bind_eq_bind, Option.bind_some, beNat_beBytes]
    rw [if_pos (by omega), readN_append rfl (beBytes_length 1 _)]
    simp only [Option.bind_some, beNat_beBytes]
    rw [show fmt * 64 % 256 ^ 1 / 64 = fmt by omega,
      show (nChannel - 64) % 256 ^ 1 + 64 = nChannel by omega]
    rfl
  | three hlow hhigh =>
    rw [List.append_assoc] at h
    have hlength : (beBytes 2 (nChannel - 64)).reverse.length = 2 := by simp
    rw [readChannel, readN_append h (beBytes_length 1 _)]
    simp only [Option.bind_eq_bind, Option.bind_some, beNat_beBytes]
    rw [if_neg (by omega), if_pos (by omega), readN_append rfl hlength]
    simp only [Option.bind_some, List.reverse_reverse, beNat_beBytes]
    rw [show (fmt * 64 + 1) % 256 ^ 1 / 64 = fmt by omega,
      show (nChannel - 64) % 256 ^ 2 + 64 = nChannel by omega]
    rfl

theorem messageHeader_length (hfmt : fmt < 4) (field : Nat) (message : RtmpMessage) :
    (messageHeader fmt field message).length = packetSize fmt - 1 := by
  obtain rfl | rfl | rfl | rfl : fmt = 0 ∨ fmt = 1 ∨ fmt = 2 ∨ fmt = 3 := by omega
  · simp [messageHeader, packetSize]
  · simp [messageHeader, packetSize]
  · simp [messageHeader, packetSize]
  · rfl

/-- What a channel's packet knows of the message that comes. -/
structure RtmpPacket.Describes (packet : RtmpPacket) (message : RtmpMessage) : Prop where
  nChannel : packet.nChannel = message.nChannel
  packetType : packet.packetType = message.packetType
  nInfoField2 : packet.nInfoField2 = message.nInfoField2
  nBodySize : packet.nBodySize = message.body.length

theorem time_field (field : Nat) : beNat (beBytes 3 (min field 0xffffff)) = min field 0xffffff := by
  rw [beNat_beBytes]
  omega

theorem RtmpMessage.Valid.size_field (h : message.Valid) :
    beNat (beBytes 3 message.body.length) = message.body.length := by
  rw [beNat_beBytes]
  exact Nat.mod_eq_of_lt h.body

theorem RtmpMessage.Valid.type_field (h : message.Valid) :
    beNat (beBytes 1 message.packetType) = message.packetType := by
  rw [beNat_beBytes]
  exact Nat.mod_eq_of_lt h.packetType

/-- The parts of a header where the decoder looks for them. -/
theorem header_parts {a b c : List UInt8} (ha : a.length = 3) (hb : b.length = 3)
    (d : List UInt8) (hc : c.length = 1) : (a ++ (b ++ (c ++ d))).take 3 = a ∧
      ((a ++ (b ++ (c ++ d))).drop 3).take 3 = b ∧ ((a ++ (b ++ (c ++ d))).drop 6).take 1 = c ∧
      (a ++ (b ++ (c ++ d))).drop 7 = d := by
  have hthree : (a ++ (b ++ (c ++ d))).drop 3 = b ++ (c ++ d) := List.drop_left' ha
  have hsix : (a ++ (b ++ (c ++ d))).drop 6 = c ++ d := by
    rw [show 6 = 3 + 3 from rfl, ← List.drop_drop, hthree, List.drop_left' hb]
  refine ⟨List.take_left' ha, ?_, ?_, ?_⟩
  · rw [hthree, List.take_left' hb]
  · rw [hsix, List.take_left' hc]
  · rw [show 7 = 6 + 1 from rfl, ← List.drop_drop, hsix, List.drop_left' hc]

theorem decodeHeader_parts (packet : RtmpPacket) {a b c d : List UInt8} (ha : a.length = 3)
    (hb : b.length = 3) (hc : c.length = 1) :
    packet.decodeHeader (a ++ (b ++ (c ++ d))) = { packet with
      nTimeStamp := beNat a
      nBodySize := beNat b
      nBytesRead := 0
      packetType := beNat c
      nInfoField2 := if d.length = 4 then decodeInt32LE d else packet.nInfoField2 } := by
  obtain ⟨htime, hsize, htype, hinfo⟩ := header_parts ha hb d hc
  have hlength : (a ++ (b ++ (c ++ d))).length = 7 + d.length := by
    rw [List.length_append, List.length_append, List.length_append, ha, hb, hc]
    omega
  unfold RtmpPacket.decodeHeader
  rw [if_pos (by omega), if_pos (by omega), if_pos (by omega)]
  dsimp only
  rw [htime, hsize, htype, hinfo]
  by_cases hfour : d.length = 4
  · rw [if_pos (by omega), if_pos hfour]
  · rw [if_neg (by omega), if_neg hfour]

theorem decodeHeader_large (field : Nat) (packet : RtmpPacket) (hmessage : message.Valid) :
    packet.decodeHeader (messageHeader 0 field message) = { packet with
      nTimeStamp := min field 0xffffff
      nBodySize := message.body.length
      nBytesRead := 0
      packetType := message.packetType
      nInfoField2 := message.nInfoField2 } := by
  have hheader : messageHeader 0 field message = beBytes 3 (min field 0xffffff) ++
      (beBytes 3 message.body.length ++ (beBytes 1 message.packetType ++
        (beBytes 4 message.nInfoField2).reverse)) := by
    simp [messageHeader]
  have hinfo : decodeInt32LE (beBytes 4 message.nInfoField2).reverse = message.nInfoField2 := by
    rw [decodeInt32LE, List.take_of_length_le (by simp), List.reverse_reverse, beNat_beBytes]
    exact Nat.mod_eq_of_lt hmessage.nInfoField2
  rw [hheader, decodeHeader_parts packet (beBytes_length 3 _) (beBytes_length 3 _)
    (beBytes_length 1 _), if_pos (by simp), hinfo, time_field,
    hmessage.size_field, hmessage.type_field]

theorem decodeHeader_medium (field : Nat) (packet : RtmpPacket) (hmessage : message.Valid) :
    packet.decodeHeader (messageHeader 1 field message) = { packet with
      nTimeStamp := min field 0xffffff
      nBodySize := message.body.length
      nBytesRead := 0
      packetType := message.packetType } := by
  have hheader : messageHeader 1 field message = beBytes 3 (min field 0xffffff) ++
      (beBytes 3 message.body.length ++ (beBytes 1 message.packetType ++ [])) := by
    simp [messageHeader]
  rw [hheader, decodeHeader_parts packet (beBytes_length 3 _) (beBytes_length 3 _)
    (beBytes_length 1 _), if_neg (by decide), time_field,
    hmessage.size_field, hmessage.type_field]

theorem decodeHeader_small (field : Nat) (message : RtmpMessage) (packet : RtmpPacket) :
    packet.decodeHeader (messageHeader 2 field message) =
      { packet with nTimeStamp := min field 0xffffff } := by
  have hlength := messageHeader_length (show 2 < 4 by omega) field message
  rw [show packetSize 2 - 1 = 3 from rfl] at hlength
  unfold RtmpPacket.decodeHeader
  rw [if_pos (by omega)]
  dsimp only
  rw [if_neg (by omega), List.take_of_length_le (by omega)]
  exact congrArg (fun nTimeStamp => { packet with nTimeStamp }) (time_field field)

end Headers

end MetaRtc
