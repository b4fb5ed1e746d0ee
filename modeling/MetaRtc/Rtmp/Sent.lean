import MetaRtc.Rtmp.SendPacket
import MetaRtc.Rtmp.AmfFormat
import MetaRtc.Rtmp.Reassembly

/-! # What is sent arrives

The bytes that the packets are sent in are the chunks of a sender that mixes no messages, and the
reader makes the packets' messages of them. -/
namespace MetaRtc

open Bytes Exec Function Run

section Headers

theorem basicHeader_basic (fmt : Nat) {nChannel : Nat} (hlow : 2 ≤ nChannel)
    (hhigh : nChannel < 65600) : BasicHeader fmt nChannel (basicHeader fmt nChannel) := by
  unfold basicHeader channelSize
  by_cases hthree : 319 < nChannel
  · rw [if_pos hthree]
    exact .three (by omega) hhigh
  · rw [if_neg hthree]
    by_cases htwo : 63 < nChannel
    · rw [if_pos htwo]
      exact .two (by omega) (by omega)
    · rw [if_neg htwo]
      exact .one hlow (by omega)

theorem basicHeader_length (fmt nChannel : Nat) :
    0 < (basicHeader fmt nChannel).length ∧ (basicHeader fmt nChannel).length ≤ 3 := by
  rw [basicHeader]
  split <;> simp

theorem extendedTime_length_le (t : Nat) : (extendedTime t).length ≤ 4 := by
  rw [extendedTime]
  split <;> simp

/-- A header is written as the reader expects it. -/
theorem packetHeader_eq {packet : RtmpPacket} {message : RtmpMessage}
    (hfmt : packet.headerType < 4) (hchannel : packet.nChannel = message.nChannel)
    (hsize : packet.nBodySize = message.body.length)
    (htype : packet.packetType = message.packetType)
    (hinfo : packet.headerType = 0 → packet.nInfoField2 = message.nInfoField2) (t : Nat) :
    packetHeader packet t = basicHeader packet.headerType message.nChannel ++
      (messageHeader packet.headerType t message ++ timeExtension t) := by
  have htime : (if 0xffffff < t then 0xffffff else t) = min t 0xffffff := by
    split <;> omega
  rw [packetHeader, hchannel, hsize, htype, htime]
  obtain h | h | h | h : packet.headerType = 0 ∨ packet.headerType = 1 ∨ packet.headerType = 2 ∨
      packet.headerType = 3 := by omega
  · rw [h, hinfo h]
    simp [packetSize, messageHeader, extendedTime, timeExtension]
  · rw [h]
    simp [packetSize, messageHeader, extendedTime, timeExtension]
  · rw [h]
    simp [packetSize, messageHeader, extendedTime, timeExtension]
  · rw [h]
    simp [packetSize, messageHeader, extendedTime, timeExtension]

theorem packetHeader_length_le (packet : RtmpPacket) (t : Nat) :
    0 < (packetHeader packet t).length ∧ (packetHeader packet t).length ≤ 18 := by
  have hbasic := basicHeader_length packet.headerType packet.nChannel
  have htime := extendedTime_length_le t
  have hpart : ∀ (c : Prop) [Decidable c] (part : List UInt8),
      (if c then part else []).length ≤ part.length := by
    intro c _ part
    split <;> simp
  have hfield := hpart (1 < packetSize packet.headerType)
    (beBytes 3 (if 0xffffff < t then 0xffffff else t))
  have hsize := hpart (4 < packetSize packet.headerType)
    (beBytes 3 packet.nBodySize ++ beBytes 1 packet.packetType)
  have hinfo := hpart (8 < packetSize packet.headerType) (beBytes 4 packet.nInfoField2).reverse
  simp only [List.length_append, List.length_reverse, beBytes_length] at hfield hsize hinfo
  simp only [packetHeader, List.length_append]
  omega

theorem nextChunkHeader_length_le (packet : RtmpPacket) (t : Nat) :
    0 < (nextChunkHeader packet t).length ∧ (nextChunkHeader packet t).length ≤ 7 := by
  have hbasic := basicHeader_length 3 packet.nChannel
  have htime := extendedTime_length_le t
  simp only [nextChunkHeader, List.length_append]
  omega

end Headers

section Chunks

variable {env : RtmpEnv} {r : RtmpOut} {head next bytes : List UInt8}
  {buffer nSize nChunkSize fuel : Nat}

/-- One chunk, and the header of the next one over its end. -/
theorem sendChunks_chunk (hup : env.up r.written.length = true) (hle : head.length ≤ buffer)
    (hpos : 0 < head.length) (hhead : r.mem.slice (buffer - head.length) head.length = head)
    (hbody : r.mem.slice buffer nSize = bytes) :
    sendChunks env next (fuel + 2) r buffer nSize nChunkSize head.length =
      if nChunkSize < nSize then
        sendChunks env next (fuel + 1)
          { r with
            written := r.written ++ [head ++ bytes.take nChunkSize]
            mem := r.mem.write (buffer + nChunkSize - next.length) next }
          (buffer + nChunkSize) (nSize - nChunkSize) nChunkSize next.length
      else .ret (true, { r with written := r.written ++ [head ++ bytes.take nChunkSize] }) := by
  subst hbody
  have hslice : ∀ n, r.mem.slice (buffer - head.length) (n + head.length) =
      head ++ r.mem.slice buffer n := by
    intro n
    rw [Nat.add_comm, Mem.slice_append, hhead, Nat.sub_add_cancel hle]
  have htake : ∀ n, n ≤ nSize → (r.mem.slice buffer nSize).take n = r.mem.slice buffer n := by
    intro n hn
    obtain ⟨k, rfl⟩ := Nat.exists_eq_add_of_le hn
    rw [Mem.slice_append, List.take_left' (Mem.slice_length _ _ _)]
  rw [sendChunks, if_neg (by omega)]
  simp only [writeN, hup, if_true, hslice]
  by_cases hmore : nChunkSize < nSize
  · have hmin : (if nSize < nChunkSize then nSize else nChunkSize) = nChunkSize :=
      if_neg (by omega)
    rw [if_pos hmore, hmin, if_pos (by omega), htake nChunkSize hmore.le]
  · have hmin : (if nSize < nChunkSize then nSize else nChunkSize) = nSize := by
      split <;> omega
    have hall : (r.mem.slice buffer nSize).take nChunkSize = r.mem.slice buffer nSize :=
      List.take_of_length_le (by rw [Mem.slice_length]; omega)
    rw [if_neg hmore, hmin, hall, Nat.sub_self, if_neg (Nat.lt_irrefl 0), sendChunks]
    rfl

/-- The chunks are the sender's, and a reader that agrees with it before agrees after them. -/
def Conveys (sender : RtmpSender) (chunks : List RtmpChunk) (sender' : RtmpSender) : Prop :=
  Leads RtmpSender.Sends chunks sender sender' ∧ ∀ s, RtmpAgrees sender s →
    ∃ s', receiveChunks s chunks = some s' ∧ RtmpAgrees sender' s'

variable {sender sender' : RtmpSender} {chunk : RtmpChunk} {chunks : List RtmpChunk}
  {channel : RtmpChannel}

theorem conveys_nil (sender : RtmpSender) : Conveys sender [] sender :=
  ⟨.nil sender, fun s hs => ⟨s, rfl, hs⟩⟩

theorem Conveys.cons {sender₁ : RtmpSender} (h : Conveys sender₁ chunks sender')
    (hsends : sender.Sends chunk sender₁) (halone : sender.Alone chunk) :
    Conveys sender (chunk :: chunks) sender' := by
  refine ⟨.cons hsends h.1, fun s hs => ?_⟩
  obtain ⟨s₁, hreceive, hagrees⟩ := hs.sends hsends halone
  obtain ⟨s', hrest, hagrees'⟩ := h.2 s₁ hagrees
  exact ⟨s', by rw [receiveChunks, hreceive]; exact hrest, hagrees'⟩

theorem receiveChunks_append (s : YangStreamRtmp) (xs ys : List RtmpChunk) :
    receiveChunks s (xs ++ ys) = receiveChunks s xs >>= fun s => receiveChunks s ys := by
  induction xs generalizing s with
  | nil => rfl
  | cons x xs ih =>
    simp only [List.cons_append, receiveChunks, Option.bind_eq_bind, Option.bind_assoc]
    congr
    funext s
    exact ih s

theorem Conveys.append {sender₁ : RtmpSender} {xs ys : List RtmpChunk}
    (h : Conveys sender xs sender₁) (h' : Conveys sender₁ ys sender') :
    Conveys sender (xs ++ ys) sender' := by
  refine ⟨?_, fun s hs => ?_⟩
  · have hrun : ∀ {xs s t}, Leads RtmpSender.Sends xs s t → Leads RtmpSender.Sends ys t sender' →
        Leads RtmpSender.Sends (xs ++ ys) s sender' := by
      intro xs s t hxs hys
      induction hxs with
      | nil => exact hys
      | cons hst _ ih => exact .cons hst (ih hys)
    exact hrun h.1 h'.1
  · obtain ⟨s₁, hreceive, hagrees⟩ := h.2 s hs
    obtain ⟨s', hreceive', hagrees'⟩ := h'.2 s₁ hagrees
    exact ⟨s', by rw [receiveChunks_append, hreceive]; exact hreceive', hagrees'⟩

theorem after_chunkSize (htype : channel.message.packetType ≠ rtmpPacketTypeChunkSize) :
    (sender.after channel).chunkSize = sender.chunkSize := if_neg fun h => htype h.2

/-- What is sent of a message later makes up for what was sent of it before. -/
theorem after_after (channel : RtmpChannel)
    (htype : channel.message.packetType ≠ rtmpPacketTypeChunkSize)
    (hmore : ¬channel.Complete) (k : Nat) :
    (sender.after channel).after { channel with sent := k } =
      sender.after { channel with sent := k } := by
  have hsize : (sender.after channel).chunkSize = sender.chunkSize := after_chunkSize htype
  unfold RtmpSender.after at hsize ⊢
  simp only [update_idem, if_neg hmore] at hsize ⊢
  simp only [htype, and_false, if_false]

/-- The chunks of a message from one of them on. -/
theorem sendChunks_conveys (fuel : Nat) (r : RtmpOut) (channel : RtmpChannel) (buffer : Nat)
    {head next : List UInt8} (hup : ∀ n, env.up n = true) (hpos : 0 < sender.chunkSize)
    (hlow : 2 ≤ channel.message.nChannel) (hhigh : channel.message.nChannel < 65600)
    (htype : channel.message.packetType ≠ rtmpPacketTypeChunkSize)
    (hothers : ∀ nChannel other, sender.channels nChannel = some other →
      nChannel ≠ channel.message.nChannel → other.Complete)
    (htaken : ¬refuses channel.message) (hsent : channel.sent ≤ channel.message.body.length)
    (hsends : sender.Sends ⟨channel.message, head ++ sender.next channel⟩
      (sender.advance channel))
    (hle : head.length ≤ buffer) (hheadpos : 0 < head.length) (hnextle : next.length ≤ buffer)
    (hnext : next = basicHeader 3 channel.message.nChannel ++ timeExtension channel.field)
    (hhead : r.mem.slice (buffer - head.length) head.length = head)
    (hbody : r.mem.slice buffer (channel.message.body.length - channel.sent) =
      channel.message.body.drop channel.sent)
    (hfuel : channel.message.body.length - channel.sent + 2 ≤ fuel) :
    ∃ mem chunks, sendChunks env next fuel r buffer
        (channel.message.body.length - channel.sent) sender.chunkSize head.length =
        .ret (true, { r with mem, written := r.written ++ chunks.map (·.bytes) }) ∧
      (∀ i < buffer + sender.chunkSize - next.length, mem i = r.mem i) ∧
      Conveys sender chunks (sender.after
        { channel with sent := channel.message.body.length }) := by
  induction fuel using Nat.strong_induction_on generalizing r sender channel buffer head with
  | _ fuel ih =>
  obtain ⟨fuel, rfl⟩ : ∃ k, fuel = k + 2 := ⟨fuel - 2, by omega⟩
  rw [sendChunks_chunk (hup _) hle hheadpos hhead hbody]
  have halone : sender.Alone ⟨channel.message, head ++ sender.next channel⟩ := ⟨hothers, htaken⟩
  by_cases hmore : sender.chunkSize < channel.message.body.length - channel.sent
  · rw [if_pos hmore]
    have hmin : min (channel.sent + sender.chunkSize) channel.message.body.length =
        channel.sent + sender.chunkSize := by omega
    have hadvance : sender.advance channel =
        sender.after { channel with sent := channel.sent + sender.chunkSize } := by
      rw [RtmpSender.advance, hmin]
    rw [hadvance] at hsends
    set channel₁ : RtmpChannel :=
      { channel with sent := channel.sent + sender.chunkSize } with hchannel₁
    have hincomplete : ¬channel₁.Complete := by
      intro h
      have : channel.sent + sender.chunkSize = channel.message.body.length := h
      omega
    have hsize₁ : (sender.after channel₁).chunkSize = sender.chunkSize := after_chunkSize htype
    have hhere : (sender.after channel₁).channels channel.message.nChannel = some channel₁ :=
      update_self _ _ _
    have hrest : ∃ mem chunks, sendChunks env next (fuel + 1)
          { r with
            written := r.written ++ [head ++
              (channel.message.body.drop channel.sent).take sender.chunkSize]
            mem := r.mem.write (buffer + sender.chunkSize - next.length) next }
          (buffer + sender.chunkSize) (channel₁.message.body.length - channel₁.sent)
          (sender.after channel₁).chunkSize next.length = .ret (true, { r with
            mem
            written := (r.written ++ [head ++
              (channel.message.body.drop channel.sent).take sender.chunkSize]) ++
                chunks.map (·.bytes) }) ∧
        (∀ i < buffer + sender.chunkSize + (sender.after channel₁).chunkSize - next.length,
          mem i = r.mem.write (buffer + sender.chunkSize - next.length) next i) ∧
        Conveys (sender.after channel₁) chunks ((sender.after channel₁).after
          { channel₁ with sent := channel₁.message.body.length }) := by
      refine ih (fuel + 1) (by omega) _ channel₁ _ (by rw [hsize₁]; exact hpos) hlow hhigh htype
        ?_ htaken ?_ ?_ (by omega) ?_ (by omega) hnext ?_ ?_ ?_
      · intro nChannel other hother hne
        rw [RtmpSender.after] at hother
        exact hothers nChannel other ((update_of_ne hne _ _).symm.trans hother) hne
      · show channel.sent + sender.chunkSize ≤ channel.message.body.length
        omega
      · rw [hnext, List.append_assoc]
        exact .continues hhere hincomplete (basicHeader_basic 3 hlow hhigh)
      · rw [hnext, List.length_append]
        have := basicHeader_length 3 channel.message.nChannel
        omega
      · exact Mem.slice_write _ _ _
      · rw [Mem.slice_write_disjoint _ _ _ (.inr (by omega))]
        show r.mem.slice (buffer + sender.chunkSize)
          (channel.message.body.length - (channel.sent + sender.chunkSize)) =
            channel.message.body.drop (channel.sent + sender.chunkSize)
        rw [← List.drop_drop, ← hbody, Mem.drop_slice, Nat.sub_sub]
      · show channel.message.body.length - (channel.sent + sender.chunkSize) + 2 ≤ fuel + 1
        omega
    obtain ⟨mem, chunks, hrun, hmem, hconveys⟩ := hrest
    rw [hsize₁] at hrun hmem
    have hleft : channel.message.body.length - channel.sent - sender.chunkSize =
        channel₁.message.body.length - channel₁.sent := Nat.sub_sub _ _ _
    rw [hleft, hrun]
    refine ⟨mem, ⟨channel.message, head ++ sender.next channel⟩ :: chunks, ?_, ?_, ?_⟩
    · rw [List.append_assoc]
      rfl
    · intro i hi
      rw [hmem i (by omega), Mem.write_outside _ _ _ (.inl hi)]
    · rw [after_after channel₁ htype hincomplete] at hconveys
      exact hconveys.cons hsends halone
  · rw [if_neg hmore]
    have hmin : min (channel.sent + sender.chunkSize) channel.message.body.length =
        channel.message.body.length := by omega
    have hadvance : sender.advance channel =
        sender.after { channel with sent := channel.message.body.length } := by
      rw [RtmpSender.advance, hmin]
    rw [hadvance] at hsends
    refine ⟨r.mem, [_], rfl, fun _ _ => rfl, (conveys_nil _).cons hsends halone⟩

end Chunks

/-! ## Packets -/

/-- A packet whose body has been put where the packet says. -/
structure RtmpSend where
  packet : RtmpPacket
  body : Nat
  bytes : List UInt8
  lower : Bool := true
  queue : Bool := false

/-- The packet as it is passed to be sent. -/
def RtmpSend.passed (send : RtmpSend) : RtmpPacket :=
  { send.packet with body := some send.body, nBodySize := send.bytes.length }

/-- The caller's writing of the body, and one of the two ways of sending. -/
def RtmpSend.run (send : RtmpSend) (env : RtmpEnv) (r : RtmpOut) : Call (Bool × RtmpOut) :=
  let r := { r with mem := r.mem.write send.body send.bytes }
  if send.lower then sendPacket env r send.passed send.queue
  else yangSendPacket env r send.passed send.queue

/-- Packets are sent until one of them is not. -/
def sendAll (env : RtmpEnv) (r : RtmpOut) : List RtmpSend → Call (Bool × RtmpOut)
  | [] => .ret (true, r)
  | send :: sends => do
    match ← send.run env r with
    | (false, r) => return (false, r)
    | (true, r) => sendAll env r sends

/-- What the reader is to make of a packet, given the message before on its channel: a stream that
the header does not name is the one of that message. -/
def RtmpSend.message (send : RtmpSend) (before : Option RtmpChannel) : RtmpMessage where
  nChannel := send.packet.nChannel
  nTimeStamp := send.packet.nTimeStamp
  packetType := send.packet.packetType
  nInfoField2 :=
    if send.packet.headerType = 0 then send.packet.nInfoField2
    else (before.map (·.message.nInfoField2)).getD 0
  body := send.bytes

/-- The time in the header of a packet. -/
def RtmpSend.field (send : RtmpSend) (before : Option RtmpChannel) : Nat :=
  if send.packet.headerType = 0 then send.packet.nTimeStamp
  else (send.packet.nTimeStamp + 2 ^ 32 - (before.map (·.message.nTimeStamp)).getD 0) % 2 ^ 32

/-- The channel after a packet. -/
def RtmpSend.channel (send : RtmpSend) (before : Option RtmpChannel) : RtmpChannel :=
  ⟨send.message before, send.field before, send.bytes.length⟩

/-- The type of header the packet is sent with. -/
def RtmpSend.headerType (send : RtmpSend) (before : RtmpChannel) : Nat :=
  if send.lower then
    let type :=
      if before.message.body.length = send.bytes.length ∧
          before.message.packetType = send.packet.packetType ∧ send.packet.headerType = 1 then 2
      else send.packet.headerType
    if before.message.nTimeStamp = send.packet.nTimeStamp ∧ type = 2 then 3 else type
  else send.packet.headerType

/-- What a packet that can be read back needs. A header without a time has the reader add the time
it has added before. -/
structure RtmpSend.Good (send : RtmpSend) (before : Option RtmpChannel) : Prop where
  room : 18 ≤ send.body
  valid : (send.message before).Valid
  type : send.packet.packetType ≠ rtmpPacketTypeChunkSize
  taken : send.bytes.length ≤ 256000
  headerType : send.packet.headerType = 0 ∨ ∃ channel, before = some channel ∧
    send.packet.headerType ≤ 3 ∧
    (2 ≤ send.headerType channel → send.packet.packetType = channel.message.packetType ∧
      send.bytes.length = channel.message.body.length) ∧
    (send.headerType channel = 3 → send.field before = channel.field)

/-- The sender after a packet. -/
def RtmpSender.sent (sender : RtmpSender) (send : RtmpSend) : RtmpSender :=
  sender.after (send.channel (sender.channels send.packet.nChannel))

/-- Each of the packets can be read back, behind those before it. -/
def AllGood (sender : RtmpSender) : List RtmpSend → Prop
  | [] => True
  | send :: sends =>
    send.Good (sender.channels send.packet.nChannel) ∧ AllGood (sender.sent send) sends

/-- What is kept of the packets sent is what the reader knows. -/
structure OutAgrees (r : RtmpOut) (sender : RtmpSender) : Prop where
  chunkSize : r.outChunkSize = sender.chunkSize
  positive : 0 < sender.chunkSize
  fresh : ∀ nChannel, sender.channels nChannel = none → r.vecChannelsOut nChannel = none
  last : ∀ nChannel channel, sender.channels nChannel = some channel → channel.Complete ∧
    channel.message.nTimeStamp < 2 ^ 32 ∧ ∃ prev, r.vecChannelsOut nChannel = some prev ∧
      prev.nTimeStamp = channel.message.nTimeStamp ∧
      prev.packetType = channel.message.packetType ∧
      prev.nBodySize = channel.message.body.length

section Packet

variable {env : RtmpEnv} {r : RtmpOut} {sender : RtmpSender} {send : RtmpSend}

theorem fetch_slice (m : Mem) (p n : Nat) : fetch n (m.slice p n) = .ret (m.slice p n) := by
  rw [fetch, if_pos (by simp), List.take_of_length_le (by simp)]

theorem amfDecodeString_slice (m : Mem) (p : Nat) :
    amfDecodeString (m.slice p (2 + m.be p 2)) = .ret (m.slice (p + 2) (m.be p 2)) := by
  rw [Mem.slice_append, amfDecodeString, amfDecodeInt16, amfDecodeInt,
    fetch_append_of_length (Mem.slice_length m p 2), Call.ret_bind]
  simp only [Call.pure_eq, Call.ret_bind]
  rw [← Mem.be_eq_beNat, List.drop_left' (Mem.slice_length m p 2), fetch_slice]

theorem amfDecodeNumber_slice (m : Mem) (p : Nat) :
    amfDecodeNumber (m.slice p 8) = .ret (.ofNat (m.be p 8)) := by
  rw [amfDecodeNumber, fetch_slice, Mem.be_eq_beNat]
  rfl

/-- A packet that is sent is kept, whatever a command in it says. -/
theorem sentPacket_ret (env : RtmpEnv) (r : RtmpOut) {packet : RtmpPacket}
    (hbody : packet.body.isSome) (queue : Bool) :
    ∃ methodCalls, sentPacket env r packet queue = .ret (true, { r with
      methodCalls
      vecChannelsOut := update r.vecChannelsOut packet.nChannel (some packet) }) := by
  obtain ⟨body, hbody⟩ := Option.isSome_iff_exists.mp hbody
  rw [sentPacket]
  by_cases htype : packet.packetType = rtmpPacketTypeInvoke
  · simp only [if_pos htype, hbody, Call.deref_some, Call.ret_bind, amfDecodeString_slice,
      amfDecodeNumber_slice]
    cases queue with
    | true => exact ⟨_, rfl⟩
    | false => exact ⟨_, rfl⟩
  · simp only [if_neg htype]
    exact ⟨_, rfl⟩

/-- Only the type of the header is changed. -/
theorem lowerHeader_fields (prev packet : RtmpPacket) :
    lowerHeader prev packet =
      { packet with headerType := (lowerHeader prev packet).headerType } := by
  have hite : ∀ (c : Prop) [Decidable c] (packet : RtmpPacket) (k : Nat),
      (if c then { packet with headerType := k } else packet) =
        { packet with headerType := if c then k else packet.headerType } := by
    intro c _ packet k
    split <;> rfl
  unfold lowerHeader
  simp only [hite]
  split <;> split <;> rfl

theorem lowerHeader_type {prev : RtmpPacket} {channel : RtmpChannel}
    (hlower : send.lower = true) (htime : prev.nTimeStamp = channel.message.nTimeStamp)
    (htype : prev.packetType = channel.message.packetType)
    (hsize : prev.nBodySize = channel.message.body.length) :
    (lowerHeader prev send.passed).headerType = send.headerType channel := by
  unfold lowerHeader RtmpSend.headerType
  rw [if_pos hlower, htime, htype, hsize]
  by_cases hsame : channel.message.body.length = send.bytes.length ∧
      channel.message.packetType = send.packet.packetType ∧ send.packet.headerType = 1
  · simp only [RtmpSend.passed, hsame, and_self, if_true]
    split <;> simp_all
  · simp only [RtmpSend.passed, hsame, if_false]
    split <;> simp_all

theorem OutAgrees.after (h : OutAgrees r sender) {message : RtmpMessage} {field : Nat}
    (hvalid : message.Valid) (htype : message.packetType ≠ rtmpPacketTypeChunkSize)
    {packet : RtmpPacket} (hchannel : packet.nChannel = message.nChannel)
    (htime : packet.nTimeStamp = message.nTimeStamp)
    (hkind : packet.packetType = message.packetType)
    (hsize : packet.nBodySize = message.body.length) {r' : RtmpOut}
    (hchunk : r'.outChunkSize = r.outChunkSize)
    (hout : r'.vecChannelsOut = update r.vecChannelsOut packet.nChannel (some packet)) :
    OutAgrees r' (sender.after ⟨message, field, message.body.length⟩) := by
  have hafter : (sender.after ⟨message, field, message.body.length⟩).chunkSize =
      sender.chunkSize := after_chunkSize htype
  refine ⟨?_, ?_, ?_, ?_⟩
  · rw [hchunk, h.chunkSize, hafter]
  · rw [hafter]
    exact h.positive
  · intro nChannel hnone
    simp only [RtmpSender.after] at hnone
    rw [hout, hchannel]
    by_cases hn : nChannel = message.nChannel
    · rw [hn, update_self] at hnone
      cases hnone
    · rw [update_of_ne hn] at hnone ⊢
      exact h.fresh nChannel hnone
  · intro nChannel channel hsome
    simp only [RtmpSender.after] at hsome
    rw [hout, hchannel]
    by_cases hn : nChannel = message.nChannel
    · rw [hn, update_self] at hsome
      obtain rfl := Option.some.inj hsome
      exact ⟨rfl, hvalid.nTimeStamp, packet, by rw [hn, update_self], htime, hkind, hsize⟩
    · rw [update_of_ne hn] at hsome ⊢
      exact h.last nChannel channel hsome

/-- The header of a type that the message may have, and the chunks. -/
theorem sendBody_conveys (packet : RtmpPacket) (hup : ∀ n, env.up n = true)
    (h : OutAgrees r sender) {message : RtmpMessage} {t body : Nat} (hvalid : message.Valid)
    (htype : message.packetType ≠ rtmpPacketTypeChunkSize) (htaken : ¬refuses message)
    (hroom : 18 ≤ body) (hfmt : packet.headerType < 4)
    (hheader : HeaderType message t (sender.channels message.nChannel) packet.headerType)
    (hbody : packet.body = some body) (hchannel : packet.nChannel = message.nChannel)
    (htime : packet.nTimeStamp = message.nTimeStamp)
    (hkind : packet.packetType = message.packetType)
    (hsize : packet.nBodySize = message.body.length)
    (hinfo : packet.headerType = 0 → packet.nInfoField2 = message.nInfoField2)
    (hmem : r.mem.slice body message.body.length = message.body) (queue : Bool) :
    ∃ r' chunks, sendBody env r packet t body queue = .ret (true, r') ∧
      r'.written = r.written ++ chunks.map (·.bytes) ∧
      OutAgrees r' (sender.after ⟨message, t, message.body.length⟩) ∧
      Conveys sender chunks (sender.after ⟨message, t, message.body.length⟩) := by
  have hlen := packetHeader_length_le packet t
  have hlen' := nextChunkHeader_length_le packet t
  have hhead := packetHeader_eq hfmt hchannel hsize hkind hinfo t
  set header := packetHeader packet t with hheaderdef
  set r₁ : RtmpOut := { r with mem := r.mem.write (body - header.length) header } with hr₁
  have hbasic := basicHeader_basic packet.headerType hvalid.nChannel.1 hvalid.nChannel.2
  have hothers : ∀ nChannel other, sender.channels nChannel = some other → other.Complete :=
    fun nChannel other hother => (h.last nChannel other hother).1
  have hsends : sender.Sends ⟨message, header ++ sender.next ⟨message, t, 0⟩⟩
      (sender.advance ⟨message, t, 0⟩) := by
    rw [hhead, List.append_assoc, List.append_assoc]
    exact .begins hvalid (fun before => hothers _ before) hheader hbasic
  have hslice : r₁.mem.slice body message.body.length = message.body := by
    rw [hr₁, Mem.slice_write_disjoint _ _ _ (.inr (by omega)), hmem]
  have hchunks : ∃ mem chunks, sendChunks env (nextChunkHeader packet t)
        (message.body.length + 2) r₁ body (message.body.length - 0) sender.chunkSize
          header.length =
        .ret (true, { r₁ with mem, written := r₁.written ++ chunks.map (·.bytes) }) ∧
      (∀ i < body + sender.chunkSize - (nextChunkHeader packet t).length, mem i = r₁.mem i) ∧
      Conveys sender chunks (sender.after ⟨message, t, message.body.length⟩) :=
    sendChunks_conveys _ r₁ ⟨message, t, 0⟩ body hup h.positive hvalid.nChannel.1
      hvalid.nChannel.2 htype (fun nChannel other hother _ => hothers nChannel other hother) htaken
      (Nat.zero_le _) hsends (by omega) hlen.1 (by omega)
      (by rw [nextChunkHeader, hchannel]; rfl) (Mem.slice_write _ _ _) hslice le_rfl
  obtain ⟨mem, chunks, hrun, -, hconveys⟩ := hchunks
  obtain ⟨methodCalls, hsent⟩ := sentPacket_ret env
    { r₁ with mem, written := r₁.written ++ chunks.map (·.bytes) }
    (Option.isSome_iff_exists.mpr ⟨body, hbody⟩) queue
  refine ⟨{ r₁ with
    mem
    written := r₁.written ++ chunks.map (·.bytes)
    methodCalls
    vecChannelsOut := update r.vecChannelsOut packet.nChannel (some packet) }, chunks, ?_, rfl,
    h.after hvalid htype hchannel htime hkind hsize rfl rfl, hconveys⟩
  rw [Nat.sub_zero, show sender.chunkSize = r₁.outChunkSize from h.chunkSize.symm] at hrun
  unfold sendBody
  simp only [hsize, ← hheaderdef, ← hr₁]
  rw [hrun, Call.ret_bind]
  exact hsent

/-- A header of the largest type has the time itself. -/
theorem sendPacketBy_large {lower : RtmpPacket → RtmpPacket → RtmpPacket} {packet : RtmpPacket}
    {body : Nat} (hzero : packet.headerType = 0) (hbody : packet.body = some body) (queue : Bool) :
    sendPacketBy lower env r packet queue =
      sendBody env r packet ((packet.nTimeStamp + 2 ^ 32 - 0) % 2 ^ 32) body queue := by
  simp only [sendPacketBy, hzero, if_true, if_neg (show ¬3 < 0 by omega), hbody]

theorem sendPacketBy_next {lower : RtmpPacket → RtmpPacket → RtmpPacket}
    {packet prev : RtmpPacket} {body : Nat} (hne : packet.headerType ≠ 0)
    (hprev : r.vecChannelsOut packet.nChannel = some prev)
    (htype : ¬3 < (lower prev packet).headerType) (hbody : (lower prev packet).body = some body)
    (queue : Bool) :
    sendPacketBy lower env r packet queue = sendBody env r (lower prev packet)
      (((lower prev packet).nTimeStamp + 2 ^ 32 - prev.nTimeStamp) % 2 ^ 32) body queue := by
  simp only [sendPacketBy, if_neg hne, hprev, if_neg htype, hbody]

/-- The packet with the header it is sent with. -/
def RtmpSend.typed (send : RtmpSend) (fmt : Nat) : RtmpPacket :=
  { send.passed with headerType := fmt }

theorem RtmpSend.run_large (hlarge : send.packet.headerType = 0)
    (htime : send.packet.nTimeStamp < 2 ^ 32) (env : RtmpEnv) (r : RtmpOut) :
    send.run env r = sendBody env { r with mem := r.mem.write send.body send.bytes }
      (send.typed 0) send.packet.nTimeStamp send.body send.queue := by
  have ht : (send.packet.nTimeStamp + 2 ^ 32 - 0) % 2 ^ 32 = send.packet.nTimeStamp := by omega
  have htyped : send.typed 0 = send.passed := by
    rw [RtmpSend.typed, ← hlarge]
    rfl
  have hpassed : send.passed.headerType = 0 := hlarge
  unfold RtmpSend.run sendPacket yangSendPacket
  simp only [sendPacketBy_large hpassed rfl, ite_self, htyped]
  rw [show send.passed.nTimeStamp = send.packet.nTimeStamp from rfl, ht]

theorem headerType_le {channel : RtmpChannel} (h : send.packet.headerType ≤ 3) :
    send.headerType channel ≤ 3 := by
  unfold RtmpSend.headerType
  split
  · dsimp only
    split <;> split <;> omega
  · exact h

theorem headerType_eq_zero {channel : RtmpChannel} (h : send.packet.headerType ≠ 0) :
    send.headerType channel ≠ 0 := by
  unfold RtmpSend.headerType
  split
  · dsimp only
    split <;> split <;> omega
  · exact h

theorem RtmpSend.run_next {channel : RtmpChannel} {prev : RtmpPacket}
    (hlarge : send.packet.headerType ≠ 0) (hle : send.packet.headerType ≤ 3)
    (hprev : r.vecChannelsOut send.packet.nChannel = some prev)
    (htime : prev.nTimeStamp = channel.message.nTimeStamp)
    (htype : prev.packetType = channel.message.packetType)
    (hsize : prev.nBodySize = channel.message.body.length) (env : RtmpEnv) :
    send.run env r = sendBody env { r with mem := r.mem.write send.body send.bytes }
      (send.typed (send.headerType channel))
      ((send.packet.nTimeStamp + 2 ^ 32 - channel.message.nTimeStamp) % 2 ^ 32) send.body
      send.queue := by
  have hthree : send.headerType channel ≤ 3 := headerType_le hle
  have hpassed : send.passed.headerType ≠ 0 := hlarge
  have hprev' : ({ r with mem := r.mem.write send.body send.bytes } : RtmpOut).vecChannelsOut
      send.passed.nChannel = some prev := hprev
  unfold RtmpSend.run sendPacket yangSendPacket
  cases hlower : send.lower with
  | true =>
    have hlowered : lowerHeader prev send.passed = send.typed (send.headerType channel) := by
      rw [lowerHeader_fields, lowerHeader_type hlower htime htype hsize]
      rfl
    rw [if_pos rfl, sendPacketBy_next hpassed hprev' (by rw [hlowered]; exact not_lt.mpr hthree)
      (by rw [hlowered]; rfl), hlowered, htime]
    rfl
  | false =>
    have hkept : send.headerType channel = send.packet.headerType := by
      rw [RtmpSend.headerType, if_neg (by rw [hlower]; simp)]
    rw [if_neg (by simp), sendPacketBy_next hpassed hprev' (not_lt.mpr hle) rfl, htime, hkept]
    rfl

/-- The header that a packet is sent with is one that its message may have. -/
theorem headerType_next {channel : RtmpChannel} (hlarge : send.packet.headerType ≠ 0)
    (hvalid : (send.message (some channel)).Valid) (hbefore : channel.message.nTimeStamp < 2 ^ 32)
    (hle : send.headerType channel ≤ 3)
    (hsame : 2 ≤ send.headerType channel →
      send.packet.packetType = channel.message.packetType ∧
        send.bytes.length = channel.message.body.length)
    (hfield : send.headerType channel = 3 → send.field (some channel) = channel.field) :
    HeaderType (send.message (some channel)) (send.field (some channel)) (some channel)
      (send.headerType channel) := by
  have hzero : send.headerType channel ≠ 0 := headerType_eq_zero hlarge
  have htime : send.packet.nTimeStamp < 2 ^ 32 := hvalid.nTimeStamp
  have hdef : send.field (some channel) =
      (send.packet.nTimeStamp + 2 ^ 32 - channel.message.nTimeStamp) % 2 ^ 32 := if_neg hlarge
  have hlt : send.field (some channel) < 2 ^ 32 := by
    rw [hdef]
    exact Nat.mod_lt _ (by decide)
  have hsum : send.packet.nTimeStamp =
      (send.field (some channel) + channel.message.nTimeStamp) % 2 ^ 32 := by
    rw [hdef]
    omega
  have hinfo : (send.message (some channel)).nInfoField2 = channel.message.nInfoField2 :=
    if_neg hlarge
  obtain h | h | h : send.headerType channel = 1 ∨ send.headerType channel = 2 ∨
      send.headerType channel = 3 := by omega
  · rw [h]
    exact .medium hlt hsum hinfo
  · obtain ⟨htype, hsize⟩ := hsame (by omega)
    rw [h]
    exact .small hlt hsum hinfo htype hsize
  · obtain ⟨htype, hsize⟩ := hsame (by omega)
    rw [h]
    exact .minimum (hfield h) hlt hsum hinfo htype hsize

/-- **A packet is sent in the chunks of its message.** -/
theorem run_conveys (hup : ∀ n, env.up n = true) (h : OutAgrees r sender)
    (hgood : send.Good (sender.channels send.packet.nChannel)) :
    ∃ r' chunks, send.run env r = .ret (true, r') ∧
      r'.written = r.written ++ chunks.map (·.bytes) ∧ OutAgrees r' (sender.sent send) ∧
      Conveys sender chunks (sender.sent send) := by
  have htaken : ¬refuses (send.message (sender.channels send.packet.nChannel)) := by
    have hlen := hgood.taken
    simp only [refuses, decide_eq_true_eq, not_lt]
    exact hlen
  have hagrees : OutAgrees { r with mem := r.mem.write send.body send.bytes } sender :=
    ⟨h.chunkSize, h.positive, h.fresh, h.last⟩
  have hbody : ∀ fmt, fmt < 4 → (fmt = 0 → send.packet.headerType = 0) →
      HeaderType (send.message (sender.channels send.packet.nChannel))
        (send.field (sender.channels send.packet.nChannel))
        (sender.channels send.packet.nChannel) fmt →
      send.run env r = sendBody env { r with mem := r.mem.write send.body send.bytes }
        (send.typed fmt) (send.field (sender.channels send.packet.nChannel)) send.body
        send.queue →
      ∃ r' chunks, send.run env r = .ret (true, r') ∧
        r'.written = r.written ++ chunks.map (·.bytes) ∧ OutAgrees r' (sender.sent send) ∧
        Conveys sender chunks (sender.sent send) := by
    intro fmt hfmt hzero hheader hrun
    rw [hrun]
    have hinfo : (send.typed fmt).headerType = 0 → (send.typed fmt).nInfoField2 =
        (send.message (sender.channels send.packet.nChannel)).nInfoField2 :=
      fun hfmt => (if_pos (hzero hfmt)).symm
    exact sendBody_conveys (send.typed fmt) hup hagrees hgood.valid hgood.type htaken hgood.room
      hfmt hheader rfl rfl rfl rfl rfl hinfo (Mem.slice_write _ _ _) send.queue
  by_cases hlarge : send.packet.headerType = 0
  · have hfield : send.field (sender.channels send.packet.nChannel) = send.packet.nTimeStamp :=
      if_pos hlarge
    refine hbody 0 (by omega) (fun _ => hlarge) (.large hfield) ?_
    rw [hfield]
    exact RtmpSend.run_large hlarge hgood.valid.nTimeStamp env r
  · obtain ⟨channel, hchannel, hle, hsame, hfield⟩ := hgood.headerType.resolve_left hlarge
    obtain ⟨-, hbefore, prev, hprev, htime, htype, hsize⟩ := h.last _ _ hchannel
    have hthree : send.headerType channel ≤ 3 := headerType_le hle
    have hne : send.headerType channel ≠ 0 := headerType_eq_zero hlarge
    refine hbody (send.headerType channel) (by omega) (fun h => absurd h hne) ?_ ?_
    · have hvalid := hgood.valid
      rw [hchannel] at hvalid hfield ⊢
      exact headerType_next hlarge hvalid hbefore hthree hsame hfield
    · rw [hchannel]
      have hfield : send.field (some channel) =
          (send.packet.nTimeStamp + 2 ^ 32 - channel.message.nTimeStamp) % 2 ^ 32 := if_neg hlarge
      rw [hfield]
      exact RtmpSend.run_next hlarge hle hprev htime htype hsize env

end Packet

section Packets

variable {env : RtmpEnv} {sends : List RtmpSend}

/-- The messages of the packets, as the reader is to make them. -/
def sentMessages (sender : RtmpSender) : List RtmpSend → List RtmpMessage
  | [] => []
  | send :: sends =>
    send.message (sender.channels send.packet.nChannel) :: sentMessages (sender.sent send) sends

theorem sent_completed (sender : RtmpSender) (send : RtmpSend) :
    (sender.sent send).completed =
      sender.completed ++ [send.message (sender.channels send.packet.nChannel)] :=
  if_pos (show send.bytes.length = send.bytes.length from rfl)

theorem foldl_completed (sender : RtmpSender) (sends : List RtmpSend) :
    (sends.foldl RtmpSender.sent sender).completed =
      sender.completed ++ sentMessages sender sends := by
  induction sends generalizing sender with
  | nil => simp [sentMessages]
  | cons send sends ih =>
    rw [List.foldl_cons, ih, sent_completed, List.append_assoc]
    rfl

theorem sendAll_conveys (hup : ∀ n, env.up n = true) {r : RtmpOut} {sender : RtmpSender}
    (h : OutAgrees r sender) (hgood : AllGood sender sends) :
    ∃ r' chunks, sendAll env r sends = .ret (true, r') ∧
      r'.written = r.written ++ chunks.map (·.bytes) ∧
      Conveys sender chunks (sends.foldl RtmpSender.sent sender) := by
  induction sends generalizing r sender with
  | nil => exact ⟨r, [], rfl, by simp, conveys_nil sender⟩
  | cons send sends ih =>
    obtain ⟨r₁, chunks, hrun, hwritten, hagrees, hconveys⟩ := run_conveys hup h hgood.1
    obtain ⟨r', chunks', hrest, hwritten', hconveys'⟩ := ih hagrees hgood.2
    refine ⟨r', chunks ++ chunks', ?_, ?_, hconveys.append hconveys'⟩
    · rw [sendAll, hrun]
      exact hrest
    · rw [hwritten', hwritten, List.map_append, List.append_assoc]

theorem rtmpAgrees_start (mem : Mem) (buf : Nat) : RtmpAgrees {} { r := { mem }, buf } where
  chunkSize := rfl
  positive := by decide
  input := rfl
  pac := rfl
  delivered := rfl
  taken _ hmessage := nomatch hmessage
  named _ _ hchannel := nomatch hchannel
  rests _ _ hchannel := nomatch hchannel
  waits _ _ hchannel := nomatch hchannel

/-- A sound and one after it, which gets a shorter header than it asks for. -/
def soundSends (time : Nat) : List RtmpSend :=
  [{ packet := { packetType := 8, nChannel := 4, nTimeStamp := 5, nInfoField2 := 1 }
     body := 18
     bytes := [7, 7] },
   { packet := { headerType := 1, packetType := 8, nChannel := 4, nTimeStamp := time }
     body := 18
     bytes := [8, 8] }]

theorem sound_valid {time : Nat} (htime : time < 2 ^ 32) (bytes : List UInt8)
    (hbytes : bytes.length < 2 ^ 24) : RtmpMessage.Valid ⟨4, time, 8, 1, bytes⟩ where
  nChannel := ⟨show 2 ≤ 4 by decide, show 4 < 65600 by decide⟩
  nTimeStamp := htime
  packetType := show 8 < 256 by decide
  nInfoField2 := show 1 < 2 ^ 32 by decide
  body := hbytes
  chunkSize h := nomatch h

theorem soundSends_good : AllGood {} (soundSends 28) :=
  ⟨⟨le_rfl, sound_valid (by decide) [7, 7] (by decide), by decide, by decide, .inl rfl⟩,
    ⟨le_rfl, sound_valid (by decide) [8, 8] (by decide), by decide, by decide,
      .inr ⟨_, rfl, by decide, fun _ => ⟨rfl, rfl⟩, by decide⟩⟩, trivial⟩

end Packets

end MetaRtc
