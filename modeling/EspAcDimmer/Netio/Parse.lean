import EspAcDimmer.Netio.Messages
import EspAcDimmer.Netio.Receive
import EspAcDimmer.Streams.RoundTrip

/-! # Two parsers of one format

The server overlays structs on the bytes it received; the streams read them field by field. Both
find what the decoder of the message finds: the id, and behind it the fields.
-/

namespace EspAcDimmer

open Framing LittleEndian Streams

/-! ## The overlay -/

/-- What `run` takes the bytes it received for: the `devId` of a discovery message, or something
else. -/
def UdpSrv.parse (s : UdpSrv) (received : Received) : Option (BitVec 32) :=
  let s := s.recvfrom received
  let len := received.len
  if sizeofMsgIdType > len then none
  else
    let len := len - sizeofMsgIdType
    if s.word 0 = discoveryId then
      if sizeofDiscoveryMessage > len then none else some (s.word 4)
    else none

variable {rebalance : BinaryTree ClientInfo → BinaryTree ClientInfo} {s : UdpSrv} {α : Type}

/-- The sender becomes a client where the bytes are taken for a discovery message. -/
theorem receive_clients (received : Received) (currTime sended : Int) :
    (s.receive rebalance received currTime sended).clients =
      if (s.parse received).isSome then ((s.recvfrom received).emplace rebalance).clients
      else s.clients := by
  unfold UdpSrv.receive UdpSrv.parse
  simp only
  split
  · simp [UdpSrv.leave]
  split
  · split
    · simp [UdpSrv.leave]
    · simp
  · simp

/-- The last byte is the lowest. -/
theorem toNat_append_byte {n : Nat} (x : BitVec n) (b : BitVec 8) :
    (x ++ b).toNat = b.toNat + 256 * x.toNat := by
  rw [BitVec.toNat_append, ← Nat.shiftLeft_add_eq_or_of_lt b.isLt, Nat.shiftLeft_eq]
  omega

/-- A word of the buffer is four bytes of the datagram. -/
theorem Datagram.word_ofBytes (datagram : Datagram) {i : Nat} (hi : i + 4 ≤ datagram.bytes.length) :
    (s.recvfrom (some datagram)).word i =
      BitVec.ofNat (8 * 4) (ofBytes ((datagram.bytes.drop i).take 4)) := by
  have htake : (datagram.bytes.drop i).take 4 = [datagram.bytes[i], datagram.bytes[i + 1],
      datagram.bytes[i + 2], datagram.bytes[i + 3]] := by
    refine List.ext_getElem (by simp; omega) ?_
    intro j _ hj
    obtain rfl | rfl | rfl | rfl : j = 0 ∨ j = 1 ∨ j = 2 ∨ j = 3 := by
      simp only [List.length_cons, List.length_nil] at hj
      omega
    all_goals simp
  have hlt : ofBytes [datagram.bytes[i], datagram.bytes[i + 1], datagram.bytes[i + 2],
      datagram.bytes[i + 3]] < 2 ^ (8 * 4) :=
    (ofBytes_lt _).trans_eq (by simp)
  apply BitVec.eq_of_toNat_eq
  rw [htake, BitVec.toNat_ofNat, Nat.mod_eq_of_lt hlt]
  simp only [UdpSrv.word]
  rw [datagram.rxBuffer_eq (by omega), datagram.rxBuffer_eq (by omega),
    datagram.rxBuffer_eq (by omega), datagram.rxBuffer_eq (by omega), toNat_append_byte,
    toNat_append_byte, toNat_append_byte]
  rfl

namespace Messages

/-! ## The decoder -/

/-- The id of the message, and the message. -/
def decode (type : Msg α) : Decoder Byte type.fields.Content :=
  (decodeScalar 4).bind fun msgId =>
    if msgId = type.ID then type.fields.decode else Decoder.fail Byte type.fields.Content

/-- A read of the id, and of the message if it is that of the type. The targets held `msgId` and
`msg` before. -/
def read (type : Msg α) (msgId : MsgIdType) (msg : α) (stream : ArrayInputStream) : Option α :=
  let id := readScalar 4 msgId stream
  if id.ok ∧ id.target = type.ID then
    let r := type.fields.read msg id.stream
    if r.ok then some r.target else none
  else none

/-- The streams find what the decoder finds, and leave the other fields of the target. -/
theorem read_eq (type : Msg α) (msgId : MsgIdType) (msg : α) {bytes : List Byte}
    (h : bytes.length < 2 ^ 32) :
    read type msgId msg (.ofArray bytes) =
      ((decode type).run bytes).map fun p => type.fields.overlay msg p.1 := by
  rcases ArrayInputStream.inBuffer_ofArray h with ⟨hin, hunread⟩
  unfold read decode Decoder.bind
  simp only
  cases hid : (decodeScalar 4).run bytes with
  | none =>
    rw [← hunread] at hid
    have hno : (readScalar 4 msgId (.ofArray bytes)).ok = false :=
      (readScalar_meets 4).none hin hid
    simp [hno]
  | some p =>
    rw [← hunread] at hid
    rcases (readScalar_meets 4).some msgId hin hid with ⟨hok, htarget, hleft⟩
    rw [hok, htarget]
    by_cases htype : p.1 = type.ID
    · simp only [htype, and_self, if_true, Option.bind_some]
      have hin' := readScalar_keeps ArrayInputStream.inBuffer_kept 4 msgId _ hin
      cases hmsg : type.fields.decode.run p.2 with
      | none =>
        rw [← hleft] at hmsg
        have hno : (type.fields.read msg (readScalar 4 msgId (.ofArray bytes)).stream).ok = false :=
          type.fields.read_meets.none hin' hmsg
        simp [hno]
      | some q =>
        rw [← hleft] at hmsg
        rcases type.fields.read_meets.some msg hin' hmsg with ⟨hok', htarget', -⟩
        simp [hok', htarget']
    · simp [htype, Decoder.fail]

/-- A message is found in its encoding, with any bytes behind it. -/
theorem decode_encode (type : Msg α) (msg : type.fields.Object) (h : type.fields.Short msg)
    (rest : List Byte) :
    (decode type).run (encode type msg ++ rest) = some (type.fields.content msg, rest) := by
  have hid := (decodeScalar_finds 4 type.ID).found trivial (type.fields.encode msg ++ rest)
  unfold decode encode
  simp only [Decoder.bind, List.append_assoc, hid, Option.bind_some, if_true]
  exact (type.fields.decode_finds msg).found h rest

/-- A message of another id is not found in it. -/
theorem decode_encode_of_ne {β : Type} (type : Msg α) (type' : Msg β) (msg : type'.fields.Object)
    (h : type'.ID ≠ type.ID) (rest : List Byte) :
    (decode type).run (encode type' msg ++ rest) = none := by
  have hid := (decodeScalar_finds 4 type'.ID).found trivial (type'.fields.encode msg ++ rest)
  unfold decode encode
  simp only [Decoder.bind, List.append_assoc, hid, Option.bind_some, if_neg h]
  rfl

/-- A `Discovery` with this `devId`. -/
def discovery (devId : BitVec 32) : Discovery.fields.Object := (devId, ())

/-- The bytes that `create` has put into the buffer, as many as it returns. -/
def created (buf : Nat → Byte) (bufSize : SizeType) (type : Msg α) (msg : type.fields.Object) :
    List Byte :=
  (List.range (create buf bufSize type msg).1.toNat).map (create buf bufSize type msg).2

/-- What `create` makes is the encoding, or nothing. -/
theorem created_eq (buf : Nat → Byte) (bufSize : SizeType) (type : Msg α)
    (msg : type.fields.Object) :
    created buf bufSize type msg =
      if (encode type msg).length ≤ bufSize.toNat then encode type msg else [] := by
  unfold created
  rw [create_fst]
  split
  · next hfit =>
    have hfree : (ArrayOutputStream.ofArray buf bufSize).freeSpace = bufSize :=
      BitVec.sub_zero bufSize
    have hwritten :=
      (ArrayOutputStream.ofArray buf bufSize).written_append (e := encode type msg)
    rw [hfree, List.take_of_length_le hfit, ArrayOutputStream.written,
      wpos_created buf bufSize hfit] at hwritten
    rw [create_eq]
    exact hwritten
  · rfl

end Messages

open Messages

/-! ## Agreement -/

/-- The overlay finds what the decoder finds. -/
theorem parse_eq (s : UdpSrv) (datagram : Datagram) :
    s.parse (some datagram) = ((decode Discovery).run datagram.bytes).map fun p => p.1.1 := by
  have hfields : ∀ u, (Discovery.fields.decode).run u = if 4 ≤ u.length then
      some ((BitVec.ofNat (8 * 4) (ofBytes (u.take 4)), ()), u.drop 4) else none := by
    intro u
    show ((decodeScalar 4).run u).bind _ = _
    rw [run_decodeScalar]
    split <;> rfl
  have hid : sizeofMsgIdType > Received.len (some datagram) ↔ datagram.bytes.length < 4 :=
    datagram.gt_len (n := 4) (by decide)
  unfold UdpSrv.parse decode
  simp only [Decoder.bind, run_decodeScalar]
  by_cases hshort : datagram.bytes.length < 4
  · rw [if_pos (hid.mpr hshort), if_neg (by omega)]
    rfl
  have hlong : 4 ≤ datagram.bytes.length := Nat.not_lt.mp hshort
  rw [if_neg (mt hid.mp hshort), if_pos hlong, Option.bind_some, datagram.word_ofBytes (by omega),
    List.drop_zero, show Discovery.ID = discoveryId from rfl]
  simp only
  by_cases hdiscovery : BitVec.ofNat (8 * 4) (ofBytes (datagram.bytes.take 4)) = discoveryId
  · rw [if_pos hdiscovery, if_pos hdiscovery, hfields, List.length_drop]
    by_cases hless : datagram.bytes.length < 8
    · rw [if_pos ((datagram.gt_rest hlong).mpr hless), if_neg (by omega)]
      rfl
    · rw [if_neg (mt (datagram.gt_rest hlong).mp hless), if_pos (by omega),
        datagram.word_ofBytes (by omega)]
      rfl
  · rw [if_neg hdiscovery, if_neg hdiscovery]
    rfl

theorem Datagram.length_lt (datagram : Datagram) : datagram.bytes.length < 2 ^ 32 :=
  Nat.lt_of_le_of_lt datagram.size_le (by decide)

/-- Where the decoder finds a discovery message, both parsers do. -/
theorem parsers_found {s : UdpSrv} {datagram : Datagram} {msgId : MsgIdType}
    {msg : BitVec 32 × Unit} {devId : BitVec 32} {rest : List Byte}
    (h : (decode Discovery).run datagram.bytes = some ((devId, ()), rest)) :
    s.parse (some datagram) = some devId ∧
      Messages.read Discovery msgId msg (.ofArray datagram.bytes) = some (devId, ()) := by
  rw [parse_eq, read_eq _ _ _ datagram.length_lt, h]
  exact ⟨rfl, rfl⟩

/-- Where the decoder finds no discovery message, neither parser does. -/
theorem parsers_refuse {s : UdpSrv} {datagram : Datagram} {msgId : MsgIdType}
    {msg : BitVec 32 × Unit} (h : (decode Discovery).run datagram.bytes = none) :
    s.parse (some datagram) = none ∧
      Messages.read Discovery msgId msg (.ofArray datagram.bytes) = none := by
  rw [parse_eq, read_eq _ _ _ datagram.length_lt, h]
  exact ⟨rfl, rfl⟩

/-- The two parsers agree on every datagram, and find in what `create` makes of a discovery message
its `devId`, and in what it makes of a temperature nothing. -/
theorem parse_agrees :
    (∀ (s : UdpSrv) (datagram : Datagram) (msgId : MsgIdType) (msg : BitVec 32 × Unit)
      (devId : BitVec 32), s.parse (some datagram) = some devId ↔
        Messages.read Discovery msgId msg (.ofArray datagram.bytes) = some (devId, ())) ∧
    (∀ (buf : Nat → Byte) (bufSize : SizeType) (devId : BitVec 32) (s : UdpSrv)
      (datagram : Datagram) (msgId : MsgIdType) (msg : BitVec 32 × Unit),
      0 < (create buf bufSize Discovery (discovery devId)).1.toNat →
      datagram.bytes = created buf bufSize Discovery (discovery devId) →
        s.parse (some datagram) = some devId ∧
          Messages.read Discovery msgId msg (.ofArray datagram.bytes) = some (devId, ())) ∧
    ∀ (buf : Nat → Byte) (bufSize : SizeType) (temperature : Temperature.fields.Object)
      (s : UdpSrv) (datagram : Datagram) (msgId : MsgIdType) (msg : BitVec 32 × Unit),
      datagram.bytes = created buf bufSize Temperature temperature →
        s.parse (some datagram) = none ∧
          Messages.read Discovery msgId msg (.ofArray datagram.bytes) = none := by
  refine ⟨?_, ?_, ?_⟩
  · intro s datagram msgId msg devId
    cases h : (decode Discovery).run datagram.bytes with
    | none =>
      rcases parsers_refuse (s := s) h with ⟨hparse, hread⟩
      rw [hparse, hread]
      exact iff_of_false nofun nofun
    | some p =>
      rcases p with ⟨⟨found, _⟩, rest⟩
      rcases parsers_found (s := s) h with ⟨hparse, hread⟩
      rw [hparse, hread]
      constructor
      · intro he
        rw [Option.some.inj he]
      · intro he
        rw [(Prod.mk.inj (Option.some.inj he)).1]
  · intro buf bufSize devId s datagram msgId msg hfits hbytes
    rw [create_fst] at hfits
    rw [created_eq] at hbytes
    split at hfits
    · next hfit =>
      rw [if_pos hfit] at hbytes
      have hdecode := decode_encode Discovery (discovery devId) ⟨trivial, trivial⟩ []
      rw [List.append_nil, ← hbytes] at hdecode
      exact parsers_found hdecode
    · exact absurd hfits (Nat.lt_irrefl 0)
  · intro buf bufSize temperature s datagram msgId msg hbytes
    rw [created_eq] at hbytes
    apply parsers_refuse
    split at hbytes
    · have hdecode := decode_encode_of_ne Discovery Temperature temperature (by decide) []
      rwa [List.append_nil, ← hbytes] at hdecode
    · rw [hbytes]
      rfl

/-- A discovery message in a buffer of its size, and a temperature in one that is larger. -/
theorem parse_agrees_two :
    let datagram : Datagram :=
      ⟨created (fun _ => 0) 8 Discovery (discovery 0x00c0ffee), by decide +kernel, ⟨0, 0⟩⟩
    let datagram' : Datagram :=
      ⟨created (fun _ => 0) 20 Temperature (0x28#64, 0x41b80000#32, ()), by decide +kernel, ⟨0, 0⟩⟩
    (UdpSrv.parse {} (some datagram) = some 0x00c0ffee ∧
      Messages.read Discovery 0 (0, ()) (.ofArray datagram.bytes) = some (0x00c0ffee, ())) ∧
    UdpSrv.parse {} (some datagram') = none ∧
      Messages.read Discovery 0 (0, ()) (.ofArray datagram'.bytes) = none :=
  ⟨parse_agrees.2.1 (fun _ => 0) 8 0x00c0ffee {} _ 0 (0, ()) (by decide +kernel) rfl,
    parse_agrees.2.2 (fun _ => 0) 20 (0x28#64, 0x41b80000#32, ()) {} _ 0 (0, ()) rfl⟩

end EspAcDimmer
