import EspAcDimmer.Main.AppMain
import EspAcDimmer.Netio.Parse

/-! # A reading on its way

`app_main` sends the packed bytes of a `TempMsg`. These are the fields of a `Temperature` message,
without the id in front of them: who knows what comes can read them, and nobody takes them for one
of the messages of `Messages.h`, since no family of thermometers has a code that an id starts with.
-/

namespace EspAcDimmer

open Framing LittleEndian Messages Streams

/-- The packed bytes of a `TempMsg`, which `app_main` casts to `char*`. -/
def TempMsg.bytes (msg : TempMsg) : List Byte :=
  toBytes 8 msg.id.toNat ++ toBytes 4 msg.tempCels.toNat

/-- What a receiver makes of the bytes. -/
structure TempMsg.ReadFrom (msg : TempMsg) (bytes : List Byte) : Prop where
  length : bytes.length = 12
  /-- The fields of a `Temperature`, and no byte is left. -/
  fields : ∀ target, (Temperature.fields.read target (.ofArray bytes)).ok = true ∧
    (Temperature.fields.read target (.ofArray bytes)).target = (msg.id, msg.tempCels, ()) ∧
    (Temperature.fields.read target (.ofArray bytes)).stream.size = 0
  not_temperature : ∀ msgId target, Messages.read Temperature msgId target (.ofArray bytes) = none
  not_discovery : ∀ msgId target, Messages.read Discovery msgId target (.ofArray bytes) = none
  /-- Not by the server of another device either. -/
  not_parsed : ∀ (s : UdpSrv) datagram, datagram.bytes = bytes → s.parse (some datagram) = none

/-- In memory the number is the ROM code. -/
theorem toBytes_val64 (regNum : RegisterNumber) :
    toBytes 8 regNum.val64.toNat = List.ofFn regNum.romData := by
  have hlength : (List.ofFn regNum.romData).length = 8 := List.length_ofFn
  have hlt : ofBytes (List.ofFn regNum.romData) < 2 ^ 64 :=
    (ofBytes_lt _).trans_eq (by rw [hlength]; rfl)
  have hback := toBytes_ofBytes (List.ofFn regNum.romData)
  rw [hlength] at hback
  rw [RegisterNumber.val64, BitVec.toNat_ofNat, Nat.mod_eq_of_lt hlt, hback]

/-- Bytes that do not start like the id of a message are not taken for one. -/
theorem decode_of_head_ne {α : Type} {type : Msg α} {b : Byte} (bytes : List Byte)
    (h : BitVec.ofNat 8 type.ID.toNat ≠ b) : (decode type).run (b :: bytes) = none := by
  unfold decode Decoder.bind
  simp only [run_decodeScalar]
  split
  · rw [Option.bind_some, if_neg]
    · rfl
    intro hid
    apply h
    have hhead : (ofBytes ((b :: bytes).take 4)) % 256 = b.toNat := by
      have hb : b.toNat < 256 := b.isLt
      rw [List.take_succ_cons, ofBytes]
      omega
    rw [← hid]
    apply BitVec.eq_of_toNat_eq
    rw [BitVec.toNat_ofNat, BitVec.toNat_ofNat]
    omega
  · rfl

/-- The family codes that `TemperatureSensor::create` knows. -/
theorem familyCode_of_create {regNum : RegisterNumber} {tempSens : TemperatureSensor}
    (h : TemperatureSensor.create regNum = some tempSens) :
    regNum.romData.familyCode = 0x10 ∨ regNum.romData.familyCode = 0x28 ∨
      regNum.romData.familyCode = 0x22 := by
  unfold TemperatureSensor.create at h
  split at h
  · next h₁ => exact Or.inl h₁
  split at h
  · next h₂ => exact Or.inr (Or.inl h₂)
  split at h
  · next h₃ => exact Or.inr (Or.inr h₃)
  · cases h

theorem TempMsg.bytes_eq_encode (msg : TempMsg) :
    msg.bytes = Temperature.fields.encode (msg.id, msg.tempCels, ()) := rfl

/-- What the loop hands on is a reading to who expects one, and no message to anybody. -/
theorem Poller.Checked.readFrom {msg : TempMsg} (h : Poller.Checked msg) :
    msg.ReadFrom msg.bytes := by
  rcases h with ⟨regNum, tempSens, data, -, hcreate, -, rfl⟩
  generalize htemp : tempSens.getCelsius data = tempCels
  have hlength : (TempMsg.bytes ⟨regNum.val64, tempCels⟩).length = 12 := by simp [TempMsg.bytes]
  -- the first byte is the family code
  have hhead : ∃ rest, TempMsg.bytes ⟨regNum.val64, tempCels⟩ = regNum.romData.familyCode :: rest :=
    ⟨_, by rw [TempMsg.bytes, toBytes_val64, List.ofFn_succ]; rfl⟩
  rcases hhead with ⟨rest, hhead⟩
  have hnone : ∀ {α : Type} (type : Msg α), BitVec.ofNat 8 type.ID.toNat = 0x63 ∨
      BitVec.ofNat 8 type.ID.toNat = 0x83 →
      (decode type).run (TempMsg.bytes ⟨regNum.val64, tempCels⟩) = none := by
    intro α type hid
    rw [hhead]
    apply decode_of_head_ne
    rcases familyCode_of_create hcreate with hfamily | hfamily | hfamily <;>
      rcases hid with hid | hid <;> rw [hfamily, hid] <;> decide
  have hshort : (TempMsg.bytes ⟨regNum.val64, tempCels⟩).length < 2 ^ 32 := by omega
  constructor
  · exact hlength
  · intro target
    have hfound := (Temperature.fields.decode_finds (regNum.val64, tempCels, ())).found
      ⟨trivial, trivial, trivial⟩ []
    rw [List.append_nil, ← TempMsg.bytes_eq_encode ⟨regNum.val64, tempCels⟩] at hfound
    rcases ArrayInputStream.inBuffer_ofArray hshort with ⟨hin, hunread⟩
    rw [← hunread] at hfound
    rcases Temperature.fields.read_meets.some target hin hfound with ⟨hok, htarget, hleft⟩
    refine ⟨hok, htarget, ?_⟩
    have hsize := congrArg List.length hleft
    rw [ArrayInputStream.length_unread] at hsize
    exact BitVec.eq_of_toNat_eq hsize
  · intro msgId target
    rw [read_eq _ _ _ hshort, hnone Temperature (Or.inr rfl)]
    rfl
  · intro msgId target
    rw [read_eq _ _ _ hshort, hnone Discovery (Or.inl rfl)]
    rfl
  · intro s datagram hbytes
    rw [parse_eq, hbytes, hnone Discovery (Or.inl rfl)]
    rfl

end EspAcDimmer
