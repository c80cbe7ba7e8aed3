import PopcornFirmware.Packet.Http

namespace PopcornFirmware.Packet.Buffers

open PopcornFirmware.Lib.CText PopcornFirmware.Packet.Gen PopcornFirmware.Packet.Http

/-- The text of a sprintf and the array it is written to. -/
structure Write where
  size : Nat
  text : Text

/-- The text and its NUL stay in the array. -/
def Write.Fits (w : Write) : Prop := w.text.length + 1 ≤ w.size

section Writes

variable (env : Env) (recvSerial : BitVec 32)

def packetText : Text := braced macAddr (requestSerialNo recvSerial) (checkTime env) (checkData env)

/-- The six calls of sprintf in json_Packet_Gen of working, in order. -/
def writes : List Write :=
  [⟨40, macAddr⟩, ⟨40, requestSerialNo recvSerial⟩, ⟨40, checkTime env⟩, ⟨150, checkData env⟩,
    ⟨300, packetText env recvSerial⟩, ⟨450, packetText env recvSerial ++ lit "EOF\r\n"⟩]

def httpPacketText : Text :=
  braced httpMacAddr (requestSerialNo recvSerial) (checkTime env) (httpCheckData env)

/-- The seven calls of sprintf in json_Packet_Gen of an HTTP project. -/
def httpWrites (v : Variant) : List Write :=
  [⟨40, httpMacAddr⟩, ⟨40, requestSerialNo recvSerial⟩, ⟨40, checkTime env⟩,
    ⟨100, httpCheckData env⟩, ⟨300, httpPacketText env recvSerial⟩,
    ⟨150, postHeader v (httpPacketText env recvSerial).length⟩,
    ⟨v.postPacketSize, postHeader v (httpPacketText env recvSerial).length ++
      (lit "\r\n " ++ (httpPacketText env recvSerial ++ lit "\r\n\r\n"))⟩]

end Writes

variable {env : Env} {s : BitVec 32} {v : Variant}

/-- The generator returns exactly when each of its texts fits, and leaves the
last of them. -/
theorem jsonPacketGen_eq_some {packet : Text} : jsonPacketGen env s = some packet ↔
    (∀ w ∈ writes env s, w.Fits) ∧ packet = packetText env s ++ lit "EOF\r\n" := by
  simp only [jsonPacketGen, jsonPacket, Option.bind_eq_bind, Option.bind_eq_some_iff,
    sprintf_eq_some, writes, List.forall_mem_cons]
  constructor
  · rintro ⟨json, ⟨mac, ⟨hmac, rfl⟩, serial, ⟨hserial, rfl⟩, time, ⟨htime, rfl⟩, data, ⟨hdata, rfl⟩,
      hjson, rfl⟩, hpost, rfl⟩
    exact ⟨⟨hmac, hserial, htime, hdata, hjson, hpost, by simp⟩, rfl⟩
  · rintro ⟨⟨hmac, hserial, htime, hdata, hjson, hpost, -⟩, rfl⟩
    exact ⟨_, ⟨_, ⟨hmac, rfl⟩, _, ⟨hserial, rfl⟩, _, ⟨htime, rfl⟩, _, ⟨hdata, rfl⟩, hjson, rfl⟩,
      hpost, rfl⟩

theorem httpPacketGen_eq_some {packet : Text} : httpPacketGen v env s = some packet ↔
    (∀ w ∈ httpWrites env s v, w.Fits) ∧
      packet = postHeader v (httpPacketText env s).length ++
        (lit "\r\n " ++ (httpPacketText env s ++ lit "\r\n\r\n")) := by
  simp only [httpPacketGen, httpJsonPacket, Option.bind_eq_bind, Option.bind_eq_some_iff,
    sprintf_eq_some, httpWrites, List.forall_mem_cons]
  constructor
  · rintro ⟨json, ⟨mac, ⟨hmac, rfl⟩, serial, ⟨hserial, rfl⟩, time, ⟨htime, rfl⟩, data, ⟨hdata, rfl⟩,
      hjson, rfl⟩, header, ⟨hheader, rfl⟩, hpost, rfl⟩
    exact ⟨⟨hmac, hserial, htime, hdata, hjson, hheader, hpost, by simp⟩, rfl⟩
  · rintro ⟨⟨hmac, hserial, htime, hdata, hjson, hheader, hpost, -⟩, rfl⟩
    exact ⟨_, ⟨_, ⟨hmac, rfl⟩, _, ⟨hserial, rfl⟩, _, ⟨htime, rfl⟩, _, ⟨hdata, rfl⟩, hjson, rfl⟩,
      _, ⟨hheader, rfl⟩, hpost, rfl⟩

/-- With the values the programs hold, no call of sprintf in any json_Packet_Gen
overruns its array, whatever the serial is, and each generator returns. -/
theorem packetBuffers_fit (recvSerial : BitVec 32) :
    ((∀ w ∈ writes programEnv recvSerial, w.Fits) ∧
      (jsonPacketGen programEnv recvSerial).isSome) ∧
    ((∀ w ∈ httpWrites programEnv recvSerial udptcpEchoServerNetconn, w.Fits) ∧
      (httpPacketGen udptcpEchoServerNetconn programEnv recvSerial).isSome) ∧
    ((∀ w ∈ httpWrites programEnv recvSerial tcpEchoClient, w.Fits) ∧
      (httpPacketGen tcpEchoClient programEnv recvSerial).isSome) := by
  have hgen := jsonPacketGen_eq programEnv_clockInRange (by decide) recvSerial
  have hudptcp := httpPacketGen_eq udptcpEchoServerNetconn (by decide) (by decide) recvSerial
  have hclient := httpPacketGen_eq tcpEchoClient (by decide) (by decide) recvSerial
  exact ⟨⟨(jsonPacketGen_eq_some.mp hgen).1, by rw [hgen]; rfl⟩,
    ⟨(httpPacketGen_eq_some.mp hudptcp).1, by rw [hudptcp]; rfl⟩,
    ⟨(httpPacketGen_eq_some.mp hclient).1, by rw [hclient]; rfl⟩⟩

/-- The request field needs 39 of its 40 bytes for the least int. -/
example : (requestSerialNo (BitVec.intMin 32)).length + 1 = 39 := by decide

end PopcornFirmware.Packet.Buffers
