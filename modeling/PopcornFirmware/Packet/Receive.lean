import PopcornFirmware.Packet.Str2int

namespace PopcornFirmware.Packet.Receive

open PopcornFirmware.Lib.CText PopcornFirmware.Packet.Str2int

/-- What a receive path makes of the bytes at data: the value stored in
recv_serial, the decision taken on it, and how many bytes from data on it
reads. -/
structure Outcome where
  recvSerial : BitVec 32
  accepted : Bool
  deriving DecidableEq

section Paths

/-- The branch of tcpecho_thread: str2int and the test recv_serial >= 0. -/
def tcpechoThread (data : Text) : Option (Outcome × Nat) := do
  let recvSerial ← str2int data
  let read ← bytesRead data
  return (⟨recvSerial, 0 ≤ recvSerial.toInt⟩, read)

/-- The shape the two raw-API callbacks share: the payload is printed into
serial_check with %s, read by str2int and rejected when it is <= 0. -/
def checkedRecv (serialCheck : Nat) (payload : Text) : Option (Outcome × Nat) := do
  let n ← strlen payload
  let _ ← sprintf serialCheck (lit "Serial no: " ++ payload.take n ++ lit " \r\n")
  let recvSerial ← str2int payload
  let read ← bytesRead payload
  return (⟨recvSerial, ¬ recvSerial.toInt ≤ 0⟩, max (n + 1) read)

def tcpServerRecv (payload : Text) : Option (Outcome × Nat) := checkedRecv 100 payload

def tcpEchoclientRecv (payload : Text) : Option (Outcome × Nat) := checkedRecv 100 payload

end Paths

/-- The path has one outcome for the payload, whatever stands in memory after
it, and reads no byte past the payload. -/
def FromPayload (path : Text → Option (Outcome × Nat)) (payload : Text) : Prop :=
  ∃ outcome, ∀ after, ∃ read, path (payload ++ after) = some (outcome, read) ∧
    read ≤ payload.length

/-- A text of signs followed by digits, in which str2int does not stop. -/
def RunsOn (payload : Text) : Prop :=
  ∃ ss ds, payload = ss ++ ds ∧ (∀ c ∈ ss, IsSign c) ∧ ∀ c ∈ ds, IsDigit c

theorem bytesRead_runsOn {payload : Text} (h : RunsOn payload) :
    bytesRead (payload ++ [0]) = some (payload.length + 1) := by
  obtain ⟨ss, ds, rfl, hss, hds⟩ := h
  have hscan := scan_eq ss ds [] 0 hss hds (by decide) (fun _ => by decide)
  rw [List.append_assoc, bytesRead, hscan]
  simp

theorem strlen_of_append {t rest : Text} {n : Nat} (h : strlen (t ++ rest) = some n)
    (hn : n < t.length) : strlen t = some n := by
  cases ht : strlen t with
  | some m => rw [← h, strlen_append t rest ht]
  | none =>
    have h0 : ∀ c ∈ t, c ≠ 0 := by
      rintro c hc rfl
      have hsome := (strlen_isSome t).mpr hc
      simp [ht] at hsome
    have hlen := length_le_of_strlen h0 h
    omega

theorem not_runsOn_of_strlen {payload : Text} {n : Nat} (h : strlen payload = some n) :
    ¬ RunsOn payload := by
  rintro ⟨ss, ds, rfl, hss, hds⟩
  have hmem := (strlen_isSome (ss ++ ds)).mp (by simp [h])
  obtain hmem | hmem := List.mem_append.mp hmem
  · exact absurd (hss 0 hmem) (by decide)
  · exact absurd (hds 0 hmem) (by decide)

theorem scan_isSome_of_not_runsOn {payload : Text} (h : ¬ RunsOn payload) :
    (scan payload).isSome := by
  cases hscan : scan payload with
  | none => exact absurd (scan_eq_none.mp hscan) h
  | some r => rfl

theorem str2int_append {payload : Text} {s : BitVec 32} (h : str2int payload = some s)
    (after : Text) : str2int (payload ++ after) = some s := by
  obtain ⟨r, hr, rfl⟩ := Option.map_eq_some_iff.mp h
  rw [str2int, scan_append hr, Option.map_some]

theorem tcpechoThread_fromPayload (payload : Text) :
    FromPayload tcpechoThread payload ↔ ¬ RunsOn payload := by
  constructor
  · rintro ⟨outcome, hout⟩ hruns
    obtain ⟨read, hpath, hread⟩ := hout [0]
    simp only [tcpechoThread, bytesRead_runsOn hruns] at hpath
    cases hs : str2int (payload ++ [0]) with
    | none => simp [hs] at hpath
    | some s =>
      simp [hs] at hpath
      omega
  · intro hruns
    have hsome := scan_isSome_of_not_runsOn hruns
    obtain ⟨s, hs⟩ := Option.isSome_iff_exists.mp hsome
    refine ⟨⟨s.1, 0 ≤ s.1.toInt⟩, fun after => ?_⟩
    obtain ⟨n, hn, hle⟩ := bytesRead_append hsome after
    refine ⟨n, ?_, hle⟩
    simp [tcpechoThread, hn, str2int_append (by rw [str2int, hs, Option.map_some]) after]

theorem serialCheck_length {mem : Text} {n : Nat} (hn : n ≤ mem.length) :
    (lit "Serial no: " ++ mem.take n ++ lit " \r\n").length = n + 14 := by
  have hpre : (lit "Serial no: ").length = 11 := rfl
  have hend : (lit " \r\n").length = 3 := rfl
  simp only [List.length_append, List.length_take, hpre, hend]
  omega

theorem checkedRecv_fromPayload (serialCheck : Nat) (payload : Text) :
    FromPayload (checkedRecv serialCheck) payload ↔
      ∃ n, strlen payload = some n ∧ n + 14 < serialCheck := by
  constructor
  · rintro ⟨outcome, hout⟩
    obtain ⟨read, hpath, hread⟩ := hout [0]
    simp only [checkedRecv, Option.bind_eq_bind, Option.bind_eq_some_iff] at hpath
    obtain ⟨n, hn, text, htext, s, hs, m, hm, hret⟩ := hpath
    have hlt := strlen_lt _ hn
    have hfit := (sprintf_eq_some.mp htext).1
    rw [serialCheck_length (by omega)] at hfit
    have hmax : max (n + 1) m = read := by
      simp [pure] at hret
      exact hret.2
    exact ⟨n, strlen_of_append hn (by omega), hfit⟩
  · rintro ⟨n, hn, hfit⟩
    have hlt := strlen_lt _ hn
    have hsome := scan_isSome_of_not_runsOn (not_runsOn_of_strlen hn)
    obtain ⟨s, hs⟩ := Option.isSome_iff_exists.mp hsome
    refine ⟨⟨s.1, ¬ s.1.toInt ≤ 0⟩, fun after => ?_⟩
    obtain ⟨m, hm, hle⟩ := bytesRead_append hsome after
    have hlen : n ≤ (payload ++ after).length := by
      rw [List.length_append]
      omega
    have hprint := sprintf_of_lt ((serialCheck_length hlen).trans_lt hfit)
    refine ⟨max (n + 1) m, ?_, by omega⟩
    simp only [checkedRecv, Option.bind_eq_bind, strlen_append payload after hn, hm, hprint,
      str2int_append (by rw [str2int, hs, Option.map_some]) after, Option.bind_some]
    rfl

/-- Which payloads each path reads as if they ended where they end: the
FreeRTOS path needs a byte that stops str2int, the raw-API paths a NUL among
the first 86 bytes. -/
theorem fromPayload_iff (payload : Text) :
    (FromPayload tcpechoThread payload ↔ ¬ RunsOn payload) ∧
      (FromPayload tcpServerRecv payload ↔ ∃ n, strlen payload = some n ∧ n < 86) ∧
      (FromPayload tcpEchoclientRecv payload ↔ ∃ n, strlen payload = some n ∧ n < 86) := by
  have hraw : FromPayload (checkedRecv 100) payload ↔ ∃ n, strlen payload = some n ∧ n < 86 := by
    rw [checkedRecv_fromPayload]
    exact exists_congr fun n => and_congr_right fun _ => by omega
  exact ⟨tcpechoThread_fromPayload payload, hraw, hraw⟩

theorem twelve_not_fromPayload :
    (tcpechoThread (lit "12" ++ lit "3,") = some (⟨123, true⟩, 4) ∧
      tcpechoThread (lit "12" ++ lit ",") = some (⟨12, true⟩, 3) ∧
      ¬ FromPayload tcpechoThread (lit "12")) ∧
    (tcpServerRecv (lit "12" ++ [ch '3', 0]) = some (⟨123, true⟩, 4) ∧
      tcpServerRecv (lit "12" ++ [0]) = some (⟨12, true⟩, 3) ∧
      ¬ FromPayload tcpServerRecv (lit "12")) ∧
    (tcpEchoclientRecv (lit "12" ++ [ch '3', 0]) = some (⟨123, true⟩, 4) ∧
      tcpEchoclientRecv (lit "12" ++ [0]) = some (⟨12, true⟩, 3) ∧
      ¬ FromPayload tcpEchoclientRecv (lit "12")) := by
  have hno : ¬ ∃ n, strlen (lit "12") = some n ∧ n + 14 < 100 := by
    rintro ⟨n, hn, -⟩
    cases hn
  have hraw := mt (checkedRecv_fromPayload 100 (lit "12")).mp hno
  have hruns : RunsOn (lit "12") := ⟨[], lit "12", rfl, by simp, by decide⟩
  exact ⟨⟨by decide, by decide, fun h => (tcpechoThread_fromPayload _).mp h hruns⟩,
    ⟨by decide, by decide, hraw⟩, ⟨by decide, by decide, hraw⟩⟩

end PopcornFirmware.Packet.Receive
