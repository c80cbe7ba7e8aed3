import PopcornFirmware.FreeRTOS.TcpEcho
import PopcornFirmware.Packet.Stream

namespace PopcornFirmware.FreeRTOS.PacketIntegrity

open PopcornFirmware.Lib.CText PopcornFirmware.Lib.Runs
open PopcornFirmware.Packet.Gen PopcornFirmware.Packet.Stream PopcornFirmware.FreeRTOS.TcpEcho

/-- json_Packet_Gen reads a serial that has passed the test, and netconn_write
copies post_packet while its text is still as long as buf_data found it. -/
def SoundAt (g : Shared) : SenderPc → Prop
  | .gen _ => g.recvSerial ∈ g.passed
  | .write _ n => strlen g.postPacket = some n
  | _ => True

instance : ∀ g pc, Decidable (SoundAt g pc)
  | _, .gen _ => inferInstanceAs (Decidable (_ ∈ _))
  | _, .write _ _ => inferInstanceAs (Decidable (_ = _))
  | _, .start | _, .newConn | _, .poll | _, .connect | _, .test | _, .oldLen _ | _, .emit _ _
  | _, .bufData _ | _, .clearClient _ _ | _, .clearFlag _ _ | _, .close =>
    inferInstanceAs (Decidable True)

def Sound (s : State) : Label → Prop
  | .sender i _ => ∀ pc ∈ s.senders[i]?, SoundAt s.shared pc
  | _ => True

instance : ∀ s l, Decidable (Sound s l)
  | s, .sender i _ => Option.decidableForallMem s.senders[i]?
  | _, .recv _ | _, .echo => inferInstanceAs (Decidable True)

def Holds (array : Text) (serial : BitVec 32) : Prop :=
  ∃ text tail, jsonPacketGen programEnv serial = some text ∧ array = text ++ 0 :: tail

theorem holds_overwrite {array text : Text} {serial : BitVec 32}
    (h : jsonPacketGen programEnv serial = some text) : Holds (overwrite array text) serial :=
  ⟨text, array.drop (text.length + 1), h, rfl⟩

theorem Holds.take {array : Text} {serial : BitVec 32} {n : Nat} (h : Holds array serial)
    (hn : strlen array = some n) : jsonPacketGen programEnv serial = some (array.take n) := by
  obtain ⟨text, tail, htext, rfl⟩ := h
  rw [strlen_append_zero text tail (packet_no_nul htext)] at hn
  cases hn
  rw [htext, List.take_left']
  rfl

/-- The sender has put its packet into post_packet and has still to write. -/
def Generated (pc : SenderPc) : Prop := ∃ k, pc = .bufData k ∨ ∃ n, pc = .write k n

theorem senderNext_packet {g g' : Shared} {ok : Bool} {pc pc' : SenderPc}
    (h : senderNext g ok pc = some (g', pc')) :
    g'.passed = g.passed ∧
      ((∃ k, pc = .gen k ∧ pc' = .emit k g.recvSerial ∧ g' = g) ∨
        (∃ k serial text, pc = .emit k serial ∧ pc' = .bufData k ∧
          jsonPacketGen programEnv serial = some text ∧
          g' = { g with postPacket := overwrite g.postPacket text }) ∨
        (∃ k n, pc = .bufData k ∧ pc' = .write k n ∧ g' = g) ∨
        (∃ k n, pc = .write k n ∧ pc' = .clearClient k ok ∧
          g' = { g with wire := g.wire ++ [⟨k, g.postPacket.take n⟩] }) ∨
        ((∀ k serial, pc' ≠ .emit k serial) ∧ ¬ Generated pc' ∧
          g'.postPacket = g.postPacket ∧ g'.wire = g.wire)) := by
  cases pc with
  | gen k =>
    cases h
    exact ⟨rfl, Or.inl ⟨k, rfl, rfl, rfl⟩⟩
  | emit k serial =>
    obtain ⟨text, htext, heq⟩ := Option.map_eq_some_iff.mp h
    cases heq
    exact ⟨rfl, Or.inr (Or.inl ⟨k, serial, text, rfl, rfl, htext, rfl⟩)⟩
  | bufData k =>
    obtain ⟨n, -, heq⟩ := Option.map_eq_some_iff.mp h
    cases heq
    exact ⟨rfl, Or.inr (Or.inr (Or.inl ⟨k, n, rfl, rfl, rfl⟩))⟩
  | write k n =>
    cases h
    exact ⟨rfl, Or.inr (Or.inr (Or.inr (Or.inl ⟨k, n, rfl, rfl, rfl⟩)))⟩
  | oldLen k =>
    obtain ⟨n, -, heq⟩ := Option.map_eq_some_iff.mp h
    cases heq
    simp [Generated]
  | start | clearClient k e =>
    cases h
    simp [Generated]
  | newConn | poll | connect | test | clearFlag k e | close =>
    cases h
    refine ⟨rfl, Or.inr (Or.inr (Or.inr (Or.inr ⟨?_, ?_, rfl, rfl⟩)))⟩ <;> split <;>
      simp [Generated]

structure Invariant (s : State) : Prop where
  passed : ∀ x ∈ s.shared.passed, 0 ≤ x.toInt
  emit : ∀ k serial, .emit k serial ∈ s.senders → serial ∈ s.shared.passed
  written : (∃ pc ∈ s.senders, Generated pc) → ∃ x ∈ s.shared.passed, Holds s.shared.postPacket x
  wire : ∀ r ∈ s.shared.wire, ∃ x ∈ s.shared.passed, jsonPacketGen programEnv x = some r.bytes

theorem inv_init : Invariant init := by
  constructor <;> simp [Generated]

theorem inv_recv {s t : State} {data : Text} (hi : Invariant s) (h : recvStep s data = some t) :
    Invariant t := by
  obtain ⟨v, -, -, rfl⟩ := recvStep_eq_some h
  exact ⟨hi.passed, hi.emit, hi.written, hi.wire⟩

theorem inv_echo {s t : State} (hi : Invariant s) (h : echoStep s = some t) : Invariant t := by
  cases echoStep_effect h with
  | passed hpc hpos =>
    have hmore : ∀ x ∈ s.shared.passed, x ∈ s.shared.passed ++ [s.shared.recvSerial] :=
      fun x hx => List.mem_append_left _ hx
    refine ⟨fun x hx => ?_, fun k serial hs => hmore _ (hi.emit k serial hs), fun hw => ?_,
      fun r hr => ?_⟩
    · obtain hx | hx := List.mem_append.mp hx
      · exact hi.passed x hx
      · rw [List.mem_singleton.mp hx]
        exact hpos
    · obtain ⟨x, hx, hholds⟩ := hi.written hw
      exact ⟨x, hmore x hx, hholds⟩
    · obtain ⟨x, hx, htext⟩ := hi.wire r hr
      exact ⟨x, hmore x hx, htext⟩
  | rejected | setFlag | setClient => exact ⟨hi.passed, hi.emit, hi.written, hi.wire⟩
  | spawn =>
    refine ⟨hi.passed, fun k serial hs => hi.emit k serial ?_, ?_, hi.wire⟩
    · simpa using hs
    · rintro ⟨pc, hpc, hgen⟩
      obtain hpc | hpc := List.mem_append.mp hpc
      · exact hi.written ⟨pc, hpc, hgen⟩
      · rw [List.mem_singleton.mp hpc] at hgen
        simp [Generated] at hgen

theorem inv_sender {s t : State} {i : Nat} {ok : Bool} (hi : Invariant s)
    (hok : Sound s (.sender i ok)) (h : senderStep s i ok = some t) : Invariant t := by
  obtain ⟨pc, g, pc', hpc, hnext, rfl⟩ := senderStep_eq_some h
  have hsound : SoundAt s.shared pc := hok pc hpc
  have hmem : pc ∈ s.senders := List.mem_of_getElem? hpc
  have hset : ∀ q ∈ s.senders.set i pc', q = pc' ∨ q ∈ s.senders :=
    fun q hq => (List.mem_or_eq_of_mem_set hq).symm
  obtain ⟨hpassed, hcase⟩ := senderNext_packet hnext
  obtain ⟨k, rfl, rfl, rfl⟩ | ⟨k, serial, text, rfl, rfl, htext, rfl⟩ | ⟨k, n, rfl, rfl, rfl⟩ |
    ⟨k, n, rfl, rfl, rfl⟩ | ⟨hemit, hgen, hbuf, hwire⟩ := hcase
  · refine ⟨hi.passed, fun k' serial hs => ?_, ?_, hi.wire⟩
    · obtain heq | hs := hset _ hs
      · cases heq
        exact hsound
      · exact hi.emit k' serial hs
    · rintro ⟨q, hq, hg⟩
      obtain rfl | hq := hset q hq
      · simp [Generated] at hg
      · exact hi.written ⟨q, hq, hg⟩
  · refine ⟨hi.passed, fun k' serial' hs => ?_, fun _ => ?_, hi.wire⟩
    · obtain heq | hs := hset _ hs
      · cases heq
      · exact hi.emit k' serial' hs
    · exact ⟨serial, hi.emit k serial hmem, holds_overwrite htext⟩
  · refine ⟨hi.passed, fun k' serial hs => ?_, fun _ => ?_, hi.wire⟩
    · obtain heq | hs := hset _ hs
      · cases heq
      · exact hi.emit k' serial hs
    · exact hi.written ⟨_, hmem, k, Or.inl rfl⟩
  · obtain ⟨x, hx, hholds⟩ := hi.written ⟨_, hmem, k, Or.inr ⟨n, rfl⟩⟩
    refine ⟨hi.passed, fun k' serial hs => ?_, fun _ => ⟨x, hx, hholds⟩, fun r hr => ?_⟩
    · obtain heq | hs := hset _ hs
      · cases heq
      · exact hi.emit k' serial hs
    · obtain hr | hr := List.mem_append.mp hr
      · exact hi.wire r hr
      · rw [List.mem_singleton.mp hr]
        exact ⟨x, hx, hholds.take hsound⟩
  · refine ⟨hpassed ▸ hi.passed, fun k serial hs => ?_, ?_, ?_⟩
    · obtain heq | hs := hset _ hs
      · exact absurd heq.symm (hemit k serial)
      · exact hpassed ▸ hi.emit k serial hs
    · rintro ⟨q, hq, hg⟩
      obtain rfl | hq := hset q hq
      · exact absurd hg hgen
      · simp only [hpassed, hbuf]
        exact hi.written ⟨q, hq, hg⟩
    · simp only [hpassed, hwire]
      exact hi.wire

theorem inv_step (s : State) (l : Label) (t : State) (hi : Invariant s) (hok : Sound s l)
    (h : step s l = some t) : Invariant t := by
  cases l with
  | recv data => exact inv_recv hi h
  | echo => exact inv_echo hi h
  | sender i ok => exact inv_sender hi hok h

/-- In a run of such steps everything on the wire is the complete packet of a
serial that has passed the test. -/
theorem wire_packets (ls : List Label) (s : State) (hok : Steps step Sound init ls)
    (h : exec step init ls = some s) :
    ∀ r ∈ s.shared.wire, ∃ x ∈ s.shared.passed, 0 ≤ x.toInt ∧
      jsonPacketGen programEnv x = some r.bytes := by
  have hi := exec_invariant inv_step inv_init hok h
  intro r hr
  obtain ⟨x, hx, htext⟩ := hi.wire r hr
  exact ⟨x, hx, hi.passed x hx, htext⟩

set_option maxRecDepth 4000 in
theorem wire_packets_oneReport :
    ∃ s, exec step init oneReport = some s ∧ s.shared.wire ≠ [] ∧
      ∀ r ∈ s.shared.wire, ∃ x ∈ s.shared.passed, 0 ≤ x.toInt ∧
        jsonPacketGen programEnv x = some r.bytes := by
  have hrun : ∃ s, exec step init oneReport = some s ∧ s.shared.wire ≠ [] := by decide
  obtain ⟨s, hs, hwire⟩ := hrun
  exact ⟨s, hs, hwire, wire_packets oneReport s (by decide) hs⟩

/-- The sender has found serial 5 announced, and the next segment carries -1. -/
def rejectedReport : List Label :=
  senderSteps 0 2 ++ request (lit "5\n") ++ senderSteps 0 4 ++ [.recv (lit "-1\n")] ++
    senderSteps 0 4

/-- The first sender has taken the length of the packet of 5, and before it
writes the second one generates the longer packet of 10. -/
def tornPacket : List Label :=
  senderSteps 0 2 ++ request (lit "5\n") ++ senderSteps 0 7 ++ senderSteps 1 2 ++
    request (lit "10\n") ++ senderSteps 1 6 ++ senderSteps 0 1

/-- The value -1 is reported though it was rejected, and the torn packet is
that of 10 without its last byte. -/
theorem rejectedReport_on_wire :
    (((exec step init rejectedReport).map fun s =>
      (s.shared.passed, s.shared.wire.map fun r => some r.bytes)) =
        some ([5], [jsonPacketGen programEnv (-1)]) ∧
      jsonPacketGen programEnv (-1) ≠ jsonPacketGen programEnv 5) ∧
    ((exec step init tornPacket).map fun s =>
      (s.shared.passed, s.shared.wire.map fun r => some r.bytes)) =
        some ([5, 10], [(jsonPacketGen programEnv 10).map List.dropLast]) := by
  decide +kernel

end PopcornFirmware.FreeRTOS.PacketIntegrity
