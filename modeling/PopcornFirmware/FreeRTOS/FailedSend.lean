import PopcornFirmware.FreeRTOS.TcpEcho
import PopcornFirmware.Packet.Stream

namespace PopcornFirmware.FreeRTOS.FailedSend

open PopcornFirmware.Lib.CText PopcornFirmware.Lib.Runs
open PopcornFirmware.Packet.Gen PopcornFirmware.Packet.Stream PopcornFirmware.FreeRTOS.TcpEcho

/-- A sender that runs while the other threads stand still. -/
def alone (r : Shared × SenderPc) (ok : Bool) : Option (Shared × SenderPc) :=
  senderNext r.1 ok r.2

/-- What tells a sender that there is something to send. -/
def pendingRequest (g : Shared) : BitVec 32 × Bool × Bool :=
  (g.recvSerial, g.flagRecvSuccess, g.flagClient)

/-- Both flags are cleared only after a write that succeeded, and a failed one
leaves the request as it was. -/
def KeepsRequest (ok : Bool) (before after : Shared) : Prop :=
  (after.flagRecvSuccess = false → after.flagClient = false → ok = true) ∧
    (ok = false → pendingRequest after = pendingRequest before)

instance (ok : Bool) (g g' : Shared) : Decidable (KeepsRequest ok g g') :=
  inferInstanceAs (Decidable ((_ → _ → _) ∧ (_ → _)))

/-- The statements from the test of flag_recv_success to its clearing, by a
sender whose netconn_write succeeds or fails. -/
def sendSection (ok : Bool) : List Bool := List.replicate 8 ok

theorem exec_alone {s : State} {i : Nat} {pc : SenderPc} (hpc : s.senders[i]? = some pc)
    (oks : List Bool) :
    exec step s (oks.map (.sender i)) =
      (exec alone (s.shared, pc) oks).map fun r => ⟨r.1, s.echo, s.senders.set i r.2⟩ := by
  obtain ⟨hlt, hget⟩ := List.getElem?_eq_some_iff.mp hpc
  induction oks generalizing s pc with
  | nil =>
    subst hget
    simp
  | cons ok oks ih =>
    cases hnext : senderNext s.shared ok pc with
    | none => simp [exec, step, senderStep, alone, hpc, hnext]
    | some r =>
      have hstep : step s (.sender i ok) = some ⟨r.1, s.echo, s.senders.set i r.2⟩ := by
        simp [step, senderStep, hpc, hnext]
      have hset : (s.senders.set i r.2)[i]? = some r.2 := by simp [hlt]
      rw [List.map_cons, exec_cons hstep, exec_cons hnext,
        ih hset (by simpa using hlt) (by simp)]
      simp

theorem senderNext_nul {g g' : Shared} {ok : Bool} {pc pc' : SenderPc}
    (hnul : (0 : UInt8) ∈ g.postPacket) (h : senderNext g ok pc = some (g', pc')) :
    (0 : UInt8) ∈ g'.postPacket := by
  cases pc with
  | emit k serial =>
    obtain ⟨text, -, heq⟩ := Option.map_eq_some_iff.mp h
    cases heq
    simp [overwrite]
  | oldLen k | bufData k =>
    obtain ⟨n, -, heq⟩ := Option.map_eq_some_iff.mp h
    cases heq
    exact hnul
  | start | newConn | poll | connect | test | gen k | write k n | clearClient k e
  | clearFlag k e | close =>
    cases h
    exact hnul

/-- post_packet always holds a C string. -/
theorem postPacket_nul {ls : List Label} {s : State} (h : exec step init ls = some s) :
    (0 : UInt8) ∈ s.shared.postPacket := by
  refine exec_keeps (P := fun s => (0 : UInt8) ∈ s.shared.postPacket) ?_ ?_ h
  · rintro s l t hnul hstep
    cases l with
    | recv data =>
      obtain ⟨v, -, -, rfl⟩ := recvStep_eq_some hstep
      exact hnul
    | echo =>
      cases echoStep_effect hstep with
      | passed | rejected | setFlag | setClient | spawn => exact hnul
    | sender i ok =>
      obtain ⟨pc, g, pc', -, hnext, rfl⟩ := senderStep_eq_some hstep
      exact senderNext_nul hnul hnext
  · exact List.mem_replicate.mpr ⟨by decide, rfl⟩

/-- The send section goes through, and both flags are 0 behind it whatever
netconn_write returns. -/
theorem exec_sendSection {g : Shared} (ok : Bool) (hnul : (0 : UInt8) ∈ g.postPacket)
    (hflag : g.flagRecvSuccess = true) :
    ∃ g', exec alone (g, .test) (sendSection ok) = some (g', if ok then .test else .close) ∧
      g'.recvSerial = g.recvSerial ∧ g'.flagRecvSuccess = false ∧ g'.flagClient = false := by
  obtain ⟨n, hn⟩ := Option.isSome_iff_exists.mp ((strlen_isSome _).mpr hnul)
  have htext := jsonPacketGen_eq programEnv_clockInRange programEnv_fits g.recvSerial
  obtain ⟨m, hm⟩ := Option.isSome_iff_exists.mp ((strlen_isSome
    (overwrite g.postPacket (braced macAddr (requestSerialNo g.recvSerial) (checkTime programEnv)
      (checkData programEnv) ++ lit "EOF\r\n"))).mpr (by simp [overwrite]))
  simp [sendSection, List.replicate_succ, exec, alone, senderNext, hflag, hn, htext, hm]

/-- After a failed write the sender itself never writes again: it closes the
connection and waits for flag_Client, which it has just cleared. -/
theorem exec_after_failure {g g' : Shared} {pc : SenderPc} {oks : List Bool}
    (hclient : g.flagClient = false) (h : exec alone (g, .close) oks = some (g', pc)) :
    g' = g ∧ (pc = .close ∨ pc = .poll) := by
  refine exec_keeps (P := fun r => r.1 = g ∧ (r.2 = .close ∨ r.2 = .poll)) ?_ ⟨rfl, Or.inl rfl⟩ h
  rintro ⟨g, pc⟩ ok ⟨g', pc'⟩ ⟨rfl, rfl | rfl⟩ hstep
  · cases hstep
    exact ⟨rfl, by cases ok <;> simp⟩
  · cases hstep
    dsimp only at hclient
    exact ⟨rfl, by simp [hclient]⟩

/-- The request is kept exactly when netconn_write succeeds. -/
theorem sendSection_keeps (ls : List Label) (s : State) (i : Nat) (ok : Bool)
    (hrun : exec step init ls = some s) (hpc : s.senders[i]? = some .test)
    (hflag : s.shared.flagRecvSuccess = true) :
    ∃ t, exec step s ((sendSection ok).map (.sender i)) = some t ∧
      (KeepsRequest ok s.shared t.shared ↔ ok = true) := by
  obtain ⟨g', hexec, -, hf, hc⟩ := exec_sendSection ok (postPacket_nul hrun) hflag
  refine ⟨_, by rw [exec_alone hpc, hexec]; rfl, ?_⟩
  constructor
  · intro hkeep
    exact hkeep.1 hf hc
  · rintro rfl
    exact ⟨fun _ _ => rfl, fun h => nomatch h⟩

/-- A sender that has connected after the request for serial 5. -/
def requested : List Label := senderSteps 0 2 ++ request (lit "5\n") ++ senderSteps 0 2

theorem sendSection_keeps_requested :
    ∃ s t, exec step init requested = some s ∧
      exec step s ((sendSection true).map (.sender 0)) = some t ∧
      (KeepsRequest true s.shared t.shared ↔ true = true) := by
  have hrun : ∃ s, exec step init requested = some s ∧ s.senders[0]? = some .test ∧
      s.shared.flagRecvSuccess = true := by
    decide
  obtain ⟨s, hs, hpc, hflag⟩ := hrun
  obtain ⟨t, ht, hkeep⟩ := sendSection_keeps requested s 0 true hs hpc hflag
  exact ⟨s, t, hs, ht, hkeep⟩

theorem failedWrite_drops_request :
    ∃ s t, exec step init requested = some s ∧ s.shared.flagRecvSuccess = true ∧
      exec step s ((sendSection false).map (.sender 0)) = some t ∧
      ¬ KeepsRequest false s.shared t.shared := by
  have hrun : ∃ s, exec step init requested = some s ∧ s.shared.flagRecvSuccess = true ∧
      ∃ t, exec step s ((sendSection false).map (.sender 0)) = some t ∧
        ¬ KeepsRequest false s.shared t.shared := by
    decide +kernel
  obtain ⟨s, hs, hflag, t, ht, hkeep⟩ := hrun
  exact ⟨s, t, hs, hflag, ht, hkeep⟩

end PopcornFirmware.FreeRTOS.FailedSend
