import PopcornFirmware.FreeRTOS.TcpEcho

namespace PopcornFirmware.FreeRTOS.HandOff

open PopcornFirmware.Lib.CText PopcornFirmware.Lib.Pool PopcornFirmware.Lib.Runs
open PopcornFirmware.Packet.Gen PopcornFirmware.Packet.Str2int PopcornFirmware.FreeRTOS.TcpEcho

def Reported (g : Shared) (serial : BitVec 32) : Prop :=
  ∃ r ∈ g.wire, jsonPacketGen programEnv serial = some r.bytes

instance (g : Shared) (serial : BitVec 32) : Decidable (Reported g serial) :=
  inferInstanceAs (Decidable (∃ r ∈ g.wire, _))

/-- The next access of the sender to flag_recv_success is a test. -/
def WillTest (pc : SenderPc) : Prop := pc = .connect ∨ pc = .test

instance : DecidablePred WillTest := fun _ => inferInstanceAs (Decidable (_ ∨ _))

def Armed (s : State) : Prop := s.shared.flagClient = true ∨ ∃ pc ∈ s.senders, WillTest pc

instance (s : State) : Decidable (Armed s) := inferInstanceAs (Decidable (_ ∨ _))

def HandedOff (s : State) (serial : BitVec 32) : Prop :=
  Reported s.shared serial ∨
    (serial = s.shared.recvSerial ∧ s.shared.flagRecvSuccess = true ∧ Armed s)

instance (s : State) (serial : BitVec 32) : Decidable (HandedOff s serial) :=
  inferInstanceAs (Decidable (_ ∨ _))

/-- No serial that is accepted, or will be by the next statement of
tcpecho_thread, waits for a report. -/
def Settled (s : State) : Prop :=
  (∀ x ∈ s.shared.accepted, Reported s.shared x) ∧
    (s.echo = .spawn → Reported s.shared s.shared.recvSerial)

instance (s : State) : Decidable (Settled s) :=
  haveI : Decidable (∀ x ∈ s.shared.accepted, Reported s.shared x) := List.decidableBAll _ _
  inferInstanceAs (Decidable (_ ∧ _))

/-- A flag is not cleared, nor a sender taken out of its loop by the flag it
finds, while a serial waits for its report and nothing else arms the hand-off. -/
def CarefulAt (s : State) (i : Nat) : SenderPc → Prop
  | .start | .clearClient _ _ => Settled s ∨ ∃ pc ∈ s.senders, WillTest pc
  | .test => s.shared.flagRecvSuccess = true →
      Settled s ∨ s.shared.flagClient = true ∨ ∃ pc ∈ s.senders.eraseIdx i, WillTest pc
  | .clearFlag _ _ => Settled s ∧ (s.echo = .setClient → Reported s.shared s.shared.recvSerial)
  | _ => True

instance : ∀ s i pc, Decidable (CarefulAt s i pc)
  | _, _, .start | _, _, .clearClient _ _ => inferInstanceAs (Decidable (_ ∨ _))
  | _, _, .test => inferInstanceAs (Decidable (_ → _ ∨ _ ∨ _))
  | _, _, .clearFlag _ _ => inferInstanceAs (Decidable (_ ∧ _))
  | _, _, .newConn | _, _, .poll | _, _, .connect | _, _, .oldLen _ | _, _, .gen _
  | _, _, .emit _ _ | _, _, .bufData _ | _, _, .write _ _ | _, _, .close =>
    inferInstanceAs (Decidable True)

/-- Moreover a segment does not replace a serial that waits for its report by
another one. -/
def Careful (s : State) : Label → Prop
  | .recv data => ∀ v ∈ str2int data, ∀ x ∈ s.shared.accepted, Reported s.shared x ∨ x = v
  | .echo => True
  | .sender i _ => ∀ pc ∈ s.senders[i]?, CarefulAt s i pc

instance : ∀ s l, Decidable (Careful s l)
  | s, .recv data =>
    haveI : ∀ v, Decidable (∀ x ∈ s.shared.accepted, Reported s.shared x ∨ x = v) :=
      fun _ => List.decidableBAll _ _
    Option.decidableForallMem (str2int data)
  | _, .echo => inferInstanceAs (Decidable True)
  | _, .sender _ _ => inferInstanceAs (Decidable (∀ pc ∈ _, _))

theorem senderNext_handOff {g g' : Shared} {ok : Bool} {pc pc' : SenderPc}
    (h : senderNext g ok pc = some (g', pc')) :
    g'.recvSerial = g.recvSerial ∧ g'.accepted = g.accepted ∧ g.wire ⊆ g'.wire ∧
      (((pc = .start ∨ ∃ k e, pc = .clearClient k e) ∧
          g'.flagRecvSuccess = g.flagRecvSuccess) ∨
        (pc = .test ∧ g.flagRecvSuccess = true ∧ g' = g) ∨
        (∃ k e, pc = .clearFlag k e) ∨
        ((WillTest pc → WillTest pc') ∧ g'.flagClient = g.flagClient ∧
          g'.flagRecvSuccess = g.flagRecvSuccess)) := by
  cases pc with
  | start =>
    cases h
    simp
  | clearClient k e =>
    cases h
    simp
  | clearFlag k e =>
    cases h
    simp
  | test =>
    cases h
    refine ⟨rfl, rfl, List.Subset.refl _, ?_⟩
    by_cases hf : g.flagRecvSuccess = true
    · exact Or.inr (Or.inl ⟨rfl, hf, rfl⟩)
    · exact Or.inr (Or.inr (Or.inr ⟨by simp [hf], rfl, rfl⟩))
  | connect =>
    cases h
    refine ⟨rfl, rfl, List.Subset.refl _, Or.inr (Or.inr (Or.inr ⟨?_, rfl, rfl⟩))⟩
    cases ok <;> simp [WillTest]
  | write k n =>
    cases h
    simp [WillTest]
  | newConn | poll | close =>
    cases h
    simp [WillTest]
  | gen k =>
    cases h
    simp [WillTest]
  | oldLen k | bufData k =>
    obtain ⟨n, -, heq⟩ := Option.map_eq_some_iff.mp h
    cases heq
    simp [WillTest]
  | emit k serial =>
    obtain ⟨text, -, heq⟩ := Option.map_eq_some_iff.mp h
    cases heq
    simp [WillTest]

theorem Reported.mono {g g' : Shared} {serial : BitVec 32} (hwire : g.wire ⊆ g'.wire)
    (h : Reported g serial) : Reported g' serial := by
  obtain ⟨r, hr, htext⟩ := h
  exact ⟨r, hwire hr, htext⟩

/-- Every accepted serial is handed off, and the one whose acceptance is under
way is as far as its statements are. -/
structure Invariant (s : State) : Prop where
  accepted : ∀ x ∈ s.shared.accepted, HandedOff s x
  setClient : s.echo = .setClient →
    Reported s.shared s.shared.recvSerial ∨ s.shared.flagRecvSuccess = true
  spawn : s.echo = .spawn → HandedOff s s.shared.recvSerial

theorem inv_init : Invariant init := by
  constructor <;> simp

theorem inv_recv {s t : State} {data : Text} (hi : Invariant s) (hok : Careful s (.recv data))
    (h : recvStep s data = some t) : Invariant t := by
  obtain ⟨v, hv, -, rfl⟩ := recvStep_eq_some h
  refine ⟨fun x hx => ?_, by simp, by simp⟩
  obtain hrep | ⟨-, hflag, harmed⟩ := hi.accepted x hx
  · exact Or.inl hrep
  · obtain hrep | rfl := hok v hv x hx
    · exact Or.inl hrep
    · exact Or.inr ⟨rfl, hflag, harmed⟩

theorem inv_echo {s t : State} (hi : Invariant s) (h : echoStep s = some t) : Invariant t := by
  cases echoStep_effect h with
  | passed | rejected => exact ⟨hi.accepted, by simp, by simp⟩
  | setFlag =>
    refine ⟨fun x hx => ?_, fun _ => Or.inr rfl, by simp⟩
    obtain hrep | ⟨rfl, -, harmed⟩ := hi.accepted x hx
    · exact Or.inl hrep
    · exact Or.inr ⟨rfl, rfl, harmed⟩
  | setClient hpc =>
    refine ⟨fun x hx => ?_, by simp, fun _ => ?_⟩
    · obtain hrep | ⟨rfl, hflag, -⟩ := hi.accepted x hx
      · exact Or.inl hrep
      · exact Or.inr ⟨rfl, hflag, Or.inl rfl⟩
    · obtain hrep | hflag := hi.setClient hpc
      · exact Or.inl hrep
      · exact Or.inr ⟨rfl, hflag, Or.inl rfl⟩
  | spawn hpc =>
    have hmore : ∀ x, HandedOff s x → HandedOff { s with
        shared := { s.shared with accepted := s.shared.accepted ++ [s.shared.recvSerial] }
        echo := .recv
        senders := s.senders ++ [.start] } x := by
      rintro x (hrep | ⟨rfl, hflag, hclient | ⟨pc, hpc, htest⟩⟩)
      · exact Or.inl hrep
      · exact Or.inr ⟨rfl, hflag, Or.inl hclient⟩
      · exact Or.inr ⟨rfl, hflag, Or.inr ⟨pc, List.mem_append_left _ hpc, htest⟩⟩
    refine ⟨fun x hx => ?_, by simp, by simp⟩
    obtain hx | hx := List.mem_append.mp hx
    · exact hmore x (hi.accepted x hx)
    · rw [List.mem_singleton.mp hx]
      exact hmore _ (hi.spawn hpc)

section Sender

variable {s : State} {i : Nat} {pc pc' : SenderPc} {g : Shared}

/-- When nothing waits, a step that keeps the serials and the reports is safe. -/
theorem inv_settled (hs : Settled s) (hserial : g.recvSerial = s.shared.recvSerial)
    (haccepted : g.accepted = s.shared.accepted) (hwire : s.shared.wire ⊆ g.wire)
    (hclient : s.echo = .setClient →
      Reported g g.recvSerial ∨ g.flagRecvSuccess = true) (senders : List SenderPc) :
    Invariant ⟨g, s.echo, senders⟩ := by
  refine ⟨fun x hx => Or.inl ?_, hclient, fun hpc => Or.inl ?_⟩
  · simp only [haccepted] at hx
    exact (hs.1 x hx).mono hwire
  · simp only [hserial]
    exact (hs.2 hpc).mono hwire

theorem inv_armed (hi : Invariant s) (hserial : g.recvSerial = s.shared.recvSerial)
    (haccepted : g.accepted = s.shared.accepted) (hwire : s.shared.wire ⊆ g.wire)
    (hflag : g.flagRecvSuccess = s.shared.flagRecvSuccess) (senders : List SenderPc)
    (harmed : Armed s → Armed ⟨g, s.echo, senders⟩) :
    Invariant ⟨g, s.echo, senders⟩ := by
  have hkeep : ∀ x, HandedOff s x → HandedOff ⟨g, s.echo, senders⟩ x := by
    rintro x (hrep | ⟨rfl, hf, ha⟩)
    · exact Or.inl (hrep.mono hwire)
    · exact Or.inr ⟨hserial.symm, hflag.trans hf, harmed ha⟩
  refine ⟨fun x hx => ?_, fun hpc => ?_, fun hpc => ?_⟩
  · simp only [haccepted] at hx
    exact hkeep x (hi.accepted x hx)
  · obtain hrep | hf := hi.setClient hpc
    · simp only [hserial]
      exact Or.inl (hrep.mono hwire)
    · exact Or.inr (hflag.trans hf)
  · simp only [hserial]
    exact hkeep _ (hi.spawn hpc)

theorem inv_sender {t : State} {ok : Bool} (hi : Invariant s) (hok : Careful s (.sender i ok))
    (h : senderStep s i ok = some t) : Invariant t := by
  obtain ⟨pc, g, pc', hpc, hnext, rfl⟩ := senderStep_eq_some h
  have hcareful : CarefulAt s i pc := hok pc hpc
  obtain ⟨hserial, haccepted, hwire, hcase⟩ := senderNext_handOff hnext
  have hclient : g.flagRecvSuccess = s.shared.flagRecvSuccess → s.echo = .setClient →
      Reported g g.recvSerial ∨ g.flagRecvSuccess = true := by
    intro hflag hsc
    obtain hrep | hf := hi.setClient hsc
    · rw [hserial]
      exact Or.inl (hrep.mono hwire)
    · exact Or.inr (hflag.trans hf)
  have hother : ∀ q, (∃ j, j ≠ i ∧ s.senders[j]? = some q) → WillTest q →
      Armed ⟨g, s.echo, s.senders.set i pc'⟩ :=
    fun q hq htest => Or.inr ⟨q, (mem_set_iff hpc).mpr (Or.inr hq), htest⟩
  have helse : ¬ WillTest pc → (∃ q ∈ s.senders, WillTest q) →
      Armed ⟨g, s.echo, s.senders.set i pc'⟩ := by
    rintro hno ⟨q, hq, htest⟩
    obtain ⟨j, hj⟩ := List.mem_iff_getElem?.mp hq
    refine hother q ⟨j, ?_, hj⟩ htest
    rintro rfl
    rw [hpc] at hj
    cases hj
    exact hno htest
  obtain ⟨hclear, hflag⟩ | ⟨rfl, hf, rfl⟩ | ⟨k, e, rfl⟩ | ⟨htest, hc, hflag⟩ := hcase
  · have hsafe : Settled s ∨ ∃ q ∈ s.senders, WillTest q := by
      obtain rfl | ⟨k, e, rfl⟩ := hclear <;> exact hcareful
    have hno : ¬ WillTest pc := by
      obtain rfl | ⟨k, e, rfl⟩ := hclear <;> simp [WillTest]
    obtain hset | hex := hsafe
    · exact inv_settled hset hserial haccepted hwire (hclient hflag) _
    · exact inv_armed hi hserial haccepted hwire hflag _ fun _ => helse hno hex
  · obtain hset | harm | ⟨q, hq, htest⟩ := hcareful hf
    · exact inv_settled hset hserial haccepted hwire (hclient rfl) _
    · exact inv_armed hi hserial haccepted hwire rfl _ fun _ => Or.inl harm
    · exact inv_armed hi hserial haccepted hwire rfl _ fun _ =>
        hother q (List.mem_eraseIdx_iff_getElem?.mp hq) htest
  · obtain ⟨hset, hrep⟩ := hcareful
    refine inv_settled hset hserial haccepted hwire (fun hsc => Or.inl ?_) _
    rw [hserial]
    exact (hrep hsc).mono hwire
  · refine inv_armed hi hserial haccepted hwire hflag _ ?_
    rintro (harm | ⟨q, hq, hwill⟩)
    · exact Or.inl (hc.trans harm)
    · obtain ⟨j, hj⟩ := List.mem_iff_getElem?.mp hq
      by_cases hji : j = i
      · rw [hji, hpc] at hj
        cases hj
        exact Or.inr ⟨pc', (mem_set_iff hpc).mpr (Or.inl rfl), htest hwill⟩
      · exact hother q ⟨j, hji, hj⟩ hwill

end Sender

theorem inv_step (s : State) (l : Label) (t : State) (hi : Invariant s) (hok : Careful s l)
    (h : step s l = some t) : Invariant t := by
  cases l with
  | recv data => exact inv_recv hi hok h
  | echo => exact inv_echo hi h
  | sender i ok => exact inv_sender hi hok h

/-- The thread that the request creates clears flag_Client before the first
sender has looked at it. -/
def stranded : List Label := senderSteps 0 2 ++ request (lit "5\n") ++ senderSteps 1 1

end PopcornFirmware.FreeRTOS.HandOff
