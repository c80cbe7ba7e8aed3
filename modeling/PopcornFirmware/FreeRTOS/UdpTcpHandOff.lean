import PopcornFirmware.FreeRTOS.TcpEcho
import PopcornFirmware.Packet.Http

namespace PopcornFirmware.FreeRTOS.UdpTcpHandOff

open PopcornFirmware.Lib.CText PopcornFirmware.Lib.Runs
open PopcornFirmware.Packet.Gen PopcornFirmware.Packet.Http PopcornFirmware.Packet.Str2int
open PopcornFirmware.FreeRTOS.TcpEcho (overwrite)

/-- A value of recv_serial, and which store put it there: zero stands for the
initial value. -/
structure Stored where
  store : Nat
  serial : BitVec 32
  deriving DecidableEq

/-- The globals of the two threads, and what has been accepted and sent. -/
structure Shared where
  recvSerial : Stored
  flagRecvSuccess : Bool
  postPacket : Text
  -- the most recent value that has passed the test recv_serial >= 0
  accepted : Option Stored
  -- what json_Packet_Gen had read, and the bytes handed to netconn_write
  wire : List (Stored × Text)
  deriving DecidableEq

/-- The statement of tcpecho_thread that comes next, behind the loop over the
fragments of a netbuf. -/
inductive EchoPc where
  -- recv_serial = str2int(data)
  | recv
  -- if (recv_serial >= 0)
  | test
  -- flag_recv_success = 1
  | setFlag
  deriving DecidableEq

/-- The statement of tcp_sendData_thread that comes next. What is in post_packet
between the read of recv_serial and the end of the loop is kept alongside. -/
inductive SenderPc where
  -- netconn_new and netconn_connect
  | connect
  -- if (flag_recv_success)
  | test
  -- sendLen = strlen(post_packet)
  | oldLen
  -- json_Packet_Gen: the access to recv_serial
  | gen
  -- json_Packet_Gen: the sprintf into post_packet
  | emit (read : Stored)
  -- buf_data: the strlen of post_packet
  | bufData (read : Stored)
  -- netconn_write, which copies the bytes
  | write (read : Stored) (len : Nat)
  -- flag_recv_success = 0
  | clear (read : Stored)
  deriving DecidableEq

structure State where
  shared : Shared
  echo : EchoPc
  sender : SenderPc
  deriving DecidableEq

def init : State where
  shared := ⟨⟨0, 0⟩, false, List.replicate 450 0, none, []⟩
  echo := .recv
  sender := .connect

@[simp] theorem init_echo : init.echo = .recv := rfl

@[simp] theorem init_sender : init.sender = .connect := rfl

@[simp] theorem init_accepted : init.shared.accepted = none := rfl

/-- A step of tcpecho_thread on the fragments of a netbuf, of tcpecho_thread
between two netbufs, or of the sender. -/
inductive Label where
  | recv (netbuf : List Text)
  | echo
  | sender
  deriving DecidableEq

/-- After the loop data points to the last fragment. -/
def recvStep (s : State) (netbuf : List Text) : Option State :=
  if s.echo = .recv then
    (netbuf.getLast?.bind str2int).map fun v =>
      let g := s.shared
      { s with shared := { g with recvSerial := ⟨g.recvSerial.store + 1, v⟩ }, echo := .test }
  else none

def echoStep (s : State) : Option State :=
  let g := s.shared
  match s.echo with
  | .recv => none
  | .test =>
    if 0 ≤ g.recvSerial.serial.toInt then
      some { s with shared := { g with accepted := some g.recvSerial }, echo := .setFlag }
    else some { s with echo := .recv }
  | .setFlag => some { s with shared := { g with flagRecvSuccess := true }, echo := .recv }

def senderNext (g : Shared) : SenderPc → Option (Shared × SenderPc)
  | .connect => some (g, .test)
  | .test => some (g, if g.flagRecvSuccess then .oldLen else .test)
  | .oldLen => (strlen g.postPacket).map fun _ => (g, .gen)
  | .gen => some (g, .emit g.recvSerial)
  | .emit r =>
    (httpPacketGen udptcpEchoServerNetconn programEnv r.serial).map fun text =>
      ({ g with postPacket := overwrite g.postPacket text }, .bufData r)
  | .bufData r => (strlen g.postPacket).map fun n => (g, .write r n)
  | .write r n => some ({ g with wire := g.wire ++ [(r, g.postPacket.take n)] }, .clear r)
  | .clear _ => some ({ g with flagRecvSuccess := false }, .test)

def step (s : State) : Label → Option State
  | .recv netbuf => recvStep s netbuf
  | .echo => echoStep s
  | .sender => (senderNext s.shared s.sender).map fun r => { s with shared := r.1, sender := r.2 }

/-- The packet of this very store has been handed to netconn_write. -/
def Reported (g : Shared) (a : Stored) : Prop :=
  ∃ r ∈ g.wire, r.1 = a ∧
    httpPacketGen udptcpEchoServerNetconn programEnv a.serial = some r.2

instance (g : Shared) (a : Stored) : Decidable (Reported g a) :=
  inferInstanceAs (Decidable (∃ r ∈ g.wire, _))

/-- The sender has still to read recv_serial before it clears the flag. -/
def WillRead : SenderPc → Prop
  | .connect | .test | .oldLen | .gen => True
  | _ => False

instance : DecidablePred WillRead
  | .connect | .test | .oldLen | .gen => inferInstanceAs (Decidable True)
  | .emit _ | .bufData _ | .write _ _ | .clear _ => inferInstanceAs (Decidable False)

/-- What the sender has read, and has not yet written. -/
def carried : SenderPc → Option Stored
  | .emit r | .bufData r | .write r _ => some r
  | _ => none

/-- The value of recv_serial that the sender works on. -/
def current : SenderPc → Option Stored
  | .clear r => some r
  | pc => carried pc

/-- When the flag is 0 and tcpecho_thread is outside lines 112 to 116, the most
recently accepted serial has been sent. -/
def NotLost (s : State) : Prop :=
  s.shared.flagRecvSuccess = false → s.echo = .recv →
    ∀ a ∈ s.shared.accepted, Reported s.shared a

instance (s : State) : Decidable (NotLost s) :=
  haveI : Decidable (∀ a ∈ s.shared.accepted, Reported s.shared a) := Option.decidableForallMem _
  inferInstanceAs (Decidable (_ → _ → _))

/-- No negative value replaces an accepted serial that is neither sent nor read
for sending, and the flag is not set while the sender, on its way to clear it,
works on an older value. -/
def Timely (s : State) : Label → Prop
  | .recv netbuf => ∀ v ∈ netbuf.getLast?.bind str2int, v.toInt < 0 → WillRead s.sender →
      ∀ a ∈ s.shared.accepted, Reported s.shared a
  | .echo => s.echo = .setFlag → ∀ r ∈ current s.sender, r = s.shared.recvSerial
  | .sender => True

instance : ∀ s l, Decidable (Timely s l)
  | s, .recv netbuf =>
    haveI : Decidable (∀ a ∈ s.shared.accepted, Reported s.shared a) := Option.decidableForallMem _
    haveI : ∀ v : BitVec 32, Decidable (v.toInt < 0 → WillRead s.sender →
        ∀ a ∈ s.shared.accepted, Reported s.shared a) :=
      fun _ => inferInstanceAs (Decidable (_ → _ → _))
    Option.decidableForallMem (netbuf.getLast?.bind str2int)
  | s, .echo =>
    haveI : Decidable (∀ r ∈ current s.sender, r = s.shared.recvSerial) :=
      Option.decidableForallMem _
    inferInstanceAs (Decidable (_ → _))
  | _, .sender => inferInstanceAs (Decidable True)

theorem Reported.mono {g g' : Shared} {a : Stored} (hwire : g.wire ⊆ g'.wire)
    (h : Reported g a) : Reported g' a := by
  obtain ⟨r, hr, htext⟩ := h
  exact ⟨r, hwire hr, htext⟩

section Sender

variable {g g' : Shared} {pc pc' : SenderPc} {a : Stored}

/-- post_packet holds the packet of a value of recv_serial. -/
def Holds (array : Text) (a : Stored) : Prop :=
  ∃ text tail, httpPacketGen udptcpEchoServerNetconn programEnv a.serial = some text ∧
    array = text ++ 0 :: tail

theorem Holds.take {array : Text} {n : Nat} (h : Holds array a) (hn : strlen array = some n) :
    httpPacketGen udptcpEchoServerNetconn programEnv a.serial = some (array.take n) := by
  obtain ⟨text, tail, htext, rfl⟩ := h
  have hnul := httpPacket_no_nul (by decide) (by decide) (by decide) htext
  rw [strlen_append_zero text tail hnul] at hn
  cases hn
  rw [htext, List.take_left']
  rfl

/-- What the sender has done with the value it works on. Nobody else touches
post_packet. -/
def WorkDone (g : Shared) : SenderPc → Prop
  | .bufData r => Holds g.postPacket r
  | .write r n => Holds g.postPacket r ∧ strlen g.postPacket = some n
  | .clear r => Reported g r
  | _ => True

theorem WorkDone.frame (hw : WorkDone g pc) (hpost : g'.postPacket = g.postPacket)
    (hwire : g'.wire = g.wire) : WorkDone g' pc := by
  cases pc with
  | connect | test | oldLen | gen | emit r => trivial
  | bufData r => simpa only [WorkDone, hpost] using hw
  | write r n => simpa only [WorkDone, hpost] using hw
  | clear r => simpa only [WorkDone, Reported, hwire] using hw

theorem senderNext_workDone (hw : WorkDone g pc) (h : senderNext g pc = some (g', pc')) :
    WorkDone g' pc' := by
  cases pc with
  | connect | gen | clear r =>
    cases h
    trivial
  | test =>
    cases h
    cases g.flagRecvSuccess <;> trivial
  | oldLen =>
    obtain ⟨n, -, heq⟩ := Option.map_eq_some_iff.mp h
    cases heq
    trivial
  | emit r =>
    obtain ⟨text, htext, heq⟩ := Option.map_eq_some_iff.mp h
    cases heq
    exact ⟨text, g.postPacket.drop (text.length + 1), htext, rfl⟩
  | bufData r =>
    obtain ⟨n, hn, heq⟩ := Option.map_eq_some_iff.mp h
    cases heq
    exact ⟨hw, hn⟩
  | write r n =>
    cases h
    exact ⟨_, List.mem_append_right _ (List.mem_singleton_self _), rfl, hw.1.take hw.2⟩

theorem senderNext_cases (h : senderNext g pc = some (g', pc')) :
    g'.recvSerial = g.recvSerial ∧ g'.accepted = g.accepted ∧ g.wire ⊆ g'.wire ∧
      ((WillRead pc' ∧ carried pc = none ∧ g'.flagRecvSuccess = g.flagRecvSuccess) ∨
        (pc = .gen ∧ pc' = .emit g.recvSerial ∧ g'.flagRecvSuccess = g.flagRecvSuccess) ∨
        (¬ WillRead pc ∧ carried pc' = carried pc ∧ g'.flagRecvSuccess = g.flagRecvSuccess) ∨
        (∃ r n, pc = .write r n ∧ pc' = .clear r) ∨
        ∃ r, pc = .clear r) := by
  cases pc with
  | connect =>
    cases h
    simp [WillRead, carried]
  | test =>
    cases h
    cases g.flagRecvSuccess <;> simp [WillRead, carried]
  | oldLen =>
    obtain ⟨n, -, heq⟩ := Option.map_eq_some_iff.mp h
    cases heq
    simp [WillRead, carried]
  | gen =>
    cases h
    simp
  | emit r =>
    obtain ⟨text, -, heq⟩ := Option.map_eq_some_iff.mp h
    cases heq
    simp [WillRead, carried]
  | bufData r =>
    obtain ⟨n, -, heq⟩ := Option.map_eq_some_iff.mp h
    cases heq
    simp [WillRead, carried]
  | write r n =>
    cases h
    simp
  | clear r =>
    cases h
    simp

end Sender

/-- A serial that has been sent, or that the sender is about to write before it
clears the flag. -/
def Taken (g : Shared) (pc : SenderPc) (a : Stored) : Prop :=
  Reported g a ∨ (g.flagRecvSuccess = true ∧ carried pc = some a)

/-- Or one that the sender has still to read, with the flag that makes it do so. -/
def Handled (g : Shared) (pc : SenderPc) (a : Stored) : Prop :=
  Taken g pc a ∨ (g.flagRecvSuccess = true ∧ a = g.recvSerial ∧ WillRead pc)

/-- While a new value waits for the test either it is going to be accepted, or
what was accepted before no longer needs recv_serial. -/
structure Invariant (s : State) : Prop where
  work : WorkDone s.shared s.sender
  recv : s.echo = .recv → ∀ a ∈ s.shared.accepted, Handled s.shared s.sender a
  test : s.echo = .test → 0 ≤ s.shared.recvSerial.serial.toInt ∨
    ∀ a ∈ s.shared.accepted, Taken s.shared s.sender a
  setFlag : s.echo = .setFlag → s.shared.accepted = some s.shared.recvSerial

theorem inv_init : Invariant init := by
  constructor <;> simp [WorkDone]

theorem inv_recv {s t : State} {netbuf : List Text} (hi : Invariant s)
    (hok : Timely s (.recv netbuf)) (h : recvStep s netbuf = some t) : Invariant t := by
  unfold recvStep at h
  split at h
  · rename_i hecho
    obtain ⟨v, hv, rfl⟩ := Option.map_eq_some_iff.mp h
    refine ⟨hi.work.frame rfl rfl, by simp, fun _ => ?_, by simp⟩
    by_cases hneg : v.toInt < 0
    · refine Or.inr fun a ha => ?_
      obtain htaken | ⟨-, -, hwill⟩ := hi.recv hecho a ha
      · exact htaken
      · exact Or.inl (hok v hv hneg hwill a ha)
    · exact Or.inl (not_lt.mp hneg)
  · cases h

theorem inv_setFlag {s : State} (hi : Invariant s) (hecho : s.echo = .setFlag)
    (hok : ∀ r ∈ current s.sender, r = s.shared.recvSerial) : Invariant { s with
      shared := { s.shared with flagRecvSuccess := true }
      echo := .recv } := by
  refine ⟨hi.work.frame rfl rfl, fun _ a ha => ?_, by simp, by simp⟩
  have heq : a = s.shared.recvSerial := by
    have hacc : s.shared.accepted = some a := ha
    rw [hi.setFlag hecho] at hacc
    exact (Option.some.inj hacc).symm
  subst heq
  have hwork := hi.work
  cases hpc : s.sender with
  | connect | test | oldLen | gen => exact Or.inr ⟨rfl, rfl, trivial⟩
  | emit r | bufData r | write r n =>
    have hr : r = s.shared.recvSerial := hok r (by simp [hpc, current, carried])
    exact Or.inl (Or.inr ⟨rfl, congrArg some hr⟩)
  | clear r =>
    have hr : r = s.shared.recvSerial := hok r (by simp [hpc, current])
    rw [hpc] at hwork
    exact Or.inl (Or.inl (hr ▸ hwork))

theorem inv_echo {s t : State} (hi : Invariant s) (hok : Timely s .echo)
    (h : echoStep s = some t) : Invariant t := by
  cases hpc : s.echo with
  | recv => simp [echoStep, hpc] at h
  | test =>
    simp only [echoStep, hpc] at h
    split at h
    · cases h
      exact ⟨hi.work.frame rfl rfl, by simp, by simp, fun _ => rfl⟩
    · rename_i hneg
      cases h
      obtain hpos | htaken := hi.test hpc
      · exact absurd hpos hneg
      · exact ⟨hi.work, fun _ a ha => Or.inl (htaken a ha), by simp, by simp⟩
  | setFlag =>
    simp only [echoStep, hpc, Option.some.injEq] at h
    exact h ▸ inv_setFlag hi hpc (hok hpc)

theorem Taken.senderNext {g g' : Shared} {pc pc' : SenderPc} {a : Stored}
    (hw : WorkDone g pc) (h : senderNext g pc = some (g', pc')) (ht : Taken g pc a) :
    Taken g' pc' a := by
  obtain ⟨-, -, hwire, hcase⟩ := senderNext_cases h
  obtain hrep | ⟨hflag, hcarried⟩ := ht
  · exact Or.inl (hrep.mono hwire)
  · obtain ⟨-, hnone, -⟩ | ⟨rfl, -, -⟩ | ⟨-, hsame, hf⟩ | ⟨r, n, rfl, rfl⟩ | ⟨r, rfl⟩ := hcase
    · rw [hnone] at hcarried
      cases hcarried
    · cases hcarried
    · exact Or.inr ⟨hf.trans hflag, hsame.trans hcarried⟩
    · cases hcarried
      exact Or.inl (senderNext_workDone hw h)
    · cases hcarried

theorem Handled.senderNext {g g' : Shared} {pc pc' : SenderPc} {a : Stored}
    (hw : WorkDone g pc) (h : senderNext g pc = some (g', pc')) (hh : Handled g pc a) :
    Handled g' pc' a := by
  obtain ⟨hserial, -, -, hcase⟩ := senderNext_cases h
  obtain htaken | ⟨hflag, rfl, hwill⟩ := hh
  · exact Or.inl (htaken.senderNext hw h)
  · obtain ⟨hwill', -, hf⟩ | ⟨rfl, rfl, hf⟩ | ⟨hnot, -, -⟩ | ⟨r, n, rfl, rfl⟩ | ⟨r, rfl⟩ := hcase
    · exact Or.inr ⟨hf.trans hflag, hserial.symm, hwill'⟩
    · exact Or.inl (Or.inr ⟨hf.trans hflag, rfl⟩)
    · exact absurd hwill hnot
    · cases hwill
    · cases hwill

theorem inv_sender {s t : State} (hi : Invariant s) (h : step s .sender = some t) :
    Invariant t := by
  obtain ⟨⟨g, pc⟩, hnext, rfl⟩ := Option.map_eq_some_iff.mp h
  obtain ⟨hserial, haccepted, -, -⟩ := senderNext_cases hnext
  refine ⟨senderNext_workDone hi.work hnext, fun hpc a ha => ?_, fun hpc => ?_, fun hpc => ?_⟩
  · simp only [haccepted] at ha
    exact (hi.recv hpc a ha).senderNext hi.work hnext
  · simp only [hserial, haccepted]
    obtain hpos | htaken := hi.test hpc
    · exact Or.inl hpos
    · exact Or.inr fun a ha => (htaken a ha).senderNext hi.work hnext
  · simp only [hserial, haccepted]
    exact hi.setFlag hpc

theorem inv_step (s : State) (l : Label) (t : State) (hi : Invariant s) (hok : Timely s l)
    (h : step s l = some t) : Invariant t := by
  cases l with
  | recv netbuf => exact inv_recv hi hok h
  | echo => exact inv_echo hi hok h
  | sender => exact inv_sender hi h

/-- In a run of such steps no accepted serial is lost. -/
theorem accepted_notLost (ls : List Label) (s : State) (hok : Steps step Timely init ls)
    (h : exec step init ls = some s) : NotLost s := by
  have hi := exec_invariant inv_step inv_init hok h
  intro hflag hpc a ha
  obtain (hrep | ⟨hset, -⟩) | ⟨hset, -⟩ := hi.recv hpc a ha
  · exact hrep
  · rw [hflag] at hset
    cases hset
  · rw [hflag] at hset
    cases hset

def request (data : Text) : List Label := [.recv [data], .echo, .echo]

def senderSteps (n : Nat) : List Label := List.replicate n .sender

def oneReport : List Label := senderSteps 1 ++ request (lit "5\n") ++ senderSteps 7

theorem accepted_notLost_oneReport :
    ∃ s, exec step init oneReport = some s ∧ s.shared.flagRecvSuccess = false ∧
      s.shared.accepted = some ⟨1, 5⟩ ∧ NotLost s := by
  have hrun : ∃ s, exec step init oneReport = some s ∧ s.shared.flagRecvSuccess = false ∧
      s.shared.accepted = some ⟨1, 5⟩ := by
    decide +kernel
  obtain ⟨s, hs, hflag, hacc⟩ := hrun
  exact ⟨s, hs, hflag, hacc, accepted_notLost oneReport s (by decide +kernel) hs⟩

/-- The second serial arrives while the sender is in netconn_write for the first,
and the flag that announces it is cleared behind the write. -/
def lostSerial : List Label :=
  senderSteps 1 ++ request (lit "5\n") ++ senderSteps 6 ++ request (lit "6\n") ++ senderSteps 1

theorem lostSerial_lost : ∃ s, exec step init lostSerial = some s ∧ ¬ NotLost s := by
  decide +kernel

end PopcornFirmware.FreeRTOS.UdpTcpHandOff
