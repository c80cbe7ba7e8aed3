import PopcornFirmware.Lib.Pool
import PopcornFirmware.Lib.Runs
import PopcornFirmware.Packet.Gen
import PopcornFirmware.Packet.Str2int

namespace PopcornFirmware.FreeRTOS.TcpEcho

open PopcornFirmware.Lib.CText PopcornFirmware.Lib.Runs
open PopcornFirmware.Packet.Gen PopcornFirmware.Packet.Str2int

/-- A call of netconn_write by a sender: which setting of flag_recv_success
the sender found, counted from one, and the bytes. -/
structure Report where
  setting : Nat
  bytes : Text
  deriving DecidableEq

/-- The globals of tcpecho.c and json.c that the threads share, and the history
of what has happened to them. -/
structure Shared where
  recvSerial : BitVec 32
  flagRecvSuccess : Bool
  flagClient : Bool
  postPacket : Text
  -- how often flag_recv_success has been set
  settings : Nat
  -- the values that have passed the test recv_serial >= 0
  passed : List (BitVec 32)
  -- the values whose statements up to tcp_SendData_init() are completed
  accepted : List (BitVec 32)
  wire : List Report
  deriving DecidableEq

/-- The statement of tcpecho_thread that comes next. The echo of the data, the
local text and the LCD touch nothing shared and are left out. -/
inductive EchoPc where
  -- recv_serial = str2int(data)
  | recv
  -- if (recv_serial >= 0)
  | test
  -- flag_recv_success = 1
  | setFlag
  -- flag_Client = 1
  | setClient
  -- tcp_SendData_init()
  | spawn
  deriving DecidableEq

/-- The statement of a tcp_sendData_thread that comes next. -/
inductive SenderPc where
  -- flag_Client = 0
  | start
  -- netconn_new
  | newConn
  -- if (flag_Client == 1)
  | poll
  -- netconn_connect, until it returns ERR_OK
  | connect
  -- if (flag_recv_success), in the loop while (errWrite == ERR_OK)
  | test
  -- sendLen = strlen(post_packet)
  | oldLen (setting : Nat)
  -- json_Packet_Gen: the access to recv_serial
  | gen (setting : Nat)
  -- json_Packet_Gen: the sprintf into post_packet
  | emit (setting : Nat) (serial : BitVec 32)
  -- buf_data: the strlen of post_packet
  | bufData (setting : Nat)
  -- netconn_write, which copies the bytes
  | write (setting len : Nat)
  -- flag_Client = 0, after the write
  | clearClient (setting : Nat) (errWrite : Bool)
  -- flag_recv_success = 0
  | clearFlag (setting : Nat) (errWrite : Bool)
  -- netconn_close, until it returns ERR_OK
  | close
  deriving DecidableEq

structure State where
  shared : Shared
  echo : EchoPc
  senders : List SenderPc
  deriving DecidableEq

/-- main has started tcpecho_thread and one sender. -/
def init : State where
  shared := ⟨0, false, false, List.replicate 450 0, 0, [], [], []⟩
  echo := .recv
  senders := [.start]

@[simp] theorem init_echo : init.echo = .recv := rfl

@[simp] theorem init_senders : init.senders = [.start] := rfl

@[simp] theorem init_flagRecvSuccess : init.shared.flagRecvSuccess = false := rfl

@[simp] theorem init_passed : init.shared.passed = [] := rfl

@[simp] theorem init_accepted : init.shared.accepted = [] := rfl

@[simp] theorem init_wire : init.shared.wire = [] := rfl

/-- One step of tcpecho_thread on a segment with the memory data, of
tcpecho_thread between two segments, or of a sender; ok says whether the
netconn function that the step calls, if any, succeeds. -/
inductive Label where
  | recv (data : Text)
  | echo
  | sender (i : Nat) (ok : Bool)
  deriving DecidableEq

def recvStep (s : State) (data : Text) : Option State :=
  if s.echo = .recv then
    (str2int data).map fun v =>
      { s with shared := { s.shared with recvSerial := v }, echo := .test }
  else none

def echoStep (s : State) : Option State :=
  let g := s.shared
  match s.echo with
  | .recv => none
  | .test =>
    if 0 ≤ g.recvSerial.toInt then
      some { s with shared := { g with passed := g.passed ++ [g.recvSerial] }, echo := .setFlag }
    else some { s with echo := .recv }
  | .setFlag =>
    some { s with
      shared := { g with flagRecvSuccess := true, settings := g.settings + 1 }
      echo := .setClient }
  | .setClient => some { s with shared := { g with flagClient := true }, echo := .spawn }
  | .spawn =>
    some { s with
      shared := { g with accepted := g.accepted ++ [g.recvSerial] }
      echo := .recv
      senders := s.senders ++ [.start] }

/-- The array after a sprintf into its beginning. -/
def overwrite (array text : Text) : Text := text ++ 0 :: array.drop (text.length + 1)

/-- What one step of a sender does to the globals, and where it stands then. -/
def senderNext (g : Shared) (ok : Bool) : SenderPc → Option (Shared × SenderPc)
  | .start => some ({ g with flagClient := false }, .newConn)
  | .newConn => some (g, if ok then .poll else .newConn)
  | .poll => some (g, if g.flagClient then .connect else .poll)
  | .connect => some (g, if ok then .test else .connect)
  | .test => some (g, if g.flagRecvSuccess then .oldLen g.settings else .test)
  | .oldLen k => (strlen g.postPacket).map fun _ => (g, .gen k)
  | .gen k => some (g, .emit k g.recvSerial)
  | .emit k serial =>
    (jsonPacketGen programEnv serial).map fun text =>
      ({ g with postPacket := overwrite g.postPacket text }, .bufData k)
  | .bufData k => (strlen g.postPacket).map fun n => (g, .write k n)
  | .write k n =>
    some ({ g with wire := g.wire ++ [⟨k, g.postPacket.take n⟩] }, .clearClient k ok)
  | .clearClient k errWrite => some ({ g with flagClient := false }, .clearFlag k errWrite)
  | .clearFlag _ errWrite =>
    some ({ g with flagRecvSuccess := false }, if errWrite then .test else .close)
  | .close => some (g, if ok then .poll else .close)

def senderStep (s : State) (i : Nat) (ok : Bool) : Option State :=
  s.senders[i]?.bind fun pc =>
    (senderNext s.shared ok pc).map fun r =>
      { s with shared := r.1, senders := s.senders.set i r.2 }

def step (s : State) : Label → Option State
  | .recv data => recvStep s data
  | .echo => echoStep s
  | .sender i ok => senderStep s i ok

/-- A segment that carries a request is handled up to tcp_SendData_init(). -/
def request (data : Text) : List Label := [.recv data, .echo, .echo, .echo, .echo]

def senderSteps (i n : Nat) : List Label := List.replicate n (.sender i true)

def oneReport : List Label :=
  senderSteps 0 2 ++ request (lit "5\n") ++ senderSteps 0 10

theorem recvStep_eq_some {s t : State} {data : Text} (h : recvStep s data = some t) :
    ∃ v, str2int data = some v ∧ s.echo = .recv ∧
      t = { s with shared := { s.shared with recvSerial := v }, echo := .test } := by
  unfold recvStep at h
  split at h
  · rename_i hpc
    obtain ⟨v, hv, rfl⟩ := Option.map_eq_some_iff.mp h
    exact ⟨v, hv, hpc, rfl⟩
  · cases h

/-- All that a step of tcpecho_thread between two segments can do. -/
inductive EchoEffect (s : State) : State → Prop
  | passed (hpc : s.echo = .test) (hpos : 0 ≤ s.shared.recvSerial.toInt) :
    EchoEffect s { s with
      shared := { s.shared with passed := s.shared.passed ++ [s.shared.recvSerial] }
      echo := .setFlag }
  | rejected (hpc : s.echo = .test) : EchoEffect s { s with echo := .recv }
  | setFlag (hpc : s.echo = .setFlag) :
    EchoEffect s { s with
      shared := { s.shared with flagRecvSuccess := true, settings := s.shared.settings + 1 }
      echo := .setClient }
  | setClient (hpc : s.echo = .setClient) :
    EchoEffect s { s with shared := { s.shared with flagClient := true }, echo := .spawn }
  | spawn (hpc : s.echo = .spawn) :
    EchoEffect s { s with
      shared := { s.shared with accepted := s.shared.accepted ++ [s.shared.recvSerial] }
      echo := .recv
      senders := s.senders ++ [.start] }

theorem echoStep_effect {s t : State} (h : echoStep s = some t) : EchoEffect s t := by
  cases hpc : s.echo with
  | recv => simp [echoStep, hpc] at h
  | test =>
    simp only [echoStep, hpc] at h
    split at h
    · rename_i hpos
      cases h
      exact .passed hpc hpos
    · cases h
      exact .rejected hpc
  | setFlag =>
    simp only [echoStep, hpc, Option.some.injEq] at h
    exact h ▸ .setFlag hpc
  | setClient =>
    simp only [echoStep, hpc, Option.some.injEq] at h
    exact h ▸ .setClient hpc
  | spawn =>
    simp only [echoStep, hpc, Option.some.injEq] at h
    exact h ▸ .spawn hpc

theorem EchoEffect.senders {s t : State} (h : EchoEffect s t) :
    t.senders = s.senders ∨ t.senders = s.senders ++ [.start] := by
  cases h with
  | passed | rejected | setFlag | setClient => exact Or.inl rfl
  | spawn => exact Or.inr rfl

theorem senderStep_eq_some {s t : State} {i : Nat} {ok : Bool} (h : senderStep s i ok = some t) :
    ∃ pc g pc', s.senders[i]? = some pc ∧ senderNext s.shared ok pc = some (g, pc') ∧
      t = ⟨g, s.echo, s.senders.set i pc'⟩ := by
  obtain ⟨pc, hpc, hmap⟩ := Option.bind_eq_some_iff.mp h
  obtain ⟨⟨g, pc'⟩, hnext, rfl⟩ := Option.map_eq_some_iff.mp hmap
  exact ⟨pc, g, pc', hpc, hnext, rfl⟩

end PopcornFirmware.FreeRTOS.TcpEcho
