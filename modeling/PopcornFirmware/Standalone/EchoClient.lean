import PopcornFirmware.Lib.Ownership
import PopcornFirmware.Lwip.PbufPool
import PopcornFirmware.Standalone.RawServer

namespace PopcornFirmware.Standalone.EchoClient

open PopcornFirmware.Lib.CText PopcornFirmware.Lib.LinkedHeap PopcornFirmware.Lib.Ownership
open PopcornFirmware.Lwip.Pbufs PopcornFirmware.Lwip.PbufPool
open PopcornFirmware.Packet.Gen (httpPacketGen tcpEchoClient programEnv)
open PopcornFirmware.Packet.Str2int
open PopcornFirmware.Standalone.RawServer (Answer ErrT Globals sendLoop)

/-- The values of enum echoclient_states. -/
inductive ClientState where
  | notConnected
  | connected
  | received
  | closing
  deriving DecidableEq

/-- struct echoclient without the pcb, which is never read. -/
structure Echoclient where
  state : ClientState
  pTx : Option Nat
  deriving DecidableEq

/-- The callback that has been given to tcp_connect. -/
inductive Connected where
  -- tcp_echoclient_connected
  | once
  -- tcp_echoclient_connected_sustained
  | sustained
  deriving DecidableEq

/-- A pcb of the client with the pbufs of its connection, and what lwIP has been
given. -/
structure Pcb where
  -- neither closed by tcp_close nor freed by lwIP
  live : Bool
  -- none once lwIP has called it, which it does no more than once
  onConnected : Option Connected
  -- set by tcp_arg
  arg : Option Nat
  -- the recv, sent and poll callbacks are installed
  installed : Bool
  mem : Mem
  -- the messages for which a pbuf has been allocated
  queued : List Text
  -- the bytes accepted by tcp_write
  written : Text
  -- the structures that mem_malloc has returned for it
  ess : List Nat
  deriving DecidableEq

/-- The pcb as tcp_new and tcp_connect leave it. -/
def tcpNew (onConnected : Option Connected) : Pcb :=
  ⟨true, onConnected, none, false, [], [], [], []⟩

/-- The text that both connected callbacks print to data. -/
def postRequest : Text := lit "POST /check HTTP/1.1\r\nHost: 192.168.1.27\r\n\r\n"

section Callbacks

/-- tcp_echoclient_send, whose loop is that of tcp_server_send without the call
of tcp_recved. -/
def echoclientSend (answers : Nat → Answer) (c : Pcb) (es : Echoclient) :
    Option (Pcb × Echoclient) :=
  (sendLoop answers (c.mem.length + 1) 0 ⟨c.mem, es.pTx, c.written, 0⟩).map fun r =>
    ({ c with mem := r.1.mem, written := r.1.written }, { es with pTx := r.1.p })

/-- What tcp_echoclient_connection_close does to the pcb; the argument stays. -/
def echoclientConnectionClose (closeOk : Bool) (c : Pcb) : Pcb :=
  { c with installed := false, live := !closeOk }

/-- The call of pbuf_alloc for a message. -/
def allocMessage (alloc : Option Text) (text : Text) (c : Pcb) : Pcb × Option Nat :=
  let r := pbufAllocPool c.mem text.length alloc
  ({ c with mem := r.1, queued := if r.2 = none then c.queued else c.queued ++ [text] }, r.2)

/-- The statements of the connected callbacks from pbuf_alloc to tcp_poll. -/
def installMessage (alloc : Option Text) (text : Text) (c : Pcb) (id : Nat) :
    Option (Pcb × Option Nat) :=
  match allocMessage alloc text c with
  | (c, none) => some (c, none)
  | (c, some p) => (pbufTake c.mem p text).map fun m =>
      ({ c with mem := m, arg := some id, installed := true }, some p)

/-- tcp_echoclient_connected once mem_malloc has returned the structure id. -/
def echoclientConnected (alloc : Option Text) (g : Globals) (c : Pcb) (id : Nat) :
    Option (Pcb × Echoclient) :=
  (installMessage alloc (if g.flagErrRecvSerial then postRequest else g.postPacket) c id).map
    fun r => (r.1, ⟨.connected, r.2⟩)

/-- tcp_echoclient_connected_sustained once mem_malloc has returned the
structure id, whose state has the given value. With status_connection set the
state is not initialised. -/
def echoclientConnectedSustained (answers : Nat → Answer) (alloc : Option Text)
    (state : ClientState) (statusConnection : Bool) (c : Pcb) (id : Nat) :
    Option (Pcb × Echoclient × Bool) :=
  (installMessage alloc postRequest c id).bind fun r =>
    let es : Echoclient := ⟨if statusConnection then state else .connected, r.2⟩
    if r.2 = none then some (r.1, es, statusConnection)
    else (echoclientSend answers r.1 es).map fun q => (q.1, q.2, true)

/-- Both of them. -/
def connectedCallback (v : Connected) (answers : Nat → Answer) (alloc : Option Text)
    (state : ClientState) (g : Globals) (statusConnection : Bool) (c : Pcb) (id : Nat) :
    Option (Pcb × Echoclient × Bool) :=
  match v with
  | .once => (echoclientConnected alloc g c id).map fun r => (r.1, r.2, statusConnection)
  | .sustained => echoclientConnectedSustained answers alloc state statusConnection c id

/-- The statements of tcp_echoclient_recv on the serial up to json_Packet_Gen.
The text in serial_check is local and is left out. -/
def checkSerial (g : Globals) (payload : Text) : Option Globals :=
  (str2int payload).bind fun v =>
    if v.toInt ≤ 0 then some { g with recvSerial := v, flagErrRecvSerial := true }
    else (httpPacketGen tcpEchoClient programEnv v).map fun text =>
      { g with recvSerial := v, flagErrRecvSerial := false, postPacket := text }

/-- The statements behind json_Packet_Gen. Nothing fills the pbuf. -/
def replyToSerial (answers : Nat → Answer) (alloc : Option Text) (g : Globals) (c : Pcb)
    (es : Echoclient) : Option (Pcb × Echoclient) :=
  match allocMessage alloc g.postPacket c with
  | (c, none) => some (c, { es with pTx := none })
  | (c, some p) => echoclientSend answers c { es with pTx := some p }

/-- What a callback leaves behind; es is none when it has been passed to
mem_free. -/
structure Left where
  pcb : Pcb
  es : Option Echoclient
  globals : Globals

/-- The branches of tcp_echoclient_recv that free the segment and do nothing. -/
def dropSegment (g : Globals) (c : Pcb) (es : Echoclient) (p : Option Nat) : Option Left :=
  (pbufFree c.mem p).map fun m => ⟨{ c with mem := m }, some es, g⟩

/-- tcp_echoclient_recv without its store to Tcp_flag; after is the memory
behind the payload up to a NUL. -/
def echoclientRecv (answers : Nat → Answer) (after : Text) (alloc : Option Text) (closeOk : Bool)
    (g : Globals) (c : Pcb) (es : Echoclient) (err : ErrT) : Option Nat → Option Left
  | none =>
    let es := { es with state := .closing }
    if es.pTx = none then some ⟨echoclientConnectionClose closeOk c, none, g⟩
    else (echoclientSend answers c es).map fun r => ⟨r.1, some r.2, g⟩
  | some i =>
    if err ≠ .ok then dropSegment g c es (some i)
    else if es.state = .connected then
      (deref c.mem i).bind fun b =>
        (checkSerial g (b.payload ++ (after ++ [0]))).bind fun g =>
          if g.recvSerial.toInt ≤ 0 then dropSegment g c es (some i)
          else (replyToSerial answers alloc g c es).bind fun r => dropSegment g r.1 r.2 (some i)
    else dropSegment g c es (some i)

/-- tcp_echoclient_poll with an argument that is not NULL. -/
def echoclientPoll (answers : Nat → Answer) (closeOk : Bool) (g : Globals) (c : Pcb)
    (es : Echoclient) : Option Left :=
  if es.pTx ≠ none then (echoclientSend answers c es).map fun r => ⟨r.1, some r.2, g⟩
  else if es.state = .closing then some ⟨echoclientConnectionClose closeOk c, none, g⟩
  else some ⟨c, some es, g⟩

/-- tcp_echoclient_sent. -/
def echoclientSent (answers : Nat → Answer) (g : Globals) (c : Pcb) (es : Echoclient) :
    Option Left :=
  if es.pTx ≠ none then (echoclientSend answers c es).map fun r => ⟨r.1, some r.2, g⟩
  else some ⟨c, some es, g⟩

/-- A callback, with what the functions it calls answer. A segment is given by
the payloads of its pbufs; p = NULL is the one without any. -/
inductive Callback where
  | recv (payloads : List Text) (err : ErrT) (after : Text) (alloc : Option Text)
      (answers : Nat → Answer) (closeOk : Bool)
  | sent (answers : Nat → Answer)
  | poll (answers : Nat → Answer) (closeOk : Bool)

/-- The driver hands over a segment before recv is called. -/
def callback (g : Globals) (c : Pcb) (es : Echoclient) : Callback → Option Left
  | .recv payloads err after alloc answers closeOk =>
    let r := pbufAlloc c.mem payloads
    echoclientRecv answers after alloc closeOk g { c with mem := r.1 } es err r.2
  | .sent answers => echoclientSent answers g c es
  | .poll answers closeOk => echoclientPoll answers closeOk g c es

end Callbacks

structure State where
  tcpFlag : Bool
  statusConnection : Bool
  globals : Globals
  -- the structures in the memory of mem_malloc
  heap : Heap Echoclient
  pcbs : List Pcb

/-- What happens next. The functions of this file are called by the program or
by lwIP, with what the functions they call answer. -/
inductive Label where
  -- the program opens a connection; whether tcp_new succeeds, and tcp_connect
  | connect (v : Connected) (new : Bool) (err : ErrT)
  -- mem_malloc returns memory in which the state has some value, or NULL
  | connected (i : Nat) (err : ErrT) (malloc : Option ClientState) (alloc : Option Text)
      (answers : Nat → Answer) (closeOk : Bool)
  | call (i : Nat) (k : Callback)
  -- lwIP frees the pcb and has no callback to call
  | freed (i : Nat)
  -- other code assigns the serial and the flags, and calls json_Packet_Gen
  | other (g : Globals) (serial : BitVec 32)

/-- The first packet is generated before lwIP runs. -/
def init : State where
  tcpFlag := false
  statusConnection := false
  globals := ⟨0, false, false, (httpPacketGen tcpEchoClient programEnv 0).getD []⟩
  heap := []
  pcbs := []

/-- The pcb and the callback that lwIP calls when the connection is there. -/
def waiting (s : State) (i : Nat) : Option (Pcb × Connected) :=
  (s.pcbs[i]?).bind fun c => if c.live = true then c.onConnected.map fun v => (c, v) else none

def Active (c : Pcb) : Prop := c.live = true ∧ c.installed = true

instance : DecidablePred Active := fun _ => inferInstanceAs (Decidable (_ ∧ _))

/-- The pcb when the callbacks of the connection are installed. -/
def target (s : State) (i : Nat) : Option Pcb := (s.pcbs[i]?).filter fun c => Active c

/-- The structure that the argument of a pcb points to; none when it is NULL or
the structure has been freed. -/
def argument (s : State) (c : Pcb) : Option (Nat × Echoclient) :=
  c.arg.bind fun id => (deref s.heap id).map fun es => (id, es)

def connected (s : State) (i : Nat) (c : Pcb) (v : Connected) (err : ErrT)
    (malloc : Option ClientState) (alloc : Option Text) (answers : Nat → Answer) (closeOk : Bool) :
    Option State :=
  match err, malloc with
  | .ok, some state =>
    (connectedCallback v answers alloc state s.globals s.statusConnection
        { c with ess := c.ess ++ [s.heap.length] } s.heap.length).map fun r =>
      { s with
        statusConnection := r.2.2
        heap := s.heap ++ [some r.2.1]
        pcbs := s.pcbs.set i r.1 }
  | _, _ =>
    some { s with
      statusConnection := if v = .once then s.statusConnection else false
      pcbs := s.pcbs.set i (echoclientConnectionClose closeOk c) }

/-- A callback of an open connection is called with the argument of its pcb. -/
def call (s : State) (i : Nat) (c : Pcb) (k : Callback) : Option State :=
  (argument s c).bind fun a => (callback s.globals c a.2 k).bind fun r =>
    (put s.heap a.1 r.es).map fun heap =>
      { s with globals := r.globals, heap := heap, pcbs := s.pcbs.set i r.pcb }

def IsRecv : Callback → Prop
  | .recv .. => True
  | _ => False

instance : DecidablePred IsRecv
  | .recv .. => inferInstanceAs (Decidable True)
  | .sent _ | .poll .. => inferInstanceAs (Decidable False)

/-- What is not installed is not called. -/
def step (s : State) : Label → Option State
  | .connect v new err =>
    if s.tcpFlag = true ∨ new = false then some s
    else some { s with
      tcpFlag := true
      pcbs := s.pcbs ++ [tcpNew (if err = .ok then some v else none)] }
  | .connected i err malloc alloc answers closeOk =>
    match waiting s i with
    | none => some s
    | some (c, v) =>
      connected s i { c with onConnected := none } v err malloc alloc answers closeOk
  | .call i k =>
    match target s i with
    | none => some s
    | some c =>
      match k, c.arg with
      -- poll with a NULL argument calls tcp_abort
      | .poll .., none => some { s with pcbs := s.pcbs.set i { c with live := false } }
      | k, _ => call { s with tcpFlag := if IsRecv k then false else s.tcpFlag } i c k
  | .freed i =>
    match s.pcbs[i]? with
    | none => some s
    | some c => some { s with pcbs := s.pcbs.set i { c with live := false } }
  | .other g serial =>
    (httpPacketGen tcpEchoClient programEnv serial).map fun text =>
      { s with globals := { g with postPacket := text } }

end PopcornFirmware.Standalone.EchoClient
