import PopcornFirmware.Lwip.TcpOut

namespace PopcornFirmware.Lwip.TcpPcb

open PopcornFirmware.Lib.CText PopcornFirmware.Lib.SeqNum PopcornFirmware.Lwip.Tcp
  PopcornFirmware.Lwip.TcpOut

variable (o : Opts)

section Close

/-- A FIN is enqueued, and the connection moves on when that works. -/
def closeTo (next : TcpState) (c : Conn) : Err × Conn :=
  match tcpSendCtrl o c { fin := true } with
  | (.ok, c) => (.ok, (tcpOutput { c with pcb.state := next }).2)
  | (err, c) => (err, c)

def tcpClose (c : Conn) : Err × Conn :=
  match c.pcb.state with
  | .established => closeTo o .finWait1 c
  | .closeWait => closeTo o .lastAck c
  | _ => (.ok, c)

def tcpPcbPurge (pcb : Pcb) : Pcb :=
  if pcb.state ≠ .closed ∧ pcb.state ≠ .timeWait then
    { pcb with refusedData := none, snd.unsent := [], snd.unacked := [] }
  else pcb

def tcpPcbRemove (c : Conn) : Conn :=
  let c := { c with pcb := tcpPcbPurge c.pcb }
  let c :=
    if c.pcb.state ≠ .timeWait ∧ c.pcb.flags.ackDelay then
      (tcpOutput { c with pcb.flags.ackNow := true }).2
    else c
  { c with pcb.state := .closed }

def tcpRst (c : Conn) (seqno ackno : Seqno) : Conn :=
  match alloc c.mem with
  | (false, mem) => { c with mem := mem }
  | (true, mem) =>
    ipOutput { c with mem := mem }
      ⟨{ seqno := seqno, ackno := ackno, flags := { rst := true, ack := true }, wnd := o.tcpWnd }, []⟩

def tcpAbandon (c : Conn) (reset : Bool) : Conn :=
  if c.pcb.state = .timeWait then tcpPcbRemove c
  else
    let seqno := c.pcb.snd.sndNxt
    let ackno := c.pcb.rcv.rcvNxt
    let c := tcpPcbRemove c
    if reset then tcpRst o c seqno ackno else c

end Close

section App

/-- The receive window grows up to TCP_WND. -/
def growRcvWnd (r : Rcv) (len : Nat) : Rcv :=
  let wnd := (r.rcvWnd + len) % 2 ^ 16
  { r with rcvWnd := if o.tcpWnd < wnd then o.tcpWnd else wnd }

def tcpRecved (c : Conn) (len : Nat) : Conn :=
  let updated := tcpUpdateRcvAnnWnd o c.pcb.mss (growRcvWnd o c.pcb.rcv len)
  let c := { c with pcb.rcv := updated.2 }
  if o.tcpWndUpdateThreshold ≤ updated.1 then tcpAckNow c else c

/-- What an application does with its connection, in a callback or outside. -/
inductive AppOp
  | write (data : Text) (copy more : Bool)
  | output
  | recved (len : Nat)
  | nagle (disable : Bool)
  | close
  deriving DecidableEq

def runAppOp (c : Conn) : AppOp → Conn
  | .write data copy more => (tcpWrite o c data copy more).2
  | .output => (tcpOutput c).2
  | .recved len => tcpRecved o c len
  | .nagle disable => { c with pcb.flags.nodelay := disable }
  | .close => (tcpClose o c).2

def runAppOps (c : Conn) (ops : List AppOp) : Conn := ops.foldl (runAppOp o) c

/-- A call of the receive callback: what the application does in it, and
whether it takes the data. -/
structure RecvCall where
  ops : List AppOp
  accept : Bool
  deriving DecidableEq

/-- TCP_EVENT_RECV for data. -/
def eventRecv (c : Conn) (call : RecvCall) (data : Chain) : Bool × Conn :=
  let c := runAppOps o c call.ops
  (call.accept, if call.accept then { c with delivered := c.delivered ++ data.bytes } else c)

/-- The calls with the data that the application refused before. The result
tells whether the connection keeps no such data any more. -/
def notifyRefused (c : Conn) (call : RecvCall) : Bool × Conn :=
  match c.pcb.refusedData with
  | none => (true, c)
  | some data =>
    match eventRecv o c call data with
    | (true, c) => (true, { c with pcb.refusedData := none })
    | (false, c) => (false, c)

end App

section Timers

def tcpFasttmr (c : Conn) (call : RecvCall) : Conn :=
  let c := (notifyRefused o c call).2
  if c.pcb.flags.ackDelay then
    let c := tcpAckNow c
    { c with pcb.flags.ackDelay := false, pcb.flags.ackNow := false }
  else c

/-- What is due at a slow timer tick: the persist timer or else the
retransmission timer, the keepalive probe, the removal of the connection (with
or without a reset), and the poll callback with what the application does in
it. The counters behind them are not kept. -/
structure SlowTick where
  persist : Bool
  rexmit : Bool
  keepalive : Bool
  remove : Option Bool
  poll : Option (List AppOp × Bool)
  deriving DecidableEq

/-- The congestion window after a retransmission time-out. -/
def rtoCtl (mss : Nat) (ctl : Ctl) : Ctl :=
  let half := min ctl.cwnd ctl.sndWnd / 2
  { ctl with
    rtime := 0, ssthresh := if half < mss then mss * 2 % 2 ^ 16 else half, cwnd := mss }

def slowRexmit (c : Conn) (due : SlowTick) : Conn :=
  if c.pcb.ctl.persist then
    if due.persist then tcpZeroWindowProbe c else c
  else
    let c := { c with
      pcb.ctl.rtime := if 0 ≤ c.pcb.ctl.rtime then c.pcb.ctl.rtime + 1 else c.pcb.ctl.rtime }
    if c.pcb.snd.unacked ≠ [] ∧ 0 ≤ c.pcb.ctl.rtime ∧ due.rexmit then
      tcpRexmitRto { c with pcb.ctl := rtoCtl c.pcb.mss c.pcb.ctl }
    else c

def slowKeepalive (c : Conn) (due : SlowTick) : Conn :=
  if c.pcb.keepalive ∧ (c.pcb.state = .established ∨ c.pcb.state = .closeWait) ∧
      due.keepalive then tcpKeepalive c
  else c

def slowRemove (c : Conn) (reset : Bool) : Conn :=
  let c := { c with pcb := { tcpPcbPurge c.pcb with state := .closed } }
  if reset then tcpRst o c c.pcb.snd.sndNxt c.pcb.rcv.rcvNxt else c

def slowPoll (c : Conn) : Option (List AppOp × Bool) → Conn
  | none => c
  | some (ops, ok) =>
    let c := runAppOps o c ops
    if ok then (tcpOutput c).2 else c

/-- The body of the loop of tcp_slowtmr over the active connections. -/
def tcpSlowtmr (c : Conn) (due : SlowTick) : Conn :=
  let c := slowKeepalive (slowRexmit c due) due
  match due.remove with
  | some reset => slowRemove o c reset
  | none => slowPoll o c due.poll

/-- The body of its loop over the connections in TIME-WAIT that have stayed
there long enough. -/
def timeWaitOver (c : Conn) : Conn := { c with pcb := { tcpPcbPurge c.pcb with state := .closed } }

end Timers

end PopcornFirmware.Lwip.TcpPcb
