import PopcornFirmware.Lwip.TcpPcb

namespace PopcornFirmware.Lwip.TcpIn

open PopcornFirmware.Lib.CText PopcornFirmware.Lib.SeqNum PopcornFirmware.Lwip.Tcp
  PopcornFirmware.Lwip.TcpOut PopcornFirmware.Lwip.TcpPcb

variable (o : Opts)

/-- The incoming segment. -/
structure Inseg where
  p : Chain
  len : Nat
  tcphdr : TcpHdr
  deriving DecidableEq

def Inseg.tcplen (s : Inseg) : Nat :=
  s.len + if s.tcphdr.flags.fin ∨ s.tcphdr.flags.syn then 1 else 0

def Inseg.syms (s : Inseg) : List Sym := Tcp.syms s.p.bytes s.tcphdr.flags.fin

section Ack

def updateWindow (ctl : Ctl) (hdr : TcpHdr) : Ctl :=
  if seqLt ctl.sndWl1 hdr.seqno ∨ (ctl.sndWl1 = hdr.seqno ∧ seqLt ctl.sndWl2 hdr.ackno) ∨
      (ctl.sndWl2 = hdr.ackno ∧ ctl.sndWnd < hdr.wnd) then
    { ctl with
      sndWnd := hdr.wnd, sndWl1 := hdr.seqno, sndWl2 := hdr.ackno
      persist := ctl.persist && !decide (0 < hdr.wnd) }
  else ctl

/-- An ACK that does not acknowledge new data: it is a duplicate one when it
also passes the other clauses. -/
def oldAck (pcb : Pcb) (ackno : Seqno) (tcplen : Nat) (rightWndEdge : Seqno) : Pcb :=
  let pcb := { pcb with snd.acked := 0 }
  if tcplen = 0 ∧ pcb.ctl.sndWl2 + BitVec.ofNat 32 pcb.ctl.sndWnd = rightWndEdge ∧
      0 ≤ pcb.ctl.rtime ∧ pcb.snd.lastack = ackno then
    let pcb := { pcb with ctl.dupacks := (pcb.ctl.dupacks + 1) % 2 ^ 8 }
    if 3 < pcb.ctl.dupacks then
      let cwnd := (pcb.ctl.cwnd + pcb.mss) % 2 ^ 16
      if pcb.ctl.cwnd < cwnd then { pcb with ctl.cwnd := cwnd } else pcb
    else if pcb.ctl.dupacks = 3 then tcpRexmitFast pcb
    else pcb
  else { pcb with ctl.dupacks := 0 }

/-- The congestion window after an ACK for new data. -/
def growCwnd (mss : Nat) (ctl : Ctl) : Ctl :=
  let cwnd :=
    if ctl.cwnd < ctl.ssthresh then (ctl.cwnd + mss) % 2 ^ 16
    else (ctl.cwnd + mss * mss / ctl.cwnd) % 2 ^ 16
  if ctl.cwnd < cwnd then { ctl with cwnd := cwnd } else ctl

/-- The loops that remove acknowledged segments from the head of a queue, with
the byte count for the sent callback and the queue length. -/
def removeAcked (covered : Seg → Prop) [DecidablePred covered] :
    List Seg → Nat → Nat → List Seg × Nat × Nat
  | [], acked, queuelen => ([], acked, queuelen)
  | seg :: rest, acked, queuelen =>
    if covered seg then
      removeAcked covered rest (if acked ≠ 0 ∧ seg.tcphdr.flags.fin then acked - 1 else acked)
        ((queuelen + 2 ^ 16 - seg.p.length) % 2 ^ 16)
    else (seg :: rest, acked, queuelen)

def newAck (pcb : Pcb) (ackno : Seqno) : Pcb :=
  let cwnd := if pcb.flags.infr then pcb.ctl.ssthresh else pcb.ctl.cwnd
  let acked := (ackno - pcb.snd.lastack).toNat % 2 ^ 16
  let ctl := growCwnd pcb.mss { pcb.ctl with dupacks := 0, cwnd := cwnd }
  let (unacked, acked', queuelen) :=
    removeAcked (fun seg => seqLeq (seg.tcphdr.seqno + BitVec.ofNat 32 seg.tcplen) ackno)
      pcb.snd.unacked acked pcb.snd.sndQueuelen
  { pcb with
    flags.infr := false
    ctl := { ctl with rtime := if unacked = [] then -1 else 0 }
    snd.acked := acked'
    snd.sndBuf := (pcb.snd.sndBuf + acked) % 2 ^ 16
    snd.lastack := ackno
    snd.unacked := unacked
    snd.sndQueuelen := queuelen }

/-- Segments put back for retransmission may be acknowledged as well. -/
def ackUnsent (pcb : Pcb) (ackno : Seqno) : Pcb :=
  let (unsent, acked, queuelen) :=
    removeAcked (fun seg => seqBetween ackno (seg.tcphdr.seqno + BitVec.ofNat 32 seg.tcplen)
      pcb.snd.sndNxt) pcb.snd.unsent pcb.snd.acked pcb.snd.sndQueuelen
  { pcb with snd.unsent := unsent, snd.acked := acked, snd.sndQueuelen := queuelen }

/-- The part of tcp_receive for segments with the ACK flag. -/
def receiveAck (pcb : Pcb) (hdr : TcpHdr) (tcplen : Nat) : Pcb :=
  let rightWndEdge := BitVec.ofNat 32 pcb.ctl.sndWnd + pcb.ctl.sndWl2
  let pcb := { pcb with ctl := updateWindow pcb.ctl hdr }
  let pcb :=
    if seqLeq hdr.ackno pcb.snd.lastack then oldAck pcb hdr.ackno tcplen rightWndEdge
    else if seqBetween hdr.ackno (pcb.snd.lastack + 1) pcb.snd.sndNxt then newAck pcb hdr.ackno
    else { pcb with snd.acked := 0 }
  ackUnsent pcb hdr.ackno

end Ack

section Data

/-- A segment that starts before rcv_nxt and reaches beyond it loses its first
edge. -/
def trimFront (rcvNxt : Seqno) (inseg : Inseg) : Option Inseg :=
  let off := (rcvNxt - inseg.tcphdr.seqno).toNat
  (trimFirstEdge ((inseg.p.totLen + 2 ^ 16 - off) % 2 ^ 16) off inseg.p).map fun p =>
    { p := p, len := (inseg.len + 2 ^ 16 - off % 2 ^ 16) % 2 ^ 16,
      tcphdr := { inseg.tcphdr with seqno := rcvNxt } }

/-- A segment longer than the window loses what does not fit. -/
def trimEnd (rcvWnd : Nat) (inseg : Inseg) : Option Inseg :=
  if rcvWnd < inseg.tcplen then
    let len := if inseg.tcphdr.flags.syn then (rcvWnd + 2 ^ 16 - 1) % 2 ^ 16 else rcvWnd
    (pbufRealloc len inseg.p).map fun p =>
      { p := p, len := len, tcphdr := { inseg.tcphdr with flags.fin := false } }
  else some inseg

/-- The segment is the next in sequence. -/
def acceptSeg (c : Conn) (inseg : Inseg) : Conn :=
  let rcv := { c.pcb.rcv with
    rcvNxt := inseg.tcphdr.seqno + BitVec.ofNat 32 inseg.tcplen
    rcvWnd := (c.pcb.rcv.rcvWnd + 2 ^ 16 - inseg.tcplen) % 2 ^ 16 }
  let c := { c with
    received := c.received ++ inseg.syms
    pcb.rcv := (tcpUpdateRcvAnnWnd o c.pcb.mss rcv).2
    recvData := if 0 < inseg.p.totLen then some inseg.p else c.recvData
    recvFlags.gotFin := inseg.tcphdr.flags.fin || c.recvFlags.gotFin }
  tcpAck c

/-- The part of tcp_receive for segments with data or a FIN. -/
def receiveData (c : Conn) (inseg : Inseg) (tcplen : Nat) : Option Conn :=
  let rcvNxt := c.pcb.rcv.rcvNxt
  let seqno := inseg.tcphdr.seqno
  let trimmed : Option (Conn × Inseg) :=
    if seqBetween rcvNxt (seqno + 1) (seqno + BitVec.ofNat 32 tcplen - 1) then
      (trimFront rcvNxt inseg).map fun inseg => (c, inseg)
    else if seqLt seqno rcvNxt then some (tcpAckNow c, inseg)
    else some (c, inseg)
  trimmed.bind fun (c, inseg) =>
    if seqBetween inseg.tcphdr.seqno rcvNxt (rcvNxt + BitVec.ofNat 32 c.pcb.rcv.rcvWnd - 1) then
      if rcvNxt = inseg.tcphdr.seqno then
        (trimEnd c.pcb.rcv.rcvWnd inseg).map fun inseg => acceptSeg o c inseg
      else some (tcpSendEmptyAck c).2
    else some (tcpSendEmptyAck c).2

/-- The result is none when the chain of pbufs ends before it should. -/
def tcpReceive (c : Conn) (inseg : Inseg) : Option Conn :=
  let tcplen := inseg.tcplen
  let c := if inseg.tcphdr.flags.ack then
      { c with pcb := receiveAck c.pcb inseg.tcphdr tcplen } else c
  if 0 < tcplen then receiveData o c inseg tcplen
  else if seqBetween inseg.tcphdr.seqno c.pcb.rcv.rcvNxt
      (c.pcb.rcv.rcvNxt + BitVec.ofNat 32 c.pcb.rcv.rcvWnd - 1) then some c
  else some (tcpAckNow c)

end Data

section Process

/-- The connection moves on to TIME-WAIT. -/
def enterTimeWait (c : Conn) : Conn :=
  { c with pcb := { tcpPcbPurge c.pcb with state := .timeWait } }

/-- What tcp_process does in each state after tcp_receive. -/
def afterReceive (c : Conn) (hdr : TcpHdr) : Conn :=
  let finAcked := hdr.flags.ack = true ∧ hdr.ackno = c.pcb.snd.sndNxt
  match c.pcb.state with
  | .established | .closeWait =>
    if c.recvFlags.gotFin then { tcpAckNow c with pcb.state := .closeWait } else c
  | .finWait1 =>
    if c.recvFlags.gotFin then
      if finAcked then enterTimeWait (tcpAckNow c)
      else { tcpAckNow c with pcb.state := .closing }
    else if finAcked then { c with pcb.state := .finWait2 }
    else c
  | .finWait2 => if c.recvFlags.gotFin then enterTimeWait (tcpAckNow c) else c
  | .closing => if finAcked then enterTimeWait c else c
  | .lastAck => if finAcked then { c with recvFlags.closed := true } else c
  | .closed | .timeWait => c

def tcpProcess (c : Conn) (inseg : Inseg) : Option Conn :=
  let hdr := inseg.tcphdr
  if hdr.flags.rst then
    if seqBetween hdr.seqno c.pcb.rcv.rcvNxt
        (c.pcb.rcv.rcvNxt + BitVec.ofNat 32 c.pcb.rcv.rcvWnd) then
      some { c with recvFlags.reset := true, pcb.flags.ackDelay := false }
    else some c
  else if hdr.flags.syn then some (tcpAckNow c)
  else (tcpReceive o c inseg).map fun c => afterReceive c hdr

end Process

section Input

/-- What the application does in the callbacks made while a packet is processed:
with data it refused before, for acknowledged data, with new data, and at the
end of the stream. -/
structure Callbacks where
  refused : RecvCall
  sent : List AppOp
  recv : RecvCall
  eof : List AppOp
  deriving DecidableEq

def notifySent (c : Conn) (ops : List AppOp) : Conn :=
  if 0 < c.pcb.snd.acked then runAppOps o c ops else c

def notifyData (c : Conn) (call : RecvCall) : Conn :=
  match c.recvData with
  | none => c
  | some data =>
    match eventRecv o c call data with
    | (true, c) => { c with recvData := none }
    | (false, c) => { c with recvData := none, pcb.refusedData := some data }

def notifyEof (c : Conn) (ops : List AppOp) : Conn :=
  if c.recvFlags.gotFin then runAppOps o { c with eofs := c.eofs + 1 } ops else c

/-- The callbacks and the output after a packet has been processed. -/
def notify (c : Conn) (cb : Callbacks) : Conn :=
  let c := notifyEof o (notifyData o (notifySent o c cb.sent) cb.recv) cb.eof
  (tcpOutput { c with inputPcb := false }).2

def tcpTimewaitInput (c : Conn) (inseg : Inseg) : Conn :=
  let hdr := inseg.tcphdr
  if hdr.flags.rst then c
  else if hdr.flags.syn ∧ seqBetween hdr.seqno c.pcb.rcv.rcvNxt
      (c.pcb.rcv.rcvNxt + BitVec.ofNat 32 c.pcb.rcv.rcvWnd) then
    tcpRst o c hdr.ackno (hdr.seqno + BitVec.ofNat 32 inseg.tcplen)
  else if 0 < inseg.tcplen then (tcpOutput { c with pcb.flags.ackNow := true }).2
  else c

/-- A segment for an active connection. -/
def activeInput (c : Conn) (inseg : Inseg) (cb : Callbacks) : Option Conn :=
  match notifyRefused o { c with recvData := none, recvFlags := {} } cb.refused with
  | (false, c) => some c
  | (true, c) =>
    (tcpProcess o { c with inputPcb := true } inseg).map fun c =>
      let c :=
        if c.recvFlags.reset ∨ c.recvFlags.closed then tcpPcbRemove c else notify o c cb
      { c with inputPcb := false }

/-- The part of tcp_input from the demultiplexing of the segment on; without a
connection the answer is a reset. -/
def tcpInput (c : Conn) (hdr : TcpHdr) (p : Chain) (cb : Callbacks) : Option Conn :=
  let inseg : Inseg := { p := p, len := p.totLen, tcphdr := hdr }
  match c.pcb.state with
  | .closed =>
    if hdr.flags.rst then some c
    else some (tcpRst o c hdr.ackno (hdr.seqno + BitVec.ofNat 32 inseg.tcplen))
  | .timeWait => some (tcpTimewaitInput o c inseg)
  | _ => activeInput o c inseg cb

end Input

end PopcornFirmware.Lwip.TcpIn
