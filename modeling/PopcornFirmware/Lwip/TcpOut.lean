import PopcornFirmware.Lwip.Tcp

namespace PopcornFirmware.Lwip.TcpOut

open PopcornFirmware.Lib.CText PopcornFirmware.Lib.SeqNum PopcornFirmware.Lwip.Tcp

variable (o : Opts)

section Enqueue

/-- The pbufs of a segment with the given data, and the allocations left. -/
def segPbufs (copy : Bool) (data : Text) (mem : List Bool) : Option (List Text) × List Bool :=
  match alloc mem with
  | (false, mem) => (none, mem)
  | (true, mem) =>
    if copy then (some [data], mem)
    else if data = [] then (some [[]], mem)
    else match alloc mem with
      | (false, mem) => (none, mem)
      | (true, mem) => (some [[], data], mem)

/-- The loop of tcp_enqueue that breaks data up into segments, with the queue
length before it. The first round is made in any case; none is the jump to
memerr. A queue longer than its bound would also be too long for the check
against overflow. -/
def tcpEnqueueLoop (pcb : Pcb) (flags : HdrFlags) (copy : Bool) :
    Nat → Nat → Seqno → Text → Nat → List Bool → Option (List Seg × Nat) × List Bool
  | 0, _, _, _, _, mem => (none, mem)
  | rounds + 1, place, seqno, left, queuelen, mem =>
    match alloc mem with
    | (false, mem) => (none, mem)
    | (true, mem) =>
      match segPbufs copy (left.take pcb.mss) mem with
      | (none, mem) => (none, mem)
      | (some p, mem) =>
        if o.tcpSndQueuelen < queuelen + p.length then (none, mem)
        else
          let seg : Seg :=
            { p := p, len := (left.take pcb.mss).length,
              tcphdr := { seqno := seqno, ackno := 0, flags := flags, wnd := 0 }
              place := place }
          if left.drop pcb.mss = [] then (some ([seg], queuelen + p.length), mem)
          else
            match tcpEnqueueLoop pcb flags copy rounds (place + seg.len)
              (seqno + BitVec.ofNat 32 seg.len) (left.drop pcb.mss) (queuelen + p.length) mem with
            | (none, mem) => (none, mem)
            | (some (segs, queuelen), mem) => (some (seg :: segs, queuelen), mem)

/-- There is room in the last unsent segment for the first new one. -/
def canChain (pcb : Pcb) (flags : HdrFlags) (useg seg : Seg) : Prop :=
  useg.tcplen ≠ 0 ∧ ¬ (useg.tcphdr.flags.syn ∨ useg.tcphdr.flags.fin) ∧
    (¬ (flags.syn ∨ flags.fin) ∨ flags = { fin := true }) ∧
    useg.len + seg.len ≤ pcb.mss ∧
    useg.tcphdr.seqno + BitVec.ofNat 32 useg.len = seg.tcphdr.seqno

instance (pcb : Pcb) (flags : HdrFlags) (useg seg : Seg) :
    Decidable (canChain pcb flags useg seg) :=
  inferInstanceAs (Decidable (_ ∧ _ ∧ _ ∧ _ ∧ _))

/-- The pbufs of a segment without its header: a pbuf that held nothing else
is freed. -/
def dropHeader : List Text → List Text
  | [] => []
  | q :: qs => if q.length = 0 then qs else q :: qs

/-- The last unsent segment with the first new one chained to it. -/
def chainSeg (flags : HdrFlags) (useg seg : Seg) : Seg :=
  if flags.fin then
    { useg with tcphdr.flags.fin := true }
  else
    { useg with p := useg.p ++ dropHeader seg.p, len := useg.len + seg.len }

/-- The unsent queue with new segments at its end, and the number of pbufs
freed on the way. -/
def addToUnsent (pcb : Pcb) (flags : HdrFlags) (unsent : List Seg) : List Seg → List Seg × Nat
  | [] => (unsent, 0)
  | seg :: segs =>
    match unsent.getLast? with
    | none => (seg :: segs, 0)
    | some useg =>
      if canChain pcb flags useg seg then
        (unsent.dropLast ++ chainSeg flags useg seg :: segs,
          seg.p.length - (dropHeader seg.p).length)
      else (unsent ++ seg :: segs, 0)

def setPsh (seg : Seg) : Seg :=
  if 0 < seg.len then { seg with tcphdr.flags.psh := true } else seg

def memErr (c : Conn) : Err × Conn := (.mem, { c with pcb.flags.nagleMemErr := true })

def tcpEnqueue (c : Conn) (arg : Text) (flags : HdrFlags) (copy more : Bool) : Err × Conn :=
  if arg = [] ∧ ¬ (flags.syn ∨ flags.fin) then (.arg, c)
  else if c.pcb.snd.sndBuf < arg.length then memErr c
  else if o.tcpSndQueuelen ≤ c.pcb.snd.sndQueuelen then memErr c
  else
    match tcpEnqueueLoop o c.pcb flags copy (arg.length + 1) c.stream.length c.pcb.snd.sndLbb arg
      c.pcb.snd.sndQueuelen c.mem with
    | (none, mem) => memErr { c with mem := mem }
    | (some (queue, queuelen), mem) =>
      let added := addToUnsent c.pcb flags c.pcb.snd.unsent queue
      let len := arg.length + if flags.syn ∨ flags.fin then 1 else 0
      (.ok, { c with
        mem := mem
        stream := c.stream ++ syms arg flags.fin
        pcb.flags.fin := c.pcb.flags.fin || flags.fin
        pcb.snd.unsent := if more then added.1 else added.1.modifyLast setPsh
        pcb.snd.sndLbb := c.pcb.snd.sndLbb + BitVec.ofNat 32 len
        pcb.snd.sndBuf := (c.pcb.snd.sndBuf + 2 ^ 16 - len) % 2 ^ 16
        pcb.snd.sndQueuelen := queuelen - added.2 })

def tcpSendCtrl (c : Conn) (flags : HdrFlags) : Err × Conn := tcpEnqueue o c [] flags true false

def tcpWrite (c : Conn) (data : Text) (copy more : Bool) : Err × Conn :=
  match c.pcb.state with
  | .established | .closeWait =>
    if 0 < data.length then tcpEnqueue o c data {} copy more else (.ok, c)
  | _ => (.conn, c)

end Enqueue

section Output

def tcpOutputSetHeader (c : Conn) (seqno : Seqno) : TcpHdr × Conn :=
  ({ seqno := seqno, ackno := c.pcb.rcv.rcvNxt, flags := { ack := true },
     wnd := c.pcb.rcv.rcvAnnWnd },
   { c with pcb.rcv.rcvAnnRightEdge :=
      c.pcb.rcv.rcvNxt + BitVec.ofNat 32 c.pcb.rcv.rcvAnnWnd })

def tcpSendEmptyAck (c : Conn) : Err × Conn :=
  match alloc c.mem with
  | (false, mem) => (.buf, { c with mem := mem })
  | (true, mem) =>
    let c := { c with mem := mem, pcb.flags.ackDelay := false, pcb.flags.ackNow := false }
    let (tcphdr, c) := tcpOutputSetHeader c c.pcb.snd.sndNxt
    (.ok, ipOutput c ⟨tcphdr, []⟩)

def tcpDoOutputNagle (pcb : Pcb) : Prop :=
  pcb.snd.unacked = [] ∨ pcb.flags.nodelay ∨ pcb.flags.infr ∨
    match pcb.snd.unsent with
    | [] => False
    | [seg] => pcb.mss ≤ seg.len
    | _ :: _ :: _ => True

instance (pcb : Pcb) : Decidable (tcpDoOutputNagle pcb) := by
  unfold tcpDoOutputNagle
  split <;> infer_instance

def tcpOutputSegment (seg : Seg) (c : Conn) : Seg × Conn :=
  let seg := { seg with
    tcphdr.ackno := c.pcb.rcv.rcvNxt, tcphdr.wnd := c.pcb.rcv.rcvAnnWnd }
  let c := { c with
    pcb.rcv.rcvAnnRightEdge := c.pcb.rcv.rcvNxt + BitVec.ofNat 32 c.pcb.rcv.rcvAnnWnd
    pcb.ctl.rtime := if c.pcb.ctl.rtime = -1 then 0 else c.pcb.ctl.rtime }
  (seg, ipOutput c ⟨seg.tcphdr, seg.p.flatten⟩)

/-- The loop that keeps a queue sorted by sequence number. -/
def insertSeg (seg : Seg) : List Seg → List Seg
  | [] => [seg]
  | cur :: rest =>
    if seqLt cur.tcphdr.seqno seg.tcphdr.seqno then cur :: insertSeg seg rest
    else seg :: cur :: rest

def addToUnacked (seg : Seg) (unacked : List Seg) : List Seg :=
  match unacked.getLast? with
  | none => [seg]
  | some useg =>
    if seqLt seg.tcphdr.seqno useg.tcphdr.seqno then insertSeg seg unacked
    else unacked ++ [seg]

/-- How far a segment reaches beyond what is acknowledged. -/
def segReach (pcb : Pcb) (seg : Seg) : Nat :=
  (seg.tcphdr.seqno - pcb.snd.lastack + BitVec.ofNat 32 seg.len).toNat

/-- One round of the loop of tcp_output. -/
def outputRound (seg : Seg) (rest : List Seg) (c : Conn) : Conn :=
  let c := { c with pcb.snd.unsent := rest, pcb.flags.ackDelay := false, pcb.flags.ackNow := false }
  let (seg, c) := tcpOutputSegment { seg with tcphdr.flags.ack := true } c
  let sndNxt := seg.tcphdr.seqno + BitVec.ofNat 32 seg.tcplen
  { c with
    pcb.snd.sndNxt := if seqLt c.pcb.snd.sndNxt sndNxt then sndNxt else c.pcb.snd.sndNxt
    pcb.snd.unacked :=
      if 0 < seg.tcplen then addToUnacked seg c.pcb.snd.unacked else c.pcb.snd.unacked }

/-- The loop of tcp_output, from the segment at the head of the unsent queue on. -/
def tcpOutputLoop (wnd : Nat) : List Seg → Conn → Conn
  | [], c => c
  | seg :: rest, c =>
    if wnd < segReach c.pcb seg then c
    else if ¬ tcpDoOutputNagle c.pcb ∧ ¬ (c.pcb.flags.nagleMemErr ∨ c.pcb.flags.fin) then c
    else tcpOutputLoop wnd rest (outputRound seg rest c)

def setPersist (c : Conn) : Conn :=
  match c.pcb.snd.unsent with
  | [] => c
  | seg :: _ =>
    if ¬ c.pcb.ctl.persist ∧ c.pcb.ctl.sndWnd < segReach c.pcb seg then
      { c with pcb.ctl.persist := true }
    else c

/-- No data can be sent within the window. -/
def nothingToSend (wnd : Nat) (pcb : Pcb) : Prop :=
  ∀ seg ∈ pcb.snd.unsent.head?, wnd < segReach pcb seg

instance (wnd : Nat) (pcb : Pcb) : Decidable (nothingToSend wnd pcb) :=
  inferInstanceAs (Decidable (∀ _ ∈ _, _))

def tcpOutput (c : Conn) : Err × Conn :=
  if c.inputPcb then (.ok, c)
  else
    let wnd := min c.pcb.ctl.sndWnd c.pcb.ctl.cwnd
    if c.pcb.flags.ackNow ∧ nothingToSend wnd c.pcb then tcpSendEmptyAck c
    else
      let c := setPersist (tcpOutputLoop wnd c.pcb.snd.unsent c)
      (.ok, { c with pcb.flags.nagleMemErr := false })

def tcpAckNow (c : Conn) : Conn := (tcpOutput { c with pcb.flags.ackNow := true }).2

def tcpAck (c : Conn) : Conn :=
  if c.pcb.flags.ackDelay then
    (tcpOutput { c with pcb.flags.ackDelay := false, pcb.flags.ackNow := true }).2
  else { c with pcb.flags.ackDelay := true }

end Output

section Rexmit

def tcpRexmitRto (c : Conn) : Conn :=
  if c.pcb.snd.unacked = [] then c
  else
    (tcpOutput { c with
      pcb.snd.unsent := c.pcb.snd.unacked ++ c.pcb.snd.unsent, pcb.snd.unacked := [] }).2

def tcpRexmit (pcb : Pcb) : Pcb :=
  match pcb.snd.unacked with
  | [] => pcb
  | seg :: rest =>
    { pcb with snd.unacked := rest, snd.unsent := insertSeg seg pcb.snd.unsent }

def tcpRexmitFast (pcb : Pcb) : Pcb :=
  if pcb.snd.unacked ≠ [] ∧ ¬ pcb.flags.infr then
    let pcb := tcpRexmit pcb
    let half := if pcb.ctl.sndWnd < pcb.ctl.cwnd then pcb.ctl.sndWnd / 2 else pcb.ctl.cwnd / 2
    let ssthresh := if half < 2 * pcb.mss then 2 * pcb.mss % 2 ^ 16 else half
    { pcb with
      ctl.ssthresh := ssthresh, ctl.cwnd := (ssthresh + 3 * pcb.mss) % 2 ^ 16, flags.infr := true }
  else pcb

def tcpKeepalive (c : Conn) : Conn :=
  match alloc c.mem with
  | (false, mem) => { c with mem := mem }
  | (true, mem) =>
    let (tcphdr, c) := tcpOutputSetHeader { c with mem := mem } (c.pcb.snd.sndNxt - 1)
    ipOutput c ⟨tcphdr, []⟩

/-- The first segment that is not acknowledged; the byte sent with it is the
first one of its data. -/
def tcpZeroWindowProbe (c : Conn) : Conn :=
  match (c.pcb.snd.unacked ++ c.pcb.snd.unsent).head? with
  | none => c
  | some seg =>
    match alloc c.mem with
    | (false, mem) => { c with mem := mem }
    | (true, mem) =>
      let (tcphdr, c) := tcpOutputSetHeader { c with mem := mem } seg.tcphdr.seqno
      if seg.tcphdr.flags.fin ∧ seg.len = 0 then
        ipOutput c ⟨{ tcphdr with flags := { ack := true, fin := true } }, []⟩
      else ipOutput c ⟨tcphdr, seg.p.flatten.take 1⟩

end Rexmit

end PopcornFirmware.Lwip.TcpOut
