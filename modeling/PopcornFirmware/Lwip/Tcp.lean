import PopcornFirmware.Lib.CText
import PopcornFirmware.Lib.SeqNum

namespace PopcornFirmware.Lwip.Tcp

open PopcornFirmware.Lib.CText PopcornFirmware.Lib.SeqNum

abbrev Seqno := BitVec 32

/-- The options of lwipopts.h that the functions on a connection use. -/
structure Opts where
  tcpWnd : Nat
  tcpSndBuf : Nat
  tcpSndQueuelen : Nat
  tcpWnd_lt : tcpWnd < 2 ^ 16
  tcpSndBuf_lt : tcpSndBuf < 2 ^ 16 - 1
  tcpSndQueuelen_lt : tcpSndQueuelen < 2 ^ 16 - 3

namespace Opts

def tcpWndUpdateThreshold (o : Opts) : Nat := o.tcpWnd / 4

def standalone : Opts :=
  { tcpWnd := 2 * 1460, tcpSndBuf := 2 * 1460, tcpSndQueuelen := 4,
    tcpWnd_lt := by decide, tcpSndBuf_lt := by decide, tcpSndQueuelen_lt := by decide }

def working : Opts :=
  { tcpWnd := 2 * 1460, tcpSndBuf := 5 * 1460, tcpSndQueuelen := 20,
    tcpWnd_lt := by decide, tcpSndBuf_lt := by decide, tcpSndQueuelen_lt := by decide }

end Opts

section Types

inductive Err | ok | mem | buf | arg | conn
  deriving DecidableEq

/-- The states of a connection once the handshake is over. -/
inductive TcpState | closed | established | finWait1 | finWait2 | closeWait | closing | lastAck |
    timeWait
  deriving DecidableEq

structure HdrFlags where
  fin : Bool := false
  syn : Bool := false
  rst : Bool := false
  psh : Bool := false
  ack : Bool := false
  deriving DecidableEq

structure TcpHdr where
  seqno : Seqno
  ackno : Seqno
  flags : HdrFlags
  wnd : Nat
  deriving DecidableEq

/-- A segment on a send queue. Its pbufs are given by the data they hold, that
is without the headers in the first one. The place is a record of where in the
stream the segment starts, which no function looks at. -/
structure Seg where
  p : List Text
  len : Nat
  tcphdr : TcpHdr
  place : Nat
  deriving DecidableEq

def Seg.tcplen (seg : Seg) : Nat :=
  seg.len + if seg.tcphdr.flags.fin ∨ seg.tcphdr.flags.syn then 1 else 0

structure Packet where
  tcphdr : TcpHdr
  data : Text
  deriving DecidableEq

/-- A pbuf of a received packet. The payload has len bytes. -/
structure Rbuf where
  payload : Text
  totLen : Nat
  deriving DecidableEq

abbrev Chain := List Rbuf

def Chain.bytes (c : Chain) : Text := c.flatMap Rbuf.payload

def Chain.totLen : Chain → Nat
  | [] => 0
  | b :: _ => b.totLen

structure PcbFlags where
  ackDelay : Bool := false
  ackNow : Bool := false
  infr : Bool := false
  fin : Bool := false
  nodelay : Bool := false
  nagleMemErr : Bool := false
  deriving DecidableEq

/-- The receiver variables. -/
structure Rcv where
  rcvNxt : Seqno
  rcvWnd : Nat
  rcvAnnWnd : Nat
  rcvAnnRightEdge : Seqno
  deriving DecidableEq

/-- The variables that decide when a segment is sent. -/
structure Ctl where
  rtime : Int
  dupacks : Nat
  cwnd : Nat
  ssthresh : Nat
  sndWnd : Nat
  sndWl1 : Seqno
  sndWl2 : Seqno
  persist : Bool
  deriving DecidableEq

/-- The sender variables. -/
structure Snd where
  lastack : Seqno
  sndNxt : Seqno
  sndLbb : Seqno
  acked : Nat
  sndBuf : Nat
  sndQueuelen : Nat
  unsent : List Seg
  unacked : List Seg
  deriving DecidableEq

structure Pcb where
  state : TcpState
  flags : PcbFlags
  rcv : Rcv
  ctl : Ctl
  snd : Snd
  mss : Nat
  mss_pos : 0 < mss
  mss_lt : mss < 2 ^ 16
  refusedData : Option Chain
  keepalive : Bool
  deriving DecidableEq

structure RecvFlags where
  reset : Bool := false
  closed : Bool := false
  gotFin : Bool := false
  deriving DecidableEq

/-- What a connection carries in one direction. -/
inductive Sym | byte (b : UInt8) | fin
  deriving DecidableEq

def syms (data : Text) (fin : Bool) : List Sym := data.map .byte ++ if fin then [.fin] else []

def bytesOf (s : List Sym) : Text :=
  s.filterMap fun
    | .byte b => some b
    | .fin => none

def Seg.syms (seg : Seg) : List Sym := Tcp.syms seg.p.flatten seg.tcphdr.flags.fin

def Packet.syms (pkt : Packet) : List Sym := Tcp.syms pkt.data pkt.tcphdr.flags.fin

/-- A packet on the network, with how much its sender had enqueued and received
when it was sent. -/
structure Flight where
  packet : Packet
  sent : Nat
  heard : Nat
  deriving DecidableEq

/-- One end of a connection: its pcb, the static variables of tcp_in.c while a
packet is processed, the outcomes of the allocations to come (all succeed after
these), and the packets handed to ip_output. The last fields record what was
enqueued, received, and given to the application. -/
structure Conn where
  pcb : Pcb
  inputPcb : Bool
  recvData : Option Chain
  recvFlags : RecvFlags
  mem : List Bool
  out : List Flight
  stream : List Sym
  received : List Sym
  delivered : Text
  eofs : Nat
  deriving DecidableEq

end Types

def alloc : List Bool → Bool × List Bool
  | [] => (true, [])
  | b :: bs => (b, bs)

def ipOutput (c : Conn) (pkt : Packet) : Conn :=
  { c with out := c.out ++ [⟨pkt, c.stream.length, c.received.length⟩] }

def tcpUpdateRcvAnnWnd (o : Opts) (mss : Nat) (r : Rcv) : Nat × Rcv :=
  let newRightEdge := r.rcvNxt + BitVec.ofNat 32 r.rcvWnd
  if seqGeq newRightEdge (r.rcvAnnRightEdge + BitVec.ofNat 32 (min (o.tcpWnd / 2) mss)) then
    ((newRightEdge - r.rcvAnnRightEdge).toNat, { r with rcvAnnWnd := r.rcvWnd })
  else if seqGt r.rcvNxt r.rcvAnnRightEdge then (0, { r with rcvAnnWnd := 0 })
  else (0, { r with rcvAnnWnd := (r.rcvAnnRightEdge - r.rcvNxt).toNat % 2 ^ 16 })

section Chains

/-- A chain as the driver and the pbuf functions build it: every pbuf counts
the bytes from it on. -/
def Chain.WellFormed : Chain → Prop
  | [] => True
  | b :: bs => b.totLen = b.payload.length + (Chain.bytes bs).length ∧ Chain.WellFormed bs

instance Chain.decidableWellFormed : ∀ c : Chain, Decidable c.WellFormed
  | [] => .isTrue trivial
  | _ :: bs =>
    haveI := Chain.decidableWellFormed bs
    inferInstanceAs (Decidable (_ ∧ _))

/-- The loop that trims the first edge of a segment, and the pbuf_header call
after it. The result is none when the chain ends before the offset. -/
def trimFirstEdge (newTotLen : Nat) : Nat → Chain → Option Chain
  | _, [] => none
  | off, b :: bs =>
    if b.payload.length < off then
      (trimFirstEdge newTotLen (off - b.payload.length) bs).map
        ({ payload := [], totLen := newTotLen } :: ·)
    else some ({ payload := b.payload.drop off, totLen := b.totLen - off } :: bs)

/-- The pbufs that pbuf_realloc keeps. The result is none when the chain ends
before the new length. -/
def pbufReallocLoop (shrink : Nat) : Nat → Chain → Option Chain
  | _, [] => none
  | remLen, b :: bs =>
    if b.payload.length < remLen then
      (pbufReallocLoop shrink (remLen - b.payload.length) bs).map
        ({ b with totLen := b.totLen - shrink } :: ·)
    else some [{ payload := b.payload.take remLen, totLen := remLen }]

def pbufRealloc (newLen : Nat) (p : Chain) : Option Chain :=
  if p.totLen ≤ newLen then some p else pbufReallocLoop (p.totLen - newLen) newLen p

variable {c : Chain}

@[simp] theorem Chain.bytes_cons (b : Rbuf) (c : Chain) :
    Chain.bytes (b :: c) = b.payload ++ c.bytes := List.flatMap_cons

theorem Chain.wellFormed_nil : Chain.WellFormed [] := trivial

theorem Chain.wellFormed_cons {b : Rbuf} {c : Chain} :
    Chain.WellFormed (b :: c) ↔
      b.totLen = b.payload.length + c.bytes.length ∧ c.WellFormed := Iff.rfl

theorem Chain.WellFormed.totLen_eq (h : c.WellFormed) : c.totLen = c.bytes.length := by
  cases c with
  | nil => rfl
  | cons b bs => simpa [Chain.totLen] using h.1

theorem trimFirstEdge_spec {off : Nat} (h : c.WellFormed) (hne : c ≠ [])
    (hoff : off ≤ c.bytes.length) :
    ∃ c', trimFirstEdge (c.bytes.length - off) off c = some c' ∧ c'.WellFormed ∧ c' ≠ [] ∧
      c'.bytes = c.bytes.drop off := by
  induction c generalizing off with
  | nil => exact absurd rfl hne
  | cons b bs ih =>
    obtain ⟨htot, hbs⟩ := h
    rw [Chain.bytes_cons, List.length_append] at hoff
    by_cases hlt : b.payload.length < off
    · have hbne : bs ≠ [] := by
        rintro rfl
        simp only [Chain.bytes, List.flatMap_nil, List.length_nil] at hoff
        omega
      have hrest : off - b.payload.length ≤ (Chain.bytes bs).length := by omega
      obtain ⟨c', hc', hwf, -, hbytes⟩ := ih hbs hbne hrest
      have hlen : (Chain.bytes (b :: bs)).length - off =
          (Chain.bytes bs).length - (off - b.payload.length) := by
        rw [Chain.bytes_cons, List.length_append]
        omega
      refine ⟨_, by rw [trimFirstEdge, if_pos hlt, hlen, hc', Option.map_some],
        Chain.wellFormed_cons.mpr ⟨?_, hwf⟩, List.cons_ne_nil _ _, ?_⟩
      · rw [hbytes, List.length_drop, List.length_nil, Nat.zero_add]
      · rw [Chain.bytes_cons, Chain.bytes_cons, hbytes, List.drop_append,
          List.drop_eq_nil_of_le hlt.le]
    · refine ⟨_, by rw [trimFirstEdge, if_neg hlt], Chain.wellFormed_cons.mpr ⟨?_, hbs⟩,
        List.cons_ne_nil _ _, ?_⟩
      · rw [htot, List.length_drop]
        dsimp only
        omega
      · rw [Chain.bytes_cons, Chain.bytes_cons, List.drop_append_of_le_length (by omega)]

theorem pbufRealloc_spec {n : Nat} (h : c.WellFormed) (hne : c ≠ []) :
    ∃ c', pbufRealloc n c = some c' ∧ c'.WellFormed ∧ c' ≠ [] ∧ c'.bytes = c.bytes.take n := by
  have hloop : ∀ {c : Chain} {n : Nat}, c.WellFormed → c ≠ [] → n ≤ c.bytes.length →
      ∃ c', pbufReallocLoop (c.bytes.length - n) n c = some c' ∧ c'.WellFormed ∧ c' ≠ [] ∧
        c'.bytes = c.bytes.take n := by
    intro c
    induction c with
    | nil => exact fun _ hne => absurd rfl hne
    | cons b bs ih =>
      rintro n ⟨htot, hbs⟩ - hn
      rw [Chain.bytes_cons, List.length_append] at hn
      by_cases hlt : b.payload.length < n
      · have hbne : bs ≠ [] := by
          rintro rfl
          simp only [Chain.bytes, List.flatMap_nil, List.length_nil] at hn
          omega
        obtain ⟨c', hc', hwf, -, hbytes⟩ := ih (n := n - b.payload.length) hbs hbne (by omega)
        have hlen : (Chain.bytes (b :: bs)).length - n =
            (Chain.bytes bs).length - (n - b.payload.length) := by
          rw [Chain.bytes_cons, List.length_append]
          omega
        refine ⟨_, by rw [pbufReallocLoop, if_pos hlt, hlen, hc', Option.map_some],
          Chain.wellFormed_cons.mpr ⟨?_, hwf⟩, List.cons_ne_nil _ _, ?_⟩
        · rw [hbytes, List.length_take, htot]
          dsimp only
          omega
        · rw [Chain.bytes_cons, Chain.bytes_cons, hbytes, List.take_append,
            List.take_of_length_le hlt.le]
      · have hle : n ≤ b.payload.length := by omega
        refine ⟨_, by rw [pbufReallocLoop, if_neg hlt],
          Chain.wellFormed_cons.mpr ⟨?_, Chain.wellFormed_nil⟩, List.cons_ne_nil _ _, ?_⟩
        · simpa [Chain.bytes] using hle
        · simp [Chain.bytes, List.take_append_of_le_length hle]
  unfold pbufRealloc
  rw [h.totLen_eq]
  split
  · rename_i hle
    exact ⟨c, rfl, h, hne, (List.take_of_length_le hle).symm⟩
  · exact hloop h hne (by omega)

end Chains

end PopcornFirmware.Lwip.Tcp
