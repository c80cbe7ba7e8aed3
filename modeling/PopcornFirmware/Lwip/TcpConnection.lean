import PopcornFirmware.Lib.Runs
import PopcornFirmware.Lwip.TcpInput

namespace PopcornFirmware.Lwip.TcpConnection

open PopcornFirmware.Lib.CText PopcornFirmware.Lib.SeqNum PopcornFirmware.Lib.Runs
  PopcornFirmware.Lib.Intervals PopcornFirmware.Lwip.Tcp PopcornFirmware.Lwip.TcpOut
  PopcornFirmware.Lwip.TcpPcb PopcornFirmware.Lwip.TcpIn PopcornFirmware.Lwip.TcpQueue
  PopcornFirmware.Lwip.TcpConn PopcornFirmware.Lwip.TcpApp PopcornFirmware.Lwip.TcpRecv
  PopcornFirmware.Lwip.TcpInput

section Model

/-- What happens at one end of a connection. -/
inductive Event
  | app (op : AppOp)
  | fasttmr (call : RecvCall)
  | slowtmr (due : SlowTick)
  | timeWaitOver
  | abandon (reset : Bool)
  | packet (f : Flight) (p : Chain) (cb : Callbacks)
  deriving DecidableEq

def runEvent (o : Opts) (c : Conn) : Event → Option Conn
  | .app op => some (runAppOp o c op)
  | .fasttmr call => some (tcpFasttmr o c call)
  | .slowtmr due => some (tcpSlowtmr o c due)
  | .timeWaitOver => some (timeWaitOver c)
  | .abandon reset => some (tcpAbandon o c reset)
  | .packet f p cb => tcpInput o c f.packet.tcphdr p cb

inductive Side | a | b
  deriving DecidableEq

def Side.other : Side → Side
  | .a => .b
  | .b => .a

/-- The two ends of a connection, and the packets that each has ever sent. The
network may deliver any of them at any time, or never. -/
structure Net where
  conn : Side → Conn
  sent : Side → List Flight

/-- An event at one end, with the outcomes of the allocations made there. -/
structure Label where
  side : Side
  mem : List Bool
  event : Event
  deriving DecidableEq

def netStep (o : Side → Opts) (n : Net) (l : Label) : Option Net :=
  (runEvent (o l.side) { n.conn l.side with mem := l.mem, out := [] } l.event).map fun c =>
    { conn := Function.update n.conn l.side c
      sent := Function.update n.sent l.side (n.sent l.side ++ c.out) }

/-- A packet that has not been on the network for so long that an end has
enqueued 2^30 more since. -/
def Fresh (n : Net) (x : Side) (f : Flight) : Prop :=
  (n.conn x).stream.length < f.sent + 2 ^ 30 ∧ (n.conn x.other).stream.length < f.heard + 2 ^ 30

/-- The timers only see connections that are not closed, and the application
does not use its connection any more when it is. -/
def Allowed (n : Net) (l : Label) : Prop :=
  match l.event with
  | .app _ | .abandon _ => (n.conn l.side).pcb.state ≠ .closed
  | .fasttmr _ | .slowtmr _ => Alive (n.conn l.side).pcb.state
  | .timeWaitOver => (n.conn l.side).pcb.state = .timeWait
  | .packet f p _ => f ∈ n.sent l.side.other ∧ Fresh n l.side.other f ∧
      p.WellFormed ∧ p ≠ [] ∧ p.bytes = f.packet.data

instance (n : Net) (x : Side) (f : Flight) : Decidable (Fresh n x f) :=
  inferInstanceAs (Decidable (_ ∧ _))

instance (n : Net) (l : Label) : Decidable (Allowed n l) := by
  unfold Allowed Alive
  split <;> infer_instance

/-- A packet of the handshake. -/
def Handshake (base peer : Seqno) (f : Flight) : Prop :=
  f.packet.tcphdr.wnd < 2 ^ 16 ∧ (f.packet.tcphdr.flags.syn = true ∨
    ∃ wnd, f = ⟨⟨⟨base, peer, { ack := true }, wnd⟩, []⟩, 0, 0⟩)

/-- An end of a connection when the handshake is over. -/
structure StartConn (o : Opts) (base peer : Seqno) (c : Conn) : Prop where
  state : c.pcb.state = .established
  snd : c.pcb.snd = ⟨base, base, base, 0, o.tcpSndBuf, 0, [], []⟩
  rcvNxt : c.pcb.rcv.rcvNxt = peer
  wnds : c.pcb.ctl.sndWnd < 2 ^ 16 ∧ c.pcb.rcv.rcvWnd < 2 ^ 16 ∧ c.pcb.rcv.rcvAnnWnd < 2 ^ 16
  refusedData : c.pcb.refusedData = none
  inputPcb : c.inputPcb = false
  out : c.out = []
  stream : c.stream = []
  received : c.received = []
  delivered : c.delivered = []
  eofs : c.eofs = 0

structure Start (o : Side → Opts) (iss : Side → Seqno) (n : Net) : Prop where
  conn : ∀ x, StartConn (o x) (iss x) (iss x.other) (n.conn x)
  sent : ∀ x, ∀ f ∈ n.sent x, Handshake (iss x) (iss x.other) f

/-- A connection that has just been accepted or made, with the windows that the
two ends have told each other. -/
def openConn (o : Opts) (base peer : Seqno) (sndWnd mss : Nat) (hpos : 0 < mss)
    (hlt : mss < 2 ^ 16) : Conn where
  pcb :=
    { state := .established
      flags := {}
      rcv := ⟨peer, o.tcpWnd, o.tcpWnd, peer + BitVec.ofNat 32 o.tcpWnd⟩
      ctl := ⟨-1, 0, 2 * mss, 10 * mss, sndWnd, peer, base, false⟩
      snd := ⟨base, base, base, 0, o.tcpSndBuf, 0, [], []⟩
      mss := mss, mss_pos := hpos, mss_lt := hlt, refusedData := none, keepalive := false }
  inputPcb := false
  recvData := none
  recvFlags := {}
  mem := []
  out := []
  stream := []
  received := []
  delivered := []
  eofs := 0

end Model

variable {o : Opts} {base peer : Seqno} {c c' : Conn} {s : List Sym} {una : Nat}

section Events

theorem slowRexmit_emits (c : Conn) (due : SlowTick) :
    Emits o base peer una c (slowRexmit c due) := by
  have hrto : ∀ d : Conn, Emits o base peer una d
      (if d.pcb.snd.unacked ≠ [] ∧ 0 ≤ d.pcb.ctl.rtime ∧ due.rexmit then
        tcpRexmitRto { d with pcb.ctl := rtoCtl d.pcb.mss d.pcb.ctl }
      else d) := by
    intro d
    split
    · refine .trans ?_ (tcpRexmitRto_emits _)
      exact quiet_emits rfl rfl rfl rfl (by constructor <;> rfl)
    · exact Emits.refl d
  unfold slowRexmit
  split
  · split
    · exact tcpZeroWindowProbe_emits c
    · exact Emits.refl c
  · refine .trans ?_ (hrto _)
    exact quiet_emits rfl rfl rfl rfl (by constructor <;> rfl)

theorem slowKeepalive_emits (c : Conn) (due : SlowTick) :
    Emits o base peer una c (slowKeepalive c due) := by
  unfold slowKeepalive
  split
  · exact tcpKeepalive_emits c
  · exact Emits.refl c

theorem slowRemove_ok (reset : Bool) (h : ConnOk o base peer s una [] false c) :
    EventOk o base peer s una c (slowRemove o c reset) := by
  unfold slowRemove
  dsimp only
  split
  · exact { h.close.event_of_emits (tcpRst_emits _ _ _) with }
  · exact { h.close.event_of_emits (Emits.refl _) with }

theorem slowPoll_works (c : Conn) (poll : Option (List AppOp × Bool)) :
    Works o base peer una c (slowPoll o c poll) := by
  unfold slowPoll
  split
  · exact Works.refl c
  · dsimp only
    split
    · exact (runAppOps_works _ c).trans (works_of_emits (tcpOutput_emits _))
    · exact runAppOps_works _ c

theorem tcpSlowtmr_ok (due : SlowTick) (h : ConnOk o base peer s una [] false c) :
    EventOk o base peer s una c (tcpSlowtmr o c due) := by
  have hsend := h.event_of_emits ((slowRexmit_emits c due).trans (slowKeepalive_emits _ due))
  unfold tcpSlowtmr
  dsimp only
  split
  · exact hsend.trans (slowRemove_ok _ hsend.conn)
  · exact hsend.trans (hsend.conn.event_of_works (slowPoll_works _ _))

theorem tcpFasttmr_ok (call : RecvCall) (h : ConnOk o base peer s una [] false c)
    (hst : c.pcb.state ≠ .closed) : EventOk o base peer s una c (tcpFasttmr o c call) := by
  obtain ⟨taken, c₁, heq⟩ : ∃ taken c₁, notifyRefused o c call = (taken, c₁) := ⟨_, _, rfl⟩
  have hev := (notifyRefused_ok call h hst heq).1
  unfold tcpFasttmr
  rw [heq]
  dsimp only
  split
  · refine hev.trans (hev.conn.event_of_emits (.trans (tcpAckNow_emits _) ?_))
    exact quiet_emits rfl rfl rfl rfl (by constructor <;> rfl)
  · exact hev

theorem timeWaitOver_ok (h : ConnOk o base peer s una [] false c) :
    EventOk o base peer s una c (timeWaitOver c) :=
  { h.close.event_of_emits (Emits.refl _) with }

theorem tcpAbandon_ok (reset : Bool) (h : ConnOk o base peer s una [] false c)
    (hst : c.pcb.state ≠ .closed) : EventOk o base peer s una c (tcpAbandon o c reset) := by
  have hrem := tcpPcbRemove_ok h hst
  unfold tcpAbandon
  split
  · exact hrem
  · dsimp only
    split
    · exact hrem.trans (hrem.conn.event_of_emits (tcpRst_emits _ _ _))
    · exact hrem

theorem startConn_ok (h : StartConn o base peer c) (s : List Sym) :
    ConnOk o base peer s 0 [] false c := by
  have hst := h.state
  refine ⟨⟨0, ?_⟩, ?_⟩
  · refine
      { snd := ?_, rcvNxt := ?_, sndWnd_lt := h.wnds.1, rcvWnd_lt := h.wnds.2.1,
        rcvAnnWnd_lt := h.wnds.2.2, opened := fun _ => ?_, shape := ⟨[], false, h.stream⟩,
        out := ?_ }
    · rw [h.stream, h.snd]
      refine
        { lastack := pos_zero.symm, sndNxt := pos_zero.symm, sndLbb := pos_zero.symm,
          una_le := le_refl _, nxt_le := le_refl _, buf := ?_, queuelen := ?_, queuelen_le := ?_,
          segs := by simp, packed := .nil 0, covers := ?_, sorted := .nil, sent := by simp,
          order := .nil, recent := by simp }
      · have hlt := o.tcpSndBuf_lt
        exact ⟨by simp, by simp; omega, by dsimp only; omega⟩
      · exact ⟨le_refl _, fun _ => rfl⟩
      · exact Nat.zero_le _
      · exact fun _ i _ hi => absurd hi (Nat.not_lt_zero i)
    · rw [h.rcvNxt, h.received]
      exact pos_zero.symm
    · rw [h.stream]
      simp
    · rw [h.out]
      simp
  · refine
      { prefixed := h.received ▸ List.nil_prefix, peerDone := fun _ => ?_,
        closing := fun _ hw => absurd (.inl hst) hw, kept := fun _ => ?_, told := ?_,
        eofs := fun _ => ?_, eofs_le := ?_ }
    · rw [hst, h.received]
      simp [PeerDone]
    · rw [h.received, h.delivered, h.refusedData]
      rfl
    · rw [h.received, h.delivered]
      rfl
    · rw [h.received, h.eofs]
      rfl
    · rw [h.received, h.eofs]
      rfl

end Events

section Net

variable {o : Side → Opts} {iss : Side → Seqno} {n n' : Net} {x : Side} {l : Label} {f : Flight}

@[simp] theorem Side.other_other (x : Side) : x.other.other = x := by cases x <;> rfl

theorem Side.other_ne (x : Side) : x.other ≠ x := by cases x <;> decide

/-- Both ends are in order, nothing is acknowledged that the other end has not
received, and every packet on the network tells the truth. -/
structure NetOk (o : Side → Opts) (iss : Side → Seqno) (n : Net) : Prop where
  ends : ∀ x, ∃ una, una ≤ (n.conn x.other).received.length ∧
    ConnOk (o x) (iss x) (iss x.other) (n.conn x.other).stream una [] false (n.conn x)
  sent : ∀ x, ∀ f ∈ n.sent x,
    FlightOk (iss x) (iss x.other) (n.conn x).stream (n.conn x).received f

/-- A fresh packet of the other end, as the connection sees it. -/
theorem NetOk.incoming (h : NetOk o iss n) (hmem : f ∈ n.sent x.other) (hfresh : Fresh n x.other f)
    {p : Chain} (hwf : p.WellFormed) (hne : p ≠ []) (hp : p.bytes = f.packet.data)
    (hrst : f.packet.tcphdr.flags.rst = false) (hsyn : f.packet.tcphdr.flags.syn = false)
    (hconn : ConnOk (o x) (iss x) (iss x.other) (n.conn x.other).stream una [] false (n.conn x)) :
    Incoming (iss x) (iss x.other) (n.conn x.other).stream (n.conn x) una f.heard
      { p := p, len := p.totLen, tcphdr := f.packet.tcphdr } := by
  have hflight := h.sent x.other f hmem
  rw [Side.other_other] at hflight
  have hdata := hflight.data hrst hsyn
  obtain ⟨una', huna', hother⟩ := h.ends x.other
  rw [Side.other_other] at huna' hother
  obtain ⟨hsent, hheard⟩ := hfresh
  rw [Side.other_other] at hheard
  obtain ⟨k, hseq, hk, hsent', hslice⟩ := hdata.place
  have hmine := hconn.stream_le
  have htheirs := hother.stream_le
  have hrecv := hconn.recv.prefixed.length_le
  have htold := hother.recv.prefixed.length_le
  have hheard_le := hdata.heard_le
  exact
    { seg := ⟨k,
        { seqno := hseq, syn := hsyn, wellFormed := hwf, ne := hne, len_eq := hwf.totLen_eq
          len_lt := by
            dsimp only
            rw [hwf.totLen_eq, hp]
            exact hdata.data_lt
          slice := by
            unfold Inseg.syms
            dsimp only
            rw [hp]
            exact hslice },
        by omega, by omega⟩
      ack := hdata.ack
      ackno := hdata.ackno
      ackno_le := by omega
      recent := by omega
      wnd_lt := hflight.wnd_lt }

theorem runEvent_ok (h : NetOk o iss n) (hal : Allowed n l) :
    ∃ c' una',
      runEvent (o l.side) { n.conn l.side with mem := l.mem, out := [] } l.event = some c' ∧
      una' ≤ (n.conn l.side.other).received.length ∧
      EventOk (o l.side) (iss l.side) (iss l.side.other) (n.conn l.side.other).stream una'
        (n.conn l.side) c' := by
  obtain ⟨side, mem, event⟩ := l
  dsimp only at hal ⊢
  obtain ⟨una, huna, hconn⟩ := h.ends side
  have h₀ : ConnOk (o side) (iss side) (iss side.other) (n.conn side.other).stream una [] false
      { n.conn side with mem := mem, out := [] } := by
    obtain ⟨nxt, hok⟩ := hconn.send
    exact ⟨⟨nxt, { hok with out := by simp }⟩, { hconn.recv with }⟩
  cases event with
  | app op => exact ⟨_, una, rfl, huna, { h₀.event_of_works (runAppOp_works _ op) with }⟩
  | fasttmr call => exact ⟨_, una, rfl, huna, { tcpFasttmr_ok call h₀ hal.1 with }⟩
  | slowtmr due => exact ⟨_, una, rfl, huna, { tcpSlowtmr_ok due h₀ with }⟩
  | timeWaitOver => exact ⟨_, una, rfl, huna, { timeWaitOver_ok h₀ with }⟩
  | abandon reset => exact ⟨_, una, rfl, huna, { tcpAbandon_ok reset h₀ hal with }⟩
  | packet f p cb =>
    obtain ⟨hmem, hfresh, hwf, hne, hp⟩ := hal
    obtain ⟨j, hj, hin⟩ : ∃ j ≤ (n.conn side.other).received.length,
        f.packet.tcphdr.flags.rst = false → f.packet.tcphdr.flags.syn = false →
        Incoming (iss side) (iss side.other) (n.conn side.other).stream (n.conn side) una j
          { p := p, len := p.totLen, tcphdr := f.packet.tcphdr } := by
      by_cases hplain : f.packet.tcphdr.flags.rst = false ∧ f.packet.tcphdr.flags.syn = false
      · have hdata := (h.sent side.other f hmem).data hplain.1 hplain.2
        exact ⟨f.heard, hdata.heard_le, fun hrst hsyn =>
          h.incoming hmem hfresh hwf hne hp hrst hsyn hconn⟩
      · exact ⟨una, huna, fun hrst hsyn => absurd ⟨hrst, hsyn⟩ hplain⟩
    obtain ⟨c', una', heq, hacked, hev⟩ := tcpInput_ok f.packet.tcphdr p cb h₀ fun hrst hsyn =>
      (hin hrst hsyn).grows (List.prefix_refl _) rfl
    refine ⟨c', una', heq, ?_, { hev with }⟩
    obtain rfl | ⟨-, rfl⟩ := hacked
    · exact huna
    · exact hj

/-- Every event that can happen is processed to its end, and keeps the
connection in order. -/
theorem netStep_ok (h : NetOk o iss n) (hal : Allowed n l) :
    ∃ n', netStep o n l = some n' ∧ NetOk o iss n' := by
  obtain ⟨c', una', heq, huna, hev⟩ := runEvent_ok h hal
  obtain ⟨side, mem, event⟩ := l
  dsimp only at heq huna hev
  refine ⟨_, by rw [netStep, heq]; rfl, fun x => ?_, fun x => ?_⟩
  · by_cases hx : x = side
    · subst hx
      refine ⟨una', ?_, ?_⟩
      · simpa [x.other_ne] using huna
      · simpa [x.other_ne] using hev.conn
    · have hother : x.other = side := by
        cases x <;> cases side <;> first | rfl | exact absurd rfl hx
      obtain ⟨una, hle, hconn⟩ := h.ends x
      rw [hother] at hle hconn
      refine ⟨una, ?_, ?_⟩
      · simpa [hother] using hle.trans hev.received.length_le
      · obtain ⟨hsend, hrecv⟩ := hconn
        simpa [hother, hx] using ConnOk.mk hsend (hrecv.mono hev.stream)
  · intro f hf
    by_cases hx : x = side
    · subst hx
      simp only [Function.update_self] at hf ⊢
      obtain hf | hf := List.mem_append.mp hf
      · exact (h.sent x f hf).mono hev.stream hev.received
      · obtain ⟨nxt, hok⟩ := hev.conn.send
        exact hok.out f hf
    · simp only [Function.update_of_ne hx] at hf ⊢
      exact h.sent x f hf

theorem start_ok (h : Start o iss n) : NetOk o iss n := by
  refine ⟨fun x => ⟨0, Nat.zero_le _, startConn_ok (h.conn x) _⟩, fun x f hf => ?_⟩
  obtain ⟨hwnd, hkind⟩ := h.sent x f hf
  have hstream := (h.conn x).stream
  have hreceived := (h.conn x).received
  rw [hstream, hreceived]
  refine ⟨hwnd, fun _ hsyn => ?_⟩
  obtain hsyn' | ⟨wnd, rfl⟩ := hkind
  · rw [hsyn'] at hsyn
    cases hsyn
  · exact
      { syn := rfl, ack := rfl, ackno := pos_zero.symm, heard_le := le_refl _,
        sent_le := le_refl _, data_lt := by simp,
        place := ⟨0, pos_zero.symm, by simp, by simp, .inl rfl⟩ }

end Net

section Properties

variable (o : Side → Opts) (iss : Side → Seqno) (n : Net)

/-- An application is given what the other end has written, in order and only
once. All that is acknowledged has been given to it, or is kept for it. -/
def Delivers : Prop :=
  ∀ x, (n.conn x).delivered <+: bytesOf (n.conn x.other).stream ∧
    ((n.conn x).pcb.state ≠ .closed → ∃ r ≤ (n.conn x.other).stream.length,
      (n.conn x).pcb.rcv.rcvNxt = pos (iss x.other) r ∧
      bytesOf ((n.conn x.other).stream.take r) =
        (n.conn x).delivered ++ held (n.conn x).pcb.refusedData)

/-- An application hears of the end of the stream at most once, and then the
other end has closed its side, and nothing that it wrote is missing. -/
def EofAfterAll : Prop :=
  ∀ x, (n.conn x).eofs ≤ 1 ∧
    (0 < (n.conn x).eofs → ∃ data, (n.conn x.other).stream = syms data true ∧
      ((n.conn x).pcb.state ≠ .closed →
        (n.conn x).delivered ++ held (n.conn x).pcb.refusedData = data))

/-- As long as a connection is alive, every part of its stream that is not
acknowledged is in one segment on its queues, and in no more than one. When the
queues are empty everything has been received. -/
def KeepsUnacked : Prop :=
  ∀ x, Alive (n.conn x).pcb.state →
    ∃ una ≤ (n.conn x.other).received.length, (n.conn x).pcb.snd.lastack = pos (iss x) una ∧
      (∀ i, una ≤ i → i < (n.conn x).stream.length → ∃ seg,
        ((n.conn x).pcb.snd.unacked ++ (n.conn x).pcb.snd.unsent).filter
          (fun seg => seg.place ≤ i ∧ i < stop seg) = [seg] ∧
        seg.tcphdr.seqno = pos (iss x) seg.place ∧
        seg.syms[i - seg.place]? = (n.conn x).stream[i]?) ∧
      ((n.conn x).pcb.snd.unacked = [] → (n.conn x).pcb.snd.unsent = [] →
        (n.conn x.other).received = (n.conn x).stream)

/-- The queue length counts the pbufs on the queues, and the buffer space is
what the octets that are not acknowledged leave. Only a FIN finds room when
there is none. -/
def Accounts : Prop :=
  ∀ x, Alive (n.conn x).pcb.state →
    (n.conn x).pcb.snd.sndQueuelen =
      pbufCount ((n.conn x).pcb.snd.unacked ++ (n.conn x).pcb.snd.unsent) ∧
    (n.conn x).pcb.snd.sndQueuelen ≤ (o x).tcpSndQueuelen ∧
    ∃ una ≤ (n.conn x).stream.length, (n.conn x).pcb.snd.lastack = pos (iss x) una ∧
      (n.conn x).stream.length - una ≤ (o x).tcpSndBuf +
        (if .fin ∈ (n.conn x).stream then 1 else 0) ∧
      ((n.conn x).pcb.snd.sndBuf + ((n.conn x).stream.length - una)) % 2 ^ 16 = (o x).tcpSndBuf

/-- The state of a connection tells whether its FIN is in the stream, and whether
that of the other end has been received and the application has heard of it. -/
def StatesAgree : Prop :=
  ∀ x, (n.conn x).pcb.state ≠ .closed →
    (PeerDone (n.conn x).pcb.state ↔ .fin ∈ (n.conn x).received) ∧
    (PeerDone (n.conn x).pcb.state ↔ 0 < (n.conn x).eofs) ∧
    (Alive (n.conn x).pcb.state → (Writable (n.conn x).pcb.state ↔ .fin ∉ (n.conn x).stream))

/-- Whatever an end sends, or sends again, is a part of its stream, under the
sequence numbers of that part, and acknowledges no more than it has received. -/
def PacketsAgree : Prop :=
  ∀ x, ∀ f ∈ n.sent x, f.packet.tcphdr.flags.rst = false → f.packet.tcphdr.flags.syn = false →
    (∃ r ≤ (n.conn x).received.length, f.packet.tcphdr.ackno = pos (iss x.other) r) ∧
    ∃ k : Int, f.packet.tcphdr.seqno = pos (iss x) k ∧
      (f.packet.syms = [] ∨ 0 ≤ k ∧ f.packet.syms <+: (n.conn x).stream.drop k.toNat)

end Properties

section Exchange

def exchangeOpts : Side → Opts
  | .a => .standalone
  | .b => .working

def exchangeIss : Side → Seqno
  | .a => 100
  | .b => 4294967290

/-- The numbers of the second end are about to wrap. -/
def exchangeStart : Net where
  conn
    | .a => openConn .standalone 100 4294967290 2920 1460 (by decide) (by decide)
    | .b => openConn .working 4294967290 100 2920 1460 (by decide) (by decide)
  sent _ := []

/-- The second end writes seven bytes and closes, and what it sends arrives
twice, first in the wrong order. -/
def exchange : List Label :=
  let data : Flight := ⟨⟨⟨4294967290, 100, { psh := true, ack := true }, 2920⟩,
    [72, 69, 76, 76, 79, 33, 10]⟩, 7, 0⟩
  let fin : Flight := ⟨⟨⟨1, 100, { fin := true, ack := true }, 2920⟩, []⟩, 8, 0⟩
  let ack : Flight := ⟨⟨⟨100, 1, { ack := true }, 2913⟩, []⟩, 0, 7⟩
  let p : Chain := [⟨[72, 69], 7⟩, ⟨[76, 76, 79, 33, 10], 5⟩]
  let cb : Callbacks := ⟨⟨[], true⟩, [], ⟨[.recved 7], true⟩, [.close]⟩
  [⟨.b, [], .app (.write [72, 69, 76, 76, 79, 33, 10] true false)⟩, ⟨.b, [], .app .output⟩,
    ⟨.b, [], .app .close⟩, ⟨.a, [], .packet fin [⟨[], 0⟩] cb⟩,
    ⟨.a, [true, false], .packet data p cb⟩, ⟨.a, [], .packet data p cb⟩,
    ⟨.b, [], .packet ack [⟨[], 0⟩] cb⟩, ⟨.a, [], .packet fin [⟨[], 0⟩] cb⟩,
    ⟨.a, [], .packet fin [⟨[], 0⟩] cb⟩]

theorem openConn_start (o : Opts) (base peer : Seqno) {sndWnd mss : Nat} (hwnd : sndWnd < 2 ^ 16)
    (hpos : 0 < mss) (hlt : mss < 2 ^ 16) :
    StartConn o base peer (openConn o base peer sndWnd mss hpos hlt) :=
  ⟨rfl, rfl, rfl, ⟨hwnd, o.tcpWnd_lt, o.tcpWnd_lt⟩, rfl, rfl, rfl, rfl, rfl, rfl, rfl⟩

theorem exchangeStart_ok : Start exchangeOpts exchangeIss exchangeStart where
  conn
    | .a => openConn_start _ _ _ (by decide) (by decide) (by decide)
    | .b => openConn_start _ _ _ (by decide) (by decide) (by decide)
  sent x f hf := absurd hf List.not_mem_nil

theorem exchange_allowed : Steps (netStep exchangeOpts) Allowed exchangeStart exchange := by
  decide +kernel

end Exchange

section Runs

variable {o : Side → Opts} {iss : Side → Seqno} {n : Net} {ls : List Label}

/-- A run from the end of the handshake goes through to its end and keeps the
connection in order. -/
theorem run_ok (h : Start o iss n) (hok : Steps (netStep o) Allowed n ls) :
    ∃ n', exec (netStep o) n ls = some n' ∧ NetOk o iss n' :=
  exec_total (fun _ _ hn hal => netStep_ok hn hal) (start_ok h) hok

/-- However the network loses, repeats and reorders packets, and whatever
allocations fail, what arrives is what was written. -/
theorem run_delivers (h : Start o iss n) (hok : Steps (netStep o) Allowed n ls) :
    ∃ n', exec (netStep o) n ls = some n' ∧ Delivers iss n' := by
  obtain ⟨n', hrun, hn⟩ := run_ok h hok
  refine ⟨n', hrun, fun x => ?_⟩
  obtain ⟨una, -, ⟨nxt, hsend⟩, hrecv⟩ := hn.ends x
  have hpre := hrecv.prefixed
  refine ⟨hrecv.told.trans (hpre.filterMap _), fun hst => ?_⟩
  refine ⟨(n'.conn x).received.length, hpre.length_le, hsend.rcvNxt, ?_⟩
  rw [← List.prefix_iff_eq_take.mp hpre, hrecv.kept hst, List.append_nil]

theorem run_delivers_exchange :
    ∃ n', exec (netStep exchangeOpts) exchangeStart exchange = some n' ∧ Delivers exchangeIss n' :=
  run_delivers exchangeStart_ok exchange_allowed

theorem fin_complete {data : Text} {fin : Bool} {r : List Sym} (hp : r <+: syms data fin)
    (hfin : .fin ∈ r) : r = syms data fin ∧ fin = true := by
  have htrue : fin = true := (fin_mem_syms data fin).mp (hp.subset hfin)
  subst htrue
  obtain ⟨t, ht⟩ := hp
  obtain rfl | ⟨t', y, rfl⟩ := t.eq_nil_or_concat
  · rw [List.append_nil] at ht
    exact ⟨ht, rfl⟩
  · rw [syms_fin, List.concat_eq_append, ← List.append_assoc] at ht
    have hinit := (List.append_inj' ht rfl).1
    have hmem : .fin ∈ syms data false := hinit ▸ List.mem_append_left t' hfin
    exact absurd ((fin_mem_syms data false).mp hmem) (by decide)

theorem run_eof (h : Start o iss n) (hok : Steps (netStep o) Allowed n ls) :
    ∃ n', exec (netStep o) n ls = some n' ∧ EofAfterAll n' := by
  obtain ⟨n', hrun, hn⟩ := run_ok h hok
  refine ⟨n', hrun, fun x => ?_⟩
  obtain ⟨una, -, -, hrecv⟩ := hn.ends x
  obtain ⟨una', -, ⟨nxt', hsend'⟩, -⟩ := hn.ends x.other
  obtain ⟨data, fin, hshape⟩ := hsend'.shape
  have hpre := hrecv.prefixed
  rw [hshape] at hpre ⊢
  have hcount : (n'.conn x).received.count .fin ≤ 1 := by
    refine (hpre.sublist.count_le _).trans ?_
    rw [count_fin_syms]
    split <;> omega
  refine ⟨hrecv.eofs_le.trans hcount, fun heof => ?_⟩
  have hfin : .fin ∈ (n'.conn x).received :=
    List.count_pos_iff.mp (lt_of_lt_of_le heof hrecv.eofs_le)
  obtain ⟨hall, rfl⟩ := fin_complete hpre hfin
  refine ⟨data, rfl, fun hst => ?_⟩
  have hkept := hrecv.kept hst
  rw [hall, bytesOf_syms, List.append_nil] at hkept
  exact hkept.symm

theorem run_eof_exchange :
    ∃ n', exec (netStep exchangeOpts) exchangeStart exchange = some n' ∧ EofAfterAll n' :=
  run_eof exchangeStart_ok exchange_allowed

theorem prefix_getElem {a b : List Sym} (h : a <+: b) {i : Nat} (hi : i < a.length) :
    a[i]? = b[i]? := by
  obtain ⟨t, rfl⟩ := h
  rw [List.getElem?_append_left hi]

theorem run_keeps (h : Start o iss n) (hok : Steps (netStep o) Allowed n ls) :
    ∃ n', exec (netStep o) n ls = some n' ∧ KeepsUnacked iss n' := by
  obtain ⟨n', hrun, hn⟩ := run_ok h hok
  refine ⟨n', hrun, fun x hal => ?_⟩
  obtain ⟨una, hle, ⟨nxt, hsend⟩, -⟩ := hn.ends x
  obtain ⟨una', -, -, hrecv'⟩ := hn.ends x.other
  rw [Side.other_other] at hrecv'
  have hsnd := hsend.snd
  have hcovers := hsnd.covers hal
  refine ⟨una, hle, hsnd.lastack, fun i hi hlt => ?_, fun hu hv => ?_⟩
  · obtain ⟨seg, hmem, hplace, hstop⟩ := hcovers i hi hlt
    have hseg := hsnd.segs seg hmem
    refine ⟨seg, filter_apart hsnd.packed.apart hmem hplace hstop, hseg.seqno, ?_⟩
    rw [hseg.stop_eq] at hstop
    rw [prefix_getElem hseg.slice (by omega), List.getElem?_drop]
    congr 1
    omega
  · rw [hu, hv] at hcovers
    refine hrecv'.prefixed.eq_of_length_le ?_
    by_contra hlt
    obtain ⟨seg, hmem, -⟩ := hcovers una (le_refl _) (by omega)
    simp at hmem

theorem run_keeps_exchange :
    ∃ n', exec (netStep exchangeOpts) exchangeStart exchange = some n' ∧
      KeepsUnacked exchangeIss n' :=
  run_keeps exchangeStart_ok exchange_allowed

theorem run_accounts (h : Start o iss n) (hok : Steps (netStep o) Allowed n ls) :
    ∃ n', exec (netStep o) n ls = some n' ∧ Accounts o iss n' := by
  obtain ⟨n', hrun, hn⟩ := run_ok h hok
  refine ⟨n', hrun, fun x hal => ?_⟩
  obtain ⟨una, hle, ⟨nxt, hsend⟩, -⟩ := hn.ends x
  have hsnd := hsend.snd
  have hbuf := hsnd.buf.le
  exact ⟨hsnd.queuelen.eq hal, hsnd.queuelen_le, una, hsnd.una_le.trans hsnd.nxt_le, hsnd.lastack,
    by omega, hsnd.buf.eq⟩

theorem run_accounts_exchange :
    ∃ n', exec (netStep exchangeOpts) exchangeStart exchange = some n' ∧
      Accounts exchangeOpts exchangeIss n' :=
  run_accounts exchangeStart_ok exchange_allowed

end Runs

end PopcornFirmware.Lwip.TcpConnection
