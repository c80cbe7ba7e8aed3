import PopcornFirmware.Lwip.TcpAck
import PopcornFirmware.Lwip.TcpEnqueue

namespace PopcornFirmware.Lwip.TcpConn

open PopcornFirmware.Lib.CText PopcornFirmware.Lib.SeqNum PopcornFirmware.Lib.Intervals
  PopcornFirmware.Lwip.Tcp PopcornFirmware.Lwip.TcpOut PopcornFirmware.Lwip.TcpPcb
  PopcornFirmware.Lwip.TcpQueue PopcornFirmware.Lwip.TcpEnqueue

/-- The queues have not been purged. -/
def Alive (st : TcpState) : Prop := st ≠ .closed ∧ st ≠ .timeWait

def Writable (st : TcpState) : Prop := st = .established ∨ st = .closeWait

/-- The FIN of the peer has been received. -/
def PeerDone (st : TcpState) : Prop :=
  st = .closeWait ∨ st = .closing ∨ st = .lastAck ∨ st = .timeWait

/-- A packet that carries a part of the stream of its sender, and tells how much
the sender had received. -/
structure DataOk (base peer : Seqno) (stream received : List Sym) (f : Flight) : Prop where
  syn : f.packet.tcphdr.flags.syn = false
  ack : f.packet.tcphdr.flags.ack = true
  ackno : f.packet.tcphdr.ackno = pos peer f.heard
  heard_le : f.heard ≤ received.length
  sent_le : f.sent ≤ stream.length
  data_lt : f.packet.data.length < 2 ^ 16
  place : ∃ k : Int, f.packet.tcphdr.seqno = pos base k ∧ k ≤ f.sent ∧ f.sent ≤ k + 2 ^ 19 ∧
    (f.packet.syms = [] ∨ 0 ≤ k ∧ f.packet.syms <+: stream.drop k.toNat)

structure FlightOk (base peer : Seqno) (stream received : List Sym) (f : Flight) : Prop where
  wnd_lt : f.packet.tcphdr.wnd < 2 ^ 16
  data : f.packet.tcphdr.flags.rst = false → f.packet.tcphdr.flags.syn = false →
    DataOk base peer stream received f

/-- The sending side of one end of a connection. -/
structure SendOk (o : Opts) (base peer : Seqno) (c : Conn) (una nxt : Nat) : Prop where
  snd : SndOk o base (Alive c.pcb.state) c.stream c.pcb.snd una nxt
  rcvNxt : c.pcb.rcv.rcvNxt = pos peer c.received.length
  sndWnd_lt : c.pcb.ctl.sndWnd < 2 ^ 16
  rcvWnd_lt : c.pcb.rcv.rcvWnd < 2 ^ 16
  rcvAnnWnd_lt : c.pcb.rcv.rcvAnnWnd < 2 ^ 16
  opened : Writable c.pcb.state → .fin ∉ c.stream
  shape : ∃ data fin, c.stream = syms data fin
  out : ∀ f ∈ c.out, FlightOk base peer c.stream c.received f

/-- What the output functions leave alone. -/
structure Same (c c' : Conn) : Prop where
  state : c'.pcb.state = c.pcb.state
  mss : c'.pcb.mss = c.pcb.mss
  rcvNxt : c'.pcb.rcv.rcvNxt = c.pcb.rcv.rcvNxt
  rcvWnd : c'.pcb.rcv.rcvWnd = c.pcb.rcv.rcvWnd
  refusedData : c'.pcb.refusedData = c.pcb.refusedData
  recvData : c'.recvData = c.recvData
  recvFlags : c'.recvFlags = c.recvFlags
  inputPcb : c'.inputPcb = c.inputPcb
  stream : c'.stream = c.stream
  received : c'.received = c.received
  delivered : c'.delivered = c.delivered
  eofs : c'.eofs = c.eofs

variable {o : Opts} {base peer : Seqno} {c c' c'' : Conn} {una nxt : Nat}

theorem Same.refl (c : Conn) : Same c c := by constructor <;> rfl

theorem Same.trans (h : Same c c') (h' : Same c' c'') : Same c c'' where
  state := h'.state.trans h.state
  mss := h'.mss.trans h.mss
  rcvNxt := h'.rcvNxt.trans h.rcvNxt
  rcvWnd := h'.rcvWnd.trans h.rcvWnd
  refusedData := h'.refusedData.trans h.refusedData
  recvData := h'.recvData.trans h.recvData
  recvFlags := h'.recvFlags.trans h.recvFlags
  inputPcb := h'.inputPcb.trans h.inputPcb
  stream := h'.stream.trans h.stream
  received := h'.received.trans h.received
  delivered := h'.delivered.trans h.delivered
  eofs := h'.eofs.trans h.eofs

/-- An output function keeps the sending side in order. It may send more, but
does not change what is acknowledged. -/
def Emits (o : Opts) (base peer : Seqno) (una : Nat) (c c' : Conn) : Prop :=
  ∀ nxt, SendOk o base peer c una nxt →
    ∃ nxt', nxt ≤ nxt' ∧ SendOk o base peer c' una nxt' ∧ Same c c'

section Emits

theorem Emits.refl (c : Conn) : Emits o base peer una c c :=
  fun nxt h => ⟨nxt, le_refl _, h, Same.refl c⟩

theorem Emits.trans (h : Emits o base peer una c c') (h' : Emits o base peer una c' c'') :
    Emits o base peer una c c'' := by
  intro nxt hok
  obtain ⟨nxt', hle, hok', hsame⟩ := h nxt hok
  obtain ⟨nxt'', hle', hok'', hsame'⟩ := h' nxt' hok'
  exact ⟨nxt'', hle.trans hle', hok'', hsame.trans hsame'⟩

theorem DataOk.mono {stream received stream' received' : List Sym} {f : Flight}
    (h : DataOk base peer stream received f) (hs : stream <+: stream')
    (hr : received <+: received') : DataOk base peer stream' received' f := by
  obtain ⟨k, hseq, hk, hle, hslice⟩ := h.place
  have hslice' := hslice.imp_right fun hp => And.intro hp.1 (hp.2.trans (drop_mono hs k.toNat))
  exact { h with
    heard_le := h.heard_le.trans hr.length_le
    sent_le := h.sent_le.trans hs.length_le
    place := ⟨k, hseq, hk, hle, hslice'⟩ }

theorem FlightOk.mono {stream received stream' received' : List Sym} {f : Flight}
    (h : FlightOk base peer stream received f) (hs : stream <+: stream')
    (hr : received <+: received') : FlightOk base peer stream' received' f :=
  ⟨h.wnd_lt, fun hrst hsyn => (h.data hrst hsyn).mono hs hr⟩

/-- A packet handed to ip_output. -/
theorem emit_ok {pkt : Packet} (h : SendOk o base peer c una nxt)
    (hwnd : pkt.tcphdr.wnd < 2 ^ 16)
    (hdata : pkt.tcphdr.flags.rst = false →
      DataOk base peer c.stream c.received ⟨pkt, c.stream.length, c.received.length⟩) :
    SendOk o base peer (ipOutput c pkt) una nxt where
  snd := h.snd
  rcvNxt := h.rcvNxt
  sndWnd_lt := h.sndWnd_lt
  rcvWnd_lt := h.rcvWnd_lt
  rcvAnnWnd_lt := h.rcvAnnWnd_lt
  opened := h.opened
  shape := h.shape
  out := by
    intro f hf
    obtain hf | hf := List.mem_append.mp hf
    · exact h.out f hf
    · rw [List.mem_singleton.mp hf]
      exact ⟨hwnd, fun hrst _ => hdata hrst⟩

/-- A packet without data that starts near the end of what was sent. -/
theorem emit_empty {pkt : Packet} {k : Int} (h : SendOk o base peer c una nxt)
    (hpkt : pkt = ⟨⟨pos base k, c.pcb.rcv.rcvNxt, { ack := true }, c.pcb.rcv.rcvAnnWnd⟩, []⟩)
    (hk : k ≤ nxt) (hk' : nxt ≤ k + 1) :
    SendOk o base peer (ipOutput c pkt) una nxt := by
  have hstream := h.snd.stream_le
  have huna := h.snd.una_le
  have hnxt := h.snd.nxt_le
  subst hpkt
  refine emit_ok h h.rcvAnnWnd_lt fun _ =>
    { syn := rfl, ack := rfl, ackno := h.rcvNxt, heard_le := le_refl _, sent_le := le_refl _,
      data_lt := by simp,
      place := ⟨k, rfl, ?_, ?_, .inl rfl⟩ }
  · dsimp only
    omega
  · dsimp only
    omega

end Emits

section Output

theorem tcpSendEmptyAck_emits (c : Conn) : Emits o base peer una c (tcpSendEmptyAck c).2 := by
  intro nxt h
  unfold tcpSendEmptyAck
  split
  · exact ⟨nxt, le_refl _, { h with }, by constructor <;> rfl⟩
  · refine ⟨nxt, le_refl _, ?_, by constructor <;> rfl⟩
    refine emit_empty (k := nxt) { h with } ?_ (le_refl _) (by omega)
    dsimp only [tcpOutputSetHeader]
    rw [h.snd.sndNxt]

/-- A segment that is sent fits the window, so it reaches beyond what is
acknowledged. -/
theorem una_le_stop {seg : Seg} {wnd : Nat} (h : SendOk o base peer c una nxt)
    (hmem : seg ∈ c.pcb.snd.unacked ++ c.pcb.snd.unsent) (hfit : ¬ wnd < segReach c.pcb seg)
    (hwnd : wnd < 2 ^ 16) : una ≤ stop seg := by
  have hseg := h.snd.segs seg hmem
  have hplace := h.snd.stream_le_place hmem
  have hstream := h.snd.stream_le
  have huna := h.snd.una_le
  have hnxt := h.snd.nxt_le
  have hlen : seg.len ≤ seg.tcplen := Nat.le_add_right _ _
  have hdiff : seg.tcphdr.seqno - c.pcb.snd.lastack + BitVec.ofNat 32 seg.len =
      BitVec.ofInt 32 ((seg.place + seg.len : Int) - una) := by
    rw [hseg.seqno, h.snd.lastack, pos_sub_pos, ← BitVec.ofInt_natCast, ← BitVec.ofInt_add]
    congr 1
    omega
  by_contra hlt
  unfold stop at hlt
  rw [segReach, hdiff, BitVec.toNat_ofInt] at hfit
  omega

theorem outputRound_snd (seg : Seg) (rest : List Seg) (c : Conn) :
    (outputRound seg rest c).pcb.snd =
      { c.pcb.snd with
        unsent := rest
        sndNxt := if seqLt c.pcb.snd.sndNxt (seg.tcphdr.seqno + BitVec.ofNat 32 seg.tcplen) then
          seg.tcphdr.seqno + BitVec.ofNat 32 seg.tcplen else c.pcb.snd.sndNxt
        unacked := if 0 < seg.tcplen then
          addToUnacked (outSeg seg c.pcb.rcv.rcvNxt c.pcb.rcv.rcvAnnWnd) c.pcb.snd.unacked
          else c.pcb.snd.unacked } := rfl

theorem outputRound_out (seg : Seg) (rest : List Seg) (c : Conn) :
    (outputRound seg rest c).out = c.out ++
      [⟨⟨(outSeg seg c.pcb.rcv.rcvNxt c.pcb.rcv.rcvAnnWnd).tcphdr, seg.p.flatten⟩,
        c.stream.length, c.received.length⟩] := rfl

theorem outputRound_same (seg : Seg) (rest : List Seg) (c : Conn) :
    Same c (outputRound seg rest c) := by
  constructor <;> rfl

theorem outputRound_emits {seg : Seg} {rest : List Seg} (hunsent : c.pcb.snd.unsent = seg :: rest)
    (hreach : una ≤ stop seg) : Emits o base peer una c (outputRound seg rest c) := by
  intro nxt h
  have hmem : seg ∈ c.pcb.snd.unacked ++ c.pcb.snd.unsent := by simp [hunsent]
  have hseg := h.snd.segs seg hmem
  have hpos : 0 < seg.tcplen := by
    have := h.snd.packed.nonempty seg hmem
    unfold stop at this
    omega
  have hsnd := h.snd.sendHead c.pcb.rcv.rcvNxt c.pcb.rcv.rcvAnnWnd hunsent hreach
  have hnxt : (if seqLt c.pcb.snd.sndNxt (seg.tcphdr.seqno + BitVec.ofNat 32 seg.tcplen) then
      seg.tcphdr.seqno + BitVec.ofNat 32 seg.tcplen else c.pcb.snd.sndNxt) =
      pos base (max nxt (stop seg) : Nat) := by
    have hplace := h.snd.stream_le_place hmem
    have hstop := h.snd.stop_le hmem
    have hnxt_le := h.snd.nxt_le
    have hstream := h.snd.stream_le
    have huna := h.snd.una_le
    have hend : seg.place ≤ stop seg := Nat.le_add_right _ _
    rw [hseg.seqno_stop, h.snd.sndNxt]
    split
    · rename_i hlt
      rw [seqLt_pos (by decide) (near_of (by omega) (by omega))] at hlt
      rw [max_eq_right (by omega)]
    · rename_i hlt
      rw [seqLt_pos (by decide) (near_of (by omega) (by omega))] at hlt
      rw [max_eq_left (by omega)]
  refine ⟨max nxt (stop seg), le_max_left _ _, ?_, outputRound_same seg rest c⟩
  refine
    { snd := ?_, rcvNxt := h.rcvNxt, sndWnd_lt := h.sndWnd_lt, rcvWnd_lt := h.rcvWnd_lt,
      rcvAnnWnd_lt := h.rcvAnnWnd_lt, opened := h.opened, shape := h.shape, out := ?_ }
  · rw [outputRound_snd, hnxt, if_pos hpos]
    exact hsnd
  · rw [outputRound_out]
    refine List.forall_mem_append.mpr ⟨h.out, List.forall_mem_singleton.mpr ?_⟩
    have hplace := h.snd.stream_le_place hmem
    have hle := h.snd.stop_le hmem
    have hend : seg.place ≤ stop seg := Nat.le_add_right _ _
    refine ⟨h.rcvAnnWnd_lt, fun _ _ =>
      { syn := hseg.syn, ack := rfl, ackno := h.rcvNxt, heard_le := le_refl _,
        sent_le := le_refl _, data_lt := hseg.len_eq ▸ hseg.len_lt,
        place := ⟨seg.place, hseg.seqno, ?_, ?_, .inr ⟨by omega, hseg.slice⟩⟩ }⟩
    · dsimp only
      omega
    · dsimp only
      omega

theorem tcpOutputLoop_emits {wnd : Nat} (hwnd : wnd < 2 ^ 16) (l : List Seg)
    (hl : c.pcb.snd.unsent = l) : Emits o base peer una c (tcpOutputLoop wnd l c) := by
  induction l generalizing c with
  | nil => exact Emits.refl c
  | cons seg rest ih =>
    unfold tcpOutputLoop
    split
    · exact Emits.refl c
    · rename_i hfit
      split
      · exact Emits.refl c
      · intro nxt h
        have hreach := una_le_stop h (by simp [hl]) hfit hwnd
        exact ((outputRound_emits hl hreach).trans (ih rfl)) nxt h

theorem setPersist_emits (c : Conn) : Emits o base peer una c (setPersist c) := by
  intro nxt h
  unfold setPersist
  split
  · exact ⟨nxt, le_refl _, h, Same.refl c⟩
  · split
    · exact ⟨nxt, le_refl _, { h with }, by constructor <;> rfl⟩
    · exact ⟨nxt, le_refl _, h, Same.refl c⟩

theorem tcpOutput_emits (c : Conn) : Emits o base peer una c (tcpOutput c).2 := by
  unfold tcpOutput
  split
  · exact Emits.refl c
  · dsimp only
    split
    · exact tcpSendEmptyAck_emits c
    · intro nxt h
      have hwnd : min c.pcb.ctl.sndWnd c.pcb.ctl.cwnd < 2 ^ 16 :=
        lt_of_le_of_lt (min_le_left _ _) h.sndWnd_lt
      obtain ⟨nxt', hle, hok, hsame⟩ :=
        ((tcpOutputLoop_emits hwnd _ rfl).trans (setPersist_emits _)) nxt h
      exact ⟨nxt', hle, { hok with }, { hsame with }⟩

/-- A change of flags, timers and the like. -/
theorem quiet_emits (hsnd : c'.pcb.snd = c.pcb.snd) (hwnd : c'.pcb.ctl.sndWnd = c.pcb.ctl.sndWnd)
    (hann : c'.pcb.rcv.rcvAnnWnd = c.pcb.rcv.rcvAnnWnd) (hout : c'.out = c.out)
    (hsame : Same c c') : Emits o base peer una c c' := by
  intro nxt h
  refine ⟨nxt, le_refl _, ?_, hsame⟩
  exact
    { snd := by rw [hsnd, hsame.state, hsame.stream]; exact h.snd
      rcvNxt := by rw [hsame.rcvNxt, hsame.received]; exact h.rcvNxt
      sndWnd_lt := by rw [hwnd]; exact h.sndWnd_lt
      rcvWnd_lt := by rw [hsame.rcvWnd]; exact h.rcvWnd_lt
      rcvAnnWnd_lt := by rw [hann]; exact h.rcvAnnWnd_lt
      opened := by rw [hsame.state, hsame.stream]; exact h.opened
      shape := by rw [hsame.stream]; exact h.shape
      out := by rw [hout, hsame.stream, hsame.received]; exact h.out }

theorem tcpAckNow_emits (c : Conn) : Emits o base peer una c (tcpAckNow c) := by
  refine .trans ?_ (tcpOutput_emits _)
  exact quiet_emits rfl rfl rfl rfl (by constructor <;> rfl)

theorem tcpAck_emits (c : Conn) : Emits o base peer una c (tcpAck c) := by
  unfold tcpAck
  split
  · refine .trans ?_ (tcpOutput_emits _)
    exact quiet_emits rfl rfl rfl rfl (by constructor <;> rfl)
  · exact quiet_emits rfl rfl rfl rfl (by constructor <;> rfl)

theorem tcpRst_emits (c : Conn) (seqno ackno : Seqno) :
    Emits o base peer una c (tcpRst o c seqno ackno) := by
  intro nxt h
  unfold tcpRst
  split
  · exact ⟨nxt, le_refl _, { h with }, by constructor <;> rfl⟩
  · exact ⟨nxt, le_refl _, emit_ok { h with } o.tcpWnd_lt (by simp), by constructor <;> rfl⟩

theorem tcpRexmitRto_emits (c : Conn) : Emits o base peer una c (tcpRexmitRto c) := by
  unfold tcpRexmitRto
  split
  · exact Emits.refl c
  · refine .trans (fun nxt h => ?_) (tcpOutput_emits _)
    exact ⟨nxt, le_refl _, { h with snd := h.snd.requeueAll }, by constructor <;> rfl⟩

theorem tcpKeepalive_emits (c : Conn) : Emits o base peer una c (tcpKeepalive c) := by
  intro nxt h
  unfold tcpKeepalive
  split
  · exact ⟨nxt, le_refl _, { h with }, by constructor <;> rfl⟩
  · refine ⟨nxt, le_refl _, ?_, by constructor <;> rfl⟩
    refine emit_empty (k := nxt - 1) { h with } ?_ (by omega) (by omega)
    dsimp only [tcpOutputSetHeader]
    rw [h.snd.sndNxt, pos_sub_one]

theorem tcpZeroWindowProbe_emits (c : Conn) : Emits o base peer una c (tcpZeroWindowProbe c) := by
  intro nxt h
  unfold tcpZeroWindowProbe
  split
  · exact ⟨nxt, le_refl _, h, Same.refl c⟩
  · rename_i seg hhead
    have hmem := List.mem_of_mem_head? hhead
    have hseg := h.snd.segs seg hmem
    have hplace := h.snd.stream_le_place hmem
    have hle := h.snd.stop_le hmem
    have hend : seg.place ≤ stop seg := Nat.le_add_right _ _
    split
    · exact ⟨nxt, le_refl _, { h with }, by constructor <;> rfl⟩
    · dsimp only [tcpOutputSetHeader]
      split
      · rename_i hfin
        refine ⟨nxt, le_refl _, ?_, by constructor <;> rfl⟩
        refine emit_ok { h with } h.rcvAnnWnd_lt fun _ =>
          { syn := rfl, ack := rfl, ackno := h.rcvNxt, heard_le := le_refl _,
            sent_le := le_refl _, data_lt := by simp
            place := ⟨seg.place, hseg.seqno, ?_, ?_, .inr ⟨by omega, ?_⟩⟩ }
        · dsimp only
          omega
        · dsimp only
          omega
        · have hslice := hseg.slice
          have hnil : seg.p.flatten = [] := List.length_eq_zero_iff.mp (hseg.len_eq ▸ hfin.2)
          rw [Seg.syms, hnil, hfin.1] at hslice
          exact hslice
      · refine ⟨nxt, le_refl _, ?_, by constructor <;> rfl⟩
        refine emit_ok { h with } h.rcvAnnWnd_lt fun _ =>
          { syn := rfl, ack := rfl, ackno := h.rcvNxt, heard_le := le_refl _,
            sent_le := le_refl _, data_lt := ?_
            place := ⟨seg.place, hseg.seqno, ?_, ?_, .inr ⟨by omega, ?_⟩⟩ }
        · rw [List.length_take]
          omega
        · dsimp only
          omega
        · dsimp only
          omega
        · refine .trans ?_ hseg.slice
          exact .trans (by simpa [Packet.syms, syms] using List.take_prefix 1 _)
            (List.prefix_append _ _)

end Output

end PopcornFirmware.Lwip.TcpConn
