import PopcornFirmware.Lwip.TcpApp

namespace PopcornFirmware.Lwip.TcpRecv

open PopcornFirmware.Lib.CText PopcornFirmware.Lib.SeqNum PopcornFirmware.Lwip.Tcp
  PopcornFirmware.Lwip.TcpOut PopcornFirmware.Lwip.TcpPcb PopcornFirmware.Lwip.TcpIn
  PopcornFirmware.Lwip.TcpQueue PopcornFirmware.Lwip.TcpAck PopcornFirmware.Lwip.TcpConn
  PopcornFirmware.Lwip.TcpApp

variable {o : Opts} {base peer : Seqno} {c c' : Conn} {s : List Sym} {inseg : Inseg} {k : Int}
  {una nxt : Nat}

/-- A segment that carries the part of a stream at the given place. -/
structure SegIn (peer : Seqno) (s : List Sym) (k : Int) (inseg : Inseg) : Prop where
  seqno : inseg.tcphdr.seqno = pos peer k
  syn : inseg.tcphdr.flags.syn = false
  wellFormed : inseg.p.WellFormed
  ne : inseg.p ≠ []
  len_eq : inseg.len = inseg.p.bytes.length
  len_lt : inseg.len < 2 ^ 16
  slice : inseg.syms = [] ∨ 0 ≤ k ∧ inseg.syms <+: s.drop k.toNat

theorem SegIn.tcplen_eq (h : SegIn peer s k inseg) : inseg.tcplen = inseg.syms.length := by
  unfold Inseg.tcplen Inseg.syms
  rw [syms_length, h.len_eq, h.syn]
  simp

theorem SegIn.tcplen_le (h : SegIn peer s k inseg) : inseg.tcplen ≤ 2 ^ 16 := by
  have hlt := h.len_lt
  unfold Inseg.tcplen
  split <;> omega

theorem SegIn.totLen_eq (h : SegIn peer s k inseg) : inseg.p.totLen = inseg.len := by
  rw [h.wellFormed.totLen_eq, h.len_eq]

section Trim

theorem syms_drop {data : Text} {fin : Bool} {n : Nat} (hn : n ≤ data.length) :
    syms (data.drop n) fin = (syms data fin).drop n := by
  unfold syms
  rw [List.drop_append_of_le_length (by simpa using hn), List.map_drop]

/-- The first edge of a segment goes, and what is left starts at rcv_nxt. -/
theorem trimFront_spec {r : Nat} (h : SegIn peer s k inseg) (hk : k < r)
    (hr : r < k + inseg.tcplen) :
    ∃ inseg', trimFront (pos peer r) inseg = some inseg' ∧ SegIn peer s r inseg' := by
  have hle := h.tcplen_le
  have hlt := h.len_lt
  have hlen := h.tcplen_eq
  have hoff : (pos peer (r : Int) - inseg.tcphdr.seqno).toNat = (r - k).toNat := by
    have hdiff : ((pos peer (r : Int) - pos peer k).toNat : Int) = r - k :=
      toNat_pos_sub_pos hk.le (by omega)
    rw [h.seqno]
    omega
  have hbound : (r - k).toNat ≤ inseg.p.bytes.length := by
    have heq := h.len_eq
    have hfin : inseg.tcplen ≤ inseg.len + 1 := by
      unfold Inseg.tcplen
      split <;> omega
    omega
  have hlen_eq := h.len_eq
  obtain ⟨p, hp, hwf, hne, hbytes⟩ := trimFirstEdge_spec h.wellFormed h.ne hbound
  have htot : (inseg.p.totLen + 2 ^ 16 - (r - k).toNat) % 2 ^ 16 =
      inseg.p.bytes.length - (r - k).toNat := by
    rw [h.totLen_eq]
    omega
  refine ⟨_, by rw [trimFront]; dsimp only; rw [hoff, htot, hp]; rfl, ?_⟩
  have hslice : syms p.bytes inseg.tcphdr.flags.fin = inseg.syms.drop (r - k).toNat := by
    rw [hbytes, syms_drop hbound]
    rfl
  refine
    { seqno := rfl, syn := h.syn, wellFormed := hwf, ne := hne, len_eq := ?_, len_lt := ?_,
      slice := ?_ }
  · dsimp only
    rw [hbytes, List.length_drop]
    omega
  · exact Nat.mod_lt _ (by decide)
  · refine .inr ⟨by omega, ?_⟩
    obtain hnil | ⟨hpos, hpre⟩ := h.slice
    · rw [hnil, List.length_nil] at hlen
      omega
    · have hsum : (r : Int).toNat = k.toNat + (r - k).toNat := by omega
      rw [Inseg.syms, hslice, hsum, ← List.drop_drop]
      exact drop_mono hpre _

theorem syms_take_mono (data : Text) (fin : Bool) (n : Nat) :
    syms (data.take n) false <+: syms data fin := by
  have hmap : (data.take n).map Sym.byte <+: data.map Sym.byte := (data.take_prefix n).map _
  unfold syms
  rw [if_neg (by decide), List.append_nil]
  exact hmap.trans (List.prefix_append _ _)

/-- What is left of a segment at rcv_nxt fits the window. -/
theorem trimEnd_spec {wnd : Nat} (h : SegIn peer s k inseg) (hwnd : wnd < 2 ^ 16) :
    ∃ inseg', trimEnd wnd inseg = some inseg' ∧ SegIn peer s k inseg' ∧ inseg'.tcplen ≤ wnd := by
  unfold trimEnd
  split
  · rename_i hlt
    obtain ⟨p, hp, hwf, hne, hbytes⟩ := pbufRealloc_spec (n := wnd) h.wellFormed h.ne
    have hsyn := h.syn
    have hle : wnd ≤ inseg.p.bytes.length := by
      have hlen_eq := h.len_eq
      have hfin : inseg.tcplen ≤ inseg.len + 1 := by
        unfold Inseg.tcplen
        split <;> omega
      omega
    dsimp only
    rw [if_neg (by simp [hsyn]), hp]
    refine ⟨_, rfl, ?_, by simp [Inseg.tcplen, hsyn]⟩
    refine
      { seqno := h.seqno, syn := hsyn, wellFormed := hwf, ne := hne, len_eq := ?_,
        len_lt := hwnd, slice := ?_ }
    · rw [hbytes, List.length_take]
      dsimp only
      omega
    · have hpre : syms p.bytes false <+: inseg.syms := by
        rw [hbytes]
        exact syms_take_mono _ _ _
      obtain hnil | ⟨hpos, hslice⟩ := h.slice
      · refine .inl ?_
        rw [hnil] at hpre
        exact List.prefix_nil.mp hpre
      · exact .inr ⟨hpos, hpre.trans hslice⟩
  · exact ⟨inseg, rfl, h, by omega⟩

end Trim

section Data

/-- The data of a pbuf chain that may not be there. -/
def held : Option Chain → Text
  | none => []
  | some p => p.bytes

/-- No segment is being processed yet. -/
structure Idle (s : List Sym) (c : Conn) : Prop where
  recvData : c.recvData = none
  recvFlags : c.recvFlags = {}
  received : c.received <+: s

/-- What a segment brings, before the application hears of it. -/
structure Receives (s : List Sym) (c c' : Conn) : Prop where
  state : c'.pcb.state = c.pcb.state
  refusedData : c'.pcb.refusedData = c.pcb.refusedData
  inputPcb : c'.inputPcb = c.inputPcb
  stream : c'.stream = c.stream
  delivered : c'.delivered = c.delivered
  eofs : c'.eofs = c.eofs
  prefixed : c'.received <+: s
  new : ∃ fin, c'.received = c.received ++ syms (held c'.recvData) fin ∧
    c'.recvFlags = { gotFin := fin }

theorem Idle.receives (hi : Idle s c) (h : Same c c') : Receives s c c' :=
  ⟨h.state, h.refusedData, h.inputPcb, h.stream, h.delivered, h.eofs, h.received ▸ hi.received,
    false, by simp [h.received, h.recvData, hi.recvData, held, syms],
    by rw [h.recvFlags, hi.recvFlags]⟩

theorem Receives.same (h : Receives s c c') {c'' : Conn} (h' : Same c' c'') :
    Receives s c c'' := by
  obtain ⟨fin, hnew, hflags⟩ := h.new
  exact
    { state := h'.state.trans h.state
      refusedData := h'.refusedData.trans h.refusedData
      inputPcb := h'.inputPcb.trans h.inputPcb
      stream := h'.stream.trans h.stream
      delivered := h'.delivered.trans h.delivered
      eofs := h'.eofs.trans h.eofs
      prefixed := h'.received ▸ h.prefixed
      new := ⟨fin, by rw [h'.received, h'.recvData, hnew], h'.recvFlags.trans hflags⟩ }

theorem acceptSeg_spec (h : SendOk o base peer c una nxt) (hi : Idle s c)
    (hin : SegIn peer s c.received.length inseg) :
    ∃ nxt', nxt ≤ nxt' ∧ SendOk o base peer (acceptSeg o c inseg) una nxt' ∧
      Receives s c (acceptSeg o c inseg) := by
  obtain ⟨wnd, hrcv, hwnd⟩ := tcpUpdateRcvAnnWnd_spec (o := o) c.pcb.mss
    { c.pcb.rcv with
      rcvNxt := inseg.tcphdr.seqno + BitVec.ofNat 32 inseg.tcplen
      rcvWnd := (c.pcb.rcv.rcvWnd + 2 ^ 16 - inseg.tcplen) % 2 ^ 16 }
  have hlt : (c.pcb.rcv.rcvWnd + 2 ^ 16 - inseg.tcplen) % 2 ^ 16 < 2 ^ 16 :=
    Nat.mod_lt _ (by decide)
  have hnxt : inseg.tcphdr.seqno + BitVec.ofNat 32 inseg.tcplen =
      pos peer ((c.received ++ inseg.syms).length : Int) := by
    rw [hin.seqno, pos_add_ofNat, hin.tcplen_eq, List.length_append]
    push_cast
    rfl
  have hpre : c.received ++ inseg.syms <+: s := by
    obtain hnil | ⟨-, hslice⟩ := hin.slice
    · rw [hnil, List.append_nil]
      exact hi.received
    · obtain ⟨t, rfl⟩ := hi.received
      rw [Int.toNat_natCast, List.drop_left] at hslice
      exact (List.prefix_append_right_inj _).mpr hslice
  have hheld : held (if 0 < inseg.p.totLen then some inseg.p else c.recvData) =
      inseg.p.bytes := by
    rw [hin.wellFormed.totLen_eq, hi.recvData]
    split
    · rfl
    · rename_i hzero
      exact (List.length_eq_zero_iff.mp (by omega)).symm
  have hacc : SendOk o base peer { c with
      received := c.received ++ inseg.syms
      pcb.rcv := { c.pcb.rcv with
        rcvNxt := inseg.tcphdr.seqno + BitVec.ofNat 32 inseg.tcplen
        rcvWnd := (c.pcb.rcv.rcvWnd + 2 ^ 16 - inseg.tcplen) % 2 ^ 16
        rcvAnnWnd := wnd }
      recvData := if 0 < inseg.p.totLen then some inseg.p else c.recvData
      recvFlags.gotFin := inseg.tcphdr.flags.fin || c.recvFlags.gotFin } una nxt :=
    { snd := h.snd, rcvNxt := hnxt, sndWnd_lt := h.sndWnd_lt, rcvWnd_lt := hlt,
      rcvAnnWnd_lt := hwnd hlt, opened := h.opened, shape := h.shape,
      out := fun f hf => (h.out f hf).mono (List.prefix_refl _) (List.prefix_append _ _) }
  unfold acceptSeg
  dsimp only
  rw [hrcv]
  obtain ⟨nxt', hle, hok, hsame⟩ := tcpAck_emits _ nxt hacc
  refine ⟨nxt', hle, hok, Receives.same ?_ hsame⟩
  exact
    { state := rfl, refusedData := rfl, inputPcb := rfl, stream := rfl, delivered := rfl,
      eofs := rfl, prefixed := hpre
      new := ⟨inseg.tcphdr.flags.fin, by rw [hheld]; rfl, by simp [hi.recvFlags]⟩ }

theorem receives_of_same (h : Same c c') {c'' : Conn} (h' : Receives s c' c'') : Receives s c c'' := by
  obtain ⟨fin, hnew, hflags⟩ := h'.new
  exact
    { state := h'.state.trans h.state
      refusedData := h'.refusedData.trans h.refusedData
      inputPcb := h'.inputPcb.trans h.inputPcb
      stream := h'.stream.trans h.stream
      delivered := h'.delivered.trans h.delivered
      eofs := h'.eofs.trans h.eofs
      prefixed := h'.prefixed
      new := ⟨fin, by rw [hnew, h.received], hflags⟩ }

theorem Idle.same (hi : Idle s c) (h : Same c c') : Idle s c' :=
  ⟨h.recvData.trans hi.recvData, h.recvFlags.trans hi.recvFlags, h.received ▸ hi.received⟩

/-- A place of the stream of the peer that is near rcv_nxt. -/
def Close (s : List Sym) (c : Conn) (k : Int) : Prop :=
  s.length ≤ c.received.length + 2 ^ 17 ∧ (c.received.length : Int) ≤ k + 2 ^ 30 + 2 ^ 20

theorem SegIn.place_le (hin : SegIn peer s k inseg) (hpos : 0 < inseg.tcplen) :
    k + inseg.tcplen ≤ s.length := by
  have hlen := hin.tcplen_eq
  obtain hnil | ⟨hk, hslice⟩ := hin.slice
  · rw [hnil, List.length_nil] at hlen
    omega
  · have hle := hslice.length_le
    rw [List.length_drop] at hle
    omega

/-- A segment is processed without an error, and the connection stays in order. -/
def Taken (o : Opts) (base peer : Seqno) (s : List Sym) (una nxt : Nat) (c : Conn)
    (r : Option Conn) : Prop :=
  ∃ c' nxt', r = some c' ∧ nxt ≤ nxt' ∧ SendOk o base peer c' una nxt' ∧ Receives s c c'

theorem Taken.after {r : Option Conn} {nxt' : Nat} (h : Taken o base peer s una nxt' c' r)
    (hle : nxt ≤ nxt') (hsame : Same c c') : Taken o base peer s una nxt c r := by
  obtain ⟨c'', nxt'', heq, hle', hok, hrec⟩ := h
  exact ⟨c'', nxt'', heq, hle.trans hle', hok, receives_of_same hsame hrec⟩

theorem Idle.taken (hi : Idle s c) (h : SendOk o base peer c una nxt)
    (he : Emits o base peer una c c') : Taken o base peer s una nxt c (some c') := by
  obtain ⟨nxt', hle, hok, hsame⟩ := he nxt h
  exact ⟨c', nxt', rfl, hle, hok, hi.receives hsame⟩

/-- Only what comes next in sequence is accepted, anything else is answered
with an ACK. -/
theorem acceptNext_spec {win : Prop} [Decidable win] (h : SendOk o base peer c una nxt)
    (hi : Idle s c) (hin : SegIn peer s k inseg) (hplace : k ≤ s.length) (hclose : Close s c k) :
    Taken o base peer s una nxt c
      (if win then
        if c.pcb.rcv.rcvNxt = inseg.tcphdr.seqno then
          (trimEnd c.pcb.rcv.rcvWnd inseg).map fun inseg => acceptSeg o c inseg
        else some (tcpSendEmptyAck c).2
      else some (tcpSendEmptyAck c).2) := by
  have hack := hi.taken h (tcpSendEmptyAck_emits c)
  obtain ⟨hfar, hold⟩ := hclose
  split
  · split
    · rename_i hseq
      rw [h.rcvNxt, hin.seqno, pos_inj (by decide) (near_of (by omega) (by omega))] at hseq
      obtain ⟨inseg', htrim, hin', -⟩ := trimEnd_spec hin h.rcvWnd_lt
      rw [← hseq] at hin'
      obtain ⟨nxt', hle, hok, hrec⟩ := acceptSeg_spec h hi hin'
      exact ⟨_, nxt', by rw [htrim]; rfl, hle, hok, hrec⟩
    · exact hack
  · exact hack

theorem receiveData_spec (h : SendOk o base peer c una nxt) (hi : Idle s c)
    (hin : SegIn peer s k inseg) (hpos : 0 < inseg.tcplen) (hclose : Close s c k) :
    Taken o base peer s una nxt c (receiveData o c inseg inseg.tcplen) := by
  have hplace := hin.place_le hpos
  have hfirst : inseg.tcphdr.seqno + 1 = pos peer (k + 1) := by
    rw [hin.seqno]
    exact pos_add_ofNat 1
  have hlast : inseg.tcphdr.seqno + BitVec.ofNat 32 inseg.tcplen - 1 =
      pos peer (k + inseg.tcplen - 1) := by
    rw [hin.seqno, pos_add_ofNat, pos_sub_one]
  have hbetween : seqBetween c.pcb.rcv.rcvNxt (inseg.tcphdr.seqno + 1)
      (inseg.tcphdr.seqno + BitVec.ofNat 32 inseg.tcplen - 1) ↔
      k < c.received.length ∧ (c.received.length : Int) < k + inseg.tcplen := by
    have hle := hin.tcplen_le
    obtain ⟨hfar, hold⟩ := hclose
    rw [h.rcvNxt, hfirst, hlast, seqBetween_pos (by decide) (near_of (by omega) (by omega))
      (near_of (by omega) (by omega))]
    omega
  unfold receiveData
  dsimp only
  split
  · rename_i hcross
    obtain ⟨hlt, hgt⟩ := hbetween.mp hcross
    rw [h.rcvNxt]
    obtain ⟨inseg', htrim, hin'⟩ := trimFront_spec hin hlt hgt
    rw [htrim, Option.map_some, Option.bind_some, ← h.rcvNxt]
    exact acceptNext_spec h hi hin' (by have := hi.received.length_le; omega) ⟨hclose.1, by omega⟩
  · split
    · rw [Option.bind_some]
      obtain ⟨nxt₁, hle, hok, hsame⟩ := tcpAckNow_emits c nxt h
      have hclose' : Close s (tcpAckNow c) k := by
        unfold Close
        rw [hsame.received]
        exact hclose
      dsimp only
      rw [← hsame.rcvNxt]
      exact (acceptNext_spec hok (hi.same hsame) hin (by omega) hclose').after hle hsame
    · exact acceptNext_spec h hi hin (by omega) hclose

end Data

section Receive

/-- What the peer can send: a part of its stream, with an ACK for what it has
received from the connection. -/
structure Incoming (base peer : Seqno) (s : List Sym) (c : Conn) (una j : Nat) (inseg : Inseg) :
    Prop where
  seg : ∃ k, SegIn peer s k inseg ∧ Close s c k
  ack : inseg.tcphdr.flags.ack = true
  ackno : inseg.tcphdr.ackno = pos base j
  ackno_le : j ≤ c.stream.length
  recent : una < j + 2 ^ 30
  wnd_lt : inseg.tcphdr.wnd < 2 ^ 16

theorem Incoming.grows {j : Nat} (hin : Incoming base peer s c una j inseg) (hs : c.stream <+: c'.stream)
    (hr : c'.received = c.received) : Incoming base peer s c' una j inseg := by
  obtain ⟨k, hseg, hclose⟩ := hin.seg
  refine { hin with seg := ⟨k, hseg, ?_⟩, ackno_le := hin.ackno_le.trans hs.length_le }
  unfold Close
  rw [hr]
  exact hclose

theorem updateWindow_sndWnd_lt {ctl : Ctl} {hdr : TcpHdr} (h : ctl.sndWnd < 2 ^ 16)
    (hhdr : hdr.wnd < 2 ^ 16) : (updateWindow ctl hdr).sndWnd < 2 ^ 16 := by
  unfold updateWindow
  split
  · exact hhdr
  · exact h

/-- What is acknowledged after a segment with the given ACK number. -/
def AckedTo (una j una' : Nat) : Prop := una' = una ∨ una < j ∧ una' = j

theorem receiveAck_ok {j : Nat} (h : SendOk o base peer c una nxt)
    (hin : Incoming base peer s c una j inseg) (tcplen : Nat) :
    ∃ una', AckedTo una j una' ∧
      SendOk o base peer { c with pcb := receiveAck c.pcb inseg.tcphdr tcplen } una' nxt ∧
      Same c { c with pcb := receiveAck c.pcb inseg.tcphdr tcplen } := by
  obtain ⟨una', hsnd, huna, hsame⟩ :=
    receiveAck_spec c.pcb inseg.tcphdr tcplen h.snd hin.ackno hin.ackno_le hin.recent
  have hstate : (receiveAck c.pcb inseg.tcphdr tcplen).state = c.pcb.state := hsame.state
  have hrcv : (receiveAck c.pcb inseg.tcphdr tcplen).rcv = c.pcb.rcv := hsame.rcv
  refine ⟨una', huna, ?_, ?_⟩
  · exact
      { snd := by rw [hstate]; exact hsnd
        rcvNxt := by rw [hrcv]; exact h.rcvNxt
        sndWnd_lt := by
          rw [hsame.sndWnd]
          exact updateWindow_sndWnd_lt h.sndWnd_lt hin.wnd_lt
        rcvWnd_lt := by rw [hrcv]; exact h.rcvWnd_lt
        rcvAnnWnd_lt := by rw [hrcv]; exact h.rcvAnnWnd_lt
        opened := by rw [hstate]; exact h.opened
        shape := h.shape
        out := h.out }
  · exact ⟨hstate, hsame.mss, congrArg Rcv.rcvNxt hrcv, congrArg Rcv.rcvWnd hrcv,
      hsame.refusedData, rfl, rfl, rfl, rfl, rfl, rfl, rfl⟩

theorem tcpReceive_spec {j : Nat} (h : SendOk o base peer c una nxt) (hi : Idle s c)
    (hin : Incoming base peer s c una j inseg) :
    ∃ una', AckedTo una j una' ∧ Taken o base peer s una' nxt c (tcpReceive o c inseg) := by
  obtain ⟨k, hseg, hclose⟩ := hin.seg
  obtain ⟨una', huna, hok, hsame⟩ := receiveAck_ok h hin inseg.tcplen
  refine ⟨una', huna, ?_⟩
  unfold tcpReceive
  dsimp only
  rw [if_pos hin.ack]
  split
  · rename_i hpos
    exact (receiveData_spec hok (hi.same hsame) hseg hpos hclose).after (le_refl _) hsame
  · split
    · exact ((hi.same hsame).taken hok (Emits.refl _)).after (le_refl _) hsame
    · exact ((hi.same hsame).taken hok (tcpAckNow_emits _)).after (le_refl _) hsame

end Receive

end PopcornFirmware.Lwip.TcpRecv
