import PopcornFirmware.Lwip.TcpRecv

namespace PopcornFirmware.Lwip.TcpInput

open PopcornFirmware.Lib.CText PopcornFirmware.Lib.SeqNum PopcornFirmware.Lwip.Tcp
  PopcornFirmware.Lwip.TcpOut PopcornFirmware.Lwip.TcpPcb PopcornFirmware.Lwip.TcpIn
  PopcornFirmware.Lwip.TcpQueue PopcornFirmware.Lwip.TcpConn PopcornFirmware.Lwip.TcpApp
  PopcornFirmware.Lwip.TcpRecv

variable {o : Opts} {base peer : Seqno} {c c' : Conn} {s : List Sym} {inseg : Inseg}
  {data : Text} {fin : Bool} {una nxt : Nat}

/-- The receiving side of one end of a connection whose peer has the given
stream. The application is still to be told of the given data and FIN. -/
structure RecvOk (s : List Sym) (c : Conn) (data : Text) (fin : Bool) : Prop where
  prefixed : c.received <+: s
  peerDone : c.pcb.state ≠ .closed → (PeerDone c.pcb.state ↔ .fin ∈ c.received)
  closing : Alive c.pcb.state → ¬ Writable c.pcb.state → .fin ∈ c.stream
  kept : c.pcb.state ≠ .closed →
    bytesOf c.received = c.delivered ++ held c.pcb.refusedData ++ data
  told : c.delivered <+: bytesOf c.received
  eofs : c.pcb.state ≠ .closed → c.eofs + (if fin then 1 else 0) = c.received.count .fin
  eofs_le : c.eofs ≤ c.received.count .fin

section State

theorem RecvOk.mono {s' : List Sym} (h : RecvOk s c data fin) (hs : s <+: s') :
    RecvOk s' c data fin := { h with prefixed := h.prefixed.trans hs }

theorem not_closed_of_grows (h : Grows c c') :
    c'.pcb.state ≠ .closed ↔ c.pcb.state ≠ .closed := by
  obtain heq | ⟨hw, ha, -⟩ := h.state
  · rw [heq]
  · exact ⟨fun _ => (alive_of_writable hw).1, fun _ => ha.1⟩

theorem RecvOk.grows (h : RecvOk s c data fin) (hg : Grows c c') : RecvOk s c' data fin where
  prefixed := hg.received ▸ h.prefixed
  peerDone hst := by
    rw [hg.peerDone, hg.received]
    exact h.peerDone ((not_closed_of_grows hg).mp hst)
  closing hal hnw := by
    obtain heq | ⟨-, -, -, hfin⟩ := hg.state
    · rw [heq] at hal hnw
      exact hg.stream.subset (h.closing hal hnw)
    · exact hfin
  kept hst := by
    rw [hg.received, hg.delivered, hg.refusedData]
    exact h.kept ((not_closed_of_grows hg).mp hst)
  told := by
    rw [hg.received, hg.delivered]
    exact h.told
  eofs hst := by
    rw [hg.received, hg.eofs]
    exact h.eofs ((not_closed_of_grows hg).mp hst)
  eofs_le := by
    rw [hg.received, hg.eofs]
    exact h.eofs_le

theorem RecvOk.same (h : RecvOk s c data fin) (hs : Same c c') : RecvOk s c' data fin :=
  h.grows (grows_of_same hs)

/-- The state changes, and the connection stays alive. -/
theorem setState_ok {st : TcpState} (h : SendOk o base peer c una nxt)
    (halive : Alive st ↔ Alive c.pcb.state) (hw : Writable st → Writable c.pcb.state) :
    SendOk o base peer { c with pcb.state := st } una nxt where
  snd := by
    have hs := h.snd
    rw [← propext halive] at hs
    exact hs
  rcvNxt := h.rcvNxt
  sndWnd_lt := h.sndWnd_lt
  rcvWnd_lt := h.rcvWnd_lt
  rcvAnnWnd_lt := h.rcvAnnWnd_lt
  opened hst := h.opened (hw hst)
  shape := h.shape
  out := h.out

theorem purge_ok {st : TcpState} (h : SendOk o base peer c una nxt) (hdead : ¬ Alive st) :
    SendOk o base peer { c with pcb := { tcpPcbPurge c.pcb with state := st } } una nxt := by
  have hw : ¬ Writable st := fun hw => hdead (alive_of_writable hw)
  unfold tcpPcbPurge
  split
  · exact
      { snd := h.snd.purge hdead, rcvNxt := h.rcvNxt, sndWnd_lt := h.sndWnd_lt,
        rcvWnd_lt := h.rcvWnd_lt, rcvAnnWnd_lt := h.rcvAnnWnd_lt, opened := fun hst => absurd hst hw,
        shape := h.shape, out := h.out }
  · rename_i hst
    exact setState_ok h ⟨fun ha => absurd ha hdead, fun ha => absurd ha hst⟩ fun hst => absurd hst hw

theorem tcpOutput_ackOnly (hunsent : c.pcb.snd.unsent = []) (hack : c.pcb.flags.ackNow = true) :
    tcpOutput c = if c.inputPcb then (.ok, c) else tcpSendEmptyAck c := by
  unfold tcpOutput
  dsimp only
  split
  · rfl
  · rw [if_pos ⟨hack, by simp [nothingToSend, hunsent]⟩]

/-- Without data to send the state does not matter to the output. -/
theorem tcpOutput_setState (st : TcpState) (hunsent : c.pcb.snd.unsent = [])
    (hack : c.pcb.flags.ackNow = true) :
    (tcpOutput { c with pcb.state := st }).2 = { (tcpOutput c).2 with pcb.state := st } := by
  rw [tcpOutput_ackOnly hunsent hack, tcpOutput_ackOnly (by exact hunsent) (by exact hack)]
  unfold tcpSendEmptyAck
  dsimp only
  split
  · rfl
  · split <;> rfl

/-- The ACK that tcp_pcb_remove sends may as well come from the purged
connection. -/
theorem tcpPcbRemove_eq (hst : c.pcb.state ≠ .closed) :
    ∃ c', Emits o base peer una { c with pcb := { tcpPcbPurge c.pcb with state := .closed } } c' ∧
      tcpPcbRemove c = c' := by
  unfold tcpPcbRemove
  dsimp only
  split
  · rename_i hack
    have hpurge : (tcpPcbPurge c.pcb).snd.unsent = [] := by
      unfold tcpPcbPurge at hack ⊢
      split
      · rfl
      · rename_i hdead
        rw [if_neg hdead] at hack
        exact absurd ⟨hst, hack.1⟩ hdead
    refine ⟨_, ?_, (tcpOutput_setState .closed hpurge rfl).symm⟩
    refine .trans ?_ (tcpOutput_emits _)
    exact quiet_emits rfl rfl rfl rfl (by constructor <;> rfl)
  · exact ⟨_, Emits.refl _, rfl⟩

end State

section Process

/-- What tcp_process does once a segment is received. -/
structure Moves (c c' : Conn) : Prop where
  ne_closed : c'.pcb.state ≠ .closed
  peerDone : PeerDone c'.pcb.state ↔ c.recvFlags.gotFin = true ∨ PeerDone c.pcb.state
  writable : Writable c'.pcb.state ↔ Writable c.pcb.state
  refusedData : c.pcb.refusedData = none → c'.pcb.refusedData = none
  recvData : c'.recvData = c.recvData
  gotFin : c'.recvFlags.gotFin = c.recvFlags.gotFin
  stream : c'.stream = c.stream
  received : c'.received = c.received
  delivered : c'.delivered = c.delivered
  eofs : c'.eofs = c.eofs

theorem moves_to {st : TcpState} (h : Same c c') (hst : st ≠ .closed)
    (hdone : PeerDone st ↔ c.recvFlags.gotFin = true ∨ PeerDone c.pcb.state)
    (hw : Writable st ↔ Writable c.pcb.state) : Moves c { c' with pcb.state := st } :=
  ⟨hst, hdone, hw, fun hnone => h.refusedData.trans hnone, h.recvData,
    congrArg RecvFlags.gotFin h.recvFlags, h.stream, h.received, h.delivered, h.eofs⟩

theorem moves_timeWait (h : Same c c') (hgot : c.recvFlags.gotFin = true ∨ PeerDone c.pcb.state)
    (hw : ¬ Writable c.pcb.state) : Moves c (enterTimeWait c') := by
  refine ⟨by simp [enterTimeWait], ?_, ?_, fun hnone => ?_, h.recvData,
    congrArg RecvFlags.gotFin h.recvFlags, h.stream, h.received, h.delivered, h.eofs⟩
  · exact ⟨fun _ => hgot, fun _ => .inr (.inr (.inr rfl))⟩
  · exact ⟨fun hst => by simp [enterTimeWait, Writable] at hst, fun hst => absurd hst hw⟩
  · unfold enterTimeWait tcpPcbPurge
    split
    · rfl
    · exact h.refusedData.trans hnone

/-- A connection in order moves to a state in order. -/
def MovesOk (o : Opts) (base peer : Seqno) (una nxt : Nat) (c c' : Conn) : Prop :=
  ∃ nxt', nxt ≤ nxt' ∧ SendOk o base peer c' una nxt' ∧ Moves c c'

theorem emits_moveTo {st : TcpState} (h : SendOk o base peer c una nxt)
    (hal : Alive c.pcb.state) (he : Emits o base peer una c c') (hst : Alive st)
    (hdone : PeerDone st ↔ c.recvFlags.gotFin = true ∨ PeerDone c.pcb.state)
    (hw : Writable st ↔ Writable c.pcb.state) :
    MovesOk o base peer una nxt c { c' with pcb.state := st } := by
  obtain ⟨nxt', hle, hok, hsame⟩ := he nxt h
  refine ⟨nxt', hle, setState_ok hok ?_ ?_, moves_to hsame hst.1 hdone hw⟩
  · rw [hsame.state]
    exact ⟨fun _ => hal, fun _ => hst⟩
  · rw [hsame.state]
    exact hw.mp

theorem emits_timeWait (h : SendOk o base peer c una nxt) (he : Emits o base peer una c c')
    (hgot : c.recvFlags.gotFin = true ∨ PeerDone c.pcb.state) (hw : ¬ Writable c.pcb.state) :
    MovesOk o base peer una nxt c (enterTimeWait c') := by
  obtain ⟨nxt', hle, hok, hsame⟩ := he nxt h
  exact ⟨nxt', hle, purge_ok hok fun ha => ha.2 rfl, moves_timeWait hsame hgot hw⟩

theorem movesOk_stay (h : SendOk o base peer c una nxt) (hst : c.pcb.state ≠ .closed)
    (hdone : c.recvFlags.gotFin = true → PeerDone c.pcb.state) :
    MovesOk o base peer una nxt c c :=
  ⟨nxt, le_refl _, h, hst, ⟨.inr, fun hd => hd.elim hdone id⟩, Iff.rfl, id, rfl, rfl, rfl, rfl,
    rfl, rfl⟩

theorem afterReceive_ok (hdr : TcpHdr) (h : SendOk o base peer c una nxt)
    (hal : Alive c.pcb.state) : MovesOk o base peer una nxt c (afterReceive c hdr) := by
  have hack : Emits o base peer una c (tcpAckNow c) := tcpAckNow_emits c
  have hopen : Writable c.pcb.state → MovesOk o base peer una nxt c
      (if c.recvFlags.gotFin then { tcpAckNow c with pcb.state := .closeWait } else c) := by
    intro hw
    split
    · rename_i hgot
      exact emits_moveTo h hal hack ⟨by decide, by decide⟩ (by simp [PeerDone, hgot])
        ⟨fun _ => hw, fun _ => .inr rfl⟩
    · rename_i hgot
      exact movesOk_stay h hal.1 fun hg => absurd hg hgot
  unfold afterReceive
  dsimp only
  split
  · rename_i hst
    exact hopen (.inl hst)
  · rename_i hst
    exact hopen (.inr hst)
  · rename_i hst
    have hw : ¬ Writable c.pcb.state := by simp [Writable, hst]
    split
    · rename_i hgot
      split
      · exact emits_timeWait h hack (.inl hgot) hw
      · exact emits_moveTo h hal hack ⟨by decide, by decide⟩ (by simp [PeerDone, hgot])
          (by simp [Writable, hst])
    · rename_i hgot
      split
      · exact emits_moveTo h hal (Emits.refl c) ⟨by decide, by decide⟩
          (by simp [PeerDone, hst, hgot]) (by simp [Writable, hst])
      · exact movesOk_stay h hal.1 fun hg => absurd hg hgot
  · rename_i hst
    have hw : ¬ Writable c.pcb.state := by simp [Writable, hst]
    split
    · rename_i hgot
      exact emits_timeWait h hack (.inl hgot) hw
    · rename_i hgot
      exact movesOk_stay h hal.1 fun hg => absurd hg hgot
  · rename_i hst
    have hw : ¬ Writable c.pcb.state := by simp [Writable, hst]
    have hdone : PeerDone c.pcb.state := by simp [PeerDone, hst]
    split
    · exact emits_timeWait h (Emits.refl c) (.inr hdone) hw
    · exact movesOk_stay h hal.1 fun _ => hdone
  · rename_i hst
    have hdone : PeerDone c.pcb.state := by simp [PeerDone, hst]
    split
    · exact ⟨nxt, le_refl _, { h with }, hal.1, ⟨.inr, fun _ => hdone⟩, Iff.rfl, id, rfl, rfl,
        rfl, rfl, rfl, rfl⟩
    · exact movesOk_stay h hal.1 fun _ => hdone
  · rename_i hst
    exact absurd hst hal.1
  · rename_i hst
    exact absurd hst hal.2

theorem count_fin_syms (data : Text) (fin : Bool) :
    (syms data fin).count .fin = if fin then 1 else 0 := by
  have hdata : (data.map Sym.byte).count .fin = 0 := List.count_eq_zero.mpr (by simp)
  unfold syms
  rw [List.count_append, hdata, Nat.zero_add]
  cases fin <;> rfl

/-- What is received is bookkept with what was there before. -/
theorem RecvOk.moves {c₁ : Conn} (hr : RecvOk s c [] false) (hal : Alive c.pcb.state)
    (hnone : c.pcb.refusedData = none) (hrec : Receives s c c₁) (hmv : Moves c₁ c') :
    RecvOk s c' (held c'.recvData) c'.recvFlags.gotFin := by
  obtain ⟨fin, hnew, hflags⟩ := hrec.new
  have hgot : c₁.recvFlags.gotFin = fin := by rw [hflags]
  have hreceived : c'.received = c.received ++ syms (held c'.recvData) fin := by
    rw [hmv.received, hmv.recvData, hnew]
  have hkept := hr.kept hal.1
  have heofs := hr.eofs hal.1
  rw [hnone, held, List.append_nil, List.append_nil] at hkept
  rw [if_neg (by decide), Nat.add_zero] at heofs
  have hcount : c'.received.count .fin = c.eofs + if fin then 1 else 0 := by
    rw [hreceived, List.count_append, count_fin_syms, heofs]
  have hdelivered : c'.delivered = c.delivered := hmv.delivered.trans hrec.delivered
  have heofs' : c'.eofs = c.eofs := hmv.eofs.trans hrec.eofs
  have hbytes : bytesOf c'.received = c.delivered ++ held c'.recvData := by
    rw [hreceived, bytesOf_append, bytesOf_syms, hkept]
  rw [hmv.gotFin, hgot]
  refine
    { prefixed := hmv.received ▸ hrec.prefixed, peerDone := fun _ => ?_, closing := fun _ hnw => ?_,
      kept := fun _ => ?_, told := ?_, eofs := fun _ => ?_, eofs_le := ?_ }
  · rw [hmv.peerDone, hgot, hrec.state, hr.peerDone hal.1, hreceived, List.mem_append,
      fin_mem_syms, or_comm]
  · rw [hmv.writable, hrec.state] at hnw
    rw [hmv.stream, hrec.stream]
    exact hr.closing hal hnw
  · rw [hbytes, hdelivered, hmv.refusedData (hrec.refusedData.trans hnone), held, List.append_nil]
  · rw [hbytes, hdelivered]
    exact List.prefix_append _ _
  · rw [hcount, heofs']
  · rw [hcount, heofs']
    exact Nat.le_add_right _ _

/-- Both sides of one end of a connection. -/
structure ConnOk (o : Opts) (base peer : Seqno) (s : List Sym) (una : Nat) (data : Text)
    (fin : Bool) (c : Conn) : Prop where
  send : ∃ nxt, SendOk o base peer c una nxt
  recv : RecvOk s c data fin

/-- The outcome of tcp_process, with what the application is still to be told. -/
structure Processed (o : Opts) (base peer : Seqno) (s : List Sym) (una : Nat) (c c' : Conn) :
    Prop where
  conn : ConnOk o base peer s una (held c'.recvData) c'.recvFlags.gotFin c'
  ne_closed : c'.pcb.state ≠ .closed
  refusedData : c'.pcb.refusedData = none
  stream : c'.stream = c.stream
  received : c.received <+: c'.received

theorem tcpProcess_spec {j : Nat} (h : SendOk o base peer c una nxt) (hr : RecvOk s c [] false)
    (hi : Idle s c) (hal : Alive c.pcb.state) (hnone : c.pcb.refusedData = none)
    (hin : inseg.tcphdr.flags.rst = false → inseg.tcphdr.flags.syn = false →
      Incoming base peer s c una j inseg) :
    ∃ c' una', tcpProcess o c inseg = some c' ∧ AckedTo una j una' ∧
      Processed o base peer s una' c c' := by
  have hsame : ∀ c', Emits o base peer una c c' → Processed o base peer s una c c' := by
    intro c' he
    obtain ⟨nxt', -, hok, hs⟩ := he nxt h
    refine ⟨⟨⟨nxt', hok⟩, ?_⟩, ?_, hs.refusedData.trans hnone, hs.stream, ?_⟩
    · rw [hs.recvData, hs.recvFlags, hi.recvData, hi.recvFlags]
      exact hr.same hs
    · rw [hs.state]
      exact hal.1
    · rw [hs.received]
  unfold tcpProcess
  dsimp only
  split
  · split
    · refine ⟨_, una, rfl, .inl rfl, ⟨⟨nxt, { h with }⟩, ?_⟩, hal.1, hnone, rfl,
        List.prefix_refl _⟩
      rw [hi.recvData, hi.recvFlags]
      exact { hr with }
    · exact ⟨c, una, rfl, .inl rfl, hsame c (Emits.refl c)⟩
  · rename_i hrst
    split
    · exact ⟨_, una, rfl, .inl rfl, hsame _ (tcpAckNow_emits c)⟩
    · rename_i hsyn
      obtain ⟨una', huna, c₁, nxt₁, heq, -, hok, hrec⟩ :=
        tcpReceive_spec h hi (hin (by simpa using hrst) (by simpa using hsyn))
      obtain ⟨nxt', -, hok', hmv⟩ := afterReceive_ok inseg.tcphdr hok (hrec.state ▸ hal)
      obtain ⟨fin, hnew, -⟩ := hrec.new
      refine ⟨_, una', by rw [heq]; rfl, huna, ⟨⟨nxt', hok'⟩, hr.moves hal hnone hrec hmv⟩,
        hmv.ne_closed, hmv.refusedData (hrec.refusedData.trans hnone),
        hmv.stream.trans hrec.stream, ?_⟩
      rw [hmv.received, hnew]
      exact List.prefix_append _ _

end Process

section Notify

theorem ConnOk.works (h : ConnOk o base peer s una data fin c) (hw : Works o base peer una c c') :
    ConnOk o base peer s una data fin c' ∧ Grows c c' := by
  obtain ⟨nxt, hok⟩ := h.send
  obtain ⟨nxt', -, hok', hgrow⟩ := hw nxt hok
  exact ⟨⟨⟨nxt', hok'⟩, h.recv.grows hgrow⟩, hgrow⟩

theorem ConnOk.emits (h : ConnOk o base peer s una data fin c) (he : Emits o base peer una c c') :
    ConnOk o base peer s una data fin c' ∧ Same c c' := by
  obtain ⟨nxt, hok⟩ := h.send
  obtain ⟨nxt', -, hok', hsame⟩ := he nxt hok
  exact ⟨⟨⟨nxt', hok'⟩, h.recv.same hsame⟩, hsame⟩

theorem ConnOk.stream_le (h : ConnOk o base peer s una data fin c) :
    una ≤ c.stream.length ∧ c.stream.length ≤ una + 2 ^ 16 := by
  obtain ⟨nxt, hok⟩ := h.send
  exact ⟨hok.snd.una_le.trans hok.snd.nxt_le, hok.snd.stream_le⟩

theorem ConnOk.setInputPcb (h : ConnOk o base peer s una data fin c) (b : Bool) :
    ConnOk o base peer s una data fin { c with inputPcb := b } := by
  obtain ⟨nxt, hok⟩ := h.send
  exact ⟨⟨nxt, { hok with }⟩, { h.recv with }⟩

/-- The data is the application's now. -/
theorem ConnOk.deliver {p : Chain} (h : ConnOk o base peer s una p.bytes fin c)
    (hst : c.pcb.state ≠ .closed) (hnone : c.pcb.refusedData = none) :
    ConnOk o base peer s una [] fin { c with delivered := c.delivered ++ p.bytes, recvData := none } := by
  obtain ⟨nxt, hok⟩ := h.send
  have hkept := h.recv.kept hst
  rw [hnone, held, List.append_nil] at hkept
  refine ⟨⟨nxt, { hok with }⟩, { h.recv with kept := fun _ => ?_, told := ?_ }⟩
  · rw [hkept, hnone, held, List.append_nil, List.append_nil]
  · rw [hkept]

/-- The application does not take the data. -/
theorem ConnOk.refuse {p : Chain} (h : ConnOk o base peer s una p.bytes fin c)
    (hst : c.pcb.state ≠ .closed) (hnone : c.pcb.refusedData = none) :
    ConnOk o base peer s una [] fin { c with recvData := none, pcb.refusedData := some p } := by
  obtain ⟨nxt, hok⟩ := h.send
  have hkept := h.recv.kept hst
  rw [hnone, held, List.append_nil] at hkept
  refine ⟨⟨nxt, { hok with }⟩, { h.recv with kept := fun _ => ?_ }⟩
  rw [hkept, held, List.append_nil]

/-- The application hears of the end of the stream. -/
theorem ConnOk.tellEof (h : ConnOk o base peer s una data true c)
    (hst : c.pcb.state ≠ .closed) :
    ConnOk o base peer s una data false { c with eofs := c.eofs + 1 } := by
  obtain ⟨nxt, hok⟩ := h.send
  have heofs := h.recv.eofs hst
  rw [if_pos rfl] at heofs
  exact ⟨⟨nxt, { hok with }⟩, { h.recv with eofs := fun _ => heofs, eofs_le := heofs.le }⟩

/-- After an event both sides of a connection are in order again, and what was
written and received before is still there. -/
structure EventOk (o : Opts) (base peer : Seqno) (s : List Sym) (una : Nat) (c c' : Conn) :
    Prop where
  conn : ConnOk o base peer s una [] false c'
  stream : c.stream <+: c'.stream
  received : c.received <+: c'.received

theorem ConnOk.event_of_works (h : ConnOk o base peer s una [] false c)
    (hw : Works o base peer una c c') : EventOk o base peer s una c c' := by
  obtain ⟨hok, hgrow⟩ := h.works hw
  exact ⟨hok, hgrow.stream, hgrow.received ▸ List.prefix_refl _⟩

theorem notifySent_works (ops : List AppOp) (c : Conn) :
    Works o base peer una c (notifySent o c ops) := by
  unfold notifySent
  split
  · exact runAppOps_works ops c
  · exact Works.refl c

theorem notifyData_ok (call : RecvCall) (h : ConnOk o base peer s una (held c.recvData) fin c)
    (hst : c.pcb.state ≠ .closed) (hnone : c.pcb.refusedData = none) :
    ConnOk o base peer s una [] fin (notifyData o c call) ∧
      (notifyData o c call).pcb.state ≠ .closed ∧ c.stream <+: (notifyData o c call).stream ∧
      (notifyData o c call).received = c.received ∧
      (notifyData o c call).recvFlags = c.recvFlags := by
  unfold notifyData
  split
  · rename_i hdata
    rw [hdata, held] at h
    exact ⟨h, hst, List.prefix_refl _, rfl, rfl⟩
  · rename_i p hdata
    rw [hdata, held] at h
    obtain ⟨hok, hgrow⟩ := h.works (runAppOps_works call.ops c)
    have hst' := (not_closed_of_grows hgrow).mpr hst
    have hnone' := hgrow.refusedData.trans hnone
    unfold eventRecv
    dsimp only
    split
    · rename_i heq
      obtain ⟨hacc, rfl⟩ := Prod.mk.inj heq
      rw [if_pos hacc]
      exact ⟨hok.deliver hst' hnone', hst', hgrow.stream, hgrow.received, hgrow.recvFlags⟩
    · rename_i heq
      obtain ⟨hacc, rfl⟩ := Prod.mk.inj heq
      rw [if_neg (by simp [hacc])]
      exact ⟨hok.refuse hst' hnone', hst', hgrow.stream, hgrow.received, hgrow.recvFlags⟩

theorem notifyEof_ok (ops : List AppOp)
    (h : ConnOk o base peer s una [] c.recvFlags.gotFin c) (hst : c.pcb.state ≠ .closed) :
    EventOk o base peer s una c (notifyEof o c ops) := by
  unfold notifyEof
  split
  · rename_i hgot
    rw [hgot] at h
    exact { (h.tellEof hst).event_of_works (runAppOps_works ops _) with }
  · rename_i hgot
    rw [Bool.not_eq_true] at hgot
    rw [hgot] at h
    exact ⟨h, List.prefix_refl _, List.prefix_refl _⟩

theorem EventOk.trans {c'' : Conn} (h : EventOk o base peer s una c c')
    (h' : EventOk o base peer s una c' c'') : EventOk o base peer s una c c'' :=
  ⟨h'.conn, h.stream.trans h'.stream, h.received.trans h'.received⟩

theorem notify_ok (cb : Callbacks)
    (h : ConnOk o base peer s una (held c.recvData) c.recvFlags.gotFin c)
    (hst : c.pcb.state ≠ .closed) (hnone : c.pcb.refusedData = none) :
    EventOk o base peer s una c (notify o c cb) := by
  obtain ⟨hsent, hgrow⟩ := h.works (notifySent_works cb.sent c)
  rw [← hgrow.recvData] at hsent
  obtain ⟨hdata, hst', hstream, hreceived, hflags⟩ := notifyData_ok cb.recv hsent
    ((not_closed_of_grows hgrow).mpr hst) (hgrow.refusedData.trans hnone)
  rw [← hgrow.recvFlags, ← hflags] at hdata
  have heof := notifyEof_ok cb.eof hdata hst'
  obtain ⟨hout, hsame⟩ := (heof.conn.setInputPcb false).emits (tcpOutput_emits _)
  refine ⟨hout, ?_, ?_⟩
  · unfold notify
    rw [hsame.stream]
    exact (hgrow.stream.trans hstream).trans heof.stream
  · unfold notify
    rw [hsame.received, ← hgrow.received, ← hreceived]
    exact heof.received

end Notify

section Input

variable {j : Nat}

theorem RecvOk.close (h : RecvOk s c data fin) :
    RecvOk s { c with pcb := { tcpPcbPurge c.pcb with state := .closed } } [] false where
  prefixed := h.prefixed
  peerDone hst := absurd rfl hst
  closing hal := absurd rfl hal.1
  kept hst := absurd rfl hst
  told := h.told
  eofs hst := absurd rfl hst
  eofs_le := h.eofs_le

theorem ConnOk.close (h : ConnOk o base peer s una data fin c) :
    ConnOk o base peer s una [] false
      { c with pcb := { tcpPcbPurge c.pcb with state := .closed } } := by
  obtain ⟨nxt, hok⟩ := h.send
  exact ⟨⟨nxt, purge_ok hok fun ha => ha.1 rfl⟩, h.recv.close⟩

theorem ConnOk.event_of_emits (h : ConnOk o base peer s una [] false c)
    (he : Emits o base peer una c c') : EventOk o base peer s una c c' :=
  h.event_of_works (works_of_emits he)

theorem tcpPcbRemove_ok (h : ConnOk o base peer s una data fin c) (hst : c.pcb.state ≠ .closed) :
    EventOk o base peer s una c (tcpPcbRemove c) := by
  obtain ⟨c', he, heq⟩ := tcpPcbRemove_eq (o := o) hst
  rw [heq]
  exact { h.close.event_of_emits he with }

theorem notifyRefused_ok (call : RecvCall) (h : ConnOk o base peer s una [] false c)
    (hst : c.pcb.state ≠ .closed) {taken : Bool} (heq : notifyRefused o c call = (taken, c')) :
    EventOk o base peer s una c c' ∧ (taken = true → c'.pcb.refusedData = none) ∧
      c'.received = c.received ∧ c'.recvData = c.recvData ∧ c'.recvFlags = c.recvFlags ∧
      (Alive c'.pcb.state ↔ Alive c.pcb.state) := by
  unfold notifyRefused eventRecv at heq
  split at heq
  · rename_i hnone
    obtain ⟨-, rfl⟩ := Prod.mk.inj heq
    exact ⟨h.event_of_emits (Emits.refl _), fun _ => hnone, rfl, rfl, rfl, Iff.rfl⟩
  · rename_i p hdata
    obtain ⟨hok, hgrow⟩ := h.works (runAppOps_works call.ops c)
    have hst' := (not_closed_of_grows hgrow).mpr hst
    obtain ⟨nxt, hsend⟩ := hok.send
    have hkept := hok.recv.kept hst'
    rw [hgrow.refusedData, hdata, held, List.append_nil] at hkept
    dsimp only at heq
    split at heq
    · rename_i c₁ hcall
      obtain ⟨hacc, hc₁⟩ := Prod.mk.inj hcall
      obtain ⟨rfl, rfl⟩ := Prod.mk.inj heq
      rw [if_pos hacc] at hc₁
      subst hc₁
      refine ⟨⟨⟨⟨nxt, { hsend with }⟩, { hok.recv with kept := fun _ => ?_, told := ?_ }⟩,
        hgrow.stream, ?_⟩, fun _ => rfl, hgrow.received, hgrow.recvData, hgrow.recvFlags,
        hgrow.alive_iff⟩
      · rw [hkept, held, List.append_nil, List.append_nil]
      · rw [hkept]
      · exact hgrow.received ▸ List.prefix_refl _
    · rename_i c₁ hcall
      obtain ⟨hacc, hc₁⟩ := Prod.mk.inj hcall
      obtain ⟨rfl, rfl⟩ := Prod.mk.inj heq
      rw [if_neg (by simp [hacc])] at hc₁
      subst hc₁
      exact ⟨⟨hok, hgrow.stream, hgrow.received ▸ List.prefix_refl _⟩,
        fun ht => absurd ht (by decide), hgrow.received, hgrow.recvData, hgrow.recvFlags,
        hgrow.alive_iff⟩

theorem activeInput_ok (cb : Callbacks) (h : ConnOk o base peer s una [] false c)
    (hal : Alive c.pcb.state)
    (hin : inseg.tcphdr.flags.rst = false → inseg.tcphdr.flags.syn = false →
      Incoming base peer s c una j inseg) :
    ∃ c' una', activeInput o c inseg cb = some c' ∧ AckedTo una j una' ∧
      EventOk o base peer s una' c c' := by
  obtain ⟨nxt, hsend⟩ := h.send
  have h₀ : ConnOk o base peer s una [] false { c with recvData := none, recvFlags := {} } :=
    ⟨⟨nxt, { hsend with }⟩, { h.recv with }⟩
  obtain ⟨taken, c₁, heq⟩ : ∃ taken c₁, notifyRefused o
      { c with recvData := none, recvFlags := {} } cb.refused = (taken, c₁) := ⟨_, _, rfl⟩
  obtain ⟨hev, hnone, hreceived, hdata, hflags, halive⟩ :=
    notifyRefused_ok cb.refused h₀ hal.1 heq
  unfold activeInput
  rw [heq]
  cases taken with
  | false => exact ⟨c₁, una, rfl, .inl rfl, { hev with }⟩
  | true =>
    obtain ⟨nxt₁, hsend₁⟩ := hev.conn.send
    have hal₁ : Alive c₁.pcb.state := halive.mpr hal
    obtain ⟨c₂, una', heq₂, huna, hproc⟩ := tcpProcess_spec (o := o)
      (c := { c₁ with inputPcb := true }) { hsend₁ with } { hev.conn.recv with }
      ⟨hdata, hflags, hev.conn.recv.prefixed⟩ hal₁ (hnone rfl)
      fun hrst hsyn => (hin hrst hsyn).grows hev.stream hreceived
    have hend : EventOk o base peer s una' c₂ (if c₂.recvFlags.reset ∨ c₂.recvFlags.closed then
        tcpPcbRemove c₂ else notify o c₂ cb) := by
      split
      · exact tcpPcbRemove_ok hproc.conn hproc.ne_closed
      · exact notify_ok cb hproc.conn hproc.ne_closed hproc.refusedData
    dsimp only
    rw [heq₂, Option.map_some]
    refine ⟨_, una', rfl, huna, hend.conn.setInputPcb false, ?_, ?_⟩
    · have hs : c₁.stream <+: c₂.stream := by rw [hproc.stream]
      exact (hev.stream.trans hs).trans hend.stream
    · exact (hev.received.trans hproc.received).trans hend.received

theorem tcpTimewaitInput_emits (c : Conn) (inseg : Inseg) :
    Emits o base peer una c (tcpTimewaitInput o c inseg) := by
  unfold tcpTimewaitInput
  dsimp only
  split
  · exact Emits.refl c
  · split
    · exact tcpRst_emits c _ _
    · split
      · refine .trans ?_ (tcpOutput_emits _)
        exact quiet_emits rfl rfl rfl rfl (by constructor <;> rfl)
      · exact Emits.refl c

/-- Any packet of the peer leaves the connection in order. -/
theorem tcpInput_ok (hdr : TcpHdr) (p : Chain) (cb : Callbacks)
    (h : ConnOk o base peer s una [] false c)
    (hin : hdr.flags.rst = false → hdr.flags.syn = false →
      Incoming base peer s c una j { p := p, len := p.totLen, tcphdr := hdr }) :
    ∃ c' una', tcpInput o c hdr p cb = some c' ∧ AckedTo una j una' ∧
      EventOk o base peer s una' c c' := by
  unfold tcpInput
  dsimp only
  split
  · split
    · exact ⟨c, una, rfl, .inl rfl, h.event_of_emits (Emits.refl c)⟩
    · exact ⟨_, una, rfl, .inl rfl, h.event_of_emits (tcpRst_emits c _ _)⟩
  · exact ⟨_, una, rfl, .inl rfl, h.event_of_emits (tcpTimewaitInput_emits c _)⟩
  · rename_i hst hst'
    exact activeInput_ok cb h ⟨hst, hst'⟩ hin

end Input

end PopcornFirmware.Lwip.TcpInput
