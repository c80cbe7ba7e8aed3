import PopcornFirmware.Lwip.TcpConn

namespace PopcornFirmware.Lwip.TcpApp

open PopcornFirmware.Lib.CText PopcornFirmware.Lib.SeqNum PopcornFirmware.Lwip.Tcp
  PopcornFirmware.Lwip.TcpOut PopcornFirmware.Lwip.TcpPcb PopcornFirmware.Lwip.TcpQueue
  PopcornFirmware.Lwip.TcpEnqueue PopcornFirmware.Lwip.TcpConn

variable {o : Opts} {base peer : Seqno} {c c' c'' : Conn} {una nxt : Nat}

/-- What an application leaves alone when it works with its connection. It may
add to the stream, and close a connection that it can still write to. -/
structure Grows (c c' : Conn) : Prop where
  state : c'.pcb.state = c.pcb.state ∨
    Writable c.pcb.state ∧ Alive c'.pcb.state ∧ ¬ Writable c'.pcb.state ∧ .fin ∈ c'.stream
  peerDone : PeerDone c'.pcb.state ↔ PeerDone c.pcb.state
  rcvNxt : c'.pcb.rcv.rcvNxt = c.pcb.rcv.rcvNxt
  refusedData : c'.pcb.refusedData = c.pcb.refusedData
  recvData : c'.recvData = c.recvData
  recvFlags : c'.recvFlags = c.recvFlags
  inputPcb : c'.inputPcb = c.inputPcb
  stream : c.stream <+: c'.stream
  received : c'.received = c.received
  delivered : c'.delivered = c.delivered
  eofs : c'.eofs = c.eofs

theorem alive_of_writable {st : TcpState} (h : Writable st) : Alive st := by
  obtain rfl | rfl := h <;> exact ⟨by decide, by decide⟩

theorem Grows.alive_iff (h : Grows c c') : Alive c'.pcb.state ↔ Alive c.pcb.state := by
  obtain heq | ⟨hw, ha, -⟩ := h.state
  · rw [heq]
  · exact ⟨fun _ => alive_of_writable hw, fun _ => ha⟩

theorem Grows.refl (c : Conn) : Grows c c where
  state := .inl rfl
  peerDone := Iff.rfl
  rcvNxt := rfl
  refusedData := rfl
  recvData := rfl
  recvFlags := rfl
  inputPcb := rfl
  stream := List.prefix_refl _
  received := rfl
  delivered := rfl
  eofs := rfl

theorem Grows.trans (h : Grows c c') (h' : Grows c' c'') : Grows c c'' where
  state := by
    obtain heq' | ⟨hw', ha'⟩ := h'.state
    · rw [heq']
      obtain heq | ⟨hw, ha, hnw, hfin⟩ := h.state
      · exact .inl heq
      · exact .inr ⟨hw, ha, hnw, h'.stream.subset hfin⟩
    · obtain heq | ⟨-, -, hnw, -⟩ := h.state
      · exact .inr ⟨heq ▸ hw', ha'⟩
      · exact absurd hw' hnw
  peerDone := h'.peerDone.trans h.peerDone
  rcvNxt := h'.rcvNxt.trans h.rcvNxt
  refusedData := h'.refusedData.trans h.refusedData
  recvData := h'.recvData.trans h.recvData
  recvFlags := h'.recvFlags.trans h.recvFlags
  inputPcb := h'.inputPcb.trans h.inputPcb
  stream := h.stream.trans h'.stream
  received := h'.received.trans h.received
  delivered := h'.delivered.trans h.delivered
  eofs := h'.eofs.trans h.eofs

theorem grows_of_same (h : Same c c') : Grows c c' :=
  ⟨.inl h.state, by rw [h.state], h.rcvNxt, h.refusedData, h.recvData, h.recvFlags, h.inputPcb,
    h.stream ▸ List.prefix_refl _, h.received, h.delivered, h.eofs⟩

def Works (o : Opts) (base peer : Seqno) (una : Nat) (c c' : Conn) : Prop :=
  ∀ nxt, SendOk o base peer c una nxt →
    ∃ nxt', nxt ≤ nxt' ∧ SendOk o base peer c' una nxt' ∧ Grows c c'

theorem Works.refl (c : Conn) : Works o base peer una c c :=
  fun nxt h => ⟨nxt, le_refl _, h, Grows.refl c⟩

theorem Works.trans (h : Works o base peer una c c') (h' : Works o base peer una c' c'') :
    Works o base peer una c c'' := by
  intro nxt hok
  obtain ⟨nxt', hle, hok', hgrow⟩ := h nxt hok
  obtain ⟨nxt'', hle', hok'', hgrow'⟩ := h' nxt' hok'
  exact ⟨nxt'', hle.trans hle', hok'', hgrow.trans hgrow'⟩

theorem works_of_emits (h : Emits o base peer una c c') : Works o base peer una c c' := by
  intro nxt hok
  obtain ⟨nxt', hle, hok', hsame⟩ := h nxt hok
  exact ⟨nxt', hle, hok', grows_of_same hsame⟩

section Write

variable {flags : HdrFlags} {arg : Text} {copy more : Bool} {e : Err}

/-- Whatever comes of it, tcp_enqueue changes the sender variables, the flags
and the stream only. -/
theorem tcpEnqueue_rest (heq : tcpEnqueue o c arg flags copy more = (e, c')) :
    c' = { c with
      mem := c'.mem, stream := c'.stream
      pcb := { c.pcb with flags := c'.pcb.flags, snd := c'.pcb.snd } } := by
  unfold tcpEnqueue at heq
  split at heq
  · obtain ⟨-, rfl⟩ := Prod.mk.inj heq
    rfl
  · split at heq
    · obtain ⟨-, rfl⟩ := Prod.mk.inj heq
      rfl
    · split at heq
      · obtain ⟨-, rfl⟩ := Prod.mk.inj heq
        rfl
      · split at heq
        · obtain ⟨-, rfl⟩ := Prod.mk.inj heq
          rfl
        · obtain ⟨-, rfl⟩ := Prod.mk.inj heq
          rfl

/-- Data or a FIN is enqueued on a connection that is open; with the FIN the
connection goes to a state in which nothing can be written. -/
theorem tcpEnqueue_send (h : SendOk o base peer c una nxt) (hw : Writable c.pcb.state)
    (hsyn : flags.syn = false) (hrst : flags.rst = false) (hfin : flags.fin = true ↔ arg = [])
    (heq : tcpEnqueue o c arg flags copy more = (e, c')) {st : TcpState}
    (hst : st = c.pcb.state ∨ Alive st ∧ ¬ Writable st ∧ flags.fin = true ∧ e = .ok ∧
      (PeerDone st ↔ PeerDone c.pcb.state))
    (hst' : flags.fin = true → e = .ok → ¬ Writable st) :
    SendOk o base peer { c' with pcb.state := st } una nxt ∧
      Grows c { c' with pcb.state := st } := by
  have hrest := tcpEnqueue_rest heq
  have hopen := h.opened hw
  have halive : Alive st ↔ Alive c.pcb.state := by
    obtain rfl | ⟨ha, -⟩ := hst
    · rfl
    · exact ⟨fun _ => alive_of_writable hw, fun _ => ha⟩
  have hdone : PeerDone st ↔ PeerDone c.pcb.state := by
    obtain rfl | ⟨-, -, -, -, hdone⟩ := hst
    · rfl
    · exact hdone
  obtain ⟨hok, hstream, hsnd⟩ | ⟨herr, hstream, hsnd⟩ :=
    tcpEnqueue_spec h.snd hopen hsyn hrst hfin heq
  · have hpre : c.stream <+: c'.stream := hstream ▸ List.prefix_append _ _
    have hstate : st = c.pcb.state ∨
        Writable c.pcb.state ∧ Alive st ∧ ¬ Writable st ∧ .fin ∈ c'.stream := by
      obtain heq | ⟨ha, hnw, hf, -⟩ := hst
      · exact .inl heq
      · refine .inr ⟨hw, ha, hnw, ?_⟩
        rw [hstream, hf, syms_fin]
        simp
    rw [hrest]
    refine ⟨?_, ⟨hstate, hdone, rfl, rfl, rfl, rfl, rfl, hpre, rfl, rfl, rfl⟩⟩
    refine
      { snd := ?_, rcvNxt := h.rcvNxt, sndWnd_lt := h.sndWnd_lt, rcvWnd_lt := h.rcvWnd_lt,
        rcvAnnWnd_lt := h.rcvAnnWnd_lt, opened := fun hwr => ?_, shape := ?_,
        out := fun f hf => (h.out f hf).mono hpre (List.prefix_refl _) }
    · rw [← propext halive] at hsnd
      exact hsnd
    · have hfinF : flags.fin = false := by
        rw [← Bool.not_eq_true]
        exact fun hf => hst' hf hok hwr
      dsimp only
      rw [hstream, hfinF]
      simpa [syms] using hopen
    · obtain ⟨data, fin, hshape⟩ := h.shape
      have hfinF : fin = false := by
        rw [← Bool.not_eq_true, ← fin_mem_syms data, ← hshape]
        exact hopen
      refine ⟨data ++ arg, flags.fin, ?_⟩
      dsimp only
      rw [hstream, hshape, hfinF, syms_append]
  · have hstate : st = c.pcb.state := by
      obtain heq | ⟨-, -, -, hok, -⟩ := hst
      · exact heq
      · exact absurd hok herr
    rw [hrest, hsnd, hstream]
    refine ⟨?_, ⟨.inl hstate, hdone, rfl, rfl, rfl, rfl, rfl, List.prefix_refl _, rfl, rfl, rfl⟩⟩
    refine
      { snd := ?_, rcvNxt := h.rcvNxt, sndWnd_lt := h.sndWnd_lt, rcvWnd_lt := h.rcvWnd_lt,
        rcvAnnWnd_lt := h.rcvAnnWnd_lt, opened := fun _ => hopen, shape := h.shape,
        out := h.out }
    have hs := h.snd
    rw [← propext halive] at hs
    exact hs

theorem tcpWrite_works (c : Conn) (data : Text) (copy more : Bool) :
    Works o base peer una c (tcpWrite o c data copy more).2 := by
  have hsend : Writable c.pcb.state →
      Works o base peer una c
        (if 0 < data.length then tcpEnqueue o c data {} copy more else (.ok, c)).2 := by
    intro hw
    split
    · rename_i hpos
      intro nxt h
      have hne : data ≠ [] := List.length_pos_iff.mp hpos
      obtain ⟨e, c₁, heq⟩ : ∃ e c₁, tcpEnqueue o c data {} copy more = (e, c₁) := ⟨_, _, rfl⟩
      obtain ⟨hok, hgrow⟩ := tcpEnqueue_send h hw rfl rfl (by simp [hne]) heq (.inl rfl) (by simp)
      have hstate : c₁.pcb.state = c.pcb.state := by rw [tcpEnqueue_rest heq]
      rw [← hstate] at hok hgrow
      rw [heq]
      exact ⟨nxt, le_refl _, hok, hgrow⟩
    · exact Works.refl c
  unfold tcpWrite
  split
  · rename_i hst
    exact hsend (.inl hst)
  · rename_i hst
    exact hsend (.inr hst)
  · exact Works.refl c

theorem closeTo_works {next : TcpState} (c : Conn) (hw : Writable c.pcb.state)
    (ha : Alive next) (hnw : ¬ Writable next) (hdone : PeerDone next ↔ PeerDone c.pcb.state) :
    Works o base peer una c (closeTo o next c).2 := by
  unfold closeTo
  split
  · rename_i c₁ heq
    refine .trans (fun nxt h => ?_) (works_of_emits (tcpOutput_emits _))
    obtain ⟨hok, hgrow⟩ := tcpEnqueue_send h hw rfl rfl (by simp) heq
      (.inr ⟨ha, hnw, rfl, rfl, hdone⟩) (fun _ _ => hnw)
    exact ⟨nxt, le_refl _, hok, hgrow⟩
  · rename_i e c₁ hne heq
    intro nxt h
    obtain ⟨hok, hgrow⟩ := tcpEnqueue_send h hw rfl rfl (by simp) heq (.inl rfl)
      (fun _ he => absurd he hne)
    have hstate : c₁.pcb.state = c.pcb.state := by rw [tcpEnqueue_rest heq]
    rw [← hstate] at hok hgrow
    exact ⟨nxt, le_refl _, hok, hgrow⟩

theorem tcpClose_works (c : Conn) : Works o base peer una c (tcpClose o c).2 := by
  unfold tcpClose
  split
  · rename_i hst
    exact closeTo_works c (.inl hst) ⟨by decide, by decide⟩ (by rintro (h | h) <;> cases h)
      (by simp [PeerDone, hst])
  · rename_i hst
    exact closeTo_works c (.inr hst) ⟨by decide, by decide⟩ (by rintro (h | h) <;> cases h)
      (by simp [PeerDone, hst])
  · exact Works.refl c

end Write

section App

/-- The window to announce changes, and nothing else about the receiver. -/
theorem tcpUpdateRcvAnnWnd_spec (mss : Nat) (r : Rcv) :
    ∃ wnd, (tcpUpdateRcvAnnWnd o mss r).2 = { r with rcvAnnWnd := wnd } ∧
      (r.rcvWnd < 2 ^ 16 → wnd < 2 ^ 16) := by
  unfold tcpUpdateRcvAnnWnd
  dsimp only
  split
  · exact ⟨r.rcvWnd, rfl, id⟩
  · split
    · exact ⟨0, rfl, fun _ => by decide⟩
    · exact ⟨_, rfl, fun _ => Nat.mod_lt _ (by decide)⟩

theorem growRcvWnd_lt (r : Rcv) (len : Nat) : (growRcvWnd o r len).rcvWnd < 2 ^ 16 := by
  have hlt := o.tcpWnd_lt
  have hmod : (r.rcvWnd + len) % 2 ^ 16 < 2 ^ 16 := Nat.mod_lt _ (by decide)
  unfold growRcvWnd
  dsimp only
  split <;> omega

theorem tcpRecved_works (c : Conn) (len : Nat) : Works o base peer una c (tcpRecved o c len) := by
  have hset : Works o base peer una c { c with
      pcb.rcv := (tcpUpdateRcvAnnWnd o c.pcb.mss (growRcvWnd o c.pcb.rcv len)).2 } := by
    intro nxt h
    obtain ⟨wnd, hrcv, hwnd⟩ :=
      tcpUpdateRcvAnnWnd_spec (o := o) c.pcb.mss (growRcvWnd o c.pcb.rcv len)
    have hlt : (growRcvWnd o c.pcb.rcv len).rcvWnd < 2 ^ 16 := growRcvWnd_lt c.pcb.rcv len
    rw [hrcv]
    exact ⟨nxt, le_refl _, { h with rcvWnd_lt := hlt, rcvAnnWnd_lt := hwnd hlt },
      { Grows.refl c with }⟩
  unfold tcpRecved
  dsimp only
  split
  · exact hset.trans (works_of_emits (tcpAckNow_emits _))
  · exact hset

theorem runAppOp_works (c : Conn) (op : AppOp) : Works o base peer una c (runAppOp o c op) := by
  cases op with
  | write data copy more => exact tcpWrite_works c data copy more
  | output => exact works_of_emits (tcpOutput_emits c)
  | recved len => exact tcpRecved_works c len
  | nagle disable =>
    exact works_of_emits (quiet_emits rfl rfl rfl rfl (by constructor <;> rfl))
  | close => exact tcpClose_works c

theorem runAppOps_works (ops : List AppOp) (c : Conn) :
    Works o base peer una c (runAppOps o c ops) := by
  induction ops generalizing c with
  | nil => exact Works.refl c
  | cons op ops ih => exact (runAppOp_works c op).trans (ih (runAppOp o c op))

end App

end PopcornFirmware.Lwip.TcpApp
