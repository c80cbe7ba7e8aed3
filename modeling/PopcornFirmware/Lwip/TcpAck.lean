import PopcornFirmware.Lwip.TcpIn
import PopcornFirmware.Lwip.TcpQueue

namespace PopcornFirmware.Lwip.TcpAck

open PopcornFirmware.Lib.CText PopcornFirmware.Lib.SeqNum PopcornFirmware.Lib.Intervals
  PopcornFirmware.Lwip.Tcp PopcornFirmware.Lwip.TcpOut PopcornFirmware.Lwip.TcpPcb
  PopcornFirmware.Lwip.TcpIn PopcornFirmware.Lwip.TcpQueue

variable {o : Opts} {base : Seqno} {alive : Prop} {stream : List Sym} {pcb : Pcb} {s : Snd}
  {una nxt j : Nat} {hdr : TcpHdr} {tcplen : Nat}

section RemoveAcked

variable (covered : Seg → Prop) [DecidablePred covered]

theorem removeAcked_spec (q : List Seg) (acked n : Nat) (hn : pbufCount q ≤ n) (hlt : n < 2 ^ 16) :
    ∃ gone, q = gone ++ (removeAcked covered q acked n).1 ∧ (∀ x ∈ gone, covered x) ∧
      (∀ x ∈ (removeAcked covered q acked n).1.head?, ¬ covered x) ∧
      (removeAcked covered q acked n).2.2 + pbufCount gone = n := by
  induction q generalizing acked n with
  | nil => exact ⟨[], rfl, by simp, by simp [removeAcked], rfl⟩
  | cons seg rest ih =>
    by_cases hc : covered seg
    · have hcount : pbufCount (seg :: rest) = seg.p.length + pbufCount rest := rfl
      have hsub : (n + 2 ^ 16 - seg.p.length) % 2 ^ 16 = n - seg.p.length := by omega
      obtain ⟨gone, hq, hcov, hhead, hsum⟩ :=
        ih (if acked ≠ 0 ∧ seg.tcphdr.flags.fin then acked - 1 else acked) (n - seg.p.length)
          (by omega) (by omega)
      rw [removeAcked, if_pos hc, hsub]
      refine ⟨seg :: gone, by rw [List.cons_append, ← hq], ?_, hhead, ?_⟩
      · exact List.forall_mem_cons.mpr ⟨hc, hcov⟩
      · have hgone : pbufCount (seg :: gone) = seg.p.length + pbufCount gone := rfl
        omega
    · rw [removeAcked, if_neg hc]
      exact ⟨[], rfl, by simp, by simpa using hc, rfl⟩

end RemoveAcked

section SndAck

variable {gone rest : List Seg} {sndBuf sndQueuelen acked : Nat}

/-- New data is acknowledged up to j. -/
theorem ackTo_ok (h : SndOk o base alive stream s una nxt) (hlt : una < j) (hle : j ≤ nxt)
    (hgone : s.unacked = gone ++ rest) (hcov : ∀ x ∈ gone, stop x ≤ j)
    (hhead : ∀ x ∈ rest.head?, ¬ stop x ≤ j) (hlen : sndQueuelen + pbufCount gone = s.sndQueuelen)
    (hbuf : sndBuf = (s.sndBuf + (j - una)) % 2 ^ 16) :
    SndOk o base alive stream
      { s with
        lastack := pos base j, unacked := rest, sndBuf := sndBuf, sndQueuelen := sndQueuelen
        acked := acked } j nxt := by
  have hqueue : s.unacked ++ s.unsent = gone ++ (rest ++ s.unsent) := by
    rw [hgone, List.append_assoc]
  have hsub : (rest ++ s.unsent).Sublist (s.unacked ++ s.unsent) := by
    rw [hqueue]
    exact List.sublist_append_right _ _
  have hsorted : rest.Pairwise (Before Seg.place stop) :=
    (List.pairwise_append.mp (hgone ▸ h.sorted)).2.1
  refine
    { lastack := rfl, sndNxt := h.sndNxt, sndLbb := h.sndLbb, una_le := hle, nxt_le := h.nxt_le,
      buf := ⟨?_, ?_, ?_⟩, queuelen := ?_, queuelen_le := ?_,
      segs := fun x hx => h.segs x (hsub.subset hx), packed := h.packed.sublist hsub,
      covers := fun hal => (hqueue ▸ h.covers hal).of_append hlt.le hcov, sorted := hsorted,
      sent := fun x hx => ⟨?_, (h.sent x (by simp [hgone, hx])).2⟩, order := h.order,
      recent := h.recent }
  · have := h.buf.le
    omega
  · have heq := h.buf.eq
    have hnxt := h.nxt_le
    rw [hbuf]
    dsimp only
    omega
  · rw [hbuf]
    exact Nat.mod_lt _ (by decide)
  · refine h.queuelen.change ?_
    rw [hqueue, pbufCount_append]
    dsimp only
    omega
  · have := h.queuelen_le
    dsimp only
    omega
  · cases rest with
    | nil => simp at hx
    | cons y ys =>
      have hy : ¬ stop y ≤ j := hhead y (by simp)
      obtain rfl | hx' := List.mem_cons.mp hx
      · omega
      · have hbefore := (List.pairwise_cons.mp hsorted).1 x hx'
        have hne := h.packed.nonempty x (by simp [hgone, hx'])
        unfold Before at hbefore
        omega

/-- Acknowledged segments leave the unsent queue. -/
theorem dropUnsent_ok (h : SndOk o base alive stream s una nxt)
    (hgone : s.unsent = gone ++ rest) (hcov : ∀ x ∈ gone, stop x ≤ una)
    (hlen : sndQueuelen + pbufCount gone = s.sndQueuelen) :
    SndOk o base alive stream
      { s with unsent := rest, sndQueuelen := sndQueuelen, acked := acked } una nxt := by
  have hperm : (s.unacked ++ s.unsent).Perm (gone ++ (s.unacked ++ rest)) := by
    rw [hgone, ← List.append_assoc, ← List.append_assoc]
    exact List.perm_append_comm.append_right rest
  have hsub : (s.unacked ++ rest).Sublist (s.unacked ++ s.unsent) := by
    rw [hgone]
    exact (List.sublist_append_right gone rest).append_left s.unacked
  refine
    { lastack := h.lastack, sndNxt := h.sndNxt, sndLbb := h.sndLbb, una_le := h.una_le,
      nxt_le := h.nxt_le, buf := h.buf, queuelen := ?_, queuelen_le := ?_,
      segs := fun x hx => h.segs x (hsub.subset hx), packed := h.packed.sublist hsub,
      covers := fun hal => ((h.covers hal).perm hperm).of_append (le_refl una) hcov,
      sorted := h.sorted, sent := h.sent,
      order := (List.pairwise_append.mp (hgone ▸ h.order)).2.1,
      recent := fun x hx => h.recent x (by simp [hgone, hx]) }
  · refine (h.queuelen.perm hperm).change ?_
    rw [pbufCount_append]
    dsimp only
    omega
  · have := h.queuelen_le
    dsimp only
    omega

end SndAck

section Pcb

/-- The parts of a pcb that ACK processing leaves alone. -/
structure SameRcv (pcb pcb' : Pcb) : Prop where
  state : pcb'.state = pcb.state
  rcv : pcb'.rcv = pcb.rcv
  mss : pcb'.mss = pcb.mss
  refusedData : pcb'.refusedData = pcb.refusedData
  sndWnd : pcb'.ctl.sndWnd = pcb.ctl.sndWnd

theorem SameRcv.trans {p q r : Pcb} (h : SameRcv p q) (h' : SameRcv q r) : SameRcv p r :=
  ⟨h'.state.trans h.state, h'.rcv.trans h.rcv, h'.mss.trans h.mss,
    h'.refusedData.trans h.refusedData, h'.sndWnd.trans h.sndWnd⟩

theorem setAcked_ok (h : SndOk o base alive stream s una nxt) (acked : Nat) :
    SndOk o base alive stream { s with acked := acked } una nxt := { h with }

theorem tcpRexmit_spec (pcb : Pcb) (h : SndOk o base alive stream pcb.snd una nxt) :
    SndOk o base alive stream (tcpRexmit pcb).snd una nxt ∧ SameRcv pcb (tcpRexmit pcb) := by
  unfold tcpRexmit
  split
  · exact ⟨h, rfl, rfl, rfl, rfl, rfl⟩
  · rename_i hunacked
    exact ⟨h.requeueHead hunacked, rfl, rfl, rfl, rfl, rfl⟩

theorem tcpRexmitFast_spec (pcb : Pcb) (h : SndOk o base alive stream pcb.snd una nxt) :
    SndOk o base alive stream (tcpRexmitFast pcb).snd una nxt ∧
      SameRcv pcb (tcpRexmitFast pcb) := by
  unfold tcpRexmitFast
  split
  · obtain ⟨hsnd, hsame⟩ := tcpRexmit_spec pcb h
    exact ⟨hsnd, { hsame with }⟩
  · exact ⟨h, rfl, rfl, rfl, rfl, rfl⟩

theorem oldAck_spec (pcb : Pcb) (ackno rightWndEdge : Seqno) (tcplen : Nat)
    (h : SndOk o base alive stream pcb.snd una nxt) :
    SndOk o base alive stream (oldAck pcb ackno tcplen rightWndEdge).snd una nxt ∧
      SameRcv pcb (oldAck pcb ackno tcplen rightWndEdge) := by
  have hacked := setAcked_ok h 0
  unfold oldAck
  dsimp only
  split
  · split
    · split <;> exact ⟨hacked, rfl, rfl, rfl, rfl, rfl⟩
    · split
      · obtain ⟨hsnd, hsame⟩ := tcpRexmitFast_spec { pcb with
          snd.acked := 0, ctl.dupacks := (pcb.ctl.dupacks + 1) % 2 ^ 8 } hacked
        exact ⟨hsnd, { hsame with }⟩
      · exact ⟨hacked, rfl, rfl, rfl, rfl, rfl⟩
  · exact ⟨hacked, rfl, rfl, rfl, rfl, rfl⟩

theorem growCwnd_sndWnd (mss : Nat) (ctl : Ctl) : (growCwnd mss ctl).sndWnd = ctl.sndWnd := by
  unfold growCwnd
  dsimp only
  split <;> split <;> rfl

/-- An ACK number is compared exactly with the end of any queued segment. -/
theorem near_stop {seg : Seg} (h : SndOk o base alive stream s una nxt)
    (hseg : seg ∈ s.unacked ++ s.unsent) (hj : j ≤ stream.length)
    (hrecent : una < j + 2 ^ 30) : Near 32 (stop seg) j ∧ Near 32 j (stop seg) := by
  have hplace := h.stream_le_place hseg
  have hstream := h.stream_le
  have hlen := (h.segs seg hseg).tcplen_le
  have hstop := h.stop_le hseg
  have hend : seg.place ≤ stop seg := Nat.le_add_right _ _
  exact ⟨near_of (by omega) (by omega), near_of (by omega) (by omega)⟩

theorem newAck_spec (pcb : Pcb) (h : SndOk o base alive stream pcb.snd una nxt) (hlt : una < j)
    (hle : j ≤ nxt) :
    SndOk o base alive stream (newAck pcb (pos base j)).snd j nxt ∧
      SameRcv pcb (newAck pcb (pos base j)) := by
  have hnxt := h.nxt_le
  have hstream := h.stream_le
  have hqlen := h.queuelen.le
  have hqle := h.queuelen_le
  have hqlt := o.tcpSndQueuelen_lt
  rw [pbufCount_append] at hqlen
  have hdiff : (pos base j - pcb.snd.lastack).toNat = j - una := by
    have hsub : ((pos base j - pos base una).toNat : Int) = j - una :=
      toNat_pos_sub_pos (by omega) (by omega)
    rw [h.lastack]
    omega
  have hcov : ∀ x ∈ pcb.snd.unacked,
      seqLeq (x.tcphdr.seqno + BitVec.ofNat 32 x.tcplen) (pos base j) ↔ stop x ≤ j := by
    intro x hx
    have hmem : x ∈ pcb.snd.unacked ++ pcb.snd.unsent := List.mem_append_left _ hx
    rw [(h.segs x hmem).seqno_stop,
      seqLeq_pos (by decide) (near_stop h hmem (hle.trans hnxt) (by omega)).1]
    omega
  obtain ⟨gone, hgone, hgcov, hhead, hsum⟩ :=
    removeAcked_spec (fun x =>
      seqLeq (x.tcphdr.seqno + BitVec.ofNat 32 x.tcplen) (pos base j)) pcb.snd.unacked
      ((pos base j - pcb.snd.lastack).toNat % 2 ^ 16) pcb.snd.sndQueuelen (by omega) (by omega)
  refine ⟨?_, rfl, rfl, rfl, rfl, growCwnd_sndWnd _ _⟩
  refine ackTo_ok h hlt hle hgone (fun x hx => (hcov x ?_).mp (hgcov x hx))
    (fun x hx => mt (hcov x ?_).mpr (hhead x hx)) hsum (by simp [hdiff])
  · rw [hgone]
    exact List.mem_append_left _ hx
  · rw [hgone]
    exact List.mem_append_right _ (List.mem_of_mem_head? hx)

/-- What leaves the unsent queue has been acknowledged, also when the ACK
itself was not taken. -/
theorem ackUnsent_spec (pcb : Pcb) (h : SndOk o base alive stream pcb.snd una nxt) (hj : j ≤ stream.length)
    (hrecent : una < j + 2 ^ 30) (htaken : j ≤ una ∨ nxt < j) :
    SndOk o base alive stream (ackUnsent pcb (pos base j)).snd una nxt ∧
      SameRcv pcb (ackUnsent pcb (pos base j)) := by
  have hnxt := h.nxt_le
  have hqlen := h.queuelen.le
  have hqle := h.queuelen_le
  have hqlt := o.tcpSndQueuelen_lt
  have hstream := h.stream_le
  have huna := h.una_le
  rw [pbufCount_append] at hqlen
  obtain ⟨gone, hgone, hgcov, -, hsum⟩ :=
    removeAcked_spec (fun x =>
      seqBetween (pos base j) (x.tcphdr.seqno + BitVec.ofNat 32 x.tcplen) pcb.snd.sndNxt)
      pcb.snd.unsent pcb.snd.acked pcb.snd.sndQueuelen (by omega) (by omega)
  refine ⟨dropUnsent_ok h hgone (fun x hx => ?_) hsum, rfl, rfl, rfl, rfl, rfl⟩
  have hmem : x ∈ pcb.snd.unacked ++ pcb.snd.unsent := by
    rw [hgone]
    exact List.mem_append_right _ (List.mem_append_left _ hx)
  have hcov := hgcov x hx
  rw [(h.segs x hmem).seqno_stop, h.sndNxt, seqBetween_pos (by decide)
    (near_stop h hmem hj hrecent).2 (near_of (by omega) (by omega))] at hcov
  omega

/-- An ACK either changes nothing about what is acknowledged, or moves it up to
the ACK number. -/
theorem receiveAck_spec (pcb : Pcb) (hdr : TcpHdr) (tcplen : Nat)
    (h : SndOk o base alive stream pcb.snd una nxt)
    (hack : hdr.ackno = pos base j) (hj : j ≤ stream.length) (hrecent : una < j + 2 ^ 30) :
    ∃ una', SndOk o base alive stream (receiveAck pcb hdr tcplen).snd una' nxt ∧
      (una' = una ∨ una < j ∧ una' = j) ∧
      SameRcv { pcb with ctl := updateWindow pcb.ctl hdr } (receiveAck pcb hdr tcplen) := by
  have hnxt := h.nxt_le
  have hstream := h.stream_le
  have huna := h.una_le
  let pcb₁ := { pcb with ctl := updateWindow pcb.ctl hdr }
  have hleq : seqLeq (pos base j) pcb₁.snd.lastack ↔ j ≤ una := by
    rw [h.lastack, seqLeq_pos (by decide) (near_of (by omega) (by omega))]
    omega
  have hbetween : seqBetween (pos base j) (pcb₁.snd.lastack + 1) pcb₁.snd.sndNxt ↔
      una < j ∧ j ≤ nxt := by
    have hone : pcb₁.snd.lastack + 1 = pos base (una + 1 : Nat) := by
      rw [h.lastack]
      exact pos_add_ofNat 1
    rw [hone, h.sndNxt, seqBetween_pos (by decide) (near_of (by push_cast; omega)
      (by push_cast; omega)) (near_of (by omega) (by omega))]
    omega
  unfold receiveAck
  rw [hack]
  dsimp only
  by_cases hold : j ≤ una
  · rw [if_pos (hleq.mpr hold)]
    obtain ⟨hsnd, hsame⟩ := oldAck_spec pcb₁ (pos base j)
      (BitVec.ofNat 32 pcb.ctl.sndWnd + pcb.ctl.sndWl2) tcplen h
    obtain ⟨hsnd', hsame'⟩ := ackUnsent_spec _ hsnd hj hrecent (.inl hold)
    exact ⟨una, hsnd', .inl rfl, hsame.trans hsame'⟩
  · rw [if_neg (mt hleq.mp hold)]
    by_cases hnew : j ≤ nxt
    · rw [if_pos (hbetween.mpr ⟨by omega, hnew⟩)]
      obtain ⟨hsnd, hsame⟩ := newAck_spec pcb₁ h (by omega) hnew
      obtain ⟨hsnd', hsame'⟩ := ackUnsent_spec _ hsnd hj (by omega) (.inl (le_refl j))
      exact ⟨j, hsnd', .inr ⟨by omega, rfl⟩, hsame.trans hsame'⟩
    · rw [if_neg (fun hb => hnew (hbetween.mp hb).2)]
      obtain ⟨hsnd', hsame'⟩ := ackUnsent_spec { pcb₁ with snd.acked := 0 }
        (setAcked_ok h 0) hj hrecent (.inr (by omega))
      exact ⟨una, hsnd', .inl rfl, { hsame' with }⟩

end Pcb

end PopcornFirmware.Lwip.TcpAck
