import PopcornFirmware.Lib.Intervals
import PopcornFirmware.Lwip.TcpOut

namespace PopcornFirmware.Lwip.TcpQueue

open PopcornFirmware.Lib.CText PopcornFirmware.Lib.SeqNum PopcornFirmware.Lib.Intervals
  PopcornFirmware.Lwip.Tcp PopcornFirmware.Lwip.TcpOut

/-- Where in the stream a segment ends. -/
def stop (seg : Seg) : Nat := seg.place + seg.tcplen

def pbufCount (q : List Seg) : Nat := (q.map (·.p.length)).sum

/-- A segment holds what the stream has at its place. -/
structure SegOk (base : Seqno) (stream : List Sym) (seg : Seg) : Prop where
  seqno : seg.tcphdr.seqno = pos base seg.place
  slice : seg.syms <+: stream.drop seg.place
  len_eq : seg.len = seg.p.flatten.length
  len_lt : seg.len < 2 ^ 16
  syn : seg.tcphdr.flags.syn = false
  rst : seg.tcphdr.flags.rst = false

/-- The send buffer space counts what is not acknowledged. Only the FIN may
take it below zero. -/
structure BufOk (o : Opts) (stream : List Sym) (sndBuf una : Nat) : Prop where
  le : stream.length ≤ una + o.tcpSndBuf + if .fin ∈ stream then 1 else 0
  eq : (sndBuf + (stream.length - una)) % 2 ^ 16 = o.tcpSndBuf
  lt : sndBuf < 2 ^ 16

/-- The queue length counts the pbufs on the queues. A purge of the queues does
not set it back. -/
structure CountOk (alive : Prop) (n : Nat) (q : List Seg) : Prop where
  le : pbufCount q ≤ n
  eq : alive → n = pbufCount q

/-- The send queues of a connection with the given stream, acknowledged up to
una and sent up to nxt. While the connection is alive they hold every part of
the stream that is not acknowledged, and no part twice. -/
structure SndOk (o : Opts) (base : Seqno) (alive : Prop) (stream : List Sym) (s : Snd)
    (una nxt : Nat) : Prop where
  lastack : s.lastack = pos base una
  sndNxt : s.sndNxt = pos base nxt
  sndLbb : s.sndLbb = pos base stream.length
  una_le : una ≤ nxt
  nxt_le : nxt ≤ stream.length
  buf : BufOk o stream s.sndBuf una
  queuelen : CountOk alive s.sndQueuelen (s.unacked ++ s.unsent)
  queuelen_le : s.sndQueuelen ≤ o.tcpSndQueuelen
  segs : ∀ seg ∈ s.unacked ++ s.unsent, SegOk base stream seg
  packed : Packed Seg.place stop stream.length (s.unacked ++ s.unsent)
  covers : alive → Covers Seg.place stop una stream.length (s.unacked ++ s.unsent)
  sorted : s.unacked.Pairwise (Before Seg.place stop)
  sent : ∀ seg ∈ s.unacked, una ≤ stop seg ∧ stop seg ≤ nxt
  order : s.unsent.Pairwise fun x y => nxt < stop x → Before Seg.place stop x y
  recent : ∀ seg ∈ s.unsent, nxt ≤ seg.place + 2 ^ 18

variable {o : Opts} {base : Seqno} {alive : Prop} {stream : List Sym} {s : Snd} {seg : Seg}
  {una nxt : Nat}

section Syms

theorem syms_length (data : Text) (fin : Bool) :
    (syms data fin).length = data.length + if fin then 1 else 0 := by
  cases fin <;> simp [syms]

theorem syms_append (data data' : Text) (fin : Bool) :
    syms (data ++ data') fin = syms data false ++ syms data' fin := by
  simp [syms]

theorem syms_fin (data : Text) : syms data true = syms data false ++ [.fin] := by simp [syms]

theorem bytesOf_append (a b : List Sym) : bytesOf (a ++ b) = bytesOf a ++ bytesOf b :=
  List.filterMap_append

theorem bytesOf_syms (data : Text) (fin : Bool) : bytesOf (syms data fin) = data := by
  cases fin <;> simp [bytesOf, syms, List.filterMap_map]

theorem fin_mem_syms (data : Text) (fin : Bool) : .fin ∈ syms data fin ↔ fin = true := by
  cases fin <;> simp [syms]

theorem SegOk.tcplen_eq (h : SegOk base stream seg) : seg.tcplen = seg.syms.length := by
  unfold Seg.tcplen Seg.syms
  rw [syms_length, h.len_eq, h.syn]
  simp

theorem SegOk.stop_eq (h : SegOk base stream seg) : stop seg = seg.place + seg.syms.length := by
  rw [stop, h.tcplen_eq]

theorem SegOk.tcplen_le (h : SegOk base stream seg) : seg.tcplen ≤ 2 ^ 16 := by
  have hlt := h.len_lt
  unfold Seg.tcplen
  split <;> omega

theorem drop_mono {s t : List Sym} (h : s <+: t) (i : Nat) : s.drop i <+: t.drop i := by
  obtain ⟨r, rfl⟩ := h
  rw [List.drop_append]
  exact List.prefix_append _ _

theorem SegOk.mono {stream' : List Sym} (h : SegOk base stream seg) (hp : stream <+: stream') :
    SegOk base stream' seg :=
  { h with slice := h.slice.trans (drop_mono hp seg.place) }

end Syms

section Near

theorem SndOk.stream_le (h : SndOk o base alive stream s una nxt) :
    stream.length ≤ una + 2 ^ 16 := by
  have hle := h.buf.le
  have hlt := o.tcpSndBuf_lt
  split at hle <;> omega

/-- No queued segment lies far behind. -/
theorem SndOk.stream_le_place (h : SndOk o base alive stream s una nxt)
    (hseg : seg ∈ s.unacked ++ s.unsent) : stream.length ≤ seg.place + 2 ^ 18 + 2 ^ 16 := by
  have hstream := h.stream_le
  have huna := h.una_le
  have hlen := (h.segs seg hseg).tcplen_le
  obtain hseg | hseg := List.mem_append.mp hseg
  · have hsent := (h.sent seg hseg).1
    unfold stop at hsent
    omega
  · have hrecent := h.recent seg hseg
    omega

theorem SndOk.stop_le (h : SndOk o base alive stream s una nxt)
    (hseg : seg ∈ s.unacked ++ s.unsent) : stop seg ≤ stream.length := h.packed.within seg hseg

theorem SegOk.seqno_stop (h : SegOk base stream seg) :
    seg.tcphdr.seqno + BitVec.ofNat 32 seg.tcplen = pos base (stop seg) := by
  rw [h.seqno, pos_add_ofNat, stop]
  push_cast
  rfl

theorem near_of {i j : Int} (h : i - j < 2 ^ 31) (h' : j - i ≤ 2 ^ 31) : Near 32 i j := by
  unfold Near
  omega

theorem SndOk.seqLt_iff {seg' : Seg} (h : SndOk o base alive stream s una nxt)
    (hseg : seg ∈ s.unacked ++ s.unsent) (hseg' : seg' ∈ s.unacked ++ s.unsent) :
    seqLt seg.tcphdr.seqno seg'.tcphdr.seqno ↔ seg.place < seg'.place := by
  have hle := h.stream_le_place hseg
  have hle' := h.stream_le_place hseg'
  have hlt := h.packed.nonempty seg hseg
  have hlt' := h.packed.nonempty seg' hseg'
  have hstop := h.stop_le hseg
  have hstop' := h.stop_le hseg'
  rw [(h.segs seg hseg).seqno, (h.segs seg' hseg').seqno,
    seqLt_pos (by decide) (near_of (by omega) (by omega))]
  omega

end Near

section Insert

variable {q : List Seg} {b : Nat}

theorem insertSeg_perm (seg : Seg) (q : List Seg) : (insertSeg seg q).Perm (seg :: q) := by
  induction q with
  | nil => exact List.Perm.refl _
  | cons cur rest ih =>
    unfold insertSeg
    split
    · exact (ih.cons cur).trans (List.Perm.swap seg cur rest)
    · exact List.Perm.refl _

theorem insertSeg_pairwise {R : Seg → Seg → Prop} (hq : q.Pairwise R)
    (hbefore : ∀ x ∈ q, seqLt x.tcphdr.seqno seg.tcphdr.seqno → R x seg)
    (hself : ∀ x ∈ q, ¬ seqLt x.tcphdr.seqno seg.tcphdr.seqno → R seg x)
    (hafter : q.Pairwise fun x y => ¬ seqLt x.tcphdr.seqno seg.tcphdr.seqno → R seg y) :
    (insertSeg seg q).Pairwise R := by
  induction q with
  | nil => exact List.pairwise_singleton R seg
  | cons cur rest ih =>
    obtain ⟨hcur, hrest⟩ := List.pairwise_cons.mp hq
    obtain ⟨hacur, harest⟩ := List.pairwise_cons.mp hafter
    unfold insertSeg
    split
    · rename_i hlt
      refine List.pairwise_cons.mpr ⟨fun y hy => ?_, ih hrest
        (fun x hx => hbefore x (by simp [hx])) (fun x hx => hself x (by simp [hx])) harest⟩
      obtain rfl | hy := List.mem_cons.mp ((insertSeg_perm seg rest).mem_iff.mp hy)
      · exact hbefore cur (by simp) hlt
      · exact hcur y hy
    · rename_i hlt
      refine List.pairwise_cons.mpr ⟨fun y hy => ?_, hq⟩
      obtain rfl | hy := List.mem_cons.mp hy
      · exact hself y (by simp) hlt
      · exact hacur y hy hlt

/-- A sorted queue of segments that do not overlap stays sorted. -/
theorem insertSeg_sorted (hpacked : Packed Seg.place stop b (seg :: q))
    (hlt : ∀ x ∈ q, seqLt x.tcphdr.seqno seg.tcphdr.seqno ↔ x.place < seg.place)
    (hq : q.Pairwise (Before Seg.place stop)) :
    (insertSeg seg q).Pairwise (Before Seg.place stop) := by
  refine insertSeg_pairwise hq ?_ ?_ ?_
  · intro x hx hl
    exact (hpacked.lt_iff hx).mp ((hlt x hx).mp hl)
  · intro x hx hl
    exact hpacked.before_of_not_lt hx (mt (hlt x hx).mpr hl)
  · refine hq.imp_of_mem fun {x y} hx hy hxy hl => ?_
    have hseg := hpacked.before_of_not_lt hx (mt (hlt x hx).mpr hl)
    have hne := hpacked.nonempty x (List.mem_cons_of_mem seg hx)
    unfold Before at *
    omega

theorem addToUnacked_perm (seg : Seg) (q : List Seg) : (addToUnacked seg q).Perm (seg :: q) := by
  unfold addToUnacked
  split
  · rename_i hnone
    rw [List.getLast?_eq_none_iff.mp hnone]
  · split
    · exact insertSeg_perm seg q
    · exact List.perm_append_singleton seg q

theorem addToUnacked_sorted (hpacked : Packed Seg.place stop b (seg :: q))
    (hlt : ∀ x ∈ q, seqLt x.tcphdr.seqno seg.tcphdr.seqno ↔ x.place < seg.place)
    (hgt : ∀ x ∈ q, seqLt seg.tcphdr.seqno x.tcphdr.seqno ↔ seg.place < x.place)
    (hq : q.Pairwise (Before Seg.place stop)) :
    (addToUnacked seg q).Pairwise (Before Seg.place stop) := by
  unfold addToUnacked
  split
  · exact List.pairwise_singleton _ seg
  · rename_i useg hlast
    obtain ⟨init, rfl⟩ := List.getLast?_eq_some_iff.mp hlast
    split
    · exact insertSeg_sorted hpacked hlt hq
    · rename_i hnot
      have huseg : useg ∈ init ++ [useg] := by simp
      have hbefore : Before Seg.place stop useg seg := by
        have hle := mt (hgt useg huseg).mpr hnot
        have hap := (List.pairwise_cons.mp hpacked.apart).1 useg huseg
        have hne := hpacked.nonempty seg (by simp)
        have hne' := hpacked.nonempty useg (List.mem_cons_of_mem seg huseg)
        unfold Apart Before at *
        omega
      refine List.pairwise_append.mpr ⟨hq, List.pairwise_singleton _ seg, fun x hx y hy => ?_⟩
      obtain rfl := List.mem_singleton.mp hy
      obtain hx | hx := List.mem_append.mp hx
      · have hxu := (List.pairwise_append.mp hq).2.2 x hx useg (by simp)
        have hne := hpacked.nonempty useg (List.mem_cons_of_mem y huseg)
        unfold Before at *
        omega
      · rwa [List.mem_singleton.mp hx]

end Insert

section Send

/-- A segment with its header filled in for output. -/
def outSeg (seg : Seg) (ackno : Seqno) (wnd : Nat) : Seg :=
  { seg with
    tcphdr := { seg.tcphdr with
      ackno := ackno, wnd := wnd, flags := { seg.tcphdr.flags with ack := true } } }

variable {rest : List Seg} {ackno : Seqno} {wnd : Nat}

theorem SegOk.out (h : SegOk base stream seg) : SegOk base stream (outSeg seg ackno wnd) :=
  ⟨h.seqno, h.slice, h.len_eq, h.len_lt, h.syn, h.rst⟩

theorem pbufCount_perm {q r : List Seg} (h : q.Perm r) : pbufCount q = pbufCount r :=
  (h.map _).sum_eq

theorem pbufCount_append (q r : List Seg) : pbufCount (q ++ r) = pbufCount q + pbufCount r := by
  simp [pbufCount]

/-- The length changes by what joins or leaves the queues. -/
theorem CountOk.change {n m : Nat} {q r : List Seg} (h : CountOk alive n q)
    (hsum : m + pbufCount q = n + pbufCount r) : CountOk alive m r := by
  have hle := h.le
  refine ⟨by omega, fun hal => ?_⟩
  have heq := h.eq hal
  omega

theorem CountOk.perm {n : Nat} {q r : List Seg} (h : CountOk alive n q) (hp : q.Perm r) :
    CountOk alive n r := h.change (by rw [pbufCount_perm hp])

/-- The first unsent segment is sent. -/
theorem SndOk.sendHead (h : SndOk o base alive stream s una nxt) (ackno : Seqno) (wnd : Nat)
    (hunsent : s.unsent = seg :: rest) (hreach : una ≤ stop seg) :
    SndOk o base alive stream
      { s with
        unsent := rest, unacked := addToUnacked (outSeg seg ackno wnd) s.unacked
        sndNxt := pos base (max nxt (stop seg) : Nat) } una (max nxt (stop seg)) := by
  let seg' := outSeg seg ackno wnd
  have hmem : seg ∈ s.unacked ++ s.unsent := by simp [hunsent]
  have hU : ∀ x ∈ s.unacked, x ∈ s.unacked ++ s.unsent := fun x hx => List.mem_append_left _ hx
  have hold : (s.unacked ++ s.unsent).Perm (seg :: (s.unacked ++ rest)) := by
    rw [hunsent]
    exact List.perm_middle
  have hnew : (addToUnacked seg' s.unacked ++ rest).Perm (seg' :: (s.unacked ++ rest)) :=
    (addToUnacked_perm seg' s.unacked).append_right rest
  have hpacked' : Packed Seg.place stop stream.length (seg' :: (s.unacked ++ rest)) :=
    (h.packed.perm hold).head_congr rfl rfl
  obtain ⟨hord, hordRest⟩ := List.pairwise_cons.mp (hunsent ▸ h.order)
  have hrecent : ∀ x ∈ rest, nxt ≤ x.place + 2 ^ 18 := fun x hx =>
    h.recent x (by simp [hunsent, hx])
  refine
    { lastack := h.lastack, sndNxt := rfl, sndLbb := h.sndLbb, una_le := ?_, nxt_le := ?_,
      buf := h.buf, queuelen := ?_, queuelen_le := h.queuelen_le, segs := ?_,
      packed := hpacked'.perm hnew.symm, covers := ?_, sorted := ?_, sent := ?_, order := ?_,
      recent := ?_ }
  · exact h.una_le.trans (le_max_left _ _)
  · exact max_le h.nxt_le (h.stop_le hmem)
  · have hsame : pbufCount (seg' :: (s.unacked ++ rest)) = pbufCount (seg :: (s.unacked ++ rest)) :=
      rfl
    refine h.queuelen.change ?_
    rw [pbufCount_perm hold, ← hsame, pbufCount_perm hnew.symm]
  · intro x hx
    obtain rfl | hx := List.mem_cons.mp (hnew.mem_iff.mp hx)
    · exact (h.segs seg hmem).out
    · exact h.segs x (hold.mem_iff.mpr (List.mem_cons_of_mem seg hx))
  · intro hal
    exact (((h.covers hal).perm hold).head_congr (y := seg') rfl rfl).perm hnew.symm
  · refine addToUnacked_sorted (b := stream.length) ?_ ?_ ?_ h.sorted
    · exact hpacked'.sublist ((List.sublist_append_left s.unacked rest).cons_cons seg')
    · intro x hx
      exact (h.seqLt_iff (hU x hx) hmem :)
    · intro x hx
      exact (h.seqLt_iff hmem (hU x hx) :)
  · intro x hx
    obtain rfl | hx := List.mem_cons.mp ((addToUnacked_perm seg' s.unacked).mem_iff.mp hx)
    · exact ⟨hreach, le_max_right _ _⟩
    · exact ⟨(h.sent x hx).1, (h.sent x hx).2.trans (le_max_left _ _)⟩
  · exact hordRest.imp fun hxy hlt => hxy (lt_of_le_of_lt (le_max_left _ _) hlt)
  · intro x hx
    have hx' := hrecent x hx
    have hbefore := hord x hx
    unfold Before at hbefore
    omega

/-- All segments are put back for retransmission. -/
theorem SndOk.requeueAll (h : SndOk o base alive stream s una nxt) :
    SndOk o base alive stream { s with unsent := s.unacked ++ s.unsent, unacked := [] }
      una nxt where
  lastack := h.lastack
  sndNxt := h.sndNxt
  sndLbb := h.sndLbb
  una_le := h.una_le
  nxt_le := h.nxt_le
  buf := h.buf
  queuelen := h.queuelen
  queuelen_le := h.queuelen_le
  segs := h.segs
  packed := h.packed
  covers := h.covers
  sorted := List.Pairwise.nil
  sent := by simp
  order := by
    have hsent : ∀ x ∈ s.unacked, ¬ nxt < stop x := fun x hx => by
      have := (h.sent x hx).2
      omega
    refine List.pairwise_append.mpr ⟨?_, h.order, fun x hx y _ hlt => absurd hlt (hsent x hx)⟩
    exact h.sorted.imp_of_mem fun {x y} hx _ _ hlt => absurd hlt (hsent x hx)
  recent := by
    intro x hx
    obtain hx' | hx' := List.mem_append.mp hx
    · have hlen := (h.segs x hx).tcplen_le
      have hsent := (h.sent x hx').1
      have hstream := h.stream_le
      have hnxt := h.nxt_le
      unfold stop at hsent
      omega
    · exact h.recent x hx'

/-- The queues are freed when the connection is no longer alive. -/
theorem SndOk.purge {alive' : Prop} (h : SndOk o base alive stream s una nxt) (hdead : ¬ alive') :
    SndOk o base alive' stream { s with unsent := [], unacked := [] } una nxt where
  lastack := h.lastack
  sndNxt := h.sndNxt
  sndLbb := h.sndLbb
  una_le := h.una_le
  nxt_le := h.nxt_le
  buf := h.buf
  queuelen := ⟨Nat.zero_le _, fun hal => absurd hal hdead⟩
  queuelen_le := h.queuelen_le
  segs := by simp
  packed := h.packed.sublist (List.nil_sublist _)
  covers := fun hal => absurd hal hdead
  sorted := List.Pairwise.nil
  sent := by simp
  order := List.Pairwise.nil
  recent := by simp

/-- The first segment sent is put back for retransmission. -/
theorem SndOk.requeueHead (h : SndOk o base alive stream s una nxt)
    (hunacked : s.unacked = seg :: rest) :
    SndOk o base alive stream { s with unacked := rest, unsent := insertSeg seg s.unsent }
      una nxt := by
  have hmem : seg ∈ s.unacked ++ s.unsent := by simp [hunacked]
  have hV : ∀ x ∈ s.unsent, x ∈ s.unacked ++ s.unsent := fun x hx => List.mem_append_right _ hx
  have hsent := h.sent seg (by simp [hunacked])
  have hperm : (s.unacked ++ s.unsent).Perm (rest ++ insertSeg seg s.unsent) := by
    rw [hunacked]
    exact List.perm_middle.symm.trans ((insertSeg_perm seg s.unsent).symm.append_left rest)
  have hpacked : Packed Seg.place stop stream.length (seg :: s.unsent) :=
    h.packed.sublist (by simp [hunacked])
  refine
    { lastack := h.lastack, sndNxt := h.sndNxt, sndLbb := h.sndLbb, una_le := h.una_le,
      nxt_le := h.nxt_le, buf := h.buf, queuelen := h.queuelen.perm hperm,
      queuelen_le := h.queuelen_le, segs := fun x hx => h.segs x (hperm.mem_iff.mpr hx),
      packed := h.packed.perm hperm, covers := fun hal => (h.covers hal).perm hperm,
      sorted := (List.pairwise_cons.mp (hunacked ▸ h.sorted)).2,
      sent := fun x hx => h.sent x (by simp [hunacked, hx]), order := ?_, recent := ?_ }
  · refine insertSeg_pairwise h.order ?_ ?_ ?_
    · exact fun x hx hlt _ => (hpacked.lt_iff hx).mp ((h.seqLt_iff (hV x hx) hmem).mp hlt)
    · intro x _ _ hlt
      omega
    · refine h.order.imp fun _ _ hlt => ?_
      omega
  · intro x hx
    obtain rfl | hx := List.mem_cons.mp ((insertSeg_perm seg s.unsent).mem_iff.mp hx)
    · have hlen := (h.segs x hmem).tcplen_le
      have hstream := h.stream_le
      have hnxt := h.nxt_le
      unfold stop at hsent
      omega
    · exact h.recent x hx

end Send

end PopcornFirmware.Lwip.TcpQueue
