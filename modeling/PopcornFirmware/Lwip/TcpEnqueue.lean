import Mathlib.Data.List.ModifyLast
import PopcornFirmware.Lwip.TcpQueue

namespace PopcornFirmware.Lwip.TcpEnqueue

open PopcornFirmware.Lib.CText PopcornFirmware.Lib.SeqNum PopcornFirmware.Lib.Intervals
  PopcornFirmware.Lwip.Tcp PopcornFirmware.Lwip.TcpOut PopcornFirmware.Lwip.TcpQueue

variable {o : Opts} {base : Seqno} {alive : Prop} {stream : List Sym} {c c' : Conn} {pcb : Pcb}
  {flags : HdrFlags} {copy more : Bool} {una nxt : Nat}

section Loop

variable {mem mem' : List Bool} {left arg : Text} {p : List Text} {segs : List Seg}
  {rounds place n n' : Nat}

theorem segPbufs_flatten (h : segPbufs copy left mem = (some p, mem')) : p.flatten = left := by
  unfold segPbufs at h
  split at h
  · simp at h
  · split at h
    · simp only [Prod.mk.injEq, Option.some.injEq] at h
      simp [← h.1]
    · split at h
      · rename_i hnil
        simp only [Prod.mk.injEq, Option.some.injEq] at h
        simp [← h.1, hnil]
      · split at h
        · simp at h
        · simp only [Prod.mk.injEq, Option.some.injEq] at h
          simp [← h.1]

theorem segPbufs_nil (h : segPbufs copy [] mem = (some p, mem')) : p = [[]] := by
  unfold segPbufs at h
  split at h
  · simp at h
  · split at h <;> simp_all

/-- What the loop leaves behind: segments that hold the data one after the
other, and a queue that is not too long with them. -/
structure Segmented (o : Opts) (base : Seqno) (mss : Nat) (flags : HdrFlags) (place : Nat)
    (left : Text) (n : Nat) (segs : List Seg) (n' : Nat) : Prop where
  ne : segs ≠ []
  contiguous : Contiguous Seg.place stop place (place + (syms left flags.fin).length) segs
  syms_eq : segs.flatMap Seg.syms = syms left flags.fin
  len_eq : ∀ seg ∈ segs, seg.len = seg.p.flatten.length
  len_le : ∀ seg ∈ segs, seg.len ≤ mss
  flags_eq : ∀ seg ∈ segs, seg.tcphdr.flags = flags
  header_only : left = [] → ∀ seg ∈ segs, seg.p = [[]]
  seqno : ∀ seg ∈ segs, seg.tcphdr.seqno = pos base seg.place
  count : n' = n + pbufCount segs
  count_le : n' ≤ o.tcpSndQueuelen

variable (hsyn : flags.syn = false) (hfin : flags.fin = true ↔ left = [])

include hsyn hfin

theorem tcpEnqueueLoop_spec
    (h : tcpEnqueueLoop o pcb flags copy rounds place (pos base place) left n mem =
      (some (segs, n'), mem')) : Segmented o base pcb.mss flags place left n segs n' := by
  induction rounds generalizing place left n n' mem mem' segs with
  | zero => simp [tcpEnqueueLoop] at h
  | succ rounds ih =>
    unfold tcpEnqueueLoop at h
    split at h
    · simp at h
    · split at h
      · simp at h
      · rename_i p _ hp
        have hflat := segPbufs_flatten hp
        split at h
        · simp at h
        · rename_i hroom
          let seg : Seg :=
            { p := p, len := (left.take pcb.mss).length,
              tcphdr := { seqno := pos base place, ackno := 0, flags := flags, wnd := 0 }
              place := place }
          have hstop : stop seg = place + (syms (left.take pcb.mss) flags.fin).length := by
            simp [stop, seg, Seg.tcplen, syms_length, hsyn]
          have hne : seg.place < stop seg := by
            rw [hstop, syms_length]
            have hmss := pcb.mss_pos
            have htake : (left.take pcb.mss).length = min pcb.mss left.length :=
              List.length_take
            by_cases hnil : left = []
            · simp [seg, hfin.mpr hnil]
            · have hpos := List.length_pos_iff.mpr hnil
              dsimp only [seg]
              omega
          split at h
          · rename_i hdrop
            have htake : left.take pcb.mss = left :=
              List.take_of_length_le (List.drop_eq_nil_iff.mp hdrop)
            simp only [Prod.mk.injEq, Option.some.injEq] at h
            obtain ⟨⟨rfl, rfl⟩, -⟩ := h
            rw [htake] at hstop hflat
            refine ⟨by simp, ⟨rfl, hne, hstop⟩, by simp [Seg.syms, hflat], ?_, ?_, ?_, ?_, ?_,
              by simp [pbufCount], by omega⟩
            · exact List.forall_mem_singleton.mpr (by simp [hflat, htake])
            · exact List.forall_mem_singleton.mpr (by simp)
            · exact List.forall_mem_singleton.mpr rfl
            · rintro rfl
              exact List.forall_mem_singleton.mpr (segPbufs_nil (by simpa using hp))
            · exact List.forall_mem_singleton.mpr rfl
          · rename_i hdrop
            have hnil : left ≠ [] := by
              rintro rfl
              simp at hdrop
            have hfinF : flags.fin = false := by
              rw [← Bool.not_eq_true, hfin]
              exact hnil
            have hnext : pos base (place : Int) + BitVec.ofNat 32 (left.take pcb.mss).length =
                pos base ((place + (left.take pcb.mss).length : Nat) : Int) := by
              rw [pos_add_ofNat]
              push_cast
              rfl
            dsimp only at h
            rw [hnext] at h
            split at h
            · simp at h
            · rename_i segs' m' _ hloop
              simp only [Prod.mk.injEq, Option.some.injEq] at h
              obtain ⟨⟨rfl, rfl⟩, -⟩ := h
              have hrest := ih (by simp [hfinF, hdrop]) hloop
              have hstop' : stop seg = place + (left.take pcb.mss).length := by
                rw [hstop, syms_length, hfinF]
                simp
              have hlen : (left.take pcb.mss).length + (left.drop pcb.mss).length =
                  left.length := by
                rw [← List.length_append, List.take_append_drop]
              have hend : place + (left.take pcb.mss).length +
                  (syms (left.drop pcb.mss) flags.fin).length =
                  place + (syms left flags.fin).length := by
                rw [syms_length, syms_length]
                omega
              refine ⟨by simp, ⟨rfl, hne, ?_⟩, ?_, ?_, ?_, ?_, fun hl => absurd hl hnil, ?_, ?_,
                hrest.count_le⟩
              · rw [hstop', ← hend]
                exact hrest.contiguous
              · have hsyms := syms_append (left.take pcb.mss) (left.drop pcb.mss) flags.fin
                rw [List.take_append_drop] at hsyms
                rw [List.flatMap_cons, hrest.syms_eq, hsyms]
                simp [Seg.syms, hflat, hfinF]
              · exact List.forall_mem_cons.mpr ⟨by simp [hflat], hrest.len_eq⟩
              · exact List.forall_mem_cons.mpr ⟨by simp, hrest.len_le⟩
              · exact List.forall_mem_cons.mpr ⟨rfl, hrest.flags_eq⟩
              · exact List.forall_mem_cons.mpr ⟨rfl, hrest.seqno⟩
              · rw [hrest.count]
                simp [pbufCount, Nat.add_assoc]

end Loop

section Queue

variable {stream' : List Sym} {s : Snd} {segs pre new init : List Seg} {seg useg : Seg}
  {arg : Text} {place b n n' sndBuf sndQueuelen : Nat}

theorem tcplen_eq (hlen : seg.len = seg.p.flatten.length) (hsyn : seg.tcphdr.flags.syn = false) :
    seg.tcplen = seg.syms.length := by
  unfold Seg.tcplen Seg.syms
  rw [syms_length, hlen, hsyn]
  simp

theorem slices_of_contiguous (stream : List Sym) (hcont : Contiguous Seg.place stop place b segs)
    (hlen : ∀ seg ∈ segs, seg.tcplen = seg.syms.length)
    (hpre : segs.flatMap Seg.syms <+: stream.drop place) :
    ∀ seg ∈ segs, seg.syms <+: stream.drop seg.place := by
  induction segs generalizing place with
  | nil => simp
  | cons x xs ih =>
    obtain ⟨rfl, -, hrest⟩ := hcont
    obtain ⟨hx, hxs⟩ := List.forall_mem_cons.mp hlen
    rw [List.flatMap_cons] at hpre
    refine List.forall_mem_cons.mpr ⟨(List.prefix_append _ _).trans hpre, ih hrest hxs ?_⟩
    have hdrop := drop_mono hpre x.syms.length
    rwa [List.drop_left, List.drop_drop, ← hx] at hdrop

theorem Segmented.segOk (h : Segmented o base pcb.mss flags stream.length arg n segs n')
    (hsyn : flags.syn = false) (hrst : flags.rst = false) :
    ∀ seg ∈ segs, SegOk base (stream ++ syms arg flags.fin) seg := by
  have hsynS : ∀ seg ∈ segs, seg.tcphdr.flags.syn = false := fun seg hseg => by
    rw [h.flags_eq seg hseg, hsyn]
  have hslice := slices_of_contiguous (stream ++ syms arg flags.fin) h.contiguous
    (fun seg hseg => tcplen_eq (h.len_eq seg hseg) (hsynS seg hseg))
    (by rw [h.syms_eq, List.drop_left])
  exact fun seg hseg =>
    { seqno := h.seqno seg hseg, slice := hslice seg hseg, len_eq := h.len_eq seg hseg,
      len_lt := lt_of_le_of_lt (h.len_le seg hseg) pcb.mss_lt, syn := hsynS seg hseg,
      rst := by rw [h.flags_eq seg hseg, hrst] }

/-- New segments after a queue whose last one may have grown. -/
theorem extend_ok (h : SndOk o base alive stream s una nxt) (hb : stream.length ≤ b)
    (hpacked : Packed Seg.place stop b (s.unacked ++ pre))
    (hcovers : alive → Covers Seg.place stop una b (s.unacked ++ pre))
    (hacked : ∀ seg ∈ s.unacked, SegOk base stream' seg)
    (hsegs : ∀ seg ∈ pre ++ new, SegOk base stream' seg)
    (horder : pre.Pairwise fun x y => nxt < stop x → Before Seg.place stop x y)
    (hrecent : ∀ seg ∈ pre, nxt ≤ seg.place + 2 ^ 18)
    (hnew : Contiguous Seg.place stop b stream'.length new) (hbuf : BufOk o stream' sndBuf una)
    (hcount : CountOk alive sndQueuelen (s.unacked ++ (pre ++ new)))
    (hle : sndQueuelen ≤ o.tcpSndQueuelen) :
    SndOk o base alive stream'
      { s with
        unsent := pre ++ new, sndLbb := pos base stream'.length, sndBuf := sndBuf
        sndQueuelen := sndQueuelen } una nxt where
  lastack := h.lastack
  sndNxt := h.sndNxt
  sndLbb := rfl
  una_le := h.una_le
  nxt_le := h.nxt_le.trans (hb.trans hnew.le)
  buf := hbuf
  queuelen := hcount
  queuelen_le := hle
  segs := by
    intro x hx
    obtain hx | hx := List.mem_append.mp hx
    · exact hacked x hx
    · exact hsegs x hx
  packed := by
    rw [← List.append_assoc]
    exact hpacked.append hnew
  covers := by
    intro hal
    rw [← List.append_assoc]
    exact (hcovers hal).append hnew.covers
  sorted := h.sorted
  sent := h.sent
  order := by
    refine List.pairwise_append.mpr ⟨horder, hnew.pairwise.imp ?_, ?_⟩
    · intro x y hxy _
      exact hxy
    · intro x hx y hy _
      have hstop := hpacked.within x (List.mem_append_right s.unacked hx)
      exact hstop.trans (hnew.mem hy).1
  recent := by
    intro x hx
    obtain hx | hx := List.mem_append.mp hx
    · exact hrecent x hx
    · have hplace := (hnew.mem hx).1
      have hnxt := h.nxt_le
      omega

theorem bufOk_enqueue (h : BufOk o stream sndBuf una) (hopen : .fin ∉ stream)
    (hfit : arg.length ≤ sndBuf) (hfin : flags.fin = true ↔ arg = []) (huna : una ≤ stream.length) :
    BufOk o (stream ++ syms arg flags.fin)
      ((sndBuf + 2 ^ 16 - (syms arg flags.fin).length) % 2 ^ 16) una := by
  have hle := h.le
  have heq := h.eq
  have hlt := h.lt
  have hlt' := o.tcpSndBuf_lt
  rw [if_neg hopen] at hle
  refine ⟨?_, ?_, Nat.mod_lt _ (by decide)⟩
  · rw [List.length_append, syms_length]
    cases hflag : flags.fin with
    | true =>
      have hnil := hfin.mp hflag
      simp only [hnil, syms, List.length_nil, List.mem_append]
      simp
      omega
    | false =>
      simp
      omega
  · rw [List.length_append, syms_length]
    cases hflag : flags.fin with
    | true =>
      have hnil := hfin.mp hflag
      simp only [hnil, List.length_nil, if_true]
      omega
    | false =>
      simp only [Bool.false_eq_true, if_false]
      omega

theorem dropHeader_flatten (p : List Text) : (dropHeader p).flatten = p.flatten := by
  cases p with
  | nil => rfl
  | cons q qs =>
    rw [dropHeader]
    split
    · rename_i hlen
      simp [List.length_eq_zero_iff.mp hlen]
    · rfl

theorem dropHeader_length_le (p : List Text) : (dropHeader p).length ≤ p.length := by
  cases p with
  | nil => exact le_refl _
  | cons q qs =>
    rw [dropHeader]
    split <;> simp

/-- A segment chained to the last unsent one continues it. -/
theorem chainSeg_ok (hcan : canChain pcb flags useg seg) (huseg : SegOk base stream useg)
    (hseg : SegOk base (stream ++ syms arg flags.fin) seg) (hstop : stop useg = stream.length)
    (hplace : seg.place = stream.length) (hfl : seg.tcphdr.flags = flags)
    (hp : flags.fin = true → seg.p = [[]]) :
    SegOk base (stream ++ syms arg flags.fin) (chainSeg flags useg seg) ∧
      (chainSeg flags useg seg).place = useg.place ∧
      stop (chainSeg flags useg seg) = stop seg := by
  obtain ⟨-, hplain, -, hroom, -⟩ := hcan
  simp only [huseg.syn, Bool.false_eq_true, false_or, Bool.not_eq_true] at hplain
  have hmss := pcb.mss_lt
  have hdrop : stream.drop useg.place = useg.syms := by
    refine (huseg.slice.eq_of_length ?_).symm
    rw [List.length_drop, ← hstop, huseg.stop_eq]
    omega
  have hle : useg.place ≤ stream.length := by
    rw [← hstop]
    exact Nat.le_add_right _ _
  have hslice : seg.syms <+: syms arg flags.fin := by
    have := hseg.slice
    rwa [hplace, List.drop_left] at this
  have hsyms : useg.syms ++ seg.syms <+:
      (stream ++ syms arg flags.fin).drop useg.place := by
    rw [List.drop_append_of_le_length hle, hdrop]
    exact (List.prefix_append_right_inj _).mpr hslice
  have hulen : useg.tcplen = useg.len := by simp [Seg.tcplen, hplain, huseg.syn]
  have hstopSeg : stop seg = useg.place + useg.len + seg.tcplen := by
    rw [stop, hplace, ← hstop, stop, hulen]
  unfold chainSeg
  split
  · rename_i hfin
    have hnone := hp hfin
    have hlen : seg.len = 0 := by simp [hseg.len_eq, hnone]
    refine ⟨⟨huseg.seqno, ?_, huseg.len_eq, huseg.len_lt, huseg.syn, huseg.rst⟩, rfl, ?_⟩
    · have hfinSyms : seg.syms = [.fin] := by simp [Seg.syms, hnone, hfl, hfin, syms]
      rw [hfinSyms, Seg.syms, hplain, ← syms_fin] at hsyms
      exact hsyms
    · rw [hstopSeg]
      simp [stop, Seg.tcplen, hlen, hfl, hfin, Nat.add_assoc]
  · rename_i hfin
    have hfinF : flags.fin = false := by simpa using hfin
    refine ⟨⟨huseg.seqno, ?_, ?_, lt_of_le_of_lt hroom hmss, huseg.syn, huseg.rst⟩, rfl, ?_⟩
    · have hjoin := syms_append useg.p.flatten seg.p.flatten false
      rw [Seg.syms, Seg.syms, hplain, hfl, hfinF, ← hjoin] at hsyms
      simpa [Seg.syms, hplain, dropHeader_flatten, hfinF] using hsyms
    · simp [dropHeader_flatten, huseg.len_eq, hseg.len_eq]
    · rw [hstopSeg]
      have hsegsyn : flags.syn = false := by rw [← hfl, hseg.syn]
      simp [stop, Seg.tcplen, hfl, hfinF, hplain, huseg.syn, hsegsyn, Nat.add_assoc]

/-- What can be chained begins where the stream ends. -/
theorem canChain_stop (h : SndOk o base alive stream pcb.snd una nxt)
    (hcan : canChain pcb flags useg seg) (hmem : useg ∈ pcb.snd.unacked ++ pcb.snd.unsent)
    (hseqno : seg.tcphdr.seqno = pos base stream.length) : stop useg = stream.length := by
  obtain ⟨-, hplain, -, -, hseq⟩ := hcan
  rw [not_or, Bool.not_eq_true, Bool.not_eq_true] at hplain
  have hlen : useg.tcplen = useg.len := by simp [Seg.tcplen, hplain.1, hplain.2]
  rw [← hlen, (h.segs useg hmem).seqno_stop, hseqno] at hseq
  have hsp := h.stream_le_place hmem
  have hle := h.stop_le hmem
  have hpl : useg.place ≤ stop useg := Nat.le_add_right _ _
  have := (pos_inj (by decide) (near_of (by omega) (by omega))).mp hseq
  omega

theorem chainSeg_pbufs (useg : Seg) (hp : flags.fin = true → seg.p = [[]]) :
    (chainSeg flags useg seg).p.length + (seg.p.length - (dropHeader seg.p).length) =
      useg.p.length + seg.p.length := by
  have hle := dropHeader_length_le seg.p
  unfold chainSeg
  split
  · rename_i hfin
    simp [hp hfin, dropHeader]
  · simp only [List.length_append]
    omega

/-- The last unsent segment makes way for one at the same place. -/
theorem order_last {init : List Seg} {x y : Seg}
    (h : (init ++ [x]).Pairwise fun x y => nxt < stop x → Before Seg.place stop x y)
    (hplace : y.place = x.place) :
    (init ++ [y]).Pairwise fun x y => nxt < stop x → Before Seg.place stop x y := by
  obtain ⟨hinit, -, hcross⟩ := List.pairwise_append.mp h
  refine List.pairwise_append.mpr ⟨hinit, List.pairwise_singleton _ _, fun z hz w hw hlt => ?_⟩
  rw [List.mem_singleton.mp hw]
  unfold Before
  rw [hplace]
  exact hcross z hz x List.mem_cons_self hlt

theorem recent_last {init : List Seg} {x y : Seg}
    (h : ∀ seg ∈ init ++ [x], nxt ≤ seg.place + 2 ^ 18) (hplace : y.place = x.place) :
    ∀ seg ∈ init ++ [y], nxt ≤ seg.place + 2 ^ 18 := by
  intro seg hseg
  obtain hseg | hseg := List.mem_append.mp hseg
  · exact h seg (List.mem_append_left _ hseg)
  · rw [List.mem_singleton.mp hseg, hplace]
    exact h x (List.mem_append_right _ List.mem_cons_self)

/-- The stretch of data that the loop has made segments of goes to the end of
the unsent queue. -/
theorem addToUnsent_ok (h : SndOk o base alive stream pcb.snd una nxt)
    (hseg : Segmented o base pcb.mss flags stream.length arg pcb.snd.sndQueuelen segs n')
    (hsyn : flags.syn = false) (hrst : flags.rst = false) (hfin : flags.fin = true ↔ arg = [])
    (hbuf : BufOk o (stream ++ syms arg flags.fin) sndBuf una) :
    SndOk o base alive (stream ++ syms arg flags.fin)
      { pcb.snd with
        unsent := (addToUnsent pcb flags pcb.snd.unsent segs).1
        sndLbb := pos base (stream ++ syms arg flags.fin).length, sndBuf := sndBuf
        sndQueuelen := n' - (addToUnsent pcb flags pcb.snd.unsent segs).2 } una nxt := by
  have hsegOk := hseg.segOk hsyn hrst
  have hold : ∀ x ∈ pcb.snd.unacked ++ pcb.snd.unsent,
      SegOk base (stream ++ syms arg flags.fin) x := fun x hx =>
    (h.segs x hx).mono (List.prefix_append _ _)
  have hcont := hseg.contiguous
  rw [← List.length_append] at hcont
  have hcount := hseg.count
  have hcount_le := hseg.count_le
  have hn := h.queuelen
  have hplain : SndOk o base alive (stream ++ syms arg flags.fin)
      { pcb.snd with
        unsent := pcb.snd.unsent ++ segs
        sndLbb := pos base (stream ++ syms arg flags.fin).length, sndBuf := sndBuf
        sndQueuelen := n' - 0 } una nxt := by
    refine extend_ok h (le_refl _) h.packed h.covers (fun x hx => hold x (by simp [hx])) ?_
      h.order h.recent hcont hbuf ?_ (by omega)
    · intro x hx
      obtain hx | hx := List.mem_append.mp hx
      · exact hold x (by simp [hx])
      · exact hsegOk x hx
    · rw [← List.append_assoc]
      exact hn.change (by rw [pbufCount_append _ segs]; omega)
  obtain ⟨seg, rest, rfl⟩ := List.exists_cons_of_ne_nil hseg.ne
  unfold addToUnsent
  cases hlast : pcb.snd.unsent.getLast? with
  | none =>
    rw [List.getLast?_eq_none_iff.mp hlast] at hplain
    exact hplain
  | some useg =>
    obtain ⟨init, hinit⟩ := List.getLast?_eq_some_iff.mp hlast
    dsimp only
    by_cases hcan : canChain pcb flags useg seg
    · rw [if_pos hcan]
      have hmem : useg ∈ pcb.snd.unacked ++ pcb.snd.unsent := by simp [hinit]
      have huseg := h.segs useg hmem
      have hsegS := hsegOk seg (by simp)
      obtain ⟨hplace, hlt, hrest⟩ := hcont
      have hstop := canChain_stop h hcan hmem (hsegS.seqno.trans (by rw [hplace]))
      have hheader : flags.fin = true → seg.p = [[]] :=
        fun hf => hseg.header_only (hfin.mp hf) seg (by simp)
      obtain ⟨hchain, hcplace, hcstop⟩ :=
        chainSeg_ok hcan huseg hsegS hstop hplace (hseg.flags_eq seg (by simp)) hheader
      have hpk := h.packed
      have hcv := h.covers
      rw [hinit, ← List.append_assoc] at hpk hcv
      have hb : stream.length ≤ stop (chainSeg flags useg seg) := by
        rw [hcstop]
        omega
      have hdl : pcb.snd.unsent.dropLast = init := by simp [hinit]
      have hqueue : init ++ chainSeg flags useg seg :: rest =
          (init ++ [chainSeg flags useg seg]) ++ rest := by simp
      rw [hdl, hqueue]
      refine extend_ok h hb ?_ (fun hal => ?_) (fun x hx => hold x (by simp [hx])) ?_ ?_ ?_
        (by rwa [hcstop]) hbuf ?_ (by omega)
      · rw [← List.append_assoc]
        exact hpk.grow hcplace hstop hb
      · rw [← List.append_assoc]
        exact (hcv hal).grow hcplace hstop (Nat.le_add_right _ _)
      · intro x hx
        rw [← hqueue] at hx
        obtain hx | hx := List.mem_append.mp hx
        · exact hold x (by simp [hinit, hx])
        · obtain rfl | hx := List.mem_cons.mp hx
          · exact hchain
          · exact hsegOk x (by simp [hx])
      · have horder := h.order
        rw [hinit] at horder
        exact order_last horder hcplace
      · have hrecent := h.recent
        rw [hinit] at hrecent
        exact recent_last hrecent hcplace
      · have hpbufs := chainSeg_pbufs useg hheader
        refine hn.change ?_
        rw [hinit]
        simp only [pbufCount, List.map_append, List.map_cons, List.map_nil, List.sum_append,
          List.sum_cons, List.sum_nil] at hcount ⊢
        omega
    · rw [if_neg hcan]
      exact hplain

end Queue

section Enqueue

variable {arg : Text}

theorem setPsh_ok {seg : Seg} (h : SegOk base stream seg) : SegOk base stream (setPsh seg) := by
  unfold setPsh
  split
  · exact ⟨h.seqno, h.slice, h.len_eq, h.len_lt, h.syn, h.rst⟩
  · exact h

theorem setPsh_same (seg : Seg) :
    (setPsh seg).place = seg.place ∧ stop (setPsh seg) = stop seg ∧ (setPsh seg).p = seg.p := by
  unfold setPsh
  split <;> exact ⟨rfl, rfl, rfl⟩

/-- The PSH flag of the last unsent segment does not matter. -/
theorem psh_ok {s : Snd} (h : SndOk o base alive stream s una nxt) :
    SndOk o base alive stream { s with unsent := s.unsent.modifyLast setPsh } una nxt := by
  obtain hnil | ⟨init, seg, hunsent⟩ := s.unsent.eq_nil_or_concat
  · have hsame : s.unsent.modifyLast setPsh = s.unsent := by
      rw [hnil]
      rfl
    rw [hsame]
    exact h
  · rw [List.concat_eq_append] at hunsent
    obtain ⟨hplace, hstop, hp⟩ := setPsh_same seg
    have hperm : ∀ x, (s.unacked ++ (init ++ [x])).Perm (x :: (s.unacked ++ init)) := fun x => by
      rw [← List.append_assoc]
      exact List.perm_append_singleton x _
    have hmem : seg ∈ s.unacked ++ s.unsent := by simp [hunsent]
    have hpacked := h.packed
    have hcovers := h.covers
    have hcount := h.queuelen
    have horder := h.order
    have hrecent := h.recent
    rw [hunsent] at hpacked hcovers hcount horder hrecent
    rw [hunsent, List.modifyLast_concat]
    refine { h with
      queuelen := ?_, segs := ?_, packed := ?_, covers := ?_, order := ?_, recent := ?_ }
    · refine hcount.change ?_
      simp [pbufCount, hp]
    · intro x hx
      obtain rfl | hx := List.mem_cons.mp ((hperm _).mem_iff.mp hx)
      · exact setPsh_ok (h.segs seg hmem)
      · exact h.segs x (by rw [hunsent]; exact (hperm seg).mem_iff.mpr (List.mem_cons_of_mem _ hx))
    · exact ((hpacked.perm (hperm seg)).head_congr hplace hstop).perm (hperm _).symm
    · exact fun hal => (((hcovers hal).perm (hperm seg)).head_congr hplace hstop).perm (hperm _).symm
    · exact order_last horder hplace
    · exact recent_last hrecent hplace

/-- Either everything is on the queue, or nothing has changed there. -/
theorem tcpEnqueue_spec (h : SndOk o base alive c.stream c.pcb.snd una nxt)
    (hopen : .fin ∉ c.stream) (hsyn : flags.syn = false) (hrst : flags.rst = false)
    (hfin : flags.fin = true ↔ arg = []) {e : Err}
    (heq : tcpEnqueue o c arg flags copy more = (e, c')) :
    (e = .ok ∧ c'.stream = c.stream ++ syms arg flags.fin ∧
        SndOk o base alive c'.stream c'.pcb.snd una nxt) ∨
      (e ≠ .ok ∧ c'.stream = c.stream ∧ c'.pcb.snd = c.pcb.snd) := by
  unfold tcpEnqueue at heq
  split at heq
  · obtain ⟨rfl, rfl⟩ := Prod.mk.inj heq
    exact .inr ⟨by simp, rfl, rfl⟩
  · split at heq
    · obtain ⟨rfl, rfl⟩ := Prod.mk.inj heq
      exact .inr ⟨by simp, rfl, rfl⟩
    · rename_i hfit
      split at heq
      · obtain ⟨rfl, rfl⟩ := Prod.mk.inj heq
        exact .inr ⟨by simp, rfl, rfl⟩
      · split at heq
        · obtain ⟨rfl, rfl⟩ := Prod.mk.inj heq
          exact .inr ⟨by simp, rfl, rfl⟩
        · rename_i queue queuelen mem hloop
          rw [h.sndLbb] at hloop
          have hseg := tcpEnqueueLoop_spec hsyn hfin hloop
          have hbuf := bufOk_enqueue h.buf hopen (by omega) hfin (h.una_le.trans h.nxt_le)
          have hok := addToUnsent_ok h hseg hsyn hrst hfin hbuf
          obtain ⟨rfl, rfl⟩ := Prod.mk.inj heq
          have hlen : arg.length + (if flags.syn = true ∨ flags.fin = true then 1 else 0) =
              (syms arg flags.fin).length := by
            rw [syms_length, hsyn]
            simp
          have hlbb : pos base (c.stream.length : Int) +
              BitVec.ofNat 32 (syms arg flags.fin).length =
              pos base ((c.stream ++ syms arg flags.fin).length : Int) := by
            rw [pos_add_ofNat, List.length_append]
            push_cast
            rfl
          refine .inl ⟨rfl, rfl, ?_⟩
          dsimp only
          rw [hlen, h.sndLbb, hlbb]
          by_cases hmore : more = true
          · rw [if_pos hmore]
            exact hok
          · rw [if_neg hmore]
            exact psh_ok hok

end Enqueue

end PopcornFirmware.Lwip.TcpEnqueue
