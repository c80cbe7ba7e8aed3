import PopcornFirmware.Standalone.RawServer

namespace PopcornFirmware.Standalone.StoreAndForward

open PopcornFirmware.Lib.CText PopcornFirmware.Lib.LinkedHeap PopcornFirmware.Lib.Runs
open PopcornFirmware.Lwip.Pbufs PopcornFirmware.Packet.Gen PopcornFirmware.Packet.Http
open PopcornFirmware.Packet.Str2int
open PopcornFirmware.Standalone.RawServer (Conn ErrT Globals checkSerial connected serverSend
  tcpServerRecv arrive dropSegment serverPoll_globals tcpServerRecv_globals)

/-- The statement of main that comes next, from the endless loop on. -/
inductive Pc where
  -- if (ETH_CheckFrameReceived()) LwIP_Pkt_Handle(), in the inner loop while(1)
  | inner
  -- tcp_server_recvData() behind it
  | innerRecvData
  -- LwIP_Periodic_Handle(LocalTime)
  | periodic
  -- while (!flag_err_recv_serial)
  | guard
  -- if (ETH_CheckFrameReceived()) LwIP_Pkt_Handle(), in that loop
  | frame
  -- while (!flag_recv_serial)
  | await
  -- tcp_server_recvData() in that loop
  | recvData
  -- tcp_echoclient_connect()
  | connect
  -- flag_recv_serial = 0
  | clear
  -- the three flags behind the loop
  | reset
  deriving DecidableEq

/-- What matters for the hand-over: a serial is accepted by tcp_server_recv, or
tcp_echoclient_connect is called. -/
inductive Event where
  | accepted (serial : BitVec 32)
  | handed (serial : BitVec 32)
  deriving DecidableEq

structure State where
  pc : Pc
  globals : Globals
  flagServerAccept : Bool
  conns : List Conn
  log : List Event

/-- The flags are initialised and a first packet is generated. -/
def init : State where
  pc := .inner
  globals := ⟨0, false, false, (httpPacketGen tcpEchoClient programEnv 0).getD []⟩
  flagServerAccept := false
  conns := []
  log := []

/-- The serial that a callback accepts in the branch for a further segment. -/
def accepts (c : Conn) : RawServer.Label → Option (BitVec 32)
  | .recv payloads err after _ =>
    if err = .ok ∧ c.es = some ⟨.received, none⟩ then
      (pbufAlloc c.mem payloads).2.bind fun i => (deref (arrive c payloads).mem i).bind fun b =>
        (str2int (b.payload ++ (after ++ [0]))).filter fun v => 0 < v.toInt
    else none
  | _ => none

/-- What lwIP does with a frame or on a timer: the server gets a connection, or
a callback of one is called. -/
inductive Upcall where
  | accept
  | callback (i : Nat) (l : RawServer.Label)

def deliver (s : State) : Upcall → Option State
  | .accept => some { s with conns := s.conns ++ [connected] }
  | .callback i l =>
    s.conns[i]?.bind fun c =>
      let c := { c with globals := s.globals }
      (RawServer.step tcpServerRecv c l).map fun c' =>
        { s with
          conns := s.conns.set i c'
          globals := c'.globals
          log := s.log ++ ((accepts c l).map .accepted).toList }

/-- A statement in which lwIP runs, with its upcalls, or any other one. -/
inductive Label where
  | lwip (upcalls : List Upcall)
  | run

def step (s : State) (l : Label) : Option State :=
  match s.pc, l with
  | .inner, .lwip us => (exec deliver s us).map fun t => { t with pc := .innerRecvData }
  -- no frame has been received
  | .inner, .run => some { s with pc := .periodic }
  | .innerRecvData, .run => some { s with flagServerAccept := true, pc := .periodic }
  -- the inner loop has no exit
  | .periodic, .lwip us => (exec deliver s us).map fun t => { t with pc := .inner }
  | .guard, .run => some { s with pc := if s.globals.flagErrRecvSerial then .reset else .frame }
  | .frame, .lwip us => (exec deliver s us).map fun t => { t with pc := .await }
  | .frame, .run => some { s with pc := .await }
  | .await, .run =>
    some { s with pc := if s.globals.flagRecvSerial then .connect else .recvData }
  | .recvData, .run => some { s with flagServerAccept := true, pc := .await }
  | .connect, .run =>
    some { s with log := s.log ++ [.handed s.globals.recvSerial], pc := .clear }
  | .clear, .run =>
    some { s with globals := { s.globals with flagRecvSerial := false }, pc := .guard }
  | .reset, .run =>
    some { s with
      globals := { s.globals with flagErrRecvSerial := false, flagRecvSerial := false }
      flagServerAccept := false
      pc := .inner }
  | _, _ => none

/-- Every serial is handed to the client before the next one is accepted; the
first argument says whether one is waiting. -/
def InOrder : Bool → List Event → Prop
  | _, [] => True
  | waiting, .accepted _ :: es => waiting = false ∧ InOrder true es
  | _, .handed _ :: es => InOrder false es

def Forwarded (s : State) : Prop := InOrder false s.log

def acceptedSerials (s : State) : List (BitVec 32) :=
  s.log.filterMap fun
    | .accepted v => some v
    | .handed _ => none

section Accepts

variable {answers : Nat → RawServer.Answer} {after : Text} {c c' : Conn}

theorem checkSerial_eq {g g' : Globals} {payload : Text} (h : checkSerial g payload = some g') :
    match (str2int payload).filter fun v => 0 < v.toInt with
    | some v => g'.recvSerial = v ∧ g'.flagRecvSerial = true ∧
        httpPacketGen tcpEchoClient programEnv v = some g'.postPacket
    | none => g'.flagRecvSerial = g.flagRecvSerial ∧ g'.postPacket = g.postPacket := by
  obtain ⟨v, hv, h⟩ := Option.bind_eq_some_iff.mp h
  rw [hv]
  by_cases hpos : v.toInt ≤ 0
  · rw [if_pos hpos] at h
    cases h
    simp [Option.filter, not_lt.mpr hpos]
  · rw [if_neg hpos] at h
    obtain ⟨text, htext, rfl⟩ := Option.map_eq_some_iff.mp h
    simp [Option.filter, not_le.mp hpos, htext]

theorem accepts_eq_none {payloads : List Text} {err : ErrT} {es : RawServer.Es}
    (hes : c.es = some es)
    (hnot : ¬ (err = .ok ∧ es.state = .received ∧ es.p = none ∧
      (pbufAlloc c.mem payloads).2 ≠ none)) :
    accepts c (.recv payloads err after answers) = none := by
  simp only [accepts]
  split
  · rename_i hreach
    obtain ⟨hok, hes'⟩ := hreach
    rw [hes] at hes'
    cases hes'
    have halloc : (pbufAlloc c.mem payloads).2 = none := by
      by_contra hne
      exact hnot ⟨hok, rfl, rfl, hne⟩
    rw [halloc]
    rfl
  · rfl

/-- An accepted serial is announced and its packet generated; any other
callback leaves both alone. -/
theorem accepts_spec {l : RawServer.Label} (h : RawServer.step tcpServerRecv c l = some c') :
    match accepts c l with
    | some v => c'.globals.recvSerial = v ∧ c'.globals.flagRecvSerial = true ∧
        httpPacketGen tcpEchoClient programEnv v = some c'.globals.postPacket
    | none => c'.globals.flagRecvSerial = c.globals.flagRecvSerial ∧
        c'.globals.postPacket = c.globals.postPacket := by
  have hsame : accepts c l = none → c'.globals = c.globals →
      match accepts c l with
      | some v => c'.globals.recvSerial = v ∧ c'.globals.flagRecvSerial = true ∧
          httpPacketGen tcpEchoClient programEnv v = some c'.globals.postPacket
      | none => c'.globals.flagRecvSerial = c.globals.flagRecvSerial ∧
          c'.globals.postPacket = c.globals.postPacket := by
    intro hacc hg
    rw [hacc, hg]
    exact ⟨rfl, rfl⟩
  cases hes : c.es with
  | none =>
    rw [RawServer.step_over hes, Option.some.injEq] at h
    subst h
    refine hsame ?_ rfl
    cases l with
    | recv payloads err after answers => simp [accepts, hes]
    | sent | poll | error => rfl
  | some es =>
    cases l with
    | recv payloads err after answers =>
      rw [RawServer.step_recv hes] at h
      by_cases hreach : err = .ok ∧ es.state = .received ∧ es.p = none ∧
          (pbufAlloc c.mem payloads).2 ≠ none
      · obtain ⟨rfl, hstate, hp, halloc⟩ := hreach
        obtain ⟨i, hi⟩ := Option.ne_none_iff_exists'.mp halloc
        rw [hi] at h
        simp only [tcpServerRecv, hstate, hp, ne_eq, not_true_eq_false, if_false, if_true] at h
        obtain ⟨b, hb, h⟩ := Option.bind_eq_some_iff.mp h
        obtain ⟨g, hg, rfl⟩ := Option.map_eq_some_iff.mp h
        have hacc : accepts c (.recv payloads .ok after answers) =
            (str2int (b.payload ++ (after ++ [0]))).filter fun v => 0 < v.toInt := by
          have hes' : c.es = some ⟨.received, none⟩ := by rw [hes, ← hstate, ← hp]
          simp [accepts, hes', hi, hb]
        rw [hacc]
        exact checkSerial_eq hg
      · have hg := tcpServerRecv_globals h hreach
        exact hsame (accepts_eq_none hes hreach) hg
    | sent answers =>
      refine hsame rfl ?_
      by_cases hsent : c.sent = true
      · exact serverPoll_globals (RawServer.step_sent hes hsent ▸ h)
      · rw [RawServer.step_sent_of_not hsent, Option.some.injEq] at h
        exact h ▸ rfl
    | poll answers => exact hsame rfl (serverPoll_globals (RawServer.step_poll hes ▸ h))
    | error =>
      rw [RawServer.step_error hes, Option.some.injEq] at h
      exact hsame rfl (h ▸ rfl)

end Accepts

theorem deliver_log {s t : State} {u : Upcall} (h : deliver s u = some t) :
    t.pc = s.pc ∧ ∃ vs : List (BitVec 32), t.log = s.log ++ vs.map .accepted := by
  cases u with
  | accept =>
    cases h
    exact ⟨rfl, [], by simp⟩
  | callback i l =>
    obtain ⟨c, -, h⟩ := Option.bind_eq_some_iff.mp h
    obtain ⟨c', -, rfl⟩ := Option.map_eq_some_iff.mp h
    refine ⟨rfl, (accepts { c with globals := s.globals } l).toList, ?_⟩
    cases accepts { c with globals := s.globals } l <;> rfl

/-- lwIP accepts serials and hands none over. -/
theorem exec_deliver_log {s t : State} {us : List Upcall} (h : exec deliver s us = some t) :
    ∃ vs : List (BitVec 32), t.log = s.log ++ vs.map .accepted := by
  refine exec_keeps (P := fun t => ∃ vs : List (BitVec 32), t.log = s.log ++ vs.map .accepted) ?_
    ⟨[], by simp⟩ h
  rintro t u t' ⟨vs, hvs⟩ hstep
  obtain ⟨-, ws, hws⟩ := deliver_log hstep
  exact ⟨vs ++ ws, by rw [hws, hvs, List.map_append, List.append_assoc]⟩

/-- main is still in its inner loop, and the log holds acceptances only. -/
structure Invariant (s : State) : Prop where
  loop : s.pc = .inner ∨ s.pc = .innerRecvData ∨ s.pc = .periodic
  log : ∃ vs : List (BitVec 32), s.log = vs.map .accepted

theorem inv_init : Invariant init := ⟨Or.inl rfl, [], rfl⟩

theorem inv_lwip {s t : State} {us : List Upcall} {pc : Pc} (hi : Invariant s)
    (hpc : pc = .inner ∨ pc = .innerRecvData ∨ pc = .periodic)
    (h : (exec deliver s us).map (fun t => { t with pc := pc }) = some t) : Invariant t := by
  obtain ⟨u, hu, rfl⟩ := Option.map_eq_some_iff.mp h
  obtain ⟨vs, hvs⟩ := hi.log
  obtain ⟨ws, hws⟩ := exec_deliver_log hu
  exact ⟨hpc, vs ++ ws, by simp only [hws, hvs, List.map_append]⟩

theorem inv_step {s t : State} {l : Label} (hi : Invariant s) (h : step s l = some t) :
    Invariant t := by
  obtain hpc | hpc | hpc := hi.loop <;> cases l <;> simp only [step, hpc] at h
  · exact inv_lwip hi (by simp) h
  · cases h
    exact ⟨by simp, hi.log⟩
  · cases h
  · cases h
    exact ⟨by simp, hi.log⟩
  · exact inv_lwip hi (by simp) h
  · cases h

theorem inOrder_accepted (vs : List (BitVec 32)) :
    InOrder false (vs.map .accepted) ↔ vs.length ≤ 1 := by
  match vs with
  | [] => simp [InOrder]
  | [v] => simp [InOrder]
  | v :: w :: vs => simp [InOrder]

theorem filterMap_accepted (vs : List (BitVec 32)) :
    (vs.map Event.accepted).filterMap (fun
      | .accepted v => some v
      | .handed _ => none) = vs := by
  induction vs with
  | nil => rfl
  | cons v vs ih => simp [ih]

/-- What lwIP answers when everything fits. -/
def roomy : Nat → RawServer.Answer := fun _ => ⟨500, .ok⟩

def segment (payload : Text) : Upcall := .callback 0 (.recv [payload] .ok [] roomy)

/-- A peer connects and sends a first segment, a serial that is echoed on the
next poll, and a second serial. -/
def twoSerials : List Label :=
  [.lwip [.accept, segment (lit "hello")], .run, .lwip [], .lwip [segment (lit "5")], .run,
    .lwip [.callback 0 (.poll roomy)], .lwip [segment (lit "6")]]

end PopcornFirmware.Standalone.StoreAndForward
