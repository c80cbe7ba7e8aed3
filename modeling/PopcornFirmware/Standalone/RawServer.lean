import PopcornFirmware.Lib.Runs
import PopcornFirmware.Lwip.Pbufs
import PopcornFirmware.Packet.Http
import PopcornFirmware.Packet.Str2int

namespace PopcornFirmware.Standalone.RawServer

open PopcornFirmware.Lib.CText PopcornFirmware.Lib.LinkedHeap PopcornFirmware.Lwip.Pbufs
open PopcornFirmware.Packet.Gen PopcornFirmware.Packet.Http PopcornFirmware.Packet.Str2int

/-- The values of enum tcp_server_states. -/
inductive EsState where
  | none
  | accepted
  | received
  | closing
  deriving DecidableEq

/-- struct tcp_server_struct without the pcb, which is never read. -/
structure Es where
  state : EsState
  p : Option Nat
  deriving DecidableEq

/-- The globals that tcp_server_recv and its json_Packet_Gen write. -/
structure Globals where
  recvSerial : BitVec 32
  flagErrRecvSerial : Bool
  flagRecvSerial : Bool
  postPacket : Text
  deriving DecidableEq

/-- One accepted connection with the pbufs in memory, and what lwIP has been
given and has given. -/
structure Conn where
  mem : Mem
  -- none once mem_free(es) has been called and the callbacks are gone
  es : Option Es
  -- the sent callback is installed
  sent : Bool
  globals : Globals
  -- recv has been called with p = NULL
  fin : Bool
  received : Text
  -- the bytes accepted by tcp_write
  written : Text
  -- the total passed to tcp_recved
  recved : Nat
  -- for each call of send the length of the chain and the iterations
  sends : List (Nat × Nat)
  deriving DecidableEq

/-- The connection as the accept callback leaves it. -/
def connected : Conn :=
  ⟨[], some ⟨.accepted, none⟩, false, ⟨0, false, false, []⟩, false, [], [], 0, []⟩

inductive ErrT where
  | ok
  | mem
  | other
  deriving DecidableEq

/-- What lwIP answers in one round of the send loop. -/
structure Answer where
  sndbuf : Nat
  write : ErrT

section Callbacks

structure Sending where
  mem : Mem
  p : Option Nat
  written : Text
  recved : Nat

/-- The loop of tcp_server_send and tcp_echoserver_send, counting its
iterations from n on. -/
def sendLoop (answers : Nat → Answer) : Nat → Nat → Sending → Option (Sending × Nat)
  | 0, _, _ => none
  | fuel + 1, n, s =>
    match s.p with
    | none => some (s, n)
    | some ptr =>
      (deref s.mem ptr).bind fun b =>
        if b.len ≤ (answers n).sndbuf then
          match (answers n).write with
          | .ok =>
            (pbufRef s.mem b.next).bind fun m => (pbufFree m (some ptr)).bind fun m =>
              sendLoop answers fuel (n + 1) ⟨m, b.next, s.written ++ b.payload, s.recved + b.len⟩
          -- es->p stays, and wr_err ends the loop
          | .mem | .other => some (s, n + 1)
        else some (s, n)

/-- tcp_server_send and tcp_echoserver_send. -/
def serverSend (answers : Nat → Answer) (c : Conn) (es : Es) : Option Conn :=
  (sendLoop answers (c.mem.length + 1) 0 ⟨c.mem, es.p, c.written, c.recved⟩).map fun r =>
    { c with
      mem := r.1.mem
      es := some { es with p := r.1.p }
      written := r.1.written
      recved := r.1.recved
      sends := c.sends ++ [(pbufClen c.mem es.p, r.2)] }

/-- tcp_server_connection_close and tcp_echoserver_connection_close. -/
def serverConnectionClose (c : Conn) : Conn := { c with es := none, sent := false }

/-- tcp_server_poll and tcp_echoserver_poll. -/
def serverPoll (answers : Nat → Answer) (c : Conn) (es : Es) : Option Conn :=
  if es.p ≠ none then serverSend answers c es
  else if es.state = .closing then some (serverConnectionClose c)
  else some c

/-- tcp_server_sent and tcp_echoserver_sent. -/
def serverSent (answers : Nat → Answer) (c : Conn) (es : Es) : Option Conn :=
  if es.p ≠ none then serverSend answers c es
  else if es.state = .closing then some (serverConnectionClose c)
  else some c

/-- tcp_server_error and tcp_echoserver_error. -/
def serverError (c : Conn) : Conn := { c with es := none, sent := false }

/-- The branches that the two recv callbacks share: an error, and data after
the connection has been closed. -/
def dropSegment (c : Conn) (es : Es) (p : Option Nat) (recved : Nat) : Option Conn :=
  (pbufFree c.mem p).map fun m =>
    { c with mem := m, es := some { es with p := none }, recved := c.recved + recved }

/-- The statements of tcp_server_recv on the serial. The text in serial_check
is local and is left out. -/
def checkSerial (g : Globals) (payload : Text) : Option Globals :=
  (str2int payload).bind fun v =>
    if v.toInt ≤ 0 then some { g with recvSerial := v, flagErrRecvSerial := true }
    else (httpPacketGen tcpEchoClient programEnv v).map fun text =>
      { g with recvSerial := v, flagErrRecvSerial := false, flagRecvSerial := true,
               postPacket := text }

/-- tcp_server_recv; after is the memory behind the payload up to a NUL. -/
def tcpServerRecv (answers : Nat → Answer) (after : Text) (c : Conn) (es : Es) (err : ErrT) :
    Option Nat → Option Conn
  | none =>
    if es.p = none then some (serverConnectionClose c)
    else serverSend answers { c with sent := true } es
  | some i =>
    if err ≠ .ok then dropSegment c es (some i) 0
    else
      match es.state with
      | .accepted => serverSend answers { c with sent := true } ⟨.received, some i⟩
      | .received =>
        if es.p = none then
          (deref c.mem i).bind fun b =>
            (checkSerial c.globals (b.payload ++ (after ++ [0]))).map fun g =>
              { c with globals := g, es := some { es with p := some i } }
        else (pbufChain c.mem es.p (some i)).map fun m => { c with mem := m }
      | .none | .closing =>
        (deref c.mem i).bind fun b => dropSegment c es (some i) b.totLen

/-- tcp_echoserver_recv. -/
def tcpEchoserverRecv (answers : Nat → Answer) (_after : Text) (c : Conn) (es : Es) (err : ErrT) :
    Option Nat → Option Conn
  | none =>
    if es.p = none then some (serverConnectionClose c)
    else serverSend answers { c with sent := true } { es with state := .closing }
  | some i =>
    if err ≠ .ok then dropSegment c es (some i) 0
    else
      match es.state with
      | .accepted => serverSend answers { c with sent := true } ⟨.received, some i⟩
      | .received =>
        if es.p = none then serverSend answers c { es with p := some i }
        else (pbufChain c.mem es.p (some i)).map fun m => { c with mem := m }
      | .none | .closing =>
        (deref c.mem i).bind fun b => dropSegment c es (some i) b.totLen

end Callbacks

/-- A callback, with what lwIP answers in the send loop. A segment is given by
the payloads of its pbufs; p = NULL is the one without any. -/
inductive Label where
  | recv (payloads : List Text) (err : ErrT) (after : Text) (answers : Nat → Answer)
  | sent (answers : Nat → Answer)
  | poll (answers : Nat → Answer)
  | error

abbrev Recv := (Nat → Answer) → Text → Conn → Es → ErrT → Option Nat → Option Conn

/-- The driver hands over a segment before recv is called. -/
def arrive (c : Conn) (payloads : List Text) : Conn :=
  { c with
    mem := (pbufAlloc c.mem payloads).1
    fin := c.fin || payloads.isEmpty
    received := c.received ++ payloads.flatten }

/-- A callback of a connection whose recv callback is the given one. Nothing is
called when it is over, and sent is called only where it is installed. -/
def step (recv : Recv) (c : Conn) (l : Label) : Option Conn :=
  match c.es with
  | none => some c
  | some es =>
    match l with
    | .recv payloads err after answers =>
      recv answers after (arrive c payloads) es err (pbufAlloc c.mem payloads).2
    | .sent answers => if c.sent then serverSent answers c es else some c
    | .poll answers => serverPoll answers c es
    | .error => some (serverError c)

section Step

variable {recv : Recv} {answers : Nat → Answer} {c t : Conn} {es : Es}

theorem serverSent_eq : serverSent answers c es = serverPoll answers c es := rfl

theorem step_over {l : Label} (h : c.es = none) : step recv c l = some c := by simp [step, h]

theorem step_recv {payloads : List Text} {err : ErrT} {after : Text} (hes : c.es = some es) :
    step recv c (.recv payloads err after answers) =
      recv answers after (arrive c payloads) es err (pbufAlloc c.mem payloads).2 := by
  simp only [step, hes]

theorem step_error (hes : c.es = some es) : step recv c .error = some (serverError c) := by
  simp only [step, hes]

theorem step_sent (hes : c.es = some es) (hsent : c.sent = true) :
    step recv c (.sent answers) = serverPoll answers c es := by
  simp only [step, hes, hsent, if_true, serverSent_eq]

theorem step_sent_of_not (hsent : ¬c.sent = true) : step recv c (.sent answers) = some c := by
  cases hes : c.es with
  | none => exact step_over hes
  | some es => simp only [step, hes, if_neg hsent]

theorem step_poll (hes : c.es = some es) :
    step recv c (.poll answers) = serverPoll answers c es := by simp only [step, hes]

/-- All that a callback of an open connection can do. -/
theorem step_cases {l : Label} (hes : c.es = some es) (h : step recv c l = some t) :
    (∃ payloads err after answers, l = .recv payloads err after answers ∧
      recv answers after (arrive c payloads) es err (pbufAlloc c.mem payloads).2 = some t) ∨
    (∃ answers, serverPoll answers c es = some t) ∨ t = c ∨ t = serverError c := by
  cases l with
  | recv payloads err after answers =>
    exact Or.inl ⟨payloads, err, after, answers, rfl, (step_recv hes).symm.trans h⟩
  | sent answers =>
    by_cases hsent : c.sent = true
    · exact Or.inr (Or.inl ⟨answers, step_sent hes hsent ▸ h⟩)
    · rw [step_sent_of_not hsent, Option.some.injEq] at h
      exact Or.inr (Or.inr (Or.inl h.symm))
  | poll answers => exact Or.inr (Or.inl ⟨answers, step_poll hes ▸ h⟩)
  | error =>
    rw [step_error hes, Option.some.injEq] at h
    exact Or.inr (Or.inr (Or.inr h.symm))

/-- A callback returns and keeps a property where recv and the send loop do so,
and where the two ends of the connection have it. -/
theorem step_total {P : Conn → Prop} (l : Label) (hes : c.es = some es) (hstay : P c)
    (hclose : es.p = none → es.state = .closing → P (serverConnectionClose c))
    (hsend : es.p ≠ none → ∀ answers, ∃ t, serverSend answers c es = some t ∧ P t)
    (herror : l = .error → P (serverError c))
    (hrecv : ∀ payloads err after answers, l = .recv payloads err after answers →
      ∃ t, recv answers after (arrive c payloads) es err (pbufAlloc c.mem payloads).2 = some t ∧
        P t) :
    ∃ t, step recv c l = some t ∧ P t := by
  have hpoll : ∀ answers, ∃ t, serverPoll answers c es = some t ∧ P t := by
    intro answers
    by_cases hp : es.p = none
    · by_cases hstate : es.state = .closing
      · exact ⟨_, by simp [serverPoll, hp, hstate], hclose hp hstate⟩
      · exact ⟨c, by simp [serverPoll, hp, hstate], hstay⟩
    · obtain ⟨t, ht, hpt⟩ := hsend hp answers
      exact ⟨t, (if_pos hp).trans ht, hpt⟩
  cases l with
  | recv payloads err after answers =>
    rw [step_recv hes]
    exact hrecv payloads err after answers rfl
  | sent answers =>
    by_cases hsent : c.sent = true
    · rw [step_sent hes hsent]
      exact hpoll answers
    · exact ⟨c, step_sent_of_not hsent, hstay⟩
  | poll answers =>
    rw [step_poll hes]
    exact hpoll answers
  | error => exact ⟨_, step_error hes, herror rfl⟩

end Step

section Arrive

theorem arrive_nil (c : Conn) : arrive c [] = { c with fin := true } := by
  simp [arrive, pbufAlloc, Lwip.Pbufs.segment]

/-- The pending chain is not touched by a segment that arrives. -/
theorem arrive_keeps {c : Conn} {p : Option Nat} {ids : List Nat} (hheld : Held c.mem p ids)
    (payloads : List Text) : Keeps c.mem (arrive c payloads).mem ids := by
  obtain ⟨-, -, hold, -⟩ := pbufAlloc_spec c.mem payloads
  refine keeps_of_eq (fun i hi => hheld.chain.live hi) fun i hi => ?_
  obtain ⟨b, hb⟩ := hheld.chain.live hi
  exact hold i (deref_lt hb)

/-- The segment is a chain of its own, of pbufs that nothing else refers to. -/
theorem arrive_fresh (c : Conn) (text : Text) (texts : List Text) :
    ∃ is, Held (arrive c (text :: texts)).mem (some c.mem.length) (c.mem.length :: is) ∧
      bytes (arrive c (text :: texts)).mem (c.mem.length :: is) = (text :: texts).flatten ∧
      (∀ k ∈ c.mem.length :: is, c.mem.length ≤ k) ∧
      ∀ k b, deref (arrive c (text :: texts)).mem k = some b →
        deref c.mem k = some b ∨ (k ∈ c.mem.length :: is ∧ b.ref = 1) := by
  obtain ⟨hnew, hbytes, -, hcases⟩ := pbufAlloc_spec c.mem (text :: texts)
  have hids : List.range' c.mem.length (text :: texts).length =
      c.mem.length :: List.range' (c.mem.length + 1) texts.length := by
    rw [List.length_cons, List.range'_succ]
  rw [hids] at hnew hbytes hcases
  refine ⟨_, hnew, hbytes, fun k hk => ?_, hcases⟩
  rw [← hids, List.mem_range'_1] at hk
  exact hk.1

end Arrive

section Send

/-- What the loop leaves behind on a chain: a chain again, the bytes moved over
in order, the window updated by as many, and no pbuf lost or touched that is
not its own. -/
theorem sendLoop_spec (answers : Nat → Answer) (ids : List Nat) (fuel n : Nat) (s : Sending)
    (hheld : Held s.mem s.p ids) (hfuel : ids.length < fuel) :
    ∃ r k rest, sendLoop answers fuel n s = some (r, n + k) ∧ k ≤ ids.length ∧
      Held r.mem r.p rest ∧ r.written ++ bytes r.mem rest = s.written ++ bytes s.mem ids ∧
      r.recved + s.written.length = s.recved + r.written.length ∧
      (Sole s.mem s.p ids → Sole r.mem r.p rest ∧ Released s.mem r.mem ids rest) := by
  obtain ⟨fuel, rfl⟩ : ∃ f, fuel = f + 1 := ⟨fuel - 1, by omega⟩
  induction ids generalizing fuel n s with
  | nil =>
    have hp : s.p = none := hheld.chain
    exact ⟨s, 0, [], by simp [sendLoop, hp], le_refl _, hheld, rfl, rfl,
      fun hsole => ⟨hsole, Released.refl s.mem []⟩⟩
  | cons i is ih =>
    obtain ⟨hp, b, hb, hrest⟩ := hheld.chain
    have hstay : ∀ k, k ≤ 1 → sendLoop answers (fuel + 1) n s = some (s, n + k) →
        ∃ r k rest, sendLoop answers (fuel + 1) n s = some (r, n + k) ∧ k ≤ (i :: is).length ∧
          Held r.mem r.p rest ∧
          r.written ++ bytes r.mem rest = s.written ++ bytes s.mem (i :: is) ∧
          r.recved + s.written.length = s.recved + r.written.length ∧
          (Sole s.mem s.p (i :: is) →
            Sole r.mem r.p rest ∧ Released s.mem r.mem (i :: is) rest) := by
      intro k hk heq
      exact ⟨s, k, i :: is, heq, by simp; omega, hheld, rfl, rfl,
        fun hsole => ⟨hsole, Released.refl s.mem (i :: is)⟩⟩
    by_cases hroom : b.len ≤ (answers n).sndbuf
    · cases hw : (answers n).write with
      | ok =>
        have hheld' : Held s.mem (some i) (i :: is) := hp ▸ hheld
        obtain ⟨m', hm', hlen, hkeep, hfree⟩ := release_head hheld' hb
        have htail : Held s.mem b.next is :=
          ⟨hrest, fun j hj => hheld.refs j (by simp [hj])⟩
        obtain ⟨f, rfl⟩ : ∃ f, fuel = f + 1 := ⟨fuel - 1, by simp at hfuel; omega⟩
        obtain ⟨r, k, rest, hloop, hk, hr, hbytes, hrecved, hrel⟩ :=
          ih (n + 1) ⟨m', b.next, s.written ++ b.payload, s.recved + b.len⟩
            (htail.keep hkeep) f (by simp at hfuel; omega)
        refine ⟨r, k + 1, rest, ?_, by simp; omega, hr, ?_, ?_, fun hsole => ?_⟩
        · have hstep : sendLoop answers (f + 1 + 1) n s = sendLoop answers (f + 1) (n + 1)
              ⟨m', b.next, s.written ++ b.payload, s.recved + b.len⟩ := by
            obtain ⟨m₁, hm₁, hm₁'⟩ := Option.bind_eq_some_iff.mp hm'
            simp only [sendLoop, hp, hb, Option.bind_some, hroom, if_true, hw, hm₁, hm₁']
          rw [hstep, hloop]
          congr 2
          omega
        · rw [hbytes, hkeep.bytes, bytes_cons hb, List.append_assoc]
        · simp only [List.length_append, Pbuf.len] at hrecved
          omega
        · obtain ⟨hgone, hsame⟩ := hfree (hsole.refs i (by simp) b hb)
          have hnot := (List.nodup_cons.mp hheld.chain.nodup).1
          have hnext : Sole s.mem b.next is := ⟨hrest, fun j hj => hsole.refs j (by simp [hj])⟩
          obtain ⟨hsole', hrel'⟩ := hrel <|
            hnext.of_same fun j hj => hsame j fun heq => hnot (heq ▸ hj)
          exact ⟨hsole', hrel'.cons hgone hsame hnot⟩
      | mem | other =>
        exact hstay 1 (le_refl _) (by simp [sendLoop, hp, hb, hroom, hw])
    · exact hstay 0 (by omega) (by simp [sendLoop, hp, hb, hroom])

theorem serverSend_spec (answers : Nat → Answer) (c : Conn) (es : Es) {ids : List Nat}
    (hheld : Held c.mem es.p ids) :
    ∃ c' p rest k, serverSend answers c es = some c' ∧ c'.es = some { es with p := p } ∧
      Held c'.mem p rest ∧ c'.written ++ bytes c'.mem rest = c.written ++ bytes c.mem ids ∧
      c'.recved + c.written.length = c.recved + c'.written.length ∧
      c'.sends = c.sends ++ [(ids.length, k)] ∧ k ≤ ids.length ∧
      (Exclusive c.mem ids → Exclusive c'.mem rest) ∧
      c'.received = c.received ∧ c'.fin = c.fin ∧ c'.sent = c.sent := by
  have hlen := hheld.chain.length_le
  obtain ⟨r, k, rest, hloop, hk, hr, hbytes, hrecved, hrel⟩ :=
    sendLoop_spec answers ids (c.mem.length + 1) 0 ⟨c.mem, es.p, c.written, c.recved⟩ hheld
      (by omega)
  have hrun : serverSend answers c es = some { c with
      mem := r.mem
      es := some { es with p := r.p }
      written := r.written
      recved := r.recved
      sends := c.sends ++ [(ids.length, k)] } := by
    rw [serverSend, hloop, Option.map_some, pbufClen_eq hheld.chain, Nat.zero_add]
  exact ⟨_, r.p, rest, k, hrun, rfl, hr, hbytes, hrecved, rfl, hk,
    fun hexcl => (hrel (hheld.sole hexcl)).2.exclusive hexcl, rfl, rfl, rfl⟩

end Send

theorem dropSegment_dead {c : Conn} {es : Es} {i n : Nat} (h : deref c.mem i = none) :
    dropSegment c es (some i) n = none := by
  rw [dropSegment, pbufFree]
  cases c.mem.length with
  | zero => rfl
  | succ fuel => simp [pbufFreeLoop, h]

theorem checkSerial_isSome (g : Globals) (payload after : Text) :
    ∃ g', checkSerial g (payload ++ (after ++ [0])) = some g' := by
  obtain ⟨v, hv⟩ := str2int_isSome payload after
  rw [checkSerial, hv, Option.bind_some,
    httpPacketGen_eq tcpEchoClient (by decide) (by decide)]
  split
  · exact ⟨_, rfl⟩
  · exact ⟨_, rfl⟩

section Segment

variable {answers : Nat → Answer} {after : Text} {c : Conn} {es : Es} {err : ErrT}

/-- A segment is dropped, sent as the first one, stored behind the check of its
serial, or appended to the pending ones. -/
theorem tcpServerRecv_segment (answers : Nat → Answer) (after : Text) (c : Conn) (es : Es)
    (err : ErrT) (i : Nat) :
    (∃ n, tcpServerRecv answers after c es err (some i) = dropSegment c es (some i) n) ∨
    tcpServerRecv answers after c es err (some i) =
      serverSend answers { c with sent := true } ⟨.received, some i⟩ ∨
    (err = .ok ∧ es.state = .received ∧ es.p = none ∧
      tcpServerRecv answers after c es err (some i) =
        (deref c.mem i).bind fun b =>
          (checkSerial c.globals (b.payload ++ (after ++ [0]))).map fun g =>
            { c with globals := g, es := some { es with p := some i } }) ∨
    (es.state = .received ∧ es.p ≠ none ∧
      tcpServerRecv answers after c es err (some i) =
        (pbufChain c.mem es.p (some i)).map fun m => { c with mem := m }) := by
  by_cases herr : err = .ok
  · simp only [tcpServerRecv, herr, ne_eq, not_true_eq_false, if_false]
    cases hstate : es.state with
    | accepted => exact Or.inr (Or.inl rfl)
    | received =>
      by_cases hp : es.p = none
      · exact Or.inr (Or.inr (Or.inl ⟨trivial, rfl, hp, if_pos hp⟩))
      · exact Or.inr (Or.inr (Or.inr ⟨rfl, hp, if_neg hp⟩))
    | none | closing =>
      left
      cases hb : deref c.mem i with
      | none => exact ⟨0, (dropSegment_dead hb).symm⟩
      | some b => exact ⟨b.totLen, rfl⟩
  · exact Or.inl ⟨0, if_pos herr⟩

theorem tcpServerRecv_store {i : Nat} {b : Pbuf} (hb : deref c.mem i = some b) (herr : err = .ok)
    (hstate : es.state = .received) (hp : es.p = none) :
    ∃ g, tcpServerRecv answers after c es err (some i) =
      some { c with globals := g, es := some { es with p := some i } } := by
  obtain ⟨g, hg⟩ := checkSerial_isSome c.globals b.payload after
  exact ⟨g, by simp [tcpServerRecv, herr, hstate, hp, hb, hg]⟩

/-- A segment that arrives while another is pending can be appended to it. -/
theorem pbufChain_arrive {h : Nat} {ids : List Nat} (hheld : Held c.mem (some h) ids)
    (text : Text) (texts : List Text) :
    ∃ m all, pbufChain (arrive c (text :: texts)).mem (some h) (some c.mem.length) = some m ∧
      Held m (some h) all ∧ bytes m all = bytes c.mem ids ++ (text :: texts).flatten := by
  obtain ⟨is, hnew, hbytes, hge, -⟩ := arrive_fresh c text texts
  have hkeep := arrive_keeps hheld (text :: texts)
  have hdisj : ∀ k ∈ c.mem.length :: is, k ∉ ids := by
    intro k hk hmem
    obtain ⟨b, hb⟩ := hheld.chain.live hmem
    exact absurd (deref_lt hb) (Nat.not_lt.mpr (hge k hk))
  obtain ⟨hs, rfl⟩ := hheld.eq_cons
  obtain ⟨m, hm, -, hall, hboth⟩ := pbufChain_spec (hheld.keep hkeep) hnew hdisj
  exact ⟨m, _, hm, hall, by rw [hboth, hkeep.bytes, hbytes]⟩

end Segment

section Globals

variable {answers : Nat → Answer} {after : Text} {c c' : Conn}

theorem serverSend_globals {es : Es} (h : serverSend answers c es = some c') :
    c'.globals = c.globals := by
  obtain ⟨r, -, rfl⟩ := Option.map_eq_some_iff.mp h
  rfl

theorem dropSegment_globals {es : Es} {p : Option Nat} {n : Nat}
    (h : dropSegment c es p n = some c') : c'.globals = c.globals := by
  obtain ⟨m, -, rfl⟩ := Option.map_eq_some_iff.mp h
  rfl

theorem serverPoll_globals {es : Es} (h : serverPoll answers c es = some c') :
    c'.globals = c.globals := by
  unfold serverPoll at h
  split at h
  · exact serverSend_globals h
  · split at h <;> cases h <;> rfl

/-- Only a further segment that finds nothing pending reaches the serial. -/
theorem tcpServerRecv_globals {es : Es} {err : ErrT} {p : Option Nat}
    (h : tcpServerRecv answers after c es err p = some c')
    (hnot : ¬ (err = .ok ∧ es.state = .received ∧ es.p = none ∧ p ≠ none)) :
    c'.globals = c.globals := by
  cases p with
  | none =>
    simp only [tcpServerRecv] at h
    split at h
    · cases h
      rfl
    · have hg := serverSend_globals h
      exact hg
  | some i =>
    obtain ⟨n, hdrop⟩ | hsend | ⟨herr, hstate, hp, -⟩ | ⟨-, -, hchain⟩ :=
      tcpServerRecv_segment answers after c es err i
    · exact dropSegment_globals (hdrop.symm.trans h)
    · have hg := serverSend_globals (hsend.symm.trans h)
      exact hg
    · exact absurd ⟨herr, hstate, hp, by simp⟩ hnot
    · obtain ⟨m, -, rfl⟩ := Option.map_eq_some_iff.mp (hchain.symm.trans h)
      rfl

end Globals

end PopcornFirmware.Standalone.RawServer
