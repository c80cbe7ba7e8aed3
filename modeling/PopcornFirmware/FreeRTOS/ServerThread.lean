import PopcornFirmware.FreeRTOS.ReceiveLoop
import Mathlib.Algebra.Order.BigOperators.Group.List
import Mathlib.Data.List.ReduceOption
import PopcornFirmware.Lib.LinkedHeap

namespace PopcornFirmware.FreeRTOS.ServerThread

open PopcornFirmware.Lib.CText PopcornFirmware.Lib.LinkedHeap PopcornFirmware.Packet.Str2int
open PopcornFirmware.FreeRTOS.ReceiveLoop (Fragment Netbuf)

/-- What tcpecho_thread does to its resources and with the data. -/
inductive Event where
  -- newconn = netconn_accept(conn)
  | netconnAccept (newconn : Nat)
  -- buf = netconn_recv(newconn)
  | netconnRecv (newconn buf : Nat)
  -- netconn_write(newconn, data, len, NETCONN_COPY)
  | netconnWrite (newconn : Nat) (data : Text)
  -- recv_serial = str2int(data), with the memory at data
  | str2int (data : Text) (recvSerial : BitVec 32)
  -- the statements under recv_serial >= 0
  | accepted (recvSerial : BitVec 32)
  | netbufDelete (buf : Nat)
  | netconnClose (newconn : Nat)
  | netconnDelete (newconn : Nat)

/-- The netbufs and netconns by identity, none when deleted; an open netconn
holds true. -/
structure Server where
  netbufs : Heap Netbuf
  netconns : Heap Bool
  log : List Event

def init : Server := ⟨[], [], []⟩

namespace Server

def record (s : Server) (e : Event) : Server := { s with log := s.log ++ [e] }

def netconnAccept (s : Server) : Nat × Server :=
  (s.netconns.length, { s with
    netconns := s.netconns ++ [some true]
    log := s.log ++ [.netconnAccept s.netconns.length] })

def netconnRecv (newconn : Nat) (buf : Netbuf) (s : Server) : Option (Nat × Server) :=
  if deref s.netconns newconn = some true then
    some (s.netbufs.length, { s with
      netbufs := s.netbufs ++ [some buf]
      log := s.log ++ [.netconnRecv newconn s.netbufs.length] })
  else none

/-- netbuf_data; the memory behind a fragment is the one of the model and then
a NUL. -/
def netbufData (buf : Nat) (s : Server) : Option (Text × Nat) :=
  (deref s.netbufs buf).map fun b =>
    ((ReceiveLoop.netbufData b).1 ++ [0], (ReceiveLoop.netbufData b).2)

def netconnWrite (newconn : Nat) (data : Text) (s : Server) : Option Server :=
  if deref s.netconns newconn = some true then some (s.record (.netconnWrite newconn data))
  else none

def netbufNext (buf : Nat) (s : Server) : Option (Int × Server) :=
  (deref s.netbufs buf).map fun b =>
    ((ReceiveLoop.netbufNext b).1, { s with
      netbufs := write s.netbufs buf (some (ReceiveLoop.netbufNext b).2) })

def netbufDelete (buf : Nat) (s : Server) : Option Server :=
  (deref s.netbufs buf).map fun _ =>
    { s with netbufs := write s.netbufs buf none, log := s.log ++ [.netbufDelete buf] }

def netconnClose (newconn : Nat) (s : Server) : Option Server :=
  if deref s.netconns newconn = some true then
    some { s with
      netconns := write s.netconns newconn (some false)
      log := s.log ++ [.netconnClose newconn] }
  else none

def netconnDelete (newconn : Nat) (s : Server) : Option Server :=
  (deref s.netconns newconn).map fun _ =>
    { s with
      netconns := write s.netconns newconn none
      log := s.log ++ [.netconnDelete newconn] }

end Server

/-- The body of the do loop. -/
def handlePart (newconn buf : Nat) (s : Server) : Option Server :=
  (s.netbufData buf).bind fun (data, len) =>
    (s.netconnWrite newconn (data.take len)).bind fun s =>
      (str2int data).map fun recvSerial =>
        if 0 ≤ recvSerial.toInt then
          (s.record (.str2int data recvSerial)).record (.accepted recvSerial)
        else s.record (.str2int data recvSerial)

/-- do { .. } while (netbuf_next(buf) >= 0); the fuel bounds the rounds. -/
def doLoop (newconn buf : Nat) : Nat → Server → Option Server
  | 0, _ => none
  | fuel + 1, s =>
    (handlePart newconn buf s).bind fun s =>
      (s.netbufNext buf).bind fun (next, s) =>
        if 0 ≤ next then doLoop newconn buf fuel s else some s

/-- The loop over the netbufs that netconn_recv returns before NULL. -/
def recvLoop (fuel newconn : Nat) : List Netbuf → Server → Option Server
  | [], s => some s
  | b :: bs, s =>
    (s.netconnRecv newconn b).bind fun (buf, s) =>
      (doLoop newconn buf fuel s).bind fun s =>
        (s.netbufDelete buf).bind fun s => recvLoop fuel newconn bs s

/-- The loop of tcpecho_thread over what netconn_accept returns: none for NULL,
or a connection with the netbufs that are received on it. -/
def tcpechoThread (fuel : Nat) : List (Option (List Netbuf)) → Server → Option Server
  | [], s => some s
  | none :: conns, s => tcpechoThread fuel conns s
  | some bufs :: conns, s =>
    (recvLoop fuel s.netconnAccept.1 bufs s.netconnAccept.2).bind fun t =>
      (t.netconnClose s.netconnAccept.1).bind fun t =>
        (t.netconnDelete s.netconnAccept.1).bind fun t => tcpechoThread fuel conns t

section Projections

/-- The bytes written back on a connection. -/
def writtenOn (newconn : Nat) (log : List Event) : Text :=
  log.flatMap fun
    | .netconnWrite k data => if k = newconn then data else []
    | _ => []

/-- What str2int has been applied to. -/
def parsed (log : List Event) : List Text :=
  log.filterMap fun
    | .str2int data _ => some data
    | _ => none

def obtained (log : List Event) : List Nat :=
  log.filterMap fun
    | .netconnRecv _ buf => some buf
    | _ => none

def deleted (log : List Event) : List Nat :=
  log.filterMap fun
    | .netbufDelete buf => some buf
    | _ => none

/-- The events in the life of a netconn. -/
inductive Life where
  | accepted (newconn : Nat)
  | closed (newconn : Nat)
  | deleted (newconn : Nat)
  deriving DecidableEq

def life (log : List Event) : List Life :=
  log.filterMap fun
    | .netconnAccept newconn => some (.accepted newconn)
    | .netconnClose newconn => some (.closed newconn)
    | .netconnDelete newconn => some (.deleted newconn)
    | _ => none

end Projections

section Trace

/-- The memory from the payload of a fragment on. -/
def memory (f : Fragment) : Text := f.payload ++ f.after ++ [0]

def serial (f : Fragment) : BitVec 32 := (str2int (memory f)).getD 0

def partEvents (newconn : Nat) (f : Fragment) : List Event :=
  .netconnWrite newconn f.payload :: .str2int (memory f) (serial f) ::
    if 0 ≤ (serial f).toInt then [.accepted (serial f)] else []

/-- What happens on a connection on which these netbufs are received, the first
of them with the given identity. -/
def recvEvents (newconn : Nat) : Nat → List Netbuf → List Event
  | _, [] => []
  | buf, b :: bufs =>
    .netconnRecv newconn buf :: (b.fragments.flatMap (partEvents newconn) ++
      .netbufDelete buf :: recvEvents newconn (buf + 1) bufs)

def trace : Nat → Nat → List (List Netbuf) → List Event
  | _, _, [] => []
  | newconn, buf, bufs :: conns =>
    .netconnAccept newconn :: (recvEvents newconn buf bufs ++
      .netconnClose newconn :: .netconnDelete newconn ::
        trace (newconn + 1) (buf + bufs.length) conns)

end Trace

variable {newconn buf : Nat} {s : Server} {f : Fragment} {fs : List Fragment}

theorem handlePart_executes (hconn : deref s.netconns newconn = some true)
    (hbuf : deref s.netbufs buf = some ⟨f, fs⟩) :
    handlePart newconn buf s = some { s with log := s.log ++ partEvents newconn f } := by
  have hdata : s.netbufData buf = some (memory f, f.payload.length) := by
    rw [Server.netbufData, hbuf]
    rfl
  have htake : (memory f).take f.payload.length = f.payload := by
    simp [memory]
  have hwrite : s.netconnWrite newconn f.payload =
      some (s.record (.netconnWrite newconn f.payload)) := if_pos hconn
  have hparse : str2int (memory f) = some (serial f) := by
    obtain ⟨v, hv⟩ := str2int_isSome f.payload f.after
    rw [← List.append_assoc] at hv
    have hv : str2int (memory f) = some v := hv
    rw [serial, hv, Option.getD_some]
  simp only [handlePart, hdata, Option.bind_some, htake, hwrite, hparse, Option.map_some]
  split <;> simp_all [Server.record, partEvents]

theorem netbufNext_executes (hbuf : deref s.netbufs buf = some ⟨f, fs⟩) :
    s.netbufNext buf = some ((ReceiveLoop.netbufNext ⟨f, fs⟩).1, { s with
      netbufs := write s.netbufs buf (some (ReceiveLoop.netbufNext ⟨f, fs⟩).2) }) := by
  rw [Server.netbufNext, hbuf, Option.map_some]

/-- The loop goes once through the fragments of a netbuf, to the last one. -/
theorem doLoop_executes (hconn : deref s.netconns newconn = some true)
    (hbuf : deref s.netbufs buf = some ⟨f, fs⟩) :
    ∃ b, ∀ fuel, fs.length < fuel → doLoop newconn buf fuel s = some { s with
      netbufs := write s.netbufs buf (some b)
      log := s.log ++ (f :: fs).flatMap (partEvents newconn) } := by
  have hpart := handlePart_executes hconn hbuf
  have hnext := netbufNext_executes (s := { s with
    log := s.log ++ partEvents newconn f }) hbuf
  induction fs generalizing f s with
  | nil =>
    refine ⟨⟨f, []⟩, fun fuel hfuel => ?_⟩
    cases fuel with
    | zero => simp at hfuel
    | succ fuel =>
      have hneg : ¬ 0 ≤ (ReceiveLoop.netbufNext ⟨f, []⟩).1 := by
        simp [ReceiveLoop.netbufNext]
      simp only [doLoop, hpart, Option.bind_some, hnext, if_neg hneg]
      simp [ReceiveLoop.netbufNext]
  | cons g gs ih =>
    have hpos : 0 ≤ (ReceiveLoop.netbufNext ⟨f, g :: gs⟩).1 := by
      simp only [ReceiveLoop.netbufNext]
      split <;> decide
    have hmoved := deref_write_self (c := some (⟨g, gs⟩ : Netbuf)) (deref_lt hbuf)
    obtain ⟨b, hrest⟩ := ih (s := { s with
        netbufs := write s.netbufs buf (some ⟨g, gs⟩)
        log := s.log ++ partEvents newconn f }) hconn hmoved
      (handlePart_executes hconn hmoved) (netbufNext_executes hmoved)
    refine ⟨b, fun fuel hfuel => ?_⟩
    cases fuel with
    | zero => simp at hfuel
    | succ fuel =>
      simp only [doLoop, hpart, Option.bind_some, hnext, if_pos hpos]
      rw [show (ReceiveLoop.netbufNext ⟨f, g :: gs⟩).2 = ⟨g, gs⟩ from rfl,
        hrest fuel (by simpa using hfuel)]
      simp

/-- Every netbuf is deleted before the next one is obtained. -/
theorem recvLoop_executes (bufs : List Netbuf) (hconn : deref s.netconns newconn = some true)
    {fuel : Nat} (hfuel : ∀ b ∈ bufs, b.next.length < fuel) :
    recvLoop fuel newconn bufs s = some { s with
      netbufs := s.netbufs ++ List.replicate bufs.length none
      log := s.log ++ recvEvents newconn s.netbufs.length bufs } := by
  induction bufs generalizing s with
  | nil => simp [recvLoop, recvEvents]
  | cons b bufs ih =>
    obtain ⟨f, fs⟩ := b
    have hhere : fs.length < fuel := hfuel ⟨f, fs⟩ (by simp)
    have hrecv : s.netconnRecv newconn ⟨f, fs⟩ = some (s.netbufs.length, { s with
        netbufs := s.netbufs ++ [some ⟨f, fs⟩]
        log := s.log ++ [.netconnRecv newconn s.netbufs.length] }) := if_pos hconn
    obtain ⟨b, hloop⟩ := doLoop_executes (s := { s with
        netbufs := s.netbufs ++ [some ⟨f, fs⟩]
        log := s.log ++ [.netconnRecv newconn s.netbufs.length] }) hconn deref_append_self
    have hrest := ih (s := { s with
        netbufs := s.netbufs ++ [none]
        log := s.log ++ [.netconnRecv newconn s.netbufs.length] ++
          (f :: fs).flatMap (partEvents newconn) ++ [.netbufDelete s.netbufs.length] }) hconn
      fun b hb => hfuel b (by simp [hb])
    rw [recvLoop, hrecv, Option.bind_some]
    simp only [hloop fuel hhere, Option.bind_some, Server.netbufDelete, write_append_self,
      deref_append_self, Option.map_some, hrest, Option.some.injEq]
    simp [recvEvents, Netbuf.fragments, List.replicate_succ]

/-- Every netconn is closed and deleted before the next one is accepted. -/
theorem tcpechoThread_executes (conns : List (Option (List Netbuf))) {fuel : Nat}
    (hfuel : ∀ bufs ∈ conns.reduceOption, ∀ b ∈ bufs, b.next.length < fuel) :
    tcpechoThread fuel conns s = some {
      netbufs := s.netbufs ++ List.replicate conns.reduceOption.flatten.length none
      netconns := s.netconns ++ List.replicate conns.reduceOption.length none
      log := s.log ++ trace s.netconns.length s.netbufs.length conns.reduceOption } := by
  induction conns generalizing s with
  | nil => simp [tcpechoThread, trace]
  | cons c conns ih =>
    cases c with
    | none =>
      rw [List.reduceOption_cons_of_none] at hfuel ⊢
      exact ih hfuel
    | some bufs =>
      rw [List.reduceOption_cons_of_some] at hfuel ⊢
      have hloop := recvLoop_executes (s := s.netconnAccept.2) bufs
        (deref_append_self : deref (s.netconns ++ [some true]) _ = _) (hfuel bufs (by simp))
      have hrest := ih (s := {
        netbufs := s.netbufs ++ List.replicate bufs.length none
        netconns := s.netconns ++ [none]
        log := s.log ++ [.netconnAccept s.netconns.length] ++
          recvEvents s.netconns.length s.netbufs.length bufs ++
          [.netconnClose s.netconns.length] ++ [.netconnDelete s.netconns.length] })
        fun bs hbs => hfuel bs (by simp [hbs])
      rw [tcpechoThread, show s.netconnAccept.1 = s.netconns.length from rfl, hloop,
        Option.bind_some]
      simp only [Server.netconnAccept, Server.netconnClose, deref_append_self, if_true,
        Option.bind_some, write_append_self, Server.netconnDelete, Option.map_some]
      rw [hrest]
      simp [trace, List.replicate_succ, ← List.replicate_append_replicate]

section Totals

variable (newconn buf : Nat)

/-- All that the events of a fragment amount to. -/
theorem partEvents_totals (f : Fragment) :
    (∀ k, writtenOn k (partEvents newconn f) = if newconn = k then f.payload else []) ∧
      parsed (partEvents newconn f) = [memory f] ∧ obtained (partEvents newconn f) = [] ∧
      deleted (partEvents newconn f) = [] ∧ life (partEvents newconn f) = [] := by
  unfold partEvents
  split
  · exact ⟨fun k => by simp [writtenOn], rfl, rfl, rfl, rfl⟩
  · exact ⟨fun k => by simp [writtenOn], rfl, rfl, rfl, rfl⟩

/-- What a projection of the log makes of a netbuf and those behind it. -/
theorem filterMap_recvEvents {β : Type} (p : Event → Option β) (b : Netbuf) (bufs : List Netbuf) :
    (recvEvents newconn buf (b :: bufs)).filterMap p =
      (p (.netconnRecv newconn buf)).toList ++
        (b.fragments.flatMap (fun f => (partEvents newconn f).filterMap p) ++
          ((p (.netbufDelete buf)).toList ++ (recvEvents newconn (buf + 1) bufs).filterMap p)) := by
  simp only [recvEvents, List.filterMap_eq_flatMap_toList, List.flatMap_cons, List.flatMap_append,
    List.flatMap_assoc]

/-- The same for a connection and those behind it. -/
theorem filterMap_trace {β : Type} (p : Event → Option β) (bufs : List Netbuf)
    (conns : List (List Netbuf)) :
    (trace newconn buf (bufs :: conns)).filterMap p =
      (p (.netconnAccept newconn)).toList ++ ((recvEvents newconn buf bufs).filterMap p ++
        ((p (.netconnClose newconn)).toList ++ ((p (.netconnDelete newconn)).toList ++
          (trace (newconn + 1) (buf + bufs.length) conns).filterMap p))) := by
  simp only [trace, List.filterMap_eq_flatMap_toList, List.flatMap_cons, List.flatMap_append]

/-- All that the events between an accept and the close amount to. -/
theorem recvEvents_totals (bufs : List Netbuf) :
    (∀ k, writtenOn k (recvEvents newconn buf bufs) =
        if newconn = k then (bufs.flatMap Netbuf.fragments).flatMap Fragment.payload else []) ∧
      parsed (recvEvents newconn buf bufs) = (bufs.flatMap Netbuf.fragments).map memory ∧
      obtained (recvEvents newconn buf bufs) = List.range' buf bufs.length ∧
      deleted (recvEvents newconn buf bufs) = List.range' buf bufs.length ∧
      life (recvEvents newconn buf bufs) = [] := by
  have hpart := partEvents_totals newconn
  simp only [writtenOn, parsed, obtained, deleted, life] at hpart ⊢
  induction bufs generalizing buf with
  | nil => simp [recvEvents]
  | cons b bufs ih =>
    obtain ⟨hw, hp, ho, hd, hl⟩ := ih (buf + 1)
    refine ⟨fun k => ?_, ?_, ?_, ?_, ?_⟩
    · rw [recvEvents, List.flatMap_cons, List.flatMap_append, List.flatMap_cons, hw,
        List.flatMap_assoc]
      simp only [fun f => (hpart f).1 k]
      split <;> simp
    · rw [filterMap_recvEvents, hp]
      simp [fun f => (hpart f).2.1, List.map_eq_flatMap]
    · rw [filterMap_recvEvents, ho]
      simp [fun f => (hpart f).2.2.1, List.range'_succ]
    · rw [filterMap_recvEvents, hd]
      simp [fun f => (hpart f).2.2.2.1, List.range'_succ]
    · rw [filterMap_recvEvents, hl]
      simp [fun f => (hpart f).2.2.2.2]

theorem trace_totals (conns : List (List Netbuf)) :
    parsed (trace newconn buf conns) = (conns.flatten.flatMap Netbuf.fragments).map memory ∧
      obtained (trace newconn buf conns) = List.range' buf conns.flatten.length ∧
      deleted (trace newconn buf conns) = List.range' buf conns.flatten.length ∧
      life (trace newconn buf conns) = (List.range' newconn conns.length).flatMap fun k =>
        [.accepted k, .closed k, .deleted k] := by
  induction conns generalizing newconn buf with
  | nil => exact ⟨rfl, rfl, rfl, rfl⟩
  | cons bufs conns ih =>
    obtain ⟨hp, ho, hd, hl⟩ := ih (newconn + 1) (buf + bufs.length)
    obtain ⟨-, hp', ho', hd', hl'⟩ := recvEvents_totals newconn buf bufs
    simp only [parsed, obtained, deleted, life] at *
    refine ⟨?_, ?_, ?_, ?_⟩
    · rw [filterMap_trace, hp', hp]
      simp
    · rw [filterMap_trace, ho', ho, List.flatten_cons, List.length_append]
      exact List.range'_append_1
    · rw [filterMap_trace, hd', hd, List.flatten_cons, List.length_append]
      exact List.range'_append_1
    · rw [filterMap_trace, hl', hl, List.length_cons, List.range'_succ, List.flatMap_cons]
      rfl

theorem writtenOn_cons (bufs : List Netbuf) (conns : List (List Netbuf)) (k : Nat) :
    writtenOn k (trace newconn buf (bufs :: conns)) =
      (if newconn = k then (bufs.flatMap Netbuf.fragments).flatMap Fragment.payload else []) ++
        writtenOn k (trace (newconn + 1) (buf + bufs.length) conns) := by
  have hw := (recvEvents_totals newconn buf bufs).1 k
  simp only [writtenOn] at hw ⊢
  simp only [trace, List.flatMap_cons, List.flatMap_append, hw, List.nil_append]

/-- A connection is written to after its accept only. -/
theorem writtenOn_of_lt (conns : List (List Netbuf)) {k : Nat} (hk : k < newconn) :
    writtenOn k (trace newconn buf conns) = [] := by
  induction conns generalizing newconn buf with
  | nil => rfl
  | cons bufs conns ih =>
    rw [writtenOn_cons, if_neg (by omega), List.nil_append, ih (newconn + 1) _ (by omega)]

theorem writtenOn_trace (conns : List (List Netbuf)) {k : Nat} {bufs : List Netbuf}
    (hk : conns[k]? = some bufs) : writtenOn (newconn + k) (trace newconn buf conns) =
      (bufs.flatMap Netbuf.fragments).flatMap Fragment.payload := by
  induction conns generalizing newconn buf k with
  | nil => simp at hk
  | cons bs conns ih =>
    rw [writtenOn_cons]
    cases k with
    | zero =>
      cases hk
      rw [Nat.add_zero, if_pos rfl, writtenOn_of_lt (newconn + 1) _ conns (by omega),
        List.append_nil]
    | succ k =>
      rw [if_neg (by omega), List.nil_append, ← Nat.succ_add_eq_add_succ]
      exact ih (newconn + 1) _ hk

end Totals

/-- Whatever is accepted and received: with rounds enough for the longest netbuf,
the thread gets through; it has written back on each connection the bytes
received there, applied str2int once to each fragment in order, obtained
and deleted every netbuf once, and closed and deleted every netconn before the
next accept. -/
theorem tcpechoThread_balanced (conns : List (Option (List Netbuf))) :
    ∃ s, (∃ rounds, ∀ fuel, rounds ≤ fuel → tcpechoThread fuel conns init = some s) ∧
      (∀ (k : Nat) (bufs : List Netbuf), conns.reduceOption[k]? = some bufs →
        writtenOn k s.log = (bufs.flatMap Netbuf.fragments).flatMap Fragment.payload) ∧
      parsed s.log = (conns.reduceOption.flatten.flatMap Netbuf.fragments).map memory ∧
      (obtained s.log = List.range conns.reduceOption.flatten.length ∧
        deleted s.log = List.range conns.reduceOption.flatten.length ∧
        ∀ buf, deref s.netbufs buf = none) ∧
      (life s.log = (List.range conns.reduceOption.length).flatMap fun k =>
          [.accepted k, .closed k, .deleted k]) ∧
        ∀ newconn, deref s.netconns newconn = none := by
  obtain ⟨hp, ho, hd, hl⟩ := trace_totals 0 0 conns.reduceOption
  have hnone : ∀ {α : Type} (n i : Nat), deref (List.replicate n (none : Option α)) i = none := by
    intro α n i
    rw [deref, List.getElem?_replicate]
    split <;> rfl
  refine ⟨_, ⟨(conns.reduceOption.flatten.map fun b => b.next.length).sum + 1, fun fuel hfuel =>
    tcpechoThread_executes conns fun bufs hbufs b hb => ?_⟩, fun k bufs hk => ?_, ?_, ⟨?_, ?_, ?_⟩,
    ?_, ?_⟩
  · have hmem : b.next.length ∈ conns.reduceOption.flatten.map fun b => b.next.length :=
      List.mem_map.mpr ⟨b, List.mem_flatten.mpr ⟨bufs, hbufs, hb⟩, rfl⟩
    have hsum := List.single_le_sum (fun _ _ => Nat.zero_le _) _ hmem
    exact Nat.lt_of_lt_of_le (Nat.lt_succ_of_le hsum) hfuel
  · have hw := writtenOn_trace 0 0 conns.reduceOption hk
    rw [Nat.zero_add] at hw
    exact hw
  · exact hp
  · rw [List.range_eq_range']
    exact ho
  · rw [List.range_eq_range']
    exact hd
  · exact hnone _
  · rw [List.range_eq_range']
    exact hl
  · exact hnone _

end PopcornFirmware.FreeRTOS.ServerThread
