import PopcornFirmware.Standalone.EchoClient

namespace PopcornFirmware.Standalone.EchoClient

open PopcornFirmware.Lib.CText PopcornFirmware.Lib.LinkedHeap
open PopcornFirmware.Lwip.Pbufs PopcornFirmware.Lwip.PbufPool
open PopcornFirmware.Packet.Gen (httpPacketGen tcpEchoClient programEnv)
open PopcornFirmware.Packet.Http (httpPacketGen_eq)
open PopcornFirmware.Packet.Str2int
open PopcornFirmware.Standalone.RawServer (Answer ErrT Globals)

/-- The packet that is generated when a callback receives a positive serial. -/
def newPacket (payload after : Text) : Option Text :=
  ((str2int (payload ++ (after ++ [0]))).filter fun v => 0 < v.toInt).bind
    (httpPacketGen tcpEchoClient programEnv)

def accepts (es : Echoclient) : Callback → Option Text
  | .recv (payload :: _) .ok after _ _ _ =>
    if es.state = .connected then newPacket payload after else none
  | _ => none

/-- The answer that pbuf_alloc and tcp_close give. -/
def Callback.alloc : Callback → Option Text
  | .recv _ _ _ alloc _ _ => alloc
  | _ => none

def Callback.closeOk : Callback → Bool
  | .recv _ _ _ _ _ closeOk | .poll _ closeOk => closeOk
  | .sent _ => false

/-- The callback calls tcp_echoclient_connection_close. -/
def Closes (es : Echoclient) : Callback → Prop
  | .recv payloads .. => payloads = [] ∧ es.pTx = none
  | .poll .. => es.pTx = none ∧ es.state = .closing
  | .sent _ => False

/-- All that a callback can do to the connection: it is closed, or the pending
pbufs are sent as far as possible, or they are replaced by a new pbuf. -/
inductive Outcome (c : Pcb) (es : Echoclient) (ids : List Nat) (k : Callback) :
    Pcb → Option Echoclient → Prop
  | closed {m : Mem} (hk : Closes es k) (hsame : ∀ j, deref m j = deref c.mem j) :
    Outcome c es ids k (echoclientConnectionClose k.closeOk { c with mem := m }) none
  | sent {m : Mem} {w : Text} {state : ClientState} {p : Option Nat} {rest : List Nat}
    (hk : ¬ Closes es k) (hacc : accepts es k = none) (hsole : Sole m p rest)
    (hrel : Released c.mem m ids rest)
    (hstream : w ++ bytes m rest = c.written ++ bytes c.mem ids) :
    Outcome c es ids k { c with mem := m, written := w } (some ⟨state, p⟩)
  | lost {m : Mem} {text : Text} (hacc : accepts es k = some text) (halloc : k.alloc = none)
    (hsame : ∀ j, deref m j = deref c.mem j) :
    Outcome c es ids k { c with mem := m } (some { es with pTx := none })
  | queued {m : Mem} {w text stale : Text} {p : Option Nat} {rest : List Nat}
    (hacc : accepts es k = some text) (halloc : k.alloc = some stale) (hsole : Sole m p rest)
    (hsame : ∀ j ∉ rest, deref m j = deref c.mem j)
    (hstream : w ++ bytes m rest = c.written ++ fit text.length stale) :
    Outcome c es ids k { c with mem := m, written := w, queued := c.queued ++ [text] }
      (some { es with pTx := p })

/-- post_packet fits its array, and so a length of 16 bits. -/
def Bounded (g : Globals) : Prop := g.postPacket.length < 2 ^ 16

section Specs

variable {answers : Nat → Answer} {after : Text} {alloc : Option Text} {closeOk : Bool}
  {g : Globals} {c : Pcb} {es : Echoclient} {ids : List Nat} {k : Callback}

theorem packet_bounded {v : BitVec 32} {text : Text}
    (h : httpPacketGen tcpEchoClient programEnv v = some text) : text.length < 2 ^ 16 := by
  rw [httpPacketGen, Option.bind_eq_bind] at h
  obtain ⟨packet, -, h⟩ := Option.bind_eq_some_iff.mp h
  obtain ⟨header, -, h⟩ := Option.bind_eq_some_iff.mp h
  obtain ⟨hlt, rfl⟩ := sprintf_eq_some.mp h
  have hsize : tcpEchoClient.postPacketSize = 300 := rfl
  omega

theorem packet_isSome (v : BitVec 32) :
    ∃ text, httpPacketGen tcpEchoClient programEnv v = some text :=
  ⟨_, httpPacketGen_eq tcpEchoClient (by decide) (by decide) v⟩

theorem checkSerial_spec (g : Globals) (payload after : Text) :
    ∃ g', checkSerial g (payload ++ (after ++ [0])) = some g' ∧ (Bounded g → Bounded g') ∧
      if g'.recvSerial.toInt ≤ 0 then newPacket payload after = none
      else newPacket payload after = some g'.postPacket := by
  obtain ⟨v, hv⟩ := str2int_isSome payload after
  by_cases hneg : v.toInt ≤ 0
  · refine ⟨{ g with recvSerial := v, flagErrRecvSerial := true }, ?_, id, ?_⟩
    · rw [checkSerial, hv, Option.bind_some, if_pos hneg]
    · simp [newPacket, hv, Option.filter, hneg]
  · obtain ⟨text, htext⟩ := packet_isSome v
    refine ⟨{ g with recvSerial := v, flagErrRecvSerial := false, postPacket := text }, ?_,
      fun _ => packet_bounded htext, ?_⟩
    · rw [checkSerial, hv, Option.bind_some, if_neg hneg, htext, Option.map_some]
    · simp [newPacket, hv, Option.filter, hneg, not_le.mp hneg, htext]

theorem echoclientSend_spec (answers : Nat → Answer) (c : Pcb) (es : Echoclient)
    (hsole : Sole c.mem es.pTx ids) :
    ∃ m w p rest, echoclientSend answers c es =
        some ({ c with mem := m, written := w }, { es with pTx := p }) ∧
      Sole m p rest ∧ Released c.mem m ids rest ∧
      w ++ bytes m rest = c.written ++ bytes c.mem ids := by
  have hlen := hsole.chain.length_le
  obtain ⟨r, n, rest, hloop, -, -, hbytes, -, hrel⟩ :=
    RawServer.sendLoop_spec answers ids (c.mem.length + 1) 0 ⟨c.mem, es.pTx, c.written, 0⟩
      hsole.held (by omega)
  obtain ⟨hsole', hrel'⟩ := hrel hsole
  exact ⟨r.mem, r.written, r.p, rest, by rw [echoclientSend, hloop, Option.map_some], hsole',
    hrel', hbytes⟩

theorem replyToSerial_none : replyToSerial answers none g c es =
    some (c, { es with pTx := none }) := rfl

/-- The pbuf is sent as far as possible with the bytes that it has. -/
theorem replyToSerial_spec (answers : Nat → Answer) (stale : Text) (g : Globals) (c : Pcb)
    (es : Echoclient) :
    ∃ m w p rest, replyToSerial answers (some stale) g c es =
        some ({ c with mem := m, written := w, queued := c.queued ++ [g.postPacket] },
          { es with pTx := p }) ∧
      Sole m p rest ∧ (∀ k ∈ rest, c.mem.length ≤ k) ∧ (∀ k ∉ rest, deref m k = deref c.mem k) ∧
      w ++ bytes m rest = c.written ++ fit g.postPacket.length stale := by
  obtain ⟨ids, hhead, hsole, hbytes, hge, hsame⟩ :=
    pbufAllocPool_spec c.mem g.postPacket.length stale
  let c₁ : Pcb := { c with
    mem := (pbufAllocPool c.mem g.postPacket.length (some stale)).1
    queued := c.queued ++ [g.postPacket] }
  obtain ⟨m, w, p, rest, hsend, hsole', hrel, hstream⟩ :=
    echoclientSend_spec answers c₁ { es with pTx := some c.mem.length } hsole
  refine ⟨m, w, p, rest, ?_, hsole', fun k hk => hge k (hrel.subset hk), fun k hk => ?_, ?_⟩
  · simp only [replyToSerial, allocMessage, hhead]
    exact hsend
  · rw [hrel.cells]
    by_cases hin : k ∈ ids
    · rw [if_pos ⟨hin, hk⟩, deref_of_le (hge k hin)]
    · rw [if_neg (fun h => hin h.1)]
      exact hsame k hin
  · rw [hstream]
    exact congrArg (c.written ++ ·) hbytes

/-- Freeing the segment undoes its arrival; what has been queued meanwhile
stays. -/
theorem free_segment (m : Mem) (ts : List Text) {m' : Mem} {rest : List Nat}
    (hge : ∀ k ∈ rest, (pbufAlloc m ts).1.length ≤ k)
    (hsame : ∀ k ∉ rest, deref m' k = deref (pbufAlloc m ts).1 k) :
    ∃ m'', pbufFree m' (pbufAlloc m ts).2 = some m'' ∧ (∀ k ∈ rest, deref m'' k = deref m' k) ∧
      ∀ k ∉ rest, deref m'' k = deref m k := by
  obtain ⟨hsole, hseg, hold⟩ := pbufAlloc_fresh m ts
  have hout : ∀ k ∈ List.range' m.length ts.length, k ∉ rest := by
    intro k hk hrest
    obtain ⟨b, hb⟩ := hsole.chain.live hk
    exact absurd (deref_lt hb) (by have := hge k hrest; omega)
  have hthere : Sole m' (pbufAlloc m ts).2 (List.range' m.length ts.length) :=
    hsole.of_same fun k hk => hsame k (hout k hk)
  obtain ⟨m'', hfree, hrel⟩ := pbufFree_sole hthere
  refine ⟨m'', hfree, fun k hk => hrel.kept (Or.inl fun hin => hout k hin hk), fun k hk => ?_⟩
  by_cases hin : k ∈ List.range' m.length ts.length
  · rw [hrel.cells, if_pos ⟨hin, by simp⟩, deref_of_le (hseg k hin)]
  · rw [hrel.kept (Or.inl hin), hsame k hk, hold k hin]

theorem free_arrived (m : Mem) (ts : List Text) :
    ∃ m', pbufFree (pbufAlloc m ts).1 (pbufAlloc m ts).2 = some m' ∧
      ∀ k, deref m' k = deref m k := by
  have hnil : ∀ k ∈ ([] : List Nat), (pbufAlloc m ts).1.length ≤ k := by simp
  obtain ⟨m', hfree, -, hsame⟩ := free_segment m ts hnil fun _ _ => rfl
  exact ⟨m', hfree, fun k => hsame k (by simp)⟩

theorem send_outcome (answers : Nat → Answer) (g : Globals) (state : ClientState)
    (hsole : Sole c.mem es.pTx ids) (hk : ¬ Closes es k) (hacc : accepts es k = none) :
    ∃ r, ((echoclientSend answers c { es with state := state }).map fun r =>
        (⟨r.1, some r.2, g⟩ : Left)) = some r ∧
      Outcome c es ids k r.pcb r.es ∧ r.globals = g := by
  obtain ⟨m, w, p, rest, hsend, hsole', hrel, hstream⟩ :=
    echoclientSend_spec answers c { es with state := state } hsole
  exact ⟨_, by rw [hsend, Option.map_some], .sent hk hacc hsole' hrel hstream, rfl⟩

theorem idle_outcome (hsole : Sole c.mem es.pTx ids) (hk : ¬ Closes es k)
    (hacc : accepts es k = none) {m : Mem} (hsame : ∀ j, deref m j = deref c.mem j) :
    Outcome c es ids k { c with mem := m } (some es) :=
  .sent hk hacc (hsole.of_same fun j _ => hsame j)
    ⟨fun _ h => h, fun j => by simp [hsame j]⟩ (by rw [bytes_of_same fun j _ => hsame j])

theorem fin_outcome (answers : Nat → Answer) (after : Text) (alloc : Option Text)
    (closeOk : Bool) (g : Globals) (err : ErrT) (hsole : Sole c.mem es.pTx ids) :
    ∃ r, callback g c es (.recv [] err after alloc answers closeOk) = some r ∧
      Outcome c es ids (.recv [] err after alloc answers closeOk) r.pcb r.es ∧ r.globals = g := by
  have hmem : pbufAlloc c.mem [] = (c.mem, none) := by simp [pbufAlloc, Lwip.Pbufs.segment]
  simp only [callback, hmem, echoclientRecv]
  by_cases hp : es.pTx = none
  · rw [if_pos hp]
    exact ⟨_, rfl, .closed (m := c.mem) ⟨rfl, hp⟩ fun _ => rfl, rfl⟩
  · rw [if_neg hp]
    exact send_outcome answers g .closing hsole (fun h => hp h.2) rfl

section Data

variable (answers : Nat → Answer) (after : Text) (alloc : Option Text) (closeOk : Bool)
  (g : Globals) (text : Text) (texts : List Text) {err : ErrT}

/-- The segment is freed, and nothing else happens. -/
theorem drop_outcome (hsole : Sole c.mem es.pTx ids)
    (hacc : accepts es (.recv (text :: texts) err after alloc answers closeOk) = none) :
    ∃ r, dropSegment g { c with mem := (pbufAlloc c.mem (text :: texts)).1 } es
        (pbufAlloc c.mem (text :: texts)).2 = some r ∧
      Outcome c es ids (.recv (text :: texts) err after alloc answers closeOk) r.pcb r.es ∧
      r.globals = g := by
  obtain ⟨m, hfree, hsame⟩ := free_arrived c.mem (text :: texts)
  exact ⟨_, by rw [dropSegment, hfree, Option.map_some],
    idle_outcome hsole (fun h => by cases h.1) hacc hsame, rfl⟩

/-- A positive serial replaces what is pending. -/
theorem reply_outcome (c : Pcb) (ids : List Nat)
    (hacc : accepts es (.recv (text :: texts) err after alloc answers closeOk) =
      some g.postPacket) :
    ∃ r, ((replyToSerial answers alloc g
        { c with mem := (pbufAlloc c.mem (text :: texts)).1 } es).bind fun r =>
          dropSegment g r.1 r.2 (pbufAlloc c.mem (text :: texts)).2) = some r ∧
      Outcome c es ids (.recv (text :: texts) err after alloc answers closeOk) r.pcb r.es ∧
      r.globals = g := by
  cases alloc with
  | none =>
    obtain ⟨m, hfree, hsame⟩ := free_arrived c.mem (text :: texts)
    refine ⟨⟨{ c with mem := m }, some { es with pTx := none }, g⟩, ?_,
      .lost hacc rfl hsame, rfl⟩
    rw [replyToSerial_none, Option.bind_some, dropSegment, hfree, Option.map_some]
  | some stale =>
    obtain ⟨m, w, p, rest, hreply, hsole, hge, hkeep, hstream⟩ := replyToSerial_spec answers stale g
      { c with mem := (pbufAlloc c.mem (text :: texts)).1 } es
    obtain ⟨m', hfree, hrest, hsame⟩ := free_segment c.mem (text :: texts) hge hkeep
    refine ⟨⟨{ c with mem := m', written := w, queued := c.queued ++ [g.postPacket] },
      some { es with pTx := p }, g⟩, ?_,
      .queued hacc rfl (hsole.of_same hrest) hsame ?_, rfl⟩
    · rw [hreply, Option.bind_some, dropSegment, hfree, Option.map_some]
    · rw [bytes_of_same hrest, hstream]

theorem data_outcome (hsole : Sole c.mem es.pTx ids) :
    ∃ r, callback g c es (.recv (text :: texts) err after alloc answers closeOk) = some r ∧
      Outcome c es ids (.recv (text :: texts) err after alloc answers closeOk) r.pcb r.es ∧
      (Bounded g → Bounded r.globals) := by
  have hhead : (pbufAlloc c.mem (text :: texts)).2 = some c.mem.length := rfl
  have hdrop : ∀ g', accepts es (.recv (text :: texts) err after alloc answers closeOk) = none →
      (Bounded g → Bounded g') →
      ∃ r, dropSegment g' { c with mem := (pbufAlloc c.mem (text :: texts)).1 } es
          (some c.mem.length) = some r ∧
        Outcome c es ids (.recv (text :: texts) err after alloc answers closeOk) r.pcb r.es ∧
        (Bounded g → Bounded r.globals) := by
    intro g' hacc hbound
    obtain ⟨r, hr, hout, hg⟩ := drop_outcome answers after alloc closeOk g' text texts hsole hacc
    exact ⟨r, hr, hout, hg ▸ hbound⟩
  simp only [callback, hhead, echoclientRecv]
  by_cases herr : err = .ok
  · subst herr
    rw [if_neg (by simp)]
    by_cases hstate : es.state = .connected
    · obtain ⟨b, hb, rfl⟩ := pbufAlloc_head c.mem text texts
      obtain ⟨g', hcheck, hbound, hnew⟩ := checkSerial_spec g b.payload after
      rw [if_pos hstate, hb, Option.bind_some, hcheck, Option.bind_some]
      by_cases hneg : g'.recvSerial.toInt ≤ 0
      · rw [if_pos hneg] at hnew ⊢
        exact hdrop g' (by simp [accepts, hstate, hnew]) hbound
      · rw [if_neg hneg] at hnew ⊢
        have hacc : accepts es (.recv (b.payload :: texts) .ok after alloc answers closeOk) =
            some g'.postPacket := by
          simp [accepts, hstate, hnew]
        obtain ⟨r, hr, hout, hg⟩ :=
          reply_outcome answers after alloc closeOk g' b.payload texts c ids hacc
        exact ⟨r, hr, hout, hg ▸ hbound⟩
    · rw [if_neg hstate]
      exact hdrop g (by simp [accepts, hstate]) id
  · rw [if_pos herr]
    refine hdrop g ?_ id
    cases err with
    | ok => exact absurd rfl herr
    | mem | other => rfl

end Data

/-- Every callback returns, whatever is answered, when the pending pbufs of the
connection are its own. -/
theorem callback_spec (g : Globals) (hsole : Sole c.mem es.pTx ids) (k : Callback) :
    ∃ r, callback g c es k = some r ∧ Outcome c es ids k r.pcb r.es ∧
      (Bounded g → Bounded r.globals) := by
  cases k with
  | recv payloads err after alloc answers closeOk =>
    cases payloads with
    | nil =>
      obtain ⟨r, hr, hout, hg⟩ := fin_outcome answers after alloc closeOk g err hsole
      exact ⟨r, hr, hout, hg ▸ id⟩
    | cons text texts => exact data_outcome answers after alloc closeOk g text texts hsole
  | sent answers =>
    simp only [callback, echoclientSent]
    by_cases hp : es.pTx = none
    · rw [if_neg (not_not_intro hp)]
      exact ⟨_, rfl, idle_outcome (m := c.mem) hsole id rfl fun _ => rfl, id⟩
    · rw [if_pos hp]
      obtain ⟨r, hr, hout, hg⟩ :=
        send_outcome (k := .sent answers) answers g es.state hsole id rfl
      exact ⟨r, hr, hout, hg ▸ id⟩
  | poll answers closeOk =>
    simp only [callback, echoclientPoll]
    by_cases hp : es.pTx = none
    · rw [if_neg (not_not_intro hp)]
      by_cases hstate : es.state = .closing
      · rw [if_pos hstate]
        exact ⟨_, rfl, .closed (m := c.mem) ⟨hp, hstate⟩ fun _ => rfl, id⟩
      · rw [if_neg hstate]
        exact ⟨_, rfl, idle_outcome (m := c.mem) (k := .poll answers closeOk) hsole
          (fun h => hstate h.2) rfl fun _ => rfl, id⟩
    · rw [if_pos hp]
      obtain ⟨r, hr, hout, hg⟩ := send_outcome (k := .poll answers closeOk) answers g es.state
        hsole (fun h => hp h.1) rfl
      exact ⟨r, hr, hout, hg ▸ id⟩

end Specs

section Connect

/-- What a connected callback with a new structure does: it is left alone when
there is no pbuf for the message, or the callbacks are installed. -/
inductive Opened (c : Pcb) (g : Globals) (id : Nat) (alloc : Option Text) :
    Pcb → Echoclient → Prop
  | failed {state : ClientState} (halloc : alloc = none) : Opened c g id alloc c ⟨state, none⟩
  | installed {m : Mem} {w text : Text} {state : ClientState} {p : Option Nat} {rest : List Nat}
    (halloc : alloc ≠ none) (hsole : Sole m p rest) (hsame : ∀ j ∉ rest, deref m j = deref c.mem j)
    (hstream : Bounded g → w ++ bytes m rest = c.written ++ text) :
    Opened c g id alloc
      { c with
        mem := m, written := w, queued := c.queued ++ [text], arg := some id, installed := true }
      ⟨state, p⟩

variable (answers : Nat → Answer) (alloc : Option Text) (g : Globals) (c : Pcb) (id : Nat)

theorem installMessage_spec (stale text : Text) :
    ∃ m ids, installMessage (some stale) text c id =
        some ({ c with
          mem := m, queued := c.queued ++ [text], arg := some id, installed := true },
          some c.mem.length) ∧
      Sole m (some c.mem.length) ids ∧ (∀ k ∈ ids, c.mem.length ≤ k) ∧
      (∀ k ∉ ids, deref m k = deref c.mem k) ∧ (text.length < 2 ^ 16 → bytes m ids = text) := by
  obtain ⟨m, ids, htake, hsole, hge, hsame, hbytes⟩ := pbufTake_spec c.mem text stale
  obtain ⟨-, hhead, -⟩ := pbufAllocPool_spec c.mem text.length stale
  refine ⟨m, ids, ?_, hsole, hge, hsame, hbytes⟩
  simp only [installMessage, allocMessage, hhead, htake, Option.map_some]
  rfl

theorem postRequest_length : postRequest.length < 2 ^ 16 := by decide

theorem echoclientConnected_spec :
    ∃ c' es, echoclientConnected alloc g c id = some (c', es) ∧ Opened c g id alloc c' es := by
  cases alloc with
  | none => exact ⟨_, _, rfl, .failed rfl⟩
  | some stale =>
    let text := if g.flagErrRecvSerial then postRequest else g.postPacket
    obtain ⟨m, ids, hinstall, hsole, -, hsame, hbytes⟩ := installMessage_spec c id stale text
    refine ⟨_, _, by rw [echoclientConnected, hinstall, Option.map_some],
      .installed (by simp) hsole hsame fun hbound => ?_⟩
    have hlen : text.length < 2 ^ 16 := by
      simp only [text]
      split
      · exact postRequest_length
      · exact hbound
    rw [hbytes hlen]

theorem echoclientConnectedSustained_spec (state : ClientState) (statusConnection : Bool) :
    ∃ c' es status, echoclientConnectedSustained answers alloc state statusConnection c id =
      some (c', es, status) ∧ Opened c g id alloc c' es := by
  cases alloc with
  | none => exact ⟨_, _, _, rfl, .failed rfl⟩
  | some stale =>
    obtain ⟨m, ids, hinstall, hsole, hge, hsame, hbytes⟩ :=
      installMessage_spec c id stale postRequest
    let c₁ : Pcb := { c with
      mem := m, queued := c.queued ++ [postRequest], arg := some id, installed := true }
    let state' := if statusConnection then state else .connected
    obtain ⟨m', w, p, rest, hsend, hsole', hrel, hstream⟩ :=
      echoclientSend_spec answers c₁ ⟨state', some c.mem.length⟩ hsole
    refine ⟨{ c₁ with mem := m', written := w }, ⟨state', p⟩, true, ?_,
      .installed (by simp) hsole' (fun k hk => ?_) fun _ => ?_⟩
    · rw [echoclientConnectedSustained, hinstall, Option.bind_some, if_neg (by simp), hsend,
        Option.map_some]
    · rw [hrel.cells]
      by_cases hin : k ∈ ids
      · rw [if_pos ⟨hin, hk⟩, deref_of_le (hge k hin)]
      · rw [if_neg (fun h => hin h.1)]
        exact hsame k hin
    · rw [hstream, hbytes postRequest_length]

theorem connectedCallback_spec (v : Connected) (state : ClientState) (statusConnection : Bool) :
    ∃ c' es status,
      connectedCallback v answers alloc state g statusConnection c id = some (c', es, status) ∧
      Opened c g id alloc c' es := by
  cases v with
  | once =>
    obtain ⟨c', es, hrun, hopened⟩ := echoclientConnected_spec alloc g c id
    exact ⟨c', es, statusConnection, by rw [connectedCallback, hrun, Option.map_some], hopened⟩
  | sustained =>
    exact echoclientConnectedSustained_spec answers alloc g c id state statusConnection

end Connect

end PopcornFirmware.Standalone.EchoClient
