import PopcornFirmware.Lib.Trace
import PopcornFirmware.Standalone.ClientRuns

namespace PopcornFirmware.Standalone.EchoClient

open PopcornFirmware.Lib.CText PopcornFirmware.Lib.LinkedHeap PopcornFirmware.Lib.Ownership
open PopcornFirmware.Lib.Trace
open PopcornFirmware.Lwip.Pbufs PopcornFirmware.Lwip.PbufPool
open PopcornFirmware.Packet.Gen (httpPacketGen tcpEchoClient programEnv)
open PopcornFirmware.Standalone.RawServer (Answer ErrT Globals Sending sendLoop)

/-- The fields of struct echoclient that are read. -/
inductive Field where
  | state
  | pTx
  deriving DecidableEq

/-- A call of lwIP, the pcb given by its number and a pbuf by its identity in
the memory of its connection. -/
inductive LwipCall where
  | tcpNew
  | tcpConnect (i : Nat) (v : Connected)
  -- with what is returned
  | memMalloc (id : Option Nat)
  | memFree (id : Nat)
  | pbufAlloc (i length : Nat)
  | pbufTake (i p : Nat) (data : Text)
  | pbufRef (i p : Nat)
  | pbufFree (i : Nat) (p : Option Nat)
  | tcpArg (i id : Nat)
  -- with a callback of this file or NULL
  | tcpRecv (i : Nat) (installed : Bool)
  | tcpSent (i : Nat) (installed : Bool)
  | tcpPoll (i : Nat) (installed : Bool)
  | tcpRecved (i len : Nat)
  | tcpWrite (i : Nat) (data : Text)
  | tcpClose (i : Nat)
  | tcpAbort (i : Nat)
  deriving DecidableEq

/-- What the functions of the client do to the outside, and to the structures
that mem_malloc has returned. -/
inductive Event where
  | call (c : LwipCall)
  | read (id : Nat) (f : Field)
  | write (id : Nat) (f : Field)
  deriving DecidableEq

section Functions

/-- The loop of tcp_echoclient_send on the structure id. -/
def tracedSendLoop (i id : Nat) (answers : Nat → Answer) :
    Nat → Nat → Sending → Traced Event (Sending × Nat)
  | 0, _, _ => lift none
  | fuel + 1, n, s => do
    tell [.read id .pTx]
    match s.p with
    | none => pure (s, n)
    | some ptr =>
      let b ← lift (deref s.mem ptr)
      if b.len ≤ (answers n).sndbuf then
        tell [.call (.tcpWrite i b.payload)]
        match (answers n).write with
        | .ok =>
          tell [.write id .pTx]
          let m ← lift (pbufRef s.mem b.next)
          tell (b.next.toList.map fun q => .call (.pbufRef i q))
          let m ← lift (pbufFree m (some ptr))
          tell [.call (.pbufFree i (some ptr))]
          tracedSendLoop i id answers fuel (n + 1)
            ⟨m, b.next, s.written ++ b.payload, s.recved + b.len⟩
        | .mem =>
          tell [.write id .pTx]
          pure (s, n + 1)
        | .other => pure (s, n + 1)
      else pure (s, n)

/-- tcp_echoclient_send. -/
def tracedSend (i id : Nat) (answers : Nat → Answer) (c : Pcb) (es : Echoclient) :
    Traced Event (Pcb × Echoclient) := do
  let r ← tracedSendLoop i id answers (c.mem.length + 1) 0 ⟨c.mem, es.pTx, c.written, 0⟩
  pure ({ c with mem := r.1.mem, written := r.1.written }, { es with pTx := r.1.p })

/-- tcp_echoclient_connection_close, with the structure unless es is NULL. -/
def tracedClose (i : Nat) (id : Option Nat) (closeOk : Bool) (c : Pcb) : Traced Event Pcb := do
  tell [.call (.tcpRecv i false), .call (.tcpSent i false), .call (.tcpPoll i false)]
  tell (id.toList.map fun id => .call (.memFree id))
  tell [.call (.tcpClose i)]
  pure (echoclientConnectionClose closeOk c)

/-- The statements of the connected callbacks from pbuf_alloc to tcp_poll. -/
def tracedInstall (i id : Nat) (alloc : Option Text) (text : Text) (c : Pcb) :
    Traced Event (Pcb × Option Nat) := do
  tell [.call (.pbufAlloc i text.length), .write id .pTx, .read id .pTx]
  match allocMessage alloc text c with
  | (c, none) => pure (c, none)
  | (c, some p) =>
    tell [.read id .pTx, .call (.pbufTake i p text)]
    let m ← lift (pbufTake c.mem p text)
    tell [.call (.tcpArg i id), .call (.tcpRecv i true), .call (.tcpSent i true),
      .call (.tcpPoll i true)]
    pure ({ c with mem := m, arg := some id, installed := true }, some p)

/-- tcp_echoclient_connected. -/
def tracedOnce (i id : Nat) (alloc : Option Text) (g : Globals) (c : Pcb) :
    Traced Event (Pcb × Echoclient) := do
  tell [.write id .state]
  let r ← tracedInstall i id alloc (if g.flagErrRecvSerial then postRequest else g.postPacket) c
  pure (r.1, ⟨.connected, r.2⟩)

/-- tcp_echoclient_connected_sustained. -/
def tracedSustained (i id : Nat) (answers : Nat → Answer) (alloc : Option Text)
    (state : ClientState) (statusConnection : Bool) (c : Pcb) :
    Traced Event (Pcb × Echoclient × Bool) := do
  tell (if statusConnection then [] else [.write id .state])
  let r ← tracedInstall i id alloc postRequest c
  let es : Echoclient := ⟨if statusConnection then state else .connected, r.2⟩
  if r.2 = none then pure (r.1, es, statusConnection)
  else do
    let q ← tracedSend i id answers r.1 es
    pure (q.1, q.2, true)

def tracedConnectedCallback (i id : Nat) (v : Connected) (answers : Nat → Answer)
    (alloc : Option Text) (state : ClientState) (g : Globals) (statusConnection : Bool) (c : Pcb) :
    Traced Event (Pcb × Echoclient × Bool) :=
  match v with
  | .once => do
    let r ← tracedOnce i id alloc g c
    pure (r.1, r.2, statusConnection)
  | .sustained => tracedSustained i id answers alloc state statusConnection c

/-- The statements of tcp_echoclient_recv behind json_Packet_Gen. -/
def tracedReply (i id : Nat) (answers : Nat → Answer) (alloc : Option Text) (g : Globals)
    (c : Pcb) (es : Echoclient) : Traced Event (Pcb × Echoclient) := do
  tell [.call (.pbufAlloc i g.postPacket.length), .write id .pTx, .read id .pTx]
  match allocMessage alloc g.postPacket c with
  | (c, none) => pure (c, { es with pTx := none })
  | (c, some p) => tracedSend i id answers c { es with pTx := some p }

def tracedDrop (i : Nat) (g : Globals) (c : Pcb) (es : Echoclient) (p : Option Nat) :
    Traced Event Left := do
  tell [.call (.pbufFree i p)]
  let m ← lift (pbufFree c.mem p)
  pure ⟨{ c with mem := m }, some es, g⟩

/-- tcp_echoclient_recv. -/
def tracedRecv (i id : Nat) (answers : Nat → Answer) (after : Text) (alloc : Option Text)
    (closeOk : Bool) (g : Globals) (c : Pcb) (es : Echoclient) (err : ErrT) :
    Option Nat → Traced Event Left
  | none => do
    tell [.write id .state, .read id .pTx]
    let es : Echoclient := { es with state := .closing }
    if es.pTx = none then
      let c ← tracedClose i (some id) closeOk c
      pure ⟨c, none, g⟩
    else
      let r ← tracedSend i id answers c es
      pure ⟨r.1, some r.2, g⟩
  | some p =>
    if err ≠ .ok then tracedDrop i g c es (some p)
    else do
      tell [.read id .state]
      let b ← lift (deref c.mem p)
      tell [.call (.tcpRecved i b.totLen)]
      if es.state = .connected then
        let g ← lift (checkSerial g (b.payload ++ (after ++ [0])))
        if g.recvSerial.toInt ≤ 0 then tracedDrop i g c es (some p)
        else do
          let r ← tracedReply i id answers alloc g c es
          tracedDrop i g r.1 r.2 (some p)
      else tracedDrop i g c es (some p)

/-- tcp_echoclient_poll with an argument that is not NULL. -/
def tracedPoll (i id : Nat) (answers : Nat → Answer) (closeOk : Bool) (g : Globals) (c : Pcb)
    (es : Echoclient) : Traced Event Left := do
  tell [.read id .pTx]
  if es.pTx ≠ none then
    let r ← tracedSend i id answers c es
    pure ⟨r.1, some r.2, g⟩
  else do
    tell [.read id .state]
    if es.state = .closing then
      let c ← tracedClose i (some id) closeOk c
      pure ⟨c, none, g⟩
    else pure ⟨c, some es, g⟩

/-- tcp_echoclient_sent. -/
def tracedSent (i id : Nat) (answers : Nat → Answer) (g : Globals) (c : Pcb) (es : Echoclient) :
    Traced Event Left := do
  tell [.read id .pTx]
  if es.pTx ≠ none then
    let r ← tracedSend i id answers c es
    pure ⟨r.1, some r.2, g⟩
  else pure ⟨c, some es, g⟩

def tracedCallback (i id : Nat) (g : Globals) (c : Pcb) (es : Echoclient) :
    Callback → Traced Event Left
  | .recv payloads err after alloc answers closeOk =>
    let r := pbufAlloc c.mem payloads
    tracedRecv i id answers after alloc closeOk g { c with mem := r.1 } es err r.2
  | .sent answers => tracedSent i id answers g c es
  | .poll answers closeOk => tracedPoll i id answers closeOk g c es

end Functions

section Steps

def tracedConnected (s : State) (i : Nat) (c : Pcb) (v : Connected) (err : ErrT)
    (malloc : Option ClientState) (alloc : Option Text) (answers : Nat → Answer) (closeOk : Bool) :
    Traced Event State :=
  match err, malloc with
  | .ok, some state => do
    tell [.call (.memMalloc (some s.heap.length))]
    let r ← tracedConnectedCallback i s.heap.length v answers alloc state s.globals
      s.statusConnection { c with ess := c.ess ++ [s.heap.length] }
    pure { s with
      statusConnection := r.2.2
      heap := s.heap ++ [some r.2.1]
      pcbs := s.pcbs.set i r.1 }
  | err, _ => do
    tell (if err = .ok then [.call (.memMalloc none)] else [])
    let c ← tracedClose i none closeOk c
    pure { s with
      statusConnection := if v = .once then s.statusConnection else false
      pcbs := s.pcbs.set i c }

def tracedCall (s : State) (i : Nat) (c : Pcb) (k : Callback) : Traced Event State := do
  let a ← lift (argument s c)
  let r ← tracedCallback i a.1 s.globals c a.2 k
  let heap ← lift (put s.heap a.1 r.es)
  pure { s with globals := r.globals, heap := heap, pcbs := s.pcbs.set i r.pcb }

/-- The steps of the client with what they do on their way. -/
def traced (s : State) : Label → Traced Event State
  | .connect v new err => do
    if s.tcpFlag = true then pure s
    else do
      tell [.call .tcpNew]
      if new = false then pure s
      else do
        tell [.call (.tcpConnect s.pcbs.length v)]
        pure { s with
          tcpFlag := true
          pcbs := s.pcbs ++ [tcpNew (if err = .ok then some v else none)] }
  | .connected i err malloc alloc answers closeOk =>
    match waiting s i with
    | none => pure s
    | some (c, v) =>
      tracedConnected s i { c with onConnected := none } v err malloc alloc answers closeOk
  | .call i k =>
    match target s i with
    | none => pure s
    | some c =>
      match k, c.arg with
      | .poll .., none => do
        tell [.call (.tcpAbort i)]
        pure { s with pcbs := s.pcbs.set i { c with live := false } }
      | k, _ => tracedCall { s with tcpFlag := if IsRecv k then false else s.tcpFlag } i c k
  | .freed i => lift (step s (.freed i))
  | .other g serial => lift (step s (.other g serial))

end Steps

section Erase

variable (i id : Nat) (answers : Nat → Answer) (alloc : Option Text) (closeOk : Bool)
  (g : Globals) (c : Pcb) (es : Echoclient)

theorem erase_tracedSendLoop (fuel n : Nat) (s : Sending) :
    erase (tracedSendLoop i id answers fuel n s) = sendLoop answers fuel n s := by
  induction fuel generalizing n s with
  | zero => rfl
  | succ fuel ih =>
    rw [tracedSendLoop, sendLoop, erase_bind, erase_tell, Option.bind_some]
    cases s.p with
    | none => rfl
    | some ptr =>
      simp only [erase_bind, erase_lift]
      refine congrArg _ (funext fun b => ?_)
      split
      · cases (answers n).write with
        | ok => simp [ih]
        | mem | other => rfl
      · rfl

theorem erase_tracedSend :
    erase (tracedSend i id answers c es) = echoclientSend answers c es := by
  simp [tracedSend, echoclientSend, erase_tracedSendLoop, Option.map_eq_bind]

theorem erase_tracedInstall (text : Text) :
    erase (tracedInstall i id alloc text c) = installMessage alloc text c id := by
  rw [tracedInstall, installMessage, erase_bind, erase_tell, Option.bind_some]
  obtain ⟨c, p⟩ := allocMessage alloc text c
  cases p with
  | none => rfl
  | some p => simp [Option.map_eq_bind]

theorem erase_tracedConnectedCallback (v : Connected) (state : ClientState)
    (statusConnection : Bool) :
    erase (tracedConnectedCallback i id v answers alloc state g statusConnection c) =
      connectedCallback v answers alloc state g statusConnection c id := by
  cases v with
  | once =>
    simp [tracedConnectedCallback, tracedOnce, connectedCallback, echoclientConnected,
      erase_tracedInstall, Option.map_eq_bind]
  | sustained =>
    simp only [tracedConnectedCallback, tracedSustained, connectedCallback,
      echoclientConnectedSustained, erase_bind, erase_tell, erase_tracedInstall, Option.bind_some]
    refine congrArg _ (funext fun r => ?_)
    split
    · rfl
    · simp [erase_tracedSend, Option.map_eq_bind]

theorem erase_tracedReply :
    erase (tracedReply i id answers alloc g c es) = replyToSerial answers alloc g c es := by
  rw [tracedReply, replyToSerial, erase_bind, erase_tell, Option.bind_some]
  obtain ⟨c, p⟩ := allocMessage alloc g.postPacket c
  cases p with
  | none => rfl
  | some p => exact erase_tracedSend i id answers c _

theorem erase_tracedDrop (p : Option Nat) :
    erase (tracedDrop i g c es p) = dropSegment g c es p := by
  simp [tracedDrop, dropSegment, Option.map_eq_bind]

/-- With a segment that is there. -/
theorem erase_tracedRecv (after : Text) (err : ErrT) {p : Option Nat}
    (hp : ∀ j ∈ p, ∃ b, deref c.mem j = some b) :
    erase (tracedRecv i id answers after alloc closeOk g c es err p) =
      echoclientRecv answers after alloc closeOk g c es err p := by
  cases p with
  | none =>
    simp only [tracedRecv, echoclientRecv, erase_bind, erase_tell, Option.bind_some]
    split
    · rfl
    · simp [erase_tracedSend, Option.map_eq_bind]
  | some j =>
    obtain ⟨b, hb⟩ := hp j rfl
    simp only [tracedRecv, echoclientRecv]
    split
    · exact erase_tracedDrop i g c es (some j)
    · simp only [erase_bind, erase_tell, erase_lift, hb, Option.bind_some]
      split
      · rw [erase_bind, erase_lift]
        refine congrArg _ (funext fun g' => ?_)
        split
        · exact erase_tracedDrop i g' c es (some j)
        · simp only [erase_bind, erase_tracedReply, erase_tracedDrop]
      · exact erase_tracedDrop i g c es (some j)

theorem erase_tracedCallback (k : Callback) :
    erase (tracedCallback i id g c es k) = callback g c es k := by
  cases k with
  | recv payloads err after alloc answers closeOk =>
    refine erase_tracedRecv i id answers alloc closeOk g _ es after err fun j hj => ?_
    cases payloads with
    | nil => cases hj
    | cons text texts =>
      cases hj
      obtain ⟨b, hb, -⟩ := pbufAlloc_head c.mem text texts
      exact ⟨b, hb⟩
  | sent answers =>
    simp only [tracedCallback, callback, tracedSent, echoclientSent, erase_bind, erase_tell,
      Option.bind_some]
    split
    · simp [erase_tracedSend, Option.map_eq_bind]
    · rfl
  | poll answers closeOk =>
    simp only [tracedCallback, callback, tracedPoll, echoclientPoll, erase_bind, erase_tell,
      Option.bind_some]
    split
    · simp [erase_tracedSend, Option.map_eq_bind]
    · rw [erase_bind, erase_tell, Option.bind_some]
      split
      · rfl
      · rfl

/-- The steps are those of the client. -/
theorem erase_traced (s : State) (l : Label) : erase (traced s l) = step s l := by
  cases l with
  | connect v new err =>
    simp only [traced, step]
    by_cases hflag : s.tcpFlag = true
    · rw [if_pos hflag, if_pos (Or.inl hflag)]
      rfl
    · cases new with
      | false =>
        rw [if_neg hflag, if_pos (Or.inr rfl)]
        rfl
      | true =>
        have hopen : ¬ (s.tcpFlag = true ∨ true = false) := by simp [hflag]
        rw [if_neg hflag, if_neg hopen]
        rfl
  | connected i err malloc alloc answers closeOk =>
    simp only [traced, step]
    cases waiting s i with
    | none => rfl
    | some r =>
      cases err with
      | ok =>
        cases malloc with
        | none => rfl
        | some state =>
          simp [tracedConnected, connected, erase_tracedConnectedCallback, Option.map_eq_bind]
      | mem | other => cases malloc <;> rfl
  | call i k =>
    simp only [traced, step]
    cases target s i with
    | none => rfl
    | some c =>
      have hcall : ∀ u : State, erase (tracedCall u i c k) = call u i c k := by
        intro u
        simp [tracedCall, call, erase_tracedCallback, Option.map_eq_bind]
      cases k with
      | recv | sent => exact hcall _
      | poll answers closeOk =>
        cases harg : c.arg with
        | none =>
          simp only [harg]
          rfl
        | some id =>
          simp only [harg]
          exact hcall _
  | freed i => exact erase_lift _
  | other g serial => exact erase_lift _

end Erase

section Runs

variable {s t : State} {l : Label} {i : Nat} {vs : List Event}

theorem traced_call {c : Pcb} {id : Nat} (hc : target s i = some c) (harg : c.arg = some id)
    (k : Callback) : traced s (.call i k) =
      tracedCall { s with tcpFlag := if IsRecv k then false else s.tcpFlag } i c k := by
  simp only [traced, hc, harg]

/-- What a called callback does, told from its connection and structure. -/
theorem traced_call_eq_some {c : Pcb} {id : Nat} {es : Echoclient} {k : Callback}
    (hc : target s i = some c) (harg : c.arg = some id) (hes : deref s.heap id = some es) :
    (traced s (.call i k)).run = some (t, vs) ↔
      ∃ r, (tracedCallback i id s.globals c es k).run = some (r, vs) ∧
        t = { s with
          tcpFlag := if IsRecv k then false else s.tcpFlag
          globals := r.globals
          heap := write s.heap id r.es
          pcbs := s.pcbs.set i r.pcb } := by
  have hargument : ∀ flag, argument { s with tcpFlag := flag } c = some (id, es) := fun flag => by
    simp [argument, harg, hes]
  rw [traced_call hc harg, tracedCall]
  constructor
  · intro h
    obtain ⟨a, us, ws, hlift, hrest, rfl⟩ := bind_eq_some.mp h
    obtain ⟨ha, rfl⟩ := lift_eq_some.mp hlift
    cases (hargument _).symm.trans ha
    obtain ⟨r, xs, ys, hrun, hput, rfl⟩ := bind_eq_some.mp hrest
    obtain ⟨heap, us, ws, hlift', hpure, rfl⟩ := bind_eq_some.mp hput
    obtain ⟨hheap, rfl⟩ := lift_eq_some.mp hlift'
    cases hpure
    cases (put_eq hes r.es).symm.trans hheap
    exact ⟨r, by simpa using hrun, rfl⟩
  · rintro ⟨r, hrun, rfl⟩
    refine bind_eq_some.mpr ⟨_, [], vs, lift_eq_some.mpr ⟨hargument _, rfl⟩, ?_, rfl⟩
    refine bind_eq_some.mpr ⟨r, vs, [], hrun, ?_, by simp⟩
    exact bind_eq_some.mpr ⟨_, [], [], lift_eq_some.mpr ⟨put_eq hes r.es, rfl⟩, rfl, rfl⟩

theorem traced_effect (hs : Sound s) (h : (traced s l).run = some (t, vs)) : Effect s l t := by
  obtain ⟨u, hu, heffect⟩ := step_effect hs l
  have ht : step s l = some t := erase_traced s l ▸ erase_eq_some.mpr ⟨vs, h⟩
  obtain rfl := Option.some.inj (ht.symm.trans hu)
  exact heffect

end Runs

end PopcornFirmware.Standalone.EchoClient
