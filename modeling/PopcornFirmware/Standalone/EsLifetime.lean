import PopcornFirmware.Standalone.ClientRuns

namespace PopcornFirmware.Standalone.EsLifetime

open PopcornFirmware.Lib.CText PopcornFirmware.Lib.LinkedHeap PopcornFirmware.Lib.Ownership
open PopcornFirmware.Lib.Runs PopcornFirmware.Lwip.Pbufs
open PopcornFirmware.Standalone.RawServer (Answer Conn ErrT Es Globals connected arrive
  dropSegment serverSend tcpServerRecv)

/-- A pcb of the server and the argument it has been given. -/
structure ServerPcb where
  -- neither closed by tcp_close nor freed by lwIP
  live : Bool
  -- set by tcp_arg
  arg : Option Nat
  -- the recv, err and poll callbacks are installed
  installed : Bool
  conn : Conn

structure Server where
  -- the structures in the memory of mem_malloc
  heap : Heap Es
  pcbs : List ServerPcb

/-- What lwIP calls of tcp_server.c, whether mem_malloc returns memory and
whether tcp_close succeeds. -/
inductive ServerLabel where
  | accept (malloc : Bool)
  | call (i : Nat) (l : RawServer.Label) (closeOk : Bool)

/-- The pcb after a callback: as it was, or closed by
tcp_server_connection_close. -/
def ServerPcb.after (p : ServerPcb) (c : Conn) (closeOk : Bool) : ServerPcb :=
  if c.es = none then ⟨!closeOk, none, false, c⟩ else { p with conn := c }

/-- A callback of tcp_server.c is called with the argument of its pcb. The
result is none when it uses a structure that is not there. -/
def serverCall (g : Globals) (s : Server) (i : Nat) (p : ServerPcb) (l : RawServer.Label)
    (closeOk : Bool) : Option (Server × Globals) :=
  match l, p.arg with
  -- tcp_server_error does nothing with a NULL argument, nor does tcp_server_poll
  -- but for tcp_abort
  | .error, none | .poll _, none =>
    some ({ s with pcbs := s.pcbs.set i { p with live := false } }, g)
  | .error, some id =>
    (put s.heap id none).map fun heap => (⟨heap, s.pcbs.set i { p with live := false }⟩, g)
  | .recv .., none | .sent _, none => none
  | l, some id =>
    (deref s.heap id).bind fun es =>
      (RawServer.step tcpServerRecv { p.conn with es := some es, globals := g } l).bind fun c =>
        (put s.heap id c.es).map fun heap =>
          (⟨heap, s.pcbs.set i (p.after c closeOk)⟩, c.globals)

def Installed (p : ServerPcb) : Prop := p.live = true ∧ p.installed = true

instance : DecidablePred Installed := fun _ => inferInstanceAs (Decidable (_ ∧ _))

def serverStep (g : Globals) (s : Server) : ServerLabel → Option (Server × Globals)
  -- lwIP aborts the connection when tcp_server_accept returns ERR_MEM
  | .accept false => some (s, g)
  | .accept true =>
    some (⟨s.heap ++ [some ⟨.accepted, none⟩],
      s.pcbs ++ [⟨true, some s.heap.length, true, connected⟩]⟩, g)
  | .call i l closeOk =>
    match (s.pcbs[i]?).filter fun p => Installed p with
    | none => some (s, g)
    | some p => serverCall g s i p l closeOk

/-- The server and the client, which share their globals. -/
structure State where
  server : Server
  client : EchoClient.State

inductive Label where
  | server (l : ServerLabel)
  | client (l : EchoClient.Label)

def init : State := ⟨⟨[], []⟩, EchoClient.init⟩

def step (s : State) : Label → Option State
  | .server l => (serverStep s.client.globals s.server l).map fun r =>
      ⟨r.1, { s.client with globals := r.2 }⟩
  | .client l => (EchoClient.step s.client l).map fun c => { s with client := c }

section Callbacks

variable {answers : Nat → Answer} {after : Text} {c : Conn} {es : Es} {err : ErrT}

/-- A callback that leaves a structure leaves it with pbufs that are there. -/
def Usable (c : Conn) : Prop := ∀ es, c.es = some es → ∃ ids, Held c.mem es.p ids

theorem usable_over (h : c.es = none) : Usable c := by
  intro es hes
  rw [h] at hes
  cases hes

theorem usable_of_es {ids : List Nat} (hes : c.es = some es) (hheld : Held c.mem es.p ids) :
    Usable c := by
  intro es' hes'
  rw [hes] at hes'
  cases hes'
  exact ⟨ids, hheld⟩

theorem usable_send (answers : Nat → Answer) (c : Conn) (es : Es) {ids : List Nat}
    (hheld : Held c.mem es.p ids) :
    ∃ t, serverSend answers c es = some t ∧ Usable t := by
  obtain ⟨t, p, rest, k, hsend, hes, hheld', -⟩ := RawServer.serverSend_spec answers c es hheld
  exact ⟨t, hsend, usable_of_es hes hheld'⟩

theorem usable_fin {ids : List Nat} (hheld : Held c.mem es.p ids) :
    ∃ t, tcpServerRecv answers after (arrive c []) es err none = some t ∧ Usable t := by
  rw [RawServer.arrive_nil]
  by_cases hp : es.p = none
  · exact ⟨_, if_pos hp, usable_over rfl⟩
  · obtain ⟨t, ht, husable⟩ := usable_send answers { c with fin := true, sent := true } es hheld
    exact ⟨t, (if_neg hp).trans ht, husable⟩

theorem usable_drop (c : Conn) (es : Es) (text : Text) (texts : List Text) (recved : Nat) :
    ∃ t, dropSegment (arrive c (text :: texts)) es (some c.mem.length) recved = some t ∧
      Usable t := by
  obtain ⟨hsole, -, -⟩ := pbufAlloc_fresh c.mem (text :: texts)
  obtain ⟨m, hfree, -⟩ := pbufFree_sole hsole
  have hfree' : pbufFree (arrive c (text :: texts)).mem (some c.mem.length) = some m := hfree
  have hdrop : dropSegment (arrive c (text :: texts)) es (some c.mem.length) recved =
      some { arrive c (text :: texts) with
        mem := m, es := some { es with p := none }, recved := c.recved + recved } := by
    rw [dropSegment, hfree', Option.map_some]
    rfl
  have hnil : Held m none [] := ⟨rfl, by simp⟩
  exact ⟨_, hdrop, usable_of_es rfl hnil⟩

/-- tcp_server_recv returns on every segment and in every state. -/
theorem usable_data {ids : List Nat} (hes : c.es = some es) (hheld : Held c.mem es.p ids)
    (text : Text) (texts : List Text) :
    ∃ t, tcpServerRecv answers after (arrive c (text :: texts)) es err (some c.mem.length) =
      some t ∧ Usable t := by
  obtain ⟨is, hnew, -, -, -⟩ := RawServer.arrive_fresh c text texts
  obtain ⟨b, hb⟩ := hnew.chain.live List.mem_cons_self
  obtain ⟨n, hdrop⟩ | hsend | ⟨herr, hstate, hp, -⟩ | ⟨-, hp, hchain⟩ :=
    RawServer.tcpServerRecv_segment answers after (arrive c (text :: texts)) es err c.mem.length
  · rw [hdrop]
    exact usable_drop c es text texts n
  · rw [hsend]
    exact usable_send answers _ _ hnew
  · obtain ⟨g, hg⟩ := RawServer.tcpServerRecv_store hb herr hstate hp
    exact ⟨_, hg, usable_of_es rfl hnew⟩
  · obtain ⟨h, hp⟩ := Option.ne_none_iff_exists'.mp hp
    obtain ⟨m, all, hm, hall, -⟩ := RawServer.pbufChain_arrive (hp ▸ hheld) text texts
    rw [hchain, hp, hm]
    exact ⟨_, rfl, usable_of_es hes (hp ▸ hall)⟩

theorem usable_step {ids : List Nat} (hes : c.es = some es) (hheld : Held c.mem es.p ids)
    (l : RawServer.Label) : ∃ t, RawServer.step tcpServerRecv c l = some t ∧ Usable t := by
  refine RawServer.step_total l hes (usable_of_es hes hheld) (fun _ _ => usable_over rfl)
    (fun _ answers => usable_send answers c es hheld) (fun _ => usable_over rfl) ?_
  rintro payloads err after answers rfl
  cases payloads with
  | nil => exact usable_fin hheld
  | cons text texts => exact usable_data hes hheld text texts

end Callbacks

/-- The structures that the callbacks of the server are called with are live
and belong to one connection each. -/
def SoundServer (s : Server) : Prop :=
  Owned Installed ServerPcb.arg (fun p es => ∃ ids, Held p.conn.mem es.p ids) s.heap s.pcbs

theorem serverCall_spec {g : Globals} {s : Server} {i : Nat} {p : ServerPcb} (hs : SoundServer s)
    (hi : s.pcbs[i]? = some p) (hinst : Installed p) (l : RawServer.Label) (closeOk : Bool) :
    ∃ t g', serverCall g s i p l closeOk = some (t, g') ∧ SoundServer t := by
  obtain ⟨id, es, harg, hes, ids, hheld⟩ := hs.live i p hi hinst
  have hrun : ∃ t g', ((deref s.heap id).bind fun es =>
      (RawServer.step tcpServerRecv { p.conn with es := some es, globals := g } l).bind fun c =>
        (put s.heap id c.es).map fun heap =>
          ((⟨heap, s.pcbs.set i (p.after c closeOk)⟩ : Server), c.globals)) = some (t, g') ∧
      SoundServer t := by
    obtain ⟨c, hc, husable⟩ := usable_step (c := { p.conn with es := some es, globals := g }) rfl
      hheld l
    refine ⟨⟨write s.heap id c.es, s.pcbs.set i (p.after c closeOk)⟩, c.globals,
      by rw [hes, Option.bind_some, hc, Option.bind_some, put_eq hes, Option.map_some],
      hs.put hi hinst harg fun hafter => ?_⟩
    cases hces : c.es with
    | none => exact absurd hafter.2 (by simp [ServerPcb.after, hces])
    | some es' =>
      obtain ⟨ids', hheld'⟩ := husable es' hces
      have hkeep : p.after c closeOk = { p with conn := c } := by simp [ServerPcb.after, hces]
      rw [hkeep]
      exact ⟨harg, es', rfl, ids', hheld'⟩
  cases l with
  | error =>
    refine ⟨⟨write s.heap id none, s.pcbs.set i { p with live := false }⟩, g, ?_,
      hs.put hi hinst harg fun hafter => absurd hafter.1 nofun⟩
    simp only [serverCall, harg, put_eq hes, Option.map_some]
  | recv | sent | poll =>
    simp only [serverCall, harg]
    exact hrun

theorem serverStep_spec (g : Globals) {s : Server} (hs : SoundServer s) (l : ServerLabel) :
    ∃ t g', serverStep g s l = some (t, g') ∧ SoundServer t := by
  cases l with
  | accept malloc =>
    cases malloc with
    | false => exact ⟨s, g, rfl, hs⟩
    | true =>
      refine ⟨_, g, rfl, hs.pushAlloc rfl ⟨[], rfl, ?_⟩⟩
      simp
  | call i l closeOk =>
    simp only [serverStep]
    cases h : (s.pcbs[i]?).filter fun p => Installed p with
    | none => exact ⟨s, g, rfl, hs⟩
    | some p =>
      obtain ⟨hi, hinst⟩ := Option.filter_eq_some_iff.mp h
      exact serverCall_spec hs hi (by simpa using hinst) l closeOk

structure Sound (s : State) : Prop where
  server : SoundServer s.server
  client : EchoClient.Sound s.client

theorem sound_step (s : State) (l : Label) (hs : Sound s) :
    ∃ t, step s l = some t ∧ Sound t := by
  cases l with
  | server l =>
    obtain ⟨t, g, ht, hserver⟩ := serverStep_spec s.client.globals hs.server l
    exact ⟨⟨t, { s.client with globals := g }⟩, by rw [step, ht, Option.map_some],
      hserver, hs.client.owned, hs.client.fresh⟩
  | client l =>
    obtain ⟨t, ht, hclient⟩ := EchoClient.sound_step s.client l hs.client
    exact ⟨{ s with client := t }, by rw [step, ht, Option.map_some], hs.server, hclient⟩

end PopcornFirmware.Standalone.EsLifetime
