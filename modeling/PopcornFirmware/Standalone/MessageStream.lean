import PopcornFirmware.Standalone.ClientRuns

namespace PopcornFirmware.Standalone.MessageStream

open PopcornFirmware.Lib.CText PopcornFirmware.Lib.LinkedHeap PopcornFirmware.Lib.Ownership
open PopcornFirmware.Lib.Runs PopcornFirmware.Lwip.Pbufs PopcornFirmware.Lwip.PbufPool
open PopcornFirmware.Packet.Gen (httpPacketGen tcpEchoClient programEnv)
open PopcornFirmware.Standalone.EchoClient
open PopcornFirmware.Standalone.RawServer (Answer Globals)

/-- A positive serial comes only when nothing is pending, and pbuf_alloc then
gets memory that happens to hold the new packet, or none. -/
def Filled (s : State) : Label → Prop
  | .call i k => ∀ c ∈ target s i, ∀ a ∈ argument s c, ∀ text ∈ accepts a.2 k,
    a.2.pTx = none ∧ ∀ stale ∈ k.alloc, fit text.length stale = text
  | _ => True

instance : ∀ s l, Decidable (Filled s l)
  | s, .call i k =>
    haveI := fun text : Text => Option.decidableForallMem
      (p := fun stale => fit text.length stale = text) k.alloc
    haveI := fun a : Nat × Echoclient => Option.decidableForallMem
      (p := fun text => a.2.pTx = none ∧ ∀ stale ∈ k.alloc, fit text.length stale = text)
      (accepts a.2 k)
    haveI := fun c => Option.decidableForallMem
      (p := fun a : Nat × Echoclient => ∀ text ∈ accepts a.2 k,
        a.2.pTx = none ∧ ∀ stale ∈ k.alloc, fit text.length stale = text) (argument s c)
    Option.decidableForallMem
      (p := fun c => ∀ a ∈ argument s c, ∀ text ∈ accepts a.2 k,
        a.2.pTx = none ∧ ∀ stale ∈ k.alloc, fit text.length stale = text) (target s i)
  | _, .connect .. | _, .connected .. | _, .freed .. | _, .other .. =>
    inferInstanceAs (Decidable True)

/-- What has been written and what is pending make up the messages. -/
def Whole (c : Pcb) (es : Echoclient) : Prop :=
  ∃ ids, Sole c.mem es.pTx ids ∧ c.written ++ bytes c.mem ids = c.queued.flatten

def Prefix (c : Pcb) : Prop := c.written <+: c.queued.flatten

theorem Whole.isPrefix {c : Pcb} {es : Echoclient} (h : Whole c es) : Prefix c := by
  obtain ⟨ids, -, hstream⟩ := h
  exact ⟨_, hstream⟩

theorem prefix_fresh {c c' : Pcb} (hf : Fresh c) (hwritten : c'.written = c.written) :
    Prefix c' := by
  rw [Prefix, hwritten, hf.written]
  exact List.nil_prefix

theorem whole_opened {c c' : Pcb} {g : Globals} {id : Nat} {alloc : Option Text}
    {es : Echoclient} (hf : Fresh c) (hlive : c.live = true) (hg : Bounded g)
    (h : Opened (withEs c id) g id alloc c' es) :
    if Active c' then Whole c' es else Prefix c' := by
  cases h with
  | failed => exact (if_neg hf.not_active).mpr (prefix_fresh hf rfl)
  | @installed m w text state p rest halloc hsole hsame hstream =>
    have hwhole : w ++ bytes m rest = ((withEs c id).queued ++ [text]).flatten := by
      have hqueued : (withEs c id).queued = [] := hf.queued
      have hwritten : (withEs c id).written = [] := hf.written
      rw [hstream hg, hqueued, hwritten]
      simp
    exact (if_pos ⟨hlive, rfl⟩).mpr ⟨rest, hsole, hwhole⟩

theorem whole_called {c c' : Pcb} {es : Echoclient} {ids : List Nat} {k : Callback}
    {es' : Option Echoclient} (hact : Active c) (hwhole : Whole c es)
    (hsole : Sole c.mem es.pTx ids) (hout : Outcome c es ids k c' es')
    (hok : ∀ text ∈ accepts es k, es.pTx = none ∧ ∀ stale ∈ k.alloc, fit text.length stale = text) :
    if Active c' then ∃ e, es' = some e ∧ Whole c' e else Prefix c' := by
  obtain ⟨ids', hsole', hstream⟩ := hwhole
  obtain rfl := hsole'.chain.unique hsole.chain
  -- a new packet is queued when everything before it has been written
  have hdone : es.pTx = none → c.written = c.queued.flatten := by
    intro hp
    rw [hp] at hsole
    rw [← hstream, hsole.held.eq_nil]
    exact (List.append_nil _).symm
  cases hout with
  | closed => exact (if_neg (not_active_close _ _)).mpr ⟨_, hstream⟩
  | sent hk hacc hsole'' hrel hbytes =>
    exact (if_pos hact).mpr ⟨_, rfl, _, hsole'', hbytes.trans hstream⟩
  | lost hacc halloc hsame =>
    obtain ⟨hp, -⟩ := hok _ hacc
    refine (if_pos hact).mpr ⟨_, rfl, [], ⟨rfl, by simp⟩, ?_⟩
    exact (List.append_nil _).trans (hdone hp)
  | queued hacc halloc hsole'' hsame hbytes =>
    obtain ⟨hp, hfit⟩ := hok _ hacc
    refine (if_pos hact).mpr ⟨_, rfl, _, hsole'', ?_⟩
    rw [hbytes, hfit _ halloc, hdone hp]
    simp

/-- The invariant of the runs in which every new packet gets into its pbuf. -/
structure Streaming (s : State) : Prop where
  sound : Sound s
  bounded : Bounded s.globals
  whole : Owned Active Pcb.arg Whole s.heap s.pcbs
  idle : ∀ c ∈ s.pcbs, ¬ Active c → Prefix c

theorem streaming_step (s : State) (l : Label) (hi : Streaming s) (hok : Filled s l) :
    ∃ t, step s l = some t ∧ Streaming t := by
  obtain ⟨t, ht, heffect⟩ := step_effect hi.sound l
  have hkeep : Owned Active Pcb.arg Whole t.heap t.pcbs ∧ ∀ c ∈ t.pcbs, ¬ Active c → Prefix c := by
    refine keeps_effect hi.sound.fresh heffect hi.whole hi.idle (fun _ => List.nil_prefix) ?_ ?_ ?_
      ?_
    · intro c closeOk hf
      exact prefix_fresh hf rfl
    · intro i err malloc alloc answers closeOk c c' v es id _ _ hwaiting hf hopened
      exact whole_opened hf (waiting_spec hwaiting).2.1 hi.bounded hopened
    · rintro i k c id es ids c' es' rfl htarget hargument hwhole hsole hout
      exact whole_called (target_spec htarget).2 hwhole hsole hout
        (hok c htarget (id, es) hargument)
    · intro i c _ _ hactive hidle
      by_cases hact : Active c
      · obtain ⟨es, hwhole⟩ := hactive hact
        exact hwhole.isPrefix
      · exact hidle hact
  exact ⟨t, ht, sound_effect hi.sound heffect, bounded_effect hi.bounded heffect, hkeep.1, hkeep.2⟩

theorem streaming_init : Streaming init :=
  ⟨sound_init, bounded_init, Owned.nil, by simp [init]⟩

/-- What lwIP answers when everything fits, and when nothing does. -/
def roomy : Nat → Answer := fun _ => ⟨500, .ok⟩

def full : Nat → Answer := fun _ => ⟨0, .ok⟩

def reply (answers : Nat → Answer) (stale : Text) : Label :=
  .call 0 (.recv [lit "5"] .ok [] (some stale) answers true)

def opened : List Label :=
  [.connect .once true .ok, .connected 0 .ok (some .notConnected) (some []) full true]

def packet : Text := (httpPacketGen tcpEchoClient programEnv 5).getD []

/-- The first packet is sent on an acknowledgement, the pbuf for the second one
already holds it, and the peer closes. -/
def luckyReply : List Label :=
  opened ++ [.call 0 (.sent roomy), reply full packet, .call 0 (.recv [] .ok [] none full true),
    .call 0 (.poll roomy true), .call 0 (.poll roomy true)]

end PopcornFirmware.Standalone.MessageStream
