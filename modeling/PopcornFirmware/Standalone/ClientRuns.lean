import PopcornFirmware.Standalone.ClientCallbacks

namespace PopcornFirmware.Standalone.EchoClient

open PopcornFirmware.Lib.CText PopcornFirmware.Lib.LinkedHeap PopcornFirmware.Lib.Ownership
open PopcornFirmware.Lib.Pool PopcornFirmware.Lib.Runs
open PopcornFirmware.Lwip.Pbufs
open PopcornFirmware.Packet.Gen (httpPacketGen tcpEchoClient programEnv)
open PopcornFirmware.Standalone.RawServer (Answer ErrT Globals)

/-- A pcb whose connected callback has not been called. -/
structure Fresh (c : Pcb) : Prop where
  installed : c.installed = false
  mem : c.mem = []
  queued : c.queued = []
  written : c.written = []
  ess : c.ess = []

theorem Fresh.not_active {c : Pcb} (h : Fresh c) : ¬ Active c := by
  intro hact
  have hinst := hact.2
  rw [h.installed] at hinst
  cases hinst

theorem not_active_close (closeOk : Bool) (c : Pcb) :
    ¬ Active (echoclientConnectionClose closeOk c) := by
  simp [Active, echoclientConnectionClose]

theorem outcome_arg {c c' : Pcb} {es : Echoclient} {es' : Option Echoclient} {ids : List Nat}
    {k : Callback} (h : Outcome c es ids k c' es') (hact : Active c') : c'.arg = c.arg := by
  cases h with
  | closed => exact absurd hact (not_active_close _ _)
  | sent | lost | queued => rfl

/-- The pcb that a connected callback gets together with a new structure. -/
def withEs (c : Pcb) (id : Nat) : Pcb := { c with onConnected := none, ess := c.ess ++ [id] }

/-- The steps of the client: whatever is answered, each of them is one of these. -/
inductive Effect (s : State) : Label → State → Prop
  | nothing (l : Label) : Effect s l s
  | connect {v : Connected} {new : Bool} {err : ErrT} (hflag : s.tcpFlag = false) :
    Effect s (.connect v new err)
      { s with
        tcpFlag := true
        pcbs := s.pcbs ++ [tcpNew (if err = .ok then some v else none)] }
  | refused {i : Nat} {err : ErrT} {malloc : Option ClientState} {alloc : Option Text}
    {answers : Nat → Answer} {closeOk : Bool} {c : Pcb} (status : Bool) (hi : s.pcbs[i]? = some c)
    (hlive : c.live = true) (hwait : c.onConnected ≠ none) (hfail : ¬ (err = .ok ∧ malloc ≠ none)) :
    Effect s (.connected i err malloc alloc answers closeOk)
      { s with
        statusConnection := status
        pcbs := s.pcbs.set i (echoclientConnectionClose closeOk { c with onConnected := none }) }
  | connected {i : Nat} {err : ErrT} {malloc : Option ClientState} {alloc : Option Text}
    {answers : Nat → Answer} {closeOk : Bool} {c c' : Pcb} {es : Echoclient} (status : Bool)
    (hi : s.pcbs[i]? = some c) (hlive : c.live = true) (hwait : c.onConnected ≠ none)
    (hok : err = .ok ∧ malloc ≠ none)
    (hopened : Opened (withEs c s.heap.length) s.globals s.heap.length alloc c' es) :
    Effect s (.connected i err malloc alloc answers closeOk)
      { s with
        statusConnection := status
        heap := s.heap ++ [some es]
        pcbs := s.pcbs.set i c' }
  | called {i id : Nat} {k : Callback} {c c' : Pcb} {es : Echoclient} {ids : List Nat}
    {g : Globals} {es' : Option Echoclient} (hi : s.pcbs[i]? = some c) (hact : Active c)
    (harg : c.arg = some id) (hes : deref s.heap id = some es) (hsole : Sole c.mem es.pTx ids)
    (hout : Outcome c es ids k c' es') (hg : Bounded s.globals → Bounded g) :
    Effect s (.call i k)
      { s with
        tcpFlag := if IsRecv k then false else s.tcpFlag
        globals := g
        heap := write s.heap id es'
        pcbs := s.pcbs.set i c' }
  | freed {i : Nat} {c : Pcb} (hi : s.pcbs[i]? = some c) :
    Effect s (.freed i) { s with pcbs := s.pcbs.set i { c with live := false } }
  | other {g : Globals} {serial : BitVec 32} {text : Text}
    (htext : httpPacketGen tcpEchoClient programEnv serial = some text) :
    Effect s (.other g serial) { s with globals := { g with postPacket := text } }

/-- The structures that callbacks are called with are live and belong to one
connection each, and so do the pbufs they point to. -/
structure Sound (s : State) : Prop where
  owned : Owned Active Pcb.arg (fun c es => ∃ ids, Sole c.mem es.pTx ids) s.heap s.pcbs
  fresh : ∀ c ∈ s.pcbs, c.onConnected ≠ none → Fresh c

theorem sound_init : Sound init := ⟨Owned.nil, by simp [init]⟩

theorem waiting_spec {s : State} {i : Nat} {c : Pcb} {v : Connected}
    (h : waiting s i = some (c, v)) :
    s.pcbs[i]? = some c ∧ c.live = true ∧ c.onConnected ≠ none := by
  obtain ⟨d, hd, h⟩ := Option.bind_eq_some_iff.mp h
  split at h
  · rename_i hlive
    obtain ⟨v', hv', heq⟩ := Option.map_eq_some_iff.mp h
    cases heq
    exact ⟨hd, hlive, by simp [hv']⟩
  · cases h

theorem target_spec {s : State} {i : Nat} {c : Pcb} (h : target s i = some c) :
    s.pcbs[i]? = some c ∧ Active c := by
  have h' := Option.filter_eq_some_iff.mp h
  exact ⟨h'.1, by simpa using h'.2⟩

/-- A callback that is called is given a live structure, and returns. -/
theorem call_effect {s : State} {i : Nat} {c : Pcb} (k : Callback) (hs : Sound s)
    (hi : s.pcbs[i]? = some c) (hact : Active c) :
    c.arg ≠ none ∧ ∃ t, call { s with tcpFlag := if IsRecv k then false else s.tcpFlag } i c k =
      some t ∧ Effect s (.call i k) t := by
  obtain ⟨id, es, harg, hes, ids, hsole⟩ := hs.owned.live i c hi hact
  obtain ⟨r, hr, hout, hg⟩ := callback_spec s.globals hsole k
  refine ⟨by simp [harg], _, ?_, .called hi hact harg hes hsole hout hg⟩
  simp only [call, argument, harg, hes, hr, put_eq hes, Option.bind_some, Option.map_some]

theorem connected_effect {s : State} {i : Nat} {c : Pcb} {v : Connected}
    (h : waiting s i = some (c, v)) (err : ErrT) (malloc : Option ClientState)
    (alloc : Option Text) (answers : Nat → Answer) (closeOk : Bool) :
    ∃ t, connected s i { c with onConnected := none } v err malloc alloc answers closeOk = some t ∧
      Effect s (.connected i err malloc alloc answers closeOk) t := by
  obtain ⟨hi, hlive, hwait⟩ := waiting_spec h
  by_cases hok : err = .ok ∧ malloc ≠ none
  · obtain ⟨rfl, hmalloc⟩ := hok
    obtain ⟨state, rfl⟩ := Option.ne_none_iff_exists'.mp hmalloc
    obtain ⟨c', es, status, hrun, hopened⟩ := connectedCallback_spec answers alloc s.globals
      (withEs c s.heap.length) s.heap.length v state s.statusConnection
    refine ⟨_, ?_, .connected status hi hlive hwait ⟨rfl, hmalloc⟩ hopened⟩
    have hrun' : connectedCallback v answers alloc state s.globals s.statusConnection
        { c with onConnected := none, ess := c.ess ++ [s.heap.length] } s.heap.length =
          some (c', es, status) := hrun
    simp only [connected, hrun', Option.map_some]
  · refine ⟨_, ?_, .refused (if v = .once then s.statusConnection else false) hi hlive hwait hok⟩
    cases err with
    | ok =>
      cases malloc with
      | none => rfl
      | some state => exact absurd ⟨rfl, by simp⟩ hok
    | mem | other => rfl

/-- From a sound state every step can be made. -/
theorem step_effect {s : State} (hs : Sound s) (l : Label) :
    ∃ t, step s l = some t ∧ Effect s l t := by
  cases l with
  | connect v new err =>
    simp only [step]
    split
    · exact ⟨s, rfl, .nothing _⟩
    · rename_i hopen
      exact ⟨_, rfl, .connect (by simpa using fun h => hopen (Or.inl h))⟩
  | connected i err malloc alloc answers closeOk =>
    simp only [step]
    cases h : waiting s i with
    | none => exact ⟨s, rfl, .nothing _⟩
    | some r => exact connected_effect h err malloc alloc answers closeOk
  | call i k =>
    simp only [step]
    cases h : target s i with
    | none => exact ⟨s, rfl, .nothing _⟩
    | some c =>
      obtain ⟨hi, hact⟩ := target_spec h
      obtain ⟨harg, t, ht, heffect⟩ := call_effect k hs hi hact
      refine ⟨t, ?_, heffect⟩
      rw [← ht]
      obtain ⟨id, hid⟩ := Option.ne_none_iff_exists'.mp harg
      simp only [hid]
  | freed i =>
    simp only [step]
    cases h : s.pcbs[i]? with
    | none => exact ⟨s, rfl, .nothing _⟩
    | some c => exact ⟨_, rfl, .freed h⟩
  | other g serial =>
    obtain ⟨text, htext⟩ := packet_isSome serial
    exact ⟨_, by rw [step, htext, Option.map_some], .other htext⟩

section Keeps

variable {s t : State} {l : Label} {P : Pcb → Echoclient → Prop} {Q : Pcb → Prop}

/-- To show a property of every open connection and its structure, and one of
every other pcb, it is enough to look at the connection that the step is about. -/
theorem keeps_effect (hfresh : ∀ c ∈ s.pcbs, c.onConnected ≠ none → Fresh c) (h : Effect s l t)
    (howned : Owned Active Pcb.arg P s.heap s.pcbs) (hidle : ∀ c ∈ s.pcbs, ¬ Active c → Q c)
    (hnew : ∀ v, Q (tcpNew v))
    (hrefused : ∀ c closeOk, Fresh c →
      Q (echoclientConnectionClose closeOk { c with onConnected := none }))
    (hopened : ∀ i err malloc alloc answers closeOk c c' v es id,
      l = .connected i err malloc alloc answers closeOk → err = .ok ∧ malloc ≠ none →
      waiting s i = some (c, v) → Fresh c → Opened (withEs c id) s.globals id alloc c' es →
      if Active c' then P c' es else Q c')
    (hcalled : ∀ i k c id es ids c' es', l = .call i k → target s i = some c →
      argument s c = some (id, es) → P c es → Sole c.mem es.pTx ids → Outcome c es ids k c' es' →
      if Active c' then ∃ e, es' = some e ∧ P c' e else Q c')
    (hfreed : ∀ i c, l = .freed i → s.pcbs[i]? = some c → (Active c → ∃ es, P c es) →
      (¬ Active c → Q c) → Q { c with live := false }) :
    Owned Active Pcb.arg P t.heap t.pcbs ∧ ∀ c ∈ t.pcbs, ¬ Active c → Q c := by
  cases h with
  | nothing => exact ⟨howned, hidle⟩
  | connect hflag =>
    refine ⟨howned.push (by simp [Active, tcpNew]), fun c hc hact => ?_⟩
    obtain hc | hc := List.mem_append.mp hc
    · exact hidle c hc hact
    · exact List.mem_singleton.mp hc ▸ hnew _
  | refused status hi hlive hwait hfail =>
    have hf := hfresh _ (List.mem_of_getElem? hi) hwait
    exact ⟨howned.retire hi (not_active_close _ _),
      forall_mem_set hidle fun _ => hrefused _ _ hf⟩
  | @connected i err malloc alloc answers closeOk c c' es status hi hlive hwait hok hopen =>
    have hf := hfresh c (List.mem_of_getElem? hi) hwait
    obtain ⟨v, hv⟩ := Option.ne_none_iff_exists'.mp hwait
    have hwaiting : waiting s i = some (c, v) := by simp [waiting, hi, hlive, hv]
    have hnew' := hopened i err malloc alloc answers closeOk c c' v es s.heap.length rfl hok
      hwaiting hf hopen
    refine ⟨howned.alloc hi fun hact => ⟨?_, by rwa [if_pos hact] at hnew'⟩,
      forall_mem_set hidle fun hact => by rwa [if_neg hact] at hnew'⟩
    cases hopen with
    | failed => exact absurd hact hf.not_active
    | installed => rfl
  | @called i id k c c' es ids g es' hi hact harg hes hsole hout hg =>
    have hP : P c es := by
      obtain ⟨es₀, hes₀, hP⟩ := howned.cell hi hact harg
      rw [hes] at hes₀
      exact Option.some.inj hes₀ ▸ hP
    have htarget : target s i = some c := by simp [target, hi, Option.filter, hact]
    have hargument : argument s c = some (id, es) := by simp [argument, harg, hes]
    have hnew' := hcalled i k c id es ids c' es' rfl htarget hargument hP hsole hout
    refine ⟨howned.put hi hact harg fun hact' => ⟨?_, by rwa [if_pos hact'] at hnew'⟩,
      forall_mem_set hidle fun hact' => by rwa [if_neg hact'] at hnew'⟩
    cases hout with
    | closed => exact absurd hact'.2 (by simp [echoclientConnectionClose])
    | sent | lost | queued => exact harg
  | @freed i c hi =>
    refine ⟨howned.retire hi (by simp [Active]), forall_mem_set hidle fun _ => ?_⟩
    refine hfreed i c rfl hi (fun hact => ?_) fun hact => hidle c (List.mem_of_getElem? hi) hact
    obtain ⟨id, es, -, -, hP⟩ := howned.live i c hi hact
    exact ⟨es, hP⟩
  | other htext => exact ⟨howned, hidle⟩

end Keeps

theorem fresh_effect {s t : State} {l : Label} (hs : Sound s) (h : Effect s l t) :
    ∀ c ∈ t.pcbs, c.onConnected ≠ none → Fresh c := by
  cases h with
  | nothing | other => exact hs.fresh
  | connect hflag =>
    intro c hc hwait
    obtain hc | hc := List.mem_append.mp hc
    · exact hs.fresh c hc hwait
    · rw [List.mem_singleton.mp hc]
      exact ⟨rfl, rfl, rfl, rfl, rfl⟩
  | refused status hi => exact forall_mem_set hs.fresh fun hwait => absurd rfl hwait
  | connected status hi hlive hwait hok hopen =>
    refine forall_mem_set hs.fresh fun hwait => ?_
    cases hopen with
    | failed | installed => exact absurd rfl hwait
  | called hi hact harg hes hsole hout hg =>
    refine forall_mem_set hs.fresh fun hwait => ?_
    have hc := hs.fresh _ (List.mem_of_getElem? hi)
    cases hout with
    | closed | sent | lost | queued => exact absurd hact (hc hwait).not_active
  | freed hi =>
    refine forall_mem_set hs.fresh fun hwait => ?_
    have hc := hs.fresh _ (List.mem_of_getElem? hi) hwait
    exact ⟨hc.installed, hc.mem, hc.queued, hc.written, hc.ess⟩

theorem sound_effect {s t : State} {l : Label} (hs : Sound s) (h : Effect s l t) : Sound t := by
  refine ⟨(keeps_effect (Q := fun _ => True) hs.fresh h hs.owned (fun _ _ _ => trivial)
    (fun _ => trivial) (fun _ _ _ => trivial) ?_ ?_ fun _ _ _ _ _ _ => trivial).1,
    fresh_effect hs h⟩
  · intro i err malloc alloc answers closeOk c c' v es id _ _ hwaiting hf hopen
    cases hopen with
    | failed => exact (if_neg hf.not_active).mpr trivial
    | installed _ hsole => exact (if_pos ⟨(waiting_spec hwaiting).2.1, rfl⟩).mpr ⟨_, hsole⟩
  · intro i k c id es ids c' es' _ htarget _ _ hsole hout
    obtain ⟨-, hact⟩ := target_spec htarget
    cases hout with
    | closed => exact (if_neg (not_active_close _ _)).mpr trivial
    | sent _ _ hsole' => exact (if_pos hact).mpr ⟨_, rfl, _, hsole'⟩
    | lost => exact (if_pos hact).mpr ⟨_, rfl, [], rfl, by simp⟩
    | queued _ _ hsole' => exact (if_pos hact).mpr ⟨_, rfl, _, hsole'⟩

theorem bounded_effect {s t : State} {l : Label} (hb : Bounded s.globals) (h : Effect s l t) :
    Bounded t.globals := by
  cases h with
  | nothing | connect | refused | connected | freed => exact hb
  | called _ _ _ _ _ _ hg => exact hg hb
  | other htext => exact packet_bounded htext

theorem bounded_init : Bounded init.globals := by
  obtain ⟨text, htext⟩ := packet_isSome 0
  simp only [Bounded, init, htext, Option.getD_some]
  exact packet_bounded htext

theorem sound_step (s : State) (l : Label) (hs : Sound s) :
    ∃ t, step s l = some t ∧ Sound t := by
  obtain ⟨t, ht, heffect⟩ := step_effect hs l
  exact ⟨t, ht, sound_effect hs heffect⟩

end PopcornFirmware.Standalone.EchoClient
