import PopcornFirmware.Standalone.FieldWrites

namespace PopcornFirmware.Standalone.StaleHeap

open PopcornFirmware.Lib.CText PopcornFirmware.Lib.LinkedHeap PopcornFirmware.Lib.Ownership
open PopcornFirmware.Lib.Runs PopcornFirmware.Lib.Trace
open PopcornFirmware.Lwip.Pbufs PopcornFirmware.Lwip.PbufPool
open PopcornFirmware.Packet.Str2int
open PopcornFirmware.Standalone.EchoClient PopcornFirmware.Standalone.FieldWrites
open PopcornFirmware.Standalone.RawServer (Answer ErrT Globals)

/-- The same step but for what mem_malloc and pbuf_alloc return uninitialised:
the state of a new structure, the bytes of a new pbuf, and those behind the
bytes of a segment that the driver hands over. -/
inductive SameButStale : Label → Label → Prop
  | refl (l : Label) : SameButStale l l
  | connected {i : Nat} {err : ErrT} {malloc malloc' : Option ClientState}
    {alloc alloc' : Option Text} {answers : Nat → Answer} {closeOk : Bool}
    (hmalloc : malloc.isSome = malloc'.isSome) (halloc : alloc.isSome = alloc'.isSome) :
    SameButStale (.connected i err malloc alloc answers closeOk)
      (.connected i err malloc' alloc' answers closeOk)
  | recv {i : Nat} {payloads : List Text} {err : ErrT} {after after' : Text}
    {alloc alloc' : Option Text} {answers : Nat → Answer} {closeOk : Bool}
    (halloc : alloc.isSome = alloc'.isSome) :
    SameButStale (.call i (.recv payloads err after alloc answers closeOk))
      (.call i (.recv payloads err after' alloc' answers closeOk))

section Functions

variable {i id : Nat} {answers : Nat → Answer} {after after' : Text} {alloc alloc' : Option Text}
  {closeOk status : Bool} {g : Globals} {c : Pcb} {es : Echoclient} {text : Text}
  {v : Connected} {state : ClientState}

theorem tracedInstall_stale (halloc : alloc.isSome = alloc'.isSome)
    (hlen : text.length < 2 ^ 16) :
    tracedInstall i id alloc text c = tracedInstall i id alloc' text c := by
  cases alloc with
  | none =>
    cases alloc' with
    | none => rfl
    | some stale' => cases halloc
  | some stale =>
    cases alloc' with
    | none => cases halloc
    | some stale' =>
      have hhead : ∀ stale, (pbufAllocPool c.mem text.length (some stale)).2 = some c.mem.length :=
        fun _ => rfl
      simp only [tracedInstall, allocMessage, hhead, pbufTake_pool c.mem _ hlen]

theorem checkSerial_append {payload : Text} {n : BitVec 32} (h : str2int payload = some n)
    (g : Globals) (rest : Text) : checkSerial g (payload ++ rest) = checkSerial g payload := by
  obtain ⟨⟨r, stop⟩, hscan, rfl⟩ := Option.map_eq_some_iff.mp h
  rw [checkSerial, checkSerial, str2int, str2int, scan_append hscan, hscan, Option.map_some,
    Option.map_some]

theorem checkSerial_recvSerial {payload : Text} {n : BitVec 32} {g' : Globals}
    (h : str2int payload = some n) (hg : checkSerial g payload = some g') : g'.recvSerial = n := by
  rw [checkSerial, h, Option.bind_some] at hg
  split at hg
  · cases hg
    rfl
  · obtain ⟨text, -, heq⟩ := Option.map_eq_some_iff.mp hg
    cases heq
    rfl

theorem tracedRecv_determined (closeOk : Bool) {p : Nat} {b : Pbuf}
    (hb : deref c.mem p = some b)
    (halloc : alloc.isSome = alloc'.isSome)
    (hdet : es.state = .connected → ∃ n ∈ str2int b.payload, 0 < n.toInt → alloc = none) :
    tracedRecv i id answers after alloc closeOk g c es .ok (some p) =
      tracedRecv i id answers after' alloc' closeOk g c es .ok (some p) := by
  simp only [tracedRecv, ne_eq, not_true_eq_false, if_false]
  refine bind_congr_erase fun _ _ => bind_congr_erase fun d hd => bind_congr_erase fun _ _ => ?_
  rw [erase_lift, hb] at hd
  cases hd
  by_cases hstate : es.state = .connected
  · obtain ⟨n, hn, hreply⟩ := hdet hstate
    rw [if_pos hstate, if_pos hstate, checkSerial_append hn, checkSerial_append hn]
    refine bind_congr_erase fun g' hg' => ?_
    by_cases hneg : g'.recvSerial.toInt ≤ 0
    · rw [if_pos hneg, if_pos hneg]
    · have hserial := checkSerial_recvSerial hn (erase_lift _ ▸ hg')
      obtain rfl := hreply (by rw [← hserial]; omega)
      cases alloc' with
      | none => rfl
      | some stale => cases halloc
  · rw [if_neg hstate, if_neg hstate]

/-- A callback with a determined segment does the same whatever else is left in
memory. -/
theorem tracedCallback_stale {payloads : List Text} {err : ErrT}
    (halloc : alloc.isSome = alloc'.isSome)
    (hdet : Determined es (.recv payloads err after alloc answers closeOk)) :
    tracedCallback i id g c es (.recv payloads err after alloc answers closeOk) =
      tracedCallback i id g c es (.recv payloads err after' alloc' answers closeOk) := by
  cases payloads with
  | nil => rfl
  | cons payload payloads =>
    cases err with
    | mem | other => rfl
    | ok =>
      obtain ⟨b, hb, rfl⟩ := pbufAlloc_head c.mem payload payloads
      exact tracedRecv_determined closeOk hb halloc hdet

theorem opened_of_connectedCallback {c' : Pcb} {es' : Echoclient} {status' : Bool}
    (h : connectedCallback v answers alloc state g status c id = some (c', es', status')) :
    Opened c g id alloc c' es' := by
  obtain ⟨d, e, st, hrun, hopened⟩ :=
    connectedCallback_spec answers alloc g c id v state status
  cases h.symm.trans hrun
  exact hopened

/-- A connected callback does the same whatever is left in memory, and the
structure is the same where it becomes the argument of the pcb. -/
theorem tracedConnectedCallback_stale {c' : Pcb} {es' : Echoclient} {status' : Bool}
    {vs : List Event} (state' : ClientState) (hg : Bounded g)
    (halloc : alloc.isSome = alloc'.isSome)
    (hinit : v = .sustained → status = true → alloc = none)
    (h : (tracedConnectedCallback i id v answers alloc state g status c).run =
      some ((c', es', status'), vs)) :
    ∃ es'', (tracedConnectedCallback i id v answers alloc' state' g status c).run =
      some ((c', es'', status'), vs) ∧ (c' = c ∨ es'' = es') := by
  by_cases hstale : v = .sustained ∧ status = true
  · obtain ⟨rfl, rfl⟩ := hstale
    obtain rfl := hinit rfl rfl
    cases alloc' with
    | none =>
      cases h
      exact ⟨⟨state', none⟩, rfl, Or.inl rfl⟩
    | some stale => cases halloc
  · have heq : tracedConnectedCallback i id v answers alloc state g status c =
        tracedConnectedCallback i id v answers alloc' state' g status c := by
      cases v with
      | once =>
        have hlen :
            (if g.flagErrRecvSerial then postRequest else g.postPacket).length < 2 ^ 16 := by
          split
          · exact postRequest_length
          · exact hg
        simp only [tracedConnectedCallback, tracedOnce, tracedInstall_stale halloc hlen]
      | sustained =>
        obtain rfl : status = false := by simpa using hstale
        simp only [tracedConnectedCallback, tracedSustained,
          tracedInstall_stale halloc postRequest_length, Bool.false_eq_true, if_false]
    exact ⟨es', heq ▸ h, Or.inr rfl⟩

end Functions

section Steps

variable {s s' t u : State} {l l' : Label} {i : Nat} {vs : List Event}

/-- Two states of the client that differ in nothing that is used. -/
def Agree (s s' : State) : Prop :=
  ∃ heap', s' = { s with heap := heap' } ∧ SameCells Active Pcb.arg s.heap heap' s.pcbs

theorem connect_agree {v : Connected} {new : Bool} {err : ErrT} (ha : Agree s s')
    (h : (traced s (.connect v new err)).run = some (t, vs)) :
    ∃ t', (traced s' (.connect v new err)).run = some (t', vs) ∧ Agree t t' := by
  obtain ⟨heap', rfl, hcells⟩ := ha
  simp only [traced] at h ⊢
  by_cases hflag : s.tcpFlag = true
  · rw [if_pos hflag] at h ⊢
    cases h
    exact ⟨_, rfl, heap', rfl, hcells⟩
  · cases new with
    | false =>
      rw [if_neg hflag] at h ⊢
      cases h
      exact ⟨_, rfl, heap', rfl, hcells⟩
    | true =>
      rw [if_neg hflag] at h ⊢
      cases h
      exact ⟨_, rfl, heap', rfl, hcells.push (by simp [Active, tcpNew])⟩

/-- A connection that gets its structure. -/
theorem opened_agree {c : Pcb} {v : Connected} {state state' : ClientState}
    {alloc alloc' : Option Text} {answers : Nat → Answer} {closeOk : Bool} (hs : Sound s)
    (hb : Bounded s.globals) (ha : Agree s s') (hf : ¬ Active c)
    (halloc : alloc.isSome = alloc'.isSome)
    (hinit : v = .sustained → s.statusConnection = true → alloc = none)
    (h : (tracedConnected s i c v .ok (some state) alloc answers closeOk).run = some (t, vs)) :
    ∃ t', (tracedConnected s' i c v .ok (some state') alloc' answers closeOk).run =
      some (t', vs) ∧ Agree t t' := by
  obtain ⟨heap', rfl, hcells⟩ := ha
  obtain ⟨_, us, ws, htell, hrest, rfl⟩ := bind_eq_some.mp h
  cases htell
  obtain ⟨⟨c', es, status⟩, xs, ys, hrun, hpure, rfl⟩ := bind_eq_some.mp hrest
  cases hpure
  obtain ⟨es', hrun', hes⟩ := tracedConnectedCallback_stale state' hb halloc hinit hrun
  have hopened : Opened { c with ess := c.ess ++ [s.heap.length] } s.globals s.heap.length alloc
      c' es := by
    have herase := erase_eq_some.mpr ⟨xs, hrun⟩
    rw [erase_tracedConnectedCallback] at herase
    exact opened_of_connectedCallback herase
  refine ⟨_, ?_, heap' ++ [some es'], rfl, hcells.alloc hs.owned fun hact => ?_⟩
  · simp only [tracedConnected, hcells.length]
    exact bind_eq_some.mpr ⟨_, _, _, rfl, bind_eq_some.mpr ⟨_, _, _, hrun', rfl, rfl⟩, rfl⟩
  · obtain rfl | rfl := hes
    · exact absurd hact hf
    · cases hopened with
      | failed => exact absurd hact hf
      | installed => exact ⟨rfl, rfl⟩

theorem refused_agree {c : Pcb} {v : Connected} {err : ErrT} {malloc malloc' : Option ClientState}
    {alloc alloc' : Option Text} {answers : Nat → Answer} {closeOk : Bool} (ha : Agree s s')
    (hmalloc : malloc.isSome = malloc'.isSome) (hfail : ¬ (err = .ok ∧ malloc ≠ none))
    (h : (tracedConnected s i c v err malloc alloc answers closeOk).run = some (t, vs)) :
    ∃ t', (tracedConnected s' i c v err malloc' alloc' answers closeOk).run = some (t', vs) ∧
      Agree t t' := by
  obtain ⟨heap', rfl, hcells⟩ := ha
  have hclosed : SameCells Active Pcb.arg s.heap heap'
      (s.pcbs.set i (echoclientConnectionClose closeOk c)) :=
    hcells.set (not_active_close closeOk c)
  cases err with
  | ok =>
    cases malloc with
    | some state => exact absurd ⟨rfl, by simp⟩ hfail
    | none =>
      cases malloc' with
      | some state => cases hmalloc
      | none =>
        cases h
        exact ⟨_, rfl, heap', rfl, hclosed⟩
  | mem | other =>
    cases h
    exact ⟨_, rfl, heap', rfl, hclosed⟩

theorem connected_agree {err : ErrT} {malloc malloc' : Option ClientState}
    {alloc alloc' : Option Text} {answers : Nat → Answer} {closeOk : Bool}
    (hs : Sound s) (hb : Bounded s.globals) (ha : Agree s s')
    (hmalloc : malloc.isSome = malloc'.isSome) (halloc : alloc.isSome = alloc'.isSome)
    (hok : Initialised s (.connected i err malloc alloc answers closeOk))
    (h : (traced s (.connected i err malloc alloc answers closeOk)).run = some (t, vs)) :
    ∃ t', (traced s' (.connected i err malloc' alloc' answers closeOk)).run = some (t', vs) ∧
      Agree t t' := by
  have hwaiting : waiting s' i = waiting s i := by
    obtain ⟨heap', rfl, -⟩ := ha
    rfl
  simp only [traced, hwaiting] at h ⊢
  cases hw : waiting s i with
  | none =>
    rw [hw] at h
    cases h
    exact ⟨_, rfl, ha⟩
  | some r =>
    obtain ⟨c, v⟩ := r
    rw [hw] at h
    by_cases hfail : err = .ok ∧ malloc ≠ none
    · obtain ⟨rfl, hne⟩ := hfail
      obtain ⟨state, rfl⟩ := Option.ne_none_iff_exists'.mp hne
      cases malloc' with
      | none => cases hmalloc
      | some state' =>
        obtain ⟨hi, -, hwait⟩ := waiting_spec hw
        have hf := hs.fresh c (List.mem_of_getElem? hi) hwait
        exact opened_agree hs hb ha hf.not_active halloc (hok (c, v) hw) h
    · exact refused_agree ha hmalloc hfail h

/-- Two callbacks of an open connection that do the same with its structure. -/
theorem call_agree {k k' : Callback} (hs : Sound s) (ha : Agree s s') (hrecv : IsRecv k ↔ IsRecv k')
    (hsame : ∀ c ∈ target s i, ∀ a ∈ argument s c, ∀ g,
      tracedCallback i a.1 g c a.2 k = tracedCallback i a.1 g c a.2 k')
    (h : (traced s (.call i k)).run = some (t, vs)) :
    ∃ t', (traced s' (.call i k')).run = some (t', vs) ∧ Agree t t' := by
  obtain ⟨heap', rfl, hcells⟩ := ha
  have htarget : target { s with heap := heap' } i = target s i := rfl
  cases hc : target s i with
  | none =>
    simp only [traced, htarget, hc] at h ⊢
    cases h
    exact ⟨_, rfl, heap', rfl, hcells⟩
  | some c =>
    obtain ⟨hi, hact⟩ := target_spec hc
    obtain ⟨id, es, harg, hes, ids, hsole⟩ := hs.owned.live i c hi hact
    have hes' : deref heap' id = some es :=
      (hcells.cells c (List.mem_of_getElem? hi) hact id harg).trans hes
    obtain ⟨r, hrun, rfl⟩ := (traced_call_eq_some hc harg hes).mp h
    have hrun' : (tracedCallback i id s.globals c es k').run = some (r, vs) := by
      rw [← hsame c hc (id, es) (by simp [argument, harg, hes]), hrun]
    refine ⟨_, (traced_call_eq_some (htarget.trans hc) harg hes').mpr ⟨r, hrun', rfl⟩,
      write heap' id r.es, by simp only [hrecv], hcells.put (deref_lt hes) fun hact' => ?_⟩
    have herase := erase_eq_some.mpr ⟨vs, hrun⟩
    rw [erase_tracedCallback] at herase
    obtain ⟨r', hr', hout, -⟩ := callback_spec s.globals hsole k
    cases herase.symm.trans hr'
    exact (outcome_arg hout hact').trans harg

theorem traced_agree (hs : Sound s) (hb : Bounded s.globals) (ha : Agree s s')
    (hsame : SameButStale l l') (hok : Initialised s l)
    (h : (traced s l).run = some (t, vs)) :
    ∃ t', (traced s' l').run = some (t', vs) ∧ Agree t t' := by
  cases hsame with
  | connected hmalloc halloc => exact connected_agree hs hb ha hmalloc halloc hok h
  | recv halloc =>
    refine call_agree hs ha ?_ (fun c hc a hargument g => ?_) h
    · exact Iff.rfl
    · exact tracedCallback_stale halloc (hok c hc a hargument)
  | refl l =>
    cases l with
    | connect v new err => exact connect_agree ha h
    | connected i err malloc alloc answers closeOk =>
      exact connected_agree hs hb ha rfl rfl hok h
    | call i k => exact call_agree hs ha Iff.rfl (fun _ _ _ _ _ => rfl) h
    | freed i =>
      obtain ⟨heap', rfl, hcells⟩ := ha
      obtain ⟨ht, rfl⟩ := lift_eq_some.mp h
      simp only [step] at ht
      cases hi : s.pcbs[i]? with
      | none =>
        rw [hi] at ht
        cases ht
        exact ⟨_, lift_eq_some.mpr ⟨by simp only [step, hi], rfl⟩, heap', rfl, hcells⟩
      | some c =>
        rw [hi] at ht
        cases ht
        exact ⟨_, lift_eq_some.mpr ⟨by simp only [step, hi], rfl⟩, heap', rfl,
          hcells.set (by simp [Active])⟩
    | other g serial =>
      obtain ⟨heap', rfl, hcells⟩ := ha
      obtain ⟨ht, rfl⟩ := lift_eq_some.mp h
      obtain ⟨text, htext, rfl⟩ := Option.map_eq_some_iff.mp ht
      exact ⟨_, lift_eq_some.mpr ⟨by rw [step, htext, Option.map_some], rfl⟩, heap', rfl, hcells⟩

end Steps

theorem erase_traced_eq : (fun s l => erase (traced s l)) = step :=
  funext fun s => funext fun l => erase_traced s l

/-- What holds of two runs that differ only in what memory held. -/
structure Twin (es : List Event) (s s' : State) : Prop where
  sound : Sound s
  bounded : Bounded s.globals
  known : Known s es
  agree : Agree s s'

theorem twin_init : Twin [] init init where
  sound := sound_init
  bounded := bounded_init
  known := ⟨by simp [WrittenFirst], by simp [init]⟩
  agree := ⟨[], rfl, rfl, by simp [init]⟩

theorem twin_step (es : List Event) (s s' : State) (l l' : Label) (t : State) (vs : List Event)
    (hw : Twin es s s') (hsame : SameButStale l l') (hok : Initialised s l)
    (h : (traced s l).run = some (t, vs)) :
    ∃ t', (traced s' l').run = some (t', vs) ∧ Twin (es ++ vs) t t' := by
  have heffect := traced_effect hw.sound h
  obtain ⟨t', ht', hagree⟩ := traced_agree hw.sound hw.bounded hw.agree hsame hok h
  exact ⟨t', ht', sound_effect hw.sound heffect, bounded_effect hw.bounded heffect,
    known_step hw.sound hw.known hok h, hagree⟩

/-- Two runs make the same calls of lwIP with the same bytes, and every field
that is read has been written. -/
def Independent (ls ls' : List Label) : Prop :=
  ∃ s s' es, exec step init ls = some s ∧ exec step init ls' = some s' ∧
    exec (record traced) (init, []) ls = some (s, es) ∧
    exec (record traced) (init, []) ls' = some (s', es) ∧ WrittenFirst es

/-- What lwIP answers when everything fits. -/
def roomy : Nat → Answer := fun _ => ⟨500, .ok⟩

/-- A first sustained connection that receives a positive serial when there is
no pbuf, and is closed by the peer. -/
def firstConnection (state : ClientState) (stale after : Text) : List Label :=
  [.connect .sustained true .ok, .connected 0 .ok (some state) (some stale) roomy true,
    .call 0 (.recv [lit "5\n"] .ok after none roomy true),
    .call 0 (.recv [] .ok after none roomy true)]

/-- Behind it a second one, with some value as the state of its structure. -/
def secondConnection (state : ClientState) : List Label :=
  firstConnection .notConnected [] [] ++ [.connect .sustained true .ok,
    .connected 1 .ok (some state) (some []) roomy true, .call 1 (.poll roomy true)]

/-- A reply in a pbuf that held something. -/
def unfilledReply (stale : Text) : List Label :=
  [.connect .once true .ok, .connected 0 .ok (some .notConnected) (some []) roomy true,
    .call 0 (.recv [lit "5\n"] .ok [] (some stale) roomy true)]

/-- A serial that does not end in the payload. -/
def openSerial (after : Text) : List Label :=
  [.connect .once true .ok, .connected 0 .ok (some .notConnected) (some []) roomy true,
    .call 0 (.recv [lit "0"] .ok after none roomy true)]

theorem not_independent {ls ls' : List Label}
    (h : (exec (record traced) (init, []) ls).map Prod.snd ≠
      (exec (record traced) (init, []) ls').map Prod.snd) : ¬ Independent ls ls' := by
  rintro ⟨s, s', es, -, -, hrun, hrun', -⟩
  rw [hrun, hrun'] at h
  exact h rfl

end PopcornFirmware.Standalone.StaleHeap
