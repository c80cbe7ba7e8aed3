import PopcornFirmware.Standalone.ClientTrace

namespace PopcornFirmware.Standalone.FieldWrites

open PopcornFirmware.Lib.CText PopcornFirmware.Lib.Pool PopcornFirmware.Lib.Trace
open PopcornFirmware.Packet.Str2int
open PopcornFirmware.Standalone.EchoClient
open PopcornFirmware.Standalone.RawServer (Answer ErrT Globals Sending)

/-- Where the serial is read, it ends within the bytes of the payload, and
there is no pbuf for the reply to a positive one. -/
def Determined (es : Echoclient) : Callback → Prop
  | .recv (payload :: _) .ok _ alloc _ _ =>
    es.state = .connected → ∃ v ∈ str2int payload, 0 < v.toInt → alloc = none
  | _ => True

/-- The step takes no branch that leaves something uninitialised: no connection
with status_connection set gets a structure and a pbuf, and what is received is
determined. -/
def Initialised (s : State) : Label → Prop
  | .connected i .ok (some _) alloc _ _ =>
    ∀ r ∈ waiting s i, r.2 = .sustained → s.statusConnection = true → alloc = none
  | .call i k => ∀ c ∈ target s i, ∀ a ∈ argument s c, Determined a.2 k
  | _ => True

/-- A field is read only behind a write to it. No identity is used twice, so
this is one since the allocation of the structure. -/
def WrittenFirst (es : List Event) : Prop :=
  ∀ pre id f post, es = pre ++ .read id f :: post → .write id f ∈ pre

section Decidable

instance (es : Echoclient) : DecidablePred (Determined es)
  | .recv (payload :: _) .ok _ alloc _ _ =>
    haveI := Option.decidableExistsMem
      (p := fun v : BitVec 32 => 0 < v.toInt → alloc = none) (o := str2int payload)
    inferInstanceAs (Decidable (_ → _))
  | .recv [] .. | .recv (_ :: _) .mem .. | .recv (_ :: _) .other .. => .isTrue trivial
  | .sent _ | .poll .. => .isTrue trivial

instance : ∀ s l, Decidable (Initialised s l)
  | s, .connected i .ok (some _) alloc _ _ => Option.decidableForallMem
    (p := fun r : Pcb × Connected => r.2 = .sustained → s.statusConnection = true → alloc = none)
      (waiting s i)
  | s, .call i k =>
    haveI := fun c => Option.decidableForallMem
      (p := fun a : Nat × Echoclient => Determined a.2 k) (argument s c)
    Option.decidableForallMem (p := fun c => ∀ a ∈ argument s c, Determined a.2 k) (target s i)
  | _, .connected _ .ok none .. | _, .connected _ .mem .. | _, .connected _ .other .. =>
    .isTrue trivial
  | _, .connect .. | _, .freed _ | _, .other .. => .isTrue trivial

end Decidable

section Reads

def NoRead (e : Event) : Prop := ∀ j f, e ≠ .read j f

/-- If the event is a read, it is one of this structure. -/
def ReadsOf (id : Nat) (e : Event) : Prop := ∀ j f, e = .read j f → j = id

/-- If the event is a read, it is one of the pbufs of this structure. -/
def ReadsPTx (id : Nat) (e : Event) : Prop := ∀ j f, e = .read j f → j = id ∧ f = .pTx

theorem NoRead.readsOf {e : Event} (h : NoRead e) (id : Nat) : ReadsOf id e :=
  fun j f he => absurd he (h j f)

variable (i id : Nat) (answers : Nat → Answer) (alloc : Option Text) (closeOk : Bool)
  (g : Globals) (c : Pcb) (es : Echoclient)

theorem tracedSendLoop_reads (fuel n : Nat) (s : Sending) :
    Emits (ReadsPTx id) (tracedSendLoop i id answers fuel n s) := by
  induction fuel generalizing n s with
  | zero => exact emits_lift _
  | succ fuel ih =>
    refine emits_bind (emits_tell (by simp [ReadsPTx])) fun _ => ?_
    cases s.p with
    | none => exact emits_pure _
    | some ptr =>
      refine emits_bind (emits_lift _) fun b => ?_
      split
      · refine emits_bind (emits_tell (by simp [ReadsPTx])) fun _ => ?_
        cases (answers n).write with
        | ok =>
          refine emits_bind (emits_tell (by simp [ReadsPTx])) fun _ => ?_
          refine emits_bind (emits_lift _) fun m => ?_
          refine emits_bind (emits_tell (by simp [ReadsPTx])) fun _ => ?_
          refine emits_bind (emits_lift _) fun m => ?_
          exact emits_bind (emits_tell (by simp [ReadsPTx])) fun _ => ih _ _
        | mem => exact emits_bind (emits_tell (by simp [ReadsPTx])) fun _ => emits_pure _
        | other => exact emits_pure _
      · exact emits_pure _

theorem tracedSend_reads : Emits (ReadsPTx id) (tracedSend i id answers c es) :=
  emits_bind (tracedSendLoop_reads i id answers _ _ _) fun _ => emits_pure _

theorem tracedSend_readsOf : Emits (ReadsOf id) (tracedSend i id answers c es) :=
  (tracedSend_reads i id answers c es).mono fun _ h j f he => (h j f he).1

theorem tracedClose_reads (es : Option Nat) : Emits NoRead (tracedClose i es closeOk c) := by
  refine emits_bind (emits_tell (by simp [NoRead])) fun _ => ?_
  refine emits_bind (emits_tell (by simp [NoRead])) fun _ => ?_
  exact emits_bind (emits_tell (by simp [NoRead])) fun _ => emits_pure _

theorem tracedClose_readsOf (es : Option Nat) : Emits (ReadsOf id) (tracedClose i es closeOk c) :=
  (tracedClose_reads i closeOk c es).mono fun _ h => h.readsOf id

theorem tracedDrop_readsOf (p : Option Nat) : Emits (ReadsOf id) (tracedDrop i g c es p) := by
  refine emits_bind (emits_tell (by simp [ReadsOf])) fun _ => ?_
  exact emits_bind (emits_lift _) fun _ => emits_pure _

theorem tracedReply_readsOf : Emits (ReadsOf id) (tracedReply i id answers alloc g c es) := by
  refine emits_bind (emits_tell (by simp [ReadsOf])) fun _ => ?_
  obtain ⟨c, p⟩ := allocMessage alloc g.postPacket c
  cases p with
  | none => exact emits_pure _
  | some p => exact tracedSend_readsOf i id answers c _

theorem tracedRecv_readsOf (after : Text) (err : ErrT) (p : Option Nat) :
    Emits (ReadsOf id) (tracedRecv i id answers after alloc closeOk g c es err p) := by
  cases p with
  | none =>
    refine emits_bind (emits_tell (by simp [ReadsOf])) fun _ => ?_
    dsimp only
    split
    · exact emits_bind (tracedClose_readsOf i id closeOk c _) fun _ => emits_pure _
    · exact emits_bind (tracedSend_readsOf i id answers c _) fun _ => emits_pure _
  | some p =>
    rw [tracedRecv]
    split
    · exact tracedDrop_readsOf i id g c es _
    · refine emits_bind (emits_tell (by simp [ReadsOf])) fun _ => ?_
      refine emits_bind (emits_lift _) fun b => ?_
      refine emits_bind (emits_tell (by simp [ReadsOf])) fun _ => ?_
      split
      · refine emits_bind (emits_lift _) fun g => ?_
        split
        · exact tracedDrop_readsOf i id g c es _
        · exact emits_bind (tracedReply_readsOf i id answers alloc g c es) fun r =>
            tracedDrop_readsOf i id g r.1 r.2 _
      · exact tracedDrop_readsOf i id g c es _

/-- A callback reads no structure but its own. -/
theorem tracedCallback_readsOf (k : Callback) :
    Emits (ReadsOf id) (tracedCallback i id g c es k) := by
  cases k with
  | recv payloads err after alloc answers closeOk =>
    exact tracedRecv_readsOf i id answers alloc closeOk g _ es after err _
  | sent answers =>
    refine emits_bind (emits_tell (by simp [ReadsOf])) fun _ => ?_
    split
    · exact emits_bind (tracedSend_readsOf i id answers c es) fun _ => emits_pure _
    · exact emits_pure _
  | poll answers closeOk =>
    refine emits_bind (emits_tell (by simp [ReadsOf])) fun _ => ?_
    split
    · exact emits_bind (tracedSend_readsOf i id answers c es) fun _ => emits_pure _
    · refine emits_bind (emits_tell (by simp [ReadsOf])) fun _ => ?_
      split
      · exact emits_bind (tracedClose_readsOf i id closeOk c _) fun _ => emits_pure _
      · exact emits_pure _

end Reads

section Writes

variable {i id : Nat} {answers : Nat → Answer} {alloc : Option Text} {status : Bool} {g : Globals}
  {c : Pcb} {text : Text} {v : Connected} {state : ClientState}

/-- The pbufs of a new structure are written before anything of it is read. -/
theorem tracedInstall_events {r : Pcb × Option Nat} {vs : List Event}
    (h : (tracedInstall i id alloc text c).run = some (r, vs)) :
    ∃ us, vs = .call (.pbufAlloc i text.length) :: .write id .pTx :: us ∧
      ∀ e ∈ us, ReadsPTx id e := by
  obtain ⟨_, us, ws, htell, hrest, rfl⟩ := bind_eq_some.mp h
  cases htell
  refine ⟨.read id .pTx :: ws, rfl, List.forall_mem_cons.mpr ⟨by simp [ReadsPTx], ?_⟩⟩
  generalize allocMessage alloc text c = q at hrest
  obtain ⟨d, p⟩ := q
  cases p with
  | none => exact emits_pure _ _ _ hrest
  | some p =>
    refine emits_bind (emits_tell (by simp [ReadsPTx])) (fun _ => ?_) _ _ hrest
    refine emits_bind (emits_lift _) fun m => ?_
    exact emits_bind (emits_tell (by simp [ReadsPTx])) fun _ => emits_pure _

theorem tracedConnectedCallback_events {r : Pcb × Echoclient × Bool} {vs : List Event}
    (h : (tracedConnectedCallback i id v answers alloc state g status c).run = some (r, vs)) :
    ∃ pre us, vs = pre ++ .write id .pTx :: us ∧ (∀ e ∈ pre, NoRead e) ∧
      (∀ e ∈ us, ReadsPTx id e) ∧
      ((v = .sustained → status = false) → .write id .state ∈ pre) := by
  cases v with
  | once =>
    obtain ⟨q, honce, -⟩ := bind_pure_eq_some.mp h
    obtain ⟨_, us, xs, htell, hrest, rfl⟩ := bind_eq_some.mp honce
    obtain ⟨q', hinstall, -⟩ := bind_pure_eq_some.mp hrest
    cases htell
    obtain ⟨us, rfl, hus⟩ := tracedInstall_events hinstall
    exact ⟨[.write id .state, .call _], us, rfl, by simp [NoRead], hus, fun _ => by simp⟩
  | sustained =>
    obtain ⟨_, us, ws, htell, hrest, rfl⟩ := bind_eq_some.mp h
    obtain ⟨q, us', ys, hinstall, hsend, rfl⟩ := bind_eq_some.mp hrest
    cases htell
    obtain ⟨us, rfl, hus⟩ := tracedInstall_events hinstall
    have hys : ∀ e ∈ ys, ReadsPTx id e := by
      dsimp only at hsend
      split at hsend
      · exact emits_pure _ _ _ hsend
      · exact emits_bind (tracedSend_reads i id answers _ _) (fun _ => emits_pure _) _ _ hsend
    refine ⟨(if status then [] else [.write id .state]) ++
      [.call (.pbufAlloc i postRequest.length)], us ++ ys, by simp, ?_,
      fun e he => (List.mem_append.mp he).elim (hus e) (hys e), fun hstatus => by simp [hstatus rfl]⟩
    cases status <;> simp [NoRead]

end Writes

section Runs

variable {s t : State} {l : Label} {es us vs : List Event}

theorem WrittenFirst.append (h : WrittenFirst es)
    (hus : ∀ id f, .read id f ∈ us → .write id f ∈ es) : WrittenFirst (es ++ us) := by
  intro pre id f post heq
  obtain ⟨xs, rfl, hus'⟩ | ⟨xs, rfl, hpost⟩ := List.append_eq_append_iff.mp heq
  · exact List.mem_append_left xs (hus id f (hus' ▸ by simp))
  · cases xs with
    | nil =>
      have hus' : us = .read id f :: post := hpost.symm
      simpa using hus id f (hus' ▸ by simp)
    | cons e xs =>
      obtain ⟨rfl, -⟩ := List.cons.inj hpost
      exact h pre id f xs rfl

theorem WrittenFirst.append_noRead (h : WrittenFirst es) (hus : ∀ e ∈ us, NoRead e) :
    WrittenFirst (es ++ us) :=
  h.append fun id f hmem => absurd rfl (hus _ hmem id f)

/-- If callbacks of the pcb are called, both fields of its structure have been
written. -/
def Written (es : List Event) (c : Pcb) : Prop :=
  Active c → ∀ id, c.arg = some id → ∀ f, .write id f ∈ es

theorem Written.mono {c : Pcb} (h : Written es c) (us : List Event) : Written (es ++ us) c :=
  fun hact id hid f => List.mem_append_left us (h hact id hid f)

theorem written_inactive {c : Pcb} (h : ¬ Active c) : Written es c := fun hact => absurd hact h

theorem written_effect (hs : Sound s) (hw : ∀ c ∈ s.pcbs, Written es c) (h : Effect s l t)
    (hnew : ∀ i state alloc answers closeOk,
      l = .connected i .ok (some state) alloc answers closeOk → waiting s i ≠ none →
      alloc ≠ none → ∀ f, .write s.heap.length f ∈ vs) :
    ∀ c ∈ t.pcbs, Written (es ++ vs) c := by
  have hold : ∀ c ∈ s.pcbs, Written (es ++ vs) c := fun c hc => (hw c hc).mono vs
  cases h with
  | nothing | other => exact hold
  | connect hflag =>
    intro c hc
    obtain hc | hc := List.mem_append.mp hc
    · exact hold c hc
    · exact written_inactive (List.mem_singleton.mp hc ▸ by simp [Active, tcpNew])
  | refused status hi hlive hwait hfail =>
    exact forall_mem_set hold (written_inactive (not_active_close _ _))
  | @connected i err malloc alloc answers closeOk c c' e status hi hlive hwait hok hopened =>
    obtain ⟨rfl, hmalloc⟩ := hok
    obtain ⟨state, rfl⟩ := Option.ne_none_iff_exists'.mp hmalloc
    have hwaiting : waiting s i ≠ none := by simp [waiting, hi, hlive, hwait]
    refine forall_mem_set hold ?_
    cases hopened with
    | failed =>
      exact written_inactive (hs.fresh c (List.mem_of_getElem? hi) hwait).not_active
    | installed halloc =>
      intro _ id hid f
      cases hid
      exact List.mem_append_right es (hnew i state alloc answers closeOk rfl hwaiting halloc f)
  | called hi hact harg hes hsole hout hg =>
    refine forall_mem_set hold fun hact' id hid f => ?_
    rw [outcome_arg hout hact'] at hid
    exact hold _ (List.mem_of_getElem? hi) hact id hid f
  | freed hi => exact forall_mem_set hold (written_inactive (by simp [Active]))

/-- What a run has done so far, and the structures it goes on with. -/
structure Known (s : State) (es : List Event) : Prop where
  first : WrittenFirst es
  written : ∀ c ∈ s.pcbs, Written es c

theorem opened_events {i : Nat} {c : Pcb} {v : Connected} {state : ClientState}
    {alloc : Option Text} {answers : Nat → Answer} {closeOk : Bool}
    (h : (tracedConnected s i c v .ok (some state) alloc answers closeOk).run = some (t, vs)) :
    ∃ pre us, vs = pre ++ .write s.heap.length .pTx :: us ∧ (∀ e ∈ pre, NoRead e) ∧
      (∀ e ∈ us, ReadsPTx s.heap.length e) ∧
      ((v = .sustained → s.statusConnection = false) → .write s.heap.length .state ∈ pre) := by
  obtain ⟨_, us, ws, htell, hrest, rfl⟩ := bind_eq_some.mp h
  obtain ⟨r, hrun, -⟩ := bind_pure_eq_some.mp hrest
  cases htell
  obtain ⟨pre, us, rfl, hpre, hus, hstate⟩ := tracedConnectedCallback_events hrun
  refine ⟨.call (.memMalloc (some s.heap.length)) :: pre, us, rfl, ?_, hus,
    fun hstatus => List.mem_cons_of_mem _ (hstate hstatus)⟩
  exact List.forall_mem_cons.mpr ⟨by simp [NoRead], hpre⟩

theorem refused_events {i : Nat} {c : Pcb} {v : Connected} {err : ErrT}
    {malloc : Option ClientState} {alloc : Option Text} {answers : Nat → Answer} {closeOk : Bool}
    (hfail : ¬ (err = .ok ∧ malloc ≠ none)) :
    Emits NoRead (tracedConnected s i c v err malloc alloc answers closeOk) := by
  cases err with
  | ok =>
    cases malloc with
    | some state => exact absurd ⟨rfl, by simp⟩ hfail
    | none =>
      refine emits_bind (emits_tell (by simp [NoRead])) fun _ => ?_
      exact emits_bind (tracedClose_reads i closeOk c none) fun _ => emits_pure _
  | mem | other =>
    refine emits_bind (emits_tell (by simp)) fun _ => ?_
    exact emits_bind (tracedClose_reads i closeOk c none) fun _ => emits_pure _

theorem connect_events (v : Connected) (new : Bool) (err : ErrT) :
    Emits NoRead (traced s (.connect v new err)) := by
  rw [traced]
  split
  · exact emits_pure _
  · refine emits_bind (emits_tell (by simp [NoRead])) fun _ => ?_
    split
    · exact emits_pure _
    · exact emits_bind (emits_tell (by simp [NoRead])) fun _ => emits_pure _

theorem first_connected {i : Nat} {c : Pcb} {v : Connected} {err : ErrT}
    {malloc : Option ClientState} {alloc : Option Text} {answers : Nat → Answer} {closeOk : Bool}
    (hfirst : WrittenFirst es)
    (h : (tracedConnected s i c v err malloc alloc answers closeOk).run = some (t, vs)) :
    WrittenFirst (es ++ vs) := by
  by_cases hfail : err = .ok ∧ malloc ≠ none
  · obtain ⟨rfl, hmalloc⟩ := hfail
    obtain ⟨state, rfl⟩ := Option.ne_none_iff_exists'.mp hmalloc
    obtain ⟨pre, us, rfl, hpre, hus, -⟩ := opened_events h
    have hsplit : es ++ (pre ++ .write s.heap.length .pTx :: us) =
        (es ++ (pre ++ [.write s.heap.length .pTx])) ++ us := by simp
    have hnoRead : ∀ e ∈ pre ++ [.write s.heap.length .pTx], NoRead e := by
      intro e he
      obtain he | he := List.mem_append.mp he
      · exact hpre e he
      · exact List.mem_singleton.mp he ▸ by simp [NoRead]
    rw [hsplit]
    refine (hfirst.append_noRead hnoRead).append fun id f hread => ?_
    obtain ⟨rfl, rfl⟩ := hus _ hread id f rfl
    simp
  · exact hfirst.append_noRead (refused_events hfail t vs h)

theorem first_call {i : Nat} {k : Callback} (hs : Sound s) (hk : Known s es)
    (h : (traced s (.call i k)).run = some (t, vs)) : WrittenFirst (es ++ vs) := by
  cases hc : target s i with
  | none =>
    simp only [traced, hc] at h
    exact hk.first.append_noRead (emits_pure _ _ _ h)
  | some c =>
    obtain ⟨hi, hact⟩ := target_spec hc
    obtain ⟨id, e, harg, hes, -⟩ := hs.owned.live i c hi hact
    obtain ⟨r, hrun, -⟩ := (traced_call_eq_some hc harg hes).mp h
    refine hk.first.append fun j f hread => ?_
    obtain rfl := tracedCallback_readsOf i id s.globals c e k r vs hrun _ hread j f rfl
    exact hk.written c (List.mem_of_getElem? hi) hact j harg f

/-- A step reads what has been written before, and leaves no open connection
with a structure that is not written. -/
theorem known_step (hs : Sound s) (hk : Known s es) (hok : Initialised s l)
    (h : (traced s l).run = some (t, vs)) : Known t (es ++ vs) := by
  refine ⟨?_, written_effect hs hk.written (traced_effect hs h) ?_⟩
  · cases l with
    | connect v new err => exact hk.first.append_noRead (connect_events v new err t vs h)
    | connected i err malloc alloc answers closeOk =>
      simp only [traced] at h
      cases hw : waiting s i with
      | none =>
        rw [hw] at h
        exact hk.first.append_noRead (emits_pure _ _ _ h)
      | some r =>
        rw [hw] at h
        exact first_connected hk.first h
    | call i k => exact first_call hs hk h
    | freed | other => exact hk.first.append_noRead (emits_lift _ _ _ h)
  · rintro i state alloc answers closeOk rfl hwaiting halloc f
    obtain ⟨⟨c, v⟩, hw⟩ := Option.ne_none_iff_exists'.mp hwaiting
    simp only [traced, hw] at h
    obtain ⟨pre, us, rfl, -, -, hstate⟩ := opened_events h
    cases f with
    | pTx => simp
    | state =>
      refine List.mem_append_left _ (hstate fun hv => ?_)
      by_contra hstatus
      exact halloc (hok (c, v) hw hv (by simpa using hstatus))

end Runs

end PopcornFirmware.Standalone.FieldWrites
