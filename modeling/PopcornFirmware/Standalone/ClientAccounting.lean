import PopcornFirmware.Standalone.ClientRuns

namespace PopcornFirmware.Standalone.ClientAccounting

open PopcornFirmware.Lib.CText PopcornFirmware.Lib.LinkedHeap PopcornFirmware.Lib.Ownership
open PopcornFirmware.Lib.Runs PopcornFirmware.Lwip.Pbufs
open PopcornFirmware.Standalone.EchoClient
open PopcornFirmware.Standalone.RawServer (Answer Globals)

/-- There is a pbuf for the first message of a connection that has got its
structure, a positive serial comes only when nothing is pending, and lwIP frees
no pcb with callbacks. -/
def Balanced (s : State) : Label → Prop
  | .connected i err malloc alloc _ _ =>
    waiting s i ≠ none → err = .ok ∧ malloc ≠ none → alloc ≠ none
  | .call i k => ∀ c ∈ target s i, ∀ a ∈ argument s c, accepts a.2 k ≠ none → a.2.pTx = none
  | .freed i => ∀ c ∈ s.pcbs[i]?, ¬ Active c
  | .connect .. | .other .. => True

section Decidable

instance : ∀ s l, Decidable (Balanced s l)
  | _, .connected .. => inferInstanceAs (Decidable (_ → _ → _))
  | s, .call i k =>
    haveI := fun c => Option.decidableForallMem
      (p := fun a : Nat × Echoclient => accepts a.2 k ≠ none → a.2.pTx = none) (argument s c)
    Option.decidableForallMem (p := fun c => ∀ a ∈ argument s c,
      accepts a.2 k ≠ none → a.2.pTx = none) (target s i)
  | s, .freed i => Option.decidableForallMem (p := fun c : Pcb => ¬ Active c) s.pcbs[i]?
  | _, .connect .. | _, .other .. => inferInstanceAs (Decidable True)

end Decidable

/-- The pbufs that are allocated are those of the pending chain. -/
def Pending (c : Pcb) (es : Echoclient) : Prop :=
  ∃ ids, Sole c.mem es.pTx ids ∧ ∀ k b, deref c.mem k = some b → k ∈ ids

def Emptied (c : Pcb) : Prop := ∀ k, deref c.mem k = none

theorem emptied_fresh {c c' : Pcb} (hf : Fresh c) (hmem : c'.mem = c.mem) : Emptied c' := by
  intro k
  rw [hmem, hf.mem]
  rfl

theorem pending_opened {c c' : Pcb} {g : Globals} {id : Nat} {alloc : Option Text}
    {es : Echoclient} (hf : Fresh c) (hlive : c.live = true) (halloc : alloc ≠ none)
    (h : Opened (withEs c id) g id alloc c' es) :
    if Active c' then Pending c' es else Emptied c' := by
  cases h with
  | failed hnone => exact absurd hnone halloc
  | @installed m w text state p rest _ hsole hsame hstream =>
    refine (if_pos ⟨hlive, rfl⟩).mpr ⟨rest, hsole, fun k b hb => ?_⟩
    by_contra hk
    have hold : deref c.mem k = none := emptied_fresh hf rfl k
    rw [hsame k hk] at hb
    exact absurd (hold.symm.trans hb) nofun

theorem pending_called {c c' : Pcb} {es : Echoclient} {ids : List Nat} {k : Callback}
    {es' : Option Echoclient} (hact : Active c) (hpending : Pending c es)
    (hsole : Sole c.mem es.pTx ids) (hout : Outcome c es ids k c' es')
    (hok : accepts es k ≠ none → es.pTx = none) :
    if Active c' then ∃ e, es' = some e ∧ Pending c' e else Emptied c' := by
  obtain ⟨ids', hsole', hall⟩ := hpending
  obtain rfl := hsole'.chain.unique hsole.chain
  have hempty : es.pTx = none → ∀ j, deref c.mem j = none := by
    intro hp j
    rw [hp] at hsole
    cases hj : deref c.mem j with
    | none => rfl
    | some b =>
      have hmem := hall j b hj
      rw [hsole.held.eq_nil] at hmem
      cases hmem
  cases hout with
  | closed hk hsame =>
    refine (if_neg (not_active_close _ _)).mpr fun j => (hsame j).trans (hempty ?_ j)
    cases k with
    | recv => exact hk.2
    | poll => exact hk.1
    | sent => cases hk
  | sent hk hacc hsole'' hrel =>
    refine (if_pos hact).mpr ⟨_, rfl, _, hsole'', fun j b hb => ?_⟩
    have hb' := hb
    simp only [hrel.cells] at hb'
    split at hb'
    · cases hb'
    · rename_i hnot
      exact by_contra fun hrest => hnot ⟨hall j b hb', hrest⟩
  | lost hacc halloc hsame =>
    refine (if_pos hact).mpr ⟨_, rfl, [], ⟨rfl, by simp⟩, fun j b hb => ?_⟩
    rw [hsame j, hempty (hok (by simp [hacc])) j] at hb
    cases hb
  | queued hacc halloc hsole'' hsame =>
    refine (if_pos hact).mpr ⟨_, rfl, _, hsole'', fun j b hb => ?_⟩
    by_contra hrest
    rw [hsame j hrest, hempty (hok (by simp [hacc])) j] at hb
    cases hb

/-- No structure is left behind by a step. -/
theorem covered_effect {s t : State} {l : Label} (hs : Sound s) (hok : Balanced s l)
    (hc : Covered Active Pcb.arg Pcb.ess s.heap s.pcbs) (h : Effect s l t) :
    Covered Active Pcb.arg Pcb.ess t.heap t.pcbs := by
  cases h with
  | nothing | other => exact hc
  | connect hflag => exact hc.push rfl
  | refused status hi hlive hwait hfail =>
    exact hc.retire hi (hs.fresh _ (List.mem_of_getElem? hi) hwait).not_active rfl
  | @connected i err malloc alloc answers closeOk c c' es status hi hlive hwait hmalloc hopened =>
    have hwaiting : waiting s i ≠ none := by simp [waiting, hi, hlive, hwait]
    cases hopened with
    | failed halloc => exact absurd halloc (hok hwaiting hmalloc)
    | installed =>
      have hf := hs.fresh c (List.mem_of_getElem? hi) hwait
      exact hc.alloc hi hf.not_active rfl ⟨hlive, rfl⟩ rfl
  | called hi hact harg hes hsole hout hg =>
    cases hout with
    | closed => exact hc.put hs.owned hi hact harg rfl (Or.inl rfl)
    | sent | lost | queued => exact hc.put hs.owned hi hact harg rfl (Or.inr ⟨hact, harg⟩)
  | freed hi => exact hc.retire hi (hok _ hi) rfl

/-- The invariant of the runs that lose nothing. -/
structure Accounted (s : State) : Prop where
  sound : Sound s
  pending : Owned Active Pcb.arg Pending s.heap s.pcbs
  idle : ∀ c ∈ s.pcbs, ¬ Active c → Emptied c
  covered : Covered Active Pcb.arg Pcb.ess s.heap s.pcbs

theorem accounted_init : Accounted init :=
  ⟨sound_init, Owned.nil, by simp [init], by simp [init, Covered]⟩

theorem accounted_step (s : State) (l : Label) (hi : Accounted s) (hok : Balanced s l) :
    ∃ t, step s l = some t ∧ Accounted t := by
  obtain ⟨t, ht, heffect⟩ := step_effect hi.sound l
  have hkeep : Owned Active Pcb.arg Pending t.heap t.pcbs ∧
      ∀ c ∈ t.pcbs, ¬ Active c → Emptied c := by
    refine keeps_effect hi.sound.fresh heffect hi.pending hi.idle (fun _ _ => rfl) ?_ ?_ ?_ ?_
    · intro c closeOk hf
      exact emptied_fresh hf rfl
    · rintro i err malloc alloc answers closeOk c c' v es id rfl hmalloc hwaiting hf hopened
      have halloc := hok (by simp [hwaiting]) hmalloc
      exact pending_opened hf (waiting_spec hwaiting).2.1 halloc hopened
    · rintro i k c id es ids c' es' rfl htarget hargument hpending hsole hout
      exact pending_called (target_spec htarget).2 hpending hsole hout
        (hok c htarget (id, es) hargument)
    · rintro i c rfl hc _ hidle
      exact hidle (hok c hc)
  exact ⟨t, ht, sound_effect hi.sound heffect, hkeep.1, hkeep.2,
    covered_effect hi.sound hok hi.covered heffect⟩

/-- All that has been allocated for a connection has been deallocated. -/
def Freed (s : State) (c : Pcb) : Prop :=
  (∀ id ∈ c.ess, deref s.heap id = none) ∧ ∀ k, deref c.mem k = none

/-- What lwIP answers when everything fits. -/
def roomy : Nat → Answer := fun _ => ⟨500, .ok⟩

def opened : List Label :=
  [.connect .once true .ok, .connected 0 .ok (some .notConnected) (some []) roomy true]

def fin : Label := .call 0 (.recv [] .ok [] none roomy true)

/-- A request, a serial with the packet for it, and the peer closes. -/
def answered : List Label :=
  opened ++ [.call 0 (.sent roomy), .call 0 (.recv [lit "5"] .ok [] (some []) roomy true), fin]

/-- A reset, a pool that is empty when the connection comes up, and a serial
that comes while the request is pending. -/
def reset : List Label := opened ++ [.freed 0]

def emptyPool : List Label :=
  [.connect .once true .ok, .connected 0 .ok (some .notConnected) none roomy true, .freed 0]

def replaced : List Label :=
  opened ++ [.call 0 (.recv [lit "5"] .ok [] (some []) roomy true), fin]

end PopcornFirmware.Standalone.ClientAccounting
