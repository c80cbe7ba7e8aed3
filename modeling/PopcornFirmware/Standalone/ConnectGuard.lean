import PopcornFirmware.Standalone.ClientRuns

namespace PopcornFirmware.Standalone.ConnectGuard

open PopcornFirmware.Lib.CText PopcornFirmware.Lib.Pool PopcornFirmware.Lib.Runs
open PopcornFirmware.Standalone.EchoClient
open PopcornFirmware.Standalone.RawServer (Answer)

/-- A pcb of the client exists, neither closed nor freed. -/
def Present (s : State) : Prop := ∃ c ∈ s.pcbs, c.live = true

/-- The flag says whether there is a pcb, and there is one at most. -/
structure Guards (flag : Bool) (pcbs : List Pcb) : Prop where
  flag : flag = true ↔ ∃ c ∈ pcbs, c.live = true
  single : ∀ (i j : Nat) (c d : Pcb), pcbs[i]? = some c → pcbs[j]? = some d →
    c.live = true → d.live = true → i = j

/-- The connection comes up and gets its structure, or tcp_close fails; recv is
called exactly when the connection is closed; and lwIP frees no pcb that has
not been closed. -/
def Orderly (s : State) : Label → Prop
  | .connected i err malloc _ _ closeOk =>
    waiting s i ≠ none → (err = .ok ∧ malloc ≠ none) ∨ closeOk = false
  | .call i k => ∀ c ∈ target s i, ∀ a ∈ argument s c,
    IsRecv k ↔ Closes a.2 k ∧ k.closeOk = true
  | .freed i => ∀ c ∈ s.pcbs[i]?, c.live = false
  | .connect .. | .other .. => True

section Decidable

instance (es : Echoclient) : DecidablePred (Closes es)
  | .recv .. | .poll .. => inferInstanceAs (Decidable (_ ∧ _))
  | .sent _ => inferInstanceAs (Decidable False)

instance : ∀ s l, Decidable (Orderly s l)
  | s, .connected i _ _ _ _ _ =>
    haveI : Decidable (waiting s i ≠ none) := decidable_of_iff ((waiting s i).isSome = true)
      Option.isSome_iff_ne_none
    inferInstanceAs (Decidable (_ → _))
  | s, .call i k =>
    haveI := fun c => Option.decidableForallMem
      (p := fun a : Nat × Echoclient => IsRecv k ↔ Closes a.2 k ∧ k.closeOk = true) (argument s c)
    Option.decidableForallMem (p := fun c => ∀ a ∈ argument s c,
      IsRecv k ↔ Closes a.2 k ∧ k.closeOk = true) (target s i)
  | s, .freed i => Option.decidableForallMem (p := fun c : Pcb => c.live = false) s.pcbs[i]?
  | _, .connect .. | _, .other .. => inferInstanceAs (Decidable True)

end Decidable

section Guards

variable {flag : Bool} {pcbs : List Pcb} {i : Nat} {c c' : Pcb}

theorem Guards.same (hg : Guards flag pcbs) (hi : pcbs[i]? = some c) (hlive : c'.live = c.live) :
    Guards flag (pcbs.set i c') := by
  have hback : ∀ (j : Nat) (d : Pcb), (pcbs.set i c')[j]? = some d →
      ∃ e, pcbs[j]? = some e ∧ e.live = d.live := by
    intro j d hj
    obtain ⟨rfl, rfl⟩ | ⟨-, hj⟩ := (getElem?_set_iff hi).mp hj
    · exact ⟨c, hi, hlive.symm⟩
    · exact ⟨d, hj, rfl⟩
  refine ⟨hg.flag.trans ⟨?_, ?_⟩, fun j k d e hj hk hd he => ?_⟩
  · rintro ⟨d, hd, hdlive⟩
    obtain ⟨j, hj⟩ := List.mem_iff_getElem?.mp hd
    by_cases hji : j = i
    · subst hji
      rw [hi] at hj
      cases hj
      exact ⟨c', (mem_set_iff hi).mpr (Or.inl rfl), hlive.trans hdlive⟩
    · exact ⟨d, (mem_set_iff hi).mpr (Or.inr ⟨j, hji, hj⟩), hdlive⟩
  · rintro ⟨d, hd, hdlive⟩
    obtain ⟨j, hj⟩ := List.mem_iff_getElem?.mp hd
    obtain ⟨e, he, helive⟩ := hback j d hj
    exact ⟨e, List.mem_of_getElem? he, helive.trans hdlive⟩
  · obtain ⟨d', hj', hd'⟩ := hback j d hj
    obtain ⟨e', hk', he'⟩ := hback k e hk
    exact hg.single j k d' e' hj' hk' (hd'.trans hd) (he'.trans he)

/-- The only pcb is closed, and the flag cleared. -/
theorem Guards.closed (hg : Guards flag pcbs) (hi : pcbs[i]? = some c) (hlive : c.live = true)
    (hlive' : c'.live = false) : Guards false (pcbs.set i c') := by
  have hnone : ¬ ∃ d ∈ pcbs.set i c', d.live = true := by
    rintro ⟨d, hd, hdlive⟩
    obtain rfl | ⟨j, hji, hj⟩ := (mem_set_iff hi).mp hd
    · simp [hlive'] at hdlive
    · exact hji (hg.single j i d c hj hi hdlive hlive)
  refine ⟨⟨nofun, fun h => absurd h hnone⟩, fun j k d e hj _ hd _ => ?_⟩
  exact absurd ⟨d, List.mem_of_getElem? hj, hd⟩ hnone

theorem Guards.opened (hg : Guards false pcbs) (hlive : c.live = true) :
    Guards true (pcbs ++ [c]) := by
  have hnone : ∀ (j : Nat) (d : Pcb), pcbs[j]? = some d → ¬ d.live = true := fun j d hj hd =>
    Bool.false_ne_true (hg.flag.mpr ⟨d, List.mem_of_getElem? hj, hd⟩)
  refine ⟨⟨fun _ => ⟨c, by simp, hlive⟩, fun _ => rfl⟩, fun j k d e hj hk hd he => ?_⟩
  obtain hj' | ⟨hjl, -⟩ := getElem?_append_iff.mp hj
  · exact absurd hd (hnone j d hj')
  · obtain hk' | ⟨hkl, -⟩ := getElem?_append_iff.mp hk
    · exact absurd he (hnone k e hk')
    · rw [hjl, hkl]

end Guards

/-- A callback with data for it does not close the connection. -/
theorem not_closes_of_accepts {es : Echoclient} {k : Callback} {text : Text}
    (hacc : accepts es k = some text) : ¬ Closes es k := by
  cases k with
  | recv payloads err after alloc answers closeOk =>
    rintro ⟨rfl, -⟩
    cases hacc
  | sent | poll => cases hacc

theorem guards_called {s : State} {i : Nat} {k : Callback} {c c' : Pcb} {es : Echoclient}
    {ids : List Nat} {es' : Option Echoclient} (hg : Guards s.tcpFlag s.pcbs)
    (hi : s.pcbs[i]? = some c) (hact : Active c) (hout : Outcome c es ids k c' es')
    (hok : IsRecv k ↔ Closes es k ∧ k.closeOk = true) :
    Guards (if IsRecv k then false else s.tcpFlag) (s.pcbs.set i c') := by
  by_cases hrecv : IsRecv k
  · obtain ⟨hcloses, hclose⟩ := hok.mp hrecv
    rw [if_pos hrecv]
    cases hout with
    | closed => exact hg.closed hi hact.1 (by simp [echoclientConnectionClose, hclose])
    | sent hk => exact absurd hcloses hk
    | lost hacc | queued hacc => exact absurd hcloses (not_closes_of_accepts hacc)
  · rw [if_neg hrecv]
    refine hg.same hi ?_
    cases hout with
    | closed hk =>
      have hclose : k.closeOk = false := by
        rw [← Bool.not_eq_true]
        exact fun h => hrecv (hok.mpr ⟨hk, h⟩)
      simp [echoclientConnectionClose, hclose, hact.1]
    | sent | lost | queued => rfl

theorem guards_effect {s t : State} {l : Label} (hg : Guards s.tcpFlag s.pcbs)
    (hok : Orderly s l) (h : Effect s l t) : Guards t.tcpFlag t.pcbs := by
  cases h with
  | nothing | other => exact hg
  | connect hflag => exact (hflag ▸ hg).opened rfl
  | @refused i err malloc alloc answers closeOk c status hi hlive hwait hfail =>
    have hwaiting : waiting s i ≠ none := by simp [waiting, hi, hlive, hwait]
    have hclose := (hok hwaiting).resolve_left hfail
    exact hg.same hi (by simp [echoclientConnectionClose, hclose, hlive])
  | connected status hi hlive hwait hmalloc hopened =>
    refine hg.same hi ?_
    cases hopened with
    | failed | installed => rfl
  | @called i id k c c' es ids g es' hi hact harg hes hsole hout _ =>
    have htarget : c ∈ target s i := by simp [target, hi, Option.filter, hact]
    have hargument : (id, es) ∈ argument s c := by simp [argument, harg, hes]
    exact guards_called hg hi hact hout (hok c htarget (id, es) hargument)
  | freed hi => exact hg.same hi (hok _ hi).symm

/-- In a run all of whose steps are orderly, in every state reached Tcp_flag is
set exactly when a pcb exists, and so a connection is opened exactly when there
is none. -/
theorem tcpFlag_guards (ls : List Label) (hok : Steps step Orderly init ls) :
    ∃ s, exec step init ls = some s ∧ (s.tcpFlag = true ↔ Present s) ∧
      ∀ v err, ∃ t, step s (.connect v true err) = some t ∧
        (Present s → t = s) ∧ (¬ Present s → t.pcbs.length = s.pcbs.length + 1) := by
  have hinit : Sound init ∧ Guards init.tcpFlag init.pcbs :=
    ⟨sound_init, ⟨by simp [init], by simp [init]⟩⟩
  have hkeep : ∀ s l, (Sound s ∧ Guards s.tcpFlag s.pcbs) → Orderly s l →
      ∃ t, step s l = some t ∧ Sound t ∧ Guards t.tcpFlag t.pcbs := by
    rintro s l ⟨hs, hg⟩ hok
    obtain ⟨t, ht, heffect⟩ := step_effect hs l
    exact ⟨t, ht, sound_effect hs heffect, guards_effect hg hok heffect⟩
  obtain ⟨s, hs, -, hg⟩ := exec_total hkeep hinit hok
  refine ⟨s, hs, hg.flag, fun v err => ?_⟩
  by_cases hflag : s.tcpFlag = true
  · exact ⟨s, by simp [step, hflag], fun _ => rfl, fun h => absurd (hg.flag.mp hflag) h⟩
  · refine ⟨_, if_neg (by simp [hflag]), fun h => absurd (hg.flag.mpr h) hflag, fun _ => ?_⟩
    simp

/-- What lwIP answers when everything fits. -/
def roomy : Nat → Answer := fun _ => ⟨500, .ok⟩

def open0 : List Label :=
  [.connect .once true .ok, .connected 0 .ok (some .notConnected) (some []) roomy true]

/-- The request is sent on a poll, and the peer closes. -/
def closedByPeer : List Label :=
  open0 ++ [.call 0 (.poll roomy true), .call 0 (.recv [] .ok [] none roomy true),
    .connect .sustained true .ok]

theorem tcpFlag_guards_closedByPeer :
    ∃ s, exec step init closedByPeer = some s ∧ (s.tcpFlag = true ↔ Present s) ∧
      ∀ v err, ∃ t, step s (.connect v true err) = some t ∧
        (Present s → t = s) ∧ (¬ Present s → t.pcbs.length = s.pcbs.length + 1) :=
  tcpFlag_guards closedByPeer (by decide +kernel)

/-- A reply clears the flag while the connection is open, so that a second one
is opened; and after a refused connection none is ever opened. -/
theorem reply_and_refusal_unguarded :
    (∃ s, exec step init (open0 ++ [.call 0 (.recv [lit "ok"] .ok [] none roomy true)]) = some s ∧
      ¬ (s.tcpFlag = true ↔ Present s) ∧
      ∃ t, step s (.connect .once true .ok) = some t ∧ t.pcbs.length = 2) ∧
    ∃ s, exec step init [.connect .once true .ok, .freed 0] = some s ∧
      ¬ (s.tcpFlag = true ↔ Present s) ∧ ∀ v new err, step s (.connect v new err) = some s := by
  have hreply : ∃ s, exec step init
      (open0 ++ [.call 0 (.recv [lit "ok"] .ok [] none roomy true)]) = some s ∧
      s.tcpFlag = false ∧ s.pcbs.map Pcb.live = [true] := by
    decide +kernel
  have hrefused : ∃ s, exec step init [.connect .once true .ok, .freed 0] = some s ∧
      s.tcpFlag = true ∧ s.pcbs.map Pcb.live = [false] := by
    decide +kernel
  have hpresent : ∀ s : State, Present s ↔ true ∈ s.pcbs.map Pcb.live := fun s => by
    simp [Present]
  obtain ⟨s, hs, hflag, hlive⟩ := hreply
  obtain ⟨t, ht, hflag', hlive'⟩ := hrefused
  refine ⟨⟨s, hs, ?_, _, if_neg (by simp [hflag]), ?_⟩, t, ht, ?_, fun v new err => ?_⟩
  · simp [hpresent, hflag, hlive]
  · have hlen := congrArg List.length hlive
    simpa using hlen
  · simp [hpresent, hflag', hlive']
  · simp [step, hflag']

end PopcornFirmware.Standalone.ConnectGuard
