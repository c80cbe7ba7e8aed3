import Mathlib.Logic.Basic

namespace PopcornFirmware.Lib.Runs

variable {σ ι : Type*} (step : σ → ι → Option σ)

/-- The state after a list of labelled steps; none as soon as one step has
no successor. -/
def exec : σ → List ι → Option σ
  | s, [] => some s
  | s, l :: ls => (step s l).bind fun t => exec t ls

/-- Every step of the run meets a condition on its label and the state it
is taken in. -/
def Steps (ok : σ → ι → Prop) : σ → List ι → Prop
  | _, [] => True
  | s, l :: ls => ok s l ∧ ∀ t, step s l = some t → Steps ok t ls

instance Steps.instDecidable (ok : σ → ι → Prop) [∀ s l, Decidable (ok s l)] :
    ∀ (s : σ) (ls : List ι), Decidable (Steps step ok s ls)
  | _, [] => inferInstanceAs (Decidable True)
  | s, l :: ls =>
    match h : step s l with
    | none => decidable_of_iff (ok s l) (by simp [Steps, h])
    | some t =>
      haveI := Steps.instDecidable ok t ls
      decidable_of_iff (ok s l ∧ Steps step ok t ls) (by simp [Steps, h])

variable {step} {ok : σ → ι → Prop} {P : σ → Prop} {s t : σ} {l : ι} {ls : List ι}

instance exec.instDecidableExists (step : σ → ι → Option σ) (s : σ) (ls : List ι)
    (p : σ → Prop) [DecidablePred p] : Decidable (∃ t, exec step s ls = some t ∧ p t) :=
  match h : exec step s ls with
  | none => .isFalse (by simp)
  | some t => decidable_of_iff (p t) (by simp)

@[simp] theorem exec_nil : exec step s [] = some s := rfl

theorem exec_cons (h : step s l = some t) : exec step s (l :: ls) = exec step t ls := by
  simp [exec, h]

theorem exec_append {ls' : List ι} (h : exec step s ls = some t) :
    exec step s (ls ++ ls') = exec step t ls' := by
  induction ls generalizing s with
  | nil =>
    cases h
    rfl
  | cons l ls ih =>
    obtain ⟨u, hu, ht⟩ := Option.bind_eq_some_iff.mp h
    rw [List.cons_append, exec_cons hu, ih ht]

theorem exec_concat (h : exec step s ls = some t) : exec step s (ls ++ [l]) = step t l := by
  rw [exec_append h]
  exact Option.bind_fun_some (step t l)

/-- An invariant of the steps that meet the condition holds at the end of
every run made of such steps. -/
theorem exec_invariant (keep : ∀ s l t, P s → ok s l → step s l = some t → P t)
    (hs : P s) (hok : Steps step ok s ls) (h : exec step s ls = some t) : P t := by
  induction ls generalizing s with
  | nil =>
    cases h
    exact hs
  | cons l ls ih =>
    obtain ⟨u, hu, ht⟩ := Option.bind_eq_some_iff.mp h
    exact ih (keep s l u hs hok.1 hu) (hok.2 u hu) ht

/-- An invariant that also promises a successor makes every run of such
steps go through to its end. -/
theorem exec_total (keep : ∀ s l, P s → ok s l → ∃ t, step s l = some t ∧ P t)
    (hs : P s) (hok : Steps step ok s ls) : ∃ t, exec step s ls = some t ∧ P t := by
  induction ls generalizing s with
  | nil => exact ⟨s, rfl, hs⟩
  | cons l ls ih =>
    obtain ⟨u, hu, hpu⟩ := keep s l hs hok.1
    obtain ⟨t, ht, hpt⟩ := ih hpu (hok.2 u hu)
    exact ⟨t, by rw [exec_cons hu, ht], hpt⟩

/-- Labels that meet the condition in every state. -/
theorem steps_of_forall (h : ∀ l ∈ ls, ∀ s, ok s l) (s : σ) : Steps step ok s ls := by
  induction ls generalizing s with
  | nil => trivial
  | cons l ls ih =>
    obtain ⟨hl, hls⟩ := List.forall_mem_cons.mp h
    exact ⟨hl s, fun t _ => ih hls t⟩

theorem steps_true (s : σ) (ls : List ι) : Steps step (fun _ _ => True) s ls :=
  steps_of_forall (fun _ _ _ => trivial) s

theorem steps_and {ok' : σ → ι → Prop} (h : Steps step ok s ls) (h' : Steps step ok' s ls) :
    Steps step (fun s l => ok s l ∧ ok' s l) s ls := by
  induction ls generalizing s with
  | nil => trivial
  | cons l ls ih => exact ⟨⟨h.1, h'.1⟩, fun t ht => ih (h.2 t ht) (h'.2 t ht)⟩

theorem steps_congr {ok' : σ → ι → Prop} (h : ∀ s l, ok s l ↔ ok' s l) :
    Steps step ok s ls ↔ Steps step ok' s ls := by
  induction ls generalizing s with
  | nil => exact Iff.rfl
  | cons l ls ih => exact and_congr (h s l) (forall_congr' fun t => imp_congr_right fun _ => ih)

/-- Two conditions that agree where an invariant holds, and keep it, agree on
runs. -/
theorem steps_iff_of_invariant {ok' : σ → ι → Prop} (h : ∀ s l, P s → (ok s l ↔ ok' s l))
    (keep : ∀ s l t, P s → ok s l → step s l = some t → P t) (hs : P s) :
    Steps step ok s ls ↔ Steps step ok' s ls := by
  induction ls generalizing s with
  | nil => exact Iff.rfl
  | cons l ls ih =>
    have hrest : ok s l → ((∀ t, step s l = some t → Steps step ok t ls) ↔
        ∀ t, step s l = some t → Steps step ok' t ls) := fun hok =>
      forall_congr' fun t => forall_congr' fun ht => ih (keep s l t hs hok ht)
    exact (and_congr_right hrest).trans (and_congr_left' (h s l hs))

/-- An invariant of all steps holds at the end of every run. -/
theorem exec_keeps (keep : ∀ s l t, P s → step s l = some t → P t) (hs : P s)
    (h : exec step s ls = some t) : P t :=
  exec_invariant (fun s l t hP _ hstep => keep s l t hP hstep) hs (steps_true s ls) h

theorem exec_goes_on (keep : ∀ s l, P s → ∃ t, step s l = some t ∧ P t) (hs : P s)
    (ls : List ι) : ∃ t, exec step s ls = some t ∧ P t :=
  exec_total (fun s l hP _ => keep s l hP) hs (steps_true s ls)

end PopcornFirmware.Lib.Runs
