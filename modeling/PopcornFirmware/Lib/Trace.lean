import Mathlib.Control.Monad.Writer
import Mathlib.Data.List.Forall2
import PopcornFirmware.Lib.Runs

namespace PopcornFirmware.Lib.Trace

open PopcornFirmware.Lib.Runs

/-- A computation that may be undefined and records events on its way. -/
abbrev Traced (ε : Type) := WriterT (List ε) Option

/-- A computation that records nothing. -/
def lift {ε α : Type} (x : Option α) : Traced ε α := liftM x

/-- The computation without its record. -/
def erase {ε α : Type} (x : Traced ε α) : Option α := x.run.map Prod.fst

/-- A step and the events so far. -/
def record {ε σ ι : Type} (step : σ → ι → Traced ε σ) (s : σ × List ε) (l : ι) :
    Option (σ × List ε) :=
  (step s.1 l).run.map fun r => (r.1, s.2 ++ r.2)

/-- The computation records events of a kind only. -/
def Emits {ε α : Type} (P : ε → Prop) (x : Traced ε α) : Prop :=
  ∀ a es, x.run = some (a, es) → ∀ e ∈ es, P e

variable {ε α β σ ι : Type}

section Erase

@[simp] theorem erase_pure (a : α) : erase (pure a : Traced ε α) = some a := rfl

@[simp] theorem erase_tell (es : List ε) : erase (tell es : Traced ε PUnit) = some ⟨⟩ := rfl

@[simp] theorem erase_lift (x : Option α) : erase (lift x : Traced ε α) = x := by
  cases x <;> rfl

theorem lift_eq_some {x : Option α} {a : α} {es : List ε} :
    (lift x : Traced ε α).run = some (a, es) ↔ x = some a ∧ es = [] := by
  cases x with
  | none => exact ⟨nofun, fun h => nomatch h.1⟩
  | some b =>
    constructor
    · intro h
      cases h
      exact ⟨rfl, rfl⟩
    · rintro ⟨hb, rfl⟩
      cases hb
      rfl

theorem bind_eq_some {x : Traced ε α} {f : α → Traced ε β} {b : β} {es : List ε} :
    (x >>= f).run = some (b, es) ↔
      ∃ a us vs, x.run = some (a, us) ∧ (f a).run = some (b, vs) ∧ es = us ++ vs := by
  constructor
  · intro h
    obtain ⟨⟨a, us⟩, ha, h⟩ := Option.bind_eq_some_iff.mp h
    obtain ⟨⟨b', vs⟩, hb, heq⟩ := Option.map_eq_some_iff.mp h
    cases heq
    exact ⟨a, us, vs, ha, hb, rfl⟩
  · rintro ⟨a, us, vs, ha, hb, rfl⟩
    have hmap : (f a).run.map (fun r => (r.1, us ++ r.2)) = some (b, us ++ vs) := by
      rw [hb, Option.map_some]
    exact (congrArg (Option.bind · _) ha).trans hmap

theorem bind_pure_eq_some {x : Traced ε α} {f : α → β} {b : β} {es : List ε} :
    (x >>= fun a => pure (f a)).run = some (b, es) ↔ ∃ a, x.run = some (a, es) ∧ b = f a := by
  constructor
  · intro h
    obtain ⟨a, us, vs, ha, hb, rfl⟩ := bind_eq_some.mp h
    cases hb
    exact ⟨a, ha.trans (congrArg (fun us => some (a, us)) (List.append_nil us).symm), rfl⟩
  · rintro ⟨a, ha, rfl⟩
    exact bind_eq_some.mpr ⟨a, es, [], ha, rfl, (List.append_nil es).symm⟩

@[simp] theorem erase_bind (x : Traced ε α) (f : α → Traced ε β) :
    erase (x >>= f) = (erase x).bind fun a => erase (f a) := by
  have hrun : (x >>= f).run =
      x.run.bind fun r => (f r.1).run.map fun q => (q.1, r.2 ++ q.2) := rfl
  unfold erase
  rw [hrun, Option.bind_map, Option.map_bind]
  refine congrArg x.run.bind (funext fun r => ?_)
  rw [Function.comp_apply, Function.comp_apply, Option.map_map]
  rfl

/-- What follows matters for the results that there are. -/
theorem bind_congr_erase {x : Traced ε α} {f f' : α → Traced ε β}
    (h : ∀ a, erase x = some a → f a = f' a) : x >>= f = x >>= f' := by
  have hrun : ∀ f : α → Traced ε β, (x >>= f).run =
      x.run.bind fun r => (f r.1).run.map fun q => (q.1, r.2 ++ q.2) := fun _ => rfl
  refine WriterT.ext _ _ ?_
  rw [hrun, hrun]
  cases hx : x.run with
  | none => rfl
  | some r => rw [Option.bind_some, Option.bind_some, h r.1 (by rw [erase, hx, Option.map_some])]

theorem erase_eq_some {x : Traced ε α} {a : α} :
    erase x = some a ↔ ∃ es, x.run = some (a, es) := by
  simp [erase, Option.map_eq_some_iff]

end Erase

section Emits

variable {P : ε → Prop}

theorem Emits.mono {Q : ε → Prop} {x : Traced ε α} (h : Emits P x) (hPQ : ∀ e, P e → Q e) :
    Emits Q x := fun a es hx e he => hPQ e (h a es hx e he)

theorem emits_pure (a : α) : Emits P (pure a : Traced ε α) := by
  intro b es h
  cases h
  simp

theorem emits_tell {es : List ε} (h : ∀ e ∈ es, P e) : Emits P (tell es : Traced ε PUnit) := by
  intro b es' h'
  cases h'
  exact h

theorem emits_lift (x : Option α) : Emits P (lift x : Traced ε α) := by
  intro b es h
  obtain ⟨a, -, heq⟩ := Option.map_eq_some_iff.mp h
  cases heq
  simp

theorem emits_bind {x : Traced ε α} {f : α → Traced ε β} (hx : Emits P x)
    (hf : ∀ a, Emits P (f a)) : Emits P (x >>= f) := by
  intro b es h e he
  obtain ⟨a, us, vs, ha, hb, rfl⟩ := bind_eq_some.mp h
  exact (List.mem_append.mp he).elim (hx a us ha e) (hf a b vs hb e)

end Emits

section Runs

variable {step : σ → ι → Traced ε σ} {s s' t : σ} {es us : List ε} {ls ls' : List ι} {l : ι}

theorem record_eq_some : record step (s, es) l = some (t, us) ↔
    ∃ vs, (step s l).run = some (t, vs) ∧ us = es ++ vs := by
  simp [record, Prod.ext_iff, eq_comm (a := us)]

/-- The runs that are recorded are those of the steps without their record. -/
theorem exec_record (s : σ) (es : List ε) (ls : List ι) :
    (exec (record step) (s, es) ls).map Prod.fst = exec (fun s l => erase (step s l)) s ls := by
  induction ls generalizing s es with
  | nil => rfl
  | cons l ls ih =>
    rw [exec, exec, record, erase]
    cases (step s l).run with
    | none => rfl
    | some r => exact ih r.1 (es ++ r.2)

/-- Two runs record the same when each pair of steps does and keeps a relation
between their states and the record. -/
theorem exec_record_same {R : List ε → σ → σ → Prop} {same : ι → ι → Prop} {ok : σ → ι → Prop}
    (keep : ∀ es s s' l l' t vs, R es s s' → same l l' → ok s l → (step s l).run = some (t, vs) →
      ∃ t', (step s' l').run = some (t', vs) ∧ R (es ++ vs) t t')
    (hR : R es s s') (hsame : List.Forall₂ same ls ls')
    (hok : Steps (fun s l => erase (step s l)) ok s ls)
    (h : exec (record step) (s, es) ls = some (t, us)) :
    ∃ t', exec (record step) (s', es) ls' = some (t', us) ∧ R us t t' := by
  induction hsame generalizing s s' es with
  | nil =>
    cases h
    exact ⟨s', rfl, hR⟩
  | @cons l l' ls ls' hl _ ih =>
    obtain ⟨⟨u, vs⟩, hu, ht⟩ := Option.bind_eq_some_iff.mp h
    obtain ⟨ws, hstep, rfl⟩ := record_eq_some.mp hu
    obtain ⟨u', hstep', hR'⟩ := keep es s s' l l' u ws hR hl hok.1 hstep
    obtain ⟨t', ht', hR''⟩ := ih hR' (hok.2 u (erase_eq_some.mpr ⟨ws, hstep⟩)) ht
    exact ⟨t', by rw [exec_cons (record_eq_some.mpr ⟨ws, hstep', rfl⟩), ht'], hR''⟩

end Runs

end PopcornFirmware.Lib.Trace
