import PopcornFirmware.Lib.LinkedHeap
import PopcornFirmware.Lib.Pool

namespace PopcornFirmware.Lib.Ownership

open PopcornFirmware.Lib.LinkedHeap PopcornFirmware.Lib.Pool

variable {α β : Type*}

/-- A store to a live cell, or with none its deallocation. -/
def put (h : Heap α) (id : Nat) (c : Option α) : Option (Heap α) :=
  (deref h id).map fun _ => write h id c

theorem put_eq {h : Heap α} {id : Nat} {a : α} (ha : deref h id = some a) (c : Option α) :
    put h id c = some (write h id c) := by
  rw [put, ha, Option.map_some]

section Owned

variable (active : β → Prop) (arg : β → Option Nat) (P : β → α → Prop)

/-- Every active holder points to a live cell that fits it, and no two of them
to the same one. -/
structure Owned (h : Heap α) (bs : List β) : Prop where
  live : ∀ (i : Nat) b, bs[i]? = some b → active b →
    ∃ id a, arg b = some id ∧ deref h id = some a ∧ P b a
  apart : ∀ (i j : Nat) b c, bs[i]? = some b → bs[j]? = some c → active b → active c →
    arg b = arg c → i = j

/-- A cell that has been allocated for a holder is live only as long as the
holder is active and points to it. -/
def Covered (mine : β → List Nat) (h : Heap α) (bs : List β) : Prop :=
  ∀ b ∈ bs, ∀ id ∈ mine b, id < h.length ∧ ∀ a, deref h id = some a → active b ∧ arg b = some id

/-- In two heaps of one length the active holders point to equal cells. -/
structure SameCells (h h' : Heap α) (bs : List β) : Prop where
  length : h'.length = h.length
  cells : ∀ b ∈ bs, active b → ∀ id, arg b = some id → deref h' id = deref h id

variable {active arg P} {mine : β → List Nat} {h h' : Heap α} {bs : List β} {i id : Nat} {a : α}
  {b b' : β} {c : Option α}

theorem Owned.nil : Owned active arg P h [] := ⟨by simp, by simp⟩

/-- The cell that an active holder points to. -/
theorem Owned.cell (ho : Owned active arg P h bs) (hi : bs[i]? = some b) (hb : active b)
    (hid : arg b = some id) : ∃ a, deref h id = some a ∧ P b a := by
  obtain ⟨id', a, hid', ha, hP⟩ := ho.live i b hi hb
  rw [hid] at hid'
  cases hid'
  exact ⟨a, ha, hP⟩

theorem Owned.set (ho : Owned active arg P h bs) (hi : bs[i]? = some b)
    (hsame : ∀ j d id, j ≠ i → bs[j]? = some d → active d → arg d = some id →
      deref h' id = deref h id)
    (hnew : active b' → ∃ id a, arg b' = some id ∧ deref h' id = some a ∧ P b' a)
    (hapart : active b' → ∀ j d, j ≠ i → bs[j]? = some d → active d → arg d ≠ arg b') :
    Owned active arg P h' (bs.set i b') := by
  refine ⟨fun j d hj hd => ?_, fun j k d e hj hk hd he hde => ?_⟩
  · obtain ⟨rfl, rfl⟩ | ⟨hne, hj⟩ := (getElem?_set_iff hi).mp hj
    · exact hnew hd
    · obtain ⟨id, a, hid, ha, hP⟩ := ho.live j d hj hd
      exact ⟨id, a, hid, (hsame j d id hne hj hd hid).trans ha, hP⟩
  · obtain ⟨rfl, rfl⟩ | ⟨hji, hj'⟩ := (getElem?_set_iff hi).mp hj
    · obtain ⟨rfl, -⟩ | ⟨hki, hk'⟩ := (getElem?_set_iff hi).mp hk
      · rfl
      · exact absurd hde.symm (hapart hd k e hki hk' he)
    · obtain ⟨rfl, rfl⟩ | ⟨hki, hk'⟩ := (getElem?_set_iff hi).mp hk
      · exact absurd hde (hapart he j d hji hj' hd)
      · exact ho.apart j k d e hj' hk' hd he hde

/-- A holder stores to its own cell, or deallocates it and is active no more. -/
theorem Owned.put (ho : Owned active arg P h bs) (hi : bs[i]? = some b) (hb : active b)
    (hid : arg b = some id)
    (hnew : active b' → arg b' = some id ∧ ∃ a, c = some a ∧ P b' a) :
    Owned active arg P (write h id c) (bs.set i b') := by
  obtain ⟨a, ha, -⟩ := ho.cell hi hb hid
  refine ho.set hi (fun j d k hne hj hd hk => deref_write_ne ?_) (fun hact => ?_)
    fun hact j d hne hj hd heq => ?_
  · rintro rfl
    exact hne (ho.apart j i d b hj hi hd hb (hk.trans hid.symm))
  · obtain ⟨hid', a', rfl, hP⟩ := hnew hact
    exact ⟨id, a', hid', deref_write_self (deref_lt ha), hP⟩
  · exact hne (ho.apart j i d b hj hi hd hb (heq.trans ((hnew hact).1.trans hid.symm)))

theorem Owned.arg_lt (ho : Owned active arg P h bs) (hi : bs[i]? = some b) (hb : active b)
    (hid : arg b = some id) : id < h.length := by
  obtain ⟨a, ha, -⟩ := ho.cell hi hb hid
  exact deref_lt ha

/-- A holder gets a new cell, or the cell is lost. -/
theorem Owned.alloc (ho : Owned active arg P h bs) (hi : bs[i]? = some b)
    (hnew : active b' → arg b' = some h.length ∧ P b' a) :
    Owned active arg P (h ++ [some a]) (bs.set i b') := by
  refine ho.set hi (fun j d k hne hj hd hk => deref_append_left (ho.arg_lt hj hd hk))
    (fun hact => ?_) fun hact j d hne hj hd heq => ?_
  · obtain ⟨hid, hP⟩ := hnew hact
    exact ⟨h.length, a, hid, deref_append_self, hP⟩
  · exact absurd (ho.arg_lt hj hd (heq.trans (hnew hact).1)) (Nat.lt_irrefl _)

theorem Owned.retire (ho : Owned active arg P h bs) (hi : bs[i]? = some b)
    (hb' : ¬ active b') : Owned active arg P h (bs.set i b') :=
  ho.set hi (fun _ _ _ _ _ _ _ => rfl) (fun hact => absurd hact hb')
    fun hact => absurd hact hb'

theorem Owned.push (ho : Owned active arg P h bs) (hb : ¬ active b) :
    Owned active arg P h (bs ++ [b]) := by
  refine ⟨fun j d hj hd => ?_, fun j k d e hj hk hd he hde => ?_⟩
  · obtain hj | ⟨-, rfl⟩ := getElem?_append_iff.mp hj
    · exact ho.live j d hj hd
    · exact absurd hd hb
  · obtain hj | ⟨-, rfl⟩ := getElem?_append_iff.mp hj
    · obtain hk | ⟨-, rfl⟩ := getElem?_append_iff.mp hk
      · exact ho.apart j k d e hj hk hd he hde
      · exact absurd he hb
    · exact absurd hd hb

/-- A new holder comes with a new cell. -/
theorem Owned.pushAlloc (ho : Owned active arg P h bs) (hid : arg b = some h.length)
    (hP : P b a) : Owned active arg P (h ++ [some a]) (bs ++ [b]) := by
  have hold : ∀ j d, bs[j]? = some d → active d → arg d ≠ arg b := fun j d hj hd heq =>
    absurd (ho.arg_lt hj hd (heq.trans hid)) (Nat.lt_irrefl _)
  refine ⟨fun j d hj hd => ?_, fun j k d e hj hk hd he hde => ?_⟩
  · obtain hj | ⟨-, rfl⟩ := getElem?_append_iff.mp hj
    · obtain ⟨id, a', hid', ha', hP'⟩ := ho.live j d hj hd
      exact ⟨id, a', hid', (deref_append_left (deref_lt ha')).trans ha', hP'⟩
    · exact ⟨h.length, a, hid, deref_append_self, hP⟩
  · obtain hj' | ⟨hjl, rfl⟩ := getElem?_append_iff.mp hj
    · obtain hk' | ⟨-, rfl⟩ := getElem?_append_iff.mp hk
      · exact ho.apart j k d e hj' hk' hd he hde
      · exact absurd hde (hold j d hj' hd)
    · obtain hk' | ⟨hkl, rfl⟩ := getElem?_append_iff.mp hk
      · exact absurd hde.symm (hold k e hk' he)
      · rw [hjl, hkl]

section SameCells

variable {c' : Option α}

theorem SameCells.set (hs : SameCells active arg h h' bs) (hb' : ¬ active b') :
    SameCells active arg h h' (bs.set i b') :=
  ⟨hs.length, forall_mem_set hs.cells fun hact => absurd hact hb'⟩

theorem SameCells.push (hs : SameCells active arg h h' bs) (hb : ¬ active b) :
    SameCells active arg h h' (bs ++ [b]) := by
  refine ⟨hs.length, fun d hd hact => ?_⟩
  obtain hd | hd := List.mem_append.mp hd
  · exact hs.cells d hd hact
  · exact absurd (List.mem_singleton.mp hd ▸ hact) hb

theorem SameCells.put (hs : SameCells active arg h h' bs) (hid : id < h.length)
    (hnew : active b' → arg b' = some id) :
    SameCells active arg (write h id c) (write h' id c) (bs.set i b') := by
  have hself : deref (write h' id c) id = deref (write h id c) id := by
    rw [deref_write_self hid, deref_write_self (hs.length ▸ hid)]
  refine ⟨by rw [length_write, length_write, hs.length], fun d hd hact k hk => ?_⟩
  by_cases hkid : k = id
  · rw [hkid, hself]
  · rw [deref_write_ne hkid, deref_write_ne hkid]
    obtain hd | rfl := List.mem_or_eq_of_mem_set hd
    · exact hs.cells d hd hact k hk
    · exact absurd (Option.some.inj (hk.symm.trans (hnew hact))) hkid

theorem SameCells.alloc (hs : SameCells active arg h h' bs) (ho : Owned active arg P h bs)
    (hnew : active b' → arg b' = some h.length ∧ c' = c) :
    SameCells active arg (h ++ [c]) (h' ++ [c']) (bs.set i b') := by
  refine ⟨by simp [hs.length], fun d hd hact k hk => ?_⟩
  obtain hd | rfl := List.mem_or_eq_of_mem_set hd
  · obtain ⟨j, hj⟩ := List.mem_iff_getElem?.mp hd
    have hlt := ho.arg_lt hj hact hk
    rw [deref_append_left hlt, deref_append_left (hs.length ▸ hlt), hs.cells d hd hact k hk]
  · obtain ⟨hid, rfl⟩ := hnew hact
    obtain rfl := Option.some.inj (hk.symm.trans hid)
    rw [deref_append_self, ← hs.length, deref_append_self]

end SameCells

section Covered

theorem Covered.of_not_active (hc : Covered active arg mine h bs) (hi : bs[i]? = some b)
    (hb : ¬ active b) {k : Nat} (hk : k ∈ mine b) : deref h k = none := by
  cases ha : deref h k with
  | none => rfl
  | some a => exact absurd ((hc b (List.mem_of_getElem? hi) k hk).2 a ha).1 hb

theorem Covered.put (hc : Covered active arg mine h bs) (ho : Owned active arg P h bs)
    (hi : bs[i]? = some b) (hb : active b) (hid : arg b = some id) (hmine : mine b' = mine b)
    (hnew : c = none ∨ (active b' ∧ arg b' = some id)) :
    Covered active arg mine (write h id c) (bs.set i b') := by
  obtain ⟨a, ha, -⟩ := ho.cell hi hb hid
  intro d hd k hk
  rw [length_write]
  obtain rfl | ⟨j, hne, hj⟩ := (mem_set_iff hi).mp hd
  · rw [hmine] at hk
    obtain ⟨hlt, hlive⟩ := hc b (List.mem_of_getElem? hi) k hk
    refine ⟨hlt, fun a' ha' => ?_⟩
    by_cases hkid : k = id
    · subst hkid
      rw [deref_write_self hlt] at ha'
      exact hnew.resolve_left (by simp [ha'])
    · rw [deref_write_ne hkid] at ha'
      have hk' := (hlive a' ha').2
      rw [hid] at hk'
      exact absurd (Option.some.inj hk').symm hkid
  · obtain ⟨hlt, hlive⟩ := hc d (List.mem_of_getElem? hj) k hk
    refine ⟨hlt, fun a' ha' => ?_⟩
    by_cases hkid : k = id
    · subst hkid
      obtain ⟨hdact, hdarg⟩ := hlive a ha
      exact absurd (ho.apart j i d b hj hi hdact hb (hdarg.trans hid.symm)) hne
    · exact hlive a' (by rwa [deref_write_ne hkid] at ha')

theorem Covered.alloc (hc : Covered active arg mine h bs) (hi : bs[i]? = some b)
    (hb : ¬ active b) (hmine : mine b' = mine b ++ [h.length]) (hact : active b')
    (hid : arg b' = some h.length) :
    Covered active arg mine (h ++ [some a]) (bs.set i b') := by
  intro d hd k hk
  have hlen : (h ++ [some a]).length = h.length + 1 := by simp
  rw [hlen]
  obtain rfl | ⟨j, -, hj⟩ := (mem_set_iff hi).mp hd
  · rw [hmine] at hk
    obtain hk | hk := List.mem_append.mp hk
    · have hlt := (hc b (List.mem_of_getElem? hi) k hk).1
      refine ⟨by omega, fun a' ha' => ?_⟩
      rw [deref_append_left hlt, hc.of_not_active hi hb hk] at ha'
      cases ha'
    · rw [List.mem_singleton.mp hk]
      exact ⟨by omega, fun _ _ => ⟨hact, hid⟩⟩
  · obtain ⟨hlt, hlive⟩ := hc d (List.mem_of_getElem? hj) k hk
    exact ⟨by omega, fun a' ha' => hlive a' (by rwa [deref_append_left hlt] at ha')⟩

theorem Covered.retire (hc : Covered active arg mine h bs) (hi : bs[i]? = some b)
    (hb : ¬ active b) (hmine : mine b' = mine b) :
    Covered active arg mine h (bs.set i b') := by
  intro d hd k hk
  obtain rfl | ⟨j, -, hj⟩ := (mem_set_iff hi).mp hd
  · rw [hmine] at hk
    refine ⟨(hc b (List.mem_of_getElem? hi) k hk).1, fun a ha => ?_⟩
    rw [hc.of_not_active hi hb hk] at ha
    cases ha
  · exact hc d (List.mem_of_getElem? hj) k hk

theorem Covered.push (hc : Covered active arg mine h bs) (hb : mine b = []) :
    Covered active arg mine h (bs ++ [b]) := by
  intro d hd k hk
  obtain hd | hd := List.mem_append.mp hd
  · exact hc d hd k hk
  · rw [List.mem_singleton.mp hd, hb] at hk
    cases hk

end Covered

end Owned

end PopcornFirmware.Lib.Ownership
