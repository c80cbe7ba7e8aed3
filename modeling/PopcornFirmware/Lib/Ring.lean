import Mathlib.Data.List.OfFn
import Mathlib.Data.Nat.ModEq

namespace PopcornFirmware.Lib.Ring

variable {α : Type*} {n : Nat}

/-- A store into an array; none when the index lies outside it. -/
def store (buf : Vector α n) (i : Nat) (x : α) : Option (Vector α n) :=
  if h : i < n then some (buf.set i x) else none

/-- Stores into the slots from an index on. -/
def storeAll (buf : Vector α n) (i : Nat) : List α → Option (Vector α n)
  | [] => some buf
  | x :: xs => (store buf i x).bind fun buf => storeAll buf (i + 1) xs

/-- The slots of a circular buffer from get on, up to put, hold the elements of
a list in order. One slot always stays free, so that the two indices tell an
empty buffer from a full one. -/
structure Holds (buf : Vector α n) (get put : Nat) (q : List α) : Prop where
  get_lt : get < n
  length_lt : q.length < n
  put_eq : put = (get + q.length) % n
  slot : ∀ i, i < q.length → buf[(get + i) % n]? = q[i]?

variable {buf : Vector α n} {get put i j : Nat} {x : α} {q r : List α}

theorem mod_ne (hij : i < j) (hj : j < i + n) (k : Nat) : (k + i) % n ≠ (k + j) % n := by
  intro h
  have hzero : (k + j - (k + i)) % n = 0 := Nat.sub_mod_eq_zero_of_mod_eq h.symm
  rw [Nat.add_sub_add_left, Nat.mod_eq_of_lt (by omega)] at hzero
  omega

theorem store_of_lt (h : i < n) (x : α) : store buf i x = some (buf.set i x) := dif_pos h

theorem storeAll_of_le (buf : Vector α n) (h : i + q.length ≤ n) :
    ∃ buf', storeAll buf i q = some buf' ∧ (∀ j < q.length, buf'[i + j]? = q[j]?) ∧
    ∀ j, j < i ∨ i + q.length ≤ j → buf'[j]? = buf[j]? := by
  induction q generalizing buf i with
  | nil => exact ⟨buf, rfl, by simp, fun _ _ => rfl⟩
  | cons x q ih =>
    rw [List.length_cons] at h
    have hi : i < n := by omega
    obtain ⟨buf', hstore, hin, hout⟩ := ih (buf.set i x) (show i + 1 + q.length ≤ n by omega)
    refine ⟨buf', by rw [storeAll, store_of_lt hi, Option.bind_some, hstore], ?_, ?_⟩
    · intro j hj
      cases j with
      | zero => rw [Nat.add_zero, hout i (Or.inl (Nat.lt_succ_self i)),
          Vector.getElem?_set_self hi, List.getElem?_cons_zero]
      | succ j =>
        have hnext := hin j (by simpa using hj)
        rw [List.getElem?_cons_succ, ← hnext, Nat.add_assoc, Nat.add_comm 1 j]
    · intro j hj
      rw [List.length_cons] at hj
      rw [hout j (by omega), Vector.getElem?_set_ne hi (by omega)]

theorem storeAll_le {buf' : Vector α n} (h : storeAll buf i (x :: q) = some buf') :
    i + (x :: q).length ≤ n := by
  induction q generalizing buf i x with
  | nil =>
    obtain ⟨b, hb, -⟩ := Option.bind_eq_some_iff.mp h
    exact (Option.dite_none_right_eq_some.mp hb).1
  | cons y q ih =>
    obtain ⟨b, -, hrest⟩ := Option.bind_eq_some_iff.mp h
    have hle := ih hrest
    simp only [List.length_cons] at hle ⊢
    omega

theorem Holds.put_lt (h : Holds buf get put q) : put < n := by
  rw [h.put_eq]
  exact Nat.mod_lt _ (by have := h.get_lt; omega)

theorem Holds.nil (h : get < n) : Holds buf get get [] where
  get_lt := h
  length_lt := by simp; omega
  put_eq := by simp [Nat.mod_eq_of_lt h]
  slot := by simp

/-- The indices determine how many elements there are. -/
theorem Holds.length_eq (h : Holds buf get put q) : q.length = (put + n - get) % n := by
  have hget := h.get_lt
  have hlen := h.length_lt
  have hput := h.put_eq
  by_cases hwrap : get + q.length < n
  · rw [Nat.mod_eq_of_lt hwrap] at hput
    have hsub : put + n - get = q.length + n := by omega
    rw [hsub, Nat.add_mod_right, Nat.mod_eq_of_lt hlen]
  · rw [Nat.mod_eq_sub_mod (by omega), Nat.mod_eq_of_lt (by omega)] at hput
    have hsub : put + n - get = q.length := by omega
    rw [hsub, Nat.mod_eq_of_lt hlen]

theorem Holds.unique (h : Holds buf get put q) (h' : Holds buf get put r) : q = r := by
  have hlen : q.length = r.length := h.length_eq.trans h'.length_eq.symm
  refine List.ext_getElem? fun i => ?_
  by_cases hi : i < q.length
  · rw [← h.slot i hi, h'.slot i (by omega)]
  · rw [List.getElem?_eq_none (by omega), List.getElem?_eq_none (by omega)]

theorem Holds.nil_iff (h : Holds buf get put q) : q = [] ↔ get = put := by
  constructor
  · rintro rfl
    simpa [Nat.mod_eq_of_lt h.get_lt] using h.put_eq.symm
  · rintro rfl
    exact h.unique (Holds.nil h.get_lt)

theorem Holds.ne (h : Holds buf get put (x :: q)) : get ≠ put := fun heq =>
  List.cons_ne_nil x q (h.nil_iff.mpr heq)

theorem Holds.head (h : Holds buf get put (x :: q)) : buf[get]? = some x := by
  have hslot := h.slot 0 (by simp)
  rwa [Nat.add_zero, Nat.mod_eq_of_lt h.get_lt] at hslot

theorem Holds.pop (h : Holds buf get put (x :: q)) : Holds buf ((get + 1) % n) put q where
  get_lt := Nat.mod_lt _ (by have := h.get_lt; omega)
  length_lt := by
    have := h.length_lt
    simp only [List.length_cons] at this
    omega
  put_eq := by
    rw [h.put_eq, Nat.mod_add_mod, List.length_cons]
    congr 1
    omega
  slot := by
    intro i hi
    have hslot := h.slot (i + 1) (by simpa using hi)
    rw [List.getElem?_cons_succ] at hslot
    rw [← hslot, Nat.mod_add_mod, Nat.add_assoc, Nat.add_comm 1 i]

/-- The slot at put is free. -/
theorem Holds.set (h : Holds buf get put q) (x : α) : Holds (buf.set put x h.put_lt) get put q where
  get_lt := h.get_lt
  length_lt := h.length_lt
  put_eq := h.put_eq
  slot := by
    intro i hi
    have hne : put ≠ (get + i) % n := by
      rw [h.put_eq]
      exact (mod_ne hi (by have := h.length_lt; omega) get).symm
    rw [Vector.getElem?_set_ne h.put_lt hne, h.slot i hi]

theorem Holds.advance (h : Holds buf get put q) (hroom : q.length + 1 < n)
    (hx : buf[put]? = some x) : Holds buf get ((put + 1) % n) (q ++ [x]) where
  get_lt := h.get_lt
  length_lt := by simpa using hroom
  put_eq := by
    rw [h.put_eq, Nat.mod_add_mod, List.length_append]
    congr 1
  slot := by
    intro i hi
    rw [List.length_append, List.length_singleton] at hi
    obtain hi | rfl := Nat.lt_succ_iff_lt_or_eq.mp hi
    · rw [h.slot i hi, List.getElem?_append_left hi]
    · rw [← h.put_eq, hx]
      simp

theorem Holds.push (h : Holds buf get put q) (hroom : q.length + 1 < n) (x : α) :
    Holds (buf.set put x h.put_lt) get ((put + 1) % n) (q ++ [x]) :=
  (h.set x).advance hroom (Vector.getElem?_set_self h.put_lt)

/-- With one slot left, the next index would be that of an empty buffer. -/
theorem Holds.full_iff (h : Holds buf get put q) : q.length + 1 = n ↔ (put + 1) % n = get := by
  have hget := h.get_lt
  have hlen := h.length_lt
  rw [h.put_eq, Nat.mod_add_mod, Nat.add_assoc]
  constructor
  · intro hfull
    rw [hfull, Nat.add_mod_right, Nat.mod_eq_of_lt hget]
  · intro hmod
    by_contra hne
    refine mod_ne (n := n) (i := 0) (j := q.length + 1) (by omega) (by omega) get ?_
    rw [Nat.add_zero, Nat.mod_eq_of_lt hget, hmod]

theorem Holds.prefix (h : Holds buf get put (q ++ r)) :
    Holds buf get ((get + q.length) % n) q where
  get_lt := h.get_lt
  length_lt := by
    have := h.length_lt
    simp only [List.length_append] at this
    omega
  put_eq := rfl
  slot := by
    intro i hi
    rw [h.slot i (by simp; omega), List.getElem?_append_left hi]

/-- Whatever an array holds, two indices into it are a circular buffer of
something. -/
theorem exists_holds (buf : Vector α n) (hget : get < n) (hput : put < n) :
    ∃ q, Holds buf get put q := by
  have hpos : 0 < n := by omega
  have hlen : (put + n - get) % n < n := Nat.mod_lt _ hpos
  have hslot : ∀ i, (get + i) % n < n := fun i => Nat.mod_lt _ hpos
  refine ⟨List.ofFn fun i : Fin ((put + n - get) % n) => buf.get ⟨(get + i) % n, hslot i⟩,
    hget, by simpa using hlen, ?_, ?_⟩
  · rw [List.length_ofFn, Nat.add_mod_mod, ← Nat.add_sub_assoc (by omega), Nat.add_sub_cancel_left,
      Nat.add_mod_right, Nat.mod_eq_of_lt hput]
  · intro i hi
    rw [List.length_ofFn] at hi
    rw [List.getElem?_ofFn, dif_pos hi, Vector.getElem?_eq_getElem (hslot i)]
    rfl

end PopcornFirmware.Lib.Ring
