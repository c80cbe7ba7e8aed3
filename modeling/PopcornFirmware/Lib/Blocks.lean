import Mathlib.Data.List.Chain
import Mathlib.Data.List.Perm.Basic
import Mathlib.Logic.Function.Basic

namespace PopcornFirmware.Lib.Blocks

/-- A block of a memory that is cut into blocks. -/
structure Block where
  size : Nat
  used : Bool
  deriving DecidableEq

def total : List Block → Nat
  | [] => 0
  | b :: bs => b.size + total bs

@[simp] theorem total_nil : total [] = 0 := rfl

@[simp] theorem total_cons (b : Block) (bs : List Block) : total (b :: bs) = b.size + total bs :=
  rfl

@[simp] theorem total_append (l r : List Block) : total (l ++ r) = total l + total r := by
  induction l with
  | nil => rw [List.nil_append, total_nil, Nat.zero_add]
  | cons b l ih => rw [List.cons_append, total_cons, total_cons, ih, Nat.add_assoc]

theorem dvd_total {n : Nat} {bs : List Block} (h : ∀ b ∈ bs, n ∣ b.size) : n ∣ total bs := by
  induction bs with
  | nil => exact Nat.dvd_zero n
  | cons b bs ih =>
    obtain ⟨hb, hbs⟩ := List.forall_mem_cons.mp h
    exact Nat.dvd_add hb (ih hbs)

theorem forall_replace {P : Block → Prop} {pre old new rest : List Block}
    (h : ∀ b ∈ pre ++ old ++ rest, P b) (hnew : ∀ b ∈ new, P b) :
    ∀ b ∈ pre ++ new ++ rest, P b := by
  intro b hb
  simp only [List.mem_append] at h hb
  obtain (hb | hb) | hb := hb
  · exact h b (.inl (.inl hb))
  · exact hnew b hb
  · exact h b (.inr hb)

/-- No two free blocks lie side by side. -/
def Coalesced (bs : List Block) : Prop := bs.IsChain fun b c => b.used = true ∨ c.used = true

/-- Where the first free block begins, or else where the blocks end. -/
def firstFree : Nat → List Block → Nat
  | p, [] => p
  | p, b :: bs => if b.used then firstFree (p + b.size) bs else p

/-- The used blocks, each with the place where it begins. -/
def live : Nat → List Block → List (Nat × Nat)
  | _, [] => []
  | p, b :: bs => if b.used then (p, b.size) :: live (p + b.size) bs else live (p + b.size) bs

variable {p : Nat} {b c : Block} {l r : List Block}

theorem live_append : live p (l ++ r) = live p l ++ live (p + total l) r := by
  induction l generalizing p with
  | nil => rfl
  | cons b l ih =>
    rw [List.cons_append, live, live, total_cons, ih, Nat.add_assoc]
    split <;> rfl

theorem live_free (hb : b.used = false) : live p (b :: r) = live (p + b.size) r := by
  rw [live, if_neg (by rw [hb]; decide)]

theorem live_used (hb : b.used = true) :
    live p (b :: r) = (p, b.size) :: live (p + b.size) r := by
  rw [live, if_pos hb]

theorem length_le_total (h : ∀ b ∈ l, 0 < b.size) : l.length ≤ total l := by
  induction l with
  | nil => exact le_refl 0
  | cons b l ih =>
    obtain ⟨hb, hl⟩ := List.forall_mem_cons.mp h
    rw [List.length_cons, total_cons, Nat.add_comm]
    exact Nat.add_le_add hb (ih hl)

section Live

theorem live_bounds {x : Nat × Nat} (hx : x ∈ live p l) : p ≤ x.1 ∧ x.1 + x.2 ≤ p + total l := by
  induction l generalizing p with
  | nil => contradiction
  | cons b l ih =>
    rw [total_cons]
    by_cases hb : b.used = true
    · rw [live_used hb] at hx
      cases hx with
      | head => exact ⟨le_refl p, by dsimp only; omega⟩
      | tail _ hx =>
        have := ih hx
        omega
    · rw [live_free (by simpa using hb)] at hx
      have := ih hx
      omega

theorem live_size {P : Nat → Prop} (h : ∀ b ∈ l, P b.size) {x : Nat × Nat} (hx : x ∈ live p l) :
    P x.2 := by
  induction l generalizing p with
  | nil => contradiction
  | cons b l ih =>
    obtain ⟨hb, hl⟩ := List.forall_mem_cons.mp h
    by_cases hu : b.used = true
    · rw [live_used hu] at hx
      cases hx with
      | head => exact hb
      | tail _ hx => exact ih hl hx
    · rw [live_free (by simpa using hu)] at hx
      exact ih hl hx

theorem dvd_live {n : Nat} (hp : n ∣ p) (h : ∀ b ∈ l, n ∣ b.size) {x : Nat × Nat}
    (hx : x ∈ live p l) : n ∣ x.1 := by
  induction l generalizing p with
  | nil => contradiction
  | cons b l ih =>
    obtain ⟨hb, hl⟩ := List.forall_mem_cons.mp h
    by_cases hu : b.used = true
    · rw [live_used hu] at hx
      cases hx with
      | head => exact hp
      | tail _ hx => exact ih (Nat.dvd_add hp hb) hl hx
    · rw [live_free (by simpa using hu)] at hx
      exact ih (Nat.dvd_add hp hb) hl hx

/-- A used block of the list, and what lies around it. -/
theorem exists_block_of_live {x : Nat × Nat} (hx : x ∈ live p l) :
    ∃ pre b post, l = pre ++ b :: post ∧ b.used = true ∧ x = (p + total pre, b.size) := by
  induction l generalizing p with
  | nil => contradiction
  | cons b l ih =>
    have hrest : x ∈ live (p + b.size) l → ∃ pre c post, b :: l = pre ++ c :: post ∧
        c.used = true ∧ x = (p + total pre, c.size) := by
      intro hx
      obtain ⟨pre, c, post, rfl, hc, rfl⟩ := ih hx
      exact ⟨b :: pre, c, post, rfl, hc, by rw [total_cons, Nat.add_assoc]⟩
    by_cases hb : b.used = true
    · rw [live_used hb] at hx
      cases hx with
      | head => exact ⟨[], b, l, rfl, hb, rfl⟩
      | tail _ hx => exact hrest hx
    · rw [live_free (by simpa using hb)] at hx
      exact hrest hx

theorem live_disjoint {x y : Nat × Nat} (hx : x ∈ live p l) (hy : y ∈ live p l)
    (hxy : x.1 < y.1) : x.1 + x.2 ≤ y.1 := by
  obtain ⟨pre, b, post, rfl, hb, rfl⟩ := exists_block_of_live hx
  rw [live_append, live_used hb, List.mem_append, List.mem_cons] at hy
  obtain hy | rfl | hy := hy
  · have := (live_bounds hy).2
    dsimp only at hxy
    omega
  · exact absurd hxy (lt_irrefl _)
  · exact (live_bounds hy).1

/-- The used blocks lie outside a free one. -/
theorem live_apart {pre post : List Block} (hb : b.used = false) {x : Nat × Nat}
    (hx : x ∈ live p (pre ++ b :: post)) :
    x.1 + x.2 ≤ p + total pre ∨ p + total pre + b.size ≤ x.1 := by
  rw [live_append, live_free hb, List.mem_append] at hx
  obtain hx | hx := hx
  · exact .inl (live_bounds hx).2
  · exact .inr (live_bounds hx).1

/-- Room between the used blocks is room in one free block. -/
theorem exists_fit {a n : Nat} (hc : Coalesced l) (hn : 0 < n) (ha : p ≤ a)
    (han : a + n ≤ p + total l) (h : ∀ x ∈ live p l, x.1 + x.2 ≤ a ∨ a + n ≤ x.1) :
    ∃ pre b post, l = pre ++ b :: post ∧ b.used = false ∧ n ≤ b.size ∧ p + total pre ≤ a := by
  induction l generalizing p with
  | nil =>
    rw [total_nil] at han
    omega
  | cons b l ih =>
    have hrest : p + b.size ≤ a → (∀ x ∈ live (p + b.size) l, x.1 + x.2 ≤ a ∨ a + n ≤ x.1) →
        ∃ pre c post, b :: l = pre ++ c :: post ∧ c.used = false ∧ n ≤ c.size ∧
          p + total pre ≤ a := by
      intro hba hl
      rw [total_cons, ← Nat.add_assoc] at han
      obtain ⟨pre, c, post, rfl, hc, hfit, hle⟩ := ih hc.tail hba han hl
      exact ⟨b :: pre, c, post, rfl, hc, hfit, by rwa [total_cons, ← Nat.add_assoc]⟩
    by_cases hb : b.used = true
    · rw [live_used hb, List.forall_mem_cons] at h
      obtain ⟨hfirst, hl⟩ := h
      apply hrest _ hl
      dsimp only at hfirst
      omega
    · rw [Bool.not_eq_true] at hb
      rw [live_free hb] at h
      by_cases hfit : a + n ≤ p + b.size
      · exact ⟨[], b, l, rfl, hb, by omega, ha⟩
      · apply hrest _ h
        cases l with
        | nil =>
          rw [total_cons, total_nil] at han
          omega
        | cons c l =>
          have hcu : c.used = true := by
            simpa [hb] using (List.isChain_cons_cons.mp hc).1
          rw [live_used hcu] at h
          have := h _ List.mem_cons_self
          dsimp only at this
          omega

theorem eq_singleton_of_live {n : Nat} (hc : Coalesced l) (hlive : live p l = [])
    (htotal : total l = n) (hn : 0 < n) : l = [⟨n, false⟩] := by
  have hfree : ∀ b bs, live p (b :: bs) = [] → b.used = false ∧ live (p + b.size) bs = [] := by
    intro b bs h
    cases hb : b.used with
    | true =>
      rw [live_used hb] at h
      contradiction
    | false => exact ⟨rfl, by rwa [live_free hb] at h⟩
  match l with
  | [] =>
    rw [total_nil] at htotal
    omega
  | [b] =>
    rw [total_cons, total_nil, Nat.add_zero] at htotal
    rw [← htotal, ← (hfree _ _ hlive).1]
  | b :: c :: l =>
    obtain ⟨hb, hrest⟩ := hfree _ _ hlive
    have hcu : c.used = true := by simpa [hb] using (List.isChain_cons_cons.mp hc).1
    rw [live_used hcu] at hrest
    contradiction

end Live

section Border

/-- Where a block begins, or the last one ends. -/
def Border (bs : List Block) (x : Nat) : Prop := ∃ l r, bs = l ++ r ∧ x = total l

theorem border_append (l r : List Block) : Border (l ++ r) (total l) := ⟨l, r, rfl, rfl⟩

theorem border_here (pre : List Block) (b : Block) (post : List Block) :
    Border (pre ++ b :: post) (total pre) := border_append pre (b :: post)

theorem border_next (pre : List Block) (b : Block) (post : List Block) :
    Border (pre ++ b :: post) (total pre + b.size) := by
  have := border_append (pre ++ [b]) post
  rwa [total_append, total_cons, total_nil, Nat.add_zero, List.append_assoc] at this

theorem Border.congr {pre post : List Block} {x : Nat} (h : Border (pre ++ b :: post) x)
    (hsize : c.size = b.size) : Border (pre ++ c :: post) x := by
  obtain ⟨l, r, hsplit, rfl⟩ := h
  obtain ⟨k, rfl, hk⟩ | ⟨k, rfl, -⟩ := List.append_eq_append_iff.mp hsplit
  · cases k with
    | nil =>
      rw [List.append_nil]
      exact border_here pre c post
    | cons d k =>
      obtain ⟨rfl, rfl⟩ := List.cons.inj hk
      refine ⟨pre ++ c :: k, r, by simp, ?_⟩
      rw [total_append, total_append, total_cons, total_cons, hsize]
  · rw [List.append_assoc]
    exact border_append l _

/-- No block has a border inside. -/
theorem Border.apart {pre post : List Block} {x : Nat} (h : Border (pre ++ b :: post) x) :
    x ≤ total pre ∨ total pre + b.size ≤ x := by
  obtain ⟨l, r, hsplit, rfl⟩ := h
  obtain ⟨k, rfl, hk⟩ | ⟨k, rfl, -⟩ := List.append_eq_append_iff.mp hsplit
  · cases k with
    | nil => exact .inl (by rw [List.append_nil])
    | cons c k =>
      obtain ⟨rfl, -⟩ := List.cons.inj hk
      refine .inr ?_
      rw [total_append, total_cons]
      omega
  · refine .inl ?_
    rw [total_append]
    exact Nat.le_add_right _ _

theorem Border.apart_live {x : Nat} {y : Nat × Nat} (h : Border l x) (hy : y ∈ live 0 l) :
    x ≤ y.1 ∨ y.1 + y.2 ≤ x := by
  obtain ⟨pre, b, post, rfl, -, rfl⟩ := exists_block_of_live hy
  rw [Nat.zero_add]
  exact h.apart

end Border

section FirstFree

theorem le_firstFree : p ≤ firstFree p l := by
  induction l generalizing p with
  | nil => exact le_refl p
  | cons b l ih =>
    rw [firstFree]
    split
    · exact (Nat.le_add_right _ _).trans ih
    · exact le_refl p

theorem firstFree_split : ∃ pre post, l = pre ++ post ∧ (∀ b ∈ pre, b.used = true) ∧
    firstFree p l = p + total pre := by
  induction l generalizing p with
  | nil => exact ⟨[], [], rfl, by simp, rfl⟩
  | cons b l ih =>
    by_cases hb : b.used = true
    · obtain ⟨pre, post, rfl, hpre, hfirst⟩ := ih (p := p + b.size)
      refine ⟨b :: pre, post, rfl, List.forall_mem_cons.mpr ⟨hb, hpre⟩, ?_⟩
      rw [firstFree, if_pos hb, hfirst, total_cons, Nat.add_assoc]
    · exact ⟨[], b :: l, rfl, by simp, by rw [firstFree, if_neg hb, total_nil, Nat.add_zero]⟩

theorem firstFree_append_used (h : ∀ b ∈ l, b.used = true) :
    firstFree p (l ++ r) = firstFree (p + total l) r := by
  induction l generalizing p with
  | nil => rfl
  | cons b l ih =>
    obtain ⟨hb, hl⟩ := List.forall_mem_cons.mp h
    rw [List.cons_append, firstFree, if_pos hb, ih hl, total_cons, Nat.add_assoc]

theorem firstFree_append_free (h : ¬ ∀ b ∈ l, b.used = true) :
    firstFree p (l ++ r) = firstFree p l := by
  induction l generalizing p with
  | nil => exact absurd (by simp) h
  | cons b l ih =>
    rw [List.cons_append, firstFree, firstFree]
    split
    · rename_i hb
      apply ih
      intro hl
      exact h (List.forall_mem_cons.mpr ⟨hb, hl⟩)
    · rfl

theorem firstFree_lt (hpos : ∀ b ∈ l, 0 < b.size) (h : ¬ ∀ b ∈ l, b.used = true) :
    firstFree p l < p + total l := by
  induction l generalizing p with
  | nil => exact absurd (by simp) h
  | cons b l ih =>
    obtain ⟨hb, hl⟩ := List.forall_mem_cons.mp hpos
    rw [firstFree, total_cons]
    split
    · rename_i hu
      have := ih (p := p + b.size) hl fun hall => h (List.forall_mem_cons.mpr ⟨hu, hall⟩)
      omega
    · omega

/-- What comes after a free block does not matter. -/
theorem firstFree_congr {r' : List Block} (hb : b.used = false) (hc : c.used = false) :
    firstFree p (l ++ b :: r) = firstFree p (l ++ c :: r') := by
  induction l generalizing p with
  | nil => simp [firstFree, hb, hc]
  | cons a l ih => rw [List.cons_append, List.cons_append, firstFree, firstFree, ih]

theorem firstFree_le (hb : b.used = false) : firstFree p (l ++ b :: r) ≤ p + total l := by
  induction l generalizing p with
  | nil => simp [firstFree, hb]
  | cons a l ih =>
    rw [List.cons_append, firstFree, total_cons]
    split
    · exact ih.trans (Nat.add_assoc _ _ _).le
    · exact Nat.le_add_right _ _

/-- A used block becomes free. -/
theorem firstFree_release {t : List Block} (hpos : ∀ x ∈ l, 0 < x.size) (hb : b.used = true)
    (hsize : 0 < b.size) (hc : c.used = false) :
    (if p + total l < firstFree p (l ++ b :: r) then p + total l else firstFree p (l ++ b :: r)) =
      firstFree p (l ++ c :: t) := by
  by_cases hall : ∀ x ∈ l, x.used = true
  · have hle : p + total l + b.size ≤ firstFree (p + total l + b.size) r := le_firstFree
    have hc' : firstFree (p + total l) (c :: t) = p + total l := by simp [firstFree, hc]
    rw [firstFree_append_used hall, firstFree_append_used hall, hc', firstFree, if_pos hb,
      if_pos (by omega)]
  · have hlt := firstFree_lt (p := p) hpos hall
    rw [firstFree_append_free hall, firstFree_append_free hall, if_neg (by omega)]

end FirstFree

section Coalesced

theorem Coalesced.congr (h : Coalesced (l ++ b :: r)) (hused : c.used = true ∨ c.used = b.used) :
    Coalesced (l ++ c :: r) := by
  obtain ⟨hl, hr, hcross⟩ := List.isChain_append.mp h
  refine List.isChain_append.mpr ⟨hl, ?_, ?_⟩
  · cases r with
    | nil => exact List.isChain_singleton c
    | cons d r =>
      obtain ⟨hbd, hdr⟩ := List.isChain_cons_cons.mp hr
      refine List.isChain_cons_cons.mpr ⟨?_, hdr⟩
      obtain hu | hu := hused
      · exact .inl hu
      · rwa [hu]
  · intro x hx y hy
    obtain rfl : c = y := by simpa using hy
    obtain hu | hu := hused
    · exact .inr hu
    · rw [hu]
      exact hcross x hx b (by simp)

theorem Coalesced.left (h : Coalesced (l ++ r)) : Coalesced l := (List.isChain_append.mp h).1

theorem Coalesced.right (h : Coalesced (l ++ r)) : Coalesced r := (List.isChain_append.mp h).2.1

theorem Coalesced.cons (h : Coalesced r) (hb : ∀ x ∈ r.head?, b.used = true ∨ x.used = true) :
    Coalesced (b :: r) := by
  cases r with
  | nil => exact List.isChain_singleton b
  | cons x r => exact List.isChain_cons_cons.mpr ⟨hb x (by simp), h⟩

theorem Coalesced.append (hl : Coalesced l) (hr : Coalesced r)
    (h : ∀ x ∈ l.getLast?, ∀ y ∈ r.head?, x.used = true ∨ y.used = true) : Coalesced (l ++ r) :=
  List.isChain_append.mpr ⟨hl, hr, h⟩

theorem Coalesced.join {a : Block} (hl : Coalesced (l ++ [a])) (hr : Coalesced (b :: r))
    (ha : c.used = a.used) (hb : c.used = b.used) : Coalesced (l ++ c :: r) :=
  List.isChain_split.mpr ⟨hl.congr (.inr ha), Coalesced.congr (l := []) hr (.inr hb)⟩

end Coalesced

section Headers

variable {α : Type*} (next prev : α → Nat) (used : α → Bool)

/-- Every block begins with a header that tells where the blocks after it and
before it begin, and whether it is used. -/
def Linked (ram : Nat → α) : Nat → Nat → List Block → Prop
  | _, _, [] => True
  | q, p, b :: bs => next (ram p) = p + b.size ∧ prev (ram p) = q ∧ used (ram p) = b.used ∧
      Linked ram p (p + b.size) bs

/-- Where the last block begins. -/
def lastAt : Nat → Nat → List Block → Nat
  | q, _, [] => q
  | _, p, b :: bs => lastAt p (p + b.size) bs

variable {next prev used} {ram ram' : Nat → α} {p q : Nat} {l r bs pre old new rest : List Block}

@[simp] theorem lastAt_concat (b : Block) : lastAt q p (l ++ [b]) = p + total l := by
  induction l generalizing q p with
  | nil => rfl
  | cons a l ih =>
    rw [List.cons_append, lastAt, ih, total_cons, Nat.add_assoc]

theorem linked_append : Linked next prev used ram q p (l ++ r) ↔
    Linked next prev used ram q p l ∧
      Linked next prev used ram (lastAt q p l) (p + total l) r := by
  induction l generalizing q p with
  | nil => simp [Linked, lastAt]
  | cons b l ih =>
    simp only [List.cons_append, Linked, ih, lastAt, total_cons, Nat.add_assoc, and_assoc]

/-- The headers are all that counts. -/
theorem Linked.congr (h : Linked next prev used ram q p bs) (hpos : ∀ b ∈ bs, 0 < b.size)
    (hsame : ∀ x, p ≤ x → x < p + total bs → ram' x = ram x) :
    Linked next prev used ram' q p bs := by
  induction bs generalizing q p with
  | nil => trivial
  | cons b bs ih =>
    obtain ⟨hb, hbs⟩ := List.forall_mem_cons.mp hpos
    rw [total_cons] at hsame
    obtain ⟨hnext, hprev, hused, hrest⟩ := h
    have hhead : ram' p = ram p := hsame p (le_refl p) (by omega)
    refine ⟨by rw [hhead, hnext], by rw [hhead, hprev], by rw [hhead, hused], ?_⟩
    exact ih hrest hbs fun x hx hlt => hsame x (by omega) (by omega)

/-- Some blocks in a row make way for others. The header after them has to hear
of it. -/
theorem Linked.replace (h : Linked next prev used ram q p (pre ++ old ++ rest))
    (hpre : ∀ b ∈ pre, 0 < b.size) (hrest : ∀ b ∈ rest, 0 < b.size)
    (htotal : total new = total old) (hbefore : ∀ x < p + total pre, ram' x = ram x)
    (hnew : Linked next prev used ram' (lastAt q p pre) (p + total pre) new)
    (hnext : rest ≠ [] → next (ram' (p + total pre + total old)) =
        next (ram (p + total pre + total old)) ∧
      prev (ram' (p + total pre + total old)) = lastAt (lastAt q p pre) (p + total pre) new ∧
      used (ram' (p + total pre + total old)) = used (ram (p + total pre + total old)))
    (hafter : ∀ x, p + total pre + total old < x → ram' x = ram x) :
    Linked next prev used ram' q p (pre ++ new ++ rest) := by
  rw [List.append_assoc, linked_append, linked_append] at h
  obtain ⟨hl, -, hr⟩ := h
  rw [List.append_assoc, linked_append, linked_append]
  refine ⟨hl.congr hpre fun x _ hlt => hbefore x hlt, hnew, ?_⟩
  cases rest with
  | nil => trivial
  | cons c cs =>
    obtain ⟨hc, hcs⟩ := List.forall_mem_cons.mp hrest
    obtain ⟨hn, hp, hu⟩ := hnext (List.cons_ne_nil _ _)
    obtain ⟨hcn, -, hcu, hcr⟩ := hr
    rw [htotal]
    exact ⟨hn.trans hcn, hp, hu.trans hcu, hcr.congr hcs fun x hx _ => hafter x (by omega)⟩

/-- The headers tell what the blocks are. -/
theorem Linked.ext {cs : List Block} (h : Linked next prev used ram q p bs)
    (h' : Linked next prev used ram q p cs) (htotal : total bs = total cs)
    (hpos : ∀ b ∈ bs, 0 < b.size) (hpos' : ∀ b ∈ cs, 0 < b.size) : bs = cs := by
  induction bs generalizing q p cs with
  | nil =>
    cases cs with
    | nil => rfl
    | cons c cs =>
      have := hpos' c (by simp)
      rw [total_nil, total_cons] at htotal
      omega
  | cons b bs ih =>
    cases cs with
    | nil =>
      have := hpos b (by simp)
      rw [total_nil, total_cons] at htotal
      omega
    | cons c cs =>
      obtain ⟨hn, -, hu, hr⟩ := h
      obtain ⟨hn', -, hu', hr'⟩ := h'
      have hsize : b.size = c.size := by omega
      have hbc : b = c := by
        cases b
        cases c
        simp_all
      rw [total_cons, total_cons] at htotal
      rw [hbc] at hr ⊢
      rw [ih hr hr' (by omega) (fun x hx => hpos x (by simp [hx]))
        fun x hx => hpos' x (by simp [hx])]

end Headers

end PopcornFirmware.Lib.Blocks
