import PopcornFirmware.Lib.CText
import PopcornFirmware.Lib.LinkedHeap

namespace PopcornFirmware.Lwip.Pbufs

open PopcornFirmware.Lib.CText PopcornFirmware.Lib.LinkedHeap

/-- The fields of struct pbuf that the raw-API programs depend on. The payload
has len bytes. -/
structure Pbuf where
  next : Option Nat
  payload : Text
  totLen : Nat
  ref : Nat
  deriving DecidableEq

def Pbuf.len (b : Pbuf) : Nat := b.payload.length

abbrev Mem := Heap Pbuf

section Operations

/-- In this and the functions below the result is none when a pbuf is used that
has been deallocated. -/
def pbufRef (m : Mem) : Option Nat → Option Mem
  | none => some m
  | some i => (deref m i).map fun b => write m i (some { b with ref := b.ref + 1 })

/-- The loop of pbuf_free. The fuel bounds the number of pbufs it walks over;
a reference count of 0 violates its assertion. -/
def pbufFreeLoop : Nat → Mem → Option Nat → Option Mem
  | _, m, none => some m
  | 0, _, some _ => none
  | fuel + 1, m, some i =>
    (deref m i).bind fun b =>
      if b.ref = 0 then none
      else if b.ref - 1 = 0 then pbufFreeLoop fuel (write m i none) b.next
      else some (write m i (some { b with ref := b.ref - 1 }))

def pbufFree (m : Mem) (p : Option Nat) : Option Mem := pbufFreeLoop m.length m p

/-- The loop of pbuf_cat from the pbuf i on, and the statements after it. -/
def pbufCatLoop (t : Nat) : Nat → Mem → Nat → Option Mem
  | 0, _, _ => none
  | fuel + 1, m, i =>
    (deref m i).bind fun b =>
      (deref m t).bind fun d =>
        let totLen := (b.totLen + d.totLen) % 2 ^ 16
        match b.next with
        | some j => pbufCatLoop t fuel (write m i (some { b with totLen := totLen })) j
        | none => some (write m i (some { b with totLen := totLen, next := some t }))

def pbufCat (m : Mem) : Option Nat → Option Nat → Option Mem
  | some h, some t => pbufCatLoop t m.length m h
  | _, _ => some m

def pbufChain (m : Mem) (h t : Option Nat) : Option Mem :=
  (pbufCat m h t).bind fun m => pbufRef m t

/-- pbuf_clen, with the number of pbufs in memory as a bound. -/
def pbufClen (m : Mem) (p : Option Nat) : Nat :=
  go m.length p
where
  go : Nat → Option Nat → Nat
    | _, none => 0
    | 0, some _ => 0
    | fuel + 1, some i =>
      match deref m i with
      | none => 0
      | some b => 1 + go fuel b.next

/-- The pbufs of a received segment, from identity n on. -/
def segment : Nat → List Text → Mem
  | _, [] => []
  | n, t :: ts =>
    some ⟨if ts.isEmpty then none else some (n + 1), t, (t ++ ts.flatten).length % 2 ^ 16, 1⟩ ::
      segment (n + 1) ts

/-- The driver hands over a segment as a chain of fresh pbufs. -/
def pbufAlloc (m : Mem) (payloads : List Text) : Mem × Option Nat :=
  (m ++ segment m.length payloads, if payloads.isEmpty then none else some m.length)

end Operations

def bytes (m : Mem) (ids : List Nat) : Text :=
  ids.flatMap fun i => ((deref m i).map Pbuf.payload).getD []

/-- The pbufs from p on, each with a reference that keeps it allocated. -/
structure Held (m : Mem) (p : Option Nat) (ids : List Nat) : Prop where
  chain : Chain Pbuf.next m p ids
  refs : ∀ i ∈ ids, ∀ b, deref m i = some b → 1 ≤ b.ref

/-- No other pbuf is allocated, and nothing else refers to these. -/
def Exclusive (m : Mem) (ids : List Nat) : Prop :=
  ∀ i b, deref m i = some b → i ∈ ids ∧ b.ref = 1

/-- The pbufs from p on, each with one reference only. -/
structure Sole (m : Mem) (p : Option Nat) (ids : List Nat) : Prop where
  chain : Chain Pbuf.next m p ids
  refs : ∀ i ∈ ids, ∀ b, deref m i = some b → b.ref = 1

/-- Of these pbufs all but the given rest have been deallocated, and nothing
else is changed. -/
structure Released (m m' : Mem) (ids rest : List Nat) : Prop where
  subset : rest ⊆ ids
  cells : ∀ k, deref m' k = if k ∈ ids ∧ k ∉ rest then none else deref m k

/-- The pbufs keep their links and bytes, and lose no reference. -/
def Keeps (m m' : Mem) (ids : List Nat) : Prop :=
  ∀ i ∈ ids, ∃ b b', deref m i = some b ∧ deref m' i = some b' ∧ b'.next = b.next ∧
    b'.payload = b.payload ∧ b.ref ≤ b'.ref

section Keeps

variable {m m' : Mem} {p : Option Nat} {ids : List Nat}

theorem keeps_of_eq (hlive : ∀ i ∈ ids, ∃ b, deref m i = some b)
    (h : ∀ i ∈ ids, deref m' i = deref m i) : Keeps m m' ids := by
  intro i hi
  obtain ⟨b, hb⟩ := hlive i hi
  exact ⟨b, b, hb, (h i hi).trans hb, rfl, rfl, le_refl _⟩

theorem Keeps.bytes (h : Keeps m m' ids) : bytes m' ids = bytes m ids := by
  unfold Pbufs.bytes
  refine List.flatMap_congr fun i hi => ?_
  obtain ⟨b, b', hb, hb', -, hpay, -⟩ := h i hi
  simp [hb, hb', hpay]

theorem Held.keep (hheld : Held m p ids) (h : Keeps m m' ids) : Held m' p ids := by
  refine ⟨hheld.chain.congr fun i hi => ?_, fun i hi b hb => ?_⟩
  · obtain ⟨b, b', hb, hb', hnext, -⟩ := h i hi
    simp [hb, hb', hnext]
  · obtain ⟨d, d', hd, hd', -, -, hle⟩ := h i hi
    rw [hb] at hd'
    cases hd'
    exact le_trans (hheld.refs i hi d hd) hle

theorem Sole.held (h : Sole m p ids) : Held m p ids :=
  ⟨h.chain, fun i hi b hb => (h.refs i hi b hb).ge⟩

theorem Held.sole (h : Held m p ids) (hexcl : Exclusive m ids) : Sole m p ids :=
  ⟨h.chain, fun i _ b hb => (hexcl i b hb).2⟩

theorem Sole.of_same (h : Sole m p ids) (hsame : ∀ i ∈ ids, deref m' i = deref m i) :
    Sole m' p ids :=
  ⟨h.chain.congr fun i hi => by rw [hsame i hi], fun i hi b hb =>
    h.refs i hi b ((hsame i hi).symm.trans hb)⟩

theorem bytes_of_same (hsame : ∀ i ∈ ids, deref m' i = deref m i) : bytes m' ids = bytes m ids :=
  List.flatMap_congr fun i hi => by rw [hsame i hi]

theorem Held.eq_nil (h : Held m none ids) : ids = [] :=
  have hnil : Chain Pbuf.next m none [] := rfl
  h.chain.unique hnil

theorem Held.eq_cons {i : Nat} (h : Held m (some i) ids) : ∃ is, ids = i :: is := by
  cases ids with
  | nil => exact absurd h.chain (by simp [Chain])
  | cons j is =>
    obtain ⟨hij, -⟩ := h.chain
    cases hij
    exact ⟨is, rfl⟩

end Keeps

section Released

variable {m m' m'' : Mem} {i : Nat} {ids rest : List Nat}

theorem Released.refl (m : Mem) (ids : List Nat) : Released m m ids ids :=
  ⟨fun _ h => h, fun k => by simp⟩

theorem Released.kept (h : Released m m' ids rest) {k : Nat} (hk : k ∉ ids ∨ k ∈ rest) :
    deref m' k = deref m k := by
  rw [h.cells, if_neg]
  rintro ⟨hin, hout⟩
  exact hk.elim (absurd hin) hout

/-- The head is deallocated before the others. -/
theorem Released.cons (hgone : deref m' i = none) (hsame : ∀ k, k ≠ i → deref m' k = deref m k)
    (hnot : i ∉ ids) (h : Released m' m'' ids rest) : Released m m'' (i :: ids) rest := by
  refine ⟨fun k hk => List.mem_cons_of_mem i (h.subset hk), fun k => ?_⟩
  rw [h.cells]
  by_cases hki : k = i
  · subst hki
    have hrest : k ∉ rest := fun hk => hnot (h.subset hk)
    simp [hnot, hrest, hgone]
  · simp [hki, hsame k hki]

theorem Released.exclusive (h : Released m m' ids rest) (hexcl : Exclusive m ids) :
    Exclusive m' rest := by
  intro k b hb
  rw [h.cells] at hb
  split at hb
  · cases hb
  · rename_i hnot
    obtain ⟨hmem, hone⟩ := hexcl k b hb
    exact ⟨by_contra fun hk => hnot ⟨hmem, hk⟩, hone⟩

end Released

theorem bytes_append (m : Mem) (is js : List Nat) : bytes m (is ++ js) = bytes m is ++ bytes m js :=
  List.flatMap_append

theorem bytes_cons {m : Mem} {i : Nat} {b : Pbuf} (hb : deref m i = some b) (is : List Nat) :
    bytes m (i :: is) = b.payload ++ bytes m is := by
  simp [bytes, hb]

section Clen

variable {m : Mem} {p : Option Nat} {ids : List Nat}

theorem pbufClen_go_eq (fuel : Nat) (hc : Chain Pbuf.next m p ids) (hle : ids.length ≤ fuel) :
    pbufClen.go m fuel p = ids.length := by
  induction fuel generalizing p ids with
  | zero =>
    obtain rfl := List.length_eq_zero_iff.mp (Nat.le_zero.mp hle)
    obtain rfl : p = none := hc
    rfl
  | succ fuel ih =>
    cases ids with
    | nil =>
      obtain rfl : p = none := hc
      rfl
    | cons i is =>
      obtain ⟨rfl, b, hb, hrest⟩ := hc
      have hrec := ih hrest (by simpa using hle)
      simp only [pbufClen.go, hb, hrec, List.length_cons]
      omega

/-- There are always enough rounds to count a chain. -/
theorem pbufClen_eq (hc : Chain Pbuf.next m p ids) : pbufClen m p = ids.length :=
  pbufClen_go_eq m.length hc hc.length_le

end Clen

section Release

variable {m : Mem} {i j : Nat} {b d : Pbuf}

theorem pbufFree_shared (hb : deref m i = some b) (href : 2 ≤ b.ref) :
    pbufFree m (some i) = some (write m i (some { b with ref := b.ref - 1 })) := by
  have hlt := deref_lt hb
  obtain ⟨n, hn⟩ : ∃ n, m.length = n + 1 := ⟨m.length - 1, by omega⟩
  rw [pbufFree, hn, pbufFreeLoop, hb, Option.bind_some, if_neg (by omega), if_neg (by omega)]

theorem pbufFree_last (hb : deref m i = some b) (href : b.ref = 1) (hnext : b.next = none) :
    pbufFree m (some i) = some (write m i none) := by
  have hlt := deref_lt hb
  obtain ⟨n, hn⟩ : ∃ n, m.length = n + 1 := ⟨m.length - 1, by omega⟩
  rw [pbufFree, hn, pbufFreeLoop, hb, Option.bind_some, if_neg (by omega), if_pos (by omega),
    hnext]
  cases n <;> rfl

theorem pbufFree_head (hb : deref m i = some b) (href : b.ref = 1) (hnext : b.next = some j)
    (hij : j ≠ i) (hd : deref m j = some d) (hdref : 2 ≤ d.ref) :
    pbufFree m (some i) =
      some (write (write m i none) j (some { d with ref := d.ref - 1 })) := by
  have hilt := deref_lt hb
  have hjlt := deref_lt hd
  obtain ⟨n, hn⟩ : ∃ n, m.length = n + 2 := ⟨m.length - 2, by omega⟩
  have hj : deref (write m i none) j = some d := (deref_write_ne hij).trans hd
  rw [pbufFree, hn, pbufFreeLoop, hb, Option.bind_some, if_neg (by omega), if_pos (by omega),
    hnext, pbufFreeLoop, hj, Option.bind_some, if_neg (by omega), if_neg (by omega)]

/-- Taking a reference to the next pbuf and freeing the head: the head goes
away when it has no other reference, and then nothing else changes. -/
theorem release_head {is : List Nat} (hheld : Held m (some i) (i :: is))
    (hb : deref m i = some b) :
    ∃ m', ((pbufRef m b.next).bind fun m => pbufFree m (some i)) = some m' ∧
      m'.length = m.length ∧ Keeps m m' is ∧
      (b.ref = 1 → deref m' i = none ∧ ∀ k, k ≠ i → deref m' k = deref m k) := by
  obtain ⟨-, b', hb', hrest⟩ := hheld.chain
  rw [hb] at hb'
  cases hb'
  have href := hheld.refs i (by simp) b hb
  have hlt := deref_lt hb
  have hnodup := List.nodup_cons.mp hheld.chain.nodup
  have hlive : ∀ k ∈ is, ∃ a, deref m k = some a := fun k hk => hrest.live hk
  have hne : ∀ k ∈ is, k ≠ i := fun k hk heq => hnodup.1 (heq ▸ hk)
  cases is with
  | nil =>
    have hnext : b.next = none := hrest
    rw [hnext, pbufRef, Option.bind_some]
    by_cases hone : b.ref = 1
    · refine ⟨_, pbufFree_last hb hone hnext, length_write, by simp [Keeps], fun _ => ?_⟩
      exact ⟨deref_write_self hlt, fun k hk => deref_write_ne hk⟩
    · exact ⟨_, pbufFree_shared hb (by omega), length_write, by simp [Keeps],
        fun h => absurd h hone⟩
  | cons j is =>
    obtain ⟨hnext, d, hd, -⟩ := hrest
    have hji : j ≠ i := hne j (by simp)
    have hjlt := deref_lt hd
    have hdref := hheld.refs j (by simp) d hd
    let m₁ := write m j (some { d with ref := d.ref + 1 })
    have hm₁j : deref m₁ j = some { d with ref := d.ref + 1 } := deref_write_self hjlt
    have hm₁i : deref m₁ i = some b := (deref_write_ne (Ne.symm hji)).trans hb
    have href₁ : pbufRef m b.next = some m₁ := by rw [hnext, pbufRef, hd, Option.map_some]
    rw [href₁, Option.bind_some]
    by_cases hone : b.ref = 1
    · let m' := write (write m₁ i none) j (some { d with ref := d.ref + 1 - 1 })
      have hlen : m'.length = m.length := by simp [m', m₁]
      have hi' : deref m' i = none := by
        rw [deref_write_ne (Ne.symm hji), deref_write_self (by simpa [m₁] using hlt)]
      have hsame : ∀ k, k ≠ i → deref m' k = deref m k := by
        intro k hk
        by_cases hkj : k = j
        · rw [hkj, deref_write_self (by simpa [m₁] using hjlt), hd]
          rfl
        · rw [deref_write_ne hkj, deref_write_ne hk, deref_write_ne hkj]
      exact ⟨m', pbufFree_head hm₁i hone hnext hji hm₁j (by simp only; omega), hlen,
        keeps_of_eq hlive fun k hk => hsame k (hne k hk), fun _ => ⟨hi', hsame⟩⟩
    · refine ⟨_, pbufFree_shared hm₁i (by omega), by simp [m₁], fun k hk => ?_,
        fun h => absurd h hone⟩
      obtain ⟨a, ha⟩ := hlive k hk
      rw [deref_write_ne (hne k hk)]
      by_cases hkj : k = j
      · refine ⟨d, { d with ref := d.ref + 1 }, hkj ▸ hd, hkj ▸ hm₁j, rfl, rfl, ?_⟩
        simp
      · exact ⟨a, a, ha, (deref_write_ne hkj).trans ha, rfl, rfl, le_refl _⟩

/-- A chain that nothing else refers to is deallocated as a whole. -/
theorem pbufFree_sole {p : Option Nat} {ids : List Nat} (hsole : Sole m p ids) :
    ∃ m', pbufFree m p = some m' ∧ Released m m' ids [] := by
  have hloop : ∀ (ids : List Nat) (fuel : Nat) (m : Mem) (p : Option Nat), ids.length ≤ fuel →
      Sole m p ids → ∃ m', pbufFreeLoop fuel m p = some m' ∧ Released m m' ids [] := by
    intro ids
    induction ids with
    | nil =>
      intro fuel m p hfuel hsole
      have hp : p = none := hsole.chain
      exact ⟨m, by rw [hp]; cases fuel <;> rfl, Released.refl m []⟩
    | cons i is ih =>
      intro fuel m p hfuel hsole
      obtain ⟨fuel, rfl⟩ : ∃ f, fuel = f + 1 := ⟨fuel - 1, by simp at hfuel; omega⟩
      obtain ⟨hp, b, hb, hrest⟩ := hsole.chain
      have href := hsole.refs i (by simp) b hb
      have hnot := (List.nodup_cons.mp hsole.chain.nodup).1
      have hother : ∀ k, k ≠ i → deref (write m i none) k = deref m k := fun k hk =>
        deref_write_ne hk
      have htail : Sole m b.next is := ⟨hrest, fun k hk => hsole.refs k (by simp [hk])⟩
      obtain ⟨m', hm', hgone⟩ := ih fuel (write m i none) b.next (by simpa using hfuel)
        (htail.of_same fun k hk => hother k fun heq => hnot (heq ▸ hk))
      refine ⟨m', ?_, hgone.cons (deref_write_self (deref_lt hb)) hother hnot⟩
      rw [hp, pbufFreeLoop, hb, Option.bind_some, if_neg (by omega), if_pos (by omega)]
      exact hm'
  exact hloop ids m.length m p hsole.chain.length_le hsole

theorem pbufFree_exclusive {p : Option Nat} {ids : List Nat} (hheld : Held m p ids)
    (hexcl : Exclusive m ids) : ∃ m', pbufFree m p = some m' ∧ Exclusive m' [] := by
  obtain ⟨m', hm', hgone⟩ := pbufFree_sole (hheld.sole hexcl)
  exact ⟨m', hm', hgone.exclusive hexcl⟩

end Release

section Cat

variable {m : Mem} {t : Nat} {d : Pbuf}

theorem pbufCatLoop_spec (is : List Nat) (l i fuel : Nat)
    (hc : Chain Pbuf.next m (some i) (is ++ [l])) (ht : t ∉ is ++ [l]) (hd : deref m t = some d)
    (hfuel : is.length < fuel) :
    ∃ m', pbufCatLoop t fuel m i = some m' ∧ m'.length = m.length ∧
      (∀ k ∉ is ++ [l], deref m' k = deref m k) ∧
      (∀ k ∈ is, ∃ b n, deref m k = some b ∧ deref m' k = some { b with totLen := n }) ∧
      ∃ b n, deref m l = some b ∧ deref m' l = some { b with totLen := n, next := some t } := by
  obtain ⟨fuel, rfl⟩ : ∃ f, fuel = f + 1 := ⟨fuel - 1, by omega⟩
  induction is generalizing m i fuel with
  | nil =>
    obtain ⟨hil, b, hb, hnext⟩ := hc
    cases hil
    have hlt := deref_lt hb
    have hnone : b.next = none := hnext
    let totLen := (b.totLen + d.totLen) % 2 ^ 16
    refine ⟨write m l (some { b with totLen := totLen, next := some t }), ?_, length_write, ?_,
      by simp, b, totLen, hb, deref_write_self hlt⟩
    · simp only [pbufCatLoop, hb, hd, hnone, Option.bind_some, totLen]
    · intro k hk
      exact deref_write_ne (by simpa using hk)
  | cons k is ih =>
    have hnodup := List.nodup_cons.mp hc.nodup
    obtain ⟨hik, b, hb, hrest⟩ := hc
    cases hik
    have hlt := deref_lt hb
    obtain ⟨j, hj⟩ : ∃ j, b.next = some j := by
      cases is with
      | nil => exact ⟨l, hrest.1⟩
      | cons j is => exact ⟨j, hrest.1⟩
    let m₁ := write m k (some { b with totLen := (b.totLen + d.totLen) % 2 ^ 16 })
    have hti : t ≠ k := fun h => ht (by simp [h])
    have hother : ∀ x, x ≠ k → deref m₁ x = deref m x := fun x hx => deref_write_ne hx
    have hnot : ∀ x ∈ is ++ [l], x ≠ k := fun x hx heq => hnodup.1 (heq ▸ hx)
    have hc₁ : Chain Pbuf.next m₁ (some j) (is ++ [l]) :=
      hj ▸ hrest.congr fun x hx => by rw [hother x (hnot x hx)]
    obtain ⟨n, rfl⟩ : ∃ n, fuel = n + 1 := ⟨fuel - 1, by simp at hfuel; omega⟩
    obtain ⟨m', hloop, hlen, hout, hin, bl, n', hbl, hl⟩ := ih j hc₁
      (fun h => ht (by simp only [List.cons_append, List.mem_cons]; exact Or.inr h))
      ((hother t hti).trans hd) n (by simp at hfuel; omega)
    refine ⟨m', ?_, hlen.trans length_write, fun x hx => ?_, fun x hx => ?_, bl, n', ?_, hl⟩
    · have hstep : pbufCatLoop t (n + 1 + 1) m k = pbufCatLoop t (n + 1) m₁ j := by
        rw [pbufCatLoop, hb, Option.bind_some, hd, Option.bind_some]
        simp only [hj, m₁]
      exact hstep.trans hloop
    · have hx' : x ≠ k ∧ x ∉ is ++ [l] := by simpa using hx
      exact (hout x hx'.2).trans (hother x hx'.1)
    · obtain rfl | hx := List.mem_cons.mp hx
      · exact ⟨b, _, hb, (hout x hnodup.1).trans (deref_write_self hlt)⟩
      · obtain ⟨a, na, ha, ha'⟩ := hin x hx
        exact ⟨a, na, (hother x (hnot x (by simp [hx]))).symm.trans ha, ha'⟩
    · exact (hother l (hnot l (by simp))).symm.trans hbl

/-- pbuf_chain makes one chain of two, and takes a reference to the second. -/
theorem pbufChain_spec {i : Nat} {is ts : List Nat} (hhead : Held m (some i) (i :: is))
    (htail : Held m (some t) (t :: ts)) (hdisj : ∀ k ∈ t :: ts, k ∉ i :: is) :
    ∃ m', pbufChain m (some i) (some t) = some m' ∧ m'.length = m.length ∧
      Held m' (some i) ((i :: is) ++ (t :: ts)) ∧
      bytes m' ((i :: is) ++ (t :: ts)) = bytes m (i :: is) ++ bytes m (t :: ts) := by
  obtain ⟨init, l, hinit⟩ : ∃ init l, i :: is = init ++ [l] :=
    ⟨_, _, (List.dropLast_append_getLast (List.cons_ne_nil i is)).symm⟩
  rw [hinit] at hhead hdisj ⊢
  obtain ⟨-, d, hd, -⟩ := htail.chain
  have hlen := hhead.chain.length_le
  obtain ⟨m₁, hcat, hlen₁, hout, hin, bl, n, hbl, hl⟩ := pbufCatLoop_spec init l i m.length
    hhead.chain (hdisj t (by simp)) hd (by simp at hlen; omega)
  have hm₁t : deref m₁ t = some d := (hout t (hdisj t (by simp))).trans hd
  have htlt := deref_lt hm₁t
  let m' := write m₁ t (some { d with ref := d.ref + 1 })
  have hother : ∀ k, k ≠ t → deref m' k = deref m₁ k := fun k hk => deref_write_ne hk
  have hinner : ∀ k ∈ init ++ [l], k ≠ t := fun k hk h => hdisj t (by simp) (h ▸ hk)
  have hkeep : Keeps m m' (t :: ts) := by
    intro k hk
    by_cases hkt : k = t
    · exact ⟨d, { d with ref := d.ref + 1 }, hkt ▸ hd, hkt ▸ deref_write_self htlt, rfl, rfl,
        Nat.le_succ d.ref⟩
    · obtain ⟨a, ha⟩ := htail.chain.live hk
      exact ⟨a, a, ha, ((hother k hkt).trans (hout k (hdisj k hk))).trans ha, rfl, rfl, le_refl _⟩
  have hhere : ∀ k ∈ init ++ [l], ∃ b b', deref m k = some b ∧ deref m' k = some b' ∧
      b'.payload = b.payload ∧ b'.ref = b.ref := by
    intro k hk
    rw [hother k (hinner k hk)]
    obtain hk | hk := List.mem_append.mp hk
    · obtain ⟨b, nb, hb, hb'⟩ := hin k hk
      exact ⟨b, _, hb, hb', rfl, rfl⟩
    · rw [List.mem_singleton.mp hk]
      exact ⟨bl, _, hbl, hl, rfl, rfl⟩
  have htail' := htail.keep hkeep
  refine ⟨m', ?_, ?_, ⟨?_, ?_⟩, ?_⟩
  · rw [pbufChain, pbufCat, hcat, Option.bind_some, pbufRef, hm₁t, Option.map_some]
  · simp [m', hlen₁]
  · have hsame : ∀ k ∈ init, (deref m' k).map Pbuf.next = (deref m k).map Pbuf.next := by
      intro k hk
      obtain ⟨b, nb, hb, hb'⟩ := hin k hk
      rw [hother k (hinner k (by simp [hk])), hb', hb]
      rfl
    have hlast : (deref m' l).map Pbuf.next = some (some t) := by
      rw [hother l (hinner l (by simp)), hl]
      rfl
    have hlink := hhead.chain.link htail'.chain hsame hlast
    simpa using hlink
  · intro k hk b hb
    obtain hk | hk := List.mem_append.mp hk
    · obtain ⟨a, a', ha, ha', -, href⟩ := hhere k hk
      rw [hb] at ha'
      cases ha'
      exact href ▸ hhead.refs k hk a ha
    · exact htail'.refs k hk b hb
  · have hpay : bytes m' (init ++ [l]) = bytes m (init ++ [l]) := by
      unfold bytes
      refine List.flatMap_congr fun k hk => ?_
      obtain ⟨b, b', hb, hb', hpay, -⟩ := hhere k hk
      simp [hb, hb', hpay]
    rw [bytes_append, hpay, hkeep.bytes]

end Cat

section Alloc

theorem segment_length (n : Nat) (ts : List Text) : (segment n ts).length = ts.length := by
  induction ts generalizing n with
  | nil => rfl
  | cons t ts ih => simp [segment, ih]

theorem segment_ref {n : Nat} {ts : List Text} {k : Nat} {b : Pbuf}
    (h : deref (segment n ts) k = some b) : b.ref = 1 := by
  induction ts generalizing n k with
  | nil => simp [segment, deref] at h
  | cons t ts ih =>
    cases k with
    | zero =>
      simp only [segment, deref, List.getElem?_cons_zero, Option.join_some, Option.some.injEq] at h
      exact h ▸ rfl
    | succ k =>
      simp only [segment, deref, List.getElem?_cons_succ] at h
      exact ih h

theorem segment_chain (m : Mem) (ts : List Text) :
    Chain Pbuf.next (m ++ segment m.length ts) (if ts.isEmpty then none else some m.length)
      (List.range' m.length ts.length) ∧
    bytes (m ++ segment m.length ts) (List.range' m.length ts.length) = ts.flatten := by
  induction ts generalizing m with
  | nil => exact ⟨rfl, rfl⟩
  | cons t ts ih =>
    let b : Pbuf := ⟨if ts.isEmpty then none else some (m.length + 1), t,
      (t ++ ts.flatten).length % 2 ^ 16, 1⟩
    obtain ⟨hchain, hbytes⟩ := ih (m ++ [some b])
    have hlen : (m ++ [some b]).length = m.length + 1 := by simp
    have hsplit : m ++ [some b] ++ segment (m.length + 1) ts = m ++ segment m.length (t :: ts) := by
      simp [segment, b]
    rw [hlen, hsplit] at hchain hbytes
    have hb : deref (m ++ segment m.length (t :: ts)) m.length = some b := by
      rw [deref_append_right (le_refl _), Nat.sub_self]
      rfl
    rw [List.length_cons, List.range'_succ]
    exact ⟨⟨rfl, b, hb, hchain⟩, by rw [bytes_cons hb, hbytes, List.flatten_cons]⟩

theorem pbufAlloc_spec (m : Mem) (ts : List Text) :
    Held (pbufAlloc m ts).1 (pbufAlloc m ts).2 (List.range' m.length ts.length) ∧
      bytes (pbufAlloc m ts).1 (List.range' m.length ts.length) = ts.flatten ∧
      (∀ k, k < m.length → deref (pbufAlloc m ts).1 k = deref m k) ∧
      ∀ k b, deref (pbufAlloc m ts).1 k = some b →
        deref m k = some b ∨ (k ∈ List.range' m.length ts.length ∧ b.ref = 1) := by
  obtain ⟨hchain, hbytes⟩ := segment_chain m ts
  have hold : ∀ k, k < m.length → deref (pbufAlloc m ts).1 k = deref m k :=
    fun k hk => deref_append_left hk
  have hcases : ∀ k b, deref (pbufAlloc m ts).1 k = some b →
      deref m k = some b ∨ (k ∈ List.range' m.length ts.length ∧ b.ref = 1) := by
    intro k b hb
    by_cases hk : k < m.length
    · exact Or.inl (hold k hk ▸ hb)
    · have hlt := deref_lt hb
      simp only [pbufAlloc, List.length_append, segment_length] at hlt
      simp only [pbufAlloc] at hb
      rw [deref_append_right (by omega)] at hb
      refine Or.inr ⟨?_, segment_ref hb⟩
      rw [List.mem_range'_1]
      omega
  refine ⟨⟨hchain, fun k hk b hb => ?_⟩, hbytes, hold, hcases⟩
  obtain hm | ⟨-, href⟩ := hcases k b hb
  · have hlt := deref_lt hm
    have hge := (List.mem_range'_1.mp hk).1
    omega
  · omega

theorem pbufAlloc_head (m : Mem) (text : Text) (texts : List Text) :
    ∃ b, deref (pbufAlloc m (text :: texts)).1 m.length = some b ∧ b.payload = text := by
  rw [pbufAlloc, deref_append_right (Nat.le_refl _), Nat.sub_self]
  exact ⟨_, rfl, rfl⟩

/-- The chain is on its own, and nothing else changes. -/
theorem pbufAlloc_fresh (m : Mem) (ts : List Text) :
    Sole (pbufAlloc m ts).1 (pbufAlloc m ts).2 (List.range' m.length ts.length) ∧
      (∀ k ∈ List.range' m.length ts.length, m.length ≤ k) ∧
      ∀ k ∉ List.range' m.length ts.length, deref (pbufAlloc m ts).1 k = deref m k := by
  obtain ⟨hheld, -, hold, hcases⟩ := pbufAlloc_spec m ts
  have hge : ∀ k ∈ List.range' m.length ts.length, m.length ≤ k := fun k hk =>
    (List.mem_range'_1.mp hk).1
  refine ⟨⟨hheld.chain, fun k hk b hb => ?_⟩, hge, fun k hk => ?_⟩
  · obtain hm | ⟨-, href⟩ := hcases k b hb
    · exact absurd (deref_lt hm) (by have := hge k hk; omega)
    · exact href
  · by_cases hlt : k < m.length
    · exact hold k hlt
    · rw [deref_of_le (Nat.le_of_not_lt hlt)]
      cases hb : deref (pbufAlloc m ts).1 k with
      | none => rfl
      | some b =>
        obtain hm | ⟨hmem, -⟩ := hcases k b hb
        · exact absurd (deref_lt hm) hlt
        · exact absurd hmem hk

end Alloc

end PopcornFirmware.Lwip.Pbufs
