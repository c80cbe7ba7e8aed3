import PopcornFirmware.Lwip.MemHeap

namespace PopcornFirmware.Lwip.MemBlocks

open PopcornFirmware.Lib.Blocks PopcornFirmware.Lwip.MemHeap

abbrev LinkedMem : (Nat → Mem) → Nat → Nat → List Block → Prop :=
  Linked Mem.next Mem.prev Mem.used

/-- The structs in the heap tell that it is cut into the given blocks. -/
structure Laid (o : Opts) (ram : Nat → Mem) (bs : List Block) : Prop where
  linked : LinkedMem ram 0 0 bs
  total_eq : total bs = o.memSizeAligned
  size_le : ∀ b ∈ bs, sizeofStructMem + minSizeAligned ≤ b.size
  aligned : ∀ b ∈ bs, 4 ∣ b.size
  ramEnd : (ram o.memSizeAligned).used = true

structure Cut (o : Opts) (h : Heap) (bs : List Block) : Prop extends Laid o h.ram bs where
  lfree : h.lfree = firstFree 0 bs

/-- The heap between two calls. -/
structure Rep (o : Opts) (h : Heap) (bs : List Block) : Prop extends Cut o h bs where
  coalesced : Coalesced bs

variable {o : Opts} {h h' : Heap} {bs pre post rest : List Block} {b c : Block} {p size : Nat}

theorem sizeofStructMem_eq : sizeofStructMem = 8 := rfl

theorem minSizeAligned_eq : minSizeAligned = 12 := rfl

section Links

theorem modify_self (f : Mem → Mem) : (h.modify p f).ram p = f (h.ram p) :=
  Function.update_self _ _ _

theorem modify_ne (f : Mem → Mem) {q : Nat} (hq : q ≠ p) : (h.modify p f).ram q = h.ram q :=
  Function.update_of_ne hq _ _

@[simp] theorem modify_lfree (f : Mem → Mem) : (h.modify p f).lfree = h.lfree := rfl

/-- The header of a block, and where the blocks around it begin. -/
theorem linked_header (hl : LinkedMem h.ram 0 0 (pre ++ b :: post)) :
    h.ram (total pre) = ⟨total pre + b.size, lastAt 0 0 pre, b.used⟩ := by
  have hright := (linked_append.mp hl).2
  rw [Nat.zero_add] at hright
  obtain ⟨hn, hp, hu, -⟩ := hright
  rw [← hn, ← hp, ← hu]

theorem linked_first (hl : LinkedMem h.ram 0 0 (b :: post)) : h.ram 0 = ⟨b.size, 0, b.used⟩ := by
  have := linked_header (show LinkedMem h.ram 0 0 ([] ++ b :: post) from hl)
  rwa [total_nil, Nat.zero_add] at this

theorem linked_next (hl : LinkedMem h.ram 0 0 (pre ++ b :: c :: rest)) :
    h.ram (total pre + b.size) = ⟨total pre + b.size + c.size, total pre, c.used⟩ := by
  rw [List.append_cons] at hl
  have := linked_header hl
  rwa [lastAt_concat, total_append, total_cons, total_nil, Nat.add_zero, Nat.zero_add] at this

theorem linked_replace {old new : List Block} (hl : LinkedMem h.ram 0 0 (pre ++ old ++ rest))
    (hpos : ∀ x ∈ pre ++ old ++ rest, 0 < x.size) (htotal : total new = total old)
    (hbefore : ∀ x < total pre, h'.ram x = h.ram x)
    (hnew : LinkedMem h'.ram (lastAt 0 0 pre) (total pre) new)
    (hnext : rest ≠ [] → h'.ram (total pre + total old) =
      { h.ram (total pre + total old) with prev := lastAt (lastAt 0 0 pre) (total pre) new })
    (hafter : ∀ x, total pre + total old < x → h'.ram x = h.ram x) :
    LinkedMem h'.ram 0 0 (pre ++ new ++ rest) := by
  apply hl.replace (fun x hx => hpos x (by simp [hx])) (fun x hx => hpos x (by simp [hx])) htotal
  · rwa [Nat.zero_add]
  · rwa [Nat.zero_add]
  · rw [Nat.zero_add]
    intro hne
    rw [hnext hne]
    exact ⟨rfl, rfl, rfl⟩
  · rwa [Nat.zero_add]

theorem setUsed_linked (hl : LinkedMem h.ram 0 0 (pre ++ b :: post))
    (hpos : ∀ x ∈ pre ++ b :: post, 0 < x.size) (u : Bool) :
    LinkedMem (h.modify (total pre) ({ · with used := u })).ram 0 0
      (pre ++ { b with used := u } :: post) := by
  have hb : 0 < b.size := hpos b (by simp)
  have hheader := linked_header hl
  rw [List.append_cons] at hl hpos ⊢
  apply linked_replace hl hpos (by simp)
  · exact fun x hx => modify_ne _ hx.ne
  · refine ⟨?_, ?_, ?_, trivial⟩ <;> rw [modify_self, hheader]
  · intro hne
    obtain ⟨c, cs, rfl⟩ := List.exists_cons_of_ne_nil hne
    have hnext := linked_header hl
    rw [lastAt_concat, total_append, Nat.zero_add] at hnext
    rw [modify_ne _ (by simp; omega), hnext]
    rfl
  · exact fun x hx => modify_ne _ (by simp at hx; omega)

/-- Neighbours that are plugged together. -/
theorem plug_linked (hl : LinkedMem h.ram 0 0 (pre ++ b :: c :: rest))
    (hpos : ∀ x ∈ pre ++ b :: c :: rest, 0 < x.size) :
    LinkedMem (plug h (total pre) (total pre + b.size)).ram 0 0
      (pre ++ ⟨b.size + c.size, b.used⟩ :: rest) := by
  have hb : 0 < b.size := hpos b (by simp)
  have hc : 0 < c.size := hpos c (by simp)
  have hheader := linked_header hl
  have hnext := linked_next hl
  have hsplit : pre ++ b :: c :: rest = pre ++ [b, c] ++ rest := by simp
  have hjoin : pre ++ ⟨b.size + c.size, b.used⟩ :: rest =
      pre ++ [⟨b.size + c.size, b.used⟩] ++ rest := by simp
  rw [hsplit] at hl hpos
  rw [hjoin]
  unfold plug
  dsimp only
  rw [hnext]
  dsimp only
  apply linked_replace hl hpos (by simp)
  · intro x hx
    rw [modify_ne _ (by omega), modify_ne _ (by omega)]
  · refine ⟨?_, ?_, ?_, trivial⟩
    all_goals rw [modify_ne _ (by omega), modify_self]
    · simp [Nat.add_assoc]
    · simp [hheader]
    · simp [hheader]
  · intro hne
    have hplace : total pre + total [b, c] = total pre + b.size + c.size := by
      simp [Nat.add_assoc]
    rw [hplace, modify_self, modify_ne _ (by omega)]
    rfl
  · intro x hx
    simp at hx
    rw [modify_ne _ (by omega), modify_ne _ (by omega)]

theorem cutOff_ram_ne {mem ptr2 next q : Nat} (hq : q ≠ mem) (hq' : q ≠ ptr2) (hq'' : q ≠ next) :
    (cutOff o h mem ptr2 next).ram q = h.ram q := by
  unfold cutOff
  dsimp only
  split
  · rw [modify_ne _ hq'', modify_ne _ hq]
    exact Function.update_of_ne hq' _ _
  · rw [modify_ne _ hq]
    exact Function.update_of_ne hq' _ _

@[simp] theorem cutOff_lfree (mem ptr2 next : Nat) :
    (cutOff o h mem ptr2 next).lfree = h.lfree := by
  unfold cutOff
  dsimp only
  split <;> rfl

/-- A block that is cut off, of what may have been two blocks before. -/
theorem cutOff_linked {old : List Block} {k n : Nat} {u : Bool}
    (hl : LinkedMem h.ram 0 0 (pre ++ old ++ rest)) (hpos : ∀ x ∈ pre ++ old ++ rest, 0 < x.size)
    (hused : (h.ram (total pre)).used = u)
    (hprev : (h.ram (total pre)).prev = lastAt 0 0 pre)
    (hold : total old = k + n) (hk : 0 < k) (hn : 0 < n)
    (hend : total (pre ++ old ++ rest) = o.memSizeAligned) :
    LinkedMem (cutOff o h (total pre) (total pre + k) (total pre + total old)).ram 0 0
      (pre ++ [⟨k, u⟩, ⟨n, false⟩] ++ rest) := by
  have hfirst : (cutOff o h (total pre) (total pre + k) (total pre + total old)).ram (total pre) =
      ⟨total pre + k, lastAt 0 0 pre, u⟩ := by
    have hkeep : Function.update h.ram (total pre + k) ⟨total pre + total old, total pre, false⟩
        (total pre) = h.ram (total pre) := Function.update_of_ne (by omega) _ _
    unfold cutOff
    dsimp only
    split
    · rw [modify_ne _ (by omega), modify_self]
      dsimp only
      rw [hkeep, hused, hprev]
    · rw [modify_self]
      dsimp only
      rw [hkeep, hused, hprev]
  have hsecond : (cutOff o h (total pre) (total pre + k) (total pre + total old)).ram
      (total pre + k) = ⟨total pre + total old, total pre, false⟩ := by
    unfold cutOff
    dsimp only
    split
    · rw [modify_ne _ (by omega), modify_ne _ (by omega)]
      exact Function.update_self _ _ _
    · rw [modify_ne _ (by omega)]
      exact Function.update_self _ _ _
  apply linked_replace hl hpos (by simp [hold])
  · exact fun x hx => cutOff_ram_ne (by omega) (by omega) (by omega)
  · refine ⟨?_, ?_, ?_, ?_, ?_, ?_, trivial⟩
    · rw [hfirst]
    · rw [hfirst]
    · rw [hfirst]
    · rw [hsecond, hold, Nat.add_assoc]
    · rw [hsecond]
    · rw [hsecond]
  · intro hne
    have hplace : total pre + total old ≠ o.memSizeAligned := by
      obtain ⟨c, cs, rfl⟩ := List.exists_cons_of_ne_nil hne
      have hc : 0 < c.size := hpos c (by simp)
      simp only [total_append, total_cons] at hend
      omega
    unfold cutOff
    dsimp only
    rw [if_pos hplace, modify_self, modify_ne _ (by omega)]
    dsimp only
    rw [Function.update_of_ne (by omega)]
    rfl
  · exact fun x hx => cutOff_ram_ne (by omega) (by omega) (by omega)

end Links

section Plug

theorem Laid.pos (hc : Laid o h.ram bs) : ∀ b ∈ bs, 0 < b.size := by
  intro b hb
  have := hc.size_le b hb
  rw [sizeofStructMem_eq] at this
  omega

theorem plug_ram_ne {q mem nmem : Nat} (hq : q ≠ mem) (hq' : q ≠ (h.ram nmem).next) :
    (plug h mem nmem).ram q = h.ram q := by
  unfold plug
  dsimp only
  rw [modify_ne _ hq', modify_ne _ hq]

theorem plug_writes (hl : LinkedMem h.ram 0 0 (pre ++ b :: c :: rest)) {x : Nat}
    (hx : (plug h (total pre) (total pre + b.size)).ram x ≠ h.ram x) :
    x = total pre ∨ x = total pre + (b.size + c.size) := by
  by_contra hne
  rw [not_or] at hne
  apply hx
  apply plug_ram_ne hne.1
  rw [linked_next hl, Nat.add_assoc]
  exact hne.2

theorem plug_ramEnd {mem nmem q : Nat} (hq : q ≠ mem) (hu : (h.ram q).used = true) :
    ((plug h mem nmem).ram q).used = true := by
  by_cases hq' : q = (h.ram nmem).next
  · subst hq'
    unfold plug
    dsimp only
    rw [modify_self, modify_ne _ hq]
    exact hu
  · rw [plug_ram_ne hq hq']
    exact hu

theorem plug_cut (hc : Cut o h (pre ++ b :: c :: rest)) (hb : b.used = false) :
    Cut o (plug h (total pre) (total pre + b.size)) (pre ++ ⟨b.size + c.size, false⟩ :: rest) := by
  have hpos := hc.pos
  have hbpos : 0 < b.size := hpos b (by simp)
  have htotal := hc.total_eq
  simp only [total_append, total_cons] at htotal
  have hsplit : pre ++ b :: c :: rest = pre ++ [b, c] ++ rest := by simp
  refine ⟨⟨?_, ?_, ?_, ?_, ?_⟩, ?_⟩
  · have := plug_linked hc.linked hpos
    rwa [hb] at this
  · simp only [total_append, total_cons]
    omega
  · have hsum := (hc.size_le b (by simp)).trans (Nat.le_add_right _ c.size)
    have := hc.size_le
    rw [hsplit] at this
    simpa using forall_replace this (List.forall_mem_singleton.mpr hsum)
  · have hsum := Nat.dvd_add (hc.aligned b (by simp)) (hc.aligned c (by simp))
    have := hc.aligned
    rw [hsplit] at this
    simpa using forall_replace this (List.forall_mem_singleton.mpr hsum)
  · exact plug_ramEnd (by omega) hc.ramEnd
  · have hle := firstFree_le (p := 0) (l := pre) (r := c :: rest) hb
    have hne : h.lfree ≠ total pre + b.size := by
      rw [hc.lfree]
      omega
    have hkeep : (plug h (total pre) (total pre + b.size)).lfree = h.lfree := if_neg hne
    rw [hkeep, hc.lfree]
    exact firstFree_congr hb rfl

/-- The forward half of plug_holes. -/
theorem plugForward (hc : Cut o h (pre ++ b :: post)) (hb : b.used = false)
    (hpost : Coalesced post) :
    ∃ h' b' post', h' = (if total pre ≠ total pre + b.size ∧
          (h.ram (total pre + b.size)).used = false ∧ total pre + b.size ≠ o.memSizeAligned then
        plug h (total pre) (total pre + b.size) else h) ∧
      Cut o h' (pre ++ b' :: post') ∧ b'.used = false ∧ Coalesced (b' :: post') ∧
      live (total pre + b'.size) post' = live (total pre + b.size) post ∧
      Border (pre ++ b :: post) (total pre + b'.size) ∧
      ∀ x, h'.ram x ≠ h.ram x → Border (pre ++ b :: post) x := by
  have hbpos : 0 < b.size := hc.pos b (by simp)
  have htotal := hc.total_eq
  simp only [total_append, total_cons] at htotal
  cases post with
  | nil =>
    rw [total_nil, Nat.add_zero] at htotal
    rw [if_neg (by rw [htotal]; simp)]
    exact ⟨h, b, [], rfl, hc, hb, List.isChain_singleton b, rfl, border_next pre b [],
      fun x hx => absurd rfl hx⟩
  | cons c cs =>
    have hcpos : 0 < c.size := hc.pos c (by simp)
    have hheader : (h.ram (total pre + b.size)).used = c.used := by rw [linked_next hc.linked]
    by_cases hcu : c.used = false
    · rw [if_pos ⟨by omega, hheader.trans hcu, by rw [total_cons] at htotal; omega⟩]
      have hborder : Border (pre ++ b :: c :: cs) (total pre + (b.size + c.size)) := by
        have := border_next (pre ++ [b]) c cs
        rwa [total_append, total_cons, total_nil, Nat.add_zero, List.append_assoc,
          Nat.add_assoc] at this
      refine ⟨_, ⟨b.size + c.size, false⟩, cs, rfl, plug_cut hc hb, rfl, ?_, ?_, hborder, ?_⟩
      · exact Coalesced.congr (l := []) hpost (.inr hcu.symm)
      · rw [live_free (by simpa using hcu), Nat.add_assoc]
      · intro x hx
        obtain rfl | rfl := plug_writes hc.linked hx
        · exact border_here pre b (c :: cs)
        · exact hborder
    · rw [if_neg fun hcond => hcu (hheader.symm.trans hcond.2.1)]
      refine ⟨h, b, c :: cs, rfl, hc, hb, hpost.cons ?_, rfl, border_next pre b (c :: cs),
        fun x hx => absurd rfl hx⟩
      simp [hcu]

/-- A block that has just become free is plugged together with its neighbours. -/
theorem plugHoles_spec (hc : Cut o h (pre ++ b :: post)) (hb : b.used = false)
    (hpre : Coalesced pre) (hpost : Coalesced post) :
    ∃ bs, Rep o (plugHoles o h (total pre)) bs ∧
      live 0 bs = live 0 pre ++ live (total pre + b.size) post ∧
      ∀ x, (plugHoles o h (total pre)).ram x ≠ h.ram x → Border (pre ++ b :: post) x := by
  obtain ⟨h', b', post', hh', hc', hb', hpost', hlive, hnextBorder, hwrites⟩ :=
    plugForward hc hb hpost
  have hheader := linked_header hc.linked
  have hheader' := linked_header hc'.linked
  have hnext : (h.ram (total pre)).next = total pre + b.size := by rw [hheader]
  have hprev : (h'.ram (total pre)).prev = lastAt 0 0 pre := by rw [hheader']
  unfold plugHoles
  dsimp only
  rw [hnext, ← hh', hprev]
  rcases pre.eq_nil_or_concat with rfl | ⟨init, a, rfl⟩
  · rw [if_neg (by simp [lastAt])]
    refine ⟨b' :: post', ⟨hc', hpost'⟩, ?_, hwrites⟩
    rw [live_free hb']
    simpa [live] using hlive
  · rw [List.concat_eq_append] at hc' hpre hlive hnextBorder hwrites ⊢
    have hapos : 0 < a.size := hc'.pos a (by simp)
    have hplace : total (init ++ [a]) = total init + a.size := by simp
    have hau : (h'.ram (total init)).used = a.used := by
      have hl := hc'.linked
      rw [List.append_assoc, List.singleton_append] at hl
      rw [linked_header hl]
    rw [lastAt_concat, Nat.zero_add, hplace]
    rw [hplace] at hlive
    by_cases ha : a.used = false
    · rw [if_pos ⟨by omega, hau.trans ha⟩]
      rw [List.append_assoc, List.singleton_append] at hc'
      refine ⟨init ++ ⟨a.size + b'.size, false⟩ :: post', ⟨plug_cut hc' ha, ?_⟩, ?_, ?_⟩
      · exact hpre.join hpost' ha.symm hb'.symm
      · rw [live_append, live_append, live_free rfl, live_free ha, ← hlive]
        simp [live, Nat.add_assoc]
      · intro x hx
        by_cases hx' : h'.ram x = h.ram x
        · rw [← hx'] at hx
          obtain rfl | rfl := plug_writes hc'.linked hx
          · rw [List.append_assoc]
            exact border_here init a (b :: post)
          · rwa [hplace, Nat.add_assoc] at hnextBorder
        · exact hwrites x hx'
    · rw [if_neg fun hcond => ha (hau.symm.trans hcond.2)]
      rw [Bool.not_eq_false] at ha
      refine ⟨init ++ [a] ++ b' :: post', ⟨hc', ?_⟩, ?_, hwrites⟩
      · apply hpre.append hpost'
        simp [ha]
      · rw [live_append, hplace, Nat.zero_add, live_free hb', hlive]

end Plug

section Free

theorem setUsed_laid (hl : Laid o h.ram (pre ++ b :: post)) (u : Bool) :
    Laid o (h.modify (total pre) ({ · with used := u })).ram
      (pre ++ { b with used := u } :: post) := by
  have hb : 0 < b.size := hl.pos b (by simp)
  have htotal := hl.total_eq
  simp only [total_append, total_cons] at htotal
  refine ⟨setUsed_linked hl.linked hl.pos u, ?_, ?_, ?_, ?_⟩
  · simpa only [total_append, total_cons] using htotal
  · simpa [or_imp, forall_and] using hl.size_le
  · simpa [or_imp, forall_and] using hl.aligned
  · rw [modify_ne _ (by omega)]
    exact hl.ramEnd

/-- The block of a pointer is free again, and lies between no free ones. -/
theorem memFree_spec (hr : Rep o h (pre ++ b :: post)) (hb : b.used = true) :
    ∃ bs, Rep o (memFree o h (total pre + sizeofStructMem)) bs ∧
      live 0 bs = live 0 pre ++ live (total pre + b.size) post ∧
      ∀ x, (memFree o h (total pre + sizeofStructMem)).ram x ≠ h.ram x →
        Border (pre ++ b :: post) x := by
  have hsize := hr.size_le b (by simp)
  have htotal := hr.total_eq
  simp only [total_append, total_cons] at htotal
  have hlegal : ¬ o.memSizeAligned ≤ total pre + sizeofStructMem := by
    rw [minSizeAligned_eq] at hsize
    omega
  unfold memFree
  rw [if_neg hlegal, Nat.add_sub_cancel]
  have hc : Cut o { h.modify (total pre) ({ · with used := false }) with
      lfree := if total pre < h.lfree then total pre else h.lfree }
      (pre ++ { b with used := false } :: post) := by
    refine ⟨setUsed_laid hr.toLaid false, ?_⟩
    have hpos : ∀ x ∈ pre, 0 < x.size := fun x hx => hr.pos x (by simp [hx])
    have := firstFree_release (p := 0) (r := post) (t := post) (c := { b with used := false })
      hpos hb (hr.pos b (by simp)) rfl
    rw [Nat.zero_add, ← hr.lfree] at this
    exact this
  obtain ⟨bs, hrep, hlive, hwrites⟩ :=
    plugHoles_spec hc rfl hr.coalesced.left hr.coalesced.right.tail
  refine ⟨bs, hrep, hlive, fun x hx => ?_⟩
  by_cases hx' : x = total pre
  · rw [hx']
    exact border_here pre b post
  · have hkeep : (h.modify (total pre) ({ · with used := false })).ram x = h.ram x :=
      modify_ne _ hx'
    exact (hwrites x fun heq => hx (heq.trans hkeep)).congr rfl

end Free

section Split

variable {k n : Nat}

theorem cutOff_laid {old : List Block} (hl : Laid o h.ram (pre ++ old ++ rest))
    (hused : (h.ram (total pre)).used = true) (hprev : (h.ram (total pre)).prev = lastAt 0 0 pre)
    (hold : total old = k + n) (hk : sizeofStructMem + minSizeAligned ≤ k) (hk' : 4 ∣ k)
    (hn : sizeofStructMem + minSizeAligned ≤ n) :
    Laid o (cutOff o h (total pre) (total pre + k) (total pre + total old)).ram
      (pre ++ [⟨k, true⟩, ⟨n, false⟩] ++ rest) := by
  have hdvd : 4 ∣ k + n := by
    rw [← hold]
    exact dvd_total fun x hx => hl.aligned x (by simp [hx])
  have hn' : 4 ∣ n := (Nat.dvd_add_right hk').mp hdvd
  have htotal := hl.total_eq
  simp only [total_append] at htotal
  rw [sizeofStructMem_eq] at hk hn
  refine ⟨?_, ?_, ?_, ?_, ?_⟩
  · exact cutOff_linked hl.linked hl.pos hused hprev hold (by omega) (by omega) hl.total_eq
  · simp only [total_append, total_cons, total_nil]
    omega
  · apply forall_replace hl.size_le
    rw [sizeofStructMem_eq]
    simp
    omega
  · apply forall_replace hl.aligned
    simp [hk', hn']
  · by_cases hend : o.memSizeAligned = total pre + total old
    · unfold cutOff
      dsimp only
      rw [if_neg (by simp [hend]), modify_ne _ (by omega)]
      dsimp only
      rw [Function.update_of_ne (by omega)]
      exact hl.ramEnd
    · rw [cutOff_ram_ne (by omega) (by omega) hend]
      exact hl.ramEnd

theorem roundSize_spec (size : Nat) :
    minSizeAligned ≤ roundSize size ∧ 4 ∣ roundSize size ∧
      (size + 3 < 2 ^ 16 → size ≤ roundSize size) := by
  unfold roundSize memAlignSize
  rw [minSizeAligned_eq]
  dsimp only
  split <;> omega

/-- The lowest free block, when a used block is cut in two. -/
theorem firstFree_cut (hpos : ∀ x ∈ pre, 0 < x.size) (hb : b.used = true) (hk : k < b.size) :
    (if total pre + k < firstFree 0 (pre ++ b :: post) then total pre + k
      else firstFree 0 (pre ++ b :: post)) =
      firstFree 0 (pre ++ [⟨k, true⟩, ⟨n, false⟩] ++ post) := by
  rw [List.append_assoc]
  by_cases hall : ∀ x ∈ pre, x.used = true
  · have hle : total pre + b.size ≤ firstFree (total pre + b.size) post := le_firstFree
    rw [firstFree_append_used hall, firstFree_append_used hall, Nat.zero_add, firstFree, if_pos hb,
      if_pos (by omega)]
    simp [firstFree]
  · have hlt := firstFree_lt (p := 0) hpos hall
    rw [firstFree_append_free hall, firstFree_append_free hall, if_neg (by omega)]

/-- The lowest free block, when the border of a free block moves. -/
theorem firstFree_move (hpos : ∀ x ∈ pre, 0 < x.size) (hb : b.used = true) (hc : c.used = false) :
    (if firstFree 0 (pre ++ [b, c] ++ rest) = total pre + b.size then total pre + k
      else firstFree 0 (pre ++ [b, c] ++ rest)) =
      firstFree 0 (pre ++ [⟨k, true⟩, ⟨n, false⟩] ++ rest) := by
  rw [List.append_assoc, List.append_assoc]
  by_cases hall : ∀ x ∈ pre, x.used = true
  · rw [firstFree_append_used hall, firstFree_append_used hall]
    simp [firstFree, hb, hc]
  · have hlt := firstFree_lt (p := 0) hpos hall
    rw [firstFree_append_free hall, firstFree_append_free hall, if_neg (by omega)]

theorem live_cut :
    live 0 (pre ++ [⟨k, true⟩, ⟨n, false⟩] ++ rest) =
      live 0 pre ++ (total pre, k) :: live (total pre + (k + n)) rest := by
  rw [List.append_assoc, live_append, Nat.zero_add]
  simp [live, Nat.add_assoc]

theorem cutOff_writes {next x : Nat} {u v : Bool}
    (hx : (cutOff o h (total pre) (total pre + k) next).ram x ≠ h.ram x) :
    (x = total pre ∨ x = next) ∨ Border (pre ++ [⟨k, u⟩, ⟨n, v⟩] ++ rest) x := by
  by_cases hfirst : x = total pre
  · exact .inl (.inl hfirst)
  by_cases hlast : x = next
  · exact .inl (.inr hlast)
  by_cases hcut : x = total pre + k
  · rw [hcut, List.append_assoc]
    exact .inr (border_next pre ⟨k, u⟩ (⟨n, v⟩ :: rest))
  · exact absurd (cutOff_ram_ne hfirst hcut hlast) hx

/-- A used block is cut in two. -/
theorem cutUsed_spec (hr : Rep o h (pre ++ b :: post)) (hb : b.used = true)
    (hpost : ∀ x ∈ post.head?, x.used = true) (hsplit : b.size = k + n)
    (hk : sizeofStructMem + minSizeAligned ≤ k) (hk' : 4 ∣ k)
    (hn : sizeofStructMem + minSizeAligned ≤ n) :
    ∃ h' bs, h' =
        cutOff o { h with lfree := if total pre + k < h.lfree then total pre + k else h.lfree }
          (total pre) (total pre + k) (total pre + b.size) ∧
      Rep o h' bs ∧
      live 0 bs = live 0 pre ++ (total pre, k) :: live (total pre + b.size) post ∧
      ∀ x, h'.ram x ≠ h.ram x → Border (pre ++ b :: post) x ∨ Border bs x := by
  have hheader := linked_header hr.linked
  have hlaid := hr.toLaid
  rw [List.append_cons] at hlaid
  have hone : total [b] = b.size := by simp
  refine ⟨_, pre ++ [⟨k, true⟩, ⟨n, false⟩] ++ post, rfl, ⟨⟨?_, ?_⟩, ?_⟩, ?_, ?_⟩
  · rw [← hone]
    exact cutOff_laid hlaid (by rw [hheader, hb]) (by rw [hheader])
      (hone.trans hsplit) hk hk' hn
  · rw [cutOff_lfree]
    dsimp only
    rw [hr.lfree]
    apply firstFree_cut (fun x hx => hr.pos x (by simp [hx])) hb
    rw [hsplit]
    rw [sizeofStructMem_eq] at hn
    omega
  · have hleft : Coalesced (pre ++ [⟨k, true⟩]) := by
      apply hr.coalesced.left.append (List.isChain_singleton _)
      simp
    have hright : Coalesced (⟨n, false⟩ :: post) := by
      apply hr.coalesced.right.tail.cons
      exact fun x hx => .inr (hpost x hx)
    have := hleft.append hright (by simp)
    simpa using this
  · rw [live_cut, ← hsplit]
  · intro x hx
    obtain (rfl | rfl) | hcut := cutOff_writes hx
    · exact .inl (border_here pre b post)
    · exact .inl (border_next pre b post)
    · exact .inr hcut

/-- A free block grows at the expense of the used one before it. -/
theorem cutFree_spec (hr : Rep o h (pre ++ b :: c :: rest)) (hb : b.used = true)
    (hc : c.used = false) (hsplit : b.size + c.size = k + n)
    (hk : sizeofStructMem + minSizeAligned ≤ k) (hk' : 4 ∣ k)
    (hn : sizeofStructMem + minSizeAligned ≤ n) :
    ∃ h' bs, h' = cutOff o
          { h with lfree := if h.lfree = total pre + b.size then total pre + k else h.lfree }
          (total pre) (total pre + k) (total pre + b.size + c.size) ∧
      Rep o h' bs ∧
      live 0 bs = live 0 pre ++ (total pre, k) :: live (total pre + b.size) (c :: rest) ∧
      ∀ x, h'.ram x ≠ h.ram x → Border (pre ++ b :: c :: rest) x ∨ Border bs x := by
  have hheader := linked_header hr.linked
  have hsplit' : pre ++ b :: c :: rest = pre ++ [b, c] ++ rest := by simp
  have htotal : total pre + b.size + c.size = total pre + total [b, c] := by
    simp [Nat.add_assoc]
  have hlast := border_next (pre ++ [b]) c rest
  rw [total_append, total_cons, total_nil, Nat.add_zero, List.append_assoc] at hlast
  rw [hsplit'] at hr
  refine ⟨_, pre ++ [⟨k, true⟩, ⟨n, false⟩] ++ rest, rfl, ⟨⟨?_, ?_⟩, ?_⟩, ?_, ?_⟩
  · rw [htotal]
    exact cutOff_laid hr.toLaid (by rw [hheader, hb]) (by rw [hheader]) (by simpa using hsplit) hk
      hk' hn
  · rw [cutOff_lfree]
    dsimp only
    rw [hr.lfree]
    exact firstFree_move (fun x hx => hr.pos x (by simp [hx])) hb hc
  · have hcoal := hr.coalesced
    rw [List.append_assoc] at hcoal ⊢
    have hleft : Coalesced (pre ++ [⟨k, true⟩]) := by
      apply hcoal.left.append (List.isChain_singleton _)
      simp
    have hright : Coalesced (⟨n, false⟩ :: rest) :=
      Coalesced.congr (l := []) hcoal.right.tail (.inr hc.symm)
    have := hleft.append hright (by simp)
    simpa using this
  · rw [live_cut, ← hsplit, live_free hc, Nat.add_assoc]
  · intro x hx
    obtain (rfl | rfl) | hcut := cutOff_writes hx
    · exact .inl (border_here pre b (c :: rest))
    · exact .inl hlast
    · exact .inr hcut

/-- Memory can be shrunk, or stays as it is. -/
theorem memRealloc_spec (hr : Rep o h (pre ++ b :: post)) (hb : b.used = true) (newsize : Nat) :
    ∃ r h' bs k, memRealloc o h (total pre + sizeofStructMem) newsize = (r, h') ∧ Rep o h' bs ∧
      live 0 bs = live 0 pre ++ (total pre, k) :: live (total pre + b.size) post ∧ k ≤ b.size ∧
      (∀ x, h'.ram x ≠ h.ram x → Border (pre ++ b :: post) x ∨ Border bs x) ∧
      (r = none ∧ k = b.size ∧ b.size < sizeofStructMem + roundSize newsize ∨
        r = some (total pre + sizeofStructMem) ∧ sizeofStructMem + roundSize newsize ≤ k) := by
  have hsize := hr.size_le b (by simp)
  have htotal := hr.total_eq
  simp only [total_append, total_cons] at htotal
  obtain ⟨hmin, hdvd, -⟩ := roundSize_spec newsize
  have hheader := linked_header hr.linked
  have hnext : (h.ram (total pre)).next = total pre + b.size := by rw [hheader]
  have hplace : total pre + sizeofStructMem + roundSize newsize =
      total pre + (sizeofStructMem + roundSize newsize) := Nat.add_assoc _ _ _
  have hk : 4 ∣ sizeofStructMem + roundSize newsize := Nat.dvd_add (by decide) hdvd
  have hsame : live 0 (pre ++ b :: post) =
      live 0 pre ++ (total pre, b.size) :: live (total pre + b.size) post := by
    rw [live_append, Nat.zero_add, live_used hb]
  have hnothing : ∀ x, h.ram x ≠ h.ram x →
      Border (pre ++ b :: post) x ∨ Border (pre ++ b :: post) x := fun x hx => absurd rfl hx
  rw [sizeofStructMem_eq, minSizeAligned_eq] at hsize
  rw [minSizeAligned_eq] at hmin
  have hlegal : ¬ o.memSizeAligned ≤ total pre + sizeofStructMem := by
    rw [sizeofStructMem_eq]
    omega
  have hdata : total pre + b.size - total pre - sizeofStructMem = b.size - sizeofStructMem := by
    omega
  unfold memRealloc
  dsimp only
  rw [if_neg hlegal, Nat.add_sub_cancel, hnext, hdata, hplace]
  by_cases htoobig : o.memSizeAligned < roundSize newsize
  · rw [if_pos htoobig]
    refine ⟨_, _, _, _, rfl, hr, hsame, le_rfl, hnothing, .inl ⟨rfl, rfl, ?_⟩⟩
    omega
  rw [if_neg htoobig]
  by_cases hgrow : b.size - sizeofStructMem < roundSize newsize
  · rw [if_pos hgrow]
    refine ⟨_, _, _, _, rfl, hr, hsame, le_rfl, hnothing, .inl ⟨rfl, rfl, ?_⟩⟩
    omega
  rw [if_neg hgrow]
  by_cases hequal : roundSize newsize = b.size - sizeofStructMem
  · rw [if_pos hequal]
    refine ⟨_, _, _, _, rfl, hr, hsame, le_rfl, hnothing, .inr ⟨rfl, ?_⟩⟩
    rw [sizeofStructMem_eq] at hequal ⊢
    omega
  rw [if_neg hequal]
  rw [sizeofStructMem_eq] at hgrow hequal
  by_cases hfree : (h.ram (total pre + b.size)).used = false
  · rw [if_pos hfree]
    cases post with
    | nil =>
      rw [total_nil, Nat.add_zero] at htotal
      rw [htotal, hr.ramEnd] at hfree
      contradiction
    | cons c rest =>
      have hheader' := linked_next hr.linked
      have hc : c.used = false := by rwa [hheader'] at hfree
      have hcsize := hr.size_le c (by simp)
      rw [sizeofStructMem_eq, minSizeAligned_eq] at hcsize
      have hnext' : (h.ram (total pre + b.size)).next = total pre + b.size + c.size := by
        rw [hheader']
      rw [hnext']
      have hsplit : b.size + c.size = sizeofStructMem + roundSize newsize +
          (b.size + c.size - (sizeofStructMem + roundSize newsize)) := by
        rw [sizeofStructMem_eq]
        omega
      obtain ⟨h', bs, rfl, hrep, hlive, hwrites⟩ :=
        cutFree_spec hr hb hc hsplit (Nat.add_le_add_left (by rwa [minSizeAligned_eq]) _) hk (by
          rw [sizeofStructMem_eq, minSizeAligned_eq]
          omega)
      refine ⟨_, _, bs, _, rfl, hrep, hlive, ?_, hwrites, .inr ⟨rfl, le_rfl⟩⟩
      rw [sizeofStructMem_eq]
      omega
  · rw [if_neg hfree]
    have hpost : ∀ x ∈ post.head?, x.used = true := by
      cases post with
      | nil => simp
      | cons c rest =>
        rw [linked_next hr.linked, Bool.not_eq_false] at hfree
        simpa using hfree
    by_cases hroom : roundSize newsize + sizeofStructMem + minSizeAligned ≤ b.size - sizeofStructMem
    · rw [if_pos hroom]
      rw [sizeofStructMem_eq, minSizeAligned_eq] at hroom
      have hsplit : b.size = sizeofStructMem + roundSize newsize +
          (b.size - (sizeofStructMem + roundSize newsize)) := by
        rw [sizeofStructMem_eq]
        omega
      obtain ⟨h', bs, rfl, hrep, hlive, hwrites⟩ :=
        cutUsed_spec hr hb hpost hsplit (Nat.add_le_add_left (by rwa [minSizeAligned_eq]) _) hk (by
          rw [sizeofStructMem_eq, minSizeAligned_eq]
          omega)
      refine ⟨_, _, bs, _, rfl, hrep, hlive, ?_, hwrites, .inr ⟨rfl, le_rfl⟩⟩
      rw [sizeofStructMem_eq]
      omega
    · rw [if_neg hroom]
      refine ⟨_, _, _, _, rfl, hr, hsame, le_rfl, hnothing, .inr ⟨rfl, ?_⟩⟩
      rw [sizeofStructMem_eq]
      omega

end Split

end PopcornFirmware.Lwip.MemBlocks
