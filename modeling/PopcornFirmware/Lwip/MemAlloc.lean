import PopcornFirmware.Lwip.MemBlocks

namespace PopcornFirmware.Lwip.MemAlloc

open PopcornFirmware.Lib.Blocks PopcornFirmware.Lwip.MemHeap PopcornFirmware.Lwip.MemBlocks

variable {o : Opts} {h : Heap} {bs pre post : List Block} {b : Block} {size : Nat}

section Init

theorem memSizeAligned_spec (o : Opts) : 4 ∣ o.memSizeAligned ∧
    sizeofStructMem + minSizeAligned ≤ o.memSizeAligned ∧ o.memSizeAligned ≤ 64000 := by
  have hle := o.le_memSize
  have hmax := o.memSize_le
  unfold Opts.memSizeAligned memAlignSize
  rw [sizeofStructMem_eq, minSizeAligned_eq] at hle ⊢
  omega

/-- The heap begins as one free block. -/
theorem memInit_rep (ram : Nat → Mem) : Rep o (memInit o ram) [⟨o.memSizeAligned, false⟩] := by
  obtain ⟨hdvd, hle, -⟩ := memSizeAligned_spec o
  have hne : (0 : Nat) ≠ o.memSizeAligned := by
    rw [sizeofStructMem_eq] at hle
    omega
  have hfirst : (memInit o ram).ram 0 = ⟨o.memSizeAligned, 0, false⟩ := by
    unfold memInit
    dsimp only
    rw [Function.update_of_ne hne, Function.update_self]
  refine ⟨⟨⟨?_, ?_, ?_, ?_, ?_⟩, rfl⟩, List.isChain_singleton _⟩
  · refine ⟨?_, ?_, ?_, trivial⟩
    all_goals rw [hfirst]
    rw [Nat.zero_add]
  · rw [total_cons, total_nil, Nat.add_zero]
  · exact List.forall_mem_singleton.mpr hle
  · exact List.forall_mem_singleton.mpr hdvd
  · unfold memInit
    dsimp only
    rw [Function.update_self]

end Init

section Search

/-- A free block with room for a struct and the data. -/
def Fits (size : Nat) (b : Block) : Prop := b.used = false ∧ sizeofStructMem + size ≤ b.size

theorem memMallocLoop_spec (hl : Laid o h.ram (pre ++ post)) (hsize : size ≤ o.memSizeAligned)
    {rounds : Nat} (hrounds : post.length < rounds) :
    (∃ l b r, post = l ++ b :: r ∧ Fits size b ∧ (∀ x ∈ l, ¬ Fits size x) ∧
      memMallocLoop o h size rounds (total pre) = some (some (total pre + total l))) ∨
    (∀ x ∈ post, ¬ Fits size x) ∧ memMallocLoop o h size rounds (total pre) = some none := by
  induction post generalizing pre rounds with
  | nil =>
    obtain ⟨rounds, rfl⟩ := Nat.exists_eq_add_one.mpr (Nat.zero_lt_of_lt hrounds)
    have htotal := hl.total_eq
    rw [List.append_nil] at htotal
    refine .inr ⟨by simp, ?_⟩
    rw [memMallocLoop, if_neg (by omega)]
  | cons b post ih =>
    obtain ⟨rounds, rfl⟩ := Nat.exists_eq_add_one.mpr (Nat.zero_lt_of_lt hrounds)
    have hheader := linked_header hl.linked
    have hnext : (h.ram (total pre)).next = total pre + b.size := by rw [hheader]
    have hused : (h.ram (total pre)).used = b.used := by rw [hheader]
    have htotal := hl.total_eq
    simp only [total_append, total_cons] at htotal
    have hdata : total pre + b.size - (total pre + sizeofStructMem) =
        b.size - sizeofStructMem := by omega
    have hbsize := hl.size_le b (by simp)
    rw [sizeofStructMem_eq, minSizeAligned_eq] at hbsize
    rw [memMallocLoop]
    dsimp only
    by_cases hroom : total pre < o.memSizeAligned - size
    · rw [if_pos hroom, hnext, hused, hdata]
      by_cases hfit : Fits size b
      · refine .inl ⟨[], b, post, rfl, hfit, by simp, ?_⟩
        obtain ⟨hfree, hbig⟩ := hfit
        rw [if_pos ⟨hfree, by omega⟩]
        rfl
      · rw [if_neg fun hcond => hfit ⟨hcond.1, by
          have := hcond.2
          rw [sizeofStructMem_eq] at this ⊢
          omega⟩]
        have hplace : total pre + b.size = total (pre ++ [b]) := by simp
        rw [hplace]
        rw [List.append_cons] at hl
        obtain ⟨l, c, r, rfl, hc, hskip, hloop⟩ | ⟨hnone, hloop⟩ :=
          ih hl (Nat.lt_of_succ_lt_succ hrounds)
        · refine .inl ⟨b :: l, c, r, rfl, hc, List.forall_mem_cons.mpr ⟨hfit, hskip⟩, ?_⟩
          rw [hloop, ← hplace, total_cons, Nat.add_assoc]
        · exact .inr ⟨List.forall_mem_cons.mpr ⟨hfit, hnone⟩, hloop⟩
    · rw [if_neg hroom]
      refine .inr ⟨?_, rfl⟩
      rintro x hx ⟨-, hbig⟩
      obtain ⟨l, r, hsplit⟩ := List.append_of_mem hx
      have := congrArg total hsplit
      simp only [total_append, total_cons] at this
      rw [sizeofStructMem_eq] at hbig
      omega

theorem lfreeLoop_spec (hl : Laid o h.ram (pre ++ post)) {rounds : Nat}
    (hrounds : post.length < rounds) :
    lfreeLoop o h rounds (total pre) = some (firstFree (total pre) post) := by
  induction post generalizing pre rounds with
  | nil =>
    obtain ⟨rounds, rfl⟩ := Nat.exists_eq_add_one.mpr (Nat.zero_lt_of_lt hrounds)
    have htotal := hl.total_eq
    rw [List.append_nil] at htotal
    rw [lfreeLoop, if_neg (by simp [htotal])]
    rfl
  | cons b post ih =>
    obtain ⟨rounds, rfl⟩ := Nat.exists_eq_add_one.mpr (Nat.zero_lt_of_lt hrounds)
    have hheader := linked_header hl.linked
    have hused : (h.ram (total pre)).used = b.used := by rw [hheader]
    have hnext : (h.ram (total pre)).next = total pre + b.size := by rw [hheader]
    have hbpos := hl.pos b (by simp)
    have htotal := hl.total_eq
    simp only [total_append, total_cons] at htotal
    rw [lfreeLoop, hused, hnext, firstFree]
    by_cases hb : b.used = true
    · rw [if_pos ⟨hb, by omega⟩, if_pos hb]
      have hplace : total pre + b.size = total (pre ++ [b]) := by simp
      rw [hplace]
      apply ih _ (Nat.lt_of_succ_lt_succ hrounds)
      rwa [List.append_cons] at hl
    · rw [if_neg fun hcond => hb hcond.1, if_neg hb]

end Search

section Malloc

/-- What is taken off a free block, and what is left of it. -/
theorem takeBlock_spec (hr : Rep o h (pre ++ b :: post)) (hfit : Fits size b)
    (hmin : minSizeAligned ≤ size) (hdvd : 4 ∣ size) :
    (takeBlock o h (total pre) size).lfree = h.lfree ∧
      ∃ k new, Laid o (takeBlock o h (total pre) size).ram (pre ++ ⟨k, true⟩ :: (new ++ post)) ∧
        Coalesced (pre ++ ⟨k, true⟩ :: (new ++ post)) ∧
        live 0 (pre ++ ⟨k, true⟩ :: (new ++ post)) =
          live 0 pre ++ (total pre, k) :: live (total pre + b.size) post ∧
        sizeofStructMem + size ≤ k ∧ k ≤ b.size ∧
        ∀ x, (takeBlock o h (total pre) size).ram x ≠ h.ram x →
          Border (pre ++ b :: post) x ∨ Border (pre ++ ⟨k, true⟩ :: (new ++ post)) x := by
  obtain ⟨hfree, hbig⟩ := hfit
  have hheader := linked_header hr.linked
  have hnext : (h.ram (total pre)).next = total pre + b.size := by rw [hheader]
  have hset := setUsed_laid hr.toLaid true
  have hdata : total pre + b.size - (total pre + sizeofStructMem) =
      b.size - sizeofStructMem := by omega
  unfold takeBlock
  dsimp only
  rw [hnext, hdata]
  by_cases hroom : size + sizeofStructMem + minSizeAligned ≤ b.size - sizeofStructMem
  · rw [if_pos hroom, Nat.add_assoc (total pre)]
    have hsplit : b.size = sizeofStructMem + size + (b.size - (sizeofStructMem + size)) := by omega
    have hone : b.size = total [{ b with used := true }] := by simp
    refine ⟨cutOff_lfree _ _ _, sizeofStructMem + size,
      [⟨b.size - (sizeofStructMem + size), false⟩], ?_, ?_, ?_, le_rfl, hbig, ?_⟩
    · rw [List.append_cons] at hset
      have hcut := cutOff_laid (k := sizeofStructMem + size) hset ?_ ?_ (hone.symm.trans hsplit) ?_
        (Nat.dvd_add (by decide) hdvd) ?_
      · rw [hone]
        simpa using hcut
      · rw [modify_self]
      · rw [modify_self, hheader]
      · exact Nat.add_le_add_left hmin _
      · omega
    · have hleft : Coalesced (pre ++ [⟨sizeofStructMem + size, true⟩]) := by
        apply hr.coalesced.left.append (List.isChain_singleton _)
        simp
      have hright : Coalesced (⟨b.size - (sizeofStructMem + size), false⟩ :: post) :=
        Coalesced.congr (l := []) hr.coalesced.right (.inr hfree.symm)
      have := hleft.append hright (by simp)
      simpa using this
    · rw [List.singleton_append, live_append, Nat.zero_add, live_used rfl, live_free rfl]
      dsimp only
      rw [Nat.add_assoc, ← hsplit]
    · intro x hx
      by_cases hhere : x = total pre
      · rw [hhere]
        exact .inl (border_here pre b post)
      have hkeep : (h.modify (total pre) ({ · with used := true })).ram x = h.ram x :=
        modify_ne _ hhere
      obtain (rfl | rfl) | hcut : (x = total pre ∨ x = total pre + b.size) ∨
          Border (pre ++ [⟨sizeofStructMem + size, true⟩,
            ⟨b.size - (sizeofStructMem + size), false⟩] ++ post) x :=
        cutOff_writes fun heq => hx (heq.trans hkeep)
      · exact absurd rfl hhere
      · exact .inl (border_next pre b post)
      · rw [List.append_assoc] at hcut
        exact .inr hcut
  · rw [if_neg hroom]
    refine ⟨rfl, b.size, [], hset, hr.coalesced.congr (.inl rfl), ?_, hbig, le_rfl, ?_⟩
    · rw [live_append, Nat.zero_add]
      exact congrArg _ (live_used rfl)
    · intro x hx
      by_cases hhere : x = total pre
      · rw [hhere]
        exact .inl (border_here pre b post)
      · exact absurd (modify_ne _ hhere) hx

/-- The lowest free block, when one is taken. -/
theorem lfree_spec {h' : Heap} {c : Block} (hr : Rep o h (pre ++ b :: post)) (hb : b.used = false)
    (hl : Laid o h'.ram (pre ++ c :: bs)) (hlfree : h'.lfree = h.lfree) :
    (if total pre = h'.lfree then lfreeLoop o h' (o.memSizeAligned + 1) h'.lfree
      else some h'.lfree) = some (firstFree 0 (pre ++ c :: bs)) := by
  have hpos : ∀ x ∈ pre, 0 < x.size := fun x hx => hr.pos x (by simp [hx])
  have hlength := length_le_total hl.pos
  rw [hl.total_eq, List.length_append] at hlength
  rw [hlfree, hr.lfree]
  by_cases hall : ∀ x ∈ pre, x.used = true
  · rw [firstFree_append_used hall, firstFree_append_used hall, Nat.zero_add]
    have hhere : firstFree (total pre) (b :: post) = total pre := by simp [firstFree, hb]
    rw [hhere, if_pos rfl]
    exact lfreeLoop_spec hl (by omega)
  · have hlt := firstFree_lt (p := 0) hpos hall
    rw [firstFree_append_free hall, firstFree_append_free hall, if_neg (by omega)]

theorem roundSize_le (hr : Rep o h bs) {x : Block} (hx : x ∈ bs) (hfit : Fits size x) :
    sizeofStructMem + size ≤ o.memSizeAligned := by
  obtain ⟨l, r, rfl⟩ := List.append_of_mem hx
  have htotal := hr.total_eq
  simp only [total_append, total_cons] at htotal
  exact hfit.2.trans (by omega)

/-- The first free block that is big enough is taken. Only when there is none,
there is no memory. -/
theorem memMalloc_spec (hr : Rep o h bs) (size : Nat) :
    (size = 0 ∨ ∀ x ∈ bs, ¬ Fits (roundSize size) x) ∧ memMalloc o h size = some (none, h) ∨
    ∃ pre b post h' bs' k, bs = pre ++ b :: post ∧ size ≠ 0 ∧ Fits (roundSize size) b ∧
      (∀ x ∈ pre, ¬ Fits (roundSize size) x) ∧
      memMalloc o h size = some (some (total pre + sizeofStructMem), h') ∧ Rep o h' bs' ∧
      live 0 bs' = live 0 pre ++ (total pre, k) :: live (total pre + b.size) post ∧
      sizeofStructMem + roundSize size ≤ k ∧ k ≤ b.size ∧
      ∀ x, h'.ram x ≠ h.ram x → Border bs x ∨ Border bs' x := by
  obtain ⟨hmin, hdvd, -⟩ := roundSize_spec size
  unfold memMalloc
  by_cases hzero : size = 0
  · rw [if_pos hzero]
    exact .inl ⟨.inl hzero, rfl⟩
  rw [if_neg hzero]
  by_cases htoobig : o.memSizeAligned < roundSize size
  · rw [if_pos htoobig]
    refine .inl ⟨.inr fun x hx hfit => ?_, rfl⟩
    have := roundSize_le hr hx hfit
    omega
  rw [if_neg htoobig]
  obtain ⟨before, rest, rfl, hused, hlfree⟩ := firstFree_split (p := 0) (l := bs)
  have hskipped : ∀ x ∈ before, ¬ Fits (roundSize size) x := by
    rintro x hx ⟨hfree, -⟩
    rw [hused x hx] at hfree
    contradiction
  have hlength := length_le_total hr.pos
  rw [hr.total_eq, List.length_append] at hlength
  rw [hr.lfree, hlfree, Nat.zero_add]
  obtain ⟨l, b, r, rfl, hfit, hskip, hloop⟩ | ⟨hnone, hloop⟩ :=
    memMallocLoop_spec hr.toLaid (Nat.le_of_not_lt htoobig)
      (show rest.length < o.memSizeAligned + 1 by omega)
  · rw [hloop, ← total_append]
    rw [← List.append_assoc] at hr
    obtain ⟨htake, k, new, hlaid, hcoal, hlive, hk, hk', hwrites⟩ :=
      takeBlock_spec hr hfit hmin hdvd
    have hfree := lfree_spec hr hfit.1 hlaid htake
    rw [Option.bind_some]
    dsimp only
    rw [hfree, Option.map_some]
    refine .inr ⟨before ++ l, b, r, _, _, k, by rw [List.append_assoc], hzero, hfit, ?_, rfl,
      ⟨⟨hlaid, rfl⟩, hcoal⟩, hlive, hk, hk', ?_⟩
    · intro x hx
      exact (List.mem_append.mp hx).elim (hskipped x) (hskip x)
    · rwa [List.append_assoc] at hwrites
  · rw [hloop]
    refine .inl ⟨.inr fun x hx => ?_, rfl⟩
    exact (List.mem_append.mp hx).elim (hskipped x) (hnone x)

end Malloc

end PopcornFirmware.Lwip.MemAlloc
