import Mathlib.Order.Bounds.Defs
import PopcornFirmware.Lib.Runs
import PopcornFirmware.Lwip.MemAlloc

namespace PopcornFirmware.Lwip.MemRuns

open PopcornFirmware.Lib.Blocks PopcornFirmware.Lib.Runs PopcornFirmware.Lwip.MemHeap
  PopcornFirmware.Lwip.MemBlocks PopcornFirmware.Lwip.MemAlloc

section Model

inductive Request where
  | malloc (size : Nat)
  | realloc (rmem newsize : Nat)
  | free (rmem : Nat)

/-- The heap, and for every pointer that is held how many bytes were asked
for. -/
structure State where
  heap : Heap
  held : Nat → Option Nat

variable (o : Opts)

def init (ram : Nat → Mem) : State := ⟨memInit o ram, fun _ => none⟩

/-- A request that ends with a pointer lets its sender hold it. -/
def State.answer (s : State) (size : Nat) (r : Option Nat × Heap) : State where
  heap := r.2
  held := r.1.elim s.held fun p => Function.update s.held p (some size)

def step (s : State) : Request → Option State
  | .malloc size => (memMalloc o s.heap size).map (s.answer size)
  | .realloc rmem newsize => some (s.answer newsize (memRealloc o s.heap rmem newsize))
  | .free rmem => some ⟨memFree o s.heap rmem, Function.update s.held rmem none⟩

/-- Only what is held may be given back or shrunk. -/
def Allowed (s : State) : Request → Prop
  | .malloc _ => True
  | .realloc rmem _ => s.held rmem ≠ none
  | .free rmem => s.held rmem ≠ none

instance (s : State) : ∀ r, Decidable (Allowed s r)
  | .malloc _ => inferInstanceAs (Decidable True)
  | .realloc rmem _ => inferInstanceAs (Decidable (s.held rmem ≠ none))
  | .free rmem => inferInstanceAs (Decidable (s.held rmem ≠ none))

def lwipopts : Opts := ⟨5 * 1024, by decide, by decide⟩

def smallHeap : Opts := ⟨512, by decide, by decide⟩

def requests : List Request :=
  [.malloc 100, .malloc 50, .malloc 6000, .realloc 8 40, .malloc 24, .free 116, .malloc 1]

end Model

section Invariant

/-- The pointers that are held are those of the used blocks. -/
structure Ok (o : Opts) (s : State) (bs : List Block) : Prop extends Rep o s.heap bs where
  held_live : ∀ p n, s.held p = some n → ∃ x ∈ live 0 bs, p = x.1 + sizeofStructMem ∧
    sizeofStructMem + roundSize n ≤ x.2
  live_held : ∀ x ∈ live 0 bs, s.held (x.1 + sizeofStructMem) ≠ none

variable {o : Opts} {s : State} {h : Heap} {bs bs' pre post : List Block} {b : Block}

theorem init_ok (ram : Nat → Mem) : Ok o (init o ram) [⟨o.memSizeAligned, false⟩] := by
  refine ⟨memInit_rep ram, ?_, ?_⟩
  · intro p n h
    contradiction
  · intro x hx
    contradiction

/-- The block of a pointer that is held. -/
theorem Ok.block (hs : Ok o s bs) {p n : Nat} (hp : s.held p = some n) :
    ∃ pre b post, bs = pre ++ b :: post ∧ b.used = true ∧ p = total pre + sizeofStructMem ∧
      sizeofStructMem + roundSize n ≤ b.size := by
  obtain ⟨x, hx, rfl, hn⟩ := hs.held_live p n hp
  obtain ⟨pre, b, post, hbs, hb, rfl⟩ := exists_block_of_live hx
  exact ⟨pre, b, post, hbs, hb, by rw [Nat.zero_add], hn⟩

/-- The used blocks around a block. -/
theorem Ok.others (hs : Ok o s (pre ++ b :: post)) (x : Nat × Nat) :
    x ∈ live 0 pre ++ live (total pre + b.size) post ↔
      x ∈ live 0 (pre ++ b :: post) ∧ x.1 ≠ total pre := by
  have hpos := hs.pos
  have hb := hpos b (by simp)
  have hne : x ∈ live 0 pre ++ live (total pre + b.size) post → x.1 ≠ total pre := by
    intro hx
    obtain hx | hx := List.mem_append.mp hx
    · have hsize : 0 < x.2 := live_size (fun c hc => hpos c (by simp [hc])) hx
      have := (live_bounds hx).2
      omega
    · have := (live_bounds hx).1
      omega
  rw [live_append, Nat.zero_add]
  cases hu : b.used with
  | true =>
    rw [live_used hu]
    constructor
    · intro hx
      refine ⟨?_, hne hx⟩
      simp only [List.mem_append, List.mem_cons] at hx ⊢
      exact hx.imp_right .inr
    · rintro ⟨hx, hplace⟩
      simp only [List.mem_append, List.mem_cons] at hx ⊢
      obtain hx | rfl | hx := hx
      · exact .inl hx
      · exact absurd rfl hplace
      · exact .inr hx
  | false =>
    rw [live_free hu]
    exact ⟨fun hx => ⟨hx, hne hx⟩, And.left⟩

theorem place_ne {x : Nat × Nat} {q : Nat} (h : x.1 ≠ q) :
    x.1 + sizeofStructMem ≠ q + sizeofStructMem := by omega

/-- A pointer is given back, and the other used blocks stay. -/
theorem Ok.release (hs : Ok o s (pre ++ b :: post)) (hr : Rep o h bs')
    (hlive : live 0 bs' = live 0 pre ++ live (total pre + b.size) post) :
    Ok o ⟨h, Function.update s.held (total pre + sizeofStructMem) none⟩ bs' := by
  refine ⟨hr, ?_, ?_⟩
  · intro p n hp
    dsimp only at hp
    by_cases hpp : p = total pre + sizeofStructMem
    · rw [hpp, Function.update_self] at hp
      contradiction
    · rw [Function.update_of_ne hpp] at hp
      obtain ⟨x, hx, rfl, hn⟩ := hs.held_live p n hp
      refine ⟨x, ?_, rfl, hn⟩
      rw [hlive]
      exact (hs.others x).mpr ⟨hx, fun heq => hpp (by rw [heq])⟩
  · intro x hx
    rw [hlive] at hx
    obtain ⟨hx, hne⟩ := (hs.others x).mp hx
    dsimp only
    rw [Function.update_of_ne (place_ne hne)]
    exact hs.live_held x hx

/-- A pointer is held from now on, and the other used blocks stay. -/
theorem Ok.hold {k n : Nat} (hs : Ok o s (pre ++ b :: post)) (hr : Rep o h bs')
    (hlive : live 0 bs' = live 0 pre ++ (total pre, k) :: live (total pre + b.size) post)
    (hn : sizeofStructMem + roundSize n ≤ k) :
    Ok o ⟨h, Function.update s.held (total pre + sizeofStructMem) (some n)⟩ bs' := by
  have hmem : ∀ x, x ∈ live 0 bs' ↔
      x = (total pre, k) ∨ x ∈ live 0 pre ++ live (total pre + b.size) post := by
    intro x
    rw [hlive]
    simp only [List.mem_append, List.mem_cons]
    tauto
  refine ⟨hr, ?_, ?_⟩
  · intro p m hp
    dsimp only at hp
    by_cases hpp : p = total pre + sizeofStructMem
    · rw [hpp, Function.update_self] at hp
      obtain rfl := Option.some.inj hp
      exact ⟨(total pre, k), (hmem _).mpr (.inl rfl), hpp, hn⟩
    · rw [Function.update_of_ne hpp] at hp
      obtain ⟨x, hx, rfl, hm⟩ := hs.held_live p m hp
      refine ⟨x, (hmem x).mpr (.inr ?_), rfl, hm⟩
      exact (hs.others x).mpr ⟨hx, fun heq => hpp (by rw [heq])⟩
  · intro x hx
    dsimp only
    obtain rfl | hx := (hmem x).mp hx
    · rw [Function.update_self]
      exact Option.some_ne_none n
    · obtain ⟨hx, hne⟩ := (hs.others x).mp hx
      rw [Function.update_of_ne (place_ne hne)]
      exact hs.live_held x hx

/-- A block stays as big as it was, or what is held of it stays. -/
theorem Ok.keep {k : Nat} (hs : Ok o s (pre ++ b :: post)) (hb : b.used = true)
    (hr : Rep o h bs')
    (hlive : live 0 bs' = live 0 pre ++ (total pre, k) :: live (total pre + b.size) post)
    (hk : k = b.size) : Ok o ⟨h, s.held⟩ bs' := by
  have hsame : live 0 bs' = live 0 (pre ++ b :: post) := by
    rw [hlive, hk, live_append, Nat.zero_add, live_used hb]
  refine ⟨hr, ?_, ?_⟩
  · intro p n hp
    rw [hsame]
    exact hs.held_live p n hp
  · intro x hx
    rw [hsame] at hx
    exact hs.live_held x hx

/-- What is written at borders of blocks stays out of the blocks around them. -/
theorem borders_outside {k : Nat}
    (hlive : live 0 bs' = live 0 pre ++ (total pre, k) :: live (total pre + b.size) post)
    (hk : k ≤ b.size) {x : Nat} (hx : Border (pre ++ b :: post) x ∨ Border bs' x)
    {y : Nat × Nat} (hy : y ∈ live 0 bs') : x ≤ y.1 ∨ y.1 + y.2 ≤ x := by
  obtain hx | hx := hx
  · rw [hlive, List.mem_append, List.mem_cons] at hy
    obtain hy | rfl | hy := hy
    · apply hx.apart_live
      rw [live_append]
      exact List.mem_append_left _ hy
    · have := hx.apart
      dsimp only
      omega
    · apply hx.apart_live
      rw [live_append, Nat.zero_add]
      apply List.mem_append_right
      cases hu : b.used with
      | true =>
        rw [live_used hu]
        exact List.mem_cons_of_mem _ hy
      | false => rwa [live_free hu]
  · exact hx.apart_live hy

/-- Every request comes to an end, and writes outside of what is held. -/
theorem step_ok (hs : Ok o s bs) (r : Request) (hr : Allowed s r) :
    ∃ t, step o s r = some t ∧ ∃ bs', Ok o t bs' ∧ ∀ x, t.heap.ram x ≠ s.heap.ram x →
      ∀ y ∈ live 0 bs', x ≤ y.1 ∨ y.1 + y.2 ≤ x := by
  cases r with
  | malloc size =>
    obtain ⟨-, hmalloc⟩ | ⟨pre, b, post, h', bs', k, rfl, -, -, -, hmalloc, hrep, hlive, hk, hk',
        hwrites⟩ := memMalloc_spec hs.toRep size
    · exact ⟨_, congrArg (Option.map (s.answer size)) hmalloc, bs, hs,
        fun x hx => absurd rfl hx⟩
    · exact ⟨_, congrArg (Option.map (s.answer size)) hmalloc, bs', hs.hold hrep hlive hk,
        fun x hx y hy => borders_outside hlive hk' (hwrites x hx) hy⟩
  | realloc rmem newsize =>
    obtain ⟨n, hn⟩ := Option.ne_none_iff_exists'.mp hr
    obtain ⟨pre, b, post, rfl, hb, rfl, -⟩ := hs.block hn
    obtain ⟨r, h', bs', k, hrealloc, hrep, hlive, hk', hwrites, hend⟩ :=
      memRealloc_spec hs.toRep hb newsize
    refine ⟨_, rfl, bs', ?_⟩
    rw [hrealloc]
    refine ⟨?_, fun x hx y hy => borders_outside hlive hk' (hwrites x hx) hy⟩
    obtain ⟨rfl, hk, -⟩ | ⟨rfl, hk⟩ := hend
    · exact hs.keep hb hrep hlive hk
    · exact hs.hold hrep hlive hk
  | free rmem =>
    obtain ⟨n, hn⟩ := Option.ne_none_iff_exists'.mp hr
    obtain ⟨pre, b, post, rfl, hb, rfl, -⟩ := hs.block hn
    obtain ⟨bs', hrep, hlive, hwrites⟩ := memFree_spec hs.toRep hb
    refine ⟨_, rfl, bs', hs.release hrep hlive, fun x hx y hy => ?_⟩
    rw [hlive] at hy
    exact (hwrites x hx).apart_live ((hs.others y).mp hy).1

end Invariant

section Properties

variable {o : Opts} {s : State} {bs : List Block}

/-- What is held is aligned and lies in the heap, and behind it begins what
belongs to the next pointer at the earliest. Only above 65532 bytes are the
sizes lost, where aligning them wraps around. -/
structure Apart (o : Opts) (s : State) : Prop where
  aligned : ∀ p n, s.held p = some n → 4 ∣ p
  inside : ∀ p n, s.held p = some n → sizeofStructMem ≤ p ∧
    (n ≤ 65532 → p + n ≤ o.memSizeAligned)
  apart : ∀ p n q m, s.held p = some n → s.held q = some m → p < q →
    n ≤ 65532 → p + n + sizeofStructMem ≤ q

theorem le_roundSize {n : Nat} (hn : n ≤ 65532) : n ≤ roundSize n :=
  (roundSize_spec n).2.2 (by omega)

theorem Ok.apart (hs : Ok o s bs) : Apart o s := by
  refine ⟨?_, ?_, ?_⟩
  · intro p n hp
    obtain ⟨x, hx, rfl, -⟩ := hs.held_live p n hp
    exact Nat.dvd_add (dvd_live (Nat.dvd_zero 4) hs.aligned hx) (by decide)
  · intro p n hp
    obtain ⟨x, hx, rfl, hn⟩ := hs.held_live p n hp
    have hbound := (live_bounds hx).2
    rw [hs.total_eq] at hbound
    refine ⟨Nat.le_add_left _ _, fun hle => ?_⟩
    have := le_roundSize hle
    omega
  · intro p n q m hp hq hpq hle
    obtain ⟨x, hx, rfl, hn⟩ := hs.held_live p n hp
    obtain ⟨y, hy, rfl, -⟩ := hs.held_live q m hq
    have hround := le_roundSize hle
    have hapart := live_disjoint hx hy (Nat.lt_of_add_lt_add_right hpq)
    omega

theorem run_ok (ram : Nat → Mem) {rs : List Request}
    (hrs : Steps (step o) Allowed (init o ram) rs) :
    ∃ s, exec (step o) (init o ram) rs = some s ∧ ∃ bs, Ok o s bs := by
  apply exec_total _ ⟨_, init_ok ram⟩ hrs
  rintro s r ⟨bs, hbs⟩ hr
  obtain ⟨t, ht, bs', hbs', -⟩ := step_ok hbs r hr
  exact ⟨t, ht, bs', hbs'⟩

/-- Users of the heap never share a byte, however they take, shrink and give
back memory, and every call comes to an end. -/
theorem run_apart (o : Opts) (ram : Nat → Mem) (rs : List Request)
    (hrs : Steps (step o) Allowed (init o ram) rs) :
    ∃ s, exec (step o) (init o ram) rs = some s ∧ Apart o s := by
  obtain ⟨s, hs, bs, hok⟩ := run_ok ram hrs
  exact ⟨s, hs, hok.apart⟩

theorem run_apart_requests : ∃ s, exec (step lwipopts)
    (init lwipopts fun _ => ⟨0, 0, false⟩) requests = some s ∧ Apart lwipopts s :=
  run_apart lwipopts _ requests (by decide +kernel)

/-- The structs of the heap are never written into what is held. -/
theorem run_writes (o : Opts) (ram : Nat → Mem) (rs : List Request)
    (hrs : Steps (step o) Allowed (init o ram) rs) :
    ∃ s, exec (step o) (init o ram) rs = some s ∧ ∀ r, Allowed s r →
      ∃ t, step o s r = some t ∧ ∀ x, t.heap.ram x ≠ s.heap.ram x →
        ∀ p n, t.held p = some n → n ≤ 65532 → x + sizeofStructMem ≤ p ∨ p + n ≤ x := by
  obtain ⟨s, hs, bs, hok⟩ := run_ok ram hrs
  refine ⟨s, hs, fun r hr => ?_⟩
  obtain ⟨t, ht, bs', hok', hwrites⟩ := step_ok hok r hr
  refine ⟨t, ht, fun x hx p n hp hn => ?_⟩
  obtain ⟨y, hy, rfl, hsize⟩ := hok'.held_live p n hp
  have := le_roundSize hn
  have := hwrites x hx y hy
  omega

theorem run_writes_requests : ∃ s, exec (step lwipopts)
    (init lwipopts fun _ => ⟨0, 0, false⟩) requests = some s ∧ ∀ r, Allowed s r →
      ∃ t, step lwipopts s r = some t ∧ ∀ x, t.heap.ram x ≠ s.heap.ram x →
        ∀ p n, t.held p = some n → n ≤ 65532 → x + sizeofStructMem ≤ p ∨ p + n ≤ x :=
  run_writes lwipopts _ requests (by decide +kernel)

/-- There are n bytes at a that belong to no pointer that is held. The block
of a pointer goes as far as the struct before it says. -/
def Room (o : Opts) (s : State) (n a : Nat) : Prop :=
  a + n ≤ o.memSizeAligned ∧ ∀ p, s.held p ≠ none →
    (s.heap.ram (p - sizeofStructMem)).next ≤ a ∨ a + n ≤ p - sizeofStructMem

theorem Ok.room_iff (hs : Ok o s bs) {n a : Nat} : Room o s n a ↔
    a + n ≤ total bs ∧ ∀ x ∈ live 0 bs, x.1 + x.2 ≤ a ∨ a + n ≤ x.1 := by
  have hnext : ∀ x ∈ live 0 bs, (s.heap.ram x.1).next = x.1 + x.2 := by
    intro x hx
    obtain ⟨pre, b, post, rfl, -, rfl⟩ := exists_block_of_live hx
    dsimp only
    rw [Nat.zero_add, linked_header hs.linked]
  unfold Room
  rw [hs.total_eq]
  apply and_congr_right'
  constructor
  · intro h x hx
    have := h _ (hs.live_held x hx)
    rwa [Nat.add_sub_cancel, hnext x hx] at this
  · intro h p hp
    obtain ⟨m, hm⟩ := Option.ne_none_iff_exists'.mp hp
    obtain ⟨x, hx, rfl, -⟩ := hs.held_live p m hm
    rw [Nat.add_sub_cancel, hnext x hx]
    exact h x hx

theorem Ok.malloc (hs : Ok o s bs) {size : Nat} (hsize : size ≠ 0) :
    (∃ a h, memMalloc o s.heap size = some (some (a + sizeofStructMem), h) ∧
      IsLeast {a | Room o s (sizeofStructMem + roundSize size) a} a) ∨
    memMalloc o s.heap size = some (none, s.heap) ∧
      ∀ a, ¬ Room o s (sizeofStructMem + roundSize size) a := by
  have hpos : 0 < sizeofStructMem + roundSize size := by
    rw [sizeofStructMem_eq]
    omega
  have hfits : ∀ a, Room o s (sizeofStructMem + roundSize size) a →
      ∃ pre b post, bs = pre ++ b :: post ∧ Fits (roundSize size) b ∧ total pre ≤ a := by
    intro a ha
    obtain ⟨hbound, hlive⟩ := hs.room_iff.mp ha
    obtain ⟨pre, b, post, hbs, hb, hbig, hle⟩ :=
      exists_fit hs.coalesced hpos (Nat.zero_le a) (by omega) hlive
    exact ⟨pre, b, post, hbs, ⟨hb, hbig⟩, by omega⟩
  obtain ⟨hzero | hnone, hmalloc⟩ | ⟨pre, b, post, h', bs', k, rfl, -, hfit, hskip, hmalloc, -⟩ :=
    memMalloc_spec hs.toRep size
  · exact absurd hzero hsize
  · refine .inr ⟨hmalloc, fun a ha => ?_⟩
    obtain ⟨pre, b, post, rfl, hfit, -⟩ := hfits a ha
    exact hnone b (by simp) hfit
  · refine .inl ⟨total pre, h', hmalloc, ?_, ?_⟩
    · apply hs.room_iff.mpr
      refine ⟨?_, fun x hx => ?_⟩
      · have := hfit.2
        simp only [total_append, total_cons]
        omega
      · have := live_apart hfit.1 hx
        have := hfit.2
        omega
    · intro a ha
      obtain ⟨pre', b', post', hsplit, hfit', hle⟩ := hfits a ha
      apply le_trans _ hle
      obtain ⟨l, rfl, -⟩ | ⟨l, rfl, hl⟩ := List.append_eq_append_iff.mp hsplit
      · rw [total_append]
        exact Nat.le_add_right _ _
      · cases l with
        | nil => rw [List.append_nil]
        | cons c l =>
          obtain ⟨rfl, -⟩ := List.cons.inj hl
          exact absurd hfit' (hskip b' (by simp))

/-- Memory is taken at the lowest place that has room for it. There is none
only when no place between what is held has the room, so no room is lost by
how the heap was cut up before. -/
theorem run_malloc (o : Opts) (ram : Nat → Mem) (rs : List Request)
    (hrs : Steps (step o) Allowed (init o ram) rs) (size : Nat) (hsize : size ≠ 0) :
    ∃ s, exec (step o) (init o ram) rs = some s ∧
      ((∃ a h, memMalloc o s.heap size = some (some (a + sizeofStructMem), h) ∧
        IsLeast {a | Room o s (sizeofStructMem + roundSize size) a} a) ∨
      memMalloc o s.heap size = some (none, s.heap) ∧
        ∀ a, ¬ Room o s (sizeofStructMem + roundSize size) a) := by
  obtain ⟨s, hs, bs, hok⟩ := run_ok ram hrs
  exact ⟨s, hs, hok.malloc hsize⟩

theorem run_malloc_requests : ∃ s, exec (step lwipopts)
    (init lwipopts fun _ => ⟨0, 0, false⟩) requests = some s ∧
      ((∃ a h, memMalloc lwipopts s.heap 7 = some (some (a + sizeofStructMem), h) ∧
        IsLeast {a | Room lwipopts s (sizeofStructMem + roundSize 7) a} a) ∨
      memMalloc lwipopts s.heap 7 = some (none, s.heap) ∧
        ∀ a, ¬ Room lwipopts s (sizeofStructMem + roundSize 7) a) :=
  run_malloc lwipopts _ requests (by decide +kernel) 7 (by decide)

/-- When all that was taken is given back, the heap is again the one block
that it began as. -/
theorem run_freed (o : Opts) (ram : Nat → Mem) (rs : List Request)
    (hrs : Steps (step o) Allowed (init o ram) rs) :
    ∃ s, exec (step o) (init o ram) rs = some s ∧
      ((∀ p < o.memSizeAligned, s.held p = none) →
        s.heap.ram 0 = (memInit o ram).ram 0 ∧ s.heap.lfree = (memInit o ram).lfree ∧
        ∀ size, size ≠ 0 → sizeofStructMem + roundSize size ≤ o.memSizeAligned →
          ∃ h, memMalloc o s.heap size = some (some sizeofStructMem, h)) := by
  obtain ⟨s, hs, bs, hok⟩ := run_ok ram hrs
  refine ⟨s, hs, fun hnone => ?_⟩
  have hlive : live 0 bs = [] := by
    apply List.eq_nil_iff_forall_not_mem.mpr
    intro x hx
    have hbound := (live_bounds hx).2
    have hsize := live_size hok.size_le hx
    rw [hok.total_eq] at hbound
    rw [minSizeAligned_eq] at hsize
    exact hok.live_held x hx (hnone _ (by omega))
  have hpos : 0 < o.memSizeAligned := by
    have := (memSizeAligned_spec o).2.1
    rw [sizeofStructMem_eq] at this
    omega
  have hbs := eq_singleton_of_live hok.coalesced hlive hok.total_eq hpos
  refine ⟨?_, ?_, ?_⟩
  · rw [hbs] at hok
    rw [linked_first hok.linked, linked_first (memInit_rep ram).linked]
  · rw [hok.lfree, hbs]
    rfl
  · intro size hsize hfit
    have hroom : Room o s (sizeofStructMem + roundSize size) 0 :=
      hok.room_iff.mpr ⟨by rwa [Nat.zero_add, hok.total_eq], by simp [hlive]⟩
    obtain ⟨a, h, hmalloc, hleast⟩ | ⟨-, hno⟩ := hok.malloc hsize
    · obtain rfl : a = 0 := Nat.le_zero.mp (hleast.2 hroom)
      exact ⟨h, hmalloc.trans (by rw [Nat.zero_add])⟩
    · exact absurd hroom (hno 0)

theorem run_freed_requests : ∃ s, exec (step smallHeap) (init smallHeap fun _ => ⟨0, 0, false⟩)
    (requests ++ [.free 8, .free 88, .free 56]) = some s ∧
      s.heap.ram 0 = ⟨smallHeap.memSizeAligned, 0, false⟩ ∧
      ∃ h, memMalloc smallHeap s.heap 504 = some (some sizeofStructMem, h) := by
  obtain ⟨s, hs, hfreed⟩ := run_freed smallHeap (fun _ => ⟨0, 0, false⟩)
    (requests ++ [.free 8, .free 88, .free 56]) (by decide +kernel)
  have hnone : ∃ t, exec (step smallHeap) (init smallHeap fun _ => ⟨0, 0, false⟩)
      (requests ++ [.free 8, .free 88, .free 56]) = some t ∧
      ∀ p < smallHeap.memSizeAligned, t.held p = none := by decide +kernel
  obtain ⟨t, ht, hheld⟩ := hnone
  obtain rfl := Option.some.inj (hs.symm.trans ht)
  obtain ⟨hfirst, -, hall⟩ := hfreed hheld
  exact ⟨s, hs, hfirst, hall 504 (by decide) (by decide)⟩

end Properties

end PopcornFirmware.Lwip.MemRuns
