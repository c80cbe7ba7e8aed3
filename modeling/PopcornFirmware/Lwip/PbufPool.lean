import PopcornFirmware.Lwip.Pbufs

namespace PopcornFirmware.Lwip.PbufPool

open PopcornFirmware.Lib.CText PopcornFirmware.Lib.LinkedHeap PopcornFirmware.Lwip.Pbufs

/-- The loop of pbuf_alloc for the tail of the chain, with the memory it gets;
a pool pbuf has PBUF_POOL_BUFSIZE bytes. -/
def poolRest : Nat → Text → List Text
  | 0, _ => []
  | fuel + 1, text => if text = [] then [] else text.take 500 :: poolRest fuel (text.drop 500)

/-- The first pbuf leaves room for the headers. -/
def poolPieces (text : Text) : List Text := text.take 444 :: poolRest text.length (text.drop 444)

/-- So many bytes of memory that held something before. -/
def fit (n : Nat) (stale : Text) : Text := (stale ++ List.replicate n 0).take n

/-- pbuf_alloc(PBUF_TRANSPORT, length, PBUF_POOL), given what the memory holds
that it gets from the pool, or none when the pool is empty. The bytes are left
as they are. -/
def pbufAllocPool (m : Mem) (length : Nat) : Option Text → Mem × Option Nat
  | none => (m, none)
  | some stale => pbufAlloc m (poolPieces (fit length stale))

/-- The loop of pbuf_take over the pbufs from p on. -/
def pbufTakeLoop : Nat → Mem → Option Nat → Text → Option Mem
  | 0, m, _, data => if data = [] then some m else none
  | fuel + 1, m, p, data =>
    if data = [] then some m
    else p.bind fun i => (deref m i).bind fun b =>
      let payload := data.take b.len ++ b.payload.drop data.length
      pbufTakeLoop fuel (write m i (some { b with payload := payload })) b.next (data.drop b.len)

def pbufTake (m : Mem) (buf : Nat) (data : Text) : Option Mem :=
  (deref m buf).bind fun b =>
    if b.totLen < data.length then some m else pbufTakeLoop m.length m (some buf) data

theorem fit_length (n : Nat) (stale : Text) : (fit n stale).length = n := by
  simp [fit]

theorem poolRest_flatten (fuel : Nat) (text : Text) (h : text.length ≤ fuel) :
    (poolRest fuel text).flatten = text := by
  induction fuel generalizing text with
  | zero =>
    obtain rfl := List.length_eq_zero_iff.mp (Nat.le_zero.mp h)
    rfl
  | succ fuel ih =>
    by_cases htext : text = []
    · rw [htext]
      rfl
    · have hpos := List.length_pos_of_ne_nil htext
      rw [poolRest, if_neg htext, List.flatten_cons, ih _ (by rw [List.length_drop]; omega),
        List.take_append_drop]

theorem poolPieces_flatten (text : Text) : (poolPieces text).flatten = text := by
  rw [poolPieces, List.flatten_cons, poolRest_flatten _ _ (by simp), List.take_append_drop]

/-- A chain of the pool is on its own, and nothing else changes. -/
theorem pbufAllocPool_spec (m : Mem) (n : Nat) (stale : Text) :
    ∃ ids, (pbufAllocPool m n (some stale)).2 = some m.length ∧
      Sole (pbufAllocPool m n (some stale)).1 (some m.length) ids ∧
      bytes (pbufAllocPool m n (some stale)).1 ids = fit n stale ∧ (∀ k ∈ ids, m.length ≤ k) ∧
      ∀ k ∉ ids, deref (pbufAllocPool m n (some stale)).1 k = deref m k := by
  obtain ⟨-, hbytes, -⟩ := pbufAlloc_spec m (poolPieces (fit n stale))
  obtain ⟨hsole, hge, hsame⟩ := pbufAlloc_fresh m (poolPieces (fit n stale))
  exact ⟨_, rfl, hsole, hbytes.trans (poolPieces_flatten _), hge, hsame⟩

theorem pbufAllocPool_totLen (m : Mem) (n : Nat) (stale : Text) :
    ∃ b, deref (pbufAllocPool m n (some stale)).1 m.length = some b ∧ b.totLen = n % 2 ^ 16 := by
  have hflat : (fit n stale).take 444 ++ (poolRest (fit n stale).length
      ((fit n stale).drop 444)).flatten = fit n stale := poolPieces_flatten (fit n stale)
  rw [pbufAllocPool, pbufAlloc, deref_append_right (le_refl _), Nat.sub_self, poolPieces]
  have htot := congrArg (fun text : Text => text.length % 2 ^ 16) hflat
  exact ⟨_, rfl, htot.trans (by rw [fit_length])⟩

/-- The pieces of a length are of lengths of their own. -/
theorem poolRest_lengths (fuel : Nat) {a b : Text} (h : a.length = b.length) :
    (poolRest fuel a).map List.length = (poolRest fuel b).map List.length := by
  induction fuel generalizing a b with
  | zero => rfl
  | succ fuel ih =>
    have hnil : a = [] ↔ b = [] := by rw [← List.length_eq_zero_iff, h, List.length_eq_zero_iff]
    by_cases ha : a = []
    · rw [poolRest, poolRest, if_pos ha, if_pos (hnil.mp ha)]
    · have hdrop : (a.drop 500).length = (b.drop 500).length := by
        rw [List.length_drop, List.length_drop, h]
      rw [poolRest, poolRest, if_neg ha, if_neg (mt hnil.mpr ha), List.map_cons, List.map_cons,
        List.length_take, List.length_take, h, ih hdrop]

theorem poolPieces_lengths {a b : Text} (h : a.length = b.length) :
    (poolPieces a).map List.length = (poolPieces b).map List.length := by
  have hdrop : (a.drop 444).length = (b.drop 444).length := by
    rw [List.length_drop, List.length_drop, h]
  rw [poolPieces, poolPieces, List.map_cons, List.map_cons, List.length_take, List.length_take, h,
    poolRest_lengths b.length hdrop]

theorem eq_of_flatten_nil {ts ts' : List Text} (h : ts.map List.length = ts'.map List.length)
    (hnil : ts'.flatten = []) : ts = ts' := by
  induction ts generalizing ts' with
  | nil => exact (List.map_eq_nil_iff.mp h.symm).symm
  | cons t ts ih =>
    cases ts' with
    | nil => cases h
    | cons t' ts' =>
      obtain ⟨hlen, hlens⟩ := List.cons.inj h
      obtain ⟨rfl, hrest⟩ := List.append_eq_nil_iff.mp hnil
      rw [List.length_eq_zero_iff.mp hlen, ih hlens hrest]

/-- The loop of pbuf_take leaves the chain as if the data had arrived in it. -/
theorem pbufTakeLoop_segment {ts ts' : List Text} (m : Mem) (fuel : Nat)
    (h : ts.map List.length = ts'.map List.length) (hfuel : ts.length ≤ fuel) :
    pbufTakeLoop fuel (m ++ segment m.length ts) (if ts.isEmpty then none else some m.length)
      ts'.flatten = some (m ++ segment m.length ts') := by
  induction ts generalizing ts' m fuel with
  | nil =>
    obtain rfl := List.map_eq_nil_iff.mp h.symm
    cases fuel <;> rfl
  | cons t ts ih =>
    by_cases hnil : ts'.flatten = []
    · rw [← eq_of_flatten_nil h hnil, eq_of_flatten_nil h hnil, hnil]
      cases fuel <;> rfl
    · cases ts' with
      | nil => cases h
      | cons t' ts' =>
        obtain ⟨hlen, hlens⟩ := List.cons.inj h
        obtain ⟨fuel, rfl⟩ : ∃ f, fuel = f + 1 := ⟨fuel - 1, by simp at hfuel; omega⟩
        have htot : (t ++ ts.flatten).length = (t' ++ ts'.flatten).length := by
          rw [List.length_append, List.length_append, hlen, List.length_flatten,
            List.length_flatten, hlens]
        let cell (u : Text) : Pbuf :=
          ⟨if ts.isEmpty then none else some (m.length + 1), u,
            (t ++ ts.flatten).length % 2 ^ 16, 1⟩
        have hget : deref (m ++ segment m.length (t :: ts)) m.length = some (cell t) := by
          rw [deref_append_right (Nat.le_refl _), Nat.sub_self]
          rfl
        have hpay : (t' ++ ts'.flatten).take (cell t).len ++
            (cell t).payload.drop (t' ++ ts'.flatten).length = t' := by
          have hdrop : t.drop (t' ++ ts'.flatten).length = [] :=
            List.drop_eq_nil_of_le (by rw [hlen, List.length_append]; omega)
          show (t' ++ ts'.flatten).take t.length ++ t.drop (t' ++ ts'.flatten).length = t'
          rw [hdrop, hlen, List.take_left, List.append_nil]
        have hrest : (t' ++ ts'.flatten).drop (cell t).len = ts'.flatten := by
          show (t' ++ ts'.flatten).drop t.length = ts'.flatten
          rw [hlen, List.drop_left]
        have hwrite : write (m ++ segment m.length (t :: ts)) m.length (some (cell t')) =
            (m ++ [some (cell t')]) ++ segment (m ++ [some (cell t')]).length ts := by
          simp [write, Pbufs.segment, cell]
        have hih := ih (m ++ [some (cell t')]) fuel hlens (by simpa using hfuel)
        have hempty : ts.isEmpty = ts'.isEmpty := by
          have hlen' := congrArg List.length hlens
          rw [List.length_map, List.length_map] at hlen'
          cases ts <;> cases ts' <;> first | rfl | cases hlen'
        have hlast : (m ++ [some (cell t')]) ++ segment (m ++ [some (cell t')]).length ts' =
            m ++ segment m.length (t' :: ts') := by
          simp [Pbufs.segment, cell, htot, hempty]
        rw [pbufTakeLoop, if_neg hnil, List.isEmpty_cons, if_neg Bool.false_ne_true,
          Option.bind_some, hget, Option.bind_some, List.flatten_cons]
        show pbufTakeLoop fuel (write _ _ (some (cell ((t' ++ ts'.flatten).take (cell t).len ++
          (cell t).payload.drop (t' ++ ts'.flatten).length)))) (cell t).next
            ((t' ++ ts'.flatten).drop (cell t).len) = _
        rw [hpay, hrest, hwrite, ← hlast, ← hih, List.length_append]
        rfl

/-- What the pool returns uninitialised does not matter once pbuf_take has
filled it. -/
theorem pbufTake_pool (m : Mem) (stale : Text) {text : Text} (h : text.length < 2 ^ 16) :
    pbufTake (pbufAllocPool m text.length (some stale)).1 m.length text =
      some (pbufAlloc m (poolPieces text)).1 := by
  obtain ⟨b, hb, htot⟩ := pbufAllocPool_totLen m text.length stale
  have hlens : (poolPieces (fit text.length stale)).map List.length =
      (poolPieces text).map List.length := poolPieces_lengths (fit_length _ _)
  rw [pbufTake, hb, Option.bind_some, if_neg (by rw [htot, Nat.mod_eq_of_lt h]; omega)]
  have hloop := pbufTakeLoop_segment m (pbufAllocPool m text.length (some stale)).1.length hlens
    (by rw [pbufAllocPool, pbufAlloc, List.length_append, segment_length]; omega)
  rw [poolPieces_flatten] at hloop
  exact hloop
/-- pbuf_take fills a chain of the pool that is as long as the data. -/
theorem pbufTake_spec (m : Mem) (data stale : Text) :
    ∃ m' ids, pbufTake (pbufAllocPool m data.length (some stale)).1 m.length data = some m' ∧
      Sole m' (some m.length) ids ∧ (∀ k ∈ ids, m.length ≤ k) ∧
      (∀ k ∉ ids, deref m' k = deref m k) ∧
      (data.length < 2 ^ 16 → bytes m' ids = data) := by
  by_cases hlen : data.length < 2 ^ 16
  · obtain ⟨-, hbytes, -⟩ := pbufAlloc_spec m (poolPieces data)
    obtain ⟨hsole, hge, hsame⟩ := pbufAlloc_fresh m (poolPieces data)
    exact ⟨_, _, pbufTake_pool m stale hlen, hsole, hge, hsame,
      fun _ => hbytes.trans (poolPieces_flatten _)⟩
  · obtain ⟨ids, -, hsole, -, hge, hsame⟩ := pbufAllocPool_spec m data.length stale
    obtain ⟨b, hb, htot⟩ := pbufAllocPool_totLen m data.length stale
    have hshort : b.totLen < data.length := by
      rw [htot]
      have hmod := Nat.mod_lt data.length (show 0 < 2 ^ 16 by decide)
      omega
    exact ⟨_, ids, by rw [pbufTake, hb, Option.bind_some, if_pos hshort], hsole, hge, hsame,
      fun h => absurd h hlen⟩

end PopcornFirmware.Lwip.PbufPool
