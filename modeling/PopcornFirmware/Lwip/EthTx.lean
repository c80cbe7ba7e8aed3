import Mathlib.Data.Nat.ModEq
import Mathlib.Logic.Function.Basic
import PopcornFirmware.Lib.CText
import PopcornFirmware.Lib.Ring
import PopcornFirmware.Lib.Runs

namespace PopcornFirmware.Lwip.EthTx

open PopcornFirmware.Lib.CText PopcornFirmware.Lib.Ring PopcornFirmware.Lib.Runs

section Model

/-- ETH_TXBUFNB and ETH_TX_BUF_SIZE, of which a descriptor keeps 13 bits. -/
structure Opts where
  txBufNb : Nat
  txBufSize : Nat
  txBufNb_pos : 0 < txBufNb
  txBufSize_lt : txBufSize < 2 ^ 13

/-- A Tx descriptor and its buffer. -/
structure Desc where
  own : Bool
  controlBufferSize : Nat
  buffer : Text

def Desc.frame (d : Desc) : Text := d.buffer.take d.controlBufferSize

/-- The descriptors in their chain, the one that the DMA comes to next, the
length of a frame that has been copied and not yet handed over, and records of
the frames that the DMA has sent and of those that low_level_output was given. -/
structure State where
  descs : Nat → Desc
  txDescToSet : Nat
  current : Nat
  framelength : Option Nat
  wire : List Text
  given : List Text

variable (o : Opts)

def init : State := ⟨fun _ => ⟨false, 0, List.replicate o.txBufSize 0⟩, 0, 0, none, [], []⟩

/-- The loop of low_level_output over the pbufs of a frame. -/
def copyPbufs : List Text → Nat → Text → Text × Nat
  | [], l, buffer => (buffer, l)
  | q :: p, l, buffer =>
    copyPbufs p (l + q.length) (buffer.take l ++ q ++ buffer.drop (l + q.length))

/-- low_level_output up to its call of ETH_Prepare_Transmit_Descriptors, whose
parameter has 16 bits. -/
def lowLevelOutput (s : State) (p : List Text) : State :=
  let d := s.descs s.txDescToSet
  let copied := copyPbufs p 0 d.buffer
  { s with
    descs := Function.update s.descs s.txDescToSet { d with buffer := copied.1 }
    framelength := some (copied.2 % 2 ^ 16)
    given := s.given ++ [p.flatten] }

/-- A frame that fits one buffer is handed to the DMA, when the descriptor is
the driver's. -/
def ethPrepareTransmitDescriptors (s : State) (frameLength : Nat) : State :=
  let d := s.descs s.txDescToSet
  if d.own then { s with framelength := none }
  else
    { s with
      descs := Function.update s.descs s.txDescToSet
        { d with controlBufferSize := frameLength % 2 ^ 13, own := true }
      txDescToSet := (s.txDescToSet + 1) % o.txBufNb
      framelength := none }

/-- The DMA sends the frame of its next descriptor, when that is its own. -/
def transmit (s : State) : State :=
  let d := s.descs s.current
  if d.own then
    { s with
      descs := Function.update s.descs s.current { d with own := false }
      current := (s.current + 1) % o.txBufNb
      wire := s.wire ++ [d.frame] }
  else s

inductive Label
  | output (p : List Text)
  | prepare
  | transmit
  deriving DecidableEq

/-- A call of low_level_output is over before the next one begins; the DMA may
send a frame at any time. -/
def step (s : State) : Label → Option State
  | .output p => if s.framelength = none then some (lowLevelOutput s p) else none
  | .prepare => s.framelength.map (ethPrepareTransmitDescriptors o s)
  | .transmit => some (transmit o s)

/-- The frames are not longer than a buffer. -/
def Short : Label → Prop
  | .output p => p.flatten.length ≤ o.txBufSize
  | _ => True

instance : DecidablePred (Short o)
  | .output _ => inferInstanceAs (Decidable (_ ≤ _))
  | .prepare => inferInstanceAs (Decidable True)
  | .transmit => inferInstanceAs (Decidable True)

/-- The descriptor that the driver fills next is not the DMA's. -/
def Free (s : State) : Prop := (s.descs s.txDescToSet).own = false

instance (s : State) : Decidable (Free s) := inferInstanceAs (Decidable (_ = _))

/-- A frame only comes when the next descriptor is free. -/
def FreeAtOutput (s : State) : Label → Prop
  | .output _ => Free s
  | _ => True

/-- The next descriptor is free when its OWN bit is read. -/
def FreeAtPrepare (s : State) : Label → Prop
  | .prepare => Free s
  | _ => True

instance (s : State) : DecidablePred (FreeAtOutput s)
  | .output _ => inferInstanceAs (Decidable (Free s))
  | .prepare => inferInstanceAs (Decidable True)
  | .transmit => inferInstanceAs (Decidable True)

instance (s : State) : DecidablePred (FreeAtPrepare s)
  | .prepare => inferInstanceAs (Decidable (Free s))
  | .output _ => inferInstanceAs (Decidable True)
  | .transmit => inferInstanceAs (Decidable True)

/-- The frames that the DMA still has, from its next descriptor on. -/
def pending (s : State) : List Text :=
  (((List.range o.txBufNb).map fun i => s.descs ((s.current + i) % o.txBufNb)).filter
    Desc.own).map Desc.frame

/-- The frame of a call that has not come to its end. -/
def copied (s : State) : List Text :=
  s.framelength.toList.map fun n => (s.descs s.txDescToSet).buffer.take n

end Model

section Copy

theorem copyPbufs_spec {p : List Text} {l : Nat} {buffer : Text}
    (h : l + p.flatten.length ≤ buffer.length) :
    copyPbufs p l buffer =
      (buffer.take l ++ p.flatten ++ buffer.drop (l + p.flatten.length),
        l + p.flatten.length) := by
  induction p generalizing l buffer with
  | nil => simp [copyPbufs]
  | cons q p ih =>
    rw [List.flatten_cons, List.length_append] at h
    have hlength : (buffer.take l ++ q ++ buffer.drop (l + q.length)).length =
        buffer.length := by
      simp
      omega
    have htake : (buffer.take l ++ q ++ buffer.drop (l + q.length)).take (l + q.length) =
        buffer.take l ++ q := by
      apply List.take_left'
      simp
      omega
    have hdrop : (buffer.take l ++ q ++ buffer.drop (l + q.length)).drop
        (l + q.length + p.flatten.length) = buffer.drop (l + (q.length + p.flatten.length)) := by
      rw [← List.drop_drop, List.drop_left' (by simp; omega), List.drop_drop, Nat.add_assoc]
    rw [copyPbufs, ih (by omega), htake, hdrop, List.flatten_cons, List.length_append]
    simp [Nat.add_assoc]

end Copy

section Ring

variable {o : Opts} {s : State} {fs : List Text} {f : Text} {p : List Text} {n : Nat}

structure DescOk (o : Opts) (d : Desc) : Prop where
  buffer : d.buffer.length = o.txBufSize
  size_le : d.controlBufferSize ≤ o.txBufSize

/-- The DMA has the given frames, one in each descriptor from its next one up to
the one that the driver fills next. -/
structure RingOk (o : Opts) (s : State) (fs : List Text) : Prop where
  length_le : fs.length ≤ o.txBufNb
  current_lt : s.current < o.txBufNb
  toSet : s.txDescToSet = (s.current + fs.length) % o.txBufNb
  own : ∀ i < o.txBufNb,
    (s.descs ((s.current + i) % o.txBufNb)).own = decide (i < fs.length)
  frame : ∀ i < fs.length, fs[i]? = some (s.descs ((s.current + i) % o.txBufNb)).frame
  desc : ∀ i, DescOk o (s.descs i)
  framelength_le : ∀ n ∈ s.framelength, n ≤ o.txBufSize

theorem init_ring : RingOk o (init o) [] where
  length_le := Nat.zero_le _
  current_lt := o.txBufNb_pos
  toSet := (Nat.zero_mod _).symm
  own := by simp [init]
  frame := by simp
  desc := fun _ => ⟨List.length_replicate, Nat.zero_le _⟩
  framelength_le := by simp [init]

theorem RingOk.pending_eq (h : RingOk o s fs) : pending o s = fs := by
  obtain ⟨m, hm⟩ := Nat.exists_eq_add_of_le h.length_le
  have hframe := h.frame
  have hown := h.own
  unfold pending
  rw [hm] at hframe hown ⊢
  rw [List.range_add, List.map_append, List.filter_append, List.map_append]
  have hfirst : (((List.range fs.length).map fun i =>
      s.descs ((s.current + i) % (fs.length + m))).filter Desc.own).map Desc.frame = fs := by
    rw [List.filter_eq_self.mpr]
    · apply List.ext_getElem?
      intro i
      by_cases hi : i < fs.length
      · rw [hframe i hi]
        simp [hi]
      · rw [List.getElem?_eq_none (by simpa using hi), List.getElem?_eq_none (by simpa using hi)]
    · intro d hd
      obtain ⟨i, hi, rfl⟩ := List.mem_map.mp hd
      rw [List.mem_range] at hi
      rw [hown i (by omega)]
      exact decide_eq_true hi
  have hrest : (((List.range m).map (fs.length + ·)).map fun i =>
      s.descs ((s.current + i) % (fs.length + m))).filter Desc.own = [] := by
    apply List.filter_eq_nil_iff.mpr
    intro d hd
    rw [List.map_map] at hd
    obtain ⟨i, hi, rfl⟩ := List.mem_map.mp hd
    rw [List.mem_range] at hi
    dsimp only [Function.comp_apply]
    rw [hown _ (by omega)]
    simp
  rw [hfirst, hrest, List.map_nil, List.append_nil]

theorem RingOk.current_eq (h : RingOk o s fs) : s.current = (s.current + 0) % o.txBufNb := by
  rw [Nat.add_zero, Nat.mod_eq_of_lt h.current_lt]

theorem RingOk.free_iff (h : RingOk o s fs) : Free s ↔ fs.length < o.txBufNb := by
  unfold Free
  rw [h.toSet]
  have hpos := o.txBufNb_pos
  by_cases hfull : fs.length = o.txBufNb
  · have hfirst := h.own 0 hpos
    rw [← h.current_eq] at hfirst
    rw [hfull, Nat.add_mod_right, Nat.mod_eq_of_lt h.current_lt, hfirst, decide_eq_false_iff_not]
    omega
  · have hlt := lt_of_le_of_ne h.length_le hfull
    rw [h.own _ hlt, decide_eq_false (lt_irrefl _)]
    exact iff_of_true rfl hlt

/-- A change of one descriptor, seen from the DMA's next one on. -/
theorem update_slot {g : Nat → Desc} {d : Desc} {m c i j : Nat} (hi : i < m) (hj : j < m) :
    Function.update g ((c + j) % m) d ((c + i) % m) = if i = j then d else g ((c + i) % m) := by
  obtain hlt | rfl | hlt := Nat.lt_trichotomy i j
  · rw [Function.update_of_ne (mod_ne hlt (by omega) c), if_neg hlt.ne]
  · rw [Function.update_self, if_pos rfl]
  · rw [Function.update_of_ne (mod_ne hlt (by omega) c).symm, if_neg hlt.ne']

theorem desc_update {g : Nat → Desc} {d : Desc} {j : Nat} (hg : ∀ i, DescOk o (g i))
    (hd : DescOk o d) : ∀ i, DescOk o (Function.update g j d i) :=
  (Function.forall_update_iff g fun _ d => DescOk o d).mpr ⟨hd, fun i _ => hg i⟩

/-- What a buffer holds when a frame is copied into it. -/
def overwritten (p : List Text) (buffer : Text) : Text :=
  p.flatten ++ buffer.drop p.flatten.length

theorem take_overwritten {b : Text} (hn : n ≤ b.length) :
    (overwritten p (b.take n)).take (b.take n).length = (overwritten p b).take n := by
  unfold overwritten
  rw [List.length_take, Nat.min_eq_left hn, List.take_append, List.take_append, List.drop_take,
    List.take_take, Nat.min_self]

theorem DescOk.overwrite {d : Desc} (h : DescOk o d) (hp : p.flatten.length ≤ o.txBufSize) :
    DescOk o { d with buffer := overwritten p d.buffer } where
  buffer := by
    unfold overwritten
    rw [List.length_append, List.length_drop, h.buffer]
    omega
  size_le := h.size_le

theorem lowLevelOutput_eq (h : RingOk o s fs) (hp : p.flatten.length ≤ o.txBufSize) :
    lowLevelOutput s p =
      { s with
        descs := Function.update s.descs s.txDescToSet
          { s.descs s.txDescToSet with
            buffer := overwritten p (s.descs s.txDescToSet).buffer }
        framelength := some p.flatten.length
        given := s.given ++ [p.flatten] } := by
  have hsize := o.txBufSize_lt
  have hbuffer := (h.desc s.txDescToSet).buffer
  unfold lowLevelOutput
  dsimp only
  rw [copyPbufs_spec (by omega), List.take_zero, List.nil_append, Nat.zero_add,
    Nat.mod_eq_of_lt (by omega)]
  rfl

theorem copied_nil (h : s.framelength = none) : copied s = [] := by
  unfold copied
  rw [h]
  rfl

theorem output_copied (h : RingOk o s fs) (hp : p.flatten.length ≤ o.txBufSize) :
    copied (lowLevelOutput s p) = [p.flatten] := by
  rw [lowLevelOutput_eq h hp]
  unfold copied
  dsimp only
  rw [Function.update_self]
  exact congrArg (fun b => [b]) List.take_left

/-- A frame that is copied into a free descriptor leaves those of the DMA as
they are. -/
theorem output_free (h : RingOk o s fs) (hp : p.flatten.length ≤ o.txBufSize) (hfree : Free s) :
    RingOk o (lowLevelOutput s p) fs := by
  have hlt := h.free_iff.mp hfree
  rw [lowLevelOutput_eq h hp]
  refine ⟨h.length_le, h.current_lt, h.toSet, ?_, ?_, ?_, ?_⟩
  · intro i hi
    dsimp only
    rw [h.toSet, update_slot hi hlt, ← h.own i hi]
    split <;> rename_i hii
    · rw [hii]
    · rfl
  · intro i hi
    dsimp only
    rw [h.toSet, update_slot (hi.trans hlt) hlt, if_neg hi.ne]
    exact h.frame i hi
  · exact desc_update h.desc ((h.desc _).overwrite hp)
  · rintro n ⟨⟩
    exact hp

/-- Without a free descriptor the frame that the DMA comes to next is
overwritten. -/
theorem output_full (h : RingOk o s (f :: fs)) (hp : p.flatten.length ≤ o.txBufSize)
    (hfull : ¬ Free s) :
    RingOk o (lowLevelOutput s p) ((overwritten p f).take f.length :: fs) := by
  have hlength : (f :: fs).length = o.txBufNb := by
    rw [h.free_iff, not_lt] at hfull
    exact Nat.le_antisymm h.length_le hfull
  have htoSet : s.txDescToSet = (s.current + 0) % o.txBufNb := by
    rw [h.toSet, hlength, Nat.add_mod_right, Nat.add_zero]
  have hframe := h.frame 0 (Nat.zero_lt_succ _)
  rw [← htoSet] at hframe
  obtain rfl : f = (s.descs s.txDescToSet).frame := Option.some.inj hframe
  rw [lowLevelOutput_eq h hp]
  refine ⟨h.length_le, h.current_lt, h.toSet, ?_, ?_, ?_, ?_⟩
  · intro i hi
    have hown := h.own i hi
    dsimp only
    rw [List.length_cons] at hown ⊢
    rw [← hown]
    nth_rewrite 1 [htoSet]
    rw [update_slot hi o.txBufNb_pos]
    split <;> rename_i hii
    · rw [hii, ← htoSet]
    · rfl
  · intro i hi
    dsimp only
    nth_rewrite 3 [htoSet]
    rw [update_slot (hi.trans_le h.length_le) o.txBufNb_pos]
    split <;> rename_i hii
    · rw [hii, List.getElem?_cons_zero]
      have hle := (h.desc s.txDescToSet).size_le
      rw [← (h.desc s.txDescToSet).buffer] at hle
      exact congrArg some (take_overwritten hle)
    · rw [← h.frame i hi]
      obtain ⟨j, rfl⟩ := Nat.exists_eq_succ_of_ne_zero hii
      rfl
  · exact desc_update h.desc ((h.desc _).overwrite hp)
  · rintro n ⟨⟩
    exact hp

/-- In either case the DMA has as many frames as before. -/
theorem output_ring (h : RingOk o s fs) (hp : p.flatten.length ≤ o.txBufSize) :
    ∃ gs, RingOk o (lowLevelOutput s p) gs ∧ gs.length = fs.length := by
  by_cases hfree : Free s
  · exact ⟨fs, output_free h hp hfree, rfl⟩
  · cases fs with
    | nil => exact absurd (h.free_iff.mpr o.txBufNb_pos) hfree
    | cons f fs => exact ⟨_, output_full h hp hfree, rfl⟩

theorem prepare_free (h : RingOk o s fs) (hn : n ∈ s.framelength) (hfree : Free s) :
    RingOk o (ethPrepareTransmitDescriptors o s n)
      (fs ++ [(s.descs s.txDescToSet).buffer.take n]) := by
  have hsize := o.txBufSize_lt
  have hlt := h.free_iff.mp hfree
  have hle := h.framelength_le n hn
  have heq : ethPrepareTransmitDescriptors o s n =
      { s with
        descs := Function.update s.descs s.txDescToSet
          ⟨true, n, (s.descs s.txDescToSet).buffer⟩
        txDescToSet := (s.txDescToSet + 1) % o.txBufNb
        framelength := none } := by
    unfold ethPrepareTransmitDescriptors
    dsimp only
    rw [hfree, if_neg Bool.false_ne_true, Nat.mod_eq_of_lt (by omega)]
  rw [heq]
  refine ⟨?_, h.current_lt, ?_, ?_, ?_, ?_, ?_⟩
  · rw [List.length_append]
    exact hlt
  · dsimp only
    rw [h.toSet, List.length_append, List.length_singleton, Nat.mod_add_mod, Nat.add_assoc]
  · intro i hi
    dsimp only
    rw [h.toSet, update_slot hi hlt, List.length_append, List.length_singleton]
    split <;> rename_i hii
    · exact (decide_eq_true (by omega)).symm
    · rw [h.own i hi]
      exact decide_eq_decide.mpr (by omega)
  · intro i hi
    rw [List.length_append, List.length_singleton] at hi
    dsimp only
    rw [h.toSet, update_slot (by omega) hlt]
    split <;> rename_i hii
    · rw [hii, List.getElem?_append_right (le_refl _), Nat.sub_self]
      rfl
    · rw [List.getElem?_append_left (by omega), h.frame i (by omega)]
  · exact desc_update h.desc ⟨(h.desc _).buffer, hle⟩
  · rintro n ⟨⟩

theorem prepare_full (h : RingOk o s fs) (hfull : ¬ Free s) :
    RingOk o (ethPrepareTransmitDescriptors o s n) fs := by
  unfold Free at hfull
  unfold ethPrepareTransmitDescriptors
  dsimp only
  rw [if_pos (Bool.eq_true_of_not_eq_false hfull)]
  exact { h with framelength_le := by rintro n ⟨⟩ }

theorem prepare_frame :
    (ethPrepareTransmitDescriptors o s n).wire = s.wire ∧
      (ethPrepareTransmitDescriptors o s n).given = s.given ∧
      (ethPrepareTransmitDescriptors o s n).framelength = none := by
  unfold ethPrepareTransmitDescriptors
  dsimp only
  split <;> exact ⟨rfl, rfl, rfl⟩

/-- The DMA sends the first of its frames. -/
theorem transmit_first (h : RingOk o s (f :: fs)) :
    RingOk o (transmit o s) fs ∧ (transmit o s).wire = s.wire ++ [f] := by
  have hown := h.own 0 o.txBufNb_pos
  have hframe := h.frame 0 (Nat.zero_lt_succ _)
  rw [← h.current_eq] at hown hframe
  have hlength := h.length_le
  rw [List.length_cons] at hlength
  have heq : transmit o s =
      { s with
        descs := Function.update s.descs ((s.current + 0) % o.txBufNb)
          { s.descs s.current with own := false }
        current := (s.current + 1) % o.txBufNb
        wire := s.wire ++ [f] } := by
    unfold transmit
    dsimp only
    rw [hown, ← Option.some.inj hframe, ← h.current_eq]
    rfl
  have hplace : ∀ i, ((s.current + 1) % o.txBufNb + i) % o.txBufNb =
      (s.current + (i + 1)) % o.txBufNb := by
    intro i
    rw [Nat.mod_add_mod, Nat.add_assoc, Nat.add_comm 1 i]
  rw [heq]
  refine ⟨⟨?_, Nat.mod_lt _ o.txBufNb_pos, ?_, ?_, ?_, ?_, h.framelength_le⟩, rfl⟩
  · exact Nat.le_of_succ_le hlength
  · dsimp only
    rw [hplace, h.toSet]
    rfl
  · intro i hi
    dsimp only
    rw [hplace]
    by_cases hlast : i + 1 < o.txBufNb
    · rw [update_slot hlast o.txBufNb_pos, if_neg (Nat.succ_ne_zero i), h.own _ hlast]
      exact decide_eq_decide.mpr (by rw [List.length_cons]; omega)
    · have hwrap : i + 1 = o.txBufNb := by omega
      rw [hwrap, Nat.add_mod_right, Nat.add_zero, Function.update_self]
      exact (decide_eq_false (by omega)).symm
  · intro i hi
    have := h.frame (i + 1) (by rw [List.length_cons]; omega)
    dsimp only
    rw [hplace, update_slot (by omega) o.txBufNb_pos, if_neg (Nat.succ_ne_zero i), ← this]
    rfl
  · exact desc_update h.desc ⟨(h.desc _).buffer, (h.desc _).size_le⟩

theorem transmit_idle (h : RingOk o s []) : transmit o s = s := by
  have hown := h.own 0 o.txBufNb_pos
  rw [← h.current_eq] at hown
  unfold transmit
  dsimp only
  rw [hown]
  rfl

theorem transmit_frame :
    (transmit o s).given = s.given ∧ (transmit o s).framelength = s.framelength ∧
      copied (transmit o s) = copied s := by
  unfold transmit
  dsimp only
  split
  · refine ⟨rfl, rfl, ?_⟩
    unfold copied
    dsimp only
    rw [Function.update_apply]
    split <;> rename_i hcurrent
    · rw [hcurrent]
    · rfl
  · exact ⟨rfl, rfl, rfl⟩

end Ring

section Properties

variable {o : Opts} {s t : State} {ls : List Label} {l : Label} {fs : List Text} {p : List Text}

theorem output_eq (h : step o s (.output p) = some t) :
    s.framelength = none ∧ t = lowLevelOutput s p := by
  obtain ⟨hnone, h⟩ := Option.ite_none_right_eq_some.mp h
  exact ⟨hnone, (Option.some.inj h).symm⟩

theorem prepare_eq (h : step o s .prepare = some t) :
    ∃ n, s.framelength = some n ∧ t = ethPrepareTransmitDescriptors o s n := by
  obtain ⟨n, hn, h⟩ := Option.map_eq_some_iff.mp h
  exact ⟨n, hn, h.symm⟩

/-- What is given, sent and still there, as far as a step that finds the next
descriptor free changes it. -/
theorem step_free (h : RingOk o s fs) (hl : Short o l) (hout : FreeAtOutput s l)
    (hprepare : FreeAtPrepare s l) (hstep : step o s l = some t) :
    ∃ gs new, RingOk o t gs ∧ t.given = s.given ++ new ∧
      t.wire ++ gs ++ copied t = s.wire ++ fs ++ copied s ++ new := by
  cases l with
  | output p =>
    obtain ⟨hnone, rfl⟩ := output_eq hstep
    refine ⟨fs, [p.flatten], output_free h hl hout, rfl, ?_⟩
    rw [output_copied h hl, copied_nil hnone, List.append_nil]
    rfl
  | prepare =>
    obtain ⟨n, hn, rfl⟩ := prepare_eq hstep
    obtain ⟨hwire, hgiven, hnone⟩ := prepare_frame (o := o) (s := s) (n := n)
    refine ⟨_, [], prepare_free h hn hprepare, by rw [hgiven, List.append_nil], ?_⟩
    unfold copied
    rw [hwire, hnone, hn]
    simp
  | transmit =>
    obtain rfl := Option.some.inj hstep
    obtain ⟨hgiven, -, hcopied⟩ := transmit_frame (o := o) (s := s)
    cases fs with
    | nil =>
      rw [transmit_idle h]
      exact ⟨[], [], h, (List.append_nil _).symm, (List.append_nil _).symm⟩
    | cons f fs =>
      obtain ⟨hring, hwire⟩ := transmit_first h
      refine ⟨fs, [], hring, by rw [hgiven, List.append_nil], ?_⟩
      rw [hwire, hcopied, List.append_nil, List.append_assoc s.wire, List.singleton_append]

/-- What a step does to the number of frames: one is lost when the next
descriptor is not free when its OWN bit is read. -/
theorem step_count (h : RingOk o s fs) (hl : Short o l) (hstep : step o s l = some t) :
    ∃ gs, RingOk o t gs ∧
      ((FreeAtPrepare s l ∧ t.wire.length + gs.length + (copied t).length + s.given.length =
          s.wire.length + fs.length + (copied s).length + t.given.length) ∨
        (¬ FreeAtPrepare s l ∧
          t.wire.length + gs.length + (copied t).length + 1 + s.given.length =
            s.wire.length + fs.length + (copied s).length + t.given.length)) := by
  by_cases hboth : FreeAtOutput s l ∧ FreeAtPrepare s l
  · obtain ⟨gs, new, hring, hgiven, hwire⟩ := step_free h hl hboth.1 hboth.2 hstep
    have hlength := congrArg List.length hwire
    refine ⟨gs, hring, .inl ⟨hboth.2, ?_⟩⟩
    rw [hgiven]
    simp only [List.length_append] at hlength ⊢
    omega
  · cases l with
    | output p =>
      obtain ⟨hnone, rfl⟩ := output_eq hstep
      obtain ⟨gs, hring, hlength⟩ := output_ring h hl
      have hgiven : (lowLevelOutput s p).given = s.given ++ [p.flatten] := rfl
      have hwire : (lowLevelOutput s p).wire = s.wire := rfl
      refine ⟨gs, hring, .inl ⟨trivial, ?_⟩⟩
      rw [output_copied h hl, copied_nil hnone, hlength, hgiven, hwire, List.length_append,
        List.length_singleton, List.length_nil]
      omega
    | prepare =>
      obtain ⟨n, hn, rfl⟩ := prepare_eq hstep
      obtain ⟨hwire, hgiven, hnone⟩ := prepare_frame (o := o) (s := s) (n := n)
      have hfull : ¬ FreeAtPrepare s .prepare := fun hfree => hboth ⟨trivial, hfree⟩
      have hcopied : (copied s).length = 1 := by
        unfold copied
        rw [hn]
        rfl
      refine ⟨fs, prepare_full h hfull, .inr ⟨hfull, ?_⟩⟩
      rw [hwire, hgiven, copied_nil hnone, hcopied, List.length_nil, Nat.add_zero]
    | transmit => exact absurd ⟨trivial, trivial⟩ hboth

theorem run_ring (hls : ∀ l ∈ ls, Short o l) (h : exec (step o) (init o) ls = some s) :
    RingOk o s (pending o s) := by
  obtain ⟨fs, hfs⟩ : ∃ fs, RingOk o s fs := by
    refine exec_invariant (P := fun s => ∃ fs, RingOk o s fs) ?_ ⟨[], init_ring⟩
      (steps_of_forall (fun l hl _ => hls l hl) _) h
    rintro s l t ⟨fs, hfs⟩ hl hstep
    obtain ⟨gs, hgs, -⟩ := step_count hfs hl hstep
    exact ⟨gs, hgs⟩
  rwa [hfs.pending_eq]

/-- A call that has copied its frame finds the next descriptor free. -/
theorem step_keepsFree (h : RingOk o s fs) (hl : Short o l) (hout : FreeAtOutput s l)
    (hfree : s.framelength ≠ none → Free s) (hstep : step o s l = some t) :
    t.framelength ≠ none → Free t := by
  intro hsome
  cases l with
  | output p =>
    obtain ⟨hnone, rfl⟩ := output_eq hstep
    exact (output_free h hl hout).free_iff.mpr (h.free_iff.mp hout)
  | prepare =>
    obtain ⟨n, hn, rfl⟩ := prepare_eq hstep
    exact absurd prepare_frame.2.2 hsome
  | transmit =>
    obtain rfl := Option.some.inj hstep
    rw [transmit_frame.2.1] at hsome
    have hlt := h.free_iff.mp (hfree hsome)
    cases fs with
    | nil => rwa [transmit_idle h, h.free_iff]
    | cons f fs =>
      rw [List.length_cons] at hlt
      exact (transmit_first h).1.free_iff.mpr (by omega)

/-- Nothing that was given is lost or changed. -/
structure Whole (o : Opts) (s : State) (fs : List Text) : Prop where
  ring : RingOk o s fs
  given : s.wire ++ fs ++ copied s = s.given
  free : s.framelength ≠ none → Free s

theorem step_whole (h : Whole o s fs) (hl : Short o l) (hout : FreeAtOutput s l)
    (hstep : step o s l = some t) : ∃ gs, Whole o t gs := by
  have hprepare : FreeAtPrepare s l := by
    cases l with
    | output p => trivial
    | prepare =>
      obtain ⟨n, hn, -⟩ := prepare_eq hstep
      exact h.free (by rw [hn]; exact Option.some_ne_none n)
    | transmit => trivial
  obtain ⟨gs, new, hring, hgiven, hwire⟩ := step_free h.ring hl hout hprepare hstep
  refine ⟨gs, hring, ?_, step_keepsFree h.ring hl hout h.free hstep⟩
  rw [hwire, hgiven, h.given]

def twoBuffers : Opts := ⟨2, 4, by decide, by decide⟩

def full : List Label := [.output [[1, 2], [3]], .prepare, .output [[4]], .prepare]

/-- The DMA sends the first frame when the third has been copied. -/
def early : List Label := full ++ [.output [[5]], .transmit, .prepare]

def inTime : List Label :=
  [.output [[1, 2], [3]], .prepare, .output [[4]], .prepare, .transmit, .output [[5]], .prepare]

theorem full_short : ∀ l ∈ full, Short twoBuffers l := by decide

theorem early_short : ∀ l ∈ early, Short twoBuffers l := by decide

theorem inTime_short : ∀ l ∈ inTime, Short twoBuffers l := by decide

theorem inTime_free : Steps (step twoBuffers) FreeAtOutput (init twoBuffers) inTime := by decide

/-- As many frames as were given have been sent or are still there. -/
def Counted (o : Opts) (s : State) : Prop :=
  s.wire.length + (pending o s).length + (copied s).length = s.given.length

theorem counted_init : Counted o (init o) := by
  unfold Counted
  rw [init_ring.pending_eq]
  rfl

theorem step_counted (h : RingOk o s (pending o s)) (hl : Short o l)
    (hstep : step o s l = some t) :
    RingOk o t (pending o t) ∧ (FreeAtPrepare s l → (Counted o s → Counted o t)) ∧
      (s.wire.length + (pending o s).length + (copied s).length ≤ s.given.length →
        t.wire.length + (pending o t).length + (copied t).length ≤ t.given.length ∧
        (Counted o t → Counted o s ∧ FreeAtPrepare s l)) := by
  obtain ⟨gs, hgs, hcount⟩ := step_count h hl hstep
  obtain rfl := hgs.pending_eq
  unfold Counted
  refine ⟨hgs, ?_, ?_⟩
  · intro hfree hs
    obtain ⟨-, hcount⟩ | ⟨hnot, -⟩ := hcount
    · omega
    · exact absurd hfree hnot
  · intro hle
    obtain ⟨hfree, hcount⟩ | ⟨-, hcount⟩ := hcount
    · exact ⟨by omega, fun ht => ⟨by omega, hfree⟩⟩
    · exact ⟨by omega, fun ht => absurd ht (by omega)⟩

theorem counted_iff (hring : RingOk o s (pending o s)) (hls : ∀ l ∈ ls, Short o l)
    (hle : s.wire.length + (pending o s).length + (copied s).length ≤ s.given.length)
    (h : exec (step o) s ls = some t) :
    Counted o t ↔ Counted o s ∧ Steps (step o) FreeAtPrepare s ls := by
  induction ls generalizing s with
  | nil =>
    obtain rfl := Option.some.inj h
    exact (and_iff_left trivial).symm
  | cons l ls ih =>
    obtain ⟨u, hu, ht⟩ := Option.bind_eq_some_iff.mp h
    obtain ⟨hl, hls⟩ := List.forall_mem_cons.mp hls
    obtain ⟨huring, hkeep, hlose⟩ := step_counted hring hl hu
    obtain ⟨hule, hback⟩ := hlose hle
    refine (ih huring hls hule ht).trans ?_
    constructor
    · rintro ⟨hcounted, hsteps⟩
      obtain ⟨hs, hfree⟩ := hback hcounted
      refine ⟨hs, hfree, fun v hv => ?_⟩
      rwa [← Option.some.inj (hu.symm.trans hv)]
    · rintro ⟨hs, hfree, hsteps⟩
      exact ⟨hkeep hfree hs, hsteps u hu⟩

/-- A frame that comes too early changes the frame that the DMA sends next, and
no other. -/
theorem run_overwrites (hls : ∀ l ∈ ls, Short o l) (h : exec (step o) (init o) ls = some s)
    (hp : p.flatten.length ≤ o.txBufSize) (hearly : ¬ Free s)
    (ht : step o s (.output p) = some t) :
    ∃ f fs, pending o s = f :: fs ∧ t.wire = s.wire ∧
      pending o t = (p.flatten ++ f.drop p.flatten.length).take f.length :: fs := by
  have hring := run_ring hls h
  obtain ⟨-, rfl⟩ := output_eq ht
  obtain ⟨f, fs, hpending⟩ : ∃ f fs, pending o s = f :: fs := by
    apply List.exists_cons_of_ne_nil
    intro hnil
    rw [hring.free_iff, hnil] at hearly
    exact hearly o.txBufNb_pos
  rw [hpending] at hring
  exact ⟨f, fs, hpending, rfl, (output_full hring hp hearly).pending_eq⟩

theorem run_overwrites_full :
    ∃ s t, exec (step twoBuffers) (init twoBuffers) full = some s ∧
      step twoBuffers s (.output [[5]]) = some t ∧ pending twoBuffers t = [[5, 2, 3], [4]] ∧
      ∃ f fs, pending twoBuffers s = f :: fs ∧ t.wire = s.wire ∧
        pending twoBuffers t =
          (([[5]] : List Text).flatten ++ f.drop ([[5]] : List Text).flatten.length).take
            f.length :: fs :=
  ⟨_, _, rfl, rfl, rfl, run_overwrites full_short rfl (by decide) (by decide) rfl⟩

end Properties

end PopcornFirmware.Lwip.EthTx
