import Mathlib.Data.Nat.ModEq
import PopcornFirmware.Lib.Blocks

namespace PopcornFirmware.Lwip.MemHeap

open PopcornFirmware.Lib.Blocks

section Model

/-- The struct at the start of every block, with offsets from the start of the
heap. -/
structure Mem where
  next : Nat
  prev : Nat
  used : Bool
  deriving DecidableEq

def memAlignSize (size : Nat) : Nat := (size + 3) / 4 * 4

def minSizeAligned : Nat := memAlignSize 12

def sizeofStructMem : Nat := memAlignSize 6

/-- MEM_SIZE of lwipopts.h. A mem_size_t has 16 bits up to 64000 bytes. -/
structure Opts where
  memSize : Nat
  le_memSize : sizeofStructMem + minSizeAligned ≤ memSize
  memSize_le : memSize ≤ 64000

def Opts.memSizeAligned (o : Opts) : Nat := memAlignSize o.memSize

/-- The heap, with the structs in it by offset. -/
structure Heap where
  ram : Nat → Mem
  lfree : Nat

variable (o : Opts)

def Heap.modify (h : Heap) (p : Nat) (f : Mem → Mem) : Heap :=
  { h with ram := Function.update h.ram p (f (h.ram p)) }

def memInit (ram : Nat → Mem) : Heap where
  ram := Function.update (Function.update ram 0 ⟨o.memSizeAligned, 0, false⟩)
    o.memSizeAligned ⟨o.memSizeAligned, o.memSizeAligned, true⟩
  lfree := 0

/-- Two neighbours become one, which begins where the first one does. -/
def plug (h : Heap) (mem nmem : Nat) : Heap :=
  let h := { h with lfree := if h.lfree = nmem then mem else h.lfree }
  let next := (h.ram nmem).next
  (h.modify mem ({ · with next := next })).modify next ({ · with prev := mem })

def plugHoles (h : Heap) (mem : Nat) : Heap :=
  let nmem := (h.ram mem).next
  let h :=
    if mem ≠ nmem ∧ (h.ram nmem).used = false ∧ nmem ≠ o.memSizeAligned then plug h mem nmem else h
  let pmem := (h.ram mem).prev
  if pmem ≠ mem ∧ (h.ram pmem).used = false then plug h pmem mem else h

def memFree (h : Heap) (rmem : Nat) : Heap :=
  if o.memSizeAligned ≤ rmem then h
  else
    let mem := rmem - sizeofStructMem
    let h := h.modify mem ({ · with used := false })
    plugHoles o { h with lfree := if mem < h.lfree then mem else h.lfree } mem

def roundSize (size : Nat) : Nat :=
  let size := memAlignSize size % 2 ^ 16
  if size < minSizeAligned then minSizeAligned else size

/-- The struct mem of a block that is cut off behind another one. -/
def cutOff (h : Heap) (mem ptr2 next : Nat) : Heap :=
  let h := { h with ram := Function.update h.ram ptr2 ⟨next, mem, false⟩ }
  let h := h.modify mem ({ · with next := ptr2 })
  if next ≠ o.memSizeAligned then h.modify next ({ · with prev := ptr2 }) else h

def memRealloc (h : Heap) (rmem newsize : Nat) : Option Nat × Heap :=
  let newsize := roundSize newsize
  if o.memSizeAligned < newsize then (none, h)
  else if o.memSizeAligned ≤ rmem then (some rmem, h)
  else
    let ptr := rmem - sizeofStructMem
    let next := (h.ram ptr).next
    let size := next - ptr - sizeofStructMem
    let ptr2 := ptr + sizeofStructMem + newsize
    if size < newsize then (none, h)
    else if newsize = size then (some rmem, h)
    else if (h.ram next).used = false then
      let h := { h with lfree := if h.lfree = next then ptr2 else h.lfree }
      (some rmem, cutOff o h ptr ptr2 (h.ram next).next)
    else if newsize + sizeofStructMem + minSizeAligned ≤ size then
      let h := { h with lfree := if ptr2 < h.lfree then ptr2 else h.lfree }
      (some rmem, cutOff o h ptr ptr2 next)
    else (some rmem, h)

/-- The search for a free block that is big enough. The outer result is none
when it does not come to an end. -/
def memMallocLoop (h : Heap) (size : Nat) : Nat → Nat → Option (Option Nat)
  | 0, _ => none
  | rounds + 1, ptr =>
    if ptr < o.memSizeAligned - size then
      let mem := h.ram ptr
      if mem.used = false ∧ size ≤ mem.next - (ptr + sizeofStructMem) then some (some ptr)
      else memMallocLoop h size rounds mem.next
    else some none

/-- The search for the lowest free block after the one that was taken. -/
def lfreeLoop (h : Heap) : Nat → Nat → Option Nat
  | 0, _ => none
  | rounds + 1, lfree =>
    if (h.ram lfree).used = true ∧ lfree ≠ o.memSizeAligned then
      lfreeLoop h rounds (h.ram lfree).next
    else some lfree

/-- A block is taken, and what it does not need is cut off. -/
def takeBlock (h : Heap) (ptr size : Nat) : Heap :=
  let next := (h.ram ptr).next
  if size + sizeofStructMem + minSizeAligned ≤ next - (ptr + sizeofStructMem) then
    cutOff o (h.modify ptr ({ · with used := true })) ptr (ptr + sizeofStructMem + size) next
  else h.modify ptr ({ · with used := true })

def memMalloc (h : Heap) (size : Nat) : Option (Option Nat × Heap) :=
  if size = 0 then some (none, h)
  else if o.memSizeAligned < roundSize size then some (none, h)
  else
    (memMallocLoop o h (roundSize size) (o.memSizeAligned + 1) h.lfree).bind fun
      | none => some (none, h)
      | some ptr =>
        let h := takeBlock o h ptr (roundSize size)
        let lfree :=
          if ptr = h.lfree then lfreeLoop o h (o.memSizeAligned + 1) h.lfree else some h.lfree
        lfree.map fun lfree => (some (ptr + sizeofStructMem), { h with lfree := lfree })

end Model

end PopcornFirmware.Lwip.MemHeap
