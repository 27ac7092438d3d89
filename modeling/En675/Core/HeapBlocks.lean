import En675.Lib.FreeList
import En675.Lib.Load
import En675.Lib.While

/-! `pvPortMalloc` and `vPortFree` (`heap_5.c`) on the memory they manage, with `BlockLink_t` at the start of every
block.  A `size_t` is a natural number, of which a store keeps 64 bits; loops run on fuel.  Tracing and what is
printed are left out. -/

namespace En675.Heap5

open Lib

section code

def xHeapStructSize : Nat := 64

def heapMinimumBlockSize : Nat := 2 * xHeapStructSize

def xBlockAllocatedBit : Nat := 2 ^ 63

/-- The static variables, and the memory with the block links; `xStart` is the address of one of these. -/
structure Vars where
  mem : Mem
  xStart : Nat
  pxEnd : Nat
  xFreeBytesRemaining : Nat
  xMinimumEverFreeBytesRemaining : Nat

def pxNextFreeBlock (h : Vars) (p : Nat) : Nat := h.mem.load p

def xBlockSize (h : Vars) (p : Nat) : Nat := h.mem.load (p + 8)

def setNextFreeBlock (h : Vars) (p v : Nat) : Vars := { h with mem := h.mem.store p v }

def setBlockSize (h : Vars) (p v : Nat) : Vars := { h with mem := h.mem.store (p + 8) v }

/-- The block to insert goes into `pxIterator`, if that ends where it begins. -/
def joinPrevious (h : Vars) (pxIterator pxBlockToInsert : Nat) : Vars × Nat :=
  if pxIterator + xBlockSize h pxIterator = pxBlockToInsert then
    (setBlockSize h pxIterator (xBlockSize h pxIterator + xBlockSize h pxBlockToInsert), pxIterator)
  else (h, pxBlockToInsert)

/-- The block behind `pxIterator` goes into the block to insert, if that ends where it begins. -/
def joinNext (h : Vars) (pxIterator pxBlockToInsert : Nat) : Vars :=
  if pxBlockToInsert + xBlockSize h pxBlockToInsert = pxNextFreeBlock h pxIterator then
    if pxNextFreeBlock h pxIterator ≠ h.pxEnd then
      let h' := setBlockSize h pxBlockToInsert
        (xBlockSize h pxBlockToInsert + xBlockSize h (pxNextFreeBlock h pxIterator))
      setNextFreeBlock h' pxBlockToInsert (pxNextFreeBlock h' (pxNextFreeBlock h' pxIterator))
    else setNextFreeBlock h pxBlockToInsert h.pxEnd
  else setNextFreeBlock h pxBlockToInsert (pxNextFreeBlock h pxIterator)

/-- What `prvInsertBlockIntoFreeList` does behind its loop. -/
def insertBehind (h : Vars) (pxIterator pxBlockToInsert : Nat) : Vars :=
  let (h', block) := joinPrevious h pxIterator pxBlockToInsert
  let h'' := joinNext h' pxIterator block
  if pxIterator ≠ block then setNextFreeBlock h'' pxIterator block else h''

/-- The loop that looks for a block with a higher address, from `pxIterator` on. -/
def lowerBlock (n : Nat) (h : Vars) (pxIterator pxBlockToInsert : Nat) : Option Nat :=
  whileDo (fun p => decide (pxNextFreeBlock h p < pxBlockToInsert)) (fun p => .next (pxNextFreeBlock h p)) n pxIterator

def prvInsertBlockIntoFreeList (n : Nat) (h : Vars) (pxBlockToInsert : Nat) : Option Vars :=
  (lowerBlock n h h.xStart pxBlockToInsert).map fun pxIterator => insertBehind h pxIterator pxBlockToInsert

/-- A request with room for a link, rounded up to the alignment. -/
def blockSize (xWantedSize : Nat) : Nat :=
  if 0 < xWantedSize then
    let size := xWantedSize + xHeapStructSize
    if size % 64 ≠ 0 then size + (64 - size % 64) else size
  else 0

/-- The loop that looks for a block of adequate size: `pxPreviousBlock` and `pxBlock`. -/
def findBlock (n : Nat) (h : Vars) (size pxPreviousBlock : Nat) : Option (Nat × Nat) :=
  whileDo (fun (_, p) => decide (xBlockSize h p < size ∧ pxNextFreeBlock h p ≠ 0))
    (fun (_, p) => .next (p, pxNextFreeBlock h p)) n (pxPreviousBlock, pxNextFreeBlock h pxPreviousBlock)

/-- A block that is larger than required is split into two. -/
def splitBlock (n : Nat) (h : Vars) (size pxBlock : Nat) : Option Vars :=
  if heapMinimumBlockSize < xBlockSize h pxBlock - size then
    let pxNewBlockLink := pxBlock + size
    let h' := setBlockSize h pxNewBlockLink (xBlockSize h pxBlock - size)
    prvInsertBlockIntoFreeList n (setBlockSize h' pxBlock size) pxNewBlockLink
  else some h

/-- `pxBlock` is taken out of the list and marked. -/
def takeBlock (n : Nat) (h : Vars) (size pxPreviousBlock pxBlock : Nat) : Option Vars :=
  (splitBlock n (setNextFreeBlock h pxPreviousBlock (pxNextFreeBlock h pxBlock)) size pxBlock).map fun h' =>
    let remaining := h'.xFreeBytesRemaining - xBlockSize h' pxBlock
    let least := h'.xMinimumEverFreeBytesRemaining
    let marked := setBlockSize h' pxBlock (xBlockSize h' pxBlock ||| xBlockAllocatedBit)
    { setNextFreeBlock marked pxBlock 0 with
      xFreeBytesRemaining := remaining
      xMinimumEverFreeBytesRemaining := if remaining < least then remaining else least }

/-- A failing assertion does not come back.  With `none` in the pair for NULL, for which
`vApplicationMallocFailedHook` spins with the interrupts off. -/
def pvPortMalloc (n : Nat) (h : Vars) (xWantedSize : UInt64) : Option (Vars × Option Nat) :=
  if h.pxEnd ≠ 0 then
    if xWantedSize.toNat &&& xBlockAllocatedBit = 0 then
      let size := blockSize xWantedSize.toNat
      if 0 < size ∧ size ≤ h.xFreeBytesRemaining then
        (findBlock n h size h.xStart).bind fun (pxPreviousBlock, pxBlock) =>
          if pxBlock ≠ h.pxEnd then
            (takeBlock n h size pxPreviousBlock pxBlock).map fun h' =>
              (h', some (pxNextFreeBlock h pxPreviousBlock + xHeapStructSize))
          else some (h, none)
      else some (h, none)
    else some (h, none)
  else none

/-- `vPortFree` up to where the scheduler is suspended. -/
def freeMark (h : Vars) (pv : Nat) : Option Vars :=
  let pxLink := pv - xHeapStructSize
  if xBlockSize h pxLink &&& xBlockAllocatedBit ≠ 0 ∧ pxNextFreeBlock h pxLink = 0 then
    some (setBlockSize h pxLink (xBlockSize h pxLink &&& (xBlockAllocatedBit - 1)))
  else none

/-- `vPortFree` while the scheduler is suspended. -/
def freeInsert (n : Nat) (h : Vars) (pxLink : Nat) : Option Vars :=
  prvInsertBlockIntoFreeList n { h with xFreeBytesRemaining := h.xFreeBytesRemaining + xBlockSize h pxLink } pxLink

/-- One region; `xTotalHeapSize` runs along. -/
def defineRegion (first : Bool) (h : Vars) (xTotalHeapSize pucStartAddress xSizeInBytes : Nat) :
    Option (Vars × Nat) :=
  let xAlignedHeap :=
    if pucStartAddress % 64 ≠ 0 then (pucStartAddress + 63) / 64 * 64 else pucStartAddress
  let xTotalRegionSize := xSizeInBytes - (xAlignedHeap - pucStartAddress)
  if first ∨ h.pxEnd ≠ 0 ∧ h.pxEnd < xAlignedHeap then
    let pxPreviousFreeBlock := h.pxEnd
    let pxEnd := (xAlignedHeap + xTotalRegionSize - xHeapStructSize) / 64 * 64
    let h := if first then setBlockSize (setNextFreeBlock h h.xStart xAlignedHeap) h.xStart 0 else h
    let h := setNextFreeBlock (setBlockSize { h with pxEnd := pxEnd } pxEnd 0) pxEnd 0
    let h := setNextFreeBlock (setBlockSize h xAlignedHeap (pxEnd - xAlignedHeap)) xAlignedHeap pxEnd
    let h := if pxPreviousFreeBlock ≠ 0 then setNextFreeBlock h pxPreviousFreeBlock xAlignedHeap else h
    some (h, xTotalHeapSize + xBlockSize h xAlignedHeap)
  else none

def defineRegions : List (Nat × Nat) → Bool → Vars → Nat → Option (Vars × Nat)
  | [], _, h, total => some (h, total)
  | (start, size) :: regions, first, h, total =>
    if 0 < size then
      (defineRegion first h total start size).bind fun (h', total') => defineRegions regions false h' total'
    else some (h, total)

/-- From a memory in which `pxEnd` is NULL still. -/
def vPortDefineHeapRegions (m : Mem) (xStart : Nat) (pxHeapRegions : List (Nat × Nat)) : Option Vars :=
  (defineRegions pxHeapRegions true ⟨m, xStart, 0, 0, 0⟩ 0).bind fun (h, total) =>
    if total ≠ 0 then
      some { h with xFreeBytesRemaining := total, xMinimumEverFreeBytesRemaining := total }
    else none

end code

end En675.Heap5
