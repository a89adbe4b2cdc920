import ShitOs.Construction.Physical

/-!
# From the boot loader's memory map to the page bitmap

A model of `parse_multiboot2` in `kernel/boot/boot_info.cpp`, as far as it is about memory, and of
`physical_initialize` in `kernel/mm/physical.cpp`.  The information block is the list of its tags;
those not about memory are `other`.

Every sum of a base and a length is one of 64 bits and wraps.  What is beyond `MAX_MEMORY_REGIONS`
regions is dropped.
-/

namespace ShitOs

open Kstd

def MULTIBOOT2_BOOTLOADER_MAGIC : BitVec 32 := 0x36D76289

def MAX_MEMORY_REGIONS : ℕ := 64

def MAX_BOOT_MODULES : ℕ := 8

/-- Where the linker script puts the kernel. -/
def KERNEL_LMA : U64 := 0x00100000

/-- The kernel image ends at `__kernel_phys_end`.  It is linked into the last 2 GiB of the address
space. -/
structure KernelImage where
  finish : U64
  nonempty : KERNEL_LMA < finish
  linked : finish ≤ 0x80000000

inductive MemoryKind
  | Usable | Reserved | AcpiReclaimable | AcpiNvs | Bad | KernelImage | BootModule
  deriving DecidableEq

structure MemoryRegion where
  base : U64
  length : U64
  kind : MemoryKind
  deriving DecidableEq

structure BootModule where
  physStart : U64
  physEnd : U64
  deriving DecidableEq

structure MmapEntry where
  addr : U64
  len : U64
  type : BitVec 32
  deriving DecidableEq

/-- A tag of the information block. -/
inductive BootTag
  | moduleTag (modStart modEnd : BitVec 32)
  | mmapTag (entries : List MmapEntry)
  | other
  deriving DecidableEq

structure BootInfo where
  memoryRegions : List MemoryRegion
  totalUsableBytes : U64
  highestAddress : U64
  modules : List BootModule
  kernelPhysStart : U64
  kernelPhysEnd : U64
  deriving DecidableEq

/-- `min` and `max` of `kstd.h`. -/
protected def Kstd.min (a b : U64) : U64 := if a < b then a else b

@[inherit_doc Kstd.min]
protected def Kstd.max (a b : U64) : U64 := if b < a then a else b

def kindFromMultiboot (type : BitVec 32) : MemoryKind :=
  if type = 1 then .Usable
  else if type = 3 then .AcpiReclaimable
  else if type = 4 then .AcpiNvs
  else if type = 5 then .Bad
  else .Reserved

namespace BootInfo

def addRegion (info : BootInfo) (base length : U64) (kind : MemoryKind) : BootInfo :=
  if length = 0 ∨ MAX_MEMORY_REGIONS ≤ info.memoryRegions.length then info
  else
    { info with
      memoryRegions := info.memoryRegions ++ [⟨base, length, kind⟩]
      totalUsableBytes :=
        if kind = .Usable then info.totalUsableBytes + length else info.totalUsableBytes
      highestAddress := Kstd.max info.highestAddress (base + length) }

/-- One turn of the loop of `parse_multiboot2` over the tags. -/
def parseTag (out : BootInfo) : BootTag → BootInfo
  | .moduleTag modStart modEnd =>
    if out.modules.length < MAX_BOOT_MODULES then
      { out with modules := out.modules ++ [⟨modStart.setWidth 64, modEnd.setWidth 64⟩] }
    else out
  | .mmapTag entries =>
    entries.foldl
      (fun out entry => out.addRegion entry.addr entry.len (kindFromMultiboot entry.type))
      out
  | .other => out

/-- `parse_multiboot2`; `none` if the magic number is wrong. -/
def parseMultiboot2 (magic : BitVec 32) (image : KernelImage) (tags : List BootTag) :
    Option BootInfo :=
  if magic ≠ MULTIBOOT2_BOOTLOADER_MAGIC then none
  else
    let out : BootInfo := ⟨[], 0, 0, [], KERNEL_LMA, image.finish⟩
    let out := tags.foldl parseTag out
    let out := out.addRegion out.kernelPhysStart (out.kernelPhysEnd - out.kernelPhysStart)
      .KernelImage
    some (out.modules.foldl
      (fun out m => out.addRegion m.physStart (m.physEnd - m.physStart) .BootModule) out)

end BootInfo

/-! ## The bitmap -/

namespace PageAllocator

def markFree (p : PageAllocator) (first count : ℕ) : PageAllocator :=
  (List.range' first count).foldl
    (fun p i =>
      if i < p.totalPages ∧ p.inUse i = true then
        { p with inUse := Function.update p.inUse i false, usedPages := p.usedPages - 1 }
      else p) p

/-- `apply_to_range`.  The loops of `mark_used` and `mark_free` end at `first + count`, a sum of 64
bits, so that they do nothing if the count is a difference that wrapped. -/
def applyToRange (p : PageAllocator) (base length : U64)
    (operation : PageAllocator → ℕ → ℕ → PageAllocator) : PageAllocator :=
  if length = 0 then p
  else
    let first := alignDown base 4096 / 4096
    let last := alignUp (base + length) 4096 / 4096
    if p.totalPages ≤ first.toNat then p
    else
      let count := Kstd.min last (BitVec.ofNat 64 p.totalPages) - first
      operation p first.toNat ((first + count).toNat - first.toNat)

end PageAllocator

/-- What is set aside in the table for the kernel image or for a boot module. -/
def MemoryKind.isCarved (kind : MemoryKind) : Bool := kind = .KernelImage || kind = .BootModule

/-- How a search for room in one region ends. -/
inductive RegionSearch
  | found (bitmapPhys : U64)
  | full
  /-- The loop does not end. -/
  | endless
  deriving DecidableEq

namespace BootInfo

def rangeIsClear (regions : List MemoryRegion) (base length : U64) : Bool :=
  (regions.all fun region =>
    !(region.kind.isCarved && base < region.base + region.length && region.base < base + length)) &&
  0x100000 ≤ base

/-- `highest_usable` of `physical_initialize`. -/
def highestUsable (regions : List MemoryRegion) : U64 :=
  regions.foldl
    (fun highest region =>
      if region.kind = .Usable then Kstd.max highest (region.base + region.length) else highest) 0

/-- `s_total_pages`. -/
def totalPages (regions : List MemoryRegion) :
    ℕ := (alignUp (highestUsable regions) 4096 / 4096).toNat

def bitmapBytes (regions : List MemoryRegion) : U64 :=
  BitVec.ofNat 64 ((totalPages regions + BITS_PER_WORD - 1) / BITS_PER_WORD * 8)

/-- The inner loop of `physical_initialize`, from `candidate` on.  After `2 ^ 52` turns it is back
at the page where it began. -/
def searchRegion (regions : List MemoryRegion) (region : MemoryRegion) : ℕ → U64 → RegionSearch
  | 0, _ => .endless
  | fuel + 1, candidate =>
    if candidate + bitmapBytes regions ≤ region.base + region.length then
      if rangeIsClear regions candidate (bitmapBytes regions) then .found candidate
      else searchRegion regions region fuel (candidate + 4096)
    else .full

/-- The loop of `physical_initialize` that looks for a place for the bitmap. -/
def findBitmap (regions : List MemoryRegion) : List MemoryRegion → Option U64
  | [] => none
  | region :: rest =>
    if region.kind ≠ .Usable ∨ region.length < bitmapBytes regions then findBitmap regions rest
    else
      match searchRegion regions region (2 ^ 52) (alignUp (Kstd.max region.base 0x100000) 4096) with
      | .found bitmapPhys => some bitmapPhys
      | .full => findBitmap regions rest
      | .endless => none

/-- `physical_initialize`: the allocator, and where its bitmap is; `none` if there is no place for
one. -/
def physicalInitialize (info : BootInfo) : Option (PageAllocator × U64) :=
  let regions := info.memoryRegions
  match findBitmap regions regions with
  | none => none
  | some bitmapPhys =>
    let p : PageAllocator :=
      { totalPages := totalPages regions
        inUse := fun _ => true
        usedPages := totalPages regions
        searchHint := 0 }
    let p := regions.foldl
      (fun p region =>
        if region.kind = .Usable then p.applyToRange region.base region.length .markFree else p) p
    let p := regions.foldl
      (fun p region =>
        if region.kind.isCarved then p.applyToRange region.base region.length .markUsed else p) p
    let p := p.applyToRange bitmapPhys (bitmapBytes regions) .markUsed
    let p := p.applyToRange 0 4096 .markUsed
    some (p, bitmapPhys)

end BootInfo

end ShitOs
