import ShitOs.Construction.Physical
import ShitOs.Framework.Program
import ShitOs.Framework.RadixTable

/-!
# Address spaces

A model of `kernel/mm/address_space.cpp`.  The machine is its physical memory, as 64-bit words, with
the page allocator; an address space is the frame of its PML4, `m_root`.  Frame `f` holds the words
`512 * f` to `512 * f + 511`, so that entry `i` of the table in frame `f` is the word at
`RadixTable.slot 512 f i`.

Functions are `Program`s on the machine: one that fails keeps what it has changed so far, and
`free_page` stops the machine on a page that is free already.  The loops run over the pages they
visit; the counter does not wrap.

The other member of an address space, `m_resident_pages`, is kept with the machine, under the frame
of the root.  Left out are TLB flushes and the mappings for drivers and modules.  Whether the heap
has room for the object is an argument of `createUserSpace`.
-/

namespace ShitOs

open BitVec (ofNat)

/-! ## Page table entries -/

namespace PageFlags

def Present : U64 := 1 <<< 0
def Writable : U64 := 1 <<< 1
def User : U64 := 1 <<< 2
def Huge : U64 := 1 <<< 7
/-- The frame belongs to somebody else; bit 9 is left to the operating system. -/
def Foreign : U64 := 1 <<< 9
def NoExecute : U64 := 1 <<< 63

end PageFlags

open Kstd PageFlags

def ADDRESS_MASK : U64 := 0x000FFFFFFFFFF000

def ENTRIES_PER_TABLE : ℕ := 512

def USER_SPACE_END : U64 := 0x0000800000000000

def hasFlag (value flag : U64) : Bool := value &&& flag ≠ 0

/-- `index_of`: level 4 is the PML4, 1 the page table. -/
def indexOf (address : U64) (level : ℕ) :
    ℕ := ((address >>> (12 + 9 * (level - 1))) &&& 0x1FF).toNat

/-- `table_at`: the frame an entry points to. -/
def tableAt (entry : U64) : ℕ := ((entry &&& ADDRESS_MASK) >>> 12).toNat

/-- The physical address of a frame. -/
def physOf (frame : ℕ) : U64 := ofNat 64 (frame * PAGE_SIZE)

/-- The pages of a loop from `start` up to `finish`. -/
def pageRange (start finish : U64) : List U64 :=
  (List.range ((finish.toNat - start.toNat) / PAGE_SIZE)).map fun i =>
    start + ofNat 64 (i * PAGE_SIZE)

/-! ## The machine -/

/-- Physical memory and its allocator, and `m_resident_pages` of the address space with a given
root. -/
structure Machine where
  pages : PageAllocator
  words : Memory.Words
  residentPages : ℕ → U64

/-- Kernel code that works on the machine. -/
abbrev MachineM := Program Machine Errno

namespace Machine

/-- Entry `index` of a table. -/
def entry (m : Machine) (table index : ℕ) : U64 :=
  m.words (RadixTable.slot ENTRIES_PER_TABLE table index)

/-- The memory with one entry changed. -/
def setEntry (m : Machine) (table index : ℕ) (value : U64) : Machine :=
  { m with words := Function.update m.words (RadixTable.slot ENTRIES_PER_TABLE table index) value }

/-- The memory with a frame set to zero. -/
def clearFrame (m : Machine) (frame : ℕ) : Machine :=
  { m with words := fun w => if w / ENTRIES_PER_TABLE = frame then 0 else m.words w }

/-- The memory with one frame copied to another. -/
def copyFrame (m : Machine) (dst src : ℕ) : Machine :=
  { m with words := fun w =>
      if w / ENTRIES_PER_TABLE = dst then m.entry src (w % ENTRIES_PER_TABLE) else m.words w }

/-- Changes the `m_resident_pages` of an address space. -/
def setResident (m : Machine) (root : ℕ) (count : U64) : Machine :=
  { m with residentPages := Function.update m.residentPages root count }

end Machine

namespace Physical

def allocatePage : MachineM ℕ := fun m =>
  match m.pages.allocatePage with
  | .ok (frame, pages) => some (.ok frame, { m with pages := pages })
  | .error e => some (.error e, m)

def allocateZeroedPage : MachineM ℕ := do
  let page ← allocatePage
  modify (Machine.clearFrame · page)
  return page

def freePage (frame : ℕ) : MachineM Unit := fun m =>
  (m.pages.freePage frame).map fun pages => (.ok (), { m with pages := pages })

end Physical

namespace AddressSpace

open Physical

/-! ## Mapping -/

def ensureTable (table index : ℕ) (userAccessible : Bool) : MachineM ℕ := do
  if ¬ hasFlag ((← get).entry table index) Present then
    let page ← allocateZeroedPage
    modify fun m => m.setEntry table index (physOf page ||| Present ||| Writable)
  if userAccessible then
    modify fun m => m.setEntry table index (m.entry table index ||| User)
  if hasFlag ((← get).entry table index) Huge then
    throw .EEXIST
  return tableAt ((← get).entry table index)

/-- The end of `map`: the entry of the page table. -/
def mapLeaf (root pt index : ℕ) (page flags : U64) : MachineM Unit := do
  if hasFlag ((← get).entry pt index) Present then
    throw .EEXIST
  modify fun m => m.setEntry pt index ((page &&& ADDRESS_MASK) ||| (flags ||| Present))
  modify fun m => m.setResident root (m.residentPages root + 1)

/-- `map`; `page` is a physical address. -/
def map (root : ℕ) (address page flags : U64) : MachineM Unit := do
  let virtualAddress := alignDown address 4096
  let user := hasFlag flags User
  let pdpt ← ensureTable root (indexOf virtualAddress 4) user
  let pd ← ensureTable pdpt (indexOf virtualAddress 3) user
  let pt ← ensureTable pd (indexOf virtualAddress 2) user
  mapLeaf root pt (indexOf virtualAddress 1) page flags

/-- The table behind an entry, as the walks go: not one that is absent or a huge page. -/
def nextTable (entry : U64) : Option ℕ :=
  if hasFlag entry Present ∧ ¬ hasFlag entry Huge then some (tableAt entry) else none

def walkToLeafTable (words : Memory.Words) (root : ℕ) (address : U64) : Option ℕ :=
  RadixTable.walk ENTRIES_PER_TABLE nextTable words root
    [indexOf address 4, indexOf address 3, indexOf address 2]

/-- The walk of `translate` and `query`, `levels` above the page table: the entry that ends it, and
the level of that entry. -/
def walkToEntry (words : Memory.Words) (address : U64) : ℕ → ℕ → Option (U64 × ℕ)
  | 0, table =>
    let entry := words (RadixTable.slot ENTRIES_PER_TABLE table (indexOf address 1))
    if ¬ hasFlag entry Present then none else some (entry, 1)
  | levels + 1, table =>
    let level := levels + 2
    let entry := words (RadixTable.slot ENTRIES_PER_TABLE table (indexOf address level))
    if ¬ hasFlag entry Present then none
    else if hasFlag entry Huge then some (entry, level)
    else walkToEntry words address levels (tableAt entry)

def translate (words : Memory.Words) (root : ℕ) (address : U64) : Except Errno U64 :=
  match walkToEntry words address 3 root with
  | none => .error .EFAULT
  | some (entry, level) =>
    let size : U64 := 1 <<< (12 + 9 * (level - 1))
    .ok ((entry &&& ADDRESS_MASK) + (address &&& (size - 1)))

def query (words : Memory.Words) (root : ℕ) (address : U64) : Except Errno U64 :=
  match walkToEntry words address 3 root with
  | none => .error .EFAULT
  | some (entry, _) => .ok (entry &&& ~~~ADDRESS_MASK)

def isMapped (words : Memory.Words) (root : ℕ) (address : U64) : Bool :=
  match translate words root address with
  | .ok _ => true
  | .error _ => false

def unmap (root : ℕ) (address : U64) : MachineM Unit := do
  let virtualAddress := alignDown address 4096
  match walkToLeafTable (← get).words root virtualAddress with
  | none => return
  | some pt =>
    if hasFlag ((← get).entry pt (indexOf virtualAddress 1)) Present then
      modify fun m => m.setEntry pt (indexOf virtualAddress 1) 0
      modify fun m => m.setResident root (m.residentPages root - 1)

def unmapRange (root : ℕ) (address length : U64) : MachineM Unit :=
  (pageRange (alignDown address 4096) (alignUp (address + length) 4096)).forM fun page =>
    unmap root page

/-- One turn of the loop of `map_anonymous`, with `start` for the way back. -/
def mapAnonymousPage (root : ℕ) (start flags pageAddress : U64) : MachineM Unit := do
  if isMapped (← get).words root pageAddress then
    return
  let frame ← tryCatch allocateZeroedPage fun e => do
    unmapRange root start (pageAddress - start)
    throw e
  tryCatch (map root pageAddress (physOf frame) flags) fun e => do
    freePage frame
    unmapRange root start (pageAddress - start)
    throw e

def mapAnonymous (root : ℕ) (address length flags : U64) : MachineM Unit :=
  let start := alignDown address 4096
  (pageRange start (alignUp (address + length) 4096)).forM fun pageAddress =>
    mapAnonymousPage root start flags pageAddress

/-- One turn of the loop of `protect`. -/
def protectPage (root : ℕ) (flags pageAddress : U64) : MachineM Unit := do
  match walkToLeafTable (← get).words root pageAddress with
  | none => throw .EFAULT
  | some pt =>
    let index := indexOf pageAddress 1
    if ¬ hasFlag ((← get).entry pt index) Present then
      throw .EFAULT
    modify fun m =>
      m.setEntry pt index ((m.entry pt index &&& ADDRESS_MASK) ||| (flags ||| Present))

def protect (root : ℕ) (address length flags : U64) : MachineM Unit :=
  (pageRange (alignDown address 4096) (alignUp (address + length) 4096)).forM fun pageAddress =>
    protectPage root flags pageAddress

/-- One turn of the loop of `validate_user_range`. -/
def validUserPage (words : Memory.Words) (root : ℕ) (forWrite : Bool) (pageAddress : U64) : Bool :=
  match walkToLeafTable words root pageAddress with
  | none => false
  | some pt =>
    let entry := words (RadixTable.slot ENTRIES_PER_TABLE pt (indexOf pageAddress 1))
    hasFlag entry Present && hasFlag entry User && (!forWrite || hasFlag entry Writable)

def validateUserRange (words : Memory.Words) (root : ℕ) (start length : U64) (forWrite : Bool) :
    Bool :=
  if start + length < start ∨ USER_SPACE_END < start + length then false
  else if length = 0 then true
  else
    (pageRange (alignDown start 4096) (alignUp (start + length) 4096)).all
      (validUserPage words root forWrite)

/-! ## Whole address spaces -/

/-- The innermost loop of `destroy_user_mappings`, over a page table. -/
def destroyPt (pt : ℕ) : MachineM Unit :=
  (List.range ENTRIES_PER_TABLE).forM fun ptIndex => do
    let ptEntry := (← get).entry pt ptIndex
    if hasFlag ptEntry Present ∧ ¬ hasFlag ptEntry Foreign then
      freePage (tableAt ptEntry)

/-- The loop of `destroy_user_mappings` over a page directory. -/
def destroyPd (pd : ℕ) : MachineM Unit :=
  (List.range ENTRIES_PER_TABLE).forM fun pdIndex => do
    let pdEntry := (← get).entry pd pdIndex
    if hasFlag pdEntry Present ∧ ¬ hasFlag pdEntry Huge then
      destroyPt (tableAt pdEntry)
      freePage (tableAt pdEntry)

/-- The loop of `destroy_user_mappings` over a PDPT. -/
def destroyPdpt (pdpt : ℕ) : MachineM Unit :=
  (List.range ENTRIES_PER_TABLE).forM fun pdptIndex => do
    let pdptEntry := (← get).entry pdpt pdptIndex
    if hasFlag pdptEntry Present then
      destroyPd (tableAt pdptEntry)
      freePage (tableAt pdptEntry)

def destroyUserMappings (root : ℕ) : MachineM Unit := do
  (List.range 256).forM fun pml4Index => do
    let pml4Entry := (← get).entry root pml4Index
    if hasFlag pml4Entry Present then
      destroyPdpt (tableAt pml4Entry)
      freePage (tableAt pml4Entry)
      modify fun m => m.setEntry root pml4Index 0
  modify (Machine.setResident · root 0)

/-- The loop of `create_user_space` that shares the kernel half. -/
def shareKernelHalf (kernelRoot root : ℕ) (m : Machine) : Machine :=
  { m with words := fun w =>
      if w / ENTRIES_PER_TABLE = root ∧ 256 ≤ w % ENTRIES_PER_TABLE then
        m.entry kernelRoot (w % ENTRIES_PER_TABLE)
      else m.words w }

def createUserSpace (kernelRoot : ℕ) (full : Bool) : MachineM ℕ := do
  let root ← allocateZeroedPage
  modify (shareKernelHalf kernelRoot root)
  if full then
    freePage root
    throw .ENOMEM
  modify (Machine.setResident · root 0)
  return root

/-- What `clone_user_space` does with one entry of a page table. -/
def clonePage (copy : ℕ) (address ptEntry : U64) : MachineM Unit := do
  let flags := ptEntry &&& ~~~ADDRESS_MASK
  if hasFlag ptEntry Foreign then
    tryCatch (map copy address (ptEntry &&& ADDRESS_MASK) flags) fun e => do
      destroyUserMappings copy
      throw e
  else
    let frame ← tryCatch allocatePage fun e => do
      destroyUserMappings copy
      throw e
    modify (Machine.copyFrame · frame (tableAt ptEntry))
    tryCatch (map copy address (physOf frame) flags) fun e => do
      freePage frame
      destroyUserMappings copy
      throw e

/-- The innermost loop of `clone_user_space`; `base` is the address of the table's first page. -/
def clonePt (copy : ℕ) (base : U64) (pt : ℕ) : MachineM Unit :=
  (List.range ENTRIES_PER_TABLE).forM fun ptIndex => do
    let ptEntry := (← get).entry pt ptIndex
    if hasFlag ptEntry Present then
      clonePage copy (base ||| (ofNat 64 ptIndex <<< 12)) ptEntry

/-- The loop of `clone_user_space` over a page directory. -/
def clonePd (copy : ℕ) (base : U64) (pd : ℕ) : MachineM Unit :=
  (List.range ENTRIES_PER_TABLE).forM fun pdIndex => do
    let pdEntry := (← get).entry pd pdIndex
    if hasFlag pdEntry Present ∧ ¬ hasFlag pdEntry Huge then
      clonePt copy (base ||| (ofNat 64 pdIndex <<< 21)) (tableAt pdEntry)

/-- The loop of `clone_user_space` over a PDPT. -/
def clonePdpt (copy : ℕ) (base : U64) (pdpt : ℕ) : MachineM Unit :=
  (List.range ENTRIES_PER_TABLE).forM fun pdptIndex => do
    let pdptEntry := (← get).entry pdpt pdptIndex
    if hasFlag pdptEntry Present then
      clonePd copy (base ||| (ofNat 64 pdptIndex <<< 30)) (tableAt pdptEntry)

def cloneUserSpace (kernelRoot root : ℕ) (full : Bool) : MachineM ℕ := do
  let copy ← createUserSpace kernelRoot full
  (List.range 256).forM fun pml4Index => do
    let pml4Entry := (← get).entry root pml4Index
    if hasFlag pml4Entry Present then
      clonePdpt copy (ofNat 64 pml4Index <<< 39) (tableAt pml4Entry)
  return copy

end AddressSpace

end ShitOs
