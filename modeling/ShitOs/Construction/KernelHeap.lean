import ShitOs.Construction.Physical

/-!
# The kernel heap

A model of `kernel/mm/heap.cpp`: size classes carved out of single pages, whole pages for
anything bigger, and a 16-byte header in front of every payload.

Pointers are the source's 64-bit addresses in the direct map.  A header is two words: the magic
number, the size class and the flags share the first, the payload size is the second.  A chunk on a
free list keeps the link in its first word, on top of where the header was.  All sizes are `usize`
and wrap.

`HeapClient` is the heap together with those who use it: the allocations that are live, and calls
that free or resize only what is live.  They may write any byte of any live payload between two
calls, and others may take pages from the page allocator.  `kfree` panics on a bad header; a
panic is `none`.

`kmalloc_aligned` and `heap_stats` are left out.
-/

namespace ShitOs

/-- `HHDM_BASE`: physical memory is mapped from here on. -/
def HHDM_BASE : U64 := 0xFFFF800000000000

def physToVirt (a : ℕ) : U64 := HHDM_BASE + BitVec.ofNat 64 a

def virtToPhys (v : U64) : ℕ := (v - HHDM_BASE).toNat

def HEADER_MAGIC : BitVec 32 := 0x53484954

def CLASS_LARGE : ℕ := 0xFFFF

/-- `SIZE_CLASSES`: chunk sizes, header included. -/
def SIZE_CLASSES : List U64 := [32, 64, 128, 256, 512, 1024, 2048]

def CLASS_COUNT : ℕ := 7

/-- `sizeof(AllocationHeader)`. -/
def HEADER_SIZE : U64 := 16

/-- `SIZE_CLASSES[k]`. -/
def chunkSize (k : ℕ) : ℕ := (SIZE_CLASSES.getD k 0).toNat

/-- The first word of a header. -/
def headerWord (sizeClass : ℕ) : U64 := (0#16 ++ BitVec.ofNat 16 sizeClass) ++ HEADER_MAGIC

/-- The `magic` of a header's first word. -/
def magicOf (w : U64) : BitVec 32 := w.extractLsb' 0 32

/-- The `size_class` of a header's first word. -/
def sizeClassOf (w : U64) : ℕ := (w.extractLsb' 32 16).toNat

/-- `header->magic = 0`. -/
def clearMagic (w : U64) : U64 := w.extractLsb' 32 32 ++ 0#32

/-- `class_for`.  The sum wraps. -/
def classFor (payloadSize : U64) : ℕ :=
  (SIZE_CLASSES.findIdx? fun c => payloadSize + HEADER_SIZE ≤ c).getD CLASS_LARGE

/-- `div_round_up(size + sizeof(AllocationHeader), PAGE_SIZE)`.  Both sums wrap. -/
def pagesFor (size : U64) : U64 := (size + HEADER_SIZE + 4096 - 1) / 4096

/-- The heap's variables, with the memory and the page allocator under it. -/
structure KernelHeap where
  words : Memory.Words
  pages : PageAllocator
  freeLists : ℕ → U64
  bytesInUse : U64
  bytesReserved : U64
  allocationCount : U64
  freeCount : U64

namespace KernelHeap

/-- The word at an address. -/
def load (h : KernelHeap) (v : U64) : U64 := h.words (virtToPhys v / 8)

/-- Stores a word at an address. -/
def store (h : KernelHeap) (v w : U64) : KernelHeap :=
  { h with words := Function.update h.words (virtToPhys v / 8) w }

/-- `*header = { HEADER_MAGIC, sizeClass, 0, size }`. -/
def storeHeader (h : KernelHeap) (header : U64) (sizeClass : ℕ) (size : U64) : KernelHeap :=
  (h.store header (headerWord sizeClass)).store (header + 8) size

/-- Puts a chunk in front of a free list. -/
def pushChunk (h : KernelHeap) (k : ℕ) (chunk : U64) : KernelHeap :=
  { h.store chunk (h.freeLists k) with freeLists := Function.update h.freeLists k chunk }

def refillClass (h : KernelHeap) (k : ℕ) : Option KernelHeap :=
  match h.pages.allocatePage with
  | .error _ => none
  | .ok (frame, pages) =>
    let base := physToVirt (frame * PAGE_SIZE)
    let h := (List.range (PAGE_SIZE / chunkSize k)).foldl
      (fun h i => h.pushChunk k (base + BitVec.ofNat 64 (i * chunkSize k)))
        { h with pages := pages }
    some { h with bytesReserved := h.bytesReserved + 4096 }

/-- The part of `kmalloc` for sizes beyond the classes. -/
def kmallocLarge (h : KernelHeap) (size : U64) : U64 × KernelHeap :=
  match h.pages.allocateContiguous (pagesFor size).toNat with
  | .error _ => (0, h)
  | .ok (frame, pages) =>
    let header := physToVirt (frame * PAGE_SIZE)
    let h := { h with pages := pages }.storeHeader header CLASS_LARGE size
    (header + HEADER_SIZE,
      { h with
        bytesInUse := h.bytesInUse + size
        bytesReserved := h.bytesReserved + pagesFor size * 4096
        allocationCount := h.allocationCount + 1 })

/-- The part of `kmalloc` that takes the first chunk of a list that has one. -/
def kmallocSmall (h : KernelHeap) (k : ℕ) (size : U64) : U64 × KernelHeap :=
  let chunk := h.freeLists k
  let h := { h with freeLists := Function.update h.freeLists k (h.load chunk) }.storeHeader chunk k
    size
  (chunk + HEADER_SIZE,
    { h with bytesInUse := h.bytesInUse + size, allocationCount := h.allocationCount + 1 })

/-- `kmalloc`.  The null pointer is `0`. -/
def kmalloc (h : KernelHeap) (size : U64) : U64 × KernelHeap :=
  if size = 0 then (0, h)
  else
    let k := classFor size
    if k = CLASS_LARGE then h.kmallocLarge size
    else if h.freeLists k = 0 then
      match h.refillClass k with
      | none => (0, h)
      | some h => h.kmallocSmall k size
    else h.kmallocSmall k size

def kzalloc (h : KernelHeap) (size : U64) : U64 × KernelHeap :=
  let r := h.kmalloc size
  if r.1 = 0 then r
  else (r.1, { r.2 with words := Memory.fill r.2.words (virtToPhys r.1) 0 size.toNat })

def kfree (h : KernelHeap) (pointer : U64) : Option KernelHeap :=
  if pointer = 0 then some h
  else
    let header := pointer - HEADER_SIZE
    let word := h.load header
    if magicOf word ≠ HEADER_MAGIC then none
    else
      let payloadSize := h.load (header + 8)
      let h := { h.store header (clearMagic word) with
        bytesInUse := h.bytesInUse - payloadSize
        freeCount := h.freeCount + 1 }
      if sizeClassOf word = CLASS_LARGE then
        (h.pages.freeContiguous (virtToPhys header / PAGE_SIZE) (pagesFor payloadSize).toNat).map
          fun pages =>
            { h with
              bytesReserved := h.bytesReserved - pagesFor payloadSize * 4096
              pages := pages }
      else if CLASS_COUNT ≤ sizeClassOf word then none
      else some (h.pushChunk (sizeClassOf word) header)

def krealloc (h : KernelHeap) (pointer size : U64) : Option (U64 × KernelHeap) :=
  if pointer = 0 then some (h.kmalloc size)
  else if size = 0 then (h.kfree pointer).map (0, ·)
  else
    let header := pointer - HEADER_SIZE
    if magicOf (h.load header) ≠ HEADER_MAGIC then none
    else
      let oldSize := h.load (header + 8)
      if size ≤ oldSize then some (pointer, h)
      else
        let r := h.kmalloc size
        if r.1 = 0 then some (0, r.2)
        else
          let h := { r.2 with
            words := Memory.copy r.2.words (virtToPhys r.1) (virtToPhys pointer) oldSize.toNat }
          (h.kfree pointer).map (r.1, ·)

/-- `heap_initialize`. -/
def initial (words : Memory.Words) (pages : PageAllocator) : KernelHeap where
  words := words
  pages := pages
  freeLists := fun _ => 0
  bytesInUse := 0
  bytesReserved := 0
  allocationCount := 0
  freeCount := 0

end KernelHeap

/-! ## The heap and those who use it -/

/-- The heap and the live allocations: each pointer with the payload size its header records. -/
structure HeapClient where
  heap : KernelHeap
  live : List (U64 × U64)

/-- One call, one write into a payload, or somebody else taking pages. -/
inductive HeapStep
  | kmalloc (size : U64)
  | kzalloc (size : U64)
  | krealloc (pointer size : U64)
  | kfree (pointer : U64)
  | write (pointer : U64) (offset : ℕ) (byte : BitVec 8)
  | takePages (count : ℕ)

namespace HeapClient

/-- A pointer the heap has returned for `size` bytes is live from now on. -/
def adopt (live : List (U64 × U64)) (size : U64) (r : U64 × KernelHeap) : HeapClient :=
  ⟨r.2, if r.1 = 0 then live else (r.1, size) :: live⟩

/-- The allocations other than `pointer`. -/
def without (live : List (U64 × U64)) (pointer : U64) : List (U64 × U64) :=
  live.filter fun b => b.1 ≠ pointer

/-- One step.  Only live pointers, or null, are freed and resized. -/
def step (s : HeapClient) : HeapStep → Option HeapClient
  | .kmalloc size => some (adopt s.live size (s.heap.kmalloc size))
  | .kzalloc size => some (adopt s.live size (s.heap.kzalloc size))
  | .krealloc pointer size =>
    if pointer = 0 then some (adopt s.live size (s.heap.kmalloc size))
    else if pointer ∈ s.live.map Prod.fst then
      (s.heap.krealloc pointer size).map fun r =>
        if size = 0 then ⟨r.2, without s.live pointer⟩
        else if r.1 = 0 ∨ r.1 = pointer then ⟨r.2, s.live⟩
        else ⟨r.2, (r.1, size) :: without s.live pointer⟩
    else none
  | .kfree pointer =>
    if pointer = 0 then some s
    else if pointer ∈ s.live.map Prod.fst then
      (s.heap.kfree pointer).map fun heap => ⟨heap, without s.live pointer⟩
    else none
  | .write pointer offset byte =>
    if ∃ b ∈ s.live, b.1 = pointer ∧ offset < b.2.toNat then
      some { s with heap := { s.heap with
        words := Memory.storeByte s.heap.words (virtToPhys pointer + offset) byte } }
    else none
  | .takePages count =>
    match s.heap.pages.allocateContiguous count with
    | .error _ => some s
    | .ok (_, pages) => some { s with heap := { s.heap with pages := pages } }

/-- Nothing has been allocated. -/
def initial (words : Memory.Words) (pages : PageAllocator) : HeapClient :=
  ⟨KernelHeap.initial words pages, []⟩

end HeapClient

end ShitOs
