import ShitOs.Construction.BootMemory

/-!
# Walking the information block of the boot loader

A model of `InfoBlock` in `kernel/boot/multiboot2.h` and of the loop of `parse_multiboot2` over its
tags, down to the bytes.  Offsets are from the start of the block; memory goes on behind it, and the
walk does not ask where it ends.

The walk returns the tags that `parseMultiboot2` goes through, and every range of bytes that was
read, as its offset and its length.  Both steps come from what is read: the size of a tag, rounded
up to eight in 32 bits, and `entry_size`.  So the loops need not end, and run on fuel here.
-/

namespace ShitOs

/-- The memory from the start of the information block on. -/
structure InfoBlock where
  bytes : ℕ → BitVec 8

namespace InfoBlock

variable (b : InfoBlock)

/-! ## `TagType`, as far as `parse_multiboot2` reads more than the tag's header -/

def END_TAG : BitVec 32 := 0
def MODULE_TAG : BitVec 32 := 3
def MMAP_TAG : BitVec 32 := 6
def FRAMEBUFFER_TAG : BitVec 32 := 8

def RGB : BitVec 8 := 1

/-! ## Fields -/

def field32 (o : ℕ) :
    BitVec 32 := b.bytes (o + 3) ++ b.bytes (o + 2) ++ b.bytes (o + 1) ++ b.bytes o

def field64 (o : ℕ) : BitVec 64 := b.field32 (o + 4) ++ b.field32 o

def totalSize : ℕ := (b.field32 0).toNat

def tagType (tag : ℕ) : BitVec 32 := b.field32 tag

def tagSize (tag : ℕ) : BitVec 32 := b.field32 (tag + 4)

/-- `Iterator::operator++`. -/
def next (tag : ℕ) : ℕ := tag + ((b.tagSize tag + 7) &&& ~~~7).toNat

def entrySize (tag : ℕ) : ℕ := (b.field32 (tag + 8)).toNat

/-! ## The loops -/

/-- The loop over the entries of a memory map. -/
def mmapEntries (tag : ℕ) : ℕ → ℕ → Option (List MmapEntry × List (ℕ × ℕ))
  | 0, _ => none
  | fuel + 1, cursor =>
    if cursor + b.entrySize tag ≤ tag + (b.tagSize tag).toNat then
      (mmapEntries tag fuel (cursor + b.entrySize tag)).map fun (entries, reads) =>
        (⟨b.field64 cursor, b.field64 (cursor + 8), b.field32 (cursor + 16)⟩ :: entries,
          (cursor, 20) :: reads)
    else some ([], [])

/-- The body of the loop over the tags, behind the tag's header.  The names and command lines are
only pointed to. -/
def readTag (fuel modules tag : ℕ) : Option (BootTag × List (ℕ × ℕ)) :=
  if b.tagType tag = MODULE_TAG then
    if modules < MAX_BOOT_MODULES then
      some (.moduleTag (b.field32 (tag + 8)) (b.field32 (tag + 12)), [(tag + 8, 8)])
    else some (.other, [])
  else if b.tagType tag = MMAP_TAG then
    (b.mmapEntries tag fuel (tag + 16)).map fun (entries, reads) =>
      (.mmapTag entries, (tag + 8, 4) :: reads)
  else if b.tagType tag = FRAMEBUFFER_TAG then
    some (.other, (tag + 8, 22) :: if b.bytes (tag + 29) = RGB then [(tag + 32, 6)] else [])
  else some (.other, [])

/-- How many modules there are after a tag. -/
def countModule (modules tag : ℕ) : ℕ :=
  if b.tagType tag = MODULE_TAG ∧ modules < MAX_BOOT_MODULES then modules + 1 else modules

/-- The loop over the tags. -/
def walk : ℕ → ℕ → ℕ → Option (List BootTag × List (ℕ × ℕ))
  | 0, _, _ => none
  | fuel + 1, modules, tag =>
    if b.tagType tag = END_TAG then some ([], [(tag, 4)])
    else
      (b.readTag fuel modules tag).bind fun (t, reads) =>
        (walk fuel (b.countModule modules tag) (b.next tag)).map fun (tags, rest) =>
          (t :: tags, (tag, 8) :: reads ++ rest)

end InfoBlock
end ShitOs
