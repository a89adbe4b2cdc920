import ShitOs.Construction.AddressSpace
import ShitOs.Framework.Pieces

/-!
# Loading a program

A model of `copy_into_space` and `load_executable` (`kernel/sys/elf_loader.cpp`), on the machine of
`Construction.AddressSpace`.  The space is not the active one, so the bytes of the segments go to
physical memory, where `translate` says.

The file is a `ProgramFile`, with its content and its `read`, which may fail or return less than it
was asked for but nothing else than bytes of the file.  `room n` says whether the kernel heap has
room for the `n`-th buffer: the program headers', then one for each segment.

`load_executable` is cut in two at its loop: `readHeaders` is what comes before it, and
`loadSegments` the loop, whose variables are a `Loading`.
-/

namespace ShitOs

open Kstd PageFlags AddressSpace Program

/-- A file that is to be executed: an `fs::Inode` as far as the loader knows it. -/
structure ProgramFile where
  content : List (BitVec 8)
  size_lt : content.length < 2 ^ 64
  read : U64 → ℕ → Except Errno (List (BitVec 8))
  read_eq : ∀ offset length bytes, read offset length = .ok bytes →
    bytes.length ≤ length ∧ bytes = (content.drop offset.toNat).take bytes.length

namespace ElfLoader

/-! ## ELF -/

def EM_X86_64 : U64 := 62
def ET_EXEC : U64 := 2
def PT_LOAD : U64 := 1
def PF_X : U64 := 1
def PF_W : U64 := 2

/-- `sizeof(Elf64_Ehdr)`. -/
def ELF_HEADER_SIZE : ℕ := 64

/-- `sizeof(Elf64_Phdr)`. -/
def PROGRAM_HEADER_SIZE : ℕ := 56

/-- The number in `size` bytes, the lowest first. -/
def valueAt (bytes : U64 → BitVec 8) (address : U64) (size : ℕ) : U64 :=
  Memory.ofBytes fun i => if i < size then bytes (address + BitVec.ofNat 64 i) else 0

/-- The address of entry `i` of a table of structures. -/
def entryAddress (table : U64) (size i : ℕ) : U64 := table + BitVec.ofNat 64 (size * i)

/-- The fields of an `Elf64_Ehdr` that `is_valid_elf64` and the loader of programs look at. -/
structure ExecutableHeader where
  ident : ℕ → BitVec 8
  eType : U64
  eMachine : U64
  eEntry : U64
  ePhoff : U64
  ePhentsize : U64
  ePhnum : U64

def executableHeaderAt (bytes : U64 → BitVec 8) (a : U64) : ExecutableHeader where
  ident i := bytes (a + BitVec.ofNat 64 i)
  eType := valueAt bytes (a + 16) 2
  eMachine := valueAt bytes (a + 18) 2
  eEntry := valueAt bytes (a + 24) 8
  ePhoff := valueAt bytes (a + 32) 8
  ePhentsize := valueAt bytes (a + 54) 2
  ePhnum := valueAt bytes (a + 56) 2

/-- `is_valid_elf64`: the magic number, 64 bits, little-endian, for this machine. -/
def isValidElf64 (header : ExecutableHeader) : Bool :=
  header.ident 0 = 0x7F && header.ident 1 = 0x45 && header.ident 2 = 0x4C &&
  header.ident 3 = 0x46 &&
    header.ident 4 = 2 && header.ident 5 = 1 && header.eMachine = EM_X86_64

/-- The fields of an `Elf64_Phdr` that the loader looks at. -/
structure ProgramHeader where
  pType : U64
  pFlags : U64
  pOffset : U64
  pVaddr : U64
  pFilesz : U64
  pMemsz : U64
  deriving DecidableEq

def programHeaderAt (bytes : U64 → BitVec 8) (a : U64) : ProgramHeader where
  pType := valueAt bytes a 4
  pFlags := valueAt bytes (a + 4) 4
  pOffset := valueAt bytes (a + 8) 8
  pVaddr := valueAt bytes (a + 16) 8
  pFilesz := valueAt bytes (a + 32) 8
  pMemsz := valueAt bytes (a + 40) 8

/-- The bytes of a buffer, by their place in it. -/
def bufferBytes (buffer : List (BitVec 8)) (a : U64) : BitVec 8 := buffer.getD a.toNat 0

/-- The table of program headers in a buffer, from `a` on. -/
def programHeadersAt (buffer : List (BitVec 8)) (a : U64) (count : ℕ) : List ProgramHeader :=
  (List.range count).map fun i =>
    programHeaderAt (bufferBytes buffer) (entryAddress a PROGRAM_HEADER_SIZE i)

def flagsForSegment (pFlags : U64) : U64 :=
  let flags := Present ||| User
  let flags := if pFlags &&& PF_W ≠ 0 then flags ||| Writable else flags
  if pFlags &&& PF_X = 0 then flags ||| NoExecute else flags

def stagingFlags : U64 := Present ||| Writable ||| User ||| NoExecute

/-- A `LoadedExecutable`. -/
structure LoadedExecutable where
  entry : U64
  phdrAddress : U64
  phdrCount : U64
  phdrEntrySize : U64
  brkStart : U64
  deriving DecidableEq

/-! ## Copying -/

/-- The machine with bytes from `place` of the source on put at a physical address. -/
def copyPiece (source : List (BitVec 8)) (place chunk : ℕ) (frame : U64) (m : Machine) : Machine :=
  { m with words := Memory.storeBytes m.words frame.toNat chunk fun i => source.getD (place + i) 0 }

def copyIntoSpace (root : ℕ) (destination : U64) (source : List (BitVec 8)) : MachineM Unit :=
  (pieces PAGE_SIZE destination.toNat source.length).forM fun (position, chunk) => do
    match translate (← get).words root (BitVec.ofNat 64 position) with
    | .error e => throw e
    | .ok frame => modify (copyPiece source (position - destination.toNat) chunk frame)

/-! ## Loading -/

/-- The variables of the loop over the segments. -/
structure Loading where
  highestAddress : U64 := 0
  phdrAddress : U64 := 0
  deriving DecidableEq

/-- Puts the bytes of the file into a segment that is mapped. -/
def copySegment (file : ProgramFile) (room : Bool) (root : ℕ) (segment : ProgramHeader) :
    MachineM Unit := do
  if 0 < segment.pFilesz then
    if ¬ room then
      throw .ENOMEM
    match file.read segment.pOffset segment.pFilesz.toNat with
    | .error _ => throw .ENOEXEC
    | .ok bytes =>
      if bytes.length ≠ segment.pFilesz.toNat then
        throw .ENOEXEC
      copyIntoSpace root segment.pVaddr bytes

def ExecutableHeader.programHeadersSize (header : ExecutableHeader) :
    U64 := header.ePhnum * header.ePhentsize

/-- The variables after a segment that ends with `finish`. -/
def Loading.after (header : ExecutableHeader) (segment : ProgramHeader) (finish : U64)
    (loading : Loading) : Loading where
  highestAddress := if finish < loading.highestAddress then loading.highestAddress else finish
  phdrAddress :=
    if segment.pOffset ≤ header.ePhoff ∧
        header.ePhoff + header.programHeadersSize ≤ segment.pOffset + segment.pFilesz then
      segment.pVaddr + (header.ePhoff - segment.pOffset)
    else loading.phdrAddress

/-- One turn of the loop over the segments. -/
def loadSegment (file : ProgramFile) (room : Bool) (root : ℕ) (header : ExecutableHeader)
    (segment : ProgramHeader) (loading : Loading) : MachineM Loading := do
  if segment.pType ≠ PT_LOAD ∨ segment.pMemsz = 0 then
    return loading
  if USER_SPACE_END ≤ segment.pVaddr ∨ USER_SPACE_END < segment.pVaddr + segment.pMemsz then
    throw .ENOEXEC
  let start := alignDown segment.pVaddr 4096
  let finish := alignUp (segment.pVaddr + segment.pMemsz) 4096
  mapAnonymous root start (finish - start) stagingFlags
  copySegment file room root segment
  protect root start (finish - start) (flagsForSegment segment.pFlags)
  return loading.after header segment finish

/-- The loop, from segment `i` on. -/
def loadSegments (file : ProgramFile) (room : ℕ → Bool) (root : ℕ) (header : ExecutableHeader) :
    ℕ → List ProgramHeader → Loading → MachineM Loading
  | _, [], loading => return loading
  | i, segment :: segments, loading => do
    let loading ← loadSegment file (room (i + 1)) root header segment loading
    loadSegments file room root header (i + 1) segments loading

/-- `load_executable` up to the loop. -/
def readHeaders (file : ProgramFile) (room : Bool) :
    Except Errno (ExecutableHeader × List ProgramHeader) := do
  let headerBytes ← file.read 0 ELF_HEADER_SIZE
  if headerBytes.length ≠ ELF_HEADER_SIZE then
    throw .ENOEXEC
  let header := executableHeaderAt (bufferBytes headerBytes) 0
  if ¬ isValidElf64 header then
    throw .ENOEXEC
  if header.eType ≠ ET_EXEC then
    throw .ENOEXEC
  if header.ePhnum = 0 ∨ header.ePhentsize.toNat ≠ PROGRAM_HEADER_SIZE then
    throw .ENOEXEC
  if ¬ room then
    throw .ENOMEM
  let table ← file.read header.ePhoff header.programHeadersSize.toNat
  if table.length ≠ header.programHeadersSize.toNat then
    throw .ENOEXEC
  return (header, programHeadersAt table 0 header.ePhnum.toNat)

def loadExecutable (file : ProgramFile) (room : ℕ → Bool) (root : ℕ) :
    MachineM LoadedExecutable := do
  match readHeaders file (room 0) with
  | .error e => throw e
  | .ok (header, segments) =>
    let loading ← loadSegments file room root header 0 segments {}
    if loading.highestAddress = 0 then
      throw .ENOEXEC
    return {
      entry := header.eEntry
      phdrAddress := loading.phdrAddress
      phdrCount := header.ePhnum
      phdrEntrySize := header.ePhentsize
      brkStart := loading.highestAddress }

end ElfLoader

end ShitOs
