import ShitOs.Construction.Physical

/-!
# The break and `mmap`

A model of `Process::set_brk` and of what `sys_mmap` does with addresses when `MAP_FIXED` is not
set, for a process and those it came from: `sys_fork` lets a child go on where its parent stands,
and `sys_execve` leaves the next address of `mmap` as it is.  Whether what follows the choice of the
address succeeds is an argument; pages that are there already are skipped by `map_anonymous`.
-/

namespace ShitOs

def USER_STACK_TOP : U64 := 0x00007FFFFFFFF000

def USER_STACK_SIZE : U64 := 64 * 1024

/-- The first value of `mmap_next`. -/
def MMAP_BASE : U64 := 0x0000100000000000

/-- The break of a process, the next address of `mmap`, and the regions it has handed out. -/
structure Regions where
  brkStart : U64
  brkCurrent : U64
  mmapNext : U64
  handed : List (U64 × U64)

open Kstd

namespace Regions

def initial (brkStart : U64) : Regions := ⟨brkStart, brkStart, MMAP_BASE, []⟩

variable (s : Regions)

/-- Whether `set_brk` takes the address. -/
def takes (address : U64) : Prop :=
  address ≠ 0 ∧ s.brkStart ≤ address ∧ address < USER_STACK_TOP - USER_STACK_SIZE
  deriving Decidable

def setBrk (address : U64) (mapped : Bool) : Regions :=
  if s.takes address ∧ (alignUp s.brkCurrent 4096 < alignUp address 4096 → mapped) then
    { s with brkCurrent := address }
  else s

/-- What `set_brk` unmaps, if it shrinks: the pages from here to the end of the break. -/
def unmapsFrom (address : U64) : Option U64 :=
  if s.takes address ∧ alignUp address 4096 <
    alignUp s.brkCurrent 4096 then some (alignUp address 4096) else none

/-- `sys_mmap`. -/
def mmap (length : U64) (mapped : Bool) : Regions :=
  if length = 0 then s
  else
    { s with
      mmapNext := s.mmapNext + (alignUp length 4096 + 4096)
      handed := if mapped then (s.mmapNext, length) :: s.handed else s.handed }

end Regions

inductive RegionCall
  | brk (address : U64) (mapped : Bool)
  | mmap (length : U64) (mapped : Bool)
  | fork
  | execve (brkStart : U64)

def Regions.step (s : Regions) : RegionCall → Option Regions
  | .brk address mapped => some (s.setBrk address mapped)
  | .mmap length mapped => some (s.mmap length mapped)
  | .fork => some { s with brkStart := s.brkCurrent }
  | .execve brkStart => some { s with brkStart, brkCurrent := brkStart, handed := [] }

end ShitOs
