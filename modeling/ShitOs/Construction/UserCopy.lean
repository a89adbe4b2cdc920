import ShitOs.Construction.AddressSpace

/-!
# Copying a string out of user memory

A model of `copy_string_from_user` in `kernel/sys/syscall.cpp`.  The kernel reads the byte at a user
address directly, through the page tables.  A check covers the rest of a page, and the loop makes
one at its first byte and at the start of every other page.

What is recorded besides the result is the destination and every user address that was dereferenced.
-/

namespace ShitOs

open Kstd

namespace UserCopy

variable (words : Memory.Words) (root : ℕ)

/-- The byte at a user address.  One that is not mapped would be a fault. -/
def userByte (address : U64) : BitVec 8 :=
  match AddressSpace.translate words root address with
  | .ok physical => Memory.loadByte words physical.toNat
  | .error _ => 0

/-- What a call has done. -/
structure StringCopy where
  destination : ℕ → BitVec 8
  dereferenced : List U64
  result : Except Errno ℕ

/-- The loop, with `remaining + length + 1` the capacity, and what follows it. -/
def copyLoop (source : U64) : ℕ → ℕ → (ℕ → BitVec 8) → List U64 → StringCopy
  | 0, length, destination, dereferenced =>
    ⟨Function.update destination length 0, dereferenced, .error .ENAMETOOLONG⟩
  | remaining + 1, length, destination, dereferenced =>
    let address := source + BitVec.ofNat 64 length
    let toPageEnd := 4096 - (address &&& 4095)
    if (address &&& 4095 = 0 ∨ length = 0) ∧
        ¬ AddressSpace.validateUserRange words root address toPageEnd false then
      ⟨destination, dereferenced, .error .EFAULT⟩
    else
      let c := userByte words root address
      let destination := Function.update destination length c
      let dereferenced := dereferenced ++ [address]
      if c = 0 then ⟨destination, dereferenced, .ok length⟩
      else copyLoop source remaining (length + 1) destination dereferenced

/-- `copy_string_from_user`.  `space` is the root of the current process's address space, if there
is a process and it has one. -/
def copyStringFromUser (space : Option ℕ) (destination : ℕ → BitVec 8) (source : U64)
    (capacity : ℕ) : StringCopy :=
  if capacity = 0 then ⟨destination, [], .error .EINVAL⟩
  else
    match space with
    | none => ⟨destination, [], .error .EFAULT⟩
    | some root => copyLoop words root source (capacity - 1) 0 destination []

end UserCopy
end ShitOs
