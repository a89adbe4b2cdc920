import ShitOs.Framework.Memory

/-!
# `memcpy` and `memmove`

A model of the copy functions of `kernel/lib/string.cpp` and `user/libc/src/string.c`, which are
the same code.  The memory is the bytes at all addresses; a pointer may have any alignment, and a
word is loaded in full before it is stored.
-/

namespace ShitOs
namespace ByteCopy

/-- `*(u64 const*)s`: eight bytes, the least significant first. -/
def loadWord (m : ℕ → BitVec 8) (s : ℕ) : BitVec 64 := Memory.ofBytes fun i => m (s + i)

/-- `*(u64*)d = w`. -/
def storeWord (m : ℕ → BitVec 8) (d : ℕ) (w : BitVec 64) : ℕ → BitVec 8 := fun a =>
  if d ≤ a ∧ a < d + 8 then Memory.getByte w (a - d) else m a

/-- The loop of `memcpy` over the bytes that are left. -/
def copyBytes (m : ℕ → BitVec 8) (d s : ℕ) : ℕ → ℕ → BitVec 8
  | 0 => m
  | n + 1 => copyBytes (Function.update m d (m s)) (d + 1) (s + 1) n

/-- `memcpy`: whole words while there is one, then bytes. -/
def memcpy (m : ℕ → BitVec 8) (d s n : ℕ) : ℕ → BitVec 8 :=
  if 8 ≤ n then memcpy (storeWord m d (loadWord m s)) (d + 8) (s + 8) (n - 8) else copyBytes m d s n

/-- The loop of `memmove` that goes down; `d` and `s` are where the ranges start. -/
def copyDown (m : ℕ → BitVec 8) (d s : ℕ) : ℕ → ℕ → BitVec 8
  | 0 => m
  | n + 1 => copyDown (Function.update m (d + n) (m (s + n))) d s n

def memmove (m : ℕ → BitVec 8) (d s n : ℕ) : ℕ → BitVec 8 :=
  if d = s ∨ n = 0 then m else if d < s then memcpy m d s n else copyDown m d s n

/-- `memmove` of the kernel. -/
def Kernel.memmove := ByteCopy.memmove

/-- `memmove` of the C library. -/
def Libc.memmove := ByteCopy.memmove

end ByteCopy
end ShitOs
