import Mathlib.Data.BitVec
import Mathlib.Tactic.Common

/-!
# Constants shared by the kernel and the C library

The error numbers, `open` flags and `mmap` flags of `include/shitos/abi`.  Error numbers are an
enumeration: the kernel compares them, and negates their `code` once, on the way back.  Flag words
have 32 bits and register-sized arguments 64.
-/

namespace ShitOs

/-- The kernel's `u64`, `usize` and every address. -/
abbrev U64 := BitVec 64

/-- The `errno` values the modelled code returns (`abi/errno.h`). -/
inductive Errno
  | EPERM | ENOENT | ESRCH | EINTR | EIO | ENXIO | E2BIG | ENOEXEC | EBADF | ECHILD |
    EAGAIN | ENOMEM
  | EACCES | EFAULT | EBUSY | EEXIST | EXDEV | ENODEV | ENOTDIR | EISDIR | EINVAL |
      EMFILE | ENOSPC | EROFS
  | EPIPE | ERANGE | ENAMETOOLONG | ENOSYS | ENOTEMPTY | ENOTSUP | EABIVER
  deriving DecidableEq

/-- The number of an error. -/
def Errno.code : Errno → ℕ
  | EPERM => 1
  | ENOENT => 2
  | ESRCH => 3
  | EINTR => 4
  | EIO => 5
  | ENXIO => 6
  | E2BIG => 7
  | ENOEXEC => 8
  | EBADF => 9
  | ECHILD => 10
  | EAGAIN => 11
  | ENOMEM => 12
  | EACCES => 13
  | EFAULT => 14
  | EBUSY => 16
  | EEXIST => 17
  | EXDEV => 18
  | ENODEV => 19
  | ENOTDIR => 20
  | EISDIR => 21
  | EINVAL => 22
  | EMFILE => 24
  | ENOSPC => 28
  | EROFS => 30
  | EPIPE => 32
  | ERANGE => 34
  | ENAMETOOLONG => 36
  | ENOSYS => 38
  | ENOTEMPTY => 39
  | ENOTSUP => 95
  | EABIVER => 200

/-! ## `abi/fcntl.h` -/

def O_RDONLY : BitVec 32 := 0x0
def O_WRONLY : BitVec 32 := 0x1
def O_RDWR : BitVec 32 := 0x2
def O_ACCMODE : BitVec 32 := 0x3
def O_CREAT : BitVec 32 := 0x40
def O_EXCL : BitVec 32 := 0x80
def O_TRUNC : BitVec 32 := 0x200
def O_APPEND : BitVec 32 := 0x400
def O_NONBLOCK : BitVec 32 := 0x800
def O_DIRECTORY : BitVec 32 := 0x10000
def O_CLOEXEC : BitVec 32 := 0x80000
def O_SETFL_MASK : BitVec 32 := O_APPEND ||| O_NONBLOCK

end ShitOs
