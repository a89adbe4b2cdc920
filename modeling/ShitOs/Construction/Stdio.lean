import ShitOs.Framework.Overwrite
import Mathlib.Data.Int.Basic

/-!
# Buffered streams of the C library

A model of `user/libc/src/stdio.c`, as far as streams on regular files are concerned.  One buffer
serves both directions: bytes `0` to `pending` wait for being written, and bytes `position` to
`available` have been read ahead.

The kernel's side is an `OpenFile`.  `share n` says what happens to call number `n` of `read` or
`write`: it fails, or transfers at most so many bytes, possibly fewer than asked for.  Positions and
offsets are integers; where `lseek` adds them up they wrap, and with them what `fseek` subtracts.

`fmemopen`, standard output (which `fgetc` flushes before it reads) and `fclose` are left out.
-/

namespace ShitOs

def EOF : ℤ := -1

def LONG_MAX : ℤ := 9223372036854775807

/-- A `long` after an addition that may overflow once. -/
def wrapLong (x : ℤ) : ℤ :=
  if LONG_MAX < x then x - 2 * (LONG_MAX + 1)
  else if x < -LONG_MAX - 1 then x + 2 * (LONG_MAX + 1)
  else x

inductive Whence
  | SEEK_SET | SEEK_CUR | SEEK_END
  deriving DecidableEq

/-- An open regular file: its contents, the offset of the descriptor, and how many calls of `read`
and `write` there have been. -/
structure OpenFile where
  bytes : List UInt8
  offset : ℕ
  calls : ℕ
  deriving DecidableEq

namespace OpenFile

variable (share : ℕ → Option ℕ) (f : OpenFile)

/-- `read`; `none` if it fails. -/
def read (length : ℕ) : Option (List UInt8) × OpenFile :=
  match share f.calls with
  | none => (none, { f with calls := f.calls + 1 })
  | some most =>
    let got := (f.bytes.drop f.offset).take (min most length)
    (some got, { f with offset := f.offset + got.length, calls := f.calls + 1 })

/-- `write`; `none` if it fails. -/
def write (data : List UInt8) : Option ℕ × OpenFile :=
  match share f.calls with
  | none => (none, { f with calls := f.calls + 1 })
  | some most =>
    let put := data.take most
    (some put.length,
      { bytes := overwrite 0 f.bytes put f.offset
        offset := f.offset + put.length
        calls := f.calls + 1 })

/-- `lseek`; `none` if it fails. -/
def lseek (offset : ℤ) (whence : Whence) : Option OpenFile :=
  let base : ℤ :=
    match whence with
    | .SEEK_SET => 0
    | .SEEK_CUR => f.offset
    | .SEEK_END => f.bytes.length
  let target := wrapLong (base + offset)
  if target < 0 then none else some { f with offset := target.toNat }

end OpenFile

/-- The parts of the mode string of `fopen` that are modelled. -/
inductive OpenMode
  | r | rPlus | w | wPlus
  deriving DecidableEq

/-- The buffering modes of `setvbuf`. -/
inductive Buffering
  | IOFBF | IOLBF | IONBF
  deriving DecidableEq

def BUFSIZ : ℕ := 1024

/-- `FILE`.  The flags are fields of their own. -/
structure Stream where
  file : OpenFile
  readable : Bool
  writable : Bool
  eof : Bool
  error : Bool
  lineBuffered : Bool
  unbuffered : Bool
  buffer : Option (List UInt8)
  capacity : ℕ
  pending : ℕ
  available : ℕ
  position : ℕ
  unget : UInt8
  deriving DecidableEq

namespace Stream

/-- `fopen` on a file that has the given contents; `memory` is what `malloc` returned. -/
def fopen (mode : OpenMode) (contents : List UInt8)
    (memory : Option { bytes : List UInt8 // bytes.length = BUFSIZ }) : Stream where
  file :=
    { bytes := if mode = .r ∨ mode = .rPlus then contents else []
      offset := 0
      calls := 0 }
  readable := mode ≠ .w
  writable := mode ≠ .r
  eof := false
  error := false
  lineBuffered := false
  unbuffered := memory.isNone
  buffer := memory.map (·.1)
  capacity := if memory.isSome then BUFSIZ else 0
  pending := 0
  available := 0
  position := 0
  unget := 0

variable (share : ℕ → Option ℕ) (s : Stream)

/-- The loop of `fflush`, with `rest` to write; whether it came to its end. -/
def flushLoop : ℕ → OpenFile → List UInt8 → Bool × OpenFile
  | 0, f, rest => (rest.isEmpty, f)
  | fuel + 1, f, rest =>
    if rest.isEmpty then (true, f)
    else
      match f.write share rest with
      | (none, f) => (false, f)
      | (some count, f) => if count = 0 then (false, f) else flushLoop fuel f (rest.drop count)

/-- What waits for being written. -/
def waiting : List UInt8 := (s.buffer.getD []).take s.pending

/-- `fflush`.  Every turn of the loop writes at least one byte. -/
def fflush : ℤ × Stream :=
  if s.pending = 0 then (0, s)
  else
    match flushLoop share s.pending s.file s.waiting with
    | (true, file) => (0, { s with file := file, pending := 0 })
    | (false, file) => (EOF, { s with file := file, pending := 0, error := true })

def fputc (c : UInt8) : ℤ × Stream :=
  if s.writable = false then (EOF, { s with error := true })
  else if s.unbuffered ∨ s.buffer = none then
    match s.file.write share [c] with
    | (some 1, file) => (c.toNat, { s with file := file })
    | (_, file) => (EOF, { s with file := file, error := true })
  else
    let s := { s with buffer := s.buffer.map (·.set s.pending c), pending := s.pending + 1 }
    if s.pending = s.capacity ∨ (s.lineBuffered ∧ c = 10) then
      let flushed := s.fflush share
      if flushed.1 = EOF then (EOF, flushed.2) else (c.toNat, flushed.2)
    else (c.toNat, s)

def refill : ℤ × Stream :=
  match s.readable, s.buffer with
  | true, some memory =>
    match s.file.read share s.capacity with
    | (none, file) => (EOF, { s with file := file, error := true })
    | (some got, file) =>
      if got.isEmpty then (EOF, { s with file := file, eof := true })
      else
        (0, { s with
          file := file
          buffer := some (got ++ memory.drop got.length)
          available := got.length
          position := 0 })
  | _, _ => (EOF, s)

def fgetc : ℤ × Stream :=
  if s.unget ≠ 0 then (s.unget.toNat, { s with unget := 0 })
  else
    let filled := if s.available ≤ s.position then s.refill share else (0, s)
    if filled.1 = EOF then (EOF, filled.2)
    else
      (((filled.2.buffer.getD []).getD filled.2.position 0).toNat,
        { filled.2 with position := filled.2.position + 1 })

def ungetc (c : ℤ) : ℤ × Stream :=
  if c = EOF then (EOF, s)
  else (c, { s with unget := (c % 256).toNat.toUInt8, eof := false })

def fseek (offset : ℤ) (whence : Whence) : ℤ × Stream :=
  let flushed := s.fflush share
  let s := flushed.2
  if flushed.1 = EOF then (-1, s)
  else
    let offset :=
      if whence = .SEEK_CUR then
        offset - (s.available - s.position) - (if s.unget ≠ 0 then 1 else 0)
      else offset
    let s := { s with available := 0, position := 0, unget := 0, eof := false }
    match s.file.lseek offset whence with
    | none => (-1, { s with error := true })
    | some file => (0, { s with file := file })

def ftell : ℤ × Stream :=
  match s.file.lseek 0 .SEEK_CUR with
  | none => (-1, { s with error := true })
  | some file =>
    (file.offset - (s.available - s.position) + s.pending - (if s.unget ≠ 0 then 1 else 0),
      { s with file := file })

/-- `setvbuf`, with a mode that exists; `memory` is the caller's buffer and its size, if it brings
one. -/
def setvbuf (memory : Option (List UInt8)) (mode : Buffering) : Stream :=
  let s := { (s.fflush share).2 with lineBuffered := false, unbuffered := false }
  match mode with
  | .IONBF => { s with unbuffered := true }
  | mode =>
    let s := { s with lineBuffered := decide (mode = .IOLBF) }
    match memory with
    | none => s
    | some memory =>
      if memory.isEmpty then s
      else
        { s with
          buffer := some memory
          capacity := memory.length
          pending := 0
          available := 0
          position := 0 }

end Stream

/-- A call on a stream. -/
inductive StdioCall
  | fputc (c : UInt8)
  | fgetc
  | ungetc (c : UInt8)
  | fseek (offset : ℤ) (whence : Whence)
  | ftell
  | fflush
  deriving DecidableEq

/-- What a call returns, and the stream behind it. -/
def Stream.call (share : ℕ → Option ℕ) (s : Stream) : StdioCall → ℤ × Stream
  | .fputc c => s.fputc share c
  | .fgetc => s.fgetc share
  | .ungetc c => s.ungetc c.toNat
  | .fseek offset whence => s.fseek share offset whence
  | .ftell => s.ftell
  | .fflush => s.fflush share

end ShitOs
