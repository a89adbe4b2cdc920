import ShitOs.Framework.Transition
import ShitOs.Construction.Stdio

/-!
# A stream is a file with a cursor

`ByteFile` is what a stream is meant to be: a byte array with one cursor, operated on directly, and
at most one byte that has been pushed back.  A `StdioSession` gives the same calls to a stream and
to such a file, in any order that the C standard allows, and remembers what both returned.

`Mirrors` is the simulation relation.  The bytes that wait in the buffer lie over those of the file;
the cursor is the offset of the descriptor, plus what waits, minus what has been read ahead; and the
latter are the bytes behind the cursor.  Each call keeps the relation, so streams refine files:
`stdio_refines`.

Three things are excluded there.  A byte that has been pushed back is kept in an `int` of which 0
means that there is none, so byte 0 gets lost: `pushed_zero_lost`.  A seek throws away what has been
read ahead or pushed back before it knows whether it succeeds, so that a seek that fails moves the
cursor.  And a stream for which `malloc` had no memory cannot be read from.
-/

namespace ShitOs

open Transition

lemma wrapLong_of_le {x : ℤ} (hpos : 0 ≤ x) (hle : x ≤ LONG_MAX) : wrapLong x = x := by
  rw [wrapLong, if_neg (by omega), if_neg (by omega)]

lemma wrapLong_neg {x : ℤ} (h : x < 0 ∨ LONG_MAX < x)
    (hbounds : -LONG_MAX - 1 ≤ x ∧ x ≤ 2 * LONG_MAX) : wrapLong x < 0 := by
  unfold wrapLong
  split_ifs <;> omega

/-! ## The file with a cursor -/

/-- A byte array with one cursor, and at most one byte that has been pushed back in front of it. -/
structure ByteFile where
  bytes : List UInt8
  cursor : ℕ
  pushed : Option UInt8
  readable : Bool
  writable : Bool
  deriving DecidableEq

namespace ByteFile

/-- A file that has just been opened. -/
def start (mode : OpenMode) (contents : List UInt8) : ByteFile where
  bytes := if mode = .r ∨ mode = .rPlus then contents else []
  cursor := 0
  pushed := none
  readable := mode ≠ .w
  writable := mode ≠ .r

variable (m : ByteFile)

/-- The position; a byte that has been pushed back counts. -/
def tell : ℤ := m.cursor - (if m.pushed.isSome then 1 else 0)

/-- Where a seek goes. -/
def target (offset : ℤ) : Whence → ℤ
  | .SEEK_SET => offset
  | .SEEK_CUR => m.tell + offset
  | .SEEK_END => m.bytes.length + offset

/-- What a call returns, and what it does to the file. -/
def call : StdioCall → ℤ × ByteFile
  | .fputc c =>
    if m.writable then
      (c.toNat, { m with bytes := overwrite 0 m.bytes [c] m.cursor, cursor := m.cursor + 1 })
    else (EOF, m)
  | .fgetc =>
    match m.pushed with
    | some c => (c.toNat, { m with pushed := none })
    | none =>
      match m.readable, m.bytes[m.cursor]? with
      | true, some c => (c.toNat, { m with cursor := m.cursor + 1 })
      | _, _ => (EOF, m)
  | .ungetc c => (c.toNat, { m with pushed := some c })
  | .fseek offset whence =>
    if m.target offset whence < 0 ∨ LONG_MAX < m.target offset whence then (-1, m)
    else (0, { m with cursor := (m.target offset whence).toNat, pushed := none })
  | .ftell => (m.tell, m)
  | .fflush => (0, m)

variable {m} {c : UInt8}

lemma fputc_writable (hwrite : m.writable = true) (c : UInt8) : m.call (.fputc c) =
    ((c.toNat : ℤ),
      { m with bytes := overwrite 0 m.bytes [c] m.cursor, cursor := m.cursor + 1 }) := by
  rw [call, if_pos hwrite]

lemma fputc_refused (hwrite : m.writable = false) (c : UInt8) : m.call (.fputc c) = (EOF, m) := by
  rw [call, if_neg (by simp [hwrite])]

lemma fgetc_pushed (hpush : m.pushed = some c) :
    m.call .fgetc = ((c.toNat : ℤ), { m with pushed := none }) := by
  simp only [call, hpush]

lemma fgetc_byte (hpush : m.pushed = none) (hread : m.readable = true)
    (hc : m.bytes[m.cursor]? = some c) :
    m.call .fgetc = ((c.toNat : ℤ), { m with cursor := m.cursor + 1 }) := by
  simp only [call, hpush, hread, hc]

lemma fgetc_end (hpush : m.pushed = none)
    (hend : m.readable = false ∨ m.bytes[m.cursor]? = none) : m.call .fgetc = (EOF, m) := by
  rcases hend with hend | hend
  · simp only [call, hpush, hend]
  · cases hread : m.readable <;> simp only [call, hpush, hend, hread]

/-- The positions in a file fit into a `long`. -/
structure Short (m : ByteFile) : Prop where
  cursor : m.cursor ≤ LONG_MAX
  length : m.bytes.length ≤ LONG_MAX

end ByteFile

/-! ## Sequences of calls -/

/-- What has been done with a stream since it was last repositioned. -/
inductive Direction
  | neutral | input | output
  deriving DecidableEq

namespace Direction

variable (d : Direction) (m : ByteFile)

/-- The rule of the C standard for streams that are open for update: no input directly behind
output, and no output directly behind input that has not met the end of the file.  A byte is pushed
back only onto a stream that is read from, and only if there is none already. -/
def allows : StdioCall → Prop
  | .fputc _ => m.writable → d ≠ .input
  | .fgetc => m.readable → d ≠ .output
  | .ungetc _ => m.readable ∧ d ≠ .output ∧ m.pushed = none
  | .fseek _ _ | .ftell | .fflush => True

instance (c : StdioCall) : Decidable (d.allows m c) := by
  cases c <;> unfold allows <;> infer_instance

/-- Behind a call that returned `result`. -/
def next (result : ℤ) : StdioCall → Direction
  | .fputc _ => if m.writable then .output else d
  | .fgetc => if result ≠ EOF then .input else if m.readable then .neutral else d
  | .ungetc _ => .input
  | .fseek _ _ => .neutral
  | .ftell => d
  | .fflush => if d = .output then .neutral else d

end Direction

/-- A stream and a file with a cursor that get the same calls, with all they have returned. -/
structure StdioSession where
  stream : Stream
  model : ByteFile
  direction : Direction
  returned : List ℤ
  expected : List ℤ
  deriving DecidableEq

namespace StdioSession

variable (share : ℕ → Option ℕ)

/-- A call that the rule allows. -/
def step (s : StdioSession) (c : StdioCall) : Option StdioSession :=
  if s.direction.allows s.model c then
    some
      { stream := (s.stream.call share c).2
        model := (s.model.call c).2
        direction := s.direction.next s.model (s.model.call c).1 c
        returned := s.returned ++ [(s.stream.call share c).1]
        expected := s.expected ++ [(s.model.call c).1] }
  else none

/-- The file is opened, and before anything else its buffering is set some number of times. -/
def start (mode : OpenMode) (contents : List UInt8)
    (memory : Option { bytes : List UInt8 // bytes.length = BUFSIZ })
    (settings : List (Option (List UInt8) × Buffering)) : StdioSession where
  stream := settings.foldl (fun s setting => s.setvbuf share setting.1 setting.2)
    (.fopen mode contents memory)
  model := .start mode contents
  direction := .neutral
  returned := []
  expected := []

/-- The file stays below `LONG_MAX`; the stream has a buffer to read into; no byte 0 is pushed back;
and a seek does not fail, unless nothing has been read ahead or pushed back. -/
def Proper (s : StdioSession) : StdioCall → Prop
  | .fputc _ => s.model.writable → s.model.cursor < LONG_MAX
  | .fgetc => s.model.readable → s.stream.buffer.isSome ∨ s.stream.unget ≠ 0
  | .ungetc c => c ≠ 0
  | .fseek offset whence =>
      0 ≤ s.model.target offset whence ∧ s.model.target offset whence ≤ LONG_MAX ∨
      s.stream.available = s.stream.position ∧ s.stream.unget = 0 ∧
        -LONG_MAX - 1 ≤ offset ∧ offset ≤ LONG_MAX
  | _ => True

instance (s : StdioSession) (c : StdioCall) : Decidable (s.Proper c) := by
  cases c <;> unfold Proper <;> infer_instance

end StdioSession

/-! ## The simulation -/

/-- Every call of `read` and `write` transfers something. -/
def Transfers (share : ℕ → Option ℕ) : Prop := ∀ n, ∃ most, share n = some most ∧ 0 < most

/-- The stream `s` stands for the file `m`. -/
structure Mirrors (s : Stream) (m : ByteFile) (d : Direction) : Prop where
  readable : s.readable = m.readable
  writable : s.writable = m.writable
  capacity : ∀ memory ∈ s.buffer, memory.length = s.capacity ∧ 0 < s.capacity
  pending_lt : 0 < s.pending → s.pending < (s.buffer.getD []).length
  unbuffered : s.unbuffered → s.pending = 0
  position_le : s.position ≤ s.available
  bytes : m.bytes = overwrite 0 s.file.bytes s.waiting s.file.offset
  cursor : m.cursor + (s.available - s.position) = s.file.offset + s.pending
  ahead : ∀ k, s.position + k < s.available →
    (s.buffer.getD [])[s.position + k]? = m.bytes[m.cursor + k]?
  available_le : s.position < s.available → s.available ≤ (s.buffer.getD []).length
  ahead_readable : s.readable = false → s.available = s.position
  pushed : m.pushed = if s.unget = 0 then none else some s.unget
  notInput : d ≠ .input → s.available = s.position ∧ s.unget = 0
  notOutput : d ≠ .output → s.pending = 0

namespace Stream

variable {share : ℕ → Option ℕ} {s : Stream} {m : ByteFile} {d : Direction}

lemma flushLoop_eq (hshare : Transfers share) : ∀ (fuel : ℕ) (f : OpenFile) (rest : List UInt8),
    rest.length ≤ fuel → ∃ calls, flushLoop share fuel f rest =
      (true, ⟨overwrite 0 f.bytes rest f.offset, f.offset + rest.length, calls⟩) := by
  intro fuel
  induction fuel with
  | zero =>
    intro f rest hfuel
    obtain rfl := List.length_eq_zero_iff.mp (Nat.le_zero.mp hfuel)
    exact ⟨f.calls, rfl⟩
  | succ fuel ih =>
    intro f rest hfuel
    rcases eq_or_ne rest [] with rfl | hrest
    · exact ⟨f.calls, rfl⟩
    obtain ⟨most, hmost, hpos⟩ := hshare f.calls
    have hlen := List.length_pos_iff.mpr hrest
    have hput : (rest.take most).length ≠ 0 := by
      rw [List.length_take]
      omega
    have hdrop : (rest.drop (rest.take most).length).length ≤ fuel := by
      rw [List.length_drop]
      omega
    obtain ⟨calls, hloop⟩ := ih ⟨overwrite 0 f.bytes (rest.take most) f.offset,
      f.offset + (rest.take most).length, f.calls + 1⟩ _ hdrop
    refine ⟨calls, ?_⟩
    have hsplit : rest.take most ++ rest.drop (rest.take most).length = rest := by
      conv_lhs => rw [List.prefix_iff_eq_take.mp (List.take_prefix most rest)]
      simp
    rw [flushLoop, if_neg (by simpa using hrest), OpenFile.write, hmost]
    dsimp only
    rw [if_neg hput, hloop]
    rw [overwrite_append, hsplit, Nat.add_assoc, ← List.length_append, hsplit]

lemma fflush_eq (hshare : Transfers share) (hpend : s.pending ≤ (s.buffer.getD []).length) :
    ∃ calls, s.fflush share =
      (0, { s with
        file := ⟨overwrite 0 s.file.bytes s.waiting s.file.offset, s.file.offset + s.pending, calls⟩
        pending := 0 }) := by
  unfold fflush
  by_cases hzero : s.pending = 0
  · rw [if_pos hzero]
    refine ⟨s.file.calls, ?_⟩
    obtain ⟨file, _, _, _, _, _, _, buffer, _, pending, _, _, _⟩ := s
    obtain rfl : pending = 0 := hzero
    simp [waiting]
  · have hlen : s.waiting.length = s.pending := by
      rw [waiting, List.length_take]
      omega
    obtain ⟨calls, hloop⟩ := flushLoop_eq hshare s.pending s.file s.waiting (Nat.le_of_eq hlen)
    refine ⟨calls, ?_⟩
    rw [if_neg hzero, hloop, hlen]

/-- A byte is put into the buffer. -/
def store (s : Stream) (c : UInt8) : Stream :=
  { s with buffer := s.buffer.map (·.set s.pending c), pending := s.pending + 1 }

lemma fgetc_of_ahead (hunget : s.unget = 0) (hahead : s.position < s.available) :
    s.fgetc share = ((((s.buffer.getD []).getD s.position 0).toNat : ℤ),
      { s with position := s.position + 1 }) := by
  unfold fgetc
  rw [if_neg (not_not.mpr hunget), if_neg (Nat.not_le.mpr hahead)]
  rfl

lemma fgetc_of_settled (hunget : s.unget = 0) (hsettled : s.available = s.position) :
    s.fgetc share = if (s.refill share).1 = EOF then (EOF, (s.refill share).2)
      else ((((s.refill share).2.buffer.getD []).getD (s.refill share).2.position 0).toNat,
        { (s.refill share).2 with position := (s.refill share).2.position + 1 }) := by
  unfold fgetc
  rw [if_neg (not_not.mpr hunget), if_pos (Nat.le_of_eq hsettled)]

end Stream

namespace Mirrors

variable {share : ℕ → Option ℕ} {s : Stream} {m : ByteFile} {d : Direction}

lemma of_settled {s : Stream} {m : ByteFile} {d : Direction} (hread : s.readable = m.readable)
    (hwrite : s.writable = m.writable)
    (hcapacity : ∀ mem ∈ s.buffer, mem.length = s.capacity ∧ 0 < s.capacity)
    (hpend : 0 < s.pending → s.pending < (s.buffer.getD []).length)
    (hunbuffered : s.unbuffered → s.pending = 0)
    (hbytes : m.bytes = overwrite 0 s.file.bytes s.waiting s.file.offset)
    (hcursor : m.cursor = s.file.offset + s.pending) (hahead : s.available = s.position)
    (hunget : s.unget = 0) (hpush : m.pushed = none) (hd : d ≠ .output → s.pending = 0) :
    Mirrors s m d where
  readable := hread
  writable := hwrite
  capacity := hcapacity
  pending_lt := hpend
  unbuffered := hunbuffered
  position_le := by omega
  bytes := hbytes
  cursor := by omega
  ahead k hk := by omega
  available_le hlt := by omega
  ahead_readable _ := hahead
  pushed := by rw [hpush, if_pos hunget]
  notInput _ := ⟨hahead, hunget⟩
  notOutput := hd

section

variable (h : Mirrors s m d)
include h

lemma pending_le : s.pending ≤ (s.buffer.getD []).length := by
  rcases Nat.eq_zero_or_pos s.pending with hzero | hpos
  · omega
  · exact Nat.le_of_lt (h.pending_lt hpos)

lemma bytes_eq (hpend : s.pending = 0) : m.bytes = s.file.bytes := by
  rw [h.bytes, Stream.waiting, hpend]
  rfl

lemma fflush (hshare : Transfers share) : ∃ calls,
    s.fflush share =
      (0, { s with file := ⟨m.bytes, s.file.offset + s.pending, calls⟩, pending := 0 }) ∧
    Mirrors { s with file := ⟨m.bytes, s.file.offset + s.pending, calls⟩, pending := 0 } m
      (if d = .output then .neutral else d) := by
  obtain ⟨calls, hflush⟩ := Stream.fflush_eq hshare h.pending_le
  refine ⟨calls, by rw [hflush, ← h.bytes], ?_⟩
  exact
    { h with
      pending_lt := nofun
      unbuffered := fun _ => rfl
      bytes := rfl
      notInput := fun hd => h.notInput (by
        rintro rfl
        exact hd rfl)
      notOutput := fun _ => rfl }

lemma fseek (hshare : Transfers share) (hshort : m.Short) {off : ℤ} {whence : Whence}
    (hprop : 0 ≤ m.target off whence ∧ m.target off whence ≤ LONG_MAX ∨
      s.available = s.position ∧ s.unget = 0 ∧ -LONG_MAX - 1 ≤ off ∧ off ≤ LONG_MAX) :
    (s.fseek share off whence).1 = (m.call (.fseek off whence)).1 ∧
      Mirrors (s.fseek share off whence).2 (m.call (.fseek off whence)).2 .neutral := by
  obtain ⟨calls, hflush, -⟩ := h.fflush hshare
  have hcursor := h.cursor
  have hle := h.position_le
  have hpush : (if m.pushed.isSome then (1 : ℤ) else 0) = if s.unget ≠ 0 then 1 else 0 := by
    rw [h.pushed]
    by_cases hunget : s.unget = 0 <;> simp [hunget]
  -- What `lseek` gets is what the caller means, up to wrapping.
  have hsum : OpenFile.lseek ⟨m.bytes, s.file.offset + s.pending, calls⟩
      (if whence = .SEEK_CUR then
        off - (s.available - s.position) - (if s.unget ≠ 0 then 1 else 0) else off) whence =
      if wrapLong (m.target off whence) < 0 then none
      else some ⟨m.bytes, (wrapLong (m.target off whence)).toNat, calls⟩ := by
    unfold OpenFile.lseek ByteFile.target ByteFile.tell
    cases whence with
    | SEEK_SET => simp
    | SEEK_CUR =>
      have hsum : ((s.file.offset + s.pending : ℕ) : ℤ) +
          (off - (s.available - s.position) - (if s.unget ≠ 0 then 1 else 0)) =
          m.cursor - (if m.pushed.isSome then 1 else 0) + off := by
        rw [hpush]
        omega
      simp only [if_true, hsum]
    | SEEK_END => simp
  unfold Stream.fseek ByteFile.call
  rw [hflush]
  dsimp only
  rw [if_neg (by decide), hsum]
  by_cases hfails : m.target off whence < 0 ∨ LONG_MAX < m.target off whence
  · simp only [if_pos hfails]
    obtain ⟨hahead, hunget, hoff⟩ := hprop.resolve_left (by omega)
    have hpushed : m.pushed = none := by rw [h.pushed, if_pos hunget]
    have hneg : wrapLong (m.target off whence) < 0 := by
      have hbounds : -LONG_MAX - 1 ≤ m.target off whence ∧
          m.target off whence ≤ 2 * LONG_MAX := by
        have := hshort.cursor
        have := hshort.length
        unfold ByteFile.target ByteFile.tell
        cases whence <;> simp [hpushed] <;> omega
      exact wrapLong_neg hfails hbounds
    rw [if_pos hneg]
    refine ⟨rfl, of_settled h.readable h.writable h.capacity nofun (fun _ => rfl) rfl ?_ rfl rfl
      hpushed fun _ => rfl⟩
    show m.cursor = s.file.offset + s.pending + 0
    omega
  · have hsame : wrapLong (m.target off whence) = m.target off whence :=
      wrapLong_of_le (by omega) (by omega)
    rw [hsame, if_neg hfails, if_neg (fun hneg => hfails (.inl hneg))]
    exact ⟨rfl, of_settled h.readable h.writable h.capacity nofun (fun _ => rfl) rfl rfl rfl rfl
      rfl fun _ => rfl⟩

lemma ftell (hshort : m.Short) : (s.ftell).1 = m.tell ∧ (s.ftell).2 = s := by
  have hcursor := h.cursor
  have hle := h.position_le
  have hoffset : (s.file.offset : ℤ) ≤ LONG_MAX := by
    have := hshort.cursor
    have := hshort.length
    rcases Nat.eq_or_lt_of_le hle with hsettled | hahead
    · omega
    · -- the last byte that has been read ahead is in the file
      have hlast := h.ahead (s.available - s.position - 1) (by omega)
      have hlong := h.available_le hahead
      rw [List.getElem?_eq_getElem (by omega), eq_comm, List.getElem?_eq_some_iff] at hlast
      have := hlast.1
      omega
  have hlseek : s.file.lseek 0 .SEEK_CUR = some s.file := by
    unfold OpenFile.lseek
    simp [wrapLong_of_le (Int.natCast_nonneg s.file.offset) hoffset]
  unfold Stream.ftell ByteFile.tell
  rw [hlseek]
  refine ⟨?_, rfl⟩
  rw [h.pushed]
  by_cases hunget : s.unget = 0 <;> simp [hunget] <;> omega

lemma ungetc (hd : d ≠ .output) {c : UInt8} (hc : c ≠ 0) :
    (s.ungetc c.toNat).1 = c.toNat ∧
      Mirrors (s.ungetc c.toNat).2 { m with pushed := some c } .input := by
  have hbyte : ((c.toNat : ℤ) % 256).toNat.toUInt8 = c := by
    have := c.toNat_lt
    rw [show ((c.toNat : ℤ) % 256).toNat = c.toNat by omega]
    simp
  unfold Stream.ungetc
  rw [if_neg (by unfold EOF; omega), hbyte]
  exact ⟨rfl,
    { h with
      pushed := (if_neg hc).symm
      notInput := fun hd => absurd rfl hd
      notOutput := fun _ => h.notOutput hd }⟩

lemma fgetc_ahead (hahead : s.position < s.available) :
    ∃ c, (s.buffer.getD []).getD s.position 0 = c ∧ m.bytes[m.cursor]? = some c ∧
      m.readable = true ∧
      Mirrors { s with position := s.position + 1 } { m with cursor := m.cursor + 1 } .input := by
  have hd : d = .input := by
    by_contra hd
    have := (h.notInput hd).1
    omega
  have hpend : s.pending = 0 := h.notOutput (by rw [hd]; decide)
  have hlong := h.available_le hahead
  have hbyte := h.ahead 0 hahead
  simp only [Nat.add_zero] at hbyte
  obtain ⟨c, hc⟩ : ∃ c, (s.buffer.getD [])[s.position]? = some c :=
    ⟨_, List.getElem?_eq_getElem (by omega)⟩
  refine ⟨c, by rw [List.getD_eq_getElem?_getD, hc]; rfl, by rw [← hbyte, hc], ?_, ?_⟩
  · rw [← h.readable]
    by_contra hread
    have := h.ahead_readable (Bool.not_eq_true _ ▸ hread)
    omega
  · exact
      { h with
        position_le := hahead
        cursor := by
          have := h.cursor
          show m.cursor + 1 + (s.available - (s.position + 1)) = s.file.offset + s.pending
          omega
        ahead := fun k hk => by
          rw [Nat.add_assoc, Nat.add_assoc]
          exact h.ahead (1 + k) (by rw [← Nat.add_assoc]; exact hk)
        available_le := fun _ => hlong
        ahead_readable := fun hread => by
          have := h.ahead_readable hread
          omega
        notInput := fun hd => absurd rfl hd
        notOutput := fun _ => hpend }

lemma refill (hshare : Transfers share) (hread : m.readable = true)
    (hd : d ≠ .output) (hbuffer : s.buffer.isSome) (hahead : s.available = s.position)
    (hunget : s.unget = 0) :
    (m.bytes[m.cursor]? = none ∧ (s.refill share).1 = EOF ∧ Mirrors (s.refill share).2 m .neutral) ∨
      ((s.refill share).1 = 0 ∧ (s.refill share).2.position < (s.refill share).2.available ∧
        Mirrors (s.refill share).2 m .input) := by
  obtain ⟨mem, hmemory⟩ := Option.isSome_iff_exists.mp hbuffer
  obtain ⟨hlen, hpos⟩ := h.capacity mem hmemory
  obtain ⟨most, hmost, hmostPos⟩ := hshare s.file.calls
  have hpend := h.notOutput hd
  have hbytes := h.bytes_eq hpend
  have hcursor : m.cursor = s.file.offset := by
    have := h.cursor
    omega
  have hpush : m.pushed = none := by rw [h.pushed, if_pos hunget]
  unfold Stream.refill
  rw [h.readable, hread, hmemory]
  rw [OpenFile.read, hmost]
  dsimp only
  rw [← hbytes, ← hcursor]
  generalize hgot : (m.bytes.drop m.cursor).take (min most s.capacity) = got
  rcases eq_or_ne got [] with rfl | hsome
  · refine .inl ⟨?_, rfl, of_settled hread.symm h.writable
      (fun _ hm => h.capacity _ (hmemory ▸ hm)) ?_ ?_ ?_ ?_ hahead hunget hpush fun _ => hpend⟩
    · have hend : m.bytes.length ≤ m.cursor := by
        rcases List.take_eq_nil_iff.mp hgot with hzero | hnil
        · omega
        · exact List.drop_eq_nil_iff.mp hnil
      exact List.getElem?_eq_none hend
    · exact fun hlt => absurd hpend (Nat.pos_iff_ne_zero.mp hlt)
    · exact fun _ => hpend
    · show m.bytes = overwrite 0 m.bytes (List.take s.pending mem) m.cursor
      rw [hpend]
      rfl
    · exact (Nat.add_zero _).symm.trans (by rw [hpend]; rfl)
  · have hcnt := List.length_pos_iff.mpr hsome
    have hle : got.length ≤ s.capacity := by
      rw [← hgot, List.length_take]
      omega
    rw [if_neg (by simpa using hsome)]
    refine .inr ⟨rfl, hcnt, ?_⟩
    exact
      { readable := hread.symm
        writable := h.writable
        capacity := fun memory' hm => by
          cases hm
          simp only [List.length_append, List.length_drop]
          omega
        pending_lt := fun hlt => absurd hpend (Nat.pos_iff_ne_zero.mp hlt)
        unbuffered := fun _ => hpend
        position_le := Nat.zero_le _
        bytes := by
          rw [hpend]
          rfl
        cursor := by
          show m.cursor + (got.length - 0) = m.cursor + got.length + s.pending
          omega
        ahead := fun k hk => by
          have hk : k < got.length := by simpa using hk
          show (got ++ mem.drop got.length)[0 + k]? = _
          rw [Nat.zero_add, List.getElem?_append_left hk, ← hgot, List.getElem?_take_of_lt,
            List.getElem?_drop]
          rw [← hgot, List.length_take] at hk
          omega
        available_le := fun _ => by
          show got.length ≤ (got ++ mem.drop got.length).length
          rw [List.length_append]
          omega
        ahead_readable := nofun
        pushed := h.pushed
        notInput := fun hd => absurd rfl hd
        notOutput := fun _ => hpend }

lemma fgetc (hshare : Transfers share) (hd : m.readable → d ≠ .output)
    (hbuffer : m.readable → s.buffer.isSome ∨ s.unget ≠ 0) :
    (s.fgetc share).1 = (m.call .fgetc).1 ∧
      Mirrors (s.fgetc share).2 (m.call .fgetc).2 (d.next m (m.call .fgetc).1 .fgetc) := by
  have hbyte : ∀ c : UInt8, d.next m c.toNat .fgetc = .input := fun c => by
    rw [Direction.next, if_pos]
    unfold EOF
    omega
  by_cases hunget : s.unget ≠ 0
  · have hinput : d = .input := by
      by_contra hd
      exact hunget (h.notInput hd).2
    have hpush : m.pushed = some s.unget := by rw [h.pushed, if_neg hunget]
    rw [ByteFile.fgetc_pushed hpush, Stream.fgetc, if_pos hunget, hbyte]
    exact ⟨rfl,
      { h with
        pushed := rfl
        notInput := fun hd => absurd rfl hd
        notOutput := fun _ => h.notOutput (by rw [hinput]; decide) }⟩
  rw [not_not] at hunget
  have hpush : m.pushed = none := by rw [h.pushed, if_pos hunget]
  by_cases hahead : s.position < s.available
  · obtain ⟨c, hc, hmodel, hread, hmirrors⟩ := h.fgetc_ahead hahead
    rw [ByteFile.fgetc_byte hpush hread hmodel, Stream.fgetc_of_ahead hunget hahead, hc, hbyte]
    exact ⟨rfl, hmirrors⟩
  have hsettled : s.available = s.position := by
    have := h.position_le
    omega
  rw [Stream.fgetc_of_settled hunget hsettled]
  cases hread : m.readable with
  | false =>
    have hrefill : s.refill share = (EOF, s) := by
      unfold Stream.refill
      rw [h.readable, hread]
    rw [ByteFile.fgetc_end hpush (.inl hread), hrefill, if_pos rfl, Direction.next,
      if_neg (by simp), if_neg (by simp [hread])]
    exact ⟨rfl, h⟩
  | true =>
    have hbuffer := (hbuffer hread).resolve_right (not_not.mpr hunget)
    rcases h.refill hshare hread (hd hread) hbuffer hsettled hunget with
      ⟨hend, heof, hmirrors⟩ | ⟨hzero, hlt, hmirrors⟩
    · rw [ByteFile.fgetc_end hpush (.inr hend), if_pos heof, Direction.next, if_neg (by simp),
        if_pos hread]
      exact ⟨rfl, hmirrors⟩
    · obtain ⟨c, hc, hmodel, -, hmirrors⟩ := hmirrors.fgetc_ahead hlt
      rw [ByteFile.fgetc_byte hpush hread hmodel, if_neg (by rw [hzero]; decide), hc, hbyte]
      exact ⟨rfl, hmirrors⟩

lemma store {mem : List UInt8} (hmemory : s.buffer = some mem) (c : UInt8)
    (hahead : s.available = s.position) :
    (s.store c).pending ≤ ((s.store c).buffer.getD []).length ∧ overwrite 0 m.bytes [c] m.cursor =
      overwrite 0 s.file.bytes (s.store c).waiting s.file.offset := by
  obtain ⟨hlen, hpos⟩ := h.capacity mem hmemory
  have hlt : s.pending < mem.length := by
    rcases Nat.eq_zero_or_pos s.pending with hzero | hpend
    · omega
    · have := h.pending_lt hpend
      rwa [hmemory] at this
  have hwait : s.waiting = mem.take s.pending := by rw [Stream.waiting, hmemory]; rfl
  have hcursor : m.cursor = s.file.offset + s.waiting.length := by
    have := h.cursor
    rw [hwait, List.length_take]
    omega
  have hstored : (s.store c).waiting = (mem.set s.pending c).take (s.pending + 1) := by
    rw [Stream.waiting, Stream.store, hmemory]
    rfl
  refine ⟨?_, ?_⟩
  · rw [Stream.store, hmemory]
    show s.pending + 1 ≤ (mem.set s.pending c).length
    rw [List.length_set]
    exact hlt
  · rw [hcursor, h.bytes, overwrite_append, hwait, hstored, List.take_add_one,
      List.take_set_of_le (le_refl _), List.getElem?_set_self hlt]
    rfl

lemma fputc (hshare : Transfers share) (c : UInt8) (hd : m.writable → d ≠ .input) :
    (s.fputc share c).1 = (m.call (.fputc c)).1 ∧
      Mirrors (s.fputc share c).2 (m.call (.fputc c)).2 (if m.writable then .output else d) := by
  by_cases hwrite : m.writable = false
  · rw [ByteFile.fputc_refused hwrite, Stream.fputc, if_pos (h.writable.trans hwrite),
      if_neg (by simp [hwrite])]
    exact ⟨rfl, { h with }⟩
  · rw [Bool.not_eq_false] at hwrite
    obtain ⟨hahead, hunget⟩ := h.notInput (hd hwrite)
    have hpush : m.pushed = none := by rw [h.pushed, if_pos hunget]
    have hcursor := h.cursor
    obtain ⟨most, hmost, hpos⟩ := hshare s.file.calls
    rw [ByteFile.fputc_writable hwrite, Stream.fputc, if_neg (by simp [h.writable, hwrite]),
      if_pos hwrite]
    by_cases hdirect : s.unbuffered ∨ s.buffer = none
    · have hpend : s.pending = 0 := by
        rcases hdirect with hunbuffered | hnone
        · exact h.unbuffered hunbuffered
        · have := h.pending_le
          rw [hnone] at this
          exact Nat.le_zero.mp this
      have hput : [c].take most = [c] := List.take_of_length_le hpos
      have hoffset : m.cursor = s.file.offset := by omega
      rw [if_pos hdirect, OpenFile.write, hmost]
      dsimp only
      rw [hput]
      refine ⟨rfl, of_settled h.readable h.writable h.capacity h.pending_lt
        h.unbuffered ?_ ?_ hahead hunget hpush fun hd => absurd rfl hd⟩
      · show overwrite 0 m.bytes [c] m.cursor =
          overwrite 0 (overwrite 0 s.file.bytes [c] s.file.offset)
          ((s.buffer.getD []).take s.pending) _
        rw [h.bytes_eq hpend, hoffset, hpend]
        rfl
      · show m.cursor + 1 = s.file.offset + 1 + s.pending
        omega
    · obtain ⟨hbuffered, hsome⟩ := not_or.mp hdirect
      obtain ⟨mem, hmemory⟩ := Option.ne_none_iff_exists'.mp hsome
      obtain ⟨hlen, hcapacity⟩ := h.capacity mem hmemory
      obtain ⟨hle, hbytes⟩ := h.store hmemory c hahead
      have hcapacity' : ∀ memory' ∈ (s.store c).buffer, memory'.length = s.capacity ∧
        0 < s.capacity := by
        rw [Stream.store, hmemory]
        rintro _ ⟨⟩
        exact ⟨by rw [List.length_set, hlen], hcapacity⟩
      rw [if_neg hdirect]
      by_cases hfull : s.pending + 1 = s.capacity ∨ (s.lineBuffered ∧ c = 10)
      · obtain ⟨calls, hflush⟩ := Stream.fflush_eq hshare hle
        rw [Stream.store] at hflush
        rw [if_pos hfull, hflush, if_neg (show ¬ (0 : ℤ) = EOF by decide)]
        refine ⟨rfl, of_settled h.readable h.writable hcapacity' nofun (fun _ => rfl)
          hbytes ?_ hahead hunget hpush fun _ => rfl⟩
        show m.cursor + 1 = s.file.offset + (s.pending + 1) + 0
        omega
      · dsimp only
        rw [if_neg hfull]
        refine ⟨rfl, of_settled h.readable h.writable hcapacity' ?_ (fun hu => absurd hu hbuffered)
          hbytes ?_ hahead hunget hpush fun hd => absurd rfl hd⟩
        · intro _
          obtain ⟨hnotFull, -⟩ := not_or.mp hfull
          have hstored : ((s.store c).buffer.getD []).length = s.capacity := by
            rw [Stream.store, hmemory]
            simpa using hlen
          show s.pending + 1 < ((s.store c).buffer.getD []).length
          change s.pending + 1 ≤ _ at hle
          omega
        · show m.cursor + 1 = s.file.offset + (s.pending + 1)
          omega

end

lemma fopen (mode : OpenMode) (contents : List UInt8)
    (mem : Option { bytes : List UInt8 // bytes.length = BUFSIZ }) :
    Mirrors (Stream.fopen mode contents mem) (.start mode contents) .neutral := by
  refine of_settled rfl rfl (fun bytes hbytes => ?_) nofun (fun _ => rfl) ?_ rfl rfl rfl
    rfl fun _ => rfl
  · obtain ⟨⟨mem, hlen⟩, rfl, rfl⟩ := Option.map_eq_some_iff.mp hbytes
    exact ⟨hlen, show 0 < BUFSIZ by decide⟩
  · simp [Stream.fopen, Stream.waiting, ByteFile.start]

lemma setvbuf (h : Mirrors s m .neutral) (mem : Option (List UInt8)) (mode : Buffering) :
    Mirrors (s.setvbuf share mem mode) m .neutral := by
  have hpend := h.notOutput (by decide)
  obtain ⟨hahead, hunget⟩ := h.notInput (by decide)
  have hbytes := h.bytes_eq hpend
  have hcursor := h.cursor
  have hpush : m.pushed = none := by rw [h.pushed, if_pos hunget]
  have hflush : s.fflush share = (0, s) := if_pos hpend
  have hkept : ∀ lineBuffered unbuffered, Mirrors
      { s with lineBuffered := lineBuffered, unbuffered := unbuffered } m .neutral :=
    fun _ _ => { h with unbuffered := fun _ => hpend }
  have hgiven : ∀ (mem : List UInt8) lineBuffered, mem ≠ [] → Mirrors
      { s with
        lineBuffered := lineBuffered
        unbuffered := false
        buffer := some mem
        capacity := mem.length
        pending := 0
        available := 0
        position := 0 } m .neutral := by
    intro mem lineBuffered hmemory
    refine of_settled h.readable h.writable (fun memory' hmemory' => ?_)
      nofun (fun _ => rfl) hbytes ?_ rfl
      hunget hpush fun _ => rfl
    · cases hmemory'
      exact ⟨rfl, List.length_pos_iff.mpr hmemory⟩
    · show m.cursor = s.file.offset + 0
      omega
  unfold Stream.setvbuf
  rw [hflush]
  rcases mem with _ | _ | ⟨c, mem⟩ <;> cases mode
  case none.IOFBF | some.nil.IOFBF => exact hkept false false
  case none.IOLBF | some.nil.IOLBF => exact hkept true false
  case none.IONBF | some.nil.IONBF | some.cons.IONBF => exact hkept false true
  case some.cons.IOFBF => exact hgiven (c :: mem) false (List.cons_ne_nil c mem)
  case some.cons.IOLBF => exact hgiven (c :: mem) true (List.cons_ne_nil c mem)

end Mirrors

namespace StdioSession

variable {share : ℕ → Option ℕ} {s s' : StdioSession}

/-- Everything returned so far is right, and the stream stands for the file. -/
structure Faithful (s : StdioSession) : Prop where
  mirrors : Mirrors s.stream s.model s.direction
  short : s.model.Short
  returned : s.returned = s.expected

lemma faithful_start (mode : OpenMode) {contents : List UInt8}
    (hlength : contents.length ≤ LONG_MAX)
    (mem : Option { bytes : List UInt8 // bytes.length = BUFSIZ })
    (settings : List (Option (List UInt8) × Buffering)) :
    Faithful (start share mode contents mem settings) where
  mirrors := by
    have hfold : ∀ (settings : List (Option (List UInt8) × Buffering)) (s : Stream),
        Mirrors s (.start mode contents) .neutral →
        Mirrors (settings.foldl (fun s setting => s.setvbuf share setting.1 setting.2) s)
          (.start mode contents) .neutral := by
      intro settings
      induction settings with
      | nil => exact fun s h => h
      | cons setting settings ih => exact fun s h => ih _ (h.setvbuf _ _)
    exact hfold settings _ (.fopen mode contents mem)
  short := by
    refine ⟨show (0 : ℤ) ≤ LONG_MAX by decide, ?_⟩
    unfold start ByteFile.start
    dsimp only
    split_ifs
    · exact hlength
    · decide
  returned := rfl

lemma short_call (h : s.model.Short) {c : StdioCall} (hprop : s.Proper c) :
    (s.model.call c).2.Short := by
  have hcursor := h.cursor
  have hlength := h.length
  cases c with
  | fputc c =>
    by_cases hwrite : s.model.writable = true
    · have hroom := hprop hwrite
      rw [ByteFile.fputc_writable hwrite]
      refine ⟨by push_cast; omega, ?_⟩
      simp only [overwrite, List.isEmpty_cons, List.length_append, List.length_take,
        List.length_rightpad, List.length_drop, List.length_singleton, Bool.false_eq_true, if_false]
      omega
    · rwa [ByteFile.fputc_refused (by simpa using hwrite)]
  | fgetc =>
    rcases hpushed : s.model.pushed with _ | c
    · by_cases hread : s.model.readable = true ∧ s.model.cursor < s.model.bytes.length
      · rw [ByteFile.fgetc_byte hpushed hread.1 (List.getElem?_eq_getElem hread.2)]
        exact ⟨by push_cast; omega, hlength⟩
      · rwa [ByteFile.fgetc_end hpushed (by grind)]
    · rw [ByteFile.fgetc_pushed hpushed]
      exact ⟨hcursor, hlength⟩
  | fseek off whence =>
    simp only [ByteFile.call]
    split_ifs
    · exact h
    · exact ⟨by dsimp only; omega, hlength⟩
  | ungetc c => exact ⟨hcursor, hlength⟩
  | ftell => exact h
  | fflush => exact h

lemma Faithful.step (hshare : Transfers share) (h : Faithful s) {c : StdioCall} (hprop : s.Proper c)
    (hstep : StdioSession.step share s c = some s') : Faithful s' := by
  unfold StdioSession.step at hstep
  split_ifs at hstep with hallowed
  cases hstep
  have hcall : (s.stream.call share c).1 = (s.model.call c).1 ∧
      Mirrors (s.stream.call share c).2 (s.model.call c).2
        (s.direction.next s.model (s.model.call c).1 c) := by
    cases c with
    | fputc c => exact h.mirrors.fputc hshare c hallowed
    | fgetc => exact h.mirrors.fgetc hshare hallowed hprop
    | ungetc c => exact h.mirrors.ungetc hallowed.2.1 hprop
    | fseek off whence => exact h.mirrors.fseek hshare h.short hprop
    | ftell =>
      obtain ⟨hvalue, hsame⟩ := h.mirrors.ftell h.short
      refine ⟨hvalue, ?_⟩
      show Mirrors s.stream.ftell.2 s.model s.direction
      rw [hsame]
      exact h.mirrors
    | fflush =>
      obtain ⟨calls, hflush, hmirrors⟩ := h.mirrors.fflush hshare
      show (s.stream.fflush share).1 = 0 ∧ Mirrors (s.stream.fflush share).2 s.model _
      rw [hflush]
      exact ⟨rfl, hmirrors⟩
  refine ⟨hcall.2, short_call h.short hprop, ?_⟩
  rw [h.returned, hcall.1]

/-- **Streams refine files.**  However the kernel splits reads and writes, whatever the mode, the
buffer and the buffering, and in every sequence of calls that obeys the rule of the C standard: if
positions stay below `LONG_MAX`, there is a buffer to read into, byte 0 is never pushed back, and no
seek fails behind read-ahead, then every call returns what it returns on a byte array with a cursor,
and after a final `fflush` the file has the contents of that array. -/
theorem stdio_refines (hshare : Transfers share) (mode : OpenMode) (contents : List UInt8)
    (hlength : contents.length ≤ LONG_MAX)
    (memory : Option { bytes : List UInt8 // bytes.length = BUFSIZ })
    (settings : List (Option (List UInt8) × Buffering)) (calls : List StdioCall)
    (hrun : run (StdioSession.step share) (start share mode contents memory settings)
      calls = some s) (hproper : Along (StdioSession.step share) Proper
      (start share mode contents memory settings) calls) :
    s.returned = s.expected ∧ (s.stream.fflush share).1 = 0 ∧
      (s.stream.fflush share).2.file.bytes = s.model.bytes := by
  have h : Faithful s := run_invariant (I := Faithful)
    (fun _ _ _ h hproper hstep => h.step hshare hproper hstep) calls _ s
    (faithful_start mode hlength memory settings) hproper hrun
  obtain ⟨_, hflush, -⟩ := h.mirrors.fflush hshare
  rw [hflush]
  exact ⟨h.returned, rfl, rfl⟩

/-- A buffer of two bytes, and system calls that transfer one byte each. -/
def tinyBuffer : List (Option (List UInt8) × Buffering) := [(some [0, 0], .IOFBF)]

/-- Reading, pushing back, seeking and writing on a file of three bytes. -/
theorem stdio_refines_update : ∃ s,
    run (StdioSession.step fun _ => some 1)
      (start (fun _ => some 1) .rPlus [1, 2, 3] none tinyBuffer)
      [.fgetc, .ungetc 7, .ftell, .fgetc, .fseek 0 .SEEK_CUR, .fputc 8, .fputc 9, .fputc 10,
        .fseek (-1) .SEEK_END, .fgetc, .fgetc] = some s ∧
      s.returned = [1, 7, 0, 7, 0, 8, 9, 10, 0, 10, -1] ∧
      (s.stream.fflush fun _ => some 1).2.file.bytes = [1, 8, 9, 10] ∧
      s.returned = s.expected ∧ (s.stream.fflush fun _ => some 1).2.file.bytes = s.model.bytes := by
  refine exists_run_of_map (fun s => (s.returned, (s.stream.fflush fun _ => some 1).2.file.bytes))
    ([1, 7, 0, 7, 0, 8, 9, 10, 0, 10, -1], [1, 8, 9, 10]) (by decide +kernel) fun s hs hvalues => ?_
  obtain ⟨hreturned, hbytes⟩ := Prod.mk.inj hvalues
  obtain ⟨hsame, -, hcontents⟩ := stdio_refines (fun _ => ⟨1, rfl, by decide⟩) _ _ (by decide)
    _ _ _ hs (by decide +kernel)
  exact ⟨hreturned, hbytes, hsame, hcontents⟩

/-- Byte 0 is pushed back, and `fgetc` returns the byte behind it. -/
theorem pushed_zero_lost : ∃ s,
    run (StdioSession.step fun _ => some 1) (start (fun _ => some 1) .r [0, 5] none tinyBuffer)
      [.fgetc, .ungetc 0, .fgetc] = some s ∧
      s.returned = [0, 0, 5] ∧ s.expected = [0, 0, 0] :=
  exists_run_of_map (fun s => (s.returned, s.expected)) ([0, 0, 5], [0, 0, 0]) (by decide +kernel)
    fun _ _ hvalues => Prod.mk.inj hvalues

end StdioSession

end ShitOs
