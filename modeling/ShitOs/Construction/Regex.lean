import Mathlib.Data.Int.Basic
import Mathlib.Data.List.Basic

/-!
# The regular expression matcher

A model of the matcher in `user/libc/src/regex.c`: the compiled form, and `regexec` with the
functions it calls.  A branch and an index into it are the list of the pieces from there on; a chain
of continuations is the list of its group loops, the innermost one first, and the empty list is the
null pointer.

The three functions that recurse, `run_continuation`, `match_group` and `match_branch`, all first
take one off the budget.  `Matcher.call` is one such call.  It recurses on a `fuel` of its own,
which is the initial budget and goes down whenever the budget does, so that it is not used up before
the budget is. Apart from that the functions are as in the source, with what they call as an
argument.

They return `true` to say that the search is to stop, which only the budget ever does.  Left out are
the two arrays that `regexec` allocates before it begins, and with them `REG_ESPACE`.
-/

namespace ShitOs

open Function (update)

mutual

/-- `Atom`.  A set has a bit for each of the 256 characters. -/
inductive Atom
  | literal (c : UInt8)
  | any
  | set (members : BitVec 256)
  | group (alternation : List (List Piece)) (groupIndex : ℕ)
  | backref (group : ℕ)
  | bol
  | eol
  | wordBoundary
  | notWordBoundary
  | wordStart
  | wordEnd

/-- `Piece`; a maximum of `-1` is `none`.  `parse_interval` accepts no interval that is empty, and
the other repetitions keep it that way. -/
inductive Piece
  | mk (atom : Atom) (minimum : ℕ) (maximum : Option ℕ) (bounds : ∀ n ∈ maximum, minimum ≤ n)

end

abbrev Branch := List Piece

abbrev Alternation := List Branch

namespace Piece

def atom : Piece → Atom
  | mk atom _ _ _ => atom

def minimum : Piece → ℕ
  | mk _ minimum _ _ => minimum

def maximum : Piece → Option ℕ
  | mk _ _ maximum _ => maximum

lemma bounds : ∀ p : Piece, ∀ n ∈ p.maximum, p.minimum ≤ n
  | mk _ _ _ bounds => bounds

/-- Whether `taken` repetitions may be followed by one more. -/
def allowsMore (p : Piece) (taken : ℕ) : Bool :=
  match p.maximum with
  | none => true
  | some maximum => taken < maximum

end Piece

/-- `regmatch_t`. -/
structure RegMatch where
  so : ℤ
  eo : ℤ
  deriving DecidableEq

/-- The flags of `regcomp` that the matcher looks at. -/
structure CompileFlags where
  icase : Bool
  nosub : Bool
  newline : Bool
  deriving DecidableEq

/-- `Program`. -/
structure RegexProgram where
  root : Alternation
  groupCount : ℕ
  cflags : CompileFlags

/-- The flags of `regexec`. -/
structure ExecFlags where
  notbol : Bool
  noteol : Bool
  deriving DecidableEq

/-- What a `Matcher` does not change. -/
structure Subject where
  string : List UInt8
  cflags : CompileFlags
  eflags : ExecFlags
  deriving DecidableEq

/-- What a `Matcher` changes. -/
structure Matcher where
  captures : ℕ → RegMatch
  best : ℕ → RegMatch
  found : Bool
  bestEnd : ℤ
  budget : ℤ

/-- `GroupLoop`, without the continuation after it; `branch` starts with the group. -/
structure GroupLoop where
  branch : Branch
  start : ℕ
  taken : ℕ

/-! ## Characters and positions -/

def isAlnum (c : UInt8) : Bool :=
  (97 ≤ c && c ≤ 122) || (65 ≤ c && c ≤ 90) || (48 ≤ c && c ≤ 57)

def toLower (c : UInt8) : UInt8 := if 65 ≤ c ∧ c ≤ 90 then c + 32 else c

def isWordCharacter (c : UInt8) : Bool := isAlnum c || c = 95

namespace Subject

variable (σ : Subject)

def characterMatches (atom : Atom) (c : UInt8) : Bool :=
  match atom with
  | .literal literal => if σ.cflags.icase then toLower c = toLower literal else c = literal
  | .any => true
  | .set members => members.getLsbD c.toNat
  | _ => false

def atLineStart (position : ℕ) : Bool :=
  if position = 0 then !σ.eflags.notbol
  else σ.cflags.newline && σ.string[position - 1]? = some 10

def atLineEnd (position : ℕ) : Bool :=
  if position = σ.string.length then !σ.eflags.noteol
  else σ.cflags.newline && σ.string[position]? = some 10

def wordAt (position : ℕ) : Bool := (σ.string[position]?).any isWordCharacter

def wordBefore (position : ℕ) :
    Bool := 0 < position && (σ.string[position - 1]?).any isWordCharacter

/-- Whether an assertion holds at a position; `none` for an atom that is not one. -/
def assertion (atom : Atom) (position : ℕ) : Option Bool :=
  match atom with
  | .bol => some (σ.atLineStart position)
  | .eol => some (σ.atLineEnd position)
  | .wordBoundary => some (σ.wordBefore position != σ.wordAt position)
  | .notWordBoundary => some (σ.wordBefore position == σ.wordAt position)
  | .wordStart => some (!σ.wordBefore position && σ.wordAt position)
  | .wordEnd => some (σ.wordBefore position && !σ.wordAt position)
  | _ => none

/-- How many of the given characters, one behind the other, match the atom; at most as many as the
piece allows. -/
def greedyRun (piece : Piece) : List UInt8 → ℕ → ℕ
  | [], taken => taken
  | c :: rest, taken =>
    if piece.allowsMore taken && σ.characterMatches piece.atom c then greedyRun piece
      rest (taken + 1)
    else taken

/-- Whether two stretches of the string are the same text. -/
def sameText (a b : List UInt8) : Bool :=
  if σ.cflags.icase then a.map toLower = b.map toLower else a = b

/-- How often the captured text is found at `position`, one behind the other, with `fuel` more to
try. -/
def backrefRun (piece : Piece) (text : List UInt8) (position : ℕ) : ℕ → ℕ → ℕ
  | 0, taken => taken
  | fuel + 1, taken =>
    let here := (σ.string.drop (position + taken * text.length)).take text.length
    if piece.allowsMore taken && here.length = text.length && σ.sameText here text then
      backrefRun piece text position fuel (taken + 1)
    else taken

end Subject

/-! ## The search -/

/-- A call of one of the functions that take from the budget. -/
inductive MatchCall
  | runContinuation (continuation : List GroupLoop) (position : ℕ)
  | matchBranch (branch : Branch) (position : ℕ) (next : List GroupLoop)
  | matchGroup (branch : Branch) (position : ℕ) (next : List GroupLoop) (taken : ℕ)

namespace Matcher

/-- Performs the calls in order, until one of them says to stop. -/
def untilStop {α : Type} (perform : α → Matcher → Bool × Matcher) :
    List α → Matcher → Bool × Matcher
  | [], m => (false, m)
  | x :: xs, m =>
    match perform x m with
    | (true, m) => (true, m)
    | (false, m) => untilStop perform xs m

variable (σ : Subject) (perform : MatchCall → Matcher → Bool × Matcher)

def matchAlternation (alternation : Alternation) (position : ℕ) (next : List GroupLoop) :
    Matcher → Bool × Matcher :=
  untilStop (fun branch => perform (.matchBranch branch position next)) alternation

/-- The capture number of the group a branch starts with. -/
def groupIndexOf : Branch → ℕ
  | .mk (.group _ groupIndex) _ _ _ :: _ => groupIndex
  | _ => 0

/-- Puts a capture back, unless the search is to stop. -/
def restore (group : ℕ) (saved : RegMatch) (result : Bool × Matcher) : Bool × Matcher :=
  if result.1 then result
  else (false, { result.2 with captures := update result.2.captures group saved })

def groupLoopRun (loop : GroupLoop) (after : List GroupLoop) (position : ℕ) (m : Matcher) :
    Bool × Matcher :=
  let group := groupIndexOf loop.branch
  let saved := m.captures group
  let empty := position = loop.start
  let m :=
    if ¬ empty ∨ loop.taken = 0 then
      { m with captures := update m.captures group ⟨loop.start, position⟩ }
    else m
  restore group saved
    (if empty then perform (.matchBranch loop.branch.tail position after) m
    else perform (.matchGroup loop.branch position after (loop.taken + 1)) m)

/-- `run_continuation`, behind the budget. -/
def runContinuation (continuation : List GroupLoop) (position : ℕ) (m : Matcher) : Bool × Matcher :=
  match continuation with
  | [] =>
    if m.found = false ∨ m.bestEnd < position then
      (false, { m with
        found := true
        bestEnd := position
        best := update m.captures 0 { m.captures 0 with eo := position } })
    else (false, m)
  | loop :: after => groupLoopRun perform loop after position m

/-- `match_group`, behind the budget. -/
def matchGroup (branch : Branch) (position : ℕ) (next : List GroupLoop) (taken : ℕ) (m : Matcher) :
    Bool × Matcher :=
  match branch with
  | .mk (.group alternation groupIndex) minimum maximum bounds :: rest =>
    let piece : Piece := .mk (.group alternation groupIndex) minimum maximum bounds
    let again :=
      if piece.allowsMore taken then
        restore groupIndex (m.captures groupIndex)
          (matchAlternation perform alternation position (⟨branch, position, taken⟩ :: next) m)
      else (false, m)
    if again.1 then again
    else if minimum ≤ taken then perform (.matchBranch rest position next) again.2
    else (false, again.2)
  | _ => (false, m)

/-- The counts from `taken` down to `minimum`. -/
def countsDown (minimum taken : ℕ) : List ℕ := (List.range' minimum (taken + 1 - minimum)).reverse

/-- `match_branch`, behind the budget. -/
def matchBranch (branch : Branch) (position : ℕ) (next : List GroupLoop) (m : Matcher) :
    Bool × Matcher :=
  match branch with
  | [] => perform (.runContinuation next position) m
  | piece :: rest =>
    match σ.assertion piece.atom position with
    | some holds => if holds then perform (.matchBranch rest position next) m else (false, m)
    | none =>
      match piece.atom with
      | .backref group =>
        let captured := m.captures group
        if captured.so < 0 ∨ captured.eo < 0 then
          if piece.minimum = 0 then perform (.matchBranch rest position next) m else (false, m)
        else
          let width := (captured.eo - captured.so).toNat
          if width = 0 then perform (.matchBranch rest position next) m
          else
            let text := (σ.string.drop captured.so.toNat).take width
            let taken := σ.backrefRun piece text position (σ.string.length + 1) 0
            untilStop (fun count => perform (.matchBranch rest (position + count * width) next))
              (countsDown piece.minimum taken) m
      | .group _ _ => perform (.matchGroup branch position next 0) m
      | _ =>
        let taken := σ.greedyRun piece (σ.string.drop position) 0
        untilStop (fun count => perform (.matchBranch rest (position + count) next))
          (countsDown piece.minimum taken) m

/-- One call, and all it leads to. -/
def call : ℕ → MatchCall → Matcher → Bool × Matcher
  | 0, _, m => (true, { m with budget := -1 })
  | fuel + 1, c, m =>
    let m := { m with budget := m.budget - 1 }
    if m.budget < 0 then (true, m)
    else
      match c with
      | .runContinuation continuation position =>
        runContinuation (call fuel) continuation position m
      | .matchBranch branch position next => matchBranch σ (call fuel) branch position next m
      | .matchGroup branch position next taken =>
        matchGroup (call fuel) branch position next taken m

end Matcher

/-! ## `regexec` -/

def MATCH_BUDGET : ℕ := 2000000

namespace RegexProgram

variable (program : RegexProgram) (string : List UInt8) (eflags : ExecFlags)

/-- What `regexec` hands to the matcher. -/
def subject : Subject := ⟨string, program.cflags, eflags⟩

/-- The body of the loop of `regexec`. -/
def searchAt (start : ℕ) : Bool × Matcher :=
  Matcher.matchAlternation (Matcher.call (program.subject string eflags) MATCH_BUDGET)
  program.root start
    []
    { captures := update (fun _ => ⟨-1, -1⟩) 0 ⟨start, -1⟩
      best := fun _ => ⟨0, 0⟩
      found := false
      bestEnd := -1
      budget := MATCH_BUDGET }

/-- What `regexec` stores in the caller's array. -/
def report (start : ℕ) (best : ℕ → RegMatch) (matchCount : ℕ) : List RegMatch :=
  let best := update best 0 { best 0 with so := start }
  (List.range matchCount).map fun i =>
    if i ≤ program.groupCount ∧ (program.cflags.nosub = false ∨ i = 0) then best i else ⟨-1, -1⟩

/-- The loop of `regexec` over the start positions. -/
def searchFrom (matchCount : ℕ) : List ℕ → Option (List RegMatch)
  | [] => none
  | start :: starts =>
    let m := (program.searchAt string eflags start).2
    if m.found then some (program.report start m.best matchCount) else searchFrom matchCount starts

/-- `regexec` on a compiled pattern, with room for `matchCount` matches; `none` is `REG_NOMATCH`. -/
def regexec (matchCount : ℕ) : Option (List RegMatch) :=
  program.searchFrom string eflags matchCount (List.range (string.length + 1))

end RegexProgram

end ShitOs
