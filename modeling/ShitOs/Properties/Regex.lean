import ShitOs.Construction.Regex
import ShitOs.Framework.LeftmostLongest
import Mathlib.Order.Basic

/-!
# What the regular expression matcher finds

`regexec` is meant to find the leftmost match and, of those that begin there, the longest.
`Denotes` says what an expression without back-references matches: a piece with the bounds `m` and
`n` matches what `m` to `n` of its atom match one behind the other, and an assertion matches nothing
where it holds.

The matcher takes an expression more strictly in two places.  `match_branch` does not look at the
bounds of an assertion, so that one that may be left out has to hold all the same; and
`group_loop_run` ends the repetitions of a group with the first one that is empty, so that an empty
one can make up for those that are missing but can not be followed by another.  `Strict` is that
reading, and it implies the other (`Strict.meaning`).

The proof goes by induction on the fuel: if a call does not run out of the budget, then the best
match afterwards is the longest of the one before and those the call leads to (`Improves`,
`Matcher.correct_call`).  Where a call leads to is `Reaches`, and the continuation comes in as
`Ends`.

So `regexec` finds the leftmost-longest match of the strict reading, and gives the right answer if
and only if the leftmost-longest match of the expression is one in that reading
(`RegexProgram.regexec_right_iff`).
-/

namespace ShitOs

/-! ## What an expression means -/

/-- An atom that takes one character. -/
def Atom.isChar : Atom → Bool
  | literal _ | any | set _ => true
  | _ => false

/-- An atom that says something about its position, and takes no character. -/
def Atom.isAssertion : Atom → Bool
  | bol | eol | wordBoundary | notWordBoundary | wordStart | wordEnd => true
  | _ => false

/-- Neither the atom nor anything inside it is a back-reference. -/
inductive Atom.Plain : Atom → Prop
  | char {atom : Atom} : atom.isChar → Plain atom
  | assertion {atom : Atom} : atom.isAssertion → Plain atom
  | group {alternation : Alternation} {groupIndex : ℕ} :
      (∀ branch ∈ alternation, ∀ piece ∈ branch, Plain piece.atom) →
        Plain (.group alternation groupIndex)

/-- The parts of an expression that have a meaning. -/
inductive Part
  | alternation (branches : Alternation)
  | branch (pieces : Branch)
  | times (atom : Atom) (n : ℕ)
  | atom (atom : Atom)

/-- The part matches the stretch of the string between two positions. -/
inductive Denotes (σ : Subject) : Part → ℕ → ℕ → Prop
  | alternation {branch : Branch} {branches : Alternation} {p q : ℕ} :
      branch ∈ branches → Denotes σ (.branch branch) p q → Denotes σ (.alternation branches) p q
  | nil {p : ℕ} : Denotes σ (.branch []) p p
  | cons {piece : Piece} {rest : Branch} {n p q r : ℕ} :
      piece.minimum ≤ n → (∀ maximum ∈ piece.maximum, n ≤ maximum) →
      Denotes σ (.times piece.atom n) p q → Denotes σ (.branch rest) q r →
      Denotes σ (.branch (piece :: rest)) p r
  | zero {atom : Atom} {p : ℕ} : Denotes σ (.times atom 0) p p
  | succ {atom : Atom} {n p q r : ℕ} :
      Denotes σ (.atom atom) p q → Denotes σ (.times atom n) q r →
        Denotes σ (.times atom (n + 1)) p r
  | char {atom : Atom} {c : UInt8} {p : ℕ} :
      σ.string[p]? = some c → σ.characterMatches atom c → Denotes σ (.atom atom) p (p + 1)
  | assertion {atom : Atom} {p : ℕ} : σ.assertion atom p = some true → Denotes σ (.atom atom) p p
  | group {branches : Alternation} {groupIndex p q : ℕ} :
      Denotes σ (.alternation branches) p q → Denotes σ (.atom (.group branches groupIndex)) p q

/-- The characters from position `p` on are `n` in a row that match the atom. -/
def Subject.Run (σ : Subject) (atom : Atom) (p n : ℕ) : Prop :=
  ∀ k < n, ∃ c ∈ σ.string[p + k]?, σ.characterMatches atom c

/-- The parts of an expression, as the matcher goes through it. -/
inductive StrictPart
  | alternation (branches : Alternation)
  | branch (pieces : Branch)
  /-- The repetitions of a group, when there have been `taken` of them. -/
  | loop (piece : Piece) (branches : Alternation) (taken : ℕ)

/-- The strict reading of an expression.  An assertion has to hold even if it may be repeated no
times at all.  All repetitions of a group take something, but for the last one: that may be empty,
and makes up for all that are missing. -/
inductive Strict (σ : Subject) : StrictPart → ℕ → ℕ → Prop
  | alternation {branch : Branch} {branches : Alternation} {p q : ℕ} :
      branch ∈ branches → Strict σ (.branch branch) p q → Strict σ (.alternation branches) p q
  | nil {p : ℕ} : Strict σ (.branch []) p p
  | chars {piece : Piece} {rest : Branch} {n p q : ℕ} : piece.atom.isChar → piece.minimum ≤ n →
      (∀ maximum ∈ piece.maximum, n ≤ maximum) → σ.Run piece.atom p n →
      Strict σ (.branch rest) (p + n) q → Strict σ (.branch (piece :: rest)) p q
  | assertion {piece : Piece} {rest : Branch} {p q : ℕ} : σ.assertion piece.atom p = some true →
      Strict σ (.branch rest) p q → Strict σ (.branch (piece :: rest)) p q
  | group {piece : Piece} {rest : Branch} {branches : Alternation} {groupIndex p q r : ℕ} :
      piece.atom = .group branches groupIndex → Strict σ (.loop piece branches 0) p q →
      Strict σ (.branch rest) q r → Strict σ (.branch (piece :: rest)) p r
  | stop {piece : Piece} {branches : Alternation} {taken p : ℕ} : piece.minimum ≤ taken →
      Strict σ (.loop piece branches taken) p p
  | empty {piece : Piece} {branches : Alternation} {taken p : ℕ} : piece.allowsMore taken →
      Strict σ (.alternation branches) p p → Strict σ (.loop piece branches taken) p p
  | again {piece : Piece} {branches : Alternation} {taken p q r : ℕ} : piece.allowsMore taken →
      Strict σ (.alternation branches) p q → q ≠ p →
      Strict σ (.loop piece branches (taken + 1)) q r →
      Strict σ (.loop piece branches taken) p r

/-! ## The strict reading implies the other one -/

section Semantics

variable {σ : Subject} {p q : ℕ} {part : Part} {atom : Atom} {piece : Piece}

lemma Denotes.le (h : Denotes σ part p q) : p ≤ q := by
  induction h with
  | alternation _ _ ih => exact ih
  | nil => exact le_refl _
  | cons _ _ _ _ ih ih' => exact ih.trans ih'
  | zero => exact le_refl _
  | succ _ _ ih ih' => exact ih.trans ih'
  | char => exact Nat.le_succ _
  | assertion => exact le_refl _
  | group _ ih => exact ih

lemma Denotes.le_length (h : Denotes σ part p q) : p ≤ σ.string.length → q ≤ σ.string.length := by
  induction h with
  | alternation _ _ ih => exact ih
  | nil => exact id
  | cons _ _ _ _ ih ih' => exact ih' ∘ ih
  | zero => exact id
  | succ _ _ ih ih' => exact ih' ∘ ih
  | char hc => exact fun _ => (List.getElem?_eq_some_iff.mp hc).1
  | assertion => exact id
  | group _ ih => exact ih

lemma Denotes.times_of_empty (h : Denotes σ (.atom atom) p p) : ∀ n, Denotes σ (.times atom n) p p
  | 0 => .zero
  | n + 1 => .succ h (times_of_empty h n)

lemma Denotes.times_of_run : ∀ {n p : ℕ}, σ.Run atom p n →
    Denotes σ (.times atom n) p (p + n)
  | 0, _, _ => .zero
  | n + 1, p, h => by
    obtain ⟨c, hc, hmatches⟩ := h 0 (Nat.succ_pos n)
    have hrest : σ.Run atom (p + 1) n := fun k hk => by
      rw [Nat.add_assoc, Nat.add_comm 1 k]
      exact h (k + 1) (Nat.succ_lt_succ hk)
    rw [show p + (n + 1) = p + 1 + n by omega]
    exact .succ (.char hc hmatches) (times_of_run hrest)

lemma Piece.lt_of_allowsMore {taken : ℕ} (h : piece.allowsMore taken) :
    ∀ maximum ∈ piece.maximum, taken < maximum := by
  unfold Piece.allowsMore at h
  intro maximum hmaximum
  rw [Option.mem_def.mp hmaximum] at h
  simpa using h

lemma Piece.forall_allowsMore {n : ℕ} :
    (∀ k < n, piece.allowsMore k) ↔ ∀ maximum ∈ piece.maximum, n ≤ maximum := by
  unfold allowsMore
  cases piece.maximum with
  | none => simp
  | some maximum =>
    simp only [decide_eq_true_eq, Option.mem_some_iff, forall_eq']
    exact ⟨fun h => Nat.le_of_not_lt fun hlt => absurd (h maximum hlt) (Nat.lt_irrefl _),
      fun h k hk => Nat.lt_of_lt_of_le hk h⟩

/-- What a strict part means in the other reading. -/
def StrictPart.Meaning (σ : Subject) : StrictPart → ℕ → ℕ → Prop
  | .alternation branches, p, q => Denotes σ (.alternation branches) p q
  | .branch pieces, p, q => Denotes σ (.branch pieces) p q
  | .loop piece branches taken, p, q => ∀ groupIndex, ∃ n, piece.minimum ≤ taken + n ∧
      (∀ maximum ∈ piece.maximum, taken ≤ maximum → taken + n ≤ maximum) ∧
      Denotes σ (.times (.group branches groupIndex) n) p q

lemma Strict.meaning {part : StrictPart} (h : Strict σ part p q) : part.Meaning σ p q := by
  induction h with
  | alternation hmem _ ih => exact .alternation hmem ih
  | nil => exact .nil
  | chars _ hmin hmaximum hrun _ ih => exact .cons hmin hmaximum (.times_of_run hrun) ih
  | @assertion piece _ p _ hholds _ ih =>
    -- The assertion may be repeated as often as its piece asks for.
    exact .cons (le_refl _) piece.bounds (Denotes.times_of_empty (.assertion hholds) _) ih
  | @group piece _ _ groupIndex _ _ _ hatom _ _ ih ih' =>
    obtain ⟨n, hmin, hmaximum, htimes⟩ := ih groupIndex
    rw [← hatom] at htimes
    refine .cons (by omega) (fun maximum hmem => ?_) htimes ih'
    have := hmaximum maximum hmem (Nat.zero_le _)
    omega
  | stop hmin => exact fun _ => ⟨0, hmin, fun _ _ hle => hle, .zero⟩
  | @empty piece _ taken p hmore _ ih =>
    intro groupIndex
    refine ⟨max 1 (piece.minimum - taken), by omega, fun maximum hmem _ => ?_,
      Denotes.times_of_empty (.group ih) _⟩
    have := Piece.lt_of_allowsMore hmore maximum hmem
    have := piece.bounds maximum hmem
    omega
  | @again piece _ taken p q r hmore _ _ _ ih ih' =>
    intro groupIndex
    obtain ⟨n, hmin, hmaximum, htimes⟩ := ih' groupIndex
    refine ⟨n + 1, by omega, fun maximum hmem _ => ?_, .succ (.group ih) htimes⟩
    have := hmaximum maximum hmem (Piece.lt_of_allowsMore hmore maximum hmem)
    omega

end Semantics

/-! ## What a search reaches -/

/-- From `p`, where the branch has a group of which there have been `taken` repetitions, to the end
of the branch. -/
def GroupReaches (σ : Subject) (branch : Branch) (taken p q : ℕ) : Prop :=
  ∃ piece rest branches groupIndex r, branch = piece :: rest ∧
    piece.atom = .group branches groupIndex ∧ Strict σ (.loop piece branches taken) p r ∧
    Strict σ (.branch rest) r q

/-- The continuation leads from `p` to a match of the whole expression that ends at `e`. -/
def Ends (σ : Subject) : List GroupLoop → ℕ → ℕ → Prop
  | [], p, e => e = p
  | loop :: after, p, e =>
    if p = loop.start then ∃ q, Strict σ (.branch loop.branch.tail) p q ∧ Ends σ after q e
    else ∃ q, GroupReaches σ loop.branch (loop.taken + 1) p q ∧ Ends σ after q e

/-- A call leads to a match that ends at `e`. -/
def Reaches (σ : Subject) : MatchCall → ℕ → Prop
  | .runContinuation continuation position, e => Ends σ continuation position e
  | .matchBranch branch position next, e =>
    ∃ q, Strict σ (.branch branch) position q ∧ Ends σ next q e
  | .matchGroup branch position next taken, e =>
    ∃ q, GroupReaches σ branch taken position q ∧ Ends σ next q e

section Reaches

variable {σ : Subject} {piece : Piece} {rest : Branch} {branches : Alternation}
  {next : List GroupLoop} {group taken p q e : ℕ}

lemma strict_loop : Strict σ (.loop piece branches taken) p q ↔
    (piece.minimum ≤ taken ∧ q = p) ∨ (piece.allowsMore taken ∧ ∃ r,
      Strict σ (.alternation branches) p r ∧
        if r = p then q = p else Strict σ (.loop piece branches (taken + 1)) r q) := by
  constructor
  · intro h
    cases h with
    | stop hmin => exact .inl ⟨hmin, rfl⟩
    | empty hmore hempty => exact .inr ⟨hmore, p, hempty, by rw [if_pos rfl]⟩
    | again hmore hfirst hne hrest => exact .inr ⟨hmore, _, hfirst, by rwa [if_neg hne]⟩
  · rintro (⟨hmin, rfl⟩ | ⟨hmore, r, hfirst, hrest⟩)
    · exact .stop hmin
    · split_ifs at hrest with heq
      · subst heq hrest
        exact .empty hmore hfirst
      · exact .again hmore hfirst heq hrest

lemma groupReaches_cons (hatom : piece.atom = .group branches group) :
    GroupReaches σ (piece :: rest) taken p q ↔
      ∃ r, Strict σ (.loop piece branches taken) p r ∧ Strict σ (.branch rest) r q := by
  constructor
  · rintro ⟨_, _, branches', groupIndex', r, ⟨⟩, hatom', hloop, hrest⟩
    rw [hatom] at hatom'
    cases hatom'
    exact ⟨r, hloop, hrest⟩
  · rintro ⟨r, hloop, hrest⟩
    exact ⟨piece, rest, branches, group, r, rfl, hatom, hloop, hrest⟩

/-- `match_group` first tries one more repetition, and then goes on behind the group. -/
lemma reaches_matchGroup (hatom : piece.atom = .group branches group) :
    Reaches σ (.matchGroup (piece :: rest) p next taken) e ↔
      (piece.allowsMore taken ∧ ∃ q, Strict σ (.alternation branches) p q ∧
        Ends σ (⟨piece :: rest, p, taken⟩ :: next) q e) ∨
      (piece.minimum ≤ taken ∧ ∃ q, Strict σ (.branch rest) p q ∧ Ends σ next q e) := by
  unfold Reaches
  simp only [groupReaches_cons hatom, Ends, List.tail_cons]
  constructor
  · rintro ⟨q, ⟨r, hloop, hrest⟩, hends⟩
    rcases strict_loop.mp hloop with ⟨hmin, rfl⟩ | ⟨hmore, s, hfirst, hafter⟩
    · exact .inr ⟨hmin, q, hrest, hends⟩
    · refine .inl ⟨hmore, s, hfirst, ?_⟩
      split_ifs at hafter ⊢ with heq
      · subst hafter
        exact ⟨q, heq ▸ hrest, hends⟩
      · exact ⟨q, ⟨r, hafter, hrest⟩, hends⟩
  · rintro (⟨hmore, s, hfirst, hafter⟩ | ⟨hmin, q, hrest, hends⟩)
    · split_ifs at hafter with heq
      · obtain ⟨q, hrest, hends⟩ := hafter
        exact ⟨q, ⟨p, strict_loop.mpr (.inr ⟨hmore, s, hfirst, by rw [if_pos heq]⟩), heq ▸ hrest⟩,
          hends⟩
      · obtain ⟨q, ⟨r, hloop, hrest⟩, hends⟩ := hafter
        exact ⟨q, ⟨r, strict_loop.mpr (.inr ⟨hmore, s, hfirst, by rwa [if_neg heq]⟩), hrest⟩, hends⟩
    · exact ⟨q, ⟨p, .stop hmin, hrest⟩, hends⟩

lemma strict_cons : Strict σ (.branch (piece :: rest)) p q ↔
    (piece.atom.isChar ∧ ∃ n, (piece.minimum ≤ n ∧ (∀ maximum ∈ piece.maximum, n ≤ maximum) ∧
      σ.Run piece.atom p n) ∧ Strict σ (.branch rest) (p + n) q) ∨
    (σ.assertion piece.atom p = some true ∧ Strict σ (.branch rest) p q) ∨
    GroupReaches σ (piece :: rest) 0 p q := by
  constructor
  · intro h
    cases h with
    | chars hchar hmin hmaximum hrun hrest =>
      exact .inl ⟨hchar, _, ⟨hmin, hmaximum, hrun⟩, hrest⟩
    | assertion hholds hrest => exact .inr (.inl ⟨hholds, hrest⟩)
    | group hatom hloop hrest =>
      exact .inr (.inr ((groupReaches_cons hatom).mpr ⟨_, hloop, hrest⟩))
  · rintro (⟨hchar, n, ⟨hmin, hmaximum, hrun⟩, hrest⟩ | ⟨hholds, hrest⟩ |
      ⟨_, _, branches, groupIndex, r, ⟨⟩, hatom, hloop, hrest⟩)
    · exact .chars hchar hmin hmaximum hrun hrest
    · exact .assertion hholds hrest
    · exact .group hatom hloop hrest

lemma strict_cons_char (hchar : piece.atom.isChar) : Strict σ (.branch (piece :: rest)) p q ↔
    ∃ n, (piece.minimum ≤ n ∧ (∀ maximum ∈ piece.maximum, n ≤ maximum) ∧ σ.Run piece.atom p n) ∧
      Strict σ (.branch rest) (p + n) q := by
  have hassertion : σ.assertion piece.atom p ≠ some true := by
    unfold Subject.assertion
    split <;> simp_all [Atom.isChar]
  have hgroup : ¬ GroupReaches σ (piece :: rest) 0 p q := by
    rintro ⟨_, _, _, _, _, ⟨⟩, hatom, -⟩
    simp [hatom, Atom.isChar] at hchar
  simp only [strict_cons, hchar, hassertion, hgroup, true_and, false_and, or_false]

lemma strict_cons_assertion {holds : Bool} (h : σ.assertion piece.atom p = some holds) :
    Strict σ (.branch (piece :: rest)) p q ↔ holds ∧ Strict σ (.branch rest) p q := by
  have hchar : ¬ piece.atom.isChar := by
    intro hchar
    unfold Subject.assertion at h
    split at h <;> simp_all [Atom.isChar]
  have hgroup : ¬ GroupReaches σ (piece :: rest) 0 p q := by
    rintro ⟨_, _, _, _, _, ⟨⟩, hatom, -⟩
    simp [hatom, Subject.assertion] at h
  rw [strict_cons, h]
  simp only [Option.some.injEq]
  tauto

lemma strict_cons_group (hatom : piece.atom = .group branches group) :
    Strict σ (.branch (piece :: rest)) p q ↔ GroupReaches σ (piece :: rest) 0 p q := by
  rw [strict_cons, hatom]
  simp [Atom.isChar, Subject.assertion]

end Reaches

/-! ## What a run of characters allows -/

/-- The counts that `match_branch` tries are those for which the characters are there. -/
lemma Subject.le_greedyRun (σ : Subject) (piece : Piece) : ∀ (cs : List UInt8) (taken n : ℕ),
    taken + n ≤ σ.greedyRun piece cs taken ↔
      ∀ k < n, piece.allowsMore (taken + k) ∧ ∃ c ∈ cs[k]?, σ.characterMatches piece.atom c
  | [], taken, n => by
    cases n with
    | zero => simp [greedyRun]
    | succ n =>
      refine ⟨fun h => ?_, fun h => ?_⟩
      · simp only [greedyRun] at h
        omega
      · obtain ⟨-, c, hc, -⟩ := h 0 (Nat.succ_pos n)
        cases hc
  | c :: cs, taken, n => by
    unfold greedyRun
    cases n with
    | zero =>
      split_ifs
      · have := (le_greedyRun σ piece cs (taken + 1) 0).mpr (by simp)
        simp only [Nat.not_lt_zero, false_implies, implies_true, iff_true]
        omega
      · simp
    | succ n =>
      rw [Nat.forall_lt_succ_left]
      split_ifs with hc
      · rw [show taken + (n + 1) = taken + 1 + n by omega, le_greedyRun σ piece cs (taken + 1) n]
        simp only [Bool.and_eq_true] at hc
        simp only [List.getElem?_cons_zero, List.getElem?_cons_succ, Nat.add_zero, hc.1, true_and,
          Option.mem_some_iff, exists_eq_left', hc.2, Nat.add_assoc, Nat.add_comm 1]
      · simp only [Bool.and_eq_true] at hc
        simp only [List.getElem?_cons_zero, Nat.add_zero, Option.mem_some_iff, exists_eq_left', hc,
          false_and, iff_false]
        omega

lemma Subject.le_greedyRun_drop {σ : Subject} {piece : Piece} {pos n : ℕ} :
    n ≤ σ.greedyRun piece (σ.string.drop pos) 0 ↔
      (∀ maximum ∈ piece.maximum, n ≤ maximum) ∧ σ.Run piece.atom pos n := by
  have h := σ.le_greedyRun piece (σ.string.drop pos) 0 n
  simp only [Nat.zero_add, List.getElem?_drop] at h
  rw [h, ← Piece.forall_allowsMore]
  exact forall₂_and

lemma Matcher.mem_countsDown {minimum taken count : ℕ} :
    count ∈ countsDown minimum taken ↔ minimum ≤ count ∧ count ≤ taken := by
  unfold countsDown
  rw [List.mem_reverse, List.mem_range'_1]
  omega

/-! ## The search finds the longest match -/

/-- No branch of the continuation has a back-reference. -/
def PlainLoops (loops : List GroupLoop) : Prop :=
  ∀ loop ∈ loops, ∀ piece ∈ loop.branch, piece.atom.Plain

def MatchCall.Plain : MatchCall → Prop
  | .runContinuation continuation _ => PlainLoops continuation
  | .matchBranch branch _ next => (∀ piece ∈ branch, piece.atom.Plain) ∧ PlainLoops next
  | .matchGroup branch _ next _ => (∀ piece ∈ branch, piece.atom.Plain) ∧ PlainLoops next

/-- The best match is now the longest of the one there was and those that end where `G` says. -/
structure Improves (m m' : Matcher) (G : ℕ → Prop) : Prop where
  complete : ∀ e : ℕ, G e → m'.found ∧ e ≤ m'.bestEnd
  mono : m.found → m'.found ∧ m.bestEnd ≤ m'.bestEnd
  sound : m'.found → (m.found ∧ m'.bestEnd = m.bestEnd) ∨ ∃ e, G e ∧ m'.bestEnd = e
  best : (m.found → (m.best 0).eo = m.bestEnd) → m'.found → (m'.best 0).eo = m'.bestEnd

namespace Improves

variable {m m' m'' : Matcher} {G G' : ℕ → Prop}

lemma of_false (h : ∀ e, ¬ G e) : Improves m m G where
  complete e he := absurd he (h e)
  mono h := ⟨h, Int.le_refl _⟩
  sound h := .inl ⟨h, rfl⟩
  best h := h

lemma congr (h : Improves m m' G) (hG : ∀ e, G' e ↔ G e) : Improves m m' G' := by
  obtain rfl : G' = G := funext fun e => propext (hG e)
  exact h

lemma of_same {m₁ : Matcher} (h : Improves m₁ m' G) (hfound : m₁.found = m.found)
    (hbestEnd : m₁.bestEnd = m.bestEnd) (hbest : m₁.best = m.best) : Improves m m' G := by
  obtain ⟨hcomplete, hmono, hsound, hbest'⟩ := h
  rw [hfound, hbestEnd] at hmono hsound hbest'
  rw [hbest] at hbest'
  exact ⟨hcomplete, hmono, hsound, hbest'⟩

lemma trans (h : Improves m m' G) (h' : Improves m' m'' G') :
    Improves m m'' fun e => G e ∨ G' e where
  complete e he := by
    rcases he with he | he
    · obtain ⟨hfound, hle⟩ := h.complete e he
      obtain ⟨hfound', hle'⟩ := h'.mono hfound
      exact ⟨hfound', Int.le_trans hle hle'⟩
    · exact h'.complete e he
  mono hfound := by
    obtain ⟨hfound', hle⟩ := h.mono hfound
    obtain ⟨hfound'', hle'⟩ := h'.mono hfound'
    exact ⟨hfound'', Int.le_trans hle hle'⟩
  sound hfound := by
    rcases h'.sound hfound with ⟨hfound', hsame⟩ | ⟨e, he, heq⟩
    · rcases h.sound hfound' with ⟨hfound'', hsame'⟩ | ⟨e, he, heq⟩
      · exact .inl ⟨hfound'', hsame.trans hsame'⟩
      · exact .inr ⟨e, .inl he, hsame.trans heq⟩
    · exact .inr ⟨e, .inr he, heq⟩
  best hbest := h'.best (h.best hbest)

end Improves

namespace Matcher

variable {σ : Subject} {m m' : Matcher} {pos : ℕ} {next : List GroupLoop} {branch : Branch}

lemma improves_untilStop {α : Type} {perform : α → Matcher → Bool × Matcher} {G : α → ℕ → Prop} :
    ∀ {xs : List α} {m m' : Matcher},
      (∀ x ∈ xs, ∀ m m', perform x m = (false, m') → Improves m m' (G x)) →
      untilStop perform xs m = (false, m') → Improves m m' fun e => ∃ x ∈ xs, G x e
  | [], m, m', _, h => by
    obtain rfl : m = m' := by simpa [untilStop] using h
    exact .of_false (by simp)
  | x :: xs, m, m', hperform, h => by
    unfold untilStop at h
    split at h
    case h_1 => cases h
    case h_2 m₁ hx =>
      have hfirst := hperform x List.mem_cons_self _ _ hx
      have hrest := improves_untilStop (fun y hy => hperform y (List.mem_cons_of_mem x hy)) h
      exact (hfirst.trans hrest).congr fun e => by simp

/-- What the calls that a call makes do, with less fuel. -/
def Correct (σ : Subject) (perform : MatchCall → Matcher → Bool × Matcher) : Prop :=
  ∀ c m m', c.Plain → perform c m = (false, m') → Improves m m' (Reaches σ c)

variable {perform : MatchCall → Matcher → Bool × Matcher}

lemma improves_matchAlternation (hperform : Correct σ perform) {alternation : Alternation}
    (hplain : ∀ branch ∈ alternation, ∀ piece ∈ branch, piece.atom.Plain) (hnext : PlainLoops next)
    (h : matchAlternation perform alternation pos next m = (false, m')) :
    Improves m m' fun e => ∃ q, Strict σ (.alternation alternation) pos q ∧ Ends σ next q e := by
  refine (improves_untilStop (fun branch hbranch m m' hcall =>
    hperform (.matchBranch branch pos next) m m' ⟨hplain branch hbranch, hnext⟩ hcall) h).congr
    fun e => ?_
  constructor
  · rintro ⟨q, hstrict, hends⟩
    cases hstrict with
    | alternation hmem hbranch => exact ⟨_, hmem, q, hbranch, hends⟩
  · rintro ⟨branch, hmem, q, hbranch, hends⟩
    exact ⟨q, .alternation hmem hbranch, hends⟩

lemma improves_restore {group : ℕ} {saved : RegMatch} {result : Bool × Matcher} {G : ℕ → Prop}
    (h : restore group saved result = (false, m'))
    (hres : ∀ m₁, result = (false, m₁) → Improves m m₁ G) : Improves m m' G := by
  obtain ⟨stopped, m₁⟩ := result
  cases stopped with
  | true => cases h
  | false =>
    obtain rfl : _ = m' := (Prod.mk.inj h).2
    exact { hres m₁ rfl with }

section

variable (hperform : Correct σ perform)
include hperform

lemma improves_groupLoopRun {loop : GroupLoop} {after : List GroupLoop}
    (hplain : PlainLoops (loop :: after))
    (h : groupLoopRun perform loop after pos m = (false, m')) :
    Improves m m' (Ends σ (loop :: after) pos) := by
  obtain ⟨hloop, hafter⟩ := List.forall_mem_cons.mp hplain
  have htail : ∀ piece ∈ loop.branch.tail, piece.atom.Plain := fun piece hpiece =>
    hloop piece (List.mem_of_mem_tail hpiece)
  refine improves_restore h fun m₁ hres => ?_
  by_cases hempty : pos = loop.start
  · rw [if_pos hempty] at hres
    refine ((hperform (.matchBranch loop.branch.tail pos after) _ _ ⟨htail, hafter⟩
      hres).of_same ?_ ?_ ?_).congr fun e => ?_
    · split_ifs <;> rfl
    · split_ifs <;> rfl
    · split_ifs <;> rfl
    · rw [Ends, if_pos hempty]
      rfl
  · rw [if_neg hempty] at hres
    refine ((hperform (.matchGroup loop.branch pos after (loop.taken + 1)) _ _
      ⟨hloop, hafter⟩ hres).of_same ?_ ?_ ?_).congr fun e => ?_
    · split_ifs <;> rfl
    · split_ifs <;> rfl
    · split_ifs <;> rfl
    · rw [Ends, if_neg hempty]
      rfl

lemma improves_runContinuation {continuation : List GroupLoop} (hplain : PlainLoops continuation)
    (h : runContinuation perform continuation pos m = (false, m')) :
    Improves m m' (Ends σ continuation pos) := by
  cases continuation with
  | cons loop after => exact improves_groupLoopRun hperform hplain h
  | nil =>
    unfold runContinuation at h
    split_ifs at h with hbetter
    · obtain rfl : _ = m' := (Prod.mk.inj h).2
      refine ⟨fun e he => ?_, fun hfound => ⟨rfl, ?_⟩, fun _ => .inr ⟨pos, rfl, rfl⟩, fun _ _ => ?_⟩
      · obtain rfl : e = pos := he
        exact ⟨rfl, Int.le_refl _⟩
      · exact Int.le_of_lt (hbetter.resolve_left (by simp [hfound]))
      · simp
    · obtain rfl : m = m' := (Prod.mk.inj h).2
      obtain ⟨hfound, hle⟩ := not_or.mp hbetter
      refine ⟨fun e he => ?_, fun h => ⟨h, Int.le_refl _⟩, fun h => .inl ⟨h, rfl⟩, fun h => h⟩
      obtain rfl : e = pos := he
      exact ⟨by simpa using hfound, by omega⟩

lemma improves_matchGroup {taken : ℕ} (hbranch : ∀ piece ∈ branch, piece.atom.Plain)
    (hnext : PlainLoops next) (h : matchGroup perform branch pos next taken m = (false, m')) :
    Improves m m' (Reaches σ (.matchGroup branch pos next taken)) := by
  unfold matchGroup at h
  split at h
  case h_2 hother =>
    obtain rfl : m = m' := (Prod.mk.inj h).2
    refine .of_false ?_
    rintro e ⟨q, ⟨⟨atom, minimum, maximum, bounds⟩, rest, branches, groupIndex, r, rfl, hatom, -⟩,
      -⟩
    obtain rfl : atom = _ := hatom
    exact hother _ _ _ _ _ _ rfl
  case h_1 branches groupIndex minimum maximum bounds rest =>
    have hgroup : (Piece.mk (.group branches groupIndex) minimum maximum bounds).atom =
      .group branches groupIndex := rfl
    obtain ⟨hpiece, hrest⟩ := List.forall_mem_cons.mp hbranch
    have hplain : ∀ branch ∈ branches, ∀ piece ∈ branch, piece.atom.Plain := by
      cases hpiece with
      | char hchar => cases hchar
      | assertion hassertion => cases hassertion
      | group hplain => exact hplain
    dsimp only at h
    generalize hpieceDef : Piece.mk (.group branches groupIndex) minimum maximum bounds = piece at *
    have hmin : minimum = piece.minimum := by rw [← hpieceDef]; rfl
    rw [hmin] at h
    have hagain : ∀ m₁, (if piece.allowsMore taken then
        restore groupIndex (m.captures groupIndex) (matchAlternation perform branches pos
          (⟨piece :: rest, pos, taken⟩ :: next) m) else (false, m)) = (false, m₁) →
        Improves m m₁ fun e => piece.allowsMore taken ∧
          ∃ q, Strict σ (.alternation branches) pos q ∧
          Ends σ (⟨piece :: rest, pos, taken⟩ :: next) q e := by
      intro m₁ hm₁
      split_ifs at hm₁ with hmore
      · refine (improves_restore hm₁ fun m₂ hm₂ =>
          improves_matchAlternation hperform hplain ?_ hm₂).congr
          fun e => and_iff_right hmore
        exact List.forall_mem_cons.mpr ⟨hbranch, hnext⟩
      · obtain rfl : m = m₁ := (Prod.mk.inj hm₁).2
        exact .of_false fun e he => hmore he.1
    generalize (if piece.allowsMore taken then
        restore groupIndex (m.captures groupIndex) (matchAlternation perform branches pos
          (⟨piece :: rest, pos, taken⟩ :: next) m) else (false, m)) = again at h hagain
    obtain ⟨stopped, m₁⟩ := again
    cases stopped with
    | true => cases h
    | false =>
      have hfirst := hagain m₁ rfl
      have hsecond : Improves m₁ m' fun e => piece.minimum ≤ taken ∧
          ∃ q, Strict σ (.branch rest) pos q ∧ Ends σ next q e := by
        rw [if_neg (by simp)] at h
        split_ifs at h with hstop
        · exact (hperform (.matchBranch rest pos next) _ _ ⟨hrest, hnext⟩ h).congr
            fun e => and_iff_right hstop
        · obtain rfl : m₁ = m' := (Prod.mk.inj h).2
          exact .of_false fun e he => hstop he.1
      refine (hfirst.trans hsecond).congr fun e => ?_
      exact reaches_matchGroup hgroup

lemma improves_matchBranch (hbranch : ∀ piece ∈ branch, piece.atom.Plain) (hnext : PlainLoops next)
    (h : matchBranch σ perform branch pos next m = (false, m')) :
    Improves m m' (Reaches σ (.matchBranch branch pos next)) := by
  cases branch with
  | nil =>
    refine (hperform (.runContinuation next pos) _ _ hnext h).congr fun e => ?_
    constructor
    · rintro ⟨q, hnil, hends⟩
      cases hnil
      exact hends
    · exact fun hends => ⟨pos, .nil, hends⟩
  | cons piece rest =>
    obtain ⟨hpiece, hrest⟩ := List.forall_mem_cons.mp hbranch
    unfold matchBranch at h
    dsimp only at h
    split at h
    case h_1 holds hassertion =>
      have hreaches : ∀ e, Reaches σ (.matchBranch (piece :: rest) pos next) e ↔
          holds ∧ Reaches σ (.matchBranch rest pos next) e := fun e => by
        simp only [Reaches, strict_cons_assertion hassertion, and_assoc, exists_and_left]
      split_ifs at h with hholds
      · refine (hperform (.matchBranch rest pos next) _ _ ⟨hrest, hnext⟩ h).congr fun e => ?_
        rw [hreaches]
        exact and_iff_right hholds
      · obtain rfl : m = m' := (Prod.mk.inj h).2
        exact .of_false fun e he => hholds ((hreaches e).mp he).1
    case h_2 hassertion =>
      split at h
      case h_1 group hatom =>
        rw [hatom] at hpiece
        cases hpiece with
        | char hchar => cases hchar
        | assertion hassertion => cases hassertion
      case h_2 branches groupIndex hatom =>
        refine (hperform (.matchGroup (piece :: rest) pos next 0) _ _ ⟨hbranch, hnext⟩ h).congr
          fun e => ?_
        simp only [Reaches, strict_cons_group hatom]
      case h_3 hbackref hgroup =>
        have hchar : piece.atom.isChar := by
          cases hatom : piece.atom <;> simp_all [Subject.assertion, Atom.isChar]
        refine (improves_untilStop (fun count _ m m' hcall =>
          hperform (.matchBranch rest (pos + count) next) m m' ⟨hrest, hnext⟩ hcall) h).congr
          fun e => ?_
        simp only [Reaches, strict_cons_char hchar, mem_countsDown, Subject.le_greedyRun_drop]
        exact ⟨fun ⟨q, ⟨n, hn, hq⟩, he⟩ => ⟨n, hn, q, hq, he⟩,
          fun ⟨n, hn, q, hq, he⟩ => ⟨q, ⟨n, hn, hq⟩, he⟩⟩

end

/-- A call that does not run out of budget finds the longest match it leads to. -/
lemma correct_call : ∀ fuel, Correct σ (call σ fuel)
  | 0, _, _, _, _, h => by cases h
  | fuel + 1, c, m, m', hplain, h => by
    have ih := correct_call fuel
    unfold call at h
    dsimp only at h
    split_ifs at h
    · cases h
    · have himproves : Improves { m with budget := m.budget - 1 } m' (Reaches σ c) := by
        cases c with
        | runContinuation => exact improves_runContinuation ih hplain h
        | matchBranch => exact improves_matchBranch ih hplain.1 hplain.2 h
        | matchGroup => exact improves_matchGroup ih hplain.1 hplain.2 h
      exact himproves.of_same rfl rfl rfl

end Matcher

/-! ## `regexec` -/

namespace RegexProgram

variable (program : RegexProgram) (string : List UInt8) (eflags : ExecFlags)

/-- The expression matches the substring from `i` to `j`. -/
def Matches (i j : ℕ) : Prop :=
  Denotes (program.subject string eflags) (.alternation program.root) i j ∧ j ≤ string.length

/-- The expression matches the substring from `i` to `j` in the strict reading. -/
def StrictlyMatches (i j : ℕ) : Prop :=
  Strict (program.subject string eflags) (.alternation program.root) i j ∧ j ≤ string.length

/-- No part of the compiled form is a back-reference. -/
def Plain : Prop := ∀ branch ∈ program.root, ∀ piece ∈ branch, piece.atom.Plain

/-- No start position exhausts the budget. -/
def WithinBudget : Prop :=
  ∀ start ≤ string.length, (program.searchAt string eflags start).1 = false

end RegexProgram

/-- The answer is `REG_NOMATCH` if `M` has no pair, and else begins with the leftmost-longest pair.
-/
def Answers (M : ℕ → ℕ → Prop) : Option (List RegMatch) → Prop
  | none => ∀ i j, ¬ M i j
  | some found => ∃ i j : ℕ, LeftmostLongest M i j ∧ found.head? = some ⟨i, j⟩

/-- An answer that is right for one relation is right for a weaker one if and only if the
leftmost-longest pair of the weaker one is a pair of the other. -/
lemma Answers.iff_of_imp {M S : ℕ → ℕ → Prop} {bound : ℕ} {answer : Option (List RegMatch)}
    (hS : ∀ i j, S i j → M i j) (hbound : ∀ i j, M i j → j ≤ bound) (h : Answers S answer) :
    Answers M answer ↔ ∀ i j, LeftmostLongest M i j → S i j := by
  constructor
  · intro hM i j hij
    cases answer with
    | none => exact absurd hij.holds (hM i j)
    | some found =>
      obtain ⟨i₁, j₁, hS₁, hhead₁⟩ := h
      obtain ⟨i₂, j₂, hM₂, hhead₂⟩ := hM
      have hsame : i₁ = i₂ ∧ j₁ = j₂ := by simpa [Int.natCast_inj] using hhead₁.symm.trans hhead₂
      obtain ⟨rfl, rfl⟩ := hij.unique hM₂
      obtain ⟨rfl, rfl⟩ := hsame
      exact hS₁.holds
  · intro hstrict
    cases answer with
    | none =>
      intro i j hij
      obtain ⟨i', j', h'⟩ := LeftmostLongest.exists_of_bounded hbound hij
      exact h i' j' (hstrict i' j' h')
    | some found =>
      obtain ⟨i, j, hij, hhead⟩ := h
      obtain ⟨i', j', h'⟩ := LeftmostLongest.exists_of_bounded hbound (hS i j hij.holds)
      obtain ⟨rfl, rfl⟩ := hij.eq_of_imp hS h' (hstrict i' j' h')
      exact ⟨i, j, h', hhead⟩

namespace RegexProgram

variable {program : RegexProgram} {string : List UInt8} {eflags : ExecFlags} {matchCount : ℕ}
  {i j start : ℕ}

/-- A start position at which the search ends has a match if and only if the search finds one, and
then it finds the longest. -/
lemma improves_searchAt (hplain : program.Plain) {m : Matcher}
    (h : program.searchAt string eflags start = (false, m)) :
    (∀ e, Strict (program.subject string eflags) (.alternation program.root) start e →
      m.found ∧ (e : ℤ) ≤ m.bestEnd) ∧
    (m.found → ∃ e : ℕ, Strict (program.subject string eflags) (.alternation program.root) start e ∧
      (m.best 0).eo = e ∧ m.bestEnd = e) := by
  have himproves := Matcher.improves_matchAlternation (Matcher.correct_call MATCH_BUDGET) hplain
    (fun _ hmem => absurd hmem List.not_mem_nil) h
  refine ⟨fun e he => himproves.complete e ⟨e, he, rfl⟩, fun hfound => ?_⟩
  obtain ⟨hfalse, -⟩ | ⟨e, ⟨q, hstrict, rfl⟩, hbestEnd⟩ := himproves.sound hfound
  · cases hfalse
  · exact ⟨e, hstrict, (himproves.best (fun hfalse => by cases hfalse) hfound).trans hbestEnd,
      hbestEnd⟩

lemma head?_report {best : ℕ → RegMatch} (hcnt : 0 < matchCount) :
    (program.report start best matchCount).head? = some ⟨start, (best 0).eo⟩ := by
  obtain ⟨n, rfl⟩ : ∃ n, matchCount = n + 1 := ⟨matchCount - 1, by omega⟩
  simp [report, List.range_succ_eq_map]

lemma StrictlyMatches.matches (h : program.StrictlyMatches string eflags i j) :
    program.Matches string eflags i j := ⟨h.1.meaning, h.2⟩

lemma strictlyMatches_iff (hi : i ≤ string.length) : program.StrictlyMatches string eflags i j ↔
      Strict (program.subject string eflags) (.alternation program.root) i j :=
  ⟨And.left, fun h => ⟨h, Denotes.le_length h.meaning hi⟩⟩

/-- The loop over the start positions from `a` on stops at the first that has a match. -/
lemma searchFrom_range' (hplain : program.Plain) (hbudget : program.WithinBudget string eflags)
    (hcnt : 0 < matchCount) : ∀ (n a : ℕ), a + n = string.length + 1 →
      (∀ i j, program.StrictlyMatches string eflags i j → a ≤ i) →
      Answers (program.StrictlyMatches string eflags)
        (program.searchFrom string eflags matchCount (List.range' a n))
  | 0, a, hend, hbefore => by
    intro i j hij
    have hle := hbefore i j hij
    have hlen := hij.2
    have := Denotes.le hij.1.meaning
    omega
  | n + 1, a, hend, hbefore => by
    have ha : a ≤ string.length := by omega
    obtain ⟨hcomplete, hsound⟩ := improves_searchAt hplain (Prod.ext (hbudget a ha) rfl)
    rw [List.range'_succ, searchFrom]
    split_ifs with hfound
    · obtain ⟨e, hstrict, heo, hbestEnd⟩ := hsound hfound
      refine ⟨a, e, ⟨(strictlyMatches_iff ha).mpr hstrict, hbefore, fun j hj => ?_⟩, ?_⟩
      · have := (hcomplete j hj.1).2
        omega
      · rw [head?_report hcnt, heo]
    · refine searchFrom_range' hplain hbudget hcnt n (a + 1) (by omega) fun i j hij => ?_
      refine Nat.lt_of_le_of_ne (hbefore i j hij) fun heq => hfound ?_
      subst heq
      exact (hcomplete j hij.1).1

/-- `regexec` finds the leftmost-longest match of the strict reading. -/
lemma answers_strictly (hplain : program.Plain) (hbudget : program.WithinBudget string eflags)
    (hcnt : 0 < matchCount) :
    Answers (program.StrictlyMatches string eflags) (program.regexec string eflags matchCount) := by
  rw [regexec, List.range_eq_range']
  exact searchFrom_range' hplain hbudget hcnt _ 0 (by omega) fun _ _ _ => Nat.zero_le _

/-- `regexec` finds the leftmost-longest match, or that there is none, if and only if the strict
reading allows that match too. -/
theorem regexec_right_iff (program : RegexProgram) (string : List UInt8) (eflags : ExecFlags)
    (matchCount : ℕ) (hcount : 0 < matchCount) (hplain : program.Plain)
    (hbudget : program.WithinBudget string eflags) :
    Answers (program.Matches string eflags) (program.regexec string eflags matchCount) ↔
      ∀ i j, LeftmostLongest (program.Matches string eflags) i j →
        program.StrictlyMatches string eflags i j :=
  (answers_strictly hplain hbudget hcount).iff_of_imp (fun _ _ h => h.matches) fun _ _ h => h.2

/-- Repeats an atom exactly once. -/
def once (atom : Atom) : Piece := .mk atom 1 (some 1) (by simp)

/-- `(a|ab)(c|bcd)*` -/
def abcd : RegexProgram where
  root := [[once (.group [[once (.literal 97)], [once (.literal 97), once (.literal 98)]] 1),
    .mk (.group [[once (.literal 99)],
    [once (.literal 98), once (.literal 99), once (.literal 100)]] 2) 0
      none (by simp)]]
  groupCount := 2
  cflags := ⟨false, false, false⟩

lemma abcd_plain : abcd.Plain := by
  have hliteral : ∀ c, (once (.literal c)).atom.Plain := fun c => .char rfl
  simp only [Plain, abcd, List.forall_mem_cons, List.not_mem_nil, false_implies,
    implies_true, and_true]
  exact ⟨.group (by simp [hliteral]), .group (by simp [hliteral])⟩

/-- `(a|ab)(c|bcd)*` on `abcd`: the first branch of the group is the one to take. -/
theorem regexec_right_abcd :
    Answers (abcd.Matches [97, 98, 99, 100] ⟨false, false⟩)
      (abcd.regexec [97, 98, 99, 100] ⟨false, false⟩ 1) ∧
    abcd.regexec [97, 98, 99, 100] ⟨false, false⟩ 1 = some [⟨0, 4⟩] := by
  have hbudget : abcd.WithinBudget [97, 98, 99, 100] ⟨false, false⟩ := by
    show ∀ start ≤ 4, _
    decide +kernel
  have hfound : abcd.regexec [97, 98, 99, 100] ⟨false, false⟩ 1 = some [⟨0, 4⟩] := by decide +kernel
  refine ⟨(regexec_right_iff abcd [97, 98, 99, 100] ⟨false, false⟩ 1 Nat.one_pos
    abcd_plain hbudget).mpr fun i j hij => ?_, hfound⟩
  -- what is found is a match, and there is no other that starts there and is as long
  obtain ⟨i', j', hstrict, hhead⟩ : Answers (abcd.StrictlyMatches [97, 98, 99, 100] ⟨false, false⟩)
      (some [⟨0, 4⟩]) := by
    rw [← hfound]
    exact @answers_strictly abcd [97, 98, 99, 100] ⟨false, false⟩ 1 abcd_plain hbudget Nat.one_pos
  obtain ⟨rfl, rfl⟩ : i' = 0 ∧ j' = 4 := by
    rw [List.head?_cons, Option.some.injEq, RegMatch.mk.injEq] at hhead
    exact ⟨(Int.natCast_inj.mp hhead.1).symm, (Int.natCast_inj.mp hhead.2).symm⟩
  obtain rfl : i = 0 := Nat.le_zero.mp (hij.leftmost 0 4 hstrict.holds.matches)
  have hj := hij.longest 4 hstrict.holds.matches
  obtain rfl : j = 4 := le_antisymm hij.holds.2 hj
  exact hstrict.holds

/-- `(a|^){2}` -/
def startTwice : RegexProgram where
  root := [[.mk (.group [[once (.literal 97)], [once .bol]] 1) 2 (some 2) (by simp)]]
  groupCount := 1
  cflags := ⟨false, false, false⟩

/-- `(a|^){2}` on `a`: the first repetition is the start of the line and the second is the `a`, but
the empty repetition ends the loop, and `regexec` reports the empty string. -/
theorem empty_repetition_first :
    LeftmostLongest (startTwice.Matches [97] ⟨false, false⟩) 0 1 ∧
    startTwice.WithinBudget [97] ⟨false, false⟩ ∧
    startTwice.regexec [97] ⟨false, false⟩ 1 = some [⟨0, 0⟩] := by
  refine ⟨⟨⟨?_, le_refl 1⟩, fun _ _ _ => Nat.zero_le _, fun _ h => h.2⟩, ?_, by decide +kernel⟩
  · have hbol : Denotes (startTwice.subject [97] ⟨false, false⟩) (.branch [once .bol]) 0 0 :=
      .cons (le_refl 1) (by simp [once, Piece.maximum]) (.succ (.assertion rfl) .zero) .nil
    have ha : Denotes (startTwice.subject [97] ⟨false, false⟩) (.branch [once (.literal 97)]) 0 1 :=
      .cons (le_refl 1) (by simp [once, Piece.maximum]) (.succ (.char rfl rfl) .zero) .nil
    refine .alternation List.mem_cons_self (.cons (le_refl 2) (by simp [Piece.maximum])
      (.succ (.group (.alternation ?_ hbol)) (.succ (.group (.alternation ?_ ha)) .zero)) .nil)
    · simp
    · simp
  · show ∀ start ≤ 1, _
    decide +kernel

end RegexProgram

end ShitOs
