import ShitOs.Properties.Ustar
import Mathlib.Data.List.Infix
import Mathlib.Data.List.Nodup
import Mathlib.Tactic.IntervalCases

/-!
# An archive and the tree it is read into

What is written as a ustar archive is read back: every path that is listed leads to an inode of its
type, with its mode and its bytes, and there is nothing else but the directories above.  Only a
directory that is listed when something below it was listed before has lost its mode: `ensure_path`
has made it then, with mode 0755, and does not look at it again.

An `Archive` is a relation, and leaves open what the reader does not ask for: the other fields of
the headers, how a path is split between `prefix` and `name`, a `./` before it and a slash behind
it, and what pads the data.  The tree is compared path by path: `locate` follows the names, and
after some entries it finds under each path what the first of them that goes through it has made of
it (`expected`).
-/

namespace ShitOs

open List (cons_append length_append length_cons map_cons mem_cons_self replicate)
open Option (bind_some map_eq_some_iff map_some none_or)
open UstarInode TarHeader UstarInode UstarFileSystem

variable {text trail : Text} {value : ℕ} {cs q : List Text} {es : List Listed} {n t : UstarInode}
  {e : Listed}

/-! ## Archives -/

/-- A directory or a file that is to be written. -/
structure Listed where
  path : List Text
  mode : ℕ
  content : Option (List UInt8)

namespace Listed

variable (e : Listed)

def type : InodeType := if e.content.isSome then .regular else .directory

def bytes : List UInt8 := e.content.getD []

end Listed

/-- A field that holds a text, with a NUL behind it if there is room. -/
def HoldsText (bytes : List UInt8) (text : Text) : Prop :=
  ∃ tail, bytes = text ++ tail ∧ 0 ∉ text ∧ (tail = [] ∨ tail.head? = some 0)

/-- What octal digits stand for. -/
def octalValue (digits : List ℕ) : ℕ := digits.foldl (fun value digit => value * 8 + digit) 0

/-- A field that holds a number, in octal digits, with a NUL or a space behind them if there is
room. -/
def HoldsOctal (bytes : List UInt8) (value : ℕ) : Prop :=
  ∃ digits tail, bytes = digits.map (fun digit => UInt8.ofNat (0x30 + digit)) ++ tail ∧
  (∀ digit ∈ digits, digit < 8) ∧
    (tail = [] ∨ tail.head? = some 0 ∨ tail.head? = some 0x20) ∧ octalValue digits = value

/-- A header that was written for an entry. -/
structure HeaderOf (e : Listed) (block : List UInt8) : Prop where
  length : block.length = BLOCK_SIZE
  path : ∃ front name lead trail, HoldsText (field block 345 155) front ∧
    HoldsText (field block 0 100) name ∧
    (if front = [] then name else front ++ SLASH :: name) = lead ++
      [SLASH].intercalate e.path ++ trail ∧
    (lead = [] ∨ lead = [0x2e, SLASH]) ∧ (trail = [] ∨ trail = [SLASH] ∧ e.content = none) ∧
    (lead ++ [SLASH].intercalate e.path ++ trail).length ≤ 255
  mode : HoldsOctal (field block 100 8) e.mode
  size : HoldsOctal (field block 124 12) e.bytes.length
  typeFlag : block.getD 156 0 ∈ if e.content.isSome then [0x30, 0] else [0x35]
  magic : field block 257 5 = USTAR

/-- The bytes of an archive: for each entry a header and the data, padded to whole blocks, and zeros
at the end. -/
inductive Archive : List Listed → List UInt8 → Prop
  | done (zeros : ℕ) : Archive [] (replicate zeros 0)
  | entry {e : Listed} {es : List Listed} {header padding rest : List UInt8}
      (hheader : HeaderOf e header)
      (hpadding : e.bytes.length + padding.length = padded e.bytes.length)
        (hrest : Archive es rest) :
      Archive (e :: es) (header ++ (e.bytes ++ (padding ++ rest)))

/-- Different paths that form a tree, each with a mode. -/
structure FormsTree (es : List Listed) : Prop where
  nonempty : ∀ e ∈ es, e.path ≠ []
  names : ∀ e ∈ es, ∀ c ∈ e.path, IsName c
  modes : ∀ e ∈ es, e.mode ≠ 0
  distinct : (es.map (·.path)).Nodup
  files : ∀ e ∈ es, ∀ f ∈ es, e.content.isSome → e.path <+: f.path → e.path = f.path

/-! ## Reading the fields -/

lemma HoldsText.textOf_eq {bytes : List UInt8} (h : HoldsText bytes text) :
    textOf bytes = text := by
  obtain ⟨tail, rfl, hzero, rfl | htail⟩ := h
  · unfold textOf
    rw [List.takeWhile_append_of_pos fun c hc => by simpa using ne_of_mem_of_not_mem hc hzero]
    simp
  · cases tail with
    | nil => cases htail
    | cons c rest =>
      obtain rfl : c = 0 := by simpa using htail
      exact textOf_append_zero hzero rest

lemma HoldsText.head?_eq_zero_iff {bytes : List UInt8} (h : HoldsText bytes text)
    (hbytes : bytes ≠ []) : bytes.head? = some 0 ↔ text = [] := by
  obtain ⟨tail, rfl, hzero, htail⟩ := h
  cases text with
  | nil =>
    obtain rfl | htail := htail
    · exact absurd rfl hbytes
    · simpa using htail
  | cons c rest =>
    have : c ≠ 0 := fun hc => hzero (hc ▸ mem_cons_self)
    simpa using this

lemma parseOctalFrom_eq (digits : List ℕ) {tail : List UInt8}
    (hdigits : ∀ digit ∈ digits, digit < 8)
    (htail : tail = [] ∨ tail.head? = some 0 ∨ tail.head? = some 0x20) (value : ℕ) :
    parseOctalFrom value (digits.map (fun digit => UInt8.ofNat (0x30 + digit)) ++ tail) =
      digits.foldl (fun value digit => value * 8 + digit) value := by
  induction digits generalizing value with
  | nil =>
    cases tail with
    | nil => rfl
    | cons c rest =>
      have hc : c = 0 ∨ c = 0x20 := by simpa using htail
      simp only [List.map_nil, List.nil_append, parseOctalFrom, if_pos hc, List.foldl_nil]
  | cons digit digits ih =>
    have hdigit := hdigits digit mem_cons_self
    have hstop : ¬ (UInt8.ofNat (0x30 + digit) = 0 ∨ UInt8.ofNat (0x30 + digit) = 0x20) := by
      interval_cases digit <;> decide
    have hskip : ¬ (UInt8.ofNat (0x30 + digit) < 0x30 ∨ 0x37 < UInt8.ofNat (0x30 + digit)) := by
      interval_cases digit <;> decide
    have hvalue : (UInt8.ofNat (0x30 + digit)).toNat - 0x30 = digit := by
      interval_cases digit <;> rfl
    rw [map_cons, cons_append, parseOctalFrom, if_neg hstop, if_neg hskip, hvalue,
      ih fun d hd => hdigits d (List.mem_cons_of_mem _ hd)]
    rfl

lemma HoldsOctal.parseOctal_eq {bytes : List UInt8} (h : HoldsOctal bytes value) :
    parseOctal bytes = value := by
  obtain ⟨digits, tail, rfl, hdigits, htail, rfl⟩ := h
  exact parseOctalFrom_eq digits hdigits htail 0

lemma HoldsOctal.lt {bytes : List UInt8} (h : HoldsOctal bytes value) :
    value < 8 ^ bytes.length := by
  obtain ⟨digits, tail, rfl, hdigits, -, rfl⟩ := h
  have hfold : ∀ (digits : List ℕ) (value : ℕ), (∀ digit ∈ digits, digit < 8) →
      digits.foldl (fun value digit => value * 8 + digit) value <
      (value + 1) * 8 ^ digits.length := by
    intro digits
    induction digits with
    | nil => intro value _; simp
    | cons digit digits ih =>
      intro value hdigits
      have hdigit := hdigits digit mem_cons_self
      have := ih (value * 8 + digit) fun d hd => hdigits d (List.mem_cons_of_mem _ hd)
      calc digits.foldl _ (value * 8 + digit) < (value * 8 + digit + 1) * 8 ^ digits.length := this
        _ ≤ (value + 1) * 8 * 8 ^ digits.length := Nat.mul_le_mul_right _ (by omega)
        _ = (value + 1) * 8 ^ (digits.length + 1) := by rw [Nat.pow_succ', Nat.mul_assoc]
  calc octalValue digits < (0 + 1) * 8 ^ digits.length := hfold digits 0 hdigits
    _ = 8 ^ digits.length := by simp
    _ ≤ 8 ^ (digits.map (fun digit => UInt8.ofNat (0x30 + digit)) ++ tail).length :=
        Nat.pow_le_pow_right (by decide) (by simp)

/-! ## The components of a path -/

/-- Names as `ensure_path` sees them, with `is_last`. -/
def flagged : List Text → List (Text × Bool)
  | [] => []
  | c :: cs => (c, cs.isEmpty) :: flagged cs

lemma nextComponent_slash (path : Text) : nextComponent (SLASH :: path) = nextComponent path := by
  unfold nextComponent
  rw [List.dropWhile_cons_of_pos (by decide)]

lemma nextComponent_append {c rest : Text} (hc : IsName c)
    (hrest : rest = [] ∨ rest.head? = some SLASH) : nextComponent (c ++ rest) = some (c, rest) := by
  obtain ⟨⟨hne, hfree, hshort⟩, -⟩ := hc
  have hdrop : (c ++ rest).dropWhile (· == SLASH) = c ++ rest := by
    cases c with
    | nil => exact absurd rfl hne
    | cons byte c =>
      have hbyte : byte ≠ SLASH := fun he => hfree (he ▸ mem_cons_self)
      rw [cons_append, List.dropWhile_cons_of_neg (by simpa using hbyte)]
  have hpos : ∀ byte ∈ c, (byte != SLASH) = true := fun byte hbyte => by
    simpa using ne_of_mem_of_not_mem hbyte hfree
  have htake : rest.takeWhile (· != SLASH) = [] ∧ rest.dropWhile (· != SLASH) = rest := by
    obtain rfl | hhead := hrest
    · exact ⟨rfl, rfl⟩
    · cases rest with
      | nil => cases hhead
      | cons byte rest =>
        obtain rfl : byte = SLASH := by simpa using hhead
        exact ⟨rfl, rfl⟩
  unfold nextComponent
  rw [hdrop, if_neg (by simp [hne]), List.takeWhile_append_of_pos hpos,
    List.dropWhile_append_of_pos hpos, htake.1, htake.2, List.append_nil,
    List.take_of_length_le (by omega)]

lemma head?_render_append (htrail : trail = [] ∨ trail = [SLASH]) :
    render cs ++ trail = [] ∨ (render cs ++ trail).head? = some SLASH := by
  cases cs with
  | nil =>
    obtain rfl | rfl := htrail
    · exact Or.inl rfl
    · exact Or.inr rfl
  | cons c cs => exact Or.inr rfl

/-- `ensure_path` sees the names of a path, and the last of them as the last, with a slash behind it
or without. -/
lemma partsWithin_render (hcs : ∀ c ∈ cs, IsName c) (htrail : trail = [] ∨ trail = [SLASH])
    {fuel : ℕ} (hfuel : cs.length ≤ fuel) : partsWithin fuel (render cs ++ trail) = flagged cs := by
  induction cs generalizing fuel with
  | nil =>
    cases fuel with
    | zero => rfl
    | succ fuel => obtain rfl | rfl := htrail <;> rfl
  | cons c cs ih =>
    cases fuel with
    | zero => exact absurd hfuel (Nat.not_succ_le_zero _)
    | succ fuel =>
      have hnext : nextComponent (render (c :: cs) ++ trail) = some (c, render cs ++ trail) := by
        rw [render, List.flatMap_cons, cons_append, cons_append, nextComponent_slash,
          List.append_assoc]
        exact nextComponent_append (hcs c mem_cons_self) (head?_render_append htrail)
      have hlast : (render cs ++ trail = [] ∨ render cs ++ trail = [SLASH]) ↔ cs = [] := by
        cases cs with
        | nil => simpa [render] using htrail
        | cons d cs =>
          obtain ⟨⟨hne, -⟩, -⟩ := hcs d (by simp)
          simp [render, hne]
      unfold partsWithin
      rw [hnext]
      dsimp only
      by_cases hempty : cs = []
      · rw [if_pos (hlast.mpr hempty), hempty]
        rfl
      · rw [if_neg (fun h => hempty (hlast.mp h)),
          ih (fun d hd => hcs d (List.mem_cons_of_mem _ hd)) (by simpa using hfuel)]
        simp [flagged, hempty]

lemma render_cons (c : Text) (cs : List Text) :
    render (c :: cs) = SLASH :: [SLASH].intercalate (c :: cs) := by
  induction cs generalizing c with
  | nil => simp [render]
  | cons d cs ih =>
    have hrender : render (c :: d :: cs) = SLASH :: (c ++ render (d :: cs)) := rfl
    rw [hrender, ih, List.intercalate_cons_cons]
    simp

lemma length_le_render (hcs : ∀ c ∈ cs, IsName c) : 2 * cs.length ≤ (render cs).length := by
  induction cs with
  | nil => simp
  | cons c cs ih =>
    have hrender : render (c :: cs) = SLASH :: (c ++ render cs) := rfl
    have hpos := List.length_pos_iff.mpr (hcs c mem_cons_self).1.1
    have := ih fun d hd => hcs d (List.mem_cons_of_mem _ hd)
    rw [hrender, length_cons, length_cons, length_append]
    omega

lemma parts_intercalate (hne : cs ≠ []) (hcs : ∀ c ∈ cs, IsName c)
    (htrail : trail = [] ∨ trail = [SLASH]) :
    parts ([SLASH].intercalate cs ++ trail) = flagged cs := by
  have hslash : ∀ fuel path, partsWithin fuel (SLASH :: path) = partsWithin fuel path := by
    intro fuel path
    cases fuel with
    | zero => rfl
    | succ fuel => simp only [partsWithin, nextComponent_slash]
  obtain ⟨c, cs, rfl⟩ := List.exists_cons_of_ne_nil hne
  have hlen := length_le_render hcs
  rw [render_cons, length_cons, length_cons] at hlen
  rw [parts, ← hslash, ← cons_append, ← render_cons]
  refine partsWithin_render hcs htrail ?_
  rw [length_append, length_cons]
  omega

/-- A path that does not begin with `./` is left as it is, and `./` is taken off. -/
lemma cleanPath_intercalate (hne : cs ≠ []) (hcs : ∀ c ∈ cs, IsName c) {lead : Text}
    (hlead : lead = [] ∨ lead = [0x2e, SLASH]) (trail : Text) :
    cleanPath (lead ++ [SLASH].intercalate cs ++ trail) = [SLASH].intercalate cs ++ trail := by
  obtain rfl | rfl := hlead
  · obtain ⟨c, cs, rfl⟩ := List.exists_cons_of_ne_nil hne
    obtain ⟨⟨hc, hfree, -⟩, hdot, -⟩ := hcs c mem_cons_self
    refine if_neg fun htake => ?_
    have hstart : ∃ rest, [] ++ [SLASH].intercalate (c :: cs) ++ trail = c ++ rest := by
      cases cs with
      | nil => exact ⟨trail, by simp⟩
      | cons d cs =>
          exact ⟨[SLASH] ++
          ([SLASH].intercalate (d :: cs) ++ trail), by simp [List.intercalate_cons_cons]⟩
    obtain ⟨rest, hstart⟩ := hstart
    rw [hstart] at htake
    match c, hc with
    | [byte], _ =>
      have hbyte : byte = 0x2e := by simpa using (List.cons.inj htake).1
      exact hdot (by rw [hbyte]; rfl)
    | byte :: byte' :: c, _ =>
      have hbyte : byte' = SLASH := by simpa using (List.cons.inj (List.cons.inj htake).2).1
      exact hfree (by simp [hbyte])
  · rfl

/-! ## Following names -/

namespace UstarInode

variable {c t : UstarInode}

/-- The inode at the end of a row of names. -/
def locate : List Text → UstarInode → Option UstarInode
  | [], inode => some inode
  | c :: cs, inode => (inode.child c).bind (locate cs)

/-- What is under a row of names, by whatever child has the name. -/
inductive At : UstarInode → List Text → UstarInode → Prop
  | here (n : UstarInode) : At n [] n
  | down {c n t : UstarInode} {cs : List Text} (hmem : c ∈ t.children) (hn : At c cs n) :
      At t (c.name :: cs) n

/-- The children of every directory have different names. -/
def Distinct (t : UstarInode) : Prop := ∀ n, t.Has n → (n.children.map (·.name)).Nodup

lemma Distinct.of_mem (h : t.Distinct) (hc : c ∈ t.children) : c.Distinct :=
  fun n hn => h n (.down hc hn)

lemma distinct_iff :
    t.Distinct ↔ (t.children.map (·.name)).Nodup ∧ ∀ c ∈ t.children, c.Distinct := by
  refine ⟨fun h => ⟨h t (.self t), fun c hc => h.of_mem hc⟩, fun h n hn => ?_⟩
  obtain rfl | ⟨c, hc, hn⟩ := has_iff.mp hn
  · exact h.1
  · exact h.2 c hc n hn

/-- In a tree of different names, what is under a name is found under it. -/
lemma At.locate_eq {n : UstarInode} {cs : List Text} (hat : t.At cs n) (h : t.Distinct) :
    t.locate cs = some n := by
  induction hat with
  | here n => rfl
  | @down c n t cs hmem hn ih =>
    have hchild : t.child c.name = some c := by
      have hnodup := h t (.self t)
      unfold child
      obtain ⟨d, hd⟩ : ∃ d, t.children.find? (fun d => d.name = c.name) = some d :=
        Option.isSome_iff_exists.mp (List.find?_isSome.mpr ⟨c, hmem, by simp⟩)
      have hname : d.name = c.name := by simpa using List.find?_some hd
      rw [hd, List.inj_on_of_nodup_map hnodup (List.mem_of_find?_eq_some hd) hmem hname]
    rw [locate, hchild]
    exact ih (h.of_mem hmem)

lemma child_put (t c : UstarInode) (name : Text) :
    (t.put c).child name = if name = c.name then some c else t.child name := by
  unfold put child
  induction t.children with
  | nil =>
    by_cases hname : name = c.name
    · simp [putInto, hname]
    · simp [putInto, hname, Ne.symm hname]
  | cons first rest ih =>
    unfold putInto
    by_cases hfirst : first.name = c.name
    · by_cases hname : name = c.name
      · simp [hfirst, hname]
      · simp [hfirst, hname, Ne.symm hname]
    · rw [if_neg hfirst, List.find?_cons, List.find?_cons, ih]
      by_cases hname : first.name = name
      · have : name ≠ c.name := fun he => hfirst (hname.trans he)
        simp [hname, this]
      · simp [hname]

lemma map_name_putInto (c : UstarInode) (children : List UstarInode) :
    (putInto c children).map (·.name) =
      if c.name ∈ children.map (·.name) then children.map (·.name)
        else children.map (·.name) ++ [c.name] := by
  induction children with
  | nil => rfl
  | cons first rest ih =>
    unfold putInto
    by_cases hfirst : first.name = c.name
    · simp [hfirst]
    · rw [if_neg hfirst, map_cons, ih]
      simp only [map_cons, List.mem_cons, Ne.symm hfirst, false_or]
      split_ifs <;> rfl

lemma Distinct.put (h : t.Distinct) (hc : c.Distinct) : (t.put c).Distinct := by
  obtain ⟨hnodup, hbelow⟩ := distinct_iff.mp h
  refine distinct_iff.mpr ⟨?_, fun d hd => ?_⟩
  · show ((putInto c t.children).map (·.name)).Nodup
    rw [map_name_putInto]
    split_ifs with hmem
    · exact hnodup
    · exact List.nodup_append.mpr ⟨hnodup, List.nodup_singleton _, by simpa using hmem⟩
  · obtain rfl | hd := mem_putInto hd
    · exact hc
    · exact hbelow d hd

end UstarInode

/-! ## What an inode looks like -/

/-- The type of an inode, its mode, its size and its data. -/
abbrev Look := InodeType × ℕ × ℕ × List UInt8

/-- What an inode looks like. -/
def UstarInode.look (archive : List UInt8) (n : UstarInode) : Look :=
  (n.type, n.mode, n.size, field archive (n.data.getD 0) n.size)

/-- What a directory looks like that was not listed. -/
def impliedLook : Look := (.directory, 0o755, 0, [])

/-- What an entry should look like. -/
def Listed.look (e : Listed) : Look := (e.type, e.mode, e.bytes.length, e.bytes)

section Ensure

variable {want : Wanted}

lemma name_ensureParts {memory : ℕ → Bool} (hname : ∀ n, (want.fill n).name = n.name)
    (ps : List (Text × Bool)) (cur : UstarInode) (next : ℕ) :
    (ensureParts memory want ps cur next).2.1.name = cur.name := by
  cases ps with
  | nil => exact hname cur
  | cons p rest =>
    obtain ⟨component, isLast⟩ := p
    obtain ⟨-, -, heq⟩ | ⟨child, next', -, heq⟩ :=
      ensureParts_cons memory want component isLast rest cur next
    · rw [heq]
    · rw [heq]
      rfl

lemma distinct_ensureParts {memory : ℕ → Bool} (hkids : ∀ n, (want.fill n).children = n.children)
    (ps : List (Text × Bool)) (cur : UstarInode) (next : ℕ) (h : cur.Distinct) :
    (ensureParts memory want ps cur next).2.1.Distinct := by
  induction ps generalizing cur next with
  | nil =>
    rw [distinct_iff] at h ⊢
    rwa [show (ensureParts memory want [] cur next).2.1 = want.fill cur from rfl, hkids]
  | cons p rest ih =>
    obtain ⟨component, isLast⟩ := p
    obtain ⟨-, -, heq⟩ | ⟨child, next', hchild, heq⟩ :=
      ensureParts_cons memory want component isLast rest cur next
    · rwa [heq]
    · rw [heq]
      refine h.put (ih child next' ?_)
      obtain ⟨hsome, -⟩ | ⟨-, -, rfl, -⟩ := hchild
      · exact h.of_mem (child_mem hsome)
      · exact distinct_iff.mpr ⟨List.nodup_nil, fun c hc => nomatch hc⟩

/-- What `ensure_path` returns was at the end of the path, or is new. -/
lemma look_reached {cs : List Text} (hcs : cs ≠ []) (cur : UstarInode) :
    reached want (flagged cs) cur =
      (cur.locate cs).getD (.make (cs.getLast hcs) want.type want.mode) := by
  induction cs generalizing cur with
  | nil => exact absurd rfl hcs
  | cons c cs ih =>
    cases cs with
    | nil =>
      simp only [flagged, reached, locate, List.isEmpty_nil, Wanted.make, if_true,
        List.getLast_singleton]
      cases cur.child c <;> rfl
    | cons d cs =>
      have hlocate : cur.locate (c :: d :: cs) = (cur.child c).bind (locate (d :: cs)) := rfl
      rw [flagged, reached, ih (List.cons_ne_nil d cs), List.getLast_cons_cons, hlocate]
      cases cur.child c <;> rfl

/-- What is at every path after `ensure_path`: where there was nothing, the directories above, and
at the end what was asked for, filled. -/
lemma locate_ensureParts (archive : List UInt8) (hname : ∀ n, (want.fill n).name = n.name)
    (hkids : ∀ n, (want.fill n).children = n.children) (cs : List Text)
    (cur : UstarInode) (next : ℕ) (q : List Text) :
    ((ensureParts plenty want (flagged cs) cur next).2.1.locate q).map (look archive) =
      if q = cs then some ((want.fill (reached want (flagged cs) cur)).look archive)
      else ((cur.locate q).map (look archive)).or
        (if q <+: cs then some impliedLook else none) := by
  induction cs generalizing cur next q with
  | nil =>
    show ((want.fill cur).locate q).map _ = _
    cases q with
    | nil => rfl
    | cons d q => simp [locate, child, hkids]
  | cons c cs ih =>
    obtain ⟨-, hmemory, -⟩ | ⟨child, next', hchild, heq⟩ :=
      ensureParts_cons plenty want c cs.isEmpty (flagged cs) cur next
    · cases hmemory
    have hchildName : child.name = c := by
      obtain ⟨hsome, -⟩ | ⟨-, -, rfl, -⟩ := hchild
      · simpa using List.find?_some hsome
      · rfl
    have hreached : reached want (flagged (c :: cs)) cur = reached want (flagged cs) child := by
      obtain ⟨hsome, -⟩ | ⟨hnone, -, rfl, -⟩ := hchild
      · rw [flagged, reached, hsome, Option.getD_some]
      · rw [flagged, reached, hnone, Option.getD_none]
    rw [show flagged (c :: cs) = (c, cs.isEmpty) :: flagged cs from rfl, heq]
    rw [show flagged (c :: cs) = (c, cs.isEmpty) :: flagged cs from rfl] at hreached
    rw [hreached]
    cases q with
    | nil => simp [locate, put, look]
    | cons d q =>
      rw [locate, child_put, name_ensureParts hname, hchildName]
      by_cases hd : d = c
      · subst hd
        rw [if_pos rfl, bind_some, ih]
        simp only [List.cons.injEq, true_and, List.cons_prefix_cons, locate]
        split_ifs with hq hpre
        · rfl
        · -- the child was there, or is a new directory
          obtain ⟨hsome, -⟩ | ⟨hnone, -, rfl, -⟩ := hchild
          · rw [hsome, bind_some]
          · rw [hnone, Option.bind_none, Option.map_none, none_or]
            cases q with
            | nil =>
              have hlast : cs.isEmpty = false := by
                cases cs with
                | nil => exact absurd rfl hq
                | cons _ _ => rfl
              simp [locate, Wanted.make, hlast, make, look, impliedLook, field]
            | cons d' q => simp [locate, Wanted.make, make, child]
        · obtain ⟨hsome, -⟩ | ⟨hnone, -, rfl, -⟩ := hchild
          · rw [hsome, bind_some]
          · have hne : q ≠ [] := fun he => hpre (he ▸ List.nil_prefix)
            obtain ⟨d', q, rfl⟩ := List.exists_cons_of_ne_nil hne
            rw [hnone, Option.bind_none]
            simp [locate, Wanted.make, make, child]
      · rw [if_neg hd, if_neg (by simp [hd]), if_neg (by simp [List.cons_prefix_cons, hd]),
          Option.or_none]
        rfl

end Ensure

/-! ## The tree after some entries -/

/-- What is under a path when some entries have been read: the first of them that goes through it
has made it. -/
def expected (es : List Listed) (q : List Text) : Option Look :=
  (es.find? fun e => q <+: e.path).map fun e => if q = e.path then e.look else impliedLook

/-- The tree is what is expected when the entries have been read. -/
structure Reads (archive : List UInt8) (es : List Listed) (t : UstarInode) : Prop where
  root : t.look archive = impliedLook
  distinct : t.Distinct
  looks : ∀ q, q ≠ [] → (t.locate q).map (look archive) = expected es q

lemma expected_concat (es : List Listed) (e : Listed) (q : List Text) :
    expected (es ++ [e]) q = (expected es q).or (if q = e.path then some e.look
      else if q <+: e.path then some impliedLook else none) := by
  unfold expected
  rw [List.find?_append]
  cases es.find? (fun e => q <+: e.path) with
  | some f => rfl
  | none =>
    by_cases hpath : q = e.path
    · simp [hpath]
    · by_cases hpre : q <+: e.path
      · simp [hpath, hpre]
      · simp [hpath, hpre]

/-- `ensure_path` adds an entry, if what it has made of the end of the path is what was there, or
else the entry. -/
lemma Reads.ensure {archive : List UInt8} (h : Reads archive es t)
    (hne : e.path ≠ []) {want : Wanted} (hname : ∀ n, (want.fill n).name = n.name)
    (hkids : ∀ n, (want.fill n).children = n.children)
    (hlook : (want.fill (reached want (flagged e.path) t)).look archive =
      ((t.locate e.path).map (look archive)).getD e.look) (next : ℕ) :
    Reads archive (es ++ [e]) (ensureParts plenty want (flagged e.path) t next).2.1 where
  root := by
    have := locate_ensureParts archive hname hkids e.path t next []
    rw [if_neg (Ne.symm hne)] at this
    simpa [locate, h.root] using this
  distinct := distinct_ensureParts hkids _ _ _ h.distinct
  looks q hq := by
    rw [locate_ensureParts archive hname hkids, expected_concat, ← h.looks q hq]
    by_cases hpath : q = e.path
    · rw [if_pos hpath, if_pos hpath, hlook, hpath]
      cases t.locate e.path <;> rfl
    · rw [if_neg hpath, if_neg hpath]

/-! ## Reading an entry -/

namespace HeaderOf

variable {e : Listed} {block : List UInt8}

section

variable (h : HeaderOf e block)
include h

lemma length_field (start length : ℕ) (hfits : start + length ≤ BLOCK_SIZE) :
    (field block start length).length = length := by
  have := h.length
  rw [field, List.length_take, List.length_drop]
  omega

lemma isUstar : (ofBlock block).isUstar = true := by
  have hmagic : (field block 257 6).take 5 = field block 257 5 := by
    rw [field, field, List.take_take]
    rfl
  simp only [TarHeader.isUstar, ofBlock, hmagic, h.magic, decide_true]

lemma isZeroBlock_eq_false : isZeroBlock block = false := by
  by_contra hzero
  have hall : ∀ c ∈ block, c = 0 := by simpa [isZeroBlock] using hzero
  have hmem : (0x75 : UInt8) ∈ field block 257 5 := by
    rw [h.magic]
    decide
  exact absurd (hall _ (List.mem_of_mem_drop (List.mem_of_mem_take hmem))) (by decide)

lemma sizeOf_eq : (ofBlock block).sizeOf = e.bytes.length := h.size.parseOctal_eq

lemma modeOf_eq : (ofBlock block).modeOf = e.mode := by
  have hlt := h.mode.lt
  rw [h.length_field 100 8 (by decide)] at hlt
  have hparse : parseOctal (field block 100 8) = e.mode := h.mode.parseOctal_eq
  show parseOctal (field block 100 8) % 2 ^ 32 = e.mode
  rw [hparse, Nat.mod_eq_of_lt (Nat.lt_trans hlt (by decide))]

lemma kind_eq : (ofBlock block).kind = if e.content.isSome then .file else .directory := by
  have hflag := h.typeFlag
  have hkind : (ofBlock block).typeFlag = block.getD 156 0 := rfl
  unfold kind
  rw [hkind]
  split_ifs at hflag ⊢ <;> simp_all

/-- The path that is put together from the two fields leads to the entry. -/
lemma joined_eq (hne : e.path ≠ []) (hnames : ∀ c ∈ e.path, IsName c) :
    (ofBlock block).joined.length < PATH_SIZE ∧ cleanPath (ofBlock block).joined ≠ [] ∧
      parts (cleanPath (ofBlock block).joined) = flagged e.path := by
  obtain ⟨front, name, lead, trail, hfront, hname, hpath, hlead, htrail, hlen⟩ := h.path
  have hjoined : (ofBlock block).joined = lead ++ [SLASH].intercalate e.path ++ trail := by
    have hfield : field block 345 155 ≠ [] := fun he => by
      have := h.length_field 345 155 (by decide)
      rw [he] at this
      cases this
    show (if (field block 345 155).head? ≠ some 0 then textOf (field block 345 155) ++
      [SLASH] else []) ++
      textOf (field block 0 100) = _
    rw [hfront.textOf_eq, hname.textOf_eq, ← hpath]
    by_cases hempty : front = []
    · rw [if_neg (not_not_intro ((hfront.head?_eq_zero_iff hfield).mpr hempty)), if_pos hempty]
      rfl
    · rw [if_pos (fun hzero => hempty ((hfront.head?_eq_zero_iff hfield).mp hzero)), if_neg hempty]
      simp
  have htrail' : trail = [] ∨ trail = [SLASH] := htrail.imp id And.left
  rw [hjoined, cleanPath_intercalate hne hnames hlead]
  refine ⟨Nat.lt_succ_of_le hlen, fun hempty => ?_, parts_intercalate hne hnames htrail'⟩
  have hparts := parts_intercalate hne hnames htrail'
  rw [hempty] at hparts
  obtain ⟨c, cs, hcs⟩ := List.exists_cons_of_ne_nil hne
  rw [hcs] at hparts
  cases hparts

end

end HeaderOf

/-- No file is listed a second time, and nothing is listed below a file. -/
lemma FormsTree.expected_eq_none {before after : List Listed} (h : FormsTree (before ++ e :: after))
    (hfile : e.content.isSome) : expected before e.path = none := by
  unfold expected
  rw [List.find?_eq_none.mpr, Option.map_none]
  intro f hf hpre
  have hpre : e.path <+: f.path := by simpa using hpre
  have hsame := h.files e (by simp) f (by simp [hf]) hfile hpre
  have hdist := h.distinct
  rw [List.map_append, map_cons, List.nodup_append] at hdist
  exact hdist.2.2 f.path (List.mem_map_of_mem hf) e.path mem_cons_self hsame.symm

namespace Ustar

variable {archive front tail header : List UInt8} {e : Listed} {es : List Listed}

lemma field_append (front middle tail : List UInt8) :
    field (front ++ (middle ++ tail)) front.length middle.length = middle := by
  rw [field, List.drop_left, List.take_left]

lemma turn_entry (h : HeaderOf e header) (hne : e.path ≠ []) (hnames : ∀ c ∈ e.path, IsName c)
    (harchive : archive = front ++ (header ++ tail)) (fs : UstarFileSystem) :
    turn archive plenty ⟨front.length, fs⟩ =
      .next ⟨front.length + BLOCK_SIZE + padded e.bytes.length,
      (fs.enter plenty (.ofBlock header) (cleanPath (ofBlock header).joined)
        (front.length + BLOCK_SIZE)).2⟩ := by
  have hblock : field archive front.length BLOCK_SIZE = header := by
    rw [harchive, ← h.length]
    exact field_append front header tail
  have hhdr : headerAt archive front.length = some (.ofBlock header) := by
    unfold headerAt
    rw [hblock]
    refine if_pos ⟨?_, h.isZeroBlock_eq_false, h.isUstar⟩
    rw [harchive, length_append, length_append, h.length]
    omega
  have hok := fs.enter_plenty (.ofBlock header) (cleanPath (ofBlock header).joined)
    (front.length + BLOCK_SIZE)
  rw [turn_eq]
  simp only [hhdr, if_pos (h.joined_eq hne hnames).1, h.sizeOf_eq]
  split
  · next heq =>
      rw [heq] at hok
      cases hok
  · next heq => rw [heq]

lemma reads_enter (h : HeaderOf e header) (hne : e.path ≠ []) (hnames : ∀ c ∈ e.path, IsName c)
    (hmode : e.mode ≠ 0) (harchive : archive = front ++ (header ++ (e.bytes ++ tail)))
    {fs : UstarFileSystem} (hreads : Reads archive es fs.root)
    (hnew : e.content.isSome → expected es e.path = none) :
    Reads archive (es ++ [e]) (fs.enter plenty (.ofBlock header) (cleanPath (ofBlock header).joined)
      (front.length + BLOCK_SIZE)).2.root := by
  obtain ⟨-, hpath, hparts⟩ := h.joined_eq hne hnames
  unfold enter
  rw [if_neg hpath, h.kind_eq]
  cases hcont : e.content with
  | none =>
    simp only [Option.isSome_none, Bool.false_eq_true, if_false, ensurePath, hparts]
    refine hreads.ensure hne (fun _ => rfl) (fun _ => rfl) ?_ _
    rw [look_reached hne]
    cases fs.root.locate e.path with
    | some n => rfl
    | none =>
      simp [wantsDirectory, make, look, Listed.look, Listed.type, Listed.bytes, hcont,
        h.modeOf_eq, hmode, field]
  | some bytes =>
    have hnone : fs.root.locate e.path = none := by
      have := hreads.looks e.path hne
      rw [hnew (by rw [hcont]; rfl)] at this
      simpa using this
    have hbytes : field archive (front.length + BLOCK_SIZE) e.bytes.length = e.bytes := by
      rw [harchive, ← List.append_assoc, ← h.length, ← length_append]
      exact field_append (front ++ header) e.bytes tail
    have hfile : Reads archive (es ++ [e]) (fs.ensurePath plenty
        (cleanPath (ofBlock header).joined)
        ((ofBlock header).wantsFile (front.length + BLOCK_SIZE))).2.root := by
      simp only [ensurePath, hparts]
      refine hreads.ensure hne (fun _ => rfl) (fun _ => rfl) ?_ _
      rw [look_reached hne, hnone]
      simp [wantsFile, make, look, Listed.look, Listed.type, hcont, h.modeOf_eq, hmode,
        h.sizeOf_eq, hbytes]
    simp only [Option.isSome_some, if_true]
    split
    · next heq => rwa [heq] at hfile
    · next heq =>
        rw [heq] at hfile
        exact hfile

lemma parseWithin_archive {rest : List UInt8} (hrest : Archive es rest) {before : List Listed}
    (htree : FormsTree (before ++ es)) (harchive : archive = front ++ rest) {fs : UstarFileSystem}
    (hreads : Reads archive before fs.root) {fuel : ℕ}
    {result : Except UstarStop Unit × UstarFileSystem}
    (hparse : parseWithin archive plenty fuel ⟨front.length, fs⟩ = some result) :
    result.1 = .ok () ∧ Reads archive (before ++ es) result.2.root := by
  induction hrest generalizing before front fs fuel with
  | done zeros =>
    have hhdr : headerAt archive front.length = none := by
      refine if_neg fun h => ?_
      have hall : ∀ c ∈ field archive front.length BLOCK_SIZE, c = 0 := by
        intro c hc
        rw [harchive, field, List.drop_left] at hc
        exact List.eq_of_mem_replicate (List.mem_of_mem_take hc)
      have : isZeroBlock (field archive front.length BLOCK_SIZE) =
        true := by simpa [isZeroBlock] using hall
      rw [h.2.1] at this
      cases this
    cases fuel with
    | zero => cases hparse
    | succ fuel =>
      simp only [parseWithin, turn_eq, hhdr, Option.some.injEq] at hparse
      rw [← hparse, List.append_nil]
      exact ⟨rfl, hreads⟩
  | @entry e es header padding rest hhdr hpadding hrest ih =>
    have hmem : e ∈ before ++ e :: es := by simp
    have hne := htree.nonempty e hmem
    have hnames := htree.names e hmem
    cases fuel with
    | zero => cases hparse
    | succ fuel =>
      rw [parseWithin, turn_entry hhdr hne hnames harchive] at hparse
      have hlen : front.length + BLOCK_SIZE + padded e.bytes.length =
          (front ++ (header ++ (e.bytes ++ padding))).length := by
        simp only [length_append, hhdr.length, ← hpadding]
        omega
      rw [hlen] at hparse
      have hreads' := reads_enter hhdr hne hnames (htree.modes e hmem) harchive hreads
        htree.expected_eq_none
      rw [List.append_cons] at htree ⊢
      exact ih htree (by simp [harchive]) hreads' hparse

lemma reads_empty (archive : List UInt8) : Reads archive [] empty.root where
  root := rfl
  distinct := distinct_iff.mpr ⟨List.nodup_nil, fun c hc => nomatch hc⟩
  looks q hq := by
    obtain ⟨c, q, rfl⟩ := List.exists_cons_of_ne_nil hq
    rfl

end Ustar

/-! ## What is read is what was written -/

/-- An entry is found under its path, with its type, its mode and its bytes. -/
def Listed.FoundIn (archive : List UInt8) (t : UstarInode) (e : Listed) : Prop :=
  ∃ n, t.resolve (components (render e.path)) = .ok n ∧ n.type = e.type ∧ n.mode = e.mode ∧
    ∀ bytes, e.content = some bytes →
      n.size = bytes.length ∧ ∀ offset length, n.read archive offset length =
      .ok ((bytes.drop offset).take length)

/-- `parse` succeeds, every entry is found, and there is nothing else but the directories above. -/
def RoundTrips (archive : List UInt8) (es : List Listed) : Prop :=
  ∃ filesystem, Ustar.parse archive plenty = some (.ok (), filesystem) ∧
  (∀ e ∈ es, e.FoundIn archive filesystem.root) ∧
    ∀ q n, filesystem.root.At q n → q = [] ∨ ∃ e ∈ es, q <+: e.path

/-- A directory that is listed after something below it has mode 0755. -/
def ModesKept (es : List Listed) : Prop :=
  es.Pairwise fun e f => f.content = none → f.path <+: e.path → f.mode = 0o755

lemma locate_of_resolve (hres : t.resolve q = .ok n) : t.locate q = some n := by
  induction q generalizing t with
  | nil => exact congrArg some (Except.ok.inj hres)
  | cons c q ih =>
    unfold resolve lookup at hres
    split_ifs at hres
    cases hchild : t.child c with
    | none => simp [hchild] at hres
    | some child =>
      simp only [hchild] at hres
      rw [locate, hchild, bind_some]
      exact ih hres

lemma resolve_of_locate (hlocate : t.locate q = some n)
    (habove : ∀ p, p <+: q → p ≠ q → ∀ m, t.locate p = some m → m.type = .directory) :
    t.resolve q = .ok n := by
  induction q generalizing t with
  | nil => exact congrArg Except.ok (Option.some.inj hlocate)
  | cons c q ih =>
    obtain ⟨child, hchild, hlocate⟩ := Option.bind_eq_some_iff.mp hlocate
    have htype : t.type = .directory := habove [] List.nil_prefix (by simp) t rfl
    have hlook : t.lookup c = .ok child := by simp [lookup, htype, hchild]
    rw [resolve, hlook]
    refine ih hlocate fun p hp hne m hm => ?_
    refine habove (c :: p) (List.cons_prefix_cons.mpr ⟨rfl, hp⟩) (by simpa using hne) m ?_
    rw [locate, hchild, bind_some, hm]

lemma read_of_look {archive : List UInt8} {mode : ℕ} {bytes : List UInt8}
    (hlook : n.look archive = (.regular, mode, bytes.length, bytes)) (offset length : ℕ) :
    n.read archive offset length = .ok ((bytes.drop offset).take length) := by
  simp only [look, Prod.mk.injEq] at hlook
  obtain ⟨htype, -, hsize, hbytes⟩ := hlook
  unfold UstarInode.read
  rw [if_neg (not_not_intro htype), hsize]
  split_ifs with hend
  · rw [List.drop_eq_nil_of_le hend, List.take_nil]
  · have hlen := congrArg List.length hbytes
    rw [field, List.length_take, List.length_drop, hsize] at hlen
    rw [readBytes, if_pos (by omega)]
    conv_rhs => rw [← hbytes, hsize]
    rw [field, field, List.drop_take, List.drop_drop, List.take_take]

lemma expected_eq_some {l : Look} (h : expected es q = some l) :
    ∃ e ∈ es, q <+: e.path ∧ l = if q = e.path then e.look else impliedLook := by
  obtain ⟨e, hfind, rfl⟩ := map_eq_some_iff.mp h
  exact ⟨e, List.mem_of_find?_eq_some hfind, by simpa using List.find?_some hfind, rfl⟩

namespace FormsTree

variable {es : List Listed}

lemma above_directory (h : FormsTree es) {e : Listed} (he : e ∈ es) {q : List Text}
    (hq : q <+: e.path) (hne : q ≠ e.path) {l : Look} (hl : expected es q = some l) :
    l.1 = .directory := by
  obtain ⟨f, hf, -, rfl⟩ := expected_eq_some hl
  split_ifs with hpath
  · rw [hpath] at hq hne
    cases hcont : f.content with
    | none => simp [Listed.look, Listed.type, hcont]
    | some bytes => exact absurd (h.files f hf e he (by rw [hcont]; rfl) hq) hne
  · rfl

/-- What is expected at the path of an entry: the entry, unless something below it was listed
before. -/
lemma expected_eq (h : FormsTree es) {before after : List Listed} {e : Listed}
    (hes : es = before ++ e :: after) :
    expected es e.path =
      some (if ∃ f ∈ before, e.path <+: f.path then impliedLook else e.look) := by
  have hdist := h.distinct
  rw [hes, List.map_append, map_cons, List.nodup_append] at hdist
  unfold expected
  rw [hes, List.find?_append]
  split_ifs with hbefore
  · obtain ⟨f, hf, hpre⟩ := hbefore
    obtain ⟨g, hg⟩ : ∃ g, before.find? (fun f => e.path <+: f.path) = some g :=
      Option.isSome_iff_exists.mp (List.find?_isSome.mpr ⟨f, hf, by simpa using hpre⟩)
    have hne : e.path ≠ g.path := fun heq =>
      hdist.2.2 g.path (List.mem_map_of_mem (List.mem_of_find?_eq_some hg)) e.path
        mem_cons_self heq.symm
    rw [hg, Option.some_or, map_some, if_neg hne]
  · have hnone : before.find? (fun f => e.path <+: f.path) = none :=
      List.find?_eq_none.mpr fun f hf => by simpa using fun hpre => hbefore ⟨f, hf, hpre⟩
    rw [hnone, none_or, List.find?_cons_of_pos (by simp), map_some, if_pos rfl]

end FormsTree

lemma modesKept_iff : ModesKept es ↔ ∀ before e after, es = before ++ e :: after →
    e.content = none → (∃ f ∈ before, e.path <+: f.path) → e.mode = 0o755 := by
  constructor
  · rintro h before e after rfl hcont ⟨f, hf, hpre⟩
    exact (List.pairwise_append.mp h).2.2 f hf e mem_cons_self hcont hpre
  · intro h
    refine List.pairwise_iff_forall_sublist.mpr fun {f e} hsublist hcont hpre => ?_
    obtain ⟨before, rest, rfl, hf, hrest⟩ := List.cons_sublist_iff.mp hsublist
    obtain ⟨middle, after, rfl⟩ := List.append_of_mem (List.singleton_sublist.mp hrest)
    exact h (before ++ middle) e after (by simp) hcont ⟨f, by simp [hf], hpre⟩

lemma Reads.foundIn {archive : List UInt8} (h : Reads archive es t)
    (htree : FormsTree es) (he : e ∈ es) (hlook : expected es e.path = some e.look) :
    e.FoundIn archive t := by
  obtain ⟨n, hn, hsame⟩ := map_eq_some_iff.mp ((h.looks e.path (htree.nonempty e he)).trans hlook)
  refine ⟨n, ?_, congrArg Prod.fst hsame, congrArg (fun l : Look => l.2.1) hsame,
    fun bytes hbytes => ?_⟩
  · rw [components_render (htree.names e he)]
    refine resolve_of_locate hn fun q hq hne m hm => ?_
    rcases eq_or_ne q [] with rfl | hempty
    · obtain rfl : t = m := Option.some.inj hm
      exact congrArg Prod.fst h.root
    · refine htree.above_directory he hq hne ((h.looks q hempty).symm.trans ?_)
        (l := m.look archive)
      rw [hm, map_some]
  · have hreg : n.look archive = (.regular, e.mode, bytes.length, bytes) := by
      rw [hsame]
      simp [Listed.look, Listed.type, Listed.bytes, hbytes]
    exact ⟨congrArg (fun l : Look => l.2.2.1) hreg, read_of_look hreg⟩

/-- **Round trip.**  What is written as an archive is read back, in any order and with directories
left out, exactly when the directories that are listed after something below them have mode 0755. -/
theorem ustar_round_trip_iff {es : List Listed} {archive : List UInt8} (htree : FormsTree es)
    (harchive : Archive es archive) : RoundTrips archive es ↔ ModesKept es := by
  obtain ⟨⟨result, filesystem⟩, hparse⟩ :=
    Option.isSome_iff_exists.mp (Ustar.parse_isSome archive plenty)
  obtain ⟨rfl, hreads⟩ : result = .ok () ∧ Reads archive es filesystem.root :=
    Ustar.parseWithin_archive harchive (show FormsTree ([] ++ es) from htree)
    (List.nil_append archive).symm
      (Ustar.reads_empty archive) hparse
  rw [modesKept_iff]
  constructor
  · rintro ⟨filesystem', hparse', hfound, -⟩ before e after hes hcontent hbefore
    obtain rfl : filesystem = filesystem' := by
      rw [hparse, Option.some.injEq] at hparse'
      exact congrArg Prod.snd hparse'
    have he : e ∈ es := by simp [hes]
    obtain ⟨n, hresolve, -, hmode, -⟩ := hfound e he
    rw [components_render (htree.names e he)] at hresolve
    have hlook := hreads.looks e.path (htree.nonempty e he)
    rw [locate_of_resolve hresolve, htree.expected_eq hes, if_pos hbefore, map_some,
      Option.some.injEq] at hlook
    rw [← hmode]
    exact congrArg (fun l : Look => l.2.1) hlook
  · intro hmodes
    refine ⟨filesystem, hparse, fun e he => hreads.foundIn htree he ?_, fun q n hat => ?_⟩
    · obtain ⟨before, after, hes⟩ := List.append_of_mem he
      rw [htree.expected_eq hes]
      split_ifs with hbefore
      · -- something below it was listed before, so it is a directory
        have hcontent : e.content = none := by
          by_contra hfile
          have hnone := (hes ▸ htree).expected_eq_none (Option.isSome_iff_ne_none.mpr hfile)
          obtain ⟨f, hf, hpre⟩ := hbefore
          rw [expected, Option.map_eq_none_iff, List.find?_eq_none] at hnone
          exact hnone f hf (by simpa using hpre)
        simp [Listed.look, impliedLook, Listed.type, Listed.bytes, hcontent,
          hmodes before e after hes hcontent hbefore]
      · rfl
    · rcases eq_or_ne q [] with hempty | hempty
      · exact Or.inl hempty
      · have hlook := hreads.looks q hempty
        rw [hat.locate_eq hreads.distinct, map_some] at hlook
        obtain ⟨e, he, hpre, -⟩ := expected_eq_some hlook.symm
        exact Or.inr ⟨e, he, hpre⟩

/-- The directory `a`, with mode 0700. -/
def directoryA : Listed := ⟨[[0x61]], 0o700, none⟩

/-- The file `a/b`, of one byte, with mode 0644. -/
def fileB : Listed := ⟨[[0x61], [0x62]], 0o644, some [0x21]⟩

/-- The header of `a`, as `./a/`. -/
def headerA :
    List UInt8 := Ustar.block [0x2e, 0x2f, 0x61, 0x2f] [0x30, 0x37, 0x30, 0x30] [0x30] 0x35 []

/-- The header of `a/b`, split between `prefix` and `name`. -/
def headerB : List UInt8 := Ustar.block [0x62] [0x36, 0x34, 0x34] [0x31] 0x30 [0x61]

/-- The file, padded to a block. -/
def dataB : List UInt8 := [0x21].rightpad BLOCK_SIZE 0

/-- The directory first. -/
def inOrder : List UInt8 := headerA ++ headerB ++ dataB ++ replicate 1024 0

/-- The file first. -/
def outOfOrder : List UInt8 := headerB ++ dataB ++ headerA ++ replicate 1024 0

lemma headerOf_directoryA : HeaderOf directoryA headerA where
  length := by decide +kernel
  path := ⟨[], [0x2e, 0x2f, 0x61, 0x2f], [0x2e, SLASH], [SLASH],
    ⟨replicate 155 0, by decide +kernel, by decide, Or.inr rfl⟩,
    ⟨replicate 96 0, by decide +kernel, by decide, Or.inr rfl⟩, rfl, Or.inr rfl,
    Or.inr ⟨rfl, rfl⟩, by decide⟩
  mode := ⟨[0, 7, 0, 0], [0, 0, 0, 0], by decide +kernel, by decide, by decide, rfl⟩
  size := ⟨[0], replicate 11 0, by decide +kernel, by decide, by decide, rfl⟩
  typeFlag := by decide +kernel
  magic := by decide +kernel

lemma headerOf_fileB : HeaderOf fileB headerB where
  length := by decide +kernel
  path := ⟨[0x61], [0x62], [], [], ⟨replicate 154 0, by decide +kernel, by decide, Or.inr rfl⟩,
    ⟨replicate 99 0, by decide +kernel, by decide, Or.inr rfl⟩, rfl, Or.inl rfl,
    Or.inl rfl, by decide⟩
  mode := ⟨[6, 4, 4], [0, 0, 0, 0, 0], by decide +kernel, by decide, by decide, rfl⟩
  size := ⟨[1], replicate 11 0, by decide +kernel, by decide, by decide, rfl⟩
  typeFlag := by decide +kernel
  magic := by decide +kernel

lemma archive_inOrder : Archive [directoryA, fileB] inOrder := by
  have hall : Archive [directoryA, fileB] (headerA ++ (directoryA.bytes ++ ([] ++
      (headerB ++ (fileB.bytes ++ (replicate 511 0 ++ replicate 1024 0)))))) :=
    .entry headerOf_directoryA rfl (.entry headerOf_fileB (by decide +kernel) (.done 1024))
  have heq : inOrder = headerA ++ (directoryA.bytes ++ ([] ++
      (headerB ++ (fileB.bytes ++ (replicate 511 0 ++ replicate 1024 0))))) := by decide +kernel
  rwa [heq]

lemma archive_outOfOrder : Archive [fileB, directoryA] outOfOrder := by
  have hall : Archive [fileB, directoryA] (headerB ++ (fileB.bytes ++ (replicate 511 0 ++
      (headerA ++ (directoryA.bytes ++ ([] ++ replicate 1024 0)))))) :=
    .entry headerOf_fileB (by decide +kernel) (.entry headerOf_directoryA rfl (.done 1024))
  have heq : outOfOrder = headerB ++ (fileB.bytes ++ (replicate 511 0 ++
      (headerA ++ (directoryA.bytes ++ ([] ++ replicate 1024 0))))) := by decide +kernel
  rwa [heq]

lemma formsTree_directoryA_fileB (hes : es = [directoryA, fileB] ∨ es = [fileB, directoryA]) :
    FormsTree es := by
  have hmem : ∀ e ∈ es, e = directoryA ∨ e = fileB := by
    obtain rfl | rfl := hes
    · simp
    · simp [or_comm]
  refine ⟨fun e he => ?_, fun e he => ?_, fun e he => ?_, ?_, fun e he f hf => ?_⟩
  · obtain rfl | rfl := hmem e he <;> decide
  · obtain rfl | rfl := hmem e he <;> simp [directoryA, fileB, IsName] <;> decide
  · obtain rfl | rfl := hmem e he <;> decide
  · obtain rfl | rfl := hes <;> decide
  · obtain rfl | rfl := hmem e he <;> obtain rfl | rfl := hmem f hf <;> decide

/-- With the directory first, both are read back. -/
theorem ustar_round_trip_inOrder :
    ModesKept [directoryA, fileB] ∧ RoundTrips inOrder [directoryA, fileB] := by
  have hmodes : ModesKept [directoryA, fileB] := by
    unfold ModesKept
    decide
  exact ⟨hmodes, (ustar_round_trip_iff (formsTree_directoryA_fileB (.inl rfl)) archive_inOrder).mpr
    hmodes⟩

/-- With the file first, the directory is read back with another mode. -/
theorem mode_lost : FormsTree [fileB, directoryA] ∧ Archive [fileB, directoryA] outOfOrder ∧
    ∃ filesystem n, Ustar.parse outOfOrder plenty = some (.ok (), filesystem) ∧
      filesystem.root.resolve directoryA.path = .ok n ∧ n.mode = 0o755 ∧
        directoryA.mode = 0o700 := by
  refine ⟨formsTree_directoryA_fileB (.inr rfl), archive_outOfOrder, ?_⟩
  have hview : (Ustar.parse outOfOrder plenty).map (fun r =>
      (r.1, (r.2.root.resolve directoryA.path).toOption.map (·.mode))) =
      some (.ok (), some 0o755) := by decide +kernel
  obtain ⟨⟨result, filesystem⟩, hparse, heq⟩ := map_eq_some_iff.mp hview
  simp only [Prod.mk.injEq] at heq
  obtain ⟨rfl, hmode⟩ := heq
  obtain ⟨n, hn, hmode⟩ := map_eq_some_iff.mp hmode
  cases hresolve : filesystem.root.resolve directoryA.path with
  | error e =>
    rw [hresolve] at hn
    cases hn
  | ok m =>
    obtain rfl : m = n := by
      rw [hresolve] at hn
      exact Option.some.inj hn
    exact ⟨filesystem, m, hparse, hresolve, hmode, rfl⟩

end ShitOs
