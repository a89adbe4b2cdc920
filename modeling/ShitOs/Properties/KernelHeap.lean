import ShitOs.Framework.Transition
import ShitOs.Construction.KernelHeap
import ShitOs.Properties.Physical

/-!
# The kernel heap is sound while no size wraps

`HeapClient.Sound` says what a heap owes its users: room for every live allocation, no overlaps
among these and the chunks on free lists, and a right byte count.

`kernel_heap_sound` proves it after every run of calls in which no requested size is so large
that adding the header wraps (`NoWrap`).  `kmalloc_wrapped_size` is what happens otherwise:
`class_for` computes a small sum, and 16 bytes are handed out for a request of `2 ^ 64 - 1`.

The proof keeps a `Layout`: what kind of block starts at each address, and which block each byte
belongs to. Blocks cannot overlap because a byte has one owner; and since all start at multiples of
16, the header words of one are never those of another.
-/

namespace ShitOs

open BitVec (allOnes getLsbD_append ofNat toNat_add toNat_ofNat)
open List (map_cons mem_cons mem_cons_of_mem mem_cons_self mem_map nodup_cons sum_cons)
open Function PageAllocator Memory

variable {a : ℕ} {size : U64}

/-! ## Addresses and sizes -/

lemma physToVirt_add (a i : ℕ) : physToVirt a + ofNat 64 i = physToVirt (a + i) := by
  rw [physToVirt, physToVirt, BitVec.add_assoc, ← BitVec.ofNat_add]

lemma virtToPhys_physToVirt (h : a < 2 ^ 64) : virtToPhys (physToVirt a) = a := by
  rw [virtToPhys, physToVirt, BitVec.add_comm, BitVec.add_sub_cancel, toNat_ofNat,
    Nat.mod_eq_of_lt h]

lemma physToVirt_injective {b : ℕ} (ha : a < 2 ^ 64) (hb : b < 2 ^ 64)
    (h : physToVirt a = physToVirt b) : a = b := by
  rw [← virtToPhys_physToVirt ha, h, virtToPhys_physToVirt hb]

lemma toNat_physToVirt (h : a < 2 ^ 47) : (physToVirt a).toNat = 0xFFFF800000000000 + a := by
  rw [physToVirt, toNat_add, toNat_ofNat,
    show HHDM_BASE.toNat = 0xFFFF800000000000 from rfl]
  omega

lemma physToVirt_ne_zero (h : a < 2 ^ 47) : physToVirt a ≠ 0 := by
  intro hzero
  have hval := toNat_physToVirt h
  rw [hzero, show (0 : U64).toNat = 0 from rfl] at hval
  omega

lemma chunkSize_spec : ∀ k < CLASS_COUNT,
    32 ≤ chunkSize k ∧ chunkSize k ≤ 2048 ∧ chunkSize k % 32 = 0 ∧ 4096 % chunkSize k = 0 := by
  decide

/-- Unless the header makes the sum wrap, a class has room for what it is chosen for. -/
lemma classFor_spec (hsize : size.toNat + 16 < 2 ^ 64) : classFor size = CLASS_LARGE ∨
      classFor size < CLASS_COUNT ∧ size.toNat + 16 ≤ chunkSize (classFor size) := by
  unfold classFor
  cases hfind : SIZE_CLASSES.findIdx? fun c => size + HEADER_SIZE ≤ c with
  | none => exact .inl rfl
  | some k =>
    obtain ⟨hk, hle, -⟩ := List.findIdx?_eq_some_iff_getElem.mp hfind
    refine .inr ⟨hk, ?_⟩
    have hle' : size + HEADER_SIZE ≤ SIZE_CLASSES[k] := by simpa using hle
    have hsum : (size + HEADER_SIZE).toNat = size.toNat + 16 := by
      rw [toNat_add]
      exact Nat.mod_eq_of_lt hsize
    rw [BitVec.le_def, hsum] at hle'
    simpa [chunkSize, List.getElem?_eq_getElem hk] using hle'

lemma toNat_pagesFor (size : U64) :
    (pagesFor size).toNat = (size.toNat + 16 + 4095) % 2 ^ 64 / 4096 := by
  simp only [pagesFor, BitVec.toNat_udiv, BitVec.toNat_sub, toNat_add,
    show HEADER_SIZE.toNat = 16 from rfl, show (4096 : U64).toNat = 4096 from rfl,
    show (1 : U64).toNat = 1 from rfl]
  omega

/-- Where the sum wraps although the header fits, no page is asked for. -/
lemma pagesFor_pos (hsize : size.toNat + 16 < 2 ^ 64)
    (hpos : 0 < (pagesFor size).toNat) : size.toNat + 16 + 4095 < 2 ^ 64 := by
  rw [toNat_pagesFor] at hpos
  omega

lemma magicOf_headerWord (k : ℕ) : magicOf (headerWord k) = HEADER_MAGIC := by
  refine BitVec.eq_of_getLsbD_eq fun i hi => ?_
  rw [magicOf, headerWord, BitVec.getLsbD_extractLsb', getLsbD_append]
  simp [hi]

lemma sizeClassOf_headerWord {k : ℕ} (hk : k < 2 ^ 16) : sizeClassOf (headerWord k) = k := by
  have hbits : (headerWord k).extractLsb' 32 16 = ofNat 16 k := by
    refine BitVec.eq_of_getLsbD_eq fun i hi => ?_
    rw [headerWord, BitVec.getLsbD_extractLsb', getLsbD_append, getLsbD_append]
    simp [hi]
  rw [sizeClassOf, hbits, toNat_ofNat, Nat.mod_eq_of_lt hk]

lemma physToVirt_sub_header (a : ℕ) : physToVirt (a + 16) - HEADER_SIZE = physToVirt a := by
  rw [← physToVirt_add]
  exact BitVec.add_sub_cancel ..

/-! ## Soundness -/

/-- Two ranges of addresses do not overlap. -/
def Apart (a n b m : ℕ) : Prop := a + n ≤ b ∨ b + m ≤ a

/-- `chunks` is the free list that starts with `pointer`. -/
def IsFreeList (words : Memory.Words) : U64 → List ℕ → Prop
  | pointer, [] => pointer = 0
  | pointer, a :: chunks => pointer = physToVirt a ∧ IsFreeList words (words (a / 8)) chunks

lemma IsFreeList.congr {words words' : Words} :
    ∀ {chunks : List ℕ} {pointer : U64}, (∀ a ∈ chunks, words' (a / 8) = words (a / 8)) →
      IsFreeList words pointer chunks → IsFreeList words' pointer chunks
  | [], _, _, h => h
  | a :: _, _, hsame, ⟨hp, h⟩ => ⟨hp, by
      rw [hsame a mem_cons_self]
      exact IsFreeList.congr (fun c hc => hsame c (mem_cons_of_mem a hc)) h⟩

lemma IsFreeList.link {words : Words} : ∀ {chunks : List ℕ} {pointer : U64},
    IsFreeList words pointer chunks → a ∈ chunks →
      words (a / 8) = 0 ∨ ∃ c ∈ chunks, words (a / 8) = physToVirt c
  | c :: [], _, h, ha => by
    rw [List.mem_singleton.mp ha]
    exact .inl h.2
  | c :: d :: chunks, _, h, ha => by
    rcases mem_cons.mp ha with rfl | ha
    · exact .inr ⟨d, by simp, h.2.1⟩
    · exact (IsFreeList.link h.2 ha).imp_right fun ⟨x, hx, hlink⟩ =>
        ⟨x, mem_cons_of_mem c hx, hlink⟩

namespace KernelHeap

/-- Where the chunk or page run of a live pointer starts. -/
def blockStart (pointer : U64) : ℕ := virtToPhys (pointer - HEADER_SIZE)

/-- Its length, as its header gives it. -/
def blockLength (h : KernelHeap) (pointer : U64) : ℕ :=
  let header := pointer - HEADER_SIZE
  if sizeClassOf (h.load header) = CLASS_LARGE then
    PAGE_SIZE * (pagesFor (h.load (header + 8))).toNat
  else chunkSize (sizeClassOf (h.load header))

/-- What its start is a multiple of. -/
def blockUnit (h : KernelHeap) (pointer : U64) : ℕ :=
  if sizeClassOf (h.load (pointer - HEADER_SIZE)) = CLASS_LARGE then PAGE_SIZE
  else chunkSize (sizeClassOf (h.load (pointer - HEADER_SIZE)))

end KernelHeap

namespace HeapClient

open KernelHeap

/-- What the heap owes its users. -/
structure Sound (s : HeapClient) : Prop where
  /-- Pointers are aligned to 16 bytes. -/
  aligned : ∀ b ∈ s.live, b.1.toNat % 16 = 0
  /-- There is room for the payload behind the header. -/
  room : ∀ b ∈ s.live, b.2.toNat + 16 ≤ blockLength s.heap b.1
  /-- The block is a whole chunk, or a run of whole pages, inside the memory of the machine. -/
  whole : ∀ b ∈ s.live, blockStart b.1 % blockUnit s.heap b.1 = 0 ∧
    blockStart b.1 + blockLength s.heap b.1 ≤ PAGE_SIZE * s.heap.pages.totalPages
  /-- No two live blocks overlap. -/
  disjoint : s.live.Pairwise fun b c =>
    Apart (blockStart b.1) (blockLength s.heap b.1) (blockStart c.1) (blockLength s.heap c.1)
  /-- The byte count is the sum of the payload sizes. -/
  counted : s.heap.bytesInUse = (s.live.map Prod.snd).sum
  /-- The free lists consist of whole, distinct chunks that overlap no live block. -/
  free : ∀ k < CLASS_COUNT, ∃ chunks : List ℕ,
    IsFreeList s.heap.words (s.heap.freeLists k) chunks ∧ chunks.Nodup ∧
      ∀ a ∈ chunks, a % chunkSize k = 0 ∧
        a + chunkSize k ≤ PAGE_SIZE * s.heap.pages.totalPages ∧
        ∀ b ∈ s.live, Apart a (chunkSize k) (blockStart b.1) (blockLength s.heap b.1)

/-! ## Layouts -/

/-- What a block is used for. -/
inductive Block
  | free (k : ℕ)
  | small (k : ℕ) (size : U64)
  | large (size : U64)

namespace Block

variable {b : Block}

/-- How long a block is. -/
def length : Block → ℕ
  | .free k => chunkSize k
  | .small k _ => chunkSize k
  | .large size => PAGE_SIZE * ((size.toNat + 16 + 4095) / 4096)

/-- What its start is a multiple of. -/
def unit : Block → ℕ
  | .free k => chunkSize k
  | .small k _ => chunkSize k
  | .large _ => PAGE_SIZE

/-- What its header says. -/
def sizeClass : Block → ℕ
  | .free k => k
  | .small k _ => k
  | .large _ => CLASS_LARGE

/-- A class that exists, and room for the payload. -/
def Ok : Block → Prop
  | .free k => k < CLASS_COUNT
  | .small k size => k < CLASS_COUNT ∧ size.toNat + 16 ≤ chunkSize k
  | .large size => size.toNat + 16 + 4095 < 2 ^ 64

/-- A block that holds an allocation of `size` bytes. -/
def Holds (size : U64) (b : Block) : Prop := (∃ k, b = .small k size) ∨ b = .large size

lemma Ok.extent (h : b.Ok) : 16 < b.length ∧ b.unit % 16 = 0 := by
  cases b with
  | free k =>
    have := chunkSize_spec k h
    simp only [length, unit]
    omega
  | small k size =>
    have := chunkSize_spec k h.1
    simp only [length, unit]
    omega
  | large size =>
    refine ⟨?_, by simp [unit, PAGE_SIZE]⟩
    simp only [length, PAGE_SIZE]
    omega

lemma Ok.length_pos (h : b.Ok) : 16 < b.length := h.extent.1

lemma Ok.aligned (h : b.Ok) {a : ℕ} (ha : a % b.unit = 0) : a % 16 = 0 :=
  Nat.mod_eq_zero_of_dvd
    (Nat.dvd_trans (Nat.dvd_of_mod_eq_zero h.extent.2) (Nat.dvd_of_mod_eq_zero ha))

end Block

/-- Which block starts at an address, which block a byte belongs to, and the free lists. -/
structure Layout where
  block : ℕ → Option Block
  owner : ℕ → Option ℕ
  free : ℕ → List ℕ

/-- The header of a block that is not free. -/
def HasHeader (words : Memory.Words) (a sizeClass : ℕ) (size : U64) : Prop :=
  words (a / 8) = headerWord sizeClass ∧ words (a / 8 + 1) = size

/-- The state of the heap is as the layout says. -/
structure Fits (s : HeapClient) (l : Layout) : Prop where
  total : s.heap.pages.totalPages ≤ 2 ^ 35
  inUse : ∀ x a, l.owner x = some a →
    s.heap.pages.inUse (x / PAGE_SIZE) = true ∧ x < PAGE_SIZE * s.heap.pages.totalPages
  owns : ∀ a b, l.block a = some b → ∀ x, a ≤ x → x < a + b.length → l.owner x = some a
  shape : ∀ a b, l.block a = some b → a % b.unit = 0 ∧ b.Ok
  list : ∀ k < CLASS_COUNT, IsFreeList s.heap.words (s.heap.freeLists k) (l.free k)
  listed : ∀ k < CLASS_COUNT, ∀ a ∈ l.free k, l.block a = some (.free k)
  nodup : ∀ k < CLASS_COUNT, (l.free k).Nodup
  live : ∀ e ∈ s.live, ∃ a b, e.1 = physToVirt (a + 16) ∧ l.block a = some b ∧ b.Holds e.2 ∧
    HasHeader s.heap.words a b.sizeClass e.2
  distinct : (s.live.map Prod.fst).Nodup
  counted : s.heap.bytesInUse = (s.live.map Prod.snd).sum

section Fits

variable {s : HeapClient} {l : Layout} {a c count first k : ℕ} {b d : Block} {size : U64}
  {e : U64 × U64} {q : PageAllocator}

section

variable (h : Fits s l) (ha : l.block a = some b)
include h ha

lemma Fits.apart (hc : l.block c = some d) (hne : a ≠ c) : Apart a b.length c d.length := by
  by_contra hover
  simp only [Apart, not_or, not_le] at hover
  have hb := (h.shape a b ha).2.length_pos
  have hd := (h.shape c d hc).2.length_pos
  have howner : l.owner (max a c) = some a := h.owns a b ha _ (by omega) (by omega)
  have howner' : l.owner (max a c) = some c := h.owns c d hc _ (by omega) (by omega)
  exact hne (Option.some.inj (howner.symm.trans howner'))

lemma Fits.bound : a + b.length ≤ PAGE_SIZE * s.heap.pages.totalPages := by
  have hb := (h.shape a b ha).2.length_pos
  have := (h.inUse _ a (h.owns a b ha (a + b.length - 1) (by omega) (by omega))).2
  omega

lemma Fits.block_inUse : s.heap.pages.inUse (a / PAGE_SIZE) = true := by
  have hb := (h.shape a b ha).2.length_pos
  exact (h.inUse a a (h.owns a b ha a le_rfl (by omega))).1

lemma Fits.lt : a + 16 < 2 ^ 47 := by
  have hbound := h.bound ha
  have hb := (h.shape a b ha).2.length_pos
  have htotal := h.total
  simp only [PAGE_SIZE] at hbound
  omega

lemma Fits.aligned : a % 16 = 0 :=
  (h.shape a b ha).2.aligned (h.shape a b ha).1

end

lemma load_header {h : KernelHeap} (ha : a + 16 < 2 ^ 47) (hhdr : HasHeader h.words a k size) :
    h.load (physToVirt a) = headerWord k ∧ h.load (physToVirt a + 8) = size := by
  refine ⟨?_, ?_⟩
  · rw [load, virtToPhys_physToVirt (by omega), hhdr.1]
  · rw [load, show (8 : U64) = ofNat 64 8 from rfl, physToVirt_add,
      virtToPhys_physToVirt (by omega), show (a + 8) / 8 = a / 8 + 1 by omega, hhdr.2]

/-- The block of a live allocation, and what its header says about it. -/
lemma Fits.block_of_live (h : Fits s l) (he : e ∈ s.live) :
    ∃ a b, (e.1 = physToVirt (a + 16) ∧ l.block a = some b ∧ b.Holds e.2 ∧
      HasHeader s.heap.words a b.sizeClass e.2) ∧ blockStart e.1 = a ∧
        blockLength s.heap e.1 = b.length ∧
      blockUnit s.heap e.1 = b.unit ∧ e.2.toNat + 16 ≤ b.length := by
  obtain ⟨a, b, hptr, ha, hholds, hhdr⟩ := h.live e he
  refine ⟨a, b, ⟨hptr, ha, hholds, hhdr⟩, ?_⟩
  have hlt := h.lt ha
  obtain ⟨hload, hload'⟩ := load_header hlt hhdr
  have hok := (h.shape a b ha).2
  rw [blockStart, blockLength, blockUnit, hptr, physToVirt_sub_header]
  rw [hload, hload', virtToPhys_physToVirt (by omega)]
  rcases hholds with ⟨k, rfl⟩ | rfl
  · have hk : k < CLASS_COUNT := hok.1
    have hne : k ≠ CLASS_LARGE := fun heq => by
      rw [heq] at hk
      exact absurd hk (by decide)
    rw [Block.sizeClass, sizeClassOf_headerWord (hk.trans (by decide)), if_neg hne, if_neg hne]
    exact ⟨rfl, rfl, rfl, hok.2⟩
  · rw [Block.sizeClass, sizeClassOf_headerWord (by decide), if_pos rfl, if_pos rfl]
    have hpages : (pagesFor e.2).toNat = (e.2.toNat + 16 + 4095) / 4096 := by
      rw [toNat_pagesFor, Nat.mod_eq_of_lt hok]
    refine ⟨rfl, by rw [hpages, Block.length], rfl, ?_⟩
    simp only [Block.length, PAGE_SIZE]
    omega

lemma pairwise_of_nodup {live : List (U64 × U64)} (h : (live.map Prod.fst).Nodup) :
    live.Pairwise fun b c => b.1 ≠ c.1 :=
  List.pairwise_map.mp h

lemma Fits.sound (h : Fits s l) : s.Sound where
  aligned e he := by
    obtain ⟨a, b, hptr, ha, -, -⟩ := h.live e he
    have hal := h.aligned ha
    rw [hptr, toNat_physToVirt (h.lt ha)]
    omega
  room e he := by
    obtain ⟨a, b, -, -, hlen, -, hroom⟩ := h.block_of_live he
    rwa [hlen]
  whole e he := by
    obtain ⟨a, b, ⟨-, ha, -⟩, hstart, hlen, hunit, -⟩ := h.block_of_live he
    rw [hstart, hlen, hunit]
    exact ⟨(h.shape a b ha).1, h.bound ha⟩
  disjoint := by
    refine (pairwise_of_nodup h.distinct).imp_of_mem fun {e f} he hf hne => ?_
    obtain ⟨a, b, ⟨hptr, ha, -⟩, hstart, hlen, -⟩ := h.block_of_live he
    obtain ⟨c, d, ⟨hptr', hc, -⟩, hstart', hlen', -⟩ := h.block_of_live hf
    rw [hstart, hlen, hstart', hlen']
    refine h.apart ha hc fun heq => hne ?_
    rw [hptr, hptr', heq]
  counted := h.counted
  free k hk := by
    refine ⟨l.free k, h.list k hk, h.nodup k hk, fun a ha => ?_⟩
    have hblock := h.listed k hk a ha
    refine ⟨(h.shape a _ hblock).1, h.bound hblock, fun e he => ?_⟩
    obtain ⟨c, d, ⟨-, hc, hholds, -⟩, hstart, hlen, -⟩ := h.block_of_live he
    rw [hstart, hlen]
    refine h.apart hblock hc fun heq => ?_
    rw [← heq, hblock] at hc
    rcases hholds with ⟨j, rfl⟩ | rfl <;> simp at hc

/-- No live pointer points into the block at `a`, and it is on no free list. -/
def Idle (s : HeapClient) (l : Layout) (a : ℕ) : Prop :=
  (∀ e ∈ s.live, e.1 ≠ physToVirt (a + 16)) ∧ ∀ k < CLASS_COUNT, a ∉ l.free k

/-- A chunk starts at `a`, and it is on a free list or an allocation is live in it. -/
def Kept (s : HeapClient) (l : Layout) (a : ℕ) : Prop :=
  (∃ k < CLASS_COUNT, a ∈ l.free k) ∨
    ∃ k size, (physToVirt (a + 16), size) ∈ s.live ∧ l.block a = some (.small k size)

/-- The heap fits a layout again, and every chunk is still one. -/
def Evolves (s : HeapClient) (l : Layout) (s' : HeapClient) : Prop :=
  ∃ l', Fits s' l' ∧ ∀ c, Kept s l c → Kept s' l' c

lemma mem_update {free : ℕ → List ℕ} {chunks : List ℕ} {j : ℕ} (h : c ∈ free k → c ∈ chunks)
    (hc : c ∈ free j) : c ∈ update free k chunks j := by
  by_cases hjk : j = k
  · subst hjk
    rw [update_self]
    exact h hc
  · rwa [update_of_ne hjk]

lemma Evolves.trans {s' s'' : HeapClient} (h : Evolves s l s')
    (h' : ∀ l', Fits s' l' → Evolves s' l' s'') : Evolves s l s'' := by
  obtain ⟨l', hfits, hkept⟩ := h
  obtain ⟨l'', hfits', hkept'⟩ := h' l' hfits
  exact ⟨l'', hfits', fun c hc => hkept' c (hkept c hc)⟩

section

variable (h : Fits s l)
include h

lemma Fits.live_ne (ha : l.block a = some (.free k)) : ∀ e ∈ s.live, e.1 ≠ physToVirt (a + 16) := by
  intro e he heq
  obtain ⟨c, d, hptr, hc, hholds, -⟩ := h.live e he
  have hlt := h.lt ha
  have hlt' := h.lt hc
  have hca : c + 16 = a + 16 :=
    physToVirt_injective (by omega) (by omega) (hptr.symm.trans heq)
  obtain rfl : c = a := by omega
  obtain rfl := Option.some.inj (hc.symm.trans ha)
  rcases hholds with ⟨j, hj⟩ | hj <;> simp at hj

/-! ## Memory that changes outside the headers and links -/

lemma Fits.word_ne (ha : l.block a = some b) (hc : l.block c = some d) (hne : a ≠ c) :
    a / 8 ≠ c / 8 ∧ a / 8 ≠ c / 8 + 1 ∧ a / 8 + 1 ≠ c / 8 ∧ a / 8 + 1 ≠ c / 8 + 1 := by
  have h₁ := h.aligned ha
  have h₂ := h.aligned hc
  omega

lemma Fits.setWords (words : Words)
    (hlinks : ∀ k < CLASS_COUNT, ∀ a ∈ l.free k, words (a / 8) = s.heap.words (a / 8))
    (hheaders : ∀ e ∈ s.live, ∀ a b, e.1 = physToVirt (a + 16) → l.block a = some b →
      words (a / 8) = s.heap.words (a / 8) ∧ words (a / 8 + 1) = s.heap.words (a / 8 + 1)) :
    Fits { s with heap := { s.heap with words := words } } l := by
  refine { h with list := fun k hk => (h.list k hk).congr (hlinks k hk), live := fun e he => ?_ }
  obtain ⟨a, b, hptr, ha, hholds, hhdr⟩ := h.live e he
  obtain ⟨h₁, h₂⟩ := hheaders e he a b hptr ha
  exact ⟨a, b, hptr, ha, hholds, h₁.trans hhdr.1, h₂.trans hhdr.2⟩

lemma Fits.setPayload (words : Words) (he : e ∈ s.live)
    (hwords : ∀ w, (∀ i < e.2.toNat, w ≠ (virtToPhys e.1 + i) / 8) → words w = s.heap.words w) :
    Fits { s with heap := { s.heap with words := words } } l := by
  obtain ⟨c, d, ⟨hptr, hc, -⟩, -, -, -, hroom⟩ := h.block_of_live he
  have hphys : virtToPhys e.1 = c + 16 := by
    rw [hptr, virtToPhys_physToVirt (by have := h.lt hc; omega)]
  -- A byte of the payload belongs to this block alone, and lies behind its header.
  have hkeep : ∀ a b, l.block a = some b →
      words (a / 8) = s.heap.words (a / 8) ∧ words (a / 8 + 1) = s.heap.words (a / 8 + 1) := by
    intro a b ha
    have hal' := h.aligned ha
    by_cases hac : a = c
    · subst hac
      constructor
      · exact hwords _ fun i hi => by rw [hphys]; omega
      · exact hwords _ fun i hi => by rw [hphys]; omega
    · have hapart := h.apart ha hc hac
      unfold Apart at hapart
      constructor
      · exact hwords _ fun i hi => by rw [hphys]; omega
      · exact hwords _ fun i hi => by rw [hphys]; omega
  exact h.setWords words (fun k hk a ha => (hkeep a _ (h.listed k hk a ha)).1) fun _ _ a b _ =>
    hkeep a b

omit h in
lemma storeHeader_eq {h : KernelHeap} (ha : a + 16 < 2 ^ 47) :
    h.storeHeader (physToVirt a) k size = { h with
      words := update (update h.words (a / 8) (headerWord k)) (a / 8 + 1)
        size } := by
  rw [storeHeader, KernelHeap.store, KernelHeap.store, show (8 : U64) = ofNat 64 8 from rfl,
    physToVirt_add, virtToPhys_physToVirt (by omega), virtToPhys_physToVirt (by omega),
    show (a + 8) / 8 = a / 8 + 1 by omega]

omit h in
lemma hasHeader_update {words : Words} :
    HasHeader (update (update words (a / 8) (headerWord k)) (a / 8 + 1) size)
      a k size :=
  ⟨by simp, by simp⟩

lemma Fits.idle_of_free (ha : a / PAGE_SIZE < s.heap.pages.totalPages)
    (hfree : s.heap.pages.inUse (a / PAGE_SIZE) = false) : Idle s l a := by
  have hused : ∀ b, l.block a ≠ some b := fun b hb => by simp [h.block_inUse hb] at hfree
  refine ⟨fun e he heq => ?_, fun k hk hmem => hused _ (h.listed k hk a hmem)⟩
  obtain ⟨c, d, hptr, hc, -⟩ := h.live e he
  have hlt := h.lt hc
  have htotal := h.total
  have hphys : c + 16 = a + 16 := by
    refine physToVirt_injective (by omega) ?_ (hptr.symm.trans heq)
    simp only [PAGE_SIZE] at ha
    omega
  obtain rfl : c = a := by omega
  exact hused d hc

/-- Changing the two first words of a block that is neither live nor on a free list. -/
lemma Fits.retouch (words : Words) (ha : l.block a = some b) (hidle : Idle s l a)
    (hwords : ∀ w, w ≠ a / 8 → w ≠ a / 8 + 1 → words w = s.heap.words w) :
    Fits { s with heap := { s.heap with words := words } } l := by
  have hkeep : ∀ c d, l.block c = some d → c ≠ a →
      words (c / 8) = s.heap.words (c / 8) ∧ words (c / 8 + 1) = s.heap.words (c / 8 + 1) := by
    intro c d hc hca
    obtain ⟨h₁, h₂, h₃, h₄⟩ := h.word_ne hc ha hca
    exact ⟨hwords _ h₁ h₂, hwords _ h₃ h₄⟩
  refine h.setWords words (fun k hk c hc => (hkeep c _ (h.listed k hk c hc) ?_).1)
    fun e he c d hptr hc => hkeep c d hc fun heq => hidle.1 e he (heq ▸ hptr)
  exact fun heq => hidle.2 k hk (heq ▸ hc)

/-- A block that is neither live nor on a free list may become another of the same extent. -/
lemma Fits.reclassify (b' : Block) (ha : l.block a = some b)
    (hidle : Idle s l a) (hlen : b'.length = b.length) (hunit : b'.unit = b.unit)
    (hok : b'.Ok) : Fits s { l with block := update l.block a (some b') } := by
  refine { h with
    owns := fun c d hc => ?_, shape := fun c d hc => ?_, listed := fun k hk c hc => ?_, live :=
    fun e he => ?_ }
  · by_cases hca : c = a
    · subst hca
      obtain rfl : b' = d := by simpa using hc
      rw [hlen]
      exact h.owns c b ha
    · exact h.owns c d (by simpa [hca] using hc)
  · by_cases hca : c = a
    · subst hca
      obtain rfl : b' = d := by simpa using hc
      rw [hunit]
      exact ⟨(h.shape c b ha).1, hok⟩
    · exact h.shape c d (by simpa [hca] using hc)
  · have hca : c ≠ a := fun heq => hidle.2 k hk (heq ▸ hc)
    simpa [hca] using h.listed k hk c hc
  · obtain ⟨c, d, hptr, hc, hheld⟩ := h.live e he
    have hca : c ≠ a := fun heq => hidle.1 e he (heq ▸ hptr)
    exact ⟨c, d, hptr, by simpa [hca] using hc, hheld⟩

/-! ## Allocating -/

lemma Fits.adopt (reserved : U64) (ha : l.block a = some b) (hholds : b.Holds size)
    (hhdr : HasHeader s.heap.words a b.sizeClass size)
    (hnew : ∀ e ∈ s.live, e.1 ≠ physToVirt (a + 16)) :
    Fits (HeapClient.adopt s.live size (physToVirt (a + 16),
      { s.heap with
        bytesInUse := s.heap.bytesInUse + size
        bytesReserved := reserved
        allocationCount := s.heap.allocationCount + 1 })) l := by
  have hnull : physToVirt (a + 16) ≠ 0 := physToVirt_ne_zero (h.lt ha)
  rw [HeapClient.adopt, if_neg hnull]
  refine { h with live := fun e he => ?_, distinct := ?_, counted := ?_ }
  · rcases mem_cons.mp he with rfl | he
    · exact ⟨a, b, rfl, ha, hholds, hhdr⟩
    · exact h.live e he
  · rw [map_cons, nodup_cons]
    refine ⟨fun hmem => ?_, h.distinct⟩
    obtain ⟨e, he, heq⟩ := mem_map.mp hmem
    exact hnew e he heq
  · rw [map_cons, sum_cons, ← h.counted]
    exact BitVec.add_comm ..

lemma Fits.setFree {head : U64} {chunks : List ℕ} (hlist : IsFreeList s.heap.words head chunks)
    (hlisted : ∀ a ∈ chunks, l.block a = some (.free k)) (hnodup : chunks.Nodup) :
    Fits { s with heap := { s.heap with freeLists := update s.heap.freeLists k head } }
      { l with free := update l.free k chunks } := by
  refine { h with list := fun j hj => ?_, listed := fun j hj => ?_, nodup := fun j hj => ?_ } <;>
    by_cases hjk : j = k
  · simpa [hjk] using hlist
  · simpa [hjk] using h.list j hj
  · simpa [hjk] using hlisted
  · simpa [hjk] using h.listed j hj
  · simpa [hjk] using hnodup
  · simpa [hjk] using h.nodup j hj

lemma Fits.popChunk {rest : List ℕ} (hk : k < CLASS_COUNT)
    (hfree : l.free k = a :: rest) : let s' : HeapClient := { s with heap := { s.heap with
      freeLists := update s.heap.freeLists k (s.heap.words (a / 8)) } }
    let l' : Layout := { l with free := update l.free k rest }
    Fits s' l' ∧ Idle s' l' a := by
  have hblock := h.listed k hk a (hfree ▸ mem_cons_self)
  have hnodup := h.nodup k hk
  rw [hfree, nodup_cons] at hnodup
  have hlist := h.list k hk
  rw [hfree] at hlist
  refine ⟨h.setFree hlist.2 (fun c hc => h.listed k hk c (hfree ▸ mem_cons_of_mem a hc)) hnodup.2,
    h.live_ne hblock, fun j hj hmem => ?_⟩
  by_cases hjk : j = k
  · subst hjk
    exact hnodup.1 (by simpa using hmem)
  · have hboth := (h.listed j hj a (by simpa [hjk] using hmem)).symm.trans hblock
    simp [hjk] at hboth

omit h in
lemma kmallocSmall_eq {h : KernelHeap} (hptr : h.freeLists k = physToVirt a)
    (ha : a + 16 < 2 ^ 47) : h.kmallocSmall k size = (physToVirt (a + 16),
      { h with
        freeLists := update h.freeLists k (h.words (a / 8))
        words := update (update h.words (a / 8) (headerWord k)) (a / 8 + 1) size
        bytesInUse := h.bytesInUse + size
        allocationCount := h.allocationCount + 1 }) := by
  have hload : h.load (physToVirt a) = h.words (a / 8) := by
    rw [load, virtToPhys_physToVirt (by omega)]
  rw [kmallocSmall, hptr, hload, show HEADER_SIZE = ofNat 64 16 from rfl, physToVirt_add,
    storeHeader_eq ha]

lemma Fits.kmallocSmall (hk : k < CLASS_COUNT) (hfree : l.free k ≠ [])
    (hroom : size.toNat + 16 ≤ chunkSize k) :
    Evolves s l (HeapClient.adopt s.live size (s.heap.kmallocSmall k size)) := by
  obtain ⟨a, rest, hcons⟩ := List.exists_cons_of_ne_nil hfree
  have hblock := h.listed k hk a (hcons ▸ mem_cons_self)
  have hlist := h.list k hk
  rw [hcons] at hlist
  rw [kmallocSmall_eq hlist.1 (h.lt hblock)]
  obtain ⟨hpop, hidle⟩ := h.popChunk hk hcons
  have hhdr := hpop.retouch (update (update s.heap.words (a / 8)
    (headerWord k)) (a / 8 + 1) size) hblock hidle fun w h₁ h₂ => by
      rw [update_of_ne h₂, update_of_ne h₁]
  have hsmall := hhdr.reclassify (.small k size) hblock hidle rfl rfl ⟨hk, hroom⟩
  refine ⟨_, hsmall.adopt _ (b := .small k size) (update_self ..) (.inl ⟨k, rfl⟩)
    hasHeader_update hidle.1, fun c hc => ?_⟩
  rw [HeapClient.adopt, if_neg (physToVirt_ne_zero (h.lt hblock))]
  by_cases hca : c = a
  · exact .inr ⟨k, size, hca ▸ mem_cons_self, by simp [hca]⟩
  rcases hc with ⟨j, hj, hc⟩ | ⟨j, size', hlive, hc⟩
  · refine .inl ⟨j, hj, ?_⟩
    by_cases hjk : j = k
    · subst hjk
      rw [hcons, mem_cons] at hc
      simpa using hc.resolve_left hca
    · simpa [hjk] using hc
  · exact .inr ⟨j, size', mem_cons_of_mem _ hlive, by simpa [hca] using hc⟩

/-! ## Refilling a class -/

lemma Fits.pushChunk (hk : k < CLASS_COUNT) (ha : l.block a = some (.free k)) (hidle : Idle s l a) :
    Fits { s with heap := s.heap.pushChunk k (physToVirt a) }
      { l with free := update l.free k (a :: l.free k) } := by
  have hlt := h.lt ha
  have hwords : (s.heap.pushChunk k (physToVirt a)).words =
      update s.heap.words (a / 8) (s.heap.freeLists k) := by
    rw [KernelHeap.pushChunk, KernelHeap.store, virtToPhys_physToVirt (by omega)]
  have hlink := h.retouch (s.heap.pushChunk k (physToVirt a)).words ha hidle
    fun w h₁ _ => by rw [hwords, update_of_ne h₁]
  refine hlink.setFree ⟨rfl, ?_⟩ (List.forall_mem_cons.mpr ⟨ha, h.listed k hk⟩)
    (nodup_cons.mpr ⟨hidle.2 k hk, h.nodup k hk⟩)
  have hnext : (s.heap.pushChunk k (physToVirt a)).words (a / 8) = s.heap.freeLists k := by
    rw [hwords, update_self]
  rw [hnext]
  exact hlink.list k hk

lemma Fits.not_inRun (hq : Takes s.heap.pages q first count) (ha : l.block a = some b) :
    ¬ InRun first count (a / PAGE_SIZE) := fun hin => by
  simpa [hq.free _ hin] using h.block_inUse ha

/-- The heap gets frames nobody has used, and divides them into blocks of its own. -/
lemma Fits.acquire (hq : Takes s.heap.pages q first count) (block : ℕ → Option Block)
    (owner : ℕ → ℕ) (hshape : ∀ a b, InRun first count (a / PAGE_SIZE) → block a = some b →
      a % b.unit = 0 ∧ b.Ok)
    (howns : ∀ a b, InRun first count (a / PAGE_SIZE) → block a = some b →
      ∀ x, a ≤ x → x < a + b.length → InRun first count (x / PAGE_SIZE) ∧ owner x = a) :
    Fits { s with heap := { s.heap with pages := q } }
      { l with
        block := fun x => if InRun first count (x / PAGE_SIZE) then block x else l.block x
        owner := fun x => if InRun first count (x / PAGE_SIZE) then some (owner x)
          else l.owner x } := by
  -- No byte of the new frames had an owner.
  have hfresh : ∀ x a, l.owner x = some a → ¬ InRun first count (x / PAGE_SIZE) := by
    intro x a hx hin
    have := (h.inUse x a hx).1
    rw [hq.free _ hin] at this
    cases this
  have hkeep : ∀ a b, l.block a = some b →
      (if InRun first count (a / PAGE_SIZE) then block a else l.block a) = some b := by
    intro a b ha
    rw [if_neg (h.not_inRun hq ha), ha]
  refine ⟨by simpa [hq.total] using h.total, fun x a hx => ?_, fun a b ha x hax hxb => ?_,
    fun a b ha => ?_, h.list, fun k hk a ha => hkeep a _ (h.listed k hk a ha), h.nodup,
    fun e he => ?_, h.distinct, h.counted⟩
  · change (if InRun first count (x / PAGE_SIZE) then some (owner x) else l.owner x) = some a at hx
    rw [hq.total]
    by_cases hin : InRun first count (x / PAGE_SIZE)
    · refine ⟨hq.taken _ hin, ?_⟩
      have hbound := hq.bound
      have hlt := hin.2
      simp only [PAGE_SIZE] at hlt ⊢
      omega
    · rw [if_neg hin] at hx
      rw [hq.others _ hin]
      exact h.inUse x a hx
  · change (if InRun first count (a / PAGE_SIZE) then block a else l.block a) = some b at ha
    change (if InRun first count (x / PAGE_SIZE) then some (owner x) else l.owner x) = some a
    by_cases hin : InRun first count (a / PAGE_SIZE)
    · rw [if_pos hin] at ha
      obtain ⟨hx, howner⟩ := howns a b hin ha x hax hxb
      rw [if_pos hx, howner]
    · rw [if_neg hin] at ha
      have howner := h.owns a b ha x hax hxb
      rw [if_neg (hfresh x a howner), howner]
  · change (if InRun first count (a / PAGE_SIZE) then block a else l.block a) = some b at ha
    by_cases hin : InRun first count (a / PAGE_SIZE)
    · rw [if_pos hin] at ha
      exact hshape a b hin ha
    · rw [if_neg hin] at ha
      exact h.shape a b ha
  · obtain ⟨a, b, hptr, ha, hheld⟩ := h.live e he
    exact ⟨a, b, hptr, hkeep a b ha, hheld⟩

end

/-- The bytes of a chunk are in its page, and rounding any of them down gives its start. -/
lemma chunk_bytes {x : ℕ} (hk : k < CLASS_COUNT) (ha : a % chunkSize k = 0) (hax : a ≤ x)
    (hxa : x < a + chunkSize k) : x / PAGE_SIZE = a / PAGE_SIZE ∧ x - x % chunkSize k = a := by
  obtain ⟨hpos, -, -, hpage⟩ := chunkSize_spec k hk
  obtain ⟨m, hm⟩ := Nat.dvd_of_mod_eq_zero hpage
  obtain ⟨q, rfl⟩ := Nat.dvd_of_mod_eq_zero ha
  obtain ⟨r, rfl⟩ := Nat.exists_eq_add_of_le hax
  have hr : r < chunkSize k := by omega
  refine ⟨?_, ?_⟩
  · rw [PAGE_SIZE, hm, ← Nat.div_div_eq_div_mul, ← Nat.div_div_eq_div_mul,
      Nat.mul_add_div (by omega), Nat.mul_div_cancel_left _ (by omega), Nat.div_eq_of_lt hr,
      Nat.add_zero]
  · rw [Nat.mul_add_mod, Nat.mod_eq_of_lt hr, Nat.add_sub_cancel]

lemma chunk_of_frame (frame : ℕ) {i : ℕ} (hk : k < CLASS_COUNT) (hi : i < PAGE_SIZE / chunkSize k) :
    (frame * PAGE_SIZE + i * chunkSize k) / PAGE_SIZE = frame ∧
      (frame * PAGE_SIZE + i * chunkSize k) % chunkSize k = 0 := by
  obtain ⟨hpos, -, -, hpage⟩ := chunkSize_spec k hk
  obtain ⟨m, hm⟩ := Nat.dvd_of_mod_eq_zero hpage
  have hlt : i * chunkSize k < PAGE_SIZE :=
    lt_of_lt_of_le (Nat.mul_lt_mul_of_pos_right hi (by omega)) (Nat.div_mul_le_self ..)
  refine ⟨?_, ?_⟩
  · simp only [PAGE_SIZE] at hlt ⊢
    omega
  · rw [Nat.add_mul_mod_self_right, PAGE_SIZE, hm, Nat.mul_left_comm, Nat.mul_mod_right]

/-- The chunks of a page, in the order `refill_class` leaves them on the free list. -/
def chunksOf (frame k n : ℕ) : List ℕ :=
  ((List.range n).map fun i => frame * PAGE_SIZE + i * chunkSize k).reverse

/-- The loop of `refill_class` puts the chunks of a page on the free list, one after another. -/
lemma Fits.pushChunks (h : Fits s l) {frame : ℕ} (hk : k < CLASS_COUNT)
    (hblock : ∀ i < PAGE_SIZE / chunkSize k,
      l.block (frame * PAGE_SIZE + i * chunkSize k) = some (.free k))
    (hold : ∀ i < PAGE_SIZE / chunkSize k,
      frame * PAGE_SIZE + i * chunkSize k ∉ l.free k) : ∀ n ≤ PAGE_SIZE / chunkSize k,
    Fits { s with heap := (List.range n).foldl (fun h i => h.pushChunk k
        (physToVirt (frame * PAGE_SIZE) + ofNat 64 (i * chunkSize k))) s.heap }
      { l with free := update l.free k (chunksOf frame k n ++ l.free k) }
  | 0, _ => by simpa [chunksOf] using h
  | n + 1, hn => by
    have ih := h.pushChunks hk hblock hold n (by omega)
    have hpos := (chunkSize_spec k hk).1
    have hidle := fun hidle => ih.pushChunk hk (hblock n (by omega)) hidle
    rw [List.range_succ, List.foldl_append, List.foldl_cons, List.foldl_nil, physToVirt_add]
    have hchunks : chunksOf frame k (n + 1) =
        (frame * PAGE_SIZE + n * chunkSize k) :: chunksOf frame k n := by
      simp [chunksOf, List.range_succ]
    simp only [update_self, update_idem] at hidle
    rw [hchunks, List.cons_append]
    refine hidle ⟨ih.live_ne (hblock n (by omega)), fun j hj hmem => ?_⟩
    by_cases hjk : j = k
    · subst hjk
      simp only [update_self, List.mem_append, chunksOf, List.mem_reverse,
        mem_map, List.mem_range] at hmem
      rcases hmem with ⟨i, hi, heq⟩ | hmem
      · have : i = n := Nat.eq_of_mul_eq_mul_right (by omega : 0 < chunkSize j) (by omega)
        omega
      · exact hold n (by omega) hmem
    · have hboth := (ih.listed j hj _ hmem).symm.trans (hblock n (by omega))
      simp [hjk] at hboth

lemma Fits.refillClass (h : Fits s l) {heap : KernelHeap} (hk : k < CLASS_COUNT)
    (hrefill : s.heap.refillClass k = some heap) :
    ∃ l', Fits { s with heap := heap } l' ∧ l'.free k ≠ [] ∧
      ∀ c, Kept s l c → Kept { s with heap := heap } l' c := by
  obtain ⟨hpos, hle, -, hpage⟩ := chunkSize_spec k hk
  unfold KernelHeap.refillClass at hrefill
  cases halloc : s.heap.pages.allocatePage with
  | error e => simp [halloc] at hrefill
  | ok r =>
    obtain ⟨frame, q⟩ := r
    rw [halloc] at hrefill
    cases hrefill
    have htakes := allocatePage_spec halloc
    have hframe := h.acquire htakes
      (fun x => if x % chunkSize k = 0 then some (.free k) else none)
      (fun x => x - x % chunkSize k)
      (fun a b _ ha => by
        obtain ⟨hmod, rfl⟩ : a % chunkSize k = 0 ∧ Block.free k = b := by simpa using ha
        exact ⟨hmod, hk⟩)
      (fun a b hin ha x hax hxa => by
        obtain ⟨hmod, rfl⟩ : a % chunkSize k = 0 ∧ Block.free k = b := by simpa using ha
        obtain ⟨hdiv, hround⟩ := chunk_bytes hk hmod hax hxa
        exact ⟨hdiv ▸ hin, hround⟩)
    have hnew : ∀ i < PAGE_SIZE / chunkSize k,
        (if InRun frame 1 ((frame * PAGE_SIZE + i * chunkSize k) / PAGE_SIZE) then
          if (frame * PAGE_SIZE + i * chunkSize k) % chunkSize k = 0 then some (Block.free k)
          else none
        else l.block (frame * PAGE_SIZE + i * chunkSize k)) = some (Block.free k) := by
      intro i hi
      obtain ⟨hdiv, hmod⟩ := chunk_of_frame frame hk hi
      rw [if_pos (inRun_one.mpr hdiv), if_pos hmod]
    have hchunks := hframe.pushChunks hk hnew (fun i hi hmem => ?_) _ le_rfl
    · refine ⟨_, ⟨hchunks.total, hchunks.inUse, hchunks.owns, hchunks.shape, hchunks.list,
        hchunks.listed, hchunks.nodup, hchunks.live, hchunks.distinct, hchunks.counted⟩, ?_, ?_⟩
      · have hcnt : 0 < PAGE_SIZE / chunkSize k := Nat.div_pos (by rw [PAGE_SIZE]; omega) (by omega)
        simp [chunksOf, hcnt.ne']
      · rintro c (⟨j, hj, hc⟩ | ⟨j, size, hlive, hc⟩)
        · exact .inl ⟨j, hj, mem_update (List.mem_append_right _) hc⟩
        · exact .inr ⟨j, size, hlive, by simpa [h.not_inRun htakes hc] using hc⟩
    · have hbound := htakes.bound
      have hfree := htakes.free_one
      have hdiv := (chunk_of_frame frame hk hi).1
      exact (h.idle_of_free (by omega) (by rwa [hdiv])).2 k hk hmem

lemma Fits.kmallocLarge (h : Fits s l) (hsize : size.toNat + 16 < 2 ^ 64) :
    Evolves s l (HeapClient.adopt s.live size (s.heap.kmallocLarge size)) := by
  unfold KernelHeap.kmallocLarge
  cases halloc : s.heap.pages.allocateContiguous (pagesFor size).toNat with
  | error e =>
    rw [HeapClient.adopt, if_pos rfl]
    exact ⟨l, h, fun _ => id⟩
  | ok r =>
    obtain ⟨frame, q⟩ := r
    obtain ⟨hpos, htakes⟩ := allocateContiguous_spec halloc
    have hok : (Block.large size).Ok := pagesFor_pos hsize hpos
    have hcnt : (pagesFor size).toNat = (size.toNat + 16 + 4095) / 4096 := by
      rw [toNat_pagesFor, Nat.mod_eq_of_lt hok]
    have hdiv : frame * PAGE_SIZE / PAGE_SIZE = frame := Nat.mul_div_cancel _ (by decide)
    have hin : InRun frame (pagesFor size).toNat (frame * PAGE_SIZE / PAGE_SIZE) := by
      rw [hdiv]
      exact ⟨le_rfl, by omega⟩
    have hbound := htakes.bound
    have hidle := h.idle_of_free (by omega) (htakes.free _ hin)
    have hrun := h.acquire htakes
      (fun x => if x = frame * PAGE_SIZE then some (.large size) else none)
      (fun _ => frame * PAGE_SIZE)
      (fun a b _ ha => by
        obtain ⟨rfl, rfl⟩ : a = frame * PAGE_SIZE ∧ Block.large size = b := by simpa using ha
        exact ⟨Nat.mul_mod_left .., hok⟩)
      (fun a b _ ha x hax hxa => by
        obtain ⟨rfl, rfl⟩ : a = frame * PAGE_SIZE ∧ Block.large size = b := by simpa using ha
        refine ⟨⟨?_, ?_⟩, rfl⟩
        · simp only [PAGE_SIZE] at hax ⊢
          omega
        · simp only [Block.length, PAGE_SIZE, ← hcnt] at hxa ⊢
          omega)
    have hblock : (if InRun frame (pagesFor size).toNat (frame * PAGE_SIZE / PAGE_SIZE) then
          if frame * PAGE_SIZE = frame * PAGE_SIZE then some (Block.large size) else none
        else l.block (frame * PAGE_SIZE)) = some (Block.large size) := by
      rw [if_pos hin, if_pos rfl]
    have hlt := hrun.lt hblock
    have hhdr := hrun.retouch (update (update s.heap.words
      (frame * PAGE_SIZE / 8) (headerWord CLASS_LARGE)) (frame * PAGE_SIZE / 8 + 1) size) hblock
        hidle fun w h₁ h₂ => by
      rw [update_of_ne h₂, update_of_ne h₁]
    have hadopt := hhdr.adopt (s.heap.bytesReserved + pagesFor size * 4096)
      (b := .large size) hblock (.inr rfl)
      hasHeader_update hidle.1
    dsimp only
    rw [show HEADER_SIZE = ofNat 64 16 from rfl, physToVirt_add, storeHeader_eq hlt]
    refine ⟨_, hadopt, ?_⟩
    rw [HeapClient.adopt, if_neg (physToVirt_ne_zero hlt)]
    rintro c (hc | ⟨j, size', hlive, hc⟩)
    · exact .inl hc
    · exact .inr ⟨j, size', mem_cons_of_mem _ hlive, by simpa [h.not_inRun htakes hc] using hc⟩

lemma Fits.kmalloc (h : Fits s l) (hsize : size.toNat + 16 < 2 ^ 64) :
    Evolves s l (HeapClient.adopt s.live size (s.heap.kmalloc size)) := by
  have hnull : Evolves s l (HeapClient.adopt s.live size (0, s.heap)) := by
    rw [HeapClient.adopt, if_pos rfl]
    exact ⟨l, h, fun _ => id⟩
  unfold KernelHeap.kmalloc
  by_cases hzero : size = 0
  · rw [if_pos hzero]
    exact hnull
  rw [if_neg hzero]
  by_cases hlarge : classFor size = CLASS_LARGE
  · rw [if_pos hlarge]
    exact h.kmallocLarge hsize
  rw [if_neg hlarge]
  obtain ⟨hk, hroom⟩ := (classFor_spec hsize).resolve_left hlarge
  by_cases hempty : s.heap.freeLists (classFor size) = 0
  · rw [if_pos hempty]
    cases hrefill : s.heap.refillClass (classFor size) with
    | none => exact hnull
    | some heap =>
      obtain ⟨l', hfits, hfree, hkept⟩ := h.refillClass hk hrefill
      obtain ⟨l'', hfits', hkept'⟩ := hfits.kmallocSmall hk hfree hroom
      exact ⟨l'', hfits', fun c hc => hkept' c (hkept c hc)⟩
  · rw [if_neg hempty]
    refine h.kmallocSmall hk (fun hnil => hempty ?_) hroom
    have hlist := h.list _ hk
    rw [hnil] at hlist
    exact hlist

/-! ## Freeing -/

lemma sum_without : ∀ {live : List (U64 × U64)}, (live.map Prod.fst).Nodup →
    e ∈ live → ((without live e.1).map Prod.snd).sum + e.2 = (live.map Prod.snd).sum
  | [], _, he => by simp at he
  | f :: live, hnodup, he => by
    rw [map_cons, nodup_cons] at hnodup
    rcases mem_cons.mp he with rfl | he
    · have hwithout : without (e :: live) e.1 = live := by
        rw [without, List.filter_cons_of_neg (by simp), List.filter_eq_self]
        intro f hf
        have hne : f.1 ≠ e.1 := fun heq => hnodup.1 (heq ▸ List.mem_map_of_mem hf)
        simpa using hne
      rw [hwithout, map_cons, sum_cons]
      exact BitVec.add_comm ..
    · have hne : f.1 ≠ e.1 := fun heq => hnodup.1 (heq ▸ List.mem_map_of_mem he)
      have hwithout : without (f :: live) e.1 = f :: without live e.1 :=
        List.filter_cons_of_pos (by simpa using hne)
      rw [hwithout, map_cons, sum_cons, map_cons, sum_cons,
        ← sum_without hnodup.2 he]
      exact BitVec.add_assoc ..

lemma Fits.disown (h : Fits s l) (count : U64) (he : e ∈ s.live)
    (hptr : e.1 = physToVirt (a + 16)) (ha : l.block a = some b) (hholds : b.Holds e.2) :
    let s' : HeapClient := ⟨{ s.heap with
      bytesInUse := s.heap.bytesInUse - e.2
      freeCount := count }, without s.live e.1⟩
    Fits s' l ∧ Idle s' l a := by
  refine ⟨{ h with
    live := fun f hf => h.live f (List.mem_of_mem_filter hf)
    distinct := ?_
    counted := ?_ }, fun f hf => ?_, fun k hk hmem => ?_⟩
  · exact h.distinct.sublist (List.filter_sublist.map _)
  · change s.heap.bytesInUse - e.2 = _
    rw [h.counted, ← sum_without h.distinct he]
    exact BitVec.add_sub_cancel ..
  · rw [← hptr]
    simpa using (List.mem_filter.mp hf).2
  · have hboth := (h.listed k hk a hmem).symm.trans ha
    cases hboth
    rcases hholds with ⟨j, hj⟩ | hj <;> simp at hj

lemma Fits.releaseRun (h : Fits s l) {reserved : U64} (ha : l.block a = some (.large size))
    (hidle : Idle s l a)
    (hq : Frees s.heap.pages q (a / PAGE_SIZE) ((size.toNat + 16 + 4095) / 4096)) :
    Fits { s with heap := { s.heap with pages := q, bytesReserved := reserved } }
      { l with
        block := update l.block a none
        owner := fun x => if l.owner x = some a then none else l.owner x } := by
  have halign : a % PAGE_SIZE = 0 := (h.shape a _ ha).1
  -- The bytes of the freed frames are those of the block.
  have hmine : ∀ x, InRun (a / PAGE_SIZE) ((size.toNat + 16 + 4095) / 4096) (x / PAGE_SIZE) →
      l.owner x = some a := by
    intro x hin
    refine h.owns a _ ha x ?_ ?_
    · have := hin.1
      simp only [PAGE_SIZE] at this halign
      omega
    · have := hin.2
      simp only [PAGE_SIZE, Block.length] at this halign ⊢
      omega
  have hkeep : ∀ c d, update l.block a none c = some d → c ≠ a ∧ l.block c = some d := by
    intro c d hc
    have hca : c ≠ a := by
      rintro rfl
      simp at hc
    exact ⟨hca, by simpa [hca] using hc⟩
  refine ⟨by simpa [hq.total] using h.total, fun x c hx => ?_, fun c d hc x hcx hxd => ?_,
    fun c d hc => h.shape c d (hkeep c d hc).2, h.list, fun k hk c hc => ?_, h.nodup,
    fun e he => ?_, h.distinct, h.counted⟩
  · change (if l.owner x = some a then none else l.owner x) = some c at hx
    by_cases howner : l.owner x = some a
    · simp [howner] at hx
    · rw [if_neg howner] at hx
      rw [hq.total, hq.others _ fun hin => howner (hmine x hin)]
      exact h.inUse x c hx
  · obtain ⟨hca, hc⟩ := hkeep c d hc
    have howner := h.owns c d hc x hcx hxd
    simp [howner, hca]
  · have hca : c ≠ a := fun heq => hidle.2 k hk (heq ▸ hc)
    simpa [hca] using h.listed k hk c hc
  · obtain ⟨c, d, hptr, hc, hheld⟩ := h.live e he
    have hca : c ≠ a := fun heq => hidle.1 e he (heq ▸ hptr)
    exact ⟨c, d, hptr, by simpa [hca] using hc, hheld⟩

/-- `kfree` of a live pointer does not panic, and gives the block back. -/
lemma Fits.kfree (h : Fits s l) (he : e ∈ s.live) :
    ∃ heap, s.heap.kfree e.1 = some heap ∧ Evolves s l ⟨heap, without s.live e.1⟩ := by
  obtain ⟨a, b, hptr, ha, hholds, hhdr⟩ := h.live e he
  have hlt := h.lt ha
  obtain ⟨hload, hload'⟩ := load_header hlt hhdr
  have hnull : e.1 ≠ 0 := hptr ▸ physToVirt_ne_zero hlt
  obtain ⟨hgone, hidle⟩ := h.disown (s.heap.freeCount + 1) he hptr ha hholds
  have hcleared := hgone.retouch (update s.heap.words (a / 8)
    (clearMagic (headerWord b.sizeClass))) ha hidle fun w h₁ _ => update_of_ne h₁ ..
  have hok := (h.shape a b ha).2
  -- The allocations in other blocks stay live.
  have hlive : ∀ {c d x}, l.block c = some d → c ≠ a → (physToVirt (c + 16), x) ∈ s.live →
      (physToVirt (c + 16), x) ∈ without s.live e.1 := by
    intro c d x hc hca hmem
    have hne : physToVirt (c + 16) ≠ e.1 := fun heq => hca <| Nat.add_right_cancel <|
      physToVirt_injective ((h.lt hc).trans (by decide)) (hlt.trans (by decide)) (heq.trans hptr)
    exact List.mem_filter.mpr ⟨hmem, by simpa using hne⟩
  unfold KernelHeap.kfree
  rw [if_neg hnull]
  dsimp only
  rw [hptr, physToVirt_sub_header, hload, hload', if_neg (not_not.mpr (magicOf_headerWord _)),
    KernelHeap.store, virtToPhys_physToVirt (by omega), ← hptr]
  rcases hholds with ⟨k, rfl⟩ | rfl
  · have hk : k < CLASS_COUNT := hok.1
    have hne : k ≠ CLASS_LARGE := (hk.trans (by decide)).ne
    have hclass : sizeClassOf (headerWord k) = k := sizeClassOf_headerWord (hk.trans (by decide))
    rw [Block.sizeClass, hclass, if_neg hne, if_neg (by omega)]
    have hfree := hcleared.reclassify (.free k) ha hidle rfl rfl hk
    refine ⟨_, rfl, _, hfree.pushChunk hk (update_self ..) hidle, ?_⟩
    rintro c (⟨j, hj, hc⟩ | ⟨j, size, hmem, hc⟩)
    · exact .inl ⟨j, hj, mem_update (mem_cons_of_mem a) hc⟩
    · by_cases hca : c = a
      · exact .inl ⟨k, hk, by simp [hca]⟩
      · exact .inr ⟨j, size, hlive hc hca hmem, by simpa [hca] using hc⟩
  · have hpages : (pagesFor e.2).toNat = (e.2.toNat + 16 + 4095) / 4096 := by
      rw [toNat_pagesFor, Nat.mod_eq_of_lt hok]
    rw [Block.sizeClass, sizeClassOf_headerWord (by decide), if_pos rfl, hpages]
    have hmod : a % PAGE_SIZE = 0 := (h.shape a _ ha).1
    have hbound := h.bound ha
    simp only [Block.length, PAGE_SIZE] at hbound hmod
    obtain ⟨q, hq, hfrees⟩ := freeContiguous_spec
      (p := s.heap.pages) (a / PAGE_SIZE) ((e.2.toNat + 16 + 4095) / 4096)
      (by omega) (by simp only [PAGE_SIZE]; omega) fun i hi => by
        have howner := h.owns a _ ha (i * PAGE_SIZE)
          (by have := hi.1; simp only [PAGE_SIZE] at this ⊢; omega)
          (by have := hi.2; simp only [PAGE_SIZE, Block.length] at this ⊢; omega)
        have hused := (h.inUse _ _ howner).1
        rwa [Nat.mul_div_cancel _ (by decide)] at hused
    rw [hq]
    refine ⟨_, rfl, _, hcleared.releaseRun ha hidle hfrees, ?_⟩
    rintro c (hc | ⟨j, size, hmem, hc⟩)
    · exact .inl hc
    · have hca : c ≠ a := by
        rintro rfl
        rw [ha] at hc
        cases hc
      exact .inr ⟨j, size, hlive hc hca hmem, by simpa [hca] using hc⟩

/-! ## Steps -/

lemma Fits.kzalloc (h : Fits s l) (hsize : size.toNat + 16 < 2 ^ 64) :
    Evolves s l (HeapClient.adopt s.live size (s.heap.kzalloc size)) := by
  refine (h.kmalloc hsize).trans fun l' hfits => ?_
  unfold KernelHeap.kzalloc
  by_cases hnull : (s.heap.kmalloc size).1 = 0
  · rw [if_pos hnull]
    exact ⟨l', hfits, fun _ => id⟩
  · rw [if_neg hnull]
    rw [HeapClient.adopt, if_neg hnull] at hfits ⊢
    rw [HeapClient.adopt, if_neg hnull]
    refine ⟨l', ?_, fun _ => id⟩
    exact hfits.setPayload _ (e := ((s.heap.kmalloc size).1, size)) mem_cons_self
      fun w hw => fill_word hw

lemma Fits.takePages (h : Fits s l) (hq : Takes s.heap.pages q first count) :
    Fits { s with heap := { s.heap with pages := q } } l := by
  refine { h with total := by simpa [hq.total] using h.total, inUse := fun x a hx => ?_ }
  obtain ⟨hused, hlt⟩ := h.inUse x a hx
  rw [hq.total]
  refine ⟨?_, hlt⟩
  by_cases hin : InRun first count (x / PAGE_SIZE)
  · exact hq.taken _ hin
  · rw [hq.others _ hin, hused]

/-- `krealloc` that moves: a new block, the old payload copied into it, the old block freed. -/
lemma Fits.move (h : Fits s l) (he : e ∈ s.live)
    (hsize : size.toNat + 16 < 2 ^ 64) (hgrow : e.2 < size) (hnull : (s.heap.kmalloc size).1 ≠ 0) :
    ∃ heap, KernelHeap.kfree { (s.heap.kmalloc size).2 with
        words := copy (s.heap.kmalloc size).2.words (virtToPhys (s.heap.kmalloc size).1)
          (virtToPhys e.1) e.2.toNat } e.1 = some heap ∧ (s.heap.kmalloc size).1 ≠ e.1 ∧
      Evolves s l ⟨heap, ((s.heap.kmalloc size).1, size) :: without s.live e.1⟩ := by
  obtain ⟨l', hfits, hkept⟩ := h.kmalloc hsize
  rw [HeapClient.adopt, if_neg hnull] at hfits hkept
  have hne : (s.heap.kmalloc size).1 ≠ e.1 := by
    have hnodup := hfits.distinct
    rw [map_cons, nodup_cons] at hnodup
    exact fun heq => hnodup.1 (heq ▸ List.mem_map_of_mem he)
  have hcopied := hfits.setPayload (copy (s.heap.kmalloc size).2.words
    (virtToPhys (s.heap.kmalloc size).1) (virtToPhys e.1) e.2.toNat)
    (e := ((s.heap.kmalloc size).1, size)) mem_cons_self
    fun w hw => copy_word fun i hi => hw i (hi.trans (BitVec.lt_def.mp hgrow))
  obtain ⟨heap, hfree, l'', hfits', hkept'⟩ := hcopied.kfree (mem_cons_of_mem _ he)
  rw [show without (((s.heap.kmalloc size).1, size) :: s.live) e.1 =
    ((s.heap.kmalloc size).1, size) :: without s.live e.1 from
      List.filter_cons_of_pos (by simpa using hne)] at hfits' hkept'
  exact ⟨heap, hfree, hne, l'', hfits', fun c hc => hkept' c (hkept c hc)⟩

/-- No requested size wraps when the header is added to it. -/
def NoWrap (_ : HeapClient) : HeapStep → Prop
  | .kmalloc size => size.toNat + 16 < 2 ^ 64
  | .kzalloc size => size.toNat + 16 < 2 ^ 64
  | .krealloc _ size => size.toNat + 16 < 2 ^ 64
  | .kfree _ => True
  | .write _ _ _ => True
  | .takePages _ => True

lemma Fits.krealloc (h : Fits s l) (he : e ∈ s.live) (hsize : size.toNat + 16 < 2 ^ 64) :
    ∃ r, s.heap.krealloc e.1 size = some r ∧
      Evolves s l (if size = 0 then ⟨r.2, without s.live e.1⟩
        else if r.1 = 0 ∨ r.1 = e.1 then ⟨r.2, s.live⟩
        else ⟨r.2, (r.1, size) :: without s.live e.1⟩) := by
  obtain ⟨a, b, hptr, ha, hholds, hhdr⟩ := h.live e he
  have hlt := h.lt ha
  obtain ⟨hload, hload'⟩ := load_header hlt hhdr
  have hnull : e.1 ≠ 0 := hptr ▸ physToVirt_ne_zero hlt
  unfold KernelHeap.krealloc
  rw [if_neg hnull]
  by_cases hzero : size = 0
  · obtain ⟨heap, hfree, hfits⟩ := h.kfree he
    rw [if_pos hzero, hfree]
    exact ⟨_, rfl, by rwa [if_pos hzero]⟩
  rw [if_neg hzero]
  dsimp only
  rw [show e.1 - HEADER_SIZE = physToVirt a by rw [hptr, physToVirt_sub_header], hload, hload',
    if_neg (not_not.mpr (magicOf_headerWord _))]
  by_cases hshrink : size ≤ e.2
  · rw [if_pos hshrink]
    refine ⟨_, rfl, ?_⟩
    rw [if_neg hzero, if_pos (.inr rfl)]
    exact ⟨l, h, fun _ => id⟩
  rw [if_neg hshrink]
  by_cases hfail : (s.heap.kmalloc size).1 = 0
  · have hfits := h.kmalloc hsize
    rw [HeapClient.adopt, if_pos hfail] at hfits
    rw [if_pos hfail]
    exact ⟨_, rfl, by rwa [if_neg hzero, if_pos (.inl rfl)]⟩
  · obtain ⟨heap, hfree, hne, hfits⟩ := h.move he hsize (BitVec.not_le.mp hshrink) hfail
    rw [if_neg hfail, hfree]
    exact ⟨_, rfl, by rwa [if_neg hzero, if_neg (not_or.mpr ⟨hfail, hne⟩)]⟩

lemma evolves_step {s' : HeapClient} {t : HeapStep} (h : Fits s l) (ht : NoWrap s t)
    (hstep : s.step t = some s') : Evolves s l s' := by
  cases t with
  | kmalloc size =>
    cases hstep
    exact h.kmalloc ht
  | kzalloc size =>
    cases hstep
    exact h.kzalloc ht
  | krealloc pointer size =>
    rw [step] at hstep
    by_cases hnull : pointer = 0
    · rw [if_pos hnull] at hstep
      cases hstep
      exact h.kmalloc ht
    rw [if_neg hnull] at hstep
    by_cases hlive : pointer ∈ s.live.map Prod.fst
    · rw [if_pos hlive] at hstep
      obtain ⟨e, he, rfl⟩ := mem_map.mp hlive
      obtain ⟨r, hr, hfits⟩ := h.krealloc he ht
      rw [hr] at hstep
      cases hstep
      exact hfits
    · rw [if_neg hlive] at hstep
      cases hstep
  | kfree pointer =>
    rw [step] at hstep
    split_ifs at hstep with hnull hlive
    · cases hstep
      exact ⟨l, h, fun _ => id⟩
    · obtain ⟨e, he, rfl⟩ := mem_map.mp hlive
      obtain ⟨heap, hfree, hfits⟩ := h.kfree he
      rw [hfree] at hstep
      cases hstep
      exact hfits
  | write pointer offset byte =>
    rw [step] at hstep
    split_ifs at hstep with hlive
    cases hstep
    obtain ⟨e, he, rfl, hoffset⟩ := hlive
    exact ⟨l, h.setPayload _ he fun w hw => storeByte_of_ne (hw offset hoffset), fun _ => id⟩
  | takePages count =>
    rw [step] at hstep
    cases halloc : s.heap.pages.allocateContiguous count with
    | error e =>
      rw [halloc] at hstep
      cases hstep
      exact ⟨l, h, fun _ => id⟩
    | ok r =>
      rw [halloc] at hstep
      cases hstep
      exact ⟨l, h.takePages (allocateContiguous_spec halloc).2, fun _ => id⟩

lemma evolves_run {s' : HeapClient} {steps : List HeapStep} (h : Fits s l)
    (hwrap : Transition.Along step NoWrap s steps) (hrun : Transition.run step s steps = some s') :
    Evolves s l s' :=
  Transition.run_invariant (fun _ _ _ h ht hstep => h.trans fun _ hfits =>
    evolves_step hfits ht hstep)
    steps s s' ⟨l, h, fun _ => id⟩ hwrap hrun

lemma fits_initial (words : Words) {pages : PageAllocator} (hpages : pages.totalPages ≤ 2 ^ 35) :
    Fits (initial words pages) ⟨fun _ => none, fun _ => none, fun _ => []⟩ where
  total := hpages
  inUse := by simp
  owns := by simp
  shape := by simp
  list _ _ := rfl
  listed := by simp
  nodup := by simp
  live := by simp [initial]
  distinct := by simp [initial]
  counted := rfl

/-- In every run of calls in which no requested size wraps when the header is added, the heap
stays sound, and freeing a live pointer does not panic. -/
theorem kernel_heap_sound {words : Memory.Words} {pages : PageAllocator}
    (hpages : pages.totalPages ≤ 2 ^ 35) {steps : List HeapStep} {s : HeapClient}
    (hrun : Transition.run step (initial words pages) steps = some s)
    (hwrap : Transition.Along step NoWrap (initial words pages) steps) :
    s.Sound ∧ ∀ b ∈ s.live, (s.heap.kfree b.1).isSome := by
  obtain ⟨l, h, -⟩ := evolves_run (fits_initial words hpages) hwrap hrun
  refine ⟨h.sound, fun b hb => ?_⟩
  obtain ⟨heap, hfree, -⟩ := h.kfree hb
  rw [hfree]
  rfl

/-! ## Freeing twice -/

lemma magicOf_physToVirt (ha : a < 2 ^ 47) (halign : a % 16 = 0) :
    magicOf (physToVirt a) ≠ HEADER_MAGIC := by
  intro heq
  have hnat := congrArg BitVec.toNat heq
  rw [magicOf, BitVec.extractLsb'_toNat, toNat_physToVirt ha, Nat.shiftRight_zero,
    show HEADER_MAGIC.toNat = 0x53484954 from rfl] at hnat
  omega

lemma Fits.kfree_free (h : Fits s l) (hk : k < CLASS_COUNT) (ha : a ∈ l.free k) :
    s.heap.kfree (physToVirt (a + 16)) = none := by
  have hlt := h.lt (h.listed k hk a ha)
  rw [KernelHeap.kfree, if_neg (physToVirt_ne_zero hlt)]
  dsimp only
  rw [physToVirt_sub_header, load, virtToPhys_physToVirt (by omega)]
  refine if_pos ?_
  rcases (h.list k hk).link ha with hlink | ⟨c, hc, hlink⟩
  · rw [hlink]
    decide
  · have hc := h.listed k hk c hc
    rw [hlink]
    exact magicOf_physToVirt (by have := h.lt hc; omega) (h.aligned hc)

/-- In every run of calls in which no requested size wraps when the header is added, `kfree` panics
on a pointer to a small block that has been freed and not been handed out again. -/
theorem kfree_twice_panics {words : Memory.Words} {pages : PageAllocator}
    (hpages : pages.totalPages ≤ 2 ^ 35) {before after : List HeapStep} {s s' : HeapClient}
    (hrun : Transition.run step (initial words pages) before = some s)
    (hwrap : Transition.Along step NoWrap (initial words pages) before) {e : U64 × U64}
    (he : e ∈ s.live) (hsmall : sizeClassOf (s.heap.load (e.1 - HEADER_SIZE)) ≠ CLASS_LARGE)
    (hrun' : Transition.run step s after = some s') (hwrap' : Transition.Along step NoWrap s after)
    (hfreed : e.1 ∉ s'.live.map Prod.fst) : s'.heap.kfree e.1 = none := by
  obtain ⟨l, h, -⟩ := evolves_run (fits_initial words hpages) hwrap hrun
  obtain ⟨a, b, hptr, ha, hholds, hheader⟩ := h.live e he
  rw [hptr, physToVirt_sub_header, (load_header (h.lt ha) hheader).1] at hsmall
  obtain ⟨l', h', hkept⟩ := evolves_run h hwrap' hrun'
  rcases hholds with ⟨k, rfl⟩ | rfl
  · rcases hkept a (.inr ⟨k, e.2, hptr ▸ he, ha⟩) with ⟨j, hj, hfree⟩ | ⟨j, size, hlive, -⟩
    · rw [hptr]
      exact h'.kfree_free hj hfree
    · rw [hptr] at hfreed
      exact absurd (List.mem_map_of_mem hlive) hfreed
  · exact absurd (sizeClassOf_headerWord (show CLASS_LARGE < 2 ^ 16 by decide)) hsmall

end Fits

/-! ## A run, and a size that wraps -/

/-- A machine with four pages of memory, none of them in use. -/
def fourPages : PageAllocator := ⟨4, fun _ => false, 0, 0⟩

/-- Two allocations, the first grown and the second freed. -/
def someCalls : List HeapStep :=
  [.kmalloc 40, .kzalloc 3000, .krealloc (physToVirt 4048) 200, .kfree (physToVirt 4112)]

theorem kernel_heap_sound_after_calls :
    ∃ s, Transition.run step (initial (fun _ => 0) fourPages) someCalls = some s ∧
      s.live = [(physToVirt 12048, 200)] ∧ s.Sound := by
  refine Transition.exists_run_of_map live [(physToVirt 12048, 200)] (by decide +kernel)
    fun s hs hlive => ⟨hlive, (kernel_heap_sound (by decide) hs ?_).1⟩
  simp [someCalls, Transition.Along, NoWrap]

/-- The heap after `kmalloc (2 ^ 64 - 1)`. -/
def wrapped : HeapClient :=
  adopt [] (allOnes 64) ((initial (fun _ => 0) fourPages).heap.kmalloc (allOnes 64))

/-- On a fresh heap, `kmalloc (2 ^ 64 - 1)` returns a chunk of 32 bytes. -/
theorem kmalloc_wrapped_size :
    Transition.run step (initial (fun _ => 0) fourPages) [.kmalloc (allOnes 64)] =
      some wrapped ∧ wrapped.live = [(physToVirt 4080, allOnes 64)] ∧
    blockLength wrapped.heap (physToVirt 4080) = 32 ∧ ¬ wrapped.Sound := by
  have hlive : wrapped.live = [(physToVirt 4080, allOnes 64)] := by decide +kernel
  have hlength : blockLength wrapped.heap (physToVirt 4080) = 32 := by decide +kernel
  refine ⟨rfl, hlive, hlength, fun h => ?_⟩
  have hroom := h.room (physToVirt 4080, allOnes 64) (by rw [hlive]; exact mem_cons_self)
  rw [hlength] at hroom
  exact absurd hroom (by decide)

/-- A small block is freed, and another one handed out. -/
theorem kfree_twice_panics_first :
    ∃ s s', Transition.run step (initial (fun _ => 0) fourPages) [.kmalloc 16] = some s ∧
      Transition.run step s [.kfree (physToVirt 4080), .kmalloc 48] = some s' ∧
      s'.heap.kfree (physToVirt 4080) = none := by
  refine ⟨_, _, rfl, rfl, @kfree_twice_panics (fun _ => 0) fourPages (by decide) [.kmalloc 16]
    [.kfree (physToVirt 4080), .kmalloc 48] _ _ rfl ?_ (physToVirt 4080, 16) ?_ ?_ rfl ?_ ?_⟩
  · simp [Transition.Along, NoWrap]
  · decide +kernel
  · decide +kernel
  · simp [Transition.Along, NoWrap]
  · decide +kernel

/-- Two small blocks are freed.  A third allocation, which has the magic number at its offset 16, is
resized to `2 ^ 64 - 1` bytes: `krealloc` copies 48 bytes to a chunk of 32. -/
def overwriting : List HeapStep :=
  [.kmalloc 16, .kfree (physToVirt 4080), .kfree (physToVirt 4048), .kmalloc 48,
    .write (physToVirt 8144) 16 0x54, .write (physToVirt 8144) 17 0x49,
    .write (physToVirt 8144) 18 0x48, .write (physToVirt 8144) 19 0x53,
    .krealloc (physToVirt 8144) (allOnes 64)]

/-- The copy puts a header in front of the block that was freed first, and `kfree` takes it again.
-/
theorem freed_block_accepted :
    ∃ s s', Transition.run step (initial (fun _ => 0) fourPages) [.kmalloc 16] = some s ∧
      (physToVirt 4080, 16) ∈ s.live ∧ Transition.run step s overwriting = some s' ∧
      physToVirt 4080 ∉ s'.live.map Prod.fst ∧ (s'.heap.kfree (physToVirt 4080)).isSome := by
  refine ⟨_, _, rfl, ?_, rfl, ?_, ?_⟩ <;> decide +kernel

end HeapClient
end ShitOs
