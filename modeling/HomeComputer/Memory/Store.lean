/-
A store of bytes.

Memory starts out as zeros and most of it stays so: a store keeps pages of words, and
of those only the ones that are not all zero, in an extensional map.  So two stores of
one size are equal exactly when they hold the same bytes, the size of a store costs
nothing, and a long stretch of one value is set page by page.

Offsets count bytes from the start of the store.  A word access rounds its offset
down; a byte access touches one lane of one word.  Putting and filling bytes is defined
by whole words and pages as far as they reach, and shown to be the same as writing one
byte after the other.
-/
import HomeComputer.Memory.Bus
import Std.Data.ExtTreeMap

namespace HomeComputer

/-- Words next to each other, kept together. -/
abbrev Page := Vector Word 64

/-- The page of one word over and over. -/
def Page.uniform (w : Word) : Page := Vector.replicate 64 w

/-- Bytes that can be read and written. -/
structure Store where
  /-- The number of bytes, a multiple of four. -/
  size : Nat
  /-- The pages that are not all zero, by their index. -/
  pages : Std.ExtTreeMap Nat Page := {}

namespace Store

/-- A store of zeros, with room for at least `len` bytes. -/
def zeros (len : Nat) : Store := { size := (len + 3) / 4 * 4 }

/-- The size of a store with room for `len` bytes as it is worked out in words: a word width is
added before anything is taken away, and the sum must be a word. -/
def room? (len : Word) : Option Word :=
  if len.toNat + 4 < 0x100000000 then some ((len + 4#32 - 1#32) &&& ~~~3#32) else none

/-! ### Pages and words -/

def page (s : Store) (p : Nat) : Page := s.pages.getD p (Page.uniform 0#32)

def setPage (s : Store) (p : Nat) (v : Page) : Store :=
  { s with pages := if v = Page.uniform 0#32 then s.pages.erase p else s.pages.insert p v }

def getWord (s : Store) (i : Nat) : Word := (s.page (i / 64))[i % 64]

def setWord (s : Store) (i : Nat) (w : Word) : Store :=
  s.setPage (i / 64) ((s.page (i / 64)).set (i % 64) w)

/-- The word that holds the byte at an offset. -/
def word (s : Store) (offset : Nat) : Word := s.getWord (offset / 4)

/-- The store after lanes of the word at an offset were written. -/
def write (s : Store) (offset : Nat) (value : Word) (lanes : Lanes) : Store :=
  s.setWord (offset / 4) (lanes.merge (s.word offset) value)

/-! ### Bytes -/

def byte (s : Store) (offset : Nat) : Byte := (s.word offset).byte (offset % 4)

/-- A word that holds a byte in every lane. -/
def repeated (b : Byte) : Word := b.setWidth 32 * 0x01010101#32

def setByte (s : Store) (offset : Nat) (b : Byte) : Store :=
  s.write offset (repeated b) (Lanes.span (offset % 4) 1)

/-- The store with bytes replaced from an offset on, one by one. -/
def setBytes (s : Store) (offset : Nat) : List Byte → Store
  | [] => s
  | b :: bs => (s.setByte offset b).setBytes (offset + 1) bs

/-- The store with bytes replaced from the word with index `i` on, four by four. -/
def putWords (s : Store) (i : Nat) : List Byte → Store
  | b₀ :: b₁ :: b₂ :: b₃ :: rest => (s.setWord i (Word.ofBytes b₀ b₁ b₂ b₃)).putWords (i + 1) rest
  | rest => s.setBytes (4 * i) rest

/-- The store with bytes replaced from an offset on. -/
def put (s : Store) (offset : Nat) (data : List Byte) : Store :=
  let before := (4 - offset % 4) % 4
  (s.setBytes offset (data.take before)).putWords ((offset + before) / 4) (data.drop before)

/-! ### Filling -/

/-- The store with `len` bytes replaced by one value from an offset on, byte by byte. -/
def fillBytes (s : Store) (offset : Nat) (b : Byte) : Nat → Store
  | 0 => s
  | len + 1 => (s.setByte offset b).fillBytes (offset + 1) b len

/-- The store with `count` words replaced by one value from the index `i` on, word by word. -/
def fillWords (s : Store) (i : Nat) (w : Word) : Nat → Store
  | 0 => s
  | count + 1 => (s.setWord i w).fillWords (i + 1) w count

/-- The store with `count` pages replaced by one page from the index `p` on. -/
def fillPages (s : Store) (p : Nat) (v : Page) : Nat → Store
  | 0 => s
  | count + 1 => (s.setPage p v).fillPages (p + 1) v count

/-- The store with `count` words replaced by one value from the index `i` on. -/
def fillRun (s : Store) (i : Nat) (w : Word) (count : Nat) : Store :=
  let before := min count ((64 - i % 64) % 64)
  let pages := (count - before) / 64
  let after := (count - before) % 64
  let s := s.fillWords i w before
  let s := s.fillPages ((i + before) / 64) (Page.uniform w) pages
  s.fillWords (i + before + 64 * pages) w after

/-- The store with `len` bytes replaced by one value from an offset on. -/
def fill (s : Store) (offset len : Nat) (b : Byte) : Store :=
  let before := min len ((4 - offset % 4) % 4)
  let count := (len - before) / 4
  let after := (len - before) % 4
  let s := s.fillBytes offset b before
  let s := s.fillRun ((offset + before) / 4) (repeated b) count
  s.fillBytes (offset + before + 4 * count) b after

/-! ### Reading after writing -/

theorem page_setPage (s : Store) (p q : Nat) (v : Page) :
    (s.setPage p v).page q = if p = q then v else s.page q := by
  by_cases hv : v = Page.uniform 0#32
  · by_cases hpq : p = q
    · simp [page, setPage, hv, hpq]
    · simp [page, setPage, hv, Std.ExtTreeMap.getD_erase, hpq]
  · by_cases hpq : p = q
    · simp [page, setPage, hv, hpq]
    · simp [page, setPage, hv, Std.ExtTreeMap.getD_insert, hpq]

theorem setPage_setPage (s : Store) (p : Nat) (u v : Page) :
    (s.setPage p u).setPage p v = s.setPage p v := by
  simp only [setPage]
  congr 1
  apply Std.ExtTreeMap.ext_getElem?
  intro k
  by_cases hk : p = k
  · subst hk
    split <;> simp
  · split <;> split <;> simp [Std.ExtTreeMap.getElem?_erase, Std.ExtTreeMap.getElem?_insert, hk]

theorem getWord_setWord (s : Store) (i j : Nat) (w : Word) :
    (s.setWord i w).getWord j = if i = j then w else s.getWord j := by
  simp only [getWord, setWord, page_setPage]
  by_cases hij : i = j
  · simp [hij]
  · by_cases hpage : i / 64 = j / 64
    · have hplace : i % 64 ≠ j % 64 := by omega
      simp [hij, hpage, hplace]
    · simp [hij, hpage]

theorem setWord_setPage (s : Store) (p j : Nat) (hj : j < 64) (v : Page) (w : Word) :
    (s.setPage p v).setWord (64 * p + j) w = s.setPage p (v.set j w) := by
  simp only [setWord, show (64 * p + j) / 64 = p by omega, show (64 * p + j) % 64 = j by omega,
    page_setPage, if_true, setPage_setPage]

theorem setWord_setWord (s : Store) (i : Nat) (v w : Word) :
    (s.setWord i v).setWord i w = s.setWord i w := by
  simp only [setWord, page_setPage, if_true, setPage_setPage, Vector.set_set]

/-! ### Putting is writing byte by byte -/

theorem setBytes_append (s : Store) (offset : Nat) (xs ys : List Byte) :
    s.setBytes offset (xs ++ ys) = (s.setBytes offset xs).setBytes (offset + xs.length) ys := by
  induction xs generalizing s offset with
  | nil => rfl
  | cons b xs ih =>
      rw [List.cons_append, setBytes, ih, setBytes, List.length_cons]
      rw [show offset + 1 + xs.length = offset + (xs.length + 1) by omega]

theorem repeated_eq (b : Byte) : repeated b = b ++ b ++ b ++ b := by
  revert b
  decide +kernel

theorem getElem_mask_span (k : Nat) (hk : k < 4) (i : Nat) (hi : i < 32) :
    (Lanes.span k 1).mask[i] = decide (i / 8 = k) := by
  revert i k
  decide +kernel

/-- Writing each lane of a word leaves nothing of what it held. -/
theorem merge_lanes (w : Word) (b₀ b₁ b₂ b₃ : Byte) :
    (Lanes.span 3 1).merge ((Lanes.span 2 1).merge ((Lanes.span 1 1).merge
      ((Lanes.span 0 1).merge w (repeated b₀)) (repeated b₁)) (repeated b₂)) (repeated b₃) =
      Word.ofBytes b₀ b₁ b₂ b₃ := by
  ext i hi
  have hlane : i / 8 = 0 ∨ i / 8 = 1 ∨ i / 8 = 2 ∨ i / 8 = 3 := by omega
  have hbytes : (Word.ofBytes b₀ b₁ b₂ b₃)[i] = (b₃ ++ b₂ ++ b₁ ++ b₀)[i] := rfl
  simp only [hbytes, Lanes.merge, repeated_eq, BitVec.getElem_or, BitVec.getElem_and,
    BitVec.getElem_not, getElem_mask_span _ (by decide : 0 < 4),
    getElem_mask_span _ (by decide : 1 < 4), getElem_mask_span _ (by decide : 2 < 4),
    getElem_mask_span _ (by decide : 3 < 4), BitVec.getElem_append]
  rcases hlane with h | h | h | h
  · simp [h, show i < 8 by omega]
  · simp [h, show ¬i < 8 by omega, show i - 8 < 8 by omega]
  · simp [h, show ¬i < 8 by omega, show ¬i - 8 < 8 by omega, show i - 8 - 8 < 8 by omega]
  · simp [h, show ¬i < 8 by omega, show ¬i - 8 < 8 by omega, show ¬i - 8 - 8 < 8 by omega]

/-- Four bytes from a multiple of four on are a word. -/
theorem setBytes_four (s : Store) (i : Nat) (b₀ b₁ b₂ b₃ : Byte) :
    s.setBytes (4 * i) [b₀, b₁, b₂, b₃] = s.setWord i (Word.ofBytes b₀ b₁ b₂ b₃) := by
  simp only [setBytes, setByte, write, word]
  rw [show 4 * i / 4 = i by omega, show (4 * i + 1) / 4 = i by omega,
    show (4 * i + 1 + 1) / 4 = i by omega, show (4 * i + 1 + 1 + 1) / 4 = i by omega,
    show 4 * i % 4 = 0 by omega, show (4 * i + 1) % 4 = 1 by omega,
    show (4 * i + 1 + 1) % 4 = 2 by omega, show (4 * i + 1 + 1 + 1) % 4 = 3 by omega]
  simp only [getWord_setWord, if_true, setWord_setWord, merge_lanes]

theorem putWords_eq_setBytes (s : Store) (i : Nat) (data : List Byte) :
    s.putWords i data = s.setBytes (4 * i) data := by
  fun_induction putWords s i data with
  | case1 s i b₀ b₁ b₂ b₃ rest ih =>
      rw [ih, ← setBytes_four, show 4 * (i + 1) = 4 * i + [b₀, b₁, b₂, b₃].length from rfl,
        ← setBytes_append]
      rfl
  | case2 => rfl

theorem put_eq_setBytes (s : Store) (offset : Nat) (data : List Byte) :
    s.put offset data = s.setBytes offset data := by
  simp only [put, putWords_eq_setBytes]
  generalize hbefore : (4 - offset % 4) % 4 = before
  by_cases hle : before ≤ data.length
  · have haligned : 4 * ((offset + before) / 4) = offset + (data.take before).length := by
      rw [List.length_take]
      omega
    rw [haligned, ← setBytes_append, List.take_append_drop]
  · rw [List.drop_of_length_le (by omega), List.take_of_length_le (by omega), setBytes]

/-! ### Filling is writing byte by byte -/

theorem fillBytes_eq_setBytes (s : Store) (offset : Nat) (b : Byte) (len : Nat) :
    s.fillBytes offset b len = s.setBytes offset (List.replicate len b) := by
  induction len generalizing s offset with
  | zero => rfl
  | succ len ih => simp [fillBytes, setBytes, List.replicate_succ, ih]

theorem fillBytes_add (s : Store) (offset : Nat) (b : Byte) (m n : Nat) :
    s.fillBytes offset b (m + n) = (s.fillBytes offset b m).fillBytes (offset + m) b n := by
  simp only [fillBytes_eq_setBytes, ← List.replicate_append_replicate, setBytes_append,
    List.length_replicate]

theorem fillWords_eq_fillBytes (s : Store) (i : Nat) (b : Byte) (count : Nat) :
    s.fillWords i (repeated b) count = s.fillBytes (4 * i) b (4 * count) := by
  have hword : repeated b = Word.ofBytes b b b b := repeated_eq b
  induction count generalizing s i with
  | zero => rfl
  | succ count ih =>
      rw [show 4 * (count + 1) = 4 + 4 * count by omega, fillBytes_add,
        fillBytes_eq_setBytes s (4 * i), show List.replicate 4 b = [b, b, b, b] from rfl,
        setBytes_four, ← hword, fillWords, ih, show 4 * (i + 1) = 4 * i + 4 by omega]

theorem fillWords_add (s : Store) (i : Nat) (w : Word) (m n : Nat) :
    s.fillWords i w (m + n) = (s.fillWords i w m).fillWords (i + m) w n := by
  induction m generalizing s i with
  | zero => simp [fillWords]
  | succ m ih =>
      rw [show m + 1 + n = (m + n) + 1 by omega]
      simp only [fillWords, ih]
      rw [show i + 1 + m = i + (m + 1) by omega]

/-- Filling on from within a page that was just replaced completes that page. -/
theorem fillWords_setPage (s : Store) (p j k : Nat) (hjk : j + k = 64) (v : Page) (w : Word) :
    (s.setPage p v).fillWords (64 * p + j) w k =
      s.setPage p (Vector.ofFn fun i : Fin 64 => if i.val < j then v[i.val] else w) := by
  induction k generalizing j v with
  | zero =>
      refine congrArg (s.setPage p) (Vector.ext fun i hi => ?_)
      simp [show i < j by omega]
  | succ k ih =>
      simp only [fillWords, setWord_setPage s p j (by omega)]
      refine (ih (j + 1) (by omega) _).trans (congrArg (s.setPage p) (Vector.ext fun i hi => ?_))
      simp only [Vector.getElem_ofFn, Vector.getElem_set]
      by_cases hij : j = i
      · simp [hij]
      · by_cases hlt : i < j
        · simp [hij, hlt, show i < j + 1 by omega]
        · simp [hlt, show ¬i < j + 1 by omega]

/-- Sixty-four words from a multiple of sixty-four on are a page. -/
theorem fillWords_page (s : Store) (p : Nat) (w : Word) :
    s.fillWords (64 * p) w 64 = s.setPage p (Page.uniform w) := by
  have hfirst : s.fillWords (64 * p) w 1 = s.setPage p ((s.page p).set 0 w) := by
    simp only [fillWords, setWord, show 64 * p / 64 = p by omega, show 64 * p % 64 = 0 by omega]
  rw [fillWords_add s (64 * p) w 1 63, hfirst, fillWords_setPage s p 1 63 rfl]
  refine congrArg (s.setPage p) (Vector.ext fun i hi => ?_)
  by_cases h0 : i = 0
  · simp [h0, Page.uniform]
  · simp [h0, Page.uniform]

theorem fillPages_eq_fillWords (s : Store) (p : Nat) (w : Word) (count : Nat) :
    s.fillPages p (Page.uniform w) count = s.fillWords (64 * p) w (64 * count) := by
  induction count generalizing s p with
  | zero => rfl
  | succ count ih =>
      rw [show 64 * (count + 1) = 64 + 64 * count by omega, fillWords_add, fillWords_page,
        fillPages, ih, show 64 * (p + 1) = 64 * p + 64 by omega]

theorem fillRun_eq_fillWords (s : Store) (i : Nat) (w : Word) (count : Nat) :
    s.fillRun i w count = s.fillWords i w count := by
  simp only [fillRun, fillPages_eq_fillWords]
  generalize hbefore : min count ((64 - i % 64) % 64) = before
  by_cases hpages : (count - before) / 64 = 0
  · rw [hpages]
    have : count = before + (count - before) % 64 := by omega
    conv => rhs; rw [this, fillWords_add]
    simp [fillWords]
  · have haligned : 64 * ((i + before) / 64) = i + before := by omega
    rw [haligned, ← fillWords_add, ← fillWords_add]
    exact congrArg (s.fillWords i w) (by omega)

theorem fill_eq_setBytes (s : Store) (offset len : Nat) (b : Byte) :
    s.fill offset len b = s.setBytes offset (List.replicate len b) := by
  simp only [fill, fillRun_eq_fillWords, fillWords_eq_fillBytes]
  generalize hbefore : min len ((4 - offset % 4) % 4) = before
  have hle : before ≤ len := by omega
  by_cases hcount : (len - before) / 4 = 0
  · rw [hcount, ← fillBytes_eq_setBytes]
    have : len = before + (len - before) % 4 := by omega
    conv => rhs; rw [this, fillBytes_add]
    simp [fillBytes]
  · have haligned : 4 * ((offset + before) / 4) = offset + before := by omega
    rw [haligned, ← fillBytes_add, ← fillBytes_eq_setBytes]
    have : len = before + (4 * ((len - before) / 4) + (len - before) % 4) := by omega
    conv => rhs; rw [this, fillBytes_add]

end Store

end HomeComputer
