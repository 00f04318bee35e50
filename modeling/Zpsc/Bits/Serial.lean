import Zpsc.Bits.NumericStd

/-!
# Serial words

The bits of a word in the order in which they go over a serial line, the most significant one first,
and the register that they are shifted into or out of.
-/

namespace Bits

variable {w : ℕ}

/-- The bits of a word, the most significant one first. -/
def msbFirst (x : BitVec w) : List Bool := (List.range w).map x.getMsbD

@[simp] theorem length_msbFirst (x : BitVec w) : (msbFirst x).length = w := by
  rw [msbFirst, List.length_map, List.length_range]

theorem getElem_msbFirst (x : BitVec w) {k : ℕ} (hk : k < (msbFirst x).length) :
    (msbFirst x)[k] = x.getMsbD k := by
  simp only [msbFirst, List.getElem_map, List.getElem_range]

theorem msbFirst_inj {x y : BitVec w} : msbFirst x = msbFirst y ↔ x = y := by
  constructor
  · intro h
    apply BitVec.eq_of_getMsbD_eq
    intro k hk
    rw [← getElem_msbFirst x (by simpa using hk), ← getElem_msbFirst y (by simpa using hk)]
    congr 1
  · rintro rfl
    rfl

/-- The `k` bits of a word below bit `n`, from the top. -/
def below (x : BitVec w) (n k : ℕ) : List Bool := (List.range k).map fun j => x.getLsbD (n - 1 - j)

theorem below_add (x : BitVec w) (n k l : ℕ) :
    below x n (k + l) = below x n k ++ below x (n - k) l := by
  rw [below, List.range_add, List.map_append, List.map_map]
  congr 2
  funext j
  rw [Function.comp_apply]
  congr 1
  omega

theorem msbFirst_extractLsb' (x : BitVec w) (a n : ℕ) :
    msbFirst (x.extractLsb' a n) = below x (a + n) n := by
  rw [msbFirst, below, List.map_inj_left]
  intro j hj
  have hlt : j < n := List.mem_range.mp hj
  rw [BitVec.getMsbD, BitVec.getLsbD_extractLsb', decide_eq_true hlt,
    decide_eq_true (show n - 1 - j < n by omega), Bool.true_and, Bool.true_and]
  congr 1
  omega

/-- Bits in the middle of a word. -/
theorem below_eq_take (x : BitVec w) {n k : ℕ} (hn : n ≤ w) (hk : k ≤ n) :
    below x n k = ((msbFirst x).drop (w - n)).take k := by
  apply List.ext_getElem
  · simp only [below, List.length_map, List.length_range, List.length_take, List.length_drop,
      length_msbFirst]
    omega
  · intro j hj hj'
    have hlt : j < k := by simpa [below] using hj
    simp only [below, List.getElem_map, List.getElem_range, List.getElem_take, List.getElem_drop,
      getElem_msbFirst, BitVec.getMsbD]
    rw [decide_eq_true (by omega), Bool.true_and]
    congr 1
    omega

/-! ## Shift registers -/

/-- `x(w - 1 downto 0) & b`. -/
def shiftIn (x : BitVec (w + 1)) (b : Bool) : BitVec (w + 1) :=
  x.extractLsb' 0 w ++ BitVec.ofBool b

theorem getMsbD_shiftIn (x : BitVec (w + 1)) (b : Bool) (k : ℕ) :
    (shiftIn x b).getMsbD k = if k = w then b else x.getMsbD (k + 1) := by
  have hlow : ∀ j, (shiftIn x b).getLsbD j =
      if j = 0 then b else j - 1 < w && x.getLsbD (j - 1) := by
    intro j
    rw [shiftIn, BitVec.getLsbD_append, BitVec.getLsbD_ofBool, BitVec.getLsbD_extractLsb']
    by_cases hj : j = 0
    · simp [hj]
    · simp [hj]
  rw [BitVec.getMsbD, BitVec.getMsbD, hlow]
  rcases Nat.lt_trichotomy k w with hlt | rfl | hgt
  · rw [if_neg (by omega), if_neg (by omega), show w + 1 - 1 - k - 1 = w + 1 - 1 - (k + 1) by omega]
    simp [show k < w + 1 by omega, show k + 1 < w + 1 by omega, show w - (k + 1) < w by omega]
  · simp
  · simp [show ¬ k < w + 1 by omega, show ¬ k + 1 < w + 1 by omega, show k ≠ w by omega]

/-- A bit that is shifted in pushes the first one out. -/
theorem msbFirst_shiftIn (x : BitVec (w + 1)) (b : Bool) :
    msbFirst (shiftIn x b) = (msbFirst x).tail ++ [b] := by
  have hlen : (msbFirst x).tail.length = w := by rw [List.length_tail, length_msbFirst]; rfl
  apply List.ext_getElem
  · rw [List.length_append, hlen, length_msbFirst, List.length_singleton]
  · intro k hk hk'
    rw [length_msbFirst] at hk
    rw [getElem_msbFirst, getMsbD_shiftIn]
    split
    · next h => simp [List.getElem_append_right, hlen, h]
    · next h =>
      rw [List.getElem_append_left (by omega), List.getElem_tail, getElem_msbFirst]

/-- The last bits of a register that bits are shifted into, one bit more. -/
theorem drop_msbFirst_shiftIn (x : BitVec (w + 1)) (b : Bool) {k : ℕ} (hk : k ≤ w) :
    (msbFirst (shiftIn x b)).drop (w - k) = (msbFirst x).drop (w + 1 - k) ++ [b] := by
  have hlen : (msbFirst x).tail.length = w := by rw [List.length_tail, length_msbFirst]; rfl
  rw [msbFirst_shiftIn, List.drop_append_of_le_length (by omega), List.drop_tail,
    Nat.sub_add_comm hk]

/-- `x(k) <= b`. -/
def setBit (x : BitVec w) (k : ℕ) (b : Bool) : BitVec w :=
  ofBits w fun j => if j = k then b else x.getLsbD j

theorem getLsbD_setBit (x : BitVec w) (k : ℕ) (b : Bool) {j : ℕ} (hj : j < w) :
    (setBit x k b).getLsbD j = if j = k then b else x.getLsbD j := by
  rw [setBit, getLsbD_ofBits, decide_eq_true hj, Bool.true_and]

/-- A word that is written from the top, one bit more. -/
theorem below_setBit (x : BitVec w) {n k : ℕ} (hk : k < n) (hn : n ≤ w) (b : Bool) :
    below (setBit x (n - 1 - k) b) n (k + 1) = below x n k ++ [b] := by
  rw [below, List.range_succ, List.map_append, List.map_singleton,
    getLsbD_setBit x _ b (by omega), if_pos rfl]
  congr 1
  rw [below, List.map_inj_left]
  intro j hj
  have hlt : j < k := List.mem_range.mp hj
  rw [getLsbD_setBit x _ b (by omega), if_neg (by omega)]

end Bits
