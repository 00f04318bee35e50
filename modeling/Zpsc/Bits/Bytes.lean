import Mathlib.Tactic.Common

/-!
# Words built byte by byte

A byte-serial receiver assembles a word by assigning one 8-bit slice of it per clock:
`v(8*i+7 downto 8*i) <= b`. `setByte v i b` is that assignment. The lemmas say what assigning all
bytes of a word, most significant first, leaves in it: the big-endian word `be16` or `be32` of the
bytes, whatever the word held before.
-/

namespace Bits

/-- An octet of a byte stream. -/
abbrev Byte := BitVec 8

/-- The word `v` with bits `8*i+7 downto 8*i` replaced by `b`. -/
def setByte {w : ℕ} (v : BitVec w) (i : ℕ) (b : Byte) : BitVec w :=
  (v &&& ~~~((255#w) <<< (8 * i))) ||| (b.setWidth w <<< (8 * i))

/-- The big-endian 16-bit word of two bytes. -/
def be16 (a b : Byte) : BitVec 16 := a ++ b

/-- The big-endian 32-bit word of four bytes. -/
def be32 (a b c d : Byte) : BitVec 32 := a ++ b ++ c ++ d

theorem getLsbD_255 (w j : ℕ) : (255#w).getLsbD j = (decide (j < w) && decide (j < 8)) := by
  have h : (255 : ℕ).testBit j = decide (j < 8) := by
    simpa using Nat.testBit_two_pow_sub_one 8 j
  rw [BitVec.getLsbD_ofNat, h]

theorem getLsbD_setByte {w : ℕ} (v : BitVec w) (i : ℕ) (b : Byte) (j : ℕ) (hj : j < w) :
    (setByte v i b).getLsbD j =
      if 8 * i ≤ j ∧ j < 8 * i + 8 then b.getLsbD (j - 8 * i) else v.getLsbD j := by
  have hjw : j - 8 * i < w := by omega
  simp only [setByte, BitVec.getLsbD_or, BitVec.getLsbD_and, BitVec.getLsbD_not,
    BitVec.getLsbD_shiftLeft, BitVec.getLsbD_setWidth, getLsbD_255, hj, hjw, decide_true,
    Bool.true_and]
  by_cases h1 : j < 8 * i
  · simp [h1, show ¬ (8 * i ≤ j ∧ j < 8 * i + 8) by omega]
  · by_cases h2 : j < 8 * i + 8
    · have h3 : j - 8 * i < 8 := by omega
      simp [h1, h3, show 8 * i ≤ j ∧ j < 8 * i + 8 by omega]
    · have h3 : ¬ j - 8 * i < 8 := by omega
      have h4 : b.getLsbD (j - 8 * i) = false := BitVec.getLsbD_of_ge _ _ (by omega)
      simp [h1, h3, h4, show ¬ (8 * i ≤ j ∧ j < 8 * i + 8) by omega]

theorem getLsbD_be16 (a b : Byte) (j : ℕ) :
    (be16 a b).getLsbD j = if j < 8 then b.getLsbD j else a.getLsbD (j - 8) := by
  rw [be16, BitVec.getLsbD_append]

theorem getLsbD_be32 (a b c d : Byte) (j : ℕ) :
    (be32 a b c d).getLsbD j =
      if j < 8 then d.getLsbD j
      else if j < 16 then c.getLsbD (j - 8)
      else if j < 24 then b.getLsbD (j - 16)
      else a.getLsbD (j - 24) := by
  rw [be32, BitVec.getLsbD_append, BitVec.getLsbD_append, BitVec.getLsbD_append, Nat.sub_sub,
    Nat.sub_sub]
  by_cases h1 : j < 8
  · simp [h1]
  by_cases h2 : j < 16
  · simp [h1, h2, show j - 8 < 8 by omega]
  by_cases h3 : j < 24
  · simp [h1, h2, h3, show ¬ j - 8 < 8 by omega, show j - (8 + 8) < 8 by omega]
  · simp [h1, h2, h3, show ¬ j - 8 < 8 by omega, show ¬ j - (8 + 8) < 8 by omega]

theorem setByte_be16 (v : BitVec 16) (a b : Byte) :
    setByte (setByte v 1 a) 0 b = be16 a b := by
  apply BitVec.eq_of_getLsbD_eq
  intro j hj
  rw [getLsbD_setByte _ _ _ _ hj, getLsbD_setByte _ _ _ _ hj, getLsbD_be16]
  by_cases h : j < 8
  · simp [h]
  · simp [h, show 8 ≤ j by omega, show j < 16 by omega]

theorem setByte_be32 (v : BitVec 32) (a b c d : Byte) :
    setByte (setByte (setByte (setByte v 3 a) 2 b) 1 c) 0 d = be32 a b c d := by
  apply BitVec.eq_of_getLsbD_eq
  intro j hj
  rw [getLsbD_setByte _ _ _ _ hj, getLsbD_setByte _ _ _ _ hj, getLsbD_setByte _ _ _ _ hj,
    getLsbD_setByte _ _ _ _ hj, getLsbD_be32]
  by_cases h1 : j < 8
  · simp [h1]
  by_cases h2 : j < 16
  · simp [h1, h2, show 8 ≤ j by omega]
  by_cases h3 : j < 24
  · simp [h1, h2, h3, show 16 ≤ j by omega]
  · simp [h1, h2, h3, show 24 ≤ j by omega, show j < 32 by omega]

/-- The upper three bytes of a word whose last byte is still to come, with that byte appended: how
the receiver forms a complete word in the clock of its last byte. -/
theorem extract_append_eq_setByte (v : BitVec 32) (d : Byte) :
    (v.extractLsb' 8 24 ++ d : BitVec 32) = setByte v 0 d := by
  apply BitVec.eq_of_getLsbD_eq
  intro j hj
  rw [BitVec.getLsbD_append, BitVec.getLsbD_extractLsb', getLsbD_setByte _ 0 d j hj]
  by_cases h : j < 8
  · simp [h]
  · simp [h, show 8 + (j - 8) = j by omega, show j - 8 < 24 by omega]

theorem be16_inj {a b c d : Byte} : be16 a b = be16 c d ↔ a = c ∧ b = d := by
  constructor
  · intro h
    refine ⟨BitVec.eq_of_getLsbD_eq ?_, BitVec.eq_of_getLsbD_eq ?_⟩
    · intro j hj
      have := congrArg (fun w : BitVec 16 => w.getLsbD (j + 8)) h
      simpa only [getLsbD_be16, show ¬ j + 8 < 8 by omega, if_false, Nat.add_sub_cancel] using this
    · intro j hj
      have := congrArg (fun w : BitVec 16 => w.getLsbD j) h
      simpa only [getLsbD_be16, hj, if_true] using this
  · rintro ⟨rfl, rfl⟩
    rfl

theorem be32_inj {a b c d a' b' c' d' : Byte} :
    be32 a b c d = be32 a' b' c' d' ↔ a = a' ∧ b = b' ∧ c = c' ∧ d = d' := by
  constructor
  · intro h
    have hbit : ∀ j, (be32 a b c d).getLsbD j = (be32 a' b' c' d').getLsbD j := fun j => by rw [h]
    simp only [getLsbD_be32] at hbit
    refine ⟨BitVec.eq_of_getLsbD_eq fun j hj => ?_, BitVec.eq_of_getLsbD_eq fun j hj => ?_,
      BitVec.eq_of_getLsbD_eq fun j hj => ?_, BitVec.eq_of_getLsbD_eq fun j hj => ?_⟩
    · simpa [show ¬ j + 24 < 8 by omega, show ¬ j + 24 < 16 by omega,
        show ¬ j + 24 < 24 by omega] using hbit (j + 24)
    · simpa [show ¬ j + 16 < 8 by omega, show ¬ j + 16 < 16 by omega,
        show j + 16 < 24 by omega] using hbit (j + 16)
    · simpa [show ¬ j + 8 < 8 by omega, show j + 8 < 16 by omega] using hbit (j + 8)
    · simpa [hj] using hbit j
  · rintro ⟨rfl, rfl, rfl, rfl⟩
    rfl

/-- The bytes of a 16-bit word as they stand in memory after `htons`. -/
def toBe16 (x : BitVec 16) : List Byte := [x.extractLsb' 8 8, x.extractLsb' 0 8]

/-- The bytes of a 32-bit word as they stand in memory after `htonl`. -/
def toBe32 (x : BitVec 32) : List Byte :=
  [x.extractLsb' 24 8, x.extractLsb' 16 8, x.extractLsb' 8 8, x.extractLsb' 0 8]

theorem be16_extract (x : BitVec 16) : be16 (x.extractLsb' 8 8) (x.extractLsb' 0 8) = x := by
  apply BitVec.eq_of_getLsbD_eq
  intro j hj
  rw [getLsbD_be16]
  by_cases h : j < 8
  · simp [h]
  · simp [h, show j - 8 < 8 by omega, show 8 + (j - 8) = j by omega]

theorem be32_extract (x : BitVec 32) :
    be32 (x.extractLsb' 24 8) (x.extractLsb' 16 8) (x.extractLsb' 8 8) (x.extractLsb' 0 8) = x := by
  apply BitVec.eq_of_getLsbD_eq
  intro j hj
  rw [getLsbD_be32]
  by_cases h1 : j < 8
  · simp [h1]
  by_cases h2 : j < 16
  · simp [h1, h2, show j - 8 < 8 by omega, show 8 + (j - 8) = j by omega]
  by_cases h3 : j < 24
  · simp [h1, h2, h3, show j - 16 < 8 by omega, show 16 + (j - 16) = j by omega]
  · simp [h1, h2, h3, show j - 24 < 8 by omega, show 24 + (j - 24) = j by omega]

theorem toBe16_inj {x y : BitVec 16} (h : toBe16 x = toBe16 y) : x = y := by
  simp only [toBe16, List.cons.injEq, and_true] at h
  rw [← be16_extract x, ← be16_extract y, h.1, h.2]

theorem toBe32_inj {x y : BitVec 32} (h : toBe32 x = toBe32 y) : x = y := by
  simp only [toBe32, List.cons.injEq, and_true] at h
  rw [← be32_extract x, ← be32_extract y, h.1, h.2.1, h.2.2.1, h.2.2.2]

theorem be32_ne_of_last {d d' : Byte} (h : d ≠ d') (a b c a' b' c' : Byte) :
    be32 a b c d ≠ be32 a' b' c' d' :=
  fun e => h (be32_inj.mp e).2.2.2

end Bits
