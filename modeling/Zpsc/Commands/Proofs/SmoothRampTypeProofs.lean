import Zpsc.Commands.SmoothRampType

/-!
# Proofs: the smooth ramp type from the console

The loop gives `atoi` the digits that are accepted, and what it gives is cut to a byte before it is
compared with the limits.
-/

namespace Zpsc.Commands

open Bits

variable {φ : Type} {atoi : List Char → BitVec 32} {ks rest : List Char} {e : Char} {s : Setup φ}

theorem Setup.writeByte_self (s : Setup φ) (a v : Byte) : (s.writeByte a v).eeprom a = v :=
  Function.update_self ..

theorem Setup.writeByte_ne (s : Setup φ) {a a' : Byte} (h : a' ≠ a) (v : Byte) :
    (s.writeByte a v).eeprom a' = s.eeprom a' :=
  Function.update_of_ne h ..

/-- The loop of `get_percent_input` keeps the first 15 digits. -/
theorem percentLoop_eq (hks : ∀ c ∈ ks, c ≠ '\r' ∧ c ≠ '\n') (he : e = '\r' ∨ e = '\n')
    {buf : List Char} (hbuf : buf.length ≤ 15) :
    percentLoop atoi buf (ks ++ e :: rest) =
      some (atoi ((buf ++ ks.filter isdigit).take 15), rest) := by
  induction ks generalizing buf with
  | nil =>
    rw [List.nil_append, percentLoop, if_pos he, List.filter_nil, List.append_nil,
      List.take_of_length_le hbuf]
  | cons c ks ih =>
    have hc := hks c List.mem_cons_self
    have ih' := fun buf => @ih (fun d hd => hks d (List.mem_cons_of_mem c hd)) buf
    rw [List.cons_append, percentLoop, if_neg (not_or.mpr hc)]
    by_cases hdigit : isdigit c = true
    · rw [List.filter_cons, if_pos hdigit]
      by_cases hfull : buf.length < 15
      · rw [if_pos ⟨hdigit, hfull⟩, ih' _ (by simp; omega), List.append_assoc,
          List.singleton_append]
      · -- the digit is dropped, and so are those after it
        rw [if_neg fun h => hfull h.2, ih' buf hbuf, List.take_append_of_le_length (by omega),
          List.take_append_of_le_length (by omega)]
    · rw [List.filter_cons, if_neg hdigit, if_neg fun h => hdigit h.1, ih' buf hbuf]

theorem isdigit_accepted {ds : List Char} : ∀ d ∈ accepted ds, isdigit d = true := fun _ hd =>
  (List.mem_filter.mp (List.mem_of_mem_take hd)).2

/-- What is done with the byte that is left of the number. -/
theorem set_smoothramptype_linear (rest : List Char) (s : Setup φ)
    (hks : ∀ c ∈ ks, c ≠ '\r' ∧ c ≠ '\n') (he : e = '\r' ∨ e = '\n') {b : Byte}
    (hb : (atoi (accepted ks)).setWidth 8 = b) :
    set_smoothramptype atoi ('0' :: (ks ++ e :: rest)) s =
      some (if 5 ≤ b ∧ b ≤ 50 then
          (((s.writeByte 0x16 0).writeByte 0x17 b).ReadHardwareFlavor, rest)
        else ((s.writeByte 0x16 0).ReadHardwareFlavor, rest)) := by
  have hloop : percentLoop atoi [] (ks ++ e :: rest) = some (atoi (accepted ks), rest) :=
    percentLoop_eq hks he (Nat.zero_le 15)
  have hkey : get_binary_input ('0' :: (ks ++ e :: rest)) = some (0, ks ++ e :: rest) := rfl
  rw [set_smoothramptype, hkey]
  simp only [Option.bind_eq_bind, Option.bind_some, get_percent_input, hloop, hb]
  rw [if_neg (by decide), if_neg (by decide)]
  split <;> rfl

/-- A number in range goes through `atoi` and the cut unchanged. -/
theorem byte_of_lt {n : ℕ} (h : n < 256) :
    ((BitVec.ofNat 32 n).setWidth 8 = BitVec.ofNat 8 n) ∧
      (5 ≤ BitVec.ofNat 8 n ∧ BitVec.ofNat 8 n ≤ 50 ↔ 5 ≤ n ∧ n ≤ 50) := by
  constructor
  · apply BitVec.eq_of_toNat_eq
    simp only [BitVec.toNat_setWidth, BitVec.toNat_ofNat]
    omega
  · simp only [BitVec.le_def, BitVec.toNat_ofNat, Nat.mod_eq_of_lt h]
    rfl

/-- Exactly the number that was entered is written, if and only if it fits a byte or the byte that
is left of it is out of range. -/
theorem entryExact_iff (hatoi : AtoiExact atoi) (hks : ∀ c ∈ ks, c ≠ '\r' ∧ c ≠ '\n')
    (he : e = '\r' ∨ e = '\n') : EntryExact atoi ks e rest s ↔ EntryOk atoi ks := by
  obtain ⟨b, hb⟩ : ∃ b, (atoi (accepted ks)).setWidth 8 = b := ⟨_, rfl⟩
  have hset := set_smoothramptype_linear rest s hks he hb
  have hsmall : decimal (accepted ks) < 256 → b = BitVec.ofNat 8 (decimal (accepted ks)) := by
    intro h
    rw [← hb, hatoi _ isdigit_accepted (h.trans (by norm_num)), (byte_of_lt h).1]
  rw [EntryOk, EntryExact, hset, hb]
  generalize decimal (accepted ks) = n at hsmall
  by_cases hin : 5 ≤ b ∧ b ≤ 50
  · rw [if_pos hin]
    constructor
    · rintro ⟨s', ws, hrun, hws, hfilter, -⟩
      cases hrun
      have hlist : ws = [(0x16, 0), (0x17, b)] :=
        (List.append_cancel_left (hws.symm.trans (List.append_assoc _ [_] [_])))
      have hkept : (ws.filter fun w => w.1 = 0x17) = [(0x17, b)] := by
        rw [hlist]
        rfl
      rw [hkept] at hfilter
      left
      by_contra hlarge
      rw [if_neg (by omega)] at hfilter
      cases hfilter
    · rintro (hlt | hout)
      · have hrange := (byte_of_lt hlt).2.mp (hsmall hlt ▸ hin)
        refine ⟨_, [(0x16, 0), (0x17, b)], rfl, List.append_assoc _ [_] [_], ?_, ?_⟩
        · rw [if_pos hrange, ← hsmall hlt]
          rfl
        · rw [if_pos hrange, ← hsmall hlt]
          exact (s.writeByte 0x16 0).writeByte_self 0x17 b
      · exact absurd hin hout
  · have hrange : ¬ (5 ≤ n ∧ n ≤ 50) := fun h =>
      hin (hsmall (by omega) ▸ (byte_of_lt (by omega)).2.mpr h)
    rw [if_neg hin, if_neg hrange, if_neg hrange]
    refine ⟨fun _ => .inr hin, fun _ => ⟨_, [(0x16, 0)], rfl, rfl, rfl, ?_⟩⟩
    exact s.writeByte_ne (show (0x17 : Byte) ≠ 0x16 by decide) 0

/-- `atoi` that gives the largest `int` for a number that is too large. -/
def clampedAtoi (ds : List Char) : BitVec 32 :=
  if decimal ds < 2 ^ 31 then BitVec.ofNat 32 (decimal ds) else 0x7FFFFFFF

theorem clampedAtoi_exact : AtoiExact clampedAtoi := fun _ _ h => if_pos h

/-- A unit with an empty EEPROM. -/
def emptySetup : Setup Unit := ⟨fun _ => 0, [], .powerUp ()⟩

theorem entry_30 : EntryExact clampedAtoi "3x0".toList '\r' [] emptySetup :=
  (entryExact_iff clampedAtoi_exact (by simp) (.inl rfl)).mpr (.inl (by decide))

/-- 261 is taken for 5. -/
theorem entry_261 : ¬ EntryExact clampedAtoi "261".toList '\r' [] emptySetup := by
  rintro ⟨s', ws, hrun, -, -, heeprom⟩
  rw [set_smoothramptype_linear [] emptySetup (by simp) (.inl rfl) rfl, if_pos (by decide)] at hrun
  cases hrun
  revert heeprom
  rw [if_neg (by decide)]
  decide

end Zpsc.Commands
