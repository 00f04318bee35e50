import Zpsc.Dac.Playback

/-!
# When a table is played

A run waits in `RUN_RAMP` for each tick and is one clock in `UPDATE_DAC` after it. The read address
counts the entries, in 16 bits: with all bits of the length set it never exceeds the length, and the
run starts over from entry 0.
-/

namespace Zpsc.RampTable

open Clocked

variable {ram : Dpram} {s : Ramp ram} {inp : ℕ → In} {mem : BitVec 16 → BitVec 20}
  {ramplen : BitVec 16} {tick : ℕ → ℕ} {t k : ℕ}

/-! ## One clock -/

/-- The run waits for the tick of entry `k`. -/
structure Waits (s : Ramp ram) (k : ℕ) (setpt : BitVec 20) : Prop where
  state : s.state = .RUN_RAMP
  dac_rdaddr : s.dac_rdaddr = BitVec.ofNat 16 k
  setpt : s.ramp_dac_setpt = setpt

/-- The run is about to put out entry `k`. -/
structure Updates (s : Ramp ram) (k : ℕ) (setpt : BitVec 20) : Prop where
  state : s.state = .UPDATE_DAC
  dac_rdaddr : s.dac_rdaddr = BitVec.ofNat 16 k
  setpt : s.ramp_dac_setpt = setpt

variable {i : In} {v : BitVec 20}

theorem waits_of_starts (hs : s.state = .IDLE) (hr : i.reset = false) (hi : i.Starts) :
    Waits (stepIn s i) 0 s.ramp_dac_setpt := by
  unfold stepIn step
  rw [hr, hs]
  unfold In.Starts at hi
  simp only [Bool.false_eq_true, if_false]
  rw [if_pos hi]
  exact ⟨rfl, rfl, rfl⟩

theorem Waits.of_noTick (h : Waits s k v) (hr : i.reset = false) (ht : i.tenkhz_trig = false) :
    Waits (stepIn s i) k v := by
  unfold stepIn step
  rw [hr, ht, h.state]
  exact ⟨rfl, h.dac_rdaddr, h.setpt⟩

theorem Waits.of_tick (h : Waits s k v) (hr : i.reset = false) (ht : i.tenkhz_trig = true) :
    Updates (stepIn s i) k v := by
  unfold stepIn step
  rw [hr, ht, h.state]
  exact ⟨rfl, h.dac_rdaddr, h.setpt⟩

theorem Updates.dac_rdaddr_add (h : Updates s k v) :
    s.dac_rdaddr + 1 = BitVec.ofNat 16 (k + 1) := by
  rw [h.dac_rdaddr, BitVec.ofNat_add]
  rfl

/-- The entry is put out, unless the address after it, in 16 bits, is beyond the length. -/
theorem Updates.of_le (h : Updates s k v) (hr : i.reset = false)
    (hle : BitVec.ofNat 16 (k + 1) ≤ i.cntrl.ramplen) :
    Waits (stepIn s i) (k + 1) (ram.doutb s.table) := by
  unfold stepIn step
  rw [hr, h.state]
  simp only [Bool.false_eq_true, if_false, h.dac_rdaddr_add]
  rw [if_neg (BitVec.not_lt.mpr hle)]
  exact ⟨rfl, rfl, rfl⟩

theorem Updates.of_lt (h : Updates s k v) (hr : i.reset = false)
    (hlt : i.cntrl.ramplen < BitVec.ofNat 16 (k + 1)) :
    (stepIn s i).state = .IDLE ∧ (stepIn s i).ramp_dac_setpt = v := by
  unfold stepIn step
  rw [hr, h.state]
  simp only [Bool.false_eq_true, if_false, h.dac_rdaddr_add]
  rw [if_pos hlt]
  exact ⟨rfl, h.setpt⟩

theorem idle_of_not_starts (hs : s.state = .IDLE) (hr : i.reset = false) (hi : ¬ i.Starts) :
    (stepIn s i).state = .IDLE ∧ (stepIn s i).ramp_dac_setpt = s.ramp_dac_setpt := by
  unfold stepIn step
  rw [hr, hs]
  unfold In.Starts at hi
  simp only [Bool.false_eq_true, if_false]
  rw [if_neg hi]
  exact ⟨rfl, rfl⟩

/-! ## From tick to tick -/

/-- The clock from which the run waits for the tick of entry `k`. -/
def waitsFrom (tick : ℕ → ℕ) : ℕ → ℕ
  | 0 => 1
  | k + 1 => tick k + 2

section

variable (h : Started ramplen tick inp)
include h

theorem waitsFrom_le (k : ℕ) : waitsFrom tick k ≤ tick k := by
  cases k with
  | zero => exact h.ticks.pos
  | succ k =>
    have := h.ticks.apart k
    rw [waitsFrom]
    omega

theorem noTick (h1 : waitsFrom tick k ≤ t) (h2 : t < tick k) : (inp t).tenkhz_trig = false := by
  cases k with
  | zero => exact h.ticks.before_first (by decide) h1 h2
  | succ k =>
    rw [waitsFrom] at h1
    exact h.ticks.between (by decide) (show tick k < t by omega) h2

/-- It waits up to the tick. -/
theorem waits_until (hw : Waits (trace stepIn s inp (waitsFrom tick k)) k v)
    (h1 : waitsFrom tick k ≤ t) (h2 : t ≤ tick k) : Waits (trace stepIn s inp t) k v := by
  refine hold (P := fun t => Waits (trace stepIn s inp t) k v) h1 (fun u hu hut hwu => ?_) hw
  exact hwu.of_noTick (h.reset u) (noTick h hu (by omega))

theorem updates_after (hw : Waits (trace stepIn s inp (waitsFrom tick k)) k v) :
    Updates (trace stepIn s inp (tick k + 1)) k v :=
  (waits_until h hw (waitsFrom_le h k) le_rfl).of_tick (h.reset _) (h.ticks.at_tick (by decide) k)

/-- From when it waits to the clock after the tick, the run is on and the setpoint stays. -/
theorem running_until (hw : Waits (trace stepIn s inp (waitsFrom tick k)) k v)
    (h1 : waitsFrom tick k ≤ t) (h2 : t ≤ tick k + 1) :
    (trace stepIn s inp t).state ≠ .IDLE ∧ (trace stepIn s inp t).ramp_dac_setpt = v := by
  rcases Nat.le_succ_iff.mp h2 with hle | rfl
  · have hwt := waits_until h hw h1 hle
    rw [hwt.state]
    exact ⟨nofun, hwt.setpt⟩
  · have hu := updates_after h hw
    rw [hu.state]
    exact ⟨nofun, hu.setpt⟩

/-- After as many ticks as there are entries before it, the run waits for the tick of entry `k`. -/
theorem waits_at (hs : s.state = .IDLE) (hmem : Reads mem s inp) (hk : k ≤ ramplen.toNat) :
    Waits (trace stepIn s inp (waitsFrom tick k)) k (played mem s.ramp_dac_setpt k) := by
  induction k with
  | zero => exact waits_of_starts hs (h.reset 0) h.starts
  | succ k ih =>
    have hu := updates_after h (ih (Nat.le_of_succ_le hk))
    have hle : BitVec.ofNat 16 (k + 1) ≤ (inp (tick k + 1)).cntrl.ramplen := by
      rw [h.ramplen, BitVec.le_def, BitVec.toNat_ofNat]
      exact (Nat.mod_le _ _).trans hk
    have hw := hu.of_le (h.reset _) hle
    rw [hmem _ hu.state, hu.dac_rdaddr] at hw
    exact hw

/-- At the tick after the last entry the run ends, unless the length has all bits set. -/
theorem ends_of_ne (hs : s.state = .IDLE) (hmem : Reads mem s inp) (hne : ramplen ≠ 65535) :
    (trace stepIn s inp (tick ramplen.toNat + 2)).state = .IDLE ∧
      (trace stepIn s inp (tick ramplen.toNat + 2)).ramp_dac_setpt =
        played mem s.ramp_dac_setpt ramplen.toNat := by
  have hu := updates_after h (waits_at h hs hmem le_rfl)
  refine hu.of_lt (h.reset _) ?_
  have hlt : ramplen.toNat + 1 < 2 ^ 16 := by
    have := ramplen.isLt
    have : ramplen.toNat ≠ 65535 := fun e => hne (BitVec.eq_of_toNat_eq e)
    omega
  rw [h.ramplen, BitVec.lt_def, BitVec.toNat_ofNat, Nat.mod_eq_of_lt hlt]
  exact Nat.lt_succ_self _

theorem not_idle_of_eq (hs : s.state = .IDLE) (hmem : Reads mem s inp) (heq : ramplen = 65535) :
    (trace stepIn s inp (tick ramplen.toNat + 2)).state ≠ .IDLE := by
  have hu := updates_after h (waits_at h hs hmem le_rfl)
  have hle : BitVec.ofNat 16 (ramplen.toNat + 1) ≤
      (inp (tick ramplen.toNat + 1)).cntrl.ramplen := by
    rw [h.ramplen, heq]
    decide
  rw [show tick ramplen.toNat + 2 = tick ramplen.toNat + 1 + 1 from rfl, trace_succ,
    (hu.of_le (h.reset _) hle).state]
  nofun

end

/-! ## The run -/

/-- Every table of every length is played, except with the length 65535, with which the run does not
end. -/
theorem playback_iff (ram : Dpram) (mem : BitVec 16 → BitVec 20) (ramplen : BitVec 16)
    (tick : ℕ → ℕ) (s : Ramp ram) (inp : ℕ → In) (hs : s.state = .IDLE)
    (h : Started ramplen tick inp) (hmem : Reads mem s inp) :
    Playback mem ramplen.toNat tick s inp ↔ ramplen ≠ 65535 := by
  constructor
  · intro hp heq
    have hidle := hp.after (tick ramplen.toNat + 2) le_rfl fun u hu hlt => by omega
    exact not_idle_of_eq h hs hmem heq hidle.1
  · intro hne
    refine ⟨fun t h1 h2 => ?_, fun k hk t h1 h2 => ?_, fun t h1 hno => ?_⟩
    · exact running_until h (waits_at h hs hmem (Nat.zero_le _)) h1 h2
    · exact running_until h (waits_at h hs hmem hk) h1 h2
    · refine hold (P := fun t => (trace stepIn s inp t).state = .IDLE ∧
        (trace stepIn s inp t).ramp_dac_setpt = played mem s.ramp_dac_setpt ramplen.toNat) h1
        (fun u hu hut hidle => ?_) (ends_of_ne h hs hmem hne)
      obtain ⟨hstate, hsetpt⟩ := idle_of_not_starts hidle.1 (h.reset u) (hno u hu hut)
      exact ⟨hstate, hsetpt.trans hidle.2⟩

/-! A RAM with an output register, and ticks every 10 clocks. -/

def tableRam (mem : BitVec 16 → BitVec 20) : Dpram where
  σ := BitVec 20
  step := fun q _ _ _ enb addrb => if enb then mem addrb else q
  doutb := fun q => q

/-- The read port is enabled while the run waits, so that the word is there at the tick. -/
structure ReadsAhead (mem : BitVec 16 → BitVec 20) (s : Ramp (tableRam mem)) : Prop where
  enabled : s.state = .RUN_RAMP → s.dac_rden = true
  read : s.state = .UPDATE_DAC → s.table = mem s.dac_rdaddr

theorem ReadsAhead.stepIn {s : Ramp (tableRam mem)} (h : ReadsAhead mem s) (i : In) :
    ReadsAhead mem (stepIn s i) := by
  unfold RampTable.stepIn step
  split
  · exact ⟨nofun, nofun⟩
  · split
    · split
      · exact ⟨fun _ => rfl, nofun⟩
      · next hs _ =>
        exact ⟨fun e => absurd (hs.symm.trans e) nofun, fun e => absurd (hs.symm.trans e) nofun⟩
    · next hs =>
      split
      · exact ⟨nofun, fun _ => if_pos (h.enabled hs)⟩
      · exact ⟨fun _ => h.enabled hs, fun e => absurd (hs.symm.trans e) nofun⟩
    · split
      · exact ⟨nofun, nofun⟩
      · exact ⟨fun _ => rfl, nofun⟩

theorem reads_tableRam {s : Ramp (tableRam mem)} (hs : s.state = .IDLE) (inp : ℕ → In) :
    Reads mem s inp := by
  have hahead : ∀ t, ReadsAhead mem (trace RampTable.stepIn s inp t) := by
    intro t
    induction t with
    | zero =>
      exact ⟨fun e => absurd (hs.symm.trans e) nofun, fun e => absurd (hs.symm.trans e) nofun⟩
    | succ t ih => exact ih.stepIn (inp t)
  exact fun t ht => (hahead t).read ht

/-- Entry `k` is `k + 1`. -/
def countingMem (a : BitVec 16) : BitVec 20 := a.setWidth 20 + 1

def idleRamp : Ramp (tableRam countingMem) := ⟨.IDLE, 0, false, false, 0, (0 : BitVec 20)⟩

/-- Started at clock 0, with ticks every 10 clocks. -/
def startInputs (ramplen : BitVec 16) (t : ℕ) : In where
  reset := false
  tenkhz_trig := t % 10 == 0
  mode := 0b01#2
  cntrl :=
    ⟨0, 0, false, t == 0, ramplen, 0, 0, 0, 0, 0, 0, 0, 0, 0, 0, 0, 0, 0, 0, false, false, 0b01#2⟩

theorem started_startInputs (ramplen : BitVec 16) :
    Started ramplen (fun k => 10 * (k + 1)) (startInputs ramplen) where
  starts := ⟨rfl, rfl⟩
  ramplen := fun _ => rfl
  reset := fun _ => rfl
  ticks :=
    { pos := by decide
      apart := fun k => by omega
      eq_true_iff := by
        intro t ht
        simp only [startInputs, beq_iff_eq]
        constructor
        · intro h
          exact ⟨t / 10 - 1, by omega⟩
        · rintro ⟨k, rfl⟩
          omega }

/-- A table of three entries. -/
theorem playback_three :
    Playback countingMem 3 (fun k => 10 * (k + 1)) idleRamp (startInputs 3) :=
  (playback_iff _ countingMem 3 _ idleRamp (startInputs 3) rfl (started_startInputs 3)
    (reads_tableRam rfl _)).mpr (by decide)

/-- A table of 65535 entries is played again and again. -/
theorem full_not_playback :
    ¬ Playback countingMem 65535 (fun k => 10 * (k + 1)) idleRamp (startInputs 65535) := by
  intro hp
  have hidle := hp.after (10 * (65535 + 1) + 2) le_rfl fun u hu hlt => by omega
  exact not_idle_of_eq (started_startInputs 65535) rfl (reads_tableRam rfl _) rfl hidle.1

end Zpsc.RampTable
