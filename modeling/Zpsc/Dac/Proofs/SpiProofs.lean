import Zpsc.Bits.Serial
import Zpsc.Clocked.Divider
import Zpsc.Dac.DacChan

/-!
# Proofs: the SPI engine of a DAC

What the engine can do at a clock (`ControlStep`), the ranges of its counters (`Counts`) and the
number of clocks until it is idle (`left`), for every divider.
-/

namespace Zpsc.Ad5781

open Bits Clocked

variable {D : ℕ} {s : Spi} {i : In}

/-! ## One clock -/

/-- One clock, without the registers for the inputs. -/
def control (D : ℕ) (s : Spi) (i : In) : Spi :=
  { step D s i with
    data_in_reg := s.data_in_reg
    bin2sc_reg := s.bin2sc_reg
    rbuf_reg := s.rbuf_reg
    dac_tri_reg := s.dac_tri_reg
    sdo_dis_reg := s.sdo_dis_reg
    op_gnd_reg := s.op_gnd_reg }

/-- What the engine can do at a clock without a reset. -/
inductive ControlStep (D : ℕ) (s : Spi) (i : In) : Spi → Prop
  | idle (hs : s.present_state = .IDLE) (hi : i.start = false) :
      ControlStep D s i { s with done := false }
  | startReset (hs : s.present_state = .IDLE) (hi : i.start = true) (h : s.init_count = 0) :
      ControlStep D s i
        { s with
          done := false, n_sync := true, shift_reg := 0x400004, present_state := .N_SYNC_ZERO }
  | startClear (hs : s.present_state = .IDLE) (hi : i.start = true) (h : s.init_count = 1) :
      ControlStep D s i
        { s with
          done := false, n_sync := true, shift_reg := 0x400000, present_state := .N_SYNC_ZERO }
  | startCtrl (hs : s.present_state = .IDLE) (hi : i.start = true) (h0 : s.init_count ≠ 0)
      (h1 : s.init_count ≠ 1) :
      ControlStep D s i { s with done := false, n_sync := true, present_state := .SEND_CTRL_REG }
  | ctrl (hs : s.present_state = .SEND_CTRL_REG) :
      ControlStep D s i
        { s with shift_reg := ctrlFrame s, setpoint_sent := false, present_state := .N_SYNC_ZERO }
  | setpoint (hs : s.present_state = .SEND_SETPOINT) :
      ControlStep D s i
        { s with
          setpoint_sent := true, shift_reg := setpointFrame s, present_state := .N_SYNC_ZERO }
  | syncEnd (hs : s.present_state = .N_SYNC_ZERO) (h : s.clk_count = SYNC_WIDTH) :
      ControlStep D s i
        { s with n_sync := false, clk_count := 0, sclk := true, present_state := .FIRST_BIT }
  | sync (hs : s.present_state = .N_SYNC_ZERO) (h : s.clk_count ≠ SYNC_WIDTH) :
      ControlStep D s i { s with n_sync := true, clk_count := nextClk s.clk_count }
  | firstEnd (hs : s.present_state = .FIRST_BIT) (h : s.clk_count + 1 = D) :
      ControlStep D s i
        { s with
          sclk := false, clk_count := 0, bit_count := s.bit_count + 1, present_state := .SCLK_LO }
  | first (hs : s.present_state = .FIRST_BIT) (h : s.clk_count + 1 ≠ D) :
      ControlStep D s i { s with sclk := true, clk_count := nextClk s.clk_count }
  | frameEnd (hs : s.present_state = .SCLK_HI) (h : s.clk_count + 1 = D)
      (hbit : s.bit_count = BITS) :
      ControlStep D s i
        { s with
          init_count := if s.init_count = 2 then 2 else s.init_count + 1
          bit_count := 0, present_state := .DAC_DONE, clk_count := 0 }
  | highEnd (hs : s.present_state = .SCLK_HI) (h : s.clk_count + 1 = D)
      (hbit : s.bit_count ≠ BITS) :
      ControlStep D s i
        { s with
          sclk := false, bit_count := s.bit_count + 1, present_state := .SCLK_LO, clk_count := 0 }
  | high (hs : s.present_state = .SCLK_HI) (h : s.clk_count + 1 ≠ D) :
      ControlStep D s i { s with sclk := true, clk_count := nextClk s.clk_count }
  | lowEnd (hs : s.present_state = .SCLK_LO) (h : s.clk_count + 1 = D) :
      ControlStep D s i
        { s with
          sclk := true, clk_count := 0, shift_reg := shiftIn s.shift_reg false
          present_state := .SCLK_HI }
  | low (hs : s.present_state = .SCLK_LO) (h : s.clk_count + 1 ≠ D) :
      ControlStep D s i { s with sclk := false, clk_count := nextClk s.clk_count }
  | doneFirst (hs : s.present_state = .DAC_DONE) (h : s.clk_count = SYNC_WIDTH - 1)
      (hsent : s.setpoint_sent = false) :
      ControlStep D s i { s with clk_count := 0, n_sync := true, present_state := .SEND_SETPOINT }
  | doneBoth (hs : s.present_state = .DAC_DONE) (h : s.clk_count = SYNC_WIDTH - 1)
      (hsent : s.setpoint_sent = true) :
      ControlStep D s i
        { s with clk_count := 0, n_sync := false, done := true, present_state := .WAIT_SYNC_LOW }
  | done (hs : s.present_state = .DAC_DONE) (h : s.clk_count ≠ SYNC_WIDTH - 1) :
      ControlStep D s i { s with n_sync := true, clk_count := nextClk s.clk_count }
  | waitEnd (hs : s.present_state = .WAIT_SYNC_LOW) (h : s.clk_count = SYNC_WIDTH - 1) :
      ControlStep D s i { s with clk_count := 0, n_sync := false, present_state := .IDLE }
  | wait (hs : s.present_state = .WAIT_SYNC_LOW) (h : s.clk_count ≠ SYNC_WIDTH - 1) :
      ControlStep D s i { s with n_sync := false, clk_count := nextClk s.clk_count }

theorem control_step (D : ℕ) (s : Spi) (hr : i.reset = false) :
    ControlStep D s i (control D s i) := by
  simp only [control, step, stepData, hr, Bool.false_eq_true, if_false]
  split
  · next hs =>
    split
    · next hi =>
      split
      · next h0 => exact .startReset hs hi h0
      · next h0 =>
        split
        · next h1 => exact .startClear hs hi h1
        · next h1 => exact .startCtrl hs hi h0 h1
    · next hi => exact .idle hs (by simpa using hi)
  · next hs => exact .ctrl hs
  · next hs => exact .setpoint hs
  · next hs =>
    split
    · next h => exact .syncEnd hs h
    · next h => exact .sync hs h
  · next hs =>
    split
    · next h => exact .firstEnd hs h
    · next h => exact .first hs h
  · next hs =>
    split
    · next h =>
      split
      · next hbit => exact .frameEnd hs h hbit
      · next hbit => exact .highEnd hs h hbit
    · next h => exact .high hs h
  · next hs =>
    split
    · next h => exact .lowEnd hs h
    · next h => exact .low hs h
  · next hs =>
    split
    · next h =>
      split
      · next hsent => exact .doneBoth hs h hsent
      · next hsent => exact .doneFirst hs h (by simpa using hsent)
    · next h => exact .done hs h
  · next hs =>
    split
    · next h => exact .waitEnd hs h
    · next h => exact .wait hs h

/-! ## The counters -/

def Counts (D : ℕ) (s : Spi) : Prop :=
  match s.present_state with
  | .IDLE | .SEND_CTRL_REG | .SEND_SETPOINT => s.clk_count = 0 ∧ s.bit_count = 0
  | .N_SYNC_ZERO => s.clk_count ≤ 10 ∧ s.bit_count = 0
  | .FIRST_BIT => Within 1024 D s.clk_count ∧ s.bit_count = 0
  | .SCLK_LO | .SCLK_HI => Within 1024 D s.clk_count ∧ 1 ≤ s.bit_count ∧ s.bit_count ≤ 24
  | .DAC_DONE | .WAIT_SYNC_LOW => s.clk_count < 10 ∧ s.bit_count = 0

theorem nextClk_of_lt {c : ℕ} (h : c < 1023) : nextClk c = c + 1 := Nat.mod_eq_of_lt (by omega)

theorem Counts.step (h : Counts D s) (hr : i.reset = false) : Counts D (control D s i) := by
  have hstep := control_step D s hr
  generalize control D s i = s' at hstep ⊢
  cases hstep with
  | idle hs | startReset hs | startClear hs | startCtrl hs | ctrl hs | setpoint hs =>
    simp only [Counts, hs] at h ⊢
    omega
  | syncEnd hs =>
    simp only [Counts, hs] at h
    exact ⟨.zero (by decide) D, h.2⟩
  | sync hs hne =>
    simp only [Counts, hs, SYNC_WIDTH] at h hne ⊢
    rw [nextClk_of_lt (by omega)]
    omega
  | firstEnd hs =>
    simp only [Counts, hs] at h
    exact ⟨.zero (by decide) D, by simp only [h.2]; decide⟩
  | first hs hne =>
    simp only [Counts, hs] at h ⊢
    exact ⟨h.1.next hne, h.2⟩
  | frameEnd => exact ⟨Nat.succ_pos 9, rfl⟩
  | highEnd hs _ hbit =>
    simp only [Counts, hs, BITS] at h hbit
    exact ⟨.zero (by decide) D, by simp only; omega⟩
  | high hs hne | low hs hne =>
    simp only [Counts, hs] at h ⊢
    exact ⟨h.1.next hne, h.2⟩
  | lowEnd hs =>
    simp only [Counts, hs] at h
    exact ⟨.zero (by decide) D, h.2⟩
  | doneFirst hs | waitEnd hs =>
    simp only [Counts, hs] at h
    exact ⟨rfl, h.2⟩
  | doneBoth hs =>
    simp only [Counts, hs] at h
    exact ⟨Nat.succ_pos 9, h.2⟩
  | done hs hne | wait hs hne =>
    simp only [Counts, hs, SYNC_WIDTH] at h hne ⊢
    rw [nextClk_of_lt (by omega)]
    omega

/-! ## The time that is left -/

/-- The number of clocks from the start of `N_SYNC_ZERO` to the end of the frame. -/
def frameTime (D : ℕ) : ℕ := 11 + 49 * D

/-- The number of clocks from the end of a frame on, until the interface is idle. -/
def leftAfter (D : ℕ) (setpoint_sent : Bool) : ℕ :=
  if setpoint_sent then 20 else 10 + 1 + frameTime D + 20

/-- The number of clocks until the interface is idle. -/
def left (D : ℕ) (s : Spi) : ℕ :=
  match s.present_state with
  | .IDLE => 0
  | .SEND_CTRL_REG => 1 + frameTime D + leftAfter D false
  | .SEND_SETPOINT => 1 + frameTime D + leftAfter D true
  | .N_SYNC_ZERO => frameTime D - s.clk_count + leftAfter D s.setpoint_sent
  | .FIRST_BIT => D - s.clk_count + 48 * D + leftAfter D s.setpoint_sent
  | .SCLK_LO => D - s.clk_count + D + (24 - s.bit_count) * (2 * D) + leftAfter D s.setpoint_sent
  | .SCLK_HI => D - s.clk_count + (24 - s.bit_count) * (2 * D) + leftAfter D s.setpoint_sent
  | .DAC_DONE => leftAfter D s.setpoint_sent - s.clk_count
  | .WAIT_SYNC_LOW => 10 - s.clk_count

theorem left_idle (h : s.present_state = .IDLE) : left D s = 0 := by rw [left, h]

theorem leftAfter_pos (D : ℕ) (b : Bool) : 20 ≤ leftAfter D b := by
  rw [leftAfter]
  split <;> omega

/-- Outside `IDLE` each clock is one less. -/
theorem left_step (hD : DivOk D) (hc : Counts D s) (hr : i.reset = false)
    (hidle : s.present_state ≠ .IDLE) : left D (control D s i) + 1 = left D s := by
  have hstep := control_step D s hr
  have hpos := leftAfter_pos D s.setpoint_sent
  generalize control D s i = s' at hstep ⊢
  cases hstep with
  | idle hs | startReset hs | startClear hs | startCtrl hs => exact absurd hs hidle
  | ctrl hs | setpoint hs =>
    simp only [Counts, hs] at hc
    simp only [left, hs, hc.1]
    omega
  | syncEnd hs h =>
    simp only [SYNC_WIDTH] at h
    simp only [left, hs, h, frameTime]
    omega
  | sync hs hne =>
    simp only [Counts, hs] at hc
    simp only [SYNC_WIDTH] at hne
    simp only [left, hs, nextClk_of_lt (show s.clk_count < 1023 by omega), frameTime]
    omega
  | firstEnd hs h =>
    simp only [Counts, hs] at hc
    simp only [left, hs, hc.2]
    omega
  | first hs hne =>
    simp only [Counts, hs] at hc
    have hlt := hc.1.2 hD
    have hmax := hD.2
    simp only [left, hs, nextClk_of_lt (show s.clk_count < 1023 by omega)]
    omega
  | frameEnd hs h hbit =>
    simp only [BITS] at hbit
    simp only [left, hs, hbit]
    omega
  | highEnd hs h hbit =>
    simp only [Counts, hs, BITS] at hc hbit
    have hsplit : (24 - s.bit_count) * (2 * D) = (24 - (s.bit_count + 1)) * (2 * D) + 2 * D := by
      rw [← Nat.succ_mul]
      congr 1
      omega
    simp only [left, hs, hsplit]
    omega
  | high hs hne | low hs hne =>
    simp only [Counts, hs] at hc
    have hlt := hc.1.2 hD
    have hmax := hD.2
    simp only [left, hs, nextClk_of_lt (show s.clk_count < 1023 by omega)]
    omega
  | lowEnd hs h =>
    simp only [left, hs]
    omega
  | doneFirst hs h hsent =>
    simp only [SYNC_WIDTH] at h
    simp only [left, hs, h, hsent, leftAfter, if_true, Bool.false_eq_true, if_false]
    omega
  | doneBoth hs h hsent =>
    simp only [SYNC_WIDTH] at h
    simp only [left, hs, h, hsent, leftAfter, if_true]
  | done hs hne | wait hs hne =>
    simp only [Counts, hs] at hc
    simp only [SYNC_WIDTH] at hne
    simp only [left, hs, nextClk_of_lt (show s.clk_count < 1023 by omega)]
    omega
  | waitEnd hs h =>
    simp only [SYNC_WIDTH] at h
    simp only [left, hs, h]

/-- Only `IDLE` leaves nothing to do. -/
theorem idle_of_left (hc : Counts D s) (h : left D s = 0) :
    s.present_state = .IDLE := by
  have hpos := leftAfter_pos D s.setpoint_sent
  cases hs : s.present_state with
  | IDLE => rfl
  | SEND_CTRL_REG | SEND_SETPOINT | N_SYNC_ZERO | FIRST_BIT | SCLK_LO | SCLK_HI =>
    simp only [left, hs] at h
    omega
  | DAC_DONE | WAIT_SYNC_LOW =>
    simp only [Counts, hs] at hc
    simp only [left, hs] at h
    omega

end Zpsc.Ad5781
