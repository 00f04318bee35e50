import Zpsc.Clocked.Jobs
import Zpsc.Dac.Frames
import Zpsc.Dac.Proofs.SpiProofs

/-!
# Proofs: the frames of a DAC

The bits that have been sent are those of the frames that are complete and the first ones of the
frame that is not (`Sent`); a start is followed through its two frames (`Course`).
-/

namespace Zpsc.Ad5781

open Bits Clocked

variable {D : ℕ} {s : Spi} {i : In} {inp : ℕ → In} {a b t u v : ℕ}

/-! ## The outputs -/

def Levels (s : Spi) : Prop :=
  match s.present_state with
  | .IDLE => True
  | .SEND_CTRL_REG | .SEND_SETPOINT | .N_SYNC_ZERO => s.n_sync = true
  | .FIRST_BIT | .SCLK_HI => s.n_sync = false ∧ s.sclk = true
  | .SCLK_LO => s.n_sync = false ∧ s.sclk = false
  | .DAC_DONE => s.n_sync = decide (s.clk_count ≠ 0)
  | .WAIT_SYNC_LOW => s.n_sync = false

theorem Levels.step (h : Levels s) (hc : Counts D s) (hr : i.reset = false) :
    Levels (control D s i) := by
  have hstep := control_step D s hr
  generalize control D s i = s' at hstep ⊢
  cases hstep with
  | idle hs => simp only [Levels, hs]
  | startReset | startClear | startCtrl | doneFirst | doneBoth => rfl
  | ctrl hs | setpoint hs =>
    simp only [Levels, hs] at h
    exact h
  | syncEnd => exact ⟨rfl, rfl⟩
  | sync hs | wait hs => simp only [Levels, hs]
  | firstEnd hs | highEnd hs | lowEnd hs =>
    simp only [Levels, hs] at h
    exact ⟨h.1, rfl⟩
  | first hs | high hs | low hs =>
    simp only [Levels, hs] at h ⊢
    exact ⟨h.1, trivial⟩
  | frameEnd hs =>
    simp only [Levels, hs] at h
    exact h.1
  | done hs hne =>
    simp only [Counts, hs] at hc
    simp only [Levels, hs]
    rw [nextClk_of_lt (by omega)]
    rfl
  | waitEnd => trivial

/-! ## The initialisation -/

/-- `init_count` and `setpoint_sent` in the states of a frame. -/
def InFrame (s : Spi) : Prop :=
  s.init_count = 0 ∧ s.setpoint_sent = false ∨ s.init_count = 1 ∧ s.setpoint_sent = true ∨
    s.init_count = 2

def Inits (D : ℕ) (s : Spi) : Prop :=
  (s.init_count ≠ 0 → DivOk D) ∧
    match s.present_state with
    | .IDLE => s.init_count = 0 ∧ s.setpoint_sent = false ∨ s.init_count = 2
    | .SEND_CTRL_REG => s.init_count = 2
    | .SEND_SETPOINT => s.init_count = 1 ∨ s.init_count = 2
    | .N_SYNC_ZERO | .FIRST_BIT | .SCLK_LO | .SCLK_HI => InFrame s
    | .DAC_DONE => s.init_count = 1 ∧ s.setpoint_sent = false ∨ s.init_count = 2
    | .WAIT_SYNC_LOW => s.init_count = 2

theorem Inits.step (h : Inits D s) (hc : Counts D s) (hr : i.reset = false) :
    Inits D (control D s i) := by
  have hstep := control_step D s hr
  generalize control D s i = s' at hstep ⊢
  obtain ⟨hdiv, h⟩ := h
  cases hstep with
  | idle hs =>
    simp only [hs] at h
    exact ⟨hdiv, by simpa only [hs] using h⟩
  | startReset hs _ h0 =>
    simp only [hs] at h
    rcases h with h | h
    · exact ⟨hdiv, .inl h⟩
    · omega
  | startClear hs _ h1 =>
    simp only [hs] at h
    rcases h with h | h <;> omega
  | startCtrl hs _ h0 =>
    simp only [hs] at h
    rcases h with h | h
    · exact absurd h.1 h0
    · exact ⟨hdiv, h⟩
  | ctrl hs =>
    simp only [hs] at h
    exact ⟨hdiv, .inr (.inr h)⟩
  | setpoint hs =>
    simp only [hs] at h
    rcases h with h | h
    · exact ⟨hdiv, .inr (.inl ⟨h, rfl⟩)⟩
    · exact ⟨hdiv, .inr (.inr h)⟩
  | syncEnd hs | firstEnd hs | highEnd hs | lowEnd hs =>
    simp only [hs] at h
    exact ⟨hdiv, h⟩
  | sync hs | first hs | high hs | low hs | done hs | wait hs =>
    simp only [hs] at h
    refine ⟨hdiv, ?_⟩
    simp only [hs]
    exact h
  | frameEnd hs hlast =>
    simp only [hs] at h
    simp only [Counts, hs] at hc
    refine ⟨fun _ => hc.1.divides hlast, ?_⟩
    rcases h with ⟨h0, hsent⟩ | ⟨h1, -⟩ | h2
    · exact .inl ⟨by simp [h0], hsent⟩
    · exact .inr (by simp [h1])
    · exact .inr (if_pos h2)
  | doneFirst hs =>
    simp only [hs] at h
    exact ⟨hdiv, h.imp_left And.left⟩
  | doneBoth hs _ hsent =>
    simp only [hs] at h
    rcases h with h | h
    · rw [hsent] at h
      cases h.2
    · exact ⟨hdiv, h⟩
  | waitEnd hs =>
    simp only [hs] at h
    exact ⟨hdiv, .inr h⟩

/-! ## The bits that have been sent -/

/-- Of the last frame, with the word `w`, the first `k` bits have been sent, and `j` bits have been
shifted out of `x`. -/
def Partway (fs : List (BitVec 24)) (bits : List Bool) (k j : ℕ) (x : BitVec 24) : Prop :=
  ∃ ws w, fs = ws ++ [w] ∧ bits = ws.flatMap msbFirst ++ (List.range k).map w.getMsbD ∧
    ∀ m, x.getMsbD m = w.getMsbD (m + j)

/-- The bits `bits` have been sent for the frames `fs`. -/
def Sent (fs : List (BitVec 24)) (bits : List Bool) (s : Spi) : Prop :=
  match s.present_state with
  | .FIRST_BIT => Partway fs bits 0 0 s.shift_reg
  | .SCLK_LO => Partway fs bits s.bit_count (s.bit_count - 1) s.shift_reg
  | .SCLK_HI => Partway fs bits s.bit_count s.bit_count s.shift_reg
  | _ => bits = fs.flatMap msbFirst

variable {fs : List (BitVec 24)} {bits : List Bool} {k j : ℕ} {x : BitVec 24}

/-- One bit more. -/
theorem Partway.bit (h : Partway fs bits k k x) : Partway fs (bits ++ [x.msb]) (k + 1) k x := by
  obtain ⟨ws, w, hfs, hbits, hx⟩ := h
  refine ⟨ws, w, hfs, ?_, hx⟩
  rw [hbits, BitVec.msb, hx, Nat.zero_add, List.range_succ, List.map_append, List.append_assoc]
  rfl

theorem Partway.shift (h : Partway fs bits k j x) :
    Partway fs bits k (j + 1) (shiftIn x false) := by
  obtain ⟨ws, w, hfs, hbits, hx⟩ := h
  refine ⟨ws, w, hfs, hbits, ?_⟩
  intro m
  rw [getMsbD_shiftIn]
  split
  · next hm =>
    symm
    rw [BitVec.getMsbD, decide_eq_false (by omega), Bool.false_and]
  · rw [hx, Nat.add_right_comm, Nat.add_assoc]

/-- All bits have been sent. -/
theorem Partway.complete (h : Partway fs bits 24 j x) : bits = fs.flatMap msbFirst := by
  obtain ⟨ws, w, rfl, rfl, -⟩ := h
  rw [List.flatMap_append, List.flatMap_singleton]
  rfl

theorem sdo_eq (s : Spi) : sdo s = s.shift_reg.msb := rfl

/-- The frames and the bits after a clock. -/
theorem Sent.step (h : Sent fs bits s) (hc : Counts D s) (hl : Levels s) (hr : i.reset = false) :
    Sent
      (fs ++
        if s.n_sync && !(control D s i).n_sync && (control D s i).present_state == .FIRST_BIT then
          [s.shift_reg] else [])
      (bits ++ if s.sclk && !(control D s i).sclk then [sdo s] else []) (control D s i) := by
  have hstep := control_step D s hr
  generalize control D s i = s' at hstep ⊢
  cases hstep with
  | idle hs | startReset hs | startClear hs | startCtrl hs | ctrl hs | setpoint hs | sync hs
  | doneFirst hs | doneBoth hs | done hs | waitEnd hs | wait hs =>
    simp only [Sent, hs] at h ⊢
    simpa using h
  | syncEnd hs =>
    simp only [Sent, hs] at h
    simp only [Levels, hs] at hl
    refine ⟨fs, s.shift_reg, by simp [hl], by simpa using h, fun m => rfl⟩
  | firstEnd hs =>
    simp only [Sent, hs] at h
    simp only [Levels, hs] at hl
    simp only [Counts, hs] at hc
    simp only [Sent, hl, hc.2]
    simpa [sdo_eq] using h.bit
  | first hs =>
    simp only [Sent, hs] at h ⊢
    simpa using h
  | frameEnd hs _ hbit =>
    simp only [Sent, hs] at h ⊢
    rw [hbit] at h
    simpa using h.complete
  | highEnd hs =>
    simp only [Sent, hs] at h
    simp only [Levels, hs] at hl
    simp only [Sent, hl]
    simpa [sdo_eq] using h.bit
  | high hs =>
    simp only [Sent, hs] at h ⊢
    simpa using h
  | lowEnd hs =>
    simp only [Sent, hs] at h
    simp only [Counts, hs] at hc
    have hshift := h.shift
    rw [Nat.sub_add_cancel hc.2.1] at hshift
    simp only [Sent]
    simpa using hshift
  | low hs =>
    simp only [Sent, hs] at h ⊢
    simp only [Levels, hs] at hl
    simpa [hl] using h

/-! ## The two frames of a start -/

/-- The frames `fs` since a start, of which `w₁` is the first, and `P` holds of the second. -/
def Course (w₁ : BitVec 24) (P : BitVec 24 → Prop) (fs : List (BitVec 24)) (s : Spi) : Prop :=
  match s.present_state with
  | .SEND_CTRL_REG => False
  | .N_SYNC_ZERO =>
    if s.setpoint_sent then fs = [w₁] ∧ P s.shift_reg else fs = [] ∧ s.shift_reg = w₁
  | .FIRST_BIT | .SCLK_LO | .SCLK_HI | .DAC_DONE =>
    if s.setpoint_sent then ∃ w₂, P w₂ ∧ fs = [w₁, w₂] else fs = [w₁]
  | .SEND_SETPOINT => fs = [w₁]
  | .WAIT_SYNC_LOW | .IDLE => ∃ w₂, P w₂ ∧ fs = [w₁, w₂]

theorem Course.step {w₁ : BitVec 24} {P : BitVec 24 → Prop} (h : Course w₁ P fs s)
    (hl : Levels s) (hr : i.reset = false) (hidle : s.present_state ≠ .IDLE)
    (hset : s.present_state = .SEND_SETPOINT → P (setpointFrame s)) :
    Course w₁ P
      (fs ++
        if s.n_sync && !(control D s i).n_sync && (control D s i).present_state == .FIRST_BIT then
          [s.shift_reg] else []) (control D s i) := by
  have hstep := control_step D s hr
  generalize control D s i = s' at hstep ⊢
  cases hstep with
  | idle hs | startReset hs | startClear hs | startCtrl hs => exact absurd hs hidle
  | ctrl hs =>
    simp only [Course, hs] at h
  | setpoint hs =>
    simp only [Course, hs] at h ⊢
    simpa using ⟨h, hset hs⟩
  | syncEnd hs =>
    simp only [Levels, hs] at hl
    simp only [Course, hs, hl] at h ⊢
    split at h
    · next hsent =>
      obtain ⟨rfl, hP⟩ := h
      rw [if_pos hsent]
      exact ⟨s.shift_reg, hP, rfl⟩
    · next hsent =>
      obtain ⟨rfl, hw⟩ := h
      rw [if_neg hsent, ← hw]
      rfl
  | doneFirst hs _ hsent | doneBoth hs _ hsent =>
    simp only [Course, hs, hsent] at h ⊢
    simpa using h
  | sync hs | firstEnd hs | first hs | frameEnd hs | highEnd hs | high hs | lowEnd hs | low hs
  | done hs | waitEnd hs | wait hs =>
    simp only [Course, hs] at h ⊢
    simpa using h

/-! ## Runs -/

/-- The invariant of all clocks after a reset. -/
structure Ok (D : ℕ) (s : Spi) : Prop where
  counts : Counts D s
  levels : Levels s
  inits : Inits D s

theorem regs_succ (D : ℕ) (s : Spi) (inp : ℕ → In) (t : ℕ) :
    regs D s inp (t + 1) = step D (regs D s inp t) (inp t) := rfl

theorem ok (hreset : ResetFirst inp) (s : Spi) (ht : 0 < t) : Ok D (regs D s inp t) := by
  induction t, ht using Nat.le_induction with
  | base =>
    have h1 : (regs D s inp 1).present_state = .IDLE ∧ (regs D s inp 1).clk_count = 0 ∧
        (regs D s inp 1).bit_count = 0 ∧ (regs D s inp 1).init_count = 0 ∧
        (regs D s inp 1).setpoint_sent = false := by
      simp [regs_succ, step, stepData, hreset.1]
    obtain ⟨hs, hclk, hbit, hinit, hsent⟩ := h1
    refine ⟨?_, ?_, ?_, ?_⟩
    · rw [Counts, hs]
      exact ⟨hclk, hbit⟩
    · rw [Levels, hs]
      trivial
    · exact fun h => absurd hinit h
    · rw [hs]
      exact .inl ⟨hinit, hsent⟩
  | succ t ht ih =>
    have hr := hreset.2 t ht
    exact ⟨ih.counts.step hr, ih.levels.step ih.counts hr, ih.inits.step ih.counts hr⟩

/-- After a clock at which no frame is under way the bits are those of the frames. -/
theorem sent (hreset : ResetFirst inp) (s : Spi) (ha : 0 < a)
    (hfree : Sent [] [] (regs D s inp a)) (hav : a ≤ v) :
    Sent (frames D s inp a v) (sdoBits D s inp a v) (regs D s inp v) := by
  induction v, hav using Nat.le_induction with
  | base =>
    rw [frames, sdoBits, sampled_of_le le_rfl, sampled_of_le le_rfl]
    exact hfree
  | succ v hav ih =>
    have hok : Ok D (regs D s inp v) := ok hreset s (by omega)
    rw [frames, sampled_succ hav, sdoBits, sampled_succ hav]
    exact ih.step hok.counts hok.levels (hreset.2 v (by omega))

/-! ## What is loaded -/

theorem lastLoaded_self {w : BitVec 24} (h : loads D s inp t = some w) :
    LastLoaded D s inp w (t + 1) :=
  ⟨t, Nat.lt_succ_self t, h, fun u hu hut => by omega⟩

theorem LastLoaded.succ {w : BitVec 24} (h : LastLoaded D s inp w t)
    (hnone : loads D s inp t = none) : LastLoaded D s inp w (t + 1) := by
  obtain ⟨v, hv, hload, hbetween⟩ := h
  refine ⟨v, by omega, hload, ?_⟩
  intro u hvu hu
  rcases Nat.lt_succ_iff_lt_or_eq.mp hu with hlt | rfl
  · exact hbetween u hvu hlt
  · exact hnone

/-- Before a frame its word is in the shift register. -/
theorem lastLoaded (hreset : ResetFirst inp) (s : Spi) (ht : 0 < t)
    (hs : (regs D s inp t).present_state = .N_SYNC_ZERO) :
    LastLoaded D s inp (regs D s inp t).shift_reg t := by
  induction t, ht using Nat.le_induction with
  | base =>
    have h1 : (regs D s inp 1).present_state = .IDLE := by
      simp [regs_succ, step, stepData, hreset.1]
    rw [h1] at hs
    cases hs
  | succ t ht ih =>
    have hr := hreset.2 t ht
    have hstep := control_step D (regs D s inp t) hr
    have hstate : (regs D s inp (t + 1)).present_state =
        (control D (regs D s inp t) (inp t)).present_state := rfl
    have hshift : (regs D s inp (t + 1)).shift_reg =
        (control D (regs D s inp t) (inp t)).shift_reg := rfl
    rw [hstate] at hs
    rw [hshift]
    generalize control D (regs D s inp t) (inp t) = s' at hstep hs
    cases hstep with
    | startReset hidle hi h0 => exact lastLoaded_self (by simp [loads, loaded, hr, hidle, hi, h0])
    | startClear hidle hi h1 => exact lastLoaded_self (by simp [loads, loaded, hr, hidle, hi, h1])
    | ctrl hctrl => exact lastLoaded_self (by simp [loads, loaded, hr, hctrl])
    | setpoint hset => exact lastLoaded_self (by simp [loads, loaded, hr, hset])
    | sync hsync => exact (ih hsync).succ (by simp [loads, loaded, hr, hsync])
    | startCtrl | syncEnd | firstEnd | frameEnd | highEnd | lowEnd | doneFirst | doneBoth
    | waitEnd => cases hs
    | idle h | first h | high h | low h | done h | wait h => cases h.symm.trans hs

/-! ## While `n_sync` is low -/

/-- `n_sync` falls for a frame, or at the end of the second frame. -/
theorem fall_cases (hl : Levels s) (hr : i.reset = false) (h : s.n_sync = true)
    (h' : (control D s i).n_sync = false) :
    s.present_state = .N_SYNC_ZERO ∧ (control D s i).present_state = .FIRST_BIT ∨
      s.present_state = .DAC_DONE ∧ (control D s i).present_state = .WAIT_SYNC_LOW := by
  have hstep := control_step D s hr
  generalize control D s i = s' at hstep h' ⊢
  cases hstep with
  | syncEnd hs => exact .inl ⟨hs, rfl⟩
  | doneBoth hs => exact .inr ⟨hs, rfl⟩
  | startReset | startClear | startCtrl | sync | doneFirst | done => cases h'
  | idle | ctrl | setpoint | firstEnd | first | frameEnd | highEnd | high | lowEnd | low =>
    cases h.symm.trans h'
  | waitEnd hs | wait hs =>
    simp only [Levels, hs] at hl
    cases h.symm.trans hl

/-- A frame is under way, or has just ended. -/
def UnderWay (s : Spi) : Prop :=
  s.present_state = .FIRST_BIT ∨ s.present_state = .SCLK_LO ∨ s.present_state = .SCLK_HI ∨
    s.present_state = .DAC_DONE ∧ s.clk_count = 0

theorem UnderWay.step (h : UnderWay s) (hr : i.reset = false)
    (hlow : (control D s i).n_sync = false) : UnderWay (control D s i) := by
  have hstep := control_step D s hr
  generalize control D s i = s' at hstep hlow ⊢
  cases hstep with
  | firstEnd | highEnd => exact .inr (.inl rfl)
  | first hs => exact .inl hs
  | frameEnd => exact .inr (.inr (.inr ⟨rfl, rfl⟩))
  | lowEnd => exact .inr (.inr (.inl rfl))
  | low hs => exact .inr (.inl hs)
  | high hs => exact .inr (.inr (.inl hs))
  | startReset | startClear | startCtrl | sync | doneFirst | done => cases hlow
  | idle hs | ctrl hs | setpoint hs | syncEnd hs | waitEnd hs | wait hs =>
    simp [UnderWay, hs] at h
  | doneBoth hs hclk =>
    simp [UnderWay, hs, hclk, SYNC_WIDTH] at h

/-- A frame ends where `n_sync` rises. -/
theorem UnderWay.rise (h : UnderWay s) (hl : Levels s) (hr : i.reset = false)
    (hrise : (control D s i).n_sync = true) : s.present_state = .DAC_DONE := by
  have hstep := control_step D s hr
  generalize control D s i = s' at hstep hrise
  cases hstep with
  | doneFirst hs | doneBoth hs | done hs => exact hs
  | firstEnd hs | first hs | frameEnd hs | highEnd hs | high hs | lowEnd hs | low hs =>
    simp only [Levels, hs] at hl
    cases hl.1.symm.trans hrise
  | idle hs | startReset hs | startClear hs | startCtrl hs | ctrl hs | setpoint hs | syncEnd hs
  | sync hs | waitEnd hs | wait hs => simp [UnderWay, hs] at h

/-- Between the second frame and the next start. -/
theorem quiet_step (h : s.present_state = .WAIT_SYNC_LOW ∨ s.present_state = .IDLE)
    (hr : i.reset = false) (hlow : (control D s i).n_sync = false) :
    (control D s i).present_state = .WAIT_SYNC_LOW ∨ (control D s i).present_state = .IDLE := by
  have hstep := control_step D s hr
  generalize control D s i = s' at hstep hlow ⊢
  cases hstep with
  | idle hs => exact .inr hs
  | wait hs => exact .inl hs
  | waitEnd => exact .inr rfl
  | startReset | startClear | startCtrl => cases hlow
  | ctrl hs | setpoint hs | syncEnd hs | sync hs | firstEnd hs | first hs | frameEnd hs
  | highEnd hs | high hs | lowEnd hs | low hs | doneFirst hs | doneBoth hs | done hs =>
    simp [hs] at h

theorem frames_low (h : SyncLow D s inp a b) : frames D s inp (a + 1) b = [] := by
  refine sampled_none ?_
  intro v hav hvb
  rw [frameStarts, h.low v hav hvb.le]
  rfl

section Low

variable (hreset : ResetFirst inp) (h : SyncLow D s inp a b)

include hreset h

theorem fall_pos : 0 < a := by
  rcases Nat.eq_zero_or_pos a with rfl | hpos
  · have hlow := h.low 1 Nat.one_pos h.lt
    rw [regs_succ] at hlow
    simp [step, stepData, hreset.1] at hlow
  · exact hpos

/-- From the fall for a frame on. -/
theorem underWay (hfirst : (regs D s inp (a + 1)).present_state = .FIRST_BIT) (hav : a < v)
    (hvb : v ≤ b) : UnderWay (regs D s inp v) := by
  have hpos := fall_pos hreset h
  refine hold (P := fun v => UnderWay (regs D s inp v)) hav ?_ (.inl hfirst)
  intro w haw hwv hunder
  exact hunder.step (D := D) (hreset.2 w (by omega)) (h.low (w + 1) (by omega) (by omega))

theorem quiet (hwait : (regs D s inp (a + 1)).present_state = .WAIT_SYNC_LOW) (hav : a < v)
    (hvb : v ≤ b) : (regs D s inp v).present_state = .WAIT_SYNC_LOW ∨
      (regs D s inp v).present_state = .IDLE := by
  have hpos := fall_pos hreset h
  refine hold (P := fun v => (regs D s inp v).present_state = .WAIT_SYNC_LOW ∨
    (regs D s inp v).present_state = .IDLE) hav ?_ (.inl hwait)
  intro w haw hwv hquiet
  exact quiet_step hquiet (hreset.2 w (by omega)) (h.low (w + 1) (by omega) (by omega))

end Low

/-- What goes over the line while `n_sync` is low. -/
theorem framesSpelled (hreset : ResetFirst inp) (s : Spi) : FramesSpelled D s inp := by
  intro a b h
  have ha := fall_pos hreset h
  have hok : Ok D (regs D s inp a) := ok hreset s ha
  have hokb : Ok D (regs D s inp b) := ok hreset s (ha.trans h.lt)
  have hsplit : frames D s inp a b = frames D s inp a (a + 1) := by
    have hnone := frames_low h
    rw [frames] at hnone ⊢
    rw [sampled_append (Nat.le_succ a) h.lt, hnone, List.append_nil, frames]
  have hfall : (regs D s inp a).present_state = .N_SYNC_ZERO ∧
        (regs D s inp (a + 1)).present_state = .FIRST_BIT ∨
      (regs D s inp a).present_state = .DAC_DONE ∧
        (regs D s inp (a + 1)).present_state = .WAIT_SYNC_LOW :=
    fall_cases hok.levels (hreset.2 a ha) h.fall (h.low (a + 1) (Nat.lt_succ_self a) h.lt)
  rcases hfall with ⟨hs, hfirst⟩ | ⟨hs, hwait⟩
  · have hfree : Sent [] [] (regs D s inp a) := by
      rw [Sent, hs]
      rfl
    have hstart : frameStarts D s inp a = true := by
      rw [frameStarts, h.fall, h.low (a + 1) (Nat.lt_succ_self a) h.lt, hfirst]
      rfl
    have hdone : (regs D s inp b).present_state = .DAC_DONE :=
      (underWay hreset h hfirst h.lt le_rfl).rise hokb.levels (hreset.2 b (ha.trans h.lt)) h.rise
    have hsent := sent hreset s ha hfree h.lt.le
    rw [Sent, hdone, hsplit, frames, sampled_one, if_pos hstart, List.flatMap_singleton] at hsent
    refine ⟨fun _ => ⟨_, lastLoaded hreset s ha hs, hsent⟩, ?_⟩
    intro hno
    exact absurd ⟨a + 1, Nat.lt_succ_self a, h.lt, hfirst⟩ hno
  · have hfree : Sent [] [] (regs D s inp a) := by
      rw [Sent, hs]
      rfl
    have hstart : frameStarts D s inp a = false := by
      rw [frameStarts, hwait]
      exact Bool.and_false _
    have hsent := sent hreset s ha hfree h.lt.le
    have hquiet : ∀ v, a < v → v ≤ b → (regs D s inp v).present_state = .WAIT_SYNC_LOW ∨
        (regs D s inp v).present_state = .IDLE := fun v hav hvb => quiet hreset h hwait hav hvb
    refine ⟨?_, fun _ => ?_⟩
    · rintro ⟨v, hav, hvb, hv⟩
      rcases hquiet v hav hvb with hv' | hv' <;> cases hv.symm.trans hv'
    · rw [hsplit, frames, sampled_one, hstart] at hsent
      rcases hquiet b h.lt le_rfl with hb | hb
      all_goals
        rw [Sent, hb] at hsent
        exact hsent

/-! ## Starts -/

theorem step_start (h : s.present_state ≠ .IDLE) (st : Bool) :
    step D s { i with start := st } = step D s i := by
  simp only [step, stepData]
  cases hs : s.present_state with
  | IDLE => exact absurd hs h
  | SEND_CTRL_REG | SEND_SETPOINT | N_SYNC_ZERO | FIRST_BIT | SCLK_LO | SCLK_HI | DAC_DONE
  | WAIT_SYNC_LOW => rfl

theorem startsIgnored (D : ℕ) (s : Spi) (inp : ℕ → In) : StartsIgnored D s inp := by
  intro inp' hsame hidle t
  induction t with
  | zero => rfl
  | succ t ih =>
    rw [regs_succ, ih, regs_succ, hsame t]
    by_cases hs : (regs D s inp t).present_state = .IDLE
    · rw [hidle t hs]
    · exact step_start hs _

/-- Until the first start nothing happens. -/
theorem before_start (hreset : ResetFirst inp) (s : Spi) (ht : 0 < t)
    (hnone : ∀ v, 0 < v → v < t → (inp v).start = false) :
    (regs D s inp t).present_state = .IDLE ∧ (regs D s inp t).init_count = 0 ∧
      (regs D s inp t).setpoint_sent = false ∧ (regs D s inp t).clk_count = 0 := by
  induction t, ht using Nat.le_induction with
  | base => simp [regs_succ, step, stepData, hreset.1]
  | succ t ht ih =>
    obtain ⟨hs, hinit, hsent, hclk⟩ := ih fun v hv hvt => hnone v hv (by omega)
    simp [regs_succ, step, stepData, hreset.2 t ht, hnone t ht (Nat.lt_succ_self t), hs, hinit,
      hsent, hclk]

/-- The first start. -/
theorem first_left (hreset : ResetFirst inp) (s : Spi) (ht : 0 < t)
    (hnone : ∀ v, 0 < v → v < t → (inp v).start = false) (hstart : (inp t).start = true) :
    left D (regs D s inp (t + 1)) + 1 = firstStart D := by
  obtain ⟨hs, hinit, hsent, hclk⟩ := before_start (D := D) hreset s ht hnone
  have hnext : (regs D s inp (t + 1)).present_state = .N_SYNC_ZERO ∧
      (regs D s inp (t + 1)).setpoint_sent = false ∧ (regs D s inp (t + 1)).clk_count = 0 := by
    simp [regs_succ, step, stepData, hreset.2 t ht, hs, hinit, hsent, hclk, hstart]
  obtain ⟨hs', hsent', hclk'⟩ := hnext
  simp only [left, hs', hsent', hclk', leftAfter, frameTime, firstStart, Bool.false_eq_true,
    if_false]
  omega

theorem left_eq_zero_iff (hreset : ResetFirst inp) (ht : 0 < t) :
    left D (regs D s inp t) = 0 ↔ (regs D s inp t).present_state = .IDLE :=
  ⟨idle_of_left (ok (D := D) hreset s ht).counts, left_idle⟩

/-- The starts with their frames, where the divider lets these end. -/
theorem jobs (hreset : ResetFirst inp) (s : Spi) (hD : DivOk D) :
    Jobs (fun t => left D (regs D s inp t)) (fun t => (inp t).start) (firstStart D) where
  init := left_idle (before_start hreset s Nat.one_pos fun v hv hv1 => by omega).1
  busy t ht hleft :=
    left_step hD (ok hreset s ht).counts (hreset.2 t ht)
      fun hs => hleft ((left_eq_zero_iff hreset ht).mpr hs)
  rest t ht hleft hstart := by
    have hs := (left_eq_zero_iff hreset ht).mp hleft
    exact left_idle (by simp [regs_succ, step, stepData, hreset.2 t ht, hs, hstart])
  first t ht hnone hstart := first_left hreset s ht hnone hstart

/-- The interface is idle when nothing is left, and not before. -/
theorem idle_iff (hreset : ResetFirst inp) (hD : DivOk D) (ht : 0 < t)
    (hk : k ≤ left D (regs D s inp t)) :
    (regs D s inp (t + k)).present_state = .IDLE ↔ k = left D (regs D s inp t) := by
  rw [← left_eq_zero_iff hreset (show 0 < t + k by omega)]
  exact (jobs hreset s hD).idle_iff ht hk

/-- The second word of a start that is accepted at clock `t` and whose frames end at clock `u`. -/
def SecondWord (D : ℕ) (s : Spi) (inp : ℕ → In) (t u : ℕ) (w : BitVec 24) : Prop :=
  ∃ v, t < v ∧ v < u ∧ (regs D s inp v).present_state = .SEND_SETPOINT ∧
    w = setpointFrame (regs D s inp v)

theorem course (hreset : ResetFirst inp) {w₁ : BitVec 24} (ht : 0 < t)
    (hstart : Course w₁ (SecondWord D s inp t u) (frames D s inp t v) (regs D s inp v))
    (htv : t < v) (hvu : v ≤ u)
    (hbusy : ∀ w, v ≤ w → w < u → (regs D s inp w).present_state ≠ .IDLE) :
    Course w₁ (SecondWord D s inp t u) (frames D s inp t u) (regs D s inp u) := by
  refine hold (P := fun w => Course w₁ (SecondWord D s inp t u) (frames D s inp t w)
    (regs D s inp w)) hvu ?_ hstart
  intro w hvw hwu h
  have hok : Ok D (regs D s inp w) := ok hreset s (by omega)
  rw [frames, sampled_succ (by omega)]
  exact h.step hok.levels (hreset.2 w (by omega)) (hbusy w hvw hwu)
    fun hs => ⟨w, by omega, hwu, hs, rfl⟩

/-- An accepted start after the initialisation loads the control register. -/
theorem ctrl_succ (hreset : ResetFirst inp) (ht : 0 < t)
    (hidle : (regs D s inp t).present_state = .IDLE) (hinit : (regs D s inp t).init_count = 2)
    (hstart : (inp t).start = true) : (regs D s inp (t + 1)).present_state = .SEND_CTRL_REG := by
  simp [regs_succ, step, stepData, hreset.2 t ht, hidle, hinit, hstart]

theorem twoFrames (hreset : ResetFirst inp) (s : Spi) : TwoFrames D s inp := by
  intro t ht hidle hinit hstart
  have hD : DivOk D := (ok (D := D) hreset s ht).inits.1 (by omega)
  have hctrl := ctrl_succ hreset ht hidle hinit hstart
  have hnext : (regs D s inp (t + 2)).present_state = .N_SYNC_ZERO ∧
      (regs D s inp (t + 2)).setpoint_sent = false ∧
      (regs D s inp (t + 2)).shift_reg = ctrlFrame (regs D s inp (t + 1)) := by
    rw [regs_succ]
    simp [step, stepData, hreset.2 (t + 1) t.succ_pos, hctrl]
  obtain ⟨hs2, hsent2, hshift2⟩ := hnext
  have hpos : 0 < left D (regs D s inp (t + 1)) := by
    rw [left, hctrl]
    dsimp only
    omega
  obtain ⟨n, hn⟩ : ∃ n, left D (regs D s inp (t + 1)) = n := ⟨_, rfl⟩
  have hidle_iff : ∀ k ≤ n, (regs D s inp (t + 1 + k)).present_state = .IDLE ↔ k = n :=
    fun k hk => hn ▸ idle_iff hreset hD t.succ_pos (hn.symm ▸ hk)
  have hu : (regs D s inp (t + 1 + n)).present_state = .IDLE := (hidle_iff n le_rfl).mpr rfl
  have hbusy : ∀ w, t < w → w < t + 1 + n → (regs D s inp w).present_state ≠ .IDLE := by
    intro w htw hwu hw
    obtain ⟨k, rfl⟩ := Nat.exists_eq_add_of_le (Nat.succ_le_of_lt htw)
    have hk := (hidle_iff k (by omega)).mp hw
    omega
  have hlt : t + 2 ≤ t + 1 + n := by omega
  -- no frame starts in the two clocks of the load
  have hnone : frames D s inp t (t + 2) = [] := by
    refine sampled_none ?_
    intro v htv hv
    rw [frameStarts]
    rcases Nat.eq_or_lt_of_le htv with rfl | hlt'
    · rw [hctrl]
      exact Bool.and_false _
    · rw [show v = t + 1 by omega, hs2]
      exact Bool.and_false _
  have hcourse : Course (ctrlFrame (regs D s inp (t + 1))) (SecondWord D s inp t (t + 1 + n))
      (frames D s inp t (t + 2)) (regs D s inp (t + 2)) := by
    rw [Course, hs2]
    simp only [hsent2, Bool.false_eq_true, if_false]
    exact ⟨hnone, hshift2⟩
  have hend := course hreset ht hcourse (by omega) hlt
    fun w hw hwu => hbusy w (by omega) hwu
  rw [Course, hu] at hend
  obtain ⟨w₂, ⟨v, htv, hvu, hset, rfl⟩, hframes⟩ := hend
  have hfree : Sent [] [] (regs D s inp t) := by
    rw [Sent, hidle]
    rfl
  have hsent := sent hreset s ht hfree (show t ≤ t + 1 + n by omega)
  rw [Sent, hu, hframes] at hsent
  refine ⟨v, t + 1 + n, htv, hvu, hu, hbusy, hset, hframes, ?_⟩
  rw [hsent]
  simp

/-- The frames are as intended, for every divider, start pattern and data. -/
theorem frames_law (hreset : ResetFirst inp) (D : ℕ) (s : Spi) :
    FramesSpelled D s inp ∧ TwoFrames D s inp ∧ StartsIgnored D s inp :=
  ⟨framesSpelled hreset s, twoFrames hreset s, startsIgnored D s inp⟩

/-- A reset, then the starts `start`. -/
def starts (start : ℕ → Bool) (t : ℕ) : In := ⟨t = 0, start t, 0x80000, 0b00100⟩

theorem starts_reset (start : ℕ → Bool) : ResetFirst (starts start) :=
  ⟨rfl, fun _ ht => decide_eq_false (by omega)⟩

/-- The registers before the reset. -/
def powerUp : Spi :=
  { present_state := .IDLE, bin2sc_reg := false, data_in_reg := 0, shift_reg := 0, bit_count := 0
    clk_count := 0, sdo_dis_reg := false, rbuf_reg := false, dac_tri_reg := false
    op_gnd_reg := false, init_count := 0, setpoint_sent := false, n_sync := false, sclk := false
    done := false }

theorem frames_law_starts :
    FramesSpelled 5 powerUp (starts fun _ => true) ∧ TwoFrames 5 powerUp (starts fun _ => true) ∧
      StartsIgnored 5 powerUp (starts fun _ => true) :=
  frames_law (starts_reset _) 5 powerUp

/-! ## The initialisation -/

theorem ctrlFrame_ne (s : Spi) : ctrlFrame s ≠ 0x400000 := by
  rw [ctrlFrame]
  cases s.sdo_dis_reg <;> cases s.bin2sc_reg <;> cases s.dac_tri_reg <;> cases s.op_gnd_reg <;>
    cases s.rbuf_reg <;> decide

theorem setpointFrame_ne (s : Spi) : setpointFrame s ≠ 0x400000 := by
  intro h
  have hbit : (setpointFrame s).getLsbD 22 = true := by
    rw [h]
    rfl
  rw [setpointFrame, BitVec.getLsbD_append, if_neg (by decide)] at hbit
  exact absurd hbit (by decide)

/-- The reset is never cleared. -/
theorem loads_ne (hreset : ResetFirst inp) {w : BitVec 24} (h : loads D s inp t = some w) :
    w ≠ 0x400000 := by
  rcases Nat.eq_zero_or_pos t with rfl | ht
  · simp [loads, loaded, hreset.1] at h
  have hinits := (ok (D := D) hreset s ht).inits.2
  simp only [loads, loaded, hreset.2 t ht, Bool.false_eq_true, if_false] at h
  split at h
  · next hs =>
    simp only [hs] at hinits
    split_ifs at h with hstart h0 h1
    · cases h
      decide
    · omega
  · cases h
    exact ctrlFrame_ne _
  · cases h
    exact setpointFrame_ne _
  · cases h

theorem not_shiftedOut (hreset : ResetFirst inp) : ¬ ShiftedOut D s inp 0x400000 a b := by
  rintro ⟨hlow, hbits⟩
  obtain ⟨hyes, hno⟩ := framesSpelled hreset s a b hlow
  by_cases htrans : Transmits D s inp a b
  · obtain ⟨w, ⟨v, -, hload, -⟩, hw⟩ := hyes htrans
    exact loads_ne hreset hload (msbFirst_inj.mp (hw.symm.trans hbits))
  · have hlen := congrArg List.length ((hno htrans).symm.trans hbits)
    rw [length_msbFirst] at hlen
    cases hlen

/-- `SEND_CTRL_REG` is entered with a start that finds the interface idle and initialised. -/
theorem ctrl_pred (hr : i.reset = false) (h : (step D s i).present_state = .SEND_CTRL_REG) :
    s.present_state = .IDLE ∧ s.init_count ≠ 0 ∧ i.start = true := by
  have hstep := control_step D s hr
  have hs' : (control D s i).present_state = .SEND_CTRL_REG := h
  generalize control D s i = s' at hstep hs'
  cases hstep with
  | startCtrl hs hi h0 => exact ⟨hs, h0, hi⟩
  | startReset | startClear | ctrl | setpoint | syncEnd | firstEnd | frameEnd | highEnd | lowEnd
  | doneFirst | doneBoth | waitEnd => cases hs'
  | idle hs | sync hs | first hs | high hs | low hs | done hs | wait hs => cases hs.symm.trans hs'

/-- A frame for the control register is only sent after two starts. -/
theorem startedTwice_of_ctrl (hreset : ResetFirst inp) (ht : 0 < t)
    (hctrl : (regs D s inp t).present_state = .SEND_CTRL_REG) : StartedTwice D inp := by
  have hinits := (ok (D := D) hreset s ht).inits
  simp only [Inits, hctrl] at hinits
  have hD : DivOk D := hinits.1 (by omega)
  obtain ⟨u, rfl⟩ := Nat.exists_eq_add_of_le' ht
  rcases Nat.eq_zero_or_pos u with rfl | hu
  · simp [regs_succ, step, stepData, hreset.1] at hctrl
  obtain ⟨hidle, hinit, hi⟩ := ctrl_pred (s := regs D s inp u) (hreset.2 u hu) hctrl
  -- the first start came before
  obtain ⟨v, hv, hvu, hstart⟩ : ∃ v, 0 < v ∧ v < u ∧ (inp v).start = true := by
    by_contra hno
    push Not at hno
    have hnone : ∀ v, 0 < v → v < u → (inp v).start = false := by
      intro v hv hvu
      simpa using hno v hv hvu
    exact hinit (before_start hreset s hu hnone).2.1
  exact ⟨hD, (jobs hreset s hD).apart_of_taken hu (left_idle hidle) hi hv hvu hstart⟩

/-- After a start the interface is idle only when it counts as initialised. -/
theorem idle_init_step (h : Inits D s) (hr : i.reset = false)
    (hidle : s.present_state = .IDLE → s.init_count = 2) :
    (control D s i).present_state = .IDLE → (control D s i).init_count = 2 := by
  have hstep := control_step D s hr
  generalize control D s i = s' at hstep ⊢
  intro hs'
  cases hstep with
  | idle hs => exact hidle hs
  | waitEnd hs =>
    simp only [Inits, hs] at h
    exact h.2
  | startReset | startClear | startCtrl | ctrl | setpoint | syncEnd | firstEnd | frameEnd | highEnd
  | lowEnd | doneFirst | doneBoth => cases hs'
  | sync hs | first hs | high hs | low hs | done hs | wait hs => cases hs.symm.trans hs'

/-- The second start sends a frame for the control register. -/
theorem ctrl_of_startedTwice (hreset : ResetFirst inp) (s : Spi) (h : StartedTwice D inp) :
    ∃ t, 0 < t ∧ (regs D s inp t).present_state = .SEND_CTRL_REG := by
  obtain ⟨hD, f, t, hf, hft, hfs, hts⟩ := h
  obtain ⟨f₀, u, hf₀, hnone, hstart, hfu, hleft, hi⟩ :=
    (jobs hreset s hD).taken_of_apart hf hft hfs hts
  have hu : 0 < u := by omega
  have hidle := (left_eq_zero_iff hreset hu).mp hleft
  have hbusy : (regs D s inp (f₀ + 1)).present_state ≠ .IDLE := by
    intro hs
    have hfirst := first_left (D := D) hreset s hf₀ hnone hstart
    rw [left_idle hs, firstStart] at hfirst
    omega
  have hinit : (regs D s inp u).init_count = 2 := by
    refine hold (P := fun v => (regs D s inp v).present_state = .IDLE →
      (regs D s inp v).init_count = 2) (show f₀ + 1 ≤ u by rw [firstStart] at hfu; omega) ?_
      (fun hs => absurd hs hbusy) hidle
    intro v hv _ ih
    exact idle_init_step (ok (D := D) hreset s (by omega)).inits (hreset.2 v (by omega)) ih
  exact ⟨u + 1, u.succ_pos, ctrl_succ hreset hu hidle hinit hi⟩

theorem not_initialised (hreset : ResetFirst inp) (s : Spi) (h : StartedTwice D inp) :
    ¬ Initialised D s inp := by
  intro hinit
  obtain ⟨t, ht, hctrl⟩ := ctrl_of_startedTwice hreset s h
  obtain ⟨a, b, a', b', -, -, hclear, -⟩ := hinit t ht hctrl
  exact not_shiftedOut hreset hclear

/-- The DAC is initialised in the order that is meant exactly when the second start is never
accepted. -/
theorem initialised_iff (hreset : ResetFirst inp) (D : ℕ) (s : Spi) :
    Initialised D s inp ↔ ¬ StartedTwice D inp := by
  constructor
  · exact fun hinit h => not_initialised hreset s h hinit
  · exact fun hno t ht hctrl => absurd (startedTwice_of_ctrl hreset ht hctrl) hno

theorem initialised_once : Initialised 5 powerUp (starts fun t => t = 1) := by
  rw [initialised_iff (starts_reset _)]
  rintro ⟨-, f, t, hf, hft, hfs, hts⟩
  have hf1 : f = 1 := of_decide_eq_true hfs
  have ht1 : t = 1 := of_decide_eq_true hts
  rw [firstStart, hf1, ht1] at hft
  omega

/-- The second start already sends the bits of the control register. -/
theorem not_initialised_twice : ¬ Initialised 5 powerUp (starts fun t => t = 1 || t = 545) :=
  not_initialised (starts_reset _) powerUp
    ⟨⟨by decide, by decide⟩, 1, 545, Nat.one_pos, le_rfl, rfl, rfl⟩

end Zpsc.Ad5781
