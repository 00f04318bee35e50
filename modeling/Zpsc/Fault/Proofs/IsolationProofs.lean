import Zpsc.Fault.Interlock

/-!
# Isolation of the fault channels

The inputs of a channel's fault block are those of the channel, but for `park`: `fault_module`
connects channel 2 to channel 1's park command (`parkOwner`). So channels 1, 3 and 4 are isolated
and channel 2 is not.
-/

namespace Zpsc.Top

open Bits Clocked FaultBlock FaultModule

/-- The channel whose park command a fault block sees. -/
def parkOwner : Chan → Chan
  | .ps1 => .ps1
  | .ps2 => .ps1
  | .ps3 => .ps3
  | .ps4 => .ps4

theorem rcom_parkBit (s : Interlock) (i : In) (c : Chan) :
    (rcom s i).getLsbD (parkBit c) = (i.mod.dig_cntrl (parkOwner c)).park := by
  cases c <;> simp [rcom, Digio.rcom, Digio.rcomBit, parkBit, parkOwner]

theorem blockIn_congr (s s' : Interlock) {i i' : In} {c : Chan} (h : SameChannel c i i')
    (hp : (i.mod.dig_cntrl (parkOwner c)).park = (i'.mod.dig_cntrl (parkOwner c)).park) :
    blockIn i.mod (rcom s i) c = blockIn i'.mod (rcom s' i') c := by
  simp only [blockIn, rcom_parkBit, h.reset, h.tenkhz_trig, h.dig_cntrl, h.fault_params,
    h.dcct_adcs, h.mon_adcs, h.dac_setpt, h.rsts, h.dcct_fault, hp]

theorem isolatedUnder_of_park {R : In → In → Prop} {c : Chan}
    (hR : ∀ i i', SameChannel c i i' → R i i' →
      (i.mod.dig_cntrl (parkOwner c)).park = (i'.mod.dig_cntrl (parkOwner c)).park) :
    IsolatedUnder R c := by
  intro s s' inp inp' hs hsame hrel t
  have hblock : (trace step s inp t).blocks c = (trace step s' inp' t).blocks c := by
    refine trace_rel (R := fun a b : Interlock => a.blocks c = b.blocks c)
      (fun t a b hab => ?_) hs t
    have hin := blockIn_congr a b (hsame t) (hR _ _ (hsame t) (hrel t))
    simp only [step, Interlock.step, interlockIn, hab, hin]
  simp only [faultStat, Interlock.faultStat, interlockIn, blockIn, hblock, (hsame t).dig_cntrl]

/-! ## Channel 2 -/

/-- A channel at rest with a large loop error, under a small threshold. -/
def errorIn (park1 : Bool) : In where
  mod :=
    { reset := false
      tenkhz_trig := false
      dig_cntrl := fun c =>
        { on1 := true, on2 := false, polarity := false, main_dipole := false, reset := false
          spare := false, park := park1 && decide (c = .ps1) }
      fault_params := fun _ =>
        ⟨false, 0xFFFF, 9, 9, 9, 1, 1, 9, 0, 0, 0, 0, 0, 0, 0, 0, 0, 0, 0⟩
      dcct_adcs := fun _ => ⟨0, 0⟩
      mon_adcs := fun _ => ⟨0, 0, 5⟩
      dac_setpt := fun _ => 0
      rsts := 0xF1111 }
  ch34_dualmode := false

def evalState : Interlock where
  blocks := fun _ =>
    { dff0 := false, dff1 := false, ten_khz_pulse := true
      re := false, re_reg := false, clear_pulse := false
      dac_setpoint_reg_new := 0, dac_setpoint_reg_old := 0, dac_change_flag := false
      digcntrl_on1_last := true, startup_state := false, run_state := true
      cnt := fun _ => 0
      fault_reg := 0, fault_live := 0, fault_reg_lat := 0, fault_reg_lat_mask := 0
      error_reg_mask := 0 }
  digio :=
    { on1 := fun _ => ⟨0, false, false, false⟩
      on2 := fun _ => ⟨0, false, false, false⟩
      pwr_delay := ⟨0, 0, false, false, false, false⟩ }

theorem errorIn_sameChannel (a b : Bool) : SameChannel .ps2 (errorIn a) (errorIn b) := by
  constructor <;> simp [errorIn]

/-- Parking channel 1 hides the loop error of channel 2. -/
theorem ps2_live_ne :
    faultStat (trace step evalState (fun _ => errorIn false) 1) (errorIn false) .ps2 ≠
      faultStat (trace step evalState (fun _ => errorIn true) 1) (errorIn true) .ps2 := by
  intro h
  have hlive := congrArg (fun f : FaultStat => f.live.getLsbD 3) h
  revert hlive
  decide +kernel

theorem ps2_not_isolated : ¬ Isolated .ps2 := fun h =>
  ps2_live_ne (h evalState evalState (fun _ => errorIn false) (fun _ => errorIn true) rfl
    (fun _ => errorIn_sameChannel false true) (fun _ => trivial) 1)

/-- Every channel but channel 2 is isolated, and channel 2 is isolated among inputs with the same
park command of channel 1. -/
theorem isolated_iff_ne_ps2 (c : Chan) :
    (Isolated c ↔ c ≠ .ps2) ∧
      IsolatedUnder
        (fun i i' => (i.mod.dig_cntrl .ps1).park = (i'.mod.dig_cntrl .ps1).park) .ps2 := by
  refine ⟨⟨?_, ?_⟩, isolatedUnder_of_park fun i i' _ h => h⟩
  · rintro h rfl
    exact ps2_live_ne (h evalState evalState (fun _ => errorIn false) (fun _ => errorIn true) rfl
      (fun _ => errorIn_sameChannel false true) (fun _ => trivial) 1)
  · intro hc
    refine isolatedUnder_of_park ?_
    intro i i' h _
    have howner : parkOwner c = c := by
      cases c
      case ps2 => exact absurd rfl hc
      all_goals rfl
    rw [howner, h.dig_cntrl]

end Zpsc.Top
