import Zpsc.Commands.Nor
import Zpsc.Commands.Sadata

/-!
# What the status frame takes from the stack

The frame is the words of the structure, most significant byte first (`hton_conv_words`), so two
frames are equal exactly when all fields are. The fields that are assigned depend on the registers
and the scale factors only; what is left are the fields that are not.
-/

namespace Zpsc.Commands

open Bits Effects

/-! ## The bytes of the frame -/

theorem hton_conv_words (ws : List (BitVec 32)) :
    hton_conv (ws.flatMap toLe32) = ws.flatMap toBe32 := by
  induction ws with
  | nil => rfl
  | cons w ws ih =>
    simp only [List.flatMap_cons, toLe32, toBe32, List.reverse_cons, List.reverse_nil,
      List.nil_append, List.cons_append] at ih ⊢
    simp only [hton_conv]
    rw [← ih]

theorem flatMap_toBe32_inj {ws ws' : List (BitVec 32)}
    (h : ws.flatMap toBe32 = ws'.flatMap toBe32) : ws = ws' := by
  induction ws generalizing ws' with
  | nil =>
    cases ws' with
    | nil => rfl
    | cons w' ws' => simp [toBe32] at h
  | cons w ws ih =>
    cases ws' with
    | nil => simp [toBe32] at h
    | cons w' ws' =>
      rw [List.flatMap_cons, List.flatMap_cons] at h
      obtain ⟨hw, hws⟩ := List.append_inj h rfl
      rw [toBe32_inj hw, ih hws]

theorem length_flatMap_toBe32 (ws : List (BitVec 32)) :
    (ws.flatMap toBe32).length = 4 * ws.length := by
  induction ws with
  | nil => rfl
  | cons w ws ih =>
    rw [List.flatMap_cons, List.length_append, ih, List.length_cons]
    simp [toBe32]
    omega

theorem mem_saField_all (f : SaField) : f ∈ SaField.all := by
  cases f
  case rsvd i => exact List.mem_append_right _ (List.mem_map_of_mem (List.mem_finRange i))
  all_goals exact List.mem_append_left _ (by decide)

theorem mem_saChanField_all (f : SaChanField) : f ∈ SaChanField.all := by
  cases f
  case rsvd i => exact List.mem_append_right _ (List.mem_map_of_mem (List.mem_finRange i))
  all_goals exact List.mem_append_left _ (by decide)

theorem length_words (m : SAdataMsg) : m.words.length = 325 := by
  have hglob : SaField.all.length = 25 := rfl
  have hchan : SaChanField.all.length = 75 := rfl
  simp [SAdataMsg.words, hglob, hchan]

/-- The words of the structure are its fields. -/
theorem words_inj {m m' : SAdataMsg} (h : m.words = m'.words) : m = m' := by
  have hmap : ∀ c, SaChanField.all.map (m.ps c) = SaChanField.all.map (m'.ps c) →
      m.ps c = m'.ps c := by
    intro c hc
    funext f
    exact List.map_inj_left.mp hc f (mem_saChanField_all f)
  obtain ⟨hglob, hps⟩ := List.append_inj h (by simp)
  simp only [List.flatMap_cons, List.flatMap_nil, List.append_nil] at hps
  obtain ⟨h1, hps⟩ := List.append_inj hps (by simp)
  obtain ⟨h2, hps⟩ := List.append_inj hps (by simp)
  obtain ⟨h3, h4⟩ := List.append_inj hps (by simp)
  have hg : m.glob = m'.glob := by
    funext f
    exact List.map_inj_left.mp hglob f (mem_saField_all f)
  have hc : m.ps = m'.ps := by
    funext c
    cases c
    · exact hmap _ h1
    · exact hmap _ h2
    · exact hmap _ h3
    · exact hmap _ h4
  cases m
  cases m'
  simp only at hg hc
  rw [hg, hc]

/-! ## Two runs -/

/-- Two stacks hold the same in the fields that are never assigned. -/
structure SameLeftover (old old' : SAdataMsg) : Prop where
  die_temp : old.glob .die_temp = old'.glob .die_temp
  vccint : old.glob .vccint = old'.glob .vccint
  vccaux : old.glob .vccaux = old'.glob .vccaux
  rsvd : ∀ i, old.glob (.rsvd i) = old'.glob (.rsvd i)
  ps_rsvd : ∀ c i, old.ps c (.rsvd i) = old'.ps c (.rsvd i)

variable {φ : Type} (F : Type) [Fpu F]

/-- The values that are assigned are those of the registers and the scale factors. -/
theorem sadata_congr (conv : BitVec 32) {s s' : Psc φ} (hregs : s.regs = s'.regs)
    (hsf : s.scalefactors = s'.scalefactors) (old : SAdataMsg) :
    sadata F conv s old = sadata F conv s' old := by
  cases s
  cases s'
  subst hregs hsf
  rfl

theorem sadata_eq_iff (conv : BitVec 32) (s : Psc φ) (old old' : SAdataMsg) :
    sadata F conv s old = sadata F conv s old' ↔ SameLeftover old old' := by
  constructor
  · intro h
    have hglob := fun f => congrFun (congrArg SAdataMsg.glob h) f
    have hps := fun c f => congrFun (congrFun (congrArg SAdataMsg.ps h) c) f
    exact ⟨hglob .die_temp, hglob .vccint, hglob .vccaux, fun i => hglob (.rsvd i),
      fun c i => hps c (.rsvd i)⟩
  · rintro ⟨h1, h2, h3, h4, h5⟩
    have hglob : (sadata F conv s old).glob = (sadata F conv s old').glob := by
      funext f
      cases f <;> first | rfl | exact h1 | exact h2 | exact h3 | exact h4 _
    have hps : (sadata F conv s old).ps = (sadata F conv s old').ps := by
      funext c f
      cases f <;> first | rfl | exact h5 c _
    rw [SAdataMsg.mk.injEq]
    exact ⟨hglob, hps⟩

variable [FlashChip φ]

/-- The state after the front panel LED is blinked. -/
def blinked (s : Psc φ) : Psc φ :=
  applyAll [Eff.out32 TENHZ_DATASEND_REG 1, Eff.out32 TENHZ_DATASEND_REG 0] s

theorem value_sadata_send (conv : BitVec 32) (old : SAdataMsg) (s : Psc φ) :
    (sadata_send F conv old : Sw φ (List Byte)).value s =
      (sadata F conv (blinked s) old).words.flatMap toBe32 ++ List.replicate 100 0 := by
  have hval : (sadata_send F conv old : Sw φ (List Byte)).value s =
      hton_conv ((sadata F conv (blinked s) old).words.flatMap toLe32) ++
        List.replicate (sizeofMsg -
          (hton_conv ((sadata F conv (blinked s) old).words.flatMap toLe32)).length) 0 := rfl
  rw [hval, hton_conv_words, length_flatMap_toBe32, length_words]
  rfl

/-- Two runs with the same registers and scale factors send the same frame exactly when their stacks
held the same in the fields that are never assigned. -/
theorem sadata_send_eq_iff (conv : BitVec 32) {s s' : Psc φ} (hregs : s.regs = s'.regs)
    (hsf : s.scalefactors = s'.scalefactors) (old old' : SAdataMsg) :
    (sadata_send F conv old : Sw φ (List Byte)).value s =
        (sadata_send F conv old' : Sw φ (List Byte)).value s' ↔
      SameLeftover old old' := by
  have hblink : (blinked s).regs = (blinked s').regs :=
    congrArg (fun b => (Bus.out32 b TENHZ_DATASEND_REG 1).out32 TENHZ_DATASEND_REG 0) hregs
  rw [value_sadata_send, value_sadata_send, ← sadata_congr F conv hblink hsf old',
    List.append_left_inj]
  constructor
  · intro h
    exact (sadata_eq_iff F conv _ old old').mp (words_inj (flatMap_toBe32_inj h))
  · intro h
    rw [(sadata_eq_iff F conv _ old old').mpr h]

/-! ## Two stacks -/

/-- A stack that holds `w` in every word. -/
def filled (w : BitVec 32) : SAdataMsg := ⟨fun _ => w, fun _ _ => w⟩

/-- Stacks that differ only where the frame is filled in. -/
theorem sadata_send_same :
    (sadata_send Float 0 (filled 0) : Sw Nor (List Byte)).value blank =
      (sadata_send Float 0 { filled 0 with
        glob := fun f => if f = .numchans then 7 else 0 }).value blank :=
  (sadata_send_eq_iff Float 0 rfl rfl _ _).mpr
    ⟨rfl, rfl, rfl, fun _ => rfl, fun _ _ => rfl⟩

/-- A stack of zeros and a stack of ones: the frames differ. -/
theorem sadata_send_leaks :
    (sadata_send Float 0 (filled 0) : Sw Nor (List Byte)).value blank ≠
      (sadata_send Float 0 (filled 1)).value blank := by
  intro h
  rw [value_sadata_send, value_sadata_send, List.append_left_inj] at h
  have hwords := words_inj (flatMap_toBe32_inj h)
  have hdie := ((sadata_eq_iff Float 0 _ (filled 0) (filled 1)).mp hwords).die_temp
  exact absurd hdie (by decide)

end Zpsc.Commands
