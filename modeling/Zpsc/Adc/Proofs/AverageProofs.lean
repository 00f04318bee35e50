import Zpsc.Adc.Average
import Zpsc.Bits.FixedPoint

/-!
# Proofs: the window of the moving average

A start that finds the process idle is followed through the pass over the RAM. After the first pass
each one adds up the slots of a ring in rounds of `addr_max + 1`, so `Window.sum_slots_eq_iff` says
when that is the window.
-/

namespace Zpsc.Average

open Bits Clocked Window

variable {m : BitVec 2} {s : Regs} {i : In}

/-! ## One clock -/

theorem addrMax_cases (m : BitVec 2) : addrMax m = 167 ∨ addrMax m = 500 ∨ addrMax m = 10 := by
  revert m
  decide

theorem addrMax_le (m : BitVec 2) : addrMax m ≤ 500 := by
  rcases addrMax_cases m with h | h | h <;> omega

theorem mode_cases (m : BitVec 2) : m = 0 ∨ m = 1 ∨ m = 2 ∨ m = 3 := by
  revert m
  decide

theorem regs_succ (s : Regs) (inp : ℕ → In) (t : ℕ) :
    regs s inp (t + 1) = step (regs s inp t) (inp t) := rfl

theorem storage_reset (hr : i.reset = true) :
    storage s i =
      { s with addr_cnt := 0, accum := 0, present_state := .IDLE, done := false } := by
  rw [storage, if_pos hr]

theorem storage_idle (hr : i.reset = false) (hs : s.present_state = .IDLE)
    (hi : i.start = false) : storage s i = { s with done := false } := by
  simp only [storage, hr, hs, hi, Bool.false_eq_true, if_false]

theorem storage_through (hr : i.reset = false) (hs : s.present_state = .IDLE)
    (hi : i.start = true) (hm : s.mode = 0) :
    storage s i =
      { s with done := false, accum := sresize 29 i.data_in, present_state := .FINISHED } := by
  simp only [storage, hr, hs, hi, hm, Bool.false_eq_true, if_false, if_true]
  rfl

theorem storage_start (hr : i.reset = false) (hs : s.present_state = .IDLE)
    (hi : i.start = true) (hm : s.mode ≠ 0) :
    storage s i =
      { s with done := false, addr_max := addrMax s.mode, present_state := .WRITE_TO_RAM } := by
  rcases mode_cases s.mode with h | h | h | h
  · exact absurd h hm
  all_goals
    simp only [storage, hr, hs, hi, h, Bool.false_eq_true, if_false, if_true]
    rfl

theorem storage_wrap (hr : i.reset = false) (hs : s.present_state = .WRITE_TO_RAM)
    (h : s.ram_cnt = s.addr_max) :
    storage s i = { s with ram_cnt := 0, present_state := .ACCUMULATE } := by
  simp only [storage, hr, hs, h, Bool.false_eq_true, if_false, if_true]

theorem storage_store (hr : i.reset = false) (hs : s.present_state = .WRITE_TO_RAM)
    (h : s.ram_cnt ≠ s.addr_max) :
    storage s i =
      { s with
        ram := Function.update s.ram s.ram_cnt i.data_in
        ram_cnt := s.ram_cnt + 1
        present_state := .ACCUMULATE } := by
  simp only [storage, hr, hs, h, Bool.false_eq_true, if_false]

theorem storage_last (hr : i.reset = false) (hs : s.present_state = .ACCUMULATE)
    (h : s.addr_cnt = s.addr_max) :
    storage s i = { s with addr_cnt := 0, present_state := .FINISHED } := by
  simp only [storage, hr, hs, h, Bool.false_eq_true, if_false, if_true]

theorem storage_add (hr : i.reset = false) (hs : s.present_state = .ACCUMULATE)
    (h : s.addr_cnt ≠ s.addr_max) :
    storage s i =
      { s with
        accum := s.accum + sresize 29 (s.ram s.addr_cnt)
        addr_cnt := s.addr_cnt + 1 } := by
  simp only [storage, hr, hs, h, Bool.false_eq_true, if_false]

theorem storage_finished (hr : i.reset = false) (hs : s.present_state = .FINISHED) :
    storage s i =
      { s with
        avg_out := sresize 32 s.accum, accum := 0, done := true, present_state := .IDLE } := by
  simp only [storage, hr, hs, Bool.false_eq_true, if_false]

/-- What the process can do at a clock. -/
inductive StorageStep (s : Regs) (i : In) : Regs → Prop
  | reset (hr : i.reset = true) :
      StorageStep s i { s with addr_cnt := 0, accum := 0, present_state := .IDLE, done := false }
  | idle (hr : i.reset = false) (hs : s.present_state = .IDLE) (hi : i.start = false) :
      StorageStep s i { s with done := false }
  | through (hr : i.reset = false) (hs : s.present_state = .IDLE) (hi : i.start = true)
      (hm : s.mode = 0) :
      StorageStep s i
        { s with done := false, accum := sresize 29 i.data_in, present_state := .FINISHED }
  | start (hr : i.reset = false) (hs : s.present_state = .IDLE) (hi : i.start = true)
      (hm : s.mode ≠ 0) :
      StorageStep s i
        { s with done := false, addr_max := addrMax s.mode, present_state := .WRITE_TO_RAM }
  | wrap (hr : i.reset = false) (hs : s.present_state = .WRITE_TO_RAM)
      (h : s.ram_cnt = s.addr_max) :
      StorageStep s i { s with ram_cnt := 0, present_state := .ACCUMULATE }
  | store (hr : i.reset = false) (hs : s.present_state = .WRITE_TO_RAM)
      (h : s.ram_cnt ≠ s.addr_max) :
      StorageStep s i
        { s with
          ram := Function.update s.ram s.ram_cnt i.data_in
          ram_cnt := s.ram_cnt + 1
          present_state := .ACCUMULATE }
  | last (hr : i.reset = false) (hs : s.present_state = .ACCUMULATE)
      (h : s.addr_cnt = s.addr_max) :
      StorageStep s i { s with addr_cnt := 0, present_state := .FINISHED }
  | add (hr : i.reset = false) (hs : s.present_state = .ACCUMULATE)
      (h : s.addr_cnt ≠ s.addr_max) :
      StorageStep s i
        { s with
          accum := s.accum + sresize 29 (s.ram s.addr_cnt)
          addr_cnt := s.addr_cnt + 1 }
  | finished (hr : i.reset = false) (hs : s.present_state = .FINISHED) :
      StorageStep s i
        { s with
          avg_out := sresize 32 s.accum, accum := 0, done := true, present_state := .IDLE }

theorem storage_step (s : Regs) (i : In) : StorageStep s i (storage s i) := by
  cases hr : i.reset with
  | true => exact storage_reset hr ▸ .reset hr
  | false =>
    cases hs : s.present_state with
    | IDLE =>
      cases hi : i.start with
      | false => exact storage_idle hr hs hi ▸ .idle hr hs hi
      | true =>
        by_cases hm : s.mode = 0
        · exact storage_through hr hs hi hm ▸ .through hr hs hi hm
        · exact storage_start hr hs hi hm ▸ .start hr hs hi hm
    | WRITE_TO_RAM =>
      by_cases h : s.ram_cnt = s.addr_max
      · exact storage_wrap hr hs h ▸ .wrap hr hs h
      · exact storage_store hr hs h ▸ .store hr hs h
    | ACCUMULATE =>
      by_cases h : s.addr_cnt = s.addr_max
      · exact storage_last hr hs h ▸ .last hr hs h
      · exact storage_add hr hs h ▸ .add hr hs h
    | FINISHED => exact storage_finished hr hs ▸ .finished hr hs

/-! ## The accumulator -/

/-- The bounds in the mode `m`: the slots from 500 on stay empty, and `accum` has the sum of at most
`addr_cnt` slots. -/
structure Bounded (m : BitVec 2) (s : Regs) : Prop where
  mode : s.mode = m
  ram : ∀ j, 500 ≤ j → s.ram j = 0
  ram_cnt : s.ram_cnt ≤ addrMax m
  addr_max : s.present_state = .WRITE_TO_RAM → s.addr_max = addrMax m
  idle : s.present_state = .IDLE ∨ s.present_state = .WRITE_TO_RAM → s.accum = 0
  adding : s.present_state = .ACCUMULATE → |s.accum.toInt| ≤ min s.addr_cnt 500 * 2 ^ 19

theorem bounded_powerUp (m : BitVec 2) (a : BitVec 32) (d : Bool) : Bounded m (powerUp m a d) where
  mode := rfl
  ram := fun _ _ => rfl
  ram_cnt := Nat.zero_le _
  addr_max := nofun
  idle := fun _ => rfl
  adding := nofun

/-- Before the first slot is added. -/
theorem Bounded.cleared (h : Bounded m s) (hs : s.present_state = .WRITE_TO_RAM) :
    |s.accum.toInt| ≤ min s.addr_cnt 500 * 2 ^ 19 := by
  rw [h.idle (.inr hs), show (0 : BitVec 29).toInt = 0 from rfl, abs_zero]
  omega

/-- A slot is added without overflow. -/
theorem Bounded.add (h : Bounded m s) (hs : s.present_state = .ACCUMULATE) :
    (s.accum + sresize 29 (s.ram s.addr_cnt)).toInt =
        s.accum.toInt + (s.ram s.addr_cnt).toInt ∧
      |s.accum.toInt + (s.ram s.addr_cnt).toInt| ≤ min (s.addr_cnt + 1 : ℕ) 500 * 2 ^ 19 := by
  have hacc := h.adding hs
  have hslot : |(s.ram s.addr_cnt).toInt| ≤ 2 ^ 19 := abs_toInt_le _
  have hsum : |s.accum.toInt + (s.ram s.addr_cnt).toInt| ≤
      min (s.addr_cnt + 1 : ℕ) 500 * 2 ^ 19 := by
    rcases Nat.lt_or_ge s.addr_cnt 500 with hlt | hge
    · have habs := abs_add_le s.accum.toInt (s.ram s.addr_cnt).toInt
      push_cast
      omega
    · rw [h.ram _ hge, show (0 : BitVec 20).toInt = 0 from rfl, add_zero]
      omega
  refine ⟨?_, hsum⟩
  obtain ⟨hlo, hhi⟩ := abs_le.mp hsum
  rw [BitVec.toInt_add, toInt_sresize _ (by omega)]
  exact Int.bmod_eq_of_le (by omega) (by omega)

theorem Bounded.step (h : Bounded m s) (hm : m ≠ 0) (hi : i.sel = m) :
    Bounded m (step s i) := by
  have hstorage := storage_step s i
  rw [Average.step]
  generalize storage s i = s' at hstorage ⊢
  cases hstorage with
  | reset => exact ⟨hi, h.ram, h.ram_cnt, nofun, fun _ => rfl, nofun⟩
  | idle => exact ⟨hi, h.ram, h.ram_cnt, h.addr_max, h.idle, h.adding⟩
  | through _ _ _ hmode => exact absurd (h.mode.symm.trans hmode) hm
  | start _ hs =>
    exact ⟨hi, h.ram, h.ram_cnt, fun _ => h.mode ▸ rfl, fun _ => h.idle (.inl hs), nofun⟩
  | wrap _ hs =>
    exact ⟨hi, h.ram, Nat.zero_le _, nofun, fun _ => h.idle (.inr hs), fun _ => h.cleared hs⟩
  | store _ hs hne =>
    have hlt : s.ram_cnt < addrMax m := lt_of_le_of_ne h.ram_cnt (h.addr_max hs ▸ hne)
    refine ⟨hi, ?_, hlt, nofun, fun _ => h.idle (.inr hs), fun _ => h.cleared hs⟩
    intro j hj
    have hmax := addrMax_le m
    exact (Function.update_of_ne (by omega) _ _).trans (h.ram j hj)
  | last => exact ⟨hi, h.ram, h.ram_cnt, nofun, nofun, nofun⟩
  | add _ hs =>
    obtain ⟨hsum, hle⟩ := h.add hs
    refine ⟨hi, h.ram, h.ram_cnt, ?_, ?_, fun _ => hsum.symm ▸ hle⟩
    · intro hw
      exact State.noConfusion (hs.symm.trans hw)
    · rintro (hw | hw)
      all_goals exact State.noConfusion (hs.symm.trans hw)
  | finished => exact ⟨hi, h.ram, h.ram_cnt, nofun, fun _ => rfl, nofun⟩

section Run

variable {inp : ℕ → In} {a : BitVec 32} {d : Bool}

theorem bounded_regs (hm : m ≠ 0) (hsel : ∀ t, (inp t).sel = m) (t : ℕ) :
    Bounded m (regs (powerUp m a d) inp t) := by
  induction t with
  | zero => exact bounded_powerUp m a d
  | succ t ih => exact ih.step hm (hsel t)

/-- In the modes that add up samples the accumulator never overflows. -/
theorem addsUp (hm : m ≠ 0) (hsel : ∀ t, (inp t).sel = m) : AddsUp (powerUp m a d) inp := by
  intro t hr hs hne
  rw [regs_succ, step, storage_add hr hs hne]
  exact ((bounded_regs hm hsel t).add hs).1

/-! ## The pass of a start -/

/-- The registers in the state `st` after `n` samples, with the place `c` to read next and the sum
`v`. -/
structure At (m : BitVec 2) (x : ℕ → ℤ) (st : State) (n c : ℕ) (v : ℤ) (s : Regs) : Prop where
  state : s.present_state = st
  addr_max : st ≠ .IDLE → s.addr_max = addrMax m
  done : st ≠ .IDLE → s.done = false
  accum : s.accum.toInt = v
  addr_cnt : s.addr_cnt = c
  ram_cnt : s.ram_cnt = n % (addrMax m + 1)
  ram : ∀ j < addrMax m, (s.ram j).toInt = slots x (addrMax m) n j

variable {x : ℕ → ℤ} {n c t : ℕ} {v : ℤ}

theorem At.start (h : At m x .IDLE n c 0 s) (hmode : s.mode = m) (hm : m ≠ 0)
    (hr : i.reset = false) (hi : i.start = true) : At m x .WRITE_TO_RAM n c 0 (step s i) := by
  rw [step, storage_start hr h.state hi (hmode ▸ hm)]
  exact ⟨rfl, fun _ => hmode ▸ rfl, fun _ => rfl, h.accum, h.addr_cnt, h.ram_cnt, h.ram⟩

theorem At.write (h : At m x .WRITE_TO_RAM n c 0 s) (hr : i.reset = false)
    (hx : i.data_in.toInt = x n) : At m x .ACCUMULATE (n + 1) c 0 (step s i) := by
  have hmax : s.addr_max = addrMax m := h.addr_max nofun
  have hdone : s.done = false := h.done nofun
  have hsucc := succ_mod (addrMax m) n
  by_cases hwrap : s.ram_cnt = s.addr_max
  · rw [step, storage_wrap hr h.state hwrap]
    rw [h.ram_cnt, hmax] at hwrap
    refine ⟨rfl, fun _ => hmax, fun _ => hdone, h.accum, h.addr_cnt, ?_, ?_⟩
    · rw [hsucc, if_pos hwrap]
    · intro j hj
      rw [slots, if_neg (by omega)]
      exact h.ram j hj
  · rw [step, storage_store hr h.state hwrap]
    rw [h.ram_cnt, hmax] at hwrap
    refine ⟨rfl, fun _ => hmax, fun _ => hdone, h.accum, h.addr_cnt, ?_, ?_⟩
    · rw [hsucc, if_neg hwrap, ← h.ram_cnt]
    · intro j hj
      simp only [slots, Function.update_apply, h.ram_cnt]
      split
      · exact hx
      · exact h.ram j hj

theorem At.last (h : At m x .ACCUMULATE n (addrMax m) v s) (hr : i.reset = false) :
    At m x .FINISHED n 0 v (step s i) := by
  have hmax : s.addr_max = addrMax m := h.addr_max nofun
  rw [step, storage_last hr h.state (h.addr_cnt.trans hmax.symm)]
  exact ⟨rfl, fun _ => hmax, fun _ => h.done nofun, h.accum, rfl, h.ram_cnt, h.ram⟩

theorem At.finish (h : At m x .FINISHED n c v s) (hr : i.reset = false) :
    At m x .IDLE n c 0 (step s i) ∧ (step s i).done = true ∧ (step s i).avg_out.toInt = v := by
  rw [step, storage_finished hr h.state]
  exact ⟨⟨rfl, nofun, nofun, rfl, h.addr_cnt, h.ram_cnt, h.ram⟩, rfl,
    (toInt_sresize _ (by omega)).trans h.accum⟩

theorem At.wait (h : At m x .IDLE n c 0 s) (hr : i.reset = false) (hi : i.start = false) :
    At m x .IDLE n c 0 (step s i) := by
  rw [step, storage_idle hr h.state hi]
  exact ⟨h.state, nofun, nofun, h.accum, h.addr_cnt, h.ram_cnt, h.ram⟩

theorem At.reset (h : At m x .IDLE n c 0 s) (hr : i.reset = true) :
    At m x .IDLE n 0 0 (step s i) := by
  rw [step, storage_reset hr]
  exact ⟨rfl, nofun, nofun, rfl, rfl, h.ram_cnt, h.ram⟩

/-- The slots from `c` on are added one by one. -/
theorem At.adds (hm : m ≠ 0) (hsel : ∀ t, (inp t).sel = m)
    (h : At m x .ACCUMULATE n c 0 (regs (powerUp m a d) inp t))
    (hr : ∀ u, t ≤ u → (inp u).reset = false) {k : ℕ} (hk : c + k ≤ addrMax m) :
    At m x .ACCUMULATE n (c + k) (∑ j ∈ Finset.Ico c (c + k), slots x (addrMax m) n j)
      (regs (powerUp m a d) inp (t + k)) := by
  induction k with
  | zero => simpa using h
  | succ k ih =>
    have hat := ih (by omega)
    have hreset := hr (t + k) (by omega)
    have hmax : (regs (powerUp m a d) inp (t + k)).addr_max = addrMax m := hat.addr_max nofun
    have hne : (regs (powerUp m a d) inp (t + k)).addr_cnt ≠
        (regs (powerUp m a d) inp (t + k)).addr_max := by
      rw [hat.addr_cnt, hmax]
      omega
    have hsum := addsUp hm hsel (t + k) hreset hat.state hne
    rw [hat.accum, hat.addr_cnt, hat.ram _ (by omega)] at hsum
    rw [← add_assoc c, Finset.sum_Ico_succ_top (by omega), ← add_assoc t]
    refine ⟨?_, ?_, ?_, hsum, ?_, ?_, ?_⟩
    all_goals rw [regs_succ, step, storage_add hreset hat.state hne]
    · exact hat.state
    · exact fun _ => hmax
    · exact fun _ => hat.done nofun
    · exact congrArg (· + 1) hat.addr_cnt
    · exact hat.ram_cnt
    · exact hat.ram

/-- A start that finds the process idle, with a place to read that is not beyond `addr_max`, puts
out the sum of the slots from there on. -/
theorem At.pass (hm : m ≠ 0) (hsel : ∀ t, (inp t).sel = m)
    (h : At m x .IDLE n c 0 (regs (powerUp m a d) inp t)) (hstart : (inp t).start = true)
    (hr : ∀ u, t ≤ u → (inp u).reset = false) (hx : (inp (t + 1)).data_in.toInt = x n)
    {k : ℕ} (hk : c + k = addrMax m) :
    (∀ w, t < w → w < t + 4 + k → (regs (powerUp m a d) inp w).done = false) ∧
      At m x .IDLE (n + 1) 0 0 (regs (powerUp m a d) inp (t + 4 + k)) ∧
      (regs (powerUp m a d) inp (t + 4 + k)).done = true ∧
      (regs (powerUp m a d) inp (t + 4 + k)).avg_out.toInt =
        ∑ j ∈ Finset.Ico c (addrMax m), slots x (addrMax m) (n + 1) j := by
  have hwrite : At m x .WRITE_TO_RAM n c 0 (regs (powerUp m a d) inp (t + 1)) :=
    h.start (bounded_regs hm hsel t).mode hm (hr t le_rfl) hstart
  have hadd : At m x .ACCUMULATE (n + 1) c 0 (regs (powerUp m a d) inp (t + 2)) :=
    hwrite.write (hr _ (by omega)) hx
  have hadds : ∀ j, c + j ≤ addrMax m → At m x .ACCUMULATE (n + 1) (c + j)
      (∑ j ∈ Finset.Ico c (c + j), slots x (addrMax m) (n + 1) j)
      (regs (powerUp m a d) inp (t + 2 + j)) := fun j hj =>
    hadd.adds hm hsel (fun u hu => hr u (by omega)) hj
  have hfull := hadds k hk.le
  rw [hk] at hfull
  have hfinished := hfull.last (i := inp (t + 2 + k)) (hr _ (by omega))
  have hdone := hfinished.finish (i := inp (t + 2 + k + 1)) (hr _ (by omega))
  rw [show t + 4 + k = t + 2 + k + 1 + 1 by omega]
  refine ⟨?_, hdone⟩
  intro w htw hw
  obtain rfl | rfl | hge | rfl :
      w = t + 1 ∨ w = t + 2 ∨ (t + 2 ≤ w ∧ w ≤ t + 2 + k) ∨ w = t + 2 + k + 1 := by omega
  · exact hwrite.done nofun
  · exact hadd.done nofun
  · have hat := (hadds (w - (t + 2)) (by omega)).done nofun
    rwa [show t + 2 + (w - (t + 2)) = w by omega] at hat
  · exact hfinished.done nofun

/-! ## Every start -/

theorem startsBefore_succ (t : ℕ) :
    startsBefore inp (t + 1) = startsBefore inp t + if (inp t).start = true then 1 else 0 :=
  Nat.count_succ _ t

theorem startsBefore_none (h : ∀ u < t, (inp u).start = false) : startsBefore inp t = 0 := by
  induction t with
  | zero => rfl
  | succ t ih =>
    rw [startsBefore_succ, ih fun u hu => h u (by omega), h t (by omega)]
    rfl

theorem startsBefore_last {t' : ℕ} (ht : t' < t) (hstart : (inp t').start = true)
    (hnone : ∀ u, t' < u → u < t → (inp u).start = false) :
    startsBefore inp t = startsBefore inp t' + 1 := by
  refine hold (P := fun u => startsBefore inp u = startsBefore inp t' + 1)
    (Nat.succ_le_of_lt ht) ?_ ?_
  · intro u hu hut h
    rw [startsBefore_succ, hnone u hu hut, h]
    rfl
  · rw [startsBefore_succ, if_pos hstart]

theorem sample_at (ht : (inp t).start = true) :
    sample inp (startsBefore inp t) = (inp t).data_in.toInt := by
  rw [sample, startsBefore, Nat.nth_count (p := fun u => (inp u).start = true) ht]

/-- Before the first start the process is idle, and it reads from slot 0 if there was a reset. -/
theorem ready_first (hnone : ∀ u < t, (inp u).start = false) :
    ∃ c, At m x .IDLE 0 c 0 (regs (powerUp m a d) inp t) ∧
      (c = 0 ∧ ¬ Untouched inp t ∨ c = 500 ∧ Untouched inp t) := by
  induction t with
  | zero =>
    refine ⟨500, ⟨rfl, nofun, nofun, rfl, rfl, rfl, fun _ _ => rfl⟩, .inr ⟨rfl, ?_⟩⟩
    exact fun u hu => absurd hu (Nat.not_lt_zero u)
  | succ t ih =>
    obtain ⟨c, hat, hc⟩ := ih fun u hu => hnone u (by omega)
    cases hr : (inp t).reset with
    | true =>
      refine ⟨0, hat.reset hr, .inl ⟨rfl, fun hun => ?_⟩⟩
      rw [(hun t (by omega)).2] at hr
      exact Bool.false_ne_true hr
    | false =>
      refine ⟨c, hat.wait hr (hnone t (by omega)), ?_⟩
      rcases hc with ⟨hc, hun⟩ | ⟨hc, hun⟩
      · exact .inl ⟨hc, fun h => hun fun u hu => h u (by omega)⟩
      · refine .inr ⟨hc, fun u hu => ?_⟩
        rcases Nat.lt_succ_iff_lt_or_eq.mp hu with hlt | rfl
        · exact hun u hlt
        · exact ⟨hnone u (by omega), hr⟩

theorem data_after (hreg : Regular m inp) (ht : (inp t).start = true) :
    (inp (t + 1)).data_in.toInt = sample inp (startsBefore inp t) := by
  rw [sample_at ht, hreg.held t (t + 1) ht (by omega)]
  intro v hv hvt
  by_contra hstart
  have := hreg.apart t v hv ht (by simpa using hstart)
  omega

/-- Each start finds the process idle with the samples of the starts before it in the slots, unless
the process got stuck at the first one. -/
theorem ready (hm : m ≠ 0) (hreg : Regular m inp)
    (hfirst : ∀ t, (inp t).start = true → Untouched inp t → addrMax m = 500)
    (ht : (inp t).start = true) :
    ∃ c, At m (sample inp) .IDLE (startsBefore inp t) c 0 (regs (powerUp m a d) inp t) ∧
      (c = 0 ∧ ¬ Untouched inp t ∨ c = 500 ∧ Untouched inp t) := by
  induction t using Nat.strong_induction_on with
  | _ t ih =>
    rcases exists_last_tick (fun u => (inp u).start) t with hnone | ⟨t', ht', hk, hbetween⟩
    · rw [startsBefore_none hnone]
      exact ready_first hnone
    · obtain ⟨c, hat, hc⟩ := ih t' ht' hk
      have hle : c ≤ addrMax m := by
        rcases hc with ⟨hc, -⟩ | ⟨hc, hun⟩
        · omega
        · exact (hfirst t' hk hun).symm ▸ hc.le
      obtain ⟨j, hj⟩ := Nat.exists_eq_add_of_le hle
      have hmax := addrMax_le m
      have happ := hreg.apart t' t ht' hk ht
      obtain ⟨-, hidle, -⟩ := hat.pass hm hreg.sel hk (hreg.no_reset t' · hk) (data_after hreg hk)
        hj.symm
      rw [startsBefore_last ht' hk hbetween]
      refine ⟨0, ?_, .inl ⟨rfl, fun hun => ?_⟩⟩
      · refine hold (P := fun u => At m (sample inp) .IDLE (startsBefore inp t' + 1) 0 0
          (regs (powerUp m a d) inp u)) (show t' + 4 + j ≤ t by omega) ?_ hidle
        intro u hu hut h
        exact h.wait (hreg.no_reset t' u hk (by omega)) (hbetween u (by omega) hut)
      · rw [(hun t' ht').1] at hk
        exact Bool.false_ne_true hk

/-- What a start puts out is the sum of all slots, or of none for a first start without a reset. -/
theorem produces_iff (hm : m ≠ 0) (hreg : Regular m inp)
    (hfirst : ∀ t, (inp t).start = true → Untouched inp t → addrMax m = 500)
    (ht : (inp t).start = true) :
    ∃ c, (c = 0 ∧ ¬ Untouched inp t ∨ c = 500 ∧ Untouched inp t) ∧
      ∀ v, Produces (powerUp m a d) inp t v ↔
        ∑ j ∈ Finset.Ico c (addrMax m),
          slots (sample inp) (addrMax m) (startsBefore inp t + 1) j = v := by
  obtain ⟨c, hat, hc⟩ := ready (a := a) (d := d) hm hreg hfirst ht
  have hle : c ≤ addrMax m := by
    rcases hc with ⟨hc, -⟩ | ⟨hc, hun⟩
    · omega
    · exact (hfirst t ht hun).symm ▸ hc.le
  obtain ⟨k, hk⟩ := Nat.exists_eq_add_of_le hle
  obtain ⟨hbefore, -, hdone, hout⟩ :=
    hat.pass hm hreg.sel ht (hreg.no_reset t · ht) (data_after hreg ht) hk.symm
  refine ⟨c, hc, fun v => ⟨?_, ?_⟩⟩
  · rintro ⟨u, htu, hnone, hu, rfl⟩
    -- the first clock that is done is the end of the pass
    rcases Nat.lt_trichotomy u (t + 4 + k) with hlt | rfl | hlt
    · rw [hbefore u htu hlt] at hu
      exact absurd hu Bool.false_ne_true
    · exact hout.symm
    · rw [(hnone _ (by omega) hlt).1] at hdone
      exact absurd hdone Bool.false_ne_true
  · rintro rfl
    refine ⟨t + 4 + k, by omega, ?_, hdone, hout⟩
    intro w htw hw
    refine ⟨hbefore w htw hw, ?_⟩
    by_contra hstart
    have hmax := addrMax_le m
    have := hreg.apart t w htw ht (by simpa using hstart)
    omega

/-- Without a reset and with less than 500 samples the first start is never done: `addr_cnt` is
beyond `addr_max`. -/
theorem stuck (hm : m ≠ 0) (hreg : Regular m inp) (ht : (inp t).start = true)
    (hun : Untouched inp t) (hmax : addrMax m ≠ 500) {w : ℕ} (hw : t < w) :
    (regs (powerUp m a d) inp w).done = false := by
  obtain ⟨c, hat, ⟨-, hno⟩ | ⟨rfl, -⟩⟩ :=
    ready_first (a := a) (d := d) (m := m) (x := fun _ => 0) fun u hu => (hun u hu).1
  · exact absurd hun hno
  have hlt : addrMax m < 500 := lt_of_le_of_ne (addrMax_le m) hmax
  have hstart := hat.start (bounded_regs hm hreg.sel t).mode hm (hreg.no_reset t t ht le_rfl) ht
  refine And.left <| hold (P := fun u =>
    (regs (powerUp m a d) inp u).done = false ∧
      (regs (powerUp m a d) inp u).addr_max = addrMax m ∧
      500 ≤ (regs (powerUp m a d) inp u).addr_cnt ∧
      ((regs (powerUp m a d) inp u).present_state = .WRITE_TO_RAM ∨
        (regs (powerUp m a d) inp u).present_state = .ACCUMULATE))
    (Nat.succ_le_of_lt hw) ?_ ?_
  · rintro u hu - ⟨hdone, hmax', hcnt, hs | hs⟩
    all_goals
      have hr := hreg.no_reset t u ht (by omega)
      rw [regs_succ, step]
    · by_cases hwrap : (regs (powerUp m a d) inp u).ram_cnt =
          (regs (powerUp m a d) inp u).addr_max
      · rw [storage_wrap hr hs hwrap]
        exact ⟨hdone, hmax', hcnt, .inr rfl⟩
      · rw [storage_store hr hs hwrap]
        exact ⟨hdone, hmax', hcnt, .inr rfl⟩
    · rw [storage_add hr hs (by omega)]
      exact ⟨hdone, hmax', by dsimp only; omega, .inr hs⟩
  · exact ⟨hstart.done nofun, hstart.addr_max nofun, hstart.addr_cnt.ge, .inl hstart.state⟩

theorem windowSum_first (x : ℕ → ℤ) {A : ℕ} (hA : 0 < A) : windowSum x A 0 = x 0 := by
  obtain ⟨A, rfl⟩ := Nat.exists_eq_add_of_lt hA
  rw [windowSum, Nat.zero_add, Finset.sum_range_succ', ago_zero, Finset.sum_eq_zero, zero_add]
  intro k _
  exact ago_of_lt k.succ_pos

/-- When a start puts out its window. -/
theorem window_at_iff (hm : m ≠ 0) (hreg : Regular m inp)
    (hfirst : ∀ t, (inp t).start = true → Untouched inp t → addrMax m = 500)
    (ht : (inp t).start = true) :
    Produces (powerUp m a d) inp t
        (windowSum (sample inp) (addrMax m) (startsBefore inp t)) ↔
      (Untouched inp t → (inp t).data_in.toInt = 0) ∧
        ago (sample inp) (startsBefore inp t) (addrMax m) =
          ago (sample inp) (startsBefore inp t) ((startsBefore inp t + 1) % (addrMax m + 1)) := by
  obtain ⟨c, hc, hiff⟩ := produces_iff (a := a) (d := d) hm hreg hfirst ht
  rw [hiff]
  rcases hc with ⟨rfl, hun⟩ | ⟨rfl, hun⟩
  · rw [Nat.Ico_zero_eq_range, sum_slots_eq_iff]
    exact ⟨fun h => ⟨fun h' => absurd h' hun, h⟩, And.right⟩
  · have hmax := hfirst t ht hun
    have hzero := startsBefore_none fun u hu => (hun u hu).1
    have hsample := sample_at ht
    rw [hzero] at hsample
    rw [hmax, hzero, Finset.Ico_self, Finset.sum_empty, windowSum_first _ (by omega), hsample,
      ago_of_lt (by omega), ago_of_lt (by norm_num)]
    exact ⟨fun h => ⟨fun _ => h.symm, rfl⟩, fun h => (h.1 hun).symm⟩

/-- In a mode that adds up samples, every start puts out its window, without overflow, if and only
if the first one is not spoilt by the initial value of `addr_cnt` and no sample is missed. -/
theorem windowed_iff (hm : m ≠ 0) (hreg : Regular m inp) :
    Windowed m (powerUp m a d) inp ↔ FirstOk m inp ∧ SkipsEqual m inp := by
  constructor
  · rintro ⟨hall, -⟩
    have hfirst : ∀ t, (inp t).start = true → Untouched inp t → addrMax m = 500 := by
      intro t ht hun
      by_contra hne
      obtain ⟨u, htu, -, hdone, -⟩ := hall t ht
      rw [stuck hm hreg ht hun hne htu] at hdone
      exact Bool.false_ne_true hdone
    have hwin := fun t ht => (window_at_iff hm hreg hfirst ht).mp (hall t ht)
    exact ⟨fun t ht hun => ⟨hfirst t ht hun, (hwin t ht).1 hun⟩, fun t ht => (hwin t ht).2⟩
  · rintro ⟨hok, hskip⟩
    refine ⟨fun t ht => ?_, addsUp hm hreg.sel⟩
    rw [window_at_iff hm hreg (fun t ht hun => (hok t ht hun).1) ht]
    exact ⟨fun hun => (hok t ht hun).2, hskip t ht⟩

/-! ## Regular starts -/

/-- A reset, then a start every 510 clocks in the mode of 10 samples, with the samples `f`. -/
def every510 (f : ℕ → BitVec 20) (t : ℕ) : In where
  reset := t = 0
  start := t % 510 = 509
  data_in := f ((t + 1) / 510)
  sel := 3

end Run

variable {f : ℕ → BitVec 20}

theorem every510_start {t : ℕ} : (every510 f t).start = true ↔ t % 510 = 509 := decide_eq_true_iff

theorem every510_regular (f : ℕ → BitVec 20) : Regular 3 (every510 f) where
  sel := fun _ => rfl
  apart := by
    intro t t' htt' ht ht'
    rw [every510_start] at ht ht'
    omega
  held := by
    intro t u ht htu hnone
    rw [every510_start] at ht
    -- a change of the sample would be a start
    suffices h : (u + 1) / 510 = (t + 1) / 510 by
      simp only [every510, h]
    by_contra hne
    have hstart : (every510 f (t + 510)).start = true := every510_start.mpr (by omega)
    rw [hnone (t + 510) (by omega) (by omega)] at hstart
    exact Bool.false_ne_true hstart
  no_reset := by
    intro t u ht htu
    rw [every510_start] at ht
    exact decide_eq_false (by omega)

theorem every510_touched {t : ℕ} (ht : (every510 f t).start = true) :
    ¬ Untouched (every510 f) t := by
  intro hun
  rw [every510_start] at ht
  exact Bool.noConfusion (hun 0 (by omega)).2

theorem startsBefore_every510 (t : ℕ) : startsBefore (every510 f) t = t / 510 := by
  induction t with
  | zero => rfl
  | succ t ih =>
    rw [startsBefore_succ, ih]
    simp only [every510_start]
    split <;> omega

theorem sample_every510 (n : ℕ) : sample (every510 f) n = (f (n + 1)).toInt := by
  have hstart : (every510 f (510 * n + 509)).start = true := every510_start.mpr (by omega)
  have h := sample_at hstart
  rw [startsBefore_every510, show (510 * n + 509) / 510 = n by omega] at h
  rw [h]
  simp only [every510, show (510 * n + 509 + 1) / 510 = n + 1 by omega]

/-- Samples that are all equal stay in the window. -/
theorem constant_windowed : Windowed 3 (powerUp 3 0 false) (every510 fun _ => 1) := by
  rw [windowed_iff (by decide) (every510_regular _)]
  refine ⟨fun t ht hun => absurd hun (every510_touched ht), ?_⟩
  intro t _
  generalize startsBefore (every510 fun _ => 1) t = n
  simp only [ago, sample_every510, show addrMax 3 = 10 from rfl]
  split_ifs <;> omega

/-- Ten samples of 0, then one of 1. -/
def eleventh (j : ℕ) : BitVec 20 := if j = 11 then 1 else 0

/-- The eleventh sample is not stored. -/
theorem eleventh_not_windowed :
    Regular 3 (every510 eleventh) ∧ ¬ Windowed 3 (powerUp 3 0 false) (every510 eleventh) := by
  refine ⟨every510_regular _, ?_⟩
  rintro ⟨hall, -⟩
  have hstart : (every510 eleventh 5609).start = true := every510_start.mpr (by norm_num)
  have h := ((window_at_iff (by decide) (every510_regular _)
    (fun t ht hun => absurd hun (every510_touched ht)) hstart).mp (hall 5609 hstart)).2
  rw [startsBefore_every510] at h
  simp only [ago, sample_every510, show addrMax 3 = 10 from rfl] at h
  exact absurd h (by decide)

end Zpsc.Average
