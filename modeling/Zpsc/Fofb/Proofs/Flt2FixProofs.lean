import Zpsc.Fofb.Flt2Fix
import Zpsc.Fofb.Proofs.UdpRxProofs

/-!
# The hand-over of FOFB setpoints

`Live` says what the registers of one `fofb_flt2fix` hold `n` edges of `fofb_clk` after a packet:
the product and its integer are in one place of the two cores, and from edge 15 on the new toggle
value has reached the first `k` of the five registers that follow it. Every edge of `pl_clk0` moves
it on (`Live.plEdge`), so after five of them the setpoint is there, and the next packet finds the
registers at rest.
-/

namespace Zpsc.Flt2Fix

open Clocked

/-- The code that a product becomes: the low 20 bits of the 24-bit integer. -/
def code (co : Cores) (x : ℚ) : BitVec 20 := (toFix co x).extractLsb' 0 20

/-- The registers behind the toggle, in order. -/
def chain (s : Regs) : ℕ → Bool
  | 0 => s.toggle_seen
  | 1 => s.data_toggle_meta
  | 2 => s.data_toggle_sync1
  | 3 => s.data_toggle_sync2
  | _ => s.data_toggle_prev

/-- `n` edges of `fofb_clk` after a packet with the product `x`; `k` registers behind the toggle
have its value. The output goes from `old` to `new`. -/
structure Live (co : Cores) (x : ℚ) (old new : BitVec 20) (n k : ℕ) (s : Regs) : Prop where
  mult : s.mult.Only multLatency n x
  fix : s.fix.Only fixLatency (n - 8) (toFix co x)
  chain : ∀ j < 5, chain s j = (s.fofb_data_toggle ^^ !decide (j < k))
  k_le : k ≤ 5
  pos : 0 < n
  target : n < 15 → new = code co x
  before : n < 15 → k = 5 ∧ s.fofb_setpt = old
  moving : 15 ≤ n → k < 5 → s.setpt = new ∧ s.fofb_setpt = old
  done : 15 ≤ n → k = 5 → s.fofb_setpt = new

variable {co : Cores} {x : ℚ} {old new : BitVec 20} {n k : ℕ} {s : Regs}

/-- Registers at rest are as long after a packet. -/
theorem Quiet.live (h : Quiet s) : Live co x s.fofb_setpt s.fofb_setpt 40 5 s where
  mult := by
    intro j hj
    rw [h.mult, if_neg (by simp only [multLatency] at hj; omega)]
    rfl
  fix := by
    intro j hj
    rw [h.fix, if_neg (by simp only [fixLatency] at hj; omega)]
    rfl
  chain := by
    intro j hj
    have hlt : decide (j < 5) = true := decide_eq_true hj
    rw [hlt]
    match j with
    | 0 => simp [Flt2Fix.chain, h.seen]
    | 1 => simp [Flt2Fix.chain, h.meta_]
    | 2 => simp [Flt2Fix.chain, h.sync1]
    | 3 => simp [Flt2Fix.chain, h.sync2]
    | j + 4 => simp [Flt2Fix.chain, h.prev]
  k_le := le_rfl
  pos := by decide
  target := fun h => absurd h (by decide)
  before := fun h => absurd h (by decide)
  moving := fun _ h => absurd h (by decide)
  done := fun _ _ => rfl

/-- A packet that arrives when the last one is through. -/
theorem Live.packet (h : Live co x old new n k s) (hn : 40 ≤ n) (hk : k = 5) (v f : BitVec 32) :
    Live co (co.val f * co.val v) new (code co (co.val f * co.val v)) 1 5
      (fofbEdge co s true v f) := by
  have hout : s.fix.out fixLatency = none := by
    rw [h.fix.out_eq (by decide), if_neg (by simp only [fixLatency]; omega)]
  have hmul : s.mult.out multLatency = none := by
    rw [h.mult.out_eq (by decide), if_neg (by simp only [multLatency]; omega)]
  have hs : fofbEdge co s true v f =
      { s with
        mult := s.mult.push (some (co.val f * co.val v))
        fix := s.fix.push none } := by
    simp only [fofbEdge, hout, hmul]
    rfl
  rw [hs]
  exact {
    mult := h.mult.push_some (Or.inr (by simp only [multLatency]; omega)) _
    fix := by
      intro j hj
      have hfix := h.fix.push_none (by omega) j hj
      rw [if_neg (by simp only [fixLatency] at hj; omega)] at hfix
      rw [if_neg (by omega)]
      exact hfix
    chain := by
      rw [hk] at h
      exact h.chain
    k_le := le_rfl
    pos := by decide
    target := fun _ => rfl
    before := fun _ => ⟨rfl, h.done (by omega) hk⟩
    moving := fun hc => absurd hc (by decide)
    done := fun hc => absurd hc (by decide) }

/-- An edge of `fofb_clk` without a packet. The toggle flips at the 15th. -/
theorem Live.fofbEdge (h : Live co x old new n k s) (v f : BitVec 32) :
    Live co x old new (n + 1) (if n = 14 then 0 else k) (fofbEdge co s false v f) := by
  have hpos := h.pos
  have hout : s.fix.out fixLatency = if n = 14 then some (toFix co x) else none := by
    rw [h.fix.out_eq (by decide)]
    simp only [fixLatency, show n - 8 = 6 ↔ n = 14 by omega]
  have hmul : s.mult.out multLatency = if n = 8 then some x else none := h.mult.out_eq (by decide)
  have hmult : (s.mult.push none).Only multLatency (n + 1) x := h.mult.push_none (by omega)
  have hfix : (s.fix.push ((s.mult.out multLatency).map (toFix co))).Only fixLatency (n + 1 - 8)
      (toFix co x) := by
    rw [hmul]
    rcases Nat.lt_trichotomy n 8 with hlt | rfl | hgt
    · have hf := h.fix
      rw [show n - 8 = 0 by omega] at hf
      rw [if_neg (by omega), show n + 1 - 8 = 0 by omega]
      exact hf.push_none_zero
    · exact h.fix.push_some (Or.inl rfl) _
    · rw [if_neg (by omega), show n + 1 - 8 = n - 8 + 1 by omega]
      exact h.fix.push_none (by omega)
  by_cases h14 : n = 14
  · have hs : Flt2Fix.fofbEdge co s false v f =
        { s with
          mult := s.mult.push none
          fix := s.fix.push ((s.mult.out multLatency).map (toFix co))
          setpt := code co x
          fofb_data_toggle := !s.fofb_data_toggle } := by
      simp only [Flt2Fix.fofbEdge, hout, if_pos h14]
      rfl
    obtain ⟨hk, hold⟩ := h.before (by omega)
    rw [hs, if_pos h14]
    exact {
      mult := hmult
      fix := hfix
      chain := by
        intro j hj
        have hc := h.chain j hj
        rw [hk, decide_eq_true hj] at hc
        show Flt2Fix.chain s j = _
        rw [hc]
        simp
      k_le := by decide
      pos := by omega
      target := fun hc => by omega
      before := fun hc => by omega
      moving := fun _ _ => ⟨(h.target (by omega)).symm, hold⟩
      done := fun _ hc => absurd hc (by decide) }
  · have hs : Flt2Fix.fofbEdge co s false v f =
        { s with
          mult := s.mult.push none
          fix := s.fix.push ((s.mult.out multLatency).map (toFix co)) } := by
      simp only [Flt2Fix.fofbEdge, hout, if_neg h14]
      rfl
    rw [hs, if_neg h14]
    exact {
      mult := hmult
      fix := hfix
      chain := h.chain
      k_le := h.k_le
      pos := by omega
      target := fun hc => h.target (by omega)
      before := fun hc => h.before (by omega)
      moving := fun hc => h.moving (by omega)
      done := fun hc => h.done (by omega) }

/-- The number of registers with the toggle's value after an edge of `pl_clk0`. -/
def advance (k : ℕ) (sampled : Bool) : ℕ :=
  if k = 0 then (if sampled then 2 else 1) else min 5 (k + 1)

theorem chain_plEdge {j : ℕ} (hj : j < 3) (sampled : Bool) :
    chain (plEdge s sampled) (j + 2) = chain s (j + 1) := by
  match j, hj with
  | 0, _ => rfl
  | 1, _ => rfl
  | 2, _ => rfl

theorem Live.plEdge (h : Live co x old new n k s) (sampled : Bool) :
    Live co x old new n (advance k sampled) (plEdge s sampled) := by
  have hk := h.k_le
  have hprev : s.data_toggle_prev = (s.fofb_data_toggle ^^ !decide (4 < k)) := h.chain 4 (by decide)
  have hsync2 : s.data_toggle_sync2 = (s.fofb_data_toggle ^^ !decide (3 < k)) :=
    h.chain 3 (by decide)
  -- the output changes when the value reaches the last register
  have hupd : s.data_toggle_sync2 ≠ s.data_toggle_prev ↔ k = 4 := by
    rw [hprev, hsync2]
    rcases s.fofb_data_toggle <;> simp <;> omega
  have hadv : advance k sampled = 5 ↔ 4 ≤ k := by
    rw [advance]
    split <;> [split; skip] <;> omega
  exact {
    mult := h.mult
    fix := h.fix
    chain := by
      intro j hj
      match j with
      | 0 =>
        have hpos : 0 < advance k sampled := by rw [advance]; split <;> [split; skip] <;> omega
        show s.fofb_data_toggle = _
        simp [Flt2Fix.plEdge, hpos]
      | 1 =>
        have hseen : s.toggle_seen = (s.fofb_data_toggle ^^ !decide (0 < k)) :=
          h.chain 0 (by decide)
        show (if sampled then s.fofb_data_toggle else s.toggle_seen) = _
        rw [hseen]
        by_cases h0 : k = 0
        · cases sampled <;> simp [Flt2Fix.plEdge, advance, h0]
        · have hpos : 0 < k := by omega
          have hadv1 : 1 < advance k sampled := by rw [advance, if_neg h0]; omega
          simp [Flt2Fix.plEdge, hpos, hadv1]
      | j + 2 =>
        have hiff : j + 1 < k ↔ j + 2 < advance k sampled := by
          rw [advance]
          split <;> [split; skip] <;> omega
        rw [chain_plEdge (by omega), h.chain (j + 1) (by omega)]
        simp only [hiff]
        rfl
    k_le := by rw [advance]; split <;> [split; skip] <;> omega
    pos := h.pos
    target := h.target
    before := by
      intro hn
      obtain ⟨hk5, hold⟩ := h.before hn
      refine ⟨hadv.mpr (by omega), ?_⟩
      show (if _ then _ else _) = old
      rw [if_neg (by rw [hupd]; omega)]
      exact hold
    moving := by
      intro hn hlt
      have hk4 : k < 4 := by
        by_contra hge
        have := hadv.mpr (not_lt.mp hge)
        omega
      obtain ⟨hset, hold⟩ := h.moving hn (by omega)
      refine ⟨hset, ?_⟩
      show (if _ then _ else _) = old
      rw [if_neg (by rw [hupd]; omega)]
      exact hold
    done := by
      intro hn h5
      have hk4 := hadv.mp h5
      show (if _ then _ else _) = new
      by_cases h4 : k = 4
      · rw [if_pos (hupd.mpr h4)]
        exact (h.moving hn (by omega)).1
      · rw [if_neg (by rw [hupd]; omega)]
        exact h.done hn (by omega) }

end Zpsc.Flt2Fix

namespace Zpsc.FofbTop

open Clocked Flt2Fix

/-- The code of a product is the limited integer exactly when it fits. -/
theorem toInt_code_eq_iff (co : Cores) (x : ℚ) :
    (code co x).toInt = max (-2 ^ 19) (min (co.round x) (2 ^ 19 - 1)) ↔ Fits (co.round x) := by
  have hcode : (code co x).toInt =
      (max (-2 ^ 23) (min (co.round x) (2 ^ 23 - 1))).bmod (2 ^ 20) := by
    rw [code, toFix, BitVec.toInt_extractLsb', BitVec.toNat_ofInt, Nat.shiftRight_zero]
    generalize max (-2 ^ 23) (min (co.round x) (2 ^ 23 - 1)) = w
    simp only [Int.bmod_def]
    omega
  rw [hcode, Fits, Int.bmod_def]
  generalize co.round x = v
  omega

/-! ## Counting edges -/

section Runs

variable {co : Cores} {s : FofbTop} {ev : ℕ → Edge} {c : Chan} {a t : ℕ}

theorem fofbEdges_succ (h : a ≤ t) :
    fofbEdges ev a (t + 1) = fofbEdges ev a t + if (ev t).isFofb = true then 1 else 0 := by
  have := Nat.count_monotone (fun b => (ev b).isFofb = true) h
  simp only [fofbEdges, Nat.count_succ] at this ⊢
  omega

theorem plEdges_succ (h : a ≤ t) :
    plEdges ev a (t + 1) = plEdges ev a t + if (ev t).isFofb = false then 1 else 0 := by
  have := Nat.count_monotone (fun b => (ev b).isFofb = false) h
  simp only [plEdges, Nat.count_succ] at this ⊢
  omega

theorem fofbEdges_self (a : ℕ) : fofbEdges ev a a = 0 := Nat.sub_self _

theorem plEdges_self (a : ℕ) : plEdges ev a a = 0 := Nat.sub_self _

theorem fofbEdges_mono (ev : ℕ → Edge) (a : ℕ) {u : ℕ} (h : u ≤ t) :
    fofbEdges ev a u ≤ fofbEdges ev a t := by
  have := Nat.count_monotone (fun b => (ev b).isFofb = true) h
  simp only [fofbEdges] at this ⊢
  omega

/-! ## The runs -/

def regs (co : Cores) (s : FofbTop) (ev : ℕ → Edge) (c : Chan) (t : ℕ) : Regs :=
  (trace (step co) s ev t).flt2fix c

theorem regs_fofb (co : Cores) (s : FofbTop) (h : (ev t).isFofb = true) :
    regs co s ev c (t + 1) =
      Flt2Fix.fofbEdge co (regs co s ev c t) (trace (step co) s ev t).rx.rx_done
        ((trace (step co) s ev t).rx.fofb_stat.setpt_flt c) ((ev t).scale c) := by
  rw [regs, trace_succ]
  cases hev : ev t with
  | fofb_clk i => rfl
  | pl_clk0 m => rw [hev] at h; cases h

theorem regs_pl (co : Cores) (s : FofbTop) (h : (ev t).isFofb = false) :
    ∃ sampled, regs co s ev c (t + 1) = Flt2Fix.plEdge (regs co s ev c t) sampled := by
  rw [regs, trace_succ]
  cases hev : ev t with
  | fofb_clk i => rw [hev] at h; cases h
  | pl_clk0 m => exact ⟨m c, rfl⟩

/-- The invariant of a run: no packet yet, or on the way from the packet before the newest to the
newest, with a register for every edge of `pl_clk0` after the toggle. -/
def Inv (co : Cores) (s : FofbTop) (ev : ℕ → Edge) (c : Chan) (t : ℕ) : Prop :=
  ((∀ b < t, ¬ Packet co s ev b) ∧ ∃ x n, 40 ≤ n ∧
    Live co x (setptOut co s ev c 0) (setptOut co s ev c 0) n 5 (regs co s ev c t)) ∨
  ∃ a k, Newest co s ev a t ∧
    Live co (scaled co s ev c a) (setptOut co s ev c a) (code co (scaled co s ev c a))
      (fofbEdges ev a t) k (regs co s ev c t) ∧
    ∀ u ≤ t, 15 ≤ fofbEdges ev a u → min 5 (plEdges ev u t) ≤ k

theorem Newest.unique {b : ℕ} (ha : Newest co s ev a t) (hb : Newest co s ev b t) : a = b := by
  by_contra hne
  rcases Nat.lt_or_gt_of_ne hne with hlt | hlt
  · exact ha.2.2 b hlt hb.2.1 hb.1
  · exact hb.2.2 a hlt ha.2.1 ha.1

theorem newest_succ (h : Newest co s ev a t) (hno : ¬ Packet co s ev t) :
    Newest co s ev a (t + 1) := by
  refine ⟨h.1, Nat.lt_succ_of_lt h.2.1, ?_⟩
  intro b hab hbt
  rcases Nat.lt_succ_iff_lt_or_eq.mp hbt with hlt | rfl
  · exact h.2.2 b hab hlt
  · exact hno

theorem advance_ge (k : ℕ) (sampled : Bool) : min 5 (k + 1) ≤ advance k sampled := by
  rw [advance]
  split <;> [split; skip] <;> omega

theorem through (hun : Unbunched co s ev) (hnew : Newest co s ev a t) (hup : TimeUp ev a t) {k : ℕ}
    {x : ℚ} {old new : BitVec 20}
    (hlive : Live co x old new (fofbEdges ev a t) k (regs co s ev c t))
    (hk : ∀ u ≤ t, 15 ≤ fofbEdges ev a u → min 5 (plEdges ev u t) ≤ k) :
    k = 5 ∧ setptOut co s ev c t = new := by
  obtain ⟨u, hut, hfu, hpu⟩ := hun a t hnew hup
  have hk5 : k = 5 := by
    have := hk u hut hfu
    have := hlive.k_le
    omega
  have := hup.1
  exact ⟨hk5, hlive.done (by omega) hk5⟩

theorem inv_zero (hq : ∀ c, Quiet (s.flt2fix c)) : Inv co s ev c 0 :=
  Or.inl ⟨fun b hb => absurd hb (Nat.not_lt_zero b), 0, 40, le_rfl, (hq c).live⟩

theorem inv_packet (hsp : Spaced co s ev) (hun : Unbunched co s ev) (h : Inv co s ev c t)
    (hp : Packet co s ev t) : Inv co s ev c (t + 1) := by
  have hstep := regs_fofb (c := c) co s hp.1
  rw [hp.2] at hstep
  have hlive : ∃ x old n, 40 ≤ n ∧ Live co x old (setptOut co s ev c t) n 5 (regs co s ev c t) := by
    rcases h with ⟨-, x, n, hn, hlive⟩ | ⟨a, k, hnew, hlive, hk⟩
    · have hout : setptOut co s ev c t = setptOut co s ev c 0 := hlive.done (by omega) rfl
      rw [hout]
      exact ⟨x, _, n, hn, hlive⟩
    · have hup := hsp a t hnew hp
      obtain ⟨rfl, hout⟩ := through hun hnew hup hlive hk
      rw [hout]
      exact ⟨_, _, _, hup.1, hlive⟩
  obtain ⟨x, old, n, hn, hlive⟩ := hlive
  refine Or.inr ⟨t, 5, ⟨hp, Nat.lt_succ_self t, fun b h1 h2 => absurd h2 (by omega)⟩, ?_, ?_⟩
  · rw [hstep, fofbEdges_succ le_rfl, fofbEdges_self, if_pos hp.1]
    exact hlive.packet hn rfl _ _
  · intro u hu hfu
    have := fofbEdges_mono ev t hu
    rw [fofbEdges_succ le_rfl, fofbEdges_self, if_pos hp.1] at this
    omega

theorem inv_fofb (h : Inv co s ev c t) (hf : (ev t).isFofb = true) (hno : ¬ Packet co s ev t) :
    Inv co s ev c (t + 1) := by
  have hstep := regs_fofb (c := c) co s hf
  have hdone : (trace (step co) s ev t).rx.rx_done = false :=
    Bool.eq_false_iff.mpr fun hd => hno ⟨hf, hd⟩
  rw [hdone] at hstep
  rcases h with ⟨hnone, x, n, hn, hlive⟩ | ⟨a, k, hnew, hlive, hk⟩
  · refine Or.inl ⟨?_, x, n + 1, by omega, ?_⟩
    · intro b hb
      rcases Nat.lt_succ_iff_lt_or_eq.mp hb with hlt | rfl
      · exact hnone b hlt
      · exact hno
    · have := hlive.fofbEdge ((trace (step co) s ev t).rx.fofb_stat.setpt_flt c) ((ev t).scale c)
      rw [if_neg (by omega)] at this
      rw [hstep]
      exact this
  · have hat := hnew.2.1.le
    refine Or.inr ⟨a, if fofbEdges ev a t = 14 then 0 else k, newest_succ hnew hno, ?_, ?_⟩
    · rw [hstep, fofbEdges_succ hat, if_pos hf]
      exact hlive.fofbEdge _ _
    · intro u hu hfu
      rcases Nat.lt_succ_iff_lt_or_eq.mp (Nat.lt_succ_of_le hu) with hlt | rfl
      · have hle : u ≤ t := by omega
        have := fofbEdges_mono ev a hle
        rw [if_neg (by omega), plEdges_succ hle, if_neg (by rw [hf]; decide)]
        exact hk u hle hfu
      · rw [plEdges_self]
        omega

theorem inv_pl (h : Inv co s ev c t) (hf : (ev t).isFofb = false) : Inv co s ev c (t + 1) := by
  obtain ⟨sampled, hstep⟩ := regs_pl (c := c) co s hf
  have hno : ¬ Packet co s ev t := by
    intro hp
    rw [hp.1] at hf
    cases hf
  rcases h with ⟨hnone, x, n, hn, hlive⟩ | ⟨a, k, hnew, hlive, hk⟩
  · refine Or.inl ⟨?_, x, n, hn, ?_⟩
    · intro b hb
      rcases Nat.lt_succ_iff_lt_or_eq.mp hb with hlt | rfl
      · exact hnone b hlt
      · exact hno
    · rw [hstep]
      exact hlive.plEdge sampled
  · have hat := hnew.2.1.le
    refine Or.inr ⟨a, advance k sampled, newest_succ hnew hno, ?_, ?_⟩
    · rw [hstep, fofbEdges_succ hat, if_neg (by rw [hf]; decide)]
      exact hlive.plEdge sampled
    · intro u hu hfu
      rcases Nat.lt_succ_iff_lt_or_eq.mp (Nat.lt_succ_of_le hu) with hlt | rfl
      · have hle : u ≤ t := by omega
        have h1 := hk u hle hfu
        have h2 := advance_ge k sampled
        rw [plEdges_succ hle, if_pos hf]
        omega
      · rw [plEdges_self]
        omega

theorem inv (hq : ∀ c, Quiet (s.flt2fix c)) (hsp : Spaced co s ev) (hun : Unbunched co s ev)
    (t : ℕ) : Inv co s ev c t := by
  induction t with
  | zero => exact inv_zero hq
  | succ t ih =>
    by_cases hp : Packet co s ev t
    · exact inv_packet hsp hun ih hp
    · by_cases hf : (ev t).isFofb = true
      · exact inv_fofb ih hf hp
      · exact inv_pl ih (Bool.eq_false_iff.mpr hf)

theorem setptOut_of_timeUp (hq : ∀ c, Quiet (s.flt2fix c)) (hsp : Spaced co s ev)
    (hun : Unbunched co s ev) (hnew : Newest co s ev a t) (hup : TimeUp ev a t) :
    setptOut co s ev c t = code co (scaled co s ev c a) := by
  rcases inv (c := c) hq hsp hun t with ⟨hnone, -⟩ | ⟨b, k, hnew', hlive, hk⟩
  · exact absurd hnew.1 (hnone a hnew.2.1)
  · obtain rfl := hnew.unique hnew'
    exact (through hun hnew hup hlive hk).2

/-- A packet comes when the output is that of the packet before it. -/
theorem older_of_packet (hq : ∀ c, Quiet (s.flt2fix c)) (hsp : Spaced co s ev)
    (hun : Unbunched co s ev)
    (hfit : ∀ a, Packet co s ev a → Fits (co.round (scaled co s ev c a)))
    (ha : Packet co s ev a) : Older co s ev c a (setptOut co s ev c a) := by
  rcases inv (c := c) hq hsp hun a with ⟨hnone, x, n, hn, hlive⟩ | ⟨b, k, hnew, hlive, hk⟩
  · exact Or.inr ⟨hnone, hlive.done (by omega) rfl⟩
  · refine Or.inl ⟨b, hnew, ?_⟩
    rw [setptOut_of_timeUp hq hsp hun hnew (hsp b a hnew ha)]
    exact (toInt_code_eq_iff co _).mpr (hfit b hnew.1)

/-- FOFB setpoints are handed over in every run in which every setpoint fits and the edges of
`pl_clk0` leave time for the hand-over. -/
theorem handsOver_of_fits (hq : ∀ c, Quiet (s.flt2fix c)) (hsp : Spaced co s ev)
    (hun : Unbunched co s ev)
    (hfit : ∀ a, Packet co s ev a → Fits (co.round (scaled co s ev c a))) :
    HandsOver co s ev c := by
  have hcode : ∀ a, Packet co s ev a →
      (code co (scaled co s ev c a)).toInt = wanted co s ev c a := fun a ha =>
    (toInt_code_eq_iff co _).mpr (hfit a ha)
  constructor
  · intro t hnone
    rcases inv (c := c) hq hsp hun t with ⟨-, x, n, hn, hlive⟩ | ⟨a, k, hnew, -⟩
    · exact hlive.done (by omega) rfl
    · exact absurd hnew.1 (hnone a hnew.2.1)
  · intro a t hnew
    rcases inv (c := c) hq hsp hun t with ⟨hnone, -⟩ | ⟨b, k, hnew', hlive, -⟩
    · exact absurd hnew.1 (hnone a hnew.2.1)
    · obtain rfl := hnew.unique hnew'
      have hold := older_of_packet (c := c) hq hsp hun hfit hnew.1
      by_cases hn : fofbEdges ev a t < 15
      · right
        have hout : setptOut co s ev c t = setptOut co s ev c a := (hlive.before hn).2
        rw [hout]
        exact hold
      · by_cases hk : k = 5
        · left
          have hout : setptOut co s ev c t = code co (scaled co s ev c a) :=
            hlive.done (not_lt.mp hn) hk
          rw [hout]
          exact hcode a hnew.1
        · right
          have hle := hlive.k_le
          have hout : setptOut co s ev c t = setptOut co s ev c a :=
            (hlive.moving (not_lt.mp hn) (by omega)).2
          rw [hout]
          exact hold
  · intro a t hnew hup
    rw [setptOut_of_timeUp hq hsp hun hnew hup]
    exact hcode a hnew.1

end Runs

/-! ## One packet -/

/-- The number of a single-precision word, denormals taken as zero. -/
def single (w : BitVec 32) : ℚ :=
  let e := (w.extractLsb' 23 8).toNat
  let m : ℚ := 2 ^ 23 + (w.extractLsb' 0 23).toNat
  let x := if 150 ≤ e then m * 2 ^ (e - 150) else m / 2 ^ (150 - e)
  if e = 0 then 0 else if w.getLsbD 31 then -x else x

def singleCores : Cores := ⟨single, CConv.llround, CConv.abs_llround_sub_le⟩

/-- A packet with the setpoint `v` for all channels has just been accepted. -/
def delivered (v : BitVec 32) : FofbTop where
  rx :=
    { UdpRx.restRx with
      rx_dv_prev := true, framebytenum := 54, rx_done := true, fofb_stat := ⟨1, 0, 0, fun _ => v⟩ }
  flt2fix := fun _ => ⟨.empty, .empty, 0, false, false, false, false, false, false, 0⟩

/-- No data, and the edges of the two clocks in turn. -/
def inTurn (t : ℕ) : Edge :=
  if t % 2 = 0 then .fofb_clk (UdpRx.byteIn UdpRx.simParams false 0) else .pl_clk0 fun _ => true

variable {v : BitVec 32}

theorem isFofb_inTurn (t : ℕ) : (inTurn t).isFofb = decide (t % 2 = 0) := by
  rw [inTurn]
  split <;> rename_i h <;> simp [Edge.isFofb, h]

theorem count_inTurn (t : ℕ) :
    Nat.count (fun b => (inTurn b).isFofb = true) t = (t + 1) / 2 ∧
      Nat.count (fun b => (inTurn b).isFofb = false) t = t / 2 := by
  induction t with
  | zero => simp
  | succ t ih =>
    rw [Nat.count_succ, Nat.count_succ, ih.1, ih.2, isFofb_inTurn]
    by_cases h : t % 2 = 0
    · simp only [h]
      simp
      omega
    · simp only [h]
      simp
      omega

theorem rx_inTurn (t : ℕ) :
    (trace (step singleCores) (delivered v) inTurn t).rx.state = .IDLE ∧
      (0 < t → (trace (step singleCores) (delivered v) inTurn t).rx.rx_done = false) := by
  induction t with
  | zero => exact ⟨rfl, fun h => absurd h (by decide)⟩
  | succ t ih =>
    rw [trace_succ]
    by_cases h : t % 2 = 0
    · simp [inTurn, h, step, UdpRx.step, UdpRx.byteIn, ih.1]
    · have hpos : 0 < t := by omega
      simp only [inTurn, if_neg h, step]
      exact ⟨ih.1, fun _ => ih.2 hpos⟩

theorem packet_inTurn {a : ℕ} : Packet singleCores (delivered v) inTurn a ↔ a = 0 := by
  constructor
  · intro hp
    by_contra hne
    have := (rx_inTurn (v := v) a).2 (by omega)
    rw [hp.2] at this
    cases this
  · rintro rfl
    exact ⟨rfl, rfl⟩

theorem newest_inTurn {a t : ℕ} (h : Newest singleCores (delivered v) inTurn a t) :
    a = 0 ∧ 0 < t := by
  obtain rfl := packet_inTurn.mp h.1
  exact ⟨rfl, h.2.1⟩

theorem quiet_delivered (c : Chan) : Quiet ((delivered v).flt2fix c) :=
  ⟨rfl, rfl, rfl, rfl, rfl, rfl, rfl⟩

theorem spaced_inTurn : Spaced singleCores (delivered v) inTurn := by
  intro a t hnew hp
  obtain ⟨-, hpos⟩ := newest_inTurn hnew
  have := packet_inTurn.mp hp
  omega

theorem unbunched_inTurn : Unbunched singleCores (delivered v) inTurn := by
  intro a t hnew hup
  obtain ⟨rfl, -⟩ := newest_inTurn hnew
  obtain ⟨h1, h2⟩ := hup
  simp only [fofbEdges, plEdges, count_inTurn] at h1 h2 ⊢
  exact ⟨29, by omega, by omega, by omega⟩

/-- A setpoint of 100000.0. -/
theorem delivered_handsOver :
    HandsOver singleCores (delivered 0x47C35000) inTurn .ps1 := by
  refine handsOver_of_fits quiet_delivered spaced_inTurn unbunched_inTurn ?_
  intro a ha
  obtain rfl := packet_inTurn.mp ha
  decide +kernel

/-- A setpoint of 600000.0 wraps to a negative code. -/
theorem delivered_not_handsOver :
    (∀ c, Quiet ((delivered 0x49127C00).flt2fix c)) ∧
      Spaced singleCores (delivered 0x49127C00) inTurn ∧
      Unbunched singleCores (delivered 0x49127C00) inTurn ∧
      ¬ HandsOver singleCores (delivered 0x49127C00) inTurn .ps1 := by
  refine ⟨quiet_delivered, spaced_inTurn, unbunched_inTurn, ?_⟩
  intro h
  have hnew : Newest singleCores (delivered 0x49127C00) inTurn 0 80 :=
    ⟨packet_inTurn.mpr rfl, by decide, fun b hb _ hp => absurd (packet_inTurn.mp hp) (by omega)⟩
  have hup : TimeUp inTurn 0 80 := by
    simp [TimeUp, fofbEdges, plEdges, count_inTurn]
  have harr := h.arrived 0 80 hnew hup
  rw [setptOut_of_timeUp quiet_delivered spaced_inTurn unbunched_inTurn hnew hup] at harr
  have hfits := (toInt_code_eq_iff singleCores _).mp harr
  revert hfits
  decide +kernel

end Zpsc.FofbTop
