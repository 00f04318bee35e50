import Zpsc.Manch.Rx32

/-!
# Manchester round trip

The decoder sees the line through the synchroniser: two clocks late, as a list of edges with their
levels (`run_view`). A stretch of constant level is one edge and some quiet clocks; there is one
lemma for each kind of edge (`seg_lock`, `seg_center`, `seg_boundary`) that says what the stretch
after it leaves. The induction is over the bits of the burst, and what it gives out is what a
32-bit shift register makes of them (`shifts`).
-/

namespace Zpsc.Manch

/-! ## Timing constants -/

theorem BIT_CLKS_eq : BIT_CLKS = 2000 := rfl

theorem HALF_CLKS_eq : HALF_CLKS = 1000 := rfl

theorem TOL_CLKS_eq : TOL_CLKS = 350 := rfl

theorem timed_half {d : ℕ} (h : Timed d HALF_CLKS) : 651 ≤ d ∧ d ≤ 1351 := by
  rw [Timed, HALF_CLKS_eq, TOL_CLKS_eq] at h
  omega

theorem timed_full {d : ℕ} (h : Timed d BIT_CLKS) : 1651 ≤ d ∧ d ≤ 2351 := by
  rw [Timed, BIT_CLKS_eq, TOL_CLKS_eq] at h
  omega

theorem near_iff (k c : ℕ) : near k c = true ↔ ((k : Int) - c).natAbs ≤ 350 := by
  rw [near, decide_eq_true_eq, TOL_CLKS_eq]

/-! ## The decoder's view of the line -/

/-- The edges of a line that was at `p` before, with the level after each clock. -/
def edges : Bool → List Bool → List (Bool × Bool)
  | _, [] => []
  | p, x :: xs => (x ^^ p, x) :: edges x xs

/-- One clock of the decoder on an edge and a level. -/
def dstep (d : Decoder) (e : Bool × Bool) : Decoder := decode d e.1 e.2

/-- The words given out by the decoder. -/
def outs (d : Decoder) (es : List (Bool × Bool)) : List (BitVec 32) :=
  (Clocked.states dstep d es).filterMap Decoder.packet?

/-- What the decoder sees during the clocks of a line. -/
def view (s : Rx) (line : List Bool) : List (Bool × Bool) :=
  edges s.rx_last ((s.rx_sync :: s.rx_meta :: line).take line.length)

theorem run_view (s : Rx) (line : List Bool) :
    (run s line).toDecoder = Clocked.run dstep s.toDecoder (view s line) ∧
      emitted s line = outs s.toDecoder (view s line) := by
  induction line generalizing s with
  | nil => exact ⟨rfl, rfl⟩
  | cons x xs ih =>
    obtain ⟨h1, h2⟩ := ih (step s ⟨false, x⟩)
    refine ⟨h1, ?_⟩
    have hview : view s (x :: xs) = (s.rx_sync ^^ s.rx_last, s.rx_sync) ::
        view (step s ⟨false, x⟩) xs := rfl
    have hcons : emitted s (x :: xs) =
        [(step s ⟨false, x⟩).toDecoder].filterMap Decoder.packet? ++
          emitted (step s ⟨false, x⟩) xs := by
      simp only [emitted, onLine, List.map_cons, Clocked.states, List.filterMap_cons,
        List.filterMap_nil]
      cases (step s ⟨false, x⟩).toDecoder.packet? <;> rfl
    rw [hcons, h2, hview]
    simp only [outs, Clocked.states, List.filterMap_cons, List.filterMap_nil]
    have hd : dstep s.toDecoder (s.rx_sync ^^ s.rx_last, s.rx_sync) =
        (step s ⟨false, x⟩).toDecoder := rfl
    rw [hd]
    cases (step s ⟨false, x⟩).toDecoder.packet? <;> rfl

theorem edges_same (x : Bool) (n : ℕ) (r : List Bool) :
    edges x (List.replicate n x ++ r) = List.replicate n (false, x) ++ edges x r := by
  induction n with
  | zero => rfl
  | succ n ih =>
    rw [List.replicate_succ, List.cons_append, edges, Bool.xor_self, ih, List.replicate_succ,
      List.cons_append]

/-- The clocks of a stretch of `n` clocks at level `x`, which begins with an edge. -/
def seg (n : ℕ) (x : Bool) : List (Bool × Bool) := (true, x) :: List.replicate (n - 1) (false, x)

theorem edges_flip (x : Bool) {n : ℕ} (hn : 0 < n) (r : List Bool) :
    edges (!x) (List.replicate n x ++ r) = seg n x ++ edges x r := by
  obtain ⟨m, rfl⟩ : ∃ m, n = m + 1 := ⟨n - 1, by omega⟩
  rw [List.replicate_succ, List.cons_append, edges, edges_same, seg, Nat.add_sub_cancel]
  cases x <;> rfl

/-! ## Runs of the decoder -/

/-- Over the clocks `es` the decoder gives out `ws` and ends in a state with `P`. -/
def Goes (d : Decoder) (es : List (Bool × Bool)) (ws : List (BitVec 32)) (P : Decoder → Prop) :
    Prop :=
  outs d es = ws ∧ P (Clocked.run dstep d es)

theorem Goes.trans {d : Decoder} {es es' : List (Bool × Bool)} {ws ws' : List (BitVec 32)}
    {P Q : Decoder → Prop} (h : Goes d es ws P) (h' : ∀ d', P d' → Goes d' es' ws' Q) :
    Goes d (es ++ es') (ws ++ ws') Q := by
  obtain ⟨h1, h2⟩ := h
  obtain ⟨h3, h4⟩ := h' _ h2
  refine ⟨?_, ?_⟩
  · rw [outs, Clocked.states_append, List.filterMap_append]
    exact congrArg₂ _ h1 h3
  · rw [Clocked.run_append]
    exact h4

theorem Goes.imp {d : Decoder} {es : List (Bool × Bool)} {ws : List (BitVec 32)}
    {P Q : Decoder → Prop} (h : Goes d es ws P) (hpq : ∀ d', P d' → Q d') : Goes d es ws Q :=
  ⟨h.1, hpq _ h.2⟩

theorem goes_nil {d : Decoder} {P : Decoder → Prop} (h : P d) : Goes d [] [] P := ⟨rfl, h⟩

theorem goes_one {d : Decoder} {e : Bool × Bool} {P : Decoder → Prop} (h : P (dstep d e)) :
    Goes d [e] (dstep d e).packet?.toList P := by
  refine ⟨?_, h⟩
  simp only [outs, Clocked.states, List.filterMap_cons, List.filterMap_nil]
  cases (dstep d e).packet? <;> rfl

/-! ## One clock -/

/-- The word that comes out with the next clock. -/
def Decoder.pending (d : Decoder) : Option (BitVec 32) :=
  if d.packet_valid_i then some d.packet_data else none

/-- The decoder is locked, `k` clocks after the last centre, with `c` bits of a word in `sr`. -/
structure Counting (fc : Bool) (k c : ℕ) (sr : BitVec 32) (w : Option (BitVec 32)) (d : Decoder) :
    Prop where
  locked : d.locked = true
  first_center : d.first_center = fc
  ctr : d.ctr = k
  bit_cnt : d.bit_cnt = c
  pkt_sr : d.pkt_sr = sr
  pending : d.pending = w

/-- The decoder is not locked and has nothing in its register. -/
structure Lost (w : Option (BitVec 32)) (d : Decoder) : Prop where
  locked : d.locked = false
  bit_cnt : d.bit_cnt = 0
  pkt_sr : d.pkt_sr = 0
  pending : d.pending = w

variable {fc x : Bool} {k c : ℕ} {sr : BitVec 32} {w : Option (BitVec 32)} {d : Decoder}

theorem quiet_one (h : Counting fc k c sr w d) (hk : k ≤ BIT_CLKS + TOL_CLKS) :
    (dstep d (false, x)).packet? = w ∧ Counting fc (k + 1) c sr none (dstep d (false, x)) := by
  obtain ⟨hl, hf, hc, hb, hs, hp⟩ := h
  rw [BIT_CLKS_eq, TOL_CLKS_eq] at hk
  have h1 : d.ctr < 4000 := by omega
  have h2 : ¬ 2350 < d.ctr := by omega
  have hd : dstep d (false, x) = { d with
      latch_bit := false
      packet_valid_i := false
      packet_valid_d := d.packet_valid_i
      rx_error := false
      ctr := d.ctr + 1 } := by
    simp [dstep, decode, hl, BIT_CLKS_eq, TOL_CLKS_eq, h1, h2]
  rw [hd]
  exact ⟨hp, hl, hf, by rw [← hc], hb, hs, rfl⟩

/-- The lock is lost when no centre comes. -/
theorem quiet_lost (h : Counting fc (BIT_CLKS + TOL_CLKS + 1) c sr w d) :
    (dstep d (false, x)).packet? = w ∧ Lost none (dstep d (false, x)) := by
  obtain ⟨hl, hf, hc, hb, hs, hp⟩ := h
  rw [BIT_CLKS_eq, TOL_CLKS_eq] at hc
  have hd : dstep d (false, x) = { d with
      latch_bit := false
      packet_valid_i := false
      packet_valid_d := d.packet_valid_i
      rx_error := true
      locked := false
      first_center := false
      ctr := 0
      bit_cnt := 0
      pkt_sr := 0 } := by
    simp [dstep, decode, Decoder.unlock, hl, BIT_CLKS_eq, TOL_CLKS_eq, hc]
  rw [hd]
  exact ⟨hp, rfl, rfl, rfl, rfl⟩

theorem lost_one (h : Lost w d) :
    (dstep d (false, x)).packet? = w ∧ Lost none (dstep d (false, x)) := by
  obtain ⟨hl, hb, hs, hp⟩ := h
  have hd : dstep d (false, x) = { d with
      latch_bit := false
      packet_valid_i := false
      packet_valid_d := d.packet_valid_i
      rx_error := false
      ctr := 0 } := by
    simp [dstep, decode, hl]
  rw [hd]
  exact ⟨hp, hl, hb, hs, rfl⟩

/-- The first edge. -/
theorem edge_lock (hl : d.locked = false) (hp : d.pending = none) :
    (dstep d (true, x)).packet? = none ∧ Counting true 0 0 0 none (dstep d (true, x)) := by
  have hd : dstep d (true, x) = { d with
      latch_bit := false
      packet_valid_i := false
      packet_valid_d := d.packet_valid_i
      rx_error := false
      locked := true
      first_center := true
      ctr := 0
      bit_cnt := 0
      pkt_sr := 0 } := by
    simp [dstep, decode, hl]
  rw [hd]
  exact ⟨hp, rfl, rfl, rfl, rfl, rfl, rfl⟩

theorem edge_boundary (h : Counting false k c sr none d) (hk : near k HALF_CLKS = true) :
    (dstep d (true, x)).packet? = none ∧
      Counting false (k + 1) c sr none (dstep d (true, x)) := by
  obtain ⟨hl, hf, hc, hb, hs, hp⟩ := h
  have hk' := hk
  rw [near_iff, HALF_CLKS_eq] at hk'
  have h1 : k < 4000 := by omega
  have hd : dstep d (true, x) = { d with
      latch_bit := false
      packet_valid_i := false
      packet_valid_d := d.packet_valid_i
      rx_error := false
      ctr := d.ctr + 1 } := by
    simp [dstep, decode, hl, hf, BIT_CLKS_eq, h1, hc, hk]
  rw [hd]
  exact ⟨hp, hl, hf, by rw [← hc], hb, hs, rfl⟩

theorem packet_valid_i_of_pending (h : d.pending = none) : d.packet_valid_i = false := by
  cases hv : d.packet_valid_i with
  | false => rfl
  | true => simp [Decoder.pending, hv] at h

/-- An edge that is taken for a centre: the first one, or a later one. -/
def AtCenter (fc : Bool) (k : ℕ) : Prop :=
  if fc then near k HALF_CLKS = true else near k BIT_CLKS = true

theorem edge_center (h : Counting fc k c sr none d) (hk : AtCenter fc k) :
    (dstep d (true, x)).packet? = none ∧
      Counting false 0 (if c = 31 then 0 else c + 1) (shiftIn sr x)
        (if c = 31 then some (shiftIn sr x) else none) (dstep d (true, x)) := by
  obtain ⟨hl, hf, hc, hb, hs, hp⟩ := h
  have hd : dstep d (true, x) = Decoder.center { d with
      latch_bit := false
      packet_valid_i := false
      packet_valid_d := d.packet_valid_i
      rx_error := false
      first_center := false
      ctr := d.ctr + 1 } k x := by
    cases fc with
    | true =>
      rw [AtCenter, if_pos rfl] at hk
      have hk' := hk
      rw [near_iff, HALF_CLKS_eq] at hk'
      have h1 : k < 4000 := by omega
      simp [dstep, decode, hl, hf, BIT_CLKS_eq, h1, hc, hk]
    | false =>
      rw [AtCenter, if_neg (by decide)] at hk
      have hk' := hk
      rw [near_iff, BIT_CLKS_eq] at hk'
      have h1 : k < 4000 := by omega
      have hne : near k HALF_CLKS = false := by
        rw [← Bool.not_eq_true, near_iff, HALF_CLKS_eq]
        omega
      rw [BIT_CLKS_eq] at hk
      simp [dstep, decode, hl, hf, BIT_CLKS_eq, h1, hc, hne, hk]
  rw [hd]
  have hv := packet_valid_i_of_pending hp
  by_cases h31 : c = 31
  · simp only [Decoder.center, hb, h31, if_true, hs, hv]
    exact ⟨rfl, hl, rfl, rfl, rfl, rfl, rfl⟩
  · simp only [Decoder.center, hb, h31, if_false, hs, hv]
    exact ⟨rfl, hl, rfl, rfl, rfl, rfl, rfl⟩

/-! ## Stretches of the line -/

theorem goes_cons {e : Bool × Bool} {es : List (Bool × Bool)} {ws : List (BitVec 32)}
    {P Q : Decoder → Prop} (h1 : (dstep d e).packet? = w ∧ P (dstep d e))
    (h2 : ∀ d', P d' → Goes d' es ws Q) : Goes d (e :: es) (w.toList ++ ws) Q := by
  have h := (goes_one h1.2).trans h2
  rwa [h1.1] at h

theorem quiet_many (n : ℕ) (h : Counting fc k c sr none d) (hk : k + n ≤ BIT_CLKS + TOL_CLKS + 1) :
    Goes d (List.replicate n (false, x)) [] (Counting fc (k + n) c sr none) := by
  induction n generalizing k d with
  | zero => exact goes_nil h
  | succ n ih =>
    have hgo := goes_cons (quiet_one (x := x) h (by omega)) fun d' hd' => ih hd' (by omega)
    rw [Nat.add_right_comm] at hgo
    exact hgo

/-- A word that is pending comes out with the first of the quiet clocks. -/
theorem quiet_pending {n : ℕ} (hn : 0 < n) (h : Counting fc k c sr w d)
    (hk : k + n ≤ BIT_CLKS + TOL_CLKS + 1) :
    Goes d (List.replicate n (false, x)) w.toList (Counting fc (k + n) c sr none) := by
  obtain ⟨m, rfl⟩ : ∃ m, n = m + 1 := ⟨n - 1, by omega⟩
  have hgo := goes_cons (quiet_one (x := x) h (by omega))
    fun d' hd' => quiet_many (x := x) m hd' (by omega)
  rw [Nat.add_right_comm, List.append_nil] at hgo
  exact hgo

theorem lost_many (n : ℕ) (h : Lost none d) :
    Goes d (List.replicate n (false, x)) [] (Lost none) := by
  induction n generalizing d with
  | zero => exact goes_nil h
  | succ n ih => exact goes_cons (lost_one h) fun d' hd' => ih hd'

/-- Nothing is pending, and the lock is lost if the clocks since the last centre were too many. -/
def Over (n : ℕ) (d : Decoder) : Prop :=
  d.pending = none ∧ (BIT_CLKS + TOL_CLKS + 2 ≤ n → Lost none d)

theorem quiet_over (n : ℕ) (h : Counting fc k c sr none d) (hk : k ≤ BIT_CLKS + TOL_CLKS + 1) :
    Goes d (List.replicate n (false, x)) [] (Over (k + n)) := by
  by_cases hn : k + n ≤ BIT_CLKS + TOL_CLKS + 1
  · exact (quiet_many n h hn).imp fun d' hd' => ⟨hd'.pending, fun hge => absurd hn (by omega)⟩
  · -- Up to the limit, the clock that loses the lock, and the rest.
    obtain ⟨m, hm⟩ : ∃ m, k + m = BIT_CLKS + TOL_CLKS + 1 :=
      ⟨BIT_CLKS + TOL_CLKS + 1 - k, by omega⟩
    have hsplit : List.replicate n (false, x) =
        List.replicate m (false, x) ++ (false, x) :: List.replicate (n - m - 1) (false, x) := by
      rw [← List.replicate_succ, List.replicate_append_replicate]
      congr 1
      omega
    rw [hsplit]
    refine (quiet_many m h (by omega)).trans ?_
    intro d' hd'
    rw [hm] at hd'
    refine goes_cons (quiet_lost hd') ?_
    intro d'' hd''
    exact (lost_many _ hd'').imp fun d3 hd3 => ⟨hd3.pending, fun _ => hd3⟩

theorem seg_lock {n : ℕ} (hl : d.locked = false) (hp : d.pending = none)
    (hn : n ≤ BIT_CLKS + TOL_CLKS + 1) :
    Goes d (seg n x) [] (Counting true (n - 1) 0 0 none) := by
  refine goes_cons (edge_lock hl hp) ?_
  intro d' hd'
  have h := quiet_many (x := x) (n - 1) hd' (by omega)
  rwa [Nat.zero_add] at h

theorem seg_boundary {n : ℕ} (hn : 0 < n) (h : Counting false k c sr none d)
    (hk : near k HALF_CLKS = true) (hkn : k + n ≤ BIT_CLKS + TOL_CLKS + 1) :
    Goes d (seg n x) [] (Counting false (k + n) c sr none) := by
  refine goes_cons (edge_boundary h hk) ?_
  intro d' hd'
  have h := quiet_many (x := x) (n - 1) hd' (by omega)
  rwa [show k + 1 + (n - 1) = k + n by omega] at h

theorem seg_center {n : ℕ} (hn : 2 ≤ n) (h : Counting fc k c sr none d) (hk : AtCenter fc k)
    (hle : n ≤ BIT_CLKS + TOL_CLKS + 2) :
    Goes d (seg n x) (if c = 31 then [shiftIn sr x] else [])
      (Counting false (n - 1) (if c = 31 then 0 else c + 1) (shiftIn sr x) none) := by
  have hgo := goes_cons (edge_center (x := x) h hk)
    fun d' hd' => quiet_pending (x := x) (n := n - 1) (by omega) hd' (by omega)
  rw [Nat.zero_add] at hgo
  have hout : (none : Option (BitVec 32)).toList ++
      (if c = 31 then some (shiftIn sr x) else none).toList =
      if c = 31 then [shiftIn sr x] else [] := by
    split_ifs <;> rfl
  rwa [hout] at hgo

/-! ## The end of a burst -/

theorem near_of_timed {h : ℕ} (ht : Timed h HALF_CLKS) : near (h - 1) HALF_CLKS = true := by
  have hb := timed_half ht
  rw [near_iff, HALF_CLKS_eq]
  omega

theorem seg_center_over {n : ℕ} (hn : 2 ≤ n) (h : Counting fc k c sr none d) (hk : AtCenter fc k) :
    Goes d (seg n x) (if c = 31 then [shiftIn sr x] else []) (Over (n - 1)) := by
  have hseg : seg n x = seg 2 x ++ List.replicate (n - 2) (false, x) := by
    rw [seg, seg, show n - 1 = 1 + (n - 2) by omega, ← List.replicate_append_replicate]
    rfl
  have hgo := (seg_center (x := x) (Nat.le_refl 2) h hk (by decide)).trans
    fun d' hd' => quiet_over (x := x) (n - 2) hd' (by decide)
  rwa [← hseg, List.append_nil, show 2 - 1 + (n - 2) = n - 1 by omega] at hgo

/-- The last centre and what follows it, `n` clocks in all. -/
theorem rest_goes (B : Burst) (b : Bool) {n : ℕ} (hn : 2 ≤ n) (h : Counting fc k c sr none d)
    (hk : AtCenter fc k) :
    Goes d (edges (!b) (B.rest b n)) (if c = 31 then [shiftIn sr b] else []) (Over (n - 1)) := by
  have hconst : edges (!b) (List.replicate n b) = seg n b := by
    have he := edges_flip b (show 0 < n by omega) []
    rwa [List.append_nil, edges, List.append_nil] at he
  unfold Burst.rest
  cases hback : B.back with
  | none =>
    rw [hconst]
    exact seg_center_over hn h hk
  | some hb =>
    have ht := B.back_timed hb hback
    have hbd := timed_half ht
    dsimp only
    by_cases hle : n ≤ hb
    · rw [Nat.min_eq_right hle, Nat.sub_eq_zero_of_le hle, List.replicate_zero, List.append_nil,
        hconst]
      exact seg_center_over hn h hk
    · have he : edges (!b) (List.replicate (min hb n) b ++ List.replicate (n - hb) (!b)) =
          seg hb b ++ seg (n - hb) (!b) := by
        rw [Nat.min_eq_left (by omega), edges_flip b (by omega)]
        have he := edges_flip (!b) (show 0 < n - hb by omega) []
        rw [List.append_nil, Bool.not_not, edges, List.append_nil] at he
        rw [he]
      rw [he]
      have hgo := (seg_center (x := b) (by omega) h hk
        (by rw [BIT_CLKS_eq, TOL_CLKS_eq]; omega)).trans fun d' hd' =>
          goes_cons (edge_boundary (x := !b) hd' (near_of_timed ht)) fun d'' hd'' =>
            quiet_over (x := !b) (n - hb - 1) hd'' (by rw [BIT_CLKS_eq, TOL_CLKS_eq]; omega)
      rwa [Option.toList_none, List.append_nil, List.append_nil,
        show hb - 1 + 1 + (n - hb - 1) = n - 1 by omega] at hgo

/-! ## The bits of a burst -/

/-- What a 32-bit shift register that holds `c` bits in `sr` makes of some bits: the words it is
full with. -/
def shifts : BitVec 32 → ℕ → List Bool → List (BitVec 32)
  | _, _, [] => []
  | sr, c, b :: bs =>
    if c = 31 then shiftIn sr b :: shifts (shiftIn sr b) 0 bs else shifts (shiftIn sr b) (c + 1) bs

theorem shifts_cons (sr : BitVec 32) (c : ℕ) (b : Bool) (bs : List Bool) :
    shifts sr c (b :: bs) = (if c = 31 then [shiftIn sr b] else []) ++
      shifts (shiftIn sr b) (if c = 31 then 0 else c + 1) bs := by
  rw [shifts]
  split_ifs <;> rfl

/-- From a centre on: the induction over the bits. -/
theorem wave_goes (B : Burst) {n : ℕ} (hn : 2 ≤ n) (bs : List Bool) :
    ∀ {i : ℕ} {b fc : Bool} {k c : ℕ} {sr : BitVec 32} {d : Decoder},
      Counting fc k c sr none d → AtCenter fc k →
      Goes d (edges (!b) (B.wave n i b bs)) (shifts sr c (b :: bs)) (Over (n - 1)) := by
  induction bs with
  | nil =>
    intro i b fc k c sr d h hk
    rw [shifts_cons, shifts, List.append_nil]
    exact rest_goes B b hn h hk
  | cons b' bs ih =>
    intro i b fc k c sr d h hk
    have hfull := timed_full (B.full_timed i)
    have hhalf := timed_half (B.half_timed i)
    have hnext : AtCenter false (B.full i - 1) := by
      rw [AtCenter, if_neg (by decide), near_iff, BIT_CLKS_eq]
      omega
    rw [shifts_cons]
    by_cases hb : b' = b
    · -- Equal bits: centre, boundary, centre.
      subst hb
      have he : edges (!b') (B.wave n i b' (b' :: bs)) =
          seg (B.half i) b' ++ (seg (B.full i - B.half i) (!b') ++
            edges (!b') (B.wave n (i + 1) b' bs)) := by
        have h2 := edges_flip (!b') (show 0 < B.full i - B.half i by omega)
          (B.wave n (i + 1) b' bs)
        rw [Bool.not_not] at h2
        rw [Burst.wave, if_pos rfl, List.append_assoc, edges_flip b' (by omega), h2]
      rw [he]
      refine (seg_center (by omega) h hk (by rw [BIT_CLKS_eq, TOL_CLKS_eq]; omega)).trans ?_
      intro d1 h1
      have h2 := seg_boundary (x := !b') (n := B.full i - B.half i) (by omega) h1
        (near_of_timed (B.half_timed i)) (by rw [BIT_CLKS_eq, TOL_CLKS_eq]; omega)
      refine h2.trans ?_
      intro d2 h3
      rw [show B.half i - 1 + (B.full i - B.half i) = B.full i - 1 by omega] at h3
      exact ih h3 hnext
    · -- Different bits: the level stays until the next centre.
      have hflip : b = !b' := Bool.eq_not.mpr (Ne.symm hb)
      have he : edges (!b) (B.wave n i b (b' :: bs)) =
          seg (B.full i) b ++ edges (!b') (B.wave n (i + 1) b' bs) := by
        rw [Burst.wave, if_neg hb, edges_flip b (by omega), ← hflip]
      rw [he]
      refine (seg_center (by omega) h hk (by rw [BIT_CLKS_eq, TOL_CLKS_eq]; omega)).trans ?_
      intro d1 h1
      exact ih h1 hnext

/-! ## Words -/

theorem getLsbD_shiftIn (sr : BitVec 32) (b : Bool) {i : ℕ} (hi : i < 32) :
    (shiftIn sr b).getLsbD i = if i = 0 then b else sr.getLsbD (i - 1) := by
  unfold shiftIn
  rw [BitVec.getLsbD_concat, BitVec.getLsbD_extractLsb']
  by_cases h0 : i = 0
  · rw [if_pos h0, if_pos h0]
  · simp [h0, show i - 1 < 31 by omega]

/-- With the upper `j` bits of `x` in the register, the others complete it. -/
theorem shifts_rest (x : BitVec 32) (bs : List Bool) :
    ∀ (m : ℕ) {j : ℕ} {sr : BitVec 32}, j + m = 31 →
      (∀ i < j, sr.getLsbD i = x.getMsbD (j - 1 - i)) →
      shifts sr j (((List.range' j (m + 1)).map fun i => x.getMsbD i) ++ bs) =
        x :: shifts x 0 bs := by
  intro m
  induction m with
  | zero =>
    intro j sr hj hsr
    obtain rfl : j = 31 := by omega
    have hx : shiftIn sr (x.getMsbD 31) = x := by
      apply BitVec.eq_of_getLsbD_eq
      intro i hi
      rw [getLsbD_shiftIn sr _ hi]
      by_cases h0 : i = 0
      · simp [h0, BitVec.getMsbD]
      · rw [if_neg h0, hsr (i - 1) (by omega)]
        simp only [BitVec.getMsbD, show 31 - 1 - (i - 1) < 32 by omega, decide_true, Bool.true_and]
        congr 1
        omega
    rw [show List.range' 31 (0 + 1) = [31] from rfl]
    simp only [List.map_cons, List.map_nil, List.cons_append, List.nil_append, shifts, if_true, hx]
  | succ m ih =>
    intro j sr hj hsr
    rw [List.range'_succ, List.map_cons, List.cons_append, shifts, if_neg (by omega)]
    refine ih (by omega) ?_
    intro i hi
    rw [getLsbD_shiftIn sr _ (by omega)]
    by_cases h0 : i = 0
    · simp [h0]
    · rw [if_neg h0, hsr (i - 1) (by omega)]
      congr 1
      omega

theorem shifts_words (ws : List (BitVec 32)) (sr : BitVec 32) :
    shifts sr 0 (ws.flatMap msbFirst) = ws := by
  induction ws generalizing sr with
  | nil => rfl
  | cons x ws ih =>
    rw [List.flatMap_cons, msbFirst, List.range_eq_range', shifts_rest x _ 31 rfl, ih x]
    exact fun i hi => absurd hi (Nat.not_lt_zero i)

/-! ## The whole receiver -/

/-- The line has been at `v` for long enough to have passed the synchroniser, and the receiver waits
for an edge. -/
structure Start (v : Bool) (s : Rx) : Prop where
  rx_meta : s.rx_meta = v
  rx_sync : s.rx_sync = v
  rx_last : s.rx_last = v
  locked : s.locked = false
  pending : s.toDecoder.pending = none

/-- A clock without an edge leaves nothing pending. -/
theorem pending_quiet (d : Decoder) (b : Bool) : (decode d false b).pending = none := by
  have hvalid : (decode d false b).packet_valid_i = false := by
    simp only [decode, Decoder.unlock, Bool.false_eq_true, if_false,
      apply_ite Decoder.packet_valid_i, ite_self]
  rw [Decoder.pending, hvalid]
  rfl

theorem idle_start (s : Rx) {n : ℕ} (hn : 4 ≤ n) (v : Bool)
    (hl : (run s (List.replicate n v)).locked = false) : Start v (run s (List.replicate n v)) := by
  obtain ⟨m, rfl⟩ : ∃ m, n = m + 4 := ⟨n - 4, by omega⟩
  have hrun : run s (List.replicate (m + 4) v) =
      run (run s (List.replicate m v)) [v, v, v, v] := by
    unfold run onLine
    rw [← Clocked.run_append, ← List.map_append]
    congr 2
    exact (List.replicate_append_replicate (m := 4)).symm
  rw [hrun] at hl ⊢
  refine ⟨rfl, rfl, rfl, hl, ?_⟩
  have hlast : ∀ s' : Rx, (run s' [v, v, v, v]).toDecoder =
      decode (run s' [v, v, v]).toDecoder (v ^^ v) v := fun s' => rfl
  rw [hlast, Bool.xor_self]
  exact pending_quiet _ v

theorem unlocked_one {d : Decoder} (hl : d.locked = false) (hp : d.pending = none) (b : Bool) :
    (dstep d (false, b)).packet? = none ∧ (dstep d (false, b)).locked = false ∧
      (dstep d (false, b)).pending = none := by
  have hv := packet_valid_i_of_pending hp
  refine ⟨?_, ?_, pending_quiet d b⟩
  · simp [dstep, decode, hl, hv, Decoder.packet?]
  · simp [dstep, decode, hl]

namespace Burst

variable (B : Burst)

/-- The last clocks of the line can be cut off. -/
theorem rest_prefix (b : Bool) {m n : ℕ} (h : m ≤ n) :
    ∃ t, B.rest b n = B.rest b m ++ t ∧ t.length = n - m := by
  unfold rest
  cases B.back with
  | none =>
    refine ⟨List.replicate (n - m) b, ?_, List.length_replicate⟩
    dsimp only
    rw [List.replicate_append_replicate]
    congr 1
    omega
  | some hb =>
    dsimp only
    by_cases h1 : n ≤ hb
    · refine ⟨List.replicate (n - m) b, ?_, List.length_replicate⟩
      rw [Nat.min_eq_right h1, Nat.min_eq_right (by omega), Nat.sub_eq_zero_of_le h1,
        Nat.sub_eq_zero_of_le (show m ≤ hb by omega), List.replicate_zero, List.append_nil,
        List.append_nil, List.replicate_append_replicate]
      congr 1
      omega
    · by_cases h2 : m ≤ hb
      · refine ⟨List.replicate (hb - m) b ++ List.replicate (n - hb) (!b), ?_, ?_⟩
        · rw [Nat.min_eq_left (by omega), Nat.min_eq_right h2, Nat.sub_eq_zero_of_le h2,
            List.replicate_zero, List.append_nil, ← List.append_assoc,
            List.replicate_append_replicate]
          congr 2
          omega
        · simp only [List.length_append, List.length_replicate]
          omega
      · refine ⟨List.replicate (n - m) (!b), ?_, List.length_replicate⟩
        rw [Nat.min_eq_left (by omega), Nat.min_eq_left (by omega), List.append_assoc,
          List.replicate_append_replicate]
        congr 2
        omega

theorem wave_prefix {m n : ℕ} (h : m ≤ n) (bs : List Bool) (i : ℕ) (b : Bool) :
    ∃ t, B.wave n i b bs = B.wave m i b bs ++ t ∧ t.length = n - m := by
  induction bs generalizing i b with
  | nil => exact B.rest_prefix b h
  | cons b' bs ih =>
    obtain ⟨t, ht, hlen⟩ := ih (i + 1) b'
    refine ⟨t, ?_, hlen⟩
    rw [wave, wave, ht, List.append_assoc]

theorem bits_eq : B.bits = B.idle :: B.bits.tail := by
  have hne : B.bits ≠ [] := by
    obtain ⟨x, ws, hw⟩ := List.exists_cons_of_ne_nil B.words_ne_nil
    rw [bits, hw, List.flatMap_cons]
    simp [msbFirst]
  obtain ⟨b, bs, hb⟩ := List.exists_cons_of_ne_nil hne
  rw [idle, hb]
  rfl

end Burst

/-- A burst that begins with the receiver waiting comes out as its words. -/
theorem start_goes (B : Burst) {s : Rx} (h : Start B.idle s) :
    emitted s B.line = B.words ∧ Over (B.tail - 2) (run s B.line).toDecoder := by
  have h3 := B.three_le_tail
  obtain ⟨t, ht, hlen⟩ := B.wave_prefix (show B.tail - 1 ≤ B.tail + 1 by omega) B.bits.tail 0 B.idle
  have hfirst := timed_half B.first_timed
  -- The decoder sees the level before the burst for two clocks, and not the last two.
  have hview : view s B.line = [(false, B.idle), (false, B.idle)] ++
      (seg B.first (!B.idle) ++ edges (!B.idle) (B.wave (B.tail - 1) 0 B.idle B.bits.tail)) := by
    have htake : (B.idle :: B.idle :: B.line).take B.line.length =
        B.idle :: B.idle :: (List.replicate B.first (!B.idle) ++
          B.wave (B.tail - 1) 0 B.idle B.bits.tail) := by
      have hline : B.line = (List.replicate B.first (!B.idle) ++
          B.wave (B.tail - 1) 0 B.idle B.bits.tail) ++ t := by
        rw [Burst.line, ht, List.append_assoc]
      have hcons : B.idle :: B.idle :: B.line = (B.idle :: B.idle :: (List.replicate B.first
          (!B.idle) ++ B.wave (B.tail - 1) 0 B.idle B.bits.tail)) ++ t := by
        rw [hline]
        rfl
      rw [hcons]
      refine List.take_left' ?_
      rw [hline]
      simp only [List.length_cons, List.length_append]
      omega
    unfold view
    rw [h.rx_last, h.rx_sync, h.rx_meta, htake]
    have hflip := edges_flip (!B.idle) (show 0 < B.first by omega)
      (B.wave (B.tail - 1) 0 B.idle B.bits.tail)
    rw [Bool.not_not] at hflip
    rw [edges, edges, Bool.xor_self, hflip]
    rfl
  have hgo : Goes s.toDecoder (view s B.line) B.words (Over (B.tail - 2)) := by
    rw [hview]
    let Waiting : Decoder → Prop := fun d => d.locked = false ∧ d.pending = none
    refine goes_cons (P := Waiting) (unlocked_one h.locked h.pending B.idle) ?_
    intro d1 h1
    refine goes_cons (P := Waiting) (unlocked_one h1.1 h1.2 B.idle) ?_
    intro d2 h2
    refine (seg_lock h2.1 h2.2 (by rw [BIT_CLKS_eq, TOL_CLKS_eq]; omega)).trans ?_
    intro d3 hd3
    have hfc : AtCenter true (B.first - 1) := near_of_timed B.first_timed
    have hwave := wave_goes B (n := B.tail - 1) (by omega) B.bits.tail (i := 0) (b := B.idle)
      hd3 hfc
    rw [← B.bits_eq, Burst.bits, shifts_words] at hwave
    exact hwave
  obtain ⟨h1, h2⟩ := run_view s B.line
  rw [h1, h2]
  exact hgo

/-! ## Bursts one after another -/

namespace Burst

variable (B : Burst)

/-- The level of the line after a last bit `b`. -/
def level (b : Bool) : Bool :=
  match B.back with
  | none => b
  | some _ => !b

theorem rest_ends (b : Bool) {n : ℕ} (hn : 1355 ≤ n) :
    ∃ pre, B.rest b n = pre ++ List.replicate 4 (B.level b) := by
  unfold rest level
  cases hback : B.back with
  | none =>
    refine ⟨List.replicate (n - 4) b, ?_⟩
    dsimp only
    rw [List.replicate_append_replicate, Nat.sub_add_cancel (by omega)]
  | some hb =>
    have ht := timed_half (B.back_timed hb hback)
    refine ⟨List.replicate (min hb n) b ++ List.replicate (n - hb - 4) (!b), ?_⟩
    dsimp only
    rw [List.append_assoc, List.replicate_append_replicate, Nat.sub_add_cancel (by omega)]

theorem wave_ends {n : ℕ} (hn : 1355 ≤ n) (bs : List Bool) (i : ℕ) (b : Bool) :
    ∃ pre, B.wave n i b bs = pre ++ List.replicate 4 (B.level (bs.getLastD b)) := by
  induction bs generalizing i b with
  | nil => exact B.rest_ends b hn
  | cons b' bs ih =>
    obtain ⟨pre, h⟩ := ih (i + 1) b'
    rw [wave, h, ← List.append_assoc, List.getLastD_cons]
    exact ⟨_, rfl⟩

/-- At the end the line is at the level of the last bit, or at the other one after an edge back. -/
theorem line_ends (ht : BIT_CLKS + TOL_CLKS + 4 ≤ B.tail) :
    B.after = B.level (B.bits.tail.getLastD B.idle) ∧
      ∃ pre, B.line = pre ++ List.replicate 4 B.after := by
  rw [BIT_CLKS_eq, TOL_CLKS_eq] at ht
  obtain ⟨pre, h⟩ := B.wave_ends (show 1355 ≤ B.tail + 1 by omega) B.bits.tail 0 B.idle
  have hline : B.line = (List.replicate B.first (!B.idle) ++ pre) ++
      List.replicate 4 (B.level (B.bits.tail.getLastD B.idle)) := by
    rw [line, h, List.append_assoc]
  have hafter : B.after = B.level (B.bits.tail.getLastD B.idle) := by
    rw [after, hline]
    simp [List.getLastD_eq_getLast?]
  rw [hafter]
  exact ⟨rfl, _, hline⟩

end Burst

theorem run_append (s : Rx) (l l' : List Bool) : run s (l ++ l') = run (run s l) l' := by
  unfold run onLine
  rw [List.map_append, Clocked.run_append]

theorem emitted_append (s : Rx) (l l' : List Bool) :
    emitted s (l ++ l') = emitted s l ++ emitted (run s l) l' := by
  unfold emitted run onLine
  rw [List.map_append, Clocked.states_append, List.filterMap_append]

/-- After a burst and a pause the receiver waits for the next one, with an empty register. -/
theorem start_after (B : Burst) {s : Rx} (h : Start B.idle s)
    (ht : BIT_CLKS + TOL_CLKS + 4 ≤ B.tail) :
    Start B.after (run s B.line) ∧ (run s B.line).pkt_sr = 0 ∧ (run s B.line).bit_cnt = 0 := by
  have hlost := (start_goes B h).2.2 (by omega)
  refine ⟨?_, hlost.pkt_sr, hlost.bit_cnt⟩
  obtain ⟨-, pre, hline⟩ := B.line_ends ht
  have hl := hlost.locked
  rw [hline, run_append] at hl ⊢
  exact idle_start (run s pre) (Nat.le_refl 4) B.after hl

theorem chain_goes (Bs : List Burst) :
    ∀ {v : Bool} {s : Rx}, Start v s → Chain v Bs →
      emitted s (Bs.flatMap Burst.line) = Bs.flatMap Burst.words ∧
      (run s (Bs.flatMap Burst.line)).locked = false ∧
      (Bs ≠ [] → (run s (Bs.flatMap Burst.line)).pkt_sr = 0 ∧
        (run s (Bs.flatMap Burst.line)).bit_cnt = 0) := by
  induction Bs with
  | nil =>
    intro v s h _
    exact ⟨rfl, h.locked, fun hne => absurd rfl hne⟩
  | cons B Bs ih =>
    rintro v s h ⟨rfl, ht, hchain⟩
    obtain ⟨hstart, hsr, hcnt⟩ := start_after B h ht
    obtain ⟨hout, hl, hend⟩ := ih hstart hchain
    rw [List.flatMap_cons, List.flatMap_cons, emitted_append, run_append, hout, (start_goes B h).1]
    refine ⟨rfl, hl, ?_⟩
    intro _
    by_cases hB : Bs = []
    · subst hB
      exact ⟨hsr, hcnt⟩
    · exact hend hB

/-- After at least four clocks of an idle line, with the receiver unlocked, a burst comes out as its
words, one pulse each and nothing else. With a pause after each, the receiver is unlocked with an
empty register, and bursts that follow each other come out the same way. -/
theorem manchester_roundTrip (s : Rx) (v : Bool) {n : ℕ} (hn : 4 ≤ n)
    (hl : (run s (List.replicate n v)).locked = false) :
    (∀ B : Burst, B.idle = v → emitted (run s (List.replicate n v)) B.line = B.words) ∧
    (∀ Bs : List Burst, Chain v Bs →
      emitted (run s (List.replicate n v)) (Bs.flatMap Burst.line) = Bs.flatMap Burst.words ∧
      (run (run s (List.replicate n v)) (Bs.flatMap Burst.line)).locked = false ∧
      (Bs ≠ [] →
        (run (run s (List.replicate n v)) (Bs.flatMap Burst.line)).pkt_sr = 0 ∧
        (run (run s (List.replicate n v)) (Bs.flatMap Burst.line)).bit_cnt = 0)) := by
  have hstart := idle_start s hn v hl
  refine ⟨?_, fun Bs => chain_goes Bs hstart⟩
  rintro B rfl
  exact (start_goes B hstart).1

/-- Two words whose edges come up to a tenth of a bit early and late, and then the edge back. -/
def jittered : Burst where
  words := [0x5EADBEEF, 0xC0FFEE00]
  first := 1100
  half i := if i % 2 = 0 then 900 else 1100
  full i := if i % 3 = 0 then 2200 else 1850
  back := some 950
  tail := 2704
  words_ne_nil := by decide
  first_timed := by decide
  half_timed i := by
    split <;> decide
  full_timed i := by
    split <;> decide
  back_timed h hback := by
    obtain rfl := Option.mem_some_iff.mp hback
    decide
  three_le_tail := by decide

/-- A word at the nominal rate. -/
def nominal : Burst where
  words := [0xA5A5A5A5]
  first := 1000
  half _ := 1000
  full _ := 2000
  back := none
  tail := 2704
  words_ne_nil := by decide
  first_timed := by decide
  half_timed _ := by decide
  full_timed _ := by decide
  back_timed := nofun
  three_le_tail := by decide

/-- The two bursts one after the other. -/
theorem manchester_roundTrip_jittered :
    emitted (run Rx.reset (List.replicate 4 false)) (jittered.line ++ nominal.line) =
        [0x5EADBEEF, 0xC0FFEE00, 0xA5A5A5A5] ∧
      (run (run Rx.reset (List.replicate 4 false)) (jittered.line ++ nominal.line)).locked =
        false := by
  have hchain : Chain false [jittered, nominal] := by
    refine ⟨rfl, by decide, ?_, by decide, trivial⟩
    rw [(jittered.line_ends (by decide)).1]
    decide
  have h := (manchester_roundTrip Rx.reset false (Nat.le_refl 4) rfl).2 [jittered, nominal] hchain
  rw [List.flatMap_cons, List.flatMap_cons, List.flatMap_nil, List.append_nil] at h
  exact ⟨h.1, h.2.1⟩

end Zpsc.Manch
