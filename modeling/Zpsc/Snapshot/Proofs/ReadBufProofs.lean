import Mathlib.Tactic.Ring
import Zpsc.Snapshot.ReadBuf

/-!
# The records of a snapshot

`CopyDataChan` on a stretch of the ring gives its records one by one; `ReadDMABuf` puts at most
three stretches together, which follow each other in the ring.
-/

namespace Zpsc.Snapshot

open AxiWrite (SLOTS slotAddr)

variable {mem : BitVec 32 → BitVec 32} {ring : ℕ → Slot} {scalefactors : ℕ → ScaleFactors}
variable {conv : ℚ} {c : Chan}

/-! ## One record -/

theorem slotAddr_eq (k : ℕ) : slotAddr k = 0x10000000 + 160 * k := rfl

theorem bufData_eq (hmem : RingHolds mem ring) {buf : BitVec 32} {a n w : ℕ}
    (hbuf : buf.toNat = slotAddr a) (hn : a + n < SLOTS) (hw : w < 40) :
    bufData mem buf (40 * n + w) = (ring (a + n)).word w := by
  rw [← hmem (a + n) hn w hw, bufData]
  congr 1
  apply BitVec.eq_of_toNat_eq
  rw [slotAddr_eq] at hbuf
  rw [SLOTS] at hn
  rw [BitVec.toNat_add, BitVec.toNat_ofNat, BitVec.toNat_ofNat, hbuf, slotAddr_eq]
  omega

theorem word_header (r : Slot) : r.word 0 = 0x80000000 := rfl

theorem word_count (r : Slot) : r.word 1 = r.count := rfl

/-- The layout of the record: `axi4_write_adc` writes quantity `q` of channel `c` where
`CopyDataChan` reads it. -/
theorem word_wordOf (r : Slot) (c : Chan) (q : AxiWrite.Quantity) :
    r.word (wordOf c q) = AxiWrite.psWord (r.readings (wordOf c q)) c q := by
  cases c <;> cases q <;> rfl

theorem copyRecord_eq (hmem : RingHolds mem ring) {buf : BitVec 32} {a n : ℕ}
    (hbuf : buf.toNat = slotAddr a) (hn : a + n < SLOTS) (sf : ScaleFactors) (c : Chan) :
    copyRecord mem conv sf buf (2 + 8 * (chanNum c - 1)) (40 * n) =
      sample sf conv c (ring (a + n)) := by
  have hq (q : AxiWrite.Quantity) (j : ℕ) (hj : quantities.idxOf q = j) :
      bufData mem buf (40 * n + (2 + 8 * (chanNum c - 1) + j)) =
        AxiWrite.psWord ((ring (a + n)).readings (wordOf c q)) c q := by
    subst hj
    rw [← word_wordOf]
    exact bufData_eq hmem hbuf hn (by cases c <;> cases q <;> decide)
  have hd := hq .DCCT1 0 rfl
  rw [Nat.add_zero] at hd
  unfold copyRecord
  rw [bufData_eq hmem hbuf hn (by omega), bufData_eq hmem hbuf hn (by omega), word_header,
    word_count, hd, hq .DCCT2 1 rfl, hq .MON1 2 rfl, hq .MON2 3 rfl, hq .MON3 4 rfl,
    hq .MON4 5 rfl, hq .MON5 6 rfl, hq .MON6 7 rfl]
  simp only [sample, quantities, List.map_cons, List.map_nil, factor, mul_assoc]
  rfl

/-! ## A stretch of the ring -/

theorem copyLoop_eq (body : ℕ → List ℚ) (n i : ℕ) :
    copyLoop body (i + 40 * n) i = (List.range n).flatMap fun j => body (i + 40 * j) := by
  induction n generalizing i with
  | zero => rw [copyLoop, if_neg (by omega)]; rfl
  | succ n ih =>
    rw [copyLoop, if_pos (by omega), show i + 40 * (n + 1) = i + 40 + 40 * n by omega, ih,
      List.range_succ_eq_map, List.flatMap_cons, List.flatMap_map, Nat.mul_zero, Nat.add_zero]
    congr 2
    funext j
    congr 1
    omega

/-- `CopyDataChan` on `n` records from slot `a` on. -/
theorem CopyDataChan_eq (hmem : RingHolds mem ring) {buf numwords : BitVec 32} {a n : ℕ}
    (hbuf : buf.toNat = slotAddr a) (hnum : numwords.toNat = 40 * n) (hn : a + n ≤ SLOTS) :
    CopyDataChan mem scalefactors conv buf numwords (chanNum c) =
      (List.range n).flatMap fun j =>
        sample (scalefactors (chanNum c - 1)) conv c (ring (a + j)) := by
  have hcopy : CopyDataChan mem scalefactors conv buf numwords (chanNum c) =
      copyLoop (copyRecord mem conv (scalefactors (chanNum c - 1)) buf (2 + 8 * (chanNum c - 1)))
        numwords.toNat 0 := by
    cases c <;> rfl
  have hloop := copyLoop_eq
    (copyRecord mem conv (scalefactors (chanNum c - 1)) buf (2 + 8 * (chanNum c - 1))) n 0
  rw [Nat.zero_add] at hloop
  rw [hcopy, hnum, hloop]
  refine List.flatMap_congr ?_
  intro j hj
  have := List.mem_range.mp hj
  rw [Nat.zero_add, copyRecord_eq hmem hbuf (by omega)]

/-! ## Around the ring -/

/-- `f` of `n` slots from `a` on, around the ring. -/
def around {α : Type*} (f : ℕ → List α) (a n : ℕ) : List α :=
  (List.range n).flatMap fun j => f ((a + j) % SLOTS)

variable {α : Type*} (f : ℕ → List α)

theorem around_add (a p n : ℕ) : around f a (p + n) = around f a p ++ around f (a + p) n := by
  rw [around, List.range_add, List.flatMap_append, List.flatMap_map]
  simp only [around, Nat.add_assoc]

theorem around_lap (a n : ℕ) : around f (a + SLOTS) n = around f a n := by
  refine List.flatMap_congr ?_
  intro j _
  rw [show a + SLOTS + j = a + j + SLOTS by omega, Nat.add_mod_right]

theorem around_of_le {a n : ℕ} (h : a + n ≤ SLOTS) :
    around f a n = (List.range n).flatMap fun j => f (a + j) := by
  refine List.flatMap_congr ?_
  intro j hj
  have := List.mem_range.mp hj
  rw [Nat.mod_eq_of_lt (by omega)]

/-! ## The whole snapshot -/

/-- `CopyDataChan` on a stretch that does not wrap, in terms of `around`. -/
theorem copy_around (hmem : RingHolds mem ring) {buf numwords : BitVec 32} {a n : ℕ}
    (hbuf : buf.toNat = slotAddr a) (hnum : numwords.toNat = 40 * n) (hn : a + n ≤ SLOTS) :
    CopyDataChan mem scalefactors conv buf numwords (chanNum c) =
      around (fun j => sample (scalefactors (chanNum c - 1)) conv c (ring j)) a n := by
  rw [CopyDataChan_eq hmem hbuf hnum hn, around_of_le _ hn]

theorem toNat_shiftRight_two {x : BitVec 32} {n : ℕ} (h : x.toNat = 160 * n) :
    (x >>> 2).toNat = 40 * n := by
  rw [BitVec.toNat_ushiftRight, h, Nat.shiftRight_eq_div_pow]
  omega

/-- The addresses and word counts of `ReadDMABuf` as numbers: nothing overflows. -/
theorem toNat_addrs {addr pre post : BitVec 32} {k : ℕ} (hk : k < 200000)
    (haddr : addr.toNat = 0x10000000 + 160 * k) (hsum : pre.toNat + post.toNat ≤ 200000) :
    (addr - pre * BUFSTEPBYTES).toNat = 0x10000000 + 160 * k - 160 * pre.toNat ∧
    (addr + post * BUFSTEPBYTES).toNat = 0x10000000 + 160 * k + 160 * post.toNat ∧
    ((addr - BUFSTART) >>> 2).toNat = 40 * k ∧
    ((BUFSTART + BUFLEN - addr) >>> 2).toNat = 40 * (200000 - k) := by
  unfold BUFSTEPBYTES BUFSTART BUFLEN
  refine ⟨by bv_omega, by bv_omega, toNat_shiftRight_two ?_, toNat_shiftRight_two ?_⟩
  · bv_omega
  · bv_omega

theorem toNat_words {x : BitVec 32} (hx : x.toNat ≤ 200000) :
    (x * WORDSPERSAMPLE).toNat = 40 * x.toNat ∧ (x * BUFSTEPWORDS).toNat = 40 * x.toNat := by
  have h40 : BUFSTEPWORDS = WORDSPERSAMPLE := rfl
  rw [h40]
  unfold WORDSPERSAMPLE
  exact ⟨by bv_omega, by bv_omega⟩

/-- `ReadDMABuf` goes around the ring: where each call gives `f` of the slots of its stretch, all of
them together give `f` of the slots of the snapshot. -/
theorem copies_around {copy : BitVec 32 → BitVec 32 → List α}
    (hcopy : ∀ {buf numwords : BitVec 32} {a n : ℕ}, buf.toNat = slotAddr a →
      numwords.toNat = 40 * n → a + n ≤ SLOTS → copy buf numwords = around f a n)
    (trig : TriggerInfo) {k : ℕ} (hk : k < SLOTS) (haddr : trig.addr.toNat = slotAddr k)
    (hsum : trig.pretrigpts.toNat + trig.posttrigpts.toNat ≤ SLOTS) :
    copies copy trig = around f (k + SLOTS - trig.pretrigpts.toNat)
      (trig.pretrigpts.toNat + trig.posttrigpts.toNat) := by
  have hS : SLOTS = 200000 := rfl
  rw [hS] at hk hsum
  have haddr' := haddr
  rw [slotAddr_eq] at haddr'
  obtain ⟨hstart, hstop, hbefore, hafter⟩ := toNat_addrs hk haddr' hsum
  obtain ⟨hpre, hpre'⟩ := toNat_words (x := trig.pretrigpts) (by omega)
  obtain ⟨hpost, hpost'⟩ := toNat_words (x := trig.posttrigpts) (by omega)
  have hend : (BUFSTART + BUFLEN).toNat = 0x10000000 + 160 * 200000 := rfl
  have hbase : BUFSTART.toNat = slotAddr 0 := rfl
  simp only [copies]
  split
  · next hlt =>
    -- the ring wraps before the trigger
    rw [BitVec.lt_def, hstart, show (0x10000000 : BitVec 32).toNat = 0x10000000 from rfl] at hlt
    obtain ⟨m, hm⟩ : ∃ m, trig.pretrigpts.toNat = k + m :=
      ⟨trig.pretrigpts.toNat - k, by omega⟩
    have hfirst : (trig.pretrigpts * WORDSPERSAMPLE - (trig.addr - BUFSTART) >>> 2).toNat =
        40 * m := by
      rw [BitVec.toNat_sub, hpre, hbefore]
      omega
    have hbuf : (BUFSTART + BUFLEN -
        (trig.pretrigpts * WORDSPERSAMPLE - (trig.addr - BUFSTART) >>> 2) * 4).toNat =
        slotAddr (SLOTS - m) := by
      rw [slotAddr_eq, hS, BitVec.toNat_sub, BitVec.toNat_mul, hfirst, hend,
        show (4 : BitVec 32).toNat = 4 from rfl]
      omega
    rw [hcopy hbuf hfirst (by omega), hcopy hbase hbefore (by omega),
      hcopy haddr hpost' (by omega), hm,
      show k + SLOTS - (k + m) = SLOTS - m by omega, show k + m = m + k by omega, around_add,
      around_add, show SLOTS - m + m = 0 + SLOTS by omega, around_lap,
      show SLOTS - m + (m + k) = k + SLOTS by omega, around_lap]
  · next hge =>
    rw [BitVec.lt_def, hstart, show (0x10000000 : BitVec 32).toNat = 0x10000000 from rfl] at hge
    obtain ⟨a, ha⟩ : ∃ a, k = a + trig.pretrigpts.toNat := ⟨k - trig.pretrigpts.toNat, by omega⟩
    have hbuf : (trig.addr - trig.pretrigpts * BUFSTEPBYTES).toNat = slotAddr a := by
      rw [hstart, slotAddr_eq]
      omega
    rw [show k + SLOTS - trig.pretrigpts.toNat = a + SLOTS by omega, around_lap]
    split
    · next hlt =>
      -- it wraps after the trigger
      rw [BitVec.lt_def, hstop, hend] at hlt
      obtain ⟨m, hm⟩ : ∃ m, trig.posttrigpts.toNat = SLOTS - k + m :=
        ⟨trig.posttrigpts.toNat - (SLOTS - k), by omega⟩
      have hsec : (trig.posttrigpts * WORDSPERSAMPLE -
          (BUFSTART + BUFLEN - trig.addr) >>> 2).toNat = 40 * m := by
        rw [BitVec.toNat_sub, hpost, hafter]
        omega
      rw [hcopy hbuf hpre' (by omega), hcopy haddr hafter (by omega),
        hcopy hbase hsec (by omega), hm, ← Nat.add_assoc, around_add, around_add, ← ha,
        show a + (trig.pretrigpts.toNat + (SLOTS - k)) = 0 + SLOTS by omega, around_lap]
      rfl
    · next hle =>
      rw [BitVec.lt_def, hstop, hend] at hle
      have hnum : ((trig.pretrigpts + trig.posttrigpts) * BUFSTEPWORDS).toNat =
          40 * (trig.pretrigpts.toNat + trig.posttrigpts.toNat) := by
        have hadd : (trig.pretrigpts + trig.posttrigpts).toNat =
            trig.pretrigpts.toNat + trig.posttrigpts.toNat := by
          rw [BitVec.toNat_add]
          omega
        rw [← hadd]
        exact (toNat_words (by omega)).2
      rw [hcopy hbuf hnum (by omega)]

theorem ReadDMABuf_eq (hmem : RingHolds mem ring) (trig : TriggerInfo) {k : ℕ} (hk : k < SLOTS)
    (haddr : trig.addr.toNat = slotAddr k) (hchan : trig.channum.toNat = chanNum c)
    (hsum : trig.pretrigpts.toNat + trig.posttrigpts.toNat ≤ SLOTS) :
    ReadDMABuf mem scalefactors conv trig =
      (List.range (trig.pretrigpts.toNat + trig.posttrigpts.toNat)).flatMap fun j =>
        sample (scalefactors (chanNum c - 1)) conv c
          (ring ((k + SLOTS - trig.pretrigpts.toNat + j) % SLOTS)) := by
  rw [ReadDMABuf, hchan]
  exact copies_around (fun j => sample (scalefactors (chanNum c - 1)) conv c (ring j))
    (fun hbuf hnum hn => copy_around hmem hbuf hnum hn) trig hk haddr hsum

/-- The memory that holds a ring. -/
def ringMem (ring : ℕ → Slot) (a : BitVec 32) : BitVec 32 :=
  (ring ((a.toNat - 0x10000000) / 160)).word ((a.toNat - 0x10000000) % 160 / 4)

theorem ringMem_holds (ring : ℕ → Slot) : RingHolds (ringMem ring) ring := by
  intro k hk w hw
  rw [SLOTS] at hk
  rw [AxiWrite.BURST_LEN] at hw
  have haddr : (BitVec.ofNat 32 (slotAddr k + 4 * w)).toNat = 0x10000000 + 160 * k + 4 * w := by
    rw [BitVec.toNat_ofNat, slotAddr_eq]
    omega
  rw [ringMem, haddr, show (0x10000000 + 160 * k + 4 * w - 0x10000000) / 160 = k by omega,
    show (0x10000000 + 160 * k + 4 * w - 0x10000000) % 160 / 4 = w by omega]

/-- A trigger at slot 1 of channel 3 with two records before it. -/
def wrapTrig : TriggerInfo := ⟨0x100000A0, 0, 2, 1, 0, 0, 0, 0, 3, 0⟩

/-- A ring whose slot `k` has the count `k` and the reading `k` everywhere. -/
def countedRing (k : ℕ) : Slot where
  readings := fun _ =>
    { reset := false, trigger := false, awready := false, wready := false, bvalid := false
      dcct_adcs := fun _ => ⟨BitVec.ofNat 20 k, BitVec.ofNat 20 k⟩
      mon_adcs := fun _ => ⟨⟨BitVec.ofNat 16 k, BitVec.ofNat 16 k, BitVec.ofNat 16 k⟩,
        BitVec.ofNat 16 k, BitVec.ofNat 16 k, BitVec.ofNat 16 k⟩
      dig_cntrl := fun _ => ⟨false, false, false, false, false, false, false⟩
      dig_stat := fun _ => ⟨false, false, false, false, false⟩
      fault_stat := fun _ => ⟨0, 0, false, false, false⟩ }
  count := BitVec.ofNat 32 k

theorem wrapTrig_snapshot :
    ReadDMABuf (ringMem countedRing) (fun _ => ⟨⟨1, 1, 1, 1, 1⟩, 1, 1⟩) 1 wrapTrig =
      sample ⟨⟨1, 1, 1, 1, 1⟩, 1, 1⟩ 1 .ps3 (countedRing 199999) ++
      sample ⟨⟨1, 1, 1, 1, 1⟩, 1, 1⟩ 1 .ps3 (countedRing 0) ++
      sample ⟨⟨1, 1, 1, 1, 1⟩, 1, 1⟩ 1 .ps3 (countedRing 1) := by
  rw [ReadDMABuf_eq (ringMem_holds countedRing) wrapTrig (k := 1) (c := .ps3) (by decide) rfl rfl
    (by decide)]
  rfl

end Zpsc.Snapshot
