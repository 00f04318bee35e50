import Zpsc.Snapshot.Cache
import Zpsc.Snapshot.Proofs.ReadBufProofs

/-!
# Which snapshots the invalidated range covers

The range is the first half of the ring, slots 0 to 99999. A snapshot reads whole slots one after
the other around the ring, so it is covered when it starts and ends in that half without wrapping.
-/

namespace Zpsc.Snapshot

open AxiWrite (SLOTS slotAddr)

variable {mem mem' : BitVec 32 → BitVec 32} {c : Chan}

/-! ## The reads are all that a snapshot depends on -/

theorem copyRecord_congr {sf : ScaleFactors} {conv : ℚ} {buf : BitVec 32} {off i : ℕ}
    (h : ∀ a ∈ recordReads buf off i, mem a = mem' a) :
    copyRecord mem conv sf buf off i = copyRecord mem' conv sf buf off i := by
  have hw : ∀ w ∈ recordWords off, bufData mem buf (i + w) = bufData mem' buf (i + w) :=
    fun w hw => h _ (List.mem_map_of_mem hw)
  simp only [recordWords, List.mem_cons, List.not_mem_nil, or_false, forall_eq_or_imp,
    forall_eq] at hw
  obtain ⟨h0, h1, h2, h3, h4, h5, h6, h7, h8, h9⟩ := hw
  rw [copyRecord, h0, h1, h2, h3, h4, h5, h6, h7, h8, h9, copyRecord]

theorem copyLoop_eq_flatMap (body : ℕ → List ℚ) (numwords : ℕ) :
    copyLoop body numwords 0 = (loopIndices numwords).flatMap body := by
  have hloop : ∀ n i, i ≤ numwords → numwords ≤ i + 40 * n → i + 40 * n < numwords + 40 →
      copyLoop body numwords i = (List.range n).flatMap fun j => body (i + 40 * j) := by
    intro n
    induction n with
    | zero =>
      intro i _ hle _
      rw [copyLoop, if_neg (by omega)]
      rfl
    | succ n ih =>
      intro i _ hle hlt
      rw [copyLoop, if_pos (by omega), List.range_succ_eq_map, List.flatMap_cons, List.flatMap_map]
      congr 1
      by_cases hn : n = 0
      · subst hn
        rw [copyLoop, if_neg (by omega)]
        rfl
      · rw [ih (i + 40) (by omega) (by omega) (by omega)]
        refine List.flatMap_congr ?_
        intro j _
        congr 1
        omega
  rw [hloop ((numwords + 39) / 40) 0 (by omega) (by omega) (by omega), loopIndices,
    List.flatMap_map]
  simp only [Nat.zero_add]

theorem CopyDataChan_congr {scalefactors : ℕ → ScaleFactors} {conv : ℚ}
    {buf numwords : BitVec 32} {chan : ℕ} (h : ∀ a ∈ copyReads buf numwords chan, mem a = mem' a) :
    CopyDataChan mem scalefactors conv buf numwords chan =
      CopyDataChan mem' scalefactors conv buf numwords chan := by
  have hcopy : ∀ off, (∀ a ∈ (loopIndices numwords.toNat).flatMap (recordReads buf off),
      mem a = mem' a) → ∀ sf,
      copyLoop (copyRecord mem conv sf buf off) numwords.toNat 0 =
        copyLoop (copyRecord mem' conv sf buf off) numwords.toNat 0 := by
    intro off hoff sf
    rw [copyLoop_eq_flatMap, copyLoop_eq_flatMap]
    refine List.flatMap_congr fun i hi => copyRecord_congr fun a ha => hoff a ?_
    exact List.mem_flatMap.mpr ⟨i, hi, ha⟩
  match chan, h with
  | 1, h => exact hcopy 2 h _
  | 2, h => exact hcopy 10 h _
  | 3, h => exact hcopy 18 h _
  | 4, h => exact hcopy 26 h _
  | 0, _ => rfl
  | _ + 5, _ => rfl

theorem ReadDMABuf_congr {scalefactors : ℕ → ScaleFactors} {conv : ℚ} {trig : TriggerInfo}
    (h : ∀ a ∈ dmaReads trig, mem a = mem' a) :
    ReadDMABuf mem scalefactors conv trig = ReadDMABuf mem' scalefactors conv trig := by
  simp only [dmaReads, copies] at h
  simp only [ReadDMABuf, copies]
  split at h
  · next hlt =>
    simp only [List.mem_append, or_imp, forall_and] at h
    rw [if_pos hlt, if_pos hlt, CopyDataChan_congr h.1.1, CopyDataChan_congr h.1.2,
      CopyDataChan_congr h.2]
  · next hge =>
    rw [if_neg hge, if_neg hge]
    split at h
    · next hlt =>
      simp only [List.mem_append, or_imp, forall_and] at h
      rw [if_pos hlt, if_pos hlt, CopyDataChan_congr h.1.1, CopyDataChan_congr h.1.2,
        CopyDataChan_congr h.2]
    · next hle =>
      rw [if_neg hle, if_neg hle, CopyDataChan_congr h]

/-- After invalidation of all that is read, the cache does not matter. -/
theorem fresh_of_invalidated {trig : TriggerInfo} (h : ∀ a ∈ dmaReads trig, Invalidated a)
    (mem : BitVec 32 → BitVec 32) (cached : BitVec 32 → Option (BitVec 32))
    (scalefactors : ℕ → ScaleFactors) (conv : ℚ) :
    ReadDMABuf (cpuMem mem cached) scalefactors conv trig =
      ReadDMABuf mem scalefactors conv trig :=
  ReadDMABuf_congr fun a ha => if_pos (h a ha)

/-! ## The reads as slots -/

/-- The addresses of slot `s` that belong to channel `c`. -/
def slotReads (c : Chan) (s : ℕ) : List (BitVec 32) :=
  (recordWords (2 + 8 * (chanNum c - 1))).map fun w => BitVec.ofNat 32 (slotAddr s + 4 * w)

theorem recordWords_lt (c : Chan) : ∀ w ∈ recordWords (2 + 8 * (chanNum c - 1)), w < 40 := by
  cases c <;> decide

/-- `CopyDataChan` on a stretch of `n` slots reads all of them. -/
theorem copyReads_eq {buf numwords : BitVec 32} {a n : ℕ} (hbuf : buf.toNat = slotAddr a)
    (hnum : numwords.toNat = 40 * n) (hn : a + n ≤ SLOTS) :
    copyReads buf numwords (chanNum c) = around (slotReads c) a n := by
  have hrecord : ∀ off j, recordReads buf off (40 * j) =
      (recordWords off).map fun w => BitVec.ofNat 32 (slotAddr (a + j) + 4 * w) := by
    intro off j
    have hofNat : buf = BitVec.ofNat 32 (slotAddr a) := by
      rw [← hbuf]
      simp
    refine List.map_congr_left ?_
    intro w _
    rw [hofNat, ← BitVec.ofNat_add, slotAddr_eq, slotAddr_eq]
    congr 1
    omega
  have hreads : copyReads buf numwords (chanNum c) =
      (loopIndices (40 * n)).flatMap (recordReads buf (2 + 8 * (chanNum c - 1))) := by
    rw [← hnum]
    cases c <;> rfl
  rw [hreads, around_of_le _ hn, loopIndices, List.flatMap_map,
    show (40 * n + 39) / 40 = n by omega]
  exact List.flatMap_congr fun j _ => hrecord _ j

/-- The reads of a snapshot around slot `k`, slot by slot. -/
theorem dmaReads_eq (trig : TriggerInfo) {k : ℕ} (hk : k < SLOTS)
    (haddr : trig.addr.toNat = slotAddr k) (hchan : trig.channum.toNat = chanNum c)
    (hsum : trig.pretrigpts.toNat + trig.posttrigpts.toNat ≤ SLOTS) :
    dmaReads trig = around (slotReads c) (k + SLOTS - trig.pretrigpts.toNat)
      (trig.pretrigpts.toNat + trig.posttrigpts.toNat) := by
  rw [dmaReads, hchan]
  exact copies_around (slotReads c) (fun hbuf hnum hn => copyReads_eq hbuf hnum hn) trig hk haddr
    hsum

theorem mem_around {α : Type*} {f : ℕ → List α} {a n : ℕ} {x : α} :
    x ∈ around f a n ↔ ∃ j < n, x ∈ f ((a + j) % SLOTS) := by
  simp [around, List.mem_flatMap]

/-! ## Which slots are covered -/

theorem toNat_slotReads {s w : ℕ} (hs : s < SLOTS) (hw : w < 40) :
    (BitVec.ofNat 32 (slotAddr s + 4 * w)).toNat = 0x10000000 + 160 * s + 4 * w := by
  rw [SLOTS] at hs
  rw [BitVec.toNat_ofNat, slotAddr_eq]
  omega

theorem inRing_slotReads {s : ℕ} (hs : s < SLOTS) : ∀ a ∈ slotReads c s, InRing a := by
  intro a ha
  obtain ⟨w, hw, rfl⟩ := List.mem_map.mp ha
  have hlt := recordWords_lt c w hw
  have h := toNat_slotReads hs hlt
  have hlen : BUFSTART.toNat = 0x10000000 ∧ BUFLEN.toNat = 160 * 200000 := ⟨rfl, rfl⟩
  rw [SLOTS] at hs
  rw [InRing, Within, h, hlen.1, hlen.2]
  omega

/-- The first half of the slots is invalidated, the second is not. -/
theorem invalidated_slotReads_iff {s : ℕ} (hs : s < SLOTS) :
    (∀ a ∈ slotReads c s, Invalidated a) ↔ s < 100000 := by
  constructor
  · intro h
    have h0 := h (BitVec.ofNat 32 (slotAddr s + 4 * 0)) (List.mem_map_of_mem List.mem_cons_self)
    rw [Invalidated, Within, toNat_slotReads hs (by omega)] at h0
    omega
  · intro hlt a ha
    obtain ⟨w, hw, rfl⟩ := List.mem_map.mp ha
    have hw40 := recordWords_lt c w hw
    rw [Invalidated, Within, toNat_slotReads hs hw40]
    omega

/-- The slots from `k - pre` up to `k + post` around the ring are in the first half exactly when
they do not wrap and end there. -/
theorem slots_lt_iff {k pre post : ℕ} (hk : k < SLOTS) (hsum : pre + post ≤ SLOTS) :
    (∀ j < pre + post, (k + SLOTS - pre + j) % SLOTS < 100000) ↔
      pre + post = 0 ∨ (pre ≤ k ∧ k + post ≤ 100000) := by
  have hS : SLOTS = 200000 := rfl
  rw [hS] at hk hsum ⊢
  constructor
  · intro h
    rcases Nat.eq_zero_or_pos (pre + post) with h0 | hpos
    · exact .inl h0
    refine .inr ?_
    -- a snapshot that wraps reads slot 199999
    have hpre : pre ≤ k := by
      by_contra hgt
      have hwrap := h (pre - k - 1) (by omega)
      rw [show k + 200000 - pre + (pre - k - 1) = 199999 by omega] at hwrap
      omega
    have hpost : k + post ≤ 200000 := by
      by_contra hgt
      have hwrap := h (199999 - k + pre) (by omega)
      rw [show k + 200000 - pre + (199999 - k + pre) = 199999 + 200000 by omega] at hwrap
      omega
    have hlast := h (pre + post - 1) (by omega)
    omega
  · rintro (h0 | ⟨hpre, hpost⟩) j hj
    · omega
    · omega

/-- A snapshot of any channel at any slot is covered exactly when it stays in the first half of the
ring. -/
theorem cacheCovered_iff (trig : TriggerInfo) {k : ℕ} (hk : k < SLOTS)
    (haddr : trig.addr.toNat = slotAddr k) {c : Chan} (hchan : trig.channum.toNat = chanNum c)
    (hsum : trig.pretrigpts.toNat + trig.posttrigpts.toNat ≤ SLOTS) :
    CacheCovered trig ↔ trig.pretrigpts.toNat + trig.posttrigpts.toNat = 0 ∨
      (trig.pretrigpts.toNat ≤ k ∧ k + trig.posttrigpts.toNat ≤ 100000) := by
  have hreads := dmaReads_eq trig hk haddr hchan hsum
  have hmod : ∀ x, x % SLOTS < SLOTS := fun x => Nat.mod_lt x (by decide)
  rw [← slots_lt_iff hk hsum]
  constructor
  · intro h j hj
    refine (invalidated_slotReads_iff (c := c) (hmod _)).mp fun a ha => h.invalidated a ?_
    rw [hreads]
    exact mem_around.mpr ⟨j, hj, ha⟩
  · intro h
    have hinv : ∀ a ∈ dmaReads trig, Invalidated a := by
      intro a ha
      rw [hreads] at ha
      obtain ⟨j, hj, ha⟩ := mem_around.mp ha
      exact (invalidated_slotReads_iff (hmod _)).mpr (h j hj) a ha
    refine ⟨fun a ha => ?_, hinv, fresh_of_invalidated hinv⟩
    rw [hreads] at ha
    obtain ⟨j, -, ha⟩ := mem_around.mp ha
    exact inRing_slotReads (hmod _) a ha

/-- A trigger at slot 10 of channel 3, with two records before it and three from it on. -/
theorem early_covered : CacheCovered ⟨0x10000640, 0, 2, 3, 0, 0, 0, 0, 3, 0⟩ :=
  (cacheCovered_iff ⟨0x10000640, 0, 2, 3, 0, 0, 0, 0, 3, 0⟩ (k := 10) (by decide) rfl (c := .ps3) rfl
    (by decide)).mpr (.inr (by decide))

/-- A trigger at slot 150000 of channel 1 and one record: its header, at 24000000 bytes from the
start of the ring, is read without having been invalidated. -/
theorem late_not_covered : ¬ CacheCovered ⟨0x116E3600, 0, 0, 1, 0, 0, 0, 0, 1, 0⟩ := by
  intro h
  have hmem : 0x116E3600 ∈ dmaReads ⟨0x116E3600, 0, 0, 1, 0, 0, 0, 0, 1, 0⟩ := by decide
  exact absurd (h.invalidated _ hmem) (by decide)

end Zpsc.Snapshot
