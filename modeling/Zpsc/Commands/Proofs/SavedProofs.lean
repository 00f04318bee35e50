import Zpsc.Commands.Proofs.CommandProofs
import Zpsc.Commands.Saved

/-!
# Settings survive in flash

`Holds` is what carries the argument: the write of a channel establishes it
(`holds_writeQspi`), other commands keep it since they leave the sector alone
(`flash_run`), and a read turns it into registers and scale factors
(`regs_readQspi`, `scalefactors_readQspi`).
-/

namespace Zpsc.Commands

open Bits Effects Cmd PscMsg

/-! ## Words in memory -/

theorem le32At_zero (w : BitVec 32) (rest : List Byte) : le32At (toLe32 w ++ rest) 0 = w :=
  be32_extract w

theorem le32At_succ (w : BitVec 32) (rest : List Byte) (i : ℕ) :
    le32At (toLe32 w ++ rest) (i + 1) = le32At rest i := rfl

theorem length_flatMap_toLe32 (ws : List (BitVec 32)) :
    (ws.flatMap toLe32).length = 4 * ws.length := by
  simp [List.length_flatMap, toLe32, toBe32, Nat.mul_comm]

/-- The words of a buffer that starts with words. -/
theorem le32At_flatMap (ws : List (BitVec 32)) (rest : List Byte) {i : ℕ} (h : i < ws.length) :
    le32At (ws.flatMap toLe32 ++ rest) i = ws.getD i 0 := by
  induction ws generalizing i with
  | nil => exact absurd h (Nat.not_lt_zero i)
  | cons w ws ih =>
    rw [List.flatMap_cons, List.append_assoc]
    cases i with
    | zero => exact le32At_zero w _
    | succ i =>
      rw [le32At_succ, List.getD_cons_succ]
      exact ih (Nat.lt_of_succ_lt_succ h)

/-! ## One transfer -/

section Transfers

variable (c : Chan) (d : Nor)

theorem flashAddr_num : flashAddr (BitVec.ofNat 8 c.num) 0 0 = c.num * FLASH_SECTOR_SIZE := by
  cases c <;> rfl

/-- A read transfer returns the cells behind four bytes. -/
theorem getD_reply (bs : List Byte) {n : ℕ} (h4 : 4 ≤ n) (hn : n < bs.length + 4) :
    (Nor.reply (FLASH_READ_CMD :: addrBytes (sectorAddr c.u32) ++ bs) d).getD n 0 =
      d.cells (c.num * FLASH_SECTOR_SIZE + (n - 4)) := by
  obtain ⟨m, rfl⟩ := Nat.exists_eq_add_of_le' h4
  have hm : m < bs.length := Nat.lt_of_add_lt_add_right hn
  rw [flashAddr_sectorAddr]
  simp only [List.cons_append, List.nil_append, Nor.reply, if_pos, flashAddr_num,
    List.getD_cons_succ, Nat.add_sub_cancel]
  rw [List.getD_eq_getElem?_getD, List.getElem?_mapIdx, List.getElem?_eq_getElem hm]
  rfl

/-- The cells of a page that is programmed after an erase. -/
theorem cells_erase_write (bs : List Byte) {n : ℕ} (hn : n < FLASH_PAGE_SIZE) :
    ((d.erase (c.num * FLASH_SECTOR_SIZE)).write (c.num * FLASH_SECTOR_SIZE) bs).cells
      (c.num * FLASH_SECTOR_SIZE + n) = bs.getD n 0xFF := by
  simp only [FLASH_PAGE_SIZE] at hn
  have hpage : (c.num * FLASH_SECTOR_SIZE + n) / FLASH_PAGE_SIZE =
      c.num * FLASH_SECTOR_SIZE / FLASH_PAGE_SIZE := by
    simp only [FLASH_SECTOR_SIZE, FLASH_PAGE_SIZE]
    omega
  have hsect : (c.num * FLASH_SECTOR_SIZE + n) / FLASH_SECTOR_SIZE =
      c.num * FLASH_SECTOR_SIZE / FLASH_SECTOR_SIZE := by
    simp only [FLASH_SECTOR_SIZE]
    omega
  have hidx : (c.num * FLASH_SECTOR_SIZE + n + FLASH_PAGE_SIZE -
      c.num * FLASH_SECTOR_SIZE % FLASH_PAGE_SIZE) % FLASH_PAGE_SIZE = n := by
    simp only [FLASH_SECTOR_SIZE, FLASH_PAGE_SIZE]
    omega
  simp only [Nor.write, Nor.erase, if_pos hpage, if_pos hsect, hidx]
  exact BitVec.allOnes_and

end Transfers

/-! ## The handlers on the chip -/

theorem final_transfer (send : List Byte) (s : Psc Nor) :
    (XQspiPs_PolledTransfer send : Sw Nor (List Byte)).final s =
      { s with flash := s.flash.transfer send } := rfl

theorem final_waitReady (s : Psc Nor) : (waitReady : Sw Nor Unit).final s = s := by
  have hone : Emits (· = Eff.transfer ReadStatusCmd)
      (emit (.transfer ReadStatusCmd) : Sw Nor Unit) := emits_emit rfl
  have hemit : Emits (· = Eff.transfer ReadStatusCmd) (waitReady : Sw Nor Unit) := by
    refine (emits_get _).bind fun n => emits_forM _ fun _ _ => ?_
    refine Emits.bind ?_ fun _ => emits_pure _
    exact (emits_get _).bind fun _ => hone.bind fun _ => emits_pure _
  refine applyAll_keeps id _ s ?_
  intro e he s'
  rw [hemit s e he]
  rfl

theorem final_erase (c : Chan) (s : Psc Nor) :
    (QspiFlashEraseSect c.u32 : Sw Nor Unit).final s =
      { s with flash := s.flash.erase (c.num * FLASH_SECTOR_SIZE) } := by
  have haddr : addrBytes (c.u32 * BitVec.ofNat 32 FLASH_SECTOR_SIZE) =
      [BitVec.ofNat 8 c.num, 0, 0] := flashAddr_sectorAddr c
  simp only [QspiFlashEraseSect, final_bind, final_transfer, final_waitReady, haddr]
  rw [← flashAddr_num]
  rfl

theorem final_write (c : Chan) (buf : List Byte) (s : Psc Nor) :
    (QspiFlashWrite (sectorAddr c.u32) FLASH_PAGE_SIZE buf : Sw Nor Unit).final s =
      { s with
        flash := s.flash.write (c.num * FLASH_SECTOR_SIZE)
          ((buf.drop 4).take (FLASH_PAGE_SIZE - 4)) } := by
  simp only [QspiFlashWrite, final_bind, final_transfer, final_waitReady, flashAddr_sectorAddr]
  rw [← flashAddr_num]
  rfl

/-- The buffer that a write sends. -/
def gathered (stack : Stack) (c : Chan) (s : Psc Nor) : List Byte :=
  (stack.header :: (qspiRegs.map fun r => s.regs (chanReg c.u32 r.offset)) ++
      qspiSfs.map fun f => s.scalefactors (c.u32 - 1) f).flatMap toLe32 ++
    stack.qspibuf.drop 180

theorem value_gather (stack : Stack) (c : Chan) (s : Psc Nor) :
    (QspiGatherData stack c.u32 stack.qspibuf : Sw Nor (List Byte)).value s =
      gathered stack c s := by
  simp only [QspiGatherData, value_bind, value_pure, value_get, final_get, length_flatMap_toLe32]
  rfl

/-- The state between the write and the read back. -/
def programmed (stack : Stack) (c : Chan) (s : Psc Nor) : Psc Nor :=
  { s with
    flash := (s.flash.erase (c.num * FLASH_SECTOR_SIZE)).write (c.num * FLASH_SECTOR_SIZE)
      (((gathered stack c s).drop 4).take (FLASH_PAGE_SIZE - 4)) }

theorem final_writeQspi (stack : Stack) (c : Chan) (s : Psc Nor) :
    (writeQspi stack c.u32 : Sw Nor Unit).final s =
      (readQspi stack c.u32 : Sw Nor Unit).final (programmed stack c s) := by
  have hgather : ∀ s', (QspiGatherData stack c.u32 stack.qspibuf : Sw Nor (List Byte)).final s' =
      s' := fun _ => rfl
  simp only [writeQspi, final_bind, final_erase, value_gather, hgather, final_write]
  rfl

/-! ## What a write leaves in the sector -/

theorem length_gathered (stack : Stack) (c : Chan) (s : Psc Nor) :
    180 ≤ (gathered stack c s).length := by
  rw [gathered, List.length_append, length_flatMap_toLe32]
  simp only [List.length_append, List.length_cons, List.length_map, qspiRegs, qspiSfs,
    List.length_nil]
  omega

/-- The word `i` in the sector is the word `i` of the buffer. -/
theorem savedWord_programmed (stack : Stack) (c : Chan) (s : Psc Nor) {i : ℕ} (h1 : 1 ≤ i)
    (h2 : i ≤ 44) :
    savedWord (programmed stack c s).flash c i = le32At (gathered stack c s) i := by
  have hlen := length_gathered stack c s
  have hcell : ∀ j < 4, (programmed stack c s).flash.cells
      (c.num * FLASH_SECTOR_SIZE + (4 * i - 4 + j)) = (gathered stack c s).getD (4 * i + j) 0 := by
    intro j hj
    have hn : 4 * i - 4 + j < FLASH_PAGE_SIZE := by simp only [FLASH_PAGE_SIZE]; omega
    have htake : 4 * i - 4 + j < FLASH_PAGE_SIZE - 4 := by simp only [FLASH_PAGE_SIZE]; omega
    have hidx : 4 + (4 * i - 4 + j) = 4 * i + j := by omega
    have hlt : 4 * i + j < (gathered stack c s).length := by omega
    simp only [programmed]
    rw [cells_erase_write c s.flash _ hn, List.getD_eq_getElem?_getD,
      List.getElem?_take_of_lt htake, List.getElem?_drop, hidx, List.getD_eq_getElem?_getD,
      List.getElem?_eq_getElem hlt]
    rfl
  have h0 := hcell 0 (by decide)
  simp only [Nat.add_zero] at h0
  simp only [savedWord, le32At, Nat.add_assoc, h0, hcell 1 (by decide), hcell 2 (by decide),
    hcell 3 (by decide)]

theorem holds_programmed (stack : Stack) (c : Chan) (s : Psc Nor) :
    Holds (programmed stack c s).flash c s := by
  have hwords : ∀ i, 1 ≤ i → i ≤ 44 → savedWord (programmed stack c s).flash c i =
      (stack.header :: (qspiRegs.map fun r => s.regs (chanReg c.u32 r.offset)) ++
        qspiSfs.map fun f => s.scalefactors (c.u32 - 1) f).getD i 0 := by
    intro i h1 h2
    rw [savedWord_programmed stack c s h1 h2, gathered]
    refine le32At_flatMap _ _ ?_
    simp only [List.length_append, List.length_cons, List.length_map, qspiRegs, qspiSfs,
      List.length_nil]
    omega
  refine ⟨?_, ?_⟩
  · rintro ⟨r, i⟩ hx
    obtain ⟨h1, hr⟩ := List.mem_zipIdx_iff_le_and_getElem?_sub.mp hx
    obtain ⟨j, rfl⟩ := Nat.exists_eq_add_of_le' h1
    rw [Nat.add_sub_cancel] at hr
    have hlt : j < 37 := (List.getElem?_eq_some_iff.mp hr).1
    rw [hwords (j + 1) h1 (by omega), List.cons_append, List.getD_cons_succ,
      List.getD_eq_getElem?_getD, List.getElem?_append_left (by rwa [List.length_map]),
      List.getElem?_map, hr]
    rfl
  · rintro ⟨f, i⟩ hx
    obtain ⟨h1, hf⟩ := List.mem_zipIdx_iff_le_and_getElem?_sub.mp hx
    obtain ⟨j, rfl⟩ := Nat.exists_eq_add_of_le' h1
    rw [Nat.add_sub_cancel] at hf
    have hlt : j < 7 := (List.getElem?_eq_some_iff.mp hf).1
    have hlen : (qspiRegs.map fun r => s.regs (chanReg c.u32 r.offset)).length = 37 := rfl
    show savedWord (programmed stack c s).flash c (j + (37 + 1)) = s.scalefactors (c.u32 - 1) f
    rw [hwords (j + (37 + 1)) (by omega) (by omega), List.cons_append, ← Nat.add_assoc,
      List.getD_cons_succ, List.getD_eq_getElem?_getD,
      List.getElem?_append_right (by omega), hlen, Nat.add_sub_cancel, List.getElem?_map, hf]
    rfl

/-! ## What a read does -/

section Read

variable {φ : Type} [FlashChip φ]

/-- The bytes that a read sends. -/
def readCmd (stack : Stack) (chan : BitVec 32) : List Byte :=
  FLASH_READ_CMD :: addrBytes (sectorAddr chan) ++ stack.past.take (FLASH_PAGE_SIZE - 4)

theorem effects_readQspi (stack : Stack) (chan : BitVec 32) (s : Psc φ) :
    let buf := FlashChip.reply (readCmd stack chan) s.flash
    (readQspi stack chan : Sw φ Unit).effects s =
      .transfer (readCmd stack chan) ::
        (qspiRegs.zipIdx 1).map (fun x => .out32 (chanReg chan x.1.offset) (le32At buf x.2)) ++
        (qspiSfs.zipIdx (qspiRegs.length + 1)).map
          (fun x => .setSf (chan - 1) x.1 (le32At buf x.2)) := by
  intro buf
  have h : (readQspi stack chan : Sw φ Unit).effects s =
      .transfer (readCmd stack chan) :: ((QspiDisperseData chan buf : Sw φ Unit).effects
        (applyAll [Eff.transfer (readCmd stack chan)] s)) := rfl
  rw [h, QspiDisperseData, effects_bind]
  simp only [Xil_Out32, setScalefactor, effects_forM_emit, List.cons_append]

theorem mem_out_readQspi {stack : Stack} {chan : BitVec 32} {s : Psc φ} {a : ℕ} {v : BitVec 32} :
    .out32 a v ∈ (readQspi stack chan : Sw φ Unit).effects s ↔
      ∃ x ∈ qspiRegs.zipIdx 1, a = chanReg chan x.1.offset ∧
        v = le32At (FlashChip.reply (readCmd stack chan) s.flash) x.2 := by
  rw [effects_readQspi]
  simp only [List.cons_append, List.mem_cons, reduceCtorEq, false_or, List.mem_append, List.mem_map,
    Eff.out32.injEq, and_false, exists_false, or_false, eq_comm]

theorem mem_setSf_readQspi {stack : Stack} {chan i : BitVec 32} {s : Psc φ} {f : Sf}
    {w : BitVec 32} :
    .setSf i f w ∈ (readQspi stack chan : Sw φ Unit).effects s ↔
      ∃ x ∈ qspiSfs.zipIdx (qspiRegs.length + 1), i = chan - 1 ∧ f = x.1 ∧
        w = le32At (FlashChip.reply (readCmd stack chan) s.flash) x.2 := by
  rw [effects_readQspi]
  simp only [List.cons_append, List.mem_cons, reduceCtorEq, false_or, List.mem_append, List.mem_map,
    Eff.setSf.injEq, and_false, exists_false, eq_comm]

/-- No register is twice in the list. -/
theorem qspiRegs_zipIdx : ∀ x ∈ qspiRegs.zipIdx 1, x.2 = qspiRegs.idxOf x.1 + 1 := by
  decide

theorem qspiSfs_zipIdx :
    ∀ x ∈ qspiSfs.zipIdx (qspiRegs.length + 1), x.2 = qspiSfs.idxOf x.1 + 38 := by
  decide

theorem qspiRegs_index : ∀ x ∈ qspiRegs.zipIdx 1, 1 ≤ x.2 ∧ x.2 ≤ 44 := by
  decide

theorem qspiSfs_index : ∀ x ∈ qspiSfs.zipIdx (qspiRegs.length + 1), 1 ≤ x.2 ∧ x.2 ≤ 44 := by
  decide

variable (stack : Stack) (c : Chan) (s : Psc φ)

theorem regs_readQspi {r : ChanReg} {i : ℕ} (hi : (r, i) ∈ qspiRegs.zipIdx 1) :
    ((readQspi stack c.u32 : Sw φ Unit).final s).regs (chanAddr c r) =
      ((le32At (FlashChip.reply (readCmd stack c.u32) s.flash) i).setWidth
        r.width).setWidth 32 := by
  rw [final]
  refine reg_of_mem (mem_out_readQspi.mpr ⟨(r, i), hi, (chanReg_eq_chanAddr c r).symm, rfl⟩) ?_ s
  intro v' hv'
  obtain ⟨y, hy, ha, rfl⟩ := mem_out_readQspi.mp hv'
  rw [chanReg_eq_chanAddr] at ha
  have hidx : i = qspiRegs.idxOf r + 1 := qspiRegs_zipIdx (r, i) hi
  rw [hidx, qspiRegs_zipIdx y hy, (chanAddr_inj ha).2]

theorem bus_readQspi {a : ℕ} (ha : ∀ r ∈ qspiRegs, a ≠ chanAddr c r) :
    ((readQspi stack c.u32 : Sw φ Unit).final s).regs a = s.regs a := by
  rw [final]
  refine reg_of_not_mem (fun v hv => ?_) s
  obtain ⟨x, hx, rfl, -⟩ := mem_out_readQspi.mp hv
  exact ha x.1 (List.fst_mem_of_mem_zipIdx hx) (chanReg_eq_chanAddr c x.1)

theorem scalefactors_readQspi {f : Sf} {i : ℕ}
    (hi : (f, i) ∈ qspiSfs.zipIdx (qspiRegs.length + 1)) :
    ((readQspi stack c.u32 : Sw φ Unit).final s).scalefactors (c.u32 - 1) f =
      le32At (FlashChip.reply (readCmd stack c.u32) s.flash) i := by
  have hmem : Eff.setSf (c.u32 - 1) f
      (le32At (FlashChip.reply (readCmd stack c.u32) s.flash) i) ∈
        (readQspi stack c.u32 : Sw φ Unit).effects s :=
    mem_setSf_readQspi.mpr ⟨(f, i), hi, rfl, rfl, rfl⟩
  rw [final, sf_of_mem hmem]
  intro w' hw'
  obtain ⟨y, hy, -, hf, rfl⟩ := mem_setSf_readQspi.mp hw'
  have hidx : i = qspiSfs.idxOf f + 38 := qspiSfs_zipIdx (f, i) hi
  rw [hidx, qspiSfs_zipIdx y hy, hf]

theorem scalefactors_readQspi_ne {i : BitVec 32} (hi : i ≠ c.u32 - 1) (f : Sf) :
    ((readQspi stack c.u32 : Sw φ Unit).final s).scalefactors i f = s.scalefactors i f := by
  rw [final]
  refine sf_of_not_mem (fun w hw => ?_) s
  obtain ⟨x, -, hi', -⟩ := mem_setSf_readQspi.mp hw
  exact hi hi'

end Read

/-- Every scale factor is saved. -/
theorem exists_mem_qspiSfs (f : Sf) : ∃ i, (f, i) ∈ qspiSfs.zipIdx (qspiRegs.length + 1) := by
  have hf : f ∈ qspiSfs := by cases f <;> decide
  obtain ⟨i, hi, rfl⟩ := List.mem_iff_getElem.mp hf
  exact ⟨_, List.mk_add_mem_zipIdx_iff_getElem?.mpr (List.getElem?_eq_getElem hi)⟩

theorem exists_mem_qspiRegs {r : ChanReg} (h : r ∈ qspiRegs) : ∃ i, (r, i) ∈ qspiRegs.zipIdx 1 := by
  obtain ⟨i, hi, rfl⟩ := List.mem_iff_getElem.mp h
  exact ⟨_, List.mk_add_mem_zipIdx_iff_getElem?.mpr (List.getElem?_eq_getElem hi)⟩

/-- A read returns the words of the sector. -/
theorem le32At_reply (k : Locals) (c : Chan) (d : Nor) {i : ℕ} (h1 : 1 ≤ i) (h2 : i ≤ 44) :
    le32At (FlashChip.reply (readCmd k.toStack c.u32) d) i = savedWord d c i := by
  have hlen : (k.past.take (FLASH_PAGE_SIZE - 4)).length = 252 :=
    List.length_take_of_le k.past_length
  have hcell : ∀ j < 4, (FlashChip.reply (readCmd k.toStack c.u32) d).getD (4 * i + j) 0 =
      d.cells (c.num * FLASH_SECTOR_SIZE + (4 * i - 4 + j)) := by
    intro j hj
    show (Nor.reply (readCmd k.toStack c.u32) d).getD (4 * i + j) 0 = _
    rw [readCmd, getD_reply c d _ (by omega) (by omega),
      show 4 * i + j - 4 = 4 * i - 4 + j by omega]
  have h0 := hcell 0 (by decide)
  simp only [Nat.add_zero] at h0
  simp only [savedWord, le32At, Nat.add_assoc, h0, hcell 1 (by decide), hcell 2 (by decide),
    hcell 3 (by decide)]

/-! ## Other commands leave the sector alone -/

section Frame

variable {φ F : Type} [FlashChip φ] [Fpu F] {c : Chan} {i : ℕ}

theorem toNat_sectorAddr (chan : BitVec 32) :
    (sectorAddr chan).toNat = chan.toNat % 2 ^ 16 * 2 ^ 16 := by
  simp only [sectorAddr, FLASH_SECTOR_SIZE, BitVec.toNat_mul, BitVec.toNat_ofNat]
  omega

/-- Of the number of a channel the address of its sector keeps the low byte. -/
theorem addrBytes_sectorAddr (chan : BitVec 32) :
    addrBytes (sectorAddr chan) = [chan.setWidth 8, 0, 0] := by
  have hbyte : ∀ k, ((sectorAddr chan).extractLsb' k 8).toNat =
      chan.toNat % 2 ^ 16 * 2 ^ 16 / 2 ^ k % 2 ^ 8 := by
    intro k
    rw [BitVec.extractLsb'_toNat, toNat_sectorAddr, Nat.shiftRight_eq_div_pow]
  have h2 : (sectorAddr chan).extractLsb' 16 8 = chan.setWidth 8 := by
    refine BitVec.eq_of_toNat_eq ?_
    rw [hbyte, BitVec.toNat_setWidth]
    omega
  have h1 : (sectorAddr chan).extractLsb' 8 8 = 0 :=
    BitVec.eq_of_toNat_eq ((hbyte 8).trans (show _ = 0 by omega))
  have h0 : (sectorAddr chan).extractLsb' 0 8 = 0 :=
    BitVec.eq_of_toNat_eq ((hbyte 0).trans (show _ = 0 by omega))
  rw [addrBytes, h2, h1, h0]

theorem flashAddr_low (chan : BitVec 32) :
    flashAddr (chan.setWidth 8) 0 0 = chan.toNat % 256 * FLASH_SECTOR_SIZE := by
  simp [flashAddr, FLASH_SECTOR_SIZE]

/-- Transfers of a message change no cell outside the sector of its channel number. -/
theorem cell_transfers {chan : BitVec 32} {m : ChanMsg} {send : List Byte}
    (h : m.Transfers chan send) (hm : m = .WRITE_QSPI_MSG → chan.toNat % 256 ≠ c.num)
    (hi : InSector c i) (d : φ) :
    FlashChip.cell (FlashChip.transfer send d) i = FlashChip.cell d i := by
  have hsect : m = .WRITE_QSPI_MSG →
      i / FLASH_SECTOR_SIZE ≠ flashAddr (chan.setWidth 8) 0 0 / FLASH_SECTOR_SIZE := by
    intro hw hne
    rw [flashAddr_low, Nat.mul_div_cancel _ (by decide), show i / FLASH_SECTOR_SIZE = c.num from hi]
      at hne
    exact hm hw hne.symm
  cases h with
  | quiet _ cmd bs _ h => exact FlashChip.quiet_cell cmd bs d i h
  | erase =>
    rw [addrBytes_sectorAddr]
    exact FlashChip.erase_cell _ _ _ d i (hsect rfl)
  | write bs =>
    rw [addrBytes_sectorAddr]
    refine FlashChip.write_cell _ _ _ bs d i fun hpage => hsect rfl ?_
    -- a page lies in one sector
    simp only [FLASH_SECTOR_SIZE, FLASH_PAGE_SIZE] at hpage ⊢
    omega

theorem cell_chanCommand {stack : Stack} {chan data : BitVec 32} {m : ChanMsg}
    (hnot : ¬ (m = .WRITE_QSPI_MSG ∧ data = 1 ∧ chan.toNat % 256 = c.num)) (hi : InSector c i)
    (s : Psc φ) :
    FlashChip.cell ((chanCommand F stack chan data m : Sw φ Unit).final s).flash i =
      FlashChip.cell s.flash i := by
  rw [final]
  refine applyAll_keeps (fun s : Psc φ => FlashChip.cell s.flash i) _ s fun (e : Eff) he s' => ?_
  cases e with
  | out32 | setSf => rfl
  | transfer send =>
    obtain ⟨hT, -⟩ := transfer_reach stack he
    refine cell_transfers hT (fun hm hlow => ?_) hi s'.flash
    have hdata : data = 1 := by
      by_contra hne
      simp only [hm, chanCommand, if_neg hne] at he
      exact List.not_mem_nil he
    exact hnot ⟨hm, hdata, hlow⟩

theorem flash_general {es : List Eff} (h : ∀ e ∈ es, e.General) (s : Psc φ) :
    (applyAll es s).flash = s.flash :=
  flash_of_not_mem (fun _ he => h _ he) s

theorem cell_run {cmd : Command} (hcmd : ¬ cmd.Saves c) (hi : InSector c i) (s : Psc φ) :
    FlashChip.cell ((cmd.run F : Sw φ Unit).final s).flash i = FlashChip.cell s.flash i := by
  rcases cmd.final_run_cases (F := F) s with
    ⟨chan, m, data, pre, hmsg, hpre, hf⟩ | ⟨es, -, hes, hf⟩
  · rw [hf, cell_chanCommand ?_ hi, flash_general hpre]
    rintro ⟨rfl, rfl, hlow⟩
    exact hcmd ⟨chan, hmsg, hlow⟩
  · rw [hf, flash_general hes]

/-- Over any commands but a write of the channel, its sector stays. -/
theorem cell_runAll {cmds : List Command} (h : ∀ cmd ∈ cmds, ¬ cmd.Saves c) (hi : InSector c i)
    (s : Psc φ) :
    FlashChip.cell (Command.runAll F cmds s).flash i = FlashChip.cell s.flash i := by
  induction cmds generalizing s with
  | nil => rfl
  | cons cmd cmds ih =>
    calc FlashChip.cell (Command.runAll F (cmd :: cmds) s).flash i
        = FlashChip.cell ((cmd.run F : Sw φ Unit).final s).flash i :=
          ih (fun x hx => h x (List.mem_cons_of_mem _ hx)) _
      _ = FlashChip.cell s.flash i := cell_run (h cmd List.mem_cons_self) hi s

end Frame

/-! ## Writing and reading -/

section Survive

variable (k : Locals) (c : Chan)

theorem flash_readQspi (stack : Stack) (s : Psc Nor) :
    ((readQspi stack c.u32 : Sw Nor Unit).final s).flash = s.flash := by
  rw [final]
  refine applyAll_keeps (fun s : Psc Nor => s.flash) _ s fun (e : Eff) he s' => ?_
  cases e with
  | out32 | setSf => rfl
  | transfer send =>
    obtain rfl : send = readCmd stack c.u32 := by
      rw [effects_readQspi] at he
      simpa using he
    show s'.flash.transfer (readCmd stack c.u32) = s'.flash
    rw [readCmd, flashAddr_sectorAddr]
    rfl

/-- What a read gives where the sector holds the settings of `s`. -/
theorem restored_readQspi {s s' : Psc Nor} (h : Holds s'.flash c s) :
    Restored c s ((readQspi k.toStack c.u32 : Sw Nor Unit).final s') := by
  refine ⟨fun r hr => ?_, fun f => ?_⟩
  · obtain ⟨i, hi⟩ := exists_mem_qspiRegs hr
    obtain ⟨h1, h2⟩ := qspiRegs_index (r, i) hi
    simp only [Bus.regFile]
    rw [regs_readQspi k.toStack c s' hi, le32At_reply k c s'.flash h1 h2,
      setWidth_field r.width_le, ← chanReg_eq_chanAddr, h.regs (r, i) hi]
  · obtain ⟨i, hi⟩ := exists_mem_qspiSfs f
    obtain ⟨h1, h2⟩ := qspiSfs_index (f, i) hi
    rw [scalefactors_readQspi k.toStack c s' hi, le32At_reply k c s'.flash h1 h2,
      h.scalefactors (f, i) hi]

theorem glob_readQspi (stack : Stack) (s : Psc Nor) (g : GlobReg) :
    ((readQspi stack c.u32 : Sw Nor Unit).final s).regs.regFile.glob g = s.regs.regFile.glob g := by
  simp only [Bus.regFile]
  rw [bus_readQspi stack c s fun r _ => g.offset_ne_chanAddr c r]

theorem chan_readQspi (stack : Stack) (s : Psc Nor) (c' : Chan) (r : ChanReg)
    (h : ¬ (c' = c ∧ r ∈ qspiRegs)) :
    ((readQspi stack c.u32 : Sw Nor Unit).final s).regs.regFile.chan c' r =
      s.regs.regFile.chan c' r := by
  simp only [Bus.regFile]
  rw [bus_readQspi stack c s fun r' hr' e => ?_]
  obtain ⟨rfl, rfl⟩ := chanAddr_inj e
  exact h ⟨rfl, hr'⟩

theorem cells_programmed (stack : Stack) (s : Psc Nor) {i : ℕ} (hi : ¬ InSector c i) :
    (programmed stack c s).flash.cells i = s.flash.cells i := by
  have hpage : i / FLASH_PAGE_SIZE ≠ c.num * FLASH_SECTOR_SIZE / FLASH_PAGE_SIZE := by
    intro e
    refine hi ?_
    simp only [InSector, FLASH_SECTOR_SIZE, FLASH_PAGE_SIZE] at e ⊢
    omega
  have hsect : i / FLASH_SECTOR_SIZE ≠ c.num * FLASH_SECTOR_SIZE / FLASH_SECTOR_SIZE := by
    rw [Nat.mul_div_cancel _ (by decide)]
    exact hi
  rw [programmed, Nor.write_cell _ _ _ _ hpage, Nor.erase_cell _ _ _ hsect]

/-- The read back at the end of a write changes nothing. -/
theorem unchanged_writeQspi (s : Psc Nor) :
    Unchanged c s ((writeQspi k.toStack c.u32 : Sw Nor Unit).final s) := by
  rw [final_writeQspi]
  have hres : Restored c s ((readQspi k.toStack c.u32).final (programmed k.toStack c s)) :=
    restored_readQspi k c (holds_programmed k.toStack c s)
  have hbus : ∀ a, (∀ r, a ≠ chanAddr c r) →
      ((readQspi k.toStack c.u32 : Sw Nor Unit).final (programmed k.toStack c s)).regs a =
        s.regs a :=
    fun a ha => bus_readQspi k.toStack c (programmed k.toStack c s) fun r _ => ha r
  refine ⟨?_, hbus, ?_, fun i hi => ?_⟩
  · refine RegFile.ext (funext fun g => ?_) (funext fun c' => funext fun r => ?_)
    · exact glob_readQspi c k.toStack (programmed k.toStack c s) g
    · by_cases h : c' = c ∧ r ∈ qspiRegs
      · obtain ⟨rfl, hr⟩ := h
        exact hres.regs r hr
      · exact chan_readQspi c k.toStack (programmed k.toStack c s) c' r h
  · funext i f
    by_cases hi : i = c.u32 - 1
    · rw [hi]
      exact hres.scalefactors f
    · exact scalefactors_readQspi_ne k.toStack c (programmed k.toStack c s) hi f
  · rw [flash_readQspi]
    exact cells_programmed c k.toStack s hi

/-- What the sector holds after a write. -/
theorem holds_writeQspi (s : Psc Nor) :
    Holds ((writeQspi k.toStack c.u32 : Sw Nor Unit).final s).flash c s := by
  rw [final_writeQspi, flash_readQspi]
  exact holds_programmed k.toStack c s

end Survive

/-- Only the sector counts. -/
theorem Holds.congr {c : Chan} {d d' : Nor} {s : Psc Nor} (h : Holds d c s)
    (hcells : ∀ i, InSector c i → d'.cells i = d.cells i) : Holds d' c s := by
  have hcell : ∀ n < 256, d'.cells (c.num * FLASH_SECTOR_SIZE + n) =
      d.cells (c.num * FLASH_SECTOR_SIZE + n) := by
    intro n hn
    refine hcells _ ?_
    simp only [InSector, FLASH_SECTOR_SIZE]
    omega
  have hword : ∀ i, 1 ≤ i ∧ i ≤ 44 → savedWord d' c i = savedWord d c i := by
    rintro i ⟨h1, h2⟩
    simp only [savedWord, Nat.add_assoc]
    rw [hcell _ (by omega), hcell _ (by omega), hcell _ (by omega), hcell _ (by omega)]
  refine ⟨fun x hx => ?_, fun x hx => ?_⟩
  · rw [hword _ (qspiRegs_index x hx)]
    exact h.regs x hx
  · rw [hword _ (qspiSfs_index x hx)]
    exact h.scalefactors x hx

/-- For every state, all commands in between and all that the stacks hold: a write changes only the
sector, and a read gives back what was written. -/
theorem settings_survive (F : Type) [Fpu F] (c : Chan) (k k' : Locals) (msg msg' : Buf)
    (len len' : BitVec 32) (cmds : List Command) (s : Psc Nor)
    (hwrite : msgWord msg 0 = 400 ∧ msgWord msg 1 = 1)
    (hread : msgWord msg' 0 = 404 ∧ msgWord msg' 1 = 1) (hcmds : ∀ cmd ∈ cmds, ¬ cmd.Saves c) :
    let saved := (chan_settings F k.toStack c.u32 msg len).final s
    let used := Command.runAll F cmds saved
    Unchanged c s saved ∧
      Restored c s ((chan_settings F k'.toStack c.u32 msg' len').final used) := by
  intro saved used
  have hw : (chan_settings F k.toStack c.u32 msg len : Sw Nor Unit) =
      writeQspi k.toStack c.u32 := by
    unfold chan_settings
    rw [hwrite.1, hwrite.2]
    rfl
  have hr : (chan_settings F k'.toStack c.u32 msg' len' : Sw Nor Unit) =
      readQspi k'.toStack c.u32 := by
    unfold chan_settings
    rw [hread.1, hread.2]
    rfl
  have hsaved : saved = (writeQspi k.toStack c.u32 : Sw Nor Unit).final s := by rw [← hw]
  have hheld : Holds used.flash c s := by
    refine Holds.congr (d := saved.flash) ?_ fun i hi => cell_runAll hcmds hi saved
    rw [hsaved]
    exact holds_writeQspi k c s
  rw [hr]
  refine ⟨?_, restored_readQspi k' c hheld⟩
  rw [hsaved]
  exact unchanged_writeQspi k c s

/-- A page of zeros. -/
def zeroLocals : Locals where
  qspibuf := List.replicate 256 0
  header := 0
  past := List.replicate 252 0
  qspibuf_length := List.length_replicate
  past_length := List.length_replicate.ge

/-- A new fault mask and a write of channel 258 in between, which goes to sector 2. -/
theorem settings_survive_mask :
    let cmds := [.console zeroLocals.toStack 1 264 5, .console zeroLocals.toStack 258 400 1]
    let saved := (chan_settings Float zeroLocals.toStack Chan.ps1.u32 (msgBuf 400 1) 8).final blank
    Unchanged .ps1 blank saved ∧
      Restored .ps1 blank
        ((chan_settings Float zeroLocals.toStack Chan.ps1.u32 (msgBuf 404 1) 8).final
          (Command.runAll Float cmds saved)) := by
  refine settings_survive Float .ps1 zeroLocals zeroLocals (msgBuf 400 1) (msgBuf 404 1) 8 8
    [.console zeroLocals.toStack 1 264 5, .console zeroLocals.toStack 258 400 1] blank
    (msgWord_msgBuf 400 1) (msgWord_msgBuf 404 1) fun cmd hcmd => ?_
  simp only [List.mem_cons, List.not_mem_nil, or_false] at hcmd
  rcases hcmd with rfl | rfl
  · rintro ⟨chan, h, -⟩
    have hm : ChanMsg.word .FAULT_MASK_MSG = .WRITE_QSPI_MSG :=
      congrArg (fun x : BitVec 32 × ChanMsg × BitVec 32 => x.2.1) (Option.some.inj h)
    exact absurd hm (by decide)
  · rintro ⟨chan, h, hlow⟩
    obtain rfl : (258 : BitVec 32) = chan := congrArg Prod.fst (Option.some.inj h)
    exact absurd hlow (by decide)

/-- A unit whose channel 1 has the fault mask 5. -/
def masked : Psc Nor :=
  { blank with regs := fun a => if a = chanAddr .ps1 .fault_mask then 5 else 0 }

/-- The line `257 400 1`. -/
def line257 : List Char := ['2', '5', '7', ' ', '4', '0', '0', ' ', '1']

/-- The line writes the settings of channel 257, which does not exist, over those of channel 1. -/
theorem line257_overwrites :
    let saved :=
      (chan_settings Float zeroLocals.toStack Chan.ps1.u32 (msgBuf 400 1) 8 : Sw Nor Unit).final
        masked
    let used :=
      (receive_console_cmd Float (fun _ => 0) zeroLocals.toStack line257 : Sw Nor Unit).final saved
    used = Command.runAll Float [.console zeroLocals.toStack 257 400 1] saved ∧
      ¬ Restored .ps1 masked
        ((chan_settings Float zeroLocals.toStack Chan.ps1.u32 (msgBuf 404 1) 8).final used) := by
  refine ⟨rfl, fun h => ?_⟩
  have hmask := h.regs .fault_mask (by decide)
  exact absurd hmask (by decide +kernel)

end Zpsc.Commands
