import Zpsc.Net.Card
import Mathlib.Tactic.Common

/-!
# When an upload replaces the file

While an upload runs, the file holds the bytes written so far and after them what the old contents
had there (`Writing`). Nothing shortens a file, so the end of a longer old file stays
(`files_of_upload`). A read transfer returns whatever the file holds (`downloads_file`).
-/

namespace Zpsc.Tftp

open Bits FatFs

variable {φ : Type} [FatFs φ] {c c' : φ} {fname : String} {old done : List Byte}

/-! ## Writing -/

/-- The bytes `done` of an upload over the contents `old` are written. -/
structure Writing (c : φ) (fname : String) (old done : List Byte) : Prop where
  name : (fd c).fname = fname
  opened : (fd c).opened = true
  write : (fd c).write = true
  fptr : (fd c).fptr = done.length
  file : files c fname = some (done ++ old.drop done.length)

theorem overwrite_append (old done bytes : List Byte) :
    overwrite (done ++ old.drop done.length) done.length bytes =
      (done ++ bytes) ++ old.drop (done ++ bytes).length := by
  simp [overwrite, List.drop_append]

/-- However `f_write` ends, a part of the buffer is appended to what is written. -/
theorem Writing.f_write (h : Writing c fname old done) (buf : List Byte) :
    Writing (FatFs.f_write c buf).2.2 fname old
      (done ++ buf.take (FatFs.f_write c buf).2.1) := by
  obtain ⟨rfl, hopen, hwrite, hptr, hfile⟩ := h
  have hfd := write_fd c buf hopen hwrite
  refine ⟨by rw [hfd], by rw [hfd, hopen], by rw [hfd, hwrite], ?_, ?_⟩
  · rw [hfd, List.length_append, List.length_take, Nat.min_eq_left (write_le c buf), hptr]
  · rw [write_file c buf hopen hwrite, hfile, Option.getD_some, hptr, overwrite_append]

/-- The rest of a chain is skipped only when it is empty. -/
theorem flatten_of_tot_len {payloads : List (List Byte)} (h : tot_len payloads = 0)
    (hfits : payloads.flatten.length < 2 ^ 16) : payloads.flatten = [] := by
  have hlen := congrArg BitVec.toNat h
  rw [tot_len, BitVec.toNat_ofNat, Nat.mod_eq_of_lt hfits] at hlen
  exact List.eq_nil_of_length_eq_zero hlen

theorem Writing.block (h : Writing c fname old done) {payloads : List (List Byte)}
    (hfits : payloads.flatten.length < 2 ^ 16) (hret : ¬ (tftp_sdcard_write c payloads).1 < 0) :
    Writing (tftp_sdcard_write c payloads).2 fname old (done ++ payloads.flatten) := by
  induction payloads generalizing c done with
  | nil => simpa [tftp_sdcard_write] using h
  | cons payload next ih =>
    have hnext : next.flatten.length < 2 ^ 16 := by
      rw [List.flatten_cons, List.length_append] at hfits
      omega
    rw [tftp_sdcard_write] at hret ⊢
    by_cases htot : tot_len (payload :: next) = 0
    · rw [if_pos htot, flatten_of_tot_len htot hfits, List.append_nil]
      exact h
    · rw [if_neg htot] at hret ⊢
      by_cases hempty : payload.length = 0
      · rw [if_pos hempty] at hret ⊢
        rw [List.flatten_cons, List.eq_nil_of_length_eq_zero hempty, List.nil_append]
        exact ih h hnext hret
      · rw [if_neg hempty] at hret ⊢
        simp only at hret ⊢
        split_ifs at hret ⊢ with hres hn
        · exact absurd (by simp) hret
        · exact absurd (by simp) hret
        · have hw := h.f_write payload
          rw [not_not.mp hn, List.take_length] at hw
          have := ih hw hnext hret
          rwa [List.append_assoc, ← List.flatten_cons] at this

theorem Writing.blocks (h : Writing c fname old done) {blocks : List Pbuf}
    (hc : writeBlocks c blocks = some c') : Writing c' fname old (done ++ uploaded blocks) := by
  induction blocks generalizing c done with
  | nil =>
    obtain rfl := Option.some.inj hc
    simpa [uploaded] using h
  | cons p blocks ih =>
    simp only [writeBlocks] at hc
    split at hc
    · cases hc
    · have hw := ih (h.block p.fits (by assumption)) hc
      rwa [List.append_assoc] at hw

/-- A file that is opened, is opened in the mode `octet`. -/
theorem open_of_handle {mode : String} {write : Bool}
    (h : (tftp_sdcard_open c fname mode write).1 = true) :
    mode = "octet" ∧ (f_open c fname write write).1 = .FR_OK ∧
      (tftp_sdcard_open c fname mode write).2 = (f_open c fname write write).2 := by
  unfold tftp_sdcard_open at h ⊢
  split_ifs at h ⊢ with hmode
  exact ⟨not_not.mp hmode, of_decide_eq_true h, rfl⟩

/-- Opening a file for writing leaves its contents. -/
theorem writing_open (h : (tftp_sdcard_open c fname "octet" true).1 = true) :
    Writing (tftp_sdcard_open c fname "octet" true).2 fname ((files c fname).getD []) [] := by
  obtain ⟨-, hok, hcard⟩ := open_of_handle h
  rw [hcard]
  have hfd := open_fd c fname true true hok
  exact ⟨by rw [hfd], by rw [hfd], by rw [hfd], by rw [hfd]; rfl, open_file c fname true true hok⟩

/-- The end of a longer old file stays. -/
theorem files_of_upload {blocks : List Pbuf} (h : upload c fname blocks = some c') :
    files c' fname =
      some (uploaded blocks ++ ((files c fname).getD []).drop (uploaded blocks).length) := by
  simp only [upload] at h
  split at h
  · rename_i hopen
    obtain ⟨c'', hc, rfl⟩ := Option.map_eq_some_iff.mp h
    rw [tftp_sdcard_close, close_files]
    exact ((writing_open hopen).blocks hc).file
  · cases h

/-! ## Reading -/

/-- The file is open for reading, with the bytes `rest` still to be read. -/
structure Reading (c : φ) (rest : List Byte) : Prop where
  opened : (fd c).opened = true
  write : (fd c).write = false
  sound : Sound c
  rest : ((files c (fd c).fname).getD []).drop (fd c).fptr = rest

variable {rest : List Byte}

/-- A block is read. -/
theorem Reading.f_read (h : Reading c rest) (btr : ℕ) :
    ∃ c', FatFs.f_read c btr = (.FR_OK, rest.take btr, c') ∧ Reading c' (rest.drop btr) := by
  obtain ⟨hopen, hwrite, hsound, rfl⟩ := h
  obtain ⟨hres, hsound'⟩ := sound_read c btr hsound hopen hwrite
  obtain ⟨hbytes, hfd⟩ := read_ok c btr hopen hwrite hres
  refine ⟨(FatFs.f_read c btr).2.2, by rw [← hbytes, ← hres], ?_⟩
  refine ⟨by rw [hfd, hopen], by rw [hfd, hwrite], hsound', ?_⟩
  rw [read_files, hfd, hbytes, ← List.drop_drop, List.length_take]
  generalize ((files c (fd c).fname).getD []).drop (fd c).fptr = rest
  by_cases hn : btr ≤ rest.length
  · rw [Nat.min_eq_left hn]
  · rw [Nat.min_eq_right (by omega), List.drop_length, List.drop_eq_nil_of_le (by omega)]

theorem Reading.send_data (h : Reading c rest) :
    ∃ c', Tftp.send_data c = some (rest.take 512, decide ((rest.take 512).length ≠ 512), c') ∧
      Reading c' (rest.drop 512) := by
  obtain ⟨c', hread, hc'⟩ := h.f_read 512
  refine ⟨c', ?_, hc'⟩
  simp only [Tftp.send_data, tftp_sdcard_read, TFTP_MAX_PAYLOAD_SIZE, hread]
  rfl

/-- A read transfer ends with all the bytes that are left. -/
theorem Reading.sendBlocks (h : Reading c rest) :
    Tftp.sendBlocks c (rest.length / 512) = some (rest, true) := by
  induction hacks : rest.length / 512 generalizing c rest with
  | zero =>
    have hlen : rest.length < 512 := by omega
    obtain ⟨c', hsend, -⟩ := h.send_data
    rw [Tftp.sendBlocks, hsend, List.take_of_length_le (by omega)]
    simp
    omega
  | succ acks ih =>
    have hlen : 512 ≤ rest.length := by omega
    obtain ⟨c', hsend, hc'⟩ := h.send_data
    have hnext := ih hc' (by rw [List.length_drop]; omega)
    rw [Tftp.sendBlocks, hsend]
    simp only [List.length_take, Nat.min_eq_left hlen, ne_eq, not_true_eq_false, decide_false]
    rw [hnext, Option.map_some, List.take_append_drop]

/-- A read transfer returns what the file holds. -/
theorem downloads_file {data : List Byte} (h : files c fname = some data) :
    Downloads c fname data := by
  intro c₀ hfiles hsound
  have hthere : files c₀ fname = some data := by rw [hfiles, h]
  obtain ⟨hok, hsound'⟩ := sound_open c₀ fname false false hsound (.inr (by rw [hthere]; rfl))
  have hfd := open_fd c₀ fname false false hok
  have hopen : tftp_sdcard_open c₀ fname "octet" false =
      (true, (f_open c₀ fname false false).2) := by
    simp [tftp_sdcard_open, hok]
  refine ⟨data.length / 512, _, hopen, ?_⟩
  refine Reading.sendBlocks ⟨by rw [hfd], by rw [hfd], hsound', ?_⟩
  rw [hfd, open_existing, hthere]
  rfl

/-! ## Uploads -/

/-- An upload replaces the file, and a read transfer returns what was uploaded, exactly when the old
file was not longer. -/
theorem upload_replaces_iff {blocks : List Pbuf} (h : upload c fname blocks = some c') :
    (files c' fname = some (uploaded blocks) ∧ Downloads c' fname (uploaded blocks)) ↔
      ((files c fname).getD []).length ≤ (uploaded blocks).length := by
  have hfile := files_of_upload h
  constructor
  · rintro ⟨hnew, -⟩
    rw [hfile, Option.some_inj, List.append_right_eq_self] at hnew
    exact List.drop_eq_nil_iff.mp hnew
  · intro hlen
    rw [List.drop_eq_nil_iff.mpr hlen, List.append_nil] at hfile
    exact ⟨hfile, downloads_file hfile⟩

/-- A card with one file. -/
def cardWith (fname : String) (data : List Byte) : Card where
  files := fun f => if f = fname then some data else none
  fd := ⟨"", false, false, 0⟩
  disk := []

/-- A block in three buffers of which two are empty. -/
def oneByte : Pbuf := ⟨[[], [0x39], []], by decide⟩

/-- A block in two buffers. -/
def twoBytes : Pbuf := ⟨[[0x38], [0x37]], by decide⟩

/-- Three bytes over two. -/
theorem upload_replaces_chains :
    ∃ c', upload (cardWith "F" [0x31, 0x32]) "F" [twoBytes, oneByte] = some c' ∧
      c'.files "F" = some [0x38, 0x37, 0x39] ∧
      Downloads c' "F" (uploaded [twoBytes, oneByte]) ∧
      (tftp_sdcard_open c' "F" "octet" false).1 = true ∧
      sendBlocks (tftp_sdcard_open c' "F" "octet" false).2 0 =
        some ([0x38, 0x37, 0x39], true) := by
  obtain ⟨c', h⟩ := Option.isSome_iff_exists.mp
    (show (upload (cardWith "F" [0x31, 0x32]) "F" [twoBytes, oneByte]).isSome = true by decide)
  obtain ⟨hfile, hdown⟩ := (upload_replaces_iff h).mpr (by decide)
  obtain rfl : c' = (upload (cardWith "F" [0x31, 0x32]) "F" [twoBytes, oneByte]).get
      (by decide) := by
    rw [Option.eq_some_iff_get_eq] at h
    exact h.2.symm
  exact ⟨_, h, hfile, hdown, by decide, by decide⟩

/-- A byte over three: the last two stay. -/
theorem upload_keeps_end :
    ∃ c', upload (cardWith "F" [0x31, 0x32, 0x33]) "F" [oneByte] = some c' ∧
      c'.files "F" = some [0x39, 0x32, 0x33] ∧ c'.files "F" ≠ some (uploaded [oneByte]) := by
  obtain ⟨c', h⟩ := Option.isSome_iff_exists.mp
    (show (upload (cardWith "F" [0x31, 0x32, 0x33]) "F" [oneByte]).isSome = true by decide)
  have hfile : c'.files "F" = some [0x39, 0x32, 0x33] := (files_of_upload h).trans (by decide)
  refine ⟨c', h, hfile, ?_⟩
  rw [hfile]
  decide

end Zpsc.Tftp
