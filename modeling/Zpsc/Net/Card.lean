import Mathlib.Tactic.Common
import Zpsc.Net.Tftp

/-!
# An SD card

FatFs at one value: a volume of files with one file object. What the disk makes of the calls is a
list of outcomes; when they are used up, all calls succeed.
-/

namespace Zpsc.Tftp

open Bits

/-- What the disk makes of a call. -/
structure Disk where
  /-- The result of the call. -/
  res : FRESULT
  /-- How many bytes it has room for. -/
  room : ℕ
  deriving DecidableEq

structure Card where
  files : String → Option (List Byte)
  fd : FIL
  /-- The outcomes of the coming calls. -/
  disk : List Disk

namespace Card

def res (c : Card) : FRESULT := (c.disk.head?.map Disk.res).getD .FR_OK

/-- The number of bytes out of `n` that the disk takes. -/
def room (c : Card) (n : ℕ) : ℕ := min n ((c.disk.head?.map Disk.room).getD n)

def setFile (c : Card) (fname : String) (data : List Byte) : Card :=
  { c with files := fun f => if f = fname then some data else c.files f }

def f_open (c : Card) (fname : String) (always write : Bool) : FRESULT × Card :=
  let c' := { c with disk := c.disk.tail }
  if c.res ≠ .FR_OK then (c.res, c')
  else
    let fd : FIL := ⟨fname, true, write, 0⟩
    match c.files fname with
    | some _ => (.FR_OK, { c' with fd })
    | none => if always then (.FR_OK, { c'.setFile fname [] with fd }) else (.FR_NO_FILE, c')

def f_write (c : Card) (buf : List Byte) : FRESULT × ℕ × Card :=
  let c' := { c with disk := c.disk.tail }
  if !c.fd.opened then (.FR_INVALID_OBJECT, 0, c)
  else if !c.fd.write then (.FR_DENIED, 0, c)
  else
    let n := c.room buf.length
    let data := (c.files c.fd.fname).getD []
    (c.res, n,
      { c'.setFile c.fd.fname (overwrite data c.fd.fptr (buf.take n)) with
        fd := { c.fd with fptr := c.fd.fptr + n } })

def f_read (c : Card) (btr : ℕ) : FRESULT × List Byte × Card :=
  let c' := { c with disk := c.disk.tail }
  if !c.fd.opened then (.FR_INVALID_OBJECT, [], c)
  else if c.fd.write then (.FR_DENIED, [], c)
  else if c.res ≠ .FR_OK then (c.res, [], c')
  else
    let bytes := (((c.files c.fd.fname).getD []).drop c.fd.fptr).take btr
    (.FR_OK, bytes, { c' with fd := { c.fd with fptr := c.fd.fptr + bytes.length } })

def f_close (c : Card) : Card :=
  { c with fd := { c.fd with opened := false }, disk := c.disk.tail }

/-! ## What the calls do -/

variable {c : Card} {fname : String} {always write : Bool}

theorem res_of_nil (h : c.disk = []) : c.res = .FR_OK := by
  rw [res, h]
  rfl

/-- The three ends of `f_open`: an outcome of the disk, a file that is not there, or the file. -/
theorem f_open_cases (c : Card) (fname : String) (always write : Bool) :
    ((c.f_open fname always write).1 ≠ .FR_OK ∧ (c.f_open fname always write).2.fd = c.fd ∧
      (c.f_open fname always write).2.files = c.files ∧
      (c.disk = [] → always = false ∧ c.files fname = none)) ∨
    ((c.f_open fname always write).1 = .FR_OK ∧
      (c.f_open fname always write).2.fd = ⟨fname, true, write, 0⟩ ∧
      (c.f_open fname always write).2.files fname = some ((c.files fname).getD []) ∧
      (always = false → (c.files fname).isSome = true ∧
        (c.f_open fname always write).2.files = c.files)) := by
  unfold f_open
  dsimp only
  by_cases hres : c.res = .FR_OK
  · rw [if_neg (not_not.mpr hres)]
    cases hfile : c.files fname with
    | some data => exact .inr ⟨rfl, rfl, hfile, fun _ => ⟨rfl, rfl⟩⟩
    | none =>
      cases always with
      | true => exact .inr ⟨rfl, rfl, by simp [setFile], nofun⟩
      | false => exact .inl ⟨nofun, rfl, rfl, fun _ => ⟨rfl, rfl⟩⟩
  · rw [if_pos hres]
    exact .inl ⟨hres, rfl, rfl, fun h => absurd (res_of_nil h) hres⟩

theorem f_open_disk (c : Card) (fname : String) (always write : Bool) :
    (c.f_open fname always write).2.disk = c.disk.tail := by
  unfold f_open
  dsimp only
  by_cases hres : c.res = .FR_OK
  · rw [if_neg (not_not.mpr hres)]
    cases c.files fname with
    | some data => rfl
    | none => cases always <;> rfl
  · rw [if_pos hres]

theorem f_write_of_open {buf : List Byte} (hopen : c.fd.opened = true)
    (hwrite : c.fd.write = true) :
    c.f_write buf =
      (c.res, c.room buf.length,
        { c.setFile c.fd.fname (overwrite ((c.files c.fd.fname).getD []) c.fd.fptr
            (buf.take (c.room buf.length))) with
          fd := { c.fd with fptr := c.fd.fptr + c.room buf.length }, disk := c.disk.tail }) := by
  simp only [f_write, hopen, hwrite, Bool.not_true, Bool.false_eq_true, if_false]
  rfl

theorem f_read_of_open {btr : ℕ} (hopen : c.fd.opened = true) (hwrite : c.fd.write = false)
    (hres : c.res = .FR_OK) :
    c.f_read btr =
      (.FR_OK, (((c.files c.fd.fname).getD []).drop c.fd.fptr).take btr,
        { c with
          fd := { c.fd with fptr := c.fd.fptr +
            ((((c.files c.fd.fname).getD []).drop c.fd.fptr).take btr).length }
          disk := c.disk.tail }) := by
  simp [f_read, hopen, hwrite, hres]

end Card

instance : FatFs Card where
  f_open := Card.f_open
  f_write := Card.f_write
  f_read := Card.f_read
  f_close := Card.f_close
  files := Card.files
  fd := Card.fd
  Sound c := c.disk = []
  open_fd c fname always write h := by
    rcases c.f_open_cases fname always write with ⟨hne, -⟩ | ⟨-, hfd, -⟩
    · exact absurd h hne
    · exact hfd
  open_file c fname always write h := by
    rcases c.f_open_cases fname always write with ⟨hne, -⟩ | ⟨-, -, hfile, -⟩
    · exact absurd h hne
    · exact hfile
  open_existing c fname write := by
    rcases c.f_open_cases fname false write with ⟨-, -, hfiles, -⟩ | ⟨-, -, -, hthere⟩
    · exact hfiles
    · exact (hthere rfl).2
  open_missing c fname write h := by
    rcases c.f_open_cases fname false write with ⟨hne, -⟩ | ⟨-, -, -, hthere⟩
    · exact absurd h hne
    · exact (hthere rfl).1
  open_fails c fname always write h hclosed := by
    rcases c.f_open_cases fname always write with ⟨-, hfd, -⟩ | ⟨hok, -⟩
    · rw [hfd, hclosed]
    · exact absurd hok h
  write_le c buf := by
    unfold Card.f_write
    split_ifs
    · exact Nat.zero_le _
    · exact Nat.zero_le _
    · exact Nat.min_le_left _ _
  write_opened c buf := by
    unfold Card.f_write
    split_ifs <;> rfl
  write_fd c buf hopen hwrite := by rw [Card.f_write_of_open hopen hwrite]
  write_file c buf hopen hwrite := by
    rw [Card.f_write_of_open hopen hwrite]
    simp [Card.setFile]
  read_opened c btr := by
    unfold Card.f_read
    split_ifs <;> rfl
  read_files c btr := by
    unfold Card.f_read
    split_ifs <;> rfl
  read_ok c btr hopen hwrite h := by
    by_cases hres : c.res = .FR_OK
    · rw [Card.f_read_of_open hopen hwrite hres]
      exact ⟨rfl, rfl⟩
    · simp only [Card.f_read, hopen, hwrite, Bool.not_true, Bool.false_eq_true, if_false,
        if_pos hres] at h
      exact absurd h hres
  close_opened c := rfl
  close_files c := rfl
  sound_open c fname always write hdisk hfile := by
    refine ⟨?_, by rw [Card.f_open_disk, hdisk]; rfl⟩
    rcases c.f_open_cases fname always write with ⟨-, -, -, hnone⟩ | ⟨hok, -⟩
    · obtain ⟨rfl, hmissing⟩ := hnone hdisk
      rcases hfile with h | h
      · cases h
      · rw [hmissing] at h
        cases h
    · exact hok
  sound_write c buf hdisk hopen hwrite := by
    rw [Card.f_write_of_open hopen hwrite]
    refine ⟨Card.res_of_nil hdisk, ?_, by rw [hdisk]; rfl⟩
    simp [Card.room, hdisk]
  sound_read c btr hdisk hopen hwrite := by
    rw [Card.f_read_of_open hopen hwrite (Card.res_of_nil hdisk)]
    exact ⟨rfl, by rw [hdisk]; rfl⟩
  sound_close c hdisk := by
    change c.disk.tail = []
    rw [hdisk]
    rfl

end Zpsc.Tftp
