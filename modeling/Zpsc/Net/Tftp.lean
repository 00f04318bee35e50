import Mathlib.Algebra.Group.Nat.Defs
import Zpsc.Bits.Bytes
import Mathlib.Data.Int.Notation

/-!
# File transfers to the SD card (`tftp_handler.c`)

The callbacks of the TFTP server over FatFs, which is a parameter (`FatFs`) with what its manual
says of the four calls in use.

A block arrives as a chain of buffers, of which `tftp_sdcard_write` writes one after the other. A
read transfer sends blocks of 512 bytes until one is shorter.
-/

namespace Zpsc.Tftp

open Bits

/-! ## FatFs -/

inductive FRESULT where
  | FR_OK | FR_DISK_ERR | FR_NO_FILE | FR_DENIED | FR_INVALID_OBJECT
  deriving DecidableEq, Repr

/-- A file object. -/
structure FIL where
  /-- The name that it was opened with. -/
  fname : String
  opened : Bool
  /-- The access is `FA_WRITE`, else it is `FA_READ`. -/
  write : Bool
  /-- The read/write pointer. -/
  fptr : ℕ
  deriving DecidableEq

/-- A file in which the bytes from `off` on are overwritten with `bytes`. -/
def overwrite (data : List Byte) (off : ℕ) (bytes : List Byte) : List Byte :=
  data.take off ++ bytes ++ data.drop (off + bytes.length)

/-- FatFs with one file object. `f_open` positions it at the start of the file and truncates
nothing, `f_write` overwrites from there on, and both report how far they came. A call that fails
opens nothing. -/
class FatFs (φ : Type) where
  /-- The second argument is the name; then `FA_OPEN_ALWAYS` or `FA_OPEN_EXISTING`, and `FA_WRITE`
  or `FA_READ`. -/
  f_open : φ → String → (always write : Bool) → FRESULT × φ
  /-- The result and the number of bytes written. -/
  f_write : φ → List Byte → FRESULT × ℕ × φ
  /-- The result and the bytes read. -/
  f_read : φ → ℕ → FRESULT × List Byte × φ
  f_close : φ → φ
  /-- The contents of the files. -/
  files : φ → String → Option (List Byte)
  /-- The file object. -/
  fd : φ → FIL
  /-- No call to come finds the disk full or broken. -/
  Sound : φ → Prop
  open_fd : ∀ c fname always write, (f_open c fname always write).1 = .FR_OK →
    fd (f_open c fname always write).2 = ⟨fname, true, write, 0⟩
  open_file : ∀ c fname always write, (f_open c fname always write).1 = .FR_OK →
    files (f_open c fname always write).2 fname = some ((files c fname).getD [])
  open_existing : ∀ c fname write, files (f_open c fname false write).2 = files c
  open_missing : ∀ c fname write, (f_open c fname false write).1 = .FR_OK →
    (files c fname).isSome = true
  open_fails : ∀ c fname always write, (f_open c fname always write).1 ≠ .FR_OK →
    (fd c).opened = false → (fd (f_open c fname always write).2).opened = false
  write_le : ∀ c buf, (f_write c buf).2.1 ≤ buf.length
  write_opened : ∀ c buf, (fd (f_write c buf).2.2).opened = (fd c).opened
  write_fd : ∀ c buf, (fd c).opened = true → (fd c).write = true →
    fd (f_write c buf).2.2 = { fd c with fptr := (fd c).fptr + (f_write c buf).2.1 }
  write_file : ∀ c buf, (fd c).opened = true → (fd c).write = true →
    files (f_write c buf).2.2 (fd c).fname =
      some (overwrite ((files c (fd c).fname).getD []) (fd c).fptr (buf.take (f_write c buf).2.1))
  read_opened : ∀ c btr, (fd (f_read c btr).2.2).opened = (fd c).opened
  read_files : ∀ c btr, files (f_read c btr).2.2 = files c
  read_ok : ∀ c btr, (fd c).opened = true → (fd c).write = false → (f_read c btr).1 = .FR_OK →
    (f_read c btr).2.1 = (((files c (fd c).fname).getD []).drop (fd c).fptr).take btr ∧
      fd (f_read c btr).2.2 = { fd c with fptr := (fd c).fptr + (f_read c btr).2.1.length }
  close_opened : ∀ c, (fd (f_close c)).opened = false
  close_files : ∀ c, files (f_close c) = files c
  sound_open : ∀ c fname always write, Sound c →
    (always = true ∨ (files c fname).isSome = true) →
      (f_open c fname always write).1 = .FR_OK ∧ Sound (f_open c fname always write).2
  sound_write : ∀ c buf, Sound c → (fd c).opened = true → (fd c).write = true →
    (f_write c buf).1 = .FR_OK ∧ (f_write c buf).2.1 = buf.length ∧ Sound (f_write c buf).2.2
  sound_read : ∀ c btr, Sound c → (fd c).opened = true → (fd c).write = false →
    (f_read c btr).1 = .FR_OK ∧ Sound (f_read c btr).2.2
  sound_close : ∀ c, Sound c → Sound (f_close c)

open FatFs

/-! ## The callbacks -/

variable {φ : Type} [FatFs φ]

/-- The handle is `NULL` when the first component is `false`. -/
def tftp_sdcard_open (c : φ) (fname mode : String) (write : Bool) : Bool × φ :=
  if mode ≠ "octet" then (false, c)
  else
    let (res, c') := f_open c fname write write
    (res = .FR_OK, c')

def tftp_sdcard_close (c : φ) : φ := f_close c

/-- The bytes read, or `none` for an error. -/
def tftp_sdcard_read (c : φ) (bytes : ℕ) : Option (List Byte) × φ :=
  let (res, buf, c') := f_read c bytes
  if res ≠ .FR_OK then (none, c') else (some buf, c')

/-- A chain of buffers. Its length, of which `tot_len` is the part from a buffer on, is a `u16`. -/
structure Pbuf where
  /-- Those of its buffers, in order. -/
  payloads : List (List Byte)
  fits : payloads.flatten.length < 2 ^ 16

/-- `tot_len` of the first buffer of a chain. -/
def tot_len (payloads : List (List Byte)) : BitVec 16 := BitVec.ofNat 16 payloads.flatten.length

def tftp_sdcard_write (c : φ) : List (List Byte) → ℤ × φ
  | [] => (0, c)
  | payload :: next =>
    if tot_len (payload :: next) = 0 then (0, c)
    else if payload.length = 0 then tftp_sdcard_write c next
    else
      let (res, n, c') := f_write c payload
      if res ≠ .FR_OK then (-1, c')
      else if n ≠ payload.length then (-1, c')
      else tftp_sdcard_write c' next

/-! ## Transfers -/

/-- The bytes of the blocks of an upload. -/
def uploaded (blocks : List Pbuf) : List Byte := blocks.flatMap fun p => p.payloads.flatten

/-- The blocks of an upload; an error ends it. -/
def writeBlocks (c : φ) : List Pbuf → Option φ
  | [] => some c
  | p :: blocks =>
    let (ret, c') := tftp_sdcard_write c p.payloads
    if ret < 0 then none else writeBlocks c' blocks

/-- An upload without an error. -/
def upload (c : φ) (fname : String) (blocks : List Pbuf) : Option φ :=
  let (handle, c') := tftp_sdcard_open c fname "octet" true
  if handle then (writeBlocks c' blocks).map tftp_sdcard_close else none

def TFTP_MAX_PAYLOAD_SIZE : ℕ := 512

/-- `send_data`: the next block, and whether it is the last; `none` for an error. -/
def send_data (c : φ) : Option (List Byte × Bool × φ) :=
  match tftp_sdcard_read c TFTP_MAX_PAYLOAD_SIZE with
  | (none, _) => none
  | (some block, c') => some (block, block.length ≠ TFTP_MAX_PAYLOAD_SIZE, c')

/-- The bytes that a client gets with `acks` acknowledgments, and whether the last block is among
them: each acknowledgment of a full block asks for the next. -/
def sendBlocks (c : φ) : ℕ → Option (List Byte × Bool)
  | 0 => (send_data c).map fun (block, last, _) => (block, last)
  | acks + 1 =>
    match send_data c with
    | none => none
    | some (block, true, _) => some (block, true)
    | some (block, false, c') =>
      (sendBlocks c' acks).map fun (data, last) => (block ++ data, last)

/-- A read transfer of a file ends with the bytes `data`, when the disk makes no errors. -/
def Downloads (c : φ) (fname : String) (data : List Byte) : Prop :=
  ∀ c₀ : φ, files c₀ = files c → Sound c₀ →
    ∃ acks c', tftp_sdcard_open c₀ fname "octet" false = (true, c') ∧
      sendBlocks c' acks = some (data, true)

end Zpsc.Tftp
