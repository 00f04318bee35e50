import Zpsc.Bits.Bytes

/-!
# The network configuration file (`sdcard.c`, `NET.CNF`)

`sdcard_netconf` reads the file piece by piece into a buffer of 64 characters and takes each piece
for a line. A string is the list of its characters before the NUL.
-/

namespace Zpsc.NetConf

open Bits

/-- `net_config`. -/
structure NetConfig where
  addr : BitVec 32
  mask : BitVec 32
  /-- The gateway. -/
  gw : BitVec 32
  /-- 1 for these addresses, 0 for DHCP. -/
  use_static : Byte
  /-- The six bytes of the MAC address. -/
  hwaddr : List Byte
  deriving DecidableEq, Repr

/-! ## Hardware addresses -/

/-- `parse_hex`: what is or-ed into `out`, unless `c` is no hexadecimal digit. -/
def parse_hex (c : Char) (out : Byte) : Option Byte :=
  if '0' ≤ c ∧ c ≤ '9' then some (out ||| BitVec.ofNat 8 (c.toNat - '0'.toNat))
  else if 'A' ≤ c ∧ c ≤ 'F' then some (out ||| BitVec.ofNat 8 (c.toNat - 'A'.toNat + 10))
  else if 'a' ≤ c ∧ c ≤ 'f' then some (out ||| BitVec.ofNat 8 (c.toNat - 'a'.toNat + 10))
  else none

/-- The character `k` of a string in memory; there is none after the NUL. -/
def charAt (s : List Char) (k : ℕ) : Option Char := (s ++ ['\x00'])[k]?

/-- `NETIF_MAX_HWADDR_LEN`. -/
def hwaddrLen : ℕ := 6

/-- The last `k` rounds of the loop over the parts of a hardware address, from part `n` on. The
result is `none` when a character after the NUL is read, and `some none` when nothing is copied. -/
def hwaddrLoop (arg : List Char) : ℕ → ℕ → List Byte → Option (Option (List Byte))
  | 0, _, _ => some none
  | k + 1, n, hwaddr => do
    match parse_hex (← charAt arg (n * 3)) (hwaddr.getD n 0) with
    | none => return none
    | some high =>
      match parse_hex (← charAt arg (n * 3 + 1)) (high <<< 4) with
      | none => return none
      | some part =>
        let sep ← charAt arg (n * 3 + 2)
        if n < hwaddrLen - 1 ∧ sep = ':' then hwaddrLoop arg k (n + 1) (hwaddr.set n part)
        else if n = hwaddrLen - 1 ∧ sep = '\x00' then return some (hwaddr.set n part)
        else return none

/-! ## Lines -/

def lwip_isspace (c : Char) : Bool := c = ' ' || ('\t' ≤ c && c ≤ '\r')

section Parse

-- `inet_aton`, which changes its output for a valid address only, and the address in the EEPROM
variable (inet_aton : List Char → Option (BitVec 32)) (mac : List Byte)

/-- `sdcard_parse_inet`: the new value of `*out`. -/
def sdcard_parse_inet (arg : Option (List Char)) (out : BitVec 32) : BitVec 32 :=
  match arg with
  | none => out
  | some arg => (inet_aton arg).getD out

/-- What is done for a command. -/
def command (conf : NetConfig) (cmd : List Char) (arg : Option (List Char)) : Option NetConfig :=
  if cmd = "dhcp".toList then
    if arg = none ∨ arg = some "yes".toList then some { conf with use_static := 0 }
    else if arg = some "no".toList then some { conf with use_static := 1 }
    else some conf
  else if cmd = "addr".toList then
    some { conf with addr := sdcard_parse_inet inet_aton arg conf.addr, use_static := 1 }
  else if cmd = "mask".toList then
    some { conf with mask := sdcard_parse_inet inet_aton arg conf.mask }
  else if cmd = "gw".toList then
    some { conf with gw := sdcard_parse_inet inet_aton arg conf.gw }
  else if cmd = "hwaddr".toList then
    match arg with
    | none => some { conf with hwaddr := mac }
    | some arg =>
      if arg = "eeprom".toList then some { conf with hwaddr := mac }
      else do
        match ← hwaddrLoop arg hwaddrLen 0 (List.replicate hwaddrLen 0) with
        | none => return conf
        | some hwaddr => return { conf with hwaddr := hwaddr }
  else some conf

/-- The body of the loop of `sdcard_netconf`, for the characters `lbuf` that were read. -/
def parseLine (conf : NetConfig) (lbuf : List Char) : Option NetConfig :=
  let line := (lbuf.takeWhile (· ≠ '\x00')).dropWhile lwip_isspace
  if line = [] ∨ line.head? = some '#' then some conf
  else
    let cmd := line.takeWhile (!lwip_isspace ·)
    let line := (line.dropWhile (!lwip_isspace ·)).dropWhile lwip_isspace
    let arg := if line = [] then none else some (line.takeWhile (!lwip_isspace ·))
    command inet_aton mac conf cmd arg

/-- `f_gets`: the characters up to a newline, but no more than `n`, and the rest of the file. -/
def f_gets : ℕ → List Char → List Char × List Char
  | 0, file => ([], file)
  | _ + 1, [] => ([], [])
  | n + 1, c :: file =>
    if c = '\n' then ([c], file)
    else
      let (line, rest) := f_gets n file
      (c :: line, rest)

theorem f_gets_length (n : ℕ) (file : List Char) :
    (f_gets n file).1.length + (f_gets n file).2.length = file.length := by
  fun_induction f_gets n file with
  | case1 file => exact Nat.zero_add _
  | case2 => rfl
  | case3 n file => exact Nat.add_comm 1 _
  | case4 n c file h line rest hrec ih =>
    rw [hrec] at ih
    simp only [List.length_cons] at ih ⊢
    omega

def sdcard_netconf (conf : NetConfig) (file : List Char) : Option NetConfig :=
  match _h : f_gets 63 file with
  | ([], _) => some conf
  | (c :: line, rest) => do
    sdcard_netconf (← parseLine inet_aton mac conf (c :: line)) rest
  termination_by file.length
  decreasing_by
    have hlen := f_gets_length 63 file
    rw [_h, List.length_cons] at hlen
    dsimp only at hlen
    omega

/-! ## The intended effect -/

/-- The value of a hexadecimal digit. -/
def hexValue (c : Char) : Option ℕ :=
  ("0123456789abcdef".toList.idxOf? c).or ("0123456789ABCDEF".toList.idxOf? c)

/-- The byte that two hexadecimal digits stand for. -/
def hexByte : List Char → Option Byte
  | [a, b] => do return BitVec.ofNat 8 (16 * (← hexValue a) + (← hexValue b))
  | _ => none

/-- `arg` is six hexadecimal numbers of two digits, with colons between them. -/
def HwaddrText (arg : List Char) (bytes : List Byte) : Prop :=
  ∃ parts : List (List Char), parts.length = 6 ∧ arg = [':'].intercalate parts ∧
    parts.mapM hexByte = some bytes

/-- The address that such a text stands for. -/
def macOf (arg : List Char) : Option (List Byte) :=
  if (arg.splitOn ':').length = 6 then (arg.splitOn ':').mapM hexByte else none

/-- The words of a line, which ends at a NUL. -/
def words (line : List Char) : List (List Char) :=
  ((line.takeWhile (· ≠ '\x00')).splitOnP lwip_isspace).filter (· ≠ [])

/-- What a line is meant to do. -/
def meant (conf : NetConfig) (line : List Char) : NetConfig :=
  match words line with
  | [] => conf
  | cmd :: args =>
    if cmd.head? = some '#' then conf
    else if cmd = "dhcp".toList then
      if args.head? = some "yes".toList then { conf with use_static := 0 }
      else if args.head? = some "no".toList then { conf with use_static := 1 }
      else conf
    else if cmd = "addr".toList then
      match args.head?.bind inet_aton with
      | none => conf
      | some a => { conf with addr := a, use_static := 1 }
    else if cmd = "mask".toList then
      match args.head?.bind inet_aton with
      | none => conf
      | some a => { conf with mask := a }
    else if cmd = "gw".toList then
      match args.head?.bind inet_aton with
      | none => conf
      | some a => { conf with gw := a }
    else if cmd = "hwaddr".toList then
      match args.head? with
      | none => conf
      | some arg =>
        if arg = "eeprom".toList then { conf with hwaddr := mac }
        else { conf with hwaddr := (macOf arg).getD conf.hwaddr }
    else conf

/-- A file is meant to do what its lines do, one after the other. -/
def LineByLine (conf : NetConfig) (file : List Char) : Prop :=
  sdcard_netconf inet_aton mac conf file =
    some ((file.splitOn '\n').foldl (meant inet_aton mac) conf)

/-! ## By design -/

/-- The effect of a line by design: `dhcp` without an argument is `dhcp yes`, and `hwaddr` without
one is `hwaddr eeprom`. Whether an `addr` without a valid address sets `use_static` is left open. -/
def Effect (conf : NetConfig) (line : List Char) (conf' : NetConfig) : Prop :=
  if words line = ["dhcp".toList] then conf' = { conf with use_static := 0 }
  else if words line = ["hwaddr".toList] then conf' = { conf with hwaddr := mac }
  else if (words line).head? = some "addr".toList ∧
      (words line)[1]?.bind inet_aton = none then
    { conf' with use_static := conf.use_static } = conf
  else conf' = meant inet_aton mac conf line

/-- The longest line that one call of `f_gets` returns. -/
def lineMax : ℕ := 63

/-- The effect of lines, one after the other. What a line does that does not fit the buffer is left
open. -/
inductive Effects : NetConfig → List (List Char) → NetConfig → Prop
  | nil (conf : NetConfig) : Effects conf [] conf
  | cons {conf conf' conf'' : NetConfig} {line : List Char} {lines : List (List Char)} :
    (line.length ≤ lineMax → Effect inet_aton mac conf line conf') → Effects conf' lines conf'' →
      Effects conf (line :: lines) conf''

end Parse

end Zpsc.NetConf
