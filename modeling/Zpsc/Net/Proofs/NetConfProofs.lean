import Mathlib.Data.List.TakeWhile
import Zpsc.Net.NetConf

/-!
# Proofs: the network configuration file

The loop over the parts of a hardware address is followed part by part on the rest of its argument.
The lines are followed from one `f_gets` to the next: a line that fits the buffer is one piece, or
one piece and an empty one.
-/

namespace Zpsc.NetConf

open Bits

/-! ## Hexadecimal digits -/

/-- The value that `parse_hex` finds in the three ranges of digits. -/
def rangeValue (c : Char) : Option ℕ :=
  if '0' ≤ c ∧ c ≤ '9' then some (c.toNat - '0'.toNat)
  else if 'A' ≤ c ∧ c ≤ 'F' then some (c.toNat - 'A'.toNat + 10)
  else if 'a' ≤ c ∧ c ≤ 'f' then some (c.toNat - 'a'.toNat + 10)
  else none

theorem rangeValue_eq (c : Char) : rangeValue c = hexValue c := by
  by_cases hc : c.toNat < 128
  · have hall : ∀ n < 128, rangeValue (Char.ofNat n) = hexValue (Char.ofNat n) := by
      decide +kernel
    have h := hall c.toNat hc
    rwa [Char.ofNat_toNat] at h
  · -- no digit is that large
    have hle : ∀ d : Char, d.toNat < 128 → ¬ c ≤ d := fun d hd h =>
      hc (lt_of_le_of_lt (Char.le_def.mp h) hd)
    have hmem : ∀ ds : List Char, (∀ d ∈ ds, d.toNat < 128) → c ∉ ds := fun ds hds h =>
      hc (hds c h)
    rw [rangeValue, if_neg fun h => hle _ (by decide) h.2, if_neg fun h => hle _ (by decide) h.2,
      if_neg fun h => hle _ (by decide) h.2, hexValue,
      List.idxOf?_eq_none_iff.mpr (hmem _ (by simp)),
      List.idxOf?_eq_none_iff.mpr (hmem _ (by simp))]
    rfl

/-- `parse_hex` ors in the value of a hexadecimal digit. -/
theorem parse_hex_eq (c : Char) (out : Byte) :
    parse_hex c out = (hexValue c).map fun v => out ||| BitVec.ofNat 8 v := by
  rw [← rangeValue_eq, parse_hex, rangeValue]
  split_ifs <;> rfl

theorem hexValue_lt {c : Char} {v : ℕ} (h : hexValue c = some v) : v < 16 := by
  rw [hexValue, Option.or_eq_some_iff] at h
  rcases h with h | ⟨-, h⟩
  all_goals
    obtain ⟨hlt, -⟩ := List.idxOf?_eq_some_iff.mp h
    exact hlt.trans_le (by decide)

/-- Two digits, of which the first is moved up before the second is put in. -/
theorem nibbles : ∀ a < 16, ∀ b < 16,
    ((0 : Byte) ||| BitVec.ofNat 8 a) <<< 4 ||| BitVec.ofNat 8 b =
      BitVec.ofNat 8 (16 * a + b) := by
  decide +kernel

/-! ## Hardware addresses -/

theorem hexByte_pair {a b : Char} {u v : ℕ} (ha : hexValue a = some u) (hb : hexValue b = some v) :
    hexByte [a, b] = some (BitVec.ofNat 8 (16 * u + v)) := by
  rw [hexByte, ha, hb]
  rfl

theorem hexValue_colon : hexValue ':' = none := by decide

/-- A part is no byte when its first character is no digit. -/
theorem hexByte_first {a : Char} (h : hexValue a = none) (t : List Char) :
    hexByte (a :: t) = none := by
  rcases t with - | ⟨b, - | ⟨c, t⟩⟩
  · rfl
  · rw [hexByte, h]
    rfl
  · rfl

/-- A part is no byte when its second character is no digit. -/
theorem hexByte_second {b : Char} (h : hexValue b = none) (a : Char) (t : List Char) :
    hexByte (a :: b :: t) = none := by
  cases t with
  | nil =>
    rw [hexByte, h]
    cases hexValue a <;> rfl
  | cons c t => rfl

/-- The bytes of `k` parts. -/
def bytesOf (k : ℕ) (s : List Char) : Option (List Byte) :=
  if (s.splitOn ':').length = k then (s.splitOn ':').mapM hexByte else none

theorem bytesOf_eq_none {s p : List Char} {ps : List (List Char)} (hs : s.splitOn ':' = p :: ps)
    (hp : hexByte p = none) (k : ℕ) : bytesOf k s = none := by
  rw [bytesOf, hs, List.mapM_cons, hp]
  exact ite_self _

theorem splitOn_cons {a : Char} (ha : a ≠ ':') (t : List Char) :
    ∃ p ps, t.splitOn ':' = p :: ps ∧ (a :: t).splitOn ':' = (a :: p) :: ps := by
  obtain ⟨p, ps, h⟩ := List.exists_cons_of_ne_nil (List.splitOn_ne_nil ':' t)
  refine ⟨p, ps, h, ?_⟩
  rw [List.splitOn_cons_eq_if_modifyHead, if_neg (by simpa using ha), h]
  rfl

theorem splitOn_colon (t : List Char) : (':' :: t).splitOn ':' = [] :: t.splitOn ':' := by
  rw [List.splitOn_cons_eq_if_modifyHead, if_pos (beq_self_eq_true _)]

theorem bytesOf_first {a : Char} (ha : hexValue a = none) (t : List Char) (k : ℕ) :
    bytesOf k (a :: t) = none := by
  by_cases hcolon : a = ':'
  · rw [hcolon]
    exact bytesOf_eq_none (splitOn_colon t) rfl k
  · obtain ⟨p, ps, -, h⟩ := splitOn_cons hcolon t
    exact bytesOf_eq_none h (hexByte_first ha p) k

theorem bytesOf_second {a b : Char} (ha : a ≠ ':') (hb : hexValue b = none) (t : List Char)
    (k : ℕ) : bytesOf k (a :: b :: t) = none := by
  obtain ⟨q, qs, hq, h⟩ := splitOn_cons ha (b :: t)
  by_cases hcolon : b = ':'
  · rw [hcolon, splitOn_colon] at hq
    cases hq
    exact bytesOf_eq_none h rfl k
  · obtain ⟨p, ps, -, h'⟩ := splitOn_cons hcolon t
    rw [h'] at hq
    cases hq
    exact bytesOf_eq_none h (hexByte_second hb a p) k

theorem bytesOf_third {a b c : Char} (ha : a ≠ ':') (hb : b ≠ ':') (hc : c ≠ ':') (t : List Char)
    (k : ℕ) : bytesOf k (a :: b :: c :: t) = none := by
  obtain ⟨p, ps, -, h⟩ := splitOn_cons hc t
  obtain ⟨p', ps', h', h2⟩ := splitOn_cons hb (c :: t)
  obtain ⟨p'', ps'', h'', h1⟩ := splitOn_cons ha (b :: c :: t)
  rw [h] at h'
  cases h'
  rw [h2] at h''
  cases h''
  exact bytesOf_eq_none h1 rfl k

theorem splitOn_pair {a b : Char} (ha : a ≠ ':') (hb : b ≠ ':') (t : List Char) :
    (a :: b :: ':' :: t).splitOn ':' = [a, b] :: t.splitOn ':' := by
  have hmem : ':' ∉ [a, b] := by simp [ha.symm, hb.symm]
  exact List.splitOn_append_cons_self_of_not_mem hmem t

theorem splitOn_last {a b : Char} (ha : a ≠ ':') (hb : b ≠ ':') : [a, b].splitOn ':' = [[a, b]] :=
  List.splitOn_eq_singleton (by simp [ha.symm, hb.symm])

theorem ne_colon {c : Char} {v : ℕ} (h : hexValue c = some v) : c ≠ ':' := by
  rintro rfl
  rw [hexValue_colon] at h
  cases h

theorem charAt_append (pre suf : List Char) (k : ℕ) :
    charAt (pre ++ suf) (pre.length + k) = charAt suf k := by
  rw [charAt, charAt, List.append_assoc, List.getElem?_append_right (by omega)]
  congr 1
  omega

theorem hexValue_nul : hexValue '\x00' = none := by decide

/-- A rest that does not start with two digits ends the loop, and is no row of parts. -/
theorem hwaddrLoop_bad {pre suf : List Char} {n : ℕ} (hpre : pre.length = n * 3)
    (hbad : ∀ a b t u v, suf = a :: b :: t → hexValue a = some u → hexValue b = some v → False)
    (hw : List Byte) (k : ℕ) :
    hwaddrLoop (pre ++ suf) (k + 1) n hw = some none ∧ bytesOf (k + 1) suf = none := by
  have h0 : charAt (pre ++ suf) (n * 3) = charAt suf 0 := hpre ▸ charAt_append pre suf 0
  have h1 : charAt (pre ++ suf) (n * 3 + 1) = charAt suf 1 := hpre ▸ charAt_append pre suf 1
  rcases suf with - | ⟨a, t⟩
  · have hnul : charAt [] 0 = some '\x00' := rfl
    constructor
    · simp only [hwaddrLoop, h0, hnul, Option.bind_eq_bind, Option.bind_some, parse_hex_eq,
        hexValue_nul, Option.map_none]
      rfl
    · exact bytesOf_eq_none (List.splitOn_nil ':') rfl _
  · have hfirst : charAt (a :: t) 0 = some a := rfl
    cases ha : hexValue a with
    | none =>
      refine ⟨?_, bytesOf_first ha t _⟩
      simp only [hwaddrLoop, h0, hfirst, Option.bind_eq_bind, Option.bind_some, parse_hex_eq, ha,
        Option.map_none]
      rfl
    | some u =>
      rcases t with - | ⟨b, t⟩
      · have hnul : charAt [a] 1 = some '\x00' := rfl
        have hsplit : [a].splitOn ':' = [[a]] :=
          List.splitOn_eq_singleton (by simp [(ne_colon ha).symm])
        refine ⟨?_, bytesOf_eq_none hsplit rfl _⟩
        simp only [hwaddrLoop, h0, h1, hfirst, hnul, Option.bind_eq_bind, Option.bind_some,
          parse_hex_eq, ha, hexValue_nul, Option.map_some, Option.map_none]
        rfl
      · have hsecond : charAt (a :: b :: t) 1 = some b := rfl
        cases hb : hexValue b with
        | none =>
          refine ⟨?_, bytesOf_second (ne_colon ha) hb t _⟩
          simp only [hwaddrLoop, h0, h1, hfirst, hsecond, Option.bind_eq_bind, Option.bind_some,
            parse_hex_eq, ha, hb, Option.map_some, Option.map_none]
          rfl
        | some v => exact (hbad a b t u v rfl ha hb).elim

/-- A round that finds two digits. -/
theorem hwaddrLoop_pair {pre t : List Char} {part zeros : List Byte} {a b : Char} {n u v : ℕ}
    (hpre : pre.length = n * 3) (hpart : part.length = n) (ha : hexValue a = some u)
    (hb : hexValue b = some v) (k : ℕ) :
    hwaddrLoop (pre ++ a :: b :: t) (k + 1) n (part ++ 0 :: zeros) = (charAt t 0).bind fun sep =>
      if n < hwaddrLen - 1 ∧ sep = ':' then
        hwaddrLoop (pre ++ a :: b :: t) k (n + 1)
          (part ++ BitVec.ofNat 8 (16 * u + v) :: zeros)
      else if n = hwaddrLen - 1 ∧ sep = '\x00' then
        some (some (part ++ BitVec.ofNat 8 (16 * u + v) :: zeros))
      else some none := by
  have h0 : charAt (pre ++ a :: b :: t) (n * 3) = some a :=
    hpre ▸ charAt_append pre (a :: b :: t) 0
  have h1 : charAt (pre ++ a :: b :: t) (n * 3 + 1) = some b :=
    hpre ▸ charAt_append pre (a :: b :: t) 1
  have h2 : charAt (pre ++ a :: b :: t) (n * 3 + 2) = charAt t 0 :=
    hpre ▸ charAt_append pre (a :: b :: t) 2
  have hget : (part ++ 0 :: zeros).getD n 0 = (0 : Byte) := by simp [← hpart]
  have hset : ∀ x : Byte, (part ++ 0 :: zeros).set n x = part ++ x :: zeros := by
    intro x
    rw [List.set_append_right _ _ hpart.le, hpart, Nat.sub_self]
    rfl
  have hbyte := nibbles u (hexValue_lt ha) v (hexValue_lt hb)
  simp only [hwaddrLoop, h0, h1, h2, Option.bind_eq_bind, Option.bind_some, parse_hex_eq, ha, hb,
    Option.map_some, hget, hset, hbyte]
  rfl

theorem bytesOf_pair {a b : Char} {u v : ℕ} (ha : hexValue a = some u) (hb : hexValue b = some v)
    (t : List Char) (k : ℕ) :
    bytesOf (k + 1) (a :: b :: ':' :: t) =
      (bytesOf k t).map (BitVec.ofNat 8 (16 * u + v) :: ·) := by
  rw [bytesOf, splitOn_pair (ne_colon ha) (ne_colon hb), bytesOf, List.length_cons,
    List.mapM_cons, hexByte_pair ha hb]
  by_cases h : (t.splitOn ':').length = k
  · rw [if_pos (by omega), if_pos h]
    cases (t.splitOn ':').mapM hexByte <;> rfl
  · rw [if_neg (by omega), if_neg h]
    rfl

theorem bytesOf_last {a b : Char} {u v : ℕ} (ha : hexValue a = some u) (hb : hexValue b = some v)
    (k : ℕ) :
    bytesOf (k + 1) [a, b] = if k = 0 then some [BitVec.ofNat 8 (16 * u + v)] else none := by
  rw [bytesOf, splitOn_last (ne_colon ha) (ne_colon hb), List.mapM_cons, hexByte_pair ha hb]
  cases k <;> rfl

theorem bytesOf_zero (s : List Char) : bytesOf 0 s = none :=
  if_neg fun h => List.splitOn_ne_nil ':' s (List.length_eq_zero_iff.mp h)

/-- The rounds that are left read the parts that are left. -/
theorem hwaddrLoop_eq {pre suf : List Char} {part : List Byte} {n k : ℕ} (hk : 0 < k)
    (hpre : pre.length = n * 3) (hpart : part.length = n) (hn : n + k = hwaddrLen)
    (hnul : '\x00' ∉ suf) :
    hwaddrLoop (pre ++ suf) k n (part ++ List.replicate k 0) =
      some ((bytesOf k suf).map (part ++ ·)) := by
  induction k generalizing pre suf part n with
  | zero => exact absurd hk (lt_irrefl 0)
  | succ k ih =>
    by_cases hpair : ∃ a b t u v, suf = a :: b :: t ∧ hexValue a = some u ∧ hexValue b = some v
    · obtain ⟨a, b, t, u, v, rfl, ha, hb⟩ := hpair
      rw [List.replicate_succ, hwaddrLoop_pair hpre hpart ha hb]
      rcases t with - | ⟨c, t⟩
      · -- the argument ends here
        rw [show charAt [] 0 = some '\x00' from rfl, Option.bind_some,
          if_neg fun h => absurd h.2 (by decide), bytesOf_last ha hb]
        by_cases hlast : k = 0
        · rw [if_pos ⟨by omega, rfl⟩, if_pos hlast, hlast]
          rfl
        · rw [if_neg fun h => hlast (by omega), if_neg hlast]
          rfl
      · rw [show charAt (c :: t) 0 = some c from rfl, Option.bind_some]
        have hcnul : c ≠ '\x00' := fun h => hnul (by simp [h])
        by_cases hc : c = ':'
        · rw [hc, bytesOf_pair ha hb]
          by_cases hlast : k = 0
          · rw [if_neg fun h => by omega, if_neg fun h => absurd h.2 (by decide), hlast,
              bytesOf_zero]
            rfl
          · -- the next part
            have hnext := @ih (pre ++ [a, b, ':']) t (part ++ [BitVec.ofNat 8 (16 * u + v)])
              (n + 1) (by omega) (by simp [hpre]; omega) (by simp [hpart]) (by omega)
              (fun h => hnul (by simp [h]))
            simp only [List.append_assoc, List.cons_append, List.nil_append] at hnext
            rw [if_pos ⟨by omega, rfl⟩, hnext, Option.map_map]
            simp [Function.comp_def]
        · rw [if_neg fun h => hc h.2, if_neg fun h => hcnul h.2,
            bytesOf_third (ne_colon ha) (ne_colon hb) hc]
          rfl
    · have hbad : ∀ a b t u v, suf = a :: b :: t → hexValue a = some u → hexValue b = some v →
          False := fun a b t u v hs ha hb => hpair ⟨a, b, t, u, v, hs, ha, hb⟩
      obtain ⟨hloop, hbytes⟩ := hwaddrLoop_bad hpre hbad (part ++ List.replicate (k + 1) 0) k
      rw [hloop, hbytes]
      rfl

theorem not_mem_of_hexByte {p : List Char} {x : Byte} (h : hexByte p = some x) : ':' ∉ p := by
  rcases p with - | ⟨a, - | ⟨b, - | ⟨c, t⟩⟩⟩
  · cases h
  · cases h
  · cases ha : hexValue a with
    | none =>
      rw [hexByte_first ha] at h
      cases h
    | some u =>
      cases hb : hexValue b with
      | none =>
        rw [hexByte_second hb] at h
        cases h
      | some v => simp [(ne_colon ha).symm, (ne_colon hb).symm]
  · cases h

theorem mem_of_mapM {parts : List (List Char)} {bytes : List Byte}
    (h : parts.mapM hexByte = some bytes) : ∀ p ∈ parts, ∃ x, hexByte p = some x := by
  induction parts generalizing bytes with
  | nil => exact fun p hp => absurd hp List.not_mem_nil
  | cons q parts ih =>
    rw [List.mapM_cons] at h
    cases hq : hexByte q with
    | none =>
      rw [hq] at h
      cases h
    | some x =>
      cases hparts : parts.mapM hexByte with
      | none =>
        rw [hq, hparts] at h
        cases h
      | some xs =>
        intro p hp
        rcases List.mem_cons.mp hp with rfl | hp
        · exact ⟨x, hq⟩
        · exact ih hparts p hp

theorem macOf_eq_some_iff (arg : List Char) (bytes : List Byte) :
    macOf arg = some bytes ↔ HwaddrText arg bytes := by
  constructor
  · intro h
    rw [macOf] at h
    split at h
    · next hlen => exact ⟨arg.splitOn ':', hlen, (List.intercalate_splitOn ':').symm, h⟩
    · cases h
  · rintro ⟨parts, hlen, rfl, hmap⟩
    have hcolon : ∀ p ∈ parts, ':' ∉ p := fun p hp =>
      let ⟨_, hx⟩ := mem_of_mapM hmap p hp
      not_mem_of_hexByte hx
    rw [macOf, List.splitOn_intercalate ':' hcolon (List.ne_nil_of_length_pos (by omega)),
      if_pos hlen, hmap]

section Parse

variable {inet_aton : List Char → Option (BitVec 32)} {mac : List Byte} {conf : NetConfig}

/-- The loop over a whole argument. -/
theorem hwaddrLoop_arg {arg : List Char} (hnul : '\x00' ∉ arg) :
    hwaddrLoop arg hwaddrLen 0 (List.replicate hwaddrLen 0) = some (macOf arg) := by
  have h : hwaddrLoop ([] ++ arg) hwaddrLen 0 ([] ++ List.replicate hwaddrLen 0) =
      some ((bytesOf hwaddrLen arg).map ([] ++ ·)) :=
    hwaddrLoop_eq (by decide) rfl rfl rfl hnul
  rw [List.nil_append, List.nil_append] at h
  rw [h, show bytesOf hwaddrLen arg = macOf arg from rfl]
  cases macOf arg <;> rfl

theorem command_hwaddr {arg : List Char} (hnul : '\x00' ∉ arg) (hee : arg ≠ "eeprom".toList) :
    command inet_aton mac conf "hwaddr".toList (some arg) =
      some { conf with hwaddr := (macOf arg).getD conf.hwaddr } := by
  rw [command, if_neg (by decide), if_neg (by decide), if_neg (by decide), if_neg (by decide),
    if_pos rfl]
  simp only [if_neg hee, hwaddrLoop_arg hnul]
  cases macOf arg <;> rfl

/-- The `hwaddr` command sets the address that its argument has as a text, and otherwise changes
nothing. No character after the NUL is read. -/
theorem hwaddr_accepts {arg : List Char} (hnul : '\x00' ∉ arg) (hee : arg ≠ "eeprom".toList) :
    ∃ conf', command inet_aton mac conf "hwaddr".toList (some arg) = some conf' ∧
      (∀ bytes, HwaddrText arg bytes → conf' = { conf with hwaddr := bytes }) ∧
      ((∀ bytes, ¬ HwaddrText arg bytes) → conf' = conf) := by
  refine ⟨_, command_hwaddr hnul hee, ?_, ?_⟩
  · intro bytes h
    rw [(macOf_eq_some_iff arg bytes).mpr h]
    rfl
  · intro h
    cases hmac : macOf arg with
    | none => rfl
    | some bytes => exact absurd ((macOf_eq_some_iff arg bytes).mp hmac) (h bytes)

/-- An address in mixed case. -/
theorem hwaddr_accepts_mixed :
    (∃ conf', command (fun _ => none) [] ⟨0, 0, 0, 0, []⟩ "hwaddr".toList
        (some "00:0a:35:0F:fF:42".toList) = some conf' ∧
      (∀ bytes, HwaddrText "00:0a:35:0F:fF:42".toList bytes →
        conf' = ⟨0, 0, 0, 0, bytes⟩) ∧
      ((∀ bytes, ¬ HwaddrText "00:0a:35:0F:fF:42".toList bytes) → conf' = ⟨0, 0, 0, 0, []⟩)) ∧
    HwaddrText "00:0a:35:0F:fF:42".toList [0, 0x0A, 0x35, 0x0F, 0xFF, 0x42] :=
  ⟨hwaddr_accepts (by decide) (by decide), (macOf_eq_some_iff _ _).mp (by decide)⟩

/-! ## Words -/

theorem head_dropWhile {p : Char → Bool} {s t : List Char} {c : Char} (h : s.dropWhile p = c :: t) :
    p c = false := by
  have hhead := List.head?_dropWhile_not p s
  rwa [h] at hhead

/-- The words of a text without a NUL. -/
def wordsOf (text : List Char) : List (List Char) := (text.splitOnP lwip_isspace).filter (· ≠ [])

theorem wordsOf_space {c : Char} (hc : lwip_isspace c = true) (t : List Char) :
    wordsOf (c :: t) = wordsOf t := by
  rw [wordsOf, List.splitOnP_cons_eq_if_modifyHead, if_pos hc, List.filter_cons,
    if_neg (by decide), wordsOf]

theorem wordsOf_dropWhile (t : List Char) : wordsOf (t.dropWhile lwip_isspace) = wordsOf t := by
  induction t with
  | nil => rfl
  | cons c t ih =>
    rw [List.dropWhile_cons]
    split
    · next hc => rw [ih, wordsOf_space hc]
    · rfl

/-- A text that starts with a word: the word and the words after it. -/
theorem wordsOf_word {c : Char} (hc : lwip_isspace c = false) (t : List Char) :
    wordsOf (c :: t) = (c :: t).takeWhile (!lwip_isspace ·) ::
      wordsOf ((c :: t).dropWhile (!lwip_isspace ·)) := by
  have hne : (c :: t).takeWhile (!lwip_isspace ·) ≠ [] := by
    rw [List.takeWhile_cons, hc]
    exact List.cons_ne_nil _ _
  have hword : ∀ x ∈ (c :: t).takeWhile (!lwip_isspace ·), lwip_isspace x = false := by
    intro x hx
    simpa using List.mem_takeWhile_imp hx
  conv_lhs => rw [← List.takeWhile_append_dropWhile (p := (!lwip_isspace ·)) (l := c :: t)]
  cases hrest : (c :: t).dropWhile (!lwip_isspace ·) with
  | nil =>
    rw [List.append_nil, wordsOf, List.splitOnP_eq_singleton hword, List.filter_cons,
      if_pos (by simpa using hne)]
    rfl
  | cons d u =>
    have hd : lwip_isspace d = true := by simpa using head_dropWhile hrest
    rw [wordsOf, List.splitOnP_append_cons_of_forall_mem hword d hd, List.filter_cons,
      if_pos (by simpa using hne), wordsOf_space hd, wordsOf]

/-- The body of the loop in terms of the words of the line. -/
theorem parseLine_eq (conf : NetConfig) (lbuf : List Char) :
    parseLine inet_aton mac conf lbuf =
      match words lbuf with
      | [] => some conf
      | cmd :: args =>
        if cmd.head? = some '#' then some conf else command inet_aton mac conf cmd args.head? := by
  have hwords : words lbuf = wordsOf ((lbuf.takeWhile (· ≠ '\x00')).dropWhile lwip_isspace) :=
    (wordsOf_dropWhile _).symm
  rw [hwords, parseLine]
  cases hline : (lbuf.takeWhile (· ≠ '\x00')).dropWhile lwip_isspace with
  | nil => rfl
  | cons c t =>
    have hc : lwip_isspace c = false := head_dropWhile hline
    have hhead : ((c :: t).takeWhile (!lwip_isspace ·)).head? = some c := by
      rw [List.takeWhile_cons, hc]
      rfl
    rw [wordsOf_word hc]
    dsimp only
    rw [hhead, List.head?_cons]
    by_cases hhash : some c = some '#'
    · rw [if_pos (.inr hhash), if_pos hhash]
    · rw [if_neg (by simpa using hhash), if_neg hhash, ← wordsOf_dropWhile]
      congr 1
      cases hrest : ((c :: t).dropWhile (!lwip_isspace ·)).dropWhile lwip_isspace with
      | nil => rfl
      | cons d u =>
        rw [wordsOf_word (head_dropWhile hrest)]
        rfl

theorem wordsOf_newline (t : List Char) : wordsOf (t ++ ['\n']) = wordsOf t := by
  rw [wordsOf, List.splitOnP_append_cons t [] (by decide), List.filter_append, List.splitOnP_nil,
    List.filter_cons, if_neg (by decide), List.filter_nil, List.append_nil, wordsOf]

theorem words_newline (line : List Char) : words (line ++ ['\n']) = words line := by
  change wordsOf _ = wordsOf _
  rw [List.takeWhile_append]
  split
  · next hlen =>
    have hall : line.takeWhile (· ≠ '\x00') = line :=
      (List.takeWhile_prefix _).eq_of_length hlen
    rw [hall]
    exact wordsOf_newline line
  · rfl

theorem mem_of_mem_splitOnP {q : Char → Bool} {s p : List Char} {c : Char} (hp : p ∈ s.splitOnP q)
    (hc : c ∈ p) : c ∈ s := by
  induction s generalizing p with
  | nil =>
    rw [List.splitOnP_nil, List.mem_singleton] at hp
    exact hp ▸ hc
  | cons d s ih =>
    obtain ⟨r, rs, hr⟩ := List.exists_cons_of_ne_nil (List.splitOnP_ne_nil q s)
    rw [List.splitOnP_cons_eq_if_modifyHead] at hp
    split at hp
    · rcases List.mem_cons.mp hp with rfl | hp
      · exact absurd hc List.not_mem_nil
      · exact List.mem_cons_of_mem d (ih hp hc)
    · rw [hr, List.modifyHead_cons] at hp
      rcases List.mem_cons.mp hp with rfl | hp
      · rcases List.mem_cons.mp hc with rfl | hc
        · exact List.mem_cons_self
        · exact List.mem_cons_of_mem d (ih (hr ▸ List.mem_cons_self) hc)
      · exact List.mem_cons_of_mem d (ih (hr ▸ List.mem_cons_of_mem r hp) hc)

theorem nul_not_mem_words {line w : List Char} (hw : w ∈ words line) : '\x00' ∉ w := by
  intro hnul
  have hmem := mem_of_mem_splitOnP (List.mem_filter.mp hw).1 hnul
  simpa using List.mem_takeWhile_imp hmem

/-! ## Lines -/

/-- Where an argument is required and missing, or not, a line has the effect that is meant. -/
theorem effect_meant {line cmd : List Char} {args : List (List Char)}
    (hwords : words line = cmd :: args) (hdhcp : cmd = "dhcp".toList → args ≠ [])
    (hhwaddr : cmd = "hwaddr".toList → args ≠ [])
    (haddr : cmd = "addr".toList → args.head?.bind inet_aton ≠ none) :
    Effect inet_aton mac conf line (meant inet_aton mac conf line) := by
  have h1 : ¬ words line = ["dhcp".toList] := by
    rw [hwords]
    exact fun h => hdhcp (List.cons.inj h).1 (List.cons.inj h).2
  have h2 : ¬ words line = ["hwaddr".toList] := by
    rw [hwords]
    exact fun h => hhwaddr (List.cons.inj h).1 (List.cons.inj h).2
  have h3 : ¬ ((words line).head? = some "addr".toList ∧
      (words line)[1]?.bind inet_aton = none) := by
    rw [hwords, List.head?_cons, List.getElem?_cons_succ, ← List.head?_eq_getElem?]
    exact fun h => haddr (Option.some.inj h.1) h.2
  rw [Effect, if_neg h1, if_neg h2, if_neg h3]

theorem parse_inet_eq (arg : Option (List Char)) (out : BitVec 32) :
    sdcard_parse_inet inet_aton arg out = (arg.bind inet_aton).getD out := by
  cases arg <;> rfl

theorem effect_dhcp {line : List Char} {args : List (List Char)}
    (hwords : words line = "dhcp".toList :: args) :
    ∃ conf', command inet_aton mac conf "dhcp".toList args.head? = some conf' ∧
      Effect inet_aton mac conf line conf' := by
  unfold command
  rw [if_pos rfl]
  rcases args with - | ⟨arg, args⟩
  · refine ⟨_, if_pos (.inl rfl), ?_⟩
    rw [Effect, hwords, if_pos rfl]
  · have heff : Effect inet_aton mac conf line (meant inet_aton mac conf line) :=
      effect_meant hwords (fun _ => List.cons_ne_nil _ _) (fun _ => List.cons_ne_nil _ _)
        (fun h => absurd h (by decide))
    simp only [meant, hwords, if_neg (show ¬ "dhcp".toList.head? = some '#' by decide),
      if_true] at heff
    refine ⟨_, ?_, heff⟩
    by_cases hyes : (arg :: args).head? = some "yes".toList
    · rw [if_pos (.inr hyes), if_pos hyes]
    have harg : ¬ ((arg :: args).head? = none ∨ (arg :: args).head? = some "yes".toList) :=
      not_or.mpr ⟨Option.some_ne_none arg, hyes⟩
    by_cases hno : (arg :: args).head? = some "no".toList
    · rw [if_neg harg, if_pos hno, if_neg hyes, if_pos hno]
    · rw [if_neg harg, if_neg hno, if_neg hyes, if_neg hno]

theorem effect_addr {line : List Char} {args : List (List Char)}
    (hwords : words line = "addr".toList :: args) :
    ∃ conf', command inet_aton mac conf "addr".toList args.head? = some conf' ∧
      Effect inet_aton mac conf line conf' := by
  unfold command
  rw [if_neg (by decide), if_pos rfl]
  refine ⟨_, rfl, ?_⟩
  rw [parse_inet_eq]
  cases harg : args.head?.bind inet_aton with
  | none =>
    have hargs : (words line)[1]?.bind inet_aton = none := by
      rw [hwords, List.getElem?_cons_succ, ← List.head?_eq_getElem?, harg]
    have hcmd : (words line).head? = some "addr".toList := by rw [hwords, List.head?_cons]
    have hne : ∀ w : List Char, w ≠ "addr".toList → ¬ words line = [w] := by
      intro w hw h
      rw [h] at hcmd
      exact hw (Option.some.inj hcmd)
    rw [Effect, if_neg (hne _ (by decide)), if_neg (hne _ (by decide)), if_pos ⟨hcmd, hargs⟩]
    rfl
  | some a =>
    have heff : Effect inet_aton mac conf line (meant inet_aton mac conf line) :=
      effect_meant hwords (fun h => absurd h (by decide)) (fun h => absurd h (by decide))
        (fun _ => by rw [harg]; exact Option.some_ne_none a)
    rw [meant, hwords] at heff
    dsimp only at heff
    rwa [if_neg (by decide), if_neg (by decide), if_pos rfl, harg] at heff

theorem effect_mask {line : List Char} {args : List (List Char)}
    (hwords : words line = "mask".toList :: args) :
    ∃ conf', command inet_aton mac conf "mask".toList args.head? = some conf' ∧
      Effect inet_aton mac conf line conf' := by
  have heff : Effect inet_aton mac conf line (meant inet_aton mac conf line) :=
    effect_meant hwords (fun h => absurd h (by decide)) (fun h => absurd h (by decide))
      (fun h => absurd h (by decide))
  rw [meant, hwords] at heff
  dsimp only at heff
  rw [if_neg (by decide), if_neg (by decide), if_neg (by decide), if_pos rfl] at heff
  unfold command
  rw [if_neg (by decide), if_neg (by decide), if_pos rfl]
  refine ⟨_, rfl, ?_⟩
  rw [parse_inet_eq]
  cases harg : args.head?.bind inet_aton <;> rw [harg] at heff <;> exact heff

theorem effect_gw {line : List Char} {args : List (List Char)}
    (hwords : words line = "gw".toList :: args) :
    ∃ conf', command inet_aton mac conf "gw".toList args.head? = some conf' ∧
      Effect inet_aton mac conf line conf' := by
  have heff : Effect inet_aton mac conf line (meant inet_aton mac conf line) :=
    effect_meant hwords (fun h => absurd h (by decide)) (fun h => absurd h (by decide))
      (fun h => absurd h (by decide))
  rw [meant, hwords] at heff
  dsimp only at heff
  rw [if_neg (by decide), if_neg (by decide), if_neg (by decide), if_neg (by decide), if_pos rfl]
    at heff
  unfold command
  rw [if_neg (by decide), if_neg (by decide), if_neg (by decide), if_pos rfl]
  refine ⟨_, rfl, ?_⟩
  rw [parse_inet_eq]
  cases harg : args.head?.bind inet_aton <;> rw [harg] at heff <;> exact heff

theorem effect_hwaddr {line : List Char} {args : List (List Char)}
    (hwords : words line = "hwaddr".toList :: args) :
    ∃ conf', command inet_aton mac conf "hwaddr".toList args.head? = some conf' ∧
      Effect inet_aton mac conf line conf' := by
  rcases args with - | ⟨arg, args⟩
  · refine ⟨{ conf with hwaddr := mac }, ?_, ?_⟩
    · unfold command
      rw [if_neg (by decide), if_neg (by decide), if_neg (by decide), if_neg (by decide),
        if_pos rfl]
      rfl
    · rw [Effect, hwords, if_neg (by decide), if_pos rfl]
  · have heff : Effect inet_aton mac conf line (meant inet_aton mac conf line) :=
      effect_meant hwords (fun _ => List.cons_ne_nil _ _) (fun _ => List.cons_ne_nil _ _)
        (fun h => absurd h (by decide))
    rw [meant, hwords] at heff
    dsimp only at heff
    rw [if_neg (by decide), if_neg (by decide), if_neg (by decide), if_neg (by decide),
      if_neg (by decide), if_pos rfl, List.head?_cons] at heff
    refine ⟨_, ?_, heff⟩
    rw [List.head?_cons]
    dsimp only
    split
    · next hee =>
      rw [command, if_neg (by decide), if_neg (by decide), if_neg (by decide),
        if_neg (by decide), if_pos rfl]
      exact if_pos hee
    · next hee =>
      have hmem : arg ∈ words line := hwords ▸ List.mem_cons_of_mem _ List.mem_cons_self
      exact command_hwaddr (nul_not_mem_words hmem) hee

/-- The effect of a command. -/
theorem command_effect {line cmd : List Char} {args : List (List Char)}
    (hwords : words line = cmd :: args) (hhash : cmd.head? ≠ some '#') :
    ∃ conf', command inet_aton mac conf cmd args.head? = some conf' ∧
      Effect inet_aton mac conf line conf' := by
  by_cases h1 : cmd = "dhcp".toList
  · subst h1
    exact effect_dhcp hwords
  by_cases h2 : cmd = "addr".toList
  · subst h2
    exact effect_addr hwords
  by_cases h3 : cmd = "mask".toList
  · subst h3
    exact effect_mask hwords
  by_cases h4 : cmd = "gw".toList
  · subst h4
    exact effect_gw hwords
  by_cases h5 : cmd = "hwaddr".toList
  · subst h5
    exact effect_hwaddr hwords
  · -- no command: the line does nothing
    have heff : Effect inet_aton mac conf line (meant inet_aton mac conf line) :=
      effect_meant hwords (fun h => absurd h h1) (fun h => absurd h h5) (fun h => absurd h h2)
    simp only [meant, hwords, if_neg hhash, if_neg h1, if_neg h2, if_neg h3, if_neg h4, if_neg h5]
      at heff
    refine ⟨conf, ?_, heff⟩
    unfold command
    rw [if_neg h1, if_neg h2, if_neg h3, if_neg h4, if_neg h5]

/-- A line that is parsed has its effect. -/
theorem parseLine_effect (inet_aton : List Char → Option (BitVec 32)) (mac : List Byte)
    (conf : NetConfig) (line : List Char) :
    ∃ conf', parseLine inet_aton mac conf line = some conf' ∧
      Effect inet_aton mac conf line conf' := by
  rw [parseLine_eq]
  cases hwords : words line with
  | nil =>
    refine ⟨conf, rfl, ?_⟩
    simp [Effect, meant, hwords]
  | cons cmd args =>
    dsimp only
    split
    · next hhash =>
      have hne : ∀ w : List Char, w.head? ≠ some '#' → cmd = w → False := fun w hw h =>
        hw (h ▸ hhash)
      have heff : Effect inet_aton mac conf line (meant inet_aton mac conf line) :=
        effect_meant hwords (fun h => (hne _ (by decide) h).elim)
          (fun h => (hne _ (by decide) h).elim) (fun h => (hne _ (by decide) h).elim)
      simp only [meant, hwords, if_pos hhash] at heff
      exact ⟨conf, rfl, heff⟩
    · next hhash => exact command_effect hwords hhash

/-- A newline at its end makes no difference to a line. -/
theorem parseLine_newline (conf : NetConfig) (line : List Char) :
    parseLine inet_aton mac conf (line ++ ['\n']) = parseLine inet_aton mac conf line := by
  rw [parseLine_eq, parseLine_eq, words_newline]

/-- `f_gets` goes through a line that fits. -/
theorem f_gets_line {line : List Char} (hline : '\n' ∉ line) {n : ℕ} (hlen : line.length ≤ n)
    (rest : List Char) :
    f_gets n (line ++ rest) =
      (line ++ (f_gets (n - line.length) rest).1, (f_gets (n - line.length) rest).2) := by
  induction line generalizing n with
  | nil => rfl
  | cons c line ih =>
    obtain ⟨n, rfl⟩ : ∃ m, n = m + 1 := ⟨n - 1, by simp at hlen; omega⟩
    have hc : c ≠ '\n' := fun h => hline (by simp [h])
    rw [List.cons_append, f_gets, if_neg hc, ih (fun h => hline (List.mem_cons_of_mem c h))
      (by simpa using hlen), List.length_cons, Nat.add_sub_add_right]
    rfl

theorem netconf_nil (conf : NetConfig) : sdcard_netconf inet_aton mac conf [] = some conf := by
  rw [sdcard_netconf]
  rfl

theorem netconf_step {file lbuf rest : List Char} (h : f_gets 63 file = (lbuf, rest))
    (hne : lbuf ≠ []) (conf : NetConfig) :
    sdcard_netconf inet_aton mac conf file =
      (parseLine inet_aton mac conf lbuf).bind (sdcard_netconf inet_aton mac · rest) := by
  obtain ⟨c, line, rfl⟩ := List.exists_cons_of_ne_nil hne
  rw [sdcard_netconf]
  split
  · next h' =>
    rw [h] at h'
    cases h'
  · next h' =>
    rw [h] at h'
    cases h'
    rfl

theorem effect_blank (conf : NetConfig) : Effect inet_aton mac conf [] conf := by
  simp [Effect, meant, words]

/-- A line that fits has its effect, and the next line is read from its start. -/
theorem netconf_line (inet_aton : List Char → Option (BitVec 32)) (mac : List Byte)
    {line : List Char} (hline : '\n' ∉ line) (hlen : line.length ≤ lineMax) (conf : NetConfig) :
    ∃ conf', Effect inet_aton mac conf line conf' ∧ ∀ rest,
      sdcard_netconf inet_aton mac conf (line ++ '\n' :: rest) =
        sdcard_netconf inet_aton mac conf' rest := by
  obtain ⟨conf', hparse, heff⟩ := parseLine_effect inet_aton mac conf line
  refine ⟨conf', heff, fun rest => ?_⟩
  have hgets := f_gets_line hline hlen ('\n' :: rest)
  rcases hlen.lt_or_eq with hlt | heq
  · obtain ⟨k, hk⟩ : ∃ k, lineMax - line.length = k + 1 :=
      ⟨lineMax - line.length - 1, by omega⟩
    rw [hk, f_gets, if_pos rfl] at hgets
    rw [netconf_step hgets (by simp), parseLine_newline, hparse, Option.bind_some]
  · -- the newline is left for a piece of its own
    have hpos : 0 < line.length := by rw [heq, lineMax]; decide
    rw [heq, Nat.sub_self, f_gets, List.append_nil] at hgets
    have hpiece : f_gets lineMax ('\n' :: rest) = (['\n'], rest) := rfl
    have hblank : parseLine inet_aton mac conf' ['\n'] = some conf' := rfl
    rw [netconf_step hgets (List.ne_nil_of_length_pos hpos), hparse, Option.bind_some,
      netconf_step hpiece (List.cons_ne_nil _ _), hblank, Option.bind_some]

/-- The last line, without a newline. -/
theorem netconf_last (inet_aton : List Char → Option (BitVec 32)) (mac : List Byte)
    {line : List Char} (hline : '\n' ∉ line) (hlen : line.length ≤ lineMax) (conf : NetConfig) :
    ∃ conf', sdcard_netconf inet_aton mac conf line = some conf' ∧
      Effect inet_aton mac conf line conf' := by
  by_cases hnil : line = []
  · rw [hnil]
    exact ⟨conf, netconf_nil conf, effect_blank conf⟩
  · obtain ⟨conf', hparse, heff⟩ := parseLine_effect inet_aton mac conf line
    have hgets := f_gets_line hline hlen []
    have hend : ∀ k, f_gets k [] = ([], []) := fun k => by cases k <;> rfl
    rw [List.append_nil, hend, List.append_nil] at hgets
    refine ⟨conf', ?_, heff⟩
    rw [netconf_step hgets hnil, hparse, Option.bind_some, netconf_nil]

/-- Of a longer line one piece is taken. -/
theorem netconf_long (inet_aton : List Char → Option (BitVec 32)) (mac : List Byte)
    {line : List Char} (hline : '\n' ∉ line) (hlen : lineMax < line.length) (conf : NetConfig) :
    ∃ conf', ∀ rest, sdcard_netconf inet_aton mac conf (line ++ rest) =
      sdcard_netconf inet_aton mac conf' (line.drop lineMax ++ rest) := by
  obtain ⟨conf', hparse, -⟩ := parseLine_effect inet_aton mac conf (line.take lineMax)
  refine ⟨conf', fun rest => ?_⟩
  have htake : (line.take lineMax).length = lineMax := List.length_take_of_le hlen.le
  have hgets := f_gets_line (fun h => hline (List.mem_of_mem_take h)) htake.le
    (line.drop lineMax ++ rest)
  rw [htake, Nat.sub_self, f_gets, List.append_nil, ← List.append_assoc, List.take_append_drop]
    at hgets
  have hne : line.take lineMax ≠ [] :=
    List.ne_nil_of_length_pos (by rw [htake, lineMax]; decide)
  rw [netconf_step hgets hne, hparse, Option.bind_some]

/-- The effect of the rest of a long first line is left open too. -/
theorem Effects.of_first {conf conf' conf'' : NetConfig} {line line' : List Char}
    {lines : List (List Char)} (h : Effects inet_aton mac conf' (line' :: lines) conf'')
    (hlong : lineMax < line.length) : Effects inet_aton mac conf (line :: lines) conf'' := by
  cases h with
  | cons _ hrest => exact .cons (fun hlen => absurd hlen (Nat.not_le.mpr hlong)) hrest

/-- Of every file each line that fits the buffer has its effect, one after the other, whatever the
longer lines among them do. -/
theorem netconf_effects (inet_aton : List Char → Option (BitVec 32)) (mac : List Byte)
    (conf : NetConfig) (file : List Char) :
    ∃ conf', sdcard_netconf inet_aton mac conf file = some conf' ∧
      Effects inet_aton mac conf (file.splitOn '\n') conf' := by
  induction hn : file.length using Nat.strong_induction_on generalizing file conf with
  | _ n ih =>
    by_cases hmem : '\n' ∈ file
    · obtain ⟨line, rest, rfl, hline⟩ := List.eq_append_cons_of_mem hmem
      rw [List.splitOn_append_cons_self_of_not_mem hline]
      rw [List.length_append, List.length_cons] at hn
      rcases Nat.lt_or_ge lineMax line.length with hlong | hfits
      · obtain ⟨conf1, hstep⟩ := netconf_long inet_aton mac hline hlong conf
        have hdrop : '\n' ∉ line.drop lineMax := fun h => hline (List.mem_of_mem_drop h)
        obtain ⟨conf2, hrest, heffs⟩ := ih (line.drop lineMax ++ '\n' :: rest).length
          (by rw [List.length_append, List.length_drop, List.length_cons, lineMax] at *; omega)
          conf1 _ rfl
        rw [List.splitOn_append_cons_self_of_not_mem hdrop] at heffs
        exact ⟨conf2, (hstep _).trans hrest, heffs.of_first hlong⟩
      · obtain ⟨conf1, heff, hstep⟩ := netconf_line inet_aton mac hline hfits conf
        obtain ⟨conf2, hrest, heffs⟩ := ih rest.length (by omega) conf1 rest rfl
        exact ⟨conf2, (hstep rest).trans hrest, .cons (fun _ => heff) heffs⟩
    · rw [List.splitOn_eq_singleton hmem]
      rcases Nat.lt_or_ge lineMax file.length with hlong | hfits
      · obtain ⟨conf1, hstep⟩ := netconf_long inet_aton mac hmem hlong conf
        have hdrop : '\n' ∉ file.drop lineMax := fun h => hmem (List.mem_of_mem_drop h)
        obtain ⟨conf2, hrest, heffs⟩ := ih (file.drop lineMax).length
          (by rw [List.length_drop, lineMax] at *; omega) conf1 _ rfl
        rw [List.splitOn_eq_singleton hdrop] at heffs
        have hstep' := hstep []
        rw [List.append_nil, List.append_nil] at hstep'
        exact ⟨conf2, hstep'.trans hrest, heffs.of_first hlong⟩
      · obtain ⟨conf1, hlast, heff⟩ := netconf_last inet_aton mac hmem hfits conf
        exact ⟨conf1, hlast, .cons (fun _ => heff) (.nil conf1)⟩

/-! ## Files -/

/-- The configuration before the file is read. -/
def zeroConf : NetConfig := ⟨0, 0, 0, 0, List.replicate hwaddrLen 0⟩

/-- The address in the EEPROM. -/
def eepromMac : List Byte := [0xD8, 0x80, 0x39, 0x01, 0x02, 0x03]

/-- The end of a long comment is taken for a line, and `dhcp`, `hwaddr` and `addr` without a valid
argument change a field. -/
theorem netconf_not_meant :
    (∀ file ∈ ['#' :: List.replicate 62 ' ' ++ "dhcp yes".toList, "dhcp".toList, "hwaddr".toList],
      ¬ LineByLine (fun _ => none) eepromMac { zeroConf with use_static := 1 } file) ∧
    ∀ file ∈ ["addr".toList, "addr x".toList],
      ¬ LineByLine (fun _ => none) eepromMac zeroConf file := by
  -- a file that fits the buffer is one piece
  have hpiece : ∀ (conf : NetConfig) (file : List Char), f_gets 63 file = (file, []) → file ≠ [] →
      sdcard_netconf (fun _ => none) eepromMac conf file =
        parseLine (fun _ => none) eepromMac conf file := by
    intro conf file hgets hne
    rw [netconf_step hgets hne, Option.bind_congr fun a _ => netconf_nil a, Option.bind_fun_some]
  have hlong : f_gets 63 ('#' :: List.replicate 62 ' ' ++ "dhcp yes".toList) =
      ('#' :: List.replicate 62 ' ', "dhcp yes".toList) := by decide
  have hcomment : ∀ conf, parseLine (fun _ => none) eepromMac conf
      ('#' :: List.replicate 62 ' ') = some conf := fun conf => rfl
  constructor
  · simp only [List.forall_mem_cons, List.not_mem_nil, false_imp_iff, implies_true, and_true]
    refine ⟨?_, ?_, ?_⟩
    · rw [LineByLine, netconf_step hlong (List.cons_ne_nil _ _), hcomment, Option.bind_some,
        hpiece _ _ (by decide) (by decide)]
      decide
    · rw [LineByLine, hpiece _ _ (by decide) (by decide)]
      decide
    · rw [LineByLine, hpiece _ _ (by decide) (by decide)]
      decide
  · simp only [List.forall_mem_cons, List.not_mem_nil, false_imp_iff, implies_true, and_true]
    refine ⟨?_, ?_⟩
    · rw [LineByLine, hpiece _ _ (by decide) (by decide)]
      decide
    · rw [LineByLine, hpiece _ _ (by decide) (by decide)]
      decide

end Parse

end Zpsc.NetConf
