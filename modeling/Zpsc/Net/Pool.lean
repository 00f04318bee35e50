import Mathlib.Tactic.Common
import Zpsc.Net.Pbuf

/-!
# A pool of packet buffers

`Pbufs` at one value. The pool is a list of cells in which an address is an index; a freed cell
stays as `none`, so an address is never used twice. A chain is followed from buffer to buffer with
as much fuel as there are buffers.
-/

namespace Pbuf

open Bits

abbrev Pool := List (Option Buf)

namespace Pool

def get (h : Pool) (p : ℕ) : Option Buf := (h[p]?).join

def allocated (h : Pool) : ℕ := h.countP Option.isSome

/-- A chain of buffers from address `n` on. -/
def chainFrom : ℕ → List (List Byte) → Pool
  | _, [] => []
  | n, payload :: ps =>
    some ⟨payload, if ps = [] then none else some (n + 1), 1⟩ :: chainFrom (n + 1) ps

def receive (h : Pool) (ps : List (List Byte)) : Pool × ℕ := (h ++ chainFrom h.length ps, h.length)

def pbuf_alloc (h : Pool) (payload : List Byte) : Pool × ℕ :=
  (h ++ [some ⟨payload, none, 1⟩], h.length)

def pbuf_ref (h : Pool) (p : ℕ) : Pool :=
  match get h p with
  | some b => h.set p (some { b with ref := b.ref + 1 })
  | none => h

/-- Hang the chain `t` on the end of the chain `p`. -/
def pbuf_cat (h : Pool) (p t : ℕ) : ℕ → Pool
  | 0 => h
  | fuel + 1 =>
    match get h p with
    | none => h
    | some b =>
      match b.next with
      | some p' => pbuf_cat h p' t fuel
      | none => h.set p (some { b with next := some t })

def pbuf_chain (h : Pool) (p t : ℕ) : Pool := pbuf_ref (pbuf_cat h p t (allocated h)) t

def freeChain (h : Pool) (p : ℕ) : ℕ → Pool
  | 0 => h
  | fuel + 1 =>
    match get h p with
    | none => h
    | some b =>
      if b.ref = 1 then
        match b.next with
        | some p' => freeChain (h.set p none) p' fuel
        | none => h.set p none
      else h.set p (some { b with ref := b.ref - 1 })

def pbuf_free (h : Pool) (p : ℕ) : Pool := freeChain h p (allocated h)

/-- The bytes of a chain. -/
def bytes (h : Pool) (p : ℕ) : ℕ → List Byte
  | 0 => []
  | fuel + 1 =>
    match get h p with
    | none => []
    | some b => b.payload ++ (b.next.map fun p' => bytes h p' fuel).getD []

def pbuf_copy_partial (h : Pool) (p len : ℕ) : List Byte := (bytes h p (allocated h)).take len

/-! ## Reading and counting -/

variable {h : Pool} {p : ℕ} {b : Buf}

theorem lt_length_of_get (hp : get h p = some b) : p < h.length := by
  by_contra hge
  rw [get, List.getElem?_eq_none (Nat.not_lt.mp hge)] at hp
  cases hp

theorem get_append_left (hp : p < h.length) (h' : Pool) : get (h ++ h') p = get h p := by
  rw [get, get, List.getElem?_append_left hp]

theorem get_set (hp : p < h.length) (b : Option Buf) :
    get (h.set p b) = Function.update (get h) p b := by
  funext q
  by_cases hq : q = p
  · subst hq
    rw [Function.update_self, get, List.getElem?_set_self hp]
    rfl
  · rw [Function.update_of_ne hq, get, get, List.getElem?_set_ne (Ne.symm hq)]

theorem get_alloc (h : Pool) (payload : List Byte) :
    get (pbuf_alloc h payload).1 = Function.update (get h) h.length (some ⟨payload, none, 1⟩) := by
  funext q
  rw [pbuf_alloc]
  rcases Nat.lt_trichotomy q h.length with hq | rfl | hq
  · rw [Function.update_of_ne (Nat.ne_of_lt hq), get_append_left hq]
  · rw [Function.update_self]
    simp [get]
  · rw [Function.update_of_ne (Nat.ne_of_gt hq), get, get, List.getElem?_eq_none (Nat.le_of_lt hq),
      List.getElem?_eq_none (by rw [List.length_append, List.length_singleton]; omega)]

theorem allocated_append (h h' : Pool) : allocated (h ++ h') = allocated h + allocated h' :=
  List.countP_append

theorem allocated_set (hp : get h p = some b) (b' : Option Buf) :
    allocated (h.set p b') + 1 = allocated h + if b'.isSome then 1 else 0 := by
  have hlt := lt_length_of_get hp
  have hcell : h[p] = some b := by
    rw [get, List.getElem?_eq_getElem hlt] at hp
    exact hp
  have hpos : 0 < allocated h :=
    List.countP_pos_iff.mpr ⟨_, List.getElem_mem hlt, by rw [hcell]; rfl⟩
  have hset := List.countP_set (p := Option.isSome) (a := b') hlt
  rw [hcell] at hset
  simp only [allocated, Option.isSome_some, if_true] at hset hpos ⊢
  omega

/-- Changing an allocated buffer leaves the count. -/
theorem allocated_set_some (hp : get h p = some b) (b' : Buf) :
    allocated (h.set p (some b')) = allocated h := by
  simpa using allocated_set hp (some b')

/-- Giving back a buffer lowers the count by one. -/
theorem allocated_set_none (hp : get h p = some b) :
    allocated (h.set p none) + 1 = allocated h := by
  simpa using allocated_set hp none

theorem allocated_pos (hp : get h p = some b) : 0 < allocated h := by
  have := allocated_set_none hp
  omega

theorem allocated_chainFrom (n : ℕ) (ps : List (List Byte)) :
    allocated (chainFrom n ps) = ps.length := by
  induction ps generalizing n with
  | nil => rfl
  | cons payload ps ih =>
    rw [chainFrom, List.length_cons, ← ih (n + 1)]
    exact List.countP_cons_of_pos rfl

theorem bytes_chainFrom (h : Pool) (payload : List Byte) (ps : List (List Byte)) {fuel : ℕ}
    (hfuel : ps.length < fuel) :
    bytes (h ++ chainFrom h.length (payload :: ps)) h.length fuel = (payload :: ps).flatten := by
  induction ps generalizing h payload fuel with
  | nil =>
    obtain ⟨fuel, rfl⟩ := Nat.exists_eq_succ_of_ne_zero (Nat.ne_of_gt hfuel)
    simp [bytes, chainFrom, get]
  | cons payload' ps ih =>
    obtain ⟨fuel, rfl⟩ := Nat.exists_eq_succ_of_ne_zero (Nat.ne_of_gt (Nat.zero_lt_of_lt hfuel))
    have hnext := ih (h ++ [some ⟨payload, some (h.length + 1), 1⟩]) payload'
      (Nat.lt_of_succ_lt_succ hfuel)
    rw [List.length_append, List.length_singleton, List.append_assoc] at hnext
    have hcell : get (h ++ chainFrom h.length (payload :: payload' :: ps)) h.length =
        some ⟨payload, some (h.length + 1), 1⟩ := by
      simp [get, chainFrom]
    rw [bytes, hcell, List.flatten_cons, ← hnext]
    rfl

theorem allocated_cat (h : Pool) (p t fuel : ℕ) :
    allocated (pbuf_cat h p t fuel) = allocated h := by
  induction fuel generalizing p with
  | zero => rfl
  | succ fuel ih =>
    rw [pbuf_cat]
    cases hp : get h p with
    | none => rfl
    | some b =>
      cases hnext : b.next with
      | some q => simpa only [hnext] using ih q
      | none => simpa only [hnext] using allocated_set_some hp _

theorem allocated_chain (h : Pool) (p t : ℕ) : allocated (pbuf_chain h p t) = allocated h := by
  have hcat := allocated_cat h p t (allocated h)
  rw [pbuf_chain, pbuf_ref]
  cases ht : get (pbuf_cat h p t (allocated h)) t with
  | none => exact hcat
  | some b => exact (allocated_set_some ht _).trans hcat

/-- The last reference to a buffer gives it back and goes on with the next. -/
theorem free_next {q : ℕ} (hp : get h p = some b) (href : b.ref = 1) (hnext : b.next = some q) :
    pbuf_free h p = pbuf_free (h.set p none) q := by
  rw [pbuf_free, pbuf_free, ← allocated_set_none hp]
  simp only [freeChain, hp, href, hnext, if_true]

/-- A buffer that someone else refers to stays. -/
theorem free_shared (hp : get h p = some b) (href : 1 < b.ref) :
    pbuf_free h p = h.set p (some { b with ref := b.ref - 1 }) := by
  obtain ⟨m, hm⟩ := Nat.exists_eq_succ_of_ne_zero (Nat.ne_of_gt (allocated_pos hp))
  rw [pbuf_free, hm]
  simp only [freeChain, hp, if_neg (Nat.ne_of_gt href)]

theorem chain_eq {t : ℕ} {b' : Buf} (hp : get h p = some b) (hnext : b.next = none) (hpt : p ≠ t)
    (ht : get h t = some b') :
    pbuf_chain h p t =
      (h.set p (some { b with next := some t })).set t (some { b' with ref := b'.ref + 1 }) := by
  obtain ⟨m, hm⟩ := Nat.exists_eq_succ_of_ne_zero (Nat.ne_of_gt (allocated_pos hp))
  have ht' : get (h.set p (some { b with next := some t })) t = some b' := by
    rw [get_set (lt_length_of_get hp), Function.update_of_ne hpt.symm, ht]
  rw [pbuf_chain, hm, pbuf_cat, hp]
  simp only [hnext, pbuf_ref, ht']

end Pool

instance : Pbufs Pool where
  get := Pool.get
  allocated := Pool.allocated
  receive := Pool.receive
  pbuf_alloc := Pool.pbuf_alloc
  pbuf_chain := Pool.pbuf_chain
  pbuf_free := Pool.pbuf_free
  pbuf_copy_partial := Pool.pbuf_copy_partial
  udp_sendto h _ _ := h
  receive_get h ps p b hp := by
    rw [Pool.receive, Pool.get_append_left (Pool.lt_length_of_get hp), hp]
  receive_allocated h ps := by
    rw [Pool.receive, Pool.allocated_append, Pool.allocated_chainFrom]
  receive_copy h payload ps len := by
    rw [Pool.receive, Pool.pbuf_copy_partial, Pool.bytes_chainFrom]
    rw [Pool.allocated_append, Pool.allocated_chainFrom, List.length_cons]
    omega
  alloc_fresh h payload := by
    change (h[h.length]?).join = none
    rw [List.getElem?_eq_none (Nat.le_refl _)]
    rfl
  alloc_get := Pool.get_alloc
  alloc_allocated h payload := by
    rw [Pool.pbuf_alloc, Pool.allocated_append]
    rfl
  chain_get h p t b b' hp hnext hpt ht := by
    have hlt := Pool.lt_length_of_get ht
    rw [Pool.chain_eq hp hnext hpt ht, Pool.get_set (by rw [List.length_set]; exact hlt),
      Pool.get_set (Pool.lt_length_of_get hp)]
  chain_allocated h p t := Pool.allocated_chain h p t
  sendto_get _ _ _ := rfl
  sendto_allocated _ _ _ := rfl
  free_next h p b q hp href hnext :=
    ⟨h.set p none, Pool.get_set (Pool.lt_length_of_get hp) none, Pool.allocated_set_none hp,
      Pool.free_next hp href hnext⟩
  free_shared h p b hp href := by
    rw [Pool.free_shared hp href]
    exact ⟨Pool.get_set (Pool.lt_length_of_get hp) _, Pool.allocated_set_some hp _⟩

end Pbuf
