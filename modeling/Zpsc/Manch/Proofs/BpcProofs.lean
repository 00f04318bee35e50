import Zpsc.Manch.Bpc

/-!
# BPC frame alignment

Since it last left reset the FIFO has been filled with consecutive words (`Inv.idle`), so an update
reads 62 words from the first one on (`Inv.read`, `Inv.sendReset`). Whether these are one frame is
decided by how many words had been sent at that release. `bpc_send` resets the FIFO after it has
read a frame, with no regard to words of the next frame that have arrived: they are lost, and every
later update starts in the middle of a frame.
-/

namespace Zpsc.Bpc

open Bits

variable {word word' : ℕ → BitVec 32} {s s' : State}

/-! ## The words in the FIFO -/

/-- Consecutive words since the FIFO last left reset, with nothing lost before it was full. -/
def Filled (s : State) : Prop :=
  ∃ n, s.fifo = List.range' s.released n ∧ n ≤ DEPTH ∧ (n < DEPTH → s.sent = s.released + n)

/-- What holds before each access. -/
def Inv (word : ℕ → BitVec 32) (s : State) : Prop :=
  match s.pc with
  | .idle => s.reset = false ∧ Filled s
  | .initData => s.reset = false ∧ Filled s
  | .initReset => s.reset = false
  | .initRelease => s.reset = true ∧ s.fifo = []
  | .read i => s.reset = false ∧ i < 62 ∧
      (∃ rest, s.fifo = List.range' (s.released + i) (62 - i) ++ rest) ∧
      ∀ j, j + 2 < i → s.msg j = htonf (word (s.released + 2 + j))
  | .sendReset => s.reset = false ∧ ∀ j < 60, s.msg j = htonf (word (s.released + 2 + j))
  | .sendRelease => s.reset = true ∧ s.fifo = []

theorem filled_word (h : Filled s) (hr : s.reset = false) : Filled (step word s .word) := by
  obtain ⟨n, hf, hn, hsent⟩ := h
  have hlen : s.fifo.length = n := by rw [hf, List.length_range']
  by_cases hlt : n < DEPTH
  · refine ⟨n + 1, ?_, hlt, fun _ => ?_⟩
    · simp only [step, hr, hlen, hlt, and_self, if_true]
      rw [hf, hsent hlt, List.range'_concat, Nat.one_mul]
    · simp only [step, hsent hlt]
      omega
  · refine ⟨n, ?_, hn, fun h => absurd h hlt⟩
    simp only [step, hlen, hlt, and_false, if_false]
    exact hf

theorem inv_word (h : Inv word s) : Inv word (step word s .word) := by
  unfold Inv at h ⊢
  have hpc : (step word s .word).pc = s.pc := rfl
  rw [hpc]
  cases hp : s.pc with
  | idle =>
    rw [hp] at h
    exact ⟨h.1, filled_word h.2 h.1⟩
  | initData =>
    rw [hp] at h
    exact ⟨h.1, filled_word h.2 h.1⟩
  | initReset =>
    rw [hp] at h
    exact h
  | initRelease =>
    rw [hp] at h
    refine ⟨h.1, ?_⟩
    simp only [step, h.1, Bool.true_eq_false, false_and, if_false, h.2]
  | read i =>
    rw [hp] at h
    obtain ⟨hr, hi, ⟨rest, hf⟩, hmsg⟩ := h
    refine ⟨hr, hi, ?_, hmsg⟩
    by_cases hroom : s.reset = false ∧ s.fifo.length < DEPTH
    · refine ⟨rest ++ [s.sent], ?_⟩
      simp only [step, if_pos hroom]
      rw [hf, List.append_assoc]
    · refine ⟨rest, ?_⟩
      simp only [step, if_neg hroom]
      exact hf
  | sendReset =>
    rw [hp] at h
    exact h
  | sendRelease =>
    rw [hp] at h
    refine ⟨h.1, ?_⟩
    simp only [step, h.1, Bool.true_eq_false, false_and, if_false, h.2]

theorem filled_released (s : State) (hf : s.fifo = []) : Filled (s.setReset false) :=
  ⟨0, hf, Nat.zero_le _, fun _ => rfl⟩

theorem inv_call (h : Inv word s) :
    Inv word (step word s .init) ∧ Inv word (step word s .send) := by
  constructor
  · simp only [step]
    split_ifs with hp
    · unfold Inv at h
      rw [hp] at h
      exact h
    · exact h
  · simp only [step]
    split_ifs with hp
    · unfold Inv at h
      rw [hp.1] at h
      obtain ⟨hr, n, hf, -, -⟩ := h
      have hn : 62 ≤ n := by
        have := hp.2
        rwa [hf, List.length_range'] at this
      refine ⟨hr, by decide, ⟨List.range' (s.released + 62) (n - 62), ?_⟩,
        fun j hj => absurd hj (Nat.not_lt_zero _)⟩
      rw [hf, List.range'_append_1, Nat.add_sub_cancel' hn]
      rfl
    · exact h

/-- The message buffer after word `k` was read for `i`. -/
def stored (word : ℕ → BitVec 32) (msg : ℕ → BitVec 32) (i k : ℕ) : ℕ → BitVec 32 := fun j =>
  if 2 ≤ i ∧ j = i - 2 then htonf (word k) else msg j

theorem access_read {i k : ℕ} {fifo : List ℕ} (hp : s.pc = .read i) (hf : s.fifo = k :: fifo) :
    access word s =
      { s with
        fifo := fifo
        msg := stored word s.msg i k
        pc := if i + 1 < 62 then .read (i + 1) else .sendReset } := by
  unfold access
  rw [hp]
  simp only [State.pop, hf]
  by_cases hi : 2 ≤ i
  · have hst : stored word s.msg i k = fun j => if j = i - 2 then htonf (word k) else s.msg j := by
      funext j
      simp [stored, hi]
    simp [hi, hst]
  · have hst : stored word s.msg i k = s.msg := by
      funext j
      simp [stored, hi]
    simp [hi, hst]

theorem inv_access (h : Inv word s) : Inv word (step word s .access) := by
  have hdef : step word s .access = access word s := rfl
  unfold Inv at h
  cases hp : s.pc with
  | idle =>
    rw [hp] at h
    have hacc : access word s = s := by
      unfold access
      rw [hp]
    rw [hdef, hacc]
    unfold Inv
    rw [hp]
    exact h
  | initData =>
    rw [hp] at h
    have hacc : access word s = { (s.pop word).2 with pc := .initReset } := by
      unfold access
      rw [hp]
    rw [hdef, hacc]
    show (s.pop word).2.reset = false
    unfold State.pop
    cases s.fifo <;> exact h.1
  | initReset =>
    have hacc : access word s = { s.setReset true with pc := .initRelease } := by
      unfold access
      rw [hp]
    rw [hdef, hacc]
    exact ⟨rfl, rfl⟩
  | initRelease =>
    rw [hp] at h
    have hacc : access word s = { s.setReset false with pc := .idle } := by
      unfold access
      rw [hp]
    rw [hdef, hacc]
    exact ⟨rfl, filled_released s h.2⟩
  | read i =>
    rw [hp] at h
    obtain ⟨hr, hi, ⟨rest, hf⟩, hmsg⟩ := h
    have hsplit : List.range' (s.released + i) (62 - i) =
        (s.released + i) :: List.range' (s.released + (i + 1)) (62 - (i + 1)) := by
      rw [show 62 - i = 62 - (i + 1) + 1 by omega, List.range'_succ]
      rfl
    rw [hsplit, List.cons_append] at hf
    have hacc : access word s = _ := access_read hp hf
    have hmsg' : ∀ j, j + 2 < i + 1 →
        stored word s.msg i (s.released + i) j = htonf (word (s.released + 2 + j)) := by
      intro j hj
      unfold stored
      split_ifs with hji
      · rw [show s.released + i = s.released + 2 + j by omega]
      · exact hmsg j (by omega)
    by_cases hlast : i + 1 < 62
    · rw [if_pos hlast] at hacc
      rw [step, hacc]
      exact ⟨hr, hlast, ⟨rest, rfl⟩, hmsg'⟩
    · rw [if_neg hlast] at hacc
      rw [step, hacc]
      exact ⟨hr, fun j hj => hmsg' j (by omega)⟩
  | sendReset =>
    have hacc : access word s = { s.setReset true with pc := .sendRelease } := by
      unfold access
      rw [hp]
    rw [hdef, hacc]
    exact ⟨rfl, rfl⟩
  | sendRelease =>
    rw [hp] at h
    have hacc : access word s = { s.setReset false with pc := .idle } := by
      unfold access
      rw [hp]
    rw [hdef, hacc]
    exact ⟨rfl, filled_released s h.2⟩

theorem inv_after (word : ℕ → BitVec 32) (es : List Event) : Inv word (after word es) := by
  refine Clocked.run_inv (Inv word) ?_ ⟨rfl, 0, rfl, Nat.zero_le _, fun _ => rfl⟩
  intro s hs e _
  cases e with
  | word => exact inv_word hs
  | init => exact (inv_call hs).1
  | send => exact (inv_call hs).2
  | access => exact inv_access hs

/-! ## Two contents -/

/-- What does not depend on the values of the words. -/
structure SameButMsg (s s' : State) : Prop where
  pc : s'.pc = s.pc
  fifo : s'.fifo = s.fifo
  reset : s'.reset = s.reset
  sent : s'.sent = s.sent
  released : s'.released = s.released

theorem sameButMsg_step (h : SameButMsg s s') (e : Event) :
    SameButMsg (step word s e) (step word' s' e) := by
  obtain ⟨pc, fifo, reset, sent, msg, released⟩ := s
  obtain ⟨pc', fifo', reset', sent', msg', released'⟩ := s'
  obtain ⟨rfl, rfl, rfl, rfl, rfl⟩ := h
  cases e with
  | word => exact ⟨rfl, rfl, rfl, rfl, rfl⟩
  | init =>
    simp only [step]
    split_ifs <;> exact ⟨rfl, rfl, rfl, rfl, rfl⟩
  | send =>
    simp only [step]
    split_ifs <;> exact ⟨rfl, rfl, rfl, rfl, rfl⟩
  | access =>
    cases pc' with
    | initData => cases fifo' <;> exact ⟨rfl, rfl, rfl, rfl, rfl⟩
    | read i =>
      cases fifo' <;> by_cases hi : 2 ≤ i <;>
        simp only [step, access, State.pop, hi, if_true, if_false] <;>
        exact ⟨rfl, rfl, rfl, rfl, rfl⟩
    | _ => exact ⟨rfl, rfl, rfl, rfl, rfl⟩

theorem sameButMsg_after (word word' : ℕ → BitVec 32) (es : List Event) :
    SameButMsg (after word es) (after word' es) := by
  unfold after
  have h0 : SameButMsg State.init State.init := ⟨rfl, rfl, rfl, rfl, rfl⟩
  generalize State.init = s at h0 ⊢
  suffices h : ∀ a b, SameButMsg a b →
      SameButMsg (Clocked.run (step word) a es) (Clocked.run (step word') b es) from h s s h0
  intro a b hab
  induction es generalizing a b with
  | nil => exact hab
  | cons e es ih => exact ih _ _ (sameButMsg_step hab e)

/-! ## Alignment -/

/-- An update holds the words from the third after the last release on. -/
theorem msg_of_sendReset (word : ℕ → BitVec 32) {es : List Event}
    (hp : (after word es).pc = .sendReset) :
    ∀ j < 60, (after word es).msg j = htonf (word ((after word es).released + 2 + j)) := by
  have h := inv_after word es
  unfold Inv at h
  rw [hp] at h
  exact h.2

/-- A word stream in which the third word of every frame, and no other, is 1. -/
def marked (k : ℕ) : BitVec 32 := if k % FRAME = 2 then 1 else 0

theorem releasedAligned_of_coherent {es : List Event} (h : Coherent es) : ReleasedAligned es := by
  intro word pre hpre hp
  have hsame := sameButMsg_after word marked pre
  have hp' : (after marked pre).pc = .sendReset := hsame.pc.trans hp
  obtain ⟨f, hf⟩ := h marked pre hpre hp'
  have h0 := hf 0 (by decide)
  rw [msg_of_sendReset marked hp' 0 (by decide), hsame.released] at h0
  -- Position 0 holds the third word of a frame.
  have hone : marked (FRAME * f + 2 + 0) = 1 := by
    unfold marked
    rw [if_pos (by simp only [FRAME]; omega)]
  by_contra hne
  have hzero : marked ((after word pre).released + 2 + 0) = 0 := by
    unfold marked
    rw [if_neg (by simp only [FRAME] at hne ⊢; omega)]
  rw [hone, hzero] at h0
  exact absurd h0 (by decide)

theorem coherent_of_releasedAligned {es : List Event} (h : ReleasedAligned es) : Coherent es := by
  intro word pre hpre hp
  have ha := h word pre hpre hp
  refine ⟨(after word pre).released / FRAME, ?_⟩
  intro j hj
  rw [msg_of_sendReset word hp j hj, Nat.mul_div_cancel' (Nat.dvd_of_mod_eq_zero ha)]

/-- Every update is one frame, whatever the words are, exactly if before each of them the FIFO had
last left reset at a frame boundary. -/
theorem messages_coherent_iff (es : List Event) : Coherent es ↔ ReleasedAligned es :=
  ⟨releasedAligned_of_coherent, coherent_of_releasedAligned⟩

/-- One frame and the first word of the next arrive, a poll reads the frame and resets the FIFO, the
rest arrives and the next poll reads 62 words. -/
def lostWord : List Event :=
  List.replicate 63 Event.word ++ [Event.send] ++ List.replicate 64 Event.access ++
    List.replicate 62 Event.word ++ [Event.send] ++ List.replicate 62 Event.access

theorem lostWord_sends : (after (fun _ => 0) lostWord).pc = .sendReset := by
  decide +kernel

theorem lostWord_released : (after (fun _ => 0) lostWord).released % FRAME ≠ 0 := by
  decide +kernel

theorem lostWord_misaligned : ¬ Coherent lostWord := by
  intro h
  have ha := releasedAligned_of_coherent h
  exact lostWord_released (ha (fun _ => 0) lostWord (List.prefix_refl _) lostWord_sends)

end Zpsc.Bpc
