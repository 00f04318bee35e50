import Zpsc.Net.Lifecycle

/-!
# What the life of a connection promises

Each promise about a log is an invariant of `Lifecycle.Runs`. `move_opens`, `move_announced` and
`move_target` say once what a phase change does to the set of open connections, to the callbacks
and on which connection it acts; the run lemmas follow by induction on the log.
-/

namespace Zpsc.Lifecycle

open Bits PscMsg Listener

variable {hello : Msg} {timeout : ℕ}

/-! ## Phases -/

/-- The open connections of a phase with their descriptors. -/
def Phase.opens : Phase → List (ℤ × ℕ)
  | .idle => []
  | .live fd c _ _ => [(fd, c)]
  | .swap fd c fd' c' => [(fd, c), (fd', c')]
  | .swapped fd' c' => [(fd', c')]
  | .accepted fd c => [(fd, c)]
  | .greeting fd c _ => [(fd, c)]
  | .failed fd c => [(fd, c)]
  | .closed => []

/-- The last callback was `PSC_CONN`. -/
def Phase.announced : Phase → Bool
  | .idle => false
  | .accepted _ _ => false
  | _ => true

/-- The connection of a phase that has been announced and not failed, with the tick it was last
heard of. -/
def Phase.heard : Phase → Option (ℕ × ℕ)
  | .live _ c last _ => some (c, last)
  | .greeting _ c last => some (c, last)
  | _ => none

variable {n : ℕ} {sel : Option (ℤ × ℕ)} {p p' : Phase} {e : Event} {t : ℕ}

/-- An accept adds a connection, named by the number of those before it. A close takes the oldest
away. -/
theorem move_opens (h : Move hello timeout n sel p e t p') :
    match e with
    | .accept fd c => c = n ∧ p'.opens = p.opens ++ [(fd, c)]
    | .close fd conn _ => ∃ c, conn = some c ∧ p.opens = (fd, c) :: p'.opens
    | _ => p'.opens = p.opens := by
  cases h with
  | closeOld => exact ⟨_, rfl, rfl⟩
  | closeReceive => exact ⟨_, rfl, rfl⟩
  | closeHeartbeat => exact ⟨_, rfl, rfl⟩
  | closeFailed => exact ⟨_, rfl, rfl⟩
  | _ => simp [Phase.opens]

theorem move_announced (h : Move hello timeout n sel p e t p') :
    match e with
    | .callback .PSC_CONN => p.announced = false ∧ p'.announced = true
    | .callback .PSC_DIS => p.announced = true ∧ p'.announced = false
    | _ => p'.announced = p.announced := by
  cases h <;> simp [Phase.announced]

/-- A `send` or a `recv` is on an open connection. -/
theorem move_target (h : Move hello timeout n sel p e t p') {fd : ℤ} {conn : Option ℕ}
    (he : target ⟨e, t⟩ = some (fd, conn)) : ∃ c, conn = some c ∧ (fd, c) ∈ p.opens := by
  cases h with
  | send => cases he; exact ⟨_, rfl, List.mem_singleton_self _⟩
  | fail => cases he; exact ⟨_, rfl, List.mem_singleton_self _⟩
  | recv => cases he; exact ⟨_, rfl, List.mem_singleton_self _⟩
  | _ => cases he

/-! ## Entries -/

variable {s s' : State} {en : Entry} {log : List Entry}

theorem step_opens (h : Step hello timeout s en s') :
    match en.ev with
    | .accept fd c =>
      c = s.conns ∧ s'.phase.opens = s.phase.opens ++ [(fd, c)] ∧ s'.conns = s.conns + 1
    | .close fd conn _ =>
      ∃ c, conn = some c ∧ s.phase.opens = (fd, c) :: s'.phase.opens ∧ s'.conns = s.conns
    | _ => s'.phase.opens = s.phase.opens ∧ s'.conns = s.conns := by
  cases h with
  | selectIdle ht => exact ⟨rfl, rfl⟩
  | selectLive ht => exact ⟨rfl, rfl⟩
  | @move n now t sel p p' e ht hm =>
    have ho := move_opens hm
    cases e with
    | accept fd c => exact ⟨ho.1, ho.2, rfl⟩
    | close fd conn reason =>
      obtain ⟨c, hc, ho⟩ := ho
      exact ⟨c, hc, ho, rfl⟩
    | _ => exact ⟨ho, rfl⟩

theorem step_announced (h : Step hello timeout s en s') :
    match callbackOf en with
    | some .PSC_CONN => s.phase.announced = false ∧ s'.phase.announced = true
    | some .PSC_DIS => s.phase.announced = true ∧ s'.phase.announced = false
    | none => s'.phase.announced = s.phase.announced := by
  cases h with
  | selectIdle ht => rfl
  | selectLive ht => rfl
  | @move n now t sel p p' e ht hm =>
    have ha := move_announced hm
    cases e with
    | callback evt => cases evt <;> exact ha
    | _ => exact ha

theorem step_now (h : Step hello timeout s en s') : s.now ≤ en.time ∧ s'.now = en.time := by
  cases h <;> exact ⟨‹_›, rfl⟩

/-! ## Open and closed connections -/

/-- How often each connection was accepted and closed. -/
structure Counted (log : List Entry) (s : State) : Prop where
  accepts : ∀ c, log.countP (Accepts c) = if c < s.conns then 1 else 0
  closes : ∀ c, log.countP (Closes c) =
    if c < s.conns ∧ c ∉ s.phase.opens.map Prod.snd then 1 else 0
  lt : ∀ c ∈ s.phase.opens.map Prod.snd, c < s.conns
  nodup : (s.phase.opens.map Prod.snd).Nodup
  fds : ∀ fd c, (fd, c) ∈ s.phase.opens → ∃ e ∈ log, e.ev = .accept fd c

theorem counted_nil : Counted [] State.init where
  accepts _ := rfl
  closes _ := rfl
  lt _ hc := absurd hc List.not_mem_nil
  nodup := List.nodup_nil
  fds _ _ hc := absurd hc List.not_mem_nil

/-- An entry that neither accepts nor closes changes no count. -/
theorem Counted.quiet (h : Counted log s) (ha : ∀ c, Accepts c en = false)
    (hc : ∀ c, Closes c en = false) (ho : s'.phase.opens = s.phase.opens)
    (hn : s'.conns = s.conns) : Counted (log ++ [en]) s' where
  accepts c := by simp [h.accepts c, ha, hn]
  closes c := by
    rw [List.countP_append, h.closes c, List.countP_singleton, hc, ho, hn]
    simp only [Bool.false_eq_true, if_false, Nat.add_zero]
  lt := by rw [ho, hn]; exact h.lt
  nodup := by rw [ho]; exact h.nodup
  fds fd c hm := by
    obtain ⟨e, he, hev⟩ := h.fds fd c (ho ▸ hm)
    exact ⟨e, List.mem_append_left _ he, hev⟩

theorem Counted.accept (h : Counted log s) {fd : ℤ} {t : ℕ}
    (ho : s'.phase.opens = s.phase.opens ++ [(fd, s.conns)]) (hn : s'.conns = s.conns + 1) :
    Counted (log ++ [⟨.accept fd s.conns, t⟩]) s' where
  accepts c := by
    simp only [List.countP_append, h.accepts c, List.countP_singleton, Accepts, beq_iff_eq, hn]
    split_ifs <;> omega
  closes c := by
    have hsame : c < s.conns ∧ c ∉ s.phase.opens.map Prod.snd ↔
        c < s'.conns ∧ c ∉ s'.phase.opens.map Prod.snd := by
      simp only [ho, hn, List.map_append, List.map_cons, List.map_nil, List.mem_append,
        List.mem_singleton, not_or]
      constructor
      · rintro ⟨hlt, hm⟩
        exact ⟨by omega, hm, by omega⟩
      · rintro ⟨hlt, hm, hne⟩
        exact ⟨by omega, hm⟩
    rw [List.countP_append, h.closes c]
    exact if_congr hsame rfl rfl
  lt c hc := by
    rw [ho, List.map_append, List.mem_append] at hc
    rcases hc with hc | hc
    · have := h.lt c hc
      omega
    · have : c = s.conns := by simpa using hc
      omega
  nodup := by
    rw [ho, List.map_append, List.nodup_append]
    refine ⟨h.nodup, List.pairwise_singleton _ _, ?_⟩
    rintro a ha b hb rfl
    have hlt := h.lt a ha
    have : a = s.conns := by simpa using hb
    omega
  fds fd' c hm := by
    rw [ho, List.mem_append] at hm
    rcases hm with hm | hm
    · obtain ⟨e, he, hev⟩ := h.fds fd' c hm
      exact ⟨e, List.mem_append_left _ he, hev⟩
    · obtain ⟨rfl, rfl⟩ : fd' = fd ∧ c = s.conns := by simpa using hm
      exact ⟨_, List.mem_append_right _ (List.mem_singleton_self _), rfl⟩

theorem Counted.close (h : Counted log s) {fd : ℤ} {c t : ℕ} {reason : Reason}
    (ho : s.phase.opens = (fd, c) :: s'.phase.opens) (hn : s'.conns = s.conns) :
    Counted (log ++ [⟨.close fd (some c) reason, t⟩]) s' where
  accepts c' := by simp [h.accepts c', Accepts, hn]
  closes c' := by
    have hlt : c < s.conns := h.lt c (by simp [ho])
    have hnd := h.nodup
    rw [ho, List.map_cons, List.nodup_cons] at hnd
    simp only [List.countP_append, h.closes c', List.countP_singleton, Closes, beq_iff_eq, hn, ho,
      List.map_cons, List.mem_cons, not_or]
    by_cases hc : c = c'
    · subst hc
      rw [if_neg (fun hx => hx.2.1 rfl), if_pos rfl, if_pos ⟨hlt, hnd.1⟩]
    · have hne : ¬ c' = c := fun hx => hc hx.symm
      rw [if_neg hc, Nat.add_zero]
      exact if_congr (and_congr_right fun _ => and_iff_right hne) rfl rfl
  lt c' hc := by
    rw [hn]
    exact h.lt c' (by rw [ho]; exact List.mem_cons_of_mem _ hc)
  nodup := by
    have hnd := h.nodup
    rw [ho, List.map_cons, List.nodup_cons] at hnd
    exact hnd.2
  fds fd' c' hm := by
    obtain ⟨e, he, hev⟩ := h.fds fd' c' (by rw [ho]; exact List.mem_cons_of_mem _ hm)
    exact ⟨e, List.mem_append_left _ he, hev⟩

theorem runs_counted (h : Runs hello timeout log s) : Counted log s := by
  induction h with
  | nil => exact counted_nil
  | @snoc log s s' en h he ih =>
    have ho := step_opens he
    obtain ⟨e, t⟩ := en
    cases e with
    | accept fd c =>
      obtain ⟨rfl, ho, hn⟩ := ho
      exact ih.accept ho hn
    | close fd conn reason =>
      obtain ⟨c, rfl, ho, hn⟩ := ho
      exact ih.close ho hn
    | _ => exact ih.quiet (fun _ => rfl) (fun _ => rfl) ho.1 ho.2

theorem runs_open_iff (h : Runs hello timeout log s) (c : ℕ) :
    Open log c ↔ c ∈ s.phase.opens.map Prod.snd := by
  have hc := runs_counted h
  have h1 : (∃ e ∈ log, Accepts c e) ↔ c < s.conns := by
    rw [← List.countP_pos_iff, hc.accepts c]
    split_ifs with hlt <;> simp [hlt]
  have h2 : (∀ e ∈ log, Closes c e = false) ↔ ¬ (c < s.conns ∧ c ∉ s.phase.opens.map Prod.snd) := by
    have := hc.closes c
    rw [← not_iff_not, not_not]
    push Not
    constructor
    · rintro ⟨e, he, hce⟩
      by_contra hcon
      rw [if_neg hcon, List.countP_eq_zero] at this
      exact this e he (by simpa using hce)
    · intro hcon
      rw [if_pos hcon] at this
      obtain ⟨e, he, hce⟩ := List.countP_pos_iff.mp (by omega : 0 < log.countP (Closes c))
      exact ⟨e, he, by simpa using hce⟩
  unfold Open
  rw [h1, h2]
  constructor
  · rintro ⟨hlt, hn⟩
    by_contra hm
    exact hn ⟨hlt, hm⟩
  · intro hm
    exact ⟨hc.lt c hm, fun hx => hx.2 hm⟩

/-- Two connections are open only right after an accept. -/
theorem step_swap (h : Step hello timeout s en s') {fd fd' : ℤ} {c c' : ℕ}
    (hp : s'.phase = .swap fd c fd' c') : en.ev = .accept fd' c' := by
  cases h with
  | selectIdle ht => cases hp
  | selectLive ht => cases hp
  | move ht hm =>
    cases hm with
    | supersede => cases hp; rfl
    | _ => cases hp

theorem runs_single (h : Runs hello timeout log s) {c c' : ℕ} (hc : Open log c)
    (hc' : Open log c') :
    c = c' ∨ ∃ e fd c'', log.getLast? = some e ∧ e.ev = .accept fd c'' := by
  rw [runs_open_iff h] at hc hc'
  cases hp : s.phase with
  | swap fd1 c1 fd2 c2 =>
    right
    cases h with
    | nil => cases hp
    | snoc h he => exact ⟨_, _, _, List.getLast?_concat, step_swap he hp⟩
  | _ =>
    left
    simp only [hp, Phase.opens, List.map_cons, List.map_nil, List.mem_cons, List.not_mem_nil,
      or_false] at hc hc' <;> omega

theorem runs_target {pre post : List Entry} (h : Runs hello timeout (pre ++ en :: post) s)
    {fd : ℤ} {conn : Option ℕ} (he : target en = some (fd, conn)) :
    ∃ c, conn = some c ∧ Open pre c ∧ ∃ e ∈ pre, e.ev = .accept fd c := by
  obtain ⟨s1, s2, h1, hs⟩ := h.split
  have hopen : ∃ c, conn = some c ∧ (fd, c) ∈ s1.phase.opens := by
    cases hs with
    | selectIdle ht => cases he
    | selectLive ht => cases he
    | move ht hm => exact move_target hm he
  obtain ⟨c, hconn, hmem⟩ := hopen
  refine ⟨c, hconn, (runs_open_iff h1 c).mpr ?_, (runs_counted h1).fds fd c hmem⟩
  exact List.mem_map_of_mem hmem

/-! ## Select and receive -/

theorem runs_selected (h : Runs hello timeout log s) {fd : ℤ} {c : ℕ}
    (hs : s.selected = some (fd, c)) : lastSelect log = some (some (fd, some c)) := by
  induction h with
  | nil => cases hs
  | snoc h he ih =>
    unfold lastSelect at ih ⊢
    rw [List.filterMap_append]
    cases he with
    | selectIdle ht => cases hs
    | selectLive ht =>
      cases hs
      simp [selectOf]
    | @move n now t sel p p' e ht hm =>
      have hsel : selectOf ⟨e, t⟩ = none := by cases hm <;> rfl
      simpa [hsel] using ih hs

theorem runs_recv {pre post : List Entry} {fd : ℤ} {conn : Option ℕ} {t : ℕ}
    (h : Runs hello timeout (pre ++ ⟨.recv fd conn, t⟩ :: post) s) :
    ∃ c, conn = some c ∧ lastSelect pre = some (some (fd, some c)) := by
  obtain ⟨s1, s2, h1, hs⟩ := h.split
  cases hs with
  | move ht hm =>
    cases hm with
    | recv hsel => exact ⟨_, rfl, runs_selected h1 hsel⟩

/-! ## Callbacks -/

/-- The callbacks so far alternate, and the last one is `PSC_CONN` exactly if a client is
announced. -/
theorem runs_callbacks (h : Runs hello timeout log s) :
    (∀ i evt, (log.filterMap callbackOf)[i]? = some evt →
      evt = if i % 2 = 0 then .PSC_CONN else .PSC_DIS) ∧
    (log.filterMap callbackOf).length % 2 = if s.phase.announced then 1 else 0 := by
  induction h with
  | nil => exact ⟨fun i evt hi => absurd hi (by simp), rfl⟩
  | @snoc log s s' en h he ih =>
    obtain ⟨ih1, ih2⟩ := ih
    have ha := step_announced he
    rw [List.filterMap_append]
    cases hcb : callbackOf en with
    | none =>
      rw [hcb] at ha
      simpa [hcb, ha] using ⟨ih1, ih2⟩
    | some evt =>
      -- One more callback, at the index given by the number before it.
      have hlast : evt = if (log.filterMap callbackOf).length % 2 = 0 then .PSC_CONN
          else .PSC_DIS := by
        rw [hcb] at ha
        cases evt <;> simp [ih2, ha.1]
      have hnew : List.filterMap callbackOf [en] = [evt] := by simp [hcb]
      rw [hnew]
      refine ⟨?_, ?_⟩
      · intro i e hi
        rw [List.getElem?_append] at hi
        split_ifs at hi with hlt
        · exact ih1 i e hi
        · obtain ⟨hi0, rfl⟩ : i - (log.filterMap callbackOf).length = 0 ∧ evt = e := by
            rcases Nat.eq_zero_or_pos (i - (log.filterMap callbackOf).length) with h0 | h0
            · exact ⟨h0, by simpa [h0] using hi⟩
            · simp [show ¬ i - (log.filterMap callbackOf).length = 0 by omega] at hi
          rw [show i = (log.filterMap callbackOf).length by omega]
          exact hlast
      · rw [hcb] at ha
        rw [List.length_append, List.length_singleton]
        cases evt with
        | PSC_CONN =>
          rw [ha.1] at ih2
          simp only [ha.2, if_true, Bool.false_eq_true, if_false] at ih2 ⊢
          omega
        | PSC_DIS =>
          rw [ha.1] at ih2
          simp only [ha.2, if_true, Bool.false_eq_true, if_false] at ih2 ⊢
          omega

/-! ## Heartbeat -/

theorem runs_now (h : Runs hello timeout log s) : ∀ e ∈ log, e.time ≤ s.now := by
  induction h with
  | nil => exact fun e he => absurd he List.not_mem_nil
  | snoc h he ih =>
    obtain ⟨h1, h2⟩ := step_now he
    intro e hm
    rcases List.mem_append.mp hm with hm | hm
    · have := ih e hm
      omega
    · rw [List.mem_singleton.mp hm]
      omega

/-- Unless a move is a sign of life of its connection, the tick it was last heard of stays. -/
theorem move_heard (h : Move hello timeout n sel p e t p') {c last : ℕ}
    (hp : p'.heard = some (c, last)) :
    last = t ∨ (p.heard = some (c, last) ∧ Accepts c ⟨e, t⟩ = false ∧ Hears c ⟨e, t⟩ = false) := by
  cases h <;> simp_all [Phase.heard, Accepts, Hears]

theorem runs_heard (h : Runs hello timeout log s) {c last : ℕ}
    (hp : s.phase.heard = some (c, last)) :
    ∀ e ∈ log, Accepts c e ∨ Hears c e → e.time ≤ last := by
  induction h with
  | nil => cases hp
  | @snoc log s s' en h he ih =>
    intro e hm hcase
    have hnow := runs_now (h.snoc he) e hm
    rcases List.mem_append.mp hm with hold | hnew
    · cases he with
      | selectIdle ht => cases hp
      | selectLive ht => exact ih hp e hold hcase
      | move ht hmv =>
        rcases move_heard hmv hp with rfl | ⟨hp', -, -⟩
        · exact hnow
        · exact ih hp' e hold hcase
    · obtain rfl := List.mem_singleton.mp hnew
      cases he with
      | selectIdle ht => cases hp
      | selectLive ht => simp [Accepts, Hears] at hcase
      | move ht hmv =>
        rcases move_heard hmv hp with rfl | ⟨-, hna, hnh⟩
        · exact Nat.le_refl _
        · simp [hna, hnh] at hcase

theorem runs_heard_le (h : Runs hello timeout log s) {c last : ℕ}
    (hp : s.phase.heard = some (c, last)) : last ≤ s.now := by
  induction h with
  | nil => cases hp
  | snoc h he ih =>
    obtain ⟨h1, h2⟩ := step_now he
    cases he with
    | selectIdle ht => cases hp
    | selectLive ht => exact Nat.le_trans (ih hp) ht
    | move ht hm =>
      rcases move_heard hm hp with rfl | ⟨hp', -, -⟩
      · exact Nat.le_refl _
      · exact Nat.le_trans (ih hp') ht

theorem runs_heartbeat {pre post : List Entry} {fd : ℤ} {conn : Option ℕ} {t : ℕ}
    (h : Runs hello timeout (pre ++ ⟨.close fd conn .heartbeatTimeout, t⟩ :: post) s) :
    ∃ c, conn = some c ∧ ∀ e ∈ pre, Accepts c e ∨ Hears c e → e.time + timeout ≤ t := by
  obtain ⟨s1, s2, h1, hs⟩ := h.split
  cases hs with
  | move ht hm =>
    cases hm with
    | @closeHeartbeat fd c last t hlast =>
      refine ⟨c, rfl, ?_⟩
      intro e he hcase
      have := runs_heard h1 rfl e he hcase
      omega

/-! ## The outgoing stream -/

/-- The connection that may still be sent on. -/
def Phase.speaks : Phase → Option ℕ
  | .live _ c _ _ => some c
  | .swap _ _ _ c' => some c'
  | .swapped _ c' => some c'
  | .accepted _ c => some c
  | .greeting _ c _ => some c
  | _ => none

/-- The connection that has not been greeted yet. -/
def Phase.ungreeted : Phase → Option ℕ
  | .live _ _ _ _ => none
  | p => p.speaks

/-- `bs` was sent and `left` is still to be sent: complete frames, of which the last may lack
`left`. -/
def Carries (hello : Msg) (bs left : List Byte) : Prop :=
  ∃ (ms : List Msg) (sent : List Byte), bs = ms.flatMap Msg.frame ++ sent ∧
    ((left = [] ∧ sent = [] ∧ ms.head? = some hello) ∨
      (left ≠ [] ∧ ∃ m : Msg, sent ++ left = m.frame ∧ (ms ++ [m]).head? = some hello))

theorem Msg.frame_ne_nil (m : Msg) : m.frame ≠ [] := by
  simp [Msg.frame, header]

theorem Carries.wellFormed {bs left : List Byte} (h : Carries hello bs left) :
    WellFormed hello bs := by
  obtain ⟨ms, sent, rfl, ⟨rfl, rfl, hhead⟩ | ⟨hleft, m, hm, hhead⟩⟩ := h
  · refine ⟨ms, hello, [], rfl, List.nil_prefix, fun hx => Msg.frame_ne_nil hello hx.symm, ?_⟩
    rw [List.head?_append, hhead]
    rfl
  · refine ⟨ms, m, sent, rfl, ⟨left, hm⟩, ?_, hhead⟩
    rintro rfl
    exact hleft (List.self_eq_append_right.mp hm.symm)

theorem wellFormed_nil : WellFormed hello [] :=
  ⟨[], hello, [], rfl, List.nil_prefix, fun hx => Msg.frame_ne_nil hello hx.symm, rfl⟩

theorem carries_hello : Carries hello [] hello.frame :=
  ⟨[], [], rfl, Or.inr ⟨Msg.frame_ne_nil hello, hello, rfl, rfl⟩⟩

theorem Carries.sendmsg {bs : List Byte} (h : Carries hello bs []) (m : Msg) :
    Carries hello bs m.frame := by
  obtain ⟨ms, sent, rfl, ⟨-, rfl, hhead⟩ | ⟨hleft, -⟩⟩ := h
  · refine ⟨ms, [], rfl, Or.inr ⟨Msg.frame_ne_nil m, m, rfl, ?_⟩⟩
    rw [List.head?_append, hhead]
    rfl
  · exact absurd rfl hleft

theorem Carries.send {bs bytes left : List Byte} (h : Carries hello bs (bytes ++ left))
    (hb : bytes ≠ []) : Carries hello (bs ++ bytes) left := by
  obtain ⟨ms, sent, rfl, ⟨hnil, -⟩ | ⟨-, m, hm, hhead⟩⟩ := h
  · exact absurd (List.append_eq_nil_iff.mp hnil).1 hb
  · by_cases hl : left = []
    · subst hl
      rw [List.append_nil] at hm
      refine ⟨ms ++ [m], [], ?_, Or.inl ⟨rfl, rfl, hhead⟩⟩
      rw [List.append_assoc, hm]
      simp
    · refine ⟨ms, sent ++ bytes, List.append_assoc .., Or.inr ⟨hl, m, ?_, hhead⟩⟩
      rw [List.append_assoc, hm]

theorem bytesOf_eq_nil {c : ℕ} (h : Sends c en = false) : bytesOf c en = [] := by
  obtain ⟨e, t⟩ := en
  cases e with
  | send fd conn bytes ok =>
    cases conn with
    | none => rfl
    | some c' => simpa [bytesOf, Sends] using fun hc => absurd hc (by simpa [Sends] using h)
  | _ => rfl

theorem bytesOn_snoc (log : List Entry) (en : Entry) (c : ℕ) :
    bytesOn (log ++ [en]) c = bytesOn log c ++ bytesOf c en := by
  simp [bytesOn]

/-- What has been sent on each connection. -/
structure Streamed (hello : Msg) (log : List Entry) (s : State) : Prop where
  fresh : ∀ c, s.conns ≤ c → bytesOn log c = []
  bounded : ∀ c, s.phase.speaks = some c → c < s.conns
  ungreeted : ∀ c, s.phase.ungreeted = some c → bytesOn log c = []
  live : ∀ fd c last left, s.phase = .live fd c last left → Carries hello (bytesOn log c) left
  wellFormed : ∀ c, WellFormed hello (bytesOn log c)

/-- The connection that may be sent on after a move was so before it, or is new. -/
theorem move_speaks (h : Move hello timeout n sel p e t p') {c : ℕ} (hc : p'.speaks = some c) :
    p.speaks = some c ∨ c = n ∧ ∃ fd, e = .accept fd n := by
  cases h <;> simp_all [Phase.speaks]

theorem move_ungreeted (h : Move hello timeout n sel p e t p') {c : ℕ}
    (hc : p'.ungreeted = some c) : p.ungreeted = some c ∨ c = n := by
  cases h <;> simp_all [Phase.ungreeted, Phase.speaks]

/-- How a client comes to have `left` still to be sent. -/
theorem move_live {fd : ℤ} {c last : ℕ} {left : List Byte}
    (h : Move hello timeout n sel p e t (.live fd c last left)) :
    (p.ungreeted = some c ∧ left = hello.frame) ∨
    (∃ m : Msg, p = .live fd c last [] ∧ left = m.frame) ∨
    (∃ bytes, e = .send fd (some c) bytes true ∧ bytes ≠ [] ∧
      p = .live fd c last (bytes ++ left)) ∨
    ∃ last', p = .live fd c last' left := by
  cases h with
  | greet => exact Or.inl ⟨rfl, rfl⟩
  | sendmsg => exact Or.inr (Or.inl ⟨_, rfl, rfl⟩)
  | send hb => exact Or.inr (Or.inr (Or.inl ⟨_, rfl, hb, rfl⟩))
  | recv => exact Or.inr (Or.inr (Or.inr ⟨_, rfl⟩))
  | message => exact Or.inr (Or.inr (Or.inr ⟨_, rfl⟩))

/-- Bytes are sent on the client only, from what is left of its frame. -/
theorem move_bytes (h : Move hello timeout n sel p e t p') :
    (∀ c, bytesOf c ⟨e, t⟩ = []) ∨
    ∃ fd c last bytes left, p = .live fd c last (bytes ++ left) ∧ p' = .live fd c last left ∧
      bytes ≠ [] ∧ e = .send fd (some c) bytes true := by
  cases h with
  | send hb => exact Or.inr ⟨_, _, _, _, _, rfl, rfl, hb, rfl⟩
  | fail =>
    left
    intro c
    simp [bytesOf]
  | _ => exact Or.inl fun c => rfl

/-- The number of connections after an entry. -/
def connsAfter (n : ℕ) (e : Event) : ℕ := n + (match e with | .accept _ _ => 1 | _ => 0)

theorem le_connsAfter (n : ℕ) (e : Event) : n ≤ connsAfter n e := Nat.le_add_right ..

theorem Streamed.quiet {now : ℕ} (h : Streamed hello log ⟨p, n, sel, now⟩)
    (hm : Move hello timeout n sel p e t p') (hb : ∀ c, bytesOf c ⟨e, t⟩ = []) :
    Streamed hello (log ++ [⟨e, t⟩]) ⟨p', connsAfter n e, sel, t⟩ := by
  have hsame : ∀ c, bytesOn (log ++ [⟨e, t⟩]) c = bytesOn log c := by
    intro c
    rw [bytesOn_snoc, hb, List.append_nil]
  constructor
  · intro c hc
    rw [hsame]
    exact h.fresh c (Nat.le_trans (le_connsAfter n e) hc)
  · intro c hc
    rcases move_speaks hm hc with hold | ⟨rfl, fd, rfl⟩
    · exact Nat.lt_of_lt_of_le (h.bounded c hold) (le_connsAfter n e)
    · exact Nat.lt_succ_self _
  · intro c hc
    rw [hsame]
    rcases move_ungreeted hm hc with hold | rfl
    · exact h.ungreeted c hold
    · exact h.fresh c (Nat.le_refl _)
  · intro fd c last left hp
    obtain rfl : p' = _ := hp
    rw [hsame]
    rcases move_live hm with ⟨hu, rfl⟩ | ⟨m, hp, rfl⟩ | ⟨bytes, rfl, hne, -⟩ | ⟨last', hp⟩
    · rw [h.ungreeted c hu]
      exact carries_hello
    · exact (h.live fd c last [] hp).sendmsg m
    · exact absurd (by simpa [bytesOf] using hb c) hne
    · exact h.live fd c last' left hp
  · intro c
    rw [hsame]
    exact h.wellFormed c

theorem Streamed.send {fd : ℤ} {c last now : ℕ} {bytes left : List Byte}
    (h : Streamed hello log ⟨.live fd c last (bytes ++ left), n, sel, now⟩) (hb : bytes ≠ []) :
    Streamed hello (log ++ [⟨.send fd (some c) bytes true, t⟩])
      ⟨.live fd c last left, n, sel, t⟩ := by
  have hc : c < n := h.bounded c rfl
  have hcarry := (h.live fd c last _ rfl).send hb
  have hself : bytesOn (log ++ [⟨.send fd (some c) bytes true, t⟩]) c = bytesOn log c ++ bytes := by
    simp [bytesOn_snoc, bytesOf]
  have hother : ∀ c', c ≠ c' →
      bytesOn (log ++ [⟨.send fd (some c) bytes true, t⟩]) c' = bytesOn log c' := by
    intro c' hne
    simp [bytesOn_snoc, bytesOf, hne]
  constructor
  · intro c' hc'
    rw [hother c' (by simp only at hc'; omega)]
    exact h.fresh c' hc'
  · intro c' hc'
    obtain rfl : c = c' := by simpa [Phase.speaks] using hc'
    exact hc
  · intro c' hc'
    simp [Phase.ungreeted] at hc'
  · intro fd' c' last' left' hp
    cases hp
    rw [hself]
    exact hcarry
  · intro c'
    by_cases hcc : c = c'
    · subst hcc
      rw [hself]
      exact hcarry.wellFormed
    · rw [hother c' hcc]
      exact h.wellFormed c'

theorem Streamed.select {now : ℕ} {sel' : Option (ℤ × ℕ)} (h : Streamed hello log ⟨p, n, sel, now⟩)
    (hb : ∀ c, bytesOf c en = []) : Streamed hello (log ++ [en]) ⟨p, n, sel', t⟩ := by
  have hsame : ∀ c, bytesOn (log ++ [en]) c = bytesOn log c := by
    intro c
    rw [bytesOn_snoc, hb, List.append_nil]
  refine ⟨?_, h.bounded, ?_, ?_, ?_⟩ <;> simp only [hsame]
  · exact h.fresh
  · exact h.ungreeted
  · exact h.live
  · exact h.wellFormed

theorem streamed_nil : Streamed hello [] State.init where
  fresh _ _ := rfl
  bounded _ hc := nomatch hc
  ungreeted _ _ := rfl
  live _ _ _ _ hp := nomatch hp
  wellFormed _ := wellFormed_nil

theorem runs_streamed (h : Runs hello timeout log s) : Streamed hello log s := by
  induction h with
  | nil => exact streamed_nil
  | snoc h he ih =>
    cases he with
    | selectIdle ht => exact ih.select fun _ => rfl
    | selectLive ht => exact ih.select fun _ => rfl
    | move ht hm =>
      rcases move_bytes hm with hb | ⟨fd, c, last, bytes, left, rfl, rfl, hne, rfl⟩
      · exact ih.quiet hm hb
      · exact ih.send hne

/-- A message is started only when everything sent before is complete. -/
theorem runs_sendmsg {pre post : List Entry} {fd : ℤ} {c : ℕ} {m : Msg}
    (h : Runs hello timeout (pre ++ ⟨.sendmsg fd (some c) m, t⟩ :: post) s) :
    ∃ ms : List Msg, bytesOn pre c = ms.flatMap Msg.frame := by
  obtain ⟨s1, s2, h1, hs⟩ := h.split
  have hstream := runs_streamed h1
  cases hs with
  | move ht hm =>
    cases hm with
    | greet => exact ⟨[], hstream.ungreeted c rfl⟩
    | sendmsg =>
      obtain ⟨ms, sent, hbs, ⟨-, rfl, -⟩ | ⟨hne, -⟩⟩ := hstream.live fd c _ [] rfl
      · exact ⟨ms, by rw [hbs, List.append_nil]⟩
      · exact absurd rfl hne

/-! ## Failed sends -/

theorem step_speaks (h : Step hello timeout s en s') {c : ℕ} (hc : s'.phase.speaks = some c) :
    s.phase.speaks = some c ∨ c = s.conns := by
  cases h with
  | selectIdle ht => exact Or.inl hc
  | selectLive ht => exact Or.inl hc
  | move ht hm => exact (move_speaks hm hc).imp_right And.left

theorem step_conns (h : Step hello timeout s en s') : s.conns ≤ s'.conns := by
  cases h with
  | selectIdle ht => exact Nat.le_refl _
  | selectLive ht => exact Nat.le_refl _
  | move ht hm => exact Nat.le_add_right ..

/-- A failed `send` is on the client, which is not sent on after it. -/
theorem step_fails (h : Step hello timeout s en s') {c : ℕ} (hf : Fails c en = true) :
    s.phase.speaks = some c ∧ s'.phase.speaks = none := by
  cases h with
  | selectIdle ht => cases hf
  | selectLive ht => cases hf
  | move ht hm =>
    cases hm with
    | send => simp [Fails] at hf
    | fail =>
      simp only [Fails, Bool.not_false, Bool.and_true, beq_iff_eq] at hf
      exact ⟨congrArg some hf, rfl⟩
    | _ => cases hf

theorem step_sends (h : Step hello timeout s en s') {c : ℕ} (hs : Sends c en = true) :
    s.phase.speaks = some c := by
  cases h with
  | selectIdle ht => cases hs
  | selectLive ht => cases hs
  | move ht hm =>
    cases hm with
    | send => exact congrArg some (beq_iff_eq.mp hs)
    | fail => exact congrArg some (beq_iff_eq.mp hs)
    | _ => cases hs

theorem runs_failed (h : Runs hello timeout log s) :
    ∀ c, (∃ e ∈ log, Fails c e) → c < s.conns ∧ s.phase.speaks ≠ some c := by
  induction h with
  | nil => exact fun c ⟨e, he, _⟩ => absurd he List.not_mem_nil
  | snoc h he ih =>
    rintro c ⟨e, hmem, hf⟩
    have hle := step_conns he
    rcases List.mem_append.mp hmem with hold | hnew
    · obtain ⟨hlt, hns⟩ := ih c ⟨e, hold, hf⟩
      refine ⟨by omega, ?_⟩
      intro hc
      rcases step_speaks he hc with hsp | rfl
      · exact hns hsp
      · exact absurd hlt (Nat.lt_irrefl _)
    · rw [List.mem_singleton.mp hnew] at hf
      obtain ⟨hsp, hns⟩ := step_fails he hf
      have hlt := (runs_streamed h).bounded c hsp
      refine ⟨by omega, ?_⟩
      rw [hns]
      exact nofun

/-- A connection on which a `send` failed is never sent on again. -/
theorem runs_silent (h : Runs hello timeout log s) :
    log.Pairwise fun a b => ∀ c, Fails c a → Sends c b = false := by
  induction h with
  | nil => exact List.Pairwise.nil
  | snoc h he ih =>
    refine List.pairwise_append.mpr ⟨ih, List.pairwise_singleton .., ?_⟩
    intro a ha b hb c hf
    rw [List.mem_singleton.mp hb]
    by_contra hs
    exact (runs_failed h c ⟨a, ha, hf⟩).2 (step_sends he (by simpa using hs))

end Zpsc.Lifecycle
