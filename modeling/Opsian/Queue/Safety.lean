import Opsian.Lib.Runs
import Opsian.Queue.InternalQueue

/-! # Safety of the queue over every interleaving

`acquireWrite` reads `output` before its compare-exchange on `input`, and both
wrap. A producer that stalls between the two while the ring goes round once
finds `input` as it left it and claims a slot of a full queue. This is the only
way to lose a record: as long as every successful compare-exchange meets a queue
that is not full, claims, commits, reads and releases keep their order. -/
namespace Opsian.Queue.Safety
open Opsian.Lib Opsian.Lib.Runs Opsian.Queue.InternalQueue

variable {P : Type} {size : Nat}

/-- What the queue promises its producers and its consumer. -/
structure Safe (size : Nat) (s : State P) : Prop where
  /-- The claimed records that are not given back are the slots from `output` to `input`. -/
  window : s.unread = Ring.window (capacity size) s.output s.input
  bound : s.unread.length ≤ size
  /-- No slot is claimed again before its record is given back. -/
  unique : s.unread.Nodup
  /-- A slot that a producer fills is unread, its alone, and not the consumer's. -/
  owned : ∀ p i r, (s.writers p).Holds i r → i ∈ s.unread ∧ ¬ s.reader.Holds i
  alone : ∀ p q i r r', (s.writers p).Holds i r → (s.writers q).Holds i r' → p = q
  /-- The records come out once each, in the order of their claims, -/
  ordered : s.returned = (List.range s.returned.length).map some
  /-- after their commits, -/
  committed : ∀ r, some r ∈ s.returned → r ∈ s.commits
  /-- and a committed record keeps its payload until it is given back. -/
  kept : ∀ r ∈ s.commits, s.released ≤ r →
    ∃ i, s.claims[r]? = some i ∧ s.payload i = some r

/-- The step is not a compare-exchange that succeeds on a full queue. -/
def NotFull (size : Nat) (s : State P) : Label P → Prop
  | .producer p => ∀ i, s.writers p = .notFull i → s.input = i →
      s.output ≠ Ring.advance (capacity size) i
  | .consumer => True

/-! ## The invariant -/

/-- The consumer's place between two increments of the counters. -/
def Phase (size : Nat) (s : State P) : Prop :=
  match s.reader with
  | .start => s.returned.length = s.released ∧ s.cleared = s.released
  | .loadedOutput o =>
    o = s.released % capacity size ∧ s.returned.length = s.released ∧ s.cleared = s.released
  | .waiting o =>
    o = s.released % capacity size ∧ s.returned.length = s.released ∧ s.cleared = s.released
  | .acquired o =>
    o = s.released % capacity size ∧ s.returned.length = s.released + 1 ∧ s.cleared = s.released
  | .uncommitted o =>
    o = s.released % capacity size ∧ s.returned.length = s.released + 1 ∧
      s.cleared = s.released + 1

/-- Record `r` has slot `r % capacity`, and between its commit and its release
that slot is its own. -/
structure Inv (size : Nat) (s : State P) : Prop where
  input : s.input = s.claims.length % capacity size
  output : s.output = s.released % capacity size
  claims : s.claims = Ring.slots (capacity size) 0 s.claims.length
  room : s.claims.length ≤ s.released + size
  phase : Phase size s
  returned : s.returned = (List.range s.returned.length).map some
  returned_le : s.returned.length ≤ s.claims.length
  returned_committed : ∀ r, r < s.returned.length → r ∈ s.commits
  commits_lt : ∀ r ∈ s.commits, r < s.claims.length
  flags : ∀ j, s.isCommitted j = true ↔ ∃ r ∈ s.commits, s.cleared ≤ r ∧ r % capacity size = j
  payload : ∀ r ∈ s.commits, s.released ≤ r → s.payload (r % capacity size) = some r
  holds : ∀ p i r, (s.writers p).Holds i r →
    i = r % capacity size ∧ s.returned.length ≤ r ∧ r < s.claims.length ∧ r ∉ s.commits
  filled : ∀ p i r, s.writers p = .filled i r → s.payload i = some r
  distinct : ∀ p q i j r, (s.writers p).Holds i r → (s.writers q).Holds j r → p = q

variable {s t : State P}

theorem init_inv : Inv size (init P) where
  input := rfl
  output := rfl
  claims := rfl
  room := Nat.zero_le _
  phase := ⟨rfl, rfl⟩
  returned := rfl
  returned_le := Nat.le_refl _
  returned_committed := by intro r hr; cases hr
  commits_lt := by intro r hr; cases hr
  flags := by
    intro j
    constructor
    · intro h; cases h
    · rintro ⟨r, hr, -⟩; cases hr
  payload := by intro r hr; cases hr
  holds := fun _ _ _ h => absurd h Writer.not_holds_start
  filled := by intro p i r h; cases h
  distinct := fun _ _ _ _ _ h => absurd h Writer.not_holds_start

/-- The counters, whatever the consumer does. -/
theorem Inv.counters (h : Inv size s) :
    s.released ≤ s.cleared ∧ s.cleared ≤ s.returned.length ∧
      s.returned.length ≤ s.released + 1 := by
  have hp := h.phase
  unfold Phase at hp
  split at hp <;> omega

/-- Two records of which neither is released share no slot. -/
theorem Inv.eq_of_slot (h : Inv size s) {r r' : Nat} (hr : s.released ≤ r)
    (hr' : s.released ≤ r') (hlt : r < s.claims.length) (hlt' : r' < s.claims.length)
    (he : r % capacity size = r' % capacity size) : r = r' := by
  have hroom := h.room
  have hcap : capacity size = size + 1 := rfl
  exact Ring.eq_of_mod_eq hr (by omega) hr' (by omega) he

/-! ## The producer's steps -/

section Producer
variable [DecidableEq P]

/-- A step of a producer that holds no record afterwards touches nothing shared. -/
theorem Inv.goto (h : Inv size s) (p : P) {w : Writer} (hw : ∀ i r, ¬ w.Holds i r) :
    Inv size (s.goto p w) := by
  have old : ∀ q i r, ((s.goto p w).writers q).Holds i r → (s.writers q).Holds i r := by
    intro q i r hq
    rcases Writer.Holds.of_update hq with ⟨-, hp⟩ | ⟨-, hq⟩
    · exact absurd hp (hw i r)
    · exact hq
  refine { h with
    holds := fun q i r hq => h.holds q i r (old q i r hq)
    filled := fun q i r hq => ?_
    distinct := fun q q' i j r hq hq' => h.distinct q q' i j r (old q i r hq) (old q' j r hq') }
  rcases of_update_eq hq with ⟨-, rfl⟩ | ⟨-, hq⟩
  · exact absurd (.inr rfl) (hw i r)
  · exact h.filled q i r hq

/-- A claim on a queue that is not full takes the next slot of the round. -/
theorem Inv.claim (h : Inv size s) (p : P)
    (hfull : s.output ≠ Ring.advance (capacity size) s.input) :
    Inv size (s.claim size p s.input) := by
  have hcount := h.counters
  have hle := h.returned_le
  have hroom : s.claims.length < s.released + size := by
    rcases Nat.lt_or_eq_of_le h.room with hlt | heq
    · exact hlt
    · refine absurd ?_ hfull
      have hcap : capacity size = size + 1 := rfl
      rw [h.output, h.input, Ring.mod_eq_advance_iff (by omega) (by omega)]
      omega
  have hlen : (s.claim size p s.input).claims.length = s.claims.length + 1 := by
    simp [State.claim]
  have fresh : ∀ q i r, (s.writers q).Holds i r → r ≠ s.claims.length := by
    intro q i r hq
    exact Nat.ne_of_lt (h.holds q i r hq).2.2.1
  have new : ∀ i r, (Writer.acquired s.input s.claims.length).Holds i r →
      i = s.input ∧ r = s.claims.length := by
    rintro i r (hw | hw)
    · cases hw; exact ⟨rfl, rfl⟩
    · cases hw
  exact { h with
    input := by
      rw [hlen, ← Ring.advance_mod, ← h.input]; rfl
    claims := by
      rw [hlen, Ring.slots_succ, ← h.claims, ← h.input]; rfl
    room := by rw [hlen]; exact hroom
    returned_le := by rw [hlen]; exact Nat.le_succ_of_le hle
    commits_lt := fun r hr => by rw [hlen]; exact Nat.lt_succ_of_lt (h.commits_lt r hr)
    holds := by
      intro q i r hq
      rw [hlen]
      rcases Writer.Holds.of_update hq with ⟨-, hw⟩ | ⟨-, hq⟩
      · obtain ⟨rfl, rfl⟩ := new i r hw
        exact ⟨h.input, hle, Nat.lt_succ_self _,
          fun hr => Nat.lt_irrefl _ (h.commits_lt _ hr)⟩
      · obtain ⟨hi, hlow, hhigh, hnot⟩ := h.holds q i r hq
        exact ⟨hi, hlow, Nat.lt_succ_of_lt hhigh, hnot⟩
    filled := by
      intro q i r hq
      rcases of_update_eq hq with ⟨-, hw⟩ | ⟨-, hq⟩
      · cases hw
      · exact h.filled q i r hq
    distinct := by
      intro q q' i j r hq hq'
      rcases Writer.Holds.of_update hq with ⟨rfl, hw⟩ | ⟨-, hqs⟩
      · rcases Writer.Holds.of_update hq' with ⟨rfl, -⟩ | ⟨-, hq'⟩
        · rfl
        · exact absurd (new i r hw).2 (fresh q' j r hq')
      · rcases Writer.Holds.of_update hq' with ⟨rfl, hw'⟩ | ⟨-, hq'⟩
        · exact absurd (new j r hw').2 (fresh q i r hqs)
        · exact h.distinct q q' i j r hqs hq' }

/-- The holder of a record fills the slot that nobody else uses. -/
theorem Inv.fill (h : Inv size s) {p : P} {i r : Nat} (hp : s.writers p = .acquired i r) :
    Inv size (s.fill p i r) := by
  have hcount := h.counters
  obtain ⟨hi, hlow, hhigh, hnot⟩ := h.holds p i r (.inl hp)
  have old : ∀ q j r', ((s.fill p i r).writers q).Holds j r' → (s.writers q).Holds j r' := by
    intro q j r' hq
    rcases Writer.Holds.of_update hq with ⟨rfl, hw | hw⟩ | ⟨-, hq⟩
    · cases hw
    · cases hw; exact .inl hp
    · exact hq
  have elsewhere : ∀ r', s.released ≤ r' → r' < s.claims.length → r' ≠ r →
      r' % capacity size ≠ i := by
    intro r' hr' hlt hne he
    exact hne (h.eq_of_slot hr' (by omega) hlt hhigh (he.trans hi))
  exact { h with
    payload := by
      intro r' hr' hrel
      have hne : r' ≠ r := fun he => hnot (he ▸ hr')
      have hslot := elsewhere r' hrel (h.commits_lt r' hr') hne
      exact (Function.update_of_ne hslot _ _).trans (h.payload r' hr' hrel)
    holds := fun q j r' hq => h.holds q j r' (old q j r' hq)
    filled := by
      intro q j r' hq
      rcases of_update_eq hq with ⟨-, hw⟩ | ⟨hqp, hq⟩
      · cases hw; exact Function.update_self ..
      · obtain ⟨hj, hlow', hhigh', -⟩ := h.holds q j r' (.inr hq)
        have hne : r' ≠ r := fun he => hqp (h.distinct q p j i r (he ▸ .inr hq) (.inl hp))
        have hslot : j ≠ i := hj ▸ elsewhere r' (by omega) hhigh' hne
        exact (Function.update_of_ne hslot _ _).trans (h.filled q j r' hq)
    distinct := fun q q' j j' r' hq hq' =>
      h.distinct q q' j j' r' (old q j r' hq) (old q' j' r' hq') }

/-- A commit raises the flag of its own slot. -/
theorem Inv.commitWrite (h : Inv size s) {p : P} {i r : Nat} (hp : s.writers p = .filled i r) :
    Inv size (s.commitWrite p i r) := by
  have hcount := h.counters
  obtain ⟨hi, hlow, hhigh, hnot⟩ := h.holds p i r (.inr hp)
  have old : ∀ q j r', ((s.commitWrite p i r).writers q).Holds j r' →
      q ≠ p ∧ (s.writers q).Holds j r' := by
    intro q j r' hq
    rcases Writer.Holds.of_update hq with ⟨-, hw | hw⟩ | hq
    · cases hw
    · cases hw
    · exact hq
  have mem : ∀ r', r' ∈ (s.commitWrite p i r).commits ↔ r' ∈ s.commits ∨ r' = r := by
    intro r'
    simp [State.commitWrite]
  exact { h with
    returned_committed := fun r' hr' => (mem r').mpr (.inl (h.returned_committed r' hr'))
    commits_lt := by
      intro r' hr'
      rcases (mem r').mp hr' with hr' | rfl
      · exact h.commits_lt r' hr'
      · exact hhigh
    flags := by
      intro j
      by_cases hj : j = i
      · subst hj
        constructor
        · intro _
          exact ⟨r, (mem r).mpr (.inr rfl), Nat.le_trans hcount.2.1 hlow, hi.symm⟩
        · intro _
          exact Function.update_self ..
      · have hflag : (s.commitWrite p i r).isCommitted j = s.isCommitted j :=
          Function.update_of_ne hj _ _
        rw [hflag, h.flags j]
        constructor
        · rintro ⟨r', hr', hc, he⟩
          exact ⟨r', (mem r').mpr (.inl hr'), hc, he⟩
        · rintro ⟨r', hr', hc, he⟩
          rcases (mem r').mp hr' with hr' | rfl
          · exact ⟨r', hr', hc, he⟩
          · exact absurd (he.symm.trans hi.symm) hj
    payload := by
      intro r' hr' hrel
      rcases (mem r').mp hr' with hr' | rfl
      · exact h.payload r' hr' hrel
      · exact hi ▸ h.filled p i r' hp
    holds := by
      intro q j r' hq
      obtain ⟨hqp, hqs⟩ := old q j r' hq
      obtain ⟨hj, hlow', hhigh', hnot'⟩ := h.holds q j r' hqs
      refine ⟨hj, hlow', hhigh', fun hr' => ?_⟩
      rcases (mem r').mp hr' with hr' | rfl
      · exact hnot' hr'
      · exact hqp (h.distinct q p j i r' hqs (.inr hp))
    filled := by
      intro q j r' hq
      rcases of_update_eq hq with ⟨-, hw⟩ | ⟨-, hq⟩
      · cases hw
      · exact h.filled q j r' hq
    distinct := fun q q' j j' r' hq hq' =>
      h.distinct q q' j j' r' (old q j r' hq).2 (old q' j' r' hq').2 }

end Producer

/-! ## The consumer's steps -/

theorem Inv.lookOutput (h : Inv size s) (hs : s.reader = .start) :
    Inv size { s with reader := .loadedOutput s.output } := by
  have hp := h.phase
  simp only [Phase, hs] at hp
  exact { h with phase := ⟨h.output, hp.1, hp.2⟩ }

theorem Inv.lookInput (h : Inv size s) {o : Nat} (hs : s.reader = .loadedOutput o) :
    Inv size { s with reader := if o = s.input then .start else .waiting o } := by
  have hp := h.phase
  simp only [Phase, hs] at hp
  split
  · exact { h with phase := hp.2 }
  · exact { h with phase := hp }

/-- The raised flag under `output` is that of the oldest record: it is the one
that is read. -/
theorem Inv.acquireRead (h : Inv size s) {o : Nat} (hs : s.reader = .waiting o)
    (hflag : s.isCommitted o = true) : Inv size (s.acquireRead o) := by
  have hp := h.phase
  simp only [Phase, hs] at hp
  obtain ⟨rfl, hlen, hclear⟩ := hp
  obtain ⟨r, hr, hlow, hslot⟩ := (h.flags _).mp hflag
  have hlt := h.commits_lt r hr
  have hfirst : r = s.released :=
    h.eq_of_slot (by omega) (Nat.le_refl _) hlt (by omega) hslot
  subst hfirst
  have hlen' : (s.acquireRead (s.released % capacity size)).returned.length = s.released + 1 := by
    simp [State.acquireRead, hlen]
  exact { h with
    phase := ⟨rfl, hlen', hclear⟩
    returned := by
      rw [hlen', List.range_succ, List.map_append, ← hlen, ← h.returned, hlen]
      simp only [State.acquireRead, h.payload _ hr (Nat.le_refl _), List.map_singleton]
    returned_le := by rw [hlen']; exact hlt
    returned_committed := by
      intro r' hr'
      rw [hlen'] at hr'
      rcases Nat.lt_succ_iff_lt_or_eq.mp hr' with hr' | rfl
      · exact h.returned_committed r' (hlen ▸ hr')
      · exact hr
    holds := by
      intro p i r' hq
      obtain ⟨hi, hlow', hhigh', hnot'⟩ := h.holds p i r' hq
      have hne : r' ≠ s.released := fun he => hnot' (he ▸ hr)
      refine ⟨hi, ?_, hhigh', hnot'⟩
      rw [hlen']; omega }

/-- The flag of the record that is given back goes down; no other is touched. -/
theorem Inv.uncommit (h : Inv size s) {o : Nat} (hs : s.reader = .acquired o) :
    Inv size (s.uncommit o) := by
  have hp := h.phase
  simp only [Phase, hs] at hp
  obtain ⟨rfl, hlen, hclear⟩ := hp
  have hle := h.returned_le
  refine { h with
    phase := ⟨rfl, hlen, congrArg (· + 1) hclear⟩
    flags := fun j => ?_ }
  by_cases hj : j = s.released % capacity size
  · subst hj
    constructor
    · intro hup
      have hdown : (s.uncommit (s.released % capacity size)).isCommitted
          (s.released % capacity size) = false := Function.update_self ..
      rw [hdown] at hup; cases hup
    · rintro ⟨r, hr, hlow, hslot⟩
      have hlow : s.cleared + 1 ≤ r := hlow
      have he : r = s.released :=
        h.eq_of_slot (by omega) (Nat.le_refl _) (h.commits_lt r hr) (by omega) hslot
      omega
  · have hflag : (s.uncommit (s.released % capacity size)).isCommitted j = s.isCommitted j :=
      Function.update_of_ne hj _ _
    rw [hflag, h.flags j]
    constructor
    · rintro ⟨r, hr, hlow, hslot⟩
      have hne : r ≠ s.released := fun he => hj (he ▸ hslot.symm)
      have hlow' : s.cleared + 1 ≤ r := by omega
      exact ⟨r, hr, hlow', hslot⟩
    · rintro ⟨r, hr, hlow, hslot⟩
      exact ⟨r, hr, Nat.le_of_succ_le hlow, hslot⟩

theorem Inv.release (h : Inv size s) {o : Nat} (hs : s.reader = .uncommitted o) :
    Inv size (s.release size o) := by
  have hp := h.phase
  simp only [Phase, hs] at hp
  obtain ⟨rfl, hlen, hclear⟩ := hp
  have hroom := h.room
  exact { h with
    output := Ring.advance_mod ..
    room := by simp only [State.release]; omega
    phase := ⟨hlen, hclear⟩
    payload := fun r hr hrel => h.payload r hr (Nat.le_of_succ_le hrel) }

/-! ## Runs -/

variable [DecidableEq P]

theorem Inv.next {a : Label P} (h : Inv size s) (hok : NotFull size s a)
    (hs : step size s a = some t) : Inv size t := by
  cases a with
  | producer p =>
    obtain rfl := Option.some.inj hs
    cases hw : s.writers p with
    | start => exact h.goto p fun _ _ => Writer.not_holds_loadedInput
    | loadedInput i =>
      simp only [produce]
      split
      · exact h.goto p fun _ _ => Writer.not_holds_start
      · exact h.goto p fun _ _ => Writer.not_holds_notFull
    | notFull i =>
      simp only [produce]
      split
      · rename_i hin
        subst hin
        exact h.claim p (hok _ hw rfl)
      · exact h.goto p fun _ _ => Writer.not_holds_start
    | acquired i r => exact h.fill hw
    | filled i r => exact h.commitWrite hw
  | consumer =>
    obtain rfl := Option.some.inj hs
    cases hr : s.reader with
    | start => exact h.lookOutput hr
    | loadedOutput o => exact h.lookInput hr
    | waiting o =>
      simp only [consume]
      split
      · exact h.acquireRead hr (by assumption)
      · exact h
    | acquired o => exact h.uncommit hr
    | uncommitted o => exact h.release hr

omit [DecidableEq P] in
theorem Inv.unread (h : Inv size s) :
    s.unread = Ring.slots (capacity size) s.released (s.claims.length - s.released) := by
  have hd := congrArg (List.drop s.released) h.claims
  rwa [Ring.drop_slots] at hd

omit [DecidableEq P] in
theorem Inv.safe (h : Inv size s) : Safe size s := by
  have hcount := h.counters
  have hle := h.returned_le
  have hroom := h.room
  have hcap : capacity size = size + 1 := rfl
  constructor
  · rw [h.unread, h.output, h.input, Ring.window_mod (by omega) (by omega)]
  · rw [h.unread, Ring.length_slots]; omega
  · rw [h.unread]; exact Ring.nodup_slots (by omega)
  · intro p i r hp
    obtain ⟨rfl, hlow, hhigh, -⟩ := h.holds p i r hp
    constructor
    · rw [h.unread]; exact Ring.mem_slots (by omega) (by omega)
    · intro hread
      have hphase := h.phase
      have hfirst : r % capacity size = s.released % capacity size ∧
          s.returned.length = s.released + 1 := by
        rcases hread with hr | hr <;> simp only [Phase, hr] at hphase <;>
          exact ⟨hphase.1, hphase.2.1⟩
      have he := h.eq_of_slot (by omega) (Nat.le_refl _) hhigh (by omega) hfirst.1
      omega
  · intro p q i r r' hp hq
    obtain ⟨hi, hlow, hhigh, -⟩ := h.holds p i r hp
    obtain ⟨hi', hlow', hhigh', -⟩ := h.holds q i r' hq
    have he : r = r' :=
      h.eq_of_slot (by omega) (by omega) hhigh hhigh' (hi.symm.trans hi')
    exact h.distinct p q i i r hp (he ▸ hq)
  · exact h.returned
  · intro r hr
    rw [h.returned, List.mem_map] at hr
    obtain ⟨r', hr', he⟩ := hr
    cases he
    exact h.returned_committed r (List.mem_range.mp hr')
  · intro r hr hrel
    refine ⟨r % capacity size, ?_, h.payload r hr hrel⟩
    rw [h.claims]
    exact Ring.getElem?_slots (h.commits_lt r hr)

/-- A claim on a full queue makes one record too many. -/
theorem Inv.notFull_of_safe {a : Label P} (h : Inv size s) (hs : step size s a = some t)
    (ht : Safe size t) : NotFull size s a := by
  cases a with
  | consumer => trivial
  | producer p =>
    intro i hw hin hfull
    obtain rfl := Option.some.inj hs
    have hcount := h.counters
    have hle := h.returned_le
    have hroom := h.room
    have hcap : capacity size = size + 1 := rfl
    have hround : s.claims.length + 1 = s.released + capacity size := by
      refine (Ring.mod_eq_advance_iff (by omega) (by omega)).mp ?_
      rw [← h.output, ← h.input, hin]
      exact hfull
    have hbound := ht.bound
    rw [hw, produce, if_pos hin, State.unread, List.length_drop] at hbound
    simp only [State.claim, List.length_append, List.length_singleton] at hbound
    omega

/-- **Queue safety.** For every size, any set of producers and every
interleaving, the queue keeps its promises in every state if and only if no
compare-exchange ever succeeds on a full queue. -/
theorem safe_iff_notFull (size : Nat) (labels : List (Label P)) :
    Along (step size) (Safe size) (init P) labels ↔
      Steps (step size) (NotFull size) (init P) labels :=
  along_iff_steps (fun _ _ _ h hok hs => h.next hok hs) (fun _ h => h.safe)
    (fun _ _ _ h _ hs ht => h.notFull_of_safe hs ht) init_inv

/-- Two producers on a queue of size one: the first stalls before its
compare-exchange, the second pushes twice around one read, and the stalled
compare-exchange claims a second record of a queue that holds one already. -/
theorem stalled_claim_unsafe :
    ¬ Along (step 1) (Safe 1) (init Bool)
      ([.producer false, .producer false] ++ List.replicate 5 (.producer true) ++
        List.replicate 5 .consumer ++ List.replicate 5 (.producer true) ++
        [.producer false]) :=
  not_along_of_run (List.prefix_refl _) rfl fun h => absurd h.bound (by decide)

end Opsian.Queue.Safety
