/-! # Runs of a machine with labelled steps

A machine is a partial step function: a label that is not enabled in a state
has no next state. `Along` says that a property holds in every state a run
passes, `Steps` that every step the run takes meets a condition. The rules
below carry an invariant through a run, and tell when the property holds
exactly on the runs whose steps meet the condition. -/
namespace Opsian.Lib.Runs

variable {σ : Type u} {α : Type v} (step : σ → α → Option σ)

/-- The state after the labels, when each of them was enabled in turn. -/
def run : σ → List α → Option σ
  | s, [] => some s
  | s, a :: as => (step s a).bind fun t => run t as

/-- `P` holds in every state of the run, its first and its last included. A
label that is not enabled ends the run. -/
def Along (P : σ → Prop) : σ → List α → Prop
  | s, [] => P s
  | s, a :: as => P s ∧ ∀ t, step s a = some t → Along P t as

/-- Every step the run takes meets `ok` in the state it is taken from. -/
def Steps (ok : σ → α → Prop) : σ → List α → Prop
  | _, [] => True
  | s, a :: as => ∀ t, step s a = some t → ok s a ∧ Steps ok t as

variable {step} {P Q I : σ → Prop} {ok : σ → α → Prop} {s t u : σ} {as : List α}

theorem Along.head (h : Along step P s as) : P s := by
  cases as with
  | nil => exact h
  | cons a as => exact h.1

theorem run_append (s : σ) (as bs : List α) :
    run step s (as ++ bs) = (run step s as).bind fun t => run step t bs := by
  induction as generalizing s with
  | nil => rfl
  | cons a as ih =>
    rw [List.cons_append, run, run, Option.bind_assoc]
    exact congrArg _ (funext ih)

/-- `Along` speaks of exactly the states that a prefix of the labels reaches. -/
theorem along_iff_reached :
    Along step P s as ↔ ∀ pre, pre <+: as → ∀ t, run step s pre = some t → P t := by
  induction as generalizing s with
  | nil =>
    constructor
    · intro h pre hp t ht
      rw [List.prefix_nil.mp hp] at ht
      cases ht; exact h
    · intro h; exact h [] (List.prefix_refl _) s rfl
  | cons a as ih =>
    constructor
    · rintro ⟨hs, hrest⟩ pre hp t ht
      cases pre with
      | nil => cases ht; exact hs
      | cons b pre =>
        obtain ⟨rfl, hp'⟩ := List.cons_prefix_cons.mp hp
        obtain ⟨u, hu, ht'⟩ := Option.bind_eq_some_iff.mp ht
        exact ih.mp (hrest u hu) pre hp' t ht'
    · intro h
      refine ⟨h [] List.nil_prefix s rfl, fun u hu => ih.mpr fun pre hp t ht => ?_⟩
      exact h (a :: pre) (List.cons_prefix_cons.mpr ⟨rfl, hp⟩) t (by simp [run, hu, ht])

/-- The property fails on a run as soon as one prefix reaches a state without it. -/
theorem not_along_of_run {pre : List α} (hp : pre <+: as) (hr : run step s pre = some t)
    (ht : ¬ P t) : ¬ Along step P s as :=
  fun h => ht (along_iff_reached.mp h pre hp t hr)

theorem Along.mono (h : Along step P s as) (hPQ : ∀ t, P t → Q t) : Along step Q s as :=
  along_iff_reached.mpr fun pre hp t ht => hPQ t (along_iff_reached.mp h pre hp t ht)

/-- The invariant rule: what every allowed step preserves, an allowed run preserves. -/
theorem along_of_invariant (hstep : ∀ s a t, I s → ok s a → step s a = some t → I t)
    (hs : I s) (hok : Steps step ok s as) : Along step I s as := by
  induction as generalizing s with
  | nil => exact hs
  | cons a as ih =>
    refine ⟨hs, fun t ht => ?_⟩
    obtain ⟨ha, hrest⟩ := hok t ht
    exact ih (hstep s a t hs ha ht) hrest

theorem steps_true (s : σ) (as : List α) : Steps step (fun _ _ => True) s as := by
  induction as generalizing s with
  | nil => trivial
  | cons a as ih => exact fun t _ => ⟨trivial, ih t⟩

/-- A condition on the labels alone. -/
theorem Steps.of_labels (h : ∀ a ∈ as, ∀ s, ok s a) : Steps step ok s as := by
  induction as generalizing s with
  | nil => trivial
  | cons a as ih =>
    intro t _
    exact ⟨h a List.mem_cons_self s, ih fun b hb => h b (List.mem_cons_of_mem a hb)⟩

/-- The condition fails on a run as soon as one prefix reaches a state that a step
leaves without it. -/
theorem not_steps_of_run {pre : List α} {a : α} (hr : run step s pre = some t)
    (ha : step t a = some u) (hok : ¬ ok t a) : ¬ Steps step ok s (pre ++ [a]) := by
  induction pre generalizing s with
  | nil =>
    cases hr
    exact fun h => hok (h u ha).1
  | cons b pre ih =>
    obtain ⟨v, hv, hr⟩ := Option.bind_eq_some_iff.mp hr
    exact fun h => ih hr (h v hv).2

theorem Steps.and {room : σ → α → Prop} (h : Steps step room s as) (h' : Steps step ok s as) :
    Steps step (fun s a => room s a ∧ ok s a) s as := by
  induction as generalizing s with
  | nil => trivial
  | cons a as ih =>
    intro t ht
    obtain ⟨ha, hrest⟩ := h t ht
    obtain ⟨ha', hrest'⟩ := h' t ht
    exact ⟨⟨ha, ha'⟩, ih hrest hrest'⟩

/-- The invariant rule for steps: what the allowed steps preserve may be used to show
that they meet another condition. -/
theorem Steps.transfer {ok' : σ → α → Prop}
    (hstep : ∀ s a t, I s → ok s a → step s a = some t → I t)
    (himp : ∀ s a, I s → ok s a → ok' s a) (hs : I s) (h : Steps step ok s as) :
    Steps step ok' s as := by
  induction as generalizing s with
  | nil => trivial
  | cons a as ih =>
    intro t ht
    obtain ⟨ha, hrest⟩ := h t ht
    exact ⟨himp s a hs ha, ih (hstep s a t hs ha ht) hrest⟩

/-- Under an invariant two conditions may come to the same. -/
theorem steps_congr {ok' : σ → α → Prop} (hstep : ∀ s a t, I s → step s a = some t → I t)
    (hiff : ∀ s a t, I s → step s a = some t → (ok s a ↔ ok' s a)) (hs : I s) :
    Steps step ok s as ↔ Steps step ok' s as := by
  induction as generalizing s with
  | nil => exact Iff.rfl
  | cons a as ih =>
    refine forall_congr' fun t => imp_congr_right fun ht => ?_
    exact and_congr (hiff s a t hs ht) (ih (hstep s a t hs ht))

/-- A property that no forbidden step keeps holds only on runs without one. -/
theorem steps_of_along {room : σ → α → Prop}
    (hstep : ∀ s a t, I s → room s a → ok s a → step s a = some t → I t)
    (hback : ∀ s a t, I s → room s a → P s → step s a = some t → P t → ok s a)
    (hs : I s) (hroom : Steps step room s as) (h : Along step P s as) : Steps step ok s as := by
  induction as generalizing s with
  | nil => trivial
  | cons a as ih =>
    intro t ht
    obtain ⟨hr, hrest⟩ := hroom t ht
    have ha := hback s a t hs hr h.1 ht (h.2 t ht).head
    exact ⟨ha, ih (hstep s a t hs hr ha ht) hrest (h.2 t ht)⟩

/-- The exact rule: under an invariant that the allowed steps preserve and that
gives the property, the property holds in every state of a run if and only if
the run takes allowed steps only. It may be known of the run that its steps
leave `room`. -/
theorem along_iff_steps_of {room : σ → α → Prop}
    (hstep : ∀ s a t, I s → room s a → ok s a → step s a = some t → I t)
    (hP : ∀ s, I s → P s)
    (hback : ∀ s a t, I s → room s a → P s → step s a = some t → P t → ok s a)
    (hs : I s) (hroom : Steps step room s as) : Along step P s as ↔ Steps step ok s as := by
  refine ⟨steps_of_along hstep hback hs hroom, fun h => Along.mono ?_ hP⟩
  exact along_of_invariant (fun s a t hi hok ht => hstep s a t hi hok.1 hok.2 ht) hs (hroom.and h)

theorem along_iff_steps (hstep : ∀ s a t, I s → ok s a → step s a = some t → I t)
    (hP : ∀ s, I s → P s)
    (hback : ∀ s a t, I s → P s → step s a = some t → P t → ok s a) (hs : I s) :
    Along step P s as ↔ Steps step ok s as :=
  along_iff_steps_of (fun s a t hi _ hok ht => hstep s a t hi hok ht) hP
    (fun s a t hi _ hp ht hpt => hback s a t hi hp ht hpt) hs (steps_true s as)

/-- With no condition on the steps, an invariant holds of every run. -/
theorem along_of_step (hstep : ∀ s a t, I s → step s a = some t → I t) (hs : I s)
    (as : List α) : Along step I s as := by
  induction as generalizing s with
  | nil => exact hs
  | cons a as ih => exact ⟨hs, fun t ht => ih (hstep s a t hs ht)⟩

theorem Steps.cons {a : α} (ha : step s a = some t) (hok : ok s a) (h : Steps step ok t as) :
    Steps step ok s (a :: as) := by
  intro u hu
  rw [ha] at hu
  cases hu
  exact ⟨hok, h⟩

theorem Steps.append {bs : List α} (hr : run step s as = some t) (h : Steps step ok s as)
    (h' : Steps step ok t bs) : Steps step ok s (as ++ bs) := by
  induction as generalizing s with
  | nil =>
    cases hr
    exact h'
  | cons a as ih =>
    intro u hu
    obtain ⟨hok, hrest⟩ := h u hu
    rw [run, hu] at hr
    exact ⟨hok, ih hr hrest⟩

/-- On a given run the condition can be looked at step by step. -/
instance decidableSteps [∀ s a, Decidable (ok s a)] (s : σ) (as : List α) :
    Decidable (Steps step ok s as) :=
  match as with
  | [] => .isTrue trivial
  | a :: as =>
    match hs : step s a with
    | none => .isTrue fun _ ht => nomatch hs.symm.trans ht
    | some t =>
      have : Decidable (Steps step ok t as) := decidableSteps t as
      decidable_of_iff (ok s a ∧ Steps step ok t as)
        ⟨fun h _ hu => Option.some.inj (hs.symm.trans hu) ▸ h, fun h => h t hs⟩

/-- A measure that every step takes from bounds the length of a run. -/
theorem length_le_of_measure (m : σ → Nat)
    (hstep : ∀ s a t, I s → step s a = some t → I t ∧ m t < m s) (hs : I s)
    (hr : run step s as = some t) : as.length ≤ m s := by
  induction as generalizing s with
  | nil => exact Nat.zero_le _
  | cons a as ih =>
    obtain ⟨u, hu, hr⟩ := Option.bind_eq_some_iff.mp hr
    obtain ⟨hi, hlt⟩ := hstep s a u hs hu
    exact Nat.succ_le_of_lt (Nat.lt_of_le_of_lt (ih hi hr) hlt)

/-- What is lost stays lost, and is lost by any step that is not allowed: a run that ends
without a loss has taken allowed steps only. -/
theorem steps_of_kept {L : σ → Prop}
    (hstep : ∀ s a t, I s → ok s a → step s a = some t → I t)
    (hloses : ∀ s a t, I s → ¬ ok s a → step s a = some t → L t)
    (hlost : ∀ s a t, L s → step s a = some t → L t) (hs : I s)
    (hr : run step s as = some t) (ht : ¬ L t) : Steps step ok s as := by
  have hstays {s : σ} {as : List α} (hs : L s) (hr : run step s as = some t) : L t := by
    induction as generalizing s with
    | nil =>
      cases hr
      exact hs
    | cons a as ih =>
      obtain ⟨u, hu, hr⟩ := Option.bind_eq_some_iff.mp hr
      exact ih (hlost s a u hs hu) hr
  induction as generalizing s with
  | nil => trivial
  | cons a as ih =>
    obtain ⟨u, hu, hr⟩ := Option.bind_eq_some_iff.mp hr
    by_cases hok : ok s a
    · exact .cons hu hok (ih (hstep s a u hs hok hu) hr)
    · exact absurd (hstays (hloses s a u hs hok hu) hr) ht

/-! ## What may come about -/

/-- Some run leads there. -/
def Leads (step : σ → α → Option σ) (s t : σ) : Prop := ∃ as, run step s as = some t

theorem Leads.refl (s : σ) : Leads step s s := ⟨[], rfl⟩

theorem Leads.trans (h : Leads step s t) (h' : Leads step t u) : Leads step s u := by
  obtain ⟨as, has⟩ := h
  obtain ⟨bs, hbs⟩ := h'
  exact ⟨as ++ bs, by rw [run_append, has, Option.bind_some, hbs]⟩

theorem Leads.of_step {a : α} (ha : step s a = some t) : Leads step s t :=
  ⟨[a], by rw [run, ha]; rfl⟩

/-- What every step preserves holds wherever a run leads. -/
theorem Leads.invariant (hstep : ∀ s a t, I s → step s a = some t → I t) (h : Leads step s t)
    (hs : I s) : I t := by
  obtain ⟨as, has⟩ := h
  exact along_iff_reached.mp (along_of_step hstep hs as) as (List.prefix_refl _) t has

/-! ## What comes about anyhow -/

/-- Whichever steps are taken, a state with the property is reached; without it there is
always a step to take. -/
inductive Inevitable (step : σ → α → Option σ) (P : σ → Prop) : σ → Prop
  | now {x : σ} (h : P x) : Inevitable step P x
  | later {x y : σ} {a : α} (ha : step x a = some y)
    (h : ∀ b z, step x b = some z → Inevitable step P z) : Inevitable step P x

/-- The measure rule: a step is possible until then, and all of them take from a measure. -/
theorem Inevitable.of_measure (m : σ → Nat)
    (hcan : ∀ s, I s → ¬ P s → ∃ a t, step s a = some t)
    (hstep : ∀ s a t, I s → ¬ P s → step s a = some t → I t ∧ m t < m s) (hs : I s) :
    Inevitable step P s := by
  induction hm : m s using Nat.strongRecOn generalizing s with
  | _ n ih =>
    by_cases hP : P s
    · exact .now hP
    · obtain ⟨a, t, ha⟩ := hcan s hs hP
      refine .later ha fun b u hb => ?_
      obtain ⟨hu, hlt⟩ := hstep s b u hs hP hb
      exact ih (m u) (hm ▸ hlt) hu rfl

end Opsian.Lib.Runs
