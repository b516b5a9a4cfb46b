/-! # Machines that answer

An operation of a machine answers and goes on, or it never returns. A
specification is a machine that always answers. Where every operation keeps the
states of the two related and answers what the specification does, so does every
sequence of operations. -/
namespace Opsian.Lib.Simulation

variable {σ : Type u} {τ : Type v} {α : Type w} {β : Type x}

/-- The operations in turn: the answers and the state behind the last of them. -/
def exec (step : σ → α → Option (β × σ)) : σ → List α → Option (List β × σ)
  | s, [] => some ([], s)
  | s, a :: as =>
    (step s a).bind fun x => (exec step x.2 as).map fun y => (x.1 :: y.1, y.2)

/-- The same for a specification. -/
def answers (spec : τ → α → β × τ) : τ → List α → List β × τ
  | t, [] => ([], t)
  | t, a :: as =>
    ((spec t a).1 :: (answers spec (spec t a).2 as).1, (answers spec (spec t a).2 as).2)

variable {step : σ → α → Option (β × σ)} {spec : τ → α → β × τ} {R : σ → τ → Prop}
  {ok : α → Prop} {s : σ} {t : τ} {as : List α}

/-- The simulation rule. -/
theorem exec_eq_answers
    (hstep : ∀ s t a, R s t → ok a →
      ∃ s', step s a = some ((spec t a).1, s') ∧ R s' (spec t a).2)
    (h : R s t) (hok : ∀ a ∈ as, ok a) :
    ∃ s', exec step s as = some ((answers spec t as).1, s') ∧ R s' (answers spec t as).2 := by
  induction as generalizing s t with
  | nil => exact ⟨s, rfl, h⟩
  | cons a as ih =>
    obtain ⟨u, hu, hr⟩ := hstep s t a h (hok a List.mem_cons_self)
    obtain ⟨v, hv, hr'⟩ := ih hr fun b hb => hok b (List.mem_cons_of_mem a hb)
    refine ⟨v, ?_, hr'⟩
    rw [exec, hu, Option.bind_some, hv, Option.map_some]
    rfl

/-- The invariant rule: what every operation keeps holds behind them all, and what every
operation answers then, all answers have in common. -/
theorem exec_invariant {I : σ → Prop} {P : β → Prop} {bs : List β} {t : σ}
    (hstep : ∀ s a b t, I s → ok a → step s a = some (b, t) → I t ∧ P b) (hs : I s)
    (hok : ∀ a ∈ as, ok a) (h : exec step s as = some (bs, t)) : I t ∧ ∀ b ∈ bs, P b := by
  induction as generalizing s bs with
  | nil =>
    cases h
    exact ⟨hs, fun b hb => by cases hb⟩
  | cons a as ih =>
    obtain ⟨⟨b, u⟩, hu, hrest⟩ := Option.bind_eq_some_iff.mp h
    obtain ⟨⟨bs, v⟩, hv, he⟩ := Option.map_eq_some_iff.mp hrest
    cases he
    obtain ⟨hi, hb⟩ := hstep s a b u hs (hok a List.mem_cons_self) hu
    obtain ⟨ht, hbs⟩ := ih hi (fun a' ha' => hok a' (List.mem_cons_of_mem a ha')) hv
    refine ⟨ht, fun b' hb' => ?_⟩
    rcases List.mem_cons.mp hb' with rfl | hb'
    · exact hb
    · exact hbs b' hb'

/-- Two machines take the same step, where either can take one. -/
def Together (R : σ → τ → Prop) (x : Option (β × σ)) (y : Option (β × τ)) : Prop :=
  (x = none ∧ y = none) ∨ ∃ b s t, x = some (b, s) ∧ y = some (b, t) ∧ R s t

/-- The rule for two machines in lockstep: they answer the same for as long as they run. -/
theorem exec_eq_exec {other : τ → α → Option (β × τ)}
    (hstep : ∀ s t a, R s t → Together R (step s a) (other t a)) (h : R s t) (as : List α) :
    (exec step s as).map Prod.fst = (exec other t as).map Prod.fst := by
  induction as generalizing s t with
  | nil => rfl
  | cons a as ih =>
    rw [exec, exec]
    obtain ⟨hs, ht⟩ | ⟨b, s', t', hs, ht, hr⟩ := hstep s t a h
    · rw [hs, ht]
      rfl
    · rw [hs, ht, Option.bind_some, Option.bind_some, Option.map_map, Option.map_map]
      have hrest := congrArg (Option.map (b :: ·)) (ih hr)
      rwa [Option.map_map, Option.map_map] at hrest

end Opsian.Lib.Simulation
