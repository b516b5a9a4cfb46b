import Opsian.Lib.Runs

/-! # History variables

A machine can carry along a record of what it has done. The record answers
questions about a run that no single state does, and it keeps no step from being
taken: what is said of the machine alone is said of the recording one. -/
namespace Opsian.Lib.History
open Opsian.Lib.Runs

variable {σ : Type u} {α : Type v} {γ : Type w}

/-- The machine with its history: `note h s a t` is the history `h` behind the step
from `s` to `t`. -/
def recording (step : σ → α → Option σ) (note : γ → σ → α → σ → γ) (x : σ × γ) (a : α) :
    Option (σ × γ) :=
  (step x.1 a).map fun t => (t, note x.2 x.1 a t)

variable {step : σ → α → Option σ} {note : γ → σ → α → σ → γ}

theorem recording_eq_some {x y : σ × γ} {a : α} :
    recording step note x a = some y ↔ step x.1 a = some y.1 ∧ y.2 = note x.2 x.1 a y.1 := by
  rcases y with ⟨t, g⟩
  constructor
  · intro h
    obtain ⟨u, hu, he⟩ := Option.map_eq_some_iff.mp h
    cases he
    exact ⟨hu, rfl⟩
  · intro ⟨ht, hg⟩
    exact Option.map_eq_some_iff.mpr ⟨t, ht, Prod.ext rfl hg.symm⟩

/-- What holds behind a step of the recording machine, from the step of the machine alone. -/
theorem next_of_step {I : σ × γ → Prop} {x y : σ × γ} {a : α}
    (hstep : ∀ t, step x.1 a = some t → I (t, note x.2 x.1 a t))
    (hs : recording step note x a = some y) : I y := by
  obtain ⟨ht, hg⟩ := recording_eq_some.mp hs
  have hy := hstep y.1 ht
  rwa [← hg] at hy

theorem steps_fst {ok : σ → α → Prop} {s : σ} {g : γ} {as : List α} :
    Steps (recording step note) (fun x a => ok x.1 a) (s, g) as ↔ Steps step ok s as := by
  induction as generalizing s g with
  | nil => exact Iff.rfl
  | cons a as ih =>
    constructor
    · intro h t ht
      obtain ⟨ha, hrest⟩ := h (t, note g s a t) (recording_eq_some.mpr ⟨ht, rfl⟩)
      exact ⟨ha, ih.mp hrest⟩
    · intro h y hy
      obtain ⟨ha, hrest⟩ := h y.1 (recording_eq_some.mp hy).1
      exact ⟨ha, ih.mpr hrest⟩

theorem along_fst {P : σ → Prop} {s : σ} {g : γ} {as : List α} :
    Along (recording step note) (fun x => P x.1) (s, g) as ↔ Along step P s as := by
  induction as generalizing s g with
  | nil => exact Iff.rfl
  | cons a as ih =>
    refine and_congr_right fun _ => ⟨fun h t ht => ?_, fun h y hy => ?_⟩
    · exact ih.mp (h (t, note g s a t) (recording_eq_some.mpr ⟨ht, rfl⟩))
    · exact ih.mpr (h y.1 (recording_eq_some.mp hy).1)

end Opsian.Lib.History
