import Mathlib.Data.List.GetD
import Mathlib.Order.Filter.AtTopBot.Basic
import Opsian.Lib.Runs

/-! # Infinite paths of a machine with labelled steps

A path is a run that never ends. What matters of it is which of its steps are taken
again and again: the rules below tell that from a measure, and from what is scheduled. -/
namespace Opsian.Lib.Paths
open Opsian.Lib.Runs

variable {σ : Type u} {α : Type v}

structure Path (step : σ → α → Option σ) where
  state : Nat → σ
  label : Nat → α
  next : ∀ n, step (state n) (label n) = some (state (n + 1))

variable {step : σ → α → Option σ} {p : Path step} {I done : σ → Prop}
  {busy free : σ → α → Prop}

namespace Path

/-- Only so many steps of the path are such. -/
def Finitely (p : Path step) (busy : σ → α → Prop) : Prop :=
  ∀ᶠ n in Filter.atTop, ¬ busy (p.state n) (p.label n)

/-- As long as it is not done, a busy step is still to come. -/
def Scheduled (p : Path step) (busy : σ → α → Prop) (done : σ → Prop) : Prop :=
  ∀ n, ¬ done (p.state n) → ∃ k, n ≤ k ∧ busy (p.state k) (p.label k)

theorem Scheduled.reaches (h : p.Scheduled busy done) (hfinite : p.Finitely busy) :
    ∃ n, done (p.state n) := by
  obtain ⟨n, hn⟩ := Filter.eventually_atTop.mp hfinite
  refine ⟨n, ?_⟩
  by_contra hnot
  obtain ⟨k, hk, hb⟩ := h n hnot
  exact hn k hk hb

/-- The path behind its first steps. -/
def behind (p : Path step) (n : Nat) : Path step where
  state k := p.state (n + k)
  label k := p.label (n + k)
  next k := p.next (n + k)

theorem run_take {s t : σ} {as : List α} (h : run step s as = some t) (n : Nat) :
    ∃ u, run step s (as.take n) = some u ∧ run step u (as.drop n) = some t := by
  rw [← List.take_append_drop n as, run_append] at h
  exact Option.bind_eq_some_iff.mp h

/-- A run that comes to where one label can be taken for ever. -/
def ofRun {s t : σ} (as : List α) (b : α) (h : run step s as = some t)
    (hb : step t b = some t) : Path step where
  state n := (run step s (as.take n)).getD t
  label n := as.getD n b
  next n := by
    obtain ⟨u, hu, hrest⟩ := run_take h n
    rw [hu, Option.getD_some]
    cases hdrop : as.drop n with
    | nil =>
      have hn : as.length ≤ n := List.drop_eq_nil_iff.mp hdrop
      rw [hdrop] at hrest
      cases hrest
      rw [List.getD_eq_default _ _ hn, List.take_of_length_le (Nat.le_succ_of_le hn), h]
      exact hb
    | cons a rest =>
      have hget : as[n]? = some a := by
        rw [← Nat.add_zero n, ← List.getElem?_drop, hdrop]
        rfl
      rw [hdrop] at hrest
      obtain ⟨v, hv, -⟩ := Option.bind_eq_some_iff.mp hrest
      rw [List.getD_eq_getElem?_getD, hget, List.take_add_one, hget, run_append, hu]
      simp [run, hv]

end Path

end Opsian.Lib.Paths
