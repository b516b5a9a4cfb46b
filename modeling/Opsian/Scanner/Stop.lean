import Opsian.Scanner.Scan

/-! # Stopping

To stop is to ask for the sentinel, but as a number of milliseconds: what is
stored is its multiple, which asks to scan. -/
namespace Opsian.Scanner.Stop
open Opsian.Lib.Runs Opsian.Scanner.ProcScanner Opsian.Scanner.Scan

/-- The flag says what was asked for last, and a scan that found it lowered has
left no timer. -/
structure Obeyed (s : State) : Prop where
  asked : isScanningThreads s = s.wanted
  emptied : s.lastScan = some false → s.timers = [] ∧ ∀ id < s.nextTimer, id ∈ s.deleted

/-- The step is no request to stop. -/
def KeepsOn (s : State) : Label → Prop
  | .stop => False
  | .sampleRate _ switchOn => switchOn = true ∨ isScanningThreads s = false
  | _ => True

structure Inv (s : State) : Prop where
  blank : Blank s
  asked : isScanningThreads s = s.wanted
  idle : s.lastScan ≠ some true → s.localIntervalInNs = notScanning ∧ s.nextTimer = 0
  kept : s.lastScan = some true → s.wanted = true

variable {s t : State} {a : Label}

theorem Inv.obeyed (h : Inv s) : Obeyed s := by
  refine ⟨h.asked, fun hl => ?_⟩
  obtain ⟨hlocal, hnext⟩ := h.idle (by simp [hl])
  exact ⟨h.blank.timers hlocal, by simp [hnext]⟩

theorem init_inv : Inv init := ⟨init_blank, rfl, fun _ => ⟨rfl, rfl⟩, nofun⟩

theorem isScanning_iff : isScanningThreads s = true ↔ s.atomicIntervalInNs ≠ notScanning := by
  simp [isScanningThreads]

theorem Inv.scan (h : Inv s) {opened : Bool} {entries : List DirEntry}
    (he : Effect s (.scan opened entries) t) (hb : Blank t) : Inv t := by
  cases he with
  | request _ v w _ ha => cases ha
  | skipped _ _ _ hl l w hw =>
    -- A scan that finds no request leaves a scanner that never had one.
    have hquiet : s.atomicIntervalInNs = notScanning → s.wanted = false := fun hs => by
      simpa [isScanningThreads, hs] using h.asked.symm
    have hnever : s.atomicIntervalInNs = notScanning → s.lastScan ≠ some true := fun hs hlast => by
      simpa [hquiet hs] using h.kept hlast
    rcases hw with rfl | ⟨hs, rfl⟩
    · exact ⟨hb, h.asked, h.idle, h.kept⟩
    · refine ⟨hb, h.asked, fun _ => h.idle (hnever hs), fun hlast => ?_⟩
      exact Option.some.inj hlast
  | unread _ hs ts hts =>
    have hw : s.wanted = true := h.asked ▸ isScanning_iff.mpr hs.2.2
    refine ⟨hb, h.asked, fun hne => ?_, fun _ => hw⟩
    exact absurd (congrArg some hw) hne
  | read _ hs hn ts n cur hts hcur =>
    have hw : s.wanted = true := h.asked ▸ isScanning_iff.mpr hs.2.2
    refine ⟨hb, h.asked, fun hne => ?_, fun _ => hw⟩
    exact absurd (congrArg some hw) hne

/-- A request that both sides understand alike. -/
theorem Inv.request (h : Inv s) {v : UInt64} {w : Bool}
    (hb : Blank { s with atomicIntervalInNs := v, wanted := w })
    (hv : (v != notScanning) = w) (hw : s.wanted = true → w = true) :
    Inv { s with atomicIntervalInNs := v, wanted := w } :=
  ⟨hb, hv, h.idle, fun hlast => hw (h.kept hlast)⟩

theorem Inv.sampleRate (h : Inv s) {rate : UInt64} {switchOn : Bool}
    (hok : switchOn = true ∨ isScanningThreads s = false)
    (hs : step s (.sampleRate rate switchOn) = some t) : Inv t := by
  have hb := h.blank.next hs
  rw [← Option.some.inj hs, startProfiling] at hb ⊢
  cases switchOn with
  | true =>
    by_cases hr : rate = dontChangeSampleRate
    · simp only [requested, if_true, hr, ne_eq, not_true, if_false, bne_self_eq_false,
        Bool.false_or] at hb ⊢
      exact h
    · have hw : requested s.wanted rate true = true := by simp [requested, hr]
      simp only [hw, if_true, hr, ne_eq, not_false_eq_true, updateScanningThreadsInterval] at hb ⊢
      exact h.request hb (by simp [mul_msToNs_ne]) fun _ => rfl
  | false =>
    have hoff : isScanningThreads s = false := hok.resolve_left Bool.false_ne_true
    have hw : requested s.wanted rate false = s.wanted := by
      rw [← h.asked, hoff]
      rfl
    simp only [hw, hoff, Bool.false_eq_true, if_false] at hb ⊢
    exact h

theorem Inv.next (h : Inv s) (hok : KeepsOn s a) (hs : step s a = some t) : Inv t := by
  have hb := h.blank.next hs
  have he := step_effect h.blank hs
  cases a with
  | metricsStart th =>
    cases he with
    | metricsStart _ _ => exact ⟨hb, h.asked, h.idle, h.kept⟩
    | request _ v w _ ha => cases ha
  | processorStart th =>
    cases he with
    | processorStart _ _ => exact ⟨hb, h.asked, h.idle, h.kept⟩
    | request _ v w _ ha => cases ha
  | update ms =>
    rw [← Option.some.inj hs, updateScanningThreadsInterval] at hb ⊢
    exact h.request hb (by simp [mul_msToNs_ne]) fun _ => rfl
  | stop => exact hok.elim
  | sampleRate rate switchOn => exact h.sampleRate hok hs
  | scan opened entries => exact h.scan he hb
  | fork =>
    cases hs
    exact init_inv

/-- What asks to stop asks to scan. -/
theorem not_obeyed_of_stop (s : State) :
    ¬ Obeyed { stopScanningThreads s with wanted := false } := by
  intro h
  have hasked := h.asked
  simp [isScanningThreads, stopScanningThreads, updateScanningThreadsInterval, mul_msToNs_ne]
    at hasked

theorem keepsOn_of_obeyed (hs : step s a = some t) (ht : Obeyed t) : KeepsOn s a := by
  cases a with
  | stop =>
    rw [← Option.some.inj hs] at ht
    exact not_obeyed_of_stop s ht
  | sampleRate rate switchOn =>
    by_contra hno
    obtain ⟨hoff, hscan⟩ := not_or.mp hno
    have hreq : requested s.wanted rate switchOn = false := if_neg hoff
    rw [← Option.some.inj hs, hreq, startProfiling, if_neg hoff,
      if_pos (by simpa using hscan)] at ht
    exact not_obeyed_of_stop s ht
  | _ => trivial

/-- **The flag is what was asked for**, and a scan after a stop leaves no timer,
in every state of a run, if and only if the run never asks to stop a scan. -/
theorem obeyed_iff_keepsOn (labels : List Label) :
    Along step Obeyed init labels ↔ Steps step KeepsOn init labels :=
  along_iff_steps (I := Inv) (fun _ _ _ h hok hs => h.next hok hs) (fun _ h => h.obeyed)
    (fun _ _ _ _ _ hs ht => keepsOn_of_obeyed hs ht) init_inv

/-- Switched off, the scanner goes on. -/
theorem switched_off_scans_on :
    ¬ Along step Obeyed init
      [.metricsStart ⟨2, 0⟩, .processorStart ⟨3, 0⟩, .sampleRate 10 true,
        .scan true [.task ⟨1, 0⟩, .task ⟨2, 0⟩, .task ⟨3, 0⟩], .sampleRate 10 false,
        .scan true [.task ⟨1, 0⟩, .task ⟨2, 0⟩, .task ⟨3, 0⟩]] := by
  refine not_along_of_run (List.prefix_refl _) rfl fun h => ?_
  exact absurd (h.emptied rfl).1 (by decide)

end Opsian.Scanner.Stop
