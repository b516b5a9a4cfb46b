import Mathlib.Data.List.Nodup

/-! # Forests of keyed nodes

A forest is a list of nodes under distinct keys, each with a forest below it,
so that a path of keys names a node. `touch` walks down a path, changes the
nodes it meets and makes those that are missing. `shown` lists the paths that
can be reached through nodes that are kept. -/
namespace Opsian.Lib

inductive Forest (κ : Type u) (ν : Type v) where
  | nil
  | cons (key : κ) (value : ν) (children rest : Forest κ ν)
  deriving DecidableEq, Repr

namespace Forest

variable {κ : Type u} {ν : Type v}

def map (f : ν → ν) : Forest κ ν → Forest κ ν
  | nil => nil
  | cons k v c r => cons k (f v) (map f c) (map f r)

/-- The keys of the topmost nodes. -/
def keys : Forest κ ν → List κ
  | nil => []
  | cons k _ _ r => k :: keys r

def All (P : κ → ν → Prop) : Forest κ ν → Prop
  | nil => True
  | cons k v c r => P k v ∧ All P c ∧ All P r

/-- Nodes side by side have different keys. -/
def Simple : Forest κ ν → Prop
  | nil => True
  | cons k _ c r => k ∉ keys r ∧ Simple c ∧ Simple r

/-- The paths of the nodes that are kept with all nodes above them. -/
def shown (keep : ν → Bool) : Forest κ ν → List (List κ)
  | nil => []
  | cons k v c r =>
    (if keep v then [k] :: (shown keep c).map (k :: ·) else []) ++ shown keep r

/-- Below a node that is not kept, none is. -/
def Closed (keep : ν → Bool) : Forest κ ν → Prop
  | nil => True
  | cons _ v c r =>
    (keep v = false → All (fun _ u => keep u = false) c) ∧ Closed keep c ∧ Closed keep r

/-- The values on a path, as far down as its nodes are there. -/
def along [DecidableEq κ] : Forest κ ν → List κ → List ν
  | nil, _ => []
  | cons _ _ _ _, [] => []
  | cons k v c r, k' :: ks => if k = k' then v :: along c ks else along r (k' :: ks)

/-- The value of the node that a path ends in. -/
def lookup [DecidableEq κ] : Forest κ ν → List κ → Option ν
  | nil, _ => none
  | cons _ _ _ _, [] => none
  | cons k v c r, k' :: ks =>
    if k = k' then if ks = [] then some v else lookup c ks else lookup r (k' :: ks)

section touch

variable (new : κ → ν) (f : List κ → ν → ν)

/-- A path of new nodes, each changed by what is left of the path below it. -/
def chain : List κ → Forest κ ν
  | [] => nil
  | k :: ks => cons k (f ks (new k)) (chain ks) nil

/-- The nodes on the path, changed by what is left of it below them. -/
def touch [DecidableEq κ] : Forest κ ν → List κ → Forest κ ν
  | nil, path => chain new f path
  | cons k v c r, [] => cons k v c r
  | cons k v c r, k' :: ks =>
    if k = k' then cons k (f ks v) (touch c ks) r else cons k v c (touch r (k' :: ks))

end touch

/-! ## All nodes -/

theorem All.mono {P Q : κ → ν → Prop} {fo : Forest κ ν} (h : All P fo)
    (hPQ : ∀ k v, P k v → Q k v) : All Q fo := by
  induction fo with
  | nil => trivial
  | cons k v c r ihc ihr => exact ⟨hPQ k v h.1, ihc h.2.1, ihr h.2.2⟩

theorem All.map {P Q : κ → ν → Prop} {fo : Forest κ ν} {g : ν → ν} (h : All P fo)
    (hPQ : ∀ k v, P k v → Q k (g v)) : All Q (fo.map g) := by
  induction fo with
  | nil => trivial
  | cons k v c r ihc ihr => exact ⟨hPQ k v h.1, ihc h.2.1, ihr h.2.2⟩

theorem all_map {Q : κ → ν → Prop} {g : ν → ν} (hQ : ∀ k v, Q k (g v)) (fo : Forest κ ν) :
    All Q (fo.map g) := by
  induction fo with
  | nil => trivial
  | cons k v c r ihc ihr => exact ⟨hQ k v, ihc, ihr⟩

section touch

variable {new : κ → ν} {f : List κ → ν → ν} {fo : Forest κ ν} {P Q : κ → ν → Prop}

theorem all_chain (hnew : ∀ k ks, Q k (f ks (new k))) (path : List κ) :
    All Q (chain new f path) := by
  induction path with
  | nil => trivial
  | cons k ks ih => exact ⟨hnew k ks, ih, trivial⟩

theorem All.touch [DecidableEq κ] (h : All P fo) (hPQ : ∀ k v, P k v → Q k v)
    (hf : ∀ k v ks, P k v → Q k (f ks v)) (hnew : ∀ k ks, Q k (f ks (new k))) (path : List κ) :
    All Q (fo.touch new f path) := by
  induction fo generalizing path with
  | nil => exact all_chain hnew path
  | cons k v c r ihc ihr =>
    obtain ⟨hv, hc, hr⟩ := h
    cases path with
    | nil => exact ⟨hPQ k v hv, hc.mono hPQ, hr.mono hPQ⟩
    | cons k' ks =>
      rw [Forest.touch]
      split
      · exact ⟨hf k v ks hv, ihc hc ks, hr.mono hPQ⟩
      · exact ⟨hPQ k v hv, hc.mono hPQ, ihr hr (k' :: ks)⟩

/-! ## Values on a path -/

theorem map_along_chain [DecidableEq κ] {l : ν → β} {g : κ → β}
    (hnew : ∀ k ks, l (f ks (new k)) = g k) (path : List κ) :
    ((chain new f path).along path).map l = path.map g := by
  induction path with
  | nil => rfl
  | cons k ks ih => simp [chain, along, hnew, ih]

/-- Where the keys tell the labels, a path that was walked down shows those of its keys. -/
theorem map_along_touch [DecidableEq κ] {l : ν → β} {g : κ → β}
    (h : All (fun k v => l v = g k) fo) (hf : ∀ k v ks, l v = g k → l (f ks v) = g k)
    (hnew : ∀ k ks, l (f ks (new k)) = g k) (path : List κ) :
    ((fo.touch new f path).along path).map l = path.map g := by
  induction fo generalizing path with
  | nil => exact map_along_chain hnew path
  | cons k v c r ihc ihr =>
    obtain ⟨hv, hc, hr⟩ := h
    cases path with
    | nil => rfl
    | cons k' ks =>
      rw [touch]
      split
      · rename_i hk
        subst hk
        simp [along, hf k v ks hv, ihc hc ks]
      · rename_i hk
        simp [along, hk, ihr hr (k' :: ks)]

/-! ## The node at the end of a path -/

@[simp] theorem lookup_nil [DecidableEq κ] (fo : Forest κ ν) : fo.lookup [] = none := by
  cases fo <;> rfl

theorem lookup_of_not_mem_keys [DecidableEq κ] {k : κ} (h : k ∉ fo.keys) (q : List κ) :
    fo.lookup (k :: q) = none := by
  induction fo with
  | nil => rfl
  | cons k' v c r _ ihr =>
    obtain ⟨hne, hr⟩ := not_or.mp fun he => h (List.mem_cons.mpr he)
    rw [lookup, if_neg (Ne.symm hne)]
    exact ihr hr

/-- The key of a node is the last one of its path. -/
theorem All.lookup [DecidableEq κ] (h : All P fo) {q : List κ} {v : ν}
    (hq : fo.lookup q = some v) : ∃ k, q.getLast? = some k ∧ P k v := by
  induction fo generalizing q with
  | nil => cases hq
  | cons k' v' c r ihc ihr =>
    obtain ⟨hv, hc, hr⟩ := h
    cases q with
    | nil => cases hq
    | cons k q =>
      rw [Forest.lookup] at hq
      split at hq
      · rename_i hk
        split at hq
        · rename_i hnil
          cases hq
          exact ⟨k', by rw [hnil, hk]; rfl, hv⟩
        · rename_i hne
          obtain ⟨k'', hlast, hp⟩ := ihc hc hq
          refine ⟨k'', ?_, hp⟩
          rw [List.getLast?_cons, hlast]
          rfl
      · exact ihr hr hq

theorem lookup_map [DecidableEq κ] (g : ν → ν) (fo : Forest κ ν) (q : List κ) :
    (fo.map g).lookup q = (fo.lookup q).map g := by
  induction fo generalizing q with
  | nil => rfl
  | cons k v c r ihc ihr =>
    cases q with
    | nil => rfl
    | cons k' ks =>
      rw [map, lookup, lookup]
      split
      · split
        · rfl
        · exact ihc ks
      · exact ihr (k' :: ks)

theorem lookup_chain [DecidableEq κ] (p : List κ) (k : κ) (ks : List κ) :
    (chain new f (p ++ k :: ks)).lookup (p ++ [k]) = some (f ks (new k)) := by
  induction p with
  | nil => simp [chain, lookup]
  | cons k' p ih => simpa [chain, lookup] using ih

theorem lookup_chain_of_apart [DecidableEq κ] {q path : List κ} (h : ¬ q <+: path) :
    (chain new f path).lookup q = none := by
  induction path generalizing q with
  | nil => rfl
  | cons k ks ih =>
    cases q with
    | nil => rfl
    | cons k' q =>
      rw [chain, lookup]
      split
      · rename_i hk
        subst hk
        have hq : ¬ q <+: ks := fun hp => h (List.cons_prefix_cons.mpr ⟨rfl, hp⟩)
        have hne : q ≠ [] := fun he => hq (he ▸ List.nil_prefix)
        rw [if_neg hne]
        exact ih hq
      · rfl

/-- A walk makes a node of its path, or changes the one that is there. -/
theorem lookup_touch [DecidableEq κ] (fo : Forest κ ν) (p : List κ) (k : κ) (ks : List κ) :
    (fo.touch new f (p ++ k :: ks)).lookup (p ++ [k]) =
      some (f ks ((fo.lookup (p ++ [k])).getD (new k))) := by
  induction fo generalizing p with
  | nil => exact lookup_chain p k ks
  | cons k' v c r ihc ihr =>
    cases p with
    | nil =>
      have ih := ihr []
      simp only [List.nil_append] at ih ⊢
      rw [touch]
      split
      · rename_i hk
        simp [lookup, hk]
      · rename_i hk
        rw [lookup, if_neg hk, ih, lookup, if_neg hk]
    | cons k'' p =>
      have ih := ihr (k'' :: p)
      simp only [List.cons_append] at ih ⊢
      rw [touch]
      split
      · rename_i hk
        simp only [lookup, if_pos hk, if_neg (List.append_ne_nil_of_right_ne_nil p
          (List.cons_ne_nil k []))]
        exact ihc p
      · rename_i hk
        rw [lookup, if_neg hk, ih, lookup, if_neg hk]

/-- It leaves all other nodes alone. -/
theorem lookup_touch_of_apart [DecidableEq κ] {q path : List κ} (h : ¬ q <+: path) :
    (fo.touch new f path).lookup q = fo.lookup q := by
  induction fo generalizing q path with
  | nil => exact lookup_chain_of_apart h
  | cons k v c r ihc ihr =>
    cases path with
    | nil => rfl
    | cons k' ks =>
      cases q with
      | nil => exact absurd List.nil_prefix h
      | cons k'' q =>
        rw [touch]
        split
        · rename_i hk
          subst hk
          rw [lookup, lookup]
          split
          · rename_i hk
            subst hk
            split
            · rename_i hq
              exact absurd (hq ▸ List.cons_prefix_cons.mpr ⟨rfl, List.nil_prefix⟩) h
            · exact ihc fun hp => h (List.cons_prefix_cons.mpr ⟨rfl, hp⟩)
          · rfl
        · rw [lookup, lookup, ihr h]

/-! ## Keys -/

theorem keys_touch [DecidableEq κ] (fo : Forest κ ν) (k : κ) (ks : List κ) :
    keys (fo.touch new f (k :: ks)) = if k ∈ keys fo then keys fo else keys fo ++ [k] := by
  induction fo with
  | nil => simp [touch, chain, keys]
  | cons k' v c r _ ihr =>
    rw [touch]
    split
    · rename_i hk
      simp [keys, hk]
    · rename_i hk
      have hk' : k ≠ k' := Ne.symm hk
      rw [keys, ihr]
      by_cases hmem : k ∈ keys r <;> simp [keys, hmem, hk']

theorem simple_chain (path : List κ) : Simple (chain new f path) := by
  induction path with
  | nil => trivial
  | cons k ks ih => exact ⟨List.not_mem_nil, ih, trivial⟩

theorem Simple.touch [DecidableEq κ] (h : Simple fo) (path : List κ) :
    Simple (fo.touch new f path) := by
  induction fo generalizing path with
  | nil => exact simple_chain path
  | cons k v c r ihc ihr =>
    obtain ⟨hk, hc, hr⟩ := h
    cases path with
    | nil => exact ⟨hk, hc, hr⟩
    | cons k' ks =>
      rw [Forest.touch]
      split
      · exact ⟨hk, ihc hc ks, hr⟩
      · rename_i hne
        refine ⟨?_, hc, ihr hr (k' :: ks)⟩
        rw [keys_touch]
        split
        · exact hk
        · simp [hk, hne]

theorem keys_map (g : ν → ν) (fo : Forest κ ν) : keys (fo.map g) = keys fo := by
  induction fo with
  | nil => rfl
  | cons k v c r _ ihr => rw [map, keys, keys, ihr]

theorem Simple.map (h : Simple fo) (g : ν → ν) : Simple (fo.map g) := by
  induction fo with
  | nil => trivial
  | cons k v c r ihc ihr =>
    refine ⟨?_, ihc h.2.1, ihr h.2.2⟩
    rw [keys_map]
    exact h.1

/-! ## Paths -/

variable {keep : ν → Bool} {q : List κ}

theorem mem_shown_cons {k : κ} {v : ν} {c r : Forest κ ν} :
    q ∈ shown keep (cons k v c r) ↔
      keep v = true ∧ (q = [k] ∨ ∃ p ∈ shown keep c, k :: p = q) ∨ q ∈ shown keep r := by
  rw [shown, List.mem_append]
  split <;> simp [*]

theorem ne_nil_of_mem_shown (h : q ∈ shown keep fo) : q ≠ [] := by
  induction fo with
  | nil => cases h
  | cons k v c r _ ihr =>
    rcases mem_shown_cons.mp h with ⟨-, rfl | ⟨p, -, rfl⟩⟩ | h
    · exact List.cons_ne_nil k []
    · exact List.cons_ne_nil k p
    · exact ihr h

theorem head_of_mem_shown {k : κ} (h : k :: q ∈ shown keep fo) : k ∈ keys fo := by
  induction fo with
  | nil => cases h
  | cons k' v c r _ ihr =>
    rcases mem_shown_cons.mp h with ⟨-, he | ⟨p, -, he⟩⟩ | h
    · exact (List.cons.inj he).1 ▸ List.mem_cons_self
    · exact (List.cons.inj he).1 ▸ List.mem_cons_self
    · exact List.mem_cons_of_mem k' (ihr h)

/-- Each node is shown once. -/
theorem nodup_shown (h : Simple fo) : (shown keep fo).Nodup := by
  induction fo with
  | nil => exact List.nodup_nil
  | cons k v c r ihc ihr =>
    obtain ⟨hk, hc, hr⟩ := h
    have hbelow : ([k] :: (shown keep c).map (k :: ·)).Nodup := by
      refine List.nodup_cons.mpr ⟨fun h => ?_, (ihc hc).map fun p p' => List.tail_eq_of_cons_eq⟩
      obtain ⟨p, hp, he⟩ := List.mem_map.mp h
      exact ne_nil_of_mem_shown hp (List.cons.inj he).2
    rw [shown]
    split
    · refine hbelow.append (ihr hr) fun q hq hqr => hk ?_
      rcases List.mem_cons.mp hq with rfl | hq
      · exact head_of_mem_shown hqr
      · obtain ⟨p, -, rfl⟩ := List.mem_map.mp hq
        exact head_of_mem_shown hqr
    · exact ihr hr

theorem shown_eq_nil (h : All (fun _ v => keep v = false) fo) : shown keep fo = [] := by
  induction fo with
  | nil => rfl
  | cons k v c r _ ihr => simp [shown, h.1, ihr h.2.2]

theorem cons_prefix_iff {k : κ} {ks : List κ} :
    q ≠ [] ∧ q <+: k :: ks ↔ q = [k] ∨ ∃ p, (p ≠ [] ∧ p <+: ks) ∧ k :: p = q := by
  cases q with
  | nil => simp
  | cons k' p =>
    cases p with
    | nil => simp [List.cons_prefix_cons, eq_comm]
    | cons k'' p => simp [List.cons_prefix_cons, eq_comm, and_comm]

theorem mem_shown_chain (hf : ∀ k ks, keep (f ks (new k)) = true) (path : List κ) :
    q ∈ shown keep (chain new f path) ↔ q ≠ [] ∧ q <+: path := by
  induction path generalizing q with
  | nil => simp [chain, shown]
  | cons k ks ih =>
    rw [chain, mem_shown_cons, cons_prefix_iff]
    simp [hf, ih, shown]

/-- A walk shows the nodes on its path, and keeps those shown before. -/
theorem mem_shown_touch [DecidableEq κ] (h : Closed keep fo) (hf : ∀ ks v, keep (f ks v) = true)
    (path : List κ) :
    q ∈ shown keep (fo.touch new f path) ↔ q ∈ shown keep fo ∨ q ≠ [] ∧ q <+: path := by
  induction fo generalizing path q with
  | nil => simp [touch, mem_shown_chain fun k ks => hf ks (new k), shown]
  | cons k v c r ihc ihr =>
    obtain ⟨hv, hc, hr⟩ := h
    cases path with
    | nil => simp +contextual [touch]
    | cons k' ks =>
      rw [touch]
      split
      · rename_i hk
        subst hk
        rw [mem_shown_cons, mem_shown_cons, cons_prefix_iff]
        simp only [hf, ihc hc]
        cases hkeep : keep v with
        | true => grind
        | false =>
          rw [shown_eq_nil (hv hkeep)]
          grind
      · rw [mem_shown_cons, mem_shown_cons, ihr hr, or_assoc]

theorem closed_chain (hf : ∀ k ks, keep (f ks (new k)) = true) (path : List κ) :
    Closed keep (chain new f path) := by
  induction path with
  | nil => trivial
  | cons k ks ih => exact ⟨fun h => by simp [hf] at h, ih, trivial⟩

theorem Closed.touch [DecidableEq κ] (h : Closed keep fo) (hf : ∀ ks v, keep (f ks v) = true)
    (path : List κ) : Closed keep (fo.touch new f path) := by
  induction fo generalizing path with
  | nil => exact closed_chain (fun k ks => hf ks (new k)) path
  | cons k v c r ihc ihr =>
    obtain ⟨hv, hc, hr⟩ := h
    cases path with
    | nil => exact ⟨hv, hc, hr⟩
    | cons k' ks =>
      rw [Forest.touch]
      split
      · exact ⟨fun hno => by simp [hf] at hno, ihc hc ks, hr⟩
      · exact ⟨hv, hc, ihr hr (k' :: ks)⟩

theorem closed_of_all (h : All (fun _ v => keep v = false) fo) : Closed keep fo := by
  induction fo with
  | nil => trivial
  | cons k v c r ihc ihr => exact ⟨fun _ => h.2.1, ihc h.2.1, ihr h.2.2⟩

end touch

end Forest

end Opsian.Lib
