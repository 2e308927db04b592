import Mathlib.Data.List.Infix

/-!
# Machines that scan a buffer

A machine is fed the elements of a buffer one after another, and may look back into the buffer.  It stops in front of
an element it fails on, and behind the one it finishes on.

    m.Passes buffer p xs s s' → m.exec buffer p (xs ++ ys) s = m.exec buffer (p + xs.length) ys s'   (Passes.exec_eq)

A part of a buffer is described by where it lies, so that a token is known by the offset it was marked at:

    Lies buffer p xs → slice buffer p xs.length = xs   (Lies.slice)

What is known of a state may leave out the offsets it keeps.  A text that takes the machine from one view to another
wherever it lies is read, and so is a chain of such texts; between two of them the buffer may be another one.

    m.Chain view good us v v' → m.Reads view us.flatten v v'   (Chain.reads)
-/

namespace Scan

variable {σ α ν : Type}

/-! ## Algorithm -/

/-- `step` is given the buffer, the offset and the element there. -/
structure Machine (σ α : Type) where
  step : List α → Nat → α → σ → σ
  failed : σ → Bool
  finished : σ → Bool

/-- The state in which the machine stops, and the offset. -/
def Machine.exec (m : Machine σ α) (buffer : List α) : Nat → List α → σ → σ × Nat
  | p, [], s => (s, p)
  | p, x :: rest, s =>
    let s := m.step buffer p x s
    if m.failed s then (s, p) else if m.finished s then (s, p + 1) else m.exec buffer (p + 1) rest s

/-- The `len` elements at offset `p`. -/
def slice (buffer : List α) (p len : Nat) : List α := (buffer.drop p).take len

/-! ## Specification -/

/-- `xs` is what the buffer holds at offset `p`. -/
def Lies (buffer : List α) (p : Nat) (xs : List α) : Prop := xs <+: buffer.drop p

variable (m : Machine σ α) (buffer : List α)

/-- `m` is fed `xs`, which lies at offset `p`, and neither fails nor finishes. -/
inductive Machine.Passes : Nat → List α → σ → σ → Prop
  | nil {p : Nat} {s : σ} : Passes p [] s s
  | cons {p : Nat} {x : α} {xs : List α} {s s' : σ} :
      m.failed (m.step buffer p x s) = false → m.finished (m.step buffer p x s) = false →
        Passes (p + 1) xs (m.step buffer p x s) s' → Passes p (x :: xs) s s'

variable (view : σ → ν)

/-- `u` takes the machine from the view `v` to the view `v'`, wherever it lies. -/
def Machine.Reads (u : List α) (v v' : ν) : Prop :=
  ∀ buffer p s, Lies buffer p u → view s = v → ∃ s', m.Passes buffer p u s s' ∧ view s' = v'

/-- Texts that are read one after another.  All the views before, between and behind them are `good`. -/
inductive Machine.Chain (good : ν → Prop) : List (List α) → ν → ν → Prop
  | nil {v : ν} : good v → Chain good [] v v
  | cons {u : List α} {us : List (List α)} {v v' v'' : ν} :
      good v → m.Reads view u v v' → Chain good us v' v'' → Chain good (u :: us) v v''

/-! ## Lemmas -/

variable {m buffer view} {good : ν → Prop} {u u' : List α} {us us' : List (List α)} {v v' v'' : ν}
  {p : Nat} {x : α} {xs ys : List α} {s s' s'' : σ}

/-! ### Parts of a buffer -/

theorem Lies.left (h : Lies buffer p (xs ++ ys)) : Lies buffer p xs := (List.prefix_append xs ys).trans h

theorem Lies.right (h : Lies buffer p (xs ++ ys)) : Lies buffer (p + xs.length) ys := by
  obtain ⟨rest, hrest⟩ := h
  refine ⟨rest, ?_⟩
  rw [← List.drop_drop, ← hrest, List.append_assoc, List.drop_left]

theorem Lies.slice (h : Lies buffer p xs) : slice buffer p xs.length = xs := by
  obtain ⟨rest, hrest⟩ := h
  unfold Scan.slice
  rw [← hrest, List.take_left]

/-! ### Runs -/

theorem Machine.Passes.append (h : m.Passes buffer p xs s s') (h' : m.Passes buffer (p + xs.length) ys s' s'') :
    m.Passes buffer p (xs ++ ys) s s'' := by
  induction h with
  | nil => exact h'
  | cons hfailed hfinished _ ih =>
    refine .cons hfailed hfinished (ih ?_)
    rwa [List.length_cons, Nat.add_comm _ 1, ← Nat.add_assoc] at h'

theorem Machine.Passes.one (hs : m.step buffer p x s = s') (hfailed : m.failed s' = false)
    (hfinished : m.finished s' = false) : m.Passes buffer p [x] s s' := by
  subst hs
  exact .cons hfailed hfinished .nil

theorem Machine.Passes.head (hs : m.step buffer p x s = s') (hfailed : m.failed s' = false)
    (hfinished : m.finished s' = false) (h : m.Passes buffer (p + 1) xs s' s'') : m.Passes buffer p (x :: xs) s s'' := by
  subst hs
  exact .cons hfailed hfinished h

theorem Machine.Passes.stay (hstep : ∀ x ∈ xs, ∀ p, m.step buffer p x s = s) (hfailed : m.failed s = false)
    (hfinished : m.finished s = false) : m.Passes buffer p xs s s := by
  induction xs generalizing p with
  | nil => exact .nil
  | cons x xs ih =>
    exact .head (hstep x List.mem_cons_self p) hfailed hfinished (ih fun y hy => hstep y (List.mem_cons_of_mem x hy))

theorem Machine.Passes.exec_eq (h : m.Passes buffer p xs s s') (ys : List α) :
    m.exec buffer p (xs ++ ys) s = m.exec buffer (p + xs.length) ys s' := by
  induction h with
  | nil => rfl
  | @cons p x xs s s' hfailed hfinished _ ih =>
    rw [List.cons_append, Machine.exec, hfailed, hfinished]
    show m.exec buffer (p + 1) (xs ++ ys) _ = _
    rw [ih, List.length_cons, Nat.add_assoc, Nat.add_comm 1]

theorem Machine.Passes.exec_all (h : m.Passes buffer p xs s s') : m.exec buffer p xs s = (s', p + xs.length) := by
  have hexec := h.exec_eq []
  rwa [List.append_nil] at hexec

theorem Machine.exec_finish (hs : m.step buffer p x s = s') (hfailed : m.failed s' = false)
    (hfinished : m.finished s' = true) (ys : List α) : m.exec buffer p (x :: ys) s = (s', p + 1) := by
  subst hs
  rw [Machine.exec, hfailed, hfinished]
  rfl

/-! ### Views -/

theorem Machine.Reads.append (h : m.Reads view u v v') (h' : m.Reads view u' v' v'') :
    m.Reads view (u ++ u') v v'' := by
  intro buffer p s hlies hs
  obtain ⟨s1, hpasses, hs1⟩ := h buffer p s hlies.left hs
  obtain ⟨s2, hpasses', hs2⟩ := h' buffer (p + u.length) s1 hlies.right hs1
  exact ⟨s2, hpasses.append hpasses', hs2⟩

theorem Machine.Chain.reads (h : m.Chain view good us v v') : m.Reads view us.flatten v v' := by
  induction h with
  | nil => exact fun buffer p s _ hs => ⟨s, .nil, hs⟩
  | cons _ hread _ ih => exact hread.append ih

theorem Machine.Chain.begins (h : m.Chain view good us v v') : good v := by
  cases h with
  | nil hgood => exact hgood
  | cons hgood _ _ => exact hgood

theorem Machine.Chain.append (h : m.Chain view good us v v') (h' : m.Chain view good us' v' v'') :
    m.Chain view good (us ++ us') v v'' := by
  induction h with
  | nil => exact h'
  | cons hgood hread _ ih => exact .cons hgood hread (ih h')

theorem Machine.Chain.split (h : m.Chain view good (us ++ us') v v'') :
    ∃ v', m.Chain view good us v v' ∧ m.Chain view good us' v' v'' := by
  induction us generalizing v with
  | nil => exact ⟨v, .nil h.begins, h⟩
  | cons u us ih =>
    cases h with
    | cons hgood hread hrest =>
      obtain ⟨v', hfirst, hlast⟩ := ih hrest
      exact ⟨v', .cons hgood hread hfirst, hlast⟩

theorem Machine.Chain.one (hv : good v) (h : m.Reads view u v v') (hv' : good v') : m.Chain view good [u] v v' :=
  .cons hv h (.nil hv')

end Scan
