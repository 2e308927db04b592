import Mathlib.Data.List.Basic
import ZeroFrameworks.Kv.Bytes

/-!
# The table of descriptor contexts

`addEvent` tests under the read lock whether the table has its descriptor, and resizes it under the write lock, to
a size that it computes from the descriptor alone.  Between the two another thread may have resized the table.

    (new).Along Kept ops ↔ (new).Along Grows ops   (table_kept_iff)
-/

namespace Core

/-! ## Algorithm -/

/-- `id` tells the contexts apart that were allocated. -/
structure FdContext where
  id : Nat
  fd : Nat
deriving DecidableEq

/-- `tooSmall` are the descriptors for which threads have found the table too small. -/
structure FdTable where
  contexts : List (Option FdContext)
  allocated : Nat
  tooSmall : Nat → Option Nat

inductive FdOp where
  /-- A thread calls `addEvent`, and compares under the read lock. -/
  | test (thread fd : Nat)
  | resize (thread : Nat)

namespace FdTable

/-- `std::vector::resize`. -/
def resized (contexts : List (Option FdContext)) (size : Nat) : List (Option FdContext) :=
  contexts.take size ++ List.replicate (size - contexts.length) none

def contextResize (size : Nat) (s : FdTable) : FdTable :=
  { s with
    contexts := (resized s.contexts size).mapIdx fun i c => some (c.getD ⟨s.allocated + i, i⟩)
    allocated := s.allocated + size }

def new : FdTable := contextResize 32 ⟨[], 0, fun _ => none⟩

/-- `(int)m_fdContexts.size() > fd` and `fd * 1.5`. -/
def step (s : FdTable) : FdOp → Option FdTable
  | .test thread fd =>
    match s.tooSmall thread with
    | some _ => none
    | none =>
      if (fd : Int) < Kv.i32 s.contexts.length then some s
      else some { s with tooSmall := Function.update s.tooSmall thread (some fd) }
  | .resize thread =>
    match s.tooSmall thread with
    | none => none
    | some fd => some { s.contextResize (fd * 3 / 2) with tooSmall := Function.update s.tooSmall thread none }

/-! ## Specification -/

/-- `entry`: after a resize the table has a context for the descriptor. -/
structure Kept (s : FdTable) (op : FdOp) (s' : FdTable) : Prop where
  size : s.contexts.length ≤ s'.contexts.length
  context : ∀ (i : Nat) c, s.contexts[i]? = some (some c) → s'.contexts[i]? = some (some c)
  entry : ∀ thread fd, op = .resize thread → s.tooSmall thread = some fd → ∃ c, s'.contexts[fd]? = some (some c)

/-- The table is not larger than what it is resized to, and the descriptor is not 0 or 1. -/
def Grows (s : FdTable) (op : FdOp) (_ : FdTable) : Prop :=
  match op with
  | .test _ _ => True
  | .resize thread => ∀ fd ∈ s.tooSmall thread, s.contexts.length ≤ fd * 3 / 2 ∧ 2 ≤ fd

/-- `P` holds of every step that a run takes. -/
def Along (P : FdTable → FdOp → FdTable → Prop) (s : FdTable) : List FdOp → Prop
  | [] => True
  | op :: ops => ∀ s' ∈ s.step op, P s op s' ∧ s'.Along P ops

/-! ## Lemmas -/

variable {s s' : FdTable} {size i : Nat}

theorem length_contextResize (s : FdTable) (size : Nat) : (s.contextResize size).contexts.length = size := by
  show (List.mapIdx _ (resized s.contexts size)).length = size
  rw [List.length_mapIdx, resized, List.length_append, List.length_take, List.length_replicate]
  omega

/-- What a larger table had is where it was. -/
theorem context_contextResize {c : FdContext} (h : s.contexts.length ≤ size) (hc : s.contexts[i]? = some (some c)) :
    (s.contextResize size).contexts[i]? = some (some c) := by
  have hi : i < s.contexts.length := (List.getElem?_eq_some_iff.mp hc).1
  have hold : (resized s.contexts size)[i]? = some (some c) := by
    rw [resized, List.take_of_length_le h, List.getElem?_append_left hi, hc]
  show (List.mapIdx _ (resized s.contexts size))[i]? = _
  rw [List.getElem?_mapIdx, hold]
  rfl

theorem entry_contextResize (h : i < size) : ∃ c, (s.contextResize size).contexts[i]? = some (some c) := by
  have hi : i < (resized s.contexts size).length := by
    rw [resized, List.length_append, List.length_take, List.length_replicate]
    omega
  refine ⟨((resized s.contexts size)[i]).getD ⟨s.allocated + i, i⟩, ?_⟩
  show (List.mapIdx _ (resized s.contexts size))[i]? = _
  rw [List.getElem?_mapIdx, List.getElem?_eq_getElem hi]
  rfl

theorem kept_step_iff {op : FdOp} (hstep : s.step op = some s') : s.Kept op s' ↔ s.Grows op s' := by
  cases op with
  | test thread fd =>
    refine iff_of_true ?_ trivial
    have hsame : s'.contexts = s.contexts := by
      unfold step at hstep
      dsimp only at hstep
      split at hstep
      · cases hstep
      · split at hstep
        · cases hstep
          rfl
        · cases hstep
          rfl
    exact ⟨by rw [hsame], fun i c hc => by rw [hsame]; exact hc, fun _ _ h => by cases h⟩
  | resize thread =>
    rcases Option.eq_none_or_eq_some (s.tooSmall thread) with hnone | ⟨fd, hfd⟩
    · simp only [step, hnone] at hstep
      cases hstep
    · simp only [step, hfd] at hstep
      obtain rfl := Option.some.inj hstep
      have hlen := length_contextResize s (fd * 3 / 2)
      constructor
      · intro h fd' hfd'
        obtain rfl : fd = fd' := Option.some.inj (hfd.symm.trans hfd')
        have hsize : s.contexts.length ≤ (s.contextResize (fd * 3 / 2)).contexts.length := h.size
        obtain ⟨c, hc⟩ := h.entry thread fd rfl hfd
        have hlt : fd < (s.contextResize (fd * 3 / 2)).contexts.length := (List.getElem?_eq_some_iff.mp hc).1
        omega
      · intro h
        obtain ⟨hle, hge⟩ := h fd hfd
        refine ⟨?_, fun i c hc => context_contextResize hle hc, ?_⟩
        · show s.contexts.length ≤ (s.contextResize (fd * 3 / 2)).contexts.length
          omega
        · intro thread' fd' heq hfd'
          cases heq
          obtain rfl : fd = fd' := Option.some.inj (hfd.symm.trans hfd')
          exact entry_contextResize (by omega)

theorem grows_after_test {thread fd : Nat} (hsize : s.contexts.length < 2 ^ 31) (hfd : 2 ≤ fd)
    (htest : s.step (.test thread fd) = some s') (hsmall : s'.tooSmall thread = some fd) (s'' : FdTable) :
    s'.Grows (.resize thread) s'' := by
  intro fd' hfd'
  obtain rfl : fd = fd' := Option.some.inj (hsmall.symm.trans hfd')
  have hint : Kv.i32 s.contexts.length = s.contexts.length := Kv.i32_natCast hsize
  unfold step at htest
  dsimp only at htest
  split at htest
  · cases htest
  next hnone =>
    split at htest
    · cases htest
      rw [hnone] at hsmall
      cases hsmall
    next hlt =>
      cases htest
      rw [hint] at hlt
      refine ⟨?_, hfd⟩
      show s.contexts.length ≤ _
      omega

/-! ## Top theorem -/

theorem along_kept_iff (ops : List FdOp) : s.Along Kept ops ↔ s.Along Grows ops := by
  induction ops generalizing s with
  | nil => exact Iff.rfl
  | cons op ops ih =>
    refine forall₂_congr fun s' hs => ?_
    exact and_congr (kept_step_iff hs) ih

theorem table_kept_iff (ops : List FdOp) : new.Along Kept ops ↔ new.Along Grows ops := along_kept_iff ops

/-- Two threads find the table too small for 33 and for 32, and resize it to 49 and then to 48. -/
theorem context_dropped : ¬ new.Along Kept [.test 0 33, .test 1 32, .resize 0, .resize 1] := by
  have hlen : new.contexts.length = 32 := length_contextResize ..
  have hfree : new.tooSmall = fun _ => none := rfl
  rw [along_kept_iff]
  generalize new = s at *
  intro h
  have hint : Kv.i32 s.contexts.length = 32 := by
    rw [hlen]
    decide
  have htest : ∀ (tooSmall : Nat → Option Nat) (thread fd : Nat), 32 ≤ fd → tooSmall thread = none →
      step { s with tooSmall } (.test thread fd) =
        some { s with tooSmall := Function.update tooSmall thread (some fd) } := by
    intro tooSmall thread fd hfd hnone
    simp only [step, hnone]
    rw [if_neg]
    show ¬ (fd : Int) < Kv.i32 s.contexts.length
    omega
  have h1 := (h _ (htest s.tooSmall 0 33 (by decide) (by rw [hfree]))).2
  have h2 := (h1 _ (htest _ 1 32 (by decide) (by rw [hfree]; rfl))).2
  have h3 := (h2 _ rfl).2
  have hgrows := (h3 _ rfl).1 32 rfl
  have hle : (s.contextResize (33 * 3 / 2)).contexts.length ≤ 32 * 3 / 2 := hgrows.1
  rw [length_contextResize] at hle
  omega

end FdTable

end Core
