import Mathlib.Data.List.Induction
import Mathlib.Order.Basic

/-!
# Admission over windows of time

A machine is asked at one time after the other and admits or refuses.  The log keeps the times with the outcomes.

    related machines that answer alike, and stay related, have one log   (log_eq)
    an invariant of the log so far and the machine holds before each entry   (log_spec)
    each admission finds fewer than n within w → every window as wide as w holds at most n   (countP_admitted_le)
-/

namespace Windows

variable {S S' T : Type*}

/-! ## Algorithm -/

def log (acquire : T → S → Bool × S) : S → List T → List (T × Bool)
  | _, [] => []
  | s, t :: ts => (t, (acquire t s).1) :: log acquire (acquire t s).2 ts

def admitted (l : List (T × Bool)) : List T := (l.filter (·.2)).map (·.1)

/-! ## Lemmas -/

variable {acquire : T → S → Bool × S} {acquire' : T → S' → Bool × S'}

@[simp] theorem admitted_nil : admitted ([] : List (T × Bool)) = [] := rfl

@[simp] theorem admitted_cons_true (t : T) (l : List (T × Bool)) : admitted ((t, true) :: l) = t :: admitted l := rfl

@[simp] theorem admitted_cons_false (t : T) (l : List (T × Bool)) : admitted ((t, false) :: l) = admitted l := rfl

theorem admitted_append (l m : List (T × Bool)) : admitted (l ++ m) = admitted l ++ admitted m := by
  rw [admitted, List.filter_append, List.map_append]
  rfl

theorem mem_of_mem_admitted {l : List (T × Bool)} {t : T} (h : t ∈ admitted l) : ∃ x ∈ l, x.1 = t := by
  obtain ⟨x, hx, rfl⟩ := List.mem_map.mp h
  exact ⟨x, (List.mem_filter.mp hx).1, rfl⟩

theorem log_eq (R : S → S' → Prop)
    (hstep : ∀ t s s', R s s' → (acquire t s).1 = (acquire' t s').1 ∧ R (acquire t s).2 (acquire' t s').2)
    {s : S} {s' : S'} (h : R s s') (ts : List T) : log acquire s ts = log acquire' s' ts := by
  induction ts generalizing s s' with
  | nil => rfl
  | cons t ts ih =>
    obtain ⟨hok, hnext⟩ := hstep t s s' h
    rw [log, log, hok, ih hnext]

/-- The invariant is of the entries so far and the machine, and is kept by a call that is not before them. -/
theorem log_spec [Preorder T] (Inv : List (T × Bool) → S → Prop)
    (hstep : ∀ past s t, Inv past s → (∀ x ∈ past, x.1 ≤ t) → Inv (past ++ [(t, (acquire t s).1)]) (acquire t s).2)
    {s : S} {ts : List T} (past : List (T × Bool)) (h : Inv past s) (hsorted : ts.Pairwise (· ≤ ·))
    (hpast : ∀ x ∈ past, ∀ t ∈ ts, x.1 ≤ t) {p q : List (T × Bool)} {t : T} {ok : Bool}
    (hlog : log acquire s ts = p ++ (t, ok) :: q) :
    ∃ s', Inv (past ++ p) s' ∧ (∀ x ∈ past ++ p, x.1 ≤ t) ∧ ok = (acquire t s').1 := by
  induction ts generalizing s past p with
  | nil => exact absurd hlog (by simp [log])
  | cons u ts ih =>
    obtain ⟨hu, hts⟩ := List.pairwise_cons.mp hsorted
    have hpu : ∀ x ∈ past, x.1 ≤ u := fun x hx => hpast x hx u List.mem_cons_self
    rw [log] at hlog
    cases p with
    | nil =>
      obtain ⟨hut, -⟩ := List.cons.inj hlog
      cases hut
      rw [List.append_nil]
      exact ⟨s, h, hpu, rfl⟩
    | cons x p =>
      obtain ⟨rfl, hrest⟩ := List.cons.inj hlog
      have hnext := ih (past ++ [(u, (acquire u s).1)]) (hstep past s u h hpu) hts ?_ hrest
      · rwa [List.append_assoc] at hnext
      · intro x hx v hv
        rcases List.mem_append.mp hx with hx | hx
        · exact hpast x hx v (List.mem_cons_of_mem _ hv)
        · rw [List.mem_singleton.mp hx]
          exact hu v hv

/-! ## Top theorem -/

/-- `I` is a window whose times all lie within `w` of each other. -/
theorem countP_admitted_le [Sub T] [LT T] [DecidableLT T] {w : T} {n : Nat} {l : List (T × Bool)}
    (h : ∀ p t q, l = p ++ (t, true) :: q → (admitted p).countP (fun x => decide (t - w < x)) < n)
    (I : T → Prop) [DecidablePred I] (hI : ∀ x y, I x → I y → y - w < x) :
    (admitted l).countP (fun x => decide (I x)) ≤ n := by
  induction l using List.reverseRecOn with
  | nil => exact Nat.zero_le _
  | append_singleton l x ih =>
    have hl := ih fun p t q heq => h p t (q ++ [x]) (by rw [heq, List.append_assoc, List.cons_append])
    obtain ⟨t, ok⟩ := x
    rw [admitted_append, List.countP_append]
    cases ok with
    | false => simpa using hl
    | true =>
      -- what is in the window with `t` is within `w` of it
      by_cases ht : I t
      · have hless : (admitted l).countP (fun x => decide (I x)) ≤ (admitted l).countP fun x => decide (t - w < x) := by
          refine List.countP_mono_left fun x _ hx => ?_
          exact decide_eq_true (hI x t (of_decide_eq_true hx) ht)
        have hlt := h l t [] rfl
        have hone : (admitted [(t, true)]).countP (fun x => decide (I x)) = 1 := by simp [ht]
        omega
      · have hzero : (admitted [(t, true)]).countP (fun x => decide (I x)) = 0 := by simp [ht]
        rwa [hzero]

end Windows
