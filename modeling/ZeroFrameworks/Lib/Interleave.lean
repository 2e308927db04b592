import Mathlib.Data.List.Basic
import Mathlib.Data.List.Induction

/-!
# Interleavings and the serial orders they amount to

Several owners take turns at a state.  A schedule says whose turn comes when; it is serial when
every owner has its turns one right after the other.

Turns that are independent of each other may change places, up to a relation `R` on states that
every turn respects (`Exchange`).  If after an owner's first turn no turn of another owner, on which
a later turn of this owner depends, comes in between (`Uninterrupted`), the schedule amounts to the
serial one in which the owners come in the order of their first turns:

    Exchange I R step indep → Uninterrupted own indep l → I s →
      R (l.foldl step s) ((serial own (owners own l) l).foldl step s)   (Exchange.serial)
-/

namespace Interleave

variable {S T O : Type} [DecidableEq O]

/-! ## Schedules -/

/-- The owners of a schedule in the order of their first turns. -/
def owners (own : T → O) (l : List T) : List O := (l.map own).eraseDups

/-- The turns of each owner together, the owners in the order `os`. -/
def serial (own : T → O) (os : List O) (l : List T) : List T :=
  os.flatMap fun o => l.filter fun x => decide (own x = o)

/-- Once an owner has begun, its turns do not depend on what others did since. -/
def Uninterrupted (own : T → O) (indep : T → T → Prop) : List T → Prop
  | [] => True
  | x :: l =>
    l.Pairwise (fun z y => own y = own x → own z ≠ own x → indep z y) ∧ Uninterrupted own indep l

instance Uninterrupted.decidable (own : T → O) (indep : T → T → Prop) [DecidableRel indep] :
    (l : List T) → Decidable (Uninterrupted own indep l)
  | [] => inferInstanceAs (Decidable True)
  | _ :: l => @instDecidableAnd _ _ _ (Uninterrupted.decidable own indep l)

/-- Turns respect `R` on the states of `I`, and independent ones may change places. -/
structure Exchange (I : S → Prop) (R : S → S → Prop) (step : S → T → S) (indep : T → T → Prop) :
    Prop where
  keeps : ∀ s x, I s → I (step s x)
  refl : ∀ s, R s s
  trans : ∀ s t u, R s t → R t u → R s u
  respects : ∀ s t x, I s → I t → R s t → R (step s x) (step t x)
  swap : ∀ s x y, I s → indep x y → R (step (step s x) y) (step (step s y) x)

/-! ## Lemmas -/

variable {own : T → O} {indep : T → T → Prop}

omit [DecidableEq O] in
theorem Uninterrupted.filter (p : T → Bool) {l : List T} (h : Uninterrupted own indep l) :
    Uninterrupted own indep (l.filter p) := by
  induction l with
  | nil => exact h
  | cons x l ih =>
    obtain ⟨hx, hl⟩ := h
    rw [List.filter_cons]
    split
    · exact ⟨hx.filter p, ih hl⟩
    · exact ih hl

/-- The owners after the first one are those of the turns that are not the first one's. -/
theorem owners_cons (x : T) (l : List T) :
    owners own (x :: l) = own x :: owners own (l.filter fun y => decide (own y ≠ own x)) := by
  unfold owners
  rw [List.map_cons, List.eraseDups_cons, List.filter_map]
  congr 4
  funext y
  simp only [Function.comp_apply, ne_eq, decide_not]
  rfl

theorem mem_owners {l : List T} {o : O} : o ∈ owners own l ↔ ∃ x ∈ l, own x = o := by
  unfold owners
  rw [List.mem_eraseDups, List.mem_map]

theorem nodup_owners (l : List T) : (owners own l).Nodup := by
  induction hn : l.length using Nat.strongRecOn generalizing l with
  | ind n ih =>
    cases l with
    | nil => exact List.nodup_nil
    | cons x l =>
      rw [owners_cons, List.nodup_cons]
      refine ⟨fun hx => ?_, ih _ ?_ _ rfl⟩
      · obtain ⟨z, hz, hzx⟩ := mem_owners.mp hx
        rw [List.mem_filter, decide_eq_true_eq] at hz
        exact hz.2 hzx
      · have := List.length_filter_le (fun y => decide (own y ≠ own x)) l
        rw [← hn, List.length_cons]
        omega

/-- The serial schedule begins with the first turn's owner; the rest is the serial schedule of what
the other owners do. -/
theorem serial_cons (x : T) (l : List T) :
    serial own (owners own (x :: l)) (x :: l) = (x :: l.filter fun y => decide (own y = own x)) ++
      serial own (owners own (l.filter fun y => decide (own y ≠ own x)))
        (l.filter fun y => decide (own y ≠ own x)) := by
  rw [owners_cons]
  unfold serial
  rw [List.flatMap_cons, List.filter_cons_of_pos (by simp)]
  congr 1
  refine List.flatMap_congr fun o ho => ?_
  obtain ⟨z, hz, rfl⟩ := mem_owners.mp ho
  rw [List.mem_filter, decide_eq_true_eq] at hz
  have hne : own z ≠ own x := hz.2
  rw [List.filter_cons_of_neg (by simpa using fun h => hne h.symm), List.filter_filter]
  refine List.filter_congr fun y _ => ?_
  by_cases hy : own y = own z
  · simp [hy, hne]
  · simp [hy]

theorem own_mem_of_mem_serial {os : List O} {l : List T} {x : T} (h : x ∈ serial own os l) :
    own x ∈ os := by
  unfold serial at h
  rw [List.mem_flatMap] at h
  obtain ⟨o, ho, hx⟩ := h
  rw [List.mem_filter, decide_eq_true_eq] at hx
  rw [hx.2]
  exact ho

namespace Exchange

variable {I : S → Prop} {R : S → S → Prop} {step : S → T → S}

theorem run_keeps (h : Exchange I R step indep) (l : List T) {s : S} (hs : I s) :
    I (l.foldl step s) := by
  induction l generalizing s with
  | nil => exact hs
  | cons x l ih => exact ih (h.keeps s x hs)

theorem run (h : Exchange I R step indep) (l : List T) {s t : S} (hs : I s) (ht : I t) (hR : R s t) :
    R (l.foldl step s) (l.foldl step t) := by
  induction l generalizing s t with
  | nil => exact hR
  | cons x l ih => exact ih (h.keeps s x hs) (h.keeps t x ht) (h.respects s t x hs ht hR)

theorem run_front (h : Exchange I R step indep) (l : List T) (y : T) {s : S} (hs : I s)
    (hi : ∀ z ∈ l, indep z y) : R ((l ++ [y]).foldl step s) ((y :: l).foldl step s) := by
  induction l generalizing s with
  | nil => exact h.refl _
  | cons z l ih =>
    have hl := ih (h.keeps s z hs) fun z' hz' => hi z' (List.mem_cons_of_mem z hz')
    have hz := h.swap s z y hs (hi z List.mem_cons_self)
    refine h.trans _ _ _ hl ?_
    exact h.run l (h.keeps _ y (h.keeps s z hs)) (h.keeps _ z (h.keeps s y hs)) hz

/-- All turns of one owner move to the front. -/
theorem run_gather (h : Exchange I R step indep) (o : O) (l : List T) {s : S} (hs : I s)
    (hl : l.Pairwise fun z y => own y = o → own z ≠ o → indep z y) :
    R (l.foldl step s)
      ((l.filter (fun x => decide (own x = o)) ++ l.filter fun x => decide (own x ≠ o)).foldl step s) := by
  -- The induction takes the last turn off, since it is the one that has to pass the others.
  induction l using List.reverseRecOn with
  | nil => exact h.refl s
  | append_singleton l y ih =>
    rw [List.pairwise_append] at hl
    obtain ⟨hl, -, hy⟩ := hl
    have hkeeps := h.run_keeps l hs
    have hgather := ih hl
    rw [List.filter_append, List.filter_append, List.foldl_append]
    by_cases ho : own y = o
    · have hmine : [y].filter (fun x => decide (own x = o)) = [y] := by simp [ho]
      have hother : [y].filter (fun x => decide (own x ≠ o)) = [] := by simp [ho]
      rw [hmine, hother, List.append_nil, List.append_assoc, List.foldl_append]
      refine h.trans _ _ _ (h.run [y] hkeeps (h.run_keeps _ hs) hgather) ?_
      rw [List.foldl_append, ← List.foldl_append]
      refine h.run_front _ y (h.run_keeps _ hs) ?_
      intro z hz
      rw [List.mem_filter, decide_eq_true_eq] at hz
      exact hy z hz.1 y (List.mem_singleton_self y) ho hz.2
    · have hmine : [y].filter (fun x => decide (own x = o)) = [] := by simp [ho]
      have hother : [y].filter (fun x => decide (own x ≠ o)) = [y] := by simp [ho]
      rw [hmine, hother, List.append_nil, ← List.append_assoc, List.foldl_append]
      exact h.run [y] hkeeps (h.run_keeps _ hs) hgather

/-! ## Top theorem -/

/-- **An uninterrupted schedule amounts to a serial one.** -/
theorem serial (h : Exchange I R step indep) (l : List T) {s : S} (hs : I s)
    (hl : Uninterrupted own indep l) :
    R (l.foldl step s) ((serial own (owners own l) l).foldl step s) := by
  induction hn : l.length using Nat.strongRecOn generalizing l s with
  | ind n ih =>
    cases l with
    | nil => exact h.refl s
    | cons x l =>
      obtain ⟨hx, hl⟩ := hl
      -- The first turn's owner goes first, the others are ordered by the induction.
      have hgather := h.run_gather (own x) l (h.keeps s x hs) hx
      have hshort : (l.filter fun y => decide (own y ≠ own x)).length < n := by
        have := List.length_filter_le (fun y => decide (own y ≠ own x)) l
        rw [← hn, List.length_cons]
        omega
      have hfirst : I ((l.filter fun y => decide (own y = own x)).foldl step (step s x)) :=
        h.run_keeps _ (h.keeps s x hs)
      have hrest := ih _ hshort _ hfirst (hl.filter _) rfl
      rw [serial_cons, List.foldl_append, List.foldl_cons, List.foldl_cons]
      refine h.trans _ _ _ hgather ?_
      rw [List.foldl_append]
      exact hrest

end Exchange

end Interleave
