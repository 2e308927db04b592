import ZeroFrameworks.Core.Scheduler

/-!
# Every task is run once

A fiber is scheduled at most once for each suspension (`Once`).  Then every entry is in one place: in a list,
in the hand of a worker, or run; a fiber that is executing is never taken; and the active count is that of the
workers between dequeue and completion.

    Sound s → Once s e → s.step e = some s' → Sound s'   (Sound.step)

A worker leaves when it finds the scheduler stopping, and it looks at its own list only.  `Calm` says that it
overlooks nothing: the other lists are empty, no fiber is about to be put into one, and nothing is scheduled
from then on.

    Along Once → Along Exact ∧ (Along Calm → Along Correct)   (tasks_exact)
-/

namespace Core

variable {W : Type} [Fintype W] [DecidableEq W]

/-! ## Specification -/

namespace Tasks

def workers (s : Tasks W) : Nat := (Finset.univ.filter fun w => (s.point w).busy = true).card

/-- The fiber waits to be resumed, or is on its way to, and no entry is there for it yet. -/
def Suspended (s : Tasks W) : Task → Prop
  | .cb => True
  | .fiber f => f < s.made ∧ s.tickets f = 0 ∧
    (s.state f = .init ∧ (∀ w, s.cbFiber w ≠ some f) ∨ s.state f = .hold ∨ s.state f = .exec)

instance (s : Tasks W) : (task : Task) → Decidable (s.Suspended task)
  | .cb => inferInstanceAs (Decidable True)
  | .fiber f => inferInstanceAs (Decidable (f < s.made ∧ s.tickets f = 0 ∧
    (s.state f = .init ∧ (∀ w, s.cbFiber w ≠ some f) ∨ s.state f = .hold ∨ s.state f = .exec)))

/-- `once`: every entry waits in one place or has been run once, not both. -/
structure Exact (s : Tasks W) : Prop where
  once : s.waiting.map (·.ticket) + ↑(s.resumed.map (·.1.ticket)) = Multiset.range s.count
  pinned : ∀ e ∈ s.resumed, e.1.thread = none ∨ e.1.thread = some e.2
  alone : ∀ w w' f b b', (s.point w).stack = some (f, b) → (s.point w').stack = some (f, b') → w = w'
  rested : ∀ w ft f, (s.point w).hand = some ft → ft.task = .fiber f →
    s.state f ≠ .exec ∧ ∀ w' b, (s.point w').stack ≠ some (f, b)
  active : s.active = s.workers

end Tasks

namespace Scheduler

/-- A fiber is scheduled at most once for each suspension. -/
def Once (s : Scheduler W) : Event W → Prop
  | .schedule _ task _ => s.Suspended task
  | .scheduleAll _ tasks => (∀ task ∈ tasks, s.Suspended task) ∧ (tasks.filter (· ≠ .cb)).Nodup
  | .leave w outcome => outcome = .yieldToHold ∨ ∀ on ∈ (s.point w).stack, s.tickets on.1 = 0
  | _ => True

instance (s : Scheduler W) : (e : Event W) → Decidable (s.Once e)
  | .schedule _ task _ => inferInstanceAs (Decidable (s.Suspended task))
  | .scheduleAll _ tasks => inferInstanceAs
    (Decidable ((∀ task ∈ tasks, s.Suspended task) ∧ (tasks.filter (· ≠ .cb)).Nodup))
  | .leave w outcome => inferInstanceAs
    (Decidable (outcome = .yieldToHold ∨ ∀ on ∈ (s.point w).stack, s.tickets on.1 = 0))
  | .newFiber | .tickle _ | .stop | .stopping .. | .epollWait .. | .step _ => inferInstanceAs (Decidable True)

/-- No worker exits while a task is queued or running. -/
def CleanExit (s : Scheduler W) (e : Event W) : Prop :=
  ∀ w, e = .step w → s.point w = .empty → s.idleTerm w = true → s.waiting = 0 ∧ ∀ w', (s.point w').busy = false

def Correct (s : Scheduler W) (e : Event W) : Prop := s.Exact ∧ s.CleanExit e

/-- Who finds the scheduler stopping overlooks no task, and nothing is scheduled afterwards. -/
def Calm (s : Scheduler W) : Event W → Prop
  | .schedule .. | .scheduleAll .. => ∀ w, s.idleTerm w = false
  | .stopping w quiet => s.isStopping w quiet = true →
    ∀ w', s.localFibers w' = [] ∧ ∀ on ∈ (s.point w').stack, s.state on.1 ≠ .ready
  | _ => True

instance (s : Scheduler W) : (e : Event W) → Decidable (s.Calm e)
  | .schedule .. | .scheduleAll .. => inferInstanceAs (Decidable (∀ w, s.idleTerm w = false))
  | .stopping w quiet => inferInstanceAs (Decidable (s.isStopping w quiet = true →
    ∀ w', s.localFibers w' = [] ∧ ∀ on ∈ (s.point w').stack, s.state on.1 ≠ .ready))
  | .newFiber | .tickle _ | .stop | .leave .. | .epollWait .. | .step _ => inferInstanceAs (Decidable True)

end Scheduler

/-! ## Invariant -/

/-- Which fibers have an entry, and who is on them. -/
structure Owned (s : Tasks W) : Prop where
  single : ∀ f, s.tickets f ≤ 1
  live : ∀ f, 0 < s.tickets f → s.state f ≠ .term ∧ s.state f ≠ .except
  rested : ∀ w ft f, (s.point w).hand = some ft → ft.task = .fiber f → s.state f ≠ .exec
  alone : ∀ w w' f b b', (s.point w).stack = some (f, b) → (s.point w').stack = some (f, b') → w = w'
  started : ∀ w f b, (s.point w).stack = some (f, b) → s.state f ≠ .init ∧ s.state f ≠ .hold
  leaving : ∀ w f b, (s.point w).stack = some (f, b) → s.state f ≠ .exec → s.tickets f = 0
  running : ∀ w f b, s.point w = .running f b → s.state f = .exec
  pooled : ∀ w f, (s.point w).stack = some (f, true) → s.cbFiber w = some f
  pool : ∀ w c, s.cbFiber w = some c → (s.point w).stack = some (c, true) ∨ s.state c = .init ∧ s.tickets c = 0
  poolOne : ∀ w w' c, s.cbFiber w = some c → s.cbFiber w' = some c → w = w'
  fresh : ∀ f, s.made ≤ f → s.state f = .init ∧ s.tickets f = 0 ∧ ∀ w, s.cbFiber w ≠ some f

structure Counted (s : Tasks W) : Prop where
  once : s.waiting.map (·.ticket) + ↑(s.resumed.map (·.1.ticket)) = Multiset.range s.count
  active : s.active = s.workers

structure Pinned (s : Tasks W) : Prop where
  inList : ∀ w, ∀ ft ∈ s.localFibers w, ft.thread = some w
  inHand : ∀ w ft, (s.point w).hand = some ft → Tasks.foreign w ft = false
  inLog : ∀ e ∈ s.resumed, Tasks.foreign e.2 e.1 = false

structure Sound (s : Tasks W) : Prop where
  owned : Owned s
  counted : Counted s
  pinned : Pinned s

/-! ## Lemmas -/

namespace Tasks

variable {s s' : Tasks W} {w : W} {p : Point W}

omit [DecidableEq W] in
theorem tickets_congr (h : s'.waiting = s.waiting) (f : Nat) : s'.tickets f = s.tickets f := by
  unfold tickets
  rw [h]

omit [DecidableEq W] in
theorem tickets_add {ft : FiberAndThread W} (h : s'.waiting = s.waiting + {ft}) (f : Nat) :
    s'.tickets f = s.tickets f + if ft.task = .fiber f then 1 else 0 := by
  unfold tickets
  rw [h, Multiset.countP_add, ← Multiset.cons_zero ft, Multiset.countP_cons, Multiset.countP_zero, zero_add]

theorem waiting_same (h : p.hand = (s.point w).hand) : (s.goto w p).waiting = s.waiting := by
  have hw := s.waiting_goto w p
  rw [h] at hw
  exact add_right_cancel hw

theorem waiting_drop {ft : FiberAndThread W} (h : (s.point w).hand = some ft) (hp : p.hand = none) :
    s.waiting = (s.goto w p).waiting + {ft} := by
  have hw := s.waiting_goto w p
  rw [h, hp] at hw
  exact ((hw.trans (add_zero _))).symm

theorem coe_concat {A : Type} (l : List A) (x : A) : (↑(l ++ [x]) : Multiset A) = ↑l + {x} := by
  rw [← Multiset.coe_add, Multiset.coe_singleton]

omit [DecidableEq W] in
theorem waiting_scheduleNoLock (s : Tasks W) (task : Task) (thread : Option W) :
    (s.scheduleNoLock task thread).waiting = s.waiting + {⟨s.count, task, thread⟩} := by
  unfold waiting scheduleNoLock
  rw [coe_concat, add_right_comm]
  rfl

theorem waiting_scheduleLocal (s : Tasks W) (w : W) (task : Task) :
    (s.scheduleLocal w task).waiting = s.waiting + {⟨s.count, task, some w⟩} := by
  have h := waiting_change s (s.scheduleLocal w task) w _ (s.point w) rfl (Function.update_eq_self w s.point).symm
  have hs : ∀ (m x q l h : Multiset (FiberAndThread W)), m + (q + (l + x + h)) = m + x + (q + (l + h)) := by
    intro m x q l h
    abel
  rw [coe_concat, hs] at h
  exact add_right_cancel h

theorem workers_goto (s : Tasks W) (w : W) (p : Point W) :
    (s.goto w p).workers + (if (s.point w).busy then 1 else 0) = s.workers + if p.busy then 1 else 0 := by
  have hsum := Shares.sum_update_add (fun w => if (s.point w).busy then 1 else 0) w (if p.busy then 1 else 0)
  unfold workers
  rw [Finset.card_filter, Finset.card_filter, ← hsum]
  congr 1
  apply Finset.sum_congr rfl
  intro w' _
  show (if (Function.update s.point w p w').busy = true then 1 else 0) = _
  by_cases hw : w' = w
  · subst hw
    rw [Function.update_self, Function.update_self]
  · rw [Function.update_of_ne hw, Function.update_of_ne hw]

omit [Fintype W] [DecidableEq W] in
theorem setState_self (s : Tasks W) (f : Nat) : s.setState f (s.state f) = s := by
  unfold setState
  rw [Function.update_eq_self]

omit [Fintype W] in
theorem setCbFiber_self (s : Tasks W) (w : W) : s.setCbFiber w (s.cbFiber w) = s := by
  unfold setCbFiber
  rw [Function.update_eq_self]

end Tasks

/-! ### Fibers and who is on them -/

variable {c : Option Nat}

namespace Owned

open Tasks

variable {s s' : Tasks W} {w : W} {p : Point W} {f : Nat} {b : Bool} {st : FiberState}

theorem moved (h : Owned s) (hwaiting : s'.waiting = s.waiting) (hstate : s'.state = s.state)
    (hmade : s'.made = s.made) (hcb : s'.cbFiber = s.cbFiber) (hpoint : s'.point = Function.update s.point w p)
    (hhand : p.hand = (s.point w).hand) (hstack : p.stack = (s.point w).stack) (hrun : ∀ f b, p ≠ .running f b) :
    Owned s' := by
  have htick := tickets_congr hwaiting
  have hh : ∀ w', (Function.update s.point w p w').hand = (s.point w').hand := by grind
  have hs : ∀ w', (Function.update s.point w p w').stack = (s.point w').stack := by grind
  have hr : ∀ w' f b, Function.update s.point w p w' = .running f b → s.point w' = .running f b := by grind
  constructor <;> simp only [htick, hstate, hmade, hcb, hpoint, hh, hs]
  · exact h.single
  · exact h.live
  · exact h.rested
  · exact h.alone
  · exact h.started
  · exact h.leaving
  · exact fun w' f b hp => h.running w' f b (hr w' f b hp)
  · exact h.pooled
  · exact h.pool
  · exact h.poolOne
  · exact h.fresh

/-- An entry goes from a list into the hand of a worker. -/
theorem take (h : Owned s) {ft : FiberAndThread W} {tickleMe : Bool} (hwaiting : s'.waiting = s.waiting)
    (hstate : s'.state = s.state) (hmade : s'.made = s.made) (hcb : s'.cbFiber = s.cbFiber)
    (hpoint : s'.point = Function.update s.point w (.fetched tickleMe (some ft))) (hstack : (s.point w).stack = none)
    (hft : s.executing ft.task = false) : Owned s' := by
  have htick := tickets_congr hwaiting
  have hs : ∀ w', (Function.update s.point w (.fetched tickleMe (some ft)) w').stack = (s.point w').stack := by
    grind [Point.stack]
  have hr : ∀ w' f b, Function.update s.point w (.fetched tickleMe (some ft)) w' = .running f b →
      s.point w' = .running f b := by grind
  constructor <;> simp only [htick, hstate, hmade, hcb, hpoint, hs]
  · exact h.single
  · exact h.live
  · intro w' ft' f hhand hf
    by_cases hw : w' = w
    · subst hw
      rw [Function.update_self] at hhand
      cases hhand
      rw [hf] at hft
      simpa [executing] using hft
    · rw [Function.update_of_ne hw] at hhand
      exact h.rested w' ft' f hhand hf
  · exact h.alone
  · exact h.started
  · exact h.leaving
  · exact fun w' f b hp => h.running w' f b (hr w' f b hp)
  · exact h.pooled
  · exact h.pool
  · exact h.poolOne
  · exact h.fresh

omit [DecidableEq W] in
/-- One entry more, for a fiber that has none. -/
theorem push (h : Owned s) {ft : FiberAndThread W} (hwaiting : s'.waiting = s.waiting + {ft})
    (hstate : s'.state = s.state) (hmade : s'.made = s.made) (hcb : s'.cbFiber = s.cbFiber) (hpoint : s'.point = s.point)
    (hft : ∀ f, ft.task = .fiber f → f < s.made ∧ s.tickets f = 0 ∧ s.state f ≠ .term ∧ s.state f ≠ .except ∧
      (∀ w b, (s.point w).stack = some (f, b) → s.state f = .exec) ∧
      ∀ w, s.cbFiber w = some f → (s.point w).stack = some (f, true)) : Owned s' := by
  have htick := tickets_add hwaiting
  have hother : ∀ f, ft.task ≠ .fiber f → s'.tickets f = s.tickets f := by
    intro f hf
    rw [htick, if_neg hf, add_zero]
  constructor <;> try simp only [hstate, hmade, hcb, hpoint]
  · intro f
    have hsingle := h.single f
    by_cases hfib : ft.task = .fiber f
    · rw [htick, if_pos hfib, (hft f hfib).2.1]
    · rwa [hother f hfib]
  · intro f hf
    by_cases hfib : ft.task = .fiber f
    · exact ⟨(hft f hfib).2.2.1, (hft f hfib).2.2.2.1⟩
    · rw [hother f hfib] at hf
      exact h.live f hf
  · exact h.rested
  · exact h.alone
  · exact h.started
  · intro w f b hs hexec
    rw [hother f fun hfib => hexec ((hft f hfib).2.2.2.2.1 w b hs)]
    exact h.leaving w f b hs hexec
  · exact h.running
  · exact h.pooled
  · intro w c hc
    by_cases hfib : ft.task = .fiber c
    · exact .inl ((hft c hfib).2.2.2.2.2 w hc)
    · rw [hother c hfib]
      exact h.pool w c hc
  · exact h.poolOne
  · intro f hf
    rw [hother f fun hfib => absurd (hft f hfib).1 (Nat.not_lt.mpr hf)]
    exact h.fresh f hf

/-- The entry in the hand is run, on a fiber that no one else has to do with. -/
theorem swapIn (h : Owned s) {ft : FiberAndThread W} (hwaiting : s.waiting = s'.waiting + {ft})
    (hstate : s'.state = Function.update s.state f .exec) (hmade : s'.made = s.made) (hcb : s'.cbFiber = s.cbFiber)
    (hpoint : s'.point = Function.update s.point w (.running f b)) (hfree : (s.point w).stack = none)
    (htask : ∀ g, ft.task = .fiber g → g = f) (hnone : s'.tickets f = 0) (hfresh : f < s.made)
    (halone : ∀ w' b', (s.point w').stack ≠ some (f, b'))
    (hpool : ∀ w', s.cbFiber w' = some f → w' = w ∧ b = true) (hown : b = true → s.cbFiber w = some f) : Owned s' := by
  have htick : ∀ g, g ≠ f → s'.tickets g = s.tickets g := by
    intro g hg
    rw [tickets_add hwaiting, if_neg fun hfib => hg (htask g hfib), add_zero]
  have hhand : ∀ w' ft' g, (Function.update s.point w (.running f b) w').hand = some ft' → ft'.task = .fiber g →
      g ≠ f ∧ (s.point w').hand = some ft' := by
    intro w' ft' g hh hg
    have hmem : ft' ∈ s'.waiting := mem_waiting.mpr (.inr ⟨w', .inr (by rw [hpoint]; exact hh)⟩)
    have hpos := tickets_pos hmem hg
    refine ⟨fun heq => ?_, ?_⟩
    · rw [heq, hnone] at hpos
      exact absurd hpos (Nat.lt_irrefl 0)
    · by_cases hw : w' = w
      · subst hw
        rw [Function.update_self] at hh
        cases hh
      · rwa [Function.update_of_ne hw] at hh
  have hs : ∀ w' g b', (Function.update s.point w (.running f b) w').stack = some (g, b') →
      w' = w ∧ g = f ∧ b' = b ∨ g ≠ f ∧ w' ≠ w ∧ (s.point w').stack = some (g, b') := by
    grind [Point.stack]
  have hrested : ∀ w' g b', Function.update s.point w (.running f b) w' = .running g b' →
      g = f ∨ s.point w' = .running g b' := by grind
  obtain ⟨h1, h2, h3, h4, h5, h6, h7, h8, h9, h10, h11⟩ := h
  constructor <;> try simp only [hstate, hmade, hcb, hpoint, Function.update_apply s.state]
  · grind
  · grind
  · grind
  · grind
  · grind
  · grind
  · grind
  · grind
  · intro w' c hc
    by_cases hcf : c = f
    · subst hcf
      obtain ⟨rfl, rfl⟩ := hpool w' hc
      rw [Function.update_self]
      exact .inl rfl
    · rw [if_neg hcf, htick c hcf]
      rcases h9 w' c hc with hstack | hidle
      · have hw : w' ≠ w := by
          rintro rfl
          rw [hfree] at hstack
          cases hstack
        rw [Function.update_of_ne hw]
        exact .inl hstack
      · exact .inr hidle
  · exact h10
  · grind

theorem leave (h : Owned s) (hp : s.point w = .running f b) (hwaiting : s'.waiting = s.waiting)
    (hstate : s'.state = Function.update s.state f st) (hmade : s'.made = s.made) (hcb : s'.cbFiber = s.cbFiber)
    (hpoint : s'.point = Function.update s.point w (.back f b))
    (hst : st = .exec ∨ (st ≠ .init ∧ st ≠ .hold) ∧ s.tickets f = 0) : Owned s' := by
  have htick := tickets_congr hwaiting
  have hexec := h.running w f b hp
  have hh : ∀ w', (Function.update s.point w (.back f b) w').hand = (s.point w').hand := by grind [Point.hand]
  have hs : ∀ w', (Function.update s.point w (.back f b) w').stack = (s.point w').stack := by grind [Point.stack]
  have hr : ∀ w' g b', Function.update s.point w (.back f b) w' = .running g b' → w' ≠ w ∧ s.point w' = .running g b' := by
    grind
  have hon : (s.point w).stack = some (f, b) := by rw [hp]; rfl
  obtain ⟨h1, h2, h3, h4, h5, h6, h7, h8, h9, h10, h11⟩ := h
  constructor <;> simp only [htick, hstate, hmade, hcb, hpoint, hh, hs, Function.update_apply s.state]
  · exact h1
  · grind
  · grind
  · exact h4
  · grind
  · grind
  · grind [Point.stack]
  · exact h8
  · grind
  · exact h10
  · grind

/-- The worker lets go of a fiber that has swapped out. -/
theorem settle (h : Owned s) (hp : s.point w = .settle f b) (hwaiting : s'.waiting = s.waiting)
    (hstate : s'.state = Function.update s.state f st) (hmade : s'.made = s.made)
    (hcb : s'.cbFiber = Function.update s.cbFiber w c) (hpoint : s'.point = Function.update s.point w .top)
    (hst : st ≠ .exec ∧ (0 < s.tickets f → st ≠ .term ∧ st ≠ .except))
    (hc : b = false ∧ c = s.cbFiber w ∨ b = true ∧ c = none ∨ c = s.cbFiber w ∧ st = .init ∧ s.tickets f = 0) :
    Owned s' := by
  have htick := tickets_congr hwaiting
  have hh : ∀ w', (Function.update s.point w .top w').hand = (s.point w').hand := by grind [Point.hand]
  have hon : (s.point w).stack = some (f, b) := by rw [hp]; rfl
  have hs : ∀ w' g b', (Function.update s.point w .top w').stack = some (g, b') ↔
      g ≠ f ∧ w' ≠ w ∧ (s.point w').stack = some (g, b') := by
    have := h.alone
    grind [Point.stack]
  have hr : ∀ w' g b', Function.update s.point w .top w' = .running g b' → s.point w' = .running g b' := by grind
  obtain ⟨h1, h2, h3, h4, h5, h6, h7, h8, h9, h10, h11⟩ := h
  constructor <;> simp only [htick, hstate, hmade, hcb, hpoint, hh, hs, Function.update_apply s.state,
    Function.update_apply s.cbFiber]
  · exact h1
  · grind
  · grind
  · grind
  · grind
  · grind
  · grind [Point.stack]
  · grind
  · grind
  · grind
  · grind

end Owned

/-! ### What the workers do -/

namespace Sound

open Tasks

variable {s : Tasks W} {w : W} {p : Point W} {f : Nat} {b : Bool} {ft : FiberAndThread W} {task : Task}

/-- The worker goes on with the same entry and the same fiber. -/
theorem moved (h : Sound s) (hhand : p.hand = (s.point w).hand) (hstack : p.stack = (s.point w).stack)
    (hrun : ∀ f b, p ≠ .running f b) {n : Int}
    (hbusy : n + (if (s.point w).busy then 1 else 0) = s.active + if p.busy then 1 else 0) :
    Sound ({ s with active := n }.goto w p) := by
  have hwaiting : ({ s with active := n }.goto w p).waiting = s.waiting := waiting_same (s := s) hhand
  have hworkers : ({ s with active := n }.goto w p).workers + (if (s.point w).busy then 1 else 0) =
      s.workers + if p.busy then 1 else 0 := workers_goto s w p
  constructor
  · exact h.owned.moved hwaiting rfl rfl rfl rfl hhand hstack hrun
  · constructor
    · rw [hwaiting]
      exact h.counted.once
    · have hactive := h.counted.active
      show n = _
      grind
  · constructor
    · exact h.pinned.inList
    · intro w' ft hft
      by_cases hw : w' = w
      · subst hw
        have hft : (Function.update s.point w' p w').hand = some ft := hft
        rw [Function.update_self, hhand] at hft
        exact h.pinned.inHand w' ft hft
      · have hft : (Function.update s.point w p w').hand = some ft := hft
        rw [Function.update_of_ne hw] at hft
        exact h.pinned.inHand w' ft hft
    · exact h.pinned.inLog

theorem goto (h : Sound s) (hhand : p.hand = (s.point w).hand) (hstack : p.stack = (s.point w).stack)
    (hrun : ∀ f b, p ≠ .running f b) (hbusy : p.busy = (s.point w).busy) : Sound (s.goto w p) :=
  h.moved hhand hstack hrun (by rw [hbusy])

/-- An entry that is not executing and not another worker's goes from a list into the hand. -/
theorem take (h : Sound s) {tickleMe : Bool} {q l : List (FiberAndThread W)} (hhand : (s.point w).hand = none)
    (hstack : (s.point w).stack = none) (hbusy : (s.point w).busy = false) (hexec : s.executing ft.task = false)
    (hforeign : foreign w ft = false) (hsub : ∀ x ∈ l, x ∈ s.localFibers w)
    (hlists : (↑q + ↑l + {ft} : Multiset (FiberAndThread W)) = ↑s.fibers + ↑(s.localFibers w)) :
    Sound (s.take w q l tickleMe ft) := by
  have hwaiting : (s.take w q l tickleMe ft).waiting = s.waiting := by
    have hw := waiting_change s (s.take w q l tickleMe ft) w l _ rfl rfl
    have hheld : ↑s.fibers + s.held w = ↑s.fibers + ↑(s.localFibers w) := by
      unfold held
      rw [hhand]
      exact congrArg _ (add_zero _)
    rw [hheld] at hw
    refine add_right_cancel (hw.trans (congrArg _ ?_))
    rw [← hlists, add_assoc]
    rfl
  have hworkers : (s.take w q l tickleMe ft).workers + 0 = s.workers + 1 := by
    have hw := workers_goto s w (.fetched tickleMe (some ft))
    rw [hbusy] at hw
    exact hw
  constructor
  · exact h.owned.take hwaiting rfl rfl rfl rfl hstack hexec
  · constructor
    · rw [hwaiting]
      exact h.counted.once
    · have hactive := h.counted.active
      show s.active + 1 = _
      omega
  · constructor
    · intro w' x hx
      by_cases hw : w' = w
      · subst hw
        have hx : x ∈ Function.update s.localFibers w' l w' := hx
        rw [Function.update_self] at hx
        exact h.pinned.inList w' x (hsub x hx)
      · have hx : x ∈ Function.update s.localFibers w l w' := hx
        rw [Function.update_of_ne hw] at hx
        exact h.pinned.inList w' x hx
    · intro w' x hx
      by_cases hw : w' = w
      · subst hw
        have hx : (Function.update s.point w' (.fetched tickleMe (some ft)) w').hand = some x := hx
        rw [Function.update_self] at hx
        cases hx
        exact hforeign
      · have hx : (Function.update s.point w (.fetched tickleMe (some ft)) w').hand = some x := hx
        rw [Function.update_of_ne hw] at hx
        exact h.pinned.inHand w' x hx
    · exact h.pinned.inLog

theorem fetchLocalTask (h : Sound s) (hp : s.point w = .top) : Sound (s.fetchLocalTask w) := by
  unfold Tasks.fetchLocalTask
  split
  next => exact h.goto (by rw [hp]; rfl) (by rw [hp]; rfl) (by simp) (by rw [hp]; rfl)
  next ft before after htake =>
    obtain ⟨hlist, hskip, -⟩ := takeFirst_some htake
    have hmem : ft ∈ s.localFibers w := by simp [hlist]
    refine h.take (by rw [hp]; rfl) (by rw [hp]; rfl) (by rw [hp]; rfl) hskip ?_ ?_ ?_
    · unfold foreign
      rw [h.pinned.inList w ft hmem]
      simp
    · intro x hx
      rw [hlist]
      simp only [List.mem_append, List.mem_cons] at hx ⊢
      tauto
    · rw [hlist, ← Multiset.coe_add, ← Multiset.coe_add, ← Multiset.cons_coe, ← Multiset.singleton_add]
      abel

theorem fetchTask (h : Sound s) (hp : s.point w = .look) : Sound (s.fetchTask w) := by
  unfold Tasks.fetchTask
  split
  next => exact h.goto (by rw [hp]; rfl) (by rw [hp]; rfl) (by simp) (by rw [hp]; rfl)
  next ft before after htake =>
    obtain ⟨hlist, hskip, -⟩ := takeFirst_some htake
    obtain ⟨hforeign, hexec⟩ := Bool.or_eq_false_iff.mp hskip
    refine h.take (by rw [hp]; rfl) (by rw [hp]; rfl) (by rw [hp]; rfl) hexec hforeign (fun _ hx => hx) ?_
    rw [hlist, ← Multiset.coe_add, ← Multiset.coe_add, ← Multiset.cons_coe, ← Multiset.singleton_add]
    abel

/-- The entry in the hand of the worker is run on `f`. -/
theorem swapIn (h : Sound s) (hp : s.point w = .taken ft) (htask : ∀ g, ft.task = .fiber g → g = f)
    (hnone : s.tickets f = if ft.task = .fiber f then 1 else 0) (hfresh : f < s.made)
    (halone : ∀ w' b', (s.point w').stack ≠ some (f, b')) (hpool : ∀ w', s.cbFiber w' = some f → w' = w ∧ b = true)
    (hown : b = true → s.cbFiber w = some f) : Sound (s.swapIn w ft f b) := by
  have hhand : (s.point w).hand = some ft := by rw [hp]; rfl
  have hwaiting : s.waiting = (s.swapIn w ft f b).waiting + {ft} := waiting_drop (s := s) hhand rfl
  have hworkers : (s.swapIn w ft f b).workers + 1 = s.workers + 1 := by
    have hw := workers_goto s w (.running f b)
    rw [hp] at hw
    exact hw
  have htick : (s.swapIn w ft f b).tickets f = 0 := by
    have := tickets_add hwaiting f
    omega
  constructor
  · exact h.owned.swapIn hwaiting rfl rfl rfl rfl (by rw [hp]; rfl) htask htick hfresh halone hpool hown
  · constructor
    · have honce := h.counted.once
      rw [hwaiting, Multiset.map_add, Multiset.map_singleton] at honce
      show (s.swapIn w ft f b).waiting.map (·.ticket) + ↑(ft.ticket :: s.resumed.map (·.1.ticket)) = Multiset.range s.count
      rw [← honce, ← Multiset.cons_coe, ← Multiset.singleton_add]
      abel
    · have hactive := h.counted.active
      show s.active = _
      omega
  · constructor
    · exact h.pinned.inList
    · intro w' x hx
      have hx : (Function.update s.point w (.running f b) w').hand = some x := hx
      by_cases hw : w' = w
      · subst hw
        rw [Function.update_self] at hx
        cases hx
      · rw [Function.update_of_ne hw] at hx
        exact h.pinned.inHand w' x hx
    · intro e he
      rcases List.mem_cons.mp he with rfl | he
      · exact h.pinned.inHand w ft hhand
      · exact h.pinned.inLog e he

theorem idle_of_hand (h : Sound s) (hhand : (s.point w).hand = some ft) (htask : ft.task = .fiber f) :
    s.tickets f = 1 ∧ f < s.made ∧ (∀ w' b', (s.point w').stack ≠ some (f, b')) ∧ ∀ w', s.cbFiber w' ≠ some f := by
  have hpos : 0 < s.tickets f := tickets_pos (mem_waiting.mpr (.inr ⟨w, .inr hhand⟩)) htask
  have hrested := h.owned.rested w ft f hhand htask
  have hstack : ∀ w' b', (s.point w').stack ≠ some (f, b') := by
    intro w' b' hs
    have hzero := h.owned.leaving w' f b' hs hrested
    omega
  refine ⟨?_, ?_, hstack, ?_⟩
  · have hsingle := h.owned.single f
    omega
  · by_contra hge
    have hzero := (h.owned.fresh f (Nat.not_lt.mp hge)).2.1
    omega
  · intro w' hc
    rcases h.owned.pool w' f hc with hs | ⟨-, hzero⟩
    · exact hstack w' true hs
    · omega

theorem newCbFiber (h : Sound s) (hnone : s.cbFiber w = none) :
    Sound ({ s with made := s.made + 1 }.setCbFiber w (some s.made)) := by
  obtain ⟨hinit, hzero, hcb⟩ := h.owned.fresh s.made (Nat.le_refl _)
  have hpool : ∀ w' c, Function.update s.cbFiber w (some s.made) w' = some c →
      w' = w ∧ c = s.made ∨ w' ≠ w ∧ c ≠ s.made ∧ s.cbFiber w' = some c := by grind
  refine ⟨?_, ⟨h.counted.once, h.counted.active⟩, ⟨h.pinned.inList, h.pinned.inHand, h.pinned.inLog⟩⟩
  obtain ⟨h1, h2, h3, h4, h5, h6, h7, h8, h9, h10, h11⟩ := h.owned
  refine ⟨h1, h2, h3, h4, h5, h6, h7, ?_, ?_, ?_, ?_⟩
  · intro w' f hs
    show Function.update s.cbFiber w (some s.made) w' = some f
    have := h8 w' f hs
    grind
  · intro w' c hc
    rcases hpool w' c hc with ⟨-, rfl⟩ | ⟨-, -, hc⟩
    · exact .inr ⟨hinit, hzero⟩
    · exact h9 w' c hc
  · intro w' w'' c hc hc'
    have := hpool w' c hc
    have := hpool w'' c hc'
    grind
  · intro f hf
    have hlt : s.made < f := hf
    obtain ⟨hi, hz, hc⟩ := h11 f (Nat.le_of_lt hlt)
    refine ⟨hi, hz, ?_⟩
    intro w' hc'
    have := hpool w' f hc'
    grind

theorem runTask (h : Sound s) (hp : s.point w = .taken ft) : Sound (s.runTask w ft) := by
  have hhand : (s.point w).hand = some ft := by rw [hp]; rfl
  have hfree : (s.point w).stack = none := by rw [hp]; rfl
  unfold Tasks.runTask
  split
  next f htask =>
    obtain ⟨hone, hfresh, halone, hpool⟩ := h.idle_of_hand hhand htask
    rw [if_pos (h.owned.live f (by omega))]
    refine h.swapIn hp ?_ (by rw [if_pos htask, hone]) hfresh halone (fun w' hc => absurd hc (hpool w')) (by simp)
    intro g hg
    rw [htask] at hg
    cases hg
    rfl
  next htask =>
    have hnot : ∀ g, ft.task ≠ .fiber g := by simp [htask]
    split
    next c hc =>
      -- The pooled fiber is idle, so the reset changes nothing.
      have hidle : s.state c = .init ∧ s.tickets c = 0 := by
        rcases h.owned.pool w c hc with hs | hidle
        · rw [hfree] at hs
          cases hs
        · exact hidle
      rw [← hidle.1, setState_self]
      refine h.swapIn hp (fun g hg => absurd hg (hnot g)) (by rw [if_neg (hnot c), hidle.2]) ?_ ?_ ?_ (fun _ => hc)
      · by_contra hge
        exact (h.owned.fresh c (Nat.not_lt.mp hge)).2.2 w hc
      · exact fun w' b' hs => (h.owned.started w' c b' hs).1 hidle.1
      · exact fun w' hc' => ⟨h.owned.poolOne w' w c hc' hc, rfl⟩
    next hc =>
      obtain ⟨hinit, hzero, hcb⟩ := h.owned.fresh s.made (Nat.le_refl _)
      refine (h.newCbFiber hc).swapIn hp (fun g hg => absurd hg (hnot g)) ?_ (Nat.lt_succ_self _) ?_ ?_ ?_
      · rw [if_neg (hnot s.made)]
        exact hzero
      · exact fun w' b' hs => (h.owned.started w' s.made b' hs).1 hinit
      · intro w' hc'
        refine ⟨?_, rfl⟩
        by_contra hw
        have hc' : Function.update s.cbFiber w (some s.made) w' = some s.made := hc'
        rw [Function.update_of_ne hw] at hc'
        exact hcb w' hc'
      · exact fun _ => Function.update_self ..

/-- A change of the worker's point and its fiber alone, with nothing in its hand before and after. -/
theorem frame (h : Sound s) {s' : Tasks W} (howned : Owned s') (hlists : s'.fibers = s.fibers)
    (hlocal : s'.localFibers = s.localFibers) (hpoint : s'.point = Function.update s.point w p)
    (hhand : (s.point w).hand = none) (hhand' : p.hand = none) (hbusy : p.busy = (s.point w).busy)
    (hactive : s'.active = s.active) (hlog : s'.resumed = s.resumed) (hcount : s'.count = s.count) : Sound s' := by
  have hpt : s'.point = (s.goto w p).point := hpoint
  have hwaiting : s'.waiting = s.waiting := by
    rw [← waiting_same (s := s) (p := p) (hhand'.trans hhand.symm)]
    unfold waiting held
    rw [hlists, hlocal, hpt]
    rfl
  have hworkers : s'.workers = s.workers := by
    have hw := workers_goto s w p
    rw [hbusy] at hw
    have hsame : s'.workers = (s.goto w p).workers := by
      unfold workers
      rw [hpt]
    omega
  refine ⟨howned, ⟨?_, ?_⟩, ⟨?_, ?_, ?_⟩⟩
  · rw [hwaiting, hlog, hcount]
    exact h.counted.once
  · rw [hactive, hworkers]
    exact h.counted.active
  · rw [hlocal]
    exact h.pinned.inList
  · intro w' x hx
    rw [hpoint] at hx
    by_cases hw : w' = w
    · subst hw
      rw [Function.update_self, hhand'] at hx
      cases hx
    · rw [Function.update_of_ne hw] at hx
      exact h.pinned.inHand w' x hx
  · rw [hlog]
    exact h.pinned.inLog

theorem leave (h : Sound s) (hp : s.point w = .running f b) {outcome : Outcome}
    (hout : outcome = .yieldToHold ∨ s.tickets f = 0) : Sound ((s.setState f outcome.state).goto w (.back f b)) := by
  have hhand : (s.point w).hand = none := by rw [hp]; rfl
  have hwaiting : ((s.setState f outcome.state).goto w (.back f b)).waiting = s.waiting :=
    waiting_same (s := s) (hhand.symm)
  refine h.frame (w := w) (p := .back f b) ?_ rfl rfl rfl hhand rfl (by rw [hp]; rfl) rfl rfl rfl
  refine h.owned.leave hp hwaiting rfl rfl rfl rfl ?_
  rcases hout with rfl | hzero
  · exact .inl rfl
  · cases outcome with
    | yieldToHold => exact .inl rfl
    | yieldToReady => exact .inr ⟨by decide, hzero⟩
    | term => exact .inr ⟨by decide, hzero⟩
    | except => exact .inr ⟨by decide, hzero⟩

theorem push (h : Sound s) {s' : Tasks W} (howned : Owned s') (hwaiting : s'.waiting = s.waiting + {ft})
    (hticket : ft.ticket = s.count) (hcount : s'.count = s.count + 1) (hpoint : s'.point = s.point)
    (hlocal : ∀ w, ∀ x ∈ s'.localFibers w, x.thread = some w) (hactive : s'.active = s.active)
    (hlog : s'.resumed = s.resumed) : Sound s' := by
  refine ⟨howned, ⟨?_, ?_⟩, ⟨hlocal, ?_, ?_⟩⟩
  · have honce := h.counted.once
    rw [hwaiting, hlog, hcount, Multiset.range_succ, ← honce, Multiset.map_add, Multiset.map_singleton, hticket,
      ← Multiset.singleton_add]
    abel
  · rw [hactive, h.counted.active]
    unfold workers
    rw [hpoint]
  · rw [hpoint]
    exact h.pinned.inHand
  · rw [hlog]
    exact h.pinned.inLog

/-- What `schedule` needs of the fiber that it is called with. -/
def Free (s : Tasks W) (task : Task) : Prop :=
  ∀ f, task = .fiber f → f < s.made ∧ s.tickets f = 0 ∧ s.state f ≠ .term ∧ s.state f ≠ .except ∧
    (∀ w b, (s.point w).stack = some (f, b) → s.state f = .exec) ∧
    ∀ w, s.cbFiber w = some f → (s.point w).stack = some (f, true)

theorem free_of_suspended (h : Sound s) (htask : s.Suspended task) : Free s task := by
  rintro f rfl
  obtain ⟨hmade, hzero, hstate⟩ := htask
  refine ⟨hmade, hzero, ?_, ?_, ?_, ?_⟩
  · grind
  · grind
  · intro w b hs
    have hstarted := h.owned.started w f b hs
    grind
  · intro w hc
    rcases h.owned.pool w f hc with hs | ⟨hinit, -⟩
    · exact hs
    · grind

theorem scheduleNoLock (h : Sound s) (htask : Free s task) (thread : Option W) :
    Sound (s.scheduleNoLock task thread) := by
  have hwaiting := waiting_scheduleNoLock s task thread
  refine h.push ?_ hwaiting rfl rfl rfl h.pinned.inList rfl rfl
  exact h.owned.push hwaiting rfl rfl rfl rfl htask

theorem scheduleLocal (h : Sound s) (htask : Free s task) (w : W) : Sound (s.scheduleLocal w task) := by
  have hwaiting := waiting_scheduleLocal s w task
  refine h.push ?_ hwaiting rfl rfl rfl ?_ rfl rfl
  · exact h.owned.push hwaiting rfl rfl rfl rfl htask
  · intro w' x hx
    have hx : x ∈ Function.update s.localFibers w (s.localFibers w ++ [⟨s.count, task, some w⟩]) w' := hx
    by_cases hw : w' = w
    · subst hw
      rw [Function.update_self] at hx
      rcases List.mem_append.mp hx with hx | hx
      · exact h.pinned.inList w' x hx
      · rw [List.mem_singleton.mp hx]
    · rw [Function.update_of_ne hw] at hx
      exact h.pinned.inList w' x hx

theorem letGo (h : Sound s) (hp : s.point w = .settle f b) (st : FiberState)
    (hst : st ≠ .exec ∧ (0 < s.tickets f → st ≠ .term ∧ st ≠ .except))
    (hc : b = false ∧ c = s.cbFiber w ∨ b = true ∧ c = none ∨ c = s.cbFiber w ∧ st = .init ∧ s.tickets f = 0) :
    Sound (((s.setState f st).setCbFiber w c).goto w .top) := by
  have hhand : (s.point w).hand = none := by rw [hp]; rfl
  have hwaiting : (((s.setState f st).setCbFiber w c).goto w .top).waiting = s.waiting :=
    waiting_same (s := s) (hhand.symm)
  refine h.frame (w := w) (p := .top) ?_ rfl rfl rfl hhand rfl (by rw [hp]; rfl) rfl rfl rfl
  exact h.owned.settle hp hwaiting rfl rfl rfl rfl hst hc

/-- A fiber that is ready is put into the worker's own list as the worker lets go of it. -/
theorem putBack (h : Sound s) (hp : s.point w = .settle f b) (hready : s.state f = .ready)
    (hc : b = false ∧ c = s.cbFiber w ∨ b = true ∧ c = none) :
    Sound (((s.scheduleLocal w (.fiber f)).setCbFiber w c).goto w .top) := by
  have hon : (s.point w).stack = some (f, b) := by rw [hp]; rfl
  have hzero := h.owned.leaving w f b hon (by rw [hready]; decide)
  have hgone := h.letGo hp (s.state f) (c := c) (by rw [hready, hzero]; decide) (hc.imp_right .inl)
  rw [setState_self] at hgone
  refine hgone.scheduleLocal ?_ w
  rintro g hg
  cases hg
  have hpt : ∀ w' b', (Function.update s.point w .top w').stack ≠ some (f, b') := by
    have := h.owned.alone
    grind [Point.stack]
  have hpool : ∀ w', Function.update s.cbFiber w c w' ≠ some f := by
    have := h.owned.pool
    have := h.owned.poolOne
    have := h.owned.pooled
    have := h.owned.alone
    grind
  refine ⟨?_, ?_, ?_, ?_, ?_, ?_⟩
  · by_contra hge
    have hinit := (h.owned.fresh f (Nat.not_lt.mp hge)).1
    rw [hready] at hinit
    cases hinit
  · exact (tickets_congr (waiting_same (s := s.setCbFiber w c) (by show _ = (s.point w).hand; rw [hp]; rfl)) f).trans hzero
  · show s.state f ≠ .term
    rw [hready]
    decide
  · show s.state f ≠ .except
    rw [hready]
    decide
  · exact fun w' b' hs => absurd hs (hpt w' b')
  · exact fun w' hc' => absurd hc' (hpool w')

theorem settle (h : Sound s) (hp : s.point w = .settle f b) : Sound (s.settle w f b) := by
  have hon : (s.point w).stack = some (f, b) := by rw [hp]; rfl
  have hstarted := h.owned.started w f b hon
  have hleaving := h.owned.leaving w f b hon
  cases b with
  | false =>
    show Sound (ite _ _ _)
    split
    next hready =>
      have hput := h.putBack hp hready (c := s.cbFiber w) (.inl ⟨rfl, rfl⟩)
      rwa [show s.cbFiber w = (s.scheduleLocal w (.fiber f)).cbFiber w from rfl, setCbFiber_self] at hput
    next =>
      split
      next hdead =>
        have hgo := h.letGo hp .hold (c := s.cbFiber w) (by simp) (.inl ⟨rfl, rfl⟩)
        rwa [show s.cbFiber w = (s.setState f .hold).cbFiber w from rfl, setCbFiber_self] at hgo
      next hdead =>
        have hgo := h.letGo hp (s.state f) (c := s.cbFiber w) (by grind) (.inl ⟨rfl, rfl⟩)
        rwa [setState_self, setCbFiber_self] at hgo
  | true =>
    show Sound (ite _ _ _)
    split
    next hready => exact h.putBack hp hready (.inr ⟨rfl, rfl⟩)
    next =>
      split
      next hdead =>
        have hgo := h.letGo hp .init (c := s.cbFiber w) (by simp)
          (.inr (.inr ⟨rfl, rfl, hleaving (by grind)⟩))
        rwa [show s.cbFiber w = (s.setState f .init).cbFiber w from rfl, setCbFiber_self] at hgo
      next => exact h.letGo hp .hold (by simp) (.inr (.inl ⟨rfl, rfl⟩))

theorem newFiber (h : Sound s) : Sound { s with made := s.made + 1 } := by
  refine ⟨?_, ⟨h.counted.once, h.counted.active⟩, ⟨h.pinned.inList, h.pinned.inHand, h.pinned.inLog⟩⟩
  obtain ⟨h1, h2, h3, h4, h5, h6, h7, h8, h9, h10, h11⟩ := h.owned
  exact ⟨h1, h2, h3, h4, h5, h6, h7, h8, h9, h10, fun f hf => h11 f (Nat.le_of_succ_le hf)⟩

omit [DecidableEq W] in
theorem waiting_new : (Tasks.new : Tasks W).waiting = 0 := by
  unfold waiting held
  simp [Tasks.new, Point.hand]

theorem new : Sound (Tasks.new : Tasks W) := by
  have hzero : ∀ f, (Tasks.new : Tasks W).tickets f = 0 := by
    intro f
    unfold tickets
    rw [waiting_new]
    rfl
  refine ⟨?_, ⟨?_, ?_⟩, ⟨?_, ?_, ?_⟩⟩
  · constructor <;> try simp only [hzero]
    all_goals simp [Tasks.new, Point.hand, Point.stack]
  · rw [waiting_new]
    rfl
  · simp [Tasks.new, workers, Point.busy]
  · simp [Tasks.new]
  · simp [Tasks.new, Point.hand]
  · simp [Tasks.new]

theorem exact (h : Sound s) : s.Exact := by
  refine ⟨h.counted.once, ?_, h.owned.alone, ?_, h.counted.active⟩
  · intro e he
    have hpin := h.pinned.inLog e he
    unfold foreign at hpin
    simpa [or_iff_not_imp_left] using hpin
  · intro w ft f hhand htask
    exact ⟨h.owned.rested w ft f hhand htask, (h.idle_of_hand hhand htask).2.2.1⟩

end Sound

/-! ### Steps -/

namespace Scheduler

open Tasks

variable {s s' : Scheduler W} {w : W} {e : Event W}

/-- What a step does to the tasks. -/
inductive Moves (s : Scheduler W) : Event W → Tasks W → Prop where
  | newFiber : Moves s .newFiber { s.toTasks with made := s.made + 1 }
  | scheduleLocal (w : W) (task : Task) : Moves s (.schedule (some w) task (some w)) (s.scheduleLocal w task)
  | schedule (caller : Option W) (task : Task) (thread : Option W) :
    Moves s (.schedule caller task thread) (s.scheduleNoLock task thread)
  | scheduleAll (caller : Option W) (tasks : List Task) : Moves s (.scheduleAll caller tasks)
    (tasks.foldl (fun s task => s.scheduleNoLock task none) s.toTasks)
  | leave (w : W) (outcome : Outcome) (f : Nat) (b : Bool) : s.point w = .running f b →
    Moves s (.leave w outcome) ((s.setState f outcome.state).goto w (.back f b))
  | fetchLocal (w : W) : s.point w = .top → Moves s (.step w) (s.fetchLocalTask w)
  | fetch (w : W) : s.point w = .look → Moves s (.step w) (s.fetchTask w)
  | hold (w : W) (ft : FiberAndThread W) (tickleMe : Bool) : s.point w = .fetched tickleMe (some ft) →
    Moves s (.step w) (s.goto w (.taken ft))
  | runTask (w : W) (ft : FiberAndThread W) : s.point w = .taken ft → Moves s (.step w) (s.runTask w ft)
  | back (w : W) (f : Nat) (b : Bool) : s.point w = .back f b →
    Moves s (.step w) ({ s.toTasks with active := s.active - 1 }.goto w (.settle f b))
  | settle (w : W) (f : Nat) (b : Bool) : s.point w = .settle f b → Moves s (.step w) (s.toTasks.settle w f b)
  /-- From one point with nothing to do to another. -/
  | idle (e : Event W) (w : W) (p : Point W) :
    (s.point w).hand = none → (s.point w).stack = none → (s.point w).busy = false →
    p.hand = none → p.stack = none → p.busy = false → Moves s e (s.goto w p)
  | same (e : Event W) : Moves s e s.toTasks

omit [Fintype W] in
theorem stepWorker_moves (h : s.stepWorker w = some s') : Moves s (.step w) s'.toTasks := by
  unfold stepWorker at h
  split at h
  next hp => cases h; exact .fetchLocal w hp
  next hp => cases h; exact .fetch w hp
  next tickleMe ft hp =>
    have hsame : (if tickleMe then s.tickle else s).toTasks = s.toTasks := by split <;> simp
    cases ft with
    | some ft =>
      cases h
      show Moves s _ ((if tickleMe then s.tickle else s).goto w (.taken ft))
      rw [hsame]
      exact .hold w ft tickleMe hp
    | none =>
      cases h
      show Moves s _ ((if tickleMe then s.tickle else s).goto w .empty)
      rw [hsame]
      exact .idle _ w .empty (by rw [hp]; rfl) (by rw [hp]; rfl) (by rw [hp]; rfl) rfl rfl rfl
  next ft hp => cases h; exact .runTask w ft hp
  next f b hp => cases h; exact .back w f b hp
  next f b hp => cases h; exact .settle w f b hp
  next hp =>
    split at h
    next => cases h; exact .idle _ w _ (by rw [hp]; rfl) (by rw [hp]; rfl) (by rw [hp]; rfl) rfl rfl rfl
    next => cases h; exact .idle _ w _ (by rw [hp]; rfl) (by rw [hp]; rfl) (by rw [hp]; rfl) rfl rfl rfl
  next hp => cases h; exact .idle _ w _ (by rw [hp]; rfl) (by rw [hp]; rfl) (by rw [hp]; rfl) rfl rfl rfl
  next hp => cases h; exact .idle _ w _ (by rw [hp]; rfl) (by rw [hp]; rfl) (by rw [hp]; rfl) rfl rfl rfl
  next hp => cases h; exact .idle _ w _ (by rw [hp]; rfl) (by rw [hp]; rfl) (by rw [hp]; rfl) rfl rfl rfl
  next => cases h
  next => cases h
  next => cases h
  next => cases h

theorem step_moves (h : s.step e = some s') : Moves s e s'.toTasks := by
  cases e with
  | newFiber => cases h; exact .newFiber
  | schedule caller task thread =>
    obtain ⟨-, h⟩ := Option.ite_none_right_eq_some.mp h
    cases h
    unfold schedule
    split
    next w =>
      split
      next heq => subst heq; exact .scheduleLocal w task
      next => rw [owe_toTasks]; exact .schedule ..
    next => rw [owe_toTasks]; exact .schedule ..
  | scheduleAll caller tasks =>
    obtain ⟨-, h⟩ := Option.ite_none_right_eq_some.mp h
    cases h
    unfold scheduleAll
    rw [owe_toTasks]
    exact .scheduleAll ..
  | tickle caller =>
    have hsame : s'.toTasks = s.toTasks := by
      cases caller with
      | none =>
        obtain ⟨-, h⟩ := Option.ite_none_right_eq_some.mp h
        cases h
        exact tickle_toTasks s
      | some w =>
        obtain ⟨-, h⟩ := Option.ite_none_right_eq_some.mp h
        cases h
        exact tickle_toTasks s
    rw [hsame]
    exact .same _
  | stop => cases h; exact .same _
  | leave w outcome =>
    simp only [step] at h
    split at h
    next f b hp =>
      obtain ⟨-, h⟩ := Option.ite_none_left_eq_some.mp h
      cases h
      exact .leave w outcome f b hp
    next => cases h
  | stopping w quiet =>
    obtain ⟨hp, h⟩ := Option.ite_none_right_eq_some.mp h
    split at h
    next => cases h; exact .idle _ w _ (by rw [hp]; rfl) (by rw [hp]; rfl) (by rw [hp]; rfl) rfl rfl rfl
    next => cases h; exact .idle _ w _ (by rw [hp]; rfl) (by rw [hp]; rfl) (by rw [hp]; rfl) rfl rfl rfl
  | epollWait w tickled =>
    obtain ⟨⟨hp, -⟩, h⟩ := Option.ite_none_right_eq_some.mp h
    cases h
    exact .idle _ w _ (by rw [hp]; rfl) (by rw [hp]; rfl) (by rw [hp]; rfl) rfl rfl rfl
  | step w =>
    obtain ⟨-, h⟩ := Option.ite_none_left_eq_some.mp h
    exact stepWorker_moves h

end Scheduler

theorem Sound.scheduleAll {s : Tasks W} (h : Sound s) {tasks : List Task} (htasks : ∀ task ∈ tasks, s.Suspended task)
    (hnodup : (tasks.filter (· ≠ .cb)).Nodup) :
    Sound (tasks.foldl (fun s task => s.scheduleNoLock task none) s) := by
  induction tasks generalizing s with
  | nil => exact h
  | cons task tasks ih =>
    have hnext := h.scheduleNoLock (h.free_of_suspended (htasks task List.mem_cons_self)) none
    refine ih hnext ?_ ?_
    · intro task' hmem
      have hsus := htasks task' (List.mem_cons_of_mem _ hmem)
      cases task' with
      | cb => trivial
      | fiber f =>
        obtain ⟨hmade, hzero, hstate⟩ := hsus
        refine ⟨hmade, ?_, hstate⟩
        have hne : task ≠ .fiber f := by
          rintro rfl
          simp [hmem] at hnodup
        rw [Tasks.tickets_add (Tasks.waiting_scheduleNoLock s task none), if_neg hne, hzero]
    · exact hnodup.sublist (List.Sublist.filter _ (List.sublist_cons_self ..))

theorem Sound.step {s s' : Scheduler W} {e : Event W} (h : Sound s.toTasks) (honce : s.Once e)
    (hstep : s.step e = some s') : Sound s'.toTasks := by
  have hmoves := Scheduler.step_moves hstep
  generalize s'.toTasks = t at hmoves
  cases hmoves with
  | newFiber => exact h.newFiber
  | scheduleLocal w task => exact h.scheduleLocal (h.free_of_suspended honce) w
  | schedule caller task thread => exact h.scheduleNoLock (h.free_of_suspended honce) thread
  | scheduleAll caller tasks => exact h.scheduleAll honce.1 honce.2
  | leave w outcome f b hp => exact h.leave hp (honce.imp_right fun hzero => hzero (f, b) (by rw [hp]; rfl))
  | fetchLocal w hp => exact h.fetchLocalTask hp
  | fetch w hp => exact h.fetchTask hp
  | hold w ft tickleMe hp => exact h.goto (by rw [hp]; rfl) (by rw [hp]; rfl) (by simp) (by rw [hp]; rfl)
  | runTask w ft hp => exact h.runTask hp
  | back w f b hp =>
    refine h.moved (by rw [hp]; rfl) (by rw [hp]; rfl) (by simp) ?_
    rw [hp]
    simp [Point.busy]
  | settle w f b hp => exact h.settle hp
  | idle e w p hhand hstack hbusy hhand' hstack' hbusy' =>
    refine h.goto (by rw [hhand, hhand']) (by rw [hstack, hstack']) ?_ (by rw [hbusy, hbusy'])
    rintro f b rfl
    cases hstack'
  | same e => exact h

/-! ### Stopping -/

/-- No task is queued or running, and none is about to be queued. -/
structure Done (s : Tasks W) : Prop where
  waiting : s.waiting = 0
  idle : ∀ w, (s.point w).busy = false
  settled : ∀ w f b, s.point w = .settle f b → s.state f ≠ .ready

namespace Done

open Tasks

variable {s : Tasks W} {w : W} {p : Point W} {f : Nat} {b : Bool}

omit [DecidableEq W] in
theorem lists (h : Done s) : s.fibers = [] ∧ ∀ w, s.localFibers w = [] := by
  have hnone : ∀ ft, ft ∉ s.waiting := by simp [h.waiting]
  constructor
  · exact List.eq_nil_iff_forall_not_mem.mpr fun ft hft => hnone ft (mem_waiting.mpr (.inl hft))
  · intro w
    exact List.eq_nil_iff_forall_not_mem.mpr fun ft hft => hnone ft (mem_waiting.mpr (.inr ⟨w, .inl hft⟩))

theorem moved (h : Done s) {s' : Tasks W} (hwaiting : s'.waiting = s.waiting)
    (hpoint : s'.point = Function.update s.point w p) (hstate : ∀ f, s'.state f = s.state f ∨ s'.state f ≠ .ready)
    (hbusy : p.busy = false) (hsettle : ∀ f b, p ≠ .settle f b) : Done s' := by
  refine ⟨hwaiting.trans h.waiting, ?_, ?_⟩
  · intro w'
    rw [hpoint]
    have := h.idle w'
    grind
  · intro w' f b hp
    rw [hpoint] at hp
    have := h.settled w' f b
    have := hstate f
    grind

theorem goto (h : Done s) (hhand : (s.point w).hand = none) (hhand' : p.hand = none) (hbusy : p.busy = false)
    (hsettle : ∀ f b, p ≠ .settle f b) : Done (s.goto w p) :=
  h.moved (waiting_same (s := s) (hhand'.trans hhand.symm)) rfl (fun _ => .inl rfl) hbusy hsettle

theorem settle (h : Done s) (hp : s.point w = .settle f b) : Done (s.settle w f b) := by
  have hready := h.settled w f b hp
  have hwaiting : (s.goto w .top).waiting = s.waiting := waiting_same (by rw [hp]; rfl)
  have hstate : ∀ st, st ≠ .ready → ∀ g, (s.setState f st).state g = s.state g ∨ (s.setState f st).state g ≠ .ready := by
    intro st hst g
    show Function.update s.state f st g = s.state g ∨ Function.update s.state f st g ≠ .ready
    grind
  cases b with
  | false =>
    show Done (ite _ _ _)
    rw [if_neg hready]
    split
    · exact h.moved hwaiting rfl (hstate .hold (by decide)) rfl (by simp)
    · exact h.moved hwaiting rfl (fun _ => .inl rfl) rfl (by simp)
  | true =>
    show Done (ite _ _ _)
    rw [if_neg hready]
    split
    · exact h.moved hwaiting rfl (hstate .init (by decide)) rfl (by simp)
    · exact h.moved hwaiting rfl (hstate .hold (by decide)) rfl (by simp)

/-- Without a `schedule` there stays nothing to do. -/
theorem step {s s' : Scheduler W} {e : Event W} (h : Done s.toTasks) (hstep : s.step e = some s')
    (hone : ∀ caller task thread, e ≠ .schedule caller task thread) (hall : ∀ caller tasks, e ≠ .scheduleAll caller tasks) :
    Done s'.toTasks := by
  have hmoves := Scheduler.step_moves hstep
  generalize s'.toTasks = t at hmoves
  have hbusy : ∀ w, (s.point w).busy = true → False := by
    intro w hw
    have := h.idle w
    rw [hw] at this
    cases this
  cases hmoves with
  | newFiber => exact ⟨h.waiting, h.idle, h.settled⟩
  | scheduleLocal w task => exact absurd rfl (hone (some w) task (some w))
  | schedule caller task thread => exact absurd rfl (hone caller task thread)
  | scheduleAll caller tasks => exact absurd rfl (hall caller tasks)
  | leave w outcome f b hp => exact (hbusy w (by rw [hp]; rfl)).elim
  | fetchLocal w hp =>
    unfold Tasks.fetchLocalTask
    rw [h.lists.2 w]
    exact h.goto (by rw [hp]; rfl) rfl rfl (by simp)
  | fetch w hp =>
    unfold Tasks.fetchTask
    rw [h.lists.1]
    exact h.goto (by rw [hp]; rfl) rfl rfl (by simp)
  | hold w ft tickleMe hp => exact (hbusy w (by rw [hp]; rfl)).elim
  | runTask w ft hp => exact (hbusy w (by rw [hp]; rfl)).elim
  | back w f b hp => exact (hbusy w (by rw [hp]; rfl)).elim
  | settle w f b hp => exact h.settle hp
  | idle e w p hhand hstack hbusy hhand' hstack' hbusy' =>
    refine h.goto hhand hhand' hbusy' ?_
    rintro f b rfl
    cases hstack'
  | same e => exact h

theorem of_stopping {s : Scheduler W} (hsound : Sound s.toTasks) {quiet : Bool} (hcalm : s.Calm (.stopping w quiet))
    (hstop : s.isStopping w quiet = true) : Done s.toTasks := by
  have hcalm := hcalm hstop
  unfold Scheduler.isStopping at hstop
  simp only [Bool.and_eq_true, decide_eq_true_eq, List.isEmpty_iff] at hstop
  obtain ⟨⟨⟨-, hfibers⟩, -⟩, hactive⟩ := hstop
  have hworkers : s.workers = 0 := by
    have := hsound.counted.active
    omega
  have hidle : ∀ w', (s.point w').busy = false := by
    intro w'
    unfold workers at hworkers
    rw [Finset.card_eq_zero, Finset.filter_eq_empty_iff] at hworkers
    simpa using hworkers (Finset.mem_univ w')
  refine ⟨?_, hidle, fun w' f b hp => (hcalm w').2 (f, b) (by rw [hp]; rfl)⟩
  rw [Multiset.eq_zero_iff_forall_notMem]
  intro ft hmem
  rcases mem_waiting.mp hmem with hmem | ⟨w', hmem | hhand⟩
  · rw [hfibers] at hmem
    cases hmem
  · rw [(hcalm w').1] at hmem
    cases hmem
  · have hb := hidle w'
    cases hp : s.point w' <;> rw [hp] at hb hhand <;> cases hhand <;> cases hb

end Done

namespace Scheduler

variable {s s' : Scheduler W} {e : Event W}

omit [Fintype W] [DecidableEq W] in
theorem tickle_idleTerm (s : Scheduler W) : s.tickle.idleTerm = s.idleTerm := by
  unfold tickle
  split <;> rfl

omit [Fintype W] in
theorem owe_idleTerm (s : Scheduler W) (need : Bool) (caller : Option W) : (s.owe need caller).idleTerm = s.idleTerm := by
  unfold owe
  cases caller <;> cases need <;> rfl

omit [Fintype W] in
theorem stepWorker_idleTerm {w : W} (h : s.stepWorker w = some s') : s'.idleTerm = s.idleTerm := by
  unfold stepWorker at h
  split at h
  case h_3 tickleMe ft hp =>
    have hsame : (if tickleMe then s.tickle else s).idleTerm = s.idleTerm := by
      split
      · exact tickle_idleTerm s
      · rfl
    cases ft <;> cases h <;> exact hsame
  case h_7 =>
    split at h <;> cases h <;> rfl
  all_goals cases h <;> rfl

/-- Only a worker that finds the scheduler stopping ends its idle fiber. -/
theorem step_idleTerm (h : s.step e = some s') :
    s'.idleTerm = s.idleTerm ∨ ∃ w quiet, e = .stopping w quiet ∧ s.isStopping w quiet = true := by
  cases e with
  | newFiber => cases h; exact .inl rfl
  | schedule caller task thread =>
    obtain ⟨-, h⟩ := Option.ite_none_right_eq_some.mp h
    cases h
    unfold schedule
    split
    next =>
      split
      next => exact .inl rfl
      next => rw [owe_idleTerm]; exact .inl rfl
    next => rw [owe_idleTerm]; exact .inl rfl
  | scheduleAll caller tasks =>
    obtain ⟨-, h⟩ := Option.ite_none_right_eq_some.mp h
    cases h
    unfold scheduleAll
    rw [owe_idleTerm]
    exact .inl rfl
  | tickle caller =>
    cases caller with
    | none =>
      obtain ⟨-, h⟩ := Option.ite_none_right_eq_some.mp h
      cases h
      exact .inl (tickle_idleTerm s)
    | some w =>
      obtain ⟨-, h⟩ := Option.ite_none_right_eq_some.mp h
      cases h
      exact .inl (tickle_idleTerm s)
  | stop => cases h; exact .inl rfl
  | leave w outcome =>
    simp only [step] at h
    split at h
    next =>
      obtain ⟨-, h⟩ := Option.ite_none_left_eq_some.mp h
      cases h
      exact .inl rfl
    next => cases h
  | stopping w quiet =>
    obtain ⟨-, h⟩ := Option.ite_none_right_eq_some.mp h
    split at h
    next hstop => exact .inr ⟨w, quiet, rfl, hstop⟩
    next => cases h; exact .inl rfl
  | epollWait w tickled =>
    obtain ⟨-, h⟩ := Option.ite_none_right_eq_some.mp h
    cases h
    exact .inl rfl
  | step w =>
    obtain ⟨-, h⟩ := Option.ite_none_left_eq_some.mp h
    exact .inl (stepWorker_idleTerm h)

/-- Once a worker's idle fiber has ended there is nothing left to do. -/
def Finished (s : Scheduler W) : Prop := ∀ w, s.idleTerm w = true → Done s.toTasks

theorem Finished.step (h : s.Finished) (hsound : Sound s.toTasks) (hcalm : s.Calm e) (hstep : s.step e = some s') :
    s'.Finished := by
  intro w hw
  rcases step_idleTerm hstep with heq | ⟨w', quiet, rfl, hstop⟩
  · rw [heq] at hw
    refine (h w hw).step hstep ?_ ?_
    · rintro caller task thread rfl
      have := hcalm w
      rw [hw] at this
      cases this
    · rintro caller tasks rfl
      have := hcalm w
      rw [hw] at this
      cases this
  · exact (Done.of_stopping hsound hcalm hstop).step hstep (by simp) (by simp)

/-! ## Top theorem -/

theorem correct (hsound : Sound s.toTasks) (hfinished : s.Finished) : s.Correct e := by
  refine ⟨hsound.exact, ?_⟩
  intro w _ _ hw
  exact ⟨(hfinished w hw).waiting, (hfinished w hw).idle⟩

theorem along_exact (es : List (Event W)) (hsound : Sound s.toTasks) (honce : s.Along Once es) :
    s.Along (fun s _ => s.Exact) es ∧ ∀ s', s.run es = some s' → s'.Exact := by
  induction es generalizing s with
  | nil => exact ⟨trivial, fun s' hrun => by cases hrun; exact hsound.exact⟩
  | cons e es ih =>
    refine ⟨⟨hsound.exact, fun s' hstep => (ih (hsound.step honce.1 hstep) (honce.2 s' hstep)).1⟩, ?_⟩
    intro s'' hrun
    obtain ⟨s', hstep, hrun⟩ := Option.bind_eq_some_iff.mp hrun
    exact (ih (hsound.step honce.1 hstep) (honce.2 s' hstep)).2 s'' hrun

theorem along_correct (es : List (Event W)) (hsound : Sound s.toTasks) (hfinished : s.Finished)
    (honce : s.Along Once es) (hcalm : s.Along Calm es) : s.Along Correct es := by
  induction es generalizing s with
  | nil => trivial
  | cons e es ih =>
    refine ⟨correct hsound hfinished, fun s' hstep => ?_⟩
    exact ih (hsound.step honce.1 hstep) (hfinished.step hsound hcalm.1 hstep) (honce.2 s' hstep) (hcalm.2 s' hstep)

/-- Every task is run once, and where nothing is overlooked every exit is clean. -/
theorem tasks_exact (es : List (Event W)) (honce : (new : Scheduler W).Along Once es) :
    ((new : Scheduler W).Along (fun s _ => s.Exact) es ∧ ∀ s, (new : Scheduler W).run es = some s → s.Exact) ∧
      ((new : Scheduler W).Along Calm es → (new : Scheduler W).Along Correct es) :=
  ⟨along_exact es Sound.new honce, along_correct es Sound.new (fun _ hw => by cases hw) honce⟩

/-- Two workers run a callback each, stop and exit. -/
theorem tasks_exact_two : ∃ es : List (Event (Fin 2)),
    ((new.run es).map fun s => (s.resumed.map fun e => (e.1.ticket, e.2), s.point 0, s.point 1)) =
      some ([(1, 1), (0, 0)], .exited, .exited) ∧
    (new : Scheduler (Fin 2)).Along Correct es := by
  refine ⟨[.schedule none .cb none, .schedule none .cb (some 1), .tickle none, .step 0, .step 0, .step 0, .step 0,
    .step 1, .step 1, .step 1, .step 1, .leave 1 .term, .leave 0 .term, .step 0, .step 0, .step 1, .step 1, .stop,
    .step 0, .step 0, .step 0, .step 0, .stopping 0 true, .step 0, .step 0, .step 0, .step 0, .step 0,
    .step 1, .step 1, .step 1, .step 1, .stopping 1 true, .step 1, .step 1, .step 1, .step 1, .step 1], ?_, ?_⟩
  · decide
  · exact (tasks_exact _ (by decide)).2 (by decide)

/-- A callback puts another into the list of its own worker and ends.  The other worker looks at its own list. -/
def early : List (Event (Fin 2)) :=
  [.schedule none .cb none, .step 0, .step 0, .step 0, .step 0, .schedule (some 0) .cb (some 0), .leave 0 .term,
    .step 0, .step 0, .stop, .step 1, .step 1, .step 1, .step 1, .stopping 1 true, .step 1, .step 1, .step 1, .step 1]

theorem exits_early : (new : Scheduler (Fin 2)).Along Once (early ++ [.step 1]) ∧
    ¬ (new : Scheduler (Fin 2)).Along Correct (early ++ [.step 1]) := by
  refine ⟨by decide, ?_⟩
  intro h
  obtain ⟨s, hrun, hpoint, hterm, hlocal⟩ : ∃ s, (new : Scheduler (Fin 2)).run early = some s ∧
      s.point 1 = .empty ∧ s.idleTerm 1 = true ∧ s.localFibers 0 = [⟨1, .cb, some 0⟩] := ⟨_, rfl, by decide⟩
  have hempty := ((along_last h hrun).2 1 rfl hpoint hterm).1
  have hmem : (⟨1, .cb, some 0⟩ : FiberAndThread (Fin 2)) ∈ s.waiting :=
    Tasks.mem_waiting.mpr (.inr ⟨0, .inl (by rw [hlocal]; exact List.mem_singleton_self _)⟩)
  rw [hempty] at hmem
  cases hmem

end Scheduler

end Core
