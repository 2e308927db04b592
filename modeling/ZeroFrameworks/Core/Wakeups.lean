import ZeroFrameworks.Core.Scheduler

/-!
# Wake-ups

A worker that has looked at the lists and found nothing goes on to `epoll_wait`, and only then is it counted as
idle.  A tickle writes a byte if someone is counted as idle, and a push onto a list that is not empty does not
tickle.  `Timely` says of each step that may drop a wake-up that the tasks concerned are seen to all the same,
by a worker that has yet to look or by a tickle that is still to come.

    Along Timely es → run es = some s → ¬ s.Lost   (no_lost_wakeup)
-/

namespace Core

variable {W : Type}

/-! ## Specification -/

namespace Point

/-- The worker looks at the common list before it waits. -/
def toLook : Point W → Bool
  | .top | .look | .fetched _ (some _) | .taken _ | .running .. | .back .. | .settle .. | .handling _ | .leaveIdle => true
  | .fetched _ none | .empty | .check | .wait | .exited => false

/-- The worker looks at its own list before it waits. -/
def toLookLocal : Point W → Bool
  | .look => false
  | p => p.toLook

/-- The worker is about to tickle the others. -/
def tickles : Point W → Bool
  | .fetched tickleMe _ => tickleMe
  | _ => false

end Point

/-- The worker may run what is pinned to `thread`. -/
def MayRun (thread : Option W) (w : W) : Prop := thread = none ∨ thread = some w

instance [DecidableEq W] (thread : Option W) (w : W) : Decidable (MayRun thread w) :=
  inferInstanceAs (Decidable (thread = none ∨ thread = some w))

namespace Scheduler

def Runnable (s : Scheduler W) (ft : FiberAndThread W) : Prop := s.executing ft.task = false

/-- A call of `tickle` is on its way. -/
def Owed (s : Scheduler W) : Prop :=
  0 < s.outside ∨ (∃ w, s.calling w = true) ∨ ∃ w, (s.point w).tickles = true

def Pending (s : Scheduler W) : Prop := 0 < s.bytes ∨ s.Owed

/-- A task that can be run is queued, everyone who may run it waits, and no tickle is there to wake them. -/
def Lost (s : Scheduler W) : Prop :=
  ¬ s.Pending ∧
    ((∃ ft ∈ s.fibers, s.Runnable ft ∧ (∃ w, MayRun ft.thread w ∧ s.point w ≠ .exited) ∧
        ∀ w, MayRun ft.thread w → s.point w ≠ .exited → s.point w = .wait) ∨
      ∃ w, ∃ ft ∈ s.localFibers w, s.Runnable ft ∧ s.point w = .wait)

/-- Someone who may run it has yet to look, or there is no one left. -/
def Watched (s : Scheduler W) (thread : Option W) : Prop :=
  (∃ w, MayRun thread w ∧ (s.point w).toLook = true) ∨ ∀ w, MayRun thread w → s.point w = .exited

/-- The entries of `P` are seen to, by someone who has yet to look or by what is `pending`. -/
structure Covered (s : Scheduler W) (P : FiberAndThread W → Prop) (pending : Prop) : Prop where
  common : ∀ ft ∈ s.fibers, P ft → pending ∨ s.Watched ft.thread
  own : ∀ w, ∀ ft ∈ s.localFibers w, P ft → pending ∨ (s.point w).toLookLocal = true ∨ s.point w = .exited

/-- A worker's own steps that may drop a wake-up. -/
def TimelyAt (s : Scheduler W) : Point W → Prop
  | .fetched true _ => s.idle ≤ 0 → s.Covered s.Runnable False
  | .settle f _ => s.Covered (fun ft => ft.task = .fiber f) s.Pending
  | .handling true => s.Covered s.Runnable s.Owed
  | _ => True

/-- The steps that may drop a wake-up: a push onto a list that is not empty, a tickle that finds no one idle, a
drain of the pipe, and the end of a fiber's execution while it has an entry. -/
def Timely (s : Scheduler W) : Event W → Prop
  | .schedule caller task thread => s.fibers ≠ [] →
    (∃ w, caller = some w ∧ thread = some w) ∨ s.executing task = true ∨ s.Pending ∨ s.Watched thread
  | .scheduleAll _ _ => s.fibers ≠ [] → s.Pending ∨ s.Watched none
  | .tickle _ => s.idle ≤ 0 → s.Covered s.Runnable False
  | .leave w outcome => outcome = .yieldToHold ∨
    ∀ on ∈ (s.point w).stack, s.Covered (fun ft => ft.task = .fiber on.1) s.Pending
  | .step w => s.TimelyAt (s.point w)
  | _ => True

section Decidable

variable [Fintype W] [DecidableEq W] (s : Scheduler W)

instance (ft : FiberAndThread W) : Decidable (s.Runnable ft) := inferInstanceAs (Decidable (_ = false))

instance : Decidable s.Owed :=
  inferInstanceAs (Decidable (0 < s.outside ∨ (∃ w, s.calling w = true) ∨ ∃ w, (s.point w).tickles = true))

instance : Decidable s.Pending := inferInstanceAs (Decidable (0 < s.bytes ∨ s.Owed))

instance : Decidable s.Lost := inferInstanceAs (Decidable (_ ∧ (_ ∨ _)))

instance (thread : Option W) : Decidable (s.Watched thread) := inferInstanceAs (Decidable (_ ∨ _))

instance (P : FiberAndThread W → Prop) [DecidablePred P] (pending : Prop) [Decidable pending] :
    Decidable (s.Covered P pending) :=
  decidable_of_iff ((∀ ft ∈ s.fibers, P ft → pending ∨ s.Watched ft.thread) ∧
      ∀ w, ∀ ft ∈ s.localFibers w, P ft → pending ∨ (s.point w).toLookLocal = true ∨ s.point w = .exited)
    ⟨fun h => ⟨h.1, h.2⟩, fun h => ⟨h.1, h.2⟩⟩

instance : (p : Point W) → Decidable (s.TimelyAt p)
  | .fetched true _ => inferInstanceAs (Decidable (s.idle ≤ 0 → s.Covered s.Runnable False))
  | .settle f _ => inferInstanceAs (Decidable (s.Covered (fun ft => ft.task = .fiber f) s.Pending))
  | .handling true => inferInstanceAs (Decidable (s.Covered s.Runnable s.Owed))
  | .top | .look | .fetched false _ | .taken _ | .running .. | .back .. | .empty | .check | .wait | .handling false
  | .leaveIdle | .exited => inferInstanceAs (Decidable True)

instance : (e : Event W) → Decidable (s.Timely e)
  | .schedule caller task thread => inferInstanceAs (Decidable (s.fibers ≠ [] →
    (∃ w, caller = some w ∧ thread = some w) ∨ s.executing task = true ∨ s.Pending ∨ s.Watched thread))
  | .scheduleAll _ _ => inferInstanceAs (Decidable (s.fibers ≠ [] → s.Pending ∨ s.Watched none))
  | .tickle _ => inferInstanceAs (Decidable (s.idle ≤ 0 → s.Covered s.Runnable False))
  | .leave w outcome => inferInstanceAs (Decidable (outcome = .yieldToHold ∨
    ∀ on ∈ (s.point w).stack, s.Covered (fun ft => ft.task = .fiber on.1) s.Pending))
  | .step w => inferInstanceAs (Decidable (s.TimelyAt (s.point w)))
  | .newFiber | .stop | .stopping .. | .epollWait .. => inferInstanceAs (Decidable True)

end Decidable

end Scheduler

/-! ## Lemmas -/

namespace Scheduler

variable {s s' : Scheduler W} {P P' : FiberAndThread W → Prop} {q q' : Prop}

theorem Covered.of_pending (h : q) : s.Covered P q := ⟨fun _ _ _ => .inl h, fun _ _ _ _ => .inl h⟩

theorem Covered.or (h : s.Covered P q) (h' : s.Covered P' q) : s.Covered (fun ft => P ft ∨ P' ft) q := by
  constructor
  · intro ft hft hP
    exact hP.elim (h.common ft hft) (h'.common ft hft)
  · intro w ft hft hP
    exact hP.elim (h.own w ft hft) (h'.own w ft hft)

/-- Fewer entries, and no one turns away who has yet to look. -/
theorem Covered.mono (h : s.Covered P q) (hfibers : ∀ ft ∈ s'.fibers, P' ft → ft ∈ s.fibers ∧ P ft)
    (hlocal : ∀ w, ∀ ft ∈ s'.localFibers w, P' ft → ft ∈ s.localFibers w ∧ P ft)
    (hlook : ∀ w, (s.point w).toLook = true → (s'.point w).toLook = true)
    (hown : ∀ w, (s.point w).toLookLocal = true → (s'.point w).toLookLocal = true)
    (hexit : ∀ w, s.point w = .exited → s'.point w = .exited) (hq : q → q') : s'.Covered P' q' := by
  constructor
  · intro ft hft hP
    obtain ⟨hft, hP⟩ := hfibers ft hft hP
    rcases h.common ft hft hP with hpending | ⟨w, hmay, hw⟩ | hgone
    · exact .inl (hq hpending)
    · exact .inr (.inl ⟨w, hmay, hlook w hw⟩)
    · exact .inr (.inr fun w hmay => hexit w (hgone w hmay))
  · intro w ft hft hP
    obtain ⟨hft, hP⟩ := hlocal w ft hft hP
    rcases h.own w ft hft hP with hpending | hw | hgone
    · exact .inl (hq hpending)
    · exact .inr (.inl (hown w hw))
    · exact .inr (.inr (hexit w hgone))

theorem not_lost (h : s.Covered s.Runnable s.Pending) : ¬ s.Lost := by
  rintro ⟨hpending, ⟨ft, hft, hrun, ⟨w0, hmay0, hw0⟩, hwait⟩ | ⟨w, ft, hft, hrun, hwait⟩⟩
  · rcases h.common ft hft hrun with hp | ⟨w, hmay, hlook⟩ | hgone
    · exact hpending hp
    · by_cases hexit : s.point w = .exited
      · rw [hexit] at hlook
        cases hlook
      · rw [hwait w hmay hexit] at hlook
        cases hlook
    · exact hw0 (hgone w0 hmay0)
  · rcases h.own w ft hft hrun with hp | hlook | hgone
    · exact hpending hp
    · rw [hwait] at hlook
      cases hlook
    · rw [hwait] at hgone
      cases hgone

variable [DecidableEq W] {w : W} {p : Point W}

theorem Covered.moved (h : s.Covered P q) (hpoint : s'.point = Function.update s.point w p)
    (hfibers : ∀ ft ∈ s'.fibers, P' ft → ft ∈ s.fibers ∧ P ft)
    (hlocal : ∀ w, ∀ ft ∈ s'.localFibers w, P' ft → ft ∈ s.localFibers w ∧ P ft)
    (hlook : (s.point w).toLook = true → p.toLook = true)
    (hown : (s.point w).toLookLocal = true → p.toLookLocal = true)
    (hexit : s.point w ≠ .exited) (hq : q → q') : s'.Covered P' q' := by
  refine h.mono hfibers hlocal ?_ ?_ ?_ hq
  · rw [hpoint]
    intro w' hw'
    grind
  · rw [hpoint]
    intro w' hw'
    grind
  · rw [hpoint]
    intro w' hw'
    grind

theorem Owed.moved (h : s.Owed) (hpoint : s'.point = Function.update s.point w p)
    (htickles : (s.point w).tickles = true → p.tickles = true) (houtside : s'.outside = s.outside)
    (hcalling : s'.calling = s.calling) : s'.Owed := by
  rcases h with h | h | ⟨w', hw'⟩
  · exact .inl (houtside ▸ h)
  · exact .inr (.inl (hcalling ▸ h))
  · refine .inr (.inr ⟨w', ?_⟩)
    rw [hpoint]
    grind

theorem Pending.moved (h : s.Pending) (hpoint : s'.point = Function.update s.point w p)
    (htickles : (s.point w).tickles = true → p.tickles = true) (houtside : s'.outside = s.outside)
    (hcalling : s'.calling = s.calling) (hbytes : s'.bytes = s.bytes) : s'.Pending :=
  h.imp (fun hb => hbytes ▸ hb) fun ho => ho.moved hpoint htickles houtside hcalling

/-- Every task that can be run is seen to. -/
def Heard (s : Scheduler W) : Prop := s.Covered s.Runnable s.Pending

/-! ### Pushes -/

omit [DecidableEq W] in
/-- The lists grow by entries that are seen to. -/
theorem Heard.push (h : s.Heard) (hstate : s'.state = s.state) (hpoint : s'.point = s.point)
    (hpending : s.Pending → s'.Pending)
    (hfibers : ∀ ft ∈ s'.fibers, s'.Runnable ft → ft ∈ s.fibers ∨ s'.Pending ∨ s.Watched ft.thread)
    (hlocal : ∀ w, ∀ ft ∈ s'.localFibers w, ft ∈ s.localFibers w ∨ (s.point w).toLookLocal = true) : s'.Heard := by
  have hrun : ∀ ft, s'.Runnable ft → s.Runnable ft := by
    intro ft hft
    unfold Runnable Tasks.executing at hft ⊢
    rwa [hstate] at hft
  have hwatch : ∀ thread, s.Watched thread → s'.Watched thread := by
    unfold Watched
    rw [hpoint]
    exact fun _ hw => hw
  constructor
  · intro ft hft hr
    rcases hfibers ft hft hr with hmem | hseen
    · exact (h.common ft hmem (hrun ft hr)).imp hpending (hwatch _)
    · exact hseen.imp_right (hwatch _)
  · intro w ft hft hr
    rw [hpoint]
    rcases hlocal w ft hft with hmem | hlook
    · exact (h.own w ft hmem (hrun ft hr)).imp_left hpending
    · exact .inr (.inl hlook)

theorem pending_owe (s : Scheduler W) (caller : Option W) : (s.owe true caller).Pending := by
  cases caller with
  | none => exact .inr (.inl (Nat.succ_pos _))
  | some w => exact .inr (.inr (.inl ⟨w, Function.update_self ..⟩))

theorem Pending.owe (h : s.Pending) (need : Bool) (caller : Option W) : (s.owe need caller).Pending := by
  cases need with
  | true => exact pending_owe s caller
  | false => cases caller <;> exact h

variable {t : Tasks W} {caller : Option W}

theorem Heard.pushCommon (h : s.Heard) {l : List (FiberAndThread W)} {need : Bool}
    (ht : t.fibers = s.fibers ++ l) (hlocal : t.localFibers = s.localFibers) (hstate : t.state = s.state)
    (hpoint : t.point = s.point) (hneed : s.fibers = [] → l ≠ [] → need = true)
    (hl : s.fibers ≠ [] → ∀ ft ∈ l, s.Runnable ft → s.Pending ∨ s.Watched ft.thread) :
    ({ s with toTasks := t }.owe need caller).Heard := by
  have hpending : s.Pending → ({ s with toTasks := t }.owe need caller).Pending := by
    intro hp
    have hp' : ({ s with toTasks := t } : Scheduler W).Pending := by
      unfold Pending Owed at hp ⊢
      rwa [← hpoint] at hp
    exact hp'.owe need caller
  refine h.push (by simpa using hstate) (by simpa using hpoint) hpending ?_ ?_
  · intro ft hft hr
    rw [owe_toTasks, ht] at hft
    rcases List.mem_append.mp hft with hft | hft
    · exact .inl hft
    · right
      by_cases hempty : s.fibers = []
      · rw [hneed hempty (List.ne_nil_of_mem hft)]
        exact .inl (pending_owe _ _)
      · have hr : s.Runnable ft := by
          unfold Runnable Tasks.executing at hr ⊢
          rwa [owe_toTasks, hstate] at hr
        exact (hl hempty ft hft hr).imp_left hpending
  · intro w ft hft
    rw [owe_toTasks, hlocal] at hft
    exact .inl hft

theorem Heard.schedule (h : s.Heard) {task : Task} {thread : Option W}
    (hcall : s.callable caller = true) (htimely : s.Timely (.schedule caller task thread)) :
    (s.schedule caller task thread).Heard := by
  have hcommon : (∀ w, caller = some w → thread ≠ some w) →
      ({ s with toTasks := s.scheduleNoLock task thread }.owe s.fibers.isEmpty caller).Heard := by
    intro hne
    refine h.pushCommon (l := [⟨s.count, task, thread⟩]) rfl rfl rfl rfl (fun hempty _ => by rw [hempty]; rfl) ?_
    intro hfibers ft hft hr
    rw [List.mem_singleton.mp hft] at hr ⊢
    rcases htimely hfibers with ⟨w, hc, ht⟩ | hexec | hseen
    · exact absurd ht (hne w hc)
    · exact absurd (hr.symm.trans hexec) (by simp)
    · exact hseen
  unfold Scheduler.schedule
  split
  next w =>
    split
    next hthread =>
      refine h.push rfl rfl (fun hp => hp) (fun ft hft _ => .inl hft) ?_
      intro w' ft hft
      by_cases hw : w' = w
      · subst hw
        right
        have hcall : (!s.calling w' && _) = true := hcall
        have hp := (Bool.and_eq_true_iff.mp hcall).2
        cases hpt : s.point w' <;> rw [hpt] at hp <;> first | rfl | cases hp
      · left
        have hft : ft ∈ Function.update s.localFibers w (s.localFibers w ++ [⟨s.count, task, some w⟩]) w' := hft
        rwa [Function.update_of_ne hw] at hft
    next hthread => exact hcommon fun w' hw' => by cases hw'; exact hthread
  next => exact hcommon (by simp)

omit [DecidableEq W] in
theorem foldl_scheduleNoLock (t : Tasks W) (tasks : List Task) :
    ∃ l, (tasks.foldl (fun s task => s.scheduleNoLock task none) t).fibers = t.fibers ++ l ∧
      (∀ ft ∈ l, ft.thread = none) ∧ (tasks = [] → l = []) ∧
      (tasks.foldl (fun s task => s.scheduleNoLock task none) t).localFibers = t.localFibers ∧
      (tasks.foldl (fun s task => s.scheduleNoLock task none) t).state = t.state ∧
      (tasks.foldl (fun s task => s.scheduleNoLock task none) t).point = t.point := by
  induction tasks generalizing t with
  | nil => exact ⟨[], by simp, by simp, by simp, rfl, rfl, rfl⟩
  | cons task tasks ih =>
    obtain ⟨l, hfibers, hthread, -, hlocal, hstate, hpoint⟩ := ih (t.scheduleNoLock task none)
    refine ⟨⟨t.count, task, none⟩ :: l, ?_, ?_, by simp, hlocal, hstate, hpoint⟩
    · rw [List.foldl_cons, hfibers]
      exact List.append_assoc ..
    · intro ft hft
      rcases List.mem_cons.mp hft with rfl | hft
      · rfl
      · exact hthread ft hft

theorem Heard.scheduleAll (h : s.Heard) {tasks : List Task}
    (htimely : s.Timely (.scheduleAll caller tasks)) : (s.scheduleAll caller tasks).Heard := by
  obtain ⟨l, hfibers, hthread, hnil, hlocal, hstate, hpoint⟩ := foldl_scheduleNoLock s.toTasks tasks
  refine h.pushCommon hfibers hlocal hstate hpoint ?_ ?_
  · intro hempty hl
    have htasks : tasks ≠ [] := fun heq => hl (hnil heq)
    rw [hempty]
    simpa using htasks
  · intro hne ft hft _
    rw [hthread ft hft]
    exact htimely hne

/-! ### Steps of a worker -/

/-- A worker goes on.  What it does not look at any more is executing. -/
theorem Heard.pass (h : s.Heard)
    (hlook : (s.point w).toLook = true → p.toLook = true ∨ ∀ ft ∈ s.fibers, MayRun ft.thread w → ¬ s.Runnable ft)
    (hown : (s.point w).toLookLocal = true → p.toLookLocal = true ∨ ∀ ft ∈ s.localFibers w, ¬ s.Runnable ft)
    (hexit : s.point w ≠ .exited) (htickles : (s.point w).tickles = true → p.tickles = true)
    (ht : s'.toTasks = s.goto w p) (houtside : s'.outside = s.outside) (hcalling : s'.calling = s.calling)
    (hbytes : s'.bytes = s.bytes) : s'.Heard := by
  have hpoint : s'.point = Function.update s.point w p := by rw [ht]; rfl
  have hpending : s.Pending → s'.Pending := fun hp => hp.moved hpoint htickles houtside hcalling hbytes
  have hgone : ∀ w', s.point w' = .exited → s'.point w' = .exited := by
    intro w' hw'
    rw [hpoint]
    grind
  constructor
  · intro ft hft hr
    unfold Runnable at hr
    rw [ht] at hft hr
    rcases h.common ft hft hr with hp | ⟨w', hmay, hw'⟩ | hall
    · exact .inl (hpending hp)
    · refine .inr (.inl ⟨w', hmay, ?_⟩)
      rw [hpoint]
      by_cases hw : w' = w
      · subst hw
        rw [Function.update_self]
        exact (hlook hw').resolve_right fun hnone => hnone ft hft hmay hr
      · rwa [Function.update_of_ne hw]
    · exact .inr (.inr fun w' hmay => hgone w' (hall w' hmay))
  · intro w' ft hft hr
    unfold Runnable at hr
    rw [ht] at hft hr
    rcases h.own w' ft hft hr with hp | hw' | hex
    · exact .inl (hpending hp)
    · refine .inr (.inl ?_)
      rw [hpoint]
      by_cases hw : w' = w
      · subst hw
        rw [Function.update_self]
        exact (hown hw').resolve_right fun hnone => hnone ft hft hr
      · rwa [Function.update_of_ne hw]
    · exact .inr (.inr (hgone w' hex))

variable {ft : FiberAndThread W}

omit [DecidableEq W] in
theorem takeFirst_subset {skip : FiberAndThread W → Bool} {l before after : List (FiberAndThread W)}
    (h : Tasks.takeFirst skip l = some (ft, before, after)) : ∀ x ∈ before ++ after, x ∈ l := by
  obtain ⟨hl, -, -⟩ := Tasks.takeFirst_some h
  intro x hx
  rw [hl]
  simp only [List.mem_append, List.mem_cons] at hx ⊢
  tauto

theorem Heard.take (h : s.Heard) {l q : List (FiberAndThread W)} {tickleMe : Bool}
    (hp : s.point w = .top ∨ s.point w = .look) (hq : ∀ x ∈ q, x ∈ s.fibers) (hl : ∀ x ∈ l, x ∈ s.localFibers w) :
    Heard { s with toTasks := s.take w q l tickleMe ft } := by
  have htickles : (s.point w).tickles = false := by rcases hp with hp | hp <;> rw [hp] <;> rfl
  have hexit : s.point w ≠ .exited := by rcases hp with hp | hp <;> rw [hp] <;> simp
  refine Covered.moved h rfl (fun x hx hr => ⟨hq x hx, hr⟩) ?_ (fun _ => rfl) (fun _ => rfl) hexit
    fun hpending => hpending.moved rfl (by rw [htickles]; simp) rfl rfl rfl
  intro w' x hx hr
  refine ⟨?_, hr⟩
  have hx : x ∈ Function.update s.localFibers w l w' := hx
  by_cases hw : w' = w
  · subst hw
    rw [Function.update_self] at hx
    exact hl x hx
  · rwa [Function.update_of_ne hw] at hx

theorem Heard.fetchLocalTask (h : s.Heard) (hp : s.point w = .top) :
    Heard { s with toTasks := s.fetchLocalTask w } := by
  unfold Tasks.fetchLocalTask
  split
  next hnone =>
    refine h.pass (fun _ => .inl rfl) (fun _ => .inr ?_) (by simp [hp]) (by simp [hp, Point.tickles]) rfl rfl rfl rfl
    intro ft hft hr
    exact absurd (hr.symm.trans (Tasks.takeFirst_none hnone ft hft)) (by simp)
  next ft before after htake => exact h.take (.inl hp) (fun _ hx => hx) (takeFirst_subset htake)

theorem Heard.fetchTask (h : s.Heard) (hp : s.point w = .look) : Heard { s with toTasks := s.fetchTask w } := by
  unfold Tasks.fetchTask
  split
  next hnone =>
    refine h.pass (fun _ => .inr ?_) (by simp [hp, Point.toLookLocal]) (by simp [hp]) (by simp [hp, Point.tickles])
      rfl rfl rfl rfl
    intro ft hft hmay hr
    have hskip := Tasks.takeFirst_none hnone ft hft
    have hforeign : Tasks.foreign w ft = false := by
      unfold Tasks.foreign
      rcases hmay with hmay | hmay <;> simp [hmay]
    rw [hforeign, Bool.false_or] at hskip
    exact absurd (hr.symm.trans hskip) (by simp)
  next ft before after htake => exact h.take (.inr hp) (takeFirst_subset htake) fun _ hx => hx

omit [DecidableEq W] in
theorem Heard.tickle (htimely : s.idle ≤ 0 → s.Covered s.Runnable False)
    (hbytes : s'.bytes = s.tickle.bytes) (ht : s'.toTasks = t) (hfibers : t.fibers = s.fibers)
    (hlocal : t.localFibers = s.localFibers) (hstate : t.state = s.state)
    (hlook : ∀ w, (s.point w).toLook = true → (t.point w).toLook = true)
    (hown : ∀ w, (s.point w).toLookLocal = true → (t.point w).toLookLocal = true)
    (hexit : ∀ w, s.point w = .exited → t.point w = .exited) : s'.Heard := by
  by_cases hidle : 0 < s.idle
  · refine Covered.of_pending (.inl ?_)
    rw [hbytes, Scheduler.tickle, if_pos hidle]
    exact Nat.succ_pos _
  · have hcovered := htimely (Int.not_lt.mp hidle)
    subst ht
    refine hcovered.mono ?_ ?_ hlook hown hexit False.elim
    · intro ft hft hr
      unfold Runnable Tasks.executing at hr ⊢
      rw [hstate] at hr
      exact ⟨hfibers ▸ hft, hr⟩
    · intro w ft hft hr
      unfold Runnable Tasks.executing at hr ⊢
      rw [hstate] at hr
      exact ⟨hlocal ▸ hft, hr⟩

/-- A worker goes on to look again.  The entries that it makes runnable are seen to, and what it queues is in its
own list. -/
theorem Heard.again (h : s.Heard) (hP : s.Covered P s.Pending)
    (hrun : ∀ ft, t.executing ft.task = false → s.Runnable ft ∨ P ft)
    (hexit : s.point w ≠ .exited) (htickles : (s.point w).tickles = false) (hlook : p.toLook = true)
    (hown : p.toLookLocal = true) (hfibers : t.fibers = s.fibers)
    (hlocal : ∀ w' ≠ w, t.localFibers w' = s.localFibers w') (hpoint : t.point = Function.update s.point w p) :
    Heard { s with toTasks := t } := by
  have hseen : s.Covered (fun ft => s.Runnable ft ∨ P ft) s.Pending := Covered.or h hP
  have hpending : s.Pending → Scheduler.Pending { s with toTasks := t } :=
    fun hp => hp.moved hpoint (by rw [htickles]; simp) rfl rfl rfl
  have hpt : ∀ w', t.point w' = if w' = w then p else s.point w' := by
    intro w'
    rw [hpoint, Function.update_apply]
  constructor
  · intro ft hft hr
    have hft : ft ∈ s.fibers := hfibers ▸ hft
    rcases hseen.common ft hft (hrun ft hr) with hp | ⟨w', hmay, hw'⟩ | hall
    · exact .inl (hpending hp)
    · refine .inr (.inl ⟨w', hmay, ?_⟩)
      show (t.point w').toLook = true
      rw [hpt]
      split
      · exact hlook
      · exact hw'
    · refine .inr (.inr fun w' hmay => ?_)
      show t.point w' = .exited
      rw [hpt, if_neg fun heq : w' = w => hexit (heq ▸ hall w' hmay)]
      exact hall w' hmay
  · intro w' ft hft hr
    show _ ∨ (t.point w').toLookLocal = true ∨ t.point w' = .exited
    rw [hpt]
    by_cases hw : w' = w
    · rw [if_pos hw]
      exact .inr (.inl hown)
    · rw [if_neg hw]
      have hft : ft ∈ s.localFibers w' := hlocal w' hw ▸ hft
      exact (hseen.own w' ft hft (hrun ft hr)).imp_left hpending

omit [DecidableEq W] in
theorem runnable_of_update {f : Nat} {st : FiberState} (hstate : t.state = Function.update s.state f st)
    (ft : FiberAndThread W) (hr : t.executing ft.task = false) : s.Runnable ft ∨ ft.task = .fiber f := by
  unfold Runnable
  cases htask : ft.task with
  | cb => exact .inl rfl
  | fiber g =>
    rw [htask] at hr
    simp only [Tasks.executing, hstate, Function.update_apply] at hr ⊢
    grind

omit [DecidableEq W] in
theorem covered_false : s.Covered (fun _ => False) q := ⟨fun _ _ hf => hf.elim, fun _ _ _ hf => hf.elim⟩

omit [DecidableEq W] in
theorem runnable_of_exec {f : Nat} (hstate : t.state = Function.update s.state f .exec)
    (ft : FiberAndThread W) (hr : t.executing ft.task = false) : s.Runnable ft ∨ False := by
  refine .inl ?_
  rcases runnable_of_update hstate ft hr with hrun | htask
  · exact hrun
  · rw [htask] at hr
    simp [Tasks.executing, hstate] at hr

theorem Heard.runTask (h : s.Heard) (hp : s.point w = .taken ft) :
    Heard { s with toTasks := s.runTask w ft } := by
  have hexit : s.point w ≠ .exited := by simp [hp]
  have htickles : (s.point w).tickles = false := by rw [hp]; rfl
  unfold Tasks.runTask
  split
  next f _ =>
    split
    next => exact h.again covered_false (runnable_of_exec rfl) hexit htickles rfl rfl rfl (fun _ _ => rfl) rfl
    next => exact h.again covered_false (fun _ hr => .inl hr) hexit htickles rfl rfl rfl (fun _ _ => rfl) rfl
  next =>
    split
    next c _ =>
      refine h.again covered_false (runnable_of_exec (f := c) ?_) hexit htickles rfl rfl rfl (fun _ _ => rfl) rfl
      exact Function.update_idem ..
    next => exact h.again covered_false (runnable_of_exec rfl) hexit htickles rfl rfl rfl (fun _ _ => rfl) rfl

theorem Heard.settle (h : s.Heard) {f : Nat} {b : Bool} (hp : s.point w = .settle f b)
    (htimely : s.Covered (fun ft => ft.task = .fiber f) s.Pending) : Heard { s with toTasks := s.toTasks.settle w f b } := by
  have hexit : s.point w ≠ .exited := by simp [hp]
  have htickles : (s.point w).tickles = false := by rw [hp]; rfl
  have hlocal : ∀ w' ≠ w, (s.scheduleLocal w (.fiber f)).localFibers w' = s.localFibers w' :=
    fun w' hw => Function.update_of_ne hw ..
  cases b with
  | false =>
    show Heard { s with toTasks := ite _ _ _ }
    split
    next => exact h.again covered_false (fun _ hr => .inl hr) hexit htickles rfl rfl rfl hlocal rfl
    next =>
      split
      next => exact h.again htimely (runnable_of_update rfl) hexit htickles rfl rfl rfl (fun _ _ => rfl) rfl
      next => exact h.again covered_false (fun _ hr => .inl hr) hexit htickles rfl rfl rfl (fun _ _ => rfl) rfl
  | true =>
    show Heard { s with toTasks := ite _ _ _ }
    split
    next => exact h.again covered_false (fun _ hr => .inl hr) hexit htickles rfl rfl rfl hlocal rfl
    next =>
      split
      next => exact h.again htimely (runnable_of_update rfl) hexit htickles rfl rfl rfl (fun _ _ => rfl) rfl
      next => exact h.again htimely (runnable_of_update rfl) hexit htickles rfl rfl rfl (fun _ _ => rfl) rfl

theorem Heard.blind (h : s.Heard) (hlook : (s.point w).toLook = false) (hexit : s.point w ≠ .exited)
    (htickles : (s.point w).tickles = false) (ht : s'.toTasks = s.goto w p) (houtside : s'.outside = s.outside)
    (hcalling : s'.calling = s.calling) (hbytes : s'.bytes = s.bytes) : s'.Heard := by
  have hown : (s.point w).toLookLocal = false := by
    unfold Point.toLookLocal
    split
    · rfl
    · exact hlook
  exact h.pass (by rw [hlook]; simp) (by rw [hown]; simp) hexit (by rw [htickles]; simp) ht houtside hcalling hbytes

theorem Heard.stepWorker (h : s.Heard) (htimely : s.Timely (.step w)) (hstep : s.stepWorker w = some s') : s'.Heard := by
  simp only [Timely, TimelyAt] at htimely
  unfold Scheduler.stepWorker at hstep
  split at hstep
  next hp => cases hstep; exact h.fetchLocalTask hp
  next hp => cases hstep; exact h.fetchTask hp
  next tickleMe ft hp =>
    have hgo : ∀ p', p'.toLook = (s.point w).toLook → p'.toLookLocal = (s.point w).toLookLocal →
        Heard { (if tickleMe then s.tickle else s) with toTasks := (if tickleMe then s.tickle else s).goto w p' } := by
      intro p' hlook hown
      cases tickleMe with
      | false =>
        exact h.pass (fun hl => .inl (hlook.trans hl)) (fun hl => .inl (hown.trans hl)) (by simp [hp])
          (by simp [hp, Point.tickles]) rfl rfl rfl rfl
      | true =>
        have hpt : ∀ w', (s.goto w p').point w' = if w' = w then p' else s.point w' := fun w' => Function.update_apply ..
        rw [hp] at htimely
        refine Heard.tickle (t := s.goto w p') htimely rfl (by simp) rfl rfl rfl ?_ ?_ ?_
        · grind
        · grind
        · grind
    cases ft with
    | some ft => cases hstep; exact hgo (.taken ft) (by rw [hp]; rfl) (by rw [hp]; rfl)
    | none => cases hstep; exact hgo .empty (by rw [hp]; rfl) (by rw [hp]; rfl)
  next ft hp => cases hstep; exact h.runTask hp
  next f b hp =>
    cases hstep
    exact h.again covered_false (fun _ hr => .inl hr) (by simp [hp]) (by rw [hp]; rfl) rfl rfl rfl (fun _ _ => rfl) rfl
  next f b hp => cases hstep; rw [hp] at htimely; exact h.settle hp htimely
  next hp =>
    split at hstep
    next => cases hstep; exact h.blind (by rw [hp]; rfl) (by simp [hp]) (by rw [hp]; rfl) rfl rfl rfl rfl
    next => cases hstep; exact h.blind (by rw [hp]; rfl) (by simp [hp]) (by rw [hp]; rfl) rfl rfl rfl rfl
  next hp =>
    -- The drain takes the bytes away, so only what is owed counts.
    cases hstep
    rw [hp] at htimely
    refine Covered.moved (p := .handling false) htimely rfl (fun ft hft hr => ⟨hft, hr⟩) (fun w ft hft hr => ⟨hft, hr⟩)
      (fun _ => rfl) (fun _ => rfl) (by simp [hp]) fun howed => .inr ?_
    exact howed.moved rfl (by simp [hp, Point.tickles]) rfl rfl
  next hp =>
    cases hstep
    exact h.again covered_false (fun _ hr => .inl hr) (by simp [hp]) (by rw [hp]; rfl) rfl rfl rfl (fun _ _ => rfl) rfl
  next hp =>
    cases hstep
    exact h.pass (fun _ => .inl rfl) (fun _ => .inl rfl) (by simp [hp]) (by simp [hp, Point.tickles]) rfl rfl rfl rfl
  next => cases hstep
  next => cases hstep
  next => cases hstep
  next => cases hstep

theorem Heard.step [Fintype W] {e : Event W} (h : s.Heard) (htimely : s.Timely e) (hstep : s.step e = some s') :
    s'.Heard := by
  cases e with
  | newFiber => cases hstep; exact ⟨h.common, h.own⟩
  | schedule caller task thread =>
    obtain ⟨hcall, hstep⟩ := Option.ite_none_right_eq_some.mp hstep
    cases hstep
    exact h.schedule hcall htimely
  | scheduleAll caller tasks =>
    obtain ⟨-, hstep⟩ := Option.ite_none_right_eq_some.mp hstep
    cases hstep
    exact h.scheduleAll htimely
  | tickle caller =>
    have hsame : s'.toTasks = s.toTasks ∧ s'.bytes = s.tickle.bytes := by
      cases caller with
      | none =>
        obtain ⟨-, hstep⟩ := Option.ite_none_right_eq_some.mp hstep
        cases hstep
        exact ⟨tickle_toTasks s, rfl⟩
      | some w =>
        obtain ⟨-, hstep⟩ := Option.ite_none_right_eq_some.mp hstep
        cases hstep
        exact ⟨tickle_toTasks s, rfl⟩
    exact Heard.tickle htimely hsame.2 hsame.1 rfl rfl rfl (fun _ hl => hl) (fun _ hl => hl) fun _ hx => hx
  | stop =>
    cases hstep
    refine Covered.mono h (fun ft hft hr => ⟨hft, hr⟩) (fun w ft hft hr => ⟨hft, hr⟩) (fun _ hl => hl) (fun _ hl => hl)
      (fun _ hx => hx) ?_
    rintro (hb | ho | howed)
    · exact .inl hb
    · exact .inr (.inl (Nat.lt_of_lt_of_le ho (Nat.le_add_right ..)))
    · exact .inr (.inr howed)
  | leave w outcome =>
    simp only [Scheduler.step] at hstep
    split at hstep
    next f b hp =>
      obtain ⟨-, hstep⟩ := Option.ite_none_left_eq_some.mp hstep
      cases hstep
      have hexit : s.point w ≠ .exited := by simp [hp]
      have htickles : (s.point w).tickles = false := by rw [hp]; rfl
      rcases htimely with rfl | htimely
      · exact h.again covered_false (runnable_of_exec rfl) hexit htickles rfl rfl rfl (fun _ _ => rfl) rfl
      · have hf := htimely (f, b) (by rw [hp]; rfl)
        exact h.again hf (runnable_of_update rfl) hexit htickles rfl rfl rfl (fun _ _ => rfl) rfl
    next => cases hstep
  | stopping w quiet =>
    obtain ⟨hp, hstep⟩ := Option.ite_none_right_eq_some.mp hstep
    split at hstep
    next => cases hstep; exact h.blind (by rw [hp]; rfl) (by simp [hp]) (by rw [hp]; rfl) rfl rfl rfl rfl
    next => cases hstep; exact h.blind (by rw [hp]; rfl) (by simp [hp]) (by rw [hp]; rfl) rfl rfl rfl rfl
  | epollWait w tickled =>
    obtain ⟨⟨hp, -⟩, hstep⟩ := Option.ite_none_right_eq_some.mp hstep
    cases hstep
    exact h.blind (by rw [hp]; rfl) (by simp [hp]) (by rw [hp]; rfl) rfl rfl rfl rfl
  | step w =>
    obtain ⟨-, hstep⟩ := Option.ite_none_left_eq_some.mp hstep
    exact h.stepWorker htimely hstep

/-! ## Top theorem -/

variable [Fintype W]

theorem Heard.run (es : List (Event W)) (h : s.Heard) (htimely : s.Along Timely es) (hrun : s.run es = some s') :
    s'.Heard := by
  induction es generalizing s with
  | nil => cases hrun; exact h
  | cons e es ih =>
    obtain ⟨s1, hstep, hrun⟩ := Option.bind_eq_some_iff.mp hrun
    exact ih (h.step htimely.1 hstep) (htimely.2 s1 hstep) hrun

theorem no_lost_wakeup (es : List (Event W)) (htimely : (new : Scheduler W).Along Timely es)
    (hrun : (new : Scheduler W).run es = some s) : ¬ s.Lost := by
  have hnew : (new : Scheduler W).Heard := ⟨by simp [new, Tasks.new], by simp [new, Tasks.new]⟩
  exact not_lost (hnew.run es htimely hrun)

/-- The worker waits, a callback is scheduled, and the byte is in the pipe. -/
theorem no_lost_wakeup_one : ∃ s : Scheduler (Fin 1),
    new.run [.step 0, .step 0, .step 0, .step 0, .stopping 0 true, .schedule none .cb none, .tickle none] = some s ∧
      s.fibers ≠ [] ∧ s.point 0 = .wait ∧ ¬ s.Lost := by
  have htimely : (new : Scheduler (Fin 1)).Along Timely [.step 0, .step 0, .step 0, .step 0, .stopping 0 true,
    .schedule none .cb none, .tickle none] := by decide
  exact ⟨_, rfl, by decide, by decide, no_lost_wakeup _ htimely rfl⟩

/-- The worker has looked and is not counted as idle yet when a callback is scheduled. -/
theorem wakeup_lost : ∃ s : Scheduler (Fin 1),
    new.run [.step 0, .step 0, .step 0, .schedule none .cb none, .tickle none, .step 0, .stopping 0 true] = some s ∧
      s.Lost :=
  ⟨_, rfl, by decide⟩

end Scheduler

end Core
