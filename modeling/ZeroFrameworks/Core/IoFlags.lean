import ZeroFrameworks.Core.IoEvents

/-!
# Why a waiter was resumed

A waiter passes the address of an int, which lies in its own frame: zero is to tell it that its event came, any
other value that it was cancelled or timed out.  `checkIoExpired` collects the addresses of the expired waiters
under the locks, writes to them without a lock, and then cancels the events.

    every step Undisturbed → every step Attributed   (attributed_run)
-/

namespace Core

namespace IOManager

variable {C : Type} [DecidableEq C]

/-! ## Algorithm -/

inductive Cause where
  | event | cancel
deriving DecidableEq

/-- `iom.expired` are the events that `checkIoExpired` has collected, and `timedOut` those to whose flags it has
written since.  `flagOf` and `deadline` are what the waiters asked for, `cause` says what resumed them, and `awake`
are those that have run again and looked at their flags. -/
structure Waits (C : Type) where
  iom : IOManager C
  now : Nat
  flagOf : Nat → Nat
  deadline : Nat → Option Nat
  timedOut : List ((C × IoEvent) × Option Nat)
  cause : Nat → Option Cause
  awake : List Nat

inductive WaitOp (C : Type) where
  | tick (ms : Nat)
  /-- `do_io` clears its flag and registers. -/
  | addEvent (k : C × IoEvent) (timeout : Option Nat) (flag : Nat) (ok : Bool)
  | cancelEvent (k : C × IoEvent) (ok : Bool)
  | cancelAll (c : C) (ok : Bool)
  | fetch (r : EpollResult C)
  | handle (r : EpollResult C) (ok : Bool)
  | collect (k : C × IoEvent)
  | timeOut (item : (C × IoEvent) × Option Nat)
  | cancelExpired (item : (C × IoEvent) × Option Nat) (ok : Bool)
  /-- A resumed waiter runs, and looks at its flag. -/
  | wake (w : Nat)

namespace Waits

def new : Waits C := ⟨.new, 0, fun _ => 0, fun _ => none, [], fun _ => none, []⟩

/-- A flag lies in the frame of a waiter until that has run. -/
def InUse (s : Waits C) (flag : Nat) : Prop := ∃ w < s.iom.count, w ∉ s.awake ∧ s.flagOf w = flag

instance (s : Waits C) (flag : Nat) : Decidable (s.InUse flag) :=
  inferInstanceAs (Decidable (∃ w < s.iom.count, w ∉ s.awake ∧ s.flagOf w = flag))

/-- What has been resumed on the way to `iom` was resumed for the reason `c`. -/
def resumeBy (c : Cause) (iom : IOManager C) (s : Waits C) : Waits C :=
  { s with
    iom := iom
    cause := fun w => if w ∈ iom.resumed ∧ w ∉ s.iom.resumed then some c else s.cause w }

def writeFlag (flag : Option Nat) (value : Nat) (s : IOManager C) : IOManager C :=
  match flag with
  | some a => { s with flags := Function.update s.flags a value }
  | none => s

def step (s : Waits C) (op : WaitOp C) : Option (Waits C) :=
  if s.iom.aborted then none
  else match op with
    | .tick ms => some { s with now := s.now + ms }
    | .addEvent k timeout flag ok =>
      if s.InUse flag then none
      else ((writeFlag (some flag) 0 s.iom).addEvent k s.now timeout (some flag) ok).map fun iom =>
        { s with
          iom := iom
          flagOf := Function.update s.flagOf s.iom.count flag
          deadline := Function.update s.deadline s.iom.count (timeout.map (s.now + ·)) }
    | .cancelEvent k ok => some (s.resumeBy .cancel (s.iom.cancelEvent k ok))
    | .cancelAll c ok => some (s.resumeBy .cancel (s.iom.cancelAll c ok))
    | .fetch r => if s.iom.fetchable r then some { s with iom := { s.iom with fetched := r :: s.iom.fetched } } else none
    | .handle r ok =>
      if r ∈ s.iom.fetched then
        let iom := { s.iom with fetched := s.iom.fetched.erase r }
        some (s.resumeBy .event (iom.handle r ok))
      else none
    | .collect k =>
      if s.iom.events k ∧ (s.iom.context k).expireAt ≠ 0 ∧ (s.iom.context k).expireAt ≤ s.now then
        some { s with iom := { s.iom with expired := (k, (s.iom.context k).cancelFlag) :: s.iom.expired } }
      else none
    | .timeOut item =>
      if item ∈ s.iom.expired then
        let iom := { s.iom with expired := s.iom.expired.erase item }
        some { s with iom := writeFlag item.2 etimedout iom, timedOut := item :: s.timedOut }
      else none
    | .cancelExpired item ok =>
      if item ∈ s.timedOut then
        some ({ s with timedOut := s.timedOut.erase item }.resumeBy .cancel (s.iom.cancelEvent item.1 ok))
      else none
    | .wake w => if w ∈ s.iom.resumed ∧ w ∉ s.awake then some { s with awake := w :: s.awake } else none

/-! ## Specification -/

/-- Waiter `w` is registered for event `k`. -/
def At (s : Waits C) (k : C × IoEvent) (w : Nat) : Prop :=
  s.iom.events k = true ∧ (s.iom.context k).waiter = some w

/-- What the flag says to a waiter that was resumed for the reason `c`. -/
def Says (c : Cause) (value : Nat) : Prop :=
  match c with
  | .event => value = 0
  | .cancel => value ≠ 0

/-- A waiter learns why it was resumed, and a timeout is written for waiters only that are registered and late. -/
def Attributed (s : Waits C) : WaitOp C → Prop
  | .wake w => ∃ c ∈ s.cause w, Says c (s.iom.flags (s.flagOf w))
  | .timeOut item => ∀ a ∈ item.2, ∃ k w, s.At k w ∧ s.flagOf w = a ∧ ∃ d ∈ s.deadline w, d ≤ s.now
  | _ => True

/-- `checkIoExpired` has collected the event and not cancelled it yet. -/
def InHand (s : Waits C) (k : C × IoEvent) : Prop := ∃ item ∈ s.iom.expired ++ s.timedOut, item.1 = k

/-- Who is cancelled has a deadline, deadlines do not overflow, and an event that `checkIoExpired` has in hand is
resumed by nothing else. -/
def Undisturbed (s : Waits C) : WaitOp C → Prop
  | .addEvent _ timeout _ _ => ∀ ms ∈ timeout, s.now + ms < 2 ^ 64
  | .cancelEvent k ok => s.iom.events k = true → ok = true → (s.iom.context k).expireAt ≠ 0 ∧ ¬ s.InHand k
  | .cancelAll c ok => ∀ e, s.iom.events (c, e) = true → ok = true →
      (s.iom.context (c, e)).expireAt ≠ 0 ∧ ¬ s.InHand (c, e)
  | .handle r ok => ∀ e, s.iom.realEvents r e = true → ok = true → ¬ s.InHand (r.ctx, e)
  | .cancelExpired item ok => ok = true ∧ ∀ other ∈ s.iom.expired ++ s.timedOut.erase item, other.1 ≠ item.1
  | _ => True

/-- `P` holds of every step that a run takes. -/
def Along (P : Waits C → WaitOp C → Prop) (s : Waits C) : List (WaitOp C) → Prop
  | [] => True
  | op :: ops => ∀ s' ∈ s.step op, P s op ∧ s'.Along P ops

/-! ## Lemmas -/

/-- Flags of registered waiters are zero until `checkIoExpired` writes to them, and those of resumed waiters are
right until they have run. -/
structure Sound (s : Waits C) : Prop where
  asserted : s.iom.aborted = false
  occupied : ∀ k, s.iom.events k = true → ∃ w, (s.iom.context k).waiter = some w
  waiting : ∀ k w, s.At k w → w < s.iom.count ∧ w ∉ s.iom.resumed
  asked : ∀ k w, s.At k w → (s.iom.context k).cancelFlag = none ∧ (s.iom.context k).expireAt = 0 ∨
    (s.iom.context k).cancelFlag = some (s.flagOf w) ∧ s.deadline w = some (s.iom.context k).expireAt
  apart : ∀ k k' w, s.At k w → s.At k' w → k = k'
  resumed : ∀ w ∈ s.iom.resumed, w < s.iom.count
  awake : ∀ w ∈ s.awake, w ∈ s.iom.resumed
  frames : ∀ w w', w < s.iom.count → w' < s.iom.count → w ∉ s.awake → w' ∉ s.awake → s.flagOf w = s.flagOf w' → w = w'
  items : ∀ item ∈ s.iom.expired ++ s.timedOut, s.iom.events item.1 = true ∧
    item.2 = (s.iom.context item.1).cancelFlag ∧ (s.iom.context item.1).expireAt ≠ 0 ∧
      (s.iom.context item.1).expireAt ≤ s.now
  clear : ∀ k w, s.At k w → (∀ item ∈ s.timedOut, item.1 ≠ k) → s.iom.flags (s.flagOf w) = 0
  marked : ∀ item ∈ s.timedOut, ∀ w, s.At item.1 w → s.iom.flags (s.flagOf w) ≠ 0
  told : ∀ w ∈ s.iom.resumed, w ∉ s.awake → ∃ c ∈ s.cause w, Says c (s.iom.flags (s.flagOf w))

variable {s s' : Waits C} {k : C × IoEvent} {w : Nat}

omit [DecidableEq C] in
theorem sound_new : (new : Waits C).Sound := by
  refine ⟨rfl, ?_, ?_, ?_, ?_, ?_, ?_, ?_, ?_, ?_, ?_, ?_⟩
  · intro k hk
    cases hk
  · intro k w h
    cases h.1
  · intro k w h
    cases h.1
  · intro k k' w h
    cases h.1
  · intro w hw
    cases hw
  · intro w hw
    cases hw
  · intro w w' hw
    cases hw
  · intro item hi
    cases hi
  · intro k w h
    cases h.1
  · intro item hi
    cases hi
  · intro w hw
    cases hw

/-! ### An event is over -/

omit [DecidableEq C] in
theorem onIoWaitAdded_frame (iom : IOManager C) (expireAt : Nat) :
    ∃ next dirty, iom.onIoWaitAdded expireAt = { iom with nextIoExpire := next, ioExpireDirty := dirty } := by
  unfold onIoWaitAdded
  split
  · exact ⟨_, _, rfl⟩
  · split
    · exact ⟨_, _, rfl⟩
    · exact ⟨_, _, rfl⟩

omit [DecidableEq C] in
theorem setFlag_frame (iom : IOManager C) (flag : Option Nat) :
    iom.setFlag flag = { iom with flags := (iom.setFlag flag).flags } := by
  unfold setFlag
  split
  · split
    · rfl
    · rfl
  · rfl

/-- A registered event is over, and its waiter is resumed. -/
theorem finish_frame {iom : IOManager C} (hk : iom.events k = true) (hab : iom.aborted = false) (cancelled : Bool) :
    ∃ pending, iom.finish cancelled k = { iom with
      events := Function.update iom.events k false
      context := Function.update iom.context k ⟨none, 0, none⟩
      flags := if cancelled then (iom.setFlag (iom.context k).cancelFlag).flags else iom.flags
      resumed := (iom.context k).waiter.toList ++ iom.resumed
      pendingEventCount := pending
      ioExpireDirty := iom.ioExpireDirty ||
        decide ((iom.context k).expireAt ≠ 0 ∧ iom.nextIoExpire = (iom.context k).expireAt) } := by
  have hclear : iom.clear cancelled k = { iom with
      flags := if cancelled then (iom.setFlag (iom.context k).cancelFlag).flags else iom.flags
      context := Function.update iom.context k { iom.context k with expireAt := 0, cancelFlag := none } } := by
    unfold IOManager.clear setContext
    cases cancelled with
    | false => rfl
    | true =>
      rw [if_pos rfl, setFlag_frame]
      rfl
  unfold finish triggerEvent
  rw [hclear]
  dsimp only [setContext, setEvent]
  rw [if_pos hk]
  dsimp only
  rw [if_neg (by rw [hab]; simp)]
  refine ⟨iom.pendingEventCount - 1, ?_⟩
  rw [onIoWaitRemoved_frame, Function.update_idem, Function.update_self]

omit [DecidableEq C] in
theorem flags_setFlag (h : s.Sound) {w' : Nat} (hat : s.At k w) (hw' : w' < s.iom.count) (hawake : w' ∉ s.awake)
    (hne : w' ≠ w) :
    (s.iom.setFlag (s.iom.context k).cancelFlag).flags (s.flagOf w') = s.iom.flags (s.flagOf w') := by
  rcases h.asked k w hat with ⟨hnone, -⟩ | ⟨hsome, -⟩
  · rw [hnone]
    rfl
  · rw [hsome]
    unfold setFlag
    dsimp only
    split
    · refine Function.update_of_ne (fun heq => hne ?_) _ _
      obtain ⟨hlt, hnot⟩ := h.waiting k w hat
      exact h.frames w' w hw' hlt hawake (fun hm => hnot (h.awake w hm)) heq
    · rfl

/-- An event that `checkIoExpired` does not have in hand is over. -/
theorem Sound.finish (h : s.Sound) (hk : s.iom.events k = true) {cancelled : Bool} {c : Cause}
    {timedOut : List ((C × IoEvent) × Option Nat)} (hsub : ∀ item ∈ timedOut, item ∈ s.timedOut)
    (hkeep : ∀ item ∈ s.timedOut, item.1 ≠ k → item ∈ timedOut)
    (hno : ∀ item ∈ s.iom.expired ++ timedOut, item.1 ≠ k)
    (htold : ∀ w, s.At k w → Says c ((s.iom.finish cancelled k).flags (s.flagOf w))) :
    Sound ({ s with timedOut := timedOut }.resumeBy c (s.iom.finish cancelled k)) := by
  obtain ⟨w, hw⟩ := h.occupied k hk
  have hat : s.At k w := ⟨hk, hw⟩
  obtain ⟨hlt, hnot⟩ := h.waiting k w hat
  have htold' := htold w hat
  obtain ⟨pending, hfin⟩ := finish_frame hk h.asserted cancelled
  have hflags : ∀ w' < s.iom.count, w' ∉ s.awake → w' ≠ w →
      (s.iom.finish cancelled k).flags (s.flagOf w') = s.iom.flags (s.flagOf w') := by
    intro w' hw' hawake hne
    rw [hfin]
    cases cancelled with
    | false => rfl
    | true => exact flags_setFlag h hat hw' hawake hne
  have hevents : (s.iom.finish cancelled k).events = Function.update s.iom.events k false := by rw [hfin]
  have hcontext : (s.iom.finish cancelled k).context = Function.update s.iom.context k ⟨none, 0, none⟩ := by rw [hfin]
  have hresumed : (s.iom.finish cancelled k).resumed = w :: s.iom.resumed := by
    rw [hfin, hw]
    rfl
  have hcount : (s.iom.finish cancelled k).count = s.iom.count := by rw [hfin]
  have hexpired : (s.iom.finish cancelled k).expired = s.iom.expired := by rw [hfin]
  have haborted : (s.iom.finish cancelled k).aborted = false := by rw [hfin]; exact h.asserted
  generalize s.iom.finish cancelled k = iom at *
  -- the other registrations are as they were
  have hother : ∀ k' ≠ k, iom.events k' = s.iom.events k' ∧ iom.context k' = s.iom.context k' := by
    intro k' hne
    rw [hevents, hcontext, Function.update_of_ne hne, Function.update_of_ne hne]
    exact ⟨rfl, rfl⟩
  have hatof : ∀ k' w', iom.events k' = true → (iom.context k').waiter = some w' → k' ≠ k ∧ s.At k' w' := by
    intro k' w' he hc
    by_cases hne : k' = k
    · rw [hne, hevents, Function.update_self] at he
      cases he
    · obtain ⟨h1, h2⟩ := hother k' hne
      rw [h1] at he
      rw [h2] at hc
      exact ⟨hne, he, hc⟩
  have hnew : ∀ k' w', k' ≠ k → s.At k' w' → w' ≠ w := by
    intro k' w' hne hat' heq
    rw [heq] at hat'
    exact hne (h.apart k' k w hat' hat)
  refine ⟨haborted, ?_, ?_, ?_, ?_, ?_, ?_, ?_, ?_, ?_, ?_, ?_⟩
  · intro k' he
    by_cases hne : k' = k
    · have hoff : iom.events k' = false := by rw [hne, hevents, Function.update_self]
      rw [show iom.events k' = true from he] at hoff
      cases hoff
    · obtain ⟨h1, h2⟩ := hother k' hne
      show ∃ w, (iom.context k').waiter = some w
      rw [h2]
      exact h.occupied k' (by rw [← h1]; exact he)
  · rintro k' w' ⟨he, hc⟩
    obtain ⟨hne, hat'⟩ := hatof k' w' he hc
    obtain ⟨hlt', hnot'⟩ := h.waiting k' w' hat'
    show w' < iom.count ∧ w' ∉ iom.resumed
    rw [hcount, hresumed]
    exact ⟨hlt', fun hm => (List.mem_cons.mp hm).elim (hnew k' w' hne hat') hnot'⟩
  · rintro k' w' ⟨he, hc⟩
    obtain ⟨hne, hat'⟩ := hatof k' w' he hc
    show (iom.context k').cancelFlag = none ∧ (iom.context k').expireAt = 0 ∨
      (iom.context k').cancelFlag = some (s.flagOf w') ∧ s.deadline w' = some (iom.context k').expireAt
    rw [(hother k' hne).2]
    exact h.asked k' w' hat'
  · rintro k1 k2 w' ⟨he1, hc1⟩ ⟨he2, hc2⟩
    exact h.apart k1 k2 w' (hatof k1 w' he1 hc1).2 (hatof k2 w' he2 hc2).2
  · intro w' hw'
    have hm : w' ∈ iom.resumed := hw'
    show w' < iom.count
    rw [hcount]
    rw [hresumed] at hm
    rcases List.mem_cons.mp hm with rfl | hm
    · exact hlt
    · exact h.resumed w' hm
  · intro w' hw'
    show w' ∈ iom.resumed
    rw [hresumed]
    exact List.mem_cons_of_mem _ (h.awake w' hw')
  · intro w1 w2 h₁ h₂
    have h1' : w1 < iom.count := h₁
    have h2' : w2 < iom.count := h₂
    rw [hcount] at h1' h2'
    exact h.frames w1 w2 h1' h2'
  · intro item hi
    have hi' : item ∈ s.iom.expired ++ timedOut := by
      rw [← hexpired]
      exact hi
    have hne := hno item hi'
    have hold : item ∈ s.iom.expired ++ s.timedOut := by
      rcases List.mem_append.mp hi' with hm | hm
      · exact List.mem_append_left _ hm
      · exact List.mem_append_right _ (hsub item hm)
    show iom.events item.1 = true ∧ item.2 = (iom.context item.1).cancelFlag ∧ (iom.context item.1).expireAt ≠ 0 ∧
      (iom.context item.1).expireAt ≤ s.now
    rw [(hother item.1 hne).1, (hother item.1 hne).2]
    exact h.items item hold
  · rintro k' w' ⟨he, hc⟩ hclear
    obtain ⟨hne, hat'⟩ := hatof k' w' he hc
    obtain ⟨hlt', hnot'⟩ := h.waiting k' w' hat'
    show iom.flags (s.flagOf w') = 0
    rw [hflags w' hlt' (fun hm => hnot' (h.awake w' hm)) (hnew k' w' hne hat')]
    refine h.clear k' w' hat' fun item hi heq => ?_
    exact hclear item (hkeep item hi (by rw [heq]; exact hne)) heq
  · rintro item hi w' ⟨he, hc⟩
    obtain ⟨hne, hat'⟩ := hatof item.1 w' he hc
    obtain ⟨hlt', hnot'⟩ := h.waiting item.1 w' hat'
    show iom.flags (s.flagOf w') ≠ 0
    rw [hflags w' hlt' (fun hm => hnot' (h.awake w' hm)) (hnew item.1 w' hne hat')]
    exact h.marked item (hsub item hi) w' hat'
  · intro w' hw' hawake
    have hm : w' ∈ iom.resumed := hw'
    show ∃ c' ∈ if w' ∈ iom.resumed ∧ w' ∉ s.iom.resumed then some c else s.cause w', Says c' (iom.flags (s.flagOf w'))
    rw [hresumed] at hm ⊢
    rcases List.mem_cons.mp hm with rfl | hold
    · rw [if_pos ⟨hm, hnot⟩]
      exact ⟨c, rfl, htold'⟩
    · rw [if_neg (fun hc => hc.2 hold), hflags w' (h.resumed w' hold) hawake (fun heq => hnot (heq ▸ hold))]
      exact h.told w' hold hawake

/-! ### Calls -/

theorem says_cancel (h : s.Sound) (hk : s.iom.events k = true) (hexpire : (s.iom.context k).expireAt ≠ 0) (hat : s.At k w) :
    Says .cancel ((s.iom.finish true k).flags (s.flagOf w)) := by
  obtain ⟨pending, hfin⟩ := finish_frame hk h.asserted true
  rw [hfin]
  rcases h.asked k w hat with ⟨-, hzero⟩ | ⟨hsome, -⟩
  · exact absurd hzero hexpire
  · show (s.iom.setFlag (s.iom.context k).cancelFlag).flags (s.flagOf w) ≠ 0
    rw [hsome]
    unfold setFlag
    dsimp only
    split
    · show Function.update s.iom.flags (s.flagOf w) ecanceled (s.flagOf w) ≠ 0
      rw [Function.update_self]
      decide
    next hne => exact hne

theorem Sound.cancelOne (h : s.Sound) (hk : s.iom.events k = true) (hexpire : (s.iom.context k).expireAt ≠ 0)
    (hno : ¬ s.InHand k) : Sound (s.resumeBy .cancel (s.iom.finish true k)) :=
  h.finish hk (fun _ hi => hi) (fun _ hi _ => hi) (fun item hi heq => hno ⟨item, hi, heq⟩)
    fun _ hat => says_cancel h hk hexpire hat

theorem Sound.deliverOne (h : s.Sound) (hk : s.iom.events k = true) (hno : ¬ s.InHand k) :
    Sound (s.resumeBy .event (s.iom.finish false k)) := by
  refine h.finish hk (fun _ hi => hi) (fun _ hi _ => hi) (fun item hi heq => hno ⟨item, hi, heq⟩) fun w hat => ?_
  obtain ⟨pending, hfin⟩ := finish_frame hk h.asserted false
  rw [hfin]
  exact h.clear k w hat fun item hi heq => hno ⟨item, List.mem_append_right _ hi, heq⟩

omit [DecidableEq C] in
theorem resumeBy_resumeBy (c : Cause) {iom iom' : IOManager C} (h : ∀ w ∈ s.iom.resumed, w ∈ iom.resumed)
    (h' : ∀ w ∈ iom.resumed, w ∈ iom'.resumed) : (s.resumeBy c iom).resumeBy c iom' = s.resumeBy c iom' := by
  have hcause : ∀ w, (if w ∈ iom'.resumed ∧ w ∉ iom.resumed then some c
      else if w ∈ iom.resumed ∧ w ∉ s.iom.resumed then some c else s.cause w) =
      if w ∈ iom'.resumed ∧ w ∉ s.iom.resumed then some c else s.cause w := by
    intro w
    have h1 := h w
    have h2 := h' w
    split_ifs <;> tauto
  unfold resumeBy
  simp only [hcause]

theorem resumed_finish {iom : IOManager C} (hk : iom.events k = true) (hab : iom.aborted = false) (cancelled : Bool) :
    ∀ w ∈ iom.resumed, w ∈ (iom.finish cancelled k).resumed := by
  intro w hw
  obtain ⟨pending, hfin⟩ := finish_frame hk hab cancelled
  rw [hfin]
  exact List.mem_append_right _ hw

omit [DecidableEq C] in
theorem resumeBy_self (c : Cause) : s.resumeBy c s.iom = s := by
  have hcause : ∀ w, (if w ∈ s.iom.resumed ∧ w ∉ s.iom.resumed then some c else s.cause w) = s.cause w := by
    intro w
    rw [if_neg (fun h => h.2 h.1)]
  unfold resumeBy
  simp only [hcause]

variable {ok : Bool}

theorem Sound.cancelEvent (h : s.Sound) (hun : s.Undisturbed (.cancelEvent k ok)) :
    Sound (s.resumeBy .cancel (s.iom.cancelEvent k ok)) := by
  unfold IOManager.cancelEvent
  split
  next hc =>
    obtain ⟨hk, hok⟩ := Bool.and_eq_true_iff.mp hc
    obtain ⟨hexpire, hno⟩ := hun hk hok
    exact h.cancelOne hk hexpire hno
  next =>
    rw [resumeBy_self]
    exact h

theorem finish_other {iom : IOManager C} {k' : C × IoEvent} (hk : iom.events k = true) (hab : iom.aborted = false)
    (cancelled : Bool) (hne : k' ≠ k) :
    (iom.finish cancelled k).events k' = iom.events k' ∧ (iom.finish cancelled k).context k' = iom.context k' ∧
      (iom.finish cancelled k).expired = iom.expired := by
  obtain ⟨pending, hfin⟩ := finish_frame hk hab cancelled
  rw [hfin]
  exact ⟨Function.update_of_ne hne _ _, Function.update_of_ne hne _ _, rfl⟩

omit [DecidableEq C] in
theorem write_ne_read (c : C) : (c, IoEvent.write) ≠ (c, IoEvent.read) := fun heq => by cases heq

theorem Sound.cancelAll (h : s.Sound) {c : C} (hun : s.Undisturbed (.cancelAll c ok)) :
    Sound (s.resumeBy .cancel (s.iom.cancelAll c ok)) := by
  unfold IOManager.cancelAll
  split
  next hc =>
    obtain ⟨-, hok⟩ := Bool.and_eq_true_iff.mp hc
    dsimp only
    by_cases hread : s.iom.events (c, .read) = true
    · rw [if_pos hread]
      obtain ⟨hexpire, hno⟩ := hun .read hread hok
      have h₁ := h.cancelOne hread hexpire hno
      by_cases hwrite : s.iom.events (c, .write) = true
      · obtain ⟨hexpire', hno'⟩ := hun .write hwrite hok
        obtain ⟨he, hctx, hexp⟩ := finish_other hread h.asserted true (write_ne_read c)
        rw [if_pos (he.trans hwrite), ← resumeBy_resumeBy .cancel (resumed_finish hread h.asserted true)
          (resumed_finish (he.trans hwrite) h₁.asserted true)]
        refine h₁.cancelOne (he.trans hwrite) ?_ ?_
        · show ((s.iom.finish true (c, .read)).context (c, .write)).expireAt ≠ 0
          rw [hctx]
          exact hexpire'
        · rintro ⟨item, hi, heq⟩
          refine hno' ⟨item, ?_, heq⟩
          rw [← hexp]
          exact hi
      · have he := (finish_other hread h.asserted true (write_ne_read c)).1
        rw [if_neg (by rw [he]; exact hwrite)]
        exact h₁
    · rw [if_neg hread]
      split
      next hwrite =>
        obtain ⟨hexpire', hno'⟩ := hun .write hwrite hok
        exact h.cancelOne hwrite hexpire' hno'
      next =>
        rw [resumeBy_self]
        exact h
  next =>
    rw [resumeBy_self]
    exact h

theorem aborted_finish {iom : IOManager C} (hk : iom.events k = false) (cancelled : Bool) :
    (iom.finish cancelled k).aborted = true := by
  have hclear : (iom.clear cancelled k).events = iom.events := by
    unfold IOManager.clear
    cases cancelled with
    | false => rfl
    | true =>
      rw [if_pos rfl, setFlag_frame]
      rfl
  unfold finish triggerEvent
  rw [hclear, hk]
  rfl

/-- The assertion fails, or what was delivered was registered. -/
theorem Sound.handle (h : s.Sound) {r : EpollResult C} (hun : s.Undisturbed (.handle r ok)) :
    (s.iom.handle r ok).aborted = true ∨ Sound (s.resumeBy .event (s.iom.handle r ok)) := by
  unfold IOManager.handle
  dsimp only
  split
  next hsome =>
    by_cases hok : ok = true
    · rw [if_pos hok]
      by_cases hread : s.iom.realEvents r .read = true
      · rw [if_pos hread]
        by_cases hr : s.iom.events (r.ctx, .read) = true
        · have h₁ := h.deliverOne hr (hun .read hread hok)
          have hab : (s.iom.finish false (r.ctx, .read)).aborted = false := h₁.asserted
          rw [if_neg (by rw [hab]; simp)]
          by_cases hwrite : s.iom.realEvents r .write = true
          · rw [if_pos hwrite]
            obtain ⟨he, -, hexp⟩ := finish_other hr h.asserted false (write_ne_read r.ctx)
            by_cases hw : s.iom.events (r.ctx, .write) = true
            · right
              rw [← resumeBy_resumeBy .event (resumed_finish hr h.asserted false)
                (resumed_finish (he.trans hw) hab false)]
              refine h₁.deliverOne (he.trans hw) ?_
              rintro ⟨item, hi, heq⟩
              refine hun .write hwrite hok ⟨item, ?_, heq⟩
              rw [← hexp]
              exact hi
            · left
              exact aborted_finish (he.trans (Bool.not_eq_true _ ▸ hw)) false
          · rw [if_neg hwrite]
            exact .inr h₁
        · have hab := aborted_finish (Bool.not_eq_true _ ▸ hr) false
          rw [if_pos hab]
          exact .inl hab
      · have hw : s.iom.events (r.ctx, .write) = true ∧ s.iom.realEvents r .write = true := by simpa [hread] using hsome
        rw [if_neg hread, if_neg (by rw [h.asserted]; simp), if_pos hw.2]
        exact .inr (h.deliverOne hw.1 (hun .write hw.2 hok))
    · rw [if_neg hok, resumeBy_self]
      exact .inr h
  next =>
    rw [resumeBy_self]
    exact .inr h

omit [DecidableEq C] in
theorem Sound.withFetched (h : s.Sound) (fetched : List (EpollResult C)) :
    Sound { s with iom := { s.iom with fetched := fetched } } :=
  ⟨h.asserted, h.occupied, h.waiting, h.asked, h.apart, h.resumed, h.awake, h.frames, h.items, h.clear, h.marked, h.told⟩

omit [DecidableEq C] in
theorem Sound.tick (h : s.Sound) (ms : Nat) : Sound { s with now := s.now + ms } := by
  refine ⟨h.asserted, h.occupied, h.waiting, h.asked, h.apart, h.resumed, h.awake, h.frames, ?_, h.clear, h.marked, h.told⟩
  intro item hi
  obtain ⟨h1, h2, h3, h4⟩ := h.items item hi
  exact ⟨h1, h2, h3, Nat.le_trans h4 (Nat.le_add_right _ _)⟩

omit [DecidableEq C] in
theorem Sound.collect (h : s.Sound) (hk : s.iom.events k = true) (hne : (s.iom.context k).expireAt ≠ 0)
    (hle : (s.iom.context k).expireAt ≤ s.now) :
    Sound { s with iom := { s.iom with expired := (k, (s.iom.context k).cancelFlag) :: s.iom.expired } } := by
  refine ⟨h.asserted, h.occupied, h.waiting, h.asked, h.apart, h.resumed, h.awake, h.frames, ?_, h.clear, h.marked, h.told⟩
  intro item hi
  rcases List.mem_cons.mp hi with rfl | hi
  · exact ⟨hk, rfl, hne, hle⟩
  · exact h.items item hi

omit [DecidableEq C] in
theorem Sound.wake (h : s.Sound) (hw : w ∈ s.iom.resumed) : Sound { s with awake := w :: s.awake } := by
  refine ⟨h.asserted, h.occupied, h.waiting, h.asked, h.apart, h.resumed, ?_, ?_, h.items, h.clear, h.marked, ?_⟩
  · intro w' hw'
    rcases List.mem_cons.mp hw' with rfl | hw'
    · exact hw
    · exact h.awake w' hw'
  · intro w1 w2 h₁ h₂ ha1 ha2
    exact h.frames w1 w2 h₁ h₂ (fun hm => ha1 (List.mem_cons_of_mem _ hm)) fun hm => ha2 (List.mem_cons_of_mem _ hm)
  · intro w' hw' ha
    exact h.told w' hw' fun hm => ha (List.mem_cons_of_mem _ hm)

variable {item : (C × IoEvent) × Option Nat}

omit [DecidableEq C] in
theorem Sound.late (h : s.Sound) (hi : item ∈ s.iom.expired ++ s.timedOut) :
    ∃ w, s.At item.1 w ∧ item.2 = some (s.flagOf w) ∧ ∃ d ∈ s.deadline w, d ≤ s.now := by
  obtain ⟨hk, hflag, hne, hle⟩ := h.items item hi
  obtain ⟨w, hw⟩ := h.occupied item.1 hk
  rcases h.asked item.1 w ⟨hk, hw⟩ with ⟨-, hzero⟩ | ⟨hsome, hdeadline⟩
  · exact absurd hzero hne
  · exact ⟨w, ⟨hk, hw⟩, hflag.trans hsome, _, hdeadline, hle⟩

theorem Sound.timeOut (h : s.Sound) (hi : item ∈ s.iom.expired) :
    Sound { s with
      iom := writeFlag item.2 etimedout { s.iom with expired := s.iom.expired.erase item }
      timedOut := item :: s.timedOut } := by
  obtain ⟨w, hat, hflag, -⟩ := h.late (List.mem_append_left _ hi)
  obtain ⟨hlt, hnot⟩ := h.waiting item.1 w hat
  have hawake : w ∉ s.awake := fun hm => hnot (h.awake w hm)
  have hother : ∀ w' < s.iom.count, w' ∉ s.awake → w' ≠ w →
      Function.update s.iom.flags (s.flagOf w) etimedout (s.flagOf w') = s.iom.flags (s.flagOf w') := by
    intro w' hw' ha hne
    exact Function.update_of_ne (fun heq => hne (h.frames w' w hw' hlt ha hawake heq)) _ _
  rw [hflag]
  refine ⟨h.asserted, h.occupied, h.waiting, h.asked, h.apart, h.resumed, h.awake, h.frames, ?_, ?_, ?_, ?_⟩
  · intro item' hi'
    refine h.items item' ?_
    rcases List.mem_append.mp hi' with hm | hm
    · exact List.mem_append_left _ (List.mem_of_mem_erase hm)
    · rcases List.mem_cons.mp hm with rfl | hm
      · exact List.mem_append_left _ hi
      · exact List.mem_append_right _ hm
  · intro k w' hat' hclear
    have hne : w' ≠ w := by
      rintro rfl
      exact hclear item List.mem_cons_self (h.apart item.1 k w' hat hat')
    obtain ⟨hlt', hnot'⟩ := h.waiting k w' hat'
    show Function.update s.iom.flags (s.flagOf w) etimedout (s.flagOf w') = 0
    rw [hother w' hlt' (fun hm => hnot' (h.awake w' hm)) hne]
    exact h.clear k w' hat' fun item' hi' => hclear item' (List.mem_cons_of_mem _ hi')
  · intro item' hi' w' hat'
    show Function.update s.iom.flags (s.flagOf w) etimedout (s.flagOf w') ≠ 0
    by_cases hne : w' = w
    · rw [hne, Function.update_self]
      decide
    · obtain ⟨hlt', hnot'⟩ := h.waiting item'.1 w' hat'
      rw [hother w' hlt' (fun hm => hnot' (h.awake w' hm)) hne]
      rcases List.mem_cons.mp hi' with rfl | hi'
      · exact absurd (Option.some.inj (hat'.2.symm.trans hat.2)) hne
      · exact h.marked item' hi' w' hat'
  · intro w' hw' ha
    show ∃ c ∈ s.cause w', Says c (Function.update s.iom.flags (s.flagOf w) etimedout (s.flagOf w'))
    rw [hother w' (h.resumed w' hw') ha (fun heq => hnot (heq ▸ hw'))]
    exact h.told w' hw' ha

theorem Sound.cancelExpired (h : s.Sound) (hi : item ∈ s.timedOut)
    (hun : s.Undisturbed (.cancelExpired item ok)) :
    Sound ({ s with timedOut := s.timedOut.erase item }.resumeBy .cancel (s.iom.cancelEvent item.1 ok)) := by
  obtain ⟨hok, hno⟩ := hun
  obtain ⟨hk, -, hne, -⟩ := h.items item (List.mem_append_right _ hi)
  unfold IOManager.cancelEvent
  rw [hk, hok, Bool.and_self, if_pos rfl]
  refine h.finish hk (fun _ hm => List.mem_of_mem_erase hm) ?_ hno fun _ hat => says_cancel h hk hne hat
  intro item' hi' hne'
  refine (List.mem_erase_of_ne ?_).mpr hi'
  rintro rfl
  exact hne' rfl

omit [DecidableEq C] in
theorem Sound.writeFree (h : s.Sound) {flag : Nat} (hfree : ¬ s.InUse flag) (value : Nat) :
    Sound { s with iom := writeFlag (some flag) value s.iom } := by
  have hother : ∀ w' < s.iom.count, w' ∉ s.awake →
      Function.update s.iom.flags flag value (s.flagOf w') = s.iom.flags (s.flagOf w') := by
    intro w' hw' ha
    exact Function.update_of_ne (fun heq => hfree ⟨w', hw', ha, heq⟩) _ _
  have hat : ∀ k w', s.At k w' →
      Function.update s.iom.flags flag value (s.flagOf w') = s.iom.flags (s.flagOf w') := by
    intro k w' hat'
    obtain ⟨hlt', hnot'⟩ := h.waiting k w' hat'
    exact hother w' hlt' fun hm => hnot' (h.awake w' hm)
  refine ⟨h.asserted, h.occupied, h.waiting, h.asked, h.apart, h.resumed, h.awake, h.frames, h.items, ?_, ?_, ?_⟩
  · intro k w' hat' hclear
    show Function.update s.iom.flags flag value (s.flagOf w') = 0
    rw [hat k w' hat']
    exact h.clear k w' hat' hclear
  · intro item hi w' hat'
    show Function.update s.iom.flags flag value (s.flagOf w') ≠ 0
    rw [hat item.1 w' hat']
    exact h.marked item hi w' hat'
  · intro w' hw' ha
    show ∃ c ∈ s.cause w', Says c (Function.update s.iom.flags flag value (s.flagOf w'))
    rw [hother w' (h.resumed w' hw') ha]
    exact h.told w' hw' ha

omit [DecidableEq C] in
/-- What is noted of a waiter before it is one. -/
theorem Sound.note (h : s.Sound) (flag : Nat) (deadline : Option Nat) :
    Sound { s with
      flagOf := Function.update s.flagOf s.iom.count flag
      deadline := Function.update s.deadline s.iom.count deadline } := by
  have hflag : ∀ w < s.iom.count, Function.update s.flagOf s.iom.count flag w = s.flagOf w :=
    fun w hw => Function.update_of_ne (Nat.ne_of_lt hw) _ _
  have hdeadline : ∀ w < s.iom.count, Function.update s.deadline s.iom.count deadline w = s.deadline w :=
    fun w hw => Function.update_of_ne (Nat.ne_of_lt hw) _ _
  refine ⟨h.asserted, h.occupied, h.waiting, ?_, h.apart, h.resumed, h.awake, ?_, h.items, ?_, ?_, ?_⟩
  · intro k w hat
    have hlt := (h.waiting k w hat).1
    show _ ∨ _ = some (Function.update s.flagOf s.iom.count flag w) ∧ Function.update s.deadline s.iom.count deadline w = _
    rw [hflag w hlt, hdeadline w hlt]
    exact h.asked k w hat
  · intro w w' hw hw' ha ha' heq
    refine h.frames w w' hw hw' ha ha' ?_
    rw [← hflag w hw, ← hflag w' hw']
    exact heq
  · intro k w hat hclear
    show s.iom.flags (Function.update s.flagOf s.iom.count flag w) = 0
    rw [hflag w (h.waiting k w hat).1]
    exact h.clear k w hat hclear
  · intro item hi w hat
    show s.iom.flags (Function.update s.flagOf s.iom.count flag w) ≠ 0
    rw [hflag w (h.waiting item.1 w hat).1]
    exact h.marked item hi w hat
  · intro w hw ha
    show ∃ c ∈ s.cause w, Says c (s.iom.flags (Function.update s.flagOf s.iom.count flag w))
    rw [hflag w (h.resumed w hw)]
    exact h.told w hw ha

theorem Sound.register (h : s.Sound) (hk : s.iom.events k = false) (hfree : ¬ s.InUse (s.flagOf s.iom.count))
    (hzero : s.iom.flags (s.flagOf s.iom.count) = 0) {expireAt : Nat} {flag : Option Nat}
    (hasked : flag = none ∧ expireAt = 0 ∨ flag = some (s.flagOf s.iom.count) ∧ s.deadline s.iom.count = some expireAt)
    {iom : IOManager C} (haborted : iom.aborted = false) (hevents : iom.events = Function.update s.iom.events k true)
    (hcontext : iom.context = Function.update s.iom.context k ⟨some s.iom.count, expireAt, flag⟩)
    (hcount : iom.count = s.iom.count + 1) (hresumed : iom.resumed = s.iom.resumed)
    (hexpired : iom.expired = s.iom.expired) (hflags : iom.flags = s.iom.flags) : Sound { s with iom := iom } := by
  have hother : ∀ k' ≠ k, iom.events k' = s.iom.events k' ∧ iom.context k' = s.iom.context k' := by
    intro k' hne
    rw [hevents, hcontext, Function.update_of_ne hne, Function.update_of_ne hne]
    exact ⟨rfl, rfl⟩
  have hself : iom.context k = ⟨some s.iom.count, expireAt, flag⟩ := by rw [hcontext, Function.update_self]
  -- a waiter of the new state is the new one, or an old one
  have hatof : ∀ k' w', iom.events k' = true → (iom.context k').waiter = some w' →
      k' = k ∧ w' = s.iom.count ∨ k' ≠ k ∧ s.At k' w' := by
    intro k' w' he hc
    by_cases hne : k' = k
    · rw [hne, hself] at hc
      exact .inl ⟨hne, (Option.some.inj hc).symm⟩
    · obtain ⟨h1, h2⟩ := hother k' hne
      rw [h1] at he
      rw [h2] at hc
      exact .inr ⟨hne, he, hc⟩
  have hitems : ∀ item ∈ s.iom.expired ++ s.timedOut, item.1 ≠ k := by
    intro item hi heq
    have hon := (h.items item hi).1
    rw [heq, hk] at hon
    cases hon
  have hfresh : s.iom.count ∉ s.iom.resumed := fun hm => Nat.lt_irrefl _ (h.resumed _ hm)
  refine ⟨haborted, ?_, ?_, ?_, ?_, ?_, ?_, ?_, ?_, ?_, ?_, ?_⟩
  · intro k' he
    show ∃ w, (iom.context k').waiter = some w
    by_cases hne : k' = k
    · rw [hne, hself]
      exact ⟨_, rfl⟩
    · rw [(hother k' hne).2]
      refine h.occupied k' ?_
      rw [← (hother k' hne).1]
      exact he
  · rintro k' w' ⟨he, hc⟩
    show w' < iom.count ∧ w' ∉ iom.resumed
    rw [hcount, hresumed]
    rcases hatof k' w' he hc with ⟨-, rfl⟩ | ⟨-, hat⟩
    · exact ⟨Nat.lt_succ_self _, hfresh⟩
    · obtain ⟨hlt, hnot⟩ := h.waiting k' w' hat
      exact ⟨Nat.lt_succ_of_lt hlt, hnot⟩
  · rintro k' w' ⟨he, hc⟩
    show (iom.context k').cancelFlag = none ∧ (iom.context k').expireAt = 0 ∨
      (iom.context k').cancelFlag = some (s.flagOf w') ∧ s.deadline w' = some (iom.context k').expireAt
    rcases hatof k' w' he hc with ⟨rfl, rfl⟩ | ⟨hne, hat⟩
    · rw [hself]
      exact hasked
    · rw [(hother k' hne).2]
      exact h.asked k' w' hat
  · rintro k1 k2 w' ⟨he1, hc1⟩ ⟨he2, hc2⟩
    rcases hatof k1 w' he1 hc1 with ⟨rfl, rfl⟩ | ⟨-, hat1⟩
    · rcases hatof k2 _ he2 hc2 with ⟨rfl, -⟩ | ⟨-, hat2⟩
      · rfl
      · exact absurd (h.waiting k2 _ hat2).1 (Nat.lt_irrefl _)
    · rcases hatof k2 w' he2 hc2 with ⟨-, rfl⟩ | ⟨-, hat2⟩
      · exact absurd (h.waiting k1 _ hat1).1 (Nat.lt_irrefl _)
      · exact h.apart k1 k2 w' hat1 hat2
  · intro w' hw'
    show w' < iom.count
    rw [hcount]
    refine Nat.lt_succ_of_lt (h.resumed w' ?_)
    rw [← hresumed]
    exact hw'
  · intro w' hw'
    show w' ∈ iom.resumed
    rw [hresumed]
    exact h.awake w' hw'
  · intro w1 w2 h₁ h₂ ha1 ha2 heq
    have h1' : w1 < iom.count := h₁
    have h2' : w2 < iom.count := h₂
    rw [hcount] at h1' h2'
    rcases Nat.lt_succ_iff_lt_or_eq.mp h1' with hlt1 | rfl
    · rcases Nat.lt_succ_iff_lt_or_eq.mp h2' with hlt2 | rfl
      · exact h.frames w1 w2 hlt1 hlt2 ha1 ha2 heq
      · exact absurd ⟨w1, hlt1, ha1, heq⟩ hfree
    · rcases Nat.lt_succ_iff_lt_or_eq.mp h2' with hlt2 | rfl
      · exact absurd ⟨w2, hlt2, ha2, heq.symm⟩ hfree
      · rfl
  · intro item hi
    have hi' : item ∈ s.iom.expired ++ s.timedOut := by
      rw [← hexpired]
      exact hi
    show iom.events item.1 = true ∧ item.2 = (iom.context item.1).cancelFlag ∧ (iom.context item.1).expireAt ≠ 0 ∧
      (iom.context item.1).expireAt ≤ s.now
    rw [(hother item.1 (hitems item hi')).1, (hother item.1 (hitems item hi')).2]
    exact h.items item hi'
  · rintro k' w' ⟨he, hc⟩ hclear
    show iom.flags (s.flagOf w') = 0
    rw [hflags]
    rcases hatof k' w' he hc with ⟨-, rfl⟩ | ⟨-, hat⟩
    · exact hzero
    · exact h.clear k' w' hat hclear
  · rintro item hi w' ⟨he, hc⟩
    show iom.flags (s.flagOf w') ≠ 0
    rw [hflags]
    rcases hatof item.1 w' he hc with ⟨heq, -⟩ | ⟨-, hat⟩
    · exact absurd heq (hitems item (List.mem_append_right _ hi))
    · exact h.marked item hi w' hat
  · intro w' hw' ha
    show ∃ c ∈ s.cause w', Says c (iom.flags (s.flagOf w'))
    rw [hflags]
    refine h.told w' ?_ ha
    rw [← hresumed]
    exact hw'

theorem addEvent_frame {iom iom' : IOManager C} {now : Nat} {timeout flag : Option Nat}
    (hadd : iom.addEvent k now timeout flag ok = some iom') :
    iom' = iom ∨ iom.events k = false ∧ ∃ expireAt, expireAt = timeout.elim 0 (fun ms => (now + ms) % 2 ^ 64) ∧
      iom' = onIoWaitAdded expireAt { iom with
        events := Function.update iom.events k true
        context := Function.update iom.context k ⟨some iom.count, expireAt, if expireAt = 0 then none else flag⟩
        count := iom.count + 1
        pendingEventCount := iom.pendingEventCount + 1 } := by
  unfold IOManager.addEvent at hadd
  obtain ⟨hk, hadd⟩ := Option.ite_none_left_eq_some.mp hadd
  split at hadd
  · exact .inl (Option.some.inj hadd).symm
  · obtain ⟨-, hadd⟩ := Option.ite_none_left_eq_some.mp hadd
    obtain rfl := Option.some.inj hadd
    refine .inr ⟨Bool.not_eq_true _ ▸ hk, _, ?_, rfl⟩
    cases timeout with
    | none => rfl
    | some ms => rfl

theorem Sound.addEvent (h : s.Sound) {flag : Nat} (hfree : ¬ s.InUse flag) {timeout : Option Nat}
    (hun : s.Undisturbed (.addEvent k timeout flag ok)) {iom : IOManager C}
    (hadd : (writeFlag (some flag) 0 s.iom).addEvent k s.now timeout (some flag) ok = some iom) :
    Sound { s with
      iom := iom
      flagOf := Function.update s.flagOf s.iom.count flag
      deadline := Function.update s.deadline s.iom.count (timeout.map (s.now + ·)) } := by
  have hnoted := (h.writeFree hfree 0).note flag (timeout.map (s.now + ·))
  rcases addEvent_frame hadd with rfl | ⟨hk, expireAt, hexpire, hiom⟩
  · exact hnoted
  · obtain ⟨next, dirty, rfl⟩ : ∃ next dirty, iom = { writeFlag (some flag) 0 s.iom with
        events := Function.update s.iom.events k true
        context := Function.update s.iom.context k ⟨some s.iom.count, expireAt, if expireAt = 0 then none else some flag⟩
        count := s.iom.count + 1
        pendingEventCount := s.iom.pendingEventCount + 1
        nextIoExpire := next
        ioExpireDirty := dirty } := by
      rw [hiom]
      exact onIoWaitAdded_frame _ _
    have hflag : Function.update s.flagOf s.iom.count flag s.iom.count = flag := Function.update_self ..
    have hdeadline : Function.update s.deadline s.iom.count (timeout.map (s.now + ·)) s.iom.count =
        timeout.map (s.now + ·) := Function.update_self ..
    have hregister := @Sound.register _ _ _ k hnoted hk
    refine hregister ?_ ?_ ?_ h.asserted rfl rfl rfl rfl rfl rfl
    · rintro ⟨w, hw, ha, heq⟩
      refine hfree ⟨w, hw, ha, ?_⟩
      have hw' : Function.update s.flagOf s.iom.count flag w = s.flagOf w := Function.update_of_ne (Nat.ne_of_lt hw) _ _
      exact hw'.symm.trans (heq.trans hflag)
    · show Function.update s.iom.flags flag 0 (Function.update s.flagOf s.iom.count flag s.iom.count) = 0
      rw [hflag, Function.update_self]
    · show _ ∨ (if expireAt = 0 then none else some flag) = some (Function.update s.flagOf s.iom.count flag s.iom.count) ∧
        Function.update s.deadline s.iom.count (timeout.map (s.now + ·)) s.iom.count = some expireAt
      rw [hflag, hdeadline]
      by_cases hzero : expireAt = 0
      · rw [if_pos hzero]
        exact .inl ⟨rfl, hzero⟩
      · rw [if_neg hzero]
        cases timeout with
        | none => exact absurd hexpire hzero
        | some ms =>
          have hms : (s.now + ms) % 2 ^ 64 = s.now + ms := Nat.mod_eq_of_lt (hun ms rfl)
          refine .inr ⟨rfl, ?_⟩
          rw [hexpire]
          exact congrArg some hms.symm

/-! ### Steps and runs -/

/-- An undisturbed step is attributed, and keeps the flags right or ends the program. -/
theorem Sound.step (h : s.Sound) {op : WaitOp C} (hun : s.Undisturbed op) (hstep : s.step op = some s') :
    s.Attributed op ∧ (s'.iom.aborted = true ∨ s'.Sound) := by
  replace hstep := (Option.ite_none_left_eq_some.mp hstep).2
  cases op with
  | tick ms =>
    cases hstep
    exact ⟨trivial, .inr (h.tick ms)⟩
  | addEvent k timeout flag ok =>
    obtain ⟨hfree, hstep⟩ := Option.ite_none_left_eq_some.mp hstep
    obtain ⟨iom, hadd, rfl⟩ := Option.map_eq_some_iff.mp hstep
    exact ⟨trivial, .inr (h.addEvent hfree hun hadd)⟩
  | cancelEvent k ok =>
    cases hstep
    exact ⟨trivial, .inr (h.cancelEvent hun)⟩
  | cancelAll c ok =>
    cases hstep
    exact ⟨trivial, .inr (h.cancelAll hun)⟩
  | fetch r =>
    obtain ⟨-, hstep⟩ := Option.ite_none_right_eq_some.mp hstep
    cases hstep
    exact ⟨trivial, .inr (h.withFetched _)⟩
  | handle r ok =>
    obtain ⟨-, hstep⟩ := Option.ite_none_right_eq_some.mp hstep
    cases hstep
    exact ⟨trivial, (h.withFetched (s.iom.fetched.erase r)).handle hun⟩
  | collect k =>
    obtain ⟨⟨hk, hne, hle⟩, hstep⟩ := Option.ite_none_right_eq_some.mp hstep
    cases hstep
    exact ⟨trivial, .inr (h.collect hk hne hle)⟩
  | timeOut item =>
    obtain ⟨hi, hstep⟩ := Option.ite_none_right_eq_some.mp hstep
    cases hstep
    refine ⟨fun a ha => ?_, .inr (h.timeOut hi)⟩
    obtain ⟨w, hat, hflag, hlate⟩ := h.late (List.mem_append_left _ hi)
    exact ⟨item.1, w, hat, Option.some.inj (hflag.symm.trans ha), hlate⟩
  | cancelExpired item ok =>
    obtain ⟨hi, hstep⟩ := Option.ite_none_right_eq_some.mp hstep
    cases hstep
    exact ⟨trivial, .inr (h.cancelExpired hi hun)⟩
  | wake w =>
    obtain ⟨⟨hw, ha⟩, hstep⟩ := Option.ite_none_right_eq_some.mp hstep
    cases hstep
    exact ⟨h.told w hw ha, .inr (h.wake hw)⟩

theorem Sound.run (h : s.Sound) (ops : List (WaitOp C)) (hun : s.Along Undisturbed ops) : s.Along Attributed ops := by
  induction ops generalizing s with
  | nil => trivial
  | cons op ops ih =>
    intro s' hs
    obtain ⟨hun', hrest⟩ := hun s' hs
    obtain ⟨hattr, hab | hsound⟩ := h.step hun' hs
    · refine ⟨hattr, ?_⟩
      cases ops with
      | nil => trivial
      | cons op' ops =>
        intro s'' hs'
        unfold Waits.step at hs'
        rw [if_pos hab] at hs'
        cases hs'
    · exact ⟨hattr, ih hsound hrest⟩

/-! ## Top theorem -/

theorem attributed_run (ops : List (WaitOp C)) (hun : (new : Waits C).Along Undisturbed ops) :
    (new : Waits C).Along Attributed ops := sound_new.run ops hun

/-- A waiter is late, and is told so. -/
def late (c : C) : List (WaitOp C) :=
  [.addEvent (c, .read) (some 10) 0 true, .tick 10, .collect (c, .read), .timeOut ((c, .read), some 0),
    .cancelExpired ((c, .read), some 0) true, .wake 0]

theorem attributed_run_late : (new : Waits (Fin 1)).Along Attributed (late 0) := by
  refine attributed_run (late 0) ?_
  intro s1 h₁
  obtain rfl := Option.some.inj h₁
  refine ⟨fun ms hms => ?_, ?_⟩
  · obtain rfl := Option.some.inj hms
    decide
  intro s2 h₂
  obtain rfl := Option.some.inj h₂
  refine ⟨trivial, fun s3 h₃ => ?_⟩
  obtain rfl := Option.some.inj h₃
  refine ⟨trivial, fun s4 h₄ => ?_⟩
  obtain rfl := Option.some.inj h₄
  refine ⟨trivial, fun s5 h5 => ?_⟩
  obtain rfl := Option.some.inj h5
  refine ⟨⟨rfl, fun other ho => ?_⟩, fun s6 h6 => ⟨trivial, trivial⟩⟩
  cases ho

/-- A waiter without a timeout is cancelled. -/
def cancelledUntimed (c : C) : List (WaitOp C) :=
  [.addEvent (c, .read) none 0 true, .cancelEvent (c, .read) true, .wake 0]

/-- An event comes between the collection of its waiter and the writing of the flag. -/
def resumedInHand (c : C) : List (WaitOp C) :=
  [.addEvent (c, .read) (some 10) 0 true, .fetch ⟨c, true, false, false⟩, .tick 10, .collect (c, .read),
    .handle ⟨c, true, false, false⟩ true, .wake 0, .timeOut ((c, .read), some 0)]

/-- The cancelled waiter finds zero, and the timeout is written to a flag that nobody has. -/
theorem misattributed : ¬ (new : Waits (Fin 1)).Along Attributed (cancelledUntimed 0) ∧
    ¬ (new : Waits (Fin 1)).Along Attributed (resumedInHand 0) := by
  constructor
  · intro h
    obtain ⟨c, hc, htold⟩ := (((h _ rfl).2 _ rfl).2 _ rfl).1
    obtain rfl := Option.some.inj hc
    exact htold rfl
  · intro h
    obtain ⟨k, w, hat, -⟩ := (((((((h _ rfl).2 _ rfl).2 _ rfl).2 _ rfl).2 _ rfl).2 _ rfl).2 _ rfl).1 0 rfl
    obtain ⟨c, e⟩ := k
    obtain rfl : c = 0 := Subsingleton.elim _ _
    cases e with
    | read => cases hat.1
    | write => cases hat.1

end Waits

end IOManager

end Core
