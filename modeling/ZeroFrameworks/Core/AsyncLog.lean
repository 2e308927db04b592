import ZeroFrameworks.Core.LogBuffer

/-!
# Asynchronous logging (`core/log/async_log.cc`)

Callers put messages into a ring buffer and a writer thread takes them out.  `writerLoop` gathers what it takes in a
string that it never passes on: the branch that was to write it to the appender is empty.

    what the appender was passed = what was accepted  ↔  nothing was accepted   (delivered_iff)
-/

namespace Core

open Kv (Bytes)

/-! ## Algorithm -/

inductive AsyncOverflowPolicy where
  | dropOldest
  | dropNewest
  | block
  | discard
  deriving DecidableEq

/-- Where `writerLoop` is: at its test of `m_running`, in the loop that takes a batch, after it, in the loop that
empties the buffer, or returned. -/
inductive WriterPhase where
  | test
  | batch
  | report
  | drain
  | returned
  deriving DecidableEq

/-- A call of `appendRaw` that has seen `m_running` set; `reads` when its next turn is `readOne`. -/
structure AppendCall where
  data : Bytes
  reads : Bool

/-- `accepted` are the messages for which `appendRaw` returned true before `stop`, in that order. -/
structure AsyncLogWriter where
  overflow_policy : AsyncOverflowPolicy
  batch_size : Nat
  running : Bool
  buffer : LogRingBuffer
  calls : List AppendCall
  phase : WriterPhase
  combined : Bytes
  read_count : Nat
  written_count : Nat
  appender : List Bytes
  flushes : Nat
  accepted : List Bytes

namespace AsyncLogWriter

/-- A writer that was just started. -/
def start (policy : AsyncOverflowPolicy) (queue_size batch_size : Nat) : AsyncLogWriter where
  overflow_policy := policy
  batch_size := batch_size
  running := true
  buffer := LogRingBuffer.create queue_size
  calls := []
  phase := .test
  combined := []
  read_count := 0
  written_count := 0
  appender := []
  flushes := 0
  accepted := []

/-- `m_block_on_full`, which the constructor sets. -/
def blockOnFull (s : AsyncLogWriter) : Bool := s.overflow_policy == .block

/-- The `i`-th call returns. -/
def returns (s : AsyncLogWriter) (i : Nat) (data : Bytes) (result : Bool) : AsyncLogWriter :=
  { s with
    calls := s.calls.eraseIdx i
    accepted := if result && s.running then s.accepted ++ [data] else s.accepted }

/-- A turn of the `i`-th call of `appendRaw`: one `tryWrite`, or the `readOne` after one that failed. -/
def turn (s : AsyncLogWriter) (i : Nat) : Option AsyncLogWriter :=
  match s.calls[i]? with
  | none => none
  | some ⟨data, true⟩ => do
    let (_, buffer) ← s.buffer.readOne
    pure { s with buffer := buffer, calls := s.calls.set i ⟨data, false⟩ }
  | some ⟨data, false⟩ => do
    let (ok, buffer) ← s.buffer.tryWrite data
    let s := { s with buffer := buffer }
    match s.overflow_policy with
    | .block => if ok || !s.blockOnFull then pure (s.returns i data true) else pure s
    | .dropNewest => pure (s.returns i data ok)
    | .dropOldest => if ok then pure (s.returns i data true) else pure { s with calls := s.calls.set i ⟨data, true⟩ }
    | .discard => pure (s.returns i data false)

/-- A turn of `writerLoop`; `due` tells whether the flush interval has passed. -/
def write (s : AsyncLogWriter) (due : Bool) : Option AsyncLogWriter :=
  match s.phase with
  | .test =>
    if s.running then some { s with phase := .batch, read_count := 0, combined := [] }
    else some { s with phase := .drain, combined := [] }
  | .batch =>
    if s.read_count < s.batch_size then do
      let (output, buffer) ← s.buffer.readRaw
      match output with
      | none => pure { s with buffer := buffer, phase := .report }
      | some raw_msg =>
        pure { s with buffer := buffer, combined := s.combined ++ raw_msg, read_count := s.read_count + 1 }
    else some { s with phase := .report }
  | .report =>
    -- nothing is done with `combined`
    if s.read_count > 0 then some { s with written_count := s.written_count + s.read_count, phase := .test }
    else if due then some { s with flushes := s.flushes + 1, phase := .test }
    else some { s with phase := .test }
  | .drain => do
    let (output, buffer) ← s.buffer.readRaw
    match output with
    | none => pure { s with buffer := buffer, flushes := s.flushes + 1, phase := .returned }
    | some remaining => pure { s with buffer := buffer, combined := s.combined ++ remaining }
  | .returned => none

/-- What happens next: a call of `appendRaw`, a turn of one, a turn of the writer, or `stop`. -/
inductive Action where
  | call (data : Bytes)
  | turn (i : Nat)
  | write (due : Bool)
  | stop

def step (s : AsyncLogWriter) : Action → Option AsyncLogWriter
  | .call data => some (if s.running then { s with calls := s.calls ++ [⟨data, false⟩] } else s)
  | .turn i => s.turn i
  | .write due => s.write due
  | .stop => some { s with running := false }

def run (s : AsyncLogWriter) : List Action → Option AsyncLogWriter
  | [] => some s
  | a :: actions => do
    let s ← s.step a
    s.run actions

/-! ## Specification -/

/-- There is room for the message. -/
def Room (s : AsyncLogWriter) (data : Bytes) : Prop :=
  s.buffer.size + LogRingBuffer.align (data.length + 4) + 4 ≤ s.buffer.capacity

/-- In `s`, the action is the turn of a call that finds room for its message, before `stop`, under a policy that does
not discard. -/
def Accepts (s : AsyncLogWriter) : Action → Prop
  | .turn i => ∃ data, s.calls[i]? = some ⟨data, false⟩ ∧ s.running = true ∧ s.overflow_policy ≠ .discard ∧ s.Room data
  | _ => False

/-- No step of the run is one that accepts a message. -/
def Avoids : AsyncLogWriter → List Action → Prop
  | _, [] => True
  | s, a :: actions => ¬s.Accepts a ∧ ∀ s', s.step a = some s' → Avoids s' actions

/-! ## Lemmas -/

theorem tryWrite_ok {b b' : LogRingBuffer} {data : Bytes} {ok : Bool} (h : b.tryWrite data = some (ok, b')) :
    ok = true ↔ b.size + LogRingBuffer.align (data.length + 4) + 4 ≤ b.capacity := by
  unfold LogRingBuffer.tryWrite at h
  dsimp only at h
  split at h
  next hfull =>
    obtain ⟨rfl, -⟩ := Prod.mk.inj (Option.some.inj h)
    exact ⟨fun hc => absurd hc Bool.false_ne_true, fun hroom => absurd hfull (Nat.not_lt.mpr hroom)⟩
  next hroom =>
    obtain ⟨b1, -, h⟩ := Option.bind_eq_some_iff.mp h
    obtain ⟨b2, -, h⟩ := Option.bind_eq_some_iff.mp h
    obtain ⟨b3, -, h⟩ := Option.bind_eq_some_iff.mp h
    obtain ⟨rfl, -⟩ := Prod.mk.inj (Option.some.inj h)
    exact ⟨fun _ => Nat.le_of_not_lt hroom, fun _ => rfl⟩

/-- The messages accepted: one more after a step that accepts, else as many. -/
def Counts (s s' : AsyncLogWriter) (accepts : Prop) : Prop :=
  (accepts → s'.accepted ≠ []) ∧ (¬accepts → s'.accepted = s.accepted)

theorem returns_counts (s : AsyncLogWriter) (i : Nat) (data : Bytes) (result : Bool) {accepts : Prop}
    (h : accepts ↔ result = true ∧ s.running = true) : Counts s (s.returns i data result) accepts := by
  have hval : (s.returns i data result).accepted = if result && s.running then s.accepted ++ [data] else s.accepted := rfl
  constructor
  · intro hacc
    obtain ⟨hr, hrun⟩ := h.mp hacc
    rw [hval, hr, hrun]
    exact List.concat_ne_nil _ _
  · intro hno
    rw [hval]
    by_cases hboth : (result && s.running) = true
    · rw [Bool.and_eq_true] at hboth
      exact absurd (h.mpr hboth) hno
    · rw [if_neg hboth]

variable {s s' : AsyncLogWriter}

theorem turn_counts {i : Nat} (h : s.turn i = some s') :
    s'.appender = s.appender ∧ Counts s s' (s.Accepts (.turn i)) := by
  unfold turn at h
  split at h
  next => cases h
  next data hcall =>
    obtain ⟨p, -, h⟩ := Option.bind_eq_some_iff.mp h
    obtain rfl := Option.some.inj h
    refine ⟨rfl, fun hacc => ?_, fun _ => rfl⟩
    obtain ⟨data', hcall', -⟩ := hacc
    rw [hcall] at hcall'
    cases hcall'
  next data hcall =>
    obtain ⟨⟨ok, buffer⟩, hwrite, h⟩ := Option.bind_eq_some_iff.mp h
    have hok := tryWrite_ok hwrite
    have hiff : s.Accepts (.turn i) ↔ ok = true ∧ s.running = true ∧ s.overflow_policy ≠ .discard := by
      constructor
      · rintro ⟨data', hcall', hrun, hpol, hroom⟩
        rw [hcall] at hcall'
        obtain ⟨rfl, -⟩ := AppendCall.mk.inj (Option.some.inj hcall')
        exact ⟨hok.mpr hroom, hrun, hpol⟩
      · rintro ⟨htrue, hrun, hpol⟩
        exact ⟨data, hcall, hrun, hpol, hok.mp htrue⟩
    dsimp only at h
    cases hp : s.overflow_policy with
    | block =>
      rw [hp] at h hiff
      have hblock : ∀ t : AsyncLogWriter, t.overflow_policy = .block → t.blockOnFull = true := fun t ht => by
        unfold blockOnFull
        rw [ht]
        rfl
      dsimp only at h
      rw [hblock _ rfl, Bool.not_true, Bool.or_false] at h
      split at h
      next hyes =>
        obtain rfl := Option.some.inj h
        exact ⟨rfl, returns_counts _ i data true (hiff.trans ⟨fun hc => ⟨rfl, hc.2.1⟩, fun hc => ⟨hyes, hc.2, by decide⟩⟩)⟩
      next hno =>
        obtain rfl := Option.some.inj h
        exact ⟨rfl, fun hacc => absurd (hiff.mp hacc).1 hno, fun _ => rfl⟩
    | dropNewest =>
      rw [hp] at h hiff
      obtain rfl := Option.some.inj h
      exact ⟨rfl, returns_counts _ i data ok (hiff.trans ⟨fun hc => ⟨hc.1, hc.2.1⟩, fun hc => ⟨hc.1, hc.2, by decide⟩⟩)⟩
    | dropOldest =>
      rw [hp] at h hiff
      dsimp only at h
      split at h
      next hyes =>
        obtain rfl := Option.some.inj h
        exact ⟨rfl, returns_counts _ i data true (hiff.trans ⟨fun hc => ⟨rfl, hc.2.1⟩, fun hc => ⟨hyes, hc.2, by decide⟩⟩)⟩
      next hno =>
        obtain rfl := Option.some.inj h
        exact ⟨rfl, fun hacc => absurd (hiff.mp hacc).1 hno, fun _ => rfl⟩
    | discard =>
      rw [hp] at h hiff
      obtain rfl := Option.some.inj h
      exact ⟨rfl, returns_counts _ i data false (hiff.trans ⟨fun hc => absurd rfl hc.2.2, fun hc => absurd hc.1 Bool.false_ne_true⟩)⟩

/-- The writer thread neither accepts a message nor passes one to the appender. -/
theorem write_frame {due : Bool} (h : s.write due = some s') :
    s'.appender = s.appender ∧ s'.accepted = s.accepted := by
  unfold write at h
  split at h
  next =>
    split at h <;> (obtain rfl := Option.some.inj h; exact ⟨rfl, rfl⟩)
  next =>
    split at h
    next =>
      obtain ⟨⟨output, buffer⟩, -, h⟩ := Option.bind_eq_some_iff.mp h
      cases output with
      | none =>
        obtain rfl := Option.some.inj h
        exact ⟨rfl, rfl⟩
      | some raw_msg =>
        obtain rfl := Option.some.inj h
        exact ⟨rfl, rfl⟩
    next =>
      obtain rfl := Option.some.inj h
      exact ⟨rfl, rfl⟩
  next =>
    split at h
    next =>
      obtain rfl := Option.some.inj h
      exact ⟨rfl, rfl⟩
    next => split at h <;> (obtain rfl := Option.some.inj h; exact ⟨rfl, rfl⟩)
  next =>
    obtain ⟨⟨output, buffer⟩, -, h⟩ := Option.bind_eq_some_iff.mp h
    cases output with
    | none =>
      obtain rfl := Option.some.inj h
      exact ⟨rfl, rfl⟩
    | some remaining =>
      obtain rfl := Option.some.inj h
      exact ⟨rfl, rfl⟩
  next => cases h

/-- **One step**: the appender is passed nothing, and a message is counted exactly when the step accepts one. -/
theorem step_counts {a : Action} (h : s.step a = some s') :
    s'.appender = s.appender ∧ Counts s s' (s.Accepts a) := by
  cases a with
  | call data =>
    obtain rfl := Option.some.inj h
    split
    next => exact ⟨rfl, fun hacc => hacc.elim, fun _ => rfl⟩
    next => exact ⟨rfl, fun hacc => hacc.elim, fun _ => rfl⟩
  | turn i => exact turn_counts h
  | write due =>
    obtain ⟨happ, hacc⟩ := write_frame h
    exact ⟨happ, fun hc => hc.elim, fun _ => hacc⟩
  | stop =>
    obtain rfl := Option.some.inj h
    exact ⟨rfl, fun hacc => hacc.elim, fun _ => rfl⟩

theorem step_accepted {a : Action} (h : s.step a = some s') (hne : s.accepted ≠ []) :
    s'.accepted ≠ [] := by
  obtain ⟨-, hyes, hno⟩ := step_counts h
  by_cases hacc : s.Accepts a
  · exact hyes hacc
  · rwa [hno hacc]

theorem run_accepted {actions : List Action} (h : s.run actions = some s')
    (hne : s.accepted ≠ []) : s'.accepted ≠ [] := by
  induction actions generalizing s with
  | nil =>
    obtain rfl := Option.some.inj h
    exact hne
  | cons a actions ih =>
    obtain ⟨s1, hstep, hrest⟩ := Option.bind_eq_some_iff.mp h
    exact ih hrest (step_accepted hstep hne)

theorem run_counts {actions : List Action} (h : s.run actions = some s') :
    s'.appender = s.appender ∧ (s.accepted = [] → (s'.accepted = [] ↔ s.Avoids actions)) := by
  induction actions generalizing s with
  | nil =>
    obtain rfl := Option.some.inj h
    exact ⟨rfl, fun hnil => ⟨fun _ => trivial, fun _ => hnil⟩⟩
  | cons a actions ih =>
    obtain ⟨s1, hstep, hrest⟩ := Option.bind_eq_some_iff.mp h
    obtain ⟨happ, hyes, hno⟩ := step_counts hstep
    obtain ⟨happ', hcount⟩ := ih hrest
    refine ⟨happ'.trans happ, fun hnil => ?_⟩
    by_cases hacc : s.Accepts a
    · exact ⟨fun h' => absurd h' (run_accepted hrest (hyes hacc)), fun h' => absurd hacc h'.1⟩
    · have hcount' := hcount ((hno hacc).trans hnil)
      constructor
      · intro h'
        refine ⟨hacc, fun s2 hs2 => ?_⟩
        obtain rfl := Option.some.inj (hstep.symm.trans hs2)
        exact hcount'.mp h'
      · exact fun h' => hcount'.mpr (h'.2 s1 hstep)

/-! ## Top theorem -/

/-- **What is delivered**: in every state of every interleaving, so also when `writerLoop` has returned, the appender
has been passed the messages accepted, in order, exactly when no step accepted one. -/
theorem delivered_iff (policy : AsyncOverflowPolicy) (queue_size batch_size : Nat) (actions : List Action)
    (s : AsyncLogWriter) (h : (start policy queue_size batch_size).run actions = some s) :
    s.appender = s.accepted ↔ (start policy queue_size batch_size).Avoids actions := by
  obtain ⟨happ, hcount⟩ := run_counts h
  rw [← hcount rfl, happ]
  exact eq_comm

theorem delivered_iff_sample :
    ∃ s, (start .dropNewest 64 4).run [.call [65], .stop, .turn 0, .write false, .write false, .write false] = some s ∧
      s.phase = .returned ∧ (s.appender = s.accepted ↔
        (start .dropNewest 64 4).Avoids [.call [65], .stop, .turn 0, .write false, .write false, .write false]) :=
  ⟨_, rfl, rfl, delivered_iff _ _ _ _ _ rfl⟩

/-- One message, accepted and taken out by the writer thread, which returns without having passed it on; and an empty
message, at which the reader jumps over the one after it. -/
theorem message_lost :
    (∃ s, (start .dropNewest 64 4).run [.call [65], .turn 0, .stop, .write false, .write false, .write false] = some s ∧
      s.phase = .returned ∧ s.accepted = [[65]] ∧ s.appender = []) ∧
    ∃ s, (start .dropNewest 64 4).run
        [.call [], .call [65], .turn 0, .turn 0, .stop, .write false, .write false] = some s ∧
      s.phase = .returned ∧ s.accepted = [[], [65]] ∧ s.combined = [] ∧ s.buffer.empty = true :=
  ⟨⟨_, rfl, rfl, rfl, rfl⟩, _, rfl, rfl, rfl, rfl, rfl⟩

end AsyncLogWriter

end Core
