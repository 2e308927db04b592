import ZeroFrameworks.Kv.Commands.Getex
import ZeroFrameworks.Kv.Commands.Keys

/-!
# Deadlines

SET EX and PX, SETEX, the four EXPIRE commands, GETEX EX and PX and RESTORE each compute a deadline with sums and
products of 64 bits that nothing checks.  A deadline of `2^63` or later wraps around: the key becomes permanent, is
gone at once, or lives for another time than it was given.  If it is less than `2^63` ahead, it is stored as a negative one,
which is never over, and the difference to the clock wraps back.

    stored deadline = i64 (exact deadline), for GETEX PX = now   (run_gives)
    the command keeps its promise ↔ it is refused, or the deadline is less than 2^63 ahead and it is not GETEX PX
        (deadlines_exact_iff)
-/

namespace Kv.Commands

open KvStore (evictIfNeededLocked)

variable {F : Type} [Platform F]

/-! ## Commands -/

/-- A command that gives a key a time to live, with its arguments. -/
inductive TtlCommand where
  | set (key value : Bytes) (options : List RespValue)
  | setex (key value : Bytes) (n : RespValue)
  | expire (key : Bytes) (n : RespValue)
  | pexpire (key : Bytes) (n : RespValue)
  | expireat (key : Bytes) (n : RespValue)
  | pexpireat (key : Bytes) (n : RespValue)
  | getexEx (key : Bytes) (n : RespValue)
  | getexPx (key : Bytes) (n : RespValue)
  | restore (key payload : Bytes) (n : RespValue) (options : List RespValue)

namespace TtlCommand

def key : TtlCommand → Bytes
  | set k .. | setex k .. | expire k _ | pexpire k _ | expireat k _ | pexpireat k _ | getexEx k _ | getexPx k _
  | restore k .. => k

def run (db : Int) : TtlCommand → StoreM F RespValue
  | set k v options => Commands.set db ([.bulk (lit "SET"), .bulk k, .bulk v] ++ options)
  | setex k v n => Commands.setex db [.bulk (lit "SETEX"), .bulk k, n, .bulk v]
  | expire k n => Commands.expire db [.bulk (lit "EXPIRE"), .bulk k, n]
  | pexpire k n => Commands.pexpire db [.bulk (lit "PEXPIRE"), .bulk k, n]
  | expireat k n => Commands.expireat db [.bulk (lit "EXPIREAT"), .bulk k, n]
  | pexpireat k n => Commands.pexpireat db [.bulk (lit "PEXPIREAT"), .bulk k, n]
  | getexEx k n => getexRun db k (.ex n)
  | getexPx k n => getexRun db k (.px n)
  | restore k payload n options =>
    Commands.restore db ([.bulk (lit "RESTORE"), .bulk k, n, .bulk payload] ++ options)

/-- The store in which a command meets its key: SET and GETEX make room first. -/
def start (env : Env) (s : KvStore F) : TtlCommand → KvStore F
  | set .. | setex .. | getexEx .. | getexPx .. => (evictIfNeededLocked env s).2
  | _ => s

/-! ## Specification -/

/-- A positive time to live, as the command reads it. -/
def positive (n : Option Int) : Option Int := n.filter (0 < ·)

/-- The exact deadline in milliseconds; `none` where no positive time to live is given. -/
def deadline (now : Int) : TtlCommand → Option Int
  | set _ _ options =>
    match parseSetOptions {} options with
    | .error _ => none
    | .ok opt =>
      if 0 ≤ opt.ex then (positive opt.ex).map fun n => now + n * 1000
      else (positive opt.px).map fun n => now + n
  | setex _ _ n | expire _ n | getexEx _ n => (positive (parseInt64Arg n)).map fun n => now + n * 1000
  | pexpire _ n | getexPx _ n => (positive (parseInt64Arg n)).map fun n => now + n
  | expireat _ n => (positive (parseInt64Arg n)).map fun n => n * 1000
  | pexpireat _ n => positive (parseInt64Arg n)
  | restore _ _ n _ => (positive (parseInt64Prefix n)).map fun n => now + n

/-- REPLACE among the options of RESTORE. -/
def replaces (options : List RespValue) : Bool :=
  options.any fun v => !v.isNull && decide (upper v.str = lit "REPLACE")

/-- Whether a command takes effect on what it finds under its key. -/
def Accepts (F : Type) [Platform F] (old : Option (Item F)) : TtlCommand → Prop
  | set _ _ options =>
    ∀ opt, parseSetOptions {} options = .ok opt → ¬(opt.nx ∧ old.isSome) ∧ ¬(opt.xx ∧ old.isNone)
  | setex .. => True
  | expire .. | pexpire .. | expireat .. | pexpireat .. => old.isSome
  | getexEx .. | getexPx .. => ∃ o, old = some o ∧ o.type = .string
  | restore _ payload _ options =>
    (∃ o : Obj F, KvStore.parseDump payload = .ok o) ∧ ¬(old.isSome ∧ replaces options = false)

end TtlCommand

/-- From now on, as long as the clock is an int64, the key lives up to its deadline, and PTTL says how long that is. -/
def LivesUntil (db : Int) (key : Bytes) (env : Env) (s : KvStore F) (deadline : Int) : Prop :=
  ∀ t, env.now ≤ t → t < 2 ^ 63 →
    ((s.live t db key).isSome ↔ t < deadline) ∧
      (pttl db [.bulk (lit "PTTL"), .bulk key] { env with now := t } s).1 =
        .integer (if t < deadline then deadline - t else -2)

/-- What a command answers that did not take effect. -/
def Declined (reply : RespValue) : Prop := reply.isError = true ∨ reply = .nullBulk ∨ reply = .integer 0

namespace TtlCommand

/-- The command takes effect with its exact deadline, or says that it does not and changes nothing. -/
def Honoured (db : Int) (env : Env) (s : KvStore F) (deadline : Int) (c : TtlCommand) : Prop :=
  let start := c.start env s
  let out := c.run db env s
  (c.Accepts F (start.live env.now db c.key) → LivesUntil db c.key env out.2 deadline) ∧
    (¬c.Accepts F (start.live env.now db c.key) → Declined out.1 ∧ out.2.view env.now = start.view env.now)

/-- GETEX with PX takes its EX for given as well. -/
def isGetexPx : TtlCommand → Bool
  | getexPx .. => true
  | _ => false

end TtlCommand

/-! ## Lemmas -/

variable {db : Int} {key : Bytes} {s : KvStore F}

theorem pttl_reply {env : Env} :
    (pttl db [.bulk (lit "PTTL"), .bulk key] env s).1 =
      .integer ((s.live env.now db key).elim (-2) fun o =>
        if o.expireAtMs = 0 then -1 else if KvStore.remaining o.expireAtMs env.now ≤ 0 then -2
          else KvStore.remaining o.expireAtMs env.now) := by
  have hrun : (pttl db [.bulk (lit "PTTL"), .bulk key] env s).1 = .integer (KvStore.pttl db key env s).1 := rfl
  rw [hrun, KvStore.pttl, KvStore.ttlWith, StoreM.withEnv, StoreM.onFound, KvStore.onFound_reply]
  congr 1
  cases s.live env.now db key with
  | none => rfl
  | some o =>
    simp only [Option.elim_some]
    split
    · rfl
    · split <;> rfl

omit [Platform F] in
theorem expired_iff (o : Item F) (t : Int) : o.expired t = true ↔ 0 < o.expireAtMs ∧ o.expireAtMs ≤ t := by
  simp [Item.expired]

theorem live_of_item {o : Item F} (hitem : s.item db key = some o)
    (t : Int) : s.live t db key = if o.expired t then none else some o := by
  rw [KvStore.live, hitem, Option.filter_some]
  cases o.expired t <;> rfl

/-- The difference wraps back to the exact one where that fits, and to nothing else. -/
theorem remaining_iff {e now deadline : Int} (he : IsI64 e) (h0 : 0 ≤ now) (h1 : now < 2 ^ 63) (hlt : now < deadline) :
    KvStore.remaining e now = deadline - now ↔ e = i64 deadline ∧ deadline < now + 2 ^ 63 := by
  obtain ⟨hlo, hhi⟩ := he
  rw [i64_eq]
  unfold KvStore.remaining
  split <;> split <;> omega

theorem wrapped_iff {deadline now : Int} (hpos : 0 < deadline) (hfits : deadline < now + 2 ^ 63) (h1 : now < 2 ^ 63) :
    i64 deadline = if deadline < 2 ^ 63 then deadline else deadline - 2 ^ 64 := by
  rw [i64_eq]
  split <;> split <;> omega

variable {deadline : Int}

/-- The promise is kept exactly when the right deadline is stored and not too far ahead. -/
theorem livesUntil_iff {env : Env} {o : Item F}
    (hitem : s.item db key = some o) (he : IsI64 o.expireAtMs) (h0 : 0 ≤ env.now) (h1 : env.now < 2 ^ 63)
    (hpos : 0 < deadline) (h : env.now < deadline ∨ o.expireAtMs = deadline) :
    LivesUntil db key env s deadline ↔ o.expireAtMs = i64 deadline ∧ deadline < env.now + 2 ^ 63 := by
  constructor
  · intro hl
    rcases h with hlt | heq
    · obtain ⟨hlive, hreply⟩ := hl env.now le_rfl h1
      rw [pttl_reply, if_pos hlt, RespValue.integer.injEq] at hreply
      obtain ⟨p, hp⟩ := Option.isSome_iff_exists.mp (hlive.mpr hlt)
      obtain rfl : o = p := Option.some.inj (hitem.symm.trans (KvStore.item_of_live hp))
      simp only [hp, Option.elim_some] at hreply
      refine (remaining_iff he h0 h1 hlt).mp ?_
      split at hreply
      · omega
      · split at hreply
        · omega
        · exact hreply
    · obtain ⟨hlo, hhi⟩ := he
      exact ⟨by rw [← heq]; exact (i64_of_range ⟨hlo, hhi⟩).symm, by omega⟩
  · rintro ⟨heq, hfits⟩ t ht hmax
    have hwrap := wrapped_iff hpos hfits h1
    have hexp := expired_iff o t
    rw [pttl_reply, live_of_item hitem t]
    by_cases hlt : t < deadline
    · have hno : o.expired t = false := by
        rw [Bool.eq_false_iff]
        intro hover
        have hpast := hexp.mp hover
        split at hwrap <;> omega
      have hleft : KvStore.remaining o.expireAtMs t = deadline - t :=
        (remaining_iff he (by omega) hmax hlt).mpr ⟨heq, by omega⟩
      have hne : o.expireAtMs ≠ 0 := by split at hwrap <;> omega
      rw [hno, if_pos hlt]
      refine ⟨⟨fun _ => hlt, fun _ => rfl⟩, congrArg RespValue.integer ?_⟩
      simp only [Bool.false_eq_true, if_false, Option.elim_some]
      rw [if_neg hne, hleft, if_neg (by omega)]
    · have hyes : o.expired t = true := hexp.mpr (by split at hwrap <;> omega)
      rw [hyes, if_neg hlt]
      refine ⟨⟨fun hs => (by cases hs), fun hl => absurd hl hlt⟩, rfl⟩

/-- What a command leaves: its key with a deadline, if it takes effect; else the contents as they were. -/
def Gives (db : Int) (key : Bytes) (now : Int) (start : KvStore F) (accepts : Prop) (deadline : Int)
    (out : RespValue × KvStore F) : Prop :=
  (accepts → ∃ o, out.2.item db key = some o ∧ o.expireAtMs = deadline) ∧
    (¬accepts → Declined out.1 ∧ Same now start out.2)

theorem gives_onEntry {α : Type} {now : Int} {start : KvStore F} {accepts : Prop}
    (body : Option (Item F) → Out (Item F) α) {f : α → RespValue}
    (hput : accepts → ∃ o, (body (start.live now db key)).act = .put o ∧ o.expireAtMs = deadline)
    (hkeep : ¬accepts → (body (start.live now db key)).act = .keep ∧
      Declined (f (body (start.live now db key)).reply)) :
    Gives db key now start accepts deadline
      (f (start.onEntry now db key body).1, (start.onEntry now db key body).2) := by
  constructor
  · intro ha
    obtain ⟨o, hact, hd⟩ := hput ha
    refine ⟨o, ?_, hd⟩
    rw [KvStore.item_onEntry, if_pos ⟨rfl, rfl⟩, hact]
    rfl
  · intro ha
    obtain ⟨hact, hreply⟩ := hkeep ha
    refine ⟨by rw [KvStore.onEntry_reply]; exact hreply, Same.onEntry ?_⟩
    rw [hact]
    rfl

theorem positive_eq {n : Option Int} {d : Int} : TtlCommand.positive n = some d ↔ n = some d ∧ 0 < d := by
  unfold TtlCommand.positive
  rw [Option.filter_eq_some_iff, decide_eq_true_eq]

theorem gives_setOpt (db : Int) (key value : Bytes) (nx xx : Bool) (ex px : Int) (f : Bool → RespValue)
    (hf : nx = true ∨ xx = true → Declined (f false)) (env : Env) (s : KvStore F) :
    let start := (evictIfNeededLocked env s).2
    Gives db key env.now start
      (¬(nx ∧ (start.live env.now db key).isSome) ∧ ¬(xx ∧ (start.live env.now db key).isNone))
      (KvStore.setDeadline env.now ex px) ((f <$> KvStore.setOpt db key value nx xx ex px) env s) := by
  intro start
  refine gives_onEntry (KvStore.setBody value nx xx (KvStore.setDeadline env.now ex px)) (f := f) ?_ ?_
  · rintro ⟨hnx, hxx⟩
    refine ⟨_, by rw [KvStore.setBody, if_neg (by simpa using hnx), if_neg (by simpa using hxx)], ?_⟩
    unfold KvStore.setItem
    split
    · rfl
    · split <;> rfl
  · intro hno
    unfold KvStore.setBody
    by_cases hnx : nx = true ∧ (start.live env.now db key).isSome = true
    · rw [if_pos (by simpa using hnx)]
      exact ⟨rfl, hf (.inl hnx.1)⟩
    · have hxx : xx = true ∧ (start.live env.now db key).isNone = true := by
        by_contra hc
        exact hno ⟨hnx, hc⟩
      rw [if_neg (by simpa using hnx), if_pos (by simpa using hxx)]
      exact ⟨rfl, hf (.inr hxx.1)⟩

variable {arg : Int}

theorem gives_expire (db : Int) (key : Bytes) (harg : 0 < arg) (deadline reply : Int) (now : Int)
    (s : KvStore F) :
    Gives db key now s ((s.live now db key).isSome : Prop) deadline
      (.integer (s.onEntry now db key (KvStore.expireBody arg deadline reply)).1,
        (s.onEntry now db key (KvStore.expireBody arg deadline reply)).2) := by
  refine gives_onEntry _ ?_ ?_
  · intro hsome
    obtain ⟨o, ho⟩ := Option.isSome_iff_exists.mp hsome
    rw [ho]
    unfold KvStore.expireBody
    simp only
    rw [if_neg (by omega)]
    exact ⟨_, rfl, rfl⟩
  · intro hnone
    rw [Option.not_isSome_iff_eq_none.mp hnone]
    exact ⟨rfl, .inr (.inr rfl)⟩

theorem gives_getex (db : Int) (key : Bytes) {option : GetexOption} (h : option.Valid) (env : Env)
    (s : KvStore F) :
    let start := (evictIfNeededLocked env s).2
    Gives db key env.now start (∃ o, start.live env.now db key = some o ∧ o.type = .string)
      (i64 (option.stored env.now)) (getexRun db key option env s) := by
  intro start
  rw [getexRun_eq h]
  refine gives_onEntry _ ?_ ?_
  · rintro ⟨o, ho, ht⟩
    rw [ho, getexBody_string ht env.now option]
    exact ⟨_, rfl, rfl⟩
  · intro hno
    cases ho : start.live env.now db key with
    | none => exact ⟨rfl, .inr (.inl rfl)⟩
    | some o =>
      have ht : o.type ≠ .string := fun ht => hno ⟨o, ho, ht⟩
      unfold KvStore.getexBody
      simp only [if_neg ht]
      exact ⟨trivial, .inl rfl⟩

theorem gives_restore (db : Int) (key payload : Bytes) (ttl : Int) (replace : Bool) (env : Env) (s : KvStore F) :
    Gives db key env.now s
      ((∃ o : Obj F, KvStore.parseDump payload = .ok o) ∧
        ¬((s.live env.now db key).isSome ∧ replace = false))
      (KvStore.restoreDeadline env.now ttl)
      (replyWith (KvStore.restoreKey db key ttl payload replace) (fun _ => RespValue.ok) env s) := by
  cases hp : KvStore.parseDump (F := F) payload with
  | error e =>
    have hrun : replyWith (KvStore.restoreKey db key ttl payload replace) (fun _ => RespValue.ok) env s =
        (.error e, s) := by
      show (replyTo (fun _ => RespValue.ok) (KvStore.restoreKey db key ttl payload replace env s).1, _) = _
      rw [KvStore.restoreKey, hp]
      rfl
    rw [hrun]
    exact ⟨fun ⟨⟨o, ho⟩, _⟩ => (by cases ho), fun _ => ⟨.inl rfl, Same.refl env.now s⟩⟩
  | ok o =>
    have hrun : replyWith (KvStore.restoreKey db key ttl payload replace) (fun _ => RespValue.ok) env s =
        let out := s.onEntry env.now db key
          (KvStore.restoreBody o (KvStore.restoreDeadline env.now ttl) replace)
        (replyTo (fun _ => RespValue.ok) out.1, out.2) := by
      show (replyTo (fun _ => RespValue.ok) (KvStore.restoreKey db key ttl payload replace env s).1, _) = _
      rw [KvStore.restoreKey, hp]
      rfl
    rw [hrun]
    refine gives_onEntry _ ?_ ?_
    · rintro ⟨-, hno⟩
      rw [KvStore.restoreBody, if_neg (by simpa using hno)]
      exact ⟨_, rfl, rfl⟩
    · intro hno
      have hbusy : (s.live env.now db key).isSome = true ∧ replace = false := by
        by_contra hc
        exact hno ⟨⟨o, rfl⟩, hc⟩
      rw [KvStore.restoreBody, if_pos (by simpa using hbusy)]
      exact ⟨rfl, .inl rfl⟩

/-- The deadline a command stores. -/
def TtlCommand.given (now deadline : Int) (c : TtlCommand) : Int := if c.isGetexPx then now else i64 deadline

variable {n : RespValue}

theorem isNull_of_parse (h : parseInt64Arg n = some arg) : n.isNull = false := by
  cases n with
  | nullBulk => cases h
  | _ => rfl

theorem expireCommand_run {command : String} {op : Int → Bytes → Int → StoreM F Int} {name key : Bytes}
    (h : parseInt64Arg n = some arg) (env : Env) (s : KvStore F) :
    expireCommand command op db [.bulk name, .bulk key, n] env s =
      (.integer (op db key arg env s).1, (op db key arg env s).2) := by
  have hnull := isNull_of_parse h
  unfold expireCommand
  rw [if_neg]
  · show withArg (parseInt64Arg n) _ _ env s = _
    rw [h]
    rfl
  · rintro (hlen | hkey | hn)
    · exact hlen rfl
    · cases hkey
    · exact absurd hnull (by simpa [nullAt] using hn)

theorem gives_expireCommand {command : String} {op : Int → Bytes → Int → StoreM F Int} {name key : Bytes}
    {arg deadline reply : Int} (h : parseInt64Arg n = some arg) (hpos : 0 < arg) (env : Env) (s : KvStore F)
    (hop : op db key arg env s = s.onEntry env.now db key (KvStore.expireBody arg deadline reply)) :
    Gives db key env.now s ((s.live env.now db key).isSome : Prop) deadline
      (expireCommand command op db [.bulk name, .bulk key, n] env s) := by
  rw [expireCommand_run h, hop]
  exact gives_expire db key hpos deadline reply env.now s

theorem setRun_eq {k v : Bytes} {options : List RespValue} {opt : SetOptions}
    (h : parseSetOptions {} options = .ok opt) :
    (TtlCommand.set k v options).run db =
      ((fun rc : Bool => if rc then RespValue.ok else .nullBulk) <$>
        KvStore.setOpt db k v opt.nx opt.xx opt.ex opt.px : StoreM F _) := by
  show Commands.set db ([.bulk (lit "SET"), .bulk k, .bulk v] ++ options) = _
  unfold Commands.set
  rw [if_neg]
  · show withParsed (parseSetOptions {} options) _ = _
    rw [h]
    rfl
  · rintro (hlen | hkey | hv)
    · simp only [List.length_append, List.length_cons, List.length_nil] at hlen
      omega
    · cases hkey
    · cases hv

theorem setexRun_eq {k v : Bytes} (h : parseInt64Arg n = some arg) :
    (TtlCommand.setex k v n).run db =
      ((fun _ => RespValue.ok) <$> KvStore.setOpt db k v false false arg (-1) : StoreM F _) := by
  have hnull := isNull_of_parse h
  show Commands.setex db [.bulk (lit "SETEX"), .bulk k, n, .bulk v] = _
  unfold Commands.setex
  rw [if_neg]
  · show withArg (parseInt64Arg n) _ _ = _
    rw [h]
    rfl
  · rintro (hlen | hkey | hn | hv)
    · exact hlen rfl
    · cases hkey
    · exact absurd hnull (by simpa [nullAt] using hn)
    · cases hv

theorem restoreRun_eq {k payload : Bytes} {options : List RespValue}
    (h : parseInt64Prefix n = some arg) :
    (TtlCommand.restore k payload n options).run db =
      (replyWith (KvStore.restoreKey db k arg payload (TtlCommand.replaces options)) (fun _ => RespValue.ok) :
        StoreM F _) := by
  have hnull : n.isNull = false := by
    cases n with
    | nullBulk => cases h
    | _ => rfl
  show Commands.restore db ([.bulk (lit "RESTORE"), .bulk k, n, .bulk payload] ++ options) = _
  unfold Commands.restore
  rw [if_neg]
  · show withArg (parseInt64Prefix n) _ _ = _
    rw [h]
    rfl
  · rintro (hlen | hkey | hn | hv)
    · simp only [List.length_append, List.length_cons, List.length_nil] at hlen
      omega
    · cases hkey
    · exact absurd hnull (by simpa [nullAt] using hn)
    · cases hv

/-- Every command stores its deadline cut to 64 bits, but for GETEX PX. -/
theorem run_gives (c : TtlCommand) (db : Int) {env : Env} (s : KvStore F) (h1 : IsI64 env.now)
    (hd : c.deadline env.now = some deadline) :
    Gives db c.key env.now (c.start env s) (c.Accepts F ((c.start env s).live env.now db c.key))
      (c.given env.now deadline) (c.run db env s) := by
  cases c with
  | set k v options =>
    simp only [TtlCommand.deadline] at hd
    cases hp : parseSetOptions {} options with
    | error e => rw [hp] at hd; cases hd
    | ok opt =>
      rw [hp] at hd
      have hgiven : KvStore.setDeadline env.now opt.ex opt.px = i64 deadline := by
        unfold KvStore.setDeadline
        simp only at hd
        split at hd
        next hex =>
          obtain ⟨n, hn, rfl⟩ := Option.map_eq_some_iff.mp hd
          obtain ⟨hn, -⟩ := positive_eq.mp hn
          rw [if_pos hex, Option.some.inj hn]
        next hex =>
          obtain ⟨n, hn, rfl⟩ := Option.map_eq_some_iff.mp hd
          obtain ⟨hn, hpos⟩ := positive_eq.mp hn
          rw [if_neg hex, Option.some.inj hn, if_pos (by omega)]
      have hgives := gives_setOpt db k v opt.nx opt.xx opt.ex opt.px
        (fun rc : Bool => if rc then RespValue.ok else .nullBulk) (fun _ => .inr (.inl rfl)) env s
      rw [hgiven] at hgives
      have haccepts : (TtlCommand.set k v options).Accepts F
          (((evictIfNeededLocked env s).2).live env.now db k) ↔
          ¬(opt.nx ∧ (((evictIfNeededLocked env s).2).live env.now db k).isSome) ∧
            ¬(opt.xx ∧ (((evictIfNeededLocked env s).2).live env.now db k).isNone) := by
        constructor
        · intro ha
          exact ha opt hp
        · intro ha opt' hp'
          obtain rfl := Except.ok.inj (hp.symm.trans hp')
          exact ha
      rw [setRun_eq hp]
      exact ⟨fun ha => hgives.1 (haccepts.mp ha), fun ha => hgives.2 fun hb => ha (haccepts.mpr hb)⟩
  | setex k v n =>
    obtain ⟨arg, harg, rfl⟩ := Option.map_eq_some_iff.mp hd
    obtain ⟨hn, hpos⟩ := positive_eq.mp harg
    have hgiven : KvStore.setDeadline env.now arg (-1) = i64 (env.now + arg * 1000) := by
      rw [KvStore.setDeadline, if_pos (by omega)]
    have hgives := gives_setOpt db k v false false arg (-1) (fun _ => RespValue.ok)
      (fun h => by rcases h with h | h <;> cases h) env s
    rw [hgiven] at hgives
    rw [setexRun_eq hn]
    exact ⟨fun _ => hgives.1 ⟨fun h => (by cases h.1), fun h => (by cases h.1)⟩, fun ha => absurd trivial ha⟩
  | expire k n =>
    obtain ⟨arg, harg, rfl⟩ := Option.map_eq_some_iff.mp hd
    obtain ⟨hn, hpos⟩ := positive_eq.mp harg
    exact gives_expireCommand hn hpos env s rfl
  | pexpire k n =>
    obtain ⟨arg, harg, rfl⟩ := Option.map_eq_some_iff.mp hd
    obtain ⟨hn, hpos⟩ := positive_eq.mp harg
    exact gives_expireCommand hn hpos env s rfl
  | expireat k n =>
    obtain ⟨arg, harg, rfl⟩ := Option.map_eq_some_iff.mp hd
    obtain ⟨hn, hpos⟩ := positive_eq.mp harg
    exact gives_expireCommand hn hpos env s rfl
  | pexpireat k n =>
    obtain ⟨hn, hpos⟩ := positive_eq.mp hd
    have hgiven : (TtlCommand.pexpireat k n).given env.now deadline = deadline :=
      i64_of_range (isI64_parseInt64Arg hn)
    rw [hgiven]
    exact gives_expireCommand hn hpos env s rfl
  | getexEx k n =>
    obtain ⟨arg, harg, rfl⟩ := Option.map_eq_some_iff.mp hd
    obtain ⟨hn, hpos⟩ := positive_eq.mp harg
    have hgiven : (GetexOption.ex n).stored env.now = env.now + arg * 1000 := by
      simp only [GetexOption.stored, hn, Option.getD_some]
      rw [if_pos (by omega)]
    have hvalid : (GetexOption.ex n).Valid := by
      rw [GetexOption.Valid, hn]
      rfl
    have hgives := gives_getex db k hvalid env s
    rw [hgiven] at hgives
    exact hgives
  | getexPx k n =>
    obtain ⟨arg, harg, rfl⟩ := Option.map_eq_some_iff.mp hd
    obtain ⟨hn, hpos⟩ := positive_eq.mp harg
    have hvalid : (GetexOption.px n).Valid := by
      rw [GetexOption.Valid, hn]
      rfl
    have hgives := gives_getex db k hvalid env s
    have hgiven : i64 ((GetexOption.px n).stored env.now) = env.now := i64_of_range h1
    rw [hgiven] at hgives
    exact hgives
  | restore k payload n options =>
    obtain ⟨arg, harg, rfl⟩ := Option.map_eq_some_iff.mp hd
    obtain ⟨hn, hpos⟩ := positive_eq.mp harg
    have hgiven : KvStore.restoreDeadline env.now arg = i64 (env.now + arg) := if_neg (by omega)
    have hgives := gives_restore db k payload arg (TtlCommand.replaces options) env s
    rw [hgiven] at hgives
    rw [restoreRun_eq hn]
    exact hgives

variable {c : TtlCommand}

theorem deadline_pos {now deadline : Int} (h0 : 0 ≤ now) (hd : c.deadline now = some deadline) :
    0 < deadline ∧ (c.isGetexPx = true → now < deadline) := by
  have hmap : ∀ {n : Option Int} {f : Int → Int}, (TtlCommand.positive n).map f = some deadline →
      ∃ d, 0 < d ∧ f d = deadline := by
    intro n f h
    obtain ⟨d, hn, hf⟩ := Option.map_eq_some_iff.mp h
    exact ⟨d, (positive_eq.mp hn).2, hf⟩
  cases c with
  | set k v options =>
    refine ⟨?_, fun h => by cases h⟩
    simp only [TtlCommand.deadline] at hd
    split at hd
    · cases hd
    · split at hd
      · obtain ⟨d, hpos, rfl⟩ := hmap hd
        omega
      · obtain ⟨d, hpos, rfl⟩ := hmap hd
        omega
  | pexpireat k n => exact ⟨(positive_eq.mp hd).2, fun h => by cases h⟩
  | getexPx k n =>
    obtain ⟨d, hpos, rfl⟩ := hmap hd
    exact ⟨by omega, fun _ => by omega⟩
  | _ =>
    obtain ⟨d, hpos, rfl⟩ := hmap hd
    exact ⟨by omega, fun h => by cases h⟩

theorem isI64_given {now : Int} (h1 : IsI64 now) (deadline : Int) : IsI64 (c.given now deadline) := by
  unfold TtlCommand.given
  split
  · exact h1
  · exact isI64_i64 deadline

/-- Less than `2^63` ahead, the stored deadline is the exact one, cut to 64 bits, but for GETEX PX. -/
theorem given_iff {now deadline : Int} (h0 : 0 ≤ now) (hd : c.deadline now = some deadline)
    (hfits : deadline < now + 2 ^ 63) : c.given now deadline = i64 deadline ↔ c.isGetexPx = false := by
  obtain ⟨-, hpx⟩ := deadline_pos h0 hd
  unfold TtlCommand.given
  cases h : c.isGetexPx with
  | true =>
    have hahead := hpx h
    rw [if_pos rfl, i64_eq]
    constructor
    · intro he
      split at he <;> omega
    · intro hf
      cases hf
  | false => exact iff_of_true (if_neg (by decide)) rfl

/-! ## Top theorem -/

/-- A time to live that a command takes is kept to the millisecond, and one that it does not take changes nothing,
exactly where the deadline is less than `2^63` ahead and the command is not GETEX PX, or it does not take effect. -/
theorem deadlines_exact_iff (c : TtlCommand) (db : Int) (env : Env) (s : KvStore F) (deadline : Int)
    (h0 : 0 ≤ env.now) (h1 : IsI64 env.now) (hd : c.deadline env.now = some deadline) :
    c.Honoured db env s deadline ↔ (c.Accepts F ((c.start env s).live env.now db c.key) →
      c.isGetexPx = false ∧ deadline < env.now + 2 ^ 63) := by
  obtain ⟨haccept, hdecline⟩ := run_gives c db s h1 hd
  obtain ⟨hpos, hpx⟩ := deadline_pos h0 hd
  by_cases ha : c.Accepts F ((c.start env s).live env.now db c.key)
  · obtain ⟨o, hitem, ho⟩ := haccept ha
    have hlate : env.now < deadline ∨ o.expireAtMs = deadline := by
      by_cases hlt : env.now < deadline
      · exact .inl hlt
      · -- a deadline in the past is stored as it is
        have hmax := h1.2
        have hplain : c.isGetexPx = false := Bool.eq_false_iff.mpr fun h => hlt (hpx h)
        rw [ho, (given_iff h0 hd (by omega)).mpr hplain]
        exact .inr (i64_of_range ⟨by omega, by omega⟩)
    have hlives := livesUntil_iff hitem (ho ▸ isI64_given h1 deadline) h0 h1.2 hpos hlate
    have hexact : LivesUntil db c.key env (c.run db env s).2 deadline ↔
        c.isGetexPx = false ∧ deadline < env.now + 2 ^ 63 := by
      rw [hlives, ho]
      exact and_congr_left fun hfits => given_iff h0 hd hfits
    exact ⟨fun h _ => hexact.mp (h.1 ha), fun h => ⟨fun _ => hexact.mpr (h ha), fun hn => absurd ha hn⟩⟩
  · obtain ⟨hreply, hsame⟩ := hdecline ha
    exact ⟨fun _ h => absurd h ha, fun _ => ⟨fun h => absurd h ha, fun _ => ⟨hreply, hsame.view⟩⟩⟩

/-- Three seconds, and the greatest number of milliseconds there is. -/
theorem deadlines_exact_iff_expire :
    (TtlCommand.expire (lit "k") (.bulk (lit "3"))).Honoured 0 { now := 5 } oneString 3005 ∧
      (TtlCommand.pexpire (lit "k") (.bulk (lit "9223372036854775807"))).Honoured 0 { now := 5 } oneString
        9223372036854775812 :=
  ⟨(deadlines_exact_iff (.expire (lit "k") (.bulk (lit "3"))) 0 { now := 5 } oneString 3005 (by decide) (by decide)
      (by decide)).mpr fun _ => ⟨rfl, by decide⟩,
    (deadlines_exact_iff (.pexpire (lit "k") (.bulk (lit "9223372036854775807"))) 0 { now := 5 } oneString _ (by decide)
      (by decide) (by decide)).mpr fun _ => ⟨rfl, by decide⟩⟩

/-- A time to live of `2^63 - 1` seconds makes the key permanent, until PTTL erases it. -/
theorem expire_wraps :
    let c : TtlCommand := .expire (lit "k") (.bulk (lit "9223372036854775807"))
    let out := c.run 0 { now := 5 } oneString
    c.deadline 5 = some 9223372036854775807005 ∧
      (out.2.item 0 (lit "k")).map Item.expireAtMs = some (-995) ∧
      ¬c.Honoured 0 { now := 5 } oneString 9223372036854775807005 := by
  intro c out
  have hd : c.deadline 5 = some 9223372036854775807005 := by decide
  have hstored : (out.2.item 0 (lit "k")).map Item.expireAtMs = some (-995) := by decide
  refine ⟨hd, hstored, fun h => ?_⟩
  obtain ⟨o, hitem, ho⟩ := Option.map_eq_some_iff.mp hstored
  have hkept := h.1 (by show (oneString.live 5 0 (lit "k")).isSome; decide)
  have hexact := (livesUntil_iff hitem (by rw [ho]; decide) (by decide) (by decide) (by decide) (.inl (by decide))).mp hkept
  exact absurd hexact.2 (by decide)

end Kv.Commands
