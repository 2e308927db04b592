import ZeroFrameworks.Kv.Commands.Strings

/-!
# GETEX

`getex` of the store takes an option for given when its number is not negative; the handler starts from 0, not from
the -1 of `setOpt`.  So EX is always taken for given: without an option, with PX, and with a negative EX (where PX
is), the key gets the clock reading for its deadline.

    the deadline that GETEX leaves = i64 (stored option now o)   (getex_run)
    GETEX does what its option says ↔ option.Right now o   (getex_right_iff)
-/

namespace Kv.Commands

open KvStore (evictIfNeededLocked)

variable {F : Type} [Platform F]

/-! ## Requests -/

/-- The options that GETEX has, with their numbers. -/
inductive GetexOption where
  | plain
  | ex (seconds : RespValue)
  | px (milliseconds : RespValue)
  | persist

namespace GetexOption

def words : GetexOption → List RespValue
  | plain => []
  | ex n => [.bulk (lit "EX"), n]
  | px n => [.bulk (lit "PX"), n]
  | persist => [.bulk (lit "PERSIST")]

/-- Every number of the option is one. -/
def Valid : GetexOption → Prop
  | ex n | px n => (parseInt64Arg n).isSome
  | _ => True

/-- The deadline the option asks for; `0` is none. -/
def wanted (now : Int) (o : Item F) : GetexOption → Int
  | plain => o.expireAtMs
  | ex n => now + (parseInt64Arg n).getD 0 * 1000
  | px n => now + (parseInt64Arg n).getD 0
  | persist => 0

/-- The deadline before it is cut to 64 bits. -/
def stored (now : Int) : GetexOption → Int
  | plain => now
  | ex n => if 0 ≤ (parseInt64Arg n).getD 0 then now + (parseInt64Arg n).getD 0 * 1000 else now
  | px _ => now
  | persist => 0

/-- When what is stored is what is asked for. -/
def Right (now : Int) (o : Item F) : GetexOption → Prop
  | plain => o.expireAtMs = now
  | ex n => 0 ≤ (parseInt64Arg n).getD 0 ∧ now + (parseInt64Arg n).getD 0 * 1000 < 2 ^ 63
  | px n => (parseInt64Arg n).getD 0 = 0
  | persist => True

end GetexOption

def getexRun (db : Int) (key : Bytes) (option : GetexOption) : StoreM F RespValue :=
  getex db ([.bulk (lit "GETEX"), .bulk key] ++ option.words)

/-! ## Specification -/

/-- GETEX answers as GET does, gives the key the deadline asked for and changes nothing else. -/
structure Expires (db : Int) (key : Bytes) (env : Env) (s : KvStore F) (o : Item F) (deadline : Int)
    (out : RespValue × KvStore F) : Prop where
  reply : out.1 = (get db [.bulk (lit "GET"), .bulk key] env s).1
  item : out.2.item db key = some { o with expireAtMs := deadline }
  others : ∀ db' key', ¬(db' = db ∧ key' = key) → out.2.item db' key' = s.item db' key'

/-! ## Lemmas -/

variable {key : Bytes}

theorem get_reply {db : Int} {env : Env} {s : KvStore F} {o : Item F}
    (hl : s.live env.now db key = some o) (ht : o.type = .string) :
    (get db [.bulk (lit "GET"), .bulk key] env s).1 = .bulk o.value := by
  have hty : HasType .string env.now db key s := by
    intro p hp
    rw [hl] at hp
    exact Option.some.inj hp ▸ ht
  have hreply := onField_reply hty fun v => ({ reply := .ok v } : Out Bytes (Except Bytes (Option Bytes)))
  rw [hl] at hreply
  show replyTo bulkOrNull (KvStore.get db key env s).1 = _
  rw [KvStore.get, hreply]
  rfl

/-- What the option loop makes of the option's words. -/
def parsed : GetexOption → GetexOptions
  | .plain => {}
  | .ex n => { ex := (parseInt64Arg n).getD 0 }
  | .px n => { px := (parseInt64Arg n).getD 0 }
  | .persist => { persist := true }

variable {option : GetexOption}

theorem parse_words (h : option.Valid) :
    parseGetexOptions {} option.words = .ok (parsed option) := by
  have hex : ¬upper (lit "EX") = lit "PERSIST" := by decide
  have hpx : ¬upper (lit "PX") = lit "PERSIST" := by decide
  cases option with
  | plain => rfl
  | ex n =>
    obtain ⟨d, hd⟩ := Option.isSome_iff_exists.mp h
    simp only [GetexOption.words, parseGetexOptions, RespValue.isNull, RespValue.str, if_neg hex, hd]
    rw [if_neg (by decide), if_pos (.inl (by decide)), parsed, hd]
    show Except.ok (if upper (lit "EX") = lit "EX" then ({ ex := d } : GetexOptions) else { px := d }) = _
    rw [if_pos (by decide)]
    rfl
  | px n =>
    obtain ⟨d, hd⟩ := Option.isSome_iff_exists.mp h
    simp only [GetexOption.words, parseGetexOptions, RespValue.isNull, RespValue.str, if_neg hpx, hd]
    rw [if_neg (by decide), if_pos (.inr (by decide)), parsed, hd]
    show Except.ok (if upper (lit "PX") = lit "EX" then ({ ex := d } : GetexOptions) else { px := d }) = _
    rw [if_neg (by decide)]
    rfl
  | persist => rfl

omit [Platform F] in
theorem deadline_parsed (now : Int) (o : Item F) (option : GetexOption) :
    (if (parsed option).persist then 0
      else if 0 ≤ (parsed option).ex then i64 (now + (parsed option).ex * 1000)
      else if 0 ≤ (parsed option).px then i64 (now + (parsed option).px)
      else o.expireAtMs) = i64 (option.stored now) := by
  cases option with
  | plain => simp [parsed, GetexOption.stored]
  | ex n =>
    by_cases hn : 0 ≤ (parseInt64Arg n).getD 0
    · simp [parsed, GetexOption.stored, hn]
    · simp [parsed, GetexOption.stored, hn]
  | px n => simp [parsed, GetexOption.stored]
  | persist => rfl

theorem getexRun_eq {db : Int} (h : option.Valid) (env : Env) (s : KvStore F) :
    getexRun db key option env s =
      let out := KvStore.onEntry env.now db key
        (KvStore.getexBody env.now (parsed option).ex (parsed option).px (parsed option).persist)
        (evictIfNeededLocked env s).2
      (replyTo bulkOrNull out.1, out.2) := by
  have hdrop : ([RespValue.bulk (lit "GETEX"), .bulk key] ++ option.words).drop 2 = option.words := rfl
  unfold getexRun getex
  rw [if_neg, hdrop, parse_words h]
  · rfl
  · rintro (hlt | hnull)
    · simp only [List.length_append, List.length_cons, List.length_nil] at hlt
      omega
    · cases hnull

omit [Platform F] in
theorem getexBody_string {o : Item F} (ht : o.type = .string) (now : Int) (option : GetexOption) :
    KvStore.getexBody now (parsed option).ex (parsed option).px (parsed option).persist (some o) =
      { act := .put { o with expireAtMs := i64 (option.stored now) }, touch := true, bump := true,
        reply := .ok (some o.value) } := by
  unfold KvStore.getexBody
  simp only [ht, if_true, deadline_parsed now o option]

theorem getex_run {db : Int} (h : option.Valid) {env : Env} {s : KvStore F}
    {o : Item F} (hl : (evictIfNeededLocked env s).2.live env.now db key = some o) (ht : o.type = .string) :
    Expires db key env (evictIfNeededLocked env s).2 o (i64 (option.stored env.now))
      (getexRun db key option env s) := by
  have hbody := getexBody_string ht env.now option
  rw [getexRun_eq h]
  refine ⟨?_, ?_, fun db' key' hne => ?_⟩
  · rw [get_reply hl ht]
    simp only [KvStore.onEntry_reply, hl, hbody]
    rfl
  · show (KvStore.onEntry ..).2.item db key = _
    rw [KvStore.item_onEntry, if_pos ⟨rfl, rfl⟩, hl, hbody]
    rfl
  · show (KvStore.onEntry ..).2.item db' key' = _
    rw [KvStore.item_onEntry, if_neg hne]

omit [Platform F] in
theorem right_iff {now : Int} (h0 : 0 ≤ now) (h1 : IsI64 now) (o : Item F) (option : GetexOption) :
    i64 (option.stored now) = option.wanted now o ↔ option.Right now o := by
  have hnow : i64 now = now := i64_of_range h1
  cases option with
  | plain =>
    show i64 now = o.expireAtMs ↔ o.expireAtMs = now
    rw [hnow]
    exact eq_comm
  | ex n =>
    unfold GetexOption.stored GetexOption.wanted GetexOption.Right
    simp only
    split
    next hn =>
      rw [i64_eq_iff]
      unfold IsI64
      omega
    next hn =>
      rw [hnow]
      omega
  | px n =>
    show i64 now = now + (parseInt64Arg n).getD 0 ↔ _
    rw [hnow]
    unfold GetexOption.Right
    omega
  | persist => exact ⟨fun _ => trivial, fun _ => rfl⟩

/-! ## Top theorem -/

/-- On a live string, in the store that eviction leaves: GETEX answers as GET, gives the deadline its option asks for
and changes nothing else, exactly with PERSIST, with an EX that is not negative and does not leave the 64 bits,
with PX 0, and without an option on a key whose deadline is this very moment. -/
theorem getex_right_iff (db : Int) (key : Bytes) (option : GetexOption) (env : Env) (s : KvStore F) (o : Item F)
    (hv : option.Valid) (h0 : 0 ≤ env.now) (h1 : IsI64 env.now)
    (hl : (evictIfNeededLocked env s).2.live env.now db key = some o) (ht : o.type = .string) :
    Expires db key env (evictIfNeededLocked env s).2 o (option.wanted env.now o) (getexRun db key option env s) ↔
      option.Right env.now o := by
  have hrun := getex_run hv hl ht
  rw [← right_iff h0 h1 o option]
  constructor
  · intro h
    have hitem := congrArg (Option.map Item.expireAtMs) (hrun.item.symm.trans h.item)
    exact Option.some.inj hitem
  · intro h
    rw [← h]
    exact hrun

/-- A string that is to stay. -/
def oneString : KvStore Int := (KvStore.set 0 (lit "k") (lit "v") { now := 1 } KvStore.empty).2

/-- A string that is to go at 90. -/
def passing : KvStore Int := oneString.putEntry 0 (lit "k") (some { value := lit "v", expireAtMs := 90 })

theorem getex_right_iff_persist :
    Expires 0 (lit "k") { now := 5 } (evictIfNeededLocked { now := 5 } passing).2
      { value := lit "v", expireAtMs := 90 } 0 (getexRun 0 (lit "k") .persist { now := 5 } passing) := by
  have hl : (evictIfNeededLocked { now := 5 } passing).2.live 5 0 (lit "k") =
      some ({ value := lit "v", expireAtMs := 90 } : Item Int) := by
    rfl
  exact (getex_right_iff 0 (lit "k") .persist { now := 5 } passing { value := lit "v", expireAtMs := 90 } trivial (by decide)
    (by decide) hl rfl).mpr trivial

/-- GETEX without an option puts an end to it. -/
theorem getex_plain_expires :
    (oneString.live 5 0 (lit "k")).map Item.expireAtMs = some 0 ∧
      ((getexRun 0 (lit "k") .plain { now := 5 } oneString).2.live 5 0 (lit "k")).isNone := by
  decide

end Kv.Commands
