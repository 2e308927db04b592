import ZeroFrameworks.Kv.Store.Runs

/-!
# When WATCH notices a change

Not every operation tells WATCH of what it does.  `KvOp.Overlooked` lists the calls that change a
key behind its back: deadlines that make a key go away, a rename onto a free name of the same shard,
the stream that a refused XADD leaves, reading as a consumer of a group, and a load.  In a run of
`Attentive` calls, where nothing is overlooked, no deadline of the key passes, and version and epoch
stay below `2 ^ 32`, the token shows every change:

    Attentive db key stop now s calls →
      (runCalls s calls).content stop db key ≠ s.content now db key →
      (runCalls s calls).token db key ≠ s.token db key   (token_ne_of_attentive)
-/

namespace Kv

variable {F : Type} [Platform F] {α : Type}

open KvStore

/-- A deadline that is over. -/
def Passed (now deadline : Int) : Prop := 0 < deadline ∧ deadline ≤ now

/-- The call makes the live key go away by a deadline. -/
def GoesAway (now : Int) (s : KvStore F) (db : Int) (key : Bytes) (arg deadline : Int) : Prop :=
  s.live now db key ≠ none ∧ (arg ≤ 0 ∨ Passed now deadline)

/-- The call changes the key without telling WATCH. -/
def KvOp.Overlooked (env : Env) (s : KvStore F) (db : Int) (key : Bytes) : KvOp F α → Prop
  | .expire d k n => At d k db key ∧ GoesAway env.now s d k n (i64 (env.now + n * 1000))
  | .pexpire d k n => At d k db key ∧ GoesAway env.now s d k n (i64 (env.now + n))
  | .expireAt d k n => At d k db key ∧ GoesAway env.now s d k n (i64 (n * 1000))
  | .pexpireAt d k n => At d k db key ∧ GoesAway env.now s d k n n
  | .ttl d k | .pttl d k => At d k db key ∧
      ∃ o, s.live env.now d k = some o ∧ o.expireAtMs < 0 ∧ KvStore.remaining o.expireAtMs env.now ≤ 0
  | .renameKey d src dst _ => RenameTo F d src dst db key ∧ src ≠ dst ∧
      s.live env.now d src ≠ none ∧ s.live env.now d dst = none
  | .xadd d k id fields => XaddRefused d k id db key ∧ fields ≠ [] ∧ s.live env.now d k = none
  | .xreadGroup d group _ names _ _ => AtAny d names db key ∧ HasGroup env.now db key group s
  | .loadFromString data => (KvStore.loadFromString data env s).1 = .ok ()
  | _ => False

/-! ## One call -/

variable {s : KvStore F} {key : Bytes} {db : Int}

namespace KvStore

variable {env : Env}

theorem noted_setLimit {op : KvOp F α} (h : op.Limits)
    (hw : s.Watching key) : Noted db key env.now 0 s (runOp op env s).2 := by
  obtain ⟨hi, hc⟩ := limits_runOp h env s
  obtain ⟨hv, he, hwatch⟩ := counted_congr hc db key
  exact ⟨hwatch.mpr hw, by omega, by omega, by omega, fun _ _ => content_of_item (by rw [hi])⟩

theorem noted_deadline {db d : Int} {key k : Bytes} {arg deadline reply : Int}
    (hw : s.Watching key) (hb : s.version db key + s.epoch db key + 1 < 2 ^ 32)
    (ho : ¬(At d k db key ∧ GoesAway env.now s d k arg deadline)) : Noted db key env.now 1 s
      (StoreM.onEntry d k (expireBody arg deadline reply) env s : Int × KvStore F).2 := by
  refine noted_expireBody hw hb fun hat hlive => ?_
  have hgo : ¬GoesAway env.now s d k arg deadline := fun hgo => ho ⟨hat, hgo⟩
  exact ⟨Int.not_le.mp fun h => hgo ⟨hlive, .inl h⟩, fun h => hgo ⟨hlive, .inr h⟩⟩

theorem loadFromString_refused {data : Bytes}
    (h : (loadFromString data env s).1 ≠ .ok ()) : (loadFromString data env s).2 = s := by
  unfold loadFromString at h ⊢
  split at h
  next he => rw [if_pos he]; rfl
  next he =>
    rw [if_neg he]
    split at h
    next hv =>
      rw [if_pos hv]
      unfold loadBinaryV2 at h ⊢
      split at h
      · rfl
      · exact absurd rfl h
    next hv =>
      rw [if_neg hv]
      unfold loadFromJsonV1 at h ⊢
      split at h
      · rfl
      · exact absurd rfl h

theorem noted_runOp {op : KvOp F α} (hdb : IsDb db)
    (ho : ¬op.Overlooked env s db key) (hw : s.Watching key)
    (hb : s.version db key + s.epoch db key + op.cost < 2 ^ 32) :
    Noted db key env.now op.cost s (runOp op env s).2 := by
  by_cases hl : op.Limits
  · exact (noted_setLimit hl hw).mono (Nat.zero_le _)
  by_cases hx : op.Exempt db key
  · -- the operations with an exempt key, one by one
    cases op with
    | persist => exact noted_persist hw hb
    | expire => exact noted_deadline hw hb ho
    | pexpire => exact noted_deadline hw hb ho
    | expireAt => exact noted_deadline hw hb ho
    | pexpireAt => exact noted_deadline hw hb ho
    | ttl d k =>
      exact noted_ttlWith hw hb fun hat o hlive hneg =>
        Int.not_le.mp fun hle => ho ⟨hat, o, hlive, hneg, hle⟩
    | pttl d k =>
      exact noted_ttlWith hw hb fun hat o hlive hneg =>
        Int.not_le.mp fun hle => ho ⟨hat, o, hlive, hneg, hle⟩
    | renameKey d src dst nx =>
      exact noted_renameKey hdb hw hb fun hto hne hsrc hdst => ho ⟨hto, hne, hsrc, hdst⟩
    | xadd d k id fields =>
      exact noted_xadd hdb hw hb fun hr hne hlive => ho ⟨hr, hne, hlive⟩
    | xreadGroup d group consumer names ids count =>
      exact (noted_xreadGroup hw fun hat hg => ho ⟨hat, hg⟩).mono (Nat.zero_le _)
    | loadFromString data =>
      have hsame : (runOp (.loadFromString data) env s).2 = s := loadFromString_refused ho
      rw [hsame]
      exact (Noted.refl hw).mono (Nat.zero_le _)
    | _ => exact hx.elim
  · exact (orderly_runOp op hl).noted env s db key hdb hx hw hb

end KvStore

/-! ## Runs -/

/-- No deadline of the key passes between two clock readings. -/
def Undisturbed (now later : Int) (s : KvStore F) (db : Int) (key : Bytes) : Prop :=
  (s.item db key).all (fun o => o.expired now == o.expired later) = true

theorem content_of_undisturbed {now later : Int}
    (h : Undisturbed now later s db key) : s.content later db key = s.content now db key := by
  unfold Undisturbed at h
  unfold KvStore.content KvStore.live
  cases ho : s.item db key with
  | none => rfl
  | some o =>
    rw [ho, Option.all_some, beq_iff_eq] at h
    simp [Option.filter, h]

/-- The calls of a run that starts at the clock reading `now` and is looked at again at `stop` tell
WATCH of everything that happens to the key. -/
def Attentive (db : Int) (key : Bytes) (stop : Int) (now : Int) (s : KvStore F) : List (Call F) → Prop
  | [] => Undisturbed now stop s db key
  | c :: calls => Undisturbed now c.env.now s db key ∧ ¬c.op.Overlooked c.env s db key ∧
      s.version db key + s.epoch db key + c.op.cost < 2 ^ 32 ∧
      Attentive db key stop c.env.now (c.after s) calls

/-- What a run of such calls does to the key: an unchanged version and epoch mean unchanged contents. -/
theorem noted_runCalls (hdb : IsDb db) {stop now : Int}
    {calls : List (Call F)} (hw : s.Watching key) (h : Attentive db key stop now s calls)
    (hc : s.version db key + s.epoch db key < 2 ^ 32) :
    s.version db key ≤ (runCalls s calls).version db key ∧
      s.epoch db key ≤ (runCalls s calls).epoch db key ∧
      (runCalls s calls).version db key + (runCalls s calls).epoch db key < 2 ^ 32 ∧
      ((runCalls s calls).version db key = s.version db key →
        (runCalls s calls).epoch db key = s.epoch db key →
        (runCalls s calls).content stop db key = s.content now db key) := by
  induction calls generalizing now s with
  | nil => exact ⟨le_rfl, le_rfl, hc, fun _ _ => content_of_undisturbed h⟩
  | cons c calls ih =>
    obtain ⟨hd, ho, hroom, hrest⟩ := h
    have hone := KvStore.noted_runOp hdb ho hw hroom
    have hbound := hone.bound
    have hv := hone.version
    have he := hone.epoch
    obtain ⟨hv', he', hlt, hsame⟩ := ih hone.watching hrest (by omega)
    refine ⟨hv.trans hv', he.trans he', hlt, fun h1 h2 => ?_⟩
    have hver : (KvStore.runOp c.op c.env s).2.version db key = s.version db key :=
      le_antisymm (hv'.trans h1.le) hv
    have hep : (KvStore.runOp c.op c.env s).2.epoch db key = s.epoch db key :=
      le_antisymm (he'.trans h2.le) he
    have hstep := hone.content hver hep
    have hlater : (runCalls (c.after s) calls).content stop db key =
        (c.after s).content c.env.now db key := hsame (h1.trans hver.symm) (h2.trans hep.symm)
    exact (hlater.trans hstep).trans (content_of_undisturbed hd)

theorem token_ne_of_attentive (hdb : IsDb db) {stop now : Int}
    {calls : List (Call F)} (hw : s.Watching key) (h : Attentive db key stop now s calls)
    (hne : (runCalls s calls).content stop db key ≠ s.content now db key) :
    (runCalls s calls).token db key ≠ s.token db key := by
  cases calls with
  | nil => exact absurd (content_of_undisturbed h) hne
  | cons c calls =>
    have hroom := h.2.2.1
    obtain ⟨hv, he, hlt, hsame⟩ := noted_runCalls hdb hw h (by omega)
    intro htok
    have hcount : s.Counted db key := ⟨by omega, by omega⟩
    have hcount' : (runCalls s (c :: calls)).Counted db key := ⟨by omega, by omega⟩
    obtain ⟨h1, h2⟩ := KvStore.token_inj hcount' hcount htok
    exact hne (hsame h1 h2)

/-- A token taken at `env` and one taken at `env'`, after calls that tell WATCH of what they do. -/
theorem watchToken_sound (s : KvStore F) (env env' : Env) (db : Int) (key : Bytes) (hdb : IsDb db)
    (calls : List (Call F))
    (h : Attentive db key env'.now env.now (KvStore.watchToken db key env s).2 calls) :
    let watched := (KvStore.watchToken db key env s).2
    let s' := runCalls watched calls
    s'.content env'.now db key ≠ watched.content env.now db key →
      (KvStore.watchToken db key env' s').1 ≠ (KvStore.watchToken db key env s).1 := by
  intro watched s' hne
  have hnoted : Noted db key env.now 0 s watched := KvStore.noted_watchToken (.inr rfl)
  have htok : watched.token db key = s.token db key := by
    rw [KvStore.token_eq, KvStore.token_eq]
    have hv := hnoted.version
    have he := hnoted.epoch
    have hb := hnoted.bound
    rw [show watched.version db key = s.version db key by omega,
      show watched.epoch db key = s.epoch db key by omega]
  have hmain := token_ne_of_attentive hdb hnoted.watching h hne
  rw [htok] at hmain
  exact hmain

/-- Two keys of one shard. -/
def twoKeys : KvStore Int :=
  runCalls .empty [⟨.set 0 (lit "k") (lit "v"), { now := 1 }⟩, ⟨.set 0 (lit "kk") (lit "w"), { now := 1 }⟩]

def watchedStore : KvStore Int := (KvStore.watchToken 0 (lit "k") { now := 2 } twoKeys).2

def appended : List (Call Int) := [⟨.append 0 (lit "k") (lit "!"), { now := 3 }⟩]

theorem attentive_appended : Attentive 0 (lit "k") 4 2 watchedStore appended := by
  unfold appended Attentive Attentive Undisturbed
  refine ⟨by decide, id, by decide, by decide⟩

theorem watchToken_sound_append :
    (KvStore.watchToken 0 (lit "k") { now := 4 } (runCalls watchedStore appended)).1 ≠
      (KvStore.watchToken 0 (lit "k") { now := 2 } twoKeys).1 := by
  have hne : (runCalls watchedStore appended).content 4 0 (lit "k") ≠
      watchedStore.content 2 0 (lit "k") := by
    intro heq
    have hvalue := congrArg (Option.map fun o : Obj Int => o.value) heq
    revert hvalue
    decide
  exact watchToken_sound twoKeys { now := 2 } { now := 4 } 0 (lit "k") (by decide) appended
    attentive_appended hne

/-- EXPIRE with a zero argument takes the key away, and RENAME onto a free name of the same shard
makes one, and the tokens stay. -/
theorem expire_and_rename_overlooked :
    let gone := (KvStore.runOp (.expire 0 (lit "k") 0) { now := 3 } watchedStore).2
    let free := (KvStore.runOp (.del 0 (lit "k")) { now := 3 } watchedStore).2
    let renamed := (KvStore.runOp (.renameKey 0 (lit "kk") (lit "k") false) { now := 4 } free).2
    ((watchedStore.content 2 0 (lit "k")).isSome = true ∧ (gone.content 3 0 (lit "k")).isNone = true ∧
        (KvStore.watchToken 0 (lit "k") { now := 4 } gone).1 = watchedStore.token 0 (lit "k")) ∧
      (free.content 3 0 (lit "k")).isNone = true ∧ (renamed.content 4 0 (lit "k")).isSome = true ∧
        (KvStore.watchToken 0 (lit "k") { now := 5 } renamed).1 = free.token 0 (lit "k") := by
  decide

end Kv
