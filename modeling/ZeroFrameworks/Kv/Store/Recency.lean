import ZeroFrameworks.Kv.Store.Touches
import ZeroFrameworks.Lib.Runs

/-!
# Recency of access

An LRU eviction compares `lru_ms`, which nothing but `touchEntry` sets.  Beside the store goes the clock reading
at which each key was last accessed (`History`).  Most operations do not touch the entries they read or write; in
a run of those that do (`History.Fresh`) the two are the same, and the victim of a round is the candidate whose last
access is the earliest.

    Along next Fresh {} calls → RecentFirst (calls.foldl next {})   (recentFirst_run)
-/

namespace Kv

variable {F : Type} {α : Type}

/-! ## Specification -/

/-- The operation replaces the contents by a file's. -/
def KvOp.Loads : KvOp F α → Prop
  | .loadFromString _ => True
  | _ => False

variable [Platform F]

/-- A store, and when each key was last accessed. -/
structure History (F : Type) [Platform F] where
  store : KvStore F := KvStore.empty
  accessed : Int → Bytes → Int := fun _ _ => 0

namespace History

/-- The call accesses the key: it reads or writes it, and leaves a value of its type there. -/
def accesses (h : History F) (c : Call F) (db : Int) (key : Bytes) : Bool :=
  decide ((db, key) ∈ c.op.accessed c.env.now h.store) &&
    ((c.after h.store).item db key).any fun o => c.op.takes o.type

/-- The call is made. -/
def next (h : History F) (c : Call F) : History F where
  store := c.after h.store
  accessed db key := if h.accesses c db key then c.env.now else h.accessed db key

/-- The call touches what it accesses, or loads a file before anything is accessed. -/
def Fresh (h : History F) (c : Call F) : Prop :=
  c.op.Fresh c.env h.store ∨ c.op.Loads ∧ ∀ db key, h.accessed db key = 0

end History

/-- Under the LRU policies every victim of an eviction was accessed no later than the others of its sample,
whatever the eviction meets. -/
def RecentFirst (h : History F) : Prop :=
  h.store.conf.maxmemoryPolicy = lit "allkeys-lru" ∨ h.store.conf.maxmemoryPolicy = lit "volatile-lru" →
    ∀ env n s draw c, KvStore.Rounds env n h.store s → s.conf.maxmemory < s.usedMemory env →
      s.victim env draw = some c → ∀ d ∈ s.sample env, h.accessed c.db c.key ≤ h.accessed d.db d.key

/-! ## Lemmas: victims -/

/-- Every entry carries the time of the last access to its key. -/
def Dated (accessed : Int → Bytes → Int) (s : KvStore F) : Prop :=
  ∀ db key e, s.entry db key = some e → e.lruMs = accessed db key

omit [Platform F] in
theorem le_of_leastBy {f : Candidate F → Int} {l : List (Candidate F)} {c : Candidate F} (h : leastBy f l = some c) :
    ∀ d ∈ l, f c ≤ f d := by
  induction l generalizing c with
  | nil => cases h
  | cons d l ih =>
    unfold leastBy at h
    split at h
    next hnone =>
      cases h
      rw [KvStore.leastBy_eq_none_iff.mp hnone]
      intro d' hd'
      rw [List.mem_singleton.mp hd']
    next best hbest =>
      have hle := ih hbest
      intro d' hd'
      split at h
      next hlt =>
        cases h
        rcases List.mem_cons.mp hd' with rfl | hd'
        · exact Int.le_of_lt hlt
        · exact hle d' hd'
      next hnlt =>
        cases h
        rcases List.mem_cons.mp hd' with rfl | hd'
        · exact Int.le_refl _
        · exact Int.le_trans (Int.not_lt.mp hnlt) (hle d' hd')

variable {accessed : Int → Bytes → Int} {env : Env} {s s' : KvStore F}

theorem Dated.rounds (h : Dated accessed s) {n : Nat} (hr : KvStore.Rounds env n s s') : Dated accessed s' := by
  intro db key e he
  rcases KvStore.entry_of_rounds hr db key with heq | ⟨hnone, -⟩
  · exact h db key e (heq ▸ he)
  · rw [hnone] at he
    cases he

theorem Dated.sample (h : Dated accessed s) {d : Candidate F} (hd : d ∈ s.sample env) :
    d.entry.lruMs = accessed d.db d.key := by
  have hd := (KvStore.mem_eligible.mp (List.mem_of_mem_take hd)).1
  unfold KvStore.unexpired at hd
  obtain ⟨x, hx, rfl⟩ := List.mem_map.mp (List.mem_of_mem_filter hd)
  exact h _ _ _ (KvStore.entry_of_mem_listing hx).2

variable {h : History F}

theorem Dated.recentFirst (hd : Dated h.accessed h.store) : RecentFirst h := by
  intro hpolicy env n s draw c hr _ hv d hmem
  have hs := hd.rounds hr
  have hlru : KvStore.choose env.now s.conf.maxmemoryPolicy draw (s.sample env) =
      leastBy (fun c => c.entry.lruMs) (s.sample env) := by
    rw [KvStore.conf_of_rounds hr]
    unfold KvStore.choose
    rcases hpolicy with hp | hp
    · rw [hp]
      rfl
    · rw [hp]
      rfl
  rw [KvStore.victim_eq, hlru] at hv
  rw [← hs.sample (KvStore.mem_of_leastBy hv), ← hs.sample hmem]
  exact le_of_leastBy hv d hmem

/-! ## Lemmas: steps -/

theorem dated_empty : Dated (F := F) (fun _ _ => 0) KvStore.empty := by
  intro db key e he
  cases he

theorem entry_install {entries : List (Int × Bytes × Item F)} {db : Int} {key : Bytes} {e : Entry F}
    (h : (KvStore.install entries s).entry db key = some e) : e.lruMs = 0 := by
  have hall : ∀ t : KvStore F, (∀ db key e, t.entry db key = some e → e.lruMs = 0) → ∀ db key e,
      (entries.foldl (fun s e => s.putEntry e.1 e.2.1 (some { e.2.2 with })) t).entry db key = some e → e.lruMs = 0 := by
    clear h
    induction entries with
    | nil => exact fun t ht => ht
    | cons x entries ih =>
      refine fun t ht => ih _ fun db key e he => ?_
      rw [KvStore.entry_putEntry] at he
      split at he
      · cases he
        rfl
      · exact ht db key e he
  exact hall s.cleared (fun db key e he => by cases he) db key e h

theorem dated_load {data : Bytes} (h : Dated (fun _ _ => 0) s) :
    Dated (fun _ _ => 0) (KvStore.loadFromString data env s).2 := by
  intro db key e he
  unfold KvStore.loadFromString at he
  split at he
  · exact h db key e he
  · split at he
    · unfold KvStore.loadBinaryV2 at he
      split at he
      · exact h db key e he
      · exact entry_install he
    · unfold KvStore.loadFromJsonV1 at he
      split at he
      · exact h db key e he
      · exact entry_install he

theorem accesses_iff {c : Call F} {db : Int} {key : Bytes} {o : Item F}
    (ho : (c.after h.store).item db key = some o) : h.accesses c db key = true ↔
      (db, key) ∈ c.op.accessed c.env.now h.store ∧ c.op.takes o.type = true := by
  unfold History.accesses
  rw [ho, Option.any_some, Bool.and_eq_true, decide_eq_true_iff]

theorem Dated.next {c : Call F} (hd : Dated h.accessed h.store) (hc : h.Fresh c) :
    Dated (h.next c).accessed (h.next c).store := by
  rcases hc with hfresh | ⟨hload, hzero⟩
  · intro db key e he
    have hone := KvStore.refreshed_runOp c.op c.env h.store hfresh db key e he
    have hitem : (c.after h.store).item db key = some e.toItem := congrArg (Option.map Entry.toItem) he
    show e.lruMs = if h.accesses c db key then _ else _
    split at hone
    next hacc => rw [if_pos ((accesses_iff hitem).mpr hacc), hone]
    next hacc =>
      obtain ⟨e0, he0, hlru, -⟩ := hone
      rw [if_neg fun hx => hacc ((accesses_iff hitem).mp hx), ← hlru]
      exact hd db key e0 he0
  · obtain ⟨op, callEnv⟩ := c
    cases op with
    | loadFromString data =>
      have hacc : h.accessed = fun _ _ => 0 := funext fun db => funext fun key => hzero db key
      rw [hacc] at hd
      have hnext : (h.next ⟨.loadFromString data, callEnv⟩).accessed = fun _ _ => 0 := by
        funext db key
        exact hzero db key
      rw [hnext]
      exact dated_load hd
    | _ => exact hload.elim

/-! ## Top theorem -/

theorem recentFirst_run (calls : List (Call F)) (h : Runs.Along History.next History.Fresh {} calls) :
    RecentFirst (calls.foldl History.next {}) :=
  (h.run (fun h : History F => Dated h.accessed h.store) (fun _ _ hd hc => hd.next hc) dated_empty).recentFirst

/-- APPEND and STRLEN touch. -/
def touchedRun : List (Call Int) :=
  [⟨.setMaxMemoryPolicy (lit "allkeys-lru"), { now := 1 }⟩, ⟨.append 0 (lit "a") (lit "1"), { now := 1 }⟩,
    ⟨.append 0 (lit "b") (lit "2"), { now := 2 }⟩, ⟨.strlen 0 (lit "a"), { now := 3 }⟩,
    ⟨.setMaxMemory 1, { now := 3 }⟩]

theorem recentFirst_touchedRun : RecentFirst (touchedRun.foldl History.next {}) :=
  recentFirst_run touchedRun (Runs.along_cons.mpr ⟨.inl trivial, Runs.along_cons.mpr ⟨.inl trivial,
    Runs.along_cons.mpr ⟨.inl trivial, Runs.along_cons.mpr ⟨.inl trivial, Runs.along_cons.mpr ⟨.inl trivial,
      Runs.along_nil⟩⟩⟩⟩⟩)

/-- SET and GET do not. -/
def untouchedRun : List (Call Int) :=
  [⟨.setMaxMemoryPolicy (lit "allkeys-lru"), { now := 1 }⟩, ⟨.set 0 (lit "a") (lit "1"), { now := 1 }⟩,
    ⟨.set 0 (lit "b") (lit "2"), { now := 2 }⟩, ⟨.get 0 (lit "a"), { now := 3 }⟩, ⟨.setMaxMemory 1, { now := 3 }⟩]

/-- The key read last goes first. -/
theorem get_unnoticed : ¬RecentFirst (untouchedRun.foldl History.next {}) := by
  intro h
  have hle := h (.inl rfl) { now := 3 } 0 _ 0 ⟨0, lit "a", { value := lit "1" }⟩ rfl (by decide) rfl
    ⟨0, lit "b", { value := lit "2" }⟩ (List.mem_of_getElem? (i := 1) rfl)
  exact absurd hle (by decide)

end Kv
