import ZeroFrameworks.Kv.Store.Ops

/-!
# Runs of operations

A `Call` is an operation with the `Env` it meets; `runCalls` makes one call after the other.

    shaped_runCalls      without RESTORE and loads, only the component of an entry's own type is in
        use, and no container is empty
    purging_transparent  with clocks that do not go back and no memory limit, calls that purge or
        list in between change no reply (but the number of purged entries), and
        every call replies as if expired entries were absent
-/

namespace Kv

variable {F : Type} [Platform F] {α : Type}

/-- An operation and what it meets. -/
structure Call (F : Type) where
  {α : Type}
  op : KvOp F α
  env : Env

namespace Call

/-- The store after the call. -/
def after (c : Call F) (s : KvStore F) : KvStore F := (KvStore.runOp c.op c.env s).2

end Call

def runCalls (s : KvStore F) (calls : List (Call F)) : KvStore F := calls.foldl (fun s c => c.after s) s

/-! ## Shapes -/

namespace KvOp

omit [Platform F] in
/-- Neither RESTORE nor a load. -/
def Plain : KvOp F α → Prop
  | .restoreKey .. | .loadFromString _ => False
  | _ => True

omit [Platform F] in
theorem shape_of_plain {op : KvOp F α} (h : op.Plain) : op.Shape = Obj.Shaped := by
  cases op <;> first | rfl | exact h.elim

end KvOp

namespace KvStore

theorem limits_runOp {op : KvOp F α} (h : op.Limits) (env : Env) (s : KvStore F) :
    (runOp op env s).2.item = s.item ∧ (runOp op env s).2.counters = s.counters := by
  cases op <;> first | exact h.elim | exact ⟨rfl, rfl⟩

theorem all_runOp {op : KvOp F α} {env : Env} {s : KvStore F} (h : s.All op.Shape) :
    (runOp op env s).2.All op.Shape := by
  by_cases hl : op.Limits
  · unfold All
    rw [(limits_runOp hl env s).1]
    exact h
  · exact (orderly_runOp op hl).keeps env s h

theorem all_runCalls {s : KvStore F} (h : s.All Obj.Shaped) {calls : List (Call F)}
    (hc : ∀ c ∈ calls, c.op.Plain) : (runCalls s calls).All Obj.Shaped := by
  induction calls generalizing s with
  | nil => exact h
  | cons c calls ih =>
    have hshape := KvOp.shape_of_plain (hc c List.mem_cons_self)
    refine ih ?_ fun c' hc' => hc c' (List.mem_cons_of_mem _ hc')
    rw [← hshape] at h ⊢
    exact all_runOp h

end KvStore

/-- Every entry of a reachable store has the shape of its type. -/
theorem shaped_runCalls (calls : List (Call F)) (hc : ∀ c ∈ calls, c.op.Plain) (db : Int) (key : Bytes)
    (e : Entry F) (he : (runCalls .empty calls).entry db key = some e) : e.toObj.Shaped := by
  have hempty : (KvStore.empty : KvStore F).All Obj.Shaped := fun db key o ho => by cases ho
  have hi : (runCalls .empty calls).item db key = some e.toItem := by
    unfold KvStore.item
    rw [he]
    rfl
  exact KvStore.all_runCalls hempty hc db key e.toItem hi

/-- A list of one element that moves to another key. -/
def movedList : List (Call Int) :=
  [⟨.listPush 0 (lit "a") [lit "x"] true, { now := 1 }⟩, ⟨.listRPopLPush 0 (lit "a") (lit "b"), { now := 2 }⟩]

theorem shaped_movedList : ((runCalls .empty movedList).entry 0 (lit "b")).isSome = true ∧
    (runCalls .empty movedList).entry 0 (lit "a") = none ∧
    ∀ e, (runCalls .empty movedList).entry 0 (lit "b") = some e → e.toObj.Shaped := by
  refine ⟨by decide, ?_, fun e he => shaped_runCalls movedList (fun c hc => ?_) 0 (lit "b") e he⟩
  · refine Option.isNone_iff_eq_none.mp ?_
    decide +kernel
  · simp only [movedList, List.mem_cons, List.not_mem_nil, or_false] at hc
    rcases hc with rfl | rfl <;> trivial

/-! ## Expired entries do not show -/

namespace SameView

variable {now : Int} {s t : KvStore F}

theorem live_later {later : Int} (h : now ≤ later) (s : KvStore F) (db : Int) (key : Bytes) :
    s.live later db key = (s.live now db key).filter fun o => !o.expired later := by
  unfold KvStore.live
  cases s.item db key with
  | none => rfl
  | some o =>
    by_cases he : o.expired now = true
    · have hlater : o.expired later = true := by
        simp only [Item.expired, Bool.and_eq_true, decide_eq_true_eq] at he ⊢
        omega
      simp [Option.filter, he, hlater]
    · simp [Option.filter, he]

theorem later {later : Int} (h : SameView now s t) (hle : now ≤ later) : SameView later s t := by
  refine ⟨h.conf, h.unlimited, h.counters, ?_⟩
  funext db key
  have hl := h.live db key
  have hfilter : ∀ u : KvStore F, (u.live later db key).map Item.norm =
      ((u.live now db key).map Item.norm).filter fun o => !o.expired later := by
    intro u
    rw [live_later hle]
    cases u.live now db key with
    | none => rfl
    | some o => cases ho : o.expired later <;> simp [Option.filter, ho]
  unfold KvStore.view
  rw [hfilter, hfilter, hl]

end SameView

namespace KvOp

/-- The operations that purge or list. -/
def Lists : KvOp F α → Prop
  | .purgeExpiredActive _ | .dbsize _ | .expireCount _ | .keys .. | .scan .. => True
  | _ => False

end KvOp

namespace KvStore

theorem lists_runOp {op : KvOp F α} (h : op.Lists) (env : Env) {s : KvStore F}
    (hu : s.conf.maxmemory ≤ 0) : SameView env.now s (runOp op env s).2 := by
  cases op <;> first
    | exact h.elim
    | exact .of_same hu (same_purgeExpiredDb env s) (counters_purgeExpiredDb env s)
    | exact .of_same hu (reads_purgeExpiredActive env s trivial trivial) (counters_purgeExpiredActive _ env s)

/-- The store without its expired entries. -/
def withoutExpired (now : Int) (s : KvStore F) : KvStore F :=
  ((List.finRange 16).flatMap fun i => (s.shards i).dbs.keys).foldl
    (fun s db => s.filterDb db fun e => !e.expired now) s

theorem entry_foldl_filterDb (p : Entry F → Bool) (dbs : List Int) (s : KvStore F) (db : Int) (key : Bytes) :
    (dbs.foldl (fun s db => s.filterDb db p) s).entry db key =
      if db ∈ dbs then (s.entry db key).filter p else s.entry db key := by
  induction dbs generalizing s with
  | nil => rfl
  | cons d dbs ih =>
    rw [List.foldl_cons, ih, entry_filterDb]
    by_cases hd : db = d
    · subst hd
      cases s.entry db key with
      | none => simp
      | some e => by_cases he : p e = true <;> simp [Option.filter, he]
    · simp [hd]

theorem entry_withoutExpired (now : Int) (s : KvStore F) (db : Int) (key : Bytes) :
    (s.withoutExpired now).entry db key = (s.entry db key).filter fun e => !e.expired now := by
  unfold withoutExpired
  rw [entry_foldl_filterDb]
  split
  · rfl
  next hdb =>
    -- a database that no shard has
    have hnone : s.entry db key = none := by
      unfold entry dbMap
      cases hl : (s.shards (shardIdx F key)).dbs.lookup db with
      | none => rfl
      | some m =>
        refine absurd (List.mem_flatMap.mpr ⟨shardIdx F key, List.mem_finRange _, ?_⟩) hdb
        exact AList.mem_keys.mp (AList.lookup_isSome.mp (by rw [hl]; rfl))
    rw [hnone]
    rfl

theorem counters_withoutExpired (now : Int) (s : KvStore F) :
    (s.withoutExpired now).counters = s.counters := by
  have hfold : ∀ (l : List Int) (s : KvStore F),
      (l.foldl (fun s db => s.filterDb db fun e => !e.expired now) s).counters = s.counters := by
    intro l
    induction l with
    | nil => exact fun s => rfl
    | cons d l ih => exact fun s => (ih _).trans (counters_filterDb ..)
  exact hfold _ s

theorem conf_withoutExpired (now : Int) (s : KvStore F) : (s.withoutExpired now).conf = s.conf := by
  have hfold : ∀ (l : List Int) (s : KvStore F),
      (l.foldl (fun s db => s.filterDb db fun e => !e.expired now) s).conf = s.conf := by
    intro l
    induction l with
    | nil => exact fun s => rfl
    | cons d l ih => exact fun s => ih _
  exact hfold _ s

theorem sameView_withoutExpired {now : Int} {s : KvStore F} (hu : s.conf.maxmemory ≤ 0) :
    SameView now s (s.withoutExpired now) := by
  refine ⟨(conf_withoutExpired now s).symm, hu, (counters_withoutExpired now s).symm, ?_⟩
  funext db key
  unfold view live item
  rw [entry_withoutExpired]
  cases s.entry db key with
  | none => rfl
  | some e => cases he : e.expired now <;> simp [Option.filter, he]

end KvStore

/-! ## Calls in between -/

/-- What a call returned, by its type; `none` for the number of purged entries. -/
structure Reply where
  {α : Type}
  value : Option α

/-- The replies to the calls that are not marked as made in between. -/
def heard (s : KvStore F) : List (Bool × Call F) → List Reply
  | [] => []
  | (between, c) :: calls =>
    let rest := heard (c.after s) calls
    if between then rest else ⟨c.op.shown (KvStore.runOp c.op c.env s).1⟩ :: rest

/-- As `heard`, with the expired entries taken away before every call. -/
def heardFresh (s : KvStore F) : List (Bool × Call F) → List Reply
  | [] => []
  | (between, c) :: calls =>
    let s := s.withoutExpired c.env.now
    let rest := heardFresh (c.after s) calls
    if between then rest else ⟨c.op.shown (KvStore.runOp c.op c.env s).1⟩ :: rest

/-- No memory limit is set, and what is marked only purges or lists. -/
def Between (calls : List (Bool × Call F)) : Prop :=
  ∀ c ∈ calls, ¬c.2.op.Limits ∧ (c.1 = true → c.2.op.Lists)

theorem heard_between {now : Int} {s t : KvStore F} (h : SameView now s t)
    {calls : List (Bool × Call F)} (hb : Between calls)
    (hclock : (now :: calls.map fun c => c.2.env.now).Pairwise (· ≤ ·)) :
    heard s calls = heard t (calls.filter fun c => !c.1) := by
  induction calls generalizing now s t with
  | nil => rfl
  | cons c calls ih =>
    obtain ⟨between, c⟩ := c
    obtain ⟨hlimit, hlists⟩ := hb _ List.mem_cons_self
    have hle : now ≤ c.env.now := List.rel_of_pairwise_cons hclock (List.mem_cons_self ..)
    have hrest := (List.pairwise_cons.mp hclock).2
    have hb' : Between calls := fun c' hc' => hb c' (List.mem_cons_of_mem _ hc')
    have hnow := h.later hle
    cases between with
    | true =>
      have hstep := KvStore.lists_runOp (hlists rfl) c.env hnow.unlimited
      exact ih (hstep.symm.trans hnow) hb' hrest
    | false =>
      obtain ⟨hr, hs⟩ := (KvStore.orderly_runOp c.op hlimit).alike c.env s t hnow
      rw [StoreM.map_apply, StoreM.map_apply] at hr
      have hih := ih hs hb' hrest
      simp only [heard, List.filter_cons, Bool.not_false, if_true]
      rw [if_neg Bool.false_ne_true, if_neg Bool.false_ne_true]
      exact congr (congrArg List.cons (congrArg Reply.mk hr)) hih

theorem heard_fresh {now : Int} {s t : KvStore F} (h : SameView now s t)
    {calls : List (Bool × Call F)} (hb : Between calls)
    (hclock : (now :: calls.map fun c => c.2.env.now).Pairwise (· ≤ ·)) :
    heard s calls = heardFresh t calls := by
  induction calls generalizing now s t with
  | nil => rfl
  | cons c calls ih =>
    obtain ⟨between, c⟩ := c
    have hlimit := (hb _ List.mem_cons_self).1
    have hle : now ≤ c.env.now := List.rel_of_pairwise_cons hclock (List.mem_cons_self ..)
    have hrest := (List.pairwise_cons.mp hclock).2
    have hb' : Between calls := fun c' hc' => hb c' (List.mem_cons_of_mem _ hc')
    have hnow := h.later hle
    have ht : t.conf.maxmemory ≤ 0 := hnow.conf ▸ hnow.unlimited
    obtain ⟨hr, hs⟩ := (KvStore.orderly_runOp c.op hlimit).alike c.env s _
      (hnow.trans (KvStore.sameView_withoutExpired ht))
    rw [StoreM.map_apply, StoreM.map_apply] at hr
    have hih := ih hs hb' hrest
    cases between with
    | true => exact hih
    | false =>
      simp only [heard, heardFresh]
      rw [if_neg Bool.false_ne_true, if_neg Bool.false_ne_true]
      exact congr (congrArg List.cons (congrArg Reply.mk hr)) hih

/-- Purging and listing in between change no reply, and expired entries are as good as absent. -/
theorem purging_transparent (s : KvStore F) (hu : s.conf.maxmemory ≤ 0) (calls : List (Bool × Call F))
    (hb : Between calls) (hclock : (calls.map fun c => c.2.env.now).Pairwise (· ≤ ·)) :
    heard s calls = heard s (calls.filter fun c => !c.1) ∧ heard s calls = heardFresh s calls := by
  cases calls with
  | nil => exact ⟨rfl, rfl⟩
  | cons c calls =>
    have hstart : (c.2.env.now :: (c :: calls).map fun c => c.2.env.now).Pairwise (· ≤ ·) := by
      refine List.pairwise_cons.mpr ⟨fun t ht => ?_, hclock⟩
      rcases List.mem_cons.mp ht with rfl | ht
      · exact Int.le_refl _
      · exact (List.pairwise_cons.mp hclock).1 t ht
    exact ⟨heard_between (.refl hu) hb hstart, heard_fresh (.refl hu) hb hstart⟩

/-- A key that expires, and two purges of which the first is made in between. -/
def purgedTwice : List (Bool × Call Int) :=
  [(false, ⟨.setex 0 (lit "k") (lit "v") 1, { now := 0 }⟩), (true, ⟨.purgeExpiredActive 20, { now := 5000 }⟩),
    (false, ⟨.exist 0 (lit "k"), { now := 5000 }⟩), (false, ⟨.purgeExpiredActive 20, { now := 5000 }⟩)]

theorem purging_transparent_twice :
    heard .empty purgedTwice = heard .empty (purgedTwice.filter fun c => !c.1) ∧
      heard .empty purgedTwice = heardFresh .empty purgedTwice := by
  refine purging_transparent .empty (by decide) purgedTwice (fun c hc => ?_) (by decide)
  simp only [purgedTwice, List.mem_cons, List.not_mem_nil, or_false] at hc
  rcases hc with rfl | rfl | rfl | rfl <;> exact ⟨id, fun _ => by trivial⟩

/-- The number of purged entries does show the expired ones, and who purged before. -/
theorem purged_count_shows :
    let s := runCalls .empty [(⟨.setex 0 (lit "k") (lit "v") 1, { now := 0 }⟩ : Call Int)]
    let purge : KvStore Int → Int × KvStore Int :=
      KvStore.runOp (.purgeExpiredActive 20) { now := 5000 }
    (purge s).1 = 1 ∧ (purge (purge s).2).1 = 0 ∧ (purge (s.withoutExpired 5000)).1 = 0 := by
  decide +kernel

end Kv
