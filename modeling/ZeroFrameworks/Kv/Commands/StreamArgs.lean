import ZeroFrameworks.Kv.Commands.Streams

/-!
# Arguments of XREAD, XREADGROUP and XPENDING

Each of the three handlers is a part that takes its request apart (`xreadQuery` and its like) and a call of the
store with what it found (`StreamQuery.run`).  XREAD counts its middle from the place of STREAMS and not from the
one after it, and so always hands over fewer keys than ids; XPENDING moves count and consumer by one place
unless the start is `-`.

    xreadQuery args = .ok (.read keys ids count) → keys.length < ids.length   (xreadQuery_lt)
    r.routed = .ok r.query ↔ r.Routed   (routed_iff)
-/

namespace Kv.Commands

/-! ## Algorithm -/

/-- A call of the store. -/
inductive StreamQuery where
  | read (keys ids : List Bytes) (count : Int)
  | readGroup (group consumer : Bytes) (keys ids : List Bytes) (count : Int)
  | pendingRange (key group start stop : Bytes) (count : Int) (only : Bytes)
  | pendingSummary (key group : Bytes)

def StreamQuery.run {F : Type} [Platform F] (db : Int) : StreamQuery → StoreM F RespValue
  | .read keys ids count => replyWith (KvStore.xread db keys ids count) streamsReply
  | .readGroup group consumer keys ids count =>
    replyWith (KvStore.xreadGroup db group consumer keys ids count) streamsReply
  | .pendingRange key group start stop count only =>
    replyWith (KvStore.xpendingRange db key group start stop count only) detailsReply
  | .pendingSummary key group => replyWith (KvStore.xpendingSummary db key group) summaryReply

/-- Go on with what a parser found, or answer `err`. -/
def orElse {α : Type} (o : Option α) (err : RespValue) (f : α → Except RespValue StreamQuery) :
    Except RespValue StreamQuery := o.elim (.error err) f

def xreadQuery (args : List RespValue) : Except RespValue StreamQuery :=
  if args.length < 4 then .error (wrongArity "xread")
  else orElse (xreadCount args) syntaxError fun parsed =>
    let start := parsed.2
    if args.length < start + 2 ∨ nullAt args start ∨ upperAt args start ≠ lit "STREAMS" then .error syntaxError
    else
      let mid := (args.length - start - 1) / 2 + start
      if mid ≤ start ∨ args.length ≤ mid then .error syntaxError
      else orElse (strings ((args.take mid).drop (start + 1))) syntaxError fun keys =>
        orElse (strings (args.drop mid)) syntaxError fun ids => .ok (.read keys ids parsed.1)

def xreadgroupQuery (args : List RespValue) : Except RespValue StreamQuery :=
  if args.length < 6 then .error (wrongArity "xreadgroup")
  else if upperAt args 1 ≠ lit "GROUP" ∨ nullAt args 2 ∨ nullAt args 3 then .error syntaxError
  else orElse (xreadgroupCount args) syntaxError fun parsed =>
    let start := parsed.2
    if args.length ≤ start ∨ upperAt args start ≠ lit "STREAMS" then .error syntaxError
    else
      let mid := start + 1 + (args.length - start - 1) / 2
      .ok (.readGroup (strAt args 2) (strAt args 3) (((args.take mid).drop (start + 1)).map RespValue.str)
        ((args.drop mid).map RespValue.str) parsed.1)

def xpendingQuery (args : List RespValue) : Except RespValue StreamQuery :=
  if args.length < 3 ∨ nullAt args 1 ∨ nullAt args 2 then .error (wrongArity "xpending")
  else if 6 ≤ args.length then
    let idx := if !nullAt args 3 && decide (strAt args 3 = lit "-") then 4 else 3
    let count := (prefixIntAt args (idx + 1)).getD 10
    let only := if nullAt args (idx + 2) then [] else strAt args (idx + 2)
    let start := if nullAt args 3 then lit "-" else strAt args 3
    let stop := if nullAt args 4 then lit "+" else strAt args 4
    .ok (.pendingRange (strAt args 1) (strAt args 2) start stop count only)
  else .ok (.pendingSummary (strAt args 1) (strAt args 2))

/-! ## Specification -/

/-- A word of a request, in any letter case. -/
abbrev Word (name : String) := { w : Bytes // upper w = lit name }

/-- The text of a number. -/
structure NumberArg where
  text : Bytes
  value : Int
  reads : parseInt64Arg (.bulk text) = some value

/-- The COUNT option, when there is one. -/
abbrev CountArg := Option (Word "COUNT" × NumberArg)

def CountArg.args (count : CountArg) : List RespValue := count.elim [] fun c => [.bulk c.1.val, .bulk c.2.text]

def CountArg.value (count : CountArg) : Int := count.elim (-1) fun c => c.2.value

/-- Keys, and as many ids. -/
structure StreamArgs where
  keys : List Bytes
  ids : List Bytes
  some : keys ≠ []
  paired : ids.length = keys.length

def StreamArgs.args (l : StreamArgs) : List RespValue := (l.keys ++ l.ids).map .bulk

/-- A well formed request; `name` is the command's name as it was sent. -/
inductive StreamRequest where
  | read (name : Bytes) (count : CountArg) (streams : Word "STREAMS") (lists : StreamArgs)
  | readGroup (name : Bytes) (word : Word "GROUP") (group consumer : Bytes) (count : CountArg)
      (streams : Word "STREAMS") (lists : StreamArgs)
  | pending (name key group start stop : Bytes) (count : NumberArg) (consumer : Option Bytes)

namespace StreamRequest

def args : StreamRequest → List RespValue
  | read name count streams lists => .bulk name :: (count.args ++ .bulk streams.val :: lists.args)
  | readGroup name word group consumer count streams lists =>
    .bulk name :: .bulk word.val :: .bulk group :: .bulk consumer ::
      (count.args ++ .bulk streams.val :: lists.args)
  | pending name key group start stop count consumer =>
    [.bulk name, .bulk key, .bulk group, .bulk start, .bulk stop, .bulk count.text] ++ consumer.toList.map .bulk

/-- The handler that gets the request. -/
def handled {F : Type} [Platform F] (db : Int) (r : StreamRequest) : StoreM F RespValue :=
  match r with
  | read .. => xread db r.args
  | readGroup .. => xreadgroup db r.args
  | pending .. => xpending db r.args

/-- What it makes of the request. -/
def routed (r : StreamRequest) : Except RespValue StreamQuery :=
  match r with
  | read .. => xreadQuery r.args
  | readGroup .. => xreadgroupQuery r.args
  | pending .. => xpendingQuery r.args

/-- The call it asks for. -/
def query : StreamRequest → StreamQuery
  | read _ count _ lists => .read lists.keys lists.ids count.value
  | readGroup _ _ group consumer count _ lists => .readGroup group consumer lists.keys lists.ids count.value
  | pending _ key group start stop count consumer =>
    .pendingRange key group start stop count.value (consumer.getD [])

/-- The start of XPENDING is `-`, or what stands a place before count and consumer happens to be the same. -/
def Routed : StreamRequest → Prop
  | read .. => False
  | readGroup .. => True
  | pending _ _ _ start stop count consumer =>
    start = lit "-" ∨ (parseInt64Prefix (.bulk stop)).getD 10 = count.value ∧ consumer = some count.text

end StreamRequest

/-! ## Lemmas -/

variable {args : List RespValue}

section Handlers

variable {F : Type} [Platform F] {α : Type} {k : StreamQuery → StoreM F RespValue}

theorem withParsed_ite {p : Prop} [Decidable p] (a b : Except RespValue StreamQuery) :
    withParsed (if p then a else b) k = if p then withParsed a k else withParsed b k := by
  split <;> rfl

theorem withParsed_orElse (o : Option α) (err : RespValue) (f : α → Except RespValue StreamQuery) :
    withParsed (orElse o err f) k = withArg o err fun a => withParsed (f a) k := by
  cases o <;> rfl

theorem xread_eq (db : Int) : (xread db args : StoreM F RespValue) =
    withParsed (xreadQuery args) (StreamQuery.run db) := by
  unfold xread xreadQuery
  simp only [withParsed_ite, withParsed_orElse]
  rfl

theorem xreadgroup_eq (db : Int) : (xreadgroup db args : StoreM F RespValue) =
    withParsed (xreadgroupQuery args) (StreamQuery.run db) := by
  unfold xreadgroup xreadgroupQuery
  simp only [withParsed_ite, withParsed_orElse]
  rfl

theorem xpending_eq (db : Int) : (xpending db args : StoreM F RespValue) =
    withParsed (xpendingQuery args) (StreamQuery.run db) := by
  unfold xpending xpendingQuery
  simp only [withParsed_ite]
  rfl

theorem handled_eq (db : Int) (r : StreamRequest) :
    (r.handled db : StoreM F RespValue) = withParsed r.routed (StreamQuery.run db) := by
  cases r with
  | read => exact xread_eq db
  | readGroup => exact xreadgroup_eq db
  | pending => exact xpending_eq db

end Handlers

theorem strings_length {l : List RespValue} {ss : List Bytes} (h : strings l = some ss) : ss.length = l.length := by
  induction l generalizing ss with
  | nil =>
    cases h
    rfl
  | cons x xs ih =>
    unfold strings at h
    split at h
    · cases h
    · obtain ⟨rest, hrest, rfl⟩ := Option.map_eq_some_iff.mp h
      rw [List.length_cons, List.length_cons, ih hrest]

theorem orElse_eq_ok {α : Type} {o : Option α} {err : RespValue} {f : α → Except RespValue StreamQuery}
    {q : StreamQuery} (h : orElse o err f = .ok q) : ∃ a, o = some a ∧ f a = .ok q := by
  cases o with
  | none => cases h
  | some a => exact ⟨a, rfl, h⟩

theorem xreadQuery_lt {keys ids : List Bytes} {count : Int} (h : xreadQuery args = .ok (.read keys ids count)) :
    keys.length < ids.length := by
  unfold xreadQuery at h
  split at h
  · cases h
  · obtain ⟨⟨c, start⟩, -, h⟩ := orElse_eq_ok h
    simp only at h
    split at h
    · cases h
    · split at h
      · cases h
      next hmid =>
        obtain ⟨keys', hkeys, h⟩ := orElse_eq_ok h
        obtain ⟨ids', hids, h⟩ := orElse_eq_ok h
        cases h
        rw [strings_length hkeys, strings_length hids, List.length_drop, List.length_drop, List.length_take]
        omega

/-- The arguments after STREAMS, at their middle. -/
theorem streams_split (pre : List RespValue) (w : Bytes) (lists : StreamArgs) :
    let args := pre ++ .bulk w :: lists.args
    let mid := pre.length + 1 + (args.length - pre.length - 1) / 2
    ((args.take mid).drop (pre.length + 1)).map RespValue.str = lists.keys ∧
      (args.drop mid).map RespValue.str = lists.ids := by
  intro args mid
  have hlen : args.length = pre.length + 1 + 2 * lists.keys.length := by
    have hpaired := lists.paired
    simp only [args, StreamArgs.args, List.length_append, List.length_cons, List.length_map]
    omega
  have hmid : mid = (pre ++ [RespValue.bulk w]).length + (lists.keys.map RespValue.bulk).length := by
    simp only [mid, hlen, List.length_append, List.length_map, List.length_singleton]
    omega
  have hargs : args = (pre ++ [RespValue.bulk w]) ++ (lists.keys.map .bulk ++ lists.ids.map .bulk) := by
    simp only [args, StreamArgs.args, List.map_append, List.append_assoc, List.singleton_append]
  have hstr : ∀ l : List Bytes, (l.map RespValue.bulk).map RespValue.str = l := by
    intro l
    rw [List.map_map]
    exact List.map_id l
  have hstart : pre.length + 1 = (pre ++ [RespValue.bulk w]).length := by
    rw [List.length_append, List.length_singleton]
  rw [hmid, hargs]
  constructor
  · rw [List.take_length_add_append, List.take_left, hstart, List.drop_left, hstr]
  · rw [List.drop_length_add_append, List.drop_left, hstr]

theorem StreamArgs.length_args (lists : StreamArgs) : 2 ≤ lists.args.length := by
  have hsome := List.length_pos_of_ne_nil lists.some
  have hpaired := lists.paired
  simp only [StreamArgs.args, List.length_map, List.length_append]
  omega

theorem xreadgroupQuery_eq (name : Bytes) (word : Word "GROUP") (group consumer : Bytes) (count : CountArg)
    (streams : Word "STREAMS") (lists : StreamArgs) :
    (StreamRequest.readGroup name word group consumer count streams lists).routed =
      .ok (.readGroup group consumer lists.keys lists.ids count.value) := by
  let head : List RespValue := [.bulk name, .bulk word.val, .bulk group, .bulk consumer]
  let args := (head ++ count.args) ++ .bulk streams.val :: lists.args
  have hargs : (StreamRequest.readGroup name word group consumer count streams lists).routed =
      xreadgroupQuery args := rfl
  obtain ⟨hkeys, hids⟩ := streams_split (head ++ count.args) streams.val lists
  have hlists := lists.length_args
  have hlen : args.length = 4 + count.args.length + 1 + lists.args.length := by
    simp only [args, head, List.length_append, List.length_cons, List.length_nil]
    omega
  have hcount : xreadgroupCount args = some (count.value, (head ++ count.args).length) := by
    unfold xreadgroupCount
    cases count with
    | none =>
      rw [if_neg]
      · rfl
      · rintro ⟨-, hw⟩
        have hstreams : upperAt args 4 = lit "STREAMS" := streams.2
        rw [hstreams] at hw
        exact absurd hw (by decide)
    | some c =>
      have hword : upperAt args 4 = lit "COUNT" := c.1.2
      have hlong : 7 ≤ args.length := by
        rw [hlen]
        simp only [CountArg.args, Option.elim_some, List.length_cons, List.length_nil]
        omega
      rw [if_pos ⟨by omega, hword⟩, if_neg (Nat.not_lt.mpr hlong)]
      show Option.map _ (parseInt64Arg (.bulk c.2.text)) = _
      rw [c.2.reads]
      rfl
  have hstreams : upperAt args (head ++ count.args).length = lit "STREAMS" := by
    unfold upperAt strAt
    rw [List.getElem?_append_right Nat.le.refl, Nat.sub_self]
    exact streams.2
  have hgroup : upperAt args 1 = lit "GROUP" := word.2
  rw [hargs]
  unfold xreadgroupQuery
  rw [if_neg (by omega), if_neg (by
    rintro (h | h | h)
    · exact h hgroup
    · cases h
    · cases h), hcount]
  simp only [orElse, Option.elim_some]
  rw [if_neg (by
    rintro (h | h)
    · rw [hlen] at h
      simp only [head, List.length_append, List.length_cons, List.length_nil] at h
      omega
    · exact h hstreams), hkeys, hids]
  rfl

theorem parseInt64Prefix_of_reads {v : RespValue} {n : Int} (h : parseInt64Arg v = some n) :
    parseInt64Prefix v = some n := by
  unfold parseInt64Arg at h
  unfold parseInt64Prefix
  split at h
  · cases h
  next s hs =>
    split at h
    · cases h
    · simp only at h
      split at h
      · cases h
      next hend =>
        rw [if_neg fun hz => hend (.inl hz)]
        exact h

theorem NumberArg.text_ne_nil (n : NumberArg) : n.text ≠ [] := by
  intro hnil
  have hreads := n.reads
  rw [hnil] at hreads
  cases hreads

/-- XPENDING with a start other than `-` takes its end for the count and its count for the consumer. -/
theorem xpendingQuery_eq (name key group start stop : Bytes) (count : NumberArg) (consumer : Option Bytes) :
    (StreamRequest.pending name key group start stop count consumer).routed = .ok (.pendingRange key group start stop
      (if start = lit "-" then count.value else (parseInt64Prefix (.bulk stop)).getD 10)
      (if start = lit "-" then consumer.getD [] else count.text)) := by
  let args := (StreamRequest.pending name key group start stop count consumer).args
  have hlen : 6 ≤ args.length := Nat.le_add_left 6 _
  have hcount : (prefixIntAt args 5).getD 10 = count.value := by
    have hat : args[5]? = some (.bulk count.text) := rfl
    unfold prefixIntAt
    rw [hat, Option.bind_some, parseInt64Prefix_of_reads count.reads]
    rfl
  have hconsumer : (if nullAt args 6 then [] else strAt args 6) = consumer.getD [] := by
    cases consumer <;> rfl
  have hidx : (if !nullAt args 3 && decide (strAt args 3 = lit "-") then 4 else 3) =
      if start = lit "-" then 4 else 3 := by
    have hstart : strAt args 3 = start := rfl
    have hsome : nullAt args 3 = false := rfl
    rw [hstart, hsome]
    simp only [Bool.not_false, Bool.true_and, decide_eq_true_eq]
  have hrouted : (StreamRequest.pending name key group start stop count consumer).routed = xpendingQuery args := rfl
  rw [hrouted]
  unfold xpendingQuery
  rw [if_neg (by
    rintro (h | h | h)
    · omega
    · cases h
    · cases h), if_pos hlen, hidx]
  rcases eq_or_ne start (lit "-") with hstart | hstart
  · simp only [if_pos hstart, hcount, hconsumer]
    rfl
  · simp only [if_neg hstart]
    rfl

/-! ## Top theorem -/

/-- A handler carries out the call it makes of its request, and when that is the call the request asks for. -/
theorem routed_iff {F : Type} [Platform F] (db : Int) (r : StreamRequest) :
    (r.handled db : StoreM F RespValue) = withParsed r.routed (StreamQuery.run db) ∧
      (r.routed = .ok r.query ↔ r.Routed) := by
  refine ⟨handled_eq db r, ?_⟩
  cases r with
  | read name count streams lists =>
    refine iff_of_false (fun h => ?_) id
    have hlt := xreadQuery_lt h
    rw [lists.paired] at hlt
    exact Nat.lt_irrefl _ hlt
  | readGroup name word group consumer count streams lists =>
    exact iff_of_true (xreadgroupQuery_eq name word group consumer count streams lists) trivial
  | pending name key group start stop count consumer =>
    rw [xpendingQuery_eq]
    unfold StreamRequest.query StreamRequest.Routed
    rw [Except.ok.injEq, StreamQuery.pendingRange.injEq]
    simp only [true_and]
    by_cases hstart : start = lit "-"
    · simp only [hstart, if_true, true_or, and_self]
    · simp only [hstart, if_false, false_or]
      refine and_congr_right fun _ => ?_
      cases consumer with
      | none => simpa using count.text_ne_nil
      | some c => exact ⟨fun h => congrArg some h.symm, fun h => (Option.some.inj h).symm⟩

/-- XREAD STREAMS s 0 becomes a call with no keys and two ids, which the store refuses. -/
theorem xread_misrouted :
    let r := StreamRequest.read (lit "XREAD") none ⟨lit "STREAMS", rfl⟩ ⟨[lit "s"], [lit "0"], List.cons_ne_nil _ _, rfl⟩
    r.query = .read [lit "s"] [lit "0"] (-1) ∧ r.routed = .ok (.read [] [lit "s", lit "0"] (-1)) ∧
      (r.handled 0 { now := 0 } (KvStore.empty : KvStore Int)).1 = syntaxError :=
  ⟨rfl, rfl, rfl⟩

end Kv.Commands
