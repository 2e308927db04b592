import ZeroFrameworks.Kv.Commands.Hashes
import ZeroFrameworks.Kv.Commands.Strings

/-!
# Counters

INCR, DECR, INCRBY, DECRBY and HINCRBY read a decimal text, add to it and store the text of the sum.  The numeral is
read with `strtoll`, which keeps numbers that do not fit at the limit it reached, and neither the sum nor the
negation of DECRBY is checked:

    parseIntegerValue s = (decimal s).map clamp64   (parseIntegerValue_eq)
    next = i64 (clamp64 cur + delta)   (incrBy_spec, hincrby_spec)
    a counter command is exact or refused ↔ both the numeral and the sum fit   (counters_exact_iff)
-/

namespace Kv.Commands

open KvStore (evictIfNeededLocked)

variable {F : Type} [Platform F]

/-! ## Commands -/

/-- A counter command with its arguments, as they come with the request. -/
inductive CounterCommand where
  | incr (key : RespValue)
  | decr (key : RespValue)
  | incrby (key n : RespValue)
  | decrby (key n : RespValue)
  | hincrby (key field n : RespValue)

/-- Where a counter is kept. -/
inductive Cell where
  | value (key : Bytes)
  | field (key field : Bytes)

namespace CounterCommand

def run (db : Int) : CounterCommand → StoreM F RespValue
  | .incr key => Commands.incr db [.bulk (lit "INCR"), key]
  | .decr key => Commands.decr db [.bulk (lit "DECR"), key]
  | .incrby key n => Commands.incrby db [.bulk (lit "INCRBY"), key, n]
  | .decrby key n => Commands.decrby db [.bulk (lit "DECRBY"), key, n]
  | .hincrby key field n => Commands.hincrby db [.bulk (lit "HINCRBY"), key, field, n]

/-- The counter a command is about and the exact number it adds; `none` when the arguments are refused. -/
def change : CounterCommand → Option (Cell × Int)
  | .incr key => if key.isNull then none else some (.value key.str, 1)
  | .decr key => if key.isNull then none else some (.value key.str, -1)
  | .incrby key n =>
    if key.isNull ∨ n.isNull then none else (parseInt64Arg n).map fun d => (.value key.str, d)
  | .decrby key n =>
    if key.isNull ∨ n.isNull then none else (parseInt64Arg n).map fun d => (.value key.str, -d)
  | .hincrby key field n =>
    if key.isNull ∨ field.isNull ∨ n.isNull then none
    else (parseInt64Arg n).map fun d => (.field key.str field.str, d)

/-- The store in which a command meets its counter: HINCRBY makes room first. -/
def start (env : Env) (s : KvStore F) : CounterCommand → KvStore F
  | .hincrby .. => (evictIfNeededLocked env s).2
  | _ => s

end CounterCommand

/-! ## Specification -/

/-- Reading of a decimal numeral, with `strtoll`'s blanks and sign before it, however long it is. -/
def decimal (s : Bytes) : Option Int :=
  let u := s.dropWhile isSpace
  let ds := if u.head? == some 45 || u.head? == some 43 then u.tail else u
  if ds.isEmpty || !ds.all isDigit then none
  else some (if u.head? == some 45 then -(natOf ds : Int) else natOf ds)

/-- The text of a counter, if it has one; an error when a value of another type is in the way. -/
def Cell.text (now db : Int) (s : KvStore F) : Cell → Except Unit (Option Bytes)
  | .value key =>
    match s.live now db key with
    | none => .ok none
    | some o => if o.type = .string then .ok (some o.value) else .error ()
  | .field key name =>
    match s.live now db key with
    | none => .ok none
    | some o => if o.type = .hash then .ok o.hash[name]? else .error ()

/-- The number of a text; what is not there is at zero. -/
def numeral (t : Option Bytes) : Option Int := t.elim (some 0) decimal

/-- The number a counter is at. -/
def Cell.current (now db : Int) (s : KvStore F) (cell : Cell) : Option Int :=
  match cell.text now db s with
  | .error _ => none
  | .ok t => numeral t

/-- The exact sum is returned and stored. -/
def Counted (now db : Int) (s s' : KvStore F) (reply : RespValue) (cell : Cell) (amount : Int) : Prop :=
  ∃ cur, cell.current now db s = some cur ∧ reply = .integer (cur + amount) ∧
    cell.text now db s' = .ok (some (printInt (cur + amount)))

/-- An error is returned and the contents are as they were. -/
def Refused (now : Int) (s s' : KvStore F) (reply : RespValue) : Prop :=
  reply.isError = true ∧ s'.view now = s.view now

namespace CounterCommand

def ExactOrRefused (db : Int) (env : Env) (s : KvStore F) (c : CounterCommand) : Prop :=
  let out := c.run db env s
  match c.change with
  | none => Refused env.now s out.2 out.1
  | some (cell, amount) =>
    Counted env.now db (c.start env s) out.2 out.1 cell amount ∨
      Refused env.now (c.start env s) out.2 out.1

/-- The numeral that is there and the exact sum are values of `int64_t`. -/
def Fits (db : Int) (env : Env) (s : KvStore F) (c : CounterCommand) : Prop :=
  ∀ cell amount, c.change = some (cell, amount) → ∀ cur, cell.current env.now db (c.start env s) = some cur →
    IsI64 cur ∧ IsI64 (cur + amount)

end CounterCommand

/-! ## Lemmas -/

/-- The text after blanks and sign. -/
def afterSign (s : Bytes) : Bytes :=
  let u := s.dropWhile isSpace
  if u.head? == some 45 || u.head? == some 43 then u.tail else u

theorem afterSign_suffix (s : Bytes) : afterSign s <:+ s := by
  unfold afterSign
  have hu : s.dropWhile isSpace <:+ s := List.dropWhile_suffix _
  simp only
  split
  · exact (List.tail_suffix _).trans hu
  · exact hu

theorem zero_mem_afterSign {s : Bytes} (h : (0 : UInt8) ∈ s) : (0 : UInt8) ∈ afterSign s := by
  have hu : (0 : UInt8) ∈ s.dropWhile isSpace := by
    induction s with
    | nil => exact h
    | cons b s ih =>
      rw [List.dropWhile_cons]
      split
      next hb =>
        rcases List.mem_cons.mp h with rfl | h
        · exact absurd hb (by decide)
        · exact ih h
      · exact h
  unfold afterSign
  simp only
  split
  next hs =>
    cases hd : s.dropWhile isSpace with
    | nil => rw [hd] at hu; exact hu
    | cons b u =>
      rw [hd] at hu hs
      rcases List.mem_cons.mp hu with rfl | hu
      · simp at hs
      · exact hu
  · exact hu

theorem strtoll_eq (s : Bytes) :
    let digits := (afterSign (cstr s)).takeWhile isDigit
    strtoll s = if digits.isEmpty then (0, 0)
      else (clamp64 (if ((cstr s).dropWhile isSpace).head? == some 45 then -(natOf digits : Int) else natOf digits),
        (cstr s).length - (afterSign (cstr s)).length + digits.length) := rfl

/-- `strtoll` reads all of a text exactly when it is a numeral. -/
theorem parseIntegerValue_eq (s : Bytes) : parseIntegerValue s = (decimal s).map clamp64 := by
  have hdec : decimal s = if (afterSign s).isEmpty || !(afterSign s).all isDigit then none
      else some (if (s.dropWhile isSpace).head? == some 45 then -(natOf (afterSign s) : Int)
        else natOf (afterSign s)) := rfl
  by_cases hz : (0 : UInt8) ∈ s
  · -- the C string ends before the text does
    have hnum : decimal s = none := by
      rw [hdec, if_pos]
      rw [Bool.or_eq_true, Bool.not_eq_true', List.all_eq_false]
      exact .inr ⟨0, zero_mem_afterSign hz, by decide⟩
    have hshort : (cstr s).length < s.length := by
      have hpre : cstr s <+: s := List.takeWhile_prefix _
      refine lt_of_le_of_ne hpre.length_le fun heq => ?_
      have hall : s.takeWhile (· ≠ 0) = s := hpre.eq_of_length heq
      have := List.takeWhile_eq_self_iff.mp hall 0 hz
      simp at this
    have hread : (strtoll s).2 ≤ (cstr s).length := by
      have hv : (afterSign (cstr s)).length ≤ (cstr s).length := (afterSign_suffix _).length_le
      have hds : ((afterSign (cstr s)).takeWhile isDigit).length ≤ (afterSign (cstr s)).length :=
        (List.takeWhile_prefix _).length_le
      rw [strtoll_eq]
      split
      · exact Nat.zero_le _
      · show (cstr s).length - (afterSign (cstr s)).length +
          ((afterSign (cstr s)).takeWhile isDigit).length ≤ _
        omega
    rw [hnum, parseIntegerValue]
    split
    · rfl
    · rw [if_neg (by omega)]
      rfl
  · have hc : cstr s = s := by
      unfold cstr
      rw [List.takeWhile_eq_self_iff]
      intro b hb
      simpa using fun h0 : b = 0 => hz (h0 ▸ hb)
    have hlen : (afterSign s).length ≤ s.length := (afterSign_suffix s).length_le
    have hstr := strtoll_eq s
    simp only [hc] at hstr
    by_cases hd : (afterSign s).all isDigit = true
    · have htw : (afterSign s).takeWhile isDigit = afterSign s :=
        List.takeWhile_eq_self_iff.mpr (List.all_eq_true.mp hd)
      rw [htw] at hstr
      cases he : (afterSign s).isEmpty with
      | true =>
        rw [he, if_pos rfl] at hstr
        rw [hdec, he, parseIntegerValue, hstr]
        cases s with
        | nil => rfl
        | cons b s => rfl
      | false =>
        rw [he, if_neg (by decide)] at hstr
        have hs : s.isEmpty = false := by
          cases s with
          | nil => cases he
          | cons b s => rfl
        rw [hdec, he, hd, parseIntegerValue, hs, hstr]
        simp only [Bool.false_eq_true, if_false, Bool.not_true, Bool.or_false]
        rw [if_pos (by omega)]
        rfl
    · have hnum : decimal s = none := by
        rw [hdec, if_pos]
        simp only [hd, Bool.not_false, Bool.or_true]
      have hlt : ((afterSign s).takeWhile isDigit).length < (afterSign s).length := by
        have hpre : (afterSign s).takeWhile isDigit <+: afterSign s := List.takeWhile_prefix _
        refine lt_of_le_of_ne hpre.length_le fun heq => hd ?_
        exact List.all_eq_true.mpr (List.takeWhile_eq_self_iff.mp (hpre.eq_of_length heq))
      rw [hnum, parseIntegerValue]
      split
      · rfl
      next hs =>
        have hpos : 0 < s.length := List.length_pos_iff.mpr (by simpa using hs)
        rw [hstr, if_neg]
        · rfl
        · split
          · show ¬ 0 = s.length
            omega
          · show ¬ s.length - (afterSign s).length + ((afterSign s).takeWhile isDigit).length = s.length
            omega

variable {s : KvStore F} {key : Bytes} {env : Env}

theorem live_onField_put {V : Type} {L : Field F V} {db : Int}
    {f : Option V → Out V (Except Bytes Int)} (h : HasType L env.now db key s) {v : V}
    (hv : (f ((s.live env.now db key).map fun o => L.get o.toObj)).act = .put v) :
    ∃ o, (StoreM.onField L db key f env s).2.live env.now db key = some o ∧
      o.toObj = L.set v (((s.live env.now db key).map Item.toObj).getD { type := L.type }) := by
  have hitem : (StoreM.onField L db key f env s).2.item db key =
      (liftBody (L.body (.error wrongType) f) (s.live env.now db key)).act.apply (s.live env.now db key) := by
    unfold StoreM.onField StoreM.onFieldOr StoreM.onObj StoreM.onEntry
    rw [KvStore.item_onEntry, if_pos ⟨rfl, rfl⟩]
  cases hl : s.live env.now db key with
  | none =>
    rw [hl] at hv hitem
    refine ⟨{ L.set v { type := L.type } with expireAtMs := 0 }, ?_, rfl⟩
    simp only [liftBody, Field.body, Option.map_none, Out.map] at hv hitem
    rw [KvStore.live, hitem, hv]
    rfl
  | some o =>
    have hlive : o.expired env.now = false := by
      simpa using (Option.filter_eq_some_iff.mp hl).2
    rw [hl] at hv hitem
    refine ⟨{ L.set v o.toObj with expireAtMs := o.expireAtMs }, ?_, rfl⟩
    simp only [liftBody, Option.map_some] at hv hitem
    rw [Field.body_of_type (h o hl)] at hitem
    simp only [Out.map, hv, Act.map, Act.apply] at hitem
    rw [KvStore.live, hitem]
    show (if (!o.expired env.now) = true then _ else _) = _
    rw [hlive]
    rfl

/-- The body of `incrBy`. -/
def incrBody (delta : Int) (v : Option Bytes) : Out Bytes (Except Bytes Int) :=
  match v with
  | none => { act := .put (printInt delta), bump := true, reply := .ok delta }
  | some value =>
    match parseIntegerValue value with
    | none => { reply := .error notInteger }
    | some cur =>
      { act := .put (printInt (i64 (cur + delta))), bump := true, reply := .ok (i64 (cur + delta)) }

theorem incrBy_eq (db : Int) (key : Bytes) (delta : Int) :
    (KvStore.incrBy db key delta : StoreM F _) = .onField .string db key (incrBody delta) := rfl

/-- The body of `hincrby`, after the eviction. -/
def hincrBody (field : Bytes) (delta : Int) (v : Option (BMap Bytes)) : Out (BMap Bytes) (Except Bytes Int) :=
  match v with
  | none =>
    { act := .put ((∅ : BMap Bytes).insert field (printInt delta)), touch := true, bump := true,
      reply := .ok delta }
  | some h =>
    match (h[field]?).elim (some 0) parseIntegerValue with
    | none => { reply := .error (lit "ERR hash value is not an integer") }
    | some cur =>
      { act := .put (h.insert field (printInt (i64 (cur + delta)))), touch := true, bump := true,
        reply := .ok (i64 (cur + delta)) }

theorem hincrby_eq (db : Int) (key field : Bytes) (delta : Int) (env : Env) (s : KvStore F) :
    KvStore.hincrby db key field delta env s =
      StoreM.onField .hash db key (hincrBody field delta) env (evictIfNeededLocked env s).2 := rfl

/-- What a counter operation that meets `s` may do: fail where there is no numeral, else put the wrapped sum. -/
def Adds (now db : Int) (s : KvStore F) (cell : Cell) (delta : Int) (out : Except Bytes Int × KvStore F) : Prop :=
  (cell.current now db s = none → Failed out.1) ∧
    ∀ cur, cell.current now db s = some cur →
      out.1 = .ok (i64 (clamp64 cur + delta)) ∧
        cell.text now db out.2 = .ok (some (printInt (i64 (clamp64 cur + delta))))

variable {delta : Int}

/-- Adding to a text within a value of one type: `read` finds it there. -/
theorem adds_onField {V : Type} {L : Field F V} {db : Int} {cell : Cell}
    (read : V → Option Bytes) {f : Option V → Out V (Except Bytes Int)}
    (hcell : ∀ t : KvStore F, HasType L env.now db key t →
      cell.text env.now db t = .ok ((t.live env.now db key).bind fun o => read (L.get o.toObj)))
    (hother : ∀ t : KvStore F, ¬ HasType L env.now db key t → cell.text env.now db t = .error ())
    (hfail : ∀ v, numeral (v.bind read) = none → Failed (f v).reply)
    (hadd : ∀ v cur, numeral (v.bind read) = some cur →
      ∃ v', (f v).act = .put v' ∧ (f v).reply = .ok (i64 (clamp64 cur + delta)) ∧
        ∀ o, read (L.get (L.set v' o)) = some (printInt (i64 (clamp64 cur + delta))))
    (s : KvStore F) : Adds env.now db s cell delta (StoreM.onField L db key f env s) := by
  by_cases hty : HasType L env.now db key s
  · have hreply := onField_reply hty f
    have hcur : cell.current env.now db s =
        numeral (((s.live env.now db key).map fun o => L.get o.toObj).bind read) := by
      rw [Cell.current, hcell s hty, Option.bind_map]
      rfl
    rw [Adds, hcur]
    refine ⟨fun hn => ?_, fun cur hc => ?_⟩
    · rw [hreply]
      exact hfail _ hn
    · obtain ⟨v, hact, hsum, hread⟩ := hadd _ cur hc
      obtain ⟨o, ho, hobj⟩ := live_onField_put hty hact
      refine ⟨hreply.trans hsum, ?_⟩
      rw [hcell _ (hty.onField f), ho, Option.bind_some, hobj, hread]
  · have hcur : cell.current env.now db s = none := by
      rw [Cell.current, hother s hty]
    refine ⟨fun _ => ?_, fun cur hc => ?_⟩
    · rw [onField_refused hty f]
      trivial
    · rw [hcur] at hc
      cases hc

variable {now db : Int}

theorem text_value (h : HasType .string now db key s) :
    (Cell.value key).text now db s = .ok ((s.live now db key).bind fun o => some o.value) := by
  rw [Cell.text]
  cases hl : s.live now db key with
  | none => rfl
  | some o => exact if_pos (h o hl)

theorem text_field {key name : Bytes} (h : HasType .hash now db key s) :
    (Cell.field key name).text now db s = .ok ((s.live now db key).bind fun o => o.hash[name]?) := by
  rw [Cell.text]
  cases hl : s.live now db key with
  | none => rfl
  | some o => exact if_pos (h o hl)

theorem text_value_refused (h : ¬ HasType .string now db key s) :
    (Cell.value key).text now db s = .error () := by
  unfold HasType at h
  push Not at h
  obtain ⟨o, hl, ht⟩ := h
  rw [Cell.text, hl]
  exact if_neg ht

theorem text_field_refused {key name : Bytes}
    (h : ¬ HasType .hash now db key s) : (Cell.field key name).text now db s = .error () := by
  unfold HasType at h
  push Not at h
  obtain ⟨o, hl, ht⟩ := h
  rw [Cell.text, hl]
  exact if_neg ht

theorem sum_from_zero (hd : IsI64 delta) : i64 (clamp64 0 + delta) = delta := by
  rw [show clamp64 0 = 0 by decide, Int.zero_add, i64_of_range hd]

theorem incrBy_spec (db : Int) (key : Bytes) (hd : IsI64 delta) (env : Env) (s : KvStore F) :
    Adds env.now db s (.value key) delta (KvStore.incrBy db key delta env s) := by
  rw [incrBy_eq]
  refine adds_onField some (fun t ht => text_value ht) (fun t ht => text_value_refused ht)
    (fun v hn => ?_) (fun v cur hc => ?_) s
  · cases v with
    | none => cases hn
    | some value =>
      replace hn : decimal value = none := hn
      unfold incrBody
      simp only [parseIntegerValue_eq, hn]
      trivial
  · cases v with
    | none =>
      obtain rfl : 0 = cur := Option.some.inj hc
      rw [sum_from_zero hd]
      exact ⟨printInt delta, rfl, rfl, fun o => rfl⟩
    | some value =>
      replace hc : decimal value = some cur := hc
      refine ⟨printInt (i64 (clamp64 cur + delta)), ?_, ?_, fun o => rfl⟩
      · unfold incrBody
        simp only [parseIntegerValue_eq, hc, Option.map_some]
      · unfold incrBody
        simp only [parseIntegerValue_eq, hc, Option.map_some]

theorem hincrby_spec (db : Int) (key name : Bytes) (hd : IsI64 delta) (env : Env)
    (s : KvStore F) :
    Adds env.now db (evictIfNeededLocked env s).2 (.field key name) delta
      (KvStore.hincrby db key name delta env s) := by
  rw [hincrby_eq]
  refine adds_onField (·[name]?) (fun t ht => text_field ht) (fun t ht => text_field_refused ht)
    (fun v hn => ?_) (fun v cur hc => ?_) _
  · cases v with
    | none => cases hn
    | some h =>
      replace hn : numeral h[name]? = none := hn
      unfold hincrBody
      cases ht : h[name]? with
      | none => rw [ht] at hn; cases hn
      | some value =>
        rw [ht] at hn
        replace hn : decimal value = none := hn
        simp only [ht, Option.elim_some, parseIntegerValue_eq, hn]
        trivial
  · cases v with
    | none =>
      obtain rfl : 0 = cur := Option.some.inj hc
      rw [sum_from_zero hd]
      exact ⟨(∅ : BMap Bytes).insert name (printInt delta), rfl, rfl,
        fun o => Std.ExtTreeMap.getElem?_insert_self⟩
    | some h =>
      replace hc : numeral h[name]? = some cur := hc
      have hread : (h[name]?).elim (some 0) parseIntegerValue = some (clamp64 cur) := by
        cases ht : h[name]? with
        | none =>
          rw [ht] at hc
          obtain rfl : 0 = cur := Option.some.inj hc
          rfl
        | some value =>
          rw [ht] at hc
          replace hc : decimal value = some cur := hc
          rw [Option.elim_some, parseIntegerValue_eq, hc]
          rfl
      refine ⟨h.insert name (printInt (i64 (clamp64 cur + delta))), ?_, ?_,
        fun o => Std.ExtTreeMap.getElem?_insert_self⟩
      · unfold hincrBody
        simp only [hread]
      · unfold hincrBody
        simp only [hread]

theorem same_incrBy {db : Int}
    (h : Failed (KvStore.incrBy db key delta env s).1) : Same env.now s (KvStore.incrBy db key delta env s).2 :=
  KvStore.fails_incrBy (I := fun _ => True) env s trivial h

theorem same_hincrby {db : Int} {key name : Bytes}
    (h : Failed (KvStore.hincrby db key name delta env s).1) :
    Same env.now (evictIfNeededLocked env s).2 (KvStore.hincrby db key name delta env s).2 := by
  have hkeep : KeepsWhen (fun _ => True) Failed
      (StoreM.onField (F := F) .hash db key (hincrBody name delta)) := by
    refine fails_onField fun v hp => ?_
    cases v with
    | none => exact hp.elim
    | some m =>
      unfold hincrBody at hp ⊢
      simp only at hp ⊢
      split at hp
      · rfl
      · exact hp.elim
  exact hkeep env _ trivial h

namespace CounterCommand

theorem run_incr (db : Int) (key : RespValue) : (CounterCommand.incr key).run db =
    (if key.isNull then pure (wrongArity "incr")
      else replyWith (KvStore.incrBy db key.str 1) .integer : StoreM F _) := by
  simp [run, Commands.incr, dispatchIncrBy, nullAt, strAt]

theorem run_decr (db : Int) (key : RespValue) : (CounterCommand.decr key).run db =
    (if key.isNull then pure (wrongArity "decr")
      else replyWith (KvStore.incrBy db key.str (-1)) .integer : StoreM F _) := by
  simp [run, Commands.decr, dispatchIncrBy, nullAt, strAt]

theorem run_incrby (db : Int) (key n : RespValue) : (CounterCommand.incrby key n).run db =
    (if key.isNull ∨ n.isNull then pure (wrongArity "incrby")
      else withArg (parseInt64Arg n) notIntegerError fun delta =>
        replyWith (KvStore.incrBy db key.str delta) .integer : StoreM F _) := by
  simp [run, Commands.incrby, nullAt, strAt, intAt]

theorem run_decrby (db : Int) (key n : RespValue) : (CounterCommand.decrby key n).run db =
    (if key.isNull ∨ n.isNull then pure (wrongArity "decrby")
      else withArg (parseInt64Arg n) notIntegerError fun delta =>
        replyWith (KvStore.incrBy db key.str (i64 (-delta))) .integer : StoreM F _) := by
  simp [run, Commands.decrby, nullAt, strAt, intAt]

theorem run_hincrby (db : Int) (key field n : RespValue) : (CounterCommand.hincrby key field n).run db =
    (if key.isNull ∨ field.isNull ∨ n.isNull then pure (wrongArity "hincrby")
      else withArg (parseInt64Arg n) notIntegerError fun delta =>
        replyWith (KvStore.hincrby db key.str field.str delta) .integer : StoreM F _) := by
  simp [run, Commands.hincrby, nullAt, strAt, intAt]

/-- What a handler's answer rests on: it refuses its arguments, or passes on what the operation did. -/
def Answers (db : Int) (env : Env) (s : KvStore F) (c : CounterCommand) (run : RespValue × KvStore F) : Prop :=
  match c.change with
  | none => run.1.isError = true ∧ run.2 = s
  | some (cell, amount) =>
    (-2 ^ 63 ≤ amount ∧ amount ≤ 2 ^ 63) ∧
      ∃ out, Adds env.now db (c.start env s) cell (i64 amount) out ∧
        (Failed out.1 → Same env.now (c.start env s) out.2) ∧ run = (replyTo .integer out.1, out.2)

theorem run_answers (c : CounterCommand) (db : Int) (env : Env) (s : KvStore F) :
    c.Answers db env s (c.run db env s) := by
  cases c with
  | incr key =>
    rw [run_incr, Answers, change]
    by_cases hk : key.isNull = true
    · rw [if_pos hk, if_pos hk]
      exact ⟨rfl, rfl⟩
    rw [if_neg hk, if_neg hk]
    exact ⟨by decide, _, incrBy_spec db key.str (by decide) env s, same_incrBy, rfl⟩
  | decr key =>
    rw [run_decr, Answers, change]
    by_cases hk : key.isNull = true
    · rw [if_pos hk, if_pos hk]
      exact ⟨rfl, rfl⟩
    rw [if_neg hk, if_neg hk]
    exact ⟨by decide, _, incrBy_spec db key.str (by decide) env s, same_incrBy, rfl⟩
  | incrby key n =>
    rw [run_incrby, Answers, change]
    by_cases hk : key.isNull = true ∨ n.isNull = true
    · rw [if_pos hk, if_pos hk]
      exact ⟨rfl, rfl⟩
    rw [if_neg hk, if_neg hk]
    cases hp : parseInt64Arg n with
    | none => exact ⟨rfl, rfl⟩
    | some d =>
      have hd := isI64_parseInt64Arg hp
      have hi : i64 d = d := i64_of_range hd
      refine ⟨⟨hd.1, hd.2.le⟩, _, ?_, same_incrBy, rfl⟩
      rw [hi]
      exact incrBy_spec db key.str hd env s
  | decrby key n =>
    rw [run_decrby, Answers, change]
    by_cases hk : key.isNull = true ∨ n.isNull = true
    · rw [if_pos hk, if_pos hk]
      exact ⟨rfl, rfl⟩
    rw [if_neg hk, if_neg hk]
    cases hp : parseInt64Arg n with
    | none => exact ⟨rfl, rfl⟩
    | some d =>
      obtain ⟨hlo, hhi⟩ := isI64_parseInt64Arg hp
      exact ⟨⟨by omega, by omega⟩, _, incrBy_spec db key.str (isI64_i64 (-d)) env s, same_incrBy, rfl⟩
  | hincrby key field n =>
    rw [run_hincrby, Answers, change]
    by_cases hk : key.isNull = true ∨ field.isNull = true ∨ n.isNull = true
    · rw [if_pos hk, if_pos hk]
      exact ⟨rfl, rfl⟩
    rw [if_neg hk, if_neg hk]
    cases hp : parseInt64Arg n with
    | none => exact ⟨rfl, rfl⟩
    | some d =>
      have hd := isI64_parseInt64Arg hp
      have hi : i64 d = d := i64_of_range hd
      refine ⟨⟨hd.1, hd.2.le⟩, _, ?_, same_hincrby, rfl⟩
      rw [hi]
      exact hincrby_spec db key.str field.str hd env s

end CounterCommand

theorem sum_exact_iff (cur : Int) {amount : Int} (h : -2 ^ 63 ≤ amount ∧ amount ≤ 2 ^ 63) :
    i64 (clamp64 cur + i64 amount) = cur + amount ↔ IsI64 cur ∧ IsI64 (cur + amount) := by
  unfold IsI64 clamp64
  rw [i64_eq, i64_eq]
  omega

/-! ## Top theorem -/

/-- A counter command returns and stores the exact sum or leaves everything as it was with an error, exactly when
the numeral it finds and the sum are values of `int64_t`; else it stores and returns a wrong number. -/
theorem counters_exact_iff (c : CounterCommand) (db : Int) (env : Env) (s : KvStore F) :
    c.ExactOrRefused db env s ↔ c.Fits db env s := by
  have h := c.run_answers db env s
  unfold CounterCommand.ExactOrRefused CounterCommand.Fits
  unfold CounterCommand.Answers at h
  cases hch : c.change with
  | none =>
    rw [hch] at h
    obtain ⟨herr, hst⟩ := h
    exact ⟨fun _ cell amount hn => (by cases hn), fun _ => ⟨herr, by rw [hst]⟩⟩
  | some ca =>
    obtain ⟨cell, amount⟩ := ca
    rw [hch] at h
    obtain ⟨hamount, out, ⟨hfail, hadd⟩, hsame, hrun⟩ := h
    simp only [hrun]
    cases hcur : cell.current env.now db (c.start env s) with
    | none =>
      refine ⟨fun _ cell' amount' hc cur hn => ?_, fun _ => .inr ?_⟩
      · cases hc
        rw [hcur] at hn
        cases hn
      · have hf := hfail hcur
        refine ⟨?_, (hsame hf).view⟩
        cases ho : out.1 with
        | error e => rfl
        | ok n => rw [ho] at hf; cases hf
    | some cur =>
      obtain ⟨hreply, htext⟩ := hadd cur hcur
      have hexact := sum_exact_iff cur hamount
      rw [hreply]
      constructor
      · rintro (⟨cur', hcur', hsum, -⟩ | ⟨herr, -⟩) cell' amount' hc n hn
        · cases hc
          obtain rfl : cur = cur' := Option.some.inj (hcur.symm.trans hcur')
          obtain rfl : cur = n := Option.some.inj (hcur.symm.trans hn)
          exact hexact.mp (RespValue.integer.inj hsum)
        · cases herr
      · intro hfits
        have hsum := hexact.mpr (hfits cell amount rfl cur hcur)
        rw [hsum] at htext ⊢
        exact .inl ⟨cur, hcur, rfl, htext⟩

/-- A counter at the upper limit. -/
def atLimit : KvStore Int :=
  (KvStore.set 0 (lit "k") (printInt (2 ^ 63 - 1)) { now := 1 } KvStore.empty).2

/-- INCR makes it the lower one. -/
theorem incr_wraps : ¬(CounterCommand.incr (.bulk (lit "k"))).ExactOrRefused 0 { now := 1 } atLimit := by
  have hcur : (Cell.value (lit "k")).current 1 0 atLimit = some (2 ^ 63 - 1) := by decide
  have hreply : ∀ n, ((CounterCommand.incr (.bulk (lit "k"))).run 0 { now := 1 } atLimit).1 = .integer n →
      n < 0 := by
    intro n h
    have hn := congrArg (fun v : RespValue => match v with | .integer n => decide (n < 0) | _ => false) h
    exact of_decide_eq_true (hn.symm.trans (by decide))
  rintro (⟨cur, hc, hsum, -⟩ | ⟨herr, -⟩)
  · obtain rfl : 2 ^ 63 - 1 = cur := Option.some.inj (hcur.symm.trans hc)
    exact absurd (hreply _ hsum) (by decide)
  · revert herr
    decide

end Kv.Commands
