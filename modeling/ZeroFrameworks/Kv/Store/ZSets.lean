import ZeroFrameworks.Kv.Store.Lists

/-!
# Sorted-set operations of the store

A sorted set is a map from members to scores; every ranked answer sorts it anew.
-/

namespace Kv

variable {F : Type} [Platform F]

structure ZaddOptions where
  nx : Bool := false
  xx : Bool := false
  gt : Bool := false
  lt : Bool := false
  ch : Bool := false

/-- The comparison of the ranked forms: by score, then by member. -/
def rankLt (a b : F × Bytes) : Bool :=
  if Platform.eq a.1 b.1 then (compare a.2 b.2).isLT else Platform.lt a.1 b.1

/-- `rankedZset`. -/
def rankedZset (z : BMap F) (reverse : Bool) : List (F × Bytes) :=
  let items := z.toList.map fun m => (m.2, m.1)
  if reverse then items.mergeSort fun a b => !rankLt a b
  else items.mergeSort fun a b => !rankLt b a

structure ScoreBound (F : Type) where
  val : F
  exclusive : Bool := false
  negInf : Bool := false
  posInf : Bool := false

def parseScoreBound (s : Bytes) : Option (ScoreBound F) :=
  if s.isEmpty then none
  else if s = lit "-inf" ∨ s = lit "-INF" then some { val := Platform.zero, negInf := true }
  else if s ∈ [lit "+inf", lit "inf", lit "+INF", lit "INF"] then
    some { val := Platform.zero, posInf := true }
  else
    let exclusive := s.head? == some 40
    let r := Platform.strtod (F := F) (cstr (if exclusive then s.tail else s))
    if r.2 = 0 || Platform.isNan r.1 then none else some { val := r.1, exclusive := exclusive }

def scoreGeMin (score : F) (min : ScoreBound F) : Bool :=
  if min.negInf then true
  else if min.exclusive then Platform.lt min.val score
  else Platform.lt min.val score || Platform.eq min.val score

def scoreLeMax (score : F) (max : ScoreBound F) : Bool :=
  if max.posInf then true
  else if max.exclusive then Platform.lt score max.val
  else Platform.lt score max.val || Platform.eq score max.val

def scoreInRange (score : F) (min max : ScoreBound F) : Bool :=
  scoreGeMin score min && scoreLeMax score max

/-- The output loop of `zrangeByScore`: the bound on the output is looked at after each item. -/
def takeRange (min max : ScoreBound F) (count : Int) :
    List (F × Bytes) → Int → List (Bytes × F) → List (Bytes × F)
  | [], _, out => out
  | item :: rest, skip, out =>
    if !scoreInRange item.1 min max then takeRange min max count rest skip out
    else if 0 < skip then takeRange min max count rest (skip - 1) out
    else
      let out := out ++ [(item.2, item.1)]
      if 0 ≤ count ∧ count ≤ out.length then out else takeRange min max count rest skip out

/-- The loop of `zpopmin` and `zpopmax`: the last of the members better than those before it. -/
def bestMember (better : F × Bytes → F × Bytes → Bool) (z : BMap F) : Option (F × Bytes) :=
  match z.toList.map fun m => (m.2, m.1) with
  | [] => none
  | m :: ms => some ((m :: ms).foldl (fun best it => if better it best then it else best) m)

namespace KvStore

/-! ## Operations -/

/-- One member of `zaddOpt`: the counters of added and updated members and the set. -/
def zaddStep (opt : ZaddOptions) (a : Int × Int × BMap F) (pair : F × Bytes) : Int × Int × BMap F :=
  match a.2.2[pair.2]? with
  | none =>
    if opt.xx then a else (a.1 + 1, a.2.1, a.2.2.insert pair.2 pair.1)
  | some old =>
    if opt.nx then a
    else if opt.gt && (Platform.lt pair.1 old || Platform.eq pair.1 old) then a
    else if opt.lt && (Platform.lt old pair.1 || Platform.eq old pair.1) then a
    else if Platform.eq old pair.1 then a
    else (a.1, a.2.1 + 1, a.2.2.insert pair.2 pair.1)

def zaddOpt (db : Int) (key : Bytes) (opt : ZaddOptions) (members : List (F × Bytes)) :
    StoreM F (Except Bytes Int) :=
  if members.isEmpty then pure (.ok 0)
  else if opt.nx && opt.xx then
    pure (.error (lit "ERR NX and XX options at the same time are not compatible"))
  else if opt.gt && opt.lt then
    pure (.error (lit "ERR GT and LT options at the same time are not compatible"))
  else .onField .zset db key fun v =>
    if opt.xx && v.isNone then { reply := .ok 0 }
    else
      let r := members.foldl (zaddStep opt) (0, 0, v.getD ∅)
      let reply := .ok (if opt.ch then r.1 + r.2.1 else r.1)
      if r.2.2.isEmpty then { act := .erase, bump := true, reply := reply }
      else { act := .put r.2.2, touch := true, bump := true, reply := reply }

/-- `zadd`, which the AOF and the tests use; the command goes through `zaddOpt`. -/
def zadd (db : Int) (key : Bytes) (members : List (F × Bytes)) : StoreM F (Except Bytes Int) :=
  if members.isEmpty then pure (.ok 0)
  else .onField .zset db key fun v =>
    let r := members.foldl (fun (a : Int × BMap F) pair =>
      (if a.2.contains pair.2 then a.1 else a.1 + 1, a.2.insert pair.2 pair.1)) (0, v.getD ∅)
    { act := .put r.2, bump := true, reply := .ok r.1 }

def zrem (db : Int) (key : Bytes) (members : List Bytes) : StoreM F (Except Bytes Int) :=
  if members.isEmpty then pure (.ok 0)
  else .onField .zset db key fun v =>
    match v with
    | none => { reply := .ok 0 }
    | some z =>
      let r := members.foldl (fun (a : Int × BMap F) m =>
        (if a.2.contains m then a.1 + 1 else a.1, a.2.erase m)) (0, z)
      { act := if r.2.isEmpty then .erase else .put r.2, bump := true, reply := .ok r.1 }

def zscore (db : Int) (key member : Bytes) : StoreM F (Except Bytes (Option F)) :=
  .onField .zset db key fun v => { reply := .ok (v.bind (·[member]?)) }

/-- `zcard`; `none` is `found == false`. -/
def zcard (db : Int) (key : Bytes) : StoreM F (Except Bytes (Option Int)) :=
  .onField .zset db key fun v => { reply := .ok (v.map fun z => (z.size : Int)) }

def zrange (db : Int) (key : Bytes) (start stop : Int) (reverse : Bool) :
    StoreM F (Except Bytes (List (Bytes × F))) :=
  .onField .zset db key fun v =>
    { reply := .ok ((((v.bind fun z => listSlice (rankedZset z reverse) start stop).getD []).map
        fun r => (r.2, r.1))) }

def zincrby (db : Int) (key member : Bytes) (increment : F) : StoreM F (Except Bytes F) :=
  .onField .zset db key fun v =>
    match v with
    | none =>
      { act := .put ((∅ : BMap F).insert member increment), bump := true, reply := .ok increment }
    | some z =>
      let next := Platform.add (z[member]?.getD Platform.zero) increment
      { act := .put (z.insert member next), bump := true, reply := .ok next }

/-- `zrank`: `none` where the handler answers nil. -/
def zrank (db : Int) (key member : Bytes) (reverse : Bool) : StoreM F (Except Bytes (Option Int)) :=
  .onField .zset db key fun v =>
    { reply := .ok (v.bind fun z =>
        if z.contains member then
          some (((rankedZset z reverse).findIdx fun r => r.2 == member : Nat) : Int)
        else none) }

/-- `zpopmin` and `zpopmax`. -/
def zpopBest (better : F × Bytes → F × Bytes → Bool) (db : Int) (key : Bytes) :
    StoreM F (Except Bytes (Option (Bytes × F))) := do
  evictIfNeededLocked
  .onField .zset db key fun v =>
    match v.bind fun z => (bestMember better z).map fun b => (b, z.erase b.2) with
    | none => { reply := .ok none }
    | some (b, rest) =>
      if rest.isEmpty then { act := .erase, bump := true, reply := .ok (some (b.2, b.1)) }
      else { act := .put rest, touch := true, bump := true, reply := .ok (some (b.2, b.1)) }

def zpopmin (db : Int) (key : Bytes) : StoreM F (Except Bytes (Option (Bytes × F))) :=
  zpopBest (fun it best => Platform.lt it.1 best.1 ||
    (Platform.eq it.1 best.1 && (compare it.2 best.2).isLT)) db key

def zpopmax (db : Int) (key : Bytes) : StoreM F (Except Bytes (Option (Bytes × F))) :=
  zpopBest (fun it best => Platform.lt best.1 it.1 ||
    (Platform.eq it.1 best.1 && (compare best.2 it.2).isLT)) db key

def notFloatRange : Bytes := lit "ERR min or max is not a float"

def zrangeByScore (db : Int) (key min max : Bytes) (reverse : Bool) (offset count : Int) :
    StoreM F (Except Bytes (List (Bytes × F))) :=
  match parseScoreBound (F := F) min, parseScoreBound (F := F) max with
  | some bmin, some bmax => .onField .zset db key fun v =>
      { reply := .ok ((v.map fun z =>
          takeRange bmin bmax count (rankedZset z reverse) offset []).getD []) }
  | _, _ => pure (.error notFloatRange)

def zcount (db : Int) (key min max : Bytes) : StoreM F (Except Bytes Int) :=
  match parseScoreBound (F := F) min, parseScoreBound (F := F) max with
  | some bmin, some bmax => .onField .zset db key fun v =>
      { reply := .ok ((v.map fun z =>
          ((z.toList.filter fun m => scoreInRange m.2 bmin bmax).length : Int)).getD 0) }
  | _, _ => pure (.error notFloatRange)

def zscan (db : Int) (key : Bytes) (cursor : Nat) (pattern : Bytes) (count : Int) :
    StoreM F (Except Bytes (Nat × List Bytes)) :=
  .onField .zset db key fun v =>
    let flat := ((v.map (·.toList)).getD []).filter (fun m => matchGlob pattern m.1)
      |>.flatMap fun m => [Platform.toString m.2, m.1]
    { reply := .ok (page (flat.mergeSort bytesLe) cursor count) }

/-! ## Lemmas -/

variable {I : StoreConf → Prop} {lo hi db : Int} {key : Bytes} {member : Bytes}

theorem reads_zscore : Reads (zscore db key member : StoreM F _) :=
  reads_onField fun _ => rfl

theorem reads_zcard : Reads (zcard db key : StoreM F _) := reads_onField fun _ => rfl

variable {reverse : Bool}

theorem reads_zrange {start stop : Int} :
    Reads (zrange db key start stop reverse : StoreM F _) := reads_onField fun _ => rfl

theorem reads_zrank :
    Reads (zrank db key member reverse : StoreM F _) := reads_onField fun _ => rfl

theorem reads_zrangeByScore {min max : Bytes} {offset count : Int} :
    Reads (zrangeByScore db key min max reverse offset count : StoreM F _) := by
  unfold zrangeByScore
  split
  · exact reads_onField fun _ => rfl
  · exact .pure _

theorem reads_zcount {min max : Bytes} : Reads (zcount db key min max : StoreM F _) := by
  unfold zcount
  split
  · exact reads_onField fun _ => rfl
  · exact .pure _

theorem reads_zscan {cursor : Nat} {pattern : Bytes} {count : Int} :
    Reads (zscan db key cursor pattern count : StoreM F _) := reads_onField fun _ => rfl

theorem fails_zaddOpt {opt : ZaddOptions} {members : List (F × Bytes)} :
    KeepsWhen I Failed (zaddOpt db key opt members : StoreM F _) := by
  refine .ite (fun _ => .pure _) fun _ => .ite (fun _ => .pure _) fun _ =>
    .ite (fun _ => .pure _) fun _ => fails_onField fun v hp => ?_
  split at hp
  · exact hp.elim
  · simp only at hp
    split at hp <;> exact hp.elim

theorem fails_zrem {members : List Bytes} :
    KeepsWhen I Failed (zrem db key members : StoreM F _) :=
  .ite (fun _ => .pure _) fun _ => fails_onField fun v hp => by cases v <;> exact hp.elim

theorem fails_zincrby {increment : F} :
    KeepsWhen I Failed (zincrby db key member increment : StoreM F _) :=
  fails_onField fun v hp => by cases v <;> exact hp.elim

theorem fails_zpopBest {better : F × Bytes → F × Bytes → Bool} :
    KeepsWhen StoreConf.NoEvict Failed (zpopBest better db key : StoreM F _) := by
  refine .bind keeps_evict fun _ => fails_onField fun v hp => ?_
  split at hp
  · exact hp.elim
  · split at hp <;> exact hp.elim

theorem det_zaddOpt {opt : ZaddOptions} {members : List (F × Bytes)} :
    Det lo hi (zaddOpt db key opt members : StoreM F _) :=
  .ite (fun _ => .pure _) fun _ => .ite (fun _ => .pure _) fun _ =>
    .ite (fun _ => .pure _) fun _ => det_onField

theorem det_zrem {members : List Bytes} : Det lo hi (zrem db key members : StoreM F _) :=
  .ite (fun _ => .pure _) fun _ => det_onField

theorem det_zpopBest {better : F × Bytes → F × Bytes → Bool} :
    Det lo hi (zpopBest better db key : StoreM F _) :=
  .bind det_evict fun _ => det_onField

end KvStore

end Kv
