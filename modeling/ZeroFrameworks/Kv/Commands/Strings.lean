import ZeroFrameworks.Kv.Commands.Args
import ZeroFrameworks.Kv.Store.Strings

/-!
# String commands

The read commands leave the contents as they were; the write commands are `Steady`, under the
conditions their lemmas name: a deadline that depends on the clock comes out differently when the
command is run again, and MSET with a null argument has stored the pairs before it when it
reports the error.
-/

namespace Kv.Commands

open KvStore (setDeadline)

variable {F : Type} [Platform F]

/-! ## Handlers -/

def get (db : Int) (args : List RespValue) : StoreM F RespValue :=
  if args.length ≠ 2 ∨ nullAt args 1 then pure (wrongArity "get")
  else replyWith (KvStore.get db (strAt args 1)) bulkOrNull

def getset (db : Int) (args : List RespValue) : StoreM F RespValue :=
  if args.length ≠ 3 ∨ nullAt args 1 ∨ nullAt args 2 then pure (wrongArity "getset")
  else replyWith (KvStore.getset db (strAt args 1) (strAt args 2)) bulkOrNull

def getdel (db : Int) (args : List RespValue) : StoreM F RespValue :=
  if args.length ≠ 2 ∨ nullAt args 1 then pure (wrongArity "getdel")
  else replyWith (KvStore.getdel db (strAt args 1)) bulkOrNull

structure SetOptions where
  nx : Bool := false
  xx : Bool := false
  ex : Int := -1
  px : Int := -1

/-- `parseSetOptions`, on the arguments that are left. -/
def parseSetOptions (opt : SetOptions) : List RespValue → Except RespValue SetOptions
  | [] => .ok opt
  | v :: rest =>
    if v.isNull then .error syntaxError
    else if upper v.str = lit "NX" then
      if opt.xx then .error syntaxError else parseSetOptions { opt with nx := true } rest
    else if upper v.str = lit "XX" then
      if opt.nx then .error syntaxError else parseSetOptions { opt with xx := true } rest
    else if upper v.str = lit "EX" then
      if 0 ≤ opt.px then .error syntaxError
      else
        match rest with
        | [] => .error syntaxError
        | w :: rest =>
          if w.isNull then .error syntaxError
          else
            match parseInt64Arg w with
            | none => .error notIntegerError
            | some n => parseSetOptions { opt with ex := n } rest
    else if upper v.str = lit "PX" then
      if 0 ≤ opt.ex then .error syntaxError
      else
        match rest with
        | [] => .error syntaxError
        | w :: rest =>
          if w.isNull then .error syntaxError
          else
            match parseInt64Arg w with
            | none => .error notIntegerError
            | some n => parseSetOptions { opt with px := n } rest
    else .error syntaxError

def set (db : Int) (args : List RespValue) : StoreM F RespValue :=
  if args.length < 3 ∨ nullAt args 1 ∨ nullAt args 2 then pure (wrongArity "set")
  else withParsed (parseSetOptions {} (args.drop 3)) fun opt =>
    (fun rc : Bool => if rc then .ok else .nullBulk) <$>
      KvStore.setOpt db (strAt args 1) (strAt args 2) opt.nx opt.xx opt.ex opt.px

def setex (db : Int) (args : List RespValue) : StoreM F RespValue :=
  if args.length ≠ 4 ∨ nullAt args 1 ∨ nullAt args 2 ∨ nullAt args 3 then pure (wrongArity "setex")
  else withArg (intAt args 2) notIntegerError fun ttl =>
    (fun _ => .ok) <$> KvStore.setex db (strAt args 1) (strAt args 3) ttl

def setnx (db : Int) (args : List RespValue) : StoreM F RespValue :=
  if args.length ≠ 3 ∨ nullAt args 1 ∨ nullAt args 2 then pure (wrongArity "setnx")
  else (fun rc : Bool => .integer (if rc then 1 else 0)) <$>
    KvStore.setOpt db (strAt args 1) (strAt args 2) true false (-1) (-1)

/-- The loop of MGET. -/
def mgetLoop (db : Int) : List RespValue → StoreM F (Except Bytes (List RespValue))
  | [] => pure (.ok [])
  | v :: vs =>
    if v.isNull then (fun r => r.map (RespValue.nullBulk :: ·)) <$> mgetLoop db vs
    else do
      match ← KvStore.get db v.str with
      | .error e => pure (.error e)
      | .ok value => (fun r => r.map (bulkOrNull value :: ·)) <$> mgetLoop db vs

def mget (db : Int) (args : List RespValue) : StoreM F RespValue :=
  if args.length < 2 then pure (wrongArity "mget")
  else replyWith (mgetLoop db (args.drop 1)) .array

/-- The loop of MSET: pairs before a null argument are stored. -/
def msetLoop (db : Int) : List RespValue → StoreM F RespValue
  | k :: v :: rest =>
    if k.isNull || v.isNull then pure (.err "ERR syntax error in MSET")
    else do
      let _ ← KvStore.set db k.str v.str
      msetLoop db rest
  | _ => pure .ok

def mset (db : Int) (args : List RespValue) : StoreM F RespValue :=
  if args.length < 3 ∨ args.length % 2 = 0 then pure (wrongArity "mset")
  else msetLoop db (args.drop 1)

def msetnx (db : Int) (args : List RespValue) : StoreM F RespValue :=
  if args.length < 3 ∨ args.length % 2 = 0 then pure (wrongArity "msetnx")
  else withArg (stringPairs (args.drop 1)) (.err "ERR syntax error in MSETNX") fun pairs =>
    (fun rc : Bool => .integer (if rc then 1 else 0)) <$> KvStore.msetnx db pairs

def dispatchIncrBy (db : Int) (args : List RespValue) (delta : Int) (command : String)
    (minArgs : Nat) : StoreM F RespValue :=
  if args.length ≠ minArgs ∨ nullAt args 1 then pure (wrongArity command)
  else replyWith (KvStore.incrBy db (strAt args 1) delta) .integer

def incr (db : Int) (args : List RespValue) : StoreM F RespValue := dispatchIncrBy db args 1 "incr" 2

def decr (db : Int) (args : List RespValue) : StoreM F RespValue :=
  dispatchIncrBy db args (-1) "decr" 2

def incrby (db : Int) (args : List RespValue) : StoreM F RespValue :=
  if args.length ≠ 3 ∨ nullAt args 1 ∨ nullAt args 2 then pure (wrongArity "incrby")
  else withArg (intAt args 2) notIntegerError fun delta =>
    replyWith (KvStore.incrBy db (strAt args 1) delta) .integer

def decrby (db : Int) (args : List RespValue) : StoreM F RespValue :=
  if args.length ≠ 3 ∨ nullAt args 1 ∨ nullAt args 2 then pure (wrongArity "decrby")
  else withArg (intAt args 2) notIntegerError fun delta =>
    replyWith (KvStore.incrBy db (strAt args 1) (i64 (-delta))) .integer

def incrbyfloat (db : Int) (args : List RespValue) : StoreM F RespValue :=
  if args.length ≠ 3 ∨ nullAt args 1 ∨ nullAt args 2 then pure (wrongArity "incrbyfloat")
  else withArg (prefixDoubleAt args 2) notFloatError fun delta =>
    replyWith (KvStore.incrByFloat db (strAt args 1) delta) .bulk

def append (db : Int) (args : List RespValue) : StoreM F RespValue :=
  if args.length ≠ 3 ∨ nullAt args 1 ∨ nullAt args 2 then pure (wrongArity "append")
  else replyWith (KvStore.append db (strAt args 1) (strAt args 2)) .integer

def strlen (db : Int) (args : List RespValue) : StoreM F RespValue :=
  if args.length ≠ 2 ∨ nullAt args 1 then pure (wrongArity "strlen")
  else replyWith (KvStore.strlen db (strAt args 1)) .integer

structure GetexOptions where
  ex : Int := 0
  px : Int := 0
  persist : Bool := false

/-- The option loop of GETEX. -/
def parseGetexOptions (opt : GetexOptions) : List RespValue → Except RespValue GetexOptions
  | [] => .ok opt
  | v :: rest =>
    if v.isNull then .error syntaxError
    else if upper v.str = lit "PERSIST" then parseGetexOptions { opt with persist := true } rest
    else if upper v.str = lit "EX" ∨ upper v.str = lit "PX" then
      match rest with
      | [] => .error syntaxError
      | w :: rest =>
        match parseInt64Arg w with
        | none => .error notIntegerError
        | some n =>
          parseGetexOptions (if upper v.str = lit "EX" then { opt with ex := n } else { opt with px := n })
            rest
    else .error syntaxError

def getex (db : Int) (args : List RespValue) : StoreM F RespValue :=
  if args.length < 2 ∨ nullAt args 1 then pure (wrongArity "getex")
  else withParsed (parseGetexOptions {} (args.drop 2)) fun opt =>
    replyWith (KvStore.getex db (strAt args 1) opt.ex opt.px opt.persist) bulkOrNull

/-! ## Lemmas -/

variable {lo hi db : Int} {args : List RespValue}

theorem reads_get : Reads (get db args : StoreM F _) :=
  .check fun _ => .reply KvStore.reads_get

theorem reads_strlen : Reads (strlen db args : StoreM F _) :=
  .check fun _ => .reply KvStore.reads_strlen

variable {vs : List RespValue}

theorem reads_mgetLoop : Reads (mgetLoop db vs : StoreM F _) := by
  induction vs with
  | nil => exact .pure _
  | cons v vs ih =>
    refine .ite (fun _ => .map ih fun _ _ => trivial) fun _ => .bind KvStore.reads_get ?_
    rintro (e | value)
    · exact .pure _
    · exact .map ih fun _ _ => trivial

theorem reads_mget : Reads (mget db args : StoreM F _) :=
  .check fun _ => .reply reads_mgetLoop

theorem steady_getset : Steady lo hi (getset db args : StoreM F _) :=
  .check fun _ => .reply KvStore.det_getset KvStore.fails_getset isError_bulkOrNull

theorem steady_getdel : Steady lo hi (getdel db args : StoreM F _) :=
  .check fun _ => .reply KvStore.det_getdel KvStore.fails_getdel isError_bulkOrNull

/-- The deadline SET gives does not depend on the clock. -/
def SetFixed (lo hi : Int) (args : List RespValue) : Prop :=
  ∀ opt, parseSetOptions {} (args.drop 3) = .ok opt →
    FixedDeadline lo hi fun now => setDeadline now opt.ex opt.px

theorem steady_set (h : SetFixed lo hi args) : Steady lo hi (set db args : StoreM F _) :=
  .check fun _ => .withParsed fun opt ho =>
    .map (KvStore.det_setOpt (h opt ho)) fun rc => by cases rc <;> rfl

/-- The deadline SETEX gives does not depend on the clock. -/
def SetexFixed (lo hi : Int) (args : List RespValue) : Prop :=
  ∀ ttl, intAt args 2 = some ttl → FixedDeadline lo hi fun now => setDeadline now ttl (-1)

theorem steady_setex (h : SetexFixed lo hi args) : Steady lo hi (setex db args : StoreM F _) :=
  .check fun _ => .withArg fun ttl ht => .map (KvStore.det_setOpt (h ttl ht)) fun _ => rfl

theorem steady_setnx : Steady lo hi (setnx db args : StoreM F _) :=
  .check fun _ => .map (KvStore.det_setOpt (KvStore.fixedDeadline_set (by decide) (by decide)))
    fun _ => rfl

theorem det_msetLoop : Det lo hi (msetLoop db vs : StoreM F _) := by
  induction vs using msetLoop.induct with
  | case1 k v rest h => rw [msetLoop, if_pos h]; exact .pure _
  | case2 k v rest h ih =>
    rw [msetLoop, if_neg h]
    exact .bind KvStore.det_set fun _ => ih
  | case3 vs h => rw [msetLoop]; exact .pure _; exact h

theorem msetLoop_ok (h : (stringPairs vs).isSome) (env : Env) (s : KvStore F) :
    (msetLoop db vs env s).1 = .ok := by
  induction vs using msetLoop.induct generalizing s with
  | case1 k v rest hn => rw [stringPairs, if_pos hn] at h; cases h
  | case2 k v rest hn ih =>
    rw [stringPairs, if_neg hn, Option.isSome_map] at h
    rw [msetLoop, if_neg hn]
    exact ih h _
  | case3 vs hn => rw [msetLoop]; rfl; exact hn

theorem steady_mset (h : (stringPairs (args.drop 1)).isSome) :
    Steady lo hi (mset db args : StoreM F _) := by
  refine .check fun _ => ⟨det_msetLoop, fun env s _ hq => absurd hq ?_⟩
  rw [msetLoop_ok h]
  simp [IsErr, RespValue.ok, RespValue.isError]

theorem steady_msetnx : Steady lo hi (msetnx db args : StoreM F _) :=
  .check fun _ => .withArg fun _ _ => .map KvStore.det_msetnx fun _ => rfl

theorem steady_dispatchIncrBy {delta : Int} {command : String} {minArgs : Nat} :
    Steady lo hi (dispatchIncrBy db args delta command minArgs : StoreM F _) :=
  .check fun _ => .reply det_onField KvStore.fails_incrBy fun _ => rfl

theorem steady_incrby : Steady lo hi (incrby db args : StoreM F _) :=
  .check fun _ => .withArg fun _ _ => .reply det_onField KvStore.fails_incrBy fun _ => rfl

theorem steady_decrby : Steady lo hi (decrby db args : StoreM F _) :=
  .check fun _ => .withArg fun _ _ => .reply det_onField KvStore.fails_incrBy fun _ => rfl

theorem steady_incrbyfloat : Steady lo hi (incrbyfloat db args : StoreM F _) :=
  .check fun _ => .withArg fun _ _ => .reply det_onField KvStore.fails_incrByFloat fun _ => rfl

theorem steady_append : Steady lo hi (append db args : StoreM F _) :=
  .check fun _ => .reply KvStore.det_append KvStore.fails_append fun _ => rfl

/-- GETEX makes the key persistent, or the deadline it gives does not depend on the clock. -/
def GetexFixed (lo hi : Int) (args : List RespValue) : Prop :=
  ∀ opt, parseGetexOptions {} (args.drop 2) = .ok opt →
    opt.persist = true ∨ FixedDeadline lo hi fun now => setDeadline now opt.ex opt.px

theorem steady_getex (h : GetexFixed lo hi args) : Steady lo hi (getex db args : StoreM F _) :=
  .check fun _ => .withParsed fun opt ho =>
    .reply (KvStore.det_getex (h opt ho)) KvStore.fails_getex isError_bulkOrNull

end Kv.Commands
