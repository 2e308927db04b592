import ZeroFrameworks.Kv.Store.Field

/-!
# Arguments and replies of command handlers

A handler gets the whole request array, its name at index 0.  Handlers on the store are built from
argument checks (`if`), parsed arguments (`withArg`) and a store operation whose result becomes
the reply (`replyWith`).  Two properties are closed under these:

    Reads h          the handler leaves the contents as they were
    Steady lo hi h   runs on agreeing stores agree (`det`), and a run that ends in an error
                     reply leaves the contents as they were (`fails`)
-/

namespace Kv

/-! ## Arguments -/

namespace RespValue

/-- `is_null`. -/
def isNull : RespValue → Bool
  | nullBulk => true
  | _ => false

end RespValue

/-- `req.array[i].is_null`. -/
def nullAt (args : List RespValue) (i : Nat) : Bool := args[i]?.any RespValue.isNull

/-- `req.array[i].str`. -/
def strAt (args : List RespValue) (i : Nat) : Bytes := (args[i]?.map RespValue.str).getD []

/-- `upperArg(req.array[i].str)`. -/
def upperAt (args : List RespValue) (i : Nat) : Bytes := upper (strAt args i)

/-- The collecting loops: the strings of the arguments, unless one of them is null. -/
def strings : List RespValue → Option (List Bytes)
  | [] => some []
  | x :: xs => if x.isNull then none else (strings xs).map (x.str :: ·)

/-- The loops in steps of two; an argument without a partner is not looked at. -/
def stringPairs : List RespValue → Option (List (Bytes × Bytes))
  | x :: y :: rest =>
    if x.isNull || y.isNull then none else (stringPairs rest).map ((x.str, y.str) :: ·)
  | _ => some []

/-- `parseInt64Arg` of `command_dispatch.cc`: the whole text is a number. -/
def parseInt64Arg (v : RespValue) : Option Int :=
  match v.asBulk with
  | none => none
  | some s =>
    if s.isEmpty then none
    else
      let r := strtoll s
      if r.2 = 0 ∨ r.2 < (cstr s).length then none else some r.1

/-- `parseInt64Arg` of `commands_p0p1.cc`: the text starts with a number. -/
def parseInt64Prefix (v : RespValue) : Option Int :=
  match v.asBulk with
  | none => none
  | some s => if (strtoll s).2 = 0 then none else some (strtoll s).1

/-- `parseDbIndex`. -/
def parseDbIndex (v : RespValue) : Option Int :=
  (parseInt64Arg v).filter fun n => decide (0 ≤ n) && decide (n ≤ 15)

variable {F : Type} [Platform F]

/-- `parseDoubleArg` of `command_dispatch.cc`. -/
def parseDoubleArg (v : RespValue) : Option F :=
  match v.asBulk with
  | none => none
  | some s =>
    if s.isEmpty then none
    else
      let r := Platform.strtod (F := F) s
      if r.2 = 0 ∨ r.2 < (cstr s).length then none else some r.1

/-- `parseDoubleArg` of `commands_p0p1.cc`. -/
def parseDoublePrefix (v : RespValue) : Option F :=
  match v.asBulk with
  | none => none
  | some s =>
    let r := Platform.strtod (F := F) s
    if r.2 = 0 ∨ Platform.isNan r.1 then none else some r.1

def intAt (args : List RespValue) (i : Nat) : Option Int := args[i]?.bind parseInt64Arg

def prefixIntAt (args : List RespValue) (i : Nat) : Option Int := args[i]?.bind parseInt64Prefix

def doubleAt (args : List RespValue) (i : Nat) : Option F := args[i]?.bind parseDoubleArg

def prefixDoubleAt (args : List RespValue) (i : Nat) : Option F := args[i]?.bind parseDoublePrefix

/-! ## Replies -/

def wrongArity (command : String) : RespValue :=
  .err ("ERR wrong number of arguments for '" ++ command ++ "' command")

def syntaxError : RespValue := .err "ERR syntax error"

def notIntegerError : RespValue := .err "ERR value is not an integer or out of range"

def notFloatError : RespValue := .err "ERR value is not a valid float"

/-- `found ? bulk(value) : nullBulk()`. -/
def bulkOrNull (v : Option Bytes) : RespValue := v.elim .nullBulk .bulk

def bulkArray (vs : List Bytes) : RespValue := .array (vs.map .bulk)

variable {α : Type}

/-- Go on with a parsed argument, or answer `err`. -/
def withArg (arg : Option α) (err : RespValue) (k : α → StoreM F RespValue) : StoreM F RespValue :=
  match arg with
  | none => pure err
  | some a => k a

/-- Go on with the result of an argument parser, or answer its error. -/
def withParsed (arg : Except RespValue α) (k : α → StoreM F RespValue) : StoreM F RespValue :=
  match arg with
  | .error e => pure e
  | .ok a => k a

/-- The reply to the result of an operation; its error text becomes an error reply. -/
def replyTo (f : α → RespValue) : Except Bytes α → RespValue
  | .error e => .error e
  | .ok a => f a

def replyWith (m : StoreM F (Except Bytes α)) (f : α → RespValue) : StoreM F RespValue :=
  replyTo f <$> m

variable {v : RespValue}

theorem isI64_parseInt64Arg {n : Int} (h : parseInt64Arg v = some n) : IsI64 n := by
  unfold parseInt64Arg at h
  split at h
  · cases h
  · split at h
    · cases h
    · simp only at h
      split at h
      · cases h
      · exact Option.some.inj h ▸ isI64_strtoll _

/-! ## Leaving the contents as they were -/

variable {k : α → StoreM F RespValue} {f : α → RespValue} {m : StoreM F (Except Bytes α)}

namespace KeepsWhen

variable {I : StoreConf → Prop} {P : RespValue → Prop}

theorem check {c : Prop} [Decidable c] {m : StoreM F RespValue}
    (h : ¬ c → KeepsWhen I P m) : KeepsWhen I P (if c then Pure.pure v else m) :=
  .ite (fun _ => .pure v) h

theorem withArg {arg : Option α} {err : RespValue}
    (h : ∀ a, arg = some a → KeepsWhen I P (k a)) : KeepsWhen I P (withArg arg err k) := by
  cases arg with
  | none => exact .pure _
  | some a => exact h a rfl

theorem withParsed {arg : Except RespValue α}
    (h : ∀ a, arg = .ok a → KeepsWhen I P (k a)) : KeepsWhen I P (withParsed arg k) := by
  cases arg with
  | error e => exact .pure _
  | ok a => exact h a rfl

theorem reply (h : Reads m) :
    Reads (replyWith m f) := .map h fun _ _ => trivial

end KeepsWhen

/-- The reply is an error. -/
def IsErr (v : RespValue) : Prop := v.isError = true

theorem fails_replyWith {I : StoreConf → Prop}
    (h : KeepsWhen I Failed m) (hf : ∀ a, (f a).isError = false) :
    KeepsWhen I IsErr (replyWith m f) := by
  refine .map h ?_
  rintro (e | a) hq
  · trivial
  · exact absurd hq (by simp [IsErr, replyTo, hf a])

/-! ## Handlers whose effect can be repeated -/

/-- What replaying a handler relies on. -/
structure Steady (lo hi : Int) (h : StoreM F RespValue) : Prop where
  det : Det lo hi h
  fails : KeepsWhen StoreConf.NoEvict IsErr h

namespace Steady

variable {lo hi : Int}

theorem pure (v : RespValue) : Steady lo hi (Pure.pure v : StoreM F RespValue) := ⟨.pure v, .pure v⟩

theorem ite {c : Prop} [Decidable c] {m m' : StoreM F RespValue} (h : c → Steady lo hi m)
    (h' : ¬ c → Steady lo hi m') : Steady lo hi (if c then m else m') := by
  split
  next hc => exact h hc
  next hc => exact h' hc

theorem check {c : Prop} [Decidable c] {m : StoreM F RespValue}
    (h : ¬ c → Steady lo hi m) : Steady lo hi (if c then Pure.pure v else m) :=
  ite (fun _ => pure v) h

theorem withArg {arg : Option α} {err : RespValue}
    (h : ∀ a, arg = some a → Steady lo hi (k a)) : Steady lo hi (withArg arg err k) := by
  cases arg with
  | none => exact pure err
  | some a => exact h a rfl

theorem withParsed {arg : Except RespValue α}
    (h : ∀ a, arg = .ok a → Steady lo hi (k a)) : Steady lo hi (withParsed arg k) := by
  cases arg with
  | error e => exact pure e
  | ok a => exact h a rfl

theorem reply (hd : Det lo hi m)
    (hm : KeepsWhen StoreConf.NoEvict Failed m) (hf : ∀ a, (f a).isError = false) :
    Steady lo hi (replyWith m f) := ⟨.map hd, fails_replyWith hm hf⟩

theorem map {m : StoreM F α} (hd : Det lo hi m)
    (hf : ∀ a, (f a).isError = false) : Steady lo hi (f <$> m) := by
  refine ⟨.map hd, fun env s _ hq => absurd hq ?_⟩
  simp [IsErr, hf]

end Steady

theorem isError_bulkOrNull (v : Option Bytes) : (bulkOrNull v).isError = false := by
  cases v <;> rfl

end Kv
