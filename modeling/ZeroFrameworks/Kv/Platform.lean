import ZeroFrameworks.Kv.Resp.Value
import ZeroFrameworks.Kv.Store.Entry
import ZeroFrameworks.Lib.Codec

/-!
# What the server takes from the platform

`double` arithmetic and its C conversions, `std::hash`, SHA-1, JsonCpp and the Lua library are not
part of the repository.  They are the fields of `Platform F`, where `F` stands for `double`; nothing
is assumed about them unless a theorem says so.

`Env` is what one request meets and does not choose: the clock, the random draws, the order in
which the unordered containers happen to list their keys, and what ends the wait of a blocking pop.
-/

namespace Kv

/-- A script as its caller sees it: a result, or a `redis.call` and what follows its reply. -/
inductive LuaRun where
  | done (result : RespValue)
  | call (args : List Bytes) (next : RespValue → LuaRun)

class Platform (F : Type) where
  zero : F
  add : F → F → F
  lt : F → F → Bool
  eq : F → F → Bool
  isNan : F → Bool
  isInf : F → Bool
  /-- `strtod`: the value and the number of bytes before `end` (`0` when there is no number). -/
  strtod : Bytes → F × Nat
  /-- `std::ostringstream << x`. -/
  format : F → Bytes
  /-- `std::to_string(x)`. -/
  toString : F → Bytes
  /-- `snprintf("%.17g", x)`. -/
  format17g : F → Bytes
  /-- `(int64_t)(x * 1000)`. -/
  toMs : F → Int
  /-- The greatest count for which `vector<StreamEntry>::reserve` has memory. -/
  room : Nat
  /-- What the build makes of `-n` for the least int64, which C++ does not define. -/
  negLeast : Int
  /-- The eight bytes of a `double` in memory. -/
  toBytes : F → Bytes
  ofBytes : Bytes → F
  /-- `std::hash<std::string>`. -/
  hash : Bytes → Nat
  sha1Hex : Bytes → Bytes
  /-- A snapshot in the old JSON format, read through JsonCpp at a clock reading: the entries as
  database, key and item, or an error. -/
  jsonV1 : Int → Bytes → Except Bytes (List (Int × Bytes × Item F))
  /-- Running a script on its `KEYS` and `ARGV`. -/
  lua : Bytes → List Bytes → List Bytes → LuaRun

/-- Doubles without a fraction, a hash that looks at the first byte, and a script library that
knows one script: enough for concrete runs. -/
instance wholeNumbers : Platform Int where
  zero := 0
  add x y := x + y
  lt x y := decide (x < y)
  eq x y := decide (x = y)
  isNan _ := false
  isInf _ := false
  strtod := strtoll
  format := printInt
  toString x := printInt x ++ lit ".000000"
  format17g := printInt
  toMs x := x * 1000
  room := 2 ^ 20
  negLeast := 1
  toBytes x := Codec.le 8 (x % 2 ^ 64).toNat
  ofBytes b := i64 (Codec.ofLe b)
  hash key := (key.headD 0).toNat
  sha1Hex body := lit "sha1:" ++ body
  jsonV1 _ _ := .error (lit "ERR not JSON")
  lua body _ _ :=
    if body = lit "return redis.call('SET','k','v')" then .call [lit "SET", lit "k", lit "v"] .done
    else .done .null

structure Env where
  /-- `KvStore::nowMs()`, read once for a request. -/
  now : Int
  /-- What the random engines draw. -/
  pick : Nat → Nat := fun _ => 0
  /-- The order in which an unordered container lists its keys. -/
  order : List Bytes → List Bytes := id
  order_perm : ∀ l, (order l).Perm l := by intro l; exact List.Perm.refl l
  /-- What a blocking pop that had to wait is woken with; `none` when its time is up first. -/
  woken : Option (Bytes × Bytes) := none
  /-- Milliseconds a handler takes. -/
  elapsed : Int := 0
  /-- The microseconds of `gettimeofday`. -/
  usec : Int := 0

end Kv
