import ZeroFrameworks.Kv.Bytes

/-!
# RESP values and their encoding

`RespValue` is a sum of the shapes the code builds: the C++ struct carries every field in
every value, the constructors below keep the ones its `type` (and `is_null`) make readable.
`encode` is `RespEncoder::encode`, with its own integer printer `appendInt64`.
-/

namespace Kv

inductive RespValue where
  | simple (s : Bytes)
  | error (s : Bytes)
  | integer (n : Int)
  | bulk (s : Bytes)
  | nullBulk
  | array (items : List RespValue)
  | null
  deriving Repr

namespace RespValue

/-- The `str` field: `nullBulk` and the other shapes leave it empty. -/
def str : RespValue → Bytes
  | simple s | error s | bulk s => s
  | _ => []

/-- The `array` field. -/
def items : RespValue → List RespValue
  | array xs => xs
  | _ => []

def isError : RespValue → Bool
  | error _ => true
  | _ => false

/-- `type == RespType::Null`: the reply of a handler that has already written its answer. -/
def isNone : RespValue → Bool
  | null => true
  | _ => false

def ok : RespValue := simple (lit "OK")

def pong : RespValue := simple (lit "PONG")

def queued : RespValue := simple (lit "QUEUED")

def err (msg : String) : RespValue := error (lit msg)

/-- A request argument that is a bulk string and not the null bulk. -/
def asBulk : RespValue → Option Bytes
  | bulk s => some s
  | _ => none

end RespValue

/-! ## Encoding -/

def crlf : Bytes := [13, 10]

/-- Digits the `do … while (n > 0)` loop of `appendInt64` leaves in its buffer.  After the
sign has been taken off, `n` can be `-1`: the loop then runs once and stores `'0' - 1`. -/
def appendDigits (n : Int) : Bytes :=
  if n < 0 then [UInt8.ofNat (48 + n.tmod 10).toNat] else printNat n.toNat

/-- `appendInt64`.  A negative number is split as `n = 10 q + r` first; where `r` is not zero
the quotient is moved by one. -/
def appendInt64 (n : Int) : Bytes :=
  if n < 0 then
    let q := n.tdiv 10
    let r := n.tmod 10
    if r < 0 then 45 :: (appendDigits (-(q + 1)) ++ [digit (-r).toNat])
    else 45 :: (appendDigits (-q) ++ [digit r.toNat])
  else appendDigits n

mutual

/-- `RespEncoder::encode`. -/
def encode : RespValue → Bytes
  | .simple s => 43 :: (s ++ crlf)
  | .error s => 45 :: (s ++ crlf)
  | .integer n => 58 :: (appendInt64 n ++ crlf)
  | .bulk s => 36 :: (appendInt64 s.length ++ crlf ++ (s ++ crlf))
  | .nullBulk => lit "$-1\r\n"
  | .array xs => 42 :: (appendInt64 xs.length ++ crlf ++ encodeItems xs)
  | .null => lit "$-1\r\n"

def encodeItems : List RespValue → Bytes
  | [] => []
  | x :: xs => encode x ++ encodeItems xs

end

theorem appendInt64_natCast (n : Nat) : appendInt64 (n : Int) = printNat n := by
  have h : ¬ (n : Int) < 0 := by omega
  simp only [appendInt64, appendDigits, if_neg h, Int.toNat_natCast]

theorem lit_nullBulk : lit "$-1\r\n" = [36, 45, 49, 13, 10] := by decide

theorem encode_ne_nil (v : RespValue) : encode v ≠ [] := by
  cases v <;> simp [encode, lit_nullBulk]

-- The quotient of a negative number is moved once too often: -123 prints as -113.
example : appendInt64 (-123) = lit "-113" := by decide

end Kv
