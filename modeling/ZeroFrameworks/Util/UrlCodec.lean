import ZeroFrameworks.Util.Base64Url

/-!
# Percent encoding (`StringUtil::UrlEncode`, `UrlDecode`)

Both copy the text only from the first byte on that they change.

    UrlDecode (UrlEncode s p) p = s   (urlDecode_encode)

The table of the characters that stay as they are has the `=` in it.
-/

namespace Util.StringUtil

open Kv (Bytes lit)

/-! ## Algorithm -/

def uriChars : List Nat := [
  0, 0, 0, 0, 0, 0, 0, 0,   0, 0, 0, 0, 0, 0, 0, 0,
  0, 0, 0, 0, 0, 0, 0, 0,   0, 0, 0, 0, 0, 0, 0, 0,
  0, 0, 0, 0, 0, 0, 0, 0,   0, 0, 0, 0, 0, 1, 1, 0,
  1, 1, 1, 1, 1, 1, 1, 1,   1, 1, 0, 0, 0, 1, 0, 0,
  0, 1, 1, 1, 1, 1, 1, 1,   1, 1, 1, 1, 1, 1, 1, 1,
  1, 1, 1, 1, 1, 1, 1, 1,   1, 1, 1, 0, 0, 0, 0, 1,
  0, 1, 1, 1, 1, 1, 1, 1,   1, 1, 1, 1, 1, 1, 1, 1,
  1, 1, 1, 1, 1, 1, 1, 1,   1, 1, 1, 0, 0, 0, 1, 0] ++ List.replicate 128 0

def xdigitChars : List Nat := [
  0,0,0,0,0,0,0,0,0,0,0,0,0,0,0,0,
  0,0,0,0,0,0,0,0,0,0,0,0,0,0,0,0,
  0,0,0,0,0,0,0,0,0,0,0,0,0,0,0,0,
  0,1,2,3,4,5,6,7,8,9,0,0,0,0,0,0,
  0,10,11,12,13,14,15,0,0,0,0,0,0,0,0,0,
  0,0,0,0,0,0,0,0,0,0,0,0,0,0,0,0,
  0,10,11,12,13,14,15,0,0,0,0,0,0,0,0,0,
  0,0,0,0,0,0,0,0,0,0,0,0,0,0,0,0] ++ List.replicate 128 0

/-- `CHAR_IS_UNRESERVED` -/
def isUnreserved (c : UInt8) : Bool := uriChars.getD c.toNat 0 != 0

def hexdigits : Bytes := lit "0123456789ABCDEF"

def isxdigit (c : UInt8) : Bool :=
  decide (48 ≤ c ∧ c ≤ 57) || decide (65 ≤ c ∧ c ≤ 70) || decide (97 ≤ c ∧ c ≤ 102)

/-- What a byte that is not unreserved is written as. -/
def escape (spaceAsPlus : Bool) (c : UInt8) : Bytes :=
  if c = 32 ∧ spaceAsPlus = true then [43]
  else [37, hexdigits.getD (c.toNat / 16) 0, hexdigits.getD (c.toNat % 16) 0]

/-- `before` has been read.  `ss` is there from the first byte on that is changed, with the text before it. -/
def encodeLoop (spaceAsPlus : Bool) : Bytes → Option Bytes → Bytes → Option Bytes
  | _, ss, [] => ss
  | before, ss, c :: rest =>
    if isUnreserved c then encodeLoop spaceAsPlus (before ++ [c]) (ss.map (· ++ [c])) rest
    else encodeLoop spaceAsPlus (before ++ [c]) (some (ss.getD before ++ escape spaceAsPlus c)) rest

def urlEncode (spaceAsPlus : Bool) (str : Bytes) : Bytes := (encodeLoop spaceAsPlus [] none str).getD str

/-- The byte that two digits are for, where the text begins with two. -/
def unescape : Bytes → Option UInt8
  | a :: b :: _ =>
    if isxdigit a && isxdigit b then
      some (UInt8.ofNat (xdigitChars.getD a.toNat 0 * 16 + xdigitChars.getD b.toNat 0))
    else none
  | _ => none

/-- As above.  The first number is how many bytes are skipped: two after a `%` with its digits. -/
def decodeLoop (spaceAsPlus : Bool) : Nat → Bytes → Option Bytes → Bytes → Option Bytes
  | _, _, ss, [] => ss
  | skip + 1, before, ss, c :: rest => decodeLoop spaceAsPlus skip (before ++ [c]) ss rest
  | 0, before, ss, c :: rest =>
    if c = 43 ∧ spaceAsPlus = true then decodeLoop spaceAsPlus 0 (before ++ [c]) (some (ss.getD before ++ [32])) rest
    else
      match if c = 37 then unescape rest else none with
      | some byte => decodeLoop spaceAsPlus 2 (before ++ [c]) (some (ss.getD before ++ [byte])) rest
      | none => decodeLoop spaceAsPlus 0 (before ++ [c]) (ss.map (· ++ [c])) rest

def urlDecode (spaceAsPlus : Bool) (str : Bytes) : Bytes := (decodeLoop spaceAsPlus 0 [] none str).getD str

/-! ## Lemmas -/

/-- A byte in the encoded text. -/
def encodeByte (spaceAsPlus : Bool) (c : UInt8) : Bytes := if isUnreserved c then [c] else escape spaceAsPlus c

theorem encodeLoop_eq (plus : Bool) (rest before : Bytes) (ss : Option Bytes) :
    (encodeLoop plus before ss rest).getD (before ++ rest) = ss.getD before ++ rest.flatMap (encodeByte plus) := by
  induction rest generalizing before ss with
  | nil => rw [encodeLoop, List.append_nil, List.flatMap_nil, List.append_nil]
  | cons c rest ih =>
    have hsplit : before ++ c :: rest = (before ++ [c]) ++ rest := by rw [List.append_assoc, List.singleton_append]
    rw [encodeLoop, List.flatMap_cons, encodeByte, hsplit]
    split
    · rw [ih]
      cases ss with
      | none => rw [Option.map_none, Option.getD_none, Option.getD_none, List.append_assoc]
      | some x => rw [Option.map_some, Option.getD_some, Option.getD_some, List.append_assoc]
    · rw [ih, Option.getD_some, List.append_assoc]

theorem urlEncode_eq (plus : Bool) (str : Bytes) : urlEncode plus str = str.flatMap (encodeByte plus) :=
  encodeLoop_eq plus str [] none

theorem decodeLoop_same {plus : Bool} {c : UInt8} (hplus : c ≠ 43) (hc : c ≠ 37) (before rest : Bytes) (ss : Option Bytes) :
    decodeLoop plus 0 before ss (c :: rest) = decodeLoop plus 0 (before ++ [c]) (ss.map (· ++ [c])) rest := by
  rw [decodeLoop, if_neg fun h => hplus h.1, if_neg hc]

theorem hexdigit_read :
    ∀ n < 16, isxdigit (hexdigits.getD n 0) = true ∧ xdigitChars.getD (hexdigits.getD n 0).toNat 0 = n := by
  decide

theorem decodeLoop_escaped (plus : Bool) (c : UInt8) (before rest : Bytes) (ss : Option Bytes) :
    decodeLoop plus 0 before ss ([37, hexdigits.getD (c.toNat / 16) 0, hexdigits.getD (c.toNat % 16) 0] ++ rest) =
      decodeLoop plus 0 (before ++ [37] ++ [hexdigits.getD (c.toNat / 16) 0] ++ [hexdigits.getD (c.toNat % 16) 0])
        (some (ss.getD before ++ [c])) rest := by
  have hc := c.toNat_lt
  obtain ⟨hhigh, hhigh'⟩ := hexdigit_read (c.toNat / 16) (by omega)
  obtain ⟨hlow, hlow'⟩ := hexdigit_read (c.toNat % 16) (by omega)
  have hbyte : unescape (hexdigits.getD (c.toNat / 16) 0 :: hexdigits.getD (c.toNat % 16) 0 :: rest) = some c := by
    rw [unescape, hhigh, hlow, hhigh', hlow', JWTUtil.ofNat_eq (n := c.toNat / 16 * 16 + c.toNat % 16) (x := c) (by omega)]
    rfl
  rw [List.cons_append, List.cons_append, List.cons_append, List.nil_append, decodeLoop,
    if_neg fun h => absurd h.1 (by decide), if_pos rfl, hbyte]
  rfl

theorem unreserved_ne {c : UInt8} (h : isUnreserved c = true) : c ≠ 43 ∧ c ≠ 37 ∧ c ≠ 38 ∧ c ≠ 32 := by
  refine ⟨?_, ?_, ?_, ?_⟩
  · rintro rfl
    cases h
  · rintro rfl
    cases h
  · rintro rfl
    cases h
  · rintro rfl
    cases h

theorem decodeLoop_encode (plus : Bool) (str before : Bytes) (ss : Option Bytes) :
    (decodeLoop plus 0 before ss (str.flatMap (encodeByte plus))).getD (before ++ str.flatMap (encodeByte plus)) =
      ss.getD before ++ str := by
  induction str generalizing before ss with
  | nil => rw [List.flatMap_nil, decodeLoop, List.append_nil, List.append_nil]
  | cons c str ih =>
    rw [List.flatMap_cons, encodeByte]
    by_cases hc : isUnreserved c = true
    · obtain ⟨hplus, hpercent, -⟩ := unreserved_ne hc
      rw [if_pos hc, List.singleton_append, decodeLoop_same hplus hpercent, List.append_cons before c (str.flatMap _), ih]
      cases ss with
      | none => rw [Option.map_none, Option.getD_none, Option.getD_none, List.append_assoc, List.singleton_append]
      | some x => rw [Option.map_some, Option.getD_some, Option.getD_some, List.append_assoc, List.singleton_append]
    · rw [if_neg hc, escape]
      split
      · next hspace =>
        obtain ⟨rfl, rfl⟩ := hspace
        rw [List.singleton_append, decodeLoop, if_pos ⟨rfl, rfl⟩, List.append_cons before 43 (str.flatMap _), ih, Option.getD_some,
          List.append_assoc, List.singleton_append]
      · have hsplit : before ++ ([37, hexdigits.getD (c.toNat / 16) 0, hexdigits.getD (c.toNat % 16) 0] ++
            str.flatMap (encodeByte plus)) = before ++ [37] ++ [hexdigits.getD (c.toNat / 16) 0] ++
              [hexdigits.getD (c.toNat % 16) 0] ++ str.flatMap (encodeByte plus) := by
          simp only [List.append_assoc, List.cons_append, List.nil_append]
        rw [decodeLoop_escaped, hsplit, ih, Option.getD_some, List.append_assoc, List.singleton_append]

/-! ## Top theorem -/

theorem urlDecode_encode (plus : Bool) (str : Bytes) : urlDecode plus (urlEncode plus str) = str := by
  rw [urlEncode_eq, urlDecode]
  exact decodeLoop_encode plus str [] none

end Util.StringUtil
