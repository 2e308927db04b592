import ZeroFrameworks.Util.Base64Url

/-!
# Tokens signed with HS256

`verify` splits a token at its first two dots, fills the caller's payload from the second part, and then looks at `exp`
and at the signature.  jsoncpp and the HMAC are parameters.

    verify returns; true: the token is signed and in its time, false: the payload is what it was
      ↔ the second part is no JSON text, or its members convert and
          the token is accepted: neither exp nor nbf, where set, forbids it
          the token is refused: the payload holds what the token says already   (sound_iff)
-/

namespace Util

open Kv (Bytes BMap lit)

/-! ## Algorithm -/

/-- What is used of jsoncpp.  `none` where it throws. -/
structure JsonLib where
  Value : Type
  /-- `Reader::parse`; `some none` where it returns false. -/
  parse : Bytes → Option (Option Value)
  /-- `Value::get`; `some none` for the default. -/
  get : Value → Bytes → Option (Option Value)
  asString : Value → Option Bytes
  asInt64 : Value → Option Int
  isString : Value → Bool
  /-- The names and values from `begin()` to `end()`. -/
  members : Value → List (Bytes × Value)

structure JWTPayload where
  sub : Bytes
  iss : Bytes
  aud : Bytes
  role : Bytes
  exp : Int
  iat : Int
  nbf : Int
  jti : Bytes
  claims : BMap Bytes

namespace JWTUtil

/-- A computation on the caller's payload, which keeps what was assigned when something throws. -/
abbrev Fill := OptionT (StateM JWTPayload)

/-- A call that may throw. -/
def attempt {α : Type} (x : Option α) : Fill α := OptionT.mk (pure x)

variable (lib : JsonLib)

/-- `root.get(name, "").asString()`. -/
def getString (root : lib.Value) (name : Bytes) : Option Bytes :=
  (lib.get root name).bind fun
    | none => some []
    | some v => lib.asString v

/-- `root.get(name, 0).asInt64()`. -/
def getInt64 (root : lib.Value) (name : Bytes) : Option Int :=
  (lib.get root name).bind fun
    | none => some 0
    | some v => lib.asInt64 v

def assign {α : Type} (x : Option α) (set : JWTPayload → α → JWTPayload) : Fill Unit := do
  let v ← attempt x
  modify fun payload => set payload v

def standard : List Bytes :=
  [lit "sub", lit "iss", lit "aud", lit "role", lit "exp", lit "iat", lit "nbf", lit "jti"]

/-- The loop over the members. -/
def collectClaims : List (Bytes × lib.Value) → Fill Unit
  | [] => pure ()
  | (name, v) :: rest => do
    if name ∉ standard ∧ lib.isString v then
      assign (lib.asString v) fun payload s => { payload with claims := payload.claims.insert name s }
    collectClaims rest

def jsonToPayload (json : Bytes) : Fill Bool := do
  match ← attempt (lib.parse json) with
  | none => return false
  | some root =>
    assign (getString lib root (lit "sub")) fun payload v => { payload with sub := v }
    assign (getString lib root (lit "iss")) fun payload v => { payload with iss := v }
    assign (getString lib root (lit "aud")) fun payload v => { payload with aud := v }
    assign (getString lib root (lit "role")) fun payload v => { payload with role := v }
    assign (getInt64 lib root (lit "exp")) fun payload v => { payload with exp := v }
    assign (getInt64 lib root (lit "iat")) fun payload v => { payload with iat := v }
    assign (getInt64 lib root (lit "nbf")) fun payload v => { payload with nbf := v }
    assign (getString lib root (lit "jti")) fun payload v => { payload with jti := v }
    collectClaims lib (lib.members root)
    return true

def dot : UInt8 := 46

/-- `token.find('.', pos)`. -/
def findDot (token : Bytes) (pos : Nat) : Option Nat := ((token.drop pos).idxOf? dot).map (pos + ·)

/-- The header, the payload and the signature. -/
def parts (token : Bytes) : Option (Bytes × Bytes × Bytes) :=
  (findDot token 0).bind fun pos1 => (findDot token (pos1 + 1)).map fun pos2 =>
    (token.take pos1, (token.drop (pos1 + 1)).take (pos2 - pos1 - 1), token.drop (pos2 + 1))

/-- `now`: the seconds that the clock shows. -/
def verify (hmacSha256 : Bytes → Bytes → Bytes) (secret token : Bytes) (now : Int) : Fill Bool := do
  match parts token with
  | none => return false
  | some (headerB64, payloadB64, signatureB64) =>
    let payloadJson := base64UrlDecode payloadB64
    if payloadJson.isEmpty then return false
    if !(← jsonToPayload lib payloadJson) then return false
    let payload ← get
    if 0 < payload.exp ∧ payload.exp ≤ now then return false
    let signingInput := headerB64 ++ [dot] ++ payloadB64
    let expectedSig := base64UrlEncode (hmacSha256 secret signingInput)
    return expectedSig == signatureB64

/-! ## Specification -/

/-- A token is three texts with dots between them, the third of which may have dots of its own. -/
def IsToken (token first second third : Bytes) : Prop :=
  token = first ++ dot :: (second ++ dot :: third) ∧ dot ∉ first ∧ dot ∉ second

/-- The third part is the signature of the first two. -/
def Signed (hmacSha256 : Bytes → Bytes → Bytes) (secret first second third : Bytes) : Prop :=
  third = base64UrlEncode (hmacSha256 secret (first ++ [dot] ++ second))

instance (hmacSha256 : Bytes → Bytes → Bytes) (secret first second third : Bytes) :
    Decidable (Signed hmacSha256 secret first second third) := inferInstanceAs (Decidable (_ = _))

/-- A payload in its time; zero is a time that is not set. -/
def InTime (payload : JWTPayload) (now : Int) : Prop :=
  (payload.exp ≠ 0 → now < payload.exp) ∧ (payload.nbf ≠ 0 → payload.nbf ≤ now)

/-- Nothing is thrown, only a signed token in its time is accepted, and a refused one leaves the payload as it was. -/
def Sound (hmacSha256 : Bytes → Bytes → Bytes) (secret token : Bytes) (now : Int) (payload : JWTPayload) : Prop :=
  ∃ accepted payload', (verify lib hmacSha256 secret token now).run payload = (some accepted, payload') ∧
    (accepted = true → (∃ first second third, IsToken token first second third ∧ Signed hmacSha256 secret first second third ∧
      base64UrlDecode third = hmacSha256 secret (first ++ [dot] ++ second)) ∧ InTime payload' now) ∧
    (accepted = false → payload' = payload)

/-- The members that are no standard ones, on top of those that are there. -/
def claimsOf : List (Bytes × lib.Value) → BMap Bytes → Option (BMap Bytes)
  | [], claims => some claims
  | (name, v) :: rest, claims =>
    if name ∉ standard ∧ lib.isString v then (lib.asString v).bind fun s => claimsOf rest (claims.insert name s)
    else claimsOf rest claims

/-- What a token says; `none` where a member has the wrong type. -/
def tokenPayload (root : lib.Value) (claims : BMap Bytes) : Option JWTPayload := do
  let sub ← getString lib root (lit "sub")
  let iss ← getString lib root (lit "iss")
  let aud ← getString lib root (lit "aud")
  let role ← getString lib root (lit "role")
  let exp ← getInt64 lib root (lit "exp")
  let iat ← getInt64 lib root (lit "iat")
  let nbf ← getInt64 lib root (lit "nbf")
  let jti ← getString lib root (lit "jti")
  let claims ← claimsOf lib (lib.members root) claims
  return { sub, iss, aud, role, exp, iat, nbf, jti, claims }

/-- A token whose second part is a JSON text has members of the right types.  Where it is accepted its times allow it,
and where it is refused the payload holds what it says already. -/
def Conforms (hmacSha256 : Bytes → Bytes → Bytes) (secret token : Bytes) (now : Int) (payload : JWTPayload) : Prop :=
  ∀ first second third, IsToken token first second third → base64UrlDecode second ≠ [] →
    ∃ parsed, lib.parse (base64UrlDecode second) = some parsed ∧ ∀ root, parsed = some root →
      ∃ said, tokenPayload lib root payload.claims = some said ∧
        if Signed hmacSha256 secret first second third ∧ ¬ (0 < said.exp ∧ said.exp ≤ now) then InTime said now
        else said = payload

/-! ## Lemmas -/

variable {lib}

/-! ### What a computation gives -/

/-- The result and the payload; `none` where something throws. -/
def outcome {α : Type} (m : Fill α) (p : JWTPayload) : Option (α × JWTPayload) :=
  match m.run p with
  | (none, _) => none
  | (some a, p') => some (a, p')

variable {α β : Type} {p : JWTPayload}

theorem run_eq_iff {m : Fill α} {a : α} {p' : JWTPayload} : m.run p = (some a, p') ↔ outcome m p = some (a, p') := by
  unfold outcome
  constructor
  · intro h
    rw [h]
  · intro h
    split at h
    · cases h
    next heq =>
      cases h
      exact heq

theorem outcome_bind (m : Fill α) (k : α → Fill β) :
    outcome (m >>= k) p = (outcome m p).bind fun r => outcome (k r.1) r.2 := by
  have hrun : (m >>= k).run p = ((m.run p).1.elim (pure none) fun a => (k a).run : StateM JWTPayload (Option β)) (m.run p).2 := by
    rw [OptionT.run_bind]
    rfl
  unfold outcome
  rw [hrun]
  rcases m.run p with ⟨a | a, p'⟩
  · rfl
  · rfl

theorem outcome_pure (a : α) : outcome (pure a) p = some (a, p) := rfl

theorem outcome_get : outcome get p = some (p, p) := rfl

theorem outcome_attempt (x : Option α) : outcome (attempt x) p = x.map fun a => (a, p) := by
  cases x with
  | none => rfl
  | some a => rfl

theorem outcome_assign (x : Option α) (set : JWTPayload → α → JWTPayload) (k : Unit → Fill β) :
    outcome (assign x set >>= k) p = x.bind fun v => outcome (k ()) (set p v) := by
  rw [outcome_bind]
  cases x with
  | none => rfl
  | some a => rfl

theorem outcome_collectClaims (members : List (Bytes × lib.Value)) :
    outcome (collectClaims lib members) p = (claimsOf lib members p.claims).map fun claims => ((), { p with claims }) := by
  induction members generalizing p with
  | nil => rfl
  | cons member rest ih =>
    obtain ⟨name, v⟩ := member
    rw [collectClaims, claimsOf]
    by_cases h : name ∉ standard ∧ lib.isString v
    · rw [if_pos h, if_pos h, outcome_assign, Option.map_bind]
      exact Option.bind_congr fun s _ => ih
    · rw [if_neg h, if_neg h]
      exact ih

theorem outcome_jsonToPayload (json : Bytes) :
    outcome (jsonToPayload lib json) p = (lib.parse json).bind fun
      | none => some (false, p)
      | some root => (tokenPayload lib root p.claims).map fun said => (true, said) := by
  unfold jsonToPayload
  rw [outcome_bind, outcome_attempt, Option.bind_map]
  refine Option.bind_congr fun parsed _ => ?_
  cases parsed with
  | none => rfl
  | some root =>
    have hclaims : ∀ q : JWTPayload, outcome (do collectClaims lib (lib.members root); return true) q =
        (claimsOf lib (lib.members root) q.claims).bind fun claims => some (true, { q with claims }) := by
      intro q
      rw [outcome_bind, outcome_collectClaims, Option.bind_map]
      rfl
    unfold tokenPayload
    simp only [outcome_assign, hclaims, Option.bind_eq_bind, Option.map_bind, Option.pure_def, Function.comp_def]
    rfl

variable {hmacSha256 : Bytes → Bytes → Bytes} {secret token first second third : Bytes} {now : Int}

theorem outcome_verify (hparts : parts token = some (first, second, third)) (hjson : base64UrlDecode second ≠ []) :
    outcome (verify lib hmacSha256 secret token now) p = (lib.parse (base64UrlDecode second)).bind fun
      | none => some (false, p)
      | some root => (tokenPayload lib root p.claims).map fun said =>
          (decide (Signed hmacSha256 secret first second third ∧ ¬ (0 < said.exp ∧ said.exp ≤ now)), said) := by
  unfold verify
  rw [hparts]
  have hempty : (base64UrlDecode second).isEmpty = false := by simpa using hjson
  simp only [hempty, Bool.false_eq_true, if_false, outcome_bind, outcome_jsonToPayload, Option.bind_assoc]
  refine Option.bind_congr fun parsed _ => ?_
  cases parsed with
  | none => rfl
  | some root =>
    simp only [Option.bind_map]
    rw [Option.map_eq_bind]
    refine Option.bind_congr fun said _ => ?_
    show outcome (do
      let payload ← get
      if 0 < payload.exp ∧ payload.exp ≤ now then pure false
        else pure (base64UrlEncode (hmacSha256 secret (first ++ [dot] ++ second)) == third)) said = _
    rw [outcome_bind, outcome_get, Option.bind_some]
    by_cases hexpired : 0 < said.exp ∧ said.exp ≤ now
    · rw [if_pos hexpired, outcome_pure]
      show _ = some (decide _, said)
      rw [decide_eq_false fun h => h.2 hexpired]
    · rw [if_neg hexpired, outcome_pure]
      show _ = some (decide _, said)
      have hsigned : decide (Signed hmacSha256 secret first second third ∧ ¬ (0 < said.exp ∧ said.exp ≤ now)) =
          (base64UrlEncode (hmacSha256 secret (first ++ [dot] ++ second)) == third) := by
        unfold Signed
        rw [Bool.eq_iff_iff, decide_eq_true_eq, beq_iff_eq, and_iff_left hexpired]
        exact eq_comm
      rw [hsigned]

theorem outcome_verify_refused (h : parts token = none ∨ ∃ first second third, parts token = some (first, second, third) ∧
    base64UrlDecode second = []) : outcome (verify lib hmacSha256 secret token now) p = some (false, p) := by
  unfold verify
  obtain h | ⟨first, second, third, h, hjson⟩ := h
  · rw [h]
    rfl
  · rw [h]
    dsimp only
    rw [hjson]
    rfl

/-! ### The parts of a token -/

theorem idxOf?_dot {x y : Bytes} (h : dot ∉ x) : (x ++ dot :: y).idxOf? dot = some x.length := by
  induction x with
  | nil => rfl
  | cons b x ih =>
    rw [List.mem_cons, not_or] at h
    have hne : (b == dot) = false := by simpa using fun heq : b = dot => h.1 heq.symm
    rw [List.cons_append, List.idxOf?_cons, hne, ih h.2]
    rfl

theorem parts_of_isToken (h : IsToken token first second third) : parts token = some (first, second, third) := by
  obtain ⟨rfl, hfirst, hsecond⟩ := h
  have hdrop : (first ++ dot :: (second ++ dot :: third)).drop (first.length + 1) = second ++ dot :: third := by
    rw [List.drop_append, List.drop_of_length_le (Nat.le_succ _), Nat.add_sub_cancel_left]
    rfl
  have hpos1 : findDot (first ++ dot :: (second ++ dot :: third)) 0 = some first.length := by
    unfold findDot
    rw [List.drop_zero, idxOf?_dot hfirst, Option.map_some, Nat.zero_add]
  have hpos2 : findDot (first ++ dot :: (second ++ dot :: third)) (first.length + 1) =
      some (first.length + 1 + second.length) := by
    unfold findDot
    rw [hdrop, idxOf?_dot hsecond, Option.map_some]
  unfold parts
  rw [hpos1, Option.bind_some, hpos2, Option.map_some, hdrop, List.take_left,
    show first.length + 1 + second.length - first.length - 1 = second.length by omega, List.take_left,
    show first.length + 1 + second.length + 1 = first.length + 1 + (second.length + 1) by omega, ← List.drop_drop, hdrop,
    List.drop_append, List.drop_of_length_le (Nat.le_succ _), Nat.add_sub_cancel_left]
  rfl

theorem findDot_eq_none {pos : Nat} (h : dot ∉ token.drop pos) : findDot token pos = none := by
  unfold findDot
  rw [List.idxOf?_eq_none_iff.mpr h]
  rfl

theorem parts_cases (token : Bytes) : (∃ first second third, IsToken token first second third) ∨
    parts token = none ∧ ∀ first second third, ¬ IsToken token first second third := by
  by_cases h : ∃ first second third, IsToken token first second third
  · exact .inl h
  · refine .inr ⟨?_, fun first second third ht => h ⟨first, second, third, ht⟩⟩
    unfold parts
    by_cases h1 : dot ∈ token
    · obtain ⟨first, rest, rfl, hfirst⟩ := List.eq_append_cons_of_mem h1
      by_cases h2 : dot ∈ rest
      · obtain ⟨second, third, rfl, hsecond⟩ := List.eq_append_cons_of_mem h2
        exact absurd ⟨first, second, third, rfl, hfirst, hsecond⟩ h
      · have hpos1 : findDot (first ++ dot :: rest) 0 = some first.length := by
          unfold findDot
          rw [List.drop_zero, idxOf?_dot hfirst, Option.map_some, Nat.zero_add]
        have hdrop : (first ++ dot :: rest).drop (first.length + 1) = rest := by
          rw [List.drop_append, List.drop_of_length_le (Nat.le_succ _), Nat.add_sub_cancel_left]
          rfl
        rw [hpos1, Option.bind_some, findDot_eq_none (by rw [hdrop]; exact h2)]
        rfl
    · rw [findDot_eq_none (by exact h1)]
      rfl

theorem IsToken.unique {first' second' third' : Bytes} (h : IsToken token first second third)
    (h' : IsToken token first' second' third') : first = first' ∧ second = second' ∧ third = third' := by
  have heq := (parts_of_isToken h).symm.trans (parts_of_isToken h')
  simpa only [Option.some.injEq, Prod.mk.injEq] using heq

theorem sound_of_refused (h : outcome (verify lib hmacSha256 secret token now) p = some (false, p)) :
    Sound lib hmacSha256 secret token now p :=
  ⟨false, p, run_eq_iff.mpr h, fun h => Bool.noConfusion h, fun _ => rfl⟩

theorem not_sound_of_thrown (h : outcome (verify lib hmacSha256 secret token now) p = none) :
    ¬ Sound lib hmacSha256 secret token now p := by
  rintro ⟨accepted, payload', hrun, -⟩
  rw [run_eq_iff, h] at hrun
  cases hrun

/-- For a token whose second part is a JSON text. -/
theorem sound_of_said {said : JWTPayload} (htoken : IsToken token first second third)
    (h : outcome (verify lib hmacSha256 secret token now) p =
      some (decide (Signed hmacSha256 secret first second third ∧ ¬ (0 < said.exp ∧ said.exp ≤ now)), said)) :
    Sound lib hmacSha256 secret token now p ↔
      if Signed hmacSha256 secret first second third ∧ ¬ (0 < said.exp ∧ said.exp ≤ now) then InTime said now
      else said = p := by
  by_cases haccepted : Signed hmacSha256 secret first second third ∧ ¬ (0 < said.exp ∧ said.exp ≤ now)
  · rw [decide_eq_true haccepted] at h
    rw [if_pos haccepted]
    constructor
    · rintro ⟨accepted, payload', hrun, htrue, -⟩
      rw [run_eq_iff, h] at hrun
      obtain ⟨rfl, rfl⟩ := Prod.mk.inj (Option.some.inj hrun)
      exact (htrue rfl).2
    · intro htime
      have hdecode : base64UrlDecode third = hmacSha256 secret (first ++ [dot] ++ second) := by
        rw [show third = _ from haccepted.1, base64UrlDecode_encode]
      exact ⟨true, said, run_eq_iff.mpr h, fun _ => ⟨⟨first, second, third, htoken, haccepted.1, hdecode⟩, htime⟩,
        fun hfalse => Bool.noConfusion hfalse⟩
  · rw [decide_eq_false haccepted] at h
    rw [if_neg haccepted]
    constructor
    · rintro ⟨accepted, payload', hrun, -, hfalse⟩
      rw [run_eq_iff, h] at hrun
      obtain ⟨rfl, rfl⟩ := Prod.mk.inj (Option.some.inj hrun)
      exact hfalse rfl
    · intro hsaid
      exact ⟨false, said, run_eq_iff.mpr h, fun htrue => Bool.noConfusion htrue, fun _ => hsaid⟩

/-! ## Top theorem -/

theorem sound_iff : Sound lib hmacSha256 secret token now p ↔ Conforms lib hmacSha256 secret token now p := by
  obtain ⟨first, second, third, htoken⟩ | ⟨hparts, hnone⟩ := parts_cases token
  · have hparts := parts_of_isToken htoken
    by_cases hjson : base64UrlDecode second = []
    · refine iff_of_true (sound_of_refused (outcome_verify_refused (.inr ⟨first, second, third, hparts, hjson⟩))) ?_
      intro first' second' third' htoken' hjson'
      obtain ⟨-, rfl, -⟩ := htoken.unique htoken'
      exact absurd hjson hjson'
    · have hconforms : Conforms lib hmacSha256 secret token now p ↔ ∃ parsed, lib.parse (base64UrlDecode second) = some parsed ∧
          ∀ root, parsed = some root → ∃ said, tokenPayload lib root p.claims = some said ∧
            if Signed hmacSha256 secret first second third ∧ ¬ (0 < said.exp ∧ said.exp ≤ now) then InTime said now
            else said = p := by
        refine ⟨fun h => h first second third htoken hjson, fun h first' second' third' htoken' _ => ?_⟩
        obtain ⟨rfl, rfl, rfl⟩ := htoken.unique htoken'
        exact h
      have houtcome : outcome (verify lib hmacSha256 secret token now) p = _ := outcome_verify hparts hjson
      rw [hconforms]
      cases hparse : lib.parse (base64UrlDecode second) with
      | none =>
        rw [hparse] at houtcome
        refine iff_of_false (not_sound_of_thrown houtcome) ?_
        rintro ⟨parsed, hparsed, -⟩
        cases hparsed
      | some parsed =>
        rw [hparse, Option.bind_some] at houtcome
        cases parsed with
        | none =>
          refine iff_of_true (sound_of_refused houtcome) ⟨none, rfl, ?_⟩
          rintro root hroot
          cases hroot
        | some root =>
          dsimp only at houtcome
          cases hsaid : tokenPayload lib root p.claims with
          | none =>
            rw [hsaid] at houtcome
            refine iff_of_false (not_sound_of_thrown houtcome) ?_
            rintro ⟨parsed, hparsed, hroot⟩
            obtain ⟨said, hsaid', -⟩ := hroot root (Option.some.inj hparsed).symm
            rw [hsaid] at hsaid'
            cases hsaid'
          | some said =>
            rw [hsaid] at houtcome
            rw [sound_of_said htoken houtcome]
            refine ⟨fun h => ⟨some root, rfl, ?_⟩, ?_⟩
            · rintro root' heq
              obtain rfl := Option.some.inj heq
              exact ⟨said, hsaid, h⟩
            · rintro ⟨parsed, hparsed, hroot⟩
              obtain ⟨said', hsaid', h⟩ := hroot root (Option.some.inj hparsed).symm
              rw [hsaid] at hsaid'
              obtain rfl := Option.some.inj hsaid'
              exact h
  · refine iff_of_true (sound_of_refused (outcome_verify_refused (.inl hparts))) ?_
    intro first second third htoken
    exact absurd htoken (hnone first second third)

/-! ## Three tokens -/

/-- The values of the tokens below, which have no numbers but integers. -/
inductive Json where
  | null
  | int (n : Int)
  | string (s : Bytes)
  | object (members : List (Bytes × Json))

/-- jsoncpp on the texts below. -/
def sampleLib : JsonLib where
  Value := Json
  parse json :=
    if json = lit "\x7b\"exp\":\"x\"\x7d" then some (some (.object [(lit "exp", .string (lit "x"))]))
    else if json = lit "\x7b\"sub\":\"a\"\x7d" then some (some (.object [(lit "sub", .string (lit "a"))]))
    else if json = lit "\x7b\"nbf\":2000000000\x7d" then some (some (.object [(lit "nbf", .int 2000000000)]))
    else some none
  get
    | .null, _ => some none
    | .object members, name => some (members.lookup name)
    | _, _ => none
  asString
    | .null => some []
    | .int n => some (Kv.printInt n)
    | .string s => some s
    | .object _ => none
  asInt64
    | .null => some 0
    | .int n => if -(2 ^ 63) ≤ n ∧ n < 2 ^ 63 then some n else none
    | _ => none
  isString
    | .string _ => true
    | _ => false
  members
    | .object members => members
    | _ => []

def sampleHeader : Bytes := lit "eyJhbGciOiJIUzI1NiIsInR5cCI6IkpXVCJ9"

/-- The HMAC with SHA-256 of the last of the tokens below under its secret. -/
def sampleHmac (key data : Bytes) : Bytes :=
  if key = lit "secret" ∧ data = sampleHeader ++ lit ".eyJuYmYiOjIwMDAwMDAwMDB9" then
    [135, 188, 129, 208, 73, 90, 251, 62, 68, 130, 16, 191, 214, 166, 249, 159, 103, 65, 161, 241, 138, 151, 111, 244,
      205, 40, 95, 144, 50, 3, 86, 239]
  else []

def emptyPayload : JWTPayload := ⟨[], [], [], [], 0, 0, 0, [], ∅⟩

/-- A text for `exp` throws, a wrong signature leaves `sub` in the payload, and `nbf` is not looked at. -/
theorem verify_unsound :
    ¬ Sound sampleLib sampleHmac (lit "secret") (sampleHeader ++ lit ".eyJleHAiOiJ4In0.") 0 emptyPayload ∧
    ¬ Sound sampleLib sampleHmac (lit "secret") (sampleHeader ++ lit ".eyJzdWIiOiJhIn0.x") 0 emptyPayload ∧
    ¬ Sound sampleLib sampleHmac (lit "secret")
      (sampleHeader ++ lit ".eyJuYmYiOjIwMDAwMDAwMDB9.h7yB0Ela-z5EghC_1qb5n2dBofGKl2_0zShfkDIDVu8") 1000000000
      emptyPayload := by
  refine ⟨?_, ?_, ?_⟩
  · rintro ⟨accepted, payload', hrun, -⟩
    have hthrown : ((verify sampleLib sampleHmac (lit "secret") (sampleHeader ++ lit ".eyJleHAiOiJ4In0.") 0).run
        emptyPayload).1.isNone = true := by decide +kernel
    rw [hrun] at hthrown
    cases hthrown
  · rintro ⟨accepted, payload', hrun, -, hfalse⟩
    have hkept : ((verify sampleLib sampleHmac (lit "secret") (sampleHeader ++ lit ".eyJzdWIiOiJhIn0.x") 0).run
        emptyPayload).1 = some false ∧ ((verify sampleLib sampleHmac (lit "secret")
          (sampleHeader ++ lit ".eyJzdWIiOiJhIn0.x") 0).run emptyPayload).2.sub = lit "a" := by decide
    rw [hrun] at hkept
    obtain ⟨haccepted, hsub⟩ := hkept
    rw [hfalse (Option.some.inj haccepted)] at hsub
    have hsub : emptyPayload.sub = lit "a" := hsub
    exact absurd hsub (by decide)
  · rintro ⟨accepted, payload', hrun, htrue, -⟩
    have hearly : ((verify sampleLib sampleHmac (lit "secret")
        (sampleHeader ++ lit ".eyJuYmYiOjIwMDAwMDAwMDB9.h7yB0Ela-z5EghC_1qb5n2dBofGKl2_0zShfkDIDVu8") 1000000000).run
        emptyPayload).1 = some true ∧ ((verify sampleLib sampleHmac (lit "secret")
          (sampleHeader ++ lit ".eyJuYmYiOjIwMDAwMDAwMDB9.h7yB0Ela-z5EghC_1qb5n2dBofGKl2_0zShfkDIDVu8") 1000000000).run
            emptyPayload).2.nbf = 2000000000 := by decide
    rw [hrun] at hearly
    obtain ⟨haccepted, hnbf⟩ := hearly
    have hnbf : payload'.nbf = 2000000000 := hnbf
    have htime := (htrue (Option.some.inj haccepted)).2.2
    rw [hnbf] at htime
    exact absurd (htime (by decide)) (by decide)

end JWTUtil

end Util
