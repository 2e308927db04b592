import Mathlib.Data.List.Induction
import ZeroFrameworks.Http.Headers
import ZeroFrameworks.Http.HttpSession

/-!
# Minimal and full headers (`http_parser.cc`)

In full mode every header field is kept, and the length and the close flag are read from the fields afterwards; in
minimal mode five names are looked for while the request is parsed.

    both modes agree on length, close and the web socket fields, and a bad Content-Length is refused
      ↔ every Content-Length is a number within the maximum, the last Connection value says what `init` makes of it,
        and there is no Sec-WebSocket-Version   (modes_agree_iff)
-/

namespace Http

open Kv (Bytes lit)

/-! ## Algorithm -/

/-- A header field as the grammar gives it: neither a name nor a value has a NUL in it. -/
structure HeaderField where
  name : Bytes
  value : Bytes
  name_noNul : 0 ∉ name
  value_noNul : 0 ∉ value

structure HttpRequestParser where
  minimalHeaders : Bool
  contentLength : Nat
  close : Bool
  headers : MapType

namespace HttpRequestParser

/-- `flen == n && strncasecmp(field, text, n) == 0` -/
def nameIs (n : Nat) (text name : Bytes) : Bool := decide (name.length = n ∧ Kv.lower (name.take n) = text.take n)

/-- The loop over the value of a Content-Length, on `uint64_t`. -/
def digitLoop : Nat → Bytes → Nat
  | cl, [] => cl
  | cl, c :: rest => if c < 48 ∨ c > 57 then 0 else digitLoop ((cl * 10 + (c.toNat - 48)) % 2 ^ 64) rest

def reset (minimal : Bool) : HttpRequestParser := ⟨minimal, 0, false, .empty⟩

def onRequestHttpField (p : HttpRequestParser) (f : HeaderField) : HttpRequestParser :=
  if f.name.length = 0 then p
  else if p.minimalHeaders then
    if nameIs 10 (lit "connection") f.name then
      if nameIs 5 (lit "close") f.value then { p with close := true }
      else if nameIs 10 (lit "keep-alive") f.value then { p with close := false }
      else p
    else if nameIs 14 (lit "content-length") f.name then { p with contentLength := digitLoop 0 f.value }
    else if nameIs 7 (lit "upgrade") f.name then { p with headers := p.headers.set f.name f.value }
    else if nameIs 17 (lit "sec-websocket-key") f.name then { p with headers := p.headers.set f.name f.value }
    else if nameIs 20 (lit "sec-websocket-version") f.name then { p with headers := p.headers.set f.name f.value }
    else p
  else { p with headers := p.headers.set f.name f.value }

/-- The parser after the header fields of a request. -/
def parse (minimal : Bool) (fields : List HeaderField) : HttpRequestParser := fields.foldl onRequestHttpField (reset minimal)

def getContentLength (p : HttpRequestParser) : Nat :=
  if p.minimalHeaders then p.contentLength else p.headers.getAsU64 (lit "content-length") 0

/-- `HttpRequest::init` -/
def init (p : HttpRequestParser) : HttpRequestParser :=
  let conn := p.headers.get (lit "connection") []
  if conn.isEmpty then p
  else { p with close := decide (Kv.lower (Kv.cstr conn) ≠ lit "keep-alive") }

/-- The length that `recvRequest` reads a body of. -/
def bodyLength (p : HttpRequestParser) : Int := Kv.i64 p.getContentLength

/-- What is done to the request at the end of `recvRequest`. -/
def finish (p : HttpRequestParser) : HttpRequestParser := if p.minimalHeaders then p else p.init

/-- The request that `recvRequest` returns with its body. -/
def finished (taken : Option (Request HttpRequestParser) × HttpSession HttpRequestParser) :
    Option (HttpRequestParser × Request HttpRequestParser) × HttpSession HttpRequestParser :=
  (taken.1.map fun req => (taken.2.parser.finish, req), taken.2)

/-- `recvRequest` from the end of the header on. -/
def recvRequest (h : HttpSession HttpRequestParser) :
    Option (HttpRequestParser × Request HttpRequestParser) × HttpSession HttpRequestParser :=
  finished (HttpSession.takeBody h.parser.bodyLength h)

/-- `hasHeader` -/
def value (p : HttpRequestParser) (key : Bytes) : Option Bytes := p.headers.find key

/-! ## Specification -/

/-- A decimal number that is not above the maximum. -/
def Accepted (maxBodySize : Nat) (text : Bytes) : Prop := text ≠ [] ∧ text.all Kv.isDigit ∧ Kv.natOf text ≤ maxBodySize

/-- The names are compared in any case. -/
def Named (f : HeaderField) (name : Bytes) : Prop := Kv.lower f.name = name

/-- `recvRequest` returns no request, whatever is in the buffer and whatever arrives. -/
def Refuses (p : HttpRequestParser) : Prop :=
  ∀ h : HttpSession HttpRequestParser, h.parser = p → (recvRequest h).1 = none

structure ModesAgree (maxBodySize : UInt64) (fields : List HeaderField) : Prop where
  length : (parse true fields).bodyLength.toNat = (parse false fields).bodyLength.toNat
  close : (parse true fields).finish.close = (parse false fields).finish.close
  values : ∀ key ∈ [lit "upgrade", lit "sec-websocket-key", lit "sec-websocket-version"],
    (parse true fields).finish.value key = (parse false fields).finish.value key
  refused : ∀ f ∈ fields, Named f (lit "content-length") → ¬ Accepted maxBodySize.toNat f.value →
    ∀ minimal, Refuses (parse minimal fields)

/-- The last field of a name, where it has a value like this. -/
def last (fields : List HeaderField) (name : Bytes) (like : Bytes → Bool) : Option Bytes :=
  (fields.reverse.find? fun f => decide (Kv.lower f.name = name) && like f.value).map HeaderField.value

/-- The two values of Connection that minimal mode knows. -/
def known (v : Bytes) : Bool := decide (Kv.lower v = lit "close") || decide (Kv.lower v = lit "keep-alive")

/-- The last Connection is one of the two, or the last of the two before it says what `init` makes of it: for an empty
value the connection stays open, and for another it is closed. -/
def ConnectionPlain (fields : List HeaderField) : Prop :=
  ∀ v, last fields (lit "connection") (fun _ => true) = some v → known v = false →
    ((last fields (lit "connection") known).map Kv.lower = some (lit "close") ↔ v ≠ [])

structure Plain (maxBodySize : Nat) (fields : List HeaderField) : Prop where
  length : ∀ f ∈ fields, Named f (lit "content-length") → Accepted maxBodySize f.value
  connection : ConnectionPlain fields
  version : ∀ f ∈ fields, ¬ Named f (lit "sec-websocket-version")

/-! ## Lemmas -/

/-! ### Names and fields -/

variable {fields : List HeaderField} {f : HeaderField} {name key : Bytes} {like : Bytes → Bool} {p : HttpRequestParser} {v : Bytes}

theorem nameKey_field (f : HeaderField) : nameKey f.name = Kv.lower f.name := by
  rw [nameKey, MapType.cstr_of_notMem f.name_noNul]

theorem nameIs_eq {n : Nat} {text : Bytes} (h : n ≤ text.length) (name : Bytes) :
    nameIs n text name = decide (Kv.lower name = text.take n) := by
  unfold nameIs
  rw [decide_eq_decide]
  constructor
  · rintro ⟨hlen, heq⟩
    rwa [← hlen, List.take_length, hlen] at heq
  · intro heq
    have hlen : name.length = n := by
      have hlower : (Kv.lower name).length = name.length := List.length_map _
      rw [← hlower, heq, List.length_take, Nat.min_eq_left h]
    refine ⟨hlen, ?_⟩
    rw [← hlen, List.take_length, heq, hlen]

theorem last_append (fields : List HeaderField) (f : HeaderField) : last (fields ++ [f]) name like =
    if Kv.lower f.name = name ∧ like f.value = true then some f.value else last fields name like := by
  unfold last
  rw [List.reverse_append, List.reverse_singleton, List.singleton_append, List.find?_cons]
  by_cases h : Kv.lower f.name = name ∧ like f.value = true
  · rw [if_pos h, h.2, decide_eq_true h.1]
    rfl
  · rw [if_neg h]
    split
    · next heq => exact absurd (by simpa using heq) h
    · rfl

theorem last_mem (h : last fields name like = some v) : ∃ f ∈ fields, Named f name ∧ f.value = v ∧ like v = true := by
  obtain ⟨f, hf, rfl⟩ := Option.map_eq_some_iff.mp h
  have hlike := List.find?_some hf
  simp only [Bool.and_eq_true, decide_eq_true_eq] at hlike
  exact ⟨f, List.mem_reverse.mp (List.mem_of_find?_eq_some hf), hlike.1, rfl, hlike.2⟩

theorem last_eq_none : last fields name (fun _ => true) = none ↔ ∀ f ∈ fields, ¬ Named f name := by
  unfold last Named
  rw [Option.map_eq_none_iff, List.find?_eq_none]
  simp only [List.mem_reverse, Bool.and_true, decide_eq_true_eq]

theorem last_like (h : last fields name (fun _ => true) = some v) (hlike : like v = true) : last fields name like = some v := by
  induction fields using List.reverseRecOn with
  | nil => cases h
  | append_singleton fields f ih =>
    rw [last_append] at h ⊢
    by_cases hname : Kv.lower f.name = name
    · rw [if_pos ⟨hname, rfl⟩] at h
      obtain rfl := Option.some.inj h
      rw [if_pos ⟨hname, hlike⟩]
    · rw [if_neg fun h => hname h.1] at h
      rw [if_neg fun h => hname h.1, ih h]

theorem parse_append (minimal : Bool) (fields : List HeaderField) (f : HeaderField) :
    parse minimal (fields ++ [f]) = onRequestHttpField (parse minimal fields) f := by
  unfold parse
  rw [List.foldl_append]
  rfl

theorem minimalHeaders_field (p : HttpRequestParser) (f : HeaderField) :
    (onRequestHttpField p f).minimalHeaders = p.minimalHeaders := by
  unfold onRequestHttpField
  repeat' split
  all_goals rfl

@[simp] theorem minimalHeaders_parse (minimal : Bool) (fields : List HeaderField) :
    (parse minimal fields).minimalHeaders = minimal := by
  induction fields using List.reverseRecOn with
  | nil => rfl
  | append_singleton fields f ih => rw [parse_append, minimalHeaders_field, ih]

/-! ### Full mode -/

theorem onRequestHttpField_full (h : p.minimalHeaders = false) (f : HeaderField) :
    onRequestHttpField p f = if f.name = [] then p else { p with headers := p.headers.set f.name f.value } := by
  unfold onRequestHttpField
  simp only [List.length_eq_zero_iff, h, Bool.false_eq_true, if_false]

theorem close_full (fields : List HeaderField) : (parse false fields).close = false := by
  induction fields using List.reverseRecOn with
  | nil => rfl
  | append_singleton fields f ih =>
    rw [parse_append, onRequestHttpField_full (minimalHeaders_parse ..)]
    split
    · exact ih
    · exact ih

/-- A name that `strcasecmp` finds as it is. -/
def IsKey (key : Bytes) : Prop := nameKey key = key ∧ key ≠ []

instance (key : Bytes) : Decidable (IsKey key) := inferInstanceAs (Decidable (_ ∧ _))

theorem find_full (hkey : IsKey key) (fields : List HeaderField) :
    (parse false fields).headers.find key = last fields key fun _ => true := by
  induction fields using List.reverseRecOn with
  | nil => exact MapType.find_empty key
  | append_singleton fields f ih =>
    rw [parse_append, onRequestHttpField_full (minimalHeaders_parse ..), last_append]
    by_cases hname : f.name = []
    · have hne : Kv.lower f.name ≠ key := by
        rw [hname]
        exact hkey.2.symm
      rw [if_pos hname, if_neg fun h => hne h.1, ih]
    · rw [if_neg hname]
      dsimp only
      rw [MapType.find_set, nameKey_field, hkey.1, ih]
      simp only [and_true]

/-! ### Minimal mode -/

def kept : List Bytes := [lit "upgrade", lit "sec-websocket-key", (lit "sec-websocket-version").take 20]

theorem onRequestHttpField_minimal (h : p.minimalHeaders = true) (hname : f.name ≠ []) : onRequestHttpField p f =
    { p with
      close := if Kv.lower f.name = lit "connection" ∧ known f.value = true then decide (Kv.lower f.value = lit "close") else p.close
      contentLength := if Kv.lower f.name = lit "content-length" then digitLoop 0 f.value else p.contentLength
      headers := if Kv.lower f.name ∈ kept then p.headers.set f.name f.value else p.headers } := by
  have hlen : ¬ f.name.length = 0 := fun h => hname (List.length_eq_zero_iff.mp h)
  unfold onRequestHttpField kept known
  rw [if_neg hlen, if_pos h, nameIs_eq (by decide), nameIs_eq (by decide), nameIs_eq (by decide), nameIs_eq (by decide),
    nameIs_eq (by decide), nameIs_eq (by decide), nameIs_eq (by decide)]
  generalize Kv.lower f.name = key
  generalize Kv.lower f.value = v
  simp only [decide_eq_true_eq, List.mem_cons, List.not_mem_nil, or_false, Bool.or_eq_true]
  by_cases hconn : key = (lit "connection").take 10
  · rw [if_pos hconn]
    subst hconn
    by_cases hclose : v = (lit "close").take 5
    · subst hclose
      rfl
    · by_cases halive : v = (lit "keep-alive").take 10
      · subst halive
        rfl
      · have hunknown : ¬ ((lit "connection").take 10 = lit "connection" ∧ (v = lit "close" ∨ v = lit "keep-alive")) :=
          fun h => h.2.elim hclose halive
        rw [if_neg hclose, if_neg halive, if_neg hunknown]
        rfl
  · rw [if_neg hconn, if_neg (fun h : key = lit "connection" ∧ _ => hconn h.1)]
    by_cases hlength : key = (lit "content-length").take 14
    · subst hlength
      rfl
    · rw [if_neg hlength, if_neg (show ¬ key = lit "content-length" from hlength)]
      -- the three names whose fields are kept
      by_cases hkept : key = lit "upgrade" ∨ key = lit "sec-websocket-key" ∨ key = (lit "sec-websocket-version").take 20
      · rw [if_pos hkept]
        rcases hkept with rfl | rfl | rfl
        · rfl
        · rfl
        · rfl
      · rw [if_neg hkept, if_neg fun h : key = (lit "upgrade").take 7 => hkept (.inl h),
          if_neg fun h : key = (lit "sec-websocket-key").take 17 => hkept (.inr (.inl h)),
          if_neg fun h : key = (lit "sec-websocket-version").take 20 => hkept (.inr (.inr h))]

theorem parse_minimal (fields : List HeaderField) :
    (parse true fields).contentLength = (last fields (lit "content-length") fun _ => true).elim 0 (digitLoop 0) ∧
      (parse true fields).close = decide ((last fields (lit "connection") known).map Kv.lower = some (lit "close")) ∧
      ∀ key, IsKey key → (parse true fields).headers.find key =
        if key ∈ kept then last fields key fun _ => true else none := by
  induction fields using List.reverseRecOn with
  | nil =>
    refine ⟨rfl, rfl, fun key _ => ?_⟩
    show MapType.empty.find key = if key ∈ kept then none else none
    rw [ite_self, MapType.find_empty]
  | append_singleton fields f ih =>
    obtain ⟨hlength, hclose, hfind⟩ := ih
    rw [parse_append]
    by_cases hname : f.name = []
    · have hne : ∀ name ≠ [], ∀ like, last (fields ++ [f]) name like = last fields name like := by
        intro name hnil like
        rw [last_append, if_neg fun h => hnil ?_]
        rw [← h.1, hname]
        rfl
      have hskip : onRequestHttpField (parse true fields) f = parse true fields := if_pos (List.length_eq_zero_iff.mpr hname)
      rw [hskip, hne _ (by decide), hne _ (by decide)]
      exact ⟨hlength, hclose, fun key hkey => by rw [hne key hkey.2]; exact hfind key hkey⟩
    · rw [onRequestHttpField_minimal (minimalHeaders_parse ..) hname]
      refine ⟨?_, ?_, fun key hkey => ?_⟩
      · rw [last_append]
        dsimp only
        simp only [and_true]
        split
        · rfl
        · exact hlength
      · rw [last_append]
        dsimp only
        split
        · rw [Option.map_some, decide_eq_decide, Option.some.injEq]
        · exact hclose
      · rw [last_append]
        dsimp only
        simp only [and_true]
        by_cases hkept : Kv.lower f.name ∈ kept
        · rw [if_pos hkept, MapType.find_set, nameKey_field, hkey.1, hfind key hkey]
          by_cases heq : Kv.lower f.name = key
          · rw [if_pos heq, if_pos heq, if_pos (heq ▸ hkept)]
          · rw [if_neg heq, if_neg heq]
        · rw [if_neg hkept, hfind key hkey]
          by_cases heq : Kv.lower f.name = key
          · rw [if_neg (heq ▸ hkept), if_neg (heq ▸ hkept)]
          · rw [if_neg heq]

/-! ### The body -/

theorem le_natOf (v : Bytes) (n : Nat) : n ≤ v.foldl (fun n d => n * 10 + (d.toNat - 48)) n := by
  induction v generalizing n with
  | nil => exact Nat.le_refl n
  | cons d v ih =>
    rw [List.foldl_cons]
    have := ih (n * 10 + (d.toNat - 48))
    omega

theorem digitLoop_digits (hdigits : v.all Kv.isDigit = true) (cl : Nat)
    (hlt : v.foldl (fun n d => n * 10 + (d.toNat - 48)) cl < 2 ^ 64) :
    digitLoop cl v = v.foldl (fun n d => n * 10 + (d.toNat - 48)) cl := by
  induction v generalizing cl with
  | nil => rfl
  | cons c v ih =>
    rw [List.all_cons, Bool.and_eq_true] at hdigits
    obtain ⟨hc, hv⟩ := hdigits
    rw [List.foldl_cons] at hlt ⊢
    have hle := le_natOf v (cl * 10 + (c.toNat - 48))
    have hdigit : ¬ (c < 48 ∨ c > 57) := by
      unfold Kv.isDigit at hc
      simp only [Bool.and_eq_true, decide_eq_true_eq] at hc
      exact not_or.mpr ⟨UInt8.not_lt.mpr hc.1, UInt8.not_lt.mpr hc.2⟩
    rw [digitLoop, if_neg hdigit, Nat.mod_eq_of_lt (by omega), ih hv _ hlt]

theorem accepted_length {maxBodySize : UInt64} (h : Accepted maxBodySize.toNat v) :
    digitLoop 0 v = Kv.natOf v ∧ MapType.lexicalCastU64 v = some (Kv.natOf v) := by
  obtain ⟨hne, hdigits, hle⟩ := h
  have hlt : Kv.natOf v < 2 ^ 64 := Nat.lt_of_le_of_lt hle maxBodySize.toNat_lt
  refine ⟨digitLoop_digits hdigits 0 hlt, ?_⟩
  have hsign : ∀ c, Kv.isDigit c = false → v.head? ≠ some c := by
    intro c hc hhead
    obtain ⟨tail, rfl⟩ := List.head?_eq_some_iff.mp hhead
    rw [List.all_cons, hc] at hdigits
    cases hdigits
  have hminus := hsign 45 (by decide)
  have hplus := hsign 43 (by decide)
  unfold MapType.lexicalCastU64
  dsimp only
  rw [if_neg (not_or.mpr ⟨hminus, hplus⟩), if_pos ⟨hne, hdigits, hlt⟩, if_neg hminus]

theorem getContentLength_full (fields : List HeaderField) : (parse false fields).getContentLength =
    (last fields (lit "content-length") fun _ => true).elim 0 fun v => (MapType.lexicalCastU64 v).getD 0 := by
  unfold getContentLength
  rw [minimalHeaders_parse, if_neg Bool.false_ne_true, MapType.getAsU64_eq, find_full (by decide)]

theorem getContentLength_minimal (fields : List HeaderField) : (parse true fields).getContentLength =
    (last fields (lit "content-length") fun _ => true).elim 0 (digitLoop 0) := by
  unfold getContentLength
  rw [minimalHeaders_parse, if_pos rfl, (parse_minimal fields).1]

theorem i64_toNat_lt (n : Nat) : (Kv.i64 n).toNat < 2 ^ 64 := by
  unfold Kv.i64
  rw [Int.bmod_def]
  omega

theorem takeBody_whole {length : Int} {h : HttpSession HttpRequestParser} (hblock : h.block.len = length.toNat) :
    (HttpSession.takeBody length h).1 ≠ none := by
  unfold HttpSession.takeBody
  rw [hblock, Nat.min_self]
  dsimp only
  rw [if_neg (Nat.lt_irrefl _)]
  split
  · exact Option.some_ne_none _
  · exact Option.some_ne_none _

theorem finished_none (taken : Option (Request HttpRequestParser) × HttpSession HttpRequestParser) :
    (finished taken).1 = none ↔ taken.1 = none := Option.map_eq_none_iff

theorem not_refuses (p : HttpRequestParser) : ¬ Refuses p := by
  intro h
  have hlt : p.bodyLength.toNat < 2 ^ 64 := by
    unfold bodyLength
    exact i64_toNat_lt _
  generalize hlength : p.bodyLength = length at hlt
  obtain ⟨s, hs⟩ : ∃ s : HttpSession HttpRequestParser,
      s = ⟨p, fun _ => 0, length.toNat, 0, length.toNat, false, ⟨[], [], false⟩, hlt⟩ := ⟨_, rfl⟩
  have hparser : s.parser = p := by rw [hs]
  have hblock : s.block.len = length.toNat := by
    rw [hs]
    exact HttpSession.usub_of_le (Nat.zero_le _) hlt
  have hnone := h s hparser
  rw [recvRequest, finished_none, hparser, hlength] at hnone
  exact takeBody_whole hblock hnone

/-! ### The close flag -/

theorem close_minimal (fields : List HeaderField) : (parse true fields).finish.close =
    decide ((last fields (lit "connection") known).map Kv.lower = some (lit "close")) := by
  unfold finish
  rw [minimalHeaders_parse, if_pos rfl, (parse_minimal fields).2.1]

theorem value_finish (p : HttpRequestParser) (key : Bytes) : p.finish.value key = p.headers.find key := by
  unfold finish
  split
  · rfl
  · unfold init
    dsimp only
    split
    · rfl
    · rfl

theorem close_init (fields : List HeaderField) : (parse false fields).finish.close =
    (last fields (lit "connection") fun _ => true).elim false fun v =>
      !v.isEmpty && decide (Kv.lower v ≠ lit "keep-alive") := by
  unfold finish init
  rw [minimalHeaders_parse, if_neg Bool.false_ne_true, MapType.get_eq, find_full (by decide)]
  cases hlast : last fields (lit "connection") fun _ => true with
  | none => exact close_full fields
  | some v =>
    obtain ⟨f, -, -, rfl, -⟩ := last_mem hlast
    rw [Option.getD_some, Option.elim_some]
    dsimp only
    rw [MapType.cstr_of_notMem f.value_noNul]
    cases f.value.isEmpty with
    | true => exact close_full fields
    | false => rfl

/-- What the two modes make of the last Connection. -/
theorem close_iff (fields : List HeaderField) :
    (parse true fields).finish.close = (parse false fields).finish.close ↔ ConnectionPlain fields := by
  rw [close_minimal, close_init]
  unfold ConnectionPlain
  cases hlast : last fields (lit "connection") fun _ => true with
  | none =>
    have hnone : last fields (lit "connection") known = none := by
      refine Option.eq_none_iff_forall_ne_some.mpr fun v hv => ?_
      obtain ⟨f, hf, hname, -⟩ := last_mem hv
      exact last_eq_none.mp hlast f hf hname
    rw [hnone]
    exact ⟨fun _ v hv => (by cases hv), fun _ => rfl⟩
  | some v =>
    rw [Option.elim_some]
    cases hknown : known v with
    | true =>
      have hclose : decide ((last fields (lit "connection") known).map Kv.lower = some (lit "close")) =
          (!v.isEmpty && decide (Kv.lower v ≠ lit "keep-alive")) := by
        rw [last_like hlast hknown, Option.map_some]
        have hne : v.isEmpty = false := by
          cases v with
          | nil => cases hknown
          | cons c v => rfl
        unfold known at hknown
        rw [Bool.or_eq_true, decide_eq_true_eq, decide_eq_true_eq] at hknown
        rcases hknown with h | h
        · rw [h, hne]
          rfl
        · rw [h, hne]
          rfl
      refine ⟨fun _ w hw hunknown => ?_, fun _ => hclose⟩
      obtain rfl := Option.some.inj hw
      rw [hknown] at hunknown
      cases hunknown
    | false =>
      have halive : Kv.lower v ≠ lit "keep-alive" := by
        intro h
        unfold known at hknown
        rw [h] at hknown
        cases hknown
      rw [decide_eq_true halive, Bool.and_true, Bool.eq_iff_iff, decide_eq_true_eq]
      constructor
      · intro h w hw _
        obtain rfl := Option.some.inj hw
        rw [h]
        simp
      · intro h
        rw [h v rfl hknown]
        simp

/-! ## Top theorem -/

theorem modes_agree_iff (maxBodySize : UInt64) (fields : List HeaderField) :
    ModesAgree maxBodySize fields ↔ Plain maxBodySize.toNat fields := by
  constructor
  · intro h
    refine ⟨fun f hf hname => ?_, (close_iff fields).mp h.close, ?_⟩
    · by_contra hbad
      exact not_refuses _ (h.refused f hf hname hbad true)
    · have hvalue := h.values (lit "sec-websocket-version") (by simp)
      rw [value_finish, value_finish, find_full (by decide), (parse_minimal fields).2.2 _ (by decide),
        if_neg (by decide)] at hvalue
      exact last_eq_none.mp hvalue.symm
  · intro h
    have hlength : (parse true fields).getContentLength = (parse false fields).getContentLength := by
      rw [getContentLength_full, getContentLength_minimal]
      cases hlast : last fields (lit "content-length") fun _ => true with
      | none => rfl
      | some v =>
        obtain ⟨f, hf, hname, rfl, -⟩ := last_mem hlast
        obtain ⟨hloop, hcast⟩ := accepted_length (h.length f hf hname)
        rw [Option.elim_some, Option.elim_some, hloop, hcast, Option.getD_some]
    refine ⟨?_, (close_iff fields).mpr h.connection, fun key hkey => ?_, fun f hf hname hbad => ?_⟩
    · unfold bodyLength
      rw [hlength]
    · rw [value_finish, value_finish]
      have hkept : ∀ key, IsKey key → key ∈ kept →
          (parse true fields).headers.find key = (parse false fields).headers.find key := by
        intro key hkey hmem
        rw [(parse_minimal fields).2.2 key hkey, if_pos hmem, find_full hkey]
      simp only [List.mem_cons, List.not_mem_nil, or_false] at hkey
      rcases hkey with rfl | rfl | rfl
      · exact hkept _ (by decide) (by decide)
      · exact hkept _ (by decide) (by decide)
      · rw [(parse_minimal fields).2.2 _ (by decide), if_neg (by decide), find_full (by decide)]
        exact (last_eq_none.mpr h.version).symm
    · exact absurd (h.length f hf hname) hbad

def version : HeaderField := ⟨lit "Sec-WebSocket-Version", lit "13", by decide, by decide⟩

/-- The name has 21 characters, and minimal mode compares the first 20 with a name of 20. -/
theorem version_lost : ¬ ∀ fields, ModesAgree 67108864 fields := by
  intro h
  have hvalue := (h [version]).values (lit "sec-websocket-version") (by simp)
  rw [value_finish, value_finish, find_full (by decide), (parse_minimal _).2.2 _ (by decide), if_neg (by decide)] at hvalue
  exact absurd hvalue (by decide)

end HttpRequestParser

end Http
