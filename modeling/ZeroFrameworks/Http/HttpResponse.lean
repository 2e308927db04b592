import ZeroFrameworks.Http.Headers
import ZeroFrameworks.Lib.Lines

/-!
# The wire form of a response

`dump` into a string and `dump` into a stream, and what a client reads of the length of the body.

    r.Delimited ↔ r.Sole   (delimited_iff)
-/

namespace Http

open Kv (Bytes lit)

/-! ## Algorithm -/

/-- `HTTP_STATUS_MAP`. -/
def httpStatusMap : List (Nat × String) :=
  [(100, "Continue"), (101, "Switching Protocols"), (102, "Processing"), (200, "OK"), (201, "Created"),
    (202, "Accepted"), (203, "Non-Authoritative Information"), (204, "No Content"), (205, "Reset Content"),
    (206, "Partial Content"), (207, "Multi-Status"), (208, "Already Reported"), (226, "IM Used"),
    (300, "Multiple Choices"), (301, "Moved Permanently"), (302, "Found"), (303, "See Other"),
    (304, "Not Modified"), (305, "Use Proxy"), (307, "Temporary Redirect"), (308, "Permanent Redirect"),
    (400, "Bad Request"), (401, "Unauthorized"), (402, "Payment Required"), (403, "Forbidden"),
    (404, "Not Found"), (405, "Method Not Allowed"), (406, "Not Acceptable"),
    (407, "Proxy Authentication Required"), (408, "Request Timeout"), (409, "Conflict"), (410, "Gone"),
    (411, "Length Required"), (412, "Precondition Failed"), (413, "Payload Too Large"), (414, "URI Too Long"),
    (415, "Unsupported Media Type"), (416, "Range Not Satisfiable"), (417, "Expectation Failed"),
    (421, "Misdirected Request"), (422, "Unprocessable Entity"), (423, "Locked"), (424, "Failed Dependency"),
    (426, "Upgrade Required"), (428, "Precondition Required"), (429, "Too Many Requests"),
    (431, "Request Header Fields Too Large"), (451, "Unavailable For Legal Reasons"),
    (500, "Internal Server Error"), (501, "Not Implemented"), (502, "Bad Gateway"),
    (503, "Service Unavailable"), (504, "Gateway Timeout"), (505, "HTTP Version Not Supported"),
    (506, "Variant Also Negotiates"), (507, "Insufficient Storage"), (508, "Loop Detected"),
    (510, "Not Extended"), (511, "Network Authentication Required")]

def HttpStatusToString (s : Nat) : Bytes :=
  match httpStatusMap.find? fun e => e.1 == s with
  | some e => lit e.2
  | none => lit "<unknown>"

structure HttpResponse where
  status : Nat
  version : UInt8
  close : Bool
  websocket : Bool
  body : Bytes
  reason : Bytes
  headers : MapType
  cookies : List Bytes
  fixedWire : Option Bytes

namespace HttpResponse

def crlf : Bytes := [13, 10]

/-- The loop of `append_uint`, over the 16 bytes of its array. -/
def appendUintLoop : Nat → Nat → Bytes → Bytes
  | 0, _, acc => acc
  | room + 1, v, acc =>
    if v / 10 = 0 then Kv.digit (v % 10) :: acc else appendUintLoop room (v / 10) (Kv.digit (v % 10) :: acc)

/-- `append_uint`, whose argument is a `uint32_t`. -/
def appendUint (buf : Bytes) (v : Nat) : Bytes := buf ++ appendUintLoop 16 (v % 2 ^ 32) []

/-- A header that `dump` leaves out. -/
def skips (r : HttpResponse) (name : Bytes) : Bool := !r.websocket && nameKey name == lit "connection"

/-- `dump(std::string&)`. -/
def dump (r : HttpResponse) : Bytes :=
  match r.fixedWire with
  | some wire => wire
  | none =>
    let buf := lit "HTTP/"
    let buf := appendUint buf (r.version >>> 4).toNat
    let buf := buf ++ lit "."
    let buf := appendUint buf (r.version &&& 0x0F).toNat
    let buf := buf ++ lit " "
    let buf := appendUint buf r.status
    let buf := buf ++ lit " "
    let buf := buf ++ if r.reason.isEmpty then HttpStatusToString r.status else r.reason
    let buf := buf ++ crlf
    let buf := r.headers.toList.foldl
      (fun buf i => if r.skips i.1 then buf else buf ++ i.1 ++ lit ": " ++ i.2 ++ crlf) buf
    let buf := r.cookies.foldl (fun buf i => buf ++ lit "Set-Cookie: " ++ i ++ crlf) buf
    let buf := if r.websocket then buf else buf ++ lit "connection: " ++ lit (if r.close then "close" else "keep-alive") ++ crlf
    if r.body.isEmpty then buf ++ crlf
    else appendUint (buf ++ lit "content-length: ") r.body.length ++ crlf ++ crlf ++ r.body

/-- `dump(std::ostream&)`: what is written.  Numbers are printed by the stream. -/
def dumpStream (r : HttpResponse) : Bytes :=
  let os := lit "HTTP/" ++ Kv.printNat (r.version >>> 4).toNat ++ lit "." ++ Kv.printNat (r.version &&& 0x0F).toNat ++
    lit " " ++ Kv.printNat (r.status % 2 ^ 32) ++ lit " " ++
    (if r.reason.isEmpty then HttpStatusToString r.status else r.reason) ++ crlf
  let os := r.headers.toList.foldl
    (fun os i => if r.skips i.1 then os else os ++ i.1 ++ lit ": " ++ i.2 ++ crlf) os
  let os := r.cookies.foldl (fun os i => os ++ lit "Set-Cookie: " ++ i ++ crlf) os
  let os := if r.websocket then os else os ++ lit "connection: " ++ lit (if r.close then "close" else "keep-alive") ++ crlf
  if r.body.isEmpty then os ++ crlf
  else os ++ lit "content-length: " ++ Kv.printNat r.body.length ++ crlf ++ crlf ++ r.body

end HttpResponse

/-! ## Specification -/

/-- Spaces and tabs around a field value. -/
def trim (value : Bytes) : Bytes :=
  ((value.dropWhile fun b => b == 32 || b == 9).reverse.dropWhile fun b => b == 32 || b == 9).reverse

/-- The value of a line that is a content-length field. -/
def contentLength (line : Bytes) : Option Bytes :=
  let name := line.takeWhile (· ≠ 58)
  if 58 ∈ line ∧ Kv.lower name = lit "content-length" then some (trim (line.drop (name.length + 1))) else none

/-- The values of the content-length fields of a message: the lines after the first one, up to an empty line. -/
def contentLengths (wire : Bytes) : List Bytes :=
  (((Lines.lines 13 10 [] wire).takeWhile (· ≠ [])).drop 1).filterMap contentLength

namespace HttpResponse

/-- Both forms are the same, and have one content-length field, which is right. -/
structure Delimited (r : HttpResponse) : Prop where
  same : r.dump = r.dumpStream
  length : contentLengths r.dump = [Kv.printNat r.body.length]

/-- What the application has a say in: the first line, its headers and its cookies. -/
def lead (r : HttpResponse) : Bytes :=
  lit "HTTP/" ++ Kv.printNat (r.version >>> 4).toNat ++ lit "." ++ Kv.printNat (r.version &&& 0x0F).toNat ++ lit " " ++
    Kv.printNat (r.status % 2 ^ 32) ++ lit " " ++ (if r.reason.isEmpty then HttpStatusToString r.status else r.reason) ++ crlf ++
    (r.headers.toList.flatMap fun i => if r.skips i.1 then [] else i.1 ++ lit ": " ++ i.2 ++ crlf) ++
    r.cookies.flatMap fun i => lit "Set-Cookie: " ++ i ++ crlf

/-- The size of the body fits the conversion.  An application that does not end the head itself gives no length with a
body, and the right one without. -/
structure Sole (r : HttpResponse) : Prop where
  size : r.body = [] ∨ r.body.length < 2 ^ 32
  own : contentLengths r.lead =
    if [] ∈ Lines.lines 13 10 [] r.lead ∨ r.body = [] then [Kv.printNat r.body.length] else []

/-! ## Lemmas -/

/-! ### Numbers -/

theorem appendUintLoop_eq {room fuel v : Nat} (hroom : v < 10 ^ (room + 1)) (hfuel : v < fuel) (acc : Bytes) :
    appendUintLoop (room + 1) v acc = Kv.digitsGo fuel v acc := by
  induction room generalizing fuel v acc with
  | zero =>
    obtain ⟨fuel, rfl⟩ := Nat.exists_eq_add_one_of_ne_zero (Nat.ne_of_gt (Nat.zero_lt_of_lt hfuel))
    have hlt : v < 10 := by omega
    rw [appendUintLoop, Kv.digitsGo, if_pos (by omega), if_pos hlt, Nat.mod_eq_of_lt hlt]
  | succ room ih =>
    obtain ⟨fuel, rfl⟩ := Nat.exists_eq_add_one_of_ne_zero (Nat.ne_of_gt (Nat.zero_lt_of_lt hfuel))
    rw [appendUintLoop, Kv.digitsGo]
    by_cases hlt : v < 10
    · rw [if_pos (by omega), if_pos hlt, Nat.mod_eq_of_lt hlt]
    · rw [if_neg (by omega), if_neg hlt]
      refine ih ?_ (by omega) _
      rw [Nat.pow_succ] at hroom
      omega

theorem appendUint_eq (buf : Bytes) (v : Nat) : appendUint buf v = buf ++ Kv.printNat (v % 2 ^ 32) := by
  unfold appendUint Kv.printNat
  rw [appendUintLoop_eq (by omega) (Nat.lt_succ_self _)]

theorem printNat_inj {m n : Nat} (h : Kv.printNat m = Kv.printNat n) : m = n := by
  rw [← (Kv.printNat_spec m).2.2, h, (Kv.printNat_spec n).2.2]

/-! ### The texts -/

theorem foldl_append_flatMap {T : Type} (f : T → Bytes) (l : List T) (buf : Bytes) :
    l.foldl (fun buf i => buf ++ f i) buf = buf ++ l.flatMap f := by
  induction l generalizing buf with
  | nil => exact (List.append_nil buf).symm
  | cons x l ih => rw [List.foldl_cons, ih, List.flatMap_cons, List.append_assoc]

theorem foldl_headers (r : HttpResponse) (buf : Bytes) :
    r.headers.toList.foldl (fun buf i => if r.skips i.1 then buf else buf ++ i.1 ++ lit ": " ++ i.2 ++ crlf) buf =
      buf ++ r.headers.toList.flatMap fun i => if r.skips i.1 then [] else i.1 ++ lit ": " ++ i.2 ++ crlf := by
  rw [← foldl_append_flatMap]
  congr 1
  funext buf i
  split
  · exact (List.append_nil buf).symm
  · simp only [List.append_assoc]

theorem foldl_cookies (cookies : List Bytes) (buf : Bytes) :
    cookies.foldl (fun buf i => buf ++ lit "Set-Cookie: " ++ i ++ crlf) buf =
      buf ++ cookies.flatMap fun i => lit "Set-Cookie: " ++ i ++ crlf := by
  rw [← foldl_append_flatMap]
  simp only [List.append_assoc]

variable {r : HttpResponse}

/-- The line that `dump` gives the connection. -/
def connection (r : HttpResponse) : Bytes := lit "connection: " ++ lit (if r.close then "close" else "keep-alive")

/-- What comes after the connection, when the size of the body is printed as `size`. -/
def rest (r : HttpResponse) (size : Nat) : Bytes :=
  if r.body.isEmpty then crlf else lit "content-length: " ++ Kv.printNat size ++ crlf ++ crlf ++ r.body

theorem dump_eq (hwire : r.fixedWire = none) (hsocket : r.websocket = false) :
    r.dump = r.lead ++ (r.connection ++ crlf ++ r.rest (r.body.length % 2 ^ 32)) := by
  have hmajor := Nat.mod_eq_of_lt (Nat.lt_trans (r.version >>> 4).toNat_lt (by decide : 2 ^ 8 < 2 ^ 32))
  have hminor := Nat.mod_eq_of_lt (Nat.lt_trans (r.version &&& 0x0F).toNat_lt (by decide : 2 ^ 8 < 2 ^ 32))
  unfold dump lead connection rest
  rw [hwire, hsocket]
  simp only [appendUint_eq, foldl_headers, foldl_cookies, hmajor, hminor, Bool.false_eq_true, if_false]
  split
  · simp only [List.append_assoc]
  · simp only [List.append_assoc]

theorem dumpStream_eq (hsocket : r.websocket = false) :
    r.dumpStream = r.lead ++ (r.connection ++ crlf ++ r.rest r.body.length) := by
  unfold dumpStream lead connection rest
  rw [hsocket]
  simp only [foldl_headers, foldl_cookies, Bool.false_eq_true, if_false]
  split
  · simp only [List.append_assoc]
  · simp only [List.append_assoc]

theorem same_iff (hwire : r.fixedWire = none) (hsocket : r.websocket = false) :
    r.dump = r.dumpStream ↔ r.body = [] ∨ r.body.length < 2 ^ 32 := by
  rw [dump_eq hwire hsocket, dumpStream_eq hsocket, List.append_cancel_left_eq, List.append_cancel_left_eq]
  unfold rest
  by_cases hbody : r.body = []
  · rw [hbody]
    exact ⟨fun _ => .inl rfl, fun _ => rfl⟩
  · have hempty : r.body.isEmpty = false := by simpa using hbody
    rw [hempty]
    simp only [Bool.false_eq_true, if_false, List.append_assoc, List.append_cancel_left_eq, List.append_cancel_right_eq]
    constructor
    · intro h
      refine .inr ?_
      have := printNat_inj h
      omega
    · intro h
      rw [Nat.mod_eq_of_lt (h.resolve_left hbody)]

/-! ### The lines -/

/-- The text that the application has a say in ends with a line end. -/
theorem lead_ends (r : HttpResponse) : ∃ text, r.lead = text ++ [13, 10] := by
  have hflat : ∀ {T : Type} (f : T → Bytes) (l : List T) (pre : Bytes), (∀ x ∈ l, f x = [] ∨ ∃ text, f x = text ++ [13, 10]) →
      ∃ text, pre ++ [13, 10] ++ l.flatMap f = text ++ [13, 10] := by
    intro T f l
    induction l with
    | nil =>
      intro pre _
      exact ⟨pre, List.append_nil _⟩
    | cons x l ih =>
      intro pre hf
      rw [List.flatMap_cons]
      have hl : ∀ x ∈ l, f x = [] ∨ ∃ text, f x = text ++ [13, 10] := fun y hy => hf y (List.mem_cons_of_mem x hy)
      rcases hf x List.mem_cons_self with hx | ⟨text, hx⟩
      · rw [hx, List.nil_append]
        exact ih pre hl
      · rw [hx, ← List.append_assoc, ← List.append_assoc]
        exact ih (pre ++ [13, 10] ++ text) hl
  unfold lead crlf
  obtain ⟨text, htext⟩ := hflat (fun i : Bytes × Bytes => if r.skips i.1 then [] else i.1 ++ lit ": " ++ i.2 ++ [13, 10])
    r.headers.toList _ (fun x _ => by
      split
      · exact .inl rfl
      · exact .inr ⟨_, rfl⟩)
  rw [htext]
  exact hflat (fun i => lit "Set-Cookie: " ++ i ++ [13, 10]) r.cookies text fun x _ => .inr ⟨_, rfl⟩

theorem lf_notMem_printNat (n : Nat) : (10 : UInt8) ∉ Kv.printNat n := fun h => by
  have := (Kv.printNat_spec n).2.1 10 h
  revert this
  decide

theorem lf_notMem_connection (r : HttpResponse) : (10 : UInt8) ∉ r.connection := by
  unfold connection
  cases r.close with
  | true => decide
  | false => decide

/-- The lines of a response: the application's, the connection, and the length with an empty line after it. -/
theorem lines_wire (r : HttpResponse) (size : Nat) :
    ∃ body, Lines.lines 13 10 [] (r.lead ++ (r.connection ++ crlf ++ r.rest size)) =
      Lines.lines 13 10 [] r.lead ++ (r.connection ::
        ((if r.body.isEmpty then [] else [lit "content-length: " ++ Kv.printNat size]) ++ [] :: body)) := by
  have hne : (13 : UInt8) ≠ 10 := by decide
  obtain ⟨text, htext⟩ := lead_ends r
  have hsplit : Lines.lines 13 10 [] (r.lead ++ (r.connection ++ crlf ++ r.rest size)) =
      Lines.lines 13 10 [] r.lead ++ (r.connection :: Lines.lines 13 10 [] (r.rest size)) := by
    rw [htext, List.append_assoc]
    show Lines.lines 13 10 [] (text ++ 13 :: 10 :: (r.connection ++ crlf ++ r.rest size)) = _
    rw [Lines.lines_append hne, List.append_assoc r.connection]
    congr 1
    exact Lines.lines_of_notMem hne (lf_notMem_connection r) [] (r.rest size)
  rw [hsplit]
  unfold rest
  cases r.body.isEmpty with
  | true => exact ⟨[], rfl⟩
  | false =>
    refine ⟨Lines.lines 13 10 [] r.body, ?_⟩
    have hline : (10 : UInt8) ∉ lit "content-length: " ++ Kv.printNat size := by
      rw [List.mem_append]
      rintro (h | h)
      · revert h
        decide
      · exact lf_notMem_printNat size h
    simp only [Bool.false_eq_true, if_false, List.append_assoc]
    rw [← List.append_assoc (lit "content-length: ")]
    have hfirst := Lines.lines_of_notMem hne hline [] (crlf ++ r.body)
    have hsecond : Lines.lines (13 : UInt8) 10 [] (crlf ++ r.body) = [] :: Lines.lines 13 10 [] r.body :=
      Lines.lines_crlf [] r.body
    rw [hsecond] at hfirst
    exact congrArg (fun l => Lines.lines 13 10 [] r.lead ++ r.connection :: l) hfirst

theorem contentLength_connection (r : HttpResponse) : contentLength r.connection = none := by
  unfold connection
  cases r.close with
  | true => decide
  | false => decide

theorem dropWhile_of_notMem {p : UInt8 → Bool} {l : Bytes} (h : ∀ b ∈ l, p b = false) : l.dropWhile p = l := by
  cases l with
  | nil => rfl
  | cons b l => exact List.dropWhile_cons_of_neg (by rw [h b List.mem_cons_self]; exact Bool.false_ne_true)

theorem trim_printNat (n : Nat) : trim (32 :: Kv.printNat n) = Kv.printNat n := by
  have hdigit : ∀ b ∈ Kv.printNat n, (b == 32 || b == 9) = false := by
    intro b hb
    have hd := (Kv.printNat_spec n).2.1 b hb
    rw [Bool.or_eq_false_iff, beq_eq_false_iff_ne, beq_eq_false_iff_ne]
    constructor
    · rintro rfl
      revert hd
      decide
    · rintro rfl
      revert hd
      decide
  unfold trim
  rw [List.dropWhile_cons_of_pos (by decide), dropWhile_of_notMem hdigit,
    dropWhile_of_notMem fun b hb => hdigit b (List.mem_reverse.mp hb), List.reverse_reverse]

theorem contentLength_line (n : Nat) : contentLength (lit "content-length: " ++ Kv.printNat n) = some (Kv.printNat n) := by
  have htext : lit "content-length: " ++ Kv.printNat n = lit "content-length" ++ 58 :: 32 :: Kv.printNat n := by
    have : lit "content-length: " = lit "content-length" ++ [58, 32] := by decide
    rw [this, List.append_assoc]
    rfl
  have hcolon : (lit "content-length").all (· ≠ 58) = true := by decide
  have hname : (lit "content-length" ++ 58 :: 32 :: Kv.printNat n).takeWhile (· ≠ 58) = lit "content-length" := by
    rw [List.takeWhile_append_of_pos (List.all_eq_true.mp hcolon), List.takeWhile_cons_of_neg (by decide), List.append_nil]
  unfold contentLength
  rw [htext]
  dsimp only
  rw [hname, if_pos ⟨by simp, by decide⟩, List.drop_append, Nat.sub_eq_of_eq_add (Nat.add_comm _ 1)]
  rw [List.drop_eq_nil_of_le (Nat.le_succ _), List.nil_append, List.drop_one, List.tail_cons, trim_printNat]

/-- The lengths of a response are the application's and, where the application has not ended the head, the one of
`dump`. -/
theorem contentLengths_wire (r : HttpResponse) (size : Nat) :
    contentLengths (r.lead ++ (r.connection ++ crlf ++ r.rest size)) =
      if [] ∈ Lines.lines 13 10 [] r.lead then contentLengths r.lead
      else contentLengths r.lead ++ if r.body.isEmpty then [] else [Kv.printNat size] := by
  obtain ⟨body, hlines⟩ := lines_wire r size
  have hfirst : Lines.lines 13 10 [] r.lead ≠ [] := by
    obtain ⟨text, htext⟩ := lead_ends r
    rw [htext]
    exact Lines.lines_ne_nil [] text
  unfold contentLengths
  rw [hlines]
  generalize Lines.lines 13 10 [] r.lead = own at *
  by_cases hend : [] ∈ own
  · have hshort : ¬ (own.takeWhile (· ≠ [])).length = own.length := by
      intro hlen
      have hall := List.takeWhile_eq_self_iff.mp ((List.takeWhile_prefix _).eq_of_length hlen) [] hend
      exact absurd rfl (of_decide_eq_true hall)
    rw [if_pos hend, List.takeWhile_append, if_neg hshort]
  · have hall : ∀ l ∈ own, decide (l ≠ []) = true := fun l hl => decide_eq_true fun heq => hend (by rw [← heq]; exact hl)
    have hconn : decide (r.connection ≠ []) = true := by
      unfold connection
      cases r.close with
      | true => decide
      | false => decide
    rw [if_neg hend, List.takeWhile_append_of_pos hall, List.takeWhile_eq_self_iff.mpr hall,
      List.takeWhile_cons_of_pos (p := fun l : Bytes => decide (l ≠ [])) hconn,
      List.drop_append_of_le_length (List.length_pos_iff.mpr hfirst),
      List.filterMap_append, List.filterMap_cons_none (contentLength_connection r)]
    congr 1
    cases r.body.isEmpty with
    | true => rfl
    | false =>
      have hline : decide (lit "content-length: " ++ Kv.printNat size ≠ []) = true :=
        decide_eq_true (List.append_ne_nil_of_left_ne_nil (by decide) _)
      show (List.takeWhile _ ((lit "content-length: " ++ Kv.printNat size) :: [] :: body)).filterMap contentLength = _
      rw [List.takeWhile_cons_of_pos (p := fun l : Bytes => decide (l ≠ [])) hline, List.takeWhile_cons_of_neg (by decide),
        List.filterMap_cons_some (contentLength_line size)]
      rfl

/-! ## Top theorem -/

theorem delimited_iff (r : HttpResponse) (hwire : r.fixedWire = none) (hsocket : r.websocket = false) :
    r.Delimited ↔ r.Sole := by
  have hsame := same_iff hwire hsocket
  have hlengths : (r.body = [] ∨ r.body.length < 2 ^ 32) → contentLengths r.dump =
      if [] ∈ Lines.lines 13 10 [] r.lead then contentLengths r.lead
      else contentLengths r.lead ++ if r.body.isEmpty then [] else [Kv.printNat r.body.length] := by
    intro hsize
    rw [hsame.mpr hsize, dumpStream_eq hsocket, contentLengths_wire]
  have hown : contentLengths r.lead =
        (if [] ∈ Lines.lines 13 10 [] r.lead ∨ r.body = [] then [Kv.printNat r.body.length] else []) ↔
      (if [] ∈ Lines.lines 13 10 [] r.lead then contentLengths r.lead
        else contentLengths r.lead ++ if r.body.isEmpty then [] else [Kv.printNat r.body.length]) =
        [Kv.printNat r.body.length] := by
    by_cases hend : [] ∈ Lines.lines 13 10 [] r.lead
    · rw [if_pos hend, if_pos (.inl hend)]
    · by_cases hbody : r.body = []
      · rw [if_neg hend, if_pos (.inr hbody), hbody]
        show _ ↔ contentLengths r.lead ++ [] = _
        rw [List.append_nil]
      · have hempty : r.body.isEmpty = false := by simpa using hbody
        rw [if_neg hend, if_neg (not_or.mpr ⟨hend, hbody⟩), hempty]
        show _ ↔ contentLengths r.lead ++ [Kv.printNat r.body.length] = _
        exact List.append_left_eq_self.symm
  constructor
  · rintro ⟨h, hlen⟩
    have hsize := hsame.mp h
    exact ⟨hsize, hown.mpr ((hlengths hsize).symm.trans hlen)⟩
  · rintro ⟨hsize, h⟩
    exact ⟨hsame.mpr hsize, (hlengths hsize).trans (hown.mp h)⟩

/-- A response of HTTP/1.1 that keeps the connection. -/
def plain (body : Bytes) (headers : MapType) : HttpResponse := ⟨200, 0x11, false, false, body, [], headers, [], none⟩

theorem delimited_iff_hello : (plain (lit "hello") .empty).Delimited :=
  (delimited_iff (plain (lit "hello") .empty) rfl rfl).mpr ⟨by decide, by decide⟩

/-- An empty body has no length, and an application that sets the header has two. -/
theorem undelimited : ¬ (plain [] .empty).Delimited ∧
    ¬ (plain (lit "hello") (MapType.empty.set (lit "Content-Length") (lit "5"))).Delimited := by
  constructor
  · intro h
    have hlen := h.length
    revert hlen
    decide
  · intro h
    have hlen := h.length
    revert hlen
    decide

end HttpResponse

end Http
