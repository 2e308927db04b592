import ZeroFrameworks.Http.HttpResponse
import ZeroFrameworks.Lib.Scan

/-!
# The parser of responses

The machine of `httpclient_parser.rl` reads the head of a response, or the line with the size of a chunk.  It keeps
where a token begins as an offset into the buffer it is given, and forgets it when it is given the next one.  The text
of a response is therefore cut into units, behind each of which no token is open.

    r.At .line c d → r passes over the units of a field → r'.At .line (c || codes) (d with the field)   (field_passes)
    r.At .start … → r stops behind a chunk-size line, with the size   (sizeLine_exec)
-/

namespace Http

open Kv (Bytes lit)
open Scan (Machine Lies slice)

/-! ## Algorithm -/

/-- `token`. -/
def isToken (b : UInt8) : Bool :=
  b == 33 || (35 ≤ b && b ≤ 39) || b == 42 || b == 43 || b == 45 || b == 46 || (48 ≤ b && b ≤ 57) ||
    (65 ≤ b && b ≤ 90) || (94 ≤ b && b ≤ 122) || b == 124 || b == 126

/-- `xdigit`. -/
def isXdigit (b : UInt8) : Bool := (48 ≤ b && b ≤ 57) || (65 ≤ b && b ≤ 70) || (97 ≤ b && b ≤ 102)

/-- The spaces in front of a field value, of which `CRLF` takes its own. -/
def isBlank (b : UInt8) : Bool := b == 9 || b == 11 || b == 12 || b == 32

def hexVal (b : UInt8) : Nat :=
  if b ≤ 57 then b.toNat - 48 else if b ≤ 70 then b.toNat - 55 else b.toNat - 87

/-- `strtol(s, NULL, 16)`, where `s` begins with a digit. -/
def strtol16 (s : Bytes) : Int := Kv.clamp64 ((s.takeWhile isXdigit).foldl (fun n d => n * 16 + hexVal d) 0 : Nat)

def atoi (s : Bytes) : Int := Kv.i32 (Kv.strtoll s).1

/-- `strncmp(at, s, n) == 0`. -/
def strncmpEq (at' s : Bytes) (n : Nat) : Bool := Kv.cstr (at'.take n) == Kv.cstr (s.take n)

/-- `content_length`, `conn_close` and `transfer_encoding_chunked`. -/
inductive Known
  | length
  | close
  | chunked
  deriving DecidableEq, Repr

/-- The field of a name. -/
def Known.ofName (name : Bytes) : Option Known :=
  if Kv.lower name = lit "content-length" then some .length
  else if Kv.lower name = lit "connection" then some .close
  else if Kv.lower name = lit "transfer-encoding" then some .chunked
  else none

/-- Whether a value of the field may begin so. -/
def Known.reads (text : Bytes) : Known → Bool
  | .length => text.all Kv.isDigit
  | .close => (Kv.lower text).isPrefixOf (lit "close")
  | .chunked => (Kv.lower text).isPrefixOf (lit "chunked")

/-- Whether what may begin a value of the field is one. -/
def Known.whole (text : Bytes) : Known → Bool
  | .length => true
  | .close => Kv.lower text == lit "close"
  | .chunked => Kv.lower text == lit "chunked"

/-- The value of a known field, where the line of its name has none. -/
inductive Awaited
  | spaces (known : Known)
  | text (known : Known) (text : Bytes)
  | lf (known : Known)
  deriving DecidableEq, Repr

/-- Where the machine is.  `version` has what is to come of `"HTTP/"`.  A name and a value keep their text, by which
the machine tells the known fields from others.  Behind the line of an empty value it goes on with the next line, and
with the `space*` of a known field: it is in `both` until one of them fails.  `content_len` and `close` are not read
and left out. -/
inductive ClientState
  | error
  | start
  | version (rest : Bytes)
  | major
  | majorDigits
  | minor
  | minorDigits
  | status
  | statusDigits
  | reason
  | reasonText
  | lf (codes : Bool)
  | line
  | name (text : Bytes)
  | spaces (known : Option Known)
  | value (coding : Bool) (text : Bytes)
  | lastLf
  | size
  | ext
  | extName
  | extValue
  | extText
  | final
  | both (cs : ClientState) (also : Awaited)
  deriving DecidableEq, Repr

def ClientState.and (cs : ClientState) : Option Awaited → ClientState
  | none => cs
  | some also => .both cs also

/-- The final states, in which `fbreak` leaves the machine.  The first of them is `final` alone. -/
def ClientState.done : ClientState → Bool
  | .final | .both .final _ => true
  | _ => false

/-- `httpclient_parser`. -/
structure HttpClientParser where
  cs : ClientState
  contentLen : Int
  chunked : Bool
  chunksDone : Bool
  mark : Nat
  fieldStart : Nat
  fieldLen : Nat

/-- `httpclient_parser_init`. -/
def HttpClientParser.init : HttpClientParser where
  cs := .start
  contentLen := -1
  chunked := false
  chunksDone := false
  mark := 0
  fieldStart := 0
  fieldLen := 0

/-- What `httpclient_parser_execute` forgets of the last buffer. -/
def HttpClientParser.again (parser : HttpClientParser) : HttpClientParser :=
  { parser with mark := 0, fieldLen := 0, fieldStart := 0 }

structure HttpResponseParser where
  parser : HttpClientParser
  error : Nat
  data : HttpResponse

namespace HttpResponseParser

/-- The constructor, and that of its response. -/
def new : HttpResponseParser where
  parser := .init
  error := 0
  data :=
    { status := 200, version := 0x11, close := true, websocket := false, body := [], reason := [],
      headers := .empty, cookies := [], fixedWire := none }

def goto (r : HttpResponseParser) (cs : ClientState) : HttpResponseParser :=
  { r with parser := { r.parser with cs := cs } }

/-- `MARK(mark, fpc)`. -/
def markAt (r : HttpResponseParser) (p : Nat) : HttpResponseParser := { r with parser := { r.parser with mark := p } }

def startField (r : HttpResponseParser) (p : Nat) : HttpResponseParser :=
  { r with parser := { r.parser with fieldStart := p } }

def writeField (r : HttpResponseParser) (p : Nat) : HttpResponseParser :=
  { r with parser := { r.parser with fieldLen := p - r.parser.fieldStart } }

def onResponseVersion (r : HttpResponseParser) (at' : Bytes) (length : Nat) : HttpResponseParser :=
  if strncmpEq at' (lit "HTTP/1.1") length then { r with data := { r.data with version := 0x11 } }
  else if strncmpEq at' (lit "HTTP/1.0") length then { r with data := { r.data with version := 0x10 } }
  else { r with error := 1001 }

def onResponseStatus (r : HttpResponseParser) (at' : Bytes) : HttpResponseParser :=
  { r with data := { r.data with status := (atoi at' % 2 ^ 32).toNat } }

def onResponseReason (r : HttpResponseParser) (reason : Bytes) : HttpResponseParser :=
  { r with data := { r.data with reason := reason } }

def onResponseHttpField (r : HttpResponseParser) (field value : Bytes) : HttpResponseParser :=
  if field.length = 0 then r else { r with data := { r.data with headers := r.data.headers.set field value } }

/-- The action `write_value`. -/
def writeValue (buffer : Bytes) (r : HttpResponseParser) (p : Nat) : HttpResponseParser :=
  r.onResponseHttpField (slice buffer r.parser.fieldStart r.parser.fieldLen) (slice buffer r.parser.mark (p - r.parser.mark))

def transChunked (r : HttpResponseParser) (codes : Bool) : HttpResponseParser :=
  { r with parser := { r.parser with chunked := r.parser.chunked || codes } }

/-- The action `chunk_size`. -/
def chunkSize (buffer : Bytes) (r : HttpResponseParser) : HttpResponseParser :=
  let contentLen := Kv.i32 (strtol16 (buffer.drop r.parser.mark))
  { r with parser := { r.parser with chunked := true, contentLen := contentLen, chunksDone := decide (contentLen ≤ 0) } }

/-- Whether a value says that the response is chunked, where its name is that of the coding. -/
def codes (coding : Bool) (text : Bytes) : Bool := coding && Kv.lower text == lit "chunked"

/-- A transition of the machine where it is in one place, with its actions. -/
def advance (buffer : Bytes) (p : Nat) (b : UInt8) (r : HttpResponseParser) : HttpResponseParser :=
  match r.parser.cs with
  | .error | .final | .both _ _ => r.goto .error
  | .start =>
    if b = 72 then (r.markAt p).goto (.version [84, 84, 80, 47])
    else if isXdigit b then (r.markAt p).goto .size
    else r.goto .error
  | .version [] => r.goto .error
  | .version (c :: rest) => if b = c then r.goto (if rest = [] then .major else .version rest) else r.goto .error
  | .major => if Kv.isDigit b then r.goto .majorDigits else r.goto .error
  | .majorDigits => if b = 46 then r.goto .minor else if Kv.isDigit b then r else r.goto .error
  | .minor => if Kv.isDigit b then r.goto .minorDigits else r.goto .error
  | .minorDigits =>
    if b = 32 then (r.onResponseVersion (buffer.drop r.parser.mark) (p - r.parser.mark)).goto .status
    else if Kv.isDigit b then r
    else r.goto .error
  | .status => if Kv.isDigit b then (r.markAt p).goto .statusDigits else r.goto .error
  | .statusDigits =>
    if b = 32 then (r.onResponseStatus (buffer.drop r.parser.mark)).goto .reason
    else if Kv.isDigit b then r
    else r.goto .error
  | .reason => if b = 10 then r.goto .error else (r.markAt p).goto .reasonText
  | .reasonText =>
    if b = 10 then (r.onResponseReason (slice buffer r.parser.mark (p - r.parser.mark))).goto .line
    else if b = 13 then (r.onResponseReason (slice buffer r.parser.mark (p - r.parser.mark))).goto (.lf false)
    else r
  | .lf codes => if b = 10 then (r.transChunked codes).goto .line else r.goto .error
  | .line =>
    if b = 10 then r.goto .final
    else if b = 13 then r.goto .lastLf
    else if isToken b then (r.startField p).goto (.name [b])
    else r.goto .error
  | .name text =>
    if b = 58 then (r.writeField p).goto (.spaces (Known.ofName text))
    else if isToken b then r.goto (.name (text ++ [b]))
    else r.goto .error
  | .spaces known =>
    if b = 10 then ((r.markAt p).writeValue buffer p).goto (ClientState.line.and (known.map .spaces))
    else if b = 13 then ((r.markAt p).writeValue buffer p).goto ((ClientState.lf false).and (known.map .spaces))
    else if isBlank b then r.markAt p
    else (r.markAt p).goto (.value (known = some .chunked) [b])
  | .value coding text =>
    if b = 10 then ((r.writeValue buffer p).transChunked (codes coding text)).goto .line
    else if b = 13 then (r.writeValue buffer p).goto (.lf (codes coding text))
    else r.goto (.value coding (text ++ [b]))
  | .lastLf => if b = 10 then r.goto .final else r.goto .error
  | .size =>
    if b = 10 then (r.chunkSize buffer).goto .final
    else if b = 13 then (r.chunkSize buffer).goto .lastLf
    else if b = 59 then (r.chunkSize buffer).goto .ext
    else if isXdigit b then r
    else r.goto .error
  | .ext => if isToken b then (r.startField p).goto .extName else r.goto .error
  | .extName =>
    if b = 10 then (((r.writeField p).markAt p).writeValue buffer p).goto .final
    else if b = 13 then (((r.writeField p).markAt p).writeValue buffer p).goto .lastLf
    else if b = 59 then (((r.writeField p).markAt p).writeValue buffer p).goto .ext
    else if b = 61 then ((r.writeField p).markAt p).goto .extValue
    else if isToken b then r
    else r.goto .error
  | .extValue => if isToken b then (r.markAt p).goto .extText else r.goto .error
  | .extText =>
    if b = 10 then (r.writeValue buffer p).goto .final
    else if b = 13 then (r.writeValue buffer p).goto .lastLf
    else if b = 59 then (r.writeValue buffer p).goto .ext
    else if isToken b then r
    else r.goto .error

/-- The transition of the value that is awaited, with its actions, next to that of the other place. -/
def follow (buffer : Bytes) (p : Nat) (b : UInt8) (r : HttpResponseParser) : Awaited → HttpResponseParser
  | .spaces known =>
    if Kv.isSpace b then r.goto (.both r.parser.cs (.spaces known))
    else if known.reads [b] then (r.markAt p).goto (.both r.parser.cs (.text known [b]))
    else r
  | .text known text =>
    let written := if known = .close then r else r.writeValue buffer p
    if known.whole text ∧ b = 10 then (written.transChunked (known = .chunked)).goto .line
    else if known.whole text ∧ b = 13 then written.goto (.both r.parser.cs (.lf known))
    else if known.reads (text ++ [b]) then r.goto (.both r.parser.cs (.text known (text ++ [b])))
    else r
  | .lf known => if b = 10 then (r.transChunked (known = .chunked)).goto .line else r

/-- A transition. -/
def step (buffer : Bytes) (p : Nat) (b : UInt8) (r : HttpResponseParser) : HttpResponseParser :=
  match r.parser.cs with
  | .both cs also => follow buffer p b (advance buffer p b (r.goto cs)) also
  | _ => advance buffer p b r

/-- The machine, which `fbreak` stops behind the byte that finishes it. -/
def machine : Machine HttpResponseParser UInt8 where
  step := step
  failed := fun r => decide (r.parser.cs = .error)
  finished := fun r => r.parser.cs.done

/-- `execute`: the parser, and what is left of the data. -/
def execute (r : HttpResponseParser) (data : Bytes) (chunck : Bool) : HttpResponseParser × Bytes :=
  let stop := machine.exec data 0 data { r with parser := (if chunck then .init else r.parser).again }
  (stop.1, data.drop stop.2)

def isFinished (r : HttpResponseParser) : Bool := decide (r.parser.cs = .final)

def hasError (r : HttpResponseParser) : Bool := r.error != 0 || decide (r.parser.cs = .error)

end HttpResponseParser

/-! ## Specification -/

/-- A field of a head: `text` is what stands between the colon and the end of the line. -/
structure Field where
  name : Bytes
  text : Bytes
  named : name ≠ []
  tokens : ∀ b ∈ name, isToken b = true
  oneLine : ∀ b ∈ text, b ≠ 10 ∧ b ≠ 13

namespace Field

def value (f : Field) : Bytes := f.text.dropWhile isBlank

/-- What the machine still waits for behind the field. -/
def awaits (f : Field) : Option Awaited := if f.value = [] then (Known.ofName f.name).map .spaces else none

/-- Whether the field says that the response is chunked. -/
def codes (f : Field) : Bool := HttpResponseParser.codes (Known.ofName f.name = some .chunked) f.value

def units (f : Field) : List Bytes := [f.name ++ 58 :: f.text ++ [13], [10]]

end Field

/-- The head of a response of HTTP/1.1, or of HTTP/1.0 if it is `old`. -/
structure ResponseHead where
  old : Bool
  status : Bytes
  reason : Bytes
  fields : List Field
  digits : status ≠ [] ∧ ∀ b ∈ status, Kv.isDigit b = true
  oneLine : ∀ b ∈ reason, b ≠ 10 ∧ b ≠ 13

namespace ResponseHead

def versionText (h : ResponseHead) : Bytes := if h.old then lit "HTTP/1.0" else lit "HTTP/1.1"

/-- The texts behind which no token is open. -/
def units (h : ResponseHead) : List Bytes :=
  [h.versionText ++ [32], h.status ++ [32]] ++ (if h.reason = [] then [[13, 10]] else [h.reason ++ [13], [10]]) ++
    h.fields.flatMap Field.units ++ [[13], [10]]

/-- What the machine still waits for behind the last field. -/
def awaits (h : ResponseHead) : Option Awaited := h.fields.foldl (fun _ f => f.awaits) none

/-- The response as its head has it. -/
def response (h : ResponseHead) : HttpResponse :=
  { HttpResponseParser.new.data with
    version := if h.old then 0x10 else 0x11
    status := (atoi h.status % 2 ^ 32).toNat
    reason := if h.reason = [] then [13] else h.reason
    headers := h.fields.foldl (fun m f => m.set f.name f.value) .empty }

end ResponseHead

/-- An extension of the line with the size of a chunk. -/
structure ChunkExtension where
  name : Bytes
  value : Option Bytes
  named : name ≠ [] ∧ ∀ b ∈ name, isToken b = true
  valued : ∀ v ∈ value, v ≠ [] ∧ ∀ b ∈ v, isToken b = true

def ChunkExtension.text (x : ChunkExtension) : Bytes :=
  x.name ++ match x.value with
    | none => []
    | some v => 61 :: v

/-- The line with the size of a chunk. -/
structure SizeLine where
  digits : Bytes
  extensions : List ChunkExtension
  hex : digits ≠ [] ∧ ∀ b ∈ digits, isXdigit b = true

namespace SizeLine

def size (l : SizeLine) : Nat := l.digits.foldl (fun n d => n * 16 + hexVal d) 0

def bytes (l : SizeLine) : Bytes := l.digits ++ l.extensions.flatMap (fun x => 59 :: x.text) ++ [13, 10]

/-- An extension is taken for a field of the response. -/
def headers (l : SizeLine) (m : MapType) : MapType := l.extensions.foldl (fun m x => m.set x.name (x.value.getD [])) m

end SizeLine

/-- What is known of the parser between two units. -/
structure ClientView where
  cs : ClientState
  chunked : Bool
  error : Nat
  data : HttpResponse

namespace HttpResponseParser

/-- The parser has neither failed nor finished. -/
def Goes (v : ClientView) : Prop := v.cs ≠ .error ∧ v.cs ≠ .final ∧ v.error = 0

def view (r : HttpResponseParser) : ClientView := ⟨r.parser.cs, r.parser.chunked, r.error, r.data⟩

/-- What is known of the parser in the line with the size of a chunk. -/
structure SizeView where
  cs : ClientState
  contentLen : Int
  chunksDone : Bool
  error : Nat
  data : HttpResponse

def sizeView (r : HttpResponseParser) : SizeView :=
  ⟨r.parser.cs, r.parser.contentLen, r.parser.chunksDone, r.error, r.data⟩

/-! ## Lemmas -/

variable {c : Bool} {e : Nat} {d : HttpResponse}

/-! ### Bytes -/

theorem ne_of_class {p : UInt8 → Bool} {b x : UInt8} (hb : p b = true) (hx : p x = false) : b ≠ x := by
  rintro rfl
  rw [hb] at hx
  cases hx

theorem atoi_append {ds tail : Bytes} (hds : ∀ b ∈ ds, Kv.isDigit b = true) (hne : ds ≠ [])
    (htail : ∀ b ∈ tail.head?, Kv.isDigit b = false) : atoi (ds ++ tail) = Kv.i32 (Kv.clamp64 (Kv.natOf ds)) := by
  obtain ⟨b, ds', rfl⟩ := List.exists_cons_of_ne_nil hne
  have hb := hds b List.mem_cons_self
  have hcstr : Kv.cstr (b :: ds' ++ tail) = b :: (ds' ++ Kv.cstr tail) := by
    show List.takeWhile _ (b :: ds' ++ tail) = _
    rw [List.takeWhile_append_of_pos fun x hx => by simpa using Kv.isDigit_ne_zero x (hds x hx)]
    rfl
  have hend : (Kv.cstr tail).takeWhile Kv.isDigit = [] := by
    cases tail with
    | nil => rfl
    | cons x tail =>
      have hx := htail x rfl
      unfold Kv.cstr
      rw [List.takeWhile_cons]
      split
      · exact List.takeWhile_cons_of_neg (by rw [hx]; exact Bool.false_ne_true)
      · rfl
  have hrun : (b :: (ds' ++ Kv.cstr tail)).takeWhile Kv.isDigit = b :: ds' := by
    rw [← List.cons_append, List.takeWhile_append_of_pos hds, hend, List.append_nil]
  obtain ⟨h45, h43⟩ := Kv.isDigit_not_sign b hb
  have hskip : (b :: (ds' ++ Kv.cstr tail)).dropWhile Kv.isSpace = b :: (ds' ++ Kv.cstr tail) :=
    List.dropWhile_cons_of_neg (by rw [Kv.isDigit_not_space b hb]; exact Bool.false_ne_true)
  have e45 : (some b == some (45 : UInt8)) = false := by simpa using h45
  have e43 : (some b == some (43 : UInt8)) = false := by simpa using h43
  unfold atoi Kv.strtoll
  simp only [hcstr, hskip, List.head?_cons, e45, e43, Bool.or_false, Bool.false_eq_true, if_false, hrun,
    List.isEmpty_cons]

/-! ### The first line -/

/-- The version is read where its text ends, and the text lies where it was marked. -/
theorem version_reads (h : ResponseHead) :
    machine.Reads view (h.versionText ++ [32]) ⟨.start, c, e, d⟩
      ⟨.status, c, e, { d with version := if h.old then 0x10 else 0x11 }⟩ := by
  intro buffer p r hlies hr
  obtain ⟨⟨cs, contentLen, chunked, chunksDone, mark, fieldStart, fieldLen⟩, error, data⟩ := r
  cases hr
  have htext : (buffer.drop p).take 8 = h.versionText := by
    have hslice := hlies.left.slice
    rwa [show h.versionText.length = 8 from by unfold ResponseHead.versionText; cases h.old <;> rfl] at hslice
  have hbytes : h.versionText ++ [32] = [72, 84, 84, 80, 47, 49, 46] ++ [if h.old then 48 else 49, 32] := by
    unfold ResponseHead.versionText
    cases h.old <;> rfl
  have hdigit : Kv.isDigit (if h.old then 48 else 49) = true := by cases h.old <;> rfl
  rw [hbytes]
  refine ⟨_, .append (.head rfl rfl rfl (.head rfl rfl rfl (.head rfl rfl rfl (.head rfl rfl rfl
    (.head rfl rfl rfl (.head rfl rfl rfl (.head rfl rfl rfl .nil)))))))
    (.head (if_pos hdigit) rfl rfl (.one rfl rfl rfl)), ?_⟩
  show view ((onResponseVersion _ (buffer.drop p) (p + 8 - p)).goto .status) = _
  rw [Nat.add_sub_cancel_left]
  unfold onResponseVersion strncmpEq
  rw [htext]
  unfold ResponseHead.versionText
  cases h.old <;> rfl

theorem status_reads (h : ResponseHead) :
    machine.Reads view (h.status ++ [32]) ⟨.status, c, e, d⟩
      ⟨.reason, c, e, { d with status := (atoi h.status % 2 ^ 32).toNat }⟩ := by
  intro buffer p r hlies hr
  obtain ⟨⟨cs, contentLen, chunked, chunksDone, mark, fieldStart, fieldLen⟩, error, data⟩ := r
  cases hr
  obtain ⟨hne, hdigits⟩ := h.digits
  obtain ⟨rest, hrest⟩ := hlies
  have hatoi : atoi (buffer.drop p) = atoi h.status := by
    rw [← hrest, List.append_assoc]
    have hself : atoi (h.status ++ []) = _ := atoi_append hdigits hne (by rintro b ⟨⟩)
    rw [List.append_nil] at hself
    rw [hself]
    exact atoi_append hdigits hne (by rintro b ⟨⟩; rfl)
  obtain ⟨b, digits, hstatus⟩ := List.exists_cons_of_ne_nil hne
  rw [hstatus] at hdigits
  have hb : Kv.isDigit b = true := hdigits b List.mem_cons_self
  have hstay : ∀ x ∈ digits, ∀ q, ∀ r : HttpResponseParser, r.parser.cs = .statusDigits → machine.step buffer q x r = r := by
    intro x hx q r hcs
    have hx : Kv.isDigit x = true := hdigits x (List.mem_cons_of_mem b hx)
    have hspace : x ≠ 32 := ne_of_class hx rfl
    show step buffer q _ r = _
    unfold step advance
    rw [hcs]
    exact (if_neg hspace).trans (if_pos hx)
  have hlast : ∀ q, ∀ r : HttpResponseParser, r.parser.cs = .statusDigits →
      machine.step buffer q 32 r = (r.onResponseStatus (buffer.drop r.parser.mark)).goto .reason := by
    intro q r hcs
    show step buffer q _ r = _
    unfold step advance
    rw [hcs]
    rfl
  rw [hstatus]
  refine ⟨_, .head (if_pos hb) rfl rfl (.append (.stay (fun x hx q => hstay x hx q _ rfl) rfl rfl)
    (.one (hlast _ _ rfl) rfl rfl)), ?_⟩
  show ClientView.mk .reason chunked error
    { data with status := (atoi (buffer.drop p) % 2 ^ 32).toNat } = _
  rw [hatoi, hstatus]

theorem lf_reads {codes : Bool} (known : Option Known) :
    machine.Reads view [10] ⟨(ClientState.lf codes).and (known.map .spaces), c, e, d⟩
      ⟨ClientState.line.and (known.map .spaces), c || codes, e, d⟩ := by
  intro buffer p r _ hr
  obtain ⟨⟨cs, contentLen, chunked, chunksDone, mark, fieldStart, fieldLen⟩, error, data⟩ := r
  cases hr
  cases known with
  | none => exact ⟨_, .one rfl rfl rfl, rfl⟩
  | some known => exact ⟨_, .one rfl rfl rfl, rfl⟩

variable {r : HttpResponseParser} {p : Nat}

theorem reasonText_passes {buffer : Bytes} {text : Bytes} (htext : ∀ b ∈ text, b ≠ 10 ∧ b ≠ 13)
    (hcs : r.parser.cs = .reasonText) : machine.Passes buffer p text r r := by
  refine .stay ?_ (by simp [machine, hcs]) (by simp [machine, hcs, ClientState.done])
  intro b hb q
  obtain ⟨hlf, hcr⟩ := htext b hb
  show step buffer q b r = r
  unfold step advance
  rw [hcs]
  exact (if_neg hlf).trans (if_neg hcr)

theorem emptyReason_reads :
    machine.Reads view [13, 10] ⟨.reason, c, e, d⟩ ⟨.line, c, e, { d with reason := [13] }⟩ := by
  intro buffer p r hlies hr
  obtain ⟨⟨cs, contentLen, chunked, chunksDone, mark, fieldStart, fieldLen⟩, error, data⟩ := r
  cases hr
  have hcr : Lies buffer p [13] := (List.prefix_append [13] [10]).trans hlies
  refine ⟨_, .head rfl rfl rfl (.one rfl rfl rfl), ?_⟩
  show ClientView.mk .line chunked error { data with reason := slice buffer p (p + 1 - p) } = _
  rw [Nat.add_sub_cancel_left]
  exact congrArg (fun reason => ClientView.mk .line chunked error { data with reason := reason }) hcr.slice

theorem reason_reads {reason : Bytes} (hne : reason ≠ []) (hreason : ∀ b ∈ reason, b ≠ 10 ∧ b ≠ 13) :
    machine.Reads view (reason ++ [13]) ⟨.reason, c, e, d⟩ ⟨.lf false, c, e, { d with reason := reason }⟩ := by
  intro buffer p r hlies hr
  obtain ⟨⟨cs, contentLen, chunked, chunksDone, mark, fieldStart, fieldLen⟩, error, data⟩ := r
  cases hr
  have hslice := hlies.left.slice
  obtain ⟨b, text, rfl⟩ := List.exists_cons_of_ne_nil hne
  have htext : ∀ x ∈ text, x ≠ 10 ∧ x ≠ 13 := fun x hx => hreason x (List.mem_cons_of_mem b hx)
  refine ⟨_, .head (if_neg (hreason b List.mem_cons_self).1) rfl rfl
    (.append (reasonText_passes htext rfl) (.one rfl rfl rfl)), ?_⟩
  show ClientView.mk (.lf false) chunked error
    { data with reason := slice buffer p (p + 1 + text.length - p) } = _
  rw [show p + 1 + text.length - p = (b :: text).length from by rw [List.length_cons]; omega, hslice]

/-! ### Fields -/

theorem reads_colon (known : Known) (text : Bytes) : known.reads (text ++ [58]) = false := by
  have hword : ∀ word : Bytes, (58 : UInt8) ∉ word → (Kv.lower (text ++ [58])).isPrefixOf word = false := by
    intro word hnot
    rw [← Bool.not_eq_true, List.isPrefixOf_iff_prefix]
    intro hpre
    refine hnot (hpre.subset ?_)
    unfold Kv.lower
    rw [List.map_append]
    exact List.mem_append_right _ List.mem_cons_self
  cases known with
  | length =>
    show (text ++ [58]).all Kv.isDigit = false
    rw [List.all_append, Bool.and_eq_false_iff]
    exact .inr rfl
  | close => exact hword _ (by decide)
  | chunked => exact hword _ (by decide)

theorem follow_colon (buffer : Bytes) (p : Nat) (r : HttpResponseParser) (also : Awaited) :
    follow buffer p 58 r also = r := by
  cases also with
  | spaces known =>
    have hreads : ¬known.reads [58] = true := by
      rw [show known.reads [58] = false from reads_colon known []]
      exact Bool.false_ne_true
    exact if_neg hreads
  | text known text =>
    have hreads : ¬known.reads (text ++ [58]) = true := by
      rw [reads_colon known text]
      exact Bool.false_ne_true
    exact (if_neg fun h => absurd h.2 (by decide)).trans ((if_neg fun h => absurd h.2 (by decide)).trans (if_neg hreads))
  | lf known => rfl

variable {b : UInt8}

theorem follow_inside (buffer : Bytes) (p : Nat) (hb : b ≠ 10 ∧ b ≠ 13) (r : HttpResponseParser)
    (also : Awaited) : ∃ mark also', follow buffer p b r also = (r.markAt mark).goto (r.parser.cs.and also') := by
  cases also with
  | spaces known =>
    by_cases hspace : Kv.isSpace b = true
    · exact ⟨r.parser.mark, some (.spaces known), if_pos hspace⟩
    · by_cases hreads : known.reads [b] = true
      · exact ⟨p, some (.text known [b]), (if_neg hspace).trans (if_pos hreads)⟩
      · exact ⟨r.parser.mark, none, (if_neg hspace).trans (if_neg hreads)⟩
  | text known text =>
    have hstays : follow buffer p b r (.text known text) =
        if known.reads (text ++ [b]) then r.goto (.both r.parser.cs (.text known (text ++ [b]))) else r :=
      (if_neg fun h => hb.1 h.2).trans (if_neg fun h => hb.2 h.2)
    rw [hstays]
    split
    · exact ⟨r.parser.mark, some (.text known (text ++ [b])), rfl⟩
    · exact ⟨r.parser.mark, none, rfl⟩
  | lf known => exact ⟨r.parser.mark, none, if_neg hb.1⟩

/-- Inside a name that began at `start`, whatever else is awaited. -/
structure InName (start : Nat) (v : ClientView) (text : Bytes) (r : HttpResponseParser) : Prop where
  starts : r.parser.fieldStart = start
  views : ∃ also, r.view = { v with cs := (ClientState.name text).and also }

variable {buffer text : Bytes} {v : ClientView}

/-- A byte of a name, which is read next to what is awaited. -/
theorem inName_one {start p : Nat} (hb : isToken b = true)
    {r next : HttpResponseParser} {cs : ClientState} {also : Option Awaited} (hcs : r.parser.cs = cs.and also)
    (halone : ∀ cs' also', cs ≠ .both cs' also') (hnext : advance buffer p b (r.goto cs) = next)
    (hstart : next.parser.fieldStart = start) (hview : next.view = { v with cs := .name text }) :
    ∃ r', machine.Passes buffer p [b] r r' ∧ InName start v text r' := by
  have hlive : ∀ also : Option Awaited, (ClientState.name text).and also ≠ .error ∧
      ((ClientState.name text).and also).done = false := by
    intro also
    cases also <;> exact ⟨nofun, rfl⟩
  have hncs : next.parser.cs = .name text := congrArg ClientView.cs hview
  obtain ⟨mark, also', hstep⟩ : ∃ mark also', step buffer p b r = (next.markAt mark).goto (next.parser.cs.and also') := by
    subst hnext
    cases also with
    | none =>
      have hself : r.goto cs = r := by
        rw [show cs = r.parser.cs from hcs.symm]
        rfl
      refine ⟨(advance buffer p b r).parser.mark, none, ?_⟩
      rw [hself]
      unfold step
      split
      next hboth => exact absurd (hcs.symm.trans hboth) (halone _ _)
      · rfl
    | some also =>
      have hfollow : step buffer p b r = follow buffer p b (advance buffer p b (r.goto cs)) also := by
        unfold step
        rw [hcs]
        rfl
      rw [hfollow]
      exact follow_inside buffer p ⟨ne_of_class hb rfl, ne_of_class hb rfl⟩ _ also
  rw [hncs] at hstep
  refine ⟨_, .one hstep (decide_eq_false (hlive also').1) (hlive also').2, hstart, also', ?_⟩
  exact congrArg (fun w : ClientView => { w with cs := (ClientState.name text).and also' }) hview

theorem name_passes {buffer more : Bytes} (hmore : ∀ b ∈ more, isToken b = true) {start p : Nat}
    {text : Bytes} (h : InName start v text r) :
    ∃ r', machine.Passes buffer p more r r' ∧ InName start v (text ++ more) r' := by
  induction more generalizing p text r with
  | nil => exact ⟨r, .nil, by rwa [List.append_nil]⟩
  | cons b more ih =>
    have hb : isToken b = true := hmore b List.mem_cons_self
    have hcolon : b ≠ 58 := ne_of_class hb rfl
    obtain ⟨also, hview⟩ := h.views
    obtain ⟨r1, hfirst, hr1⟩ : ∃ r', machine.Passes buffer p [b] r r' ∧ InName start v (text ++ [b]) r' :=
      inName_one hb (congrArg ClientView.cs hview) nofun ((if_neg hcolon).trans (if_pos hb)) h.starts
        (congrArg (fun w : ClientView => { w with cs := .name (text ++ [b]) }) hview)
    obtain ⟨r', hpasses, hr'⟩ := ih (fun x hx => hmore x (List.mem_cons_of_mem b hx)) (p := p + 1) hr1
    rw [List.append_assoc] at hr'
    exact ⟨r', hfirst.append hpasses, hr'⟩

theorem value_passes {buffer : Bytes} {more : Bytes} (hmore : ∀ b ∈ more, b ≠ 10 ∧ b ≠ 13) {coding : Bool}
    {text : Bytes} (hcs : r.parser.cs = .value coding text) :
    machine.Passes buffer p more r (r.goto (.value coding (text ++ more))) := by
  induction more generalizing p text r with
  | nil =>
    rw [List.append_nil, ← hcs]
    exact .nil
  | cons b more ih =>
    obtain ⟨hlf, hcr⟩ := hmore b List.mem_cons_self
    have hstep : machine.step buffer p b r = r.goto (.value coding (text ++ [b])) := by
      show step buffer p b r = _
      unfold step advance
      rw [hcs]
      exact (if_neg hlf).trans (if_neg hcr)
    refine .head hstep rfl rfl ?_
    have hrest : machine.Passes buffer (p + 1) more _
        ((r.goto (.value coding (text ++ [b]))).goto (.value coding (text ++ [b] ++ more))) :=
      ih (fun x hx => hmore x (List.mem_cons_of_mem b hx)) rfl
    rwa [List.append_assoc] at hrest

theorem spaces_passes {buffer : Bytes} {blanks : Bytes} (hblanks : ∀ b ∈ blanks, isBlank b = true)
    {known : Option Known} (hcs : r.parser.cs = .spaces known) :
    ∃ q, machine.Passes buffer p blanks r (r.markAt q) := by
  induction blanks generalizing p r with
  | nil => exact ⟨r.parser.mark, .nil⟩
  | cons b blanks ih =>
    have hb : isBlank b = true := hblanks b List.mem_cons_self
    have hlf : b ≠ 10 := ne_of_class hb rfl
    have hcr : b ≠ 13 := ne_of_class hb rfl
    have hstep : machine.step buffer p b r = r.markAt p := by
      show step buffer p b r = _
      unfold step advance
      rw [hcs]
      exact (if_neg hlf).trans ((if_neg hcr).trans (if_pos hb))
    obtain ⟨q, hpasses⟩ := ih (fun x hx => hblanks x (List.mem_cons_of_mem b hx)) (p := p + 1) (r := r.markAt p) hcs
    exact ⟨q, .head hstep (by simp [machine, markAt, hcs]) (by simp [machine, markAt, hcs, ClientState.done]) hpasses⟩

theorem onResponseHttpField_eq {field value : Bytes} (hne : field ≠ []) (r : HttpResponseParser) :
    r.onResponseHttpField field value = { r with data := { r.data with headers := r.data.headers.set field value } } :=
  if_neg fun h => hne (List.eq_nil_of_length_eq_zero h)

theorem name_reads (f : Field) {buffer : Bytes} {also : Option Awaited}
    (hcs : r.parser.cs = ClientState.line.and also) :
    ∃ r', machine.Passes buffer p (f.name ++ [58]) r r' ∧ r'.parser.fieldStart = p ∧ r'.parser.fieldLen = f.name.length ∧
      r'.view = { r.view with cs := .spaces (Known.ofName f.name) } := by
  obtain ⟨b, text, hname⟩ := List.exists_cons_of_ne_nil f.named
  have htokens := f.tokens
  rw [hname] at htokens ⊢
  have hb : isToken b = true := htokens b List.mem_cons_self
  have hlf : b ≠ 10 := ne_of_class hb rfl
  have hcr : b ≠ 13 := ne_of_class hb rfl
  obtain ⟨r1, hfirst, hr1⟩ : ∃ r', machine.Passes buffer p [b] r r' ∧ InName p r.view [b] r' :=
    inName_one hb hcs nofun ((if_neg hlf).trans ((if_neg hcr).trans (if_pos hb))) rfl rfl
  obtain ⟨r2, hrest, hstart, also', hview⟩ :
      ∃ r', machine.Passes buffer (p + 1) text r1 r' ∧ InName p r.view (b :: text) r' :=
    name_passes (fun x hx => htokens x (List.mem_cons_of_mem b hx)) hr1
  have hcolon : machine.step buffer (p + (b :: text).length) 58 r2 =
      (r2.writeField (p + (b :: text).length)).goto (.spaces (Known.ofName (b :: text))) := by
    have hcs2 : r2.parser.cs = (ClientState.name (b :: text)).and also' := congrArg ClientView.cs hview
    show step buffer _ 58 r2 = _
    unfold step
    rw [hcs2]
    cases also' with
    | none =>
      unfold advance
      rw [show r2.parser.cs = .name (b :: text) from hcs2]
      rfl
    | some also' => exact follow_colon buffer _ _ also'
  refine ⟨_, (hfirst.append hrest).append (.one hcolon rfl rfl), hstart, ?_, ?_⟩
  · show p + (b :: text).length - r2.parser.fieldStart = (b :: text).length
    rw [hstart, Nat.add_sub_cancel_left]
  · exact congrArg (fun w : ClientView => { w with cs := .spaces (Known.ofName (b :: text)) }) hview

theorem writeValue_eq {buffer name value : Bytes} (hname : name ≠ [])
    (hlies : Lies buffer r.parser.fieldStart name) (hlen : r.parser.fieldLen = name.length)
    (hvalue : Lies buffer r.parser.mark value) (hp : p - r.parser.mark = value.length) :
    r.writeValue buffer p = { r with data := { r.data with headers := r.data.headers.set name value } } := by
  unfold writeValue
  rw [hlen, hlies.slice, hp, hvalue.slice]
  exact onResponseHttpField_eq hname r

theorem value_reads {buffer name value : Bytes} (hname : name ≠ []) (hvalue : ∀ b ∈ value, b ≠ 10 ∧ b ≠ 13)
    (hfirst : ∀ b ∈ value.head?, isBlank b = false) {known : Option Known}
    (hcs : r.parser.cs = .spaces known) (hlies : Lies buffer r.parser.fieldStart name)
    (hlen : r.parser.fieldLen = name.length) (hp : Lies buffer p (value ++ [13])) :
    ∃ r', machine.Passes buffer p (value ++ [13]) r r' ∧
      r'.view = { r.view with
        cs := (ClientState.lf (codes (known = some .chunked) value)).and (if value = [] then known.map .spaces else none)
        data := { r.data with headers := r.data.headers.set name value } } := by
  cases value with
  | nil =>
    have hstep : machine.step buffer p 13 r =
        ((r.markAt p).writeValue buffer p).goto ((ClientState.lf false).and (known.map .spaces)) := by
      show step buffer p 13 r = _
      unfold step advance
      rw [hcs]
      rfl
    have hwrite := writeValue_eq (r := r.markAt p) (p := p) hname hlies hlen hp.left (Nat.sub_self p)
    refine ⟨_, .one hstep (by cases known <;> rfl) (by cases known <;> rfl), ?_⟩
    rw [hwrite, show codes (known = some .chunked) [] = false from Bool.and_false _]
    rfl
  | cons b text =>
    obtain ⟨hlf, hcr⟩ := hvalue b List.mem_cons_self
    have hblank : isBlank b = false := hfirst b rfl
    have hstep : machine.step buffer p b r = (r.markAt p).goto (.value (known = some .chunked) [b]) := by
      show step buffer p b r = _
      unfold step advance
      rw [hcs]
      exact (if_neg hlf).trans ((if_neg hcr).trans (if_neg (by rw [hblank]; exact Bool.false_ne_true)))
    have hwrite := writeValue_eq (r := (r.markAt p).goto (.value (known = some .chunked) (b :: text))) (p := p + 1 + text.length) hname
      hlies hlen hp.left (show p + 1 + text.length - p = text.length + 1 by omega)
    refine ⟨_, .head hstep rfl rfl
      (.append (value_passes (fun x hx => hvalue x (List.mem_cons_of_mem b hx)) rfl) (.one rfl rfl rfl)), ?_⟩
    show view ((writeValue buffer ((r.markAt p).goto (.value (known = some .chunked) (b :: text)))
      (p + 1 + text.length)).goto (.lf (codes (known = some .chunked) (b :: text)))) = _
    rw [hwrite]
    rfl

theorem field_reads (f : Field) (also : Option Awaited) :
    machine.Reads view (f.name ++ 58 :: f.text ++ [13]) ⟨ClientState.line.and also, c, e, d⟩
      ⟨(ClientState.lf f.codes).and f.awaits, c, e, { d with headers := d.headers.set f.name f.value }⟩ := by
  intro buffer p r hlies hr
  have hsplit : f.name ++ 58 :: f.text ++ [13] = (f.name ++ [58]) ++ (f.text.takeWhile isBlank ++ (f.value ++ [13])) := by
    rw [← List.append_assoc (f.text.takeWhile isBlank), Field.value, List.takeWhile_append_dropWhile, List.append_assoc,
      List.append_assoc]
    rfl
  rw [hsplit] at hlies ⊢
  have hblanks : ∀ b ∈ f.text.takeWhile isBlank, isBlank b = true := fun b hb => List.mem_takeWhile_imp hb
  have hvalue : ∀ b ∈ f.value, b ≠ 10 ∧ b ≠ 13 := fun b hb => f.oneLine b ((List.dropWhile_sublist isBlank).mem hb)
  have hfirst : ∀ b ∈ f.value.head?, isBlank b = false := by
    intro b hb
    have hnot := List.head?_dropWhile_not isBlank f.text
    rw [show f.text.dropWhile isBlank = f.value from rfl, hb] at hnot
    simpa using hnot
  obtain ⟨r1, hname, hstart, hlen, hview⟩ := name_reads f (p := p) (congrArg ClientView.cs hr)
  obtain ⟨q, hspaces⟩ := spaces_passes hblanks (p := p + (f.name ++ [58]).length)
    (congrArg ClientView.cs hview)
  obtain ⟨r2, hlast, hview2⟩ := value_reads (r := r1.markAt q) f.named hvalue hfirst (congrArg ClientView.cs hview)
    (by rw [show (r1.markAt q).parser.fieldStart = p from hstart]; exact hlies.left.left) hlen hlies.right.right
  refine ⟨r2, hname.append (hspaces.append hlast), hview2.trans ?_⟩
  have hdata : r1.data = d := (congrArg ClientView.data hview).trans (congrArg ClientView.data hr)
  have hview1 : (r1.markAt q).view = _ := hview.trans (by rw [hr])
  rw [hview1, show (r1.markAt q).data = d from hdata]
  rfl

theorem goes_and {cs : ClientState} (h : cs ≠ .error ∧ cs ≠ .final) (also : Option Awaited) :
    Goes ⟨cs.and also, c, 0, d⟩ := by
  cases also with
  | none => exact ⟨h.1, h.2, rfl⟩
  | some also => exact ⟨nofun, nofun, rfl⟩

theorem fields_chain (fields : List Field) (also : Option Awaited) :
    machine.Chain view Goes (fields.flatMap Field.units) ⟨ClientState.line.and also, c, 0, d⟩
      ⟨ClientState.line.and (fields.foldl (fun _ f => f.awaits) also), c || fields.any Field.codes, 0,
        { d with headers := fields.foldl (fun m f => m.set f.name f.value) d.headers }⟩ := by
  have hline : ClientState.line ≠ .error ∧ ClientState.line ≠ .final := ⟨nofun, nofun⟩
  induction fields generalizing c d also with
  | nil =>
    rw [List.any_nil, Bool.or_false]
    exact .nil (goes_and hline also)
  | cons f fields ih =>
    obtain ⟨known, hawaits⟩ : ∃ known : Option Known, f.awaits = known.map .spaces := by
      unfold Field.awaits
      split
      · exact ⟨_, rfl⟩
      · exact ⟨none, rfl⟩
    have hfield := field_reads (c := c) (e := 0) (d := d) f also
    rw [hawaits] at hfield
    rw [List.any_cons, ← Bool.or_assoc, List.foldl_cons, hawaits]
    have hlf : ClientState.lf f.codes ≠ .error ∧ ClientState.lf f.codes ≠ .final := ⟨nofun, nofun⟩
    exact .cons (goes_and hline also) hfield (.cons (goes_and hlf _) (lf_reads known) (ih _))

/-! ### The head -/

theorem cr_reads : machine.Reads view [13] ⟨.line, c, e, d⟩ ⟨.lastLf, c, e, d⟩ := by
  intro buffer p r _ hr
  obtain ⟨⟨cs, contentLen, chunked, chunksDone, mark, fieldStart, fieldLen⟩, error, data⟩ := r
  cases hr
  exact ⟨_, .one rfl rfl rfl, rfl⟩

theorem reasonUnits_chain {reason : Bytes} (hreason : ∀ b ∈ reason, b ≠ 10 ∧ b ≠ 13) :
    machine.Chain view Goes (if reason = [] then [[13, 10]] else [reason ++ [13], [10]]) ⟨.reason, c, 0, d⟩
      ⟨.line, c, 0, { d with reason := if reason = [] then [13] else reason }⟩ := by
  by_cases hempty : reason = []
  · rw [if_pos hempty, if_pos hempty]
    exact .one (by simp [Goes]) emptyReason_reads (by simp [Goes])
  · rw [if_neg hempty, if_neg hempty]
    refine .cons (by simp [Goes]) (reason_reads hempty hreason) (.one (by simp [Goes]) ?_ (by simp [Goes]))
    have hlf : machine.Reads view [10] ⟨.lf false, c, 0, { d with reason := reason }⟩
        ⟨.line, c || false, 0, { d with reason := reason }⟩ := lf_reads none
    rwa [Bool.or_false] at hlf

theorem head_chain (h : ResponseHead) (hsettled : h.awaits = none) :
    ∃ us, h.units = us ++ [[10]] ∧ machine.Chain view Goes us ⟨.start, false, 0, new.data⟩
      ⟨.lastLf, h.fields.any Field.codes, 0, h.response⟩ := by
  refine ⟨_, List.append_assoc _ [[13]] [[10]] |>.symm, ?_⟩
  have hfirst : machine.Chain view Goes [h.versionText ++ [32], h.status ++ [32]] ⟨.start, false, 0, new.data⟩ _ :=
    .cons (by simp [Goes]) (version_reads h) (.one (by simp [Goes]) (status_reads h) (by simp [Goes]))
  have hfields : ∀ d, machine.Chain view Goes (h.fields.flatMap Field.units) ⟨.line, false, 0, d⟩
      ⟨.line, false || h.fields.any Field.codes, 0,
        { d with headers := h.fields.foldl (fun m f => m.set f.name f.value) d.headers }⟩ := by
    intro d
    have hchain := fields_chain (c := false) (d := d) h.fields none
    rwa [show h.fields.foldl (fun _ f => f.awaits) none = none from hsettled] at hchain
  refine ((hfirst.append (reasonUnits_chain h.oneLine)).append (hfields _)).append
    (.one (by simp [Goes]) ?_ (by simp [Goes]))
  rw [Bool.false_or]
  exact cr_reads

/-! ### Chunk sizes -/

variable {n : Int} {done : Bool}

/-- Where the machine is behind the byte that ends a part of the line. -/
def behind (b : UInt8) : ClientState := if b = 13 then .lastLf else .ext

theorem strtol16_append {ds tail : Bytes} (hds : ∀ b ∈ ds, isXdigit b = true) (hb : isXdigit b = false) :
    strtol16 (ds ++ b :: tail) = Kv.clamp64 (ds.foldl (fun n d => n * 16 + hexVal d) 0 : Nat) := by
  unfold strtol16
  rw [List.takeWhile_append_of_pos hds, List.takeWhile_cons_of_neg (by rw [hb]; exact Bool.false_ne_true), List.append_nil]

theorem digits_reads (l : SizeLine) (hb : b = 13 ∨ b = 59) :
    machine.Reads sizeView (l.digits ++ [b]) ⟨.start, n, done, e, d⟩
      ⟨behind b, Kv.i32 (Kv.clamp64 l.size), decide (Kv.i32 (Kv.clamp64 l.size) ≤ 0), e, d⟩ := by
  intro buffer p r hlies hr
  obtain ⟨⟨cs, contentLen, chunked, chunksDone, mark, fieldStart, fieldLen⟩, error, data⟩ := r
  cases hr
  obtain ⟨hne, hhex⟩ := l.hex
  obtain ⟨rest, hrest⟩ := hlies
  have hsize : strtol16 (buffer.drop p) = Kv.clamp64 l.size := by
    rw [← hrest, List.append_assoc]
    exact strtol16_append hhex (by rcases hb with rfl | rfl <;> rfl)
  obtain ⟨x, digits, hdigits⟩ := List.exists_cons_of_ne_nil hne
  rw [hdigits] at hhex ⊢
  have hx : isXdigit x = true := hhex x List.mem_cons_self
  have h72 : x ≠ 72 := ne_of_class hx rfl
  have hstay : ∀ y ∈ digits, ∀ q (r : HttpResponseParser), r.parser.cs = .size → machine.step buffer q y r = r := by
    intro y hy q r hcs
    have hy : isXdigit y = true := hhex y (List.mem_cons_of_mem x hy)
    have h10 : y ≠ 10 := ne_of_class hy rfl
    have h13 : y ≠ 13 := ne_of_class hy rfl
    have h59 : y ≠ 59 := ne_of_class hy rfl
    show step buffer q y r = r
    unfold step advance
    rw [hcs]
    exact (if_neg h10).trans ((if_neg h13).trans ((if_neg h59).trans (if_pos hy)))
  have hlast : ∀ q (r : HttpResponseParser), r.parser.cs = .size →
      machine.step buffer q b r = (r.chunkSize buffer).goto (behind b) := by
    intro q r hcs
    show step buffer q b r = _
    unfold step advance
    rw [hcs]
    rcases hb with rfl | rfl <;> rfl
  have hlive : behind b ≠ .error ∧ (behind b).done = false := by rcases hb with rfl | rfl <;> decide
  refine ⟨_, .head ((if_neg h72).trans (if_pos hx)) rfl rfl (.append (.stay (fun y hy q => hstay y hy q _ rfl) rfl rfl)
    (.one (hlast _ _ rfl) (decide_eq_false hlive.1) hlive.2)), ?_⟩
  show SizeView.mk (behind b) (Kv.i32 (strtol16 (buffer.drop p))) (decide (Kv.i32 (strtol16 (buffer.drop p)) ≤ 0)) error data = _
  rw [hsize]

theorem token_stays (htext : ∀ b ∈ text, isToken b = true)
    (hcs : r.parser.cs = .extName ∨ r.parser.cs = .extText) : machine.Passes buffer p text r r := by
  refine .stay ?_ (by rcases hcs with h | h <;> simp [machine, h]) (by rcases hcs with h | h <;> simp [machine, h, ClientState.done])
  intro b hb q
  have hb : isToken b = true := htext b hb
  have h10 : b ≠ 10 := ne_of_class hb rfl
  have h13 : b ≠ 13 := ne_of_class hb rfl
  have h59 : b ≠ 59 := ne_of_class hb rfl
  have h61 : b ≠ 61 := ne_of_class hb rfl
  show step buffer q b r = r
  unfold step advance
  rcases hcs with h | h
  · rw [h]
    exact (if_neg h10).trans ((if_neg h13).trans ((if_neg h59).trans ((if_neg h61).trans (if_pos hb))))
  · rw [h]
    exact (if_neg h10).trans ((if_neg h13).trans ((if_neg h59).trans (if_pos hb)))

theorem extName_passes (hne : text ≠ []) (htext : ∀ b ∈ text, isToken b = true) (hcs : r.parser.cs = .ext) :
    machine.Passes buffer p text r ((r.startField p).goto .extName) := by
  obtain ⟨b, text, rfl⟩ := List.exists_cons_of_ne_nil hne
  have hstep : machine.step buffer p b r = (r.startField p).goto .extName := by
    show step buffer p b r = _
    unfold step advance
    rw [hcs]
    exact if_pos (htext b List.mem_cons_self)
  exact .head hstep rfl rfl (token_stays (fun x hx => htext x (List.mem_cons_of_mem b hx)) (.inl rfl))

theorem extText_passes (hne : text ≠ []) (htext : ∀ b ∈ text, isToken b = true) (hcs : r.parser.cs = .extValue) :
    machine.Passes buffer p text r ((r.markAt p).goto .extText) := by
  obtain ⟨b, text, rfl⟩ := List.exists_cons_of_ne_nil hne
  have hstep : machine.step buffer p b r = (r.markAt p).goto .extText := by
    show step buffer p b r = _
    unfold step advance
    rw [hcs]
    exact if_pos (htext b List.mem_cons_self)
  exact .head hstep rfl rfl (token_stays (fun x hx => htext x (List.mem_cons_of_mem b hx)) (.inr rfl))

theorem extension_reads (x : ChunkExtension) (hb : b = 13 ∨ b = 59) :
    machine.Reads sizeView (x.text ++ [b]) ⟨.ext, n, done, e, d⟩
      ⟨behind b, n, done, e, { d with headers := d.headers.set x.name (x.value.getD []) }⟩ := by
  intro buffer p r hlies hr
  have hcs : r.parser.cs = .ext := congrArg SizeView.cs hr
  obtain ⟨hne, htokens⟩ := x.named
  have hlive : behind b ≠ .error ∧ (behind b).done = false := by rcases hb with rfl | rfl <;> decide
  have hname : machine.Passes buffer p x.name r _ := extName_passes hne htokens hcs
  cases hvalue : x.value with
  | none =>
    have htext : x.text = x.name := by
      unfold ChunkExtension.text
      rw [hvalue]
      exact List.append_nil _
    rw [htext] at hlies ⊢
    have hlast : ∀ q (r : HttpResponseParser), r.parser.cs = .extName →
        machine.step buffer q b r = (((r.writeField q).markAt q).writeValue buffer q).goto (behind b) := by
      intro q r hcs
      show step buffer q b r = _
      unfold step advance
      rw [hcs]
      rcases hb with rfl | rfl <;> rfl
    refine ⟨_, hname.append (.one (hlast _ _ rfl) (decide_eq_false hlive.1) hlive.2), ?_⟩
    have hend : Lies buffer (p + x.name.length) [] := List.nil_prefix
    rw [writeValue_eq hne hlies.left (Nat.add_sub_cancel_left p _) hend (Nat.sub_self _)]
    obtain ⟨⟨_, _, _, _, _, _, _⟩, _, _⟩ := r
    cases hr
    rfl
  | some v =>
    obtain ⟨hv, hvtokens⟩ := x.valued v hvalue
    have htext : x.text = x.name ++ ([61] ++ v) := by
      unfold ChunkExtension.text
      rw [hvalue]
      rfl
    rw [htext, List.append_assoc, List.append_assoc] at hlies ⊢
    have hlast : ∀ q (r : HttpResponseParser), r.parser.cs = .extText →
        machine.step buffer q b r = (r.writeValue buffer q).goto (behind b) := by
      intro q r hcs
      show step buffer q b r = _
      unfold step advance
      rw [hcs]
      rcases hb with rfl | rfl <;> rfl
    have hequals : ∀ q (r : HttpResponseParser), r.parser.cs = .extName →
        machine.step buffer q 61 r = ((r.writeField q).markAt q).goto .extValue := by
      intro q r hcs
      show step buffer q 61 r = _
      unfold step advance
      rw [hcs]
      rfl
    refine ⟨_, hname.append (.append (.one (hequals _ _ rfl) rfl rfl) ((extText_passes hv hvtokens rfl).append
      (.one (hlast _ _ rfl) (decide_eq_false hlive.1) hlive.2))), ?_⟩
    have hlength : p + x.name.length + [61].length + v.length - (p + x.name.length + [61].length) = v.length :=
      Nat.add_sub_cancel_left _ _
    rw [writeValue_eq hne hlies.left (Nat.add_sub_cancel_left p _) hlies.right.right.left hlength]
    obtain ⟨⟨_, _, _, _, _, _, _⟩, _, _⟩ := r
    cases hr
    rfl

theorem extensions_reads (x : ChunkExtension) (more : List ChunkExtension) :
    machine.Reads sizeView (x.text ++ (more.flatMap (fun y => 59 :: y.text) ++ [13])) ⟨.ext, n, done, e, d⟩
      ⟨.lastLf, n, done, e,
        { d with headers := (x :: more).foldl (fun m y => m.set y.name (y.value.getD [])) d.headers }⟩ := by
  induction more generalizing x d with
  | nil => exact extension_reads x (.inl rfl)
  | cons y more ih =>
    have hparts : x.text ++ ((y :: more).flatMap (fun y => 59 :: y.text) ++ [13]) =
        (x.text ++ [59]) ++ (y.text ++ (more.flatMap (fun y => 59 :: y.text) ++ [13])) := by
      rw [List.flatMap_cons, List.append_assoc, List.append_assoc]
      rfl
    rw [hparts]
    exact (extension_reads x (.inr rfl)).append (ih y)

theorem sizeLine_reads (l : SizeLine) :
    machine.Reads sizeView (l.digits ++ (l.extensions.flatMap (fun x => 59 :: x.text) ++ [13])) ⟨.start, n, done, e, d⟩
      ⟨.lastLf, Kv.i32 (Kv.clamp64 l.size), decide (Kv.i32 (Kv.clamp64 l.size) ≤ 0), e,
        { d with headers := l.headers d.headers }⟩ := by
  unfold SizeLine.headers
  cases l.extensions with
  | nil => exact digits_reads l (.inl rfl)
  | cons x more =>
    have hparts : l.digits ++ ((x :: more).flatMap (fun x => 59 :: x.text) ++ [13]) =
        (l.digits ++ [59]) ++ (x.text ++ (more.flatMap (fun y => 59 :: y.text) ++ [13])) := by
      rw [List.flatMap_cons, List.append_assoc, List.append_assoc]
      rfl
    rw [hparts]
    exact (digits_reads l (.inr rfl)).append (extensions_reads x more)

/-! ### Executions -/

theorem execute_of_exec {r r' : HttpResponseParser} {data left : Bytes} {chunck : Bool} {n : Nat}
    (h : machine.exec data 0 data { r with parser := (if chunck then .init else r.parser).again } = (r', n))
    (hleft : data.drop n = left) : r.execute data chunck = (r', left) := by
  unfold execute
  rw [h, ← hleft]

theorem execute_units {us : List Bytes} {v v' : ClientView} (h : machine.Chain view Goes us v v')
    (hr : r.view = v) : ∃ r', r.execute us.flatten false = (r', []) ∧ r'.view = v' := by
  obtain ⟨r', hpasses, hview⟩ := h.reads us.flatten 0 { r with parser := r.parser.again } List.prefix_rfl hr
  refine ⟨r', execute_of_exec hpasses.exec_all ?_, hview⟩
  rw [Nat.zero_add, List.drop_length]

theorem lastLf_exec {buffer left : Bytes} (hcs : r.parser.cs = .lastLf) :
    machine.exec buffer p (10 :: left) r = (r.goto .final, p + 1) := by
  have hstep : machine.step buffer p 10 r = r.goto .final := by
    show step buffer p 10 r = _
    unfold step advance
    rw [hcs]
    rfl
  exact Machine.exec_finish hstep rfl rfl left

theorem drop_past (xs : Bytes) (b : UInt8) (ys : Bytes) : (xs ++ b :: ys).drop (0 + xs.length + 1) = ys := by
  rw [Nat.zero_add, ← List.drop_drop, List.drop_left]
  rfl

theorem execute_last {us : List Bytes} (h : machine.Chain view Goes us v ⟨.lastLf, c, e, d⟩) (left : Bytes) (hr : r.view = v) :
    ∃ r', r.execute (us.flatten ++ 10 :: left) false = (r', left) ∧ r'.view = ⟨.final, c, e, d⟩ := by
  obtain ⟨r1, hpasses, hview⟩ := h.reads (us.flatten ++ 10 :: left) 0 { r with parser := r.parser.again }
    (List.prefix_append _ _) hr
  refine ⟨r1.goto .final, ?_, ?_⟩
  · exact execute_of_exec ((hpasses.exec_eq (10 :: left)).trans (lastLf_exec (congrArg ClientView.cs hview)))
      (drop_past _ _ _)
  · show ClientView.mk .final (view r1).chunked (view r1).error (view r1).data = _
    rw [hview]

theorem execute_sizeLine (l : SizeLine) (left : Bytes) (r : HttpResponseParser) :
    ∃ r', r.execute (l.bytes ++ left) true = (r', left) ∧
      r'.sizeView = ⟨.final, Kv.i32 (Kv.clamp64 l.size), decide (Kv.i32 (Kv.clamp64 l.size) ≤ 0), r.error,
        { r.data with headers := l.headers r.data.headers }⟩ := by
  have hparts : l.bytes ++ left = l.digits ++ (l.extensions.flatMap (fun x => 59 :: x.text) ++ [13]) ++ 10 :: left := by
    unfold SizeLine.bytes
    simp only [List.append_assoc, List.cons_append, List.nil_append]
  rw [hparts]
  obtain ⟨r1, hpasses, hview⟩ := sizeLine_reads l _ 0 { r with parser := HttpClientParser.init.again }
    (List.prefix_append _ (10 :: left)) rfl
  refine ⟨r1.goto .final, ?_, ?_⟩
  · exact execute_of_exec ((hpasses.exec_eq (10 :: left)).trans (lastLf_exec (congrArg SizeView.cs hview)))
      (drop_past _ _ _)
  · show SizeView.mk .final (sizeView r1).contentLen (sizeView r1).chunksDone (sizeView r1).error (sizeView r1).data = _
    rw [hview]

end HttpResponseParser

end Http
