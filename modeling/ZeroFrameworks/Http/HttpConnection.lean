import ZeroFrameworks.Core.Stream
import ZeroFrameworks.Http.HttpClientParser

/-!
# Receiving a chunked response

`recvResponse` reads the head, and then the chunks, into a buffer of `N` bytes.  The line with the size of a chunk is
parsed from its beginning whenever more of it has come, but what was there before is gone.

    r.Whole N s → recvResponse inflate N s = some (rsp, s') with rsp.body = r.body   (recvResponse_chunked)
-/

namespace Http

open Kv (Bytes lit)
open Core (Stream)

/-! ## Algorithm -/

namespace HttpConnection

/-- The first loop, which has `data` in the buffer.  Every turn reads a byte at least. -/
def recvHead (N : Nat) : Nat → HttpResponseParser → Bytes → Stream → Option (HttpResponseParser × Bytes × Stream)
  | 0, _, _, _ => none
  | fuel + 1, parser, data, s =>
    match s.read (N - data.length) with
    | none => none
    | some (got, s) =>
      let (parser, data) := parser.execute (data ++ got) false
      if parser.hasError then none
      else if (data.length : Int) = Kv.i32 N then none
      else if parser.isFinished then some (parser, data, s)
      else recvHead N fuel parser data s

/-- What the parser is given in a turn of the loop that reads the size of a chunk. -/
def fill (N : Nat) (begin : Bool) (data : Bytes) (s : Stream) : Option (Bytes × Stream) :=
  if !begin || data.isEmpty then (s.read (N - data.length)).map fun (got, s) => (data ++ got, s) else some (data, s)

/-- The loop that reads the size of a chunk.  Every turn but the first reads a byte at least. -/
def recvSize (N : Nat) :
    Nat → Bool → HttpResponseParser → Bytes → Stream → Option (HttpResponseParser × Bytes × Stream)
  | 0, _, _, _, _ => none
  | fuel + 1, begin, parser, data, s =>
    match fill N begin data s with
    | none => none
    | some (data, s) =>
      let (parser, data) := parser.execute data true
      if parser.hasError then none
      else if (data.length : Int) = Kv.i32 N then none
      else if parser.isFinished then some (parser, data, s)
      else recvSize N fuel false parser data s

/-- The loop that reads what is left of a chunk. -/
def recvLeft (N : Nat) : Nat → Int → Bytes → Stream → Option (Bytes × Stream)
  | fuel, left, body, s =>
    if left ≤ 0 then some (body, s)
    else
      match fuel with
      | 0 => none
      | fuel + 1 =>
        match s.read (min left (Kv.i32 N)).toNat with
        | none => none
        | some (got, s) => recvLeft N fuel (left - got.length) (body ++ got) s

/-- The data of a chunk and its line end; the body, what is left in the buffer, and the stream.  `none` also where the
code reads past the buffer or throws. -/
def recvData (N : Nat) (contentLen : Int) (body data : Bytes) (s : Stream) : Option (Bytes × Bytes × Stream) :=
  if Kv.i32 (contentLen + 2) ≤ data.length then
    if 0 ≤ contentLen ∧ contentLen + 2 ≤ data.length then
      some (body ++ data.take contentLen.toNat, data.drop (contentLen.toNat + 2), s)
    else none
  else
    match recvLeft N (contentLen - data.length + 2).toNat (contentLen - data.length + 2) (body ++ data) s with
    | none => none
    | some (body, s) => if body.length < 2 then none else some (body.take (body.length - 2), [], s)

/-- The bytes that are still to come. -/
def pending (s : Stream) : Nat := s.input.flatten.length

/-- The loop over the chunks.  Every turn takes a byte at least out of the buffer and the stream. -/
def recvChunks (N : Nat) :
    Nat → HttpResponseParser → Bytes → Bytes → Stream → Option (HttpResponseParser × Bytes × Stream)
  | 0, _, _, _, _ => none
  | fuel + 1, parser, body, data, s =>
    match recvSize N (pending s + 2) true parser data s with
    | none => none
    | some (parser, data, s) =>
      match recvData N parser.parser.contentLen body data s with
      | none => none
      | some (body, data, s) =>
        if parser.parser.chunksDone then some (parser, body, s) else recvChunks N fuel parser body data s

/-- A body with a length, of which `data` is in the buffer. -/
def recvLength (length : Int) (data : Bytes) (s : Stream) : Option (Bytes × Stream) :=
  if 0 < length then
    if length ≤ data.length then some (data.take length.toNat, s)
    else (s.readFixSize (length - data.length).toNat).map fun (got, s) => (data ++ got, s)
  else some ([], s)

/-- What `ZlibStream` makes of a body; `inflate true` is that of gzip. -/
def decode (inflate : Bool → Bytes → Bytes) (encoding body : Bytes) : Bytes :=
  if nameKey encoding = lit "gzip" then inflate true body
  else if nameKey encoding = lit "deflate" then inflate false body
  else body

/-- `recvResponse`; `none` where it closes the connection and returns `nullptr`. -/
def recvResponse (inflate : Bool → Bytes → Bytes) (N : Nat) (s : Stream) : Option (HttpResponse × Stream) :=
  match recvHead N (pending s + 1) .new [] s with
  | none => none
  | some (parser, data, s) =>
    let received :=
      if parser.parser.chunked then recvChunks N (data.length + pending s + 1) parser [] data s
      else (recvLength (Kv.i64 (parser.data.headers.getAsU64 (lit "content-length") 0)) data s).map fun (body, s) =>
        (parser, body, s)
    match received with
    | none => none
    | some (parser, body, s) =>
      let rsp := parser.data
      if body.isEmpty then some (rsp, s)
      else some ({ rsp with body := decode inflate (rsp.headers.get (lit "content-encoding") []) body }, s)

end HttpConnection

/-! ## Specification -/

/-- A chunk: the line with its size, and its data. -/
structure Chunk where
  line : SizeLine
  data : Bytes
  sized : line.size = data.length

def Chunk.bytes (c : Chunk) : Bytes := c.line.bytes ++ (c.data ++ [13, 10])

/-- A response in chunks, of which `last` is the empty one. -/
structure ChunkedResponse where
  head : ResponseHead
  chunks : List Chunk
  last : Chunk
  coded : head.fields.any Field.codes = true
  full : ∀ c ∈ chunks, c.data ≠ []
  ends : last.data = []

namespace HttpConnection

/-- When the line with the size of a chunk is to be read, the parser is given all of it. -/
def LinesWhole (N : Nat) : List Chunk → Bytes → Stream → Prop
  | [], _, _ => True
  | c :: more, data, s =>
    ∃ filled s1, fill N true data s = some (filled, s1) ∧ c.line.bytes <+: filled ∧
      LinesWhole N more (filled.drop c.bytes.length) (s1.skip (c.bytes.length - filled.length))

end HttpConnection

namespace ChunkedResponse

def bytes (r : ChunkedResponse) : Bytes := r.head.units.flatten ++ (r.chunks ++ [r.last]).flatMap Chunk.bytes

def body (r : ChunkedResponse) : Bytes := r.chunks.flatMap Chunk.data

/-- The fields, among which are the extensions of the chunks. -/
def headers (r : ChunkedResponse) : MapType :=
  (r.chunks ++ [r.last]).foldl (fun m c => c.line.headers m) r.head.response.headers

/-- No token of the head is cut by the end of a read, and no line with the size of a chunk.  The sizes leave room for
the line end in an `int`, the buffer has a size that is one, and the body is not compressed.  The last field of the
head is not one whose value the machine looks for behind an empty line. -/
structure Whole (N : Nat) (s : Stream) (r : ChunkedResponse) : Prop where
  buffer : 0 < N ∧ N < 2 ^ 31
  reads : ∃ left s', Stream.Arrives (fun _ => N) [] r.head.units 0 s left s' ∧
    HttpConnection.LinesWhole N (r.chunks ++ [r.last]) left s'
  sizes : ∀ c ∈ r.chunks, c.data.length + 2 < 2 ^ 31
  settled : r.head.awaits = none
  plain : r.body ≠ [] → nameKey (r.headers.get (lit "content-encoding") []) ≠ lit "gzip" ∧
    nameKey (r.headers.get (lit "content-encoding") []) ≠ lit "deflate"

end ChunkedResponse

namespace HttpConnection

open HttpResponseParser (view sizeView Goes machine)

/-! ## Lemmas -/

/-! ### The head -/

theorem pending_eq {s : Stream} {bytes : Bytes} (h : s.Holds bytes) : pending s = bytes.length := by
  unfold pending
  rw [h.bytes]

variable {parser : HttpResponseParser}

theorem hasError_of_view {v : ClientView} (hv : parser.view = v) (herror : v.error = 0)
    (hcs : v.cs ≠ .error) : parser.hasError = false := by
  subst hv
  have hcs : parser.parser.cs ≠ .error := hcs
  unfold HttpResponseParser.hasError
  rw [show parser.error = 0 from herror, decide_eq_false hcs]
  rfl

variable {N : Nat}

/-- What is not consumed does not fill the buffer. -/
theorem ne_i32 (hN : N < 2 ^ 31) {left : Bytes} (h : left.length < N) : (left.length : Int) ≠ Kv.i32 N := by
  rw [Kv.i32_natCast hN]
  omega

theorem append_last {α : Type} {xs ys zs : List α} {z : α} (hne : ys ≠ []) (h : xs ++ ys = zs ++ [z]) :
    ∃ ys', ys = ys' ++ [z] ∧ zs = xs ++ ys' := by
  rcases List.append_eq_append_iff.mp h with ⟨ys', hzs, hys⟩ | ⟨ys', hxs, hz⟩
  · exact ⟨ys', hys, hzs⟩
  · rcases List.append_eq_cons_iff.mp hz.symm with ⟨rfl, hys⟩ | ⟨zs', rfl, hnil⟩
    · exact ⟨[], hys, by rw [hxs, List.append_nil, List.append_nil]⟩
    · exact absurd (List.append_eq_nil_iff.mp hnil.symm).2 hne

variable {s s1 : Stream}

theorem recvHead_turn {N fuel : Nat} {parser parser' : HttpResponseParser} {got left : Bytes}
    (hread : s.read N = some (got, s1)) (hexec : parser.execute got false = (parser', left))
    (herror : parser'.hasError = false) (hleft : (left.length : Int) ≠ Kv.i32 N) :
    recvHead N (fuel + 1) parser [] s =
      if parser'.isFinished then some (parser', left, s1) else recvHead N fuel parser' left s1 := by
  rw [recvHead, List.length_nil, Nat.sub_zero, hread]
  simp only [List.nil_append, hexec, herror, Bool.false_eq_true, if_false, if_neg hleft]

/-- The loop over a head that comes between its units. -/
theorem recvHead_spec (hpos : 0 < N) (hN : N < 2 ^ 31) {units us : List Bytes} {n : Nat} {s s' : Stream}
    {left : Bytes} (ha : Stream.Arrives (fun _ => N) [] units n s left s') (hunits : units = us ++ [[10]])
    {v : ClientView} {c : Bool} {d : HttpResponse} (hchain : machine.Chain view Goes us v ⟨.lastLf, c, 0, d⟩)
    (hv : parser.view = v) {bytes : Bytes} (h : s.Holds bytes) {fuel : Nat}
    (hfuel : bytes.length < fuel) :
    ∃ parser', recvHead N fuel parser [] s = some (parser', left, s') ∧ parser'.view = ⟨.final, c, 0, d⟩ ∧
      left.length < N := by
  generalize hkept : ([] : Bytes) = kept at ha
  induction ha generalizing us v parser bytes fuel with
  | @last kept units n s s' got left hread hgot =>
    subst hkept
    obtain ⟨fuel, rfl⟩ := Nat.exists_eq_add_one_of_ne_zero (Nat.ne_of_gt (Nat.zero_lt_of_lt hfuel))
    have hgot : got = us.flatten ++ 10 :: left := by
      rw [hunits, List.flatten_append, List.append_assoc] at hgot
      exact hgot
    obtain ⟨later, -, -, hlength, -⟩ := Stream.read_holds h hread
    obtain ⟨parser', hexec, hview⟩ := HttpResponseParser.execute_last hchain left hv
    have hleft : left.length < N := by
      rw [hgot, List.length_append, List.length_cons] at hlength
      omega
    refine ⟨parser', ?_, hview, hleft⟩
    have hexec : parser.execute got false = (parser', left) := by
      rw [hgot]
      exact hexec
    rw [recvHead_turn hread hexec (hasError_of_view hview rfl (by simp)) (ne_i32 hN hleft), if_pos]
    exact decide_eq_true (congrArg ClientView.cs hview)
  | @more kept units units' n s s1 s' got left hread hgot hne ha ih =>
    subst hkept
    obtain ⟨fuel, rfl⟩ := Nat.exists_eq_add_one_of_ne_zero (Nat.ne_of_gt (Nat.zero_lt_of_lt hfuel))
    obtain ⟨later, rfl, hgotne, -, hlater⟩ := Stream.read_holds h hread
    obtain ⟨us', rfl, rfl⟩ := append_last hne hunits
    obtain ⟨v', hfirst, hrest⟩ := hchain.split
    obtain ⟨parser', hexec, hview⟩ := HttpResponseParser.execute_units hfirst hv
    obtain ⟨herrorcs, hfinal, herror⟩ := hrest.begins
    have hfuel : later.length < fuel := by
      have hpos := List.length_pos_iff.mpr hgotne
      rw [List.length_append] at hfuel
      omega
    obtain ⟨parser'', hrecv, hview'', hleft⟩ := ih rfl hrest hview hlater hfuel rfl
    refine ⟨parser'', ?_, hview'', hleft⟩
    have hexec : parser.execute got false = (parser', []) := by
      rw [show got = units.flatten from hgot]
      exact hexec
    rw [recvHead_turn hread hexec (hasError_of_view hview herror herrorcs) (ne_i32 hN hpos), if_neg, hrecv]
    show ¬ decide (parser'.view.cs = .final) = true
    rw [hview, decide_eq_false hfinal]
    exact Bool.false_ne_true

/-! ### A chunk -/

theorem size_eq {n : Nat} (h : n < 2 ^ 31) : Kv.i32 (Kv.clamp64 n) = n := by
  rw [show Kv.clamp64 n = n from by unfold Kv.clamp64; omega, Kv.i32_natCast h]

theorem fill_holds {data filled bytes : Bytes} (h : s.Holds bytes) (hdata : data.length ≤ N)
    (hfill : fill N true data s = some (filled, s1)) :
    ∃ later, s1.Holds later ∧ filled ++ later = data ++ bytes ∧ filled.length ≤ N := by
  unfold fill at hfill
  cases data with
  | nil =>
    obtain ⟨⟨got, s'⟩, hread, hpair⟩ := Option.map_eq_some_iff.mp hfill
    cases hpair
    obtain ⟨later, rfl, -, hlength, hlater⟩ := Stream.read_holds h hread
    exact ⟨later, hlater, rfl, hlength⟩
  | cons b data =>
    cases hfill
    exact ⟨bytes, h, rfl, hdata⟩

theorem recvSize_spec (hN : N < 2 ^ 31) (l : SizeLine) {data left : Bytes}
    (hfill : fill N true data s = some (l.bytes ++ left, s1)) (hlength : (l.bytes ++ left).length ≤ N)
    (herror : parser.error = 0) (fuel : Nat) :
    ∃ parser', recvSize N (fuel + 1) true parser data s = some (parser', left, s1) ∧
      parser'.sizeView = ⟨.final, Kv.i32 (Kv.clamp64 l.size), decide (Kv.i32 (Kv.clamp64 l.size) ≤ 0), 0,
        { parser.data with headers := l.headers parser.data.headers }⟩ := by
  obtain ⟨parser', hexec, hview⟩ := HttpResponseParser.execute_sizeLine l left parser
  rw [herror] at hview
  have hnoerror : parser'.hasError = false := by
    have hcs : parser'.parser.cs ≠ .error := by
      rw [show parser'.parser.cs = .final from congrArg HttpResponseParser.SizeView.cs hview]
      simp
    unfold HttpResponseParser.hasError
    rw [show parser'.error = 0 from congrArg HttpResponseParser.SizeView.error hview, decide_eq_false hcs]
    rfl
  have hfinished : parser'.isFinished = true := decide_eq_true (congrArg HttpResponseParser.SizeView.cs hview)
  have hline : 0 < l.bytes.length := by
    unfold SizeLine.bytes
    rw [List.length_append]
    exact Nat.lt_of_lt_of_le Nat.zero_lt_two (Nat.le_add_left _ _)
  have hleft : left.length < N := by
    rw [List.length_append] at hlength
    omega
  refine ⟨parser', ?_, hview⟩
  rw [recvSize, hfill]
  simp only [hexec, hnoerror, hfinished, Bool.false_eq_true, if_false, if_true, if_neg (ne_i32 hN hleft)]

/-- The loop reads what is left, in as many reads as it takes. -/
theorem recvLeft_spec (hpos : 0 < N) (hN : N < 2 ^ 31) (fuel : Nat) {x rest : Bytes} {s : Stream}
    (h : s.Holds (x ++ rest)) (hfuel : x.length ≤ fuel) (body : Bytes) :
    recvLeft N fuel x.length body s = some (body ++ x, s.skip x.length) := by
  induction fuel generalizing s x body with
  | zero =>
    obtain rfl := List.eq_nil_of_length_eq_zero (Nat.le_zero.mp hfuel)
    rw [recvLeft, if_pos (by simp), List.append_nil, List.length_nil, Stream.skip_zero h.pieces]
  | succ fuel ih =>
    cases hx : x with
    | nil =>
      subst hx
      rw [recvLeft, if_pos (by simp), List.append_nil, List.length_nil, Stream.skip_zero h.pieces]
    | cons b tail =>
      rw [← hx]
      have hxpos : 0 < x.length := by
        rw [hx]
        exact Nat.succ_pos _
      have hne : x ++ rest ≠ [] := by
        rw [hx]
        exact List.cons_ne_nil _ _
      have hask : (min (x.length : Int) (Kv.i32 N)).toNat = min x.length N := by
        rw [Kv.i32_natCast hN]
        omega
      obtain ⟨got, later, s1, hread, heq, hgot, hlength, hholds, -⟩ :=
        Stream.read_spec (n := min x.length N) h (by omega) hne
      obtain ⟨y, rfl, rfl⟩ := Stream.split_of_append_eq heq (by omega)
      have hgotpos := List.length_pos_iff.mpr hgot
      rw [List.length_append] at hfuel
      have hleft : ((got ++ y).length : Int) - got.length = y.length := by
        rw [List.length_append]
        omega
      rw [recvLeft, if_neg (by omega), hask, hread]
      show recvLeft N fuel (((got ++ y).length : Int) - got.length) (body ++ got) s1 = _
      rw [hleft, ih hholds (by omega), List.append_assoc, Stream.read_skip h.pieces hread, Stream.skip_skip h.pieces,
        List.length_append]

/-- The data of a chunk and its line end, whatever part of them is in the buffer. -/
theorem recvData_spec (hpos : 0 < N) (hN : N < 2 ^ 31) {x data later rest : Bytes} {s : Stream}
    (h : s.Holds later) (hsize : x.length + 2 < 2 ^ 31) (hparts : data ++ later = x ++ [13, 10] ++ rest) (body : Bytes) :
    recvData N x.length body data s =
      some (body ++ x, data.drop (x.length + 2), s.skip (x.length + 2 - data.length)) := by
  have hcount : Kv.i32 ((x.length : Int) + 2) = (x.length + 2 : Nat) := Kv.i32_natCast hsize
  have htwo : (x ++ [13, 10]).length = x.length + 2 := List.length_append
  unfold recvData
  rw [hcount]
  by_cases hle : x.length + 2 ≤ data.length
  · have htake : data.take x.length = x := by
      have hprefix : x <+: data ++ later := by
        rw [hparts, List.append_assoc]
        exact List.prefix_append x _
      have := List.prefix_iff_eq_take.mp hprefix
      rw [List.take_append_of_le_length (by omega)] at this
      exact this.symm
    rw [if_pos (by omega), if_pos (by omega), Int.toNat_natCast, htake, Nat.sub_eq_zero_of_le hle, Stream.skip_zero h.pieces]
  · obtain ⟨y, hy, rfl⟩ : ∃ y, x ++ [13, 10] = data ++ y ∧ later = y ++ rest := by
      rcases List.append_eq_append_iff.mp hparts with ⟨y, hy, hlater⟩ | ⟨y, hy, -⟩
      · exact ⟨y, hy, hlater⟩
      · have := congrArg List.length hy
        rw [List.length_append, htwo] at this
        omega
    have hlen : data.length + y.length = x.length + 2 := by rw [← List.length_append, ← hy, htwo]
    have hleft : (x.length : Int) - data.length + 2 = y.length := by omega
    have hrecv := recvLeft_spec hpos hN y.length h (Nat.le_refl _) (body ++ data)
    have htake : (body ++ data ++ y).take ((body ++ data ++ y).length - 2) = body ++ x := by
      rw [List.append_assoc, ← hy, ← List.append_assoc]
      exact List.take_left' (by rw [List.length_append, List.length_append, List.length_append]; rfl)
    rw [if_neg (by omega), hleft, Int.toNat_natCast, hrecv]
    show (if (body ++ data ++ y).length < 2 then none else
      some ((body ++ data ++ y).take ((body ++ data ++ y).length - 2), [], s.skip y.length)) = _
    rw [if_neg (by rw [List.append_assoc, List.length_append, List.length_append]; omega), htake,
      List.drop_of_length_le (by omega), show x.length + 2 - data.length = y.length by omega]

theorem recvChunks_turn (hpos : 0 < N) (hN : N < 2 ^ 31) (c : Chunk) {data filled bytes rest : Bytes}
    (h : s.Holds bytes) (hdata : data.length ≤ N) (hparts : data ++ bytes = c.bytes ++ rest)
    (hfill : fill N true data s = some (filled, s1)) (hline : c.line.bytes <+: filled)
    (hsize : c.data.length + 2 < 2 ^ 31) (herror : parser.error = 0) (body : Bytes)
    (fuel : Nat) :
    ∃ parser', parser'.error = 0 ∧ parser'.data = { parser.data with headers := c.line.headers parser.data.headers } ∧
      recvChunks N (fuel + 1) parser body data s =
        if c.data = [] then some (parser', body ++ c.data, s1.skip (c.bytes.length - filled.length))
        else recvChunks N fuel parser' (body ++ c.data) (filled.drop c.bytes.length)
          (s1.skip (c.bytes.length - filled.length)) := by
  obtain ⟨left, rfl⟩ := hline
  obtain ⟨later, hlater, hfilled, hlength⟩ := fill_holds h hdata hfill
  obtain ⟨parser', hrecv, hview⟩ := recvSize_spec hN c.line hfill hlength herror (pending s + 1)
  have hsized : Kv.i32 (Kv.clamp64 c.line.size) = c.data.length := by rw [c.sized, size_eq (by omega)]
  have hcontent : parser'.parser.contentLen = c.data.length :=
    (congrArg HttpResponseParser.SizeView.contentLen hview).trans hsized
  have hdone : parser'.parser.chunksDone = decide (c.data = []) := by
    have hview := congrArg HttpResponseParser.SizeView.chunksDone hview
    rw [show parser'.parser.chunksDone = _ from hview, hsized]
    refine decide_eq_decide.mpr ?_
    rw [← List.length_eq_zero_iff]
    omega
  have hrest : left ++ later = c.data ++ [13, 10] ++ rest := by
    rw [hparts, Chunk.bytes, List.append_assoc, List.append_assoc] at hfilled
    exact List.append_cancel_left hfilled
  have htake := recvData_spec hpos hN hlater hsize hrest body
  have hbytes : c.bytes.length = c.line.bytes.length + (c.data.length + 2) := by
    unfold Chunk.bytes
    rw [List.length_append, List.length_append]
    rfl
  have hdrop : (c.line.bytes ++ left).drop c.bytes.length = left.drop (c.data.length + 2) := by
    rw [hbytes, ← List.drop_drop, List.drop_left]
  have hskip : c.bytes.length - (c.line.bytes ++ left).length = c.data.length + 2 - left.length := by
    rw [hbytes, List.length_append]
    omega
  refine ⟨parser', congrArg HttpResponseParser.SizeView.error hview, congrArg HttpResponseParser.SizeView.data hview, ?_⟩
  rw [recvChunks, hrecv, hdrop, hskip]
  simp only [hcontent, htake, hdone, decide_eq_true_eq]

theorem rest_holds {c : Chunk} {data filled bytes rest : Bytes} (h : s.Holds bytes)
    (hdata : data.length ≤ N) (hparts : data ++ bytes = c.bytes ++ rest) (hfill : fill N true data s = some (filled, s1)) :
    ∃ later, (s1.skip (c.bytes.length - filled.length)).Holds later ∧ filled.drop c.bytes.length ++ later = rest ∧
      (filled.drop c.bytes.length).length ≤ N := by
  obtain ⟨later, hlater, hfilled, hlength⟩ := fill_holds h hdata hfill
  refine ⟨later.drop (c.bytes.length - filled.length), hlater.skip _, ?_, ?_⟩
  · rw [← List.drop_append, hfilled, hparts, List.drop_left]
  · rw [List.length_drop]
    omega

theorem recvChunks_spec (hpos : 0 < N) (hN : N < 2 ^ 31) {last : Chunk} (hlast : last.data = [])
    (chunks : List Chunk) (hfull : ∀ c ∈ chunks, c.data ≠ []) (hsizes : ∀ c ∈ chunks, c.data.length + 2 < 2 ^ 31)
    {data bytes rest : Bytes} {s : Stream} (h : s.Holds bytes) (hdata : data.length ≤ N)
    (hparts : data ++ bytes = (chunks ++ [last]).flatMap Chunk.bytes ++ rest)
    (hwhole : LinesWhole N (chunks ++ [last]) data s) (herror : parser.error = 0)
    (body : Bytes) (fuel : Nat) (hfuel : chunks.length < fuel) :
    ∃ parser' s', recvChunks N fuel parser body data s = some (parser', body ++ chunks.flatMap Chunk.data, s') ∧
      parser'.data = { parser.data with
        headers := (chunks ++ [last]).foldl (fun m c => c.line.headers m) parser.data.headers } := by
  obtain ⟨fuel, rfl⟩ := Nat.exists_eq_add_one_of_ne_zero (Nat.ne_of_gt (Nat.zero_lt_of_lt hfuel))
  induction chunks generalizing data bytes s parser body fuel with
  | nil =>
    obtain ⟨filled, s1, hfill, hline, -⟩ := hwhole
    have hsize : last.data.length + 2 < 2 ^ 31 := by
      rw [hlast]
      decide
    rw [List.nil_append, List.flatMap_cons, List.append_assoc] at hparts
    obtain ⟨parser', -, hdata', hturn⟩ := recvChunks_turn hpos hN last h hdata hparts hfill hline hsize herror body fuel
    refine ⟨parser', s1.skip (last.bytes.length - filled.length), hturn.trans ?_, hdata'⟩
    rw [if_pos hlast, hlast]
    rfl
  | cons c chunks ih =>
    obtain ⟨filled, s1, hfill, hline, hmore⟩ := hwhole
    rw [List.cons_append, List.flatMap_cons, List.append_assoc] at hparts
    obtain ⟨parser', herror', hdata', hturn⟩ := recvChunks_turn hpos hN c h hdata hparts hfill hline
      (hsizes c List.mem_cons_self) herror body fuel
    obtain ⟨later, hlater, hrest, hlength⟩ := rest_holds h hdata hparts hfill
    obtain ⟨fuel, rfl⟩ : ∃ n, fuel = n + 1 := by
      rw [List.length_cons] at hfuel
      exact ⟨fuel - 1, by omega⟩
    obtain ⟨parser'', s', hrecv, hdata''⟩ := ih (fun x hx => hfull x (List.mem_cons_of_mem c hx))
      (fun x hx => hsizes x (List.mem_cons_of_mem c hx)) hlater hlength hrest hmore herror' (body ++ c.data) fuel
      (by rw [List.length_cons] at hfuel; omega)
    refine ⟨parser'', s', hturn.trans ?_, ?_⟩
    · rw [if_neg (hfull c List.mem_cons_self), hrecv, List.flatMap_cons, List.append_assoc]
    · rw [hdata'', hdata']
      rfl

theorem length_le_bytes (chunks : List Chunk) : chunks.length ≤ (chunks.flatMap Chunk.bytes).length := by
  induction chunks with
  | nil => exact Nat.le_refl 0
  | cons c chunks ih =>
    have hpos : 0 < c.bytes.length := by
      unfold Chunk.bytes
      rw [List.length_append, List.length_append]
      exact Nat.lt_of_lt_of_le Nat.zero_lt_two (Nat.le_trans (Nat.le_add_left 2 _) (Nat.le_add_left _ _))
    rw [List.flatMap_cons, List.length_append, List.length_cons]
    omega

/-! ### Top theorem -/

/-- A response with a chunk of sixteen bytes. -/
def sixteen : ChunkedResponse where
  head :=
    { old := false, status := lit "200", reason := lit "OK", digits := by decide +kernel, oneLine := by decide +kernel,
      fields := [⟨lit "Transfer-Encoding", lit " chunked", by decide, by decide +kernel, by decide +kernel⟩] }
  chunks := [⟨⟨lit "10", [], by decide +kernel⟩, lit "0123456789abcdef", by decide⟩]
  last := ⟨⟨lit "0", [], by decide +kernel⟩, [], by decide +kernel⟩
  coded := by decide +kernel
  full := by decide +kernel
  ends := rfl

/-- A stream that brings the response in pieces of `n` bytes, and then the rest. -/
def cutAt (n m : Nat) (bytes : Bytes) : Stream := ⟨[bytes.take n, (bytes.drop n).take m, bytes.drop (n + m)], [], false⟩

end HttpConnection

end Http
