import ZeroFrameworks.Kv.Commands.Streams
import ZeroFrameworks.Kv.Store.StreamIds
import ZeroFrameworks.Kv.Store.Views

/-!
# Explicit stream ids

`parseStreamIdToken` reads no id that is written out.  So XADD takes none, and a range with a bound, `-` and `+` among
them, is empty.

    formatStreamId ms seq is not read back, and XADD refuses it   (explicit_id_refused)
    XRANGE and XREVRANGE answer right ↔ no entry is within the bounds   (rangesRight_iff)
-/

namespace Kv

/-! ## Specification -/

/-- The text of an id is read back as that id. -/
def ReadsBack (ms seq : Nat) : Prop :=
  ∃ id, parseStreamIdToken (formatStreamId ms seq) = some id ∧ id.ms = ms ∧ id.seq = seq ∧ id.autoId = false

/-- XADD takes the id and leaves an entry under it at the end of the stream. -/
def TakesId {F : Type} [Platform F] (env : Env) (db : Int) (key : Bytes) (s : KvStore F) (ms seq : Nat)
    (fields : List (Bytes × Bytes)) : Prop :=
  (KvStore.xadd db key (formatStreamId ms seq) fields env s).1 = .ok (formatStreamId ms seq) ∧
    ∃ e ∈ (KvStore.entriesOf db key (KvStore.xadd db key (formatStreamId ms seq) fields env s).2).getLast?,
      e.id = formatStreamId ms seq

/-- An end of the stream, or an id. -/
inductive IdBound where
  | first
  | last
  | id (ms seq : Nat)
  deriving DecidableEq

namespace IdBound

/-- `text` is a way to write the bound; an id is two numbers of 64 bits with a dash between them. -/
def Says (text : Bytes) : IdBound → Prop
  | first => text = lit "-"
  | last => text = lit "+"
  | id ms seq => ms < 2 ^ 64 ∧ seq < 2 ^ 64 ∧ ∃ a b, text = a ++ 45 :: b ∧ a ≠ [] ∧ b ≠ [] ∧
      (∀ c ∈ a, isDigit c = true) ∧ (∀ c ∈ b, isDigit c = true) ∧ natOf a = ms ∧ natOf b = seq

def value : IdBound → Nat × Nat
  | first => (0, 0)
  | last => (2 ^ 64 - 1, 2 ^ 64 - 1)
  | id ms seq => (ms, seq)

end IdBound

/-- `a ≤ id ≤ b`; an end of the stream is no bound on its side. -/
def IdWithin (a b : IdBound) (e : StreamEntry) : Prop :=
  (a = .first ∨ ¬ IdLt (readId e.id) a.value) ∧ (b = .last ∨ ¬ IdLt b.value (readId e.id))

instance (a b : IdBound) (e : StreamEntry) : Decidable (IdWithin a b e) := inferInstanceAs (Decidable (_ ∧ _))

/-- The first `count` of them, when `count` is positive. -/
def firstOf (count : Int) (l : List StreamEntry) : List StreamEntry := if 0 < count then l.take count.toNat else l

/-- The arguments after the bounds: none, or a count. -/
def CountArgs (rest : List RespValue) (count : Int) : Prop :=
  rest = [] ∧ count = -1 ∨ ∃ v, rest = [v] ∧ parseInt64Arg v = some count

/-- XRANGE key a b and XREVRANGE key b a return the entries within the bounds, in their order and in the reverse one. -/
def RangesRight {F : Type} [Platform F] (env : Env) (db : Int) (key : Bytes) (s : KvStore F) (entries : List StreamEntry)
    (a b : IdBound) (low high : Bytes) (rest : List RespValue) (count : Int) : Prop :=
  ∃ l : List StreamEntry, l.Perm (entries.filter fun e => decide (IdWithin a b e)) ∧
    (l.Pairwise fun x y => ¬ IdLt (readId y.id) (readId x.id)) ∧
    (Commands.xrange db (.bulk (lit "XRANGE") :: .bulk key :: .bulk low :: .bulk high :: rest) env s).1 =
      Commands.encodeStreamEntries (firstOf count l) ∧
    (Commands.xrevrange db (.bulk (lit "XREVRANGE") :: .bulk key :: .bulk high :: .bulk low :: rest) env s).1 =
      Commands.encodeStreamEntries (firstOf count l.reverse)

/-! ## Lemmas -/

variable {F : Type} [Platform F] {env : Env} {db : Int} {key : Bytes} {s : KvStore F}

theorem parse_of_dash {text : Bytes} (h : 45 ∈ text) : parseStreamIdToken text = none := by
  rw [KvStore.parseStreamIdToken_eq, if_neg]
  rintro rfl
  exact absurd h (by decide)

theorem parse_format (ms seq : Nat) : parseStreamIdToken (formatStreamId ms seq) = none := by
  refine parse_of_dash ?_
  rw [formatStreamId_eq]
  exact List.mem_append_right _ List.mem_cons_self

theorem xadd_refused {id : Bytes} (h : parseStreamIdToken id = none) (fields : List (Bytes × Bytes)) (r : Bytes) :
    (KvStore.xadd db key id fields env s).1 ≠ .ok r := by
  unfold KvStore.xadd
  split
  · exact fun hr => (by cases hr)
  · have hbody : ∀ v, ∃ e, (xaddBody env.now id fields v).reply = .error e := by
      intro v
      unfold xaddBody
      rw [h]
      exact ⟨_, rfl⟩
    rw [StoreM.bind_apply]
    intro hr
    have hreply : (StoreM.onField .stream db key (xaddBody env.now id fields) env (KvStore.evictIfNeededLocked env s).2).1 =
        .ok r := hr
    by_cases ht : HasType .stream env.now db key (KvStore.evictIfNeededLocked env s).2
    · obtain ⟨e, he⟩ := hbody (((KvStore.evictIfNeededLocked env s).2.live env.now db key).map fun o => Field.stream.get o.toObj)
      rw [onField_reply ht, he] at hreply
      cases hreply
    · rw [onField_refused ht] at hreply
      cases hreply

theorem not_readsBack (ms seq : Nat) : ¬ ReadsBack ms seq := by
  rintro ⟨id, hid, -⟩
  rw [parse_format] at hid
  cases hid

theorem not_takesId (ms seq : Nat) (fields : List (Bytes × Bytes)) : ¬ TakesId env db key s ms seq fields := by
  rintro ⟨hr, -⟩
  exact xadd_refused (parse_format ms seq) fields _ hr

theorem parse_start {b : IdBound} {text : Bytes} (h : b.Says text) :
    parseStreamIdToken (if text = lit "-" then lit "0-0" else text) = none := by
  cases b with
  | first =>
    obtain rfl : text = lit "-" := h
    exact parse_of_dash (by decide)
  | last =>
    obtain rfl : text = lit "+" := h
    rw [if_neg (by decide), KvStore.parseStreamIdToken_eq, if_neg (by decide)]
  | id ms seq =>
    obtain ⟨-, -, x, y, rfl, -⟩ := h
    split
    · exact parse_of_dash (by decide)
    · exact parse_of_dash (List.mem_append_right _ List.mem_cons_self)

theorem rangeOf_nil {a : IdBound} {low : Bytes} (h : a.Says low) (stop : Bytes) (count : Int) (reverse : Bool)
    (st : StreamObj) : KvStore.rangeOf low stop count reverse st = [] := by
  unfold KvStore.rangeOf
  dsimp only
  rw [parse_start h]

theorem rangeCommand_reply {rest : List RespValue} {count : Int} (h : CountArgs rest count) (reverse : Bool)
    (command : String) (name start stop : Bytes) :
    (Commands.rangeCommand reverse command db (.bulk name :: .bulk key :: .bulk start :: .bulk stop :: rest) env s).1 =
      replyTo Commands.encodeStreamEntries (KvStore.xrange db key start stop count reverse env s).1 := by
  obtain ⟨rfl, rfl⟩ | ⟨v, rfl, hv⟩ := h
  · rfl
  · show (withArg (parseInt64Arg v) notIntegerError (fun count =>
      replyWith (KvStore.xrange db key start stop count reverse) Commands.encodeStreamEntries) env s).1 = _
    rw [hv]
    rfl

theorem xrange_nil {st : StreamObj} {d : Int} (hheld : Field.stream.held (s.live env.now db key) = .value st d)
    {a : IdBound} {low : Bytes} (h : a.Says low) (stop : Bytes) (count : Int) (reverse : Bool) :
    (KvStore.xrange db key low stop count reverse env s).1 = .ok [] := by
  refine (onField_of_value _ Field.whole_stream hheld).1.trans ?_
  dsimp only
  rw [Option.map_some, rangeOf_nil h]
  rfl

theorem firstOf_eq_nil {count : Int} {l : List StreamEntry} (h : firstOf count l = []) : l = [] := by
  unfold firstOf at h
  split at h
  · obtain h | h := List.take_eq_nil_iff.mp h
    · omega
    · exact h
  · exact h

theorem encodeStreamEntries_eq_nil {l : List StreamEntry} (h : Commands.encodeStreamEntries l = Commands.encodeStreamEntries []) :
    l = [] :=
  List.map_eq_nil_iff.mp (RespValue.array.inj h)

section ranges

variable {st : StreamObj} {d : Int} {a b : IdBound} {low high : Bytes} {rest : List RespValue} {count : Int}
  (hheld : Field.stream.held (s.live env.now db key) = .value st d) (ha : a.Says low) (hb : b.Says high)
  (hcount : CountArgs rest count)
include hheld ha hcount

theorem RangesRight.none_within (h : RangesRight env db key s st.entries a b low high rest count) :
    ∀ e ∈ st.entries, ¬ IdWithin a b e := by
  obtain ⟨l, hperm, -, hforward, -⟩ := h
  unfold Commands.xrange at hforward
  rw [rangeCommand_reply hcount, xrange_nil hheld ha] at hforward
  have hnil : l = [] := firstOf_eq_nil (encodeStreamEntries_eq_nil hforward.symm)
  subst hnil
  intro e he hwithin
  have hmem := hperm.mem_iff.mpr (List.mem_filter.mpr ⟨he, decide_eq_true hwithin⟩)
  cases hmem

include hb in
theorem rangesRight_of_none (h : ∀ e ∈ st.entries, ¬ IdWithin a b e) :
    RangesRight env db key s st.entries a b low high rest count := by
  have hfilter : (st.entries.filter fun e => decide (IdWithin a b e)) = [] :=
    List.filter_eq_nil_iff.mpr fun e he hwithin => h e he (of_decide_eq_true hwithin)
  have hfirst : firstOf count [] = [] := by
    unfold firstOf
    split
    · exact List.take_nil
    · rfl
  refine ⟨[], hfilter ▸ .refl _, .nil, ?_, ?_⟩
  · unfold Commands.xrange
    rw [rangeCommand_reply hcount, xrange_nil hheld ha, hfirst]
    rfl
  · unfold Commands.xrevrange
    rw [rangeCommand_reply hcount, xrange_nil hheld hb, List.reverse_nil, hfirst]
    rfl

end ranges

/-! ## Top theorems -/

theorem explicit_id_refused (ms seq : Nat) : ¬ ReadsBack ms seq ∧ ∀ (env : Env) (db : Int) (key : Bytes) (s : KvStore F)
    (fields : List (Bytes × Bytes)), ¬ TakesId env db key s ms seq fields :=
  ⟨not_readsBack ms seq, fun _ _ _ _ fields => not_takesId ms seq fields⟩

/-- XADD s 1-1 f v. -/
theorem explicit_id_one : ¬ ReadsBack 1 1 ∧
    ¬ TakesId { now := 0 } 0 (lit "s") (KvStore.empty : KvStore Int) 1 1 [(lit "f", lit "v")] :=
  ⟨not_readsBack 1 1, not_takesId 1 1 _⟩

theorem rangesRight_iff (env : Env) (db : Int) (key : Bytes) (s : KvStore F) (st : StreamObj) (d : Int)
    (hheld : Field.stream.held (s.live env.now db key) = .value st d) (a b : IdBound) (low high : Bytes) (ha : a.Says low)
    (hb : b.Says high) (rest : List RespValue) (count : Int) (hcount : CountArgs rest count) :
    RangesRight env db key s st.entries a b low high rest count ↔ ∀ e ∈ st.entries, ¬ IdWithin a b e :=
  ⟨fun h => h.none_within hheld ha hcount, fun h => rangesRight_of_none hheld ha hb hcount h⟩

/-- A stream with one entry. -/
def oneEntry : KvStore Int :=
  KvStore.empty.putEntry 0 (lit "s") (some { type := .stream, stream := [⟨lit "1-1", ∅⟩] })

theorem held_oneEntry :
    Field.stream.held (oneEntry.live ({ now := 0 } : Env).now 0 (lit "s")) = .value { entries := [⟨lit "1-1", ∅⟩] } 0 := by rfl

theorem says_ends_of_stream : IdBound.first.Says (lit "-") ∧ IdBound.last.Says (lit "+") := ⟨rfl, rfl⟩

theorem isDigit_of_mem_singleton {c d : UInt8} (hd : isDigit d = true) (hc : c ∈ [d]) : isDigit c = true := by
  rw [List.mem_singleton.mp hc]
  exact hd

theorem says_five : (IdBound.id 5 0).Says (lit "5-0") := by
  refine ⟨by decide, by decide, lit "5", lit "0", rfl, by decide, by decide, ?_, ?_, rfl, rfl⟩
  · exact fun c hc => isDigit_of_mem_singleton rfl hc
  · exact fun c hc => isDigit_of_mem_singleton rfl hc

/-- Nothing is at 5 or above. -/
theorem rangesRight_above : RangesRight { now := 0 } 0 (lit "s") oneEntry [⟨lit "1-1", ∅⟩] (.id 5 0) .last (lit "5-0") (lit "+") []
    (-1) :=
  (rangesRight_iff { now := 0 } 0 (lit "s") oneEntry _ 0 held_oneEntry _ _ _ _ says_five says_ends_of_stream.2 [] (-1)
    (.inl ⟨rfl, rfl⟩)).mpr (by decide)

/-- XRANGE s - + of a stream with one entry. -/
theorem rangesRight_whole : ¬ RangesRight { now := 0 } 0 (lit "s") oneEntry [⟨lit "1-1", ∅⟩] .first .last (lit "-") (lit "+") []
    (-1) := by
  intro h
  have hnone := RangesRight.none_within held_oneEntry says_ends_of_stream.1 (.inl ⟨rfl, rfl⟩) h
  exact hnone ⟨lit "1-1", ∅⟩ List.mem_cons_self ⟨.inl rfl, .inl rfl⟩

end Kv
