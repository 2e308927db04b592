import ZeroFrameworks.Kv.Bytes

/-!
# The header maps of requests and responses

`std::map` with `CaseInsensitiveLess`: a name is found in any letter case, and keeps the case it was first set in.
-/

namespace Http

open Kv (Bytes lit)

/-- The C strings of two names are equal for `strcasecmp` if and only if their keys are. -/
def nameKey (name : Bytes) : Bytes := Kv.lower (Kv.cstr name)

/-- `MapType`.  Each entry is filed under the key of its name. -/
structure MapType where
  entries : Kv.BMap (Bytes × Bytes)
  keyed : ∀ k e, entries[k]? = some e → nameKey e.1 = k

namespace MapType

def empty : MapType := ⟨∅, fun k e h => by rw [Std.ExtTreeMap.getElem?_empty] at h; cases h⟩

/-- The names and values in the order of the map. -/
def toList (m : MapType) : List (Bytes × Bytes) := m.entries.toList.map Prod.snd

/-- `m_headers[key] = val`. -/
def set (m : MapType) (key val : Bytes) : MapType where
  entries :=
    match m.entries[nameKey key]? with
    | some e => m.entries.insert (nameKey key) (e.1, val)
    | none => m.entries.insert (nameKey key) (key, val)
  keyed := by
    intro k e h
    have hinsert : ∀ e', nameKey e'.1 = nameKey key → (m.entries.insert (nameKey key) e')[k]? = some e → nameKey e.1 = k := by
      intro e' he' hk
      rw [Std.ExtTreeMap.getElem?_insert] at hk
      split at hk
      next hc =>
        obtain rfl := Std.compare_eq_iff_eq.mp hc
        obtain rfl := Option.some.inj hk
        exact he'
      next => exact m.keyed k e hk
    split at h
    next e' he' => exact hinsert (e'.1, val) (m.keyed _ e' he') h
    next => exact hinsert (key, val) rfl h

/-- `m.insert(std::make_pair(key, val))`: a name that is there keeps its value. -/
def insert (m : MapType) (key val : Bytes) : MapType :=
  match m.entries[nameKey key]? with
  | some _ => m
  | none =>
    { entries := m.entries.insert (nameKey key) (key, val)
      keyed := by
        intro k e h
        rw [Std.ExtTreeMap.getElem?_insert] at h
        split at h
        next hc =>
          obtain rfl := Std.compare_eq_iff_eq.mp hc
          obtain rfl := Option.some.inj h
          rfl
        next => exact m.keyed k e h }

/-- `getHeader`. -/
def get (m : MapType) (key dflt : Bytes) : Bytes := ((m.entries[nameKey key]?).map Prod.snd).getD dflt

/-- `boost::lexical_cast<uint64_t>`; `none` where it throws. -/
def lexicalCastU64 (s : Bytes) : Option Nat :=
  let digits := if s.head? = some 45 ∨ s.head? = some 43 then s.tail else s
  if digits ≠ [] ∧ digits.all Kv.isDigit ∧ Kv.natOf digits < 2 ^ 64 then
    some (if s.head? = some 45 then (2 ^ 64 - Kv.natOf digits) % 2 ^ 64 else Kv.natOf digits)
  else none

/-- `getHeaderAs<uint64_t>`. -/
def getAsU64 (m : MapType) (key : Bytes) (dflt : Nat) : Nat :=
  match m.entries[nameKey key]? with
  | none => dflt
  | some e => (lexicalCastU64 e.2).getD dflt

/-- `hasHeader`: the value, where there is one. -/
def find (m : MapType) (key : Bytes) : Option Bytes := (m.entries[nameKey key]?).map Prod.snd

/-! ## Lemmas -/

theorem cstr_of_notMem {v : Bytes} (h : 0 ∉ v) : Kv.cstr v = v := by
  unfold Kv.cstr
  rw [List.takeWhile_eq_self_iff]
  intro b hb
  exact decide_eq_true fun hz => h (hz ▸ hb)

theorem entries_empty (k : Bytes) : empty.entries[k]? = none := Std.ExtTreeMap.getElem?_empty

theorem find_empty (key : Bytes) : empty.find key = none := by
  rw [find, entries_empty]
  rfl

theorem find_set (m : MapType) (key val key' : Bytes) :
    (m.set key val).find key' = if nameKey key = nameKey key' then some val else m.find key' := by
  have hinsert : ∀ name, ((m.entries.insert (nameKey key) (name, val))[nameKey key']?).map Prod.snd =
      if nameKey key = nameKey key' then some val else m.find key' := by
    intro name
    rw [Std.ExtTreeMap.getElem?_insert]
    by_cases hkey : nameKey key = nameKey key'
    · rw [if_pos (Std.compare_eq_iff_eq.mpr hkey), if_pos hkey]
      rfl
    · rw [if_neg (fun h => hkey (Std.compare_eq_iff_eq.mp h)), if_neg hkey]
      rfl
  unfold find set
  dsimp only
  split
  · exact hinsert _
  · exact hinsert _

theorem get_eq (m : MapType) (key dflt : Bytes) : m.get key dflt = (m.find key).getD dflt := rfl

theorem getAsU64_eq (m : MapType) (key : Bytes) (dflt : Nat) :
    m.getAsU64 key dflt = (m.find key).elim dflt fun v => (lexicalCastU64 v).getD dflt := by
  unfold getAsU64 find
  cases m.entries[nameKey key]? with
  | none => rfl
  | some e => rfl

theorem mem_toList (m : MapType) (e : Bytes × Bytes) : e ∈ m.toList ↔ m.entries[nameKey e.1]? = some e := by
  unfold toList
  rw [List.mem_map]
  constructor
  · rintro ⟨⟨k, e⟩, hk, rfl⟩
    have hget := Std.ExtTreeMap.mem_toList_iff_getElem?_eq_some.mp hk
    rw [m.keyed k e hget]
    exact hget
  · exact fun h => ⟨(nameKey e.1, e), Std.ExtTreeMap.mem_toList_iff_getElem?_eq_some.mpr h, rfl⟩

theorem entries_insert (m : MapType) (key val k : Bytes) : (m.insert key val).entries[k]? =
    if nameKey key = k then some (m.entries[k]?.getD (key, val)) else m.entries[k]? := by
  unfold insert
  split
  · next e he =>
    split
    · next hk =>
      rw [← hk, he]
      rfl
    · rfl
  · next he =>
    rw [Std.ExtTreeMap.getElem?_insert]
    by_cases hk : nameKey key = k
    · rw [if_pos (Std.compare_eq_iff_eq.mpr hk), if_pos hk, ← hk, he]
      rfl
    · rw [if_neg (fun h => hk (Std.compare_eq_iff_eq.mp h)), if_neg hk]

end MapType

end Http
