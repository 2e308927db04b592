import ZeroFrameworks.Kv.Resp.Reader

/-!
# The RESP round trip

    for every sendable v:
      (∀ rest, tryParse (encode v ++ rest) = ok (readBack v) (encode v).length)
        ↔ every integer in v is not negative or a multiple of ten   (round_trip_iff)

`readBack` reads Null as a null bulk.  `appendInt64` moves the quotient of a negative number that is no
multiple of ten by one: such a number comes back larger by ten, or, from -9 to -1, as an error.
-/

namespace Kv

mutual

/-- The value with every Null replaced by a null bulk. -/
def readBack : RespValue → RespValue
  | .null => .nullBulk
  | .array xs => .array (readBackItems xs)
  | v => v

def readBackItems : List RespValue → List RespValue
  | [] => []
  | x :: xs => readBack x :: readBackItems xs

end

mutual

/-- Every integer in the value is not negative or a multiple of ten. -/
def integersPlain : RespValue → Bool
  | .integer n => decide (0 ≤ n) || decide (n.tmod 10 = 0)
  | .array xs => integersPlainItems xs
  | _ => true

def integersPlainItems : List RespValue → Bool
  | [] => true
  | x :: xs => integersPlain x && integersPlainItems xs

end

/-! ## Lemmas -/

theorem reread_eq_some (n : Int) : reread n = some n ↔ 0 ≤ n ∨ n.tmod 10 = 0 := by
  unfold reread
  by_cases h : 0 ≤ n ∨ n.tmod 10 = 0
  · rw [if_pos h]
    exact ⟨fun _ => h, fun _ => rfl⟩
  · rw [if_neg h]
    refine ⟨fun he => ?_, fun h' => absurd h' h⟩
    split at he
    · cases he
    · have := Option.some.inj he
      omega

mutual

theorem decoded_eq_readBack (v : RespValue) :
    decoded v = some (readBack v) ↔ integersPlain v = true := by
  cases v with
  | integer n =>
    simp only [decoded, readBack, integersPlain, Bool.or_eq_true, decide_eq_true_eq,
      ← reread_eq_some, Option.map_eq_some_iff, RespValue.integer.injEq, exists_eq_right]
  | array xs =>
    have h := decodedItems_eq_readBack xs
    simp only [decoded, readBack, integersPlain, ← h, Option.map_eq_some_iff,
      RespValue.array.injEq, exists_eq_right]
  | null => exact ⟨fun _ => rfl, fun _ => rfl⟩
  | simple s => exact ⟨fun _ => rfl, fun _ => rfl⟩
  | error s => exact ⟨fun _ => rfl, fun _ => rfl⟩
  | bulk s => exact ⟨fun _ => rfl, fun _ => rfl⟩
  | nullBulk => exact ⟨fun _ => rfl, fun _ => rfl⟩

theorem decodedItems_eq_readBack (xs : List RespValue) :
    decodedItems xs = some (readBackItems xs) ↔ integersPlainItems xs = true := by
  cases xs with
  | nil => exact ⟨fun _ => rfl, fun _ => rfl⟩
  | cons x xs =>
    have hx := decoded_eq_readBack x
    have hxs := decodedItems_eq_readBack xs
    simp only [decodedItems, readBackItems, integersPlainItems, Bool.and_eq_true, ← hx, ← hxs]
    constructor
    · intro h
      obtain ⟨y, hy, h⟩ := Option.bind_eq_some_iff.mp h
      obtain ⟨ys, hys, h⟩ := Option.map_eq_some_iff.mp h
      cases h
      exact ⟨hy, hys⟩
    · rintro ⟨hy, hys⟩
      rw [hy, hys]
      rfl

end

/-! ## Top theorem -/

/-- An encoding reads back as its value, whatever follows, exactly when the integers are plain. -/
theorem round_trip_iff (v : RespValue) (hs : sendable v = true) :
    (∀ rest, tryParse (encode v ++ rest) = .ok (readBack v) (encode v).length) ↔
      integersPlain v = true := by
  rw [← decoded_eq_readBack]
  constructor
  · intro h
    have h0 := h []
    rw [tryParse_decoded v [] hs] at h0
    cases hd : decoded v with
    | none =>
      rw [hd] at h0
      cases h0
    | some w =>
      rw [hd] at h0
      have hw := (ParseResult.ok.inj h0).1
      rw [hw]
  · intro hd rest
    rw [tryParse_decoded v rest hs, hd]
    rfl

/-- An array of a line, a multiple of ten below zero, a null and a binary string. -/
theorem round_trip_mixed :
    sendable (.array [.simple (lit "OK"), .integer (-120), .null, .bulk [13, 10, 0]]) = true ∧
      ∀ rest, tryParse
          (encode (.array [.simple (lit "OK"), .integer (-120), .null, .bulk [13, 10, 0]]) ++ rest) =
        .ok (.array [.simple (lit "OK"), .integer (-120), .nullBulk, .bulk [13, 10, 0]]) 30 :=
  ⟨by decide,
    (round_trip_iff (.array [.simple (lit "OK"), .integer (-120), .null, .bulk [13, 10, 0]])
      (by decide)).mpr (by decide)⟩

/-- -123 comes back as -113. -/
theorem negative_comes_back_larger :
    ¬ ∀ v, sendable v = true →
      ∀ rest, tryParse (encode v ++ rest) = .ok (readBack v) (encode v).length := by
  intro h
  have hbad := h (.integer (-123)) (by decide) []
  rw [tryParse_decoded _ _ (by decide)] at hbad
  have hval := (ParseResult.ok.inj hbad).1
  have hn := RespValue.integer.inj hval
  revert hn
  decide

end Kv
