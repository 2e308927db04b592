import ZeroFrameworks.Kv.Resp.Frames

/-!
# Malformed input

The reader tells input that cannot become a value from input that is incomplete in some places only: behind a number
it answers NeedMore for anything but CR LF, it looks at the end of a payload when both bytes are there, and it looks
at the sign of a count behind its CR LF.  `Stuck` input is asked for more and no more makes a value of it.

    Stuck data → parseValue data = NeedMore, and no continuation of data is read   (stuck_spec)
    parseValue data = NeedMore → Stuck data, or a continuation of data is read   (needMore_cases)
-/

namespace Kv

/-! ## Specification -/

/-- Input in which a value is broken off by what is no part of it. -/
inductive Stuck : Bytes → Prop where
  | number {c : UInt8} {t rest : Bytes} {n : Int} (hc : c = 58 ∨ c = 42) (ht : IsNumber t n) (hd : NoDigit rest)
      (hrest : rest ≠ [] ∧ rest ≠ [13] ∧ rest.take 2 ≠ crlf) : Stuck (c :: (t ++ rest))
  | negative {t rest : Bytes} {n : Int} (ht : IsNumber t n) (hn : n < 0) (hrest : rest = [] ∨ rest = [13]) :
      Stuck (42 :: (t ++ rest))
  | bulk {t sp s : Bytes} {c : UInt8} (ht : IsNumber t s.length) (hsp : sp.length = 2) (hd : NoDigit sp)
      (hc : c ≠ 13) : Stuck (36 :: (t ++ (sp ++ (s ++ [c]))))
  | array {t s : Bytes} {items : List Bytes} {count : Nat} (ht : IsNumber t (items.length + (count + 1) : Nat))
      (hitems : ∀ x ∈ items, Loose x) (hs : Stuck s) : Stuck (42 :: (t ++ (crlf ++ (items.flatten ++ s))))

/-! ## Incomplete values -/

theorem NullCut.loose {f : Bytes} (h : NullCut f) (b : UInt8) : Loose (f ++ [b]) := by
  induction h with
  | @null t n c ht hn hc =>
    have hd : NoDigit [c, b] := by
      intro e he
      obtain rfl := Option.some.inj he
      exact hc
    have hframe : Loose (36 :: (t ++ [c, b])) := .null ht hn trivial rfl hd
    simpa using hframe
  | @array t s items ht hitems hs ih =>
    have hframe : Loose (42 :: (t ++ (crlf ++ (items ++ [s ++ [b]]).flatten))) := by
      refine .array (by simpa using ht) fun x hx => ?_
      rcases List.mem_append.mp hx with hx | hx
      · exact hitems x hx
      · rw [List.mem_singleton.mp hx]
        exact ih
    simpa using hframe

theorem crlf_cases (rest : Bytes) :
    rest = [] ∨ rest = [13] ∨ rest.take 2 = crlf ∨ (rest ≠ [] ∧ rest ≠ [13] ∧ rest.take 2 ≠ crlf) := by
  by_cases h1 : rest = []
  · exact .inl h1
  · by_cases h2 : rest = [13]
    · exact .inr (.inl h2)
    · by_cases h3 : rest.take 2 = crlf
      · exact .inr (.inr (.inl h3))
      · exact .inr (.inr (.inr ⟨h1, h2, h3⟩))

theorem loose_integer {t : Bytes} {n : Int} (ht : IsNumber t n) : Loose (58 :: (t ++ crlf)) := .integer ht

/-- A simple string that says nothing. -/
def emptyLine : Bytes := 43 :: ([] ++ crlf)

theorem loose_emptyLine : Loose emptyLine := .line (.inl rfl) rfl

theorem noDigit_cons {b : UInt8} {rest : Bytes} (h : NoDigit (b :: rest)) (rest' : Bytes) : NoDigit (b :: rest') :=
  fun c hc => h c hc

theorem bulk_completes {t sp : Bytes} {m : Nat} (ht : IsNumber t m) (hsp : sp.length = 2) (hd : NoDigit sp)
    {p : Bytes} (hp : p.length ≤ m) : ∃ ext, Loose (36 :: (t ++ (sp ++ p)) ++ ext) := by
  refine ⟨List.replicate (m - p.length) 0 ++ crlf, ?_⟩
  have hlen : (p ++ List.replicate (m - p.length) (0 : UInt8)).length = m := by
    rw [List.length_append, List.length_replicate]
    omega
  have hframe : Loose (36 :: (t ++ (sp ++ ((p ++ List.replicate (m - p.length) 0) ++ crlf)))) :=
    .bulk (by rwa [hlen]) trivial hsp hd
  simpa using hframe

/-- A bulk string that is asked for more: its last byte is wrong, or it can be completed. -/
theorem bulk_needMore {t rest : Bytes} {n : Int} (ht : IsNumber t n) (hd : NoDigit rest)
    (h : rest = [] ∨ (0 ≤ n ∧ rest.length < 2 + n.toNat + 2)) :
    Stuck (36 :: (t ++ rest)) ∨ ∃ ext, Loose (36 :: (t ++ rest) ++ ext) := by
  by_cases hneg : n < 0
  · obtain rfl : rest = [] := h.resolve_right fun hc => absurd hneg (by omega)
    refine .inr ⟨crlf, ?_⟩
    have hframe : Loose (36 :: (t ++ crlf)) := .null ht hneg trivial rfl (noDigit_crlf [])
    simpa using hframe
  · obtain ⟨m, rfl⟩ := Int.eq_ofNat_of_zero_le (Int.not_lt.mp hneg)
    match rest with
    | [] =>
      obtain ⟨ext, hext⟩ := bulk_completes ht rfl (noDigit_crlf []) (p := []) (Nat.zero_le m)
      exact .inr ⟨crlf ++ ext, by simpa using hext⟩
    | [b] =>
      have hsp : [b, 0].length = 2 := rfl
      obtain ⟨ext, hext⟩ := bulk_completes ht hsp (noDigit_cons hd [0]) (p := []) (Nat.zero_le m)
      exact .inr ⟨0 :: ext, by simpa using hext⟩
    | b :: d :: p =>
      have hshort : p.length < m + 2 := by
        rcases h with h | ⟨-, h⟩
        · cases h
        · simp only [List.length_cons, Int.toNat_natCast] at h
          omega
      by_cases hp : p.length ≤ m
      · have hsp : [b, d].length = 2 := rfl
        obtain ⟨ext, hext⟩ := bulk_completes ht hsp (noDigit_cons hd [d]) hp
        exact .inr ⟨ext, by simpa using hext⟩
      · -- the payload is there, and one byte behind it
        have hne : p ≠ [] := fun he => hp (by rw [he]; exact Nat.zero_le m)
        have hsplit := List.dropLast_concat_getLast hne
        have hm : p.dropLast.length = m := by
          rw [List.length_dropLast]
          omega
        have ht' : IsNumber t p.dropLast.length := by rwa [hm]
        by_cases hc : p.getLast hne = 13
        · refine .inr ⟨[10], ?_⟩
          have hframe : Loose (36 :: (t ++ ([b, d] ++ (p.dropLast ++ crlf)))) :=
            .bulk ht' trivial rfl (noDigit_cons hd [d])
          have hp13 : p ++ [10] = p.dropLast ++ crlf := by
            conv => lhs; rw [← hsplit, hc]
            simp [crlf]
          simpa [← hp13] using hframe
        · refine .inl ?_
          have hstuck : Stuck (36 :: (t ++ ([b, d] ++ (p.dropLast ++ [p.getLast hne])))) :=
            .bulk ht' rfl (noDigit_cons hd [d]) hc
          rwa [hsplit] at hstuck

theorem array_completes {t : Bytes} {m : Nat} (ht : IsNumber t m) :
    Loose (42 :: (t ++ (crlf ++ (List.replicate m emptyLine).flatten))) := by
  refine .array (by rwa [List.length_replicate]) fun x hx => ?_
  rw [List.eq_of_mem_replicate hx]
  exact loose_emptyLine

theorem array_needMore {t rest : Bytes} {n : Int} (ht : IsNumber t n) (hrest : rest = [] ∨ rest = [13]) :
    Stuck (42 :: (t ++ rest)) ∨ ∃ ext, Loose (42 :: (t ++ rest) ++ ext) := by
  by_cases hneg : n < 0
  · exact .inl (.negative ht hneg hrest)
  · obtain ⟨m, rfl⟩ := Int.eq_ofNat_of_zero_le (Int.not_lt.mp hneg)
    have hframe := array_completes ht
    rcases hrest with rfl | rfl
    · exact .inr ⟨crlf ++ (List.replicate m emptyLine).flatten, by simpa using hframe⟩
    · exact .inr ⟨10 :: (List.replicate m emptyLine).flatten, by simpa [crlf] using hframe⟩

theorem items_needMore {parse : Bytes → ParseResult} (hparse : ∀ inp v n, parse inp = .ok v n → Taken inp n)
    {count : Nat} {inp : Bytes}
    (hmore : ∀ data : Bytes, data.length ≤ inp.length → parse data = .needMore →
      Stuck data ∨ ∃ ext, Loose (data ++ ext))
    (h : parseItems parse count inp = .needMore) :
    (∃ (items : List Bytes) (s : Bytes) (left : Nat), inp = items.flatten ++ s ∧ items.length + (left + 1) = count ∧
        (∀ x ∈ items, Loose x) ∧ Stuck s) ∨
      ∃ (ext : Bytes) (items : List Bytes), inp ++ ext = items.flatten ∧ items.length = count ∧
        ∀ x ∈ items, Loose x := by
  induction count generalizing inp with
  | zero => cases h
  | succ count ih =>
    have hfill : ∀ x ∈ List.replicate count emptyLine, Loose x := fun x hx => by
      rw [List.eq_of_mem_replicate hx]
      exact loose_emptyLine
    unfold parseItems at h
    cases hp : parse inp with
    | error => rw [hp] at h; cases h
    | needMore =>
      rcases hmore inp le_rfl hp with hstuck | ⟨ext, hext⟩
      · exact .inl ⟨[], inp, count, rfl, Nat.zero_add _, fun x hx => (by cases hx), hstuck⟩
      · refine .inr ⟨ext ++ (List.replicate count emptyLine).flatten, (inp ++ ext) :: List.replicate count emptyLine,
          by simp, by simp, List.forall_mem_cons.mpr ⟨hext, hfill⟩⟩
    | ok v k =>
      rw [hp] at h
      simp only at h
      have hrest : parseItems parse count (inp.drop k) = .needMore := by
        cases hi : parseItems parse count (inp.drop k) with
        | needMore => rfl
        | error => rw [hi] at h; cases h
        | ok w m =>
          obtain ⟨vs, rfl⟩ := parseItems_array hi
          rw [hi] at h
          cases h
      rcases hparse inp v k hp with ⟨f, rest, rfl, rfl, hf⟩ | ⟨rfl, hcut⟩
      · rw [List.drop_left] at hrest
        have hlen : rest.length ≤ (f ++ rest).length := by
          rw [List.length_append]
          omega
        rcases ih (fun data hd => hmore data (hd.trans hlen)) hrest with
          ⟨items, s, left, rfl, rfl, hall, hstuck⟩ | ⟨ext, items, hext, rfl, hall⟩
        · refine .inl ⟨f :: items, s, left, by simp, ?_, List.forall_mem_cons.mpr ⟨hf, hall⟩, hstuck⟩
          rw [List.length_cons]
          omega
        · refine .inr ⟨ext, f :: items, ?_, rfl, List.forall_mem_cons.mpr ⟨hf, hall⟩⟩
          rw [List.append_assoc, hext, List.flatten_cons]
      · -- the missing byte comes first, then the other items
        refine .inr ⟨0 :: (List.replicate count emptyLine).flatten, (inp ++ [0]) :: List.replicate count emptyLine,
          by simp, by simp, List.forall_mem_cons.mpr ⟨hcut.loose 0, hfill⟩⟩

theorem needMore_cases {fuel : Nat} {data : Bytes} (hf : data.length ≤ fuel)
    (h : parseValue fuel data = .needMore) : Stuck data ∨ ∃ ext, Loose (data ++ ext) := by
  induction fuel generalizing data with
  | zero =>
    obtain rfl : data = [] := List.eq_nil_of_length_eq_zero (Nat.le_zero.mp hf)
    exact .inr ⟨emptyLine, loose_emptyLine⟩
  | succ fuel ih =>
    cases data with
    | nil => exact .inr ⟨emptyLine, loose_emptyLine⟩
    | cons c body =>
      rw [List.length_cons] at hf
      rcases header_cases c body with hc | ⟨hc, t, rest, n, rfl, ht, hd⟩ | herr
      · rw [parseLine_eq hc] at h
        cases hl : readLine body with
        | some r => rw [hl] at h; cases h
        | none => exact .inr ⟨crlf, .line hc (Option.map_eq_none_iff.mp hl)⟩
      · rcases hc with rfl | rfl | rfl
        · rw [parseInteger_eq ht hd] at h
          rcases crlf_cases rest with rfl | rfl | hcrlf | hbad
          · exact .inr ⟨crlf, by simpa using loose_integer ht⟩
          · exact .inr ⟨[10], by simpa [crlf] using loose_integer ht⟩
          · rw [if_pos hcrlf] at h
            cases h
          · exact .inl (.number (.inl rfl) ht hd hbad)
        · refine bulk_needMore ht hd ?_
          by_cases hrest : rest = []
          · exact .inl hrest
          · rw [parseBulk_eq ht hd, if_neg hrest] at h
            split at h
            · cases h
            next hneg =>
              split at h
              next hlen => exact .inr ⟨Int.not_lt.mp hneg, hlen⟩
              next => split at h <;> cases h
        · rcases crlf_cases rest with rfl | rfl | hcrlf | hbad
          · exact array_needMore ht (.inl rfl)
          · exact array_needMore ht (.inr rfl)
          · obtain ⟨more, rfl⟩ := take_two_eq hcrlf
            rw [parseArray_eq ht hd, if_pos hcrlf] at h
            split at h
            · cases h
            next hpos =>
              obtain ⟨m, rfl⟩ := Int.eq_ofNat_of_zero_le (Int.not_lt.mp hpos)
              rw [show (crlf ++ more).drop 2 = more from rfl, Int.toNat_natCast] at h
              have hitems : parseItems (parseValue fuel) m more = .needMore := by
                cases hi : parseItems (parseValue fuel) m more with
                | needMore => rfl
                | error => rw [hi] at h; cases h
                | ok v k => rw [hi] at h; cases h
              have hlen : more.length ≤ fuel := by
                simp only [List.length_append] at hf
                omega
              rcases items_needMore (fun inp v n => parseValue_sound) (fun data hd => ih (hd.trans hlen)) hitems with
                ⟨items, s, left, rfl, rfl, hall, hstuck⟩ | ⟨ext, items, hext, rfl, hall⟩
              · exact .inl (.array ht hall hstuck)
              · refine .inr ⟨ext, ?_⟩
                have hframe : Loose (42 :: (t ++ (crlf ++ items.flatten))) := .array ht hall
                rw [← hext] at hframe
                simpa using hframe
          · exact .inl (.number (.inr rfl) ht hd hbad)
      · rw [herr] at h
        cases h

/-! ## Stuck values -/

theorem natOf_le_append (ds more : Bytes) : natOf ds ≤ natOf (ds ++ more) := by
  unfold natOf
  rw [List.foldl_append]
  exact le_foldl_digits more _

theorem negative_more {t ext : Bytes} {n m : Int} {k : Nat} (ht : IsNumber t n) (hn : n < 0)
    (h : readInt64 (t ++ ext) = some (m, k)) : m < 0 := by
  obtain ⟨ds, -, hd, -, ⟨-, rfl⟩ | ⟨rfl, rfl⟩⟩ := ht
  · omega
  · obtain ⟨t', rest, heq, -, ⟨ds', hne', hd', -, hsign⟩, hrest⟩ := readInt64_sound h
    rcases hsign with ⟨rfl | rfl, rfl⟩ | ⟨rfl, rfl⟩
    · obtain ⟨b, ds', rfl⟩ := List.exists_cons_of_ne_nil hne'
      obtain ⟨rfl, -⟩ := List.cons.inj heq
      exact absurd (hd' 45 List.mem_cons_self) (by decide)
    · exact absurd (List.cons.inj heq).1 (by decide)
    · have hle : natOf ds ≤ natOf ds' := by
        rcases List.append_eq_append_iff.mp (List.cons.inj heq).2 with ⟨more, rfl, -⟩ | ⟨lost, rfl, rfl⟩
        · exact natOf_le_append ds more
        · cases lost with
          | nil => rw [List.append_nil]
          | cons b lost =>
            have hb := hd b (List.mem_append_right ds' List.mem_cons_self)
            rw [hrest b rfl] at hb
            cases hb
      omega

/-- Stuck input is not read, whatever comes behind it. -/
theorem stuck_spec {s : Bytes} (h : Stuck s) {fuel : Nat} (ext : Bytes) (hf : (s ++ ext).length ≤ fuel) :
    (∀ v k, parseValue fuel (s ++ ext) ≠ .ok v k) ∧ (ext = [] → parseValue fuel (s ++ ext) = .needMore) := by
  induction h generalizing fuel with
  | @number c t rest n hc ht hd hrest =>
    obtain ⟨fuel, rfl⟩ : ∃ k, fuel = k + 1 := ⟨fuel - 1, by simp at hf; omega⟩
    obtain ⟨hne, h13, hcrlf⟩ := hrest
    have htake : (rest ++ ext).take 2 ≠ crlf := by
      match rest with
      | [] => exact absurd rfl hne
      | [b] =>
        intro he
        refine h13 ?_
        have hb := congrArg List.head? he
        simp only [List.singleton_append, List.take_succ_cons, List.head?_cons, crlf, Option.some.injEq] at hb
        rw [hb]
      | b :: d :: rest => exact hcrlf
    have hmore : parseValue (fuel + 1) (c :: (t ++ (rest ++ ext))) = .needMore := by
      rcases hc with rfl | rfl
      · rw [parseInteger_eq ht (hd.append hne ext), if_neg htake]
      · rw [parseArray_eq ht (hd.append hne ext), if_neg htake]
    rw [List.cons_append, List.append_assoc, hmore]
    exact ⟨fun v k he => (by cases he), fun _ => rfl⟩
  | @negative t rest n ht hn hrest =>
    obtain ⟨fuel, rfl⟩ : ∃ k, fuel = k + 1 := ⟨fuel - 1, by simp at hf; omega⟩
    rw [List.cons_append, List.append_assoc]
    refine ⟨fun v k he => ?_, ?_⟩
    · rcases header_cases 42 (t ++ (rest ++ ext)) with hc | ⟨-, t', rest', m, heq, ht', hd'⟩ | herr
      · revert hc
        decide
      · have hm : m < 0 := negative_more ht hn (heq ▸ readInt64_number ht' hd')
        rw [heq, parseArray_eq ht' hd', if_pos hm] at he
        split at he <;> cases he
      · rw [herr] at he
        cases he
    · rintro rfl
      have hd : NoDigit rest := by
        rcases hrest with rfl | rfl
        · exact fun b hb => by cases hb
        · exact noDigit_crlf []
      rw [List.append_nil, parseArray_eq ht hd, if_neg]
      rcases hrest with rfl | rfl <;> decide
  | @bulk t sp s c ht hsp hd hc =>
    obtain ⟨fuel, rfl⟩ : ∃ k, fuel = k + 1 := ⟨fuel - 1, by simp at hf; omega⟩
    have hne : sp ++ (s ++ c :: ext) ≠ [] := by simp
    have hdrop : (sp ++ (s ++ c :: ext)).drop (2 + s.length) = c :: ext := by
      rw [← List.drop_drop, ← hsp, List.drop_left, List.drop_left]
    have hshape : 36 :: (t ++ (sp ++ (s ++ [c]))) ++ ext = 36 :: (t ++ (sp ++ (s ++ c :: ext))) := by simp
    have hd' : NoDigit (sp ++ (s ++ c :: ext)) := hd.append (fun he => by simp [he] at hsp) _
    have htake : (c :: ext).take 2 ≠ crlf := fun he => hc (List.cons.inj he).1
    rw [hshape, parseBulk_eq ht hd', if_neg hne, if_neg (by omega), Int.toNat_natCast, hdrop, if_neg htake]
    refine ⟨fun v k he => (by split at he <;> cases he), ?_⟩
    rintro rfl
    rw [if_pos]
    simp only [List.length_append, List.length_cons, List.length_nil, hsp]
    omega
  | @array t s items count ht hitems hs ih =>
    obtain ⟨fuel, rfl⟩ : ∃ k, fuel = k + 1 := ⟨fuel - 1, by simp at hf; omega⟩
    simp only [List.length_cons, List.length_append] at hf
    obtain ⟨hno, hmore⟩ := ih (show (s ++ ext).length ≤ fuel by rw [List.length_append]; omega)
    have hfit : ∀ x ∈ items, x.length ≤ fuel := fun x hx => by
      have hle := length_le_flatten hx
      omega
    have hread := parseArray_append (count + 1) (s ++ ext) ht fun x hx => parseValue_loose (hitems x hx) (hfit x hx)
    have hshape : 42 :: (t ++ (crlf ++ (items.flatten ++ s))) ++ ext =
        42 :: (t ++ (crlf ++ (items.flatten ++ (s ++ ext)))) := by simp
    rw [hshape]
    rw [parseItems] at hread
    cases hp : parseValue fuel (s ++ ext) with
    | ok v k => exact absurd hp (hno v k)
    | needMore =>
      rw [hp] at hread
      cases hr : parseValue (fuel + 1) (42 :: (t ++ (crlf ++ (items.flatten ++ (s ++ ext))))) with
      | needMore => exact ⟨fun v k he => (by cases he), fun _ => rfl⟩
      | ok v k => rw [hr] at hread; cases hread
      | error => rw [hr] at hread; cases hread
    | error =>
      rw [hp] at hread
      refine ⟨fun v k he => ?_, fun he => ?_⟩
      · rw [he] at hread
        cases hread
      · have := hp.symm.trans (hmore he)
        cases this

end Kv
