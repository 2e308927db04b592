import ZeroFrameworks.Kv.Resp.Wedged

/-!
# What the reader accepts and what it waits for

A value has one reading, so a value with a bulk string whose length ends in two stray bytes (`Unended`) is not well
formed, and the reader takes it.  With it, the value that lacks its last byte and the input that is stuck, the cases
in which the reader goes wrong are complete.

    accepted bytes are well formed, and what is incomplete can be completed ↔
      no Unended value in front, not NullCut data, not Stuck data   (readerSound_iff)
-/

namespace Kv

/-! ## Specification -/

/-- A value in which the length of some bulk string is not followed by CR LF. -/
inductive Unended : Bytes → Prop where
  | null {t sp : Bytes} {n : Int} (ht : IsNumber t n) (hn : n < 0) (hsp : sp.length = 2) (hd : NoDigit sp)
      (hsep : sp ≠ crlf) : Unended (36 :: (t ++ sp))
  | bulk {t sp s : Bytes} (ht : IsNumber t s.length) (hsp : sp.length = 2) (hd : NoDigit sp) (hsep : sp ≠ crlf) :
      Unended (36 :: (t ++ (sp ++ (s ++ crlf))))
  | array {t s : Bytes} {items more : List Bytes} (ht : IsNumber t (items ++ s :: more).length)
      (hitems : ∀ x ∈ items, Loose x) (hmore : ∀ x ∈ more, Loose x) (hs : Unended s) :
      Unended (42 :: (t ++ (crlf ++ (items ++ s :: more).flatten)))

/-- A line of words. -/
def InlineLine (f : Bytes) : Prop :=
  ∃ l, f = l ++ crlf ∧ findCrlf l = none ∧ (∃ c ∈ l, isSpace c = false) ∧
    ∀ c, l.head? = some c → isRespPrefix c = false

/-- What is accepted is a value or a line, and what is called incomplete has a continuation that is accepted. -/
def ReaderSound (data : Bytes) : Prop :=
  (∀ v n, tryParse data = .ok v n → WellFormed (data.take n) ∨ InlineLine (data.take n)) ∧
    (tryParse data = .needMore → ∃ ext v n, tryParse (data ++ ext) = .ok v n)

/-! ## One reading -/

theorem number_unique {t t' rest rest' : Bytes} {n n' : Int} (ht : IsNumber t n) (ht' : IsNumber t' n')
    (hd : NoDigit rest) (hd' : NoDigit rest') (h : t ++ rest = t' ++ rest') : t = t' ∧ n = n' ∧ rest = rest' := by
  have hr := readInt64_number ht hd
  rw [h, readInt64_number ht' hd'] at hr
  obtain ⟨rfl, hlen⟩ := Prod.mk.inj (Option.some.inj hr)
  obtain ⟨rfl, rfl⟩ := List.append_inj h hlen.symm
  exact ⟨rfl, rfl, rfl⟩

theorem loose_prefix {f g r r' : Bytes} (hf : Loose f) (hg : Loose g) (h : f ++ r = g ++ r') : f = g := by
  obtain ⟨v, hv⟩ := parseValue_loose hf (Nat.le_max_left f.length g.length) r
  obtain ⟨w, hw⟩ := parseValue_loose hg (Nat.le_max_right f.length g.length) r'
  rw [h, hw] at hv
  exact (List.append_inj h (ParseResult.ok.inj hv).2.symm).1

theorem flatten_unique {xs ys : List Bytes} (hx : ∀ x ∈ xs, Loose x) (hy : ∀ y ∈ ys, Loose y)
    (h : xs.flatten = ys.flatten) : xs = ys := by
  induction xs generalizing ys with
  | nil =>
    cases ys with
    | nil => rfl
    | cons y ys =>
      have hne := (hy y List.mem_cons_self).ne_nil
      simp [hne] at h
  | cons x xs ih =>
    obtain ⟨hx, hxs⟩ := List.forall_mem_cons.mp hx
    cases ys with
    | nil =>
      have hne := hx.ne_nil
      simp [hne] at h
    | cons y ys =>
      obtain ⟨hy, hys⟩ := List.forall_mem_cons.mp hy
      rw [List.flatten_cons, List.flatten_cons] at h
      obtain rfl := loose_prefix hx hy h
      rw [ih hxs hys (List.append_cancel_left h)]

variable {f : Bytes}

theorem Unended.loose (h : Unended f) : Loose f := by
  induction h with
  | null ht hn hsp hd hsep => exact .null ht hn trivial hsp hd
  | bulk ht hsp hd hsep => exact .bulk ht trivial hsp hd
  | array ht hitems hmore hs ih =>
    refine .array ht fun x hx => ?_
    rcases List.mem_append.mp hx with hx | hx
    · exact hitems x hx
    · rcases List.mem_cons.mp hx with rfl | hx
      · exact ih
      · exact hmore x hx

theorem Loose.wellFormed_or (h : Loose f) : WellFormed f ∨ Unended f := by
  induction h with
  | line hc hl => exact .inl (.line hc hl)
  | integer ht => exact .inl (.integer ht)
  | @null t sp n ht hn hsep hsp hd =>
    by_cases hcrlf : sp = crlf
    · exact .inl (.null ht hn hcrlf hsp hd)
    · exact .inr (.null ht hn hsp hd hcrlf)
  | @bulk t sp s ht hsep hsp hd =>
    by_cases hcrlf : sp = crlf
    · exact .inl (.bulk ht hcrlf hsp hd)
    · exact .inr (.bulk ht hsp hd hcrlf)
  | @array t items ht hitems ih =>
    by_cases hall : ∀ x ∈ items, WellFormed x
    · exact .inl (.array ht hall)
    · simp only [not_forall] at hall
      obtain ⟨s, hs, hnot⟩ := hall
      obtain ⟨before, after, rfl⟩ := List.append_of_mem hs
      refine .inr (.array ht ?_ ?_ ((ih s hs).resolve_left hnot))
      · exact fun x hx => hitems x (List.mem_append_left _ hx)
      · exact fun x hx => hitems x (List.mem_append_right _ (List.mem_cons_of_mem s hx))

/-- A value has one reading, so it is not both. -/
theorem Unended.not_wellFormed (h : Unended f) : ¬WellFormed f := by
  intro hwf
  induction h with
  | @null t sp n ht hn hsp hd hsep =>
    generalize hf : 36 :: (t ++ sp) = f at hwf
    cases hwf with
    | line hc hl => rcases hc with rfl | rfl <;> cases hf
    | integer ht' => cases hf
    | null ht' hn' hsep' hsp' hd' =>
      obtain ⟨-, -, rfl⟩ := number_unique ht ht' hd hd' (List.cons.inj hf).2
      exact hsep hsep'
    | @bulk t' sp' s ht' hsep' hsp' hd' =>
      have hne : sp' ≠ [] := fun he => by simp [he] at hsp'
      obtain ⟨-, rfl, -⟩ := number_unique ht ht' hd (hd'.append hne _) (List.cons.inj hf).2
      omega
    | array ht' hitems => cases hf
  | @bulk t sp s ht hsp hd hsep =>
    generalize hf : 36 :: (t ++ (sp ++ (s ++ crlf))) = f at hwf
    have hne : sp ≠ [] := fun he => by simp [he] at hsp
    cases hwf with
    | line hc hl => rcases hc with rfl | rfl <;> cases hf
    | integer ht' => cases hf
    | null ht' hn' hsep' hsp' hd' =>
      obtain ⟨-, rfl, -⟩ := number_unique ht ht' (hd.append hne _) hd' (List.cons.inj hf).2
      omega
    | @bulk t' sp' s' ht' hsep' hsp' hd' =>
      have hne' : sp' ≠ [] := fun he => by simp [he] at hsp'
      obtain ⟨-, -, heq⟩ := number_unique ht ht' (hd.append hne _) (hd'.append hne' _) (List.cons.inj hf).2
      obtain ⟨rfl, -⟩ := List.append_inj heq (hsp.trans hsp'.symm)
      exact hsep hsep'
    | array ht' hitems => cases hf
  | @array t s items more ht hitems hmore hs ih =>
    generalize hf : 42 :: (t ++ (crlf ++ (items ++ s :: more).flatten)) = f at hwf
    cases hwf with
    | line hc hl => rcases hc with rfl | rfl <;> cases hf
    | integer ht' => cases hf
    | null ht' hn' hsep' hsp' hd' => cases hf
    | bulk ht' hsep' hsp' hd' => cases hf
    | @array t' items' ht' hitems' =>
      obtain ⟨-, -, heq⟩ := number_unique ht ht' (noDigit_crlf _) (noDigit_crlf _) (List.cons.inj hf).2
      have hall : ∀ x ∈ items ++ s :: more, Loose x := by
        intro x hx
        rcases List.mem_append.mp hx with hx | hx
        · exact hitems x hx
        · rcases List.mem_cons.mp hx with rfl | hx
          · exact hs.loose
          · exact hmore x hx
      have hsame := flatten_unique hall (fun x hx => WellFormed.loose (hitems' x hx)) (List.append_cancel_left heq)
      refine ih (hitems' s ?_)
      rw [← hsame]
      exact List.mem_append_right _ List.mem_cons_self

/-! ## Lines of words -/

theorem words_ne_nil (l : Bytes) :
    (l.splitOnP isSpace).filter (· ≠ []) ≠ [] ↔ ∃ c ∈ l, isSpace c = false := by
  induction l with
  | nil => simp
  | cons c l ih =>
    rw [List.splitOnP_cons_eq_if_modifyHead]
    by_cases hc : isSpace c = true
    · have hsame : (∃ d ∈ c :: l, isSpace d = false) ↔ ∃ d ∈ l, isSpace d = false := by simp [hc]
      rw [hsame, ← ih]
      simp [hc]
    · obtain ⟨w, ws, hw⟩ := List.exists_cons_of_ne_nil (List.splitOnP_ne_nil isSpace l)
      simp [hc, hw]

variable {data : Bytes}

theorem parseInline_sound {v : RespValue} {n : Nat} (h : parseInline data = .ok v n) :
    ∃ l rest, data = l ++ crlf ++ rest ∧ n = l.length + 2 ∧ findCrlf l = none ∧ ∃ c ∈ l, isSpace c = false := by
  unfold parseInline at h
  cases hl : readLine data with
  | none => rw [hl] at h; cases h
  | some r =>
    obtain ⟨line, k⟩ := r
    obtain ⟨rest, heq, hlen, hnone⟩ := readLine_sound hl
    rw [hl] at h
    simp only at h
    split at h
    · cases h
    next hline =>
      split at h
      · cases h
      next hwords =>
        obtain ⟨-, rfl⟩ := ParseResult.ok.inj h
        exact ⟨line, rest, heq, hlen, hnone, (words_ne_nil line).mp (fun he => hwords (by rw [he]; rfl))⟩

theorem parseInline_line {l : Bytes} (hl : findCrlf l = none) (hword : ∃ c ∈ l, isSpace c = false) :
    ∃ v, parseInline (l ++ crlf) = .ok v (l.length + 2) := by
  have hread := readLine_append l [] hl
  rw [List.append_nil] at hread
  have hne : l.isEmpty = false := by
    obtain ⟨c, hc, -⟩ := hword
    cases l with
    | nil => cases hc
    | cons d l => rfl
  have hwords : ((l.splitOnP isSpace).filter (· ≠ [])).isEmpty = false := by
    have hw := (words_ne_nil l).mpr hword
    cases hf : (l.splitOnP isSpace).filter (· ≠ []) with
    | nil => exact absurd hf hw
    | cons w ws => rfl
  refine ⟨.array (((l.splitOnP isSpace).filter (· ≠ [])).map .bulk), ?_⟩
  unfold parseInline
  rw [hread]
  simp only [hne, hwords, Bool.false_eq_true, if_false]

theorem findCrlf_letter {s : Bytes} (h : findCrlf s = none) : findCrlf (s ++ [120]) = none := by
  induction s with
  | nil => decide
  | cons c s ih =>
    unfold findCrlf at h
    split at h
    · cases h
    next hc =>
      rw [List.cons_append, findCrlf, if_neg, ih (Option.map_eq_none_iff.mp h)]
      · rfl
      · rintro ⟨rfl, h10⟩
        cases s with
        | nil => cases h10
        | cons d s => exact hc ⟨rfl, h10⟩

/-! ## What the buffer begins with -/

/-- The buffer begins like a value. -/
def RespHead (data : Bytes) : Prop := ∃ c, data.head? = some c ∧ isRespPrefix c = true

theorem Frame.respHead {sep : Bytes → Prop} (h : Frame sep f) : RespHead f := by
  cases h with
  | line hc hl => rcases hc with rfl | rfl <;> exact ⟨_, rfl, rfl⟩
  | integer ht => exact ⟨_, rfl, rfl⟩
  | null ht hn hsep hsp hd => exact ⟨_, rfl, rfl⟩
  | bulk ht hsep hsp hd => exact ⟨_, rfl, rfl⟩
  | array ht hitems => exact ⟨_, rfl, rfl⟩

theorem NullCut.respHead (h : NullCut f) : RespHead f := by
  cases h <;> exact ⟨_, rfl, rfl⟩

theorem Stuck.respHead (h : Stuck f) : RespHead f := by
  cases h with
  | number hc ht hd hrest => rcases hc with rfl | rfl <;> exact ⟨_, rfl, rfl⟩
  | negative ht hn hrest => exact ⟨_, rfl, rfl⟩
  | bulk ht hsp hd hc => exact ⟨_, rfl, rfl⟩
  | array ht hitems hs => exact ⟨_, rfl, rfl⟩

theorem RespHead.append (h : RespHead f) (rest : Bytes) : RespHead (f ++ rest) := by
  obtain ⟨c, hc, hp⟩ := h
  cases f with
  | nil => cases hc
  | cons b f => exact ⟨c, hc, hp⟩

theorem RespHead.tryParse_eq (h : RespHead data) : tryParse data = parseValue data.length data := by
  obtain ⟨c, hc, hp⟩ := h
  rw [tryParse, hc]
  simp only [hp, if_true]

theorem RespHead.not_inlineLine (h : RespHead f) : ¬InlineLine f := by
  rintro ⟨l, rfl, -, ⟨b, hb, -⟩, hhead⟩
  obtain ⟨c, hc, hp⟩ := h
  cases l with
  | nil => cases hb
  | cons d l =>
    obtain rfl : d = c := Option.some.inj hc
    rw [hhead d rfl] at hp
    cases hp

theorem head_cases (data : Bytes) :
    data = [] ∨ RespHead data ∨
      (tryParse data = parseInline data ∧ data ≠ [] ∧ ∀ c, data.head? = some c → isRespPrefix c = false) := by
  cases data with
  | nil => exact .inl rfl
  | cons c data =>
    by_cases hc : isRespPrefix c = true
    · exact .inr (.inl ⟨c, rfl, hc⟩)
    · refine .inr (.inr ⟨?_, List.cons_ne_nil c data, fun d hd => ?_⟩)
      · rw [tryParse, List.head?_cons]
        simp only [hc, Bool.false_eq_true, if_false]
      · obtain rfl : c = d := Option.some.inj hd
        simpa using hc

theorem tryParse_loose (h : Loose f) (rest : Bytes) : ∃ v, tryParse (f ++ rest) = .ok v f.length := by
  rw [(h.respHead.append rest).tryParse_eq]
  exact parseValue_loose h (by rw [List.length_append]; omega) rest

theorem tryParse_nullCut (h : NullCut data) : ∃ v, tryParse data = .ok v (data.length + 1) := by
  rw [h.respHead.tryParse_eq]
  exact parseValue_nullCut h le_rfl

/-! ## Top theorem -/

theorem ReaderSound.notUnended {data f : Bytes} (h : ReaderSound data) (hf : f <+: data) : ¬Unended f := by
  intro hu
  obtain ⟨rest, rfl⟩ := hf
  obtain ⟨v, hv⟩ := tryParse_loose hu.loose rest
  have htaken := h.1 v f.length hv
  rw [List.take_left] at htaken
  rcases htaken with hwf | hline
  · exact hu.not_wellFormed hwf
  · exact hu.loose.respHead.not_inlineLine hline

theorem ReaderSound.notNullCut (h : ReaderSound data) : ¬NullCut data := by
  intro hcut
  obtain ⟨v, hv⟩ := tryParse_nullCut hcut
  have htaken := h.1 v _ hv
  rw [List.take_of_length_le (Nat.le_succ _)] at htaken
  rcases htaken with hwf | hline
  · obtain ⟨w, hw⟩ := tryParse_loose hwf.loose []
    rw [List.append_nil, hv] at hw
    exact absurd (ParseResult.ok.inj hw).2 (Nat.succ_ne_self _)
  · exact hcut.respHead.not_inlineLine hline

theorem ReaderSound.notStuck (h : ReaderSound data) : ¬Stuck data := by
  intro hs
  have hfuel : (data ++ []).length ≤ data.length := by rw [List.append_nil]
  have hmore := (stuck_spec hs [] hfuel).2 rfl
  rw [List.append_nil, ← hs.respHead.tryParse_eq] at hmore
  obtain ⟨ext, v, n, hread⟩ := h.2 hmore
  rw [(hs.respHead.append ext).tryParse_eq] at hread
  exact (stuck_spec hs ext le_rfl).1 v n hread

theorem accepted {v : RespValue} {n : Nat} (hfront : ∀ f, f <+: data → ¬Unended f)
    (hcut : ¬NullCut data) (h : tryParse data = .ok v n) : WellFormed (data.take n) ∨ InlineLine (data.take n) := by
  rcases head_cases data with rfl | hhead | ⟨heq, -, hplain⟩
  · cases h
  · rw [hhead.tryParse_eq] at h
    obtain ⟨f, rest, rfl, rfl, hf⟩ := (parseValue_sound h).resolve_right fun hc => hcut hc.2
    rw [List.take_left]
    exact .inl (hf.wellFormed_or.resolve_right (hfront f (List.prefix_append f rest)))
  · rw [heq] at h
    obtain ⟨l, rest, rfl, rfl, hl, hword⟩ := parseInline_sound h
    refine .inr ⟨l, ?_, hl, hword, fun c hc => hplain c ?_⟩
    · rw [List.take_append_of_le_length (by simp [crlf])]
      exact List.take_of_length_le (by simp [crlf])
    · cases l with
      | nil => cases hc
      | cons d l => exact hc

theorem completed (hstuck : ¬Stuck data) (h : tryParse data = .needMore) :
    ∃ ext v n, tryParse (data ++ ext) = .ok v n := by
  rcases head_cases data with rfl | hhead | ⟨heq, hne, hplain⟩
  · obtain ⟨v, hv⟩ := tryParse_loose loose_emptyLine []
    exact ⟨emptyLine, v, _, by rwa [List.append_nil] at hv⟩
  · rw [hhead.tryParse_eq] at h
    obtain ⟨ext, hext⟩ := (needMore_cases le_rfl h).resolve_left hstuck
    obtain ⟨v, hv⟩ := tryParse_loose hext []
    exact ⟨ext, v, _, by rwa [List.append_nil] at hv⟩
  · -- a word and the end of the line
    rw [heq] at h
    have hnone : findCrlf data = none := by
      unfold parseInline at h
      cases hl : readLine data with
      | none => exact Option.map_eq_none_iff.mp hl
      | some r =>
        rw [hl] at h
        simp only at h
        split at h
        · cases h
        · split at h <;> cases h
    obtain ⟨v, hv⟩ := parseInline_line (findCrlf_letter hnone) ⟨120, by simp, by decide⟩
    refine ⟨[120] ++ crlf, v, (data ++ [120]).length + 2, ?_⟩
    rw [← List.append_assoc, ← hv]
    obtain ⟨c, rest, rfl⟩ := List.exists_cons_of_ne_nil hne
    have hc := hplain c rfl
    rw [tryParse, List.cons_append, List.cons_append, List.head?_cons]
    simp only [hc, Bool.false_eq_true, if_false]

end Kv
