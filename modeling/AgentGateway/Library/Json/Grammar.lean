import AgentGateway.Library.Json.RoundTrip

/-!
# The grammar of JSON texts

RFC 8259 as a relation between syntax trees and texts.  The reader accepts
exactly the texts that the grammar derives, within its bound on nesting, and
returns the tree of the derivation.
-/

namespace Json

/-! ## The grammar -/

/-- Insignificant white space. -/
def Spaces (cs : List Char) : Prop := ∀ c ∈ cs, isSpace c = true

/-- `CharText c cs`: inside a string literal `cs` writes the character `c`.
There is no text for a half of a surrogate pair. -/
inductive CharText : Char → List Char → Prop
  | plain {c : Char} : c ≠ '"' → c ≠ '\\' → 32 ≤ c.toNat → CharText c [c]
  | escape {e c : Char} : unescape? e = some c → CharText c ['\\', e]
  | unit {a b c d : Char} {n : ℕ} : codeUnit? a b c d = some n →
      ¬(0xD800 ≤ n ∧ n < 0xE000) →
        CharText (Char.ofNat n) ['\\', 'u', a, b, c, d]
  | pair {a b c d e f g h : Char} {n m : ℕ} : codeUnit? a b c d = some n →
      0xD800 ≤ n ∧ n < 0xDC00 → codeUnit? e f g h = some m →
        0xDC00 ≤ m ∧ m < 0xE000 →
          CharText (Char.ofNat
            (0x10000 + (n - 0xD800) * 0x400 + (m - 0xDC00)))
            ['\\', 'u', a, b, c, d, '\\', 'u', e, f, g, h]

inductive CharsText : List Char → List Char → Prop
  | nil : CharsText [] []
  | cons {c : Char} {cs ds es : List Char} : CharText c ds →
      CharsText cs es → CharsText (c :: cs) (ds ++ es)

/-- A string literal, quotes included. -/
inductive StringText : String → List Char → Prop
  | mk {cs ds : List Char} : CharsText cs ds →
      StringText (String.ofList cs) ('"' :: (ds ++ ['"']))

def Digits (ds : List Char) : Prop :=
  ds ≠ [] ∧ ∀ d ∈ ds, d.isDigit = true

/-- The integer part of a number has no superfluous leading zero. -/
def IntegerText (ds : List Char) : Prop :=
  Digits ds ∧ ∀ d rest, ds ≠ '0' :: d :: rest

inductive FractionText : List Char → Prop
  | none : FractionText []
  | some {ds : List Char} : Digits ds → FractionText ('.' :: ds)

inductive ExponentText : List Char → Prop
  | none : ExponentText []
  | some {e : Char} {sign ds : List Char} : e = 'e' ∨ e = 'E' →
      sign = [] ∨ sign = ['+'] ∨ sign = ['-'] → Digits ds →
        ExponentText (e :: (sign ++ ds))

def signText (negative : Bool) : List Char := if negative then ['-'] else []

inductive NumberText : Number → List Char → Prop
  | mk {negative : Bool} {ds fraction exponent : List Char} :
      IntegerText ds → FractionText fraction → ExponentText exponent →
        NumberText (classify negative ds (fraction ++ exponent))
          (signText negative ++ (ds ++ (fraction ++ exponent)))

mutual
inductive ValueText : Value → List Char → Prop
  | null : ValueText .null ['n', 'u', 'l', 'l']
  | isTrue : ValueText (.bool true) ['t', 'r', 'u', 'e']
  | isFalse : ValueText (.bool false) ['f', 'a', 'l', 's', 'e']
  | num {n : Number} {cs : List Char} : NumberText n cs → ValueText (.num n) cs
  | str {s : String} {cs : List Char} : StringText s cs → ValueText (.str s) cs
  | emptyArr {ws : List Char} : Spaces ws →
      ValueText (.arr []) ('[' :: (ws ++ [']']))
  | arr {xs : List Value} {cs : List Char} : ItemsText xs cs →
      ValueText (.arr xs) ('[' :: (cs ++ [']']))
  | emptyObj {ws : List Char} : Spaces ws →
      ValueText (.obj []) ('{' :: (ws ++ ['}']))
  | obj {fs : List (String × Value)} {cs : List Char} : FieldsText fs cs →
      ValueText (.obj fs) ('{' :: (cs ++ ['}']))

/-- One or more items with their commas. -/
inductive ItemsText : List Value → List Char → Prop
  | last {x : Value} {l cs r : List Char} : Spaces l → ValueText x cs →
      Spaces r → ItemsText [x] (l ++ (cs ++ r))
  | cons {x : Value} {xs : List Value} {l cs r ds : List Char} : Spaces l →
      ValueText x cs → Spaces r → ItemsText xs ds →
        ItemsText (x :: xs) (l ++ (cs ++ (r ++ ',' :: ds)))

/-- One or more fields with their commas. -/
inductive FieldsText : List (String × Value) → List Char → Prop
  | last {k : String} {x : Value} {a ks b l cs r : List Char} : Spaces a →
      StringText k ks → Spaces b → Spaces l → ValueText x cs → Spaces r →
        FieldsText [(k, x)] (a ++ (ks ++ (b ++ ':' :: (l ++ (cs ++ r)))))
  | cons {k : String} {x : Value} {fs : List (String × Value)}
      {a ks b l cs r ds : List Char} : Spaces a → StringText k ks →
        Spaces b → Spaces l → ValueText x cs → Spaces r → FieldsText fs ds →
          FieldsText ((k, x) :: fs)
            (a ++ (ks ++ (b ++ ':' :: (l ++ (cs ++ (r ++ ',' :: ds))))))
end

/-- A whole text: a value with white space around it. -/
inductive Text : Value → List Char → Prop
  | mk {v : Value} {l cs r : List Char} : Spaces l → ValueText v cs →
      Spaces r → Text v (l ++ (cs ++ r))

/-! ## White space -/

theorem Spaces.nil : Spaces [] := by
  simp [Spaces]

theorem spaces_skipSpace (cs : List Char) :
    ∃ ws, Spaces ws ∧ cs = ws ++ skipSpace cs := by
  induction cs with
  | nil => exact ⟨[], .nil, rfl⟩
  | cons c cs ih =>
      by_cases hc : isSpace c = true
      · obtain ⟨ws, hws, heq⟩ := ih
        refine ⟨c :: ws, ?_, ?_⟩
        · simpa [Spaces, hc] using hws
        · rw [skipSpace, if_pos hc, List.cons_append, ← heq]
      · refine ⟨[], .nil, ?_⟩
        rw [skipSpace, if_neg hc, List.nil_append]

theorem skipSpace_append {ws : List Char} (hws : Spaces ws)
    (cs : List Char) : skipSpace (ws ++ cs) = skipSpace cs := by
  induction ws with
  | nil => rfl
  | cons w ws ih =>
      have hw : isSpace w = true := hws w (by simp)
      rw [List.cons_append, skipSpace, if_pos hw,
        ih fun c hc => hws c (by simp [hc])]

theorem skipSpace_eq_nil {cs : List Char} (h : skipSpace cs = []) :
    Spaces cs := by
  obtain ⟨ws, hws, heq⟩ := spaces_skipSpace cs
  rw [h, List.append_nil] at heq
  exact heq ▸ hws

/-! ## Strings -/

theorem readChars_char {c : Char} {ds : List Char} (h : CharText c ds)
    (cs : List Char) :
    readChars (ds ++ cs) = (readChars cs).map fun r => (c :: r.1, r.2) := by
  cases h with
  | plain hquote hback hprint =>
      exact readChars_plain hquote hback (by omega) cs
  | @escape e c he =>
      have hu : e ≠ 'u' := by
        rintro rfl
        simp [unescape?] at he
      simp only [List.cons_append, List.nil_append]
      rw [readChars]
      · rw [he]
      · intro a b c d cs' h
        exact absurd h hu
  | @unit a b c d n hn hrange =>
      have hhigh : ¬(0xD800 ≤ n ∧ n < 0xDC00) := by omega
      have hlow : ¬(0xDC00 ≤ n ∧ n < 0xE000) := by omega
      simp [readChars, hn, hhigh, hlow]
  | pair hn hhigh hm hlow =>
      simp [readChars, hn, hhigh, hm, hlow]

theorem readChars_text {cs ds : List Char} (h : CharsText cs ds)
    (rest : List Char) : readChars (ds ++ '"' :: rest) = some (cs, rest) := by
  induction h with
  | nil => simp [readChars]
  | cons hc _ ih =>
      rw [List.append_assoc, readChars_char hc, ih]
      rfl

theorem text_of_map {c : Char} {ds cs es rest : List Char}
    (hc : CharText c ds)
    (ih : ∀ es, readChars cs = some (es, rest) →
      ∃ ds, CharsText es ds ∧ cs = ds ++ '"' :: rest)
    (h : (readChars cs).map (fun r => (c :: r.1, r.2)) = some (es, rest)) :
    ∃ es', CharsText es es' ∧ ds ++ cs = es' ++ '"' :: rest := by
  obtain ⟨r, hr, heq⟩ := Option.map_eq_some_iff.mp h
  cases heq
  obtain ⟨ds', hds, rfl⟩ := ih _ hr
  exact ⟨ds ++ ds', .cons hc hds, by simp⟩

/-- What the reader takes for the rest of a string literal is one. -/
theorem text_of_readChars {cs es rest : List Char}
    (h : readChars cs = some (es, rest)) :
    ∃ ds, CharsText es ds ∧ cs = ds ++ '"' :: rest := by
  fun_induction readChars cs generalizing es with
  | case1 => cases h
  | case2 cs =>
      cases h
      exact ⟨[], .nil, rfl⟩
  | case5 a b c d n hn hhigh e f g k cs m hm hlow ih =>
      exact text_of_map (.pair hn hhigh hm hlow) (fun _ => ih) h
  | case9 a b c d cs n hn hhigh hlow ih =>
      exact text_of_map (.unit hn (by omega)) (fun _ => ih) h
  | case11 e cs _ c hc ih => exact text_of_map (.escape hc) (fun _ => ih) h
  | case13 c cs hquote _ hback hprint ih =>
      have hne : c ≠ '\\' := by
        rintro rfl
        cases cs with
        | nil => simp [readChars] at h
        | cons e cs => exact hback e cs rfl rfl
      exact text_of_map (.plain hquote hne (by omega)) (fun _ => ih) h
  | _ => cases h

/-! ## Numbers -/

/-- The text after a number does not continue it. -/
def NumberEnd (rest : List Char) : Prop :=
  ∀ c cs, rest = c :: cs → c.isDigit = false ∧ c ≠ '.' ∧ c ≠ 'e' ∧ c ≠ 'E'

theorem NumberEnd.nil : NumberEnd [] := by
  intro c cs h
  cases h

theorem NumberEnd.cons {c : Char} (hc : isSpace c = true ∨ c ∈ [',', ']', '}'])
    (cs : List Char) : NumberEnd (c :: cs) := by
  rintro d ds ⟨⟩
  simp only [isSpace, Bool.or_eq_true, decide_eq_true_eq, List.mem_cons,
    List.not_mem_nil, or_false] at hc
  rcases hc with (((rfl | rfl) | rfl) | rfl) | rfl | rfl | rfl <;> decide

theorem NumberEnd.append {ws rest : List Char} (hws : Spaces ws)
    (hrest : NumberEnd rest) : NumberEnd (ws ++ rest) := by
  cases ws with
  | nil => exact hrest
  | cons w ws => exact .cons (.inl (hws w (by simp))) _

theorem spanDigits_spec (cs : List Char) :
    cs = (spanDigits cs).1 ++ (spanDigits cs).2 ∧
      ∀ d ∈ (spanDigits cs).1, d.isDigit = true := by
  induction cs with
  | nil => simp [spanDigits]
  | cons c cs ih =>
      by_cases hc : c.isDigit = true
      · simp only [spanDigits, hc, if_true, List.cons_append, List.mem_cons]
        refine ⟨congrArg _ ih.1, ?_⟩
        rintro d (rfl | hd)
        · exact hc
        · exact ih.2 d hd
      · simp [spanDigits, hc]

theorem readInteger_text {ds rest : List Char} (hds : IntegerText ds)
    (hrest : ∀ c cs, rest = c :: cs → c.isDigit = false) :
    readInteger (ds ++ rest) = some (ds, rest) := by
  obtain ⟨⟨hne, hdigits⟩, hzero⟩ := hds
  rw [readInteger, spanDigits_append hdigits hrest]
  split
  next h => exact absurd (congrArg Prod.fst h) hne
  next d ds' _ h => exact absurd (congrArg Prod.fst h) (hzero d ds')
  next h =>
    cases h
    rfl

theorem text_of_readInteger {cs ds rest : List Char}
    (h : readInteger cs = some (ds, rest)) :
    IntegerText ds ∧ cs = ds ++ rest := by
  obtain ⟨heq, hdigits⟩ := spanDigits_spec cs
  rw [readInteger] at h
  split at h
  next => cases h
  next => cases h
  next ds' rest' hempty hzero hspan =>
    cases h
    rw [hspan] at heq hdigits
    refine ⟨⟨⟨?_, hdigits⟩, ?_⟩, heq⟩
    · rintro rfl
      exact hempty rfl
    · rintro d ds' rfl
      exact hzero d ds' rfl

theorem readFraction_text {fraction rest : List Char}
    (h : FractionText fraction)
    (hrest : ∀ c cs, rest = c :: cs → c.isDigit = false ∧ c ≠ '.') :
    readFraction (fraction ++ rest) = some (fraction, rest) := by
  cases h with
  | none =>
      cases rest with
      | nil => rfl
      | cons c cs =>
          have hc : c ≠ '.' := (hrest c cs rfl).2
          rw [List.nil_append, readFraction]
          rintro ds ⟨⟩
          exact hc rfl
  | some hds =>
      rw [List.cons_append, readFraction, spanDigits_append hds.2
        fun c cs hc => (hrest c cs hc).1]
      split
      next h => exact absurd (congrArg Prod.fst h) hds.1
      next h =>
        cases h
        rfl

theorem text_of_readFraction {cs fraction rest : List Char}
    (h : readFraction cs = some (fraction, rest)) :
    FractionText fraction ∧ cs = fraction ++ rest := by
  unfold readFraction at h
  split at h
  · next cs =>
    obtain ⟨heq, hdigits⟩ := spanDigits_spec cs
    split at h
    · cases h
    · next ds rest' hempty hspan =>
      cases h
      rw [hspan] at heq hdigits
      refine ⟨.some ⟨?_, hdigits⟩, congrArg _ heq⟩
      rintro rfl
      exact hempty rfl
  · cases h
    exact ⟨.none, rfl⟩

theorem readExponent_text {exponent rest : List Char}
    (h : ExponentText exponent) (hrest : NumberEnd rest) :
    readExponent (exponent ++ rest) = some (exponent, rest) := by
  cases h with
  | none =>
      cases rest with
      | nil => rfl
      | cons c cs =>
          obtain ⟨_, _, he, hE⟩ := hrest c cs rfl
          simp [readExponent, he, hE]
  | @some e sign ds he hsign hds =>
      have hspan : spanDigits (ds ++ rest) = (ds, rest) :=
        spanDigits_append hds.2 fun c cs hc => (hrest c cs hc).1
      obtain ⟨d, ds, rfl⟩ := List.exists_cons_of_ne_nil hds.1
      have hd : d.isDigit = true := hds.2 d (by simp)
      have hplus : d ≠ '+' := by
        rintro rfl
        simp at hd
      have hminus : d ≠ '-' := by
        rintro rfl
        simp at hd
      simp only [List.cons_append] at hspan
      rcases hsign with rfl | rfl | rfl
      · simp [readExponent, he, hplus, hminus, hspan]
      · simp [readExponent, he, hspan]
      · simp [readExponent, he, hspan]

/-- What comes after an exponent ends the digits before it, too. -/
theorem ExponentText.ends {exponent rest : List Char}
    (h : ExponentText exponent) (hrest : NumberEnd rest) :
    ∀ c cs, exponent ++ rest = c :: cs → c.isDigit = false ∧ c ≠ '.' := by
  intro c cs heq
  cases h with
  | none =>
      obtain ⟨hdigit, hdot, _⟩ := hrest c cs heq
      exact ⟨hdigit, hdot⟩
  | some he _ _ =>
      rw [List.cons_append] at heq
      cases heq
      rcases he with rfl | rfl <;> decide

theorem text_of_readExponent {cs exponent rest : List Char}
    (h : readExponent cs = some (exponent, rest)) :
    ExponentText exponent ∧ cs = exponent ++ rest := by
  fun_cases readExponent cs with
  | case1 e cs he sign cs' hsign _ hspan =>
      simp only [readExponent, he, if_true, hsign, hspan] at h
      cases h
  | case2 e cs he sign cs' hsign ds rest' hne hspan =>
      obtain ⟨rfl, hdigits⟩ := by simpa [hspan] using spanDigits_spec cs'
      have hds : Digits ds := ⟨hne, hdigits⟩
      simp only [readExponent, he, if_true, hsign, hspan] at h
      cases h
      split at hsign
      · cases hsign
        exact ⟨.some he (.inr (.inl rfl)) hds, by simp⟩
      · cases hsign
        exact ⟨.some he (.inr (.inr rfl)) hds, by simp⟩
      · cases hsign
        exact ⟨.some he (.inl rfl) hds, by simp⟩
  | case3 e cs he =>
      simp only [readExponent, he, if_false] at h
      cases h
      exact ⟨.none, rfl⟩
  | case4 =>
      cases h
      exact ⟨.none, rfl⟩

theorem NumberText.head {n : Number} {cs : List Char} (h : NumberText n cs) :
    ∃ c ds, cs = c :: ds ∧ (c.isDigit = true ∨ c = '-') := by
  cases h with
  | @mk negative ds fraction exponent hds _ _ =>
      cases negative with
      | true => exact ⟨_, _, rfl, .inr rfl⟩
      | false =>
          obtain ⟨d, ds, rfl⟩ := List.exists_cons_of_ne_nil hds.1.1
          exact ⟨d, _, rfl, .inl (hds.1.2 d (by simp))⟩

theorem readNumber_text {n : Number} {cs rest : List Char}
    (h : NumberText n cs) (hrest : NumberEnd rest) :
    readNumber (cs ++ rest) = some (n, rest) := by
  cases h with
  | @mk negative ds fraction exponent hds hfraction hexponent =>
      have hinteger : readInteger (ds ++ (fraction ++ (exponent ++ rest))) =
          some (ds, fraction ++ (exponent ++ rest)) := by
        refine readInteger_text hds fun c cs h => ?_
        cases hfraction with
        | none => exact (hexponent.ends hrest c cs h).1
        | some _ =>
            cases h
            decide
      have hfrac : readFraction (fraction ++ (exponent ++ rest)) =
          some (fraction, exponent ++ rest) :=
        readFraction_text hfraction fun c cs h =>
          hexponent.ends hrest c cs h
      have hexp := readExponent_text hexponent hrest
      obtain ⟨d, ds', hcons⟩ := List.exists_cons_of_ne_nil hds.1.1
      have hd : d ≠ '-' := by
        rintro rfl
        exact absurd (hds.1.2 '-' (by simp [hcons])) (by decide)
      unfold readNumber
      cases hneg : negative with
      | true =>
          simp [signText, hinteger, hfrac, hexp]
      | false =>
          subst hcons
          simp only [List.cons_append] at hinteger
          simp [signText, hd, hinteger, hfrac, hexp]

theorem text_of_readNumber {n : Number} {cs rest : List Char}
    (h : readNumber cs = some (n, rest)) :
    ∃ ds, NumberText n ds ∧ cs = ds ++ rest := by
  unfold readNumber at h
  split at h
  next negative cs' hsign =>
    have hcs : cs = signText negative ++ cs' := by
      split at hsign
      · cases hsign
        rfl
      · cases hsign
        rfl
    split at h
    · cases h
    next ds cs₁ hds =>
      split at h
      · cases h
      next fraction cs₂ hfraction =>
        split at h
        · cases h
        next exponent cs₃ hexponent =>
          cases h
          obtain ⟨hinteger, rfl⟩ := text_of_readInteger hds
          obtain ⟨hfrac, rfl⟩ := text_of_readFraction hfraction
          obtain ⟨hexp, rfl⟩ := text_of_readExponent hexponent
          refine ⟨_, .mk hinteger hfrac hexp, ?_⟩
          simp [hcs]

/-! ## What the reader accepts -/

theorem ItemsText.spaces {xs : List Value} {ws cs : List Char}
    (hws : Spaces ws) (h : ItemsText xs cs) : ItemsText xs (ws ++ cs) := by
  have happend : ∀ l, Spaces l → Spaces (ws ++ l) := by
    intro l hl c hc
    rcases List.mem_append.mp hc with hc | hc
    · exact hws c hc
    · exact hl c hc
  cases h with
  | last hl hx hr =>
      rw [← List.append_assoc]
      exact .last (happend _ hl) hx hr
  | cons hl hx hr hxs =>
      rw [← List.append_assoc]
      exact .cons (happend _ hl) hx hr hxs

theorem FieldsText.spaces {fs : List (String × Value)} {ws cs : List Char}
    (hws : Spaces ws) (h : FieldsText fs cs) : FieldsText fs (ws ++ cs) := by
  have happend : ∀ l, Spaces l → Spaces (ws ++ l) := by
    intro l hl c hc
    rcases List.mem_append.mp hc with hc | hc
    · exact hws c hc
    · exact hl c hc
  cases h with
  | last ha hk hb hl hx hr =>
      rw [← List.append_assoc]
      exact .last (happend _ ha) hk hb hl hx hr
  | cons ha hk hb hl hx hr hfs =>
      rw [← List.append_assoc]
      exact .cons (happend _ ha) hk hb hl hx hr hfs

/-- What each reader takes off the front of a text with some fuel is derived by
its part of the grammar. -/
structure ReadersText (fuel : ℕ) : Prop where
  value : ∀ depth cs v rest, readValue fuel depth cs = some (v, rest) →
    ∃ ws ds, Spaces ws ∧ ValueText v ds ∧ cs = ws ++ (ds ++ rest)
  items : ∀ depth cs xs rest, readItems fuel depth cs = some (xs, rest) →
    ∃ ds, ItemsText xs ds ∧ cs = ds ++ ']' :: rest
  fields : ∀ depth cs fs rest, readFields fuel depth cs = some (fs, rest) →
    ∃ ds, FieldsText fs ds ∧ cs = ds ++ '}' :: rest

theorem ReadersText.value_succ {fuel depth : ℕ} {cs rest : List Char}
    {v : Value} (ih : ReadersText fuel)
    (h : readValue (fuel + 1) depth cs = some (v, rest)) :
    ∃ ws ds, Spaces ws ∧ ValueText v ds ∧ cs = ws ++ (ds ++ rest) := by
  obtain ⟨ws, hws, hcs⟩ := spaces_skipSpace cs
  rw [readValue] at h
  split at h
  · next cs' heq =>
    cases h
    exact ⟨ws, _, hws, .null, by rw [hcs, heq]; rfl⟩
  · next cs' heq =>
    cases h
    exact ⟨ws, _, hws, .isTrue, by rw [hcs, heq]; rfl⟩
  · next cs' heq =>
    cases h
    exact ⟨ws, _, hws, .isFalse, by rw [hcs, heq]; rfl⟩
  · next cs' heq =>
    obtain ⟨r, hr, hpair⟩ := Option.map_eq_some_iff.mp h
    cases hpair
    obtain ⟨ds, hds, rfl⟩ := text_of_readChars hr
    exact ⟨ws, _, hws, .str (.mk hds), by rw [hcs, heq]; simp⟩
  · next cs' heq =>
    split at h
    · cases h
    · obtain ⟨ws', hws', hcs'⟩ := spaces_skipSpace cs'
      split at h
      · next cs'' heq' =>
        cases h
        refine ⟨ws, _, hws, .emptyArr hws', ?_⟩
        rw [hcs, heq, hcs', heq']
        simp
      · obtain ⟨r, hr, hpair⟩ := Option.map_eq_some_iff.mp h
        cases hpair
        obtain ⟨ds, hds, heq'⟩ := ih.items _ _ _ _ hr
        refine ⟨ws, _, hws, .arr (hds.spaces hws'), ?_⟩
        rw [hcs, heq, hcs', heq']
        simp
  · next cs' heq =>
    split at h
    · cases h
    · obtain ⟨ws', hws', hcs'⟩ := spaces_skipSpace cs'
      split at h
      · next cs'' heq' =>
        cases h
        refine ⟨ws, _, hws, .emptyObj hws', ?_⟩
        rw [hcs, heq, hcs', heq']
        simp
      · obtain ⟨r, hr, hpair⟩ := Option.map_eq_some_iff.mp h
        cases hpair
        obtain ⟨ds, hds, heq'⟩ := ih.fields _ _ _ _ hr
        refine ⟨ws, _, hws, .obj (hds.spaces hws'), ?_⟩
        rw [hcs, heq, hcs', heq']
        simp
  · obtain ⟨r, hr, hpair⟩ := Option.map_eq_some_iff.mp h
    cases hpair
    obtain ⟨ds, hds, heq⟩ := text_of_readNumber hr
    exact ⟨ws, ds, hws, .num hds, by rw [← heq, ← hcs]⟩

theorem ReadersText.items_succ {fuel depth : ℕ} {cs rest : List Char}
    {xs : List Value} (ih : ReadersText fuel)
    (h : readItems (fuel + 1) depth cs = some (xs, rest)) :
    ∃ ds, ItemsText xs ds ∧ cs = ds ++ ']' :: rest := by
  rw [readItems] at h
  split at h
  · cases h
  next x cs' hx =>
    obtain ⟨l, ds, hl, hds, rfl⟩ := ih.value _ _ _ _ hx
    obtain ⟨r, hr, hcs'⟩ := spaces_skipSpace cs'
    split at h
    · next cs'' heq =>
      obtain ⟨p, hp, hpair⟩ := Option.map_eq_some_iff.mp h
      cases hpair
      obtain ⟨es, hes, rfl⟩ := ih.items _ _ _ _ hp
      refine ⟨_, .cons hl hds hr hes, ?_⟩
      rw [hcs', heq]
      simp
    · next cs'' heq =>
      cases h
      refine ⟨_, .last hl hds hr, ?_⟩
      rw [hcs', heq]
      simp
    · cases h

theorem ReadersText.fields_succ {fuel depth : ℕ} {cs rest : List Char}
    {fs : List (String × Value)} (ih : ReadersText fuel)
    (h : readFields (fuel + 1) depth cs = some (fs, rest)) :
    ∃ ds, FieldsText fs ds ∧ cs = ds ++ '}' :: rest := by
  obtain ⟨a, ha, hcs⟩ := spaces_skipSpace cs
  rw [readFields] at h
  split at h
  · next cs₁ heq₁ =>
    split at h
    · cases h
    next k cs₂ hk =>
      obtain ⟨ks, hks, rfl⟩ := text_of_readChars hk
      obtain ⟨b, hb, hcs₂⟩ := spaces_skipSpace cs₂
      split at h
      · next cs₃ heq₃ =>
        split at h
        · cases h
        next x cs₄ hx =>
          obtain ⟨l, ds, hl, hds, rfl⟩ := ih.value _ _ _ _ hx
          obtain ⟨r, hr, hcs₄⟩ := spaces_skipSpace cs₄
          split at h
          · next cs₅ heq₅ =>
            obtain ⟨p, hp, hpair⟩ := Option.map_eq_some_iff.mp h
            cases hpair
            obtain ⟨es, hes, rfl⟩ := ih.fields _ _ _ _ hp
            refine ⟨_, .cons ha (.mk hks) hb hl hds hr hes, ?_⟩
            rw [hcs, heq₁, hcs₂, heq₃, hcs₄, heq₅]
            simp
          · next cs₅ heq₅ =>
            cases h
            refine ⟨_, .last ha (.mk hks) hb hl hds hr, ?_⟩
            rw [hcs, heq₁, hcs₂, heq₃, hcs₄, heq₅]
            simp
          · cases h
      · cases h
  · cases h

/-- The three readers call each other with less fuel. -/
theorem text_of_readers (fuel : ℕ) : ReadersText fuel := by
  induction fuel with
  | zero =>
      constructor <;> intro depth cs v rest h
      · simp [readValue] at h
      · simp [readItems] at h
      · simp [readFields] at h
  | succ fuel ih =>
      constructor <;> intro depth cs v rest h
      · exact ih.value_succ h
      · exact ih.items_succ h
      · exact ih.fields_succ h

theorem text_of_read {depth : ℕ} {cs : List Char} {v : Value}
    (h : read depth cs = some v) : Text v cs := by
  rw [read] at h
  split at h
  next w rest hread =>
    split_ifs at h with hrest
    cases h
    obtain ⟨l, ds, hl, hds, rfl⟩ := (text_of_readers _).value _ _ _ _ hread
    exact .mk hl hds (skipSpace_eq_nil hrest)
  · cases h

/-! ## What the grammar derives -/

theorem skipSpace_skipSpace (cs : List Char) :
    skipSpace (skipSpace cs) = skipSpace cs := by
  obtain ⟨ws, hws, hcs⟩ := spaces_skipSpace cs
  have hskip := skipSpace_append hws (skipSpace cs)
  rw [← hcs] at hskip
  exact hskip.symm

theorem readValue_skipSpace (fuel depth : ℕ) (cs : List Char) :
    readValue fuel depth (skipSpace cs) = readValue fuel depth cs := by
  cases fuel with
  | zero => simp [readValue]
  | succ fuel => rw [readValue, readValue, skipSpace_skipSpace]

theorem readValue_spaces {ws : List Char} (hws : Spaces ws)
    (fuel depth : ℕ) (cs : List Char) :
    readValue fuel depth (ws ++ cs) = readValue fuel depth cs := by
  rw [← readValue_skipSpace, skipSpace_append hws, readValue_skipSpace]

theorem readItems_skipSpace (fuel depth : ℕ) (cs : List Char) :
    readItems fuel depth (skipSpace cs) = readItems fuel depth cs := by
  cases fuel with
  | zero => simp [readItems]
  | succ fuel => rw [readItems, readItems, readValue_skipSpace]

theorem readFields_skipSpace (fuel depth : ℕ) (cs : List Char) :
    readFields fuel depth (skipSpace cs) = readFields fuel depth cs := by
  cases fuel with
  | zero => simp [readFields]
  | succ fuel => rw [readFields, readFields, skipSpace_skipSpace]

/-- A value begins with a character that is neither a space nor a closing
bracket. -/
theorem ValueText.head {v : Value} {cs : List Char} (h : ValueText v cs) :
    ∃ c ds, cs = c :: ds ∧ isSpace c = false ∧ c ≠ ']' ∧ c ≠ '}' := by
  cases h with
  | num hn =>
      obtain ⟨c, ds, rfl, hc⟩ := hn.head
      refine ⟨c, ds, rfl, ?_, ?_, ?_⟩
      · rw [← Bool.not_eq_true]
        intro hspace
        simp only [isSpace, Bool.or_eq_true, decide_eq_true_eq] at hspace
        rcases hspace with ((rfl | rfl) | rfl) | rfl <;> revert hc <;> decide
      · rintro rfl
        revert hc
        decide
      · rintro rfl
        revert hc
        decide
  | str hs =>
      cases hs
      exact ⟨_, _, rfl, by decide⟩
  | _ => exact ⟨_, _, rfl, by decide⟩

theorem ItemsText.head {xs : List Value} {cs : List Char}
    (h : ItemsText xs cs) (rest : List Char) :
    ∃ c ds, skipSpace (cs ++ rest) = c :: ds ∧ c ≠ ']' := by
  have hvalue : ∀ {x : Value} {l es : List Char}, Spaces l →
      ValueText x es → ∀ more, ∃ c ds, skipSpace (l ++ (es ++ more)) = c :: ds ∧
        c ≠ ']' := by
    intro x l es hl hx more
    obtain ⟨c, ds, rfl, hc, hne, _⟩ := hx.head
    rw [skipSpace_append hl, List.cons_append, skipSpace_cons hc]
    exact ⟨c, _, rfl, hne⟩
  cases h with
  | last hl hx _ =>
      rw [List.append_assoc, List.append_assoc]
      exact hvalue hl hx _
  | cons hl hx _ _ =>
      rw [List.append_assoc, List.append_assoc]
      exact hvalue hl hx _

theorem FieldsText.head {fs : List (String × Value)} {cs : List Char}
    (h : FieldsText fs cs) (rest : List Char) :
    ∃ ds, skipSpace (cs ++ rest) = '"' :: ds := by
  cases h with
  | last ha hk _ _ _ _ =>
      cases hk
      rw [List.append_assoc, skipSpace_append ha, List.append_assoc,
        List.cons_append, skipSpace_cons (by decide)]
      exact ⟨_, rfl⟩
  | cons ha hk _ _ _ _ _ =>
      cases hk
      rw [List.append_assoc, skipSpace_append ha, List.append_assoc,
        List.cons_append, skipSpace_cons (by decide)]
      exact ⟨_, rfl⟩

theorem skipSpace_spaces_cons {ws : List Char} (hws : Spaces ws) {c : Char}
    (hc : isSpace c = false) (cs : List Char) :
    skipSpace (ws ++ c :: cs) = c :: cs := by
  rw [skipSpace_append hws, skipSpace_cons hc]

mutual
/-- A derived value is read, given fuel for the length of its text. -/
theorem readValue_text {v : Value} {ds : List Char} (h : ValueText v ds)
    (fuel depth : ℕ) (rest : List Char) (hdepth : v.depth ≤ depth)
    (hfuel : ds.length ≤ fuel) (hrest : NumberEnd rest) :
    readValue fuel depth (ds ++ rest) = some (v, rest) := by
  cases fuel with
  | zero =>
      obtain ⟨c, cs, rfl, _⟩ := h.head
      simp at hfuel
  | succ fuel =>
      cases h with
      | null => simp [readValue, skipSpace, isSpace]
      | isTrue => simp [readValue, skipSpace, isSpace]
      | isFalse => simp [readValue, skipSpace, isSpace]
      | num hn =>
          have hread := readNumber_text hn hrest
          obtain ⟨c, cs, rfl, hc⟩ := hn.head
          rw [List.cons_append] at hread ⊢
          rw [readValue_numeric hc, hread]
          rfl
      | str hs =>
          obtain ⟨hchars⟩ := hs
          rw [List.cons_append, readValue, skipSpace_cons (by decide)]
          simp [readChars_text hchars rest]
      | emptyArr hws =>
          cases depth with
          | zero => simp [Value.depth] at hdepth
          | succ depth =>
              rw [List.cons_append, readValue, skipSpace_cons (by decide)]
              simp [skipSpace_spaces_cons hws (c := ']') (by decide)]
      | arr hxs =>
          cases depth with
          | zero => simp [Value.depth] at hdepth
          | succ depth =>
              rw [Value.depth_arr_le_iff] at hdepth
              simp only [List.length_cons, List.length_append,
                List.length_nil] at hfuel
              have hread := readItems_text hxs fuel depth rest hdepth (by omega)
              obtain ⟨c, es, hskip, hc⟩ := hxs.head (']' :: rest)
              rw [← readItems_skipSpace, hskip] at hread
              simp only [List.cons_append, List.append_assoc, List.nil_append]
              rw [readValue, skipSpace_cons (by decide)]
              simp only [hskip]
              split
              next h => exact absurd (List.cons.inj h).1 hc
              next => rw [hread]; rfl
      | emptyObj hws =>
          cases depth with
          | zero => simp [Value.depth] at hdepth
          | succ depth =>
              rw [List.cons_append, readValue, skipSpace_cons (by decide)]
              simp [skipSpace_spaces_cons hws (c := '}') (by decide)]
      | obj hfs =>
          cases depth with
          | zero => simp [Value.depth] at hdepth
          | succ depth =>
              rw [Value.depth_obj_le_iff] at hdepth
              simp only [List.length_cons, List.length_append,
                List.length_nil] at hfuel
              have hread := readFields_text hfs fuel depth rest hdepth (by omega)
              obtain ⟨es, hskip⟩ := hfs.head ('}' :: rest)
              rw [← readFields_skipSpace, hskip] at hread
              simp only [List.cons_append, List.append_assoc, List.nil_append]
              rw [readValue, skipSpace_cons (by decide)]
              simp [hskip, hread]

theorem readItems_text {xs : List Value} {ds : List Char}
    (h : ItemsText xs ds) (fuel depth : ℕ) (rest : List Char)
    (hdepth : ∀ x ∈ xs, x.depth ≤ depth) (hfuel : ds.length < fuel) :
    readItems fuel depth (ds ++ ']' :: rest) = some (xs, rest) := by
  cases fuel with
  | zero => simp at hfuel
  | succ fuel =>
      cases h with
      | last hl hx hr =>
          simp only [List.length_append] at hfuel
          have hend : NumberEnd _ := .append hr (.cons (c := ']') (by simp) rest)
          have hread := readValue_text hx fuel depth _ (hdepth _ (by simp))
            (by omega) hend
          simp only [List.append_assoc]
          rw [readItems, readValue_spaces hl, hread]
          simp [skipSpace_spaces_cons hr (c := ']') (by decide)]
      | @cons x xs l cs r es hl hx hr hxs =>
          simp only [List.length_append, List.length_cons] at hfuel
          have hend : NumberEnd _ :=
            .append hr (.cons (c := ',') (by simp) (es ++ ']' :: rest))
          have hread := readValue_text hx fuel depth _ (hdepth _ (by simp))
            (by omega) hend
          have hmore := readItems_text hxs fuel depth rest
            (fun y hy => hdepth y (by simp [hy])) (by omega)
          simp only [List.append_assoc, List.cons_append]
          rw [readItems, readValue_spaces hl, hread]
          simp [skipSpace_spaces_cons hr (c := ',') (by decide), hmore]

theorem readFields_text {fs : List (String × Value)} {ds : List Char}
    (h : FieldsText fs ds) (fuel depth : ℕ) (rest : List Char)
    (hdepth : ∀ f ∈ fs, f.2.depth ≤ depth) (hfuel : ds.length < fuel) :
    readFields fuel depth (ds ++ '}' :: rest) = some (fs, rest) := by
  cases fuel with
  | zero => simp at hfuel
  | succ fuel =>
      cases h with
      | @last k x a ks b l cs r ha hk hb hl hx hr =>
          have hx' : x.depth ≤ depth := hdepth (k, x) (by simp)
          obtain ⟨hchars⟩ := hk
          simp only [List.length_append, List.length_cons] at hfuel
          have hend : NumberEnd _ := .append hr (.cons (c := '}') (by simp) rest)
          have hread := readValue_text hx fuel depth _ hx' (by omega) hend
          simp only [List.append_assoc, List.cons_append, List.nil_append]
          rw [readFields, skipSpace_spaces_cons ha (by decide)]
          simp [readChars_text hchars,
            skipSpace_spaces_cons hb (c := ':') (by decide),
            readValue_spaces hl, hread,
            skipSpace_spaces_cons hr (c := '}') (by decide)]
      | @cons k x fs a ks b l cs r es ha hk hb hl hx hr hfs =>
          have hx' : x.depth ≤ depth := hdepth (k, x) (by simp)
          obtain ⟨hchars⟩ := hk
          simp only [List.length_append, List.length_cons] at hfuel
          have hend : NumberEnd _ :=
            .append hr (.cons (c := ',') (by simp) (es ++ '}' :: rest))
          have hread := readValue_text hx fuel depth _ hx' (by omega) hend
          have hmore := readFields_text hfs fuel depth rest
            (fun f hf => hdepth f (by simp [hf])) (by omega)
          simp only [List.append_assoc, List.cons_append, List.nil_append]
          rw [readFields, skipSpace_spaces_cons ha (by decide)]
          simp [readChars_text hchars,
            skipSpace_spaces_cons hb (c := ':') (by decide),
            readValue_spaces hl, hread,
            skipSpace_spaces_cons hr (c := ',') (by decide), hmore]
end

/-- The reader accepts exactly the texts of the grammar. -/
theorem read_eq_some_iff {depth : ℕ} {cs : List Char} {v : Value} :
    read depth cs = some v ↔ Text v cs ∧ v.depth ≤ depth := by
  constructor
  · intro h
    exact ⟨text_of_read h, depth_le_of_read h⟩
  · rintro ⟨⟨hl, hv, hr⟩, hdepth⟩
    rename_i l ds r
    have hend : NumberEnd r := by
      rw [← List.append_nil r]
      exact .append hr .nil
    have hread := readValue_text hv ((l ++ (ds ++ r)).length + 1) depth r hdepth
      (by simp only [List.length_append]; omega) hend
    have hskip : skipSpace r = [] := by
      rw [← List.append_nil r, skipSpace_append hr]
      rfl
    rw [read, readValue_spaces hl, hread]
    simp [hskip]

/-- The grammar is unambiguous: the reader is a function. -/
theorem Text.unique {v w : Value} {cs : List Char} (hv : Text v cs)
    (hw : Text w cs) : v = w := by
  have hreadv : read (max v.depth w.depth) cs = some v :=
    read_eq_some_iff.mpr ⟨hv, Nat.le_max_left _ _⟩
  have hreadw : read (max v.depth w.depth) cs = some w :=
    read_eq_some_iff.mpr ⟨hw, Nat.le_max_right _ _⟩
  exact Option.some.inj (hreadv.symm.trans hreadw)

/-! ## Integer literals -/

theorem digitChar_value : ∀ n < 10, Nat.digitChar n = Char.ofNat ('0'.toNat + n) := by
  decide

theorem isDigit_value {d : Char} (hd : d.isDigit = true) :
    d.toNat - '0'.toNat < 10 ∧ Nat.digitChar (d.toNat - '0'.toNat) = d := by
  have hrange : 48 ≤ d.toNat ∧ d.toNat ≤ 57 := by
    simp only [Char.isDigit, Bool.and_eq_true, decide_eq_true_eq] at hd
    exact ⟨UInt32.le_iff_toNat_le.mp hd.1, UInt32.le_iff_toNat_le.mp hd.2⟩
  have hzero : '0'.toNat = 48 := rfl
  have hlt : d.toNat - '0'.toNat < 10 := by omega
  refine ⟨hlt, ?_⟩
  rw [digitChar_value _ hlt, hzero, Nat.add_sub_cancel' hrange.1,
    Char.ofNat_toNat]

/-- A decimal literal without superfluous zeros is the text of its value. -/
theorem toDigits_of_integerText {ds : List Char} (h : IntegerText ds) :
    Nat.toDigits 10 (Nat.ofDigitChars 10 ds 0) = ds := by
  induction ds using List.reverseRecOn with
  | nil => exact absurd rfl h.1.1
  | append_singleton es d ih =>
      obtain ⟨⟨_, hdigits⟩, hzero⟩ := h
      obtain ⟨hlt, hchar⟩ := isDigit_value (hdigits d (by simp))
      rw [Nat.ofDigitChars_append, Nat.ofDigitChars_cons, Nat.ofDigitChars_nil]
      cases es with
      | nil =>
          rw [Nat.ofDigitChars_nil, Nat.mul_zero, Nat.zero_add,
            Nat.toDigits_of_lt_base hlt, hchar]
          rfl
      | cons e es =>
          have hes : IntegerText (e :: es) := by
            refine ⟨⟨by simp, fun c hc => ?_⟩, ?_⟩
            · exact hdigits c (List.mem_append_left _ hc)
            · rintro c rest heq
              cases heq
              exact hzero c (rest ++ [d]) rfl
          have hne : e ≠ '0' := by
            rintro rfl
            cases es with
            | nil => exact hzero d [] rfl
            | cons c es => exact hzero c (es ++ [d]) rfl
          have hpre := ih hes
          generalize Nat.ofDigitChars 10 (e :: es) 0 = n at hpre ⊢
          have hpos : 0 < n := by
            rcases Nat.eq_zero_or_pos n with rfl | hpos
            · rw [Nat.toDigits_zero] at hpre
              exact absurd (List.cons.inj hpre).1.symm hne
            · exact hpos
          rw [Nat.toDigits_of_base_le (by omega) (by omega)]
          have hdiv : (10 * n + (d.toNat - '0'.toNat)) / 10 = n := by omega
          have hmod : (10 * n + (d.toNat - '0'.toNat)) % 10 =
              d.toNat - '0'.toNat := by omega
          rw [hdiv, hmod, hpre, hchar]

/-- Integers that fit 64 bits are written in one way. -/
theorem numberText_posInt {n : ℕ} {cs : List Char} (hn : n < 2 ^ 64) :
    NumberText (.posInt n) cs ↔ cs = Nat.toDigits 10 n := by
  constructor
  · intro h
    generalize hm : Number.posInt n = m at h
    cases h with
    | @mk negative ds fraction exponent hds hfraction hexponent =>
        unfold classify at hm
        simp only at hm
        split_ifs at hm with hplain
        obtain ⟨htail, rfl, _⟩ := hplain
        obtain ⟨rfl, rfl⟩ := List.append_eq_nil_iff.mp htail
        cases hm
        simp [signText, toDigits_of_integerText hds]
  · rintro rfl
    have hds : IntegerText (Nat.toDigits 10 n) := by
      refine ⟨⟨Nat.toDigits_ne_nil, fun c hc =>
        Nat.isDigit_of_mem_toDigits (by omega) (by omega) hc⟩, ?_⟩
      intro d rest heq
      rcases Nat.eq_zero_or_pos n with rfl | hpos
      · simp [Nat.toDigits_zero] at heq
      · obtain ⟨e, es, hes, he⟩ := toDigits_head_ne_zero hpos
        rw [hes] at heq
        exact he (List.cons.inj heq).1
    have htext : NumberText (classify false (Nat.toDigits 10 n) ([] ++ []))
        _ := .mk hds .none .none
    rw [List.append_nil, classify_toDigits hn] at htext
    simpa [signText] using htext

end Json
