import AgentGateway.Library.Json.Text
import Mathlib.Tactic.SplitIfs

/-!
# Reading back a printed text

`read depth (print v) = some v` for every value within the depth bound whose
numbers are 64-bit integers.  No condition is put on the order of fields.
-/

namespace Json

/-! ## Strings -/

theorem hexValue?_hexDigit :
    ∀ n < 16, hexValue? (hexDigit n) = some n := by
  decide

theorem codeUnit?_control {n : ℕ} (hn : n < 32) :
    codeUnit? '0' '0' (hexDigit (n / 16)) (hexDigit (n % 16)) = some n := by
  have hzero : hexValue? '0' = some 0 := by decide
  have hhigh := hexValue?_hexDigit (n / 16) (by omega)
  have hlow := hexValue?_hexDigit (n % 16) (by omega)
  simp only [codeUnit?, hzero, hhigh, hlow, Option.bind_eq_bind,
    Option.bind_some, Option.pure_def, Option.some.injEq]
  omega

/-- A plain character is read as itself. -/
theorem readChars_plain {c : Char} (hquote : c ≠ '"') (hback : c ≠ '\\')
    (hprint : ¬c.toNat < 32) (cs : List Char) :
    readChars (c :: cs) = (readChars cs).map fun r => (c :: r.1, r.2) := by
  rw [readChars]
  · rw [if_neg hprint]
  · simpa using hquote
  · intro a b c' d cs' h
    exact absurd h hback
  · intro e cs' h
    exact absurd h hback

theorem readChars_escapeChar (c : Char) (cs : List Char) :
    readChars (escapeChar c ++ cs) =
      (readChars cs).map fun r => (c :: r.1, r.2) := by
  unfold escapeChar
  by_cases h₁ : c = '"'
  · subst h₁; simp [readChars, unescape?]
  by_cases h₂ : c = '\\'
  · subst h₂; simp [readChars, unescape?]
  by_cases h₃ : c = '\x08'
  · subst h₃; simp [readChars, unescape?]
  by_cases h₄ : c = '\x0c'
  · subst h₄; simp [readChars, unescape?]
  by_cases h₅ : c = '\n'
  · subst h₅; simp [readChars, unescape?]
  by_cases h₆ : c = '\r'
  · subst h₆; simp [readChars, unescape?]
  by_cases h₇ : c = '\t'
  · subst h₇; simp [readChars, unescape?]
  rw [if_neg h₁, if_neg h₂, if_neg h₃, if_neg h₄, if_neg h₅, if_neg h₆,
    if_neg h₇]
  by_cases hcontrol : c.toNat < 32
  · rw [if_pos hcontrol]
    simp only [List.cons_append, List.nil_append]
    rw [readChars, codeUnit?_control hcontrol]
    have hhigh : ¬(0xD800 ≤ c.toNat ∧ c.toNat < 0xDC00) := by omega
    have hlow : ¬(0xDC00 ≤ c.toNat ∧ c.toNat < 0xE000) := by omega
    simp only [hhigh, hlow, if_false, Char.ofNat_toNat]
  · rw [if_neg hcontrol]
    exact readChars_plain h₁ h₂ hcontrol cs

theorem readChars_escaped (cs rest : List Char) :
    readChars (cs.flatMap escapeChar ++ '"' :: rest) = some (cs, rest) := by
  induction cs with
  | nil => simp [readChars]
  | cons c cs ih =>
      rw [List.flatMap_cons, List.append_assoc, readChars_escapeChar, ih]
      rfl

/-! ## Numbers -/

/-- The text after a value inside a larger text. -/
def Delimited (rest : List Char) : Prop :=
  ∀ c cs, rest = c :: cs → c = ',' ∨ c = ']' ∨ c = '}'

theorem Delimited.nil : Delimited [] := by
  intro c cs h
  cases h

theorem Delimited.printItems (xs : List Value) (rest : List Char) :
    Delimited (printItems xs ++ rest) := by
  intro c cs h
  cases xs <;> simp [Json.printItems] at h <;> simp [← h.1]

theorem Delimited.printFields (fs : List (String × Value))
    (rest : List Char) : Delimited (printFields fs ++ rest) := by
  intro c cs h
  cases fs <;> simp [Json.printFields] at h <;> simp [← h.1]

theorem spanDigits_append {ds rest : List Char}
    (hds : ∀ d ∈ ds, d.isDigit = true)
    (hrest : ∀ c cs, rest = c :: cs → c.isDigit = false) :
    spanDigits (ds ++ rest) = (ds, rest) := by
  induction ds with
  | nil =>
      cases rest with
      | nil => rfl
      | cons c cs => simp [spanDigits, hrest c cs rfl]
  | cons d ds ih =>
      have hd : d.isDigit = true := hds d (by simp)
      simp [spanDigits, hd, ih fun c hc => hds c (by simp [hc])]

theorem spanDigits_delimited {ds rest : List Char}
    (hds : ∀ c ∈ ds, c.isDigit = true) (hrest : Delimited rest) :
    spanDigits (ds ++ rest) = (ds, rest) := by
  apply spanDigits_append hds
  intro c cs h
  rcases hrest c cs h with rfl | rfl | rfl <;> decide

theorem digitChar_ne_zero :
    ∀ n < 10, 0 < n → Nat.digitChar n ≠ '0' := by
  decide

/-- The decimal digits of a number do not start with a superfluous zero. -/
theorem toDigits_head_ne_zero {n : ℕ} (hn : 0 < n) :
    ∃ d ds, Nat.toDigits 10 n = d :: ds ∧ d ≠ '0' := by
  induction n using Nat.strong_induction_on with
  | _ n ih =>
      by_cases hlt : n < 10
      · refine ⟨n.digitChar, [], Nat.toDigits_of_lt_base hlt, ?_⟩
        exact digitChar_ne_zero n hlt hn
      · obtain ⟨d, ds, hds, hd⟩ := ih (n / 10) (by omega) (by omega)
        refine ⟨d, ds ++ [(n % 10).digitChar], ?_, hd⟩
        rw [Nat.toDigits_of_base_le (by omega) (by omega), hds]
        rfl

theorem readInteger_toDigits (n : ℕ) {rest : List Char}
    (hrest : Delimited rest) :
    readInteger (Nat.toDigits 10 n ++ rest) =
      some (Nat.toDigits 10 n, rest) := by
  have hspan : spanDigits (Nat.toDigits 10 n ++ rest) =
      (Nat.toDigits 10 n, rest) :=
    spanDigits_delimited
      (fun c hc => Nat.isDigit_of_mem_toDigits (by omega) (by omega) hc) hrest
  rw [readInteger, hspan]
  rcases Nat.eq_zero_or_pos n with rfl | hn
  · simp [Nat.toDigits_zero]
  · obtain ⟨d, ds, hds, hd⟩ := toDigits_head_ne_zero hn
    rw [hds]
    split
    next h => simp at h
    next h =>
      simp only [Prod.mk.injEq, List.cons.injEq] at h
      exact absurd h.1.1 hd
    next h => rw [Prod.mk.inj h |>.1, Prod.mk.inj h |>.2]

theorem readFraction_delimited {rest : List Char} (hrest : Delimited rest) :
    readFraction rest = some ([], rest) := by
  cases rest with
  | nil => rfl
  | cons c cs =>
      rcases hrest c cs rfl with rfl | rfl | rfl <;> rfl

theorem readExponent_delimited {rest : List Char} (hrest : Delimited rest) :
    readExponent rest = some ([], rest) := by
  cases rest with
  | nil => rfl
  | cons c cs =>
      rcases hrest c cs rfl with rfl | rfl | rfl <;> rfl

/-- The integers that a 64-bit reader keeps as integers. -/
def Number.IsInteger : Number → Prop
  | .posInt n => n < 2 ^ 64
  | .negInt n => 0 < n ∧ n ≤ 2 ^ 63
  | .float _ => False

theorem toDigits_ne_minus (n : ℕ) (rest cs : List Char) :
    Nat.toDigits 10 n ++ rest ≠ '-' :: cs := by
  intro h
  cases hds : Nat.toDigits 10 n with
  | nil => exact Nat.toDigits_ne_nil hds
  | cons d ds =>
      have hd : d.isDigit = true :=
        Nat.isDigit_of_mem_toDigits (b := 10) (n := n) (by omega) (by omega)
          (by simp [hds])
      rw [hds] at h
      simp only [List.cons_append, List.cons.injEq] at h
      rw [h.1] at hd
      exact absurd hd (by decide)

theorem classify_toDigits {n : ℕ} (hn : n < 2 ^ 64) :
    classify false (Nat.toDigits 10 n) [] = .posInt n := by
  have hvalue : Nat.ofDigitChars 10 (Nat.toDigits 10 n) 0 = n := by simp
  rw [classify, hvalue, if_pos ⟨rfl, rfl, hn⟩]

theorem classify_neg_toDigits {n : ℕ} (hpos : 0 < n) (hn : n ≤ 2 ^ 63) :
    classify true (Nat.toDigits 10 n) [] = .negInt n := by
  have hvalue : Nat.ofDigitChars 10 (Nat.toDigits 10 n) 0 = n := by simp
  rw [classify, hvalue, if_neg (by simp), if_pos ⟨rfl, rfl, hpos, hn⟩]

theorem readNumber_print {n : Number} (hn : n.IsInteger) {rest : List Char}
    (hrest : Delimited rest) :
    readNumber (n.print ++ rest) = some (n, rest) := by
  cases n with
  | posInt n =>
      have hn : n < 2 ^ 64 := hn
      unfold readNumber Number.print
      split
      next negative cs hsplit =>
        split at hsplit
        next r hr => exact absurd hr (toDigits_ne_minus n rest r)
        next =>
          obtain ⟨rfl, rfl⟩ := Prod.mk.inj hsplit
          simp [readInteger_toDigits n hrest, readFraction_delimited hrest,
            readExponent_delimited hrest, classify_toDigits hn]
  | negInt n =>
      have hn : 0 < n ∧ n ≤ 2 ^ 63 := hn
      simp [readNumber, Number.print, readInteger_toDigits n hrest,
        readFraction_delimited hrest, readExponent_delimited hrest,
        classify_neg_toDigits hn.1 hn.2]
  | float text => exact absurd hn id

/-! ## Values -/

/-- Every number of the value is a 64-bit integer. -/
def IntegerNode : Value → Prop
  | .num n => n.IsInteger
  | _ => True

/-- The first character of a printed value is not a space and tells its kind. -/
theorem print_head {v : Value} (hv : v.Every IntegerNode) :
    ∃ c cs, print v = c :: cs ∧ isSpace c = false ∧ c ≠ ']' ∧ c ≠ '}' := by
  cases v with
  | null => exact ⟨_, _, rfl, by decide⟩
  | bool b => cases b <;> exact ⟨_, _, rfl, by decide⟩
  | str s => exact ⟨_, _, rfl, by decide⟩
  | arr xs => cases xs <;> exact ⟨_, _, rfl, by decide⟩
  | obj fs => cases fs <;> exact ⟨_, _, rfl, by decide⟩
  | num n =>
      cases n with
      | posInt n =>
          cases hds : Nat.toDigits 10 n with
          | nil => exact absurd hds Nat.toDigits_ne_nil
          | cons d ds =>
              refine ⟨d, ds, by simp [print, Number.print, hds], ?_⟩
              have hd : d.isDigit = true :=
                Nat.isDigit_of_mem_toDigits (b := 10) (n := n) (by omega)
                  (by omega) (by simp [hds])
              refine ⟨?_, ?_, ?_⟩
              · simp only [isSpace, Bool.or_eq_false_iff]
                refine ⟨⟨⟨?_, ?_⟩, ?_⟩, ?_⟩ <;>
                  · rw [decide_eq_false_iff_not]
                    rintro rfl
                    exact absurd hd (by decide)
              · rintro rfl
                exact absurd hd (by decide)
              · rintro rfl
                exact absurd hd (by decide)
      | negInt n => exact ⟨_, _, rfl, by decide⟩
      | float text => exact absurd hv.self id

theorem skipSpace_cons {c : Char} (hc : isSpace c = false) (cs : List Char) :
    skipSpace (c :: cs) = c :: cs := by
  simp [skipSpace, hc]

theorem skipSpace_print {v : Value} (hv : v.Every IntegerNode)
    (rest : List Char) : skipSpace (print v ++ rest) = print v ++ rest := by
  obtain ⟨c, cs, hcs, hspace, _⟩ := print_head hv
  rw [hcs]
  exact skipSpace_cons hspace _

/-- A text that starts like a number is read as one. -/
theorem readValue_numeric {c : Char} (hc : c.isDigit = true ∨ c = '-')
    (fuel depth : ℕ) (cs : List Char) :
    readValue (fuel + 1) depth (c :: cs) =
      (readNumber (c :: cs)).map fun r => (.num r.1, r.2) := by
  have hspace : isSpace c = false := by
    rw [← Bool.not_eq_true]
    intro h
    simp only [isSpace, Bool.or_eq_true, decide_eq_true_eq] at h
    rcases h with ((rfl | rfl) | rfl) | rfl <;> revert hc <;> decide
  have hhead : c ≠ 'n' ∧ c ≠ 't' ∧ c ≠ 'f' ∧ c ≠ '"' ∧ c ≠ '[' ∧ c ≠ '{' := by
    refine ⟨?_, ?_, ?_, ?_, ?_, ?_⟩ <;>
      · rintro rfl
        revert hc
        decide
  rw [readValue, skipSpace_cons hspace]
  split <;> simp_all

theorem print_num_head {n : Number} (hn : n.IsInteger) :
    ∃ c cs, n.print = c :: cs ∧ (c.isDigit = true ∨ c = '-') := by
  cases n with
  | posInt n =>
      cases hds : Nat.toDigits 10 n with
      | nil => exact absurd hds Nat.toDigits_ne_nil
      | cons d ds =>
          refine ⟨d, ds, by simp [Number.print, hds], Or.inl ?_⟩
          exact Nat.isDigit_of_mem_toDigits (b := 10) (n := n) (by omega)
            (by omega) (by simp [hds])
  | negInt n => exact ⟨_, _, rfl, Or.inr rfl⟩
  | float text => exact absurd hn id

/-- What reading back one value means; the induction hypothesis below. -/
def ReadsBack (v : Value) : Prop :=
  ∀ fuel depth rest, v.depth ≤ depth → (print v).length ≤ fuel →
    Delimited rest → readValue fuel depth (print v ++ rest) = some (v, rest)

theorem readItems_print {x : Value} {xs : List Value}
    (hback : ∀ y ∈ x :: xs, ReadsBack y) (fuel depth : ℕ) (rest : List Char)
    (hdepth : ∀ y ∈ x :: xs, y.depth ≤ depth)
    (hfuel : (print x ++ printItems xs).length ≤ fuel) :
    readItems fuel depth (print x ++ printItems xs ++ rest) =
      some (x :: xs, rest) := by
  induction xs generalizing x fuel with
  | nil =>
      cases fuel with
      | zero => simp [printItems] at hfuel
      | succ fuel =>
          simp only [printItems, List.length_append, List.length_cons,
            List.length_nil] at hfuel
          have hx := hback x (by simp) fuel depth (']' :: rest)
            (hdepth x (by simp)) (by omega)
            (Delimited.printItems [] rest)
          have htext : print x ++ printItems [] ++ rest =
              print x ++ ']' :: rest := by simp [printItems]
          rw [htext, readItems, hx]
          simp [skipSpace_cons (c := ']') (by decide)]
  | cons y ys ih =>
      cases fuel with
      | zero => simp [printItems] at hfuel
      | succ fuel =>
          simp only [printItems, List.length_append,
            List.length_cons] at hfuel
          have hx := hback x (by simp) fuel depth
            (printItems (y :: ys) ++ rest) (hdepth x (by simp)) (by omega)
            (Delimited.printItems (y :: ys) rest)
          have hys := ih (x := y) (fun z hz => hback z (List.mem_cons_of_mem _ hz))
            fuel (fun z hz => hdepth z (List.mem_cons_of_mem _ hz))
            (by simp only [List.length_append]; omega)
          rw [List.append_assoc, readItems, hx]
          simp only [printItems, List.cons_append]
          rw [skipSpace_cons (by decide)]
          rw [List.append_assoc] at hys
          simp [hys]

theorem readFields_print {k : String} {x : Value}
    {fs : List (String × Value)}
    (hback : ∀ f ∈ (k, x) :: fs, ReadsBack f.2) (fuel depth : ℕ)
    (rest : List Char) (hdepth : ∀ f ∈ (k, x) :: fs, f.2.depth ≤ depth)
    (hfuel : (printString k ++ ':' :: (print x ++ printFields fs)).length ≤
      fuel) :
    readFields fuel depth
        (printString k ++ ':' :: (print x ++ printFields fs) ++ rest) =
      some ((k, x) :: fs, rest) := by
  induction fs generalizing k x fuel with
  | nil =>
      cases fuel with
      | zero => simp [printFields] at hfuel
      | succ fuel =>
          simp only [printFields, printString, List.length_append,
            List.length_cons, List.length_nil] at hfuel
          have hx := hback (k, x) (by simp) fuel depth ('}' :: rest)
            (hdepth (k, x) (by simp)) (by simp only; omega)
            (Delimited.printFields [] rest)
          rw [readFields]
          simp only [printString, List.cons_append]
          rw [skipSpace_cons (by decide)]
          simp only [List.append_assoc, readChars_escaped, List.cons_append,
            List.nil_append]
          rw [skipSpace_cons (by decide)]
          simp only [printFields, List.cons_append, List.nil_append] at hx ⊢
          rw [hx]
          simp [skipSpace_cons (c := '}') (by decide)]
  | cons f fs ih =>
      obtain ⟨l, y⟩ := f
      cases fuel with
      | zero => simp [printFields] at hfuel
      | succ fuel =>
          simp only [printFields, printString, List.length_append,
            List.length_cons, List.length_nil] at hfuel
          have hx := hback (k, x) (by simp) fuel depth
            (printFields ((l, y) :: fs) ++ rest) (hdepth (k, x) (by simp))
            (by simp only; omega) (Delimited.printFields ((l, y) :: fs) rest)
          have hfs := ih (k := l) (x := y)
            (fun z hz => hback z (List.mem_cons_of_mem _ hz)) fuel
            (fun z hz => hdepth z (List.mem_cons_of_mem _ hz))
            (by simp only [printString, List.length_append, List.length_cons,
                  List.length_nil]; omega)
          rw [readFields]
          simp only [printString, List.cons_append]
          rw [skipSpace_cons (by decide)]
          simp only [List.append_assoc, readChars_escaped, List.cons_append,
            List.nil_append]
          rw [skipSpace_cons (by decide)]
          simp only at hx ⊢
          rw [hx]
          simp only [printFields, List.cons_append, List.append_assoc]
          rw [skipSpace_cons (by decide)]
          simp only [List.append_assoc, List.cons_append] at hfs
          simp only [hfs, Option.map_some, String.ofList_toList]

theorem readsBack_num {n : Number} (hn : n.IsInteger) : ReadsBack (.num n) := by
  intro fuel depth rest _ hfuel hrest
  obtain ⟨c, cs, hcs, hc⟩ := print_num_head hn
  cases fuel with
  | zero => simp [print, hcs] at hfuel
  | succ fuel =>
      have hread := readNumber_print hn hrest
      rw [print, hcs, List.cons_append] at *
      rw [readValue_numeric hc, hread]
      rfl

theorem readsBack_arr {xs : List Value} (hv : (Value.arr xs).Every IntegerNode)
    (hback : ∀ x ∈ xs, ReadsBack x) : ReadsBack (.arr xs) := by
  intro fuel depth rest hdepth hfuel _
  cases fuel with
  | zero => cases xs <;> simp [print] at hfuel
  | succ fuel =>
      cases depth with
      | zero => simp [Value.depth] at hdepth
      | succ depth =>
          rw [Value.depth_arr_le_iff] at hdepth
          rw [readValue, skipSpace_print hv]
          cases xs with
          | nil => simp [print, skipSpace_cons (c := ']') (by decide)]
          | cons x xs =>
              have hx : x.Every IntegerNode := hv.items x (by simp)
              simp only [print, List.length_cons] at hfuel
              have hitems := readItems_print hback fuel depth rest hdepth
                (by omega)
              obtain ⟨c, cs, hcs, hspace, hclose, _⟩ := print_head hx
              simp only [print, List.cons_append, List.append_assoc]
              rw [skipSpace_print hx]
              simp only [List.append_assoc] at hitems
              rw [hcs, List.cons_append] at hitems ⊢
              split
              next h => simp_all
              next h => rw [hitems]; rfl

theorem readsBack_obj {fs : List (String × Value)}
    (hv : (Value.obj fs).Every IntegerNode)
    (hback : ∀ f ∈ fs, ReadsBack f.2) : ReadsBack (.obj fs) := by
  intro fuel depth rest hdepth hfuel _
  cases fuel with
  | zero =>
      cases fs <;> simp [print] at hfuel
  | succ fuel =>
      cases depth with
      | zero => simp [Value.depth] at hdepth
      | succ depth =>
          rw [Value.depth_obj_le_iff] at hdepth
          rw [readValue, skipSpace_print hv]
          cases fs with
          | nil => simp [print, skipSpace_cons (c := '}') (by decide)]
          | cons f fs =>
              obtain ⟨k, x⟩ := f
              simp only [print, List.length_cons] at hfuel
              have hfields := readFields_print hback fuel depth rest
                hdepth (by omega)
              simp only [printString, List.cons_append] at hfields
              simp only [print, printString, List.cons_append]
              rw [skipSpace_cons (by decide)]
              split
              next h => simp at h
              next h => rw [hfields]; rfl

theorem readsBack (v : Value) (hv : v.Every IntegerNode) : ReadsBack v := by
  induction v using Value.induct with
  | null =>
      intro fuel depth rest _ hfuel _
      cases fuel with
      | zero => simp [print] at hfuel
      | succ fuel =>
          rw [readValue, skipSpace_print hv]
          simp [print]
  | bool b =>
      intro fuel depth rest _ hfuel _
      cases fuel with
      | zero => cases b <;> simp [print] at hfuel
      | succ fuel =>
          rw [readValue, skipSpace_print hv]
          cases b <;> simp [print]
  | num n => exact readsBack_num hv.self
  | str s =>
      intro fuel depth rest _ hfuel _
      cases fuel with
      | zero => simp [print, printString] at hfuel
      | succ fuel =>
          rw [readValue, skipSpace_print hv]
          simp [print, printString, readChars_escaped]
  | arr xs ih =>
      exact readsBack_arr hv fun x hx => ih x hx (hv.items x hx)
  | obj fs ih =>
      exact readsBack_obj hv fun f hf => ih f hf (hv.fields f hf)

/-- Reading a printed value gives the value back. -/
theorem read_print {v : Value} (hv : v.Every IntegerNode) {depth : ℕ}
    (hdepth : v.depth ≤ depth) : read depth (print v) = some v := by
  have hback := readsBack v hv ((print v).length + 1) depth [] hdepth
    (by omega) Delimited.nil
  rw [List.append_nil] at hback
  rw [read, hback]
  rfl

/-! ## Depth of what is read -/

/-- No value that a reader reads with some fuel within a depth bound is deeper
than the bound. -/
structure ReadersDepth (fuel : ℕ) : Prop where
  value : ∀ depth cs v rest, readValue fuel depth cs = some (v, rest) →
    v.depth ≤ depth
  items : ∀ depth cs xs rest, readItems fuel depth cs = some (xs, rest) →
    ∀ x ∈ xs, x.depth ≤ depth
  fields : ∀ depth cs fs rest, readFields fuel depth cs = some (fs, rest) →
    ∀ f ∈ fs, f.2.depth ≤ depth

theorem ReadersDepth.value_succ {fuel depth : ℕ} {cs rest : List Char}
    {v : Value} (ih : ReadersDepth fuel)
    (h : readValue (fuel + 1) depth cs = some (v, rest)) :
    v.depth ≤ depth := by
  have hscalar : ∀ w : Value, w.depth = 0 → w.depth ≤ depth := by
    intro w hw
    omega
  rw [readValue] at h
  split at h
  · cases h; exact hscalar _ rfl
  · cases h; exact hscalar _ rfl
  · cases h; exact hscalar _ rfl
  · obtain ⟨r, -, hr⟩ := Option.map_eq_some_iff.mp h
    cases hr; exact hscalar _ rfl
  · split at h
    · cases h
    · next depth =>
      split at h
      · cases h
        simp [Value.depth_arr_le_iff]
      · obtain ⟨r, hr, heq⟩ := Option.map_eq_some_iff.mp h
        cases heq
        exact Value.depth_arr_le_iff.mpr (ih.items _ _ _ _ hr)
  · split at h
    · cases h
    · next depth =>
      split at h
      · cases h
        simp [Value.depth_obj_le_iff]
      · obtain ⟨r, hr, heq⟩ := Option.map_eq_some_iff.mp h
        cases heq
        exact Value.depth_obj_le_iff.mpr (ih.fields _ _ _ _ hr)
  · obtain ⟨r, -, hr⟩ := Option.map_eq_some_iff.mp h
    cases hr; exact hscalar _ rfl

theorem ReadersDepth.items_succ {fuel depth : ℕ} {cs rest : List Char}
    {xs : List Value} (ih : ReadersDepth fuel)
    (h : readItems (fuel + 1) depth cs = some (xs, rest)) :
    ∀ x ∈ xs, x.depth ≤ depth := by
  rw [readItems] at h
  split at h
  · cases h
  next x cs' hx =>
    have hdepth := ih.value _ _ _ _ hx
    split at h
    · obtain ⟨r, hr, heq⟩ := Option.map_eq_some_iff.mp h
      cases heq
      intro y hy
      rcases List.mem_cons.mp hy with rfl | hy
      · exact hdepth
      · exact ih.items _ _ _ _ hr y hy
    · cases h
      simpa using hdepth
    · cases h

theorem ReadersDepth.fields_succ {fuel depth : ℕ} {cs rest : List Char}
    {fs : List (String × Value)} (ih : ReadersDepth fuel)
    (h : readFields (fuel + 1) depth cs = some (fs, rest)) :
    ∀ f ∈ fs, f.2.depth ≤ depth := by
  rw [readFields] at h
  split at h
  · split at h
    · cases h
    · split at h
      · split at h
        · cases h
        next x cs' hx =>
          have hdepth := ih.value _ _ _ _ hx
          split at h
          · obtain ⟨r, hr, heq⟩ := Option.map_eq_some_iff.mp h
            cases heq
            intro f hf
            rcases List.mem_cons.mp hf with rfl | hf
            · exact hdepth
            · exact ih.fields _ _ _ _ hr f hf
          · cases h
            simpa using hdepth
          · cases h
      · cases h
  · cases h

/-- The three readers call each other with less fuel. -/
theorem read_depth_le (fuel : ℕ) : ReadersDepth fuel := by
  induction fuel with
  | zero =>
      constructor <;> intro depth cs v rest h
      · simp [readValue] at h
      · simp [readItems] at h
      · simp [readFields] at h
  | succ fuel ih =>
      constructor <;> intro depth cs v rest h
      · exact ih.value_succ h
      · exact ih.items_succ h
      · exact ih.fields_succ h

theorem depth_le_of_read {depth : ℕ} {cs : List Char} {v : Value}
    (h : read depth cs = some v) : v.depth ≤ depth := by
  rw [read] at h
  split at h
  next w rest hread =>
    split_ifs at h
    cases h
    exact (read_depth_le _).value _ _ _ _ hread
  · cases h

end Json
