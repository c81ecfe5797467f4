import Mathlib.Data.List.Infix

/-!
# Splitting at a separator

The pieces between the occurrences of a separator, found from the left and
without overlaps, and the lines of a text.
-/

namespace Split

variable {α : Type*} [DecidableEq α]

/-! ## Pieces -/

/-- Puts an element in front of the first piece. -/
def prepend (a : α) : List (List α) → List (List α)
  | [] => [[a]]
  | l :: ls => (a :: l) :: ls

/-- The pieces of a list after some elements that are passed over. -/
def piecesFrom (sep : List α) : ℕ → List α → List (List α)
  | _, [] => [[]]
  | n + 1, _ :: s => piecesFrom sep n s
  | 0, a :: s =>
      if sep <+: a :: s then [] :: piecesFrom sep (sep.length - 1) s
      else prepend a (piecesFrom sep 0 s)

def pieces (sep s : List α) : List (List α) := piecesFrom sep 0 s

theorem pieces_cons_of_absent {sep : List α} {a : α} {s : List α}
    (h : ¬sep <+: a :: s) : pieces sep (a :: s) = prepend a (pieces sep s) := by
  rw [pieces, piecesFrom, if_neg h, pieces]

theorem piecesFrom_length (sep l s : List α) :
    piecesFrom sep l.length (l ++ s) = pieces sep s := by
  induction l with
  | nil => rfl
  | cons a l ih => exact ih

/-- A list in which the separator does not occur is its only piece. -/
theorem pieces_of_absent {sep s : List α} (h : ¬sep <:+: s) :
    pieces sep s = [s] := by
  induction s with
  | nil => rfl
  | cons a s ih =>
      rw [List.infix_cons_iff, not_or] at h
      rw [pieces_cons_of_absent h.1, ih h.2]
      rfl

/-- The separator begins inside of a piece when it occurs before its own last
element. -/
def Clean (sep l : List α) : Prop := ¬sep <:+: l ++ sep.dropLast

omit [DecidableEq α] in
theorem not_prefix_of_clean {sep l r : List α} {a : α} (hsep : sep ≠ [])
    (h : Clean sep (a :: l)) : ¬sep <+: a :: (l ++ (sep ++ r)) := by
  intro hpre
  have hlong : a :: (l ++ sep.dropLast) <+: a :: (l ++ (sep ++ r)) := by
    obtain ⟨t, ht⟩ := sep.dropLast_prefix
    refine ⟨t ++ r, ?_⟩
    rw [List.cons_append, List.append_assoc, ← List.append_assoc _ t, ht]
  have hlength : sep.length ≤ (a :: (l ++ sep.dropLast)).length := by
    have hpos := List.length_pos_of_ne_nil hsep
    simp only [List.length_cons, List.length_append, List.length_dropLast]
    omega
  exact h (List.prefix_of_prefix_length_le hpre hlong hlength).isInfix

/-- The first piece ends where the separator begins first. -/
theorem pieces_append {sep l : List α} (hsep : sep ≠ []) (h : Clean sep l)
    (r : List α) : pieces sep (l ++ (sep ++ r)) = l :: pieces sep r := by
  induction l with
  | nil =>
      obtain ⟨b, sep, rfl⟩ := List.exists_cons_of_ne_nil hsep
      have hpre : b :: sep <+: b :: (sep ++ r) := ⟨r, rfl⟩
      rw [List.nil_append, List.cons_append, pieces, piecesFrom,
        if_pos hpre]
      exact congrArg _ (piecesFrom_length _ sep r)
  | cons a l ih =>
      have hl : Clean sep l := fun hinfix =>
        h (List.infix_cons_iff.mpr (.inr hinfix))
      rw [List.cons_append,
        pieces_cons_of_absent (not_prefix_of_clean hsep h), ih hl]
      rfl

theorem clean_or_split {sep : List α} (hsep : sep ≠ []) (s : List α) :
    ¬sep <:+: s ∨ ∃ l r, s = l ++ (sep ++ r) ∧ Clean sep l := by
  induction s with
  | nil =>
      left
      rw [List.infix_nil]
      exact hsep
  | cons a s ih =>
      by_cases hpre : sep <+: a :: s
      · obtain ⟨r, hr⟩ := hpre
        refine .inr ⟨[], r, hr.symm, fun hinfix => ?_⟩
        have hlength := hinfix.length_le
        have hpos := List.length_pos_of_ne_nil hsep
        simp only [List.nil_append, List.length_dropLast] at hlength
        omega
      · rcases ih with hnone | ⟨l, r, rfl, hclean⟩
        · left
          rw [List.infix_cons_iff, not_or]
          exact ⟨hpre, hnone⟩
        · refine .inr ⟨a :: l, r, rfl, fun hinfix => ?_⟩
          rcases List.infix_cons_iff.mp hinfix with hstart | hinfix
          · apply hpre
            have hdrop : sep.dropLast <+: sep ++ r :=
              sep.dropLast_prefix.trans (List.prefix_append sep r)
            exact hstart.trans
              ((List.prefix_append_right_inj (a :: l)).mpr hdrop)
          · exact hclean hinfix

/-- The first of several pieces is the one before the leftmost separator. -/
theorem pieces_eq_cons_cons {sep : List α} (hsep : sep ≠ []) {s l l' : List α}
    {ls : List (List α)} :
    pieces sep s = l :: l' :: ls ↔
      ∃ r, s = l ++ (sep ++ r) ∧ Clean sep l ∧ pieces sep r = l' :: ls := by
  constructor
  · intro h
    rcases clean_or_split hsep s with hnone | ⟨k, r, rfl, hclean⟩
    · rw [pieces_of_absent hnone] at h
      cases h
    · rw [pieces_append hsep hclean, List.cons.injEq] at h
      exact ⟨r, by rw [h.1], h.1 ▸ hclean, h.2⟩
  · rintro ⟨r, rfl, hclean, h⟩
    rw [pieces_append hsep hclean, h]

theorem pieces_ne_nil {sep : List α} (hsep : sep ≠ []) (s : List α) :
    pieces sep s ≠ [] := by
  rcases clean_or_split hsep s with hnone | ⟨l, r, rfl, hclean⟩
  · simp [pieces_of_absent hnone]
  · simp [pieces_append hsep hclean]

theorem pieces_eq_singleton {sep : List α} (hsep : sep ≠ []) {s l : List α} :
    pieces sep s = [l] ↔ s = l ∧ ¬sep <:+: s := by
  constructor
  · intro h
    rcases clean_or_split hsep s with hnone | ⟨k, r, rfl, hclean⟩
    · rw [pieces_of_absent hnone] at h
      cases h
      exact ⟨rfl, hnone⟩
    · rw [pieces_append hsep hclean, List.cons.injEq] at h
      exact absurd h.2 (pieces_ne_nil hsep r)
  · rintro ⟨rfl, hnone⟩
    exact pieces_of_absent hnone

omit [DecidableEq α] in
/-- A list is split at the first occurrence of an element in one way. -/
theorem append_cons_unique {a : α} {l l' r r' : List α} (hl : a ∉ l)
    (hl' : a ∉ l') (h : l ++ a :: r = l' ++ a :: r') : l = l' ∧ r = r' := by
  induction l generalizing l' with
  | nil =>
      cases l' with
      | nil => exact ⟨rfl, (List.cons.inj h).2⟩
      | cons b l' =>
          rw [List.nil_append, List.cons_append, List.cons.injEq] at h
          exact absurd (h.1 ▸ List.mem_cons_self) hl'
  | cons b l ih =>
      cases l' with
      | nil =>
          rw [List.nil_append, List.cons_append, List.cons.injEq] at h
          exact absurd (h.1 ▸ List.mem_cons_self) hl
      | cons b' l' =>
          rw [List.mem_cons, not_or] at hl hl'
          rw [List.cons_append, List.cons_append, List.cons.injEq] at h
          obtain ⟨rfl, hr⟩ := ih hl.2 hl'.2 h.2
          exact ⟨by rw [h.1], hr⟩

/-! ## Lines -/

/-- The lines of a text, without the LF or CRLF that ends each of them. -/
def lines : List Char → List (List Char)
  | [] => []
  | '\r' :: '\n' :: s => [] :: lines s
  | '\n' :: s => [] :: lines s
  | c :: s => prepend c (lines s)

/-- `Lines s ls`: the text `s` consists of the lines `ls`; the last one may go
without its end. -/
inductive Lines : List Char → List (List Char) → Prop
  | nil : Lines [] []
  | last {l : List Char} : l ≠ [] → '\n' ∉ l → Lines l [l]
  | lf {l s : List Char} {ls : List (List Char)} : '\n' ∉ l →
      l.getLast? ≠ some '\r' → Lines s ls → Lines (l ++ '\n' :: s) (l :: ls)
  | crlf {l s : List Char} {ls : List (List Char)} : '\n' ∉ l →
      Lines s ls → Lines (l ++ '\r' :: '\n' :: s) (l :: ls)

theorem lines_cons {a : Char} {s : List Char} (ha : a ≠ '\n')
    (hs : a = '\r' → s.head? ≠ some '\n') :
    lines (a :: s) = prepend a (lines s) := by
  apply lines.eq_4
  · rintro t hcr rfl
    exact hs hcr rfl
  · exact ha

theorem lines_last {l : List Char} (hne : l ≠ []) (hl : '\n' ∉ l) :
    lines l = [l] := by
  induction l with
  | nil => exact absurd rfl hne
  | cons a l ih =>
      rw [List.mem_cons, not_or] at hl
      have hhead : l.head? ≠ some '\n' := fun h => hl.2 (List.mem_of_head? h)
      rw [lines_cons (Ne.symm hl.1) fun _ => hhead]
      cases l with
      | nil => rfl
      | cons b l =>
          rw [ih (by simp) hl.2]
          rfl

theorem lines_lf {l : List Char} (hl : '\n' ∉ l)
    (hlast : l.getLast? ≠ some '\r') (s : List Char) :
    lines (l ++ '\n' :: s) = l :: lines s := by
  induction l with
  | nil => rfl
  | cons a l ih =>
      rw [List.mem_cons, not_or] at hl
      cases l with
      | nil =>
          have ha : a ≠ '\r' := fun h => hlast (by rw [h]; rfl)
          rw [List.cons_append, lines_cons (Ne.symm hl.1) (absurd · ha)]
          rfl
      | cons b l =>
          have hhead : (b :: l ++ '\n' :: s).head? ≠ some '\n' := by
            intro h
            cases h
            exact hl.2 (by simp)
          rw [List.cons_append, lines_cons (Ne.symm hl.1) fun _ => hhead,
            ih hl.2 (by simpa using hlast)]
          rfl

theorem lines_crlf {l : List Char} (hl : '\n' ∉ l) (s : List Char) :
    lines (l ++ '\r' :: '\n' :: s) = l :: lines s := by
  induction l with
  | nil => rfl
  | cons a l ih =>
      rw [List.mem_cons, not_or] at hl
      have hhead : (l ++ '\r' :: '\n' :: s).head? ≠ some '\n' := by
        intro h
        cases l with
        | nil => cases h
        | cons b l =>
            cases h
            exact hl.2 (by simp)
      rw [List.cons_append, lines_cons (Ne.symm hl.1) fun _ => hhead, ih hl.2]
      rfl

/-- A text whose lines are known, after one more character. -/
theorem Lines.cons {a : Char} {s : List Char} {ls : List (List Char)}
    (h : Lines s ls) (ha : a ≠ '\n') (hs : a = '\r' → s.head? ≠ some '\n') :
    Lines (a :: s) (prepend a ls) := by
  have hmem : ∀ {l : List Char}, '\n' ∉ l → '\n' ∉ a :: l := by
    intro l hl
    rw [List.mem_cons, not_or]
    exact ⟨Ne.symm ha, hl⟩
  cases h with
  | nil => exact .last (by simp) (hmem (by simp))
  | last hne hl => exact .last (by simp) (hmem hl)
  | @lf l s ls hl hlast h =>
      refine .lf (l := a :: l) (hmem hl) ?_ h
      cases l with
      | nil =>
          intro hcr
          cases hcr
          exact hs rfl rfl
      | cons b l => simpa using hlast
  | @crlf l s ls hl h => exact .crlf (l := a :: l) (hmem hl) h

theorem lines_iff {s : List Char} {ls : List (List Char)} :
    Lines s ls ↔ lines s = ls := by
  constructor
  · intro h
    induction h with
    | nil => rfl
    | last hne hl => exact lines_last hne hl
    | lf hl hlast _ ih => rw [lines_lf hl hlast, ih]
    | crlf hl _ ih => rw [lines_crlf hl, ih]
  · rintro rfl
    fun_induction lines s with
    | case1 => exact .nil
    | case2 s ih => exact .crlf (l := []) (by simp) ih
    | case3 s ih => exact .lf (l := []) (by simp) (by simp) ih
    | case4 a s hcrlf hlf ih =>
        refine ih.cons hlf fun ha hhead => ?_
        cases s with
        | nil => cases hhead
        | cons b s =>
            cases hhead
            exact hcrlf s ha rfl

/-! ## Blank ends -/

/-- `char::is_whitespace` -/
def isWhitespace (a : Char) : Bool :=
  let n := a.toNat
  (9 ≤ n && n ≤ 13) || n == 0x20 || n == 0x85 || n == 0xA0 || n == 0x1680 ||
    (0x2000 ≤ n && n ≤ 0x200A) || n == 0x2028 || n == 0x2029 ||
    n == 0x202F || n == 0x205F || n == 0x3000

/-- `str::trim` -/
def trim (s : List Char) : List Char :=
  ((s.dropWhile isWhitespace).reverse.dropWhile isWhitespace).reverse

omit [DecidableEq α] in
theorem dropWhile_eq_self {p : α → Bool} {s : List α} :
    s.dropWhile p = s ↔ ∀ a, s.head? = some a → p a = false := by
  cases s with
  | nil => simp
  | cons b s =>
      constructor
      · intro h a ha
        cases ha
        by_contra hb
        rw [Bool.not_eq_false] at hb
        rw [List.dropWhile_cons_of_pos hb] at h
        have hle := (List.dropWhile_suffix p (l := s)).length_le
        rw [h, List.length_cons] at hle
        omega
      · intro h
        rw [List.dropWhile_cons_of_neg (by simp [h b rfl])]

/-- A text is its own trim when it neither begins nor ends with whitespace. -/
theorem trim_eq_self {s : List Char} :
    trim s = s ↔ (∀ a, s.head? = some a → isWhitespace a = false) ∧
      ∀ a, s.getLast? = some a → isWhitespace a = false := by
  constructor
  · intro h
    have hlength : (s.dropWhile isWhitespace).length = s.length := by
      have hle := (List.dropWhile_suffix isWhitespace (l := s)).length_le
      have hle' := (List.dropWhile_suffix isWhitespace
        (l := (s.dropWhile isWhitespace).reverse)).length_le
      have heq := congrArg List.length h
      rw [trim, List.length_reverse] at heq
      rw [List.length_reverse] at hle'
      omega
    have hfront : s.dropWhile isWhitespace = s :=
      (List.dropWhile_suffix _).eq_of_length hlength
    refine ⟨dropWhile_eq_self.mp hfront, ?_⟩
    rw [trim, hfront, List.reverse_eq_iff, dropWhile_eq_self] at h
    simpa using h
  · rintro ⟨hfront, hback⟩
    rw [trim, dropWhile_eq_self.mpr hfront, List.reverse_eq_iff,
      dropWhile_eq_self]
    simpa using hback

end Split
