import AgentGateway.Library.Json.Grammar

/-!
# Printed texts

The printer writes texts of the grammar, so that it tells values apart.
-/

namespace Json

/-- Every number is printed as a literal of its own. -/
def LiteralNode : Value → Prop
  | .num n => NumberText n n.print
  | _ => True

theorem stringText_print (s : String) : StringText s (printString s) := by
  have hread : readChars (s.toList.flatMap escapeChar ++ ['"']) =
      some (s.toList, []) := readChars_escaped s.toList []
  obtain ⟨ds, hds, heq⟩ := text_of_readChars hread
  have htext := StringText.mk hds
  rw [String.ofList_toList] at htext
  rw [printString, heq]
  exact htext

/-- The items of an array as they are printed. -/
theorem itemsText_print {xs : List Value} {x : Value}
    (h : ∀ y ∈ x :: xs, ValueText y (print y)) :
    ∃ cs, ItemsText (x :: xs) cs ∧ print x ++ printItems xs = cs ++ [']'] := by
  induction xs generalizing x with
  | nil =>
      refine ⟨[] ++ (print x ++ []), .last .nil (h x (by simp)) .nil, ?_⟩
      simp [printItems]
  | cons y xs ih =>
      obtain ⟨cs, hcs, heq⟩ := ih (x := y) fun z hz =>
        h z (List.mem_cons_of_mem _ hz)
      refine ⟨[] ++ (print x ++ ([] ++ ',' :: cs)),
        .cons .nil (h x (by simp)) .nil hcs, ?_⟩
      simp [printItems, heq]

theorem fieldsText_print {fs : List (String × Value)} {k : String} {x : Value}
    (h : ∀ f ∈ (k, x) :: fs, ValueText f.2 (print f.2)) :
    ∃ cs, FieldsText ((k, x) :: fs) cs ∧
      printString k ++ ':' :: (print x ++ printFields fs) = cs ++ ['}'] := by
  induction fs generalizing k x with
  | nil =>
      refine ⟨[] ++ (printString k ++ ([] ++ ':' :: ([] ++ (print x ++ [])))),
        .last .nil (stringText_print k) .nil .nil (h (k, x) (by simp)) .nil, ?_⟩
      simp [printFields]
  | cons f fs ih =>
      obtain ⟨l, y⟩ := f
      obtain ⟨cs, hcs, heq⟩ := ih (k := l) (x := y) fun g hg =>
        h g (List.mem_cons_of_mem _ hg)
      refine ⟨[] ++ (printString k ++ ([] ++ ':' ::
          ([] ++ (print x ++ ([] ++ ',' :: cs))))),
        .cons .nil (stringText_print k) .nil .nil (h (k, x) (by simp)) .nil
          hcs, ?_⟩
      simp [printFields, heq]

theorem valueText_print {v : Value} (h : v.Every LiteralNode) :
    ValueText v (print v) := by
  induction v using Value.induct with
  | null => exact .null
  | bool b =>
      cases b with
      | false => exact .isFalse
      | true => exact .isTrue
  | num n => exact .num h.self
  | str s => exact .str (stringText_print s)
  | arr xs ih =>
      cases xs with
      | nil => exact .emptyArr .nil
      | cons x xs =>
          obtain ⟨cs, hcs, heq⟩ := itemsText_print fun y hy =>
            ih y hy (h.items y hy)
          rw [print, heq]
          exact .arr hcs
  | obj fs ih =>
      cases fs with
      | nil => exact .emptyObj .nil
      | cons f fs =>
          obtain ⟨k, x⟩ := f
          obtain ⟨cs, hcs, heq⟩ := fieldsText_print fun g hg =>
            ih g hg (h.fields g hg)
          rw [print, heq]
          exact .obj hcs

/-- Distinct values are printed distinctly. -/
theorem print_injective {v w : Value} (hv : v.Every LiteralNode)
    (hw : w.Every LiteralNode) (h : print v = print w) : v = w := by
  have htext : ∀ {u : Value}, u.Every LiteralNode → Text u (print u) := by
    intro u hu
    have hmk := Text.mk .nil (valueText_print hu) .nil
    simpa using hmk
  exact (htext hv).unique (h ▸ htext hw)

/-- The integers of 64 bits are printed as literals of their own. -/
theorem literal_of_isInteger {n : Number} (hn : n.IsInteger) :
    LiteralNode (.num n) := by
  have hread := readNumber_print hn Delimited.nil
  rw [List.append_nil] at hread
  obtain ⟨cs, hcs, heq⟩ := text_of_readNumber hread
  rw [List.append_nil] at heq
  rw [LiteralNode, heq]
  exact hcs

theorem literal_object {fs : List (String × Value)}
    (h : ∀ f ∈ fs, f.2.Every LiteralNode) :
    (Value.object fs).Every LiteralNode := by
  have hfold : ∀ {gs m : List (String × Value)},
      (∀ f ∈ gs, f.2.Every LiteralNode) → (∀ f ∈ m, f.2.Every LiteralNode) →
      ∀ f ∈ gs.foldl (fun m f => Value.insertField f.1 f.2 m) m,
        f.2.Every LiteralNode := by
    intro gs
    induction gs with
    | nil => exact fun _ hm => hm
    | cons g gs ih =>
        intro m hgs hm
        apply ih (fun f hf => hgs f (List.mem_cons_of_mem _ hf))
        intro f hf
        rcases Value.mem_insertField hf with rfl | hf
        · exact hgs g (by simp)
        · exact hm f hf
  exact .obj trivial (hfold h (by simp))

end Json
