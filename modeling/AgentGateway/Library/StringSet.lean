import AgentGateway.Library.Json.Value

/-!
# Ordered sets of strings

A finite set of strings is kept as its strictly increasing list, so two sets
with the same members are equal and the JSON array of a set is determined.
-/

open Json.Value (KeyLt)

structure StringSet where
  elements : List String
  sorted : elements.Pairwise KeyLt
deriving DecidableEq

namespace StringSet

instance : Membership String StringSet where
  mem A s := s ∈ A.elements

instance (s : String) (A : StringSet) : Decidable (s ∈ A) :=
  inferInstanceAs (Decidable (s ∈ A.elements))

theorem mem_def {A : StringSet} {s : String} : s ∈ A ↔ s ∈ A.elements :=
  Iff.rfl

def empty : StringSet := ⟨[], .nil⟩

@[simp] theorem not_mem_empty (s : String) : s ∉ empty := List.not_mem_nil

/-! ## Insertion -/

def insertElement (s : String) : List String → List String
  | [] => [s]
  | t :: ts =>
      if KeyLt s t then s :: t :: ts
      else if s = t then t :: ts
      else t :: insertElement s ts

theorem mem_insertElement {s t : String} {ts : List String} :
    t ∈ insertElement s ts ↔ t = s ∨ t ∈ ts := by
  induction ts with
  | nil => simp [insertElement]
  | cons u ts ih =>
      unfold insertElement
      split_ifs with hlt heq
      · simp
      · subst heq
        simp
      · rw [List.mem_cons, List.mem_cons, ih, or_left_comm]

theorem insertElement_sorted {s : String} {ts : List String}
    (h : ts.Pairwise KeyLt) : (insertElement s ts).Pairwise KeyLt := by
  induction ts with
  | nil => simp [insertElement]
  | cons u ts ih =>
      obtain ⟨hu, htail⟩ := List.pairwise_cons.mp h
      unfold insertElement
      split_ifs with hlt heq
      · refine List.pairwise_cons.mpr ⟨?_, h⟩
        intro v hv
        rcases List.mem_cons.mp hv with rfl | hv
        · exact hlt
        · exact hlt.trans (hu v hv)
      · exact h
      · refine List.pairwise_cons.mpr ⟨?_, ih htail⟩
        intro v hv
        rcases mem_insertElement.mp hv with rfl | hv
        · exact KeyLt.of_not_lt heq hlt
        · exact hu v hv

/-- Inserting a string above all members appends it. -/
theorem insertElement_of_forall_lt {s : String} {ts : List String}
    (h : ∀ t ∈ ts, KeyLt t s) : insertElement s ts = ts ++ [s] := by
  induction ts with
  | nil => rfl
  | cons u ts ih =>
      have hu : KeyLt u s := h u (by simp)
      rw [insertElement, if_neg hu.asymm, if_neg hu.ne.symm,
        ih fun t ht => h t (by simp [ht])]
      rfl

def insert (A : StringSet) (s : String) : StringSet :=
  ⟨insertElement s A.elements, insertElement_sorted A.sorted⟩

@[simp] theorem mem_insert {A : StringSet} {s t : String} :
    t ∈ A.insert s ↔ t = s ∨ t ∈ A := mem_insertElement

/-! ## Unions -/

/-- The set with the strings of a list added. -/
def extend (A : StringSet) (ss : List String) : StringSet :=
  ss.foldl insert A

def ofList (ss : List String) : StringSet := empty.extend ss

def union (A B : StringSet) : StringSet := A.extend B.elements

@[simp] theorem mem_extend {A : StringSet} {ss : List String} {t : String} :
    t ∈ A.extend ss ↔ t ∈ A ∨ t ∈ ss := by
  induction ss generalizing A with
  | nil => simp [extend]
  | cons s ss ih =>
      have hfold : A.extend (s :: ss) = (A.insert s).extend ss := rfl
      rw [hfold, ih, mem_insert, List.mem_cons]
      tauto

@[simp] theorem mem_ofList {ss : List String} {t : String} :
    t ∈ ofList ss ↔ t ∈ ss := by
  simp [ofList]

@[simp] theorem mem_union {A B : StringSet} {t : String} :
    t ∈ A.union B ↔ t ∈ A ∨ t ∈ B :=
  mem_extend

theorem extend_elements {A : StringSet} {ss : List String}
    (h : (A.elements ++ ss).Pairwise KeyLt) :
    (A.extend ss).elements = A.elements ++ ss := by
  induction ss generalizing A with
  | nil => simp [extend]
  | cons s ss ih =>
      have hlt : ∀ t ∈ A.elements, KeyLt t s := fun t ht =>
        (List.pairwise_append.mp h).2.2 t ht s (by simp)
      have hinsert : (A.insert s).elements = A.elements ++ [s] :=
        insertElement_of_forall_lt hlt
      have hfold : A.extend (s :: ss) = (A.insert s).extend ss := rfl
      rw [hfold, ih, hinsert]
      · simp
      · rw [hinsert]
        simpa using h

/-- A set is rebuilt from its own list. -/
theorem ofList_elements (A : StringSet) : ofList A.elements = A := by
  have h : (ofList A.elements).elements = A.elements :=
    extend_elements (A := empty) A.sorted
  cases A with
  | mk elements sorted =>
      cases hB : ofList elements with
      | mk elements' sorted' =>
          rw [hB] at h
          cases h
          rfl

end StringSet
