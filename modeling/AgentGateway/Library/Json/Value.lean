import Mathlib.Algebra.Group.Int.Defs
import Mathlib.Algebra.GroupWithZero.Nat
import Mathlib.Data.Char
import Mathlib.Data.List.Induction
import Mathlib.Data.List.Lex
import Mathlib.Data.List.Pairwise
import Mathlib.Data.Option.Basic
import Mathlib.Order.Basic

/-!
# JSON values

A value tree whose objects are association lists.  The same type serves as the
syntax tree of a JSON text, with fields in document order and repeats allowed,
and as the map-based value a decoder builds from it, where `Ordered` states
that the keys of every object are strictly increasing.
-/

namespace Json

/-- A JSON number by the class its literal falls into: a nonnegative integer,
the magnitude of a negative integer, or any other literal kept as text. -/
inductive Number where
  | posInt (n : ℕ)
  | negInt (n : ℕ)
  | float (text : String)
deriving DecidableEq

inductive Value where
  | null
  | bool (b : Bool)
  | num (n : Number)
  | str (s : String)
  | arr (items : List Value)
  | obj (fields : List (String × Value))

namespace Value

/-! ## Induction and decidable equality -/

/-- Induction on values: the children of an array or object may be assumed. -/
@[elab_as_elim]
theorem induct {P : Value → Prop}
    (null : P null) (bool : ∀ b, P (bool b)) (num : ∀ n, P (num n))
    (str : ∀ s, P (str s))
    (arr : ∀ items, (∀ x ∈ items, P x) → P (arr items))
    (obj : ∀ fields, (∀ f ∈ fields, P f.2) → P (obj fields)) (v : Value) :
    P v := by
  refine Value.rec (motive_1 := P) (motive_2 := fun xs => ∀ x ∈ xs, P x)
    (motive_3 := fun fs => ∀ f ∈ fs, P f.2) (motive_4 := fun f => P f.2)
    null bool num str arr obj ?_ ?_ ?_ ?_ ?_ v
  · simp
  · intro x xs hx hxs
    simpa using ⟨hx, hxs⟩
  · simp
  · intro f fs hf hfs y hy
    rcases List.mem_cons.mp hy with rfl | hy
    · exact hf
    · exact hfs y hy
  · intro k x hx
    exact hx

mutual
/-- Structural equality test. -/
def beq : Value → Value → Bool
  | .null, .null => true
  | .bool a, .bool b => a == b
  | .num m, .num n => m == n
  | .str s, .str t => s == t
  | .arr xs, .arr ys => beqItems xs ys
  | .obj fs, .obj gs => beqFields fs gs
  | _, _ => false

def beqItems : List Value → List Value → Bool
  | [], [] => true
  | x :: xs, y :: ys => beq x y && beqItems xs ys
  | _, _ => false

def beqFields : List (String × Value) → List (String × Value) → Bool
  | [], [] => true
  | (k, x) :: fs, (l, y) :: gs => k == l && beq x y && beqFields fs gs
  | _, _ => false
end

theorem beqItems_iff {xs : List Value}
    (ih : ∀ x ∈ xs, ∀ y, beq x y = true ↔ x = y) (ys : List Value) :
    beqItems xs ys = true ↔ xs = ys := by
  induction xs generalizing ys with
  | nil => cases ys <;> simp [beqItems]
  | cons x xs ihs =>
      cases ys with
      | nil => simp [beqItems]
      | cons y ys =>
          simp [beqItems, ih x (by simp) y,
            ihs (fun z hz => ih z (by simp [hz])) ys]

theorem beqFields_iff {fs : List (String × Value)}
    (ih : ∀ f ∈ fs, ∀ y, beq f.2 y = true ↔ f.2 = y)
    (gs : List (String × Value)) :
    beqFields fs gs = true ↔ fs = gs := by
  induction fs generalizing gs with
  | nil => cases gs <;> simp [beqFields]
  | cons f fs ihs =>
      obtain ⟨k, x⟩ := f
      cases gs with
      | nil => simp [beqFields]
      | cons g gs =>
          obtain ⟨l, y⟩ := g
          simp [beqFields, ih (k, x) (by simp) y,
            ihs (fun z hz => ih z (by simp [hz])) gs]

theorem beq_iff (v w : Value) : beq v w = true ↔ v = w := by
  induction v using Value.induct generalizing w with
  | null => cases w <;> simp [beq]
  | bool b => cases w <;> simp [beq]
  | num n => cases w <;> simp [beq]
  | str s => cases w <;> simp [beq]
  | arr xs ih => cases w <;> simp [beq, beqItems_iff ih]
  | obj fs ih => cases w <;> simp [beq, beqFields_iff ih]

instance : DecidableEq Value := fun v w =>
  decidable_of_iff (beq v w = true) (beq_iff v w)

/-! ## Reading -/

def asStr? : Value → Option String
  | .str s => some s
  | _ => none

def asU64? : Value → Option ℕ
  | .num (.posInt n) => some n
  | _ => none

def asArray? : Value → Option (List Value)
  | .arr xs => some xs
  | _ => none

def asObject? : Value → Option (List (String × Value))
  | .obj fs => some fs
  | _ => none

def isNull : Value → Bool
  | .null => true
  | _ => false

/-- The field of an object, if there is one. -/
def get? (v : Value) (k : String) : Option Value :=
  match v with
  | .obj fs => fs.lookup k
  | _ => none

/-- Indexing by a key: a missing field, or any field of a value that is not an
object, reads as `null`. -/
instance : GetElem Value String Value fun _ _ => True where
  getElem v k _ := (v.get? k).getD .null

theorem getElem_eq (v : Value) (k : String) :
    v[k] = (v.get? k).getD .null := rfl

@[simp] theorem get?_obj (fs : List (String × Value)) (k : String) :
    (obj fs).get? k = fs.lookup k := rfl

@[simp] theorem getElem_obj (fs : List (String × Value)) (k : String) :
    (obj fs)[k] = (fs.lookup k).getD .null := rfl

@[simp] theorem isNull_iff (v : Value) : v.isNull = true ↔ v = .null := by
  cases v <;> simp [isNull]

theorem asStr?_eq_some {v : Value} {s : String} :
    v.asStr? = some s ↔ v = .str s := by
  cases v <;> simp [asStr?]

theorem asArray?_eq_some {v : Value} {xs : List Value} :
    v.asArray? = some xs ↔ v = .arr xs := by
  cases v <;> simp [asArray?]

theorem asU64?_eq_some {v : Value} {n : ℕ} :
    v.asU64? = some n ↔ v = .num (.posInt n) := by
  cases v with
  | num m => cases m <;> simp [asU64?]
  | _ => simp [asU64?]

/-! ## Objects as sorted maps -/

/-- The order of keys: lexicographic in their characters, which is also the
byte order of their UTF-8 texts. -/
def KeyLt (k l : String) : Prop := k.toList < l.toList

instance (k l : String) : Decidable (KeyLt k l) :=
  inferInstanceAs (Decidable (k.toList < l.toList))

theorem KeyLt.trans {k l m : String} (hkl : KeyLt k l) (hlm : KeyLt l m) :
    KeyLt k m :=
  lt_trans (a := k.toList) hkl hlm

theorem KeyLt.irrefl (k : String) : ¬KeyLt k k :=
  lt_irrefl k.toList

theorem KeyLt.ne {k l : String} (h : KeyLt k l) : k ≠ l := by
  rintro rfl
  exact KeyLt.irrefl k h

theorem KeyLt.asymm {k l : String} (h : KeyLt k l) : ¬KeyLt l k :=
  fun h' => KeyLt.irrefl k (h.trans h')

theorem KeyLt.of_not_lt {k l : String} (hne : k ≠ l) (h : ¬KeyLt k l) :
    KeyLt l k := by
  rcases lt_trichotomy k.toList l.toList with hlt | heq | hgt
  · exact absurd hlt h
  · exact absurd (String.toList_inj.mp heq) hne
  · exact hgt

/-- Insert into a sorted field list, replacing the value of an equal key. -/
def insertField (k : String) (v : Value) :
    List (String × Value) → List (String × Value)
  | [] => [(k, v)]
  | (l, w) :: fs =>
      if KeyLt k l then (k, v) :: (l, w) :: fs
      else if k = l then (k, v) :: fs
      else (l, w) :: insertField k v fs

/-- Remove every field with the given key. -/
def eraseField (k : String) (fs : List (String × Value)) :
    List (String × Value) :=
  fs.filter fun f => f.1 != k

/-- The object with the given fields; of equal keys the last one counts. -/
def object (fs : List (String × Value)) : Value :=
  .obj (fs.foldl (fun m f => insertField f.1 f.2 m) [])

/-- Set a field of an object; other values are left alone. -/
def set (v : Value) (k : String) (x : Value) : Value :=
  match v with
  | .obj fs => .obj (insertField k x fs)
  | _ => v

/-- Remove a field of an object; other values are left alone. -/
def remove (v : Value) (k : String) : Value :=
  match v with
  | .obj fs => .obj (eraseField k fs)
  | _ => v

theorem lookup_cons (k l : String) (v : Value) (fs : List (String × Value)) :
    ((k, v) :: fs).lookup l = if l = k then some v else fs.lookup l := by
  by_cases h : l = k
  · simp [h]
  · simp [List.lookup_cons, h, beq_eq_false_iff_ne.mpr h]

theorem lookup_insertField (k l : String) (v : Value)
    (fs : List (String × Value)) :
    (insertField k v fs).lookup l =
      if l = k then some v else fs.lookup l := by
  induction fs with
  | nil => rw [insertField, lookup_cons]
  | cons f fs ih =>
      obtain ⟨m, w⟩ := f
      by_cases hlt : KeyLt k m
      · rw [insertField, if_pos hlt, lookup_cons]
      · by_cases heq : k = m
        · subst heq
          rw [insertField, if_neg hlt, if_pos rfl, lookup_cons, lookup_cons]
          split_ifs <;> rfl
        · rw [insertField, if_neg hlt, if_neg heq, lookup_cons, ih, lookup_cons]
          by_cases hm : l = m
          · subst hm
            simp [Ne.symm heq]
          · simp [hm]

theorem lookup_eraseField (k l : String) (fs : List (String × Value)) :
    (eraseField k fs).lookup l = if l = k then none else fs.lookup l := by
  induction fs with
  | nil => simp [eraseField]
  | cons f fs ih =>
      obtain ⟨m, w⟩ := f
      unfold eraseField at ih ⊢
      by_cases hm : m = k
      · subst hm
        rw [List.filter_cons_of_neg (by simp), ih, lookup_cons]
        split_ifs <;> rfl
      · rw [List.filter_cons_of_pos (by simpa using hm), lookup_cons, ih,
          lookup_cons]
        by_cases h : l = m
        · subst h
          simp [hm]
        · simp [h]

theorem mem_insertField {k : String} {v : Value}
    {fs : List (String × Value)} {f : String × Value}
    (hf : f ∈ insertField k v fs) : f = (k, v) ∨ f ∈ fs := by
  induction fs with
  | nil => simpa [insertField] using hf
  | cons g fs ih =>
      obtain ⟨m, w⟩ := g
      unfold insertField at hf
      split_ifs at hf with hlt heq
      · simpa using hf
      · rcases List.mem_cons.mp hf with h | h
        · exact Or.inl h
        · exact Or.inr (List.mem_cons_of_mem _ h)
      · rcases List.mem_cons.mp hf with h | h
        · exact Or.inr (h ▸ List.mem_cons_self)
        · rcases ih h with h | h
          · exact Or.inl h
          · exact Or.inr (List.mem_cons_of_mem _ h)

@[simp] theorem getElem_set {v : Value} {fs : List (String × Value)}
    (hv : v = .obj fs) (k l : String) (x : Value) :
    (v.set k x)[l] = if l = k then x else v[l] := by
  subst hv
  by_cases h : l = k <;> simp [set, lookup_insertField, h]

theorem getElem_remove (v : Value) (k l : String) :
    (v.remove k)[l] = if l = k then .null else v[l] := by
  cases v with
  | obj fs =>
      by_cases h : l = k <;> simp [remove, lookup_eraseField, h]
  | _ => simp [remove, getElem_eq, get?]

@[simp] theorem getElem_remove_of_ne {k l : String} (h : l ≠ k) (v : Value) :
    (v.remove k)[l] = v[l] := by
  rw [getElem_remove, if_neg h]

/-! ## Ordered values -/

/-- Keys of a field list are strictly increasing. -/
def SortedKeys (fs : List (String × Value)) : Prop :=
  (fs.map Prod.fst).Pairwise KeyLt

/-- `P` holds at every node of a value. -/
inductive Every (P : Value → Prop) : Value → Prop
  | null : P null → Every P null
  | bool {b : Bool} : P (bool b) → Every P (bool b)
  | num {n : Number} : P (num n) → Every P (num n)
  | str {s : String} : P (str s) → Every P (str s)
  | arr {xs : List Value} :
      P (arr xs) → (∀ x ∈ xs, Every P x) → Every P (arr xs)
  | obj {fs : List (String × Value)} :
      P (obj fs) → (∀ f ∈ fs, Every P f.2) → Every P (obj fs)

variable {P : Value → Prop}

theorem Every.self {v : Value} (h : v.Every P) : P v := by
  cases h <;> assumption

theorem Every.items {xs : List Value} (h : Every P (Value.arr xs)) :
    ∀ x ∈ xs, x.Every P := by
  cases h with
  | arr _ hxs => exact hxs

theorem Every.fields {fs : List (String × Value)} (h : Every P (Value.obj fs)) :
    ∀ f ∈ fs, f.2.Every P := by
  cases h with
  | obj _ hfs => exact hfs

theorem Every.lookup {fs : List (String × Value)} (h : Every P (Value.obj fs))
    {k : String} {x : Value} (hx : fs.lookup k = some x) : x.Every P := by
  obtain ⟨l₁, l₂, rfl, _⟩ := List.lookup_eq_some_iff.mp hx
  exact h.fields (k, x) (by simp)

theorem Every.get? {v : Value} (h : v.Every P) {k : String} {x : Value}
    (hx : v.get? k = some x) : x.Every P := by
  cases v with
  | obj fs => exact h.lookup hx
  | _ => simp [Value.get?] at hx

theorem Every.getElem {v : Value} (h : v.Every P) (hnull : P .null)
    (k : String) : v[k].Every P := by
  rw [getElem_eq]
  cases hx : v.get? k with
  | none => exact .null hnull
  | some x => exact h.get? hx

theorem SortedKeys.insertField {fs : List (String × Value)}
    (h : SortedKeys fs) (k : String) (v : Value) :
    SortedKeys (insertField k v fs) := by
  induction fs with
  | nil => simp [SortedKeys, Value.insertField]
  | cons f fs ih =>
      obtain ⟨m, w⟩ := f
      simp only [SortedKeys, List.map_cons, List.pairwise_cons] at h ih ⊢
      obtain ⟨hm, htail⟩ := h
      unfold Value.insertField
      split_ifs with hlt heq
      · simp only [List.map_cons, List.pairwise_cons, List.mem_cons]
        refine ⟨?_, hm, htail⟩
        rintro x (rfl | hx)
        · exact hlt
        · exact hlt.trans (hm x hx)
      · subst heq
        exact List.pairwise_cons.mpr ⟨hm, htail⟩
      · simp only [List.map_cons, List.pairwise_cons]
        refine ⟨?_, ih htail⟩
        intro x hx
        obtain ⟨f, hf, rfl⟩ := List.mem_map.mp hx
        rcases mem_insertField hf with rfl | hf
        · exact KeyLt.of_not_lt heq hlt
        · exact hm _ (List.mem_map_of_mem hf)

theorem SortedKeys.eraseField {fs : List (String × Value)}
    (h : SortedKeys fs) (k : String) : SortedKeys (eraseField k fs) :=
  List.Pairwise.sublist ((List.filter_sublist).map _) h

/-- Inserting a key above all keys of a sorted list appends it. -/
theorem insertField_of_forall_lt {fs : List (String × Value)} {k : String}
    (v : Value) (h : ∀ f ∈ fs, KeyLt f.1 k) :
    insertField k v fs = fs ++ [(k, v)] := by
  induction fs with
  | nil => rfl
  | cons f fs ih =>
      obtain ⟨m, w⟩ := f
      have hm : KeyLt m k := h (m, w) (by simp)
      rw [insertField, if_neg hm.asymm, if_neg hm.ne.symm,
        ih fun g hg => h g (by simp [hg])]
      rfl

theorem SortedKeys.nil : SortedKeys [] := List.Pairwise.nil

theorem SortedKeys.nodup {fs : List (String × Value)} (h : SortedKeys fs) :
    (fs.map Prod.fst).Nodup :=
  List.Pairwise.imp (fun hlt => hlt.ne) h

/-- The fields of an object built from a list: their keys increase, all come
from the list, and of equal keys the last one counts. -/
theorem exists_object (gs : List (String × Value)) :
    ∃ fs, object gs = .obj fs ∧ SortedKeys fs ∧ (∀ f ∈ fs, f ∈ gs) ∧
      ∀ k, fs.lookup k = gs.reverse.lookup k := by
  refine ⟨_, rfl, ?_⟩
  induction gs using List.reverseRecOn with
  | nil => exact ⟨.nil, by simp, by simp⟩
  | append_singleton gs g ih =>
      obtain ⟨hsorted, hmem, hlookup⟩ := ih
      obtain ⟨l, w⟩ := g
      rw [List.foldl_append]
      refine ⟨hsorted.insertField l w, ?_, ?_⟩
      · intro f hf
        rcases mem_insertField hf with rfl | hf
        · simp
        · exact List.mem_append_left _ (hmem f hf)
      · intro k
        simp only [List.foldl_cons, List.foldl_nil, List.reverse_append,
          List.reverse_cons, List.reverse_nil, List.nil_append,
          List.cons_append]
        rw [lookup_insertField, lookup_cons, hlookup]

theorem getElem_object (gs : List (String × Value)) (k : String) :
    (object gs)[k] = (gs.reverse.lookup k).getD .null := by
  obtain ⟨fs, hfs, _, _, hlookup⟩ := exists_object gs
  rw [hfs, getElem_obj, hlookup]

/-! ## Depth -/

mutual
/-- Nesting depth of arrays and objects; scalars have depth zero. -/
def depth : Value → ℕ
  | .arr xs => depthItems xs + 1
  | .obj fs => depthFields fs + 1
  | _ => 0

def depthItems : List Value → ℕ
  | [] => 0
  | x :: xs => max (depth x) (depthItems xs)

def depthFields : List (String × Value) → ℕ
  | [] => 0
  | (_, x) :: fs => max (depth x) (depthFields fs)
end

theorem depthItems_le_iff {xs : List Value} {n : ℕ} :
    depthItems xs ≤ n ↔ ∀ x ∈ xs, x.depth ≤ n := by
  induction xs with
  | nil => simp [depthItems]
  | cons x xs ih => rw [depthItems, Nat.max_le, ih, List.forall_mem_cons]

theorem depthFields_le_iff {fs : List (String × Value)} {n : ℕ} :
    depthFields fs ≤ n ↔ ∀ f ∈ fs, f.2.depth ≤ n := by
  induction fs with
  | nil => simp [depthFields]
  | cons f fs ih =>
      obtain ⟨k, x⟩ := f
      rw [depthFields, Nat.max_le, ih]
      simp

theorem depth_arr_le_iff {xs : List Value} {n : ℕ} :
    (arr xs).depth ≤ n + 1 ↔ ∀ x ∈ xs, x.depth ≤ n := by
  rw [depth, Nat.add_le_add_iff_right, depthItems_le_iff]

theorem depth_obj_le_iff {fs : List (String × Value)} {n : ℕ} :
    (obj fs).depth ≤ n + 1 ↔ ∀ f ∈ fs, f.2.depth ≤ n := by
  rw [depth, Nat.add_le_add_iff_right, depthFields_le_iff]

theorem depth_getElem (v : Value) (k : String) :
    v[k].depth ≤ v.depth - 1 := by
  cases v with
  | obj fs =>
      rw [getElem_obj]
      cases hx : fs.lookup k with
      | none => simp [depth]
      | some x =>
          obtain ⟨l₁, l₂, rfl, _⟩ := List.lookup_eq_some_iff.mp hx
          have hdepth := depthFields_le_iff.mp
            (Nat.le_refl (depthFields (l₁ ++ (k, x) :: l₂))) (k, x) (by simp)
          simpa [depth] using hdepth
  | _ => simp [getElem_eq, get?, depth]

theorem depth_object_le {gs : List (String × Value)} {n : ℕ}
    (h : ∀ f ∈ gs, f.2.depth ≤ n) : (object gs).depth ≤ n + 1 := by
  obtain ⟨fs, hfs, _, hmem, _⟩ := exists_object gs
  rw [hfs]
  exact depth_obj_le_iff.mpr fun f hf => h f (hmem f hf)

theorem depth_remove_le (v : Value) (k : String) :
    (v.remove k).depth ≤ v.depth := by
  cases v with
  | obj fs =>
      refine depth_obj_le_iff.mpr fun f hf => ?_
      exact depthFields_le_iff.mp (Nat.le_refl _) f (List.mem_filter.mp hf).1
  | _ => exact Nat.le_refl _

theorem depth_set_le {v x : Value} {n : ℕ} (k : String)
    (hv : v.depth ≤ n + 1) (hx : x.depth ≤ n) :
    (v.set k x).depth ≤ n + 1 := by
  cases v with
  | obj fs =>
      refine depth_obj_le_iff.mpr fun f hf => ?_
      rcases mem_insertField hf with rfl | hf
      · exact hx
      · exact depth_obj_le_iff.mp hv f hf
  | _ => exact hv

end Value

end Json
