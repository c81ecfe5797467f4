import AgentGateway.Library.Json.Schema
import AgentGateway.Library.Json.Text
import AgentGateway.Library.Utf8
import Mathlib.Algebra.Order.BigOperators.Group.List
import Mathlib.Algebra.Order.Group.Nat

/-!
# Sizes of JSON texts

The number of bytes of a compact text, up to the braces by the sum over the
fields of an object, and the validity of objects, closed and open, that are given
by a list of fields.
-/

namespace Json

open Value (object insertField)

/-- The number of bytes of the compact text of a value. -/
def size (v : Value) : ℕ := (Utf8.encode (print v)).length

/-- A field with its colon and a comma. -/
def fieldSize (f : String × Value) : ℕ :=
  (Utf8.encode (printString f.1)).length + size f.2 + 2

def fieldsSize (fs : List (String × Value)) : ℕ := (fs.map fieldSize).sum

theorem fieldsSize_append_cons (fs gs : List (String × Value))
    (f : String × Value) :
    fieldsSize (fs ++ f :: gs) =
      fieldsSize fs + (fieldSize f + fieldsSize gs) := by
  simp [fieldsSize]

theorem length_encode_cons {c : Char} (hc : c.utf8Size = 1) (cs : List Char) :
    (Utf8.encode (c :: cs)).length = (Utf8.encode cs).length + 1 := by
  rw [Utf8.length_encode, Utf8.length_encode, List.map_cons, List.sum_cons, hc]
  omega

theorem length_encode_printFields (fs : List (String × Value)) :
    (Utf8.encode (printFields fs)).length = fieldsSize fs + 1 := by
  induction fs with
  | nil => rfl
  | cons f fs ih =>
      obtain ⟨k, x⟩ := f
      rw [printFields, length_encode_cons rfl, Utf8.encode_append,
        List.length_append, length_encode_cons rfl, Utf8.encode_append,
        List.length_append, ih, fieldsSize, fieldsSize, List.map_cons,
        List.sum_cons]
      simp only [fieldSize, size]
      omega

theorem size_obj_cons (f : String × Value) (fs : List (String × Value)) :
    size (.obj (f :: fs)) = fieldsSize (f :: fs) + 1 := by
  obtain ⟨k, x⟩ := f
  have hfields := length_encode_printFields ((k, x) :: fs)
  rw [printFields, length_encode_cons rfl] at hfields
  rw [size, print, length_encode_cons rfl]
  exact hfields

theorem size_obj_le (fs : List (String × Value)) :
    size (.obj fs) ≤ fieldsSize fs + 2 := by
  cases fs with
  | nil => exact Nat.le_refl _
  | cons f fs =>
      rw [size_obj_cons]
      omega

theorem fieldsSize_le_size (fs : List (String × Value)) :
    fieldsSize fs ≤ size (.obj fs) := by
  cases fs with
  | nil => exact Nat.zero_le _
  | cons f fs =>
      rw [size_obj_cons]
      omega

theorem size_le_of_mem {f : String × Value} {fs : List (String × Value)}
    (hf : f ∈ fs) : size f.2 ≤ size (.obj fs) := by
  have hsum : fieldSize f ≤ fieldsSize fs :=
    List.le_sum_of_mem (List.mem_map_of_mem hf)
  have hfield : size f.2 ≤ fieldSize f := by
    rw [fieldSize]
    omega
  exact hfield.trans (hsum.trans (fieldsSize_le_size fs))

/-- A field that is there is not larger than the object. -/
theorem size_getElem_le {v : Value} {k : String} (hk : v[k] ≠ .null) :
    size v[k] ≤ size v := by
  cases v with
  | obj fs =>
      cases hlookup : fs.lookup k with
      | none => simp [hlookup] at hk
      | some x =>
          obtain ⟨l₁, l₂, rfl, _⟩ := List.lookup_eq_some_iff.mp hlookup
          rw [Value.getElem_obj, hlookup, Option.getD_some]
          exact size_le_of_mem (f := (k, x)) (by simp)
  | _ => exact absurd rfl hk

theorem fieldsSize_insertField_le (k : String) (v : Value)
    (fs : List (String × Value)) :
    fieldsSize (insertField k v fs) ≤ fieldSize (k, v) + fieldsSize fs := by
  induction fs with
  | nil => simp [insertField, fieldsSize]
  | cons f fs ih =>
      obtain ⟨l, w⟩ := f
      rw [insertField]
      split_ifs
      · simp [fieldsSize]
      · simp [fieldsSize]
      · simp only [fieldsSize, List.map_cons, List.sum_cons] at ih ⊢
        omega

theorem size_object_le (gs : List (String × Value)) :
    size (object gs) ≤ fieldsSize gs + 2 := by
  have hfold : ∀ fs m : List (String × Value),
      fieldsSize (fs.foldl (fun m f => insertField f.1 f.2 m) m) ≤
        fieldsSize m + fieldsSize fs := by
    intro fs
    induction fs with
    | nil => simp [fieldsSize]
    | cons f fs ih =>
        intro m
        obtain ⟨k, x⟩ := f
        have hinsert := fieldsSize_insertField_le k x m
        have hrest := ih (insertField k x m)
        rw [List.foldl_cons]
        simp only [fieldsSize, List.map_cons, List.sum_cons] at hinsert hrest ⊢
        omega
  refine (size_obj_le _).trans ?_
  have hobject := hfold gs []
  simp only [fieldsSize, List.map_nil, List.sum_nil, Nat.zero_add]
    at hobject ⊢
  omega

/-! ## Valid objects -/

theorem getElem_object_of_mem {gs : List (String × Value)}
    {f : String × Value} (hf : f ∈ gs) (hnodup : (gs.map Prod.fst).Nodup) :
    (object gs)[f.1] = f.2 := by
  obtain ⟨l₁, l₂, rfl⟩ := List.append_of_mem hf
  have hlast : f.1 ∉ l₂.reverse.map Prod.fst := by
    rw [List.map_append, List.map_cons] at hnodup
    have htail := (List.nodup_append.mp hnodup).2.1
    simpa using (List.nodup_cons.mp htail).1
  have hnone : l₂.reverse.lookup f.1 = none := by
    rw [List.lookup_eq_none_iff]
    intro g hg
    refine bne_iff_ne.mpr fun heq => hlast ?_
    rw [heq]
    exact List.mem_map_of_mem hg
  rw [Value.getElem_object, List.reverse_append, List.reverse_cons,
    List.lookup_append, List.lookup_append, hnone]
  obtain ⟨k, x⟩ := f
  simp

/-- An object given by its fields is valid if the fields are. -/
theorem Schema.valid_object {F : Format → String → Bool}
    {ps : List (String × Schema)} {required : List String}
    {dependent : List (String × List String)} {gs : List (String × Value)}
    (hkeys : Schema.keysPresent required dependent gs = true)
    (hfields : ∀ f ∈ gs, Schema.validField F ps f.1 f.2 = true) :
    Schema.valid F (.object ps required dependent) (Value.object gs) =
      true := by
  obtain ⟨fs, hobject, _, hmem, hlookup⟩ := Value.exists_object gs
  have hkey : Schema.hasKey fs = Schema.hasKey gs := by
    funext k
    rw [Schema.hasKey, Schema.hasKey, hlookup, Bool.eq_iff_iff,
      List.lookup_isSome_iff, List.lookup_isSome_iff]
    simp
  rw [hobject, Schema.valid, Bool.and_eq_true, List.all_eq_true]
  refine ⟨?_, fun f hf => hfields f (hmem f hf)⟩
  rw [Schema.keysPresent, hkey]
  exact hkeys

theorem Schema.validOpen_eq_lookup {F : Format → String → Bool}
    (ps : List (String × Schema)) (k : String) (x : Value) :
    Schema.validOpen F ps k x =
      match ps.lookup k with
      | none => true
      | some s => Schema.valid F s x := by
  induction ps with
  | nil => rfl
  | cons p ps ih =>
      obtain ⟨l, s⟩ := p
      by_cases h : k = l
      · simp [Schema.validOpen, h]
      · simp [Schema.validOpen, h, List.lookup_cons, beq_eq_false_iff_ne.mpr h,
          ih]

theorem Schema.valid_properties_object {F : Format → String → Bool}
    {ps : List (String × Schema)} {gs : List (String × Value)}
    (h : ∀ f ∈ gs, Schema.validOpen F ps f.1 f.2 = true) :
    Schema.valid F (.properties ps) (Value.object gs) = true := by
  obtain ⟨fs, hobject, _, hmem, _⟩ := Value.exists_object gs
  rw [hobject, Schema.valid, List.all_eq_true]
  exact fun f hf => h f (hmem f hf)

/-- A field that is there is valid for its property. -/
theorem Schema.valid_properties_getElem {F : Format → String → Bool}
    {ps : List (String × Schema)} {v : Value} {k : String} {s : Schema}
    (h : Schema.valid F (.properties ps) v = true)
    (hs : ps.lookup k = some s) (hk : v[k] ≠ .null) :
    Schema.valid F s v[k] = true := by
  cases v with
  | obj fs =>
      rw [Schema.valid, List.all_eq_true] at h
      cases hlookup : fs.lookup k with
      | none => simp [hlookup] at hk
      | some x =>
          obtain ⟨l₁, l₂, rfl, _⟩ := List.lookup_eq_some_iff.mp hlookup
          have hfield := h (k, x) (by simp)
          rw [Schema.validOpen_eq_lookup, hs] at hfield
          rw [Value.getElem_obj, hlookup, Option.getD_some]
          exact hfield
  | _ => exact absurd rfl hk

end Json
