import AgentGateway.Library.Json.Schema
import AgentGateway.Library.Json.Size

/-!
# Renaming texts within a value

A map of the strings of a value that may depend on where they stand: on the key
of their own field and on the key of the field around it.  Items of an array
stand under the empty key.  Schemas that know the keys of all objects show that
a value has no field of a given name, and so nothing that a renaming of that
field could change.
-/

namespace Json

open Value (object)

/-- A map of strings that depends on the two innermost keys. -/
abbrev StringMap := String → String → String → String

namespace Value

variable (f : StringMap)

/-! ## The map -/

mutual
def mapStrings (parent key : String) : Value → Value
  | .str s => .str (f parent key s)
  | .arr xs => .arr (mapItems xs)
  | .obj fs => .obj (mapFields key fs)
  | v => v

def mapItems : List Value → List Value
  | [] => []
  | x :: xs => mapStrings "" "" x :: mapItems xs

def mapFields (parent : String) :
    List (String × Value) → List (String × Value)
  | [] => []
  | (k, x) :: fs => (k, mapStrings parent k x) :: mapFields parent fs
end

variable {f} {p k : String}

theorem mapItems_eq (xs : List Value) :
    mapItems f xs = xs.map (mapStrings f "" "") := by
  induction xs with
  | nil => rfl
  | cons x xs ih => rw [mapItems, ih, List.map_cons]

theorem mapFields_eq (p : String) (fs : List (String × Value)) :
    mapFields f p fs = fs.map fun x => (x.1, mapStrings f p x.1 x.2) := by
  induction fs with
  | nil => rfl
  | cons x fs ih => rw [mapFields, ih, List.map_cons]

theorem lookup_mapFields (p l : String) (fs : List (String × Value)) :
    (mapFields f p fs).lookup l =
      (fs.lookup l).map (mapStrings f p l) := by
  induction fs with
  | nil => rfl
  | cons x fs ih =>
      obtain ⟨k, x⟩ := x
      rw [mapFields, lookup_cons, lookup_cons, ih]
      by_cases hk : l = k
      · rw [if_pos hk, if_pos hk, hk, Option.map_some]
      · rw [if_neg hk, if_neg hk]

theorem keys_mapFields (p : String) (fs : List (String × Value)) :
    (mapFields f p fs).map Prod.fst = fs.map Prod.fst := by
  rw [mapFields_eq, List.map_map]
  rfl

@[simp] theorem get?_mapStrings (v : Value) (l : String) :
    (v.mapStrings f p k).get? l = (v.get? l).map (mapStrings f k l) := by
  cases v with
  | obj fs => exact lookup_mapFields k l fs
  | _ => rfl

@[simp] theorem getElem_mapStrings (v : Value) (l : String) :
    (v.mapStrings f p k)[l] = v[l].mapStrings f k l := by
  rw [getElem_eq, getElem_eq, get?_mapStrings]
  cases v.get? l <;> rfl

@[simp] theorem asArray?_mapStrings (v : Value) :
    (v.mapStrings f p k).asArray? =
      v.asArray?.map (List.map (mapStrings f "" "")) := by
  cases v with
  | arr xs => exact congrArg some (mapItems_eq xs)
  | _ => rfl

@[simp] theorem asStr?_mapStrings (v : Value) :
    (v.mapStrings f p k).asStr? = v.asStr?.map (f p k) := by
  cases v <;> rfl

@[simp] theorem isNull_mapStrings (v : Value) :
    (v.mapStrings f p k).isNull = v.isNull := by
  cases v <;> rfl

/-- Injective maps of the strings make an injective map of the values. -/
theorem mapStrings_inj (hf : ∀ p k, Function.Injective (f p k)) {v w : Value} :
    v.mapStrings f p k = w.mapStrings f p k ↔ v = w := by
  refine ⟨fun heq => ?_, fun heq => by rw [heq]⟩
  induction v using Value.induct generalizing w p k with
  | str s =>
      cases w <;> simp only [mapStrings, Value.str.injEq, reduceCtorEq] at heq
      rw [hf p k heq]
  | arr xs ih =>
      cases w <;> simp only [mapStrings, Value.arr.injEq, reduceCtorEq] at heq
      next ys =>
        rw [mapItems_eq, mapItems_eq] at heq
        refine congrArg Value.arr (List.ext_getElem ?_ fun i hi hj => ?_)
        · simpa using congrArg List.length heq
        · refine ih _ (List.getElem_mem hi) (p := "") (k := "") ?_
          have hget := congrArg (fun l => l[i]?) heq
          simpa [hi, hj] using hget
  | obj fs ih =>
      cases w <;> simp only [mapStrings, Value.obj.injEq, reduceCtorEq] at heq
      next gs =>
        rw [mapFields_eq, mapFields_eq] at heq
        refine congrArg Value.obj (List.ext_getElem ?_ fun i hi hj => ?_)
        · simpa using congrArg List.length heq
        · have hget := congrArg (fun l => l[i]?) heq
          simp only [List.getElem?_map, List.getElem?_eq_getElem hi,
            List.getElem?_eq_getElem hj, Option.map_some, Option.some.injEq,
            Prod.mk.injEq] at hget
          obtain ⟨hkey, hvalue⟩ := hget
          rw [← hkey] at hvalue
          exact Prod.ext hkey (ih _ (List.getElem_mem hi) hvalue)
  | _ => cases w <;> simp_all [mapStrings]

/-! ## Sizes and nodes -/

theorem size_arr_congr {xs ys : List Value}
    (h : List.Forall₂ (fun x y => size x = size y) xs ys) :
    size (.arr xs) = size (.arr ys) := by
  have hitems : ∀ {xs ys : List Value},
      List.Forall₂ (fun x y => size x = size y) xs ys →
        (Utf8.encode (printItems xs)).length =
          (Utf8.encode (printItems ys)).length := by
    intro xs ys h
    induction h with
    | nil => rfl
    | cons hxy _ ih =>
        simp only [size] at hxy
        rw [printItems, printItems, length_encode_cons rfl,
          length_encode_cons rfl, Utf8.encode_append, Utf8.encode_append,
          List.length_append, List.length_append, hxy, ih]
  cases h with
  | nil => rfl
  | cons hxy h =>
      simp only [size] at hxy ⊢
      rw [print, print, length_encode_cons rfl, length_encode_cons rfl,
        Utf8.encode_append, Utf8.encode_append, List.length_append,
        List.length_append, hxy, hitems h]

theorem size_obj_congr {fs gs : List (String × Value)}
    (h : List.Forall₂ (fun x y => x.1 = y.1 ∧ size x.2 = size y.2) fs gs) :
    size (.obj fs) = size (.obj gs) := by
  have hfields : ∀ {fs gs : List (String × Value)},
      List.Forall₂ (fun x y => x.1 = y.1 ∧ size x.2 = size y.2) fs gs →
        fieldsSize fs = fieldsSize gs := by
    intro fs gs h
    induction h with
    | nil => rfl
    | cons hxy _ ih =>
        simp only [fieldsSize, List.map_cons, List.sum_cons] at ih ⊢
        rw [ih, fieldSize, fieldSize, hxy.1, hxy.2]
  cases h with
  | nil => rfl
  | cons hxy h => rw [size_obj_cons, size_obj_cons, hfields (.cons hxy h)]

/-- The text of a value keeps its size with the sizes of its strings. -/
theorem size_mapStrings
    (hf : ∀ p k s, size (.str (f p k s)) = size (.str s)) (v : Value) :
    size (v.mapStrings f p k) = size v := by
  induction v using Value.induct generalizing p k with
  | str s => exact hf p k s
  | arr xs ih =>
      rw [mapStrings, mapItems_eq]
      refine size_arr_congr (List.forall₂_map_left_iff.mpr ?_)
      exact List.forall₂_same.mpr fun x hx => ih x hx
  | obj fs ih =>
      rw [mapStrings, mapFields_eq]
      refine size_obj_congr (List.forall₂_map_left_iff.mpr ?_)
      exact List.forall₂_same.mpr fun x hx => ⟨rfl, ih x hx⟩
  | _ => rfl

theorem Every.mapStrings {P : Value → Prop}
    (hP : ∀ p k v, P v → P (v.mapStrings f p k)) {v : Value}
    (hv : v.Every P) : (v.mapStrings f p k).Every P := by
  induction v using Value.induct generalizing p k with
  | null => exact hv
  | bool b => exact hv
  | num n => exact hv
  | str s => exact .str (hP p k _ hv.self)
  | arr xs ih =>
      refine .arr (hP p k _ hv.self) fun x hx => ?_
      rw [mapItems_eq] at hx
      obtain ⟨y, hy, rfl⟩ := List.mem_map.mp hx
      exact ih y hy (hv.items y hy)
  | obj fs ih =>
      refine .obj (hP p k _ hv.self) fun x hx => ?_
      rw [mapFields_eq] at hx
      obtain ⟨y, hy, rfl⟩ := List.mem_map.mp hx
      exact ih y hy (hv.fields y hy)

theorem depth_mapStrings (v : Value) :
    (v.mapStrings f p k).depth = v.depth := by
  have hle : ∀ n, (v.mapStrings f p k).depth ≤ n ↔ v.depth ≤ n := by
    induction v using Value.induct generalizing p k with
    | arr xs ih =>
        intro n
        cases n with
        | zero => simp [mapStrings, depth]
        | succ n =>
            rw [mapStrings, mapItems_eq, depth_arr_le_iff, depth_arr_le_iff,
              List.forall_mem_map]
            exact forall₂_congr fun x hx => ih x hx n
    | obj fs ih =>
        intro n
        cases n with
        | zero => simp [mapStrings, depth]
        | succ n =>
            rw [mapStrings, mapFields_eq, depth_obj_le_iff, depth_obj_le_iff,
              List.forall_mem_map]
            exact forall₂_congr fun x hx => ih x hx n
    | _ => exact fun n => Iff.rfl
  exact eq_of_forall_ge_iff hle

/-! ## Values without a field -/

/-- No object within the value has a field of this name. -/
def Lacks (l : String) (v : Value) : Prop := v.Every fun w => w.get? l = none

variable {l : String}

theorem lacks_mapStrings {v : Value} :
    (v.mapStrings f p k).Lacks l ↔ v.Lacks l := by
  constructor
  · intro h
    induction v using Value.induct generalizing p k with
    | null => exact .null rfl
    | bool b => exact .bool rfl
    | num n => exact .num rfl
    | str s => exact .str rfl
    | arr xs ih =>
        refine .arr rfl fun x hx => ih x hx (p := "") (k := "") ?_
        exact Every.items h _ (by
          rw [mapItems_eq]
          exact List.mem_map_of_mem hx)
    | obj fs ih =>
        refine .obj ?_ fun x hx => ih x hx (p := k) (k := x.1) ?_
        · have hself := Every.self h
          rwa [get?_mapStrings, Option.map_eq_none_iff] at hself
        · exact Every.fields h (x.1, x.2.mapStrings f k x.1) (by
            rw [mapFields_eq]
            exact List.mem_map.mpr ⟨x, hx, rfl⟩)
  · intro h
    refine Every.mapStrings (fun p k v hv => ?_) h
    rw [get?_mapStrings, hv]
    rfl

theorem Lacks.getElem {v : Value} (h : v.Lacks l) (k : String) :
    v[k].Lacks l := Every.getElem h rfl k

theorem Lacks.ne_of_mem {fs : List (String × Value)}
    (h : Lacks l (.obj fs)) {x : String × Value} (hx : x ∈ fs) :
    x.1 ≠ l := by
  rintro rfl
  have hnone : fs.lookup x.1 = none := Every.self h
  rw [List.lookup_eq_none_iff] at hnone
  simpa using hnone x hx

/-- A renaming within a field changes nothing where there is no such field. -/
theorem mapStrings_of_lacks (hl : l ≠ "")
    (hf : ∀ p k s, p ≠ l → f p k s = s) {v : Value} (hv : v.Lacks l)
    (hp : p ≠ l) (hk : k ≠ l) : v.mapStrings f p k = v := by
  induction v using Value.induct generalizing p k with
  | str s => rw [mapStrings, hf p k s hp]
  | arr xs ih =>
      have hitems : xs.map (mapStrings f "" "") = xs.map id :=
        List.map_congr_left fun x hx =>
          ih x hx (hv.items x hx) (Ne.symm hl) (Ne.symm hl)
      rw [mapStrings, mapItems_eq, hitems, List.map_id]
  | obj fs ih =>
      have hfields : fs.map (fun x => (x.1, mapStrings f k x.1 x.2)) =
          fs.map id := by
        refine List.map_congr_left fun x hx => Prod.ext rfl ?_
        exact ih x hx (hv.fields x hx) hk (Lacks.ne_of_mem hv hx)
      rw [mapStrings, mapFields_eq, hfields, List.map_id]
  | _ => rfl

theorem Lacks.str (s : String) : Lacks l (.str s) := Every.str rfl

mutual
/-- `Lacks`, computed. -/
def lacksField (l : String) : Value → Bool
  | .arr xs => lacksFieldItems l xs
  | .obj fs => lacksFieldFields l fs
  | _ => true

def lacksFieldItems (l : String) : List Value → Bool
  | [] => true
  | x :: xs => lacksField l x && lacksFieldItems l xs

def lacksFieldFields (l : String) : List (String × Value) → Bool
  | [] => true
  | (k, x) :: fs => decide (k ≠ l) && lacksField l x && lacksFieldFields l fs
end

theorem lacksFieldItems_iff {xs : List Value} :
    lacksFieldItems l xs = true ↔ ∀ x ∈ xs, x.lacksField l = true := by
  induction xs with
  | nil => simp [lacksFieldItems]
  | cons x xs ih => simp [lacksFieldItems, ih]

theorem lacksFieldFields_iff {fs : List (String × Value)} :
    lacksFieldFields l fs = true ↔
      ∀ x ∈ fs, x.1 ≠ l ∧ x.2.lacksField l = true := by
  induction fs with
  | nil => simp [lacksFieldFields]
  | cons x fs ih => simp [lacksFieldFields, ih]

theorem lacks_obj {fs : List (String × Value)}
    (h : ∀ x ∈ fs, x.1 ≠ l ∧ x.2.Lacks l) : Lacks l (.obj fs) := by
  refine Every.obj (List.lookup_eq_none_iff.mpr fun x hx => ?_)
    fun x hx => (h x hx).2
  simpa using Ne.symm (h x hx).1

theorem lacks_of_lacksField {v : Value} (hv : v.lacksField l = true) :
    v.Lacks l := by
  induction v using Value.induct with
  | null => exact Every.null rfl
  | bool b => exact Every.bool rfl
  | num n => exact Every.num rfl
  | str s => exact .str s
  | arr xs ih =>
      rw [lacksField, lacksFieldItems_iff] at hv
      exact Every.arr rfl fun x hx => ih x hx (hv x hx)
  | obj fs ih =>
      rw [lacksField, lacksFieldFields_iff] at hv
      exact lacks_obj fun x hx => ⟨(hv x hx).1, ih x hx (hv x hx).2⟩

end Value

/-! ## Schemas that exclude a field -/

namespace Schema

mutual
/-- Every valid value lacks the field: the keys of its objects are declared, and
the field is not among them. -/
def excludes (l : String) : Schema → Bool
  | .any => false
  | .null => true
  | .const w => w.lacksField l
  | .enum ws => ws.all fun w => w.lacksField l
  | .string _ _ _ _ => true
  | .integer _ _ => true
  | .array items _ _ _ => excludes l items
  | .object ps _ _ => excludesFields l ps
  | .properties _ => false
  | .allOf _ => false
  | .anyOf ss => excludesAll l ss
  | .oneOf ss => excludesAll l ss

def excludesFields (l : String) : List (String × Schema) → Bool
  | [] => true
  | (k, s) :: ps => decide (k ≠ l) && excludes l s && excludesFields l ps

def excludesAll (l : String) : List Schema → Bool
  | [] => true
  | s :: ss => excludes l s && excludesAll l ss
end

variable {F : Format → String → Bool} {l : String}

mutual
theorem lacks_of_valid : ∀ (s : Schema) {v : Value},
    excludes l s = true → valid F s v = true → v.Lacks l
  | .any, _, hs, _ => by simp [excludes] at hs
  | .null, v, _, hv => by
      rw [valid, Value.isNull_iff] at hv
      rw [hv]
      exact .null rfl
  | .const w, v, hs, hv => by
      simp only [valid, decide_eq_true_eq] at hv
      rw [hv]
      exact Value.lacks_of_lacksField hs
  | .enum ws, v, hs, hv => by
      simp only [valid, decide_eq_true_eq] at hv
      rw [excludes, List.all_eq_true] at hs
      exact Value.lacks_of_lacksField (hs v hv)
  | .string _ _ _ _, v, _, hv => by
      obtain ⟨s, rfl, _⟩ := valid_string hv
      exact .str s
  | .integer _ _, v, _, hv => by
      obtain ⟨m, rfl, _⟩ := valid_integer hv
      exact .num rfl
  | .array items _ _ _, v, hs, hv => by
      obtain ⟨xs, rfl, hxs⟩ := valid_array hv
      rw [excludes] at hs
      exact .arr rfl fun x hx => lacks_of_valid items hs (hxs x hx)
  | .object ps _ _, v, hs, hv => by
      obtain ⟨fs, rfl, _, hfs⟩ := exists_fields_of_valid hv
      rw [excludes] at hs
      exact Value.lacks_obj fun x hx => lacks_of_validField ps hs (hfs x hx)
  | .properties _, _, hs, _ => by simp [excludes] at hs
  | .allOf _, _, hs, _ => by simp [excludes] at hs
  | .anyOf ss, v, hs, hv => by
      rw [valid, decide_eq_true_eq, validCount_pos_iff] at hv
      rw [excludes] at hs
      exact lacks_of_validAny ss hs hv
  | .oneOf ss, v, hs, hv => by
      rw [valid, decide_eq_true_eq] at hv
      rw [excludes] at hs
      exact lacks_of_validAny ss hs (validCount_pos_iff.mp (by omega))

theorem lacks_of_validField : ∀ (ps : List (String × Schema)) {k : String}
    {x : Value}, excludesFields l ps = true →
      validField F ps k x = true → k ≠ l ∧ x.Lacks l
  | [], _, _, _, hx => by simp [validField] at hx
  | (m, s) :: ps, k, x, hs, hx => by
      simp only [excludesFields, Bool.and_eq_true, decide_eq_true_eq] at hs
      obtain ⟨⟨hm, hs⟩, hps⟩ := hs
      rw [validField] at hx
      split_ifs at hx with hk
      · exact ⟨hk ▸ hm, lacks_of_valid s hs hx⟩
      · exact lacks_of_validField ps hps hx

theorem lacks_of_validAny : ∀ (ss : List Schema) {v : Value},
    excludesAll l ss = true → (∃ s ∈ ss, valid F s v = true) → v.Lacks l
  | [], _, _, hv => by simp at hv
  | s :: ss, v, hs, hv => by
      rw [excludesAll, Bool.and_eq_true] at hs
      obtain ⟨t, ht, hvalid⟩ := hv
      rcases List.mem_cons.mp ht with heq | ht
      · rw [heq] at hvalid
        exact lacks_of_valid s hs.1 hvalid
      · exact lacks_of_validAny ss hs.2 ⟨t, ht, hvalid⟩
end

end Schema

end Json
