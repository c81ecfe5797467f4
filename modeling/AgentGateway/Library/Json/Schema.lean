import AgentGateway.Library.Json.Value

/-!
# JSON Schema

The part of JSON Schema (draft 2020-12) used by closed data profiles: closed
objects, arrays, bounded strings and integers, constants, enumerations and the
combinators.  String formats are named here and tested by a parameter.
-/

namespace Json

inductive Format where
  | uuid
  | dateTime
  | uri
deriving DecidableEq

/-- One character of an anchored pattern. -/
inductive CharClass where
  | lowerHex
  | char (c : Char)

def CharClass.test : CharClass → Char → Bool
  | .lowerHex, c => ('0' ≤ c && c ≤ '9') || ('a' ≤ c && c ≤ 'f')
  | .char d, c => c = d

/-- An anchored pattern `^…$` of fixed length. -/
abbrev Pattern := List CharClass

def Pattern.test : Pattern → List Char → Bool
  | [], [] => true
  | p :: ps, c :: cs => p.test c && Pattern.test ps cs
  | _, _ => false

inductive Schema where
  /-- The schema `{}`. -/
  | any
  | null
  | const (w : Value)
  | enum (ws : List Value)
  /-- `type: string` with its length bounds, in characters. -/
  | string (minLength : ℕ) (maxLength : Option ℕ) (format : Option Format)
      (pattern : Option Pattern)
  /-- `type: integer` with bounds that are not negative. -/
  | integer (minimum maximum : ℕ)
  | array (items : Schema) (minItems : ℕ) (maxItems : Option ℕ)
      (uniqueItems : Bool)
  /-- `type: object` with `additionalProperties: false`. -/
  | object (properties : List (String × Schema)) (required : List String)
      (dependentRequired : List (String × List String))
  /-- `properties` alone: it says nothing of other keys or other types. -/
  | properties (ps : List (String × Schema))
  | allOf (ss : List Schema)
  | anyOf (ss : List Schema)
  | oneOf (ss : List Schema)

namespace Schema

def hasKey (fs : List (String × Value)) (k : String) : Bool :=
  (fs.lookup k).isSome

/-- `required` and `dependentRequired` of an object. -/
def keysPresent (required : List String)
    (dependentRequired : List (String × List String))
    (fs : List (String × Value)) : Bool :=
  required.all (hasKey fs) &&
    dependentRequired.all fun d => !hasKey fs d.1 || d.2.all (hasKey fs)

section Validity

variable (F : Format → String → Bool)

def stringValid (minLength : ℕ) (maxLength : Option ℕ)
    (format : Option Format) (pattern : Option Pattern) (s : String) : Bool :=
  decide (minLength ≤ s.toList.length) &&
    maxLength.all (fun n => decide (s.toList.length ≤ n)) &&
    format.all (fun f => F f s) &&
    pattern.all fun p => p.test s.toList

mutual
/-- Validity of a value that holds no number but nonnegative integers. -/
def valid : Schema → Value → Bool
  | .any, _ => true
  | .null, v => v.isNull
  | .const w, v => decide (v = w)
  | .enum ws, v => decide (v ∈ ws)
  | .string lo hi format pattern, v =>
      match v with
      | .str s => stringValid F lo hi format pattern s
      | _ => false
  | .integer lo hi, v =>
      match v with
      | .num (.posInt n) => decide (lo ≤ n) && decide (n ≤ hi)
      | _ => false
  | .array items lo hi unique, v =>
      match v with
      | .arr xs =>
          decide (lo ≤ xs.length) &&
            hi.all (fun n => decide (xs.length ≤ n)) &&
            (!unique || decide xs.Nodup) && xs.all fun x => valid items x
      | _ => false
  | .object ps required dependent, v =>
      match v with
      | .obj fs =>
          keysPresent required dependent fs &&
            fs.all fun f => validField ps f.1 f.2
      | _ => false
  | .properties ps, v =>
      match v with
      | .obj fs => fs.all fun f => validOpen ps f.1 f.2
      | _ => true
  | .allOf ss, v => validAll ss v
  | .anyOf ss, v => decide (0 < validCount ss v)
  | .oneOf ss, v => decide (validCount ss v = 1)

/-- A field of a closed object: its key must be declared. -/
def validField : List (String × Schema) → String → Value → Bool
  | [], _, _ => false
  | (k, s) :: ps, l, x => if l = k then valid s x else validField ps l x

/-- A field of an open object. -/
def validOpen : List (String × Schema) → String → Value → Bool
  | [], _, _ => true
  | (k, s) :: ps, l, x => if l = k then valid s x else validOpen ps l x

def validAll : List Schema → Value → Bool
  | [], _ => true
  | s :: ss, v => valid s v && validAll ss v

/-- How many of the schemas accept the value. -/
def validCount : List Schema → Value → ℕ
  | [], _ => 0
  | s :: ss, v => (if valid s v then 1 else 0) + validCount ss v
end

variable {F}

theorem validField_eq_lookup (ps : List (String × Schema)) (k : String)
    (x : Value) :
    validField F ps k x =
      match ps.lookup k with
      | none => false
      | some s => valid F s x := by
  induction ps with
  | nil => rfl
  | cons p ps ih =>
      obtain ⟨l, s⟩ := p
      by_cases h : k = l
      · simp [validField, h]
      · simp [validField, h, List.lookup_cons, beq_eq_false_iff_ne.mpr h, ih]

theorem validAll_eq_true_iff {ss : List Schema} {v : Value} :
    validAll F ss v = true ↔ ∀ s ∈ ss, valid F s v = true := by
  induction ss with
  | nil => simp [validAll]
  | cons s ss ih => simp [validAll, ih]

theorem validCount_pos_iff {ss : List Schema} {v : Value} :
    0 < validCount F ss v ↔ ∃ s ∈ ss, valid F s v = true := by
  induction ss with
  | nil => simp [validCount]
  | cons s ss ih =>
      by_cases h : valid F s v = true
      · rw [validCount, if_pos h,
          iff_true_right ⟨s, List.mem_cons_self, h⟩]
        exact Nat.add_pos_left Nat.one_pos _
      · simp [validCount, h, ih]

/-- A value valid for a closed object is an object. -/
theorem exists_fields_of_valid {ps : List (String × Schema)}
    {required : List String} {dependent : List (String × List String)}
    {v : Value} (h : valid F (.object ps required dependent) v = true) :
    ∃ fs, v = .obj fs ∧ keysPresent required dependent fs = true ∧
      ∀ f ∈ fs, validField F ps f.1 f.2 = true := by
  cases v with
  | obj fs =>
      rw [valid, Bool.and_eq_true, List.all_eq_true] at h
      exact ⟨fs, rfl, h.1, h.2⟩
  | _ => simp [valid] at h

/-- A required property of a valid object is there and valid. -/
theorem validField_getElem {ps : List (String × Schema)}
    {required : List String} {dependent : List (String × List String)}
    {v : Value} (h : valid F (.object ps required dependent) v = true)
    {k : String} (hk : k ∈ required) : validField F ps k v[k] = true := by
  obtain ⟨fs, rfl, hkeys, hfields⟩ := exists_fields_of_valid h
  simp only [keysPresent, Bool.and_eq_true, List.all_eq_true] at hkeys
  obtain ⟨x, hx⟩ := Option.isSome_iff_exists.mp (hkeys.1 k hk)
  obtain ⟨l₁, l₂, rfl, _⟩ := List.lookup_eq_some_iff.mp hx
  rw [Value.getElem_obj, hx]
  exact hfields (k, x) (by simp)

theorem valid_getElem {ps : List (String × Schema)} {required : List String}
    {dependent : List (String × List String)} {v : Value}
    (h : valid F (.object ps required dependent) v = true) {k : String}
    (hk : k ∈ required) {s : Schema} (hs : ps.lookup k = some s) :
    valid F s v[k] = true := by
  have hfield := validField_getElem h hk
  rwa [validField_eq_lookup, hs] at hfield

theorem valid_string {lo : ℕ} {hi : Option ℕ} {format : Option Format}
    {pattern : Option Pattern} {v : Value}
    (h : valid F (.string lo hi format pattern) v = true) :
    ∃ s, v = .str s ∧ stringValid F lo hi format pattern s = true := by
  cases v with
  | str s => exact ⟨s, rfl, by simpa [valid] using h⟩
  | _ => simp [valid] at h

theorem valid_integer {lo hi : ℕ} {v : Value}
    (h : valid F (.integer lo hi) v = true) :
    ∃ n, v = .num (.posInt n) ∧ lo ≤ n ∧ n ≤ hi := by
  cases v with
  | num m =>
      cases m with
      | posInt n => exact ⟨n, rfl, by simpa [valid] using h⟩
      | _ => simp [valid] at h
  | _ => simp [valid] at h

theorem valid_array {items : Schema} {lo : ℕ} {hi : Option ℕ} {unique : Bool}
    {v : Value} (h : valid F (.array items lo hi unique) v = true) :
    ∃ xs, v = .arr xs ∧ ∀ x ∈ xs, valid F items x = true := by
  cases v with
  | arr xs =>
      simp only [valid, Bool.and_eq_true, List.all_eq_true] at h
      exact ⟨xs, rfl, h.2⟩
  | _ => simp [valid] at h

end Validity

/-! ## Depth of valid values -/

mutual
/-- A bound on the depth of every valid value, where the schema gives one. -/
def depthBound : Schema → Option ℕ
  | .any => none
  | .null => some 0
  | .const w => some w.depth
  | .enum ws => some (Value.depthItems ws)
  | .string _ _ _ _ => some 0
  | .integer _ _ => some 0
  | .array items _ _ _ => (depthBound items).map (· + 1)
  | .object ps _ _ => (depthBoundFields ps).map (· + 1)
  | .properties _ => none
  | .allOf ss => depthBoundSome ss
  | .anyOf ss => depthBoundAll ss
  | .oneOf ss => depthBoundAll ss

def depthBoundFields : List (String × Schema) → Option ℕ
  | [] => some 0
  | (_, s) :: ps =>
      match depthBound s, depthBoundFields ps with
      | some m, some n => some (max m n)
      | _, _ => none

/-- The first bound that one of the schemas gives. -/
def depthBoundSome : List Schema → Option ℕ
  | [] => none
  | s :: ss => (depthBound s).or (depthBoundSome ss)

/-- The bound that all of the schemas give together. -/
def depthBoundAll : List Schema → Option ℕ
  | [] => some 0
  | s :: ss =>
      match depthBound s, depthBoundAll ss with
      | some m, some n => some (max m n)
      | _, _ => none
end

variable {F : Format → String → Bool}

mutual
theorem depth_le_of_valid :
    ∀ (s : Schema) {v : Value} {n : ℕ}, s.depthBound = some n →
      valid F s v = true → v.depth ≤ n
  | .any, _, _, hn, _ => by simp [depthBound] at hn
  | .null, v, n, _, hv => by
      rw [valid, Value.isNull_iff] at hv
      simp [hv, Value.depth]
  | .const w, v, n, hn, hv => by
      simp only [depthBound, Option.some.injEq] at hn
      simp only [valid, decide_eq_true_eq] at hv
      rw [hv, hn]
  | .enum ws, v, n, hn, hv => by
      simp only [depthBound, Option.some.injEq] at hn
      simp only [valid, decide_eq_true_eq] at hv
      exact Value.depthItems_le_iff.mp (le_of_eq hn) v hv
  | .string _ _ _ _, v, n, _, hv => by
      obtain ⟨s, rfl, _⟩ := valid_string hv
      simp [Value.depth]
  | .integer _ _, v, n, _, hv => by
      obtain ⟨m, rfl, _⟩ := valid_integer hv
      simp [Value.depth]
  | .array items _ _ _, v, n, hn, hv => by
      obtain ⟨xs, rfl, hxs⟩ := valid_array hv
      obtain ⟨m, hm, rfl⟩ := Option.map_eq_some_iff.mp hn
      exact Value.depth_arr_le_iff.mpr fun x hx =>
        depth_le_of_valid items hm (hxs x hx)
  | .object ps _ _, v, n, hn, hv => by
      obtain ⟨fs, rfl, _, hfs⟩ := exists_fields_of_valid hv
      obtain ⟨m, hm, rfl⟩ := Option.map_eq_some_iff.mp hn
      exact Value.depth_obj_le_iff.mpr fun f hf =>
        depth_le_of_validField ps hm (hfs f hf)
  | .properties _, _, _, hn, _ => by simp [depthBound] at hn
  | .allOf ss, v, n, hn, hv => by
      rw [valid, validAll_eq_true_iff] at hv
      exact depth_le_of_validSome ss hn hv
  | .anyOf ss, v, n, hn, hv => by
      rw [valid, decide_eq_true_eq, validCount_pos_iff] at hv
      exact depth_le_of_validAny ss hn hv
  | .oneOf ss, v, n, hn, hv => by
      rw [valid, decide_eq_true_eq] at hv
      exact depth_le_of_validAny ss hn
        (validCount_pos_iff.mp (by omega))

theorem depth_le_of_validField :
    ∀ (ps : List (String × Schema)) {k : String} {x : Value} {n : ℕ},
      depthBoundFields ps = some n → validField F ps k x = true → x.depth ≤ n
  | [], _, _, _, _, hx => by simp [validField] at hx
  | (l, s) :: ps, k, x, n, hn, hx => by
      rw [depthBoundFields] at hn
      split at hn
      next m m' hm hm' =>
        cases hn
        rw [validField] at hx
        split_ifs at hx
        · exact Nat.le_trans (depth_le_of_valid s hm hx) (Nat.le_max_left m m')
        · exact Nat.le_trans (depth_le_of_validField ps hm' hx)
            (Nat.le_max_right m m')
      · cases hn

theorem depth_le_of_validSome :
    ∀ (ss : List Schema) {v : Value} {n : ℕ}, depthBoundSome ss = some n →
      (∀ s ∈ ss, valid F s v = true) → v.depth ≤ n
  | [], _, _, hn, _ => by simp [depthBoundSome] at hn
  | s :: ss, v, n, hn, hv => by
      rw [depthBoundSome, Option.or_eq_some_iff] at hn
      rcases hn with hn | ⟨_, hn⟩
      · exact depth_le_of_valid s hn (hv s (by simp))
      · exact depth_le_of_validSome ss hn fun t ht => hv t (by simp [ht])

theorem depth_le_of_validAny :
    ∀ (ss : List Schema) {v : Value} {n : ℕ}, depthBoundAll ss = some n →
      (∃ s ∈ ss, valid F s v = true) → v.depth ≤ n
  | [], _, _, _, hv => by simp at hv
  | s :: ss, v, n, hn, hv => by
      rw [depthBoundAll] at hn
      split at hn
      next m m' hm hm' =>
        cases hn
        obtain ⟨t, ht, hvalid⟩ := hv
        rcases List.mem_cons.mp ht with heq | ht
        · rw [heq] at hvalid
          exact Nat.le_trans (depth_le_of_valid s hm hvalid)
            (Nat.le_max_left m m')
        · exact Nat.le_trans (depth_le_of_validAny ss hm' ⟨t, ht, hvalid⟩)
            (Nat.le_max_right m m')
      · cases hn
end

end Schema

end Json
