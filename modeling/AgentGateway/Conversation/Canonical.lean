import AgentGateway.Conversation.Profile
import AgentGateway.Conversation.Validation
import AgentGateway.Library.Json.Size

/-!
# Canonical encoding

`canonical_bytes` against the strict decoder: which values have a canonical
text, when two values share one, and that decoding a canonical text gives the
value back.
-/

namespace AgentGateway

open Json (Value Number)
open Json.Value (SortedKeys insertField)
open Utf8 (Bytes)

/-- Every number is a nonnegative safe integer. -/
def SafeNumberNode : Value → Prop
  | .num n => ∃ m ≤ maxSafeInteger, n = .posInt m
  | _ => True

/-! ## Which values have a canonical text -/

theorem sortedItems_isSome {xs : List Value} :
    (sortedItems xs).isSome = true ↔ ∀ x ∈ xs, (sorted x).isSome = true := by
  induction xs with
  | nil => simp [sortedItems]
  | cons x xs ih =>
      rw [List.forall_mem_cons, ← ih, sortedItems]
      cases sorted x <;> cases sortedItems xs <;> simp

theorem sortedFields_isSome {fs : List (String × Value)} :
    (sortedFields fs).isSome = true ↔
      ∀ f ∈ fs, (sorted f.2).isSome = true := by
  induction fs with
  | nil => simp [sortedFields]
  | cons f fs ih =>
      obtain ⟨k, x⟩ := f
      rw [List.forall_mem_cons, ← ih, sortedFields]
      cases sorted x <;> cases sortedFields fs <;> simp

theorem sorted_isSome {v : Value} :
    (sorted v).isSome = true ↔ v.Every SafeNumberNode := by
  constructor
  · intro h
    induction v using Value.induct with
    | null => exact .null trivial
    | bool b => exact .bool trivial
    | str s => exact .str trivial
    | num n =>
        cases n with
        | posInt n =>
            by_cases hn : n > maxSafeInteger
            · simp [sorted, hn] at h
            · exact .num ⟨n, Nat.le_of_not_lt hn, rfl⟩
        | _ => simp [sorted] at h
    | arr xs ih =>
        rw [sorted, Option.isSome_map, sortedItems_isSome] at h
        exact .arr trivial fun x hx => ih x hx (h x hx)
    | obj fs ih =>
        rw [sorted, Option.isSome_map, sortedFields_isSome] at h
        exact .obj trivial fun f hf => ih f hf (h f hf)
  · intro h
    induction h with
    | @num n hn =>
        obtain ⟨m, hm, rfl⟩ := hn
        rw [sorted, if_neg (by omega)]
        rfl
    | arr _ _ ih =>
        rw [sorted, Option.isSome_map, sortedItems_isSome]
        exact ih
    | obj _ _ ih =>
        rw [sorted, Option.isSome_map, sortedFields_isSome]
        exact ih
    | _ => simp [sorted]

theorem canonicalBytes_isSome {v : Value} :
    (canonicalBytes v).isSome = true ↔ v.Every SafeNumberNode := by
  rw [canonicalBytes, Option.isSome_map, sorted_isSome]

/-! ## Sorting and strict decoding -/

theorem strictFields_eq {fs m : List (String × Value)}
    (hstrict : ∀ f ∈ fs, sorted f.2 = strict f.2)
    (hnodup : (fs.map Prod.fst).Nodup)
    (hm : ∀ f ∈ fs, m.lookup f.1 = none) :
    strictFields m fs = (sortedFields fs).map fun gs =>
      gs.foldl (fun m f => insertField f.1 f.2 m) m := by
  induction fs generalizing m with
  | nil => rfl
  | cons f fs ih =>
      obtain ⟨k, x⟩ := f
      obtain ⟨hk, hrest⟩ := List.nodup_cons.mp hnodup
      have hfresh : m.lookup k = none := hm (k, x) (by simp)
      have hx : sorted x = strict x := hstrict (k, x) (by simp)
      rw [strictFields, sortedFields, hfresh, hx]
      cases hy : strict x with
      | none => simp
      | some y =>
          have hmore := ih (m := insertField k y m)
            (fun f hf => hstrict f (by simp [hf])) hrest fun f hf => by
              have hne : f.1 ≠ k := by
                intro heq
                apply hk
                simpa only [heq] using List.mem_map_of_mem (f := Prod.fst) hf
              rw [Value.lookup_insertField, if_neg hne]
              exact hm f (by simp [hf])
          simp only [Option.isSome_none, Bool.false_eq_true, if_false, hmore]
          cases sortedFields fs <;> rfl

theorem strictItems_eq {xs : List Value}
    (h : ∀ x ∈ xs, sorted x = strict x) : sortedItems xs = strictItems xs := by
  induction xs with
  | nil => rfl
  | cons x xs ih =>
      have hx := h x (by simp)
      have hxs := ih fun y hy => h y (by simp [hy])
      cases hstrict : strict x with
      | none => simp [sortedItems, strictItems, hx, hstrict]
      | some y =>
          cases hitems : strictItems xs with
          | none => simp [sortedItems, strictItems, hx, hxs, hstrict, hitems]
          | some ys =>
              simp [sortedItems, strictItems, hx, hxs, hstrict, hitems]

/-- On trees of the profile the two ways to order fields agree. -/
theorem sorted_eq_strict {t : Value} (h : t.Every ProfileNode) :
    sorted t = strict t := by
  induction h with
  | @num n hn =>
      obtain ⟨m, hm, rfl⟩ := hn
      rw [sorted, strict]
  | arr _ _ ih => rw [sorted, strict, strictItems_eq ih]
  | @obj fs hnodup _ ih =>
      rw [sorted, strict, strictFields_eq ih hnodup (by simp),
        Option.map_map]
      rfl
  | _ => rfl

theorem canonicalBytes_eq {t : Value} (h : t.Every ProfileNode) :
    canonicalBytes t = (strict t).map toVec := by
  rw [canonicalBytes, sorted_eq_strict h]

/-! ## One text, one value -/

theorem toVec_injective {v w : Value} (hv : Safe v) (hw : Safe w)
    (h : toVec v = toVec w) : v = w := by
  have hprint : Json.print v = Json.print w := Utf8.encode_injective h
  have hreadv := Json.read_print hv.integers
    (Nat.le_max_left v.depth w.depth)
  have hreadw := Json.read_print hw.integers
    (Nat.le_max_right v.depth w.depth)
  rw [hprint, hreadw] at hreadv
  exact (Option.some.inj hreadv).symm

/-! ## Lengths -/

theorem utf8Size_hexDigit : ∀ n < 16, (Json.hexDigit n).utf8Size = 1 := by
  decide

theorem length_escapeChar_le (ch : Char) :
    (Utf8.encode (Json.escapeChar ch)).length ≤ 6 := by
  unfold Json.escapeChar
  split_ifs with _ _ _ _ _ _ _ hcontrol
  · decide
  · decide
  · decide
  · decide
  · decide
  · decide
  · decide
  · have hhigh := utf8Size_hexDigit (ch.toNat / 16) (by omega)
    have hlow := utf8Size_hexDigit (ch.toNat % 16) (by omega)
    simp only [Utf8.length_encode, List.map_cons, List.map_nil, List.sum_cons,
      List.sum_nil, hhigh, hlow]
    decide
  · have hsize := Char.utf8Size_le_four ch
    simp only [Utf8.length_encode, List.map_cons, List.map_nil, List.sum_cons,
      List.sum_nil]
    omega

theorem escapeChar_plain {ch : Char} (hquote : ch ≠ '"') (hback : ch ≠ '\\')
    (hprint : 32 ≤ ch.toNat) : Json.escapeChar ch = [ch] := by
  have hne : ∀ d : Char, d.toNat < 32 → ch ≠ d := by
    rintro d hd rfl
    omega
  simp [Json.escapeChar, hquote, hback, hne '\x08' (by decide),
    hne '\x0c' (by decide), hne '\n' (by decide), hne '\r' (by decide),
    hne '\t' (by decide), Nat.not_lt.mpr hprint]

/-- No way to write a character in a string literal is shorter than the
printer's. -/
theorem length_escapeChar_le_text {ch : Char} {ds : List Char}
    (h : Json.CharText ch ds) :
    (Utf8.encode (Json.escapeChar ch)).length ≤ (Utf8.encode ds).length := by
  cases h with
  | plain hquote hback hprint =>
      rw [escapeChar_plain hquote hback hprint]
  | @escape e c he =>
      have hshort : (Utf8.encode (Json.escapeChar ch)).length ≤ 2 := by
        unfold Json.unescape? at he
        split_ifs at he <;> cases he <;> decide
      exact hshort.trans (Utf8.length_le_length_encode ['\\', e])
  | @unit a b c d n _ _ =>
      have hlong := Utf8.length_le_length_encode ['\\', 'u', a, b, c, d]
      exact (length_escapeChar_le _).trans hlong
  | @pair a b c d e f g h n m _ _ _ _ =>
      have hlong := Utf8.length_le_length_encode
        ['\\', 'u', a, b, c, d, '\\', 'u', e, f, g, h]
      simp only [List.length_cons, List.length_nil] at hlong
      exact (length_escapeChar_le _).trans (by omega)

theorem length_chars_le {cs ds : List Char} (h : Json.CharsText cs ds) :
    (Utf8.encode (cs.flatMap Json.escapeChar)).length ≤
      (Utf8.encode ds).length := by
  induction h with
  | nil => exact Nat.le_refl _
  | cons hc _ ih =>
      rw [List.flatMap_cons, Utf8.encode_append, Utf8.encode_append,
        List.length_append, List.length_append]
      exact Nat.add_le_add (length_escapeChar_le_text hc) ih

theorem length_printString_le {k : String} {ks : List Char}
    (h : Json.StringText k ks) :
    (Utf8.encode (Json.printString k)).length ≤ (Utf8.encode ks).length := by
  cases h with
  | mk hchars =>
      have hle := length_chars_le hchars
      rw [Json.printString, String.toList_ofList]
      simp only [Json.length_encode_cons (c := '"') rfl, Utf8.encode_append,
        List.length_append]
      omega

mutual
/-- A decoded value prints to a text that is not longer than the one it was
read from. -/
theorem size_le_of_text {t v : Value} {cs : List Char}
    (ht : Json.ValueText t cs) (hv : strict t = some v) :
    Json.size v ≤ (Utf8.encode cs).length := by
  cases ht with
  | null =>
      cases hv
      exact Nat.le_refl _
  | isTrue =>
      cases hv
      exact Nat.le_refl _
  | isFalse =>
      cases hv
      exact Nat.le_refl _
  | @num n _ hn =>
      obtain ⟨m, hm, rfl⟩ := (denotes_of_strict hv).1.self
      have hmax : maxSafeInteger < 2 ^ 64 := by decide
      obtain rfl := (Json.numberText_posInt (by omega)).mp hn
      rw [strict, if_neg (by omega)] at hv
      cases hv
      exact Nat.le_refl _
  | str hs =>
      cases hv
      exact length_printString_le hs
  | emptyArr _ =>
      cases hv
      rw [Json.length_encode_cons rfl, Utf8.encode_append, List.length_append]
      have hclose : (Utf8.encode [']']).length = 1 := rfl
      have hempty : Json.size (.arr []) = 2 := rfl
      omega
  | @arr xs cs hxs =>
      obtain ⟨ys, hys, rfl⟩ := Option.map_eq_some_iff.mp hv
      have hle := itemsSize_le_of_text hxs hys
      have hclose : (Utf8.encode [']']).length = 1 := rfl
      rw [Json.length_encode_cons rfl, Utf8.encode_append, List.length_append]
      cases ys with
      | nil =>
          have hempty : Json.size (.arr []) = 2 := rfl
          omega
      | cons y ys =>
          rw [Json.printItems, Json.length_encode_cons rfl] at hle
          rw [Json.size, Json.print, Json.length_encode_cons rfl]
          omega
  | emptyObj _ =>
      cases hv
      rw [Json.length_encode_cons rfl, Utf8.encode_append, List.length_append]
      have hclose : (Utf8.encode ['}']).length = 1 := rfl
      have hempty : Json.size (.obj []) = 2 := rfl
      omega
  | obj hfs =>
      obtain ⟨gs, hgs, rfl⟩ := Option.map_eq_some_iff.mp hv
      have hle := fieldsSize_le_of_text hfs hgs
      have hempty : Json.fieldsSize [] = 0 := rfl
      have hclose : (Utf8.encode ['}']).length = 1 := rfl
      rw [Json.length_encode_cons rfl, Utf8.encode_append, List.length_append]
      cases gs with
      | nil =>
          have hempty : Json.size (.obj []) = 2 := rfl
          omega
      | cons g gs =>
          rw [Json.size_obj_cons]
          omega

theorem itemsSize_le_of_text {xs ys : List Value} {cs : List Char}
    (ht : Json.ItemsText xs cs) (hys : strictItems xs = some ys) :
    (Utf8.encode (Json.printItems ys)).length ≤
      (Utf8.encode cs).length + 2 := by
  cases ht with
  | @last x l cs r _ hx _ =>
      rw [strictItems] at hys
      split at hys
      next y ys' hy hnil =>
        cases hys
        cases hnil
        have hle := size_le_of_text hx hy
        rw [Json.size] at hle
        rw [Json.printItems, Json.printItems, Json.length_encode_cons rfl]
        simp only [Utf8.encode_append, List.length_append]
        have hclose : (Utf8.encode [']']).length = 1 := rfl
        omega
      · cases hys
  | @cons x xs l cs r ds _ hx _ hxs =>
      rw [strictItems] at hys
      split at hys
      next y ys' hy hys' =>
        cases hys
        have hle := size_le_of_text hx hy
        have hmore := itemsSize_le_of_text hxs hys'
        rw [Json.size] at hle
        rw [Json.printItems, Json.length_encode_cons rfl]
        simp only [Utf8.encode_append, List.length_append,
          Json.length_encode_cons (c := ',') rfl]
        omega
      · cases hys

theorem fieldsSize_le_of_text {fs m gs : List (String × Value)}
    {cs : List Char} (ht : Json.FieldsText fs cs)
    (hgs : strictFields m fs = some gs) :
    Json.fieldsSize gs ≤ (Utf8.encode cs).length + 1 + Json.fieldsSize m := by
  cases ht with
  | @last k x a ks b l cs r _ hk _ _ hx _ =>
      rw [strictFields] at hgs
      split_ifs at hgs
      split at hgs
      · cases hgs
      next y hy =>
        cases hgs
        have hle := size_le_of_text hx hy
        have hkey := length_printString_le hk
        have hinsert := Json.fieldsSize_insertField_le k y m
        simp only [Json.fieldSize] at hinsert
        simp only [Utf8.encode_append, List.length_append,
          Json.length_encode_cons (c := ':') rfl]
        omega
  | @cons k x fs a ks b l cs r ds _ hk _ _ hx _ hfs =>
      rw [strictFields] at hgs
      split_ifs at hgs
      split at hgs
      · cases hgs
      next y hy =>
        have hle := size_le_of_text hx hy
        have hmore := fieldsSize_le_of_text hfs hgs
        have hkey := length_printString_le hk
        have hinsert := Json.fieldsSize_insertField_le k y m
        simp only [Json.fieldSize] at hinsert
        simp only [Utf8.encode_append, List.length_append,
          Json.length_encode_cons (c := ':') rfl,
          Json.length_encode_cons (c := ',') rfl]
        omega
end

/-- Canonical texts exist for the values with safe numbers, they tell values
apart up to the order of keys, and decoding one gives the decoded value back
from a text that is not longer than the first. -/
theorem canonical_encoding_round_trip :
    (∀ v, (canonicalBytes v).isSome = true ↔ v.Every SafeNumberNode) ∧
    (∀ v w, v.Every ProfileNode → w.Every ProfileNode →
      (canonicalBytes v = canonicalBytes w ↔
        ∃ u, Denotes v u ∧ Denotes w u)) ∧
    (∀ v w, Safe v → Safe w → canonicalBytes v = canonicalBytes w → v = w) ∧
    ∀ bytes v, parseJson bytes = some v → ∃ text,
      canonicalBytes v = some text ∧ text.length ≤ bytes.length ∧
        parseJson text = some v := by
  refine ⟨?_, ?_, ?_, ?_⟩
  · exact fun v => canonicalBytes_isSome
  · intro v w hv hw
    obtain ⟨v', hv'⟩ := exists_strict hv
    obtain ⟨w', hw'⟩ := exists_strict hw
    rw [canonicalBytes_eq hv, canonicalBytes_eq hw, hv', hw']
    constructor
    · intro h
      have heq : v' = w' := toVec_injective (safe_of_strict hv')
        (safe_of_strict hw') (Option.some.inj h)
      subst heq
      exact ⟨v', (denotes_of_strict hv').2, (denotes_of_strict hw').2⟩
    · rintro ⟨u, hvu, hwu⟩
      rw [denotes_unique (denotes_of_strict hv').2 hvu,
        denotes_unique (denotes_of_strict hw').2 hwu]
  · intro v w hv hw h
    rw [canonicalBytes_of_safe hv, canonicalBytes_of_safe hw] at h
    exact toVec_injective hv hw (Option.some.inj h)
  · intro bytes v h
    obtain ⟨hsafe, hdepth⟩ := parseJson_eq_some h
    have hlength : (toVec v).length ≤ bytes.length := by
      rw [parseJson] at h
      split_ifs at h
      obtain ⟨t, ht, hstrict⟩ := Option.bind_eq_some_iff.mp h
      obtain ⟨cs, rfl, htext, _⟩ := syntaxTree_eq_some_iff.mp ht
      cases htext with
      | mk _ hvalue _ =>
          have hle := size_le_of_text hvalue hstrict
          rw [Json.size] at hle
          rw [toVec, Utf8.encode_append, Utf8.encode_append, List.length_append,
            List.length_append]
          omega
    have hmax : bytes.length ≤ maxJsonBytes := by
      rw [parseJson] at h
      split_ifs at h
      omega
    exact ⟨toVec v, canonicalBytes_of_safe hsafe, hlength,
      parseJson_toVec hsafe hdepth (hlength.trans hmax)⟩

end AgentGateway
