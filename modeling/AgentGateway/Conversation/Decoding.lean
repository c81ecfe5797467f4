import AgentGateway.Library.Json.RoundTrip
import AgentGateway.Library.Utf8

/-!
# Strict decoding

`parse_json` and `parse_rpc_json`: JSON with unique keys whose only numbers are
the nonnegative safe integers.  `none` stands for `ValidationError` in this
module and the ones above it.
-/

namespace AgentGateway

open Json (Value Number)
open Json.Value (insertField)
open Utf8 (Bytes)

abbrev Checked (α : Type) := Option α

theorem guard_eq_some {P : Prop} [Decidable P] {u : Unit} :
    (guard P : Checked Unit) = some u ↔ P := by
  by_cases hP : P <;> simp [guard, hP, failure]

def maxSafeInteger : ℕ := 9007199254740991

/-- The limit of `parse_json`, of worker responses and of state files. -/
def maxJsonBytes : ℕ := 4 * 1048576

/-- How deep `serde_json` lets arrays and objects nest. -/
def maxJsonDepth : ℕ := 127

/-! ## The strict decoder -/

mutual
/-- What `Strict` makes of a syntax tree. -/
def strict : Value → Checked Value
  | .null => some .null
  | .bool b => some (.bool b)
  | .str s => some (.str s)
  | .num (.posInt n) =>
      if n > maxSafeInteger then none else some (.num (.posInt n))
  | .num (.negInt _) => none
  | .num (.float _) => none
  | .arr xs => (strictItems xs).map .arr
  | .obj fs => (strictFields [] fs).map .obj

def strictItems : List Value → Checked (List Value)
  | [] => some []
  | x :: xs =>
      match strict x, strictItems xs with
      | some y, some ys => some (y :: ys)
      | _, _ => none

/-- Decode the fields of an object into the map read so far. -/
def strictFields (m : List (String × Value)) :
    List (String × Value) → Checked (List (String × Value))
  | [] => some m
  | (k, x) :: fs =>
      if (m.lookup k).isSome then none
      else
        match strict x with
        | none => none
        | some y => strictFields (insertField k y m) fs
end

/-- `serde_json::from_slice` as far as the syntax tree. -/
def syntaxTree (bytes : Bytes) : Checked Value :=
  (Utf8.decode bytes).bind (Json.read maxJsonDepth)

def parseJson (bytes : Bytes) : Checked Value :=
  if bytes.length > maxJsonBytes then none
  else (syntaxTree bytes).bind strict

/-! ## JSON-RPC envelopes -/

structure RpcError where
  code : ℤ
  message : String
  data : Option Value

structure Envelope where
  jsonrpc : String
  id : String
  result : Option Value
  error : Option RpcError

/-- The fields of a derived structure whose unknown and repeated keys are
refused; an array gives the fields in the order of their declaration. -/
def structFields (names : List String) (required : ℕ) :
    Value → Checked (List (String × Value))
  | .obj fs =>
      if (fs.map Prod.fst).Nodup ∧ ∀ f ∈ fs, f.1 ∈ names then some fs else none
  | .arr xs =>
      if required ≤ xs.length ∧ xs.length ≤ names.length then
        some (names.zip xs)
      else none
  | _ => none

def asI64? : Value → Option ℤ
  | .num (.posInt n) => if n < 2 ^ 63 then some n else none
  | .num (.negInt n) => some (-n)
  | _ => none

/-- An optional field: `null` reads as `None`. -/
def optionalField (fs : List (String × Value)) (k : String) :
    Checked (Option Value) :=
  match fs.lookup k with
  | none => some none
  | some .null => some none
  | some x => (strict x).map some

/-- A defaulted field read through `present_result`: `null` is present. -/
def presentField (fs : List (String × Value)) (k : String) :
    Checked (Option Value) :=
  match fs.lookup k with
  | none => some none
  | some x => (strict x).map some

def rpcError (v : Value) : Checked RpcError := do
  let fs ← structFields ["code", "message", "data"] 3 v
  let code ← (fs.lookup "code").bind asI64?
  let message ← (fs.lookup "message").bind Value.asStr?
  let data ← optionalField fs "data"
  return ⟨code, message, data⟩

def envelope (v : Value) : Checked Envelope := do
  let fs ← structFields ["jsonrpc", "id", "result", "error"] 2 v
  let jsonrpc ← (fs.lookup "jsonrpc").bind Value.asStr?
  let id ← (fs.lookup "id").bind Value.asStr?
  let result ← presentField fs "result"
  let error ← match fs.lookup "error" with
    | none => some none
    | some x => (rpcError x).map some
  return ⟨jsonrpc, id, result, error⟩

/-- The value a response is handed on as. -/
def Envelope.value (e : Envelope) : Checked Value :=
  let value := Value.object [("jsonrpc", .str e.jsonrpc), ("id", .str e.id)]
  match e.result, e.error with
  | some result, none => some (value.set "result" result)
  | none, some error =>
      if -9007199254740991 ≤ error.code ∧ error.code < 0 ∧
          error.message.utf8ByteSize ≤ 256 then
        let v := Value.object
          [("code", .num (.negInt error.code.natAbs)),
            ("message", .str error.message)]
        some (value.set "error" (match error.data with
          | some data => v.set "data" data
          | none => v))
      else none
  | _, _ => none

/-- Error codes of JSON-RPC are signed; everything nested stays strict. -/
def parseRpcJson (bytes : Bytes) : Checked Value :=
  if bytes.length > maxJsonBytes then none
  else ((syntaxTree bytes).bind envelope).bind Envelope.value

/-! ## Decoded values -/

/-- What holds at every node of a decoded value. -/
def SafeNode : Value → Prop
  | .num (.posInt n) => n ≤ maxSafeInteger
  | .num _ => False
  | .obj fs => Value.SortedKeys fs
  | _ => True

/-- The values that strict decoding can produce. -/
abbrev Safe (v : Value) : Prop := v.Every SafeNode

theorem forall_of_strictItems {P : Value → Prop} {xs ys : List Value}
    (ih : ∀ x ∈ xs, ∀ y, strict x = some y → P y)
    (h : strictItems xs = some ys) : ∀ y ∈ ys, P y := by
  induction xs generalizing ys with
  | nil =>
      cases h
      simp
  | cons x xs ihs =>
      rw [strictItems] at h
      split at h
      next y ys' hy hys =>
        cases h
        rintro z (_ | ⟨_, hz⟩)
        · exact ih x (by simp) y hy
        · exact ihs (fun w hw => ih w (by simp [hw])) hys z hz
      · cases h

theorem forall_of_strictFields {P : Value → Prop}
    {fs m ys : List (String × Value)}
    (ih : ∀ f ∈ fs, ∀ y, strict f.2 = some y → P y)
    (hm : ∀ f ∈ m, P f.2) (h : strictFields m fs = some ys) :
    ∀ f ∈ ys, P f.2 := by
  induction fs generalizing m with
  | nil =>
      cases h
      exact hm
  | cons f fs ihs =>
      obtain ⟨k, x⟩ := f
      rw [strictFields] at h
      split_ifs at h
      split at h
      · cases h
      · next y hy =>
        refine ihs (fun g hg => ih g (by simp [hg])) ?_ h
        intro g hg
        rcases Value.mem_insertField hg with rfl | hg
        · exact ih (k, x) (by simp) y hy
        · exact hm g hg

theorem sorted_of_strictFields {fs m ys : List (String × Value)}
    (hsorted : Value.SortedKeys m) (h : strictFields m fs = some ys) :
    Value.SortedKeys ys := by
  induction fs generalizing m with
  | nil =>
      cases h
      exact hsorted
  | cons f fs ihs =>
      obtain ⟨k, x⟩ := f
      rw [strictFields] at h
      split_ifs at h
      split at h
      · cases h
      · next y hy => exact ihs (hsorted.insertField k y) h

/-- Strict decoding yields safe values. -/
theorem safe_of_strict {v w : Value} (h : strict v = some w) : Safe w := by
  induction v using Value.induct generalizing w with
  | null =>
      cases h
      exact .null trivial
  | bool b =>
      cases h
      exact .bool trivial
  | str s =>
      cases h
      exact .str trivial
  | num n =>
      cases n with
      | posInt n =>
          simp only [strict] at h
          split_ifs at h with hn
          cases h
          exact .num (Nat.le_of_not_lt hn)
      | _ => cases h
  | arr xs ih =>
      obtain ⟨ys, hys, rfl⟩ := Option.map_eq_some_iff.mp h
      exact .arr trivial
        (forall_of_strictItems (fun x hx y hy => ih x hx hy) hys)
  | obj fs ih =>
      obtain ⟨ys, hys, rfl⟩ := Option.map_eq_some_iff.mp h
      have hfields := forall_of_strictFields (fun f hf y hy => ih f hf hy)
        (by simp) hys
      exact .obj (sorted_of_strictFields Value.SortedKeys.nil hys) hfields

theorem strictItems_of_forall {xs : List Value}
    (h : ∀ x ∈ xs, strict x = some x) : strictItems xs = some xs := by
  induction xs with
  | nil => rfl
  | cons x xs ih =>
      rw [strictItems, h x (by simp), ih fun y hy => h y (by simp [hy])]

theorem strictFields_of_forall {fs m : List (String × Value)}
    (h : ∀ f ∈ fs, strict f.2 = some f.2)
    (hsorted : Value.SortedKeys (m ++ fs)) :
    strictFields m fs = some (m ++ fs) := by
  induction fs generalizing m with
  | nil => simp [strictFields]
  | cons f fs ih =>
      obtain ⟨k, x⟩ := f
      have hlt : ∀ g ∈ m, Value.KeyLt g.1 k := by
        intro g hg
        simp only [Value.SortedKeys, List.map_append, List.map_cons,
          List.pairwise_append] at hsorted
        exact hsorted.2.2 g.1 (List.mem_map_of_mem hg) k (by simp)
      have hfresh : m.lookup k = none := by
        rw [List.lookup_eq_none_iff]
        intro g hg
        simpa using (hlt g hg).ne.symm
      rw [strictFields, hfresh, h (k, x) (by simp)]
      simp only [Option.isSome_none, Bool.false_eq_true, if_false]
      rw [Value.insertField_of_forall_lt x hlt,
        ih (fun g hg => h g (by simp [hg])) (by simpa using hsorted)]
      simp

/-- Strict decoding leaves a safe value as it is. -/
theorem strict_of_safe {v : Value} (h : Safe v) : strict v = some v := by
  induction v using Value.induct with
  | null => rfl
  | bool b => rfl
  | str s => rfl
  | num n =>
      cases n with
      | posInt n =>
          have hn : n ≤ maxSafeInteger := h.self
          rw [strict, if_neg (by omega)]
      | _ => exact absurd h.self id
  | arr xs ih =>
      rw [strict, strictItems_of_forall fun x hx => ih x hx (h.items x hx)]
      rfl
  | obj fs ih =>
      have hsorted : Value.SortedKeys fs := h.self
      rw [strict, strictFields_of_forall
        (fun f hf => ih f hf (h.fields f hf)) (by simpa using hsorted)]
      rfl

theorem Safe.integers {v : Value} (h : Safe v) :
    v.Every Json.IntegerNode := by
  induction h with
  | null => exact .null trivial
  | bool => exact .bool trivial
  | @num n hn =>
      refine .num ?_
      cases n with
      | posInt n =>
          have hle : n ≤ maxSafeInteger := hn
          have hmax : maxSafeInteger < 2 ^ 64 := by decide
          exact Nat.lt_of_le_of_lt hle hmax
      | _ => exact absurd hn id
  | str => exact .str trivial
  | arr _ _ ih => exact .arr trivial ih
  | obj _ _ ih => exact .obj trivial ih

theorem safe_object {gs : List (String × Value)}
    (h : ∀ f ∈ gs, Safe f.2) : Safe (Value.object gs) := by
  obtain ⟨fs, hfs, hsorted, hmem, _⟩ := Value.exists_object gs
  rw [hfs]
  exact .obj hsorted fun f hf => h f (hmem f hf)

theorem Safe.remove {v : Value} (h : Safe v) (k : String) :
    Safe (v.remove k) := by
  cases v with
  | obj fs =>
      have hsorted : Value.SortedKeys fs := h.self
      exact .obj (hsorted.eraseField k) fun f hf =>
        h.fields f (List.mem_filter.mp hf).1
  | _ => exact h

theorem Safe.set {v x : Value} (h : Safe v) (k : String) (hx : Safe x) :
    Safe (v.set k x) := by
  cases v with
  | obj fs =>
      have hsorted : Value.SortedKeys fs := h.self
      refine .obj (hsorted.insertField k x) fun f hf => ?_
      rcases Value.mem_insertField hf with rfl | hf
      · exact hx
      · exact h.fields f hf
  | _ => exact h

/-! ## Texts of safe values -/

/-- `serde_json::to_vec` -/
def toVec (v : Value) : Bytes := Utf8.encode (Json.print v)

theorem syntaxTree_toVec {v : Value} (h : v.Every Json.IntegerNode)
    (hdepth : v.depth ≤ maxJsonDepth) :
    syntaxTree (toVec v) = some v := by
  rw [syntaxTree, toVec, Utf8.decode_encode, Option.bind_some,
    Json.read_print h hdepth]

/-- A safe value is read back from its text, if that is not too long. -/
theorem parseJson_toVec {v : Value} (h : Safe v)
    (hdepth : v.depth ≤ maxJsonDepth)
    (hsize : (toVec v).length ≤ maxJsonBytes) :
    parseJson (toVec v) = some v := by
  rw [parseJson, if_neg (by omega), syntaxTree_toVec h.integers hdepth,
    Option.bind_some, strict_of_safe h]

/-- Strict decoding does not make a value deeper. -/
theorem depth_of_strict {v w : Value} (h : strict v = some w) :
    w.depth ≤ v.depth := by
  induction v using Value.induct generalizing w with
  | num n =>
      cases n with
      | posInt n =>
          simp only [strict] at h
          split_ifs at h
          cases h
          exact Nat.le_refl _
      | _ => cases h
  | arr xs ih =>
      obtain ⟨ys, hys, rfl⟩ := Option.map_eq_some_iff.mp h
      have hitems : ∀ x ∈ xs, x.depth ≤ Value.depthItems xs :=
        Value.depthItems_le_iff.mp (Nat.le_refl _)
      exact Value.depth_arr_le_iff.mpr (forall_of_strictItems
        (fun x hx y hy => (ih x hx hy).trans (hitems x hx)) hys)
  | obj fs ih =>
      obtain ⟨ys, hys, rfl⟩ := Option.map_eq_some_iff.mp h
      have hfields : ∀ f ∈ fs, f.2.depth ≤ Value.depthFields fs :=
        Value.depthFields_le_iff.mp (Nat.le_refl _)
      exact Value.depth_obj_le_iff.mpr (forall_of_strictFields
        (fun f hf y hy => (ih f hf hy).trans (hfields f hf)) (by simp) hys)
  | _ =>
      cases h
      exact Nat.le_refl _

theorem parseJson_eq_some {bytes : Bytes} {v : Value}
    (h : parseJson bytes = some v) :
    Safe v ∧ v.depth ≤ maxJsonDepth := by
  rw [parseJson] at h
  split_ifs at h
  obtain ⟨w, hw, hv⟩ := Option.bind_eq_some_iff.mp h
  obtain ⟨cs, _, hread⟩ := Option.bind_eq_some_iff.mp hw
  exact ⟨safe_of_strict hv,
    (depth_of_strict hv).trans (Json.depth_le_of_read hread)⟩

end AgentGateway
