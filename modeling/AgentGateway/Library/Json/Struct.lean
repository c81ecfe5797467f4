import AgentGateway.Library.Json.Value
import Mathlib.Data.List.Perm.Basic
import Mathlib.Data.List.Perm.Subperm
import Mathlib.Data.List.Zip

/-!
# Structures as JSON

How derived code writes a structure with named fields, and reads it back: from
an object with exactly its keys, or from an array with its fields in order.
-/

namespace Json.Struct

open Value (SortedKeys)

variable {keys : List String} {values : List Value}

def encode (keys : List String) (values : List Value) : Value :=
  Value.object (keys.zip values)

/-- The fields in the order of the keys; no other key may stand there. -/
def decode (keys : List String) : Value → Option (List Value)
  | .obj fs =>
      if fs.length = keys.length then keys.mapM fun k => fs.lookup k else none
  | .arr xs => if xs.length = keys.length then some xs else none
  | _ => none

/-! ## Round trip -/

theorem lookup_of_mem {gs : List (String × Value)}
    (hgs : (gs.map Prod.fst).Nodup) {k : String} {v : Value}
    (h : (k, v) ∈ gs) : gs.lookup k = some v := by
  induction gs with
  | nil => cases h
  | cons g gs ih =>
      obtain ⟨l, w⟩ := g
      rw [List.map_cons, List.nodup_cons] at hgs
      rw [Value.lookup_cons]
      rcases List.mem_cons.mp h with heq | hmem
      · cases heq
        rw [if_pos rfl]
      · have hne : k ≠ l := by
          rintro rfl
          exact hgs.1 (List.mem_map.mpr ⟨(k, v), hmem, rfl⟩)
        rw [if_neg hne]
        exact ih hgs.2 hmem

theorem mapM_of_zip {f : String → Option Value}
    (hlength : values.length = keys.length)
    (h : ∀ x ∈ keys.zip values, f x.1 = some x.2) :
    keys.mapM f = some values := by
  induction keys generalizing values with
  | nil =>
      obtain rfl := List.length_eq_zero_iff.mp hlength
      rfl
  | cons k keys ih =>
      cases values with
      | nil => cases hlength
      | cons v values =>
          rw [List.zip_cons_cons, List.forall_mem_cons] at h
          rw [List.mapM_cons, h.1, ih (Nat.succ.inj hlength) h.2]
          rfl

/-- Distinct keys all stand in the object, each once. -/
theorem object_of_nodup {gs : List (String × Value)}
    (hgs : (gs.map Prod.fst).Nodup) : ∃ fs, Value.object gs = .obj fs ∧
      fs.length = gs.length ∧ ∀ g ∈ gs, fs.lookup g.1 = some g.2 := by
  obtain ⟨fs, hfs, hsorted, hmem, hlookup⟩ := Value.exists_object gs
  have hfound : ∀ g ∈ gs, fs.lookup g.1 = some g.2 := by
    intro g hg
    rw [hlookup]
    apply lookup_of_mem
    · rw [List.map_reverse]
      exact List.pairwise_reverse.mpr (hgs.imp Ne.symm)
    · exact List.mem_reverse.mpr hg
  refine ⟨fs, hfs, ?_, hfound⟩
  have hkeys : ∀ k, k ∈ fs.map Prod.fst ↔ k ∈ gs.map Prod.fst := by
    intro k
    constructor
    · intro hk
      obtain ⟨f, hf, rfl⟩ := List.mem_map.mp hk
      exact List.mem_map_of_mem (hmem f hf)
    · intro hk
      obtain ⟨g, hg, rfl⟩ := List.mem_map.mp hk
      obtain ⟨l₁, l₂, rfl, -⟩ := List.lookup_eq_some_iff.mp (hfound g hg)
      simp
  have hperm := (List.perm_ext_iff_of_nodup hsorted.nodup hgs).mpr hkeys
  have hlength := hperm.length_eq
  rwa [List.length_map, List.length_map] at hlength

theorem map_fst_zip (hlength : values.length = keys.length) :
    (keys.zip values).map Prod.fst = keys :=
  List.map_fst_zip (by omega)

/-- What is written is read back. -/
theorem decode_encode (hkeys : keys.Nodup)
    (hlength : values.length = keys.length) :
    decode keys (encode keys values) = some values := by
  have hzip : ((keys.zip values).map Prod.fst).Nodup := by
    rwa [map_fst_zip hlength]
  obtain ⟨fs, hfs, hcount, hfound⟩ := object_of_nodup hzip
  have hfields : fs.length = keys.length := by
    rw [hcount, List.length_zip, hlength, Nat.min_self]
  rw [encode, hfs, decode, if_pos hfields]
  exact mapM_of_zip hlength hfound

/-! ## Properties of the nodes -/

theorem every_encode {P : Value → Prop}
    (hobj : ∀ fs, SortedKeys fs → P (.obj fs))
    (hvalues : ∀ v ∈ values, v.Every P) : (encode keys values).Every P := by
  obtain ⟨fs, hfs, hsorted, hmem, -⟩ := Value.exists_object (keys.zip values)
  rw [encode, hfs]
  apply Value.Every.obj (hobj fs hsorted)
  intro f hf
  exact hvalues f.2 (List.of_mem_zip (hmem f hf)).2

theorem depth_encode_le {n : ℕ} (hvalues : ∀ v ∈ values, v.depth ≤ n) :
    (encode keys values).depth ≤ n + 1 := by
  apply Value.depth_object_le
  intro f hf
  exact hvalues f.2 (List.of_mem_zip hf).2

end Json.Struct
