import AgentGateway.Conversation.Decoding
import AgentGateway.Library.Json.Grammar
import Mathlib.Data.List.Nodup

/-!
# The profile of JSON texts

What `parse_json` accepts, stated against the grammar of RFC 8259: texts in
which no object repeats a key and every number is a plain integer literal of a
nonnegative safe integer.
-/

namespace AgentGateway

open Json (Value Number)
open Json.Value (SortedKeys insertField)
open Utf8 (Bytes)

/-! ## Profile trees -/

/-- What the profile asks of each node of a syntax tree. -/
def ProfileNode : Value → Prop
  | .num n => ∃ m ≤ maxSafeInteger, n = .posInt m
  | .obj fs => (fs.map Prod.fst).Nodup
  | _ => True

/-- `Denotes t v`: the value `v` is the one that the syntax tree `t` stands
for.  Each object keeps the keys of the text and their values. -/
inductive Denotes : Value → Value → Prop
  | null : Denotes .null .null
  | bool (b : Bool) : Denotes (.bool b) (.bool b)
  | num (n : Number) : Denotes (.num n) (.num n)
  | str (s : String) : Denotes (.str s) (.str s)
  | arr {xs ys : List Value} : xs.length = ys.length →
      (∀ (i : ℕ) (x y : Value), xs[i]? = some x → ys[i]? = some y → Denotes x y) →
        Denotes (.arr xs) (.arr ys)
  | obj {fs gs : List (String × Value)} : SortedKeys gs →
      (gs.map Prod.fst).Perm (fs.map Prod.fst) →
        (∀ k (x y : Value), (k, x) ∈ fs → (k, y) ∈ gs → Denotes x y) →
          Denotes (.obj fs) (.obj gs)

/-! ## What strict decoding makes of a tree -/

theorem strictItems_eq_some {xs ys : List Value}
    (h : strictItems xs = some ys) :
    xs.length = ys.length ∧ ∀ (i : ℕ) (x y : Value), xs[i]? = some x →
      ys[i]? = some y → strict x = some y := by
  induction xs generalizing ys with
  | nil =>
      cases h
      simp
  | cons x xs ih =>
      rw [strictItems] at h
      split at h
      next y ys' hy hys =>
        cases h
        obtain ⟨hlength, hitems⟩ := ih hys
        refine ⟨by simp [hlength], ?_⟩
        intro i x' y' hx' hy'
        cases i with
        | zero =>
            cases hx'
            cases hy'
            exact hy
        | succ i => exact hitems i x' y' hx' hy'
      · cases h

theorem perm_keys_insertField {m : List (String × Value)} {k : String}
    (hfresh : m.lookup k = none) (v : Value) :
    ((insertField k v m).map Prod.fst).Perm (k :: m.map Prod.fst) := by
  induction m with
  | nil => exact .refl _
  | cons f m ih =>
      obtain ⟨l, w⟩ := f
      rw [Value.lookup_cons] at hfresh
      split_ifs at hfresh with hkey
      unfold insertField
      split_ifs with hlt
      · exact .refl _
      · exact ((ih hfresh).cons l).trans (.swap k l _)

/-- The fields decoded into a map: their keys are new and come on top of the
keys of the map, and each value is decoded. -/
theorem strictFields_eq_some {fs m gs : List (String × Value)}
    (hsorted : SortedKeys m) (h : strictFields m fs = some gs) :
    SortedKeys gs ∧
      (gs.map Prod.fst).Perm (fs.map Prod.fst ++ m.map Prod.fst) ∧
      ∀ f ∈ gs, f ∈ m ∨ ∃ x, (f.1, x) ∈ fs ∧ strict x = some f.2 := by
  induction fs generalizing m with
  | nil =>
      cases h
      exact ⟨hsorted, .refl _, fun f hf => .inl hf⟩
  | cons f fs ih =>
      obtain ⟨k, x⟩ := f
      rw [strictFields] at h
      split_ifs at h with hnew
      have hfresh : m.lookup k = none := Option.not_isSome_iff_eq_none.mp hnew
      split at h
      · cases h
      next y hy =>
        obtain ⟨hgs, hperm, hmem⟩ := ih (hsorted.insertField k y) h
        refine ⟨hgs, ?_, ?_⟩
        · refine hperm.trans ?_
          refine ((perm_keys_insertField hfresh y).append_left _).trans ?_
          exact List.perm_middle
        · intro g hg
          rcases hmem g hg with hg | ⟨z, hz, hstrict⟩
          · rcases Value.mem_insertField hg with rfl | hg
            · exact .inr ⟨x, by simp, hy⟩
            · exact .inl hg
          · exact .inr ⟨z, by simp [hz], hstrict⟩

/-- Every field of the text is decoded. -/
theorem strict_of_mem_strictFields {fs m gs : List (String × Value)}
    (h : strictFields m fs = some gs) :
    ∀ f ∈ fs, ∃ y, strict f.2 = some y := by
  induction fs generalizing m with
  | nil => simp
  | cons f fs ih =>
      obtain ⟨k, x⟩ := f
      rw [strictFields] at h
      split_ifs at h
      split at h
      · cases h
      next y hy =>
        rintro g (_ | ⟨_, hg⟩)
        · exact ⟨y, hy⟩
        · exact ih h g hg

theorem eq_of_mem_of_nodup {fs : List (String × Value)}
    (h : (fs.map Prod.fst).Nodup) {k : String} {x y : Value}
    (hx : (k, x) ∈ fs) (hy : (k, y) ∈ fs) : x = y := by
  have hinj := List.inj_on_of_nodup_map h
  exact congrArg Prod.snd (hinj hx hy rfl)

/-- A decoded tree meets the profile, and decoding gives what it denotes. -/
theorem denotes_of_strict {t v : Value} (h : strict t = some v) :
    t.Every ProfileNode ∧ Denotes t v := by
  induction t using Value.induct generalizing v with
  | null =>
      cases h
      exact ⟨.null trivial, .null⟩
  | bool b =>
      cases h
      exact ⟨.bool trivial, .bool b⟩
  | str s =>
      cases h
      exact ⟨.str trivial, .str s⟩
  | num n =>
      cases n with
      | posInt n =>
          simp only [strict] at h
          split_ifs at h with hn
          cases h
          exact ⟨.num ⟨n, by omega, rfl⟩, .num _⟩
      | _ => cases h
  | arr xs ih =>
      obtain ⟨ys, hys, rfl⟩ := Option.map_eq_some_iff.mp h
      obtain ⟨hlength, hitems⟩ := strictItems_eq_some hys
      refine ⟨.arr trivial fun x hx => ?_, .arr hlength fun i x y hx hy => ?_⟩
      · obtain ⟨i, hi⟩ := List.getElem?_of_mem hx
        have hlt : i < ys.length := by
          rw [← hlength]
          exact (List.getElem?_eq_some_iff.mp hi).1
        exact (ih x hx (hitems i x _ hi (List.getElem?_eq_getElem hlt))).1
      · exact (ih x (List.mem_of_getElem? hx) (hitems i x y hx hy)).2
  | obj fs ih =>
      obtain ⟨gs, hgs, rfl⟩ := Option.map_eq_some_iff.mp h
      obtain ⟨hsorted, hperm, hmem⟩ := strictFields_eq_some .nil hgs
      rw [List.map_nil, List.append_nil] at hperm
      have hnodup : (fs.map Prod.fst).Nodup := hperm.nodup_iff.mp hsorted.nodup
      refine ⟨.obj hnodup fun f hf => ?_, .obj hsorted hperm ?_⟩
      · obtain ⟨y, hy⟩ := strict_of_mem_strictFields hgs f hf
        exact (ih f hf hy).1
      · intro k x y hx hy
        rcases hmem (k, y) hy with hnil | ⟨z, hz, hstrict⟩
        · simp at hnil
        · cases eq_of_mem_of_nodup hnodup hx hz
          exact (ih (k, x) hx hstrict).2

theorem exists_strictItems {xs : List Value}
    (h : ∀ x ∈ xs, ∃ y, strict x = some y) :
    ∃ ys, strictItems xs = some ys := by
  induction xs with
  | nil => exact ⟨[], rfl⟩
  | cons x xs ih =>
      obtain ⟨y, hy⟩ := h x (by simp)
      obtain ⟨ys, hys⟩ := ih fun z hz => h z (by simp [hz])
      exact ⟨y :: ys, by rw [strictItems, hy, hys]⟩

theorem exists_strictFields {fs m : List (String × Value)}
    (h : ∀ f ∈ fs, ∃ y, strict f.2 = some y)
    (hnodup : (fs.map Prod.fst).Nodup)
    (hm : ∀ f ∈ fs, m.lookup f.1 = none) :
    ∃ gs, strictFields m fs = some gs := by
  induction fs generalizing m with
  | nil => exact ⟨m, rfl⟩
  | cons f fs ih =>
      obtain ⟨k, x⟩ := f
      obtain ⟨y, hy⟩ := h (k, x) (by simp)
      obtain ⟨hk, hrest⟩ := List.nodup_cons.mp hnodup
      have hfresh : m.lookup k = none := hm (k, x) (by simp)
      obtain ⟨gs, hgs⟩ := ih (m := insertField k y m)
        (fun f hf => h f (by simp [hf])) hrest fun f hf => by
          have hne : f.1 ≠ k := by
            intro heq
            apply hk
            simpa only [heq] using List.mem_map_of_mem (f := Prod.fst) hf
          rw [Value.lookup_insertField, if_neg hne]
          exact hm f (by simp [hf])
      refine ⟨gs, ?_⟩
      rw [strictFields, hfresh, hy]
      simpa using hgs

theorem exists_strict {t : Value} (h : t.Every ProfileNode) :
    ∃ v, strict t = some v := by
  induction h with
  | null => exact ⟨_, rfl⟩
  | bool => exact ⟨_, rfl⟩
  | @num n hn =>
      obtain ⟨m, hm, rfl⟩ := hn
      exact ⟨_, by rw [strict, if_neg (by omega)]⟩
  | str => exact ⟨_, rfl⟩
  | arr _ _ ih =>
      obtain ⟨ys, hys⟩ := exists_strictItems ih
      exact ⟨_, by rw [strict, hys]; rfl⟩
  | obj hnodup _ ih =>
      obtain ⟨gs, hgs⟩ := exists_strictFields ih hnodup (m := []) (by simp)
      exact ⟨_, by rw [strict, hgs]; rfl⟩

theorem eq_of_perm_of_sorted {ks ls : List String}
    (hks : ks.Pairwise Value.KeyLt) (hls : ls.Pairwise Value.KeyLt)
    (h : ks.Perm ls) : ks = ls :=
  h.eq_of_pairwise (fun _ _ _ _ hlt hgt => absurd hgt hlt.asymm) hks hls

theorem denotes_unique {t u v : Value} (hu : Denotes t u)
    (hv : Denotes t v) : u = v := by
  induction hu generalizing v with
  | null =>
      cases hv
      rfl
  | bool =>
      cases hv
      rfl
  | num =>
      cases hv
      rfl
  | str =>
      cases hv
      rfl
  | @arr xs ys hlength _ ih =>
      cases hv with
      | @arr _ zs hlength' hitems =>
          refine congrArg _ (List.ext_getElem (by omega) fun i hi hi' => ?_)
          have hx : xs[i]? = some xs[i] := List.getElem?_eq_getElem (by omega)
          exact ih i _ _ hx (List.getElem?_eq_getElem hi)
            (hitems i _ _ hx (List.getElem?_eq_getElem hi'))
  | @obj fs gs hgs hperm _ ih =>
      cases hv with
      | @obj _ ks hks hperm' hfields =>
          have hkeys : gs.map Prod.fst = ks.map Prod.fst :=
            eq_of_perm_of_sorted hgs hks (hperm.trans hperm'.symm)
          have hlength : gs.length = ks.length := by
            simpa using congrArg List.length hkeys
          refine congrArg _ (List.ext_getElem hlength fun i hi hi' => ?_)
          have hkey : gs[i].1 = ks[i].1 := by
            have hget := congrArg (fun l => l[i]?) hkeys
            simpa [hi, hi'] using hget
          obtain ⟨⟨k, x⟩, hx, hkx⟩ := List.mem_map.mp
            (hperm.subset (List.mem_map_of_mem (List.getElem_mem hi)))
          have hgs' : (k, gs[i].2) ∈ gs := by
            rw [show k = gs[i].1 from hkx]
            exact List.getElem_mem hi
          have hks' : (k, ks[i].2) ∈ ks := by
            rw [show k = ks[i].1 from hkx.trans hkey]
            exact List.getElem_mem hi'
          exact Prod.ext hkey (ih k x _ hx hgs' (hfields k x _ hx hks'))

/-! ## Texts -/

/-- The syntax tree of a byte string is the one that the grammar derives. -/
theorem syntaxTree_eq_some_iff {bytes : Bytes} {t : Value} :
    syntaxTree bytes = some t ↔ ∃ cs, bytes = Utf8.encode cs ∧
      Json.Text t cs ∧ t.depth ≤ maxJsonDepth := by
  simp only [syntaxTree, Option.bind_eq_some_iff, Utf8.decode_eq_some_iff,
    Json.read_eq_some_iff]

/-- `parse_json` succeeds exactly on the texts of the profile, and what it
returns is what every derivation of the text denotes.  The integers of the
profile are written in one way. -/
theorem strict_decoder_profile (bytes : Bytes) :
    ((parseJson bytes).isSome = true ↔ bytes.length ≤ maxJsonBytes ∧
      ∃ cs t, bytes = Utf8.encode cs ∧ Json.Text t cs ∧
        t.depth ≤ maxJsonDepth ∧ t.Every ProfileNode) ∧
    (∀ v cs t, parseJson bytes = some v → bytes = Utf8.encode cs →
      Json.Text t cs → Denotes t v) ∧
    ∀ n cs, n ≤ maxSafeInteger →
      (Json.NumberText (.posInt n) cs ↔ cs = Nat.toDigits 10 n) := by
  refine ⟨⟨?_, ?_⟩, ?_, ?_⟩
  · intro h
    obtain ⟨v, hv⟩ := Option.isSome_iff_exists.mp h
    rw [parseJson] at hv
    split_ifs at hv with hlength
    obtain ⟨t, ht, hstrict⟩ := Option.bind_eq_some_iff.mp hv
    obtain ⟨cs, hbytes, htext, hdepth⟩ := syntaxTree_eq_some_iff.mp ht
    exact ⟨by omega, cs, t, hbytes, htext, hdepth,
      (denotes_of_strict hstrict).1⟩
  · rintro ⟨hlength, cs, t, hbytes, htext, hdepth, hprofile⟩
    obtain ⟨v, hv⟩ := exists_strict hprofile
    have htree := syntaxTree_eq_some_iff.mpr ⟨cs, hbytes, htext, hdepth⟩
    rw [parseJson, if_neg (by omega), htree, Option.bind_some, hv]
    rfl
  · intro v cs t hv hbytes htext
    rw [parseJson] at hv
    split_ifs at hv with hlength
    obtain ⟨u, hu, hstrict⟩ := Option.bind_eq_some_iff.mp hv
    obtain ⟨ds, hds, hutext, hdepth⟩ := syntaxTree_eq_some_iff.mp hu
    obtain rfl := Utf8.encode_injective (hbytes.symm.trans hds)
    rw [htext.unique hutext]
    exact (denotes_of_strict hstrict).2
  · intro n cs hn
    have hmax : maxSafeInteger < 2 ^ 64 := by decide
    exact Json.numberText_posInt (by omega)

end AgentGateway
