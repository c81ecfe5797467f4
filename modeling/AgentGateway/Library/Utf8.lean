import Mathlib.Algebra.GroupWithZero.Nat
import Mathlib.Data.Nat.Notation
import Mathlib.Data.List.Basic

/-!
# UTF-8 texts as byte lists
-/

namespace Utf8

abbrev Bytes := List UInt8

def encode (cs : List Char) : Bytes :=
  cs.flatMap String.utf8EncodeChar

/-- The character that a byte string begins with. -/
def firstChar (bs : Bytes) : Option Char :=
  (bs.take 4).toByteArray.utf8DecodeChar? 0

/-- Decode a byte string after the characters in `done`, which come last
first. -/
def decodeFrom : ℕ → Bytes → List Char → Option (List Char)
  | _, [], done => some done.reverse
  | 0, _, _ => none
  | n + 1, bs, done =>
      match firstChar bs with
      | none => none
      | some c => decodeFrom n (bs.drop c.utf8Size) (c :: done)

/-- The characters of a valid UTF-8 byte string. -/
def decode (bs : Bytes) : Option (List Char) := decodeFrom bs.length bs []

theorem firstChar_encode (c : Char) (bs : Bytes) :
    firstChar (String.utf8EncodeChar c ++ bs) = some c := by
  have hsize : (String.utf8EncodeChar c).length ≤ 4 := by
    rw [String.length_utf8EncodeChar]
    exact Char.utf8Size_le_four c
  rw [firstChar, List.take_append, List.take_of_length_le hsize,
    List.toByteArray_append]
  exact ByteArray.utf8DecodeChar?_utf8EncodeChar_append

theorem decodeFrom_encode {n : ℕ} {cs : List Char}
    (hn : (encode cs).length ≤ n) (done : List Char) :
    decodeFrom n (encode cs) done = some (done.reverse ++ cs) := by
  induction cs generalizing n done with
  | nil => simp [encode, decodeFrom]
  | cons c cs ih =>
      have hcons : encode (c :: cs) = String.utf8EncodeChar c ++ encode cs :=
        List.flatMap_cons
      have hsize : (String.utf8EncodeChar c).length = c.utf8Size :=
        String.length_utf8EncodeChar c
      have hpos : 0 < c.utf8Size := Char.utf8Size_pos c
      rw [hcons, List.length_append, hsize] at hn
      obtain ⟨b, bs, hbs⟩ : ∃ b bs, encode (c :: cs) = b :: bs := by
        refine List.exists_cons_of_length_pos ?_
        rw [hcons, List.length_append, hsize]
        omega
      have hfirst := firstChar_encode c (encode cs)
      have hdrop : (String.utf8EncodeChar c ++ encode cs).drop c.utf8Size =
          encode cs := by
        rw [← hsize, List.drop_left]
      rw [← hcons, hbs] at hfirst hdrop
      cases n with
      | zero => omega
      | succ n =>
          rw [hbs, decodeFrom, hfirst]
          · simp only [hdrop]
            rw [ih (by omega), List.reverse_cons, List.append_assoc,
              List.singleton_append]
          · exact List.cons_ne_nil b bs

theorem decode_encode (cs : List Char) : decode (encode cs) = some cs :=
  decodeFrom_encode (Nat.le_refl _) []

theorem encode_injective : Function.Injective encode := by
  intro cs ds h
  have hdecode := congrArg decode h
  rw [decode_encode, decode_encode] at hdecode
  exact Option.some.inj hdecode

theorem encode_append (cs ds : List Char) :
    encode (cs ++ ds) = encode cs ++ encode ds := by
  simp [encode]

theorem length_encode (cs : List Char) :
    (encode cs).length = (cs.map Char.utf8Size).sum := by
  simp [encode, List.length_flatMap]

theorem length_le_length_encode (cs : List Char) :
    cs.length ≤ (encode cs).length := by
  induction cs with
  | nil => simp
  | cons c cs ih =>
      have hpos : 0 < c.utf8Size := Char.utf8Size_pos c
      simp only [encode, List.flatMap_cons, List.length_append,
        String.length_utf8EncodeChar, List.length_cons] at ih ⊢
      omega

/-- The first character's bytes are a prefix of the byte string. -/
theorem prefix_of_firstChar {bs : Bytes} {c : Char}
    (h : firstChar bs = some c) :
    bs = String.utf8EncodeChar c ++ bs.drop c.utf8Size := by
  obtain ⟨l, hl⟩ := ByteArray.exists_of_utf8DecodeChar?_eq_some h
  have hlist : bs.take 4 = String.utf8EncodeChar c ++ l.data.toList := by
    have hdata := congrArg (fun b => b.data.toList) hl
    simpa using hdata
  have hsplit : bs = String.utf8EncodeChar c ++ (l.data.toList ++ bs.drop 4) := by
    rw [← List.append_assoc, ← hlist, List.take_append_drop]
  have hdrop : bs.drop c.utf8Size = l.data.toList ++ bs.drop 4 := by
    have hcongr := congrArg (List.drop (String.utf8EncodeChar c).length) hsplit
    rwa [List.drop_left, String.length_utf8EncodeChar] at hcongr
  rw [hdrop]
  exact hsplit

theorem encode_of_decodeFrom {n : ℕ} {bs : Bytes} {done cs : List Char}
    (h : decodeFrom n bs done = some cs) :
    ∃ es, cs = done.reverse ++ es ∧ bs = encode es := by
  induction n generalizing bs done with
  | zero =>
      cases bs with
      | nil =>
          cases h
          exact ⟨[], by simp, rfl⟩
      | cons b bs => simp [decodeFrom] at h
  | succ n ih =>
      cases bs with
      | nil =>
          cases h
          exact ⟨[], by simp, rfl⟩
      | cons b bs =>
          rw [decodeFrom] at h
          · split at h
            · cases h
            next c hc =>
              obtain ⟨es, rfl, hes⟩ := ih h
              refine ⟨c :: es, by simp, ?_⟩
              rw [prefix_of_firstChar hc, hes]
              rfl
          · exact List.cons_ne_nil b bs

/-- The byte strings that decode are the encodings. -/
theorem decode_eq_some_iff {bs : Bytes} {cs : List Char} :
    decode bs = some cs ↔ bs = encode cs := by
  constructor
  · intro h
    obtain ⟨es, rfl, hbs⟩ := encode_of_decodeFrom h
    simpa using hbs
  · rintro rfl
    exact decode_encode cs

end Utf8
