import Mathlib.Algebra.Group.Nat.Defs
import Mathlib.Data.List.Infix
import Mathlib.Data.List.SplitOn
import Mathlib.Data.Option.Basic
import Mathlib.Tactic.SplitIfs

/-!
# The host parser of the URL standard

The hosts of URLs with a special scheme: domains, IPv4 addresses in one to four
parts of three radixes, and bracketed IPv6 addresses.
-/

namespace HostParser

inductive Host where
  | domain (name : String)
  | ipv4 (address : ℕ)
  | ipv6 (address : ℕ)
deriving DecidableEq

/-- The steps that are left open: a percent-decoded domain in ASCII, and the
address between brackets. -/
structure Steps where
  domainToAscii : String → Option String
  parseIpv6 : String → Option ℕ

/-! ## Numbers -/

def isDigit (a : Char) : Bool := 0x30 ≤ a.toNat && a.toNat ≤ 0x39

def isHexDigit (a : Char) : Bool :=
  isDigit a || (0x41 ≤ a.toNat && a.toNat ≤ 0x46) ||
    (0x61 ≤ a.toNat && a.toNat ≤ 0x66)

/-- The value of a hexadecimal digit. -/
def digit (a : Char) : ℕ :=
  if isDigit a then a.toNat - 0x30
  else if a.toNat ≤ 0x46 then a.toNat - 0x37
  else a.toNat - 0x57

/-- The digits of the three radixes. -/
def isRadixDigit (radix : ℕ) (a : Char) : Bool :=
  isHexDigit a && digit a < radix

/-- The radix that the beginning of a part announces, and its digits. -/
def radixOf : List Char → ℕ × List Char
  | '0' :: 'x' :: ds => (16, ds)
  | '0' :: 'X' :: ds => (16, ds)
  | '0' :: d :: ds => (8, d :: ds)
  | ds => (10, ds)

/-- The number that a part of an address denotes. -/
def number? (part : List Char) : Option ℕ :=
  if part = [] then none
  else
    let radix := (radixOf part).1
    let ds := (radixOf part).2
    if ds.all (isRadixDigit radix) then
      some (ds.foldl (fun n a => n * radix + digit a) 0)
    else none

/-! ## Addresses -/

/-- The parts of a host; an empty last one does not count. -/
def parts (host : List Char) : List (List Char) :=
  let ps := host.splitOn '.'
  if ps.getLast? = some [] ∧ 1 < ps.length then ps.dropLast else ps

/-- The last part decides whether a host is taken for an IPv4 address. -/
def endsInANumber (host : List Char) : Bool :=
  match (parts host).getLast? with
  | none => false
  | some last =>
      (last ≠ [] && last.all isDigit) || (number? last).isSome

/-- All numbers but the last one are bytes; the last one fills the rest. -/
def parseIpv4 (host : List Char) : Option ℕ := do
  let ps := parts host
  guard (ps.length ≤ 4)
  let numbers ← ps.mapM number?
  let last ← numbers.getLast?
  guard (last < 256 ^ (5 - numbers.length))
  guard (numbers.dropLast.all (· < 256))
  return numbers.dropLast.zipIdx.foldl
    (fun n x => n + x.1 * 256 ^ (3 - x.2)) last

/-- `Host::parse` -/
def parse (S : Steps) (input : String) : Option Host :=
  match input.toList with
  | '[' :: cs =>
      if cs.getLast? = some ']' then
        (S.parseIpv6 (String.ofList cs.dropLast)).map .ipv6
      else none
  | _ => do
      let domain ← S.domainToAscii input
      guard (domain ≠ "")
      if endsInANumber domain.toList then (parseIpv4 domain.toList).map .ipv4
      else return .domain domain

/-! ## Numeric labels -/

/-- A part that is taken for a number: decimal digits, or hexadecimal ones
after their mark. -/
inductive Numeric : List Char → Prop
  | digits {cs : List Char} : cs ≠ [] → (∀ a ∈ cs, isDigit a = true) →
      Numeric cs
  | hexadecimal {x : Char} {cs : List Char} : x = 'x' ∨ x = 'X' →
      (∀ a ∈ cs, isHexDigit a = true) → Numeric ('0' :: x :: cs)

theorem isDigit_of_radix {radix : ℕ} (hradix : radix ≤ 10) {a : Char}
    (h : isRadixDigit radix a = true) : isDigit a = true := by
  simp only [isRadixDigit, Bool.and_eq_true, decide_eq_true_eq] at h
  by_contra hdigit
  rw [Bool.not_eq_true] at hdigit
  have hlarge : 10 ≤ digit a := by
    obtain ⟨hhex, _⟩ := h
    simp only [isHexDigit, hdigit, Bool.false_or, Bool.or_eq_true,
      Bool.and_eq_true, decide_eq_true_eq] at hhex
    simp only [digit, hdigit, Bool.false_eq_true, if_false]
    split_ifs <;> omega
  omega

theorem isRadixDigit_sixteen (a : Char) :
    isRadixDigit 16 a = isHexDigit a := by
  rw [isRadixDigit, Bool.and_eq_left_iff_imp]
  intro h
  simp only [isHexDigit, isDigit, Bool.or_eq_true, Bool.and_eq_true,
    decide_eq_true_eq] at h
  simp only [digit, isDigit, Bool.and_eq_true, decide_eq_true_eq]
  split_ifs <;> omega

theorem number?_isSome {cs : List Char} : (number? cs).isSome = true ↔
    cs ≠ [] ∧ ∀ a ∈ (radixOf cs).2, isRadixDigit (radixOf cs).1 a = true := by
  unfold number?
  split_ifs with hne
  · simp [hne]
  · simp [hne]

theorem radixOf_decimal {cs : List Char}
    (h : ∀ x ds, cs = '0' :: x :: ds → x ≠ 'x' ∧ x ≠ 'X') :
    (radixOf cs).1 ≤ 10 ∧ ∀ a ∈ cs, a ∈ (radixOf cs).2 ∨ a = '0' := by
  unfold radixOf
  split
  · exact absurd rfl (h _ _ rfl).1
  · exact absurd rfl (h _ _ rfl).2
  · have height : 8 ≤ 10 := by decide
    refine ⟨height, fun a ha => ?_⟩
    rw [List.mem_cons] at ha
    exact ha.symm
  · exact ⟨Nat.le_refl 10, fun a ha => .inl ha⟩

/-- The parts that are taken for numbers. -/
theorem numeric_iff {cs : List Char} :
    (cs ≠ [] ∧ ∀ a ∈ cs, isDigit a = true) ∨ (number? cs).isSome = true ↔
      Numeric cs := by
  constructor
  · rintro (⟨hne, hdigits⟩ | h)
    · exact .digits hne hdigits
    obtain ⟨hne, hall⟩ := number?_isSome.mp h
    by_cases hmark : ∃ x ds, cs = '0' :: x :: ds ∧ (x = 'x' ∨ x = 'X')
    · obtain ⟨x, ds, rfl, hx⟩ := hmark
      have hradix : radixOf ('0' :: x :: ds) = (16, ds) := by
        rcases hx with rfl | rfl <;> rfl
      rw [hradix] at hall
      refine .hexadecimal hx fun a ha => ?_
      rw [← isRadixDigit_sixteen]
      exact hall a ha
    · have hdecimal := @radixOf_decimal cs fun x ds hcs =>
        not_or.mp fun hx => hmark ⟨x, ds, hcs, hx⟩
      refine .digits hne fun a ha => ?_
      rcases hdecimal.2 a ha with ha | rfl
      · exact isDigit_of_radix hdecimal.1 (hall a ha)
      · rfl
  · intro h
    cases h with
    | digits hne hdigits => exact .inl ⟨hne, hdigits⟩
    | @hexadecimal x cs hx hhex =>
        have hradix : radixOf ('0' :: x :: cs) = (16, cs) := by
          rcases hx with rfl | rfl <;> rfl
        refine .inr (number?_isSome.mpr ⟨by simp, ?_⟩)
        rw [hradix]
        intro a ha
        rw [isRadixDigit_sixteen]
        exact hhex a ha

/-- A host is taken for an address if its last part is numeric. -/
theorem endsInANumber_iff {host last : List Char}
    (h : (parts host).getLast? = some last) :
    endsInANumber host = true ↔ Numeric last := by
  rw [endsInANumber, h, ← numeric_iff]
  simp [List.all_eq_true]

/-- What is read as a domain. -/
theorem parse_eq_domain {S : Steps} {input name : String}
    (h : input.toList.head? ≠ some '[') :
    parse S input = some (.domain name) ↔ S.domainToAscii input = some name ∧
      name ≠ "" ∧ endsInANumber name.toList = false := by
  unfold parse
  split
  next cs hcs => simp [hcs] at h
  next =>
    simp only [Option.bind_eq_bind, Option.bind_eq_some_iff,
      Option.guard_eq_some', exists_const]
    constructor
    · rintro ⟨domain, hdomain, hne, hresult⟩
      split_ifs at hresult with hnumber
      · simp at hresult
      · cases hresult
        exact ⟨hdomain, hne, Bool.eq_false_iff.mpr hnumber⟩
    · rintro ⟨hdomain, hne, hnumber⟩
      exact ⟨name, hdomain, hne, by simp [hnumber]⟩

example : parseIpv4 "0x7f.1".toList = some 0x7f000001 := by decide +kernel

example : parseIpv4 "127.0.0.010".toList = some 0x7f000008 := by
  decide +kernel

end HostParser
