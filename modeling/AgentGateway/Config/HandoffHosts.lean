import AgentGateway.Library.HostParser
import AgentGateway.Library.Split
import AgentGateway.Library.StringSet
import Mathlib

/-!
# Handoff hosts

The allowlist of hosts that a configuration gives, against the host parser by
which the hosts of URLs are read.
-/

namespace AgentGateway.Config

open HostParser (Numeric Steps isDigit isHexDigit)

/-! ## Addresses of the standard library -/

/-- `read_separator`: nothing stands before the first item. -/
def readSeparator (sep : Char) (index : ℕ) (cs : List Char) :
    Option (List Char) :=
  if index = 0 then some cs
  else if cs.head? = some sep then some cs.tail
  else none

/-- A decimal byte without leading zeros. -/
def readOctet (cs : List Char) : Option (List Char) :=
  let ds := cs.takeWhile isDigit
  if ds = [] ∨ 3 < ds.length ∨ (1 < ds.length ∧ ds.head? = some '0') ∨
      255 < ds.foldl (fun n a => n * 10 + (a.toNat - 48)) 0 then none
  else some (cs.drop ds.length)

/-- Up to four hexadecimal digits. -/
def readGroup (cs : List Char) : Option (List Char) :=
  let ds := cs.takeWhile isHexDigit
  if ds = [] ∨ 4 < ds.length then none else some (cs.drop ds.length)

/-- What is left after an IPv4 address. -/
def readIpv4 (cs : List Char) : Option (List Char) :=
  [0, 1, 2, 3].foldlM (fun cs i => (readSeparator '.' i cs).bind readOctet) cs

/-- `read_groups`: how many groups are read from an index on, at most a given
number of them, whether they end in an IPv4 address, and what is left. -/
def readGroups (index : ℕ) : ℕ → List Char → ℕ × Bool × List Char
  | 0, cs => (index, false, cs)
  | n + 1, cs =>
      match (if 0 < n then (readSeparator ':' index cs).bind readIpv4
        else none) with
      | some rest => (index + 2, true, rest)
      | none =>
          match (readSeparator ':' index cs).bind readGroup with
          | some rest => readGroups (index + 1) n rest
          | none => (index, false, cs)

/-- What is left after an IPv6 address. -/
def readIpv6 (cs : List Char) : Option (List Char) :=
  let (head, dotted, rest) := readGroups 0 8 cs
  if head = 8 then some rest
  else if dotted then none
  else match rest with
    | ':' :: ':' :: rest => some (readGroups 0 (8 - (head + 1)) rest).2.2
    | _ => none

/-- Whether a text parses as an `IpAddr`. -/
def isIpAddr (cs : List Char) : Bool :=
  match readIpv4 cs with
  | some rest => rest = []
  | none => readIpv6 cs = some []

/-! ## The configuration -/

def labels (host : String) : List (List Char) := host.toList.splitOn '.'

def isDottedNumericLiteral (host : String) : Bool :=
  host.toList.contains '.' &&
    (labels host).all fun label => label ≠ [] && label.all isDigit

def isAlphanumeric (a : Char) : Bool :=
  isDigit a || (0x41 ≤ a.toNat && a.toNat ≤ 0x5A) ||
    (0x61 ≤ a.toNat && a.toNat ≤ 0x7A)

def isLabel (label : List Char) : Bool :=
  label ≠ [] && (String.ofList label).utf8ByteSize ≤ 63 &&
    label.head? ≠ some '-' && label.getLast? ≠ some '-' &&
    label.all fun a => isAlphanumeric a || a = '-'

def isCanonicalHost (host : String) : Bool :=
  host.utf8ByteSize ≤ 253 && !isIpAddr host.toList &&
    !isDottedNumericLiteral host && host.toList.contains '.' &&
    (labels host).all isLabel

/-- The hosts that a value lists. -/
def listedHosts (value : String) : List String :=
  (((value.toList.splitOn ',').map Split.trim).filter (· ≠ [])).map
    fun host => String.ofList (host.map Char.toLower)

def parseHandoffHosts (value : String) : Option StringSet :=
  let hosts := StringSet.ofList (listedHosts value)
  if hosts.elements = [] ∨ hosts.elements.any (!isCanonicalHost ·) then none
  else some hosts

/-! ## Accepted hosts -/

/-- What is known of the hosts of an accepted configuration. -/
structure Accepted (host : String) : Prop where
  canonical : isCanonicalHost host = true
  lowercase : ∀ a ∈ host.toList, a.isUpper = false

theorem accepted_of_parse {value : String} {hosts : StringSet}
    (h : parseHandoffHosts value = some hosts) {host : String}
    (hhost : host ∈ hosts) : Accepted host := by
  simp only [parseHandoffHosts] at h
  split_ifs at h with hbad
  obtain rfl := Option.some.inj h
  rw [not_or] at hbad
  have hcanonical : isCanonicalHost host = true := by
    by_contra hnot
    apply hbad.2
    rw [List.any_eq_true]
    exact ⟨host, hhost, by simpa using hnot⟩
  refine ⟨hcanonical, ?_⟩
  rw [StringSet.mem_ofList, listedHosts, List.mem_map] at hhost
  obtain ⟨cs, _, rfl⟩ := hhost
  intro a ha
  rw [String.toList_ofList, List.mem_map] at ha
  obtain ⟨b, _, rfl⟩ := ha
  exact Char.isUpper_toLower_eq_false b

theorem Accepted.labels {host : String} (h : Accepted host) :
    ∀ label ∈ labels host, isLabel label = true := by
  have hcanonical := h.canonical
  simp only [isCanonicalHost, Bool.and_eq_true, List.all_eq_true]
    at hcanonical
  exact hcanonical.2

theorem label_ne_nil {label : List Char} (h : isLabel label = true) :
    label ≠ [] := by
  simp only [isLabel, Bool.and_eq_true, decide_eq_true_eq] at h
  exact h.1.1.1.1

theorem char_of_label {label : List Char} (h : isLabel label = true)
    {a : Char} (ha : a ∈ label) : isAlphanumeric a = true ∨ a = '-' := by
  simp only [isLabel, Bool.and_eq_true, List.all_eq_true, Bool.or_eq_true,
    decide_eq_true_eq] at h
  exact h.2 a ha

theorem mem_intercalate {a sep : Char} {ls : List (List Char)}
    (h : a ∈ [sep].intercalate ls) : a = sep ∨ ∃ l ∈ ls, a ∈ l := by
  induction ls with
  | nil => cases h
  | cons l ls ih =>
      cases ls with
      | nil => exact .inr ⟨l, by simp, by simpa [List.intercalate] using h⟩
      | cons k ls =>
          rw [List.intercalate_cons_cons, List.append_assoc, List.mem_append,
            List.mem_append, List.mem_singleton] at h
          rcases h with h | h | h
          · exact .inr ⟨l, by simp, h⟩
          · exact .inl h
          · rcases ih h with h | ⟨m, hm, ha⟩
            · exact .inl h
            · exact .inr ⟨m, List.mem_cons_of_mem _ hm, ha⟩

theorem mem_intercalate_of_mem {a sep : Char} {l : List Char}
    {ls : List (List Char)} (hl : l ∈ ls) (ha : a ∈ l) :
    a ∈ [sep].intercalate ls := by
  induction ls with
  | nil => cases hl
  | cons k ls ih =>
      cases ls with
      | nil =>
          obtain rfl := List.mem_singleton.mp hl
          simpa [List.intercalate] using ha
      | cons m ls =>
          rw [List.intercalate_cons_cons, List.append_assoc]
          rcases List.mem_cons.mp hl with rfl | hl
          · exact List.mem_append_left _ ha
          · exact List.mem_append_right _ (List.mem_append_right _ (ih hl))

/-- The characters of a host stand in its labels. -/
theorem mem_labels {host : String} {a : Char} (ha : a ∈ host.toList) :
    a = '.' ∨ ∃ label ∈ labels host, a ∈ label := by
  have hjoin : ['.'].intercalate (labels host) = host.toList :=
    List.intercalate_splitOn '.'
  rw [← hjoin] at ha
  exact mem_intercalate ha

theorem exists_last (host : String) :
    ∃ last ∈ labels host, (labels host).getLast? = some last := by
  have hne : labels host ≠ [] := List.splitOn_ne_nil _ _
  exact ⟨_, List.getLast_mem hne, List.getLast?_eq_some_getLast hne⟩

theorem Accepted.parts {host : String} (h : Accepted host) :
    HostParser.parts host.toList = Config.labels host := by
  obtain ⟨last, hmem, hlast⟩ := exists_last host
  have hne := label_ne_nil (h.labels last hmem)
  rw [HostParser.parts]
  refine if_neg fun hempty => hne ?_
  exact Option.some.inj (hlast.symm.trans hempty.1)

theorem Accepted.not_bracket {host : String} (h : Accepted host) :
    host.toList.head? ≠ some '[' := by
  intro hhead
  have hmem : '[' ∈ host.toList := List.mem_of_mem_head? hhead
  rcases mem_labels hmem with hdot | ⟨label, hlabel, ha⟩
  · exact absurd hdot (by decide)
  · rcases char_of_label (h.labels label hlabel) ha with hchar | hchar
    · exact absurd hchar (by decide)
    · exact absurd hchar (by decide)

theorem Accepted.ne_empty {host : String} (h : Accepted host) :
    host ≠ "" := by
  rintro rfl
  exact absurd h.canonical (by decide)

/-! ## Hosts and the host parser -/

/-- Some label is marked as an encoded one. -/
def Encoded (host : String) : Prop :=
  ∃ label ∈ labels host, "xn--".toList <+: label

/-- A host of lower-case letters, digits, hyphens and dots that has no encoded
label and no empty one. -/
structure Plain (host : String) : Prop where
  labels : ∀ label ∈ labels host, label ≠ [] ∧
    ∀ a ∈ label, (isAlphanumeric a = true ∧ a.isUpper = false) ∨ a = '-'
  unencoded : ¬Encoded host

theorem mem_of_label {host : String} {label : List Char}
    (hlabel : label ∈ labels host) {a : Char} (ha : a ∈ label) :
    a ∈ host.toList := by
  have hjoin : ['.'].intercalate (labels host) = host.toList :=
    List.intercalate_splitOn '.'
  rw [← hjoin]
  exact mem_intercalate_of_mem hlabel ha

theorem Accepted.plain {host : String} (h : Accepted host)
    (hencoded : ¬Encoded host) : Plain host := by
  refine ⟨fun label hlabel => ⟨label_ne_nil (h.labels label hlabel), ?_⟩,
    hencoded⟩
  intro a ha
  have hlower := h.lowercase a (mem_of_label hlabel ha)
  rcases char_of_label (h.labels label hlabel) ha with hchar | hchar
  · exact .inl ⟨hchar, hlower⟩
  · exact .inr hchar

/-- The last label is taken for a number. -/
def NumericLast (host : String) : Prop :=
  ∃ last, (labels host).getLast? = some last ∧ Numeric last

/-- Every accepted host is read back as itself by the host parser if and only
if no last label is numeric and encoded labels are in their normal form. -/
theorem handoff_hosts_are_domains_iff {S : Steps}
    (hplain : ∀ host, Plain host → S.domainToAscii host = some host)
    {value : String} {hosts : StringSet}
    (h : parseHandoffHosts value = some hosts) :
    (∀ host ∈ hosts, (∀ address, HostParser.parse S host ≠
        some (.ipv4 address)) ∧
        HostParser.parse S host = some (.domain host)) ↔
      ∀ host ∈ hosts, ¬NumericLast host ∧
        (Encoded host → S.domainToAscii host = some host) := by
  refine forall₂_congr fun host hhost => ?_
  have haccepted := accepted_of_parse h hhost
  obtain ⟨last, _, hlast⟩ := exists_last host
  have hnumber : HostParser.endsInANumber host.toList = true ↔
      NumericLast host := by
    rw [HostParser.endsInANumber_iff (haccepted.parts ▸ hlast)]
    constructor
    · exact fun hnumeric => ⟨last, hlast, hnumeric⟩
    · rintro ⟨last', hlast', hnumeric⟩
      rw [hlast, Option.some.injEq] at hlast'
      exact hlast' ▸ hnumeric
  rw [HostParser.parse_eq_domain haccepted.not_bracket, ← hnumber,
    Bool.not_eq_true]
  constructor
  · rintro ⟨_, hascii, _, hnumeric⟩
    exact ⟨hnumeric, fun _ => hascii⟩
  · rintro ⟨hnumeric, hencoded⟩
    have hascii : S.domainToAscii host = some host := by
      by_cases hmark : Encoded host
      · exact hencoded hmark
      · exact hplain host (haccepted.plain hmark)
    have hdomain := And.intro hascii (And.intro haccepted.ne_empty hnumeric)
    refine ⟨fun address haddress => ?_, hdomain⟩
    rw [← HostParser.parse_eq_domain haccepted.not_bracket,
      haddress] at hdomain
    cases hdomain

/-! ## Sample configurations -/

/-- The URL crate on hosts without encoded labels. -/
def sampleSteps : Steps where
  domainToAscii := some
  parseIpv6 := fun _ => none

theorem parse_allowedHosts :
    parseHandoffHosts "allowed.example, Docs.allowed.example" =
      some (StringSet.ofList ["allowed.example", "docs.allowed.example"]) := by
  decide +kernel

theorem handoff_hosts_are_domains_iff_allowed :
    (∀ host ∈ StringSet.ofList ["allowed.example", "docs.allowed.example"],
      (∀ address, HostParser.parse sampleSteps host ≠
          some (.ipv4 address)) ∧
        HostParser.parse sampleSteps host = some (.domain host)) ↔
      ∀ host ∈ StringSet.ofList ["allowed.example", "docs.allowed.example"],
        ¬NumericLast host ∧
          (Encoded host → sampleSteps.domainToAscii host = some host) :=
  handoff_hosts_are_domains_iff (S := sampleSteps) (fun _ _ => rfl)
    parse_allowedHosts

theorem parse_hexadecimalHost : parseHandoffHosts "0x7f.1" =
    some (StringSet.ofList ["0x7f.1"]) := by
  decide +kernel

theorem hexadecimalHost_is_loopback :
    HostParser.parse sampleSteps "0x7f.1" = some (.ipv4 0x7f000001) := by
  decide +kernel

/-- A host in hexadecimal is allowed and denotes the loopback address. -/
theorem handoff_host_is_address : ¬∀ value hosts,
    parseHandoffHosts value = some hosts → ∀ host ∈ hosts,
      (∀ address, HostParser.parse sampleSteps host ≠
          some (.ipv4 address)) ∧
        HostParser.parse sampleSteps host = some (.domain host) := by
  intro h
  have hmem : "0x7f.1" ∈ StringSet.ofList ["0x7f.1"] := by simp
  exact (h _ _ parse_hexadecimalHost _ hmem).1 _ hexadecimalHost_is_loopback

end AgentGateway.Config
