import AgentGateway.Library.HostParser
import AgentGateway.Library.Utf8

/-!
# The URL parser of the URL standard

How a text is cleaned, and how the scheme, the userinfo, the host, the port and
the fragment of an absolute URL with a special scheme are found in it.
-/

namespace UrlParser

open HostParser (Host isDigit)

/-! ## URLs -/

/-- What a URL tells besides its scheme. -/
structure Parts where
  username : String
  password : Option String
  hostStr : Option String
  fragment : Option String

structure Url extends Parts where
  scheme : String

/-- The steps that are left open: those of hosts, the text of an IPv6 address,
and what follows the scheme of a URL that is not special. -/
structure Steps extends HostParser.Steps where
  showIpv6 : ℕ → String
  parseOther : String → List Char → Option Parts

def showIpv4 (address : ℕ) : String :=
  ".".intercalate ([3, 2, 1, 0].map fun i => toString (address / 256 ^ i % 256))

def showHost (S : Steps) : Host → String
  | .domain name => name
  | .ipv4 address => showIpv4 address
  | .ipv6 address => "[" ++ S.showIpv6 address ++ "]"

/-! ## Percent-encoding -/

def upperHex (n : ℕ) : Char :=
  Char.ofNat (if n < 10 then 0x30 + n else 0x37 + n)

def percentByte (b : UInt8) : List Char :=
  ['%', upperHex (b.toNat / 16), upperHex (b.toNat % 16)]

/-- The characters of a set are written by their bytes. -/
def percentEncode (set : Char → Bool) (cs : List Char) : String :=
  String.ofList <| cs.flatMap fun a =>
    if set a then (Utf8.encode [a]).flatMap percentByte else [a]

def fragmentSet (a : Char) : Bool :=
  a.toNat ≤ 0x20 || 0x7E < a.toNat || a.toNat ∈ [0x22, 0x3C, 0x3E, 0x60]

def userinfoSet (a : Char) : Bool :=
  fragmentSet a || (0x5B ≤ a.toNat && a.toNat ≤ 0x5E) ||
    a.toNat ∈ [0x23, 0x2F, 0x3A, 0x3B, 0x3D, 0x3F, 0x40, 0x7B, 0x7C, 0x7D]

/-! ## Cleaning -/

def isControlOrSpace (a : Char) : Bool := a.toNat ≤ 0x20

def isTabOrNewline (a : Char) : Bool := a = '\t' || a = '\n' || a = '\r'

def trim (cs : List Char) : List Char :=
  ((cs.dropWhile isControlOrSpace).reverse.dropWhile isControlOrSpace).reverse

/-- A text without its tabs and line breaks. -/
def unbroken (cs : List Char) : List Char := cs.filter (!isTabOrNewline ·)

def clean (cs : List Char) : List Char := unbroken (trim cs)

/-! ## The scheme -/

def isAlpha (a : Char) : Bool :=
  (0x41 ≤ a.toNat && a.toNat ≤ 0x5A) || (0x61 ≤ a.toNat && a.toNat ≤ 0x7A)

def isSchemeChar (a : Char) : Bool :=
  isAlpha a || isDigit a || a = '+' || a = '-' || a = '.'

/-- The scheme before the first colon, in lower case, and what follows. -/
def parseScheme (cs : List Char) : Option (String × List Char) :=
  let rest := cs.dropWhile isSchemeChar
  if cs.head?.any isAlpha ∧ rest.head? = some ':' then
    let scheme := cs.takeWhile isSchemeChar
    some (String.ofList (scheme.map Char.toLower), rest.tail)
  else none

/-- The special schemes but `file`, whose URLs are read another way. -/
def specialSchemes : List String := ["http", "https", "ws", "wss", "ftp"]

/-! ## The authority -/

def isSlash (a : Char) : Bool := a = '/' || a = '\\'

def endsAuthority (a : Char) : Bool := isSlash a || a = '?' || a = '#'

/-- The authority behind slashes and backslashes, however many. -/
def authority (cs : List Char) : List Char :=
  (cs.dropWhile isSlash).takeWhile (!endsAuthority ·)

def afterAuthority (cs : List Char) : List Char :=
  (cs.dropWhile isSlash).dropWhile (!endsAuthority ·)

/-- The userinfo before the last at sign, and the host and port after it. -/
def splitUserinfo : List Char → List Char × List Char
  | [] => ([], [])
  | a :: cs =>
      if '@' ∈ cs then (a :: (splitUserinfo cs).1, (splitUserinfo cs).2)
      else if a = '@' then ([], cs)
      else ([], a :: cs)

/-- The host, and the port after the first colon that is not in brackets. -/
def splitPort : Bool → List Char → List Char × List Char
  | _, [] => ([], [])
  | inside, a :: cs =>
      if a = ':' ∧ inside = false then ([], cs)
      else
        let inside :=
          if a = '[' then true else if a = ']' then false else inside
        (a :: (splitPort inside cs).1, (splitPort inside cs).2)

/-- A port may be empty. -/
def isPort (cs : List Char) : Bool :=
  cs.all isDigit && cs.foldl (fun n a => n * 10 + (a.toNat - 0x30)) 0 ≤ 65535

def username (userinfo : List Char) : String :=
  percentEncode userinfoSet (userinfo.takeWhile (· ≠ ':'))

/-- An empty password counts as none. -/
def password (userinfo : List Char) : Option String :=
  let cs := (userinfo.dropWhile (· ≠ ':')).tail
  if cs = [] then none else some (percentEncode userinfoSet cs)

def fragment (cs : List Char) : Option String :=
  let rest := cs.dropWhile (· ≠ '#')
  if rest = [] then none else some (percentEncode fragmentSet rest.tail)

/-- What follows a special scheme. -/
def parseSpecial (S : Steps) (cs : List Char) : Option Parts := do
  let userinfo := splitUserinfo (authority cs)
  let host := splitPort false userinfo.2
  guard (host.1 ≠ [] ∧ isPort host.2)
  let h ← HostParser.parse S.toSteps (String.ofList host.1)
  return {
    username := username userinfo.1
    password := password userinfo.1
    hostStr := some (showHost S h)
    fragment := fragment (afterAuthority cs) }

def parseParts (S : Steps) (scheme : String) (cs : List Char) : Option Parts :=
  if scheme ∈ specialSchemes then parseSpecial S cs else S.parseOther scheme cs

/-- `Url::parse` -/
def parse (S : Steps) (input : String) : Option Url := do
  let scheme ← parseScheme (clean input.toList)
  let parts ← parseParts S scheme.1 scheme.2
  return { parts with scheme := scheme.1 }

/-! ## Cleaned texts -/

theorem mem_of_mem_clean {a : Char} {cs : List Char} (h : a ∈ clean cs) :
    a ∈ cs := by
  have htrim := List.mem_of_mem_filter h
  rw [trim, List.mem_reverse] at htrim
  have hback := (List.dropWhile_suffix _).mem htrim
  rw [List.mem_reverse] at hback
  exact (List.dropWhile_suffix _).mem hback

theorem unbroken_append (l r : List Char) :
    unbroken (l ++ r) = unbroken l ++ unbroken r :=
  List.filter_append l r

theorem unbroken_eq_self {cs : List Char}
    (h : ∀ a ∈ cs, isTabOrNewline a = false) : unbroken cs = cs := by
  rw [unbroken, List.filter_eq_self]
  intro a ha
  rw [h a ha]
  rfl

/-- The beginning of a text is not trimmed up to a character that is kept. -/
theorem clean_append {l r : List Char} {b : Char}
    (hhead : ∀ a, (l ++ [b]).head? = some a → isControlOrSpace a = false)
    (hb : isControlOrSpace b = false) :
    ∃ k, clean (l ++ b :: r) = unbroken (l ++ b :: k) := by
  have hfront : (l ++ b :: r).dropWhile isControlOrSpace = l ++ b :: r := by
    cases l with
    | nil => exact List.dropWhile_cons_of_neg (by simp [hb])
    | cons a l =>
        have ha := hhead a rfl
        exact List.dropWhile_cons_of_neg (by simp [ha])
  have hkept : (b :: l.reverse).dropWhile isControlOrSpace = b :: l.reverse :=
    List.dropWhile_cons_of_neg (by simp [hb])
  have hreverse : (l ++ b :: r).reverse = r.reverse ++ b :: l.reverse := by
    simp
  refine ⟨(r.reverse.dropWhile isControlOrSpace).reverse, ?_⟩
  rw [clean, trim, hfront, hreverse, List.dropWhile_append, hkept]
  split_ifs with hnone
  · rw [List.isEmpty_iff] at hnone
    rw [hnone]
    simp
  · simp

/-! ## Parsed texts -/

theorem of_parseScheme {cs rest : List Char} {scheme : String}
    (h : parseScheme cs = some (scheme, rest)) :
    ∃ s, cs = s ++ ':' :: rest ∧ ':' ∉ s ∧
      scheme = String.ofList (s.map Char.toLower) := by
  simp only [parseScheme] at h
  split_ifs at h with hscheme
  rw [Option.some.injEq, Prod.mk.injEq] at h
  obtain ⟨rfl, rfl⟩ := h
  refine ⟨cs.takeWhile isSchemeChar, ?_, ?_, rfl⟩
  · have hrest := List.cons_head?_tail hscheme.2
    rw [hrest, List.takeWhile_append_dropWhile]
  · intro hcolon
    have hall : ∀ a ∈ cs.takeWhile isSchemeChar, isSchemeChar a = true :=
      List.all_eq_true.mp List.all_takeWhile
    exact absurd (hall _ hcolon) (by decide)

theorem of_parse {S : Steps} {input : String} {url : Url}
    (h : parse S input = some url) (hscheme : url.scheme ∈ specialSchemes) :
    ∃ s rest, clean input.toList = s ++ ':' :: rest ∧ ':' ∉ s ∧
      url.scheme = String.ofList (s.map Char.toLower) ∧
      parseSpecial S rest = some url.toParts := by
  simp only [parse, Option.bind_eq_bind, Option.bind_eq_some_iff,
    Option.pure_def, Option.some.injEq] at h
  obtain ⟨⟨scheme, rest⟩, hparse, parts, hparts, rfl⟩ := h
  obtain ⟨s, hclean, hcolon, hlower⟩ := of_parseScheme hparse
  rw [parseParts, if_pos hscheme] at hparts
  exact ⟨s, rest, hclean, hcolon, hlower, hparts⟩

theorem parseSpecial_slash (S : Steps) {a : Char} (ha : isSlash a = true)
    (cs : List Char) : parseSpecial S (a :: cs) = parseSpecial S cs := by
  have hdrop : (a :: cs).dropWhile isSlash = cs.dropWhile isSlash :=
    List.dropWhile_cons_of_pos ha
  rw [parseSpecial, parseSpecial, authority, afterAuthority, hdrop]
  rfl

/-! ## The userinfo -/

theorem percentByte_ne_nil (b : UInt8) : percentByte b ≠ [] :=
  List.cons_ne_nil _ _

theorem percentEncode_eq_empty {set : Char → Bool} {cs : List Char}
    (h : percentEncode set cs = "") : cs = [] := by
  by_contra hne
  obtain ⟨a, cs, rfl⟩ := List.exists_cons_of_ne_nil hne
  have hnil := congrArg String.toList h
  rw [percentEncode, String.toList_ofList, List.flatMap_cons,
    String.toList_empty, List.append_eq_nil_iff] at hnil
  have hfirst := hnil.1
  split_ifs at hfirst with ha
  rw [List.flatMap_eq_nil_iff] at hfirst
  have hbytes : Utf8.encode [a] ≠ [] := by
    intro hempty
    have hdecode := Utf8.decode_encode [a]
    rw [hempty] at hdecode
    cases hdecode
  obtain ⟨b, bs, hbs⟩ := List.exists_cons_of_ne_nil hbytes
  exact percentByte_ne_nil b (hfirst b (by simp [hbs]))

/-- Without a username and a password there is at most a colon. -/
theorem userinfo_eq {userinfo : List Char} (hname : username userinfo = "")
    (hpassword : password userinfo = none) :
    userinfo = [] ∨ userinfo = [':'] := by
  have htake := percentEncode_eq_empty hname
  cases userinfo with
  | nil => exact .inl rfl
  | cons a cs =>
      have ha : a = ':' := by
        by_contra hne
        rw [List.takeWhile_cons_of_pos (by simpa using hne)] at htake
        exact List.cons_ne_nil _ _ htake
      subst ha
      have hcs : cs = [] := by
        by_contra hne
        have hdrop : (':' :: cs).dropWhile (· ≠ ':') = ':' :: cs :=
          List.dropWhile_cons_of_neg (by simp)
        rw [password, hdrop, List.tail_cons, if_neg hne] at hpassword
        cases hpassword
      exact .inr (by rw [hcs])

/-- What stands before an at sign belongs to the userinfo. -/
theorem prefix_splitUserinfo (u v : List Char) :
    u <+: (splitUserinfo (u ++ '@' :: v)).1 := by
  induction u with
  | nil => exact List.nil_prefix
  | cons a u ih =>
      have hat : '@' ∈ u ++ '@' :: v := by simp
      rw [List.cons_append, splitUserinfo, if_pos hat]
      exact (List.prefix_cons_inj a).mpr ih

theorem authority_append {u : List Char}
    (hu : ∀ a ∈ u, endsAuthority a = false) (v : List Char) :
    authority (u ++ '@' :: v) =
      u ++ '@' :: v.takeWhile (!endsAuthority ·) := by
  have hslash : ∀ a ∈ u ++ ['@'], isSlash a = false := by
    intro a ha
    rw [List.mem_append, List.mem_singleton] at ha
    rcases ha with ha | rfl
    · have hends := hu a ha
      simp only [endsAuthority, Bool.or_eq_false_iff] at hends
      exact hends.1.1
    · rfl
  have hdrop : (u ++ '@' :: v).dropWhile isSlash = u ++ '@' :: v := by
    cases u with
    | nil => rfl
    | cons a u =>
        have ha := hslash a (by simp)
        exact List.dropWhile_cons_of_neg (by simp [ha])
  have hat : ('@' :: v).takeWhile (!endsAuthority ·) =
      '@' :: v.takeWhile (!endsAuthority ·) :=
    List.takeWhile_cons_of_pos rfl
  rw [authority, hdrop, List.takeWhile_append_of_pos (by simpa using hu), hat]

/-- Where a URL has neither username nor password, what stands before an at
sign in its authority is nothing but a colon. -/
theorem before_at_sign {S : Steps} {u v : List Char} {parts : Parts}
    (h : parseSpecial S (u ++ '@' :: v) = some parts)
    (hu : ∀ a ∈ u, endsAuthority a = false) (hname : parts.username = "")
    (hpassword : parts.password = none) : u = [] ∨ u = [':'] := by
  simp only [parseSpecial, Option.bind_eq_bind, Option.bind_eq_some_iff,
    Option.pure_def, Option.some.injEq] at h
  obtain ⟨_, _, _, _, rfl⟩ := h
  have hpre := prefix_splitUserinfo u (v.takeWhile (!endsAuthority ·))
  rw [← authority_append hu] at hpre
  rcases userinfo_eq hname hpassword with hnone | hcolon
  · rw [hnone, List.prefix_nil] at hpre
    exact .inl hpre
  · rw [hcolon, List.prefix_cons_iff] at hpre
    rcases hpre with hnil | ⟨w, rfl, hw⟩
    · exact .inl hnil
    · rw [List.prefix_nil] at hw
      exact .inr (by rw [hw])

end UrlParser
