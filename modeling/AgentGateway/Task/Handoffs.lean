import AgentGateway.Config.HandoffHosts
import AgentGateway.Library.UrlParser
import AgentGateway.Task.Publishable

/-!
# Handoffs

The checks that `validate_handoff` makes before a task is handed to a page of
an allowed host, against the part of the published schema about handoffs.
-/

namespace AgentGateway.Task

open Json (Value Schema)
open UrlParser (Steps Url isControlOrSpace isTabOrNewline unbroken)

/-! ## The published schema -/

namespace Contracts

open AgentGateway.Contracts (text)

/-- `[^/?#]*@` at the beginning of a text. -/
def reachesAt : List Char → Bool
  | [] => false
  | a :: cs => a = '@' || (a ∉ ['/', '?', '#'] && reachesAt cs)

/-- `^https://(?![^/?#]*@)` -/
def urlPattern (cs : List Char) : Bool :=
  "https://".toList.isPrefixOf cs && !reachesAt (cs.drop 8)

/-- `handoff` of `room-event.schema.json`, but for the pattern of its URL. -/
def handoff : Schema :=
  .object
    [("instruction", text 1 (some 2000)),
      ("url", .string 0 none (some .uri) none), ("host", text 1 (some 253)),
      ("expiresAt", .string 0 none (some .dateTime) none)]
    ["instruction", "url", "host", "expiresAt"] []

/-- The schema with the pattern; the validator checks formats as well. -/
def validHandoff (isFormat : Json.Format → String → Bool) (v : Value) : Bool :=
  handoff.valid isFormat v &&
    ((v.get? "url").bind Value.asStr?).all fun url => urlPattern url.toList

theorem reachesAt_iff {cs : List Char} : reachesAt cs = true ↔
    ∃ u v, cs = u ++ '@' :: v ∧ ∀ a ∈ u, a ∉ ['/', '?', '#'] := by
  induction cs with
  | nil => simp [reachesAt]
  | cons b cs ih =>
      rw [reachesAt, Bool.or_eq_true, Bool.and_eq_true, ih, decide_eq_true_eq,
        decide_eq_true_eq]
      constructor
      · rintro (rfl | ⟨hb, u, v, rfl, hu⟩)
        · exact ⟨[], cs, rfl, by simp⟩
        · refine ⟨b :: u, v, rfl, fun a ha => ?_⟩
          rcases List.mem_cons.mp ha with rfl | ha
          · exact hb
          · exact hu a ha
      · rintro ⟨u, v, hcs, hu⟩
        cases u with
        | nil =>
            rw [List.nil_append, List.cons.injEq] at hcs
            exact .inl hcs.1
        | cons a u =>
            rw [List.cons_append, List.cons.injEq] at hcs
            obtain ⟨rfl, rfl⟩ := hcs
            exact .inr ⟨hu b (by simp), u, v, rfl,
              fun a ha => hu a (by simp [ha])⟩

theorem urlPattern_iff {cs : List Char} : urlPattern cs = true ↔
    ∃ r, cs = "https".toList ++ ':' :: '/' :: '/' :: r ∧
      reachesAt r = false := by
  rw [urlPattern, Bool.and_eq_true, List.isPrefixOf_iff_prefix,
    Bool.not_eq_true']
  constructor
  · rintro ⟨⟨r, rfl⟩, hreach⟩
    exact ⟨r, rfl, hreach⟩
  · rintro ⟨r, rfl, hreach⟩
    exact ⟨⟨r, rfl⟩, hreach⟩

end Contracts

/-! ## Handoffs -/

/-- A handoff; its revision is an `i64`. -/
structure Handoff where
  taskId : Uuid
  contextRevision : ℤ
  instruction : String
  url : String
  host : String
  expiresAt : DateTime
  revision_range : -2 ^ 63 ≤ contextRevision ∧ contextRevision < 2 ^ 63

inductive UpdateValidationError where
  | invalidResult
  | handoffBindingMismatch
  | invalidHandoffInstruction
  | invalidHandoffUrl
  | unregisteredHandoffHost
  | expiredHandoff
deriving DecidableEq

def toAsciiLowercase (s : String) : String :=
  String.ofList (s.toList.map Char.toLower)

def validateHandoff (S : Steps) (packet : RoomContextPacket)
    (allowedHosts : StringSet) (handoff : Handoff) (now : DateTime) :
    Except UpdateValidationError Unit :=
  let trimmed := Split.trim handoff.instruction.toList
  if handoff.taskId ≠ packet.taskId ∨
      handoff.contextRevision ≠ packet.contextRevision then
    .error .handoffBindingMismatch
  else if trimmed = [] ∨ handoff.instruction.toList ≠ trimmed ∨
      2000 < handoff.instruction.utf8ByteSize then
    .error .invalidHandoffInstruction
  else if handoff.expiresAt ≤ now ∨ packet.expiresAt ≤ now then
    .error .expiredHandoff
  else match UrlParser.parse S handoff.url with
    | none => .error .invalidHandoffUrl
    | some url =>
        if url.scheme ≠ "https" ∨ url.username ≠ "" ∨ url.password.isSome ∨
            url.fragment.isSome then .error .invalidHandoffUrl
        else match url.hostStr with
          | none => .error .invalidHandoffUrl
          | some urlHost =>
              let host := toAsciiLowercase handoff.host
              if host ≠ handoff.host ∨ urlHost ≠ host ∨
                  host ∉ allowedHosts then .error .unregisteredHandoffHost
              else .ok ()

/-- What a URL that a handoff may name satisfies. -/
structure AllowedUrl (S : Steps) (input host : String) (url : Url) :
    Prop where
  parse : UrlParser.parse S input = some url
  scheme : url.scheme = "https"
  username : url.username = ""
  password : url.password = none
  fragment : url.fragment = none
  host : url.hostStr = some host

/-- What a handoff that passes validation satisfies. -/
structure AllowedHandoff (S : Steps) (packet : RoomContextPacket)
    (allowedHosts : StringSet) (handoff : Handoff) (now : DateTime) :
    Prop where
  task : handoff.taskId = packet.taskId
  revision : handoff.contextRevision = packet.contextRevision
  instruction : handoff.instruction.toList ≠ []
  trimmed : Split.trim handoff.instruction.toList = handoff.instruction.toList
  short : handoff.instruction.utf8ByteSize ≤ 2000
  fresh : now < handoff.expiresAt
  packet_fresh : now < packet.expiresAt
  url : ∃ url, AllowedUrl S handoff.url handoff.host url
  lowercase : toAsciiLowercase handoff.host = handoff.host
  host : handoff.host ∈ allowedHosts

section Validation

variable {S : Steps} {packet : RoomContextPacket} {allowedHosts : StringSet}
  {handoff : Handoff} {now : DateTime}

theorem validateHandoff_eq_ok :
    validateHandoff S packet allowedHosts handoff now = .ok () ↔
      AllowedHandoff S packet allowedHosts handoff now := by
  constructor
  · intro h
    simp only [validateHandoff] at h
    split_ifs at h with hbinding hinstruction hexpired
    simp only [not_or, not_not, not_lt, not_le]
      at hbinding hinstruction hexpired
    obtain ⟨htask, hrevision⟩ := hbinding
    obtain ⟨hne, htrim, hshort⟩ := hinstruction
    obtain ⟨hfresh, hpacket⟩ := hexpired
    rw [← htrim] at hne
    cases hparse : UrlParser.parse S handoff.url with
    | none => simp [hparse] at h
    | some url =>
        simp only [hparse] at h
        split_ifs at h with hurl
        simp only [not_or, not_not, Bool.not_eq_true,
          Option.isSome_eq_false_iff, Option.isNone_iff_eq_none] at hurl
        obtain ⟨hscheme, husername, hpassword, hfragment⟩ := hurl
        cases hhost : url.hostStr with
        | none => simp [hhost] at h
        | some urlHost =>
            simp only [hhost] at h
            split_ifs at h with hregistered
            simp only [not_or, not_not] at hregistered
            obtain ⟨hlower, hequal, hmem⟩ := hregistered
            rw [hlower] at hequal hmem
            have hallowed : AllowedUrl S handoff.url handoff.host url :=
              ⟨hparse, hscheme, husername, hpassword, hfragment,
                hequal ▸ hhost⟩
            exact ⟨htask, hrevision, hne, htrim.symm, hshort, hfresh,
              hpacket, ⟨url, hallowed⟩, hlower, hmem⟩
  · intro h
    obtain ⟨url, hurl⟩ := h.url
    have hfresh := not_le.mpr h.fresh
    have hpacket := not_le.mpr h.packet_fresh
    have hshort := not_lt.mpr h.short
    simp [validateHandoff, h.task, h.revision, h.trimmed, h.lowercase, h.host,
      h.instruction, hfresh, hpacket, hshort, hurl.parse, hurl.scheme,
      hurl.username, hurl.password, hurl.fragment, hurl.host]

/-! ## Handoffs as JSON -/

/-- The handoff in the payload of an event; the task and its revision stand
beside it there. -/
def Handoff.value (F : Formats) (h : Handoff) : Value :=
  .object [("instruction", .str h.instruction), ("url", .str h.url),
    ("host", .str h.host), ("expiresAt", .str (F.showTime h.expiresAt))]

theorem Handoff.value_eq (F : Formats) (h : Handoff) : h.value F =
    .obj [("expiresAt", .str (F.showTime h.expiresAt)), ("host", .str h.host),
      ("instruction", .str h.instruction), ("url", .str h.url)] := by
  simp +decide [Handoff.value, Value.object, Value.insertField]

/-- The bounds of a handoff, in characters. -/
structure Handoff.Bounded (h : Handoff) : Prop where
  instruction : 1 ≤ h.instruction.toList.length ∧
    h.instruction.toList.length ≤ 2000
  host : 1 ≤ h.host.toList.length ∧ h.host.toList.length ≤ 253

/-- The formats of a handoff. -/
structure Handoff.Formatted (isFormat : Json.Format → String → Bool)
    (F : Formats) (h : Handoff) : Prop where
  url : isFormat .uri h.url = true
  expiresAt : isFormat .dateTime (F.showTime h.expiresAt) = true

theorem validHandoff_value_iff {isFormat : Json.Format → String → Bool}
    {F : Formats} {h : Handoff} :
    Contracts.validHandoff isFormat (h.value F) = true ↔
      (h.Bounded ∧ h.Formatted isFormat F) ∧
        Contracts.urlPattern h.url.toList = true := by
  have hschema : Contracts.handoff.valid isFormat (h.value F) = true ↔
      h.Bounded ∧ h.Formatted isFormat F := by
    rw [Handoff.value_eq]
    constructor
    · intro hvalid
      simp [Contracts.handoff, Schema.valid, Schema.validField,
        Schema.keysPresent, Schema.hasKey, Value.lookup_cons,
        AgentGateway.Contracts.text, Schema.stringValid] at hvalid
      obtain ⟨hexpires, hhost, hinstruction, hurl⟩ := hvalid
      exact ⟨⟨hinstruction, hhost⟩, hurl, hexpires⟩
    · rintro ⟨hbounded, hformatted⟩
      have hinstruction := hbounded.instruction
      have hhost := hbounded.host
      have hurl := hformatted.url
      have hexpires := hformatted.expiresAt
      simp [Contracts.handoff, Schema.valid, Schema.validField,
        Schema.keysPresent, Schema.hasKey, Value.lookup_cons,
        AgentGateway.Contracts.text, Schema.stringValid, *]
  have hurl : ((h.value F).get? "url").bind Value.asStr? = some h.url := by
    rw [Handoff.value_eq]
    rfl
  rw [Contracts.validHandoff, Bool.and_eq_true, hschema, hurl,
    Option.all_some]

/-! ## Spellings -/

/-- The spellings that the parser puts right, and the at signs that it passes
over. -/
inductive Irregular : List Char → Prop
  /-- A control character or a space in front. -/
  | front {a : Char} {cs : List Char} : isControlOrSpace a = true →
      Irregular (a :: cs)
  /-- A capital letter, a tab or a line break in the scheme. -/
  | scheme {s cs : List Char} {a : Char} : ':' ∉ s → a ∈ s →
      a.isUpper = true ∨ isTabOrNewline a = true → Irregular (s ++ ':' :: cs)
  /-- A scheme without two slashes behind its colon. -/
  | slashes {s cs : List Char} : ':' ∉ s → ¬['/', '/'] <+: cs →
      Irregular (s ++ ':' :: cs)
  /-- An at sign behind an empty userinfo, or behind a lone colon. -/
  | userinfo {s u cs : List Char} : ':' ∉ s →
      unbroken u = [] ∨ unbroken u = [':'] →
      Irregular (s ++ ':' :: '/' :: '/' :: (u ++ '@' :: cs))
  /-- An at sign in the path, which a backslash has begun. -/
  | backslash {s u cs : List Char} : ':' ∉ s → '\\' ∈ u →
      (∀ a ∈ u, a ∉ ['/', '?', '#']) →
      Irregular (s ++ ':' :: '/' :: '/' :: (u ++ '@' :: cs))

theorem not_mem_ends_of_unbroken {u : List Char}
    (h : unbroken u = [] ∨ unbroken u = [':']) :
    ∀ a ∈ u, a ∉ ['/', '?', '#'] := by
  intro a ha hends
  have hkept : isTabOrNewline a = false := by
    simp only [List.mem_cons, List.not_mem_nil, or_false] at hends
    rcases hends with rfl | rfl | rfl <;> rfl
  have hmem : a ∈ unbroken u := List.mem_filter.mpr ⟨ha, by rw [hkept]; rfl⟩
  rcases h with h | h
  · rw [h] at hmem
    cases hmem
  · rw [h, List.mem_singleton] at hmem
    subst hmem
    exact absurd hends (by decide)

theorem toList_https : "https".toList = ['h', 't', 't', 'p', 's'] := by
  decide

theorem https_regular : ∀ a ∈ "https".toList,
    a.isUpper = false ∧ isTabOrNewline a = false := by
  rw [toList_https]
  intro a ha
  simp only [List.mem_cons, List.not_mem_nil, or_false] at ha
  rcases ha with rfl | rfl | rfl | rfl | rfl <;> exact ⟨rfl, rfl⟩

/-- The pattern refuses every irregular spelling. -/
theorem not_irregular_of_urlPattern {cs : List Char}
    (h : Contracts.urlPattern cs = true) : ¬Irregular cs := by
  obtain ⟨r, hr, hreach⟩ := Contracts.urlPattern_iff.mp h
  have hcolon : ':' ∉ "https".toList := by decide
  have hat : ∀ u v, (∀ a ∈ u, a ∉ ['/', '?', '#']) → r ≠ u ++ '@' :: v := by
    intro u v hu hsplit
    have htrue := Contracts.reachesAt_iff.mpr ⟨u, v, hsplit, hu⟩
    rw [hreach] at htrue
    cases htrue
  intro hirregular
  cases hirregular with
  | @front a cs hcontrol =>
      obtain rfl : a = 'h' := (List.cons.inj hr).1
      exact absurd hcontrol (by decide)
  | scheme hs ha hbad =>
      obtain ⟨rfl, _⟩ := Split.append_cons_unique hs hcolon hr
      obtain ⟨hupper, hbreak⟩ := https_regular _ ha
      rcases hbad with hbad | hbad
      · exact absurd hbad (by rw [hupper]; decide)
      · exact absurd hbad (by rw [hbreak]; decide)
  | slashes hs hslashes =>
      obtain ⟨_, rfl⟩ := Split.append_cons_unique hs hcolon hr
      exact hslashes ⟨r, rfl⟩
  | @userinfo s u cs hs hu =>
      obtain ⟨_, htail⟩ := Split.append_cons_unique hs hcolon hr
      rw [List.cons.injEq, List.cons.injEq] at htail
      exact hat u cs (not_mem_ends_of_unbroken hu) htail.2.2.symm
  | @backslash s u cs hs hback hu =>
      obtain ⟨_, htail⟩ := Split.append_cons_unique hs hcolon hr
      rw [List.cons.injEq, List.cons.injEq] at htail
      exact hat u cs hu htail.2.2.symm

theorem regular_scheme {s cs : List Char} (h : ¬Irregular (s ++ ':' :: cs))
    (hs : ':' ∉ s) : ∀ a ∈ s, a.isUpper = false ∧ isTabOrNewline a = false := by
  intro a ha
  constructor
  · by_contra hupper
    rw [Bool.not_eq_false] at hupper
    exact h (.scheme hs ha (.inl hupper))
  · by_contra hbreak
    rw [Bool.not_eq_false] at hbreak
    exact h (.scheme hs ha (.inr hbreak))

/-- What the parser reads of a regular spelling up to a character behind the
scheme. -/
theorem clean_regular {s u r : List Char} {b : Char}
    (hregular : ¬Irregular (s ++ ':' :: (u ++ b :: r))) (hs : ':' ∉ s)
    (hb : isControlOrSpace b = false) :
    ∃ k, UrlParser.clean (s ++ ':' :: (u ++ b :: r)) =
      s ++ ':' :: unbroken (u ++ b :: k) := by
  have hhead : ∀ a, (s ++ ':' :: u ++ [b]).head? = some a →
      isControlOrSpace a = false := by
    intro a ha
    by_contra hcontrol
    rw [Bool.not_eq_false] at hcontrol
    have hfront : (s ++ ':' :: (u ++ b :: r)).head? = some a := by
      cases s with
      | nil => exact ha
      | cons c s => exact ha
    apply hregular
    rw [← List.cons_head?_tail hfront]
    exact .front hcontrol
  have hunbroken : unbroken s = s :=
    UrlParser.unbroken_eq_self fun a ha => (regular_scheme hregular hs a ha).2
  obtain ⟨k, hk⟩ := UrlParser.clean_append (r := r) hhead hb
  rw [List.append_assoc, List.cons_append, List.append_assoc, List.cons_append,
    UrlParser.unbroken_append, hunbroken] at hk
  exact ⟨k, hk⟩

/-- A text up to an at sign that the pattern reaches, without backslashes,
lies in the authority. -/
theorem endsAuthority_eq_false {u : List Char} (hback : '\\' ∉ u)
    (hu : ∀ a ∈ u, a ∉ ['/', '?', '#']) :
    ∀ a ∈ unbroken u, UrlParser.endsAuthority a = false := by
  intro a ha
  have hmem := List.mem_of_mem_filter ha
  have hends := hu a hmem
  have hne : a ≠ '\\' := by
    rintro rfl
    exact hback hmem
  simp only [List.mem_cons, List.not_mem_nil, or_false, not_or] at hends
  simp [UrlParser.endsAuthority, UrlParser.isSlash, hends, hne]

/-- A regular spelling begins with the scheme and two slashes, and the parser
reads on behind them. -/
theorem read_regular {input : String} {url : Url}
    (h : UrlParser.parse S input = some url)
    (hspecial : url.scheme ∈ UrlParser.specialSchemes)
    (hregular : ¬Irregular input.toList) :
    ∃ r, input.toList = url.scheme.toList ++ ':' :: '/' :: '/' :: r ∧
      ∀ u v, r = u ++ '@' :: v →
        ∃ k, UrlParser.parseSpecial S (unbroken u ++ '@' :: k) =
          some url.toParts := by
  obtain ⟨s', rest, hclean, hs', hlower, hparts⟩ :=
    UrlParser.of_parse h hspecial
  have hcolon : ':' ∈ input.toList := by
    apply UrlParser.mem_of_mem_clean
    rw [hclean]
    simp
  obtain ⟨s, cs, hinput, hs⟩ := List.eq_append_cons_of_mem hcolon
  rw [hinput] at hregular hclean ⊢
  obtain ⟨r, rfl⟩ : ['/', '/'] <+: cs := by
    by_contra hslashes
    exact hregular (.slashes hs hslashes)
  have hread : ∀ {u v : List Char} {b : Char}, '/' :: '/' :: r = u ++ b :: v →
      isControlOrSpace b = false →
        s' = s ∧ ∃ k, rest = unbroken (u ++ b :: k) := by
    intro u v b hsplit hb
    have htext : ['/', '/'] ++ r = u ++ b :: v := hsplit
    rw [htext] at hregular hclean
    obtain ⟨k, hk⟩ := clean_regular hregular hs hb
    rw [hk] at hclean
    obtain ⟨hsame, hrest⟩ := Split.append_cons_unique hs hs' hclean
    exact ⟨hsame.symm, k, hrest.symm⟩
  -- The scheme that is read is the text before the first colon.
  obtain rfl : s' = s := (hread (u := ['/']) rfl rfl).1
  have hcase : s'.map Char.toLower = s' := by
    have hsame : ∀ a ∈ s', a.toLower = id a := by
      intro a ha
      have hupper := (regular_scheme hregular hs a ha).1
      exact Char.toLower_eq_of_not_isUpper (by simp [hupper])
    rw [List.map_congr_left hsame, List.map_id]
  refine ⟨r, by rw [hlower, String.toList_ofList, hcase]; rfl, ?_⟩
  rintro u v rfl
  obtain ⟨_, k, rfl⟩ := hread (u := '/' :: '/' :: u) (b := '@') rfl rfl
  have hrest : unbroken ('/' :: '/' :: u ++ '@' :: k) =
      '/' :: '/' :: (unbroken u ++ '@' :: unbroken k) := by
    rw [UrlParser.unbroken_append]
    rfl
  rw [hrest, UrlParser.parseSpecial_slash S rfl,
    UrlParser.parseSpecial_slash S rfl] at hparts
  exact ⟨unbroken k, hparts⟩

/-- A regular spelling of an HTTPS URL without userinfo fits the pattern. -/
theorem urlPattern_of_regular {input host : String} {url : Url}
    (h : AllowedUrl S input host url) (hregular : ¬Irregular input.toList) :
    Contracts.urlPattern input.toList = true := by
  have hspecial : url.scheme ∈ UrlParser.specialSchemes := by
    rw [h.scheme]
    decide
  have hcolon : ':' ∉ "https".toList := by decide
  obtain ⟨r, hinput, hread⟩ := read_regular h.parse hspecial hregular
  rw [h.scheme] at hinput
  rw [hinput] at hregular
  apply Contracts.urlPattern_iff.mpr
  refine ⟨r, hinput, ?_⟩
  by_contra hreach
  rw [Bool.not_eq_false, Contracts.reachesAt_iff] at hreach
  obtain ⟨u, v, rfl, hu⟩ := hreach
  by_cases hback : '\\' ∈ u
  · exact hregular (.backslash hcolon hback hu)
  · obtain ⟨k, hparts⟩ := hread u v rfl
    have hends := endsAuthority_eq_false hback hu
    have hnone := UrlParser.before_at_sign hparts hends h.username h.password
    exact hregular (.userinfo hcolon hnone)

/-! ## Allowed handoffs -/

theorem bounded_of_allowed {value : String}
    (hhosts : Config.parseHandoffHosts value = some allowedHosts)
    (h : AllowedHandoff S packet allowedHosts handoff now) :
    handoff.Bounded := by
  have haccepted := Config.accepted_of_parse hhosts h.host
  have hcanonical := haccepted.canonical
  simp only [Config.isCanonicalHost, Bool.and_eq_true, decide_eq_true_eq]
    at hcanonical
  have hshort := hcanonical.1.1.1.1
  constructor
  · constructor
    · exact List.length_pos_of_ne_nil h.instruction
    · exact (length_le_utf8ByteSize _).trans h.short
  · constructor
    · apply List.length_pos_of_ne_nil
      exact mt String.toList_eq_nil_iff.mp haccepted.ne_empty
    · exact (length_le_utf8ByteSize _).trans hshort

/-- A handoff that passes validation satisfies the schema if and only if its URL
has a regular spelling and, for the validator of the schema, is a URI and its
expiry is printed as a date and time. -/
theorem allowed_handoff_publishable_iff
    {isFormat : Json.Format → String → Bool} {F : Formats} {value : String}
    (hhosts : Config.parseHandoffHosts value = some allowedHosts)
    (h : validateHandoff S packet allowedHosts handoff now = .ok ()) :
    Contracts.validHandoff isFormat (handoff.value F) = true ↔
      ¬Irregular handoff.url.toList ∧ isFormat .uri handoff.url = true ∧
        isFormat .dateTime (F.showTime handoff.expiresAt) = true := by
  have hallowed := validateHandoff_eq_ok.mp h
  rw [validHandoff_value_iff]
  constructor
  · rintro ⟨⟨_, hformatted⟩, hpattern⟩
    exact ⟨not_irregular_of_urlPattern hpattern, hformatted.url,
      hformatted.expiresAt⟩
  · rintro ⟨hregular, huri, hexpires⟩
    obtain ⟨url, hurl⟩ := hallowed.url
    constructor
    · exact ⟨bounded_of_allowed hhosts hallowed, huri, hexpires⟩
    · exact urlPattern_of_regular hurl hregular

end Validation

/-! ## Sample handoffs -/

namespace Sample

/-- The URL crate on HTTPS URLs of ASCII domains in lower case. -/
def urlSteps : Steps where
  toSteps := Config.sampleSteps
  showIpv6 := fun _ => ""
  parseOther := fun _ _ => none

def handoffTo (url : String) : Handoff where
  taskId := packet.taskId
  contextRevision := packet.contextRevision
  instruction := "Complete the human confirmation."
  url := url
  host := "approved.example"
  expiresAt := toLex (1893456061, 0)
  revision_range := packet.revision_range

def handoff : Handoff :=
  handoffTo "https://approved.example/continue?token=opaque"

def approved : StringSet := StringSet.ofList ["approved.example"]

theorem parse_approved :
    Config.parseHandoffHosts "approved.example" = some approved := by
  decide +kernel

theorem validated_handoff :
    validateHandoff urlSteps packet approved handoff issued = .ok () := by
  decide +kernel

/-- A handoff whose URL has an empty userinfo. -/
def withUserinfo : Handoff := handoffTo "https://@approved.example/continue"

theorem validated_withUserinfo :
    validateHandoff urlSteps packet approved withUserinfo issued = .ok () := by
  decide +kernel

end Sample

theorem allowed_handoff_publishable_iff_sample :
    Contracts.validHandoff Reference.crates.isFormat
      (Sample.handoff.value Reference.formats) = true := by
  apply (allowed_handoff_publishable_iff Sample.parse_approved
    Sample.validated_handoff).mpr
  refine ⟨not_irregular_of_urlPattern ?_, ?_, ?_⟩
  · decide
  · decide +kernel
  · decide +kernel

/-- A URL with an empty userinfo is allowed, which the schema refuses. -/
theorem unpublishable_handoff : ¬∀ (value : String) (hosts : StringSet)
    (packet : RoomContextPacket) (handoff : Handoff) (now : DateTime),
    Config.parseHandoffHosts value = some hosts →
      validateHandoff Sample.urlSteps packet hosts handoff now = .ok () →
        Contracts.validHandoff Reference.crates.isFormat
          (handoff.value Reference.formats) = true := by
  intro h
  have hvalid := h _ _ _ _ _ Sample.parse_approved Sample.validated_withUserinfo
  have hpattern := (validHandoff_value_iff.mp hvalid).2
  have hrefused : Contracts.urlPattern Sample.withUserinfo.url.toList =
      false := by
    decide
  rw [hrefused] at hpattern
  cases hpattern

example : validateHandoff Sample.urlSteps Sample.packet Sample.approved
    (Sample.handoffTo " HTTPS:\\\\approved.example\\@") Sample.issued =
      .ok () := by
  decide +kernel

/-- A regular spelling of no URI. -/
example : validateHandoff Sample.urlSteps Sample.packet Sample.approved
    (Sample.handoffTo "https://approved.example/a b") Sample.issued = .ok () ∧
      Reference.crates.isFormat .uri "https://approved.example/a b" =
        false := by
  decide +kernel

end AgentGateway.Task
