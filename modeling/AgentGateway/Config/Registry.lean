import AgentGateway.Config.Startup
import Mathlib.Data.List.DropRight
import Mathlib.Data.List.Perm.Basic

/-!
# Discovery of the agent

The card of the reference agent: how the agent serves it, how the adapter reads
it, and which cards the pinned registration admits.
-/

namespace AgentGateway.Config

open Utf8 (Bytes)
open CatalogBridge (toStr isVisible bytesOf bearer)

/-! ## Cards -/

structure AgentInterface where
  url : String
  protocolBinding : String
  protocolVersion : String
deriving DecidableEq

structure AgentSkill where
  id : String
  name : String
  description : String
  tags : List String
  inputModes : Option (List String)
  outputModes : Option (List String)
deriving DecidableEq

structure AgentCard where
  name : String
  description : String
  version : String
  supportedInterfaces : List AgentInterface
  streaming : Option Bool
  pushNotifications : Option Bool
  defaultInputModes : List String
  defaultOutputModes : List String
  skills : List AgentSkill
deriving DecidableEq

def referenceAgentEndpoint : String := "http://127.0.0.1:9090/jsonrpc"

def jsonRpc : String := "JSONRPC"

def skill (id name description : String) : AgentSkill where
  id := id
  name := name
  description := description
  tags := ["deterministic", "room"]
  inputModes := some ["application/json"]
  outputModes := some ["application/json"]

/-- The card of the reference agent, with the protocol version of its
library. -/
def agentCard (version : String) : AgentCard where
  name := "Reference Agent"
  description := "Deterministic, packet-bound room task processor."
  version := version
  supportedInterfaces := [⟨referenceAgentEndpoint, jsonRpc, version⟩]
  streaming := some true
  pushNotifications := some false
  defaultInputModes := ["application/json"]
  defaultOutputModes := ["application/json"]
  skills :=
    [skill "extract-action-items" "Extract action items"
        "Extracts strictly formatted action items from the authorized task input.",
      skill "summarize-context" "Summarize context"
        "Summarizes authorized room metadata deterministically."]

/-! ## The registration -/

structure PinnedAgentRegistration (U : Urls) where
  id : BitVec 128
  displayName : String
  cardUrl : U.Url
  endpoint : U.Url
  binding : String
  protocolVersion : String
  allowedSkills : StringSet

structure RegisteredAgent (U : Urls) where
  id : BitVec 128
  displayName : String
  cardUrl : U.Url
  allowedSkills : StringSet
  allowedHandoffHosts : StringSet

inductive RegistryError where
  | identityDrift
  | skillDrift
  | endpointDrift
deriving DecidableEq

/-- `reference_registration`; its two URLs are expected to parse. -/
def referenceRegistration (U : Urls) : Option (PinnedAgentRegistration U) := do
  let cardUrl ← U.parse fixedReferenceAgentCardUrl
  let endpoint ← U.parse referenceAgentEndpoint
  return {
    id := 0x74686f756768746b686f72616c000003
    displayName := "Reference Agent"
    cardUrl := cardUrl
    endpoint := endpoint
    binding := jsonRpc
    protocolVersion := "1.0"
    allowedSkills := .ofList ["extract-action-items", "summarize-context"] }

variable {U : Urls}

/-- The agent that a registration stands for, without handoff hosts. -/
def PinnedAgentRegistration.agent (r : PinnedAgentRegistration U) :
    RegisteredAgent U where
  id := r.id
  displayName := r.displayName
  cardUrl := r.cardUrl
  allowedSkills := r.allowedSkills
  allowedHandoffHosts := .empty

/-- `RegisteredAgent::from_pinned_card` -/
def fromPinnedCard (r : PinnedAgentRegistration U) (card : AgentCard) :
    Except RegistryError (RegisteredAgent U) :=
  let cardSkills := StringSet.ofList (card.skills.map (·.id))
  if card.name ≠ r.displayName then .error .identityDrift
  else if cardSkills ≠ r.allowedSkills ∨
      card.skills.length ≠ cardSkills.elements.length then .error .skillDrift
  else match card.supportedInterfaces with
    | [interface] =>
        match U.parse interface.url with
        | none => .error .endpointDrift
        | some endpoint =>
            if endpoint ≠ r.endpoint ∨ interface.protocolBinding ≠ r.binding ∨
                interface.protocolVersion ≠ r.protocolVersion then
              .error .endpointDrift
            else .ok r.agent
    | _ => .error .endpointDrift

/-! ## The adapter's side -/

inductive A2aAdapterError where
  | emptyBearerSecret
  | invalidPacket
  | invalidResponse
  | transport
deriving DecidableEq

def maxAgentCardBytes : ℕ := 64 * 1024

/-- A response whose body comes in chunks, and may break off after them. -/
structure CardResponse where
  status : ℕ
  contentLength : Option ℕ
  chunks : List Bytes
  failed : Bool

/-- The loop over the chunks. -/
def readChunks (failed : Bool) :
    Bytes → List Bytes → Except A2aAdapterError Bytes
  | body, [] => if failed then .error .transport else .ok body
  | body, chunk :: chunks =>
      if body.length + chunk.length > maxAgentCardBytes then
        .error .invalidResponse
      else readChunks failed (body ++ chunk) chunks

/-- `resolve_pinned_card` of the adapter, once the request is sent. -/
def resolvePinnedCard (decodeCard : Bytes → Option AgentCard)
    (r : PinnedAgentRegistration U) (response : Option CardResponse) :
    Except A2aAdapterError (RegisteredAgent U) :=
  match response with
  | none => .error .transport
  | some response =>
      if ¬(200 ≤ response.status ∧ response.status < 300) then
        .error .transport
      else if response.contentLength.any (· > maxAgentCardBytes) then
        .error .invalidResponse
      else match readChunks response.failed [] response.chunks with
        | .error e => .error e
        | .ok body =>
            match decodeCard body with
            | none => .error .invalidResponse
            | some card =>
                match fromPinnedCard r card with
                | .error _ => .error .invalidResponse
                | .ok agent => .ok agent

/-! ## Cards that are admitted -/

/-- The skills of the card are those of the registration, each once. -/
structure Pinned (r : PinnedAgentRegistration U) (card : AgentCard) :
    Prop where
  name : card.name = r.displayName
  skills : (card.skills.map (·.id)).Perm r.allowedSkills.elements
  endpoint : ∃ interface, card.supportedInterfaces = [interface] ∧
    U.parse interface.url = some r.endpoint ∧
      interface.protocolBinding = r.binding ∧
        interface.protocolVersion = r.protocolVersion

theorem nodup_elements (A : StringSet) : A.elements.Nodup :=
  A.sorted.imp Json.Value.KeyLt.ne

theorem ofList_of_perm {ids : List String} {A : StringSet}
    (h : ids.Perm A.elements) : StringSet.ofList ids = A := by
  have hmem : ∀ t, t ∈ (StringSet.ofList ids).elements ↔ t ∈ A.elements := by
    intro t
    rw [← h.mem_iff]
    exact StringSet.mem_ofList
  have hperm := (List.perm_ext_iff_of_nodup (nodup_elements _)
    (nodup_elements A)).mpr hmem
  have helements : (StringSet.ofList ids).elements = A.elements :=
    hperm.eq_of_pairwise
      (fun a b _ _ hab hba => absurd hba (Json.Value.KeyLt.asymm hab))
      (StringSet.ofList ids).sorted A.sorted
  rw [← StringSet.ofList_elements (StringSet.ofList ids), helements,
    StringSet.ofList_elements]

/-- A list of skills has the members of a set, and none twice. -/
theorem ofList_eq_iff {ids : List String} {A : StringSet} :
    (StringSet.ofList ids = A ∧
      ids.length = (StringSet.ofList ids).elements.length) ↔
        ids.Perm A.elements := by
  constructor
  · rintro ⟨rfl, hlength⟩
    have hsubset : (StringSet.ofList ids).elements ⊆ ids := by
      intro t ht
      exact StringSet.mem_ofList.mp ht
    have hsubperm := List.subperm_of_subset (nodup_elements _) hsubset
    exact (hsubperm.perm_of_length_le hlength.le).symm
  · intro hperm
    rw [ofList_of_perm hperm]
    exact ⟨rfl, hperm.length_eq⟩

theorem fromPinnedCard_eq_ok {r : PinnedAgentRegistration U}
    {card : AgentCard} {agent : RegisteredAgent U} :
    fromPinnedCard r card = .ok agent ↔ Pinned r card ∧ agent = r.agent := by
  have hskills := @ofList_eq_iff (card.skills.map (·.id)) r.allowedSkills
  rw [List.length_map] at hskills
  constructor
  · intro h
    unfold fromPinnedCard at h
    dsimp only at h
    split_ifs at h with hname hset
    rw [not_not] at hname
    rw [not_or, not_not, not_not] at hset
    cases hinterfaces : card.supportedInterfaces with
    | nil => simp [hinterfaces] at h
    | cons interface more =>
        cases more with
        | cons => simp [hinterfaces] at h
        | nil =>
            cases hurl : U.parse interface.url with
            | none => simp [hinterfaces, hurl] at h
            | some endpoint =>
                simp only [hinterfaces, hurl] at h
                split_ifs at h with hdrift
                simp only [not_or, not_not] at hdrift
                obtain ⟨rfl, hbinding, hversion⟩ := hdrift
                exact ⟨⟨hname, hskills.mp hset, interface, hinterfaces, hurl,
                  hbinding, hversion⟩, (Except.ok.inj h).symm⟩
  · rintro ⟨⟨hname, hperm, interface, hinterfaces, hurl, hbinding, hversion⟩,
      rfl⟩
    obtain ⟨hset, hlength⟩ := hskills.mpr hperm
    simp [fromPinnedCard, hname, hset, hlength, hinterfaces, hurl, hbinding,
      hversion]

/-! ## Discovery -/

theorem readChunks_eq_ok {failed : Bool} {chunks : List Bytes}
    {body bytes : Bytes} (hbody : body.length ≤ maxAgentCardBytes) :
    readChunks failed body chunks = .ok bytes ↔ failed = false ∧
      bytes = body ++ chunks.flatten ∧ bytes.length ≤ maxAgentCardBytes := by
  induction chunks generalizing body with
  | nil =>
      cases failed with
      | true => simp [readChunks]
      | false =>
          rw [readChunks, List.flatten_nil, List.append_nil]
          constructor
          · rintro ⟨⟩
            exact ⟨rfl, rfl, hbody⟩
          · rintro ⟨-, rfl, -⟩
            rfl
  | cons chunk chunks ih =>
      rw [readChunks]
      by_cases hlong : body.length + chunk.length > maxAgentCardBytes
      · rw [if_pos hlong]
        constructor
        · rintro ⟨⟩
        · rintro ⟨-, rfl, hle⟩
          simp only [List.flatten_cons, List.length_append] at hle
          omega
      · rw [if_neg hlong, ih (by rw [List.length_append]; omega),
          List.flatten_cons, List.append_assoc]

/-- What is left to check of a response that arrived. -/
theorem resolvePinnedCard_eq_ok {decodeCard : Bytes → Option AgentCard}
    {r : PinnedAgentRegistration U} {served : CardResponse}
    {agent : RegisteredAgent U} :
    resolvePinnedCard decodeCard r (some served) = .ok agent ↔
      agent = r.agent ∧ (200 ≤ served.status ∧ served.status < 300) ∧
        (∀ n, served.contentLength = some n → n ≤ maxAgentCardBytes) ∧
        served.failed = false ∧
        served.chunks.flatten.length ≤ maxAgentCardBytes ∧
        ∃ card, decodeCard served.chunks.flatten = some card ∧
          Pinned r card := by
  constructor
  · intro h
    rw [resolvePinnedCard] at h
    split_ifs at h with hstatus hlength
    cases hbody : readChunks served.failed [] served.chunks with
    | error e => simp [hbody] at h
    | ok body =>
        rw [hbody] at h
        obtain ⟨hwhole, rfl, hshort⟩ :=
          (readChunks_eq_ok (Nat.zero_le _)).mp hbody
        rw [List.nil_append] at h hshort
        cases hcard : decodeCard served.chunks.flatten with
        | none => simp [hcard] at h
        | some card =>
            cases hagent : fromPinnedCard r card with
            | error e => simp [hcard, hagent] at h
            | ok found =>
                simp only [hcard, hagent, Except.ok.injEq] at h
                subst h
                obtain ⟨hpinned, rfl⟩ := fromPinnedCard_eq_ok.mp hagent
                refine ⟨rfl, hstatus, ?_, hwhole, hshort, card, rfl, hpinned⟩
                intro n hn
                rw [hn] at hlength
                simpa using hlength
  · rintro ⟨rfl, hstatus, hlength, hwhole, hshort, card, hcard, hpinned⟩
    have hbody : readChunks served.failed [] served.chunks =
        .ok served.chunks.flatten :=
      (readChunks_eq_ok (Nat.zero_le _)).mpr ⟨hwhole, rfl, hshort⟩
    have hannounced :
        ¬served.contentLength.any (· > maxAgentCardBytes) = true := by
      cases hn : served.contentLength with
      | none => simp
      | some n =>
          have hle := hlength n hn
          simpa using hle
    simp only [resolvePinnedCard, hstatus, not_true_eq_false, if_false,
      hannounced, hbody, hcard, fromPinnedCard_eq_ok.mpr ⟨hpinned, rfl⟩,
      and_self, Bool.false_eq_true]

/-- However the body is cut into chunks, a card is found exactly in a
successful response within the limit that decodes to a pinned card, and it
makes no difference for the agent that is registered. -/
theorem discovery_admits_pinned_card (decodeCard : Bytes → Option AgentCard)
    (r : PinnedAgentRegistration U) (response : Option CardResponse)
    (agent : RegisteredAgent U) :
    resolvePinnedCard decodeCard r response = .ok agent ↔
      agent = r.agent ∧ ∃ served card, response = some served ∧
        (200 ≤ served.status ∧ served.status < 300) ∧
        (∀ n, served.contentLength = some n → n ≤ maxAgentCardBytes) ∧
        served.failed = false ∧
        served.chunks.flatten.length ≤ maxAgentCardBytes ∧
        decodeCard served.chunks.flatten = some card ∧ Pinned r card := by
  constructor
  · intro h
    cases response with
    | none => cases h
    | some served =>
        obtain ⟨hagent, hstatus, hlength, hwhole, hshort, card, hcard,
          hpinned⟩ := resolvePinnedCard_eq_ok.mp h
        exact ⟨hagent, served, card, rfl, hstatus, hlength, hwhole, hshort,
          hcard, hpinned⟩
  · rintro ⟨hagent, served, card, rfl, hstatus, hlength, hwhole, hshort, hcard,
      hpinned⟩
    apply resolvePinnedCard_eq_ok.mpr
    exact ⟨hagent, hstatus, hlength, hwhole, hshort, card, hcard, hpinned⟩

/-! ## The agent's side -/

/-- `require_bearer`, on the headers of a request. -/
def requireBearer (secret : String) (authorization : List Bytes) : Bool :=
  ((authorization.head?.bind toStr).bind fun s => bearer.isPrefixOf? s).any
    (· = bytesOf secret)

/-- The bytes of which a header value may consist. -/
def isHeaderByte (b : UInt8) : Bool := (32 ≤ b && b ≠ 127) || b = 9

/-- `bearer_auth` -/
def bearerHeader (secret : String) : Option Bytes :=
  if (bytesOf secret).all isHeaderByte then some (bearer ++ bytesOf secret)
  else none

/-- The blanks that may stand around a header value. -/
def isBlank (b : UInt8) : Bool := b = 32 || b = 9

/-- A header value as a server reads it, without the blanks around it. -/
def readHeader (value : Bytes) : Bytes :=
  (value.dropWhile isBlank).rdropWhile isBlank

/-- The card route of the agent behind its secret; its server writes the card,
and the network cuts the text into chunks. -/
def serveCard (secret : String) (card : List Bytes)
    (authorization : List Bytes) : CardResponse :=
  if requireBearer secret (authorization.map readHeader) then
    ⟨200, some card.flatten.length, card, false⟩
  else ⟨401, some 0, [], false⟩

structure A2aAdapter where
  bearerSecret : String

/-- `A2aAdapter::new` -/
def newA2aAdapter (bearerSecret : String) : Except A2aAdapterError A2aAdapter :=
  if bearerSecret = "" then .error .emptyBearerSecret else .ok ⟨bearerSecret⟩

/-- The adapter is made and asks the agent for its card. -/
def discover (decodeCard : Bytes → Option AgentCard)
    (r : PinnedAgentRegistration U) (bearerSecret inboundSecret : String)
    (card : List Bytes) : Except A2aAdapterError (RegisteredAgent U) := do
  let adapter ← newA2aAdapter bearerSecret
  resolvePinnedCard decodeCard r
    ((bearerHeader adapter.bearerSecret).map fun header =>
      serveCard inboundSecret card [header])

/-- The agent's secret is the adapter's without blanks at its end, and can
stand in a header. -/
structure SecretsMatch (bearerSecret inboundSecret : String) : Prop where
  nonempty : inboundSecret ≠ ""
  visible : (bytesOf inboundSecret).all isVisible = true
  same : (bytesOf bearerSecret).rdropWhile isBlank = bytesOf inboundSecret

theorem requireBearer_iff {secret : String} {token : Bytes} :
    requireBearer secret [bearer ++ token] = true ↔
      token = bytesOf secret ∧ token.all isVisible = true := by
  have hbearer : bearer.all isVisible = true := by decide +kernel
  simp only [requireBearer, List.head?_cons, Option.bind_some, toStr,
    List.all_append, hbearer, Bool.true_and]
  by_cases hvisible : token.all isVisible = true
  · have hrest : bearer.isPrefixOf? (bearer ++ token) = some token :=
      List.isPrefixOf?_eq_some_iff_append_eq.mpr rfl
    simp [hvisible, hrest]
  · simp [hvisible]

/-- The scheme is read as it is, but the blank behind it goes with those at the
end of the token. -/
theorem readHeader_bearer (token : Bytes) : readHeader (bearer ++ token) =
    if token.rdropWhile isBlank = [] then bearer.dropLast
    else bearer ++ token.rdropWhile isBlank := by
  have hfront : (bearer ++ token).dropWhile isBlank = bearer ++ token := by
    rw [List.dropWhile_append]
    have hbearer : bearer.dropWhile isBlank = bearer := by decide +kernel
    have hne : bearer.isEmpty = false := by decide +kernel
    rw [hbearer, hne]
    rfl
  have hend : bearer.reverse.dropWhile isBlank = bearer.dropLast.reverse := by
    decide +kernel
  rw [readHeader, hfront, List.rdropWhile, List.reverse_append,
    List.dropWhile_append, hend, List.rdropWhile]
  by_cases hblank : token.reverse.dropWhile isBlank = []
  · rw [if_pos (List.isEmpty_iff.mpr hblank), List.reverse_reverse,
      if_pos (List.reverse_eq_nil_iff.mpr hblank)]
  · rw [if_neg (mt List.isEmpty_iff.mp hblank), List.reverse_append,
      List.reverse_reverse, if_neg (mt List.reverse_eq_nil_iff.mp hblank)]

theorem requireBearer_read_iff {secret : String} {token : Bytes} :
    requireBearer secret [readHeader (bearer ++ token)] = true ↔
      token.rdropWhile isBlank ≠ [] ∧
        token.rdropWhile isBlank = bytesOf secret ∧
          (token.rdropWhile isBlank).all isVisible = true := by
  rw [readHeader_bearer]
  by_cases hblank : token.rdropWhile isBlank = []
  · have hscheme : requireBearer secret [bearer.dropLast] = false := by
      have hnone : (toStr bearer.dropLast).bind
          (bearer.isPrefixOf? ·) = none := by decide +kernel
      rw [requireBearer, List.head?_cons, Option.bind_some, hnone]
      rfl
    rw [if_pos hblank, hscheme]
    simp [hblank]
  · rw [if_neg hblank, requireBearer_iff]
    simp [hblank]

theorem isHeaderByte_of_isVisible {b : UInt8} (h : isVisible b = true) :
    isHeaderByte b = true := by
  have hall : ∀ i : Fin 256, isVisible (UInt8.ofNat i) = true →
      isHeaderByte (UInt8.ofNat i) = true := by decide +kernel
  have hb := hall ⟨b.toNat, b.toNat_lt⟩
  rw [UInt8.ofNat_toNat] at hb
  exact hb h

theorem isVisible_of_isBlank {b : UInt8} (h : isBlank b = true) :
    isVisible b = true := by
  rw [isBlank, Bool.or_eq_true, decide_eq_true_eq, decide_eq_true_eq] at h
  rcases h with rfl | rfl
  · rfl
  · rfl

/-- The registration admits the card that the agent serves. -/
theorem pinned_agentCard {r : PinnedAgentRegistration U}
    (hr : referenceRegistration U = some r) {version : String}
    (hversion : version = "1.0") : Pinned r (agentCard version) := by
  unfold referenceRegistration at hr
  obtain ⟨cardUrl, -, hr⟩ := Option.bind_eq_some_iff.mp hr
  obtain ⟨endpoint, hendpoint, hr⟩ := Option.bind_eq_some_iff.mp hr
  obtain rfl := Option.some.inj hr
  constructor
  · rfl
  · show List.Perm ["extract-action-items", "summarize-context"]
      (StringSet.ofList
        ["extract-action-items", "summarize-context"]).elements
    decide
  · exact ⟨_, rfl, hendpoint, rfl, hversion⟩

/-- The adapter finds the agent exactly if the two secrets match: blanks at the
end of the adapter's are lost on the way.  What the card says plays no other
part. -/
theorem discovery_needs_secret {U : Urls} {decodeCard : Bytes → Option AgentCard}
    {r : PinnedAgentRegistration U} {version : String} {card : List Bytes}
    (hr : referenceRegistration U = some r) (hversion : version = "1.0")
    (hcard : decodeCard card.flatten = some (agentCard version))
    (hshort : card.flatten.length ≤ maxAgentCardBytes)
    (bearerSecret inboundSecret : String) :
    discover decodeCard r bearerSecret inboundSecret card = .ok r.agent ↔
      SecretsMatch bearerSecret inboundSecret := by
  have hbytes : ∀ {s : String}, bytesOf s = [] ↔ s = "" :=
    bytesOf_injective.eq_iff (b := "")
  constructor
  · intro hfound
    rw [discover, newA2aAdapter] at hfound
    split_ifs at hfound with hempty
    · cases hfound
    · change resolvePinnedCard decodeCard r ((bearerHeader bearerSecret).map
        fun header => serveCard inboundSecret card [header]) = _ at hfound
      rw [bearerHeader] at hfound
      split_ifs at hfound with hheader
      · by_cases hopen : requireBearer inboundSecret
            [readHeader (bearer ++ bytesOf bearerSecret)] = true
        · obtain ⟨hne, hsame, hvisible⟩ := requireBearer_read_iff.mp hopen
          rw [hsame] at hne hvisible
          exact ⟨mt hbytes.mpr hne, hvisible, hsame⟩
        · rw [Option.map_some, serveCard, List.map_singleton, if_neg hopen]
            at hfound
          obtain ⟨-, hstatus, -⟩ := resolvePinnedCard_eq_ok.mp hfound
          exact absurd hstatus.2 (by decide)
      · cases hfound
  · intro h
    have hne : (bytesOf bearerSecret).rdropWhile isBlank ≠ [] := by
      rw [h.same]
      exact mt hbytes.mp h.nonempty
    have hempty : bearerSecret ≠ "" := by
      rintro rfl
      exact hne rfl
    have hheader : bearerHeader bearerSecret =
        some (bearer ++ bytesOf bearerSecret) := by
      apply if_pos
      rw [← List.rdropWhile_append_rtakeWhile (p := isBlank)
        (l := bytesOf bearerSecret), List.all_append, h.same,
        Bool.and_eq_true, List.all_eq_true, List.all_eq_true]
      constructor
      · intro b hb
        exact isHeaderByte_of_isVisible (List.all_eq_true.mp h.visible b hb)
      · intro b hb
        exact isHeaderByte_of_isVisible
          (isVisible_of_isBlank (List.mem_rtakeWhile_imp hb))
    have hopen : requireBearer inboundSecret
        [readHeader (bearer ++ bytesOf bearerSecret)] = true := by
      apply requireBearer_read_iff.mpr
      rw [h.same] at hne ⊢
      exact ⟨hne, rfl, h.visible⟩
    have hserved : serveCard inboundSecret card
        [bearer ++ bytesOf bearerSecret] =
          ⟨200, some card.flatten.length, card, false⟩ := if_pos hopen
    have hsuccess : 200 < 300 := by decide
    rw [discover, newA2aAdapter, if_neg hempty]
    change resolvePinnedCard decodeCard r ((bearerHeader bearerSecret).map
      fun header => serveCard inboundSecret card [header]) = _
    rw [hheader, Option.map_some, hserved]
    apply resolvePinnedCard_eq_ok.mpr
    refine ⟨rfl, ⟨Nat.le_refl 200, hsuccess⟩, ?_, rfl, hshort,
      agentCard version, hcard, pinned_agentCard hr hversion⟩
    intro n hn
    obtain rfl := Option.some.inj hn
    exact hshort

namespace Sample

open Json (Value)

def strings (xs : List String) : Value := .arr (xs.map .str)

def skillValue (s : AgentSkill) : Value :=
  .object [("id", .str s.id), ("name", .str s.name),
    ("description", .str s.description), ("tags", strings s.tags),
    ("inputModes", strings (s.inputModes.getD [])),
    ("outputModes", strings (s.outputModes.getD []))]

def cardValue (card : AgentCard) : Value :=
  .object [("name", .str card.name), ("description", .str card.description),
    ("version", .str card.version),
    ("supportedInterfaces", .arr (card.supportedInterfaces.map fun i =>
      .object [("url", .str i.url), ("protocolBinding", .str i.protocolBinding),
        ("protocolVersion", .str i.protocolVersion)])),
    ("capabilities", .object [("streaming", .bool true),
      ("pushNotifications", .bool false)]),
    ("defaultInputModes", strings card.defaultInputModes),
    ("defaultOutputModes", strings card.defaultOutputModes),
    ("skills", .arr (card.skills.map skillValue))]

def cardText : Bytes := toVec (cardValue (agentCard "1.0"))

def decodeCard (bytes : Bytes) : Option AgentCard :=
  if bytes = cardText then some (agentCard "1.0") else none

/-- The text in two chunks. -/
def chunks : List Bytes := [cardText.take 100, cardText.drop 100]

def secret : String := "test-reference-agent-inbound-secret"

theorem flatten_chunks : chunks.flatten = cardText := by
  simp [chunks]

theorem cardText_short : cardText.length ≤ maxAgentCardBytes := by
  decide +kernel

def registration : PinnedAgentRegistration sampleUrls where
  id := 0x74686f756768746b686f72616c000003
  displayName := "Reference Agent"
  cardUrl := fixedReferenceAgentCardUrl
  endpoint := referenceAgentEndpoint
  binding := jsonRpc
  protocolVersion := "1.0"
  allowedSkills := .ofList ["extract-action-items", "summarize-context"]

end Sample

theorem discovery_needs_secret_sample :
    discover Sample.decodeCard Sample.registration
      Sample.secret Sample.secret Sample.chunks =
        .ok Sample.registration.agent := by
  apply (discovery_needs_secret (U := sampleUrls) rfl rfl
    (by rw [Sample.flatten_chunks]; exact if_pos rfl)
    (by rw [Sample.flatten_chunks]; exact Sample.cardText_short)
    Sample.secret Sample.secret).mpr
  constructor
  · decide
  · decide +kernel
  · decide +kernel

/-- A blank at its end makes a secret useless, also on both sides. -/
example : ¬SecretsMatch "secret " "secret " :=
  fun h => absurd h.same (by decide +kernel)

end AgentGateway.Config
