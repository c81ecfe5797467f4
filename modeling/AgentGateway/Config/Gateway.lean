import AgentGateway.Config.HandoffHosts
import AgentGateway.Conversation.CatalogBridge

/-!
# The configuration of the gateway

`GatewayConfig::parse`: the variables of the environment, the URLs that were
reviewed, the secrets, and the part that turns conversations on.
-/

namespace AgentGateway.Config

open Json (Value)
open Utf8 (Bytes)
open HostParser (Host isDigit)
open CatalogBridge (Hash bytesOf)

/-! ## URLs -/

/-- The URL crate, as far as the configuration uses it. -/
structure Urls where
  Url : Type
  decEq : DecidableEq Url
  parse : String → Option Url
  scheme : Url → String
  username : Url → String
  password : Url → Option String
  host : Url → Option Host
  path : Url → String
  query : Url → Option String
  fragment : Url → Option String

instance (U : Urls) : DecidableEq U.Url := U.decEq

def requiredClientId : String := "thought-khoral-agent-gateway"

def fixedReferenceAgentBaseUrl : String := "http://127.0.0.1:9090/"

def fixedReferenceAgentCardUrl : String :=
  "http://127.0.0.1:9090/.well-known/agent-card.json"

def trustedRoomGatewayOrigins : List String :=
  ["http://127.0.0.1:8080/",
    "http://thought-khoral-room-gateway:8080/",
    "http://thought-khoral-room-gateway.thought-khoral-dev.svc.cluster.local:8080/"]

def trustedKeycloakTokenUrls : List String :=
  ["http://thought-khoral-keycloak:8080/realms/thought-khoral/protocol/openid-connect/token",
    "http://thought-khoral-keycloak.thought-khoral-dev.svc.cluster.local:8080/realms/thought-khoral/protocol/openid-connect/token"]

/-! ## Settings -/

namespace Key

def roomGatewayOrigin : String := "THOUGHT_KHORAL_ROOM_GATEWAY_ORIGIN"

def tokenUrl : String := "THOUGHT_KHORAL_KEYCLOAK_TOKEN_URL"

def clientId : String := "THOUGHT_KHORAL_AGENT_GATEWAY_CLIENT_ID"

def clientSecret : String := "THOUGHT_KHORAL_AGENT_GATEWAY_CLIENT_SECRET"

def inboundSecret : String := "THOUGHT_KHORAL_REFERENCE_AGENT_INBOUND_SECRET"

def cardUrl : String := "THOUGHT_KHORAL_REFERENCE_AGENT_CARD_URL"

def allowedHosts : String := "THOUGHT_KHORAL_ALLOWED_HANDOFF_HOSTS"

def handoffHost : String := "THOUGHT_KHORAL_REFERENCE_AGENT_HANDOFF_HOST"

def pollMillis : String := "THOUGHT_KHORAL_AGENT_POLL_MILLIS"

def codexEnabled : String := "THOUGHT_KHORAL_CODEX_ENABLED"

def invocationSecret : String := "THOUGHT_KHORAL_CODEX_INVOCATION_SECRET"

def bridgeSecret : String := "THOUGHT_KHORAL_CODEX_CATALOG_BRIDGE_SECRET"

def bridgeBind : String := "THOUGHT_KHORAL_CODEX_CATALOG_BRIDGE_BIND"

def stateDir : String := "THOUGHT_KHORAL_CODEX_STATE_DIR"

def modelPolicy : String := "THOUGHT_KHORAL_CODEX_MODEL_POLICY_JSON"

def catalogRevision : String := "THOUGHT_KHORAL_CODEX_CATALOG_REVISION"

def guidanceRevision : String := "THOUGHT_KHORAL_CODEX_GUIDANCE_REVISION"

end Key

/-! ## Errors -/

inductive ConfigError where
  | invalidCodexConfig
  | unsupportedSetting (key : String)
  | missing (key : String)
  | invalidRoomGatewayOrigin
  | invalidTokenUrl
  | invalidClientId
  | emptyClientSecret
  | reusedClientSecretAsInboundSecret
  | invalidReferenceAgentCard
  | invalidHandoffHosts
  | unallowlistedHandoffHost (host : String)
  | invalidBoundedInteger (key : String) (minimum maximum : ℕ)
deriving DecidableEq

/-! ## Single settings -/

/-- The environment. -/
abbrev Variables := String → Option String

def required (environment : Variables) (key : String) :
    Except ConfigError String :=
  match (environment key).filter (· ≠ "") with
  | some value => .ok value
  | none => .error (.missing key)

/-- `parse::<u64>` -/
def parseU64 (value : String) : Option ℕ :=
  let digits := if value.toList.head? = some '+' then value.toList.tail
    else value.toList
  let n := digits.foldl (fun n a => n * 10 + (a.toNat - 48)) 0
  if digits ≠ [] ∧ digits.all isDigit ∧ n < 2 ^ 64 then some n else none

def parseBoundedU64 (environment : Variables) (key : String)
    (minimum maximum : ℕ) : Except ConfigError ℕ := do
  let value ← required environment key
  match (parseU64 value).filter fun n => minimum ≤ n ∧ n ≤ maximum with
  | some parsed => return parsed
  | none => .error (.invalidBoundedInteger key minimum maximum)

section

variable (U : Urls)

def isExactOrigin (url : U.Url) : Bool :=
  U.username url = "" && (U.password url).isNone && (U.query url).isNone &&
    (U.fragment url).isNone && (U.path url = "" || U.path url = "/") &&
    (U.host url).isSome

def isLoopback (url : U.Url) : Bool :=
  match U.host url with
  | some (.ipv4 address) => address / 2 ^ 24 = 127
  | some (.ipv6 address) => address = 1
  | some (.domain host) => host.toList.map Char.toLower = "localhost".toList
  | none => false

def isHttp (url : U.Url) : Bool :=
  U.scheme url = "http" || U.scheme url = "https"

/-- One of the texts is parsed as this URL. -/
def isReviewed (texts : List String) (url : U.Url) : Bool :=
  texts.any fun text => U.parse text = some url

/-- A URL that passes a check. -/
def parseChecked (e : ConfigError) (refused : U.Url → Bool) (value : String) :
    Except ConfigError U.Url :=
  match U.parse value with
  | none => .error e
  | some url => if refused url then .error e else .ok url

def parseTrustedRoomGatewayOrigin : String → Except ConfigError U.Url :=
  parseChecked U .invalidRoomGatewayOrigin fun origin =>
    !isExactOrigin U origin || !isHttp U origin ||
      !isReviewed U trustedRoomGatewayOrigins origin

def parseTokenUrl : String → Except ConfigError U.Url :=
  parseChecked U .invalidTokenUrl fun url =>
    !isHttp U url || U.username url ≠ "" || (U.password url).isSome ||
      (U.query url).isSome || (U.fragment url).isSome ||
      (U.host url).isNone ||
      (U.scheme url = "http" && !isLoopback U url &&
        !isReviewed U trustedKeycloakTokenUrls url)

/-- The value must be the base or the card; the caller ignores the URL. -/
def parseFixedCardUrl (value : String) : Except ConfigError Unit := do
  let _ ← parseChecked U .invalidReferenceAgentCard (fun url =>
    !isReviewed U [fixedReferenceAgentBaseUrl, fixedReferenceAgentCardUrl]
      url) value

end

def handoffHosts (value : String) : Except ConfigError StringSet :=
  match parseHandoffHosts value with
  | some hosts => .ok hosts
  | none => .error .invalidHandoffHosts

/-! ## Conversations -/

/-- `Admission::new` -/
def newAdmission (catalogRevision guidanceRevision : String)
    (models : List (String × List String)) : Checked Admission :=
  if catalogRevision = "" ∨ catalogRevision.utf8ByteSize > 128 ∨
      guidanceRevision = "" ∨ guidanceRevision.utf8ByteSize > 128 ∨
      models = [] ∨ models.length > 100 ∨
      models.any (fun m => m.1 = "" || m.1.utf8ByteSize > 128 || m.2 = [] ||
        m.2.any (fun s => s = "" || s.utf8ByteSize > 128) ||
        m.2.dedup.length ≠ m.2.length) then none
  else some ⟨catalogRevision, guidanceRevision, models⟩

def policyEfforts : Value → Option (List String)
  | .arr xs => Record.strings? xs
  | _ => none

/-- `from_value` for a map of lists of strings. -/
def modelPolicy : Value → Option (List (String × List String))
  | .obj fs => fs.mapM fun f => (policyEfforts f.2).map (f.1, ·)
  | _ => none

structure CodexConfig where
  stateDir : String
  secret : String
  bridgeSecret : String
  admission : Admission

def isGraphic (b : UInt8) : Bool := 33 ≤ b && b ≤ 126

/-- Whether a text is a bearer secret for the worker. -/
def isInvocationSecret (secret : String) : Bool :=
  16 ≤ (bytesOf secret).length && (bytesOf secret).length ≤ 4096 &&
    (bytesOf secret).all isGraphic

def isBridgeSecret (secret : String) : Bool :=
  32 ≤ (bytesOf secret).length && (bytesOf secret).length ≤ 4096 &&
    (bytesOf secret).all CatalogBridge.isSecretByte

def isAbsolute (path : String) : Bool := path.toList.head? = some '/'

/-- A value that could not be computed is `InvalidCodexConfig`. -/
def codexValue {α : Type} : Checked α → Except ConfigError α
  | some a => .ok a
  | none => .error .invalidCodexConfig

/-- The part of `parse` for a mediator that is turned on. -/
def CodexConfig.parseEnabled (env : Variables)
    (clientSecret referenceSecret : String) :
    Except ConfigError CodexConfig := do
  let secret ← required env Key.invocationSecret
  codexValue (guard (secret ≠ clientSecret ∧ secret ≠ referenceSecret ∧
    isInvocationSecret secret = true))
  let bridgeSecret ← required env Key.bridgeSecret
  codexValue (guard (bridgeSecret ≠ secret ∧ bridgeSecret ≠ clientSecret ∧
    bridgeSecret ≠ referenceSecret ∧ isBridgeSecret bridgeSecret = true))
  let bind ← required env Key.bridgeBind
  codexValue (guard (bind = "0.0.0.0:9092"))
  let stateDir ← required env Key.stateDir
  codexValue (guard (isAbsolute stateDir = true))
  let policy ← required env Key.modelPolicy
  let models ← codexValue ((parseJson (bytesOf policy)).bind modelPolicy)
  let catalogRevision ← required env Key.catalogRevision
  let guidanceRevision ← required env Key.guidanceRevision
  let admission ←
    codexValue (newAdmission catalogRevision guidanceRevision models)
  return ⟨stateDir, secret, bridgeSecret, admission⟩

def forbiddenCodexSettings : List String :=
  ["THOUGHT_KHORAL_CODEX_ENDPOINT", "THOUGHT_KHORAL_CODEX_CARD_URL"]

def CodexConfig.parse (env : Variables)
    (clientSecret referenceSecret : String) :
    Except ConfigError (Option CodexConfig) :=
  if forbiddenCodexSettings.any fun key => (env key).isSome then
    .error .invalidCodexConfig
  else
    match env Key.codexEnabled with
    | none => .ok none
    | some enabled =>
        if enabled = "false" then .ok none
        else if enabled = "true" then
          (CodexConfig.parseEnabled env clientSecret referenceSecret).map some
        else .error .invalidCodexConfig

/-! ## The gateway -/

structure GatewayConfig (U : Urls) where
  roomGatewayOrigin : U.Url
  tokenUrl : U.Url
  clientId : String
  clientSecret : String
  allowedHandoffHosts : StringSet
  pollMillis : ℕ
  codex : Option CodexConfig

def unsupportedSettings : List String :=
  ["THOUGHT_KHORAL_AGENT_LEASE_SECONDS",
    "THOUGHT_KHORAL_AGENT_UPDATE_RATE_PER_MINUTE"]

def rejectUnsupported (environment : Variables) :
    List String → Except ConfigError Unit
  | [] => .ok ()
  | key :: keys =>
      if (environment key).isSome then .error (.unsupportedSetting key)
      else rejectUnsupported environment keys

/-- A test with its error. -/
def ensure (p : Prop) [Decidable p] (e : ConfigError) :
    Except ConfigError Unit :=
  if p then .ok () else .error e

/-- `parse` -/
def GatewayConfig.parse (U : Urls) (environment : Variables) :
    Except ConfigError (GatewayConfig U) := do
  rejectUnsupported environment unsupportedSettings
  let origin ← required environment Key.roomGatewayOrigin
  let roomGatewayOrigin ← parseTrustedRoomGatewayOrigin U origin
  let token ← required environment Key.tokenUrl
  let tokenUrl ← parseTokenUrl U token
  let clientId ← required environment Key.clientId
  ensure (clientId = requiredClientId) .invalidClientId
  let clientSecret ← required environment Key.clientSecret
  ensure (clientSecret ≠ "") .emptyClientSecret
  let inboundSecret ← required environment Key.inboundSecret
  ensure (inboundSecret ≠ clientSecret) .reusedClientSecretAsInboundSecret
  let card ← required environment Key.cardUrl
  parseFixedCardUrl U card
  let hosts ← required environment Key.allowedHosts
  let allowedHandoffHosts ← handoffHosts hosts
  let selected ← required environment Key.handoffHost
  ensure (selected ∈ allowedHandoffHosts) (.unallowlistedHandoffHost selected)
  let pollMillis ← parseBoundedU64 environment Key.pollMillis 100 5000
  let codex ← CodexConfig.parse environment clientSecret inboundSecret
  return ⟨roomGatewayOrigin, tokenUrl, clientId, clientSecret,
    allowedHandoffHosts, pollMillis, codex⟩

end AgentGateway.Config
