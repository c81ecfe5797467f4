import AgentGateway.Config.Faults

/-!
# Starting with a configuration

The constructors that `main` calls after `parse` check the secrets and paths
again.  None of them refuses an accepted configuration.
-/

namespace AgentGateway.Config

open Utf8 (Bytes)
open CatalogBridge (Hash bytesOf bearer)

/-! ## The constructors -/

/-- `WorkerClient::new`; what is left is its admission.  That the HTTP client
cannot be built is not modelled. -/
def newWorkerClient (secret : String) (a : Admission) :
    Except MediationError Admission :=
  if isInvocationSecret secret then .ok a else .error .validation

def CodexConfig.workerClient (codex : CodexConfig) :
    Except MediationError Admission :=
  newWorkerClient codex.secret codex.admission

/-- `catalog_router` -/
def CodexConfig.catalogRouter (digest : Bytes → Hash) (codex : CodexConfig) :
    Except MediationError CatalogBridge.Bridge := do
  let a ← codex.workerClient
  CatalogBridge.catalogService digest a codex.bridgeSecret

/-- The checks of `ConversationDispatcher::new` before it creates its
directory. -/
def newConversationDispatcher (a : Admission) (dir owner : String) :
    Except MediationError Dispatcher :=
  if owner = "" ∨ owner.utf8ByteSize > 128 ∨ isAbsolute dir = false then
    .error .validation
  else .ok ⟨owner, a⟩

/-! ## Accepted configurations -/

theorem catalogService_of_isBridgeSecret (digest : Bytes → Hash)
    {secret : String} (h : isBridgeSecret secret = true) (a : Admission) :
    CatalogBridge.catalogService digest a secret =
      .ok ⟨a, digest (bytesOf secret)⟩ := by
  simp only [isBridgeSecret, Bool.and_eq_true, decide_eq_true_eq] at h
  obtain ⟨⟨hlow, hhigh⟩, hbytes⟩ := h
  rw [CatalogBridge.catalogService, if_neg]
  rintro (hshort | hlong | hbad)
  · omega
  · omega
  · exact hbad hbytes

theorem bytesOf_injective : Function.Injective bytesOf := fun _ _ h =>
  String.toList_injective (Utf8.encode_injective h)

/-- What the process may rely on once conversations are on. -/
structure Ready (digest : Bytes → Hash) (clientSecret inboundSecret : String)
    (codex : CodexConfig) : Prop where
  distinct :
    [clientSecret, inboundSecret, codex.secret, codex.bridgeSecret].Nodup
  worker : codex.workerClient = .ok codex.admission
  bridge : codex.catalogRouter digest =
    .ok ⟨codex.admission, digest (bytesOf codex.bridgeSecret)⟩
  dispatcher : ∀ owner, owner ≠ "" → owner.utf8ByteSize ≤ 128 →
    newConversationDispatcher codex.admission codex.stateDir owner =
      .ok ⟨owner, codex.admission⟩
  /-- No other secret opens the catalog, unless SHA-256 has a collision. -/
  separate : ∀ other ∈ [clientSecret, inboundSecret, codex.secret],
    CatalogBridge.valid digest
      ⟨codex.admission, digest (bytesOf codex.bridgeSecret)⟩
      [bearer ++ bytesOf other] = true →
        bytesOf other ≠ bytesOf codex.bridgeSecret ∧
          digest (bytesOf other) = digest (bytesOf codex.bridgeSecret)

theorem CodexAccepted.ready {env : Variables}
    {clientSecret inboundSecret : String} {codex : CodexConfig}
    (h : CodexAccepted env clientSecret inboundSecret codex)
    (hfresh : inboundSecret ≠ clientSecret) (digest : Bytes → Hash) :
    Ready digest clientSecret inboundSecret codex := by
  have hworker : codex.workerClient = .ok codex.admission := by
    rw [CodexConfig.workerClient, newWorkerClient, if_pos h.isSecret]
  constructor
  · have hsecret := h.secretFresh
    have hbridge := h.bridgeFresh
    simp only [List.nodup_cons, List.mem_cons, List.not_mem_nil, or_false,
      not_or, not_false_eq_true, List.nodup_nil, and_true]
    exact ⟨⟨hfresh.symm, hsecret.1.symm, hbridge.2.1.symm⟩,
      ⟨hsecret.2.symm, hbridge.2.2.symm⟩, hbridge.1.symm⟩
  · exact hworker
  · rw [CodexConfig.catalogRouter, hworker]
    exact catalogService_of_isBridgeSecret digest h.isBridgeSecret _
  · intro owner hne hlength
    rw [newConversationDispatcher, if_neg]
    rintro (hempty | hlong | hrelative)
    · exact hne hempty
    · omega
    · rw [h.isAbsolute] at hrelative
      cases hrelative
  · intro other hother hvalid
    obtain ⟨token, hheader, -, -, hdigest⟩ :=
      CatalogBridge.valid_iff.mp hvalid
    have htoken : bytesOf other = token := by
      simpa using hheader
    rw [← htoken] at hdigest
    refine ⟨fun heq => ?_, hdigest⟩
    have hbridge := h.bridgeFresh
    have hsame := bytesOf_injective heq
    simp only [List.mem_cons, List.not_mem_nil, or_false] at hother
    rcases hother with rfl | rfl | rfl
    · exact hbridge.2.1 hsame.symm
    · exact hbridge.2.2 hsame.symm
    · exact hbridge.1 hsame.symm

/-- With an accepted configuration the process starts: it talks to reviewed
services only, and the constructors for conversations succeed, with secrets
that serve one purpose each. -/
theorem accepted_configuration_starts {U : Urls} {env : Variables}
    {config : GatewayConfig U} (h : GatewayConfig.parse U env = .ok config)
    (digest : Bytes → Hash) :
    TrustedOrigin U config.roomGatewayOrigin ∧
      TrustedTokenUrl U config.tokenUrl ∧
      (∀ host ∈ config.allowedHandoffHosts, Accepted host) ∧
      (∃ host ∈ config.allowedHandoffHosts,
        Given env Key.handoffHost host) ∧
      (100 ≤ config.pollMillis ∧ config.pollMillis ≤ 5000) ∧
      ∃ inboundSecret, Given env Key.inboundSecret inboundSecret ∧
        inboundSecret ≠ config.clientSecret ∧
          ∀ codex, config.codex = some codex →
            Ready digest config.clientSecret inboundSecret codex := by
  have hparsed := (parse_sound U env).2 config h
  obtain ⟨value, -, hhosts⟩ := hparsed.allowedHosts
  obtain ⟨host, hhost, hmem⟩ := hparsed.handoffHost
  obtain ⟨inboundSecret, hinbound, hfresh, hchoice⟩ := hparsed.inboundSecret
  refine ⟨hparsed.trustedOrigin, hparsed.trustedTokenUrl,
    fun host => accepted_of_parse hhosts, ⟨host, hmem, hhost⟩,
    hparsed.pollBounds, inboundSecret, hinbound, hfresh, ?_⟩
  intro codex hcodex
  rw [hcodex] at hchoice
  cases hchoice with
  | on haccepted => exact haccepted.ready hfresh digest

/-! ## A sample -/

/-- The URL crate on the texts of the sample and those that were reviewed. -/
def sampleUrls : Urls where
  Url := String
  decEq := inferInstance
  parse text :=
    if text = "http://127.0.0.1:8080" then some "http://127.0.0.1:8080/"
    else if text = "http://127.0.0.1:9090" then some fixedReferenceAgentBaseUrl
    else some text
  scheme _ := "http"
  username _ := ""
  password _ := none
  host url :=
    if "http://127.0.0.1:".toList <+: url.toList then some (.ipv4 0x7f000001)
    else if url = "http://thought-khoral-room-gateway:8080/" then
      some (.domain "thought-khoral-room-gateway")
    else none
  path url := if url = "http://127.0.0.1:8080/" then "/" else "/other"
  query _ := none
  fragment _ := none

def sampleEnv : Variables := fun key =>
  [(Key.roomGatewayOrigin, "http://127.0.0.1:8080"),
    (Key.tokenUrl, "http://127.0.0.1:8081/realms/thought-khoral/token"),
    (Key.clientId, "thought-khoral-agent-gateway"),
    (Key.clientSecret, "test-secret"),
    (Key.inboundSecret, "test-reference-agent-inbound-secret"),
    (Key.cardUrl, "http://127.0.0.1:9090"),
    (Key.allowedHosts, "allowed.example"),
    (Key.handoffHost, "allowed.example"),
    (Key.pollMillis, "1000"),
    (Key.codexEnabled, "true"),
    (Key.stateDir, "/private/tmp/codex-mediation"),
    (Key.bridgeSecret, "distinct-catalog-bridge-secret-32-chars"),
    (Key.bridgeBind, "0.0.0.0:9092"),
    (Key.invocationSecret, "distinct-invocation-secret"),
    (Key.modelPolicy, "\x7b\"model-a\":[\"effort-medium\"]\x7d"),
    (Key.catalogRevision, "catalog-1"),
    (Key.guidanceRevision, "fixed-1")].lookup key

theorem parse_sampleEnv : ∃ config,
    GatewayConfig.parse sampleUrls sampleEnv = .ok config ∧
      config.codex.isSome = true := by
  have hsome : ((GatewayConfig.parse sampleUrls sampleEnv).toOption.bind
      fun config => config.codex).isSome = true := by
    decide +kernel
  cases hparse : GatewayConfig.parse sampleUrls sampleEnv with
  | error e =>
      rw [hparse] at hsome
      cases hsome
  | ok config =>
      rw [hparse] at hsome
      exact ⟨config, rfl, hsome⟩

theorem accepted_configuration_starts_sample :
    ∃ config : GatewayConfig sampleUrls, config.codex.isSome = true ∧
      TrustedOrigin sampleUrls config.roomGatewayOrigin ∧
      TrustedTokenUrl sampleUrls config.tokenUrl ∧
      (∀ host ∈ config.allowedHandoffHosts, Accepted host) ∧
      (∃ host ∈ config.allowedHandoffHosts,
        Given sampleEnv Key.handoffHost host) ∧
      (100 ≤ config.pollMillis ∧ config.pollMillis ≤ 5000) ∧
      ∃ inboundSecret, Given sampleEnv Key.inboundSecret inboundSecret ∧
        inboundSecret ≠ config.clientSecret ∧
          ∀ codex, config.codex = some codex →
            Ready Sha256.digest config.clientSecret inboundSecret codex := by
  obtain ⟨config, hparse, hcodex⟩ := parse_sampleEnv
  exact ⟨config, hcodex, accepted_configuration_starts hparse Sha256.digest⟩

end AgentGateway.Config
