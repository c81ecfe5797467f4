import AgentGateway.Config.Gateway

/-!
# Faults of a configuration

What each error of `parse` says about the environment.  A configuration is
refused for a fault that it has, and only a configuration without any fault is
accepted.
-/

namespace AgentGateway.Config

open HostParser (Host)
open CatalogBridge (Hash bytesOf)

/-! ## Reviewed values -/

/-- A variable that is set, and not to the empty text. -/
structure Given (env : Variables) (key value : String) : Prop where
  set : env key = some value
  nonempty : value ≠ ""

def Absent (env : Variables) (key : String) : Prop :=
  ∀ value, ¬Given env key value

theorem Given.unique {env : Variables} {key value value' : String}
    (h : Given env key value) (h' : Given env key value') : value = value' :=
  Option.some.inj (h.set.symm.trans h'.set)

variable (U : Urls)

def Reviewed (texts : List String) (url : U.Url) : Prop :=
  ∃ text ∈ texts, U.parse text = some url

/-- An HTTP origin without anything after its authority, among those that were
reviewed. -/
structure TrustedOrigin (url : U.Url) : Prop where
  scheme : U.scheme url = "http" ∨ U.scheme url = "https"
  username : U.username url = ""
  password : U.password url = none
  host : U.host url ≠ none
  path : U.path url = "" ∨ U.path url = "/"
  query : U.query url = none
  fragment : U.fragment url = none
  reviewed : Reviewed U trustedRoomGatewayOrigins url

/-- A URL to which the client secret may be sent: without credentials, and
never in clear text over a network that was not reviewed. -/
structure TrustedTokenUrl (url : U.Url) : Prop where
  scheme : U.scheme url = "http" ∨ U.scheme url = "https"
  username : U.username url = ""
  password : U.password url = none
  host : U.host url ≠ none
  query : U.query url = none
  fragment : U.fragment url = none
  cleartext : U.scheme url = "http" →
    isLoopback U url = true ∨ Reviewed U trustedKeycloakTokenUrls url

variable {U}

theorem isReviewed_iff {texts : List String} {url : U.Url} :
    isReviewed U texts url = true ↔ Reviewed U texts url := by
  rw [isReviewed, List.any_eq_true]
  simp only [decide_eq_true_eq]
  exact Iff.rfl

theorem isHttp_iff {url : U.Url} : isHttp U url = true ↔
    U.scheme url = "http" ∨ U.scheme url = "https" := by
  simp [isHttp]

theorem trustedOrigin_iff {url : U.Url} :
    (!isExactOrigin U url || !isHttp U url ||
      !isReviewed U trustedRoomGatewayOrigins url) = false ↔
        TrustedOrigin U url := by
  simp only [Bool.or_eq_false_iff, Bool.not_eq_false', isHttp_iff,
    isReviewed_iff, isExactOrigin, Bool.and_eq_true, decide_eq_true_eq,
    Option.isNone_iff_eq_none, Option.isSome_iff_ne_none, Bool.or_eq_true]
  constructor
  · rintro ⟨⟨⟨⟨⟨⟨⟨hname, hpassword⟩, hquery⟩, hfragment⟩, hpath⟩, hhost⟩,
      hscheme⟩, hreviewed⟩
    exact ⟨hscheme, hname, hpassword, hhost, hpath, hquery, hfragment,
      hreviewed⟩
  · intro h
    exact ⟨⟨⟨⟨⟨⟨⟨h.username, h.password⟩, h.query⟩, h.fragment⟩, h.path⟩,
      h.host⟩, h.scheme⟩, h.reviewed⟩

theorem trustedTokenUrl_iff {url : U.Url} :
    (!isHttp U url || U.username url ≠ "" || (U.password url).isSome ||
      (U.query url).isSome || (U.fragment url).isSome ||
      (U.host url).isNone || (U.scheme url = "http" && !isLoopback U url &&
        !isReviewed U trustedKeycloakTokenUrls url)) = false ↔
      TrustedTokenUrl U url := by
  simp only [Bool.or_eq_false_iff, Bool.not_eq_false', isHttp_iff,
    Bool.and_eq_false_iff, isReviewed_iff, decide_eq_false_iff_not, not_not,
    ne_eq, Option.isSome_eq_false_iff, Option.isNone_eq_false_iff,
    Option.isNone_iff_eq_none, Option.isSome_iff_ne_none]
  constructor
  · rintro ⟨⟨⟨⟨⟨⟨hscheme, hname⟩, hpassword⟩, hquery⟩, hfragment⟩, hhost⟩,
      hcleartext⟩
    refine ⟨hscheme, hname, hpassword, hhost, hquery, hfragment,
      fun hhttp => ?_⟩
    rcases hcleartext with (hnot | hloopback) | hreviewed
    · exact absurd hhttp hnot
    · exact Or.inl hloopback
    · exact Or.inr hreviewed
  · intro h
    refine ⟨⟨⟨⟨⟨⟨h.scheme, h.username⟩, h.password⟩, h.query⟩, h.fragment⟩,
      h.host⟩, ?_⟩
    by_cases hhttp : U.scheme url = "http"
    · rcases h.cleartext hhttp with hloopback | hreviewed
      · exact Or.inl (Or.inr hloopback)
      · exact Or.inr hreviewed
    · exact Or.inl (Or.inl hhttp)

/-! ## Faults -/

def Enabled (env : Variables) : Prop := env Key.codexEnabled = some "true"

/-- The settings that a mediator needs. -/
def codexSettings : List String :=
  [Key.invocationSecret, Key.bridgeSecret, Key.bridgeBind, Key.stateDir,
    Key.modelPolicy, Key.catalogRevision, Key.guidanceRevision]

def requiredSettings : List String :=
  [Key.roomGatewayOrigin, Key.tokenUrl, Key.clientId, Key.clientSecret,
    Key.inboundSecret, Key.cardUrl, Key.allowedHosts, Key.handoffHost,
    Key.pollMillis]

/-- The models that a text allows. -/
def policyModels (policy : String) : Option (List (String × List String)) :=
  (parseJson (bytesOf policy)).bind modelPolicy

/-- What is wrong with a mediator that is turned on. -/
inductive CodexFault (env : Variables) : Prop
  | invocationSecret {value : String} : Given env Key.invocationSecret value →
      isInvocationSecret value = false → CodexFault env
  | reusedInvocationSecret {key value : String} :
      Given env Key.invocationSecret value →
      key ∈ [Key.clientSecret, Key.inboundSecret] → Given env key value →
        CodexFault env
  | bridgeSecret {value : String} : Given env Key.bridgeSecret value →
      isBridgeSecret value = false → CodexFault env
  | reusedBridgeSecret {key value : String} :
      Given env Key.bridgeSecret value →
      key ∈ [Key.invocationSecret, Key.clientSecret, Key.inboundSecret] →
        Given env key value → CodexFault env
  | bridgeBind {value : String} : Given env Key.bridgeBind value →
      value ≠ "0.0.0.0:9092" → CodexFault env
  | stateDir {value : String} : Given env Key.stateDir value →
      isAbsolute value = false → CodexFault env
  | modelPolicy {value : String} : Given env Key.modelPolicy value →
      policyModels value = none → CodexFault env
  | admission {policy catalogRevision guidanceRevision : String}
      {models : List (String × List String)} :
      Given env Key.modelPolicy policy → policyModels policy = some models →
      Given env Key.catalogRevision catalogRevision →
      Given env Key.guidanceRevision guidanceRevision →
      newAdmission catalogRevision guidanceRevision models = none →
        CodexFault env

variable (U) in
/-- The environment has the fault that an error names. -/
inductive Fault (env : Variables) : ConfigError → Prop
  | unsupported {key value : String} : key ∈ unsupportedSettings →
      env key = some value → Fault env (.unsupportedSetting key)
  | missing {key : String} : key ∈ requiredSettings → Absent env key →
      Fault env (.missing key)
  | missingCodex {key : String} : Enabled env → key ∈ codexSettings →
      Absent env key → Fault env (.missing key)
  | roomGatewayOrigin {value : String} :
      Given env Key.roomGatewayOrigin value →
      (∀ url, U.parse value = some url → ¬TrustedOrigin U url) →
        Fault env .invalidRoomGatewayOrigin
  | tokenUrl {value : String} : Given env Key.tokenUrl value →
      (∀ url, U.parse value = some url → ¬TrustedTokenUrl U url) →
        Fault env .invalidTokenUrl
  | clientId {value : String} : Given env Key.clientId value →
      value ≠ requiredClientId → Fault env .invalidClientId
  | reusedInboundSecret {value : String} :
      Given env Key.clientSecret value → Given env Key.inboundSecret value →
        Fault env .reusedClientSecretAsInboundSecret
  | cardUrl {value : String} : Given env Key.cardUrl value →
      (∀ url, U.parse value = some url → ¬Reviewed U
        [fixedReferenceAgentBaseUrl, fixedReferenceAgentCardUrl] url) →
        Fault env .invalidReferenceAgentCard
  | allowedHosts {value : String} : Given env Key.allowedHosts value →
      parseHandoffHosts value = none → Fault env .invalidHandoffHosts
  | handoffHost {value host : String} {hosts : StringSet} :
      Given env Key.allowedHosts value → parseHandoffHosts value = some hosts →
      Given env Key.handoffHost host → host ∉ hosts →
        Fault env (.unallowlistedHandoffHost host)
  | pollMillis {value : String} : Given env Key.pollMillis value →
      (∀ n, parseU64 value = some n → ¬(100 ≤ n ∧ n ≤ 5000)) →
        Fault env (.invalidBoundedInteger Key.pollMillis 100 5000)
  | forbidden {key value : String} : key ∈ forbiddenCodexSettings →
      env key = some value → Fault env .invalidCodexConfig
  | flag {value : String} : env Key.codexEnabled = some value →
      value ≠ "false" → value ≠ "true" → Fault env .invalidCodexConfig
  | codex : Enabled env → CodexFault env → Fault env .invalidCodexConfig

/-! ## Sound checks -/

/-- Every error of a computation lies in `F` and every result in `P`. -/
def Sound {ε α : Type} (F : ε → Prop) (x : Except ε α) (P : α → Prop) : Prop :=
  (∀ e, x = .error e → F e) ∧ ∀ a, x = .ok a → P a

section

variable {ε α β : Type} {F : ε → Prop}

theorem Sound.bind {x : Except ε α} {f : α → Except ε β} {P : α → Prop}
    {Q : β → Prop} (hx : Sound F x P) (hf : ∀ a, P a → Sound F (f a) Q) :
    Sound F (x >>= f) Q := by
  cases x with
  | error e =>
      refine ⟨?_, nofun⟩
      rintro _ ⟨⟩
      exact hx.1 e rfl
  | ok a => exact hf a (hx.2 a rfl)

theorem Sound.map {x : Except ε α} {f : α → β} {P : α → Prop} {Q : β → Prop}
    (hx : Sound F x P) (h : ∀ a, P a → Q (f a)) : Sound F (x.map f) Q := by
  cases x with
  | error e =>
      refine ⟨?_, nofun⟩
      rintro _ ⟨⟩
      exact hx.1 e rfl
  | ok a =>
      refine ⟨nofun, ?_⟩
      rintro _ ⟨⟩
      exact h a (hx.2 a rfl)

theorem sound_ok {a : α} {P : α → Prop} (h : P a) :
    Sound F (.ok a) P := by
  refine ⟨nofun, ?_⟩
  rintro _ ⟨⟩
  exact h

theorem sound_error {e : ε} {P : α → Prop} (h : F e) :
    Sound F (.error e) P := by
  refine ⟨?_, nofun⟩
  rintro _ ⟨⟩
  exact h

end

variable {env : Variables} {F : ConfigError → Prop}

theorem required_sound {key : String}
    (hmissing : Absent env key → F (.missing key)) :
    Sound F (required env key) (Given env key) := by
  rw [required]
  cases hvalue : (env key).filter (· ≠ "") with
  | none =>
      apply sound_error
      apply hmissing
      intro value hgiven
      rw [hgiven.set, Option.filter_some, if_pos] at hvalue
      · cases hvalue
      · simpa using hgiven.nonempty
  | some value =>
      apply sound_ok
      rw [Option.filter_eq_some_iff] at hvalue
      exact ⟨hvalue.1, by simpa using hvalue.2⟩

theorem ensure_sound {p : Prop} [Decidable p] {e : ConfigError}
    (h : ¬p → F e) : Sound F (ensure p e) fun _ => p := by
  rw [ensure]
  by_cases hp : p
  · rw [if_pos hp]
    exact sound_ok hp
  · rw [if_neg hp]
    exact sound_error (h hp)

theorem codexValue_sound {α : Type} {x : Checked α}
    (h : x = none → F .invalidCodexConfig) :
    Sound F (codexValue x) fun a => x = some a := by
  cases x with
  | none => exact sound_error (h rfl)
  | some a => exact sound_ok rfl

theorem parseBoundedU64_sound {key : String} {minimum maximum : ℕ}
    (hmissing : Absent env key → F (.missing key))
    (hbounds : ∀ value, Given env key value →
      (∀ n, parseU64 value = some n → ¬(minimum ≤ n ∧ n ≤ maximum)) →
        F (.invalidBoundedInteger key minimum maximum)) :
    Sound F (parseBoundedU64 env key minimum maximum) fun n =>
      minimum ≤ n ∧ n ≤ maximum ∧
        ∃ value, Given env key value ∧ parseU64 value = some n := by
  rw [parseBoundedU64]
  apply (required_sound hmissing).bind
  intro value hgiven
  cases hn : (parseU64 value).filter fun n => minimum ≤ n ∧ n ≤ maximum with
  | none =>
      apply sound_error
      apply hbounds value hgiven
      intro n hparse hin
      rw [hparse, Option.filter_some, if_pos] at hn
      · cases hn
      · simpa using hin
  | some n =>
      rw [Option.filter_eq_some_iff, decide_eq_true_iff] at hn
      exact sound_ok ⟨hn.2.1, hn.2.2, value, hgiven, hn.1⟩

theorem parseChecked_sound {e : ConfigError} {refused : U.Url → Bool}
    {P : U.Url → Prop} (hiff : ∀ url, refused url = false ↔ P url)
    {value : String} (h : (∀ url, U.parse value = some url → ¬P url) → F e) :
    Sound F (parseChecked U e refused value) fun url =>
      U.parse value = some url ∧ P url := by
  rw [parseChecked]
  cases hparse : U.parse value with
  | none => exact sound_error (h (by simp [hparse]))
  | some url =>
      by_cases hP : P url
      · have hfalse := (hiff url).mpr hP
        simp only [hfalse]
        exact sound_ok ⟨rfl, hP⟩
      · have htrue : refused url = true := by
          rw [← Bool.not_eq_false, hiff]
          exact hP
        simp only [htrue]
        apply sound_error
        apply h
        intro url' hurl
        rw [hparse] at hurl
        cases hurl
        exact hP

theorem parseFixedCardUrl_sound {value : String}
    (h : (∀ url, U.parse value = some url → ¬Reviewed U
      [fixedReferenceAgentBaseUrl, fixedReferenceAgentCardUrl] url) →
        F .invalidReferenceAgentCard) :
    Sound F (parseFixedCardUrl U value) fun _ => ∃ url,
      U.parse value = some url ∧ Reviewed U
        [fixedReferenceAgentBaseUrl, fixedReferenceAgentCardUrl] url := by
  apply (parseChecked_sound (fun url => ?_) h).bind
  · intro url hurl
    exact sound_ok ⟨url, hurl⟩
  · rw [Bool.not_eq_false', isReviewed_iff]

theorem handoffHosts_sound {value : String}
    (h : parseHandoffHosts value = none → F .invalidHandoffHosts) :
    Sound F (handoffHosts value) fun hosts =>
      parseHandoffHosts value = some hosts := by
  rw [handoffHosts]
  cases hhosts : parseHandoffHosts value with
  | none => exact sound_error (h hhosts)
  | some hosts => exact sound_ok rfl

theorem rejectUnsupported_sound {keys : List String}
    (h : ∀ key ∈ keys, ∀ value, env key = some value →
      F (.unsupportedSetting key)) :
    Sound F (rejectUnsupported env keys) fun _ =>
      ∀ key ∈ keys, env key = none := by
  induction keys with
  | nil => exact sound_ok nofun
  | cons key keys ih =>
      rw [rejectUnsupported]
      rw [List.forall_mem_cons] at h
      cases hvalue : env key with
      | some value => exact sound_error (h.1 value hvalue)
      | none =>
          obtain ⟨herror, hok⟩ := ih h.2
          refine ⟨herror, fun a ha => ?_⟩
          rw [List.forall_mem_cons]
          exact ⟨hvalue, hok a ha⟩

/-! ## Conversations -/

/-- What an accepted part for conversations says of the environment. -/
structure CodexAccepted (env : Variables) (clientSecret inboundSecret : String)
    (codex : CodexConfig) : Prop where
  enabled : Enabled env
  secret : Given env Key.invocationSecret codex.secret
  isSecret : isInvocationSecret codex.secret = true
  secretFresh : codex.secret ≠ clientSecret ∧ codex.secret ≠ inboundSecret
  bridgeSecret : Given env Key.bridgeSecret codex.bridgeSecret
  isBridgeSecret : isBridgeSecret codex.bridgeSecret = true
  bridgeFresh : codex.bridgeSecret ≠ codex.secret ∧
    codex.bridgeSecret ≠ clientSecret ∧ codex.bridgeSecret ≠ inboundSecret
  bridgeBind : Given env Key.bridgeBind "0.0.0.0:9092"
  stateDir : Given env Key.stateDir codex.stateDir
  isAbsolute : isAbsolute codex.stateDir = true
  policy : ∃ policy models, Given env Key.modelPolicy policy ∧
    policyModels policy = some models ∧
      newAdmission codex.admission.catalogRevision
        codex.admission.guidanceRevision models = some codex.admission
  catalogRevision :
    Given env Key.catalogRevision codex.admission.catalogRevision
  guidanceRevision :
    Given env Key.guidanceRevision codex.admission.guidanceRevision

theorem newAdmission_eq_some {catalogRevision guidanceRevision : String}
    {models : List (String × List String)} {a : Admission}
    (h : newAdmission catalogRevision guidanceRevision models = some a) :
    a = ⟨catalogRevision, guidanceRevision, models⟩ := by
  rw [newAdmission] at h
  split_ifs at h
  exact (Option.some.inj h).symm

theorem codexGuard_sound {p : Prop} [Decidable p]
    (h : ¬p → F .invalidCodexConfig) :
    Sound F (codexValue (guard p)) fun _ => p := by
  by_cases hp : p
  · rw [guard, if_pos hp]
    exact sound_ok hp
  · rw [guard, if_neg hp]
    exact sound_error (h hp)

theorem parseEnabled_sound {clientSecret inboundSecret : String}
    (henabled : Enabled env) (hclient : Given env Key.clientSecret clientSecret)
    (hinbound : Given env Key.inboundSecret inboundSecret) :
    Sound (Fault U env)
      (CodexConfig.parseEnabled env clientSecret inboundSecret)
      (CodexAccepted env clientSecret inboundSecret) := by
  have hmissing : ∀ key ∈ codexSettings, Absent env key →
      Fault U env (.missing key) := fun key hkey =>
    Fault.missingCodex henabled hkey
  have hfault : CodexFault env → Fault U env .invalidCodexConfig :=
    Fault.codex henabled
  rw [CodexConfig.parseEnabled]
  apply (required_sound (hmissing _ (by simp [codexSettings]))).bind
  intro secret hsecret
  refine (codexGuard_sound fun hnot => hfault ?_).bind ?_
  · by_cases hused : secret = clientSecret ∨ secret = inboundSecret
    · rcases hused with rfl | rfl
      · exact .reusedInvocationSecret hsecret (by simp) hclient
      · exact .reusedInvocationSecret hsecret (by simp) hinbound
    · rw [not_or] at hused
      apply CodexFault.invocationSecret hsecret
      rw [← Bool.not_eq_true]
      exact fun his => hnot ⟨hused.1, hused.2, his⟩
  rintro _ ⟨hclientFresh, hinboundFresh, hisSecret⟩
  apply (required_sound (hmissing _ (by simp [codexSettings]))).bind
  intro bridgeSecret hbridge
  refine (codexGuard_sound fun hnot => hfault ?_).bind ?_
  · by_cases hused : bridgeSecret = secret ∨ bridgeSecret = clientSecret ∨
        bridgeSecret = inboundSecret
    · rcases hused with rfl | rfl | rfl
      · exact .reusedBridgeSecret hbridge (by simp) hsecret
      · exact .reusedBridgeSecret hbridge (by simp) hclient
      · exact .reusedBridgeSecret hbridge (by simp) hinbound
    · rw [not_or, not_or] at hused
      apply CodexFault.bridgeSecret hbridge
      rw [← Bool.not_eq_true]
      exact fun his => hnot ⟨hused.1, hused.2.1, hused.2.2, his⟩
  rintro _ ⟨hfresh, hfreshClient, hfreshInbound, hisBridge⟩
  apply (required_sound (hmissing _ (by simp [codexSettings]))).bind
  intro bind hbind
  refine (codexGuard_sound fun hnot => hfault (.bridgeBind hbind hnot)).bind ?_
  rintro _ rfl
  apply (required_sound (hmissing _ (by simp [codexSettings]))).bind
  intro stateDir hstateDir
  refine (codexGuard_sound fun hnot => hfault (.stateDir hstateDir
    (by rwa [Bool.not_eq_true] at hnot))).bind ?_
  intro _ habsolute
  apply (required_sound (hmissing _ (by simp [codexSettings]))).bind
  intro policy hpolicy
  refine (codexValue_sound fun hnone =>
    hfault (.modelPolicy hpolicy hnone)).bind ?_
  intro models hmodels
  apply (required_sound (hmissing _ (by simp [codexSettings]))).bind
  intro catalogRevision hcatalog
  apply (required_sound (hmissing _ (by simp [codexSettings]))).bind
  intro guidanceRevision hguidance
  refine (codexValue_sound fun hnone => hfault
    (.admission hpolicy hmodels hcatalog hguidance hnone)).bind ?_
  intro admission hadmission
  have hfields := newAdmission_eq_some hadmission
  subst hfields
  exact sound_ok
    { enabled := henabled
      secret := hsecret
      isSecret := hisSecret
      secretFresh := ⟨hclientFresh, hinboundFresh⟩
      bridgeSecret := hbridge
      isBridgeSecret := hisBridge
      bridgeFresh := ⟨hfresh, hfreshClient, hfreshInbound⟩
      bridgeBind := hbind
      stateDir := hstateDir
      isAbsolute := habsolute
      policy := ⟨policy, models, hpolicy, hmodels, hadmission⟩
      catalogRevision := hcatalog
      guidanceRevision := hguidance }

/-- The part for conversations, by the flag that turns it on. -/
inductive CodexChoice (env : Variables) (clientSecret inboundSecret : String) :
    Option CodexConfig → Prop
  | off : ¬Enabled env → CodexChoice env clientSecret inboundSecret none
  | on {codex : CodexConfig} :
      CodexAccepted env clientSecret inboundSecret codex →
        CodexChoice env clientSecret inboundSecret (some codex)

theorem parseCodex_sound {clientSecret inboundSecret : String}
    (hclient : Given env Key.clientSecret clientSecret)
    (hinbound : Given env Key.inboundSecret inboundSecret) :
    Sound (Fault U env) (CodexConfig.parse env clientSecret inboundSecret)
      fun codex => CodexChoice env clientSecret inboundSecret codex ∧
        (∀ key ∈ forbiddenCodexSettings, env key = none) ∧
        ∀ value, env Key.codexEnabled = some value →
          value = "false" ∨ value = "true" := by
  rw [CodexConfig.parse]
  by_cases hforbidden :
      (forbiddenCodexSettings.any fun key => (env key).isSome) = true
  · rw [if_pos hforbidden]
    rw [List.any_eq_true] at hforbidden
    obtain ⟨key, hkey, hsome⟩ := hforbidden
    obtain ⟨value, hvalue⟩ := Option.isSome_iff_exists.mp hsome
    exact sound_error (.forbidden hkey hvalue)
  · rw [if_neg hforbidden]
    have hnone : ∀ key ∈ forbiddenCodexSettings, env key = none := by
      intro key hkey
      rw [← Option.not_isSome_iff_eq_none]
      exact fun hsome => hforbidden (List.any_eq_true.mpr ⟨key, hkey, hsome⟩)
    cases hflag : env Key.codexEnabled with
    | none =>
        refine sound_ok ⟨.off ?_, hnone, nofun⟩
        rw [Enabled, hflag]
        exact nofun
    | some value =>
        by_cases hfalse : value = "false"
        · simp only [hfalse, if_true]
          refine sound_ok ⟨.off ?_, hnone, ?_⟩
          · rw [Enabled, hflag, hfalse]
            decide
          · rintro _ ⟨⟩
            exact Or.inl rfl
        · simp only [hfalse, if_false]
          by_cases htrue : value = "true"
          · simp only [htrue, if_true]
            have henabled : Enabled env := by rw [Enabled, hflag, htrue]
            apply (parseEnabled_sound henabled hclient hinbound).map
            intro codex hcodex
            refine ⟨.on hcodex, hnone, ?_⟩
            rintro _ ⟨⟩
            exact Or.inr rfl
          · simp only [htrue, if_false]
            exact sound_error (.flag hflag hfalse htrue)

/-! ## The gateway -/

variable (U) in
/-- What an accepted configuration says of the environment. -/
structure Parsed (env : Variables) (config : GatewayConfig U) : Prop where
  supported : ∀ key ∈ unsupportedSettings, env key = none
  roomGatewayOrigin : ∃ value, Given env Key.roomGatewayOrigin value ∧
    U.parse value = some config.roomGatewayOrigin
  trustedOrigin : TrustedOrigin U config.roomGatewayOrigin
  tokenUrl : ∃ value, Given env Key.tokenUrl value ∧
    U.parse value = some config.tokenUrl
  trustedTokenUrl : TrustedTokenUrl U config.tokenUrl
  clientId : Given env Key.clientId requiredClientId
  isClientId : config.clientId = requiredClientId
  clientSecret : Given env Key.clientSecret config.clientSecret
  inboundSecret : ∃ inboundSecret, Given env Key.inboundSecret inboundSecret ∧
    inboundSecret ≠ config.clientSecret ∧
      CodexChoice env config.clientSecret inboundSecret config.codex
  cardUrl : ∃ value url, Given env Key.cardUrl value ∧
    U.parse value = some url ∧
      Reviewed U [fixedReferenceAgentBaseUrl, fixedReferenceAgentCardUrl] url
  allowedHosts : ∃ value, Given env Key.allowedHosts value ∧
    parseHandoffHosts value = some config.allowedHandoffHosts
  handoffHost : ∃ host, Given env Key.handoffHost host ∧
    host ∈ config.allowedHandoffHosts
  pollMillis : ∃ value, Given env Key.pollMillis value ∧
    parseU64 value = some config.pollMillis
  pollBounds : 100 ≤ config.pollMillis ∧ config.pollMillis ≤ 5000
  unforbidden : ∀ key ∈ forbiddenCodexSettings, env key = none
  flag : ∀ value, env Key.codexEnabled = some value →
    value = "false" ∨ value = "true"

theorem CodexAccepted.settings {clientSecret inboundSecret : String}
    {codex : CodexConfig}
    (h : CodexAccepted env clientSecret inboundSecret codex) :
    ∀ key ∈ codexSettings, ¬Absent env key := by
  obtain ⟨policy, -, hpolicy, -⟩ := h.policy
  simp only [codexSettings, List.forall_mem_cons, List.not_mem_nil,
    false_implies, implies_true, and_true]
  exact ⟨fun habsent => habsent _ h.secret,
    fun habsent => habsent _ h.bridgeSecret,
    fun habsent => habsent _ h.bridgeBind,
    fun habsent => habsent _ h.stateDir,
    fun habsent => habsent _ hpolicy,
    fun habsent => habsent _ h.catalogRevision,
    fun habsent => habsent _ h.guidanceRevision⟩

theorem CodexAccepted.faultless {clientSecret inboundSecret : String}
    {codex : CodexConfig}
    (h : CodexAccepted env clientSecret inboundSecret codex)
    (hclient : Given env Key.clientSecret clientSecret)
    (hinbound : Given env Key.inboundSecret inboundSecret) :
    ¬CodexFault env := by
  intro hfault
  cases hfault with
  | invocationSecret hgiven hbad =>
      have his := h.isSecret
      rw [h.secret.unique hgiven, hbad] at his
      cases his
  | reusedInvocationSecret hgiven hkey hused =>
      obtain rfl := h.secret.unique hgiven
      simp only [List.mem_cons, List.not_mem_nil, or_false] at hkey
      rcases hkey with rfl | rfl
      · exact h.secretFresh.1 (hused.unique hclient)
      · exact h.secretFresh.2 (hused.unique hinbound)
  | bridgeSecret hgiven hbad =>
      have his := h.isBridgeSecret
      rw [h.bridgeSecret.unique hgiven, hbad] at his
      cases his
  | reusedBridgeSecret hgiven hkey hused =>
      obtain rfl := h.bridgeSecret.unique hgiven
      simp only [List.mem_cons, List.not_mem_nil, or_false] at hkey
      rcases hkey with rfl | rfl | rfl
      · exact h.bridgeFresh.1 (hused.unique h.secret)
      · exact h.bridgeFresh.2.1 (hused.unique hclient)
      · exact h.bridgeFresh.2.2 (hused.unique hinbound)
  | bridgeBind hgiven hbad => exact hbad (hgiven.unique h.bridgeBind)
  | stateDir hgiven hbad =>
      have his := h.isAbsolute
      rw [h.stateDir.unique hgiven, hbad] at his
      cases his
  | modelPolicy hgiven hbad =>
      obtain ⟨policy, models, hpolicy, hmodels, -⟩ := h.policy
      rw [hpolicy.unique hgiven, hbad] at hmodels
      cases hmodels
  | admission hgiven hallowed hcatalog hguidance hbad =>
      obtain ⟨policy, models, hpolicy, hmodels, hadmission⟩ := h.policy
      rw [hpolicy.unique hgiven, hallowed] at hmodels
      cases hmodels
      rw [h.catalogRevision.unique hcatalog,
        h.guidanceRevision.unique hguidance, hbad] at hadmission
      cases hadmission

theorem Parsed.settings {config : GatewayConfig U}
    (h : Parsed U env config) : ∀ key ∈ requiredSettings, ¬Absent env key := by
  obtain ⟨_, horigin, -⟩ := h.roomGatewayOrigin
  obtain ⟨_, htoken, -⟩ := h.tokenUrl
  obtain ⟨_, hinbound, -⟩ := h.inboundSecret
  obtain ⟨_, _, hcard, -⟩ := h.cardUrl
  obtain ⟨_, hhosts, -⟩ := h.allowedHosts
  obtain ⟨_, hhost, -⟩ := h.handoffHost
  obtain ⟨_, hpoll, -⟩ := h.pollMillis
  simp only [requiredSettings, List.forall_mem_cons, List.not_mem_nil,
    false_implies, implies_true, and_true]
  exact ⟨fun habsent => habsent _ horigin, fun habsent => habsent _ htoken,
    fun habsent => habsent _ h.clientId,
    fun habsent => habsent _ h.clientSecret,
    fun habsent => habsent _ hinbound, fun habsent => habsent _ hcard,
    fun habsent => habsent _ hhosts, fun habsent => habsent _ hhost,
    fun habsent => habsent _ hpoll⟩

theorem Parsed.codex {config : GatewayConfig U} (h : Parsed U env config)
    (henabled : Enabled env) : ∃ inboundSecret codex,
      Given env Key.inboundSecret inboundSecret ∧ config.codex = some codex ∧
        CodexAccepted env config.clientSecret inboundSecret codex := by
  obtain ⟨inboundSecret, hinbound, -, hchoice⟩ := h.inboundSecret
  generalize hcodex : config.codex = codex at hchoice
  cases hchoice with
  | off hoff => exact absurd henabled hoff
  | on haccepted => exact ⟨inboundSecret, _, hinbound, rfl, haccepted⟩

theorem Parsed.faultless {config : GatewayConfig U} (h : Parsed U env config)
    (e : ConfigError) : ¬Fault U env e := by
  intro hfault
  cases hfault with
  | unsupported hkey hvalue =>
      rw [h.supported _ hkey] at hvalue
      cases hvalue
  | missing hkey habsent => exact h.settings _ hkey habsent
  | missingCodex henabled hkey habsent =>
      obtain ⟨_, _, -, -, haccepted⟩ := h.codex henabled
      exact haccepted.settings _ hkey habsent
  | roomGatewayOrigin hgiven hbad =>
      obtain ⟨value, hvalue, hurl⟩ := h.roomGatewayOrigin
      obtain rfl := hvalue.unique hgiven
      exact hbad _ hurl h.trustedOrigin
  | tokenUrl hgiven hbad =>
      obtain ⟨value, hvalue, hurl⟩ := h.tokenUrl
      obtain rfl := hvalue.unique hgiven
      exact hbad _ hurl h.trustedTokenUrl
  | clientId hgiven hbad => exact hbad (hgiven.unique h.clientId)
  | reusedInboundSecret hclient hinbound =>
      obtain ⟨value, hvalue, hfresh, -⟩ := h.inboundSecret
      rw [hvalue.unique hinbound] at hfresh
      exact hfresh (hclient.unique h.clientSecret)
  | cardUrl hgiven hbad =>
      obtain ⟨value, url, hvalue, hurl, hreviewed⟩ := h.cardUrl
      obtain rfl := hvalue.unique hgiven
      exact hbad _ hurl hreviewed
  | allowedHosts hgiven hbad =>
      obtain ⟨value, hvalue, hhosts⟩ := h.allowedHosts
      rw [hvalue.unique hgiven, hbad] at hhosts
      cases hhosts
  | handoffHost hgiven hparse hhost hbad =>
      obtain ⟨value, hvalue, hhosts⟩ := h.allowedHosts
      obtain ⟨host, hselected, hmem⟩ := h.handoffHost
      rw [hvalue.unique hgiven, hparse] at hhosts
      cases hhosts
      exact hbad (hselected.unique hhost ▸ hmem)
  | pollMillis hgiven hbad =>
      obtain ⟨value, hvalue, hparse⟩ := h.pollMillis
      obtain rfl := hvalue.unique hgiven
      exact hbad _ hparse h.pollBounds
  | forbidden hkey hvalue =>
      rw [h.unforbidden _ hkey] at hvalue
      cases hvalue
  | flag hvalue hfalse htrue =>
      rcases h.flag _ hvalue with rfl | rfl
      · exact hfalse rfl
      · exact htrue rfl
  | codex henabled hbad =>
      obtain ⟨_, _, hinbound, -, haccepted⟩ := h.codex henabled
      exact haccepted.faultless h.clientSecret hinbound hbad

theorem parse_sound (U : Urls) (env : Variables) :
    Sound (Fault U env) (GatewayConfig.parse U env) (Parsed U env) := by
  have hmissing : ∀ key ∈ requiredSettings, Absent env key →
      Fault U env (.missing key) := fun key hkey => Fault.missing hkey
  rw [GatewayConfig.parse]
  refine (rejectUnsupported_sound fun key hkey value hvalue =>
    .unsupported hkey hvalue).bind ?_
  intro _ hsupported
  apply (required_sound (hmissing _ (by simp [requiredSettings]))).bind
  intro origin horigin
  refine (parseChecked_sound (fun url => trustedOrigin_iff) fun hbad =>
    .roomGatewayOrigin horigin hbad).bind ?_
  rintro originUrl ⟨horiginUrl, htrustedOrigin⟩
  apply (required_sound (hmissing _ (by simp [requiredSettings]))).bind
  intro token htoken
  refine (parseChecked_sound (fun url => trustedTokenUrl_iff) fun hbad =>
    .tokenUrl htoken hbad).bind ?_
  rintro tokenUrl ⟨htokenUrl, htrustedToken⟩
  apply (required_sound (hmissing _ (by simp [requiredSettings]))).bind
  intro clientId hclientId
  refine (ensure_sound fun hnot => .clientId hclientId hnot).bind ?_
  rintro _ rfl
  apply (required_sound (hmissing _ (by simp [requiredSettings]))).bind
  intro clientSecret hclient
  refine (ensure_sound fun hnot => absurd hclient.nonempty hnot).bind ?_
  intro _ _
  apply (required_sound (hmissing _ (by simp [requiredSettings]))).bind
  intro inboundSecret hinbound
  refine (ensure_sound fun hnot => ?_).bind ?_
  · rw [not_not] at hnot
    exact .reusedInboundSecret hclient (hnot ▸ hinbound)
  intro _ hfresh
  apply (required_sound (hmissing _ (by simp [requiredSettings]))).bind
  intro card hcard
  refine (parseFixedCardUrl_sound fun hbad => .cardUrl hcard hbad).bind ?_
  rintro _ ⟨cardUrl, hcardUrl, hreviewed⟩
  apply (required_sound (hmissing _ (by simp [requiredSettings]))).bind
  intro hosts hhosts
  refine (handoffHosts_sound fun hbad => .allowedHosts hhosts hbad).bind ?_
  intro allowed hallowed
  apply (required_sound (hmissing _ (by simp [requiredSettings]))).bind
  intro selected hselected
  refine (ensure_sound fun hnot =>
    .handoffHost hhosts hallowed hselected hnot).bind ?_
  intro _ hmem
  refine (parseBoundedU64_sound (hmissing _ (by simp [requiredSettings]))
    fun value hvalue hbad => .pollMillis hvalue hbad).bind ?_
  rintro pollMillis ⟨hlow, hhigh, poll, hpoll, hparsed⟩
  apply (parseCodex_sound hclient hinbound).bind
  rintro codex ⟨hcodex, hunforbidden, hflag⟩
  exact sound_ok
    { supported := hsupported
      roomGatewayOrigin := ⟨origin, horigin, horiginUrl⟩
      trustedOrigin := htrustedOrigin
      tokenUrl := ⟨token, htoken, htokenUrl⟩
      trustedTokenUrl := htrustedToken
      clientId := hclientId
      isClientId := rfl
      clientSecret := hclient
      inboundSecret := ⟨inboundSecret, hinbound, hfresh, hcodex⟩
      cardUrl := ⟨card, cardUrl, hcard, hcardUrl, hreviewed⟩
      allowedHosts := ⟨hosts, hhosts, hallowed⟩
      handoffHost := ⟨selected, hselected, hmem⟩
      pollMillis := ⟨poll, hpoll, hparsed⟩
      pollBounds := ⟨hlow, hhigh⟩
      unforbidden := hunforbidden
      flag := hflag }

/-- An environment is refused for a fault that it has, and accepted where it
has none. -/
theorem config_refused_for_faults (U : Urls) (env : Variables) :
    (∀ e, GatewayConfig.parse U env = .error e → Fault U env e) ∧
      ((∃ config, GatewayConfig.parse U env = .ok config) ↔
        ∀ e, ¬Fault U env e) := by
  obtain ⟨herror, hok⟩ := parse_sound U env
  refine ⟨herror, ?_, fun hfaultless => ?_⟩
  · rintro ⟨config, hparse⟩
    exact (hok config hparse).faultless
  · cases hparse : GatewayConfig.parse U env with
    | error e => exact absurd (herror e hparse) (hfaultless e)
    | ok config => exact ⟨config, rfl⟩

end AgentGateway.Config
