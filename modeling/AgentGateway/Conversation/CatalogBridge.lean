import AgentGateway.Conversation.Traces
import AgentGateway.Conversation.Turns

/-!
# The catalog bridge

`catalog_service`: the route by which a workload that holds a secret reads the
models that the worker offers.
-/

namespace AgentGateway

open Json (Value)
open Utf8 (Bytes)
open Interaction
open Mediation

namespace CatalogBridge

/-! ## Requests and responses -/

/-- How a request body ends, as far as one second shows. -/
inductive BodyEnd where
  | complete
  | failed
  | late
deriving DecidableEq

structure Body where
  received : Bytes
  ending : BodyEnd

/-- `to_bytes` with its limit, under the timeout. -/
def Body.toBytes (limit : ℕ) (body : Body) : Option Bytes :=
  if body.received.length > limit then none
  else if body.ending = .complete then some body.received
  else none

structure Request where
  /-- The values of the headers named `authorization`, in order. -/
  authorization : List Bytes
  query : Option String
  body : Body

structure Answer where
  status : ℕ
  body : Bytes
deriving DecidableEq

def failure (status : ℕ) (code : String) : Answer :=
  ⟨status, toVec (.object [("code", .str code)])⟩

def unauthorized : Answer := failure 401 "authentication_required"

def badRequest : Answer := failure 400 "invalid_task_input"

def unavailable : Answer := failure 503 "runtime_unavailable"

/-! ## Credentials -/

/-- The bytes that `to_str` admits in a header value. -/
def isVisible (b : UInt8) : Bool := (32 ≤ b && b < 127) || b = 9

def toStr (value : Bytes) : Option Bytes :=
  if value.all isVisible then some value else none

def isAlphanumeric (b : UInt8) : Bool :=
  (48 ≤ b && b ≤ 57) || (65 ≤ b && b ≤ 90) || (97 ≤ b && b ≤ 122)

def bytesOf (s : String) : Bytes := Utf8.encode s.toList

def isSecretByte (b : UInt8) : Bool :=
  isAlphanumeric b || (bytesOf "-._~+/=").contains b

/-- A SHA-256 digest. -/
abbrev Hash := Vector UInt8 32

/-- The comparison that looks at all bytes. -/
def sameHash (hash credentialHash : Hash) : Bool :=
  (hash.toList.zip credentialHash.toList).foldl
    (fun n ab => n ||| (ab.1 ^^^ ab.2)) 0 = 0

structure Bridge where
  /-- Of the worker client. -/
  admission : Admission
  credentialHash : Hash

variable (K : Crates) (digest : Bytes → Hash)

def catalogService (a : Admission) (secret : String) :
    Except MediationError Bridge :=
  if (bytesOf secret).length < 32 ∨ (bytesOf secret).length > 4096 ∨
      ¬(bytesOf secret).all isSecretByte then .error .validation
  else .ok ⟨a, digest (bytesOf secret)⟩

def bearer : Bytes := bytesOf "Bearer "

def validToken (bridge : Bridge) (token : Bytes) : Bool :=
  if token.length > 4096 then false
  else sameHash (digest token) bridge.credentialHash

/-- The first header holds the secret, and there is no second one. -/
def valid (bridge : Bridge) (headers : List Bytes) : Bool :=
  ((headers.head?.bind toStr).bind fun s => bearer.isPrefixOf? s).any
      (validToken digest bridge) &&
    headers.tail.head?.isNone

/-! ## The handler -/

/-- What remains of `catalog` once a request is accepted. -/
def serve (bridge : Bridge) : Prog effects Answer := do
  match ← Worker.admitCodex.run with
  | .error _ => return unavailable
  | .ok _ =>
      match ← (Worker.catalog K bridge.admission).run with
      | .ok page => return ⟨200, toVec page⟩
      | .error _ => return unavailable

def catalog (bridge : Bridge) (request : Request) : Prog effects Answer :=
  if ¬valid digest bridge request.authorization then .ret unauthorized
  else if request.query.isSome then .ret badRequest
  else if request.body.toBytes 1 ≠ some [] then .ret badRequest
  else serve K bridge

variable {K digest}

/-! ## Who is answered -/

theorem foldl_or_xor_eq_zero (n : UInt8) (xs : List (UInt8 × UInt8)) :
    xs.foldl (fun n ab => n ||| (ab.1 ^^^ ab.2)) n = 0 ↔
      n = 0 ∧ ∀ ab ∈ xs, ab.1 = ab.2 := by
  induction xs generalizing n with
  | nil => simp
  | cons ab xs ih =>
      rw [List.foldl_cons, ih, UInt8.or_eq_zero_iff, UInt8.xor_eq_zero_iff,
        List.forall_mem_cons, and_assoc]

theorem eq_of_zip {xs ys : List UInt8} (hlength : xs.length = ys.length)
    (h : ∀ ab ∈ xs.zip ys, ab.1 = ab.2) : xs = ys := by
  apply List.ext_getElem hlength
  intro i hx hy
  have hi : i < (xs.zip ys).length := by
    rw [List.length_zip]
    omega
  have hmem := h _ (List.getElem_mem hi)
  rwa [List.getElem_zip] at hmem

theorem sameHash_iff {x y : Hash} : sameHash x y = true ↔ x = y := by
  rw [sameHash, decide_eq_true_iff, foldl_or_xor_eq_zero]
  constructor
  · rintro ⟨-, h⟩
    exact Vector.toList_inj.mp (eq_of_zip (by simp) h)
  · rintro rfl
    refine ⟨rfl, fun ab hab => ?_⟩
    obtain ⟨i, hi, rfl⟩ := List.getElem_of_mem hab
    rw [List.getElem_zip]

/-- One header, which names a token with the digest of the secret. -/
theorem valid_iff {bridge : Bridge} {headers : List Bytes} :
    valid digest bridge headers = true ↔ ∃ token,
      headers = [bearer ++ token] ∧ (bearer ++ token).all isVisible = true ∧
        token.length ≤ 4096 ∧ digest token = bridge.credentialHash := by
  have htoken : ∀ token, validToken digest bridge token = true ↔
      token.length ≤ 4096 ∧ digest token = bridge.credentialHash := by
    intro token
    rw [validToken]
    by_cases hlength : token.length > 4096
    · rw [if_pos hlength]
      simp only [Bool.false_eq_true, false_iff, not_and]
      omega
    · rw [if_neg hlength, sameHash_iff]
      exact ⟨fun h => ⟨by omega, h⟩, fun h => h.2⟩
  rw [valid, Bool.and_eq_true, Option.any_eq_true]
  constructor
  · rintro ⟨⟨token, hnamed, hvalid⟩, hlast⟩
    obtain ⟨s, hs, hstripped⟩ := Option.bind_eq_some_iff.mp hnamed
    obtain ⟨value, hvalue, hstr⟩ := Option.bind_eq_some_iff.mp hs
    rw [List.isPrefixOf?_eq_some_iff_append_eq, eq_comm] at hstripped
    rw [toStr] at hstr
    split_ifs at hstr with hvisible
    cases hstr
    refine ⟨token, ?_, hstripped ▸ hvisible, (htoken token).mp hvalid⟩
    obtain ⟨rest, rfl⟩ := List.head?_eq_some_iff.mp hvalue
    cases rest with
    | nil => rw [hstripped]
    | cons _ _ => cases hlast
  · rintro ⟨token, rfl, hvisible, hvalid⟩
    refine ⟨⟨token, ?_, (htoken token).mpr hvalid⟩, rfl⟩
    rw [List.head?_cons, Option.bind_some, toStr, if_pos hvisible,
      Option.bind_some, List.isPrefixOf?_eq_some_iff_append_eq]

theorem isVisible_of_isSecretByte {b : UInt8} (h : isSecretByte b = true) :
    isVisible b = true := by
  have hall : ∀ i : Fin 256, isSecretByte (UInt8.ofNat i) = true →
      isVisible (UInt8.ofNat i) = true := by decide +kernel
  have hb := hall ⟨b.toNat, b.toNat_lt⟩
  rw [UInt8.ofNat_toNat] at hb
  exact hb h

theorem catalogService_eq_ok {a : Admission} {secret : String}
    {bridge : Bridge} (h : catalogService digest a secret = .ok bridge) :
    bridge = ⟨a, digest (bytesOf secret)⟩ ∧
      (bytesOf secret).length ≤ 4096 ∧
        (bytesOf secret).all isSecretByte = true := by
  rw [catalogService] at h
  split_ifs at h with hsecret
  cases h
  simp only [not_or, not_not, Nat.not_lt] at hsecret
  exact ⟨rfl, hsecret.2.1, hsecret.2.2⟩

/-- A header with the secret is accepted. -/
theorem valid_secret {a : Admission} {secret : String} {bridge : Bridge}
    (h : catalogService digest a secret = .ok bridge) :
    valid digest bridge [bearer ++ bytesOf secret] = true := by
  obtain ⟨rfl, hlength, hbytes⟩ := catalogService_eq_ok h
  refine valid_iff.mpr ⟨bytesOf secret, rfl, ?_, hlength, rfl⟩
  rw [List.all_append, Bool.and_eq_true]
  constructor
  · decide +kernel
  · rw [List.all_eq_true] at hbytes ⊢
    exact fun b hb => isVisible_of_isSecretByte (hbytes b hb)

/-! ## What is offered -/

/-- The reasoning efforts of a model, all admitted and none twice. -/
structure OfferedEfforts (allowed : List String) (es : List Value)
    (efforts : List String) : Prop where
  ids : es.map (fun e => e["id"]) = efforts.map .str
  nodup : efforts.Nodup
  admitted : ∀ e ∈ efforts, e ∈ allowed

structure OfferedModel (a : Admission) (model : Value) (id : String) :
    Prop where
  named : model["id"] = .str id
  efforts : ∃ allowed es efforts, a.models.lookup id = some allowed ∧
    model["supportedReasoningEfforts"] = .arr es ∧
      OfferedEfforts allowed es efforts ∧
        (model["defaultReasoningEffort"] = .null ∨
          ∃ e ∈ efforts, model["defaultReasoningEffort"] = .str e)

/-- A page of the reviewed catalog revision with admitted models only. -/
structure Offer (K : Crates) (a : Admission) (page : Value) : Prop where
  schema : Contracts.catalog.valid K.isFormat page = true
  revision : page["catalogRevision"] = .str a.catalogRevision
  unpaged : page["nextCursor"] = .null
  models : ∃ models ids, page["data"] = .arr models ∧ ids.Nodup ∧
    List.Forall₂ (OfferedModel a) models ids

theorem catalogEfforts_eq_some {allowed : List String} {es : List Value}
    {seen result : List String} :
    Worker.catalogEfforts allowed es seen = some result ↔ ∃ efforts,
      result = efforts.reverse ++ seen ∧
        OfferedEfforts allowed es efforts ∧ ∀ e ∈ efforts, e ∉ seen := by
  induction es generalizing seen with
  | nil =>
      rw [Worker.catalogEfforts, Option.some.injEq]
      constructor
      · rintro rfl
        exact ⟨[], rfl, ⟨rfl, List.nodup_nil, nofun⟩, nofun⟩
      · rintro ⟨efforts, rfl, hoffered, -⟩
        have hnil := hoffered.ids
        rw [List.map_nil, eq_comm, List.map_eq_nil_iff] at hnil
        rw [hnil]
        rfl
  | cons e es ih =>
      rw [Worker.catalogEfforts]
      constructor
      · intro h
        obtain ⟨id, hid, h⟩ := Option.bind_eq_some_iff.mp h
        obtain ⟨⟨⟩, hguard, h⟩ := Option.bind_eq_some_iff.mp h
        rw [Value.asStr?_eq_some] at hid
        obtain ⟨hallowed, hseen⟩ : id ∈ allowed ∧ id ∉ seen := by
          simpa [guard] using hguard
        obtain ⟨efforts, hresult, hoffered, hfresh⟩ := ih.mp h
        refine ⟨id :: efforts, by simpa using hresult, ⟨?_, ?_, ?_⟩, ?_⟩
        · rw [List.map_cons, List.map_cons, hid, hoffered.ids]
        · rw [List.nodup_cons]
          exact ⟨fun hmem => hfresh id hmem List.mem_cons_self, hoffered.nodup⟩
        · rw [List.forall_mem_cons]
          exact ⟨hallowed, hoffered.admitted⟩
        · rw [List.forall_mem_cons]
          exact ⟨hseen, fun x hx hmem =>
            hfresh x hx (List.mem_cons_of_mem _ hmem)⟩
      · rintro ⟨efforts, hresult, hoffered, hfresh⟩
        cases efforts with
        | nil => cases hoffered.ids
        | cons id efforts =>
            obtain ⟨hid, hids⟩ := List.cons.inj hoffered.ids
            have hnodup := List.nodup_cons.mp hoffered.nodup
            have hadmitted := List.forall_mem_cons.mp hoffered.admitted
            rw [List.forall_mem_cons] at hfresh
            refine Option.bind_eq_some_iff.mpr
              ⟨id, Value.asStr?_eq_some.mpr hid, ?_⟩
            refine Option.bind_eq_some_iff.mpr ⟨(), ?_, ?_⟩
            · simp [guard, hadmitted.1, hfresh.1]
            · refine ih.mpr ⟨efforts, by simpa using hresult,
                ⟨hids, hnodup.2, hadmitted.2⟩, fun x hx hmem => ?_⟩
              rcases List.mem_cons.mp hmem with rfl | hmem
              · exact hnodup.1 hx
              · exact hfresh.2 x hx hmem

theorem catalogModels_cons {a : Admission} {model : Value}
    {models : List Value} {seen : List String} :
    Worker.catalogModels a (model :: models) seen = some () ↔ ∃ id,
      OfferedModel a model id ∧ id ∉ seen ∧
        Worker.catalogModels a models (id :: seen) = some () := by
  rw [Worker.catalogModels]
  constructor
  · intro h
    obtain ⟨id, hid, h⟩ := Option.bind_eq_some_iff.mp h
    obtain ⟨allowed, hallowed, h⟩ := Option.bind_eq_some_iff.mp h
    obtain ⟨⟨⟩, hguard, h⟩ := Option.bind_eq_some_iff.mp h
    obtain ⟨es, hes, h⟩ := Option.bind_eq_some_iff.mp h
    obtain ⟨found, hfound, h⟩ := Option.bind_eq_some_iff.mp h
    rw [Value.asStr?_eq_some] at hid
    rw [Value.asArray?_eq_some] at hes
    have hseen : id ∉ seen := by simpa [guard] using hguard
    obtain ⟨efforts, rfl, hoffered, -⟩ := catalogEfforts_eq_some.mp hfound
    refine ⟨id, ⟨hid, allowed, es, efforts, hallowed, hes, hoffered, ?_⟩,
      hseen, ?_⟩
    · split_ifs at h with hnull
      · exact Or.inl ((Value.isNull_iff _).mp hnull)
      · obtain ⟨e, he, h⟩ := Option.bind_eq_some_iff.mp h
        obtain ⟨⟨⟩, hmem, -⟩ := Option.bind_eq_some_iff.mp h
        exact Or.inr ⟨e, by simpa [guard] using hmem,
          Value.asStr?_eq_some.mp he⟩
    · split_ifs at h with hnull
      · exact h
      · obtain ⟨e, he, h⟩ := Option.bind_eq_some_iff.mp h
        obtain ⟨⟨⟩, hmem, h⟩ := Option.bind_eq_some_iff.mp h
        exact h
  · rintro ⟨id, ⟨hid, allowed, es, efforts, hallowed, hes, hoffered,
      hdefault⟩, hseen, hrest⟩
    rw [← Value.asStr?_eq_some] at hid
    rw [← Value.asArray?_eq_some] at hes
    have hfound : Worker.catalogEfforts allowed es [] = some efforts.reverse :=
      catalogEfforts_eq_some.mpr
        ⟨efforts, (List.append_nil _).symm, hoffered, by simp⟩
    refine Option.bind_eq_some_iff.mpr ⟨id, hid, ?_⟩
    refine Option.bind_eq_some_iff.mpr ⟨allowed, hallowed, ?_⟩
    refine Option.bind_eq_some_iff.mpr ⟨(), by simp [guard, hseen], ?_⟩
    refine Option.bind_eq_some_iff.mpr ⟨es, hes, ?_⟩
    refine Option.bind_eq_some_iff.mpr ⟨_, hfound, ?_⟩
    by_cases hnull : model["defaultReasoningEffort"].isNull = true
    · rw [if_pos hnull]
      exact hrest
    · rw [if_neg hnull]
      obtain ⟨e, he, heq⟩ := hdefault.resolve_left
        fun h => hnull ((Value.isNull_iff _).mpr h)
      refine Option.bind_eq_some_iff.mpr
        ⟨e, Value.asStr?_eq_some.mpr heq, ?_⟩
      exact Option.bind_eq_some_iff.mpr ⟨(), by simp [guard, he], hrest⟩

theorem catalogModels_iff {a : Admission} {models : List Value}
    {seen : List String} :
    Worker.catalogModels a models seen = some () ↔ ∃ ids : List String,
      ids.Nodup ∧ (∀ id ∈ ids, id ∉ seen) ∧
        List.Forall₂ (OfferedModel a) models ids := by
  induction models generalizing seen with
  | nil =>
      refine ⟨fun _ => ⟨[], List.nodup_nil, nofun, .nil⟩, fun _ => rfl⟩
  | cons model models ih =>
      rw [catalogModels_cons]
      constructor
      · rintro ⟨id, hoffered, hseen, h⟩
        obtain ⟨ids, hnodup, hfresh, hall⟩ := ih.mp h
        refine ⟨id :: ids, List.nodup_cons.mpr ⟨?_, hnodup⟩, ?_,
          .cons hoffered hall⟩
        · exact fun hmem => hfresh id hmem List.mem_cons_self
        · rw [List.forall_mem_cons]
          exact ⟨hseen, fun x hx hmem =>
            hfresh x hx (List.mem_cons_of_mem _ hmem)⟩
      · rintro ⟨_, hnodup, hfresh, hall⟩
        cases hall with
        | @cons _ id _ ids hoffered hall =>
            obtain ⟨hid, hnodup⟩ := List.nodup_cons.mp hnodup
            rw [List.forall_mem_cons] at hfresh
            refine ⟨id, hoffered, hfresh.1, ih.mpr ⟨ids, hnodup, ?_, hall⟩⟩
            intro x hx hmem
            rcases List.mem_cons.mp hmem with rfl | hmem
            · exact hid hx
            · exact hfresh.2 x hx hmem

/-- A page is accepted where it is an offer that is not too long. -/
theorem catalogPage_iff {a : Admission} {page : Value} (hsafe : Safe page) :
    Worker.catalogPage K a page = some () ↔
      Offer K a page ∧ (toVec page).length ≤ 1048576 := by
  rw [Worker.catalogPage]
  constructor
  · intro h
    obtain ⟨⟨⟩, hschema, h⟩ := Option.bind_eq_some_iff.mp h
    obtain ⟨b, hb, h⟩ := Option.bind_eq_some_iff.mp h
    obtain ⟨⟨⟩, hlength, h⟩ := Option.bind_eq_some_iff.mp h
    obtain ⟨⟨⟩, hrevision, h⟩ := Option.bind_eq_some_iff.mp h
    obtain ⟨⟨⟩, hcursor, h⟩ := Option.bind_eq_some_iff.mp h
    obtain ⟨models, hmodels, h⟩ := Option.bind_eq_some_iff.mp h
    obtain ⟨ids, hnodup, -, hall⟩ := catalogModels_iff.mp h
    rw [canonicalBytes_of_safe hsafe] at hb
    cases hb
    exact ⟨⟨valid_of_schema hschema, by simpa [guard] using hrevision,
      by simpa [guard] using hcursor,
      models, ids, Value.asArray?_eq_some.mp hmodels, hnodup, hall⟩,
      by simpa [guard] using hlength⟩
  · rintro ⟨⟨hschema, hrevision, hcursor, models, ids, hmodels, hnodup,
      hall⟩, hlength⟩
    refine Option.bind_eq_some_iff.mpr
      ⟨(), (schema_of_safe K hsafe).mpr hschema, ?_⟩
    refine Option.bind_eq_some_iff.mpr ⟨_, canonicalBytes_of_safe hsafe, ?_⟩
    refine Option.bind_eq_some_iff.mpr ⟨(), by simp [guard, hlength], ?_⟩
    refine Option.bind_eq_some_iff.mpr ⟨(), by simp [guard, hrevision], ?_⟩
    refine Option.bind_eq_some_iff.mpr ⟨(), by simp [guard, hcursor], ?_⟩
    refine Option.bind_eq_some_iff.mpr
      ⟨models, Value.asArray?_eq_some.mpr hmodels, ?_⟩
    exact catalogModels_iff.mpr ⟨ids, hnodup, by simp, hall⟩

/-! ## What is relayed -/

/-- What the worker sends as JSON is read back from its text. -/
theorem safe_of_response {path : WorkerPath} (hpath : path ≠ .rpc)
    {reply : Reply} {v : Value}
    (hv : workerResponse path reply = .ok (some v)) :
    Safe v ∧ v.depth ≤ maxJsonDepth := by
  cases reply with
  | none => cases hv
  | some response =>
      rw [workerResponse] at hv
      cases hbody : workerBody path response.received with
      | none =>
          rw [hbody] at hv
          split_ifs at hv
          cases hv
      | some w =>
          rw [hbody] at hv
          rw [workerBody, if_neg hpath] at hbody
          simp only [workerValue] at hv
          split_ifs at hv <;> cases hv
          exact parseJson_eq_some hbody

def cardRequest : WorkerRequest := ⟨.get, .card, none⟩

def modelsRequest : WorkerRequest := ⟨.get, .models, none⟩

def asked (r : WorkerRequest) (reply : Reply) : List Action :=
  [⟨.workerSend r, ()⟩, ⟨.workerReceive r, reply⟩]

/-- The worker shows the reviewed card. -/
def ShowsCard (reply : Reply) : Prop :=
  workerResponse .card reply = .ok (some Worker.codexCard)

structure Offers (K : Crates) (a : Admission) (reply : Reply) (page : Value) :
    Prop where
  response : workerResponse .models reply = .ok (some page)
  offer : Offer K a page
  length : (toVec page).length ≤ 1048576

theorem request_yields (r : WorkerRequest) :
    Yields (Worker.request r) fun es res => ∃ reply,
      es = asked r reply ∧ res = workerResponse r.path reply := by
  apply yields_perform_bind
  intro ans
  apply yields_perform_bind
  intro reply
  exact yields_ofExcept.mpr ⟨reply, rfl, rfl⟩

/-- A request, and a check of the value that comes back. -/
theorem asked_yields {β : Type} {r : WorkerRequest} {f : Value → Mediation β}
    {R : Value → β → Prop}
    (hf : ∀ v, Yields (f v) fun es res => es = [] ∧ ∀ x, res = .ok x ↔ R v x) :
    Yields (do
      let v ← Worker.request r
      let v ← checked v
      f v) fun es res => ∃ reply, es = asked r reply ∧ ∀ x, res = .ok x ↔
        ∃ v, workerResponse r.path reply = .ok (some v) ∧ R v x := by
  apply (request_yields r).bind
  · rintro es value ⟨reply, rfl, hresponse⟩
    apply yields_checked_bind
    · rintro v rfl
      apply (hf v).mono
      rintro es res ⟨rfl, hres⟩
      refine ⟨reply, by simp, fun x => ?_⟩
      rw [hres, ← hresponse]
      simp
    · rintro rfl
      refine ⟨reply, by simp, fun x => ?_⟩
      rw [← hresponse]
      simp
  · rintro es e ⟨reply, rfl, hresponse⟩
    refine ⟨reply, rfl, fun x => ?_⟩
    rw [← hresponse]
    simp

theorem admitCodex_yields : Yields Worker.admitCodex fun es res => ∃ reply,
    es = asked cardRequest reply ∧ (res = .ok () ↔ ShowsCard reply) := by
  apply (asked_yields (R := fun v _ => v = Worker.codexCard) ?_).mono
  · rintro es res ⟨reply, hes, hres⟩
    refine ⟨reply, hes, (hres ()).trans ⟨?_, fun h => ⟨_, h, rfl⟩⟩⟩
    rintro ⟨v, h, rfl⟩
    exact h
  · intro v
    rw [Worker.validateCard]
    by_cases hv : v = Worker.codexCard
    · rw [guard, if_pos hv]
      exact ⟨rfl, fun x => by simp [hv]⟩
    · rw [guard, if_neg hv]
      exact ⟨rfl, fun x => by simp [hv]⟩

theorem catalog_yields (K : Crates) (a : Admission) :
    Yields (Worker.catalog K a) fun es res => ∃ reply,
      es = asked modelsRequest reply ∧
        ∀ page, res = .ok page ↔ Offers K a reply page := by
  apply (asked_yields (R := fun v page => Worker.catalogPage K a v = some () ∧
    v = page) ?_).mono
  · rintro es res ⟨reply, hes, hres⟩
    refine ⟨reply, hes, fun page => (hres page).trans ⟨?_, fun h => ?_⟩⟩
    · rintro ⟨v, hv, hpage, rfl⟩
      have hsafe := (safe_of_response (by decide) hv).1
      obtain ⟨hoffer, hlength⟩ := (catalogPage_iff hsafe).mp hpage
      exact ⟨hv, hoffer, hlength⟩
    · have hsafe := (safe_of_response (by decide) h.response).1
      exact ⟨page, h.response,
        (catalogPage_iff hsafe).mpr ⟨h.offer, h.length⟩, rfl⟩
  · intro v
    cases hpage : Worker.catalogPage K a v with
    | none => exact ⟨rfl, fun x => by simp⟩
    | some u => exact ⟨rfl, fun x => by simp⟩

/-- What an accepted request makes of the worker's replies. -/
inductive Served (K : Crates) (a : Admission) : List Action → Answer → Prop
  | withdrawn {card : Reply} (h : ¬ShowsCard card) :
      Served K a (asked cardRequest card) unavailable
  | refused {card models : Reply} (h : ∀ page, ¬Offers K a models page) :
      Served K a (asked cardRequest card ++ asked modelsRequest models)
        unavailable
  | relayed {card models : Reply} {page : Value} (hcard : ShowsCard card)
      (h : Offers K a models page) :
      Served K a (asked cardRequest card ++ asked modelsRequest models)
        ⟨200, toVec page⟩

theorem serve_yields (K : Crates) (bridge : Bridge) :
    (serve K bridge).Yields (Served K bridge.admission) := by
  rw [serve, Prog.yields_bind]
  apply Prog.Yields.mono admitCodex_yields
  rintro es res ⟨card, rfl, hcard⟩
  cases res with
  | error e => exact .withdrawn fun h => nomatch hcard.mpr h
  | ok u =>
      have hshows : ShowsCard card := hcard.mp rfl
      rw [Prog.yields_bind]
      apply Prog.Yields.mono (catalog_yields K bridge.admission)
      rintro es res ⟨models, rfl, hmodels⟩
      cases res with
      | error e =>
          show Served _ _ (_ ++ (_ ++ [])) _
          rw [List.append_nil]
          exact .refused fun page h => nomatch (hmodels page).mpr h
      | ok page =>
          show Served _ _ (_ ++ (_ ++ [])) _
          rw [List.append_nil]
          exact .relayed hshows ((hmodels page).mp rfl)

/-- Every event of a call, and its answer. -/
theorem catalog_cases {bridge : Bridge} {request : Request}
    {P : List Action → Answer → Prop}
    (hinvalid : valid digest bridge request.authorization ≠ true →
      P [] unauthorized)
    (hmalformed : valid digest bridge request.authorization = true →
      P [] badRequest)
    (hserved : valid digest bridge request.authorization = true →
      ∀ es answer, Served K bridge.admission es answer → P es answer) :
    (catalog K digest bridge request).Yields P := by
  rw [catalog]
  by_cases hvalid : valid digest bridge request.authorization = true
  · rw [if_neg (not_not.mpr hvalid)]
    by_cases hquery : request.query.isSome = true
    · rw [if_pos hquery]
      exact hmalformed hvalid
    · rw [if_neg hquery]
      by_cases hbody : request.body.toBytes 1 ≠ some []
      · rw [if_pos hbody]
        exact hmalformed hvalid
      · rw [if_neg hbody]
        exact (serve_yields K bridge).mono (hserved hvalid)
  · rw [if_pos hvalid]
    exact hinvalid hvalid

theorem Served.ne_unauthorized {a : Admission} {es : List Action}
    {answer : Answer} (h : Served K a es answer) : answer ≠ unauthorized := by
  have hstatus : answer.status ≠ 401 := by
    cases h with
    | withdrawn => exact (by decide : 503 ≠ 401)
    | refused => exact (by decide : 503 ≠ 401)
    | relayed => exact (by decide : 200 ≠ 401)
  rintro rfl
  exact hstatus rfl

/-- Without the secret, or another token of its digest, nobody learns more than
that a credential is asked for, and nothing is asked of the worker.  The secret
is always accepted. -/
theorem bridge_opens_to_secret {a : Admission} {secret : String}
    {bridge : Bridge} (h : catalogService digest a secret = .ok bridge)
    (request : Request) :
    (catalog K digest bridge request).Yields fun es answer =>
      (answer = unauthorized →
        es = [] ∧ request.authorization ≠ [bearer ++ bytesOf secret]) ∧
      (answer ≠ unauthorized → ∃ token,
        request.authorization = [bearer ++ token] ∧
          (token = bytesOf secret ∨ token ≠ bytesOf secret ∧
            digest token = digest (bytesOf secret))) := by
  have hsecret := valid_secret h
  have htoken : valid digest bridge request.authorization = true →
      ∃ token, request.authorization = [bearer ++ token] ∧
        (token = bytesOf secret ∨ token ≠ bytesOf secret ∧
          digest token = digest (bytesOf secret)) := by
    intro hvalid
    obtain ⟨token, hheader, -, -, hdigest⟩ := valid_iff.mp hvalid
    rw [(catalogService_eq_ok h).1] at hdigest
    refine ⟨token, hheader, ?_⟩
    by_cases heq : token = bytesOf secret
    · exact Or.inl heq
    · exact Or.inr ⟨heq, hdigest⟩
  apply catalog_cases
  · intro hinvalid
    refine ⟨fun _ => ⟨rfl, fun hheader => hinvalid ?_⟩,
      fun hne => absurd rfl hne⟩
    rw [hheader]
    exact hsecret
  · intro hvalid
    constructor
    · intro heq
      have hstatus : (400 : ℕ) = 401 := congrArg Answer.status heq
      omega
    · exact fun _ => htoken hvalid
  · intro hvalid es answer hserved
    exact ⟨fun heq => absurd heq hserved.ne_unauthorized,
      fun _ => htoken hvalid⟩

def sampleSecret : String := "0123456789abcdef0123456789abcdef"

def sampleBridge : Bridge :=
  ⟨Sample.mediator.admission, Sha256.digest (bytesOf sampleSecret)⟩

theorem sampleBridge_service : catalogService Sha256.digest
    Sample.mediator.admission sampleSecret = .ok sampleBridge := by
  rw [catalogService, if_neg (by decide +kernel), sampleBridge]

def sampleRequest : Request :=
  ⟨[bearer ++ bytesOf sampleSecret], none, ⟨[], .complete⟩⟩

theorem bridge_opens_to_secret_sample :
    (catalog Reference.crates Sha256.digest sampleBridge sampleRequest).Yields
      fun es answer =>
        (answer = unauthorized → es = [] ∧ sampleRequest.authorization ≠
          [bearer ++ bytesOf sampleSecret]) ∧
        (answer ≠ unauthorized → ∃ token,
          sampleRequest.authorization = [bearer ++ token] ∧
            (token = bytesOf sampleSecret ∨ token ≠ bytesOf sampleSecret ∧
              Sha256.digest token = Sha256.digest (bytesOf sampleSecret))) :=
  bridge_opens_to_secret sampleBridge_service sampleRequest

/-- A call asks the worker for its card and its models, at most.  It answers
with a page where the worker shows the reviewed card and offers that page, and
the page is then read back from the answer; otherwise it answers with one of
three fixed texts. -/
theorem bridge_relays_offers (K : Crates) (digest : Bytes → Hash)
    (bridge : Bridge) (request : Request) :
    (catalog K digest bridge request).Yields fun es answer =>
      (∃ card models,
        es <+: asked cardRequest card ++ asked modelsRequest models) ∧
      ((∃ card models page,
          es = asked cardRequest card ++ asked modelsRequest models ∧
            ShowsCard card ∧ Offers K bridge.admission models page ∧
              answer.status = 200 ∧ parseJson answer.body = some page) ∨
        answer ∈ [unauthorized, badRequest, unavailable] ∧
          ∀ card models page,
            es = asked cardRequest card ++ asked modelsRequest models →
              ShowsCard card → ¬Offers K bridge.admission models page) := by
  apply catalog_cases
  · exact fun _ => ⟨⟨none, none, List.nil_prefix⟩, Or.inr ⟨by simp, nofun⟩⟩
  · exact fun _ => ⟨⟨none, none, List.nil_prefix⟩, Or.inr ⟨by simp, nofun⟩⟩
  · intro _ es answer hserved
    cases hserved with
    | @withdrawn card hcard =>
        exact ⟨⟨card, none, List.prefix_append _ _⟩,
          Or.inr ⟨by simp, nofun⟩⟩
    | @refused card models hmodels =>
        refine ⟨⟨card, models, List.prefix_rfl⟩, Or.inr ⟨by simp, ?_⟩⟩
        rintro card' models' page heq - hoffers
        cases heq
        exact hmodels page hoffers
    | @relayed card models page hcard hoffers =>
        refine ⟨⟨card, models, List.prefix_rfl⟩, Or.inl ⟨card, models, page,
          rfl, hcard, hoffers, rfl, ?_⟩⟩
        obtain ⟨hsafe, hdepth⟩ :=
          safe_of_response (by decide) hoffers.response
        apply parseJson_toVec hsafe hdepth
        exact hoffers.length.trans (by decide)

end CatalogBridge

end AgentGateway
