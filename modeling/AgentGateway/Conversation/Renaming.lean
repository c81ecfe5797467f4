import AgentGateway.Conversation.Changes
import AgentGateway.Library.Json.Rename

/-!
# Private identifiers

The native identifiers of a runtime and the lease tokens of the broker, and what
a renaming of them does to values, records, operations and answers.
-/

namespace AgentGateway

open Json (Value Schema StringMap)
open Utf8 (Bytes)
open Interaction
open Dispatcher

/-- What `validate_runtime` demands of an identifier. -/
def ValidNative (s : String) : Prop := s ≠ "" ∧ s.utf8ByteSize ≤ 256

instance (s : String) : Decidable (ValidNative s) :=
  inferInstanceAs (Decidable (_ ∧ _))

/-- Other private identifiers of the same length in JSON. -/
structure Renaming where
  native : String → String
  lease : String → String
  native_injective : Function.Injective native
  lease_injective : Function.Injective lease
  native_size : ∀ s, Json.size (.str (native s)) = Json.size (.str s)
  lease_size : ∀ s, Json.size (.str (lease s)) = Json.size (.str s)
  native_valid : ∀ s, ValidNative (native s) ↔ ValidNative s

namespace Renaming

variable (ρ : Renaming)

/-! ## Values -/

/-- The texts that are identifiers, by the keys above them. -/
def strings : StringMap := fun parent key s =>
  if parent = "runtimeBinding" ∧ (key = "threadId" ∨ key = "turnId") then
    ρ.native s
  else s

/-- Rename the native identifiers in any runtime binding of a message. -/
def message (v : Value) : Value := v.mapStrings ρ.strings "" ""

/-- Rename the native identifiers in a runtime binding. -/
def runtime (v : Value) : Value :=
  v.mapStrings ρ.strings "" "runtimeBinding"

def leaseToken : Value → Value
  | .str s => .str (ρ.lease s)
  | v => v

/-- Rename the lease token of a claim. -/
def claim : Value → Value
  | .obj fs => .obj (fs.map fun f =>
      (f.1, if f.1 = "leaseToken" then ρ.leaseToken f.2 else f.2))
  | v => v

variable {ρ} {p k : String}

theorem strings_of_ne (hp : p ≠ "runtimeBinding") (k s : String) :
    ρ.strings p k s = s := if_neg fun h => hp h.1

theorem strings_injective (p k : String) :
    Function.Injective (ρ.strings p k) := by
  intro s t heq
  unfold strings at heq
  split_ifs at heq with h
  · exact ρ.native_injective heq
  · exact heq

theorem size_strings (p k s : String) :
    Json.size (.str (ρ.strings p k s)) = Json.size (.str s) := by
  unfold strings
  split_ifs
  · exact ρ.native_size s
  · rfl

theorem mapStrings_runtimeBinding (v : Value) :
    v.mapStrings ρ.strings p "runtimeBinding" = ρ.runtime v := by
  cases v with
  | str s =>
      have hkey : ∀ p, ρ.strings p "runtimeBinding" s = s :=
        fun p => if_neg fun h => absurd h.2 (by decide)
      rw [runtime, Value.mapStrings, Value.mapStrings, hkey, hkey]
  | _ => rfl

/-- Outside of a runtime binding the keys do not matter. -/
theorem mapStrings_eq_message (hp : p ≠ "runtimeBinding")
    (hk : k ≠ "runtimeBinding") (v : Value) :
    v.mapStrings ρ.strings p k = ρ.message v := by
  have hempty : "" ≠ "runtimeBinding" := by decide
  induction v using Value.induct generalizing p k with
  | str s =>
      rw [message, Value.mapStrings, Value.mapStrings, strings_of_ne hp,
        strings_of_ne hempty]
  | obj fs ih =>
      rw [message, Value.mapStrings, Value.mapStrings, Value.mapFields_eq,
        Value.mapFields_eq]
      refine congrArg Value.obj (List.map_congr_left fun x hx => ?_)
      refine Prod.ext rfl ?_
      by_cases hkey : x.1 = "runtimeBinding"
      · simp only [hkey, mapStrings_runtimeBinding]
      · exact (ih x hx hk hkey).trans (ih x hx hempty hkey).symm
  | _ => rfl

/-! ## Messages -/

theorem getElem_message {l : String} (hl : l ≠ "runtimeBinding")
    (v : Value) : (ρ.message v)[l] = ρ.message v[l] :=
  (Value.getElem_mapStrings v l).trans
    (mapStrings_eq_message (by decide) hl _)

theorem get?_message {l : String} (hl : l ≠ "runtimeBinding") (v : Value) :
    (ρ.message v).get? l = (v.get? l).map ρ.message := by
  rw [message, Value.get?_mapStrings]
  exact congrArg (v.get? l).map
    (funext fun x => mapStrings_eq_message (by decide) hl x)

@[simp] theorem runtimeBinding_message (v : Value) :
    (ρ.message v)["runtimeBinding"] = ρ.runtime v["runtimeBinding"] :=
  (Value.getElem_mapStrings v _).trans (mapStrings_runtimeBinding _)

@[simp] theorem asStr?_message (v : Value) :
    (ρ.message v).asStr? = v.asStr? := by
  rw [message, Value.asStr?_mapStrings]
  cases v.asStr? with
  | none => rfl
  | some s => exact congrArg some (strings_of_ne (by decide) _ s)

@[simp] theorem asArray?_message (v : Value) :
    (ρ.message v).asArray? = v.asArray?.map (List.map ρ.message) :=
  Value.asArray?_mapStrings v

@[simp] theorem isNull_message (v : Value) :
    (ρ.message v).isNull = v.isNull :=
  Value.isNull_mapStrings v

@[simp] theorem isNull_runtime (v : Value) :
    (ρ.runtime v).isNull = v.isNull :=
  Value.isNull_mapStrings v

theorem message_inj {v w : Value} : ρ.message v = ρ.message w ↔ v = w :=
  Value.mapStrings_inj strings_injective

theorem runtime_inj {v w : Value} : ρ.runtime v = ρ.runtime w ↔ v = w :=
  Value.mapStrings_inj strings_injective

theorem size_runtime (v : Value) : Json.size (ρ.runtime v) = Json.size v :=
  Value.size_mapStrings size_strings v

theorem lacks_message {l : String} {v : Value} :
    (ρ.message v).Lacks l ↔ v.Lacks l := Value.lacks_mapStrings

/-- A value without a runtime binding stays as it is. -/
theorem message_of_lacks {v : Value} (hv : v.Lacks "runtimeBinding") :
    ρ.message v = v :=
  Value.mapStrings_of_lacks (by decide)
    (fun _ k s hp => strings_of_ne hp k s) hv (by decide) (by decide)

/-- Comparing with a value that has no runtime binding. -/
theorem message_eq_iff {v w : Value} (hw : w.Lacks "runtimeBinding") :
    ρ.message v = w ↔ v = w := by
  have hsame := message_of_lacks (ρ := ρ) hw
  rw [← hsame, message_inj, hsame]

theorem message_eq_str_iff {v : Value} {s : String} :
    ρ.message v = .str s ↔ v = .str s :=
  message_eq_iff (.str s)

theorem closed_mapStrings (v : Value) (names : List String) :
    closed (v.mapStrings ρ.strings p k) names = closed v names := by
  cases v with
  | obj fs =>
      simp only [closed, Value.mapStrings, Value.mapFields_eq, List.length_map,
        List.all_map]
      rfl
  | _ => rfl

@[simp] theorem closed_message (v : Value) (names : List String) :
    closed (ρ.message v) names = closed v names :=
  closed_mapStrings v names

/-! ## Checks -/

variable {K : Crates} {packet : Value}

/-- A schema that knows all keys accepts no value with a runtime binding. -/
theorem schema_message {s : Schema} {v : Value}
    (hs : s.excludes "runtimeBinding" = true) :
    schema K s (ρ.message v) = schema K s v := by
  by_cases hv : v.Lacks "runtimeBinding"
  · rw [message_of_lacks hv]
  · have hnone : ∀ {w : Value}, ¬w.Lacks "runtimeBinding" →
        schema K s w = none := by
      intro w hw
      cases hschema : schema K s w with
      | none => rfl
      | some u =>
          exact absurd (Schema.lacks_of_valid s hs (valid_of_schema hschema)) hw
    rw [hnone hv, hnone fun h => hv (lacks_message.mp h)]

theorem validateReceipt_message (hpacket : packet.Lacks "runtimeBinding")
    (v : Value) :
    validateReceipt (ρ.message v) packet = validateReceipt v packet := by
  have hconversation := hpacket.getElem "conversation"
  unfold validateReceipt
  simp (disch := decide) only [closed_message, getElem_message, asStr?_message,
    message_eq_iff (hpacket.getElem "taskId"),
    message_eq_iff (hconversation.getElem "id"),
    message_eq_iff (hconversation.getElem "generation")]

theorem receiptFailure_message (hpacket : packet.Lacks "runtimeBinding")
    (v : Value) :
    receiptFailure (ρ.message v) packet = receiptFailure v packet := by
  unfold receiptFailure
  rw [validateReceipt_message hpacket]
  simp (disch := decide) only [getElem_message, asStr?_message, isNull_message,
    runtimeBinding_message, isNull_runtime]

theorem validateRuntime_runtime (v : Value) :
    validateRuntime (ρ.runtime v) = validateRuntime v := by
  have hthread : ∀ s, ρ.strings "runtimeBinding" "threadId" s = ρ.native s :=
    fun s => if_pos ⟨rfl, .inl rfl⟩
  have hturn : ∀ s, ρ.strings "runtimeBinding" "turnId" s = ρ.native s :=
    fun s => if_pos ⟨rfl, .inr rfl⟩
  have hvalid : ∀ s, (ρ.native s ≠ "" ∧ (ρ.native s).utf8ByteSize ≤ 256) =
      (s ≠ "" ∧ s.utf8ByteSize ≤ 256) := fun s => propext (ρ.native_valid s)
  unfold validateRuntime runtime
  simp only [closed_mapStrings, Value.getElem_mapStrings,
    Value.asStr?_mapStrings]
  cases v["threadId"].asStr? with
  | none => rfl
  | some thread =>
      cases v["turnId"].asStr? with
      | none => rfl
      | some turn =>
          simp only [Option.map_some, hthread, hturn, Option.bind_eq_bind,
            Option.bind_some, hvalid]

/-- A valid result holds no runtime binding. -/
theorem message_of_result {x : Value}
    (hx : schema K Contracts.result x = some ()) : ρ.message x = x :=
  message_of_lacks (Schema.lacks_of_valid Contracts.result (by rfl)
    (valid_of_schema hx))

theorem validateResult_message {x : Value} {prior : StringSet}
    {a : Admission} :
    validateResultWithAdmission K (ρ.message x) packet prior a =
      validateResultWithAdmission K x packet prior a := by
  cases hx : schema K Contracts.result x with
  | some u => rw [message_of_result hx]
  | none =>
      have hnone : ∀ {y : Value}, schema K Contracts.result y = none →
          validateResultWithAdmission K y packet prior a = none := by
        intro y hy
        rw [validateResultWithAdmission, validateResultPolicy, hy]
        rfl
      rw [hnone hx, hnone ((schema_message (by rfl)).trans hx)]

theorem map_checked_bind {α β γ : Type} (x : Checked α)
    (h : α → Checked β) (g : β → γ) :
    (x >>= h).map g = x >>= fun a => (h a).map g :=
  Option.map_bind

theorem checked_some_bind {α β : Type} (a : α) (f : α → Checked β) :
    (some a : Checked α) >>= f = f a := rfl

theorem replyData_message (hpacket : packet.Lacks "runtimeBinding")
    (output : Value) :
    replyData (ρ.message output) packet =
      (replyData output packet).map ρ.message := by
  have hid := (hpacket.getElem "conversation").getElem "id"
  unfold replyData
  simp (disch := decide) only [closed_message, getElem_message,
    asArray?_message, message_eq_str_iff, message_eq_iff hid,
    message_eq_iff (hpacket.getElem "taskId"), map_checked_bind]
  rcases output["task"]["artifacts"].asArray? with
    _ | (_ | ⟨artifact, _ | ⟨second, artifacts⟩⟩)
  · rfl
  · rfl
  · simp (disch := decide) only [Option.map_some, List.map_cons, List.map_nil,
      checked_some_bind, closed_message, getElem_message, asArray?_message,
      message_eq_str_iff, map_checked_bind]
    rcases artifact["parts"].asArray? with
      _ | (_ | ⟨part, _ | ⟨second, parts⟩⟩)
    · rfl
    · rfl
    · simp (disch := decide) only [Option.map_some, List.map_cons,
        List.map_nil, checked_some_bind, closed_message, getElem_message,
        map_checked_bind]
      rfl
    · rfl
  · rfl

theorem rpcResult_message (id : String) (v : Value) :
    Worker.rpcResult id (ρ.message v) =
      (Worker.rpcResult id v).map ρ.message := by
  unfold Worker.rpcResult
  simp (disch := decide) only [getElem_message, get?_message,
    message_eq_str_iff, ne_eq]
  split_ifs
  · rfl
  · cases v.get? "error" with
    | none =>
        cases v.get? "result" with
        | none => rfl
        | some x => rfl
    | some x =>
        simp (disch := decide) only [Option.map_some, getElem_message,
          asStr?_message]
        cases x["message"].asStr?.bind safeFailureCode with
        | none => rfl
        | some code => rfl

theorem lacks_codexCard : Worker.codexCard.Lacks "runtimeBinding" :=
  Value.lacks_of_lacksField (by decide +kernel)

theorem validateCard_message (v : Value) :
    Worker.validateCard (ρ.message v) = Worker.validateCard v := by
  unfold Worker.validateCard
  simp only [message_eq_iff lacks_codexCard]

/-- A catalog that is accepted holds no runtime binding. -/
theorem catalogPage_message (a : Admission) (page : Value) :
    Worker.catalogPage K a (ρ.message page) = Worker.catalogPage K a page ∧
      (Worker.catalogPage K a page = some () → ρ.message page = page) := by
  have hexcludes : Contracts.catalog.excludes "runtimeBinding" = true := by rfl
  cases hpage : schema K Contracts.catalog page with
  | some u =>
      have hsame : ρ.message page = page := message_of_lacks
        (Schema.lacks_of_valid Contracts.catalog hexcludes
          (valid_of_schema hpage))
      exact ⟨by rw [hsame], fun _ => hsame⟩
  | none =>
      have hnone : ∀ {v : Value}, schema K Contracts.catalog v = none →
          Worker.catalogPage K a v = none := by
        intro v hv
        rw [Worker.catalogPage, hv]
        rfl
      rw [hnone hpage, hnone ((schema_message hexcludes).trans hpage)]
      exact ⟨rfl, by rintro ⟨⟩⟩

/-! ## Claims -/

theorem lookup_claim (l : String) (fs : List (String × Value)) :
    (fs.map fun f => (f.1, if f.1 = "leaseToken" then ρ.leaseToken f.2
      else f.2)).lookup l =
        (fs.lookup l).map fun v =>
          if l = "leaseToken" then ρ.leaseToken v else v := by
  induction fs with
  | nil => rfl
  | cons f fs ih =>
      obtain ⟨key, v⟩ := f
      rw [List.map_cons, Value.lookup_cons, Value.lookup_cons, ih]
      by_cases hkey : l = key
      · rw [if_pos hkey, if_pos hkey, hkey, Option.map_some]
      · rw [if_neg hkey, if_neg hkey]

theorem packet_claim (v : Value) : (ρ.claim v)["packet"] = v["packet"] := by
  cases v with
  | obj fs =>
      rw [claim, Value.getElem_obj, lookup_claim, Value.getElem_obj]
      cases fs.lookup "packet" <;> rfl
  | _ => rfl

theorem leaseToken_claim (v : Value) :
    (ρ.claim v)["leaseToken"].asStr? = v["leaseToken"].asStr?.map ρ.lease := by
  cases v with
  | obj fs =>
      rw [claim, Value.getElem_obj, lookup_claim, Value.getElem_obj]
      cases fs.lookup "leaseToken" with
      | none => rfl
      | some x => cases x <;> rfl
  | _ => rfl

theorem closed_claim (v : Value) (names : List String) :
    closed (ρ.claim v) names = closed v names := by
  cases v with
  | obj fs =>
      simp only [closed, claim, List.length_map, List.all_map]
      rfl
  | _ => rfl

/-! ## Records -/

variable (ρ) in
/-- Rename the private identifiers of a record. -/
def record (r : Record) : Record :=
  { r with
    lease := ρ.lease r.lease
    runtimeBinding := r.runtimeBinding.map ρ.runtime }

theorem acceptReply_message {c : Dispatcher} {r : Record}
    (hpacket : packet.Lacks "runtimeBinding") (data receipt : Value) :
    acceptReply K c (ρ.record r) packet (ρ.message data) (ρ.message receipt) =
      (acceptReply K c r packet data receipt).map ρ.record := by
  unfold acceptReply
  simp (disch := decide) only [validateReceipt_message hpacket,
    runtimeBinding_message, validateRuntime_runtime, getElem_message,
    message_eq_str_iff, runtime_inj, message_inj, validateResult_message]
  have hsources : (ρ.record r).sources = r.sources := rfl
  cases hvalid : validateResultWithAdmission K data["reply"] packet r.sources
      c.admission with
  | none => simp [hsources, hvalid]
  | some u =>
      rw [message_of_result (schema_of_validateResult hvalid)]
      simp [hvalid, record, Option.map_bind, Function.comp_def]

theorem acceptReceipt_message {c : Dispatcher} {r : Record}
    (receipt : Value) :
    acceptReceipt K c (ρ.record r) packet (ρ.message receipt) =
      (acceptReceipt K c r packet receipt).map ρ.record := by
  unfold acceptReceipt
  simp (disch := decide) only [runtimeBinding_message,
    validateRuntime_runtime, getElem_message, validateResult_message]
  have hsources : (ρ.record r).sources = r.sources := rfl
  have hbinding : ((ρ.record r).runtimeBinding.all fun v =>
      decide (v = ρ.runtime receipt["runtimeBinding"])) =
        r.runtimeBinding.all fun v =>
          decide (v = receipt["runtimeBinding"]) := by
    rw [record]
    cases r.runtimeBinding with
    | none => rfl
    | some y => simp [runtime_inj]
  cases hvalid : validateResultWithAdmission K receipt["result"] packet
      r.sources c.admission with
  | none => simp [hsources, hvalid]
  | some u =>
      rw [message_of_result (schema_of_validateResult hvalid)]
      simp only [hsources, hvalid, hbinding, map_checked_bind]
      rfl

theorem safeNode_mapStrings {v : Value} (hv : SafeNode v) :
    SafeNode (v.mapStrings ρ.strings p k) := by
  cases v with
  | obj fs =>
      have hsorted : Value.SortedKeys fs := hv
      show Value.SortedKeys (Value.mapFields ρ.strings k fs)
      rwa [Value.SortedKeys, Value.keys_mapFields]
  | _ => exact hv

theorem safeField_runtime {v : Value} (hv : Record.SafeField v) :
    Record.SafeField (ρ.runtime v) := by
  refine ⟨hv.safe.mapStrings fun p k v hv => safeNode_mapStrings hv, ?_⟩
  rw [runtime, Value.depth_mapStrings]
  exact hv.depth

theorem safe_record {r : Record} (hr : r.Safe) : (ρ.record r).Safe := by
  refine ⟨hr.binding, hr.result, ⟨?_, ?_⟩, hr.update, hr.ack⟩
  · intro v hv
    obtain ⟨w, hw, rfl⟩ := Option.map_eq_some_iff.mp hv
    exact safeField_runtime (hr.runtimeBinding.field w hw)
  · intro hnull
    obtain ⟨w, hw, hv⟩ := Option.map_eq_some_iff.mp hnull
    have hisNull := isNull_runtime (ρ := ρ) w
    rw [hv] at hisNull
    rw [(Value.isNull_iff w).mp hisNull.symm] at hw
    exact hr.runtimeBinding.not_null hw

theorem length_toVec_record (r : Record) :
    (ρ.record r).toVec.length = r.toVec.length := by
  have hbinding : Json.size (optionValue (r.runtimeBinding.map ρ.runtime)) =
      Json.size (optionValue r.runtimeBinding) := by
    cases r.runtimeBinding with
    | none => rfl
    | some v => exact size_runtime v
  refine Value.size_obj_congr ?_
  simp [record, Record.fields, hbinding, ρ.lease_size]

/-! ## Texts -/

/-- Two texts of one length, the second of which reads as the first one under a
renaming. -/
structure Rereads {α : Type} (decode : Bytes → Option α) (g : α → α)
    (b b' : Bytes) : Prop where
  length : b'.length = b.length
  decode : decode b' = (decode b).map g

/-- Two replies that differ only in their texts. -/
inductive Replies (decode : Bytes → Option Value) (g : Value → Value) :
    Reply → Reply → Prop
  | none : Replies decode g none none
  | some {status : ℕ} {b b' : Bytes} {broken : Bool} :
      Rereads decode g b b' →
        Replies decode g (some ⟨status, b, broken⟩) (some ⟨status, b', broken⟩)

theorem rereads_toVec {r : Record} (hr : r.Safe) :
    Rereads Record.decode ρ.record r.toVec (ρ.record r).toVec :=
  ⟨length_toVec_record r, by
    rw [Record.decode_toVec hr, Record.decode_toVec (safe_record hr)]
    rfl⟩

theorem read_of_rereads {b b' : Bytes}
    (hb : Rereads Record.decode ρ.record b b') :
    Record.read b' = (Record.read b).map ρ.record := by
  rw [Record.read_eq, Record.read_eq, hb.length, hb.decode]
  split_ifs <;> rfl

theorem workerResponse_of_replies {path : WorkerPath} {a b : Reply}
    (hab : Replies (workerBody path) ρ.message a b) :
    workerResponse path b =
      (workerResponse path a).map (Option.map ρ.message) := by
  cases hab with
  | none => rfl
  | @some status bytes bytes' broken hbytes =>
      simp only [workerResponse, hbytes.length, hbytes.decode]
      split_ifs <;> try rfl
      cases workerBody path bytes with
      | none => rfl
      | some v =>
          have hcode : Value.Lacks "runtimeBinding"
              (Value.object [("code", .str "invalid_task_input")]) :=
            Value.lacks_of_lacksField (by decide +kernel)
          simp only [Option.map_some, workerValue, message_eq_iff hcode]
          split_ifs <;> rfl

theorem roomResponse_of_replies {g : Value → Value} {a b : Reply}
    (hab : Replies parseJson g a b) :
    roomResponse b = (roomResponse a).map (Option.map g) := by
  cases hab with
  | none => rfl
  | @some status bytes bytes' broken hbytes =>
      simp only [roomResponse, hbytes.length, hbytes.decode]
      split_ifs <;> try rfl
      cases parseJson bytes <;> rfl

end Renaming

end AgentGateway
