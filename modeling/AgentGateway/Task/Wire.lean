import AgentGateway.Library.Json.Struct
import AgentGateway.Task.Agreement
import AgentGateway.Task.Claimed

/-!
# Packets on the way to the agent

The adapter sends a packet as the text of one message part.  The agent reads
the text back and answers for the packet that it has read.
-/

namespace AgentGateway.Task

open Json (Value IntegerNode LiteralNode)

/-! ## Values from texts -/

/-- The parsers of other crates that the decoders of the agent call. -/
structure Reader where
  /-- How an instant is parsed that stands in a structure. -/
  time : String → Option DateTime
  /-- The text of the double that a literal stands for, if there is one. -/
  double : String → Option String

section Collect

variable (R : Reader)

def collectNumber : Json.Number → Option Json.Number
  | .float text => (R.double text).map .float
  | n => some n

mutual
/-- The value of a syntax tree: of equal keys the last one counts. -/
def collect : Value → Option Value
  | .null => some .null
  | .bool b => some (.bool b)
  | .str s => some (.str s)
  | .num n => (collectNumber R n).map .num
  | .arr xs => (collectItems xs).map .arr
  | .obj fs => (collectFields [] fs).map .obj

def collectItems : List Value → Option (List Value)
  | [] => some []
  | x :: xs =>
      match collect x, collectItems xs with
      | some y, some ys => some (y :: ys)
      | _, _ => none

def collectFields (m : List (String × Value)) :
    List (String × Value) → Option (List (String × Value))
  | [] => some m
  | (k, x) :: fs =>
      match collect x with
      | none => none
      | some y => collectFields (Value.insertField k y m) fs
end

/-- `serde_json::from_str`, to a value -/
def fromStr (s : String) : Option Value :=
  (Json.read maxJsonDepth s.toList).bind (collect R)

end Collect

/-! ## Packets as values -/

section Codec

variable (F : Formats) (R : Reader)

def decisionKeys : List String :=
  ["decisionId", "title", "summary", "sourceEventIds"]

def decisionValues (d : ActiveDecision) : List Value :=
  [uuid F d.decisionId, .str d.title, .str d.summary,
    .arr (d.sourceEventIds.map (uuid F))]

def decisionValue (d : ActiveDecision) : Value :=
  Json.Struct.encode decisionKeys (decisionValues F d)

def packetKeys : List String :=
  ["taskId", "roomId", "requesterId", "agentId", "skillId", "contextRevision",
    "issuedAt", "expiresAt", "input", "events", "activeDecisions",
    "canonicalSha256"]

def packetValues (p : RoomContextPacket) : List Value :=
  [uuid F p.taskId, uuid F p.roomId, uuid F p.requesterId, uuid F p.agentId,
    .str p.skillId, integer p.contextRevision, .str (F.showTime p.issuedAt),
    .str (F.showTime p.expiresAt), .str p.input, .arr p.events,
    .arr (p.activeDecisions.map (decisionValue F)), .str p.canonicalSha256]

/-- A serialized packet, as a value. -/
def packetValue (p : RoomContextPacket) : Value :=
  Json.Struct.encode packetKeys (packetValues F p)

/-- The decision that some fields make, in the order of declaration. -/
def decisionOfFields : List Value → Option ActiveDecision
  | [decisionId, title, summary, sourceEventIds] => do
      let decisionId ← decodeUuid F decisionId
      let title ← title.asStr?
      let summary ← summary.asStr?
      let sourceEventIds ← sourceEventIds.asArray?
      let sourceEventIds ← sourceEventIds.mapM (decodeUuid F)
      return ⟨decisionId, title, summary, sourceEventIds⟩
  | _ => none

def decodeDecision (v : Value) : Option ActiveDecision :=
  (Json.Struct.decode decisionKeys v).bind (decisionOfFields F)

def packetOfFields : List Value → Option RoomContextPacket
  | [taskId, roomId, requesterId, agentId, skillId, contextRevision, issuedAt,
      expiresAt, input, events, activeDecisions, canonicalSha256] => do
      let taskId ← decodeUuid F taskId
      let roomId ← decodeUuid F roomId
      let requesterId ← decodeUuid F requesterId
      let agentId ← decodeUuid F agentId
      let skillId ← skillId.asStr?
      let contextRevision ← asI64? contextRevision
      let issuedAt ← issuedAt.asStr?.bind R.time
      let expiresAt ← expiresAt.asStr?.bind R.time
      let input ← input.asStr?
      let events ← events.asArray?
      let activeDecisions ← activeDecisions.asArray?
      let activeDecisions ← activeDecisions.mapM (decodeDecision F)
      let canonicalSha256 ← canonicalSha256.asStr?
      if h : (-2 ^ 63 ≤ contextRevision ∧ contextRevision < 2 ^ 63) ∧
          events.length < 2 ^ 63 ∧ activeDecisions.length < 2 ^ 63 then
        some ⟨taskId, roomId, requesterId, agentId, skillId, contextRevision,
          issuedAt, expiresAt, input, events, activeDecisions, canonicalSha256,
          h.1, h.2.1, h.2.2⟩
      else none
  | _ => none

/-- The derived decoder of packets. -/
def decodePacket (v : Value) : Option RoomContextPacket :=
  (Json.Struct.decode packetKeys v).bind (packetOfFields F R)

/-! ## The message -/

/-- The message of `invoke_stream`, with the identifier made for it. -/
def invocationMessage (p : RoomContextPacket) (messageId : String) :
    Message where
  messageId := messageId
  contextId := some (contextId F p)
  taskId := some (F.showUuid p.taskId)
  role := .user
  parts :=
    [{ content := .text (String.ofList
        (Json.print (Value.object [("packet", packetValue F p)])))
       filename := none
       mediaType := some "application/json"
       metadata := none }]
  metadata := none
  extensions := none
  referenceTaskIds := none

/-! ## The executor of the agent -/

/-- The errors of `PacketError` that only the executor makes, and those of a
packet. -/
inductive ExecutionError where
  | invalidA2aMessage
  | invalidA2aPart
  | invalidA2aPacket
  | a2aTaskMismatch
  | packet (error : PacketError)
deriving DecidableEq

structure ExecutorContext where
  message : Option Message
  taskId : String

def packetFromMessage (message : Option Message) :
    Except ExecutionError RoomContextPacket :=
  match message with
  | none => .error .invalidA2aMessage
  | some message =>
      if message.role ≠ .user then .error .invalidA2aMessage
      else match message.parts with
        | [part] =>
            match part.content with
            | .text data =>
                match (fromStr R data).bind fun data =>
                    (data.get? "packet").bind (decodePacket F R) with
                | some p => .ok p
                | none => .error .invalidA2aPacket
            | _ => .error .invalidA2aPart
        | _ => .error .invalidA2aMessage

/-- The answer of the agent to a message, at some time. -/
def ReferenceAgentExecutor.execute (context : ExecutorContext)
    (now : DateTime) : Except ExecutionError (List StreamResponse) :=
  match packetFromMessage F R context.message with
  | .error e => .error e
  | .ok p =>
      if context.taskId ≠ F.showUuid p.taskId then .error .a2aTaskMismatch
      else (streamForPacket F p now).mapError .packet

end Codec

/-! ## Reading a text back -/

variable {R : Reader}

theorem collectItems_of_forall {xs : List Value}
    (h : ∀ x ∈ xs, collect R x = some x) : collectItems R xs = some xs := by
  induction xs with
  | nil => rfl
  | cons x xs ih =>
      rw [collectItems, h x (by simp), ih fun y hy => h y (by simp [hy])]

theorem collectFields_of_forall {fs m : List (String × Value)}
    (h : ∀ f ∈ fs, collect R f.2 = some f.2)
    (hsorted : Value.SortedKeys (m ++ fs)) :
    collectFields R m fs = some (m ++ fs) := by
  induction fs generalizing m with
  | nil => simp [collectFields]
  | cons f fs ih =>
      obtain ⟨k, x⟩ := f
      have hlt : ∀ g ∈ m, Value.KeyLt g.1 k := by
        intro g hg
        simp only [Value.SortedKeys, List.map_append, List.map_cons,
          List.pairwise_append] at hsorted
        exact hsorted.2.2 g.1 (List.mem_map_of_mem hg) k (by simp)
      rw [collectFields, h (k, x) (by simp)]
      dsimp only
      rw [Value.insertField_of_forall_lt x hlt,
        ih (fun g hg => h g (by simp [hg])) (by simpa using hsorted)]
      simp

theorem collect_of_ordered {v : Value} (hordered : AgentGateway.Ordered v)
    (hinteger : v.Every IntegerNode) : collect R v = some v := by
  induction v using Value.induct with
  | num n =>
      cases n with
      | float text => exact absurd hinteger.self id
      | _ => rfl
  | arr xs ih =>
      rw [collect, collectItems_of_forall fun x hx =>
        ih x hx (hordered.items x hx) (hinteger.items x hx)]
      rfl
  | obj fs ih =>
      have hsorted : Value.SortedKeys fs := hordered.self
      rw [collect, collectFields_of_forall
        (fun f hf => ih f hf (hordered.fields f hf) (hinteger.fields f hf))
        (by simpa using hsorted)]
      rfl
  | _ => rfl

/-- The text of an ordered value with integer numbers is read back. -/
theorem fromStr_print {v : Value} (hordered : AgentGateway.Ordered v)
    (hinteger : v.Every IntegerNode) (hdepth : v.depth ≤ maxJsonDepth) :
    fromStr R (String.ofList (Json.print v)) = some v := by
  rw [fromStr, String.toList_ofList, Json.read_print hinteger hdepth,
    Option.bind_some, collect_of_ordered hordered hinteger]

/-! ## Reading a packet back -/

variable {F : Formats} {p q : RoomContextPacket}

theorem mapM_map_of_forall {α β γ : Type} {f : β → Option γ} {g : α → β}
    {k : α → γ} (h : ∀ a, f (g a) = some (k a)) (as : List α) :
    (as.map g).mapM f = some (as.map k) := by
  induction as with
  | nil => rfl
  | cons a as ih =>
      rw [List.map_cons, List.mapM_cons, h, ih]
      rfl

theorem decodeUuid_uuid (huuid : ∀ u, F.parseUuid (F.showUuid u) = some u)
    (u : Uuid) : decodeUuid F (uuid F u) = some u := huuid u

theorem asI64?_integer {n : ℤ} (h : -2 ^ 63 ≤ n ∧ n < 2 ^ 63) :
    asI64? (integer n) = some n := by
  unfold integer
  split_ifs with hn
  · have hlt : n.toNat < 2 ^ 63 := by omega
    rw [asI64?, if_pos hlt, Int.toNat_of_nonneg hn]
  · have hneg : -(n.natAbs : ℤ) = n := by omega
    rw [asI64?, hneg]

theorem decodeDecision_decisionValue
    (huuid : ∀ u, F.parseUuid (F.showUuid u) = some u) (d : ActiveDecision) :
    decodeDecision F (decisionValue F d) = some d := by
  have hfields : Json.Struct.decode decisionKeys (decisionValue F d) =
      some (decisionValues F d) := by
    apply Json.Struct.decode_encode
    · decide
    · rfl
  have hsources := mapM_map_of_forall (k := id) (decodeUuid_uuid huuid)
    d.sourceEventIds
  rw [List.map_id] at hsources
  simp [decodeDecision, hfields, decisionValues, decisionOfFields,
    decodeUuid_uuid huuid, Value.asStr?, Value.asArray?, hsources]

/-- The instants of a packet are read as they were written. -/
structure TimesRead (F : Formats) (R : Reader) (p : RoomContextPacket) :
    Prop where
  issued : R.time (F.showTime p.issuedAt) = some p.issuedAt
  expires : R.time (F.showTime p.expiresAt) = some p.expiresAt

theorem decodePacket_packetValue
    (huuid : ∀ u, F.parseUuid (F.showUuid u) = some u)
    (htimes : TimesRead F R p) :
    decodePacket F R (packetValue F p) = some p := by
  have hfields : Json.Struct.decode packetKeys (packetValue F p) =
      some (packetValues F p) := by
    apply Json.Struct.decode_encode
    · decide
    · rfl
  have hdecisions := mapM_map_of_forall (k := id)
    (decodeDecision_decisionValue huuid) p.activeDecisions
  rw [List.map_id] at hdecisions
  rw [decodePacket, hfields, Option.bind_some, packetValues, packetOfFields]
  simp only [decodeUuid_uuid huuid, Value.asStr?, Value.asArray?,
    asI64?_integer p.revision_range, htimes.issued, htimes.expires, hdecisions,
    Option.bind_eq_bind, Option.bind_some]
  exact dif_pos ⟨p.revision_range, p.events_length, p.decisions_length⟩

/-! ## The text of a packet -/

/-- The text reader of the agent reads the events of the packet back. -/
structure Transmissible (p : RoomContextPacket) : Prop where
  ordered : ∀ e ∈ p.events, AgentGateway.Ordered e
  integers : ∀ e ∈ p.events, e.Every IntegerNode
  depth : ∀ e ∈ p.events, e.depth + 3 ≤ maxJsonDepth

section Nodes

variable {P : Value → Prop} (hobj : ∀ fs, Value.SortedKeys fs → P (.obj fs))
  (harr : ∀ xs, P (.arr xs)) (hstr : ∀ s, P (.str s))

include hobj harr hstr

theorem every_decisionValue (d : ActiveDecision) :
    (decisionValue F d).Every P := by
  have hsources : (Value.arr (d.sourceEventIds.map (uuid F))).Every P := by
    apply Value.Every.arr (harr _)
    intro v hv
    obtain ⟨u, -, rfl⟩ := List.mem_map.mp hv
    exact .str (hstr _)
  apply Json.Struct.every_encode hobj
  simp only [decisionValues, List.forall_mem_cons, List.not_mem_nil,
    false_imp_iff, implies_true, and_true]
  exact ⟨.str (hstr _), .str (hstr _), .str (hstr _), hsources⟩

/-- What holds of the nodes of the events holds of those of the message. -/
theorem every_packetValue (hinteger : (integer p.contextRevision).Every P)
    (hevents : ∀ e ∈ p.events, e.Every P) : (packetValue F p).Every P := by
  have hdecisions :
      (Value.arr (p.activeDecisions.map (decisionValue F))).Every P := by
    apply Value.Every.arr (harr _)
    intro v hv
    obtain ⟨d, -, rfl⟩ := List.mem_map.mp hv
    exact every_decisionValue hobj harr hstr d
  have htext : ∀ s, (Value.str s).Every P := fun s => .str (hstr s)
  apply Json.Struct.every_encode hobj
  simp only [packetValues, List.forall_mem_cons, List.not_mem_nil,
    false_imp_iff, implies_true, and_true]
  exact ⟨htext _, htext _, htext _, htext _, htext _, hinteger, htext _,
    htext _, htext _, .arr (harr _) hevents, hdecisions, htext _⟩

end Nodes

theorem depth_str (s : String) : (Value.str s).depth = 0 := by
  simp [Value.depth]

theorem depth_uuid (u : Uuid) : (uuid F u).depth = 0 := depth_str _

theorem depth_integer (n : ℤ) : (integer n).depth = 0 := by
  unfold integer
  split_ifs
  · simp [Value.depth]
  · simp [Value.depth]

theorem depth_decisionValue (d : ActiveDecision) :
    (decisionValue F d).depth ≤ 2 := by
  have hsources : (Value.arr (d.sourceEventIds.map (uuid F))).depth ≤ 1 := by
    apply Value.depth_arr_le_iff.mpr
    intro v hv
    obtain ⟨u, -, rfl⟩ := List.mem_map.mp hv
    exact (depth_uuid u).le
  apply Json.Struct.depth_encode_le
  simp only [decisionValues, List.forall_mem_cons, List.not_mem_nil,
    false_imp_iff, implies_true, and_true, depth_uuid, depth_str, Nat.zero_le,
    true_and]
  exact hsources

theorem Transmissible.depth_packetValue (hp : Transmissible p) :
    (packetValue F p).depth + 1 ≤ maxJsonDepth := by
  have hmax : maxJsonDepth = 124 + 3 := rfl
  have hevents : (Value.arr p.events).depth ≤ 125 := by
    apply Value.depth_arr_le_iff.mpr
    intro e he
    have hdepth := hp.depth e he
    omega
  have hdecisions :
      (Value.arr (p.activeDecisions.map (decisionValue F))).depth ≤ 125 := by
    apply Value.depth_arr_le_iff.mpr
    intro v hv
    obtain ⟨d, -, rfl⟩ := List.mem_map.mp hv
    exact (depth_decisionValue d).trans (by omega)
  have hpacket : (packetValue F p).depth ≤ 125 + 1 := by
    apply Json.Struct.depth_encode_le
    simp only [packetValues, List.forall_mem_cons, List.not_mem_nil,
      false_imp_iff, implies_true, and_true, depth_uuid, depth_integer,
      depth_str, Nat.zero_le, true_and]
    exact ⟨hevents, hdecisions⟩
  omega

/-! ## Answers to invocations -/

theorem isInteger_revision (p : RoomContextPacket) :
    (integer p.contextRevision).Every IntegerNode := by
  have hrange := p.revision_range
  unfold integer
  split_ifs with h
  · have hlt : p.contextRevision.toNat < 2 ^ 64 := by omega
    exact .num hlt
  · have hlt : 0 < p.contextRevision.natAbs ∧
        p.contextRevision.natAbs ≤ 2 ^ 63 := by
      omega
    exact .num hlt

/-- The agent reads the packet of the adapter. -/
theorem packetFromMessage_invocationMessage
    (huuid : ∀ u, F.parseUuid (F.showUuid u) = some u)
    (hp : Transmissible p) (htimes : TimesRead F R p)
    (messageId : String) : packetFromMessage F R
      (some (invocationMessage F p messageId)) = .ok p := by
  have hordered : AgentGateway.Ordered (packetValue F p) :=
    every_packetValue (fun _ hfs => hfs) (fun _ => trivial) (fun _ => trivial)
      (ordered_integer _) hp.ordered
  have hinteger : (packetValue F p).Every IntegerNode :=
    every_packetValue (fun _ _ => trivial) (fun _ => trivial)
      (fun _ => trivial) (isInteger_revision p) hp.integers
  have hdepth := hp.depth_packetValue (F := F)
  have hobject : Value.object [("packet", packetValue F p)] =
      .obj [("packet", packetValue F p)] := rfl
  have hread : fromStr R (String.ofList (Json.print
      (Value.object [("packet", packetValue F p)]))) =
      some (.obj [("packet", packetValue F p)]) := by
    rw [hobject]
    apply fromStr_print
    · apply Value.Every.obj
      · exact List.pairwise_singleton _ _
      · simpa using hordered
    · apply Value.Every.obj trivial
      simpa using hinteger
    · obtain ⟨n, hn⟩ : ∃ n, maxJsonDepth = n + 1 := ⟨126, rfl⟩
      rw [hn] at hdepth ⊢
      apply Value.depth_obj_le_iff.mpr
      simpa using hdepth
  have hpacket : (Value.obj [("packet", packetValue F p)]).get? "packet" =
      some (packetValue F p) := rfl
  simp only [packetFromMessage, invocationMessage, ne_eq, not_true_eq_false,
    if_false, hread, Option.bind_some, hpacket,
    decodePacket_packetValue huuid htimes]

theorem ReferenceAgentExecutor.execute_of_read {message : Option Message}
    (hread : packetFromMessage F R message = .ok p) (now : DateTime) :
    execute F R ⟨message, F.showUuid p.taskId⟩ now =
      (streamForPacket F p now).mapError .packet := by
  simp only [execute, hread, ne_eq, not_true_eq_false, if_false]

/-- The agent reads the packet back from the message of the adapter, and answers
with the stream of this packet, or with the fault that it finds in it. -/
theorem ReferenceAgentExecutor.execute_invocationMessage
    (huuid : ∀ u, F.parseUuid (F.showUuid u) = some u)
    (hp : Transmissible p) (htimes : TimesRead F R p)
    (messageId : String) (now : DateTime) :
    packetFromMessage F R (some (invocationMessage F p messageId)) = .ok p ∧
      execute F R
          ⟨some (invocationMessage F p messageId), F.showUuid p.taskId⟩ now =
        (streamForPacket F p now).mapError .packet := by
  have hread := packetFromMessage_invocationMessage huuid hp htimes messageId
  constructor
  · exact hread
  · exact execute_of_read hread now

namespace Sample

def reader : Reader where
  time := Reference.parseTime
  double := some

theorem safe_roomEvent {id eventType : String} {payload : Value}
    {sequence : ℕ} {more : List (String × Value)} (hpayload : Safe payload)
    (hsequence : sequence ≤ maxSafeInteger) (hmore : ∀ f ∈ more, Safe f.2) :
    Safe (roomEvent id eventType payload sequence more) := by
  have hstr : ∀ s, Safe (.str s) := fun _ => .str trivial
  apply safe_object
  rw [List.forall_mem_append]
  constructor
  · simp only [List.forall_mem_cons, List.not_mem_nil, false_imp_iff,
      implies_true, and_true]
    refine ⟨?_, hstr _, hstr _, hpayload, hstr _, .num hsequence⟩
    apply safe_object
    simp [hstr]
  · exact hmore

theorem safe_packet : ∀ e ∈ packet.events, Safe e := by
  have hstr : ∀ s, Safe (.str s) := fun _ => .str trivial
  have hseven : Safe (.num (.posInt 7)) := .num (by decide : 7 ≤ maxSafeInteger)
  intro e he
  simp only [packet, packetOf, List.mem_cons, List.not_mem_nil, or_false] at he
  rcases he with rfl | rfl | rfl
  · exact safe_roomEvent (safe_object (by simp [hstr])) (by decide) (by simp)
  · apply safe_roomEvent
    · exact safe_object (by simp [hstr, hseven])
    · decide
    · simp [hstr]
  · exact safe_roomEvent (safe_object (by simp [hstr])) (by decide) (by simp)

theorem transmissible_packet : Transmissible packet where
  ordered := fun e he => (safe_packet e he).ordered
  integers := fun e he => (safe_packet e he).integers
  depth := by decide +kernel

def context : ExecutorContext :=
  ⟨some (invocationMessage Reference.formats packet ""),
    Reference.formats.showUuid packet.taskId⟩

theorem timesRead_packet : TimesRead Reference.formats reader packet where
  issued := by decide +kernel
  expires := by decide +kernel

end Sample

theorem ReferenceAgentExecutor.execute_invocationMessage_packet :
    packetFromMessage Reference.formats Sample.reader Sample.context.message =
        .ok Sample.packet ∧
      execute Reference.formats Sample.reader Sample.context Sample.issued =
        (streamForPacket Reference.formats Sample.packet
          Sample.issued).mapError .packet :=
  execute_invocationMessage Reference.parseUuid_showUuid
    Sample.transmissible_packet Sample.timesRead_packet "" Sample.issued

/-! ## Answers that are admitted -/

/-- A stream states its binding and its result. -/
theorem responses_injective {binding result binding' result' : Value}
    (h : responses F p binding result = responses F q binding' result') :
    binding = binding' ∧ result = result' := by
  simp only [responses, List.cons.injEq, taskResponse, artifact, artifactWith,
    plainPart, artifactObject_eq, StreamResponse.task.injEq, A2aTask.mk.injEq,
    Option.some.injEq, Artifact.mk.injEq, Part.mk.injEq, PartContent.data.injEq,
    Value.obj.injEq, Prod.mk.injEq, true_and, and_true] at h
  exact h.2.2.2.2.2.2

/-- An invocation that ends well has admitted the whole stream. -/
theorem invokeStream_eq_true {verified checked : DateTime}
    {stream : List StreamResponse} {evs : List A2aTaskEvent} :
    invokeStream F p verified checked stream = (evs, true) ↔
      validateStream F p verified checked stream = some evs := by
  by_cases hok : (verifyPacketAt F p verified).isOk = true
  · rw [invokeStream, if_pos hok, admitFrom_eq_true, Nat.zero_add]
    simp [validateStream, hok, Option.bind_eq_some_iff]
  · rw [invokeStream, if_neg hok]
    simp [validateStream, hok]

/-- A binding that decodes states the hash of its packet. -/
theorem hash_of_decodeBinding {taskId roomId contextRevision hash : Value}
    (hordered : AgentGateway.Ordered
      (bindingObject taskId roomId contextRevision hash))
    (h : decodeBinding F (bindingObject taskId roomId contextRevision hash) =
      some p.binding) : hash = .str p.canonicalSha256 := by
  obtain ⟨t, r, n, -, hobject | hpositional⟩ :=
    (decodeBinding_eq_some hordered).mp h
  · simp only [bindingObject_eq, Value.obj.injEq, List.cons.injEq,
      Prod.mk.injEq, true_and] at hobject
    exact hobject.1
  · rw [bindingObject_eq] at hpositional
    cases hpositional

/-- What arrives of a stream of the agent: the transport may give the revision
as a double. -/
def Arrives (F : Formats) (stream delivered : List StreamResponse) : Prop :=
  ∃ q result revision, Transported F q revision ∧
    stream = responses F q (bindingValue F q) result ∧
    delivered = responses F q (bindingObject (uuid F q.taskId)
      (uuid F q.roomId) revision (.str q.canonicalSha256)) result

theorem ReferenceAgentExecutor.execute_eq_ok {context : ExecutorContext}
    {now : DateTime} {stream : List StreamResponse}
    (h : execute F R context now = .ok stream) : ∃ q result,
      packetFromMessage F R context.message = .ok q ∧
        expectedResult F q now = .ok result ∧
        stream = responses F q (bindingValue F q) result := by
  unfold execute at h
  cases hq : packetFromMessage F R context.message with
  | error e =>
      rw [hq] at h
      cases h
  | ok q =>
      rw [hq] at h
      by_cases htask : context.taskId = F.showUuid q.taskId
      · cases hresult : expectedResult F q now with
        | error e =>
            simp [htask, streamForPacket, hresult, Except.mapError] at h
        | ok result =>
            simp only [htask, streamForPacket, hresult, ne_eq,
              not_true_eq_false, if_false, Except.mapError,
              Except.ok.injEq] at h
            exact ⟨q, result, rfl, hresult, h.symm⟩
      · simp [htask] at h

theorem hash_of_bindingValue (h : bindingValue F p = bindingValue F q) :
    p.canonicalSha256 = q.canonicalSha256 := by
  have hobjects : ∀ r : RoomContextPacket, bindingValue F r =
      bindingObject (uuid F r.taskId) (uuid F r.roomId)
        (integer r.contextRevision) (.str r.canonicalSha256) := fun _ => rfl
  simp only [hobjects, bindingObject_eq, Value.obj.injEq, List.cons.injEq,
    Prod.mk.injEq, true_and] at h
  exact Value.str.inj h.1

/-- Whatever message the agent was sent: if the adapter admits the answer for
a packet, the message carried this packet. -/
theorem ReferenceAgentExecutor.admitted_answer_states_packet
    (huuid : ∀ u, F.parseUuid (F.showUuid u) = some u)
    {context : ExecutorContext} {now verified checked : DateTime}
    {stream delivered : List StreamResponse} {evs : List A2aTaskEvent}
    (hp : LiteralEvents p)
    (hread : ∀ q, packetFromMessage F R context.message = .ok q →
      LiteralEvents q ∧ Distinguishes F p q)
    (hanswer : execute F R context now = .ok stream)
    (harrives : Arrives F stream delivered)
    (hadmitted : invokeStream F p verified checked delivered = (evs, true)) :
    packetFromMessage F R context.message = .ok p := by
  obtain ⟨q, result, hq, hresult, rfl⟩ := execute_eq_ok hanswer
  obtain ⟨r, result', revision, hrevision, hstream, rfl⟩ := harrives
  obtain ⟨hvalue, rfl⟩ := responses_injective hstream
  have hbinding : AgentGateway.Ordered (bindingObject (uuid F r.taskId)
      (uuid F r.roomId) revision (.str r.canonicalSha256)) :=
    ordered_bindingObject (ordered_uuid _) (ordered_uuid _) hrevision.ordered
      (.str trivial)
  have hordered := (ordered_responses (F := F) (p := r)).mpr
    ⟨hbinding, ordered_expectedResult hresult⟩
  obtain ⟨hverified, binding, w, hdelivered, hdecode, -⟩ :=
    (validateStream_eq_some hordered).mp (invokeStream_eq_true.mp hadmitted)
  rw [← (responses_injective hdelivered).1] at hdecode
  have hhash : p.canonicalSha256 = q.canonicalSha256 := by
    rw [hash_of_bindingValue hvalue]
    exact (Value.str.inj (hash_of_decodeBinding hbinding hdecode)).symm
  obtain ⟨hliteral, hpq⟩ := hread q hq
  have hsame : p = q := eq_of_hash huuid hpq hp hliteral hverified.hash
    (verified_of_expectedResult hresult).hash hhash
  rw [hsame, hq]

namespace Sample

/-- The stream of the packet, as the agent gives it. -/
def stream : List StreamResponse :=
  responses Reference.formats packet (bindingValue Reference.formats packet)
    (summaryResult Reference.formats packet)

theorem read_context :
    packetFromMessage Reference.formats reader context.message = .ok packet :=
  packetFromMessage_invocationMessage Reference.parseUuid_showUuid
    transmissible_packet timesRead_packet ""

theorem executed_context : ReferenceAgentExecutor.execute Reference.formats
    reader context issued = .ok stream := by
  have hanswer := ReferenceAgentExecutor.execute_of_read read_context issued
  rw [streamForPacket, expectedResult_packet] at hanswer
  exact hanswer

/-- No other packet is read, so that none collides with the packet. -/
theorem distinguishes_context : ∀ q,
    packetFromMessage Reference.formats reader context.message = .ok q →
      LiteralEvents q ∧ Distinguishes Reference.formats packet q := by
  intro q hq
  have hsame : packet = q := Except.ok.inj (read_context.symm.trans hq)
  rw [← hsame]
  exact ⟨literal_packet, fun _ => rfl, fun _ => rfl, fun _ => rfl⟩

theorem arrives_stream : Arrives Reference.formats stream stream :=
  ⟨packet, _, _, .integer, rfl, rfl⟩

theorem admitted_stream : invokeStream Reference.formats packet issued issued
    stream = (eventsOf packet (summaryResult Reference.formats packet),
      true) := by
  have hbinding : AgentGateway.Ordered
      (bindingValue Reference.formats packet) :=
    ordered_bindingObject (ordered_uuid _) (ordered_uuid _)
      (ordered_integer _) (.str trivial)
  have hordered := (ordered_responses (F := Reference.formats)
    (p := packet)).mpr ⟨hbinding, ordered_expectedResult expectedResult_packet⟩
  apply invokeStream_eq_true.mpr
  apply (validateStream_eq_some hordered).mpr
  exact ⟨verifyPacketAt_eq_ok.mp verified_packet, _, _, rfl,
    (decodeBinding_eq_some hbinding).mpr ⟨_, _, _,
      encodesBinding Reference.parseUuid_showUuid packet, .inl rfl⟩,
    expectedResult_packet, rfl⟩

end Sample

theorem ReferenceAgentExecutor.admitted_answer_states_packet_sample :
    packetFromMessage Reference.formats Sample.reader
      Sample.context.message = .ok Sample.packet :=
  admitted_answer_states_packet Reference.parseUuid_showUuid
    Sample.literal_packet Sample.distinguishes_context Sample.executed_context
    Sample.arrives_stream Sample.admitted_stream

end AgentGateway.Task
