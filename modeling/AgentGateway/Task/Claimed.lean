import AgentGateway.Task.Deliveries
import AgentGateway.Task.Digest
import AgentGateway.Task.Publishable

/-!
# The claimed packet

Only a verified packet with the binding of the claimed one is executed, so that
a correctly hashed packet is executed as it was claimed.
-/

namespace AgentGateway.Task

open Interaction

variable {F : Formats} {α β : Type}

/-! ## Operations of a call -/

/-- Every operation of a call lies in `P`. -/
def Performs (P : Op → Prop) (c : Call α) : Prop :=
  c.run.Within (S := Room) P fun _ => True

variable {P : Op → Prop}

theorem performs_pure (a : α) : Performs P (pure a) := trivial

theorem performs_ask {op : Op} {f : op.Ans → Call α} :
    Performs P (ask op >>= f) ↔ P op ∧ ∀ ans, Performs P (f ans) := by
  rfl

theorem Performs.bind {c : Call α} {f : α → Call β} (hc : Performs P c)
    (hf : ∀ a, Performs P (f a)) : Performs P (c >>= f) := by
  rw [Performs, OptionT.run_bind, Option.elimM]
  refine Prog.Within.bind hc fun a _ => ?_
  cases a with
  | none => trivial
  | some a => exact hf a

theorem Performs.weaken {P' : Op → Prop} {c : Call α} (hc : Performs P c)
    (himp : ∀ op, P op → P' op) : Performs P' c :=
  Prog.Within.weaken hc himp

/-! ## Invocations -/

/-- Any packet that the operation invokes the agent for is in `Q`. -/
def Invokes (Q : RoomContextPacket → Prop) : Op → Prop
  | .invoke p _ => Q p
  | _ => True

variable {Q : RoomContextPacket → Prop}

theorem submit_performs (p : RoomContextPacket) (leaseToken : Uuid)
    (request : TaskUpdateRequest) (patience : ℕ) :
    Performs (Invokes Q) (submit p leaseToken request patience) := by
  induction patience with
  | zero => exact trivial
  | succ patience ih =>
      rw [submit]
      refine performs_ask.mpr ⟨trivial, fun now => ?_⟩
      split_ifs with hexpired
      · exact performs_pure _
      refine performs_ask.mpr ⟨trivial, fun later => ?_⟩
      refine performs_ask.mpr ⟨trivial, fun answer => ?_⟩
      cases answer with
      | accepted => exact performs_pure _
      | failed retryable =>
          cases retryable with
          | false => exact performs_pure _
          | true => exact ih
      | timedOut => exact ih

theorem submitFailure_performs (patience : ℕ) (p : RoomContextPacket)
    (leaseToken : Uuid) (failure : TerminalFailure) (ordinal : ℕ) :
    Performs (Invokes Q)
      (submitFailure F patience p leaseToken failure ordinal) := by
  refine (submit_performs p leaseToken _ patience).bind fun result => ?_
  cases result <;> exact performs_pure _

theorem validateAgentEvent_performs (p : RoomContextPacket)
    (event : A2aTaskEvent) (ordinal : ℕ) :
    Performs (Invokes Q) (validateAgentEvent F p event ordinal) := by
  unfold validateAgentEvent
  split_ifs with hordinal
  · exact performs_pure _
  split
  · exact performs_pure _
  · exact performs_pure _
  · exact performs_pure _
  · split_ifs with hbinding
    · exact performs_ask.mpr ⟨trivial, fun now => performs_pure _⟩
    · exact performs_pure _
  · exact performs_pure _

theorem nextEvent_performs (invocationDone : Bool) :
    Performs (Invokes Q) (nextEvent invocationDone) := by
  unfold nextEvent
  split_ifs with hdone
  · exact performs_ask.mpr ⟨trivial, fun event => performs_pure _⟩
  · exact ⟨trivial, fun _ => trivial⟩

theorem reportProgress_performs (patience : ℕ) (p : RoomContextPacket)
    (leaseToken : Uuid) (request : TaskUpdateRequest) (received : ℕ)
    {next : Call Exit} (hnext : Performs (Invokes Q) next) :
    Performs (Invokes Q)
      (reportProgress F patience p leaseToken request received next) := by
  refine (submit_performs p leaseToken request patience).bind fun result => ?_
  cases result with
  | ok x => exact hnext
  | error e =>
      exact (submitFailure_performs patience p leaseToken _ received).bind
        fun _ => performs_pure _

theorem eventLoop_performs (patience : ℕ) (p : RoomContextPacket)
    (leaseToken : Uuid) (n : ℕ) (s : LoopState) :
    Performs (Invokes Q) (eventLoop F patience p leaseToken n s) := by
  induction n generalizing s with
  | zero => exact trivial
  | succ n ih =>
      rw [eventLoop]
      refine (nextEvent_performs s.invocationDone).bind fun selected => ?_
      have hfailure : ∀ failure, Performs (Invokes Q)
          (do return .inl (← submitFailure F patience p leaseToken failure
            s.received) : Call Exit) := fun failure =>
        (submitFailure_performs patience p leaseToken failure _).bind
          fun _ => performs_pure _
      split
      next result =>
        split_ifs with hresult
        · exact hfailure _
        · exact ih _
      next => exact performs_pure _
      next event =>
        refine (validateAgentEvent_performs p event s.received).bind
          fun valid => ?_
        split_ifs with hvalid
        · cases event with
          | submitted ordinal =>
              exact reportProgress_performs patience p leaseToken _ _ (ih _)
          | working ordinal text =>
              exact reportProgress_performs patience p leaseToken _ _ (ih _)
          | completed ordinal result binding => exact ih _
        · exact hfailure _

theorem conclude_performs (patience : ℕ) (p : RoomContextPacket)
    (leaseToken : Uuid) (s : LoopState) :
    Performs (Invokes Q) (conclude F patience p leaseToken s) := by
  have hawait : Performs (Invokes Q) (awaitInvocation s.invocationDone) := by
    unfold awaitInvocation
    split_ifs with hdone
    · exact performs_pure _
    · exact ⟨trivial, fun _ => trivial⟩
  refine hawait.bind fun result => ?_
  split_ifs with hresult
  · exact submitFailure_performs patience p leaseToken _ _
  split
  · exact submitFailure_performs patience p leaseToken _ _
  · refine (submit_performs p leaseToken _ patience).bind fun answer => ?_
    cases answer with
    | error e => exact submitFailure_performs patience p leaseToken _ _
    | ok x => exact performs_pure _

/-- Executing a packet invokes the agent for this packet only. -/
theorem execute_performs (patience : ℕ) (p : RoomContextPacket)
    (leaseToken : Uuid) :
    Performs (Invokes (· = p)) (execute F patience p leaseToken) := by
  refine performs_ask.mpr ⟨trivial, fun now => ?_⟩
  refine performs_ask.mpr ⟨rfl, fun _ => ?_⟩
  refine (eventLoop_performs patience p leaseToken patience _).bind
    fun left => ?_
  cases left with
  | inl outcome => exact performs_pure _
  | inr s => exact conclude_performs patience p leaseToken s

variable (F) in
/-- A packet that is verified at some time and has the given binding. -/
def BoundTo (claimed q : RoomContextPacket) : Prop :=
  q.binding = claimed.binding ∧ ∃ now, Verified F q now

theorem handle_performs (patience : ℕ) (claimed : ContextResponse) :
    Performs (Invokes (BoundTo F claimed.packet))
      (handle F patience claimed) := by
  refine performs_ask.mpr ⟨trivial, fun fetched? => ?_⟩
  cases fetched? with
  | none => exact submitFailure_performs patience _ _ _ _
  | some fetched =>
      simp only
      split_ifs with hbinding
      · exact submitFailure_performs patience _ _ _ _
      rw [not_or, not_not, not_not] at hbinding
      refine performs_ask.mpr ⟨trivial, fun now => ?_⟩
      split_ifs with hverified
      · refine (execute_performs patience _ _).weaken ?_
        intro op hop
        cases op with
        | invoke q limit =>
            obtain rfl : q = fetched.packet := hop
            exact ⟨hbinding.2, now, isOk_verifyPacketAt.mp hverified⟩
        | _ => trivial
      · exact submitFailure_performs patience _ _ _ _

/-- After a claim, only packets bound to the claimed one are executed. -/
theorem runOnce_invokes (patience : ℕ) (leaseOwner : Uuid) :
    (runOnce F patience leaseOwner).run.Yields fun es _ =>
      ∀ (claimed : ContextResponse) rest,
        es = ⟨.claim leaseOwner, Except.ok (some claimed)⟩ :: rest →
        ∀ e ∈ rest, Invokes (BoundTo F claimed.packet) e.op := by
  unfold runOnce
  refine yields_ask.mpr fun answer => ?_
  split
  next retryable =>
    intro claimed rest heq
    cases heq
  next =>
    intro claimed rest heq
    cases heq
  next claimed =>
    have htrue : (handle F patience claimed).run.Yields fun _ _ => True :=
      (handle_yields patience claimed).mono fun _ _ _ => trivial
    refine (htrue.and_within (handle_performs patience claimed)).mono ?_
    rintro es r ⟨_, hes⟩ claimed' rest heq
    cases heq
    exact hes

/-! ## Packets of one hash -/

/-- Correctly hashed packets of one hash are equal; so the packet that is
executed after the claim of a correctly hashed packet is the claimed one. -/
theorem packet_hash_covers_packet
    (huuid : ∀ u, F.parseUuid (F.showUuid u) = some u)
    {p q : RoomContextPacket} (hpq : Distinguishes F p q)
    (hp : LiteralEvents p) (hq : LiteralEvents q)
    (hashp : canonicalPacketSha256 F p = p.canonicalSha256) :
    (canonicalPacketSha256 F q = q.canonicalSha256 →
      p.canonicalSha256 = q.canonicalSha256 → p = q) ∧
    ∀ patience leaseOwner,
      (runOnce F patience leaseOwner).run.Yields fun es _ =>
        ∀ leaseToken rest, es = ⟨.claim leaseOwner,
            Except.ok (some ⟨p, leaseToken⟩)⟩ :: rest →
          ∀ e ∈ rest, ∀ limit, e.op = .invoke q limit → q = p := by
  refine ⟨eq_of_hash huuid hpq hp hq hashp, fun patience leaseOwner => ?_⟩
  refine (runOnce_invokes patience leaseOwner).mono ?_
  intro es r h leaseToken rest heq e he limit hop
  have hinvoked := h ⟨p, leaseToken⟩ rest heq e he
  rw [hop] at hinvoked
  obtain ⟨hbinding, now, hverified⟩ := hinvoked
  have hsha : q.canonicalSha256 = p.canonicalSha256 :=
    congrArg PacketBinding.canonicalSha256 hbinding
  exact (eq_of_hash huuid hpq hp hq hashp hverified.hash hsha.symm).symm

namespace Sample

open Json (Value LiteralNode)

theorem literal_roomEvent {id eventType : String} {payload : Value}
    {sequence : ℕ} {more : List (String × Value)}
    (hpayload : payload.Every LiteralNode) (hsequence : sequence < 2 ^ 64)
    (hmore : ∀ f ∈ more, f.2.Every LiteralNode) :
    (roomEvent id eventType payload sequence more).Every LiteralNode := by
  have hstr : ∀ s, (Value.str s).Every LiteralNode := fun _ => .str trivial
  apply Json.literal_object
  rw [List.forall_mem_append]
  refine ⟨?_, hmore⟩
  simp only [List.forall_mem_cons, List.not_mem_nil, false_imp_iff,
    implies_true, and_true]
  refine ⟨?_, hstr _, hstr _, hpayload, hstr _,
    .num (Json.literal_of_isInteger hsequence)⟩
  exact Json.literal_object (by simp [hstr])

theorem literal_requested (id : String) :
    (requested id).Every LiteralNode := by
  have hstr : ∀ s, (Value.str s).Every LiteralNode := fun _ => .str trivial
  have hseven : (7 : ℕ) < 2 ^ 64 := by decide
  have hrevision : (Value.num (.posInt 7)).Every LiteralNode :=
    .num (Json.literal_of_isInteger hseven)
  refine literal_roomEvent (Json.literal_object ?_) (by decide) ?_
  · simp [hstr, hrevision]
  · simp [hstr]

theorem literal_said (id text : String) {sequence : ℕ}
    (h : sequence < 2 ^ 64) : (said id text sequence).Every LiteralNode := by
  refine literal_roomEvent (Json.literal_object ?_) h (by simp)
  simp only [List.forall_mem_cons, List.not_mem_nil, false_imp_iff,
    implies_true, and_true]
  exact .str trivial

theorem literal_packet : LiteralEvents packet := by
  have hfive : 5 < 2 ^ 64 := by decide
  have hseven : 7 < 2 ^ 64 := by decide
  intro e he
  simp only [packet, packetOf, List.mem_cons, List.not_mem_nil, or_false] at he
  rcases he with rfl | rfl | rfl
  · exact literal_said _ _ hfive
  · exact literal_requested _
  · exact literal_said _ _ hseven

/-- A packet with the hash that is computed for it. -/
def rehashed (p : RoomContextPacket) : RoomContextPacket :=
  { p with canonicalSha256 := canonicalPacketSha256 Reference.formats p }

theorem hash_rehashed (p : RoomContextPacket) :
    canonicalPacketSha256 Reference.formats (rehashed p) =
      (rehashed p).canonicalSha256 := rfl

theorem distinguishes_rehashed (p : RoomContextPacket) :
    Distinguishes Reference.formats p (rehashed p) where
  collision := fun _ => rfl
  issued := fun _ => rfl
  expires := fun _ => rfl

theorem literal_rehashed {p : RoomContextPacket} (hp : LiteralEvents p) :
    LiteralEvents (rehashed p) := hp

/-- The packet as it is fetched again. -/
def refetched : RoomContextPacket := rehashed packet

end Sample

theorem packet_hash_covers_packet_refetched :
    Sample.packet.canonicalSha256 = Sample.refetched.canonicalSha256 ∧
      Sample.packet = Sample.refetched ∧
      ∀ patience leaseOwner,
        (runOnce Reference.formats patience leaseOwner).run.Yields fun es _ =>
          ∀ leaseToken rest, es = ⟨.claim leaseOwner,
              Except.ok (some ⟨Sample.packet, leaseToken⟩)⟩ :: rest →
            ∀ e ∈ rest, ∀ limit, e.op = .invoke Sample.refetched limit →
              Sample.refetched = Sample.packet := by
  have hhash := (verifyPacketAt_eq_ok.mp Sample.verified_packet).hash
  have hsame : Sample.packet.canonicalSha256 =
      Sample.refetched.canonicalSha256 := hhash.symm
  obtain ⟨hequal, hcalls⟩ := packet_hash_covers_packet
    (F := Reference.formats) Reference.parseUuid_showUuid
    (Sample.distinguishes_rehashed Sample.packet) Sample.literal_packet
    (Sample.literal_rehashed Sample.literal_packet) hhash
  exact ⟨hsame, hequal (Sample.hash_rehashed Sample.packet) hsame, hcalls⟩

end AgentGateway.Task
