import AgentGateway.Task.Agreement

/-!
# Renewed leases

What the calls under two leases of one task submit: the same update under the
same identifier, as long as the time of the request does not depend on the
lease.
-/

namespace AgentGateway.Task

open Interaction
open Json (Value)

variable {F : Formats}

/-! ## Renewal -/

/-- The second packet renews the lease of the first. -/
def Renews (p q : RoomContextPacket) : Prop :=
  ∃ issuedAt expiresAt canonicalSha256, q =
    { p with
      issuedAt := issuedAt
      expiresAt := expiresAt
      canonicalSha256 := canonicalSha256 }

variable (F) in
/-- The time that the request event of a packet states. -/
def requestTime (p : RoomContextPacket) : Option DateTime :=
  ((requestEvent F p).bind fun e => e["occurredAt"].asStr?).bind F.parseTime

theorem Renews.requestTime {p q : RoomContextPacket} (h : Renews p q) :
    requestTime F q = requestTime F p := by
  obtain ⟨_, _, _, rfl⟩ := h
  rfl

theorem Renews.taskId {p q : RoomContextPacket} (h : Renews p q) :
    q.taskId = p.taskId := by
  obtain ⟨_, _, _, rfl⟩ := h
  rfl

theorem Renews.contextRevision {p q : RoomContextPacket} (h : Renews p q) :
    q.contextRevision = p.contextRevision := by
  obtain ⟨_, _, _, rfl⟩ := h
  rfl

/-- A renewed lease leaves the result as it is. -/
theorem Renews.expectedResult {p q : RoomContextPacket} (h : Renews p q)
    {now later : DateTime} {v w : Value}
    (hv : expectedResult F p now = .ok v)
    (hw : expectedResult F q later = .ok w) : v = w := by
  have hp := verifyPacketAt_eq_ok.mpr (verified_of_expectedResult hv)
  have hq := verifyPacketAt_eq_ok.mpr (verified_of_expectedResult hw)
  obtain ⟨_, _, _, rfl⟩ := h
  rw [Task.expectedResult, hp] at hv
  rw [Task.expectedResult, hq] at hw
  have heq := hv.symm.trans hw
  exact Except.ok.inj heq

/-! ## Names of updates -/

def Update.ordinal : Update → ℕ
  | .progressed ordinal => ordinal
  | .succeeded _ => 3
  | .failed _ ordinal => ordinal

def Update.kind : Update → String
  | .progressed ordinal => "progressed:" ++ (progressOf ordinal).1
  | .succeeded _ => "succeeded"
  | .failed failure _ => "failed:" ++ failure.asStr

theorem updateId_request (p : RoomContextPacket) (u : Update) :
    (u.request F p).updateId =
      deterministicUpdateId F p.taskId u.ordinal u.kind := by
  cases u <;> rfl

/-- The kinds of the updates that a call submits. -/
def kinds : List String :=
  ["progressed:accepted", "progressed:working", "succeeded",
    "failed:execution_failed", "failed:invalid_task_input"]

variable (F) in
/-- The names of the updates of a task. -/
def updateNames (taskId : Uuid) : List String :=
  (List.range 5).flatMap fun ordinal =>
    kinds.map (updateName F taskId ordinal)

theorem Authorized.named {p : RoomContextPacket} {u : Update}
    (h : Authorized F p u) : u.ordinal < 5 ∧ u.kind ∈ kinds := by
  cases h with
  | @progressed i hi =>
      have hcases : i = 0 ∨ i = 1 ∨ i = 2 := by omega
      rcases hcases with rfl | rfl | rfl <;> decide
  | succeeded _ =>
      have hthree : 3 < 5 := by decide
      have hkind : "succeeded" ∈ kinds := by decide
      exact ⟨hthree, hkind⟩
  | @failed failure ordinal ho =>
      have hkind : ∀ f : TerminalFailure, "failed:" ++ f.asStr ∈ kinds := by
        intro f
        cases f <;> decide
      exact ⟨Nat.lt_succ_of_le ho, hkind failure⟩

theorem mem_updateNames {taskId : Uuid} {ordinal : ℕ} {kind : String}
    (ho : ordinal < 5) (hk : kind ∈ kinds) :
    updateName F taskId ordinal kind ∈ updateNames F taskId :=
  List.mem_flatMap.mpr ⟨ordinal, List.mem_range.mpr ho,
    List.mem_map_of_mem hk⟩

theorem toList_ordinal :
    ∀ n < 5, (toString n).toList = [Nat.digitChar n] := by
  decide

theorem digitChar_ordinal : ∀ m < 5, ∀ n < 5,
    Nat.digitChar m = Nat.digitChar n → m = n := by
  decide

/-- A name determines the ordinal and the kind. -/
theorem updateName_injective {taskId : Uuid} {m n : ℕ} {kind kind' : String}
    (hm : m < 5) (hn : n < 5)
    (h : updateName F taskId m kind = updateName F taskId n kind') :
    m = n ∧ kind = kind' := by
  have hlist := congrArg String.toList h
  simp only [updateName, String.toList_append, List.append_assoc,
    List.append_cancel_left_eq, toList_ordinal m hm, toList_ordinal n hn,
    List.cons_append, List.cons.injEq] at hlist
  exact ⟨digitChar_ordinal m hm n hn hlist.1, String.toList_inj.mp hlist.2⟩

/-- The letter that a kind begins with. -/
def Update.initial : Update → Char
  | .progressed _ => 'p'
  | .succeeded _ => 's'
  | .failed _ _ => 'f'

theorem head_kind (u : Update) : u.kind.toList.head? = some u.initial := by
  cases u with
  | progressed i => simp [Update.kind, Update.initial]
  | succeeded result =>
      have hhead : "succeeded".toList.head? = some 's' := by decide
      exact hhead
  | failed failure ordinal => simp [Update.kind, Update.initial]

/-! ## Updates of two leases -/

/-- Updates of one ordinal and kind are sent with the same content. -/
theorem content_eq {p q : RoomContextPacket} (hpq : Renews p q)
    {u v : Update} (hu : Authorized F p u) (hv : Authorized F q v)
    (hordinal : u.ordinal = v.ordinal) (hkind : u.kind = v.kind) :
    (u.request F p).eventType = (v.request F q).eventType ∧
      (u.request F p).payload = (v.request F q).payload := by
  have hinitial : u.initial = v.initial := by
    have hhead := head_kind u
    rw [hkind, head_kind v, Option.some.injEq] at hhead
    exact hhead.symm
  cases hu with
  | @progressed i _ =>
      cases hv with
      | @progressed j _ =>
          obtain rfl : i = j := hordinal
          exact ⟨rfl, rfl⟩
      | succeeded _ => simp [Update.initial] at hinitial
      | failed _ => simp [Update.initial] at hinitial
  | succeeded hresult =>
      cases hv with
      | progressed _ => simp [Update.initial] at hinitial
      | succeeded hresult' =>
          rw [hpq.expectedResult hresult hresult']
          exact ⟨rfl, rfl⟩
      | failed _ => simp [Update.initial] at hinitial
  | @failed failure _ _ =>
      cases hv with
      | progressed _ => simp [Update.initial] at hinitial
      | succeeded _ => simp [Update.initial] at hinitial
      | @failed failure' _ _ =>
          have hcode : failure.asStr = failure'.asStr := by
            have hlist := congrArg String.toList hkind
            exact String.toList_inj.mp (by simpa [Update.kind] using hlist)
          refine ⟨rfl, ?_⟩
          simp only [Update.request, failureRequest, hcode]

/-- The time of an update, for two leases with one time of the request. -/
theorem occurredAt_eq {p q : RoomContextPacket}
    (hinvoked : invokedAt F p = invokedAt F q) {u v : Update}
    (hordinal : u.ordinal = v.ordinal) :
    (u.request F p).occurredAt = (v.request F q).occurredAt := by
  have htime : ∀ (r : RoomContextPacket) (w : Update),
      (w.request F r).occurredAt = updateOccurredAt F r w.ordinal := by
    intro r w
    cases w <;> rfl
  rw [htime, htime, hordinal, updateOccurredAt, updateOccurredAt, hinvoked]

theorem contextRevision_request (p : RoomContextPacket) (u : Update) :
    (u.request F p).contextRevision = p.contextRevision := by
  cases u <;> rfl

theorem request_eq {p q : RoomContextPacket} (hpq : Renews p q)
    (hinvoked : invokedAt F p = invokedAt F q) {u v : Update}
    (hu : Authorized F p u) (hv : Authorized F q v)
    (hordinal : u.ordinal = v.ordinal) (hkind : u.kind = v.kind) :
    u.request F p = v.request F q := by
  obtain ⟨htype, hpayload⟩ := content_eq hpq hu hv hordinal hkind
  apply TaskUpdateRequest.ext
  · rw [updateId_request, updateId_request, hpq.taskId, hordinal, hkind]
  · rw [contextRevision_request, contextRevision_request,
      hpq.contextRevision]
  · exact htype
  · exact hpayload
  · exact occurredAt_eq hinvoked hordinal

/-! ## Replays -/

/-- A call that claims a task and goes by the packet `p`. -/
def RunsOn (p : RoomContextPacket) (es : List (Event Room)) : Prop :=
  ∃ (leaseOwner : Uuid) (claimed : ContextResponse)
    (rest : List (Event Room)),
    es = ⟨.claim leaseOwner, Except.ok (some claimed)⟩ :: rest ∧
      Handles claimed rest p

variable (F) in
/-- Requests under one identifier are equal, and those of different ordinals
or kinds have different identifiers. -/
def Replays (p q : RoomContextPacket) (es fs : List (Event Room)) : Prop :=
  ∀ x ∈ submissions es, ∀ y ∈ submissions fs,
    (x.1.request.updateId = y.1.request.updateId →
      x.1.request = y.1.request) ∧
    ∃ u v : Update, x.1.request = u.request F p ∧
      y.1.request = v.request F q ∧
      ((u.ordinal, u.kind) ≠ (v.ordinal, v.kind) →
        x.1.request.updateId ≠ y.1.request.updateId)

variable (F) in
/-- All calls for the one packet and all calls for the other. -/
def ReplaysIdentically (p q : RoomContextPacket) : Prop :=
  ∀ patience patience' leaseOwner leaseOwner',
    (runOnce F patience leaseOwner).run.Yields fun es _ => RunsOn p es →
      (runOnce F patience' leaseOwner').run.Yields fun fs _ =>
        RunsOn q fs → Replays F p q es fs

theorem runOnce_authorized (p : RoomContextPacket) (patience : ℕ)
    (leaseOwner : Uuid) :
    (runOnce F patience leaseOwner).run.Yields fun es _ => RunsOn p es →
      ∀ x ∈ submissions es, ∃ u, Authorized F p u ∧
        x.1.request = u.request F p := by
  refine (runOnce_yields patience leaseOwner).mono ?_
  rintro es r hrun ⟨_, claimed', rest', heq, hhandles⟩ x hx
  cases hrun with
  | unclaimed _ => cases hx
  | @claimed claimed q rest r ds hq hds hending =>
      cases heq
      obtain rfl := hhandles.unique hq
      obtain ⟨d, hd, hx⟩ := update_of_sends hds hx
      exact ⟨d.update, hending.authorized d hd, by rw [hx]; rfl⟩

/-- Where the time of the request is the same, every call is replayed. -/
theorem replaysIdentically_of_invokedAt {p q : RoomContextPacket}
    (hpq : Renews p q)
    (hv5 : ∀ m ∈ updateNames F p.taskId, ∀ n ∈ updateNames F p.taskId,
      F.uuidV5 m = F.uuidV5 n → m = n)
    (hinvoked : invokedAt F p = invokedAt F q) :
    ReplaysIdentically F p q := by
  intro patience patience' leaseOwner leaseOwner'
  refine (runOnce_authorized p patience leaseOwner).mono ?_
  intro es _ hes hp
  refine (runOnce_authorized q patience' leaseOwner').mono ?_
  intro fs _ hfs hq x hx y hy
  obtain ⟨u, hu, hxu⟩ := hes hp x hx
  obtain ⟨v, hv, hyv⟩ := hfs hq y hy
  obtain ⟨hu₁, hu₂⟩ := hu.named
  obtain ⟨hv₁, hv₂⟩ := hv.named
  have hnames : x.1.request.updateId = y.1.request.updateId →
      u.ordinal = v.ordinal ∧ u.kind = v.kind := by
    intro hid
    rw [hxu, hyv, updateId_request, updateId_request, hpq.taskId] at hid
    exact updateName_injective hu₁ hv₁
      (hv5 _ (mem_updateNames hu₁ hu₂) _ (mem_updateNames hv₁ hv₂) hid)
  constructor
  · intro hid
    obtain ⟨hordinal, hkind⟩ := hnames hid
    rw [hxu, hyv]
    exact request_eq hpq hinvoked hu hv hordinal hkind
  · refine ⟨u, v, hxu, hyv, fun hne hid => hne ?_⟩
    obtain ⟨hordinal, hkind⟩ := hnames hid
    rw [hordinal, hkind]

/-! ## A call that reports progress -/

/-- Some call for a verified packet submits its first update. -/
theorem exists_progress {p : RoomContextPacket} {now : DateTime}
    (hp : Verified F p now)
    {P : List (Event Room) → Option (Except DispatchError ℕ) → Prop}
    (h : (runOnce F 6 0).run.Yields P) : ∃ es r, P es r ∧ RunsOn p es ∧
      ∃ x ∈ submissions es,
        x.1.request = (Update.progressed 0).request F p := by
  obtain ⟨result, hresult⟩ := exists_expectedResult hp
  have hsix : 6 ≤ 6 := le_rfl
  have hbinding : p.binding =
      (⟨p, 0⟩ : ContextResponse).packet.binding := rfl
  have hreturns := runOnce_returns hbinding hresult 0 hsix
  obtain ⟨es, s', r, hexec⟩ := exists_exec
    (E := helpful ⟨p, 0⟩ p) (helpful_answers hp.fresh)
    (runOnce F 6 0).run (eventsOf p result)
  refine ⟨es, r, h.exec hexec, ?_, ?_⟩
  · cases hexec with
    | @call _ _ _ answer _ es _ hanswer hexec =>
        obtain rfl : answer = .ok (some ⟨p, 0⟩) := hanswer
        cases hexec with
        | @call _ _ _ fetched _ es _ hfetched hexec =>
            obtain rfl : fetched = some ⟨p, 0⟩ := hfetched
            exact ⟨0, ⟨p, 0⟩, _, rfl, rfl, .inl ⟨es, rfl⟩⟩
  · obtain ⟨_, _, _, hsubmitted⟩ :=
      (Prog.Ensures.exec hreturns hexec).1 r rfl
    rw [List.nil_append] at hsubmitted
    rw [hsubmitted]
    exact ⟨_, List.mem_cons_self, rfl⟩

theorem invokedAt_eq_iff {p q : RoomContextPacket} (hpq : Renews p q) :
    invokedAt F p = invokedAt F q ↔
      (requestTime F p).isSome = true ∨ p.issuedAt = q.issuedAt := by
  have hp : invokedAt F p = (requestTime F p).getD p.issuedAt := rfl
  have hq : invokedAt F q = (requestTime F p).getD q.issuedAt := by
    rw [← hpq.requestTime]
    rfl
  rw [hp, hq]
  cases requestTime F p with
  | none => simp
  | some t => simp

/-- Where the packets state no time of the request, the leases that are
replayed identically have one time of issue. -/
theorem issuedAt_of_replaysIdentically {p q : RoomContextPacket}
    (hpq : Renews p q)
    (hzero : F.addMilliseconds p.issuedAt 0 = some p.issuedAt)
    (hzero' : F.addMilliseconds q.issuedAt 0 = some q.issuedAt)
    {now later : DateTime} (hp : Verified F p now) (hq : Verified F q later)
    (hnone : requestTime F p = none) (h : ReplaysIdentically F p q) :
    p.issuedAt = q.issuedAt := by
  obtain ⟨es, _, hes, hrun, x, hx, hxp⟩ := exists_progress hp (h 6 6 0 0)
  obtain ⟨fs, _, hfs, hrun', y, hy, hyq⟩ := exists_progress hq (hes hrun)
  have hid : x.1.request.updateId = y.1.request.updateId := by
    rw [hxp, hyq, updateId_request, updateId_request, hpq.taskId]
  have heq := (hfs hrun' x hx y hy).1 hid
  rw [hxp, hyq] at heq
  have htime : updateOccurredAt F p 0 = updateOccurredAt F q 0 :=
    congrArg TaskUpdateRequest.occurredAt heq
  have hissued : invokedAt F p = p.issuedAt :=
    congrArg (·.getD p.issuedAt) hnone
  have hissued' : invokedAt F q = q.issuedAt :=
    congrArg (·.getD q.issuedAt) (hpq.requestTime.trans hnone)
  rwa [updateOccurredAt, updateOccurredAt, hissued, hissued', hzero, hzero',
    Option.getD_some, Option.getD_some] at htime

/-- A renewed lease replays the updates of the task if and only if the packet
states the time of the request, or the lease keeps its time of issue. -/
theorem renewed_leases_replay_iff {p q : RoomContextPacket}
    (hpq : Renews p q)
    (hzero : F.addMilliseconds p.issuedAt 0 = some p.issuedAt)
    (hzero' : F.addMilliseconds q.issuedAt 0 = some q.issuedAt)
    (hv5 : ∀ m ∈ updateNames F p.taskId, ∀ n ∈ updateNames F p.taskId,
      F.uuidV5 m = F.uuidV5 n → m = n)
    {now later : DateTime} (hp : verifyPacketAt F p now = .ok ())
    (hq : verifyPacketAt F q later = .ok ()) :
    ReplaysIdentically F p q ↔
      (requestTime F p).isSome = true ∨ p.issuedAt = q.issuedAt := by
  constructor
  · intro h
    by_cases htime : requestTime F p = none
    · exact .inr (issuedAt_of_replaysIdentically hpq hzero hzero'
        (verifyPacketAt_eq_ok.mp hp) (verifyPacketAt_eq_ok.mp hq) htime h)
    · exact .inl (Option.isSome_iff_ne_none.mpr htime)
  · intro h
    exact replaysIdentically_of_invokedAt hpq hv5
      ((invokedAt_eq_iff hpq).mpr h)

/-! ## Renewed samples -/

namespace Sample

/-- The lease a minute later. -/
def renew (p : RoomContextPacket) (canonicalSha256 : String) :
    RoomContextPacket :=
  { p with
    issuedAt := toLex (1893456060, 0)
    expiresAt := toLex (1893456360, 0)
    canonicalSha256 := canonicalSha256 }

theorem renews_renew (p : RoomContextPacket) (canonicalSha256 : String) :
    Renews p (renew p canonicalSha256) :=
  ⟨_, _, _, rfl⟩

def renewed : RoomContextPacket :=
  renew packet
    "3cb4177d6e317a908614ba97ec8fedc5c76322cb7a8c896cbaffe5bb2fbcfcdb"

theorem verified_renewed :
    verifyPacketAt Reference.formats renewed issued = .ok () := by
  decide +kernel

/-- The names of the updates of the task have different identifiers. -/
theorem distinct_updateIds : ((updateNames Reference.formats
    packet.taskId).map Reference.formats.uuidV5).Nodup := by
  decide +kernel

theorem uuidV5_injective :
    ∀ m ∈ updateNames Reference.formats packet.taskId,
      ∀ n ∈ updateNames Reference.formats packet.taskId,
        Reference.formats.uuidV5 m = Reference.formats.uuidV5 n → m = n :=
  fun _ hm _ hn h => List.inj_on_of_nodup_map distinct_updateIds hm hn h

/-- The packet whose request writes the task identifier without hyphens. -/
def compact : RoomContextPacket :=
  packetOf [requestedAs "88000000-0000-4000-8000-000000000002"
      "84000000000040008000000000000001"] (by decide)
    "5aac3a11d0c7190f1a8ceb522d02d57fe49880e4b9a2a29cb89c3547f5bf6f31"

def compactRenewed : RoomContextPacket :=
  renew compact
    "ef7d475b901fcabadebe01eb99994617d9eb23a1949883c1a5d865159e4f446e"

theorem verified_compact :
    verifyPacketAt Reference.formats compact issued = .ok () := by
  decide +kernel

theorem verified_compactRenewed :
    verifyPacketAt Reference.formats compactRenewed issued = .ok () := by
  decide +kernel

theorem requestTime_compact : requestTime Reference.formats compact = none := by
  decide +kernel

theorem addMilliseconds_zero (seconds : ℤ) :
    Reference.formats.addMilliseconds (toLex (seconds, 0)) 0 =
      some (toLex (seconds, 0)) := by
  simp [Reference.formats, Reference.addMilliseconds]

theorem renews_renewed : Renews packet renewed := renews_renew packet _

theorem renews_compact : Renews compact compactRenewed :=
  renews_renew compact _

theorem issuedAt_compact : compact.issuedAt ≠ compactRenewed.issuedAt := by
  decide

end Sample

theorem renewed_leases_replay_iff_packet :
    ReplaysIdentically Reference.formats Sample.packet Sample.renewed ↔
      (requestTime Reference.formats Sample.packet).isSome = true ∨
        Sample.packet.issuedAt = Sample.renewed.issuedAt :=
  renewed_leases_replay_iff (F := Reference.formats)
    Sample.renews_renewed (Sample.addMilliseconds_zero _)
    (Sample.addMilliseconds_zero _) Sample.uuidV5_injective
    Sample.verified_packet Sample.verified_renewed

/-- A request that writes the task identifier in another form is verified, but
its time is not found: the renewed lease moves the times of the updates. -/
theorem renewed_lease_moves_updates : ¬∀ (p q : RoomContextPacket)
    (now later : DateTime), Renews p q →
      verifyPacketAt Reference.formats p now = .ok () →
      verifyPacketAt Reference.formats q later = .ok () →
      ReplaysIdentically Reference.formats p q := by
  intro h
  have hreplays := h Sample.compact Sample.compactRenewed Sample.issued
    Sample.issued Sample.renews_compact Sample.verified_compact
    Sample.verified_compactRenewed
  have hissued := issuedAt_of_replaysIdentically (F := Reference.formats)
    Sample.renews_compact (Sample.addMilliseconds_zero _)
    (Sample.addMilliseconds_zero _)
    (verifyPacketAt_eq_ok.mp Sample.verified_compact)
    (verifyPacketAt_eq_ok.mp Sample.verified_compactRenewed)
    Sample.requestTime_compact hreplays
  exact Sample.issuedAt_compact hissued

end AgentGateway.Task
