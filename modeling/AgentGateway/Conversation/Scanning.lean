import AgentGateway.Conversation.Invariants

/-!
# The recovery scan

A scan of loadable records loses nothing as long as the token endpoint does not
refuse the token for an authority check: every visited record stays as it is, is
acknowledged, or is quarantined because the broker said so, and the scan goes on
past every record that it does not finish.
-/

namespace AgentGateway

open Json (Value)
open Interaction
open Mediation
open Dispatcher

variable {K : Crates} {c : Dispatcher} {d d' : Directory}
  {es : List Action} {entry : DirEntry} {entries : List DirEntry}

/-- Every file can be loaded. -/
def Loadable (K : Crates) (d : Directory) : Prop :=
  ∀ id bytes, d id = some bytes →
    K.uuidParses id = true ∧ Record.read bytes ≠ none

/-- The broker has answered that the task failed without a reply, or that the
authority for the stored binding and lease is lost or has elapsed. -/
inductive Definitive (K : Crates) (id : String) (r : Record)
    (es : List Action) : Prop
  | receipt {reply : Reply} {v : Value} :
      ⟨.roomRequest (brokerReceiptRequest id), reply⟩ ∈ es →
      roomResponse reply = .ok (some v) →
      brokerReceiptMatches v r.binding = some () →
      v["state"] = .str "failed" → v["acknowledgement"] = .null →
      v["result"] = .null → Definitive K id r es
  | status {i : String} {response : Response} :
      r.binding["taskId"] = .str i →
      ⟨.roomRequest (authorityRequest i r.lease), some response⟩ ∈ es →
      lossStatus response.status → Definitive K id r es
  | elapsed {i : String} {reply : Reply} {a : Value} {n e : ℤ} :
      r.binding["taskId"] = .str i →
      ⟨.roomRequest (authorityRequest i r.lease), reply⟩ ∈ es →
      roomResponse reply = .ok (some a) →
      authorityMatches a r.binding = some () → ⟨.clock, n⟩ ∈ es →
      (timestamp K a["expiresAt"] = some e ∨
        timestamp K a["authorizationExpiresAt"] = some e) →
      e ≤ n → Definitive K id r es

/-- What a visit may do: nothing, acknowledge the record, or quarantine it for
a definitive reason. -/
inductive Lossless (K : Crates) (d : Directory) (entry : DirEntry)
    (es : List Action) : Directory → Bool → Prop
  | unchanged : Lossless K d entry es d false
  | acknowledged {id : String} {r : Record} {a : Value} :
      entry = .file (some id) (some "json") → d.record id = some r →
      r.ack = none → AckBound K (r.acknowledged a) a →
        Lossless K d entry es (d.write id (r.acknowledged a).toVec) true
  | quarantined {id : String} {r : Record} :
      entry = .file (some id) (some "json") → d.record id = some r →
      Definitive K id r es →
        Lossless K d entry es (d.write id r.quarantined.toVec) false

/-! ## One visit -/

theorem Exchange.reply_mem {req : RoomRequest} {reply : Reply}
    (hex : Exchange req reply es) : ⟨.roomRequest req, reply⟩ ∈ es := by
  cases hex
  simp

theorem ReceiptFailed.definitive {id : String} {r : Record}
    {fs : List Action} (hfs : ReceiptFailed id r fs) (hsub : fs ⊆ es) :
    Definitive K id r es := by
  cases hfs with
  | intro hex hv hmatch hstate hack hresult =>
      exact .receipt (hsub hex.reply_mem) hv hmatch hstate hack hresult

theorem AuthorityAnsweredLoss.definitive {id : String} {r : Record}
    {fs : List Action} (hfs : AuthorityAnsweredLoss K r.binding r.lease fs)
    (hsub : fs ⊆ es) : Definitive K id r es := by
  cases hfs with
  | status hid hex hloss => exact .status hid (hsub hex.reply_mem) hloss
  | elapsed hid hex ha hmatch he hle =>
      exact .elapsed hid (hsub (List.mem_append_left _ hex.reply_mem)) ha
        hmatch (hsub (by simp)) (.inl he) hle
  | @authorizationElapsed _ _ _ _ _ n₂ _ hid hex ha hmatch he hle =>
      exact .elapsed (n := n₂) hid
        (hsub (List.mem_append_left _ hex.reply_mem)) ha hmatch
        (hsub (by simp)) (.inr he) hle

theorem not_definitive_of_inconclusive {id : String} {r : Record}
    (hes : Inconclusive id es) : ¬Definitive K id r es := by
  rintro (⟨hmem, hv, _, hstate, _, _⟩ | ⟨_, hmem, _⟩ | ⟨_, hmem, _⟩)
  · exact (hes _ hmem).2 _ _ rfl hv hstate
  · exact (hes _ hmem).1 _ _ _ rfl
  · exact (hes _ hmem).1 _ _ _ rfl

theorem clean_saved (id : String) (r : Record) : Clean [saved id r] := by
  refine clean_of_op fun a ha i l => ?_
  rw [List.mem_singleton] at ha
  subst ha
  rintro ⟨⟩

theorem inconclusive_saved (id : String) (r : Record) :
    Inconclusive id [saved id r] := by
  refine inconclusive_of_op fun a ha req => ?_
  rw [List.mem_singleton] at ha
  subst ha
  rintro ⟨⟩

theorem Refusal.inconclusive {a : Action} (ha : Refusal a) (id : String) :
    Inconclusive id [a] := by
  obtain ⟨i, lease, t, rfl, _⟩ := ha
  refine inconclusive_of_op fun b hb req => ?_
  rw [List.mem_singleton] at hb
  subst hb
  rintro ⟨⟩

theorem quarantined_safe {r : Record} (hr : r.Safe) : r.quarantined.Safe :=
  ⟨hr.binding, hr.result, hr.runtimeBinding, hr.update, hr.ack⟩

/-- Quarantine changes a pending record. -/
theorem write_quarantined_ne {id : String} {r : Record}
    (hr : d.record id = some r) (hpending : pending r) :
    d.write id r.quarantined.toVec ≠ d := by
  intro heq
  have hrecord := Directory.record_write_self
    (quarantined_safe (Directory.record_safe hr)) d id
  rw [heq, hr] at hrecord
  have hphase := congrArg Record.phase (Option.some.inj hrecord)
  exact hpending.2.2 hphase

/-- A visit changes at most the file of its entry. -/
def OnlyChanges (d : Directory) (entry : DirEntry) (d' : Directory) : Prop :=
  d' = d ∨ ∃ id bytes, entry = .file (some id) (some "json") ∧
    d' = d.write id bytes

/-- A visit of a loadable record does not fail without an error of the disk, and
it is lossless unless a token was refused. -/
theorem VisitOutcome.lossless_iff {res : Except MediationError Bool}
    (hvisit : VisitOutcome K d entry es d' res)
    (hload : ¬Unloadable K d entry) (hio : ∀ a ∈ es, ¬IoError a) :
    OnlyChanges d entry d' ∧
      ∃ b, res = .ok b ∧ (Lossless K d entry es d' b ↔ Clean es) := by
  cases hvisit with
  | passed hes => exact ⟨.inl rfl, false, rfl, iff_of_true .unchanged hes⟩
  | @finished id r a es hentry hr hpending hes hsafe hack =>
      refine ⟨.inr ⟨id, _, hentry, rfl⟩, true, rfl,
        iff_of_true ?_ (hes.append (clean_saved id _))⟩
      exact .acknowledged hentry hr hpending.2.1
        ((ackMatches_bound hack).1.extends
          (Settles.acknowledged hsafe hack).extends)
  | @receiptFailed id r es fs gs hentry hr hpending hes hfs hgs =>
      refine ⟨.inr ⟨id, _, hentry, rfl⟩, false, rfl, iff_of_true ?_
        (((hes.append hfs.clean).append hgs).append (clean_saved id _))⟩
      exact .quarantined hentry hr (hfs.definitive (by simp))
  | @authorityLost id r es fs gs hentry hr hpending hes hfs hgs =>
      refine ⟨.inr ⟨id, _, hentry, rfl⟩, false, rfl, iff_of_true ?_
        (((hes.append hfs.clean).append hgs).append (clean_saved id _))⟩
      exact .quarantined hentry hr (hfs.definitive (by simp))
  | @tokenRefused id r a es gs hentry hr hpending hes hrefusal hgs =>
      refine ⟨.inr ⟨id, _, hentry, rfl⟩, false, rfl,
        iff_of_false ?_ fun hclean => hclean a (by simp) hrefusal⟩
      generalize hd : d.write id r.quarantined.toVec = d₁
      generalize hb : false = b
      rintro (_ | _ | ⟨hentry', hr', hdefinitive⟩)
      · exact write_quarantined_ne hr hpending hd
      · cases hb
      · rw [hentry] at hentry'
        cases hentry'
        exact not_definitive_of_inconclusive
          (((hes.append (hrefusal.inconclusive id)).append hgs).append
            (inconclusive_saved id _)) hdefinitive
  | ioError hmem herror => exact absurd herror (hio _ hmem)
  | unloadable hentry => exact absurd hentry hload

theorem visit_lossless_iff {res : Except MediationError Bool}
    (hexec : Exec world d (visit K c entry).run es d' (some res))
    (hreadable : entry ≠ .unreadable) (hload : ¬Unloadable K d entry)
    (hio : ∀ a ∈ es, ¬IoError a) :
    OnlyChanges d entry d' ∧
      ∃ b, res = .ok b ∧ (Lossless K d entry es d' b ↔ Clean es) := by
  have hvisit : Ensures (Guarantee K c) (visit K c entry)
      (fun d' h' res => VisitOutcome K d entry h' d' res) d [] :=
    visit_ensures guarantee_recovers (fun heq => absurd heq hreadable)
      fun _ _ _ hvisit => hvisit
  exact ((hvisit.exec hexec).1 res rfl).lossless_iff hload hio

/-! ## The scan -/

/-- The visits of a scan, all of them lossless.  The scan ends with the first
record that becomes acknowledged, or after all entries. -/
inductive Scanned (K : Crates) (c : Dispatcher) :
    Directory → List DirEntry → List Action → Directory → Bool → Prop
  | done (d : Directory) : Scanned K c d [] [] d false
  | finished {d d' : Directory} {entry : DirEntry} {entries : List DirEntry}
      {es : List Action} :
      Exec world d (visit K c entry).run es d' (some (.ok true)) →
      Lossless K d entry es d' true →
        Scanned K c d (entry :: entries) es d' true
  | next {d d₁ d' : Directory} {entry : DirEntry} {entries : List DirEntry}
      {es fs : List Action} {b : Bool} :
      Exec world d (visit K c entry).run es d₁ (some (.ok false)) →
      Lossless K d entry es d₁ false → Scanned K c d₁ entries fs d' b →
        Scanned K c d (entry :: entries) (es ++ fs) d' b

/-- The entries can be visited one after the other. -/
structure Ready (K : Crates) (d : Directory) (entries : List DirEntry) :
    Prop where
  readable : .unreadable ∉ entries
  loadable : ∀ entry ∈ entries, ¬Unloadable K d entry
  once : (entries.filterMap DirEntry.task).Nodup

theorem Listing.ready (hlist : Listing d entries) (hload : Loadable K d)
    (hreadable : .unreadable ∉ entries) : Ready K d entries := by
  refine ⟨hreadable, fun entry hmem hentry => ?_, hlist.once⟩
  cases hentry with
  | stem =>
      obtain ⟨id, hid, _⟩ := hlist.known none hmem
      cases hid
  | path huuid =>
      obtain ⟨i, hi, hne⟩ := hlist.known _ hmem
      cases hi
      obtain ⟨bytes, hbytes⟩ := Option.ne_none_iff_exists'.mp hne
      exact huuid (hload _ bytes hbytes).1
  | content hcontent hread => exact (hload _ _ hcontent).2 hread

theorem unloadable_write {id : String} {bytes : Utf8.Bytes}
    (hentry : entry.task ≠ some id)
    (h : Unloadable K (d.write id bytes) entry) : Unloadable K d entry := by
  cases h with
  | stem => exact .stem
  | path huuid => exact .path huuid
  | @content i content hcontent hread =>
      have hne : i ≠ id := fun heq => hentry (congrArg some heq)
      rw [Directory.write_of_ne hne] at hcontent
      exact .content hcontent hread

theorem OnlyChanges.ready (hvisit : OnlyChanges d entry d')
    (h : Ready K d (entry :: entries)) : Ready K d' entries := by
  have hreadable : .unreadable ∉ entries := fun hmem =>
    h.readable (List.mem_cons_of_mem _ hmem)
  rcases hvisit with rfl | ⟨id, bytes, rfl, rfl⟩
  · refine ⟨hreadable,
      fun entry hmem => h.loadable entry (List.mem_cons_of_mem _ hmem), ?_⟩
    exact h.once.sublist ((List.sublist_cons_self _ _).filterMap _)
  · have hnodup : (id :: entries.filterMap DirEntry.task).Nodup := h.once
    obtain ⟨hnotin, hnodup⟩ := List.nodup_cons.mp hnodup
    refine ⟨hreadable, fun entry hmem hentry => ?_, hnodup⟩
    refine h.loadable entry (List.mem_cons_of_mem _ hmem)
      (unloadable_write (fun htask => hnotin ?_) hentry)
    exact List.mem_filterMap.mpr ⟨entry, hmem, htask⟩

theorem Ready.visit {res : Except MediationError Bool}
    (h : Ready K d (entry :: entries))
    (hexec : Exec world d (visit K c entry).run es d' (some res))
    (hio : ∀ a ∈ es, ¬IoError a) :
    Ready K d' entries ∧
      ∃ b, res = .ok b ∧ (Lossless K d entry es d' b ↔ Clean es) := by
  obtain ⟨hchanges, hres⟩ := visit_lossless_iff hexec
    (fun heq => h.readable (heq ▸ List.mem_cons_self))
    (h.loadable entry List.mem_cons_self) hio
  exact ⟨hchanges.ready h, hres⟩

theorem Scanned.clean {b : Bool} (h : Scanned K c d entries es d' b)
    (hready : Ready K d entries) (hio : ∀ a ∈ es, ¬IoError a) : Clean es := by
  induction h with
  | done _ => exact clean_nil
  | finished hexec hlossless =>
      obtain ⟨_, b, hb, hiff⟩ := hready.visit hexec hio
      cases hb
      exact hiff.mp hlossless
  | next hexec hlossless _ ih =>
      obtain ⟨hnext, b, hb, hiff⟩ := hready.visit hexec
        fun a ha => hio a (List.mem_append_left _ ha)
      cases hb
      exact (hiff.mp hlossless).append
        (ih hnext fun a ha => hio a (List.mem_append_right _ ha))

/-- A scan of loadable records returns, and losslessly if no token was
refused. -/
theorem Ready.scan {res : Except MediationError Bool}
    (hready : Ready K d entries)
    (hexec : Exec world d (scan K c entries).run es d' (some res))
    (hio : ∀ a ∈ es, ¬IoError a) :
    ∃ b, res = .ok b ∧ (Clean es → Scanned K c d entries es d' b) := by
  induction entries generalizing d es with
  | nil =>
      have hret : Exec world d (Prog.ret (Except.ok false)) es d'
          (some res) := hexec
      cases hret
      exact ⟨false, rfl, fun _ => .done _⟩
  | cons entry entries ih =>
      rcases Exec.of_bindExcept hexec with ⟨e, rfl, hvisit⟩ |
        ⟨es₁, es₂, d₁, finished, rfl, hvisit, hrest⟩
      · obtain ⟨_, b, hb, _⟩ := hready.visit hvisit hio
        cases hb
      · obtain ⟨hnext, b, hb, hiff⟩ := hready.visit hvisit
          fun a ha => hio a (List.mem_append_left _ ha)
        cases hb
        have hlossless : Clean (es₁ ++ es₂) →
            Lossless K d entry es₁ d₁ finished := fun hclean =>
          hiff.mpr fun a ha => hclean a (List.mem_append_left _ ha)
        cases finished with
        | true =>
            have hret : Exec world d₁ (Prog.ret (Except.ok true)) es₂ d'
                (some res) := hrest
            cases hret
            rw [List.append_nil] at hlossless ⊢
            exact ⟨true, rfl, fun hclean =>
              .finished hvisit (hlossless hclean)⟩
        | false =>
            obtain ⟨b, rfl, hscanned⟩ := ih hnext hrest
              fun a ha => hio a (List.mem_append_right _ ha)
            refine ⟨b, rfl, fun hclean =>
              .next hvisit (hlossless hclean) (hscanned ?_)⟩
            exact fun a ha => hclean a (List.mem_append_right _ ha)

/-! ## The call around the scan -/

/-- Over a directory of loadable records and without errors of the disk, a scan
is lossless, and the call returns after an acknowledgement or else goes on to
claim a task, if and only if no token for an authority check was refused as if
authority were lost. -/
theorem recovery_lossless_iff {res : Except MediationError Bool}
    (hload : Loadable K d) (hlist : Listing d entries)
    (hreadable : .unreadable ∉ entries)
    (hscan : Exec world d (scan K c entries).run es d' (some res))
    (hio : ∀ a ∈ es, ¬IoError a) :
    (∃ b, res = .ok b ∧ Scanned K c d entries es d' b ∧
      (b = true → Exec world d (runOnce K c).run
        (⟨.readDir, some entries⟩ :: es) d' (some (.ok true))) ∧
      (b = false → ∀ t, Exec world d (runOnce K c).run
        (⟨.readDir, some entries⟩ ::
          (es ++ [⟨.serviceToken c.claimRequest, t⟩])) d' none)) ↔
      ∀ a ∈ es, ¬Refusal a := by
  have hready := hlist.ready hload hreadable
  constructor
  · rintro ⟨b, _, hscanned, _⟩
    exact hscanned.clean hready hio
  · intro hclean
    obtain ⟨b, rfl, hscanned⟩ := hready.scan hscan hio
    refine ⟨b, rfl, hscanned hclean, ?_, ?_⟩
    · rintro rfl
      exact exec_runOnce_finished hlist hscan
    · rintro rfl t
      exact exec_runOnce_claims hlist hscan t

theorem loadable_directoryOf {r : Record}
    (hr : Stored Reference.crates (Sample.directoryOf r) Sample.task₁ r) :
    Loadable Reference.crates (Sample.directoryOf r) := by
  intro id bytes hfile
  by_cases hid : id = Sample.task₁
  · subst hid
    rw [hr.file] at hfile
    cases hfile
    refine ⟨hr.uuid, ?_⟩
    rw [Record.read_toVec hr.safe, if_neg (Nat.not_lt.mpr hr.length)]
    rintro ⟨⟩
  · rw [Sample.directoryOf, Directory.write_of_ne hid] at hfile
    cases hfile

/-- The status of the token endpoint. -/
def tokenStatus : Action → Option ℕ
  | ⟨.serviceToken _, some t⟩ => some t.status
  | _ => none

theorem not_refusal {es : List Action}
    (h : ∀ n ∈ es.filterMap tokenStatus, ¬lossStatus n) :
    ∀ a ∈ es, ¬Refusal a := by
  rintro a ha ⟨i, lease, t, rfl, hloss⟩
  exact h t.status (List.mem_filterMap.mpr ⟨_, ha, rfl⟩) hloss

/-- Reads, saves and listings that failed. -/
def ioFailure : Action → Bool
  | ⟨.readDir, none⟩ => true
  | ⟨.readDir, some entries⟩ => decide (.unreadable ∈ entries)
  | ⟨.read _, .failed⟩ => true
  | ⟨.save _ _, .failed _⟩ => true
  | _ => false

theorem not_ioError {es : List Action} (h : es.any ioFailure = false) :
    ∀ a ∈ es, ¬IoError a := by
  intro a ha herror
  have hno := List.any_eq_false.mp h a ha
  obtain ⟨op, ans⟩ := a
  cases op with
  | readDir =>
      rcases herror with rfl | ⟨entries, rfl, hmem⟩
      · exact hno rfl
      · exact hno (decide_eq_true hmem)
  | read id =>
      cases herror
      exact hno rfl
  | save id r =>
      obtain ⟨replaced, rfl⟩ := herror
      exact hno rfl
  | _ => exact herror

def roomReply : Action → Option (RoomRequest × Reply)
  | ⟨.roomRequest req, reply⟩ => some (req, reply)
  | _ => none

/-- The only answer of the broker leaves the task open. -/
theorem not_definitive_refusedScan :
    ¬Definitive Reference.crates Sample.task₁ Sample.completed
      Sample.refusedScan := by
  have hreply : ∀ {req : RoomRequest} {reply : Reply},
      ⟨.roomRequest req, reply⟩ ∈ Sample.refusedScan →
        (req, reply) ∈ [(brokerReceiptRequest Sample.task₁,
          response (Sample.brokerReceipt Sample.packet₁))] := by
    intro req reply hmem
    have hfound : (req, reply) ∈ Sample.refusedScan.filterMap roomReply :=
      List.mem_filterMap.mpr ⟨_, hmem, rfl⟩
    exact hfound
  have hother : ∀ i lease, authorityRequest i lease ≠
      brokerReceiptRequest Sample.task₁ := by
    intro i lease heq
    cases congrArg RoomRequest.lease heq
  rintro (⟨hmem, hv, _, hstate, _, _⟩ | ⟨_, hmem, _⟩ | ⟨_, hmem, _⟩)
  · rw [(Prod.mk.inj (List.mem_singleton.mp (hreply hmem))).2,
      roomResponse_response Sample.admissible.unsettling.sendable] at hv
    cases hv
    exact Sample.admissible.unsettling.not_failed hstate
  · exact hother _ _ (Prod.mk.inj (List.mem_singleton.mp (hreply hmem))).1
  · exact hother _ _ (Prod.mk.inj (List.mem_singleton.mp (hreply hmem))).1

theorem unreadable_notMem_oneFile {id : String} :
    .unreadable ∉ oneFile id := by
  simp [oneFile]

theorem recovery_lossless_iff_recoveryScan :
    Scanned Reference.crates Sample.mediator
      (Sample.directoryOf Sample.completed) (oneFile Sample.task₁)
      Sample.recoveryScan (Sample.directoryOf Sample.acknowledged) true := by
  obtain ⟨b, hb, hscanned, _⟩ := (recovery_lossless_iff
    (loadable_directoryOf Sample.completed_stored) listing_oneFile
    unreadable_notMem_oneFile Sample.exec_recoveryScan
    (not_ioError rfl)).mpr
    (not_refusal (show ∀ n ∈ [200, 200, 200], ¬lossStatus n by
      simp [lossStatus]))
  cases hb
  exact hscanned

/-- The token endpoint refuses the token for the authority check of a pending
completion, which is quarantined for it. -/
theorem refused_token_quarantines :
    Loadable Reference.crates (Sample.directoryOf Sample.completed) ∧
      Listing (Sample.directoryOf Sample.completed) (oneFile Sample.task₁) ∧
      Exec world (Sample.directoryOf Sample.completed)
        (scan Reference.crates Sample.mediator (oneFile Sample.task₁)).run
        Sample.refusedScan (Sample.directoryOf Sample.completed.quarantined)
        (some (.ok false)) ∧
      (∀ a ∈ Sample.refusedScan, ¬IoError a) ∧
      ¬Definitive Reference.crates Sample.task₁ Sample.completed
        Sample.refusedScan ∧
      ∀ b, ¬Scanned Reference.crates Sample.mediator
        (Sample.directoryOf Sample.completed) (oneFile Sample.task₁)
        Sample.refusedScan
        (Sample.directoryOf Sample.completed.quarantined) b := by
  have hload := loadable_directoryOf Sample.completed_stored
  have hlist : Listing (Sample.directoryOf Sample.completed)
      (oneFile Sample.task₁) := listing_oneFile
  have hio : ∀ a ∈ Sample.refusedScan, ¬IoError a := not_ioError rfl
  refine ⟨hload, hlist, Sample.exec_refusedScan, hio,
    not_definitive_refusedScan, ?_⟩
  intro b hscanned
  have hclean := hscanned.clean
    (hlist.ready hload unreadable_notMem_oneFile) hio
  refine hclean ⟨.serviceToken (authorityRequest Sample.task₁ Sample.lease),
    some ⟨403, none⟩⟩ ?_ ⟨Sample.task₁, Sample.lease, _, rfl, .inl rfl⟩
  simp only [Sample.refusedScan, refusedEvents, List.mem_cons,
    List.mem_append]
  exact .inr (.inr (.inl rfl))

end AgentGateway
