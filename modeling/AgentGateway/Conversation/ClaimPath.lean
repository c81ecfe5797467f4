import AgentGateway.Conversation.Changes

/-!
# The claim path

Every operation of a call obeys `Guarantee`.  The proofs follow the functions
of the dispatcher, each with the record that is held when it is entered.
-/

namespace AgentGateway

open Json (Value)
open Interaction
open Mediation
open Dispatcher

variable {K : Crates} {c : Dispatcher} {d : Directory} {h : List Action}
  {id lease : String} {p : Value} {r : Record}

/-- Nothing is asked of how a program ends. -/
abbrev Obeys {α : Type} (K : Crates) (c : Dispatcher) (q : Mediation α)
    (d : Directory) (h : List Action) : Prop :=
  Ensures (Guarantee K c) q (fun _ _ _ => True) d h

/-! ## Prior sources -/

/-- The ways in which reading the records of a listing fails. -/
inductive GatherError (K : Crates) (d : Directory) (entries : List DirEntry) :
    List Action → MediationError → Prop
  | unreadable {es : List Action} : .unreadable ∈ entries →
      GatherError K d entries es .state
  | io {es : List Action} {a : Action} : a ∈ es → IoError a →
      GatherError K d entries es .state
  | unloadable {es : List Action} {entry : DirEntry} : entry ∈ entries →
      Unloadable K d entry → GatherError K d entries es .validation

theorem GatherError.cons {entries : List DirEntry} {es : List Action}
    {e : MediationError} (he : GatherError K d entries es e)
    (entry : DirEntry) (fs : List Action) :
    GatherError K d (entry :: entries) (fs ++ es) e := by
  cases he with
  | unreadable hmem => exact .unreadable (List.mem_cons_of_mem _ hmem)
  | io hmem hio => exact .io (List.mem_append_right fs hmem) hio
  | unloadable hmem hentry =>
      exact .unloadable (List.mem_cons_of_mem _ hmem) hentry

/-- The listed records whose sources carry over to a packet. -/
def Contributes (d : Directory) (p : Value) (entries : List DirEntry)
    (x : String) : Prop :=
  ∃ i r, .file (some i) (some "json") ∈ entries ∧ d.record i = some r ∧
    carriesOver r p ∧ x ∈ r.sources

theorem contributes_nil {x : String} : ¬Contributes d p [] x := by
  rintro ⟨i, r, hmem, _⟩
  cases hmem

theorem contributes_cons {entry : DirEntry} {entries : List DirEntry}
    {x : String} :
    Contributes d p (entry :: entries) x ↔
      (∃ i r, entry = .file (some i) (some "json") ∧ d.record i = some r ∧
        carriesOver r p ∧ x ∈ r.sources) ∨ Contributes d p entries x := by
  constructor
  · rintro ⟨i, r, hmem, hr⟩
    rcases List.mem_cons.mp hmem with heq | hmem
    · exact .inl ⟨i, r, heq.symm, hr⟩
    · exact .inr ⟨i, r, hmem, hr⟩
  · rintro (⟨i, r, rfl, hr⟩ | ⟨i, r, hmem, hr⟩)
    · exact ⟨i, r, List.mem_cons_self, hr⟩
    · exact ⟨i, r, List.mem_cons_of_mem _ hmem, hr⟩

/-- A record that does not carry over adds nothing. -/
theorem contributes_skip {entry : DirEntry} {entries : List DirEntry}
    {x : String} (hnone : ∀ i r, entry = .file (some i) (some "json") →
      d.record i = some r → ¬carriesOver r p) :
    Contributes d p (entry :: entries) x ↔ Contributes d p entries x := by
  rw [contributes_cons]
  constructor
  · rintro (⟨i, r, heq, hr, hcarries, _⟩ | hx)
    · exact absurd hcarries (hnone i r heq hr)
    · exact hx
  · exact .inr

theorem contributes_take {i : String} {r : Record} {entries : List DirEntry}
    {x : String} (hr : d.record i = some r) (hcarries : carriesOver r p) :
    Contributes d p (.file (some i) (some "json") :: entries) x ↔
      x ∈ r.sources ∨ Contributes d p entries x := by
  rw [contributes_cons]
  apply or_congr_left
  constructor
  · rintro ⟨j, q, heq, hq, _, hx⟩
    cases heq
    rw [hr] at hq
    cases hq
    exact hx
  · exact fun hx => ⟨i, r, rfl, hr, hcarries, hx⟩

theorem gatherSources_ensures {G : Guarantees} {entries : List DirEntry}
    {sources : StringSet} {Q : Post StringSet} (hG : G.Lenient)
    (hok : ∀ es prior, .unreadable ∉ entries →
      (∀ x, x ∈ prior ↔ x ∈ sources ∨ Contributes d p entries x) →
      Q d (h ++ es) (.ok prior))
    (herr : ∀ es e, GatherError K d entries es e →
      Q d (h ++ es) (.error e)) :
    Ensures G (gatherSources K p entries sources) Q d h := by
  induction entries generalizing h sources with
  | nil =>
      show Q d h (.ok sources)
      simpa using hok [] sources (by simp) fun x => by simp [contributes_nil]
  | cons entry entries ih =>
      -- What the loop does after this entry, if it contributes nothing.
      have hskip : entry ≠ .unreadable → ∀ es,
          (∀ i r, entry = .file (some i) (some "json") →
            d.record i = some r → ¬carriesOver r p) →
          Ensures G (gatherSources K p entries sources) Q d (h ++ es) := by
        intro hreadable es hnone
        refine ih (fun fs prior hunread hprior => ?_) (fun fs e he => ?_)
        · rw [List.append_assoc]
          refine hok _ prior ?_ fun x => (hprior x).trans ?_
          · simpa using ⟨hreadable.symm, hunread⟩
          · exact or_congr_right (contributes_skip hnone).symm
        · rw [List.append_assoc]
          exact herr _ e (he.cons entry es)
      refine ensures_bind.mpr (entryId_ensures ?_ ?_ ?_ ?_)
      · intro hother hreadable
        have hnext := hskip hreadable [] fun i r heq => absurd heq (hother _)
        rwa [List.append_nil] at hnext
      · rintro id rfl
        refine ensures_bind.mpr (load_ensures hG ?_ ?_ ?_)
        · intro content r _ hcontent hread
          have hr := record_of_read hcontent hread
          by_cases hcarries : carriesOver r p
          · show Ensures G (gatherSources K p entries (if _ then _ else _)) Q
              d _
            rw [if_pos hcarries]
            refine ih (fun fs prior hunread hprior => ?_) (fun fs e he => ?_)
            · rw [List.append_assoc]
              refine hok _ prior (by simpa using hunread) fun x =>
                (hprior x).trans ?_
              rw [contributes_take hr hcarries, StringSet.mem_union, or_assoc]
            · rw [List.append_assoc]
              exact herr _ e (he.cons _ _)
          · show Ensures G (gatherSources K p entries (if _ then _ else _)) Q
              d _
            rw [if_neg hcarries]
            refine hskip (by rintro ⟨⟩) _ fun i r' heq hr' => ?_
            cases heq
            rw [hr] at hr'
            cases hr'
            exact hcarries
        · intro _ hmissing
          refine hskip (by rintro ⟨⟩) _ fun i r heq hr => ?_
          cases heq
          rw [Directory.record_eq_none_of hmissing] at hr
          cases hr
        · intro es e he
          refine herr es e ?_
          cases he with
          | path huuid => exact .unloadable List.mem_cons_self (.path huuid)
          | unreadable hcontent hread =>
              exact .unloadable List.mem_cons_self (.content hcontent hread)
          | io => exact .io (a := ⟨.read id, .failed⟩) (by simp) rfl
      · rintro rfl
        show Q d h (.error .validation)
        simpa using herr [] _ (.unloadable List.mem_cons_self .stem)
      · rintro rfl
        show Q d h (.error .state)
        simpa using herr [] _ (.unreadable List.mem_cons_self)

/-- The listing that `read_dir` returns, if it returns one. -/
theorem readDir_ensures {G : Guarantees} {Q : Post (List DirEntry)}
    (hG : G.Lenient)
    (hok : ∀ entries, Listing d entries →
      Q d (h ++ [⟨.readDir, some entries⟩]) (.ok entries))
    (herr : Q d (h ++ [⟨.readDir, none⟩]) (.error .state)) :
    Ensures G readDir Q d h := by
  refine ensures_quiet_bind trivial (fun _ _ => hG _ _ _ trivial) ?_
  intro (ans : Option (List DirEntry)) hallowed
  cases ans with
  | none => exact herr
  | some entries => exact hok entries (hallowed entries rfl)

theorem Listing.priorOf {entries : List DirEntry} (hlist : Listing d entries)
    (hreadable : .unreadable ∉ entries) {prior : StringSet}
    (hprior : ∀ x, x ∈ prior ↔
      x ∈ StringSet.empty ∨ Contributes d p entries x) :
    PriorOf d p prior := by
  intro x
  rw [hprior]
  constructor
  · rintro (hx | ⟨i, r, _, hr⟩)
    · exact absurd hx (StringSet.not_mem_empty x)
    · exact ⟨i, r, hr⟩
  · rintro ⟨i, r, hr, hx⟩
    refine .inr ⟨i, r, ?_, hr, hx⟩
    refine (hlist.complete.resolve_left hreadable) i fun hnone => ?_
    rw [Directory.record_eq_none_of hnone] at hr
    cases hr

theorem priorSources_ensures {G : Guarantees} {Q : Post StringSet}
    (hG : G.Lenient)
    (hok : ∀ es prior, PriorOf d p prior → Q d (h ++ es) (.ok prior))
    (herr : ∀ es e, (∃ a ∈ es, IoError a) ∨
        (∃ entries entry, Listing d entries ∧ entry ∈ entries ∧
          Unloadable K d entry) →
      Q d (h ++ es) (.error e)) :
    Ensures G (priorSources K p) Q d h := by
  refine ensures_bind.mpr (readDir_ensures hG ?_ ?_)
  · intro entries hlist
    refine gatherSources_ensures hG ?_ ?_
    · intro es prior hreadable hprior
      rw [List.append_assoc]
      exact hok _ prior (hlist.priorOf hreadable hprior)
    · intro es e he
      rw [List.append_assoc]
      refine herr _ e ?_
      cases he with
      | unreadable hmem =>
          exact .inl ⟨⟨.readDir, some entries⟩, by simp,
            .inr ⟨entries, rfl, hmem⟩⟩
      | @io a hmem hio => exact .inl ⟨a, by simp [hmem], hio⟩
      | @unloadable entry hmem hentry =>
          exact .inr ⟨entries, entry, hlist, hmem, hentry⟩
  · exact herr _ _ (.inl ⟨⟨.readDir, none⟩, by simp, .inl rfl⟩)

/-! ## Admission -/

theorem clockReadings_ensures {G : Guarantees} {Q : Post (ℤ × ℤ × ℤ)}
    (hG : G.Lenient) (hQ : ∀ es now, Q d (h ++ es) (.ok now)) :
    Ensures G clockReadings Q d h := by
  refine ensures_quiet_bind trivial (fun _ _ => hG _ _ _ trivial) ?_
  intro (t₁ : ℤ) _
  refine ensures_quiet_bind trivial (fun _ _ => hG _ _ _ trivial) ?_
  intro (t₂ : ℤ) _
  refine ensures_quiet_bind trivial (fun _ _ => hG _ _ _ trivial) ?_
  intro (t₃ : ℤ) _
  show Q d (h ++ _ ++ _ ++ _) (.ok (t₁, t₂, t₃))
  rw [List.append_assoc, List.append_assoc]
  exact hQ _ _

/-- What a claim that passes validation has shown. -/
structure AdmittedClaim (K : Crates) (c : Dispatcher) (d : Directory)
    (claim p : Value) (lease id : String) (prior : StringSet) : Prop where
  packet : claim["packet"] = p
  lease : claim["leaseToken"] = .str lease
  task : p["taskId"] = .str id
  sources : PriorOf d p prior
  valid : PacketValid K c p prior

theorem admitClaim_admitted {G : Guarantees} {claim : Value} (hG : G.Lenient) :
    Ensures G (admitClaim K c claim) (fun d' _ res => d' = d ∧
      ∀ p lease id prior, res = .ok (p, lease, id, prior) →
        AdmittedClaim K c d claim p lease id prior) d h := by
  refine ensures_checked_bind (fun _ _ => ?_) (fun _ => ⟨rfl, by simp⟩)
  refine ensures_checked_bind (fun lease hlease => ?_)
    (fun _ => ⟨rfl, by simp⟩)
  refine ensures_checked_bind (fun id hid => ?_) (fun _ => ⟨rfl, by simp⟩)
  refine ensures_bind.mpr (priorSources_ensures hG ?_
    fun _ _ _ => ⟨rfl, by simp⟩)
  intro es prior hprior
  refine ensures_bind.mpr (clockReadings_ensures hG fun fs now => ?_)
  refine ensures_checked_bind (fun _ hvalid => ?_) (fun _ => ⟨rfl, by simp⟩)
  refine ensures_checked_bind (fun _ _ => ?_) (fun _ => ⟨rfl, by simp⟩)
  refine ⟨rfl, ?_⟩
  rintro p' lease' id' prior' ⟨⟩
  exact ⟨rfl, Value.asStr?_eq_some.mp hlease, Value.asStr?_eq_some.mp hid,
    hprior, now, hvalid⟩

theorem admitClaim_ensures {G : Guarantees} {claim : Value}
    {Q : Post (Value × String × String × StringSet)} (hG : G.Lenient)
    (hok : ∀ es p lease id prior, AdmittedClaim K c d claim p lease id prior →
      Undecided es → Q d (h ++ es) (.ok (p, lease, id, prior)))
    (herr : ∀ es e, Q d (h ++ es) (.error e)) :
    Ensures G (admitClaim K c claim) Q d h := by
  refine ((admitClaim_admitted hG).and_within
    (undeciding_admitClaim claim)).mono ?_
  rintro d' h' res ⟨⟨rfl, hadmitted⟩, es, rfl, hes⟩
  cases res with
  | error e => exact herr es e
  | ok v =>
      obtain ⟨p, lease, id, prior⟩ := v
      exact hok es p lease id prior (hadmitted _ _ _ _ rfl) hes

theorem claimRecord_held {G : Guarantees} {prior : StringSet}
    (hG : G.Lenient) (hprior : PriorOf d p prior)
    (hvalid : PacketValid K c p prior) :
    Ensures G (claimRecord K id p lease prior) (fun d' _ res => d' = d ∧
      ∀ r, res = .ok r → K.uuidParses id = true ∧ Held K c d id p lease r)
      d h := by
  refine ensures_bind.mpr (load_ensures hG ?_ ?_ fun _ _ _ => ⟨rfl, by simp⟩)
  · intro content r huuid hcontent hread
    refine ensures_checked_bind (fun _ hguard => ?_) (fun _ => ⟨rfl, by simp⟩)
    refine ⟨rfl, ?_⟩
    rintro r' ⟨⟩
    exact ⟨huuid, .stored (record_of_read hcontent hread)
      (by simpa [guard] using hguard)⟩
  · intro huuid hmissing
    refine ⟨rfl, ?_⟩
    rintro r' ⟨⟩
    exact ⟨huuid, .fresh hmissing hprior hvalid⟩

theorem claimRecord_ensures {G : Guarantees} {prior : StringSet}
    {Q : Post Record} (hG : G.Lenient) (hprior : PriorOf d p prior)
    (hvalid : PacketValid K c p prior)
    (hok : ∀ es r, K.uuidParses id = true → Held K c d id p lease r →
      Undecided es → Q d (h ++ es) (.ok r))
    (herr : ∀ es e, Q d (h ++ es) (.error e)) :
    Ensures G (claimRecord K id p lease prior) Q d h := by
  refine ((claimRecord_held hG hprior hvalid).and_within
    (undeciding_claimRecord id p lease prior)).mono ?_
  rintro d' h' res ⟨⟨rfl, hheld⟩, es, rfl, hes⟩
  cases res with
  | error e => exact herr es e
  | ok r => exact hok es r (hheld r rfl).1 (hheld r rfl).2 hes

/-! ## Saves and updates of a claimed task -/

theorem guarantee_save {r' : Record} (hclaim : Claimed K c h id p lease)
    (hheld : Held K c d id p lease r)
    (hchange : Change K c h id p lease r r') (ans : FileWrite) :
    Guarantee K c d h ⟨.save id r', ans⟩ :=
  ⟨hclaim.uuid, .claim hclaim hheld hchange⟩

theorem guarantee_post {u : Value}
    (hpost : PostGuarantee K c d h id lease u) (reply : Reply) :
    Guarantee K c d h ⟨.roomRequest (updateRequest id lease u), reply⟩ :=
  fun _ => ⟨id, lease, u, rfl, hpost⟩

theorem guarantee_recovers : (Guarantee K c).Recovers K c where
  lenient := guarantee_lenient
  save _ huuid hr hpending hsettles hby :=
    ⟨huuid, .recovery hr hpending hsettles hby⟩
  post reply hr hpending hreplay hlately :=
    guarantee_post (.replay hr hpending rfl hreplay hlately) reply

/-- A save of a changed record, after which the record is held. -/
theorem save_change (r' : Record) {Q : Post Unit}
    (hclaim : Claimed K c h id p lease) (hheld : Held K c d id p lease r)
    (hchange : Change K c h id p lease r r')
    (hbinding : r'.binding = r.binding) (hlease : r'.lease = r.lease)
    (hok : Held K c (d.write id r'.toVec) id p lease r' →
      (d.write id r'.toVec).record id = some r' →
      Q (d.write id r'.toVec) (h ++ [saved id r']) (.ok ()))
    (hio : ∀ d' h', Q d' h' (.error .state)) :
    Ensures (Guarantee K c) (save K id r') Q d h := by
  have hp := hclaim.answered.safe
  have hsafe := hchange.safe (hheld.safe hp) hp
  refine save_ensures hclaim.uuid (guarantee_save hclaim hheld hchange) ?_
    fun _ => hio _ _
  refine hok (.of_write hsafe ?_ ?_) (Directory.record_write_self hsafe d id)
  · rw [hbinding, hheld.binding_eq]
  · rw [hlease, hheld.lease_eq]

theorem unsent_singleton {a : Action} (ha : a.op.Unsent) : Unsent [a] := by
  intro b hb
  rw [List.mem_singleton] at hb
  rwa [hb]

theorem quiet_singleton {a : Action} (ha : a.op.Quiet) :
    ∀ b ∈ [a], b.op.Quiet := by
  intro b hb
  rw [List.mem_singleton] at hb
  rwa [hb]

theorem failWithCode_obeys {code : String}
    (hclaim : Claimed K c h id p lease) (hheld : Held K c d id p lease r)
    (hcause : Fails h id p r code) (hunsaved : Unsaved "completed" h) :
    Obeys K c (failWithCode K id p lease r code) d h := by
  refine ensures_checked_bind (fun known hknown => ?_) (fun _ => trivial)
  obtain ⟨hcode, hmem⟩ := safeFailureCode_eq_some hknown
  rw [hcode]
  refine ensures_bind.mpr (ensures_quiet_bind (o := .newUuid) trivial
    (fun _ _ => guarantee_lenient _ _ _ trivial) ?_)
  intro (updateId : String) _
  have hdrawn : Op.Unsent (⟨.newUuid, updateId⟩ : Action).op := trivial
  have hclaim := hclaim.append [⟨.newUuid, updateId⟩]
  have hcause := hcause.append (unsent_singleton hdrawn)
  have hunsaved : Unsaved "completed" (h ++ [⟨.newUuid, updateId⟩]) :=
    hunsaved.append (unsaved_of_quiet (quiet_singleton trivial))
  have hfail : Change K c (h ++ [⟨.newUuid, updateId⟩]) id p lease r
      (r.failed (updateValue p "failed" (failureData code) updateId)) :=
    .fail hmem List.mem_concat_self hcause hunsaved
  refine ensures_bind.mpr (save_change _ hclaim hheld hfail rfl rfl ?_
    fun _ _ => trivial)
  intro _ hrecord
  refine ensures_checked_bind (fun _ _ => ?_) (fun _ => trivial)
  refine ensures_bind.mpr (broker_ensures guarantee_lenient ?_
    (fun _ _ _ _ _ => trivial) fun _ _ _ => trivial)
  intro t reply
  have hsaved : Op.Unsent (saved id (r.failed (updateValue p "failed"
      (failureData code) updateId))).op := trivial
  have htoken : Op.Unsent (⟨.serviceToken (taskRequest id "updates"
      (some lease) (some (updateValue p "failed" (failureData code)
        updateId))), t⟩ : Action).op := trivial
  have hcause := (hcause.append (unsent_singleton hsaved)).append
    (unsent_singleton htoken)
  refine guarantee_post (.failed ((hclaim.append _).append _) hmem (by simp)
    hrecord hheld.binding_eq hheld.lease_eq
    (List.mem_append_left _ List.mem_concat_self) hcause ?_) reply
  exact (hunsaved.append (unsaved_saved (by simp [Record.failed]))).append
    (unsaved_of_quiet (quiet_singleton trivial))

theorem authorityOrCancel_ensures {Q : Post Unit}
    (hok : ∀ es, AuthorityShown K p lease es → Q d (h ++ es) (.ok ()))
    (herr : ∀ h' e, Q d h' (.error e)) :
    Ensures (Guarantee K c) (authorityOrCancel K id p lease) Q d h := by
  refine ensures_bind.mpr (ensures_attempt.mpr
    (authority_ensures guarantee_lenient hok fun es e _ => ?_))
  exact ensures_bind.mpr (Worker.cancel_ensures guarantee_lenient
    fun fs _ => herr _ e)

/-- The update of a completed record. -/
theorem completedUpdate_ensures {x : Value} {Q : Post Value}
    (hx : r.result = some x)
    (hok : ∀ es u, (∀ a ∈ es, ¬a.op.ContactsWorker) →
      (∀ a ∈ es, a.op.Quiet) →
      (r.update = some u ∨ (r.update = none ∧
        ∃ updateId, u = updateValue p "completed" x updateId)) →
      Q d (h ++ es) (.ok u)) :
    Ensures (Guarantee K c) (completedUpdate p r) Q d h := by
  unfold completedUpdate
  cases hu : r.update with
  | some u =>
      show Q d h (.ok u)
      simpa using hok [] u (by simp) (by simp) (.inl hu)
  | none =>
      refine ensures_checked_bind (fun y hy => ?_) (fun hnone => ?_)
      · rw [hx] at hy
        cases hy
        refine ensures_quiet_bind (o := .newUuid) trivial
          (fun _ _ => guarantee_lenient _ _ _ trivial) ?_
        intro (updateId : String) _
        refine hok _ _ (fun a ha => ?_)
          (quiet_singleton trivial) (.inr ⟨hu, updateId, rfl⟩)
        rw [List.mem_singleton] at ha
        subst ha
        rintro ⟨⟩
      · rw [hx] at hnone
        cases hnone

theorem not_contactsWorker_of_singleton {a b : Action}
    (ha : ¬a.op.ContactsWorker) (hb : b ∈ [a]) : ¬b.op.ContactsWorker := by
  rw [List.mem_singleton] at hb
  rwa [hb]

/-- A result that fits the record is published under a fresh authority check,
after the record with its update became durable. -/
theorem complete_obeys {x y : Value} (hclaim : Claimed K c h id p lease)
    (hheld : Held K c d id p lease r)
    (hcompletes : Completes K c h id p r x y)
    (hunsaved : Unsaved "interrupted" h) :
    Obeys K c (complete K id p lease
      { r with result := some x, runtimeBinding := some y }) d h := by
  refine ensures_bind.mpr (authorityOrCancel_ensures (fun es hshown => ?_)
    fun _ _ => trivial)
  refine ensures_bind.mpr (completedUpdate_ensures rfl
    fun fs u hfs hquiet hu => ?_)
  have hclaim := (hclaim.append es).append fs
  have hlately := (hshown.lately h).append hfs
  have hunsaved : Unsaved "interrupted" (h ++ es ++ fs) :=
    (hunsaved.append (unsaved_of_quiet fun a ha =>
      (hshown.room a ha).harmless.quiet)).append (unsaved_of_quiet hquiet)
  have hcompletes : Completes K c (h ++ es ++ fs) id p r x y :=
    ⟨hcompletes.agrees, (hcompletes.reported.append es).append fs,
      hcompletes.runtime, hcompletes.valid⟩
  refine ensures_bind.mpr (save_change (r.completed x y u) hclaim hheld
    (.complete hcompletes hlately hunsaved hu) rfl rfl ?_ fun _ _ => trivial)
  intro hheld' hrecord
  refine ensures_checked_bind (fun _ hschema => ?_) (fun _ => trivial)
  have hsaved : ∀ a ∈ [saved id (r.completed x y u)],
      ¬a.op.ContactsWorker := by
    intro a ha
    exact not_contactsWorker_of_singleton (a := saved id (r.completed x y u))
      (by rintro ⟨⟩) ha
  refine ensures_bind.mpr (broker_ensures guarantee_lenient ?_ ?_
    fun _ _ _ => trivial)
  · intro t reply
    have htoken : ∀ a ∈ [(⟨.serviceToken (taskRequest id "updates"
        (some lease) (some u)), t⟩ : Action)], ¬a.op.ContactsWorker := by
      intro a ha
      exact not_contactsWorker_of_singleton (by rintro ⟨⟩) ha
    have hlately' := (hlately.append hsaved).append htoken
    have hclaim' := (hclaim.append [saved id (r.completed x y u)]).append
      [⟨.serviceToken (taskRequest id "updates" (some lease) (some u)), t⟩]
    exact guarantee_post (.publish hclaim' hrecord hheld.lease_eq
      hheld.binding_eq (by simp)
      ((hcompletes.reported.append _).append _) hcompletes.valid hschema
      hlately') reply
  · intro gs reply a _ ha
    refine ensures_map (acceptAck_ensures guarantee_lenient hclaim.uuid ?_
      (fun _ _ _ _ _ => trivial) fun _ _ _ _ => trivial)
    intro hack ks ans hanswered
    exact guarantee_save (((hclaim.append _).append _).append _) hheld'
      (.settle (.acknowledged (safe_of_roomResponse ha) hack)
        (.acknowledged hanswered)) ans

/-! ## Submission -/

theorem not_sends_of_unsent {a : Action} (ha : a.op.Unsent) :
    ¬Sends a := by
  rintro ⟨req, hop, hsend⟩
  rw [hop] at ha
  exact ha hsend

/-- A record whose submission is intended and recorded. -/
structure Intended (K : Crates) (c : Dispatcher) (d : Directory)
    (id : String) (p : Value) (lease : String) (r : Record) : Prop where
  held : Held K c d id p lease r
  record : d.record id = some r
  phase : r.phase = "submission-intent"
  result : r.result = none

theorem interrupt_obeys {Q : Post Unit} (hclaim : Claimed K c h id p lease)
    (hintended : Intended K c d id p lease r)
    (hok : ∀ d', Claimed K c (h ++ [saved id r.interrupted]) id p lease →
      Held K c d' id p lease r.interrupted →
        Q d' (h ++ [saved id r.interrupted]) (.ok ()))
    (hio : ∀ d' h', Q d' h' (.error .state)) :
    Ensures (Guarantee K c) (save K id r.interrupted) Q d h :=
  save_change _ hclaim hintended.held
    (.interrupt hintended.phase hintended.result) rfl rfl
    (fun hheld _ => hok _ (hclaim.append _) hheld) hio

theorem ticks_ensures {n : ℕ} {Q : Post Unit}
    (hclaim : Claimed K c h id p lease)
    (hintended : Intended K c d id p lease r)
    (hok : ∀ es, (∀ a ∈ es, a.op.Room) → Q d (h ++ es) (.ok ()))
    (herr : ∀ d' h' e, Q d' h' (.error e)) :
    Ensures (Guarantee K c) (ticks K id p lease r n) Q d h := by
  induction n generalizing h with
  | zero =>
      show Q d h (.ok ())
      simpa using hok [] (by simp)
  | succ n ih =>
      refine ensures_bind.mpr (ensures_attempt.mpr
        (authority_ensures guarantee_lenient (fun es hshown => ?_)
          fun es e _ => ?_))
      · refine ih (hclaim.append es) fun fs hfs => ?_
        rw [List.append_assoc]
        refine hok _ fun a ha => ?_
        rcases List.mem_append.mp ha with ha | ha
        · exact hshown.room a ha
        · exact hfs a ha
      · refine ensures_bind.mpr (Worker.cancel_ensures guarantee_lenient
          fun fs _ => ?_)
        exact ensures_bind.mpr (interrupt_obeys
          ((hclaim.append es).append fs) hintended
          (fun _ _ _ => herr _ _ e) fun _ _ => herr _ _ _)

/-- The events of a submission after its record was reserved: nothing has been
sent yet. -/
theorem sendMessage_ensures {r₁ : Record} {h₁ h₂ : List Action}
    {Q : Post (Except MediationError Value)}
    (hclaim : Claimed K c h id p lease)
    (hintended : Intended K c d id p lease r)
    (hreserved : h = h₁ ++ saved id r₁ :: h₂) (hphase : r₁.phase = "reserved")
    (hunsent : Unsent h)
    (hok : ∀ es res, (∀ a ∈ es, a.op.Quiet) →
      (∀ code, res = .error (.workerRejected code) →
        Rejected (h ++ es) id p code) → Q d (h ++ es) (.ok res))
    (herr : ∀ d' h' e, Q d' h' (.error e)) :
    Ensures (Guarantee K c) (sendMessage K id p lease r) Q d h := by
  refine ensures_quiet_bind (o := .interval) trivial
    (fun _ _ => guarantee_lenient _ _ _ trivial) ?_
  rintro ((⟨before, during⟩ : ℕ × ℕ)) _
  have hclaim := hclaim.append [⟨.interval, (before, during)⟩]
  refine ensures_bind.mpr (ticks_ensures hclaim hintended ?_ herr)
  intro es hes
  refine ensures_quiet_bind (o := .newUuid) trivial
    (fun _ _ => guarantee_lenient _ _ _ trivial) ?_
  intro (rpcId : String) _
  have hclaim := (hclaim.append es).append [⟨.newUuid, rpcId⟩]
  refine ensures_quiet_bind trivial (fun _ _ _ => ?_) ?_
  · have hsplit : h ++ [⟨.interval, (before, during)⟩] ++ es ++
        [⟨.newUuid, rpcId⟩] = h₁ ++ saved id r₁ ::
          (h₂ ++ ([⟨.interval, (before, during)⟩] ++ es ++
            [⟨.newUuid, rpcId⟩])) := by simp [hreserved]
    refine .intro hclaim hintended.record hintended.phase
      hintended.result hintended.held.binding_eq hsplit hphase ?_
    intro a ha
    simp only [List.mem_append, List.mem_singleton] at ha
    rcases ha with ha | (rfl | ha) | rfl
    · exact not_sends_of_unsent (hunsent a (by simp [hreserved, ha]))
    · exact not_sends_of_unsent trivial
    · exact not_sends_of_unsent (hes a ha).harmless.unsent
    · exact not_sends_of_unsent trivial
  · rintro ⟨⟩ _
    refine ensures_bind.mpr (ticks_ensures (hclaim.append _) hintended ?_ herr)
    intro fs hfs
    refine ensures_attempt.mpr (Worker.rpcReceive_ensures rfl
      guarantee_lenient fun reply => ?_)
    have hok := hok ([⟨.interval, (before, during)⟩] ++ es ++
      [⟨.newUuid, rpcId⟩] ++ [⟨.workerSend (Worker.rpcRequest rpcId
        "SendMessage" (sendParams id p)), ()⟩] ++ fs ++
      [⟨.workerReceive (Worker.rpcRequest rpcId "SendMessage"
        (sendParams id p)), reply⟩]) (Worker.rpcAnswer rpcId reply)
    simp only [← List.append_assoc] at hok
    refine hok ?_ fun code hcode => ?_
    · intro a ha
      simp only [List.mem_append, List.mem_singleton] at ha
      rcases ha with ((((rfl | ha) | rfl) | rfl) | ha) | rfl
      · trivial
      · exact (hes a ha).harmless.quiet
      · trivial
      · trivial
      · exact (hfs a ha).harmless.quiet
      · trivial
    · obtain ⟨v, error, hv, hid, herror, hmessage⟩ :=
        Worker.rpcAnswer_rejected hcode
      refine ⟨h ++ [⟨.interval, (before, during)⟩] ++ es ++
        [⟨.newUuid, rpcId⟩], rpcId, fs ++ [⟨.workerReceive
          (Worker.rpcRequest rpcId "SendMessage" (sendParams id p)), reply⟩],
        reply, v, error, by simp, ?_, ?_, by simp, hv, hid, herror, hmessage⟩
      · refine ((hunsent.append ?_).append ?_).append ?_
        · exact unsent_singleton trivial
        · exact unsent_of_harmless fun a ha => (hes a ha).harmless
        · exact unsent_singleton trivial
      · refine Unsent.append ?_ (unsent_singleton trivial)
        exact unsent_of_harmless fun a ha => (hfs a ha).harmless

theorem harmless_of_receipt (id : String) (reply : Reply) :
    ∀ a ∈ ([⟨.workerSend (Worker.receiptRequest id), ()⟩,
      ⟨.workerReceive (Worker.receiptRequest id), reply⟩] : List Action),
      a.op.Harmless := by
  have hsend : ¬(Worker.receiptRequest id).IsSend :=
    Worker.not_isSend_of_path (by rintro ⟨⟩)
  intro a ha
  simp only [List.mem_cons, List.not_mem_nil, or_false] at ha
  rcases ha with rfl | rfl
  · exact hsend
  · trivial

/-- A rejection counts once the receipt of the turn confirms its code. -/
theorem rejectionConfirmed_ensures {e : MediationError}
    {Q : Post (Option String)}
    (hnone : ∀ es, (∀ a ∈ es, a.op.Harmless) → Q d (h ++ es) (.ok none))
    (hcode : ∀ es code, (∀ a ∈ es, a.op.Harmless) →
      e = .workerRejected code → FailureReported (h ++ es) id p code →
        Q d (h ++ es) (.ok (some code))) :
    Ensures (Guarantee K c) (rejectionConfirmed id p e) Q d h := by
  cases e with
  | workerRejected code =>
      refine ensures_bind.mpr (ensures_attempt.mpr
        (Worker.receipt_ensures guarantee_lenient fun reply => ?_))
      have hharmless := harmless_of_receipt id reply
      cases hreply : workerResponse (.receipt id) reply with
      | error e => exact hnone _ hharmless
      | ok v =>
          cases v with
          | none => exact hnone _ hharmless
          | some v =>
              show Q d _ (.ok (if receiptFailure v p = some code then some code
                else none))
              split_ifs with hfailure
              · exact hcode _ _ hharmless rfl
                  ⟨reply, v, by simp, hreply, hfailure⟩
              · exact hnone _ hharmless
  | _ =>
      show Q d h (.ok none)
      simpa using hnone [] (by simp)

theorem sendFailed_obeys {e : MediationError}
    (hclaim : Claimed K c h id p lease)
    (hintended : Intended K c d id p lease r)
    (hunsaved : Unsaved "completed" h)
    (hrejected : ∀ code, e = .workerRejected code → Rejected h id p code) :
    Obeys K c (sendFailed K id p lease r e) d h := by
  refine ensures_bind.mpr
    (rejectionConfirmed_ensures (fun es hes => ?_) fun es code hes he hf => ?_)
  · have hunsaved := hunsaved.append
      (unsaved_of_quiet fun a ha => (hes a ha).quiet)
    refine ensures_bind.mpr (Worker.cancel_ensures guarantee_lenient
      fun fs hfs => ?_)
    refine ensures_bind.mpr (interrupt_obeys ((hclaim.append es).append fs)
      hintended ?_ fun _ _ => trivial)
    intro d' hclaim' hheld
    refine ensures_bind.mpr (ensures_attempt.mpr
      (failWithCode_obeys hclaim' hheld ?_ ?_))
    · exact .rejection hintended.result (.inr rfl)
        fun hcode => absurd rfl hcode
    · exact (hunsaved.append (unsaved_of_worker hfs)).append
        (unsaved_saved (by simp [Record.interrupted]))
  · refine failWithCode_obeys (hclaim.append es) hintended.held ?_
      (hunsaved.append (unsaved_of_quiet fun a ha => (hes a ha).quiet))
    exact .rejection hintended.result (.inl hintended.phase)
      fun _ => ⟨hf, (hrejected code he).append (unsent_of_harmless hes)⟩

/-- What a receipt read says about a completed turn. -/
theorem workerReported_of_receipt {reply : Reply} {v : Value}
    (hmem : (⟨.workerReceive (Worker.receiptRequest id), reply⟩ : Action) ∈ h)
    (hv : workerResponse (.receipt id) reply = .ok (some v))
    (hreceipt : validateReceipt v p = some ())
    (hphase : v["phase"] = .str "completed") :
    WorkerReported h id p v["result"] v["runtimeBinding"] :=
  ⟨reply, v, hmem, hv, hreceipt, hphase, rfl, rfl⟩

theorem acceptReply_eq_some {data receipt : Value} {r' : Record}
    (hr : acceptReply K c r p data receipt = some r') :
    validateReceipt receipt p = some () ∧
      validateRuntime data["runtimeBinding"] = some () ∧
      receipt["phase"] = .str "completed" ∧
      receipt["runtimeBinding"] = data["runtimeBinding"] ∧
      receipt["result"] = data["reply"] ∧
      validateResultWithAdmission K data["reply"] p r.sources c.admission =
        some () ∧
      r' = { r with
        result := some data["reply"]
        runtimeBinding := some data["runtimeBinding"] } := by
  obtain ⟨⟨⟩, hreceipt, hr⟩ := Option.bind_eq_some_iff.mp hr
  obtain ⟨⟨⟩, hruntime, hr⟩ := Option.bind_eq_some_iff.mp hr
  obtain ⟨⟨⟩, hphase, hr⟩ := Option.bind_eq_some_iff.mp hr
  obtain ⟨⟨⟩, hbinding, hr⟩ := Option.bind_eq_some_iff.mp hr
  obtain ⟨⟨⟩, hreply, hr⟩ := Option.bind_eq_some_iff.mp hr
  obtain ⟨⟨⟩, hvalid, hr⟩ := Option.bind_eq_some_iff.mp hr
  exact ⟨hreceipt, hruntime, guard_eq_some.mp hphase,
    guard_eq_some.mp hbinding, guard_eq_some.mp hreply, hvalid,
    (Option.some.inj hr).symm⟩

theorem submit_obeys (hclaim : Claimed K c h id p lease)
    (hheld : Held K c d id p lease r) (hphase : r.phase = "reserved")
    (hresult : r.result = none) (hundecided : Undecided h) :
    Obeys K c (submit K c id p lease r) d h := by
  refine ensures_bind.mpr (Worker.ensures_of_within Worker.within_admitCodex
    guarantee_lenient fun es res hes _ => ?_)
  cases res with
  | error e => trivial
  | ok _ =>
  refine ensures_bind.mpr (Worker.ensures_of_within
    (Worker.within_catalog K c.admission) guarantee_lenient
    fun fs res hfs _ => ?_)
  cases res with
  | error e => trivial
  | ok catalog =>
  refine ensures_checked_bind (fun _ _ => ?_) (fun _ => trivial)
  have hclaim := (hclaim.append es).append fs
  refine ensures_bind.mpr (save_change _ hclaim hheld (.reserve hphase hresult)
    rfl rfl (fun hheld hrecord => ?_) fun _ _ => trivial)
  have hclaim := hclaim.append [saved id r]
  refine ensures_bind.mpr (save_change { r with
    phase := "submission-intent" } hclaim hheld (.intend hphase hresult)
    rfl rfl (fun hheld hrecord => ?_) fun _ _ => trivial)
  have hintended : Intended K c _ id p lease { r with
      phase := "submission-intent" } := ⟨hheld, hrecord, rfl, hresult⟩
  have hclaim := hclaim.append [saved id { r with
    phase := "submission-intent" }]
  have hundecided : Undecided (h ++ es ++ fs ++ [saved id r] ++
      [saved id { r with phase := "submission-intent" }]) := by
    refine (((hundecided.append ?_).append ?_).append ?_).append ?_
    · exact undecided_of_harmless fun a ha => (hes a ha).harmless
    · exact undecided_of_harmless fun a ha => (hfs a ha).harmless
    · exact undecided_saved (by simp [hphase]) (by simp [hphase])
    · exact undecided_saved (by simp) (by simp)
  have hreserved : h ++ es ++ fs ++ [saved id r] ++
      [saved id { r with phase := "submission-intent" }] =
      (h ++ es ++ fs) ++ saved id r ::
        [saved id { r with phase := "submission-intent" }] := by simp
  refine ensures_bind.mpr (sendMessage_ensures hclaim hintended hreserved
    hphase hundecided.unsent ?_ fun _ _ _ => trivial)
  · intro gs res hgs hrejected
    have hclaim := hclaim.append gs
    cases res with
    | error e =>
        refine sendFailed_obeys hclaim hintended
          (hundecided.unsaved_completed.append (unsaved_of_quiet hgs)) ?_
        rintro code rfl
        exact hrejected code rfl
    | ok output =>
        refine ensures_checked_bind (fun data _ => ?_) (fun _ => trivial)
        refine ensures_bind.mpr (Worker.receipt_ensures guarantee_lenient
          fun reply => ?_)
        cases hreply : workerResponse (.receipt id) reply with
        | error e => trivial
        | ok receipt =>
            refine ensures_checked_bind (fun v hv => ?_) (fun _ => trivial)
            subst hv
            refine ensures_checked_bind (fun r' hr' => ?_) (fun _ => trivial)
            obtain ⟨hreceipt, hruntime, hcompleted, hbinding, hreply', hvalid,
              rfl⟩ := acceptReply_eq_some hr'
            refine complete_obeys (hclaim.append _) hintended.held
              ⟨.inl hresult, ?_, hruntime, hvalid⟩
              ((hundecided.unsaved_interrupted.append
                (unsaved_of_quiet hgs)).append (unsaved_of_quiet
                  fun a ha => (harmless_of_receipt id reply a ha).quiet))
            rw [← hbinding, ← hreply']
            exact workerReported_of_receipt (by simp) hreply hreceipt
              hcompleted

/-! ## The whole call -/

theorem acceptReceipt_eq_some {receipt : Value} {r' : Record}
    (hr : acceptReceipt K c r p receipt = some r') :
    validateRuntime receipt["runtimeBinding"] = some () ∧
      validateResultWithAdmission K receipt["result"] p r.sources
        c.admission = some () ∧
      (∀ v ∈ r.result, v = receipt["result"]) ∧
      (∀ v ∈ r.runtimeBinding, v = receipt["runtimeBinding"]) ∧
      r' = { r with
        result := some receipt["result"]
        runtimeBinding := some receipt["runtimeBinding"] } := by
  obtain ⟨⟨⟩, hruntime, hr⟩ := Option.bind_eq_some_iff.mp hr
  obtain ⟨⟨⟩, hvalid, hr⟩ := Option.bind_eq_some_iff.mp hr
  obtain ⟨⟨⟩, hresult, hr⟩ := Option.bind_eq_some_iff.mp hr
  obtain ⟨⟨⟩, hbinding, hr⟩ := Option.bind_eq_some_iff.mp hr
  have hresult := guard_eq_some.mp hresult
  have hbinding := guard_eq_some.mp hbinding
  refine ⟨hruntime, hvalid, ?_, ?_, (Option.some.inj hr).symm⟩
  · intro v hv
    rw [Option.mem_def.mp hv] at hresult
    simpa using hresult
  · intro v hv
    rw [Option.mem_def.mp hv] at hbinding
    simpa using hbinding

theorem resume_obeys {reply : Reply} (hclaim : Claimed K c h id p lease)
    (hheld : Held K c d id p lease r)
    (hmem : (⟨.workerReceive (Worker.receiptRequest id), reply⟩ : Action) ∈ h)
    (hundecided : Undecided h) :
    Obeys K c (resume K c id p lease r (workerResponse (.receipt id) reply))
      d h := by
  cases hreply : workerResponse (.receipt id) reply with
  | error e =>
      refine ensures_bind.mpr (Worker.cancel_ensures guarantee_lenient
        fun es hes => failWithCode_obeys (hclaim.append es) hheld ?_
          (hundecided.unsaved_completed.append (unsaved_of_worker hes)))
      refine Fails.append (.receipt ⟨reply, hmem, ?_⟩ hundecided.unsent
        fun hcode => absurd rfl hcode)
        (unsent_of_harmless fun a ha => (hes a ha).harmless)
      rw [hreply]
      trivial
  | ok receipt =>
  cases receipt with
  | none =>
      show Obeys K c (if _ then _ else _) d h
      split_ifs with hstarted
      · refine ensures_bind.mpr (Worker.cancel_ensures guarantee_lenient
          fun es hes => failWithCode_obeys (hclaim.append es) hheld ?_
            (hundecided.unsaved_completed.append (unsaved_of_worker hes)))
        refine Fails.append (.receipt ⟨reply, hmem, ?_⟩ hundecided.unsent
          fun hcode => absurd rfl hcode)
          (unsent_of_harmless fun a ha => (hes a ha).harmless)
        rw [hreply]
        trivial
      · rw [not_or, not_not] at hstarted
        refine submit_obeys hclaim hheld hstarted.1 ?_ hundecided
        simpa using hstarted.2
  | some v =>
      refine ensures_checked_bind (fun _ hreceipt => ?_) (fun _ => trivial)
      split_ifs with hphase
      · refine ensures_checked_bind (fun r' hr' => ?_) (fun _ => trivial)
        obtain ⟨hruntime, hvalid, hresult, hbinding, rfl⟩ :=
          acceptReceipt_eq_some hr'
        refine complete_obeys hclaim hheld ⟨?_,
          workerReported_of_receipt hmem hreply hreceipt hphase, hruntime,
          hvalid⟩ hundecided.unsaved_interrupted
        cases hx : r.result with
        | none => exact .inl rfl
        | some x =>
            refine .inr ⟨by rw [hresult x hx], ?_⟩
            cases hy : r.runtimeBinding with
            | none => exact .inl rfl
            | some y => exact .inr (by rw [hbinding y hy])
      · refine ensures_bind.mpr (Worker.cancel_ensures guarantee_lenient
          fun es hes => failWithCode_obeys (hclaim.append es) hheld ?_
            (hundecided.unsaved_completed.append (unsaved_of_worker hes)))
        refine Fails.append (.receipt ⟨reply, hmem, ?_⟩ hundecided.unsent
          fun hcode => ⟨reply, v, hmem, hreply, ?_⟩)
          (unsent_of_harmless fun a ha => (hes a ha).harmless)
        · rw [hreply]
          exact ⟨hreceipt, hphase⟩
        · cases hfailure : receiptFailure v p with
          | none =>
              rw [hfailure] at hcode
              exact absurd rfl hcode
          | some code => rfl

theorem runClaim_obeys {reply : Reply} {claim : Value}
    (hmem : (⟨.roomRequest c.claimRequest, reply⟩ : Action) ∈ h)
    (hreply : roomResponse reply = .ok (some claim))
    (hundecided : Undecided h) :
    Obeys K c (runClaim K c claim) d h := by
  refine ensures_bind.mpr (admitClaim_ensures guarantee_lenient
    (fun es p lease id prior hadmitted hes => ?_) fun _ _ => trivial)
  refine ensures_bind.mpr (claimRecord_ensures guarantee_lenient
    hadmitted.sources hadmitted.valid (fun fs r huuid hheld hfs => ?_)
    fun _ _ => trivial)
  have hundecided := (hundecided.append hes).append hfs
  have hanswered : ClaimAnswered c h p lease :=
    ⟨reply, claim, hmem, hreply, hadmitted.packet, hadmitted.lease⟩
  have hclaim : Claimed K c (h ++ es ++ fs) id p lease :=
    ⟨hanswered.mono (by simp), hadmitted.task, ⟨prior, hadmitted.valid⟩, huuid⟩
  refine ensures_bind.mpr (reconcileBroker_ensures guarantee_lenient huuid ?_
    fun gs d' res hres => ?_)
  · intro gs r' ans hsettles hby
    exact guarantee_save (hclaim.append gs) hheld (.settle hsettles hby) ans
  · cases hres with
    | stopped _ _ => trivial
    | quarantined _ hsave => cases hsave <;> trivial
    | acknowledged _ _ _ hsave => cases hsave <;> trivial
    | unsettled hunsettled =>
        refine ensures_bind.mpr (authorityOrCancel_ensures
          (fun ks hshown => ?_) fun _ _ => trivial)
        refine ensures_bind.mpr (ensures_attempt.mpr
          (Worker.receipt_ensures guarantee_lenient fun reply => ?_))
        refine resume_obeys (((hclaim.append gs).append ks).append _) hheld
          (by simp) (((hundecided.append ?_).append ?_).append ?_)
        · exact undecided_of_harmless fun a ha =>
            (hunsettled.room a ha).harmless
        · exact undecided_of_harmless fun a ha =>
            (hshown.room a ha).harmless
        · exact undecided_of_harmless (harmless_of_receipt id reply)

theorem not_isUpdate_claim (c : Dispatcher) : ¬c.claimRequest.IsUpdate := by
  rintro ⟨id, hid⟩
  cases hid

theorem harmless_of_exchange {reply : Reply} {es : List Action}
    (hex : Exchange c.claimRequest reply es) {a : Action} (ha : a ∈ es) :
    a.op.Harmless := by
  rcases hex.op ha with hop | hop
  · rw [hop]
    trivial
  · rw [hop]
    exact not_isUpdate_claim c

/-- Every operation of a call obeys the guarantee. -/
theorem runOnce_obeys (hh : Undecided h) : Obeys K c (runOnce K c) d h := by
  refine ensures_bind.mpr (readDir_ensures guarantee_lenient
    (fun entries _ => ?_) trivial)
  have hscan : Ensures (Guarantee K c) (scan K c entries) (fun _ _ _ => True)
      d (h ++ [⟨.readDir, some entries⟩]) :=
    scan_ensures guarantee_recovers fun _ _ _ _ => trivial
  refine ensures_bind.mpr
    ((hscan.and_within (undeciding_scan entries)).mono ?_)
  rintro d' _ res ⟨_, es, rfl, hes⟩
  cases res with
  | error e => trivial
  | ok finished =>
      cases finished with
      | true => trivial
      | false =>
          have hread : Undecided [⟨.readDir, some entries⟩] :=
            undecided_of_harmless (by simp [Op.Harmless])
          have hundecided := (hh.append hread).append hes
          refine ensures_bind.mpr (conversationRequest_ensures
            guarantee_lenient (fun t reply => ?_) (fun _ _ _ => trivial) ?_)
          · exact guarantee_lenient _ _ _ (not_isUpdate_claim c)
          · intro fs reply hex
            have hundecided := hundecided.append
              (undecided_of_harmless fun a ha => harmless_of_exchange hex ha)
            cases hreply : roomResponse reply with
            | error e => trivial
            | ok claim =>
                cases claim with
                | none => trivial
                | some claim =>
                    refine runClaim_obeys ?_ hreply hundecided
                    cases hex
                    simp

end AgentGateway
