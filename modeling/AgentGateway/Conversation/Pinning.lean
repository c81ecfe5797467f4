import AgentGateway.Conversation.Citations
import AgentGateway.Conversation.Turns

/-!
# What a digest and a binding pin down

The context digest is taken over a canonical text, so packets with one digest
have one context, and the stored binding of a task, which keeps the digest,
stands for the whole packet up to its lease.  A result is judged alike by the
packet and by the binding with the stored sources.
-/

namespace AgentGateway

open Json (Value Schema)
open Json.Value (SortedKeys)
open Utf8 (Bytes)

variable {K : Crates} {a a' : Admission} {now now' : Option (ℤ × ℤ × ℤ)}
  {prior prior' : StringSet} {p q : Value}

/-! ## Ordered values -/

def OrderedNode : Value → Prop
  | .obj fs => SortedKeys fs
  | _ => True

/-- The fields of every object are in the order of a `BTreeMap`. -/
abbrev Ordered (v : Value) : Prop := v.Every OrderedNode

theorem Safe.ordered {v : Value} (h : Safe v) : Ordered v := by
  induction h with
  | null => exact .null trivial
  | bool => exact .bool trivial
  | num => exact .num trivial
  | str => exact .str trivial
  | arr _ _ ih => exact .arr trivial ih
  | obj hsorted _ ih => exact .obj hsorted ih

theorem Ordered.safe {v : Value} (h : Ordered v)
    (hv : v.Every SafeNumberNode) : Safe v := by
  induction h with
  | null => exact .null trivial
  | bool => exact .bool trivial
  | num =>
      obtain ⟨n, hn, rfl⟩ := hv.self
      exact .num hn
  | str => exact .str trivial
  | arr _ _ ih => exact .arr trivial fun x hx => ih x hx (hv.items x hx)
  | obj hsorted _ ih =>
      exact .obj hsorted fun f hf => ih f hf (hv.fields f hf)

theorem ordered_object {gs : List (String × Value)}
    (h : ∀ f ∈ gs, Ordered f.2) : Ordered (Value.object gs) := by
  obtain ⟨fs, hfs, hsorted, hmem, _⟩ := Value.exists_object gs
  rw [hfs]
  exact .obj hsorted fun f hf => h f (hmem f hf)

theorem Ordered.remove {v : Value} (h : Ordered v) (k : String) :
    Ordered (v.remove k) := by
  cases v with
  | obj fs =>
      have hsorted : SortedKeys fs := h.self
      exact .obj (hsorted.eraseField k) fun f hf =>
        h.fields f (List.mem_filter.mp hf).1
  | _ => exact h

theorem lookup_of_forall_lt {k : String} {fs : List (String × Value)}
    (h : ∀ l ∈ fs.map Prod.fst, Value.KeyLt k l) : fs.lookup k = none := by
  rw [List.lookup_eq_none_iff]
  intro f hf
  have hne := (h f.1 (List.mem_map_of_mem hf)).ne
  simpa using hne

/-- Sorted field lists with the same lookups are equal. -/
theorem eq_of_lookup {fs gs : List (String × Value)} (hfs : SortedKeys fs)
    (hgs : SortedKeys gs) (h : ∀ k, fs.lookup k = gs.lookup k) : fs = gs := by
  induction fs generalizing gs with
  | nil =>
      cases gs with
      | nil => rfl
      | cons g gs =>
          have hlookup := h g.1
          rw [Value.lookup_cons, if_pos rfl] at hlookup
          cases hlookup
  | cons f fs ih =>
      obtain ⟨k, x⟩ := f
      cases gs with
      | nil =>
          have hlookup := h k
          rw [Value.lookup_cons, if_pos rfl] at hlookup
          cases hlookup
      | cons g gs =>
          obtain ⟨l, y⟩ := g
          obtain ⟨hk, hfs'⟩ := List.pairwise_cons.mp hfs
          obtain ⟨hl, hgs'⟩ := List.pairwise_cons.mp hgs
          have hmem : ∀ {m : String} {z : Value} {ks : List (String × Value)},
              ks.lookup m = some z → m ∈ ks.map Prod.fst := by
            intro m z ks hm
            obtain ⟨l₁, l₂, rfl, _⟩ := List.lookup_eq_some_iff.mp hm
            simp
          have hkl : k = l := by
            by_contra hne
            have hleft := h k
            have hright := h l
            rw [Value.lookup_cons, if_pos rfl, Value.lookup_cons,
              if_neg hne] at hleft
            rw [Value.lookup_cons, if_neg (Ne.symm hne), Value.lookup_cons,
              if_pos rfl] at hright
            exact (hl k (hmem hleft.symm)).asymm (hk l (hmem hright))
          subst hkl
          have hxy := h k
          rw [Value.lookup_cons, if_pos rfl, Value.lookup_cons, if_pos rfl]
            at hxy
          cases hxy
          refine congrArg _ (ih hfs' hgs' fun m => ?_)
          by_cases hm : m = k
          · subst hm
            rw [lookup_of_forall_lt hk, lookup_of_forall_lt hl]
          · have hlookup := h m
            rwa [Value.lookup_cons, if_neg hm, Value.lookup_cons, if_neg hm]
              at hlookup

/-! ## The text under a digest -/

theorem ordered_digested (hp : Ordered p) : Ordered (digested p) := by
  have hget : ∀ v : Value, Ordered v → ∀ k : String, Ordered v[k] := by
    intro v hv k
    exact hv.getElem trivial k
  refine ordered_object fun f hf => ?_
  simp only [List.mem_cons, List.not_mem_nil, or_false] at hf
  rcases hf with rfl | rfl | rfl | rfl | rfl | rfl | rfl
  · exact hget _ hp _
  · exact hget _ hp _
  · exact hget _ (hget _ hp _) _
  · exact hget _ (hget _ hp _) _
  · exact hget _ hp _
  · exact hget _ hp _
  · exact (hget _ hp _).remove _

theorem digested_context (p : Value) :
    (digested p)["context"] = p["context"].remove "digest" := by
  rw [digested, Value.getElem_object]
  rfl

/-- Packets with one digest agree in everything that the digest is taken
over. -/
theorem digested_eq (hp : Ordered p) (hq : Ordered q)
    (hsha : Distinguishes K p q) (hcheck : DigestChecked K p)
    (hcheck' : DigestChecked K q)
    (h : p["context"]["digest"] = q["context"]["digest"]) :
    digested p = digested q := by
  obtain ⟨text, htext, hdigest⟩ := hcheck.digest
  obtain ⟨text', htext', hdigest'⟩ := hcheck'.digest
  rw [hdigest, hdigest'] at h
  have heq := hsha text text' htext htext' (Value.str.inj h)
  subst heq
  have hsafe : ∀ {r : Value}, Ordered r →
      canonicalBytes (digested r) = some text → Safe (digested r) := by
    intro r hr hbytes
    refine (ordered_digested hr).safe ?_
    rw [← canonicalBytes_isSome, hbytes]
    rfl
  have hbytes := htext.trans htext'.symm
  rw [canonicalBytes_of_safe (hsafe hp htext),
    canonicalBytes_of_safe (hsafe hq htext')] at hbytes
  exact toVec_injective (hsafe hp htext) (hsafe hq htext')
    (Option.some.inj hbytes)

theorem get?_remove (v : Value) (k l : String) :
    (v.remove k).get? l = if l = k then none else v.get? l := by
  cases v with
  | obj fs => exact Value.lookup_eraseField k l fs
  | _ => simp [Value.remove, Value.get?]

theorem get?_of_getElem {v x : Value} {k : String} (h : v[k] = x)
    (hx : x ≠ .null) : v.get? k = some x := by
  rw [Value.getElem_eq] at h
  cases hget : v.get? k with
  | none =>
      rw [hget] at h
      exact absurd h.symm hx
  | some y =>
      rw [hget] at h
      exact congrArg some h

theorem eq_of_get? {v w : Value} {fs gs : List (String × Value)}
    (hv : v = .obj fs) (hw : w = .obj gs) (hfs : Ordered v) (hgs : Ordered w)
    (h : ∀ k, v.get? k = w.get? k) : v = w := by
  subst hv hw
  exact congrArg _ (eq_of_lookup hfs.self hgs.self h)

/-- The context can be read off what its digest is taken over. -/
theorem context_eq_of_digested (hp : Ordered p) (hq : Ordered q)
    (hcheck : DigestChecked K p) (hcheck' : DigestChecked K q)
    (hdigest : p["context"]["digest"] = q["context"]["digest"])
    (h : digested p = digested q) : p["context"] = q["context"] := by
  obtain ⟨fs, hcontext⟩ := hcheck.context
  obtain ⟨gs, hcontext'⟩ := hcheck'.context
  obtain ⟨text, _, htext⟩ := hcheck.digest
  have hremove : p["context"].remove "digest" =
      q["context"].remove "digest" := by
    rw [← digested_context, h, digested_context]
  refine eq_of_get? hcontext hcontext' (hp.getElem trivial _)
    (hq.getElem trivial _) fun k => ?_
  by_cases hk : k = "digest"
  · subst hk
    rw [get?_of_getElem htext (by simp),
      get?_of_getElem (hdigest.symm.trans htext) (by simp)]
  · have hget := congrArg (fun v => v.get? k) hremove
    simpa only [get?_remove, if_neg hk] using hget

/-! ## Bindings -/

/-- The context as a binding keeps it. -/
def strippedContext (p : Value) : Value :=
  ((p["context"].remove "entries").remove "activeDecisions").remove
    "nativeReplyBindings"

theorem binding_get? {fs : List (String × Value)} (hp : p = .obj fs)
    (k : String) :
    (binding p).get? k = if k = "leaseExpiresAt" then none
      else if k = "leaseOwner" then none
      else if k = "context" then some (strippedContext p)
      else p.get? k := by
  subst hp
  rw [binding, get?_remove, get?_remove, Value.set, Value.get?_obj,
    Value.lookup_insertField]
  rfl

theorem ordered_binding {fs : List (String × Value)} (hp : p = .obj fs)
    (hordered : Ordered p) :
    ∃ gs, binding p = .obj gs ∧ Ordered (binding p) := by
  subst hp
  have hsorted : SortedKeys fs := hordered.self
  have hfield : Ordered (Value.obj fs)["context"] := hordered.getElem trivial _
  have hcontext : Ordered (strippedContext (.obj fs)) :=
    ((hfield.remove _).remove _).remove _
  have hset : Ordered ((Value.obj fs).set "context"
      (strippedContext (.obj fs))) := by
    refine .obj (hsorted.insertField _ _) fun f hf => ?_
    rcases Value.mem_insertField hf with rfl | hf
    · exact hcontext
    · exact hordered.fields f hf
  exact ⟨_, rfl, (hset.remove _).remove _⟩

/-- Agreement on every field but the lease. -/
def AgreesUpToLease (p q : Value) : Prop :=
  ∀ k, k ≠ "leaseOwner" → k ≠ "leaseExpiresAt" → p.get? k = q.get? k

theorem binding_digest (p : Value) :
    (binding p)["context"]["digest"] = p["context"]["digest"] :=
  binding_context (by decide) (by decide) (by decide) p

theorem binding_eq_of_agrees {fs gs : List (String × Value)}
    (hp : p = .obj fs) (hq : q = .obj gs) (hordered : Ordered p)
    (hordered' : Ordered q) (h : AgreesUpToLease p q) :
    binding p = binding q := by
  obtain ⟨_, hobj, hsorted⟩ := ordered_binding hp hordered
  obtain ⟨_, hobj', hsorted'⟩ := ordered_binding hq hordered'
  have hcontext : strippedContext p = strippedContext q := by
    rw [strippedContext, strippedContext, Value.getElem_eq, Value.getElem_eq,
      h "context" (by decide) (by decide)]
  refine eq_of_get? hobj hobj' hsorted hsorted' fun k => ?_
  rw [binding_get? hp, binding_get? hq, hcontext]
  by_cases hexpires : k = "leaseExpiresAt"
  · rw [if_pos hexpires, if_pos hexpires]
  by_cases howner : k = "leaseOwner"
  · rw [if_neg hexpires, if_pos howner, if_neg hexpires, if_pos howner]
  rw [h k howner hexpires]

theorem object_of_valid
    (h : validatePacketWithSources K p a now prior = some ()) :
    ∃ fs, p = .obj fs := by
  have hschema := valid_of_schema (checked_of_validate h).schema
  obtain ⟨fs, hfs, _⟩ := Schema.exists_fields_of_valid hschema
  exact ⟨fs, hfs⟩

/-- Equal digests stand for equal contexts and equal conversations, and equal
bindings for packets that are equal up to their leases. -/
theorem digest_and_binding_pin_packet (hp : Ordered p) (hq : Ordered q)
    (hvalid : validatePacketWithSources K p a now prior = some ())
    (hvalid' : validatePacketWithSources K q a' now' prior' = some ())
    (hsha : Distinguishes K p q) :
    (p["context"]["digest"] = q["context"]["digest"] →
      p["roomId"] = q["roomId"] ∧ p["agentId"] = q["agentId"] ∧
        p["conversation"]["id"] = q["conversation"]["id"] ∧
        p["conversation"]["generation"] = q["conversation"]["generation"] ∧
        p["triggerEventId"] = q["triggerEventId"] ∧
        p["guidanceRevision"] = q["guidanceRevision"] ∧
        p["context"] = q["context"]) ∧
    (binding p = binding q ↔ AgreesUpToLease p q) := by
  have hcheck := digestChecked_of_valid hvalid
  have hcheck' := digestChecked_of_valid hvalid'
  obtain ⟨fs, hfs⟩ := object_of_valid hvalid
  obtain ⟨gs, hgs⟩ := object_of_valid hvalid'
  have hpin := digested_eq hp hq hsha hcheck hcheck'
  refine ⟨fun hdigest => ?_, fun hbinding => ?_, ?_⟩
  · have heq := hpin hdigest
    have hfield : ∀ k : String, (digested p)[k] = (digested q)[k] := by
      rw [heq]
      exact fun _ => rfl
    simp only [digested, Value.getElem_object] at hfield
    exact ⟨hfield "roomId", hfield "agentId", hfield "conversationId",
      hfield "generation", hfield "triggerEventId", hfield "guidanceRevision",
      context_eq_of_digested hp hq hcheck hcheck' hdigest heq⟩
  · have hdigest : p["context"]["digest"] = q["context"]["digest"] := by
      rw [← binding_digest, hbinding, binding_digest]
    have hcontext := context_eq_of_digested hp hq hcheck hcheck' hdigest
      (hpin hdigest)
    intro k howner hexpires
    by_cases hk : k = "context"
    · subst hk
      obtain ⟨ctx, hctx⟩ := hcheck.context
      rw [get?_of_getElem hctx (by simp),
        get?_of_getElem (hcontext.symm.trans hctx) (by simp)]
    · have hget := congrArg (fun v => v.get? k) hbinding
      simpa only [binding_get? hfs, binding_get? hgs, if_neg hexpires,
        if_neg howner, if_neg hk] using hget
  · exact binding_eq_of_agrees hfs hgs hp hq

/-- The first packet under a renewed lease. -/
def Sample.renewed : Value :=
  Sample.packet₁.set "leaseExpiresAt" (.str "2026-10-05T12:06:00Z")

theorem Sample.renewed_valid :
    validatePacketWithSources Reference.crates Sample.renewed
      Sample.mediator.admission (some (Sample.now, Sample.now, Sample.now))
      .empty = some () := by
  decide +kernel

theorem Sample.digested_renewed :
    digested Sample.renewed = digested Sample.packet₁ := by
  decide +kernel

theorem Sample.distinguishes_renewed :
    Distinguishes Reference.crates Sample.packet₁ Sample.renewed := by
  intro text text' htext htext' _
  rw [Sample.digested_renewed, htext] at htext'
  exact Option.some.inj htext'

theorem digest_and_binding_pin_packet_renewed :
    binding Sample.packet₁ = binding Sample.renewed ↔
      AgreesUpToLease Sample.packet₁ Sample.renewed :=
  (digest_and_binding_pin_packet Sample.safe_packet₁.ordered
    (Sample.safe_packet₁.set _ (.str trivial)).ordered
    Sample.admissible.packet_valid Sample.renewed_valid
    Sample.distinguishes_renewed).2

/-! ## Replays -/

theorem stringSet_ext {A B : StringSet} (h : ∀ s, s ∈ A ↔ s ∈ B) : A = B := by
  obtain ⟨xs, hxs⟩ := A
  obtain ⟨ys, hys⟩ := B
  have hnodup : ∀ {zs : List String}, zs.Pairwise Value.KeyLt → zs.Nodup :=
    fun hzs => hzs.imp fun hlt => hlt.ne
  have hperm : xs.Perm ys :=
    (List.perm_ext_iff_of_nodup (hnodup hxs) (hnodup hys)).mpr h
  have heq := eq_of_perm_of_sorted hxs hys hperm
  subst heq
  rfl

/-- What validation of a result reads of a packet besides its sources. -/
structure JudgesAlike (p q : Value) : Prop where
  conversation : p["conversation"] = q["conversation"]
  revision : p["context"]["revision"] = q["context"]["revision"]
  digest : p["context"]["digest"] = q["context"]["digest"]
  model : p["model"] = q["model"]
  reasoningEffort : p["reasoningEffort"] = q["reasoningEffort"]
  issuedAt : p["issuedAt"] = q["issuedAt"]
  expiresAt : p["expiresAt"] = q["expiresAt"]

theorem validateResultPolicy_congr {admission : Option Admission} {x : Value}
    {known known' : StringSet} (h : JudgesAlike p q)
    (hsources : (sources p).union known = (sources q).union known') :
    validateResultPolicy K x p known admission =
      validateResultPolicy K x q known' admission := by
  have hmatches : resultMatches x p = resultMatches x q := by
    rw [resultMatches, resultMatches, h.conversation, h.revision, h.digest]
  have hsettings : resultSettings x p admission =
      resultSettings x q admission := by
    unfold resultSettings
    cases admission with
    | none => simp only [settingsAllowed, h.model, h.reasoningEffort]
    | some _ => simp only [settingsAllowed]
  have hreported : ∀ settings : Value,
      reportedModel settings p = reportedModel settings q := by
    intro settings
    rw [reportedModel, reportedModel, h.model]
  have husage : resultUsage K x p = resultUsage K x q := by
    rw [resultUsage, resultUsage, hreported, h.issuedAt, h.expiresAt]
  rw [validateResultPolicy, validateResultPolicy, hmatches, hsettings, husage,
    hsources]

theorem judgesAlike_binding (p : Value) : JudgesAlike (binding p) p := by
  constructor
  · exact binding_getElem (by decide) (by decide) (by decide) p
  · exact binding_context (by decide) (by decide) (by decide) p
  · exact binding_digest p
  · exact binding_getElem (by decide) (by decide) (by decide) p
  · exact binding_getElem (by decide) (by decide) (by decide) p
  · exact binding_getElem (by decide) (by decide) (by decide) p
  · exact binding_getElem (by decide) (by decide) (by decide) p

/-- The binding and the stored sources judge a result as the packet does, and
so does every packet of that binding whose digest is right. -/
theorem replay_validates_as_first (hp : Ordered p)
    (hvalid : validatePacketWithSources K p a now prior = some ())
    (x : Value) (admission : Admission) :
    validateResultWithAdmission K x (binding p) ((sources p).union prior)
        admission =
      validateResultWithAdmission K x p ((sources p).union prior) admission ∧
    ∀ q, Ordered q → DigestChecked K q → Distinguishes K p q →
      binding q = binding p →
        validateResultWithAdmission K x q ((sources p).union prior)
            admission =
          validateResultWithAdmission K x (binding p) ((sources p).union prior)
            admission := by
  have hempty : ∀ s, s ∉ sources (binding p) := by
    intro s hs
    exact not_discloses_binding p s (mem_sources.mp hs)
  constructor
  · refine validateResultPolicy_congr (judgesAlike_binding p) ?_
    refine stringSet_ext fun s => ?_
    simp only [StringSet.mem_union, hempty, false_or]
    tauto
  · intro q hq hcheck' hsha hbinding
    have hcheck := digestChecked_of_valid hvalid
    have hdigest : p["context"]["digest"] = q["context"]["digest"] := by
      rw [← binding_digest, ← hbinding, binding_digest]
    have hcontext := context_eq_of_digested hp hq hcheck hcheck' hdigest
      (digested_eq hp hq hsha hcheck hcheck' hdigest)
    have hsources : sources q = sources p := by
      simp only [sources, eventIds, decisionIds, hcontext]
    have halike : JudgesAlike q (binding p) := by
      have hback := judgesAlike_binding q
      rw [hbinding] at hback
      exact ⟨hback.1.symm, hback.2.symm, hback.3.symm, hback.4.symm,
        hback.5.symm, hback.6.symm, hback.7.symm⟩
    refine validateResultPolicy_congr halike ?_
    refine stringSet_ext fun s => ?_
    rw [hsources]
    simp only [StringSet.mem_union, hempty, false_or]
    tauto

theorem Sample.binding_renewed :
    binding Sample.renewed = binding Sample.packet₁ := by
  decide +kernel

theorem replay_validates_as_first_renewed :
    validateResultWithAdmission Reference.crates Sample.reply Sample.renewed
        ((sources Sample.packet₁).union .empty) Sample.mediator.admission =
      validateResultWithAdmission Reference.crates Sample.reply
        (binding Sample.packet₁) ((sources Sample.packet₁).union .empty)
        Sample.mediator.admission :=
  (replay_validates_as_first Sample.safe_packet₁.ordered
    Sample.admissible.packet_valid Sample.reply Sample.mediator.admission).2
    Sample.renewed (Sample.safe_packet₁.set _ (.str trivial)).ordered
    (digestChecked_of_valid Sample.renewed_valid) Sample.distinguishes_renewed
    Sample.binding_renewed

end AgentGateway
