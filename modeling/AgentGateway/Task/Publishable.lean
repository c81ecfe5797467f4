import AgentGateway.Conversation.Turns
import AgentGateway.Library.Sha1
import AgentGateway.Task.Results
import Mathlib.Data.List.Nodup
import Mathlib.Data.Nat.Digits.Defs

/-!
# Publication of results

When the result of a verified packet satisfies the published schema, and the
packet of the repository's fixture under the crates that the task side calls.
-/

namespace AgentGateway.Task

open Json (Value Schema hexDigit hexValue?)
open AgentGateway.Task.Contracts (hyphenated isFormat externalTaskResult)

variable {F : Formats}

/-! ## The length of a summary -/

theorem length_intercalate_le (sep : List Char) (ls : List (List Char)) :
    (sep.intercalate ls).length ≤ (ls.map (·.length + sep.length)).sum := by
  induction ls with
  | nil => simp [List.intercalate]
  | cons l ls ih =>
      cases ls with
      | nil => simp [List.intercalate]
      | cons k ls =>
          simp only [List.intercalate_cons_cons, List.length_append,
            List.map_cons, List.sum_cons] at ih ⊢
          omega

theorem length_repr_le {n : ℕ} (h : n < 2 ^ 64) :
    (toString n).toList.length ≤ 20 := by
  have hlength := Nat.toDigits_length 10 n 20 (by decide) (by omega)
  simpa using hlength

theorem length_titles_le {decisions : List ActiveDecision}
    (h : decisions.length < 2 ^ 63) :
    (summaryTitles decisions).toList.length ≤ 7000 := by
  unfold summaryTitles
  split_ifs with hnone hmany
  · decide
  · have hcount := length_repr_le (n := decisions.length) (by omega)
    have htext : " active decisions (titles omitted to keep the result bounded)".toList.length = 61 := by
      decide
    rw [String.toList_append, List.length_append, htext]
    omega
  · rw [not_or, not_lt, not_lt] at hmany
    have hjoin := length_intercalate_le "; ".toList
      (decisions.map (·.title.toList))
    rw [String.toList_intercalate, List.map_map]
    simp only [List.map_map] at hjoin
    exact hjoin.trans hmany.2

theorem length_hyphenated {s : String} (h : hyphenated s = true) :
    s.toList.length = 36 := by
  rw [hyphenated, Bool.and_eq_true, decide_eq_true_eq] at h
  exact h.1

theorem length_summaryText_le (hshow : ∀ u, hyphenated (F.showUuid u) = true)
    {p : RoomContextPacket} (hrevision : 0 ≤ p.contextRevision) :
    (summaryText F p).toList.length ≤ 8000 := by
  obtain ⟨n, hn⟩ := Int.eq_ofNat_of_zero_le hrevision
  have hroom := length_hyphenated (hshow p.roomId)
  have hnumber : (toString p.contextRevision).toList.length ≤ 20 := by
    have hlt := p.revision_range.2
    rw [hn] at hlt ⊢
    exact length_repr_le (by omega)
  have hcount : (toString (messageCount p.events)).toList.length ≤ 20 := by
    have hle : messageCount p.events ≤ p.events.length := List.countP_le_length
    have hlt := p.events_length
    exact length_repr_le (by omega)
  have htitles := length_titles_le p.decisions_length
  have h₁ : "Room ".toList.length = 5 := by decide
  have h₂ : " revision ".toList.length = 10 := by decide
  have h₃ : " has ".toList.length = 5 := by decide
  have h₄ : " messages and active decisions: ".toList.length = 32 := by decide
  have h₅ : ".".toList.length = 1 := by decide
  simp only [summaryText, String.toList_append, List.length_append, h₁, h₂, h₃,
    h₄, h₅, hroom]
  omega

theorem summaryText_ne_nil (p : RoomContextPacket) :
    1 ≤ (summaryText F p).toList.length := by
  have h : "Room ".toList.length = 5 := by decide
  simp only [summaryText, String.toList_append, List.length_append, h]
  omega

/-! ## Publishable results -/

/-- The bounds of an item, in characters. -/
structure ActionItem.Bounded (item : ActionItem) : Prop where
  text : 1 ≤ item.text.toList.length ∧ item.text.toList.length ≤ 2000
  owner : 1 ≤ item.owner.toList.length ∧ item.owner.toList.length ≤ 256
  due : 1 ≤ item.due.toList.length ∧ item.due.toList.length ≤ 256

/-- `States p v cs`: the value is a result of the skill of the packet, within
the bounds of the schema, and cites `cs`. -/
inductive States (p : RoomContextPacket) : Value → List String → Prop
  | summary {summary : String} {citations : List String} :
      p.skillId = "summarize-context" → 1 ≤ summary.toList.length →
      summary.toList.length ≤ 8000 → citations.length ≤ 100 →
      citations.Nodup → States p (summaryValue summary citations) citations
  | actions {items : List ActionItem} {citation : String} :
      p.skillId = "extract-action-items" → items.length ≤ 20 →
      (∀ item ∈ items, item.Bounded) →
        States p (actionItemsValue items citation) [citation]

/-- A result that satisfies the schema and cites events of the packet. -/
def Publishable (p : RoomContextPacket) (v : Value) : Prop :=
  externalTaskResult.valid isFormat v = true ∧ ∃ cs, States p v cs ∧
    ∀ c ∈ cs, hyphenated c = true ∧ ∃ e ∈ p.events, eventId e = some c

variable (F)

/-- The identifiers that the result of a packet cites. -/
def cited (p : RoomContextPacket) : List String :=
  if p.skillId = "summarize-context" then summaryCitations p
  else ((invocationEvent F p).bind eventId).toList

variable {F}

theorem length_le_utf8ByteSize (s : String) :
    s.toList.length ≤ s.utf8ByteSize := by
  have hpush : ∀ (t : String) (a : Char), t.toList.length ≤ t.utf8ByteSize →
      (t.push a).toList.length ≤ (t.push a).utf8ByteSize := by
    intro t a ih
    have ha := a.utf8Size_pos
    rw [String.utf8ByteSize_push, String.toList_push, List.length_append,
      List.length_singleton]
    omega
  exact s.push_induction (fun t => t.toList.length ≤ t.utf8ByteSize)
    (Nat.zero_le _) hpush

theorem Literal.bounds {field : String} {maximum : ℕ}
    (h : Literal field maximum) :
    1 ≤ field.toList.length ∧ field.toList.length ≤ maximum := by
  constructor
  · exact List.length_pos_of_ne_nil h.ne_empty
  · exact (length_le_utf8ByteSize field).trans h.short

theorem bounded_of_mem_actionItems {input : String} {item : ActionItem}
    (h : item ∈ actionItems input) : item.Bounded := by
  obtain ⟨line, _, hline⟩ := List.mem_filterMap.mp (List.mem_of_mem_take h)
  have hliteral := (parseActionItem_eq_some.mp hline).literal
  exact ⟨hliteral.text.bounds, hliteral.owner.bounds, hliteral.due.bounds⟩

/-- Distinct events have distinct texts of their identifiers. -/
theorem nodup_eventIds {p : RoomContextPacket} {now : DateTime}
    (h : Verified F p now) : (p.events.filterMap eventId).Nodup := by
  obtain ⟨js, hjs, hnodup⟩ := eventIds_of_verified h
  have hids : ∀ {es : List Value} {ks : List Uuid},
      es.map (fun e => (eventId e).bind F.parseUuid) = ks.map some →
        (es.filterMap eventId).map F.parseUuid = ks.map some := by
    intro es
    induction es with
    | nil => exact fun h => h
    | cons e es ih =>
        intro ks hks
        cases ks with
        | nil => cases hks
        | cons k ks =>
            rw [List.map_cons, List.map_cons, List.cons.injEq] at hks
            obtain ⟨s, hs, hk⟩ := Option.bind_eq_some_iff.mp hks.1
            rw [List.filterMap_cons_some hs, List.map_cons, List.map_cons,
              hk, ih hks.2]
  have hmap : ((p.events.filterMap eventId).map F.parseUuid).Nodup := by
    rw [hids hjs]
    exact List.Nodup.map (Option.some_injective _) hnodup
  exact List.Nodup.of_map _ hmap

theorem mem_cited {p : RoomContextPacket} {s : String} (h : s ∈ cited F p) :
    ∃ e ∈ p.events, eventId e = some s := by
  unfold cited at h
  split_ifs at h
  · exact List.mem_filterMap.mp (List.mem_of_mem_take h)
  · rw [Option.mem_toList, Option.bind_eq_some_iff] at h
    obtain ⟨e, he, hs⟩ := h
    exact ⟨e, mem_of_invocationEvent he, hs⟩

/-! ## The schema on results -/

theorem summaryValue_eq (summary : String) (citations : List String) :
    summaryValue summary citations =
      .obj [("citations", .arr (citations.map .str)),
        ("kind", .str "context-summary.v1"), ("summary", .str summary)] := by
  simp +decide [summaryValue, Value.object, Value.insertField]

theorem actionItemsValue_eq (items : List ActionItem) (citation : String) :
    actionItemsValue items citation =
      .obj [("actionItems", .arr (items.map ActionItem.value)),
        ("citations", .arr [.str citation]),
        ("kind", .str "action-items.v1")] := by
  simp +decide [actionItemsValue, Value.object, Value.insertField]

theorem ActionItem.value_eq (item : ActionItem) :
    item.value = .obj [("due", .str item.due), ("owner", .str item.owner),
      ("text", .str item.text)] := by
  simp +decide [ActionItem.value, Value.object, Value.insertField]

theorem valid_citationIds {cs : List String} (hlength : cs.length ≤ 100)
    (hnodup : cs.Nodup) :
    Contracts.citationIds.valid isFormat (.arr (cs.map .str)) = true ↔
      ∀ c ∈ cs, hyphenated c = true := by
  have hinj : Function.Injective Value.str := fun _ _ h => Value.str.inj h
  have hmap : (cs.map Value.str).Nodup := List.Nodup.map hinj hnodup
  simp only [Contracts.citationIds, Schema.valid, Schema.stringValid,
    Bool.and_eq_true, decide_eq_true_eq, List.length_map, Option.all_some,
    Option.all_none, hlength, hmap, List.all_eq_true, List.mem_map,
    forall_exists_index, and_imp, forall_apply_eq_imp_iff₂, isFormat]
  simp

theorem valid_text {lo hi : ℕ} {s : String} (hlo : lo ≤ s.toList.length)
    (hhi : s.toList.length ≤ hi) :
    (AgentGateway.Contracts.text lo (some hi)).valid isFormat (.str s) =
      true := by
  simp [AgentGateway.Contracts.text, Schema.valid, Schema.stringValid,
    hlo, hhi]

theorem valid_actionItem {item : ActionItem} (h : item.Bounded) :
    Contracts.actionItem.valid isFormat item.value = true := by
  obtain ⟨⟨htext, htext'⟩, ⟨howner, howner'⟩, ⟨hdue, hdue'⟩⟩ := h
  rw [ActionItem.value_eq]
  simp [Contracts.actionItem, Schema.valid, Schema.validField,
    Schema.keysPresent, Schema.hasKey, Value.lookup_cons, valid_text, *]

theorem not_valid_kind {ps : List (String × Schema)} {required : List String}
    {kind kind' : String} {fs : List (String × Value)} (hne : kind ≠ kind')
    (hkind : fs.lookup "kind" = some (.str kind))
    (hps : ps.lookup "kind" = some (AgentGateway.Contracts.const kind'))
    (hrequired : "kind" ∈ required) :
    (Schema.object ps required []).valid isFormat (.obj fs) = false := by
  by_contra h
  rw [Bool.not_eq_false] at h
  have hfield := Schema.valid_getElem h hrequired hps
  rw [Value.getElem_obj, hkind] at hfield
  simp [AgentGateway.Contracts.const, Schema.valid, hne] at hfield

theorem valid_iff_of_states {p : RoomContextPacket} {v : Value}
    {cs : List String} (h : States p v cs) :
    externalTaskResult.valid isFormat v = true ↔
      ∀ c ∈ cs, hyphenated c = true := by
  cases h with
  | @summary summary _ hskill hlow hhigh hlength hnodup =>
      have hother : Contracts.actionItems.valid isFormat
          (summaryValue summary cs) = false := by
        rw [summaryValue_eq]
        exact not_valid_kind (by decide) rfl rfl (by simp)
      have hthis : Contracts.contextSummary.valid isFormat
          (summaryValue summary cs) =
            Contracts.citationIds.valid isFormat (.arr (cs.map .str)) := by
        rw [summaryValue_eq]
        simp [Contracts.contextSummary, Schema.valid, Schema.validField,
          Schema.keysPresent, Schema.hasKey, Value.lookup_cons, valid_text hlow hhigh,
          AgentGateway.Contracts.const]
      rw [← valid_citationIds hlength hnodup, ← hthis]
      simp [externalTaskResult, Schema.valid, Schema.validCount, hother]
  | @actions items citation hskill hlength hbounded =>
      have hother : Contracts.contextSummary.valid isFormat
          (actionItemsValue items citation) = false := by
        rw [actionItemsValue_eq]
        exact not_valid_kind (by decide) rfl rfl (by simp)
      have hitems : ∀ item ∈ items,
          Contracts.actionItem.valid isFormat item.value = true :=
        fun item hitem => valid_actionItem (hbounded item hitem)
      have hthis : Contracts.actionItems.valid isFormat
          (actionItemsValue items citation) =
            Contracts.citationIds.valid isFormat
              (.arr ([citation].map .str)) := by
        rw [actionItemsValue_eq]
        simpa [Contracts.actionItems, Schema.valid, Schema.validField,
          Schema.keysPresent, Schema.hasKey, Value.lookup_cons,
          AgentGateway.Contracts.const] using fun _ => ⟨hlength, hitems⟩
      have hone : [citation].length ≤ 100 := by simp
      rw [← valid_citationIds hone (List.nodup_singleton _), ← hthis]
      simp [externalTaskResult, Schema.valid, Schema.validCount, hother]

/-! ## Results of verified packets -/

theorem exists_states (hshow : ∀ u, hyphenated (F.showUuid u) = true)
    {p : RoomContextPacket} {now : DateTime} (h : Verified F p now) :
    ∃ v, expectedResult F p now = .ok v ∧ States p v (cited F p) := by
  have hskill : p.skillId = "summarize-context" ∨
      p.skillId = "extract-action-items" := by
    simpa [skills] using h.skill
  rcases hskill with hskill | hskill
  · refine ⟨_, expectedResult_summary h hskill, ?_⟩
    have hlength : (summaryCitations p).length ≤ 100 := List.length_take_le _ _
    have hnodup : (summaryCitations p).Nodup :=
      (nodup_eventIds h).sublist (List.take_sublist _ _)
    rw [cited, if_pos hskill]
    exact .summary hskill (summaryText_ne_nil p)
      (length_summaryText_le hshow h.revision) hlength hnodup
  · obtain ⟨e, id, he, hid, hresult⟩ := expectedResult_actions h hskill
    refine ⟨_, hresult, ?_⟩
    have hother : p.skillId ≠ "summarize-context" := by
      rw [hskill]
      decide
    rw [cited, if_neg hother, he, Option.bind_some, hid]
    exact .actions hskill (List.length_take_le _ _)
      fun item hitem => bounded_of_mem_actionItems hitem

theorem States.cites {p : RoomContextPacket} {v : Value} {cs ds : List String}
    (h : States p v cs) (h' : States p v ds) : cs = ds := by
  cases h with
  | @summary summary _ hskill _ _ _ _ =>
      generalize hv : summaryValue summary cs = v at h'
      cases h' with
      | summary _ _ _ _ _ =>
          rw [summaryValue_eq, summaryValue_eq] at hv
          simp only [Value.obj.injEq, List.cons.injEq, Prod.mk.injEq,
            Value.arr.injEq] at hv
          have hinj : Function.Injective Value.str :=
            fun _ _ h => Value.str.inj h
          exact List.map_injective_iff.mpr hinj hv.1.2
      | actions hskill' _ _ =>
          exact absurd (hskill.symm.trans hskill') (by decide)
  | @actions items citation hskill _ _ =>
      generalize hv : actionItemsValue items citation = v at h'
      cases h' with
      | summary hskill' _ _ _ _ =>
          exact absurd (hskill.symm.trans hskill') (by decide)
      | actions _ _ _ =>
          rw [actionItemsValue_eq, actionItemsValue_eq] at hv
          simp at hv
          rw [hv.2]

/-! ## The cited events -/

/-- An event states its identifier with hyphens. -/
def hyphenatedId (e : Value) : Bool := (eventId e).any hyphenated

/-- The events that the result cites state their identifiers with hyphens: the
first hundred events in a summary, the invocation with action items. -/
def CitesHyphenated (F : Formats) (p : RoomContextPacket) : Prop :=
  (p.skillId = "summarize-context" →
    ∀ e ∈ p.events.take 100, hyphenatedId e = true) ∧
  (p.skillId = "extract-action-items" →
    ∀ e, invocationEvent F p = some e → hyphenatedId e = true)

theorem take_filterMap {α β : Type} {f : α → Option β} {xs : List α}
    (h : ∀ x ∈ xs, (f x).isSome = true) (n : ℕ) :
    (xs.filterMap f).take n = (xs.take n).filterMap f := by
  induction xs generalizing n with
  | nil => simp
  | cons x xs ih =>
      rw [List.forall_mem_cons] at h
      obtain ⟨y, hy⟩ := Option.isSome_iff_exists.mp h.1
      cases n with
      | zero => rfl
      | succ n =>
          rw [List.filterMap_cons_some hy, List.take_succ_cons,
            List.take_succ_cons, List.filterMap_cons_some hy, ih h.2]

theorem forall_mem_cited_iff {p : RoomContextPacket} {now : DateTime}
    (h : Verified F p now) :
    (∀ c ∈ cited F p, hyphenated c = true) ↔ CitesHyphenated F p := by
  have hstated : ∀ e ∈ p.events, ∃ c, eventId e = some c :=
    fun e he => exists_eventId h he
  have hskill : p.skillId = "summarize-context" ∨
      p.skillId = "extract-action-items" := by
    simpa [skills] using h.skill
  rcases hskill with hskill | hskill
  · have hsome : ∀ e ∈ p.events, (eventId e).isSome = true :=
      fun e he => Option.isSome_iff_exists.mpr (hstated e he)
    rw [cited, if_pos hskill, summaryCitations, take_filterMap hsome]
    simp only [CitesHyphenated, hskill, String.reduceEq, false_imp_iff,
      and_true, true_imp_iff, List.mem_filterMap, forall_exists_index,
      and_imp]
    constructor
    · intro hall e he
      obtain ⟨c, hc⟩ := hstated e (List.mem_of_mem_take he)
      rw [hyphenatedId, hc]
      exact hall c e he hc
    · intro hall c e he hc
      have hid := hall e he
      rwa [hyphenatedId, hc] at hid
  · obtain ⟨e, he, _⟩ := h.invocation
    obtain ⟨c, hc⟩ := hstated e (mem_of_invocationEvent he)
    simp [CitesHyphenated, cited, hskill, he, hc, hyphenatedId]

/-- A verified packet has a result, and it is publishable exactly when the
cited events write their identifiers with hyphens. -/
theorem deterministic_result_publishable_iff
    (hshow : ∀ u, hyphenated (F.showUuid u) = true) (p : RoomContextPacket)
    (now : DateTime) (h : verifyPacketAt F p now = .ok ()) :
    ∃ v, expectedResult F p now = .ok v ∧
      (Publishable p v ↔ CitesHyphenated F p) := by
  have hverified := verifyPacketAt_eq_ok.mp h
  obtain ⟨v, hv, hstates⟩ := exists_states hshow hverified
  refine ⟨v, hv, ?_⟩
  rw [← forall_mem_cited_iff hverified]
  constructor
  · rintro ⟨_, cs, hcs, hcited⟩
    rw [← hcs.cites hstates]
    exact fun c hc => (hcited c hc).1
  · intro hhyphenated
    refine ⟨(valid_iff_of_states hstates).mpr hhyphenated, _, hstates, ?_⟩
    exact fun c hc => ⟨hhyphenated c hc, mem_cited hc⟩

/-! ## The sample -/

namespace Reference

/-- The digits of a hexadecimal text, most significant first. -/
def parseDigits (n : ℕ) : List Char → Option ℕ
  | [] => some n
  | a :: cs => (hexValue? a).bind fun d => parseDigits (n * 16 + d) cs

def hyphens : List ℕ := [8, 13, 18, 23]

def parseHyphenated (cs : List Char) : Option ℕ :=
  if hyphens.all fun i => cs[i]? = some '-' then
    parseDigits 0 ((cs.zipIdx.filter fun a => a.2 ∉ hyphens).map Prod.fst)
  else none

/-- The simple, hyphenated, braced and URN forms. -/
def parseUuid (s : String) : Option Uuid :=
  let cs := s.toList
  let number :=
    if cs.length = 32 then parseDigits 0 cs
    else if cs.length = 36 then parseHyphenated cs
    else if cs.length = 38 ∧ cs[0]? = some '{' ∧ cs[37]? = some '}' then
      parseHyphenated ((cs.drop 1).take 36)
    else if cs.length = 45 ∧ cs.take 9 = "urn:uuid:".toList then
      parseHyphenated (cs.drop 9)
    else none
  number.map (BitVec.ofNat 128)

def uuidDigits (u : Uuid) : List Char :=
  (List.range 32).map fun i => hexDigit (u.toNat / 16 ^ (31 - i) % 16)

def showUuid (u : Uuid) : String :=
  let cs := uuidDigits u
  String.ofList (cs.take 8 ++ '-' :: (cs.drop 8).take 4 ++
    '-' :: (cs.drop 12).take 4 ++ '-' :: (cs.drop 16).take 4 ++
    '-' :: cs.drop 20)

def updateNamespace : ℕ := 0x74686f756768746b686f72616c000005

/-- Version 5: the first sixteen bytes of a SHA-1 digest, with the bits of the
version and the variant set. -/
def uuidV5 (name : String) : Uuid :=
  let ns := (List.range 16).map fun i =>
    UInt8.ofNat (updateNamespace / 256 ^ (15 - i) % 256)
  let s := Sha1.digest (ns ++ Utf8.encode name.toList)
  let b := (s.b &&& 0xFFFF0FFF) ||| 0x5000
  let c := (s.c &&& 0x3FFFFFFF) ||| 0x80000000
  BitVec.ofNat 128 (((s.a * 2 ^ 32 + b) * 2 ^ 32 + c) * 2 ^ 32 + s.d)

def nanosPerSecond : ℕ := 1000000000

def parseTime (s : String) : Option DateTime :=
  (AgentGateway.Reference.parseFromRfc3339 s).map fun t =>
    toLex (t / nanosPerSecond, (t % nanosPerSecond).toNat)

/-- A number with leading zeros. -/
def padded (width n : ℕ) : String :=
  let s := toString n
  "".pushn '0' (width - s.length) ++ s

/-- `2026-01-01T00:00:00Z`, for instants after the epoch, with as many digits
of the fraction as it takes. -/
def showTime (t : DateTime) : String :=
  let seconds := (ofLex t).1.toNat
  let nanos := (ofLex t).2
  let z := seconds / 86400 + 719468
  let doe := z % 146097
  let yoe := (doe - doe / 1460 + doe / 36524 - doe / 146096) / 365
  let doy := doe - (365 * yoe + yoe / 4 - yoe / 100)
  let mp := (5 * doy + 2) / 153
  let day := doy - (153 * mp + 2) / 5 + 1
  let month := if mp < 10 then mp + 3 else mp - 9
  let year := yoe + z / 146097 * 400 + (if month ≤ 2 then 1 else 0)
  let s := seconds % 86400
  let fraction :=
    if nanos = 0 then ""
    else if nanos % 1000000 = 0 then "." ++ padded 3 (nanos / 1000000)
    else if nanos % 1000 = 0 then "." ++ padded 6 (nanos / 1000)
    else "." ++ padded 9 nanos
  padded 4 year ++ "-" ++ padded 2 month ++ "-" ++ padded 2 day ++ "T" ++
    padded 2 (s / 3600) ++ ":" ++ padded 2 (s / 60 % 60) ++ ":" ++
    padded 2 (s % 60) ++ fraction ++ "Z"

/-- The value of a small integer, written with or without a fraction of one
zero. -/
def asF64 : Json.Number → ℚ
  | .posInt n => n
  | .negInt n => -(n : ℚ)
  | .float s => AgentGateway.Reference.digits (s.toList.takeWhile (· ≠ '.'))

def addMilliseconds (t : DateTime) (n : ℕ) : Option DateTime :=
  let nanos := (ofLex t).2 + n * 1000000
  some (toLex ((ofLex t).1 + (nanos / nanosPerSecond : ℕ),
    nanos % nanosPerSecond))

def formats : Formats where
  sha256Hex := Sha256.hex
  parseUuid := parseUuid
  showUuid := showUuid
  uuidV5 := uuidV5
  parseTime := parseTime
  showTime := showTime
  asF64 := asF64
  addMilliseconds := addMilliseconds

/-! ## Printed identifiers -/

theorem hexDigit_value : ∀ n < 16, hexValue? (hexDigit n) = some n := by
  decide

theorem isHex_hexDigit : ∀ n < 16, Contracts.isHex (hexDigit n) = true := by
  decide

theorem toList_showUuid (u : Uuid) : (showUuid u).toList =
    (uuidDigits u).take 8 ++ '-' :: ((uuidDigits u).drop 8).take 4 ++
      '-' :: ((uuidDigits u).drop 12).take 4 ++
      '-' :: ((uuidDigits u).drop 16).take 4 ++
      '-' :: (uuidDigits u).drop 20 := by
  simp [showUuid]

/-- The thirty-two digits one by one. -/
theorem map_range (f : ℕ → Char) : (List.range 32).map f =
    [f 0, f 1, f 2, f 3, f 4, f 5, f 6, f 7, f 8, f 9, f 10, f 11, f 12, f 13,
      f 14, f 15, f 16, f 17, f 18, f 19, f 20, f 21, f 22, f 23, f 24, f 25,
      f 26, f 27, f 28, f 29, f 30, f 31] := by
  rfl

theorem hyphenated_showUuid (u : Uuid) :
    Contracts.hyphenated (showUuid u) = true := by
  have hdigit : ∀ n, Contracts.isHex (hexDigit (n % 16)) = true :=
    fun n => isHex_hexDigit _ (Nat.mod_lt n (by decide))
  rw [Contracts.hyphenated, toList_showUuid, uuidDigits, map_range]
  simp [List.zipIdx, hdigit]

theorem parseDigits_map (n : ℕ) (ds : List ℕ) (h : ∀ d ∈ ds, d < 16) :
    parseDigits n (ds.map hexDigit) =
      some (ds.foldl (fun n d => n * 16 + d) n) := by
  induction ds generalizing n with
  | nil => rfl
  | cons d ds ih =>
      rw [List.map_cons, parseDigits, hexDigit_value d (h d (by simp)),
        Option.bind_some, ih _ fun e he => h e (by simp [he])]
      rfl

/-- The leading digits of a number below a power of sixteen. -/
theorem foldl_digits (m k n : ℕ) (hn : n < 16 ^ m) (hk : k ≤ m) :
    ((List.range k).map fun i => n / 16 ^ (m - 1 - i) % 16).foldl
      (fun n d => n * 16 + d) 0 = n / 16 ^ (m - k) := by
  induction k with
  | zero => simp [Nat.div_eq_of_lt hn]
  | succ k ih =>
      rw [List.range_succ, List.map_append, List.foldl_append, ih (by omega)]
      have hpow : 16 ^ (m - k) = 16 ^ (m - 1 - k) * 16 := by
        rw [← pow_succ]
        congr 1
        omega
      have hexp : m - (k + 1) = m - 1 - k := by omega
      rw [List.map_singleton, List.foldl_cons, List.foldl_nil, hpow,
        ← Nat.div_div_eq_div_mul, hexp]
      omega

theorem parseUuid_showUuid (u : Uuid) : parseUuid (showUuid u) = some u := by
  have hdigits : uuidDigits u = ((List.range 32).map fun i =>
      u.toNat / 16 ^ (32 - 1 - i) % 16).map hexDigit := by
    rw [List.map_map]
    rfl
  have hparse : parseDigits 0 (uuidDigits u) = some u.toNat := by
    have hlt : u.toNat < 16 ^ 32 := u.isLt
    rw [hdigits, parseDigits_map, foldl_digits 32 32 _ hlt le_rfl]
    · simp
    · intro d hd
      obtain ⟨i, _, rfl⟩ := List.mem_map.mp hd
      exact Nat.mod_lt _ (by decide)
  have hform : parseHyphenated (showUuid u).toList =
      parseDigits 0 (uuidDigits u) := by
    rw [parseHyphenated, toList_showUuid, uuidDigits, map_range,
      if_pos (by simp [hyphens])]
    simp [hyphens, List.zipIdx]
  have hlength : (showUuid u).toList.length = 36 := by
    rw [toList_showUuid, uuidDigits, map_range]
    rfl
  have h32 : ¬(showUuid u).toList.length = 32 := by omega
  simp only [parseUuid, if_neg h32, if_pos hlength, hform, hparse,
    Option.map_some, BitVec.ofNat_toNat]
  simp
end Reference

/-! ## The packet of the fixture -/

namespace Sample

def human : Value :=
  .object [("id", .str "85000000-0000-4000-8000-000000000001"),
    ("role", .str "human")]

def roomEvent (id eventType : String) (payload : Value) (sequence : ℕ)
    (more : List (String × Value)) : Value :=
  .object ([("actor", human), ("eventId", .str id),
    ("eventType", .str eventType), ("payload", payload),
    ("roomId", .str "10000000-0000-4000-8000-000000000001"),
    ("sequence", .num (.posInt sequence))] ++ more)

/-- The event that requests the task, under given identifiers. -/
def requestedAs (id taskId : String) : Value :=
  roomEvent id "agent.task.requested"
    (.object [("taskId", .str taskId),
      ("agentId", .str "74686f75-6768-746b-686f-72616c000003"),
      ("requesterId", .str "85000000-0000-4000-8000-000000000001"),
      ("skillId", .str "summarize-context"),
      ("contextRevision", .num (.posInt 7))]) 6
    [("occurredAt", .str "2026-09-21T12:00:00Z")]

def requested (id : String) : Value :=
  requestedAs id "84000000-0000-4000-8000-000000000001"

def said (id text : String) (sequence : ℕ) : Value :=
  roomEvent id "message.created" (.object [("text", .str text)]) sequence []

def packetOf (events : List Value) (h : events.length < 2 ^ 63)
    (canonicalSha256 : String) : RoomContextPacket where
  taskId := 0x84000000000040008000000000000001
  roomId := 0x10000000000040008000000000000001
  requesterId := 0x85000000000040008000000000000001
  agentId := referenceAgentId
  skillId := "summarize-context"
  contextRevision := 7
  issuedAt := toLex (1893456000, 0)
  expiresAt := toLex (1893456300, 0)
  input := "- Prepare rollout checklist | owner: Maya | due: Friday\n- malformed action item"
  events := events
  activeDecisions :=
    [⟨0x89000000000040008000000000000001, "Ship after security review",
        "The gateway ships after review.",
        [0x88000000000040008000000000000001]⟩,
      ⟨0x89000000000040008000000000000002, "Use packet citations",
        "Every result cites visible source events.",
        [0x88000000000040008000000000000003]⟩]
  canonicalSha256 := canonicalSha256
  revision_range := by decide
  events_length := h
  decisions_length := by decide

def packet : RoomContextPacket :=
  packetOf
    [said "88000000-0000-4000-8000-000000000001"
        "Ship the gateway after a security review." 5,
      requested "88000000-0000-4000-8000-000000000002",
      said "88000000-0000-4000-8000-000000000003"
        "Maya will prepare the checklist by Friday." 7]
    (by decide)
    "37a822e234a4ca997df801f68ab1cc6e29ce951d5b52fa55639f8a790d939cf6"

/-- 2030-01-01T00:00:01Z -/
def issued : DateTime := toLex (1893456001, 0)

theorem verified_packet : verifyPacketAt Reference.formats packet issued =
    .ok () := by
  decide +kernel

/-- The packet with the identifier of its request without hyphens. -/
def unhyphenated : RoomContextPacket :=
  packetOf [requested "88000000000040008000000000000002"] (by decide)
    "3c20717d9dd3279c067f944ecff71f15b132a11f02d42c064ffc2f3c6ce15526"

theorem verified_unhyphenated :
    verifyPacketAt Reference.formats unhyphenated issued = .ok () := by
  decide +kernel

theorem cited_unhyphenated : cited Reference.formats unhyphenated =
    ["88000000000040008000000000000002"] := by
  decide +kernel

end Sample

theorem deterministic_result_publishable_iff_packet :
    verifyPacketAt Reference.formats Sample.packet Sample.issued = .ok () ∧
      ∃ v, expectedResult Reference.formats Sample.packet Sample.issued =
        .ok v ∧ Publishable Sample.packet v := by
  obtain ⟨v, hv, hiff⟩ := deterministic_result_publishable_iff
    (F := Reference.formats) Reference.hyphenated_showUuid Sample.packet
    Sample.issued Sample.verified_packet
  have hcites : CitesHyphenated Reference.formats Sample.packet := by
    constructor
    · intro _
      decide +kernel
    · intro hskill
      exact absurd hskill (by decide)
  exact ⟨Sample.verified_packet, v, hv, hiff.mpr hcites⟩

/-- An identifier without hyphens passes verification and is cited as it is. -/
theorem unpublishable_result : ¬∀ (p : RoomContextPacket) (now : DateTime),
    verifyPacketAt Reference.formats p now = .ok () →
      ∃ v, expectedResult Reference.formats p now = .ok v ∧
        Publishable p v := by
  intro h
  obtain ⟨v, hv, hvalid, _⟩ :=
    h Sample.unhyphenated Sample.issued Sample.verified_unhyphenated
  obtain ⟨w, hw, hstates⟩ := exists_states (F := Reference.formats)
    Reference.hyphenated_showUuid
    (verifyPacketAt_eq_ok.mp Sample.verified_unhyphenated)
  rw [hv, Except.ok.injEq] at hw
  subst hw
  have hcited := (valid_iff_of_states hstates).mp hvalid
  rw [Sample.cited_unhyphenated] at hcited
  have hlength := length_hyphenated (hcited _ (List.mem_singleton_self _))
  exact absurd hlength (by decide)

end AgentGateway.Task
