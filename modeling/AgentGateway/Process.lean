import AgentGateway.Library.Interleaving
import AgentGateway.Conversation.CatalogBridge
import AgentGateway.Conversation.Polling
import AgentGateway.Task.Polling

/-!
# The process

`main` joins the polling loop of the task dispatcher, the one of the
conversation mediator, and a server for the catalog bridge.  Their operations
interleave in any order, and the process may be killed and started again.
-/

namespace AgentGateway

open Utf8 (Bytes)
open Interaction
open CatalogBridge (Hash)

/-! ## Threads -/

abbrev Running : Signature := Mediating.sum Task.PollingRoom

/-- The state directory is all that the threads could share. -/
abbrev running : Environment Running Directory := world.left.left

/-- What the configuration adds for conversations. -/
structure Codex where
  mediator : Dispatcher
  bridge : CatalogBridge.Bridge

/-- One life of the process: what it is started with, and what arrives. -/
structure Life where
  leaseOwner : Task.Uuid
  pollMillis : ℕ
  codex : Option Codex
  /-- The requests for the catalog. -/
  requests : ℕ → CatalogBridge.Request
  /-- Where the loops are cut off. -/
  rounds : ℕ
  patience : ℕ

inductive Thread where
  | dispatcher
  | conversations
  | request (n : ℕ)
deriving DecidableEq

inductive Finish where
  | absent
  | dispatcher (error : Option Task.DispatchError)
  | conversations (error : Option MediationError)
  | answered (answer : CatalogBridge.Answer)

variable (F : Task.Formats) (K : Crates) (digest : Bytes → Hash)

/-- The polling interval in nanoseconds. -/
def Life.poll (x : Life) : ℕ := x.pollMillis * 1000000

def threads (x : Life) : Thread → Prog Running Finish
  | .dispatcher => do
      let e ← (Task.runForever F x.patience x.leaseOwner x.poll x.rounds).inr
      return .dispatcher e
  | .conversations =>
      match x.codex with
      | none => return .absent
      | some codex => do
          let e ← (mediateForever K codex.mediator x.poll x.rounds).inl
          return .conversations e
  | .request n =>
      match x.codex with
      | none => return .absent
      | some codex => do
          let answer ←
            (CatalogBridge.catalog K digest codex.bridge (x.requests n)).inl.inl
          return .answered answer

/-- Lives one after the other on one state directory, each with its events. -/
inductive Lives : List (Life × List (Thread × Event Running)) →
    Directory → Prop
  | nil : Lives [] Directory.empty
  | snoc {past : List (Life × List (Thread × Event Running))}
      {d d' : Directory} {x : Life} {es : List (Thread × Event Running)}
      {rest : Thread → Prog Running Finish} : Lives past d →
      Interleaved running (threads F K digest x) d es rest d' →
        Lives (past ++ [(x, es)]) d'

variable {F K digest}

/-! ## Isolation -/

/-- Only the mediator may change the state directory. -/
def Thread.Keeps (i : Thread) (op : Running.Op) : Prop :=
  i = .conversations ∨ ∀ ans d, running.update d ⟨op, ans⟩ = d

theorem serve_within (bridge : CatalogBridge.Bridge) :
    (CatalogBridge.serve K bridge).Within Op.Worker fun _ => True := by
  apply Prog.Within.bind Worker.within_admitCodex
  intro result _
  cases result with
  | error e => trivial
  | ok u =>
      apply Prog.Within.bind (Worker.within_catalog K bridge.admission)
      intro result _
      cases result with
      | error e => trivial
      | ok page => trivial

theorem catalog_within (bridge : CatalogBridge.Bridge)
    (request : CatalogBridge.Request) :
    (CatalogBridge.catalog K digest bridge request).Within Op.Worker
      fun _ => True := by
  rw [CatalogBridge.catalog]
  split_ifs
  all_goals first
    | exact serve_within bridge
    | trivial

theorem keeps_of_worker {i : Thread} {op : Op} (h : op.Worker) :
    i.Keeps (.inl (.inl op)) := by
  right
  intro ans d
  cases op with
  | save => exact h.elim
  | _ => rfl

theorem threads_keep (x : Life) (i : Thread) :
    (threads F K digest x i).Within i.Keeps fun _ => True := by
  cases i with
  | dispatcher =>
      apply Prog.Within.bind ((Prog.within_inr _).weaken _)
      · exact fun _ _ => trivial
      · rintro (op | op) hop
        · exact hop.elim
        · exact Or.inr fun _ _ => rfl
  | conversations =>
      exact (Prog.within_true _).weaken fun _ _ => Or.inl rfl
  | request n =>
      rw [threads]
      cases x.codex with
      | none => trivial
      | some codex =>
          have hcatalog : (CatalogBridge.catalog K digest codex.bridge
              (x.requests n)).Within Op.Worker fun _ => True :=
            catalog_within _ _
          have hwithin := Prog.within_inl (T := Task.PollingRoom)
            (Prog.within_inl (T := Sleeps) hcatalog)
          apply Prog.Within.bind (hwithin.weaken _)
          · exact fun _ _ => trivial
          · rintro ((op | op) | op) hop
            · exact keeps_of_worker hop
            · exact hop.elim
            · exact hop.elim

/-! ## The mediator's part -/

/-- The calls of a life are made by its mediator, in a loop of its own. -/
inductive Life.Mediates (x : Life) :
    List (Call K) → List (Event Running) → Prop
  | absent : x.codex = none → Mediates x [] []
  | looped {codex : Codex} {calls : List (Call K)}
      {es : List (Event Mediating)} : x.codex = some codex →
        Looped codex.mediator x.poll calls es →
          Mediates x calls (es.map Event.inl)

theorem exists_calls {x : Life} {d d' : Directory}
    {es : List (Thread × Event Running)} {rest : Thread → Prog Running Finish}
    (h : Interleaved running (threads F K digest x) d es rest d') :
    ∃ calls : List (Call K), Interaction.Run world (call K) d calls d' ∧
      x.Mediates calls (own .conversations es) := by
  have hkeeps := h.within (threads_keep x)
  obtain ⟨r, hexec, -⟩ := h.exec_own (i := .conversations)
    fun e he hne d => (hkeeps e he).resolve_left hne e.2.ans d
  generalize own .conversations es = fs at hexec ⊢
  rw [threads] at hexec
  cases hcodex : x.codex with
  | none =>
      rw [hcodex] at hexec
      cases hexec with
      | cut => exact ⟨[], .nil, .absent hcodex⟩
      | ret => exact ⟨[], .nil, .absent hcodex⟩
  | some codex =>
      rw [hcodex] at hexec
      have hloop : ∃ r, Exec running d (mediateForever K codex.mediator x.poll
          x.rounds).inl fs d' r := by
        rcases Exec.bind_cases hexec with
          ⟨hloop, -⟩ | ⟨es₁, es₂, d₁, e, rfl, hloop, hret⟩
        · exact ⟨none, hloop⟩
        · refine ⟨some e, ?_⟩
          cases hret with
          | cut => rwa [List.append_nil]
          | ret => rwa [List.append_nil]
      obtain ⟨r, hloop⟩ := hloop
      obtain ⟨gs, rfl, hinner⟩ := hloop.of_inl
      obtain ⟨calls, hrun, hlooped⟩ := mediateForever_calls hinner
      exact ⟨calls, hrun, .looped hcodex hlooped⟩

/-- The operations of the mediator in a life. -/
def mediated (es : List (Thread × Event Running)) : List Action :=
  lefts (lefts (own .conversations es))

theorem Life.Mediates.trace {x : Life} {calls : List (Call K)}
    {es : List (Thread × Event Running)}
    (h : x.Mediates calls (own .conversations es)) :
    trace calls = mediated es := by
  rw [mediated]
  generalize own .conversations es = fs at h ⊢
  cases h with
  | absent => rfl
  | looped _ h => rw [lefts_inl, h.trace]

/-- Whatever the threads of the process do, and however often it is killed and
started again, what it does to its state directory, and to the broker and the
worker of conversations apart from the catalog bridge, is a run of the mediator.
The calls are those of the loop of each life, in order. -/
theorem process_lives_run {lives : List (Life × List (Thread × Event Running))}
    {d : Directory} (h : Lives F K digest lives d) :
    ∃ calls : List (List (Call K)), Run K calls.flatten d ∧
      trace calls.flatten = lives.flatMap (fun life => mediated life.2) ∧
        List.Forall₂ (fun life calls =>
          life.1.Mediates calls (own .conversations life.2)) lives calls := by
  induction h with
  | nil => exact ⟨[], .nil, rfl, .nil⟩
  | snoc _ hlife ih =>
      obtain ⟨calls, hrun, htrace, hpast⟩ := ih
      obtain ⟨last, hlast, hmediates⟩ := exists_calls hlife
      refine ⟨calls ++ [last], ?_, ?_, ?_⟩
      · rw [List.flatten_append, List.flatten_singleton]
        exact hrun.append hlast
      · rw [List.flatten_append, List.flatten_singleton, trace_append, htrace,
          hmediates.trace, List.flatMap_append, List.flatMap_singleton]
      · exact List.rel_append hpast (.cons hmediates .nil)

/-! ## Two lives -/

namespace Sample

def life : Life where
  leaseOwner := Task.referenceAgentId
  pollMillis := 250
  codex := some ⟨mediator, CatalogBridge.sampleBridge⟩
  requests := fun _ => CatalogBridge.sampleRequest
  rounds := 2
  patience := 1

/-- There is nothing to claim, the broker of conversations and the worker do
not answer, and the process is killed. -/
def firstLife : List (Thread × Event Running) :=
  [(.dispatcher, ⟨.inr (.inl (.claim Task.referenceAgentId)), Except.ok none⟩),
    (.conversations, ⟨.inl (.inl .readDir), some []⟩),
    (.request 0, ⟨.inl (.inl (.workerSend CatalogBridge.cardRequest)), ()⟩),
    (.dispatcher, ⟨.inr (.inr (.sleep 250000000)), ()⟩),
    (.conversations,
      ⟨.inl (.inl (.serviceToken mediator.claimRequest)), none⟩),
    (.request 0,
      ⟨.inl (.inl (.workerReceive CatalogBridge.cardRequest)), none⟩),
    (.conversations, ⟨.inl (.inr 250000000), ()⟩),
    (.dispatcher,
      ⟨.inr (.inl (.claim Task.referenceAgentId)), Except.error true⟩)]

/-- The directory cannot be listed, which ends the loop of the mediator. -/
def secondLife : List (Thread × Event Running) :=
  [(.request 1, ⟨.inl (.inl (.workerSend CatalogBridge.cardRequest)), ()⟩),
    (.conversations, ⟨.inl (.inl .readDir), none⟩),
    (.dispatcher, ⟨.inr (.inl (.claim Task.referenceAgentId)), Except.ok none⟩)]

theorem allows_running {d : Directory} {op : Op} {ans : op.Answer}
    (h : allowed d ⟨op, ans⟩) : running.allows d ⟨.inl (.inl op), ans⟩ := by
  rintro e he f hf
  cases he
  cases hf
  exact h

/-- The bridge serves the request, which names its secret. -/
theorem threads_request (n : ℕ) :
    threads Task.Reference.formats Reference.crates Sha256.digest life
        (.request n) =
      ((CatalogBridge.serve Reference.crates
        CatalogBridge.sampleBridge).inl.inl >>= fun answer =>
          .ret (.answered answer)) := by
  have hvalid : CatalogBridge.valid Sha256.digest CatalogBridge.sampleBridge
      CatalogBridge.sampleRequest.authorization = true := by
    decide +kernel
  have hserve : CatalogBridge.catalog Reference.crates Sha256.digest
      CatalogBridge.sampleBridge CatalogBridge.sampleRequest =
        CatalogBridge.serve Reference.crates CatalogBridge.sampleBridge := by
    rw [CatalogBridge.catalog, if_neg (not_not.mpr hvalid),
      if_neg (by decide), if_neg (by decide)]
  rw [← hserve]
  rfl

theorem interleaved_firstLife : ∃ rest, Interleaved running
    (threads Task.Reference.formats Reference.crates Sha256.digest life)
    Directory.empty firstLife rest Directory.empty := by
  apply Exists.intro
  apply Interleaved.step (i := Thread.dispatcher)
  · rfl
  · exact nofun
  apply Interleaved.step (i := Thread.conversations)
  · rfl
  · exact allows_running fun entries h => Option.some.inj h ▸ listing_empty
  apply Interleaved.step (i := Thread.request 0)
  · exact threads_request 0
  · exact allows_running trivial
  apply Interleaved.step (i := Thread.dispatcher)
  · rfl
  · exact nofun
  apply Interleaved.step (i := Thread.conversations)
  · rfl
  · exact allows_running trivial
  apply Interleaved.step (i := Thread.request 0)
  · rfl
  · exact allows_running trivial
  apply Interleaved.step (i := Thread.conversations)
  · rfl
  · exact nofun
  apply Interleaved.step (i := Thread.dispatcher)
  · rfl
  · exact nofun
  exact .nil _ _

theorem interleaved_secondLife : ∃ rest, Interleaved running
    (threads Task.Reference.formats Reference.crates Sha256.digest life)
    Directory.empty secondLife rest Directory.empty := by
  apply Exists.intro
  apply Interleaved.step (i := Thread.request 1)
  · exact threads_request 1
  · exact allows_running trivial
  apply Interleaved.step (i := Thread.conversations)
  · rfl
  · exact allows_running nofun
  apply Interleaved.step (i := Thread.dispatcher)
  · rfl
  · exact nofun
  exact .nil _ _

end Sample

theorem process_lives_run_restarted :
    ∃ calls : List (List (Call Reference.crates)),
      Run Reference.crates calls.flatten Directory.empty ∧
        trace calls.flatten =
          [(Sample.life, Sample.firstLife),
            (Sample.life, Sample.secondLife)].flatMap
              (fun life => mediated life.2) ∧
        List.Forall₂ (fun life calls =>
          life.1.Mediates calls (own .conversations life.2))
            [(Sample.life, Sample.firstLife),
              (Sample.life, Sample.secondLife)] calls := by
  obtain ⟨rest, hfirst⟩ := Sample.interleaved_firstLife
  obtain ⟨rest', hsecond⟩ := Sample.interleaved_secondLife
  exact process_lives_run (.snoc (.snoc .nil hfirst) hsecond)

end AgentGateway
