import AgentGateway.Conversation.Invariants
import AgentGateway.Library.FileSystem

/-!
# The save of a record

`save` as the calls that it makes of the file system.  Everything else in this
development takes a save for one step; here this step is a temporary file that
is synced, renamed and made durable, and may be cut off at any of these calls
or by a power loss.
-/

namespace AgentGateway

open FileSystem
open Interaction
open Utf8 (Bytes)

/-! ## Names -/

/-- The name of the file of a task. -/
def recordName (id : String) : String := id ++ ".json"

def tempName (uuid : String) : String := uuid ++ ".tmp"

theorem recordName_injective : Function.Injective recordName := by
  intro id id' h
  have hlist : id.toList ++ ".json".toList = id'.toList ++ ".json".toList := by
    rw [← String.toList_append, ← String.toList_append]
    exact congrArg String.toList h
  exact String.toList_inj.mp (List.append_cancel_right hlist)

theorem recordName_ne_tempName (id uuid : String) :
    recordName id ≠ tempName uuid := by
  intro h
  have hlist : id.toList ++ ".json".toList = uuid.toList ++ ".tmp".toList := by
    rw [← String.toList_append, ← String.toList_append]
    exact congrArg String.toList h
  have hlast := congrArg List.getLast? hlist
  simp at hlast

/-! ## One save -/

variable (K : Crates)

/-- `save`; the temporary file is named by a fresh identifier. -/
def saveFile (id : String) (r : Record) (uuid : String) :
    Prog (calls String Bytes) (Except MediationError Unit) := do
  if K.uuidParses id then
    let done ← replaceFile (tempName uuid) (recordName id) r.toVec
    return if done then .ok () else .error .state
  else return .error .validation

/-- The state directory on a disk. -/
def stateDir (d : Disk String Bytes) : Directory := d.view recordName

variable {K}

theorem written_eq_write (d : Directory) (id : String) (bytes : Bytes) :
    FileSystem.written d id bytes = d.write id bytes := by
  funext i
  rw [FileSystem.written, Function.update_apply]
  rfl

variable {d d' : Disk String Bytes} {id uuid : String} {r : Record}
  {es : List (Event (calls String Bytes))}
  {result : Option (Except MediationError Unit)}

/-- What is seen of a save, wherever it is cut off, and how it returns. -/
theorem saveFile_throughout (huuid : K.uuidParses id = true)
    (hd : d.Sound recordName) :
    Throughout (disk String Bytes) (Replacing recordName d id r.toVec)
      (saveFile K id r uuid) (fun d' res => ∃ done : Bool,
        Replaced recordName d id r.toVec d' done ∧
          res = if done then .ok () else .error .state) d := by
  rw [saveFile, if_pos huuid]
  apply Throughout.bind
  apply (replaceFile_throughout recordName_injective
    (fun id => recordName_ne_tempName id uuid) hd).mono
  intro d' done hdone
  exact ⟨hdone.1, done, hdone, rfl⟩

theorem exec_save_failed (huuid : K.uuidParses id = true) (r : Record)
    (d : Directory) (replaced : Bool) :
    Exec world d (Dispatcher.save K id r).run [saveFailed id r replaced]
      (written d (saveFailed id r replaced)) (some (.error .state)) := by
  apply exec_guard_bind huuid
  exact exec_perform_bind (o := .save id r) (a := .failed replaced) trivial
    (.ret _ _)

/-- A save that made its change is the atomic one, whatever it came back
with. -/
theorem exec_save_moved (huuid : K.uuidParses id = true) {d d' : Directory}
    (hd : d' = d.write id r.toVec)
    (hresult : result = none ∨ result = some (.ok ()) ∨
      result = some (.error .state)) :
    ∃ fs, Exec world d (Dispatcher.save K id r).run fs d' result := by
  rw [hd]
  rcases hresult with rfl | rfl | rfl
  · refine ⟨[saved id r], exec_guard_bind huuid ?_⟩
    exact exec_perform_bind (o := .save id r) (a := .saved) trivial (.cut _ _)
  · exact ⟨_, exec_save huuid r⟩
  · exact ⟨_, exec_save_failed huuid r d true⟩

/-- A save that has not made its change. -/
theorem exec_save_unmoved (huuid : K.uuidParses id = true) {d d' : Directory}
    (hd : d' = d)
    (hresult : result = none ∨ result = some (.error .state)) :
    ∃ fs, Exec world d (Dispatcher.save K id r).run fs d' result := by
  rw [hd]
  rcases hresult with rfl | rfl
  · exact ⟨[], .cut _ _⟩
  · exact ⟨_, exec_save_failed huuid r d false⟩

theorem exec_save_invalid (huuid : K.uuidParses id ≠ true) (r : Record)
    (d : Directory) :
    Exec world d (Dispatcher.save K id r).run [] d
      (some (.error .validation)) :=
  exec_checked_none (if_neg huuid)

theorem saveFile_invalid (huuid : K.uuidParses id ≠ true)
    (hexec : Exec (disk String Bytes) d (saveFile K id r uuid) es d' result) :
    d' = d ∧ (result = none ∨ result = some (.error .validation)) := by
  rw [saveFile, if_neg huuid] at hexec
  cases hexec with
  | cut => exact ⟨rfl, .inl rfl⟩
  | ret => exact ⟨rfl, .inr rfl⟩

theorem saveFile_result (huuid : K.uuidParses id = true)
    (hd : d.Sound recordName)
    (hexec : Exec (disk String Bytes) d (saveFile K id r uuid) es d' result) :
    Replacing recordName d id r.toVec d' ∧
      ((result = some (.ok ()) ∧
          stateDir d' = (stateDir d).write id r.toVec ∧
          d'.views recordName = {stateDir d'}) ∨
        result = none ∨ result = some (.error .state)) := by
  obtain ⟨hreplacing, hreturn⟩ := (saveFile_throughout huuid hd).exec hexec
  constructor
  · exact hreplacing
  · cases result with
    | none => exact .inr (.inl rfl)
    | some res =>
        obtain ⟨done, ⟨-, hdone⟩, rfl⟩ := hreturn res rfl
        cases done with
        | false => exact .inr (.inr rfl)
        | true =>
            obtain ⟨hview, hviews⟩ := hdone rfl
            exact .inl ⟨rfl, hview.trans (written_eq_write _ _ _), hviews⟩

theorem Replacing.sound (h : Replacing recordName d id r.toVec d') :
    d'.Sound recordName := by
  cases h with
  | before hsound => exact hsound
  | after hmoved => exact hmoved.sound

/-- Between two power losses a save is an atomic save of the state directory,
whether it returned or was cut off. -/
theorem saveFile_refines (hd : d.Sound recordName)
    (hexec : Exec (disk String Bytes) d (saveFile K id r uuid) es d' result) :
    ∃ fs, Exec world (stateDir d) (Dispatcher.save K id r).run fs
      (stateDir d') result := by
  by_cases huuid : K.uuidParses id = true
  · obtain ⟨hreplacing, hresult⟩ := saveFile_result huuid hd hexec
    rcases hresult with ⟨rfl, hview, -⟩ | hfailed
    · exact exec_save_moved huuid hview (.inr (.inl rfl))
    · cases hreplacing with
      | before _ _ hview => exact exec_save_unmoved huuid hview hfailed
      | after hmoved =>
          apply exec_save_moved huuid
          · exact hmoved.view.trans (written_eq_write _ _ _)
          · exact hfailed.imp_right .inr
  · obtain ⟨rfl, rfl | rfl⟩ := saveFile_invalid huuid hexec
    · exact ⟨[], .cut _ _⟩
    · exact ⟨[], exec_save_invalid huuid r _⟩

/-- What a power loss leaves of a save. -/
theorem stateDir_lost (hd : d.Sound recordName)
    (hexec : Exec (disk String Bytes) d (saveFile K id r uuid) es d' result)
    {lost : Disk String Bytes} (hlost : d'.PowerLoss lost) :
    stateDir lost = (stateDir d).write id r.toVec ∨
      result ≠ some (.ok ()) ∧
        ∃ before, d.PowerLoss before ∧ stateDir lost = stateDir before := by
  by_cases huuid : K.uuidParses id = true
  · obtain ⟨hreplacing, hresult⟩ := saveFile_result huuid hd hexec
    have hmem : stateDir lost ∈ d'.views recordName :=
      (Disk.Sound.lost (Replacing.sound hreplacing) hlost).2.1
    rcases hresult with ⟨rfl, hview, hviews⟩ | hfailed
    · rw [hviews, Set.mem_singleton_iff, hview] at hmem
      exact .inl hmem
    · have hne : result ≠ some (.ok ()) := by
        rcases hfailed with rfl | rfl
        · nofun
        · nofun
      cases hreplacing with
      | before _ hviews _ =>
          rw [hviews] at hmem
          obtain ⟨before, hbefore, hview⟩ := hd.mem_views_iff.mp hmem
          exact .inr ⟨hne, before, hbefore, hview.symm⟩
      | after hmoved =>
          rcases Set.mem_insert_iff.mp (hmoved.views hmem) with hnew | hold
          · exact .inl (hnew.trans (written_eq_write _ _ _))
          · obtain ⟨before, hbefore, hview⟩ := hd.mem_views_iff.mp hold
            exact .inr ⟨hne, before, hbefore, hview.symm⟩
  · obtain ⟨rfl, hresult⟩ := saveFile_invalid huuid hexec
    right
    constructor
    · rcases hresult with rfl | rfl
      · nofun
      · nofun
    · exact ⟨lost, hlost, rfl⟩

theorem saveFile_sound (hd : d.Sound recordName)
    (hexec : Exec (disk String Bytes) d (saveFile K id r uuid) es d' result) :
    d'.Sound recordName := by
  by_cases huuid : K.uuidParses id = true
  · exact Replacing.sound (saveFile_result huuid hd hexec).1
  · rw [(saveFile_invalid huuid hexec).1]
    exact hd

/-- The calls of a save make up the one step that the mediator relies on: up to
the next power loss it is an atomic save, and a power loss leaves the directory
after the save, or, where the save did not return `Ok`, one that a power loss
before it could have left. -/
theorem save_is_atomic (hd : d.Sound recordName)
    (hexec : Exec (disk String Bytes) d (saveFile K id r uuid) es d' result) :
    d'.Sound recordName ∧
      (∃ fs, Exec world (stateDir d) (Dispatcher.save K id r).run fs
        (stateDir d') result) ∧
      ∀ lost, d'.PowerLoss lost →
        stateDir lost = (stateDir d).write id r.toVec ∨
          result ≠ some (.ok ()) ∧
            ∃ before, d.PowerLoss before ∧ stateDir lost = stateDir before :=
  ⟨saveFile_sound hd hexec, saveFile_refines hd hexec,
    fun _ hlost => stateDir_lost hd hexec hlost⟩

/-- The calls of a save at which nothing fails, and the disk after them. -/
theorem exec_saveFile (uuid : String) (huuid : K.uuidParses id = true)
    (r : Record)
    (hnew : d.names (tempName uuid) = none) : ∃ es d',
      Exec (disk String Bytes) d (saveFile K id r uuid) es d'
        (some (.ok ())) := by
  rw [saveFile, if_pos huuid]
  obtain ⟨es, d', hexec⟩ :=
    exec_replaceFile (tempName uuid) (recordName id) r.toVec hnew
  exact ⟨_, d', hexec.bind (.ret _ _)⟩

def blankDisk : Disk String Bytes where
  synced := fun _ => none
  changes := []
  content := fun _ => []
  clean := fun _ => true
  fresh := 0

theorem blankDisk_sound : blankDisk.Sound recordName := by
  intro k id file hfile
  rw [Disk.namesAt, blankDisk, List.take_nil] at hfile
  cases hfile

/-- The first save on a blank disk survives a power loss right after it. -/
theorem save_is_atomic_first : ∃ es d',
    Exec (disk String Bytes) blankDisk
      (saveFile Reference.crates Sample.task₁ Sample.completed "0") es d'
      (some (.ok ())) ∧
    ∀ lost, d'.PowerLoss lost → stateDir lost =
      (stateDir blankDisk).write Sample.task₁ Sample.completed.toVec := by
  obtain ⟨es, d', hexec⟩ := exec_saveFile (d := blankDisk) "0"
    Sample.completed_stored.uuid Sample.completed rfl
  refine ⟨es, d', hexec, fun lost hlost => ?_⟩
  obtain ⟨-, -, hlosses⟩ := save_is_atomic blankDisk_sound hexec
  exact (hlosses lost hlost).resolve_right fun h => h.1 rfl

/-! ## The life of a state directory -/

variable (K) in
/-- Saves by any number of mediators, which may fail or be cut off at any call,
and power losses. -/
inductive Lived : List (Happening String Record) → Disk String Bytes → Prop
  | blank : Lived [] blankDisk
  | save {hs : List (Happening String Record)} {d d' : Disk String Bytes}
      {id uuid : String} {r : Record}
      {es : List (Event (calls String Bytes))}
      {result : Option (Except MediationError Unit)} : Lived hs d →
      Exec (disk String Bytes) d (saveFile K id r uuid) es d' result →
        Lived (hs ++ [.attempt id r (result.map (·.isOk))]) d'
  | powerLoss {hs : List (Happening String Record)}
      {d d' : Disk String Bytes} : Lived hs d → d.PowerLoss d' →
        Lived (hs ++ [.powerLoss]) d'

theorem represents_blankDisk :
    Represents recordName blankDisk (Store.empty : Store String Bytes) := by
  have hviewAt : ∀ k, blankDisk.viewAt recordName k = fun _ => none := by
    intro k
    funext id
    rw [Disk.viewAt, Disk.namesAt, blankDisk, List.take_nil]
    rfl
  constructor
  · exact blankDisk_sound
  · rfl
  · rintro v ⟨k, rfl⟩
    exact hviewAt k

theorem Lived.simulated {hs : List (Happening String Record)}
    (h : Lived K hs d) : ∃ s : Store String Bytes,
      Store.empty.Steps (hs.map (Happening.map Record.toVec)) s ∧
        Represents recordName d s := by
  induction h with
  | blank => exact ⟨_, .nil, represents_blankDisk⟩
  | @save hs d d' id uuid r es result _ hexec ih =>
      obtain ⟨s, hs, hd⟩ := ih
      rw [List.map_append, List.map_singleton]
      by_cases huuid : K.uuidParses id = true
      · obtain ⟨hreplacing, hreturn⟩ :=
          (saveFile_throughout huuid hd.sound).exec hexec
        apply (hd.attempt hreplacing ?_).imp
        · rintro s' ⟨hstep, hd'⟩
          exact ⟨hs.snoc hstep, hd'⟩
        · intro done hdone
          obtain ⟨res, rfl, hres⟩ := Option.map_eq_some_iff.mp hdone
          obtain ⟨done', hreplaced, rfl⟩ := hreturn res rfl
          cases done' with
          | true => exact hres ▸ hreplaced
          | false => exact hres ▸ hreplaced
      · obtain ⟨rfl, hresult⟩ := saveFile_invalid huuid hexec
        refine ⟨s, hs.snoc (.ineffective s id r.toVec ?_), hd⟩
        rcases hresult with rfl | rfl
        · nofun
        · nofun
  | powerLoss _ hloss ih =>
      obtain ⟨s, hs, hd⟩ := ih
      obtain ⟨s', hstep, hd'⟩ := hd.powerLoss hloss
      rw [List.map_append, List.map_singleton]
      exact ⟨s', hs.snoc hstep, hd'⟩

/-- What a mediator loads after any life of its state directory is a whole
record: the one of an attempt at a save, with no save of the task that returned
after it.  Nothing is found only where no save of the task returned. -/
theorem lived_record_latest {hs : List (Happening String Record)}
    (h : Lived K hs d)
    (hsafe : ∀ id r result, .attempt id r result ∈ hs → r.Safe)
    (id : String) : Store.Latest id hs ((stateDir d).record id) := by
  obtain ⟨s, hs', hd⟩ := h.simulated
  obtain ⟨hcurrent, hlatest⟩ := hs'.latest
  have hbytes := hlatest _ hcurrent id
  rw [hd.current] at hbytes
  obtain ⟨o, ho, hview⟩ := hbytes.of_map
  have hrecord : (stateDir d).record id = o := by
    rw [Directory.record, stateDir, hview]
    cases ho with
    | never => rfl
    | attempt hnone =>
        apply Record.decode_toVec
        exact hsafe id _ _ (List.mem_append_right _ List.mem_cons_self)
  rw [hrecord]
  exact ho

/-- A save that returned is what is loaded after a power loss. -/
theorem lived_record_latest_saved : ∃ d,
    Lived Reference.crates
      [.attempt Sample.task₁ Sample.completed (some true), .powerLoss] d ∧
    (stateDir d).record Sample.task₁ = some Sample.completed := by
  obtain ⟨es, d', hexec⟩ := exec_saveFile (d := blankDisk) "0"
    Sample.completed_stored.uuid Sample.completed rfl
  have hlived : Lived Reference.crates
      [.attempt Sample.task₁ Sample.completed (some true), .powerLoss]
      (d'.lost 0 d'.content) :=
    .powerLoss (.save .blank hexec) ⟨0, d'.content, fun _ _ => rfl, rfl⟩
  refine ⟨_, hlived, ?_⟩
  have hsafe : ∀ id r result, .attempt id r result ∈
      [.attempt Sample.task₁ Sample.completed (some true),
        (.powerLoss : Happening String Record)] → r.Safe := by
    intro id r result hmem
    simp only [List.mem_cons, Happening.attempt.injEq, reduceCtorEq,
      List.not_mem_nil, or_false] at hmem
    rw [hmem.2.1]
    exact Sample.completed_stored.safe
  have hlatest := lived_record_latest hlived hsafe Sample.task₁
  generalize (stateDir (d'.lost 0 d'.content)).record Sample.task₁ = o
    at hlatest
  generalize hhs : [.attempt Sample.task₁ Sample.completed (some true),
    (.powerLoss : Happening String Record)] = hs at hlatest
  cases hlatest with
  | never hnone =>
      rw [← hhs] at hnone
      exact absurd List.mem_cons_self (hnone Sample.completed)
  | @attempt before after content result hnone =>
      have hmem : .attempt Sample.task₁ content result ∈
          [.attempt Sample.task₁ Sample.completed (some true),
            (.powerLoss : Happening String Record)] := by
        rw [hhs]
        exact List.mem_append_right _ List.mem_cons_self
      simp only [List.mem_cons, Happening.attempt.injEq, reduceCtorEq,
        List.not_mem_nil, or_false, true_and] at hmem
      rw [hmem.1]

end AgentGateway
