import AgentGateway.Library.Interaction
import Mathlib.Data.Set.Insert
import Mathlib.Logic.Function.Basic

/-!
# Files that survive a power loss

A disk holds a directory and the contents of files, each of them possibly ahead
of what is durable.  A power loss keeps the changes of the directory up to some
point, and the content of every file that was synced.

`replaceFile` writes a temporary file, syncs it, renames it over its target and
syncs the directory.  Seen from outside it is one write of a `Store`, which
never holds a torn content and never loses a write that was confirmed.
-/

namespace AgentGateway.FileSystem

open Interaction

variable {N C I : Type} [DecidableEq N]

/-! ## Programs that may be cut off -/

section Throughout

variable {S : Signature} {σ α : Type}

/-- `J` holds wherever the program may be cut off, and `Q` where it returns. -/
def Throughout (E : Environment S σ) (J : σ → Prop) :
    Prog S α → (σ → α → Prop) → σ → Prop
  | .ret a, Q, s => J s ∧ Q s a
  | .call op next, Q, s => J s ∧ ∀ ans, E.allows s ⟨op, ans⟩ →
      Throughout E J (next ans) Q (E.update s ⟨op, ans⟩)

theorem Throughout.exec {E : Environment S σ} {J : σ → Prop} {p : Prog S α}
    {Q : σ → α → Prop} {s s' : σ} {es : List (Event S)} {r : Option α}
    (hp : Throughout E J p Q s) (hexec : Exec E s p es s' r) :
    J s' ∧ ∀ a, r = some a → Q s' a := by
  induction hexec with
  | cut s p =>
      constructor
      · cases p with
        | ret => exact hp.1
        | call => exact hp.1
      · simp
  | ret s a =>
      constructor
      · exact hp.1
      · intro b hb
        rw [← Option.some.inj hb]
        exact hp.2
  | call hallowed _ ih => exact ih (hp.2 _ hallowed)

theorem Throughout.bind {β : Type} {E : Environment S σ} {J : σ → Prop}
    {p : Prog S α} {f : α → Prog S β} {Q : σ → β → Prop} {s : σ}
    (hp : Throughout E J p (fun s' a => Throughout E J (f a) Q s') s) :
    Throughout E J (p >>= f) Q s := by
  induction p generalizing s with
  | ret a => exact hp.2
  | call op next ih =>
      refine ⟨hp.1, fun ans hallowed => ?_⟩
      exact ih ans (hp.2 ans hallowed)

theorem Throughout.mono {E : Environment S σ} {J : σ → Prop} {p : Prog S α}
    {Q R : σ → α → Prop} {s : σ} (hp : Throughout E J p Q s)
    (h : ∀ s' a, Q s' a → R s' a) : Throughout E J p R s := by
  induction p generalizing s with
  | ret a => exact ⟨hp.1, h s a hp.2⟩
  | call op next ih =>
      refine ⟨hp.1, fun ans hallowed => ?_⟩
      exact ih ans (hp.2 ans hallowed)

end Throughout

/-! ## Disks -/

/-- A change of the directory. -/
inductive Change (N : Type) where
  | link (name : N) (file : ℕ)
  | move (source target : N)

def Change.apply (names : N → Option ℕ) : Change N → N → Option ℕ
  | .link name file => Function.update names name (some file)
  | .move source target =>
      Function.update (Function.update names source none) target (names source)

structure Disk (N C : Type) where
  /-- The directory as it is durable. -/
  synced : N → Option ℕ
  /-- The changes made to it since. -/
  changes : List (Change N)
  content : ℕ → C
  /-- The files whose content is durable. -/
  clean : ℕ → Bool
  /-- No file has this number, or a greater one. -/
  fresh : ℕ

namespace Disk

variable (d : Disk N C)

/-- The directory after the first `k` of the changes. -/
def namesAt (k : ℕ) : N → Option ℕ := (d.changes.take k).foldl Change.apply d.synced

def names : N → Option ℕ := d.changes.foldl Change.apply d.synced

/-- The disk after a power loss that kept `k` of the changes. -/
def lost (k : ℕ) (content : ℕ → C) : Disk N C where
  synced := d.namesAt k
  changes := []
  content := content
  clean := fun _ => true
  fresh := d.fresh

def PowerLoss (d d' : Disk N C) : Prop :=
  ∃ k content, (∀ file, d.clean file = true →
    content file = d.content file) ∧ d' = d.lost k content

def link (name : N) (content : C) : Disk N C :=
  { d with
    changes := d.changes ++ [.link name d.fresh]
    content := Function.update d.content d.fresh content
    clean := Function.update d.clean d.fresh false
    fresh := d.fresh + 1 }

def write (file : ℕ) (content : C) : Disk N C :=
  { d with
    content := Function.update d.content file content
    clean := Function.update d.clean file false }

def syncFile (file : ℕ) : Disk N C :=
  { d with clean := Function.update d.clean file true }

def move (source target : N) : Disk N C :=
  { d with changes := d.changes ++ [.move source target] }

def syncDir : Disk N C := { d with synced := d.names, changes := [] }

/-- What is read under a name. -/
def read (name : N) : Option C := (d.names name).map d.content

end Disk

/-! ## System calls -/

/-- How much of a content was written. -/
inductive Written (C : Type) where
  | all
  | part (content : C)

inductive Op (N C : Type) where
  /-- `create_new`: an error if there is a file of this name. -/
  | create (name : N)
  | write (file : ℕ) (content : C)
  | syncFile (file : ℕ)
  | rename (source target : N)
  | syncDir

/-- The answers: the new file, what was written, and otherwise success. -/
@[reducible]
def Op.Ans : Op N C → Type
  | .create _ => Option ℕ
  | .write _ _ => Written C
  | .syncFile _ => Bool
  | .rename _ _ => Bool
  | .syncDir => Bool

abbrev calls (N C : Type) : Signature := ⟨Op N C, Op.Ans⟩

def allows (d : Disk N C) : Event (calls N C) → Prop
  | ⟨.create name, (some file : Option ℕ)⟩ =>
      d.names name = none ∧ file = d.fresh
  | _ => True

def update [Inhabited C] (d : Disk N C) : Event (calls N C) → Disk N C
  | ⟨.create name, (some _ : Option ℕ)⟩ => d.link name default
  | ⟨.write file content, (.all : Written C)⟩ => d.write file content
  | ⟨.write file _, (.part content : Written C)⟩ => d.write file content
  | ⟨.syncFile file, (true : Bool)⟩ => d.syncFile file
  | ⟨.rename source target, (true : Bool)⟩ => d.move source target
  | ⟨.syncDir, (true : Bool)⟩ => d.syncDir
  | _ => d

variable (N C) in
def disk [Inhabited C] : Environment (calls N C) (Disk N C) := ⟨allows, update⟩

/-- Replace a file by way of a temporary one: whether nothing failed. -/
def replaceFile (temp target : N) (content : C) : Prog (calls N C) Bool :=
  .call (.create temp) fun (created : Option ℕ) =>
    match created with
    | none => .ret false
    | some file =>
        .call (.write file content) fun (written : Written C) =>
          match written with
          | .part _ => .ret false
          | .all =>
              .call (.syncFile file) fun (synced : Bool) =>
                if synced then
                  .call (.rename temp target) fun (moved : Bool) =>
                    if moved then .call .syncDir fun (done : Bool) => .ret done
                    else .ret false
                else .ret false

/-- A replacement at which nothing fails. -/
theorem exec_replaceFile [Inhabited C] {d : Disk N C} (temp target : N)
    (content : C) (hnew : d.names temp = none) : ∃ es d',
      Exec (disk N C) d (replaceFile temp target content) es d'
        (some true) := by
  refine ⟨[⟨Op.create temp, some d.fresh⟩,
    ⟨Op.write d.fresh content, Written.all⟩, ⟨Op.syncFile d.fresh, true⟩,
    ⟨Op.rename temp target, true⟩, ⟨Op.syncDir, true⟩],
    ((((d.link temp default).write d.fresh content).syncFile d.fresh).move temp
      target).syncDir, ?_⟩
  apply Exec.call
  · exact ⟨hnew, rfl⟩
  · exact .call trivial <| .call trivial <| .call trivial <|
      .call trivial (.ret _ _)

/-! ## What is seen of a disk -/

section Views

variable {path : I → N}

namespace Disk

variable {d : Disk N C}

theorem namesAt_length (d : Disk N C) :
    d.namesAt d.changes.length = d.names := by
  rw [namesAt, List.take_length, names]

/-- One more change shows at the end only. -/
theorem namesAt_snoc {e : Disk N C} {c : Change N} {k : ℕ}
    (hsynced : e.synced = d.synced) (hchanges : e.changes = d.changes ++ [c]) :
    e.namesAt k =
      if k ≤ d.changes.length then d.namesAt k else c.apply d.names := by
  rw [namesAt, hsynced, hchanges]
  by_cases hk : k ≤ d.changes.length
  · rw [if_pos hk, List.take_append_of_le_length hk, namesAt]
  · have hlength : (d.changes ++ [c]).length ≤ k := by
      rw [List.length_append, List.length_singleton]
      omega
    rw [if_neg hk, List.take_of_length_le hlength, List.foldl_append, names]
    rfl

theorem namesAt_link (d : Disk N C) (name : N) (content : C) (k : ℕ) :
    (d.link name content).namesAt k = if k ≤ d.changes.length then d.namesAt k
      else (Change.link name d.fresh).apply d.names :=
  namesAt_snoc rfl rfl

theorem namesAt_move (d : Disk N C) (source target : N) (k : ℕ) :
    (d.move source target).namesAt k = if k ≤ d.changes.length then d.namesAt k
      else (Change.move source target).apply d.names :=
  namesAt_snoc rfl rfl

variable (path) in
/-- The contents of the files of interest, after `k` of the changes. -/
def viewAt (d : Disk N C) (k : ℕ) (i : I) : Option C :=
  (d.namesAt k (path i)).map d.content

variable (path) in
/-- The contents of the files of interest. -/
def view (d : Disk N C) (i : I) : Option C := d.read (path i)

variable (path) in
/-- What may be left of the files of interest by a power loss. -/
def views (d : Disk N C) : Set (I → Option C) := Set.range (d.viewAt path)

variable (path) in
/-- Wherever a power loss cuts the changes off, the files of interest have
durable contents. -/
def Sound (d : Disk N C) : Prop :=
  ∀ k i file, d.namesAt k (path i) = some file →
    d.clean file = true ∧ file < d.fresh

theorem viewAt_length : d.viewAt path d.changes.length = d.view path := by
  funext i
  rw [viewAt, namesAt_length, view, read]

theorem Sound.lost {d' : Disk N C} (hd : d.Sound path) (h : PowerLoss d d') :
    d'.Sound path ∧ d'.view path ∈ d.views path ∧
      d'.views path = {d'.view path} := by
  obtain ⟨k, content, hcontent, rfl⟩ := h
  have hnames : ∀ j, (d.lost k content).namesAt j = d.namesAt k := by
    intro j
    rw [namesAt, Disk.lost, List.take_nil, List.foldl_nil]
  have hview : ∀ j, (d.lost k content).viewAt path j = d.viewAt path k := by
    intro j
    funext i
    rw [viewAt, viewAt, hnames]
    by_cases hnone : d.namesAt k (path i) = none
    · rw [hnone]
      rfl
    · obtain ⟨file, hfile⟩ := Option.ne_none_iff_exists'.mp hnone
      rw [hfile]
      exact congrArg some (hcontent file (hd k i file hfile).1)
  have hcurrent : (d.lost k content).view path = d.viewAt path k := by
    rw [← viewAt_length]
    exact hview _
  constructor
  · intro j i file hfile
    rw [hnames] at hfile
    exact ⟨rfl, (hd k i file hfile).2⟩
  · constructor
    · rw [hcurrent]
      exact Set.mem_range_self k
    · rw [hcurrent]
      apply Set.Subset.antisymm
      · intro v hv
        obtain ⟨j, rfl⟩ := hv
        exact hview j
      · intro v hv
        rw [hv]
        exact ⟨0, hview 0⟩

/-- The synced directory is all that is left of it. -/
theorem Sound.syncDir (h : d.Sound path) :
    d.syncDir.Sound path ∧ d.syncDir.view path = d.view path ∧
      d.syncDir.views path = {d.view path} := by
  have hnames : ∀ k, d.syncDir.namesAt k = d.names := by
    intro k
    rw [namesAt, Disk.syncDir, List.take_nil, List.foldl_nil]
  have hviewAt : ∀ k, d.syncDir.viewAt path k = d.view path := by
    intro k
    funext i
    rw [viewAt, hnames]
    rfl
  constructor
  · intro k i f hf
    rw [hnames, ← namesAt_length] at hf
    exact h _ i f hf
  · constructor
    · rw [← viewAt_length, hviewAt]
    · apply Set.Subset.antisymm
      · intro v hv
        obtain ⟨k, rfl⟩ := hv
        exact hviewAt k
      · intro v hv
        rw [hv]
        exact ⟨0, hviewAt 0⟩

end Disk

/-- The views are what power losses leave. -/
theorem Disk.Sound.mem_views_iff {d : Disk N C} (hd : d.Sound path)
    {v : I → Option C} :
    v ∈ d.views path ↔ ∃ d', d.PowerLoss d' ∧ d'.view path = v := by
  constructor
  · rintro ⟨k, rfl⟩
    refine ⟨d.lost k d.content, ⟨k, d.content, fun _ _ => rfl, rfl⟩, ?_⟩
    funext i
    rw [← viewAt_length]
    rfl
  · rintro ⟨d', hloss, rfl⟩
    exact (hd.lost hloss).2.1

/-! ## One replacement -/

variable (path) in
/-- A temporary file of its own, next to an unchanged view. -/
structure Staged (d₀ : Disk N C) (temp : N) (file : ℕ) (d : Disk N C) :
    Prop where
  sound : d.Sound path
  views : d.views path = d₀.views path
  view : d.view path = d₀.view path
  linked : d.names temp = some file
  unlinked : ∀ k i, d.namesAt k (path i) ≠ some file
  old : file < d.fresh

variable {d d₀ : Disk N C} {temp : N} {file : ℕ}

theorem Staged.of_link (hd : d.Sound path) (htemp : ∀ i, path i ≠ temp)
    (content : C) :
    Staged path d temp d.fresh (d.link temp content) := by
  have hnames : ∀ k i, (d.link temp content).namesAt k (path i) =
      d.namesAt (min k d.changes.length) (path i) := by
    intro k i
    rw [Disk.namesAt_link]
    by_cases hk : k ≤ d.changes.length
    · rw [if_pos hk, Nat.min_eq_left hk]
    · rw [if_neg hk, Nat.min_eq_right (by omega), Disk.namesAt_length]
      exact Function.update_of_ne (htemp i) _ _
  have hviewAt : ∀ k, (d.link temp content).viewAt path k =
      d.viewAt path (min k d.changes.length) := by
    intro k
    funext i
    rw [Disk.viewAt, Disk.viewAt, hnames]
    by_cases hnone : d.namesAt (min k d.changes.length) (path i) = none
    · rw [hnone]
      rfl
    · obtain ⟨file, hfile⟩ := Option.ne_none_iff_exists'.mp hnone
      rw [hfile]
      have hne : file ≠ d.fresh := (hd _ i file hfile).2.ne
      exact congrArg some (Function.update_of_ne hne _ _)
  have hunlinked : ∀ k i,
      (d.link temp content).namesAt k (path i) ≠ some d.fresh := by
    intro k i h
    rw [hnames] at h
    exact (hd _ i _ h).2.ne rfl
  constructor
  · intro k i file hfile
    rw [hnames] at hfile
    obtain ⟨hclean, hold⟩ := hd _ i file hfile
    constructor
    · rw [← hclean]
      exact Function.update_of_ne hold.ne _ _
    · exact Nat.lt_succ_of_lt hold
  · apply Set.Subset.antisymm
    · intro v hv
      obtain ⟨k, rfl⟩ := hv
      rw [hviewAt]
      exact Set.mem_range_self _
    · intro v hv
      obtain ⟨k, rfl⟩ := hv
      by_cases hk : k ≤ d.changes.length
      · refine ⟨k, ?_⟩
        rw [hviewAt, Nat.min_eq_left hk]
      · refine ⟨d.changes.length, ?_⟩
        rw [hviewAt, Nat.min_self]
        funext i
        rw [Disk.viewAt, Disk.viewAt, Disk.namesAt_length, Disk.namesAt,
          List.take_of_length_le (by omega), Disk.names]
  · rw [← Disk.viewAt_length, hviewAt, ← Disk.viewAt_length]
    congr 1
    apply Nat.min_eq_right
    rw [Disk.link, List.length_append]
    omega
  · rw [Disk.names, Disk.link, List.foldl_append]
    exact Function.update_self _ _ _
  · exact hunlinked
  · exact Nat.lt_succ_self _

/-- A change of the temporary file alone. -/
theorem Staged.touch {e : Disk N C} (h : Staged path d₀ temp file d)
    (hsynced : e.synced = d.synced) (hchanges : e.changes = d.changes)
    (hcontent : ∀ f, f ≠ file → e.content f = d.content f)
    (hclean : ∀ f, f ≠ file → e.clean f = d.clean f)
    (hfresh : e.fresh = d.fresh) : Staged path d₀ temp file e := by
  have hnames : ∀ k, e.namesAt k = d.namesAt k := by
    intro k
    rw [Disk.namesAt, Disk.namesAt, hsynced, hchanges]
  have hviewAt : ∀ k, e.viewAt path k = d.viewAt path k := by
    intro k
    funext i
    rw [Disk.viewAt, Disk.viewAt, hnames]
    by_cases hnone : d.namesAt k (path i) = none
    · rw [hnone]
      rfl
    · obtain ⟨f, hf⟩ := Option.ne_none_iff_exists'.mp hnone
      rw [hf]
      have hne : f ≠ file := by
        rintro rfl
        exact h.unlinked k i hf
      exact congrArg some (hcontent f hne)
  constructor
  · intro k i f hf
    rw [hnames] at hf
    have hne : f ≠ file := by
      rintro rfl
      exact h.unlinked k i hf
    rw [hclean f hne, hfresh]
    exact h.sound k i f hf
  · rw [← h.views, Disk.views, Disk.views, funext hviewAt]
  · rw [← h.view, ← Disk.viewAt_length, ← Disk.viewAt_length, hviewAt,
      hchanges]
  · rw [← h.linked, Disk.names, Disk.names, hsynced, hchanges]
  · intro k i
    rw [hnames]
    exact h.unlinked k i
  · rw [hfresh]
    exact h.old

/-- The view after a write of one file. -/
def written [DecidableEq I] (v : I → Option C) (i : I) (content : C) : I → Option C :=
  Function.update v i (some content)

variable [DecidableEq I] {content : C} {i : I}

variable (path) in
/-- The rename has been made, and is not yet durable. -/
structure Moved (d₀ : Disk N C) (i : I) (content : C) (d : Disk N C) :
    Prop where
  sound : d.Sound path
  views : d.views path ⊆ insert (written (d₀.view path) i content) (d₀.views path)
  view : d.view path = written (d₀.view path) i content

theorem Moved.of_move (hpath : Function.Injective path)
    (htemp : ∀ j, path j ≠ temp) (h : Staged path d₀ temp file d)
    (hclean : d.clean file = true) (hcontent : d.content file = content) :
    Moved path d₀ i content (d.move temp (path i)) := by
  have hlast : ∀ j, (Change.move temp (path i)).apply d.names (path j) =
      if j = i then some file else d.names (path j) := by
    intro j
    rw [Change.apply, h.linked]
    by_cases hj : j = i
    · rw [if_pos hj, hj]
      exact Function.update_self _ _ _
    · rw [if_neg hj, Function.update_of_ne (fun heq => hj (hpath heq)),
        Function.update_of_ne (htemp j)]
  have hnames : ∀ k j, (d.move temp (path i)).namesAt k (path j) =
      if k ≤ d.changes.length then d.namesAt k (path j)
      else if j = i then some file else d.names (path j) := by
    intro k j
    rw [Disk.namesAt_move]
    by_cases hk : k ≤ d.changes.length
    · rw [if_pos hk, if_pos hk]
    · rw [if_neg hk, if_neg hk, hlast]
  have hcurrent : (d.move temp (path i)).view path =
      written (d₀.view path) i content := by
    funext j
    rw [← Disk.viewAt_length, Disk.viewAt, hnames, Disk.move,
      List.length_append, List.length_singleton, if_neg (by omega), ← h.view]
    by_cases hj : j = i
    · rw [if_pos hj, hj, written, Function.update_self, ← hcontent]
      rfl
    · rw [if_neg hj, written, Function.update_of_ne hj]
      rfl
  constructor
  · intro k j f hf
    rw [hnames] at hf
    by_cases hk : k ≤ d.changes.length
    · rw [if_pos hk] at hf
      exact h.sound k j f hf
    · rw [if_neg hk] at hf
      by_cases hj : j = i
      · rw [if_pos hj, Option.some.injEq] at hf
        rw [← hf]
        exact ⟨hclean, h.old⟩
      · rw [if_neg hj, ← Disk.namesAt_length] at hf
        exact h.sound _ j f hf
  · intro v hv
    obtain ⟨k, rfl⟩ := hv
    by_cases hk : k ≤ d.changes.length
    · right
      rw [← h.views]
      refine ⟨k, ?_⟩
      funext j
      rw [Disk.viewAt, Disk.viewAt, hnames, if_pos hk]
      rfl
    · left
      rw [← hcurrent, ← Disk.viewAt_length]
      have hlength : ¬(d.move temp (path i)).changes.length ≤
          d.changes.length := by
        rw [Disk.move, List.length_append, List.length_singleton]
        omega
      funext j
      rw [Disk.viewAt, Disk.viewAt, hnames, hnames, if_neg hk, if_neg hlength]
  · exact hcurrent

theorem Moved.syncDir_views (h : Moved path d₀ i content d) :
    d.syncDir.views path = {d.syncDir.view path} := by
  obtain ⟨-, hview, hviews⟩ := h.sound.syncDir
  rw [hviews, hview]

theorem Moved.syncDir (h : Moved path d₀ i content d) :
    Moved path d₀ i content d.syncDir := by
  obtain ⟨hsound, hview, hviews⟩ := h.sound.syncDir
  constructor
  · exact hsound
  · rw [hviews, h.view, Set.singleton_subset_iff]
    exact Set.mem_insert _ _
  · rw [hview, h.view]

variable (path) in
/-- Where a replacement may be cut off: before its write is seen or after. -/
inductive Replacing (d₀ : Disk N C) (i : I) (content : C) (d : Disk N C) : Prop
  | before : d.Sound path → d.views path = d₀.views path →
      d.view path = d₀.view path → Replacing d₀ i content d
  | after : Moved path d₀ i content d → Replacing d₀ i content d

theorem Staged.replacing (h : Staged path d₀ temp file d) :
    Replacing path d₀ i content d := .before h.sound h.views h.view

variable (path) in
/-- How a replacement ends: its write is durable, or there was an error. -/
def Replaced (d₀ : Disk N C) (i : I) (content : C) (d : Disk N C)
    (done : Bool) : Prop :=
  Replacing path d₀ i content d ∧
    (done = true → d.view path = written (d₀.view path) i content ∧
      d.views path = {d.view path})

theorem Replacing.failed (h : Replacing path d₀ i content d) :
    Replaced path d₀ i content d false := ⟨h, nofun⟩

theorem replaceFile_throughout [Inhabited C] (hpath : Function.Injective path)
    (htemp : ∀ j, path j ≠ temp) (hd : d.Sound path) :
    Throughout (disk N C) (Replacing path d i content)
      (replaceFile temp (path i) content) (Replaced path d i content) d := by
  have hstart : Replacing path d i content d := .before hd rfl rfl
  refine ⟨hstart, fun created hcreated => ?_⟩
  cases created with
  | none => exact ⟨hstart, hstart.failed⟩
  | some file =>
      obtain ⟨-, rfl⟩ := hcreated
      have hlink := Staged.of_link hd htemp (default : C)
      refine ⟨hlink.replacing, fun written _ => ?_⟩
      have hwrite : ∀ c : C, Staged path d temp d.fresh
          ((d.link temp default).write d.fresh c) := fun c =>
        hlink.touch rfl rfl (fun f hf => Function.update_of_ne hf _ _)
          (fun f hf => Function.update_of_ne hf _ _) rfl
      cases written with
      | part c => exact ⟨(hwrite c).replacing, (hwrite c).replacing.failed⟩
      | all =>
          refine ⟨(hwrite content).replacing, fun synced _ => ?_⟩
          cases synced with
          | false =>
              exact ⟨(hwrite content).replacing,
                (hwrite content).replacing.failed⟩
          | true =>
              have hsync : Staged path d temp d.fresh
                  (((d.link temp default).write d.fresh content).syncFile
                    d.fresh) :=
                (hwrite content).touch rfl rfl (fun _ _ => rfl)
                  (fun f hf => Function.update_of_ne hf _ _) rfl
              refine ⟨hsync.replacing, fun moved _ => ?_⟩
              cases moved with
              | false => exact ⟨hsync.replacing, hsync.replacing.failed⟩
              | true =>
                  have hmove : Moved path d i content _ :=
                    .of_move hpath htemp hsync
                      (Function.update_self _ _ _) (Function.update_self _ _ _)
                  refine ⟨.after hmove, fun done _ => ?_⟩
                  cases done with
                  | false => exact ⟨.after hmove, (Replacing.after hmove).failed⟩
                  | true =>
                      exact ⟨.after hmove.syncDir, .after hmove.syncDir,
                        fun _ => ⟨hmove.syncDir.view, hmove.syncDir_views⟩⟩

/-! ## Stores -/

/-- What happens to a store: an attempt at a write, with its result unless it
was cut off, or a power loss. -/
inductive Happening (I C : Type) where
  | attempt (i : I) (content : C) (result : Option Bool)
  | powerLoss

/-- The same happenings, with contents in another form. -/
def Happening.map {D : Type} (f : C → D) : Happening I C → Happening I D
  | .attempt i content result => .attempt i (f content) result
  | .powerLoss => .powerLoss

/-- A store of contents, and what a power loss may leave of it. -/
structure Store (I C : Type) where
  current : I → Option C
  possible : Set (I → Option C)

namespace Store

def empty : Store I C := ⟨fun _ => none, {fun _ => none}⟩

/-- A confirmed write is durable; any other one is in effect as a whole or not
at all, and not durable. -/
inductive Step : Store I C → Happening I C → Store I C → Prop
  | confirmed (s : Store I C) (i : I) (content : C) :
      Step s (.attempt i content (some true))
        ⟨written s.current i content, {written s.current i content}⟩
  | ineffective (s : Store I C) (i : I) (content : C) {result : Option Bool} :
      result ≠ some true → Step s (.attempt i content result) s
  | effective (s : Store I C) (i : I) (content : C) {result : Option Bool} :
      result ≠ some true → Step s (.attempt i content result)
        ⟨written s.current i content,
          insert (written s.current i content) s.possible⟩
  | powerLoss (s : Store I C) {v : I → Option C} : v ∈ s.possible →
      Step s .powerLoss ⟨v, {v}⟩

inductive Steps (s : Store I C) : List (Happening I C) → Store I C → Prop
  | nil : Steps s [] s
  | snoc {hs : List (Happening I C)} {h : Happening I C} {s' s'' : Store I C} :
      Steps s hs s' → Step s' h s'' → Steps s (hs ++ [h]) s''

/-- Nothing was confirmed for `i`. -/
def Unconfirmed (i : I) (hs : List (Happening I C)) : Prop :=
  ∀ content, Happening.attempt i content (some true) ∉ hs

/-- The content of an attempt after which nothing was confirmed. -/
inductive Latest (i : I) : List (Happening I C) → Option C → Prop
  | never {hs : List (Happening I C)} : Unconfirmed i hs → Latest i hs none
  | attempt {hs gs : List (Happening I C)} {content : C} {result : Option Bool} :
      Unconfirmed i gs →
        Latest i (hs ++ .attempt i content result :: gs) (some content)

omit [DecidableEq I] in
theorem Latest.snoc {hs : List (Happening I C)} {h : Happening I C}
    {o : Option C} (hlatest : Latest i hs o)
    (hh : ∀ content, h ≠ .attempt i content (some true)) :
    Latest i (hs ++ [h]) o := by
  cases hlatest with
  | never hnone =>
      apply Latest.never
      intro content hmem
      rw [List.mem_append, List.mem_singleton] at hmem
      exact hmem.elim (hnone content) (fun heq => hh content heq.symm)
  | attempt hnone =>
      rw [List.append_assoc, List.cons_append]
      apply Latest.attempt
      intro content hmem
      rw [List.mem_append, List.mem_singleton] at hmem
      exact hmem.elim (hnone content) (fun heq => hh content heq.symm)

omit [DecidableEq I] in
theorem latest_attempt (hs : List (Happening I C)) (i : I) (content : C)
    (result : Option Bool) :
    Latest i (hs ++ [.attempt i content result]) (some content) :=
  .attempt (fun _ hmem => List.not_mem_nil hmem)

theorem latest_written {hs : List (Happening I C)} {v : I → Option C}
    {j : I} {result : Option Bool}
    (hv : Latest j hs (v j)) :
    Latest j (hs ++ [.attempt i content result]) (written v i content j) := by
  by_cases hj : j = i
  · rw [hj, written, Function.update_self]
    exact latest_attempt hs i content result
  · rw [written, Function.update_of_ne hj]
    apply hv.snoc
    intro c heq
    injection heq with hi
    exact hj hi.symm

/-- Whatever a power loss may leave is the content of an attempt that no
confirmed one came after. -/
theorem Steps.latest {hs : List (Happening I C)} {s : Store I C}
    (h : Steps empty hs s) :
    s.current ∈ s.possible ∧ ∀ v ∈ s.possible, ∀ j, Latest j hs (v j) := by
  induction h with
  | nil =>
      constructor
      · exact Set.mem_singleton _
      · intro v hv j
        rw [Set.mem_singleton_iff.mp hv]
        exact .never (fun _ hmem => List.not_mem_nil hmem)
  | snoc _ hstep ih =>
      obtain ⟨hcurrent, hlatest⟩ := ih
      cases hstep with
      | confirmed i content =>
          constructor
          · exact Set.mem_singleton _
          · intro v hv j
            rw [Set.mem_singleton_iff.mp hv]
            exact latest_written (hlatest _ hcurrent j)
      | ineffective i content hresult =>
          constructor
          · exact hcurrent
          · intro v hv j
            apply (hlatest v hv j).snoc
            intro c heq
            injection heq with _ _ hr
            exact hresult hr
      | effective i content hresult =>
          constructor
          · exact Set.mem_insert _ _
          · intro v hv j
            rcases Set.mem_insert_iff.mp hv with rfl | hold
            · exact latest_written (hlatest _ hcurrent j)
            · apply (hlatest v hold j).snoc
              intro c heq
              injection heq with _ _ hr
              exact hresult hr
      | powerLoss hv =>
          constructor
          · exact Set.mem_singleton _
          · intro v' hv' j
            rw [Set.mem_singleton_iff.mp hv']
            exact (hlatest _ hv j).snoc nofun

omit [DecidableEq I] in
theorem Latest.of_map {D : Type} {f : C → D} {hs : List (Happening I C)}
    {i : I} {o : Option D} (h : Latest i (hs.map (Happening.map f)) o) :
    ∃ o', Latest i hs o' ∧ o = o'.map f := by
  have hunconfirmed : ∀ gs : List (Happening I C),
      Unconfirmed i (gs.map (Happening.map f)) → Unconfirmed i gs :=
    fun gs hgs content hmem => hgs (f content) (List.mem_map_of_mem hmem)
  generalize hmap : hs.map (Happening.map f) = ks at h
  cases h with
  | never hnone =>
      rw [← hmap] at hnone
      exact ⟨none, .never (hunconfirmed hs hnone), rfl⟩
  | attempt hnone =>
      obtain ⟨hs₁, rest, rfl, -, hrest⟩ := List.map_eq_append_iff.mp hmap
      obtain ⟨h, hs₂, rfl, hh, rfl⟩ := List.map_eq_cons_iff.mp hrest
      cases h with
      | powerLoss => cases hh
      | attempt j content result =>
          cases hh
          exact ⟨some content, .attempt (hunconfirmed hs₂ hnone), rfl⟩

end Store

/-! ## Disks as stores -/

variable (path) in
structure Represents (d : Disk N C) (s : Store I C) : Prop where
  sound : d.Sound path
  current : s.current = d.view path
  possible : d.views path ⊆ s.possible

/-- One replacement is one step of the store. -/
theorem Represents.attempt {s : Store I C} {d' : Disk N C}
    {result : Option Bool} (h : Represents path d s)
    (hreplacing : Replacing path d i content d')
    (hreturn : ∀ done, result = some done → Replaced path d i content d' done) :
    ∃ s', s.Step (.attempt i content result) s' ∧ Represents path d' s' := by
  have hwritten : written s.current i content =
      written (d.view path) i content := by rw [h.current]
  by_cases hresult : result = some true
  · subst hresult
    obtain ⟨hreplaced, hdone⟩ := hreturn true rfl
    obtain ⟨hview, hviews⟩ := hdone rfl
    refine ⟨_, .confirmed s i content, ?_, ?_, ?_⟩
    · cases hreplaced with
      | before hsound => exact hsound
      | after hmoved => exact hmoved.sound
    · rw [hview, hwritten]
    · rw [hviews, hview, hwritten]
  · cases hreplacing with
    | before hsound hviews hview =>
        refine ⟨s, .ineffective s i content hresult, hsound, ?_, ?_⟩
        · rw [h.current, hview]
        · rw [hviews]
          exact h.possible
    | after hmoved =>
        refine ⟨_, .effective s i content hresult, hmoved.sound, ?_, ?_⟩
        · rw [hmoved.view, hwritten]
        · rw [hwritten]
          exact hmoved.views.trans (Set.insert_subset_insert h.possible)

theorem Represents.powerLoss {s : Store I C} {d' : Disk N C}
    (h : Represents path d s) (hloss : d.PowerLoss d') :
    ∃ s', s.Step .powerLoss s' ∧ Represents path d' s' := by
  obtain ⟨hsound, hmem, hviews⟩ := h.sound.lost hloss
  refine ⟨_, .powerLoss s (h.possible hmem), hsound, rfl, ?_⟩
  rw [hviews]

end Views

end AgentGateway.FileSystem
