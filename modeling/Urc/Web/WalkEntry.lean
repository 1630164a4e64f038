import Mathlib.Data.List.Lex
import Mathlib.Logic.Function.Iterate
import Urc.Web.Drop

/-! # Walks through dropped directories

Each call of `walkEntry` returns a promise, which waits for the browser or for the walk of an entry
below. The walk is followed here from answer to answer of the browser, over trees of which some
reads may fail.
-/

namespace Urc

/-! ### The walk, answer by answer -/

/-- What a promise waits for: the answer of `file`, the next answer of `readEntries`, or, in the
loop over a batch, the promise of an entry. The prefix in a directory ends with its name. -/
inductive Waiting
  | file (name path : String) (opens : Bool)
  | read (pre : String) (reads : List (List FsEntry)) (fails : Bool)
  | batch (pre : String) (entries : List FsEntry) (reads : List (List FsEntry)) (fails : Bool)

/-- The promises that are not resolved, each one awaited by the next, and the array. -/
structure Walk where
  pending : List Waiting
  out : List UploadFile

namespace Walk

/-- A call of `walkEntry`, up to where it waits. The promise of another entry is resolved at
once. -/
def call (pre : String) (e : FsEntry) (w : Walk) : Walk :=
  match e with
  | .file name opens => { w with pending := .file name (pre ++ name) opens :: w.pending }
  | .directory name reads fails =>
    { w with pending := .read (pre ++ name ++ "/") reads fails :: w.pending }
  | .other => w

/-- The browser answers what the innermost promise waits for, or the loop of it goes on. -/
def step (w : Walk) : Walk :=
  match w.pending with
  | [] => w
  | .file name path opens :: pending =>
    if opens then ⟨pending, w.out ++ [⟨name, path⟩]⟩ else ⟨pending, w.out⟩
  -- The empty batch at the end of a directory and an error both resolve.
  | .read _ [] _ :: pending => ⟨pending, w.out⟩
  | .read pre (entries :: reads) fails :: pending =>
    if entries.isEmpty then ⟨pending, w.out⟩
    else ⟨.batch pre entries reads fails :: pending, w.out⟩
  | .batch pre [] reads fails :: pending => ⟨.read pre reads fails :: pending, w.out⟩
  | .batch pre (e :: entries) reads fails :: pending =>
    call pre e ⟨.batch pre entries reads fails :: pending, w.out⟩

def Reaches (w w' : Walk) : Prop := ∃ n, step^[n] w = w'

variable {w w' w'' : Walk}

theorem Reaches.refl (w : Walk) : w.Reaches w := ⟨0, rfl⟩

theorem Reaches.trans (h : w.Reaches w') (h' : w'.Reaches w'') : w.Reaches w'' := by
  obtain ⟨n, rfl⟩ := h
  obtain ⟨m, rfl⟩ := h'
  exact ⟨m + n, Function.iterate_add_apply step m n w⟩

theorem Reaches.head (h : w.step.Reaches w') : w.Reaches w' := .trans ⟨1, rfl⟩ h

mutual

theorem reaches_walkEntry (pre : String) (pending : List Waiting) (out : List UploadFile) :
    ∀ e : FsEntry, (call pre e ⟨pending, out⟩).Reaches ⟨pending, out ++ e.walkEntry pre⟩
  | .file name opens => by
    apply Reaches.head
    cases opens with
    | true => exact .refl _
    | false =>
      rw [FsEntry.walkEntry, if_neg (by decide), List.append_nil]
      exact .refl _
  | .directory name reads fails => reaches_walkReads (pre ++ name ++ "/") pending out fails reads
  | .other => by
    rw [FsEntry.walkEntry, List.append_nil]
    exact .refl _

theorem reaches_walkReads (pre : String) (pending : List Waiting) (out : List UploadFile)
    (fails : Bool) : ∀ reads : List (List FsEntry),
      Reaches ⟨.read pre reads fails :: pending, out⟩
        ⟨pending, out ++ FsEntry.walkReads pre reads⟩
  | [] => by
    apply Reaches.head
    rw [FsEntry.walkReads, List.append_nil]
    exact .refl _
  | [] :: reads => by
    apply Reaches.head
    rw [FsEntry.walkReads, if_pos List.isEmpty_nil, List.append_nil]
    exact .refl _
  | (e :: entries) :: reads => by
    apply Reaches.head
    apply (reaches_walkEntries pre pending out fails reads (e :: entries)).trans
    apply Reaches.head
    rw [FsEntry.walkReads, if_neg (by simp), ← List.append_assoc]
    exact reaches_walkReads pre pending _ fails reads

theorem reaches_walkEntries (pre : String) (pending : List Waiting) (out : List UploadFile)
    (fails : Bool) (reads : List (List FsEntry)) : ∀ entries : List FsEntry,
      Reaches ⟨.batch pre entries reads fails :: pending, out⟩
        ⟨.batch pre [] reads fails :: pending, out ++ FsEntry.walkEntries pre entries⟩
  | [] => by
    rw [FsEntry.walkEntries, List.append_nil]
    exact .refl _
  | e :: entries => by
    apply Reaches.head
    apply (reaches_walkEntry pre (.batch pre entries reads fails :: pending) out e).trans
    rw [FsEntry.walkEntries, ← List.append_assoc]
    exact reaches_walkEntries pre pending _ fails reads entries

end

end Walk

/-! ### Trees, and what a walk reaches of them -/

/-- An entry with everything below it. `readEntries` answers with the batches, and then with an
empty one, or with an error if it leaves something unread. -/
inductive FsTree
  | file (name : String) (opens : Bool)
  | directory (name : String) (batches : List (List FsTree)) (unread : Option (List FsTree))
  | other

namespace FsTree

mutual

def entry : FsTree → FsEntry
  | .file name opens => .file name opens
  | .directory name batches unread => .directory name (readsOf batches) unread.isSome
  | .other => .other

def readsOf : List (List FsTree) → List (List FsEntry)
  | [] => []
  | batch :: batches => entriesOf batch :: readsOf batches

def entriesOf : List FsTree → List FsEntry
  | [] => []
  | t :: batch => t.entry :: entriesOf batch

end

def name : FsTree → String
  | .file name _ => name
  | .directory name _ _ => name
  | .other => ""

def shown : FsTree → List FsTree
  | .directory _ batches _ => batches.flatten
  | _ => []

def children : FsTree → List FsTree
  | .directory _ batches unread => batches.flatten ++ unread.getD []
  | _ => []

def subtree (t : FsTree) : List ℕ → Option FsTree
  | [] => some t
  | i :: pos => t.children[i]?.bind (·.subtree pos)

def names (t : FsTree) : List ℕ → List String
  | [] => [t.name]
  | i :: pos => t.name :: (t.children[i]?.map (·.names pos)).getD []

/-- The reads above a position return what is on the way to it. -/
def Reached (t : FsTree) : List ℕ → Prop
  | [] => True
  | i :: pos => i < t.shown.length ∧ ∀ c ∈ t.children[i]?, c.Reached pos

def Pushed (t : FsTree) (pos : List ℕ) : Prop :=
  t.Reached pos ∧ ∃ name, t.subtree pos = some (.file name true)

def upload (t : FsTree) (pre : String) (pos : List ℕ) : UploadFile :=
  ⟨(t.names pos).getLastD "", pre ++ "/".intercalate (t.names pos)⟩

/-- No batch is empty: the empty one ends the directory. -/
def Batched (t : FsTree) : Prop :=
  ∀ pos name batches unread, t.subtree pos = some (.directory name batches unread) → [] ∉ batches

def Succeeds (t : FsTree) : Prop :=
  (∀ pos name opens, t.subtree pos = some (.file name opens) → opens = true) ∧
    ∀ pos name batches unread, t.subtree pos = some (.directory name batches unread) → unread = none

mutual

def positions : FsTree → List (List ℕ)
  | .file _ opens => if opens then [[]] else []
  | .directory _ batches _ => positionsOfReads 0 batches
  | .other => []

/-- `i` is the index of the first child. -/
def positionsOfReads (i : ℕ) : List (List FsTree) → List (List ℕ)
  | [] => []
  | batch :: batches => positionsOfBatch i batch ++ positionsOfReads (i + batch.length) batches

def positionsOfBatch (i : ℕ) : List FsTree → List (List ℕ)
  | [] => []
  | t :: batch => t.positions.map (i :: ·) ++ positionsOfBatch (i + 1) batch

end

/-- Induction over what is shown. -/
theorem induction {motive : FsTree → Prop} (file : ∀ name opens, motive (.file name opens))
    (directory : ∀ name batches unread, (∀ c ∈ batches.flatten, motive c) →
      motive (.directory name batches unread))
    (other : motive .other) (t : FsTree) : motive t := by
  refine @FsTree.rec motive (fun batches => ∀ c ∈ batches.flatten, motive c) (fun _ => True)
    (fun batch => ∀ c ∈ batch, motive c) file ?_ other ?_ ?_ ?_ ?_ ?_ ?_ t
  · exact fun name batches unread hbatches _ => directory name batches unread hbatches
  · exact List.forall_mem_nil motive
  · exact fun batch batches hbatch hbatches => List.forall_mem_append.mpr ⟨hbatch, hbatches⟩
  · trivial
  · exact fun _ _ => trivial
  · exact List.forall_mem_nil motive
  · exact fun t batch ht hbatch => List.forall_mem_cons.mpr ⟨ht, hbatch⟩

/-! ### The positions of a walk -/

theorem positionsOfBatch_append (i : ℕ) (batch batch' : List FsTree) :
    positionsOfBatch i (batch ++ batch') =
      positionsOfBatch i batch ++ positionsOfBatch (i + batch.length) batch' := by
  induction batch generalizing i with
  | nil => rfl
  | cons t batch ih =>
    rw [List.cons_append, positionsOfBatch, positionsOfBatch, ih, List.append_assoc,
      List.length_cons, Nat.add_right_comm, Nat.add_assoc]

theorem positionsOfReads_eq (i : ℕ) (batches : List (List FsTree)) :
    positionsOfReads i batches = positionsOfBatch i batches.flatten := by
  induction batches generalizing i with
  | nil => rfl
  | cons batch batches ih =>
    rw [positionsOfReads, ih, List.flatten_cons, positionsOfBatch_append]

theorem mem_positionsOfBatch {i : ℕ} {batch : List FsTree} {pos : List ℕ} :
    pos ∈ positionsOfBatch i batch ↔
      ∃ j rest c, pos = (i + j) :: rest ∧ batch[j]? = some c ∧ rest ∈ c.positions := by
  induction batch generalizing i with
  | nil => simp [positionsOfBatch]
  | cons t batch ih =>
    rw [positionsOfBatch, List.mem_append, List.mem_map, ih]
    constructor
    · rintro (⟨rest, hrest, rfl⟩ | ⟨j, rest, c, rfl, hc, hrest⟩)
      · exact ⟨0, rest, t, rfl, rfl, hrest⟩
      · exact ⟨j + 1, rest, c, by rw [Nat.add_right_comm, Nat.add_assoc], hc, hrest⟩
    · rintro ⟨j, rest, c, rfl, hc, hrest⟩
      cases j with
      | zero =>
        cases hc
        exact .inl ⟨rest, hrest, rfl⟩
      | succ j => exact .inr ⟨j, rest, c, by rw [Nat.add_right_comm, Nat.add_assoc], hc, hrest⟩

variable {t c : FsTree} {i : ℕ} {pos rest : List ℕ}

theorem children_getElem? (h : i < t.shown.length) : t.children[i]? = t.shown[i]? := by
  cases t with
  | file => exact absurd h (Nat.not_lt_zero i)
  | directory name batches unread => exact List.getElem?_append_left h
  | other => exact absurd h (Nat.not_lt_zero i)

theorem pushed_cons : t.Pushed (i :: rest) ↔ ∃ c, t.shown[i]? = some c ∧ c.Pushed rest := by
  constructor
  · rintro ⟨⟨hi, hreached⟩, name, hfile⟩
    obtain ⟨c, hc, hfile⟩ := Option.bind_eq_some_iff.mp hfile
    exact ⟨c, by rw [← children_getElem? hi, hc], hreached c hc, name, hfile⟩
  · rintro ⟨c, hc, hreached, name, hfile⟩
    obtain ⟨hi, -⟩ := List.getElem?_eq_some_iff.mp hc
    have hchild : t.children[i]? = some c := by rw [children_getElem? hi, hc]
    refine ⟨⟨hi, fun c' hc' => ?_⟩, name, ?_⟩
    · obtain rfl : c = c' := by simpa [hchild] using hc'
      exact hreached
    · rw [subtree, hchild]
      exact hfile

/-- Exactly the positions that are reached, with a file that can be opened. -/
theorem mem_positions (t : FsTree) (pos : List ℕ) : pos ∈ t.positions ↔ t.Pushed pos := by
  induction t using FsTree.induction generalizing pos with
  | file name opens =>
    cases pos with
    | nil => cases opens <;> simp [positions, Pushed, Reached, subtree]
    | cons i rest => cases opens <;> simp [positions, pushed_cons, shown]
  | directory name batches unread ih =>
    rw [positions, positionsOfReads_eq, mem_positionsOfBatch]
    cases pos with
    | nil => simp [Pushed, subtree]
    | cons i rest =>
      rw [pushed_cons]
      constructor
      · rintro ⟨j, rest', c, hpos, hc, hrest⟩
        obtain ⟨rfl, rfl⟩ : i = j ∧ rest = rest' := by simpa using hpos
        exact ⟨c, hc, (ih c (List.mem_of_getElem? hc) rest).mp hrest⟩
      · rintro ⟨c, hc, hrest⟩
        exact ⟨i, rest, c, by rw [Nat.zero_add], hc,
          (ih c (List.mem_of_getElem? hc) rest).mpr hrest⟩
  | other =>
    cases pos with
    | nil => simp [positions, Pushed, subtree]
    | cons i rest => simp [positions, pushed_cons, shown]

theorem sorted_positionsOfBatch {batch : List FsTree}
    (h : ∀ c ∈ batch, c.positions.Pairwise (· < ·)) (i : ℕ) :
    (positionsOfBatch i batch).Pairwise (· < ·) := by
  induction batch generalizing i with
  | nil => exact .nil
  | cons t batch ih =>
    obtain ⟨ht, hbatch⟩ := List.forall_mem_cons.mp h
    rw [positionsOfBatch, List.pairwise_append]
    refine ⟨?_, ih hbatch (i + 1), ?_⟩
    · exact ht.map _ fun pos pos' hlt => List.Lex.cons hlt
    · intro pos hpos pos' hpos'
      obtain ⟨rest, -, rfl⟩ := List.mem_map.mp hpos
      obtain ⟨j, rest', c, rfl, -, -⟩ := mem_positionsOfBatch.mp hpos'
      exact List.Lex.rel (by omega)

/-- The order is the depth-first one, and no position comes twice. -/
theorem sorted_positions (t : FsTree) : t.positions.Pairwise (· < ·) := by
  induction t using FsTree.induction with
  | file name opens => cases opens <;> simp [positions]
  | directory name batches unread ih =>
    rw [positions, positionsOfReads_eq]
    exact sorted_positionsOfBatch ih 0
  | other => exact .nil

theorem names_ne_nil (t : FsTree) (pos : List ℕ) : t.names pos ≠ [] := by
  cases pos <;> simp [names]

theorem upload_cons (pre : String) (h : t.children[i]? = some c) :
    t.upload pre (i :: rest) = c.upload (pre ++ t.name ++ "/") rest := by
  rw [upload, names, h, Option.map_some, Option.getD_some,
    String.intercalate_cons_of_ne_nil (names_ne_nil c rest), upload]
  obtain ⟨name, names, heq⟩ := List.exists_cons_of_ne_nil (names_ne_nil c rest)
  simp [heq, String.append_assoc]

theorem map_positionsOfBatch {f : List ℕ → UploadFile} (pre : String) {batch : List FsTree}
    (h : ∀ j rest c, batch[j]? = some c → f ((i + j) :: rest) = c.upload pre rest) :
    (positionsOfBatch i batch).map f =
      batch.flatMap fun c => c.positions.map (c.upload pre) := by
  induction batch generalizing i with
  | nil => rfl
  | cons t batch ih =>
    rw [positionsOfBatch, List.map_append, List.map_map, List.flatMap_cons, ih]
    · congr 1
      exact List.map_congr_left fun rest _ => h 0 rest t rfl
    · intro j rest c hc
      rw [Nat.add_right_comm, Nat.add_assoc]
      exact h (j + 1) rest c hc

theorem entriesOf_eq (batch : List FsTree) : entriesOf batch = batch.map entry := by
  induction batch with
  | nil => rfl
  | cons t batch ih => rw [entriesOf, ih, List.map_cons]

theorem walkEntries_entriesOf (pre : String) (batch : List FsTree) :
    FsEntry.walkEntries pre (entriesOf batch) = batch.flatMap fun c => c.entry.walkEntry pre := by
  induction batch with
  | nil => rfl
  | cons t batch ih => rw [entriesOf, FsEntry.walkEntries, ih, List.flatMap_cons]

/-- How the children are split into batches does not matter. -/
theorem walkReads_readsOf (pre : String) {batches : List (List FsTree)} (h : [] ∉ batches) :
    FsEntry.walkReads pre (readsOf batches) =
      batches.flatten.flatMap fun c => c.entry.walkEntry pre := by
  induction batches with
  | nil => rfl
  | cons batch batches ih =>
    rw [List.mem_cons, not_or] at h
    obtain ⟨hne, hnot⟩ := h
    have hentries : ¬ (entriesOf batch).isEmpty := by
      rw [entriesOf_eq]
      simpa using Ne.symm hne
    rw [readsOf, FsEntry.walkReads, if_neg hentries, ih hnot, walkEntries_entriesOf,
      List.flatten_cons, List.flatMap_append]

theorem Batched.child (h : t.Batched) (hc : t.children[i]? = some c) : c.Batched := by
  intro pos name batches unread hpos
  apply h (i :: pos) name batches unread
  rw [subtree, hc]
  exact hpos

/-- A walk pushes what stands at the positions. -/
theorem walkEntry_entry (t : FsTree) (h : t.Batched) (pre : String) :
    t.entry.walkEntry pre = t.positions.map (t.upload pre) := by
  induction t using FsTree.induction generalizing pre with
  | file name opens =>
    cases opens <;> simp [entry, FsEntry.walkEntry, positions, upload, names, FsTree.name]
  | directory name batches unread ih =>
    have hchild : ∀ {i : ℕ} {c : FsTree}, batches.flatten[i]? = some c →
        (directory name batches unread).children[i]? = some c := by
      intro i c hc
      obtain ⟨hi, -⟩ := List.getElem?_eq_some_iff.mp hc
      rw [children_getElem? (t := directory name batches unread) hi]
      exact hc
    rw [entry, FsEntry.walkEntry, walkReads_readsOf _ (h [] name batches unread rfl), positions,
      positionsOfReads_eq, map_positionsOfBatch (pre ++ name ++ "/")]
    · refine List.flatMap_congr fun c hc => ?_
      obtain ⟨i, hi⟩ := List.mem_iff_getElem?.mp hc
      exact ih c hc (h.child (hchild hi)) _
    · intro j rest c hc
      rw [Nat.zero_add]
      exact upload_cons pre (hchild hc)
  | other => rfl

theorem Succeeds.child (h : t.Succeeds) (hc : t.children[i]? = some c) : c.Succeeds := by
  have hpos : ∀ pos, t.subtree (i :: pos) = c.subtree pos := by
    intro pos
    rw [subtree, hc]
    rfl
  constructor
  · intro pos name opens hfile
    exact h.1 (i :: pos) name opens (by rw [hpos, hfile])
  · intro pos name batches unread hdir
    exact h.2 (i :: pos) name batches unread (by rw [hpos, hdir])

theorem Succeeds.reached (h : t.Succeeds) : ∀ {u}, t.subtree pos = some u → t.Reached pos := by
  induction pos generalizing t with
  | nil => exact fun _ => trivial
  | cons i rest ih =>
    intro u hu
    obtain ⟨c, hc, hu⟩ := Option.bind_eq_some_iff.mp hu
    have hshown : t.shown = t.children := by
      cases t with
      | file => rfl
      | directory name batches unread =>
        obtain rfl := h.2 [] name batches unread rfl
        exact (List.append_nil batches.flatten).symm
      | other => rfl
    refine ⟨?_, fun c' hc' => ?_⟩
    · rw [hshown]
      exact (List.getElem?_eq_some_iff.mp hc).1
    · obtain rfl : c = c' := by simpa [hc] using hc'
      exact ih (h.child hc) hu

theorem Succeeds.pushed_iff (h : t.Succeeds) (pos : List ℕ) :
    t.Pushed pos ↔ ∃ name opens, t.subtree pos = some (.file name opens) := by
  constructor
  · rintro ⟨-, name, hfile⟩
    exact ⟨name, true, hfile⟩
  · rintro ⟨name, opens, hfile⟩
    obtain rfl := h.1 pos name opens hfile
    exact ⟨h.reached hfile, name, hfile⟩

theorem upload_of_file {name : String} {opens : Bool}
    (h : t.subtree pos = some (.file name opens)) :
    t.upload "" pos = ⟨name, "/".intercalate (t.names pos)⟩ := by
  have hlast : (t.names pos).getLastD "" = name := by
    induction pos generalizing t with
    | nil =>
      cases h
      rfl
    | cons i rest ih =>
      obtain ⟨c, hc, hfile⟩ := Option.bind_eq_some_iff.mp h
      obtain ⟨name, names', heq⟩ := List.exists_cons_of_ne_nil (names_ne_nil c rest)
      have hrest := ih hfile
      rw [names, hc, Option.map_some, Option.getD_some]
      simpa [heq] using hrest
  rw [upload, hlast, String.empty_append]

/-- A walk resolves. It has pushed each file that it reaches once then, in the depth-first order,
with the names from the root to it, and has reached all files if all reads succeed. -/
theorem walkEntry_exact (t : FsTree) (h : t.Batched) (out : List UploadFile) :
    ∃ poss : List (List ℕ),
      (Walk.call "" t.entry ⟨[], out⟩).Reaches ⟨[], out ++ poss.map (t.upload "")⟩ ∧
      poss.Pairwise (· < ·) ∧ (∀ pos, pos ∈ poss ↔ t.Pushed pos) ∧
      (∀ pos ∈ poss, ∃ name, t.subtree pos = some (.file name true) ∧
        t.upload "" pos = ⟨name, "/".intercalate (t.names pos)⟩) ∧
      (t.Succeeds → ∀ pos, pos ∈ poss ↔ ∃ name opens, t.subtree pos = some (.file name opens)) := by
  refine ⟨t.positions, ?_, sorted_positions t, mem_positions t, ?_, ?_⟩
  · rw [← walkEntry_entry t h]
    exact Walk.reaches_walkEntry "" [] out t.entry
  · intro pos hpos
    obtain ⟨-, name, hfile⟩ := (mem_positions t pos).mp hpos
    exact ⟨name, hfile, upload_of_file hfile⟩
  · intro hsucceeds pos
    rw [mem_positions, hsucceeds.pushed_iff]

theorem batched_file (name : String) (opens : Bool) : (file name opens).Batched := by
  intro pos name' batches unread hpos
  cases pos with
  | nil => simp [subtree] at hpos
  | cons i rest => simp [subtree, children] at hpos

theorem batched_directory {name : String} {batches : List (List FsTree)}
    {unread : Option (List FsTree)} (hbatches : [] ∉ batches)
    (h : ∀ c ∈ (directory name batches unread).children, c.Batched) :
    (directory name batches unread).Batched := by
  intro pos name' batches' unread' hpos
  cases pos with
  | nil =>
    cases hpos
    exact hbatches
  | cons i rest =>
    obtain ⟨c, hc, hdir⟩ := Option.bind_eq_some_iff.mp hpos
    exact h c (List.mem_of_getElem? hc) rest name' batches' unread' hdir

/-- A directory in two batches, with a directory in it of which the second read fails. -/
def album : FsTree :=
  .directory "d" [[.file "f" true],
    [.directory "e" [[.file "g" true]] (some [.file "h" true]), .file "k" false]] none

theorem batched_album : album.Batched := by
  apply batched_directory (by simp)
  simp only [children, List.flatten_cons, List.flatten_nil, List.append_nil, Option.getD_none,
    List.cons_append, List.nil_append, List.forall_mem_cons]
  refine ⟨batched_file _ _, ?_, batched_file _ _, by simp⟩
  apply batched_directory (by simp)
  simp [children, batched_file]

theorem walkEntry_exact_album : ∃ poss : List (List ℕ),
    (Walk.call "" album.entry ⟨[], []⟩).Reaches ⟨[], poss.map (album.upload "")⟩ ∧
      [0] ∈ poss ∧ [1, 0] ∈ poss ∧ [1, 1] ∉ poss ∧ [2] ∉ poss := by
  obtain ⟨poss, hreaches, -, hmem, -⟩ := walkEntry_exact album batched_album []
  refine ⟨poss, hreaches, ?_⟩
  rw [hmem, hmem, hmem, hmem]
  simp [Pushed, Reached, subtree, children, shown, album]

end FsTree

end Urc
