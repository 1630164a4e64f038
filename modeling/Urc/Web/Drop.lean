import Mathlib.Data.List.ReduceOption
import Urc.Web.FilesPanel

/-! # Files that are dropped

The handler of a drop walks the dropped directories. The list of the dropped items can be read until
the handler waits for the first time; entries of it that it has got by then stay usable.
-/

namespace Urc

/-- An entry of a file system, with what its methods return: whether `file` succeeds, and the
batches of `readEntries`, which an empty batch or an error ends. -/
inductive FsEntry
  | file (name : String) (opens : Bool)
  | directory (name : String) (reads : List (List FsEntry)) (fails : Bool)
  | other

namespace FsEntry

mutual

/-- The files that `walkEntry` pushes. An error ends a walk as the end of a directory does. -/
def walkEntry (pre : String) : FsEntry → List UploadFile
  | .file name opens => if opens then [⟨name, pre ++ name⟩] else []
  | .directory name reads _ => walkReads (pre ++ name ++ "/") reads
  | .other => []

/-- `read`, from a batch on. -/
def walkReads (pre : String) : List (List FsEntry) → List UploadFile
  | [] => []
  | entries :: reads =>
    if entries.isEmpty then [] else walkEntries pre entries ++ walkReads pre reads

def walkEntries (pre : String) : List FsEntry → List UploadFile
  | [] => []
  | entry :: entries => walkEntry pre entry ++ walkEntries pre entries

end

mutual

/-- The files that an entry contains, with their paths below the directories of the drop. -/
def files (dirs : List String) : FsEntry → List UploadFile
  | .file name _ => [⟨name, "/".intercalate (dirs ++ [name])⟩]
  | .directory name reads _ => filesOfReads (dirs ++ [name]) reads
  | .other => []

def filesOfReads (dirs : List String) : List (List FsEntry) → List UploadFile
  | [] => []
  | entries :: reads => filesOfEntries dirs entries ++ filesOfReads dirs reads

def filesOfEntries (dirs : List String) : List FsEntry → List UploadFile
  | [] => []
  | entry :: entries => files dirs entry ++ filesOfEntries dirs entries

end

mutual

/-- The methods of the entry and of those below it succeed, and only the end of a directory is an
empty batch. -/
def Usable : FsEntry → Prop
  | .file _ opens => opens = true
  | .directory _ reads fails => fails = false ∧ UsableReads reads
  | .other => True

def UsableReads : List (List FsEntry) → Prop
  | [] => True
  | entries :: reads => entries ≠ [] ∧ UsableEntries entries ∧ UsableReads reads

def UsableEntries : List FsEntry → Prop
  | [] => True
  | entry :: entries => Usable entry ∧ UsableEntries entries

end

def pathTo : List String → String
  | [] => ""
  | dir :: dirs => dir ++ "/" ++ pathTo dirs

theorem pathTo_append (dirs : List String) (name : String) :
    pathTo (dirs ++ [name]) = pathTo dirs ++ name ++ "/" := by
  induction dirs with
  | nil => simp [pathTo]
  | cons dir dirs ih => simp [pathTo, ih, String.append_assoc]

theorem pathTo_name (dirs : List String) (name : String) :
    pathTo dirs ++ name = "/".intercalate (dirs ++ [name]) := by
  induction dirs with
  | nil => simp [pathTo]
  | cons dir dirs ih =>
    rw [List.cons_append, String.intercalate_cons_of_ne_nil (by simp), ← ih, pathTo,
      String.append_assoc]

mutual

/-- A walk over usable entries pushes the files that they contain. -/
theorem walkEntry_eq (dirs : List String) :
    ∀ e : FsEntry, e.Usable → walkEntry (pathTo dirs) e = files dirs e
  | .file name opens, h => by
    rw [Usable] at h
    rw [walkEntry, files, if_pos h, pathTo_name]
  | .directory name reads fails, h => by
    rw [Usable] at h
    rw [walkEntry, files, ← pathTo_append, walkReads_eq (dirs ++ [name]) reads h.2]
  | .other, _ => rfl

theorem walkReads_eq (dirs : List String) :
    ∀ reads, UsableReads reads → walkReads (pathTo dirs) reads = filesOfReads dirs reads
  | [], _ => rfl
  | entries :: reads, h => by
    obtain ⟨hne, hentries, hreads⟩ := h
    rw [walkReads, filesOfReads, if_neg (by simpa using hne), walkEntries_eq dirs entries hentries,
      walkReads_eq dirs reads hreads]

theorem walkEntries_eq (dirs : List String) :
    ∀ entries, UsableEntries entries →
      walkEntries (pathTo dirs) entries = filesOfEntries dirs entries
  | [], _ => rfl
  | entry :: entries, h => by
    rw [walkEntries, filesOfEntries, walkEntry_eq dirs entry h.1, walkEntries_eq dirs entries h.2]

end

end FsEntry

/-- A drop: what `webkitGetAsEntry` returns for each item, if browsers have it, and the flat list of
its files, which has none without an item. -/
structure Drop where
  items : List (Option FsEntry)
  hasEntries : Bool
  files : List UploadFile
  no_files : items = [] → files = []

namespace Drop

/-- The loop of the handler. It waits behind each entry, and finds no more items then. -/
def collect (readable : Bool) : List (Option FsEntry) → List UploadFile
  | [] => []
  | item :: items =>
    if !readable then []
    else
      match item with
      | some entry => entry.walkEntry "" ++ collect false items
      | none => collect true items

/-- What the handler passes to `uploadFileList`. -/
def uploads (d : Drop) : List UploadFile :=
  if d.items ≠ [] ∧ d.hasEntries then collect true d.items else d.files

def entries (d : Drop) : List FsEntry := d.items.reduceOption

/-- Each file in the dropped entries is passed once, with its path. -/
def Complete (d : Drop) : Prop := d.uploads.Perm (d.entries.flatMap (FsEntry.files []))

variable {d : Drop} {items : List (Option FsEntry)}

/-- Only the first entry is walked. -/
theorem collect_eq (items : List (Option FsEntry)) :
    collect true items = items.reduceOption.head?.toList.flatMap (FsEntry.walkEntry "") := by
  induction items with
  | nil => rfl
  | cons item items ih =>
    cases item with
    | none => simpa [collect] using ih
    | some entry => cases items <;> simp [collect]

theorem uploads_eq (hentries : d.hasEntries = true) (husable : ∀ e ∈ d.entries, e.Usable) :
    d.uploads = d.entries.head?.toList.flatMap (FsEntry.files []) := by
  have hwalk : d.entries.head?.toList.flatMap (FsEntry.walkEntry "") =
      d.entries.head?.toList.flatMap (FsEntry.files []) := by
    refine List.flatMap_congr fun e he => ?_
    exact FsEntry.walkEntry_eq [] e (husable e (List.mem_of_mem_head? (by simpa using he)))
  unfold uploads
  split_ifs with hitems
  · rw [collect_eq]
    exact hwalk
  · have hnil : d.items = [] := by simpa [hentries] using hitems
    simp [d.no_files hnil, entries, hnil]

/-- A drop of usable entries is uploaded completely exactly if no file is behind the first of
them. -/
theorem complete_iff (d : Drop) (hentries : d.hasEntries = true)
    (husable : ∀ e ∈ d.entries, e.Usable) :
    d.Complete ↔ ∀ e ∈ d.entries.tail, FsEntry.files [] e = [] := by
  rw [Complete, uploads_eq hentries husable, ← List.flatMap_eq_nil_iff]
  cases d.entries with
  | nil => simp
  | cons e es =>
    simp only [List.head?_cons, Option.toList_some, List.flatMap_cons, List.flatMap_nil,
      List.append_nil, List.tail_cons]
    constructor
    · intro h
      have hlen := h.length_eq
      rw [List.length_append] at hlen
      exact List.eq_nil_of_length_eq_zero (by omega)
    · intro h
      rw [h, List.append_nil]

/-- A directory with a file in a directory, in two batches, behind a text. -/
def directoryDrop : Drop where
  items := [none, some (.directory "d" [[.file "f" true], [.directory "e" [[.file "g" true]] false]]
    false)]
  hasEntries := true
  files := [⟨"d", ""⟩]
  no_files := by simp

theorem directoryDrop_complete : directoryDrop.Complete := by
  have husable : ∀ e ∈ directoryDrop.entries, e.Usable := by
    simp [directoryDrop, entries, FsEntry.Usable, FsEntry.UsableReads, FsEntry.UsableEntries]
  exact (complete_iff directoryDrop rfl husable).mpr (by simp [directoryDrop, entries])

/-- Of two files, the second is lost. -/
theorem second_file_lost : ¬ ∀ d : Drop, d.hasEntries = true → (∀ e ∈ d.entries, e.Usable) →
    d.Complete := by
  intro h
  let d : Drop := ⟨[some (.file "f" true), some (.file "g" true)], true,
    [⟨"f", ""⟩, ⟨"g", ""⟩], by simp⟩
  have hd : d.Complete := h d rfl (by simp [d, entries, FsEntry.Usable])
  have hlen := hd.length_eq
  simp [d, uploads, collect, entries, FsEntry.walkEntry, FsEntry.files] at hlen

end Drop

end Urc
