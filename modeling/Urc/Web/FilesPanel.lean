import Urc.Files.Handlers
import Urc.Library.Run
import Urc.Web.Paths

/-! # The files panel

The panel lists a directory in two steps that wait, for the response and for its body, and then
shows it. Uploads of a list of files wait for each other, and each reads the directory that is shown
when it starts. Calls and uploads may wait in any number, and what they wait for comes in any order.
-/

namespace Urc

/-- What a click on a name lists: a path that is fixed, or the parent of what is shown then. -/
inductive Click
  | none
  | parent
  | path (path : String)
  deriving DecidableEq

/-- A row, with the URL of its download and the size that it shows. -/
structure Row where
  name : String
  isDir : Bool
  click : Click
  href : Option String
  size : Option UInt64
  deriving DecidableEq

def entryRow (cwd : String) (e : ListEntry) : Row :=
  let path := fullPath cwd e.name
  if e.isDir then ⟨e.name, true, .path path, some (Action.url .downloadZip path), none⟩
  else ⟨e.name, false, .none, some (Action.url .download path), some e.size⟩

def renderList (cwd : String) (entries : List ListEntry) : List Row :=
  (if cwd = "" then [] else [⟨"..", true, .parent, none, none⟩]) ++ entries.map (entryRow cwd)

def homePath (path : String) : String := "/home" ++ if path = "" then "" else "/" ++ path

/-- A call of `listDir` that waits for the response, or for its body. -/
structure ListCall where
  id : ℕ
  path : String
  parsing : Bool
  deriving DecidableEq

structure Listing where
  id : ℕ
  path : String
  entries : List ListEntry
  deriving DecidableEq

structure UploadFile where
  name : String
  webkitRelativePath : String
  deriving DecidableEq

def UploadFile.relPath (f : UploadFile) : String :=
  if f.webkitRelativePath = "" then f.name else f.webkitRelativePath

/-- A call of `uploadFileList` from a start in the directory `start`, with the file that is being
uploaded and those behind it. -/
structure UploadBatch where
  id : ℕ
  start : String
  current : UploadFile
  rest : List UploadFile
  deriving DecidableEq

structure Posted where
  start : String
  file : UploadFile
  dest : String
  deriving DecidableEq

inductive Fetched
  | ok
  | status (status : ℕ)
  | failed
  deriving DecidableEq

/-- `listed` are the listings that were shown, the first one first, and `posted` the uploads. -/
structure FilesPanel where
  cwd : String
  shownPath : String
  rows : List Row
  error : String
  nextId : ℕ
  calls : List ListCall
  listed : List Listing
  batches : List UploadBatch
  posted : List Posted
  deriving DecidableEq

/-- The body of a listing is none where it is not parsed. -/
inductive PanelEvent
  | listDir (path : String)
  | response (id : ℕ) (result : Fetched)
  | body (id : ℕ) (entries : Option (List ListEntry))
  | uploadFileList (files : List UploadFile)
  | uploaded (id : ℕ) (result : Fetched) (responseText : String)
  deriving DecidableEq

namespace FilesPanel

open Transition

def new : FilesPanel := ⟨"", "/", [], "", 0, [], [], [], []⟩

def showError (s : FilesPanel) (message : String) : FilesPanel := { s with error := message }

/-- `listDir`, up to where it waits. -/
def listDir (s : FilesPanel) (path : String) : FilesPanel :=
  { s.showError "" with nextId := s.nextId + 1, calls := s.calls ++ [⟨s.nextId, path, false⟩] }

def dropCall (s : FilesPanel) (id : ℕ) : FilesPanel :=
  { s with calls := s.calls.filter (·.id ≠ id) }

/-- `listDir` behind its first wait. -/
def response (s : FilesPanel) (id : ℕ) : Fetched → FilesPanel
  | .ok =>
    { s with calls := s.calls.map fun c => if c.id = id then { c with parsing := true } else c }
  | .status status => (s.dropCall id).showError ("List failed: " ++ toString status)
  | .failed => s.dropCall id

/-- `listDir` behind its second wait. -/
def render (s : FilesPanel) (l : Listing) : FilesPanel :=
  { s.dropCall l.id with
    cwd := l.path
    shownPath := homePath l.path
    rows := renderList l.path l.entries
    listed := s.listed ++ [l] }

/-- `uploadFile`, up to where it waits: the file is posted below what is shown. -/
def uploadFile (s : FilesPanel) (start : String) (f : UploadFile) : FilesPanel :=
  { s.showError "" with posted := s.posted ++ [⟨start, f, fullPath s.cwd f.relPath⟩] }

/-- The loop of `uploadFileList` from a file on, and the listing behind it. -/
def uploadNext (s : FilesPanel) (id : ℕ) (start : String) : List UploadFile → FilesPanel
  | [] => s.listDir s.cwd
  | f :: rest =>
    { s.uploadFile start f with batches := s.batches ++ [⟨id, start, f, rest⟩] }

def uploadFileList (s : FilesPanel) (files : List UploadFile) : FilesPanel :=
  { s with nextId := s.nextId + 1 }.uploadNext s.nextId s.cwd files

def uploadError (f : UploadFile) (responseText : String) : Fetched → Option String
  | .ok => none
  | .status status =>
    some ("Upload " ++ f.relPath ++ " failed: HTTP " ++ toString status ++ " " ++ responseText)
  | .failed => some ("Upload " ++ f.relPath ++ " failed: network error")

def endUpload (s : FilesPanel) (b : UploadBatch) (result : Fetched) (responseText : String) :
    FilesPanel :=
  { s with
    error := (uploadError b.current responseText result).getD s.error
    batches := s.batches.filter (·.id ≠ b.id) }

def uploaded (s : FilesPanel) (b : UploadBatch) (result : Fetched) (responseText : String) :
    FilesPanel :=
  (s.endUpload b result responseText).uploadNext b.id b.start b.rest

def step (s : FilesPanel) : PanelEvent → FilesPanel
  | .listDir path => s.listDir path
  | .response id result =>
    if s.calls.any fun c => c.id = id && !c.parsing then s.response id result else s
  | .body id entries =>
    match s.calls.find? fun c => c.id = id && c.parsing with
    | some c =>
      match entries with
      | some entries => s.render ⟨c.id, c.path, entries⟩
      | none => s.dropCall c.id
    | none => s
  | .uploadFileList files => s.uploadFileList files
  | .uploaded id result responseText =>
    match s.batches.find? (·.id = id) with
    | some b => s.uploaded b result responseText
    | none => s

/-! ### What is shown -/

/-- The directory, the displayed path and the rows are those of a listing. -/
structure Shows (s : FilesPanel) (l : Listing) : Prop where
  cwd : s.cwd = l.path
  shownPath : s.shownPath = homePath l.path
  rows : s.rows = renderList l.path l.entries

/-- When no call waits, the panel shows the last call that got its entries, and it always shows the
entries of the directory that it is in. -/
structure UpToDate (s : FilesPanel) : Prop where
  last : s.calls = [] → ∀ l ∈ s.listed, (∀ l' ∈ s.listed, l'.id ≤ l.id) → s.Shows l
  rows : s.listed = [] ∧ s.rows = [] ∨ ∃ l ∈ s.listed, s.Shows l

/-- The entries of a call come before those of the calls behind it. -/
def InOrder (s : FilesPanel) : PanelEvent → Prop
  | .body id (some _) => ∀ l ∈ s.listed, l.id < id
  | _ => True

/-- The panel shows the last listing of the record, and nothing in front of the first one. -/
structure Tracked (s : FilesPanel) : Prop where
  last : ∀ l ∈ s.listed.getLast?, s.Shows l
  empty : s.listed = [] → s.rows = []

variable {s s' : FilesPanel} {e : PanelEvent}

structure SameView (s s' : FilesPanel) : Prop where
  cwd : s'.cwd = s.cwd
  shownPath : s'.shownPath = s.shownPath
  rows : s'.rows = s.rows
  listed : s'.listed = s.listed

theorem Tracked.congr (h : s.Tracked) (hv : s.SameView s') : s'.Tracked := by
  refine ⟨fun l hl => ?_, fun hnil => hv.rows.trans (h.empty (hv.listed ▸ hnil))⟩
  obtain ⟨hcwd, hpath, hrows⟩ := h.last l (hv.listed ▸ hl)
  exact ⟨hv.cwd.trans hcwd, hv.shownPath.trans hpath, hv.rows.trans hrows⟩

theorem uploadNext_sameView (s : FilesPanel) (id : ℕ) (start : String) (files : List UploadFile) :
    s.SameView (s.uploadNext id start files) := by
  cases files <;> exact ⟨rfl, rfl, rfl, rfl⟩

theorem response_sameView (s : FilesPanel) (id : ℕ) (result : Fetched) :
    s.SameView (s.response id result) := by
  cases result <;> exact ⟨rfl, rfl, rfl, rfl⟩

/-- A step shows a listing, or nothing new. -/
theorem step_cases (s : FilesPanel) (e : PanelEvent) : s.SameView (s.step e) ∨
    ∃ (c : ListCall) (entries : List ListEntry),
      e = .body c.id (some entries) ∧ s.step e = s.render ⟨c.id, c.path, entries⟩ := by
  cases e with
  | listDir path => exact .inl ⟨rfl, rfl, rfl, rfl⟩
  | response id result =>
    unfold step
    dsimp only
    split_ifs
    · exact .inl (s.response_sameView id result)
    · exact .inl ⟨rfl, rfl, rfl, rfl⟩
  | body id entries =>
    unfold step
    dsimp only
    cases hfind : s.calls.find? fun c => c.id = id && c.parsing with
    | none => exact .inl ⟨rfl, rfl, rfl, rfl⟩
    | some c =>
      cases entries with
      | none => exact .inl ⟨rfl, rfl, rfl, rfl⟩
      | some entries =>
        have hid : c.id = id := by
          have hc := List.find?_some hfind
          rw [Bool.and_eq_true, decide_eq_true_eq] at hc
          exact hc.1
        exact .inr ⟨c, entries, by rw [hid], rfl⟩
  | uploadFileList files =>
    have hv := uploadNext_sameView { s with nextId := s.nextId + 1 } s.nextId s.cwd files
    exact .inl ⟨hv.cwd, hv.shownPath, hv.rows, hv.listed⟩
  | uploaded id result responseText =>
    unfold step
    dsimp only
    cases s.batches.find? (·.id = id) with
    | none => exact .inl ⟨rfl, rfl, rfl, rfl⟩
    | some b =>
      have hv := (s.endUpload b result responseText).uploadNext_sameView b.id b.start b.rest
      exact .inl ⟨hv.cwd, hv.shownPath, hv.rows, hv.listed⟩

theorem render_shows (s : FilesPanel) (l : Listing) : (s.render l).Shows l := ⟨rfl, rfl, rfl⟩

theorem Tracked.step (h : s.Tracked) (e : PanelEvent) : (s.step e).Tracked := by
  rcases s.step_cases e with hv | ⟨c, entries, -, hs⟩
  · exact h.congr hv
  · rw [hs]
    refine ⟨fun l hl => ?_, fun hnil => ?_⟩
    · obtain rfl : ⟨c.id, c.path, entries⟩ = l := by simpa [render] using hl
      exact s.render_shows _
    · simp [render] at hnil

theorem tracked_new : new.Tracked := ⟨by simp [new], fun _ => rfl⟩

theorem pairwise_step (h : s.listed.Pairwise (·.id < ·.id)) (ho : s.InOrder e) :
    (s.step e).listed.Pairwise (·.id < ·.id) := by
  rcases s.step_cases e with hv | ⟨c, entries, rfl, hs⟩
  · rwa [hv.listed]
  · rw [hs]
    refine List.pairwise_append.mpr ⟨h, List.pairwise_singleton _ _, fun l hl l' hl' => ?_⟩
    rw [List.mem_singleton.mp hl']
    exact ho l hl

theorem Tracked.upToDate (h : s.Tracked) (hord : s.listed.Pairwise (·.id < ·.id)) :
    s.UpToDate := by
  rcases List.eq_nil_or_concat s.listed with hnil | ⟨rest, last, hlast⟩
  · exact ⟨fun _ l hl => by simp [hnil] at hl, .inl ⟨hnil, h.empty hnil⟩⟩
  · have hshows : s.Shows last := h.last last (by simp [hlast])
    have hmem : last ∈ s.listed := by simp [hlast]
    refine ⟨fun _ l hl hmax => ?_, .inr ⟨last, hmem, hshows⟩⟩
    rw [hlast, List.concat_eq_append] at hord hl
    rcases List.mem_append.mp hl with hl | hl
    · have hlt := (List.pairwise_append.mp hord).2.2 l hl last (by simp)
      exact absurd (hmax last hmem) (by omega)
    · rwa [List.mem_singleton.mp hl]

/-- If the entries of every call come before those of the calls behind it, the panel shows the last
directory that it was asked for, over all orders in which the rest of the responses comes. -/
theorem last_listing_shown (es : List PanelEvent) (h : Steps step InOrder new es) :
    Always step UpToDate new es := by
  have hinv : Always step (fun s => s.Tracked ∧ s.listed.Pairwise (·.id < ·.id)) new es :=
    h.always (fun s e hs ho => ⟨hs.1.step e, pairwise_step hs.2 ho⟩) ⟨tracked_new, by simp [new]⟩
  exact hinv.mono fun s hs => hs.1.upToDate hs.2

/-- Two listings, of which the second is shown first, without or with the first one behind it. -/
def overtaken (first : Option (List ListEntry)) : List PanelEvent :=
  [.listDir "a", .listDir "b", .response 1 .ok, .body 1 (some [⟨"f", false, 1⟩]), .response 0 .ok,
    .body 0 first]

theorem last_listing_shown_failed : Always step UpToDate new (overtaken none) := by
  refine last_listing_shown _ ⟨trivial, trivial, trivial, ?_, trivial, trivial, trivial⟩
  intro l hl
  have hrun : l ∈ (run step new [.listDir "a", .listDir "b", .response 1 .ok]).listed := hl
  have hnil : (run step new [.listDir "a", .listDir "b", .response 1 .ok]).listed = [] := by
    decide +kernel
  rw [hnil] at hrun
  cases hrun

/-- An answer that comes late takes the place of the directory that was asked for last. -/
theorem late_listing_shown : ¬ ∀ es : List PanelEvent, Always step UpToDate new es := by
  intro h
  have hs := h (overtaken (some [])) _ List.prefix_rfl
  have hrun : run step new (overtaken (some [])) = { new with
      cwd := "a", shownPath := "/home/a", rows := [⟨"..", true, .parent, none, none⟩]
      nextId := 2, listed := [⟨1, "b", [⟨"f", false, 1⟩]⟩, ⟨0, "a", []⟩] } := by
    decide +kernel
  rw [hrun] at hs
  have hcwd := (hs.last rfl ⟨1, "b", [⟨"f", false, 1⟩]⟩ (by decide) (by decide)).cwd
  exact absurd hcwd (by decide)

/-! ### Where a batch goes -/

/-- Every file was posted to the directory in which its batch was started. -/
def OneDirectory (s : FilesPanel) : Prop :=
  ∀ p ∈ s.posted, p.dest = fullPath p.start p.file.relPath

/-- Where a file of a batch is still to be posted, the panel is in the directory of its start. -/
def Undisturbed (s : FilesPanel) : PanelEvent → Prop
  | .uploaded id _ _ => ∀ b, s.batches.find? (·.id = id) = some b → b.rest ≠ [] → s.cwd = b.start
  | _ => True

theorem fullPath_inj {cwd cwd' name : String} (h : fullPath cwd name = fullPath cwd' name) :
    cwd = cwd' := by
  have hne : ∀ cwd : String, name ≠ cwd ++ "/" ++ name := by
    intro cwd heq
    have hlen := congrArg String.length heq
    simp only [String.length_append] at hlen
    have hone : "/".length = 1 := rfl
    omega
  unfold fullPath at h
  split_ifs at h with hc hc' hc'
  · rw [hc, hc']
  · exact absurd h (hne cwd')
  · exact absurd h.symm (hne cwd)
  · rwa [String.append_left_inj, String.append_left_inj] at h

theorem posted_uploadNext (s : FilesPanel) (id : ℕ) (start : String) (files : List UploadFile) :
    (s.uploadNext id start files).posted = s.posted ++ files.head?.toList.map
      fun f => ⟨start, f, fullPath s.cwd f.relPath⟩ := by
  cases files <;> simp [uploadNext, uploadFile, listDir, showError]

theorem oneDirectory_uploadNext (h : s.OneDirectory) (id : ℕ) (start : String)
    (files : List UploadFile) :
    (s.uploadNext id start files).OneDirectory ↔ (files ≠ [] → s.cwd = start) := by
  unfold OneDirectory
  rw [posted_uploadNext, List.forall_mem_append]
  cases files with
  | nil => exact iff_of_true ⟨h, by simp⟩ (by simp)
  | cons f files =>
    refine (and_iff_right h).trans ?_
    simp only [List.head?_cons, Option.toList_some, List.map_cons, List.map_nil,
      List.mem_singleton, forall_eq]
    exact ⟨fun heq _ => fullPath_inj heq, fun heq => by rw [heq (by simp)]⟩

/-- From good posts, a step posts well exactly if it meets the condition. -/
theorem oneDirectory_step (h : s.OneDirectory) (e : PanelEvent) :
    (s.step e).OneDirectory ↔ s.Undisturbed e := by
  cases e with
  | listDir path => exact iff_of_true h trivial
  | response id result =>
    refine iff_of_true ?_ trivial
    unfold step
    dsimp only
    split_ifs
    · cases result <;> exact h
    · exact h
  | body id entries =>
    refine iff_of_true ?_ trivial
    unfold step
    dsimp only
    cases s.calls.find? fun c => c.id = id && c.parsing with
    | none => exact h
    | some c => cases entries <;> exact h
  | uploadFileList files =>
    have hs : OneDirectory { s with nextId := s.nextId + 1 } := h
    exact iff_of_true ((oneDirectory_uploadNext hs _ _ _).mpr fun _ => rfl) trivial
  | uploaded id result responseText =>
    simp only [step, Undisturbed]
    cases s.batches.find? (·.id = id) with
    | none => simpa using h
    | some b =>
      have hs : (s.endUpload b result responseText).OneDirectory := h
      simp only [Option.some.injEq, forall_eq']
      exact oneDirectory_uploadNext hs b.id b.start b.rest

/-- The files of every batch are posted to one directory, over all interleavings with navigation,
exactly if the panel is back in it whenever the next one of them is posted. -/
theorem oneDirectory_iff (es : List PanelEvent) :
    Always step OneDirectory new es ↔ Steps step Undisturbed new es := by
  have h0 : new.OneDirectory := by simp [OneDirectory, new]
  exact always_iff_steps_of_all (fun s e h => (oneDirectory_step h e).mpr) (fun _ h => h)
    (fun s e h => (oneDirectory_step h e).mp) h0

/-- A directory that is shown between two files of a batch takes the second one. -/
theorem batch_scattered : ¬ ∀ es : List PanelEvent, Always step OneDirectory new es := by
  intro h
  have hs := h [.uploadFileList [⟨"f", ""⟩, ⟨"g", ""⟩], .listDir "a", .response 1 .ok,
    .body 1 (some []), .uploaded 0 .ok ""] _ List.prefix_rfl
  exact absurd (hs ⟨"", ⟨"g", ""⟩, "a/g"⟩ (by decide +kernel)) (by decide)

end FilesPanel

end Urc
