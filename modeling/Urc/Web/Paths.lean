import Mathlib.Data.List.TakeWhile
import Urc.Files.Router

/-! # Paths between the browser and the server

The app puts the path of a file into a URL with `encodeURI`, the browser sends the part of
the URL that is its path, and the router decodes the end of it. As `encodeURI` keeps the two
characters that end a path in a URL, the server gets the path that was meant exactly if
neither of them occurs in a name.
-/

namespace Urc

open FileTree

/-! ### The app -/

/-- The characters that `encodeURI` keeps. -/
def uriKept (c : Char) : Bool := c.isAlphanum || ";/?:@&=+$,-_.!~*'()#".toList.contains c

def encodeURI (s : String) : String := .ofList (Percent.encode uriKept s.toList)

inductive Action
  | list
  | download
  | downloadZip
  | upload
  deriving DecidableEq

def Action.method : Action → Method
  | .upload => .post
  | _ => .get

def Action.url : Action → String → String
  | .list, path => if path = "" then "/api/list" else "/api/list/" ++ encodeURI path
  | .download, fullPath => "/api/download/" ++ encodeURI fullPath
  | .downloadZip, fullPath => "/api/download-zip/" ++ encodeURI fullPath
  | .upload, dest => "/api/upload/" ++ encodeURI dest

def fullPath (cwd name : String) : String := if cwd = "" then name else cwd ++ "/" ++ name

/-- What ends the path of a URL: the start of a query, or of a fragment. -/
def endsPath (c : Char) : Bool := c = '?' || c = '#'

/-- The path that a browser sends for a URL of this server without dot segments. -/
def sentPath (url : String) : List Char := url.toList.takeWhile fun c => !endsPath c

def Action.handler : Action → Handler
  | .list => .listDir
  | .download => .downloadFile
  | .downloadZip => .downloadZip
  | .upload => .uploadFile

/-! ### Names -/

structure FileName where
  text : String
  ne_empty : text ≠ ""
  no_slash : '/' ∉ text.toList
  no_nul : '\x00' ∉ text.toList
  ne_dot : text ≠ "."
  ne_dots : text ≠ ".."

def FileName.component (n : FileName) : Component OsStr := .normal (.ofChars n.text.toList)

def joined (names : List FileName) : String := "/".intercalate (names.map FileName.text)

/-- The action reaches its handler with the path that the app put into the URL, and the handler
takes it for the object with these names below the root. -/
structure Agrees (root : PathBuf) (a : Action) (names : List FileName) : Prop where
  routed : serveApi a.method (sentPath (a.url (joined names))) = .ok (a.handler, joined names)
  named : safePath root (joined names) = .ok (root ++ names.map FileName.component)

variable {root : PathBuf} {names : List FileName} {n : FileName}

/-! ### From the URL to the handler -/

def Action.start : Action → String
  | .list => "/api/list/"
  | .download => "/api/download/"
  | .downloadZip => "/api/download-zip/"
  | .upload => "/api/upload/"

theorem toList_url (a : Action) {path : String} (h : path ≠ "") :
    (a.url path).toList = a.start.toList ++ Percent.encode uriKept path.toList := by
  have hurl : a.url path = a.start ++ encodeURI path := by
    cases a with
    | list => exact if_neg h
    | download => rfl
    | downloadZip => rfl
    | upload => rfl
  rw [hurl, String.toList_append, encodeURI, String.toList_ofList]

/-- The path of a URL holds what comes before the first character that ends it. -/
theorem sentPath_url (a : Action) {path : String} (h : path ≠ "") :
    sentPath (a.url path) = a.start.toList ++
      Percent.encode uriKept (path.toList.takeWhile fun c => !endsPath c) := by
  have hstart : a.start.toList.all (fun c => !endsPath c) = true := by
    cases a with
    | list => decide
    | download => decide
    | downloadZip => decide
    | upload => decide
  have hkept : ∀ c, endsPath c = true → uriKept c = true := by
    intro c hc
    rcases Bool.or_eq_true_iff.mp hc with hc | hc
    · rw [of_decide_eq_true hc]
      decide
    · rw [of_decide_eq_true hc]
      decide
  have hdigit : ∀ k : Fin 16, endsPath (Percent.hexDigit k) = false := by decide
  rw [sentPath, toList_url a h, List.takeWhile_append_of_pos (List.all_eq_true.mp hstart),
    Percent.takeWhile_encode hkept (by decide) fun k hk => hdigit ⟨k, hk⟩]

theorem serveApi_start (a : Action) (rest : List Char) :
    serveApi a.method (a.start.toList ++ rest) =
      if rest = [] then .error .notFound
      else match Percent.decodeUtf8 (Percent.decode rest) with
        | some s => .ok (a.handler, s)
        | none => .error .badRequest := by
  cases rest with
  | nil =>
    cases a with
    | list => rfl
    | download => rfl
    | downloadZip => rfl
    | upload => rfl
  | cons c rest =>
    cases a with
    | list => rfl
    | download => rfl
    | downloadZip => rfl
    | upload => rfl

theorem serveApi_url (a : Action) {path : String} (h : path ≠ "") :
    serveApi a.method (sentPath (a.url path)) =
      if path.toList.takeWhile (fun c => !endsPath c) = [] then .error .notFound
      else .ok (a.handler, .ofList (path.toList.takeWhile fun c => !endsPath c)) := by
  rw [sentPath_url a h, serveApi_start, Percent.decode_encode (by decide),
    Percent.decodeUtf8_utf8]
  simp only [Percent.encode_eq_nil]

/-! ### From the path to the names -/

theorem toList_joined (names : List FileName) :
    (joined names).toList = ['/'].intercalate (names.map fun n => n.text.toList) := by
  rw [joined, String.toList_intercalate, List.map_map]
  rfl

theorem splitOn_joined (h : names ≠ []) :
    (joined names).toList.splitOn '/' = names.map fun n => n.text.toList := by
  rw [toList_joined]
  refine List.splitOn_intercalate '/' ?_ (by simpa using h)
  intro l hl
  obtain ⟨n, -, rfl⟩ := List.mem_map.mp hl
  exact n.no_slash

theorem mem_joined {c : Char} (hc : c ≠ '/') :
    c ∈ (joined names).toList ↔ ∃ n ∈ names, c ∈ n.text.toList := by
  rw [toList_joined]
  induction names with
  | nil => simp
  | cons n names ih =>
    cases names with
    | nil => simp
    | cons m names =>
      simp only [List.map_cons, List.intercalate_cons_cons, List.mem_append, List.mem_singleton,
        hc, or_false] at ih ⊢
      rw [ih]
      simp

theorem head?_joined (h : names ≠ []) : ∃ n ∈ names, ∃ c ∈ n.text.toList,
    (joined names).toList.head? = some c := by
  obtain ⟨n, names, rfl⟩ := List.exists_cons_of_ne_nil h
  obtain ⟨c, s, hs⟩ : ∃ c s, n.text.toList = c :: s :=
    List.exists_cons_of_ne_nil (by simpa using n.ne_empty)
  refine ⟨n, List.mem_cons_self, c, by simp [hs], ?_⟩
  rw [toList_joined]
  cases names with
  | nil => simp [hs]
  | cons m names => simp [hs]

theorem joined_ne_empty (h : names ≠ []) : joined names ≠ "" := by
  obtain ⟨_, -, c, -, hhead⟩ := head?_joined h
  intro hempty
  rw [hempty] at hhead
  cases hhead

theorem component_text (n : FileName) : component n.text.toList = some n.component := by
  have hempty : n.text.toList ≠ [] := by simpa using n.ne_empty
  have hdot : n.text.toList ≠ ['.'] := fun h => n.ne_dot (String.toList_inj.mp h)
  have hdots : n.text.toList ≠ ['.', '.'] := fun h => n.ne_dots (String.toList_inj.mp h)
  unfold component
  split
  · exact absurd ‹_› hempty
  · exact absurd ‹_› hdot
  · exact absurd ‹_› hdots
  · rfl

theorem components_joined (h : names ≠ []) :
    components (joined names).toList = names.map FileName.component := by
  have hslash : (joined names).toList.head? ≠ some '/' := by
    obtain ⟨n, -, c, hc, hhead⟩ := head?_joined h
    rw [hhead]
    rintro ⟨⟩
    exact n.no_slash hc
  have hdot : (names.map fun n => n.text.toList).head? ≠ some ['.'] := by
    cases names with
    | nil => simp
    | cons n names =>
      intro hd
      exact n.ne_dot (String.toList_inj.mp (Option.some_inj.mp hd))
  unfold components
  rw [splitOn_joined h]
  dsimp only
  rw [if_neg hslash, if_neg hdot, List.nil_append, List.filterMap_map, ← List.filterMap_eq_map]
  exact List.filterMap_congr fun n _ => component_text n

theorem safePath_joined (root : PathBuf) (h : names ≠ []) :
    safePath root (joined names) = .ok (root ++ names.map FileName.component) := by
  have hdrop : (joined names).toList.dropWhile (· = '/') = (joined names).toList := by
    obtain ⟨n, -, c, hc, hhead⟩ := head?_joined h
    obtain ⟨s, hs⟩ := List.head?_eq_some_iff.mp hhead
    have hne : c ≠ '/' := fun he => n.no_slash (he ▸ hc)
    rw [hs, List.dropWhile_cons_of_neg (by simpa using hne)]
  have hmap : names.map FileName.component =
      (names.map fun n => OsStr.ofChars n.text.toList).map .normal := by
    rw [List.map_map]
    rfl
  rw [safePath_eq, hdrop, components_joined h, hmap]
  dsimp only
  rw [normals_map_normal, if_neg (by simp)]

/-! ### Agreement -/

/-- The URL keeps the whole path if nothing in a name ends it. -/
theorem takeWhile_joined : (joined names).toList.takeWhile (fun c => !endsPath c) =
    (joined names).toList ↔ ∀ n ∈ names, '?' ∉ n.text.toList ∧ '#' ∉ n.text.toList := by
  rw [List.takeWhile_eq_self_iff]
  constructor
  · intro h n hn
    constructor
    · intro hc
      exact absurd (h '?' ((mem_joined (by decide)).mpr ⟨n, hn, hc⟩)) (by decide)
    · intro hc
      exact absurd (h '#' ((mem_joined (by decide)).mpr ⟨n, hn, hc⟩)) (by decide)
  · intro h c hc
    rw [Bool.not_eq_true', endsPath, Bool.or_eq_false_iff, decide_eq_false_iff_not,
      decide_eq_false_iff_not]
    constructor
    · rintro rfl
      obtain ⟨n, hn, hc⟩ := (mem_joined (by decide)).mp hc
      exact (h n hn).1 hc
    · rintro rfl
      obtain ⟨n, hn, hc⟩ := (mem_joined (by decide)).mp hc
      exact (h n hn).2 hc

/-- Browser and server agree on a path exactly if no name on it has a `?` or a `#`. -/
theorem agrees_iff (root : PathBuf) (a : Action) (h : names ≠ []) : Agrees root a names ↔
    ∀ n ∈ names, '?' ∉ n.text.toList ∧ '#' ∉ n.text.toList := by
  have hpath := joined_ne_empty h
  have hne : (joined names).toList ≠ [] := by simpa using hpath
  rw [← takeWhile_joined]
  constructor
  · rintro ⟨hrouted, -⟩
    rw [serveApi_url a hpath] at hrouted
    split_ifs at hrouted
    have hsame := congrArg String.toList (Prod.mk.inj (Except.ok.inj hrouted)).2
    rwa [String.toList_ofList] at hsame
  · intro hsame
    refine ⟨?_, safePath_joined root h⟩
    rw [serveApi_url a hpath, hsame, if_neg hne, String.ofList_toList]

theorem agrees_space_accent :
    Agrees [.rootDir] .list [⟨"a b", by decide, by decide, by decide, by decide, by decide⟩,
      ⟨"é%2F", by decide, by decide, by decide, by decide, by decide⟩] :=
  (agrees_iff [.rootDir] .list (by simp)).mpr (by decide)

/-- The file `a` is downloaded in place of the file `a?b`. -/
theorem question_mark_disagrees : ¬ ∀ (root : PathBuf) (a : Action) (names : List FileName),
    names ≠ [] → Agrees root a names := by
  intro h
  let name : FileName := ⟨"a?b", by decide, by decide, by decide, by decide, by decide⟩
  have hrouted := (h [.rootDir] .download [name] (by simp)).routed
  have hjoined : joined [name] = "a?b" := rfl
  have hother : serveApi .get (sentPath (Action.url .download "a?b")) =
      .ok (.downloadFile, "a") := by decide +kernel
  rw [hjoined] at hrouted
  have hsame := (Prod.mk.inj (Except.ok.inj (hother.symm.trans hrouted))).2
  exact absurd hsame (by decide)

end Urc
