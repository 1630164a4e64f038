import Urc.Library.FileTree

/-! # Request paths

`safe_path` turns the path of a request into a path below the configured root. It is
lexical: it looks at the components of the text, never at the file system.
-/

namespace Urc

open FileTree

abbrev OsStr := List UInt8

abbrev PathBuf := List (Component OsStr)

inductive StatusCode
  | created
  | badRequest
  | forbidden
  | notFound
  | methodNotAllowed
  | internalServerError
  deriving DecidableEq

def OsStr.ofChars (s : List Char) : OsStr := s.flatMap String.utf8EncodeChar

/-- One part of a path between separators; empty parts and inner dots are no components. -/
def component : List Char → Option (Component OsStr)
  | [] => none
  | ['.'] => none
  | ['.', '.'] => some .parentDir
  | s => some (.normal (.ofChars s))

/-- `Path::components`; a dot at the very beginning is a component of its own. -/
def components (s : List Char) : PathBuf :=
  let parts := s.splitOn '/'
  (if s.head? = some '/' then [.rootDir] else if parts.head? = some ['.'] then [.curDir] else []) ++
    parts.filterMap component

/-- The loop of `safe_path` over the components of the request. -/
def pushAll (path : PathBuf) : PathBuf → Except StatusCode PathBuf
  | [] => .ok path
  | .normal p :: rest => pushAll (path ++ [.normal p]) rest
  | .parentDir :: _ | .rootDir :: _ => .error .badRequest
  | .curDir :: rest => pushAll path rest

def safePath (root : PathBuf) (rel : String) : Except StatusCode PathBuf :=
  let rel := rel.toList.dropWhile (· = '/')
  match pushAll root (components rel) with
  | .error e => .error e
  | .ok path => if root.isPrefixOf path then .ok path else .error .forbidden

/-- The names of a path whose components all are names, with dots left out. -/
def normals : PathBuf → List OsStr
  | [] => []
  | .normal p :: rest => p :: normals rest
  | _ :: rest => normals rest

theorem normals_map_normal (ns : List OsStr) : normals (ns.map .normal) = ns := by
  induction ns with
  | nil => rfl
  | cons n ns ih => rw [List.map_cons, normals, ih]

theorem pushAll_eq (path rest : PathBuf) : pushAll path rest =
    if .parentDir ∈ rest ∨ .rootDir ∈ rest then .error .badRequest
    else .ok (path ++ (normals rest).map .normal) := by
  induction rest generalizing path with
  | nil => simp [pushAll, normals]
  | cons c rest ih =>
    cases c with
    | rootDir => simp [pushAll]
    | curDir => simp [pushAll, ih, normals]
    | parentDir => simp [pushAll]
    | normal p => simp [pushAll, ih, normals]

theorem rootDir_not_mem_components {s : List Char} (h : s.head? ≠ some '/') :
    .rootDir ∉ components s := by
  have hc : ∀ p, component p ≠ some .rootDir := by
    intro p
    unfold component
    split <;> simp
  simp only [components, if_neg h, List.mem_append, List.mem_filterMap, not_or, not_exists, not_and]
  refine ⟨?_, fun p _ => hc p⟩
  split_ifs <;> simp

theorem head?_dropWhile (s : List Char) : (s.dropWhile (· = '/')).head? ≠ some '/' := by
  intro h
  have := List.head?_dropWhile_not (· = '/') s
  simp [h] at this

/-- `safe_path` refuses a request exactly for a `..`, and else appends its names to the root. -/
theorem safePath_eq (root : PathBuf) (rel : String) : safePath root rel =
    let cs := components (rel.toList.dropWhile (· = '/'))
    if .parentDir ∈ cs then .error .badRequest
    else .ok (root ++ (normals cs).map .normal) := by
  have hroot := rootDir_not_mem_components (head?_dropWhile rel.toList)
  simp only [safePath, pushAll_eq, hroot, or_false]
  split_ifs with h
  · rfl
  · simp

theorem safePath_ok {root p : PathBuf} {rel : String} (h : safePath root rel = .ok p) :
    ∃ ns : List OsStr, p = root ++ ns.map .normal := by
  rw [safePath_eq] at h
  dsimp only at h
  split_ifs at h
  exact ⟨_, (Except.ok.inj h).symm⟩

end Urc
