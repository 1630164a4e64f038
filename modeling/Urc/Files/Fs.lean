import Mathlib.Algebra.GroupWithZero.Nat
import Urc.Files.SafePath
import Urc.Library.PathWalk

/-! # The file system calls of the handlers

What `std::path`, `std::fs` and `tokio::fs` do on a Linux tree for a caller that may do
everything, as the agent runs as root. Calls fail for what the tree holds, for names and
paths that are too long, and for NUL bytes, never for lack of space.
-/

namespace Urc

open FileTree

/-- A file tree, from `/` down. A relative path starts there, too: it is where the agent runs. -/
abbrev Fs := Node OsStr (List UInt8)

abbrev OsPath := List OsStr

/-- `NAME_MAX`. -/
def nameOk (n : OsStr) : Bool := n.length ≤ 255

def Component.cost : Component OsStr → ℕ
  | .rootDir => 0
  | .curDir => 2
  | .parentDir => 3
  | .normal n => n.length + 1

/-- The bytes of a path, each component with the separator before it. -/
def pathLen (p : PathBuf) : ℕ :=
  (p.map Component.cost).sum - if p.head? = some .rootDir then 0 else 1

/-- No NUL byte, and less than `PATH_MAX` bytes. -/
def pathOk (p : PathBuf) : Bool :=
  (p.all fun c => match c with
    | .normal n => !n.contains 0
    | _ => true) && pathLen p < 4096

/-- Path resolution: the kernel gives up at the 41st link. -/
def walkPath (t : Fs) (p : PathBuf) : Walk OsStr := walk nameOk t.look 41 [] p

def resolve (t : Fs) (p : PathBuf) : Walk OsStr := if pathOk p then walkPath t p else .failed

/-- `Path::is_dir`. -/
def isDir (t : Fs) (p : PathBuf) : Bool :=
  match resolve t p with
  | .found d => t.look d = some .dir
  | _ => false

/-- `Path::is_file`. -/
def isFile (t : Fs) (p : PathBuf) : Bool :=
  match resolve t p with
  | .found d => t.look d = some .file
  | _ => false

/-- `fs::read_dir`, with the physical path of the directory. -/
def readDir (t : Fs) (p : PathBuf) : Option (OsPath × List (OsStr × Fs)) :=
  match resolve t p with
  | .found d => match t.get d with
    | some (.dir es) => some (d, es)
    | _ => none
  | _ => none

/-- `fs::read`, with the physical path of the file. -/
def read (t : Fs) (p : PathBuf) : Option (OsPath × List UInt8) :=
  match resolve t p with
  | .found d => match t.get d with
    | some (.file b) => some (d, b)
    | some .other => some (d, [])
    | _ => none
  | _ => none

inductive IoError
  | notFound
  | other
  deriving DecidableEq

/-- `mkdir` for `parent/last`: the place of the new directory. The last component is not
followed. -/
def mkdir (t : Fs) (parent : PathBuf) (last : Component OsStr) : Except IoError OsPath :=
  if pathOk (parent ++ [last]) then
    match walkPath t parent, last with
    | .found d, .normal n =>
      if t.look d = some .dir ∧ nameOk n ∧ t.look (d ++ [n]) = none then .ok (d ++ [n])
      else .error .other
    | .missing _ _ _, _ => .error .notFound
    | _, _ => .error .other
  else .error .other

/-- The result of `create_dir_all`, with the directories that it made. -/
structure Created where
  ok : Bool
  made : List OsPath
  fs : Fs

/-- `create_dir_all`, on the components of the path from the last to the first. -/
def createDirAll (t : Fs) : List (Component OsStr) → Created
  | [] => ⟨true, [], t⟩
  | last :: rev =>
    match mkdir t rev.reverse last with
    | .ok d => ⟨true, [d], t.set d (.dir [])⟩
    | .error .notFound =>
      let r := createDirAll t rev
      if r.ok then
        match mkdir r.fs rev.reverse last with
        | .ok d => ⟨true, r.made ++ [d], r.fs.set d (.dir [])⟩
        | .error _ => ⟨isDir r.fs (rev.reverse ++ [last]), r.made, r.fs⟩
      else r
    | .error .other => ⟨isDir t (rev.reverse ++ [last]), [], t⟩

/-- The file that opening a path for writing opens, or makes: a last link is followed, even one
that leads to nothing yet. -/
def openWrite (t : Fs) (p : PathBuf) : Option OsPath :=
  match resolve t p with
  | .found d => if t.look d = some .file ∨ t.look d = some .other then some d else none
  | .missing d n [] => some (d ++ [n])
  | _ => none

def writeAt (t : Fs) (d : OsPath) (data : List UInt8) : Fs :=
  if t.look d = some .other then t else t.set d (.file data)

/-! ### Facts about the calls -/

variable {t t' : Fs} {p q : PathBuf} {d : OsPath} {n : OsStr} {c : Component OsStr}

theorem pathLen_le_append (p q : PathBuf) : pathLen p ≤ pathLen (p ++ q) := by
  unfold pathLen
  cases p with
  | nil => simp
  | cons c p =>
    have hsum : ((c :: p).map Component.cost).sum ≤ ((c :: (p ++ q)).map Component.cost).sum := by
      simp
    exact Nat.sub_le_sub_right hsum _

theorem pathOk_of_append (h : pathOk (p ++ q) = true) : pathOk p = true := by
  have hlen := pathLen_le_append p q
  simp only [pathOk, List.all_append, Bool.and_eq_true, decide_eq_true_eq] at h ⊢
  exact ⟨h.1.1, by omega⟩

theorem mkdir_eq_ok : mkdir t p c = .ok d ↔ pathOk (p ++ [c]) = true ∧ ∃ d' n,
    c = .normal n ∧ walkPath t p = .found d' ∧ t.look d' = some .dir ∧ nameOk n = true ∧
      t.look (d' ++ [n]) = none ∧ d = d' ++ [n] := by
  unfold mkdir
  constructor
  · intro h
    split_ifs at h with hp
    split at h
    · rename_i d' n hw
      split_ifs at h with hc
      exact ⟨hp, d', n, rfl, hw, hc.1, hc.2.1, hc.2.2, (Except.ok.inj h).symm⟩
    · cases h
    · cases h
  · rintro ⟨hp, d', n, rfl, hw, hd, hn, hmiss, rfl⟩
    rw [if_pos hp, hw]
    simp only
    rw [if_pos ⟨hd, hn, hmiss⟩]

theorem mkdir_eq_notFound : mkdir t p c = .error .notFound ↔ pathOk (p ++ [c]) = true ∧
    ∃ d n rest, walkPath t p = .missing d n rest := by
  unfold mkdir
  constructor
  · intro h
    split_ifs at h with hp
    · split at h
      · split_ifs at h
        cases h
      · rename_i d n rest hw
        exact ⟨hp, d, n, rest, hw⟩
      · cases h
    · cases h
  · rintro ⟨hp, d, n, rest, hw⟩
    rw [if_pos hp, hw]

end Urc
