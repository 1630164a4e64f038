import Urc.Files.Fs

/-! # The file API

The four handlers of the file API over one file tree. A reply carries, next to the
response, the physical paths of everything that the handler opened, listed, archived,
made or overwrote, and the tree that it leaves.
-/

namespace Urc

open FileTree

/-! ### Texts of file names -/

/-- The second byte can follow the first in a character of three or four bytes. -/
def secondOk (b c : UInt8) : Bool :=
  if b = 0xE0 then 0xA0 ≤ c && c ≤ 0xBF
  else if b = 0xED then 0x80 ≤ c && c ≤ 0x9F
  else if b = 0xF0 then 0x90 ≤ c && c ≤ 0xBF
  else if b = 0xF4 then 0x80 ≤ c && c ≤ 0x8F
  else 0xE1 ≤ b && b ≤ 0xF3 && 0x80 ≤ c && c ≤ 0xBF

/-- The length of the longest beginning of a character where none is complete. -/
def invalidLen : List UInt8 → ℕ
  | b :: c :: rest =>
    if secondOk b c then
      match rest with
      | d :: _ => if 0xF0 ≤ b && 0x80 ≤ d && d ≤ 0xBF then 3 else 2
      | [] => 2
    else 1
  | _ => 1

/-- `to_string_lossy`, on at most `k` characters. -/
def lossy : ℕ → List UInt8 → List Char
  | 0, _ | _, [] => []
  | k + 1, b :: bs =>
    match (ByteArray.mk (b :: bs).toArray).utf8DecodeChar? 0 with
    | some c => c :: lossy k ((b :: bs).drop c.utf8Size)
    | none => '\uFFFD' :: lossy k ((b :: bs).drop (invalidLen (b :: bs)))

def OsStr.toStringLossy (n : OsStr) : String := .ofList (lossy n.length n)

/-! ### Requests and replies -/

structure ListEntry where
  name : String
  isDir : Bool
  size : UInt64
  deriving DecidableEq

/-- An entry of an archive: a directory, or a file with its content. -/
abbrev ZipEntry := String × Option (List UInt8)

/-- What the handlers take from elsewhere: the lower case of Unicode, the `st_size` of an inode,
and the zip format, whose writer can refuse a list of entries. -/
structure Externals where
  toLowercase : String → String
  len : Fs → UInt64
  writeZip : List ZipEntry → Option (List UInt8)

/-- A `multipart/form-data` body: its first field, and how many bytes of the body are taken from
the connection by the time that the field is complete. -/
structure Multipart where
  first : Option (List UInt8)
  taken : ℕ
  length_le : ∀ data ∈ first, data.length ≤ taken

/-- The `DefaultBodyLimit` of a router that does not set one, in bytes. -/
def defaultBodyLimit : ℕ := 2097152

structure Reply (α : Type) where
  response : Except StatusCode α
  touched : List OsPath
  fs : Fs

variable (x : Externals) (root : PathBuf) (t : Fs) (rel : String)

/-! ### Listing and reading -/

/-- The order of a listing: directories first, then by name in lower case. -/
def ListEntry.le (a b : ListEntry) : Bool :=
  if a.isDir = b.isDir then x.toLowercase a.name ≤ x.toLowercase b.name else a.isDir

def listPath : Reply (List ListEntry) :=
  match safePath root rel with
  | .error e => ⟨.error e, [], t⟩
  | .ok dir =>
    if !isDir t dir then ⟨.error .notFound, [], t⟩
    else
      match readDir t dir with
      | none => ⟨.error .internalServerError, [], t⟩
      | some (d, es) =>
        -- the metadata of an entry is its own, also for a link
        let entries := es.map fun e => ⟨OsStr.toStringLossy e.1, e.2.shape = .dir, x.len e.2⟩
        ⟨.ok (entries.mergeSort (ListEntry.le x)), d :: es.map fun e => d ++ [e.1], t⟩

def downloadFile : Reply (List UInt8) :=
  match safePath root rel with
  | .error e => ⟨.error e, [], t⟩
  | .ok file =>
    if !isFile t file then ⟨.error .notFound, [], t⟩
    else
      match read t file with
      | none => ⟨.error .internalServerError, [], t⟩
      | some (d, data) => ⟨.ok data, [d], t⟩

mutual
/-- `WalkDir` below a directory: the names down to each entry, and its node. Links are entries,
and are not followed. -/
def walkDir (at' : OsPath) : List (OsStr × Fs) → List (OsPath × Fs)
  | [] => []
  | (n, c) :: es => walkNode (at' ++ [n]) c ++ walkDir at' es

def walkNode (at' : OsPath) : Fs → List (OsPath × Fs)
  | .dir es => (at', .dir es) :: walkDir at' es
  | .file b => [(at', .file b)]
  | .link target => [(at', .link target)]
  | .other => [(at', .other)]
end

def zipName (p : OsPath) : String :=
  .ofList ((OsStr.toStringLossy (List.intercalate [47] p)).toList.map fun c =>
    if c = '\\' then '/' else c)

def zipEntry (e : OsPath × Fs) : Option ZipEntry :=
  match e.2 with
  | .dir _ => some (zipName e.1 ++ "/", none)
  | .file b => some (zipName e.1, some b)
  | _ => none

/-- The path under which `zip_dir` opens an entry. -/
def entryPath (dir : PathBuf) (e : OsPath × Fs) : PathBuf := dir ++ e.1.map .normal

/-- `build_zip_response`. An entry whose path is too long to be opened ends the walk. -/
def buildZipResponse (dir : PathBuf) (archiveName : String) : Reply (String × List UInt8) :=
  match resolve t dir with
  | .found d =>
    let es := match t.get d with
      | some (.dir es) => (walkDir [] es).filter fun e => (zipEntry e).isSome
      | _ => []
    let opened := es.takeWhile fun e => pathOk (entryPath dir e)
    let touched := d :: opened.map fun e => d ++ e.1
    if opened.length = es.length then
      match x.writeZip (es.filterMap zipEntry) with
      | some bytes => ⟨.ok (archiveName ++ ".zip", bytes), touched, t⟩
      | none => ⟨.error .internalServerError, touched, t⟩
    else ⟨.error .internalServerError, touched, t⟩
  | _ => ⟨.error .internalServerError, [], t⟩

/-- `Path::file_name`. -/
def fileName (p : PathBuf) : Option OsStr :=
  match p.getLast? with
  | some (.normal n) => some n
  | _ => none

def downloadZip : Reply (String × List UInt8) :=
  match safePath root rel with
  | .error e => ⟨.error e, [], t⟩
  | .ok dir =>
    if !isDir t dir then ⟨.error .notFound, [], t⟩
    else buildZipResponse x t dir (((fileName dir).map OsStr.toStringLossy).getD "folder")

/-! ### Writing -/

/-- The first field of a body, read to its end: reading fails when the limit is passed. -/
def firstField (body : Multipart) : Except StatusCode (List UInt8) :=
  if body.taken ≤ defaultBodyLimit then
    match body.first with
    | none => .error .badRequest
    | some data => .ok data
  else .error .badRequest

/-- `Path::parent`, on the components from the last to the first. -/
def revParent (p : PathBuf) : List (Component OsStr) := p.reverse.tail

/-- What `upload_file` does to the tree once it has the path and the data. -/
def store (dest : PathBuf) (data : List UInt8) : Reply StatusCode :=
  -- an error of `create_dir_all` is dropped
  let r := createDirAll t (revParent dest)
  match openWrite r.fs dest with
  | some d => ⟨.ok .created, r.made ++ [d], writeAt r.fs d data⟩
  | none => ⟨.error .internalServerError, r.made, r.fs⟩

def uploadFile (body : Multipart) : Reply StatusCode :=
  match safePath root rel with
  | .error e => ⟨.error e, [], t⟩
  | .ok dest =>
    match firstField body with
    | .error e => ⟨.error e, [], t⟩
    | .ok data => store t dest data

inductive FileRequest
  | list (rel : String)
  | download (rel : String)
  | downloadZip (rel : String)
  | upload (rel : String) (body : Multipart)

def Reply.void {α : Type} (r : Reply α) : Reply Unit :=
  ⟨r.response.map fun _ => (), r.touched, r.fs⟩

def FileRequest.serve : FileRequest → Reply Unit
  | .list rel => (listPath x root t rel).void
  | .download rel => (downloadFile root t rel).void
  | .downloadZip rel => (Urc.downloadZip x root t rel).void
  | .upload rel body => (uploadFile root t rel body).void

end Urc
