import Urc.Files.SafePath
import Urc.Library.Percent

/-! # Routes of the file API

`files_router` picks a handler for the method and the path of a request. A wildcard matches
the rest of the path if it is not empty, and the handler gets it with its percent
escapes undone.
-/

namespace Urc

inductive Method
  | get
  | post
  deriving DecidableEq

inductive Handler
  | listRoot
  | listDir
  | downloadFile
  | downloadZipRoot
  | downloadZip
  | uploadFile
  | health
  | hostInfo
  deriving DecidableEq

/-- The path of a route: one text, or all texts that go on after one. -/
inductive Pattern
  | exact (path : String)
  | wildcard (start : String)

structure Route where
  pattern : Pattern
  method : Method
  handler : Handler

def filesRouter : List Route :=
  [⟨.exact "/list", .get, .listRoot⟩,
    ⟨.wildcard "/list/", .get, .listDir⟩,
    ⟨.wildcard "/download/", .get, .downloadFile⟩,
    ⟨.exact "/download-zip", .get, .downloadZipRoot⟩,
    ⟨.wildcard "/download-zip/", .get, .downloadZip⟩,
    ⟨.wildcard "/upload/", .post, .uploadFile⟩,
    ⟨.exact "/health", .get, .health⟩,
    ⟨.exact "/host", .get, .hostInfo⟩]

/-- The part of a path that the wildcard of a pattern stands for, if the path matches. -/
def Pattern.param : Pattern → List Char → Option (List Char)
  | .exact s, path => if path = s.toList then some [] else none
  | .wildcard s, path => (path.dropPrefix? s.toList).filter (· ≠ [])

/-- The handler of a request and its path parameter. No two routes match the same path. -/
def serve (router : List Route) (m : Method) (path : List Char) :
    Except StatusCode (Handler × String) :=
  match router.findSome? fun r => (r.pattern.param path).map (r, ·) with
  | none => .error .notFound
  | some (r, rest) =>
    if m = r.method then
      match Percent.decodeUtf8 (Percent.decode rest) with
      | some s => .ok (r.handler, s)
      | none => .error .badRequest
    else .error .methodNotAllowed

/-- The routes of the web server that are under `/api` and belong to `files_router`. -/
def serveApi (m : Method) (path : List Char) : Except StatusCode (Handler × String) :=
  match path.dropPrefix? "/api".toList with
  | some path => serve filesRouter m path
  | none => .error .notFound

end Urc
