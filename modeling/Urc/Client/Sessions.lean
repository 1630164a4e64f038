import Urc.Client.Connect
import Urc.Library.Run
import Mathlib.Data.List.AList
import Mathlib.Data.List.Sort

/-! # Background sessions

Every background tunnel has a descriptor in a directory, one file for each host. The commands
`connect --bg`, `sessions` and `kill` read the directory, look at processes and change files in
single steps, and so do the tunnels when they end.
-/

namespace Urc

/-- With `.json` behind it, the host is the name of a file that `list` takes. -/
def Plain (host : String) : Prop := host ≠ "" ∧ '/' ∉ host.toList ∧ '\x00' ∉ host.toList

instance : DecidablePred Plain := fun host =>
  inferInstanceAs (Decidable (host ≠ "" ∧ '/' ∉ host.toList ∧ '\x00' ∉ host.toList))

abbrev CommandId := ℕ

/-- A file that has been truncated, or written over in part, holds no descriptor. `version` counts
the changes of the directory and serves to tell whether the file has changed. -/
structure SessionFile where
  inode : ℕ
  version : ℕ
  content : Option Sessions.Session
  deriving DecidableEq

/-- Where a tunnel stands: before its end, behind `ctrl_c`, behind the removal of its descriptor,
hit by SIGTERM, or dead and not reaped since its parent runs. -/
inductive TunnelPhase
  | serving
  | interrupted
  | cleaned
  | terminated
  | zombie
  deriving DecidableEq

/-- How far `spawn_detached` has come behind the spawn: to the return of `write`, and to its own. -/
inductive SpawnStage
  | pending
  | recorded
  | returned
  deriving DecidableEq

/-- `parent` is the command that has spawned the tunnel, as long as it runs. -/
structure Tunnel where
  host : String
  phase : TunnelPhase
  parent : Option CommandId
  stage : SpawnStage
  selected : Bool
  deriving DecidableEq

/-- A descriptor that `list` has read, and the version of the file. -/
structure Entry where
  session : Sessions.Session
  version : ℕ
  deriving DecidableEq

inductive Purpose
  | connect (peer : TailscalePeer) (port : UInt16)
  | sessions
  | kill (target : String)
  deriving DecidableEq

/-- Where a command stands. In `listing` the names in `pending` are still to come from `read_dir`,
and in `removing` the pid of `stale` has been found dead. -/
inductive CommandPc
  | starting
  | listing (pending : List String) (read : List Entry)
  | pruning (todo kept : List Entry)
  | removing (stale : Entry) (todo kept : List Entry)
  | spawning
  | spawned (pid : Pid)
  | opened (pid : Pid) (inode version : ℕ)
  | written (pid : Pid)
  | selected (e : Entry)
  | signalled (e : Entry)
  deriving DecidableEq

/-- `seen` is the version that the file of the host had when `list` opened the directory. -/
structure Command where
  purpose : Purpose
  pc : CommandPc
  seen : Option ℕ
  deriving DecidableEq

structure World where
  files : AList fun _ : String => SessionFile
  tunnels : Pid → Option Tunnel
  clock : ℕ

/-- The next step of a command. The flags tell what the rest of the system does: another process
has the pid, or the bytes of a write end behind those that another write has left. -/
inductive CommandStep
  | openDir
  | readEntry (name : String)
  | endListing
  | check (alive : Bool)
  | prune
  | conclude
  | spawn (pid : Pid)
  | openFile
  | writeFile (now : ℕ) (whole : Bool)
  | ret
  | signal (delivered : Bool)
  | unlink
  | abandon
  deriving DecidableEq

inductive SessionEvent
  | run (c : CommandId) (purpose : Purpose)
  | act (c : CommandId) (a : CommandStep)
  | interrupt (pid : Pid)
  | cleanup (pid : Pid) (host : String)
  | exit (pid : Pid)
  deriving DecidableEq

structure Sessions where
  world : World
  commands : CommandId → Option Command

def Purpose.host : Purpose → Option String
  | .connect peer _ => some peer.name
  | _ => none

/-- `sessions::find` on the list that `sessions::list` returns. -/
def findSession (kept : List Entry) (target : String) : Option Entry :=
  let all := kept.insertionSort fun a b => a.session.host ≤ b.session.host
  match parseU32 target with
  | some pid => all.find? fun e => e.session.pid = pid
  | none => all.find? fun e => e.session.host = target

-- the file of the directory, if any, that the path of a host leads to when its name is not plain
variable (other : String → Option String)

/-- `session_path`. -/
def sessionPath (host : String) : Option String := if Plain host then some host else other host

namespace World

def new : World := ⟨∅, fun _ => none, 0⟩

def adjust (w : World) (pid : Pid) (f : Tunnel → Option Tunnel) : World :=
  { w with tunnels := Function.update w.tunnels pid ((w.tunnels pid).bind f) }

/-- `sessions::remove`. -/
def remove (w : World) (host : String) : World :=
  match sessionPath other host with
  | some name => { w with files := w.files.erase name }
  | none => w

def spawn (w : World) (c : CommandId) (pid : Pid) (host : String) : World :=
  { w with
    tunnels := Function.update w.tunnels pid (some ⟨host, .serving, some c, .pending, false⟩) }

def put (w : World) (name : String) (inode : ℕ) (content : Option Sessions.Session) : World :=
  { w with files := w.files.insert name ⟨inode, w.clock, content⟩, clock := w.clock + 1 }

/-- The inode that an open gives for the file: the present one, or a new one. -/
def inodeAt (w : World) (host : String) : ℕ :=
  match (sessionPath other host).bind w.files.lookup with
  | some f => f.inode
  | none => w.clock

/-- `File::create`. -/
def openFile (w : World) (host : String) : World :=
  match sessionPath other host with
  | some name => w.put name (w.inodeAt other host) none
  | none => { w with clock := w.clock + 1 }

/-- The bytes of the descriptor go to the inode that was opened, and into the directory if it is
still linked there. -/
def writeFile (w : World) (host : String) (inode version : ℕ) (session : Sessions.Session)
    (whole : Bool) : World :=
  match sessionPath other host with
  | some name =>
    match w.files.lookup name with
    | some f =>
      if f.inode = inode then
        w.put name inode (if f.version = version ∨ whole then some session else none)
      else w
    | none => w
  | none => w

end World

namespace Tunnel

def select (t : Tunnel) : Option Tunnel := some { t with selected := true }

def terminate (t : Tunnel) : Option Tunnel :=
  if t.phase = .zombie then some t else some { t with phase := .terminated }

def interrupt (t : Tunnel) : Option Tunnel :=
  if t.phase = .serving then some { t with phase := .interrupted } else some t

def clean (t : Tunnel) : Option Tunnel := some { t with phase := .cleaned }

def exit (t : Tunnel) : Option Tunnel :=
  if t.parent = none then none else some { t with phase := .zombie }

def advance (stage : SpawnStage) (t : Tunnel) : Option Tunnel := some { t with stage := stage }

def orphan (c : CommandId) (t : Tunnel) : Option Tunnel :=
  if t.parent = some c then
    if t.phase = .zombie then none else some { t with parent := none }
  else some t

end Tunnel

namespace CommandPc

def child : CommandPc → Option Pid
  | .spawned pid => some pid
  | .opened pid _ _ => some pid
  | .written pid => some pid
  | _ => none

end CommandPc

def World.orphan (w : World) (c : CommandId) (pc : CommandPc) : World :=
  match pc.child with
  | some pid => w.adjust pid (Tunnel.orphan c)
  | none => w

/-- What a command does to the world, and where it stands afterwards. -/
def act (w : World) (c : CommandId) (cmd : Command) : CommandStep → World × Option Command
  | .openDir =>
    match cmd.pc with
    | .starting => (w, some { cmd with
        pc := .listing w.files.keys [],
        seen := (cmd.purpose.host.bind w.files.lookup).map SessionFile.version })
    | _ => (w, some cmd)
  | .readEntry name =>
    match cmd.pc with
    | .listing pending read =>
      -- an entry that has come since the directory was opened may be returned, too
      let entries := match w.files.lookup name with
        | some ⟨_, version, some session⟩ => read ++ [⟨session, version⟩]
        | _ => read
      (w, some { cmd with pc := .listing (pending.erase name) entries })
    | _ => (w, some cmd)
  | .endListing =>
    match cmd.pc with
    | .listing [] read => (w, some { cmd with pc := .pruning read [] })
    | _ => (w, some cmd)
  | .check alive =>
    match cmd.pc with
    | .pruning (e :: todo) kept =>
      if alive ∨ (w.tunnels e.session.pid).isSome then
        (w, some { cmd with pc := .pruning todo (kept ++ [e]) })
      else (w, some { cmd with pc := .removing e todo kept })
    | _ => (w, some cmd)
  | .prune =>
    match cmd.pc with
    | .removing stale todo kept =>
      (w.remove other stale.session.host, some { cmd with pc := .pruning todo kept })
    | _ => (w, some cmd)
  | .conclude =>
    match cmd.pc with
    | .pruning [] kept =>
      match cmd.purpose with
      | .connect peer _ =>
        match findSession kept peer.name with
        | some _ => (w, none)
        | none => (w, some { cmd with pc := .spawning })
      | .sessions => (w, none)
      | .kill target =>
        match findSession kept target with
        | some e => (w.adjust e.session.pid Tunnel.select, some { cmd with pc := .selected e })
        | none => (w, none)
    | _ => (w, some cmd)
  | .spawn pid =>
    match cmd.purpose, cmd.pc with
    | .connect peer _, .spawning =>
      if w.tunnels pid = none then
        (w.spawn c pid peer.name, some { cmd with pc := .spawned pid })
      else (w, some cmd)
    | _, _ => (w, some cmd)
  | .openFile =>
    match cmd.purpose, cmd.pc with
    | .connect peer _, .spawned pid =>
      (w.openFile other peer.name,
        some { cmd with pc := .opened pid (w.inodeAt other peer.name) w.clock })
    | _, _ => (w, some cmd)
  | .writeFile now whole =>
    match cmd.purpose, cmd.pc with
    | .connect peer port, .opened pid inode version =>
      ((w.writeFile other peer.name inode version (descriptor peer port pid now) whole).adjust pid
        (Tunnel.advance .recorded), some { cmd with pc := .written pid })
    | _, _ => (w, some cmd)
  | .ret =>
    match cmd.pc with
    | .written pid => ((w.adjust pid (Tunnel.advance .returned)).orphan c cmd.pc, none)
    | _ => (w, some cmd)
  | .signal delivered =>
    match cmd.pc with
    | .selected e =>
      if delivered ∨ (w.tunnels e.session.pid).isSome then
        (w.adjust e.session.pid Tunnel.terminate, some { cmd with pc := .signalled e })
      else (w, none)
    | _ => (w, some cmd)
  | .unlink =>
    match cmd.pc with
    | .signalled e => (w.remove other e.session.host, none)
    | _ => (w, some cmd)
  -- an error, or the end of the process
  | .abandon => (w.orphan c cmd.pc, none)

namespace Sessions

def new : Sessions := ⟨.new, fun _ => none⟩

def step (s : Sessions) : SessionEvent → Sessions
  | .run c purpose =>
    if s.commands c = none then
      { s with commands := Function.update s.commands c (some ⟨purpose, .starting, none⟩) }
    else s
  | .act c a =>
    match s.commands c with
    | some cmd =>
      ⟨(Urc.act other s.world c cmd a).1,
        Function.update s.commands c (Urc.act other s.world c cmd a).2⟩
    | none => s
  | .interrupt pid =>
    { s with world := s.world.adjust pid Tunnel.interrupt }
  | .cleanup pid host =>
    -- `host` is the peer that the child has resolved
    if (s.world.tunnels pid).map Tunnel.phase = some .interrupted then
      { s with world := (s.world.remove other host).adjust pid Tunnel.clean }
    else s
  | .exit pid => { s with world := s.world.adjust pid Tunnel.exit }

end Sessions

end Urc
