import Urc.Client.Sessions

/-! # What `kill` signals

The descriptors name their tunnels by pid. A pid outlives its process: once the tunnel has ended it
may be given to any other one, and a number that no process can have stands for many of them. The
table of the processes tells the processes apart by the order in which they were started.
-/

namespace Urc

abbrev ProcId := ℕ

/-- A process. `id` is never given twice, `parent` is the command that has spawned it and still
runs, and a `zombie` has ended and keeps its pid. -/
structure Process where
  id : ProcId
  group : ℕ
  permitted : Bool
  parent : Option CommandId
  zombie : Bool
  deriving DecidableEq

/-- What `spawn_detached` has recorded: the tunnel, and how many processes had been started. -/
structure Provenance where
  tunnel : ProcId
  started : ℕ
  deriving DecidableEq

/-- A descriptor on file; one that was not written by `spawn_detached` records no tunnel. -/
structure StoredDescriptor where
  session : Sessions.Session
  record : Option Provenance
  deriving DecidableEq

structure Sigterm where
  stored : StoredDescriptor
  receivers : List Process

/-- Where `kill` stands. -/
inductive KillPc
  | listing (read : List StoredDescriptor)
  | pruning (todo kept : List StoredDescriptor)
  | selected (st : StoredDescriptor)
  | signalled (st : StoredDescriptor)

/-- The descriptors that a `kill` has read and not dropped. -/
def KillPc.held : KillPc → List StoredDescriptor
  | .listing read => read
  | .pruning todo kept => todo ++ kept
  | .selected st => [st]
  | .signalled st => [st]

/-- A command: `spawn_detached` with its child, or `kill` as a process of its own. -/
inductive Client
  | spawned (pid : ℕ) (tunnel : ProcId)
  | killing (self : Process) (target : String) (pc : KillPc)

/-- `next` counts the processes that have been started. -/
structure PidWorld where
  procs : AList fun _ : ℕ => Process
  next : ProcId
  files : String → Option StoredDescriptor
  commands : CommandId → Option Client
  sent : List Sigterm

/-- The next step of `kill`; `name` is a file that `list` comes to. -/
inductive KillStep
  | read (name : String)
  | endListing
  | check
  | select
  | signal
  | unlink
  deriving DecidableEq

inductive PidEvent
  | start (pid group : ℕ) (permitted : Bool)
  | exit (pid : ℕ)
  | edit (name : String) (content : Option Sessions.Session)
  | spawn (c : CommandId) (pid : ℕ)
  | record (c : CommandId) (s : Sessions.Session)
  | leave (c : CommandId)
  | kill (c : CommandId) (pid : ℕ) (target : String)
  | act (c : CommandId) (a : KillStep)
  deriving DecidableEq

/-- `pid as libc::pid_t`. -/
def pidT (pid : Pid) : ℤ := if pid.toNat < 2147483648 then pid.toNat else pid.toNat - 4294967296

def pick (kept : List StoredDescriptor) (target : String) : Option StoredDescriptor :=
  let all := kept.insertionSort fun a b => a.session.host ≤ b.session.host
  match parseU32 target with
  | some pid => all.find? fun st => st.session.pid = pid
  | none => all.find? fun st => st.session.host = target

namespace PidWorld

variable (other : String → Option String) (w : PidWorld)

def new : PidWorld := ⟨∅, 0, fun _ => none, fun _ => none, []⟩

/-- A process that `kill(p, _)` is for, as `self` calls it: the one with this pid, those of a group,
or all of them. -/
def Targets (self : Process) (p : ℤ) (pid : ℕ) (q : Process) : Prop :=
  if 0 < p then (pid : ℤ) = p
  else if p = 0 then q.group = self.group
  else if p = -1 then pid ≠ 1 ∧ q.id ≠ self.id
  else (q.group : ℤ) = -p

instance (self : Process) (p : ℤ) (pid : ℕ) (q : Process) : Decidable (Targets self p pid q) :=
  inferInstanceAs (Decidable (if 0 < p then (pid : ℤ) = p
    else if p = 0 then q.group = self.group
    else if p = -1 then pid ≠ 1 ∧ q.id ≠ self.id
    else (q.group : ℤ) = -p))

def receivers (self : Process) (p : ℤ) : List Process :=
  (w.procs.entries.filter fun e => e.2.permitted && Targets self p e.1 e.2).map (·.2)

/-- `pid_alive`. -/
def pidAlive (self : Process) (pid : Pid) : Bool :=
  (w.procs.lookup pid.toNat).isSome || w.receivers self (pidT pid) ≠ []

def setCommand (c : CommandId) (cmd : Option Client) : PidWorld :=
  { w with commands := Function.update w.commands c cmd }

def send (x : Sigterm) : PidWorld := { w with sent := w.sent ++ [x] }

def setFile (name : String) (st : Option StoredDescriptor) : PidWorld :=
  { w with files := Function.update w.files name st }

def startProcess (pid group : ℕ) (permitted : Bool) (parent : Option CommandId) : PidWorld :=
  { w with
    procs := w.procs.insert pid ⟨w.next, group, permitted, parent, false⟩
    next := w.next + 1 }

def Free (pid : ℕ) : Prop := 0 < pid ∧ pid < 2147483648 ∧ w.procs.lookup pid = none

instance (pid : ℕ) : Decidable (w.Free pid) :=
  inferInstanceAs (Decidable (0 < pid ∧ pid < 2147483648 ∧ w.procs.lookup pid = none))

/-- A process ends. The child of a running command is not reaped. -/
def exitProcess (pid : ℕ) : PidWorld :=
  match w.procs.lookup pid with
  | some q =>
    if q.parent = none then { w with procs := w.procs.erase pid }
    else { w with procs := w.procs.insert pid { q with zombie := true } }
  | none => w

def orphan (c : CommandId) (pid : ℕ) : PidWorld :=
  match w.procs.lookup pid with
  | some q =>
    if q.parent = some c then
      if q.zombie then { w with procs := w.procs.erase pid }
      else { w with procs := w.procs.insert pid { q with parent := none } }
    else w
  | none => w

/-- `sessions::remove`. -/
def removeFile (host : String) : PidWorld :=
  match sessionPath other host with
  | some name => w.setFile name none
  | none => w

/-- `sessions::write`, by the parent of the tunnel. -/
def writeFile (s : Sessions.Session) (pid : ℕ) (tunnel : ProcId) : PidWorld :=
  match sessionPath other s.host with
  | some name => w.setFile name (some ⟨{ s with pid := .ofNat pid }, some ⟨tunnel, w.next⟩⟩)
  | none => w

def killStep (c : CommandId) (self : Process) (target : String) (pc : KillPc) :
    KillStep → PidWorld
  | .read name =>
    match pc, w.files name with
    | .listing read, some st =>
      w.setCommand c (some (.killing self target (.listing (read ++ [st]))))
    | _, _ => w
  | .endListing =>
    match pc with
    | .listing read => w.setCommand c (some (.killing self target (.pruning read [])))
    | _ => w
  | .check =>
    match pc with
    | .pruning (st :: todo) kept =>
      if w.pidAlive self st.session.pid then
        w.setCommand c (some (.killing self target (.pruning todo (kept ++ [st]))))
      else
        (w.removeFile other st.session.host).setCommand c
          (some (.killing self target (.pruning todo kept)))
    | _ => w
  | .select =>
    match pc with
    | .pruning [] kept =>
      w.setCommand c ((pick kept target).map fun st => .killing self target (.selected st))
    | _ => w
  | .signal =>
    match pc with
    | .selected st =>
      let got := w.receivers self (pidT st.session.pid)
      (w.send ⟨st, got⟩).setCommand c
        (if got = [] then none else some (.killing self target (.signalled st)))
    | _ => w
  | .unlink =>
    match pc with
    | .signalled st => (w.removeFile other st.session.host).setCommand c none
    | _ => w

def step : PidEvent → PidWorld
  | .start pid group permitted =>
    if w.Free pid then w.startProcess pid group permitted none else w
  | .exit pid => w.exitProcess pid
  | .edit name content => w.setFile name (content.map fun s => ⟨s, none⟩)
  | .spawn c pid =>
    if w.commands c = none ∧ w.Free pid then
      (w.startProcess pid pid true (some c)).setCommand c (some (.spawned pid w.next))
    else w
  | .record c s =>
    match w.commands c with
    | some (.spawned pid tunnel) => w.writeFile other s pid tunnel
    | _ => w
  | .leave c =>
    match w.commands c with
    | some (.spawned pid _) => (w.setCommand c none).orphan c pid
    | _ => w.setCommand c none
  | .kill c pid target =>
    match w.commands c, w.procs.lookup pid with
    | none, some self => w.setCommand c (some (.killing self target (.listing [])))
    | _, _ => w
  | .act c a =>
    match w.commands c with
    | some (.killing self target pc) => w.killStep other c self target pc a
    | _ => w

/-! ### Whom a signal may reach -/

/-- Every signal went to one pid, and to no process but the tunnel that its descriptor records. -/
def Spares : Prop :=
  ∀ x ∈ w.sent, 0 < pidT x.stored.session.pid ∧
    ∀ q ∈ x.receivers, x.stored.record.map Provenance.tunnel = some q.id

/-- The number on file is a pid, and the process that has it now, if `kill` may signal it, had been
started when `spawn_detached` wrote the descriptor. -/
def StillHeld (st : StoredDescriptor) : Prop :=
  0 < st.session.pid.toNat ∧ st.session.pid.toNat < 2147483648 ∧
    ∀ q, w.procs.lookup st.session.pid.toNat = some q → q.permitted = true →
      ∃ r, st.record = some r ∧ q.id < r.started

/-- A signal is sent only for a pid that is still held. -/
def SignalsHeld : PidEvent → Prop
  | .act c .signal =>
    ∀ self target st, w.commands c = some (.killing self target (.selected st)) → w.StillHeld st
  | _ => True

/-! ### Descriptors and processes -/

/-- Of the processes that had been started when the descriptor was written, only the tunnel can
have its pid. -/
def Ok (st : StoredDescriptor) : Prop :=
  ∀ r, st.record = some r → r.tunnel < r.started ∧ r.started ≤ w.next ∧
    ∀ q, w.procs.lookup st.session.pid.toNat = some q → q.id < r.started → q.id = r.tunnel

/-- The child of a command has its pid as long as the command runs. -/
def CommandOk (c : CommandId) : Client → Prop
  | .spawned pid tunnel => 0 < pid ∧ pid < 2147483648 ∧ tunnel < w.next ∧
      ∃ q, w.procs.lookup pid = some q ∧ q.id = tunnel ∧ q.parent = some c
  | .killing _ _ pc => ∀ st ∈ pc.held, w.Ok st

structure Inv : Prop where
  files : ∀ name st, w.files name = some st → w.Ok st
  commands : ∀ c cmd, w.commands c = some cmd → w.CommandOk c cmd
  spares : w.Spares

/-- The processes of a later table: those started since, and of the earlier ones none at another
pid. -/
structure Later (w w' : PidWorld) : Prop where
  next : w.next ≤ w'.next
  procs : ∀ pid q', w'.procs.lookup pid = some q' →
    w.next ≤ q'.id ∨ ∃ q, w.procs.lookup pid = some q ∧ q.id = q'.id

def Kept (w w' : PidWorld) : Prop :=
  ∀ c pid q, w.commands c ≠ none → w.procs.lookup pid = some q → q.parent = some c →
    ∃ q', w'.procs.lookup pid = some q' ∧ q'.id = q.id ∧ q'.parent = some c

variable {other w} {w' : PidWorld} {st : StoredDescriptor} {c : CommandId} {cmd : Client} {pid : ℕ}
  {name host : String} {self q : Process} {p : ℤ}

theorem Ok.later (h : w.Ok st) (hl : Later w w') : w'.Ok st := by
  intro r hr
  obtain ⟨htunnel, hstarted, hheld⟩ := h r hr
  refine ⟨htunnel, hstarted.trans hl.next, fun q' hq' hlt => ?_⟩
  rcases hl.procs _ q' hq' with hnew | ⟨q, hq, hid⟩
  · exact absurd (hlt.trans_le hstarted) (Nat.not_lt.mpr hnew)
  · rw [← hid] at hlt ⊢
    exact hheld q hq hlt

theorem CommandOk.later (hsome : w.commands c ≠ none) (h : w.CommandOk c cmd) (hl : Later w w')
    (hk : Kept w w') : w'.CommandOk c cmd := by
  cases cmd with
  | spawned pid tunnel =>
    obtain ⟨hpos, hlt, htunnel, q, hq, hid, hparent⟩ := h
    obtain ⟨q', hq', hid', hparent'⟩ := hk c pid q hsome hq hparent
    exact ⟨hpos, hlt, htunnel.trans_le hl.next, q', hq', hid'.trans hid, hparent'⟩
  | killing self target pc => exact fun st hst => (h st hst).later hl

theorem Inv.later (h : w.Inv) (hl : Later w w') (hk : Kept w w') (hfiles : w'.files = w.files)
    (hcommands : w'.commands = w.commands) (hsent : w'.sent = w.sent) : w'.Inv where
  files name st hst := (h.files name st (by rwa [hfiles] at hst)).later hl
  commands c cmd hc := by
    rw [hcommands] at hc
    exact (h.commands c cmd hc).later (by simp [hc]) hl hk
  spares x hx := h.spares x (by rwa [hsent] at hx)

/-! ### The operations -/

theorem later_of_eq (hp : w'.procs = w.procs) (hn : w'.next = w.next) : Later w w' :=
  ⟨hn.ge, fun _ q' hq' => .inr ⟨q', by rwa [hp] at hq', rfl⟩⟩

theorem Ok.of_eq (h : w.Ok st) (hp : w'.procs = w.procs) (hn : w'.next = w.next) : w'.Ok st :=
  h.later (later_of_eq hp hn)

theorem CommandOk.of_eq (h : w.CommandOk c cmd) (hp : w'.procs = w.procs)
    (hn : w'.next = w.next) : w'.CommandOk c cmd := by
  cases cmd with
  | spawned pid tunnel => rwa [CommandOk, hp, hn]
  | killing self target pc => exact fun st hst => (h st hst).of_eq hp hn

theorem Inv.setCommand {cmd : Option Client} (h : w.Inv)
    (hc : ∀ x, cmd = some x → w.CommandOk c x) : (w.setCommand c cmd).Inv where
  files name st hst := (h.files name st hst).of_eq rfl rfl
  commands c' x hx := by
    by_cases heq : c' = c
    · subst heq
      exact (hc x (by simpa [PidWorld.setCommand] using hx)).of_eq rfl rfl
    · exact (h.commands c' x (by simpa [PidWorld.setCommand, heq] using hx)).of_eq rfl rfl
  spares := h.spares

theorem Inv.setFile {content : Option StoredDescriptor} (h : w.Inv)
    (hc : ∀ st, content = some st → w.Ok st) : (w.setFile name content).Inv where
  files name' st hst := by
    by_cases heq : name' = name
    · subst heq
      exact (hc st (by simpa [PidWorld.setFile] using hst)).of_eq rfl rfl
    · exact (h.files name' st (by simpa [PidWorld.setFile, heq] using hst)).of_eq rfl rfl
  commands c x hx := (h.commands c x hx).of_eq rfl rfl
  spares := h.spares

theorem removeFile_procs : (w.removeFile other host).procs = w.procs := by
  unfold PidWorld.removeFile
  split <;> rfl

theorem removeFile_next : (w.removeFile other host).next = w.next := by
  unfold PidWorld.removeFile
  split <;> rfl

theorem Inv.removeFile (h : w.Inv) : (w.removeFile other host).Inv := by
  unfold PidWorld.removeFile
  split
  · exact h.setFile (by simp)
  · exact h

theorem Inv.startProcess (h : w.Inv) (hfree : w.Free pid) (group : ℕ) (permitted : Bool)
    (parent : Option CommandId) : (w.startProcess pid group permitted parent).Inv := by
  refine h.later ⟨Nat.le_succ _, fun pid' q' hq' => ?_⟩
    (fun c pid' q hc hq hparent => ?_) rfl rfl rfl
  · by_cases heq : pid' = pid
    · subst heq
      left
      rw [PidWorld.startProcess, AList.lookup_insert] at hq'
      cases hq'
      exact le_rfl
    · rw [PidWorld.startProcess, AList.lookup_insert_ne heq] at hq'
      exact .inr ⟨q', hq', rfl⟩
  · have hne : pid' ≠ pid := by
      rintro rfl
      rw [hfree.2.2] at hq
      cases hq
    exact ⟨q, by rw [PidWorld.startProcess, AList.lookup_insert_ne hne]; exact hq, rfl, hparent⟩

theorem Inv.changeProcess {procs : AList fun _ : ℕ => Process} (h : w.Inv)
    (hq : w.procs.lookup pid = some q) (hne : ∀ pid', pid' ≠ pid →
      procs.lookup pid' = w.procs.lookup pid')
    (hsame : ∀ q', procs.lookup pid = some q' → q'.id = q.id)
    (hchild : ∀ c, w.commands c ≠ none → q.parent = some c →
      ∃ q', procs.lookup pid = some q' ∧ q'.parent = some c) :
    ({ w with procs := procs } : PidWorld).Inv := by
  refine h.later ⟨le_rfl, fun pid' q' hq' => .inr ?_⟩
    (fun c pid' q₁ hc hq₁ hparent => ?_) rfl rfl rfl
  · by_cases heq : pid' = pid
    · subst heq
      exact ⟨q, hq, (hsame q' hq').symm⟩
    · exact ⟨q', by rwa [hne pid' heq] at hq', rfl⟩
  · by_cases heq : pid' = pid
    · subst heq
      obtain rfl := Option.some.inj (hq.symm.trans hq₁)
      obtain ⟨q', hq', hparent'⟩ := hchild c hc hparent
      exact ⟨q', hq', hsame q' hq', hparent'⟩
    · exact ⟨q₁, by rwa [hne pid' heq], rfl, hparent⟩

theorem Inv.exitProcess (h : w.Inv) (pid : ℕ) : (w.exitProcess pid).Inv := by
  unfold PidWorld.exitProcess
  split
  · rename_i q hq
    split_ifs with hparent
    · refine h.changeProcess hq (fun _ hne => AList.lookup_erase_ne hne) ?_ ?_
      · simp
      · simp [hparent]
    · refine h.changeProcess hq (fun _ hne => AList.lookup_insert_ne hne) ?_ ?_
      · simp
      · simp
  · exact h

theorem Inv.orphan (h : w.Inv) (hc : w.commands c = none) (pid : ℕ) : (w.orphan c pid).Inv := by
  unfold PidWorld.orphan
  split
  · rename_i q hq
    split_ifs with hparent hzombie
    · refine h.changeProcess hq (fun _ hne => AList.lookup_erase_ne hne) ?_ ?_
      · simp
      · intro c' hc' hp
        rw [hparent, Option.some_inj] at hp
        exact absurd hc (hp ▸ hc')
    · refine h.changeProcess hq (fun _ hne => AList.lookup_insert_ne hne) ?_ ?_
      · simp
      · intro c' hc' hp
        rw [hparent, Option.some_inj] at hp
        exact absurd hc (hp ▸ hc')
    · exact h
  · exact h

/-- What `spawn_detached` writes down names its child: the pid cannot have been given away. -/
theorem Inv.writeFile {s : Sessions.Session} {tunnel : ProcId} (h : w.Inv)
    (hc : w.CommandOk c (.spawned pid tunnel)) : (w.writeFile other s pid tunnel).Inv := by
  unfold PidWorld.writeFile
  split
  · refine h.setFile ?_
    rintro st ⟨⟩
    obtain ⟨hpos, hlt, htunnel, q, hq, hid, -⟩ := hc
    rintro r ⟨⟩
    refine ⟨htunnel, le_rfl, fun q' hq' _ => ?_⟩
    have hpid : (UInt32.ofNat pid).toNat = pid := by
      rw [UInt32.toNat_ofNat']
      exact Nat.mod_eq_of_lt (by omega)
    dsimp only at hq'
    rw [hpid, hq, Option.some_inj] at hq'
    rw [← hq', hid]
  · exact h

/-! ### The signal -/

theorem pidT_pos (pid : Pid) : 0 < pidT pid ↔ 0 < pid.toNat ∧ pid.toNat < 2147483648 := by
  have hlt : pid.toNat < 4294967296 := pid.toNat_lt
  unfold pidT
  split_ifs <;> omega

/-- A signal to a pid reaches the process that has it. -/
theorem mem_receivers {pid : Pid} (hp : 0 < pidT pid) :
    q ∈ w.receivers self (pidT pid) ↔ w.procs.lookup pid.toNat = some q ∧ q.permitted = true := by
  have hcast : pidT pid = (pid.toNat : ℤ) := if_pos ((pidT_pos pid).mp hp).2
  have htargets : ∀ (n : ℕ) (q : Process), Targets self (pidT pid) n q ↔ n = pid.toNat := by
    intro n q
    rw [Targets, if_pos hp, hcast]
    exact Nat.cast_inj
  simp only [receivers, List.mem_map, List.mem_filter, Bool.and_eq_true, decide_eq_true_eq,
    htargets]
  constructor
  · rintro ⟨⟨n, q'⟩, ⟨hmem, hperm, rfl⟩, rfl⟩
    exact ⟨AList.mem_lookup_iff.mpr hmem, hperm⟩
  · rintro ⟨hq, hperm⟩
    exact ⟨⟨pid.toNat, q⟩, ⟨AList.mem_lookup_iff.mp hq, hperm, rfl⟩, rfl⟩

/-- A signal goes to the tunnel alone just when the pid on file is still held. -/
theorem spared_iff_stillHeld (h : w.Ok st) :
    (0 < pidT st.session.pid ∧ ∀ q ∈ w.receivers self (pidT st.session.pid),
      st.record.map Provenance.tunnel = some q.id) ↔ w.StillHeld st := by
  rw [StillHeld, ← and_assoc, ← pidT_pos]
  refine and_congr_right fun hp => ?_
  simp only [mem_receivers hp, and_imp]
  refine forall_congr' fun q => imp_congr_right fun hq => imp_congr_right fun _ => ?_
  cases hr : st.record with
  | none => simp
  | some r =>
    obtain ⟨htunnel, -, hheld⟩ := h r hr
    constructor
    · intro hid
      have hid' : r.tunnel = q.id := by simpa using hid
      exact ⟨r, rfl, hid' ▸ htunnel⟩
    · rintro ⟨r', hr', hlt⟩
      cases hr'
      simpa using (hheld q hq hlt).symm

theorem Inv.send {x : Sigterm} (h : w.Inv) (hx : 0 < pidT x.stored.session.pid ∧
    ∀ q ∈ x.receivers, x.stored.record.map Provenance.tunnel = some q.id) : (w.send x).Inv where
  files name st hst := (h.files name st hst).of_eq rfl rfl
  commands c cmd hc := (h.commands c cmd hc).of_eq rfl rfl
  spares y hy := by
    rcases List.mem_append.mp hy with hy | hy
    · exact h.spares y hy
    · obtain rfl := List.mem_singleton.mp hy
      exact hx

/-! ### The steps -/

theorem mem_of_pick {kept : List StoredDescriptor} {target : String}
    (h : pick kept target = some st) :
    st ∈ kept := by
  unfold pick at h
  dsimp only at h
  split at h <;> exact (List.mem_insertionSort _).mp (List.mem_of_find?_eq_some h)

theorem Inv.kill_read {target : String} {pc : KillPc} {name : String} (h : w.Inv)
    (hheld : ∀ st ∈ pc.held, w.Ok st) : (w.killStep other c self target pc (.read name)).Inv := by
  unfold PidWorld.killStep
  dsimp only
  split
  · rename_i read st hst
    refine h.setCommand ?_
    rintro x ⟨⟩ st' hst'
    rcases List.mem_append.mp hst' with hst' | hst'
    · exact hheld st' hst'
    · obtain rfl := List.mem_singleton.mp hst'
      exact h.files name _ hst
  · exact h

theorem Inv.kill_check {target : String} {pc : KillPc} (h : w.Inv)
    (hheld : ∀ st ∈ pc.held, w.Ok st) : (w.killStep other c self target pc .check).Inv := by
  unfold PidWorld.killStep
  dsimp only
  split
  · rename_i st todo kept
    split_ifs
    · refine h.setCommand ?_
      rintro x ⟨⟩ st' hst'
      refine hheld st' ?_
      simp only [KillPc.held, List.mem_append, List.mem_cons, List.not_mem_nil,
        or_false] at hst' ⊢
      rcases hst' with hst' | hst' | hst'
      · exact .inl (.inr hst')
      · exact .inr hst'
      · exact .inl (.inl hst')
    · refine h.removeFile.setCommand ?_
      rintro x ⟨⟩ st' hst'
      exact (hheld st' (List.mem_cons_of_mem _ hst')).of_eq removeFile_procs removeFile_next
  · exact h

theorem Inv.kill_select {target : String} {pc : KillPc} (h : w.Inv)
    (hheld : ∀ st ∈ pc.held, w.Ok st) : (w.killStep other c self target pc .select).Inv := by
  unfold PidWorld.killStep
  dsimp only
  split
  · rename_i kept
    refine h.setCommand fun x hx => ?_
    obtain ⟨st, hst, rfl⟩ := Option.map_eq_some_iff.mp hx
    intro st' hst'
    obtain rfl := List.mem_singleton.mp hst'
    exact hheld st' (by simpa [KillPc.held] using mem_of_pick hst)
  · exact h

theorem Inv.kill_signal {target : String} {pc : KillPc} (h : w.Inv)
    (hcmd : w.commands c = some (.killing self target pc)) (hheld : ∀ st ∈ pc.held, w.Ok st)
    (hgood : w.SignalsHeld (.act c .signal)) :
    (w.killStep other c self target pc .signal).Inv := by
  unfold PidWorld.killStep
  dsimp only
  split
  · rename_i st
    have hst : w.Ok st := hheld st (List.mem_singleton_self st)
    refine (h.send ((spared_iff_stillHeld hst).mpr (hgood self target st hcmd))).setCommand ?_
    intro x hx
    split_ifs at hx
    cases hx
    intro st' hst'
    obtain rfl := List.mem_singleton.mp hst'
    exact hst.of_eq rfl rfl
  · exact h

theorem Inv.killStep {target : String} {pc : KillPc} {a : KillStep} (h : w.Inv)
    (hcmd : w.commands c = some (.killing self target pc)) (hgood : w.SignalsHeld (.act c a)) :
    (w.killStep other c self target pc a).Inv := by
  have hheld : ∀ st ∈ pc.held, w.Ok st := h.commands c _ hcmd
  cases a with
  | read name => exact h.kill_read hheld
  | endListing =>
    unfold PidWorld.killStep
    dsimp only
    split
    · refine h.setCommand ?_
      rintro x ⟨⟩ st hst
      exact hheld st (by simpa [KillPc.held] using hst)
    · exact h
  | check => exact h.kill_check hheld
  | select => exact h.kill_select hheld
  | signal => exact h.kill_signal hcmd hheld hgood
  | unlink =>
    unfold PidWorld.killStep
    dsimp only
    split
    · exact h.removeFile.setCommand (by simp)
    · exact h

theorem Inv.step {e : PidEvent} (h : w.Inv) (hgood : w.SignalsHeld e) : (w.step other e).Inv := by
  cases e with
  | start pid group permitted =>
    unfold PidWorld.step
    dsimp only
    split_ifs with hfree
    · exact h.startProcess hfree group permitted none
    · exact h
  | exit pid => exact h.exitProcess pid
  | edit name content =>
    refine h.setFile fun st hst => ?_
    obtain ⟨s, -, rfl⟩ := Option.map_eq_some_iff.mp hst
    intro r hr
    cases hr
  | spawn c pid =>
    unfold PidWorld.step
    dsimp only
    split_ifs with hfree
    · refine (h.startProcess hfree.2 pid true (some c)).setCommand ?_
      rintro x ⟨⟩
      exact ⟨hfree.2.1, hfree.2.2.1, Nat.lt_succ_self _, _, AList.lookup_insert _, rfl, rfl⟩
    · exact h
  | record c s =>
    unfold PidWorld.step
    dsimp only
    split
    · rename_i pid tunnel hc
      exact h.writeFile (h.commands c _ hc)
    · exact h
  | leave c =>
    unfold PidWorld.step
    dsimp only
    split
    · refine Inv.orphan (h.setCommand (by simp)) ?_ _
      simp [PidWorld.setCommand]
    · exact h.setCommand (by simp)
  | kill c pid target =>
    unfold PidWorld.step
    dsimp only
    split
    · refine h.setCommand ?_
      rintro x ⟨⟩ st hst
      cases hst
    · exact h
  | act c a =>
    unfold PidWorld.step
    dsimp only
    split
    · rename_i self target pc hc
      exact h.killStep hc hgood
    · exact h

/-- A step that sends a signal and spares the others meets the condition. -/
theorem signalsHeld_of_spares {e : PidEvent} (h : w.Inv) (hs : (w.step other e).Spares) :
    w.SignalsHeld e := by
  cases e with
  | act c a =>
    cases a with
    | signal =>
      intro self target st hc
      have hst : w.Ok st := h.commands c _ hc st (List.mem_singleton_self st)
      have hsent : (w.step other (.act c .signal)).sent =
          w.sent ++ [⟨st, w.receivers self (pidT st.session.pid)⟩] := by
        rw [PidWorld.step, hc]
        rfl
      have hlast : (⟨st, w.receivers self (pidT st.session.pid)⟩ : Sigterm) ∈
          (w.step other (.act c .signal)).sent := by
        rw [hsent]
        exact List.mem_append_right _ (List.mem_singleton_self _)
      exact (spared_iff_stillHeld hst).mp (hs _ hlast)
    | _ => trivial
  | _ => trivial

theorem inv_new : new.Inv where
  files _ _ h := by cases h
  commands _ _ h := by cases h
  spares _ h := by cases h

/-- In every run, every signal goes to the tunnel that its descriptor records, and to it alone,
exactly when every pid that is signalled is still held. -/
theorem kill_spares_iff (other : String → Option String) (es : List PidEvent) :
    Transition.Always (step other) Spares new es ↔
      Transition.Steps (step other) SignalsHeld new es :=
  Transition.always_iff_steps_of_all (fun _ _ h hgood => h.step hgood) (fun _ h => h.spares)
    (fun _ _ h hs => signalsHeld_of_spares h hs) inv_new

def officeSession : Sessions.Session := ⟨"office", "100.64.0.7", 300, 8080, localUrl 8080, 0⟩

/-- The tunnel ends, an editor gets its pid, and `urc kill` comes after that. -/
def pidReused : List PidEvent :=
  [.start 100 100 true, .spawn 0 300, .record 0 officeSession, .leave 0, .exit 300,
    .start 300 100 true, .kill 1 100 "office", .act 1 (.read "office"), .act 1 .endListing,
    .act 1 .check, .act 1 .select, .act 1 .signal]

/-- A descriptor with the pid 0: the signal goes to the group of `urc` itself. -/
def pidZero : List PidEvent :=
  [.start 100 100 true, .edit "office" (some { officeSession with pid := 0 }),
    .kill 1 100 "office", .act 1 (.read "office"), .act 1 .endListing, .act 1 .check,
    .act 1 .select, .act 1 .signal]

theorem kill_strikes_others :
    (Transition.run (step fun _ => none) new pidReused).sent.map (fun x => x.receivers.map (·.id)) =
      [[2]] ∧
    (Transition.run (step fun _ => none) new pidZero).sent.map (fun x => x.receivers.map (·.id)) =
      [[0]] ∧
    ¬ ∀ other es, Transition.Always (step other) Spares new es := by
  have hzero : (Transition.run (step fun _ => none) new pidZero).sent.map
      (fun x => (x.stored.session.pid, x.receivers.map (·.id))) = [(0, [0])] := by decide +kernel
  refine ⟨by decide +kernel, by decide +kernel, fun h => ?_⟩
  have hspares := h (fun _ => none) pidZero pidZero List.prefix_rfl
  obtain ⟨x, hx, hpid⟩ := List.mem_map.mp (hzero ▸ List.mem_singleton_self ((0 : Pid), [0]))
  have hpos := (hspares x hx).1
  rw [(Prod.mk.inj hpid).1] at hpos
  exact absurd hpos (by decide)

end PidWorld

end Urc
