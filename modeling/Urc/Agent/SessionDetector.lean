import Urc.Common.Config
import Urc.Common.Text

/-! # Session detection

The agent asks loginctl for the login sessions and takes the first active one of a kind that it
serves. A session of another kind ends the search, wherever the desktop stands in the list.
-/

namespace Urc

inductive BackendKind
  | x11
  | gnomeWayland
  | wlrootsWayland
  deriving DecidableEq

structure SessionInfo where
  backendKind : BackendKind
  display : Option String
  waylandDisplay : Option String
  xauthority : Option String
  username : String
  deriving DecidableEq

/-- A command that has run: whether it succeeded, and its standard output as a text. -/
structure Output where
  success : Bool
  stdout : String
  deriving DecidableEq

/-- What the detector asks the machine for. `none` stands for a command or a directory that cannot
be run or read; an entry of `/tmp/.X11-unix` has its owner if that can be read. -/
structure LoginHost where
  listSessions : Option Output
  showSession : String → Option Output
  who : Option Output
  userDisplay : String → Option Output
  currentDesktop : String → Option Output
  x11Unix : Option (List (String × Option UInt32))
  gdmXauthority : UInt32 → Bool
  runUser : UInt32 → Option (List String)
  env : String → Option String
  toLowercase : String → String

/-- What `show-session` says of a session. -/
structure Shown where
  type : String
  display : Option String
  username : Option String
  active : Bool
  deriving DecidableEq

inductive DetectError
  | notAvailable
  | failed
  | showFailed
  | unsupportedDesktop (desktop : String)
  | unrecognizedDesktop
  | unsupportedType (type : String)
  | noSession
  deriving DecidableEq

/-- What the loop makes of a line: `continue`, `return Ok`, or an error that ends the search. -/
inductive Pass
  | next
  | found (info : SessionInfo)
  | bail (e : DetectError)
  deriving DecidableEq

namespace LoginHost

variable (m : LoginHost)

/-- The first display that `who` lists for the user. -/
def displayFromWho (username : String) : Option String :=
  match m.who with
  | some ⟨true, stdout⟩ => go username (lines stdout)
  | _ => none
where
  go (username : String) : List String → Option String
    | [] => none
    | line :: rest =>
      match splitWhitespace line with
      -- a line without a second word ends the search, as an empty line does
      | [] => none
      | user :: words =>
        if user ≠ username then go username rest
        else
          match words with
          | [] => none
          | disp :: _ =>
            if disp.toList.head? = some ':' ∧ disp.toList.all (fun c => c = ':' || c.isDigit) then
              some disp
            else go username rest

/-- The highest display with a socket of the user. -/
def displayFromX11Unix (uid : UInt32) : Option String := do
  let entries ← m.x11Unix
  let numbered := entries.filterMap fun e =>
    ((stripPrefix e.1 "X").bind parseU32).map fun n => (n, e.2)
  -- an owner that cannot be read ends the search
  let owned ← numbered.mapM fun e => e.2.map fun owner => (e.1, owner)
  let found := (owned.filter fun e => e.2 = uid).map (·.1.toNat)
  (found.max?).map fun n => ":" ++ toString n

def userDisplayEnv (username : String) : Option String :=
  match m.userDisplay username with
  | some ⟨true, stdout⟩ =>
    if (trim stdout).toList.head? = some ':' then some (trim stdout) else none
  | _ => none

def runUserPath (uid : UInt32) (name : String) : String :=
  "/run/user/" ++ toString uid.toNat ++ "/" ++ name

def resolveXauthority (uid : UInt32) : Option String :=
  if m.gdmXauthority uid then some (runUserPath uid "gdm/Xauthority")
  else (m.runUser uid).bind fun names =>
    (names.find? fun name =>
      (stripPrefix name ".mutter-Xwaylandauth").isSome || name = "Xauthority").map (runUserPath uid)

/-- `glob_xauthority`: the text behind the star of its pattern is empty, so every name fits. -/
def globXauthority (uid : UInt32) : Option String :=
  (m.runUser uid).bind fun names => names.head?.map (runUserPath uid)

/-- The first desktop of `XDG_CURRENT_DESKTOP`, in lower case. -/
def detectDesktop (username : String) : Option String :=
  (m.currentDesktop username).bind fun out =>
    let s := m.toLowercase (trim out.stdout)
    if s = "" then none else some (.ofList (s.toList.takeWhile (· ≠ ':')))

end LoginHost

/-- One line of `show-session`. -/
def Shown.read (s : Shown) (l : String) : Shown :=
  match stripPrefix l "Type=" with
  | some v => { s with type := v }
  | none =>
    match stripPrefix l "Display=" with
    | some v => if v = "" then s else { s with display := some v }
    | none =>
      match stripPrefix l "Name=" with
      | some v => { s with username := some v }
      | none => if l = "Active=yes" then { s with active := true } else s

def Shown.ofText (text : String) : Shown := (lines text).foldl Shown.read ⟨"", none, none, false⟩

def backendKind (type : String) (desktop : Option String) : Except DetectError BackendKind :=
  if type = "x11" then .ok .x11
  else if type = "wayland" then
    match desktop with
    | some d =>
      if d = "gnome" ∨ d = "ubuntu" then .ok .gnomeWayland
      else if d = "sway" ∨ d = "hyprland" ∨ d = "wayfire" then .ok .wlrootsWayland
      else .error (.unsupportedDesktop d)
    | none => .error .unrecognizedDesktop
  else .error (.unsupportedType type)

/-- The session and its user id, if the line has one that is not root's. -/
def sessionOfLine (line : String) : Option (String × UInt32) :=
  match splitWhitespace line with
  | sessionId :: uid :: _ :: _ =>
    let uid := (parseU32 uid).getD 0
    if uid = 0 then none else some (sessionId, uid)
  | _ => none

namespace SessionDetector

variable (m : LoginHost)

def username (uid : UInt32) (s : Shown) : String := s.username.getD ("uid" ++ toString uid.toNat)

def xauthority (uid : UInt32) (s : Shown) : Option String :=
  if s.type = "x11" then
    (m.resolveXauthority uid).or (some (LoginHost.runUserPath uid "gdm/Xauthority"))
  else (m.globXauthority uid).or (m.resolveXauthority uid)

def display (uid : UInt32) (s : Shown) : Option String :=
  if s.type = "x11" then
    s.display.or ((m.displayFromWho (username uid s)).or
      ((m.displayFromX11Unix uid).or (m.userDisplayEnv (username uid s))))
  else s.display

def info (kind : BackendKind) (uid : UInt32) (s : Shown) : SessionInfo where
  backendKind := kind
  display := display m uid s
  waylandDisplay := if s.type = "wayland" then some "wayland-0" else display m uid s
  xauthority := xauthority m uid s
  username := username uid s

/-- One pass of the loop. -/
def inspect (line : String) : Pass :=
  match sessionOfLine line with
  | none => .next
  | some (sessionId, uid) =>
    match m.showSession sessionId with
    | none => .bail .showFailed
    | some out =>
      if out.success = false then .next
      else
        let s := Shown.ofText out.stdout
        if s.active = false then .next
        else
          match backendKind s.type (m.detectDesktop (username uid s)) with
          | .ok kind => .found (info m kind uid s)
          | .error e => .bail e

def search : List String → Except DetectError SessionInfo
  | [] => .error .noSession
  | line :: rest =>
    match inspect m line with
    | .next => search rest
    | .found info => .ok info
    | .bail e => .error e

def fromLoginctl : Except DetectError SessionInfo :=
  match m.listSessions with
  | none => .error .notAvailable
  | some out => if out.success then search m (lines out.stdout) else .error .failed

def allows (kind : BackendKind) : BackendPreference → Bool
  | .auto => true
  | .x11 => kind = .x11
  | .gnome => kind = .gnomeWayland
  | .wayvnc => kind = .wlrootsWayland

def applyPreference (i : SessionInfo) (preference : BackendPreference) : Option SessionInfo :=
  if allows i.backendKind preference then some i else none

/-- The backend of a Wayland session that the agent itself runs in. -/
def envKind (desktop : Option String) : Option BackendKind :=
  if desktop = some "gnome" ∨ desktop = some "ubuntu" then some .gnomeWayland
  else if desktop = some "sway" ∨ desktop = some "hyprland" then some .wlrootsWayland
  else none

def fromEnv (preference : BackendPreference) : Option SessionInfo :=
  let uid := ((m.env "UID").bind parseU32).getD 1000
  let username := (m.env "USER").getD ("uid" ++ toString uid.toNat)
  match m.env "WAYLAND_DISPLAY", m.env "DISPLAY" with
  | some wayland, _ => (envKind (m.detectDesktop username)).bind fun kind =>
      applyPreference ⟨kind, none, some wayland, m.env "XAUTHORITY", username⟩ preference
  | none, some display =>
    applyPreference ⟨.x11, some display, none, m.env "XAUTHORITY", username⟩ preference
  | none, none => none

def detect (preference : BackendPreference) : Option SessionInfo :=
  match fromLoginctl m with
  | .ok i => applyPreference i preference
  | .error _ => fromEnv m preference

/-! ### What the search is for -/

def reported : List String :=
  match m.listSessions with
  | some ⟨true, stdout⟩ => lines stdout
  | _ => []

/-- The line reports an active session of a user other than root. -/
def Active (line : String) (uid : UInt32) (s : Shown) : Prop :=
  ∃ sessionId stdout, sessionOfLine line = some (sessionId, uid) ∧
    m.showSession sessionId = some ⟨true, stdout⟩ ∧ s = Shown.ofText stdout ∧ s.active = true

/-- X11, or Wayland with one of the desktops that a backend serves. -/
def SupportedKind (s : Shown) (desktop : Option String) (kind : BackendKind) : Prop :=
  s.type = "x11" ∧ kind = .x11 ∨
  s.type = "wayland" ∧
    ((desktop = some "gnome" ∨ desktop = some "ubuntu") ∧ kind = .gnomeWayland ∨
      (desktop = some "sway" ∨ desktop = some "hyprland" ∨ desktop = some "wayfire") ∧
        kind = .wlrootsWayland)

/-- The line reports a session that can be served, as this `SessionInfo`. -/
def Usable (line : String) (i : SessionInfo) : Prop :=
  ∃ uid s kind, Active m line uid s ∧
    SupportedKind s (m.detectDesktop (username uid s)) kind ∧ i = info m kind uid s

/-- The first of the usable sessions is returned, and there is one whenever any is. -/
def FindsFirst : Prop :=
  ((∃ i, fromLoginctl m = .ok i) ↔ ∃ line ∈ reported m, ∃ i, Usable m line i) ∧
  ∀ before line after i, reported m = before ++ line :: after → Usable m line i →
    (∀ l ∈ before, ∀ i, ¬ Usable m l i) → fromLoginctl m = .ok i

/-- The line reports an active session that cannot be served, or `show-session` cannot be run. -/
def Blocking (line : String) : Prop :=
  (∃ uid s, Active m line uid s ∧
    ∀ kind, ¬ SupportedKind s (m.detectDesktop (username uid s)) kind) ∨
  ∃ sessionId uid, sessionOfLine line = some (sessionId, uid) ∧ m.showSession sessionId = none

/-- No such line stands before the first usable session. -/
def Unblocked : Prop :=
  ∀ before line after i, reported m = before ++ line :: after → Usable m line i →
    (∀ l ∈ before, ∀ i, ¬ Usable m l i) → ∀ l ∈ before, ¬ Blocking m l

end SessionDetector

/-! ### The search -/

namespace SessionDetector

variable {m : LoginHost} {line : String} {ls before after : List String} {i : SessionInfo}
  {s : Shown} {desktop : Option String} {kind : BackendKind}

theorem backendKind_eq_ok :
    backendKind s.type desktop = .ok kind ↔ SupportedKind s desktop kind := by
  unfold backendKind SupportedKind
  split_ifs with hx hw
  · have hne : s.type ≠ "wayland" := by
      rw [hx]
      decide
    simp [hx, eq_comm]
  · cases desktop with
    | none => simp [hw]
    | some d =>
      simp only [Option.some.injEq]
      split_ifs with hg hr
      · have hne : ¬ (d = "sway" ∨ d = "hyprland" ∨ d = "wayfire") := by
          rcases hg with rfl | rfl <;> decide
        simp [hw, hg, hne, eq_comm]
      · simp [hw, hg, hr, eq_comm]
      · simp [hw, hg, hr]
  · simp [hx, hw]

/-- A pass finds the session of a line just when it is usable. -/
theorem inspect_eq_found : inspect m line = .found i ↔ Usable m line i := by
  constructor
  · intro h
    unfold inspect at h
    split at h
    · cases h
    · rename_i sessionId uid hline
      split at h
      · cases h
      · rename_i out hshow
        obtain ⟨success, stdout⟩ := out
        split_ifs at h with hfail
        dsimp only at h hfail
        split_ifs at h with hact
        split at h
        · rename_i kind hkind
          obtain rfl : success = true := by simpa using hfail
          cases h
          exact ⟨uid, _, kind, ⟨sessionId, stdout, hline, hshow, rfl, by simpa using hact⟩,
            backendKind_eq_ok.mp hkind, rfl⟩
        · cases h
  · rintro ⟨uid, s, kind, ⟨sessionId, stdout, hline, hshow, rfl, hact⟩, hkind, rfl⟩
    simp [inspect, hline, hshow, hact, backendKind_eq_ok.mpr hkind]

/-- A pass ends the search with an error just when the line blocks it. -/
theorem inspect_eq_bail : (∃ e, inspect m line = .bail e) ↔ Blocking m line := by
  constructor
  · rintro ⟨e, h⟩
    unfold inspect at h
    split at h
    · cases h
    · rename_i sessionId uid hline
      split at h
      · rename_i hshow
        exact .inr ⟨sessionId, uid, hline, hshow⟩
      · rename_i out hshow
        obtain ⟨success, stdout⟩ := out
        split_ifs at h with hfail
        dsimp only at h hfail
        split_ifs at h with hact
        split at h
        · cases h
        · rename_i e' hkind
          obtain rfl : success = true := by simpa using hfail
          refine .inl ⟨uid, _, ⟨sessionId, stdout, hline, hshow, rfl, by simpa using hact⟩, ?_⟩
          intro kind hsup
          rw [backendKind_eq_ok.mpr hsup] at hkind
          cases hkind
  · rintro (⟨uid, s, ⟨sessionId, stdout, hline, hshow, rfl, hact⟩, hnone⟩ |
      ⟨sessionId, uid, hline, hshow⟩)
    · cases hkind : backendKind (Shown.ofText stdout).type
        (m.detectDesktop (username uid (Shown.ofText stdout))) with
      | ok kind => exact absurd (backendKind_eq_ok.mp hkind) (hnone kind)
      | error e => exact ⟨e, by simp [inspect, hline, hshow, hact, hkind]⟩
    · exact ⟨.showFailed, by simp [inspect, hline, hshow]⟩

theorem inspect_eq_next (hu : ∀ i, ¬ Usable m line i) (hb : ¬ Blocking m line) :
    inspect m line = .next := by
  cases h : inspect m line with
  | next => rfl
  | found i => exact absurd (inspect_eq_found.mp h) (hu i)
  | bail e => exact absurd (inspect_eq_bail.mp ⟨e, h⟩) hb

@[simp] theorem search_nil (m : LoginHost) : search m [] = .error .noSession := rfl

theorem search_cons (m : LoginHost) (line : String) (rest : List String) :
    search m (line :: rest) = match inspect m line with
      | .next => search m rest
      | .found info => .ok info
      | .bail e => .error e := rfl

theorem search_eq_ok : search m ls = .ok i ↔ ∃ before line after, ls = before ++ line :: after ∧
    (∀ l ∈ before, inspect m l = .next) ∧ inspect m line = .found i := by
  induction ls with
  | nil => simp
  | cons l ls ih =>
    constructor
    · intro h
      rw [search_cons] at h
      split at h
      · rename_i hl
        obtain ⟨before, line, after, rfl, hbefore, hline⟩ := ih.mp h
        refine ⟨l :: before, line, after, rfl, ?_, hline⟩
        rintro l' (_ | ⟨_, hl'⟩)
        · exact hl
        · exact hbefore l' hl'
      · rename_i hl
        cases h
        exact ⟨[], l, ls, rfl, by simp, hl⟩
      · cases h
    · rintro ⟨before, line, after, hls, hbefore, hline⟩
      cases before with
      | nil =>
        cases hls
        simp [search_cons, hline]
      | cons l' before =>
        cases hls
        rw [search_cons, hbefore l List.mem_cons_self]
        exact ih.mpr ⟨before, line, after, rfl, fun y hy => hbefore y (List.mem_cons_of_mem _ hy),
          hline⟩

theorem fromLoginctl_eq_ok : fromLoginctl m = .ok i ↔ search m (reported m) = .ok i := by
  unfold fromLoginctl reported
  cases m.listSessions with
  | none => simp
  | some out =>
    obtain ⟨success, stdout⟩ := out
    cases success <;> simp

theorem exists_first (h : ∃ line ∈ ls, ∃ i, Usable m line i) :
    ∃ before line after i, ls = before ++ line :: after ∧ Usable m line i ∧
      ∀ l ∈ before, ∀ i, ¬ Usable m l i := by
  classical
  have hsome : (ls.find? fun line => ∃ i, Usable m line i).isSome := by
    simpa [List.find?_isSome] using h
  obtain ⟨line, hfind⟩ := Option.isSome_iff_exists.mp hsome
  obtain ⟨hu, before, after, hsplit, hbefore⟩ := List.find?_eq_some_iff_append.mp hfind
  obtain ⟨i, hi⟩ := of_decide_eq_true hu
  exact ⟨before, line, after, i, hsplit, hi, by simpa using hbefore⟩

theorem FindsFirst.unblocked (h : FindsFirst m) : Unblocked m := by
  intro before line after i hsplit hu hbefore l hl hb
  have hok := h.2 before line after i hsplit hu hbefore
  obtain ⟨before', line', after', hsplit', hnext, hfound⟩ :=
    search_eq_ok.mp (fromLoginctl_eq_ok.mp hok)
  obtain ⟨e, he⟩ := inspect_eq_bail.mpr hb
  rcases List.append_eq_append_iff.mp (hsplit.symm.trans hsplit') with
    ⟨rest, rfl, -⟩ | ⟨rest, rfl, hrest⟩
  · -- the search has passed over the blocking line
    rw [hnext l (List.mem_append_left _ hl)] at he
    cases he
  · cases rest with
    | nil =>
      rw [hnext l (by simpa using hl)] at he
      cases he
    | cons y rest =>
      obtain ⟨rfl, -⟩ := List.cons.inj hrest
      exact hbefore line' (by simp) i (inspect_eq_found.mp hfound)

theorem Unblocked.findsFirst (h : Unblocked m) : FindsFirst m := by
  have hfirst : ∀ before line after i, reported m = before ++ line :: after → Usable m line i →
      (∀ l ∈ before, ∀ i, ¬ Usable m l i) → fromLoginctl m = .ok i := by
    intro before line after i hsplit hu hbefore
    refine fromLoginctl_eq_ok.mpr (search_eq_ok.mpr ⟨before, line, after, hsplit, ?_,
      inspect_eq_found.mpr hu⟩)
    exact fun l hl => inspect_eq_next (hbefore l hl) (h before line after i hsplit hu hbefore l hl)
  refine ⟨⟨?_, ?_⟩, hfirst⟩
  · rintro ⟨i, hi⟩
    obtain ⟨before, line, after, hsplit, -, hfound⟩ := search_eq_ok.mp (fromLoginctl_eq_ok.mp hi)
    exact ⟨line, by simp [hsplit], i, inspect_eq_found.mp hfound⟩
  · intro hex
    obtain ⟨before, line, after, i, hsplit, hu, hbefore⟩ := exists_first hex
    exact ⟨i, hfirst before line after i hsplit hu hbefore⟩

/-- Where nothing blocks the search, the agent takes the first usable session, or none where the
preference excludes its backend. -/
theorem Unblocked.detect (h : Unblocked m) {before after : List String}
    (hsplit : reported m = before ++ line :: after) (hu : Usable m line i)
    (hbefore : ∀ l ∈ before, ∀ i, ¬ Usable m l i) (preference : BackendPreference) :
    detect m preference = if allows i.backendKind preference then some i else none := by
  rw [SessionDetector.detect, h.findsFirst.2 before line after i hsplit hu hbefore]
  rfl

/-- The first usable session is found exactly when no active session of another kind stands before
it, and `show-session` can be run for all before it. -/
theorem finds_first_iff (m : LoginHost) : FindsFirst m ↔ Unblocked m :=
  ⟨FindsFirst.unblocked, Unblocked.findsFirst⟩

def sshFirst : LoginHost where
  listSessions := some ⟨true, "2 1000 user - pts/0\n3 1000 user seat0 tty2\n"⟩
  showSession id := some ⟨true, if id = "2" then "Type=tty\nName=user\nActive=yes\n"
    else "Type=x11\nDisplay=:0\nName=user\nActive=yes\n"⟩
  who := none
  userDisplay _ := none
  currentDesktop _ := none
  x11Unix := none
  gdmXauthority _ := true
  runUser _ := none
  env _ := none
  toLowercase := id

theorem ssh_login_blocks : fromLoginctl sshFirst = .error (.unsupportedType "tty") ∧
    ¬ ∀ m, FindsFirst m := by
  have herror : fromLoginctl sshFirst = .error (.unsupportedType "tty") := by decide +kernel
  refine ⟨herror, fun h => ?_⟩
  have hsecond : inspect sshFirst "3 1000 user seat0 tty2" =
      .found ⟨.x11, some ":0", some ":0", some "/run/user/1000/gdm/Xauthority", "user"⟩ := by
    decide +kernel
  obtain ⟨i, hi⟩ := (h sshFirst).1.mpr ⟨"3 1000 user seat0 tty2", by decide +kernel, _,
    inspect_eq_found.mp hsecond⟩
  rw [herror] at hi
  cases hi

end SessionDetector

end Urc
