import Urc.Client.Sessions

/-! # Sessions by host

The directory of the descriptors as a map from hosts to sessions. A host is the name of a file and
a target of `find` at once, and a target that parses as a number is taken for a pid.
-/

namespace Urc

-- the file of the directory, if any, that the path of a host leads to when its name is not plain
variable (other : String → Option String)

/-- The file of the directory, without `.json`, that a write for the host makes. A name of more
than 255 bytes makes none. -/
def sessionFile (host : String) : Option String :=
  (sessionPath other host).filter fun name => name.utf8ByteSize + ".json".utf8ByteSize ≤ 255

/-- The files of the directory, `none` for one that holds no descriptor. A descriptor stands in the
file of its own host. -/
structure SessionDir where
  files : AList fun _ : String => Option Sessions.Session
  own : ∀ name s, files.lookup name = some (some s) → sessionFile other s.host = some name

/-- The order in which `read_dir` gives the files, and the processes that are alive. -/
structure SessionHost where
  order : List String → List String
  perm : ∀ names, (order names).Perm names
  alive : Pid → Bool

namespace SessionDir

variable {other} (env : SessionHost) (d : SessionDir other)

def empty : SessionDir other := ⟨∅, by simp⟩

/-- `sessions::write`. A path that leads elsewhere leaves the directory as it is. -/
def write (s : Sessions.Session) : SessionDir other :=
  match h : sessionFile other s.host with
  | none => d
  | some name =>
    { files := d.files.insert name (some s)
      own := by
        intro name' s' hs'
        by_cases hname : name' = name
        · subst hname
          rw [AList.lookup_insert, Option.some_inj, Option.some_inj] at hs'
          rw [← hs', h]
        · rw [AList.lookup_insert_ne hname] at hs'
          exact d.own name' s' hs' }

/-- `sessions::remove`. -/
def remove (host : String) : SessionDir other :=
  match sessionFile other host with
  | none => d
  | some name =>
    { files := d.files.erase name
      own := by
        intro name' s' hs'
        by_cases hname : name' = name
        · subst hname
          rw [AList.lookup_erase] at hs'
          cases hs'
        · rw [AList.lookup_erase_ne hname] at hs'
          exact d.own name' s' hs' }

def read : List Sessions.Session :=
  (env.order d.files.keys).filterMap fun name => (d.files.lookup name).join

/-- `sessions::list`: the live sessions by host, and the directory without the dead ones. -/
def list : List Sessions.Session × SessionDir other :=
  let all := read env d
  ((all.filter fun s => env.alive s.pid).mergeSort fun a b => a.host ≤ b.host,
    (all.filter fun s => !env.alive s.pid).foldl (fun d s => d.remove s.host) d)

def find (target : String) : Option Sessions.Session :=
  match parseU32 target with
  | some pid => (list env d).1.find? fun s => s.pid = pid
  | none => (list env d).1.find? fun s => s.host = target

/-- `sessions::kill`: the pid that SIGTERM is sent to, and the directory behind it. -/
def kill (delivers : Pid → Bool) (target : String) : Option Pid × SessionDir other :=
  match find env d target with
  | none => (none, (list env d).2)
  | some s =>
    (some s.pid, if delivers s.pid then (list env d).2.remove s.host else (list env d).2)

def descriptor (host : String) : Option Sessions.Session :=
  ((sessionFile other host).bind fun name => (d.files.lookup name).join).filter (·.host = host)

/-- A session that has been written is found by its host: `spawn_detached` starts no second tunnel
to it and `kill` sends the signal to it. No other host notices. -/
def Addressable (s : Sessions.Session) : Prop :=
  find env (d.write s) s.host = some s ∧
  (∀ lower status query peer port pid now, resolvePeer lower (listPeers status) query = some peer →
    peer.name = s.host →
      ∃ e, spawnDetached lower status query (find env (d.write s)) port pid now = .error e) ∧
  (∀ delivers, (kill env (d.write s) delivers s.host).1 = some s.pid) ∧
  ∀ host, host ≠ s.host → (d.write s).descriptor host = d.descriptor host ∧
    ((d.write s).remove s.host).descriptor host = d.descriptor host

/-- The host has a file of its own, and its name is no number; or it is the pid of its session,
and no descriptor with this pid stands before it. -/
def OwnsTarget (s : Sessions.Session) : Prop :=
  ∃ name, sessionFile other s.host = some name ∧
    (∀ s', d.files.lookup name = some (some s') → s'.host = s.host) ∧
    (parseU32 s.host = none ∨ parseU32 s.host = some s.pid ∧
      ∀ name' s', name' ≠ name → d.files.lookup name' = some (some s') → s'.pid = s.pid →
        s.host ≤ s'.host)

/-! ### The directory after a write -/

variable {env d} {s s' t : Sessions.Session} {name host : String}

theorem files_write (h : sessionFile other s.host = some name) :
    (d.write s).files = d.files.insert name (some s) := by
  unfold write
  split
  · rename_i hnone
    rw [h] at hnone
    cases hnone
  · rename_i hname
    obtain rfl := Option.some.inj (h.symm.trans hname)
    rfl

theorem files_remove (h : sessionFile other host = some name) :
    (d.remove host).files = d.files.erase name := by
  simp [remove, h]

theorem eq_of_host_eq {name' : String} (hs : d.files.lookup name = some (some s))
    (ht : d.files.lookup name' = some (some t)) (h : t.host = s.host) : t = s := by
  have hname : name' = name := by
    have ht' := d.own _ _ ht
    rw [h, d.own _ _ hs] at ht'
    exact (Option.some.inj ht').symm
  subst hname
  rw [hs] at ht
  simpa using ht.symm

theorem mem_read : s ∈ read env d ↔ ∃ name, d.files.lookup name = some (some s) := by
  unfold read
  rw [List.mem_filterMap]
  constructor
  · rintro ⟨name, -, h⟩
    exact ⟨name, Option.join_eq_some_iff.mp h⟩
  · rintro ⟨name, h⟩
    refine ⟨name, (env.perm _).mem_iff.mpr ?_, by simp [h]⟩
    exact AList.mem_keys.mp (AList.lookup_isSome.mp (by simp [h]))

theorem mem_list : s ∈ (list env d).1 ↔
    (∃ name, d.files.lookup name = some (some s)) ∧ env.alive s.pid = true := by
  rw [list, List.mem_mergeSort, List.mem_filter, mem_read]

theorem pairwise_list : (list env d).1.Pairwise fun a b => a.host ≤ b.host := by
  let le (a b : Sessions.Session) : Bool := decide (a.host ≤ b.host)
  have htrans : ∀ a b c, le a b = true → le b c = true → le a c = true := fun a b c hab hbc =>
    decide_eq_true (String.le_trans (of_decide_eq_true hab) (of_decide_eq_true hbc))
  have htotal : ∀ a b, (le a b || le b a) = true := fun a b => by
    simpa [le] using String.le_total a.host b.host
  have h := List.pairwise_mergeSort htrans htotal ((read env d).filter fun s => env.alive s.pid)
  exact h.imp fun hab => of_decide_eq_true hab

theorem find?_le {l : List Sessions.Session} {p : Sessions.Session → Bool}
    (hl : l.Pairwise fun a b => a.host ≤ b.host) (h : l.find? p = some s) (hs' : s' ∈ l)
    (hp : p s' = true) : s.host ≤ s'.host := by
  obtain ⟨-, before, after, rfl, hbefore⟩ := List.find?_eq_some_iff_append.mp h
  rcases List.mem_append.mp hs' with hmem | hmem
  · exact absurd hp (by simpa using hbefore s' hmem)
  · rcases List.mem_cons.mp hmem with rfl | hmem
    · exact String.le_refl _
    · exact (List.pairwise_cons.mp (List.pairwise_append.mp hl).2.1).1 s' hmem

/-- A session on file is found by its number just when that is its pid and no descriptor with it
stands before. -/
theorem find?_pid_iff {pid : Pid} (hs : d.files.lookup name = some (some s))
    (hlive : env.alive s.pid = true) :
    (list env d).1.find? (fun t => t.pid = pid) = some s ↔ s.pid = pid ∧
      ∀ name' s', d.files.lookup name' = some (some s') → s'.pid = s.pid → s.host ≤ s'.host := by
  have hmem : s ∈ (list env d).1 := mem_list.mpr ⟨⟨name, hs⟩, hlive⟩
  constructor
  · intro h
    have hpid : s.pid = pid := by simpa using List.find?_some h
    refine ⟨hpid, fun name' s' hs' hp => ?_⟩
    exact find?_le pairwise_list h (mem_list.mpr ⟨⟨name', hs'⟩, by rwa [hp]⟩) (by simp [hp, hpid])
  · rintro ⟨rfl, hfirst⟩
    have hsome : ((list env d).1.find? fun t => t.pid = s.pid).isSome :=
      List.find?_isSome.mpr ⟨s, hmem, by simp⟩
    obtain ⟨t, ht⟩ := Option.isSome_iff_exists.mp hsome
    obtain ⟨⟨name', hname'⟩, -⟩ := mem_list.mp (List.mem_of_find?_eq_some ht)
    have htpid : t.pid = s.pid := by simpa using List.find?_some ht
    have hle : t.host ≤ s.host := find?_le pairwise_list ht hmem (by simp)
    have hhost : t.host = s.host := String.le_antisymm hle (hfirst name' t hname' htpid)
    rw [ht, eq_of_host_eq hs hname' hhost]

theorem find?_host (hs : d.files.lookup name = some (some s)) (hlive : env.alive s.pid = true) :
    (list env d).1.find? (fun t => t.host = s.host) = some s := by
  have hsome : ((list env d).1.find? fun t => t.host = s.host).isSome :=
    List.find?_isSome.mpr ⟨s, mem_list.mpr ⟨⟨name, hs⟩, hlive⟩, by simp⟩
  obtain ⟨t, ht⟩ := Option.isSome_iff_exists.mp hsome
  obtain ⟨⟨name', hname'⟩, -⟩ := mem_list.mp (List.mem_of_find?_eq_some ht)
  have hhost : t.host = s.host := by simpa using List.find?_some ht
  rw [ht, eq_of_host_eq hs hname' hhost]

/-- What `find` needs of a live session on file to return it for its host. -/
theorem find_eq_some_iff (hs : d.files.lookup name = some (some s))
    (hlive : env.alive s.pid = true) :
    find env d s.host = some s ↔ parseU32 s.host = none ∨ parseU32 s.host = some s.pid ∧
      ∀ name' s', d.files.lookup name' = some (some s') → s'.pid = s.pid → s.host ≤ s'.host := by
  unfold find
  cases hnum : parseU32 s.host with
  | none => simpa using find?_host hs hlive
  | some pid =>
    dsimp only
    rw [find?_pid_iff hs hlive]
    simp [eq_comm]

theorem mem_of_find (h : find env d host = some s) :
    ∃ name, d.files.lookup name = some (some s) := by
  unfold find at h
  split at h <;> exact (mem_list.mp (List.mem_of_find?_eq_some h)).1

/-- The descriptor of a host is what the files hold for it, wherever it stands. -/
theorem descriptor_eq_some : d.descriptor host = some s ↔
    s.host = host ∧ ∃ name, d.files.lookup name = some (some s) := by
  rw [descriptor, Option.filter_eq_some_iff]
  constructor
  · rintro ⟨h, hhost⟩
    obtain ⟨name, -, hname⟩ := Option.bind_eq_some_iff.mp h
    exact ⟨by simpa using hhost, name, Option.join_eq_some_iff.mp hname⟩
  · rintro ⟨rfl, name, hname⟩
    exact ⟨by simp [d.own _ _ hname, hname], by simp⟩

/-! ### Sessions of other hosts -/

theorem descriptor_eq_of_agree {d' : SessionDir other} (hhost : host ≠ s.host)
    (hfiles : ∀ name', name' ≠ name → d'.files.lookup name' = d.files.lookup name')
    (hd : ∀ t, d.files.lookup name = some (some t) → t.host = s.host)
    (hd' : ∀ t, d'.files.lookup name = some (some t) → t.host = s.host) :
    d'.descriptor host = d.descriptor host := by
  refine Option.ext fun t => ?_
  rw [descriptor_eq_some, descriptor_eq_some]
  refine and_congr_right fun ht => exists_congr fun name' => ?_
  by_cases hname : name' = name
  · subst hname
    have hne : t.host ≠ s.host := by rwa [ht]
    exact iff_of_false (fun h => hne (hd' t h)) fun h => hne (hd t h)
  · rw [hfiles name' hname]

theorem OwnsTarget.addressable (hlive : env.alive s.pid = true) (h : OwnsTarget d s) :
    Addressable env d s := by
  obtain ⟨name, hname, hown, hnum⟩ := h
  have hfiles := files_write (d := d) hname
  have hs : (d.write s).files.lookup name = some (some s) := by rw [hfiles, AList.lookup_insert]
  have hfind : find env (d.write s) s.host = some s := by
    refine (find_eq_some_iff hs hlive).mpr (hnum.imp_right fun ⟨hpid, hfirst⟩ => ⟨hpid, ?_⟩)
    intro name' s' hs' hp
    by_cases heq : name' = name
    · subst heq
      rw [hs] at hs'
      cases hs'
      exact String.le_refl _
    · rw [hfiles, AList.lookup_insert_ne heq] at hs'
      exact hfirst name' s' heq hs' hp
  refine ⟨hfind, ?_, ?_, ?_⟩
  · intro lower status query peer port pid now hpeer hhost
    unfold spawnDetached
    rw [hpeer]
    dsimp only
    split_ifs
    · exact ⟨_, rfl⟩
    · rw [hhost, hfind]
      exact ⟨_, rfl⟩
  · intro delivers
    rw [kill, hfind]
  · intro host hhost
    have hwritten : ∀ t, (d.write s).files.lookup name = some (some t) → t.host = s.host := by
      intro t ht
      rw [hs] at ht
      cases ht
      rfl
    refine ⟨descriptor_eq_of_agree hhost (fun name' hne => ?_) hown hwritten,
      descriptor_eq_of_agree hhost (fun name' hne => ?_) hown fun t ht => ?_⟩
    · rw [hfiles, AList.lookup_insert_ne hne]
    · rw [files_remove hname, AList.lookup_erase_ne hne, hfiles, AList.lookup_insert_ne hne]
    · rw [files_remove hname, AList.lookup_erase] at ht
      cases ht

theorem Addressable.ownsTarget (hlive : env.alive s.pid = true) (h : Addressable env d s) :
    OwnsTarget d s := by
  obtain ⟨hfind, -, -, hothers⟩ := h
  obtain ⟨name₀, hname₀⟩ := mem_of_find hfind
  have hname := (d.write s).own _ _ hname₀
  have hfiles := files_write (d := d) hname
  refine ⟨name₀, hname, fun s' hs' => ?_, ?_⟩
  · -- another host's descriptor would have been written over
    by_contra hne
    have hbefore : d.descriptor s'.host = some s' := descriptor_eq_some.mpr ⟨rfl, name₀, hs'⟩
    rw [← (hothers s'.host hne).1, descriptor_eq_some] at hbefore
    obtain ⟨-, name', hname'⟩ := hbefore
    have hsame : name' = name₀ :=
      Option.some.inj (((d.write s).own _ _ hname').symm.trans (d.own _ _ hs'))
    subst hsame
    rw [hname₀] at hname'
    cases hname'
    exact hne rfl
  · refine ((find_eq_some_iff hname₀ hlive).mp hfind).imp_right fun ⟨hpid, hfirst⟩ => ⟨hpid, ?_⟩
    intro name' s' hne hs'
    exact hfirst name' s' (by rw [hfiles, AList.lookup_insert_ne hne]; exact hs')

/-- A live session is addressable by its host exactly when the host has a file of its own and is
no other target. -/
theorem addressable_iff (env : SessionHost) (d : SessionDir other) (s : Sessions.Session)
    (hlive : env.alive s.pid = true) : Addressable env d s ↔ OwnsTarget d s :=
  ⟨Addressable.ownsTarget hlive, OwnsTarget.addressable hlive⟩

def idle : SessionHost := ⟨id, fun _ => .refl _, fun _ => true⟩

def numbered : Sessions.Session := ⟨"2024", "100.64.0.7", 77, 8080, localUrl 8080, 0⟩

theorem office_addressable :
    Addressable idle (empty : SessionDir fun _ => none) { numbered with host := "office" } :=
  (addressable_iff idle empty { numbered with host := "office" } rfl).mpr
    ⟨"office", by decide +kernel, by simp [empty], .inl (by decide +kernel)⟩

theorem numbered_not_addressable : ¬ ∀ (other : String → Option String) (env : SessionHost)
    (d : SessionDir other) (s : Sessions.Session), env.alive s.pid = true → s.host ≠ "" →
      Addressable env d s := by
  intro h
  obtain ⟨hfind, -⟩ := h (fun _ => none) idle empty numbered rfl (by decide)
  obtain ⟨name, hname⟩ := mem_of_find hfind
  have hpid : parseU32 numbered.host = some 2024 := by decide +kernel
  have hnum := (find_eq_some_iff hname rfl).mp hfind
  rw [hpid] at hnum
  revert hnum
  simp [numbered]

end SessionDir

end Urc
