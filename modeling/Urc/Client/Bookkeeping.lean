import Urc.Client.Sessions

/-! # The bookkeeping of background sessions

A step of a command is up to date when the file that it changes is as the command has last seen
it. As long as all steps are, every tunnel that is up keeps its descriptor, and no host gets a
second tunnel.
-/

namespace Urc

/-- A live tunnel whose `spawn_detached` has returned, and that no kill has selected. -/
def Tunnel.Settled (t : Tunnel) : Prop :=
  t.phase = .serving ∧ t.stage = .returned ∧ t.selected = false

/-- The same, from the return of `write` on. -/
def Tunnel.Standing (t : Tunnel) : Prop :=
  t.phase = .serving ∧ t.stage ≠ .pending ∧ t.selected = false

theorem Tunnel.Settled.standing {t : Tunnel} (h : t.Settled) : t.Standing :=
  ⟨h.1, by simp [h.2.1], h.2.2⟩

/-- Every settled tunnel is named by a descriptor, and no two of them are for one host. -/
structure Bookkept (s : Sessions) : Prop where
  named : ∀ pid t, s.world.tunnels pid = some t → t.Settled →
    ∃ name f d, s.world.files.lookup name = some f ∧ f.content = some d ∧ d.pid = pid
  unique : ∀ pid pid' t t', s.world.tunnels pid = some t → s.world.tunnels pid' = some t' →
    t.Settled → t'.Settled → t.host = t'.host → pid = pid'

section UpToDate

variable (other : String → Option String)

/-- The file of the host is gone, or the one of that version. -/
def World.Unchanged (w : World) (host : String) (version : ℕ) : Prop :=
  ∀ name f, sessionPath other host = some name → w.files.lookup name = some f →
    f.version = version

def World.Owned (w : World) (host : String) (pid : Pid) : Prop :=
  ∀ name f, sessionPath other host = some name → w.files.lookup name = some f →
    ∃ d, f.content = some d ∧ d.pid = pid

/-- What `find` has reported still holds when the file of the host is opened. A name that reads as
a number is searched as a pid, so there the file itself has to tell. -/
structure World.Vacant (w : World) (host : String) (seen : Option ℕ) : Prop where
  plain : Plain host
  unchanged : ∀ f, w.files.lookup host = some f → seen = some f.version
  number : parseU32 host ≠ none → ∀ f d, w.files.lookup host = some f → f.content = some d →
    (w.tunnels d.pid).map Tunnel.phase ≠ some .serving

/-- A command changes a file only as it has last seen it. -/
def UpToDate (w : World) (cmd : Command) : CommandStep → Prop
  | .openFile => ∀ peer port pid, cmd.purpose = .connect peer port → cmd.pc = .spawned pid →
      w.Vacant peer.name cmd.seen
  | .writeFile _ _ => ∀ peer port pid inode version, cmd.purpose = .connect peer port →
      cmd.pc = .opened pid inode version →
        ∃ f, w.files.lookup peer.name = some f ∧ f.version = version
  | .prune => ∀ e todo kept, cmd.pc = .removing e todo kept →
      w.Unchanged other e.session.host e.version
  | .unlink => ∀ e, cmd.pc = .signalled e → w.Unchanged other e.session.host e.version
  | _ => True

/-- The same for a run; a tunnel that ends removes its own descriptor only. -/
def Sessions.UpToDate (s : Sessions) : SessionEvent → Prop
  | .act c a => ∀ cmd, s.commands c = some cmd → Urc.UpToDate other s.world cmd a
  | .cleanup pid host => (s.world.tunnels pid).map Tunnel.phase = some .interrupted →
      s.world.Owned other host pid
  | _ => True

end UpToDate

variable {other : String → Option String} {w w' : World} {c : CommandId} {cmd : Command}
  {pid : Pid} {host name : String} {e : Entry} {d : Sessions.Session}

/-! ### What the world owes to its tunnels -/

def World.Stands (w : World) (host : String) (pid : Pid) : Prop :=
  ∃ t, w.tunnels pid = some t ∧ t.host = host ∧ t.Standing

structure World.Ok (w : World) : Prop where
  plain : ∀ name f, w.files.lookup name = some f → Plain name
  clocked : ∀ name f, w.files.lookup name = some f → f.version < w.clock
  keyed : ∀ name f d, w.files.lookup name = some f → f.content = some d → d.host = name
  recorded : ∀ host pid, w.Stands host pid →
    ∃ f d, w.files.lookup host = some f ∧ f.content = some d ∧ d.pid = pid

/-- What becomes of the world while a command does not move: files change their version, and a
tunnel stands anew only with a new file. -/
structure Later (c : CommandId) (w w' : World) : Prop where
  clock : w.clock ≤ w'.clock
  files : ∀ name f, w'.files.lookup name = some f →
    w.files.lookup name = some f ∨ w.clock ≤ f.version
  stands : ∀ host pid, w'.Stands host pid →
    w.Stands host pid ∨ ∀ f, w'.files.lookup host = some f → w.clock ≤ f.version
  child : ∀ pid t, w.tunnels pid = some t → t.parent = some c →
    ∃ t', w'.tunnels pid = some t' ∧ t'.host = t.host ∧ t'.parent = some c ∧
      (t.stage ≠ .pending → t'.stage ≠ .pending)

/-! ### What a command knows -/

/-- The file that the entry was read from, if it is unchanged. -/
structure World.EntryOk (w : World) (e : Entry) : Prop where
  plain : Plain e.session.host
  old : e.version < w.clock
  content : ∀ f, w.files.lookup e.session.host = some f → f.version = e.version →
    f.content = some e.session

def World.Current (w : World) (e : Entry) : Prop :=
  (∃ f, w.files.lookup e.session.host = some f ∧ f.version = e.version) ∧
    w.Stands e.session.host e.session.pid

/-- The command asks for a host that `find` searches by its name, and the file of that host, as it
was when the command opened the directory, is the descriptor of a tunnel that stands. -/
def World.Due (w : World) (cmd : Command) (d : Sessions.Session) : Prop :=
  cmd.purpose.host = some d.host ∧ parseU32 d.host = none ∧
    (∃ f, w.files.lookup d.host = some f ∧ cmd.seen = some f.version ∧ f.content = some d) ∧
      w.Stands d.host d.pid

def World.Child (w : World) (c : CommandId) (pid : Pid) (host : String) : Prop :=
  ∃ t, w.tunnels pid = some t ∧ t.host = host ∧ t.parent = some c

def Place (w : World) (c : CommandId) (cmd : Command) : CommandPc → Prop
  | .starting => True
  | .listing pending read => (∀ e ∈ read, w.EntryOk e) ∧
      ∀ d, w.Due cmd d → d.host ∈ pending ∨ ∃ e ∈ read, e.session = d
  | .pruning todo kept => (∀ e ∈ todo ++ kept, w.EntryOk e) ∧
      ∀ d, w.Due cmd d → ∃ e ∈ todo ++ kept, e.session = d
  | .removing stale todo kept => (w.EntryOk stale ∧ ¬ w.Current stale) ∧
      (∀ e ∈ todo ++ kept, w.EntryOk e) ∧ ∀ d, w.Due cmd d → ∃ e ∈ todo ++ kept, e.session = d
  | .spawning => ∀ d, ¬ w.Due cmd d
  | .spawned pid => (∀ d, ¬ w.Due cmd d) ∧
      ∀ host, cmd.purpose.host = some host → w.Child c pid host
  | .opened pid inode version => version < w.clock ∧
      ∀ host, cmd.purpose.host = some host → Plain host ∧ w.Child c pid host ∧
        ∀ f, w.files.lookup host = some f → f.version = version → f = ⟨inode, version, none⟩
  | .written pid => ∃ t, w.tunnels pid = some t ∧ t.parent = some c ∧ t.stage ≠ .pending
  | .selected e => w.EntryOk e ∧ ¬ w.Current e
  | .signalled e => w.EntryOk e ∧ ¬ w.Current e

structure CommandOk (w : World) (c : CommandId) (cmd : Command) : Prop where
  seen : ∀ v, cmd.seen = some v → v < w.clock
  place : Place w c cmd cmd.pc

theorem CommandOk.placed {pc : CommandPc} (hc : CommandOk w c cmd) (hpc : cmd.pc = pc) :
    Place w c cmd pc := hpc ▸ hc.place

namespace Later

theorem refl (c : CommandId) (w : World) : Later c w w :=
  ⟨le_rfl, fun _ _ h => .inl h, fun _ _ h => .inl h, fun _ t h hp => ⟨t, h, rfl, hp, id⟩⟩

theorem trans {w'' : World} (h : Later c w w') (h' : Later c w' w'') : Later c w w'' where
  clock := h.clock.trans h'.clock
  files name f hf := by
    rcases h'.files name f hf with hf | hnew
    · exact h.files name f hf
    · exact .inr (h.clock.trans hnew)
  stands host pid hs := by
    rcases h'.stands host pid hs with hs | hnew
    · rcases h.stands host pid hs with hs | hnew
      · exact .inl hs
      · refine .inr fun f hf => ?_
        rcases h'.files host f hf with hf | hnew'
        · exact hnew f hf
        · exact h.clock.trans hnew'
    · exact .inr fun f hf => h.clock.trans (hnew f hf)
  child pid t ht hp := by
    obtain ⟨t', ht', hh', hp', hs'⟩ := h.child pid t ht hp
    obtain ⟨t'', ht'', hh'', hp'', hs''⟩ := h'.child pid t' ht' hp'
    exact ⟨t'', ht'', hh''.trans hh', hp'', fun hs => hs'' (hs' hs)⟩

theorem lookup (h : Later c w w') {f : SessionFile} (hf : w'.files.lookup name = some f)
    (hv : f.version < w.clock) : w.files.lookup name = some f :=
  (h.files name f hf).resolve_right (by omega)

theorem stands_of (h : Later c w w') {f : SessionFile} (hs : w'.Stands host pid)
    (hf : w'.files.lookup host = some f) (hv : f.version < w.clock) : w.Stands host pid :=
  (h.stands host pid hs).resolve_right fun hnew => by
    have := hnew f hf
    omega

theorem entryOk (h : Later c w w') (he : w.EntryOk e) : w'.EntryOk e where
  plain := he.plain
  old := he.old.trans_le h.clock
  content f hf hv := he.content f (h.lookup hf (hv ▸ he.old)) hv

theorem not_current (h : Later c w w') (he : w.EntryOk e) (hc : ¬ w.Current e) :
    ¬ w'.Current e := by
  rintro ⟨⟨f, hf, hv⟩, hs⟩
  have hold : f.version < w.clock := hv ▸ he.old
  exact hc ⟨⟨f, h.lookup hf hold, hv⟩, h.stands_of hs hf hold⟩

theorem due (h : Later c w w') (hseen : ∀ v, cmd.seen = some v → v < w.clock)
    (hd : w'.Due cmd d) : w.Due cmd d := by
  obtain ⟨hp, hn, ⟨f, hf, hv, hc⟩, hs⟩ := hd
  have hold := hseen _ hv
  exact ⟨hp, hn, ⟨f, h.lookup hf hold, hv, hc⟩, h.stands_of hs hf hold⟩

theorem child_of (h : Later c w w') (hc : w.Child c pid host) : w'.Child c pid host := by
  obtain ⟨t, ht, hh, hp⟩ := hc
  obtain ⟨t', ht', hh', hp', -⟩ := h.child pid t ht hp
  exact ⟨t', ht', hh'.trans hh, hp'⟩

/-- What a command knows stays true while it does not move. -/
theorem commandOk (h : Later c w w') (hc : CommandOk w c cmd) : CommandOk w' c cmd := by
  obtain ⟨hseen, hplace⟩ := hc
  refine ⟨fun v hv => (hseen v hv).trans_le h.clock, ?_⟩
  cases hpc : cmd.pc with
  | starting => trivial
  | listing pending read =>
    rw [hpc] at hplace
    exact ⟨fun e he => h.entryOk (hplace.1 e he), fun d hd => hplace.2 d (h.due hseen hd)⟩
  | pruning todo kept =>
    rw [hpc] at hplace
    exact ⟨fun e he => h.entryOk (hplace.1 e he), fun d hd => hplace.2 d (h.due hseen hd)⟩
  | removing stale todo kept =>
    rw [hpc] at hplace
    obtain ⟨⟨hstale, hdead⟩, hread, hdue⟩ := hplace
    exact ⟨⟨h.entryOk hstale, h.not_current hstale hdead⟩, fun e he => h.entryOk (hread e he),
      fun d hd => hdue d (h.due hseen hd)⟩
  | spawning =>
    rw [hpc] at hplace
    exact fun d hd => hplace d (h.due hseen hd)
  | spawned pid =>
    rw [hpc] at hplace
    exact ⟨fun d hd => hplace.1 d (h.due hseen hd), fun host hh => h.child_of (hplace.2 host hh)⟩
  | opened pid inode version =>
    rw [hpc] at hplace
    refine ⟨hplace.1.trans_le h.clock, fun host hh => ?_⟩
    obtain ⟨hplain, hchild, hfile⟩ := hplace.2 host hh
    exact ⟨hplain, h.child_of hchild, fun f hf hv => hfile f (h.lookup hf (hv ▸ hplace.1)) hv⟩
  | written pid =>
    rw [hpc] at hplace
    obtain ⟨t, ht, hp, hstage⟩ := hplace
    obtain ⟨t', ht', -, hp', hstage'⟩ := h.child pid t ht hp
    exact ⟨t', ht', hp', hstage' hstage⟩
  | selected e =>
    rw [hpc] at hplace
    exact ⟨h.entryOk hplace.1, h.not_current hplace.1 hplace.2⟩
  | signalled e =>
    rw [hpc] at hplace
    exact ⟨h.entryOk hplace.1, h.not_current hplace.1 hplace.2⟩

end Later

/-! ### Operations on the world -/

section Operations

variable {f : Tunnel → Option Tunnel}

theorem stands_congr (h : w'.tunnels = w.tunnels) : w'.Stands host pid ↔ w.Stands host pid := by
  rw [World.Stands, World.Stands, h]

/-- The process, if it remains, keeps its host, and does not stand unless it did. -/
def Weakens (w : World) (pid : Pid) (f : Tunnel → Option Tunnel) : Prop :=
  ∀ t t', w.tunnels pid = some t → f t = some t' → t'.host = t.host ∧ (t'.Standing → t.Standing)

/-- The process remains with its parent, and keeps its stage or gains one. -/
def Keeps (c : CommandId) (w : World) (pid : Pid) (f : Tunnel → Option Tunnel) : Prop :=
  ∀ t, w.tunnels pid = some t → t.parent = some c →
    ∃ t', f t = some t' ∧ t'.host = t.host ∧ t'.parent = some c ∧
      (t.stage ≠ .pending → t'.stage ≠ .pending)

theorem adjust_tunnels_self : (w.adjust pid f).tunnels pid = (w.tunnels pid).bind f :=
  Function.update_self _ _ _

theorem adjust_tunnels_of_ne {pid' : Pid} (h : pid' ≠ pid) :
    (w.adjust pid f).tunnels pid' = w.tunnels pid' :=
  Function.update_of_ne h _ _

theorem stands_adjust {pid' : Pid} (hf : Weakens w pid f) (h : (w.adjust pid f).Stands host pid') :
    w.Stands host pid' := by
  obtain ⟨t', ht', rfl, hs⟩ := h
  by_cases hp : pid' = pid
  · subst hp
    rw [adjust_tunnels_self] at ht'
    obtain ⟨t, ht, hft⟩ := Option.bind_eq_some_iff.mp ht'
    obtain ⟨hh, hst⟩ := hf t t' ht hft
    exact ⟨t, ht, hh.symm, hst hs⟩
  · rw [adjust_tunnels_of_ne hp] at ht'
    exact ⟨t', ht', rfl, hs⟩

theorem child_adjust {pid' : Pid} {t : Tunnel} (hf : Keeps c w pid f)
    (ht : w.tunnels pid' = some t) (hp : t.parent = some c) :
    ∃ t', (w.adjust pid f).tunnels pid' = some t' ∧ t'.host = t.host ∧ t'.parent = some c ∧
      (t.stage ≠ .pending → t'.stage ≠ .pending) := by
  by_cases heq : pid' = pid
  · subst heq
    obtain ⟨t', hft, h⟩ := hf t ht hp
    refine ⟨t', ?_, h⟩
    rw [adjust_tunnels_self, ht]
    exact hft
  · refine ⟨t, ?_, rfl, hp, id⟩
    rw [adjust_tunnels_of_ne heq, ht]

theorem Later.adjust (hf : Weakens w pid f) (hk : Keeps c w pid f) :
    Later c w (w.adjust pid f) where
  clock := le_rfl
  files _ _ h := .inl h
  stands _ _ h := .inl (stands_adjust hf h)
  child _ _ ht hp := child_adjust hk ht hp

theorem World.Ok.adjust (hw : w.Ok) (hf : Weakens w pid f) : (w.adjust pid f).Ok where
  plain := hw.plain
  clocked := hw.clocked
  keyed := hw.keyed
  recorded host pid' h := hw.recorded host pid' (stands_adjust hf h)

theorem Later.refile (hc : w.clock ≤ w'.clock) (ht : w'.tunnels = w.tunnels)
    (hf : ∀ name f, w'.files.lookup name = some f →
      w.files.lookup name = some f ∨ w.clock ≤ f.version) : Later c w w' where
  clock := hc
  files := hf
  stands _ _ h := .inl ((stands_congr ht).mp h)
  child pid t h hp := ⟨t, by rw [ht, h], rfl, hp, id⟩

theorem sessionPath_plain (h : Plain host) : sessionPath other host = some host := if_pos h

theorem lookup_remove {x : SessionFile} (h : (w.remove other host).files.lookup name = some x) :
    w.files.lookup name = some x ∧ sessionPath other host ≠ some name := by
  unfold World.remove at h
  split at h
  · rename_i n hn
    by_cases hne : name = n
    · subst hne
      rw [AList.lookup_erase] at h
      cases h
    · rw [AList.lookup_erase_ne hne] at h
      refine ⟨h, fun heq => hne ?_⟩
      exact Option.some.inj (heq.symm.trans hn)
  · rename_i hn
    exact ⟨h, by simp [hn]⟩

theorem remove_tunnels : (w.remove other host).tunnels = w.tunnels := by
  unfold World.remove
  split <;> rfl

theorem remove_clock : (w.remove other host).clock = w.clock := by
  unfold World.remove
  split <;> rfl

theorem lookup_remove_of_ne (h : sessionPath other host ≠ some name) :
    (w.remove other host).files.lookup name = w.files.lookup name := by
  unfold World.remove
  split
  · rename_i n hn
    refine AList.lookup_erase_ne ?_
    rintro rfl
    exact h hn
  · rfl

theorem Later.remove : Later c w (w.remove other host) :=
  .refile remove_clock.ge remove_tunnels fun _ _ h => .inl (lookup_remove h).1

theorem World.Ok.remove (hw : w.Ok)
    (hno : ∀ name pid, sessionPath other host = some name → ¬ w.Stands name pid) :
    (w.remove other host).Ok where
  plain name f h := hw.plain name f (lookup_remove h).1
  clocked name f h := (hw.clocked name f (lookup_remove h).1).trans_le remove_clock.ge
  keyed name f d h := hw.keyed name f d (lookup_remove h).1
  recorded name pid hs := by
    rw [stands_congr remove_tunnels] at hs
    rw [lookup_remove_of_ne fun heq => hno name pid heq hs]
    exact hw.recorded name pid hs

/-- The entry is out of date, so the removal of its file hits no tunnel that stands. -/
theorem not_stands_of_unchanged (hw : w.Ok) (he : w.EntryOk e) (hc : ¬ w.Current e)
    (hu : w.Unchanged other e.session.host e.version)
    (hn : sessionPath other e.session.host = some name) : ¬ w.Stands name pid := by
  intro hs
  rw [sessionPath_plain he.plain] at hn
  obtain rfl := Option.some.inj hn
  obtain ⟨f, d, hf, hcont, rfl⟩ := hw.recorded _ _ hs
  have hv := hu _ f (sessionPath_plain he.plain) hf
  have hd := he.content f hf hv
  rw [hcont] at hd
  obtain rfl := Option.some.inj hd
  exact hc ⟨⟨f, hf, hv⟩, hs⟩

/-- A tunnel that ends does not stand, so neither does the removal of its own descriptor. -/
theorem not_stands_of_owned {pid' : Pid} (hw : w.Ok) (ho : w.Owned other host pid)
    (hp : (w.tunnels pid).map Tunnel.phase = some .interrupted)
    (hn : sessionPath other host = some name) : ¬ w.Stands name pid' := by
  intro hs
  obtain ⟨f, d, hf, hcont, rfl⟩ := hw.recorded _ _ hs
  obtain ⟨d', hd', rfl⟩ := ho name f hn hf
  obtain rfl := Option.some.inj (hcont.symm.trans hd')
  obtain ⟨t, ht, -, hserving, -⟩ := hs
  rw [ht, Option.map_some, hserving] at hp
  cases hp

theorem spawn_tunnels_self : (w.spawn c pid host).tunnels pid =
    some ⟨host, .serving, some c, .pending, false⟩ := Function.update_self _ _ _

theorem spawn_tunnels_of_ne {pid' : Pid} (h : pid' ≠ pid) :
    (w.spawn c pid host).tunnels pid' = w.tunnels pid' := Function.update_of_ne h _ _

theorem stands_spawn {pid' : Pid} (h : (w.spawn c pid name).Stands host pid') :
    w.Stands host pid' := by
  obtain ⟨t, ht, hh, hs⟩ := h
  by_cases hp : pid' = pid
  · subst hp
    rw [spawn_tunnels_self] at ht
    cases ht
    exact absurd rfl hs.2.1
  · rw [spawn_tunnels_of_ne hp] at ht
    exact ⟨t, ht, hh, hs⟩

theorem Later.spawn {c' : CommandId} (hno : w.tunnels pid = none) :
    Later c' w (w.spawn c pid host) where
  clock := le_rfl
  files _ _ h := .inl h
  stands _ _ h := .inl (stands_spawn h)
  child pid' t ht hp := by
    have hne : pid' ≠ pid := by
      rintro rfl
      rw [hno] at ht
      cases ht
    exact ⟨t, by rw [spawn_tunnels_of_ne hne, ht], rfl, hp, id⟩

theorem World.Ok.spawn (hw : w.Ok) : (w.spawn c pid host).Ok where
  plain := hw.plain
  clocked := hw.clocked
  keyed := hw.keyed
  recorded host pid h := hw.recorded host pid (stands_spawn h)

section Put

variable {inode : ℕ} {content : Option Sessions.Session}

theorem lookup_put {x : SessionFile} (h : (w.put host inode content).files.lookup name = some x) :
    name = host ∧ x = ⟨inode, w.clock, content⟩ ∨ w.files.lookup name = some x := by
  by_cases hn : name = host
  · subst hn
    rw [World.put, AList.lookup_insert] at h
    exact .inl ⟨rfl, (Option.some.inj h).symm⟩
  · rw [World.put, AList.lookup_insert_ne hn] at h
    exact .inr h

theorem lookup_put_self : (w.put host inode content).files.lookup host =
    some ⟨inode, w.clock, content⟩ := AList.lookup_insert _

theorem lookup_put_of_ne (h : name ≠ host) :
    (w.put host inode content).files.lookup name = w.files.lookup name := AList.lookup_insert_ne h

theorem Later.put : Later c w (w.put host inode content) := by
  refine .refile (Nat.le_succ _) rfl fun name x hx => ?_
  rcases lookup_put hx with ⟨-, rfl⟩ | hx
  · exact .inr le_rfl
  · exact .inl hx

theorem World.Ok.put (hw : w.Ok) (hplain : Plain host)
    (hcont : ∀ d, content = some d → d.host = host) (hno : ∀ pid, ¬ w.Stands host pid) :
    (w.put host inode content).Ok where
  plain name x hx := by
    rcases lookup_put hx with ⟨rfl, -⟩ | hx
    · exact hplain
    · exact hw.plain name x hx
  clocked name x hx := by
    rcases lookup_put hx with ⟨-, rfl⟩ | hx
    · exact Nat.lt_succ_self _
    · exact (hw.clocked name x hx).trans (Nat.lt_succ_self _)
  keyed name x d hx hd := by
    rcases lookup_put hx with ⟨rfl, rfl⟩ | hx
    · exact hcont d hd
    · exact hw.keyed name x d hx hd
  recorded name pid hs := by
    have hne : name ≠ host := by
      rintro rfl
      exact hno pid hs
    rw [lookup_put_of_ne hne]
    exact hw.recorded name pid hs

theorem stands_record {pid' : Pid} {t : Tunnel} (ht : w.tunnels pid = some t)
    (h : (w.adjust pid (Tunnel.advance .recorded)).Stands name pid') :
    pid' = pid ∧ name = t.host ∨ w.Stands name pid' := by
  obtain ⟨t', ht', rfl, hs⟩ := h
  by_cases hp : pid' = pid
  · subst hp
    rw [adjust_tunnels_self, ht] at ht'
    cases ht'
    exact .inl ⟨rfl, rfl⟩
  · rw [adjust_tunnels_of_ne hp] at ht'
    exact .inr ⟨t', ht', rfl, hs⟩

theorem keeps_advance {stage : SpawnStage} (hstage : stage ≠ .pending) :
    Keeps c w pid (Tunnel.advance stage) :=
  fun _ _ hp => ⟨_, rfl, rfl, hp, fun _ => hstage⟩

theorem Later.record {t : Tunnel} (ht : w.tunnels pid = some t) (hh : t.host = host) :
    Later c w ((w.put host inode content).adjust pid (Tunnel.advance .recorded)) where
  clock := Nat.le_succ _
  files := Later.put.files (c := c)
  stands name pid' hs := by
    rcases stands_record (w := w.put host inode content) ht hs with ⟨-, rfl⟩ | hs
    · refine .inr fun x hx => ?_
      subst hh
      have hself := hx.symm.trans lookup_put_self
      obtain rfl := Option.some.inj hself
      exact le_rfl
    · exact .inl hs
  child _ _ ht' hp := child_adjust (w := w.put host inode content) (keeps_advance (by simp)) ht' hp

theorem World.Ok.record {t : Tunnel} (hw : w.Ok) (ht : w.tunnels pid = some t) (hh : t.host = host)
    (hplain : Plain host) (hno : ∀ pid, ¬ w.Stands host pid) (hd : d.host = host)
    (hpid : d.pid = pid) :
    ((w.put host inode (some d)).adjust pid (Tunnel.advance .recorded)).Ok := by
  have hput : (w.put host inode (some d)).Ok := hw.put hplain (by rintro _ ⟨⟩; exact hd) hno
  refine ⟨hput.plain, hput.clocked, hput.keyed, fun name pid' hs => ?_⟩
  rcases stands_record (w := w.put host inode (some d)) ht hs with ⟨rfl, rfl⟩ | hs
  · subst hh
    exact ⟨_, d, lookup_put_self (w := w), rfl, hpid⟩
  · exact hput.recorded name pid' hs

end Put

/-- `find` would have reported a tunnel of the host. -/
theorem not_stands_of_vacant (hw : w.Ok) (hv : w.Vacant host cmd.seen)
    (hhost : cmd.purpose.host = some host) (hdue : ∀ d, ¬ w.Due cmd d) : ¬ w.Stands host pid := by
  intro hs
  obtain ⟨f, d, hf, hcont, rfl⟩ := hw.recorded _ _ hs
  obtain rfl := hw.keyed _ f d hf hcont
  by_cases hnum : parseU32 d.host = none
  · exact hdue d ⟨hhost, hnum, ⟨f, hf, hv.unchanged f hf, hcont⟩, hs⟩
  · obtain ⟨t, ht, -, hserving, -⟩ := hs
    refine hv.number hnum f d hf hcont ?_
    rw [ht, Option.map_some, hserving]

/-- The file has just been truncated. -/
theorem not_stands_of_truncated {f : SessionFile} (hw : w.Ok) (hf : w.files.lookup host = some f)
    (hc : f.content = none) : ¬ w.Stands host pid := by
  intro hs
  obtain ⟨f', d, hf', hcont, -⟩ := hw.recorded _ _ hs
  obtain rfl := Option.some.inj (hf.symm.trans hf')
  rw [hc] at hcont
  cases hcont

end Operations

/-! ### The steps of a command -/

structure Acted (c : CommandId) (w : World) (r : World × Option Command) : Prop where
  ok : r.1.Ok
  command : ∀ cmd, r.2 = some cmd → CommandOk r.1 c cmd
  later : ∀ c', c' ≠ c → Later c' w r.1

theorem Acted.move (hw : w.Ok) (hc : CommandOk w c cmd) : Acted c w (w, some cmd) where
  ok := hw
  command _ h := by
    cases h
    exact hc
  later c' _ := .refl c' w

theorem Acted.leave (hw : w.Ok) : Acted c w (w, none) where
  ok := hw
  command _ h := by cases h
  later c' _ := .refl c' w

theorem weakens_select : Weakens w pid Tunnel.select := by
  intro t t' _ hf
  cases hf
  exact ⟨rfl, fun hs => absurd hs.2.2 (by simp)⟩

theorem keeps_select : Keeps c w pid Tunnel.select := fun _ _ hp => ⟨_, rfl, rfl, hp, id⟩

theorem weakens_terminate : Weakens w pid Tunnel.terminate := by
  intro t t' _ hf
  unfold Tunnel.terminate at hf
  split_ifs at hf
  · cases hf
    exact ⟨rfl, id⟩
  · cases hf
    exact ⟨rfl, fun hs => absurd hs.1 (by simp)⟩

theorem keeps_terminate : Keeps c w pid Tunnel.terminate := by
  intro t _ hp
  unfold Tunnel.terminate
  split_ifs
  · exact ⟨t, rfl, rfl, hp, id⟩
  · exact ⟨_, rfl, rfl, hp, id⟩

theorem weakens_orphan : Weakens w pid (Tunnel.orphan c) := by
  intro t t' _ hf
  unfold Tunnel.orphan at hf
  split_ifs at hf <;> cases hf
  · exact ⟨rfl, id⟩
  · exact ⟨rfl, id⟩

theorem keeps_orphan {c' : CommandId} (hne : c' ≠ c) : Keeps c' w pid (Tunnel.orphan c) := by
  intro t _ hp
  have hother : t.parent ≠ some c := by
    rw [hp]
    exact fun h => hne (Option.some.inj h)
  exact ⟨t, if_neg hother, rfl, hp, id⟩

theorem orphan_cases (w : World) (c : CommandId) (pc : CommandPc) :
    w.orphan c pc = w ∨ ∃ pid, w.orphan c pc = w.adjust pid (Tunnel.orphan c) := by
  unfold World.orphan
  split
  · exact .inr ⟨_, rfl⟩
  · exact .inl rfl

theorem acted_abandon (hw : w.Ok) : Acted c w (act other w c cmd .abandon) := by
  change Acted c w (w.orphan c cmd.pc, none)
  rcases orphan_cases w c cmd.pc with heq | ⟨pid, heq⟩
  · rw [heq]
    exact .leave hw
  · rw [heq]
    exact ⟨hw.adjust weakens_orphan, by simp,
      fun c' hne => .adjust weakens_orphan (keeps_orphan hne)⟩

theorem acted_openDir (hw : w.Ok) (hc : CommandOk w c cmd) :
    Acted c w (act other w c cmd .openDir) := by
  unfold act
  dsimp only
  split
  · refine .move hw ⟨fun v hv => ?_, by simp, ?_⟩
    · obtain ⟨f, hf, rfl⟩ := Option.map_eq_some_iff.mp hv
      obtain ⟨host, -, hf⟩ := Option.bind_eq_some_iff.mp hf
      exact hw.clocked host f hf
    · rintro d ⟨-, -, ⟨f, hf, -⟩, -⟩
      refine .inl ?_
      rw [← AList.mem_keys, ← AList.lookup_isSome, hf]
      rfl
  · exact .move hw hc

theorem acted_readEntry (hw : w.Ok) (hc : CommandOk w c cmd) :
    Acted c w (act other w c cmd (.readEntry name)) := by
  unfold act
  dsimp only
  split
  · rename_i pending read hpc
    obtain ⟨hread, hdue⟩ := hc.placed hpc
    have hpending : ∀ {d : Sessions.Session}, d.host ≠ name → d.host ∈ pending →
        d.host ∈ pending.erase name :=
      fun hne hmem => (List.mem_erase_of_ne hne).mpr hmem
    refine .move hw ⟨hc.seen, ?_⟩
    split
    · rename_i inode version session hf
      have hhost : session.host = name := hw.keyed name _ session hf rfl
      refine ⟨fun e he => ?_, fun d hd => ?_⟩
      · rcases List.mem_append.mp he with he | he
        · exact hread e he
        · obtain rfl := List.mem_singleton.mp he
          subst hhost
          refine ⟨hw.plain _ _ hf, hw.clocked _ _ hf, fun f hf' _ => ?_⟩
          obtain rfl := Option.some.inj (hf.symm.trans hf')
          rfl
      · by_cases hname : d.host = name
        · obtain ⟨-, -, ⟨f, hf', -, hcont⟩, -⟩ := hd
          rw [hname] at hf'
          obtain rfl := Option.some.inj (hf.symm.trans hf')
          refine .inr ⟨_, List.mem_append_right _ (List.mem_singleton_self _), ?_⟩
          exact Option.some.inj hcont
        · rcases hdue d hd with hmem | ⟨e, he, heq⟩
          · exact .inl (hpending hname hmem)
          · exact .inr ⟨e, List.mem_append_left _ he, heq⟩
    · rename_i hno
      refine ⟨hread, fun d hd => ?_⟩
      rcases hdue d hd with hmem | hfound
      · refine .inl (hpending ?_ hmem)
        rintro rfl
        obtain ⟨-, -, ⟨f, hf, -, hcont⟩, -⟩ := hd
        exact hno f.inode f.version d (by rw [hf, ← hcont])
      · exact .inr hfound
  · exact .move hw hc

theorem acted_endListing (hw : w.Ok) (hc : CommandOk w c cmd) :
    Acted c w (act other w c cmd .endListing) := by
  unfold act
  dsimp only
  split
  · rename_i read hpc
    have hplace := hc.placed hpc
    refine .move hw ⟨hc.seen, ?_, fun d hd => ?_⟩
    · simpa using hplace.1
    · simpa using hplace.2 d hd
  · exact .move hw hc

theorem acted_check {alive : Bool} (hw : w.Ok) (hc : CommandOk w c cmd) :
    Acted c w (act other w c cmd (.check alive)) := by
  unfold act
  dsimp only
  split
  · rename_i e todo kept hpc
    obtain ⟨hread, hdue⟩ := hc.placed hpc
    split_ifs with halive
    · have hmem : ∀ x, x ∈ todo ++ (kept ++ [e]) ↔ x ∈ e :: todo ++ kept := by
        intro x
        simp only [List.mem_append, List.mem_cons, List.not_mem_nil, or_false]
        tauto
      refine .move hw ⟨hc.seen, fun x hx => hread x ((hmem x).mp hx), fun d hd => ?_⟩
      obtain ⟨x, hx, heq⟩ := hdue d hd
      exact ⟨x, (hmem x).mpr hx, heq⟩
    · have hdead : w.tunnels e.session.pid = none := by
        by_contra hne
        exact halive (.inr (Option.isSome_iff_ne_none.mpr hne))
      have hno : ∀ host, ¬ w.Stands host e.session.pid := by
        rintro host ⟨t, ht, -⟩
        rw [hdead] at ht
        cases ht
      refine .move hw ⟨hc.seen, ⟨hread e (by simp), fun hcur => hno _ hcur.2⟩, fun x hx => ?_,
        fun d hd => ?_⟩
      · exact hread x (List.mem_cons_of_mem _ hx)
      · obtain ⟨x, hx, heq⟩ := hdue d hd
        rcases List.mem_cons.mp hx with rfl | hx
        · subst heq
          exact absurd hd.2.2.2 (hno _)
        · exact ⟨x, hx, heq⟩
  · exact .move hw hc

theorem acted_prune (hw : w.Ok) (hc : CommandOk w c cmd)
    (hgood : UpToDate other w cmd .prune) : Acted c w (act other w c cmd .prune) := by
  unfold act
  dsimp only
  split
  · rename_i stale todo kept hpc
    obtain ⟨⟨hstale, hdead⟩, hread, hdue⟩ := hc.placed hpc
    have hnext : CommandOk w c { cmd with pc := .pruning todo kept } := ⟨hc.seen, hread, hdue⟩
    constructor
    · exact hw.remove fun name pid hn =>
        not_stands_of_unchanged hw hstale hdead (hgood _ _ _ hpc) hn
    · intro cmd' h
      cases h
      exact Later.remove.commandOk hnext
    · exact fun c' _ => .remove
  · exact .move hw hc

theorem acted_unlink (hw : w.Ok) (hc : CommandOk w c cmd)
    (hgood : UpToDate other w cmd .unlink) : Acted c w (act other w c cmd .unlink) := by
  unfold act
  dsimp only
  split
  · rename_i e hpc
    obtain ⟨he, hdead⟩ := hc.placed hpc
    refine ⟨?_, by simp, fun c' _ => .remove⟩
    exact hw.remove fun name pid hn => not_stands_of_unchanged hw he hdead (hgood _ hpc) hn
  · exact .move hw hc

theorem findSession_eq_none {kept : List Entry} (hnum : parseU32 host = none)
    (h : findSession kept host = none) (he : e ∈ kept) : e.session.host ≠ host := by
  simp only [findSession, hnum, List.find?_eq_none, List.mem_insertionSort, decide_eq_true_eq] at h
  exact h e he

theorem mem_of_findSession {kept : List Entry} (h : findSession kept name = some e) : e ∈ kept := by
  unfold findSession at h
  dsimp only at h
  split at h <;> exact (List.mem_insertionSort _).mp (List.mem_of_find?_eq_some h)

theorem acted_conclude (hw : w.Ok) (hc : CommandOk w c cmd) :
    Acted c w (act other w c cmd .conclude) := by
  unfold act
  dsimp only
  split
  · rename_i kept hpc
    obtain ⟨hread, hdue⟩ := hc.placed hpc
    split
    · rename_i peer port hpurpose
      split
      · exact .leave hw
      · rename_i hnone
        refine .move hw ⟨hc.seen, fun d hd => ?_⟩
        obtain ⟨e, he, rfl⟩ := hdue d hd
        have hhost : e.session.host = peer.name := by
          have hp := hd.1
          rw [hpurpose] at hp
          exact (Option.some.inj hp).symm
        refine findSession_eq_none ?_ hnone (by simpa using he) hhost
        rw [← hhost]
        exact hd.2.1
    · exact .leave hw
    · rename_i target hpurpose
      split
      · rename_i e hfound
        have he : w.EntryOk e := hread e (by simpa using mem_of_findSession hfound)
        have hsel : Later c w (w.adjust e.session.pid Tunnel.select) :=
          .adjust weakens_select keeps_select
        constructor
        · exact hw.adjust weakens_select
        · intro cmd' h
          cases h
          refine ⟨hc.seen, hsel.entryOk he, ?_⟩
          rintro ⟨-, t, ht, -, hs⟩
          rw [adjust_tunnels_self] at ht
          obtain ⟨t₀, -, hsome⟩ := Option.bind_eq_some_iff.mp ht
          cases hsome
          exact absurd hs.2.2 (by simp)
        · exact fun c' _ => .adjust weakens_select keeps_select
      · exact .leave hw
  · exact .move hw hc

theorem acted_signal {delivered : Bool} (hw : w.Ok) (hc : CommandOk w c cmd) :
    Acted c w (act other w c cmd (.signal delivered)) := by
  unfold act
  dsimp only
  split
  · rename_i e hpc
    have hplace := hc.placed hpc
    split_ifs
    · have hnext : CommandOk w c { cmd with pc := .signalled e } := ⟨hc.seen, hplace⟩
      constructor
      · exact hw.adjust weakens_terminate
      · intro cmd' h
        cases h
        exact (Later.adjust weakens_terminate keeps_terminate).commandOk hnext
      · exact fun c' _ => .adjust weakens_terminate keeps_terminate
    · exact .leave hw
  · exact .move hw hc

theorem acted_spawn (hw : w.Ok) (hc : CommandOk w c cmd) :
    Acted c w (act other w c cmd (.spawn pid)) := by
  unfold act
  dsimp only
  split
  · rename_i peer port hpurpose hpc
    have hplace := hc.placed hpc
    split_ifs with hno
    · constructor
      · exact hw.spawn
      · intro cmd' h
        cases h
        have hlater : Later c w (w.spawn c pid peer.name) := .spawn hno
        refine ⟨hc.seen, fun d hd => hplace d (hlater.due hc.seen hd), ?_⟩
        intro host hhost
        rw [hpurpose] at hhost
        cases hhost
        exact ⟨_, spawn_tunnels_self, rfl, rfl⟩
      · exact fun c' _ => .spawn hno
    · exact .move hw hc
  · exact .move hw hc

theorem acted_openFile (hw : w.Ok) (hc : CommandOk w c cmd)
    (hgood : UpToDate other w cmd .openFile) : Acted c w (act other w c cmd .openFile) := by
  unfold act
  dsimp only
  split
  · rename_i peer port pid hpurpose hpc
    obtain ⟨hdue, hchild⟩ := hc.placed hpc
    have hhost : cmd.purpose.host = some peer.name := by rw [hpurpose]; rfl
    have hv := hgood peer port pid hpurpose hpc
    have hopen : w.openFile other peer.name = w.put peer.name (w.inodeAt other peer.name) none := by
      rw [World.openFile, sessionPath_plain hv.plain]
    rw [hopen]
    constructor
    · exact hw.put hv.plain (by simp) fun pid => not_stands_of_vacant hw hv hhost hdue
    · intro cmd' h
      cases h
      refine ⟨fun v hseen => (hc.seen v hseen).trans (Nat.lt_succ_self _), Nat.lt_succ_self _, ?_⟩
      intro host hh
      obtain rfl := Option.some.inj (hhost.symm.trans hh)
      refine ⟨hv.plain, Later.put.child_of (hchild _ hh), fun f hf _ => ?_⟩
      exact Option.some.inj (hf.symm.trans lookup_put_self)
    · exact fun c' _ => .put
  · exact .move hw hc

theorem acted_writeFile {now : ℕ} {whole : Bool} (hw : w.Ok) (hc : CommandOk w c cmd)
    (hgood : UpToDate other w cmd (.writeFile now whole)) :
    Acted c w (act other w c cmd (.writeFile now whole)) := by
  unfold act
  dsimp only
  split
  · rename_i peer port pid inode version hpurpose hpc
    have hplace := hc.placed hpc
    obtain ⟨f, hf, hv⟩ := hgood peer port pid inode version hpurpose hpc
    have hhost : cmd.purpose.host = some peer.name := by rw [hpurpose]; rfl
    obtain ⟨hplain, ⟨t, ht, hth, hparent⟩, hfile⟩ := hplace.2 _ hhost
    obtain rfl := hfile f hf hv
    have hwrite : w.writeFile other peer.name inode version (descriptor peer port pid now) whole =
        w.put peer.name inode (some (descriptor peer port pid now)) := by
      simp [World.writeFile, sessionPath_plain hplain, hf]
    have hno : ∀ pid, ¬ w.Stands peer.name pid := fun pid => not_stands_of_truncated hw hf rfl
    have hself : ((w.put peer.name inode (some (descriptor peer port pid now))).adjust pid
        (Tunnel.advance .recorded)).tunnels pid = some { t with stage := .recorded } := by
      rw [adjust_tunnels_self]
      exact congrArg (Option.bind · (Tunnel.advance .recorded)) ht
    rw [hwrite]
    constructor
    · exact hw.record ht hth hplain hno rfl rfl
    · intro cmd' h
      cases h
      exact ⟨fun v hseen => (hc.seen v hseen).trans (Nat.lt_succ_self _), _, hself, hparent,
        by simp⟩
    · exact fun c' _ => .record ht hth
  · exact .move hw hc

theorem acted_ret (hw : w.Ok) (hc : CommandOk w c cmd) : Acted c w (act other w c cmd .ret) := by
  unfold act
  dsimp only
  split
  · rename_i pid hpc
    obtain ⟨t, ht, -, hstage⟩ := hc.placed hpc
    have hweak : Weakens w pid (Tunnel.advance .returned) := by
      intro t₀ t' ht₀ hsome
      obtain rfl := Option.some.inj (ht.symm.trans ht₀)
      cases hsome
      exact ⟨rfl, fun hs => ⟨hs.1, hstage, hs.2.2⟩⟩
    rw [hpc]
    refine ⟨(hw.adjust hweak).adjust weakens_orphan, by simp, fun c' hne => ?_⟩
    have hret : Later c' w (w.adjust pid (Tunnel.advance .returned)) :=
      .adjust hweak (keeps_advance (by simp))
    exact hret.trans (.adjust weakens_orphan (keeps_orphan hne))
  · exact .move hw hc

theorem acted {a : CommandStep} (hw : w.Ok) (hc : CommandOk w c cmd)
    (hgood : UpToDate other w cmd a) : Acted c w (act other w c cmd a) := by
  cases a with
  | openDir => exact acted_openDir hw hc
  | readEntry name => exact acted_readEntry hw hc
  | endListing => exact acted_endListing hw hc
  | check alive => exact acted_check hw hc
  | prune => exact acted_prune hw hc hgood
  | conclude => exact acted_conclude hw hc
  | spawn pid => exact acted_spawn hw hc
  | openFile => exact acted_openFile hw hc hgood
  | writeFile now whole => exact acted_writeFile hw hc hgood
  | ret => exact acted_ret hw hc
  | signal delivered => exact acted_signal hw hc
  | unlink => exact acted_unlink hw hc hgood
  | abandon => exact acted_abandon hw

/-! ### Runs -/

structure Sessions.Sound (s : Sessions) : Prop where
  world : s.world.Ok
  commands : ∀ c cmd, s.commands c = some cmd → CommandOk s.world c cmd

theorem Sessions.Sound.bookkept {s : Sessions} (hs : s.Sound) : Bookkept s where
  named pid t ht hsettled := by
    obtain ⟨f, d, hf, hcont, hpid⟩ := hs.world.recorded t.host pid ⟨t, ht, rfl, hsettled.standing⟩
    exact ⟨t.host, f, d, hf, hcont, hpid⟩
  unique pid pid' t t' ht ht' hset hset' hhost := by
    obtain ⟨f, d, hf, hcont, rfl⟩ := hs.world.recorded t.host pid ⟨t, ht, rfl, hset.standing⟩
    obtain ⟨f', d', hf', hcont', rfl⟩ :=
      hs.world.recorded t.host pid' ⟨t', ht', hhost.symm, hset'.standing⟩
    obtain rfl := Option.some.inj (hf.symm.trans hf')
    obtain rfl := Option.some.inj (hcont.symm.trans hcont')
    rfl

theorem sound_new : Sessions.new.Sound where
  world := by
    constructor
    · intro _ _ h
      cases h
    · intro _ _ h
      cases h
    · intro _ _ _ h
      cases h
    · rintro _ _ ⟨_, h, _⟩
      cases h
  commands _ _ h := by cases h

theorem weakens_interrupt : Weakens w pid Tunnel.interrupt := by
  intro t t' _ hf
  unfold Tunnel.interrupt at hf
  split_ifs at hf <;> cases hf
  · exact ⟨rfl, fun hs => absurd hs.1 (by simp)⟩
  · exact ⟨rfl, id⟩

theorem keeps_interrupt : Keeps c w pid Tunnel.interrupt := by
  intro t _ hp
  unfold Tunnel.interrupt
  split_ifs
  · exact ⟨_, rfl, rfl, hp, id⟩
  · exact ⟨t, rfl, rfl, hp, id⟩

theorem weakens_clean : Weakens w pid Tunnel.clean := by
  intro t t' _ hf
  cases hf
  exact ⟨rfl, fun hs => absurd hs.1 (by simp)⟩

theorem keeps_clean : Keeps c w pid Tunnel.clean := fun _ _ hp => ⟨_, rfl, rfl, hp, id⟩

theorem weakens_exit : Weakens w pid Tunnel.exit := by
  intro t t' _ hf
  unfold Tunnel.exit at hf
  split_ifs at hf
  cases hf
  exact ⟨rfl, fun hs => absurd hs.1 (by simp)⟩

/-- A tunnel stays as a zombie while its parent runs. -/
theorem keeps_exit : Keeps c w pid Tunnel.exit := by
  intro t _ hp
  have hparent : t.parent ≠ none := by simp [hp]
  exact ⟨_, if_neg hparent, rfl, hp, id⟩

theorem Sessions.Sound.later {s : Sessions} (hs : s.Sound) (hw : w.Ok)
    (hl : ∀ c, Later c s.world w) : ({ s with world := w } : Sessions).Sound where
  world := hw
  commands c cmd h := (hl c).commandOk (hs.commands c cmd h)

theorem Sessions.Sound.step {s : Sessions} {ev : SessionEvent} (hs : s.Sound)
    (hgood : s.UpToDate other ev) : (s.step other ev).Sound := by
  cases ev with
  | run c purpose =>
    unfold Sessions.step
    dsimp only
    split_ifs
    · refine ⟨hs.world, fun c' cmd h => ?_⟩
      by_cases hc : c' = c
      · subst hc
        simp only [Function.update_self, Option.some.injEq] at h
        subst h
        exact ⟨by simp, trivial⟩
      · simp only [Function.update_of_ne hc] at h
        exact hs.commands c' cmd h
    · exact hs
  | act c a =>
    unfold Sessions.step
    dsimp only
    split
    · rename_i cmd hcmd
      have hact := acted hs.world (hs.commands c cmd hcmd) (hgood cmd hcmd)
      refine ⟨hact.ok, fun c' cmd' h => ?_⟩
      by_cases hc : c' = c
      · subst hc
        simp only [Function.update_self] at h
        exact hact.command cmd' h
      · simp only [Function.update_of_ne hc] at h
        exact (hact.later c' hc).commandOk (hs.commands c' cmd' h)
    · exact hs
  | interrupt pid =>
    exact hs.later (hs.world.adjust weakens_interrupt) fun _ =>
      .adjust weakens_interrupt keeps_interrupt
  | cleanup pid host =>
    unfold Sessions.step
    dsimp only
    split_ifs with hphase
    · have hremove : (s.world.remove other host).Ok := hs.world.remove fun name pid' hn =>
        not_stands_of_owned hs.world (hgood hphase) hphase hn
      exact hs.later (hremove.adjust weakens_clean) fun _ =>
        Later.remove.trans (.adjust weakens_clean keeps_clean)
    · exact hs
  | exit pid =>
    exact hs.later (hs.world.adjust weakens_exit) fun _ => .adjust weakens_exit keeps_exit

/-- While every step is up to date, settled tunnels keep their descriptors, and each is the only
one of its host. -/
theorem sessions_bookkept (other : String → Option String) (es : List SessionEvent)
    (h : Transition.Steps (Sessions.step other) (Sessions.UpToDate other) Sessions.new es) :
    Transition.Always (Sessions.step other) Bookkept Sessions.new es := by
  have hsound : Transition.Always (Sessions.step other) Sessions.Sound Sessions.new es :=
    h.always (fun _ _ hs hgood => hs.step hgood) sound_new
  exact hsound.mono fun _ hs => hs.bookkept

/-- A command for a host, up to the spawn, in an empty directory. -/
def connectSteps (c : CommandId) (peer : TailscalePeer) (pid : Pid) : List SessionEvent :=
  [.run c (.connect peer 18080), .act c .openDir, .act c .endListing, .act c .conclude,
    .act c (.spawn pid)]

def recordSteps (c : CommandId) : List SessionEvent :=
  [.act c .openFile, .act c (.writeFile 0 true), .act c .ret]

def alphaPeer : TailscalePeer := ⟨"alpha", "alpha.tail.ts.net.", "100.64.0.1", true⟩

theorem sessions_bookkept_alpha :
    Transition.Steps (Sessions.step fun _ => none) (Sessions.UpToDate fun _ => none) Sessions.new
      (connectSteps 0 alphaPeer 7 ++ recordSteps 0) ∧
    Transition.Always (Sessions.step fun _ => none) Bookkept Sessions.new
      (connectSteps 0 alphaPeer 7 ++ recordSteps 0) := by
  have h : Transition.Steps (Sessions.step fun _ => none) (Sessions.UpToDate fun _ => none)
      Sessions.new (connectSteps 0 alphaPeer 7 ++ recordSteps 0) := by
    refine ⟨trivial, fun _ _ => trivial, fun _ _ => trivial, fun _ _ => trivial, fun _ _ => trivial,
      fun cmd hcmd => ?_, fun cmd hcmd => ?_, fun _ _ => trivial, trivial⟩
    · cases hcmd
      rintro peer port pid ⟨⟩ -
      constructor
      · decide
      · intro f hf
        cases hf
      · intro _ f d hf
        cases hf
    · cases hcmd
      rintro peer port pid inode version ⟨⟩ ⟨⟩
      exact ⟨_, rfl, rfl⟩
  exact ⟨h, sessions_bookkept _ _ h⟩

/-- Two commands for one host find no session of it before either has written one down. -/
theorem sessions_not_bookkept : ¬ ∀ (other : String → Option String) (es : List SessionEvent),
    Transition.Always (Sessions.step other) Bookkept Sessions.new es := by
  intro h
  have hrun := h (fun _ => none) (connectSteps 0 alphaPeer 7 ++ connectSteps 1 alphaPeer 8 ++
    recordSteps 0 ++ recordSteps 1) _ List.prefix_rfl
  have hset : ∀ t : Tunnel, t = ⟨"alpha", .serving, none, .returned, false⟩ → t.Settled := by
    rintro _ rfl
    exact ⟨rfl, rfl, rfl⟩
  refine absurd (hrun.unique 7 8 ⟨"alpha", .serving, none, .returned, false⟩
    ⟨"alpha", .serving, none, .returned, false⟩ ?_ ?_ (hset _ rfl) (hset _ rfl) rfl) (by decide)
  · decide +kernel
  · decide +kernel

end Urc
