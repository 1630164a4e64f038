import Urc.Files.Handlers

/-! # Making directories

`create_dir_all` on a file system that may fail where the tree alone would let a call succeed: for
lack of space, say, or of rights. It begins with the first directory that is missing on its path,
and goes on as if that had been there.
-/

namespace Urc

open FileTree

/-- What the file system refuses: a new directory at a place, the opening of a file, and of the data
all behind the first bytes. -/
structure Faults where
  mkdir : OsPath → Bool
  openFile : OsPath → Bool
  broken : Option ℕ

def Faults.never : Faults := ⟨fun _ => false, fun _ => false, none⟩

/-- The first name on a path that a directory lacks, where `create_dir_all` begins to make
directories. -/
structure Missing (t : Fs) (p : PathBuf) (a : OsPath) : Prop where
  path : pathOk p = true
  first : ∃ pre n post d, p = pre ++ .normal n :: post ∧ walkPath t pre = .found d ∧
    t.look d = some .dir ∧ nameOk n = true ∧ t.look (d ++ [n]) = none ∧ a = d ++ [n]

variable (f : Faults)

def mkdirOn (t : Fs) (parent : PathBuf) (last : Component OsStr) : Except IoError OsPath :=
  match mkdir t parent last with
  | .ok d => if f.mkdir d then .error .other else .ok d
  | .error e => .error e

/-- `create_dir_all`, with `mkdirOn`. -/
def createDirAllOn (t : Fs) : List (Component OsStr) → Created
  | [] => ⟨true, [], t⟩
  | last :: rev =>
    match mkdirOn f t rev.reverse last with
    | .ok d => ⟨true, [d], t.set d (.dir [])⟩
    | .error .notFound =>
      let r := createDirAllOn t rev
      if r.ok then
        match mkdirOn f r.fs rev.reverse last with
        | .ok d => ⟨true, r.made ++ [d], r.fs.set d (.dir [])⟩
        | .error _ => ⟨isDir r.fs (rev.reverse ++ [last]), r.made, r.fs⟩
      else r
    | .error .other => ⟨isDir t (rev.reverse ++ [last]), [], t⟩

variable {f} {t : Fs} {p dest : PathBuf} {a d : OsPath} {n : OsStr} {c : Component OsStr}
  {rev : List (Component OsStr)}

/-! ### One directory -/

theorem mkdirOn_never (t : Fs) (p : PathBuf) (c : Component OsStr) :
    mkdirOn .never t p c = mkdir t p c := by
  unfold mkdirOn
  cases mkdir t p c <;> rfl

theorem createDirAllOn_never (t : Fs) (rev : List (Component OsStr)) :
    createDirAllOn .never t rev = createDirAll t rev := by
  induction rev with
  | nil => rfl
  | cons last rev ih =>
    cases hfirst : mkdir t rev.reverse last with
    | ok d => simp only [createDirAllOn, createDirAll, mkdirOn_never, hfirst]
    | error e =>
      cases e with
      | other => simp only [createDirAllOn, createDirAll, mkdirOn_never, hfirst]
      | notFound =>
        cases hagain : mkdir (createDirAll t rev).fs rev.reverse last with
        | ok d => simp only [createDirAllOn, createDirAll, mkdirOn_never, hfirst, ih, hagain]
        | error e => simp only [createDirAllOn, createDirAll, mkdirOn_never, hfirst, ih, hagain]

theorem mkdirOn_eq_ok : mkdirOn f t p c = .ok d ↔ mkdir t p c = .ok d ∧ f.mkdir d = false := by
  unfold mkdirOn
  cases mkdir t p c with
  | ok e =>
    dsimp only
    split_ifs with hf
    · refine iff_of_false (by simp) ?_
      rintro ⟨he, hd⟩
      rw [Except.ok.inj he, hd] at hf
      cases hf
    · refine ⟨fun he => ⟨he, ?_⟩, fun h => h.1⟩
      rw [← Except.ok.inj he]
      simpa using hf
  | error e => simp

theorem mkdirOn_eq_notFound :
    mkdirOn f t p c = .error .notFound ↔ mkdir t p c = .error .notFound := by
  unfold mkdirOn
  cases mkdir t p c with
  | ok e =>
    dsimp only
    split_ifs <;> simp
  | error e => rfl

theorem walk_missing_append {pre post : PathBuf} (hw : walkPath t pre = .found d)
    (hd : t.look d = some .dir) (hn : nameOk n = true) (hmiss : t.look (d ++ [n]) = none) :
    walkPath t (pre ++ .normal n :: post) = .missing d n post := by
  obtain ⟨k, hk⟩ := walk_append_of_found hw
  rw [walkPath, hk, walk_eq_iff]
  exact .missing hd hn hmiss

theorem Missing.mkdir_eq_notFound (hp : pathOk (p ++ [c]) = true) (h : Missing t p a) :
    mkdir t p c = .error .notFound := by
  obtain ⟨-, pre, n, post, d, rfl, hw, hd, hn, hmiss, -⟩ := h
  exact Urc.mkdir_eq_notFound.mpr ⟨hp, d, n, post, walk_missing_append hw hd hn hmiss⟩

theorem Missing.mkdir_cases (h : Missing t (p ++ [c]) a) :
    mkdir t p c = .ok a ∨ mkdir t p c = .error .notFound ∧ Missing t p a := by
  obtain ⟨hp, pre, n, post, d, heq, hw, hd, hn, hmiss, rfl⟩ := h
  rcases List.eq_nil_or_concat post with rfl | ⟨post, c', rfl⟩
  · obtain ⟨rfl, hlast⟩ := List.append_inj' heq rfl
    obtain rfl := List.singleton_inj.mp hlast
    exact .inl (mkdir_eq_ok.mpr ⟨hp, d, n, rfl, hw, hd, hn, hmiss, rfl⟩)
  · rw [List.concat_eq_append, ← List.cons_append, ← List.append_assoc] at heq
    have hrest : Missing t p (d ++ [n]) := ⟨pathOk_of_append hp, pre, n, post, d,
      (List.append_inj' heq rfl).1, hw, hd, hn, hmiss, rfl⟩
    exact .inr ⟨hrest.mkdir_eq_notFound hp, hrest⟩

theorem not_missing_nil : ¬ Missing t [] a := by
  rintro ⟨-, pre, n, post, d, heq, -⟩
  simp at heq

theorem isDir_iff : isDir t p = true ↔ ∃ d, resolve t p = .found d ∧ t.look d = some .dir := by
  unfold isDir
  split
  · rename_i d hd
    simp [hd]
  · rename_i hd
    simp only [Bool.false_eq_true, false_iff, not_exists, not_and]
    exact fun d hd' => absurd hd' (hd d)

theorem resolve_of_pathOk (h : pathOk p = true) : resolve t p = walkPath t p := if_pos h

theorem Missing.settable (h : Missing t p a) : t.Settable a := by
  obtain ⟨-, pre, n, post, d, -, -, hd, -, -, rfl⟩ := h
  exact Node.settable_of_dir hd

theorem Missing.look (h : Missing t p a) : t.look a = none := by
  obtain ⟨-, pre, n, post, d, -, -, -, -, hmiss, rfl⟩ := h
  exact hmiss

theorem isDir_of_append (h : isDir t (p ++ [c]) = true) : isDir t p = true := by
  obtain ⟨e, he, -⟩ := isDir_iff.mp h
  have hp : pathOk (p ++ [c]) = true := by
    by_contra hp
    simp [resolve, hp] at he
  rw [resolve_of_pathOk hp, walkPath] at he
  obtain ⟨d, hd⟩ := found_of_append he
  obtain ⟨k, hk⟩ := walk_append_of_found hd
  refine isDir_iff.mpr ⟨d, by rw [resolve_of_pathOk (pathOk_of_append hp), walkPath, hd], ?_⟩
  by_contra hdir
  rw [hk, walk_eq_iff.mpr (.notDir hdir)] at he
  cases he

/-! ### The first missing directory -/

theorem createDirAllOn_of_made_nil (h : (createDirAllOn f t rev).made = []) :
    (createDirAllOn f t rev).fs = t := by
  induction rev with
  | nil => rfl
  | cons last rev ih =>
    unfold createDirAllOn at h ⊢
    cases hm : mkdirOn f t rev.reverse last with
    | ok d => simp [hm] at h
    | error e =>
      cases e with
      | other => rfl
      | notFound =>
        rw [hm] at h
        dsimp only at h ⊢
        split_ifs at h ⊢ with hok
        · cases hm' : mkdirOn f (createDirAllOn f t rev).fs rev.reverse last with
          | ok d => simp [hm'] at h
          | error e => rw [hm'] at h; exact ih h
        · exact ih h

/-- Directories are made only where one is missing. -/
theorem missing_of_madeOn (h : (createDirAllOn f t rev).made ≠ []) :
    ∃ a, Missing t rev.reverse a ∧ f.mkdir a = false := by
  induction rev with
  | nil => exact absurd rfl h
  | cons last rev ih =>
    unfold createDirAllOn at h
    cases hm : mkdirOn f t rev.reverse last with
    | ok d =>
      obtain ⟨hmk, hfree⟩ := mkdirOn_eq_ok.mp hm
      obtain ⟨hp, d', n, rfl, hw, hd, hn, hmiss, rfl⟩ := mkdir_eq_ok.mp hmk
      rw [List.reverse_cons]
      exact ⟨_, ⟨hp, _, n, [], d', rfl, hw, hd, hn, hmiss, rfl⟩, hfree⟩
    | error e =>
      cases e with
      | other => simp [hm] at h
      | notFound =>
        have hp := (mkdir_eq_notFound.mp (mkdirOn_eq_notFound.mp hm)).1
        have hrec : (createDirAllOn f t rev).made ≠ [] := by
          intro hnil
          rw [hm] at h
          dsimp only at h
          rw [createDirAllOn_of_made_nil hnil, hm, hnil] at h
          split_ifs at h
          · exact h rfl
          · exact h hnil
        obtain ⟨a, ⟨-, pre, n, post, d, hrev, hrest⟩, hfree⟩ := ih hrec
        rw [List.reverse_cons]
        exact ⟨a, ⟨hp, pre, n, post ++ [last], d, by rw [hrev]; simp, hrest⟩, hfree⟩

theorem createDirAllOn_of_isDir (h : isDir t rev.reverse = true) :
    createDirAllOn f t rev = ⟨true, [], t⟩ := by
  cases rev with
  | nil => rfl
  | cons last rev =>
    rw [List.reverse_cons] at h
    obtain ⟨d, hd, -⟩ := isDir_iff.mp h
    have hp : pathOk (rev.reverse ++ [last]) = true := by
      by_contra hp
      simp [resolve, hp] at hd
    rw [resolve_of_pathOk hp] at hd
    unfold createDirAllOn
    cases hm : mkdirOn f t rev.reverse last with
    | ok e =>
      obtain ⟨-, d', n, rfl, hw, hd', hn, hmiss, -⟩ := mkdir_eq_ok.mp (mkdirOn_eq_ok.mp hm).1
      rw [walk_missing_append hw hd' hn hmiss] at hd
      cases hd
    | error e =>
      cases e with
      | other => simp [h]
      | notFound =>
        obtain ⟨-, d', n, rest, hw⟩ := mkdir_eq_notFound.mp (mkdirOn_eq_notFound.mp hm)
        rw [walkPath, walk_append_of_missing hw] at hd
        cases hd

/-- The directories before the last may as well be made before it is tried. -/
theorem createDirAllOn_cons {last : Component OsStr} (hp : pathOk (rev.reverse ++ [last]) = true) :
    createDirAllOn f t (last :: rev) =
      let r := createDirAllOn f t rev
      if r.ok then
        match mkdirOn f r.fs rev.reverse last with
        | .ok d => ⟨true, r.made ++ [d], r.fs.set d (.dir [])⟩
        | .error _ => ⟨isDir r.fs (rev.reverse ++ [last]), r.made, r.fs⟩
      else r := by
  cases hm : mkdirOn f t rev.reverse last with
  | ok e =>
    obtain ⟨-, d, -, -, hw, hd, -⟩ := mkdir_eq_ok.mp (mkdirOn_eq_ok.mp hm).1
    have hdir : isDir t rev.reverse = true :=
      isDir_iff.mpr ⟨d, by rw [resolve_of_pathOk (pathOk_of_append hp), hw], hd⟩
    simp [createDirAllOn_of_isDir hdir, createDirAllOn, hm]
  | error e =>
    cases e with
    | notFound => rw [createDirAllOn, hm]
    | other =>
      by_cases hdir : isDir t rev.reverse = true
      · simp [createDirAllOn_of_isDir hdir, createDirAllOn, hm]
      · -- something that is no directory stands in the way, and nothing is made
        have hnil : (createDirAllOn f t rev).made = [] := by
          by_contra hne
          obtain ⟨_, hmiss, -⟩ := missing_of_madeOn hne
          rw [mkdirOn_eq_notFound.mpr (hmiss.mkdir_eq_notFound hp)] at hm
          cases hm
        have hfile : isDir t (rev.reverse ++ [last]) = false := by
          by_contra hne
          exact hdir (isDir_of_append (by simpa using hne))
        have hsame := createDirAllOn_of_made_nil hnil
        cases hr : createDirAllOn f t rev with
        | mk ok made fs =>
          rw [hr] at hnil hsame
          obtain rfl : made = [] := hnil
          obtain rfl : fs = t := hsame
          cases ok <;> simp [createDirAllOn, hm, hfile]

/-- `create_dir_all` begins with the first missing directory, and then goes on as if that had
been there. -/
theorem createDirAllOn_first (h : Missing t rev.reverse a) (hfree : f.mkdir a = false) :
    createDirAllOn f t rev =
      let r := createDirAllOn f (t.set a (.dir [])) rev
      ⟨r.ok, a :: r.made, r.fs⟩ := by
  have hset := h.settable
  have hnone := h.look
  obtain ⟨t₁, ht₁⟩ : ∃ t₁, t.set a (.dir []) = t₁ := ⟨_, rfl⟩
  have hmono : ∀ q, t.look q ≠ none → t₁.look q = t.look q :=
    fun q hq => ht₁ ▸ Node.look_set_of_missing hnone _ hq
  have hmade : t₁.look a = some .dir := by
    rw [← ht₁, Node.look, Node.get_set_self hset]
    rfl
  rw [ht₁]
  -- the components after the missing one are made, or found, in the same way in both trees
  induction rev with
  | nil => exact absurd h not_missing_nil
  | cons last rev ih =>
    rw [List.reverse_cons] at h
    rcases h.mkdir_cases with hm | ⟨hm, hrest⟩
    · have hmOn := mkdirOn_eq_ok.mpr ⟨hm, hfree⟩
      obtain ⟨hp, d, n, rfl, hw, hd, hn, hmiss, rfl⟩ := mkdir_eq_ok.mp hm
      have hfilled : walkPath t₁ (rev.reverse ++ [.normal n]) = .found (d ++ [n]) :=
        walk_missing_filled hmono hmade (by simp) (walk_missing_append hw hd hn hmiss)
      have hdir : isDir t₁ (Component.normal n :: rev).reverse = true := by
        rw [List.reverse_cons]
        exact isDir_iff.mpr ⟨_, by rw [resolve_of_pathOk hp, hfilled], hmade⟩
      rw [createDirAllOn_of_isDir hdir]
      simp [createDirAllOn, hmOn, ht₁]
    · rw [createDirAllOn, mkdirOn_eq_notFound.mpr hm, createDirAllOn_cons h.path]
      dsimp only
      rw [ih hrest]
      dsimp only
      split_ifs
      · cases mkdirOn f (createDirAllOn f t₁ rev).fs rev.reverse last with
        | ok e => rfl
        | error e => rfl
      · rfl

/-! ### Without faults -/

theorem createDirAll_of_made_nil (h : (createDirAll t rev).made = []) :
    (createDirAll t rev).fs = t := by
  rw [← createDirAllOn_never] at h ⊢
  exact createDirAllOn_of_made_nil h

theorem missing_of_made (h : (createDirAll t rev).made ≠ []) : ∃ a, Missing t rev.reverse a := by
  rw [← createDirAllOn_never] at h
  obtain ⟨a, ha, -⟩ := missing_of_madeOn h
  exact ⟨a, ha⟩

theorem createDirAll_first (h : Missing t rev.reverse a) : createDirAll t rev =
    let r := createDirAll (t.set a (.dir [])) rev
    ⟨r.ok, a :: r.made, r.fs⟩ := by
  have hfirst := createDirAllOn_first (f := .never) h rfl
  rwa [createDirAllOn_never, createDirAllOn_never] at hfirst

theorem mem_made_of_missing (h : Missing t rev.reverse a) : a ∈ (createDirAll t rev).made := by
  rw [createDirAll_first h]
  exact List.mem_cons_self

theorem openWrite_of_missing (h : Missing t dest.dropLast a) : openWrite t dest = none := by
  obtain ⟨-, pre, n, post, d, hp, hw, hd, hn, hmiss, -⟩ := h
  have hdest : dest ≠ [] := by rintro rfl; simp at hp
  obtain ⟨last, hlast⟩ : ∃ c, dest = dest.dropLast ++ [c] :=
    ⟨dest.getLast hdest, (List.dropLast_append_getLast hdest).symm⟩
  have hwalk : walkPath t dest = .missing d n (post ++ [last]) := by
    rw [hlast, hp, List.append_assoc, List.cons_append, walk_missing_append hw hd hn hmiss]
  unfold openWrite resolve
  rw [hwalk]
  split_ifs
  · cases post <;> rfl
  · rfl

theorem reverse_revParent (p : PathBuf) : (revParent p).reverse = p.dropLast := by
  rw [revParent, List.tail_reverse, List.reverse_reverse]

end Urc
