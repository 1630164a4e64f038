import Urc.Files.Confinement

/-! # Uploading and downloading

What an upload stores is what a download of the same path returns, provided that the upload
gets through: the body must fit the limit that the router leaves in place, and the
destination must be a file or a place where one can be made.
-/

namespace Urc

open FileTree

variable {t : Fs} {root p dest : PathBuf} {a d : OsPath} {n : OsStr} {data : List UInt8}
  {rev : List (Component OsStr)} {c : Component OsStr} {rel : String} {body : Multipart}

/--
An upload can write to the path: it resolves to a file, or to a free name in a directory (a last
link may lead there); or else it can do so once the first directory missing on it is made.
-/
inductive Storable (dest : PathBuf) : Fs → Prop
  | file {t : Fs} {d : OsPath} (h : resolve t dest = .found d) (hd : t.look d = some .file) :
      Storable dest t
  | free {t : Fs} {d : OsPath} {n : OsStr} (h : resolve t dest = .missing d n []) :
      Storable dest t
  | under {t : Fs} {a : OsPath} (h : Missing t dest.dropLast a)
      (ha : Storable dest (t.set a (.dir []))) : Storable dest t

/-- The upload is answered with 201, and then a download of the same path returns the data. -/
def RoundTrips (root : PathBuf) (t : Fs) (rel : String) (body : Multipart) (data : List UInt8) :
    Prop :=
  let up := uploadFile root t rel body
  up.response = .ok .created ∧ (downloadFile root up.fs rel).response = .ok data

def Stored (t : Fs) (dest : PathBuf) (data : List UInt8) : Prop :=
  let up := store t dest data
  up.response = .ok .created ∧ ∃ d, resolve up.fs dest = .found d ∧ up.fs.get d = some (.file data)

/-! ### Making the first missing directory -/

theorem store_first (h : Missing t dest.dropLast a) : store t dest data =
    let r := store (t.set a (.dir [])) dest data
    ⟨r.response, a :: r.touched, r.fs⟩ := by
  rw [← reverse_revParent] at h
  unfold store
  rw [createDirAll_first h]
  dsimp only
  cases openWrite (createDirAll (t.set a (.dir [])) (revParent dest)).fs dest with
  | none => rfl
  | some d => rfl

theorem stored_first (h : Missing t dest.dropLast a) :
    Stored t dest data ↔ Stored (t.set a (.dir [])) dest data := by
  rw [Stored, store_first h]
  rfl

/-! ### Writing where nothing has to be made -/

theorem made_nil_of_openWrite (h : openWrite t dest = some d) :
    (createDirAll t (revParent dest)).made = [] := by
  by_contra hne
  obtain ⟨a, ha⟩ := missing_of_made hne
  rw [reverse_revParent] at ha
  rw [openWrite_of_missing ha] at h
  cases h

theorem store_of_openWrite (h : openWrite t dest = some d) :
    store t dest data = ⟨.ok .created, [d], writeAt t d data⟩ := by
  have hmade := made_nil_of_openWrite h
  simp [store, hmade, createDirAll_of_made_nil hmade, h]

theorem stored_of_file (h : resolve t dest = .found d) (hd : t.look d = some .file) :
    Stored t dest data := by
  have hopen : openWrite t dest = some d := by simp [openWrite, h, hd]
  have hwrite : writeAt t d data = t.set d (.file data) := by simp [writeAt, hd]
  rw [Stored, store_of_openWrite hopen, hwrite]
  refine ⟨rfl, d, ?_, Node.get_set_self (Node.settable_of_look (by simp [hd]))⟩
  rw [← h]
  simp only [resolve, walkPath, Node.look_set_file hd]

theorem stored_of_free (h : resolve t dest = .missing d n []) : Stored t dest data := by
  have hp : pathOk dest = true := by
    by_contra hp
    simp [resolve, hp] at h
  have hopen : openWrite t dest = some (d ++ [n]) := by simp [openWrite, h]
  rw [resolve_of_pathOk hp] at h
  obtain ⟨hd, -, hmiss⟩ := missing_spec h
  have hwrite : writeAt t (d ++ [n]) data = t.set (d ++ [n]) (.file data) := by
    simp [writeAt, hmiss]
  have hget : (t.set (d ++ [n]) (.file data)).get (d ++ [n]) = some (.file data) :=
    Node.get_set_self (Node.settable_of_dir hd)
  rw [Stored, store_of_openWrite hopen, hwrite]
  refine ⟨rfl, d ++ [n], ?_, hget⟩
  rw [resolve_of_pathOk hp]
  exact walk_missing_filled (s := .file) (fun q hq => Node.look_set_of_missing hmiss _ hq)
    (by rw [Node.look, hget]; rfl) (by simp) h

theorem storable_of_stored (hmade : (createDirAll t (revParent dest)).made = [])
    (h : Stored t dest data) : Storable dest t := by
  obtain ⟨hup, e, he, hget⟩ := h
  cases ho : openWrite t dest with
  | none => simp [store, createDirAll_of_made_nil hmade, ho] at hup
  | some d =>
    rw [store_of_openWrite ho] at he hget
    dsimp only at he hget
    unfold openWrite at ho
    split at ho
    · rename_i d' hd'
      split_ifs at ho with hs
      obtain rfl := Option.some_inj.mp ho
      refine .file hd' (hs.resolve_right fun hother => ?_)
      -- a device keeps nothing of what was written to it
      rw [writeAt, if_pos hother] at he hget
      obtain rfl : d' = e := by simpa [hd'] using he
      simp [Node.look, hget, Node.shape] at hother
    · rename_i hd'
      exact .free hd'
    · cases ho

theorem stored_iff_storable : Stored t dest data ↔ Storable dest t := by
  constructor
  · -- every directory that is made leaves one less to be made
    induction hk : (createDirAll t (revParent dest)).made.length generalizing t with
    | zero => exact storable_of_stored (List.length_eq_zero_iff.mp hk)
    | succ k ih =>
      intro h
      have hne : (createDirAll t (revParent dest)).made ≠ [] := by
        rintro hnil
        simp [hnil] at hk
      obtain ⟨a, ha⟩ := missing_of_made hne
      rw [createDirAll_first ha, List.length_cons, Nat.add_right_cancel_iff] at hk
      rw [reverse_revParent] at ha
      exact .under ha (ih hk ((stored_first ha).mp h))
  · intro h
    induction h with
    | file h hd => exact stored_of_file h hd
    | free h => exact stored_of_free h
    | under h _ ih => exact (stored_first h).mpr ih

/-! ### The two handlers -/

theorem downloadFile_eq_ok (hs : safePath root rel = .ok dest) :
    (downloadFile root t rel).response = .ok data ↔
      ∃ d, resolve t dest = .found d ∧ t.get d = some (.file data) := by
  simp only [downloadFile, hs]
  constructor
  · intro h
    cases hf : isFile t dest with
    | false => simp [hf] at h
    | true =>
      obtain ⟨d, hd, hl⟩ := isFile_iff.mp hf
      obtain ⟨b, hb⟩ := get_of_look_file hl
      obtain rfl : b = data := by simpa [hf, read, hd, hb] using h
      exact ⟨d, hd, hb⟩
  · rintro ⟨d, hd, hget⟩
    have hf : isFile t dest = true := isFile_iff.mpr ⟨d, hd, by rw [Node.look, hget]; rfl⟩
    simp [hf, read, hd, hget]

theorem firstField_eq_ok (hb : body.first = some data) :
    firstField body = .ok data ↔ body.taken ≤ defaultBodyLimit := by
  simp only [firstField, hb]
  split_ifs with h
  · exact iff_of_true rfl h
  · exact iff_of_false (by simp) h

/--
An upload followed by a download returns the data exactly when the body is taken within the limit
and the path can be written to.
-/
theorem roundTrips_iff_storable (hs : safePath root rel = .ok dest) (hb : body.first = some data) :
    RoundTrips root t rel body data ↔ body.taken ≤ defaultBodyLimit ∧ Storable dest t := by
  have hstored : Stored t dest data ↔ Storable dest t := stored_iff_storable
  rw [← firstField_eq_ok hb, ← hstored]
  unfold RoundTrips
  simp only [downloadFile_eq_ok hs]
  cases hf : firstField body with
  | error e =>
    refine iff_of_false ?_ (by simp)
    simp [uploadFile, hs, hf]
  | ok data' =>
    have hup : uploadFile root t rel body = store t dest data' := by simp [uploadFile, hs, hf]
    obtain rfl : data' = data := by
      unfold firstField at hf
      rw [hb] at hf
      split_ifs at hf
      exact (Except.ok.inj hf).symm
    rw [hup]
    simp [Stored]

def Multipart.ofData (data : List UInt8) (framing : ℕ) : Multipart where
  first := some data
  taken := framing + data.length
  length_le := by
    rintro _ ⟨⟩
    exact Nat.le_add_left _ _

theorem roundTrips_new_dir :
    RoundTrips [.rootDir] (.dir []) "d/f" (.ofData [1, 2] 180) [1, 2] := by
  have hs : safePath [.rootDir] "d/f" = .ok [.rootDir, .normal [100], .normal [102]] := by decide
  have hmiss : Missing (.dir []) [.rootDir, .normal [100]] [[100]] :=
    ⟨by decide, [.rootDir], [100], [], [], rfl, by decide, by decide, by decide, by decide, rfl⟩
  exact (roundTrips_iff_storable hs rfl).mpr
    ⟨by decide, .under hmiss (.free (d := [[100]]) (n := [102]) (by decide))⟩

/-- The parent directory of a path exists, or `create_dir_all` can create it. -/
def ParentReady (t : Fs) (dest : PathBuf) : Prop :=
  isDir (createDirAll t (revParent dest)).fs dest.dropLast = true

/-- An upload of more than two mebibytes is refused. -/
theorem large_upload_not_stored : ¬ ∀ (root : PathBuf) (t : Fs) (rel : String) (dest : PathBuf)
    (body : Multipart) (data : List UInt8), safePath root rel = .ok dest → ParentReady t dest →
      body.first = some data → RoundTrips root t rel body data := by
  intro h
  obtain ⟨data, hlen⟩ : ∃ data : List UInt8, data.length = defaultBodyLimit + 1 :=
    ⟨List.replicate _ 0, List.length_replicate⟩
  have hs : safePath [.rootDir] "f" = .ok [.rootDir, .normal [102]] := by decide
  have hready : ParentReady (.dir []) [.rootDir, .normal [102]] := by
    rw [ParentReady]
    decide
  have hlarge : ¬ (Multipart.ofData data 180).taken ≤ defaultBodyLimit := by
    simp only [Multipart.ofData, hlen]
    omega
  obtain ⟨hup, -⟩ := h [.rootDir] (.dir []) "f" _ (.ofData data 180) data hs hready rfl
  simp [uploadFile, hs, firstField, hlarge] at hup

end Urc
