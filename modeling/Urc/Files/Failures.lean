import Urc.Files.RoundTrip

/-! # Uploads that fail

An upload makes directories, opens the destination, which truncates it, and writes. Nothing is
taken back when a later one of these steps fails, so a failed upload leaves the tree as it was just
when the failure came before the first change, or the change was none.
-/

namespace Urc

open FileTree

variable (f : Faults) (root : PathBuf) (t : Fs) (rel : String) (dest : PathBuf) (data : List UInt8)

/-- The file that is opened or made, if the file system lets it. -/
def openOn : Option OsPath := (openWrite t dest).filter fun d => !f.openFile d

def breaksOff : Option ℕ := f.broken.filter fun n => n < data.length

/-- `store`, on a file system with faults. -/
def storeOn : Reply StatusCode :=
  let r := createDirAllOn f t (revParent dest)
  match openOn f r.fs dest with
  | none => ⟨.error .internalServerError, r.made, r.fs⟩
  | some d =>
    match breaksOff f data with
    | some n => ⟨.error .internalServerError, r.made ++ [d], writeAt r.fs d (data.take n)⟩
    | none => ⟨.ok .created, r.made ++ [d], writeAt r.fs d data⟩

/-- `upload_file`, on a file system with faults. -/
def uploadFileOn (body : Multipart) : Reply StatusCode :=
  match safePath root rel with
  | .error e => ⟨.error e, [], t⟩
  | .ok dest =>
    match firstField body with
    | .error e => ⟨.error e, [], t⟩
    | .ok data => storeOn f t dest data

def Reply.Clean {α : Type} (r : Reply α) : Prop := (∃ e, r.response = .error e) → r.fs = t

/-- The destination is written in full, behind the directories that are missing on its path. -/
inductive GetsThrough : Fs → Prop
  | opened {t : Fs} {d : OsPath} (h : openOn f t dest = some d) (hb : breaksOff f data = none) :
      GetsThrough t
  | under {t : Fs} {a : OsPath} (h : Missing t dest.dropLast a) (hfree : f.mkdir a = false)
      (ha : GetsThrough (t.set a (.dir []))) : GetsThrough t

/-- If the first directory that is missing can be made, the upload gets through; and if a write
breaks off, the bytes before that are what the file already held, or it goes to a device. -/
structure Traceless : Prop where
  made : ∀ a, Missing t dest.dropLast a → f.mkdir a = false → GetsThrough f dest data t
  written : ∀ d n, openOn f t dest = some d → breaksOff f data = some n →
    t.look d = some .other ∨ t.get d = some (.file (data.take n))

variable {f root t rel dest data} {a d : OsPath} {rev : List (Component OsStr)}

/-! ### What a write changes -/

theorem openOn_eq_some :
    openOn f t dest = some d ↔ openWrite t dest = some d ∧ f.openFile d = false := by
  simp [openOn, Option.filter_eq_some_iff]

theorem settable_of_openWrite (h : openWrite t dest = some d) : t.Settable d := by
  unfold openWrite at h
  split at h
  · rename_i d' hd'
    split_ifs at h with hs
    obtain rfl := Option.some_inj.mp h
    refine Node.settable_of_look ?_
    rcases hs with hs | hs <;> simp [hs]
  · rename_i d' n hd'
    obtain rfl := Option.some_inj.mp h
    have hp : pathOk dest = true := by
      by_contra hp
      simp [resolve, hp] at hd'
    rw [resolve_of_pathOk hp] at hd'
    exact Node.settable_of_dir (missing_spec hd').1
  · cases h

/-- A write leaves the tree alone just when the file already holds the data. -/
theorem writeAt_eq_self (h : openWrite t dest = some d) :
    writeAt t d data = t ↔ t.look d = some .other ∨ t.get d = some (.file data) := by
  unfold writeAt
  split_ifs with hother
  · simp [hother]
  · constructor
    · intro hset
      right
      have hget := Node.get_set_self (x := .file data) (settable_of_openWrite h)
      rwa [hset] at hget
    · rintro (hother' | hget)
      · exact absurd hother' hother
      · exact Node.set_eq_self hget

theorem look_writeAt (h : openWrite t dest = some d) (ha : t.look a = some .dir) :
    (writeAt t d data).look a = some .dir := by
  unfold openWrite at h
  split at h
  · rename_i d' hd'
    split_ifs at h with hs
    obtain rfl := Option.some_inj.mp h
    rcases hs with hs | hs
    · rw [writeAt, if_neg (by simp [hs]), Node.look_set_file hs, ha]
    · rw [writeAt, if_pos hs, ha]
  · rename_i d' n hd'
    obtain rfl := Option.some_inj.mp h
    have hp : pathOk dest = true := by
      by_contra hp
      simp [resolve, hp] at hd'
    rw [resolve_of_pathOk hp] at hd'
    obtain ⟨-, -, hmiss⟩ := missing_spec hd'
    rw [writeAt, if_neg (by simp [hmiss]), Node.look_set_of_missing hmiss _ (by simp [ha]), ha]
  · cases h

theorem look_createDirAllOn (h : t.look a ≠ none) :
    (createDirAllOn f t rev).fs.look a = t.look a := by
  induction rev with
  | nil => rfl
  | cons last rev ih =>
    unfold createDirAllOn
    cases hm : mkdirOn f t rev.reverse last with
    | ok d =>
      obtain ⟨-, d', n, -, -, -, -, hmiss, rfl⟩ := mkdir_eq_ok.mp (mkdirOn_eq_ok.mp hm).1
      exact Node.look_set_of_missing hmiss _ h
    | error e =>
      cases e with
      | other => rfl
      | notFound =>
        dsimp only
        split_ifs
        · cases hm' : mkdirOn f (createDirAllOn f t rev).fs rev.reverse last with
          | ok d =>
            obtain ⟨-, d', n, -, -, -, -, hmiss, rfl⟩ := mkdir_eq_ok.mp (mkdirOn_eq_ok.mp hm').1
            dsimp only
            rw [Node.look_set_of_missing hmiss _ (by rwa [ih]), ih]
          | error e => exact ih
        · exact ih

theorem look_storeOn (ha : t.look a = some .dir) :
    (storeOn f t dest data).fs.look a = some .dir := by
  have hmade : (createDirAllOn f t (revParent dest)).fs.look a = some .dir := by
    rw [look_createDirAllOn (by simp [ha]), ha]
  unfold storeOn
  dsimp only
  split
  · exact hmade
  · rename_i d hd
    split <;> exact look_writeAt (openOn_eq_some.mp hd).1 hmade

/-! ### The steps of an upload -/

theorem storeOn_first (h : Missing t dest.dropLast a) (hfree : f.mkdir a = false) :
    storeOn f t dest data =
      let r := storeOn f (t.set a (.dir [])) dest data
      ⟨r.response, a :: r.touched, r.fs⟩ := by
  rw [← reverse_revParent] at h
  unfold storeOn
  rw [createDirAllOn_first h hfree]
  dsimp only
  cases openOn f (createDirAllOn f (t.set a (.dir [])) (revParent dest)).fs dest with
  | none => rfl
  | some d => cases breaksOff f data <;> rfl

theorem made_nil_of_openOn (h : openOn f t dest = some d) :
    (createDirAllOn f t (revParent dest)).made = [] := by
  by_contra hne
  obtain ⟨a, ha, -⟩ := missing_of_madeOn hne
  rw [reverse_revParent] at ha
  rw [openOn, openWrite_of_missing ha] at h
  cases h

theorem storeOn_of_made_nil (hmade : (createDirAllOn f t (revParent dest)).made = []) :
    storeOn f t dest data = match openOn f t dest with
      | none => ⟨.error .internalServerError, [], t⟩
      | some d =>
        match breaksOff f data with
        | some n => ⟨.error .internalServerError, [d], writeAt t d (data.take n)⟩
        | none => ⟨.ok .created, [d], writeAt t d data⟩ := by
  rw [storeOn, createDirAllOn_of_made_nil hmade, hmade]
  rfl

/-- An upload is answered with 201 just when it gets through. -/
theorem getsThrough_iff :
    (storeOn f t dest data).response = .ok .created ↔ GetsThrough f dest data t := by
  constructor
  · -- every directory that is made leaves one less to be made
    induction hk : (createDirAllOn f t (revParent dest)).made.length generalizing t with
    | zero =>
      intro h
      rw [storeOn_of_made_nil (List.length_eq_zero_iff.mp hk)] at h
      cases hopen : openOn f t dest with
      | none => simp [hopen] at h
      | some d =>
        cases hbreak : breaksOff f data with
        | none => exact .opened hopen hbreak
        | some n => simp [hopen, hbreak] at h
    | succ k ih =>
      intro h
      have hne : (createDirAllOn f t (revParent dest)).made ≠ [] := by
        rintro hnil
        simp [hnil] at hk
      obtain ⟨a, ha, hfree⟩ := missing_of_madeOn hne
      rw [createDirAllOn_first ha hfree, List.length_cons, Nat.add_right_cancel_iff] at hk
      rw [reverse_revParent] at ha
      rw [storeOn_first ha hfree] at h
      exact .under ha hfree (ih hk h)
  · intro h
    induction h with
    | opened hopen hbreak =>
      rw [storeOn_of_made_nil (made_nil_of_openOn hopen), hopen]
      simp [hbreak]
    | under h hfree _ ih => rw [storeOn_first h hfree]; exact ih

theorem response_eq (h : ∀ e, (storeOn f t dest data).response ≠ .error e) :
    (storeOn f t dest data).response = .ok .created := by
  unfold storeOn at h ⊢
  dsimp only at h ⊢
  split at h
  · exact absurd rfl (h _)
  · split at h
    · exact absurd rfl (h _)
    · rfl

/-- With the first missing directory made, only a success leaves nothing behind. -/
theorem clean_iff_getsThrough (h : Missing t dest.dropLast a) (hfree : f.mkdir a = false) :
    (storeOn f t dest data).Clean t ↔ GetsThrough f dest data t := by
  rw [← getsThrough_iff]
  constructor
  · intro hclean
    refine response_eq fun e he => ?_
    have hfs := hclean ⟨e, he⟩
    have hlook : (t.set a (.dir [])).look a = some .dir := by
      rw [Node.look, Node.get_set_self h.settable]
      rfl
    have hkept : (storeOn f (t.set a (.dir [])) dest data).fs.look a = some .dir :=
      look_storeOn hlook
    rw [storeOn_first h hfree] at hfs
    dsimp only at hfs
    rw [hfs, h.look] at hkept
    cases hkept
  · rintro hok ⟨e, he⟩
    rw [hok] at he
    cases he

theorem clean_iff_traceless : (storeOn f t dest data).Clean t ↔ Traceless f t dest data := by
  by_cases hmiss : ∃ a, Missing t dest.dropLast a ∧ f.mkdir a = false
  · obtain ⟨a, ha, hfree⟩ := hmiss
    rw [clean_iff_getsThrough ha hfree]
    constructor
    · refine fun h => ⟨fun _ _ _ => h, fun d n hd _ => ?_⟩
      rw [openOn, openWrite_of_missing ha] at hd
      cases hd
    · exact fun h => h.made a ha hfree
  · have hmade : (createDirAllOn f t (revParent dest)).made = [] := by
      by_contra hne
      obtain ⟨a, ha, hfree⟩ := missing_of_madeOn hne
      exact hmiss ⟨a, by rwa [reverse_revParent] at ha, hfree⟩
    rw [storeOn_of_made_nil hmade]
    have hfirst : ∀ a, Missing t dest.dropLast a → f.mkdir a = false → GetsThrough f dest data t :=
      fun a ha hfree => absurd ⟨a, ha, hfree⟩ hmiss
    cases hopen : openOn f t dest with
    | none =>
      refine iff_of_true (fun _ => rfl) ⟨hfirst, fun d n hd _ => ?_⟩
      rw [hopen] at hd
      cases hd
    | some d =>
      cases hbreak : breaksOff f data with
      | none =>
        refine iff_of_true ?_ ⟨hfirst, fun d n _ hn => ?_⟩
        · rintro ⟨e, he⟩
          cases he
        · rw [hbreak] at hn
          cases hn
      | some n =>
        have hself : writeAt t d (data.take n) = t ↔ _ :=
          writeAt_eq_self (openOn_eq_some.mp hopen).1
        constructor
        · intro hclean
          refine ⟨hfirst, fun d' n' hd' hn' => ?_⟩
          obtain rfl := Option.some.inj (hopen.symm.trans hd')
          obtain rfl := Option.some.inj (hbreak.symm.trans hn')
          exact hself.mp (hclean ⟨_, rfl⟩)
        · rintro h -
          exact hself.mpr (h.written d n hopen hbreak)

/-- Without faults the upload is the one of the file API. -/
theorem uploadFileOn_never (root : PathBuf) (t : Fs) (rel : String) (body : Multipart) :
    uploadFileOn .never root t rel body = uploadFile root t rel body := by
  have hopen : ∀ t dest, openOn .never t dest = openWrite t dest := by
    intro t dest
    cases h : openWrite t dest with
    | none => simp [openOn, h]
    | some d => simp [openOn, h, Faults.never]
  have hbreak : ∀ data, breaksOff .never data = none := fun _ => rfl
  have hstore : ∀ dest data, storeOn .never t dest data = store t dest data := by
    intro dest data
    simp only [storeOn, store, createDirAllOn_never, hopen, hbreak]
    cases openWrite (createDirAll t (revParent dest)).fs dest <;> rfl
  unfold uploadFileOn uploadFile
  cases safePath root rel with
  | error e => rfl
  | ok dest =>
    cases firstField body with
    | error e => rfl
    | ok data => exact hstore dest data

/-- A failed upload leaves the tree as it was exactly when its failure leaves no trace. -/
theorem failed_upload_clean_iff (f : Faults) (root : PathBuf) (t : Fs) (rel : String)
    (body : Multipart) : (uploadFileOn f root t rel body).Clean t ↔
      ∀ dest data, safePath root rel = .ok dest → firstField body = .ok data →
        Traceless f t dest data := by
  unfold uploadFileOn
  cases hpath : safePath root rel with
  | error e => exact iff_of_true (fun _ => rfl) (by simp)
  | ok dest =>
    cases hfield : firstField body with
    | error e => exact iff_of_true (fun _ => rfl) (by simp)
    | ok data => simpa using clean_iff_traceless

/-- The disk is full behind the first byte of the new content. -/
theorem failed_upload_truncates :
    (uploadFileOn ⟨fun _ => false, fun _ => false, some 1⟩ [.rootDir] (.dir [([102], .file [9, 9])])
      "f" (.ofData [1, 2] 180)).fs.get [[102]] = some (.file [1]) ∧
    ¬ ∀ f root t rel body, (uploadFileOn f root t rel body).Clean t := by
  have hget : (uploadFileOn ⟨fun _ => false, fun _ => false, some 1⟩ [.rootDir]
      (.dir [([102], .file [9, 9])]) "f" (.ofData [1, 2] 180)).fs.get [[102]] =
        some (.file [1]) := by
    rfl
  refine ⟨hget, fun h => ?_⟩
  have hfs := h ⟨fun _ => false, fun _ => false, some 1⟩ [.rootDir] (.dir [([102], .file [9, 9])])
    "f" (.ofData [1, 2] 180) ⟨_, rfl⟩
  rw [hfs] at hget
  cases hget

end Urc
