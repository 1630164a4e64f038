import Urc.Files.MakeDirs

/-! # What the file API can reach

`safe_path` keeps a request below the root in the text of the path only; the calls of the
handlers follow every symbolic link on the way. What a request touches therefore lies
inside the root exactly when the resolution of its path ends there.
-/

namespace Urc

open FileTree

variable {t t' : Fs} {root p q dest : PathBuf} {a d : OsPath} {n : OsStr} {x : Externals}
  {rev : List (Component OsStr)}

/-- A physical path at or below the directory that the root resolves to. -/
def Inside (root : PathBuf) (t : Fs) (p : OsPath) : Prop :=
  ∃ r, resolve t root = .found r ∧ r <+: p

/-- The handler changes nothing and answers with an error. -/
def Refused {α : Type} (t : Fs) (r : Reply α) : Prop := (∃ e, r.response = .error e) ∧ r.fs = t

/-- Everything that the handler of a request touches is inside the root, and a request for which
it touches nothing is refused. -/
structure Confined (x : Externals) (root : PathBuf) (t : Fs) (rq : FileRequest) : Prop where
  inside : ∀ p ∈ (rq.serve x root t).touched, Inside root t p
  refused : (rq.serve x root t).touched = [] → Refused t (rq.serve x root t)

/--
The path of a request leads to a place inside the root: the directory or file that it resolves
to, if the handler accepts it; and for an upload, the first directory that is missing before the
destination, and the file that opening the destination opens or makes.
-/
def LeadsInside (root : PathBuf) (t : Fs) : FileRequest → Prop
  | .list rel | .downloadZip rel => ∀ p, safePath root rel = .ok p →
      ∀ d, resolve t p = .found d → t.look d = some .dir → Inside root t d
  | .download rel => ∀ p, safePath root rel = .ok p →
      ∀ d, resolve t p = .found d → t.look d = some .file → Inside root t d
  | .upload rel body => ∀ p, safePath root rel = .ok p → ∀ data, firstField body = .ok data →
      (∀ a, Missing t p.dropLast a → Inside root t a) ∧
      (∀ d, openWrite t p = some d → Inside root t d)

/-! ### Below the first missing directory -/

/-- A part of the tree that was missing in `t` and holds directories only; the rest is as in `t`. -/
structure Grown (t : Fs) (a : OsPath) (t' : Fs) : Prop where
  fresh : t.look a = none
  off : ∀ q, ¬ a <+: q → t'.look q = t.look q
  dirs : ∀ q, a <+: q → t'.look q = none ∨ t'.look q = some .dir

theorem Grown.refl (h : t.look a = none) : Grown t a t where
  fresh := h
  off _ _ := rfl
  dirs q hq := by
    by_contra hne
    exact Node.not_prefix_of_look h (fun hn => hne (.inl hn)) hq

theorem Grown.set (h : Grown t a t') {d : OsPath} (ha : a <+: d) (hs : t'.Settable d) :
    Grown t a (t'.set d (.dir [])) where
  fresh := h.fresh
  off q hq := by
    rw [Node.look_set_of_not_prefix fun hd => hq (ha.trans hd), h.off q hq]
  dirs q hq := by
    by_cases hd : d <+: q
    · obtain ⟨r, rfl⟩ := hd
      rw [Node.look_set_append hs]
      cases r with
      | nil => exact .inr rfl
      | cons m r => exact .inl rfl
    · rw [Node.look_set_of_not_prefix hd]
      exact h.dirs q hq

theorem Grown.walk_found (h : Grown t a t') (hw : walkPath t p = .found d) :
    walkPath t' p = .found d :=
  walk_found_mono (fun _ hq => h.off _ (Node.not_prefix_of_look h.fresh hq)) hw

/-- A walk over names inside the grown part stays inside, and ends well for valid names only. -/
theorem Grown.walk_inside (h : Grown t a t') {k : ℕ} {cur : OsPath} (hcur : a <+: cur)
    (ns : List OsStr) : match walk nameOk t'.look (k + 1) cur (ns.map .normal) with
      | .found d => a <+: d ∧ ∀ n ∈ ns, nameOk n = true
      | .missing d _ rest => a <+: d ∧ (rest = [] → ∀ n ∈ ns, nameOk n = true)
      | .failed => True := by
  induction ns generalizing cur with
  | nil => exact ⟨hcur, by simp⟩
  | cons n ns ih =>
    by_cases hdir : t'.look cur = some .dir
    · cases hn : nameOk n with
      | false =>
        have hw : walk nameOk t'.look (k + 1) cur ((n :: ns).map .normal) = .failed :=
          walk_eq_iff.mpr (.badName hdir hn)
        rw [hw]
        trivial
      | true =>
        have hcur' : a <+: cur ++ [n] := hcur.trans (List.prefix_append _ _)
        rcases h.dirs (cur ++ [n]) hcur' with hnone | hsome
        · have hw : walk nameOk t'.look (k + 1) cur ((n :: ns).map .normal) =
              .missing cur n (ns.map .normal) := walk_eq_iff.mpr (.missing hdir hn hnone)
          rw [hw]
          refine ⟨hcur, fun hns => ?_⟩
          simp [List.map_eq_nil_iff.mp hns, hn]
        · have hw : walk nameOk t'.look (k + 1) cur ((n :: ns).map .normal) =
              walk nameOk t'.look (k + 1) (cur ++ [n]) (ns.map .normal) :=
            walk_eq_iff.mpr (.enter hdir hn hsome (by simp) (resolves_walk ..))
          rw [hw]
          have hrest := ih hcur'
          split at hrest
          · exact ⟨hrest.1, by simpa [hn] using hrest.2⟩
          · exact ⟨hrest.1, by simpa [hn] using hrest.2⟩
          · trivial
    · have hw : walk nameOk t'.look (k + 1) cur ((n :: ns).map .normal) = .failed :=
        walk_eq_iff.mpr (.notDir hdir)
      rw [hw]
      trivial

theorem Grown.walk_from {pre : PathBuf} (h : Grown t (d ++ [n]) t') (hw : walkPath t pre = .found d)
    (hd : t.look d = some .dir) (hn : nameOk n = true) (ns : List OsStr) :
    match walkPath t' (pre ++ .normal n :: ns.map .normal) with
      | .found e => d ++ [n] <+: e ∧ ∀ n ∈ ns, nameOk n = true
      | .missing e m rest => d ++ [n] <+: e ++ [m] ∧ (rest = [] → ∀ n ∈ ns, nameOk n = true)
      | .failed => True := by
  obtain ⟨k, hk⟩ := walk_append_of_found (h.walk_found hw)
  have hd' : t'.look d = some .dir := by
    rw [h.off d fun hp => ?_, hd]
    have hlen := hp.length_le
    rw [List.length_append, List.length_singleton] at hlen
    omega
  rw [walkPath, hk]
  rcases h.dirs (d ++ [n]) List.prefix_rfl with hnone | hsome
  · have hw' : walk nameOk t'.look (k + 1) d (.normal n :: ns.map .normal) =
        .missing d n (ns.map .normal) := walk_eq_iff.mpr (.missing hd' hn hnone)
    rw [hw']
    refine ⟨List.prefix_rfl, fun hns => ?_⟩
    simp [List.map_eq_nil_iff.mp hns]
  · have hw' : walk nameOk t'.look (k + 1) d (.normal n :: ns.map .normal) =
        walk nameOk t'.look (k + 1) (d ++ [n]) (ns.map .normal) :=
      walk_eq_iff.mpr (.enter hd' hn hsome (by simp) (resolves_walk ..))
    rw [hw']
    have hin := h.walk_inside (k := k) List.prefix_rfl ns
    split at hin
    · exact hin
    · exact ⟨hin.1.trans (List.prefix_append _ _), hin.2⟩
    · trivial

theorem createDirAll_grown_last (hw : walkPath t rev.reverse = .found d)
    (hd : t.look d = some .dir) (hmiss : t.look (d ++ [n]) = none) :
    (∀ e ∈ (createDirAll t (.normal n :: rev)).made, d ++ [n] <+: e) ∧
      Grown t (d ++ [n]) (createDirAll t (.normal n :: rev)).fs := by
  unfold createDirAll
  cases hm : mkdir t rev.reverse (.normal n) with
  | ok e =>
    obtain ⟨-, d', n', hn', hw', hd', -, -, rfl⟩ := mkdir_eq_ok.mp hm
    obtain rfl : n = n' := by simpa using hn'
    obtain rfl : d = d' := by simpa using hw.symm.trans hw'
    exact ⟨by simp, (Grown.refl hmiss).set List.prefix_rfl (Node.settable_of_dir hd)⟩
  | error e =>
    cases e with
    | other => exact ⟨by simp, Grown.refl hmiss⟩
    | notFound =>
      obtain ⟨-, _, _, _, hw'⟩ := mkdir_eq_notFound.mp hm
      rw [hw] at hw'
      cases hw'

/-- Everything that `create_dir_all` makes lies at or below the first missing directory. -/
theorem createDirAll_grown {pre : PathBuf} (hw : walkPath t pre = .found d)
    (hd : t.look d = some .dir) (hn : nameOk n = true) (hmiss : t.look (d ++ [n]) = none)
    {post : List OsStr} (hrev : rev.reverse = pre ++ .normal n :: post.map .normal) :
    (∀ e ∈ (createDirAll t rev).made, d ++ [n] <+: e) ∧
      Grown t (d ++ [n]) (createDirAll t rev).fs := by
  induction rev generalizing post with
  | nil => simp at hrev
  | cons last rev ih =>
    rw [List.reverse_cons] at hrev
    rcases List.eq_nil_or_concat post with rfl | ⟨post, c, rfl⟩
    · obtain ⟨hpre, hlast⟩ := List.append_inj' hrev rfl
      obtain rfl : last = .normal n := by simpa using hlast
      exact createDirAll_grown_last (hpre ▸ hw) hd hmiss
    · rw [List.concat_eq_append, List.map_append, ← List.cons_append, ← List.append_assoc] at hrev
      obtain ⟨hrev', hlast⟩ := List.append_inj' hrev rfl
      have hmissing : walkPath t rev.reverse = .missing d n (post.map .normal) := by
        rw [hrev', walk_missing_append hw hd hn hmiss]
      obtain ⟨hmade, hgrown⟩ := ih hrev'
      unfold createDirAll
      cases hm : mkdir t rev.reverse last with
      | ok e =>
        obtain ⟨-, _, _, -, hw', -⟩ := mkdir_eq_ok.mp hm
        rw [hmissing] at hw'
        cases hw'
      | error e =>
        cases e with
        | other => exact ⟨by simp, Grown.refl hmiss⟩
        | notFound =>
          dsimp only
          split_ifs
          · cases hm' : mkdir (createDirAll t rev).fs rev.reverse last with
            | error e => exact ⟨hmade, hgrown⟩
            | ok e =>
              obtain ⟨-, d', n', -, hw', hd', -, -, rfl⟩ := mkdir_eq_ok.mp hm'
              have hin := hgrown.walk_from hw hd hn post
              rw [← hrev', hw'] at hin
              have hpre : d ++ [n] <+: d' ++ [n'] := hin.1.trans (List.prefix_append _ _)
              refine ⟨fun e he => ?_, hgrown.set hpre (Node.settable_of_dir hd')⟩
              rcases List.mem_append.mp he with he | he
              · exact hmade e he
              · exact List.mem_singleton.mp he ▸ hpre
          · exact ⟨hmade, hgrown⟩

/-! ### The handlers -/

/-- A missing directory on the way to a request path lies below the root, if the root exists. -/
theorem missing_below {ns : List OsStr} {r : OsPath} (hr : resolve t root = .found r)
    {pre post : PathBuf}
    (hp : (root ++ ns.map Component.normal).dropLast = pre ++ .normal n :: post)
    (hw : walkPath t pre = .found d) (hd : t.look d = some .dir) (hn : nameOk n = true)
    (hmiss : t.look (d ++ [n]) = none) :
    ∃ post' last, post = post'.map .normal ∧ ns ≠ [] ∧
      root ++ ns.map .normal = pre ++ .normal n :: (post' ++ [last]).map .normal := by
  have hroot : walkPath t root = .found r := by
    unfold resolve at hr
    split_ifs at hr
    exact hr
  have hnot : ∀ more, root ≠ pre ++ .normal n :: more := by
    rintro more rfl
    rw [walk_missing_append hw hd hn hmiss] at hroot
    cases hroot
  have hns : ns ≠ [] := by
    rintro rfl
    rw [List.map_nil, List.append_nil] at hp
    have hroot' : root ≠ [] := by rintro rfl; simp at hp
    refine hnot (post ++ [root.getLast hroot']) ?_
    conv_lhs => rw [← List.dropLast_append_getLast hroot', hp]
    simp
  obtain ⟨ns', last, rfl⟩ : ∃ ns' last, ns = ns' ++ [last] :=
    ⟨ns.dropLast, ns.getLast hns, (List.dropLast_append_getLast hns).symm⟩
  rw [List.map_append, ← List.append_assoc, List.map_singleton, List.dropLast_concat] at hp
  rcases List.append_eq_append_iff.mp hp with ⟨mid, hpre, hmid⟩ | ⟨mid, hroot', hmid⟩
  · obtain ⟨l₁, l₂, -, -, hl₂⟩ := List.map_eq_append_iff.mp hmid
    obtain ⟨m, l₃, rfl, -, rfl⟩ := List.map_eq_cons_iff.mp hl₂
    exact ⟨l₃, last, rfl, hns, by rw [List.map_append, ← List.append_assoc, hp]; simp⟩
  · cases mid with
    | nil =>
      obtain ⟨m, l₃, -, -, rfl⟩ := List.map_eq_cons_iff.mp hmid.symm
      exact ⟨l₃, last, rfl, hns, by rw [List.map_append, ← List.append_assoc, hp]; simp⟩
    | cons c mid =>
      obtain ⟨rfl, -⟩ := List.cons.inj hmid
      exact absurd hroot' (hnot mid)

theorem Inside.trans (h : Inside root t d) {e : OsPath} (he : d <+: e) : Inside root t e := by
  obtain ⟨r, hr, hd⟩ := h
  exact ⟨r, hr, hd.trans he⟩

theorem store_touched (t : Fs) (dest : PathBuf) (data : List UInt8) :
    (store t dest data).touched = (createDirAll t (revParent dest)).made ++
      (openWrite (createDirAll t (revParent dest)).fs dest).toList := by
  unfold store
  dsimp only
  cases openWrite (createDirAll t (revParent dest)).fs dest with
  | none => exact (List.append_nil _).symm
  | some d => rfl

theorem openWrite_grown {pre : PathBuf} (h : Grown t (d ++ [n]) t') (hw : walkPath t pre = .found d)
    (hd : t.look d = some .dir) (hn : nameOk n = true) {ns : List OsStr}
    (hdest : dest = pre ++ .normal n :: ns.map .normal) {e : OsPath}
    (ho : openWrite t' dest = some e) : d ++ [n] <+: e ∧ ∀ m ∈ ns, nameOk m = true := by
  have hin := h.walk_from hw hd hn ns
  rw [← hdest] at hin
  unfold openWrite resolve at ho
  split_ifs at ho
  · cases hwd : walkPath t' dest with
    | found e' =>
      rw [hwd] at ho hin
      dsimp only at ho
      split_ifs at ho
      exact Option.some_inj.mp ho ▸ hin
    | missing e' m rest =>
      rw [hwd] at ho hin
      cases rest with
      | nil => exact Option.some_inj.mp ho ▸ ⟨hin.1, hin.2 rfl⟩
      | cons c rest => cases ho
    | failed =>
      rw [hwd] at ho
      cases ho

theorem store_confined_iff {ns : List OsStr} (hdest : dest = root ++ ns.map .normal)
    (data : List UInt8) : (∀ p ∈ (store t dest data).touched, Inside root t p) ↔
      (∀ a, Missing t dest.dropLast a → Inside root t a) ∧
      ∀ d, openWrite t dest = some d → Inside root t d := by
  rw [store_touched]
  constructor
  · intro h
    refine ⟨fun a ha => ?_, fun d hd => ?_⟩
    · rw [← reverse_revParent] at ha
      exact h a (List.mem_append_left _ (mem_made_of_missing ha))
    · by_cases hmade : (createDirAll t (revParent dest)).made = []
      · refine h d (List.mem_append_right _ ?_)
        rw [createDirAll_of_made_nil hmade, hd]
        exact List.mem_singleton_self d
      · obtain ⟨a, ha⟩ := missing_of_made hmade
        rw [reverse_revParent] at ha
        rw [openWrite_of_missing ha] at hd
        cases hd
  · rintro ⟨hm, ho⟩ p hp
    by_cases hmade : (createDirAll t (revParent dest)).made = []
    · rw [hmade, createDirAll_of_made_nil hmade, List.nil_append, Option.mem_toList] at hp
      exact ho p hp
    · obtain ⟨a, ha⟩ := missing_of_made hmade
      rw [reverse_revParent] at ha
      have hin := hm a ha
      obtain ⟨-, pre, n, post, d, hpath, hw, hd, hn, hmiss, rfl⟩ := ha
      obtain ⟨r, hr, -⟩ := id hin
      rw [hdest] at hpath
      obtain ⟨post', last, rfl, -, hfull⟩ := missing_below hr hpath hw hd hn hmiss
      have hrev : (revParent dest).reverse = pre ++ .normal n :: post'.map .normal := by
        rw [reverse_revParent, hdest, hpath]
      obtain ⟨hall, hgrown⟩ := createDirAll_grown hw hd hn hmiss hrev
      refine hin.trans ?_
      rcases List.mem_append.mp hp with hp | hp
      · exact hall p hp
      · exact (openWrite_grown hgrown hw hd hn (hdest.trans hfull) (Option.mem_toList.mp hp)).1

theorem isFile_iff : isFile t p = true ↔ ∃ d, resolve t p = .found d ∧ t.look d = some .file := by
  unfold isFile
  split
  · rename_i d hd
    simp [hd]
  · rename_i hd
    simp only [Bool.false_eq_true, false_iff, not_exists, not_and]
    exact fun d hd' => absurd hd' (hd d)

theorem get_of_look_dir (h : t.look d = some .dir) : ∃ es, t.get d = some (.dir es) := by
  obtain ⟨c, hc, hs⟩ := Option.map_eq_some_iff.mp h
  obtain ⟨es, rfl⟩ := Node.shape_eq_dir hs
  exact ⟨es, hc⟩

theorem get_of_look_file (h : t.look d = some .file) : ∃ b, t.get d = some (.file b) := by
  obtain ⟨c, hc, hs⟩ := Option.map_eq_some_iff.mp h
  cases c with
  | file b => exact ⟨b, hc⟩
  | dir _ => cases hs
  | link _ => cases hs
  | other => cases hs

/-- A handler that acts on nothing, or on an object and what lies below it, is confined exactly
if the object is inside the root. -/
theorem confined_iff_of_head {touched : List OsPath} {P : OsPath → Prop} (hnone : (∀ d, ¬ P d) →
    touched = []) (hsome : ∀ d, P d → d ∈ touched ∧ ∀ p ∈ touched, d <+: p) :
    (∀ p ∈ touched, Inside root t p) ↔ ∀ d, P d → Inside root t d := by
  constructor
  · exact fun h d hd => h d (hsome d hd).1
  · intro h p hp
    by_cases hex : ∃ d, P d
    · obtain ⟨d, hd⟩ := hex
      exact (h d hd).trans ((hsome d hd).2 p hp)
    · rw [hnone (not_exists.mp hex)] at hp
      cases hp

/-- The object that a handler acts on, if it is of the kind that the handler wants. -/
def Accepted (root : PathBuf) (t : Fs) (rel : String) (s : Shape OsStr) (d : OsPath) : Prop :=
  ∃ p, safePath root rel = .ok p ∧ resolve t p = .found d ∧ t.look d = some s

theorem accepted_iff {rel : String} {s : Shape OsStr} :
    (∀ d, Accepted root t rel s d → Inside root t d) ↔ ∀ p, safePath root rel = .ok p →
      ∀ d, resolve t p = .found d → t.look d = some s → Inside root t d := by
  constructor
  · exact fun h p hp d hd hs => h d ⟨p, hp, hd, hs⟩
  · rintro h d ⟨p, hp, hd, hs⟩
    exact h p hp d hd hs

theorem isDir_of_not_accepted {rel : String} (hs : safePath root rel = .ok p)
    (h : ∀ d, ¬ Accepted root t rel .dir d) : isDir t p = false := by
  rw [← Bool.not_eq_true, isDir_iff]
  rintro ⟨d, hd, hl⟩
  exact h d ⟨p, hs, hd, hl⟩

theorem head_prefix {α : Type*} (d : OsPath) (f : α → OsPath) (es : List α) :
    d ∈ d :: es.map (fun e => d ++ f e) ∧ ∀ p ∈ d :: es.map (fun e => d ++ f e), d <+: p := by
  refine ⟨List.mem_cons_self, fun p hp => ?_⟩
  rcases List.mem_cons.mp hp with rfl | hp
  · exact List.prefix_rfl
  · obtain ⟨e, -, rfl⟩ := List.mem_map.mp hp
    exact List.prefix_append _ _

theorem listPath_confined_iff (rel : String) :
    (∀ p ∈ (listPath x root t rel).touched, Inside root t p) ↔
      ∀ d, Accepted root t rel .dir d → Inside root t d := by
  refine confined_iff_of_head (fun hnone => ?_) fun d hd => ?_
  · unfold listPath
    cases hs : safePath root rel with
    | error e => rfl
    | ok p =>
      simp [isDir_of_not_accepted hs hnone]
  · obtain ⟨p, hs, hd, hl⟩ := hd
    obtain ⟨es, hes⟩ := get_of_look_dir hl
    have hdir : isDir t p = true := isDir_iff.mpr ⟨d, hd, hl⟩
    have htouched : (listPath x root t rel).touched = d :: es.map fun e => d ++ [e.1] := by
      simp [listPath, hs, hdir, readDir, hd, hes]
    rw [htouched]
    exact head_prefix d (fun e => [e.1]) es

theorem downloadFile_confined_iff (rel : String) :
    (∀ p ∈ (downloadFile root t rel).touched, Inside root t p) ↔
      ∀ d, Accepted root t rel .file d → Inside root t d := by
  refine confined_iff_of_head (fun hnone => ?_) fun d hd => ?_
  · unfold downloadFile
    cases hs : safePath root rel with
    | error e => rfl
    | ok p =>
      have hfile : isFile t p = false := by
        rw [← Bool.not_eq_true, isFile_iff]
        rintro ⟨d, hd, hl⟩
        exact hnone d ⟨p, hs, hd, hl⟩
      simp [hfile]
  · obtain ⟨p, hs, hd, hl⟩ := hd
    obtain ⟨b, hb⟩ := get_of_look_file hl
    have hfile : isFile t p = true := isFile_iff.mpr ⟨d, hd, hl⟩
    have htouched : (downloadFile root t rel).touched = [d] := by
      simp [downloadFile, hs, hfile, read, hd, hb]
    rw [htouched]
    exact ⟨List.mem_singleton_self d, fun p hp => List.mem_singleton.mp hp ▸ List.prefix_rfl⟩

theorem downloadZip_confined_iff (rel : String) :
    (∀ p ∈ (downloadZip x root t rel).touched, Inside root t p) ↔
      ∀ d, Accepted root t rel .dir d → Inside root t d := by
  refine confined_iff_of_head (fun hnone => ?_) fun d hd => ?_
  · unfold downloadZip
    cases hs : safePath root rel with
    | error e => rfl
    | ok p =>
      simp [isDir_of_not_accepted hs hnone]
  · obtain ⟨p, hs, hd, hl⟩ := hd
    have hdir : isDir t p = true := isDir_iff.mpr ⟨d, hd, hl⟩
    obtain ⟨es, htouched⟩ : ∃ es : List (OsPath × Fs),
        (downloadZip x root t rel).touched = d :: es.map fun e => d ++ e.1 := by
      simp only [downloadZip, hs, hdir, Bool.not_true, Bool.false_eq_true, if_false,
        buildZipResponse, hd]
      split_ifs
      · split
        · exact ⟨_, rfl⟩
        · exact ⟨_, rfl⟩
      · exact ⟨_, rfl⟩
    rw [htouched]
    exact head_prefix d Prod.fst es

theorem uploadFile_confined_iff (rel : String) (body : Multipart) :
    (∀ p ∈ (uploadFile root t rel body).touched, Inside root t p) ↔
      ∀ p, safePath root rel = .ok p → ∀ data, firstField body = .ok data →
        (∀ a, Missing t p.dropLast a → Inside root t a) ∧
        ∀ d, openWrite t p = some d → Inside root t d := by
  unfold uploadFile
  cases hs : safePath root rel with
  | error e => simp
  | ok p =>
    obtain ⟨ns, hp⟩ := safePath_ok hs
    cases hf : firstField body with
    | error e => simp
    | ok data =>
      dsimp only
      rw [store_confined_iff hp data]
      constructor
      · rintro h _ ⟨⟩ _ _
        exact h
      · exact fun h => h p rfl data rfl

theorem Refused.void {α : Type} {r : Reply α} (h : Refused t r) : Refused t r.void := by
  obtain ⟨⟨e, he⟩, hfs⟩ := h
  exact ⟨⟨e, by simp [Reply.void, he, Except.map]⟩, hfs⟩

theorem listPath_refused {rel : String} (h : (listPath x root t rel).touched = []) :
    Refused t (listPath x root t rel) := by
  unfold listPath at h ⊢
  split at h
  · exact ⟨⟨_, rfl⟩, rfl⟩
  · split_ifs at h ⊢
    · exact ⟨⟨_, rfl⟩, rfl⟩
    · split at h
      · exact ⟨⟨_, rfl⟩, rfl⟩
      · cases h

theorem downloadFile_refused {rel : String} (h : (downloadFile root t rel).touched = []) :
    Refused t (downloadFile root t rel) := by
  unfold downloadFile at h ⊢
  split at h
  · exact ⟨⟨_, rfl⟩, rfl⟩
  · split_ifs at h ⊢
    · exact ⟨⟨_, rfl⟩, rfl⟩
    · split at h
      · exact ⟨⟨_, rfl⟩, rfl⟩
      · cases h

theorem downloadZip_refused {rel : String} (h : (downloadZip x root t rel).touched = []) :
    Refused t (downloadZip x root t rel) := by
  unfold downloadZip buildZipResponse at h ⊢
  split at h
  · exact ⟨⟨_, rfl⟩, rfl⟩
  · split_ifs at h ⊢
    · exact ⟨⟨_, rfl⟩, rfl⟩
    · split at h
      · dsimp only at h
        split_ifs at h
        split at h <;> cases h
      · exact ⟨⟨_, rfl⟩, rfl⟩

theorem uploadFile_refused {rel : String} {body : Multipart}
    (h : (uploadFile root t rel body).touched = []) : Refused t (uploadFile root t rel body) := by
  unfold uploadFile at h ⊢
  split at h
  · exact ⟨⟨_, rfl⟩, rfl⟩
  · split at h
    · exact ⟨⟨_, rfl⟩, rfl⟩
    · rename_i dest _ data _
      rw [store_touched, List.append_eq_nil_iff] at h
      obtain ⟨hmade, hopen⟩ := h
      have hfs := createDirAll_of_made_nil hmade
      rw [hfs, Option.toList_eq_nil_iff] at hopen
      simp only [store, hfs, hopen]
      exact ⟨⟨_, rfl⟩, rfl⟩

/-- `/h/o` links to `/e`, which holds the file `p`. -/
def linkedOut : Fs :=
  .dir [([104], .dir [([111], .link [.rootDir, .normal [101]])]),
    ([101], .dir [([112], .file [1])])]

end Urc
