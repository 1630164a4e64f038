import Mathlib.Data.List.TakeWhile
import Urc.Files.Handlers

/-! # The archive of a directory

`zip_dir` walks a directory and writes an entry for each directory and each regular file below
it. Entries are named by lossy text with `/` for every backslash, so only names that are plain
text come back out of the archive as they were.
-/

namespace Urc

open FileTree

/-- `ZipWriter::add_directory`, or `start_file` with the copy behind it: a second entry of one name
is refused, and a content that a writer without the large file option does not take. -/
def addEntry (fits : List UInt8 → Bool) (zip : List ZipEntry) (e : ZipEntry) :
    Option (List ZipEntry) :=
  if e.1 ∈ zip.map Prod.fst ∨ !e.2.all fits then none else some (zip ++ [e])

/-- The body of the loop of `zip_dir`. Links, sockets and devices are skipped. -/
def zipStep (fits : List UInt8 → Bool) (dir : PathBuf) (zip : List ZipEntry) (e : OsPath × Fs) :
    Option (List ZipEntry) :=
  match zipEntry e with
  | some entry => if pathOk (entryPath dir e) then addEntry fits zip entry else none
  | none => some zip

def zipDir (fits : List UInt8 → Bool) (dir : PathBuf) (es : List (OsStr × Fs)) :
    Option (List ZipEntry) :=
  (walkDir [] es).foldlM (zipStep fits dir) []

def LegalName (n : OsStr) : Prop :=
  n ≠ [] ∧ n.length ≤ 255 ∧ 0 ∉ n ∧ 47 ∉ n ∧ n ≠ [46] ∧ n ≠ [46, 46]

/-- The entries of a directory that can exist, down to the leaves. -/
structure LegalDir where
  entries : List (OsStr × Fs)
  distinct : (Node.dir entries).Distinct
  legal : ∀ p ds, (Node.dir entries).get p = some (.dir ds) → ∀ e ∈ ds, LegalName e.1

def LegalDir.Below (d : LegalDir) (p : OsPath) (c : Fs) : Prop :=
  p ≠ [] ∧ (Node.dir d.entries).get p = some c

/-- The name of an entry, split at its slashes; the one behind a directory separates nothing. -/
def zipPath (e : ZipEntry) : OsPath :=
  ((if e.2.isNone then e.1.toList.dropLast else e.1.toList).splitOn '/').map OsStr.ofChars

def Describes (e : ZipEntry) (p : OsPath) : Fs → Prop
  | .dir _ => e.2 = none ∧ zipPath e = p
  | .file b => e.2 = some b ∧ zipPath e = p
  | _ => False

def Archived : Fs → Prop
  | .dir _ => True
  | .file _ => True
  | _ => False

/-- The entries stand for the directories and regular files, one for each. -/
structure Faithful (d : LegalDir) (zip : List ZipEntry) : Prop where
  distinct : (zip.map Prod.fst).Nodup
  sound : ∀ e ∈ zip, ∃ p c, d.Below p c ∧ Describes e p c
  complete : ∀ p c, d.Below p c → Archived c → ∃! e, e ∈ zip ∧ Describes e p c
  inside : ∀ e ∈ zip, [46, 46] ∉ zipPath e

def PlainText (n : OsStr) : Prop := ∃ s : List Char, '\\' ∉ s ∧ n = .ofChars s

/-- The object can be opened, and its names and content can be written. -/
structure Portable (fits : List UInt8 → Bool) (dir : PathBuf) (p : OsPath) (c : Fs) : Prop where
  names : ∀ n ∈ p, PlainText n
  path : pathOk (entryPath dir (p, c)) = true
  content : ∀ b, c = .file b → fits b = true

variable {fits : List UInt8 → Bool} {dir : PathBuf} {es : List (OsStr × Fs)} {d : LegalDir}
  {p q at' : OsPath} {c : Fs} {zip : List ZipEntry} {e : ZipEntry}

/-! ### The walk -/

theorem mem_walkDir_iff : (p, c) ∈ walkDir at' es ↔
    ∃ n c₀, (n, c₀) ∈ es ∧ (p, c) ∈ walkNode (at' ++ [n]) c₀ := by
  induction es with
  | nil => simp [walkDir]
  | cons e es ih =>
    obtain ⟨n, c₀⟩ := e
    rw [walkDir, List.mem_append, ih]
    constructor
    · rintro (h | ⟨m, c₁, hm, h⟩)
      · exact ⟨n, c₀, List.mem_cons_self, h⟩
      · exact ⟨m, c₁, List.mem_cons_of_mem _ hm, h⟩
    · rintro ⟨m, c₁, hm, h⟩
      rcases List.mem_cons.mp hm with heq | hm
      · cases heq
        exact .inl h
      · exact .inr ⟨m, c₁, hm, h⟩

theorem mem_walkNode_iff {c₀ : Fs} : (p, c) ∈ walkNode at' c₀ ↔
    (p = at' ∧ c = c₀) ∨ ∃ ds, c₀ = .dir ds ∧ (p, c) ∈ walkDir at' ds := by
  cases c₀ with
  | dir ds => simp [walkNode]
  | file b => simp [walkNode]
  | link target => simp [walkNode]
  | other => simp [walkNode]

/-- The walk visits what lies below the directory. -/
theorem mem_walkDir_of_get (hq : q ≠ []) (h : (Node.dir es).get q = some c) :
    (at' ++ q, c) ∈ walkDir at' es := by
  induction q generalizing es at' with
  | nil => exact absurd rfl hq
  | cons n q ih =>
    obtain ⟨c₀, hl, hc⟩ := Option.bind_eq_some_iff.mp h
    refine mem_walkDir_iff.mpr ⟨n, c₀, mem_of_lookupEntry hl, mem_walkNode_iff.mpr ?_⟩
    by_cases hnil : q = []
    · subst hnil
      rw [Node.get_nil] at hc
      exact .inl ⟨rfl, (Option.some.inj hc).symm⟩
    · obtain ⟨ds, rfl⟩ := Node.dir_of_get hc hnil
      have hmem : (at' ++ [n] ++ q, c) ∈ walkDir (at' ++ [n]) ds := ih hnil hc
      rw [List.append_assoc] at hmem
      exact .inr ⟨ds, rfl, hmem⟩

theorem get_of_mem_walkDir (hd : (Node.dir es).Distinct) (h : (p, c) ∈ walkDir at' es) :
    ∃ q, p = at' ++ q ∧ q ≠ [] ∧ (Node.dir es).get q = some c := by
  induction es using Node.dir_induction generalizing at' with
  | h es ih =>
    obtain ⟨n, c₀, hmem, hnode⟩ := mem_walkDir_iff.mp h
    obtain ⟨hl, hd₀⟩ := hd.entry hmem
    rcases mem_walkNode_iff.mp hnode with ⟨rfl, rfl⟩ | ⟨ds, rfl, hds⟩
    · exact ⟨[n], rfl, by simp, by simp [Node.get, hl]⟩
    · obtain ⟨q, rfl, hq, hget⟩ := ih n ds hmem hd₀ hds
      refine ⟨n :: q, by simp, by simp, ?_⟩
      rw [Node.get, hl]
      exact hget

theorem nodup_walkNode {c₀ : Fs} (hd : c₀.Distinct)
    (h : ∀ ds, c₀ = .dir ds → ((walkDir at' ds).map Prod.fst).Nodup) :
    ((walkNode at' c₀).map Prod.fst).Nodup := by
  cases c₀ with
  | dir ds =>
    refine List.nodup_cons.mpr ⟨fun hmem => ?_, h ds rfl⟩
    obtain ⟨⟨p, c⟩, hp, rfl⟩ := List.mem_map.mp hmem
    obtain ⟨q, hq, hne, -⟩ := get_of_mem_walkDir hd hp
    exact hne (List.self_eq_append_right.mp hq)
  | file b => simp [walkNode]
  | link target => simp [walkNode]
  | other => simp [walkNode]

theorem prefix_of_mem_walkNode {c₀ : Fs} (hd : c₀.Distinct) (h : (p, c) ∈ walkNode at' c₀) :
    at' <+: p := by
  rcases mem_walkNode_iff.mp h with ⟨rfl, -⟩ | ⟨ds, rfl, hds⟩
  · exact List.prefix_rfl
  · obtain ⟨q, rfl, -, -⟩ := get_of_mem_walkDir hd hds
    exact List.prefix_append _ _

theorem nodup_walkDir_of_forall (hnames : (es.map Prod.fst).Nodup)
    (hd : ∀ n c₀, (n, c₀) ∈ es → c₀.Distinct)
    (h : ∀ n c₀, (n, c₀) ∈ es → ((walkNode (at' ++ [n]) c₀).map Prod.fst).Nodup) :
    ((walkDir at' es).map Prod.fst).Nodup := by
  induction es with
  | nil => exact List.nodup_nil
  | cons e es ih =>
    obtain ⟨n, c₀⟩ := e
    obtain ⟨hn, hnames⟩ := List.nodup_cons.mp hnames
    rw [walkDir, List.map_append, List.nodup_append]
    refine ⟨h n c₀ List.mem_cons_self, ?_, ?_⟩
    · exact ih hnames (fun m c hm => hd m c (List.mem_cons_of_mem _ hm))
        fun m c hm => h m c (List.mem_cons_of_mem _ hm)
    · rintro p hp p' hp' rfl
      obtain ⟨⟨p₁, c₁⟩, hfirst, rfl⟩ := List.mem_map.mp hp
      obtain ⟨⟨p₂, c₂⟩, hrest, heq⟩ := List.mem_map.mp hp'
      obtain rfl : p₂ = p₁ := heq
      obtain ⟨m, c₃, hm, hnode⟩ := mem_walkDir_iff.mp hrest
      have hpre := prefix_of_mem_walkNode (hd n c₀ List.mem_cons_self) hfirst
      have hpre' := prefix_of_mem_walkNode (hd m c₃ (List.mem_cons_of_mem _ hm)) hnode
      have heq := List.prefix_of_prefix_length_le hpre hpre' (by simp)
      have hnm : n = m := by simpa using heq.eq_of_length (by simp)
      exact hn (List.mem_map.mpr ⟨_, hm, hnm.symm⟩)

/-- The walk visits every object once. -/
theorem nodup_walkDir (hd : (Node.dir es).Distinct) : ((walkDir at' es).map Prod.fst).Nodup := by
  induction es using Node.dir_induction generalizing at' with
  | h es ih =>
    refine nodup_walkDir_of_forall (hd [] es rfl) (fun n c₀ hmem => (hd.entry hmem).2) ?_
    intro n c₀ hmem
    refine nodup_walkNode (hd.entry hmem).2 ?_
    rintro ds rfl
    exact ih n ds hmem (hd.entry hmem).2

theorem walkDir_of_below (h : d.Below p c) : (p, c) ∈ walkDir [] d.entries := by
  have hmem : ([] ++ p, c) ∈ walkDir [] d.entries := mem_walkDir_of_get h.1 h.2
  rwa [List.nil_append] at hmem

theorem below_of_walkDir (h : (p, c) ∈ walkDir [] d.entries) : d.Below p c := by
  obtain ⟨q, rfl, hq, hget⟩ := get_of_mem_walkDir d.distinct h
  exact ⟨hq, hget⟩

/-! ### The writer -/

theorem addEntry_eq_some {z : List ZipEntry} : addEntry fits z e = some zip ↔
    e.1 ∉ z.map Prod.fst ∧ e.2.all fits = true ∧ zip = z ++ [e] := by
  unfold addEntry
  split_ifs with h
  · simp only [false_iff, not_and]
    intro hnew hfits
    simp [hnew, hfits] at h
  · simp only [not_or, Bool.not_eq_true', Bool.not_eq_false] at h
    simp [h, eq_comm]

theorem zipStep_eq_some {z : List ZipEntry} {o : OsPath × Fs} : zipStep fits dir z o = some zip ↔
    zip = z ++ (zipEntry o).toList ∧ ∀ e, zipEntry o = some e →
      pathOk (entryPath dir o) = true ∧ e.2.all fits = true ∧ e.1 ∉ z.map Prod.fst := by
  unfold zipStep
  cases zipEntry o with
  | none => simpa using eq_comm
  | some e =>
    dsimp only
    split_ifs with hp
    · rw [addEntry_eq_some]
      simp only [hp, Option.toList_some, Option.some.injEq, forall_eq', true_and]
      tauto
    · simp [hp]

/-- The loop ends with the entries in the order of the walk, when all can be opened and written and
none has the name of an earlier one. -/
theorem foldlM_zipStep {l : List (OsPath × Fs)} {z : List ZipEntry}
    (hz : (z.map Prod.fst).Nodup) : l.foldlM (zipStep fits dir) z = some zip ↔
      zip = z ++ l.filterMap zipEntry ∧ (zip.map Prod.fst).Nodup ∧
        ∀ o ∈ l, ∀ e, zipEntry o = some e →
          pathOk (entryPath dir o) = true ∧ e.2.all fits = true := by
  induction l generalizing z with
  | nil =>
    simp only [List.foldlM_nil, Option.pure_def, Option.some.injEq, List.filterMap_nil,
      List.append_nil, List.not_mem_nil, false_implies, implies_true, and_true]
    constructor
    · rintro rfl
      exact ⟨rfl, hz⟩
    · rintro ⟨rfl, -⟩
      rfl
  | cons o l ih =>
    have hfilter : z ++ (o :: l).filterMap zipEntry =
        z ++ (zipEntry o).toList ++ l.filterMap zipEntry := by
      cases hentry : zipEntry o <;> simp [hentry]
    rw [List.foldlM_cons, Option.bind_eq_bind, Option.bind_eq_some_iff, hfilter]
    constructor
    · rintro ⟨z', hstep, hrest⟩
      obtain ⟨rfl, hnew⟩ := zipStep_eq_some.mp hstep
      have hz' : ((z ++ (zipEntry o).toList).map Prod.fst).Nodup := by
        cases hentry : zipEntry o with
        | none => simpa using hz
        | some e =>
          simpa [List.nodup_append, hz] using fun a b hab => by
            rintro rfl
            exact (hnew e hentry).2.2 (List.mem_map.mpr ⟨_, hab, rfl⟩)
      obtain ⟨rfl, hnodup, hall⟩ := (ih hz').mp hrest
      refine ⟨rfl, hnodup, fun o' ho' e he => ?_⟩
      rcases List.mem_cons.mp ho' with rfl | ho'
      · exact ⟨(hnew e he).1, (hnew e he).2.1⟩
      · exact hall o' ho' e he
    · rintro ⟨rfl, hnodup, hall⟩
      have hz' : ((z ++ (zipEntry o).toList).map Prod.fst).Nodup := by
        rw [List.map_append] at hnodup
        exact (List.nodup_append.mp hnodup).1
      refine ⟨_, zipStep_eq_some.mpr ⟨rfl, fun e he => ?_⟩, (ih hz').mpr ⟨rfl, hnodup, ?_⟩⟩
      · obtain ⟨hp, hfits⟩ := hall o List.mem_cons_self e he
        refine ⟨hp, hfits, fun hmem => ?_⟩
        rw [he, List.map_append] at hz'
        exact (List.nodup_append.mp hz').2.2 _ hmem _ (by simp) rfl
      · exact fun o' ho' => hall o' (List.mem_cons_of_mem _ ho')

theorem zipDir_eq_some : zipDir fits dir es = some zip ↔
    zip = (walkDir [] es).filterMap zipEntry ∧ (zip.map Prod.fst).Nodup ∧
      ∀ o ∈ walkDir [] es, ∀ e, zipEntry o = some e →
        pathOk (entryPath dir o) = true ∧ e.2.all fits = true :=
  foldlM_zipStep (by simp)

/-! ### Names as text -/

theorem OsStr.ofChars_append (s t : List Char) :
    OsStr.ofChars (s ++ t) = OsStr.ofChars s ++ OsStr.ofChars t := List.flatMap_append

theorem lossy_append (s : List Char) (rest : List UInt8) {k : ℕ} (hk : s.length ≤ k) :
    lossy k (OsStr.ofChars s ++ rest) = s ++ lossy (k - s.length) rest := by
  induction s generalizing k with
  | nil => rfl
  | cons a s ih =>
    cases k with
    | zero => simp at hk
    | succ k =>
      have hbytes : OsStr.ofChars (a :: s) ++ rest =
          String.utf8EncodeChar a ++ (OsStr.ofChars s ++ rest) := by
        simp [OsStr.ofChars]
      have hdecode : ByteArray.utf8DecodeChar? (ByteArray.mk
          (String.utf8EncodeChar a ++ (OsStr.ofChars s ++ rest)).toArray) 0 = some a := by
        have hsplit : ByteArray.mk
            (String.utf8EncodeChar a ++ (OsStr.ofChars s ++ rest)).toArray =
            (String.utf8EncodeChar a).toByteArray ++ (OsStr.ofChars s ++ rest).toByteArray := by
          rw [← List.toByteArray_append]
          exact ByteArray.ext (by simp)
        rw [hsplit, ByteArray.utf8DecodeChar?_utf8EncodeChar_append]
      obtain ⟨b, bs, hcons⟩ := List.exists_cons_of_ne_nil (String.utf8EncodeChar_ne_nil (c := a))
      have hdrop : (String.utf8EncodeChar a ++ (OsStr.ofChars s ++ rest)).drop a.utf8Size =
          OsStr.ofChars s ++ rest :=
        List.drop_left' (String.length_utf8EncodeChar a)
      rw [hbytes]
      rw [hcons] at hdecode hdrop ⊢
      rw [List.cons_append] at hdecode hdrop ⊢
      simp only [lossy, hdecode, hdrop]
      rw [ih (by simpa using hk), List.length_cons, Nat.add_sub_add_right, List.cons_append]

theorem lossy_ofChars (s : List Char) {k : ℕ} (hk : s.length ≤ k) :
    lossy k (OsStr.ofChars s) = s := by
  have hnil : ∀ k, lossy k [] = [] := fun k => by cases k <;> rfl
  rw [← List.append_nil (OsStr.ofChars s), lossy_append s [] hk, hnil, List.append_nil]

theorem length_le_ofChars (s : List Char) : s.length ≤ (OsStr.ofChars s).length := by
  induction s with
  | nil => exact Nat.zero_le _
  | cons a s ih =>
    have hpos := a.utf8Size_pos
    simp only [OsStr.ofChars, List.flatMap_cons, List.length_append, List.length_cons,
      String.length_utf8EncodeChar] at ih ⊢
    omega

theorem toStringLossy_ofChars (s : List Char) : (OsStr.toStringLossy (.ofChars s)).toList = s := by
  rw [OsStr.toStringLossy, String.toList_ofList, lossy_ofChars s (length_le_ofChars s)]

theorem ofChars_intercalate (ss : List (List Char)) :
    OsStr.ofChars (['/'].intercalate ss) = List.intercalate [47] (ss.map OsStr.ofChars) := by
  induction ss with
  | nil => rfl
  | cons s ss ih =>
    cases ss with
    | nil => simp
    | cons s' ss =>
      have hsep : OsStr.ofChars ['/'] = [47] := by decide
      rw [List.intercalate_cons_cons, OsStr.ofChars_append, OsStr.ofChars_append, ih, hsep]
      simp only [List.map_cons, List.intercalate_cons_cons]

theorem mem_intercalate_of_mem {α : Type*} {a : α} {s sep : List α} {ss : List (List α)}
    (ha : a ∈ s) (hs : s ∈ ss) : a ∈ sep.intercalate ss := by
  induction ss with
  | nil => cases hs
  | cons s' ss ih =>
    cases ss with
    | nil =>
      obtain rfl := List.mem_singleton.mp hs
      simpa using ha
    | cons s'' ss =>
      rw [List.intercalate_cons_cons, List.mem_append, List.mem_append]
      rcases List.mem_cons.mp hs with rfl | hs
      · exact .inl (.inl ha)
      · exact .inr (ih hs)

theorem not_mem_intercalate {α : Type*} {a : α} {sep : List α} {ss : List (List α)} (hsep : a ∉ sep)
    (h : ∀ s ∈ ss, a ∉ s) : a ∉ sep.intercalate ss := by
  induction ss with
  | nil => simp
  | cons s ss ih =>
    cases ss with
    | nil => simpa using h s
    | cons s' ss =>
      have htail := ih fun t ht => h t (List.mem_cons_of_mem _ ht)
      rw [List.intercalate_cons_cons, List.mem_append, List.mem_append]
      rintro ((ha | ha) | ha)
      · exact h s List.mem_cons_self ha
      · exact hsep ha
      · exact htail ha

theorem mem_of_mem_splitOn {a : Char} {s l : List Char} (ha : a ∈ s) (hs : s ∈ l.splitOn '/') :
    a ∈ l := by
  have hl : ['/'].intercalate (l.splitOn '/') = l := List.intercalate_splitOn '/'
  rw [← hl]
  exact mem_intercalate_of_mem ha hs

theorem exists_texts (h : ∀ n ∈ p, PlainText n) :
    ∃ ss : List (List Char), p = ss.map OsStr.ofChars ∧ ∀ s ∈ ss, '\\' ∉ s := by
  induction p with
  | nil => exact ⟨[], rfl, by simp⟩
  | cons n p ih =>
    obtain ⟨s, hs, rfl⟩ := h n List.mem_cons_self
    obtain ⟨ss, rfl, hss⟩ := ih fun m hm => h m (List.mem_cons_of_mem _ hm)
    exact ⟨s :: ss, rfl, by simpa using ⟨hs, hss⟩⟩

theorem backslash_not_mem_zipName (p : OsPath) : '\\' ∉ (zipName p).toList := by
  rw [zipName, String.toList_ofList, List.mem_map]
  rintro ⟨a, -, ha⟩
  split_ifs at ha with hback
  · exact absurd ha (by decide)
  · exact hback ha

theorem zipName_texts {ss : List (List Char)} (hss : ∀ s ∈ ss, '\\' ∉ s) :
    (zipName (ss.map OsStr.ofChars)).toList = ['/'].intercalate ss := by
  rw [zipName, String.toList_ofList, ← ofChars_intercalate, toStringLossy_ofChars]
  have hno : '\\' ∉ ['/'].intercalate ss := not_mem_intercalate (by decide) hss
  have hid : ∀ a ∈ ['/'].intercalate ss, (if a = '\\' then '/' else a) = a := by
    intro a ha
    refine if_neg ?_
    rintro rfl
    exact hno ha
  rw [List.map_congr_left hid, List.map_id']

/-! ### Entries and objects -/

theorem LegalDir.legalName (h : d.Below p c) {n : OsStr} (hn : n ∈ p) : LegalName n := by
  obtain ⟨pre, post, rfl⟩ := List.append_of_mem hn
  have hget := h.2
  rw [Node.get_append] at hget
  obtain ⟨x, hpre, hx⟩ := Option.bind_eq_some_iff.mp hget
  obtain ⟨ds, rfl⟩ := Node.dir_of_get hx (by simp)
  obtain ⟨c', hl, -⟩ := Option.bind_eq_some_iff.mp hx
  exact d.legal pre ds hpre _ (mem_of_lookupEntry hl)

theorem slash_not_mem {s : List Char} (h : LegalName (.ofChars s)) : '/' ∉ s := by
  intro hs
  have hbyte : (47 : UInt8) ∈ OsStr.ofChars s := List.mem_flatMap.mpr ⟨'/', hs, by decide⟩
  exact h.2.2.2.1 hbyte

theorem zipEntry_cases (he : zipEntry (p, c) = some e) :
    (∃ ds, c = .dir ds ∧ e = (zipName p ++ "/", none)) ∨
      ∃ b, c = .file b ∧ e = (zipName p, some b) := by
  unfold zipEntry at he
  split at he
  · rename_i ds hc
    exact .inl ⟨ds, hc, (Option.some.inj he).symm⟩
  · rename_i b hc
    exact .inr ⟨b, hc, (Option.some.inj he).symm⟩
  · exact absurd he (by simp)

theorem zipEntry_isSome : (zipEntry (p, c)).isSome ↔ Archived c := by
  cases c <;> simp [zipEntry, Archived]

theorem archived_of_zipEntry (he : zipEntry (p, c) = some e) : Archived c :=
  zipEntry_isSome.mp (Option.isSome_of_eq_some he)

theorem describes_iff (he : zipEntry (p, c) = some e) : Describes e q c ↔ zipPath e = q := by
  obtain ⟨ds, rfl, rfl⟩ | ⟨b, rfl, rfl⟩ := zipEntry_cases he
  · simp [Describes]
  · simp [Describes]

theorem zipPath_of_describes (h : Describes e q c) : zipPath e = q := by
  cases c with
  | dir ds => exact h.2
  | file b => exact h.2
  | link target => exact h.elim
  | other => exact h.elim

theorem zipPath_of_zipEntry (he : zipEntry (p, c) = some e) :
    zipPath e = ((zipName p).toList.splitOn '/').map OsStr.ofChars := by
  obtain ⟨ds, rfl, rfl⟩ | ⟨b, rfl, rfl⟩ := zipEntry_cases he
  · have hslash : ("/" : String).toList = ['/'] := by decide
    simp [zipPath, String.toList_append, hslash]
  · simp [zipPath]

/-- The entries of plain names lead back to the objects. -/
theorem zipPath_eq (hbelow : d.Below p c) (hplain : ∀ n ∈ p, PlainText n)
    (he : zipEntry (p, c) = some e) : zipPath e = p := by
  obtain ⟨ss, rfl, hback⟩ := exists_texts hplain
  rw [zipPath_of_zipEntry he, zipName_texts hback, List.splitOn_intercalate]
  · intro s hs
    exact slash_not_mem (LegalDir.legalName hbelow (List.mem_map_of_mem hs))
  · rintro rfl
    exact hbelow.1 rfl

theorem plainText_of_zipPath (he : zipEntry (p, c) = some e) {n : OsStr} (hn : n ∈ zipPath e) :
    PlainText n := by
  rw [zipPath_of_zipEntry he] at hn
  obtain ⟨s, hs, rfl⟩ := List.mem_map.mp hn
  exact ⟨s, fun hb => backslash_not_mem_zipName p (mem_of_mem_splitOn hb hs), rfl⟩

theorem splitOn_name (he : zipEntry (p, c) = some e) :
    (e.1.toList.splitOn '/').map OsStr.ofChars = zipPath e ++ if e.2.isNone then [[]] else [] := by
  rw [zipPath_of_zipEntry he]
  obtain ⟨ds, rfl, rfl⟩ | ⟨b, rfl, rfl⟩ := zipEntry_cases he
  · have hslash : ("/" : String).toList = ['/'] := by decide
    rw [String.toList_append, hslash, List.splitOn_append_cons_of_beq _ _ rfl, List.map_append]
    rfl
  · simp

theorem nil_not_mem (h : d.Below p c) : ([] : OsStr) ∉ p :=
  fun hmem => (LegalDir.legalName h hmem).1 rfl

/-- Two entries of one name are for one path: the slash of a directory ends no file name. -/
theorem path_eq_of_name_eq {p' : OsPath} {c' : Fs} {e' : ZipEntry} (hbelow : d.Below p c)
    (hbelow' : d.Below p' c') (hp : zipPath e = p) (hp' : zipPath e' = p')
    (he : zipEntry (p, c) = some e) (he' : zipEntry (p', c') = some e') (hname : e.1 = e'.1) :
    p = p' := by
  have hparts := splitOn_name he
  rw [hname, splitOn_name he', hp, hp'] at hparts
  have hnil : ∀ {q q' : OsPath}, ([] : OsStr) ∉ q → q ≠ q' ++ [[]] := by
    rintro q q' hq rfl
    exact hq (by simp)
  split_ifs at hparts with h h'
  · exact (List.append_left_injective _ hparts).symm
  · rw [List.append_nil] at hparts
    exact absurd hparts.symm (hnil (nil_not_mem hbelow))
  · rw [List.append_nil] at hparts
    exact absurd hparts (hnil (nil_not_mem hbelow'))
  · exact (List.append_left_injective _ hparts).symm

/-! ### When the archive is faithful -/

/-- If every object is portable, the archive is written, and is faithful. -/
theorem faithful_of_portable (h : ∀ p c, d.Below p c → Archived c → Portable fits dir p c) :
    ∃ zip, zipDir fits dir d.entries = some zip ∧ Faithful d zip := by
  have hpath : ∀ p c e, (p, c) ∈ walkDir [] d.entries → zipEntry (p, c) = some e →
      zipPath e = p := by
    intro p c e hmem he
    have hbelow := below_of_walkDir hmem
    exact zipPath_eq hbelow (h p c hbelow (archived_of_zipEntry he)).names he
  have hnodup : (((walkDir [] d.entries).filterMap zipEntry).map Prod.fst).Nodup := by
    have hnames : ((walkDir [] d.entries).map Prod.fst).Nodup := nodup_walkDir d.distinct
    have hwalk := List.pairwise_map.mp hnames
    refine List.pairwise_map.mpr (List.pairwise_filterMap.mpr ?_)
    refine hwalk.imp_of_mem ?_
    rintro ⟨p, c⟩ ⟨p', c'⟩ hmem hmem' hne e he e' he' hname
    exact hne (path_eq_of_name_eq (below_of_walkDir hmem) (below_of_walkDir hmem')
      (hpath p c e hmem he) (hpath p' c' e' hmem' he') he he' hname)
  refine ⟨_, zipDir_eq_some.mpr ⟨rfl, hnodup, ?_⟩, hnodup, ?_, ?_, ?_⟩
  · rintro ⟨p, c⟩ hmem e he
    have hport := h p c (below_of_walkDir hmem) (archived_of_zipEntry he)
    refine ⟨hport.path, ?_⟩
    obtain ⟨ds, rfl, rfl⟩ | ⟨b, rfl, rfl⟩ := zipEntry_cases he
    · rfl
    · exact hport.content b rfl
  · intro e he
    obtain ⟨⟨p, c⟩, hmem, he⟩ := List.mem_filterMap.mp he
    exact ⟨p, c, below_of_walkDir hmem, (describes_iff he).mpr (hpath p c e hmem he)⟩
  · intro p c hbelow harch
    obtain ⟨e, he⟩ := Option.isSome_iff_exists.mp (zipEntry_isSome.mpr harch)
    have hmem := walkDir_of_below hbelow
    refine ⟨e, ⟨List.mem_filterMap.mpr ⟨_, hmem, he⟩, ?_⟩, ?_⟩
    · exact (describes_iff he).mpr (hpath p c e hmem he)
    · rintro e' ⟨he', hdesc⟩
      obtain ⟨⟨p', c'⟩, hmem', he'⟩ := List.mem_filterMap.mp he'
      obtain rfl : p' = p := (hpath p' c' e' hmem' he').symm.trans (zipPath_of_describes hdesc)
      have hget := (below_of_walkDir hmem').2
      obtain rfl : c' = c := Option.some.inj (hget.symm.trans hbelow.2)
      exact Option.some.inj (he'.symm.trans he)
  · intro e he hdots
    obtain ⟨⟨p, c⟩, hmem, he⟩ := List.mem_filterMap.mp he
    rw [hpath p c e hmem he] at hdots
    exact (LegalDir.legalName (below_of_walkDir hmem) hdots).2.2.2.2.2 rfl

/-- A faithful archive needs portable objects. -/
theorem portable_of_faithful (hzip : zipDir fits dir d.entries = some zip) (hf : Faithful d zip)
    (hbelow : d.Below p c) (harch : Archived c) : Portable fits dir p c := by
  obtain ⟨rfl, -, hall⟩ := zipDir_eq_some.mp hzip
  obtain ⟨e, he⟩ := Option.isSome_iff_exists.mp (zipEntry_isSome.mpr harch)
  obtain ⟨hp, hfits⟩ := hall _ (walkDir_of_below hbelow) e he
  constructor
  · intro n hn
    obtain ⟨e', ⟨he', hdesc⟩, -⟩ := hf.complete p c hbelow harch
    obtain ⟨⟨p', c'⟩, -, he'⟩ := List.mem_filterMap.mp he'
    rw [← zipPath_of_describes hdesc] at hn
    exact plainText_of_zipPath he' hn
  · exact hp
  · rintro b rfl
    rw [zipEntry, Option.some_inj] at he
    subst he
    exact hfits

/-- The download of a directory is faithful exactly when every directory and regular file in it
can be opened and written under its own name. -/
theorem zip_faithful_iff (fits : List UInt8 → Bool) (dir : PathBuf) (d : LegalDir) :
    (∃ zip, zipDir fits dir d.entries = some zip ∧ Faithful d zip) ↔
      ∀ p c, d.Below p c → Archived c → Portable fits dir p c := by
  constructor
  · rintro ⟨zip, hzip, hf⟩ p c hbelow harch
    exact portable_of_faithful hzip hf hbelow harch
  · exact faithful_of_portable

/-! ### The response -/

theorem foldlM_zipStep_eq (l : List (OsPath × Fs)) (z : List ZipEntry) :
    l.foldlM (zipStep fits dir) z =
      if ∀ o ∈ l.filter fun o => (zipEntry o).isSome, pathOk (entryPath dir o) = true then
        (l.filterMap zipEntry).foldlM (addEntry fits) z
      else none := by
  induction l generalizing z with
  | nil => rfl
  | cons o l ih =>
    rw [List.foldlM_cons, zipStep]
    cases hentry : zipEntry o with
    | none =>
      rw [List.filter_cons_of_neg (by simp [hentry]), List.filterMap_cons_none hentry]
      exact ih z
    | some e =>
      dsimp only
      simp only [hentry, List.filter_cons, Option.isSome_some, if_true, List.forall_mem_cons,
        List.filterMap_cons, List.foldlM_cons, ih]
      by_cases hp : pathOk (entryPath dir o) = true
      · rw [if_pos hp]
        split_ifs with hall hall' hall'
        · rfl
        · exact absurd ⟨hp, hall⟩ hall'
        · exact absurd hall'.2 hall
        · cases addEntry fits z e <;> rfl
      · rw [if_neg hp, if_neg fun hall => hp hall.1]
        rfl

theorem length_takeWhile_eq_iff {α : Type*} (f : α → Bool) (l : List α) :
    (l.takeWhile f).length = l.length ↔ ∀ a ∈ l, f a = true := by
  rw [← List.takeWhile_eq_self_iff]
  constructor
  · exact fun h => (List.takeWhile_prefix f).eq_of_length h
  · intro h
    rw [h]

/-- The response to a download is the archive of `zip_dir`, in the bytes of the format. -/
theorem buildZipResponse_response {x : Externals} {t : Fs} {name : String}
    {finish : List ZipEntry → List UInt8}
    (hx : ∀ l, x.writeZip l = (l.foldlM (addEntry fits) []).map finish)
    (hat : resolve t dir = .found at') (hes : t.get at' = some (.dir es)) :
    (buildZipResponse x t dir name).response =
      ((zipDir fits dir es).map finish).elim (.error .internalServerError)
        fun bytes => .ok (name ++ ".zip", bytes) := by
  have hfilter : ((walkDir [] es).filter fun o => (zipEntry o).isSome).filterMap zipEntry =
      (walkDir [] es).filterMap zipEntry := by
    rw [List.filterMap_filter]
    refine List.filterMap_congr fun o _ => ?_
    cases zipEntry o <;> rfl
  simp only [buildZipResponse, hat, hes, length_takeWhile_eq_iff, hfilter, hx, zipDir,
    foldlM_zipStep_eq]
  split_ifs
  · cases ((walkDir [] es).filterMap zipEntry).foldlM (addEntry fits) [] <;> rfl
  · rfl

theorem get_singleton {n : OsStr} {b : List UInt8} {ds : List (OsStr × Fs)}
    (h : (Node.dir [(n, Node.file b)]).get p = some (.dir ds)) : ds = [(n, .file b)] := by
  cases p with
  | nil =>
    cases h
    rfl
  | cons m p =>
    obtain ⟨c, hl, hc⟩ := Option.bind_eq_some_iff.mp h
    simp only [lookupEntry] at hl
    split_ifs at hl
    cases hl
    cases p with
    | nil => cases hc
    | cons m p => cases hc

/-- A directory with the file `..\x` in it. -/
def backslashDir : LegalDir where
  entries := [([46, 46, 92, 120], .file [])]
  distinct := by
    intro p ds h
    rw [get_singleton h]
    decide
  legal := by
    intro p ds h e he
    rw [get_singleton h] at he
    obtain rfl := List.mem_singleton.mp he
    exact ⟨by decide, by decide, by decide, by decide, by decide, by decide⟩

/-- The file leaves the directory when the archive is unpacked. -/
theorem zip_not_faithful : ¬ ∀ (fits : List UInt8 → Bool) (dir : PathBuf) (d : LegalDir),
    ∃ zip, zipDir fits dir d.entries = some zip ∧ Faithful d zip := by
  intro h
  obtain ⟨zip, hzip, hf⟩ := h (fun b => b.length < 2 ^ 32) [.rootDir, .normal [115]] backslashDir
  have hread : zipDir (fun b => b.length < 2 ^ 32) [.rootDir, .normal [115]] backslashDir.entries =
      some [("../x", some [])] := by decide +kernel
  rw [hread] at hzip
  cases hzip
  exact hf.inside _ List.mem_cons_self (by decide +kernel)

end Urc
