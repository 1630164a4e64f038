import Mathlib.Order.Lattice
import Urc.Library.Run

/-! # The clipboards of both sides

The page pushes texts into the clipboard of the remote desktop, and polls it for texts that are
copied there. What is put into the remote clipboard is numbered, and who put it is kept, to say
which of it a poll may write.
-/

namespace Urc

/-- A text in the remote CLIPBOARD: a copy made there, or what this page put there. -/
structure ClipContent where
  text : String
  byRemote : Bool
  time : ℕ
  deriving DecidableEq

/-- A poll that waits for its answer, with what the agent has read for it. -/
structure ClipPoll where
  id : ℕ
  content : Option ClipContent
  deriving DecidableEq

/-- A push that waits for its answer, with the answer that the agent gave. -/
structure ClipPost where
  id : ℕ
  text : String
  answer : Option Bool
  deriving DecidableEq

/-- What a poll wrote to the local clipboard, and the number of the latest content of a poll before
it. -/
structure PollWrite where
  content : ClipContent
  seen : ℕ
  deriving DecidableEq

/-- `extended` says whether the VNC server takes texts beyond Latin-1, `cuts` are texts on their way
to it, and `seen` is the number of the latest content that came with a poll. -/
structure Clipboards where
  localText : String
  remote : ClipContent
  visible : Bool
  hasRfb : Bool
  extended : Bool
  lastPolledRemoteClipboard : String
  lastRemoteClipboard : String
  copyHidden : Bool
  nextId : ℕ
  polls : List ClipPoll
  posts : List ClipPost
  cuts : List String
  seen : ℕ
  written : List PollWrite
  deriving DecidableEq

/-- A post may find `xclip` failing for either selection, or get lost in either direction, and a
write may be blocked by the browser. -/
inductive ClipEvent
  | localCopy (text : String)
  | remoteCopy (text : String)
  | push (text : String)
  | postArrives (id : ℕ) (clipboard primary : Bool)
  | postAnswered (id : ℕ) (received : Bool)
  | cutTextArrives
  | tick
  | visibilityChange (visible : Bool)
  | pollReads (id : ℕ)
  | pollFails (id : ℕ)
  | pollText (id : ℕ) (granted : Bool)
  deriving DecidableEq

/-- The text that `clipboardPasteFrom` sends. -/
def cutText (extended : Bool) (text : String) : String :=
  if extended then text else .ofList (text.toList.map fun c => if 0xff < c.toNat then '?' else c)

namespace Clipboards

open Transition

def start (localText remoteText : String) (hasRfb extended : Bool) : Clipboards where
  localText := localText
  remote := ⟨remoteText, true, 1⟩
  visible := true
  hasRfb := hasRfb
  extended := extended
  lastPolledRemoteClipboard := ""
  lastRemoteClipboard := ""
  copyHidden := true
  nextId := 0
  polls := []
  posts := []
  cuts := []
  seen := 0
  written := []

def put (s : Clipboards) (text : String) (byRemote : Bool) : Clipboards :=
  { s with remote := ⟨text, byRemote, s.remote.time + 1⟩ }

/-- `pushClipboardToRemote`, up to where it waits. -/
def pushClipboardToRemote (s : Clipboards) (text : String) : Clipboards :=
  { s with nextId := s.nextId + 1, posts := s.posts ++ [⟨s.nextId, text, none⟩] }

/-- `set_clipboard_handler`. -/
def setClipboardHandler (s : Clipboards) (p : ClipPost) (clipboard primary : Bool) : Clipboards :=
  let s := if clipboard then s.put p.text false else s
  { s with posts := s.posts.map fun q =>
      if q.id = p.id then { q with answer := some (clipboard && primary) } else q }

/-- `pushClipboardToRemote` behind its wait. -/
def postAnswered (s : Clipboards) (p : ClipPost) (received : Bool) : Clipboards :=
  let s := { s with posts := s.posts.filter (·.id ≠ p.id) }
  if received && p.answer = some true then s
  else if s.hasRfb then { s with cuts := s.cuts ++ [cutText s.extended p.text] }
  else s

/-- `pollRemoteClipboard`, up to where it waits. -/
def pollRemoteClipboard (s : Clipboards) : Clipboards :=
  if s.visible then { s with nextId := s.nextId + 1, polls := s.polls ++ [⟨s.nextId, none⟩] }
  else s

def dropPoll (s : Clipboards) (id : ℕ) : Clipboards :=
  { s with polls := s.polls.filter (·.id ≠ id) }

/-- `pollRemoteClipboard` behind its waits, in a browser with a clipboard. -/
def receive (s : Clipboards) (id : ℕ) (c : ClipContent) (granted : Bool) : Clipboards :=
  let s' := { s.dropPoll id with seen := max s.seen c.time }
  if c.text = "" ∨ c.text = s.lastPolledRemoteClipboard then s'
  else
    { s' with
      lastPolledRemoteClipboard := c.text
      lastRemoteClipboard := c.text
      written := s.written ++ [⟨c, s.seen⟩]
      localText := if granted then c.text else s.localText
      copyHidden := granted }

def step (s : Clipboards) : ClipEvent → Clipboards
  | .localCopy text => { s with localText := text }
  | .remoteCopy text => s.put text true
  | .push text => s.pushClipboardToRemote text
  | .postArrives id clipboard primary =>
    match s.posts.find? fun p => p.id = id && p.answer.isNone with
    | some p => s.setClipboardHandler p clipboard primary
    | none => s
  | .postAnswered id received =>
    match s.posts.find? (·.id = id) with
    | some p => s.postAnswered p received
    | none => s
  | .cutTextArrives =>
    match s.cuts with
    | text :: cuts => { s with cuts := cuts }.put text false
    | [] => s
  | .tick => s.pollRemoteClipboard
  | .visibilityChange visible => { s with visible := visible }.pollRemoteClipboard
  | .pollReads id =>
    { s with polls := s.polls.map fun p =>
        if p.id = id ∧ p.content = none then { p with content := some s.remote } else p }
  | .pollFails id => s.dropPoll id
  | .pollText id granted =>
    match (s.polls.find? (·.id = id)).bind (·.content) with
    | some c => s.receive id c granted
    | none => s

/-- The polls write texts only that were copied on the remote since the poll before. -/
def FromRemote (s : Clipboards) : Prop :=
  ∀ w ∈ s.written, w.content.byRemote = true ∧ w.seen < w.content.time

/-- A text that arrives is empty, or the last one again, or it was copied on the remote, and is no
older than what came with the polls before. -/
def Genuine (s : Clipboards) : ClipEvent → Prop
  | .pollText id _ => ∀ c ∈ (s.polls.find? (·.id = id)).bind (·.content),
    c.text = "" ∨ c.text = s.lastPolledRemoteClipboard ∨ c.byRemote = true ∧ s.seen ≤ c.time
  | _ => True

def contents (s : Clipboards) : List ClipContent := s.remote :: s.polls.filterMap (·.content)

/-- Numbers identify texts, and the text that was seen last is empty or the last one polled. -/
structure Inv (s : Clipboards) : Prop where
  fromRemote : s.FromRemote
  latest : ∀ c ∈ s.contents, c.time ≤ s.remote.time
  unique : ∀ c ∈ s.contents, ∀ c' ∈ s.contents, c.time = c'.time → c.text = c'.text
  seen_le : s.seen ≤ s.remote.time
  seen : ∀ c ∈ s.contents, c.time = s.seen → c.text = "" ∨ c.text = s.lastPolledRemoteClipboard

variable {s s' : Clipboards} {e : ClipEvent}

structure SameRemote (s s' : Clipboards) : Prop where
  contents : s'.contents ⊆ s.contents
  remote : s'.remote = s.remote
  seen : s'.seen = s.seen
  last : s'.lastPolledRemoteClipboard = s.lastPolledRemoteClipboard
  written : s'.written = s.written

theorem Inv.congr (h : s.Inv) (hs : s.SameRemote s') : s'.Inv where
  fromRemote := by
    rw [FromRemote, hs.written]
    exact h.fromRemote
  latest c hc := hs.remote ▸ h.latest c (hs.contents hc)
  unique c hc c' hc' := h.unique c (hs.contents hc) c' (hs.contents hc')
  seen_le := by
    rw [hs.seen, hs.remote]
    exact h.seen_le
  seen c hc := by
    rw [hs.seen, hs.last]
    exact h.seen c (hs.contents hc)

theorem Inv.put (h : s.Inv) (text : String) (byRemote : Bool) : (s.put text byRemote).Inv where
  fromRemote := h.fromRemote
  latest := by
    refine List.forall_mem_cons.mpr ⟨le_rfl, fun c hc => ?_⟩
    exact (h.latest c (List.mem_cons_of_mem _ hc)).trans (Nat.le_succ _)
  unique := by
    have hold : ∀ c ∈ s.polls.filterMap (·.content), c.time ≠ s.remote.time + 1 := by
      intro c hc heq
      have hle := h.latest c (List.mem_cons_of_mem _ hc)
      omega
    intro c hc c' hc' htime
    rcases List.mem_cons.mp hc with rfl | hc <;> rcases List.mem_cons.mp hc' with rfl | hc'
    · rfl
    · exact absurd htime.symm (hold c' hc')
    · exact absurd htime (hold c hc)
    · exact h.unique c (List.mem_cons_of_mem _ hc) c' (List.mem_cons_of_mem _ hc') htime
  seen_le := h.seen_le.trans (Nat.le_succ _)
  seen := by
    refine List.forall_mem_cons.mpr ⟨fun htime => ?_, fun c hc => ?_⟩
    · have hle := h.seen_le
      exact absurd htime (by simp only [Clipboards.put]; omega)
    · exact h.seen c (List.mem_cons_of_mem _ hc)

theorem mem_contents {id : ℕ} {c : ClipContent}
    (hc : c ∈ (s.polls.find? (·.id = id)).bind (·.content)) : c ∈ s.contents := by
  obtain ⟨p, hp, hpc⟩ := Option.bind_eq_some_iff.mp hc
  exact List.mem_cons_of_mem _ (List.mem_filterMap.mpr ⟨p, List.mem_of_find?_eq_some hp, hpc⟩)

theorem contents_dropPoll (s : Clipboards) (id : ℕ) : (s.dropPoll id).contents ⊆ s.contents :=
  List.cons_subset_cons _ (List.filterMap_subset _ (List.filter_subset_self _))

theorem contents_pollReads (s : Clipboards) (id : ℕ) :
    (s.step (.pollReads id)).contents ⊆ s.contents := by
  refine List.cons_subset.mpr ⟨List.mem_cons_self, fun c hc => ?_⟩
  obtain ⟨p, hp, hpc⟩ := List.mem_filterMap.mp hc
  obtain ⟨q, hq, rfl⟩ := List.mem_map.mp hp
  split_ifs at hpc with hread
  · rw [← Option.some.inj hpc]
    exact List.mem_cons_self
  · exact List.mem_cons_of_mem _ (List.mem_filterMap.mpr ⟨q, hq, hpc⟩)

theorem Inv.receive {c : ClipContent} (h : s.Inv) (hc : c ∈ s.contents)
    (hgood : c.text = "" ∨ c.text = s.lastPolledRemoteClipboard ∨
      c.byRemote = true ∧ s.seen ≤ c.time) (id : ℕ) (granted : Bool) :
    (s.receive id c granted).Inv := by
  have hsub := s.contents_dropPoll id
  unfold Clipboards.receive
  by_cases hskip : c.text = "" ∨ c.text = s.lastPolledRemoteClipboard
  · rw [if_pos hskip]
    refine ⟨h.fromRemote, fun c' hc' => h.latest c' (hsub hc'),
      fun c' hc' c'' hc'' => h.unique c' (hsub hc') c'' (hsub hc''),
      max_le h.seen_le (h.latest c hc), fun c' hc' htime => ?_⟩
    rcases le_total c.time s.seen with hle | hle
    · exact h.seen c' (hsub hc') (htime.trans (max_eq_left hle))
    · rwa [h.unique c' (hsub hc') c hc (htime.trans (max_eq_right hle))]
  · rw [if_neg hskip]
    obtain ⟨hempty, hlast⟩ := not_or.mp hskip
    obtain ⟨hremote, hle⟩ := (hgood.resolve_left hempty).resolve_left hlast
    have hlt : s.seen < c.time := by
      refine lt_of_le_of_ne hle fun heq => hskip (h.seen c hc heq.symm)
    refine ⟨?_, fun c' hc' => h.latest c' (hsub hc'),
      fun c' hc' c'' hc'' => h.unique c' (hsub hc') c'' (hsub hc''),
      max_le h.seen_le (h.latest c hc), fun c' hc' htime => .inr ?_⟩
    · refine List.forall_mem_append.mpr ⟨h.fromRemote, fun w hw => ?_⟩
      rw [List.mem_singleton.mp hw]
      exact ⟨hremote, hlt⟩
    · exact h.unique c' (hsub hc') c hc (htime.trans (max_eq_right hle))

theorem SameRemote.refl (s : Clipboards) : s.SameRemote s :=
  ⟨List.Subset.refl _, rfl, rfl, rfl, rfl⟩

theorem pollRemoteClipboard_sameRemote (s : Clipboards) : s.SameRemote s.pollRemoteClipboard := by
  unfold pollRemoteClipboard
  split_ifs
  · exact ⟨by simp [contents], rfl, rfl, rfl, rfl⟩
  · exact .refl s

/-- A step has nothing new for the polls, or it puts a text into the remote clipboard, or it brings
a text of a poll. -/
theorem step_cases (s : Clipboards) (e : ClipEvent) : s.SameRemote (s.step e) ∨
    (∃ s' text byRemote, s.SameRemote s' ∧ s.step e = s'.put text byRemote) ∨
    ∃ id granted c, e = .pollText id granted ∧
      c ∈ (s.polls.find? (·.id = id)).bind (·.content) ∧ s.step e = s.receive id c granted := by
  have hrefl := List.Subset.refl s.contents
  cases e with
  | localCopy text => exact .inl ⟨hrefl, rfl, rfl, rfl, rfl⟩
  | remoteCopy text => exact .inr (.inl ⟨s, text, true, .refl s, rfl⟩)
  | push text => exact .inl ⟨hrefl, rfl, rfl, rfl, rfl⟩
  | postArrives id clipboard primary =>
    unfold step
    dsimp only
    cases s.posts.find? fun p => p.id = id && p.answer.isNone with
    | none => exact .inl (.refl s)
    | some p =>
      cases clipboard with
      | false => exact .inl ⟨hrefl, rfl, rfl, rfl, rfl⟩
      | true =>
        refine .inr (.inl ⟨{ s with posts := s.posts.map fun q =>
          if q.id = p.id then { q with answer := some (true && primary) } else q }, p.text, false,
          ⟨hrefl, rfl, rfl, rfl, rfl⟩, rfl⟩)
  | postAnswered id received =>
    unfold step
    dsimp only
    cases s.posts.find? (·.id = id) with
    | none => exact .inl (.refl s)
    | some p =>
      simp only [postAnswered]
      split_ifs <;> exact .inl ⟨hrefl, rfl, rfl, rfl, rfl⟩
  | cutTextArrives =>
    unfold step
    dsimp only
    cases s.cuts with
    | nil => exact .inl (.refl s)
    | cons text cuts =>
      exact .inr (.inl ⟨{ s with cuts := cuts }, text, false, ⟨hrefl, rfl, rfl, rfl, rfl⟩, rfl⟩)
  | tick => exact .inl s.pollRemoteClipboard_sameRemote
  | visibilityChange visible =>
    have hs := pollRemoteClipboard_sameRemote { s with visible := visible }
    exact .inl ⟨hs.contents, hs.remote, hs.seen, hs.last, hs.written⟩
  | pollReads id => exact .inl ⟨s.contents_pollReads id, rfl, rfl, rfl, rfl⟩
  | pollFails id => exact .inl ⟨s.contents_dropPoll id, rfl, rfl, rfl, rfl⟩
  | pollText id granted =>
    unfold step
    dsimp only
    cases hc : (s.polls.find? (·.id = id)).bind (·.content) with
    | none => exact .inl (.refl s)
    | some c => exact .inr (.inr ⟨id, granted, c, rfl, hc, rfl⟩)

theorem Inv.step (h : s.Inv) (hgood : s.Genuine e) : (s.step e).Inv := by
  rcases s.step_cases e with hs | ⟨s', text, byRemote, hs, heq⟩ | ⟨id, granted, c, rfl, hc, heq⟩
  · exact h.congr hs
  · rw [heq]
    exact (h.congr hs).put text byRemote
  · rw [heq]
    exact h.receive (mem_contents hc) (hgood c hc) id granted

/-- A text that is written well meets the condition. -/
theorem genuine_of_fromRemote (hp : (s.step e).FromRemote) : s.Genuine e := by
  cases e with
  | pollText id granted =>
    intro c hc
    by_contra hbad
    simp only [not_or] at hbad
    obtain ⟨hempty, hlast, hno⟩ := hbad
    have hstep : s.step (.pollText id granted) = s.receive id c granted := by
      simp only [step, Option.mem_def.mp hc]
    have hmem : ⟨c, s.seen⟩ ∈ (s.receive id c granted).written := by
      rw [receive, if_neg (not_or.mpr ⟨hempty, hlast⟩)]
      exact List.mem_append_right _ (List.mem_singleton_self _)
    rw [hstep] at hp
    obtain ⟨hremote, hlt⟩ := hp _ hmem
    exact hno ⟨hremote, hlt.le⟩
  | _ => trivial

variable (localText remoteText : String) (hasRfb extended : Bool)

theorem inv_start : (start localText remoteText hasRfb extended).Inv where
  fromRemote := by simp [FromRemote, start]
  latest := by simp [contents, start]
  unique := by simp [contents, start]
  seen_le := Nat.zero_le _
  seen := by simp [contents, start]

/-- Over all interleavings of copies on both sides, pushes and polls, the polls write exactly then
nothing but texts that were copied on the remote since the poll before, when no poll brings a text
that this page put there, or that is older than what came before it, other than the last one
again. -/
theorem fromRemote_iff (es : List ClipEvent) :
    Always step FromRemote (start localText remoteText hasRfb extended) es ↔
      Steps step Genuine (start localText remoteText hasRfb extended) es :=
  always_iff_steps_of_all (fun _ _ h => h.step) (fun _ h => h.fromRemote)
    (fun _ _ _ hp => genuine_of_fromRemote hp) (inv_start localText remoteText hasRfb extended)

/-- A text is pushed, and another one is copied before the next poll. -/
def pushedBack : List ClipEvent :=
  [.push "A", .postArrives 0 true true, .postAnswered 0 true, .localCopy "B", .tick, .pollReads 1,
    .pollText 1 true]

/-- A poll brings the pushed text back, and the newer copy is gone. -/
theorem push_comes_back : ¬ ∀ (localText remoteText : String) (hasRfb extended : Bool)
    (es : List ClipEvent),
    Always step FromRemote (start localText remoteText hasRfb extended) es := by
  intro h
  have hp := h "A" "" true false pushedBack _ List.prefix_rfl
  have hrun : (run step (start "A" "" true false) pushedBack).written = [⟨⟨"A", false, 2⟩, 0⟩] ∧
      (run step (start "A" "" true false) pushedBack).localText = "A" := by
    decide +kernel
  rw [FromRemote, hrun.1] at hp
  exact absurd (hp _ (List.mem_singleton_self _)).1 (by decide)

end Clipboards

end Urc
