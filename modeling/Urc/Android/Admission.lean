import Urc.Android.App
import Urc.Android.Pairing
import Urc.Android.SavedHosts

/-! # Which hosts the app admits

A pairing link and the add dialog both ask for a literal address. The link replaces a port out of
range by the default, the dialog only what is no `Int` at all. So the store stays clean exactly as
long as no port out of range is typed behind a literal address.
-/

namespace Urc

open Kotlin Transition

/-- A host that the proxy can serve: its address is a literal and a socket takes its port. -/
structure Host.Admitted (h : Host) : Prop where
  literal : (Cgnat.parseIpv4Literal h.host).isSome = true
  port : 1 ≤ h.port ∧ h.port ≤ 65535

theorem Host.Admitted.reload {h : Host} (hh : h.Admitted) : h.reload.Admitted :=
  ⟨hh.literal, hh.port⟩

/-! ### Texts of ports -/

namespace Kotlin

theorem isInt_of_toIntOrNull {s : List Char} {z : ℤ} (h : toIntOrNull s = some z) : IsInt z := by
  have hpos : ∀ o : Option ℕ,
      (o.bind fun v => if v < 2 ^ 31 then some (v : ℤ) else none) = some z → IsInt z := by
    intro o ho
    obtain ⟨v, -, hv⟩ := Option.bind_eq_some_iff.mp ho
    split_ifs at hv with hlt
    cases hv
    unfold IsInt
    omega
  cases s with
  | nil => cases h
  | cons c rest =>
    rw [toIntOrNull] at h
    split_ifs at h
    · obtain ⟨v, -, hv⟩ := Option.bind_eq_some_iff.mp h
      split_ifs at hv with hle
      cases hv
      unfold IsInt
      omega
    · exact hpos _ h
    · exact hpos _ h

theorem toIntOrNull_neg {s : List Char} (hne : s ≠ []) (h : ∀ c ∈ s, c.isDigit = true)
    (hv : Decimal.value s ≤ 2 ^ 31) : toIntOrNull ('-' :: s) = some (-(Decimal.value s : ℤ)) := by
  have hminus : '-' < '0' := by decide
  rw [toIntOrNull, if_pos hminus, if_pos rfl, digitsValue, if_neg hne, foldlM_digitOf h,
    Option.bind_some]
  exact if_pos hv

theorem toIntOrNull_toString {z : ℤ} (hz : IsInt z) : toIntOrNull (toString z).toList = some z := by
  unfold IsInt at hz
  cases z with
  | ofNat n =>
    have hnum := Decimal.isNumeral_toDigits n
    have hlt : (n : ℤ) < 0x80000000 := hz.2
    have htext : (toString (Int.ofNat n)).toList = Nat.toDigits 10 n := by
      rw [← Nat.toList_repr, ← Nat.toString_eq_repr]
      rfl
    rw [htext, toIntOrNull_digits hnum.ne_nil hnum.digits, Decimal.value_toDigits]
    · rfl
    · rw [Decimal.value_toDigits]
      omega
  | negSucc n =>
    have hnum := Decimal.isNumeral_toDigits (n + 1)
    rw [JsonText.toList_neg, Nat.toString_eq_repr, Nat.toList_repr,
      toIntOrNull_neg hnum.ne_nil hnum.digits, Decimal.value_toDigits]
    · rfl
    · rw [Decimal.value_toDigits]
      omega

end Kotlin

/-! ### What the two ways check -/

variable {U : Type} {api : UriApi U}

theorem UrcUri.one_le_portOf (value : Option String) :
    1 ≤ UrcUri.portOf value ∧ UrcUri.portOf value ≤ 65535 := by
  unfold UrcUri.portOf
  cases hport : (value.bind fun s => toIntOrNull s.toList).filter fun p => 1 ≤ p && p ≤ 65535 with
  | none => exact ⟨by decide, by decide⟩
  | some p => simpa using (Option.filter_eq_some_iff.mp hport).2

/-- Whatever the link, the host that it names is admitted. -/
theorem UrcUri.admitted_of_parse {raw : String} {host : Host}
    (h : UrcUri.parse api raw = some host) : host.Admitted := by
  unfold UrcUri.parse at h
  split at h
  · cases h
  · dsimp only at h
    split_ifs at h with hscheme haction hempty hliteral
    cases h
    exact ⟨by simpa [Option.isSome_iff_ne_none] using hliteral, UrcUri.one_le_portOf _⟩

/-- The text of a port that is no `Int`, or one that a socket takes. -/
def PortFits (port : String) : Prop := ∀ p ∈ toIntOrNull port.toList, 1 ≤ p ∧ p ≤ 65535

instance (port : String) : Decidable (PortFits port) := inferInstanceAs (Decidable (∀ p ∈ _, _))

/-- A port that fits is typed behind a literal address; other addresses are turned down. -/
def AppEvent.Fits : AppEvent → Prop
  | .addManually ip port _ _ =>
    (Cgnat.parseIpv4Literal (Kotlin.trim ip)).isSome = true → PortFits port
  | _ => True

def dialogHost (ip port magicDns name : String) : Host :=
  ⟨Kotlin.trim ip, (toIntOrNull port.toList).getD Android.defaultWebTlsPort,
    nullIfBlank (Kotlin.trim magicDns), nullIfBlank (Kotlin.trim name)⟩

variable {ip port magicDns name : String}

theorem dialogHost_admitted_iff : (dialogHost ip port magicDns name).Admitted ↔
    (Cgnat.parseIpv4Literal (Kotlin.trim ip)).isSome = true ∧ PortFits port := by
  have hport : (1 ≤ (toIntOrNull port.toList).getD Android.defaultWebTlsPort ∧
      (toIntOrNull port.toList).getD Android.defaultWebTlsPort ≤ 65535) ↔ PortFits port := by
    unfold PortFits
    cases toIntOrNull port.toList with
    | none => simp [Android.defaultWebTlsPort]
    | some p => simp
  constructor
  · rintro ⟨hliteral, hrange⟩
    exact ⟨hliteral, hport.mp hrange⟩
  · rintro ⟨hliteral, hfits⟩
    exact ⟨hliteral, hport.mpr hfits⟩

/-! ### What a step does to the store and the tasks -/

def Task.saves : Task → Option Host
  | .pairing host | .saving host => some host
  | _ => none

def AppEvent.Runs (e : AppEvent) (t : TaskNumber) : Prop := ∃ reached, e = .run t reached

namespace AndroidApp

/-- A step, cut into changes of the store and of the tasks. -/
inductive Moves (api : UriApi U) (e : AppEvent) : AndroidApp → AndroidApp → Prop
  | frame {s s'} (hstore : s'.store = s.store) (htasks : s'.tasks = s.tasks)
      (hnext : s'.next = s.next) : Moves api e s s'
  | spawn {s task} (htask : task.saves = none) : Moves api e s (s.spawn task)
  | link {s raw host} (hparse : UrcUri.parse api raw = some host) :
      Moves api e s (s.spawn (.pairing host))
  | entry {s ip port magicDns name} (he : e = .addManually ip port magicDns name)
      (hliteral : (Cgnat.parseIpv4Literal (Kotlin.trim ip)).isSome = true) :
      Moves api e s (s.spawn (.saving (dialogHost ip port magicDns name)))
  | go {s t o} (he : e.Runs t) (ho : ∀ task ∈ o, task.saves = none) : Moves api e s (s.goto t o)
  | save {s t task host} (ht : s.tasks t = some task) (hsaves : task.saves = some host) :
      Moves api e s { s with store := s.store.add host }
  | forget {s host} : Moves api e s { s with store := s.store.remove host }
  | trans {s s' s''} (h : Moves api e s s') (h' : Moves api e s' s'') : Moves api e s s''

variable {e : AppEvent} {s s' : AndroidApp} {host : Host} {t : TaskNumber} {extras : Extras}
  {bound : Option ℤ}

theorem Moves.refl (api : UriApi U) (e : AppEvent) (s : AndroidApp) : Moves api e s s :=
  .frame rfl rfl rfl

theorem moves_connect : Moves api e s (s.connect host) := by
  unfold connect
  split_ifs
  · exact .spawn rfl
  · exact .refl api e s

theorem moves_handlePairingUri {raw : String} : Moves api e s (s.handlePairingUri api raw) := by
  unfold handlePairingUri
  split
  · exact .link ‹_›
  · exact .refl api e s

theorem moves_onStartCommand {action : ServiceAction} :
    Moves api e s (s.onStartCommand action extras bound) := by
  cases action with
  | stop => exact .frame rfl rfl rfl
  | other =>
    unfold onStartCommand startProxy
    dsimp only
    split
    · split_ifs
      · exact .refl api e s
      · split <;> exact .frame rfl rfl rfl
    · exact .refl api e s

theorem moves_onCreate : Moves api e s (s.onCreate extras bound) := by
  unfold onCreate
  split
  · split_ifs
    · exact moves_onStartCommand
    · exact .refl api e s
  · exact .refl api e s

theorem moves_leave (he : e.Runs t) : Moves api e s (s.goto t none) := .go he (by simp)

theorem moves_runTask {reached : Bool} {task : Task} (he : e.Runs t)
    (ht : s.tasks t = some task) : Moves api e s (s.runTask t reached task) := by
  cases task with
  | pairing host =>
    have hgo : Moves api e { s with store := s.store.add host } _ :=
      .go (o := some (.paired host)) he (by rintro _ ⟨⟩; rfl)
    exact (Moves.save ht rfl).trans hgo
  | paired host => exact (moves_leave he).trans moves_connect
  | saving host => exact (Moves.save ht rfl).trans (moves_leave he)
  | removing host => exact (Moves.forget).trans (moves_leave he)
  | deciding host =>
    simp only [runTask]
    split_ifs
    · exact (Moves.go (o := some (.dialing host)) he (by rintro _ ⟨⟩; rfl)).trans
        (.frame rfl rfl rfl)
    · exact moves_leave he
  | dialing host =>
    refine (moves_leave he).trans (.frame ?_ ?_ ?_) <;>
      · simp only [runTask, conclude, dial]
        split_ifs <;> rfl
  | handling p =>
    simp only [runTask]
    split_ifs
    · exact (Moves.go (o := some (.upstream p)) he (by rintro _ ⟨⟩; rfl)).trans
        (.frame rfl rfl rfl)
    · exact moves_leave he
  | upstream p =>
    refine (moves_leave he).trans (.frame ?_ ?_ ?_) <;>
      · simp only [runTask, dial]
        split_ifs <;> rfl

theorem moves_elim {α : Type*} {o : Option α} {f : α → AndroidApp}
    (hf : ∀ a, o = some a → Moves api e s (f a)) : Moves api e s (o.elim s f) := by
  cases o with
  | none => exact .refl api e s
  | some a => exact hf a rfl

theorem moves_step : Moves api e s (s.step api e) := by
  cases e with
  | showHosts => exact .frame rfl rfl rfl
  | scan raw => exact moves_elim fun _ _ => moves_handlePairingUri
  | deepLink view data =>
    simp only [step, handleDeepLink]
    split
    · exact moves_handlePairingUri
    · exact .refl api _ s
  | addManually ip port magicDns name =>
    simp only [step, addManually]
    split_ifs with hnone
    · exact .refl api _ s
    · exact .entry rfl (by simpa [Option.isSome_iff_ne_none] using hnone)
  | tap i => exact moves_elim fun _ _ => moves_connect
  | delete i => exact moves_elim fun _ _ => .spawn rfl
  | retry i =>
    refine moves_elim fun host _ => ?_
    have hframe : Moves api (.retry i) s { s with retries := s.retries.eraseIdx i } :=
      .frame rfl rfl rfl
    exact hframe.trans moves_connect
  | run t reached => exact moves_elim fun _ ht => moves_runTask ⟨reached, rfl⟩ ht
  | createMain i bound => exact moves_elim fun _ _ => moves_onCreate
  | startCommand action extras bound => exact moves_onStartCommand
  | destroyService => exact .frame rfl rfl rfl
  | accept i => exact moves_elim fun _ _ => .spawn rfl

/-! ### Admitted hosts stay the only ones -/

/-- What is stored, and what a task is about to store, is admitted. -/
structure Admits (s : AndroidApp) : Prop where
  stored : ∀ h ∈ s.store, h.Admitted
  saving : ∀ t task host, s.tasks t = some task → task.saves = some host → host.Admitted

theorem admitted_of_mem_add {store : HostStore} (hstore : ∀ h ∈ store, h.Admitted)
    (hhost : host.Admitted) : ∀ h ∈ store.add host, h.Admitted := by
  intro h hmem
  rw [HostStore.add_eq] at hmem
  obtain ⟨it, hit, rfl⟩ := List.mem_map.mp hmem
  rcases OrderedMap.mem_upsert hit with rfl | hit
  · exact hhost.reload
  · exact (hstore it hit).reload

theorem admitted_of_mem_remove {store : HostStore} (hstore : ∀ h ∈ store, h.Admitted) :
    ∀ h ∈ store.remove host, h.Admitted := by
  intro h hmem
  obtain ⟨it, hit, rfl⟩ := List.mem_map.mp hmem
  exact (hstore it (List.mem_filter.mp hit).1).reload

/-- A task starts, goes on or ends; what it is about to store is admitted. -/
theorem Admits.update {o : Option Task} (hs : s.Admits)
    (ho : ∀ task ∈ o, ∀ h, task.saves = some h → h.Admitted) (hstore : s'.store = s.store)
    (htasks : s'.tasks = Function.update s.tasks t o) : s'.Admits where
  stored := hstore ▸ hs.stored
  saving t' task h ht hsaves := by
    rw [htasks] at ht
    by_cases hne : t' = t
    · subst hne
      rw [Function.update_self] at ht
      exact ho task ht h hsaves
    · rw [Function.update_of_ne hne] at ht
      exact hs.saving t' task h ht hsaves

theorem Admits.spawn {task : Task} (hs : s.Admits)
    (htask : ∀ h, task.saves = some h → h.Admitted) : (s.spawn task).Admits :=
  hs.update (o := some task) (by rintro _ ⟨⟩; exact htask) rfl rfl

theorem Admits.moves (hs : s.Admits) (he : e.Fits) (hm : Moves api e s s') : s'.Admits := by
  induction hm with
  | frame hstore htasks _ => exact ⟨hstore ▸ hs.stored, htasks ▸ hs.saving⟩
  | spawn htask => exact hs.spawn (by simp [htask])
  | link hparse =>
    refine hs.spawn ?_
    rintro _ ⟨⟩
    exact UrcUri.admitted_of_parse hparse
  | entry he' hliteral =>
    subst he'
    refine hs.spawn ?_
    rintro _ ⟨⟩
    exact dialogHost_admitted_iff.mpr ⟨hliteral, he hliteral⟩
  | go _ ho =>
    refine hs.update ?_ rfl rfl
    intro task htask h hsaves
    rw [ho task htask] at hsaves
    cases hsaves
  | save ht hsaves =>
    exact ⟨admitted_of_mem_add hs.stored (hs.saving _ _ _ ht hsaves), hs.saving⟩
  | forget => exact ⟨admitted_of_mem_remove hs.stored, hs.saving⟩
  | trans _ _ ih ih' => exact ih' (ih hs)

theorem admits_new : (new []).Admits := ⟨by simp [new], by simp [new]⟩

/-! ### A bad entry reaches the store -/

structure Waits (t : TaskNumber) (host : Host) (s : AndroidApp) : Prop where
  started : t < s.next
  task : s.tasks t = some (.saving host)

theorem Waits.moves (hs : Waits t host s) (he : ¬ e.Runs t) (hm : Moves api e s s') :
    Waits t host s' := by
  have hspawn : ∀ {s : AndroidApp} {task}, Waits t host s → Waits t host (s.spawn task) := by
    intro s task hs
    have hne : t ≠ s.next := hs.started.ne
    exact ⟨Nat.lt_succ_of_lt hs.started, by simpa [spawn, Function.update_of_ne hne] using hs.task⟩
  induction hm with
  | frame _ htasks hnext => exact ⟨hnext ▸ hs.started, htasks ▸ hs.task⟩
  | spawn | link | entry => exact hspawn hs
  | go he' _ =>
    have hne : t ≠ _ := fun heq => he (heq ▸ he')
    exact ⟨hs.started, by simpa [goto, Function.update_of_ne hne] using hs.task⟩
  | save | forget => exact ⟨hs.started, hs.task⟩
  | trans _ _ ih ih' => exact ih' (ih hs)

theorem Waits.stores (api : UriApi U) (reached : Bool) (hs : Waits t host s) :
    ∃ h ∈ (s.step api (.run t reached)).store, h.host = host.host ∧ h.port = host.port := by
  refine ⟨host.reload, ?_, rfl, rfl⟩
  simp only [step, hs.task, Option.elim_some, runTask, HostStore.add_eq]
  exact List.mem_map_of_mem (OrderedMap.mem_upsert_self _ _ _)

/-- The hosts in the store are admitted in every state, however the coroutines go on. -/
def StaysClean (api : UriApi U) (s : AndroidApp) (es : List AppEvent) : Prop :=
  ∀ more, (∀ e ∈ more, ∃ t, e.Runs t) →
    Always (step api) (fun s => ∀ h ∈ s.store, h.Admitted) s (es ++ more)

theorem Waits.not_staysClean {es : List AppEvent} (hs : Waits t host s) (hhost : ¬ host.Admitted) :
    ¬ StaysClean api s es := by
  have hran : ∀ {s : AndroidApp} {reached : Bool}, Waits t host s →
      ¬ ∀ h ∈ (s.step api (.run t reached)).store, h.Admitted := by
    intro s reached hs hall
    obtain ⟨h, hmem, haddress, hport⟩ := hs.stores api reached
    obtain ⟨hliteral, hrange⟩ := hall h hmem
    exact hhost ⟨haddress ▸ hliteral, hport ▸ hrange⟩
  induction es generalizing s with
  | nil =>
    intro hclean
    have hlast := hclean [.run t true] (by simp [AppEvent.Runs])
    exact hran hs (always_nil.mp (always_cons.mp hlast).2)
  | cons e es ih =>
    intro hclean
    have hrest : StaysClean api (s.step api e) es := fun more hmore =>
      (always_cons.mp (hclean more hmore)).2
    by_cases he : e.Runs t
    · obtain ⟨reached, rfl⟩ := he
      exact hran hs (hrest [] (by simp) [] List.nil_prefix)
    · exact ih (hs.moves he moves_step) hrest

theorem staysClean_iff {es : List AppEvent} (hs : s.Admits) :
    StaysClean api s es ↔ ∀ e ∈ es, e.Fits := by
  constructor
  · intro hclean
    induction es generalizing s with
    | nil => simp
    | cons e es ih =>
      have hrest : StaysClean api (s.step api e) es := fun more hmore =>
        (always_cons.mp (hclean more hmore)).2
      have he : e.Fits := by
        cases e with
        | addManually ip port magicDns name =>
          intro hliteral
          by_contra hport
          have hstep : s.step api (.addManually ip port magicDns name) =
              s.spawn (.saving (dialogHost ip port magicDns name)) := by
            simp only [step, addManually]
            exact if_neg (by simpa [Option.isSome_iff_ne_none] using hliteral)
          have hwaits : Waits s.next (dialogHost ip port magicDns name)
              (s.spawn (.saving (dialogHost ip port magicDns name))) :=
            ⟨Nat.lt_succ_self _, by simp [spawn]⟩
          rw [hstep] at hrest
          exact hwaits.not_staysClean (fun hh => hport (dialogHost_admitted_iff.mp hh).2) hrest
        | _ => trivial
      exact List.forall_mem_cons.mpr ⟨he, ih (hs.moves he moves_step) hrest⟩
  · intro hfits more hmore
    have hsteps : Steps (step api) (fun _ e => e.Fits) s (es ++ more) := by
      refine steps_event_iff.mpr (List.forall_mem_append.mpr ⟨hfits, fun e he => ?_⟩)
      obtain ⟨t, reached, rfl⟩ := hmore e he
      trivial
    have halways := hsteps.always (fun _ _ hs he => hs.moves he moves_step) hs
    exact halways.mono fun _ hs => hs.stored

/-! ### Pairs that the two ways can store -/

/-- An entry puts a host with this address and port into an empty store, once its coroutine has
run. -/
def Saves (api : UriApi U) (e : AppEvent) (host : String) (port : ℤ) : Prop :=
  ∃ h ∈ (run (step api) (new []) [e, .run 0 true]).store, h.host = host ∧ h.port = port

def SavedByHand (api : UriApi U) (host : String) (port : ℤ) : Prop :=
  ∃ ip text magicDns name, Saves api (.addManually ip text magicDns name) host port

def SavedByLink (api : UriApi U) (host : String) (port : ℤ) : Prop :=
  ∃ raw, Saves api (.scan (some raw)) host port

variable {address : String} {p : ℤ}

theorem store_of_spawn (api : UriApi U) (task : Task) (htask : task.saves = some host) :
    (((new []).spawn task).step api (.run 0 true)).store = [host.reload] := by
  cases task <;> cases htask <;> rfl

theorem saves_addManually : Saves api (.addManually ip port magicDns name) address p ↔
    (Cgnat.parseIpv4Literal (Kotlin.trim ip)).isSome = true ∧
      (dialogHost ip port magicDns name).host = address ∧
      (dialogHost ip port magicDns name).port = p := by
  have hstep : (new []).step api (.addManually ip port magicDns name) =
      (new []).addManually ip port magicDns name := rfl
  rw [Saves, run_cons, run_cons, run_nil, hstep, addManually]
  cases hliteral : Cgnat.parseIpv4Literal (Kotlin.trim ip) with
  | none => simp [new, step]
  | some octets =>
    have hstore := store_of_spawn api (.saving (dialogHost ip port magicDns name)) rfl
    simp only [dialogHost] at hstore ⊢
    simp [hstore, Host.reload]

theorem saves_scan {raw : String} : Saves api (.scan (some raw)) address p ↔
    ∃ host, UrcUri.parse api raw = some host ∧ host.host = address ∧ host.port = p := by
  have hstep : (new []).step api (.scan (some raw)) = (new []).handlePairingUri api raw := rfl
  rw [Saves, run_cons, run_cons, run_nil, hstep, handlePairingUri]
  cases hparse : UrcUri.parse api raw with
  | none => simp [new, step]
  | some host =>
    have hstore := store_of_spawn api (.pairing host) rfl
    simp [hstore, Host.reload]

theorem savedByHand_iff : SavedByHand api address p ↔
    (Cgnat.parseIpv4Literal address).isSome = true ∧ IsInt p := by
  simp only [SavedByHand, saves_addManually]
  constructor
  · rintro ⟨ip, text, magicDns, name, hliteral, rfl, rfl⟩
    refine ⟨hliteral, ?_⟩
    simp only [dialogHost]
    cases htext : toIntOrNull text.toList with
    | none => decide
    | some p => exact isInt_of_toIntOrNull htext
  · rintro ⟨hliteral, hp⟩
    have htrim := trim_literal (Cgnat.parseIpv4Literal_isSome.mp hliteral)
    refine ⟨address, toString p, "", "", by rwa [htrim], htrim, ?_⟩
    rw [dialogHost, toIntOrNull_toString hp, Option.getD_some]

theorem savedByLink_iff (hapi : api.Documented) : SavedByLink api address p ↔
    (Cgnat.parseIpv4Literal address).isSome = true ∧ 1 ≤ p ∧ p ≤ 65535 := by
  simp only [SavedByLink, saves_scan]
  constructor
  · rintro ⟨raw, host, hparse, rfl, rfl⟩
    have hadmitted := UrcUri.admitted_of_parse hparse
    exact ⟨hadmitted.literal, hadmitted.port⟩
  · rintro ⟨hliteral, hlow, hhigh⟩
    have hname : Kotlin.Trimmed "PC" :=
      ⟨by decide, by rintro _ ⟨⟩; decide, by rintro _ ⟨⟩; decide⟩
    have hport : (UInt16.ofNat p.toNat).toNat = p.toNat := by
      rw [UInt16.toNat_ofNat']
      omega
    have hne : UInt16.ofNat p.toNat ≠ 0 := by
      intro h0
      rw [h0] at hport
      have h0' : (0 : UInt16).toNat = 0 := rfl
      omega
    have haddress := Cgnat.parseIpv4Literal_isSome.mp hliteral
    have hparse := parse_buildUri api hapi haddress hne hname hname
    have hpos : (p.toNat : ℤ) = p := Int.toNat_of_nonneg (by omega)
    exact ⟨_, _, hparse, rfl, by rw [hport, hpos]⟩

structure AdmitSame (api : UriApi U) : Prop where
  runs : ∀ es, StaysClean api (new []) es ↔ ∀ e ∈ es, e.Fits
  pairs : ∀ address p, (SavedByHand api address p ↔ SavedByLink api address p) ↔
    (Cgnat.parseIpv4Literal address = none ∨ ¬ IsInt p ∨ 1 ≤ p ∧ p ≤ 65535)

/-- Only admitted hosts are stored in a run exactly when every port that is typed behind a literal
address fits, and a pair can be typed and linked alike unless it is a literal and an `Int` that is
no port. -/
theorem admit_same {U : Type} (api : UriApi U) (hapi : api.Documented) : AdmitSame api where
  runs _ := staysClean_iff admits_new
  pairs address p := by
    rw [savedByHand_iff, savedByLink_iff hapi]
    have hint : 1 ≤ p ∧ p ≤ 65535 → IsInt p := by
      unfold IsInt
      omega
    cases Cgnat.parseIpv4Literal address with
    | none => simp
    | some octets =>
      simp only [Option.isSome_some, true_and, reduceCtorEq, false_or]
      tauto

theorem admit_same_linkApi : AdmitSame linkApi := admit_same linkApi linkApi_documented

def typed70000 : AppEvent := .addManually "100.64.0.1" "70000" "" ""

/-- The host is stored with the port 70000, which no link can store. -/
theorem typed70000_stored :
    (run (step linkApi) (new []) [typed70000, .run 0 true]).store =
        [⟨"100.64.0.1", 70000, none, none⟩] ∧
      ¬ Host.Admitted ⟨"100.64.0.1", 70000, none, none⟩ ∧
      SavedByHand linkApi "100.64.0.1" 70000 ∧ ¬ SavedByLink linkApi "100.64.0.1" 70000 := by
  refine ⟨by decide +kernel, fun h => absurd h.port.2 (by decide), ?_, ?_⟩
  · exact savedByHand_iff.mpr ⟨by decide +kernel, by decide⟩
  · rintro hlink
    exact absurd ((savedByLink_iff linkApi_documented).mp hlink).2.2 (by decide)

end AndroidApp

end Urc
