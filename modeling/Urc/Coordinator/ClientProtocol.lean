import Urc.Common.Wire
import Urc.Coordinator.Connect

/-! # What the coordinator says to a client

A client reads every text frame as a `CoordinatorMessage`, and counts on one answer for each
`Connect`. The answers come one for one. The frame behind a `ConnectOk` is a message only for a
host without a Tailscale address; for the others it is a sentence for people.
-/

namespace Urc

open Transition

def Message.decode : Message → Option CoordinatorMessage
  | .text t => parseWsMessage t
  | _ => none

@[simp] theorem Message.decode_ofMessage (m : CoordinatorMessage) :
    (Message.ofMessage m).decode = some m := rfl

/-- All that a client can read in the frame is a hint for the session. -/
def HintFor (id : Uuid) (m : Message) : Prop :=
  ∀ msg, m.decode = some msg → ∃ addr, msg = .relayHint id addr

/-- The frames that answer one `Connect`. -/
inductive ConnectReply : List Message → Prop
  | refused (reason : String) : ConnectReply [.ofMessage (CoordinatorMessage.connectErr reason)]
  | accepted {id : Uuid} {mode : RelayMode} {hints : List Message} (h : ∀ m ∈ hints, HintFor id m) :
      ConnectReply (.ofMessage (CoordinatorMessage.connectOk id mode) :: hints)

theorem hintFor_hint (a : AgentRecord) (id : Uuid) : HintFor id (hint a id) := by
  intro msg hmsg
  cases hip : a.tailscaleIp with
  | none =>
    simp only [hint, hip, Message.decode_ofMessage, Option.some_inj] at hmsg
    exact ⟨_, hmsg.symm⟩
  | some ip =>
    simp only [hint, hip] at hmsg
    cases hmsg

/-- A client can read the hint just when the host has no Tailscale address. -/
theorem decode_hint_iff (a : AgentRecord) (id : Uuid) :
    (hint a id).decode.isSome = true ↔ a.tailscaleIp = none := by
  cases hip : a.tailscaleIp with
  | none => simp [hint, hip]
  | some ip => simp [hint, hip, Message.decode, parseWsMessage]

/-- The sentence is no JSON, so no family reads a message from it. -/
theorem wsText_sentence (s : String) : JsonCodec.compact.wsText
    ("Direct connect: vncviewer " ++ s) = .other ("Direct connect: vncviewer " ++ s) := by
  have hparse : JsonCodec.compact.parse ("Direct connect: vncviewer " ++ s) = none := by
    simp [JsonCodec.compact, JsonText.read, JsonText.readValue, JsonText.skipSpaces,
      JsonText.isSpace, JsonText.readNumber, JsonText.isNumberChar, JsonText.isNumber]
  simp [JsonCodec.wsText, JsonCodec.parseWsMessage, hparse]

theorem hint_eq_wsText {a : AgentRecord} {id : Uuid} {ip : String} (h : a.tailscaleIp = some ip) :
    ∃ s, hint a id = .text (JsonCodec.compact.wsText ("Direct connect: vncviewer " ++ s)) := by
  refine ⟨ip ++ ":" ++ toString a.vncLocalPort.toNat ++
    " (TLS port " ++ toString defaultTlsListenPort.toNat ++ ")", ?_⟩
  rw [wsText_sentence]
  simp only [hint, h, String.append_assoc]

/-- The steps that the task still takes before it reads the next frame. -/
def ClientPc.stepsLeft : ClientPc → ℕ
  | .gotAgent .. => 4
  | .gotTx .. => 3
  | .announced .. => 2
  | .created .. => 1
  | _ => 0

theorem ClientPc.unanswered_of_stepsLeft {pc : ClientPc} (h : pc.stepsLeft = 0) :
    pc.unanswered = 0 := by
  cases pc <;> first | rfl | cases h

/-- The frames of a task are the answers to the `Connect`s that it has read, in their order, up
to the one it works on. -/
structure Answered (k : ClientConn) (replies : List (List Message)) : Prop where
  out : k.out = replies.flatten
  reply : ∀ r ∈ replies, ConnectReply r
  count : replies.length + k.pc.unanswered = k.connects

theorem Answered.goto {k : ClientConn} {pc : ClientPc} {replies : List (List Message)}
    (h : Answered k replies) (hu : pc.unanswered = k.pc.unanswered) :
    Answered { k with pc := pc } replies := by
  refine ⟨h.out, h.reply, ?_⟩
  rw [← h.count]
  exact congrArg _ hu

theorem Answered.snoc {k : ClientConn} {pc : ClientPc} {replies : List (List Message)}
    {r : List Message} {n : ℕ} (h : Answered k replies) (hr : ConnectReply r)
    (hn : replies.length + 1 + pc.unanswered = n) :
    Answered ⟨pc, k.out ++ r, n⟩ (replies ++ [r]) where
  out := by simp [h.out]
  reply := by simpa [or_imp, forall_and] using ⟨h.reply, hr⟩
  count := by simpa using hn

namespace Server

def serving (state : AppState) : Server := { Server.new state.secret with state := state }

/-- The client behind a socket understands every frame, finds its `Connect`s answered one for one,
and waits for the last answer at most four steps of its task. -/
structure Spoken (s : Server) (c : ConnId) : Prop where
  decodes : ∀ m ∈ (s.clients c).out, m.decode.isSome = true
  answers : ∃ replies, Answered (s.clients c) replies
  settles : ((run step s (.replicate 4 (.clientStep c))).clients c).pc.unanswered = 0

/-- No `Connect` is answered from a record with a Tailscale address. -/
def AnswersRelayed (s : Server) : Event → Prop
  | .clientStep c => ∀ a id, (s.clients c).pc = .created a id → a.tailscaleIp = none
  | _ => True

variable {s s' : Server} {e : Event} {c d : ConnId}

theorem stepsLeft_clientStep (s : Server) (c : ConnId) :
    ((s.clientStep c).clients c).pc.stepsLeft = (s.clients c).pc.stepsLeft - 1 := by
  cases hpc : (s.clients c).pc with
  | gotAgent hostId agent id => simp [clientStep, hpc, setClient_clients, ClientPc.stepsLeft]
  | gotTx agent id tx => simp [clientStep, hpc, setClient_clients, ClientPc.stepsLeft]
  | announced agent id => simp [clientStep, hpc, setClient_clients, ClientPc.stepsLeft]
  | created agent id => simp [clientStep, hpc, setClient_clients, ClientPc.stepsLeft]
  | unopened => simp [clientStep, hpc, ClientPc.stepsLeft]
  | reading => simp [clientStep, hpc, ClientPc.stepsLeft]
  | returned => simp [clientStep, hpc, ClientPc.stepsLeft]

theorem stepsLeft_run (s : Server) (c : ConnId) (n : ℕ) :
    ((run step s (.replicate n (.clientStep c))).clients c).pc.stepsLeft =
      (s.clients c).pc.stepsLeft - n := by
  induction n generalizing s with
  | zero => rfl
  | succ n ih =>
    rw [List.replicate_succ, run_cons, ih]
    have hone : ((s.step (.clientStep c)).clients c).pc.stepsLeft =
        (s.clients c).pc.stepsLeft - 1 := stepsLeft_clientStep s c
    omega

theorem settles (s : Server) (c : ConnId) :
    ((run step s (.replicate 4 (.clientStep c))).clients c).pc.unanswered = 0 := by
  apply ClientPc.unanswered_of_stepsLeft
  rw [stepsLeft_run]
  cases (s.clients c).pc <;> rfl

/-- Every frame so far is one that the client can read, and every `Connect` before the last is
answered. -/
structure Conforms (k : ClientConn) : Prop where
  decodes : ∀ m ∈ k.out, m.decode.isSome = true
  answers : ∃ replies, Answered k replies

theorem conforms_new : Conforms ⟨.unopened, [], 0⟩ :=
  ⟨by simp, [], rfl, by simp, rfl⟩

theorem conforms_move (h : ∀ c, Conforms (s.clients c)) (hm : Move s e s')
    (hg : AnswersRelayed s e) : ∀ c, Conforms (s'.clients c) := by
  intro d
  have hset : ∀ {c : ConnId} {k : ClientConn}, s'.clients = (s.setClient c k).clients →
      Conforms k → Conforms (s'.clients d) := fun hs hk =>
    of_setClient (P := Conforms) hs (h d) fun _ => hk
  have hgoto : ∀ {c : ConnId} {pc : ClientPc},
      s'.clients = (s.setClient c { s.clients c with pc := pc }).clients →
      pc.unanswered = (s.clients c).pc.unanswered → Conforms (s'.clients d) := by
    intro c pc hs hu
    obtain ⟨replies, ha⟩ := (h c).answers
    exact hset hs ⟨(h c).decodes, replies, ha.goto hu⟩
  cases hm with
  | clientOpen hpc => exact hset rfl ⟨by simp, [], rfl, by simp, rfl⟩
  | @refuse c hostId token id reason hpc ht =>
    obtain ⟨replies, ha⟩ := (h c).answers
    have hcount := ha.count
    rw [hpc] at hcount
    refine hset rfl ⟨fun m hm => ?_, _, ha.snoc (.refused reason) ?_⟩
    · rcases List.mem_append.mp hm with hm | hm
      · exact (h c).decodes m hm
      · rw [List.mem_singleton.mp hm, Message.decode_ofMessage, Option.isSome_some]
    · rw [hpc]
      simp only [ClientPc.unanswered] at hcount ⊢
      omega
  | @connect c hostId token id agent hpc ht ha hid =>
    obtain ⟨replies, ha⟩ := (h c).answers
    have hcount := ha.count
    rw [hpc] at hcount
    refine hset rfl ⟨(h c).decodes, replies, ha.out, ha.reply, ?_⟩
    simp only [ClientPc.unanswered] at hcount ⊢
    omega
  | clientLeave hpc he => exact hgoto rfl (by rw [hpc]; rfl)
  | lookupTx hpc => exact hgoto rfl (by rw [hpc]; rfl)
  | announce hpc => exact hgoto rfl (by rw [hpc]; rfl)
  | skip hpc => exact hgoto rfl (by rw [hpc]; rfl)
  | create hpc => exact hgoto rfl (by rw [hpc]; rfl)
  | @answer c agent id hpc =>
    obtain ⟨replies, ha⟩ := (h c).answers
    have hcount := ha.count
    rw [hpc] at hcount
    have hip : agent.tailscaleIp = none := hg agent id hpc
    refine hset rfl ⟨fun m hm => ?_, _, ha.snoc (.accepted ?_) ?_⟩
    · rcases List.mem_append.mp hm with hm | hm
      · exact (h c).decodes m hm
      · rcases List.mem_cons.mp hm with rfl | hm
        · rfl
        · rw [List.mem_singleton.mp hm, decode_hint_iff]
          exact hip
    · intro m hm
      rw [List.mem_singleton.mp hm]
      exact hintFor_hint agent id
    · simp only [ClientPc.unanswered] at hcount ⊢
      omega
  | _ => exact h d

/-- A frame that the client could not read is a hint with a Tailscale address. -/
theorem answersRelayed_of_decodes
    (h : ∀ c, ∀ m ∈ ((s.step e).clients c).out, m.decode.isSome = true) : AnswersRelayed s e := by
  cases e with
  | clientStep c =>
    intro a id hpc
    have hhint : hint a id ∈ ((s.step (.clientStep c)).clients c).out := by
      simp [step, clientStep, hpc, setClient_clients]
    exact (decode_hint_iff a id).mp (h c _ hhint)
  | _ => trivial

/-- Whatever the registry and the frames, the coordinator speaks the protocol to its clients just
as long as no `Connect` is answered from a record with a Tailscale address. -/
theorem spoken_iff (state : AppState) (es : List Event) :
    Always step (fun s => ∀ c, Spoken s c) (.serving state) es ↔
      Steps step AnswersRelayed (.serving state) es := by
  have hstep : ∀ s e, (∀ c, Conforms (s.clients c)) → AnswersRelayed s e →
      ∀ c, Conforms ((s.step e).clients c) := fun s e h hg => conforms_move h (step_move s e) hg
  have hspoken : ∀ s : Server, (∀ c, Conforms (s.clients c)) → ∀ c, Spoken s c := fun s h c =>
    ⟨(h c).decodes, (h c).answers, settles s c⟩
  have hexact : ∀ s e, (∀ c, Conforms (s.clients c)) → (∀ c, Spoken (s.step e) c) →
      AnswersRelayed s e := fun s e _ h => answersRelayed_of_decodes fun c => (h c).decodes
  exact always_iff_steps_of_all hstep hspoken hexact fun _ => conforms_new

/-- A host with a Tailscale address: the frame after `ConnectOk` is a sentence. -/
theorem not_spoken : ¬ ∀ (state : AppState) (es : List Event),
    Always step (fun s => ∀ c, Spoken s c) (.serving state) es := by
  intro h
  let es : List Event := [.agentOpen 0, .agentFrame 0 (.ofMessage (AgentMessage.register "desk" "t"
    (some "100.64.0.7") 5900)) 0, .agentStep 0, .clientOpen 0, .clientFrame 0
    (.ofMessage (ClientMessage.connect "desk" "t")) ⟨7⟩, .clientStep 0, .clientStep 0,
    .clientStep 0, .clientStep 0]
  have hout : .text (.other "Direct connect: vncviewer 100.64.0.7:5900 (TLS port 15900)") ∈
      ((run step (.serving (.new "t")) es).clients 0).out := by decide +kernel
  have hdecode := (h (.new "t") es _ List.prefix_rfl 0).decodes _ hout
  cases hdecode

end Server

end Urc
