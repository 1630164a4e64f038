import Urc.Common.Message
import Urc.Library.Splice

/-! # Loops between a WebSocket and a socket

One loop of each bridge writes what frames carry to a socket, up to a close frame; the other sends
what it reads from the socket in binary frames.
-/

namespace Urc

open Splice

/-! ### The frames of a peer -/

def receiveFrame (p : Pipe Message) (m : Message) : Pipe Message :=
  if m = .close ∧ p.isOver = false then (p.receive [m]).finish else p.receive [m]

@[simp] theorem broken_receiveFrame (p : Pipe Message) (m : Message) :
    (receiveFrame p m).broken = p.broken := by
  unfold receiveFrame
  split <;> exact Pipe.broken_receive p [m]

@[simp] theorem taken_receiveFrame (p : Pipe Message) (m : Message) :
    (receiveFrame p m).taken = p.taken := by
  unfold receiveFrame
  split <;> exact Pipe.taken_receive p [m]

theorem sent_receiveFrame (p : Pipe Message) (m : Message) :
    (receiveFrame p m).sent = p.sent ∨ (receiveFrame p m).sent = p.sent ++ [m] := by
  have hreceive : (p.receive [m]).sent = p.sent ∨ (p.receive [m]).sent = p.sent ++ [m] := by
    unfold Pipe.receive
    split
    · exact .inl rfl
    · exact .inr (Pipe.sent_put p [m])
  unfold receiveFrame
  split <;> exact hreceive

theorem steps_receiveFrame {β γ : Type} (c : Copier Message β γ) (h : Half Message β)
    (m : Message) :
    Relation.ReflTransGen (Half.Step c) h { h with src := receiveFrame h.src m } := by
  have hreceive := Half.steps_receive c h [m]
  unfold receiveFrame
  split
  · exact hreceive.tail .finish
  · exact hreceive

/-- A close frame is the last frame of a peer, and the end of its direction. -/
structure ClosesLast (p : Pipe Message) : Prop where
  ended : .close ∈ p.sent ↔ p.ended = true
  last : .close ∉ p.sent.dropLast

theorem closesLast_new : ClosesLast .new := ⟨⟨nofun, nofun⟩, nofun⟩

theorem ClosesLast.congr {p p' : Pipe Message} (h : ClosesLast p) (hsent : p'.sent = p.sent)
    (hended : p'.ended = p.ended) : ClosesLast p' :=
  ⟨by rw [hsent, hended, h.ended], hsent ▸ h.last⟩

theorem ClosesLast.receiveFrame {p : Pipe Message} (h : ClosesLast p) (m : Message) :
    ClosesLast (receiveFrame p m) := by
  cases ho : p.isOver with
  | true =>
    have hsame : Urc.receiveFrame p m = p := by
      rw [Urc.receiveFrame, if_neg (by simp [ho]), Pipe.receive, if_pos ho]
    rwa [hsame]
  | false =>
    have hput : p.receive [m] = p.put [m] := by
      rw [Pipe.receive, if_neg (by simp [ho])]
    have hopen : .close ∉ p.sent := by
      intro hmem
      rw [Pipe.isOver, h.ended.mp hmem] at ho
      cases ho
    have hlast : .close ∉ (p.sent ++ [m]).dropLast := by
      rwa [List.dropLast_concat]
    unfold Urc.receiveFrame
    rw [hput]
    split
    · next hm =>
      refine ⟨⟨fun _ => rfl, fun _ => ?_⟩, by simpa using hlast⟩
      rw [Pipe.sent_finish, Pipe.sent_put, hm.1]
      exact List.mem_append_right _ (List.mem_singleton_self _)
    · next hm =>
      have hm : m ≠ .close := fun he => hm ⟨he, ho⟩
      refine ⟨?_, by simpa using hlast⟩
      rw [Pipe.sent_put, List.mem_append, List.mem_singleton, or_iff_left hm.symm]
      exact h.ended

/-- Behind a close frame nothing is left to read. -/
theorem ClosesLast.queue_eq_nil {p : Pipe Message} (h : ClosesLast p) (hmem : .close ∈ p.taken) :
    p.queue = [] := by
  by_contra hne
  refine h.last ?_
  rw [Pipe.sent, List.dropLast_append_of_ne_nil hne]
  exact List.mem_append_left _ hmem

/-! ### The two loops -/

/-- What the loops make of a frame; a close frame carries nothing, and a binary frame its bytes. -/
structure Payload where
  of : Message → List UInt8
  close : of .close = []
  ping : of (.ping []) = []
  binary : ∀ b, of (.binary b) = b

namespace Payload

variable (p : Payload)

/-- The bytes to write for frames; at a close frame the loop is left. -/
def unframe : List Message → Option (List UInt8)
  | [.close] => none
  | frames => some (frames.flatMap p.of)

theorem unframe_eq_some {frames : List Message} {bytes : List UInt8}
    (h : p.unframe frames = some bytes) : bytes = frames.flatMap p.of := by
  unfold unframe at h
  split at h
  · cases h
  · exact (Option.some.inj h).symm

theorem unframe_eq_none {frames : List Message} (h : p.unframe frames = none) :
    frames = [.close] := by
  unfold unframe at h
  split at h
  · rfl
  · cases h

theorem length_unframe {frames : List Message} {bytes : List UInt8}
    (h : p.unframe frames = some bytes) : bytes.length ≤ (frames.flatMap p.of).length :=
  (congrArg List.length (p.unframe_eq_some h)).le

theorem load_unframe {frames : List Message} {bytes : List UInt8}
    (h : p.unframe frames = some bytes) : bytes.flatMap (fun x => [x]) = frames.flatMap p.of := by
  rw [p.unframe_eq_some h]
  exact List.flatMap_singleton' _

theorem load_stop {frames : List Message} (h : p.unframe frames = none) :
    frames.flatMap p.of = [] := by
  rw [p.unframe_eq_none h]
  exact (List.append_nil _).trans p.close

def reader : Copier Message UInt8 UInt8 :=
  ⟨1, p.unframe, p.of, fun x => [x], Nat.one_pos, fun _ _ => p.load_unframe, fun _ => p.load_stop,
    fun _ _ _ => p.length_unframe⟩

def enframe (bytes : List UInt8) : Option (List Message) := some [.binary bytes]

theorem load_enframe {bytes : List UInt8} {frames : List Message}
    (h : enframe bytes = some frames) :
    frames.flatMap p.of = bytes.flatMap fun x => [x] := by
  cases h
  exact ((List.append_nil _).trans (p.binary bytes)).trans (List.flatMap_singleton' _).symm

theorem enframe_ne_none {bytes : List UInt8} (h : enframe bytes = none) :
    bytes.flatMap (fun x => [x]) = [] := nomatch h

theorem length_enframe {bytes : List UInt8} {frames : List Message} (hne : bytes ≠ [])
    (h : enframe bytes = some frames) :
    frames.length ≤ (bytes.flatMap fun x => [x]).length := by
  cases h
  rw [List.flatMap_singleton']
  exact List.length_pos_iff.mpr hne

/-- The loop that sends what it reads, at most `width + 1` bytes in a frame. -/
def writer (width : ℕ) : Copier UInt8 Message UInt8 :=
  ⟨width + 1, enframe, fun x => [x], p.of, Nat.succ_pos width, fun _ _ => p.load_enframe,
    fun _ => enframe_ne_none, fun _ _ => length_enframe⟩

/-- A reader that was left on connections that work has written all that its peer sent, up to a
close frame. -/
theorem reader_wroteAll {h : Half Message UInt8} (hexact : h.Exact p.reader)
    (hleft : h.Explained p.reader) (hlast : ClosesLast h.src) (hover : h.pc.isOver = true)
    (hsrc : h.src.broken = false) (hdst : h.dst.broken = false) :
    h.src.ended = true ∧ h.dst.sent = h.src.sent.flatMap p.of := by
  have hlast' : ∀ frames, frames <:+ h.src.taken → p.reader.turn frames = none →
      h.src.queue = [] ∧ h.src.ended = true := by
    intro frames hsuffix hstop
    have hmem : .close ∈ h.src.taken := by
      refine hsuffix.subset ?_
      rw [p.unframe_eq_none hstop]
      exact List.mem_singleton_self _
    exact ⟨hlast.queue_eq_nil hmem, hlast.ended.mp (List.mem_append_left _ hmem)⟩
  obtain ⟨hended, hsent⟩ := hleft.sentAll hexact hlast' hover hsrc hdst
  exact ⟨hended, (List.flatMap_singleton' _).symm.trans hsent⟩

/-- A writer that was left on connections that work has sent all that its source wrote. -/
theorem writer_sentAll {width : ℕ} {h : Half UInt8 Message} (hexact : h.Exact (p.writer width))
    (hleft : h.Explained (p.writer width)) (hover : h.pc.isOver = true)
    (hsrc : h.src.broken = false) (hdst : h.dst.broken = false) :
    h.src.ended = true ∧ h.dst.sent.flatMap p.of = h.src.sent := by
  obtain ⟨hended, hsent⟩ :=
    hleft.sentAll hexact (fun _ _ hstop => nomatch hstop) hover hsrc hdst
  exact ⟨hended, hsent.trans (List.flatMap_singleton' _)⟩

theorem prefix_reader {h : Half Message UInt8} (hexact : h.Exact p.reader) :
    h.dst.taken <+: h.src.sent.flatMap p.of := by
  have hprefix := hexact.prefix_taken
  rwa [show h.dst.taken.flatMap p.reader.load' = h.dst.taken from List.flatMap_singleton' _]
    at hprefix

theorem prefix_writer {width : ℕ} {h : Half UInt8 Message} (hexact : h.Exact (p.writer width)) :
    h.dst.taken.flatMap p.of <+: h.src.sent := by
  have hprefix := hexact.prefix_taken
  rwa [show h.src.sent.flatMap (p.writer width).load = h.src.sent from List.flatMap_singleton' _]
    at hprefix

end Payload

end Urc
