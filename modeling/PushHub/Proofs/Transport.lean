import PushHub.Transport.Line

/-! How often a pipe was closed, and which frames of the client wait in a transport. Only closing it
counts; sending, receiving, letting go of a half, and whatever the peer does leave the count as it is.
What a client has sent is read in order, one frame after the other. -/
namespace PushHub

/-! ## How often a pipe was closed -/

namespace Pipe

@[simp] theorem closeCalls_send (p : Pipe) (f : Frame) : (p.send f).1.closeCalls = p.closeCalls := by
  unfold send
  split
  · rfl
  · split <;> rfl

@[simp] theorem closeCalls_answer (p : Pipe) (f : Frame) :
    (p.answer f).closeCalls = p.closeCalls := by
  cases f with
  | ping bytes =>
    unfold answer
    dsimp only
    split <;> rfl
  | _ => rfl

@[simp] theorem closeCalls_receive (p : Pipe) : p.receive.1.closeCalls = p.closeCalls := by
  unfold receive
  split
  · rfl
  · split
    · simp
    · split <;> rfl

@[simp] theorem closeCalls_peerSend (p : Pipe) (f : Frame) :
    (p.peerSend f).1.closeCalls = p.closeCalls := by
  unfold peerSend
  split <;> rfl

@[simp] theorem closeCalls_peerRead (p : Pipe) : p.peerRead.1.closeCalls = p.closeCalls := by
  unfold peerRead
  split
  · rfl
  · split <;> rfl

end Pipe

def Wire.closeCalls? : Wire → Option Nat
  | .pipe p => some p.closeCalls
  | .socket _ => none

def Line.closeCalls? (l : Line) : Option Nat := l.wire.closeCalls?

namespace Wire

@[simp] theorem closeCalls?_send (w : Wire) (f : Frame) :
    (w.send f).1.closeCalls? = w.closeCalls? := by
  cases w with
  | pipe p => simp [send, closeCalls?]
  | socket s => rfl

@[simp] theorem closeCalls?_receive (w : Wire) : w.receive.1.closeCalls? = w.closeCalls? := by
  cases w with
  | pipe p => simp [receive, closeCalls?]
  | socket s => rfl

end Wire

namespace Line

@[simp] theorem closeCalls?_send (l : Line) (f : Frame) :
    (l.send f).1.closeCalls? = l.closeCalls? := by
  have hw := l.wire.closeCalls?_send f
  unfold send
  split
  · rfl
  · generalize l.wire.send f = o at hw
    obtain ⟨w, r⟩ := o
    cases r with
    | waiting => rfl
    | sent => exact hw
    | failed err => exact hw

@[simp] theorem closeCalls?_receive (l : Line) : l.receive.1.closeCalls? = l.closeCalls? := by
  have hw := l.wire.closeCalls?_receive
  unfold receive
  split
  · rfl
  · generalize l.wire.receive = o at hw
    obtain ⟨w, r⟩ := o
    cases r with
    | waiting => exact hw
    | frame f => exact hw
    | failed err => exact hw

@[simp] theorem closeCalls?_dropSink (l : Line) : l.dropSink.closeCalls? = l.closeCalls? := by
  unfold dropSink closeCalls?
  cases l.wire <;> rfl

@[simp] theorem closeCalls?_dropSource (l : Line) : l.dropSource.closeCalls? = l.closeCalls? := by
  unfold dropSource closeCalls?
  cases l.wire <;> rfl

@[simp] theorem closeCalls?_close (l : Line) :
    l.close.closeCalls? = l.closeCalls?.map (· + 1) := by
  unfold close closeCalls?
  cases l.wire <;> rfl

end Line

/-! ## Frames that wait to be read -/

namespace Pipe

@[simp] theorem fromPeer_send (p : Pipe) (f : Frame) : (p.send f).1.fromPeer = p.fromPeer := by
  unfold send
  split
  · rfl
  · split <;> rfl

@[simp] theorem fromPeer_answer (p : Pipe) (f : Frame) : (p.answer f).fromPeer = p.fromPeer := by
  cases f with
  | ping bytes =>
    unfold answer
    dsimp only
    split <;> rfl
  | _ => rfl

theorem fromPeer_of_received {p : Pipe} {f : Frame} (h : p.receive.2 = .frame f) :
    p.fromPeer = f :: p.receive.1.fromPeer := by
  unfold receive at h ⊢
  split at h
  · cases h
  · rename_i hopen
    rw [if_neg hopen]
    split at h
    · rename_i g rest heq
      cases h
      rw [heq]
      simp
    · split at h <;> cases h

theorem fromPeer_of_waiting {p : Pipe} (h : p.receive.2 = .waiting) : p.fromPeer = [] := by
  unfold receive at h
  split at h
  · cases h
  · split at h
    · cases h
    · rename_i hnone
      exact hnone

theorem fromPeer_receive_le (p : Pipe) : p.receive.1.fromPeer.length ≤ p.fromPeer.length := by
  unfold receive
  split
  · exact Nat.le_refl _
  · split
    · rename_i f rest heq
      simp [heq]
    · split <;> exact Nat.le_refl _

end Pipe

namespace Socket

theorem fromClient_send (s : Socket) (f : Frame) : (s.send f).1.fromClient = s.fromClient := by
  unfold send
  split <;> rfl

@[simp] theorem fromClient_close (s : Socket) : s.close.fromClient = s.fromClient := by
  unfold close
  split <;> rfl

@[simp] theorem fromClient_answer (s : Socket) (f : Frame) :
    (s.answer f).fromClient = s.fromClient := by
  unfold answer
  split
  · split <;> rfl
  · exact s.fromClient_close
  · rfl

theorem fromClient_receive_le (s : Socket) :
    s.receive.1.fromClient.length ≤ s.fromClient.length := by
  unfold receive
  split
  · rename_i f rest heq
    rw [heq]
    dsimp only
    split <;> simp
  · split <;> simp

theorem fromClient_of_received {s : Socket} {f : Frame} (h : s.receive.2 = .frame f) :
    s.fromClient = f :: s.receive.1.fromClient := by
  unfold receive at h ⊢
  split at h
  · rename_i g rest heq
    rw [heq]
    dsimp only at h ⊢
    split at h
    · cases h
    · rename_i hshort
      cases h
      rw [if_neg hshort]
      simp
  · split at h <;> cases h

theorem fromClient_of_waiting {s : Socket} (h : s.receive.2 = .waiting) : s.fromClient = [] := by
  unfold receive at h
  split at h
  · dsimp only at h
    split at h <;> cases h
  · rename_i hnone
    exact hnone

end Socket

namespace Wire

def frames : Wire → List Frame
  | .pipe p => p.fromPeer
  | .socket s => s.fromClient

theorem length_frames (w : Wire) : w.frames.length = w.unread := by
  cases w <;> rfl

theorem unread_congr {w w' : Wire} (hw : w'.frames = w.frames) : w'.unread = w.unread := by
  rw [← length_frames, hw, length_frames]

@[simp] theorem frames_send (w : Wire) (f : Frame) : (w.send f).1.frames = w.frames := by
  cases w with
  | pipe p => exact p.fromPeer_send f
  | socket s => exact s.fromClient_send f

theorem frames_of_received {w : Wire} {f : Frame} (hr : w.receive.2 = .frame f) :
    w.frames = f :: w.receive.1.frames := by
  cases w with
  | pipe p => exact Pipe.fromPeer_of_received hr
  | socket s => exact Socket.fromClient_of_received hr

theorem frames_of_waiting {w : Wire} (hr : w.receive.2 = .waiting) : w.frames = [] := by
  cases w with
  | pipe p => exact Pipe.fromPeer_of_waiting hr
  | socket s => exact Socket.fromClient_of_waiting hr

theorem unread_receive_le (w : Wire) : w.receive.1.unread ≤ w.unread := by
  cases w with
  | pipe p => exact p.fromPeer_receive_le
  | socket s => exact s.fromClient_receive_le

end Wire

namespace Line

theorem frames_send (l : Line) (f : Frame) : (l.send f).1.wire.frames = l.wire.frames := by
  have hw := l.wire.frames_send f
  unfold send
  split
  · rfl
  · generalize l.wire.send f = o at hw
    obtain ⟨w, r⟩ := o
    cases r with
    | waiting => rfl
    | _ => exact hw

theorem frames_of_received {l : Line} {f : Frame} (hr : l.receive.2 = .frame f) :
    l.wire.frames = f :: l.receive.1.wire.frames := by
  have hw := Wire.frames_of_received (w := l.wire) (f := f)
  unfold receive at hr ⊢
  split at hr
  · cases hr
  · rename_i hsound
    rw [if_neg hsound]
    generalize l.wire.receive = o at hr hw
    obtain ⟨w, r⟩ := o
    cases r with
    | frame g =>
      cases hr
      exact hw rfl
    | _ => cases hr

theorem frames_of_waiting {l : Line} (hr : l.receive.2 = .waiting) : l.wire.frames = [] := by
  have hw := Wire.frames_of_waiting (w := l.wire)
  unfold receive at hr
  split at hr
  · cases hr
  · generalize l.wire.receive = o at hr hw
    obtain ⟨w, r⟩ := o
    cases r with
    | waiting => exact hw rfl
    | _ => cases hr

theorem unread_receive_le (l : Line) : l.receive.1.wire.unread ≤ l.wire.unread := by
  have hw := l.wire.unread_receive_le
  unfold receive
  split
  · exact Nat.le_refl _
  · generalize l.wire.receive = o at hw
    obtain ⟨w, r⟩ := o
    cases r <;> exact hw

theorem unread_of_received {l : Line} {f : Frame} (hr : l.receive.2 = .frame f) :
    l.receive.1.wire.unread + 1 = l.wire.unread := by
  rw [← Wire.length_frames, ← Wire.length_frames, frames_of_received hr, List.length_cons]

@[simp] theorem frames_close (l : Line) : l.close.wire.frames = l.wire.frames := by
  obtain ⟨wire, faults⟩ := l
  cases wire with
  | pipe p => rfl
  | socket s => exact s.fromClient_close

@[simp] theorem frames_dropSink (l : Line) : l.dropSink.wire.frames = l.wire.frames := by
  obtain ⟨wire, faults⟩ := l
  cases wire <;> rfl

theorem unread_dropSource_le (l : Line) : l.dropSource.wire.unread ≤ l.wire.unread := by
  obtain ⟨wire, faults⟩ := l
  cases wire with
  | pipe p => exact Nat.zero_le _
  | socket s => exact Nat.le_refl _

end Line

end PushHub
