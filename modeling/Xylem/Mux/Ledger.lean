import Xylem.Mux.Shape

namespace Xylem.Mux

open Event WritePc List UInt32 FrameWrite Mux.Stream ReadPc

/-- Bytes of the current write that are sent and not yet taken off the send window. -/
def WritePc.pending : WritePc → Nat
  | .frame _ fw => if fw.pc.sent then fw.frame.data.length else 0
  | .deduct _ chunk => chunk
  | _ => 0

def WritePc.unsent : WritePc → List UInt8
  | .loop rest | .commit rest | .parked rest => rest
  | .frame rest fw => if fw.pc.sent then rest.drop fw.frame.data.length else rest
  | .deduct rest chunk => rest.drop chunk
  | _ => []

/-- A window increment the reader has booked and not yet sent. -/
def ReadPc.owed : ReadPc → UInt32
  | .frame _ fw => if fw.pc.sent then 0 else fw.frame.hdr.length
  | _ => 0

/-- The books of one stream: each window counter against the histories of the stream, in
32-bit arithmetic, and each buffer against the bytes that passed through it. -/
structure Slot.Ledger (window : UInt32) (slot : Slot) : Prop where
  send : slot.s.sendWindow + UInt32.ofNat (dataOf (eventsOf slot.tx)).length =
    window + UInt32.ofNat (creditOf slot.rx) + UInt32.ofNat (grantOf slot.rx) + UInt32.ofNat slot.wr.pending
  recv : slot.s.recvWindow + UInt32.ofNat (dataOf slot.rx).length =
    window + UInt32.ofNat (creditOf (eventsOf slot.tx)) + slot.rd.owed
  gap : slot.s.unannounced window = 0 ∨ slot.s.unannounced window < window / 2
  input : slot.delivered ++ slot.s.recvBuf = dataOf slot.rx
  output : dataOf (eventsOf slot.tx) ++ slot.wr.unsent = slot.written ∨
    slot.s.closed = true ∧ dataOf (eventsOf slot.tx) <+: slot.written ∧ slot.wr.pending = 0 ∧
      ∀ rest fw, slot.wr ≠ .frame rest fw
/-- The life cycle of a stream's state and what it remembers of the peer's FIN. -/
structure Slot.Lifecycle (slot : Slot) : Prop where
  live : slot.s.state ≠ .init ∧ slot.s.state ≠ .synSent
  closing : slot.s.state = .localClose ∨ slot.s.state = .closed → slot.s.closed = true
  closer : slot.cl ≠ .idle → slot.s.closed = true
  finSeen : Event.fin ∈ slot.rx → slot.s.state = .remoteClose ∨ slot.s.state = .closed

section Steps

variable {window : UInt32} {free ok : Bool} {slot slot' : Slot} {eff : Effect}

theorem Slot.Ledger.fresh {s : Stream} {op : OpenPc} (buffer : s.recvBuf = []) (send : s.sendWindow = window)
    (recv : s.recvWindow = window) : (Slot.fresh s op).Ledger window where
  send := by simp [Slot.fresh, send, pending]
  recv := by simp [Slot.fresh, recv, owed]
  gap := .inl (by simp [Slot.fresh, unannounced, buffer, recv])
  input := by simp [Slot.fresh, buffer]
  output := .inl (by simp [Slot.fresh, unsent])

section

variable (led : slot.Ledger window)
include led

theorem Slot.Ledger.sendPlain {frame : Frame} {event : Event}
    (events : frame.events = [event]) (plain : event.payload = [] ∧ event.increment = 0) :
    Slot.Ledger window { slot with tx := slot.tx ++ [frame] } where
  __ := led
  send := by simpa [events, plain.1] using led.send
  recv := by simpa [events, plain.2] using led.recv
  output := by simpa [events, plain.1] using led.output

section

variable (shape : slot.Shape window)
include shape

theorem OpenMove.ledger (move : OpenMove free ok slot slot' eff) : slot'.Ledger window := by
  cases move with
  | @frame fw fw' eff at_ step =>
    have history := shape.history
    rw [at_] at history
    obtain ⟨_, _, ⟨none, _⟩ | ⟨one, _, _⟩⟩ := step_sends step
    · simp only [none, append_nil]
      exact { led with }
    · cases history with
      | opening syn _ _ =>
        rw [one, syn]
        exact { led.sendPlain (events_syn slot.s.id window) ⟨rfl, rfl⟩ with }
  | unlock | abandon => exact { led with }

theorem ReadMove.ledger (move : ReadMove window free ok slot slot' eff) : slot'.Ledger window := by
  have recv := led.recv
  cases move with
  | @take len bytes rest at_ split gap =>
    exact { led with
      recv := by simpa only [at_, owed] using recv
      gap := .inr gap
      input := by simpa [split] using led.input }
  | @announce len bytes rest delta at_ split booked =>
    simp only [at_, owed] at recv
    exact { led with
      recv := by
        simp only [owed, FramePc.sent, windowUpdateHdr]
        grind only
      gap := .inl (by
        simp only [unannounced] at booked ⊢
        grind only)
      input := by simpa [split] using led.input }
  | @frame n fw fw' eff at_ step =>
    obtain ⟨delta, update⟩ := shape.rdFrame n fw at_
    obtain ⟨same, _, ⟨none, sent⟩ | ⟨one, before, after⟩⟩ := step_sends step
    · simp only [none, append_nil]
      exact { led with recv := by simpa only [at_, owed, sent, same] using recv }
    · have booked : fw.frame.hdr.length = delta := by rw [update]; rfl
      simp only [at_, owed, before, booked] at recv
      exact { led with
        send := by simpa [one, update, payload] using led.send
        recv := by
          simp only [one, update, eventsOf_append, eventsOf_cons, eventsOf_nil, events_update, creditOf_append,
            append_nil, creditOf_singleton, increment, ofNat_add, UInt32.ofNat_toNat,
            owed, after]
          grind only
        output := by simpa [one, update, payload] using led.output }
  | @unlock n fw sent at_ pc =>
    exact { led with recv := by simpa [at_, owed, pc, FramePc.sent] using recv }
  | empty at_ | finish at_ | wait at_ | park at_ | retry at_ | ret at_ =>
    exact { led with recv := by simpa only [at_, owed, Slot.unref, muxStreamUnref] using recv }

theorem WriteMove.ledger (life : slot.Lifecycle) (move : WriteMove free ok slot slot' eff) : slot'.Ledger window := by
  have send := led.send
  have output := led.output
  cases move with
  | @refuse rest at_ why =>
    have closed : slot.s.closed = true := why.elim id fun state => life.closing (.inr state)
    simp only [at_, pending, unsent] at send output
    refine { led with send := send, output := .inr ⟨closed, ?_, rfl, nofun⟩ }
    exact output.elim (fun all => ⟨rest, all⟩) fun part => part.2.1
  | @frame rest fw fw' eff at_ step =>
    obtain ⟨_, chunk, positive, fits, _, frame⟩ := shape.wrFrame rest fw at_
    obtain ⟨same, _, ⟨none, sent⟩ | ⟨one, before, after⟩⟩ := step_sends step
    · simp only [none, append_nil]
      exact { led with
        send := by simpa only [at_, pending, sent, same] using send
        output := by simpa [at_, unsent, pending, sent, same] using output }
    · have length : (rest.take chunk).length = chunk := by simp [fits]
      have events := events_data slot.s.id (UInt32.ofNat chunk)
        (ne_nil_of_length_pos (l := rest.take chunk) (by omega))
      rw [← frame] at events
      have data : fw'.frame.data.length = chunk := by rw [same, frame, length]
      simp only [at_, pending, unsent, before] at send output
      exact { led with
        send := by
          simp only [one, eventsOf_append, eventsOf_cons, eventsOf_nil, events, append_nil, dataOf_append,
            dataOf_singleton, payload, length_append, length, pending, after, data,
            ofNat_add]
          grind only
        recv := by simpa [one, events, increment] using led.recv
        output := by
          refine .inl ?_
          have all := output.resolve_right fun part => part.2.2.2 rest fw rfl
          simp only [one, eventsOf_append, eventsOf_cons, eventsOf_nil, events, append_nil, dataOf_append,
            dataOf_singleton, payload, unsent, after, data, append_assoc, if_true,
            take_append_drop]
          simpa using all }
  | @unlock rest fw sent at_ pc =>
    cases sent with
    | false => exact absurd pc (shape.wrFrame rest fw at_).1
    | true =>
      have all := output.resolve_right fun part => part.2.2.2 rest fw at_
      exact { led with
        send := by simpa [at_, pending, pc, FramePc.sent] using send
        output := .inl (by simpa [at_, unsent, pc, FramePc.sent] using all) }
  | @deduct rest n at_ =>
    simp only [at_, pending, unsent] at send output
    rcases writeNext_cases (rest.drop n) with ⟨next, left⟩ | ⟨next, left⟩ <;> rw [next] <;>
      exact { led with
        send := by simp only [pending]; grind only
        output := by simpa [pending, unsent, left] using output.imp id fun part => ⟨part.1, part.2.1⟩ }
  | @chunk rest n at_ live =>
    simp only [at_, pending, unsent] at send output
    have all := output.resolve_right fun part => by simp [live] at part
    exact { led with send := by simpa [pending, FramePc.sent] using send, output := .inl (by
      simpa [unsent, FramePc.sent] using all) }
  | full at_ | retry at_ | park at_ | ret at_ =>
    exact { led with
      send := by simpa only [at_, pending, Slot.unref, muxStreamUnref] using send
      output := by simpa [at_, unsent, pending, Slot.unref, muxStreamUnref] using output }

theorem CloseMove.ledger (move : CloseMove free ok slot slot' eff) : slot'.Ledger window := by
  cases move with
  | @frame fw fw' eff at_ step =>
    obtain ⟨_, _, ⟨none, _⟩ | ⟨one, _, _⟩⟩ := step_sends step
    · simp only [none, append_nil]
      exact { led with }
    · rw [one, (shape.clFrame fw at_).1]
      exact { led.sendPlain (events_fin slot.s.id) ⟨rfl, rfl⟩ with }
  | wakeRecv at_ parked => exact { led with recv := by simpa only [parked, owed] using led.recv }
  | wakeSend at_ parked =>
    exact { led with
      send := by simpa only [parked, pending] using led.send
      output := by simpa [parked, pending, unsent] using led.output }
  | state | lock | skip | unlock | ret => exact { led with }

end

namespace Slot.Ledger

theorem readyRecv (woken : slot.readyRecv = some slot') : slot'.Ledger window := by
  obtain ⟨len, parked, rfl⟩ := Slot.readyRecv_some woken
  exact { led with recv := by simpa only [parked, owed] using led.recv }

theorem readySend (woken : slot.readySend = some slot') : slot'.Ledger window := by
  obtain ⟨rest, parked, rfl⟩ := Slot.readySend_some woken
  exact { led with
    send := by simpa only [parked, pending] using led.send
    output := by simpa [parked, pending, unsent] using led.output }

theorem readStart {len : Int} (started : slot.readStart len = some slot') : slot'.Ledger window := by
  obtain ⟨allowed, rfl⟩ := Slot.readStart_some started
  exact { led with recv := by simpa only [allowed.2.1, owed, Slot.ref, muxStreamRef] using led.recv }

theorem writeStart {bytes : List UInt8} (started : slot.writeStart bytes = some slot') : slot'.Ledger window := by
  obtain ⟨allowed, rfl⟩ := Slot.writeStart_some started
  have send := led.send
  have output := led.output
  simp only [allowed.2.1, pending, unsent, append_nil] at send output
  refine { led with send := send, output := output.imp ?_ ?_ }
  · exact fun all => by simp [Slot.ref, unsent, all]
  · exact fun part => ⟨part.1, part.2.1.trans (prefix_append _ _), rfl, by simp⟩

theorem closeStart (started : slot.closeStart = some slot') : slot'.Ledger window := by
  obtain ⟨_, ⟨_, rfl⟩ | ⟨_, rfl⟩⟩ := Slot.closeStart_some started
  · exact { led with }
  · exact { led with output := led.output.imp id fun part => ⟨rfl, part.2⟩ }

theorem pushData (bytes : List UInt8) : (slot.pushData bytes).1.Ledger window := by
  have recv := led.recv
  have input := led.input
  unfold Slot.pushData muxStreamPushData
  split
  · rename_i empty
    exact { led with
      send := by simpa [increment, grant] using led.send
      recv := by simpa [payload, empty] using led.recv
      input := by simpa [payload, empty] using led.input }
  · exact { led with
      send := by simpa [increment, grant] using led.send
      recv := by
        simp only [dataOf_append, dataOf_singleton, payload, length_append, ofNat_add]
        grind only
      gap := by
        have same : unannounced window slot.s = unannounced window { slot.s with
            recvBuf := slot.s.recvBuf ++ bytes, recvWindow := slot.s.recvWindow - UInt32.ofNat bytes.length } := by
          simp only [unannounced, length_append, ofNat_add]
          grind only
        have gap := led.gap
        rw [same] at gap
        exact gap
      input := by simp [← input, payload] }

theorem updateSendWindow (hdr : FrameHdr) : (slot.updateSendWindow hdr).1.Ledger window := by
  have send := led.send
  unfold Slot.updateSendWindow muxStreamUpdateSendWindow FrameHdr.creditEvent
  split
  all_goals
    exact { led with
      send := by
        simp only [creditOf_append, creditOf_singleton, grantOf_append, grantOf_singleton, increment,
          grant, ofNat_add, UInt32.ofNat_toNat]
        grind only
      recv := by simpa [payload] using led.recv
      input := by simpa [payload] using led.input }

theorem notifyRemoteFin : slot.notifyRemoteFin.1.Ledger window := { led with
    send := by simpa [Slot.notifyRemoteFin, muxStreamNotifyRemoteFin, increment, grant] using led.send
    recv := by simpa [Slot.notifyRemoteFin, muxStreamNotifyRemoteFin, payload] using led.recv
    input := by simpa [Slot.notifyRemoteFin, muxStreamNotifyRemoteFin, payload] using led.input }

end Slot.Ledger

end

end Steps

end Xylem.Mux
