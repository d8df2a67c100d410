import Xylem.Mux.Slot

namespace Xylem.Mux

open Slot
open Option (map_eq_some_iff)

variable (window : UInt32)

/-- Bytes read and not yet announced, as `xylem_mux_read` computes them. -/
def Stream.unannounced (s : Stream) : UInt32 :=
  window - s.recvWindow - UInt32.ofNat s.recvBuf.length

variable (free ok : Bool) (slot : Slot)

/-- The steps of `xylem_mux_open_stream` on its stream before it publishes it. -/
inductive OpenMove : Slot → Effect → Prop
  | frame {fw fw' eff} : slot.op = .frame fw → fw.step free ok = some (fw', eff) →
      OpenMove { slot with op := .frame fw', tx := slot.tx ++ eff.frames } eff
  | unlock {fw sent} : slot.op = .frame fw → fw.pc = .unlock sent →
      OpenMove { slot with op := if sent then .sent else .abandon } .unlock
  | abandon : slot.op = .abandon → OpenMove { slot.unref with op := .failed } .none

/-- The steps of `xylem_mux_read`. -/
inductive ReadMove : Slot → Effect → Prop
  | take {len bytes rest} : slot.rd = .loop len → slot.s.recvBuf = bytes ++ rest →
      Stream.unannounced window { slot.s with recvBuf := rest } < window / 2 →
      ReadMove { slot with
        s := { slot.s with recvBuf := rest }
        delivered := slot.delivered ++ bytes
        rd := .ret bytes.length } .none
  | announce {len bytes rest} (delta : UInt32) : slot.rd = .loop len → slot.s.recvBuf = bytes ++ rest →
      delta = Stream.unannounced window { slot.s with recvBuf := rest } →
      ReadMove { slot with
        s := { slot.s with recvBuf := rest, recvWindow := slot.s.recvWindow + delta }
        delivered := slot.delivered ++ bytes
        rd := .frame bytes.length ⟨⟨windowUpdateHdr slot.s.id delta, []⟩, .lock⟩ } .none
  | empty {len} : slot.rd = .loop len → slot.s.recvBuf = [] → ReadMove { slot with rd := .check len slot.s.state } .none
  | finish {len seen} : slot.rd = .check len seen →
      ReadMove { slot with rd := .ret (if seen = .closed then -1 else 0) } .none
  | wait {len seen} : slot.rd = .check len seen → ReadMove { slot with rd := .commit len } .none
  | park {len} : slot.rd = .commit len → slot.s.recvBuf = [] → slot.s.state ≠ .remoteClose →
      slot.s.state ≠ .closed → slot.s.closed = false → slot.s.recvWaiter = false →
      ReadMove { slot with
        s := { slot.s with recvWaiter := true }, rd := .parked len, rdParks := slot.rdParks + 1 } .none
  | retry {len} : slot.rd = .commit len → ReadMove { slot with rd := .loop len } .none
  | frame {n fw fw' eff} : slot.rd = .frame n fw → fw.step free ok = some (fw', eff) →
      ReadMove { slot with rd := .frame n fw', tx := slot.tx ++ eff.frames } eff
  | unlock {n fw sent} : slot.rd = .frame n fw → fw.pc = .unlock sent → ReadMove { slot with rd := .ret n } .unlock
  | ret {n} : slot.rd = .ret n → ReadMove { slot.unref with rd := .idle } .none

/-- The steps of `xylem_mux_write`. -/
inductive WriteMove : Slot → Effect → Prop
  | refuse {rest} : slot.wr = .loop rest → slot.s.closed = true ∨ slot.s.state = .closed →
      WriteMove { slot with wr := .ret false } .none
  | full {rest} : slot.wr = .loop rest → WriteMove { slot with wr := .commit rest } .none
  | chunk {rest} (n : Nat) : slot.wr = .loop rest → slot.s.closed = false → slot.s.sendWindow ≠ 0 →
      n = muxWriteChunk slot.s.sendWindow rest.length →
      WriteMove { slot with
        wr := .frame rest ⟨⟨dataHdr slot.s.id (UInt32.ofNat n), rest.take n⟩, .lock⟩ } .none
  | park {rest} : slot.wr = .commit rest → slot.s.sendWindow = 0 → slot.s.state ≠ .closed →
      slot.s.closed = false → slot.s.sendWaiter = false →
      WriteMove { slot with
        s := { slot.s with sendWaiter := true }, wr := .parked rest, wrParks := slot.wrParks + 1 } .none
  | retry {rest} : slot.wr = .commit rest → WriteMove { slot with wr := .loop rest } .none
  | frame {rest fw fw' eff} : slot.wr = .frame rest fw → fw.step free ok = some (fw', eff) →
      WriteMove { slot with wr := .frame rest fw', tx := slot.tx ++ eff.frames } eff
  | unlock {rest fw sent} : slot.wr = .frame rest fw → fw.pc = .unlock sent → WriteMove { slot with
        wr := if sent then .deduct rest fw.frame.data.length else .ret false } .unlock
  | deduct {rest n} : slot.wr = .deduct rest n → WriteMove { slot with
        s := { slot.s with sendWindow := slot.s.sendWindow - UInt32.ofNat n }, wr := writeNext (rest.drop n) } .none
  | ret {sent} : slot.wr = .ret sent → WriteMove { slot.unref with wr := .idle } .none

/-- The steps of `xylem_mux_close_stream` after its exchange. -/
inductive CloseMove : Slot → Effect → Prop
  | state : slot.cl = .state → CloseMove { slot with
        s := (muxCloseState slot.s).1, cl := .wake slot.s.recvWaiter slot.s.sendWaiter } .none
  | wakeRecv {send len} : slot.cl = .wake true send → slot.rd = .parked len → CloseMove { slot with
        cl := .wake false send, rd := .loop len, rdReadies := slot.rdReadies + 1 } .none
  | wakeSend {rest} : slot.cl = .wake false true → slot.wr = .parked rest → CloseMove { slot with
        cl := .wake false false, wr := .loop rest, wrReadies := slot.wrReadies + 1 } .none
  | lock : slot.cl = .wake false false → free = true →
      CloseMove { slot with cl := .frame ⟨⟨finHdr slot.s.id, []⟩, .hdr⟩ } .lock
  | skip : slot.cl = .wake false false → CloseMove { slot with cl := .ret false } .none
  | frame {fw fw' eff} : slot.cl = .frame fw → fw.step free ok = some (fw', eff) →
      CloseMove { slot with cl := .frame fw', tx := slot.tx ++ eff.frames } eff
  | unlock {fw sent} : slot.cl = .frame fw → fw.pc = .unlock sent → CloseMove { slot with cl := .ret sent } .unlock
  | ret {sent} : slot.cl = .ret sent → CloseMove { slot.unref with cl := .done sent } .none

variable {window : UInt32} {free ok : Bool} {slot slot' : Slot} {eff : Effect} {bytes : List UInt8} {len : Int}

theorem Slot.stepOpen_move (moved : slot.stepOpen free ok = some (slot', eff)) : OpenMove free ok slot slot' eff := by
  unfold stepOpen at moved
  split at moved <;> rename_i at_
  · split at moved <;> rename_i pc
    · cases moved; exact .unlock at_ pc
    · obtain ⟨_, step, same⟩ := map_eq_some_iff.mp moved
      cases same; exact .frame at_ step
  · cases moved; exact .abandon at_
  · cases moved

/-- A read takes a front part of the buffer and either announces everything read so far
or leaves less than half the window unannounced. -/
theorem muxReadTake_spec {s s' : Stream} {update : Option UInt32}
    (taken : muxReadTake window len s = some (bytes, update, s')) :
    ∃ rest, s.recvBuf = bytes ++ rest ∧ (update = some (Stream.unannounced window { s with recvBuf := rest }) ∧
          s' = { s with
            recvBuf := rest, recvWindow := s.recvWindow + Stream.unannounced window { s with recvBuf := rest } } ∨
        update = none ∧ s' = { s with recvBuf := rest } ∧
          Stream.unannounced window { s with recvBuf := rest } < window / 2) := by
  unfold muxReadTake at taken
  dsimp only at taken
  generalize (if toCInt s.recvBuf.length < len then toCInt s.recvBuf.length else len) = n at taken
  split at taken
  · cases taken
  · refine ⟨s.recvBuf.drop n.toNat, ?_⟩
    split at taken
    · cases taken
      exact ⟨(List.take_append_drop _ _).symm, Or.inl ⟨rfl, rfl⟩⟩
    · rename_i small
      cases taken
      exact ⟨(List.take_append_drop _ _).symm, Or.inr ⟨rfl, rfl, UInt32.not_le.mp small⟩⟩

namespace Slot

theorem stepRead_move (moved : slot.stepRead window free ok = some (slot', eff)) :
    ReadMove window free ok slot slot' eff := by
  unfold stepRead at moved
  split at moved <;> rename_i at_
  · split at moved <;> rename_i buffered
    · obtain ⟨⟨bytes, update, s'⟩, taken, same⟩ := map_eq_some_iff.mp moved
      cases same
      obtain ⟨rest, split, ⟨rfl, rfl⟩ | ⟨rfl, rfl, gap⟩⟩ := muxReadTake_spec taken
      · exact .announce _ at_ split rfl
      · exact .take at_ split gap
    · cases moved; exact .empty at_ (Decidable.not_not.mp buffered)
  · split at moved <;> cases moved
    · exact .finish at_
    · exact .wait at_
  · obtain ⟨⟨parked, s'⟩, commit, same⟩ := map_eq_some_iff.mp moved
    unfold muxRecvWaitCommit at commit
    split at commit <;> rename_i busy
    · cases commit; cases same; exact .retry at_
    · split at commit <;> rename_i waiting <;> cases commit
      cases same
      simp only [not_or, Decidable.not_not, Bool.not_eq_true] at busy waiting
      exact .park at_ busy.1 busy.2.1 busy.2.2.1 busy.2.2.2 waiting
  · split at moved <;> rename_i pc
    · cases moved; exact .unlock at_ pc
    · obtain ⟨_, step, same⟩ := map_eq_some_iff.mp moved
      cases same; exact .frame at_ step
  · cases moved; exact .ret at_
  · cases moved

theorem stepWrite_move (moved : slot.stepWrite free ok = some (slot', eff)) : WriteMove free ok slot slot' eff := by
  unfold stepWrite at moved
  split at moved <;> rename_i at_
  · split at moved <;> rename_i gone
    · cases moved; exact .refuse at_ gone
    · simp only [not_or, Bool.not_eq_true] at gone
      split at moved <;> rename_i full <;> cases moved
      · exact .full at_
      · exact .chunk _ at_ gone.1 full rfl
  · obtain ⟨⟨parked, s'⟩, commit, same⟩ := map_eq_some_iff.mp moved
    unfold muxSendWaitCommit at commit
    split at commit <;> rename_i busy
    · cases commit; cases same; exact .retry at_
    · split at commit <;> rename_i waiting <;> cases commit
      cases same
      simp only [not_or, Bool.not_eq_true, UInt32.pos_iff_ne_zero, Decidable.not_not] at busy waiting
      exact .park at_ busy.1 busy.2.1 busy.2.2 waiting
  · split at moved <;> rename_i pc
    · cases moved; exact .unlock at_ pc
    · obtain ⟨_, step, same⟩ := map_eq_some_iff.mp moved
      cases same; exact .frame at_ step
  · cases moved; exact .deduct at_
  · cases moved; exact .ret at_
  · cases moved

theorem readyRecv_some (moved : slot.readyRecv = some slot') :
    ∃ len, slot.rd = .parked len ∧ slot' = { slot with rd := .loop len, rdReadies := slot.rdReadies + 1 } := by
  unfold readyRecv at moved
  split at moved <;> cases moved
  exact ⟨_, by assumption, rfl⟩

theorem readySend_some (moved : slot.readySend = some slot') :
    ∃ rest, slot.wr = .parked rest ∧ slot' = { slot with wr := .loop rest, wrReadies := slot.wrReadies + 1 } := by
  unfold readySend at moved
  split at moved <;> cases moved
  exact ⟨_, by assumption, rfl⟩

theorem stepClose_move (moved : slot.stepClose free ok = some (slot', eff)) : CloseMove free ok slot slot' eff := by
  unfold stepClose at moved
  split at moved <;> rename_i at_
  · cases moved; exact .state at_
  · obtain ⟨_, woken, same⟩ := map_eq_some_iff.mp moved
    obtain ⟨len, parked, rfl⟩ := readyRecv_some woken
    cases same; exact .wakeRecv at_ parked
  · obtain ⟨_, woken, same⟩ := map_eq_some_iff.mp moved
    obtain ⟨rest, parked, rfl⟩ := readySend_some woken
    cases same; exact .wakeSend at_ parked
  · split at moved <;> cases moved
    · exact .lock at_ (by assumption)
    · exact .skip at_
  · split at moved <;> rename_i pc
    · cases moved; exact .unlock at_ pc
    · obtain ⟨_, step, same⟩ := map_eq_some_iff.mp moved
      cases same; exact .frame at_ step
  · cases moved; exact .ret at_
  · cases moved

theorem readStart_some (started : slot.readStart len = some slot') :
    (slot.handed = true ∧ slot.rd = .idle ∧ 0 < len ∧ len ≤ intMax) ∧ slot' = { slot.ref with rd := .loop len } := by
  unfold readStart at started
  split at started <;> cases started
  exact ⟨by assumption, rfl⟩

theorem writeStart_some (started : slot.writeStart bytes = some slot') :
    (slot.handed = true ∧ slot.wr = .idle ∧ bytes ≠ [] ∧ bytes.length ≤ intMax) ∧
      slot' = { slot.ref with wr := .loop bytes, written := slot.written ++ bytes } := by
  unfold writeStart at started
  split at started <;> cases started
  exact ⟨by assumption, rfl⟩

theorem closeStart_some (started : slot.closeStart = some slot') : slot.handed = true ∧
      (slot.s.closed = true ∧ slot' = { slot with closeCalled := true } ∨ slot.s.closed = false ∧
          slot' = { slot with s := { slot.s with closed := true }, cl := .state, closeCalled := true }) := by
  unfold closeStart at started
  split at started <;> rename_i handed
  · split at started <;> rename_i closed <;> cases started
    · exact ⟨handed, Or.inl ⟨closed, rfl⟩⟩
    · exact ⟨handed, Or.inr ⟨Bool.eq_false_iff.mpr closed, rfl⟩⟩
  · cases started

end Slot

end Xylem.Mux
