import Xylem.Mux.Move

namespace Xylem.Mux

open List FrameHdr FrameWrite Slot Effect
open Mux.Frame (events)

/-- One step of `_mux_write_frame` keeps its frame and hands it to the transport at most once.
It fails only when a `write_fn` call does. -/
theorem FrameWrite.step_sends {fw fw' : FrameWrite} {free ok : Bool} {eff : Effect}
    (moved : fw.step free ok = some (fw', eff)) :
    fw'.frame = fw.frame ∧ (ok = true → fw'.pc ≠ .unlock false) ∧ (eff.frames = [] ∧ fw'.pc.sent = fw.pc.sent ∨
        eff.frames = [fw.frame] ∧ fw.pc.sent = false ∧ fw'.pc.sent = true) := by
  unfold step at moved
  split at moved <;> rename_i at_
  · split at moved
    · cases moved; simp [frames, FramePc.sent, at_]
    · cases moved
  · cases moved; simp [frames, FramePc.sent, at_]
  · cases moved
    refine ⟨rfl, ?_, .inl ⟨rfl, ?_⟩⟩
    · rintro rfl
      dsimp only
      split <;> simp
    · simp only [at_]
      split <;> rfl
  · cases moved; simp [frames, FramePc.sent, at_]
  · cases moved; simp [frames, FramePc.sent, at_]
  · cases moved

/-- The frames this code sends on a stream besides the SYN that opens it. -/
inductive Sends (id : UInt32) : Frame → Prop
  | update (delta : UInt32) : Sends id ⟨windowUpdateHdr id delta, []⟩
  | data {bytes : List UInt8} : bytes ≠ [] → bytes.length ≤ muxMaxFramePayload →
      Sends id ⟨dataHdr id (UInt32.ofNat bytes.length), bytes⟩
  | fin : Sends id ⟨finHdr id, []⟩

variable (id window : UInt32)

/-- The frames sent on a stream: the opener's first one is its SYN, and there is no other SYN. -/
inductive History : OpenPc → List Frame → Prop
  | accepted {tx} : (∀ frame ∈ tx, Sends id frame) → History .accepted tx
  | opening {fw tx} : fw.frame = ⟨synHdr id window, []⟩ → fw.pc ≠ .unlock false →
      tx = (if fw.pc.sent then [⟨synHdr id window, []⟩] else []) → History (.frame fw) tx
  | sent : History .sent [⟨synHdr id window, []⟩]
  | published {rest} : (∀ frame ∈ rest, Sends id frame) → History .published (⟨synHdr id window, []⟩ :: rest)

@[simp] theorem synHdr_has_syn : (synHdr id window).has muxFlagSyn = true :=
  (by decide : (muxFlagSyn &&& muxFlagSyn != 0) = true)

@[simp] theorem windowUpdateHdr_has (id delta : UInt32) (flag : UInt16) :
    (windowUpdateHdr id delta).has flag = false := by
  simp [windowUpdateHdr, has]

@[simp] theorem dataHdr_has (id length : UInt32) (flag : UInt16) : (dataHdr id length).has flag = false := by
  simp [dataHdr, has]

variable (id : UInt32) {frame : Frame} {op : OpenPc} {tx : List Frame}

@[simp] theorem finHdr_has_syn : (finHdr id).has muxFlagSyn = false :=
  (by decide : (muxFlagFin &&& muxFlagSyn != 0) = false)

@[simp] theorem finHdr_has_fin : (finHdr id).has muxFlagFin = true :=
  (by decide : (muxFlagFin &&& muxFlagFin != 0) = true)

@[simp] theorem finHdr_has_rst : (finHdr id).has muxFlagRst = false :=
  (by decide : (muxFlagFin &&& muxFlagRst != 0) = false)

@[simp] theorem synHdr_streamId (id window : UInt32) : (synHdr id window).streamId = id := rfl
@[simp] theorem windowUpdateHdr_streamId (id delta : UInt32) : (windowUpdateHdr id delta).streamId = id := rfl
@[simp] theorem dataHdr_streamId (id length : UInt32) : (dataHdr id length).streamId = id := rfl
@[simp] theorem finHdr_streamId : (finHdr id).streamId = id := rfl

@[simp] theorem synHdr_creditEvent (id window : UInt32) : (synHdr id window).creditEvent = .syn window := by
  simp [creditEvent, show (synHdr id window).length = window from rfl]

@[simp] theorem windowUpdateHdr_creditEvent (id delta : UInt32) :
    (windowUpdateHdr id delta).creditEvent = .credit delta := by
  simp [creditEvent, show (windowUpdateHdr id delta).length = delta from rfl]

@[simp] theorem dataHdr_endEvents (id length : UInt32) : (dataHdr id length).endEvents = [] := by
  simp [endEvents]

@[simp] theorem finHdr_endEvents : (finHdr id).endEvents = [.fin] := by
  simp [endEvents]

@[simp] theorem events_syn (id window : UInt32) : events ⟨synHdr id window, []⟩ = [.syn window] := by
  simp [events, show (synHdr id window).type = muxTypeWindowUpdate from rfl, muxTypeWindowUpdate, muxTypeData]

@[simp] theorem events_update (id delta : UInt32) : events ⟨windowUpdateHdr id delta, []⟩ = [.credit delta] := by
  simp [events, show (windowUpdateHdr id delta).type = muxTypeWindowUpdate from rfl, muxTypeWindowUpdate,
    muxTypeData]

@[simp] theorem events_fin : events ⟨finHdr id, []⟩ = [.fin] := by
  simp [events, show (finHdr id).type = muxTypeData from rfl]

theorem events_data (id length : UInt32) {bytes : List UInt8} (nonempty : bytes ≠ []) :
    events ⟨dataHdr id length, bytes⟩ = [.data bytes] := by
  simp [events, show (dataHdr id length).type = muxTypeData from rfl, nonempty]

theorem Sends.streamId {id : UInt32} (kind : Sends id frame) : frame.hdr.streamId = id := by
  cases kind <;> rfl

theorem History.kind {id window : UInt32} (history : History id window op tx) (member : frame ∈ tx) :
    frame = ⟨synHdr id window, []⟩ ∧ op ≠ .accepted ∨ Sends id frame := by
  cases history with
  | accepted kinds => exact .inr (kinds frame member)
  | opening _ _ only =>
    rw [only] at member
    split at member
    · exact .inl ⟨mem_singleton.mp member, nofun⟩
    · cases member
  | sent => exact .inl ⟨mem_singleton.mp member, nofun⟩
  | published kinds =>
    rcases mem_cons.mp member with first | later
    · exact .inl ⟨first, nofun⟩
    · exact .inr (kinds frame later)

theorem History.append {id window : UInt32} (history : History id window op tx)
    (usable : op = .accepted ∨ op = .published) (kind : Sends id frame) :
    History id window op (tx ++ [frame]) := by
  cases history with
  | accepted kinds =>
    refine .accepted fun other member => ?_
    rcases mem_append.mp member with old | new
    · exact kinds other old
    · exact mem_singleton.mp new ▸ kind
  | published kinds =>
    refine .published fun other member => ?_
    rcases mem_append.mp member with old | new
    · exact kinds other old
    · exact mem_singleton.mp new ▸ kind
  | opening => simp at usable
  | sent => simp at usable

theorem History.sent_only {id window : UInt32} (history : History id window .sent tx) :
    tx = [⟨synHdr id window, []⟩] := by
  cases history; rfl

/-- Which coroutines run on a stream, and which frames they have sent or are about to send.
It describes streams of an open session over a transport whose writes succeed. -/
structure Slot.Shape (window : UInt32) (slot : Slot) : Prop where
  history : History slot.s.id window slot.op slot.tx
  usable : slot.handed = true → slot.op = .accepted ∨ slot.op = .published
  unused : slot.handed = false → slot.rd = .idle ∧ slot.wr = .idle ∧ slot.cl = .idle
  rdFrame : ∀ n fw, slot.rd = .frame n fw → ∃ delta, fw.frame = ⟨windowUpdateHdr slot.s.id delta, []⟩
  wrFrame : ∀ rest fw, slot.wr = .frame rest fw → fw.pc ≠ .unlock false ∧ ∃ chunk, 0 < chunk ∧
    chunk ≤ rest.length ∧ chunk ≤ muxMaxFramePayload ∧
    fw.frame = ⟨dataHdr slot.s.id (UInt32.ofNat chunk), rest.take chunk⟩
  wrLoop : ∀ rest, slot.wr = .loop rest ∨ slot.wr = .commit rest ∨ slot.wr = .parked rest → rest ≠ []
  clFrame : ∀ fw, slot.cl = .frame fw → fw.frame = ⟨finHdr slot.s.id, []⟩ ∧
    (fw.pc.sent = true → Event.fin ∈ eventsOf slot.tx)
  clSent : slot.cl = .ret true ∨ slot.cl = .done true → Event.fin ∈ eventsOf slot.tx

section Steps

variable {window : UInt32} {free ok : Bool} {slot slot' : Slot} {eff : Effect}

section

variable (shape : slot.Shape window) (busy : slot.rd ≠ .idle ∨ slot.wr ≠ .idle ∨ slot.cl ≠ .idle)
include shape busy

theorem Slot.Shape.busy_usable : slot.op = .accepted ∨ slot.op = .published := by
  cases handed : slot.handed with
  | true => exact shape.usable handed
  | false =>
    obtain ⟨rd, wr, cl⟩ := shape.unused handed
    simp [rd, wr, cl] at busy

theorem Slot.Shape.send (kind : Sends slot.s.id frame) : Slot.Shape window { slot with tx := slot.tx ++ [frame] } where
  __ := shape
  history := shape.history.append (shape.busy_usable busy) kind
  clFrame := fun fw at_ => by
    obtain ⟨same, fin⟩ := shape.clFrame fw at_
    exact ⟨same, fun sent => by simp [fin sent]⟩
  clSent := fun at_ => by simp [shape.clSent at_]

end

theorem OpenMove.shape (shape : slot.Shape window) (move : OpenMove free true slot slot' eff) : slot'.Shape window := by
  have history := shape.history
  cases move with
  | @frame fw fw' eff at_ step =>
    rw [at_] at history
    obtain ⟨same, live, sends⟩ := step_sends step
    cases history with
    | opening syn _ only =>
      have unhanded : slot.handed = false := by
        cases handed : slot.handed with
        | false => rfl
        | true => simpa [at_] using shape.usable handed
      obtain ⟨rd, wr, cl⟩ := shape.unused unhanded
      have open' : History slot.s.id window (.frame fw') (slot.tx ++ eff.frames) := by
        refine .opening (same.trans syn) (live rfl) ?_
        rcases sends with ⟨none, kept⟩ | ⟨one, before, after⟩
        · rw [none, kept, append_nil, only]
        · simp [one, after, syn, only, before]
      exact {
        history := open'
        usable := by simp [unhanded]
        unused := fun _ => ⟨rd, wr, cl⟩
        rdFrame := by simp [rd]
        wrFrame := by simp [wr]
        wrLoop := by simp [wr]
        clFrame := by simp [cl]
        clSent := by simp [cl] }
  | @unlock fw sent at_ pc =>
    rw [at_] at history
    cases history with
    | opening syn live only =>
      cases sent with
      | false => exact absurd pc live
      | true =>
        have only : slot.tx = [⟨synHdr slot.s.id window, []⟩] := by simpa [pc, FramePc.sent] using only
        exact { shape with
          history := only ▸ History.sent
          usable := fun handed => by simpa [at_] using shape.usable handed }
  | abandon at_ =>
    rw [at_] at history
    cases history

theorem ReadMove.shape (shape : slot.Shape window) (move : ReadMove window free ok slot slot' eff) :
    slot'.Shape window := by
  have busy : slot.rd ≠ .idle := by cases move <;> simp [*]
  have unused : ∀ {P : Prop}, slot.handed = false → P := fun handed => absurd (shape.unused handed).1 busy
  cases move with
  | @frame n fw fw' eff at_ step =>
    obtain ⟨delta, update⟩ := shape.rdFrame n fw at_
    obtain ⟨same, _, ⟨none, _⟩ | ⟨one, _, _⟩⟩ := step_sends step
    · simp only [none, append_nil]
      exact { shape with
        unused
        rdFrame := fun _ _ same' => by cases same'; exact ⟨delta, same.trans update⟩ }
    · simp only [one, update]
      exact { shape.send (.inl (by simp [at_])) (.update delta) with
        unused
        rdFrame := fun _ _ same' => by cases same'; exact ⟨delta, same.trans update⟩ }
  | announce delta at_ =>
    exact { shape with
      unused
      rdFrame := fun _ _ same => by cases same; exact ⟨delta, rfl⟩ }
  | take at_ | empty at_ | finish at_ | wait at_ | park at_ | retry at_ | unlock at_ | ret at_ =>
    exact { shape with unused, rdFrame := nofun }

theorem writeNext_cases (rest : List UInt8) :
    writeNext rest = .ret true ∧ rest = [] ∨ writeNext rest = .loop rest ∧ rest ≠ [] := by
  unfold writeNext
  split
  · exact .inl ⟨rfl, by assumption⟩
  · exact .inr ⟨rfl, by assumption⟩

/-- A chunk is not empty and fits the window, the frame limit and what is left to write. -/
theorem muxWriteChunk_spec {sendWindow : UInt32} {rem : Nat} (credit : sendWindow ≠ 0) (some : 0 < rem) :
    0 < muxWriteChunk sendWindow rem ∧ muxWriteChunk sendWindow rem ≤ rem ∧
      muxWriteChunk sendWindow rem ≤ muxMaxFramePayload ∧ muxWriteChunk sendWindow rem ≤ sendWindow.toNat := by
  have positive : 0 < sendWindow.toNat := UInt32.pos_iff_ne_zero.mpr credit
  unfold muxWriteChunk muxMaxFramePayload
  omega

theorem WriteMove.shape (shape : slot.Shape window) (move : WriteMove free true slot slot' eff) :
    slot'.Shape window := by
  have busy : slot.wr ≠ .idle := by cases move <;> simp [*]
  have unused : ∀ {P : Prop}, slot.handed = false → P := fun handed => absurd (shape.unused handed).2.1 busy
  cases move with
  | @frame rest fw fw' eff at_ step =>
    obtain ⟨_, chunk, positive, fits, small, frame⟩ := shape.wrFrame rest fw at_
    obtain ⟨same, live, ⟨none, _⟩ | ⟨one, _, _⟩⟩ := step_sends step
    · simp only [none, append_nil]
      exact { shape with
        unused
        wrFrame := fun _ _ same' => by
          cases same'; exact ⟨live rfl, chunk, positive, fits, small, same.trans frame⟩
        wrLoop := nofun }
    · have kind : Sends slot.s.id fw.frame := by
        have length : (rest.take chunk).length = chunk := by simp [fits]
        have kind : Sends slot.s.id ⟨dataHdr slot.s.id (UInt32.ofNat (rest.take chunk).length), rest.take chunk⟩ :=
          .data (ne_nil_of_length_pos (by omega)) (by omega)
        rwa [length, ← frame] at kind
      simp only [one]
      exact { shape.send (.inr (.inl (by simp [at_]))) kind with
        unused
        wrFrame := fun _ _ same' => by
          cases same'; exact ⟨live rfl, chunk, positive, fits, small, same.trans frame⟩
        wrLoop := nofun }
  | @chunk rest n at_ _ credit size =>
    have spec := muxWriteChunk_spec credit (length_pos_iff.mpr (shape.wrLoop rest (.inl at_)))
    rw [← size] at spec
    exact { shape with
      unused
      wrFrame := fun _ _ same => by cases same; exact ⟨nofun, n, spec.1, spec.2.1, spec.2.2.1, rfl⟩
      wrLoop := nofun }
  | @full rest at_ | @retry rest at_ | @park rest at_ =>
    have nonempty := shape.wrLoop rest (by simp [at_])
    exact { shape with
      unused
      wrFrame := nofun
      wrLoop := fun _ at' => by simp at at'; exact at' ▸ nonempty }
  | @deduct rest n at_ =>
    rcases writeNext_cases (rest.drop n) with ⟨next, _⟩ | ⟨next, nonempty⟩ <;> rw [next]
    · exact { shape with unused, wrFrame := nofun, wrLoop := nofun }
    · exact { shape with
        unused
        wrFrame := nofun
        wrLoop := fun _ at' => by simp at at'; exact at' ▸ nonempty }
  | refuse at_ | ret at_ =>
    exact { shape with unused, wrFrame := nofun, wrLoop := nofun }
  | @unlock rest fw sent at_ =>
    cases sent <;> exact { shape with unused, wrFrame := nofun, wrLoop := nofun }

theorem CloseMove.shape (shape : slot.Shape window) (move : CloseMove free ok slot slot' eff) : slot'.Shape window := by
  have busy : slot.cl ≠ .idle := by cases move <;> simp [*]
  have unused : ∀ {P : Prop}, slot.handed = false → P := fun handed => absurd (shape.unused handed).2.2 busy
  cases move with
  | @frame fw fw' eff at_ step =>
    obtain ⟨fin, sent⟩ := shape.clFrame fw at_
    obtain ⟨same, _, ⟨none, kept⟩ | ⟨one, _, _⟩⟩ := step_sends step
    · simp only [none, append_nil]
      exact { shape with
        unused
        clFrame := fun _ at' => by cases at'; exact ⟨same.trans fin, kept ▸ sent⟩
        clSent := nofun }
    · simp only [one, fin]
      exact { shape.send (.inr (.inr (by simp [at_]))) .fin with
        unused
        clFrame := fun _ at' => by cases at'; exact ⟨same.trans fin, fun _ => by simp⟩
        clSent := nofun }
  | @unlock fw sent at_ pc =>
    exact { shape with
      unused
      clFrame := nofun
      clSent := fun at' => (shape.clFrame fw at_).2 (by simp [pc, FramePc.sent]) }
  | @ret sent at_ =>
    exact { shape with
      unused
      clFrame := nofun
      clSent := fun at' => shape.clSent (.inl (by simpa [at_] using at')) }
  | lock at_ =>
    exact { shape with
      unused
      clFrame := fun _ at' => by cases at'; exact ⟨rfl, nofun⟩
      clSent := nofun }
  | state at_ | skip at_ =>
    exact { shape with unused, clFrame := nofun, clSent := by simp }
  | wakeRecv at_ =>
    exact { shape with unused, rdFrame := nofun, clFrame := nofun, clSent := nofun }
  | @wakeSend rest at_ parked =>
    have nonempty := shape.wrLoop rest (by simp [parked])
    exact { shape with
      unused
      wrFrame := nofun
      wrLoop := fun _ at' => by simp at at'; exact at' ▸ nonempty
      clFrame := nofun
      clSent := nofun }

section

variable (shape : slot.Shape window)
include shape

namespace Slot.Shape

theorem readyRecv (woken : slot.readyRecv = some slot') : slot'.Shape window := by
  obtain ⟨len, parked, rfl⟩ := readyRecv_some woken
  exact { shape with
    unused := fun handed => by simpa [parked] using (shape.unused handed).1
    rdFrame := nofun }

theorem readySend (woken : slot.readySend = some slot') : slot'.Shape window := by
  obtain ⟨rest, parked, rfl⟩ := readySend_some woken
  have nonempty := shape.wrLoop rest (by simp [parked])
  exact { shape with
    unused := fun handed => by simpa [parked] using (shape.unused handed).2.1
    wrFrame := nofun
    wrLoop := fun _ at' => by simp at at'; exact at' ▸ nonempty }

theorem readStart {len : Int} (started : slot.readStart len = some slot') : slot'.Shape window := by
  obtain ⟨allowed, rfl⟩ := readStart_some started
  exact { shape with
    unused := fun handed => by simp [ref, allowed.1] at handed
    rdFrame := nofun }

theorem writeStart {bytes : List UInt8} (started : slot.writeStart bytes = some slot') : slot'.Shape window := by
  obtain ⟨allowed, rfl⟩ := writeStart_some started
  exact { shape with
    unused := fun handed => by simp [ref, allowed.1] at handed
    wrFrame := nofun
    wrLoop := fun _ at' => by simp at at'; exact at' ▸ allowed.2.2.1 }

theorem closeStart (started : slot.closeStart = some slot') : slot'.Shape window := by
  obtain ⟨handed, ⟨_, rfl⟩ | ⟨_, rfl⟩⟩ := closeStart_some started
  · exact { shape with }
  · exact { shape with
      unused := fun unhanded => by simp [handed] at unhanded
      clFrame := nofun
      clSent := by simp }

theorem publish (at_ : slot.op = .sent) : Slot.Shape window { slot.ref with op := .published, handed := true } := by
  have only := History.sent_only (at_ ▸ shape.history)
  exact { shape with
    history := by
      simp only [ref, muxStreamRef, only]
      exact .published nofun
    usable := fun _ => .inr rfl
    unused := nofun }

theorem hand (at_ : slot.op = .accepted) : Slot.Shape window { slot with handed := true } :=
  { shape with usable := fun _ => .inl at_, unused := nofun }

theorem received {s : Stream} {rx : List Event} (same : s.id = slot.s.id) :
    Slot.Shape window { slot with s := s, rx := rx } :=
  { shape with
    history := same ▸ shape.history
    rdFrame := same ▸ shape.rdFrame
    wrFrame := same ▸ shape.wrFrame
    clFrame := same ▸ shape.clFrame }

end Slot.Shape

end

end Steps

end Xylem.Mux
