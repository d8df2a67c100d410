import Xylem.Ws.Pair

namespace Xylem.Ws

open Lib List Option WsEnd

variable {δ : Type} {codec : WsDeflate δ} {limit : Nat}

/-- Where the receiving coroutine may be while messages go through: a held message ends the call, and a read is made
only while the next frame is not all there. -/
def RxPc.Placed (todo : List WsFrame) (c : WsConn δ) : RxPc → Prop
  | .idle => c.reading = false
  | .top (.recv _) => c.reading = true ∧ c.msg = none
  | .inner (.recv _) => c.reading = true ∧ c.msg = none
  | .reading (.recv _) =>
    (c.reading = true ∧ c.msg = none) ∧ ∀ frame ∈ todo.head?, c.recvBuf.length < frame.bytes.length
  | .done _ ok => ok = true ∧ c.reading = true ∧ c.msg.isSome = true
  | _ => False

/-- What holds of the receiver: of the frames written, those in `done` have been taken and make up what was returned
and is held; the bytes of those in `todo` are in the buffer and in transit. -/
structure WsEnd.Receives (limit : Nat) (done todo : List WsFrame) (transit : List UInt8) (a : Assembly)
    (σ : WsEnd δ) : Prop where
  bytes : σ.conn.recvBuf ++ transit = todo.flatMap (·.bytes)
  taken : assemble limit .empty (done.map (·.chunk)) = some a
  holds : σ.conn.Holds limit a.part
  msgs : σ.returned ++ σ.conn.msg.toList = a.msgs
  going : σ.conn.closed = false ∧ σ.conn.closing = false ∧ σ.conn.closeSent = false ∧ σ.conn.closeReceived = false
  placed : σ.rx.Placed todo σ.conn

variable (transit : List UInt8) (σ : WsEnd δ)

/-- How much of a call is left before the next read of the transport, or before its end. -/
def WsEnd.rank : Nat :=
  match σ.rx with
  | .idle => if σ.conn.msg.isSome then 5 else 3
  | .top _ => 2
  | .inner _ => 1
  | .reading _ => 0
  | .done len _ => if ∃ msg ∈ σ.conn.msg, len < msg.2.length then 6 else 4

/-- What is left to do for the receiver until nothing is in transit and no whole frame is in the buffer. -/
def WsEnd.effort : Nat :=
  10 * transit.length + 5 * σ.conn.recvBuf.length + σ.rank

theorem WsEnd.rank_le : σ.rank ≤ 6 := by
  unfold WsEnd.rank
  split <;> (try split) <;> decide

theorem WsFrame.two_le_bytes_length (frame : WsFrame) : 2 ≤ frame.bytes.length := by
  rw [WsFrame.bytes_length]
  exact frame.header_length_le.1.trans (Nat.le_add_right _ _)

variable {σ τ : WsEnd δ} {done todo : List WsFrame} {transit : List UInt8} {a : Assembly}

theorem WsEnd.Receives.writing (receives : σ.Receives limit done todo transit a) (writing : Bool)
    (conn : τ.conn = { σ.conn with writing }) (rx : τ.rx = σ.rx) (returned : τ.returned = σ.returned) :
    τ.Receives limit done todo transit a := by
  obtain ⟨bytes, taken, holds, msgs, going, placed⟩ := receives
  refine ⟨by rw [conn]; exact bytes, taken, ?_, by rw [returned, conn]; exact msgs, by rw [conn]; exact going, ?_⟩
  · rw [conn]
    exact ⟨holds.limitIs, holds.plain, holds.active, holds.frag⟩
  · rw [rx, conn]
    cases at_ : σ.rx with
    | idle | done len ok => rw [at_] at placed; exact placed
    | top call | inner call | reading call =>
      rw [at_] at placed
      cases call with
      | close => exact placed
      | recv len => exact placed

theorem WsEnd.Receives.more (receives : σ.Receives limit done todo transit a) (new : List WsFrame) :
    σ.Receives limit done (todo ++ new) (transit ++ new.flatMap (·.bytes)) a := by
  obtain ⟨bytes, taken, holds, msgs, going, placed⟩ := receives
  refine ⟨by rw [← append_assoc, bytes, flatMap_append], taken, holds, msgs, going, ?_⟩
  cases at_ : σ.rx with
  | idle | done len ok => rw [at_] at placed; exact placed
  | top call | inner call =>
    rw [at_] at placed
    cases call with
    | close => exact placed
    | recv len => exact placed
  | reading call =>
    rw [at_] at placed
    cases call with
    | close => exact placed
    | recv len =>
      refine ⟨placed.1, ?_⟩
      cases todo with
      | cons frame rest => exact placed.2
      | nil =>
        intro frame first
        have empty : σ.conn.recvBuf = [] := (append_eq_nil_iff.mp bytes).1
        rw [empty]
        exact Nat.lt_of_lt_of_le (by decide) frame.two_le_bytes_length

variable {len : Nat} {env : WsEnv} {pending : List WsChunk} {final : Assembly} {start : WsEnd δ → WsEnd δ}

namespace WsEnd.Receives

theorem buffered {frame : WsFrame} (receives : σ.Receives limit done (frame :: todo) transit a) :
    (σ.conn.recvBuf.length < frame.bytes.length ∧ σ.conn.recvBuf = frame.bytes.take σ.conn.recvBuf.length) ∨
      ∃ rest, σ.conn.recvBuf = frame.bytes ++ rest ∧ rest ++ transit = todo.flatMap (·.bytes) := by
  have bytes := receives.bytes
  rw [flatMap_cons] at bytes
  rcases append_eq_append_iff.mp bytes with ⟨rest, whole, later⟩ | ⟨rest, whole, later⟩
  · by_cases empty : rest = []
    · rw [empty, append_nil] at whole
      rw [empty, nil_append] at later
      exact .inr ⟨[], by rw [append_nil, whole], later⟩
    · refine .inl ⟨?_, by rw [whole, take_left']; rfl⟩
      have some_ := length_pos_iff.mpr empty
      rw [whole, length_append]
      omega
  · exact .inr ⟨rest, whole, later.symm⟩

section

variable (receives : σ.Receives limit done todo transit a)
include receives

theorem readOn (at_ : σ.rx = .inner (.recv len))
    (short : ∀ frame ∈ todo.head?, σ.conn.recvBuf.length < frame.bytes.length) :
    (σ.readOn (.recv len)).Receives limit done todo transit a ∧
      (σ.readOn (.recv len)).effort transit < σ.effort transit := by
  obtain ⟨bytes, taken, holds, msgs, going, placed⟩ := receives
  rw [at_] at placed
  unfold WsEnd.readOn
  rw [wsEnsureRecvBuf_eq]
  refine ⟨⟨bytes, taken, ⟨holds.limitIs, holds.plain, holds.active, holds.frag⟩, msgs, going, placed, short⟩, ?_⟩
  simp only [effort, WsEnd.rank, at_]
  omega

theorem inner (calm : env.Calm)
    (at_ : σ.rx = .inner (.recv len)) (frames : ∀ frame ∈ todo, frame.Sendable (none : Option δ))
    (whole : assemble limit .empty ((done ++ todo).map (·.chunk) ++ pending) = some final) :
    ∃ done' todo' b, done' ++ todo' = done ++ todo ∧
      (σ.inner codec env (.recv len)).Receives limit done' todo' transit b ∧
      (σ.inner codec env (.recv len)).effort transit < σ.effort transit := by
  cases todo with
  | nil =>
    have empty : σ.conn.recvBuf = [] := (append_eq_nil_iff.mp receives.bytes).1
    unfold WsEnd.inner
    rw [if_pos empty]
    exact ⟨done, [], a, rfl, receives.readOn at_ (by simp)⟩
  | cons frame todo =>
    have ok : frame.Sendable σ.conn.deflate := by
      rw [receives.holds.plain]
      exact frames frame mem_cons_self
    rcases receives.buffered with ⟨short, part⟩ | ⟨rest, buf, later⟩
    · have waits : wsRecvFrame codec σ.conn = .more := wsRecvFrame_waits ok short part
      have is : σ.inner codec env (.recv len) = σ.readOn (.recv len) := by
        unfold WsEnd.inner
        rw [calm.1, waits]
        split <;> rfl
      rw [is]
      exact ⟨done, frame :: todo, a, rfl, receives.readOn at_ (by simpa using short)⟩
    · have size := frame.two_le_bytes_length
      have length : σ.conn.recvBuf.length = frame.bytes.length + rest.length := by rw [buf, length_append]
      have nonempty : σ.conn.recvBuf ≠ [] := ne_nil_of_length_pos (by omega)
      -- The frames before this one and this one together are taken as the whole stream is.
      have split_ : (done ++ frame :: todo).map (·.chunk) ++ pending =
          done.map (·.chunk) ++ frame.chunk :: (todo.map (·.chunk) ++ pending) := by simp
      rw [split_, assemble_append, receives.taken, bind_some, assemble_cons] at whole
      obtain ⟨b, took, -⟩ := bind_eq_some_iff.mp whole
      have taken : assemble limit .empty ((done ++ [frame]).map (·.chunk)) = some b := by
        rw [map_append, assemble_append, receives.taken, bind_some, map_singleton, assemble_cons, took]
        rfl
      have placed := receives.placed
      rw [at_] at placed
      have msgs := receives.msgs
      rw [placed.2] at msgs
      have assembles : Assembles a b σ.conn limit frame rest (wsRecvFrame codec σ.conn) :=
        wsRecvFrame_assembles ok receives.holds took buf
      refine ⟨done ++ [frame], todo, b, by simp, ?_⟩
      unfold WsEnd.inner
      rw [if_neg nonempty, calm.1, if_neg (by decide)]
      generalize wsRecvFrame codec σ.conn = turn at assembles
      cases assembles with
      | pong ping same =>
        simp only [answerPing, writeFrame_calm calm receives.going.1]
        subst same
        have holds := receives.holds
        refine ⟨⟨later, taken, ⟨holds.limitIs, holds.plain, holds.active, holds.frag⟩, ?_, receives.going, ?_⟩, ?_⟩
        · simpa [placed.2] using msgs
        · rw [at_]
          exact placed
        · simp only [effort, WsEnd.rank, at_]
          omega
      | @next d same holds buf_ msg link =>
        refine ⟨⟨by rw [buf_]; exact later, taken, holds, ?_, ?_, ?_⟩, ?_⟩
        · rw [same, msg, placed.2]
          exact msgs
        · exact ⟨link.closed ▸ receives.going.1, link.closing ▸ receives.going.2.1,
            link.closeSent ▸ receives.going.2.2.1, link.closeReceived ▸ receives.going.2.2.2⟩
        · rw [at_]
          exact ⟨link.reading ▸ placed.1, msg.trans placed.2⟩
        · simp only [effort, WsEnd.rank, at_, buf_]
          omega
      | @ready d msg_ more holds buf_ msg link =>
        refine ⟨⟨by simp only [recvReturns, buf_]; exact later, taken, holds, ?_, ?_, ?_⟩, ?_⟩
        · simp only [recvReturns, msg, more, toList_some]
          simpa using msgs
        · exact ⟨link.closed ▸ receives.going.1, link.closing ▸ receives.going.2.1,
            link.closeSent ▸ receives.going.2.2.1, link.closeReceived ▸ receives.going.2.2.2⟩
        · exact ⟨rfl, link.reading ▸ placed.1, by simp [recvReturns, msg]⟩
        · have rank := (recvReturns { σ with conn := d } (.recv len) true).rank_le
          simp only [effort]
          have now : (recvReturns { σ with conn := d } (.recv len) true).conn.recvBuf = rest := buf_
          rw [now, length]
          omega

theorem turn (calm : env.Calm) (frames : ∀ frame ∈ todo, frame.Sendable (none : Option δ))
    (whole : assemble limit .empty ((done ++ todo).map (·.chunk) ++ pending) = some final)
    (moved : σ.step codec (.turn env) = some τ) :
    ∃ done' todo' b, done' ++ todo' = done ++ todo ∧ τ.Receives limit done' todo' transit b ∧
      τ.effort transit < σ.effort transit := by
  have placed := receives.placed
  simp only [WsEnd.step] at moved
  split at moved
  · rename_i call at_
    rw [at_] at placed
    cases call with
    | close => exact placed.elim
    | recv len =>
      rw [receives.going.1, calm.1] at moved
      cases moved
      refine ⟨done, todo, a, rfl, ⟨receives.bytes, receives.taken, receives.holds, receives.msgs, receives.going,
        placed⟩, ?_⟩
      simp only [effort, WsEnd.rank, at_, Bool.or_self, Bool.false_eq_true, if_false]
      omega
  · rename_i call at_
    rw [at_] at placed
    cases call with
    | close => exact placed.elim
    | recv len =>
      cases moved
      exact receives.inner calm at_ frames whole
  · cases moved

theorem read {chunk : List UInt8}
    (front : chunk <+: transit) (room : 0 < σ.conn.room) (moved : σ.step codec (.read chunk) = some τ) :
    τ.Receives limit done todo (transit.drop chunk.length) a ∧
      τ.effort (transit.drop chunk.length) < σ.effort transit := by
  have placed := receives.placed
  simp only [WsEnd.step] at moved
  split at moved
  · rename_i call at_
    rw [at_] at placed
    cases call with
    | close => exact placed.elim
    | recv len =>
      rw [if_neg (Int.not_le.mpr room)] at moved
      split at moved
      · rename_i fits
        cases moved
        obtain ⟨later, is⟩ := front
        have dropped : transit.drop chunk.length = later := by rw [← is, drop_left]
        have holds := receives.holds
        rw [dropped]
        refine ⟨⟨?_, receives.taken, ⟨holds.limitIs, holds.plain, holds.active, holds.frag⟩, receives.msgs,
          receives.going, placed.1⟩, ?_⟩
        · rw [append_assoc, is]
          exact receives.bytes
        · simp only [effort, WsEnd.rank, at_, ← is, length_append]
          omega
      · cases moved
  · cases moved

/-- The end of `ws_recv`: the message is copied out, or kept for a larger buffer. -/
theorem finish (calm : env.Calm)
    (sizes : ∀ msg ∈ a.msgs, msg.2.length < 2 ^ 31) (moved : σ.step codec (.finish env) = some τ) :
    τ.Receives limit done todo transit a ∧ τ.effort transit < σ.effort transit := by
  have placed := receives.placed
  have msgs := receives.msgs
  have holds := receives.holds
  simp only [WsEnd.step] at moved
  split at moved
  · rename_i len ok at_
    rw [at_] at placed
    obtain ⟨rfl, reading, held⟩ := placed
    obtain ⟨⟨type, data⟩, msg⟩ := isSome_iff_exists.mp held
    rw [msg] at msgs
    have size : data.length < 2 ^ 31 := sizes (type, data) (by rw [← msgs]; simp)
    cases moved
    unfold WsEnd.finish
    simp only [msg, receives.going.1, calm.1, Bool.or_self, Bool.false_or, decide_eq_true_eq]
    rw [if_neg (by omega)]
    split <;> rename_i small <;>
      refine ⟨⟨receives.bytes, receives.taken, ⟨holds.limitIs, holds.plain, holds.active, holds.frag⟩, ?_,
        ⟨rfl, receives.going.2⟩, rfl⟩, by simp only [effort, WsEnd.rank, at_, msg]; simp [small]⟩
    · rw [← msgs]
    · rw [← msgs]
      simp
  · cases moved

end

end WsEnd.Receives

section

variable (receives : σ.Receives limit done todo transit a)
include receives

namespace WsEnd.Receives

theorem recv (len : Nat) : (σ.recv len).Receives limit done todo transit a := by
  have msgs := receives.msgs
  have holds := receives.holds
  obtain ⟨closed, closing, closeSent, closeReceived⟩ := receives.going
  unfold WsEnd.recv
  rw [closing, closed]
  cases reading : σ.conn.reading with
  | true => exact receives
  | false =>
    rw [if_neg (by decide)]
    dsimp only
    cases msg : σ.conn.msg with
    | some held =>
      rw [msg] at msgs
      rw [if_pos (by rfl)]
      exact ⟨receives.bytes, receives.taken, ⟨holds.limitIs, holds.plain, holds.active, holds.frag⟩, msgs,
        receives.going, rfl, rfl, rfl⟩
    | none =>
      rw [msg] at msgs
      rw [if_neg (by decide), closeReceived, if_neg (by decide)]
      exact ⟨receives.bytes, receives.taken, ⟨holds.limitIs, holds.plain, holds.active, holds.frag⟩, msgs,
        ⟨closed, closing, closeSent, rfl⟩, rfl, rfl⟩

theorem recv_effort (idle : σ.rx = .idle)
    (enough : ∀ msg ∈ σ.conn.msg, msg.2.length ≤ len) : (σ.recv len).effort transit < σ.effort transit := by
  have reading : σ.conn.reading = false := by
    have placed := receives.placed
    rw [idle] at placed
    exact placed
  obtain ⟨closed, closing, closeSent, closeReceived⟩ := receives.going
  unfold WsEnd.recv
  rw [closing, closed, reading, if_neg (by decide)]
  dsimp only
  cases msg : σ.conn.msg with
  | some held =>
    have fits : ¬len < held.2.length := Nat.not_lt.mpr (enough held msg)
    rw [if_pos (by rfl)]
    simp only [effort, WsEnd.rank, idle, msg]
    simp [fits]
  | none =>
    rw [if_neg (by decide), closeReceived, if_neg (by decide)]
    simp [effort, WsEnd.rank, idle, msg]

theorem enterWrite (writes : ∀ σ : WsEnd δ, σ.conn.deflate = none →
      (start σ).conn = σ.conn ∧ (start σ).rx = σ.rx ∧ (start σ).returned = σ.returned) :
    (σ.enterWrite start).Receives limit done todo transit a := by
  obtain ⟨closed, closing, closeSent, closeReceived⟩ := receives.going
  unfold WsEnd.enterWrite
  rw [closing, closed, closeSent, closeReceived]
  split
  · exact receives
  · rw [if_neg (by decide)]
    obtain ⟨conn, rx, returned⟩ := writes { σ with conn := { σ.conn with writing := true } } receives.holds.plain
    exact receives.writing true conn rx returned

theorem send (type : WsType) (data : List UInt8) : (σ.send codec type data).Receives limit done todo transit a := by
  exact receives.enterWrite fun σ plain => by simp [plain]

theorem ping (data : List UInt8) : (σ.ping data).Receives limit done todo transit a := by
  unfold WsEnd.ping
  split
  · exact receives
  · exact receives.enterWrite fun σ _ => ⟨rfl, rfl, rfl⟩

end WsEnd.Receives

end

theorem WsEnd.Receives.txStep (calm : env.Calm) (receives : σ.Receives limit done todo transit a)
    (moved : σ.txStep env = some τ) : τ.Receives limit done todo transit a := by
  unfold WsEnd.txStep at moved
  split at moved
  · cases moved
  · rw [calm.2.1, Bool.and_false] at moved
    cases moved
    exact receives.writing false rfl rfl rfl
  · rw [writeFrame_calm calm receives.going.1] at moved
    cases moved
    exact receives.writing σ.conn.writing rfl rfl rfl

/-- A call of `ws_recv` that fails, and the end of the connection after it. -/
def WsEnd.Failing (σ : WsEnd δ) : Prop :=
  (∃ len, σ.rx = .done len false) ∧ σ.conn.reading = true ∨ σ.rx = .idle ∧ σ.conn.closed = true

theorem WsEnd.writeFrame_failing (σ : WsEnd δ) (env : WsEnv) (chunk : WsChunk) :
    (σ.writeFrame env chunk).1.rx = σ.rx ∧ (σ.writeFrame env chunk).1.conn.reading = σ.conn.reading ∧
      (σ.conn.closed = true → (σ.writeFrame env chunk).1.conn.closed = true) ∧
      (σ.writeFrame env chunk).1.returned = σ.returned := by
  unfold writeFrame
  split
  · exact ⟨rfl, rfl, fun _ => rfl, rfl⟩
  dsimp only
  split
  · exact ⟨rfl, rfl, id, rfl⟩
  · exact ⟨rfl, rfl, fun _ => rfl, rfl⟩

section

variable (failing : σ.Failing)
include failing

namespace WsEnd.Failing

theorem writing (rx : τ.rx = σ.rx)
    (reading : τ.conn.reading = σ.conn.reading) (closed : σ.conn.closed = true → τ.conn.closed = true) :
    τ.Failing := by
  rcases failing with ⟨at_, is⟩ | ⟨idle, is⟩
  · exact .inl ⟨by rw [rx]; exact at_, reading.trans is⟩
  · exact .inr ⟨rx.trans idle, closed is⟩

theorem enterWrite (writes : ∀ σ : WsEnd δ, (start σ).rx = σ.rx ∧ (start σ).conn.reading = σ.conn.reading ∧
      (σ.conn.closed = true → (start σ).conn.closed = true) ∧ (start σ).returned = σ.returned) :
    (σ.enterWrite start).Failing ∧ (σ.enterWrite start).returned = σ.returned := by
  unfold WsEnd.enterWrite
  split
  · exact ⟨failing, rfl⟩
  split
  · exact ⟨failing.writing rfl rfl fun _ => rfl, rfl⟩
  · obtain ⟨rx, reading, closed, returned⟩ := writes { σ with conn := { σ.conn with writing := true } }
    exact ⟨failing.writing rx reading closed, returned⟩

theorem txStep (moved : σ.txStep env = some τ) : τ.Failing ∧ τ.returned = σ.returned := by
  unfold WsEnd.txStep at moved
  split at moved
  · cases moved
  · cases moved
    split
    · exact ⟨failing.writing rfl rfl fun _ => rfl, rfl⟩
    · exact ⟨failing.writing rfl rfl id, rfl⟩
  · rename_i call chunk rest at_
    obtain ⟨rx, reading, closed, returned⟩ := σ.writeFrame_failing env chunk
    split at moved
    · rename_i wrote
      rw [wrote] at rx reading closed returned
      cases moved
      exact ⟨failing.writing rx reading closed, returned⟩
    · rename_i wrote
      rw [wrote] at rx reading closed returned
      cases moved
      exact ⟨failing.writing rx reading closed, returned⟩

theorem step {act : WsAct} (open_ : ∀ args env, act ≠ .close args env) (moved : σ.step codec act = some τ) :
    τ.Failing ∧ τ.returned = σ.returned := by
  cases act with
  | recv len =>
    cases moved
    have refused : (σ.conn.reading || σ.conn.closing || σ.conn.closed) = true := by
      rcases failing with ⟨-, reading⟩ | ⟨-, closed⟩
      · rw [reading]; rfl
      · rw [closed, Bool.or_true]
    unfold WsEnd.recv
    rw [if_pos refused]
    exact ⟨failing, rfl⟩
  | turn env | read chunk | readFails =>
    simp only [WsEnd.step] at moved
    rcases failing with ⟨⟨len, at_⟩, -⟩ | ⟨idle, -⟩
    · rw [at_] at moved
      cases moved
    · rw [idle] at moved
      cases moved
  | finish env =>
    simp only [WsEnd.step] at moved
    rcases failing with ⟨⟨len, at_⟩, -⟩ | ⟨idle, -⟩
    · rw [at_] at moved
      cases moved
      exact ⟨.inr ⟨rfl, rfl⟩, rfl⟩
    · rw [idle] at moved
      cases moved
  | send type data =>
    simp only [WsEnd.step] at moved
    split at moved
    · cases moved
      unfold WsEnd.send
      refine failing.enterWrite fun σ => ?_
      dsimp only
      split
      · exact ⟨rfl, rfl, id, rfl⟩
      split
      · exact ⟨rfl, rfl, fun _ => rfl, rfl⟩
      · exact ⟨rfl, rfl, id, rfl⟩
    · cases moved
  | ping data =>
    cases moved
    unfold WsEnd.ping
    split
    · exact ⟨failing, rfl⟩
    · exact failing.enterWrite fun σ => ⟨rfl, rfl, id, rfl⟩
  | tx env => exact failing.txStep moved
  | close args env => exact absurd rfl (open_ args env)

end WsEnd.Failing

end

end Xylem.Ws
