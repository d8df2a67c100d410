import Xylem.Sync.FrameView
import Xylem.Sync.SemMove

namespace Xylem.Sync.Sem

variable {ι : Type*}

def Pc.phase : Pc ι → Phase
  | .out | .post | .pop | .bank | .postLeave _ | .wake _ => .idle
  | .wait | .commit | .commitTry | .commitPush | .enter | .check | .push => .before
  | .commitArm => .waits true
  | .commitLeave true | .leave false | .parked | .await | .expired | .cancel | .cancelLeave false | .drain =>
    .waits false
  | .commitLeave false | .leave true => .ending true
  | .cancelLeave true => .ending false
  | .resumed => .resumed
  | .stop fired => .ending !fired
  | .ret got => .ending got

def Pc.guarded : Pc ι → Bool
  | .commitTry | .commitPush | .commitArm | .commitLeave _ | .check | .push | .leave _ | .cancel | .cancelLeave _
  | .pop | .bank | .postLeave _ => true
  | _ => false

def Pc.registering : Pc ι → Bool
  | .commitArm | .commitLeave true | .leave false => true
  | _ => false

def Pc.hands : Pc ι → List (Record ι)
  | .postLeave target => target.toList
  | .wake r => [r]
  | _ => []

def Pc.kind : Pc ι → Option Kind
  | .commit | .commitTry | .commitPush | .commitArm | .commitLeave _ | .parked | .resumed | .stop _ => some .coro
  | .enter | .check | .push | .leave _ | .await | .expired | .cancel | .cancelLeave _ | .drain => some .thrd
  | _ => none

instance : Points ι (Pc ι) where
  phase := Pc.phase
  guarded := Pc.guarded
  registering := Pc.registering
  hands := Pc.hands
  kind := Pc.kind
  inside p here := by
    unfold Pc.registering at here
    split at here <;> first | rfl | cases here

variable {kind : Kind} {p q : Pc ι}

section

variable (fits : Fits kind p) {call : Call}
include fits

theorem Pc.Enters.goes (enters : p.Enters q) :
    Goes kind p q ∧ Points.registering q = false ∧ Points.phase q = Points.phase p := by
  cases enters <;> exact ⟨⟨fits, rfl⟩, rfl, rfl⟩

theorem Pc.Takes.goes (takes : p.Takes q) :
    Goes kind p q ∧ Points.guarded q = Points.guarded p ∧ Points.registering q = false ∧
      Points.phase p = .before ∧ Points.phase q = .ending true := by
  cases takes <;> exact ⟨⟨fits, rfl⟩, rfl, rfl, rfl, rfl⟩

theorem Pc.Fails.goes (fails : p.Fails q) :
    Goes kind p q ∧ Points.guarded q = Points.guarded p ∧ Points.registering q = false ∧
      Points.phase p = .before ∧ Points.phase q = .before := by
  cases fails <;> exact ⟨⟨fits, rfl⟩, rfl, rfl, rfl, rfl⟩

theorem Pc.Pushes.goes (pushes : Pc.Pushes call p q) :
    Goes kind p q ∧ Points.guarded p = true ∧ Points.guarded q = true ∧ Points.phase p = .before ∧
      ∃ arming, Points.phase q = .waits arming ∧ (arming = true → 0 < call.timeoutMs) := by
  cases pushes with
  | coro | thrd => exact ⟨⟨fits, rfl⟩, rfl, rfl, rfl, false, rfl, nofun⟩
  | arms timed => exact ⟨⟨fits, rfl⟩, rfl, rfl, rfl, true, rfl, fun _ => timed⟩

theorem Pc.Leaves.goes {fired : Bool} (leaves : p.Leaves q) :
    Points.guarded p = true ∧ Goes kind p q ∧ Points.guarded q = false ∧
      PhaseStep kind call fired (Points.phase p) (Points.phase q) := by
  cases leaves with
  | refuse => exact ⟨rfl, ⟨fits, rfl⟩, rfl, .refuse (fits .coro rfl)⟩
  | took | gone => exact ⟨rfl, ⟨nofun, rfl⟩, rfl, .same⟩
  | _ => exact ⟨rfl, ⟨fits, rfl⟩, rfl, .same⟩

end

theorem Move.frame [DecidableEq ι] {kind : ι → Kind} {σ σ' : State ι} {tokens tokens' : Tokens ι} {a : ι ⊕ Record ι}
    (move : Move kind σ tokens a σ' tokens') (fits : σ.Fits kind) :
    FrameMove kind σ.toFrame tokens a σ'.toFrame tokens' := by
  cases move with
  | begin at_ => exact .begin (by rw [at_]; rfl) (by rw [at_]; rfl) ⟨nofun, by rw [at_]; rfl⟩ rfl rfl
  | pollTake at_ => exact .pollTake (by rw [at_]; rfl) (by rw [at_]; rfl) ⟨nofun, by rw [at_]; rfl⟩ rfl rfl
  | pollMiss at_ => exact .pollMiss (by rw [at_]; rfl) (by rw [at_]; rfl) ⟨nofun, by rw [at_]; rfl⟩ rfl rfl
  | slowCoro at_ kinds | slowThrd at_ kinds =>
    exact .goto ⟨fun _ here => Option.some.inj here ▸ kinds, by rw [at_]; rfl⟩ (by rw [at_]; rfl) nofun (at_ ▸ .same)
  | @enter i _ enters free =>
    obtain ⟨goes, quiet, same⟩ := enters.goes (fits i)
    exact .enter free goes quiet same
  | @take i _ takes =>
    obtain ⟨goes, guard, quiet, before, ending⟩ := takes.goes (fits i)
    exact .take goes guard quiet before ending
  | @fail i _ fails =>
    obtain ⟨goes, guard, quiet, before, same⟩ := fails.goes (fits i)
    exact .goto goes guard (fun here => absurd (quiet.symm.trans here) (by decide)) (by rw [before, same]; exact .same)
  | @push i _ pushes =>
    obtain ⟨goes, inside, still, before, arming, waits, timed⟩ := pushes.goes (fits i)
    exact .push goes inside still before waits timed
  | @arm i at_ =>
    have coro := fits i .coro (by rw [at_]; rfl)
    exact .arm ⟨fun _ here => Option.some.inj here ▸ coro, by rw [at_]; rfl⟩ rfl (by rw [at_]; rfl) coro
      (by rw [at_]; rfl) rfl
  | @leave i _ leaves =>
    obtain ⟨inside, goes, out, step⟩ := leaves.goes (fits i)
    exact .leave inside goes out step
  | resumed at_ call =>
    exact .goto ⟨nofun, by rw [at_]; rfl⟩ (by rw [at_]; rfl) nofun (at_ ▸ .untimed (by rw [call]; rfl))
  | @fired i at_ =>
    have coro := fits i .coro (by rw [at_]; rfl)
    exact .goto ⟨fun _ here => Option.some.inj here ▸ coro, by rw [at_]; rfl⟩ (by rw [at_]; rfl) nofun (at_ ▸ .fired)
  | stop at_ => exact .stop ⟨nofun, by rw [at_]; rfl⟩ (by rw [at_]; rfl) rfl (by rw [at_]; rfl)
  | @await i at_ some_ =>
    have thrd := fits i .thrd (by rcases at_ with at_ | at_ <;> rw [at_] <;> rfl)
    rcases at_ with at_ | at_ <;>
      exact .consume some_ ⟨nofun, by rw [at_]; rfl⟩ (by rw [at_]; rfl) rfl thrd (by rw [at_]; rfl) rfl
  | @expire i at_ | @miss i at_ =>
    have thrd := fits i .thrd (by rw [at_]; rfl)
    exact .goto ⟨fun _ here => Option.some.inj here ▸ thrd, by rw [at_]; rfl⟩ (by rw [at_]; rfl) nofun (at_ ▸ .same)
  | @hit i at_ queued =>
    have thrd := fits i .thrd (by rw [at_]; rfl)
    exact .cancel queued ⟨fun _ here => Option.some.inj here ▸ thrd, by rw [at_]; rfl⟩ (by rw [at_]; rfl) rfl
      (by rw [at_]; rfl) rfl thrd (by rw [at_]; rfl) rfl
  | ret at_ => exact .returns ⟨nofun, by rw [at_]; rfl⟩ (by rw [at_]; rfl) rfl (by rw [at_]; rfl) rfl
  | post at_ | popNone at_ | bank at_ =>
    exact .goto ⟨nofun, by rw [at_]; rfl⟩ (by rw [at_]; rfl) nofun (at_ ▸ .same)
  | pop at_ queue =>
    exact .pop queue nofun (by rw [at_]; rfl) rfl (by rw [at_]; rfl) rfl (by rw [at_]; rfl) (by rw [at_]; rfl) rfl
  | wakeCoro at_ other parked current coro =>
    exact .wakeCoro (by rw [at_]; rfl) nofun (by rw [at_]; rfl) rfl (by rw [at_]; rfl) other current coro
      ⟨fun _ here => Option.some.inj here, by rw [parked]; rfl⟩ (by rw [parked]; rfl) rfl (by rw [parked]; rfl) rfl
  | wakeThrd at_ thrd =>
    exact .wakeThrd (by rw [at_]; rfl) nofun (by rw [at_]; rfl) rfl (by rw [at_]; rfl) thrd
  | timer move => exact .timer move
  | timerCoro at_ parked current coro =>
    exact .timerCoro at_ current coro ⟨fun _ here => Option.some.inj here, by rw [parked]; rfl⟩ (by rw [parked]; rfl)
      rfl (by rw [parked]; rfl) rfl
  | timerThrd at_ thrd => exact .timerThrd at_ thrd

end Xylem.Sync.Sem
