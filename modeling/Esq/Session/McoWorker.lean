import Esq.Session.Membership
import Esq.Session.Mco

/-!
# coroutine もいる worker

`Esq.Session.Worker` の worker に coroutine の session を加える。coroutine の label は
session の欄の外に持ち、action を渡す所は socket の session と同じ `chassis.c` の形をしている。
hash lock の session はここでも扱わない。
-/

namespace Esq

open Infra

/-! ## データ -/

structure McoWorker where
  worker : Worker
  lc : Nat → McoLabel

structure McoAction where
  action : Action
  os : Int := 0
  isEnd : Bool := false
deriving DecidableEq, Repr

def Session.stepMco (s : Session) (lc : McoLabel) (a : McoAction) :
    Except Fault (PtRun × McoLabel) :=
  if s.sessionType = .mco then esqPtOfMco s lc a.action a.os a.isEnd
  else do
    let p ← s.step a.action a.os
    .ok (p, lc)

namespace McoWorker

def session (mw : McoWorker) (x : Nat) : Session := mw.worker.session x

/-- 状態機械を一歩進めて、操作を worker に当てる。 -/
def dispatch (mw : McoWorker) (x : Nat) (a : McoAction) : Except Fault McoWorker := do
  let (p, lc) ← (mw.session x).ready.stepMco (mw.lc x) a
  .ok {
    worker := (mw.worker.setSession x p.session).execEffects x p.effects
    lc := Function.update mw.lc x lc }

def restart (mw : McoWorker) (x : Nat) : McoWorker where
  worker := mw.worker.setSession x { mw.session x with lc := .start }
  lc := Function.update mw.lc x .start

def postActions (mw : McoWorker) (x : Nat) (os : Int) : Except Fault (Int × McoWorker) := do
  let (r, w) ← mw.worker.postActions x os
  .ok (r, { mw with worker := w })

def takeAction (mw : McoWorker) (x : Nat) (a : McoAction) : Except Fault (Int × McoWorker) :=
  if (mw.session x).magic then do
    let mw' ← mw.dispatch x a
    if wantsSwitch (mw'.session x).postOp then do
      let mw'' ← (mw'.restart x).dispatch x a
      mw''.postActions x a.os
    else mw'.postActions x a.os
  else .ok (esqErrorParam, mw)

end McoWorker

/-! ## action を渡す -/

section

variable {mw mw' : McoWorker} {x : Nat} {a : McoAction} {p : PtRun} {lc : McoLabel}

def McoWorker.stepped (mw : McoWorker) (x : Nat) (p : PtRun) (lc : McoLabel) : McoWorker where
  worker := (mw.worker.setSession x p.session).execEffects x p.effects
  lc := Function.update mw.lc x lc

theorem mcoDispatch_eq (h : (mw.session x).ready.stepMco (mw.lc x) a = .ok (p, lc)) :
    mw.dispatch x a = .ok (mw.stepped x p lc) := by
  unfold McoWorker.dispatch
  rw [h]
  rfl

@[simp] theorem stepped_session_self : (mw.stepped x p lc).session x = p.session := by
  unfold McoWorker.session McoWorker.stepped
  rw [execEffects_session, Worker.setSession_self]

theorem stepped_session_of_ne {y : Nat} (hy : y ≠ x) :
    (mw.stepped x p lc).session y = mw.session y := by
  unfold McoWorker.session McoWorker.stepped
  rw [execEffects_session]
  exact Function.update_of_ne hy ..

@[simp] theorem stepped_lc_self : (mw.stepped x p lc).lc x = lc := Function.update_self ..

theorem stepped_lc_of_ne {y : Nat} (hy : y ≠ x) : (mw.stepped x p lc).lc y = mw.lc y :=
  Function.update_of_ne hy ..

theorem mcoTakeAction_stay (hm : (mw.session x).magic = true)
    (h : (mw.session x).ready.stepMco (mw.lc x) a = .ok (p, lc))
    (hop : p.session.postOp = popNoOp ∨ p.session.postOp = popReturnValue) :
    ∃ r, mw.takeAction x a = .ok (r, mw.stepped x p lc) := by
  unfold McoWorker.takeAction
  rw [if_pos hm, mcoDispatch_eq h, ok_bind, stepped_session_self]
  have hsess : (mw.stepped x p lc).worker.session x = p.session := stepped_session_self
  unfold McoWorker.postActions Worker.postActions
  rw [hsess]
  rcases hop with hop | hop
  · rw [hop, if_neg (by decide)]
    exact ⟨esqOk, rfl⟩
  · rw [hop, if_neg (by decide)]
    exact ⟨p.session.r, rfl⟩

end

end Esq
