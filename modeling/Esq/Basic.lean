import Mathlib.Data.Int.Notation

/-!
# 共通の約束

`public/esq.h` の戻り値と、プロセスが続けられなくなる場合の表し方。

C の関数が `exit()` を呼ぶ場合と、NULL を辿って落ちる場合と、loop が終わらない場合は、
戻り値としては観測できない。モデルではどれも `Except Fault` の `error` に写す。
-/

namespace Esq

/-! ## 戻り値 -/

def esqOk : Int := 0
def esqErrorParam : Int := -1
def esqErrorMemory : Int := -2
def esqErrorLibcall : Int := -3
def esqErrorNotfound : Int := -4
def esqErrorSize : Int := -5
def esqErrorClose : Int := -7
def esqErrorTimeout : Int := -8
def esqErrorBusy : Int := -9
def esqErrorTbd : Int := -11

def nghttp2ErrCallbackFailure : Int := -902

inductive Fault where
  /-- `esq_design_error()`：`exit(-1)` -/
  | designError
  /-- `INVALID_ACTION_TYPE`：`exit(1)` -/
  | invalidActionType
  /-- NULL を辿った -/
  | segv
  /-- loop が終わらない -/
  | endless
deriving DecidableEq, Repr

/-! ## `Except` の連接 -/

section

variable {ε α β : Type} {a : α} {b : β} {e : ε} {x : Except ε α} {f : α → Except ε β}

@[simp] theorem ok_bind : (Except.ok a >>= f) = f a := rfl

@[simp] theorem error_bind : ((Except.error e : Except ε α) >>= f) = .error e := rfl

@[simp] theorem bind_ok_self : (x >>= fun a => Except.ok a) = x := by
  cases x with
  | error e => rfl
  | ok a => rfl

theorem bind_eq_ok : (x >>= f) = .ok b ↔ ∃ a, x = .ok a ∧ f a = .ok b := by
  cases x with
  | error e => simp
  | ok a => simp

theorem map_eq_ok {g : α → β} : x.map g = .ok b ↔ ∃ a, x = .ok a ∧ g a = b := by
  cases x with
  | error e => simp [Except.map]
  | ok a => simp [Except.map]

end

end Esq
