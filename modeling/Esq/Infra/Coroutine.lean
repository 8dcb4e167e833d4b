import Mathlib.Data.Option.Basic

/-!
# coroutine

外に問い合わせ（`ask`）ながら進み、途中で手放す（`yield`）program。問い合わせの答えは
外が決めるので、答えから続きへの関数を持つ。`abort` はプロセスごと止まることを表す。

`Gated ok gate` は、問い合わせがどれも `ok` で、手放す所がどれも「`gate` を満たす答えの直後」で
あることを言う。再開する側は、手放した program が何を仕掛けたかをこの形から知る。
-/

namespace Infra

variable {Q R α β : Type}

inductive Co (Q R α : Type) where
  | done (a : α)
  | ask (q : Q) (k : R → Co Q R α)
  | yield (k : Co Q R α)
  | abort

namespace Co

def bind : Co Q R α → (α → Co Q R β) → Co Q R β
  | done a, f => f a
  | ask q k, f => ask q fun r => (k r).bind f
  | yield k, f => yield (k.bind f)
  | abort, _ => abort

instance : Monad (Co Q R) where
  pure := done
  bind := bind

@[simp] theorem pure_eq (a : α) : (pure a : Co Q R α) = done a := rfl

@[simp] theorem done_bind (a : α) (f : α → Co Q R β) : (done a >>= f) = f a := rfl

@[simp] theorem ask_bind (q : Q) (k : R → Co Q R α) (f : α → Co Q R β) :
    (ask q k >>= f) = ask q fun r => k r >>= f := rfl

@[simp] theorem yield_bind (k : Co Q R α) (f : α → Co Q R β) :
    (yield k >>= f) = yield (k >>= f) := rfl

def query (q : Q) : Co Q R R := ask q done

/--
問い合わせはどれも `ok` で、手放すのは `gate` を満たす答えを得た直後に限り、そのときは必ず手放す。
-/
inductive Gated (ok : Q → Prop) (gate : Q → R → Prop) : Co Q R α → Prop where
  | done (a : α) : Gated ok gate (done a)
  | ask (q : Q) (k : R → Co Q R α) (next : R → Co Q R α) (hok : ok q)
    (hyield : ∀ r, gate q r → k r = yield (next r)) (hstay : ∀ r, ¬ gate q r → k r = next r)
    (hnext : ∀ r, Gated ok gate (next r)) : Gated ok gate (ask q k)
  | abort : Gated ok gate abort

section

variable {ok ok' : Q → Prop} {gate : Q → R → Prop} {x : Co Q R α} {f : α → Co Q R β} {q : Q}
  {k : R → Co Q R α}

theorem Gated.plain (hok : ok q) (hq : ∀ r, ¬ gate q r) (hk : ∀ r, Gated ok gate (k r)) :
    Gated ok gate (Co.ask q k) :=
  .ask q k k hok (fun r hr => absurd hr (hq r)) (fun _ _ => rfl) hk

/-- **続けて行っても、手放す所は変わらない。** -/
theorem Gated.bind (h : Gated ok gate x) (hf : ∀ a, Gated ok gate (f a)) :
    Gated ok gate (x >>= f) := by
  induction h with
  | done a => exact hf a
  | ask q k next hok hyield hstay hnext ih =>
    refine .ask q _ (fun r => next r >>= f) hok (fun r hr => ?_) (fun r hr => ?_) ih
    · show k r >>= f = _
      rw [hyield r hr]
      rfl
    · show k r >>= f = _
      rw [hstay r hr]
  | abort => exact .abort

theorem Gated.query (hok : ok q) (hq : ∀ r, ¬ gate q r) :
    Gated ok gate (Co.query q : Co Q R R) :=
  .plain hok hq fun r => .done r

theorem Gated.mono (h : Gated ok gate x) (hok : ∀ q, ok q → ok' q) : Gated ok' gate x := by
  induction h with
  | done a => exact .done a
  | ask q k next hq hyield hstay hnext ih => exact .ask q k next (hok q hq) hyield hstay ih
  | abort => exact .abort

theorem Gated.of_ask (h : Gated ok gate (Co.ask q k)) (r : R) :
    (gate q r ∧ ∃ next, k r = .yield next ∧ Gated ok gate next)
      ∨ (¬ gate q r ∧ Gated ok gate (k r)) := by
  cases h with
  | ask _ _ next hok hyield hstay hnext =>
    by_cases hr : gate q r
    · exact Or.inl ⟨hr, next r, hyield r hr, hnext r⟩
    · exact Or.inr ⟨hr, by rw [hstay r hr]; exact hnext r⟩

theorem Gated.ok_of_ask (h : Gated ok gate (Co.ask q k)) : ok q := by
  cases h with
  | ask _ _ next hok hyield hstay hnext => exact hok

theorem Gated.not_yield {k : Co Q R α} : ¬ Gated ok gate (Co.yield k) := nofun

end

/-! ## 答える側 -/

section

variable {S : Type} {answer : S → Q → Option (S × R)} {s : S}

/--
状態 `S` を持つ相手に問い合わせながら、終わりまで行う。手放した program はいずれ再開される。
相手が答えないときと、プロセスごと止まったときは `none` になる。
-/
def interpret (answer : S → Q → Option (S × R)) : S → Co Q R α → Option (S × α)
  | s, done a => some (s, a)
  | s, ask q k => (answer s q).bind fun p => interpret answer p.1 (k p.2)
  | s, yield k => interpret answer s k
  | _, abort => none

@[simp] theorem interpret_done (a : α) : interpret answer s (done a) = some (s, a) := rfl

@[simp] theorem interpret_yield (k : Co Q R α) :
    interpret answer s (yield k) = interpret answer s k := rfl

theorem interpret_ask (q : Q) (k : R → Co Q R α) : interpret answer s (ask q k)
    = (answer s q).bind fun p => interpret answer p.1 (k p.2) := rfl

/-- **続けて行うと、後の方は前の方が残した状態から始まる。** -/
theorem interpret_bind (x : Co Q R α) (f : α → Co Q R β) : ∀ s : S,
    interpret answer s (x >>= f)
      = (interpret answer s x).bind fun p => interpret answer p.1 (f p.2) := by
  induction x with
  | done a => exact fun s => rfl
  | ask q k ih =>
    intro s
    rw [ask_bind, interpret_ask, interpret_ask]
    cases answer s q with
    | none => rfl
    | some p => exact ih p.2 p.1
  | yield k ih => exact ih
  | abort => exact fun s => rfl

end

end Co

end Infra
