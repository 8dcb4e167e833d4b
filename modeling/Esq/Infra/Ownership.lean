import Esq.Infra.Run
import Mathlib.Data.List.Count
import Mathlib.Logic.Function.Basic

/-!
# 資源の持ち方

得て、触れて、放す資源。計算が資源に行うことを列で持ち、列の通りに資源の状態を動かす。得られるのは一度だけで、
触れるのも放すのも持っている間に限る。外れた列は `none` になる。

* `once_of_not_held` — 持ったまま終わらなければ、得た資源はちょうど一度放されている
* `untouched_after_release` — 放した資源には、後で触れない
-/

namespace Infra

inductive Holding where
  | absent
  | held
  | released
deriving DecidableEq, Repr

inductive OwnOp (ρ : Type) where
  | acquire (r : ρ)
  | touch (r : ρ)
  | release (r : ρ)
deriving DecidableEq, Repr

abbrev Ledger (ρ : Type) := ρ → Holding

namespace OwnOp

variable {ρ : Type}

def target : OwnOp ρ → ρ
  | acquire r => r
  | touch r => r
  | release r => r

variable [DecidableEq ρ]

def apply (L : Ledger ρ) : OwnOp ρ → Option (Ledger ρ)
  | acquire r => if L r = .absent then some (Function.update L r .held) else none
  | touch r => if L r = .held then some L else none
  | release r => if L r = .held then some (Function.update L r .released) else none

variable {L M : Ledger ρ} {r : ρ} {op : OwnOp ρ} {ops xs ys : List (OwnOp ρ)}

theorem apply_acquire_eq_some :
    apply L (acquire r) = some M ↔ L r = .absent ∧ Function.update L r .held = M := by
  simp [apply]

theorem apply_touch_eq_some : apply L (touch r) = some M ↔ L r = .held ∧ L = M := by
  simp [apply]

theorem apply_release_eq_some :
    apply L (release r) = some M ↔ L r = .held ∧ Function.update L r .released = M := by
  simp [apply]

/-! ## 列の終わりの状態 -/

theorem count_release_step (h : apply L op = some M) :
    [op].count (release r) + (if L r = .released then 1 else 0)
      = if M r = .released then 1 else 0 := by
  cases op with
  | acquire q =>
    obtain ⟨hq, rfl⟩ := apply_acquire_eq_some.mp h
    by_cases hr : r = q
    · simp [hr, hq]
    · simp [hr]
  | touch q =>
    obtain ⟨-, rfl⟩ := apply_touch_eq_some.mp h
    simp
  | release q =>
    obtain ⟨hq, rfl⟩ := apply_release_eq_some.mp h
    by_cases hr : r = q
    · simp [hr, hq]
    · simp [hr, Ne.symm hr]

theorem count_release (h : runFrom apply L ops = some M) :
    ops.count (release r) + (if L r = .released then 1 else 0)
      = if M r = .released then 1 else 0 := by
  induction ops generalizing L with
  | nil =>
    rw [runFrom_nil, Option.some.injEq] at h
    simp [h]
  | cons op ops ih =>
    obtain ⟨N, hN, hM⟩ := runFrom_cons_eq_some.mp h
    have hcons : (op :: ops).count (release r) = [op].count (release r) + ops.count (release r) := by
      rw [← List.count_append, List.singleton_append]
    have hstep := count_release_step (r := r) hN
    have hrest := ih hM
    omega

theorem absent_step (h : apply L op = some M) (hr : M r = .absent) :
    L r = .absent ∧ op ≠ acquire r := by
  cases op with
  | acquire q =>
    obtain ⟨-, rfl⟩ := apply_acquire_eq_some.mp h
    by_cases hq : r = q
    · simp [hq] at hr
    · simp_all [Ne.symm hq]
  | touch q =>
    obtain ⟨-, rfl⟩ := apply_touch_eq_some.mp h
    exact ⟨hr, by simp⟩
  | release q =>
    obtain ⟨-, rfl⟩ := apply_release_eq_some.mp h
    by_cases hq : r = q
    · simp [hq] at hr
    · simp_all

theorem not_mem_acquire (h : runFrom apply L ops = some M) (hr : M r = .absent) :
    L r = .absent ∧ acquire r ∉ ops := by
  induction ops generalizing L with
  | nil =>
    rw [runFrom_nil, Option.some.injEq] at h
    exact ⟨h ▸ hr, List.not_mem_nil⟩
  | cons op ops ih =>
    obtain ⟨N, hN, hM⟩ := runFrom_cons_eq_some.mp h
    obtain ⟨hNr, hops⟩ := ih hM
    obtain ⟨hLr, hop⟩ := absent_step hN hNr
    exact ⟨hLr, by simp [Ne.symm hop, hops]⟩

/-- **持ったまま終わらなければ、得た資源はちょうど一度放されている。** -/
theorem once_of_not_held (h : runFrom apply (fun _ => .absent) ops = some M) (hr : M r ≠ .held)
    (hmem : acquire r ∈ ops) : ops.count (release r) = 1 := by
  have hcount := count_release (r := r) h
  cases hM : M r with
  | absent => exact absurd hmem (not_mem_acquire h hM).2
  | held => exact absurd hM hr
  | released => simpa [hM] using hcount

theorem released_step (h : apply L op = some M) (hr : L r = .released) :
    M r = .released ∧ op.target ≠ r := by
  cases op with
  | acquire q =>
    obtain ⟨hq, rfl⟩ := apply_acquire_eq_some.mp h
    have hne : r ≠ q := by
      rintro rfl
      rw [hr] at hq
      cases hq
    exact ⟨by rw [Function.update_of_ne hne, hr], Ne.symm hne⟩
  | touch q =>
    obtain ⟨hq, rfl⟩ := apply_touch_eq_some.mp h
    refine ⟨hr, fun heq => ?_⟩
    rw [show q = r from heq, hr] at hq
    cases hq
  | release q =>
    obtain ⟨hq, rfl⟩ := apply_release_eq_some.mp h
    have hne : r ≠ q := by
      rintro rfl
      rw [hr] at hq
      cases hq
    exact ⟨by rw [Function.update_of_ne hne, hr], Ne.symm hne⟩

theorem untouched_of_released (h : runFrom apply L ops = some M) (hr : L r = .released) :
    ∀ op ∈ ops, op.target ≠ r := by
  induction ops generalizing L with
  | nil => simp
  | cons op ops ih =>
    obtain ⟨N, hN, hM⟩ := runFrom_cons_eq_some.mp h
    obtain ⟨hNr, hop⟩ := released_step hN hr
    simpa using ⟨hop, ih hM hNr⟩

theorem untouched_after_release (h : runFrom apply L (xs ++ release r :: ys) = some M) :
    ∀ op ∈ ys, op.target ≠ r := by
  obtain ⟨N, -, hN⟩ := runFrom_append_eq_some.mp h
  obtain ⟨N', hrel, hys⟩ := runFrom_cons_eq_some.mp hN
  obtain ⟨-, rfl⟩ := apply_release_eq_some.mp hrel
  exact untouched_of_released hys (Function.update_self ..)

end OwnOp

/-! ## 資源を使いながら進む計算 -/

structure Owning (ρ α : Type) where
  result : α
  ops : List (OwnOp ρ)

namespace Owning

variable {ρ α β : Type}

instance : Monad (Owning ρ) where
  pure a := ⟨a, []⟩
  bind x f := ⟨(f x.result).result, x.ops ++ (f x.result).ops⟩

def acquire (r : ρ) : Owning ρ Unit := ⟨(), [.acquire r]⟩

def touch (r : ρ) : Owning ρ Unit := ⟨(), [.touch r]⟩

def release (r : ρ) : Owning ρ Unit := ⟨(), [.release r]⟩

def releaseIf (b : Bool) (r : ρ) : Owning ρ Unit := if b then release r else pure ()

@[simp] theorem result_pure (a : α) : (pure a : Owning ρ α).result = a := rfl

@[simp] theorem result_bind (x : Owning ρ α) (f : α → Owning ρ β) :
    (x >>= f).result = (f x.result).result := rfl

theorem result_touch_bind (r : ρ) (f : Unit → Owning ρ β) :
    (touch r >>= f).result = (f ()).result := rfl

variable [DecidableEq ρ] {L : Ledger ρ} {Q R : α → Ledger ρ → Prop} {r : ρ} {b : Bool}

/-- 列が `L` から始めて外れず、結果と終わりの状態が `Q` を満たす。 -/
def wp (x : Owning ρ α) (Q : α → Ledger ρ → Prop) (L : Ledger ρ) : Prop :=
  ∃ M, runFrom OwnOp.apply L x.ops = some M ∧ Q x.result M

@[simp] theorem wp_pure {a : α} : (pure a : Owning ρ α).wp Q L ↔ Q a L := by
  simp [wp, pure]

@[simp] theorem wp_bind {x : Owning ρ β} {f : β → Owning ρ α} :
    (x >>= f).wp Q L ↔ x.wp (fun a => (f a).wp Q) L := by
  have hops : (x >>= f).ops = x.ops ++ (f x.result).ops := rfl
  unfold wp
  rw [hops]
  simp only [runFrom_append_eq_some, result_bind]
  constructor
  · rintro ⟨M, ⟨N, hN, hM⟩, hQ⟩
    exact ⟨N, hN, M, hM, hQ⟩
  · rintro ⟨N, hN, M, hM, hQ⟩
    exact ⟨M, ⟨N, hN, hM⟩, hQ⟩

@[simp] theorem wp_acquire {Q : Unit → Ledger ρ → Prop} :
    (acquire r).wp Q L ↔ L r = .absent ∧ Q () (Function.update L r .held) := by
  simp [wp, acquire, runFrom_cons_eq_some, OwnOp.apply_acquire_eq_some]

@[simp] theorem wp_touch {Q : Unit → Ledger ρ → Prop} : (touch r).wp Q L ↔ L r = .held ∧ Q () L := by
  simp [wp, touch, runFrom_cons_eq_some, OwnOp.apply_touch_eq_some]

@[simp] theorem wp_release {Q : Unit → Ledger ρ → Prop} :
    (release r).wp Q L ↔ L r = .held ∧ Q () (Function.update L r .released) := by
  simp [wp, release, runFrom_cons_eq_some, OwnOp.apply_release_eq_some]

@[simp] theorem wp_releaseIf {Q : Unit → Ledger ρ → Prop} : (releaseIf b r).wp Q L ↔
    if b then L r = .held ∧ Q () (Function.update L r .released) else Q () L := by
  cases b <;> simp [releaseIf]

theorem wp.mono {x : Owning ρ α} (h : x.wp Q L) (hQR : ∀ a M, Q a M → R a M) : x.wp R L := by
  obtain ⟨M, hM, hQ⟩ := h
  exact ⟨M, hM, hQR _ _ hQ⟩

end Owning

end Infra
