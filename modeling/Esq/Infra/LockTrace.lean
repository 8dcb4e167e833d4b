import Mathlib.Data.List.Basic

/-!
# lock の取得と解放の列

一つの lock を取ったり放したりしながら進む計算。結果と、行った取得と解放の列を持つ。途中で
止まる計算は、止まるまでの列を持つ。

`Moves held post` は、`held` で始めると列のどこでも二重の取得も余分な解放も無く、結果が `a` なら
`post a` で終わることを言う。`Balanced` は、持たずに始めて持たずに終わることである。
-/

namespace Infra

inductive RwMode where
  | read
  | write
deriving DecidableEq, Repr

inductive LockEvent where
  | acquire (mode : RwMode)
  | release
deriving DecidableEq, Repr

/-- 持っている間の取得と、持たない間の解放は `none` である。 -/
def LockEvent.apply : Option RwMode → LockEvent → Option (Option RwMode)
  | none, .acquire mode => some (some mode)
  | some _, .release => some none
  | _, _ => none

/-- lock を取ったり放したりしながら進む計算。 -/
structure Locking (ε α : Type) where
  result : Except ε α
  events : List LockEvent

namespace Locking

variable {ε α β : Type} {held mid : Option RwMode} {mode : RwMode}

instance : Monad (Locking ε) where
  pure a := ⟨.ok a, []⟩
  bind x f :=
    match x.result with
    | .ok a => ⟨(f a).result, x.events ++ (f a).events⟩
    | .error e => ⟨.error e, x.events⟩

def acquire (mode : RwMode) : Locking ε Unit := ⟨.ok (), [.acquire mode]⟩

def release : Locking ε Unit := ⟨.ok (), [.release]⟩

def lift (x : Except ε α) : Locking ε α := ⟨x, []⟩

/-! ## 結果 -/

@[simp] theorem result_pure (a : α) : (pure a : Locking ε α).result = .ok a := rfl

@[simp] theorem result_acquire : (acquire mode : Locking ε Unit).result = .ok () := rfl

@[simp] theorem result_release : (release : Locking ε Unit).result = .ok () := rfl

@[simp] theorem result_lift (x : Except ε α) : (lift x).result = x := rfl

@[simp] theorem result_bind (x : Locking ε α) (f : α → Locking ε β) :
    (x >>= f).result = x.result >>= fun a => (f a).result := by
  cases hx : x.result with
  | error e => simp only [bind, Except.bind, hx]
  | ok a => simp only [bind, Except.bind, hx]

/-! ## 持ち方の移り -/

/-- `held` で始めて、列の通りに取って放したときの持ち方。 -/
def heldAfter (held : Option RwMode) (events : List LockEvent) : Option (Option RwMode) :=
  events.foldlM LockEvent.apply held

/-- 列に無理が無く、結果が `a` なら `post a` で終わる。 -/
def Moves (x : Locking ε α) (held : Option RwMode) (post : α → Option RwMode) : Prop :=
  match x.result with
  | .ok a => heldAfter held x.events = some (post a)
  | .error _ => (heldAfter held x.events).isSome

def Balanced (x : Locking ε α) : Prop := x.Moves none fun _ => none

variable {x : Locking ε α} {f : α → Locking ε β} {P : α → Option RwMode} {Q : β → Option RwMode}

theorem heldAfter_append {es fs : List LockEvent} (h : heldAfter held es = some mid) :
    heldAfter held (es ++ fs) = heldAfter mid fs := by
  unfold heldAfter at *
  rw [List.foldlM_append, h]
  rfl

@[simp] theorem moves_pure {a : α} : (pure a : Locking ε α).Moves held P ↔ held = P a := by
  show some held = some (P a) ↔ held = P a
  exact Option.some_inj

@[simp] theorem moves_lift {y : Except ε α} :
    (lift y).Moves held P ↔ ∀ a, y = .ok a → held = P a := by
  cases y with
  | error e =>
    constructor
    · intro _ a h
      cases h
    · intro _
      rfl
  | ok a =>
    constructor
    · intro h b hb
      cases hb
      exact Option.some_inj.mp h
    · intro h
      exact congrArg some (h a rfl)

theorem moves_acquire : (acquire mode : Locking ε Unit).Moves none fun _ => some mode := rfl

theorem moves_release : (release : Locking ε Unit).Moves (some mode) fun _ => none := rfl

/-- **先の計算の終わりの持ち方から、後の計算が始まる。** -/
theorem moves_bind_iff (hx : x.Moves held P) :
    (x >>= f).Moves held Q ↔ ∀ a, x.result = .ok a → (f a).Moves (P a) Q := by
  unfold Moves at hx
  cases hr : x.result with
  | error e =>
    rw [hr] at hx
    have heq : x >>= f = ⟨.error e, x.events⟩ := by simp only [bind, hr]
    constructor
    · intro _ a h
      cases h
    · intro _
      rw [heq]
      exact hx
  | ok a =>
    rw [hr] at hx
    have heq : x >>= f = ⟨(f a).result, x.events ++ (f a).events⟩ := by simp only [bind, hr]
    have hrun : (x >>= f).Moves held Q ↔ (f a).Moves (P a) Q := by
      rw [heq]
      unfold Moves
      rw [heldAfter_append hx]
    rw [hrun]
    constructor
    · intro h b hb
      cases hb
      exact h
    · intro h
      exact h a rfl

@[simp] theorem moves_acquire_bind {f : Unit → Locking ε β} :
    (acquire mode >>= f).Moves none Q ↔ (f ()).Moves (some mode) Q := by
  rw [moves_bind_iff moves_acquire]
  exact ⟨fun h => h () rfl, fun h a _ => h⟩

@[simp] theorem moves_release_bind {f : Unit → Locking ε β} :
    (release >>= f).Moves (some mode) Q ↔ (f ()).Moves none Q := by
  rw [moves_bind_iff moves_release]
  exact ⟨fun h => h () rfl, fun h a _ => h⟩

@[simp] theorem moves_lift_bind {y : Except ε α} :
    (lift y >>= f).Moves held Q ↔ ∀ a, y = .ok a → (f a).Moves held Q := by
  rw [moves_bind_iff (P := fun _ => held) (moves_lift.mpr fun _ _ => rfl)]
  rfl

@[simp] theorem not_moves_release_bind {f : Unit → Locking ε β} :
    ¬ (release >>= f).Moves none Q := by
  have hnone : heldAfter none (LockEvent.release :: (f ()).events) = none := rfl
  have heq : (release >>= f : Locking ε β)
      = ⟨(f ()).result, LockEvent.release :: (f ()).events⟩ := rfl
  intro h
  rw [heq] at h
  unfold Moves at h
  rw [hnone] at h
  cases hr : (f ()).result with
  | error e => simp [hr] at h
  | ok b => simp [hr] at h

def void (x : Locking ε α) : Locking ε Unit := ⟨x.result.map fun _ => (), x.events⟩

theorem balanced_void_iff : x.void.Balanced ↔ x.Balanced := by
  unfold void Balanced Moves
  cases x.result with
  | error e => rfl
  | ok a => rfl

end Locking

end Infra
